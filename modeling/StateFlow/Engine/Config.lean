import StateFlow.NameTable
import StateFlow.Retry.Policy

/-! # Engine configurations

A configuration bounds executions and routes resources to invokers. Every field has a value without
being given, the stem and the kind of a route aside. -/

namespace StateFlow

/-- What stands behind a route. -/
inductive InvokerKind where
  /-- The input is sent to a function. -/
  | httpFunction
  /-- The input is a message for subscribers of a topic. -/
  | topicWebhook
deriving DecidableEq, Inhabited

namespace InvokerKind

def name : InvokerKind → String
  | httpFunction => "http_function"
  | topicWebhook => "topic_webhook"

def list : List InvokerKind := [httpFunction, topicWebhook]

end InvokerKind

/-- A route as configured. -/
structure RouteConfig where
  stem : String := ""
  kind : InvokerKind := .httpFunction
  /-- Where a function is, or where messages go whose topic has no webhook of its own. -/
  endpoint : Option String := none
  /-- The webhooks of topics. -/
  topics : NameTable String := ∅
  retry : Option RetryPolicy := none
deriving Inhabited

structure EngineConfig where
  /-- The number of states that one execution may enter. -/
  maxSteps : Nat := 1000
  /-- How long a task may take that sets no time of its own, in seconds. -/
  taskTimeoutSeconds : Nat := 60
  /-- How long an execution may take whose definition sets no time, in seconds. -/
  executionTimeoutSeconds : Option Nat := none
  /-- The longest compact text of a document, in bytes. -/
  maxContextBytes : Nat := 10485760
  routes : List RouteConfig := []
deriving Inhabited

/-- A field of a configuration that has to be at least one. -/
inductive Bound where
  | maxSteps
  | taskTimeout
  | executionTimeout
  | maxContextBytes
deriving DecidableEq

def Bound.name : Bound → String
  | maxSteps => "max_steps"
  | taskTimeout => "task_timeout_secs"
  | executionTimeout => "execution_timeout_secs"
  | maxContextBytes => "max_context_bytes"

/-- What is wrong with a configuration. -/
inductive ConfigFault where
  | zero (bound : Bound)
  | emptyStem
  | noEndpoint (stem : String)
  | noWebhooks (stem : String)
  | retry (stem : String) (fault : RetryFault)
deriving DecidableEq

namespace ConfigFault

def reason : ConfigFault → String
  | zero bound => bound.name ++ " must be >= 1"
  | emptyStem => "route prefix must not be empty"
  | noEndpoint stem => "route '" ++ stem ++ "': http_function requires an endpoint"
  | noWebhooks stem => "route '" ++ stem ++ "': topic_webhook requires an endpoint or topics"
  | retry stem fault => "route '" ++ stem ++ "': " ++ fault.message

def message (fault : ConfigFault) : String :=
  "invalid config: " ++ fault.reason

end ConfigFault

/-- A route needs a stem, somewhere to send to, and a proper policy if it has one. -/
def RouteConfig.validate (route : RouteConfig) : Except ConfigFault Unit :=
  if route.stem = "" then .error .emptyStem
  else if route.kind = .httpFunction && route.endpoint.isNone then
    .error (.noEndpoint route.stem)
  else if route.kind = .topicWebhook && route.endpoint.isNone && route.topics.isEmpty then
    .error (.noWebhooks route.stem)
  else match route.retry with
    | none => .ok ()
    | some policy => policy.validate.mapError (.retry route.stem)

namespace EngineConfig

def validateRoutes : List RouteConfig → Except ConfigFault Unit
  | [] => .ok ()
  | route :: rest => do
    route.validate
    validateRoutes rest

/-- The first thing wrong: bounds of zero, then the routes in order. -/
def validate (config : EngineConfig) : Except ConfigFault Unit :=
  if config.maxSteps = 0 then .error (.zero .maxSteps)
  else if config.taskTimeoutSeconds = 0 then .error (.zero .taskTimeout)
  else if config.executionTimeoutSeconds = some 0 then .error (.zero .executionTimeout)
  else if config.maxContextBytes = 0 then .error (.zero .maxContextBytes)
  else validateRoutes config.routes

end EngineConfig

end StateFlow
