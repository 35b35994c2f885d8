import StateFlow.Engine.Config
import StateFlow.Json.Decode

/-! # Configurations as documents

A policy may lack any of its fields. What is absent is not written, nor is an empty table of
topics. -/

namespace StateFlow

open Source (Decoded RecordField)

namespace RetryPolicy

/-- The fields of a policy, in the order of the list form. -/
def fields : List (RecordField RetryPolicy) :=
  [.spare "max_attempts" Source.asWord32 fun v p => { p with maxAttempts := v },
   .spare "interval_ms" Source.asWord64 fun v p => { p with intervalMs := v },
   .spare "backoff_rate" Source.asFloat fun v p => { p with backoffRate := v },
   .spare "max_interval_ms" (Source.asOption Source.asWord64) fun v p =>
     { p with maxIntervalMs := v },
   .spare "retry_on"
     (Source.asList (Source.asVariant (RetryClass.list.map fun cls => (cls.name, cls))))
     fun v p => { p with retryOn := v }]

/-- Decode a policy. -/
def decode (source : Source) : Decoded RetryPolicy :=
  source.asRecord fields {} .invalidLength

/-- A policy as a document. -/
def toJson (policy : RetryPolicy) : Json :=
  .ofMembers <|
    [("max_attempts", .ofNat policy.maxAttempts),
     ("interval_ms", .ofNat policy.intervalMs),
     ("backoff_rate", .number (.float policy.backoffRate)),
     ("retry_on", .array (policy.retryOn.map fun cls => .string cls.name))]
    ++ (policy.maxIntervalMs.map fun bound => ("max_interval_ms", Json.ofNat bound)).toList

end RetryPolicy

namespace RouteConfig

/-- The fields of a route, in the order of the list form. -/
def fields : List (RecordField RouteConfig) :=
  [.needed "prefix" Source.asText fun v r => { r with stem := v },
   .needed "kind" (Source.asVariant (InvokerKind.list.map fun kind => (kind.name, kind)))
     fun v r => { r with kind := v },
   .spare "endpoint" (Source.asOption Source.asText) fun v r => { r with endpoint := v },
   .spare "topics" (Source.asTable Source.asText) fun v r => { r with topics := v },
   .spare "retry" (Source.asOption RetryPolicy.decode) fun v r => { r with retry := v }]

def decode (source : Source) : Decoded RouteConfig :=
  source.asRecord fields {} .invalidLength

/-- A route as a document. -/
def toJson (route : RouteConfig) : Json :=
  let topics := route.topics.entries.map fun (topic, webhook) => (topic, Json.string webhook)
  .ofMembers <|
    [("prefix", .string route.stem), ("kind", .string route.kind.name)]
    ++ (route.endpoint.map fun endpoint => ("endpoint", Json.string endpoint)).toList
    ++ (if topics.isEmpty then [] else [("topics", .object topics)])
    ++ (route.retry.map fun policy => ("retry", policy.toJson)).toList

end RouteConfig

namespace EngineConfig

/-- The fields of a configuration, in the order of the list form. -/
def fields : List (RecordField EngineConfig) :=
  [.spare "max_steps" Source.asWord32 fun v c => { c with maxSteps := v },
   .spare "task_timeout_secs" Source.asWord64 fun v c => { c with taskTimeoutSeconds := v },
   .spare "execution_timeout_secs" (Source.asOption Source.asWord64) fun v c =>
     { c with executionTimeoutSeconds := v },
   .spare "max_context_bytes" Source.asWord64 fun v c => { c with maxContextBytes := v },
   .spare "routes" (Source.asList RouteConfig.decode) fun v c => { c with routes := v }]

/-- Decode a configuration. -/
def decode (source : Source) : Decoded EngineConfig :=
  source.asRecord fields {} .invalidLength

/-- A configuration as a document. -/
def toJson (config : EngineConfig) : Json :=
  .ofMembers <|
    [("max_steps", .ofNat config.maxSteps),
     ("task_timeout_secs", .ofNat config.taskTimeoutSeconds),
     ("max_context_bytes", .ofNat config.maxContextBytes),
     ("routes", .array (config.routes.map RouteConfig.toJson))]
    ++ (config.executionTimeoutSeconds.map fun n =>
        ("execution_timeout_secs", Json.ofNat n)).toList

end EngineConfig

end StateFlow
