import StateFlow.Engine.Config
import StateFlow.Invocation.Function
import StateFlow.Invocation.Topic
import StateFlow.Registry.Basic

/-! # Registries of configurations

Each configured route becomes an invoker, and the routes are registered in their order. -/

namespace StateFlow

variable {σ : Type}

open Http (Network)

/-- The route that a configured one stands for. -/
def RouteConfig.build (network : Network σ) (route : RouteConfig) :
    Except ConfigFault (Route σ) :=
  let routed (invoker : Invoker σ) : Route σ := ⟨route.stem, invoker, route.retry⟩
  match route.kind with
  | .httpFunction =>
    match route.endpoint with
    | none => .error (.noEndpoint route.stem)
    | some address => .ok (routed (RemoteFunction.invoker network address))
  | .topicWebhook => .ok (routed (Topic.invoker network ⟨route.topics, route.endpoint⟩))

namespace EngineConfig

/-- Register routes one after the other. -/
def registerAll (network : Network σ) : Registry σ → List RouteConfig →
    Except ConfigFault (Registry σ)
  | registry, [] => .ok registry
  | registry, route :: rest => do
    let built ← route.build network
    registerAll network (registry.register built) rest

/-- The registry of a configuration. -/
def buildRegistry (network : Network σ) (config : EngineConfig) :
    Except ConfigFault (Registry σ) :=
  registerAll network {} config.routes

end EngineConfig

end StateFlow
