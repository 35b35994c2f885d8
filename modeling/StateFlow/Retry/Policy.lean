import StateFlow.Invocation.Basic

/-! # Retry policies

A policy says which failures are worth another attempt, how many attempts there are in all, and how
long to wait between them. The waits grow geometrically, in double arithmetic. -/

namespace StateFlow

/-- A class of failures that a policy may name. -/
inductive RetryClass where
  | transport
  | functionError
  | throttled
  | all
deriving DecidableEq, Inhabited

namespace RetryClass

def name : RetryClass → String
  | transport => "transport"
  | functionError => "function_error"
  | throttled => "throttled"
  | all => "all"

def list : List RetryClass := [transport, functionError, throttled, all]

/-- The class of a failure. What was not routed, not understood or refused fails the same way on
every attempt and is in no class. -/
def of? : InvocationError → Option RetryClass
  | .transport _ _ => some transport
  | .functionError _ _ => some functionError
  | .throttled _ _ => some throttled
  | .noInvoker _ | .invalidResponse _ _ | .rejected _ _ => none

end RetryClass

/-- When to try again, and after which wait. -/
structure RetryPolicy where
  /-- The number of attempts, the first included. -/
  maxAttempts : Nat := 3
  /-- The wait after the first attempt, in milliseconds. -/
  intervalMs : Nat := 1000
  /-- Each wait is this many times the one before. -/
  backoffRate : Float := 2.0
  /-- No wait is longer. -/
  maxIntervalMs : Option Nat := none
  retryOn : List RetryClass := [.transport, .throttled]
deriving Inhabited

/-- The power of a double by repeated squaring: the factors are multiplied from the lowest bit of
the exponent upwards. -/
def powerFrom (product base : Float) (exponent : Nat) : Float :=
  let product := if exponent % 2 = 1 then product * base else product
  if exponent / 2 = 0 then product else powerFrom product (base * base) (exponent / 2)
termination_by exponent
decreasing_by omega

def power (base : Float) (exponent : Nat) : Float :=
  powerFrom 1.0 base exponent

/-- The smaller of two doubles; what is no number yields the other. -/
def smaller (a b : Float) : Float :=
  if a.isNaN then b else if b.isNaN then a else if b < a then b else a

namespace RetryPolicy

/-- The policy covers this failure. -/
def isRetryable (policy : RetryPolicy) (failure : InvocationError) : Bool :=
  match RetryClass.of? failure with
  | none => false
  | some cls => policy.retryOn.any fun on => on = .all || on = cls

/-- Another attempt follows the failure of this one; attempts are counted from one. -/
def shouldRetry (policy : RetryPolicy) (attempt : Nat) (failure : InvocationError) : Bool :=
  attempt < policy.maxAttempts && policy.isRetryable failure

/-- The largest exponent of a wait. -/
def maxExponent : Nat := Nat.pow 2 31 - 1

/-- The longest wait that can be asked for. -/
def longestDelay : Nat := Nat.pow 2 64 - 1

/-- The wait behind an attempt, as a double, before it is cut to whole milliseconds. -/
def rawDelay (policy : RetryPolicy) (attempt : Nat) : Float :=
  let grown := Float.ofNat policy.intervalMs
    * power policy.backoffRate (min (attempt - 1) maxExponent)
  match policy.maxIntervalMs with
  | none => grown
  | some bound => smaller grown (Float.ofNat bound)

/-- The wait behind an attempt in milliseconds. A wait that is no proper number is the longest. -/
def delay (policy : RetryPolicy) (attempt : Nat) : Nat :=
  let raw := policy.rawDelay attempt
  if raw.isFinite && 0.0 ≤ raw then raw.toUInt64.toNat
  else policy.maxIntervalMs.getD longestDelay

end RetryPolicy

/-- Why a policy is refused. -/
inductive RetryFault where
  | noAttempts
  | badRate
deriving DecidableEq

def RetryFault.message : RetryFault → String
  | noAttempts => "retry max_attempts must be >= 1"
  | badRate => "retry backoff_rate must be >= 1.0"

/-- There is at least one attempt, and waits do not shrink. -/
def RetryPolicy.validate (policy : RetryPolicy) : Except RetryFault Unit :=
  if policy.maxAttempts = 0 then .error .noAttempts
  else if !policy.backoffRate.isFinite || policy.backoffRate < 1.0 then .error .badRate
  else .ok ()

end StateFlow
