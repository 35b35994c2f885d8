import Mathlib.Data.Nat.Find
import StateFlow.Proofs.Registry.Horizon

/-!
# How often an invocation is tried

Attempts are counted from one. The row of attempts that would be made if none of them were the last
is told by where each of them begins: the first at once, and each other one after the answer to the
one before and the wait that the policy asks for. An invocation makes the attempts of this row up to
the first whose answer is final, and yields that answer.
-/

namespace StateFlow

variable {σ : Type}

/-- The policy covers the failure. What was not routed, not understood or refused is covered by no
policy. -/
inductive RetryPolicy.Covers (policy : RetryPolicy) : InvocationError → Prop
  | transport {resource reason}
      (hclass : .transport ∈ policy.retryOn ∨ .all ∈ policy.retryOn) :
      Covers policy (.transport resource reason)
  | functionError {resource message}
      (hclass : .functionError ∈ policy.retryOn ∨ .all ∈ policy.retryOn) :
      Covers policy (.functionError resource message)
  | throttled {resource reason}
      (hclass : .throttled ∈ policy.retryOn ∨ .all ∈ policy.retryOn) :
      Covers policy (.throttled resource reason)

namespace Route

/-- The outcome of the attempt of this number is not followed by another attempt. -/
inductive Final (route : Route σ) (attempt : Nat) : Outcome → Prop
  | value {value} : Final route attempt (.ok value)
  | uncovered {failure}
      (hcovers : ∀ policy, route.retry = some policy → ¬ policy.Covers failure) :
      Final route attempt (.error failure)
  | last {outcome} (hlast : attempt = max 1 route.maxAttempts) : Final route attempt outcome

/-- The wait that is asked for behind an attempt, in milliseconds. -/
def pause (route : Route σ) (attempt : Nat) : Nat :=
  match route.retry with
  | none => 0
  | some policy => policy.delay attempt

/-- Where an attempt begins. -/
structure Turn (σ : Type) where
  moment : Nat
  world : σ

section Row

variable (route : Route σ) (resource : String) (input : Json) (now : Nat) (world : σ)

/-- Where an attempt begins if none before it is the last. -/
def turn : Nat → Turn σ
  | 0 | 1 => ⟨now, world⟩
  | attempt + 2 =>
    let before := turn (attempt + 1)
    let (reply, next) := route.invoker.reply before.world before.moment resource input
    ⟨before.moment + Clock.lasting reply.delay + Clock.lasting (route.pause (attempt + 1)), next⟩

/-- The call of an attempt, if none before it is the last. -/
def call (attempt : Nat) : Call :=
  let turn := route.turn resource input now world attempt
  ⟨turn.moment, route.invoker.name, resource, input,
    (route.invoker.reply turn.world turn.moment resource input).1⟩

/-- The outcome of an attempt, if none before it is the last. -/
def outcome (attempt : Nat) : Outcome :=
  (route.call resource input now world attempt).reply.outcome

/-- When the answer to an attempt comes. -/
def answered (attempt : Nat) : Nat :=
  let call := route.call resource input now world attempt
  call.time + Clock.lasting call.reply.delay

end Row

end Route

/-! ## Which answers are final -/

namespace RetryPolicy

variable {policy : RetryPolicy} {failure : InvocationError}

theorem any_class_iff {cls : RetryClass} :
    (policy.retryOn.any fun on => on = .all || on = cls) = true ↔
      cls ∈ policy.retryOn ∨ .all ∈ policy.retryOn := by
  simp only [List.any_eq_true, Bool.or_eq_true, decide_eq_true_eq, and_or_left, exists_or,
    exists_eq_right]
  exact or_comm

theorem isRetryable_iff : policy.isRetryable failure = true ↔ policy.Covers failure := by
  rw [isRetryable]
  constructor
  · intro h
    cases failure with
    | transport resource reason => exact Covers.transport (any_class_iff.mp h)
    | functionError resource message => exact Covers.functionError (any_class_iff.mp h)
    | throttled resource reason => exact Covers.throttled (any_class_iff.mp h)
    | noInvoker | invalidResponse | rejected => cases h
  · rintro (hclass | hclass | hclass) <;> exact any_class_iff.mpr hclass

end RetryPolicy

namespace Route

variable {route : Route σ} {attempt spare : Nat} {outcome : Outcome}

theorem retries_iff {failure : InvocationError} :
    route.retries attempt failure = true ↔
      ∃ policy, route.retry = some policy ∧ attempt < policy.maxAttempts ∧
        policy.Covers failure := by
  rw [retries]
  cases route.retry with
  | none => simp
  | some policy => simp [RetryPolicy.shouldRetry, RetryPolicy.isRetryable_iff]

/-- An answer is final exactly if it is no failure to be tried again while attempts are left. -/
theorem final_iff (hfirst : 1 ≤ attempt) (hspare : attempt + spare = max 1 route.maxAttempts) :
    route.Final attempt outcome ↔
      ∀ failure, outcome = .error failure → spare = 0 ∨ route.retries attempt failure = false := by
  constructor
  · rintro (_ | hcovers | hlast) failure hfailure
    · cases hfailure
    · cases hfailure
      refine Or.inr (Bool.eq_false_iff.mpr fun hretries => ?_)
      obtain ⟨policy, hpolicy, -, hcovered⟩ := retries_iff.mp hretries
      exact hcovers policy hpolicy hcovered
    · exact Or.inl (by omega)
  · intro h
    cases outcome with
    | ok value => exact Final.value
    | error failure =>
        rcases h failure rfl with hzero | hretries
        · exact Final.last (by omega)
        · by_cases hlast : attempt = max 1 route.maxAttempts
          · exact Final.last hlast
          · refine Final.uncovered fun policy hpolicy hcovers => ?_
            have hmost : route.maxAttempts = policy.maxAttempts := by rw [maxAttempts, hpolicy]
            have hleft : attempt < policy.maxAttempts := by omega
            rw [retries_iff.mpr ⟨policy, hpolicy, hleft, hcovers⟩] at hretries
            cases hretries

/-- After an answer that is not final there is an attempt to spare. -/
theorem exists_of_not_final (hfirst : 1 ≤ attempt)
    (hspare : attempt + spare = max 1 route.maxAttempts) (h : ¬ route.Final attempt outcome) :
    ∃ failure, outcome = .error failure ∧ spare ≠ 0 ∧ route.retries attempt failure = true := by
  rw [final_iff hfirst hspare] at h
  simp only [Classical.not_forall, not_or, Bool.not_eq_false] at h
  obtain ⟨failure, hfailure, hzero, hretries⟩ := h
  exact ⟨failure, hfailure, hzero, hretries⟩

theorem exists_policy_of_not_final (h : ¬ route.Final attempt outcome) :
    ∃ policy, route.retry = some policy := by
  apply Option.ne_none_iff_exists'.mp
  intro hnone
  apply h
  cases outcome with
  | ok value => exact Final.value
  | error failure =>
      apply Final.uncovered
      intro policy hpolicy
      cases hnone.symm.trans hpolicy

section Row

variable {resource : String} {input : Json} {now : Nat} {world : σ}

theorem wait_eq : route.wait attempt = Clock.lasting (route.pause attempt) := by
  rw [wait, pause]
  cases route.retry <;> rfl

/-- The next attempt begins when the answer has come and the wait behind it is over. -/
theorem turn_succ (hfirst : 1 ≤ attempt) :
    route.turn resource input now world (attempt + 1) =
      ⟨route.answered resource input now world attempt + route.wait attempt,
        (route.invoker.reply (route.turn resource input now world attempt).world
          (route.turn resource input now world attempt).moment resource input).2⟩ := by
  rw [wait_eq]
  obtain ⟨before, rfl⟩ := Nat.exists_eq_add_of_le' hfirst
  rfl

end Row

end Route

/-! ## The attempts of an invocation -/

namespace Registry

variable {registry : Registry σ} {route : Route σ} {resource : String} {input : Json}
  {now attempt spare : Nat} {world : σ}

/-- A final answer is the end of the invocation. -/
theorem attempts_of_final (hfirst : 1 ≤ attempt)
    (hspare : attempt + spare = max 1 route.maxAttempts)
    (hfinal : route.Final attempt (route.outcome resource input now world attempt)) :
    attempts route resource input none spare attempt
        (route.turn resource input now world attempt).moment
        (route.turn resource input now world attempt).world =
      ⟨[route.call resource input now world attempt],
        some (route.answered resource input now world attempt,
          route.outcome resource input now world attempt),
        (route.turn resource input now world (attempt + 1)).world⟩ := by
  rw [Route.turn_succ hfirst]
  exact attempts_of_attempted
    (Route.Attempted.answered rfl rfl ((Route.final_iff hfirst hspare).mp hfinal))

/-- An answer that is not final is followed by the other attempts. -/
theorem attempts_of_not_final (hfirst : 1 ≤ attempt)
    (hspare : attempt + (spare + 1) = max 1 route.maxAttempts)
    (hfinal : ¬ route.Final attempt (route.outcome resource input now world attempt)) :
    attempts route resource input none (spare + 1) attempt
        (route.turn resource input now world attempt).moment
        (route.turn resource input now world attempt).world =
      (attempts route resource input none spare (attempt + 1)
        (route.turn resource input now world (attempt + 1)).moment
        (route.turn resource input now world (attempt + 1)).world).prepend
          (route.call resource input now world attempt) := by
  obtain ⟨failure, hfailure, -, hretries⟩ := Route.exists_of_not_final hfirst hspare hfinal
  rw [Route.turn_succ hfirst]
  exact attempts_of_attempted
    (Route.Attempted.retried rfl rfl hfailure hretries rfl (attempted_attempts _ _ _ _))

/-- The attempts from one of the row on are those of the row up to the first final answer. -/
theorem attempts_turn {gap last : Nat} (hgap : attempt + gap = last) (hfirst : 1 ≤ attempt)
    (hspare : attempt + spare = max 1 route.maxAttempts)
    (hfinal : route.Final last (route.outcome resource input now world last))
    (hearlier : ∀ i, attempt ≤ i → i < last →
      ¬ route.Final i (route.outcome resource input now world i)) :
    attempts route resource input none spare attempt
        (route.turn resource input now world attempt).moment
        (route.turn resource input now world attempt).world =
      ⟨(List.range' attempt (gap + 1)).map (route.call resource input now world),
        some (route.answered resource input now world last,
          route.outcome resource input now world last),
        (route.turn resource input now world (last + 1)).world⟩ := by
  induction gap generalizing attempt spare with
  | zero =>
      obtain rfl : attempt = last := hgap
      exact attempts_of_final hfirst hspare hfinal
  | succ gap ih =>
      have hnot := hearlier attempt (Nat.le_refl _) (by omega)
      obtain ⟨-, -, hzero, -⟩ := Route.exists_of_not_final hfirst hspare hnot
      obtain ⟨spare, rfl⟩ := Nat.exists_eq_succ_of_ne_zero hzero
      rw [attempts_of_not_final hfirst hspare hnot, ih (by omega) (by omega) (by omega)
        fun i hle => hearlier i (by omega)]
      rfl

/-- Some answer is the first final one, and no later than the last attempt that the route allows. -/
theorem exists_first_final (route : Route σ) (resource : String) (input : Json) (now : Nat)
    (world : σ) :
    ∃ last, 1 ≤ last ∧ last ≤ max 1 route.maxAttempts ∧
      route.Final last (route.outcome resource input now world last) ∧
      ∀ i, 1 ≤ i → i < last →
        ¬ route.Final i (route.outcome resource input now world i) := by
  classical
  have hexists : ∃ i, 1 ≤ i ∧ route.Final i (route.outcome resource input now world i) :=
    ⟨max 1 route.maxAttempts, Nat.le_max_left .., Route.Final.last rfl⟩
  obtain ⟨hfirst, hfinal⟩ := Nat.find_spec hexists
  refine ⟨Nat.find hexists, hfirst, ?_, hfinal, fun i hi hlt hother => ?_⟩
  · exact Nat.find_min' hexists ⟨Nat.le_max_left .., Route.Final.last rfl⟩
  · exact Nat.find_min hexists hlt ⟨hi, hother⟩

/-- A resource with a route is tried up to the first final answer, which the invocation yields. All
attempts are one request to the invoker of the route. The first begins at once, and each other one
when the answer to the one before has come and the wait that the policy asks for is over; nothing
else takes time. Their number is held by a word of 32 bits if the number that the policy allows
is. -/
theorem invoke_until_final (hroute : registry.route? resource = some route) (input : Json)
    (now : Nat) (world : σ) :
    let call := route.call resource input now world
    ∃ k, 1 ≤ k ∧ k ≤ max 1 route.maxAttempts ∧
      route.Final k (call k).reply.outcome ∧
      (∀ i, 1 ≤ i → i < k → ¬ route.Final i (call i).reply.outcome) ∧
      registry.invoke resource input none now world =
        ⟨(List.range' 1 k).map call,
          some ((call k).time + Clock.lasting (call k).reply.delay, (call k).reply.outcome),
          (route.turn resource input now world (k + 1)).world⟩ ∧
      (∀ call ∈ (registry.invoke resource input none now world).calls,
        route.Serves resource input call) ∧
      (call 1).time = now ∧
      (∀ i, 1 ≤ i → i < k → ∃ policy, route.retry = some policy ∧
        (call (i + 1)).time =
          (call i).time + Clock.lasting (call i).reply.delay + Clock.lasting (policy.delay i)) ∧
      (route.maxAttempts < UInt32.size → k < UInt32.size) := by
  intro call
  obtain ⟨k, hfirst, hmost, hfinal, hearlier⟩ :=
    exists_first_final route resource input now world
  have hspare : 1 + route.spares = max 1 route.maxAttempts := by
    rw [Nat.add_comm, route.spares_add_one]
  have hinvoke : registry.invoke resource input none now world =
      attempts route resource input none route.spares 1 now world := by
    rw [invoke, hroute]
  refine ⟨k, hfirst, hmost, hfinal, hearlier, ?_, ?_, rfl, fun i hi hlt => ?_, fun hword => ?_⟩
  · have hgap : 1 + (k - 1) = k := Nat.add_sub_cancel' hfirst
    have hrow := attempts_turn hgap (Nat.le_refl 1) hspare hfinal hearlier
    rw [Nat.sub_add_cancel hfirst] at hrow
    exact hinvoke.trans hrow
  · rw [hinvoke]
    exact serves_of_attempted (attempted_attempts _ _ _ _)
  · obtain ⟨policy, hpolicy⟩ := Route.exists_policy_of_not_final (hearlier i hi hlt)
    have hpause : route.pause i = policy.delay i := by rw [Route.pause, hpolicy]
    refine ⟨policy, hpolicy, ?_⟩
    calc (call (i + 1)).time
        = route.answered resource input now world i + route.wait i :=
          congrArg Route.Turn.moment (Route.turn_succ hi)
      _ = (call i).time + Clock.lasting (call i).reply.delay + Clock.lasting (policy.delay i) := by
          rw [Route.wait_eq, hpause]
          rfl
  · exact Nat.lt_of_le_of_lt hmost (Nat.max_lt.mpr ⟨by decide, hword⟩)

/-- An invoker that has less and less to offer: it throttles, then it fails, then it refuses. -/
def weary : Invoker Nat where
  name := "weary"
  reply
    | 0, _, resource, _ => (⟨5, .error (.throttled resource "busy")⟩, 1)
    | 1, _, resource, _ => (⟨5, .error (.functionError resource "crash")⟩, 2)
    | count, _, resource, _ => (⟨5, .error (.rejected resource "closed")⟩, count + 1)

def wearyRoute : Route Nat := ⟨"fn:", weary, some { maxAttempts := 9, retryOn := [.all] }⟩

def wearyRegistry : Registry Nat := Registry.register {} wearyRoute

/-- The refusal is final after three of nine attempts: no policy covers it. -/
theorem invoke_until_refused :
    wearyRegistry.route? "fn:pay" = some wearyRoute ∧
      ∃ first second third left,
        wearyRegistry.invoke "fn:pay" .null none 0 0 =
          ⟨[first, second, third], some (left, .error (.rejected "fn:pay" "closed")), 3⟩ := by
  have hroute : wearyRegistry.route? "fn:pay" = some wearyRoute := rfl
  obtain ⟨k, hfirst, -, hfinal, hearlier, hinvoke, -⟩ :=
    invoke_until_final hroute .null 0 0
  have hthrottled : ¬ wearyRoute.Final 1 (wearyRoute.call "fn:pay" .null 0 0 1).reply.outcome := by
    intro h
    have hspare : 1 + 8 = max 1 wearyRoute.maxAttempts := rfl
    have hretries := (Route.final_iff (by decide) hspare).mp h _ rfl
    revert hretries
    decide
  have hfailed : ¬ wearyRoute.Final 2 (wearyRoute.call "fn:pay" .null 0 0 2).reply.outcome := by
    intro h
    have hspare : 2 + 7 = max 1 wearyRoute.maxAttempts := rfl
    have hretries := (Route.final_iff (by decide) hspare).mp h _ rfl
    revert hretries
    decide
  have hrefused : wearyRoute.Final 3 (wearyRoute.call "fn:pay" .null 0 0 3).reply.outcome :=
    Route.Final.uncovered fun _ _ => nofun
  obtain rfl : k = 3 := by
    have hne1 : k ≠ 1 := fun h => hthrottled (h ▸ hfinal)
    have hne2 : k ≠ 2 := fun h => hfailed (h ▸ hfinal)
    have hle : ¬ 3 < k := fun h => hearlier 3 (by decide) h hrefused
    omega
  exact ⟨hroute, _, _, _, _, hinvoke⟩

end Registry

end StateFlow
