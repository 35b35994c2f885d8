import StateFlow.Proofs.Registry.Horizon
import StateFlow.Proofs.Retry.Double

/-!
# Policies without an interval

The waits of a policy are its interval times what has grown up to the attempt. With an interval of
nothing they are nothing for as long as that is a number: nothing times infinity is no number, and
a wait that is none is as long as a wait of the policy may be. An invocation takes what its attempts
take, and each wait between them.
-/

namespace StateFlow

open Double (FromOne)
open Float.Model (UnpackedFloat)

variable {σ : Type}

/-- The policy can tell the wait behind an attempt: what its interval is multiplied with is still a
number, or no wait is longer than none. -/
def RetryPolicy.InRange (policy : RetryPolicy) (attempt : Nat) : Prop :=
  policy.maxIntervalMs = some 0 ∨
    (power policy.backoffRate (min (attempt - 1) RetryPolicy.maxExponent)).isFinite = true

/-- What the attempts of an invocation take themselves. -/
def Invocation.spent (invocation : Invocation σ) : Nat :=
  (invocation.calls.map fun call => Clock.lasting call.reply.delay).sum

namespace RetryPolicy

variable {policy : RetryPolicy} {attempt bound : Nat}

/-! ## Nothing times a number -/

theorem unpack_ofNat_zero : (Float.ofNat 0).toModel.unpack = .zero .positive := rfl

theorem zero_mul_of_isFinite {factor : Float} (h : factor.isFinite = true) :
    ∃ sign, (Float.ofNat 0 * factor).toModel.unpack = .zero sign := by
  have hfinite : factor.toModel.unpack.isFinite = true := h
  show ∃ sign, (Float.Model.pack (UnpackedFloat.mul _ (Float.ofNat 0).toModel.unpack
    factor.toModel.unpack)).unpack = _
  rw [unpack_ofNat_zero]
  cases hfactor : factor.toModel.unpack with
  | zero sign | finite sign =>
      refine ⟨sign, ?_⟩
      rw [UnpackedFloat.mul]
      cases sign <;> rfl
  | infinity | notANumber =>
      rw [hfactor] at hfinite
      cases hfinite

theorem zero_mul_of_not_isFinite {factor : Float} (h : factor.isFinite = false) :
    (Float.ofNat 0 * factor).toModel.unpack = .notANumber := by
  have hinfinite : factor.toModel.unpack.isFinite = false := h
  show (Float.Model.pack (UnpackedFloat.mul _ (Float.ofNat 0).toModel.unpack
    factor.toModel.unpack)).unpack = _
  rw [unpack_ofNat_zero]
  cases hfactor : factor.toModel.unpack with
  | infinity =>
      rw [UnpackedFloat.mul]
      rfl
  | notANumber =>
      rw [UnpackedFloat.mul]
      · rfl
      · intro hzero
        cases hzero
  | zero | finite =>
      rw [hfactor] at hinfinite
      cases hinfinite

theorem smaller_of_notANumber {a : Float} (h : a.toModel.unpack = .notANumber) (b : Float) :
    smaller a b = b := by
  have hnan : a.isNaN = true := by
    show a.toModel.unpack.isNaN = true
    rw [h]
    rfl
  rw [smaller, if_pos hnan]

/-- Zero is the smaller of two whole numbers. -/
theorem smaller_of_zero {a : Float} {sign} (h : a.toModel.unpack = .zero sign) (n : Nat) :
    smaller a (Float.ofNat n) = a := by
  have hnan : ¬ a.isNaN = true := by
    show ¬ a.toModel.unpack.isNaN = true
    rw [h]
    nofun
  have hnumber : ¬ (Float.ofNat n).isNaN = true ∧ ¬ Float.ofNat n < a := by
    show ¬ (Float.ofNat n).toModel.unpack.isNaN = true ∧
      ¬ decide ((Float.ofNat n).toModel.unpack.lt a.toModel.unpack = true) = true
    rw [h]
    rcases n.eq_zero_or_pos with rfl | hpos
    · rw [unpack_ofNat_zero]
      exact ⟨nofun, nofun⟩
    · have hone := Double.fromOne_ofNat hpos
      generalize (Float.ofNat n).toModel.unpack = value at hone
      cases hone <;> exact ⟨nofun, nofun⟩
  rw [smaller, if_neg hnan, if_neg hnumber.1, if_neg hnumber.2]

/-! ## The waits -/

theorem rawDelay_of_isFinite (hinterval : policy.intervalMs = 0)
    (h : (power policy.backoffRate (min (attempt - 1) maxExponent)).isFinite = true) :
    ∃ sign, (policy.rawDelay attempt).toModel.unpack = .zero sign := by
  obtain ⟨sign, hzero⟩ := zero_mul_of_isFinite h
  refine ⟨sign, ?_⟩
  rw [rawDelay, hinterval]
  cases policy.maxIntervalMs with
  | none => exact hzero
  | some bound => exact (congrArg (·.toModel.unpack) (smaller_of_zero hzero bound)).trans hzero

theorem rawDelay_of_not_isFinite (hinterval : policy.intervalMs = 0)
    (h : (power policy.backoffRate (min (attempt - 1) maxExponent)).isFinite = false) :
    (policy.rawDelay attempt).toModel.unpack =
      match policy.maxIntervalMs with
      | none => .notANumber
      | some bound => (Float.ofNat bound).toModel.unpack := by
  have hnan := zero_mul_of_not_isFinite h
  rw [rawDelay, hinterval]
  cases policy.maxIntervalMs with
  | none => exact hnan
  | some bound => exact congrArg (·.toModel.unpack) (smaller_of_notANumber hnan _)

theorem delay_of_zero {sign} (h : (policy.rawDelay attempt).toModel.unpack = .zero sign) :
    policy.delay attempt = 0 := by
  have hraw : ((policy.rawDelay attempt).isFinite && 0.0 ≤ policy.rawDelay attempt) = true := by
    show ((policy.rawDelay attempt).toModel.unpack.isFinite && decide (decide
      ((0.0 : Float).toModel.unpack.le (policy.rawDelay attempt).toModel.unpack = true) = true)) =
      true
    rw [h]
    rfl
  rw [delay, if_pos hraw]
  show (policy.rawDelay attempt).toModel.unpack.toUInt64.toNat = 0
  rw [h]
  rfl

theorem delay_of_fromOne (h : FromOne (policy.rawDelay attempt).toModel.unpack)
    (hlongest : policy.maxIntervalMs.getD longestDelay ≠ 0) : policy.delay attempt ≠ 0 := by
  rw [delay]
  split
  · exact h.toUInt64_ne_zero
  · exact hlongest

theorem delay_of_notANumber (h : (policy.rawDelay attempt).toModel.unpack = .notANumber) :
    policy.delay attempt = policy.maxIntervalMs.getD longestDelay := by
  have hraw : ¬ ((policy.rawDelay attempt).isFinite && 0.0 ≤ policy.rawDelay attempt) = true := by
    show ¬ ((policy.rawDelay attempt).toModel.unpack.isFinite && _) = true
    rw [h]
    nofun
  rw [delay, if_neg hraw]

theorem delay_eq_zero_iff (hinterval : policy.intervalMs = 0) (attempt : Nat) :
    policy.delay attempt = 0 ↔ policy.InRange attempt := by
  cases h : (power policy.backoffRate (min (attempt - 1) maxExponent)).isFinite with
  | true =>
      obtain ⟨sign, hzero⟩ := rawDelay_of_isFinite hinterval h
      exact iff_of_true (delay_of_zero hzero) (.inr h)
  | false =>
      have hraw := rawDelay_of_not_isFinite hinterval h
      have hrange : policy.InRange attempt ↔ policy.maxIntervalMs = some 0 := by
        rw [InRange, h, Bool.false_eq_true, or_false]
      rw [hrange]
      cases hbound : policy.maxIntervalMs with
      | none =>
          rw [hbound] at hraw
          rw [delay_of_notANumber hraw, hbound]
          decide
      | some bound =>
          rw [hbound] at hraw
          rcases bound.eq_zero_or_pos with rfl | hpos
          · exact iff_of_true (delay_of_zero hraw) rfl
          · have hne : bound ≠ 0 := Nat.ne_of_gt hpos
            refine iff_of_false (delay_of_fromOne ?_ ?_) ?_
            · rw [hraw]
              exact Double.fromOne_ofNat hpos
            · rw [hbound]
              exact hne
            · exact fun h => hne (Option.some.inj h)

end RetryPolicy

/-! ## What an invocation takes -/

namespace Registry

variable {registry : Registry σ} {route : Route σ} {policy : RetryPolicy} {resource : String}
  {input : Json} {now : Nat} {world : σ} {invocation : Invocation σ}

@[simp] theorem spent_prepend (call : Call) (invocation : Invocation σ) :
    (invocation.prepend call).spent = Clock.lasting call.reply.delay + invocation.spent :=
  rfl

/-- Attempts that nothing interrupts take what they take themselves and the waits between them. -/
theorem exists_ending_of_attempted {spare attempt : Nat}
    (h : route.Attempted resource input none spare attempt now world invocation) :
    ∃ outcome, invocation.ending = some (now + invocation.spent +
      ((List.range' attempt (invocation.calls.length - 1)).map route.wait).sum, outcome) := by
  induction h with
  | unanswered _ hlate | abandoned _ _ _ _ hlate => cases hlate
  | answered => exact ⟨_, rfl⟩
  | @retried spare attempt now world reply next failure rest hreply _ _ _ _ tail ih =>
      obtain ⟨outcome, hending⟩ := ih
      refine ⟨outcome, ?_⟩
      have hlength : (rest.prepend ⟨now, route.invoker.name, resource, input, reply⟩).calls.length
          - 1 = rest.calls.length - 1 + 1 := by
        have := (length_calls_of_attempted tail).1
        show rest.calls.length + 1 - 1 = _
        omega
      rw [hlength, List.range'_succ, List.map_cons, List.sum_cons, spent_prepend]
      refine hending.trans ?_
      congr 2
      show _ = now + (Clock.lasting reply.delay + rest.spent) + _
      omega

/-- With an interval of nothing the wait behind an attempt is nothing exactly if the policy can tell
it; and an invocation takes no more than its attempts exactly if the policy can tell every wait
between them. -/
theorem invoke_without_interval (hroute : registry.route? resource = some route)
    (hpolicy : route.retry = some policy) (hinterval : policy.intervalMs = 0) (input : Json)
    (now : Nat) (world : σ) :
    (∀ attempt, policy.delay attempt = 0 ↔ policy.InRange attempt) ∧
      let invocation := registry.invoke resource input none now world
      ∃ left outcome, invocation.ending = some (left, outcome) ∧
        now + invocation.spent ≤ left ∧
        (left = now + invocation.spent ↔
          ∀ attempt, 1 ≤ attempt → attempt < invocation.calls.length →
            policy.InRange attempt) := by
  refine ⟨RetryPolicy.delay_eq_zero_iff hinterval, ?_⟩
  have hattempted : route.Attempted resource input none route.spares 1 now world
      (registry.invoke resource input none now world) := by
    rw [invoke, hroute]
    exact attempted_attempts _ _ _ _
  generalize registry.invoke resource input none now world = invocation at hattempted
  obtain ⟨outcome, hending⟩ := exists_ending_of_attempted hattempted
  have hfirst := (length_calls_of_attempted hattempted).1
  refine ⟨_, outcome, hending, Nat.le_add_right _ _, ?_⟩
  rw [Nat.add_eq_left, List.sum_eq_zero_iff_forall_eq_nat]
  simp only [List.forall_mem_map, List.mem_range'_1]
  refine forall_congr' fun attempt => ?_
  have hwait : route.wait attempt = 0 ↔ policy.InRange attempt := by
    rw [Route.wait, hpolicy]
    exact Clock.lasting_eq_zero_iff.trans (RetryPolicy.delay_eq_zero_iff hinterval attempt)
  rw [hwait]
  constructor
  · exact fun h hle hlt => h ⟨hle, by omega⟩
  · exact fun h hmem => h hmem.1 (by omega)

/-- An invoker that throttles whatever it is asked for. -/
def busy : Invoker Unit where
  name := "busy"
  reply world _ resource _ := (⟨5, .error (.throttled resource "busy")⟩, world)

def eagerPolicy : RetryPolicy := { maxAttempts := 3, intervalMs := 0 }

def eagerRoute : Route Unit := ⟨"fn:", busy, some eagerPolicy⟩

def eagerRegistry : Registry Unit := Registry.register {} eagerRoute

/-- Three attempts of five milliseconds each, and no wait between them. -/
theorem invoke_without_interval_of_eager :
    eagerRegistry.route? "fn:pay" = some eagerRoute ∧ eagerRoute.retry = some eagerPolicy ∧
      eagerPolicy.intervalMs = 0 ∧
      ∃ outcome,
        (eagerRegistry.invoke "fn:pay" .null none 0 ()).ending = some (15, outcome) := by
  have hroute : eagerRegistry.route? "fn:pay" = some eagerRoute := rfl
  have hpolicy : eagerRoute.retry = some eagerPolicy := rfl
  refine ⟨hroute, hpolicy, rfl, ?_⟩
  obtain ⟨-, left, outcome, hending, -, hspent⟩ :=
    invoke_without_interval hroute hpolicy rfl .null 0 ()
  have hlength : (eagerRegistry.invoke "fn:pay" .null none 0 ()).calls.length = 3 := by
    decide +kernel
  have hrange : ∀ attempt, 1 ≤ attempt →
      attempt < (eagerRegistry.invoke "fn:pay" .null none 0 ()).calls.length →
        eagerPolicy.InRange attempt := by
    intro attempt hfirst hlast
    rw [hlength] at hlast
    obtain rfl | rfl : attempt = 1 ∨ attempt = 2 := by omega
    · exact .inr (by decide +kernel)
    · exact .inr (by decide +kernel)
  have hleft : left = 15 := by
    rw [hspent.mpr hrange]
    decide +kernel
  exact ⟨outcome, hleft ▸ hending⟩

end Registry

/-- A policy with many attempts, an interval of nothing, and the growth that policies have. -/
def RetryPolicy.stubborn : RetryPolicy := { maxAttempts := 2000, intervalMs := 0 }

/-- Behind the attempt by which the growth is infinite there is a wait of thirty years. -/
theorem RetryPolicy.delay_of_stubborn :
    stubborn.validate = .ok () ∧ stubborn.intervalMs = 0 ∧ 1025 < stubborn.maxAttempts ∧
      stubborn.delay 1024 = 0 ∧ stubborn.delay 1025 = longestDelay ∧
      Clock.lasting (stubborn.delay 1025) = Clock.longest := by
  have hbefore : stubborn.delay 1024 = 0 := by decide +kernel
  have hdelay : stubborn.delay 1025 = longestDelay := by decide +kernel
  have hlasting : Clock.lasting longestDelay = Clock.longest := by decide
  exact ⟨rfl, rfl, by decide, hbefore, hdelay, by rw [hdelay, hlasting]⟩

end StateFlow
