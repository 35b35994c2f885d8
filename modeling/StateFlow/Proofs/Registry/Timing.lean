import StateFlow.Proofs.Registry.Horizon

/-!
# When an invocation calls

An invocation that is followed up to a horizon makes those calls of the whole invocation that do not
lie behind it: a wait for another attempt that reaches over the horizon is not waited out. So no
call lies in front of the invocation, and none behind its answer.
-/

namespace StateFlow

variable {σ : Type}

namespace Registry

variable {registry : Registry σ} {route : Route σ} {resource : String} {input : Json}
  {horizon : Clock.Horizon} {now left : Nat} {world : σ} {outcome : Outcome}

/-- An attempt calls when it begins, and every other call comes later. -/
theorem le_time_of_attempted {spare attempt : Nat} {invocation : Invocation σ}
    (h : route.Attempted resource input horizon spare attempt now world invocation) :
    ∀ call ∈ invocation.calls, now ≤ call.time := by
  induction h with
  | unanswered | answered | abandoned => exact List.forall_mem_singleton.mpr (Nat.le_refl _)
  | @retried _ _ now _ reply _ _ _ _ _ _ _ _ _ ih =>
      refine List.forall_mem_cons.mpr ⟨Nat.le_refl _, ?_⟩
      intro call hcall
      calc now ≤ now + Clock.lasting reply.delay := Nat.le_add_right _ _
        _ ≤ _ := Nat.le_add_right _ _
        _ ≤ call.time := ih call hcall

/-- Attempts up to a horizon are the attempts without one, less the calls behind it. -/
theorem calls_attempts_of_attempted {spare attempt : Nat} {invocation : Invocation σ}
    (h : route.Attempted resource input none spare attempt now world invocation)
    (hnow : horizon.passed now = false) :
    (attempts route resource input horizon spare attempt now world).calls =
      invocation.calls.filter fun call => !horizon.passed call.time := by
  induction h with
  | unanswered _ hlate | abandoned _ _ _ _ hlate => cases hlate
  | @answered _ _ now _ reply _ hreply _ hfinal =>
      -- The only call is made, whether its answer is waited for or not.
      cases hdone : horizon.passed (now + Clock.lasting reply.delay) with
      | true =>
          rw [attempts_of_attempted (Route.Attempted.unanswered hreply hdone)]
          simp [hnow]
      | false =>
          rw [attempts_of_attempted (Route.Attempted.answered hreply hdone hfinal)]
          simp [hnow]
  | @retried _ attempt now _ reply _ _ invocation hreply _ hfailure hretry _ tail ih =>
      cases hagain : horizon.passed (now + Clock.lasting reply.delay + route.wait attempt) with
      | false =>
          have hdone : horizon.passed (now + Clock.lasting reply.delay) = false := by
            rw [← Bool.not_eq_true] at hagain ⊢
            exact fun hdone => hagain (Clock.Horizon.passed_mono (Nat.le_add_right _ _) hdone)
          rw [attempts_of_attempted (Route.Attempted.retried hreply hdone hfailure hretry hagain
            (attempted_attempts _ _ _ _))]
          simp only [Invocation.prepend, ih hagain, List.filter_cons, hnow, Bool.not_false, if_true]
      | true =>
          have hrest : invocation.calls.filter (fun call => !horizon.passed call.time) = [] := by
            apply List.filter_eq_nil_iff.mpr
            intro call hcall
            simp [Clock.Horizon.passed_mono (le_time_of_attempted tail call hcall) hagain]
          simp only [Invocation.prepend, List.filter_cons, hnow, hrest, Bool.not_false, if_true]
          -- No other call is made, whether the answer is too late or the end of the wait.
          cases hdone : horizon.passed (now + Clock.lasting reply.delay) with
          | true => rw [attempts_of_attempted (Route.Attempted.unanswered hreply hdone)]
          | false =>
              rw [attempts_of_attempted
                (Route.Attempted.abandoned hreply hdone hfailure hretry hagain)]

theorem le_time_invoke :
    ∀ call ∈ (registry.invoke resource input horizon now world).calls, now ≤ call.time := by
  rw [invoke]
  cases registry.route? resource with
  | none =>
      intro call hcall
      cases hcall
  | some route => exact le_time_of_attempted (attempted_attempts _ _ _ _)

/-- An invocation up to a horizon makes the calls that do not lie behind it, and no others. -/
theorem calls_invoke (hnow : horizon.passed now = false) :
    (registry.invoke resource input horizon now world).calls =
      (registry.invoke resource input none now world).calls.filter
        fun call => !horizon.passed call.time := by
  rw [invoke, invoke]
  cases registry.route? resource with
  | none => rfl
  | some route => exact calls_attempts_of_attempted (attempted_attempts _ _ _ _) hnow

theorem time_le_horizon {last : Nat} (hnow : now ≤ last) :
    ∀ call ∈ (registry.invoke resource input (some last) now world).calls, call.time ≤ last := by
  intro call hcall
  rw [calls_invoke (Clock.Horizon.passed_some_eq_false_iff.mpr hnow)] at hcall
  have hpassed := (List.mem_filter.mp hcall).2
  rw [Bool.not_eq_true'] at hpassed
  exact Clock.Horizon.passed_some_eq_false_iff.mp hpassed

/-- An invocation that has an end has it between its start and its horizon, and calls nobody behind
it. -/
theorem time_le_of_ending {last : Nat} (hnow : now ≤ last)
    (h : (registry.invoke resource input (some last) now world).ending = some (left, outcome)) :
    now ≤ left ∧ left ≤ last ∧
      ∀ call ∈ (registry.invoke resource input (some last) now world).calls,
        call.time ≤ left := by
  have hanswers := answers_of_ending h
  have hleft : left ≤ last := by
    apply Nat.le_of_not_lt
    intro hlate
    have hnone := hanswers.ending_eq_none (Clock.Horizon.passed_some_eq_false_iff.mpr hnow)
      (Clock.Horizon.passed_some_iff.mpr hlate)
    cases hnone.symm.trans h
  refine ⟨hanswers.le, hleft, ?_⟩
  -- The horizon could as well be the moment of the end itself.
  rw [hanswers.invoke_eq (Clock.Horizon.passed_some_eq_false_iff.mpr hleft),
    ← hanswers.invoke_eq (Clock.Horizon.passed_some_eq_false_iff.mpr (Nat.le_refl left))]
  exact time_le_horizon hanswers.le

/-- An invocation with a nearer horizon makes the calls up to it. If none is made at a moment, it
does not matter whether the horizon is that moment or the last one in front of it. -/
theorem calls_invoke_of_quiet {last moment later : Nat} (hnow : now ≤ last)
    (hlast : last = moment ∨ last + 1 = moment) (hlater : moment ≤ later)
    (hquiet : ∀ call ∈ (registry.invoke resource input (some later) now world).calls,
      call.time ≠ moment) :
    (registry.invoke resource input (some last) now world).calls =
      (registry.invoke resource input (some later) now world).calls.filter
        fun call => call.time < moment := by
  have hwide : now ≤ later := by omega
  rw [calls_invoke (Clock.Horizon.passed_some_eq_false_iff.mpr hwide)] at hquiet ⊢
  rw [calls_invoke (Clock.Horizon.passed_some_eq_false_iff.mpr hnow), List.filter_filter]
  apply List.filter_congr
  intro call hcall
  have hne : call.time ≤ later → call.time ≠ moment := fun hle =>
    hquiet call (List.mem_filter.mpr ⟨hcall, by simp [Clock.Horizon.passed, hle]⟩)
  rw [Bool.eq_iff_iff]
  simp only [Clock.Horizon.passed, Bool.not_eq_true', Bool.and_eq_true, decide_eq_true_eq,
    decide_eq_false_iff_not]
  omega

end Registry

end StateFlow
