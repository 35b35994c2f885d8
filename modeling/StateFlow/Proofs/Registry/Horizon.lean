import StateFlow.Proofs.Registry.Attempts

/-!
# Invocations and horizons

Left to itself an invocation ends at some moment. A horizon that this moment does not lie behind
makes no difference to it, and one that it lies behind leaves it without an end. So two horizons
show the same invocation, as long as its end lies behind neither of them.
-/

namespace StateFlow

variable {σ : Type}

theorem Clock.Horizon.passed_mono {horizon : Clock.Horizon} {m n : Nat} (hle : m ≤ n)
    (h : horizon.passed m = true) : horizon.passed n = true := by
  cases horizon with
  | none => cases h
  | some last => exact decide_eq_true (Nat.lt_of_lt_of_le (of_decide_eq_true h) hle)

theorem Clock.Horizon.passed_some_iff {last moment : Nat} :
    Clock.Horizon.passed (some last) moment = true ↔ last < moment :=
  decide_eq_true_iff

theorem Clock.Horizon.passed_some_eq_false_iff {last moment : Nat} :
    Clock.Horizon.passed (some last) moment = false ↔ moment ≤ last := by
  rw [← Bool.not_eq_true, passed_some_iff, Nat.not_lt]

namespace Registry

variable {registry : Registry σ} {route : Route σ} {resource : String} {input : Json}
  {horizon : Clock.Horizon} {now left : Nat} {world : σ} {outcome : Outcome}

/-- The ways in which attempts can go lead to one invocation only. -/
theorem attempts_of_attempted {spare attempt : Nat} {invocation : Invocation σ}
    (h : route.Attempted resource input horizon spare attempt now world invocation) :
    attempts route resource input horizon spare attempt now world = invocation := by
  induction h with
  | unanswered hreply hlate =>
      rw [attempts]
      simp only [hreply, hlate, if_true]
  | @answered spare attempt now world reply next hreply hintime hfinal =>
      rw [attempts]
      simp only [hreply, hintime, Bool.false_eq_true, if_false]
      cases houtcome : reply.outcome with
      | ok value => rfl
      | error failure =>
          rcases hfinal failure houtcome with rfl | hretry
          · rfl
          · cases spare with
            | zero => rfl
            | succ spare => simp only [hretry, Bool.false_eq_true, if_false]
  | abandoned hreply hintime hfailure hretry hlate =>
      rw [attempts]
      simp only [hreply, hintime, hfailure, hretry, hlate, Bool.false_eq_true, if_false, if_true]
  | retried hreply hintime hfailure hretry hagain _ ih =>
      rw [attempts]
      simp only [hreply, hintime, hfailure, hretry, hagain, ih, Bool.false_eq_true, if_false,
        if_true]

/-- Attempts that nothing interrupts come to an end, which is all that a horizon is compared
with. -/
theorem ending_of_attempted {spare attempt : Nat} {invocation : Invocation σ}
    (h : route.Attempted resource input none spare attempt now world invocation) :
    ∃ left outcome, invocation.ending = some (left, outcome) ∧ now ≤ left ∧
      ∀ horizon : Clock.Horizon,
        (horizon.passed left = false →
          attempts route resource input horizon spare attempt now world = invocation) ∧
        (horizon.passed left = true →
          (attempts route resource input horizon spare attempt now world).ending = none) := by
  induction h with
  | unanswered _ hlate | abandoned _ _ _ _ hlate =>
      cases hlate
  | answered hreply _ hfinal =>
      refine ⟨_, _, rfl, Nat.le_add_right _ _, fun horizon => ⟨fun hintime => ?_, fun hlate => ?_⟩⟩
      · exact attempts_of_attempted (Route.Attempted.answered hreply hintime hfinal)
      · rw [attempts_of_attempted (Route.Attempted.unanswered hreply hlate)]
  | @retried spare attempt now world reply next failure invocation hreply _ hfailure hretry _ _
      ih =>
      obtain ⟨left, outcome, hending, hle, hhorizon⟩ := ih
      have hdone : now + Clock.lasting reply.delay ≤ left :=
        Nat.le_trans (Nat.le_add_right _ _) hle
      refine ⟨left, outcome, hending, Nat.le_trans (Nat.le_add_right _ _) hdone,
        fun horizon => ⟨fun hintime => ?_, fun hlate => ?_⟩⟩
      · -- Whatever comes in front of the end is not behind the horizon either.
        have hfront (moment : Nat) (hmoment : moment ≤ left) : horizon.passed moment = false := by
          rw [← Bool.not_eq_true]
          intro hpassed
          cases hintime.symm.trans (Clock.Horizon.passed_mono hmoment hpassed)
        refine attempts_of_attempted (Route.Attempted.retried hreply (hfront _ hdone) hfailure
          hretry (hfront _ hle) ?_)
        rw [← (hhorizon horizon).1 hintime]
        exact attempted_attempts _ _ _ _
      · cases hreplied : horizon.passed (now + Clock.lasting reply.delay) with
        | true => rw [attempts_of_attempted (Route.Attempted.unanswered hreply hreplied)]
        | false =>
            cases hagain :
              horizon.passed (now + Clock.lasting reply.delay + route.wait attempt) with
            | true =>
                rw [attempts_of_attempted
                  (Route.Attempted.abandoned hreply hreplied hfailure hretry hagain)]
            | false =>
                rw [attempts_of_attempted (Route.Attempted.retried hreply hreplied hfailure hretry
                  hagain (attempted_attempts _ _ _ _))]
                exact (hhorizon horizon).2 hlate

/-- What an invocation comes to at which moment, if nothing interrupts it. -/
def Answers (registry : Registry σ) (resource : String) (input : Json) (now : Nat) (world : σ)
    (left : Nat) (outcome : Outcome) : Prop :=
  (registry.invoke resource input none now world).ending = some (left, outcome)

theorem exists_answers (registry : Registry σ) (resource : String) (input : Json) (now : Nat)
    (world : σ) : ∃ left outcome, registry.Answers resource input now world left outcome := by
  simp only [Answers, invoke]
  cases registry.route? resource with
  | none => exact ⟨_, _, rfl⟩
  | some route =>
      obtain ⟨left, outcome, hending, -⟩ := ending_of_attempted (attempted_attempts _ _ _ _)
      exact ⟨left, outcome, hending⟩

namespace Answers

/-- An answer does not come before the invocation. -/
theorem le (h : registry.Answers resource input now world left outcome) : now ≤ left := by
  rw [Answers, invoke] at h
  cases hroute : registry.route? resource with
  | none =>
      rw [hroute] at h
      cases h
      exact Nat.le_refl _
  | some route =>
      rw [hroute] at h
      obtain ⟨_, _, hending, hle, -⟩ := ending_of_attempted (attempted_attempts _ _ _ _)
      cases hending.symm.trans h
      exact hle

/-- An invocation whose answer does not lie behind the horizon is followed to its end. -/
theorem invoke_eq (h : registry.Answers resource input now world left outcome)
    (hintime : horizon.passed left = false) :
    registry.invoke resource input horizon now world =
      registry.invoke resource input none now world := by
  rw [Answers, invoke] at h
  rw [invoke, invoke]
  cases hroute : registry.route? resource with
  | none => rfl
  | some route =>
      rw [hroute] at h
      obtain ⟨_, _, hending, -, hhorizon⟩ := ending_of_attempted (attempted_attempts _ _ _ _)
      cases hending.symm.trans h
      exact (hhorizon horizon).1 hintime

theorem ending_eq (h : registry.Answers resource input now world left outcome)
    (hintime : horizon.passed left = false) :
    (registry.invoke resource input horizon now world).ending = some (left, outcome) := by
  rw [h.invoke_eq hintime]
  exact h

/-- An invocation whose answer lies behind the horizon has no end. -/
theorem ending_eq_none (h : registry.Answers resource input now world left outcome)
    (hnow : horizon.passed now = false) (hlate : horizon.passed left = true) :
    (registry.invoke resource input horizon now world).ending = none := by
  rw [Answers, invoke] at h
  rw [invoke]
  cases hroute : registry.route? resource with
  | none =>
      rw [hroute] at h
      cases h
      cases hnow.symm.trans hlate
  | some route =>
      rw [hroute] at h
      obtain ⟨_, _, hending, -, hhorizon⟩ := ending_of_attempted (attempted_attempts _ _ _ _)
      cases hending.symm.trans h
      exact (hhorizon horizon).2 hlate

end Answers

/-- An invocation that has an end is the same with every horizon that passes no more. -/
theorem invoke_eq_of_ending {later : Clock.Horizon} {ending : Nat × Outcome}
    (h : (registry.invoke resource input horizon now world).ending = some ending)
    (hlater : ∀ moment, later.passed moment = true → horizon.passed moment = true) :
    registry.invoke resource input later now world =
      registry.invoke resource input horizon now world := by
  rw [invoke] at h ⊢
  rw [invoke]
  cases hroute : registry.route? resource with
  | none => rfl
  | some route =>
      rw [hroute] at h
      obtain ⟨left, _, _, _, hhorizon⟩ := ending_of_attempted (attempted_attempts _ _ _ _)
      have hintime : horizon.passed left = false := by
        rw [← Bool.not_eq_true]
        intro hlate
        cases ((hhorizon horizon).2 hlate).symm.trans h
      have hlaterIntime : later.passed left = false := by
        rw [← Bool.not_eq_true] at hintime ⊢
        exact fun hlate => hintime (hlater left hlate)
      exact ((hhorizon later).1 hlaterIntime).trans ((hhorizon horizon).1 hintime).symm

/-- An invocation that has an end within a horizon would have it without one. -/
theorem answers_of_ending
    (h : (registry.invoke resource input horizon now world).ending = some (left, outcome)) :
    registry.Answers resource input now world left outcome := by
  rw [Answers, invoke_eq_of_ending h (fun _ hpassed => by cases hpassed)]
  exact h

end Registry

end StateFlow
