import StateFlow.Proofs.Execution.Course
import StateFlow.Proofs.Execution.Interruption
import StateFlow.Proofs.Registry.Timing

/-!
# How time passes

In an execution that nobody cancels, time does not run backwards: a state is left no sooner than it
is entered, all that it calls is called in between, and the next state is entered when it is left.
No state is entered behind the deadline.
-/

namespace StateFlow

variable {σ : Type}

/-- The deadline, if there is one, does not lie in front of this moment. -/
def Limits.Allows (limits : Limits) (now : Nat) : Prop :=
  ∀ limit, limits.executionTimeout = some limit → now ≤ Clock.lasting limit

/-- All that happens in the visit happens between entering the state and leaving it. -/
structure Visit.Timely (visit : Visit) : Prop where
  left : visit.entered ≤ visit.left
  calls : ∀ call ∈ visit.calls, visit.entered ≤ call.time ∧ call.time ≤ visit.left

variable {registry : Registry σ} {limits : Limits} {setting : Setting σ} {step now : Nat}
  {name : String} {task : TaskState} {context written : Context} {world after : σ} {state : State}
  {visit : Visit}

theorem Limits.Allows.of_le {later : Nat} (h : limits.Allows later) (hle : now ≤ later) :
    limits.Allows now := by
  intro limit hlimit
  exact Nat.le_trans hle (h limit hlimit)

theorem Visit.Timely.of_no_calls (hleft : visit.left = visit.entered) (hcalls : visit.calls = []) :
    visit.Timely where
  left := Nat.le_of_eq hleft.symm
  calls := by simp [hcalls]

/-- The limits interrupt no task before it is entered, and none behind the deadline. -/
theorem Setting.moment_expiry_bounds (setting : Setting σ) (name : String) (task : TaskState)
    (hnow : setting.limits.Allows now) :
    now ≤ (setting.expiry name task now).moment ∧
      setting.limits.Allows (setting.expiry name task now).moment := by
  cases hlimit : setting.limits.executionTimeout with
  | none =>
      rw [moment_expiry_of_none hlimit]
      constructor
      · exact Nat.le_add_right _ _
      · intro limit hother
        cases hlimit.symm.trans hother
  | some limit =>
      rw [moment_expiry_of_some hlimit]
      constructor
      · exact Nat.le_min.mpr ⟨hnow limit hlimit, Nat.le_add_right _ _⟩
      · intro other hother
        cases hlimit.symm.trans hother
        exact Nat.min_le_left _ _

/-- Nobody cancels, so a task is followed until the limits interrupt it. -/
theorem TaskState.invocation_of_uncancelled (h : setting.cancellation = none) {input : Json} :
    task.invocation setting step now name input world =
      setting.registry.invoke task.resource input (some (setting.expiry name task now).moment) now
        world := by
  rw [TaskState.invocation, Setting.interruption_of_uncancelled h, Setting.horizon_expiry]

/-- A state is left no sooner than it is entered, and not behind the deadline. -/
theorem Stay.timely
    (stay : Stay ⟨registry, limits, none⟩ step now name context world state visit written after)
    (hnow : limits.Allows now) : visit.Timely ∧ limits.Allows visit.left := by
  have hbounds (body : TaskState) :=
    Setting.moment_expiry_bounds ⟨registry, limits, none⟩ name body hnow
  cases stay with
  | chosen | passed | refused | unresolved => exact ⟨Visit.Timely.of_no_calls rfl rfl, hnow⟩
  | @interrupted body _ _ _ _ _ _ hinvocation hinterruption =>
      obtain ⟨hle, hallows⟩ := hbounds body
      rw [TaskState.invocation_of_uncancelled rfl] at hinvocation
      rw [Setting.interruption_of_uncancelled rfl] at hinterruption
      rw [hinterruption] at hle hallows hinvocation
      subst hinvocation
      exact ⟨⟨hle, fun call hcall =>
        ⟨Registry.le_time_invoke call hcall, Registry.time_le_horizon hle call hcall⟩⟩, hallows⟩
  | @failed body _ _ _ _ _ hinvocation hending | @done body _ _ _ _ _ _ hinvocation hending
  | @unmerged body _ _ _ _ _ _ hinvocation hending =>
      obtain ⟨hle, hallows⟩ := hbounds body
      rw [TaskState.invocation_of_uncancelled rfl] at hinvocation
      subst hinvocation
      obtain ⟨hentered, hleft, hcalls⟩ := Registry.time_le_of_ending hle hending
      exact ⟨⟨hentered, fun call hcall =>
        ⟨Registry.le_time_invoke call hcall, hcalls call hcall⟩⟩, hallows.of_le hleft⟩

namespace Execution

variable {machine : Machine} {execution : Execution σ} {spare entered : Nat}

/-- At this moment, once all that is due then has happened, the visits in front are over, this one
is under way, and no other has begun. -/
structure InFlight (execution : Execution σ) (moment : Nat) (front : List Visit) (visit : Visit) :
    Prop where
  visits : ∃ back, execution.visits = front ++ visit :: back ∧
    ∀ other ∈ back, moment < other.entered
  front : ∀ other ∈ front, other.left ≤ moment
  entered : visit.entered ≤ moment
  left : moment < visit.left

/-- A visit that is left behind the moment is in flight then if it comes first. -/
theorem InFlight.of_first {moment : Nat} {back : List Visit}
    (hvisits : execution.visits = visit :: back)
    (hback : ∀ other ∈ back, visit.left ≤ other.entered) (hentered : visit.entered ≤ moment)
    (hleft : moment < visit.left) : execution.InFlight moment [] visit where
  visits := ⟨back, hvisits, fun other hother => Nat.lt_of_lt_of_le hleft (hback other hother)⟩
  front := by simp
  entered := hentered
  left := hleft

theorem InFlight.prepend {moment : Nat} {front : List Visit} {other : Visit}
    (h : execution.InFlight moment front visit) (hleft : other.left ≤ moment) :
    (execution.prepend other).InFlight moment (other :: front) visit where
  visits := by
    obtain ⟨back, hvisits, hback⟩ := h.visits
    exact ⟨back, congrArg (other :: ·) hvisits, hback⟩
  front := List.forall_mem_cons.mpr ⟨hleft, h.front⟩
  entered := h.entered
  left := h.left

/-- Without a cancellation time does not run backwards. -/
theorem le_time_of_course
    (course : Course machine ⟨registry, limits, none⟩ spare entered now name context world
      execution)
    (hnow : limits.Allows now) : now ≤ execution.time := by
  induction course with
  | cancelled | stepLimit | unknown => exact Nat.le_refl _
  | @onward _ _ _ _ _ _ _ _ _ _ _ execution _ _ stay _ _ ih =>
      obtain ⟨htimely, hallows⟩ := stay.timely hnow
      calc _ = _ := stay.entered_eq.symm
        _ ≤ _ := htimely.left
        _ ≤ execution.time := ih hallows
  | finished _ _ stay | failed _ _ stay | cut _ _ stay =>
      rw [← stay.entered_eq]
      exact (stay.timely hnow).1.left

/-- No state is entered before the run comes to it, or behind the deadline, and all that happens in
a state happens while the run is in it. -/
theorem timely_of_course
    (course : Course machine ⟨registry, limits, none⟩ spare entered now name context world
      execution)
    (hnow : limits.Allows now) :
    ∀ other ∈ execution.visits, now ≤ other.entered ∧ limits.Allows other.entered ∧
      other.Timely := by
  induction course with
  | cancelled | stepLimit | unknown =>
      intro other hother
      cases hother
  | onward _ _ stay _ _ ih =>
      obtain ⟨htimely, hallows⟩ := stay.timely hnow
      rw [← stay.entered_eq] at hnow ⊢
      refine List.forall_mem_cons.mpr ⟨⟨Nat.le_refl _, hnow, htimely⟩, ?_⟩
      intro other hother
      obtain ⟨hentered, hrest⟩ := ih hallows other hother
      exact ⟨Nat.le_trans htimely.left hentered, hrest⟩
  | finished _ _ stay | failed _ _ stay | cut _ _ stay =>
      have htimely := (stay.timely hnow).1
      rw [← stay.entered_eq] at hnow ⊢
      exact List.forall_mem_singleton.mpr ⟨Nat.le_refl _, hnow, htimely⟩

end Execution

end StateFlow
