import StateFlow.Proofs.Execution.Visit
import StateFlow.Proofs.Registry.Horizon

/-!
# What ends a task

The limits let a task run until its own time is over or the deadline of the execution has come,
whichever is first. If its answer comes until then, the task goes on with the answer, and nothing in
its visit depends on the limits; if not, the visit ends at that moment and has no answer.
-/

namespace StateFlow

variable {σ : Type}

/-- How long a task may take, in milliseconds. -/
def TaskState.timeout (task : TaskState) (limits : Limits) : Nat :=
  match task.timeoutSeconds with
  | some seconds => Clock.ofSeconds seconds
  | none => limits.taskTimeout

/-- How long an execution of the machine may take, in milliseconds. -/
def Machine.timeout? (machine : Machine) (limits : Limits) : Option Nat :=
  match machine.timeoutSeconds with
  | some seconds => some (Clock.ofSeconds seconds)
  | none => limits.executionTimeout

/-- What the limits alone would interrupt a task with. -/
def Setting.expiry (setting : Setting σ) (name : String) (task : TaskState) (now : Nat) :
    Interruption :=
  setting.orDeadline (setting.timeLimit name task now)

/-- How a task is left with an answer. -/
def TaskState.depart (task : TaskState) (name : String) (context : Context) :
    Outcome → Departure × Context
  | .error cause => (.failed (.invocation name task.resource cause), context)
  | .ok value => departAfter name context task.resultPath value task.transition

variable {registry : Registry σ} {limits : Limits} {cancellation : Option Cancellation}
  {setting : Setting σ} {step now : Nat} {name : String} {task : TaskState} {context : Context}
  {world : σ}

namespace Setting

theorem timeLimit_eq :
    setting.timeLimit name task now =
      ⟨now + Clock.lasting (task.timeout setting.limits),
        now + Clock.lasting (task.timeout setting.limits),
        .failed (.taskTimeout name (Clock.reported (task.timeout setting.limits)))⟩ :=
  rfl

/-- A task whose time is over before the deadline, or at it, is interrupted by its own limit. -/
theorem expiry_of_le (h : ∀ limit, setting.limits.executionTimeout = some limit →
      now + Clock.lasting (task.timeout setting.limits) ≤ Clock.lasting limit) :
    setting.expiry name task now = setting.timeLimit name task now := by
  rw [expiry, orDeadline]
  cases hlimit : setting.limits.executionTimeout with
  | none => rfl
  | some limit => exact if_neg (Nat.not_lt.mpr (h limit hlimit))

/-- A task that may take longer than the execution is interrupted by the deadline. -/
theorem expiry_of_lt {limit : Nat} (hlimit : setting.limits.executionTimeout = some limit)
    (hlt : Clock.lasting limit < now + Clock.lasting (task.timeout setting.limits)) :
    setting.expiry name task now =
      ⟨Clock.lasting limit, Clock.lasting limit, .cut (Clock.reported limit)⟩ := by
  rw [expiry, orDeadline, hlimit]
  exact if_pos hlt

theorem moment_expiry_of_none (hlimit : setting.limits.executionTimeout = none) :
    (setting.expiry name task now).moment =
      now + Clock.lasting (task.timeout setting.limits) := by
  rw [expiry_of_le (by simp [hlimit]), timeLimit_eq]

theorem moment_expiry_of_some {limit : Nat}
    (hlimit : setting.limits.executionTimeout = some limit) :
    (setting.expiry name task now).moment =
      min (Clock.lasting limit) (now + Clock.lasting (task.timeout setting.limits)) := by
  rcases Nat.lt_or_ge (Clock.lasting limit) (now + Clock.lasting (task.timeout setting.limits))
    with hlt | hle
  · rw [expiry_of_lt hlimit hlt, Nat.min_eq_left (Nat.le_of_lt hlt)]
  · rw [expiry_of_le (by simpa [hlimit] using hle), timeLimit_eq, Nat.min_eq_right hle]

theorem moment_expiry_le_timeout :
    (setting.expiry name task now).moment ≤
      now + Clock.lasting (task.timeout setting.limits) := by
  cases hlimit : setting.limits.executionTimeout with
  | none => exact Nat.le_of_eq (moment_expiry_of_none hlimit)
  | some limit =>
      rw [moment_expiry_of_some hlimit]
      exact Nat.min_le_right _ _

/-- What is due at the moment of a limit still counts. -/
theorem horizon_expiry :
    (setting.expiry name task now).horizon = (setting.expiry name task now).moment := by
  rw [expiry, orDeadline]
  cases setting.limits.executionTimeout with
  | none => rfl
  | some limit =>
      simp only
      split <;> rfl

theorem departure_expiry_ne : (setting.expiry name task now).departure ≠ .failed .cancelled := by
  rw [expiry, orDeadline]
  cases setting.limits.executionTimeout with
  | none => simp [timeLimit]
  | some limit =>
      simp only
      split <;> simp [timeLimit]

theorem interruption_of_uncancelled (h : setting.cancellation = none) :
    setting.interruption step name task now = setting.expiry name task now := by
  rw [interruption, orCancellation, h]
  rfl

/-- Without a cancellation a task is followed to the very moment at which it is interrupted. -/
theorem interruption_eq (h : setting.cancellation = none) :
    setting.interruption step name task now =
      ⟨(setting.expiry name task now).moment, (setting.expiry name task now).moment,
        (setting.expiry name task now).departure⟩ := by
  rw [interruption_of_uncancelled h]
  generalize hexpiry : setting.expiry name task now = expired
  have hhorizon : expired.horizon = expired.moment := hexpiry ▸ horizon_expiry
  obtain ⟨moment, horizon, departure⟩ := expired
  cases hhorizon
  rfl

end Setting

namespace TaskState

variable {input : Json} {left moment horizon : Nat} {outcome : Outcome} {departure : Departure}

/-- A task that is answered in time goes on with the answer, whatever the limits are. -/
theorem ofTask_answered (hinput : task.input context = .ok input)
    (hanswers : setting.registry.Answers task.resource input now world left outcome)
    (hintime : left ≤ (setting.interruption step name task now).horizon) :
    Visit.ofTask setting step name task now context world =
      (task.visit step now name left
          (setting.registry.invoke task.resource input none now world).calls
          (task.depart name context outcome).1,
        (task.depart name context outcome).2,
        (setting.registry.invoke task.resource input none now world).world) := by
  have hpassed := Clock.Horizon.passed_some_eq_false_iff.mpr hintime
  have hinvoke := hanswers.invoke_eq hpassed
  have hending := hanswers.ending_eq hpassed
  rw [hinvoke] at hending
  rw [Visit.ofTask, hinput]
  simp only [hinvoke, hending]
  cases outcome with
  | error cause => rfl
  | ok value => rfl

/-- A task that is not answered in time is left at the moment of the interruption. -/
theorem ofTask_interrupted (hinput : task.input context = .ok input)
    (hanswers : setting.registry.Answers task.resource input now world left outcome)
    (hinterruption : setting.interruption step name task now = ⟨moment, horizon, departure⟩)
    (hnow : now ≤ horizon) (hlate : horizon < left) :
    Visit.ofTask setting step name task now context world =
      (task.visit step now name moment
          (setting.registry.invoke task.resource input (some horizon) now world).calls departure,
        context,
        (setting.registry.invoke task.resource input (some horizon) now world).world) := by
  have hending := hanswers.ending_eq_none (Clock.Horizon.passed_some_eq_false_iff.mpr hnow)
    (Clock.Horizon.passed_some_iff.mpr hlate)
  rw [Visit.ofTask, hinput]
  simp only [hinterruption, hending]
  rfl

end TaskState

/-- A task that can be interrupted at one moment is left with its answer by then, or is interrupted
then. -/
theorem Stay.answered_or_interrupted {written : Context} {after : σ} {visit : Visit} {input : Json}
    {left moment : Nat} {outcome : Outcome} {departure : Departure}
    (stay : Stay setting step now name context world (.task task) visit written after)
    (hinput : task.input context = .ok input)
    (hanswers : setting.registry.Answers task.resource input now world left outcome)
    (hinterruption : setting.interruption step name task now = ⟨moment, moment, departure⟩)
    (hnow : now ≤ moment) :
    (left ≤ moment ∧ visit.left = left ∧
        visit.departure = (task.depart visit.state context outcome).1) ∨
      (moment < left ∧ visit.left = moment ∧ visit.departure = departure) := by
  have hvisit : Visit.ofTask setting step name task now context world = (visit, written, after) :=
    ofState_of_stay stay
  rcases Nat.lt_or_ge moment left with hlate | hintime
  · rw [TaskState.ofTask_interrupted hinput hanswers hinterruption hnow hlate] at hvisit
    cases hvisit
    exact Or.inr ⟨hlate, rfl, rfl⟩
  · rw [TaskState.ofTask_answered hinput hanswers (by rw [hinterruption]; exact hintime)] at hvisit
    cases hvisit
    exact Or.inl ⟨hintime, rfl, rfl⟩

/-- One invoker that answers every request with null, and takes this long for it. -/
def lateRegistry (delay : Nat) : Registry Unit where
  routes := [⟨"", ⟨"late", fun world _ _ _ => (⟨delay, .ok .null⟩, world)⟩, none⟩]

end StateFlow
