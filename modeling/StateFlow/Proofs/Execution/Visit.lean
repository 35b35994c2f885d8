import StateFlow.Execution.Basic
import StateFlow.Proofs.Machine.Targets
import StateFlow.Proofs.Registry.Attempts

/-!
# How a visit can go

`Stay` lists the ways in which a visit to a state can go, with all that it leaves behind. The facts
below it are read off that list: where a visit leads, which failures it can end with, what it
writes and whom it calls.
-/

namespace StateFlow

variable {σ : Type}

/-- The invocation of a task that is entered now, followed until something would interrupt it. -/
def TaskState.invocation (task : TaskState) (setting : Setting σ) (step now : Nat) (name : String)
    (input : Json) (world : σ) : Invocation σ :=
  setting.registry.invoke task.resource input
    (some (setting.interruption step name task now).horizon) now world

/-- The record of a visit to a task. -/
def TaskState.visit (task : TaskState) (step now : Nat) (name : String) (left : Nat)
    (calls : List Call) (departure : Departure) : Visit where
  step := step
  state := name
  kind := .task
  resource := some task.resource
  entered := now
  left := left
  calls := calls
  departure := departure

/-- The record of a visit to a pass. -/
def PassState.visit (step now : Nat) (name : String) (departure : Departure) : Visit where
  step := step
  state := name
  kind := .pass
  entered := now
  left := now
  departure := departure

/-- The ways in which a visit to a state can go. -/
inductive Stay (setting : Setting σ) (step now : Nat) (name : String) (context : Context)
    (world : σ) : State → Visit → Context → σ → Prop
  | chosen (choice : ChoiceState) :
      Stay setting step now name context world (.choice choice)
        (Visit.ofChoice step name choice now context) context world
  | passed {pass : PassState} {written}
      (hmerge : context.merge pass.resultPath (pass.result.getD context.document) = .ok written) :
      Stay setting step now name context world (.pass pass)
        (PassState.visit step now name pass.transition.departure) written world
  /-- The result of a pass is not merged. -/
  | refused {pass : PassState} {cause}
      (hmerge : context.merge pass.resultPath (pass.result.getD context.document) = .error cause) :
      Stay setting step now name context world (.pass pass)
        (PassState.visit step now name (.failed (.ofMerge name cause))) context world
  /-- A task has no input. -/
  | unresolved {task : TaskState} {path} (hinput : task.input context = .error path) :
      Stay setting step now name context world (.task task)
        (task.visit step now name now [] (.failed (.unresolved name path))) context world
  | interrupted {task : TaskState} {input invocation moment horizon departure}
      (hinput : task.input context = .ok input)
      (hinvocation : task.invocation setting step now name input world = invocation)
      (hinterruption : setting.interruption step name task now = ⟨moment, horizon, departure⟩)
      (hending : invocation.ending = none) :
      Stay setting step now name context world (.task task)
        (task.visit step now name moment invocation.calls departure) context invocation.world
  | failed {task : TaskState} {input invocation left cause}
      (hinput : task.input context = .ok input)
      (hinvocation : task.invocation setting step now name input world = invocation)
      (hending : invocation.ending = some (left, .error cause)) :
      Stay setting step now name context world (.task task)
        (task.visit step now name left invocation.calls
          (.failed (.invocation name task.resource cause))) context invocation.world
  | done {task : TaskState} {input invocation left value written}
      (hinput : task.input context = .ok input)
      (hinvocation : task.invocation setting step now name input world = invocation)
      (hending : invocation.ending = some (left, .ok value))
      (hmerge : context.merge task.resultPath value = .ok written) :
      Stay setting step now name context world (.task task)
        (task.visit step now name left invocation.calls task.transition.departure) written
        invocation.world
  /-- The result of a task is not merged. -/
  | unmerged {task : TaskState} {input invocation left value cause}
      (hinput : task.input context = .ok input)
      (hinvocation : task.invocation setting step now name input world = invocation)
      (hending : invocation.ending = some (left, .ok value))
      (hmerge : context.merge task.resultPath value = .error cause) :
      Stay setting step now name context world (.task task)
        (task.visit step now name left invocation.calls (.failed (.ofMerge name cause))) context
        invocation.world

variable {setting : Setting σ} {step now : Nat} {name : String} {context written : Context}
  {world after : σ} {state : State} {visit : Visit}

theorem departAfter_of_merge {path : Option Path} {value : Json} {transition : Transition}
    (h : context.merge path value = .ok written) :
    departAfter name context path value transition = (transition.departure, written) := by
  rw [departAfter, h]

theorem departAfter_of_refused {path : Option Path} {value : Json} {transition : Transition}
    {cause : MergeError} (h : context.merge path value = .error cause) :
    departAfter name context path value transition =
      (.failed (.ofMerge name cause), context) := by
  rw [departAfter, h]

theorem stay_ofPass (pass : PassState) :
    Stay setting step now name context world (.pass pass)
      (Visit.ofPass step name pass now context).1 (Visit.ofPass step name pass now context).2
      world := by
  rw [Visit.ofPass]
  cases hmerge : context.merge pass.resultPath (pass.result.getD context.document) with
  | ok written =>
      rw [departAfter_of_merge hmerge]
      exact Stay.passed hmerge
  | error cause =>
      rw [departAfter_of_refused hmerge]
      exact Stay.refused hmerge

theorem stay_ofTask (task : TaskState) :
    Stay setting step now name context world (.task task)
      (Visit.ofTask setting step name task now context world).1
      (Visit.ofTask setting step name task now context world).2.1
      (Visit.ofTask setting step name task now context world).2.2 := by
  rw [Visit.ofTask]
  cases hinput : task.input context with
  | error path => exact Stay.unresolved hinput
  | ok input =>
      simp only
      generalize hinvocation : Registry.invoke setting.registry task.resource input _ now world =
        invocation
      cases hending : invocation.ending with
      | none => exact Stay.interrupted hinput hinvocation rfl hending
      | some ending =>
          obtain ⟨left, outcome⟩ := ending
          cases outcome with
          | error cause => exact Stay.failed hinput hinvocation hending
          | ok value =>
              cases hmerge : context.merge task.resultPath value with
              | ok written =>
                  simp only [departAfter_of_merge hmerge]
                  exact Stay.done hinput hinvocation hending hmerge
              | error cause =>
                  simp only [departAfter_of_refused hmerge]
                  exact Stay.unmerged hinput hinvocation hending hmerge

/-- Every visit goes in one of the ways listed. -/
theorem stay_ofState (setting : Setting σ) (step now : Nat) (name : String) (context : Context)
    (world : σ) (state : State) :
    Stay setting step now name context world state
      (Visit.ofState setting step name state now context world).1
      (Visit.ofState setting step name state now context world).2.1
      (Visit.ofState setting step name state now context world).2.2 := by
  cases state with
  | task task => exact stay_ofTask task
  | pass pass => exact stay_ofPass pass
  | choice choice => exact Stay.chosen choice

/-- The ways listed are ways in which visits do go. -/
theorem ofState_of_stay (h : Stay setting step now name context world state visit written after) :
    Visit.ofState setting step name state now context world = (visit, written, after) := by
  cases h with
  | chosen => rfl
  | passed hmerge =>
      rw [Visit.ofState, Visit.ofPass, departAfter_of_merge hmerge]
      rfl
  | refused hmerge =>
      rw [Visit.ofState, Visit.ofPass, departAfter_of_refused hmerge]
      rfl
  | unresolved hinput =>
      rw [Visit.ofState, Visit.ofTask, hinput]
      rfl
  | interrupted hinput hinvocation hinterruption hending =>
      rw [TaskState.invocation, hinterruption] at hinvocation
      rw [Visit.ofState, Visit.ofTask, hinput]
      simp only [hinterruption, hinvocation, hending]
      rfl
  | failed hinput hinvocation hending =>
      rw [TaskState.invocation] at hinvocation
      rw [Visit.ofState, Visit.ofTask, hinput]
      simp only [hinvocation, hending]
      rfl
  | done hinput hinvocation hending hmerge =>
      rw [TaskState.invocation] at hinvocation
      rw [Visit.ofState, Visit.ofTask, hinput]
      simp only [hinvocation, hending, departAfter_of_merge hmerge]
      rfl
  | unmerged hinput hinvocation hending hmerge =>
      rw [TaskState.invocation] at hinvocation
      rw [Visit.ofState, Visit.ofTask, hinput]
      simp only [hinvocation, hending, departAfter_of_refused hmerge]
      rfl

/-! ## Where visits lead and how they fail -/

theorem Transition.succeeded_departure (transition : Transition) :
    transition.departure.succeeded = true := by
  cases transition <;> rfl

/-- The failure is one that a state of this name and kind can end with. -/
def ExecutionError.BelongsTo (name : String) (kind : StateKind) : ExecutionError → Prop
  | invocation state _ _ | taskTimeout state _ | unresolved state _ => state = name ∧ kind = .task
  | merge state _ | tooLarge state _ _ => state = name
  | cancelled => kind = .task
  | unknownState _ | stepLimit _ | executionTimeout _ => False

theorem belongsTo_ofMerge {kind : StateKind} (cause : MergeError) :
    (ExecutionError.ofMerge name cause).BelongsTo name kind := by
  cases cause <;> rfl

/-- A state of this name can be left so. -/
def Departure.Fits (name : String) (state : State) : Departure → Prop
  | next target => target ∈ state.successors
  | finish => state.IsLast
  | failed e => e.BelongsTo name state.kind
  | cut _ => state.kind = .task

theorem fits_of_transition {transition : Transition}
    (hnext : ∀ target, transition.target? = some target → (.next, target) ∈ state.targets)
    (hlast : transition = .finish → state.IsLast) : transition.departure.Fits name state := by
  cases transition with
  | next target => exact State.mem_successors_iff.mpr ⟨.next, hnext target rfl⟩
  | finish => exact hlast rfl

/-- Three things end a task from outside: its own time limit, the deadline and a cancellation. -/
inductive Departure.Interrupts (name : String) : Departure → Prop
  | timeLimit {milliseconds} : Interrupts name (.failed (.taskTimeout name milliseconds))
  | deadline {limit} : Interrupts name (.cut limit)
  | cancelled : Interrupts name (.failed .cancelled)

theorem interrupts_orDeadline {other : Interruption} (h : other.departure.Interrupts name) :
    (setting.orDeadline other).departure.Interrupts name := by
  rw [Setting.orDeadline]
  split
  · exact h
  · simp only
    split
    · exact Departure.Interrupts.deadline
    · exact h

theorem interrupts_orCancellation {other : Interruption} (h : other.departure.Interrupts name) :
    (setting.orCancellation step other).departure.Interrupts name := by
  rw [Setting.orCancellation]
  split
  · exact h
  · split
    · split
      · exact Departure.Interrupts.cancelled
      · exact h
    · split
      · exact Departure.Interrupts.cancelled
      · exact h

theorem interrupts_interruption {task : TaskState} {interruption : Interruption}
    (h : setting.interruption step name task now = interruption) :
    interruption.departure.Interrupts name :=
  h ▸ interrupts_orCancellation (interrupts_orDeadline Departure.Interrupts.timeLimit)

namespace Departure.Interrupts

variable {departure : Departure}

theorem fits (h : departure.Interrupts name) (task : TaskState) :
    departure.Fits name (.task task) := by
  cases h with
  | timeLimit => exact ⟨rfl, rfl⟩
  | deadline => rfl
  | cancelled => rfl

theorem succeeded_eq_false (h : departure.Interrupts name) : departure.succeeded = false := by
  cases h <;> rfl

end Departure.Interrupts

namespace Stay

theorem state_eq (h : Stay setting step now name context world state visit written after) :
    visit.state = name := by
  cases h <;> rfl

theorem entered_eq (h : Stay setting step now name context world state visit written after) :
    visit.entered = now := by
  cases h <;> rfl

theorem step_eq (h : Stay setting step now name context world state visit written after) :
    visit.step = step := by
  cases h <;> rfl

theorem kind_eq (h : Stay setting step now name context world state visit written after) :
    visit.kind = state.kind := by
  cases h <;> rfl

/-- A visit leads where its state leads, and fails as its state can fail. -/
theorem fits (h : Stay setting step now name context world state visit written after) :
    visit.departure.Fits name state := by
  cases h with
  | chosen choice => exact (choice.takes_resolve context.document).mem_successors
  | passed => exact fits_of_transition (fun _ h => State.mem_targets_pass.mpr ⟨rfl, h⟩) id
  | refused | unmerged => exact belongsTo_ofMerge _
  | unresolved | failed => exact ⟨rfl, rfl⟩
  | interrupted _ _ hinterruption => exact (interrupts_interruption hinterruption).fits _
  | done => exact fits_of_transition (fun _ h => State.mem_targets_task.mpr ⟨rfl, h⟩) id

end Stay

end StateFlow
