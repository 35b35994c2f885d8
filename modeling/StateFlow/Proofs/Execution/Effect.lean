import StateFlow.Proofs.Context.Merge
import StateFlow.Proofs.Execution.Course

/-!
# What executions do to the document

The document at the end of an execution is its input with the effects of the states that did what
they are for, in order. A state that failed, or that the deadline cut, leaves no trace in it.
-/

namespace StateFlow

variable {σ : Type}

/-- Write a value into a document; without a path nothing is written. -/
def Json.put? (path : Option Path) (value document : Json) : Option Json :=
  match path with
  | none => some document
  | some path => (path.set value document).toOption

/-- The value that the last of some calls gave, if it was one to this resource. -/
def Call.lastValue? (resource : String) (calls : List Call) : Option Json :=
  calls.getLast?.bind fun call =>
    if call.resource = resource then call.reply.outcome.toOption else none

/-- What a state makes of the document when it does what it is for; a task writes what its last
call gave. -/
def State.effect? (state : State) (calls : List Call) (document : Json) : Option Json :=
  match state with
  | .choice _ => some document
  | .pass body => Json.put? body.resultPath (body.result.getD document) document
  | .task body =>
    (Call.lastValue? body.resource calls).bind fun value => Json.put? body.resultPath value document

/-- What a visit to a state of the machine makes of the document. -/
def Machine.effect? (machine : Machine) (document : Json) (visit : Visit) : Option Json :=
  (machine.states.find? visit.state).bind fun state => state.effect? visit.calls document

/-- The visits to states that did what they are for. -/
def Execution.completed (execution : Execution σ) : List Visit :=
  execution.visits.filter fun visit => visit.departure.succeeded

/-! ## The effect of one visit -/

variable {setting : Setting σ} {step now : Nat} {name : String} {context written : Context}
  {world after : σ} {state : State} {visit : Visit}

theorem put?_of_merge {path : Option Path} {value : Json}
    (h : context.merge path value = .ok written) :
    Json.put? path value context.document = some written.document := by
  cases path with
  | none =>
      cases h
      rfl
  | some path =>
      obtain ⟨updated, hset, -, rfl⟩ := Context.merge_eq_ok_iff.mp h
      rw [Json.put?, hset]
      rfl

theorem lastValue?_invocation {task : TaskState} {input value : Json} {left : Nat}
    (h : (task.invocation setting step now name input world).ending = some (left, .ok value)) :
    Call.lastValue? task.resource (task.invocation setting step now name input world).calls =
      some value := by
  obtain ⟨call, hlast, hresource, houtcome⟩ := Registry.getLast?_invoke h
  rw [Call.lastValue?, TaskState.invocation, hlast, Option.bind_some, if_pos hresource, houtcome]
  rfl

namespace Stay

/-- A state that did what it is for has its effect on the document. -/
theorem effect?_eq_some (h : Stay setting step now name context world state visit written after)
    (hsucceeded : visit.departure.succeeded = true) :
    state.effect? visit.calls context.document = some written.document := by
  cases h with
  | chosen choice => rfl
  | passed hmerge => exact put?_of_merge hmerge
  | done _ hinvocation hending hmerge =>
      subst hinvocation
      rw [State.effect?, TaskState.visit, lastValue?_invocation hending]
      exact put?_of_merge hmerge
  | interrupted _ _ hinterruption =>
      cases (interrupts_interruption hinterruption).succeeded_eq_false.symm.trans hsucceeded
  | refused | unresolved | failed | unmerged => cases hsucceeded

/-- Any other state leaves the document as it was. -/
theorem unchanged (h : Stay setting step now name context world state visit written after)
    (hfailed : visit.departure.succeeded = false) : written = context := by
  cases h with
  | chosen => cases hfailed
  | passed | done => cases (Transition.succeeded_departure _).symm.trans hfailed
  | refused | unresolved | interrupted | failed | unmerged => rfl

/-- The calls of a visit are answered one after the other. -/
theorem replays (h : Stay setting step now name context world state visit written after) :
    setting.registry.Replays world visit.calls after := by
  cases h with
  | chosen | passed | refused | unresolved => exact Registry.Replays.nil
  | interrupted _ hinvocation | failed _ hinvocation | done _ hinvocation
  | unmerged _ hinvocation =>
      subst hinvocation
      exact Registry.replays_invoke _ _ _ _ _ _

end Stay

/-! ## The effect of a whole run -/

namespace Execution

variable {machine : Machine} {execution : Execution σ} {spare entered : Nat}

theorem completed_prepend (h : visit.departure.succeeded = true) :
    (execution.prepend visit).completed = visit :: execution.completed :=
  List.filter_cons_of_pos h

theorem completed_stopped {error : Option ExecutionError} {time : Nat}
    (h : visit.departure.succeeded = true) :
    (stopped [visit] name error context time world).completed = [visit] :=
  List.filter_cons_of_pos h

theorem completed_failed {error : Option ExecutionError} {time : Nat}
    (h : visit.departure.succeeded = false) :
    (stopped [visit] name error context time world).completed = [] :=
  List.filter_cons_of_neg (by simp [h])

/-- All visits are completed but the last. -/
theorem completed_of_visits {front : List Visit} {last : Visit}
    (hvisits : execution.visits = front ++ [last])
    (hfront : ∀ other ∈ front, other.departure.succeeded = true)
    (hlast : last.departure.succeeded = false) : execution.completed = front := by
  rw [completed, hvisits, List.filter_append, List.filter_eq_self.mpr hfront]
  simp [hlast]

theorem effect?_eq_some (hfind : machine.states.find? name = some state)
    (stay : Stay setting step now name context world state visit written after)
    (hsucceeded : visit.departure.succeeded = true) :
    machine.effect? context.document visit = some written.document := by
  rw [Machine.effect?, stay.state_eq, hfind]
  exact stay.effect?_eq_some hsucceeded

/-- The effects of the completed visits lead from the document at the start to the one at the
end. -/
theorem foldlM_completed
    (course : Course machine setting spare entered now name context world execution) :
    execution.completed.foldlM machine.effect? context.document =
      some execution.context.document := by
  induction course with
  | cancelled | stepLimit | unknown => rfl
  | onward _ hfind stay hdeparture _ ih =>
      have hsucceeded := congrArg Departure.succeeded hdeparture
      rw [completed_prepend hsucceeded, List.foldlM_cons, effect?_eq_some hfind stay hsucceeded]
      exact ih
  | finished _ hfind stay hdeparture =>
      have hsucceeded := congrArg Departure.succeeded hdeparture
      rw [completed_stopped hsucceeded, List.foldlM_cons, effect?_eq_some hfind stay hsucceeded]
      rfl
  | failed _ _ stay hdeparture | cut _ _ stay hdeparture =>
      have hfailed := congrArg Departure.succeeded hdeparture
      rw [completed_failed hfailed, ← stay.unchanged hfailed]
      rfl

/-- The calls of all visits are answered one after the other. -/
theorem replays_calls
    (course : Course machine setting spare entered now name context world execution) :
    setting.registry.Replays world execution.calls execution.world := by
  induction course with
  | cancelled | stepLimit | unknown => exact Registry.Replays.nil
  | onward _ _ stay _ _ ih => exact stay.replays.append ih
  | finished _ _ stay | failed _ _ stay | cut _ _ stay =>
      have hcalls := stay.replays
      simpa [calls, stopped] using hcalls

/-- The completed visits are those whose entries succeeded. -/
theorem filter_history (execution : Execution σ) :
    execution.history.filter Entry.succeeded =
      execution.completed.map fun visit => ⟨visit.state, visit.kind, true⟩ := by
  rw [history, completed]
  induction execution.visits with
  | nil => rfl
  | cons visit rest ih =>
      cases hdeparture : visit.departure <;>
        simp [Visit.entry?, hdeparture, Departure.succeeded, ih]

theorem history_of_succeeded {front : List Visit}
    (h : ∀ other ∈ front, other.departure.succeeded = true) :
    front.filterMap Visit.entry? = front.map fun other => ⟨other.state, other.kind, true⟩ := by
  induction front with
  | nil => rfl
  | cons other front ih =>
      obtain ⟨hother, hfront⟩ := List.forall_mem_cons.mp h
      cases hdeparture : other.departure with
      | next | finish =>
          simp [Visit.entry?, hdeparture, Departure.succeeded, ih hfront]
      | failed | cut =>
          rw [hdeparture] at hother
          cases hother

/-- The document at the end is the input with the effects of the states whose entries succeeded;
what tasks write was given to them by the last of their calls, which were answered by their
invokers. -/
theorem document_execute (machine : Machine) (setting : Setting σ) (input : Json) (world : σ) :
    let execution := execute machine setting input world
    execution.completed.foldlM machine.effect? input = some execution.context.document ∧
      execution.history.filter Entry.succeeded =
        execution.completed.map (fun visit => ⟨visit.state, visit.kind, true⟩) ∧
      setting.registry.Replays world execution.calls execution.world := by
  have course := course_execute machine setting input world
  have hreplays : (setting.forMachine machine).registry.Replays world
      (execute machine setting input world).calls (execute machine setting input world).world :=
    replays_calls course
  exact ⟨foldlM_completed course, filter_history _, hreplays⟩

end Execution

end StateFlow
