import StateFlow.Proofs.Execution.Entry
import StateFlow.Proofs.Registry.Route

/-!
# Whom an execution calls

The calls of an execution are those of its states, in the order in which the states are entered.
Only tasks call, and all calls of a task are one request: to the same invoker, for the same resource
and with the same input, which the task has from the document that it was entered with.
-/

namespace StateFlow

variable {σ : Type}

/-- The task hands this input on when it is entered with this document. Parameters come before an
input path. -/
inductive TaskState.Hands (task : TaskState) (document : Json) : Json → Prop
  | parameters {template input} (hparameters : task.parameters = some template)
      (hresolve : template.resolve document = .ok input) : Hands task document input
  | path {path input} (hparameters : task.parameters = none) (hpath : task.inputPath = some path)
      (hget : path.get? document = some input) : Hands task document input
  | whole (hparameters : task.parameters = none) (hpath : task.inputPath = none) :
      Hands task document document

/-- The calls of a task that is entered with this document. -/
inductive TaskState.Block (task : TaskState) (registry : Registry σ) (document : Json) :
    List Call → Prop
  | unresolved (hinput : ∀ input, ¬ task.Hands document input) : Block task registry document []
  | unrouted (hroute : ∀ route ∈ registry.routes, route.handles task.resource = false) :
      Block task registry document []
  | called {input route calls} (hinput : task.Hands document input)
      (hroute : registry.LongestMatch task.resource route) (hfirst : 1 ≤ calls.length)
      (hlast : calls.length ≤ max 1 route.maxAttempts)
      (hserves : ∀ call ∈ calls, route.Serves task.resource input call) :
      Block task registry document calls

/-- The calls of a state; there are none unless it is a task. -/
def State.Block (state : State) (registry : Registry σ) (document : Json) (calls : List Call) :
    Prop :=
  match state with
  | .task body => body.Block registry document calls
  | .choice _ | .pass _ => calls = []

theorem TaskState.hands_iff {task : TaskState} {context : Context} {input : Json} :
    task.Hands context.document input ↔ task.input context = .ok input := by
  rw [TaskState.input]
  constructor
  · intro h
    cases h with
    | parameters hparameters hresolve =>
        simp only [hparameters, hresolve]
        rfl
    | path hparameters hpath hget => simp only [hparameters, hpath, Context.select, hget]
    | whole hparameters hpath => simp only [hparameters, hpath, Context.select]
  · intro h
    cases hparameters : task.parameters with
    | some template =>
        simp only [hparameters] at h
        cases hresolve : template.resolve context.document with
        | error cause =>
            rw [hresolve] at h
            cases h
        | ok value =>
            rw [hresolve] at h
            cases h
            exact Hands.parameters hparameters hresolve
    | none =>
        simp only [hparameters] at h
        cases hpath : task.inputPath with
        | none =>
            rw [hpath] at h
            cases h
            exact Hands.whole hparameters hpath
        | some path =>
            simp only [hpath, Context.select] at h
            cases hget : path.get? context.document with
            | none =>
                rw [hget] at h
                cases h
            | some value =>
                rw [hget] at h
                cases h
                exact Hands.path hparameters hpath hget

/-- An invocation calls nobody, or the invoker with the longest stem, however early it is
interrupted. -/
theorem TaskState.block_invoke {task : TaskState} {registry : Registry σ} {document input : Json}
    {horizon : Clock.Horizon} {now : Nat} {world : σ} (hinput : task.Hands document input) :
    task.Block registry document
      (registry.invoke task.resource input horizon now world).calls := by
  cases hroute : registry.route? task.resource with
  | none =>
      rw [Registry.invoke, hroute]
      exact Block.unrouted (Registry.route?_eq_none_iff.mp hroute)
  | some route =>
      have hattempted := Registry.attempted_invoke hroute input horizon now world
      obtain ⟨hfirst, hlast⟩ := Registry.length_calls_of_attempted hattempted
      rw [route.spares_add_one] at hlast
      exact Block.called hinput (Registry.longestMatch_of_route? hroute) hfirst hlast
        (Registry.serves_of_attempted hattempted)

/-- A visit makes the calls of its state. -/
theorem Stay.block {setting : Setting σ} {step now : Nat} {name : String}
    {context written : Context} {world after : σ} {state : State} {visit : Visit}
    (h : Stay setting step now name context world state visit written after) :
    state.Block setting.registry context.document visit.calls := by
  cases h with
  | chosen | passed | refused => rfl
  | unresolved hinput =>
      apply TaskState.Block.unresolved
      intro input hhands
      cases hinput.symm.trans (TaskState.hands_iff.mp hhands)
  | interrupted hinput hinvocation | failed hinput hinvocation | done hinput hinvocation
  | unmerged hinput hinvocation =>
      subst hinvocation
      exact TaskState.block_invoke (TaskState.hands_iff.mpr hinput)

/-- The calls of an execution are those of its visits one after the other, and they are all that the
outside world sees of it. A visit makes the calls of its state, which finds the document as the
states before it left it. -/
theorem Execution.calls_execute (machine : Machine) (setting : Setting σ) (input : Json)
    (world : σ) :
    let execution := execute machine setting input world
    execution.calls = execution.visits.flatMap Visit.calls ∧
      setting.registry.Replays world execution.calls execution.world ∧
      ∀ front visit back, execution.visits = front ++ visit :: back →
        visit.step = front.length + 1 ∧
        ∃ document state, front.foldlM machine.effect? input = some document ∧
          machine.states.find? visit.state = some state ∧
          state.Block setting.registry document visit.calls := by
  have course := course_execute machine setting input world
  have hreplays := replays_calls course
  refine ⟨rfl, hreplays, ?_⟩
  intro front visit back hvisits
  obtain ⟨-, hdocument, -, -, hfind, stay⟩ := enters_of_course course hvisits
  have hstep : visit.step = 0 + front.length + 1 := stay.step_eq
  rw [Nat.zero_add] at hstep
  exact ⟨hstep, _, _, hdocument, hfind, stay.block⟩

end StateFlow
