import StateFlow.Proofs.Execution.Entry

/-!
# The size of the document

The bound on the size of a document is looked at when a state writes to it. An execution therefore
ends with a document within the bound once one of its states has written to it, however the
execution ends; until then the document is its input, whatever the size of that.
-/

namespace StateFlow

variable {σ : Type}

/-- Where a state writes its result, if it has one and keeps it. -/
def State.keptAt : State → Option Path
  | .task body => body.resultPath
  | .pass body => body.resultPath
  | .choice _ => none

/-- The visit is one to a state that writes its result. -/
def Machine.writesIn (machine : Machine) (visit : Visit) : Bool :=
  ((machine.states.find? visit.state).bind State.keptAt).isSome

variable {machine : Machine} {setting : Setting σ} {step now spare entered : Nat} {name : String}
  {context written : Context} {world after : σ} {state : State} {visit : Visit}
  {execution : Execution σ}

namespace Stay

/-- A state that did what it is for has merged its result. -/
theorem exists_merge (h : Stay setting step now name context world state visit written after)
    (hsucceeded : visit.departure.succeeded = true) :
    ∃ value, context.merge state.keptAt value = .ok written := by
  cases h with
  | chosen => exact ⟨.null, rfl⟩
  | passed hmerge => exact ⟨_, hmerge⟩
  | done _ _ _ hmerge => exact ⟨_, hmerge⟩
  | interrupted _ _ hinterruption =>
      cases (interrupts_interruption hinterruption).succeeded_eq_false.symm.trans hsucceeded
  | refused | unresolved | failed | unmerged => cases hsucceeded

theorem byteCount_le (h : Stay setting step now name context world state visit written after)
    (hsucceeded : visit.departure.succeeded = true) (hwrites : state.keptAt.isSome = true) :
    written.document.byteCount ≤ context.maxBytes := by
  obtain ⟨value, hmerge⟩ := h.exists_merge hsucceeded
  cases hpath : state.keptAt with
  | none =>
      rw [hpath] at hwrites
      cases hwrites
  | some path =>
      rw [hpath] at hmerge
      obtain ⟨updated, -, hfits, rfl⟩ := Context.merge_eq_ok_iff.mp hmerge
      exact hfits

theorem eq_of_writes_nothing
    (h : Stay setting step now name context world state visit written after)
    (hsucceeded : visit.departure.succeeded = true) (hwrites : state.keptAt.isSome = false) :
    written = context := by
  obtain ⟨value, hmerge⟩ := h.exists_merge hsucceeded
  rw [Option.isSome_eq_false_iff, Option.isNone_iff_eq_none] at hwrites
  rw [hwrites] at hmerge
  cases hmerge
  rfl

end Stay

namespace Execution

/-- The document is what it was where nothing is written, and within the bound else. -/
inductive Keeps (machine : Machine) (start : Context) (execution : Execution σ) : Prop where
  | untouched (hnone : execution.completed.any machine.writesIn = false)
      (hdocument : execution.context.document = start.document)
  | bounded (hsome : execution.completed.any machine.writesIn = true)
      (hbound : execution.context.document.byteCount ≤ start.maxBytes)

theorem writesIn_eq (hfind : machine.states.find? name = some state)
    (stay : Stay setting step now name context world state visit written after) :
    machine.writesIn visit = state.keptAt.isSome := by
  rw [Machine.writesIn, stay.state_eq, hfind]
  rfl

namespace Keeps

/-- Nothing was completed. -/
theorem failed {error : Option ExecutionError} {time : Nat} {visits : List Visit}
    (hfailed : visits.filter (fun visit => visit.departure.succeeded) = []) :
    Keeps machine context (.stopped visits name error context time world) := by
  apply untouched
  · rw [completed, stopped, hfailed]
    rfl
  · rfl

/-- A completed visit in front. -/
theorem prepend (hfind : machine.states.find? name = some state)
    (stay : Stay setting step now name context world state visit written after)
    (hsucceeded : visit.departure.succeeded = true) (h : Keeps machine written execution) :
    Keeps machine context (execution.prepend visit) := by
  have hany : (execution.prepend visit).completed.any machine.writesIn =
      (state.keptAt.isSome || execution.completed.any machine.writesIn) := by
    rw [completed_prepend hsucceeded, List.any_cons, writesIn_eq hfind stay]
  cases h with
  | bounded hsome hbound =>
      rw [stay.maxBytes_eq] at hbound
      refine bounded ?_ hbound
      rw [hany, hsome, Bool.or_true]
  | untouched hnone hdocument =>
      rw [hnone, Bool.or_false] at hany
      cases hwrites : state.keptAt.isSome with
      | true =>
          refine bounded (hany.trans hwrites) ?_
          have hbound := stay.byteCount_le hsucceeded hwrites
          rwa [← hdocument] at hbound
      | false =>
          refine untouched (hany.trans hwrites) ?_
          rwa [stay.eq_of_writes_nothing hsucceeded hwrites] at hdocument

end Keeps

theorem keeps_of_course
    (course : Course machine setting spare entered now name context world execution) :
    Keeps machine context execution := by
  induction course with
  | cancelled | stepLimit | unknown => exact Keeps.failed rfl
  | onward _ hfind stay hdeparture _ ih =>
      exact ih.prepend hfind stay (congrArg Departure.succeeded hdeparture)
  | @finished _ _ _ name _ _ _ visit written after _ hfind stay hdeparture =>
      change Keeps machine _ ((stopped [] name none written visit.left after).prepend visit)
      exact (Keeps.failed rfl).prepend hfind stay (congrArg Departure.succeeded hdeparture)
  | @failed _ _ _ _ _ _ _ visit _ _ _ _ _ stay hdeparture
  | @cut _ _ _ _ _ _ _ visit _ _ _ _ _ stay hdeparture =>
      have hfailed : visit.departure.succeeded = false :=
        congrArg Departure.succeeded hdeparture
      rw [stay.unchanged hfailed]
      exact Keeps.failed (List.filter_cons_of_neg (by simp [hfailed]))

/-- Take any input and any merges into it. A further merge with a path fails for its path exactly if
the path cannot be written through, else for its size exactly if the compact text would have more
bytes than the bound, and succeeds else; one without a path succeeds. One that fails leaves no
trace, even where it has changed the copy that it worked on. The document is within the bound if any
of the merges has written to it, else it is the input.
So an execution, however it ends, ends with a document within the bound if one of its states has
written to it, and else with its input. -/
theorem bounded_document (input : Json) (maxBytes : Nat) (merges : List Merge)
    (machine : Machine) (setting : Setting σ) (world : σ) :
    let start : Context := ⟨input, maxBytes⟩
    let context := start.afterAll merges
    let execution := execute machine setting input world
    (∀ document : Json, document.compact.utf8ByteSize = document.byteCount) ∧
    (∀ (path : Path) (value : Json),
      (∀ cause, context.merge path value = .error (.path cause) ↔
        path.set value context.document = .error cause) ∧
      (∀ size max, context.merge path value = .error (.tooLarge size max) ↔
        ∃ updated, path.set value context.document = .ok updated ∧ size = updated.byteCount ∧
          max = maxBytes ∧ maxBytes < updated.byteCount) ∧
      ∀ written, context.merge path value = .ok written ↔
        ∃ updated, path.set value context.document = .ok updated ∧
          updated.byteCount ≤ maxBytes ∧ written = ⟨updated, maxBytes⟩) ∧
    (∀ value, context.merge none value = .ok context) ∧
    (∀ (merge : Merge) (e : MergeError) (back : List Merge),
      context.merge merge.path merge.value = .error e →
        context.after merge = context ∧
          start.afterAll (merges ++ merge :: back) = start.afterAll (merges ++ back)) ∧
    (∀ (name : String) (i : Nat) (rest : List Segment) (value : Json),
      Entries.find? name context.document.members = none →
        let path : Path := ⟨.key name :: .index i :: rest⟩
        (context.document.write path.segments value).document ≠ context.document ∧
          context.merge path value = .error (.path (.indexOutOfRange path i))) ∧
    (start.IsWrittenByAny merges → context.document.byteCount ≤ maxBytes) ∧
    (¬ start.IsWrittenByAny merges → context.document = input) ∧
    (execution.completed.any machine.writesIn = true →
      execution.context.document.byteCount ≤ setting.limits.maxContextBytes) ∧
    (execution.completed.any machine.writesIn = false → execution.context.document = input) := by
  intro start context execution
  have hmax : context.maxBytes = maxBytes := start.maxBytes_afterAll merges
  refine ⟨Json.size_eq_byteCount, ?_, fun _ => rfl, ?_, ?_, Context.byteCount_afterAll, ?_, ?_, ?_⟩
  · intro path value
    rw [← hmax]
    exact ⟨fun _ => Context.merge_eq_path_iff, fun _ _ => Context.merge_eq_tooLarge_iff,
      fun _ => Context.merge_eq_ok_iff⟩
  · intro merge e back herror
    exact ⟨Context.after_of_error herror, Context.afterAll_of_error herror⟩
  · intro name i rest value hmissing
    exact Context.merge_below_missing i rest value hmissing
  · intro hnever
    exact congrArg Context.document (Context.afterAll_of_not_isWrittenByAny hnever)
  · intro hwritten
    cases keeps_of_course (course_execute machine setting input world) with
    | untouched hnone => cases hnone.symm.trans hwritten
    | bounded _ hbound => exact hbound
  · intro hnever
    cases keeps_of_course (course_execute machine setting input world) with
    | untouched _ hdocument => exact hdocument
    | bounded hsome => cases hsome.symm.trans hnever

end Execution

end StateFlow
