import StateFlow.Machine.Basic

/-!
# Where states lead

The targets of each kind of state, and the one among them that a choice takes: the target of the
first rule that holds of the document, or the fallback when none does.
-/

namespace StateFlow

namespace State

theorem mem_targets_task {body : TaskState} {field : TargetField} {target : String} :
    (field, target) ∈ (State.task body).targets ↔
      field = .next ∧ body.transition.target? = some target := by
  cases h : body.transition.target? <;> simp [targets, h, eq_comm]

theorem mem_targets_pass {body : PassState} {field : TargetField} {target : String} :
    (field, target) ∈ (State.pass body).targets ↔
      field = .next ∧ body.transition.target? = some target := by
  cases h : body.transition.target? <;> simp [targets, h, eq_comm]

theorem mem_targets_choice {body : ChoiceState} {field : TargetField} {target : String} :
    (field, target) ∈ (State.choice body).targets ↔
      (∃ i branch, field = .rule i ∧ body.branches[i]? = some branch ∧ branch.next = target) ∨
        (field = .fallback ∧ body.fallback = target) := by
  simp only [targets, List.mem_append, List.mem_mapIdx, List.mem_singleton, Prod.mk.injEq]
  constructor
  · rintro (⟨i, hi, hfield, htarget⟩ | ⟨hfield, htarget⟩)
    · exact Or.inl ⟨i, body.branches[i], hfield.symm, List.getElem?_eq_getElem hi, htarget⟩
    · exact Or.inr ⟨hfield, htarget.symm⟩
  · rintro (⟨i, branch, rfl, hbranch, rfl⟩ | ⟨rfl, rfl⟩)
    · obtain ⟨hi, rfl⟩ := List.getElem?_eq_some_iff.mp hbranch
      exact Or.inl ⟨i, hi, rfl, rfl⟩
    · exact Or.inr ⟨rfl, rfl⟩

theorem mem_successors_iff {state : State} {target : String} :
    target ∈ state.successors ↔ ∃ field, (field, target) ∈ state.targets := by
  simp [successors]

/-- The state has no way on, so an execution can end behind it. -/
def IsLast : State → Prop
  | task body => body.transition = .finish
  | pass body => body.transition = .finish
  | choice _ => False

end State

namespace ChoiceState

/-- The resolution is the way that the choice takes on the document. -/
def Takes (choice : ChoiceState) (document : Json) : Resolution → Prop
  | ⟨some i, target⟩ =>
    ∃ branch, choice.branches[i]? = some branch ∧ branch.rule.eval document = true ∧
      branch.next = target ∧
      ∀ j < i, ∀ earlier, choice.branches[j]? = some earlier →
        earlier.rule.eval document = false
  | ⟨none, target⟩ =>
    target = choice.fallback ∧ ∀ branch ∈ choice.branches, branch.rule.eval document = false

/-- A choice takes the first rule that holds, and the fallback if none does. -/
theorem takes_resolve (choice : ChoiceState) (document : Json) :
    choice.Takes document (choice.resolve document) := by
  rw [resolve]
  cases hfound : choice.branches.findIdx? fun branch => branch.rule.eval document with
  | none => exact ⟨rfl, List.findIdx?_eq_none_iff.mp hfound⟩
  | some i =>
      obtain ⟨hi, hholds, hearlier⟩ := List.findIdx?_eq_some_iff_getElem.mp hfound
      have hbranch : choice.branches[i]? = some choice.branches[i] := List.getElem?_eq_getElem hi
      simp only [hbranch]
      refine ⟨choice.branches[i], hbranch, hholds, rfl, ?_⟩
      intro j hj earlier hat
      obtain ⟨hlength, rfl⟩ := List.getElem?_eq_some_iff.mp hat
      simpa using hearlier j hj

theorem Takes.mem_successors {choice : ChoiceState} {document : Json} {resolution : Resolution}
    (h : choice.Takes document resolution) :
    resolution.target ∈ (State.choice choice).successors := by
  rw [State.mem_successors_iff]
  obtain ⟨rule, target⟩ := resolution
  cases rule with
  | none =>
      obtain ⟨rfl, -⟩ := h
      exact ⟨.fallback, State.mem_targets_choice.mpr (Or.inr ⟨rfl, rfl⟩)⟩
  | some i =>
      obtain ⟨branch, hbranch, -, rfl, -⟩ := h
      exact ⟨.rule i, State.mem_targets_choice.mpr (Or.inl ⟨i, branch, rfl, hbranch, rfl⟩)⟩

end ChoiceState

end StateFlow
