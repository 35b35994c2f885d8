import StateFlow.Machine.Basic
import StateFlow.Proofs.Choice.Comparison
import StateFlow.Proofs.Path.Independence

/-!
# What choices read

A choice depends on a document only through the values that its rules read: those at their variables
and at their operand paths. So a write apart from all of them does not change where the choice
leads.

## Implementation notes

Two doubles can be equal as numbers and yet not the same, since there are two zeros. Values that are
equal up to that are alike for every operator, and so are any two arrays and any two objects, of
which operators see nothing but the type. The results are stated for documents whose values are
alike, which includes those whose values are the same.
-/

namespace StateFlow

/-- No operator tells the values apart: they are the same, or doubles that are equal as numbers, or
both of them are arrays or objects. -/
inductive Json.Alike : Json → Json → Prop
  | refl (value : Json) : Alike value value
  | doubles {x y : Float} (heq : (x == y) = true) : Alike (.number (.float x)) (.number (.float y))
  | arrays {items others : List Json} : Alike (.array items) (.array others)
  | objects {members others : Entries Json} : Alike (.object members) (.object others)

/-- Each of the paths leads to alike values in both documents, or nowhere in either. -/
def Json.AgreeOn (paths : List Path) (document other : Json) : Prop :=
  ∀ path ∈ paths, Option.Rel Alike (path.get? document) (path.get? other)

/-- The operand path, if there is one. -/
def Operand.reads : Operand → List Path
  | literal _ => []
  | path p => [p]

namespace Predicate

mutual

/-- The variables and operand paths of all tests in a predicate. -/
def reads : Predicate → List Path
  | compare subject _ operand => subject :: operand.reads
  | isMatch subject _ | typeTest subject _ _ => [subject]
  | all rules | any rules => readsAll rules
  | negation rule => rule.reads
termination_by structural predicate => predicate

def readsAll : List Predicate → List Path
  | [] => []
  | rule :: rest => rule.reads ++ readsAll rest
termination_by structural rules => rules

end

/-- What holds of a predicate if it holds of those within it, holds of every predicate. -/
theorem induction {motive : Predicate → Prop}
    (compare : ∀ subject comparison operand, motive (.compare subject comparison operand))
    (isMatch : ∀ subject pattern, motive (.isMatch subject pattern))
    (typeTest : ∀ subject test expected, motive (.typeTest subject test expected))
    (all : ∀ rules, (∀ rule ∈ rules, motive rule) → motive (.all rules))
    (any : ∀ rules, (∀ rule ∈ rules, motive rule) → motive (.any rules))
    (negation : ∀ rule, motive rule → motive (.negation rule)) (predicate : Predicate) :
    motive predicate :=
  @Predicate.rec motive (fun rules => ∀ rule ∈ rules, motive rule)
    compare isMatch typeTest all any negation
    (fun _ h => absurd h List.not_mem_nil)
    (fun _ _ hfirst hrest => List.forall_mem_cons.mpr ⟨hfirst, hrest⟩) predicate

end Predicate

/-- The paths that the rules of a choice read. -/
def ChoiceState.reads (choice : ChoiceState) : List Path :=
  choice.branches.flatMap fun branch => branch.rule.reads

/-! ## Values alike -/

namespace Number

open Float.Model in
/-- Doubles that are equal as numbers are the same, except that both may be zeros. -/
theorem eq_or_zero_of_compare_unpacked {a b : UnpackedFloat} (h : a.compare b = some .eq) :
    a = b ∨ ∃ s t, a = .zero s ∧ b = .zero t := by
  cases a with
  | notANumber => cases h
  | infinity s =>
      cases b with
      | infinity t => cases s <;> cases t <;> first | exact Or.inl rfl | cases h
      | notANumber | zero | finite => cases s <;> cases h
  | zero s =>
      cases b with
      | zero t => exact Or.inr ⟨s, t, rfl, rfl⟩
      | notANumber => cases h
      | infinity t | finite t => cases t <;> cases h
  | finite s m e =>
      cases b with
      | notANumber => cases h
      | infinity t => cases t <;> cases h
      | zero => cases s <;> cases h
      | finite t n d =>
          have hsame (horder : (compare e d).then (compare m n) = .eq) : e = d ∧ m = n := by
            rw [Ordering.then_eq_eq, Int.compare_eq_eq, Nat.compare_eq_eq] at horder
            exact horder
          cases s <;> cases t
          · have horder := Option.some.inj h
            rw [Ordering.swap_eq_eq] at horder
            obtain ⟨rfl, rfl⟩ := hsame horder
            exact Or.inl rfl
          · cases h
          · cases h
          · obtain ⟨rfl, rfl⟩ := hsame (Option.some.inj h)
            exact Or.inl rfl

open Float.Model in
theorem compare_unpacked_congr {a b : UnpackedFloat} (h : a.compare b = some .eq)
    (c : UnpackedFloat) : a.compare c = b.compare c := by
  obtain rfl | ⟨s, t, rfl, rfl⟩ := eq_or_zero_of_compare_unpacked h
  · rfl
  · cases c with
    | notANumber | zero => rfl
    | infinity u | finite u => cases u <;> rfl

variable {x y : Float}

theorem compare?_congr_left (heq : (x == y) = true) (n : Number) :
    (float x).compare? n = (float y).compare? n := by
  rw [compare?_float_left, compare?_float_left]
  exact compare_unpacked_congr ((float_beq_iff x y).mp heq) _

theorem compare?_congr_right (heq : (x == y) = true) (n : Number) :
    n.compare? (float x) = n.compare? (float y) := by
  have hunpacked := compare_unpacked_congr ((float_beq_iff x y).mp heq) n.toFloat.toModel.unpack
  rw [compare?_float_right, compare?_float_right, compare_unpacked_swap x.toModel.unpack,
    compare_unpacked_swap y.toModel.unpack, hunpacked]

end Number

namespace Json.Alike

variable {value twin : Json} {found present : Option Json}

theorem holds_left (h : Alike value twin) (comparison : Comparison) (operand : Json) :
    comparison.holds value operand = comparison.holds twin operand := by
  cases h with
  | refl => rfl
  | doubles heq =>
      cases comparison with
      | numeric relation =>
          cases operand with
          | number n => exact congrArg (·.any relation.accepts) (Number.compare?_congr_left heq n)
          | _ => rfl
      | string | booleanEquals => rfl
  | arrays | objects => cases comparison <;> rfl

theorem holds_right (h : Alike value twin) (comparison : Comparison) (actual : Json) :
    comparison.holds actual value = comparison.holds actual twin := by
  cases h with
  | refl => rfl
  | doubles heq =>
      cases comparison with
      | numeric relation =>
          cases actual with
          | number n => exact congrArg (·.any relation.accepts) (Number.compare?_congr_right heq n)
          | _ => rfl
      | string | booleanEquals => cases actual <;> rfl
  | arrays | objects => cases comparison <;> cases actual <;> rfl

theorem typeTest_congr (h : Option.Rel Alike found present) (test : TypeTest) (expected : Bool) :
    test.holds expected found = test.holds expected present := by
  cases h with
  | none => rfl
  | some halike => cases halike <;> cases test <;> rfl

theorem asString?_congr (h : Option.Rel Alike found present) :
    found >>= asString? = present >>= asString? := by
  cases h with
  | none => rfl
  | some halike => cases halike <;> rfl

end Json.Alike

/-! ## Rules and choices -/

section Congruence

variable {document other : Json}

namespace Predicate

open Json (AgreeOn)

variable {rules : List Predicate}

theorem agreeOn_readsAll : AgreeOn (readsAll rules) document other ↔
    ∀ rule ∈ rules, AgreeOn rule.reads document other := by
  induction rules with
  | nil => exact iff_of_true nofun nofun
  | cons rule rest ih =>
      rw [List.forall_mem_cons, ← ih, readsAll]
      exact List.forall_mem_append

theorem evalAll_congr (h : ∀ rule ∈ rules, rule.eval document = rule.eval other) :
    evalAll document rules = evalAll other rules := by
  induction rules with
  | nil => rfl
  | cons rule rest ih =>
      obtain ⟨hrule, hrest⟩ := List.forall_mem_cons.mp h
      rw [evalAll, evalAll, hrule, ih hrest]

theorem evalAny_congr (h : ∀ rule ∈ rules, rule.eval document = rule.eval other) :
    evalAny document rules = evalAny other rules := by
  induction rules with
  | nil => rfl
  | cons rule rest ih =>
      obtain ⟨hrule, hrest⟩ := List.forall_mem_cons.mp h
      rw [evalAny, evalAny, hrule, ih hrest]

theorem value?_rel {operand : Operand} (h : AgreeOn operand.reads document other) :
    Option.Rel Json.Alike (operand.value? document) (operand.value? other) := by
  cases operand with
  | literal value => exact Option.Rel.some (Json.Alike.refl value)
  | path p => exact h p (List.mem_singleton_self p)

theorem eval_compare_congr {subject : Path} (comparison : Comparison) {operand : Operand}
    (hsubject : Option.Rel Json.Alike (subject.get? document) (subject.get? other))
    (hoperand : AgreeOn operand.reads document other) :
    (compare subject comparison operand).eval document =
      (compare subject comparison operand).eval other := by
  have hvalue := value?_rel hoperand
  rw [eval, eval]
  generalize subject.get? document = found, subject.get? other = present at hsubject ⊢
  generalize operand.value? document = value, operand.value? other = twin at hvalue ⊢
  cases hsubject with
  | none => rfl
  | @some actual same halike =>
      cases hvalue with
      | none => rfl
      | @some expected equal hexpected =>
          calc comparison.holds actual expected
              = comparison.holds same expected := halike.holds_left comparison expected
            _ = comparison.holds same equal := hexpected.holds_right comparison same

/-- A predicate has one truth in documents that agree on what it reads. -/
theorem eval_congr (rule : Predicate) (h : AgreeOn rule.reads document other) :
    rule.eval document = rule.eval other := by
  induction rule using induction with
  | compare subject comparison operand =>
      obtain ⟨hsubject, hoperand⟩ := List.forall_mem_cons.mp h
      exact eval_compare_congr comparison hsubject hoperand
  | isMatch subject pattern =>
      have hsubject := h subject (List.mem_singleton_self subject)
      rw [eval, eval, Json.Alike.asString?_congr hsubject]
  | typeTest subject test expected =>
      have hsubject := h subject (List.mem_singleton_self subject)
      exact Json.Alike.typeTest_congr hsubject test expected
  | all rules ih =>
      have hrules := agreeOn_readsAll.mp h
      exact evalAll_congr fun rule hrule => ih rule hrule (hrules rule hrule)
  | any rules ih =>
      have hrules := agreeOn_readsAll.mp h
      exact evalAny_congr fun rule hrule => ih rule hrule (hrules rule hrule)
  | negation rule ih =>
      rw [eval, eval, ih h]

end Predicate

namespace ChoiceState

variable {choice : ChoiceState}

theorem findIdx?_congr {branches : List Branch}
    (h : ∀ branch ∈ branches, branch.rule.eval document = branch.rule.eval other) :
    (branches.findIdx? fun branch => branch.rule.eval document) =
      branches.findIdx? fun branch => branch.rule.eval other := by
  induction branches with
  | nil => rfl
  | cons branch rest ih =>
      obtain ⟨hbranch, hrest⟩ := List.forall_mem_cons.mp h
      rw [List.findIdx?_cons, List.findIdx?_cons, hbranch, ih hrest]

theorem resolve_eq_of_agreeOn (h : Json.AgreeOn choice.reads document other) :
    choice.resolve document = choice.resolve other := by
  have hbranches : ∀ branch ∈ choice.branches,
      branch.rule.eval document = branch.rule.eval other := by
    intro branch hbranch
    apply Predicate.eval_congr
    intro path hpath
    exact h path (List.mem_flatMap.mpr ⟨branch, hbranch, hpath⟩)
  rw [resolve, resolve, findIdx?_congr hbranches]

/-- A write apart from what a choice reads leaves all of that as it was. -/
theorem agreeOn_of_apart {place : Path} {value written : Json}
    (hset : place.set value document = .ok written)
    (hapart : ∀ path ∈ choice.reads, place.Apart path) :
    Json.AgreeOn choice.reads written document := by
  intro path hpath
  rw [Path.get?_of_apart hset (hapart path hpath)]
  cases path.get? document with
  | none => exact Option.Rel.none
  | some value => exact Option.Rel.some (Json.Alike.refl value)

/-- A choice leads to one place by one rule in any two documents in which all that it reads is alike
or missing from both. It does so before and after any write that is apart from what it reads. -/
theorem resolve_by_reads (choice : ChoiceState) :
    (∀ document other, Json.AgreeOn choice.reads document other →
      choice.resolve document = choice.resolve other) ∧
    ∀ (place : Path) (value document written : Json), place.set value document = .ok written →
      (∀ path ∈ choice.reads, place.Apart path) →
        choice.resolve written = choice.resolve document := by
  refine ⟨fun document other => resolve_eq_of_agreeOn, ?_⟩
  intro place value document written hset hapart
  exact resolve_eq_of_agreeOn (agreeOn_of_apart hset hapart)

/-- Loads over their limit that are not released are held, those at rest are parked. -/
def loads : ChoiceState where
  branches :=
    [⟨.all [.compare ⟨[.key "load", .key "mass"]⟩ (.numeric .greaterThan)
          (.path ⟨[.key "limits", .index 0]⟩),
        .negation (.typeTest ⟨[.key "released"]⟩ .isPresent true)], "Hold"⟩,
     ⟨.compare ⟨[.key "speed"]⟩ (.numeric .equals) (.literal (.number (.int 0))), "Park"⟩]
  fallback := "Go"

/-- A load within its limit, with a speed and a note. -/
def load (speed : Float) (note : Json) : Json :=
  .object [("limits", .array [.number (.int 9), .number (.int 12)]),
    ("load", .object [("mass", .number (.int 5))]), ("note", note),
    ("speed", .number (.float speed))]

/-- The load is parked at either zero of the doubles, and also when an object has been written in
place of the note. -/
theorem resolve_by_reads_of_loads :
    Json.AgreeOn loads.reads (load (-0.0) (.string "fragile")) (load 0.0 .null) ∧
      loads.resolve (load 0.0 .null) = ⟨some 1, "Park"⟩ ∧
      loads.resolve (load (-0.0) (.string "fragile")) = ⟨some 1, "Park"⟩ ∧
      ∃ written, Path.set ⟨[.key "note", .key "text"]⟩ .null (load (-0.0) (.string "fragile")) =
          .ok written ∧
        written ≠ load (-0.0) (.string "fragile") ∧ loads.resolve written = ⟨some 1, "Park"⟩ := by
  obtain ⟨hdocuments, hwrites⟩ := resolve_by_reads loads
  have hreads : loads.reads = [⟨[.key "load", .key "mass"]⟩, ⟨[.key "limits", .index 0]⟩,
      ⟨[.key "released"]⟩, ⟨[.key "speed"]⟩] := rfl
  have hagree : Json.AgreeOn loads.reads (load (-0.0) (.string "fragile")) (load 0.0 .null) := by
    rw [Json.AgreeOn, hreads]
    simp only [List.forall_mem_cons]
    exact ⟨.some (.refl _), .some (.refl _), .none, .some (.doubles rfl), nofun⟩
  have hapart : ∀ path ∈ loads.reads, Path.Apart ⟨[.key "note", .key "text"]⟩ path := by
    rw [hreads]
    simp only [List.forall_mem_cons]
    exact ⟨.keys (by decide), .keys (by decide), .keys (by decide), .keys (by decide), nofun⟩
  have hparked : loads.resolve (load 0.0 .null) = ⟨some 1, "Park"⟩ := by decide +kernel
  have hfragile := (hdocuments _ _ hagree).trans hparked
  refine ⟨hagree, hparked, hfragile, _, rfl, ?_, ?_⟩
  · intro hsame
    cases congrArg (fun document => document.at? [.key "note", .key "text"]) hsame
  · exact (hwrites _ _ _ _ rfl hapart).trans hfragile

end ChoiceState

end Congruence

end StateFlow
