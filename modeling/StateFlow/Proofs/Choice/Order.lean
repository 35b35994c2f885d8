import Mathlib.Data.Ordering.Basic
import StateFlow.Proofs.Choice.Predicate

/-!
# What comparisons put in order

The numeric operators put the integers in their order and the text operators put the texts in the
order of their bytes, so of two such values one is smaller than the other or they are equal, and the
other relations follow from these three. Nothing of the kind is said of doubles: next to one of them
an integer is rounded.

## Implementation notes

Everything about five relations is read off the one `Ordering` of two values. That an integer is
compared as a signed word here and as an unsigned one there is settled by `Number.compare?_int`.
-/

namespace StateFlow

namespace Relation

/-- What a relation says of two members of an ordered type. -/
def Says {α : Type} [LT α] [LE α] : Relation → α → α → Prop
  | equals, a, b => a = b
  | lessThan, a, b => a < b
  | greaterThan, a, b => b < a
  | lessThanEquals, a, b => a ≤ b
  | greaterThanEquals, a, b => b ≤ a

/-- The relation that says the same of two values taken in the other order. -/
def converse : Relation → Relation
  | equals => equals
  | lessThan => greaterThan
  | greaterThan => lessThan
  | lessThanEquals => greaterThanEquals
  | greaterThanEquals => lessThanEquals

/-- A test for each relation, of which just one of the three that exclude each other is true; the
other two tests deny one of them. -/
structure Exclusive (test : Relation → Bool) : Prop where
  one : ∃ relation ∈ [lessThan, equals, greaterThan],
    ∀ other ∈ [lessThan, equals, greaterThan], test other = true ↔ other = relation
  lessThanEquals_eq : test lessThanEquals = !test greaterThan
  greaterThanEquals_eq : test greaterThanEquals = !test lessThan

variable {relation : Relation} {order : Ordering}

theorem accepts_swap : relation.converse.accepts order.swap = relation.accepts order := by
  cases relation <;> cases order <;> rfl

theorem exclusive_accepts (order : Ordering) :
    Exclusive fun relation => relation.accepts order := by
  cases order with
  | lt => exact ⟨⟨lessThan, by decide, by decide⟩, rfl, rfl⟩
  | eq => exact ⟨⟨equals, by decide, by decide⟩, rfl, rfl⟩
  | gt => exact ⟨⟨greaterThan, by decide, by decide⟩, rfl, rfl⟩

/-- Where an ordering tells which of three things is so of two values, a relation accepts it exactly
if what the relation says of them is so. -/
theorem accepts_iff_says {α : Type} [LT α] [LE α] {a b : α} (hlt : order = .lt ↔ a < b)
    (heq : order = .eq ↔ a = b) (hgt : order = .gt ↔ b < a) (hle : a ≤ b ↔ ¬ b < a)
    (hge : b ≤ a ↔ ¬ a < b) : relation.accepts order = true ↔ relation.Says a b := by
  cases relation with
  | equals => rw [accepts, beq_iff_eq, heq, Says]
  | lessThan => rw [accepts, beq_iff_eq, hlt, Says]
  | greaterThan => rw [accepts, beq_iff_eq, hgt, Says]
  | lessThanEquals => rw [accepts, bne_iff_ne, Ne, hgt, Says, hle]
  | greaterThanEquals => rw [accepts, bne_iff_ne, Ne, hlt, Says, hge]

theorem accepts_compare_integers {m n : Int} :
    relation.accepts (compare m n) = true ↔ relation.Says m n :=
  accepts_iff_says Int.compare_eq_lt Int.compare_eq_eq Int.compare_eq_gt Int.not_lt.symm
    Int.not_lt.symm

theorem accepts_compare_texts {s t : String} :
    relation.accepts (compare s t) = true ↔ relation.Says (Text.bytes s) (Text.bytes t) := by
  have hequal : compare s t = .eq ↔ Text.bytes s = Text.bytes t := by
    rw [Text.compare_eq_iff, Text.Ordered, Text.bytes_inj]
  exact accepts_iff_says Text.compare_eq_iff hequal Text.compare_eq_iff List.not_lt.symm
    List.not_lt.symm

theorem accepts_trans {α : Type} [Ord α] [Std.TransOrd α] {a b c : α}
    (hab : relation.accepts (compare a b) = true) (hbc : relation.accepts (compare b c) = true) :
    relation.accepts (compare a c) = true := by
  cases relation with
  | equals =>
      rw [accepts, beq_iff_eq] at *
      exact Std.TransCmp.eq_trans hab hbc
  | lessThan =>
      rw [accepts, beq_iff_eq] at *
      exact Std.TransCmp.lt_trans hab hbc
  | greaterThan =>
      rw [accepts, beq_iff_eq] at *
      exact Std.TransCmp.gt_trans hab hbc
  | lessThanEquals =>
      rw [accepts, bne_iff_ne, Ne, ← Ordering.isLE_iff_ne_gt] at *
      exact Std.TransCmp.isLE_trans hab hbc
  | greaterThanEquals =>
      rw [accepts, bne_iff_ne, Ne, ← Ordering.isGE_iff_ne_lt] at *
      exact Std.TransCmp.isGE_trans hab hbc

end Relation

/-- Exchanging two numbers turns their order around. -/
theorem Number.compare?_swap (a b : Number) : b.compare? a = (a.compare? b).map Ordering.swap := by
  cases a with
  | int m =>
      cases b with
      | int n => rw [compare?_int, compare?_int, Option.map_some, Int.compare_swap]
      | float y => rw [compare?_float_left, compare?_float_right, compare_unpacked_swap]
  | float x => rw [compare?_float_left, compare?_float_right, compare_unpacked_swap]

/-- What can be put in order: integers by the numeric operators, texts by the operators on texts. -/
inductive Scale where
  | integers
  | texts
deriving DecidableEq

namespace Scale

/-- The five operators of a scale. -/
def operator : Scale → Relation → Comparison
  | integers, relation => .numeric relation
  | texts, relation => .string relation

/-- The values of a scale. -/
def Has : Scale → Json → Prop
  | integers, value => ∃ n : Int, value = .number (.int n)
  | texts, value => ∃ text, value = .string text

variable {scale : Scale} {a b c : Json} {relation : Relation}

theorem holds_integers (m n : Int) :
    (integers.operator relation).holds (.number (.int m)) (.number (.int n)) =
      relation.accepts (compare m n) := by
  rw [operator, Comparison.holds, Number.compare?_int, Option.any_some]

theorem holds_texts (s t : String) :
    (texts.operator relation).holds (.string s) (.string t) = relation.accepts (compare s t) :=
  rfl

/-- Two values of a scale stand in one order, and each operator asks for it. -/
theorem exists_order (ha : scale.Has a) (hb : scale.Has b) :
    ∃ order : Ordering, ∀ relation,
      (scale.operator relation).holds a b = relation.accepts order := by
  cases scale with
  | integers =>
      obtain ⟨m, rfl⟩ := ha
      obtain ⟨n, rfl⟩ := hb
      exact ⟨compare m n, fun _ => holds_integers m n⟩
  | texts =>
      obtain ⟨s, rfl⟩ := ha
      obtain ⟨t, rfl⟩ := hb
      exact ⟨compare s t, fun _ => holds_texts s t⟩

theorem holds_trans (ha : scale.Has a) (hb : scale.Has b) (hc : scale.Has c)
    (hab : (scale.operator relation).holds a b = true)
    (hbc : (scale.operator relation).holds b c = true) :
    (scale.operator relation).holds a c = true := by
  cases scale with
  | integers =>
      obtain ⟨m, rfl⟩ := ha
      obtain ⟨n, rfl⟩ := hb
      obtain ⟨k, rfl⟩ := hc
      rw [holds_integers] at *
      exact Relation.accepts_trans hab hbc
  | texts =>
      obtain ⟨s, rfl⟩ := ha
      obtain ⟨t, rfl⟩ := hb
      obtain ⟨u, rfl⟩ := hc
      rw [holds_texts] at *
      exact Relation.accepts_trans hab hbc

/-- Exchanging the sides exchanges the relation for its converse, whatever the values are. -/
theorem holds_converse (scale : Scale) (relation : Relation) (a b : Json) :
    (scale.operator relation.converse).holds b a = (scale.operator relation).holds a b := by
  cases scale with
  | integers =>
      cases a <;> cases b <;> try rfl
      next m n =>
        rw [operator, operator, Comparison.holds, Comparison.holds, Number.compare?_swap m n,
          Option.any_map]
        exact congrArg (m.compare? n).any (funext fun _ => Relation.accepts_swap)
  | texts =>
      cases a <;> cases b <;> try rfl
      next s t =>
        rw [holds_texts, holds_texts, Std.OrientedOrd.eq_swap (a := t)]
        exact Relation.accepts_swap

/-- No operator is true of values of which one is not of its type. -/
theorem holds_of_mistyped
    (h : ¬ ((scale.operator relation).IsTypeOf a ∧ (scale.operator relation).IsTypeOf b)) :
    (scale.operator relation).holds a b = false := by
  rw [Bool.eq_false_iff, Ne, Comparison.holds_iff]
  intro hrelates
  apply h
  cases scale with
  | integers =>
      cases hrelates
      exact ⟨⟨_, rfl⟩, ⟨_, rfl⟩⟩
  | texts =>
      cases hrelates
      exact ⟨⟨_, rfl⟩, ⟨_, rfl⟩⟩

end Scale

namespace Predicate

variable {document : Json} {subject : Path} {comparison : Comparison} {operand : Operand}

/-- A comparison of two values that are found is true if its operator is true of them. -/
theorem eval_compare_of_found {actual expected : Json}
    (hactual : subject.get? document = some actual)
    (hexpected : operand.value? document = some expected) :
    (compare subject comparison operand).eval document = comparison.holds actual expected := by
  rw [eval, hactual, hexpected]

theorem eval_compare_of_missing
    (h : subject.get? document = none ∨ operand.value? document = none) :
    (compare subject comparison operand).eval document = false := by
  rw [eval]
  rcases h with h | h
  · rw [h]
  · rw [h]
    cases subject.get? document <;> rfl

/-- A comparison with the value at another path says the same as the converse one from there. -/
theorem eval_compare_converse (document : Json) (scale : Scale) (relation : Relation)
    (first second : Path) :
    (compare second (scale.operator relation.converse) (.path first)).eval document =
      (compare first (scale.operator relation) (.path second)).eval document := by
  cases hfirst : first.get? document with
  | none =>
      have hoperand : (Operand.path first).value? document = none := hfirst
      rw [eval_compare_of_missing (.inl hfirst), eval_compare_of_missing (.inr hoperand)]
  | some a =>
      have hfirst' : (Operand.path first).value? document = some a := hfirst
      cases hsecond : second.get? document with
      | none =>
          have hoperand : (Operand.path second).value? document = none := hsecond
          rw [eval_compare_of_missing (.inl hsecond), eval_compare_of_missing (.inr hoperand)]
      | some b =>
          have hsecond' : (Operand.path second).value? document = some b := hsecond
          rw [eval_compare_of_found hfirst hsecond', eval_compare_of_found hsecond hfirst']
          exact scale.holds_converse relation a b

/-- In every document, and of whatever is found at a variable and as its operand: the numeric
operators say of two integers what their relations say of the integers, and the operators on texts
say of two texts what their relations say of the bytes. So of two values of one scale just one of
three relations is true and the other two deny one of these, every relation is transitive, and a
comparison may be turned around. Nothing is true of values of which one is not of the type. -/
theorem orders_exactly (document : Json) :
    (∀ relation subject operand (m n : Int),
      subject.get? document = some (.number (.int m)) →
      operand.value? document = some (.number (.int n)) →
      ((compare subject (.numeric relation) operand).eval document = true ↔
        relation.Says m n)) ∧
    (∀ relation subject operand s t,
      subject.get? document = some (.string s) → operand.value? document = some (.string t) →
      ((compare subject (.string relation) operand).eval document = true ↔
        relation.Says (Text.bytes s) (Text.bytes t))) ∧
    (∀ (scale : Scale) subject operand a b,
      subject.get? document = some a → operand.value? document = some b →
      scale.Has a → scale.Has b →
      Relation.Exclusive fun relation =>
        (compare subject (scale.operator relation) operand).eval document) ∧
    (∀ (scale : Scale) relation first second,
      (compare second (scale.operator relation.converse) (.path first)).eval document =
        (compare first (scale.operator relation) (.path second)).eval document) ∧
    (∀ (scale : Scale) relation first second operand a b c,
      first.get? document = some a → second.get? document = some b →
      operand.value? document = some c → scale.Has a → scale.Has b → scale.Has c →
      (compare first (scale.operator relation) (.path second)).eval document = true →
      (compare second (scale.operator relation) operand).eval document = true →
      (compare first (scale.operator relation) operand).eval document = true) ∧
    (∀ (scale : Scale) relation subject operand a b,
      subject.get? document = some a → operand.value? document = some b →
      ¬ ((scale.operator relation).IsTypeOf a ∧ (scale.operator relation).IsTypeOf b) →
      (compare subject (scale.operator relation) operand).eval document = false) := by
  refine ⟨?_, ?_, ?_, eval_compare_converse document, ?_, ?_⟩
  · intro relation subject operand m n hm hn
    rw [eval_compare_of_found hm hn, ← Scale.operator, Scale.holds_integers]
    exact Relation.accepts_compare_integers
  · intro relation subject operand s t hs ht
    rw [eval_compare_of_found hs ht, ← Scale.operator, Scale.holds_texts]
    exact Relation.accepts_compare_texts
  · intro scale subject operand a b hactual hexpected ha hb
    obtain ⟨order, horder⟩ := Scale.exists_order ha hb
    have htests : (fun relation =>
        (compare subject (scale.operator relation) operand).eval document) =
          fun relation => relation.accepts order :=
      funext fun relation => (eval_compare_of_found hactual hexpected).trans (horder relation)
    rw [htests]
    exact Relation.exclusive_accepts order
  · intro scale relation first second operand a b c hfirst hsecond hthird ha hb hc hab hbc
    have hoperand : (Operand.path second).value? document = some b := hsecond
    rw [eval_compare_of_found hfirst hoperand] at hab
    rw [eval_compare_of_found hsecond hthird] at hbc
    rw [eval_compare_of_found hfirst hthird]
    exact Scale.holds_trans ha hb hc hab hbc
  · intro scale relation subject operand a b hactual hexpected hmistyped
    rw [eval_compare_of_found hactual hexpected]
    exact Scale.holds_of_mistyped hmistyped

/-- The largest integer of a document and the smallest one. No word of 64 bits holds them both. -/
def farthest : Json :=
  .array [.number (.int (Int.pow 2 64 - 1)), .number (.int (-Int.pow 2 63))]

/-- They are told apart, and in the right order. -/
theorem orders_exactly_of_farthest :
    (compare ⟨[.index 0]⟩ (.numeric .greaterThan) (.path ⟨[.index 1]⟩)).eval farthest = true ∧
      (compare ⟨[.index 1]⟩ (.numeric .lessThan) (.path ⟨[.index 0]⟩)).eval farthest = true := by
  obtain ⟨hintegers, -, -, hconverse, -⟩ := orders_exactly farthest
  have hgreater := (hintegers .greaterThan ⟨[.index 0]⟩ (.path ⟨[.index 1]⟩) _ _ rfl rfl).mpr
    (by decide : -Int.pow 2 63 < Int.pow 2 64 - 1)
  exact ⟨hgreater, (hconverse .integers .greaterThan _ _).trans hgreater⟩

end Predicate

end StateFlow
