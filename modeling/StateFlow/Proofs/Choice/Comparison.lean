import StateFlow.Choice.Comparison
import StateFlow.Proofs.Text.Order

/-!
# What comparisons say

When a comparison is true of two values, said of the values: texts are ordered by their bytes,
integers exactly, and numbers as doubles when one of them is a double. Values of any other type are
not ordered, and no comparison is true of them. A type test describes the one value that it finds.

## Implementation notes

The order of doubles is one function with three outcomes, and `<` and `==` each ask for one of them.
So at most one of the three branches of `Number.compare?` can be taken, whatever their order.
-/

namespace StateFlow

/-- What a relation says of the order of two values. -/
def Relation.Allows : Relation → Ordering → Prop
  | equals, order => order = .eq
  | lessThan, order => order = .lt
  | greaterThan, order => order = .gt
  | lessThanEquals, order => order = .lt ∨ order = .eq
  | greaterThanEquals, order => order = .gt ∨ order = .eq

/-- Texts are ordered by their bytes. -/
def Text.Ordered (a b : String) : Ordering → Prop
  | .lt => bytes a < bytes b
  | .eq => a = b
  | .gt => bytes b < bytes a

/-- Integers are ordered exactly; next to a double both sides are taken as doubles. -/
def Number.Ordered : Number → Number → Ordering → Prop
  | int m, int n, .lt => m < n
  | int m, int n, .eq => m = n
  | int m, int n, .gt => n < m
  | a, b, .lt => a.toFloat < b.toFloat
  | a, b, .eq => a.toFloat == b.toFloat
  | a, b, .gt => b.toFloat < a.toFloat

/-- The comparison is true of two values: they are of its type, and their order is one that it
allows. -/
inductive Comparison.Relates : Comparison → Json → Json → Prop
  | string {relation : Relation} {a b : String} {order : Ordering}
      (hordered : Text.Ordered a b order) (hallows : relation.Allows order) :
      Relates (string relation) (.string a) (.string b)
  | numeric {relation : Relation} {a b : Number} {order : Ordering}
      (hordered : a.Ordered b order) (hallows : relation.Allows order) :
      Relates (numeric relation) (.number a) (.number b)
  | booleanEquals {b : Bool} : Relates booleanEquals (.bool b) (.bool b)

/-- The value is of the type that the test asks for. -/
def TypeTest.Describes : TypeTest → Json → Prop
  | isPresent, _ => True
  | isNull, value => value = .null
  | isString, value => ∃ text, value = .string text
  | isNumeric, value => ∃ number, value = .number number
  | isBoolean, value => ∃ truth, value = .bool truth

/-- The test finds what is expected. A test of presence may find nothing; any other test has to find
a value. -/
inductive TypeTest.Finds : TypeTest → (expected : Bool) → Option Json → Prop
  | presence {found : Option Json} : Finds isPresent found.isSome found
  | type {test : TypeTest} {expected : Bool} {value : Json} (htest : test ≠ isPresent)
      (hdescribes : test.Describes value ↔ expected = true) : Finds test expected (some value)

/-! ## The order of values -/

theorem Relation.accepts_iff {relation : Relation} {order : Ordering} :
    relation.accepts order = true ↔ relation.Allows order := by
  cases relation <;> cases order <;> simp [accepts, Allows]

theorem Text.compare_eq_iff {a b : String} {order : Ordering} :
    compare a b = order ↔ Text.Ordered a b order := by
  have hcompare : compare a b = compareOfLessAndEq a b := rfl
  rw [hcompare, compareOfLessAndEq]
  rcases Decidable.em (a < b) with hlt | hge
  · have hne : a ≠ b := String.ne_of_lt hlt
    have hasymm : ¬ b < a := String.lt_asymm hlt
    rw [if_pos hlt]
    cases order <;> simp [Ordered, bytes_lt_iff, hlt, hne, hasymm]
  · rw [if_neg hge]
    by_cases heq : a = b
    · subst heq
      cases order with
      | eq => exact iff_of_true (if_pos rfl) rfl
      | lt | gt =>
          rw [if_pos rfl, Ordered, bytes_lt_iff]
          exact iff_of_false nofun (String.lt_irrefl a)
    · have hgt : b < a := Std.lt_of_le_of_ne (String.not_lt.mp hge) (Ne.symm heq)
      cases order <;> simp [Ordered, bytes_lt_iff, hge, heq, hgt]

namespace Number

open Float.Model in
/-- Turning the sides around turns the order around. -/
theorem compare_unpacked_swap (a b : UnpackedFloat) :
    b.compare a = (a.compare b).map Ordering.swap := by
  cases a with
  | notANumber => cases b <;> rfl
  | infinity s =>
      cases b with
      | infinity t => cases s <;> cases t <;> rfl
      | notANumber | zero | finite => cases s <;> rfl
  | zero s =>
      cases b with
      | notANumber | zero => rfl
      | infinity t | finite t => cases t <;> rfl
  | finite s m e =>
      cases b with
      | notANumber => rfl
      | infinity t => cases t <;> rfl
      | zero => cases s <;> rfl
      | finite t n d =>
          have hcompare : (compare d e).then (compare n m) =
              ((compare e d).then (compare m n)).swap := by
            rw [Ordering.swap_then, Int.compare_swap, Nat.compare_swap]
          cases s <;> cases t
          · exact congrArg some (congrArg Ordering.swap hcompare)
          · rfl
          · rfl
          · exact congrArg some hcompare

theorem float_lt_iff (x y : Float) :
    x < y ↔ x.toModel.unpack.compare y.toModel.unpack = some .lt := by
  show decide ((x.toModel.unpack.compare y.toModel.unpack == some .lt) = true) = true ↔ _
  rw [decide_eq_true_iff, beq_iff_eq]

theorem float_beq_iff (x y : Float) :
    (x == y) = true ↔ x.toModel.unpack.compare y.toModel.unpack = some .eq := by
  show (x.toModel.unpack.compare y.toModel.unpack == some .eq) = true ↔ _
  rw [beq_iff_eq]

theorem float_gt_iff (x y : Float) :
    y < x ↔ x.toModel.unpack.compare y.toModel.unpack = some .gt := by
  rw [float_lt_iff, compare_unpacked_swap]
  cases x.toModel.unpack.compare y.toModel.unpack with
  | none => simp
  | some order => cases order <;> simp

/-- The three-way comparison of doubles takes the one branch that holds. -/
theorem compareFloats?_eq (x y : Float) :
    compareFloats? x y = x.toModel.unpack.compare y.toModel.unpack := by
  simp only [compareFloats?, float_lt_iff x y, float_beq_iff, float_gt_iff]
  cases x.toModel.unpack.compare y.toModel.unpack with
  | none => simp
  | some found => cases found <;> simp

theorem signed?_float (x : Float) : (float x).signed? = none := rfl

theorem unsigned?_float (x : Float) : (float x).unsigned? = none := rfl

/-- Which kind of word holds two integers makes no difference to their order. -/
theorem compare?_int (m n : Int) : (int m).compare? (int n) = some (compare m n) := by
  have hcast {a b : Int} (ha : 0 ≤ a) (hb : 0 ≤ b) : compare a.toNat b.toNat = compare a b := by
    have hlt : a.toNat < b.toNat ↔ a < b := by omega
    have heq : a.toNat = b.toNat ↔ a = b := by omega
    show compareOfLessAndEq _ _ = compareOfLessAndEq _ _
    simp only [compareOfLessAndEq, hlt, heq]
  have hbound : (0 : Int) ≤ Int.pow 2 63 := by decide
  rw [compare?, signed?, signed?, unsigned?, unsigned?]
  by_cases hm : m < Int.pow 2 63 <;> by_cases hn : n < Int.pow 2 63
  · rw [if_pos hm, if_pos hn]
  · rw [if_pos hm, if_neg hn, if_pos (by omega : 0 ≤ n)]
    by_cases hpos : 0 ≤ m
    · rw [if_pos hpos]
      exact congrArg some (hcast hpos (by omega))
    · rw [if_neg hpos]
      exact congrArg some (Int.compare_eq_lt.mpr (by omega)).symm
  · rw [if_neg hm, if_pos hn, if_pos (by omega : 0 ≤ m)]
    by_cases hpos : 0 ≤ n
    · rw [if_pos hpos]
      exact congrArg some (hcast (by omega) hpos)
    · rw [if_neg hpos]
      exact congrArg some (Int.compare_eq_gt.mpr (by omega)).symm
  · rw [if_neg hm, if_neg hn, if_pos (by omega : 0 ≤ m), if_pos (by omega : 0 ≤ n)]
    exact congrArg some (hcast (by omega) (by omega))

/-- Next to a double both sides are taken as doubles. -/
theorem compare?_float_left (x : Float) (n : Number) :
    (float x).compare? n = x.toModel.unpack.compare n.toFloat.toModel.unpack := by
  rw [← compareFloats?_eq, compare?, signed?_float, unsigned?_float]
  cases n.signed? <;> cases n.unsigned? <;> rfl

theorem compare?_float_right (n : Number) (x : Float) :
    n.compare? (float x) = n.toFloat.toModel.unpack.compare x.toModel.unpack := by
  rw [← compareFloats?_eq, compare?, signed?_float, unsigned?_float]
  cases n.signed? <;> cases n.unsigned? <;> rfl

theorem compare?_eq_some_iff {a b : Number} {order : Ordering} :
    a.compare? b = some order ↔ a.Ordered b order := by
  have hfloats (x y : Float) : x.toModel.unpack.compare y.toModel.unpack = some order ↔
      match order with
      | .lt => x < y
      | .eq => (x == y) = true
      | .gt => y < x := by
    cases order with
    | lt => exact (float_lt_iff x y).symm
    | eq => exact (float_beq_iff x y).symm
    | gt => exact (float_gt_iff x y).symm
  cases a with
  | int m =>
      cases b with
      | int n =>
          rw [compare?_int]
          cases order <;> simp [Ordered, Int.compare_eq_lt, Int.compare_eq_gt]
      | float y =>
          rw [compare?_float_right, hfloats]
          cases order <;> rfl
  | float x =>
      rw [compare?_float_left, hfloats]
      cases order <;> rfl

end Number

/-! ## Comparisons and type tests -/

theorem Comparison.holds_iff {comparison : Comparison} {actual operand : Json} :
    comparison.holds actual operand = true ↔ comparison.Relates actual operand := by
  constructor
  · intro h
    cases comparison with
    | string relation =>
        cases actual <;> cases operand <;> try cases h
        exact Relates.string (Text.compare_eq_iff.mp rfl) (Relation.accepts_iff.mp h)
    | numeric relation =>
        cases actual <;> cases operand <;> try cases h
        obtain ⟨order, horder, haccepts⟩ := (Option.any_eq_true _ _).mp h
        exact Relates.numeric (Number.compare?_eq_some_iff.mp horder)
          (Relation.accepts_iff.mp haccepts)
    | booleanEquals =>
        cases actual <;> cases operand <;> try cases h
        rw [holds, beq_iff_eq] at h
        subst h
        exact Relates.booleanEquals
  · intro h
    cases h with
    | string hordered hallows =>
        rw [holds, Text.compare_eq_iff.mpr hordered]
        exact Relation.accepts_iff.mpr hallows
    | numeric hordered hallows =>
        rw [holds, Number.compare?_eq_some_iff.mpr hordered]
        exact Relation.accepts_iff.mpr hallows
    | booleanEquals => simp [holds]

theorem TypeTest.holds_iff {test : TypeTest} {expected : Bool} {found : Option Json} :
    test.holds expected found = true ↔ test.Finds expected found := by
  constructor
  · intro h
    cases test with
    | isPresent =>
        rw [holds, beq_iff_eq] at h
        exact h ▸ Finds.presence
    | isNull | isString | isNumeric | isBoolean =>
        cases found with
        | none => cases h
        | some value =>
            rw [holds, beq_iff_eq] at h
            refine Finds.type (by simp) ?_
            rw [← h]
            cases value <;>
              simp [Describes, Json.isNull, Json.isString, Json.isNumber, Json.isBool]
  · intro h
    cases h with
    | presence => simp [holds]
    | @type _ _ value htest hdescribes =>
        cases test with
        | isPresent => exact absurd rfl htest
        | isNull | isString | isNumeric | isBoolean =>
            rw [holds, beq_iff_eq, Bool.eq_iff_iff, ← hdescribes]
            cases value <;>
              simp [Describes, Json.isNull, Json.isString, Json.isNumber, Json.isBool]

end StateFlow
