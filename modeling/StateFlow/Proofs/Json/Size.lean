import Mathlib.Algebra.GroupWithZero.Nat
import StateFlow.Json.Printer

/-!
# The size of documents

The number of bytes of a document's compact text, counted from the document itself. Brackets,
commas, colons and quotes take one byte each; inside quotes a character takes two bytes or six where
it is escaped, and else those of its UTF-8 encoding.
-/

namespace StateFlow

namespace Number

/-- The bytes of an integer are its sign and its decimal digits. -/
def byteCount : Number → Nat
  | int n => (if n < 0 then 1 else 0) + (Nat.toDigits 10 n.natAbs).length
  | float x => (floatText x).utf8ByteSize

end Number

namespace Json

/-- The bytes of a character inside quotes. -/
def charBytes (c : Char) : Nat :=
  if c = '"' ∨ c = '\\' ∨ c.toNat ∈ [8, 9, 10, 12, 13] then 2
  else if c.toNat < 32 then 6
  else c.utf8Size

/-- The bytes of a text in quotes. -/
def quotedBytes (s : String) : Nat :=
  2 + (s.toList.map charBytes).sum

mutual

/-- The bytes of a document without blanks. -/
def byteCount : Json → Nat
  | null => 4
  | bool b => if b then 4 else 5
  | number n => n.byteCount
  | string s => quotedBytes s
  | array items => 2 + byteCountItems items + (items.length - 1)
  | object members => 2 + byteCountMembers members + (members.length - 1)
termination_by structural document => document

def byteCountItems : List Json → Nat
  | [] => 0
  | item :: rest => item.byteCount + byteCountItems rest
termination_by structural items => items

def byteCountMembers : List (String × Json) → Nat
  | [] => 0
  | member :: rest => byteCountMember member + byteCountMembers rest
termination_by structural members => members

def byteCountMember : String × Json → Nat
  | (name, value) => quotedBytes name + 1 + value.byteCount
termination_by structural member => member

end

/-! ## Texts -/

theorem utf8ByteSize_ofList (chars : List Char) :
    (String.ofList chars).utf8ByteSize = (chars.map Char.utf8Size).sum := by
  induction chars with
  | nil => rfl
  | cons c chars ih =>
      rw [String.ofList_cons, String.utf8ByteSize_append, String.utf8ByteSize_singleton, ih,
        List.map_cons, List.sum_cons]

theorem utf8ByteSize_intercalate (separator : String) (texts : List String) :
    (separator.intercalate texts).utf8ByteSize =
      (texts.map String.utf8ByteSize).sum + (texts.length - 1) * separator.utf8ByteSize := by
  induction texts with
  | nil => simp
  | cons text texts ih =>
      cases texts with
      | nil => simp
      | cons next texts =>
          rw [String.intercalate_cons_cons, String.utf8ByteSize_append, String.utf8ByteSize_append,
            ih]
          simp only [List.map_cons, List.sum_cons, List.length_cons, Nat.add_sub_cancel]
          rw [Nat.succ_mul]
          omega

/-! ## Numbers -/

theorem utf8ByteSize_repr (n : Nat) : n.repr.utf8ByteSize = (Nat.toDigits 10 n).length := by
  have hascii : ∀ c ∈ Nat.toDigits 10 n, c.utf8Size = 1 := by
    intro c hc
    have hdigit := Nat.isDigit_of_mem_toDigits (by decide) (by decide) hc
    rw [Char.isDigit, Bool.and_eq_true, decide_eq_true_eq, decide_eq_true_eq] at hdigit
    exact Char.utf8Size_eq_one_iff.mpr (UInt32.le_trans hdigit.2 (by decide))
  calc n.repr.utf8ByteSize
      = ((Nat.toDigits 10 n).map Char.utf8Size).sum := by
        rw [Nat.repr_eq_ofList_toDigits, utf8ByteSize_ofList]
    _ = ((Nat.toDigits 10 n).map fun _ => 1).sum := by rw [List.map_congr_left hascii]
    _ = (Nat.toDigits 10 n).length := by
        rw [List.map_const', List.sum_replicate_nat, Nat.mul_one]

theorem utf8ByteSize_number (n : Number) : n.text.utf8ByteSize = n.byteCount := by
  cases n with
  | float x => rfl
  | int n =>
      rw [Number.text, Number.byteCount]
      cases n with
      | ofNat n =>
          have hsign : ¬ Int.ofNat n < 0 := Int.not_lt.mpr (Int.natCast_nonneg n)
          rw [if_neg hsign, Nat.zero_add]
          exact utf8ByteSize_repr n
      | negSucc n =>
          rw [if_pos (Int.negSucc_lt_zero n)]
          change ("-" ++ (n + 1).repr).utf8ByteSize = _
          rw [String.utf8ByteSize_append, utf8ByteSize_repr]
          rfl

/-! ## Texts in quotes -/

theorem utf8ByteSize_hexQuad : ∀ n < 32, (hexQuad n).utf8ByteSize = 4 := by
  decide

theorem utf8ByteSize_escapeChar (c : Char) : (escapeChar c).utf8ByteSize = charBytes c := by
  unfold escapeChar charBytes
  by_cases hspecial : c = '"' ∨ c = '\\' ∨ c.toNat ∈ [8, 9, 10, 12, 13]
  · rw [if_pos hspecial]
    have hcode {n : Nat} (h : c.toNat = n) : c = Char.ofNat n := by
      rw [← h, Char.ofNat_toNat]
    simp only [List.mem_cons, List.not_mem_nil, or_false] at hspecial
    rcases hspecial with rfl | rfl | h | h | h | h | h
    · rfl
    · rfl
    all_goals
      rw [hcode h]
      rfl
  · rw [if_neg hspecial]
    simp only [List.mem_cons, List.not_mem_nil, or_false, not_or] at hspecial
    obtain ⟨hquote, hbackslash, h8, h9, h10, h12, h13⟩ := hspecial
    rw [if_neg hquote, if_neg hbackslash, if_neg h8, if_neg h9, if_neg h10, if_neg h12, if_neg h13]
    by_cases hcontrol : c.toNat < 32
    · rw [if_pos hcontrol, if_pos hcontrol, String.utf8ByteSize_append,
        utf8ByteSize_hexQuad _ hcontrol]
      rfl
    · rw [if_neg hcontrol, if_neg hcontrol]
      exact String.utf8ByteSize_singleton

theorem utf8ByteSize_quote (s : String) : (quote s).utf8ByteSize = quotedBytes s := by
  have hfold (chars : List Char) (front : String) :
      (chars.foldl (fun text c => text ++ escapeChar c) front).utf8ByteSize =
        front.utf8ByteSize + (chars.map charBytes).sum := by
    induction chars generalizing front with
    | nil => rfl
    | cons c chars ih =>
        rw [List.foldl_cons, ih, String.utf8ByteSize_append, utf8ByteSize_escapeChar,
          List.map_cons, List.sum_cons, Nat.add_assoc]
  have hquotes : "\"".utf8ByteSize = 1 := rfl
  rw [quote, quotedBytes, String.utf8ByteSize_append, hfold, hquotes]
  omega

/-! ## Documents -/

theorem length_compactItems (items : List Json) : (compactItems items).length = items.length := by
  induction items with
  | nil => rfl
  | cons item rest ih =>
      rw [compactItems, List.length_cons, List.length_cons, ih]

theorem length_compactMembers (members : List (String × Json)) :
    (compactMembers members).length = members.length := by
  induction members with
  | nil => rfl
  | cons member rest ih =>
      rw [compactMembers, List.length_cons, List.length_cons, ih]

mutual

/-- The size of a document is the number of its bytes. -/
theorem size_eq_byteCount (document : Json) : document.size = document.byteCount := by
  cases document with
  | null => rfl
  | bool b => cases b <;> rfl
  | number n => exact utf8ByteSize_number n
  | string s => exact utf8ByteSize_quote s
  | array items =>
      have hitems := sum_compactItems items
      have hbrackets : "[".utf8ByteSize = 1 ∧ "]".utf8ByteSize = 1 ∧ ",".utf8ByteSize = 1 :=
        ⟨rfl, rfl, rfl⟩
      rw [size, compact, String.utf8ByteSize_append, String.utf8ByteSize_append,
        utf8ByteSize_intercalate, hitems, length_compactItems, byteCount, hbrackets.2.2,
        Nat.mul_one]
      omega
  | object members =>
      have hmembers := sum_compactMembers members
      have hbraces : "\x7b".utf8ByteSize = 1 ∧ "\x7d".utf8ByteSize = 1 ∧ ",".utf8ByteSize = 1 :=
        ⟨rfl, rfl, rfl⟩
      rw [size, compact, String.utf8ByteSize_append, String.utf8ByteSize_append,
        utf8ByteSize_intercalate, hmembers, length_compactMembers, byteCount, hbraces.2.2,
        Nat.mul_one]
      omega
termination_by structural document

theorem sum_compactItems (items : List Json) :
    ((compactItems items).map String.utf8ByteSize).sum = byteCountItems items := by
  cases items with
  | nil => rfl
  | cons item rest =>
      have hitem := size_eq_byteCount item
      rw [compactItems, List.map_cons, List.sum_cons, sum_compactItems rest, byteCountItems,
        ← hitem]
      rfl
termination_by structural items

theorem sum_compactMembers (members : List (String × Json)) :
    ((compactMembers members).map String.utf8ByteSize).sum = byteCountMembers members := by
  cases members with
  | nil => rfl
  | cons member rest =>
      rw [compactMembers, List.map_cons, List.sum_cons, sum_compactMembers rest,
        utf8ByteSize_compactMember member, byteCountMembers]
termination_by structural members

theorem utf8ByteSize_compactMember (member : String × Json) :
    (compactMember member).utf8ByteSize = byteCountMember member := by
  obtain ⟨name, value⟩ := member
  have hvalue := size_eq_byteCount value
  have hcolon : ":".utf8ByteSize = 1 := rfl
  rw [compactMember, String.utf8ByteSize_append, String.utf8ByteSize_append, utf8ByteSize_quote,
    hcolon, byteCountMember, ← hvalue]
  rfl
termination_by structural member

end

/-- Of the characters in quotes the first takes two bytes, the second six and the third three. -/
example : (object [("a", string "\n\x01€")]).byteCount = 19 := by decide

end Json

end StateFlow
