/-!
# The order of texts by their bytes

Texts are ordered by their code points. The UTF-8 encoding keeps that order: of two different code
points the smaller one has the smaller byte at the first place where their bytes differ, and there
is such a place before the bytes of either end.
-/

namespace StateFlow.Text

/-- The UTF-8 bytes of a text. -/
def bytes (s : String) : List UInt8 :=
  s.toByteArray.data.toList

theorem bytes_inj {s t : String} : bytes s = bytes t ↔ s = t := by
  rw [bytes, bytes, Array.toList_inj, ← ByteArray.ext_iff, String.toByteArray_inj]

theorem bytes_eq_flatMap (s : String) : bytes s = s.toList.flatMap String.utf8EncodeChar := by
  rw [bytes, ← String.utf8Encode_toList, List.utf8Encode]
  simp

theorem byte_lt_iff {m n : Nat} (hm : m < 256) (hn : n < 256) :
    UInt8.ofNat m < UInt8.ofNat n ↔ m < n := by
  rw [UInt8.lt_iff_toNat_lt, UInt8.toNat_ofNat', UInt8.toNat_ofNat', Nat.mod_eq_of_lt hm,
    Nat.mod_eq_of_lt hn]

theorem byte_eq_iff {m n : Nat} (hm : m < 256) (hn : n < 256) :
    UInt8.ofNat m = UInt8.ofNat n ↔ m = n := by
  rw [← UInt8.toNat_inj, UInt8.toNat_ofNat', UInt8.toNat_ofNat', Nat.mod_eq_of_lt hm,
    Nat.mod_eq_of_lt hn]

theorem toNat_lt (c : Char) : c.val.toNat < 0x110000 := by
  have h := c.valid
  simp only [UInt32.isValidChar, Nat.isValidChar] at h
  omega

/-- The bytes of the smaller code point come first, whatever follows either of them. -/
theorem encode_append_lt {c d : Char} (h : c < d) (s t : List UInt8) :
    String.utf8EncodeChar c ++ s < String.utf8EncodeChar d ++ t := by
  have hlt : c.val.toNat < d.val.toNat := h
  have hmax := toNat_lt d
  have hdigits (n : Nat) (hn : n < 0x110000) :
      n / 64 / 64 = n / 4096 ∧ n / 4096 / 64 = n / 262144 ∧ n / 262144 / 8 = 0 := by omega
  have hcdigits := hdigits c.val.toNat (toNat_lt c)
  have hddigits := hdigits d.val.toNat (toNat_lt d)
  -- One case for each pair of lengths; the longer encoding never belongs to the smaller one.
  have hc : c.val.toNat ≤ 0x7f ∨ (0x7f < c.val.toNat ∧ c.val.toNat ≤ 0x7ff) ∨
      (0x7ff < c.val.toNat ∧ c.val.toNat ≤ 0xffff) ∨ 0xffff < c.val.toNat := by omega
  have hd : d.val.toNat ≤ 0x7f ∨ (0x7f < d.val.toNat ∧ d.val.toNat ≤ 0x7ff) ∨
      (0x7ff < d.val.toNat ∧ d.val.toNat ≤ 0xffff) ∨ 0xffff < d.val.toNat := by omega
  rcases hc with hc | hc | hc | hc <;> rcases hd with hd | hd | hd | hd <;>
    first
    | omega
    | simp (disch := omega) only [String.utf8EncodeChar, if_pos, if_neg, List.cons_append,
        List.nil_append, List.cons_lt_cons_iff, byte_lt_iff, byte_eq_iff]
      omega

theorem flatMap_encode_lt {s t : List Char} (h : s < t) :
    s.flatMap String.utf8EncodeChar < t.flatMap String.utf8EncodeChar := by
  induction s generalizing t with
  | nil =>
      cases t with
      | nil => exact absurd h (List.not_lt_nil [])
      | cons d t =>
          obtain ⟨b, bs, hb⟩ := List.exists_cons_of_ne_nil (String.utf8EncodeChar_ne_nil (c := d))
          rw [List.flatMap_cons, hb]
          exact List.nil_lt_cons b _
  | cons c s ih =>
      cases t with
      | nil => exact absurd h (List.not_lt_nil _)
      | cons d t =>
          rw [List.flatMap_cons, List.flatMap_cons]
          rcases List.cons_lt_cons_iff.mp h with hlt | ⟨rfl, hlt⟩
          · exact encode_append_lt hlt _ _
          · exact List.append_left_lt (ih hlt)

/-- The order of texts is the order of their bytes. -/
theorem bytes_lt_iff {s t : String} : bytes s < bytes t ↔ s < t := by
  simp only [bytes_eq_flatMap]
  have hmono {s t : String} (h : s < t) :
      s.toList.flatMap String.utf8EncodeChar < t.toList.flatMap String.utf8EncodeChar :=
    flatMap_encode_lt h
  constructor
  · intro h
    rcases Decidable.em (s < t) with hlt | hge
    · exact hlt
    · exfalso
      rcases Decidable.em (s = t) with rfl | hne
      · exact List.lt_irrefl _ h
      · have hgt : t < s := Std.lt_of_le_of_ne (String.not_lt.mp hge) (Ne.symm hne)
        exact List.lt_asymm h (hmono hgt)
  · exact hmono

end StateFlow.Text
