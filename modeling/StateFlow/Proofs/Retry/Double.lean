import Mathlib
import StateFlow.Retry.Policy

/-!
# Doubles from one upwards

A double that is at least one is positive infinity, or it has a mantissa of 53 bits, the highest of
which stands for one or more. Rounding keeps a number of this kind among such doubles, and so do
writing it into 64 bits and reading it again. So every positive number of milliseconds is a double
of this kind, and none of them is cut to zero.

## Implementation notes

Rounding moves the mantissa twice: the rounding up in between may give it a bit too many.
-/

namespace StateFlow.Double

open Float.Model (Format totalExponent UnpackedFloat)
open Float.Model.UnpackedFloat

/-- A number that is one or more, as a double can hold it. -/
inductive FromOne : UnpackedFloat → Prop
  | infinity : FromOne (.infinity .positive)
  | finite {mantissa : Nat} {exponent : Int} {hpos : 0 < mantissa} (hlow : 2 ^ 52 ≤ mantissa)
      (hhigh : mantissa < 2 ^ 53) (hexponent : -52 ≤ exponent) :
      FromOne (.finite .positive mantissa exponent hpos)

/-! ## Rounding -/

theorem mantissa_shiftRight (mantissa : ExtendedMantissa) (places : Nat) :
    (mantissa >>> places).mantissa = mantissa.mantissa / 2 ^ places := by
  induction places with
  | zero => exact (Nat.div_one _).symm
  | succ places ih =>
      show (mantissa >>> places).mantissa / 2 = _
      rw [ih, Nat.div_div_eq_div_mul, Nat.pow_succ]

theorem roundedMantissa_eq_or (mantissa : ExtendedMantissa) :
    mantissa.roundedMantissa = mantissa.mantissa ∨
      mantissa.roundedMantissa = mantissa.mantissa + 1 := by
  obtain ⟨value, round, sticky⟩ := mantissa
  cases round <;> cases sticky <;>
    simp [ExtendedMantissa.roundedMantissa, ExtendedMantissa.accuracy, Accuracy.roundToNearestEven]
  omega

/-- A mantissa of more than 53 bits is moved until it has 53. -/
theorem targetExponent_of_le {mantissa : Nat} {exponent : Int} (hbits : 52 ≤ mantissa.log2)
    (hone : 0 ≤ mantissa.log2 + exponent) :
    Format.binary64.targetExponent (totalExponent mantissa exponent) =
      exponent + ((mantissa.log2 - 52 : Nat) : Int) := by
  simp only [Format.targetExponent, totalExponent, Format.mantissaBits, Format.minExponent]
  omega

theorem shiftToTargetExponent_of_le {mantissa : Nat} {exponent : Int}
    (hbits : 52 ≤ mantissa.log2) (hone : 0 ≤ mantissa.log2 + exponent) :
    ∃ shifted : ExtendedMantissa,
      shiftToTargetExponent Format.binary64 mantissa exponent .exact =
        (shifted, exponent + ((mantissa.log2 - 52 : Nat) : Int)) ∧
      shifted.mantissa = mantissa / 2 ^ (mantissa.log2 - 52) := by
  have hplaces : (exponent + ((mantissa.log2 - 52 : Nat) : Int) - exponent).toNat =
      mantissa.log2 - 52 := by omega
  refine ⟨ExtendedMantissa.ofMantissaAndAccuracy mantissa .exact >>> (mantissa.log2 - 52), ?_, ?_⟩
  · rw [shiftToTargetExponent, targetExponent_of_le hbits hone, shiftToExponent, hplaces]
  · exact mantissa_shiftRight _ _

/-- What is left of the mantissa has 53 bits. -/
theorem shifted_bounds {mantissa : Nat} (hbits : 52 ≤ mantissa.log2) :
    2 ^ 52 ≤ mantissa / 2 ^ (mantissa.log2 - 52) ∧
      mantissa / 2 ^ (mantissa.log2 - 52) < 2 ^ 53 := by
  have hpos : mantissa ≠ 0 := by
    rintro rfl
    simp at hbits
  have hsplit : mantissa.log2 = 52 + (mantissa.log2 - 52) := by omega
  constructor
  · rw [Nat.le_div_iff_mul_le (Nat.two_pow_pos _), ← Nat.pow_add, ← hsplit]
    exact Nat.log2_self_le hpos
  · rw [Nat.div_lt_iff_lt_mul (Nat.two_pow_pos _), ← Nat.pow_add]
    have hlog : 53 + (mantissa.log2 - 52) = mantissa.log2 + 1 := by omega
    rw [hlog]
    exact Nat.lt_log2_self

theorem fromOne_roundWithAccuracy {mantissa : Nat} {exponent : Int}
    (hbits : 52 ≤ mantissa.log2) (hone : 0 ≤ mantissa.log2 + exponent) :
    FromOne (roundWithAccuracy Format.binary64 .positive mantissa exponent .exact) := by
  obtain ⟨hlow, hhigh⟩ := shifted_bounds hbits
  obtain ⟨shifted, hshift, hvalue⟩ := shiftToTargetExponent_of_le hbits hone
  rw [← hvalue] at hlow hhigh
  -- Rounded up the mantissa may reach the power of two.
  have hrounded : 2 ^ 52 ≤ shifted.roundedMantissa ∧ shifted.roundedMantissa ≤ 2 ^ 53 := by
    rcases roundedMantissa_eq_or shifted with h | h <;> omega
  have hlog : 52 ≤ shifted.roundedMantissa.log2 :=
    (Nat.le_log2 (by omega)).mpr hrounded.1
  have hstill : 0 ≤ (shifted.roundedMantissa.log2 : Int) +
      (exponent + ((mantissa.log2 - 52 : Nat) : Int)) := by omega
  obtain ⟨final, hfinal, hmantissa⟩ := shiftToTargetExponent_of_le hlog hstill
  obtain ⟨hleast, hmost⟩ := shifted_bounds hlog
  rw [← hmantissa] at hleast hmost
  have hnonzero : ¬ final.mantissa = 0 := by omega
  simp only [roundWithAccuracy, hshift, hfinal, hnonzero, dite_false]
  exact FromOne.finite hleast hmost (by omega)

/-! ## Writing and reading -/

/-- The highest of 53 bits is not written, and is there again when they are read. -/
theorem toNat_append_ofNat {mantissa : Nat} (hlow : 2 ^ 52 ≤ mantissa)
    (hhigh : mantissa < 2 ^ 53) : (1#1 ++ BitVec.ofNat 52 mantissa).toNat = mantissa := by
  rw [BitVec.toNat_append, ← Nat.shiftLeft_add_eq_or_of_lt (BitVec.isLt _)]
  show 1 <<< 52 + mantissa % 2 ^ 52 = mantissa
  omega

theorem unpack_pack_finite {mantissa : Nat} {exponent : Int} {hpos : 0 < mantissa}
    (hlow : 2 ^ 52 ≤ mantissa) (hhigh : mantissa < 2 ^ 53) (hleast : -52 ≤ exponent)
    (hmost : exponent ≤ 971) :
    unpack Format.binary64 (pack Format.binary64 (.finite .positive mantissa exponent hpos)) =
      .finite .positive mantissa exponent hpos := by
  have hlog : mantissa.log2 = 52 := (Nat.log2_eq_iff (by omega)).mpr ⟨hlow, hhigh⟩
  have hword : (exponent + Format.binary64.exponentBias +
      Format.binary64.mantissaBitsWithoutImplicit).toNat = (exponent + 1075).toNat := by
    show (exponent + 1023 + 52).toNat = _
    omega
  have hbiased : (BitVec.ofNat 11 (exponent + 1075).toNat).toNat = (exponent + 1075).toNat :=
    Nat.mod_eq_of_lt (by omega)
  have hfits : ¬ 2 ^ Format.binary64.exponentBits ≤ (exponent + 1075).toNat + 1 := by
    show ¬ 2 ^ 11 ≤ _
    omega
  have hdiffers (word : BitVec 11) (hne : word.toNat ≠ (exponent + 1075).toNat) :
      BitVec.ofNat 11 (exponent + 1075).toNat ≠ word := by
    rintro rfl
    exact hne hbiased
  have hnotOnes := hdiffers (-1#11) (by
    show 2047 ≠ _
    omega)
  have hnotZero := hdiffers 0#11 (by
    show 0 ≠ _
    omega)
  have hexponent : (((exponent + 1075).toNat : Nat) : Int) -
      (Format.binary64.exponentBias + Format.binary64.mantissaBitsWithoutImplicit) = exponent := by
    show (((exponent + 1075).toNat : Nat) : Int) - (1023 + 52) = exponent
    omega
  simp only [pack, hword, hlog, if_neg hfits]
  rw [if_pos (show 52 + 1 = Format.binary64.mantissaBits from rfl)]
  simp only [unpack, unpackMantissa_packComponents, unpackExponent_packComponents,
    unpackSign_packComponents, hbiased, if_neg hnotOnes, if_neg hnotZero, hexponent,
    toNat_append_ofNat hlow hhigh]
  rfl

theorem FromOne.unpack_pack {value : UnpackedFloat} (h : FromOne value) :
    FromOne (Float.Model.pack value).unpack := by
  show FromOne (unpack Format.binary64 (pack Format.binary64 value))
  cases h with
  | infinity => exact FromOne.infinity
  | @finite mantissa exponent hpos hlow hhigh hexponent =>
      by_cases hmost : exponent ≤ 971
      · rw [unpack_pack_finite hlow hhigh hexponent hmost]
        exact FromOne.finite hlow hhigh hexponent
      · have hover : 2 ^ Format.binary64.exponentBits ≤ (exponent + Format.binary64.exponentBias +
            Format.binary64.mantissaBitsWithoutImplicit).toNat + 1 := by
          show 2 ^ 11 ≤ (exponent + 1023 + 52).toNat + 1
          omega
        rw [pack, if_pos hover]
        exact FromOne.infinity

/-! ## Whole numbers -/

theorem FromOne.mul {a b : UnpackedFloat} (ha : FromOne a) (hb : FromOne b) :
    FromOne (UnpackedFloat.mul Format.binary64 a b) := by
  cases ha with
  | infinity => cases hb <;> exact FromOne.infinity
  | @finite m e _ hlow _ hexponent =>
      cases hb with
      | infinity => exact FromOne.infinity
      | @finite n d _ hlow' _ hexponent' =>
          have hbits : 104 ≤ (m * n).log2 := by
            rw [Nat.le_log2 (Nat.mul_ne_zero (by omega) (by omega))]
            calc 2 ^ 104 = 2 ^ 52 * 2 ^ 52 := rfl
              _ ≤ m * n := Nat.mul_le_mul hlow hlow'
          exact fromOne_roundWithAccuracy (by omega) (by omega)

theorem log2_shiftLeft {n : Nat} (hpos : n ≠ 0) (places : Nat) :
    (n <<< places).log2 = n.log2 + places := by
  have hpow : 0 < 2 ^ places := Nat.two_pow_pos places
  rw [Nat.shiftLeft_eq, Nat.log2_eq_iff (Nat.mul_ne_zero hpos (Nat.ne_of_gt hpow))]
  constructor
  · rw [Nat.pow_add]
    exact Nat.mul_le_mul_right _ (Nat.log2_self_le hpos)
  · rw [Nat.add_right_comm, Nat.pow_add]
    exact Nat.mul_lt_mul_of_pos_right Nat.lt_log2_self hpow

theorem fromOne_toFloat {word : UInt64} (hpos : 0 < word.toNat) :
    FromOne word.toFloat.toModel.unpack := by
  have hcompare : compare (word.toNat : Int) 0 = .gt := Int.compare_eq_gt.mpr (by omega)
  have htarget : Format.binary64.targetExponent (totalExponent word.toNat 0) =
      word.toNat.log2 - 52 := by
    simp only [Format.targetExponent, totalExponent, Format.mantissaBits, Format.minExponent]
    omega
  apply FromOne.unpack_pack
  simp only [ofUInt64, ofNat, ofInt, UnpackedFloat.normalize, hcompare, Int.toNat_natCast,
    UnpackedFloat.round, htarget, decreaseExponent]
  have hlog := log2_shiftLeft (Nat.ne_of_gt hpos) (0 - ((word.toNat.log2 : Int) - 52)).toNat
  exact fromOne_roundWithAccuracy (by omega) (by omega)

/-- A positive whole number is one or more as a double too. -/
theorem fromOne_ofNat {n : Nat} (hpos : 0 < n) : FromOne (Float.ofNat n).toModel.unpack := by
  show FromOne (Float.ofScientific n false 0).toModel.unpack
  rw [Float.ofScientific]
  split
  · next hsmall =>
      have hword : n.toUInt64.toNat = n := UInt64.toNat_ofNat_of_lt (by
        show n < 2 ^ 64
        omega)
      have hone : FromOne (Float.exactlyRepresentablePowersOfTen[0]).toModel.unpack :=
        @FromOne.finite (2 ^ 52) (-52) (by decide) (Nat.le_refl _) (by decide) (Int.le_refl _)
      exact FromOne.unpack_pack (FromOne.mul (fromOne_toFloat (by omega)) hone)
  · next hlarge =>
      have hne : n ≠ 0 := Nat.ne_of_gt hpos
      have hlog : 53 ≤ n.log2 := (Nat.le_log2 hne).mpr (by omega)
      have hshift := log2_shiftLeft hne 53
      apply FromOne.unpack_pack
      show FromOne (ofScientific Format.binary64 n 0)
      rw [ofScientific, dif_neg hne, if_neg (by decide), if_neg (by
        show ¬ (0 : Int) < -(2 ^ 11 + n.log2)
        omega), if_pos (Int.le_refl 0), UnpackedFloat.mul, Int.toNat_zero, Nat.pow_zero,
        Nat.mul_one]
      show FromOne (roundWithAccuracy _ .positive (n <<< 53) (-53 + 0) .exact)
      exact fromOne_roundWithAccuracy (by omega) (by omega)

/-! ## Cutting to whole numbers -/

theorem one_le_roundToInt {mantissa : Nat} {exponent : Int} (hlow : 2 ^ 52 ≤ mantissa)
    (hexponent : -52 ≤ exponent) : 1 ≤ roundToInt .positive mantissa exponent := by
  have hplaces : (0 - (exponent - ((exponent - 0).toNat : Nat))).toNat ≤ 52 := by omega
  show 1 ≤ (((ExtendedMantissa.ofMantissaAndAccuracy (mantissa <<< (exponent - 0).toNat) .exact >>>
    (0 - (exponent - ((exponent - 0).toNat : Nat))).toNat).mantissa : Nat) : Int)
  rw [mantissa_shiftRight]
  have hpow := Nat.pow_le_pow_right Nat.zero_lt_two hplaces
  have hshift : mantissa ≤ mantissa <<< (exponent - 0).toNat := by
    rw [Nat.shiftLeft_eq]
    exact Nat.le_mul_of_pos_right _ (Nat.two_pow_pos _)
  have hquotient := Nat.div_pos (Nat.le_trans hpow (Nat.le_trans hlow hshift)) (Nat.two_pow_pos _)
  exact Int.ofNat_le.mpr hquotient

theorem FromOne.toUInt64_ne_zero {value : UnpackedFloat} (h : FromOne value) :
    value.toUInt64.toNat ≠ 0 := by
  cases h with
  | infinity => decide
  | @finite mantissa exponent hpos hlow hhigh hexponent =>
      have hround := one_le_roundToInt hlow hexponent
      rw [UnpackedFloat.toUInt64, toInt, UInt64.ofNatClamp]
      split
      · rw [UInt64.toNat_ofNatLT]
        omega
      · decide

end StateFlow.Double
