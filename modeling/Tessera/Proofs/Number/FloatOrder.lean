import Mathlib
import Tessera.Number.Binary64

/-!
# The order of quotients

Floating-point numbers that are not negative compare as their encodings do, whether they are zero,
subnormal, normal or infinite. So a quotient can be compared with another one by its encoding.
-/

set_option autoImplicit false

namespace Tessera

namespace Binary64

open Float.Model

theorem infinityBits_eq : infinityBits = 2047 * 2 ^ 52 := by decide

theorem infinityBits_pos : 0 < infinityBits := by decide

/-! ## Fields of an encoding -/

def encoding (bits : Nat) : BitVec Format.binary64.numBits := (UInt64.ofNat bits).toBitVec

variable {bits : Nat}

theorem toNat_encoding (bounded : bits ≤ infinityBits) : (encoding bits).toNat = bits := by
  have small : bits < UInt64.size := by
    rw [infinityBits_eq] at bounded
    unfold UInt64.size
    omega
  exact UInt64.toNat_ofNat_of_lt' small

theorem toNat_unpackExponent (bounded : bits ≤ infinityBits) :
    (UnpackedFloat.unpackExponent (encoding bits)).toNat = bits / 2 ^ 52 := by
  rw [UnpackedFloat.unpackExponent_def, BitVec.extractLsb'_toNat, toNat_encoding bounded,
    Nat.shiftRight_eq_div_pow]
  rw [infinityBits_eq] at bounded
  show bits / 2 ^ 52 % 2 ^ 11 = bits / 2 ^ 52
  omega

theorem toNat_unpackMantissa (bounded : bits ≤ infinityBits) :
    (UnpackedFloat.unpackMantissa (encoding bits)).toNat = bits % 2 ^ 52 := by
  rw [UnpackedFloat.unpackMantissa_def, BitVec.extractLsb'_toNat, toNat_encoding bounded,
    Nat.shiftRight_zero]

theorem sign_positive (bounded : bits ≤ infinityBits) :
    UnpackedFloat.Sign.ofBitVec (UnpackedFloat.unpackSign (encoding bits)) = .positive := by
  have zero : UnpackedFloat.unpackSign (encoding bits) = 0#1 := by
    rw [UnpackedFloat.unpackSign_def, ← BitVec.toNat_inj, BitVec.extractLsb'_toNat,
      toNat_encoding bounded, Nat.shiftRight_eq_div_pow, BitVec.toNat_zero]
    rw [infinityBits_eq] at bounded
    show bits / 2 ^ 63 % 2 ^ 1 = 0
    omega
  rw [zero]
  rfl

theorem exponent_full_iff (bounded : bits ≤ infinityBits) :
    UnpackedFloat.unpackExponent (encoding bits) = -1#11 ↔ bits = infinityBits := by
  rw [← BitVec.toNat_inj, toNat_unpackExponent bounded]
  rw [infinityBits_eq] at bounded ⊢
  show bits / 2 ^ 52 = 2047 ↔ _
  omega

theorem exponent_empty_iff (bounded : bits ≤ infinityBits) :
    UnpackedFloat.unpackExponent (encoding bits) = 0#11 ↔ bits < 2 ^ 52 := by
  rw [← BitVec.toNat_inj, toNat_unpackExponent bounded, BitVec.toNat_zero]
  omega

theorem mantissa_empty_iff (bounded : bits ≤ infinityBits) :
    UnpackedFloat.unpackMantissa (encoding bits) = 0#52 ↔ bits % 2 ^ 52 = 0 := by
  rw [← BitVec.toNat_inj, toNat_unpackMantissa bounded, BitVec.toNat_zero]

/-! ## What an encoding stands for -/

theorem valid_encoding (bounded : bits ≤ infinityBits) :
    Format.binary64.Valid (encoding bits) where
  eq_packedNaN := by
    intro full mantissa
    rw [exponent_full_iff bounded] at full
    rw [ne_eq, ← BitVec.toNat_inj, toNat_unpackMantissa bounded, full] at mantissa
    exact absurd (by decide) mantissa

theorem unpack_signed (bounded : bits ≤ infinityBits) :
    (signed false bits).toModel.unpack = UnpackedFloat.unpack Format.binary64 (encoding bits) := by
  have packed := UnpackedFloat.pack_unpack_of_valid (valid_encoding bounded) (by decide)
  exact congrArg (UnpackedFloat.unpack Format.binary64) packed

theorem unpack_zero : UnpackedFloat.unpack Format.binary64 (encoding 0) = .zero .positive := rfl

theorem unpack_infinity :
    UnpackedFloat.unpack Format.binary64 (encoding infinityBits) = .infinity .positive := rfl

/-- The mantissa of a finite number: a leading one and the mantissa field, unless the exponent field
is empty. -/
def significand (bits : Nat) : Nat := if bits < 2 ^ 52 then bits else 2 ^ 52 + bits % 2 ^ 52

def power (bits : Nat) : Int := max ((bits / 2 ^ 52 : Nat) : Int) 1 - 1075

theorem significand_pos (positive : 0 < bits) : 0 < significand bits := by
  unfold significand
  split <;> omega

theorem toNat_leading_one (mantissa : BitVec 52) :
    (1#1 ++ mantissa).toNat = 2 ^ 52 + mantissa.toNat := by
  rw [BitVec.toNat_append, ← Nat.shiftLeft_add_eq_or_of_lt mantissa.isLt]
  rfl

theorem unpack_finite (positive : 0 < bits) (finite : bits < infinityBits) :
    UnpackedFloat.unpack Format.binary64 (encoding bits) =
      .finite .positive (significand bits) (power bits) (significand_pos positive) := by
  have bounded := finite.le
  have sign := sign_positive bounded
  have bias : Format.binary64.exponentBias = 1023 := rfl
  rw [UnpackedFloat.unpack]
  dsimp only
  rw [if_neg (mt (exponent_full_iff bounded).mp finite.ne)]
  by_cases subnormal : bits < 2 ^ 52
  · have nonzero := mt (mantissa_empty_iff bounded).mp (by omega)
    rw [if_pos ((exponent_empty_iff bounded).mpr subnormal), dif_neg nonzero]
    simp only [sign, UnpackedFloat.finite.injEq, toNat_unpackMantissa bounded,
      toNat_unpackExponent bounded, bias, significand, power, subnormal, ↓reduceIte, true_and]
    omega
  · rw [if_neg (mt (exponent_empty_iff bounded).mp subnormal)]
    simp only [sign, UnpackedFloat.finite.injEq, toNat_leading_one, toNat_unpackMantissa bounded,
      toNat_unpackExponent bounded, bias, significand, power, subnormal, ↓reduceIte, true_and]
    omega

/-! ## Comparison -/

theorem encoding_cases (bounded : bits ≤ infinityBits) :
    bits = 0 ∨ bits = infinityBits ∨ (0 < bits ∧ bits < infinityBits) := by
  omega

theorem compare_power_then_significand (bits other : Nat) :
    (compare (power bits) (power other)).then (compare (significand bits) (significand other)) =
      compare bits other := by
  unfold significand power
  rcases Nat.lt_trichotomy bits other with below | rfl | above
  · rw [compare_lt_iff_lt.mpr below, Ordering.then_eq_lt, compare_lt_iff_lt, compare_lt_iff_lt,
      compare_eq_iff_eq]
    split <;> split <;> omega
  · simp only [compare_eq_iff_eq.mpr, Ordering.then]
  · rw [compare_gt_iff_gt.mpr above, Ordering.then_eq_gt, compare_gt_iff_gt, compare_gt_iff_gt,
      compare_eq_iff_eq]
    split <;> split <;> omega

theorem compare_unpack {bits other : Nat} (bounded : bits ≤ infinityBits)
    (otherBounded : other ≤ infinityBits) :
    (signed false bits).toModel.unpack.compare (signed false other).toModel.unpack =
      some (compare bits other) := by
  rw [unpack_signed bounded, unpack_signed otherBounded]
  rcases encoding_cases bounded with rfl | rfl | ⟨positive, finite⟩ <;>
    rcases encoding_cases otherBounded with rfl | rfl | ⟨otherPositive, otherFinite⟩
  · rfl
  · exact congrArg some (compare_lt_iff_lt.mpr infinityBits_pos).symm
  · rw [unpack_zero, unpack_finite otherPositive otherFinite]
    exact congrArg some (compare_lt_iff_lt.mpr otherPositive).symm
  · exact congrArg some (compare_gt_iff_gt.mpr infinityBits_pos).symm
  · rfl
  · rw [unpack_infinity, unpack_finite otherPositive otherFinite]
    exact congrArg some (compare_gt_iff_gt.mpr otherFinite).symm
  · rw [unpack_zero, unpack_finite positive finite]
    exact congrArg some (compare_gt_iff_gt.mpr positive).symm
  · rw [unpack_infinity, unpack_finite positive finite]
    exact congrArg some (compare_lt_iff_lt.mpr finite).symm
  · rw [unpack_finite positive finite, unpack_finite otherPositive otherFinite]
    exact congrArg some (compare_power_then_significand bits other)

theorem le_iff_unpack_le (x y : Float) :
    x ≤ y ↔ x.toModel.unpack.le y.toModel.unpack = true :=
  decide_eq_true_iff

theorem signed_le_signed_iff {bits other : Nat} (bounded : bits ≤ infinityBits)
    (otherBounded : other ≤ infinityBits) :
    signed false bits ≤ signed false other ↔ bits ≤ other := by
  rw [le_iff_unpack_le, UnpackedFloat.le, compare_unpack bounded otherBounded, Option.any_some,
    Nat.isLE_compare]

theorem lt_iff_unpack_lt (x y : Float) :
    x < y ↔ x.toModel.unpack.lt y.toModel.unpack = true :=
  decide_eq_true_iff

theorem signed_lt_signed_iff {bits other : Nat} (bounded : bits ≤ infinityBits)
    (otherBounded : other ≤ infinityBits) :
    signed false bits < signed false other ↔ bits < other := by
  rw [lt_iff_unpack_lt, UnpackedFloat.lt, compare_unpack bounded otherBounded]
  exact (beq_iff_eq.trans Option.some_inj).trans compare_lt_iff_lt

/-! ## Quotients -/

theorem div_le_roundDiv (numerator denominator : Nat) :
    numerator / denominator ≤ roundDiv numerator denominator := by
  unfold roundDiv
  dsimp only
  split
  · exact le_rfl
  · split <;> omega

theorem nearestBits_le_infinityBits (numerator denominator : Nat) :
    nearestBits numerator denominator ≤ infinityBits := by
  unfold nearestBits
  split
  · exact Nat.zero_le _
  · exact Nat.min_le_right _ _

section

variable {numerator denominator : Nat}

theorem le_scale (notBelow : denominator ≤ numerator) : -52 ≤ scale numerator denominator := by
  have logs : denominator.log2 ≤ numerator.log2 := by
    rw [Nat.log2_eq_log_two, Nat.log2_eq_log_two]
    exact Nat.log_mono_right notBelow
  refine le_max_of_le_left ?_
  rcases eq_or_lt_of_le logs with same | above
  · have guess : (numerator.log2 : Int) - denominator.log2 - 52 = .negSucc 51 := by omega
    have notSmall : ¬ numerator * Nat.pow 2 52 < Nat.pow 2 52 * denominator := by
      rw [Nat.mul_comm]
      exact Nat.not_lt.mpr (Nat.mul_le_mul_left _ notBelow)
    rw [guess]
    simp only [notSmall, decide_false, Bool.false_eq_true, ↓reduceIte]
    decide
  · have either (small : Bool) :
        -52 ≤ if small then (numerator.log2 : Int) - denominator.log2 - 52 - 1
          else (numerator.log2 : Int) - denominator.log2 - 52 := by
      split <;> omega
    exact either _

theorem le_nearestBits (positive : 0 < denominator) (notBelow : denominator ≤ numerator) :
    1023 * 2 ^ 52 ≤ nearestBits numerator denominator := by
  have nonzero : numerator ≠ 0 := by omega
  rw [nearestBits, if_neg nonzero]
  refine le_min ?_ (by decide)
  rw [leastExponent]
  -- At the least scale, the leading one of the mantissa makes up for the exponent.
  rcases eq_or_lt_of_le (le_scale notBelow) with same | above
  · have shifted : scale numerator denominator = .negSucc 51 := same.symm
    have leading : 2 ^ 52 ≤ roundDiv (numerator * Nat.pow 2 52) denominator := by
      refine le_trans ?_ (div_le_roundDiv _ _)
      rw [Nat.le_div_iff_mul_le positive, Nat.mul_comm numerator]
      exact Nat.mul_le_mul_left _ notBelow
    rw [shifted]
    exact Nat.add_le_add_left leading (1022 * 2 ^ 52)
  · have field : 1023 ≤ (scale numerator denominator - -1074).toNat := by omega
    exact le_add_right (Nat.mul_le_mul_right _ field)

theorem roundDiv_le {bound : Nat} (positive : 0 < denominator)
    (notAbove : numerator ≤ bound * denominator) : roundDiv numerator denominator ≤ bound := by
  have quotient : numerator / denominator ≤ bound := Nat.div_le_of_le_mul (by rwa [Nat.mul_comm])
  rcases Nat.lt_or_eq_of_le quotient with below | exactQuotient
  · unfold roundDiv
    dsimp only
    split
    · exact quotient
    · split <;> omega
  · have whole := Nat.div_add_mod numerator denominator
    rw [exactQuotient, Nat.mul_comm] at whole
    unfold roundDiv
    dsimp only
    rw [if_pos (by omega)]
    exact quotient

theorem scale_le (notAbove : numerator ≤ denominator) : scale numerator denominator ≤ -52 := by
  have logs : numerator.log2 ≤ denominator.log2 := by
    rw [Nat.log2_eq_log_two, Nat.log2_eq_log_two]
    exact Nat.log_mono_right notAbove
  have either (small : Bool) :
      (if small then (numerator.log2 : Int) - denominator.log2 - 52 - 1
        else (numerator.log2 : Int) - denominator.log2 - 52) ≤ -52 := by
    split <;> omega
  exact max_le (either _) (by decide)

theorem numerator_mul_lt (positive : 0 < denominator) {shift : Nat}
    (short : numerator.log2 + shift ≤ denominator.log2 + 52) :
    numerator * 2 ^ shift < 2 ^ 53 * denominator :=
  calc numerator * 2 ^ shift
      < 2 ^ (numerator.log2 + 1) * 2 ^ shift :=
        Nat.mul_lt_mul_of_pos_right Nat.lt_log2_self (Nat.two_pow_pos shift)
    _ = 2 ^ (numerator.log2 + 1 + shift) := (Nat.pow_add ..).symm
    _ ≤ 2 ^ (53 + denominator.log2) := Nat.pow_le_pow_right (by decide) (by omega)
    _ = 2 ^ 53 * 2 ^ denominator.log2 := Nat.pow_add ..
    _ ≤ 2 ^ 53 * denominator := Nat.mul_le_mul_left _ (Nat.log2_self_le positive.ne')

/-- The mantissa that belongs to a scale below one has fifty-three bits at most. -/
theorem shifted_lt_of_scale (positive : 0 < denominator) {shift : Nat}
    (scaled : scale numerator denominator = .negSucc shift) :
    numerator * 2 ^ (shift + 1) < 2 ^ 53 * denominator := by
  have guessLe := Int.le_trans (Int.le_max_left _ _) (Int.le_of_eq scaled)
  cases guess : (numerator.log2 : Int) - denominator.log2 - 52 with
  | ofNat up =>
      rw [guess] at guessLe
      by_cases small : numerator < Nat.pow 2 52 * Nat.pow 2 up * denominator
      · have below : Int.ofNat up - 1 ≤ .negSucc shift := by
          simpa only [small, decide_true, if_true] using guessLe
        rw [Int.ofNat_eq_natCast] at below
        obtain ⟨rfl, rfl⟩ : up = 0 ∧ shift = 0 := by omega
        change numerator < 2 ^ 52 * 1 * denominator at small
        omega
      · have below : Int.ofNat up ≤ .negSucc shift := by
          simpa only [small, decide_false, Bool.false_eq_true, if_false] using guessLe
        rw [Int.ofNat_eq_natCast] at below
        omega
  | negSucc down =>
      rw [guess] at guessLe
      by_cases small : numerator * Nat.pow 2 (down + 1) < Nat.pow 2 52 * denominator
      · have below : Int.negSucc down - 1 ≤ .negSucc shift := by
          simpa only [small, decide_true, if_true] using guessLe
        have doubled : numerator * 2 ^ (down + 1 + 1) < 2 ^ 53 * denominator := by
          change numerator * 2 ^ (down + 1) < 2 ^ 52 * denominator at small
          rw [Nat.pow_succ 2 (down + 1), ← Nat.mul_assoc]
          omega
        refine lt_of_le_of_lt (Nat.mul_le_mul_left _ ?_) doubled
        exact Nat.pow_le_pow_right (by decide) (by omega)
      · have below : Int.negSucc down ≤ .negSucc shift := by
          simpa only [small, decide_false, Bool.false_eq_true, if_false] using guessLe
        exact numerator_mul_lt positive (by omega)

theorem nearestBits_le_one (positive : 0 < denominator) (notAbove : numerator ≤ denominator) :
    nearestBits numerator denominator ≤ 1023 * 2 ^ 52 := by
  unfold nearestBits
  split
  · exact Nat.zero_le _
  refine (Nat.min_le_left _ _).trans ?_
  rw [leastExponent]
  -- Either the scale leaves room for a mantissa of fifty-three bits, or it is that of one.
  rcases eq_or_lt_of_le (scale_le notAbove) with same | below
  · have shifted : scale numerator denominator = .negSucc 51 := same
    have mantissa : roundDiv (numerator * Nat.pow 2 52) denominator ≤ 2 ^ 52 := by
      refine roundDiv_le positive ?_
      rw [Nat.mul_comm]
      exact Nat.mul_le_mul_left _ notAbove
    rw [shifted]
    exact Nat.add_le_add_left mantissa (1022 * 2 ^ 52)
  · obtain ⟨shift, shifted⟩ := Int.eq_negSucc_of_lt_zero (show scale numerator denominator < 0 by omega)
    have mantissa : roundDiv (numerator * Nat.pow 2 (shift + 1)) denominator ≤ 2 ^ 53 :=
      roundDiv_le positive (shifted_lt_of_scale positive shifted).le
    rw [shifted] at below ⊢
    dsimp only
    have field : (Int.negSucc shift - -1074).toNat ≤ 1021 := by omega
    refine (Nat.add_le_add (Nat.mul_le_mul_right (Nat.pow 2 52) field) mantissa).trans ?_
    decide

end

end Binary64

theorem one_le_ratio {numerator denominator : Nat} (positive : 0 < denominator)
    (notBelow : denominator ≤ numerator) : 1 ≤ ratio numerator denominator := by
  have one : (1 : Float) = Binary64.signed false (1023 * 2 ^ 52) := rfl
  rw [one]
  exact (Binary64.signed_le_signed_iff (by decide)
    (Binary64.nearestBits_le_infinityBits numerator denominator)).mpr
      (Binary64.le_nearestBits positive notBelow)

end Tessera
