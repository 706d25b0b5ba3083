import Tessera.Proofs.Computation
import Tessera.Proofs.Number.FloatOrder
import Tessera.Report.Basic

/-!
# Reports that do not fail

Reports of what was computed never fail: a product that tells the length of a bar is a small number.
-/

set_option autoImplicit false

/-! ## Rounded products

How large the product of two floating-point numbers can become by rounding. Rounding shifts bits out of
a mantissa and adds at most one to it, which may make one more shift necessary.
-/

namespace Tessera.Binary64

open Float.Model UnpackedFloat

/-! ### Rounding a mantissa -/

theorem mantissa_shiftRight (extended : ExtendedMantissa) (count : Nat) :
    (extended >>> count).mantissa = extended.mantissa / 2 ^ count := by
  induction count with
  | zero => exact (Nat.div_one _).symm
  | succ more ih =>
      change (extended >>> more).mantissa / 2 = _
      rw [ih, Nat.div_div_eq_div_mul, Nat.pow_succ]

theorem roundedMantissa_le (extended : ExtendedMantissa) :
    extended.roundedMantissa ≤ extended.mantissa + 1 := by
  obtain ⟨mantissa, roundBit, stickyBit⟩ := extended
  cases roundBit <;> cases stickyBit <;>
    simp only [ExtendedMantissa.roundedMantissa, ExtendedMantissa.accuracy,
      Accuracy.roundToNearestEven] <;>
    omega

theorem targetExponent_eq (mantissa : Nat) (exponent : Int) :
    Format.binary64.targetExponent (totalExponent mantissa exponent) =
      max (mantissa.log2 + exponent - 52) (-1074) := by
  change max ((mantissa.log2 : Int) + 1 + exponent - 53) (-1074) = _
  congr 1
  omega

/-- The exponent that a mantissa of fifty-three bits has after a shift, unless it was above that before. -/
theorem snd_shiftToTargetExponent (mantissa : Nat) (exponent : Int) :
    (shiftToTargetExponent Format.binary64 mantissa exponent .exact).2 =
      max exponent (max (mantissa.log2 + exponent - 52) (-1074)) := by
  rw [shiftToTargetExponent, shiftToExponent, targetExponent_eq]
  dsimp only
  omega

/-- A mantissa that is shifted to fifty-three bits stays there when it is rounded, up to a carry. -/
theorem roundedMantissa_fst_shiftToTargetExponent_le (mantissa : Nat) (exponent : Int) :
    (shiftToTargetExponent Format.binary64 mantissa exponent .exact).1.roundedMantissa ≤ 2 ^ 53 := by
  refine (roundedMantissa_le _).trans (Nat.succ_le_of_lt ?_)
  rw [shiftToTargetExponent, shiftToExponent, targetExponent_eq, mantissa_shiftRight]
  change mantissa / 2 ^ _ < 2 ^ 53
  rw [Nat.div_lt_iff_lt_mul (Nat.two_pow_pos _), ← Nat.pow_add]
  exact Nat.lt_log2_self.trans_le (Nat.pow_le_pow_right (by decide) (by omega))

theorem log2_le_of_le_two_pow {n power : Nat} (bounded : n ≤ 2 ^ power) : n.log2 ≤ power := by
  rw [Nat.log2_eq_log_two]
  exact (Nat.log_mono_right bounded).trans_eq (Nat.log_pow (by decide) power)

/-- Whether a number is finite and has no exponent above a bound. -/
def ExponentAtMost (bound : Int) : UnpackedFloat → Prop
  | .zero _ => True
  | .finite _ _ exponent _ => exponent ≤ bound
  | _ => False

theorem exponentAtMost_roundWithAccuracy {sign : Sign} {mantissa : Nat} {exponent bound : Int}
    (least : -1074 ≤ bound) (notAbove : exponent ≤ bound)
    (fits : mantissa.log2 + exponent ≤ bound + 52) :
    ExponentAtMost (bound + 1)
      (roundWithAccuracy Format.binary64 sign mantissa exponent .exact) := by
  have shifted := snd_shiftToTargetExponent mantissa exponent
  have rounded := roundedMantissa_fst_shiftToTargetExponent_le mantissa exponent
  rw [roundWithAccuracy]
  cases first : shiftToTargetExponent Format.binary64 mantissa exponent .exact with
  | mk extended between =>
      rw [first] at shifted rounded
      dsimp only at shifted rounded ⊢
      have carried := snd_shiftToTargetExponent extended.roundedMantissa between
      have length := log2_le_of_le_two_pow rounded
      split
      · trivial
      · rw [ExponentAtMost, carried]
        omega

/-! ### Products -/

theorem significand_lt (bits : Nat) : significand bits < 2 ^ 53 := by
  unfold significand
  split <;> omega

theorem log2_significand_mul_le (bits other : Nat) :
    (significand bits * significand other).log2 ≤ 105 := by
  have product : significand bits * significand other < 2 ^ 53 * 2 ^ 53 :=
    Nat.mul_lt_mul'' (significand_lt bits) (significand_lt other)
  by_cases zero : significand bits * significand other = 0
  · rw [zero]
    decide
  · exact Nat.le_of_lt_succ ((Nat.log2_lt zero).mpr product)

/-- The product of two numbers that are not negative is as large as their powers of two tell. -/
theorem exponentAtMost_mul {bits other : Nat} {bound : Int} (finite : bits < infinityBits)
    (otherFinite : other < infinityBits) (least : -1074 ≤ bound)
    (powers : power bits + power other ≤ bound - 53) :
    ExponentAtMost (bound + 1) ((signed false bits).toModel.unpack.mul Format.binary64
      (signed false other).toModel.unpack) := by
  rw [unpack_signed finite.le, unpack_signed otherFinite.le]
  rcases Nat.eq_zero_or_pos bits with rfl | positive <;>
    rcases Nat.eq_zero_or_pos other with rfl | otherPositive
  · trivial
  · rw [unpack_finite otherPositive otherFinite]
    trivial
  · rw [unpack_finite positive finite]
    trivial
  · have length := log2_significand_mul_le bits other
    rw [unpack_finite positive finite, unpack_finite otherPositive otherFinite]
    exact exponentAtMost_roundWithAccuracy least (by omega) (by omega)

/-! ### Fields of encodings -/

theorem toNat_unpackExponent_eq (encoding : BitVec Format.binary64.numBits) :
    (unpackExponent encoding).toNat = encoding.toNat / 2 ^ 52 % 2 ^ 11 := by
  rw [unpackExponent_def, BitVec.extractLsb'_toNat, Nat.shiftRight_eq_div_pow]

theorem exponentField_pack_le {number : UnpackedFloat} {bound : Int}
    (small : ExponentAtMost bound number) (least : -1075 ≤ bound) (finite : bound < 971) :
    ((pack Format.binary64 number).toNat / 2 ^ 52 % 2 ^ 11 : Nat) ≤ bound + 1075 := by
  rw [← toNat_unpackExponent_eq]
  cases number with
  | infinity => exact small.elim
  | notANumber => exact small.elim
  | zero sign =>
      rw [UnpackedFloat.pack, packedZero, unpackExponent_packComponents]
      change ((0 : Nat) : Int) ≤ _
      omega
  | finite sign mantissa exponent positive =>
      have bias : (Format.binary64.exponentBias : Int) = 1023 := rfl
      change exponent ≤ bound at small
      rw [UnpackedFloat.pack]
      dsimp only
      rw [if_neg (by rw [bias]; omega)]
      split
      · rw [unpackExponent_packComponents, BitVec.toNat_ofNat, bias, Nat.mod_eq_of_lt (by omega)]
        omega
      · rw [unpackExponent_packComponents]
        change ((0 : Nat) : Int) ≤ _
        omega

/-- The exponent field of the product of two numbers that are not negative. -/
theorem exponentField_mul_le {bits other : Nat} {bound : Int} (finite : bits < infinityBits)
    (otherFinite : other < infinityBits) (least : -1074 ≤ bound) (productFinite : bound < 970)
    (powers : power bits + power other ≤ bound - 53) :
    ((signed false bits * signed false other).toBits.toNat / 2 ^ 52 % 2 ^ 11 : Nat) ≤
      bound + 1076 := by
  have small := exponentAtMost_mul finite otherFinite least powers
  have field := exponentField_pack_le small (by omega) (by omega)
  change ((_ : Nat) : Int) ≤ _ at field ⊢
  refine field.trans ?_
  omega

/-- A number with a small exponent field is finite, and its power of two is what the field tells. -/
theorem exists_ofBits_of_exponentField {bits bound : Nat} (finite : bound < 2047)
    (small : bits / Nat.pow 2 52 % Nat.pow 2 11 ≤ bound) :
    ∃ negative mantissa exponent, ofBits bits = .finite negative mantissa exponent ∧
      mantissa < 2 ^ 53 ∧ exponent ≤ max (bound - 1075 : Int) (-1074) := by
  have belowOne : bits % Nat.pow 2 52 < 2 ^ 52 := Nat.mod_lt _ (by decide)
  have leadingOne : Nat.pow 2 52 + bits % Nat.pow 2 52 < 2 ^ 53 :=
    Nat.add_lt_add_left belowOne (2 ^ 52)
  have full : Nat.pow 2 11 - 1 = 2047 := by decide
  rw [ofBits, full]
  generalize bits / Nat.pow 2 52 % Nat.pow 2 11 = field at small ⊢
  rw [if_neg (by omega)]
  split
  · exact ⟨_, _, _, rfl, belowOne.trans (by decide), le_max_right _ _⟩
  · refine ⟨_, _, _, rfl, leadingOne, le_max_of_le_left ?_⟩
    rw [leastExponent]
    omega

end Tessera.Binary64

/-! ## Bars that are drawn

Reports of what was computed never fail. A share that is a quotient is a number, it is taken for one if it
is above one, and its product with the width of a bar is a small number.
-/

namespace Tessera.Report

open Tessera.Computation Binary64

/-! ### Shares -/

theorem unitShare_signed {bits : Nat} (bounded : bits ≤ infinityBits) :
    unitShare (signed false bits) = signed false (min bits (1023 * 2 ^ 52)) := by
  have notNegative : ¬ 0 > signed false bits :=
    mt (signed_lt_signed_iff bounded (Nat.zero_le _)).mp (Nat.not_lt_zero bits)
  have one : (1 : Float) = signed false (1023 * 2 ^ 52) := rfl
  have aboveOne : 1 < signed false bits ↔ 1023 * 2 ^ 52 < bits := by
    rw [one]
    exact signed_lt_signed_iff (by decide) bounded
  rw [unitShare, if_neg notNegative]
  rcases Nat.lt_or_ge (1023 * 2 ^ 52) bits with above | notAbove
  · rw [if_pos (aboveOne.mpr above), Nat.min_eq_right above.le, one]
  · rw [if_neg (mt aboveOne.mp (Nat.not_lt.mpr notAbove)), Nat.min_eq_left notAbove]

/-- A number below sixty-four has a whole part, which is small. -/
theorem exists_wholePart? {x : Float} (small : x.toBits.toNat / 2 ^ 52 % 2 ^ 11 ≤ 1029) :
    ∃ whole, wholePart? x = some whole ∧ whole.natAbs ≤ 128 := by
  obtain ⟨negative, mantissa, exponent, standsFor, short, low⟩ :=
    exists_ofBits_of_exponentField (by decide) small
  obtain ⟨power, rfl⟩ := Int.eq_negSucc_of_lt_zero (show exponent < 0 by omega)
  refine ⟨wholePart?.signed negative (mantissa / Nat.pow 2 (power + 1)), ?_, ?_⟩
  · rw [wholePart?, ofFloat, standsFor]
  · have magnitude : mantissa / 2 ^ (power + 1) ≤ 128 := by
      have enough : 2 ^ 46 ≤ 2 ^ (power + 1) := Nat.pow_le_pow_right (by decide) (by omega)
      calc mantissa / 2 ^ (power + 1)
          ≤ mantissa / 2 ^ 46 := Nat.div_le_div_left enough (by decide)
        _ ≤ 128 := by omega
    cases negative with
    | false => exact magnitude
    | true =>
        change (-((mantissa / 2 ^ (power + 1) : Nat) : Int)).natAbs ≤ 128
        rwa [Int.natAbs_neg, Int.natAbs_natCast]

/-! ### Bars -/

theorem nearestBits_of_narrow : ∀ width < 32, nearestBits width 1 < 1028 * 2 ^ 52 := by
  decide

theorem power_le_of_lt {bits : Nat} (field : Nat) (positive : 1 ≤ field)
    (below : bits < (field + 1) * 2 ^ 52) : power bits ≤ field - 1075 := by
  unfold power
  omega

/-- A share of a narrow width, which is a quotient, is a small number. -/
theorem exists_portion {bits width : Nat} (bounded : bits ≤ infinityBits) (narrow : width < 32) :
    ∃ filled, portion (.real (signed false bits)) width = .ok filled ∧ filled.natAbs ≤ 128 := by
  have widthBits := nearestBits_of_narrow width narrow
  have widthFinite : nearestBits width 1 < infinityBits := widthBits.trans (by decide)
  have inRange : (Number.integer width).inRange = true := decide_eq_true widthFinite
  have wholeWidth : (Number.integer width).toFloat = signed false (nearestBits width 1) := by
    change signed (decide ((width : Int) < 0)) _ = _
    rw [decide_eq_false (by omega)]
    rfl
  have shareBits : min bits (1023 * 2 ^ 52) ≤ 1023 * 2 ^ 52 := Nat.min_le_right _ _
  have shareFinite : min bits (1023 * 2 ^ 52) < infinityBits :=
    lt_of_le_of_lt shareBits (by decide)
  have powers : power (min bits (1023 * 2 ^ 52)) + power (nearestBits width 1) ≤ -47 - 53 := by
    have sharePower := power_le_of_lt 1023 (by decide) (lt_of_le_of_lt shareBits (by decide))
    have widthPower := power_le_of_lt 1027 (by decide) widthBits
    omega
  have field := exponentField_mul_le shareFinite widthFinite (by decide) (by decide) powers
  obtain ⟨whole, found, small⟩ := exists_wholePart? (Int.ofNat_le.mp field)
  have product : wholePart? (unitShare (Number.real (signed false bits)).toFloat *
      (Number.integer width).toFloat) = some whole := by
    rw [wholeWidth, Number.toFloat, unitShare_signed bounded, found]
  refine ⟨whole, ?_, small⟩
  simp only [portion, inRange, product, Bool.not_true, Bool.false_eq_true, if_false]

theorem exists_repeated (c : Char) {count : Int} (small : count.natAbs ≤ 160) :
    ∃ text, repeated c count = .ok text := by
  have bound : Document.wordBound = 9223372036854775808 := rfl
  have limit : roomLimit = 10000000000 := rfl
  rw [repeated, if_neg (by omega), if_neg (by omega)]
  exact ⟨_, rfl⟩

theorem exists_bar {bits width : Nat} (bounded : bits ≤ infinityBits) (narrow : width < 32) :
    ∃ text, bar (.real (signed false bits)) width = .ok text := by
  obtain ⟨filled, filledMade, small⟩ := exists_portion bounded narrow
  obtain ⟨full, fullMade⟩ := exists_repeated '#' (show filled.natAbs ≤ 160 by omega)
  obtain ⟨blank, blankMade⟩ := exists_repeated '-' (show (width - filled).natAbs ≤ 160 by omega)
  exact ⟨_, bind_eq_ok_iff.mpr ⟨filled, filledMade, bind_eq_ok_iff.mpr ⟨full, fullMade,
    bind_eq_ok_iff.mpr ⟨blank, blankMade, rfl⟩⟩⟩⟩

/-! ### Comparisons -/

theorem exists_side (title : String) (result : Compressed) (worst : Nat) :
    ∃ text, side title result worst = .ok text := by
  obtain ⟨drawn, made⟩ := exists_bar (nearestBits_le_infinityBits result.count worst)
    (show 20 < 32 by decide)
  exact ⟨_, map_eq_ok_iff.mpr ⟨drawn, made, rfl⟩⟩

/-- A comparison is always drawn. -/
theorem exists_comparison (compared : Comparison) : ∃ text, comparison compared = .ok text := by
  obtain ⟨most, mostMade⟩ :=
    exists_side "Most compressed:  " compared.most (max compared.least.count 1)
  obtain ⟨least, leastMade⟩ :=
    exists_side "Least compressed: " compared.least (max compared.least.count 1)
  exact ⟨_, bind_eq_ok_iff.mpr ⟨most, mostMade, bind_eq_ok_iff.mpr ⟨least, leastMade, rfl⟩⟩⟩

/-! ### Histograms -/

theorem quotient_of_le {numerator denominator : Int} (positive : 0 < numerator)
    (notAbove : numerator ≤ denominator) :
    quotient numerator denominator =
      .ok (signed false (nearestBits numerator.natAbs denominator.natAbs)) := by
  have atMostOne := nearestBits_le_one (show 0 < denominator.natAbs by omega)
    (show numerator.natAbs ≤ denominator.natAbs by omega)
  have finite : nearestBits numerator.natAbs denominator.natAbs < infinityBits :=
    lt_of_le_of_lt atMostOne (by decide)
  rw [quotient, if_neg (by omega), if_neg (Nat.not_le.mpr finite),
    decide_eq_false (by omega), decide_eq_false (by omega)]
  rfl

theorem exists_histogramLine {peak : Int} {entry : Int × Int} (positive : 0 < entry.2)
    (notAbove : entry.2 ≤ peak) : ∃ text, histogramLine peak entry = .ok text := by
  obtain ⟨drawn, made⟩ := exists_bar
    (nearestBits_le_infinityBits entry.2.natAbs peak.natAbs) (show 30 < 32 by decide)
  exact ⟨_, bind_eq_ok_iff.mpr ⟨_, quotient_of_le positive notAbove,
    bind_eq_ok_iff.mpr ⟨drawn, made, rfl⟩⟩⟩

theorem exists_mapM {ε α β : Type} {f : α → Except ε β} {values : List α}
    (each : ∀ value ∈ values, ∃ made, f value = .ok made) :
    ∃ made, values.mapM f = .ok made := by
  induction values with
  | nil => exact ⟨[], rfl⟩
  | cons value rest ih =>
      obtain ⟨⟨first, firstMade⟩, restEach⟩ := List.forall_mem_cons.mp each
      obtain ⟨others, othersMade⟩ := ih restEach
      rw [List.mapM_cons]
      exact ⟨_, bind_eq_ok_iff.mpr ⟨first, firstMade,
        bind_eq_ok_iff.mpr ⟨others, othersMade, rfl⟩⟩⟩

theorem le_peak (start : Int) (entries : Distribution) :
    start ≤ entries.foldl (fun peak entry => max peak entry.2) start ∧
      ∀ entry ∈ entries, entry.2 ≤ entries.foldl (fun peak entry => max peak entry.2) start := by
  induction entries generalizing start with
  | nil => exact ⟨le_rfl, nofun⟩
  | cons first rest ih =>
      obtain ⟨startLe, restLe⟩ := ih (max start first.2)
      rw [List.foldl_cons]
      exact ⟨(le_max_left _ _).trans startLe,
        List.forall_mem_cons.mpr ⟨(le_max_right _ _).trans startLe, restLe⟩⟩

/-- A histogram of positive counts is always drawn. -/
theorem exists_histogram {distribution : Distribution}
    (positive : ∀ entry ∈ distribution, 0 < entry.2) :
    ∃ texts, histogram distribution = .ok texts := by
  cases distribution with
  | nil => exact ⟨[], rfl⟩
  | cons first rest =>
      obtain ⟨firstLe, restLe⟩ := le_peak first.2 rest
      have notAbove : ∀ entry ∈ first :: rest,
          entry.2 ≤ rest.foldl (fun peak entry => max peak entry.2) first.2 :=
        List.forall_mem_cons.mpr ⟨firstLe, restLe⟩
      refine exists_mapM fun entry listed => ?_
      have given := List.mem_mergeSort.mp listed
      exact exists_histogramLine (positive entry given) (notAbove entry given)

/-! ### Statistics -/

theorem positive_of_add {key : Int} {distribution : Distribution}
    (positive : ∀ entry ∈ distribution, 0 < entry.2) :
    ∀ entry ∈ distribution.add key, 0 < entry.2 := by
  induction distribution with
  | nil => exact List.forall_mem_singleton.mpr Int.one_pos
  | cons first rest ih =>
      obtain ⟨other, count⟩ := first
      obtain ⟨countPos, restPos⟩ := List.forall_mem_cons.mp positive
      unfold Distribution.add
      split
      · exact List.forall_mem_cons.mpr ⟨Int.lt_add_one_of_le countPos.le, restPos⟩
      · exact List.forall_mem_cons.mpr ⟨countPos, ih restPos⟩

/-- Whatever is counted, it is counted at least once. -/
theorem positive_of_ofList (numbers : List Nat) :
    ∀ entry ∈ Distribution.ofList numbers, 0 < entry.2 := by
  have counted (distribution : Distribution) (positive : ∀ entry ∈ distribution, 0 < entry.2) :
      ∀ entry ∈ numbers.foldl (fun (known : Distribution) (number : Nat) => known.add number)
        distribution, 0 < entry.2 := by
    induction numbers generalizing distribution with
    | nil => exact positive
    | cons number rest ih => exact ih _ (positive_of_add positive)
  intro entry member
  exact counted [] nofun entry (List.mem_mergeSort.mp member)

/-- The statistics of a text are always drawn. -/
theorem exists_statistics (tokenizer : Tokenizer) (text : Text) (longest shortest : List Nat) :
    ∃ drawn, statistics (tokenizer.statisticsOf text longest shortest) = .ok drawn := by
  obtain ⟨texts, made⟩ := exists_histogram (positive_of_ofList
    (((longest.map tokenizer.piece).filter fun piece => !piece.isEmpty).map List.length))
  exact ⟨_, bind_eq_ok_iff.mpr ⟨texts, made, rfl⟩⟩

end Tessera.Report
