import Mathlib
import Tessera.Random.Source

/-!
# Choice in proportion to weights

Over exact numbers the total of some weights is their sum, whatever the order in which they are added
up. A draw between zero and one falls on the index at which the sum of the weights first exceeds that
part of the total, so the draws that fall on an index are an interval as long as the index's share.
-/

set_option autoImplicit false

namespace Tessera.Weighted

/-! ## Totals of exact weights -/

theorem sumFrom_eq (start : Rat) (weights : List Rat) :
    sumFrom start weights = start + weights.sum := by
  induction weights generalizing start with
  | nil => simp [sumFrom]
  | cons weight rest ih =>
      rw [sumFrom, List.foldl_cons]
      change sumFrom (start + weight) rest = _
      rw [ih, List.sum_cons, add_assoc]

theorem sum_zipWith_add (sums weights : List Rat) (enough : sums.length ≤ weights.length) :
    (List.zipWith (· + ·) sums weights).sum = sums.sum + (weights.take sums.length).sum := by
  induction sums generalizing weights with
  | nil => simp
  | cons first rest ih =>
      cases weights with
      | nil => simp at enough
      | cons weight others =>
          have bounded : rest.length ≤ others.length := by simpa using enough
          simp only [List.zipWith_cons_cons, List.sum_cons, List.length_cons, List.take_succ_cons,
            ih others bounded]
          exact add_add_add_comm _ _ _ _

/-- Adding blocks of eight weights to eight sums keeps the sum of all. -/
theorem sum_addBlocks (blocks : Nat) (sums weights : List Rat) (eight : sums.length = 8)
    (enough : 8 * blocks ≤ weights.length) :
    (addBlocks blocks sums weights).1.length = 8 ∧
      (addBlocks blocks sums weights).1.sum + (addBlocks blocks sums weights).2.sum =
        sums.sum + weights.sum := by
  induction blocks generalizing sums weights with
  | zero => exact ⟨eight, rfl⟩
  | succ more ih =>
      have stillEight : (List.zipWith (· + ·) sums weights).length = 8 := by
        rw [List.length_zipWith]
        omega
      have stillEnough : 8 * more ≤ (weights.drop 8).length := by
        rw [List.length_drop]
        omega
      obtain ⟨kept, sumEq⟩ := ih _ _ stillEight stillEnough
      refine ⟨kept, ?_⟩
      calc
        _ = (List.zipWith (· + ·) sums weights).sum + (weights.drop 8).sum := sumEq
        _ = sums.sum + (weights.take 8).sum + (weights.drop 8).sum := by
          rw [sum_zipWith_add sums weights (by omega), eight]
        _ = sums.sum + weights.sum := by
          rw [add_assoc, ← List.sum_append, List.take_append_drop]

theorem sumByEight_eq_sum (weights : List Rat) (enough : 8 ≤ weights.length) :
    sumByEight weights = weights.sum := by
  have eight : (weights.take 8).length = 8 := by
    rw [List.length_take]
    omega
  have blocks : 8 * (weights.length / 8 - 1) ≤ (weights.drop 8).length := by
    rw [List.length_drop]
    omega
  have parted : (weights.take 8).sum + (weights.drop 8).sum = weights.sum := by
    rw [← List.sum_append, List.take_append_drop]
  obtain ⟨kept, sumEq⟩ := sum_addBlocks _ _ _ eight blocks
  rw [parted] at sumEq
  unfold sumByEight
  generalize addBlocks (weights.length / 8 - 1) (weights.take 8) (weights.drop 8) = parts at kept sumEq
  obtain ⟨sums, rest⟩ := parts
  match sums, kept with
  | [a, b, c, d, e, f, g, h], _ =>
    simp only [List.sum_cons, List.sum_nil] at sumEq
    simp only [sumFrom_eq]
    linarith

theorem total_eq_sum (weights : List Rat) : total weights = weights.sum := by
  fun_induction total weights with
  | case1 weights few => rw [sumFrom_eq]; exact zero_add _
  | case2 weights someMore few => exact sumByEight_eq_sum weights (by omega)
  | case3 weights someMore many half first second =>
      rw [first, second, ← List.sum_append, List.take_append_drop]

/-! ## Running sums -/

/-- The sum of the weights before an index. -/
def sumBefore (weights : List Rat) (i : Nat) : Rat := (weights.take i).sum

@[simp] theorem sumBefore_zero (weights : List Rat) : sumBefore weights 0 = 0 := rfl

theorem sumBefore_succ {weights : List Rat} {i : Nat} {weight : Rat}
    (placed : weights[i]? = some weight) :
    sumBefore weights (i + 1) = sumBefore weights i + weight := by
  rw [sumBefore, List.take_add_one, placed, List.sum_append]
  simp [sumBefore]

theorem sumBefore_of_length_le {weights : List Rat} {i : Nat} (beyond : weights.length ≤ i) :
    sumBefore weights i = weights.sum := by
  rw [sumBefore, List.take_of_length_le beyond]

theorem getElem?_runningFrom (before : Rat) (weights : List Rat) (i : Nat) :
    (runningFrom before weights)[i]? =
      weights[i]?.map fun _ => before + sumBefore weights (i + 1) := by
  induction weights generalizing before i with
  | nil => rfl
  | cons weight rest ih =>
      cases i with
      | zero => simp [runningFrom, sumBefore]
      | succ further =>
          simp only [runningFrom, List.getElem?_cons_succ, ih, sumBefore, List.take_succ_cons,
            List.sum_cons]
          simp only [← add_assoc]

theorem getElem?_running (weights : List Rat) (i : Nat) :
    (running weights)[i]? = weights[i]?.map fun _ => sumBefore weights (i + 1) := by
  cases weights with
  | nil => rfl
  | cons weight rest =>
      cases i with
      | zero => simp [running, sumBefore]
      | succ further => simp [running, getElem?_runningFrom, sumBefore]

theorem sumBefore_map_div (weights : List Rat) (whole : Rat) (i : Nat) :
    sumBefore (weights.map (· / whole)) i = sumBefore weights i / whole := by
  have sumMapDiv (parts : List Rat) : (parts.map (· / whole)).sum = parts.sum / whole := by
    induction parts with
    | nil => simp
    | cons part rest ih => rw [List.map_cons, List.sum_cons, List.sum_cons, ih, add_div]
  rw [sumBefore, ← List.map_take, sumMapDiv, sumBefore]

section

variable {weights : List Rat} (positive : ∀ weight ∈ weights, 0 < weight)

include positive

theorem sumBefore_le_succ (i : Nat) : sumBefore weights i ≤ sumBefore weights (i + 1) := by
  cases placed : weights[i]? with
  | none =>
      have beyond : weights.length ≤ i := List.getElem?_eq_none_iff.mp placed
      rw [sumBefore_of_length_le beyond, sumBefore_of_length_le (Nat.le_succ_of_le beyond)]
  | some weight =>
      have here := positive weight (List.mem_of_getElem? placed)
      rw [sumBefore_succ placed]
      exact le_add_of_nonneg_right here.le

theorem monotone_sumBefore : Monotone (sumBefore weights) :=
  monotone_nat_of_le_succ (sumBefore_le_succ positive)

theorem sumBefore_nonneg (i : Nat) : 0 ≤ sumBefore weights i :=
  monotone_sumBefore positive (Nat.zero_le i)

theorem sumBefore_le_sum (i : Nat) : sumBefore weights i ≤ weights.sum := by
  calc
    _ ≤ sumBefore weights (max i weights.length) := monotone_sumBefore positive (Nat.le_max_left _ _)
    _ = weights.sum := sumBefore_of_length_le (Nat.le_max_right _ _)

end

/-! ## The index that a draw falls on -/

section

variable {α : Type} [Weight α] {weights : List α}

theorem length_runningFrom (before : α) (weights : List α) :
    (runningFrom before weights).length = weights.length := by
  induction weights generalizing before with
  | nil => rfl
  | cons weight rest ih => rw [runningFrom, List.length_cons, ih, List.length_cons]

theorem length_running (weights : List α) : (running weights).length = weights.length := by
  cases weights with
  | nil => rfl
  | cons weight rest => rw [running, List.length_cons, length_runningFrom, List.length_cons]

/-- Whether the running sum at an index, as a part of the total, is at most a draw. -/
def isPassed (weights : List α) (draw : α) (i : Nat) : Bool :=
  ((running (weights.map (· / total weights))).toArray[i]?.map (Weight.atMost · draw)).getD false

theorem index?_eq_partitionPoint (nonempty : weights ≠ []) (draw : α) :
    index? weights draw =
      some (min (partitionPoint (isPassed weights draw) weights.length) (weights.length - 1)) := by
  have asMany : (running (weights.map (· / total weights))).toArray.size = weights.length := by
    rw [List.size_toArray, length_running, List.length_map]
  simp only [index?, asMany]
  cases size : weights.length with
  | zero => exact absurd (List.length_eq_zero_iff.mp size) nonempty
  | succ last => rfl

/-- A draw of any kind falls on an index of the weights, if there are weights at all. -/
theorem exists_index (nonempty : weights ≠ []) (draw : α) :
    ∃ i < weights.length, index? weights draw = some i := by
  have someWeights : 0 < weights.length := List.length_pos_iff.mpr nonempty
  have bounded := Nat.min_le_right (partitionPoint (isPassed weights draw) weights.length)
    (weights.length - 1)
  exact ⟨_, by omega, index?_eq_partitionPoint nonempty draw⟩

end

/-- Whether a part of the total lies in the share of an index: behind the weights before it, and not
behind its own. -/
def IsInShare (weights : List Rat) (part : Rat) (i : Nat) : Prop :=
  sumBefore weights i ≤ part ∧ part < sumBefore weights (i + 1)

/-- The share of an index in the draws: from the part of the total that the weights before it make up
to the part that they make up with its own. -/
def share (weights : List Rat) (i : Nat) : Set Rat :=
  Set.Ico (sumBefore weights i / weights.sum) (sumBefore weights (i + 1) / weights.sum)

/-- The draws between zero and one that fall on an index. -/
def drawsOf (weights : List Rat) (i : Nat) : Set Rat :=
  {draw | 0 ≤ draw ∧ draw < 1 ∧ index? weights draw = some i}

theorem IsInShare.unique {weights : List Rat} (positive : ∀ weight ∈ weights, 0 < weight)
    {part : Rat} {i j : Nat} (share : IsInShare weights part i) (other : IsInShare weights part j) :
    i = j := by
  have notBefore {a b : Nat} (first : IsInShare weights part a) (second : IsInShare weights part b) :
      ¬ a < b := by
    intro before
    have ordered : sumBefore weights (a + 1) ≤ sumBefore weights b :=
      monotone_sumBefore positive before
    exact absurd (first.2.trans_le (ordered.trans second.1)) (lt_irrefl _)
  exact Nat.le_antisymm (Nat.not_lt.mp (notBefore other share)) (Nat.not_lt.mp (notBefore share other))

section

variable {weights : List Rat}

theorem isPassed_iff (wholePos : 0 < weights.sum) (draw : Rat) {i : Nat}
    (inside : i < weights.length) :
    isPassed weights draw i = true ↔ sumBefore weights (i + 1) ≤ draw * weights.sum := by
  have atIndex : (running (weights.map (· / total weights))).toArray[i]? =
      some (sumBefore weights (i + 1) / weights.sum) := by
    rw [List.getElem?_toArray, getElem?_running, List.getElem?_map, List.getElem?_eq_getElem inside,
      sumBefore_map_div, total_eq_sum]
    rfl
  have atMost : isPassed weights draw i = decide (sumBefore weights (i + 1) / weights.sum ≤ draw) := by
    rw [isPassed, atIndex]
    rfl
  rw [atMost, decide_eq_true_iff]
  exact div_le_iff₀ wholePos

variable (nonempty : weights ≠ []) (positive : ∀ weight ∈ weights, 0 < weight)

include nonempty positive

theorem isInShare_of_index? {draw : Rat} (nonneg : 0 ≤ draw) (belowOne : draw < 1) :
    ∃ i, index? weights draw = some i ∧ IsInShare weights (draw * weights.sum) i := by
  have wholePos := List.sum_pos weights positive nonempty
  have partLt : draw * weights.sum < weights.sum := mul_lt_of_lt_one_left wholePos belowOne
  have bounded := partitionPoint_le (isPassed weights draw) weights.length
  have chosen := index?_eq_partitionPoint nonempty draw
  generalize place : partitionPoint (isPassed weights draw) weights.length = i at bounded chosen
  have behind : sumBefore weights i ≤ draw * weights.sum := by
    cases i with
    | zero => exact mul_nonneg nonneg wholePos.le
    | succ before => exact (isPassed_iff wholePos draw bounded).mp (below_of_partitionPoint place)
  -- All weights together are more than the part, so the boundary is in front of the end.
  have inside : i < weights.length := by
    refine Nat.lt_of_le_of_ne bounded fun atEnd => ?_
    rw [sumBefore_of_length_le atEnd.ge] at behind
    exact absurd partLt behind.not_gt
  have notPassed : isPassed weights draw i = false :=
    place ▸ not_below_partitionPoint (place ▸ inside)
  refine ⟨i, ?_, behind, ?_⟩
  · rw [chosen, Nat.min_eq_left (Nat.le_sub_one_of_lt inside)]
  · refine lt_of_not_ge fun passed => ?_
    rw [(isPassed_iff wholePos draw inside).mpr passed] at notPassed
    cases notPassed

/-! ## Shares of the draws -/

omit positive nonempty in
theorem mem_share_iff (wholePos : 0 < weights.sum) {draw : Rat} {i : Nat} :
    draw ∈ share weights i ↔ IsInShare weights (draw * weights.sum) i := by
  rw [share, Set.mem_Ico, IsInShare, div_le_iff₀ wholePos, lt_div_iff₀ wholePos]

theorem drawsOf_eq_share (i : Nat) : drawsOf weights i = share weights i := by
  have wholePos := List.sum_pos weights positive nonempty
  apply Set.ext
  intro draw
  rw [mem_share_iff wholePos]
  constructor
  · intro ⟨nonneg, belowOne, falls⟩
    obtain ⟨j, chosen, inShare⟩ := isInShare_of_index? nonempty positive nonneg belowOne
    cases falls.symm.trans chosen
    exact inShare
  · intro inShare
    have nonneg : 0 ≤ draw :=
      nonneg_of_mul_nonneg_left ((sumBefore_nonneg positive i).trans inShare.1) wholePos
    have belowOne : draw < 1 := by
      have partLt : draw * weights.sum < weights.sum :=
        inShare.2.trans_le (sumBefore_le_sum positive (i + 1))
      exact (mul_lt_iff_lt_one_left wholePos).mp partLt
    obtain ⟨j, chosen, other⟩ := isInShare_of_index? nonempty positive nonneg belowOne
    cases inShare.unique positive other
    exact ⟨nonneg, belowOne, chosen⟩

theorem iUnion_share : (⋃ i < weights.length, share weights i) = Set.Ico 0 1 := by
  apply Set.ext
  intro draw
  simp only [Set.mem_iUnion, Set.mem_Ico, ← drawsOf_eq_share nonempty positive, exists_prop]
  constructor
  · intro ⟨_, _, nonneg, belowOne, _⟩
    exact ⟨nonneg, belowOne⟩
  · intro ⟨nonneg, belowOne⟩
    obtain ⟨i, inside, chosen⟩ := exists_index nonempty draw
    exact ⟨i, inside, nonneg, belowOne, chosen⟩

theorem pairwise_disjoint_share :
    Pairwise fun i j => Disjoint (share weights i) (share weights j) := by
  intro i j different
  apply Set.disjoint_left.mpr
  intro draw here there
  rw [mem_share_iff (List.sum_pos weights positive nonempty)] at here there
  exact different (here.unique positive there)

end

/-- A draw falls on the one index at which the sum of the weights first exceeds that part of the total.
So the draws that fall on an index are an interval as long as its share of the total, and these
intervals divide all draws among them. With weights and draws of any other kind, too, the index is one
of the list. -/
theorem index?_proportional {weights : List Rat} (nonempty : weights ≠ [])
    (positive : ∀ weight ∈ weights, 0 < weight) :
    (∀ draw, 0 ≤ draw → draw < 1 → ∃ i, index? weights draw = some i ∧
      ∀ j, sumBefore weights j ≤ draw * weights.sum ∧
        draw * weights.sum < sumBefore weights (j + 1) ↔ j = i) ∧
    (∀ i weight, weights[i]? = some weight →
      drawsOf weights i = share weights i ∧
      sumBefore weights (i + 1) / weights.sum - sumBefore weights i / weights.sum =
        weight / weights.sum) ∧
    (⋃ i < weights.length, share weights i) = Set.Ico 0 1 ∧
    (Pairwise fun i j => Disjoint (share weights i) (share weights j)) ∧
    ∀ {α : Type} [Weight α] (others : List α), others ≠ [] → ∀ draw,
      ∃ i < others.length, index? others draw = some i := by
  refine ⟨?_, ?_, iUnion_share nonempty positive, pairwise_disjoint_share nonempty positive, ?_⟩
  · intro draw nonneg belowOne
    obtain ⟨i, chosen, inShare⟩ := isInShare_of_index? nonempty positive nonneg belowOne
    refine ⟨i, chosen, fun j => ⟨fun other => IsInShare.unique positive other inShare, ?_⟩⟩
    intro same
    exact same ▸ inShare
  · intro i weight placed
    refine ⟨drawsOf_eq_share nonempty positive i, ?_⟩
    rw [← sub_div, sumBefore_succ placed, add_sub_cancel_left]
  · intro α _ others othersNonempty draw
    exact exists_index othersNonempty draw

/-- A draw at the very start of a share falls into it. -/
theorem index?_proportional_at_start :
    let weights : List Rat := [1 / 2, 1, 1 / 3]
    weights ≠ [] ∧ (∀ weight ∈ weights, 0 < weight) ∧
    drawsOf weights 1 = Set.Ico (3 / 11) (9 / 11) ∧ index? weights (3 / 11) = some 1 := by
  intro weights
  have nonempty : weights ≠ [] := List.cons_ne_nil _ _
  have positive : ∀ weight ∈ weights, 0 < weight := by simp [weights]
  obtain ⟨-, shares, -⟩ := index?_proportional nonempty positive
  have drawsEq : drawsOf weights 1 = Set.Ico (3 / 11) (9 / 11) := by
    rw [(shares 1 1 rfl).1, share]
    norm_num [weights, sumBefore]
  have atStart : (3 / 11 : Rat) ∈ drawsOf weights 1 := by
    rw [drawsEq]
    norm_num
  exact ⟨nonempty, positive, drawsEq, atStart.2.2⟩

end Tessera.Weighted
