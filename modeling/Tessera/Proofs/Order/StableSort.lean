import Mathlib.Data.List.Basic
import Mathlib.Order.Lattice

/-!
# Stable sorting

Merge sort keeps the order of elements that are not told apart. So among equal elements an order that
held before still holds afterwards, and a list sorted by a key is known by its elements of each key.
-/

set_option autoImplicit false

namespace Tessera

variable {α : Type}

/-! ## Orders by a key -/

section

variable {κ : Type} [LinearOrder κ] (key : α → κ)

theorem key_le_trans (a b c : α) (ab : decide (key a ≤ key b) = true)
    (bc : decide (key b ≤ key c) = true) : decide (key a ≤ key c) = true :=
  decide_eq_true (le_trans (of_decide_eq_true ab) (of_decide_eq_true bc))

theorem key_le_total (a b : α) : (decide (key a ≤ key b) || decide (key b ≤ key a)) = true := by
  simpa using le_total (key a) (key b)

end

/-! ## Equal elements -/

section

variable {le : α → α → Bool} (trans : ∀ a b c, le a b = true → le b c = true → le a c = true)
  (total : ∀ a b, (le a b || le b a) = true)

include trans total

/-- Elements none of which is told apart from another one are kept in their order. -/
theorem filter_mergeSort {elements : List α} {kept : α → Bool}
    (equal : (elements.filter kept).Pairwise fun a b => le a b = true) :
    (elements.mergeSort le).filter kept = elements.filter kept := by
  have placed := (List.sublist_mergeSort trans total equal List.filter_sublist).filter kept
  simp only [List.filter_filter, Bool.and_self] at placed
  have asMany := ((List.mergeSort_perm elements le).filter kept).length_eq
  exact (placed.eq_of_length asMany.symm).symm

/-- An order of the elements from before the sorting holds among equal ones afterwards. -/
theorem pairwise_mergeSort_stable {elements : List α} {before : α → α → Prop}
    (ordered : elements.Pairwise before) :
    (elements.mergeSort le).Pairwise fun a b => le a b = true ∧ (le b a = true → before a b) := by
  rw [List.pairwise_iff_forall_sublist]
  intro a b pair
  have sorted := List.pairwise_iff_forall_sublist.mp (List.pairwise_mergeSort trans total elements) pair
  refine ⟨sorted, fun tied => ?_⟩
  have reflexive (c : α) : le c c = true := by simpa using total c c
  -- The two elements stand among all those that are equal to the first.
  let kept (c : α) : Bool := le a c && le c a
  have equal : (elements.filter kept).Pairwise fun c d => le c d = true := by
    refine List.pairwise_of_forall_mem_list fun c cKept d dKept => ?_
    simp only [List.mem_filter, kept, Bool.and_eq_true] at cKept dKept
    exact trans _ _ _ cKept.2.2 dKept.2.1
  have pairKept : [a, b].filter kept = [a, b] := by
    simp [kept, reflexive, sorted, tied]
  have placed := pair.filter kept
  rw [pairKept, filter_mergeSort trans total equal] at placed
  exact List.pairwise_iff_forall_sublist.mp ordered (placed.trans List.filter_sublist)

/-- What holds of all pairs after the sorting: it holds of those that are told apart, in their order,
and of those that are not as they were listed. -/
theorem pairwise_mergeSort_iff {elements : List α} {relation : α → α → Prop} :
    (elements.mergeSort le).Pairwise relation ↔
      (∀ a ∈ elements, ∀ b ∈ elements, le b a = false → relation a b) ∧
      elements.Pairwise fun a b => le a b = true → le b a = true → relation a b := by
  constructor
  · intro related
    constructor
    · intro a aListed b bListed toldApart
      have aSorted : a ∈ elements.mergeSort le := List.mem_mergeSort.mpr aListed
      have bSorted : b ∈ elements.mergeSort le := List.mem_mergeSort.mpr bListed
      obtain ⟨i, iLt, rfl⟩ := List.mem_iff_getElem.mp aSorted
      obtain ⟨j, jLt, rfl⟩ := List.mem_iff_getElem.mp bSorted
      have sorted := List.pairwise_iff_getElem.mp (List.pairwise_mergeSort trans total elements)
      rcases Nat.lt_trichotomy i j with ahead | rfl | behind
      · exact List.pairwise_iff_getElem.mp related i j iLt jLt ahead
      · simpa [toldApart] using total (elements.mergeSort le)[i] (elements.mergeSort le)[i]
      · simpa [toldApart] using sorted j i jLt iLt behind
    · rw [List.pairwise_iff_forall_sublist] at related ⊢
      intro a b pair leAb _
      exact related (List.sublist_mergeSort trans total (List.pairwise_pair.mpr leAb) pair)
  · rintro ⟨toldApart, listed⟩
    refine (pairwise_mergeSort_stable trans total listed).imp_of_mem ?_
    intro a b aSorted bSorted ⟨leAb, tied⟩
    cases leBa : le b a with
    | true => exact tied leBa leAb leBa
    | false => exact toldApart a (List.mem_mergeSort.mp aSorted) b (List.mem_mergeSort.mp bSorted) leBa

end

/-! ## Elements of one key -/

/-- A list sorted by a key has the elements of a smaller key before all others. -/
theorem filter_lt_append_filter_not_lt {key : α → Nat} {elements : List α}
    (sorted : elements.Pairwise fun a b => key a ≤ key b) (bound : Nat) :
    (elements.filter fun a => key a < bound) ++ (elements.filter fun a => ¬ key a < bound) =
      elements := by
  induction elements with
  | nil => rfl
  | cons a rest ih =>
      obtain ⟨least, restSorted⟩ := List.pairwise_cons.mp sorted
      by_cases below : key a < bound
      · simpa [List.filter_cons, below] using ih restSorted
      · have noneBelow : (rest.filter fun b => key b < bound) = [] := by
          refine List.filter_eq_nil_iff.mpr fun b member => ?_
          have := least b member
          simp only [decide_eq_true_eq]
          omega
        have further := ih restSorted
        rw [noneBelow, List.nil_append] at further
        simp only [List.filter_cons, below, decide_false, Bool.false_eq_true, ↓reduceIte,
          noneBelow, not_false_eq_true, decide_true, List.nil_append, further]

/-- A list sorted by a key is made up of its elements of each key, one key after the other. -/
theorem flatMap_filter_key {key : α → Nat} {elements : List α}
    (sorted : elements.Pairwise fun a b => key a ≤ key b) {bound : Nat}
    (bounded : ∀ a ∈ elements, key a < bound) :
    ((List.range bound).flatMap fun k => elements.filter fun a => key a = k) = elements := by
  induction bound generalizing elements with
  | zero =>
      have noneBounded : elements = [] :=
        List.eq_nil_iff_forall_not_mem.mpr fun a member => Nat.not_lt_zero _ (bounded a member)
      rw [noneBounded]
      rfl
  | succ bound ih =>
      have frontBounded : ∀ a ∈ elements.filter fun a => key a < bound, key a < bound := by
        simp
      have front := ih (sorted.filter _) frontBounded
      have back : (elements.filter fun a => key a = bound) =
          elements.filter fun a => ¬ key a < bound := by
        refine List.filter_congr fun a member => ?_
        have := bounded a member
        simp only [decide_eq_decide]
        omega
      have sameFront : ∀ k ∈ List.range bound, (elements.filter fun a => key a = k) =
          (elements.filter fun a => key a < bound).filter fun a => key a = k := by
        intro k inside
        rw [List.filter_filter]
        refine List.filter_congr fun a _ => ?_
        have := List.mem_range.mp inside
        simp only [← Bool.decide_and, decide_eq_decide]
        omega
      rw [List.range_succ, List.flatMap_append, List.flatMap_singleton, back,
        List.flatMap_congr sameFront, front]
      exact filter_lt_append_filter_not_lt sorted bound

end Tessera
