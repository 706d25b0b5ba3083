/-!
# Partition points

Bisection of an initial segment of the natural numbers. On a predicate that never turns true again
once it is false, the partition point is the first number at which it is false; on any other predicate
it is still some boundary inside the segment.
-/

set_option autoImplicit false

namespace Tessera

def partitionPointBetween (below : Nat → Bool) (low high : Nat) : Nat :=
  if low < high then
    if below ((low + high) / 2) then partitionPointBetween below ((low + high) / 2 + 1) high
    else partitionPointBetween below low ((low + high) / 2)
  else low
termination_by high - low

/-- The boundary, among the numbers up to `size`, between those that satisfy `below` and the rest. -/
def partitionPoint (below : Nat → Bool) (size : Nat) : Nat := partitionPointBetween below 0 size

theorem partitionPointBetween_le (below : Nat → Bool) {low high : Nat} (ordered : low ≤ high) :
    partitionPointBetween below low high ≤ high := by
  fun_induction partitionPointBetween below low high with
  | case1 low high _ _ ih => exact ih (by omega)
  | case2 low high _ _ ih => exact Nat.le_trans (ih (by omega)) (by omega)
  | case3 low high _ => omega

theorem partitionPoint_le (below : Nat → Bool) (size : Nat) : partitionPoint below size ≤ size :=
  partitionPointBetween_le below (Nat.zero_le size)

theorem le_partitionPointBetween (below : Nat → Bool) (low high : Nat) :
    low ≤ partitionPointBetween below low high := by
  fun_induction partitionPointBetween below low high with
  | case1 low high _ _ ih => omega
  | case2 low high _ _ ih => exact ih
  | case3 low high _ => exact Nat.le_refl _

theorem below_of_partitionPointBetween {below : Nat → Bool} {low high last : Nat}
    (reached : partitionPointBetween below low high = last + 1) (further : low ≤ last) :
    below last = true := by
  fun_induction partitionPointBetween below low high with
  | case1 low high _ within ih =>
      have beyond := le_partitionPointBetween below ((low + high) / 2 + 1) high
      rw [reached] at beyond
      rcases Nat.eq_or_lt_of_le (Nat.le_of_succ_le_succ beyond) with here | ahead
      · exact here ▸ within
      · exact ih reached ahead
  | case2 low high _ _ ih => exact ih reached further
  | case3 low high _ => omega

theorem not_below_partitionPointBetween {below : Nat → Bool} {low high : Nat}
    (inside : partitionPointBetween below low high < high) :
    below (partitionPointBetween below low high) = false := by
  fun_induction partitionPointBetween below low high with
  | case1 low high _ within ih => exact ih inside
  | case2 low high ordered beyond ih =>
      have bounded : partitionPointBetween below low ((low + high) / 2) ≤ (low + high) / 2 :=
        partitionPointBetween_le below (by omega)
      rcases Nat.eq_or_lt_of_le bounded with here | before
      · rw [here]
        exact Bool.eq_false_iff.mpr beyond
      · exact ih before
  | case3 low high ordered => exact absurd inside ordered

/-- The number at a boundary does not satisfy the predicate, unless the segment ends there. -/
theorem not_below_partitionPoint {below : Nat → Bool} {size : Nat}
    (inside : partitionPoint below size < size) : below (partitionPoint below size) = false :=
  not_below_partitionPointBetween inside

/-- The number just before a boundary satisfies the predicate, monotone or not. -/
theorem below_of_partitionPoint {below : Nat → Bool} {size last : Nat}
    (reached : partitionPoint below size = last + 1) : below last = true :=
  below_of_partitionPointBetween reached (Nat.zero_le last)

end Tessera
