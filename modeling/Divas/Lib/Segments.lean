/-
  Divas.Lib.Segments — a sequence in segments.

  `len i` is the length of segment `i`, `total len k` the length of the first `k` of them.
-/

import Mathlib.Algebra.BigOperators.Group.List.Basic
import Mathlib.Algebra.Ring.Nat

namespace Divas.Lib.Segments

variable (len : Nat → Nat)

def total (k : Nat) : Nat := ((List.range k).map len).sum

variable {len}

@[simp] theorem total_zero : total len 0 = 0 := rfl

theorem total_succ (k : Nat) : total len (k + 1) = total len k + len k := by
  unfold total
  rw [List.range_succ, List.map_append, List.sum_append, List.map_singleton, List.sum_singleton]

theorem total_mono {i k : Nat} (h : i ≤ k) : total len i ≤ total len k := by
  induction h with
  | refl => exact Nat.le_refl _
  | step _ ih =>
    rw [total_succ]
    exact Nat.le_trans ih (Nat.le_add_right _ _)

/-- A segment ends where the next one starts, or before. -/
theorem total_add_le {i k : Nat} (h : i < k) : total len i + len i ≤ total len k := by
  rw [← total_succ]
  exact total_mono h

theorem total_congr {len' : Nat → Nat} {k : Nat} (h : ∀ i < k, len i = len' i) : total len k = total len' k := by
  unfold total
  congr 1
  apply List.map_congr_left
  intro i hi
  exact h i (List.mem_range.mp hi)

end Divas.Lib.Segments
