/-
  Divas.Lib.Regions — regions that lie one after the other, given by their sizes.

  Region `i` has `f i` places and begins at `startOf f i`, behind the regions before it; a
  size may be 0.

  Proved: every place below `startOf f n` lies in one region (`exists_region`,
  `region_unique`), and how the starts move when a size changes (`startOf_update`).
-/

import Mathlib.Logic.Function.Basic

namespace Divas.Lib.Regions

def startOf (f : Nat → Nat) : Nat → Nat
  | 0 => 0
  | n + 1 => startOf f n + f n

variable {f g : Nat → Nat}

theorem startOf_add (f : Nat → Nat) (a n : Nat) : startOf f a ≤ startOf f (a + n) := by
  induction n with
  | zero => exact Nat.le_refl _
  | succ n ih => exact Nat.le_trans ih (Nat.le_add_right _ _)

theorem startOf_mono {a b : Nat} (h : a ≤ b) : startOf f a ≤ startOf f b := by
  obtain ⟨n, rfl⟩ := Nat.exists_eq_add_of_le h
  exact startOf_add f a n

/-- Empty regions do not move what comes behind them. -/
theorem startOf_gap {a b : Nat} (h : a ≤ b) (hf : ∀ i, a ≤ i → i < b → f i = 0) : startOf f b = startOf f a := by
  obtain ⟨n, rfl⟩ := Nat.exists_eq_add_of_le h
  induction n with
  | zero => rfl
  | succ n ih =>
    have hlast := hf (a + n) (by omega) (by omega)
    have hrest := ih (by omega) fun i h1 h2 => hf i h1 (by omega)
    show startOf f (a + n) + f (a + n) = _
    rw [hrest, hlast, Nat.add_zero]

theorem startOf_le {c : Nat} (hf : ∀ i, f i ≤ c) (n : Nat) : startOf f n ≤ c * n := by
  induction n with
  | zero => exact Nat.zero_le _
  | succ n ih =>
    have := hf n
    rw [startOf, Nat.mul_succ]
    omega

/-- A region ends before a later one begins. -/
theorem startOf_before {i j : Nat} (h : i < j) : startOf f i + f i ≤ startOf f j := startOf_mono (f := f) (Nat.succ_le_of_lt h)

theorem region_unique {i j x : Nat} (hi : startOf f i ≤ x ∧ x < startOf f i + f i)
    (hj : startOf f j ≤ x ∧ x < startOf f j + f j) :
    i = j := by
  rcases Nat.lt_trichotomy i j with h | h | h
  · have := startOf_before (f := f) h
    omega
  · exact h
  · have := startOf_before (f := f) h
    omega

theorem exists_region {n x : Nat} (h : x < startOf f n) : ∃ i, i < n ∧ startOf f i ≤ x ∧ x < startOf f i + f i := by
  induction n with
  | zero => exact absurd h (Nat.not_lt_zero _)
  | succ n ih =>
    by_cases hx : x < startOf f n
    · obtain ⟨i, hi, h1, h2⟩ := ih hx
      exact ⟨i, by omega, h1, h2⟩
    · exact ⟨n, Nat.lt_succ_self _, by omega, h⟩

/-- A size that changes moves the regions behind it. -/
theorem startOf_update (f : Nat → Nat) (a c n : Nat) :
    startOf (Function.update f a c) n + (if a < n then f a else 0) = startOf f n + (if a < n then c else 0) := by
  induction n with
  | zero => rfl
  | succ n ih =>
    rw [startOf, startOf]
    by_cases h : a = n
    · subst h
      rw [Function.update_self]
      simp only [Nat.lt_irrefl, if_false, Nat.lt_succ_self, if_true] at ih ⊢
      omega
    · rw [Function.update_of_ne (Ne.symm h)]
      by_cases hn : a < n
      · simp only [hn, if_true, Nat.lt_succ_of_lt hn] at ih ⊢
        omega
      · simp only [hn, if_false, show ¬ a < n + 1 by omega] at ih ⊢
        omega

end Divas.Lib.Regions
