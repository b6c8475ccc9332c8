/-
  Divas.Lib.Entries — how many entries of a table have a value.

  A table is a function, and its first `n` entries count.

  Proved: setting an entry adds at most one to the count of the value (`entries_update`) and
  nothing to any other (`entries_update_of_ne`); where no entry gets the value the count does
  not grow (`entries_le`). An entry that did not have the value counts as one when it gets it
  (`entries_gain`), and one that had it is missed when it gets another (`entries_lose`).
-/

import Mathlib.Logic.Function.Basic

namespace Divas.Lib.Entries

universe u

variable {α : Type u} [DecidableEq α]

def entries (n : Nat) (f : Nat → α) (c : α) : Nat := (List.range n).countP fun i => f i == c

theorem entries_succ (n : Nat) (f : Nat → α) (c : α) : entries (n + 1) f c = entries n f c + if f n = c then 1 else 0 := by
  simp [entries, List.range_succ, List.countP_append, List.countP_cons]

theorem entries_le {n : Nat} {f g : Nat → α} {c : α} (h : ∀ i, i < n → f i = c → g i = c) : entries n f c ≤ entries n g c := by
  refine List.countP_mono_left ?_
  intro i hi hf
  rw [beq_iff_eq] at hf ⊢
  exact h i (List.mem_range.mp hi) hf

theorem entries_congr {n : Nat} {f g : Nat → α} (h : ∀ i, i < n → f i = g i) (c : α) : entries n f c = entries n g c :=
  Nat.le_antisymm (entries_le fun i hi hf => (h i hi).symm.trans hf) (entries_le fun i hi hg => (h i hi).trans hg)

theorem entries_update_of_ne {v c : α} (hne : v ≠ c) (n : Nat) (f : Nat → α) (k : Nat) :
    entries n (Function.update f k v) c ≤ entries n f c := by
  refine entries_le ?_
  intro i _ hi
  by_cases e : i = k
  · subst e
    rw [Function.update_self] at hi
    exact absurd hi hne
  · rwa [Function.update_of_ne e] at hi

theorem entries_update (n : Nat) (f : Nat → α) (k : Nat) (v : α) : entries n (Function.update f k v) v ≤ entries n f v + 1 := by
  induction n with
  | zero => exact Nat.zero_le _
  | succ n ih =>
    rw [entries_succ, entries_succ]
    by_cases e : n = k
    · subst e
      have hbelow : entries n (Function.update f n v) v = entries n f v :=
        entries_congr (fun i hi => Function.update_of_ne (show i ≠ n by omega) _ _) v
      rw [hbelow, Function.update_self, if_pos rfl]
      omega
    · rw [Function.update_of_ne e]
      omega

theorem entries_eq_zero {n : Nat} {f : Nat → α} {c : α} (h : ∀ i, i < n → f i ≠ c) : entries n f c = 0 := by
  rw [entries, List.countP_eq_zero]
  intro i hi hf
  exact h i (List.mem_range.mp hi) (beq_iff_eq.mp hf)

theorem entries_pos {n : Nat} {f : Nat → α} {k : Nat} (hk : k < n) : 0 < entries n f (f k) := by
  rw [entries, List.countP_pos_iff]
  exact ⟨k, List.mem_range.mpr hk, beq_self_eq_true _⟩

/-- Entry `k` splits the count. -/
theorem entries_split {n : Nat} (f : Nat → α) {k : Nat} (hk : k < n) (v c : α) :
    entries n (Function.update f k v) c + (if f k = c then 1 else 0) = entries n f c + if v = c then 1 else 0 := by
  induction n with
  | zero => omega
  | succ n ih =>
    rw [entries_succ, entries_succ]
    by_cases e : n = k
    · subst e
      have hbelow : entries n (Function.update f n v) c = entries n f c :=
        entries_congr (fun i hi => Function.update_of_ne (show i ≠ n by omega) _ _) c
      rw [hbelow, Function.update_self]
      omega
    · rw [Function.update_of_ne e]
      have := ih (by omega)
      omega

theorem entries_gain {n k : Nat} {f : Nat → α} {v : α} (hk : k < n) (h : f k ≠ v) :
    entries n (Function.update f k v) v = entries n f v + 1 := by
  have := entries_split f hk v v
  rwa [if_neg h, if_pos rfl, Nat.add_zero] at this

theorem entries_lose {n k : Nat} {f : Nat → α} {v : α} (hk : k < n) (h : v ≠ f k) :
    entries n (Function.update f k v) (f k) + 1 = entries n f (f k) := by
  have := entries_split f hk v (f k)
  rwa [if_pos rfl, if_neg h, Nat.add_zero] at this

end Divas.Lib.Entries
