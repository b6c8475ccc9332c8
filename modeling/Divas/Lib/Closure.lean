/-
  Divas.Lib.Closure — Warshall's closure of a relation on the numbers below a bound.

  `through R n` relates what a path of `R` connects whose inner nodes are below `n`: one
  round of Warshall's algorithm makes `through R (n + 1)` of `through R n`.

  Proved: on a relation between numbers below `N`, `N` rounds give the transitive
  closure (`through_iff`).
-/

import Mathlib.Logic.Relation

namespace Divas.Lib.Closure

variable {R : Nat → Nat → Prop}

def through (R : Nat → Nat → Prop) : Nat → Nat → Nat → Prop
  | 0, i, j => R i j
  | n + 1, i, j => through R n i j ∨ (through R n i n ∧ through R n n j)

theorem through_sound {n i j : Nat} (h : through R n i j) : Relation.TransGen R i j := by
  induction n generalizing i j with
  | zero => exact Relation.TransGen.single h
  | succ n ih =>
    rcases h with h | ⟨h1, h2⟩
    · exact ih h
    · exact (ih h1).trans (ih h2)

theorem through_of_rel {n i j : Nat} (h : R i j) : through R n i j := by
  induction n with
  | zero => exact h
  | succ n ih => exact Or.inl ih

/-- Paths through numbers below `n` join at a number below `n`. -/
theorem through_join {n i k j : Nat} (hk : k < n) (h1 : through R n i k) (h2 : through R n k j) : through R n i j := by
  induction n generalizing i k j with
  | zero => omega
  | succ n ih =>
    by_cases e : k = n
    · subst e
      have h1' : through R k i k := by rcases h1 with h | ⟨h, -⟩ <;> exact h
      have h2' : through R k k j := by rcases h2 with h | ⟨-, h⟩ <;> exact h
      exact Or.inr ⟨h1', h2'⟩
    · have hk' : k < n := by omega
      rcases h1 with h1 | ⟨h1, h1'⟩
      · rcases h2 with h2 | ⟨h2, h2'⟩
        · exact Or.inl (ih hk' h1 h2)
        · exact Or.inr ⟨ih hk' h1 h2, h2'⟩
      · rcases h2 with h2 | ⟨-, h2'⟩
        · exact Or.inr ⟨h1, ih hk' h1' h2⟩
        · exact Or.inr ⟨h1, h2'⟩

theorem through_iff {N : Nat} (hR : ∀ i j, R i j → i < N ∧ j < N) {i j : Nat} :
    through R N i j ↔ Relation.TransGen R i j := by
  refine ⟨through_sound, fun h => ?_⟩
  induction h with
  | single h => exact through_of_rel h
  | tail _ h ih => exact through_join (hR _ _ h).1 ih (through_of_rel h)

/-- A path between different ends leaves its first node. -/
theorem exists_out {i j : Nat} (h : Relation.TransGen R i j) (hne : i ≠ j) : ∃ k, k ≠ i ∧ R i k := by
  induction h with
  | single h => exact ⟨_, hne.symm, h⟩
  | @tail k l _ hs ih =>
    by_cases e : i = k
    · subst e
      exact ⟨l, hne.symm, hs⟩
    · exact ih e

/-- A path between different ends comes to its last node. -/
theorem exists_in {i j : Nat} (h : Relation.TransGen R i j) (hne : i ≠ j) : ∃ k, k ≠ j ∧ R k j :=
  exists_out (R := Function.swap R) (Relation.transGen_swap.2 h) hne.symm

/-- Adding links inside the closure does not change it. -/
theorem closure_eq {S : Nat → Nat → Prop} (h1 : ∀ i j, R i j → S i j) (h2 : ∀ i j, S i j → Relation.TransGen R i j)
    {i j : Nat} : Relation.TransGen S i j ↔ Relation.TransGen R i j := by
  constructor
  · intro h
    induction h with
    | single h => exact h2 _ _ h
    | tail _ h ih => exact ih.trans (h2 _ _ h)
  · intro h
    exact Relation.TransGen.mono h1 i j h

end Divas.Lib.Closure
