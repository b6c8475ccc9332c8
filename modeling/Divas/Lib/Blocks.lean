/-
  Divas.Lib.Blocks — blocks that lie one after the other.

  A block has an offset and a stop. `Adjacent k as e` says that the blocks of the list fill
  `[k, e)` in order, without gaps, and that none is empty.

  Proved: a block more at the end (`Adjacent.snoc`), where the blocks lie
  (`Adjacent.bounds`), that a block ends before a later one begins (`Adjacent.pairwise`), and how much lies in
  the blocks (`Adjacent.sum_le`).
-/

import Mathlib.Algebra.Ring.Nat
import Mathlib.Data.List.Basic

namespace Divas.Lib.Blocks

universe u

variable {α : Type u} {off stop : α → Nat}

def Adjacent (off stop : α → Nat) : Nat → List α → Nat → Prop
  | k, [], e => k = e
  | k, a :: as, e => off a = k ∧ k < stop a ∧ Adjacent off stop (stop a) as e

theorem Adjacent.snoc {k e : Nat} {as : List α} (h : Adjacent off stop k as e) {a : α} (ho : off a = e) (hs : e < stop a) :
    Adjacent off stop k (as ++ [a]) (stop a) := by
  induction as generalizing k with
  | nil =>
    have hk : k = e := h
    exact ⟨ho.trans hk.symm, hk ▸ hs, rfl⟩
  | cons b as ih => exact ⟨h.1, h.2.1, ih h.2.2⟩

theorem Adjacent.le {k e : Nat} {as : List α} (h : Adjacent off stop k as e) : k ≤ e := by
  induction as generalizing k with
  | nil => exact Nat.le_of_eq h
  | cons b as ih => exact Nat.le_trans (Nat.le_of_lt h.2.1) (ih h.2.2)

theorem Adjacent.lt {k e : Nat} {as : List α} (h : Adjacent off stop k as e) (hne : as ≠ []) : k < e := by
  cases as with
  | nil => exact absurd rfl hne
  | cons b as => exact Nat.lt_of_lt_of_le h.2.1 h.2.2.le

/-- The chain is empty when it ends where it begins. -/
theorem Adjacent.nil_iff {k e : Nat} {as : List α} (h : Adjacent off stop k as e) : as = [] ↔ k = e := by
  constructor
  · intro hn
    subst hn
    exact h
  · intro he
    by_contra hne
    exact absurd he (Nat.ne_of_lt (h.lt hne))

theorem Adjacent.bounds {k e : Nat} {as : List α} (h : Adjacent off stop k as e) {a : α} (ha : a ∈ as) :
    k ≤ off a ∧ off a < stop a ∧ stop a ≤ e := by
  induction as generalizing k with
  | nil => cases ha
  | cons b as ih =>
    have hb := h.1
    have hlt := h.2.1
    rcases List.mem_cons.mp ha with rfl | ha
    · exact ⟨by omega, by omega, h.2.2.le⟩
    · obtain ⟨h1, h2, h3⟩ := ih h.2.2 ha
      exact ⟨by omega, h2, h3⟩

theorem Adjacent.pairwise {k e : Nat} {as : List α} (h : Adjacent off stop k as e) :
    as.Pairwise fun a b => stop a ≤ off b := by
  induction as generalizing k with
  | nil => exact List.Pairwise.nil
  | cons b as ih => exact List.Pairwise.cons (fun a ha => (h.2.2.bounds ha).1) (ih h.2.2)

/-- The parts of the blocks take no more than the blocks. -/
theorem Adjacent.sum_le {k e : Nat} {as : List α} (h : Adjacent off stop k as e) {n : α → Nat}
    (hn : ∀ a, a ∈ as → off a + n a ≤ stop a) : k + (as.map n).sum ≤ e := by
  induction as generalizing k with
  | nil => exact Nat.le_of_eq h
  | cons b as ih =>
    have hb := h.1
    have hfirst := hn b (by simp)
    have hrest := ih h.2.2 fun a ha => hn a (by simp [ha])
    rw [List.map_cons, List.sum_cons]
    omega

theorem Adjacent.map {k e : Nat} {as : List α} (h : Adjacent off stop k as e) {f : α → α}
    (ho : ∀ a, a ∈ as → off (f a) = off a) (hs : ∀ a, a ∈ as → stop (f a) = stop a) :
    Adjacent off stop k (as.map f) e := by
  induction as generalizing k with
  | nil => exact h
  | cons b as ih =>
    have hfirst : stop (f b) = stop b := hs b (by simp)
    refine ⟨(ho b (by simp)).trans h.1, ?_, ?_⟩
    · rw [hfirst]
      exact h.2.1
    · rw [hfirst]
      exact ih h.2.2 (fun a ha => ho a (by simp [ha])) fun a ha => hs a (by simp [ha])

end Divas.Lib.Blocks
