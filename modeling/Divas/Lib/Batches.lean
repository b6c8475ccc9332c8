/-
  Divas.Lib.Batches — work that is done in batches.

  A state has a list of work that waits. A step takes the first `n` of it, or all, and
  leaves the rest; with no work left it does something else and ends.

  Proved: the batches of a run put together are the work that waited at first
  (`Run.flatten`), and a run ends (`exists_run`).
-/

import Mathlib.Data.List.Basic

namespace Divas.Lib.Batches

universe u v

variable {σ : Type u} {α : Type v}

/-- From `s` the batches are taken one after the other, and none is left in `t`. -/
inductive Run (pending : σ → List α) (n : Nat) (step : σ → σ) : σ → List (List α) → σ → Prop
  | done {s : σ} : pending s = [] → Run pending n step s [] s
  | take {s t : σ} {bs : List (List α)} : pending s ≠ [] → Run pending n step (step s) bs t →
      Run pending n step s ((pending s).take n :: bs) t

variable {pending : σ → List α} {n : Nat} {step : σ → σ} {I : σ → Prop} {s t : σ} {bs : List (List α)}

theorem Run.pending_nil (h : Run pending n step s bs t) : pending t = [] := by
  induction h with
  | done h => exact h
  | take _ _ ih => exact ih

/-- What a step keeps a run keeps. -/
theorem Run.invariant (hstep : ∀ s, I s → pending s ≠ [] → I (step s)) (h : Run pending n step s bs t) (hs : I s) : I t := by
  induction h with
  | done _ => exact hs
  | take hne _ ih => exact ih (hstep _ hs hne)

/-- The batches are the work. -/
theorem Run.flatten (hstep : ∀ s, I s → pending s ≠ [] → I (step s) ∧ pending (step s) = (pending s).drop n)
    (h : Run pending n step s bs t) (hs : I s) : bs.flatten = pending s := by
  induction h with
  | done h => rw [h]; rfl
  | take hne _ ih =>
    obtain ⟨hI, hrest⟩ := hstep _ hs hne
    rw [List.flatten_cons, ih hI, hrest]
    exact List.take_append_drop n _

/-- No batch is empty, or longer than `n`. -/
theorem Run.sizes (hn : 0 < n) (h : Run pending n step s bs t) : ∀ b ∈ bs, b ≠ [] ∧ b.length ≤ n := by
  induction h with
  | done _ => intro b hb; cases hb
  | take hne _ ih =>
    intro b hb
    rcases List.mem_cons.mp hb with rfl | hb
    · refine ⟨?_, List.length_take_le n _⟩
      intro hnil
      rcases List.take_eq_nil_iff.mp hnil with h0 | h0
      · omega
      · exact hne h0
    · exact ih b hb

theorem exists_run (hn : 0 < n) (hstep : ∀ s, I s → pending s ≠ [] → I (step s) ∧ pending (step s) = (pending s).drop n)
    (hs : I s) : ∃ bs t, Run pending n step s bs t := by
  induction hk : (pending s).length using Nat.strongRecOn generalizing s with
  | ind k ih =>
    by_cases hne : pending s = []
    · exact ⟨[], s, .done hne⟩
    · obtain ⟨hI, hrest⟩ := hstep s hs hne
      have hpos := List.length_pos_iff.mpr hne
      have hless : (pending (step s)).length < k := by
        rw [hrest, List.length_drop]
        omega
      obtain ⟨bs, t, hrun⟩ := ih _ hless hI rfl
      exact ⟨_, t, .take hne hrun⟩

end Divas.Lib.Batches
