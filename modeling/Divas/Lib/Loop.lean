/-
  Divas.Lib.Loop — counting loops.

  `forTo n body s` is `for (i = 0; i < n; i++) body`. Proved: the invariant rule, with
  the invariant indexed by the number of turns made, and what two runs of a loop keep
  in common.
-/

import Mathlib.Logic.Function.Basic

namespace Divas.Lib.Loop

universe u v

variable {σ : Type u}

def forTo (n : Nat) (body : Nat → σ → σ) (s : σ) : σ := (List.range n).foldl (fun s i => body i s) s

@[simp] theorem forTo_zero (body : Nat → σ → σ) (s : σ) : forTo 0 body s = s := rfl

theorem forTo_succ (n : Nat) (body : Nat → σ → σ) (s : σ) : forTo (n + 1) body s = body n (forTo n body s) := by
  simp [forTo, List.range_succ]

/-- `for (i = lo; i < hi; i++) body`. -/
def forFrom (lo hi : Nat) (body : Nat → σ → σ) (s : σ) : σ := forTo (hi - lo) (fun k => body (lo + k)) s

/-- What holds at first and is kept by every turn holds at the end. -/
theorem forTo_invariant {n : Nat} {b : Nat → σ → σ} {s : σ} {I : Nat → σ → Prop} (h0 : I 0 s)
    (hs : ∀ i t, i < n → I i t → I (i + 1) (b i t)) : I n (forTo n b s) := by
  have : ∀ k, k ≤ n → I k (forTo k b s) := by
    intro k
    induction k with
    | zero => intro _; exact h0
    | succ k ih =>
      intro hk
      rw [forTo_succ]
      exact hs k _ (by omega) (ih (by omega))
  exact this n (Nat.le_refl n)

/-- What every turn keeps the loop keeps. -/
theorem forTo_keep {n : Nat} {body : Nat → σ → σ} {s : σ} {I : σ → Prop} (h0 : I s) (hs : ∀ i t, I t → I (body i t)) :
    I (forTo n body s) :=
  forTo_invariant (I := fun _ t => I t) h0 (fun i t _ h => hs i t h)

/-- Two runs of a loop that agree at first and after every turn agree at the end. -/
theorem forTo_agree {τ : Type v} {n : Nat} {body : Nat → σ → σ} {body' : Nat → τ → τ} {s : σ} {s' : τ}
    {A : σ → τ → Prop} (h0 : A s s') (hs : ∀ i t t', i < n → A t t' → A (body i t) (body' i t')) :
    A (forTo n body s) (forTo n body' s') := by
  have : ∀ k, k ≤ n → A (forTo k body s) (forTo k body' s') := by
    intro k
    induction k with
    | zero => intro _; exact h0
    | succ k ih =>
      intro hk
      rw [forTo_succ, forTo_succ]
      exact hs k _ _ (by omega) (ih (by omega))
  exact this n (Nat.le_refl n)

theorem forFrom_agree {τ : Type v} {lo hi : Nat} {body : Nat → σ → σ} {body' : Nat → τ → τ} {s : σ} {s' : τ}
    {A : σ → τ → Prop} (h0 : A s s') (hs : ∀ i t t', lo ≤ i → i < hi → A t t' → A (body i t) (body' i t')) :
    A (forFrom lo hi body s) (forFrom lo hi body' s') :=
  forTo_agree h0 fun k t t' hk h => hs (lo + k) t t' (by omega) (by omega) h

/-- A loop whose turns set one entry of a table each. `w` is the state as a function of
    the table, and `f` the entries that the turns set. -/
theorem forTo_entries {α : Type v} {n : Nat} {b : Nat → σ → σ} {w : (Nat → α) → σ} {f t : Nat → α}
    (hb : ∀ k, k < n → b k (w fun i => if i < k then f i else t i)
      = w (Function.update (fun i => if i < k then f i else t i) k (f k))) :
    forTo n b (w t) = w fun i => if i < n then f i else t i := by
  refine forTo_invariant (I := fun k s => s = w fun i => if i < k then f i else t i) ?_ ?_
  · simp
  · intro k s hk h
    rw [h, hb k hk]
    congr 1
    funext i
    by_cases e : i = k
    · subst e
      simp
    · have : i < k + 1 ↔ i < k := by omega
      simp [Function.update_of_ne e, this]

end Divas.Lib.Loop
