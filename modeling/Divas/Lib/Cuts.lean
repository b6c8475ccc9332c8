/-
  Divas.Lib.Cuts — consumers that do not see how their input is cut.

  `step` takes one item, `block` a list of them; either may fail. Proved: a block that takes its
  items one by one leaves, over any two cuts of one input, the same state at every common border
  (`cuts_agree`).
-/

import Mathlib.Data.List.Basic

namespace Divas.Lib.Cuts

universe u v

variable {σ : Type u} {α : Type v} {I : σ → Prop} {step : σ → α → Option σ} {block : σ → List α → Option σ}

/-- What every step keeps, and what lets it succeed, holds over a list of items. -/
theorem foldlM_some (hs : ∀ s x, I s → ∃ s', step s x = some s' ∧ I s') {s : σ} (h : I s) (xs : List α) :
    ∃ s', xs.foldlM step s = some s' ∧ I s' := by
  induction xs generalizing s with
  | nil => exact ⟨s, rfl, h⟩
  | cons x xs ih =>
    obtain ⟨s₁, he, h₁⟩ := hs s x h
    obtain ⟨s₂, he₂, h₂⟩ := ih h₁
    refine ⟨s₂, ?_, h₂⟩
    rw [List.foldlM_cons, he]
    exact he₂

theorem foldlM_split (step : σ → α → Option σ) (s : σ) (xs : List α) (n : Nat) :
    xs.foldlM step s = ((xs.take n).foldlM step s).bind ((xs.drop n).foldlM step) := by
  conv_lhs => rw [← List.take_append_drop n xs, List.foldlM_append]
  rfl

/-- Blocks after each other are the steps of their items after each other. -/
theorem foldlM_blocks (hs : ∀ s x, I s → ∃ s', step s x = some s' ∧ I s')
    (hb : ∀ s xs, I s → block s xs = xs.foldlM step s) {s : σ} (h : I s) (bs : List (List α)) :
    bs.foldlM block s = bs.flatten.foldlM step s := by
  induction bs generalizing s with
  | nil => rfl
  | cons b bs ih =>
    obtain ⟨s₁, he, h₁⟩ := foldlM_some hs h b
    have hblock : block s b = some s₁ := (hb s b h).trans he
    rw [List.foldlM_cons, List.flatten_cons, List.foldlM_append, hblock, he]
    exact ih h₁

/-- At a border that two cuts of one input have in common, the items before it are the same. -/
theorem take_flatten_eq {bs bs' : List (List α)} (h : bs.flatten = bs'.flatten) {m m' : Nat}
    (hm : (bs.take m).flatten.length = (bs'.take m').flatten.length) : (bs.take m).flatten = (bs'.take m').flatten := by
  have hsplit : (bs.take m).flatten ++ (bs.drop m).flatten = (bs'.take m').flatten ++ (bs'.drop m').flatten := by
    rw [← List.flatten_append, ← List.flatten_append, List.take_append_drop, List.take_append_drop]
    exact h
  exact (List.append_inj hsplit hm).1

/-- Over two cuts of one input, the states at a common border are the same, and no block before it fails. -/
theorem cuts_agree (hs : ∀ s x, I s → ∃ s', step s x = some s' ∧ I s')
    (hb : ∀ s xs, I s → block s xs = xs.foldlM step s) {s : σ} (h : I s) {bs bs' : List (List α)}
    (hcut : bs.flatten = bs'.flatten) {m m' : Nat} (hm : (bs.take m).flatten.length = (bs'.take m').flatten.length) :
    ∃ t, (bs.take m).foldlM block s = some t ∧ (bs'.take m').foldlM block s = some t ∧ I t := by
  obtain ⟨t, he, ht⟩ := foldlM_some hs h (bs.take m).flatten
  refine ⟨t, (foldlM_blocks hs hb h _).trans he, ?_, ht⟩
  rw [foldlM_blocks hs hb h, ← take_flatten_eq hcut hm]
  exact he

end Divas.Lib.Cuts
