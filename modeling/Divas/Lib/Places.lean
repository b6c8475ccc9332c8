/-
  Divas.Lib.Places — things kept in several lists, each thing in at most one place.

  A family of lists is `Apart` when no list holds a thing twice and no two lists hold
  the same thing. This is what makes an owner unique: what is taken out of a place is
  nowhere else.

  Proved: taking things away keeps a family apart (`Apart.sub`), so does adding a thing
  that is in no place (`Apart.push`), what is taken from the front of a place is in
  no place then (`Apart.pop_fresh`), and where one place gains a thing, that one is held
  besides the others (`Gains.held`).
-/

import Mathlib.Logic.Function.Basic
import Mathlib.Data.List.Nodup

namespace Divas.Lib.Places

universe u v

variable {κ : Type u} {α : Type v}

structure Apart (L : κ → List α) : Prop where
  nodup : ∀ k, (L k).Nodup
  unique : ∀ k k' x, x ∈ L k → x ∈ L k' → k = k'

/-- Some place holds it. -/
def Held (L : κ → List α) (x : α) : Prop := ∃ k, x ∈ L k

/-- One place gets one thing more. -/
structure Gains (L L' : κ → List α) (k : κ) (x : α) : Prop where
  here : ∀ y, y ∈ L' k ↔ y ∈ L k ∨ y = x
  elsewhere : ∀ k', k' ≠ k → L' k' = L k'

section Gains

variable {L L' : κ → List α} {k : κ} {x : α}

theorem gains_push (hk : L' k = L k ++ [x]) (ho : ∀ k', k' ≠ k → L' k' = L k') : Gains L L' k x := by
  refine ⟨fun y => ?_, ho⟩
  rw [hk, List.mem_append, List.mem_singleton]

theorem gains_cons (hk : L' k = x :: L k) (ho : ∀ k', k' ≠ k → L' k' = L k') : Gains L L' k x := by
  refine ⟨fun y => ?_, ho⟩
  rw [hk, List.mem_cons, or_comm]

theorem Gains.mem (h : Gains L L' k x) {k' : κ} {y : α} : y ∈ L' k' ↔ y ∈ L k' ∨ k' = k ∧ y = x := by
  by_cases e : k' = k
  · subst e
    rw [h.here]
    simp
  · rw [h.elsewhere k' e]
    simp [e]

theorem Gains.held (h : Gains L L' k x) (y : α) : Held L' y ↔ y = x ∨ Held L y := by
  constructor
  · rintro ⟨k', hy⟩
    rcases h.mem.mp hy with hy | ⟨-, hy⟩
    · exact Or.inr ⟨k', hy⟩
    · exact Or.inl hy
  · rintro (hy | ⟨k', hy⟩)
    · exact ⟨k, h.mem.mpr (Or.inr ⟨rfl, hy⟩)⟩
    · exact ⟨k', h.mem.mpr (Or.inl hy)⟩

end Gains

theorem Apart.sub {L L' : κ → List α} (h : Apart L) (hs : ∀ k, (L' k).Sublist (L k)) : Apart L' :=
  ⟨fun k => (h.nodup k).sublist (hs k),
    fun k k' x h1 h2 => h.unique k k' x ((hs k).mem h1) ((hs k').mem h2)⟩

theorem Apart.push {L L' : κ → List α} {k : κ} {x : α} (h : Apart L) (hx : ¬ Held L x) (hk : L' k = L k ++ [x])
    (ho : ∀ k', k' ≠ k → L' k' = L k') : Apart L' := by
  have hcase : ∀ k' y, y ∈ L' k' → y ∈ L k' ∨ (k' = k ∧ y = x) := by
    intro k' y hy
    by_cases e : k' = k
    · subst e
      rw [hk] at hy
      rcases List.mem_append.mp hy with hy | hy
      · exact Or.inl hy
      · exact Or.inr ⟨rfl, List.mem_singleton.mp hy⟩
    · rw [ho k' e] at hy
      exact Or.inl hy
  refine ⟨fun k' => ?_, fun a b y ha hb => ?_⟩
  · by_cases e : k' = k
    · subst e
      rw [hk]
      refine List.nodup_append.mpr ⟨h.nodup k', List.nodup_singleton x, fun y hy z hz => ?_⟩
      rintro rfl
      rw [List.mem_singleton] at hz
      subst hz
      exact hx ⟨k', hy⟩
    · rw [ho k' e]
      exact h.nodup k'
  · rcases hcase a y ha with h1 | ⟨rfl, rfl⟩
    · rcases hcase b y hb with h2 | ⟨rfl, rfl⟩
      · exact h.unique a b y h1 h2
      · exact absurd ⟨a, h1⟩ hx
    · rcases hcase b y hb with h2 | ⟨rfl, -⟩
      · exact absurd ⟨b, h2⟩ hx
      · rfl

theorem Apart.pop_fresh {L L' : κ → List α} {k : κ} {x : α} {xs : List α} (h : Apart L) (hk : L k = x :: xs)
    (hk' : L' k = xs) (ho : ∀ k', k' ≠ k → L' k' = L k') : ¬ Held L' x := by
  intro hw
  rcases hw with ⟨k', hx⟩
  have hmem : x ∈ L k := by rw [hk]; simp
  by_cases e : k' = k
  · subst e
    rw [hk'] at hx
    have := h.nodup k'
    rw [hk] at this
    exact (List.nodup_cons.mp this).1 hx
  · rw [ho k' e] at hx
    exact e (h.unique k' k x hx hmem)

end Divas.Lib.Places
