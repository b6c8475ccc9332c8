/-
  Divas.Lib.Turns — loops that are left in a turn.

  A turn gives the next state, or it leaves the loop with a result. `Reaches` is some turns,
  `Ends` the loop as a whole: it holds only of loops that are left.

  Proved: a loop is left with one result (`Ends.unique`), what every turn keeps is kept
  (`Reaches.invariant`), and a loop whose turns another one can follow is followed by it
  (`Reaches.simulate`).
-/

import Mathlib.Logic.Relation

namespace Divas.Lib.Turns

universe u v w

variable {σ : Type u} {ρ : Type v} {turn : σ → σ ⊕ ρ} {a b c : σ} {r : ρ}

/-- The loop is left with a result. -/
inductive Ends (turn : σ → σ ⊕ ρ) : σ → ρ → Prop
  | last {a : σ} {r : ρ} : turn a = .inr r → Ends turn a r
  | next {a b : σ} {r : ρ} : turn a = .inl b → Ends turn b r → Ends turn a r

/-- Some turns. -/
def Reaches (turn : σ → σ ⊕ ρ) : σ → σ → Prop := Relation.ReflTransGen fun a b => turn a = .inl b

theorem Reaches.refl (turn : σ → σ ⊕ ρ) (a : σ) : Reaches turn a a := Relation.ReflTransGen.refl

theorem Reaches.tail (h : Reaches turn a b) (hb : turn b = .inl c) : Reaches turn a c := Relation.ReflTransGen.tail h hb

theorem Reaches.trans (h : Reaches turn a b) (h' : Reaches turn b c) : Reaches turn a c := Relation.ReflTransGen.trans h h'

theorem Ends.unique {r' : ρ} (h : Ends turn a r) (h' : Ends turn a r') : r = r' := by
  induction h with
  | last ha =>
    cases h' with
    | last ha' => exact Sum.inr.inj (ha.symm.trans ha')
    | next ha' _ => cases ha.symm.trans ha'
  | next ha _ ih =>
    cases h' with
    | last ha' => cases ha.symm.trans ha'
    | next ha' hb =>
      cases Sum.inl.inj (ha.symm.trans ha')
      exact ih hb

/-- The last turn. -/
theorem Ends.exists_last (h : Ends turn a r) : ∃ b, Reaches turn a b ∧ turn b = .inr r := by
  induction h with
  | last ha => exact ⟨_, Reaches.refl turn _, ha⟩
  | next ha _ ih =>
    obtain ⟨b, hb, hr⟩ := ih
    exact ⟨b, Relation.ReflTransGen.head ha hb, hr⟩

theorem Reaches.ends (h : Reaches turn a b) (hb : Ends turn b r) : Ends turn a r := by
  induction h using Relation.ReflTransGen.head_induction_on with
  | refl => exact hb
  | head ha _ ih => exact .next ha ih

theorem Reaches.invariant {I : σ → Prop} (h : Reaches turn a b) (hs : ∀ a b, turn a = .inl b → I a → I b) (ha : I a) : I b := by
  induction h with
  | refl => exact ha
  | tail _ hbc ih => exact hs _ _ hbc ih

/-- The turns of one loop are followed by the turns of another. -/
theorem Reaches.simulate {τ : Type w} {ρ' : Type v} {turn' : τ → τ ⊕ ρ'} {R : σ → τ → Prop}
    (hs : ∀ a b a', turn a = .inl b → R a a' → ∃ b', turn' a' = .inl b' ∧ R b b')
    (h : Reaches turn a b) {a' : τ} (ha : R a a') : ∃ b', Reaches turn' a' b' ∧ R b b' := by
  induction h with
  | refl => exact ⟨a', Reaches.refl turn' a', ha⟩
  | tail _ hbc ih =>
    obtain ⟨b', hreach, hb⟩ := ih
    obtain ⟨c', hc, hR⟩ := hs _ _ _ hbc hb
    exact ⟨c', hreach.tail hc, hR⟩

end Divas.Lib.Turns
