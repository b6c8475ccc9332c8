/-
  Divas.Lib.Run — runs of a step function over a list of events.

  A system is a function from a state and an event to the next state; an event that is
  not enabled leaves the state as it is. `run` takes the events one after the other,
  `Along` says that a condition on the state before a step and on the event holds at
  every step of a run.

  Proved: what one step preserves a run preserves (`run_invariant`), what one step
  preserves under a condition a run preserves whose steps all meet it
  (`Along.invariant`), and both for runs taken apart (`run_append`, `along_append`).
-/

namespace Divas.Lib.Run

universe u v

variable {σ : Type u} {α : Type v} (f : σ → α → σ)

def run (s : σ) (es : List α) : σ := es.foldl f s

@[simp] theorem run_nil (s : σ) : run f s [] = s := rfl

@[simp] theorem run_cons (s : σ) (e : α) (es : List α) : run f s (e :: es) = run f (f s e) es := rfl

theorem run_append (s : σ) (as bs : List α) : run f s (as ++ bs) = run f (run f s as) bs := List.foldl_append

theorem run_invariant {I : σ → Prop} (hs : ∀ s e, I s → I (f s e)) {s : σ} (h : I s) (es : List α) : I (run f s es) := by
  induction es generalizing s with
  | nil => exact h
  | cons e es ih => exact ih (hs s e h)

/-- Every step of the run meets the condition. -/
def Along (C : σ → α → Prop) : σ → List α → Prop
  | _, [] => True
  | s, e :: es => C s e ∧ Along C (f s e) es

instance Along.decidable {C : σ → α → Prop} [∀ s e, Decidable (C s e)] : (s : σ) → (es : List α) → Decidable (Along f C s es)
  | _, [] => isTrue trivial
  | s, e :: es =>
    have : Decidable (Along f C (f s e) es) := Along.decidable (f s e) es
    inferInstanceAs (Decidable (C s e ∧ Along f C (f s e) es))

theorem Along.invariant {C : σ → α → Prop} {I : σ → Prop} (hs : ∀ s e, I s → C s e → I (f s e)) {s : σ} (h : I s)
    {es : List α} (hc : Along f C s es) : I (run f s es) := by
  induction es generalizing s with
  | nil => exact h
  | cons e es ih => exact ih (hs s e h hc.1) hc.2

/-- A condition that follows from an invariant and another condition. -/
theorem Along.of {C D : σ → α → Prop} {I : σ → Prop} (hs : ∀ s e, I s → C s e → D s e ∧ I (f s e)) {s : σ} (h : I s)
    {es : List α} (hc : Along f C s es) : Along f D s es := by
  induction es generalizing s with
  | nil => trivial
  | cons e es ih =>
    obtain ⟨hd, hi⟩ := hs s e h hc.1
    exact ⟨hd, ih hi hc.2⟩

theorem along_trivial (s : σ) (es : List α) : Along f (fun _ _ => True) s es := by
  induction es generalizing s with
  | nil => trivial
  | cons e es ih => exact ⟨trivial, ih (f s e)⟩

theorem along_append {C : σ → α → Prop} {s : σ} {as bs : List α} :
    Along f C s (as ++ bs) ↔ Along f C s as ∧ Along f C (run f s as) bs := by
  induction as generalizing s with
  | nil => simp [Along]
  | cons e as ih => simp [Along, ih, and_assoc]

theorem along_and {C D : σ → α → Prop} {s : σ} {es : List α} :
    Along f (fun s e => C s e ∧ D s e) s es ↔ Along f C s es ∧ Along f D s es := by
  induction es generalizing s with
  | nil => simp [Along]
  | cons e es ih => simp [Along, ih, and_assoc, and_left_comm]

end Divas.Lib.Run
