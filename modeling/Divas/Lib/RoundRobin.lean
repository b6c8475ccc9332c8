/-
  Divas.Lib.RoundRobin — rounds over a circle that go on where the last one ended.

  A round begins behind the node `start`. At each node it takes a turn, and it ends when
  the turn stops it or when it is at `start` again: `scan`. Over a list of nodes it is
  `pass`. The node that a round ends at is the `start` of the next one.

  Proved: on a circle a round passes the nodes in their order, each at most once
  (`scan_path`), and a node that a round does not get to is so many places
  nearer in the next one as the round visited nodes (`idxOf_next`).
-/

import Mathlib.Data.List.Basic
import Divas.Lib.Links

namespace Divas.Lib.RoundRobin

open Divas.Lib.Links

universe u v

variable {α : Type u} {σ : Type v} (next : σ → α → α) (turn : σ → α → σ) (stops : σ → Bool)

/-- `do { n = next (n); turn; } while (!stops && n != start)`: the nodes visited, and the state. -/
def scan [DecidableEq α] (start : α) : Nat → α → σ → List α × σ
  | 0, _, s => ([], s)
  | fuel + 1, n, s =>
    let n := next s n
    let s := turn s n
    if !stops s && n != start then
      let r := scan start fuel n s
      (n :: r.1, r.2)
    else ([n], s)

/-- A round over a list. -/
def pass : List α → σ → List α × σ
  | [], s => ([], s)
  | n :: ns, s =>
    let s := turn s n
    if stops s then ([n], s)
    else
      let r := pass ns s
      (n :: r.1, r.2)

variable {next turn stops} {start n x : α} {s : σ}

/-- The links are the same after a turn: a round over the nodes of a path to `start`. -/
theorem scan_path [DecidableEq α] (hturn : ∀ s n, next (turn s n) = next s) {xs : List α} {fuel : Nat}
    (h : Path (next s) (next s n) xs start) (hstart : start ∉ xs) (hfuel : xs.length < fuel) :
    scan next turn stops start fuel n s = pass turn stops (xs ++ [start]) s := by
  induction xs generalizing fuel n s with
  | nil =>
    obtain ⟨k, rfl⟩ : ∃ k, fuel = k + 1 := ⟨fuel - 1, by simp at hfuel; omega⟩
    have hn : next s n = start := h
    unfold scan
    simp only [hn, List.nil_append, pass, bne_self_eq_false, Bool.and_false, Bool.false_eq_true, if_false]
    split <;> rfl
  | cons y xs ih =>
    obtain ⟨k, rfl⟩ : ∃ k, fuel = k + 1 := ⟨fuel - 1, by simp at hfuel; omega⟩
    obtain ⟨hn, hpath⟩ := h
    rw [List.mem_cons, not_or] at hstart
    have hne : (y != start) = true := by simpa using Ne.symm hstart.1
    have hrest : scan next turn stops start k y (turn s y) = pass turn stops (xs ++ [start]) (turn s y) :=
      ih (by rw [hturn]; exact hpath) hstart.2 (by simpa using hfuel)
    unfold scan
    simp only [hn, hne, Bool.and_true, List.cons_append, pass, hrest]
    cases stops (turn s y) with
    | false => simp
    | true => simp

/-! ## The next round -/

/-- A circle seen from another of its nodes. -/
theorem cycle_turn {f : α → α} {pre post : List α} (h : Cycle f (start :: (pre ++ n :: post))) :
    Cycle f (n :: (post ++ start :: pre)) := by
  obtain ⟨c, hpre, hc, hpost⟩ := path_append.mp h
  subst hc
  exact path_append.mpr ⟨start, hpost, rfl, hpre⟩

/-- The order of a round that begins behind `n`, after one that ended there. -/
theorem idxOf_next [DecidableEq α] {pre post : List α} (h : x ∉ pre ++ [n]) (hx : x ∈ pre ++ n :: post) :
    (post ++ (pre ++ [n])).idxOf x + (pre.length + 1) = (pre ++ n :: post).idxOf x := by
  have hsplit : pre ++ n :: post = (pre ++ [n]) ++ post := by simp
  rw [hsplit] at hx ⊢
  have hpost : x ∈ post := (List.mem_append.mp hx).resolve_left h
  rw [List.idxOf_append_of_mem hpost, List.idxOf_append_of_notMem h, List.length_append, List.length_singleton]
  omega

end Divas.Lib.RoundRobin
