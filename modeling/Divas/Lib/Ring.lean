/-
  Divas.Lib.Ring — cyclic buffers of `N` slots.

  A buffer is a table of slots, the index of its oldest entry and the number of its
  entries; `ring` is the list of the entries, oldest first. Code keeps the indices in
  range in two ways: it starts again at 0 when an index reaches `N` (`bump`), and it
  takes `N` off a sum that is not below `N` (`wrap`); both are remainders.

  Proved: the first entry and the rest (`ring_succ`), the last entry (`ring_snoc`),
  what a write at the free slot does (`ring_push`), and that other writes do nothing
  (`ring_congr`).
-/

import Mathlib.Data.Nat.ModEq
import Mathlib.Logic.Function.Basic

namespace Divas.Lib.Ring

universe u

variable {α : Type u} {N : Nat}

/-- The `n` entries from index `out` on. -/
def ring (N : Nat) (f : Nat → α) (out n : Nat) : List α := (List.range n).map fun k => f ((out + k) % N)

def bump (N i : Nat) : Nat := if i + 1 = N then 0 else i + 1

def wrap (N i : Nat) : Nat := if N ≤ i then i - N else i

theorem bump_lt {i : Nat} (h : i < N) : bump N i < N := by
  unfold bump; split <;> omega

theorem bump_eq {i : Nat} (h : i < N) : bump N i = (i + 1) % N := by
  unfold bump
  split
  · rename_i e; rw [e, Nat.mod_self]
  · rw [Nat.mod_eq_of_lt (by omega)]

theorem wrap_eq {i : Nat} (h : i < N + N) : wrap N i = i % N := by
  unfold wrap
  split
  · rw [Nat.mod_eq_sub_mod (by omega), Nat.mod_eq_of_lt (by omega)]
  · rw [Nat.mod_eq_of_lt (by omega)]

@[simp] theorem ring_zero (f : Nat → α) (out : Nat) : ring N f out 0 = [] := rfl

@[simp] theorem ring_length (f : Nat → α) (out n : Nat) : (ring N f out n).length = n := by simp [ring]

theorem ring_succ (f : Nat → α) {out : Nat} (h : out < N) (n : Nat) :
    ring N f out (n + 1) = f out :: ring N f (bump N out) n := by
  have hshift : ∀ k, (out + (k + 1)) % N = (bump N out + k) % N := by
    intro k
    rw [bump_eq h, Nat.mod_add_mod, Nat.add_assoc, Nat.add_comm 1 k]
  simp only [ring, List.range_succ_eq_map, List.map_cons, List.map_map, Nat.add_zero, Nat.mod_eq_of_lt h]
  congr 1
  apply List.map_congr_left
  intro k _
  simp only [Function.comp_apply, Nat.succ_eq_add_one, hshift]

theorem ring_snoc (f : Nat → α) (out n : Nat) : ring N f out (n + 1) = ring N f out n ++ [f ((out + n) % N)] := by
  simp [ring, List.range_succ]

theorem ring_congr {f g : Nat → α} {out n : Nat} (h : ∀ k, k < n → f ((out + k) % N) = g ((out + k) % N)) :
    ring N f out n = ring N g out n := by
  apply List.map_congr_left
  intro k hk
  exact h k (List.mem_range.mp hk)

/-- Different offsets below `N` are different slots. -/
theorem slot_inj {out j k : Nat} (hj : j < N) (hk : k < N) (h : (out + j) % N = (out + k) % N) : j = k := by
  have h' : j % N = k % N := Nat.ModEq.add_left_cancel' out h
  rwa [Nat.mod_eq_of_lt hj, Nat.mod_eq_of_lt hk] at h'

/-- A write at the free slot after the last entry appends. -/
theorem ring_push (f : Nat → α) {out n : Nat} (hout : out < N) (hn : n < N) (v : α) :
    ring N (Function.update f (wrap N (out + n)) v) out (n + 1) = ring N f out n ++ [v] := by
  rw [wrap_eq (by omega), ring_snoc, Function.update_self]
  congr 1
  apply ring_congr
  intro k hk
  exact Function.update_of_ne (fun e => by have := slot_inj (by omega) hn e; omega) _ _

end Divas.Lib.Ring
