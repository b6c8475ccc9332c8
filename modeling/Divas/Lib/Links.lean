/-
  Divas.Lib.Links — singly linked lists.

  The links are a function `next`. `Path next a L b` says that the nodes from `a` on are
  `L` and that the link of the last one is `b`; `Cycle next L` that `L` is a circle, and
  `Chain next z head tail L` that `L` is a queue from `head` to `tail`.
  Proved: circles when a node is inserted behind the first one, when a node is unlinked,
  and when links elsewhere change; queues when the first node leaves (`Chain.pop`) and
  when one comes behind the last (`Chain.push`).
-/

import Mathlib.Logic.Function.Basic
import Mathlib.Data.List.Induction
import Mathlib.Data.List.Nodup

namespace Divas.Lib.Links

universe u

variable {α : Type u} {next next' : α → α}

def Path (next : α → α) : α → List α → α → Prop
  | a, [], b => a = b
  | a, x :: xs, b => a = x ∧ Path next (next x) xs b

theorem path_append {a b : α} {xs ys : List α} : Path next a (xs ++ ys) b ↔ ∃ c, Path next a xs c ∧ Path next c ys b := by
  induction xs generalizing a with
  | nil => simp [Path]
  | cons x xs ih => simp [Path, ih, and_assoc]

theorem path_congr {a b : α} {xs : List α} (h : ∀ x, x ∈ xs → next x = next' x) :
    Path next a xs b ↔ Path next' a xs b := by
  induction xs generalizing a with
  | nil => rfl
  | cons x xs ih =>
    have hx := h x List.mem_cons_self
    have ih' := ih (a := next' x) fun y hy => h y (List.mem_cons_of_mem x hy)
    simp only [Path, hx, ih']

def Cycle (next : α → α) : List α → Prop
  | [] => True
  | x :: xs => Path next (next x) xs x

theorem cycle_congr {xs : List α} (h : ∀ x, x ∈ xs → next x = next' x) : Cycle next xs ↔ Cycle next' xs := by
  cases xs with
  | nil => rfl
  | cons x xs =>
    show Path next (next x) xs x ↔ Path next' (next' x) xs x
    rw [h x List.mem_cons_self]
    exact path_congr fun y hy => h y (List.mem_cons_of_mem x hy)

/-- The link inside a circle. -/
theorem cycle_next {i n : α} {xs ys : List α} (h : Cycle next (xs ++ i :: n :: ys)) : next i = n := by
  cases xs with
  | nil => exact h.1
  | cons x xs =>
    obtain ⟨c, -, h2, h3, -⟩ := path_append.1 h
    exact h3

/-- The link that closes a circle. -/
theorem cycle_last {i n : α} {xs : List α} (h : Cycle next (n :: (xs ++ [i]))) : next i = n := by
  obtain ⟨c, -, -, h3⟩ := path_append.1 h
  exact h3

/-! ## Queues -/

/-- The nodes of a queue from `head` to `tail`; `z` is no node. -/
structure Chain (next : α → α) (z head tail : α) (Q : List α) : Prop where
  path : Path next head Q z
  last : tail = Q.getLast?.getD z
  nodup : Q.Nodup
  null : z ∉ Q

section Chain

variable {z head tail : α} {Q : List α}

theorem Chain.nil (next : α → α) (z : α) : Chain next z z z [] := ⟨rfl, rfl, List.nodup_nil, List.not_mem_nil⟩

theorem Chain.head_eq (h : Chain next z head tail Q) : head = Q.head?.getD z := by
  cases Q with
  | nil => exact h.path
  | cons x Q => exact h.path.1

theorem Chain.empty_iff (h : Chain next z head tail Q) : head = z ↔ Q = [] := by
  have hhead := h.head_eq
  cases Q with
  | nil => exact ⟨fun _ => rfl, fun _ => hhead⟩
  | cons x Q =>
    refine ⟨fun hz => ?_, fun hn => nomatch hn⟩
    refine absurd ?_ h.null
    rw [← hz, hhead]
    exact List.mem_cons_self

/-- Links of other nodes change. -/
theorem Chain.congr (h : Chain next z head tail Q) (hs : ∀ x, x ∈ Q → next x = next' x) : Chain next' z head tail Q :=
  ⟨(path_congr hs).mp h.path, h.last, h.nodup, h.null⟩

end Chain

/-- The nodes up to the last one with a property. -/
theorem exists_trim (P : α → Prop) (L : List α) : ∃ front rest, L = front ++ rest ∧ (∀ x ∈ rest, ¬ P x) ∧
    ∀ x, front.getLast? = some x → P x := by
  induction L using List.reverseRecOn with
  | nil => exact ⟨[], [], rfl, (fun x hx => nomatch hx), fun x hx => nomatch hx⟩
  | append_singleton L y ih =>
    by_cases hy : P y
    · refine ⟨L ++ [y], [], (List.append_nil _).symm, (fun x hx => nomatch hx), ?_⟩
      intro x hx
      rw [List.getLast?_concat] at hx
      cases hx
      exact hy
    · obtain ⟨front, rest, hL, hrest, hlast⟩ := ih
      refine ⟨front, rest ++ [y], ?_, ?_, hlast⟩
      · rw [hL, List.append_assoc]
      · intro x hx
        rcases List.mem_append.mp hx with hx | hx
        · exact hrest x hx
        · rw [List.mem_singleton.mp hx]
          exact hy

/-! ## Links that change -/

variable [DecidableEq α]

theorem path_update {a b y z : α} {xs : List α} (h : y ∉ xs) : Path (Function.update next y z) a xs b ↔ Path next a xs b :=
  path_congr fun _ hx => Function.update_of_ne (fun e => h (by rwa [e] at hx)) _ _

theorem cycle_update {y z : α} {xs : List α} (h : y ∉ xs) : Cycle (Function.update next y z) xs ↔ Cycle next xs :=
  cycle_congr fun _ hx => Function.update_of_ne (fun e => h (by rwa [e] at hx)) _ _

theorem cycle_single (next : α → α) (n : α) : Cycle (Function.update next n n) [n] := by
  show Function.update next n n n = n
  rw [Function.update_self]

/-- Insert `n` behind `r`. -/
theorem cycle_insert {r n : α} {xs : List α} (h : Cycle next (r :: xs)) (hd : (r :: xs).Nodup) (hn : n ∉ r :: xs) :
    Cycle (Function.update (Function.update next n (next r)) r n) (r :: n :: xs) := by
  have hr : r ∉ xs := (List.nodup_cons.1 hd).1
  rw [List.mem_cons, not_or] at hn
  refine ⟨Function.update_self .., ?_⟩
  rw [Function.update_of_ne hn.1, Function.update_self, path_update hr, path_update hn.2]
  exact h

/-- Unlink the node behind `i`. -/
theorem cycle_unlink {i n : α} {xs ys : List α} (h : Cycle next (xs ++ i :: n :: ys)) (hd : (xs ++ i :: n :: ys).Nodup) :
    Cycle (Function.update next i (next n)) (xs ++ i :: ys) := by
  rw [List.nodup_append] at hd
  obtain ⟨-, hd2, hd3⟩ := hd
  have hxs : i ∉ xs := fun hi => hd3 i hi i List.mem_cons_self rfl
  have hys : i ∉ ys := fun hi => (List.nodup_cons.1 hd2).1 (List.mem_cons_of_mem n hi)
  cases xs with
  | nil =>
    show Path _ (Function.update next i (next n) i) ys i
    rw [Function.update_self, path_update hys]
    exact h.2
  | cons x xs =>
    rw [List.mem_cons, not_or] at hxs
    obtain ⟨c, h1, h2, h3, h4⟩ := path_append.1 h
    subst h2
    refine path_append.2 ⟨c, ?_, rfl, ?_⟩
    · rw [Function.update_of_ne (Ne.symm hxs.1), path_update hxs.2]
      exact h1
    · rw [Function.update_self, path_update hys]
      exact h4

/-- Unlink the first node; the one before it becomes the first. -/
theorem cycle_unlink_first {i n : α} {xs : List α} (h : Cycle next (n :: (xs ++ [i]))) (hd : (n :: (xs ++ [i])).Nodup) :
    Cycle (Function.update next i (next n)) (i :: xs) := by
  have hi : i ∉ xs := by
    intro hi
    have := (List.nodup_append.1 (List.nodup_cons.1 hd).2).2.2 i hi i List.mem_cons_self
    exact this rfl
  obtain ⟨c, h1, h2, -⟩ := path_append.1 h
  subst h2
  show Path _ (Function.update next c (next n) c) xs c
  rw [Function.update_self, path_update hi]
  exact h1

/-! ## Queues that change -/

section Chain

variable {z head tail : α} {Q : List α}

/-- The first node leaves. -/
theorem Chain.pop {x : α} (h : Chain next z head tail (x :: Q)) : Chain next z (next x) (if next x = z then z else tail) Q := by
  obtain ⟨-, hpath⟩ := h.path
  obtain ⟨-, hnodup⟩ := List.nodup_cons.mp h.nodup
  have hnull : z ∉ Q := fun hz => h.null (List.mem_cons_of_mem x hz)
  refine ⟨hpath, ?_, hnodup, hnull⟩
  cases Q with
  | nil => exact if_pos hpath
  | cons y Q =>
    have hne : next x ≠ z := by
      rw [hpath.1]
      exact fun hz => hnull (by rw [hz]; exact List.mem_cons_self)
    rw [if_neg hne, h.last]
    rfl

theorem Chain.push_nil {x : α} (hx : x ≠ z) : Chain (Function.update next x z) z x x [x] := by
  refine ⟨⟨rfl, Function.update_self ..⟩, rfl, List.nodup_singleton x, ?_⟩
  rw [List.mem_singleton]
  exact hx.symm

/-- A node comes behind the last one. -/
theorem Chain.push {x : α} (h : Chain next z head tail Q) (hne : Q ≠ []) (hx : x ∉ Q) (hz : x ≠ z) :
    Chain (Function.update (Function.update next x z) tail x) z head x (Q ++ [x]) := by
  obtain ⟨ys, y, rfl⟩ : ∃ ys y, Q = ys ++ [y] := ⟨Q.dropLast, Q.getLast hne, (List.dropLast_append_getLast hne).symm⟩
  have htail : tail = y := by
    rw [h.last, List.getLast?_concat]
    rfl
  subst htail
  have hnodup := List.nodup_append.mp h.nodup
  have hys : tail ∉ ys := fun hm => hnodup.2.2 tail hm tail List.mem_cons_self rfl
  rw [List.mem_append, not_or, List.mem_singleton] at hx
  obtain ⟨c, hpath, hc, -⟩ := path_append.mp h.path
  subst hc
  refine ⟨?_, ?_, ?_, ?_⟩
  · rw [path_append]
    refine ⟨x, path_append.mpr ⟨c, ?_, rfl, Function.update_self ..⟩, rfl, ?_⟩
    · rw [path_update hys, path_update hx.1]
      exact hpath
    · show Function.update (Function.update next x z) c x x = z
      rw [Function.update_of_ne hx.2, Function.update_self]
  · rw [List.getLast?_concat]
    rfl
  · rw [List.nodup_append]
    refine ⟨h.nodup, List.nodup_singleton x, ?_⟩
    intro u hu v hv
    rw [List.mem_singleton.mp hv]
    rintro rfl
    rcases List.mem_append.mp hu with hu | hu
    · exact hx.1 hu
    · exact hx.2 (List.mem_singleton.mp hu)
  · rw [List.mem_append, not_or, List.mem_singleton]
    exact ⟨h.null, hz.symm⟩

end Chain

end Divas.Lib.Links
