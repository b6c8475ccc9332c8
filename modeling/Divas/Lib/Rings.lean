/-
  Divas.Lib.Rings — doubly linked rings with an anchor.

  The links of all nodes are two functions. `Span l a xs b` says that the nodes `xs` stand
  between `a` and `b`, linked in both directions; `Ring l a xs` that they stand between
  `a` and itself. A node leaves the ring that it is in (`unlink`), whichever that is, and
  enters one behind its anchor (`link`) or in front of it (`linkLast`).

  Proved: what each of them does to the ring (`Ring.unlink`, `Ring.link`, `Ring.linkLast`) and
  to another one, and that a node of one of two rings goes into the first (`Ring.move`).
-/

import Mathlib.Logic.Function.Basic
import Mathlib.Data.List.Nodup

namespace Divas.Lib.Rings

universe u

variable {α : Type u}

structure Links (α : Type u) where
  next : α → α
  prev : α → α

/-- The nodes from `a` to `b`. -/
def Span (l : Links α) : α → List α → α → Prop
  | a, [], b => l.next a = b ∧ l.prev b = a
  | a, x :: xs, b => (l.next a = x ∧ l.prev x = a) ∧ Span l x xs b

def Ring (l : Links α) (a : α) (xs : List α) : Prop := Span l a xs a

variable {l l' : Links α} {a b i : α} {xs ys : List α}

theorem span_append : Span l a (xs ++ i :: ys) b ↔ Span l a xs i ∧ Span l i ys b := by
  induction xs generalizing a with
  | nil => rfl
  | cons x xs ih => simp [Span, ih, and_assoc]

theorem Span.congr (h : Span l a xs b) (hn : ∀ x, x ∈ a :: xs → l'.next x = l.next x)
    (hp : ∀ x, x ∈ xs ++ [b] → l'.prev x = l.prev x) : Span l' a xs b := by
  induction xs generalizing a with
  | nil =>
    obtain ⟨hnext, hprev⟩ := h
    exact ⟨by rw [hn a (by simp), hnext], by rw [hp b (by simp), hprev]⟩
  | cons x xs ih =>
    obtain ⟨⟨hnext, hprev⟩, hrest⟩ := h
    refine ⟨⟨by rw [hn a (by simp), hnext], by rw [hp x (by simp), hprev]⟩, ih hrest ?_ ?_⟩
    · exact fun y hy => hn y (List.mem_cons_of_mem a hy)
    · exact fun y hy => hp y (List.mem_cons_of_mem x hy)

theorem Ring.congr (h : Ring l a xs) (hn : ∀ x, x ∈ a :: xs → l'.next x = l.next x)
    (hp : ∀ x, x ∈ a :: xs → l'.prev x = l.prev x) : Ring l' a xs :=
  Span.congr h hn fun x hx => hp x (by simpa [or_comm] using hx)

theorem Span.prev_mem (h : Span l a xs b) : l.prev b ∈ a :: xs := by
  induction xs generalizing a with
  | nil => simp [h.2]
  | cons x xs ih => exact List.mem_cons_of_mem a (ih h.2)

theorem Span.next_mem (h : Span l a xs b) : l.next a ∈ xs ++ [b] := by
  cases xs with
  | nil => simp [h.1]
  | cons x xs => simp [h.1.1]

/-- The node behind the anchor. -/
theorem Ring.next_eq (h : Ring l a xs) : l.next a = xs.headD a := by
  cases xs with
  | nil => exact h.1
  | cons x xs => exact h.1.1

variable [DecidableEq α]

namespace Links

def setNext (l : Links α) (i v : α) : Links α := { l with next := Function.update l.next i v }

def setPrev (l : Links α) (i v : α) : Links α := { l with prev := Function.update l.prev i v }

/-- The neighbours of a node are linked to each other. -/
def unlink (l : Links α) (i : α) : Links α :=
  let l := l.setNext (l.prev i) (l.next i)
  l.setPrev (l.next i) (l.prev i)

/-- A node between the anchor and the one behind it. -/
def link (l : Links α) (a i : α) : Links α :=
  let l := l.setNext i (l.next a)
  let l := l.setPrev i a
  let l := l.setPrev (l.next a) i
  l.setNext a i

/-- A node between the one in front of the anchor and the anchor. -/
def linkLast (l : Links α) (a i : α) : Links α :=
  let l := l.setPrev i (l.prev a)
  let l := l.setNext i a
  let l := l.setNext (l.prev a) i
  l.setPrev a i

end Links

theorem unlink_next (l : Links α) (i j : α) : (l.unlink i).next j = if j = l.prev i then l.next i else l.next j := by
  simp [Links.unlink, Links.setNext, Links.setPrev, Function.update_apply]

theorem unlink_prev (h : i ≠ l.prev i) (j : α) : (l.unlink i).prev j = if j = l.next i then l.prev i else l.prev j := by
  simp [Links.unlink, Links.setNext, Links.setPrev, Function.update_apply, h]

theorem Span.unlink (ha : Span l a xs i) (hb : Span l i ys b) (hi : i ≠ l.prev i) (hn : (a :: (xs ++ ys)).Nodup)
    (hp : (xs ++ (ys ++ [b])).Nodup) : Span (l.unlink i) a (xs ++ ys) b := by
  induction xs generalizing a with
  | nil =>
    obtain ⟨hia, hpi⟩ := ha
    cases ys with
    | nil =>
      obtain ⟨hib, hpb⟩ := hb
      refine ⟨?_, ?_⟩
      · rw [unlink_next, hpi, if_pos rfl, hib]
      · rw [unlink_prev hi, hib, if_pos rfl, hpi]
    | cons y ys =>
      obtain ⟨⟨hiy, hpy⟩, hrest⟩ := hb
      refine ⟨⟨?_, ?_⟩, hrest.congr (fun x hx => ?_) fun x hx => ?_⟩
      · rw [unlink_next, hpi, if_pos rfl, hiy]
      · rw [unlink_prev hi, hiy, if_pos rfl, hpi]
      · have hxa : x ≠ a := fun heq => (List.nodup_cons.1 hn).1 (by rwa [heq] at hx)
        rw [unlink_next, hpi, if_neg hxa]
      · have hxy : x ≠ y := fun heq => (List.nodup_cons.1 hp).1 (by rwa [heq] at hx)
        rw [unlink_prev hi, hiy, if_neg hxy]
  | cons x xs ih =>
    obtain ⟨⟨hax, hpx⟩, hrest⟩ := ha
    rw [List.cons_append, List.nodup_cons] at hn hp
    refine ⟨⟨?_, ?_⟩, ih hrest hn.2 hp.2⟩
    · have hne : a ≠ l.prev i := fun heq => hn.1 (by
        have hmem := hrest.prev_mem
        rw [← heq] at hmem
        exact List.mem_append_left ys hmem)
      rw [unlink_next, if_neg hne, hax]
    · have hne : x ≠ l.next i := fun heq => hp.1 (by
        have hmem := hb.next_mem
        rw [← heq] at hmem
        exact List.mem_append_right xs hmem)
      rw [unlink_prev hi, if_neg hne, hpx]

/-- A node of a ring leaves it. -/
theorem Ring.unlink (h : Ring l a (xs ++ i :: ys)) (hd : (a :: (xs ++ i :: ys)).Nodup) : Ring (l.unlink i) a (xs ++ ys) := by
  obtain ⟨ha, hb⟩ := span_append.1 h
  obtain ⟨hna, hd⟩ := List.nodup_cons.1 hd
  obtain ⟨hni, hd⟩ := List.nodup_cons.1 (List.nodup_middle.1 hd)
  have hna' : a ∉ xs ++ ys := fun hm => hna (by grind)
  refine ha.unlink hb (fun heq => ?_) (List.nodup_cons.2 ⟨hna', hd⟩) ?_
  · have hmem := ha.prev_mem
    rw [← heq] at hmem
    rcases List.mem_cons.1 hmem with hmem | hmem
    · exact hna (by simp [hmem])
    · exact hni (List.mem_append_left ys hmem)
  · rw [← List.append_assoc]
    exact List.nodup_append.2 ⟨hd, List.nodup_singleton a, fun x hx y hy heq => hna' (by
      rwa [heq, List.mem_singleton.1 hy] at hx)⟩

/-- Another ring does not change. -/
theorem Ring.unlink_other {c : α} {zs : List α} (h : Ring l a (xs ++ i :: ys)) (hz : Ring l c zs)
    (hd : ∀ x, x ∈ c :: zs → x ∉ a :: (xs ++ i :: ys)) : Ring (l.unlink i) c zs := by
  obtain ⟨ha, hb⟩ := span_append.1 h
  have hprev : l.prev i ∈ a :: (xs ++ i :: ys) := by
    have hmem := ha.prev_mem
    grind
  have hnext : l.next i ∈ a :: (xs ++ i :: ys) := by
    have hmem := hb.next_mem
    grind
  refine hz.congr (fun x hx => ?_) fun x hx => ?_
  · rw [unlink_next, if_neg fun heq => hd x hx (by rwa [heq])]
  · show Function.update l.prev (Function.update l.next (l.prev i) (l.next i) i) (l.prev i) x = _
    refine Function.update_of_ne (fun heq => hd x hx ?_) _ _
    rw [heq, Function.update_apply]
    split <;> exact hnext

/-! ## A node enters a ring -/

theorem link_next (j : α) :
    (l.link a i).next j = if j = a then i else if j = i then l.next a else l.next j := by
  simp [Links.link, Links.setNext, Links.setPrev, Function.update_apply]

theorem link_prev (hi : i ≠ a) (j : α) :
    (l.link a i).prev j = if j = l.next a then i else if j = i then a else l.prev j := by
  simp [Links.link, Links.setNext, Links.setPrev, Function.update_apply, hi.symm]

/-- A node becomes the first one. -/
theorem Ring.link (h : Ring l a xs) (hd : (a :: xs).Nodup) (hi : i ∉ a :: xs) : Ring (l.link a i) a (i :: xs) := by
  have hia : i ≠ a := fun heq => hi (by simp [heq])
  have hnext := h.next_eq
  refine ⟨⟨?_, ?_⟩, ?_⟩
  · rw [link_next, if_pos rfl]
  · have hne : i ≠ l.next a := fun heq => hi (by
      rw [heq]
      simpa [or_comm] using Span.next_mem h)
    rw [link_prev hia, if_neg hne, if_pos rfl]
  · cases xs with
    | nil =>
      refine ⟨?_, ?_⟩
      · rw [link_next, if_neg hia, if_pos rfl, hnext]
        rfl
      · rw [link_prev hia, hnext]
        exact if_pos rfl
    | cons x xs =>
      have hrest := h.2
      rw [List.headD_cons] at hnext
      refine ⟨⟨?_, ?_⟩, hrest.congr (fun y hy => ?_) fun y hy => ?_⟩
      · rw [link_next, if_neg hia, if_pos rfl, hnext]
      · rw [link_prev hia, hnext, if_pos rfl]
      · have hya : y ≠ a := fun heq => (List.nodup_cons.1 hd).1 (by rwa [heq] at hy)
        have hyi : y ≠ i := fun heq => hi (by rw [heq] at hy; exact List.mem_cons_of_mem a hy)
        rw [link_next, if_neg hya, if_neg hyi]
      · have hyx : y ≠ x := by grind
        have hyi : y ≠ i := by grind
        rw [link_prev hia, hnext, if_neg hyx, if_neg hyi]

/-- Another ring does not change. -/
theorem Ring.link_other {c : α} {zs : List α} (h : Ring l a xs) (hz : Ring l c zs) (hi : i ∉ a :: c :: zs)
    (hd : ∀ x, x ∈ c :: zs → x ∉ a :: xs) : Ring (l.link a i) c zs := by
  have hia : i ≠ a := fun heq => hi (by simp [heq])
  refine hz.congr (fun x hx => ?_) fun x hx => ?_
  · have hxa : x ≠ a := fun heq => hd x hx (by simp [heq])
    have hxi : x ≠ i := fun heq => hi (by rw [heq] at hx; exact List.mem_cons_of_mem a hx)
    rw [link_next, if_neg hxa, if_neg hxi]
  · have hxn : x ≠ l.next a := fun heq => hd x hx (by
      rw [heq]
      simpa [or_comm] using Span.next_mem h)
    have hxi : x ≠ i := fun heq => hi (by rw [heq] at hx; exact List.mem_cons_of_mem a hx)
    rw [link_prev hia, if_neg hxn, if_neg hxi]

/-- A node goes from one of two rings into the first one, whichever it was in. -/
theorem Ring.move {c : α} {zs : List α} (hx : Ring l a xs) (hz : Ring l c zs) (hd : ((a :: xs) ++ (c :: zs)).Nodup)
    (hi : i ∈ xs ++ zs) :
    Ring ((l.unlink i).link a i) a (i :: xs.erase i) ∧ Ring ((l.unlink i).link a i) c (zs.erase i) := by
  obtain ⟨hdx, hdz, hdxz⟩ := List.nodup_append.1 hd
  have hxz : ∀ x, x ∈ c :: zs → x ∉ a :: xs := fun x hc ha => hdxz x ha x hc rfl
  -- Both rings are left as rings without the node.
  have hout : Ring (l.unlink i) a (xs.erase i) ∧ Ring (l.unlink i) c (zs.erase i) := by
    rcases List.mem_append.1 hi with hi | hi
    · obtain ⟨as, bs, rfl⟩ := List.append_of_mem hi
      have hias : i ∉ as := by grind
      have hizs : i ∉ zs := by grind
      rw [List.erase_append_right _ hias, List.erase_cons_head, List.erase_of_not_mem hizs]
      exact ⟨hx.unlink hdx, hx.unlink_other hz hxz⟩
    · obtain ⟨as, bs, rfl⟩ := List.append_of_mem hi
      have hias : i ∉ as := by grind
      have hixs : i ∉ xs := by grind
      rw [List.erase_append_right _ hias, List.erase_cons_head, List.erase_of_not_mem hixs]
      exact ⟨hz.unlink_other hx fun x ha hc => hxz x hc ha, hz.unlink hdz⟩
  have hxi : i ∉ a :: xs.erase i := by
    have := (List.nodup_cons.1 hdx).2.not_mem_erase (a := i)
    grind
  have hzi : i ∉ c :: zs.erase i := by
    have := (List.nodup_cons.1 hdz).2.not_mem_erase (a := i)
    grind
  refine ⟨hout.1.link ?_ hxi, hout.1.link_other hout.2 ?_ ?_⟩
  · exact List.Nodup.sublist (List.erase_sublist.cons_cons a) hdx
  · exact fun hm => (List.mem_cons.1 hm).elim (fun heq => hxi (by simp [heq])) hzi
  · intro x hc ha
    exact hxz x ((List.erase_sublist.cons_cons c).subset hc) ((List.erase_sublist.cons_cons a).subset ha)

theorem linkLast_next (hi : i ≠ a) (j : α) :
    (l.linkLast a i).next j = if j = l.prev a then i else if j = i then a else l.next j := by
  simp [Links.linkLast, Links.setNext, Links.setPrev, Function.update_apply, hi.symm]

theorem linkLast_prev (j : α) :
    (l.linkLast a i).prev j = if j = a then i else if j = i then l.prev a else l.prev j := by
  simp [Links.linkLast, Links.setNext, Links.setPrev, Function.update_apply]

theorem Span.linkLast {c : α} (h : Span l c xs a) (hd : (c :: xs).Nodup) (hx : a ∉ xs) (hi : i ∉ a :: c :: xs) :
    Span (l.linkLast a i) c (xs ++ [i]) a := by
  have hia : i ≠ a := fun heq => hi (by simp [heq])
  induction xs generalizing c with
  | nil =>
    have hip : i ≠ c := fun heq => hi (by simp [heq])
    refine ⟨⟨?_, ?_⟩, ?_, ?_⟩
    · rw [linkLast_next hia, if_pos h.2.symm]
    · rw [linkLast_prev, if_neg hia, if_pos rfl, h.2]
    · rw [linkLast_next hia, h.2, if_neg hip, if_pos rfl]
    · rw [linkLast_prev, if_pos rfl]
  | cons x xs ih =>
    obtain ⟨⟨hcx, hpx⟩, hrest⟩ := h
    have hmem := hrest.prev_mem
    refine ⟨⟨?_, ?_⟩, ih hrest (List.nodup_cons.1 hd).2 (by grind) (by grind)⟩
    · have hne : c ≠ l.prev a := fun heq => (List.nodup_cons.1 hd).1 (by rwa [heq])
      have hci : c ≠ i := by grind
      rw [linkLast_next hia, if_neg hne, if_neg hci, hcx]
    · have hxa : x ≠ a := by grind
      have hxi : x ≠ i := by grind
      rw [linkLast_prev, if_neg hxa, if_neg hxi, hpx]

/-- A node becomes the last one. -/
theorem Ring.linkLast (h : Ring l a xs) (hd : (a :: xs).Nodup) (hi : i ∉ a :: xs) : Ring (l.linkLast a i) a (xs ++ [i]) :=
  Span.linkLast h hd (List.nodup_cons.1 hd).1 (by simpa using hi)

/-- Another ring does not change. -/
theorem Ring.linkLast_other {c : α} {zs : List α} (h : Ring l a xs) (hz : Ring l c zs) (hi : i ∉ a :: c :: zs)
    (hd : ∀ x, x ∈ c :: zs → x ∉ a :: xs) : Ring (l.linkLast a i) c zs := by
  have hia : i ≠ a := fun heq => hi (by simp [heq])
  refine hz.congr (fun x hx => ?_) fun x hx => ?_
  · have hxp : x ≠ l.prev a := fun heq => hd x hx (by
      rw [heq]
      exact Span.prev_mem h)
    have hxi : x ≠ i := fun heq => hi (by rw [heq] at hx; exact List.mem_cons_of_mem a hx)
    rw [linkLast_next hia, if_neg hxp, if_neg hxi]
  · have hxa : x ≠ a := fun heq => hd x hx (by simp [heq])
    have hxi : x ≠ i := fun heq => hi (by rw [heq] at hx; exact List.mem_cons_of_mem a hx)
    rw [linkLast_prev, if_neg hxa, if_neg hxi]

end Divas.Lib.Rings
