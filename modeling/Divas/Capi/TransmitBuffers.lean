/-
  Divas.Capi.TransmitBuffers — the transmit buffers of an application (capifunc.c).

  `xbuffer_table` has two anchors and behind them an element for each buffer. An element
  is in the ring of the used buffers or in that of the free ones. Indices are kept in a
  `word`. `XBufferAlloc` and `XBufferFree` take an element out of its ring and put it
  behind the anchor of theirs; neither looks where it was.

  Proved: as long as the indices fit into a `word`, every run of allocations and frees
  leaves two rings that have every element once, the used ones are those that were
  allocated last, and `XBufferNext` names a free one if there is any (`transmit_lists`).
-/

import Mathlib.Data.List.Induction
import Mathlib.Data.List.Perm.Basic
import Divas.Lib.Rings
import Divas.Lib.Run

namespace Divas.Capi.XBuffer

open Divas.Lib.Rings Divas.Lib.Run

/-- `xbuffer_table`: `next_i` and `prev_i` of each entry. -/
abbrev XbufferTable := Links Nat

def usedAnchor : Nat := 0
def freeAnchor : Nat := 1
def anchorCount : Nat := 2

/-- `XBufferNext`. -/
def xBufferNext (t : XbufferTable) : Int := t.next freeAnchor - anchorCount

/-- A turn of the loop of `XBufferInit`: the element behind the last one. -/
def xBufferInitTurn (t : XbufferTable) (i : Nat) : XbufferTable :=
  let t := t.setPrev (anchorCount + i) (t.prev freeAnchor)
  let t := t.setNext (anchorCount + i) freeAnchor
  let t := t.setNext (t.prev freeAnchor) ((anchorCount + i) % 65536)
  t.setPrev freeAnchor ((anchorCount + i) % 65536)

def xBufferInitLoop (t : XbufferTable) : Nat → XbufferTable
  | 0 => t
  | n + 1 => xBufferInitTurn (xBufferInitLoop t n) n

/-- Both rings without elements. -/
def xBufferAnchors (t : XbufferTable) : XbufferTable :=
  let t := t.setPrev usedAnchor usedAnchor
  let t := t.setNext usedAnchor usedAnchor
  let t := t.setPrev freeAnchor freeAnchor
  t.setNext freeAnchor freeAnchor

def xBufferInit (t : XbufferTable) (n : Nat) : XbufferTable := xBufferInitLoop (xBufferAnchors t) n

/-- The six assignments of `XBufferAlloc` and `XBufferFree`. -/
def relink (t : XbufferTable) (anchor e : Nat) : XbufferTable :=
  let i := (e + anchorCount) % 65536
  (t.unlink i).link anchor i

def xBufferAlloc (t : XbufferTable) (e : Nat) : XbufferTable := relink t usedAnchor e

def xBufferFree (t : XbufferTable) (e : Nat) : XbufferTable := relink t freeAnchor e

/-! ## Runs -/

inductive XBufferEv where
  | alloc (e : Nat)
  | free (e : Nat)
  deriving DecidableEq

def XBufferEv.element : XBufferEv → Nat
  | alloc e => e
  | free e => e

def step (t : XbufferTable) : XBufferEv → XbufferTable
  | .alloc e => xBufferAlloc t e
  | .free e => xBufferFree t e

/-- What was done last with an element. -/
def lastOf (ops : List XBufferEv) (e : Nat) : Option XBufferEv := ops.reverse.find? (·.element == e)

/-- The entry of an element. -/
def entry (e : Nat) : Nat := e + anchorCount

/-- The two rings, and every element in one of them, once. -/
structure Listed (n : Nat) (t : XbufferTable) (used free : List Nat) : Prop where
  usedRing : Ring t usedAnchor (used.map entry)
  freeRing : Ring t freeAnchor (free.map entry)
  all : (used ++ free).Perm (List.range n)

variable {n e : Nat} {t : XbufferTable} {used free : List Nat}

theorem entry_injective : Function.Injective entry := fun _ _ h => Nat.add_right_cancel h

theorem mem_entries {i : Nat} {es : List Nat} (h : i ∈ es.map entry) : anchorCount ≤ i := by
  obtain ⟨e, -, rfl⟩ := List.mem_map.1 h
  exact Nat.le_add_left _ _

theorem Listed.mem_iff (h : Listed n t used free) : e ∈ used ++ free ↔ e < n := by
  rw [h.all.mem_iff, List.mem_range]

theorem Listed.nodup (h : Listed n t used free) : (used ++ free).Nodup := h.all.nodup_iff.2 List.nodup_range

/-- The anchors and the entries of all elements differ. -/
theorem entries_nodup (hd : (used ++ free).Nodup) {a b : Nat} (ha : a < anchorCount) (hb : b < anchorCount) (hab : a ≠ b) :
    ((a :: used.map entry) ++ (b :: free.map entry)).Nodup := by
  have hmap := hd.map entry_injective
  rw [List.map_append] at hmap
  have hau : a ∉ used.map entry := fun hm => Nat.not_le_of_lt ha (mem_entries hm)
  have haf : a ∉ free.map entry := fun hm => Nat.not_le_of_lt ha (mem_entries hm)
  have hbu : b ∉ used.map entry := fun hm => Nat.not_le_of_lt hb (mem_entries hm)
  have hbf : b ∉ free.map entry := fun hm => Nat.not_le_of_lt hb (mem_entries hm)
  rw [List.cons_append, List.nodup_cons, List.nodup_middle, List.nodup_cons]
  refine ⟨?_, ?_, hmap⟩
  · simp [hau, haf, hab]
  · simp [hbu, hbf]

/-- An element that goes to the front of one of two lists. -/
theorem perm_move {xs ys : List Nat} (he : e ∈ xs ++ ys) (hd : (xs ++ ys).Nodup) :
    (e :: xs.erase e ++ ys.erase e).Perm (xs ++ ys) := by
  rcases List.mem_append.1 he with hx | hy
  · have hy : e ∉ ys := fun hy => (List.nodup_append.1 hd).2.2 e hx e hy rfl
    rw [List.erase_of_not_mem hy]
    exact (List.perm_cons_erase hx).symm.append_right ys
  · have hx : e ∉ xs := fun hx => (List.nodup_append.1 hd).2.2 e hx e hy rfl
    rw [List.erase_of_not_mem hx, List.cons_append]
    exact List.perm_middle.symm.trans ((List.perm_cons_erase hy).symm.append_left xs)

theorem Listed.alloc (h : Listed n t used free) (hn : n < 65535) (he : e < n) :
    Listed n (xBufferAlloc t e) (e :: used.erase e) (free.erase e) := by
  have hd := h.nodup
  have hmem := h.mem_iff.2 he
  have hi : (e + anchorCount) % 65536 = entry e := Nat.mod_eq_of_lt (by simp only [anchorCount]; omega)
  have hm := h.usedRing.move h.freeRing (entries_nodup hd (by decide) (by decide) (by decide)) (i := entry e) (by
    rw [← List.map_append]
    exact List.mem_map_of_mem hmem)
  unfold xBufferAlloc relink
  simp only [hi]
  refine ⟨?_, ?_, ?_⟩
  · rw [List.map_cons, List.map_erase entry_injective]
    exact hm.1
  · rw [List.map_erase entry_injective]
    exact hm.2
  · exact (perm_move hmem hd).trans h.all

theorem Listed.freed (h : Listed n t used free) (hn : n < 65535) (he : e < n) :
    Listed n (xBufferFree t e) (used.erase e) (e :: free.erase e) := by
  have hd : (free ++ used).Nodup := List.perm_append_comm.nodup_iff.1 h.nodup
  have hmem : e ∈ free ++ used := List.perm_append_comm.mem_iff.1 (h.mem_iff.2 he)
  have hi : (e + anchorCount) % 65536 = entry e := Nat.mod_eq_of_lt (by simp only [anchorCount]; omega)
  have hm := h.freeRing.move h.usedRing (entries_nodup hd (by decide) (by decide) (by decide)) (i := entry e) (by
    rw [← List.map_append]
    exact List.mem_map_of_mem hmem)
  unfold xBufferFree relink
  simp only [hi]
  refine ⟨?_, ?_, ?_⟩
  · rw [List.map_erase entry_injective]
    exact hm.2
  · rw [List.map_cons, List.map_erase entry_injective]
    exact hm.1
  · exact List.perm_append_comm.trans ((perm_move hmem hd).trans (List.perm_append_comm.trans h.all))

/-! ## `XBufferInit` -/

theorem xBufferInitTurn_eq (t : XbufferTable) {i : Nat} (hi : i < 65534) :
    xBufferInitTurn t i = t.linkLast freeAnchor (entry i) := by
  have hword : (anchorCount + i) % 65536 = entry i := by
    rw [entry, Nat.add_comm, Nat.mod_eq_of_lt (by simp only [anchorCount]; omega)]
  unfold xBufferInitTurn Links.linkLast
  simp only [hword]
  rw [Nat.add_comm anchorCount i]
  rfl

theorem listed_anchors (t : XbufferTable) : Listed 0 (xBufferAnchors t) [] [] := by
  refine ⟨⟨?_, ?_⟩, ⟨?_, ?_⟩, List.Perm.refl _⟩ <;> rfl

/-- The elements become free in their order. -/
theorem listed_init (t : XbufferTable) (hn : n < 65535) : Listed n (xBufferInit t n) [] (List.range n) := by
  show Listed n (xBufferInitLoop (xBufferAnchors t) n) [] (List.range n)
  induction n with
  | zero => exact listed_anchors t
  | succ n ih =>
    have h := ih (by omega)
    have hd := entries_nodup h.nodup (a := usedAnchor) (b := freeAnchor) (by decide) (by decide) (by decide)
    have hnew : entry n ∉ freeAnchor :: usedAnchor :: (List.range n).map entry := by
      simp [entry, freeAnchor, usedAnchor, anchorCount]
    rw [xBufferInitLoop, xBufferInitTurn_eq _ (by omega)]
    refine ⟨?_, ?_, ?_⟩
    · exact h.freeRing.linkLast_other h.usedRing (by grind) (by grind)
    · rw [List.range_succ, List.map_append]
      exact h.freeRing.linkLast (by grind) (by grind)
    · simp [List.Perm.refl]

/-! ## Runs keep the rings -/

theorem lastOf_append (ops : List XBufferEv) (op : XBufferEv) (e : Nat) :
    lastOf (ops ++ [op]) e = if op.element = e then some op else lastOf ops e := by
  by_cases h : op.element = e
  · simp [lastOf, h]
  · simp [lastOf, h]

/-- The rings after a run, with the elements that were allocated last in the first one. -/
structure Tracked (n : Nat) (ops : List XBufferEv) (t : XbufferTable) (used free : List Nat) : Prop where
  listed : Listed n t used free
  last : ∀ e, e ∈ used ↔ lastOf ops e = some (.alloc e)

theorem Tracked.step {ops : List XBufferEv} (h : Tracked n ops t used free) (hn : n < 65535) {op : XBufferEv}
    (hop : op.element < n) : ∃ used' free', Tracked n (ops ++ [op]) (step t op) used' free' := by
  have hd : used.Nodup := (List.nodup_append.1 h.listed.nodup).1
  cases op with
  | alloc e =>
    refine ⟨_, _, h.listed.alloc hn hop, fun x => ?_⟩
    rw [lastOf_append]
    by_cases hx : x = e
    · simp [hx, XBufferEv.element]
    · have hxe : ¬ e = x := fun heq => hx heq.symm
      simp [hx, hxe, XBufferEv.element, List.mem_erase_of_ne, h.last]
  | free e =>
    refine ⟨_, _, h.listed.freed hn hop, fun x => ?_⟩
    rw [lastOf_append, hd.mem_erase_iff]
    by_cases hx : x = e
    · simp [hx, XBufferEv.element]
    · have hxe : ¬ e = x := fun heq => hx heq.symm
      simp [hx, hxe, XBufferEv.element, h.last]

theorem tracked_run (t : XbufferTable) (hn : n < 65535) {ops : List XBufferEv} (hops : ∀ op, op ∈ ops → op.element < n) :
    ∃ used free, Tracked n ops (run step (xBufferInit t n) ops) used free := by
  induction ops using List.reverseRecOn with
  | nil => exact ⟨[], List.range n, listed_init t hn, fun e => by simp [lastOf]⟩
  | append_singleton ops op ih =>
    obtain ⟨used, free, h⟩ := ih fun o ho => hops o (List.mem_append_left _ ho)
    rw [run_append]
    exact h.step hn (hops op (by simp))

/-- `XBufferNext` is the first free element, or negative. -/
theorem Listed.next_eq (h : Listed n t used free) : xBufferNext t = (free.head?.elim (-1) fun e => (e : Int)) := by
  unfold xBufferNext
  rw [h.freeRing.next_eq]
  cases free with
  | nil => rfl
  | cons e free => simp [entry, anchorCount]

/-- With fewer than 65535 elements: after every sequence of `XBufferAlloc` and
    `XBufferFree` the used and the free elements are two rings, linked in both directions,
    which have every element once; an element is used when it was allocated last, and
    `XBufferNext` is a free element or, when there is none, negative. -/
theorem transmit_lists (t₀ : XbufferTable) (hn : n < 65535) {ops : List XBufferEv} (hops : ∀ op, op ∈ ops → op.element < n) :
    let t := run step (xBufferInit t₀ n) ops
    ∃ used free, Ring t usedAnchor (used.map entry) ∧ Ring t freeAnchor (free.map entry) ∧
      (used ++ free).Perm (List.range n) ∧
      (∀ e, e < n → (e ∈ used ↔ lastOf ops e = some (.alloc e))) ∧
      (free ≠ [] → ∃ e, e ∈ free ∧ e < n ∧ xBufferNext t = e) ∧
      (xBufferNext t < 0 ↔ free = []) := by
  intro t
  obtain ⟨used, free, h⟩ := tracked_run t₀ hn hops
  have hnext : xBufferNext t = _ := h.listed.next_eq
  refine ⟨used, free, h.listed.usedRing, h.listed.freeRing, h.listed.all, fun e _ => h.last e, fun hne => ?_, ?_⟩
  · obtain ⟨e, rest, rfl⟩ := List.exists_cons_of_ne_nil hne
    exact ⟨e, by simp, h.listed.mem_iff.1 (by simp), hnext⟩
  · rw [hnext]
    cases free with
    | nil => simp
    | cons e rest => simp

theorem transmit_lists_three : ∃ used free : List Nat, (used ++ free).Perm (List.range 3) ∧
    (2 ∈ used ↔ lastOf [.alloc 0, .alloc 2, .alloc 0, .free 2] 2 = some (.alloc 2)) := by
  obtain ⟨used, free, -, -, hall, hlast, -⟩ := @transmit_lists 3 ⟨fun _ => 0, fun _ => 0⟩ (by decide)
    [.alloc 0, .alloc 2, .alloc 0, .free 2] (by decide)
  exact ⟨used, free, hall, hlast 2 (by decide)⟩

theorem xBufferInit_prev (t : XbufferTable) (n : Nat) :
    (xBufferInit t (n + 1)).prev freeAnchor = (anchorCount + n) % 65536 := by
  show (xBufferInitTurn (xBufferInitLoop (xBufferAnchors t) n) n).prev freeAnchor = _
  simp [xBufferInitTurn, Links.setPrev]

/-- The index of the last one of 65535 elements does not fit into a `word`: the anchor of
    the free elements is linked to that of the used ones. -/
theorem transmit_lists_word :
    ¬ ∃ used free, Listed 65535 (run step (xBufferInit ⟨fun _ => 0, fun _ => 0⟩ 65535) []) used free := by
  intro h
  obtain ⟨used, free, h⟩ := h
  have hprev : (xBufferInit ⟨fun _ => 0, fun _ => 0⟩ 65535).prev freeAnchor = 0 :=
    xBufferInit_prev ⟨fun _ => 0, fun _ => 0⟩ 65534
  have hmem : (xBufferInit ⟨fun _ => 0, fun _ => 0⟩ 65535).prev freeAnchor ∈ freeAnchor :: free.map entry :=
    Span.prev_mem h.freeRing
  rw [hprev] at hmem
  simp [freeAnchor, entry, anchorCount] at hmem

end Divas.Capi.XBuffer
