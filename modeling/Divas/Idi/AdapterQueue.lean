/-
  Divas.Idi.AdapterQueue — the request queue of an adapter.

  Proved, for all runs whose steps meet `QueueOk`: the slots from `head` on are a list that
  ends at `tail`, each is the slot of an entity with blocks still to send, and the entities
  that have been queued are those whose blocks the card has got and then those in the list,
  in this order (`step_queued`).

  `Queued` is the invariant. A step takes a slot from the queue or touches one outside it,
  changes its entity, and then puts it at the end of the queue or leaves it at rest; in
  between the slot is neither, which is `Between`.
-/

import Divas.Lib.Links
import Divas.Idi.AdapterTables
import Divas.Idi.AdapterBlocks

namespace Divas.Idi

open Divas.Lib.Links Divas.Lib.Run

/-! ## The queue -/

def Linked (a : Adapter) (Q : List Nat) : Prop := Chain (fun i => (a.eTbl i).next) 0 a.head a.tail Q

/-- An entity with `k` blocks of its request sent, and at least one to come. -/
structure Waiting (e : Entity) (k : Nat) : Prop where
  busy : e.more &&& xbusy ≠ 0
  unsent : e.more &&& xmoref = 0
  count : counted e.more ≤ k
  partly : e.more &&& xmorep ≠ 0 ↔ 0 < k
  chain : 0 < k → e.id % 32 ≠ 0 ∧ e.mInd ≠ 0
  position : Position e k
  fits : e.id % 32 ≠ 0 → e.mInd ≠ 0 → blocks e.x ≤ 15 ∧ (e.req = uremove → blocks e.x ≤ 1)

/-- An entity with nothing to send. A block of it waits for a return code only while it is busy, and has an Id. -/
structure Rested (e : Entity) : Prop where
  sent : e.more &&& xmorep = 0
  idle : e.more &&& xbusy = 0 ∨ e.id % 32 = 0 → counted e.more = 0

theorem Rested.same {e e' : Entity} (h : Rested e) (hmore : e'.more = e.more) (hid : e'.id = e.id) : Rested e' := by
  refine ⟨?_, ?_⟩
  · rw [hmore]
    exact h.sent
  · rw [hmore, hid]
    exact h.idle

theorem rested_new {e : Entity} (h : e.more = 0) : Rested e := by
  refine ⟨?_, ?_⟩
  · rw [h]
    decide
  · intro _
    rw [h]
    decide

structure Queued (a : Adapter) (Q : List Nat) : Prop where
  linked : Linked a Q
  waiting : ∀ i ∈ Q, ∃ p k, (a.eTbl i).e = some p ∧ Waiting (a.ent p) k
  rest : ∀ i p, (a.eTbl i).e = some p → i ∉ Q → Rested (a.ent p)
  fifo : a.put = a.out.map (·.e) ++ Q.filterMap fun i => (a.eTbl i).e

/-- As `Queued`, but slot `i` is not in the queue and may be in any state. -/
structure Between (a : Adapter) (Q : List Nat) (i : Nat) : Prop where
  linked : Linked a Q
  out : i ∉ Q
  waiting : ∀ j ∈ Q, ∃ p k, (a.eTbl j).e = some p ∧ Waiting (a.ent p) k
  rest : ∀ j p, (a.eTbl j).e = some p → j ∉ Q → j ≠ i → Rested (a.ent p)
  fifo : a.put = a.out.map (·.e) ++ Q.filterMap fun i => (a.eTbl i).e

section Links

variable {a : Adapter} {Q : List Nat} {i : Nat}

theorem next_setSlot (a : Adapter) (i : Nat) (t : Slot) :
    (fun j => ((a.setSlot i t).eTbl j).next) = Function.update (fun j => (a.eTbl j).next) i t.next := by
  funext j
  by_cases hj : j = i
  · rw [hj, Adapter.setSlot_self, Function.update_self]
  · rw [Adapter.setSlot_of_ne a hj, Function.update_of_ne hj]

theorem Linked.reqQueue (h : Linked a Q) (hi : i ∉ Q) (hpos : i ≠ 0) (hbyte : i < 256) : Linked (a.reqQueue i) (Q ++ [i]) := by
  have hempty : a.head = 0 ↔ Q = [] := h.empty_iff
  unfold Adapter.reqQueue
  dsimp only
  split
  case isFalse hz =>
    have hQ := hempty.mp (not_not.mp hz)
    rw [hQ, List.nil_append]
    show Chain (fun j => ((a.setSlot i { a.eTbl i with next := 0 }).eTbl j).next) 0 i i [i]
    rw [next_setSlot]
    exact Chain.push_nil hpos
  case isTrue hne =>
    have hpush := h.push (fun hQ => hne (hempty.mpr hQ)) hi hpos
    show Chain (fun j => (((a.setSlot i { a.eTbl i with next := 0 }).setSlot a.tail
      { (a.setSlot i { a.eTbl i with next := 0 }).eTbl a.tail with next := i % 256 }).eTbl j).next) 0 a.head i (Q ++ [i])
    rw [next_setSlot, next_setSlot, Nat.mod_eq_of_lt hbyte]
    exact hpush

theorem Linked.nextReq (h : Linked a (i :: Q)) : Linked a.nextReq Q := by
  have hhead : a.head = i := h.head_eq
  have hpop := h.pop
  unfold Linked Adapter.nextReq
  dsimp only
  rw [hhead]
  split
  case isTrue hz =>
    rw [if_pos hz] at hpop
    exact hpop
  case isFalse hz =>
    rw [if_neg hz] at hpop
    exact hpop

theorem Linked.setSlot (h : Linked a Q) (hi : i ∉ Q) (t : Slot) : Linked (a.setSlot i t) Q := by
  show Chain (fun j => ((a.setSlot i t).eTbl j).next) 0 a.head a.tail Q
  rw [next_setSlot]
  refine h.congr ?_
  intro j hj
  rw [Function.update_of_ne]
  rintro rfl
  exact hi hj

theorem reqQueue_rest (a : Adapter) (i : Nat) : (a.reqQueue i).ent = a.ent ∧ (a.reqQueue i).out = a.out ∧
    (a.reqQueue i).put = a.put ++ (a.eTbl i).e.toList := by
  unfold Adapter.reqQueue
  dsimp only
  split <;> exact ⟨rfl, rfl, rfl⟩

end Links

/-! ## A slot outside the queue -/

section Between

variable {a b : Adapter} {Q : List Nat} {i p k : Nat}

/-- The slot of an entity is the only one with it. -/
theorem Tables.slot_eq (ht : Tables a) {j : Nat} (hi : (a.eTbl i).e = some p) (hj : (a.eTbl j).e = some p) : j = i :=
  (ht.slot j p hj).2.2.symm.trans (ht.slot i p hi).2.2

theorem Queued.between (h : Queued a Q) (hi : i ∉ Q) : Between a Q i :=
  ⟨h.linked, hi, h.waiting, fun j p hp hj _ => h.rest j p hp hj, h.fifo⟩

theorem Between.close (h : Between a Q i) (hi : ∀ p, (a.eTbl i).e = some p → Rested (a.ent p)) : Queued a Q := by
  refine ⟨h.linked, h.waiting, ?_, h.fifo⟩
  intro j p hp hj
  by_cases hji : j = i
  · subst hji
    exact hi p hp
  · exact h.rest j p hp hj hji

/-- What the queue does not depend on. -/
theorem Between.congr (h : Between a Q i) (htbl : b.eTbl = a.eTbl) (hent : b.ent = a.ent) (hhead : b.head = a.head)
    (htail : b.tail = a.tail) (hput : b.put = a.put) (hout : b.out = a.out) : Between b Q i := by
  refine ⟨?_, h.out, ?_, ?_, ?_⟩
  · unfold Linked
    rw [htbl, hhead, htail]
    exact h.linked
  · rw [htbl, hent]
    exact h.waiting
  · rw [htbl, hent]
    exact h.rest
  · rw [htbl, hput, hout]
    exact h.fifo

theorem Between.setEnt (h : Between a Q i) (hp : ∀ j, (a.eTbl j).e = some p → j = i) (e : Entity) :
    Between (a.setEnt p e) Q i := by
  have hother : ∀ j q, (a.eTbl j).e = some q → j ≠ i → (a.setEnt p e).ent q = a.ent q := by
    intro j q hq hj
    apply Adapter.setEnt_of_ne
    rintro rfl
    exact hj (hp j hq)
  refine ⟨h.linked, h.out, ?_, ?_, h.fifo⟩
  · intro j hj
    obtain ⟨q, k, hq, hw⟩ := h.waiting j hj
    refine ⟨q, k, hq, ?_⟩
    rw [hother j q hq (fun hji => h.out (hji ▸ hj))]
    exact hw
  · intro j q hq hj hji
    rw [hother j q hq hji]
    exact h.rest j q hq hj hji

theorem Between.setSlot (h : Between a Q i) (t : Slot) : Between (a.setSlot i t) Q i := by
  have hold : ∀ j, j ≠ i → (a.setSlot i t).eTbl j = a.eTbl j := fun j hj => Adapter.setSlot_of_ne a hj t
  have hne : ∀ j ∈ Q, j ≠ i := by
    rintro j hj rfl
    exact h.out hj
  refine ⟨h.linked.setSlot h.out t, h.out, ?_, ?_, ?_⟩
  · intro j hj
    rw [hold j (hne j hj)]
    exact h.waiting j hj
  · intro j q hq hj hji
    rw [hold j hji] at hq
    exact h.rest j q hq hj hji
  · show a.put = _
    rw [h.fifo]
    congr 1
    apply List.filterMap_congr
    intro j hj
    rw [hold j (hne j hj)]

/-- A waiting entity is put at the end. -/
theorem Between.push (h : Between a Q i) (hpos : i ≠ 0) (hbyte : i < 256) (hp : (a.eTbl i).e = some p)
    (hw : Waiting (a.ent p) k) :
    Queued (a.reqQueue i) (Q ++ [i]) := by
  obtain ⟨hent, hout, hput⟩ := reqQueue_rest a i
  have hslots := (SameTables.reqQueue a i).slots
  refine ⟨h.linked.reqQueue h.out hpos hbyte, ?_, ?_, ?_⟩
  · intro j hj
    rw [hent, hslots j]
    rcases List.mem_append.mp hj with hj | hj
    · exact h.waiting j hj
    · rw [List.mem_singleton.mp hj]
      exact ⟨p, k, hp, hw⟩
  · intro j q hq hj
    rw [hslots j] at hq
    rw [List.mem_append, not_or, List.mem_singleton] at hj
    rw [hent]
    exact h.rest j q hq hj.1 hj.2
  · rw [hput, hout, hp, h.fifo, List.append_assoc, List.filterMap_append]
    congr 1
    congr 1
    · apply List.filterMap_congr
      intro j _
      rw [hslots j]
    · rw [List.filterMap_cons_some (f := fun j => ((a.reqQueue i).eTbl j).e) ((hslots i).trans hp)]
      rfl

/-- The first slot leaves the queue, and a block of its entity is sent. -/
theorem Queued.pop (h : Queued a (i :: Q)) (hp : (a.eTbl i).e = some p) {b : Block} (hb : b.e = p) :
    Between (a.nextReq.emit b) Q i := by
  obtain ⟨hout, htbl, hent⟩ := nextReq_out a
  have hput : a.nextReq.put = a.put := by
    unfold Adapter.nextReq
    dsimp only
    split <;> rfl
  obtain ⟨hi, -⟩ := List.nodup_cons.mp h.linked.nodup
  refine ⟨h.linked.nextReq, hi, ?_, ?_, ?_⟩
  · intro j hj
    show ∃ p k, (a.nextReq.eTbl j).e = some p ∧ Waiting (a.nextReq.ent p) k
    rw [htbl, hent]
    exact h.waiting j (List.mem_cons_of_mem i hj)
  · intro j q hq hj hji
    change (a.nextReq.eTbl j).e = some q at hq
    show Rested (a.nextReq.ent q)
    rw [htbl] at hq
    rw [hent]
    refine h.rest j q hq ?_
    rw [List.mem_cons, not_or]
    exact ⟨hji, hj⟩
  · show a.nextReq.put = (a.nextReq.out ++ [b]).map (·.e) ++ Q.filterMap fun i => (a.nextReq.eTbl i).e
    rw [hput, hout, htbl, h.fifo, List.filterMap_cons_some (f := fun j => (a.eTbl j).e) hp, List.map_append, List.append_assoc,
      List.map_singleton, hb]
    rfl

/-- An entity in the queue goes on waiting. -/
theorem Queued.setEnt (h : Queued a Q) (ht : Tables a) (hi : i ∈ Q) (hp : (a.eTbl i).e = some p) {e : Entity} (hw : Waiting e k) :
    Queued (a.setEnt p e) Q := by
  refine ⟨h.linked, ?_, ?_, h.fifo⟩
  · intro j hj
    obtain ⟨q, k', hq, hw'⟩ := h.waiting j hj
    by_cases hqp : q = p
    · subst hqp
      refine ⟨q, k, hq, ?_⟩
      rw [Adapter.setEnt_self]
      exact hw
    · refine ⟨q, k', hq, ?_⟩
      rw [Adapter.setEnt_of_ne a hqp]
      exact hw'
  · intro j q hq hj
    rw [Adapter.setEnt_of_ne]
    · exact h.rest j q hq hj
    · rintro rfl
      rw [ht.slot_eq hp hq] at hj
      exact hj hi

end Between

/-! ## Requests -/

/-- The request of a client: its entity does not wait for a callback; an ASSIGN comes from an entity without a slot, and one
    slot more than it needs is free; else the Id stays, and the data needs at most 15 blocks, with an UREMOVE one. -/
def AskOk (a : Adapter) (q : Ask) : Prop :=
  let e := a.ent q.p
  if q.id.getD e.id % 32 = 0 then q.req ≠ uremove ∧ (∀ i, (a.eTbl i).e ≠ some q.p) ∧ a.eCount + 1 < a.eMax
  else
    q.id.getD e.id = e.id ∧ (a.eTbl e.no).e = some q.p ∧ e.more &&& xbusy = 0 ∧
      (e.mInd ≠ 0 → blocks q.x ≤ if q.req = uremove then 1 else 15)

section Ask

variable {a : Adapter} {Q : List Nat} {i p : Nat}

theorem AskOk.tables {q : Ask} (h : AskOk a q) : TablesOk a (.ask q) := by
  unfold AskOk at h
  unfold TablesOk
  dsimp only at h ⊢
  split at h
  case isTrue hassign =>
    rw [if_pos hassign]
    exact h
  case isFalse hassign =>
    rw [if_neg hassign]
    exact h.1

theorem waiting_start {e : Entity} (hrest : Rested e) (hbusy : e.more &&& xbusy = 0)
    (hfits : e.id % 32 ≠ 0 → e.mInd ≠ 0 → blocks e.x ≤ 15 ∧ (e.req = uremove → blocks e.x ≤ 1)) :
    Waiting { e with more := (e.more ||| xbusy) &&& ~~~xmoref, xCurrent := 0, xOffset := 0 } 0 := by
  obtain ⟨hb, hpart, hun, hcount⟩ := more_start e.more hrest.sent (hrest.idle (Or.inl hbusy))
  refine ⟨hb, hun, Nat.le_of_eq hcount, ?_, fun h => absurd h (Nat.lt_irrefl 0), ?_, hfits⟩
  · exact ⟨fun h => absurd hpart h, fun h => absurd h (Nat.lt_irrefl 0)⟩
  · refine ⟨At.start e.x, ?_, fun h => absurd h (Nat.lt_irrefl 0)⟩
    show e.x.flatten.length = 270 * 0 + (left e.x 0 0).length
    rw [left_start]
    omega

theorem Between.start (h : Between a Q i) (hpos : i ≠ 0) (hbyte : i < 256) (hp : (a.eTbl i).e = some p)
    (hslot : ∀ j, (a.eTbl j).e = some p → j = i) (hrest : Rested (a.ent p)) (hbusy : (a.ent p).more &&& xbusy = 0)
    (hfits : (a.ent p).id % 32 ≠ 0 → (a.ent p).mInd ≠ 0 → blocks (a.ent p).x ≤ 15 ∧
      ((a.ent p).req = uremove → blocks (a.ent p).x ≤ 1)) :
    Queued (a.start p i) (Q ++ [i]) := by
  unfold Adapter.start
  dsimp only
  rw [if_neg (not_not.mpr hbusy)]
  refine (h.setEnt hslot _).push hpos hbyte hp (k := 0) ?_
  rw [Adapter.setEnt_self]
  exact waiting_start hrest hbusy hfits

/-- A slot at rest is not in the queue. -/
theorem Queued.not_mem (h : Queued a Q) (hp : (a.eTbl i).e = some p)
    (hm : (a.ent p).more &&& xbusy = 0 ∨ (a.ent p).more &&& xmoref ≠ 0) :
    i ∉ Q := by
  intro hi
  obtain ⟨q, k, hq, hw⟩ := h.waiting i hi
  rw [hp] at hq
  cases hq
  rcases hm with hm | hm
  · exact hw.busy hm
  · exact hm hw.unsent

/-- The slot that a request puts into the queue. -/
def Adapter.slotOf (a : Adapter) (q : Ask) : Nat := if q.id.getD (a.ent q.p).id % 32 = 0 then a.newSlot else (a.ent q.p).no

theorem Queued.ask (ht : Tables a) (h : Queued a Q) {q : Ask} (hok : AskOk a q) : Queued (a.ask q) (Q ++ [a.slotOf q]) ∧
    ((a.ask q).eTbl (a.slotOf q)).e = some q.p := by
  have hself := Adapter.setEnt_self a q.p
  unfold AskOk at hok
  dsimp only at hok
  unfold Adapter.ask Adapter.request Adapter.slotOf
  rw [hself]
  dsimp only
  by_cases hassign : q.id.getD (a.ent q.p).id % 32 = 0
  · rw [if_pos hassign] at hok
    obtain ⟨hreq, hout, hroom⟩ := hok
    have ht1 : Tables (a.setEnt q.p (Adapter.filledIn (a.ent q.p) q)) := ht.setEnt_out hout _
    obtain ⟨hpos, hmax, hfree⟩ := ht1.newSlot hroom
    have hcount : ¬ (a.setEnt q.p (Adapter.filledIn (a.ent q.p) q)).eMax
        ≤ (a.setEnt q.p (Adapter.filledIn (a.ent q.p) q)).eCount := by
      show ¬ a.eMax ≤ a.eCount
      omega
    have hsize : (a.setEnt q.p (Adapter.filledIn (a.ent q.p) q)).eMax ≤ 256 := ht1.size
    rw [if_pos (show (Adapter.filledIn (a.ent q.p) q).id % 32 = 0 from hassign), if_neg hcount]
    rw [if_pos hassign]
    change Queued
      (((((a.setEnt q.p (Adapter.filledIn (a.ent q.p) q)).takeSlot a.newSlot q.p).setEnt q.p _).start q.p a.newSlot)) _ ∧
      ((((((a.setEnt q.p (Adapter.filledIn (a.ent q.p) q)).takeSlot a.newSlot q.p).setEnt q.p _).start q.p a.newSlot)).eTbl _).e
        = _
    change 0 < a.newSlot at hpos
    change a.newSlot < _ at hmax
    change ((a.setEnt q.p (Adapter.filledIn (a.ent q.p) q)).eTbl a.newSlot).e = none at hfree
    generalize a.newSlot = i at hpos hmax hfree ⊢
    change (a.eTbl i).e = none at hfree
    have hi : i ∉ Q := by
      intro hi
      obtain ⟨r, k, hr, -⟩ := h.waiting i hi
      rw [hfree] at hr
      cases hr
    have hb := ((h.between hi).setEnt (fun j hj => absurd hj (hout j)) (Adapter.filledIn (a.ent q.p) q)).setSlot
      { a.eTbl i with e := some q.p }
    have hslot : ∀ j, (Function.update a.eTbl i { a.eTbl i with e := some q.p } j).e = some q.p → j = i := by
      intro j hj
      by_contra hji
      rw [Function.update_of_ne hji] at hj
      exact hout j hj
    refine ⟨?_, ?_⟩
    · refine Between.start ?_ (Nat.ne_of_gt hpos) (by omega) ?_ hslot ?_ ?_ ?_
      · exact (hb.congr (b := (a.setEnt q.p (Adapter.filledIn (a.ent q.p) q)).takeSlot i q.p) rfl rfl rfl rfl rfl rfl).setEnt
          hslot _
      · show (Function.update a.eTbl i { a.eTbl i with e := some q.p } i).e = some q.p
        rw [Function.update_self]
      · rw [Adapter.setEnt_self]
        exact rested_new rfl
      · rw [Adapter.setEnt_self]
        show (0 : BitVec 8) &&& xbusy = 0
        decide
      · rw [Adapter.setEnt_self]
        exact fun hspec => absurd hassign hspec
    · rw [(SameTables.start _ _ _).slots i]
      show (Function.update a.eTbl i { a.eTbl i with e := some q.p } i).e = some q.p
      rw [Function.update_self]
  · rw [if_neg hassign] at hok
    obtain ⟨hid, hp, hbusy, hdata⟩ := hok
    rw [if_neg (show ¬ (Adapter.filledIn (a.ent q.p) q).id % 32 = 0 from hassign), if_neg hassign]
    have hi := h.not_mem hp (Or.inl hbusy)
    obtain ⟨hpos, hmax, -⟩ := ht.slot _ _ hp
    have hsize := ht.size
    refine ⟨?_, ?_⟩
    · refine Between.start ((h.between hi).setEnt (fun j => ht.slot_eq hp) _) (Nat.ne_of_gt hpos) (by
        show (a.ent q.p).no < 256
        omega) hp (fun j => ht.slot_eq hp) ?_ ?_ ?_
      · rw [hself]
        exact (h.rest _ _ hp hi).same rfl hid
      · rw [hself]
        exact hbusy
      · rw [hself]
        intro _ hmind
        have hle := hdata hmind
        show blocks q.x ≤ 15 ∧ (q.req = uremove → blocks q.x ≤ 1)
        split at hle
        case isTrue hu => exact ⟨by omega, fun _ => hle⟩
        case isFalse hu => exact ⟨hle, fun hu' => absurd hu' hu⟩
    · rw [(SameTables.start _ _ _).slots]
      exact hp

end Ask

/-! ## A turn -/

theorem setEnt_setEnt (a : Adapter) (p : Nat) (e e' : Entity) : (a.setEnt p e).setEnt p e' = a.setEnt p e' := by
  unfold Adapter.setEnt
  rw [Function.update_idem]

/-- The entity behind a block, but for `More`. -/
def moved (e : Entity) : Entity := { e with xCurrent := (Adapter.nextData e).1, xOffset := (Adapter.nextData e).2.1 }

/-- Behind a block with more data behind it. -/
def movedOn (e : Entity) : Entity := { moved e with more := (e.more + 1) ||| xmorep }

/-- Behind the last block. -/
def finished (e : Entity) : Entity := { moved e with more := ((e.more + 1) ||| xmoref) &&& ~~~xmorep }

/-- Behind an ASSIGN. -/
def assigned (e : Entity) : Entity := { moved e with mInd := Adapter.mIndOf e.id, more := (e.more ||| xmoref) &&& ~~~xmorep }

/-- A block of the entity, with its code and the reference of its buffer. -/
def blockOf (p : Nat) (e : Entity) (req ref : Nat) : Block := ⟨p, e.id, e.reqCh, req, ref, (Adapter.nextData e).2.2⟩

section Send

variable {a : Adapter} {Q : List Nat} {i p k ref : Nat}

theorem send_more (hspec : (a.ent p).id % 32 ≠ 0)
    (hmore : (Adapter.nextData (a.ent p)).1 < (a.ent p).x.length ∧ (a.ent p).mInd ≠ 0) :
    a.send i p ref = ((a.emit (blockOf p (a.ent p) (a.ent p).mInd ref)).setEnt p (movedOn (a.ent p))).reqQueue (a.ent p).no := by
  unfold Adapter.send
  dsimp only
  rw [Adapter.setEnt_self]
  dsimp only
  rw [if_pos hspec, if_pos hmore]
  unfold Adapter.sendMore
  dsimp only
  rw [Adapter.setEnt_self, setEnt_setEnt]
  rfl

/-- The flags of slot `i` and of the channel, behind the last block of a request. -/
def noteLast (a : Adapter) (i : Nat) (e : Entity) : Adapter :=
  { a with
    flowControlSkipTable :=
      if a.flowControlIdTable e.reqCh = e.id then Function.update a.flowControlSkipTable e.reqCh true else a.flowControlSkipTable
    removePending := if e.req = remove then Function.update a.removePending i true else a.removePending }

theorem send_last (hspec : (a.ent p).id % 32 ≠ 0)
    (hlast : ¬ ((Adapter.nextData (a.ent p)).1 < (a.ent p).x.length ∧ (a.ent p).mInd ≠ 0)) :
    a.send i p ref = noteLast ((a.emit (blockOf p (a.ent p) (a.ent p).req ref)).setEnt p (finished (a.ent p))) i
      (a.ent p) := by
  unfold Adapter.send
  dsimp only
  rw [Adapter.setEnt_self]
  dsimp only
  rw [if_pos hspec, if_neg hlast]
  unfold Adapter.sendLast
  dsimp only
  rw [Adapter.setEnt_self, setEnt_setEnt]
  rfl

theorem Between.noteLast (h : Between a Q i) (e : Entity) : Between (noteLast a i e) Q i := h.congr rfl rfl rfl rfl rfl rfl

/-- The type of slot `i`. -/
def noteType (a : Adapter) (i id : Nat) : Adapter := { a with idTypeTable := Function.update a.idTypeTable i id }

theorem Between.noteType (h : Between a Q i) (j id : Nat) : Between (noteType a j id) Q i := h.congr rfl rfl rfl rfl rfl rfl

theorem Between.assignQueue (h : Between a Q i) (ref : Nat) : Between (a.assignQueue i ref) Q i :=
  (h.setSlot { a.eTbl i with assignRef := ref, next := a.assign % 256 }).congr rfl rfl rfl rfl rfl rfl

theorem send_assign (hassign : (a.ent p).id % 32 = 0) :
    a.send i p ref = (noteType ((a.emit (blockOf p (a.ent p) (a.ent p).req ref)).setEnt p (assigned (a.ent p))) (a.ent p).no
      (a.ent p).id).assignQueue (a.ent p).no ref := by
  unfold Adapter.send
  dsimp only
  rw [Adapter.setEnt_self]
  dsimp only
  rw [if_neg (not_not.mpr hassign)]
  unfold Adapter.sendAssign
  dsimp only
  rw [Adapter.setEnt_self, setEnt_setEnt]
  rfl

theorem Waiting.lt {e : Entity} (h : Waiting e k) (hspec : e.id % 32 ≠ 0)
    (hmore : (Adapter.nextData e).1 < e.x.length ∧ e.mInd ≠ 0) : k + 1 < 15 ∧ e.req ≠ uremove := by
  have hnext : Position (moved e) (k + 1) := h.position.next hmore.1 rfl rfl rfl
  have hlt := hnext.lt_blocks
  obtain ⟨hfew, hone⟩ := h.fits hspec hmore.2
  change k + 1 < blocks e.x at hlt
  refine ⟨by omega, ?_⟩
  intro hu
  have := hone hu
  omega

theorem Waiting.next {e : Entity} (h : Waiting e k) (hspec : e.id % 32 ≠ 0)
    (hmore : (Adapter.nextData e).1 < e.x.length ∧ e.mInd ≠ 0) :
    Waiting (movedOn e) (k + 1) := by
  obtain ⟨hlt, -⟩ := h.lt hspec hmore
  have hcount := h.count
  obtain ⟨hb, hpart, hun, hc⟩ := more_next e.more h.busy h.unsent (by omega)
  refine ⟨hb, hun, ?_, ⟨fun _ => Nat.succ_pos k, fun _ => hpart⟩, fun _ => ⟨hspec, hmore.2⟩, ?_, h.fits⟩
  · show counted ((e.more + 1) ||| xmorep) ≤ k + 1
    omega
  · exact h.position.next hmore.1 rfl rfl rfl

/-- The last block of a request, or the only one. -/
theorem Waiting.count_lt {e : Entity} (h : Waiting e k) : counted e.more < 15 := by
  have hcount := h.count
  by_cases hk : 0 < k
  · obtain ⟨hspec, hmind⟩ := h.chain hk
    have := h.position.lt_blocks
    have := (h.fits hspec hmind).1
    omega
  · omega

theorem Queued.head_eq (h : Queued a (i :: Q)) : a.head = i := h.linked.head_eq

theorem turn_eq (hhead : a.head = i) (hp : (a.eTbl i).e = some p) : a.turn ref = (a.nextReq.send i p ref, some p) := by
  obtain ⟨-, htbl, -⟩ := nextReq_out a
  unfold Adapter.turn
  dsimp only
  rw [htbl, hhead, hp]

/-- The slot at the head leaves the queue with the last block of its entity, else it goes to the end. -/
theorem Queued.turn (ht : Tables a) (h : Queued a (i :: Q)) (hp : (a.eTbl i).e = some p) (ref : Nat) :
    (Queued (a.nextReq.send i p ref) Q ∧ ((a.nextReq.send i p ref).ent p).more &&& xmoref ≠ 0) ∨
      (Queued (a.nextReq.send i p ref) (Q ++ [i]) ∧ (a.ent p).req ≠ uremove) := by
  obtain ⟨-, htbl, hent⟩ := nextReq_out a
  obtain ⟨hpos, hmax, hno⟩ := ht.slot i p hp
  have hsize := ht.size
  have hp' : (a.nextReq.eTbl i).e = some p := by
    rw [htbl]
    exact hp
  have hslot : ∀ j, (a.nextReq.eTbl j).e = some p → j = i := by
    intro j hj
    rw [htbl] at hj
    exact ht.slot_eq hp hj
  obtain ⟨q, k, hq, hw⟩ := h.waiting i List.mem_cons_self
  rw [hp] at hq
  cases hq
  rw [← hent] at hw hno ⊢
  by_cases hspec : (a.nextReq.ent p).id % 32 = 0
  · left
    rw [send_assign hspec, hno]
    obtain ⟨-, hpart, hsent, hc⟩ := more_assign (a.nextReq.ent p).more hw.busy
    have hself := Adapter.setEnt_self (a.nextReq.emit (blockOf p (a.nextReq.ent p) (a.nextReq.ent p).req ref)) p
      (assigned (a.nextReq.ent p))
    have hrest : Rested (assigned (a.nextReq.ent p)) := by
      refine ⟨hpart, ?_⟩
      intro _
      have hk : k = 0 := by
        by_contra hk
        exact (hw.chain (Nat.pos_of_ne_zero hk)).1 hspec
      have hle := hw.count
      show counted (((a.nextReq.ent p).more ||| xmoref) &&& ~~~xmorep) = 0
      omega
    have hb := (h.pop hp (b := blockOf p (a.nextReq.ent p) (a.nextReq.ent p).req ref) rfl).setEnt hslot
        (assigned (a.nextReq.ent p))
    refine ⟨((hb.noteType i (a.nextReq.ent p).id).assignQueue ref).close ?_, ?_⟩
    · intro q hq
      rw [(SameTables.assignQueue _ i ref).slots i] at hq
      change (a.nextReq.eTbl i).e = some q at hq
      rw [hp'] at hq
      cases hq
      show Rested (((a.nextReq.emit _).setEnt p _).ent p)
      rw [hself]
      exact hrest
    · show (((a.nextReq.emit (blockOf p (a.nextReq.ent p) (a.nextReq.ent p).req ref)).setEnt p _).ent p).more &&& xmoref ≠ 0
      rw [hself]
      exact hsent
  · by_cases hmore : (Adapter.nextData (a.nextReq.ent p)).1 < (a.nextReq.ent p).x.length ∧ (a.nextReq.ent p).mInd ≠ 0
    · right
      rw [send_more hspec hmore, hno]
      have hb := (h.pop hp (b := blockOf p (a.nextReq.ent p) (a.nextReq.ent p).mInd ref) rfl).setEnt hslot
          (movedOn (a.nextReq.ent p))
      refine ⟨hb.push (Nat.ne_of_gt hpos) (by omega) hp' (k := k + 1) ?_, (hw.lt hspec hmore).2⟩
      rw [Adapter.setEnt_self]
      exact hw.next hspec hmore
    · left
      rw [send_last hspec hmore]
      obtain ⟨hbusy, hpart, hsent, -⟩ := more_last (a.nextReq.ent p).more hw.busy hw.count_lt
      have hself := Adapter.setEnt_self (a.nextReq.emit (blockOf p (a.nextReq.ent p) (a.nextReq.ent p).req ref)) p
        (finished (a.nextReq.ent p))
      have hb := (h.pop hp (b := blockOf p (a.nextReq.ent p) (a.nextReq.ent p).req ref) rfl).setEnt hslot
          (finished (a.nextReq.ent p))
      refine ⟨(hb.noteLast (a.nextReq.ent p)).close ?_, ?_⟩
      · intro q hq
        change (a.nextReq.eTbl i).e = some q at hq
        rw [hp'] at hq
        cases hq
        show Rested (((a.nextReq.emit _).setEnt p _).ent p)
        rw [hself]
        exact ⟨hpart, fun hz => absurd hz (not_or.mpr ⟨hbusy, hspec⟩)⟩
      · show (((a.nextReq.emit _).setEnt p _).ent p).more &&& xmoref ≠ 0
        rw [hself]
        exact hsent

end Send

/-! ## A pass -/

section Pass

variable {a : Adapter} {Q : List Nat} {i p : Nat}

/-- Every turn of the pass meets the condition. -/
def PassAlong (C : Adapter → Nat → Prop) (refs : Nat → Nat) : Nat → Nat → Adapter → Prop
  | 0, _, _ => True
  | n + 1, count, a =>
    a.head ≠ 0 →
      C a (refs count) ∧ PassAlong C refs n (if (a.turn (refs count)).2.isSome then count + 1 else count) (a.turn (refs count)).1

/-- What a turn keeps under a condition, a pass keeps whose turns all meet it. -/
theorem loop_along {I : Adapter → Option Nat → Prop} {C : Adapter → Nat → Prop} (refs : Nat → Nat)
    (hturn : ∀ a this ref, I a this → a.head ≠ 0 → C a ref → I (a.turn ref).1 (a.turn ref).2) (n : Nat) :
    ∀ (count : Nat) (a : Adapter) (this : Option Nat), I a this → PassAlong C refs n count a →
      I (Adapter.prOutLoop refs n count a this).1 (Adapter.prOutLoop refs n count a this).2 := by
  induction n with
  | zero => exact fun count a this h _ => h
  | succ n ih =>
    intro count a this h hpass
    unfold Adapter.prOutLoop
    by_cases hhead : a.head = 0
    · rw [if_pos hhead]
      exact h
    · rw [if_neg hhead]
      obtain ⟨hnow, hrest⟩ := hpass hhead
      exact ih _ _ _ (hturn a this (refs count) h hhead hnow) hrest

theorem passAlong_true (refs : Nat → Nat) (n : Nat) : ∀ count a, PassAlong (fun _ _ => True) refs n count a := by
  induction n with
  | zero => exact fun _ _ => trivial
  | succ n ih => exact fun _ _ _ => ⟨trivial, ih _ _⟩

theorem loop_invariant {I : Adapter → Option Nat → Prop} (refs : Nat → Nat)
    (hturn : ∀ a this ref, I a this → a.head ≠ 0 → I (a.turn ref).1 (a.turn ref).2) (n count : Nat)
      (a : Adapter) (this : Option Nat)
    (h : I a this) : I (Adapter.prOutLoop refs n count a this).1 (Adapter.prOutLoop refs n count a this).2 :=
  loop_along refs (fun a this ref h hhead _ => hturn a this ref h hhead) n count a this h (passAlong_true refs n count a)

theorem Queued.first (h : Queued a Q) (hhead : a.head ≠ 0) : ∃ i p Q', Q = i :: Q' ∧ (a.eTbl i).e = some p := by
  cases Q with
  | nil => exact absurd (h.linked.empty_iff.mpr rfl) hhead
  | cons i Q =>
    obtain ⟨p, -, hp, -⟩ := h.waiting i List.mem_cons_self
    exact ⟨i, p, Q, rfl, hp⟩

/-- The entity of the last turn has a slot, which is not in the queue behind an UREMOVE. -/
def Passing (a : Adapter) (this : Option Nat) : Prop :=
  Tables a ∧ ∃ Q, Queued a Q ∧ ∀ p, this = some p → ∃ i, (a.eTbl i).e = some p ∧ ((a.ent p).req = uremove → i ∉ Q)

theorem Passing.turn (a : Adapter) (this : Option Nat) (ref : Nat) (h : Passing a this) (hhead : a.head ≠ 0) :
    Passing (a.turn ref).1 (a.turn ref).2 := by
  obtain ⟨ht, Q, hq, -⟩ := h
  obtain ⟨i, p, Q, rfl, hp⟩ := hq.first hhead
  have hsame := SameTables.turn a ref
  have hturn := hq.turn ht hp ref
  obtain ⟨hi, -⟩ := List.nodup_cons.mp hq.linked.nodup
  rw [turn_eq hq.head_eq hp] at hsame ⊢
  refine ⟨ht.congr hsame, ?_⟩
  rcases hturn with ⟨hnext, -⟩ | ⟨hnext, hreq⟩
  · refine ⟨Q, hnext, ?_⟩
    intro q hqp
    cases hqp
    exact ⟨i, (hsame.slots i).trans hp, fun _ => hi⟩
  · refine ⟨Q ++ [i], hnext, ?_⟩
    intro q hqp
    cases hqp
    refine ⟨i, (hsame.slots i).trans hp, ?_⟩
    intro hu
    exact absurd ((hsame.ent p).2.2.symm.trans hu) hreq

theorem Between.freeEntity (h : Between a Q i) : Between (a.freeEntity i) Q i :=
  (h.setSlot { a.eTbl i with e := none }).congr rfl rfl rfl rfl rfl rfl

theorem Between.clearId (h : Between a Q i) (id : Nat) : Between (a.clearId id) Q i := h.congr rfl rfl rfl rfl rfl rfl

theorem freeEntity_self (a : Adapter) (i : Nat) : ((a.freeEntity i).eTbl i).e = none := by
  show (Function.update a.eTbl i { a.eTbl i with e := none } i).e = none
  rw [Function.update_self]

theorem freeEntity_slots (a : Adapter) {i j q : Nat} (hj : ((a.freeEntity i).eTbl j).e = some q) : (a.eTbl j).e = some q := by
  by_cases hji : j = i
  · rw [hji, freeEntity_self] at hj
    cases hj
  · change (Function.update a.eTbl i { a.eTbl i with e := none } j).e = some q at hj
    rwa [Function.update_of_ne hji] at hj

/-- An entity outside the queue leaves its slot. -/
theorem Queued.leave (ht : Tables a) (h : Queued a Q) (hp : (a.eTbl i).e = some p) (hi : i ∉ Q) (id : Nat) (e : Entity) :
    Queued (((a.freeEntity i).clearId id).setEnt p e) Q := by
  refine Between.close ((((h.between hi).freeEntity).clearId id).setEnt ?_ e) ?_
  · intro j hj
    change ((a.freeEntity i).eTbl j).e = some p at hj
    exact ht.slot_eq hp (freeEntity_slots a hj)
  · intro q hq
    change ((a.freeEntity i).eTbl i).e = some q at hq
    rw [freeEntity_self] at hq
    cases hq

theorem Queued.prOut (ht : Tables a) (h : Queued a Q) (ready : Nat) (refs : Nat → Nat) :
    Tables (a.prOut ready refs) ∧ ∃ Q', Queued (a.prOut ready refs) Q' := by
  unfold Adapter.prOut
  by_cases hhead : a.head = 0
  · rw [if_pos hhead]
    exact ⟨ht, Q, h⟩
  · rw [if_neg hhead]
    by_cases hready : ready = 0
    · rw [if_pos hready]
      exact ⟨ht.congr ⟨rfl, rfl, fun _ => rfl, rfl, rfl, fun _ => ⟨rfl, rfl, rfl⟩⟩, Q, h.linked, h.waiting, h.rest, h.fifo⟩
    · rw [if_neg hready]
      obtain ⟨ht', Q', h', hthis⟩ := loop_invariant refs Passing.turn ready 0 a none ⟨ht, Q, h, fun p hp => nomatch hp⟩
      dsimp only
      cases hlast : (Adapter.prOutLoop refs ready 0 a none).2 with
      | none => exact ⟨ht', Q', h'⟩
      | some p =>
        obtain ⟨i, hp, hi⟩ := hthis p hlast
        refine ⟨(ht'.uremoved hp).1, Q', ?_⟩
        unfold Adapter.uremoved
        dsimp only
        split
        case isFalse hn => exact h'
        case isTrue hu =>
          have hspec : ((Adapter.prOutLoop refs ready 0 a none).1.ent p).id % 32 ≠ 0 := fun hz => ht'.assigns i p hp hz hu.1
          rw [ht'.specific i p hp hspec]
          exact h'.leave ht' hp (hi hu.1) _ _

end Pass

/-! ## Return codes -/

/-- No flow control and no REMOVE, as far as slot `i` is concerned. -/
structure Ordinary (a : Adapter) (i : Nat) (r : Adapter.ReturnCode) : Prop where
  noFc : r.rc ≠ okFc
  noEnd : r.extendedInfoType ≠ rcTypeOkFc
  noFlow : a.flowControlIdTable r.ch ≠ r.id
  noRemove : a.removePending i = false

/-- A return code to an entity in the queue is an ordinary one, and for a block that is sent; one to an ASSIGN finds an entity
    that has sent its ASSIGN, and the Id is specific. -/
def RcFits (a : Adapter) (r : Adapter.ReturnCode) : Prop :=
  r.rc ≠ readyIntRc →
    if a.idTable r.id ≠ 0 then
      ∀ p, (a.eTbl (a.idTable r.id)).e = some p → (a.ent p).more &&& xbusy ≠ 0 → (a.ent p).more &&& xmoref = 0 →
        Ordinary a (a.idTable r.id) r ∧ (a.ent p).more &&& xmorec ≠ 0
    else
      r.rc / 16 * 16 = assignRc →
        (∀ i p, a.getAssign r.ref = some i → (a.eTbl i).e = some p → (a.ent p).id % 32 = 0 ∧ (a.ent p).more &&& xmoref ≠ 0) ∧
          (r.rc = assignOk → r.id % 32 ≠ 0)

section Rc

variable {a b : Adapter} {Q : List Nat} {i p : Nat} {r : Adapter.ReturnCode}

theorem RcFits.tables (h : RcFits a r) : TablesOk a (.rc r) := by
  intro hid hassign
  have hready : r.rc ≠ readyIntRc := by
    intro hr
    rw [hr] at hassign
    exact absurd hassign (by decide)
  have hfits := h hready
  rw [if_neg (not_not.mpr hid)] at hfits
  obtain ⟨hfound, hspec⟩ := hfits hassign
  exact ⟨fun i p hi hp => (hfound i p hi hp).1, hspec⟩

/-- An ordinary return code. -/
theorem rcKnown_ordinary (h : Ordinary a i r) : a.rcKnown i p r =
    ((a.setEnt p { a.ent p with rnr := 0, rcCh := r.ch }).answerBlock i p r).restoreRnr p (a.ent p).rnr := by
  unfold Adapter.rcKnown
  dsimp only
  rw [if_neg]
  · unfold Adapter.answer
    rw [if_neg h.noFc]
    dsimp only
    have hflow : ¬ (a.noRcCancelling i = false ∧ a.flowControlIdTable r.ch = r.id) := fun hf => h.noFlow hf.2
    rw [if_neg h.noEnd]
    exact congrArg (fun b : Adapter => b.restoreRnr p (a.ent p).rnr) (if_neg hflow)
  · rintro ⟨hremove, -⟩
    change a.removePending i = true at hremove
    rw [h.noRemove] at hremove
    cases hremove

/-- One block less waits for its return code. -/
def oneLess (e : Entity) (r : Adapter.ReturnCode) : Entity := { e with rcCh := r.ch, more := e.more - 1 }

/-- The callback does not come before the last block is sent. -/
theorem rcKnown_waiting {k : Nat} (h : Ordinary a i r) (hw : Waiting (a.ent p) k) (hcount : (a.ent p).more &&& xmorec ≠ 0) :
    a.rcKnown i p r = a.setEnt p (oneLess (a.ent p) r) := by
  have hk : 0 < k := by
    have hle := hw.count
    have hne : counted (a.ent p).more ≠ 0 := fun hz => hcount ((counted_eq_zero _).mp hz)
    omega
  obtain ⟨-, hpart, -, -⟩ := more_down (a.ent p).more hcount
  rw [rcKnown_ordinary h]
  unfold Adapter.answerBlock Adapter.countDown
  dsimp only
  rw [Adapter.setEnt_self, setEnt_setEnt]
  dsimp only
  rw [if_pos hcount, Adapter.setEnt_self]
  dsimp only
  rw [if_neg]
  · unfold Adapter.restoreRnr
    rw [Adapter.setEnt_self, setEnt_setEnt]
    rfl
  · rintro ⟨-, hdone⟩
    have hzero := ((more_answered _).mp hdone).1
    rw [hpart] at hzero
    exact hw.partly.mpr hk hzero

theorem Waiting.oneLess {k : Nat} {e : Entity} (h : Waiting e k) (hcount : e.more &&& xmorec ≠ 0) : Waiting (oneLess e r) k := by
  obtain ⟨hbusy, hpart, hsent, hc⟩ := more_down e.more hcount
  refine ⟨?_, ?_, ?_, ?_, h.chain, ⟨h.position.place, h.position.taken, h.position.behind⟩, h.fits⟩
  · show (e.more - 1) &&& xbusy ≠ 0
    rw [hbusy]
    exact h.busy
  · show (e.more - 1) &&& xmoref = 0
    rw [hsent]
    exact h.unsent
  · have hle := h.count
    show counted (e.more - 1) ≤ k
    omega
  · show (e.more - 1) &&& xmorep ≠ 0 ↔ 0 < k
    rw [hpart]
    exact h.partly

theorem Queued.congr (h : Queued a Q) (htbl : b.eTbl = a.eTbl) (hent : b.ent = a.ent) (hhead : b.head = a.head)
    (htail : b.tail = a.tail) (hput : b.put = a.put) (hout : b.out = a.out) : Queued b Q := by
  refine ((h.between h.linked.null).congr htbl hent hhead htail hput hout).close ?_
  intro q hq
  rw [htbl] at hq
  rw [hent]
  exact h.rest 0 q hq h.linked.null

/-- An entity outside the queue stays at rest. -/
theorem Queued.setEnt_rest (h : Queued a Q) (hi : i ∉ Q) (hp : ∀ j, (a.eTbl j).e = some p → j = i) {e : Entity}
    (he : Rested (a.ent p) → Rested e) : Queued (a.setEnt p e) Q := by
  refine ((h.between hi).setEnt hp e).close ?_
  intro q hq
  change (a.eTbl i).e = some q at hq
  have hrest := h.rest i q hq hi
  by_cases hqp : q = p
  · subst hqp
    rw [Adapter.setEnt_self]
    exact he hrest
  · rw [Adapter.setEnt_of_ne a hqp]
    exact hrest

theorem Queued.touch (h : Queued a Q) (hi : i ∉ Q) (hp : ∀ j, (a.eTbl j).e = some p → j = i) {e : Entity}
    (he : Rested (a.ent p) → Rested e) (htbl : b.eTbl = a.eTbl) (hent : b.ent = Function.update a.ent p e)
    (hhead : b.head = a.head) (htail : b.tail = a.tail) (hput : b.put = a.put) (hout : b.out = a.out) : Queued b Q :=
  (h.setEnt_rest hi hp he).congr htbl hent hhead htail hput hout

theorem Rested.dropped {e e' : Entity} (h : Rested e) (hmore : e'.more = e.more &&& ~~~(xbusy ||| xmorec)) : Rested e' := by
  obtain ⟨hpart, hcount⟩ := more_dropped e.more
  rw [← hmore] at hpart hcount
  exact ⟨hpart.trans h.sent, fun _ => hcount⟩

theorem Rested.countDown {e : Entity} (h : Rested e) : Rested (Adapter.countDown e) := by
  unfold Adapter.countDown
  split
  case isFalse hz => exact h
  case isTrue hcount =>
    obtain ⟨hbusy, hpart, -, hc⟩ := more_down e.more hcount
    refine ⟨hpart.trans h.sent, ?_⟩
    intro hidle
    have hzero : counted e.more = 0 := by
      apply h.idle
      rcases hidle with hidle | hid
      · exact Or.inl (hbusy.symm.trans hidle)
      · exact Or.inr hid
    show counted (e.more - 1) = 0
    omega

theorem Rested.done {e e' : Entity} (h : Rested e) (hcount : counted e.more = 0) (hmore : e'.more = e.more &&& ~~~xbusy) :
    Rested e' := by
  obtain ⟨-, hpart, hc⟩ := more_done e.more
  rw [← hmore] at hpart hc
  exact ⟨hpart.trans h.sent, fun _ => hc.trans hcount⟩

theorem Queued.callback (h : Queued a Q) (p : Nat) : Queued (a.callback p) Q := h.congr rfl rfl rfl rfl rfl rfl

theorem Queued.answerBlock (h : Queued a Q) (hi : i ∉ Q) (hp : ∀ j, (a.eTbl j).e = some p → j = i) (j : Nat) :
    Queued (a.answerBlock j p r) Q := by
  unfold Adapter.answerBlock
  dsimp only
  have hdown := h.setEnt_rest hi hp (e := Adapter.countDown (a.ent p)) Rested.countDown
  split
  case isFalse hn => exact hdown
  case isTrue hdone =>
    refine Queued.callback (hdown.setEnt_rest hi hp ?_) p
    intro hrest
    exact hrest.done ((more_answered _).mp hdone.2).2 rfl

theorem Queued.answerFlowControl (h : Queued a Q) (hi : i ∉ Q) (hp : ∀ j, (a.eTbl j).e = some p → j = i) :
    Queued (a.answerFlowControl p r) Q := by
  unfold Adapter.answerFlowControl
  dsimp only
  split
  case isFalse hn => exact h.congr rfl rfl rfl rfl rfl rfl
  case isTrue hc =>
    split
    case isTrue hch =>
      exact h.touch (e := { a.ent p with rc := r.rc, more := (a.ent p).more &&& ~~~(xbusy ||| xmorec), complete := 0xff }) hi hp
        (fun hrest => hrest.dropped rfl) rfl rfl rfl rfl rfl rfl
    case isFalse hch =>
      exact h.touch (e := { a.ent p with rc := r.rc }) hi hp (fun hrest => hrest.same rfl rfl) rfl rfl rfl rfl rfl rfl

theorem Queued.restoreRnr (h : Queued a Q) (hi : i ∉ Q) (hp : ∀ j, (a.eTbl j).e = some p → j = i) (rnr : Nat) :
    Queued (a.restoreRnr p rnr) Q :=
  h.setEnt_rest hi hp fun hrest => hrest.same rfl rfl

/-- Behind the check for a REMOVE an entity outside the queue stays where it is. -/
theorem Queued.answer (h : Queued a Q) (hi : i ∉ Q) (hp : ∀ j, (a.eTbl j).e = some p → j = i) (j rnr : Nat)
    (removeComplete : Bool) :
    Queued (a.answer j p r rnr removeComplete) Q := by
  unfold Adapter.answer
  by_cases hfc : r.rc = okFc
  · rw [if_pos hfc]
    refine Queued.restoreRnr (a := a.answerOkFc p r) ?_ hi hp rnr
    exact h.touch (e := { a.ent p with rc := r.rc, more := (a.ent p).more &&& ~~~(xbusy ||| xmorec), complete := 0xff }) hi hp
      (fun hrest => hrest.dropped rfl) rfl rfl rfl rfl rfl rfl
  · rw [if_neg hfc]
    dsimp only
    have hanswered : ∀ b : Adapter, Queued b Q ∧ b.eTbl = a.eTbl →
        Queued (if removeComplete then b else b.restoreRnr p rnr) Q := by
      rintro b ⟨hb, htbl⟩
      split
      · exact hb
      · refine hb.restoreRnr hi ?_ rnr
        rw [htbl]
        exact hp
    apply hanswered
    split
    case isTrue hend =>
      refine ⟨?_, rfl⟩
      exact h.touch (e := { a.ent p with rnr := rcTypeOkFc, rc := r.rc, complete := 0xff }) hi hp
        (fun hrest => hrest.same rfl rfl) rfl rfl rfl rfl rfl rfl
    case isFalse hend =>
      split
      case isTrue hflow =>
        refine ⟨h.answerFlowControl hi hp, ?_⟩
        unfold Adapter.answerFlowControl
        dsimp only
        split <;> rfl
      case isFalse hflow =>
        refine ⟨h.answerBlock hi hp j, ?_⟩
        unfold Adapter.answerBlock
        dsimp only
        split <;> rfl

theorem Queued.removed (ht : Tables a) (h : Queued a Q) (hp : (a.eTbl i).e = some p) (hi : i ∉ Q) (id : Nat) :
    Queued (a.removed i p id) Q ∧ ∀ j, ((a.removed i p id).eTbl j).e = some p → j = i := by
  refine ⟨?_, ?_⟩
  · unfold Adapter.removed
    exact (h.leave ht hp hi id _).congr rfl rfl rfl rfl rfl rfl
  · intro j hj
    change ((a.freeEntity i).eTbl j).e = some p at hj
    exact ht.slot_eq hp (freeEntity_slots a hj)

theorem Queued.rcKnown (ht : Tables a) (h : Queued a Q) (hp : (a.eTbl i).e = some p) (hi : i ∉ Q) :
    Queued (a.rcKnown i p r) Q := by
  have hslot : ∀ j, (a.eTbl j).e = some p → j = i := fun j hj => ht.slot_eq hp hj
  have hnoted : Queued (a.setEnt p { a.ent p with rnr := 0, rcCh := r.ch }) Q :=
    h.setEnt_rest hi hslot fun hrest => hrest.same rfl rfl
  have htnoted : Tables (a.setEnt p { a.ent p with rnr := 0, rcCh := r.ch }) := ht.congr (SameTables.setEnt rfl rfl rfl)
  unfold Adapter.rcKnown
  dsimp only
  split
  case isFalse hn => exact hnoted.answer hi hslot _ _ _
  case isTrue hremove =>
    split
    case isTrue hignore => exact hnoted.setEnt_rest hi hslot fun hrest => hrest.same rfl rfl
    case isFalse hconfirmed =>
      have hext : Queued ((a.setEnt p { a.ent p with rnr := 0, rcCh := r.ch }).noteExtension i r) Q := by
        unfold Adapter.noteExtension
        split
        · exact hnoted.congr rfl rfl rfl rfl rfl rfl
        · exact hnoted
      have hsame : SameTables (a.setEnt p { a.ent p with rnr := 0, rcCh := r.ch })
          ((a.setEnt p { a.ent p with rnr := 0, rcCh := r.ch }).noteExtension i r) := by
        unfold Adapter.noteExtension
        split
        · exact ⟨rfl, rfl, fun _ => rfl, rfl, rfl, fun _ => ⟨rfl, rfl, rfl⟩⟩
        · exact SameTables.refl _
      obtain ⟨hleft, hout⟩ := hext.removed (htnoted.congr hsame) ((hsame.slots i).trans hp) hi r.id
      exact hleft.answer hi hout _ _ _

theorem Queued.rcAssign (ht : Tables a) (h : Queued a Q) (hp : (a.eTbl i).e = some p) (hi : i ∉ Q)
    (hid : (a.ent p).id % 32 = 0) : Queued (a.rcAssign i p r) Q := by
  unfold Adapter.rcAssign
  dsimp only
  split
  case isTrue hok =>
    exact h.touch (e := { a.ent p with id := r.id, rc := r.rc, more := (a.ent p).more &&& ~~~xbusy, complete := 0xff }) hi
      (fun j hj => ht.slot_eq hp hj) (fun hrest => hrest.done (hrest.idle (Or.inr hid)) rfl) rfl rfl rfl rfl rfl rfl
  case isFalse hn => exact (h.leave ht hp hi r.id _).congr rfl rfl rfl rfl rfl rfl

theorem Queued.rc (ht : Tables a) (h : Queued a Q) (hok : RcFits a r) : Queued (a.step (.rc r)) Q := by
  show Queued ((a.isdnRc r).elim a (·.2)) Q
  unfold Adapter.isdnRc
  by_cases hready : r.rc = readyIntRc
  · rw [if_pos hready]
    split
    · exact h.congr rfl rfl rfl rfl rfl rfl
    · exact h
  · rw [if_neg hready]
    dsimp only
    have hfits := hok hready
    by_cases hid : a.idTable r.id = 0
    · rw [if_neg (not_not.mpr hid)] at hfits ⊢
      by_cases hassign : r.rc / 16 * 16 = assignRc
      · rw [if_pos hassign]
        cases hget : a.getAssign r.ref with
        | none => exact h
        | some i =>
          rw [Option.bind_some]
          by_cases hi : i = 0
          · rw [if_neg (not_not.mpr hi)]
            exact h
          · rw [if_pos hi]
            cases hp : (a.eTbl i).e with
            | none => exact h
            | some p =>
              obtain ⟨hnone, hsent⟩ := (hfits hassign).1 i p hget hp
              exact h.rcAssign ht hp (h.not_mem hp (Or.inr hsent)) hnone
      · rw [if_neg hassign]
        exact h
    · rw [if_pos hid] at hfits ⊢
      obtain ⟨-, p, hp, -⟩ := ht.known r.id hid
      rw [hp]
      show Queued (a.rcKnown (a.idTable r.id) p r) Q
      by_cases hi : a.idTable r.id ∈ Q
      · obtain ⟨q, k, hq, hw⟩ := h.waiting _ hi
        rw [hp] at hq
        cases hq
        obtain ⟨hord, hcount⟩ := hfits p hp hw.busy hw.unsent
        rw [rcKnown_waiting hord hw hcount]
        exact h.setEnt ht hi hp (hw.oneLess hcount)
      · exact h.rcKnown ht hp hi

end Rc

/-! ## Runs -/

def QueueOk (a : Adapter) : Adapter.Ev → Prop
  | .ask q => AskOk a q
  | .prOut _ _ => True
  | .rc r => RcFits a r

/-- The request queue stays a queue of waiting entities, in the order in which they have come. -/
theorem step_queued (a : Adapter) (ev : Adapter.Ev) (h : Tables a ∧ ∃ Q, Queued a Q) (hok : QueueOk a ev) :
    Tables (a.step ev) ∧ ∃ Q, Queued (a.step ev) Q := by
  obtain ⟨ht, Q, hq⟩ := h
  cases ev with
  | ask q =>
    obtain ⟨hnext, -⟩ := hq.ask ht hok
    exact ⟨ht.ask hok.tables, Q ++ [a.slotOf q], hnext⟩
  | prOut ready refs => exact hq.prOut ht ready refs
  | rc r => exact ⟨(ht.rc hok.tables).1, Q, hq.rc ht hok⟩

theorem init_queued {a : Adapter} (h : a.Init) : Queued a [] := by
  obtain ⟨hput, hout, -⟩ := h.nothing
  obtain ⟨hhead, htail⟩ := h.queue
  refine ⟨?_, (fun i hi => nomatch hi), ?_, ?_⟩
  · unfold Linked
    rw [hhead, htail]
    exact Chain.nil _ 0
  · intro i p hp
    rw [h.slots i] at hp
    cases hp
  · rw [hput, hout]
    rfl

theorem run_queued {a : Adapter} (h : a.Init) {es : List Adapter.Ev} (hc : Along Adapter.step QueueOk a es) :
    Tables (run Adapter.step a es) ∧ ∃ Q, Queued (run Adapter.step a es) Q :=
  Along.invariant Adapter.step step_queued ⟨init_tables h, [], init_queued h⟩ hc

end Divas.Idi
