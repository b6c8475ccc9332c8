/-
  Divas.Idi.AdapterTables — the tables of an adapter.

  Proved, for all runs of `request`, `pr_out` and `isdn_rc` whose steps meet `TablesOk`:
  `e_count` is the number of slots in use, `IdTable` leads from an Id to the slot of the
  entity that has it, `FlowControlIdTable` has Ids in use only, and an entity leaves all
  tables with the return code of its REMOVE, with a failed ASSIGN, or with the pass of
  `pr_out` that sends its UREMOVE (`adapter_tables`).

  `pr_out` looks at the entity of its last turn only: where another request follows an
  UREMOVE in the same pass, the entity keeps its slot and its Id (`uremove_kept`).
-/

import Divas.Lib.Entries
import Divas.Lib.Run
import Divas.Idi.Adapter

namespace Divas.Idi

open Divas.Lib.Entries Divas.Lib.Run

namespace Adapter

def occupied (a : Adapter) (i : Nat) : Bool := (a.eTbl i).e.isSome

/-- The entity has no slot, and no Id leads to it. -/
def Gone (a : Adapter) (p id : Nat) : Prop := (∀ i, (a.eTbl i).e ≠ some p) ∧ a.idTable id = 0

end Adapter

/-- The tables of an adapter. -/
structure Tables (a : Adapter) : Prop where
  size : a.eMax ≤ 256
  slot : ∀ i p, (a.eTbl i).e = some p → 0 < i ∧ i < a.eMax ∧ (a.ent p).no = i
  count : a.eCount = entries a.eMax a.occupied true
  known : ∀ id, a.idTable id ≠ 0 → id % 32 ≠ 0 ∧ ∃ p, (a.eTbl (a.idTable id)).e = some p ∧ (a.ent p).id = id
  specific : ∀ i p, (a.eTbl i).e = some p → (a.ent p).id % 32 ≠ 0 → a.idTable (a.ent p).id = i
  assigns : ∀ i p, (a.eTbl i).e = some p → (a.ent p).id % 32 = 0 → (a.ent p).req ≠ uremove
  flow : ∀ ch, a.flowControlIdTable ch ≠ 0 → a.idTable (a.flowControlIdTable ch) ≠ 0

/-! ## What leaves the tables as they are -/

structure SameTables (a b : Adapter) : Prop where
  eMax : b.eMax = a.eMax
  eCount : b.eCount = a.eCount
  slots : ∀ i, (b.eTbl i).e = (a.eTbl i).e
  idTable : b.idTable = a.idTable
  flow : b.flowControlIdTable = a.flowControlIdTable
  ent : ∀ p, (b.ent p).id = (a.ent p).id ∧ (b.ent p).no = (a.ent p).no ∧ (b.ent p).req = (a.ent p).req

section Same

variable {a b c : Adapter}

theorem SameTables.refl (a : Adapter) : SameTables a a := ⟨rfl, rfl, fun _ => rfl, rfl, rfl, fun _ => ⟨rfl, rfl, rfl⟩⟩

theorem SameTables.trans (h : SameTables a b) (h' : SameTables b c) : SameTables a c := by
  refine ⟨h'.eMax.trans h.eMax, h'.eCount.trans h.eCount, ?_, h'.idTable.trans h.idTable, h'.flow.trans h.flow, ?_⟩
  · intro i
    rw [h'.slots, h.slots]
  · intro p
    rw [(h'.ent p).1, (h'.ent p).2.1, (h'.ent p).2.2]
    exact h.ent p

theorem Tables.congr (h : Tables a) (hs : SameTables a b) : Tables b := by
  refine ⟨?_, ?_, ?_, ?_, ?_, ?_, ?_⟩
  · rw [hs.eMax]
    exact h.size
  · intro i p hp
    rw [hs.slots] at hp
    rw [hs.eMax, (hs.ent p).2.1]
    exact h.slot i p hp
  · rw [hs.eMax, hs.eCount, h.count]
    congr 1
    funext i
    unfold Adapter.occupied
    rw [hs.slots]
  · intro id hid
    rw [hs.idTable] at hid ⊢
    obtain ⟨hspec, p, hp, hpid⟩ := h.known id hid
    refine ⟨hspec, p, ?_, ?_⟩
    · rw [hs.slots]
      exact hp
    · rw [(hs.ent p).1]
      exact hpid
  · intro i p hp
    rw [hs.slots] at hp
    rw [(hs.ent p).1, hs.idTable]
    exact h.specific i p hp
  · intro i p hp
    rw [hs.slots] at hp
    rw [(hs.ent p).1, (hs.ent p).2.2]
    exact h.assigns i p hp
  · intro ch hch
    rw [hs.flow] at hch ⊢
    rw [hs.idTable]
    exact h.flow ch hch

theorem SameTables.gone {p id : Nat} (hs : SameTables a b) (h : a.Gone p id) : b.Gone p id := by
  refine ⟨?_, ?_⟩
  · intro i
    rw [hs.slots]
    exact h.1 i
  · rw [hs.idTable]
    exact h.2

/-- An entity that keeps its Id, its slot and its request. -/
theorem SameTables.setEnt {p : Nat} {e : Entity} (hid : e.id = (a.ent p).id) (hno : e.no = (a.ent p).no)
    (hreq : e.req = (a.ent p).req) :
    SameTables a (a.setEnt p e) := by
  refine ⟨rfl, rfl, fun _ => rfl, rfl, rfl, ?_⟩
  intro q
  show ((Function.update a.ent p e) q).id = _ ∧ _ ∧ _
  by_cases hq : q = p
  · rw [hq]
    refine ⟨?_, ?_, ?_⟩
    · rw [Function.update_self, hid]
    · show ((Function.update a.ent p e) p).no = _
      rw [Function.update_self, hno]
    · show ((Function.update a.ent p e) p).req = _
      rw [Function.update_self, hreq]
  · refine ⟨?_, ?_, ?_⟩
    · rw [Function.update_of_ne hq]
    · show ((Function.update a.ent p e) q).no = _
      rw [Function.update_of_ne hq]
    · show ((Function.update a.ent p e) q).req = _
      rw [Function.update_of_ne hq]

/-- A slot that keeps its entity. -/
theorem SameTables.setSlot {i : Nat} {t : Slot} (he : t.e = (a.eTbl i).e) : SameTables a (a.setSlot i t) := by
  refine ⟨rfl, rfl, ?_, rfl, rfl, fun _ => ⟨rfl, rfl, rfl⟩⟩
  intro j
  show ((Function.update a.eTbl i t) j).e = _
  by_cases hj : j = i
  · rw [hj, Function.update_self, he]
  · rw [Function.update_of_ne hj]

theorem SameTables.reqQueue (a : Adapter) (i : Nat) : SameTables a (a.reqQueue i) := by
  have hslot : SameTables a (a.setSlot i { a.eTbl i with next := 0 }) := SameTables.setSlot rfl
  have hput : SameTables a { a.setSlot i { a.eTbl i with next := 0 } with put := a.put ++ (a.eTbl i).e.toList } :=
    ⟨hslot.eMax, hslot.eCount, hslot.slots, hslot.idTable, hslot.flow, hslot.ent⟩
  unfold Adapter.reqQueue
  dsimp only
  split
  · have htail := hput.trans (@SameTables.setSlot _ a.tail
      { (a.setSlot i { a.eTbl i with next := 0 }).eTbl a.tail with next := i % 256 } rfl)
    exact ⟨htail.eMax, htail.eCount, htail.slots, htail.idTable, htail.flow, htail.ent⟩
  · exact ⟨hput.eMax, hput.eCount, hput.slots, hput.idTable, hput.flow, hput.ent⟩

theorem SameTables.nextReq (a : Adapter) : SameTables a a.nextReq := by
  unfold Adapter.nextReq
  dsimp only
  split
  · exact ⟨rfl, rfl, fun _ => rfl, rfl, rfl, fun _ => ⟨rfl, rfl, rfl⟩⟩
  · exact ⟨rfl, rfl, fun _ => rfl, rfl, rfl, fun _ => ⟨rfl, rfl, rfl⟩⟩

theorem SameTables.assignQueue (a : Adapter) (i ref : Nat) : SameTables a (a.assignQueue i ref) := by
  have hslot : SameTables a (a.setSlot i { a.eTbl i with assignRef := ref, next := a.assign % 256 }) := SameTables.setSlot rfl
  exact ⟨hslot.eMax, hslot.eCount, hslot.slots, hslot.idTable, hslot.flow, hslot.ent⟩

theorem SameTables.emit (a : Adapter) (b : Block) : SameTables a (a.emit b) :=
  ⟨rfl, rfl, fun _ => rfl, rfl, rfl, fun _ => ⟨rfl, rfl, rfl⟩⟩

theorem SameTables.start (a : Adapter) (p i : Nat) : SameTables a (a.start p i) := by
  unfold Adapter.start
  dsimp only
  split
  · exact SameTables.refl a
  · refine SameTables.trans ?_ (SameTables.reqQueue _ _)
    exact SameTables.setEnt rfl rfl rfl

theorem SameTables.sendMore (a : Adapter) (p ref : Nat) (data : List UInt8) : SameTables a (a.sendMore p ref data) := by
  unfold Adapter.sendMore
  refine SameTables.trans (SameTables.trans ?_ (SameTables.emit _ _)) (SameTables.reqQueue _ _)
  exact SameTables.setEnt rfl rfl rfl

theorem SameTables.sendLast (a : Adapter) (i p ref : Nat) (data : List UInt8) : SameTables a (a.sendLast i p ref data) := by
  have hent : SameTables a (a.setEnt p { a.ent p with more := (((a.ent p).more + 1) ||| xmoref) &&& ~~~xmorep }) :=
    SameTables.setEnt rfl rfl rfl
  exact ⟨hent.eMax, hent.eCount, hent.slots, hent.idTable, hent.flow, hent.ent⟩

theorem SameTables.sendAssign (a : Adapter) (p ref : Nat) (data : List UInt8) : SameTables a (a.sendAssign p ref data) := by
  unfold Adapter.sendAssign
  refine SameTables.trans ?_ (SameTables.assignQueue _ _ _)
  have hent : SameTables a (a.setEnt p { a.ent p with
      mInd := Adapter.mIndOf (a.ent p).id
      more := ((a.ent p).more ||| xmoref) &&& ~~~xmorep }) := SameTables.setEnt rfl rfl rfl
  exact ⟨hent.eMax, hent.eCount, hent.slots, hent.idTable, hent.flow, hent.ent⟩

theorem SameTables.send (a : Adapter) (i p ref : Nat) : SameTables a (a.send i p ref) := by
  unfold Adapter.send
  dsimp only
  split
  · split
    · refine SameTables.trans ?_ (SameTables.sendMore _ _ _ _)
      exact SameTables.setEnt rfl rfl rfl
    · refine SameTables.trans ?_ (SameTables.sendLast _ _ _ _ _)
      exact SameTables.setEnt rfl rfl rfl
  · refine SameTables.trans ?_ (SameTables.sendAssign _ _ _ _)
    exact SameTables.setEnt rfl rfl rfl

theorem SameTables.turn (a : Adapter) (ref : Nat) : SameTables a (a.turn ref).1 := by
  unfold Adapter.turn
  dsimp only
  split
  · exact SameTables.nextReq a
  · exact (SameTables.nextReq a).trans (SameTables.send _ _ _ _)

theorem SameTables.prOutLoop (refs : Nat → Nat) (n : Nat) : ∀ (count : Nat) (a : Adapter) (this : Option Nat),
    SameTables a (Adapter.prOutLoop refs n count a this).1 := by
  induction n with
  | zero => exact fun _ a _ => SameTables.refl a
  | succ n ih =>
    intro count a this
    unfold Adapter.prOutLoop
    split
    · exact SameTables.refl a
    · exact (SameTables.turn a (refs count)).trans (ih _ _ _)

theorem SameTables.callback (a : Adapter) (p : Nat) : SameTables a (a.callback p) :=
  ⟨rfl, rfl, fun _ => rfl, rfl, rfl, fun _ => ⟨rfl, rfl, rfl⟩⟩

end Same

/-! ## Entities that come and leave -/

section Steps

variable {a : Adapter} {p i : Nat}

/-- A client changes its request, and not the Id. -/
theorem Tables.setEnt (h : Tables a) {e : Entity} (hid : e.id = (a.ent p).id) (hno : e.no = (a.ent p).no)
    (hreq : e.id % 32 = 0 → e.req ≠ uremove) : Tables (a.setEnt p e) := by
  have hent : ∀ q, ((a.setEnt p e).ent q).id = (a.ent q).id ∧ ((a.setEnt p e).ent q).no = (a.ent q).no := by
    intro q
    show ((Function.update a.ent p e) q).id = _ ∧ ((Function.update a.ent p e) q).no = _
    by_cases hq : q = p
    · rw [hq, Function.update_self]
      exact ⟨hid, hno⟩
    · rw [Function.update_of_ne hq]
      exact ⟨rfl, rfl⟩
  refine ⟨h.size, ?_, h.count, ?_, ?_, ?_, h.flow⟩
  · intro j q hq
    rw [(hent q).2]
    exact h.slot j q hq
  · intro id hk
    obtain ⟨hspec, q, hq, hqid⟩ := h.known id hk
    exact ⟨hspec, q, hq, (hent q).1.trans hqid⟩
  · intro j q hq
    rw [(hent q).1]
    exact h.specific j q hq
  · intro j q hq hspec
    show ((Function.update a.ent p e) q).req ≠ _
    rw [(hent q).1] at hspec
    by_cases hqp : q = p
    · rw [hqp] at hspec ⊢
      rw [Function.update_self]
      exact hreq (by rw [hid]; exact hspec)
    · rw [Function.update_of_ne hqp]
      exact h.assigns j q hq hspec

/-- An entity without a slot is not in the tables. -/
theorem Tables.setEnt_out (h : Tables a) (hout : ∀ j, (a.eTbl j).e ≠ some p) (e : Entity) : Tables (a.setEnt p e) := by
  have hent : ∀ j q, (a.eTbl j).e = some q → (a.setEnt p e).ent q = a.ent q := by
    intro j q hq
    refine Function.update_of_ne ?_ _ _
    rintro rfl
    exact hout j hq
  refine ⟨h.size, ?_, h.count, ?_, ?_, ?_, h.flow⟩
  · intro j q hq
    rw [hent j q hq]
    exact h.slot j q hq
  · intro id hk
    obtain ⟨hspec, q, hq, hqid⟩ := h.known id hk
    refine ⟨hspec, q, hq, ?_⟩
    rw [hent _ q hq]
    exact hqid
  · intro j q hq
    rw [hent j q hq]
    exact h.specific j q hq
  · intro j q hq
    rw [hent j q hq]
    exact h.assigns j q hq

theorem Tables.eCount_lt (h : Tables a) : a.eCount ≤ 256 := by
  have hle : entries a.eMax a.occupied true ≤ a.eMax := by
    unfold entries
    exact Nat.le_trans List.countP_le_length (Nat.le_of_eq List.length_range)
  rw [h.count]
  exact Nat.le_trans hle h.size

/-- Less entities than slots behind slot 0: the first free slot is one of the table. -/
theorem Tables.newSlot (h : Tables a) (hroom : a.eCount + 1 < a.eMax) :
    0 < a.newSlot ∧ a.newSlot < a.eMax ∧ (a.eTbl a.newSlot).e = none := by
  have hfree : ∃ j, 0 < j ∧ j < a.eMax ∧ (a.eTbl j).e = none := by
    by_contra hfull
    have hall : ∀ n, n ≤ a.eMax → n ≤ entries n a.occupied true + 1 := by
      intro n
      induction n with
      | zero => exact fun _ => Nat.zero_le _
      | succ n ih =>
        intro hn
        have hprev := ih (Nat.le_of_succ_le hn)
        rw [entries_succ]
        by_cases hzero : n = 0
        · omega
        · have hocc : a.occupied n = true := by
            unfold Adapter.occupied
            rw [Option.isSome_iff_ne_none]
            intro hnone
            exact hfull ⟨n, Nat.pos_of_ne_zero hzero, hn, hnone⟩
          rw [if_pos hocc]
          omega
    have hcount := hall a.eMax (Nat.le_refl _)
    rw [← h.count] at hcount
    omega
  obtain ⟨j, hj, hjmax, hjfree⟩ := hfree
  have hsome : ((List.range' 1 a.eMax).find? fun k => (a.eTbl k).e.isNone).isSome := by
    rw [List.find?_isSome]
    refine ⟨j, ?_, ?_⟩
    · rw [List.mem_range'_1]
      omega
    · rw [hjfree]
      rfl
  obtain ⟨k, hk⟩ := Option.isSome_iff_exists.mp hsome
  have hnew : a.newSlot = k := by
    unfold Adapter.newSlot
    rw [hk]
    rfl
  rw [hnew]
  obtain ⟨hnone, hmem, hfirst⟩ := List.find?_range'_eq_some.mp hk
  rw [List.mem_range'_1] at hmem
  refine ⟨hmem.1, ?_, Option.isNone_iff_eq_none.mp hnone⟩
  by_contra hge
  have hbefore := hfirst j hj (by omega)
  rw [hjfree] at hbefore
  cases hbefore

/-- An entity with an ASSIGN gets a free slot. -/
theorem Tables.enter (h : Tables a) (hpos : 0 < i) (hmax : i < a.eMax) (hfree : (a.eTbl i).e = none)
    (hout : ∀ j, (a.eTbl j).e ≠ some p)
    (hid : (a.ent p).id % 32 = 0) (hreq : (a.ent p).req ≠ uremove) {e : Entity} (heid : e.id = (a.ent p).id) (heno : e.no = i)
    (hereq : e.req = (a.ent p).req) : Tables ((a.takeSlot i p).setEnt p e) := by
  have hslots : ∀ j q, ((Function.update a.eTbl i { a.eTbl i with e := some p }) j).e = some q →
      (j = i ∧ q = p) ∨ (j ≠ i ∧ q ≠ p ∧ (a.eTbl j).e = some q) := by
    intro j q hq
    by_cases hj : j = i
    · rw [hj, Function.update_self] at hq
      exact Or.inl ⟨hj, (Option.some.inj hq).symm⟩
    · rw [Function.update_of_ne hj] at hq
      refine Or.inr ⟨hj, ?_, hq⟩
      rintro rfl
      exact hout j hq
  have hold : ∀ {j q}, (a.eTbl j).e = some q → ((Function.update a.eTbl i { a.eTbl i with e := some p }) j).e = some q := by
    intro j q hq
    rw [Function.update_of_ne]
    · exact hq
    · rintro rfl
      rw [hfree] at hq
      cases hq
  have hother : ∀ {q}, q ≠ p → Function.update a.ent p e q = a.ent q := fun hq => Function.update_of_ne hq _ _
  refine ⟨h.size, ?_, ?_, ?_, ?_, ?_, h.flow⟩
  · intro j q hq
    show 0 < j ∧ j < a.eMax ∧ (Function.update a.ent p e q).no = j
    rcases hslots j q hq with ⟨rfl, rfl⟩ | ⟨-, hqp, hq⟩
    · rw [Function.update_self]
      exact ⟨hpos, hmax, heno⟩
    · rw [hother hqp]
      exact h.slot j q hq
  · have hcount : entries a.eMax (Function.update a.occupied i true) true = entries a.eMax a.occupied true + 1 := by
      refine entries_gain hmax ?_
      unfold Adapter.occupied
      rw [hfree]
      exact Bool.false_ne_true
    have hocc : Adapter.occupied ((a.takeSlot i p).setEnt p e) = Function.update a.occupied i true := by
      funext j
      show ((Function.update a.eTbl i { a.eTbl i with e := some p }) j).e.isSome = _
      by_cases hj : j = i
      · rw [hj, Function.update_self, Function.update_self]
        rfl
      · rw [Function.update_of_ne hj, Function.update_of_ne hj]
        rfl
    have hle := h.eCount_lt
    rw [hocc]
    show (a.eCount + 1) % 65536 = entries a.eMax (Function.update a.occupied i true) true
    rw [hcount, ← h.count]
    omega
  · intro id hk
    obtain ⟨hspec, q, hq, hqid⟩ := h.known id hk
    refine ⟨hspec, q, hold hq, ?_⟩
    show (Function.update a.ent p e q).id = id
    rw [hother]
    · exact hqid
    · rintro rfl
      exact hout _ hq
  · intro j q hq hqspec
    change (Function.update a.ent p e q).id % 32 ≠ 0 at hqspec
    show a.idTable (Function.update a.ent p e q).id = j
    rcases hslots j q hq with ⟨-, rfl⟩ | ⟨-, hqp, hq⟩
    · rw [Function.update_self, heid] at hqspec
      exact absurd hid hqspec
    · rw [hother hqp] at hqspec ⊢
      exact h.specific j q hq hqspec
  · intro j q hq hqspec
    change (Function.update a.ent p e q).id % 32 = 0 at hqspec
    show (Function.update a.ent p e q).req ≠ uremove
    rcases hslots j q hq with ⟨-, rfl⟩ | ⟨-, hqp, hq⟩
    · rw [Function.update_self, hereq]
      exact hreq
    · rw [hother hqp] at hqspec ⊢
      exact h.assigns j q hq hqspec

/-- The slot `i` of `p` gets free, and the Id that led to it, if any. -/
theorem Tables.leave (h : Tables a) (hp : (a.eTbl i).e = some p) {id : Nat} (hlead : ∀ k, a.idTable k = i → k = id)
    (hback : a.idTable id = i ∨ a.idTable id = 0) (e : Entity) :
    Tables (((a.setEnt p e).freeEntity i).clearId id) ∧ (((a.setEnt p e).freeEntity i).clearId id).Gone p id := by
  obtain ⟨hpos, hmax, hno⟩ := h.slot i p hp
  have hslots : ∀ j q, ((Function.update a.eTbl i { a.eTbl i with e := none }) j).e = some q →
      j ≠ i ∧ q ≠ p ∧ (a.eTbl j).e = some q := by
    intro j q hq
    by_cases hj : j = i
    · rw [hj, Function.update_self] at hq
      cases hq
    · rw [Function.update_of_ne hj] at hq
      refine ⟨hj, ?_, hq⟩
      rintro rfl
      obtain ⟨-, -, hno'⟩ := h.slot j q hq
      exact hj (hno'.symm.trans hno)
  have hother : ∀ {q}, q ≠ p → Function.update a.ent p e q = a.ent q := fun hq => Function.update_of_ne hq _ _
  have hkeeps : ∀ {k}, a.idTable k ≠ 0 → k ≠ id → a.idTable k ≠ i := fun _ hk hi => hk (hlead _ hi)
  refine ⟨⟨h.size, ?_, ?_, ?_, ?_, ?_, ?_⟩, ?_, ?_⟩
  · intro j q hq
    obtain ⟨-, hqp, hq⟩ := hslots j q hq
    show 0 < j ∧ j < a.eMax ∧ (Function.update a.ent p e q).no = j
    rw [hother hqp]
    exact h.slot j q hq
  · have hocc : Adapter.occupied (((a.setEnt p e).freeEntity i).clearId id) = Function.update a.occupied i false := by
      funext j
      show ((Function.update a.eTbl i { a.eTbl i with e := none }) j).e.isSome = _
      by_cases hj : j = i
      · rw [hj, Function.update_self, Function.update_self]
        rfl
      · rw [Function.update_of_ne hj, Function.update_of_ne hj]
        rfl
    have hwas : a.occupied i = true := by
      unfold Adapter.occupied
      rw [hp]
      rfl
    have hcount := entries_lose (f := a.occupied) hmax (show false ≠ a.occupied i by rw [hwas]; exact Bool.false_ne_true)
    rw [hwas, ← h.count] at hcount
    have hle := h.eCount_lt
    rw [hocc]
    show (a.eCount + 65535) % 65536 = entries a.eMax (Function.update a.occupied i false) true
    omega
  · intro k hk
    change Function.update a.idTable id 0 k ≠ 0 at hk
    have hkid : k ≠ id := by
      rintro rfl
      exact hk (Function.update_self k 0 a.idTable)
    rw [Function.update_of_ne hkid] at hk
    obtain ⟨hspec, q, hq, hqid⟩ := h.known k hk
    refine ⟨hspec, q, ?_, ?_⟩
    · show ((Function.update a.eTbl i { a.eTbl i with e := none }) (Function.update a.idTable id 0 k)).e = some q
      rw [Function.update_of_ne hkid, Function.update_of_ne (hkeeps hk hkid)]
      exact hq
    · show (Function.update a.ent p e q).id = k
      rw [hother]
      · exact hqid
      · rintro rfl
        obtain ⟨-, -, hno'⟩ := h.slot _ q hq
        exact hkeeps hk hkid (hno'.symm.trans hno)
  · intro j q hq hqspec
    obtain ⟨hj, hqp, hold⟩ := hslots j q hq
    change (Function.update a.ent p e q).id % 32 ≠ 0 at hqspec
    show Function.update a.idTable id 0 (Function.update a.ent p e q).id = j
    rw [hother hqp] at hqspec ⊢
    have hlead' := h.specific j q hold hqspec
    rw [Function.update_of_ne]
    · exact hlead'
    · rintro rfl
      obtain ⟨hjpos, -, -⟩ := h.slot j q hold
      rcases hback with hb | hb
      · exact hj (hlead'.symm.trans hb)
      · omega
  · intro j q hq hqspec
    obtain ⟨-, hqp, hq⟩ := hslots j q hq
    change (Function.update a.ent p e q).id % 32 = 0 at hqspec
    show (Function.update a.ent p e q).req ≠ uremove
    rw [hother hqp] at hqspec ⊢
    exact h.assigns j q hq hqspec
  · intro ch hch
    change (if a.flowControlIdTable ch = id then 0 else a.flowControlIdTable ch) ≠ 0 at hch
    show Function.update a.idTable id 0 (if a.flowControlIdTable ch = id then 0 else a.flowControlIdTable ch) ≠ 0
    by_cases hid : a.flowControlIdTable ch = id
    · rw [if_pos hid] at hch
      exact absurd rfl hch
    · rw [if_neg hid] at hch ⊢
      rw [Function.update_of_ne hid]
      exact h.flow ch hch
  · intro j hj
    exact (hslots j p hj).2.1 rfl
  · exact Function.update_self id 0 a.idTable

/-- Only the Id of the entity leads to its slot. -/
theorem Tables.lead (h : Tables a) (hp : (a.eTbl i).e = some p) (k : Nat) (hk : a.idTable k = i) :
    k = (a.ent p).id ∧ k % 32 ≠ 0 := by
  obtain ⟨hpos, -, -⟩ := h.slot i p hp
  obtain ⟨hspec, q, hq, hqid⟩ := h.known k (by omega)
  rw [hk, hp] at hq
  cases hq
  exact ⟨hqid.symm, hspec⟩

end Steps

/-! ## Steps -/

/-- The code of the next block for an entity with a specific Id. -/
def Adapter.nextCode (a : Adapter) (p : Nat) : Nat :=
  let e := a.ent p
  if (Adapter.nextData e).1 < e.x.length ∧ e.mInd ≠ 0 then e.mInd else e.req

/-- An UREMOVE is the request of its entity, and ends the pass. -/
def UremoveLast (refs : Nat → Nat) : Nat → Nat → Adapter → Prop
  | 0, _, _ => True
  | n + 1, count, a =>
    a.head ≠ 0 →
      (∀ p, (a.eTbl a.head).e = some p → (a.ent p).id % 32 ≠ 0 → a.nextCode p = uremove →
        (a.ent p).req = uremove ∧ (n = 0 ∨ (a.turn (refs count)).1.head = 0)) ∧
      UremoveLast refs n (if (a.turn (refs count)).2.isSome then count + 1 else count) (a.turn (refs count)).1

/-- A client does not change a specific Id, an ASSIGN comes from an entity without a slot, and one slot more than the ASSIGN
    needs is free. An UREMOVE ends its pass. An ASSIGN return code finds an entity without an Id, and its Id is specific. -/
def TablesOk (a : Adapter) : Adapter.Ev → Prop
  | .ask q =>
    if q.id.getD (a.ent q.p).id % 32 = 0 then q.req ≠ uremove ∧ (∀ i, (a.eTbl i).e ≠ some q.p) ∧ a.eCount + 1 < a.eMax
    else q.id.getD (a.ent q.p).id = (a.ent q.p).id
  | .prOut ready refs => UremoveLast refs ready 0 a
  | .rc r =>
    a.idTable r.id = 0 → r.rc / 16 * 16 = assignRc →
      (∀ i p, a.getAssign r.ref = some i → (a.eTbl i).e = some p → (a.ent p).id % 32 = 0) ∧ (r.rc = assignOk → r.id % 32 ≠ 0)

/-- A return code that ends the removal of an entity. -/
def RemoveConfirmed (a : Adapter) (r : Adapter.ReturnCode) (p : Nat) : Prop :=
  a.idTable r.id ≠ 0 ∧ (a.eTbl (a.idTable r.id)).e = some p ∧ a.removePending (a.idTable r.id) = true ∧ r.rc = rcOk ∧
    ¬ (a.idTypeTable (a.idTable r.id) = nlId ∧ a.rcExtensionSupported = true ∧ r.extendedInfoType ≠ rcTypeRemoveComplete)

def AssignFailed (a : Adapter) (r : Adapter.ReturnCode) (p : Nat) : Prop :=
  a.idTable r.id = 0 ∧ r.rc / 16 * 16 = assignRc ∧ r.rc ≠ readyIntRc ∧ r.rc ≠ assignOk ∧
    ∃ i, i ≠ 0 ∧ a.getAssign r.ref = some i ∧ (a.eTbl i).e = some p

/-- Who leaves with a step is gone behind it. -/
def Leaves (a : Adapter) (ev : Adapter.Ev) : Prop :=
  match ev with
  | .ask _ => True
  | .prOut _ _ => ∀ b ∈ (a.step ev).out.drop a.out.length, b.id % 32 ≠ 0 → b.req = uremove → (a.step ev).Gone b.e b.id
  | .rc r => ∀ p, RemoveConfirmed a r p ∨ AssignFailed a r p → (a.step ev).Gone p r.id

section Run

variable {a : Adapter}

theorem Tables.ask (h : Tables a) {q : Ask} (hok : TablesOk a (.ask q)) : Tables (a.ask q) := by
  unfold TablesOk at hok
  dsimp only at hok
  have hself := Adapter.setEnt_self a q.p
  unfold Adapter.ask Adapter.request
  rw [hself]
  dsimp only
  by_cases hassign : q.id.getD (a.ent q.p).id % 32 = 0
  · rw [if_pos hassign] at hok
    obtain ⟨hreq, hout, hroom⟩ := hok
    have h1 : Tables (a.setEnt q.p (Adapter.filledIn (a.ent q.p) q)) := h.setEnt_out hout _
    obtain ⟨hpos, hmax, hfree⟩ := h1.newSlot hroom
    have hcount : ¬ (a.setEnt q.p (Adapter.filledIn (a.ent q.p) q)).eMax
        ≤ (a.setEnt q.p (Adapter.filledIn (a.ent q.p) q)).eCount := by
      show ¬ a.eMax ≤ a.eCount
      omega
    have hsize : (a.setEnt q.p (Adapter.filledIn (a.ent q.p) q)).eMax ≤ 256 := h1.size
    rw [if_pos (show (Adapter.filledIn (a.ent q.p) q).id % 32 = 0 from hassign), if_neg hcount]
    refine Tables.congr ?_ (SameTables.start _ _ _)
    refine h1.enter hpos hmax hfree hout ?_ ?_ ?_ (Nat.mod_eq_of_lt (by omega)) ?_
    · rw [hself]
      exact hassign
    · rw [hself]
      exact hreq
    · rw [hself]
    · rw [hself]
  · rw [if_neg hassign] at hok
    rw [if_neg (show ¬ (Adapter.filledIn (a.ent q.p) q).id % 32 = 0 from hassign)]
    refine Tables.congr ?_ (SameTables.start _ _ _)
    exact h.setEnt hok rfl fun hz => absurd hz hassign

/-- The last entity of a pass leaves, if it has sent its UREMOVE. -/
theorem Tables.uremoved (h : Tables a) {i p : Nat} (hp : (a.eTbl i).e = some p) : Tables (a.uremoved (some p)) ∧
    ((a.ent p).req = uremove → (a.ent p).id % 32 ≠ 0 → (a.uremoved (some p)).Gone p (a.ent p).id) := by
  unfold Adapter.uremoved
  dsimp only
  by_cases hu : (a.ent p).req = uremove ∧ (a.ent p).id ≠ 0
  · rw [if_pos hu]
    have hspec : (a.ent p).id % 32 ≠ 0 := fun hz => h.assigns i p hp hz hu.1
    have hi := h.specific i p hp hspec
    obtain ⟨htables, hgone⟩ := @Tables.leave a p i h hp (a.ent p).id (fun k hk => (h.lead hp k hk).1) (Or.inl hi)
      { a.ent p with id := 0 }
    rw [hi]
    exact ⟨htables, fun _ _ => hgone⟩
  · rw [if_neg hu]
    refine ⟨h, fun hreq hspec => absurd ⟨hreq, ?_⟩ hu⟩
    intro hz
    rw [hz] at hspec
    exact hspec rfl

/-- The block of a turn. -/
theorem send_out (a : Adapter) (i p ref : Nat) : ∃ b, (a.send i p ref).out = a.out ++ [b] ∧ b.e = p ∧ b.id = (a.ent p).id ∧
    (b.id % 32 ≠ 0 → b.req = a.nextCode p) := by
  have hqueue : ∀ (b : Adapter) (j : Nat), (b.reqQueue j).out = b.out := by
    intro b j
    unfold Adapter.reqQueue
    dsimp only
    split <;> rfl
  unfold Adapter.send Adapter.nextCode
  dsimp only
  rw [Adapter.setEnt_self]
  dsimp only
  by_cases hspec : (a.ent p).id % 32 ≠ 0
  · rw [if_pos hspec]
    by_cases hmore : (Adapter.nextData (a.ent p)).1 < (a.ent p).x.length ∧ (a.ent p).mInd ≠ 0
    · rw [if_pos hmore, if_pos hmore]
      unfold Adapter.sendMore
      rw [hqueue, Adapter.setEnt_self]
      exact ⟨_, rfl, rfl, rfl, fun _ => rfl⟩
    · rw [if_neg hmore, if_neg hmore]
      unfold Adapter.sendLast
      rw [Adapter.setEnt_self]
      exact ⟨_, rfl, rfl, rfl, fun _ => rfl⟩
  · rw [if_neg hspec]
    unfold Adapter.sendAssign
    rw [Adapter.setEnt_self]
    exact ⟨_, rfl, rfl, rfl, fun h => absurd h hspec⟩

theorem nextReq_out (a : Adapter) : a.nextReq.out = a.out ∧ a.nextReq.eTbl = a.eTbl ∧ a.nextReq.ent = a.ent := by
  unfold Adapter.nextReq
  dsimp only
  split <;> exact ⟨rfl, rfl, rfl⟩

/-- A turn for a free slot sends nothing, another one sends a block. -/
theorem turn_out (a : Adapter) (ref : Nat) :
    ((a.eTbl a.head).e = none ∧ (a.turn ref).2 = none ∧ (a.turn ref).1.out = a.out) ∨
      ∃ p b, (a.eTbl a.head).e = some p ∧ (a.turn ref).2 = some p ∧ (a.turn ref).1.out = a.out ++ [b] ∧ b.e = p ∧
        b.id = (a.ent p).id ∧ (b.id % 32 ≠ 0 → b.req = a.nextCode p) := by
  obtain ⟨hout, htbl, hent⟩ := nextReq_out a
  unfold Adapter.turn
  dsimp only
  rw [htbl]
  cases hp : (a.eTbl a.head).e with
  | none => exact Or.inl ⟨rfl, rfl, hout⟩
  | some p =>
    obtain ⟨b, hb, he, hid, hreq⟩ := send_out a.nextReq a.head p ref
    rw [hout] at hb
    rw [hent] at hid
    refine Or.inr ⟨p, b, rfl, rfl, hb, he, hid, ?_⟩
    unfold Adapter.nextCode at hreq ⊢
    rw [hent] at hreq
    exact hreq

/-- The entity of the last turn of a pass has a slot, and if an UREMOVE was sent, it was sent for that entity. -/
theorem loop_last (refs : Nat → Nat) (n : Nat) : ∀ (count : Nat) (a : Adapter) (this : Option Nat), UremoveLast refs n count a →
    (∀ p, this = some p → ∃ i, (a.eTbl i).e = some p) →
    (∀ p, (Adapter.prOutLoop refs n count a this).2 = some p → ∃ i, (a.eTbl i).e = some p) ∧
      ∃ bs, (Adapter.prOutLoop refs n count a this).1.out = a.out ++ bs ∧
        ∀ b ∈ bs, b.id % 32 ≠ 0 → b.req = uremove →
          (Adapter.prOutLoop refs n count a this).2 = some b.e ∧ b.id = (a.ent b.e).id ∧ (a.ent b.e).req = uremove := by
  induction n with
  | zero => exact fun count a this _ hthis => ⟨hthis, [], (List.append_nil _).symm, fun b hb => nomatch hb⟩
  | succ n ih =>
    intro count a this hlast hthis
    unfold Adapter.prOutLoop
    by_cases hhead : a.head = 0
    · rw [if_pos hhead]
      exact ⟨hthis, [], (List.append_nil _).symm, fun b hb => nomatch hb⟩
    · rw [if_neg hhead]
      obtain ⟨hnow, hrest⟩ := hlast hhead
      have hsame := SameTables.turn a (refs count)
      have hturn := turn_out a (refs count)
      have hthis' : ∀ p, (a.turn (refs count)).2 = some p → ∃ i, ((a.turn (refs count)).1.eTbl i).e = some p := by
        intro p hp
        rcases hturn with ⟨-, h2, -⟩ | ⟨q, b, hq, h2, -⟩
        · rw [h2] at hp
          cases hp
        · rw [h2] at hp
          cases hp
          exact ⟨a.head, (hsame.slots a.head).trans hq⟩
      obtain ⟨hslot, bs, hout, hbs⟩ := ih _ (a.turn (refs count)).1 (a.turn (refs count)).2 hrest hthis'
      dsimp only
      refine ⟨?_, ?_⟩
      · intro p hp
        obtain ⟨i, hi⟩ := hslot p hp
        exact ⟨i, (hsame.slots i).symm.trans hi⟩
      · have hlater : ∀ b ∈ bs, b.id % 32 ≠ 0 → b.req = uremove →
            (Adapter.prOutLoop refs n (if (a.turn (refs count)).2.isSome then count + 1 else count) (a.turn (refs count)).1
              (a.turn (refs count)).2).2 = some b.e ∧ b.id = (a.ent b.e).id ∧ (a.ent b.e).req = uremove := by
          intro b hb hspec hreq
          obtain ⟨h1, h2, h3⟩ := hbs b hb hspec hreq
          exact ⟨h1, h2.trans (hsame.ent b.e).1, (hsame.ent b.e).2.2.symm.trans h3⟩
        rcases hturn with ⟨-, -, h3⟩ | ⟨p, b0, hp, h2, h3, he, hid, hcode⟩
        · refine ⟨bs, ?_, hlater⟩
          rw [hout, h3]
        · refine ⟨b0 :: bs, ?_, ?_⟩
          · rw [hout, h3, List.append_assoc]
            rfl
          · intro b hb hspec hreq
            rcases List.mem_cons.mp hb with rfl | hb
            · -- the block of this turn: no turn comes behind it
              obtain ⟨hreq', hend⟩ := hnow p hp (by rw [← hid]; exact hspec) (by rw [← hcode hspec]; exact hreq)
              rw [he]
              refine ⟨?_, hid, hreq'⟩
              rcases hend with rfl | hend
              · exact h2
              · cases n with
                | zero => exact h2
                | succ n =>
                  unfold Adapter.prOutLoop
                  rw [if_pos hend]
                  exact h2
            · exact hlater b hb hspec hreq

theorem Tables.prOut (h : Tables a) {ready : Nat} {refs : Nat → Nat} (hok : UremoveLast refs ready 0 a) :
    Tables (a.prOut ready refs) ∧ Leaves a (.prOut ready refs) := by
  unfold Leaves
  dsimp only
  show Tables (a.prOut ready refs) ∧
    ∀ b ∈ (a.prOut ready refs).out.drop a.out.length, b.id % 32 ≠ 0 → b.req = uremove → (a.prOut ready refs).Gone b.e b.id
  unfold Adapter.prOut
  by_cases hhead : a.head = 0
  · rw [if_pos hhead, List.drop_length]
    exact ⟨h, fun b hb => nomatch hb⟩
  · rw [if_neg hhead]
    by_cases hready : ready = 0
    · rw [if_pos hready]
      refine ⟨h.congr ⟨rfl, rfl, fun _ => rfl, rfl, rfl, fun _ => ⟨rfl, rfl, rfl⟩⟩, ?_⟩
      dsimp only
      rw [List.drop_length]
      exact fun b hb => nomatch hb
    · rw [if_neg hready]
      dsimp only
      have hsame := SameTables.prOutLoop refs ready 0 a none
      obtain ⟨hslot, bs, hout, hbs⟩ := loop_last refs ready 0 a none hok (fun p hp => nomatch hp)
      generalize hloop : Adapter.prOutLoop refs ready 0 a none = loop at hsame hslot hout hbs
      obtain ⟨b, this⟩ := loop
      dsimp only at hsame hslot hout hbs ⊢
      have htables : Tables b := h.congr hsame
      cases this with
      | none =>
        refine ⟨htables, ?_⟩
        unfold Adapter.uremoved
        rw [hout, List.drop_left]
        intro c hc hspec hreq
        cases (hbs c hc hspec hreq).1
      | some p =>
        obtain ⟨i, hi⟩ := hslot p rfl
        have hi' : (b.eTbl i).e = some p := (hsame.slots i).trans hi
        obtain ⟨htables', hgone⟩ := htables.uremoved hi'
        refine ⟨htables', ?_⟩
        have hkeep : (b.uremoved (some p)).out = b.out := by
          unfold Adapter.uremoved
          dsimp only
          split <;> rfl
        rw [hkeep, hout, List.drop_left]
        intro c hc hspec hreq
        obtain ⟨h1, h2, h3⟩ := hbs c hc hspec hreq
        cases h1
        have hreq' : (b.ent c.e).req = uremove := (hsame.ent c.e).2.2.trans h3
        have hid' : (b.ent c.e).id = c.id := (hsame.ent c.e).1.trans h2.symm
        have hg := hgone hreq' (by rw [hid']; exact hspec)
        rwa [hid'] at hg

theorem SameTables.restoreRnr (a : Adapter) (p rnr : Nat) : SameTables a (a.restoreRnr p rnr) := SameTables.setEnt rfl rfl rfl

/-- A return code behind the check for a REMOVE changes `FlowControlIdTable` at most, to an Id that is known. -/
theorem Tables.answer (h : Tables a) {i p : Nat} {r : Adapter.ReturnCode} {rnr : Nat} {removeComplete : Bool}
    (hfc : r.rc = okFc → a.idTable r.id ≠ 0) :
    Tables (a.answer i p r rnr removeComplete) ∧ ∀ q id, a.Gone q id → (a.answer i p r rnr removeComplete).Gone q id := by
  have hfinish : ∀ b : Adapter, Tables b → (∀ q id, a.Gone q id → b.Gone q id) →
      Tables (if removeComplete then b else b.restoreRnr p rnr) ∧
        ∀ q id, a.Gone q id → (if removeComplete then b else b.restoreRnr p rnr).Gone q id := by
    intro b hb hgone
    cases removeComplete with
    | true => exact ⟨hb, hgone⟩
    | false =>
      have hsame := SameTables.restoreRnr b p rnr
      exact ⟨hb.congr hsame, fun q id hg => hsame.gone (hgone q id hg)⟩
  have hof : ∀ b, SameTables a b → Tables b ∧ ∀ q id, a.Gone q id → b.Gone q id :=
    fun b hs => ⟨h.congr hs, fun q id hg => hs.gone hg⟩
  unfold Adapter.answer
  by_cases hrc : r.rc = okFc
  · rw [if_pos hrc]
    have hflow : Tables { a with
        flowControlIdTable := Function.update a.flowControlIdTable r.ch r.id
        flowControlSkipTable := Function.update a.flowControlSkipTable r.ch false } := by
      refine ⟨h.size, h.slot, h.count, h.known, h.specific, h.assigns, ?_⟩
      intro ch hch
      show a.idTable (Function.update a.flowControlIdTable r.ch r.id ch) ≠ 0
      by_cases hc : ch = r.ch
      · rw [hc, Function.update_self]
        exact hfc hrc
      · change Function.update a.flowControlIdTable r.ch r.id ch ≠ 0 at hch
        rw [Function.update_of_ne hc] at hch ⊢
        exact h.flow ch hch
    have hsame : SameTables { a with
        flowControlIdTable := Function.update a.flowControlIdTable r.ch r.id
        flowControlSkipTable := Function.update a.flowControlSkipTable r.ch false } ((a.answerOkFc p r).restoreRnr p rnr) := by
      refine SameTables.trans (SameTables.trans ?_ (SameTables.callback _ _)) (SameTables.restoreRnr _ _ _)
      exact SameTables.setEnt rfl rfl rfl
    exact ⟨hflow.congr hsame, fun q id hg => hsame.gone hg⟩
  · rw [if_neg hrc]
    dsimp only
    by_cases hend : r.extendedInfoType = rcTypeOkFc
    · rw [if_pos hend]
      have hsame : SameTables a (a.answerFcEnd i p r) := by
        have hflag : SameTables a { a with noRcCancelling := Function.update a.noRcCancelling i true } :=
          ⟨rfl, rfl, fun _ => rfl, rfl, rfl, fun _ => ⟨rfl, rfl, rfl⟩⟩
        refine hflag.trans (SameTables.trans ?_ (SameTables.callback _ _))
        exact SameTables.setEnt rfl rfl rfl
      obtain ⟨ht, hg⟩ := hof _ hsame
      exact hfinish _ ht hg
    · rw [if_neg hend]
      by_cases hcancel : a.noRcCancelling i = false ∧ a.flowControlIdTable r.ch = r.id
      · rw [if_pos hcancel]
        have hflow : Tables { a with flowControlIdTable := Function.update a.flowControlIdTable r.ch 0 } := by
          refine ⟨h.size, h.slot, h.count, h.known, h.specific, h.assigns, ?_⟩
          intro ch hch
          show a.idTable (Function.update a.flowControlIdTable r.ch 0 ch) ≠ 0
          change Function.update a.flowControlIdTable r.ch 0 ch ≠ 0 at hch
          by_cases hc : ch = r.ch
          · rw [hc, Function.update_self] at hch
            exact absurd rfl hch
          · rw [Function.update_of_ne hc] at hch ⊢
            exact h.flow ch hch
        have hsame : SameTables { a with flowControlIdTable := Function.update a.flowControlIdTable r.ch 0 }
            (a.answerFlowControl p r) := by
          unfold Adapter.answerFlowControl
          dsimp only
          split
          · refine SameTables.trans ?_ (SameTables.callback _ _)
            split
            · exact SameTables.setEnt rfl rfl rfl
            · exact SameTables.setEnt rfl rfl rfl
          · exact SameTables.refl _
        exact hfinish _ (hflow.congr hsame) fun q id hg => hsame.gone hg
      · rw [if_neg hcancel]
        have hsame : SameTables a (a.answerBlock i p r) := by
          unfold Adapter.answerBlock
          dsimp only
          have hent : SameTables a (a.setEnt p (Adapter.countDown (a.ent p))) := by
            unfold Adapter.countDown
            split
            · exact SameTables.setEnt rfl rfl rfl
            · exact SameTables.setEnt rfl rfl rfl
          split
          · refine hent.trans (SameTables.trans ?_ (SameTables.callback _ _))
            exact SameTables.setEnt rfl rfl rfl
          · exact hent
        obtain ⟨ht, hg⟩ := hof _ hsame
        exact hfinish _ ht hg

theorem Tables.rcKnown (h : Tables a) {p : Nat} {r : Adapter.ReturnCode} (hid : a.idTable r.id ≠ 0)
    (hp : (a.eTbl (a.idTable r.id)).e = some p) : Tables (a.rcKnown (a.idTable r.id) p r) ∧
      (RemoveConfirmed a r p → (a.rcKnown (a.idTable r.id) p r).Gone p r.id) := by
  have hrcch : SameTables a (a.setEnt p { a.ent p with rnr := 0, rcCh := r.ch }) := SameTables.setEnt rfl rfl rfl
  have h1 := h.congr hrcch
  have hpid : (a.ent p).id = r.id := ((h.lead hp r.id rfl).1).symm
  unfold Adapter.rcKnown
  dsimp only
  generalize hb : a.setEnt p { a.ent p with rnr := 0, rcCh := r.ch } = b at hrcch h1
  have hremove : b.removePending = a.removePending := by rw [← hb]; rfl
  have htype : b.idTypeTable = a.idTypeTable := by rw [← hb]; rfl
  have hext : b.rcExtensionSupported = a.rcExtensionSupported := by rw [← hb]; rfl
  rw [hremove, htype, hext]
  by_cases hdone : a.removePending (a.idTable r.id) = true ∧ r.rc = rcOk
  · rw [if_pos hdone]
    by_cases hignore : a.idTypeTable (a.idTable r.id) = nlId ∧ a.rcExtensionSupported = true ∧
      r.extendedInfoType ≠ rcTypeRemoveComplete
    · rw [if_pos hignore]
      exact ⟨h1.congr (SameTables.restoreRnr _ _ _), fun hc => absurd hignore hc.2.2.2.2⟩
    · rw [if_neg hignore]
      have hp1 : (b.eTbl (a.idTable r.id)).e = some p := (hrcch.slots _).trans hp
      have hk1 : b.idTable r.id = a.idTable r.id := congrFun hrcch.idTable r.id
      have hsupport : SameTables b (b.noteExtension (a.idTable r.id) r) := by
        unfold Adapter.noteExtension
        split
        · exact ⟨rfl, rfl, fun _ => rfl, rfl, rfl, fun _ => ⟨rfl, rfl, rfl⟩⟩
        · exact SameTables.refl b
      generalize b.noteExtension (a.idTable r.id) r = c at hsupport
      have h2 := h1.congr hsupport
      have hp2 : (c.eTbl (a.idTable r.id)).e = some p := (hsupport.slots _).trans hp1
      have hk2 : c.idTable r.id = a.idTable r.id := (congrFun hsupport.idTable r.id).trans hk1
      have hflags : SameTables c { c with
          removePending := Function.update c.removePending (a.idTable r.id) false
          noRcCancelling := Function.update c.noRcCancelling (a.idTable r.id) false } :=
        ⟨rfl, rfl, fun _ => rfl, rfl, rfl, fun _ => ⟨rfl, rfl, rfl⟩⟩
      have h3 := h2.congr hflags
      have hp3 : (({ c with
          removePending := Function.update c.removePending (a.idTable r.id) false
          noRcCancelling := Function.update c.noRcCancelling (a.idTable r.id) false } : Adapter).eTbl (a.idTable r.id)).e
            = some p := hp2
      have hpid3 : (c.ent p).id = r.id := (hsupport.ent p).1.trans ((hrcch.ent p).1.trans hpid)
      have hleft : Tables (c.removed (a.idTable r.id) p r.id) ∧ (c.removed (a.idTable r.id) p r.id).Gone p r.id := by
        unfold Adapter.removed
        exact h3.leave hp3 (fun k hk => (h3.lead hp3 k hk).1.trans hpid3) (Or.inl hk2) _
      obtain ⟨h4, hgone⟩ := hleft
      obtain ⟨h5, hgone5⟩ := @Tables.answer _ h4 (a.idTable r.id) p r (a.ent p).rnr true
        (fun hfc => absurd (hdone.2.symm.trans hfc) (by decide))
      exact ⟨h5, fun _ => hgone5 p r.id hgone⟩
  · rw [if_neg hdone]
    have hk1 : b.idTable r.id = a.idTable r.id := congrFun hrcch.idTable r.id
    refine ⟨(h1.answer (fun _ => by rw [hk1]; exact hid)).1, fun hc => absurd ⟨hc.2.2.1, hc.2.2.2.1⟩ hdone⟩

theorem Tables.rcAssign (h : Tables a) {i p : Nat} {r : Adapter.ReturnCode} (hp : (a.eTbl i).e = some p)
    (hid : (a.ent p).id % 32 = 0)
    (hnew : a.idTable r.id = 0) (hspec : r.rc = assignOk → r.id % 32 ≠ 0) :
    Tables (a.rcAssign i p r) ∧ (r.rc ≠ assignOk → (a.rcAssign i p r).Gone p r.id) := by
  obtain ⟨hpos, hmax, hno⟩ := h.slot i p hp
  have hlead : ∀ k, a.idTable k ≠ i := by
    intro k hk
    obtain ⟨hkid, hks⟩ := h.lead hp k hk
    rw [hkid] at hks
    exact hks hid
  unfold Adapter.rcAssign
  dsimp only
  by_cases hok : r.rc = assignOk
  · rw [if_pos hok]
    refine ⟨?_, fun hn => absurd hok hn⟩
    have hother : ∀ {q}, q ≠ p → ∀ e : Entity, Function.update a.ent p e q = a.ent q := by
      intro q hq e
      exact Function.update_of_ne hq e a.ent
    have hne : ∀ j q, (a.eTbl j).e = some q → j ≠ i → q ≠ p := by
      rintro j q hq hj rfl
      exact hj ((h.slot j q hq).2.2.symm.trans hno)
    refine ⟨h.size, ?_, h.count, ?_, ?_, ?_, ?_⟩
    · intro j q hq
      change (a.eTbl j).e = some q at hq
      show 0 < j ∧ j < a.eMax ∧ (Function.update a.ent p _ q).no = j
      by_cases hqp : q = p
      · subst hqp
        rw [Function.update_self]
        exact h.slot j q hq
      · rw [hother hqp]
        exact h.slot j q hq
    · intro k hk
      change Function.update a.idTable r.id i k ≠ 0 at hk
      show k % 32 ≠ 0 ∧ ∃ q, (a.eTbl (Function.update a.idTable r.id i k)).e = some q ∧ (Function.update a.ent p _ q).id = k
      by_cases hkr : k = r.id
      · subst hkr
        refine ⟨hspec hok, p, ?_, ?_⟩
        · rw [Function.update_self]
          exact hp
        · rw [Function.update_self]
      · rw [Function.update_of_ne hkr] at hk ⊢
        obtain ⟨hks, q, hq, hqid⟩ := h.known k hk
        refine ⟨hks, q, hq, ?_⟩
        rw [hother (hne _ q hq (hlead k))]
        exact hqid
    · intro j q hq hqs
      change (a.eTbl j).e = some q at hq
      change (Function.update a.ent p _ q).id % 32 ≠ 0 at hqs
      show Function.update a.idTable r.id i (Function.update a.ent p _ q).id = j
      by_cases hqp : q = p
      · subst hqp
        rw [Function.update_self]
        show Function.update a.idTable r.id i r.id = j
        rw [Function.update_self]
        exact hno.symm.trans (h.slot j q hq).2.2
      · rw [hother hqp] at hqs ⊢
        have hj := h.specific j q hq hqs
        rw [Function.update_of_ne]
        · exact hj
        · intro hqr
          rw [hqr, hnew] at hj
          have hjpos := (h.slot j q hq).1
          omega
    · intro j q hq hqs
      change (a.eTbl j).e = some q at hq
      change (Function.update a.ent p _ q).id % 32 = 0 at hqs
      show (Function.update a.ent p _ q).req ≠ uremove
      by_cases hqp : q = p
      · subst hqp
        rw [Function.update_self] at hqs
        exact absurd hqs (hspec hok)
      · rw [hother hqp] at hqs ⊢
        exact h.assigns j q hq hqs
    · intro ch hch
      change a.flowControlIdTable ch ≠ 0 at hch
      show Function.update a.idTable r.id i (a.flowControlIdTable ch) ≠ 0
      by_cases hc : a.flowControlIdTable ch = r.id
      · rw [hc, Function.update_self]
        omega
      · rw [Function.update_of_ne hc]
        exact h.flow ch hch
  · rw [if_neg hok]
    have hleave := @Tables.leave a p i h hp r.id (fun k hk => absurd hk (hlead k)) (Or.inr hnew)
      { a.ent p with id := r.id, rc := r.rc, more := (a.ent p).more &&& ~~~xbusy, complete := 0xff }
    have hcall : SameTables (((a.setEnt p { a.ent p with
          id := r.id, rc := r.rc, more := (a.ent p).more &&& ~~~xbusy, complete := 0xff }).freeEntity i).clearId r.id)
        ((((a.setEnt p { a.ent p with
          id := r.id, rc := r.rc, more := (a.ent p).more &&& ~~~xbusy, complete := 0xff }).callback p).freeEntity i).clearId
            r.id) :=
      ⟨rfl, rfl, fun _ => rfl, rfl, rfl, fun _ => ⟨rfl, rfl, rfl⟩⟩
    exact ⟨hleave.1.congr hcall, fun _ => hcall.gone hleave.2⟩

theorem Tables.rc (h : Tables a) {r : Adapter.ReturnCode} (hok : TablesOk a (.rc r)) :
    Tables (a.step (.rc r)) ∧ Leaves a (.rc r) := by
  unfold TablesOk at hok
  dsimp only at hok
  unfold Leaves
  show Tables ((a.isdnRc r).elim a (·.2)) ∧ ∀ p, RemoveConfirmed a r p ∨ AssignFailed a r p →
    ((a.isdnRc r).elim a (·.2)).Gone p r.id
  unfold Adapter.isdnRc
  by_cases hready : r.rc = readyIntRc
  · rw [if_pos hready]
    have hnone : ∀ p, ¬ (RemoveConfirmed a r p ∨ AssignFailed a r p) := by
      rintro p (hc | hf)
      · exact absurd (hready.symm.trans hc.2.2.2.1) (by decide)
      · exact hf.2.2.1 hready
    split
    · exact ⟨h.congr ⟨rfl, rfl, fun _ => rfl, rfl, rfl, fun _ => ⟨rfl, rfl, rfl⟩⟩, fun p hp => absurd hp (hnone p)⟩
    · exact ⟨h, fun p hp => absurd hp (hnone p)⟩
  · rw [if_neg hready]
    dsimp only
    by_cases hid : a.idTable r.id = 0
    · rw [if_neg (not_not.mpr hid)]
      have hnc : ∀ p, ¬ RemoveConfirmed a r p := fun p hc => hc.1 hid
      by_cases hassign : r.rc / 16 * 16 = assignRc
      · rw [if_pos hassign]
        obtain ⟨hfound, hspec⟩ := hok hid hassign
        cases hget : a.getAssign r.ref with
        | none =>
          refine ⟨h, fun p hp => ?_⟩
          rcases hp with hc | ⟨-, -, -, -, i, -, hi, -⟩
          · exact absurd hc (hnc p)
          · rw [hget] at hi
            cases hi
        | some i =>
          rw [Option.bind_some]
          by_cases hi : i = 0
          · rw [if_neg (not_not.mpr hi)]
            refine ⟨h, fun p hp => ?_⟩
            rcases hp with hc | ⟨-, -, -, -, j, hj, hjget, -⟩
            · exact absurd hc (hnc p)
            · rw [hget] at hjget
              cases hjget
              exact absurd hi hj
          · rw [if_pos hi]
            cases hp : (a.eTbl i).e with
            | none =>
              refine ⟨h, fun p hp' => ?_⟩
              rcases hp' with hc | ⟨-, -, -, -, j, hj, hjget, hje⟩
              · exact absurd hc (hnc p)
              · rw [hget] at hjget
                cases hjget
                rw [hp] at hje
                cases hje
            | some p =>
              obtain ⟨ht, hg⟩ := h.rcAssign hp (hfound i p hget hp) hid hspec
              refine ⟨ht, fun q hq => ?_⟩
              rcases hq with hc | ⟨-, -, -, hfail, j, hj, hjget, hje⟩
              · exact absurd hc (hnc q)
              · rw [hget] at hjget
                cases hjget
                rw [hp] at hje
                cases hje
                exact hg hfail
      · rw [if_neg hassign]
        refine ⟨h, fun p hp => ?_⟩
        rcases hp with hc | hf
        · exact absurd hc (hnc p)
        · exact absurd hf.2.1 hassign
    · rw [if_pos hid]
      obtain ⟨-, p, hp, -⟩ := h.known r.id hid
      rw [hp]
      obtain ⟨ht, hg⟩ := h.rcKnown hid hp
      refine ⟨ht, fun q hq => ?_⟩
      rcases hq with hc | hf
      · have hqp := hc.2.1
        rw [hp] at hqp
        cases hqp
        exact hg hc
      · exact absurd hf.1 hid

end Run

theorem step_tables (a : Adapter) (ev : Adapter.Ev) (h : Tables a) (hok : TablesOk a ev) : Tables (a.step ev) ∧ Leaves a ev := by
  cases ev with
  | ask q => exact ⟨h.ask hok, trivial⟩
  | prOut ready refs => exact h.prOut hok
  | rc r => exact h.rc hok

theorem init_tables {a : Adapter} (h : a.Init) : Tables a := by
  have hno : ∀ {i p}, (a.eTbl i).e ≠ some p := by
    intro i p hp
    rw [h.slots i] at hp
    cases hp
  refine ⟨h.size, fun i p hp => absurd hp hno, ?_, fun id hid => absurd (h.ids id) hid, fun i p hp => absurd hp hno,
    fun i p hp => absurd hp hno, fun ch hch => absurd (h.flow ch) hch⟩
  have hzero : entries a.eMax a.occupied true = 0 := by
    refine entries_eq_zero ?_
    intro i _
    unfold Adapter.occupied
    rw [h.slots i]
    exact Bool.false_ne_true
  rw [h.count, hzero]

/-- The tables of an adapter agree in every run whose steps meet the condition, and who leaves has left them all. -/
theorem adapter_tables (a : Adapter) (h : a.Init) (es : List Adapter.Ev) (hc : Along Adapter.step TablesOk a es) :
    Tables (run Adapter.step a es) ∧
      ∀ before ev behind, es = before ++ ev :: behind → Leaves (run Adapter.step a before) ev := by
  have hrun : ∀ {es}, Along Adapter.step TablesOk a es → Tables (run Adapter.step a es) :=
    fun hc => Along.invariant Adapter.step (fun s e hs hok => (step_tables s e hs hok).1) (init_tables h) hc
  refine ⟨hrun hc, ?_⟩
  intro before ev behind hes
  rw [hes] at hc
  obtain ⟨hbefore, hev⟩ := (along_append Adapter.step).mp hc
  exact (step_tables _ ev (hrun hbefore) hev.1).2

def idleClient : Entity := ⟨0, 0, 0, 0, 0, [], 0, 0, 0, 0, 0, 0, 0, 0xff⟩

def emptyAdapter : Adapter where
  ent _ := idleClient
  eTbl _ := ⟨none, 0, 0⟩
  eMax := 16
  eCount := 0
  assign := 0
  head := 0
  tail := 0
  idTable _ := 0
  idTypeTable _ := 0
  flowControlIdTable _ := 0
  flowControlSkipTable _ := false
  removePending _ := false
  noRcCancelling _ := false
  rcExtensionSupported := false
  readyInt := 0
  put := []
  out := []
  calls := []

theorem emptyAdapter_init : emptyAdapter.Init :=
  ⟨by decide, fun _ => rfl, rfl, ⟨rfl, rfl⟩, rfl, fun _ => rfl, fun _ => rfl, fun _ => ⟨rfl, rfl⟩, ⟨rfl, rfl, rfl⟩⟩

/-- Of two entities the first one is refused; the second one gets the Id 5, and is removed. -/
def leaving : List Adapter.Ev :=
  [.ask ⟨0, some nlId, 1, 0, []⟩, .ask ⟨1, some nlId, 1, 0, []⟩, .prOut 2 id, .rc ⟨assignOk, 5, 0, 1, 0⟩, .rc ⟨0xe1, 0, 0, 0, 0⟩,
    .ask ⟨1, none, remove, 0, []⟩, .prOut 1 id, .rc ⟨rcOk, 5, 0, 0, 0⟩]

theorem leaving_ok : Along Adapter.step TablesOk emptyAdapter leaving := by
  refine ⟨⟨by decide, (fun i hi => nomatch hi), by decide⟩, ⟨by decide, ?_, by decide⟩, fun _ => ⟨?_, fun _ => ⟨?_, trivial⟩⟩,
    fun _ _ => ⟨?_, fun _ => by decide⟩,
    fun _ _ => ⟨?_, fun hok => absurd hok (by decide)⟩, rfl, fun _ => ⟨?_, trivial⟩, fun hid => absurd hid (by decide), trivial⟩
  · intro i hi
    have hone : Tables (emptyAdapter.step (.ask ⟨0, some nlId, 1, 0, []⟩)) :=
      (init_tables emptyAdapter_init).ask ⟨by decide, (fun i hi => nomatch hi), by decide⟩
    have hfree : ∀ i < 16, ((emptyAdapter.step (.ask ⟨0, some nlId, 1, 0, []⟩)).eTbl i).e ≠ some 1 := by decide
    exact hfree i (hone.slot i 1 hi).2.1 hi
  · intro p hp hspec
    cases hp
    exact absurd rfl hspec
  · intro p hp hspec
    cases hp
    exact absurd rfl hspec
  · intro i p hi hp
    cases hi
    cases hp
    rfl
  · intro i p hi hp
    cases hi
    cases hp
    rfl
  · intro p hp _ hcode
    cases hp
    exact absurd hcode (by decide)

theorem adapter_tables_leaving :
    (run Adapter.step emptyAdapter (leaving.take 5)).Gone 0 0 ∧ (run Adapter.step emptyAdapter (leaving.take 5)).idTable 5 = 2 ∧
      Tables (run Adapter.step emptyAdapter leaving) ∧ (run Adapter.step emptyAdapter leaving).Gone 1 5 := by
  obtain ⟨htables, hleaves⟩ := adapter_tables emptyAdapter emptyAdapter_init leaving leaving_ok
  have hrefused : AssignFailed (run Adapter.step emptyAdapter (leaving.take 4)) ⟨0xe1, 0, 0, 0, 0⟩ 0 :=
    ⟨rfl, rfl, by decide, by decide, 1, by decide, rfl, rfl⟩
  have hremoved : RemoveConfirmed (run Adapter.step emptyAdapter (leaving.take 7)) ⟨rcOk, 5, 0, 0, 0⟩ 1 :=
    ⟨by decide, rfl, by decide, rfl, fun h => absurd h.2.1 (by decide)⟩
  exact ⟨hleaves (leaving.take 4) (.rc ⟨0xe1, 0, 0, 0, 0⟩) (leaving.drop 5) rfl 0 (Or.inr hrefused), by decide, htables,
    hleaves (leaving.take 7) (.rc ⟨rcOk, 5, 0, 0, 0⟩) [] rfl 1 (Or.inl hremoved)⟩

/-- The card assigns an Id that is not in use. -/
def FreshIds (a : Adapter) : Adapter.Ev → Prop
  | .rc r => r.rc = assignOk → a.idTable r.id = 0
  | _ => True

/-- Two entities with the Ids 5 and 6, an UREMOVE of the first and a request of the second. -/
def batch : List Adapter.Ev :=
  [.ask ⟨0, some nlId, 1, 0, []⟩, .ask ⟨1, some nlId, 1, 0, []⟩, .prOut 2 id, .rc ⟨assignOk, 5, 0, 0, 0⟩,
    .rc ⟨assignOk, 6, 0, 1, 0⟩,
    .ask ⟨0, none, uremove, 0, []⟩, .ask ⟨1, none, 2, 0, []⟩]

/-- The pass sends both, and looks at the second only. -/
theorem uremove_kept :
    ¬ ∀ a : Adapter, a.Init → ∀ es ev, Along Adapter.step FreshIds a (es ++ [ev]) → Leaves (run Adapter.step a es) ev := by
  intro h
  have hfresh : Along Adapter.step FreshIds emptyAdapter (batch ++ [.prOut 2 id]) :=
    ⟨trivial, trivial, trivial, fun _ => rfl, fun _ => rfl, trivial, trivial, trivial, trivial⟩
  have hleaves := h emptyAdapter emptyAdapter_init batch (.prOut 2 id) hfresh
  have hsent : (⟨0, 5, 0, uremove, 0, []⟩ : Block) ∈
      ((run Adapter.step emptyAdapter batch).step (.prOut 2 id)).out.drop (run Adapter.step emptyAdapter batch).out.length := by
    decide +kernel
  exact (hleaves _ hsent (by decide) rfl).1 1 (by decide +kernel)

end Divas.Idi
