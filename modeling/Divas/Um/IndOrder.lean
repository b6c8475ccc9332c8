/-
  Divas.Um.IndOrder — every indication reaches the reader, in the order of arrival.

  What the reader has got and what is in the data queue carries a list of indications, and the
  parts that are still in `cbuffer` are the rest of what has arrived (`Core`).

  Proved (`indications_in_order`): in every run in which a plain indication is not offered while
  parts are waiting in `cbuffer`, unless the queue has no room for it, each indication and each
  part is put into the queue once, whole and in order of arrival, and parts wait only behind a
  message that is still to be read; a look-ahead that is refused gets RNR and leaves all this as
  it is. A combined indication that comes while parts are waiting makes room for itself or is
  refused; a plain one is not kept back, and overtakes them (`plain_overtakes`).
-/

import Divas.Queue.Segment
import Divas.Um.UserQueue
import Mathlib.Data.List.Forall2

namespace Divas.Um

open Divas.Lib.Bytes Divas.Lib.Run Divas.Queue Divas.Capi

/-- The bytes of a message carry the indication. -/
structure Carries (bytes : List UInt8) (i : Indication) : Prop where
  head : window bytes 0 12 = leBytes 4 divaUmIdiInd ++ leBytes 4 i.ind.toNat ++ leBytes 4 i.indCh.toNat
  length : leNat (window bytes dataLengthOffset 4) = i.data.length
  data : window bytes sizeofIndHdr i.data.length = i.data

/-! ## One segment -/

section Segment

variable {q : QueueSt} {front : List Msg} {m : Msg}

theorem writeIndHdr_last (h : Holds .four q) (hl : q.live = front ++ [m]) (hm : sizeofIndHdr ≤ m.bytes.length) (ind indCh : UInt8)
    (n : Nat) :
    ∃ m', (writeIndHdr q (m.place .four) ind indCh n).live = front ++ [m'] ∧
      Holds .four (writeIndHdr q (m.place .four) ind indCh n) ∧ m'.off = m.off ∧ m'.complete = m.complete ∧
      m'.bytes.length = m.bytes.length ∧
      window m'.bytes 0 12 = leBytes 4 divaUmIdiInd ++ leBytes 4 ind.toNat ++ leBytes 4 indCh.toNat ∧
      window m'.bytes dataLengthOffset 4 = leBytes 4 n ∧
      ∀ k, window m'.bytes sizeofIndHdr k = window m.bytes sizeofIndHdr k := by
  unfold sizeofIndHdr at hm
  have hlen : (leBytes 4 divaUmIdiInd ++ leBytes 4 ind.toNat ++ leBytes 4 indCh.toNat).length = 12 := by simp
  have hk1 : 0 + (leBytes 4 divaUmIdiInd ++ leBytes 4 ind.toNat ++ leBytes 4 indCh.toNat).length ≤ m.bytes.length := by omega
  obtain ⟨hl1, hh1⟩ := fill_last h hl hk1
  have hb1 := overwrite_length hk1
  have hk2 : dataLengthOffset + (leBytes 4 n).length ≤
      (QueueSt.overwrite m.bytes 0 (leBytes 4 divaUmIdiInd ++ leBytes 4 ind.toNat ++ leBytes 4 indCh.toNat)).length := by
    rw [hb1, leBytes_length, dataLengthOffset]
    omega
  obtain ⟨hl2, hh2⟩ := fill_last hh1 hl1 hk2
  refine ⟨_, hl2, hh2, rfl, rfl, ?_, ?_, ?_, ?_⟩
  · rw [overwrite_length hk2, hb1]
  · have hself := window_overwrite_self hk1
    rw [hlen] at hself
    rw [window_overwrite_apart hk2 (Or.inl (by decide)), hself]
  · have hself := window_overwrite_self hk2
    rwa [leBytes_length] at hself
  · intro k
    rw [window_overwrite_apart hk2 (Or.inr (by simp [dataLengthOffset, sizeofIndHdr])),
      window_overwrite_apart hk1 (Or.inr (by rw [hlen]; decide))]

theorem writeIndData_last (h : Holds .four q) (hl : q.live = front ++ [m]) (bytes : List UInt8)
    (hm : sizeofIndHdr + bytes.length ≤ m.bytes.length) :
    ∃ m', (writeIndData q (m.place .four) bytes).live = front ++ [m'] ∧ Holds .four (writeIndData q (m.place .four) bytes) ∧
      m'.off = m.off ∧ m'.complete = m.complete ∧ m'.bytes.length = m.bytes.length ∧
      window m'.bytes sizeofIndHdr bytes.length = bytes ∧ ∀ a k, a + k ≤ sizeofIndHdr →
        window m'.bytes a k = window m.bytes a k := by
  obtain ⟨hl', hh⟩ := fill_last h hl hm
  exact ⟨_, hl', hh, rfl, rfl, overwrite_length hm, window_overwrite_self hm, fun a k hk => window_overwrite_apart hm (Or.inl hk)⟩

theorem place_of_off {a b : Msg} (h : a.off = b.off) : a.place .four = b.place .four := by
  unfold Msg.place
  rw [h]

/-- The header, the data and the end of a part. -/
theorem part_written (h : Holds .four q) (hl : q.live = front ++ [m]) (i : Indication)
    (hm : m.bytes.length = i.data.length + sizeofIndHdr) :
    ∃ m', (ackSegment4write (writeIndData (writeIndHdr q (m.place .four) i.ind i.indCh i.data.length) (m.place .four) i.data)
          (m.place .four)).live = front ++ [m'] ∧
      Holds .four (ackSegment4write (writeIndData (writeIndHdr q (m.place .four) i.ind i.indCh i.data.length) (m.place .four)
        i.data) (m.place .four)) ∧ m'.complete = true ∧ Carries m'.bytes i := by
  have hsmall := (h.stored m (by rw [hl]; simp)).small
  obtain ⟨m1, hl1, hh1, ho1, -, hb1, hhead, hlength, -⟩ := writeIndHdr_last h hl (by omega) i.ind i.indCh i.data.length
  rw [← place_of_off ho1] at hl1 hh1 ⊢
  obtain ⟨m2, hl2, hh2, ho2, -, hb2, hdata, hbefore⟩ := writeIndData_last hh1 hl1 i.data (by omega)
  rw [← place_of_off ho2] at hl2 hh2 ⊢
  obtain ⟨hl3, hh3⟩ := complete_last hh2 hl2
  refine ⟨_, hl3, hh3, rfl, ?_, ?_, hdata⟩
  · exact (hbefore 0 12 (by decide)).trans hhead
  · exact (congrArg leNat (hbefore dataLengthOffset 4 (by decide))).trans
      ((congrArg leNat hlength).trans (leNat_leBytes (show i.data.length < 256 ^ 4 by omega)))

/-- The data, the header and the end of a plain indication. -/
theorem plain_written (h : Holds .four q) (hl : q.live = front ++ [m]) (i : Indication)
    (hm : sizeofIndHdr + i.data.length ≤ m.bytes.length) :
    ∃ m', (ackSegment4write (writeIndHdr (writeIndData q (m.place .four) i.data) (m.place .four) i.ind i.indCh i.data.length)
          (m.place .four)).live = front ++ [m'] ∧
      Holds .four (ackSegment4write (writeIndHdr (writeIndData q (m.place .four) i.data) (m.place .four) i.ind i.indCh
        i.data.length) (m.place .four)) ∧ m'.complete = true ∧ Carries m'.bytes i := by
  have hsmall := (h.stored m (by rw [hl]; simp)).small
  obtain ⟨m1, hl1, hh1, ho1, -, hb1, hdata, -⟩ := writeIndData_last h hl i.data hm
  rw [← place_of_off ho1] at hl1 hh1 ⊢
  obtain ⟨m2, hl2, hh2, ho2, -, hb2, hhead, hlength, hbehind⟩ := writeIndHdr_last hh1 hl1 (by omega) i.ind i.indCh i.data.length
  rw [← place_of_off ho2] at hl2 hh2 ⊢
  obtain ⟨hl3, hh3⟩ := complete_last hh2 hl2
  refine ⟨_, hl3, hh3, rfl, hhead, ?_, ?_⟩
  · exact (congrArg leNat hlength).trans (leNat_leBytes (show i.data.length < 256 ^ 4 by omega))
  · exact (hbehind _).trans hdata

end Segment

/-! ## Splitting -/

namespace UserQueue

variable {e : UserQueue} {done : List Indication} {pending : List Part}

/-- The queue and `cbuffer` between the calls: `done` is what the messages carry that the reader has got or that are in the
queue, `pending` is what is still in `cbuffer`. -/
structure Core (e : UserQueue) (done : List Indication) (pending : List Part) : Prop where
  holds : Holds .four e.data
  size : e.data.q.size = 2560 * 16
  maxLength : e.maxLength = 2560
  combiInd : e.combiInd = false
  length : e.cbufferLength = (combined pending).length
  bytes : load e.cbuffer e.cbufferPos e.cbufferLength = combined pending
  short : ∀ p, p ∈ pending → p.data.length < 2560
  complete : ∀ m, m ∈ e.data.live → m.complete = true
  carried : List.Forall₂ Carries (e.readOut ++ e.data.live.map Msg.bytes) done

/-- What the first part of `cbuffer` is. -/
theorem Core.first {p : Part} {ps : List Part} (h : Core e done (p :: ps)) :
    e.cbuffer e.cbufferPos = p.ind ∧ e.thisIndLength = p.data.length ∧ load e.cbuffer (e.cbufferPos + 3) p.data.length = p.data ∧
      e.cbufferLength = p.data.length + 4 + (combined ps).length ∧
      load e.cbuffer (e.cbufferPos + (p.data.length + 4)) (combined ps).length = combined ps := by
  have hlen : e.cbufferLength = 3 + (p.data.length + (1 + (combined ps).length)) := by
    rw [h.length, combined_cons, List.length_append, Part.bytes_length]
    omega
  have hbytes := h.bytes
  have hsplit : combined (p :: ps) = p.header ++ (p.data ++ ([p.trailer] ++ combined ps)) := by simp [Part.bytes]
  rw [hlen, hsplit, load_add, load_add, load_add] at hbytes
  obtain ⟨hheader, hrest⟩ := List.append_inj hbytes (by simp)
  obtain ⟨hdata, hrest⟩ := List.append_inj hrest (by simp)
  obtain ⟨-, hrest⟩ := List.append_inj hrest (by simp)
  have h0 : load e.cbuffer e.cbufferPos 3
      = [e.cbuffer e.cbufferPos, e.cbuffer (e.cbufferPos + 1), e.cbuffer (e.cbufferPos + 2)] := rfl
  rw [h0] at hheader
  simp only [Part.header, List.cons.injEq, and_true] at hheader
  obtain ⟨hind, hlow, hhigh⟩ := hheader
  refine ⟨hind, ?_, hdata, by omega, ?_⟩
  · rw [UserQueue.thisIndLength, hlow, hhigh, p.thisIndLength_header]
  · rw [show e.cbufferPos + (p.data.length + 4) = e.cbufferPos + 3 + p.data.length + 1 by omega]
    exact hrest

/-- A segment is there, or the queue is full. -/
theorem getSegment4write_eq {q : QueueSt} {n : Nat} (hn : n < 65536) :
    getSegment4write q n = (queueAllocMsg .four q.q n).map fun r => (q.step .four (.alloc n), r.2) := by
  unfold getSegment4write
  rw [Nat.mod_eq_of_lt hn]

theorem Core.part {p : Part} {ps : List Part} (h : Core e done (p :: ps)) {q : QueueSt} {pind : Nat}
    (hq : getSegment4write e.data (e.thisIndLength + sizeofIndHdr) = some (q, pind)) :
    Core (e.takePart q pind) (done ++ [p.indication]) ps ∧ (e.takePart q pind).data.live ≠ [] := by
  obtain ⟨hind, hn, hdata, hlen, hrest⟩ := h.first
  have hshort := h.short p (by simp)
  have hsmall : p.data.length + sizeofIndHdr < 0x8000 := by
    unfold sizeofIndHdr
    omega
  rw [hn, getSegment4write_eq (by omega)] at hq
  cases ha : queueAllocMsg .four e.data.q (p.data.length + sizeofIndHdr) with
  | none =>
    rw [ha] at hq
    cases hq
  | some r =>
    obtain ⟨q', place⟩ := r
    obtain ⟨m, hl, rfl, -, hm, hh⟩ := alloc_last h.holds hsmall ha
    rw [ha, Option.map_some] at hq
    obtain ⟨rfl, rfl⟩ := Prod.mk.inj (Option.some.inj hq)
    obtain ⟨m', hl', hh', hc', hcarries⟩ := part_written hh hl p.indication hm
    have htake : (e.takePart (e.data.step .four (.alloc (p.data.length + sizeofIndHdr))) (m.place .four)).data =
        ackSegment4write (writeIndData (writeIndHdr (e.data.step .four (.alloc (p.data.length + sizeofIndHdr))) (m.place .four)
          p.indication.ind p.indication.indCh p.indication.data.length) (m.place .four) p.indication.data) (m.place .four) := by
      unfold takePart
      rw [hind, hn]
      simp only [hdata]
      rfl
    have hlive := hl'
    rw [← htake] at hlive hh'
    refine ⟨⟨hh', ?_, h.maxLength, h.combiInd, ?_, ?_, fun x hx => h.short x (List.mem_cons_of_mem _ hx), ?_, ?_⟩, ?_⟩
    · rw [htake]
      exact (step_size _ _).trans ((step_size _ _).trans ((step_size _ _).trans ((step_size _ _).trans
        ((step_size _ _).trans h.size))))
    · change e.cbufferLength - (4 + e.thisIndLength) = _
      rw [hn, hlen]
      omega
    · have hpos : (e.takePart (e.data.step .four (.alloc (p.data.length + sizeofIndHdr))) (m.place .four)).cbufferPos =
          e.cbufferPos + (p.data.length + 4) := by
        change e.cbufferPos + 1 + 2 + (e.thisIndLength + 1) = _
        rw [hn]
        omega
      have hleft : (e.takePart (e.data.step .four (.alloc (p.data.length + sizeofIndHdr))) (m.place .four)).cbufferLength =
          (combined ps).length := by
        change e.cbufferLength - (4 + e.thisIndLength) = _
        rw [hn, hlen]
        omega
      rw [hpos, hleft]
      exact hrest
    · intro x hx
      rw [hlive] at hx
      rcases List.mem_append.mp hx with hx | hx
      · exact h.complete x hx
      · rw [List.mem_singleton.mp hx]
        exact hc'
    · rw [hlive, List.map_append, ← List.append_assoc]
      exact List.rel_append h.carried (.cons hcarries .nil)
    · rw [hlive]
      simp

/-- Where no segment is to be had there is a message in the queue. -/
theorem Core.full {p : Part} {ps : List Part} (h : Core e done (p :: ps))
    (hq : getSegment4write e.data (e.thisIndLength + sizeofIndHdr) = none) : e.data.live ≠ [] := by
  intro hl
  obtain ⟨-, hn, -⟩ := h.first
  have hshort := h.short p (by simp)
  have hneed := msgNeed_le .four (p.data.length + 152)
  rw [hn, getSegment4write_eq (by unfold sizeofIndHdr; omega), Option.map_eq_none_iff] at hq
  refine h.holds.alloc_empty hl ?_ hq
  rw [h.size]
  unfold sizeofIndHdr
  omega

/-- What `read_combi_ind` may change. -/
def moved (e : UserQueue) (data : QueueSt) (cbufferPos cbufferLength : Nat) : UserQueue :=
  { e with data, cbufferPos, cbufferLength }

theorem splitLoop_spec (h : Core e done pending) (fuel ret : Nat) (hfuel : pending.length < fuel) :
    ∃ q pos len full rest done', (splitLoop fuel e ret).1 = e.moved q pos len ∧ (splitLoop fuel e ret).2.2 = full ∧
      Core (e.moved q pos len) done' rest ∧ done' ++ rest.map Part.indication = done ++ pending.map Part.indication ∧
      (full = false ↔ rest = []) ∧ (rest ≠ [] → q.live ≠ []) := by
  induction pending generalizing e done fuel ret with
  | nil =>
    obtain ⟨fuel, rfl⟩ := Nat.exists_eq_succ_of_ne_zero (show fuel ≠ 0 by omega)
    have hlen : e.cbufferLength = 0 := h.length
    have hloop : splitLoop (fuel + 1) e ret = (e, ret, false) := by
      rw [splitLoop, if_neg (by rw [hlen]; omega)]
    exact ⟨e.data, e.cbufferPos, e.cbufferLength, false, [], done, by rw [hloop]; rfl, by rw [hloop], h, rfl, by simp,
      fun hne => absurd rfl hne⟩
  | cons p ps ih =>
    obtain ⟨fuel, rfl⟩ := Nat.exists_eq_succ_of_ne_zero (show fuel ≠ 0 by omega)
    obtain ⟨hind, hn, -, hlen, -⟩ := h.first
    have hshort := h.short p (by simp)
    have hmore : e.cbufferLength > 3 ∧ e.cbuffer e.cbufferPos ≠ 0 := by
      rw [hind]
      exact ⟨by omega, p.ind_ne⟩
    have hfits : ¬ (e.thisIndLength ≥ e.maxLength ∨ e.thisIndLength + 4 > e.cbufferLength) := by
      rw [hn, h.maxLength]
      omega
    cases hq : getSegment4write e.data (e.thisIndLength + sizeofIndHdr) with
    | none =>
      have hloop : splitLoop (fuel + 1) e ret = (e, 1, true) := by
        rw [splitLoop, if_pos hmore, if_neg hfits, hq]
      exact ⟨e.data, e.cbufferPos, e.cbufferLength, true, p :: ps, done, by rw [hloop]; rfl, by rw [hloop], h, rfl,
        by simp, fun _ => h.full hq⟩
    | some r =>
      obtain ⟨q, pind⟩ := r
      have hloop : splitLoop (fuel + 1) e ret = splitLoop fuel (e.takePart q pind) 1 := by
        rw [splitLoop, if_pos hmore, if_neg hfits, hq]
      obtain ⟨hcore, -⟩ := h.part hq
      obtain ⟨q', pos, len, full, rest, done', h1, h2, h3, h4, h5, h6⟩ :=
        ih hcore fuel 1 (by simp only [List.length_cons] at hfuel; omega)
      refine ⟨q', pos, len, full, rest, done', by rw [hloop, h1]; rfl, by rw [hloop, h2], h3, ?_, h5, h6⟩
      rw [h4]
      simp

theorem Core.drained (h : Core e done []) : Core (e.moved e.data 0 0) done [] := by
  have hlen : e.cbufferLength = 0 := h.length
  exact ⟨h.holds, h.size, h.maxLength, h.combiInd, rfl, rfl, h.short, h.complete, h.carried⟩

/-- `read_combi_ind` puts as many parts into the queue as it has room for. -/
theorem readCombiInd_spec (h : Core e done pending) :
    ∃ q pos len rest done', e.readCombiInd.1 = e.moved q pos len ∧ Core (e.moved q pos len) done' rest ∧
      done' ++ rest.map Part.indication = done ++ pending.map Part.indication ∧ (rest ≠ [] → q.live ≠ []) ∧
      (rest = [] → pos = 0) := by
  have hfuel : pending.length < e.cbufferLength + 1 := by
    have := combined_length_le pending
    rw [h.length]
    omega
  obtain ⟨q, pos, len, full, rest, done', h1, h2, hcore, hsum, hfull, hlive⟩ := splitLoop_spec h _ 0 hfuel
  have hloop : splitLoop (e.cbufferLength + 1) e 0 = (e.moved q pos len, (splitLoop (e.cbufferLength + 1) e 0).2.1, full) := by
    rw [← h1, ← h2]
  unfold readCombiInd
  rw [if_neg (by rw [h.combiInd]; decide), hloop]
  cases full with
  | true => exact ⟨q, pos, len, rest, done', rfl, hcore, hsum, hlive, fun hr => absurd (hfull.mpr hr) (by decide)⟩
  | false =>
    obtain rfl := hfull.mp rfl
    have hlen : (e.moved q pos len).cbufferLength = 0 := hcore.length
    refine ⟨q, 0, 0, [], done', ?_, hcore.drained, hsum, fun hne => absurd rfl hne, fun _ => rfl⟩
    simp only [hlen, Nat.zero_le, true_or, if_true]
    rfl

/-! ## Between the calls -/

/-- The fields that matter to `Core` are the same. -/
theorem Core.congr {e' : UserQueue} (h : Core e done pending) (hd : e'.data = e.data) (hm : e'.maxLength = e.maxLength)
    (hc : e'.combiInd = e.combiInd) (hb : e'.cbuffer = e.cbuffer) (hl : e'.cbufferLength = e.cbufferLength)
    (hp : e'.cbufferPos = e.cbufferPos) (hr : e'.readOut = e.readOut) : Core e' done pending :=
  ⟨hd ▸ h.holds, hd ▸ h.size, hm ▸ h.maxLength, hc ▸ h.combiInd, hl ▸ h.length, by rw [hb, hp, hl]; exact h.bytes, h.short,
    hd ▸ h.complete, by rw [hr, hd]; exact h.carried⟩

theorem Core.pending_nil (h : Core e done pending) (hl : e.cbufferLength = 0) : pending = [] := by
  have hle := combined_length_le pending
  rw [← h.length, hl] at hle
  exact List.length_eq_zero_iff.mp (Nat.le_zero.mp hle)

theorem Core.at_start (h : Core e done []) : Core { e with cbufferPos := 0 } done [] := by
  have hlen : e.cbufferLength = 0 := h.length
  refine ⟨h.holds, h.size, h.maxLength, h.combiInd, h.length, ?_, h.short, h.complete, h.carried⟩
  change load e.cbuffer 0 e.cbufferLength = []
  rw [hlen]
  rfl

/-- The newest message is the segment of a plain indication that is not complete, and no part is waiting. -/
structure Open (e : UserQueue) (done : List Indication) (pind rLength : Nat) : Prop where
  holds : Holds .four e.data
  size : e.data.q.size = 2560 * 16
  maxLength : e.maxLength = 2560
  combiInd : e.combiInd = false
  length : e.cbufferLength = 0
  live : ∃ front m, e.data.live = front ++ [m] ∧ m.place .four = pind ∧ m.complete = false ∧
    m.bytes.length = rLength + sizeofIndHdr ∧ (∀ a, a ∈ front → a.complete = true) ∧
      List.Forall₂ Carries (e.readOut ++ front.map Msg.bytes) done

theorem Open.congr {e' : UserQueue} {pind rLength : Nat} (h : Open e done pind rLength) (hd : e'.data = e.data)
    (hm : e'.maxLength = e.maxLength) (hc : e'.combiInd = e.combiInd) (hl : e'.cbufferLength = 0) (hr : e'.readOut = e.readOut) :
    Open e' done pind rLength :=
  ⟨hd ▸ h.holds, hd ▸ h.size, hm ▸ h.maxLength, hc ▸ h.combiInd, hl, by rw [hd, hr]; exact h.live⟩

/-- The state by what the adapter has been offered. -/
def Stage (e : UserQueue) (done : List Indication) (pending : List Part) : Prop :=
  match e.offer with
  | none => Core e done pending
  | some .cbuffer => pending = [] ∧ e.cbufferPos = 0 ∧ Core e done pending
  | some (.segment _ pind rLength) => pending = [] ∧ Open e done pind rLength

structure Inv (e : UserQueue) : Prop where
  stage : ∃ done pending, Stage e done pending ∧ e.arrived = done ++ pending.map Part.indication ∧
    (pending ≠ [] → e.data.live ≠ [])

/-- A new segment is the newest message. -/
theorem Core.segment (h : Core e done []) {q : QueueSt} {pind rLength : Nat} (hsmall : rLength + sizeofIndHdr < 0x8000)
    (hq : getSegment4write e.data (rLength + sizeofIndHdr) = some (q, pind)) (rNum rnr : UInt8) (offer : Option Offer) :
    Open { e with data := q, rNum, rnr, offer } done pind rLength := by
  rw [getSegment4write_eq (by omega)] at hq
  cases ha : queueAllocMsg .four e.data.q (rLength + sizeofIndHdr) with
  | none =>
    rw [ha] at hq
    cases hq
  | some r =>
    obtain ⟨q', place⟩ := r
    obtain ⟨m, hl, rfl, hc, hm, hh⟩ := alloc_last h.holds hsmall ha
    rw [ha, Option.map_some] at hq
    obtain ⟨rfl, rfl⟩ := Prod.mk.inj (Option.some.inj hq)
    exact ⟨hh, (step_size _ _).trans h.size, h.maxLength, h.combiInd, h.length, e.data.live, m, hl, rfl, hc,
      hm, h.complete, h.carried⟩

/-- The data of the plain indication is complete. -/
theorem Open.completed {pind rLength : Nat} (h : Open e done pind rLength) {bytes : List UInt8} (hb : bytes.length ≤ rLength)
    (ind indCh : UInt8) : Core (e.completePlain ind pind indCh bytes).1 (done ++ [⟨ind, indCh, bytes⟩]) [] := by
  obtain ⟨front, m, hl, rfl, -, hm, hfront, hcarried⟩ := h.live
  obtain ⟨m', hl', hh', hc', hcarries⟩ := plain_written h.holds hl ⟨ind, indCh, bytes⟩ (by simp only []; omega)
  have hdata : (e.completePlain ind (m.place .four) indCh bytes).1.data = ackSegment4write (writeIndHdr (writeIndData e.data
      (m.place .four) bytes) (m.place .four) ind indCh bytes.length) (m.place .four) := rfl
  rw [← hdata] at hl' hh'
  refine ⟨hh', ?_, h.maxLength, h.combiInd, h.length, ?_, by simp, ?_, ?_⟩
  · rw [hdata]
    exact (step_size _ _).trans ((step_size _ _).trans ((step_size _ _).trans ((step_size _ _).trans h.size)))
  · have hlen : (e.completePlain ind (m.place .four) indCh bytes).1.cbufferLength = 0 := h.length
    rw [hlen]
    rfl
  · intro a ha
    rw [hl'] at ha
    rcases List.mem_append.mp ha with ha | ha
    · exact hfront a ha
    · rw [List.mem_singleton.mp ha]
      exact hc'
  · rw [hl', List.map_append, ← List.append_assoc]
    exact List.rel_append hcarried (.cons hcarries .nil)

/-- A combined indication is in `cbuffer`. -/
theorem Core.filled (h : Core e done []) (hpos : e.cbufferPos = 0) {parts : List Part}
    (hshort : ∀ p, p ∈ parts → p.data.length < 2560) (offer : Option Offer) (arrived : List Indication) :
    Core
      { e with
        cbuffer := store e.cbuffer 0 (combined parts)
        cbufferLength := (combined parts).length
        offer := offer
        arrived := arrived } done parts := by
  refine ⟨h.holds, h.size, h.maxLength, h.combiInd, rfl, ?_, hshort, h.complete, h.carried⟩
  change load (store e.cbuffer 0 (combined parts)) e.cbufferPos (combined parts).length = _
  rw [hpos]
  exact load_store_self _ _ _

/-- The user gets the first message. -/
theorem Core.popped (h : Core e done pending) {place size : Nat} (hp : queuePeekMsg .four e.data.q = some (place, size)) :
    Core { e with data := e.data.step .four .free, readOut := e.readOut ++ [load e.data.q.mem place size] } done pending := by
  cases hl : e.data.live with
  | nil =>
    rw [h.holds.peek, hl] at hp
    cases hp
  | cons m live =>
    rw [h.holds.peek_first hl, if_pos (h.complete m (by rw [hl]; simp))] at hp
    obtain ⟨rfl, rfl⟩ := Prod.mk.inj (Option.some.inj hp)
    have hm := (h.holds.stored m (by rw [hl]; simp)).bytes
    have htail : (e.data.step .four .free).live = live := by
      change e.data.live.tail = live
      rw [hl]
      rfl
    refine ⟨h.holds.free (by rw [hl]; simp), (step_size _ _).trans h.size, h.maxLength, h.combiInd, h.length,
      h.bytes, h.short, ?_, ?_⟩
    · intro a ha
      rw [htail] at ha
      exact h.complete a (by rw [hl]; exact List.mem_cons_of_mem _ ha)
    · have hcarried := h.carried
      rw [hl] at hcarried
      change List.Forall₂ Carries (e.readOut ++ [load e.data.q.mem (m.place .four) m.bytes.length] ++
        (e.data.step .four .free).live.map Msg.bytes) done
      rw [hm, htail, List.append_assoc]
      exact hcarried

/-- The user gets the first message, which is not the open segment. -/
theorem Open.popped {pind rLength : Nat} (h : Open e done pind rLength) {place size : Nat}
    (hp : queuePeekMsg .four e.data.q = some (place, size)) :
    Open { e with data := e.data.step .four .free, readOut := e.readOut ++ [load e.data.q.mem place size] }
      done pind rLength := by
  obtain ⟨front, m, hl, hplace, hc, hm, hfront, hcarried⟩ := h.live
  cases front with
  | nil =>
    have hl' : e.data.live = m :: [] := hl
    rw [h.holds.peek_first hl', hc] at hp
    cases hp
  | cons a front =>
    have hl' : e.data.live = a :: (front ++ [m]) := hl
    rw [h.holds.peek_first hl', if_pos (hfront a (by simp))] at hp
    obtain ⟨rfl, rfl⟩ := Prod.mk.inj (Option.some.inj hp)
    have hbytes := (h.holds.stored a (by rw [hl']; simp)).bytes
    refine ⟨h.holds.free (by rw [hl']; simp), (step_size _ _).trans h.size, h.maxLength, h.combiInd, h.length,
      front, m, ?_, hplace, hc,
      hm, fun x hx => hfront x (List.mem_cons_of_mem _ hx), ?_⟩
    · change e.data.live.tail = _
      rw [hl']
      rfl
    · change List.Forall₂ Carries (e.readOut ++ [load e.data.q.mem (a.place .four) a.bytes.length] ++ front.map Msg.bytes) done
      rw [hbytes, List.append_assoc]
      exact hcarried

/-! ## The steps -/

/-- Without parts `read_combi_ind` only resets the position. -/
theorem readCombiInd_idle (hc : e.combiInd = false) (hl : e.cbufferLength = 0) : e.readCombiInd.1 = e.moved e.data 0 0 := by
  have hloop : splitLoop (e.cbufferLength + 1) e 0 = (e, 0, false) := by
    rw [splitLoop, if_neg (by rw [hl]; omega)]
  unfold readCombiInd
  rw [if_neg (by rw [hc]; decide), hloop]
  simp only [hl, Nat.zero_le, true_or, if_true]
  rfl

/-- The parts of the state that a split leaves. -/
theorem moved_fields (q : QueueSt) (pos len : Nat) : (e.moved q pos len).offer = e.offer ∧
    (e.moved q pos len).arrived = e.arrived ∧
    (e.moved q pos len).readOut = e.readOut ∧ (e.moved q pos len).cbuffer = e.cbuffer := ⟨rfl, rfl, rfl, rfl⟩

/-- `read_combi_ind` keeps every stage. -/
theorem Stage.split (h : Stage e done pending) (hsum : e.arrived = done ++ pending.map Part.indication) :
    Inv e.readCombiInd.1 := by
  unfold Stage at h
  cases ho : e.offer with
  | none =>
    rw [ho] at h
    obtain ⟨q, pos, len, rest, done', heq, hcore, hsum', hlive, -⟩ := readCombiInd_spec h
    rw [heq]
    refine ⟨done', rest, ?_, ?_, hlive⟩
    · unfold Stage
      rw [(moved_fields q pos len).1, ho]
      exact hcore
    · exact hsum.trans hsum'.symm
  | some offer =>
    rw [ho] at h
    cases offer with
    | cbuffer =>
      obtain ⟨rfl, hpos, hcore⟩ := h
      rw [readCombiInd_idle hcore.combiInd hcore.length]
      refine ⟨done, [], ?_, hsum, fun hne => absurd rfl hne⟩
      unfold Stage
      rw [(moved_fields e.data 0 0).1, ho]
      exact ⟨rfl, rfl, hcore.drained⟩
    | segment ind pind rLength =>
      obtain ⟨rfl, hopen⟩ := h
      rw [readCombiInd_idle hopen.combiInd hopen.length]
      refine ⟨done, [], ?_, hsum, fun hne => absurd rfl hne⟩
      unfold Stage
      rw [(moved_fields e.data 0 0).1, ho]
      exact ⟨rfl, hopen.congr rfl rfl rfl rfl rfl⟩

/-- The fields of the return codes do not matter. -/
theorem Stage.returnCodes (h : Stage e done pending) (rc : List (List UInt8)) (rcPending : Bool) :
    Stage { e with rc, rcPending } done pending := by
  unfold Stage at h ⊢
  cases ho : e.offer with
  | none =>
    rw [ho] at h
    exact h.congr rfl rfl rfl rfl rfl rfl rfl
  | some offer =>
    rw [ho] at h
    cases offer with
    | cbuffer => exact ⟨h.1, h.2.1, h.2.2.congr rfl rfl rfl rfl rfl rfl rfl⟩
    | segment ind pind rLength => exact ⟨h.1, h.2.congr rfl rfl rfl h.2.length rfl⟩

/-- The user gets the first message. -/
theorem Stage.popped (h : Stage e done pending) {place size : Nat} (hp : queuePeekMsg .four e.data.q = some (place, size)) :
    Stage { e with data := e.data.step .four .free, readOut := e.readOut ++ [load e.data.q.mem place size] } done pending := by
  unfold Stage at h ⊢
  cases ho : e.offer with
  | none =>
    rw [ho] at h
    exact (h.popped hp).congr rfl rfl rfl rfl rfl rfl rfl
  | some offer =>
    rw [ho] at h
    cases offer with
    | cbuffer => exact ⟨h.1, h.2.1, (h.2.2.popped hp).congr rfl rfl rfl rfl rfl rfl rfl⟩
    | segment ind pind rLength => exact ⟨h.1, (h.2.popped hp).congr rfl rfl rfl h.2.length rfl⟩

theorem Inv.read (h : Inv e) (maxLength copied : Int) : Inv (e.read maxLength copied).1 := by
  obtain ⟨done, pending, hstage, hsum, hlive⟩ := h.stage
  unfold UserQueue.read
  cases hrc : e.rc with
  | cons segment rc =>
    simp only []
    have hkeep : Inv { e with rcPending := false } := by
      have hs := hstage.returnCodes e.rc false
      exact ⟨done, pending, hs, hsum, hlive⟩
    split
    · simpa [hrc] using hkeep
    · split
      · exact Stage.split (hstage.returnCodes rc false) hsum
      · simpa [hrc] using hkeep
  | nil =>
    simp only []
    split
    · exact ⟨done, pending, hstage, hsum, hlive⟩
    · obtain ⟨done', pending', hstage', hsum', hlive'⟩ := (Stage.split hstage hsum).stage
      have hkeep : Inv e.readCombiInd.1 := ⟨done', pending', hstage', hsum', hlive'⟩
      split
      · exact hkeep
      · rename_i place size hp
        split
        · exact hkeep
        · split
          · exact Stage.split (hstage'.popped hp) hsum'
          · exact hkeep

/-- A plain indication is not offered while parts wait for a segment, unless there is none for it either, and the flag of
an incomplete message has no bit in common with its length. -/
def Orderly (e : UserQueue) : IndEv → Prop
  | .look ind rLength => ind ≠ manCombiInd → getSegment4write e.data (rLength.toNat + sizeofIndHdr) = none ∨
      (e.cbufferLength = 0 ∧ rLength.toNat + sizeofIndHdr < 0x8000)
  | _ => True

instance (e : UserQueue) : (ev : IndEv) → Decidable (Orderly e ev)
  | .look _ _ => inferInstanceAs (Decidable (_ → _))
  | .plain _ _ | .combi _ | .read _ _ | .returnCodes _ _ => isTrue trivial

theorem Inv.look (h : Inv e) (ho : e.offer = none) (ind : UInt8) {rLength : UInt16} (hord : Orderly e (.look ind rLength)) :
    Inv (e.lookAhead ind rLength.toNat).1 := by
  obtain ⟨done, pending, hstage, hsum, hlive⟩ := h.stage
  have hcore : Core e done pending := by
    unfold Stage at hstage
    rwa [ho] at hstage
  unfold lookAhead
  by_cases hind : ind = manCombiInd
  · rw [if_pos hind]
    -- the parts of the last combined indication first
    have hfirst : ∃ q pos len rest done', (if e.cbufferLength ≠ 0 then e.readCombiInd else (e, 0)).1 = e.moved q pos len ∧
        Core (e.moved q pos len) done' rest ∧ done' ++ rest.map Part.indication = done ++ pending.map Part.indication ∧
        (rest ≠ [] → q.live ≠ []) := by
      by_cases hl : e.cbufferLength ≠ 0
      · rw [if_pos hl]
        obtain ⟨q, pos, len, rest, done', heq, hcore', hsum', hlive', -⟩ := readCombiInd_spec hcore
        exact ⟨q, pos, len, rest, done', heq, hcore', hsum', hlive'⟩
      · rw [if_neg hl]
        exact ⟨e.data, e.cbufferPos, e.cbufferLength, pending, done, rfl, hcore, rfl, hlive⟩
    obtain ⟨q, pos, len, rest, done', heq, hcore', hsum', hlive'⟩ := hfirst
    simp only [heq]
    split
    · rename_i hl
      obtain rfl := hcore'.pending_nil hl
      refine ⟨done', [], ⟨rfl, rfl, hcore'.at_start.congr rfl rfl rfl rfl rfl rfl rfl⟩, hsum.trans hsum'.symm,
        fun hne => absurd rfl hne⟩
    · exact ⟨done', rest, hcore'.congr rfl rfl rfl rfl rfl rfl rfl, hsum.trans hsum'.symm, hlive'⟩
  · rw [if_neg hind]
    cases hq : getSegment4write e.data (rLength.toNat + sizeofIndHdr) with
    | none => exact ⟨done, pending, hcore.congr rfl rfl rfl rfl rfl rfl rfl, hsum, hlive⟩
    | some r =>
      obtain ⟨q, pind⟩ := r
      obtain ⟨hl, hsmall⟩ := (hord hind).resolve_left (by rw [hq]; simp)
      obtain rfl := hcore.pending_nil hl
      exact ⟨done, [], ⟨rfl, hcore.segment hsmall hq _ _ _⟩, hsum, fun hne => absurd rfl hne⟩

theorem Inv.step (h : Inv e) {ev : IndEv} (hp : Protocol e ev) (hord : Orderly e ev) : Inv (e.step ev) := by
  obtain ⟨done, pending, hstage, hsum, hlive⟩ := h.stage
  cases ev with
  | look ind rLength => exact h.look hp ind hord
  | plain indCh bytes =>
    obtain ⟨ind, pind, rLength, ho, hb⟩ := hp
    unfold Stage at hstage
    rw [ho] at hstage
    obtain ⟨rfl, hopen⟩ := hstage
    simp only [UserQueue.step, ho]
    have hcore := hopen.completed hb ind indCh
    refine ⟨done ++ [(⟨ind, indCh, bytes⟩ : Indication)], [], hcore, ?_, fun hne => absurd rfl hne⟩
    change e.arrived ++ [_] = _
    rw [hsum]
    simp
  | combi parts =>
    obtain ⟨ho, -, hshort⟩ := hp
    unfold Stage at hstage
    rw [ho] at hstage
    obtain ⟨rfl, hpos, hcore⟩ := hstage
    rw [hcore.maxLength] at hshort
    simp only [UserQueue.step, ho]
    refine @Stage.split _ done parts (hcore.filled hpos hshort none _) ?_
    rw [hsum]
    simp
  | read maxLength copied => exact h.read maxLength copied
  | returnCodes rc pending' => exact ⟨done, pending, hstage.returnCodes rc pending', hsum, hlive⟩

theorem Inv.created (memory cbuffer : Mem) : Inv (created memory cbuffer) := by
  refine ⟨[], [], ?_, rfl, fun hne => absurd rfl hne⟩
  exact ⟨Holds.start memory _, rfl, rfl, rfl, rfl, rfl, by simp, by simp [UserQueue.created, QueueSt.start], .nil⟩

/-! ## Runs -/

/-- What has arrived is what the reader has got, what is in the queue, and the parts in `cbuffer`, in this order and byte for
byte; parts wait only behind a message. -/
structure Delivered (e : UserQueue) : Prop where
  queue : Holds .four e.data
  sequence : ∃ done pending,
    List.Forall₂ Carries (e.readOut ++ (e.data.live.filter Msg.complete).map Msg.bytes) done ∧
      e.arrived = done ++ pending.map Part.indication ∧ load e.cbuffer e.cbufferPos e.cbufferLength = combined pending ∧
        (pending ≠ [] → e.data.live ≠ [])

/-- A look-ahead is answered with RNR and nothing of it is kept; what has arrived is where it was, or in the queue. -/
structure Refused (e e' : UserQueue) (ind : UInt8) : Prop where
  answer : e'.rNum = 0 ∧ e'.rnr = 1
  same : e'.arrived = e.arrived ∧ e'.readOut = e.readOut ∧ e'.cbuffer = e.cbuffer
  plain : ind ≠ manCombiInd → e'.data = e.data ∧ e'.cbufferPos = e.cbufferPos ∧ e'.cbufferLength = e.cbufferLength
  delivered : Delivered e'

theorem Inv.delivered (h : Inv e) : Delivered e := by
  obtain ⟨done, pending, hstage, hsum, hlive⟩ := h.stage
  unfold Stage at hstage
  cases ho : e.offer with
  | none =>
    rw [ho] at hstage
    have hfilter := List.filter_eq_self.mpr hstage.complete
    exact ⟨hstage.holds, done, pending, by rw [hfilter]; exact hstage.carried, hsum, hstage.bytes, hlive⟩
  | some offer =>
    rw [ho] at hstage
    cases offer with
    | cbuffer =>
      obtain ⟨rfl, -, hcore⟩ := hstage
      have hfilter := List.filter_eq_self.mpr hcore.complete
      exact ⟨hcore.holds, done, [], by rw [hfilter]; exact hcore.carried, hsum, hcore.bytes, hlive⟩
    | segment ind pind rLength =>
      obtain ⟨rfl, hopen⟩ := hstage
      obtain ⟨front, m, hl, -, hc, -, hfront, hcarried⟩ := hopen.live
      have hfilter : e.data.live.filter Msg.complete = front := by
        rw [hl, List.filter_append, List.filter_eq_self.mpr hfront, List.filter_cons_of_neg (by rw [hc]; decide), List.filter_nil,
          List.append_nil]
      refine ⟨hopen.holds, done, [], by rw [hfilter]; exact hcarried, hsum, ?_, hlive⟩
      rw [hopen.length]
      rfl

theorem Inv.refused (h : Inv e) (ho : e.offer = none) {ind : UInt8} {rLength : UInt16}
    (hr : (e.step (.look ind rLength)).offer = none) : Refused e (e.step (.look ind rLength)) ind := by
  have hlook : e.step (.look ind rLength) = (e.lookAhead ind rLength.toNat).1 := rfl
  have hord : Orderly e (.look ind rLength) := by
    intro hind
    left
    cases hq : getSegment4write e.data (rLength.toNat + sizeofIndHdr) with
    | none => rfl
    | some r =>
      rw [hlook, lookAhead, if_neg hind, hq] at hr
      cases hr
  have hdelivered := (h.look ho ind hord).delivered
  rw [hlook] at hr ⊢
  by_cases hind : ind = manCombiInd
  · have hmoved : ∃ q pos len, (if e.cbufferLength ≠ 0 then e.readCombiInd else (e, 0)).1 = e.moved q pos len := by
      obtain ⟨done, pending, hstage, -⟩ := h.stage
      unfold Stage at hstage
      rw [ho] at hstage
      by_cases hl : e.cbufferLength ≠ 0
      · rw [if_pos hl]
        obtain ⟨q, pos, len, rest, done', heq, -⟩ := readCombiInd_spec hstage
        exact ⟨q, pos, len, heq⟩
      · rw [if_neg hl]
        exact ⟨e.data, e.cbufferPos, e.cbufferLength, rfl⟩
    obtain ⟨q, pos, len, heq⟩ := hmoved
    have hres : (e.lookAhead ind rLength.toNat).1 = { e.moved q pos len with rNum := 0, rnr := 1, offer := none } := by
      unfold lookAhead at hr ⊢
      rw [if_pos hind] at hr ⊢
      simp only [heq] at hr ⊢
      split
      · rename_i hl
        rw [if_pos hl] at hr
        cases hr
      · rfl
    exact ⟨by rw [hres]; exact ⟨rfl, rfl⟩, by rw [hres]; exact ⟨rfl, rfl, rfl⟩, fun hne => absurd hind hne, hdelivered⟩
  · have hq : getSegment4write e.data (rLength.toNat + sizeofIndHdr) = none := by
      cases hq : getSegment4write e.data (rLength.toNat + sizeofIndHdr) with
      | none => rfl
      | some r =>
        rw [lookAhead, if_neg hind, hq] at hr
        cases hr
    have hres : (e.lookAhead ind rLength.toNat).1 = { e with rNum := 0, rnr := 1, offer := none } := by
      rw [lookAhead, if_neg hind, hq]
    exact ⟨by rw [hres]; exact ⟨rfl, rfl⟩, by rw [hres]; exact ⟨rfl, rfl, rfl⟩,
      fun _ => by rw [hres]; exact ⟨rfl, rfl, rfl⟩, hdelivered⟩

/-- In every run in which no plain indication is taken while parts are waiting, and none too long for the flag in its head,
each indication and each part reaches the queue once and in order, and what is refused changes nothing. -/
theorem indications_in_order {memory cbuffer : Mem} {es : List IndEv}
    (hp : Along step Protocol (created memory cbuffer) es) (ho : Along step Orderly (created memory cbuffer) es) :
    let e := run step (created memory cbuffer) es
    Delivered e ∧ ∀ ind rLength, e.offer = none → (e.step (.look ind rLength)).offer = none →
      Refused e (e.step (.look ind rLength)) ind := by
  intro e
  have hboth := (along_and step).mpr ⟨hp, ho⟩
  have hinv : Inv e := hboth.invariant step (fun _ _ h hs => h.step hs.1 hs.2) (Inv.created memory cbuffer)
  exact ⟨hinv.delivered, fun ind rLength hnone hr => hinv.refused hnone hr⟩

/-- A part that needs 356 bytes of the queue. -/
def longPart (ind : UInt8) : Part where
  ind := if ind = 0 then 4 else ind
  data := List.replicate 200 ind
  trailer := 0
  ind_ne := by
    split
    · decide
    · assumption
  length_lt := by rw [List.length_replicate]; decide

/-- Two plain indications leave 648 bytes of the queue: room for one of the three parts, and none for the next plain one. -/
def busyRun : List IndEv :=
  [.look 3 20000, .plain 0 [1, 2], .look 3 20000, .plain 1 [3], .look manCombiInd 612,
    .combi [longPart 4, longPart 5, longPart 6], .look 3 200]

/-- The plain indication is refused and offered again, when the reader has taken the first message. -/
theorem indications_in_order_busyRun :
    let e := run step (created (fun _ => 0) (fun _ => 0)) busyRun
    let e' := run step (created (fun _ => 0) (fun _ => 0)) (busyRun ++ [.read 40000 0, .look 3 200, .plain 0 [7]])
    e.cbufferLength ≠ 0 ∧ Delivered e ∧ Refused e (e.step (.look 3 200)) 3 ∧ Delivered e' ∧ e'.arrived.length = 6 := by
  have hfull : (run step (created (fun _ => 0) (fun _ => 0)) busyRun).offer = none ∧
      ((run step (created (fun _ => 0) (fun _ => 0)) busyRun).step (.look 3 200)).offer = none := by
    decide +kernel
  have hok : Along step Protocol (created (fun _ => 0) (fun _ => 0)) (busyRun ++ [.read 40000 0, .look 3 200, .plain 0 [7]]) ∧
      Along step Orderly (created (fun _ => 0) (fun _ => 0)) (busyRun ++ [.read 40000 0, .look 3 200, .plain 0 [7]]) := by
    decide +kernel
  have hbusy := indications_in_order ((along_append step).mp hok.1).1 ((along_append step).mp hok.2).1
  have hlast := indications_in_order hok.1 hok.2
  exact ⟨by decide +kernel, hbusy.1, hbusy.2 3 200 hfull.1 hfull.2, hlast.1, by decide +kernel⟩

/-! ## A plain indication behind a combined one -/

/-- Eighteen of these leave 280 bytes of the queue. -/
def filler : List IndEv := [.look 3 2104, .plain 0 (List.replicate 2104 0)]

def latePart : Part where
  ind := 4
  data := List.replicate 200 0
  trailer := 0
  ind_ne := by decide
  length_lt := by rw [List.length_replicate]; decide

/-- The part needs 356 bytes and waits in `cbuffer`; the plain indication after it needs 256. -/
def overtaking : List IndEv :=
  (List.replicate 18 filler).flatten ++ [.look manCombiInd 204, .combi [latePart], .look 3 100, .plain 0 (List.replicate 100 0)]

/-- The last message in the queue is the plain indication, which has arrived after the part. -/
theorem plain_overtakes : ¬ ∀ (memory cbuffer : Mem) (es : List IndEv), Along step Protocol (created memory cbuffer) es →
    Delivered (run step (created memory cbuffer) es) := by
  intro h
  obtain ⟨done, pending, hcarried, harrived, -⟩ := (h (fun _ => 0) (fun _ => 0) overtaking (by decide +kernel)).sequence
  have hmessages : ((run step (created (fun _ => 0) (fun _ => 0)) overtaking).readOut ++
      ((run step (created (fun _ => 0) (fun _ => 0)) overtaking).data.live.filter Msg.complete).map Msg.bytes).length = 19 := by
    decide +kernel
  have hlast : (((run step (created (fun _ => 0) (fun _ => 0)) overtaking).readOut ++
      ((run step (created (fun _ => 0) (fun _ => 0)) overtaking).data.live.filter Msg.complete).map Msg.bytes)[18]?.bind
        fun bytes => bytes[4]?) = some 3 := by
    decide +kernel
  have hpart : (run step (created (fun _ => 0) (fun _ => 0)) overtaking).arrived[18]? = some latePart.indication := by
    decide +kernel
  rw [harrived, List.getElem?_append_left (by rw [← hcarried.length_eq, hmessages]; decide)] at hpart
  generalize (run step (created (fun _ => 0) (fun _ => 0)) overtaking).readOut ++
    ((run step (created (fun _ => 0) (fun _ => 0)) overtaking).data.live.filter Msg.complete).map Msg.bytes = messages at *
  have hlen : done.length = 19 := hcarried.length_eq.symm.trans hmessages
  have hcarries := hcarried.get (i := 18) (by omega) (by omega)
  simp only [List.get_eq_getElem] at hcarries
  rw [List.getElem?_eq_getElem (by omega), Option.bind_some] at hlast
  rw [List.getElem?_eq_getElem (by omega), Option.some_inj] at hpart
  rw [hpart] at hcarries
  have hind := congrArg (fun l => l[4]?) hcarries.head
  simp only [window_getElem?] at hind
  rw [if_pos (by decide), Nat.zero_add, hlast] at hind
  exact absurd hind (by decide)

end UserQueue

end Divas.Um
