/-
  Divas.Capi.SendData — `send_data` serves the NCCIs of a PLCI in turn (message.c).

  The NCCIs of a PLCI are a circle, and `ncci_ring_list` is where `send_data` stopped last.
  It goes on behind it, as far as an NCCI that has something to send, or once around. An
  NCCI with data pending is sent its oldest data if it is connected or is to be
  disconnected, and is cleaned up otherwise; one without data is disconnected if
  `send_disc` names it. `nlRequest` is what is sent for an NCCI, if anything is.

  `DataSt` is the state of `Divas.Capi.Window` with the requests in full.

  Proved: a call visits the NCCIs in their order and each at most once, makes at most one
  request, for the NCCI visited last, and is the call of `Divas.Capi.Window` besides
  (`sendData_window`). Whatever happens between the calls, an NCCI that is ready at every
  call is served by one of as many requests as there are NCCIs (`send_data_serves`).
-/

import Mathlib.Data.List.Perm.Subperm
import Divas.Lib.RoundRobin
import Divas.Capi.BProtocol
import Divas.Capi.Window

namespace Divas.Capi

open Divas.Lib.Links Divas.Lib.RoundRobin Divas.Lib.Ring Divas.Lib.Run

variable {P : PtrSize}

/-! ## The requests -/

def nDisc : Nat := 4
def nData : Nat := 8
def nUdata : Nat := 10

def b2V120Async : Nat := 9
def b2V120AsyncV42bis : Nat := 10
def b2V120BitTransparent : Nat := 11

/-- `v120_default_header` and `v120_break_header`. -/
def v120DefaultHeader : UInt8 := 0x83
def v120BreakHeader : UInt8 := 0xc3 ||| 0x40

/-- A block of `NData`. -/
inductive NDataBlock where
  | header (byte : UInt8)
  | transmitBuffer (p length : Nat)
  | faxConnectInfo (length : Nat)
  | empty
  deriving DecidableEq, Repr

/-- What `a->request (&plci->NL)` is given. -/
structure NlRequest where
  req : Nat
  reqCh : Nat
  nData : List NDataBlock
  deriving DecidableEq, Repr

structure DataSt (P : PtrSize) extends WinSt P where
  b2Prot : Nat
  b3Prot : Nat
  faxConnectInfoLength : Nat
  /-- The requests of `send_data`, in order. -/
  requests : List NlRequest

/-- `DBuffer[data_out]`. -/
def Ncci.oldest (w : Ncci) : DataB3Desc := w.dBuffer w.dataOut

/-- `(byte)((data->Flags&0x07)<<4 |N_DATA)`. -/
def nDataReq (flags : Nat) : Nat := (flags &&& 0x07) <<< 4 ||| nData

namespace DataSt

def isV120 (s : DataSt P) : Bool :=
  s.b2Prot == b2V120Async || s.b2Prot == b2V120AsyncV42bis || s.b2Prot == b2V120BitTransparent

def dataRequest (s : DataSt P) (n : Nat) : NlRequest :=
  let data := (s.a.ncci n).oldest
  let block := .transmitBuffer data.p data.length
  if s.isV120 then
    { req := nDataReq data.flags
      reqCh := s.a.ncciCh n
      nData := [.header (if data.flags &&& 0x10 ≠ 0 then v120BreakHeader else v120DefaultHeader), block] }
  else
    { req := if data.flags &&& 0x10 ≠ 0 then nUdata else nDataReq data.flags
      reqCh := s.a.ncciCh n
      nData := [block] }

def discRequest (s : DataSt P) (n : Nat) : NlRequest :=
  { req := nDisc
    reqCh := s.a.ncciCh n
    nData := [if s.b3Prot = b3T30WithExtensions then .faxConnectInfo s.faxConnectInfoLength else .empty] }

/-- `ch_flow_control[ncci_ch[ncci]] & N_OK_FC_PENDING`, for an NCCI with a channel. -/
def flowControlled (s : DataSt P) (n : Nat) : Bool := s.a.ncciCh n != 0 && s.a.okFcPending (s.a.ncciCh n)

/-- The data of the NCCI may be sent. -/
def DataReady (s : DataSt P) (n : Nat) : Prop :=
  (s.a.ncci n).dataPending ≠ 0
    ∧ (s.a.ncciState n = .connected ∨ s.a.ncciState n = .incActPending ∨ s.plci.sendDisc = n)

/-- The NCCI is to be disconnected, and has no data. -/
def DiscReady (s : DataSt P) (n : Nat) : Prop :=
  (s.a.ncci n).dataPending = 0 ∧ s.plci.sendDisc = n ∧ s.plci.command = 0

instance (s : DataSt P) (n : Nat) : Decidable (s.DataReady n) := inferInstanceAs (Decidable (_ ∧ _))

instance (s : DataSt P) (n : Nat) : Decidable (s.DiscReady n) := inferInstanceAs (Decidable (_ ∧ _))

/-- What is sent for an NCCI. -/
def nlRequest (s : DataSt P) (n : Nat) : Option NlRequest :=
  if s.flowControlled n then none
  else if s.DataReady n then some (s.dataRequest n)
  else if s.DiscReady n then some (s.discRequest n)
  else none

/-! ## send_data -/

/-- A turn of the loop. -/
def turn (s : DataSt P) (n : Nat) : DataSt P :=
  { s with toWinSt := s.toWinSt.sendDataNcci n, requests := s.requests ++ (s.nlRequest n).toList }

def nlBusy (s : DataSt P) : Bool := s.plci.nlReq

def next (s : DataSt P) (n : Nat) : Nat := s.a.ncciNext n

def setRing (s : DataSt P) (n : Nat) : DataSt P := { s with toWinSt := s.toWinSt.setRing n }

/-- The NCCIs visited, and the state. -/
def sendData (s : DataSt P) : List Nat × DataSt P :=
  if !s.plci.nlReq && s.plci.ncciRingList != 0 then
    let r := scan next turn nlBusy s.plci.ncciRingList maxNcci s.plci.ncciRingList s
    (r.1, r.2.setRing (r.1.getLastD s.plci.ncciRingList))
  else ([], s)

/-! ## The turns -/

variable {s : DataSt P} {n m : Nat} {L : List Nat}

theorem cleanupNcciData_frame (s : WinSt P) (n : Nat) :
    (s.cleanupNcciData n).plci = s.plci
      ∧ (s.cleanupNcciData n).a = { s.a with ncci := (s.cleanupNcciData n).a.ncci }
      ∧ ∀ m, m ≠ n → (s.cleanupNcciData n).a.ncci m = s.a.ncci m := by
  unfold WinSt.cleanupNcciData
  split
  · obtain ⟨ha, hp, -⟩ := WinSt.cleanupLoop_frame (s.a.ncci n).dBuffer (s.a.ncci n).dataPending (s.a.ncci n).dataOut s
    dsimp only
    split
    · refine ⟨hp, ?_, ?_⟩
      · simp [WinSt.setNcci, ha]
      · intro m hm
        simp [Function.update_of_ne hm, ha]
    · refine ⟨rfl, rfl, ?_⟩
      intro m hm
      simp [Function.update_of_ne hm]
  · exact ⟨rfl, rfl, fun _ _ => rfl⟩

/-- What a turn does not change. -/
structure Frame (s t : DataSt P) (n : Nat) : Prop where
  adapter : t.a = { s.a with ncci := t.a.ncci }
  ncci : ∀ m, m ≠ n → t.a.ncci m = s.a.ncci m
  ring : t.plci.ncciRingList = s.plci.ncciRingList
  prot : t.b2Prot = s.b2Prot ∧ t.b3Prot = s.b3Prot ∧ t.faxConnectInfoLength = s.faxConnectInfoLength

/-- Nothing is sent for the NCCI: it is skipped, or cleaned up. -/
theorem sendDataNcci_none (h : s.nlRequest n = none) :
    s.toWinSt.sendDataNcci n = s.toWinSt ∨ s.toWinSt.sendDataNcci n = s.toWinSt.cleanupNcciData n := by
  unfold nlRequest flowControlled at h
  unfold WinSt.sendDataNcci
  split at h
  · rename_i hfc
    exact .inl (if_pos hfc)
  · rename_i hfc
    rw [if_neg hfc]
    split at h
    · cases h
    · rename_i hdata
      split at h
      · cases h
      · rename_i hdisc
        by_cases hp : (s.a.ncci n).dataPending ≠ 0
        · exact .inr (by rw [if_pos hp, if_neg fun hst => hdata ⟨hp, hst⟩])
        · exact .inl (by rw [if_neg hp, if_neg fun hd => hdisc ⟨by simpa using hp, hd⟩])

theorem turn_none (h : s.nlRequest n = none) :
    Frame s (s.turn n) n ∧ (s.turn n).plci = s.plci ∧ (s.turn n).requests = s.requests := by
  have hwin : (s.turn n).toWinSt = s.toWinSt.sendDataNcci n := rfl
  have hreq : (s.turn n).requests = s.requests := by
    unfold turn
    rw [h]
    exact List.append_nil _
  obtain ⟨hp, ha, hm⟩ := cleanupNcciData_frame s.toWinSt n
  rcases sendDataNcci_none h with hs | hs
  · rw [hs] at hwin
    refine ⟨⟨by rw [hwin], fun m _ => by rw [hwin], by rw [hwin], rfl, rfl, rfl⟩, by rw [hwin], hreq⟩
  · rw [hs] at hwin
    refine ⟨⟨by rw [hwin]; exact ha, fun m hne => by rw [hwin]; exact hm m hne, by rw [hwin, hp], rfl, rfl, rfl⟩,
      by rw [hwin, hp], hreq⟩

/-! ## A round -/

/-- The circle and the place in it, and whose the NCCIs are. -/
structure SameRing (s t : DataSt P) : Prop where
  next : t.a.ncciNext = s.a.ncciNext
  start : t.plci.ncciRingList = s.plci.ncciRingList
  chNcci : t.a.chNcci = s.a.chNcci
  ncciPlci : t.a.ncciPlci = s.a.ncciPlci
  plci : t.plci.id = s.plci.id ∧ t.plci.appl = s.plci.appl

theorem SameRing.trans {t u : DataSt P} (h : SameRing s t) (h' : SameRing t u) : SameRing s u :=
  ⟨h'.next.trans h.next, h'.start.trans h.start, h'.chNcci.trans h.chNcci, h'.ncciPlci.trans h.ncciPlci,
    h'.plci.1.trans h.plci.1, h'.plci.2.trans h.plci.2⟩

theorem Frame.sameRing {t : DataSt P} (h : Frame s t n) (hp : t.plci = s.plci) : SameRing s t :=
  ⟨by rw [h.adapter], h.ring, by rw [h.adapter], by rw [h.adapter], by rw [hp], by rw [hp]⟩

/-- The request for the oldest data of the NCCI is out. -/
def DataOut (s t : DataSt P) (n : Nat) : Prop :=
  s.DataReady n →
    t.plci.dataSent = true ∧ t.plci.dataSentPtr = (s.a.ncci n).oldest.p ∧ t.plci.nlReqCh = s.a.ncciCh n

/-- Something is sent for the NCCI: nothing of the adapter changes. -/
theorem turn_some {r : NlRequest} (h : s.nlRequest n = some r) :
    (s.turn n).a = s.a ∧ SameRing s (s.turn n) ∧ (s.turn n).plci.nlReq = true
      ∧ (s.turn n).requests = s.requests ++ [r] ∧ DataOut s (s.turn n) n := by
  have hreq : (s.turn n).requests = s.requests ++ [r] := by
    unfold turn
    rw [h]
    rfl
  have hwin : (s.turn n).toWinSt = s.toWinSt.sendDataNcci n := rfl
  unfold nlRequest flowControlled at h
  unfold WinSt.sendDataNcci at hwin
  split at h
  · cases h
  · rename_i hfc
    rw [if_neg hfc] at hwin
    dsimp only at hwin
    split at h
    · rename_i hdata
      rw [if_pos hdata.1, if_pos hdata.2] at hwin
      unfold DataOut
      rw [hwin]
      exact ⟨rfl, ⟨by rw [hwin]; rfl, by rw [hwin], by rw [hwin]; rfl, by rw [hwin]; rfl, by rw [hwin], by rw [hwin]⟩,
        rfl, hreq, fun _ => ⟨rfl, rfl, rfl⟩⟩
    · rename_i hdata
      split at h
      · rename_i hdisc
        rw [if_neg fun hp => hp hdisc.1, if_pos hdisc.2] at hwin
        unfold DataOut
        rw [hwin]
        exact ⟨rfl, ⟨by rw [hwin], by rw [hwin], by rw [hwin], by rw [hwin], by rw [hwin], by rw [hwin]⟩, rfl, hreq,
          fun hd => absurd hd hdata⟩
      · cases h

/-- The other NCCIs are not touched. -/
theorem Frame.nlRequest {t : DataSt P} (h : Frame s t n) (hp : t.plci = s.plci) (hm : m ≠ n) :
    t.nlRequest m = s.nlRequest m := by
  obtain ⟨h1, h2, h3⟩ := h.prot
  have hn := h.ncci m hm
  have ha := h.adapter
  have hch : t.a.ncciCh = s.a.ncciCh := by rw [ha]
  have hfc : t.a.okFcPending = s.a.okFcPending := by rw [ha]
  have hst : t.a.ncciState = s.a.ncciState := by rw [ha]
  have hflow : t.flowControlled m = s.flowControlled m := by
    unfold flowControlled
    rw [hch, hfc]
  have hdata : t.DataReady m ↔ s.DataReady m := by
    unfold DataReady
    rw [hn, hst, hp]
  have hdisc : t.DiscReady m ↔ s.DiscReady m := by
    unfold DiscReady
    rw [hn, hp]
  have hdataReq : t.dataRequest m = s.dataRequest m := by
    unfold dataRequest isV120
    rw [hn, hch, h1]
  have hdiscReq : t.discRequest m = s.discRequest m := by
    unfold discRequest
    rw [hch, h2, h3]
  unfold DataSt.nlRequest
  simp only [hflow, hdata, hdisc, hdataReq, hdiscReq]

/-- A round over `l`: it ends at the first NCCI that something is sent for, or passes all. -/
inductive Round (s : DataSt P) (l : List Nat) : List Nat × DataSt P → Prop
  | sent {pre post : List Nat} {n : Nat} {q : NlRequest} {t : DataSt P} : l = pre ++ n :: post →
      (∀ m ∈ pre, s.nlRequest m = none) → s.nlRequest n = some q → t.requests = s.requests ++ [q] →
      t.plci.nlReq = true → t.a.ncci n = s.a.ncci n → DataOut s t n → SameRing s t → Round s l (pre ++ [n], t)
  | idle {t : DataSt P} : (∀ m ∈ l, s.nlRequest m = none) → t.requests = s.requests → t.plci = s.plci →
      SameRing s t → Round s l (l, t)

theorem pass_round {l : List Nat} (hd : l.Nodup) (hreq : s.plci.nlReq = false) : Round s l (pass turn nlBusy l s) := by
  induction l generalizing s with
  | nil => exact .idle (fun m hm => nomatch hm) rfl rfl ⟨rfl, rfl, rfl, rfl, rfl, rfl⟩
  | cons n ns ih =>
    obtain ⟨hn, hns⟩ := List.nodup_cons.mp hd
    unfold Divas.Lib.RoundRobin.pass
    dsimp only
    cases h : s.nlRequest n with
    | some q =>
      obtain ⟨ha, hring, hbusy, hq, hout⟩ := turn_some h
      rw [if_pos (show nlBusy (s.turn n) = true from hbusy)]
      exact .sent (show n :: ns = [] ++ n :: ns from rfl) (fun m hm => nomatch hm) h hq hbusy (by rw [ha]) hout hring
    | none =>
      obtain ⟨hframe, hp, hq⟩ := turn_none h
      have hfree : (s.turn n).plci.nlReq = false := by rw [hp]; exact hreq
      have hother : ∀ m ∈ ns, (s.turn n).nlRequest m = s.nlRequest m := by
        intro m hm
        exact hframe.nlRequest hp fun e => hn (e ▸ hm)
      rw [if_neg (show ¬ nlBusy (s.turn n) = true by simp [nlBusy, hfree])]
      have hrest := ih hns hfree
      generalize pass turn nlBusy ns (s.turn n) = r at hrest
      cases hrest with
      | @sent pre post k q t hl hpre hk hreqs hbusy hncci hout hring =>
        have hkn : k ≠ n := fun e => hn (by rw [hl, ← e]; simp)
        have hl' : n :: ns = (n :: pre) ++ k :: post := by rw [hl]; rfl
        refine .sent hl' ?_ ?_ (by rw [hreqs, hq]) hbusy ?_ ?_ ((hframe.sameRing hp).trans hring)
        · intro m hm
          rcases List.mem_cons.mp hm with rfl | hm
          · exact h
          · rw [← hother m (by rw [hl]; simp [hm])]
            exact hpre m hm
        · rw [← hother k (by rw [hl]; simp)]
          exact hk
        · rw [hncci, hframe.ncci k hkn]
        · intro hd
          have hk' := hframe.ncci k hkn
          obtain ⟨h1, h2, h3⟩ := hout (by
            unfold DataReady at hd ⊢
            rw [hk', hframe.adapter, hp]
            exact hd)
          refine ⟨h1, by rw [h2, hk'], by rw [h3, hframe.adapter]⟩
      | @idle t hl hreqs hp' hring =>
        refine .idle ?_ (by rw [hreqs, hq]) (by rw [hp', hp]) ((hframe.sameRing hp).trans hring)
        intro m hm
        rcases List.mem_cons.mp hm with rfl | hm
        · exact h
        · rw [← hother m hm]
          exact hl m hm

/-! ## The circle of the NCCIs -/

/-- The NCCIs of the PLCI from `ncci_ring_list` on. -/
structure NcciRing (s : DataSt P) (L : List Nat) : Prop where
  start : s.plci.ncciRingList = L.headD 0
  cycle : Cycle s.a.ncciNext L
  nodup : L.Nodup
  ncci : ∀ n ∈ L, 0 < n ∧ n ≤ maxNcci

/-- The order of a round: `ncci_ring_list` comes last. -/
def order : List Nat → List Nat
  | [] => []
  | c :: xs => xs ++ [c]

theorem order_perm (L : List Nat) : (order L).Perm L := by
  cases L with
  | nil => exact List.Perm.refl _
  | cons c xs => exact List.perm_append_singleton c xs

theorem order_nodup (h : L.Nodup) : (order L).Nodup := (order_perm L).nodup_iff.mpr h

/-- The circle from `n` on. -/
theorem NcciRing.turn {pre post : List Nat} {t : DataSt P} (h : NcciRing s L) (hl : order L = pre ++ n :: post)
    (hring : SameRing s t) : NcciRing (t.setRing n) (n :: (post ++ pre)) := by
  have hperm : (n :: (post ++ pre)).Perm L := by
    have hmid : (pre ++ n :: post).Perm (n :: (post ++ pre)) := by
      refine List.perm_middle.trans ?_
      exact List.Perm.cons n List.perm_append_comm
    exact hmid.symm.trans (hl ▸ order_perm L)
  refine ⟨rfl, ?_, hperm.nodup_iff.mpr h.nodup, fun m hm => h.ncci m (hperm.mem_iff.mp hm)⟩
  show Cycle t.a.ncciNext _
  rw [hring.next]
  have hcycle := h.cycle
  cases L with
  | nil => simp [order] at hl
  | cons c xs =>
    rcases List.eq_nil_or_concat post with rfl | ⟨post, k, rfl⟩
    · obtain ⟨rfl, hn⟩ := List.append_inj' (show xs ++ [c] = pre ++ [n] from hl) rfl
      cases hn
      exact hcycle
    · have hl' : xs ++ [c] = (pre ++ n :: post) ++ [k] := by
        rw [show xs ++ [c] = order (c :: xs) from rfl, hl]
        simp
      obtain ⟨rfl, hk⟩ := List.append_inj' hl' rfl
      cases hk
      have hturn := cycle_turn hcycle
      simpa using hturn

theorem NcciRing.length_le (h : NcciRing s L) : L.length ≤ maxNcci := by
  have hsub : L ⊆ (List.range maxNcci).map (· + 1) := by
    intro n hn
    obtain ⟨h1, h2⟩ := h.ncci n hn
    rw [List.mem_map]
    exact ⟨n - 1, List.mem_range.mpr (by omega), by omega⟩
  have hle := (h.nodup.subperm hsub).length_le
  simpa using hle

/-- The loop is a round over the circle. -/
theorem sendData_round (h : NcciRing s L) (hne : L ≠ []) (hreq : s.plci.nlReq = false) :
    ∃ r, Round s (order L) r ∧ s.sendData = (r.1, r.2.setRing (r.1.getLastD s.plci.ncciRingList)) := by
  cases L with
  | nil => exact absurd rfl hne
  | cons c xs =>
    have hc : s.plci.ncciRingList = c := h.start
    have hpos := (h.ncci c List.mem_cons_self).1
    have hlen := h.length_le
    have hturn : ∀ (s : DataSt P) n, next (DataSt.turn s n) = next s := by
      intro s n
      cases hq : s.nlRequest n with
      | none =>
        funext m
        unfold next
        rw [((turn_none hq).1.sameRing (turn_none hq).2.1).next]
      | some q =>
        funext m
        unfold next
        rw [(turn_some hq).1]
    have hscan : scan next DataSt.turn nlBusy c maxNcci c s = pass DataSt.turn nlBusy (xs ++ [c]) s :=
      scan_path hturn h.cycle (List.nodup_cons.mp h.nodup).1 hlen
    refine ⟨pass DataSt.turn nlBusy (xs ++ [c]) s, pass_round (order_nodup h.nodup) hreq, ?_⟩
    unfold sendData
    rw [hc, hscan, if_pos (by simp [hreq, Nat.ne_of_gt hpos])]

/-! ## A call -/

/-- `DBuffer[data_out]` is the entry that was put first. -/
theorem oldest_head {w : Ncci} (hout : w.dataOut < maxDataB3) (hp : w.dataPending ≠ 0) :
    (ring maxDataB3 w.dBuffer w.dataOut w.dataPending).head? = some w.oldest := by
  obtain ⟨k, hk⟩ := Nat.exists_eq_succ_of_ne_zero hp
  rw [hk, ring_succ _ hout]
  rfl

/-- The request for an NCCI: its oldest data, or the end of the connection. -/
def Sends (s : DataSt P) (n : Nat) (q : NlRequest) : Prop :=
  s.flowControlled n = false
    ∧ (s.DataReady n ∧ q = s.dataRequest n
        ∧ ((s.a.ncci n).dataOut < maxDataB3 →
          (ring maxDataB3 (s.a.ncci n).dBuffer (s.a.ncci n).dataOut (s.a.ncci n).dataPending).head?
            = some (s.a.ncci n).oldest)
      ∨ s.DiscReady n ∧ q = s.discRequest n)

theorem nlRequest_some {q : NlRequest} (h : s.nlRequest n = some q) : Sends s n q := by
  unfold nlRequest at h
  split at h
  · cases h
  · rename_i hfc
    refine ⟨by simpa using hfc, ?_⟩
    split at h
    · rename_i hdata
      exact .inl ⟨hdata, (Option.some.inj h).symm, fun hout => oldest_head hout hdata.1⟩
    · split at h
      · rename_i hdisc
        exact .inr ⟨hdisc, (Option.some.inj h).symm⟩
      · cases h

/-- The NCCI that a call sends something for. -/
def served (s : DataSt P) : Option Nat := s.sendData.1.getLast?.filter fun n => (s.nlRequest n).isSome

/-- The return code of the request takes the data off, if the NCCI is mapped. -/
def Answered (s : DataSt P) (n : Nat) : Prop :=
  s.DataReady n → n ≠ 0 → s.a.chNcci (s.a.ncciCh n) = n → s.a.ncciPlci n = s.plci.id → s.plci.appl ≠ ApplPtr.null P →
    (s.sendData.2.toWinSt.rc.a.ncci n)
      = { s.a.ncci n with dataOut := bump maxDataB3 (s.a.ncci n).dataOut, dataPending := (s.a.ncci n).dataPending - 1 }

/-- What a call does. -/
structure Serves (s : DataSt P) (L : List Nat) : Prop where
  /-- The loop ends: a request is out, or the circle is closed. -/
  ends : s.plci.nlReq = false → L ≠ [] →
    s.sendData.2.plci.nlReq = true ∨ s.sendData.1.getLast? = some s.plci.ncciRingList
  /-- It visits the NCCIs in their order, each at most once. -/
  visits : s.sendData.1 <+: order L ∧ s.sendData.1.Nodup
  /-- It makes one request, or none. -/
  requests : s.sendData.2.requests = s.requests ++ (s.served.bind s.nlRequest).toList
  sends : ∀ n q, s.served = some n → s.nlRequest n = some q → Sends s n q
  /-- Nothing is to be sent for the NCCIs before. -/
  first : ∀ n ∈ s.sendData.1, s.sendData.1.getLast? ≠ some n → s.nlRequest n = none
  /-- Without a request all were visited. -/
  all : s.plci.nlReq = false → s.served = none → s.sendData.1 = order L
  /-- What is sent stays pending, until the return code comes. -/
  pending : ∀ n, s.served = some n → s.sendData.2.a.ncci n = s.a.ncci n ∧ Answered s n
  /-- The place in the circle. -/
  place : ∀ n, s.sendData.1.getLast? = some n → s.sendData.2.plci.ncciRingList = n

theorem sendData_busy (h : s.plci.nlReq = true) : s.sendData = ([], s) := by
  unfold sendData
  rw [if_neg (by simp [h])]

theorem sendData_empty (h : NcciRing s []) : s.sendData = ([], s) := by
  have hstart : s.plci.ncciRingList = 0 := h.start
  unfold sendData
  rw [if_neg (by simp [hstart])]

/-- A call that visits nothing. -/
theorem serves_nothing (h : s.sendData = ([], s)) (hall : s.plci.nlReq = false → order L = []) : Serves s L := by
  have hserved : s.served = none := by simp [served, h]
  refine ⟨?_, ?_, ?_, fun _ _ _ => nlRequest_some, ?_, ?_, ?_, ?_⟩
  · intro hreq hne
    have hlen := (order_perm L).length_eq
    rw [hall hreq] at hlen
    exact absurd (List.length_eq_zero_iff.mp hlen.symm) hne
  · rw [h]
    exact ⟨List.nil_prefix, List.nodup_nil⟩
  · rw [hserved, h]
    simp
  · rw [h]
    simp
  · intro hreq _
    rw [h, hall hreq]
  · simp [hserved]
  · rw [h]
    simp

theorem answered {t : DataSt P} (h : s.sendData.2 = t.setRing n) (hbusy : t.plci.nlReq = true)
    (hncci : t.a.ncci n = s.a.ncci n) (hout : DataOut s t n) (hring : SameRing s t) : Answered s n := by
  intro hd hn hch hplci happl
  obtain ⟨hsent, hptr, hreqCh⟩ := hout hd
  have hrc : (t.setRing n).toWinSt.rc
      = WinSt.dataRc { t.toWinSt with plci := { t.plci with ncciRingList := n, nlReq := false, dataSent := false } }
          t.plci.nlReqCh t.plci.dataSentPtr := by
    unfold WinSt.rc setRing WinSt.setRing
    simp only [hbusy, if_true, hsent]
  rw [h, hrc]
  unfold WinSt.dataRc
  have hmap : t.a.chNcci t.plci.nlReqCh = n := by rw [hring.chNcci, hreqCh, hch]
  have hown : t.a.ncciPlci n = t.plci.id := by rw [hring.ncciPlci, hring.plci.1, hplci]
  have hhead : ((t.a.ncci n).dBuffer (t.a.ncci n).dataOut).p = t.plci.dataSentPtr := by
    rw [hncci, hptr]
    rfl
  have hpend : (t.a.ncci n).dataPending ≠ 0 := by rw [hncci]; exact hd.1
  rw [if_pos (by rw [hring.plci.2]; exact happl)]
  simp only [WinSt.freeUnlessSent_a, WinSt.freeUnlessSent_plci, hmap]
  rw [if_pos ⟨⟨hn, hown⟩, hpend, hhead⟩]
  unfold WinSt.popData
  rw [WinSt.setNcci_ncci, Function.update_self]
  split <;> simp [hncci]

theorem serves_round {r : List Nat × DataSt P} (hL : L.Nodup) (hstart : s.plci.ncciRingList = L.headD 0)
    (hround : Round s (order L) r)
    (h : s.sendData = (r.1, r.2.setRing (r.1.getLastD s.plci.ncciRingList))) : Serves s L := by
  have hd := order_nodup hL
  cases hround with
  | @sent pre post n q t hl hpre hn hreqs hbusy hncci hout hring =>
    have hserved : s.served = some n := by simp [served, h, hn]
    have hsplit : order L = (pre ++ [n]) ++ post := by rw [hl]; simp
    have hfirst : pre ++ [n] <+: order L := ⟨post, hsplit.symm⟩
    have hnext : s.sendData.2 = t.setRing n := by simp [h]
    refine ⟨?_, ?_, ?_, fun _ _ _ => nlRequest_some, ?_, ?_, ?_, ?_⟩
    · intro _ _
      rw [hnext]
      exact .inl hbusy
    · rw [h]
      exact ⟨hfirst, hd.sublist hfirst.sublist⟩
    · rw [hserved, h]
      simp [setRing, hreqs, hn]
    · intro m hm hlast
      rw [h] at hm hlast
      rcases List.mem_append.mp hm with hm | hm
      · exact hpre m hm
      · rw [List.mem_singleton] at hm
        simp [hm] at hlast
    · intro _ hnone
      rw [hserved] at hnone
      cases hnone
    · intro m hm
      rw [hserved] at hm
      cases hm
      refine ⟨?_, answered hnext hbusy hncci hout hring⟩
      rw [hnext]
      exact hncci
    · intro m hm
      rw [h] at hm ⊢
      simp only [List.getLast?_append, List.getLast?_singleton, Option.some_or, Option.some.injEq] at hm
      simp [setRing, WinSt.setRing, hm]
  | @idle t hl hreqs hp hring =>
    have hserved : s.served = none := by
      simp only [served, h, Option.filter_eq_none_iff]
      intro m hm
      rw [hl m (List.mem_of_getLast? hm)]
      simp
    refine ⟨?_, ?_, ?_, fun _ _ _ => nlRequest_some, ?_, ?_, ?_, ?_⟩
    · intro _ hne
      rw [h]
      cases L with
      | nil => exact absurd rfl hne
      | cons c xs =>
        refine .inr ?_
        rw [hstart]
        exact List.getLast?_concat
    · rw [h]
      exact ⟨List.prefix_rfl, hd⟩
    · rw [hserved, h]
      simp [setRing, hreqs]
    · intro m hm _
      rw [h] at hm
      exact hl m hm
    · intro _ _
      rw [h]
    · intro m hm
      rw [hserved] at hm
      cases hm
    · intro m hm
      rw [h] at hm ⊢
      have hlast : (order L).getLastD s.plci.ncciRingList = m := by
        rw [List.getLastD_eq_getLast?, hm]
        rfl
      simp only [hlast]
      rfl

theorem sendData_serves (h : NcciRing s L) : Serves s L := by
  by_cases hreq : s.plci.nlReq = true
  · exact serves_nothing (sendData_busy hreq) (fun hn => by rw [hreq] at hn; cases hn)
  · by_cases hne : L = []
    · subst hne
      exact serves_nothing (sendData_empty h) (fun _ => rfl)
    · obtain ⟨r, hround, hcall⟩ := sendData_round h hne (by simpa using hreq)
      exact serves_round h.nodup h.start hround hcall

/-- The call of the window's model, with the requests left out. -/
theorem sendData_window (s : DataSt P) : s.sendData.2.toWinSt = s.toWinSt.sendData := by
  have hturn : ∀ (s : DataSt P) n, (s.turn n).plci.ncciRingList = s.plci.ncciRingList := by
    intro s n
    cases h : s.nlRequest n with
    | none => exact (turn_none h).1.ring
    | some q => exact (turn_some h).2.1.start
  have hscan : ∀ fuel n (t : DataSt P), t.plci.ncciRingList = s.plci.ncciRingList →
      ((scan next turn nlBusy s.plci.ncciRingList fuel n t).1.getLastD n,
        (scan next turn nlBusy s.plci.ncciRingList fuel n t).2.toWinSt) = WinSt.sendDataLoop fuel n t.toWinSt := by
    intro fuel
    induction fuel with
    | zero => intro n t _; rfl
    | succ fuel ih =>
      intro n t ht
      have hring : (t.toWinSt.sendDataNcci (t.a.ncciNext n)).plci.ncciRingList = s.plci.ncciRingList :=
        (hturn t (next t n)).trans ht
      have hrest := ih (next t n) (t.turn (next t n)) hring
      unfold scan WinSt.sendDataLoop
      dsimp only
      rw [hring]
      by_cases hgo : (!nlBusy (t.turn (next t n)) && next t n != s.plci.ncciRingList) = true
      · have hgo' : (!(t.toWinSt.sendDataNcci (t.a.ncciNext n)).plci.nlReq && t.a.ncciNext n != s.plci.ncciRingList) = true :=
          hgo
        rw [if_pos hgo, if_pos hgo', List.getLastD_cons]
        exact hrest
      · have hgo' : ¬ (!(t.toWinSt.sendDataNcci (t.a.ncciNext n)).plci.nlReq && t.a.ncciNext n != s.plci.ncciRingList) = true :=
          hgo
        rw [if_neg hgo, if_neg hgo']
        rfl
  unfold sendData WinSt.sendData
  split
  · have hend := hscan maxNcci s.plci.ncciRingList s rfl
    dsimp only
    rw [← hend]
    rfl
  · rfl

/-! ## Runs -/

/-- Between the calls all other code runs; the circle and the place in it stay. -/
inductive DataEv (P : PtrSize) where
  | sendData
  | other (t : DataSt P)

def other (s t : DataSt P) : DataSt P :=
  { t with
    a := { t.a with ncciNext := s.a.ncciNext }
    plci := { t.plci with ncciRingList := s.plci.ncciRingList } }

def step (s : DataSt P) : DataEv P → DataSt P
  | .sendData => s.sendData.2
  | .other t => s.other t

/-- The NCCIs that something is sent for, in order. -/
def chosen : DataSt P → List (DataEv P) → List Nat
  | _, [] => []
  | s, .sendData :: es => s.served.toList ++ chosen s.sendData.2 es
  | s, .other t :: es => chosen (s.other t) es

/-- There is something to send for the NCCI when a call may send. -/
def ReadyAt (x : Nat) (s : DataSt P) (e : DataEv P) : Prop :=
  match e with
  | .sendData => s.plci.nlReq = false → (s.nlRequest x).isSome
  | .other _ => True

theorem NcciRing.other (h : NcciRing s L) (t : DataSt P) : NcciRing (s.other t) L := ⟨h.start, h.cycle, h.nodup, h.ncci⟩

/-- An NCCI that is ready at every call comes nearer with every request, until it is its turn. -/
theorem chosen_within {x : Nat} {es : List (DataEv P)} (h : NcciRing s L) (hx : x ∈ L) (hr : Along step (ReadyAt x) s es)
    (hlen : (order L).idxOf x < (chosen s es).length) : x ∈ (chosen s es).take ((order L).idxOf x + 1) := by
  induction es generalizing s L with
  | nil => simp [chosen] at hlen
  | cons e es ih =>
    cases e with
    | other t => exact ih (h.other t) hx hr.2 hlen
    | sendData =>
      by_cases hreq : s.plci.nlReq = true
      · have hcall := sendData_busy hreq
        have hchosen : chosen s (.sendData :: es) = chosen s es := by simp [chosen, served, hcall]
        have hstep : step s .sendData = s := by simp [step, hcall]
        have hrest := hr.2
        rw [hstep] at hrest
        rw [hchosen] at hlen ⊢
        exact ih h hx hrest hlen
      · have hready := hr.1 (by simpa using hreq)
        have hne : L ≠ [] := fun hn => by rw [hn] at hx; cases hx
        have hxo : x ∈ order L := (order_perm L).mem_iff.mpr hx
        obtain ⟨r, hround, hcall⟩ := sendData_round h hne (by simpa using hreq)
        cases hround with
        | @idle t hl hreqs hp hring =>
          rw [hl x hxo] at hready
          cases hready
        | @sent pre post n q t hl hpre hn hreqs hbusy hncci hout hring =>
          have hserved : s.served = some n := by simp [served, hcall, hn]
          have hnext : s.sendData.2 = t.setRing n := by simp [hcall]
          have hchosen : chosen s (.sendData :: es) = n :: chosen (t.setRing n) es := by simp [chosen, hserved, hnext]
          have hrest := hr.2
          rw [show step s .sendData = t.setRing n from hnext] at hrest
          rw [hchosen] at hlen ⊢
          rw [List.take_succ_cons]
          by_cases hxn : x = n
          · rw [hxn]
            exact List.mem_cons_self
          · have hxp : x ∉ pre ++ [n] := by
              rw [List.mem_append, List.mem_singleton, not_or]
              refine ⟨fun hm => ?_, hxn⟩
              rw [hpre x hm] at hready
              cases hready
            have hring' := h.turn hl hring
            have horder : order (n :: (post ++ pre)) = post ++ (pre ++ [n]) := by simp [order]
            have hidx := idxOf_next hxp (hl ▸ hxo)
            rw [← horder, ← hl] at hidx
            have hx' : x ∈ n :: (post ++ pre) := by
              rw [hl] at hxo
              simp only [List.mem_append, List.mem_cons] at hxo ⊢
              tauto
            have hmem := ih hring' hx' hrest (by rw [List.length_cons] at hlen; omega)
            refine List.mem_cons_of_mem n (List.take_subset_take_left _ ?_ hmem)
            omega

/-- Every call serves the NCCIs in turn, in every run an NCCI that is ready at each call is
    served by one of as many requests as there are NCCIs, and to the window a call is the one
    of its model. -/
theorem send_data_serves (s : DataSt P) (L : List Nat) (h : NcciRing s L) :
    Serves s L ∧
      (∀ x ∈ L, ∀ es, Along step (ReadyAt x) s es → L.length ≤ (chosen s es).length → x ∈ (chosen s es).take L.length) ∧
      ∀ t : DataSt P, t.sendData.2.toWinSt = t.toWinSt.sendData := by
  refine ⟨sendData_serves h, ?_, sendData_window⟩
  intro x hx es hr hlen
  have hidx : (order L).idxOf x < L.length := by
    rw [← (order_perm L).length_eq]
    exact List.idxOf_lt_length_of_mem ((order_perm L).mem_iff.mpr hx)
  exact List.take_subset_take_left _ hidx (chosen_within h hx hr (by omega))

/-- NCCIs 1 and 2 on channels 1 and 2, connected, each with ten bytes of data. -/
def twoNccis : DataSt .eight :=
  { WinSt.oneNcci with
    a := { WinSt.oneNcci.a with
      chNcci := fun i => if i = 1 ∨ i = 2 then i else 0
      ncciCh := fun i => if i = 1 ∨ i = 2 then i else 0
      ncciPlci := fun i => if i = 1 ∨ i = 2 then 1 else 0
      ncciState := fun _ => .connected
      ncciNext := fun i => if i = 1 then 2 else 1
      ncci := fun i => ⟨0, 1, 0, 0, fun _ => ⟨0, 0, 0, 10, i⟩, fun _ => ⟨0, 0⟩⟩ }
    b2Prot := 0
    b3Prot := 0
    faxConnectInfoLength := 0
    requests := [] }

theorem send_data_serves_two :
    NcciRing twoNccis [1, 2] ∧ Serves twoNccis [1, 2]
      ∧ 2 ∈ (chosen twoNccis [.sendData, .sendData, .other twoNccis, .sendData]).take 2 := by
  have h : NcciRing twoNccis [1, 2] := ⟨rfl, ⟨rfl, rfl⟩, by decide, by decide⟩
  have hserves := send_data_serves twoNccis [1, 2] h
  refine ⟨h, hserves.1, hserves.2.1 2 (by decide) _ ?_ (by decide)⟩
  exact ⟨fun _ => by decide, fun _ => by decide, trivial, fun _ => by decide, trivial⟩

end DataSt

end Divas.Capi
