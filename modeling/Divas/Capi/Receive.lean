/-
  Divas.Capi.Receive — the receive buffers of an application (message.c).

  An application has `MaxBuffer` receive buffers. `DataNCCI` says which NCCI a buffer is
  assigned to (0 for none), `DataFlags` which PLCI, and with 0x10 that the buffer has been
  reported in a DATA_B3_I. The PLCIs are those of the application, on any adapter.

  Actors. The card gives the network layer entity of a PLCI an indication in two steps
  (di.c): the first one asks for a buffer (`nlIndData`), the second one says that the buffer
  is filled (`nlIndComplete`); between them the entity takes no other indication
  (`RCurrent`). The application answers with DATA_B3_RESP (`dataB3Res`; `api_put` calls it
  at once or when the message comes out of the queue). Buffers of an NCCI, or of all NCCIs of
  a PLCI, are freed by `ncci_free_receive_buffers`. A channel without buffers is stopped
  (`channelXOff`) and started again with N_XON. All other code is the environment (`other`):
  the NCCI mapping, the states, the requests and the flow control become what they will.

  `ReceiveBufferGet` gives the address of a buffer in an array, never NULL.
-/

import Divas.Lib.Entries
import Divas.Capi.Ncci
import Divas.Capi.Request

namespace Divas.Capi

open Divas.Lib.Loop Divas.Lib.Entries

abbrev State.outgRejPending : State := .other 19

/-- The Id of an adapter is a byte that is not 0. -/
structure AdapterId where
  id : Nat
  pos : 0 < id
  byte : id < 256

/-! ## The buffers -/

structure RxAppl extends Appl where
  maxNcciData : Nat
  ncciDataFlowCtrlTimer : Nat
  badDataB3Resp : Nat

/-- `ncci | (((word) a->Id) << 8)`. -/
def ncciCode (id ncci : Nat) : Nat := ncci ||| id <<< 8

/-- `(byte) (appl->DataFlags[i] >> 8)`. -/
def flagsPlci (flags : Nat) : Nat := flags >>> 8 % 256

/-- `DataFlags[i] & 0x10`. -/
def reported (flags : Nat) : Bool := flags &&& 0x10 != 0

namespace RxAppl

/-- The buffers that are assigned to an NCCI. -/
def count (t : RxAppl) (code : Nat) : Nat := entries t.maxBuffer t.dataNCCI code

/-- The first free buffer. -/
def firstFree (t : RxAppl) : Option Nat := (List.range t.maxBuffer).find? fun i => t.dataNCCI i == 0

def assign (t : RxAppl) (num code flags : Nat) : RxAppl :=
  { t with
    dataNCCI := Function.update t.dataNCCI num code
    dataFlags := Function.update t.dataFlags num flags
    ncciDataFlowCtrlTimer := 0 }

/-- `DataFlags[num] |= 0x10`. -/
def report (t : RxAppl) (num : Nat) : RxAppl :=
  { t with dataFlags := Function.update t.dataFlags num (t.dataFlags num ||| 0x10) }

def release (t : RxAppl) (num : Nat) : RxAppl := { t with dataNCCI := Function.update t.dataNCCI num 0 }

/-- The loop of `ncci_free_receive_buffers` over the buffers. -/
def freeNcci (t : RxAppl) (id p ncci : Nat) : RxAppl :=
  { t with
    dataNCCI := fun i =>
      if i < t.maxBuffer ∧ t.dataNCCI i = ncciCode id ncci ∧ flagsPlci (t.dataFlags i) = p then 0 else t.dataNCCI i }

end RxAppl

/-- One NCCI of `ncci_free_receive_buffers`. The second component is
    `diva_capi_ncci_mapping_bug`. -/
def freeTurn (hasAppl : Bool) (a : Adapter) (p ncci : Nat) (s : RxAppl × Nat) : RxAppl × Nat :=
  if a.ncciPlci ncci == p then
    if hasAppl then (s.1.freeNcci a.id p ncci, s.2) else (s.1, s.2 + 1)
  else s

/-- `hasAppl`: `plci->appl` is not NULL. -/
def ncciFreeReceiveBuffers (hasAppl : Bool) (a : Adapter) (p ncci : Nat) (s : RxAppl × Nat) : RxAppl × Nat :=
  if ncci != 0 then freeTurn hasAppl a p ncci s else forFrom 1 (maxNcci + 1) (freeTurn hasAppl a p) s

/-! ## Flow control -/

def nChXOff : UInt8 := 0x01
def nXonConnectInd : UInt8 := 0x08
def nRxFlowControlMask : UInt8 := 0x3f

def nDataAck : UInt8 := 12

/-- `ch_flow_control` of an adapter, what is below `N_OK_FC_PENDING`. -/
structure Flow where
  chFlowControl : Nat → UInt8
  chFlowPlci : Nat → Nat
  chFlowControlPending : UInt8
  lastFlowControlCh : Nat

namespace Flow

def set (f : Flow) (ch : Nat) (v : UInt8) : Flow := { f with chFlowControl := Function.update f.chFlowControl ch v }

def channelXOff (f : Flow) (p ch : Nat) (flag : UInt8) : Flow :=
  if f.chFlowControl ch &&& nRxFlowControlMask == 0 then
    { f.set ch (f.chFlowControl ch ||| (nChXOff ||| flag)) with
      chFlowPlci := Function.update f.chFlowPlci ch p
      chFlowControlPending := f.chFlowControlPending + 1 }
  else f

def channelXOn (f : Flow) (ch : Nat) : Flow :=
  if f.chFlowControl ch &&& nXonSent != 0 then f.set ch (f.chFlowControl ch &&& ~~~nXonSent) else f

def channelRequestXon (f : Flow) (ch : Nat) : Flow :=
  if f.chFlowControl ch &&& nChXOff != 0 then
    f.set ch ((f.chFlowControl ch ||| nXonReq) &&& ~~~nChXOff &&& ~~~nXonConnectInd)
  else f

def channelFlowControlRemove (f : Flow) (p : Nat) : Flow :=
  { f with
    chFlowControl := fun ch => if 1 ≤ ch ∧ ch < maxNlChannel + 1 ∧ f.chFlowPlci ch = p then 0 else f.chFlowControl ch
    chFlowPlci := fun ch => if 1 ≤ ch ∧ ch < maxNlChannel + 1 ∧ f.chFlowPlci ch = p then 0 else f.chFlowPlci ch }

/-- Both searches of `find_channel_with_pending_x_on`. Channel 0 counts as none. -/
def findChannelWithPendingXOn (f : Flow) (xonOff : Bool) (p : Nat) : Nat × Flow :=
  if !xonOff then (0, f)
  else
    let f := if maxNlChannel + 1 ≤ f.lastFlowControlCh then { f with lastFlowControlCh := 1 } else f
    let pending i := f.chFlowControl i &&& nXonReq != 0 && f.chFlowPlci i == p
    let chs := List.range (maxNlChannel + 1)
    match (chs.drop f.lastFlowControlCh).find? pending <|> ((chs.take f.lastFlowControlCh).drop 1).find? pending with
    | some i => (i, { f with lastFlowControlCh := i + 1 })
    | none => (0, f)

end Flow

/-! ## PLCIs -/

/-- What the other code changes of a PLCI: `appl` (the application, or NULL), `B2_prot`,
    `NL.Id`, `nl_remove_id`, `nl_req` and `NL.ReqCh`, and the requests in `RBuffer`, with
    their channels. -/
structure PlciNl where
  hasAppl : Bool
  b2Prot : Nat
  nlId : Nat
  nlRemoveId : Nat
  nlReq : UInt8
  reqCh : Nat
  requests : List (UInt8 × Nat)

structure RxPlci where
  rNum : Nat
  rFlags : Nat
  /-- `NL.RNR`. -/
  rnr : Nat
  /-- `NL.RNum`. -/
  rBuffers : Nat
  /-- The channel of a packet whose buffer is not filled yet (`RCurrent`). -/
  receiving : Option Nat

/-- An N_DATA or N_BDATA indication, with its flags in the upper half. -/
structure DataInd where
  ind : Nat
  byte : ind < 256
  data : ind &&& 0x0f = 8 ∨ ind &&& 0x0f = 11

/-- DATA_B3_I. -/
structure DataB3I where
  adapter : Nat
  plci : Nat
  ncci : Nat
  length : Nat
  number : Nat
  flags : Nat

/-- The adapters, each under its Id. `ch_ncci` is an array of bytes. -/
structure Adapters where
  get : Nat → Adapter
  id_get : ∀ k, (get k).id = k
  byte : ∀ k ch, (get k).chNcci ch < 256

structure RxSt where
  appl : RxAppl
  mappingBug : Nat
  adapters : Adapters
  xonOffFlowControl : Nat → Bool
  oobChannel : Nat → Bool
  flow : Nat → Flow
  nl : Nat → Nat → PlciNl
  plci : Nat → Nat → RxPlci
  /-- What the application got, the newest first. -/
  sent : List DataB3I

namespace RxSt

def adapter (s : RxSt) (a : Nat) : Adapter := s.adapters.get a

def setFlow (s : RxSt) (a : Nat) (f : Flow) : RxSt := { s with flow := Function.update s.flow a f }

def setPlci (s : RxSt) (a p : Nat) (r : RxPlci) : RxSt :=
  { s with plci := Function.update s.plci a (Function.update (s.plci a) p r) }

def setNl (s : RxSt) (a p : Nat) (n : PlciNl) : RxSt :=
  { s with nl := Function.update s.nl a (Function.update (s.nl a) p n) }

def setAppl (s : RxSt) (t : RxAppl) : RxSt := { s with appl := t }

def setRnr (s : RxSt) (a p rnr : Nat) : RxSt := s.setPlci a p { s.plci a p with rnr := rnr }

/-! ## X-on and X-off -/

def channelXmitXon (s : RxSt) (a p : Nat) : RxSt :=
  let n := s.nl a p
  if n.nlReq != 0 || n.nlId == 0 || n.nlRemoveId != 0 then s
  else
    let (ch, f) := (s.flow a).findChannelWithPendingXOn (s.xonOffFlowControl a) p
    if ch == 0 then s.setFlow a f
    else
      (s.setFlow a (f.set ch ((f.chFlowControl ch &&& ~~~nXonReq) ||| nXonSent))).setNl a p
        { n with nlReq := nXon, reqCh := ch }

def channelCanXon (s : RxSt) (a p ch : Nat) : Bool :=
  (s.nl a p).hasAppl && !decide (2 < s.appl.count (ncciCode a ((s.adapter a).chNcci ch))) && s.appl.firstFree.isSome

/-- The channels that wait for the N_CONNECT to be taken. -/
def channelXmitExtendedXon (s : RxSt) (a p : Nat) : RxSt :=
  let waits (f : Flow) (i : Nat) :=
    f.chFlowControl i &&& nChXOff != 0 && f.chFlowControl i &&& nXonConnectInd != 0 && f.chFlowPlci i == p
  if (List.range (maxNlChannel + 1)).any (waits (s.flow a)) then
    (s.setFlow a (forTo (maxNlChannel + 1) (fun i f => if waits f i then f.channelRequestXon i else f)
      (s.flow a))).channelXmitXon a p
  else s

/-- `nl_req_ncci (plci, req, ncci)` for a request that is not REMOVE. -/
def nlReqNcci (s : RxSt) (a p : Nat) (req : UInt8) (ncci : Nat) : RxSt :=
  if (s.adapter a).adapterDisabled then s
  else s.setNl a p { s.nl a p with requests := (s.nl a p).requests ++ [(req, (s.adapter a).ncciCh (ncci % 256))] }

/-! ## The indication -/

def b2V120 (b2Prot : Nat) : Bool := b2Prot == 9 || b2Prot == 10 || b2Prot == 11

/-- `NL.RNR = 1` and X-off. -/
def refuse (s : RxSt) (a p ch : Nat) : RxSt := (s.setRnr a p 1).setFlow a ((s.flow a).channelXOff p ch 0)

def discardLimit (s : RxSt) (a : Nat) : Nat := if s.oobChannel a then 40 else 2000

/-- No buffer is free: the packet waits, and after a while is discarded. -/
def noBuffer (s : RxSt) (a p ch : Nat) : RxSt :=
  let timer := (s.appl.ncciDataFlowCtrlTimer + 1) % 65536
  let s := s.setAppl { s.appl with ncciDataFlowCtrlTimer := timer }
  if s.discardLimit a ≤ timer then s.setRnr a p 2 else s.refuse a p ch

/-- The buffer with `num` is offered to the entity. `header` is the first byte of the packet. -/
def offer (s : RxSt) (a p ch num : Nat) (ind : DataInd) (rLength header : Nat) : RxSt :=
  let v120 := rLength != 0 && b2V120 (s.nl a p).b2Prot
  let flags := ind.ind >>> 4
  let flags := if v120 && header &&& 0x40 != 0 then flags ||| 0x0010 else flags
  let flags := if v120 && header &&& 0x0c != 0 then flags ||| 0x8000 else flags
  s.setPlci a p ⟨num, flags, 0, if v120 then 2 else 1, some ch⟩

/-- The first step. -/
def nlIndData (s : RxSt) (a p ch : Nat) (ind : DataInd) (rLength header : Nat) : RxSt :=
  let n := s.nl a p
  let ncci := (s.adapter a).chNcci ch
  let state := (s.adapter a).ncciState ncci
  if !n.hasAppl then s.setRnr a p 2
  else if (state != .connected && n.b2Prot == 1) || state == .idle || state == .incDisPending then s.setRnr a p 2
  else if state != .connected && state != .outgDisPending && state != .outgRejPending then s.refuse a p ch
  else
    let code := ncciCode a ncci
    match s.appl.firstFree with
    | some num =>
      if s.appl.maxNcciData ≤ s.appl.count code then s.noBuffer a p ch
      else (s.setAppl (s.appl.assign num code (p <<< 8 ||| ind.ind >>> 4))).offer a p ch num ind rLength header
    | none => s.noBuffer a p ch

/-- The second step. `first` and `second` are `RData[0].PLength` and `RData[1].PLength`, and
    `rBuffers` is `NL.RNum`, as the entity has filled them. -/
def nlIndComplete (s : RxSt) (a p first second rBuffers : Nat) : RxSt :=
  let r := s.plci a p
  match r.receiving with
  | none => s
  | some ch =>
    let s := s.setPlci a p { r with receiving := none, rBuffers := rBuffers }
    if !(s.nl a p).hasAppl then s.setRnr a p 2
    else
      let ncci := (s.adapter a).chNcci ch
      let length := if first != 0 && b2V120 (s.nl a p).b2Prot then if rBuffers < 2 then 0 else second else first
      { s.setAppl (s.appl.report r.rNum) with
        sent := ⟨a, p, if ncci != 0 then ncci else ch, length, r.rNum, r.rFlags⟩ :: s.sent }

/-! ## The response -/

/-- The buffer waits for this response. -/
def Answers (s : RxSt) (a p ncci num : Nat) : Prop :=
  num < s.appl.maxBuffer ∧ s.appl.dataNCCI num = ncciCode a ncci ∧ flagsPlci (s.appl.dataFlags num) = p ∧
    reported (s.appl.dataFlags num)

instance (s : RxSt) (a p ncci num : Nat) : Decidable (s.Answers a p ncci num) := inferInstanceAs (Decidable (_ ∧ _ ∧ _ ∧ _))

/-- `channel_can_xon`, `channel_request_xon` and `channel_xmit_xon`. -/
def resumeXon (s : RxSt) (a p ch : Nat) : RxSt :=
  (if s.channelCanXon a p ch then s.setFlow a ((s.flow a).channelRequestXon ch) else s).channelXmitXon a p

/-- `data_b3_res`. -/
def dataB3Res (s : RxSt) (a p ncci num : Nat) : RxSt :=
  if ncci = 0 then s
  else if s.Answers a p ncci num then
    let s := (s.setAppl (s.appl.release num)).resumeXon a p ((s.adapter a).ncciCh ncci)
    if s.appl.dataFlags num &&& 0x4 != 0 then s.nlReqNcci a p nDataAck ncci else s
  else if s.appl.maxBuffer ≤ num ∨ s.appl.dataNCCI num ≠ 0 then
    s.setAppl { s.appl with badDataB3Resp := (s.appl.badDataB3Resp + 1) % 4294967296 }
  else s

def freeReceiveBuffers (s : RxSt) (a p ncci : Nat) : RxSt :=
  let (appl, bug) := ncciFreeReceiveBuffers (s.nl a p).hasAppl (s.adapter a) p ncci (s.appl, s.mappingBug)
  { s with appl := appl, mappingBug := bug }

end RxSt

/-! ## Runs -/

inductive RxEv where
  | data (a : AdapterId) (p : PlciId) (ch : UInt8) (ind : DataInd) (rLength header : Nat)
  | complete (a : AdapterId) (p : PlciId) (first second rBuffers : Nat)
  | response (a : AdapterId) (p : PlciId) (ncci : NcciId) (num : Nat)
  | free (a : AdapterId) (p : PlciId) (ncci : NcciId)
  | xmitXon (a : AdapterId) (p : PlciId)
  | xmitExtendedXon (a : AdapterId) (p : PlciId)
  | xon (a : AdapterId) (ch : UInt8)
  | flowRemove (a : AdapterId) (p : PlciId)
  | other (adapters : Adapters) (flow : Nat → Flow) (nl : Nat → Nat → PlciNl)

namespace RxSt

def step (s : RxSt) : RxEv → RxSt
  | .data a p ch ind rLength header =>
    if (s.plci a.id p.id).receiving.isSome then s else s.nlIndData a.id p.id ch.toNat ind rLength header
  | .complete a p first second rBuffers => s.nlIndComplete a.id p.id first second rBuffers
  | .response a p ncci num => s.dataB3Res a.id p.id ncci.ncci num
  | .free a p ncci => s.freeReceiveBuffers a.id p.id ncci.ncci
  | .xmitXon a p => s.channelXmitXon a.id p.id
  | .xmitExtendedXon a p => s.channelXmitExtendedXon a.id p.id
  | .xon a ch => s.setFlow a.id ((s.flow a.id).channelXOn ch.toNat)
  | .flowRemove a p => s.setFlow a.id ((s.flow a.id).channelFlowControlRemove p.id)
  | .other adapters flow nl => { s with adapters := adapters, flow := flow, nl := nl }

/-- The application has registered, and no packet is under way. -/
structure Init (s : RxSt) : Prop where
  dataNCCI : ∀ i, s.appl.dataNCCI i = 0
  receiving : ∀ a p, (s.plci a p).receiving = none

end RxSt

end Divas.Capi
