/-
  Divas.Capi.Window — the DATA_B3 send window of an NCCI (message.c).

  A DATA_B3 request is in one of three places: the message queue of its PLCI, the ring
  `DBuffer` of its NCCI (`data_out`, `data_pending`), or with the adapter (`data_sent`,
  `data_sent_ptr`; such a request is also still in its ring unless a cleanup emptied
  the ring). A request with Flags bit 2 has a second entry in the ring `DataAck`.

  Actors. An application puts messages (`put`; the driver gives a DATA_B3 request a
  transmit buffer that is not in use). `callback` takes the head message out of the
  queue while the PLCI is idle (`dequeue`), takes return codes of the request it issued
  (`rc`) and N_DATA_ACK indications (`ack`), and sends (`sendData`). NCCIs are cleaned
  up (`cleanup`), and `reset_b3_req` and `adjust_b_process` empty the rings with
  `data_rc` and `data_ack` (`flushRc`, `flushAck`: one turn of these loops). All other
  code of the adapter is the environment (`other`): it changes the states, the flow
  control, the busy flags and the NCCI mapping, but it issues no request while one is
  out (`nl_req`) and remaps no NCCI that has data pending (`ncci_remove` cleans up
  first).

  `log` is what was called, in order: `TransmitBufferSet` and `TransmitBufferFree`, the
  confirmations sent, and the data requests issued.
-/

import Divas.Lib.Ring
import Divas.Capi.MsgQueueFifo

namespace Divas.Capi

open Divas.Lib.Bytes Divas.Lib.Ring

variable {P : PtrSize}

def cmdDisconnectB3R : Nat := 0x8084

/-- `_WRONG_IDENTIFIER` and `_WRONG_STATE`. -/
def wrongIdentifier : Nat := 0x2002
def wrongState : Nat := 0x2001

/-- The functions that confirm a DATA_B3 request. -/
inductive Confirmer where
  | dataB3Req
  | dataRc
  | dataAck
  deriving DecidableEq, Repr

inductive Call (P : PtrSize) where
  | set (appl : ApplPtr P) (ref : Nat)
  | free (appl : ApplPtr P) (ref : Nat)
  | confirm (by_ : Confirmer) (appl : ApplPtr P) (ncci number handle info : Nat)
  | request (ch ref : Nat)
  deriving DecidableEq

structure WinSt (P : PtrSize) where
  a : Adapter
  plci : Plci P
  /-- The used entries of each application's `xbuffer_table`. -/
  used : ApplPtr P → Nat → Bool
  log : List (Call P)
  /-- Number and handle of the requests accepted for each NCCI, without and with Flags
      bit 2, in order. -/
  accepted : Nat → Bool → List (Nat × Nat)

namespace WinSt

def call (s : WinSt P) (c : Call P) : WinSt P := { s with log := s.log ++ [c] }

def setNcci (s : WinSt P) (n : Nat) (w : Ncci) : WinSt P :=
  { s with a := { s.a with ncci := Function.update s.a.ncci n w } }

@[simp] theorem call_a (s : WinSt P) (c : Call P) : (s.call c).a = s.a := rfl
@[simp] theorem call_plci (s : WinSt P) (c : Call P) : (s.call c).plci = s.plci := rfl
@[simp] theorem call_used (s : WinSt P) (c : Call P) : (s.call c).used = s.used := rfl
@[simp] theorem call_log (s : WinSt P) (c : Call P) : (s.call c).log = s.log ++ [c] := rfl
@[simp] theorem call_accepted (s : WinSt P) (c : Call P) : (s.call c).accepted = s.accepted := rfl
@[simp] theorem setNcci_ncci (s : WinSt P) (n : Nat) (w : Ncci) :
    (s.setNcci n w).a.ncci = Function.update s.a.ncci n w := rfl
@[simp] theorem setNcci_plci (s : WinSt P) (n : Nat) (w : Ncci) : (s.setNcci n w).plci = s.plci := rfl
@[simp] theorem setNcci_used (s : WinSt P) (n : Nat) (w : Ncci) : (s.setNcci n w).used = s.used := rfl
@[simp] theorem setNcci_log (s : WinSt P) (n : Nat) (w : Ncci) : (s.setNcci n w).log = s.log := rfl
@[simp] theorem setNcci_accepted (s : WinSt P) (n : Nat) (w : Ncci) : (s.setNcci n w).accepted = s.accepted := rfl

/-! ## Transmit buffers -/

def bufferSet (s : WinSt P) (appl : ApplPtr P) (ref : Nat) : WinSt P :=
  { s.call (.set appl ref) with
    used := Function.update s.used appl (Function.update (s.used appl) (ref % 65536) true) }

def bufferFree (s : WinSt P) (appl : ApplPtr P) (ref : Nat) : WinSt P :=
  { s.call (.free appl ref) with
    used := Function.update s.used appl (Function.update (s.used appl) (ref % 65536) false) }

@[simp] theorem bufferSet_a (s : WinSt P) (appl : ApplPtr P) (ref : Nat) : (s.bufferSet appl ref).a = s.a := rfl
@[simp] theorem bufferSet_plci (s : WinSt P) (appl : ApplPtr P) (ref : Nat) : (s.bufferSet appl ref).plci = s.plci := rfl
@[simp] theorem bufferSet_log (s : WinSt P) (appl : ApplPtr P) (ref : Nat) :
    (s.bufferSet appl ref).log = s.log ++ [.set appl ref] := rfl
@[simp] theorem bufferSet_accepted (s : WinSt P) (appl : ApplPtr P) (ref : Nat) :
    (s.bufferSet appl ref).accepted = s.accepted := rfl
@[simp] theorem bufferFree_a (s : WinSt P) (appl : ApplPtr P) (ref : Nat) : (s.bufferFree appl ref).a = s.a := rfl
@[simp] theorem bufferFree_plci (s : WinSt P) (appl : ApplPtr P) (ref : Nat) :
    (s.bufferFree appl ref).plci = s.plci := rfl
@[simp] theorem bufferFree_log (s : WinSt P) (appl : ApplPtr P) (ref : Nat) :
    (s.bufferFree appl ref).log = s.log ++ [.free appl ref] := rfl
@[simp] theorem bufferFree_accepted (s : WinSt P) (appl : ApplPtr P) (ref : Nat) :
    (s.bufferFree appl ref).accepted = s.accepted := rfl

/-! ## cleanup_ncci_data -/

/-- `if (!plci->data_sent || ptr != plci->data_sent_ptr) TransmitBufferFree (plci->appl, ptr)`. -/
def freeUnlessSent (s : WinSt P) (ref : Nat) : WinSt P :=
  if !s.plci.dataSent || ref != s.plci.dataSentPtr then s.bufferFree s.plci.appl ref else s

/-- `while (ncci_ptr->data_pending != 0)`. -/
def cleanupLoop (d : Nat → DataB3Desc) : Nat → Nat → WinSt P → WinSt P
  | 0, _, s => s
  | pending + 1, out, s => cleanupLoop d pending (bump maxDataB3 out) (s.freeUnlessSent (d out).p)

@[simp] theorem freeUnlessSent_a (s : WinSt P) (ref : Nat) : (s.freeUnlessSent ref).a = s.a := by
  unfold freeUnlessSent; split <;> rfl

@[simp] theorem freeUnlessSent_plci (s : WinSt P) (ref : Nat) : (s.freeUnlessSent ref).plci = s.plci := by
  unfold freeUnlessSent; split <;> rfl

@[simp] theorem freeUnlessSent_accepted (s : WinSt P) (ref : Nat) : (s.freeUnlessSent ref).accepted = s.accepted := by
  unfold freeUnlessSent; split <;> rfl

/-- The loop touches the transmit buffers only. -/
theorem cleanupLoop_frame (d : Nat → DataB3Desc) (pending out : Nat) (s : WinSt P) :
    (cleanupLoop d pending out s).a = s.a ∧ (cleanupLoop d pending out s).plci = s.plci ∧
      (cleanupLoop d pending out s).accepted = s.accepted := by
  induction pending generalizing out s with
  | zero => exact ⟨rfl, rfl, rfl⟩
  | succ pending ih =>
    obtain ⟨h1, h2, h3⟩ := ih (bump maxDataB3 out) (s.freeUnlessSent (d out).p)
    exact ⟨by simp [cleanupLoop, h1], by simp [cleanupLoop, h2], by simp [cleanupLoop, h3]⟩

def cleanupNcciData (s : WinSt P) (n : Nat) : WinSt P :=
  if n ≠ 0 ∧ s.a.ncciPlci n = s.plci.id then
    let w := s.a.ncci n
    let s := if s.plci.appl ≠ ApplPtr.null P then cleanupLoop w.dBuffer w.dataPending w.dataOut s else s
    s.setNcci n { w with dataOut := 0, dataPending := 0, dataAckOut := 0, dataAckPending := 0 }
  else s

/-! ## send_data -/

/-- One turn of the loop of `send_data`, for the NCCI `n`. -/
def sendDataNcci (s : WinSt P) (n : Nat) : WinSt P :=
  if s.a.ncciCh n != 0 && s.a.okFcPending (s.a.ncciCh n) then s
  else
    let w := s.a.ncci n
    if w.dataPending ≠ 0 then
      if s.a.ncciState n = .connected ∨ s.a.ncciState n = .incActPending ∨ s.plci.sendDisc = n then
        let p := (w.dBuffer w.dataOut).p
        { s.call (.request (s.a.ncciCh n) p) with
          plci := { s.plci with nlReq := true, nlReqCh := s.a.ncciCh n, dataSent := true, dataSentPtr := p } }
      else s.cleanupNcciData n
    else if s.plci.sendDisc = n ∧ s.plci.command = 0 then
      { s with plci := { s.plci with
          nlReq := true, nlReqCh := s.a.ncciCh n, command := cmdDisconnectB3R, sendDisc := 0 } }
    else s

/-- `do .. while (!plci->nl_req && (ncci != plci->ncci_ring_list))`: the NCCI visited last, and
    the state. A ring of NCCIs has at most MAX_NCCI members. -/
def sendDataLoop : Nat → Nat → WinSt P → Nat × WinSt P
  | 0, n, s => (n, s)
  | fuel + 1, n, s =>
    let n := s.a.ncciNext n
    let s := s.sendDataNcci n
    if !s.plci.nlReq && n != s.plci.ncciRingList then sendDataLoop fuel n s else (n, s)

def setRing (s : WinSt P) (n : Nat) : WinSt P := { s with plci := { s.plci with ncciRingList := n } }

def sendData (s : WinSt P) : WinSt P :=
  if !s.plci.nlReq && s.plci.ncciRingList != 0 then
    let r := sendDataLoop maxNcci s.plci.ncciRingList s
    r.2.setRing r.1
  else s

/-- What a turn of the loop preserves, taken while no request is out, and the new place in
    the ring does not break, `send_data` preserves. -/
theorem sendData_invariant {I : WinSt P → Prop} (hI : ∀ s n, I s → s.plci.nlReq = false → I (s.sendDataNcci n))
    (hring : ∀ s n, I s → I (s.setRing n)) {s : WinSt P} (h : I s) : I s.sendData := by
  have hloop : ∀ fuel n (s : WinSt P), I s → s.plci.nlReq = false → I (sendDataLoop fuel n s).2 := by
    intro fuel
    induction fuel with
    | zero => intro n s h _; exact h
    | succ fuel ih =>
      intro n s h hreq
      simp only [sendDataLoop]
      split
      · rename_i hgo
        simp only [Bool.and_eq_true, Bool.not_eq_true'] at hgo
        exact ih _ _ (hI s _ h hreq) hgo.1
      · exact hI s _ h hreq
  unfold sendData
  split
  · rename_i hgo
    simp only [Bool.and_eq_true, Bool.not_eq_true'] at hgo
    have hend := hloop maxNcci s.plci.ncciRingList s h hgo.1
    exact hring (sendDataLoop maxNcci s.plci.ncciRingList s).2 (sendDataLoop maxNcci s.plci.ncciRingList s).1 hend
  · exact h

/-! ## data_b3_req -/

/-- The request is the last of both rings, of `DataAck` only with Flags bit 2. -/
def pushData (w : Ncci) (data : DataB3Desc) : Ncci :=
  let w := { w with
    dBuffer := Function.update w.dBuffer (wrap maxDataB3 (w.dataOut + w.dataPending)) data
    dataPending := w.dataPending + 1 }
  if flagged data.flags then
    { w with
      dataAck := Function.update w.dataAck (wrap maxDataAck (w.dataAckOut + w.dataAckPending))
        { number := data.number, handle := data.handle }
      dataAckPending := w.dataAckPending + 1 }
  else w

/-- The entry for a message. -/
def dataB3Desc (msg : Mem) : DataB3Desc where
  handle := dataB3ReqHandle msg
  number := headerNumber msg
  flags := dataB3ReqFlags msg
  length := dataB3ReqLength msg
  p := dataB3ReqData msg

/-- `hasPlci` says that the PLCI was found, `queued` that the message is in
    `msg_in_queue`. -/
def dataB3Req (s : WinSt P) (hasPlci : Bool) (appl : ApplPtr P) (msg : Mem) (queued : Bool) : WinSt P :=
  let n := headerNcci msg
  let ref := dataB3ReqData msg
  if (hasPlci = true ∧ n ≠ 0) ∧ (s.a.ncciState n = .connected ∨ s.a.ncciState n = .incActPending) then
    let s := if queued then s else s.bufferSet appl (transmitBufferSet ref)
    (s.setNcci n (pushData (s.a.ncci n) (dataB3Desc msg))).sendData
  else if appl ≠ ApplPtr.null P then
    let s := if headerPlci msg != 0 && queued then s.bufferFree appl ref else s
    s.call (.confirm .dataB3Req appl n (headerNumber msg) (dataB3ReqHandle msg)
      (if hasPlci = true ∧ n ≠ 0 then wrongState else wrongIdentifier))
  else s

/-! ## data_rc and data_ack -/

def popData (s : WinSt P) (n : Nat) : WinSt P :=
  let w := s.a.ncci n
  s.setNcci n { w with dataOut := bump maxDataB3 w.dataOut, dataPending := w.dataPending - 1 }

def popAck (s : WinSt P) (n : Nat) : WinSt P :=
  let w := s.a.ncci n
  s.setNcci n { w with dataAckOut := bump maxDataAck w.dataAckOut, dataAckPending := w.dataAckPending - 1 }

def dataRc (s : WinSt P) (ch ptr : Nat) : WinSt P :=
  if s.plci.appl ≠ ApplPtr.null P then
    let s := s.freeUnlessSent ptr
    let n := s.a.chNcci ch
    let w := s.a.ncci n
    let data := w.dBuffer w.dataOut
    if (n ≠ 0 ∧ s.a.ncciPlci n = s.plci.id) ∧ w.dataPending ≠ 0 ∧ data.p = ptr then
      let s := if !flagged data.flags && s.a.ncciState n != .idle then
          s.call (.confirm .dataRc s.plci.appl n data.number data.handle 0) else s
      s.popData n
    else s
  else s

def dataAck (s : WinSt P) (ch : Nat) : WinSt P :=
  let n := s.a.chNcci ch
  let w := s.a.ncci n
  let ack := w.dataAck w.dataAckOut
  if w.dataAckPending ≠ 0 then
    let s := if s.a.ncciState n != .idle && s.a.ncciPlci n == s.plci.id then
        s.call (.confirm .dataAck s.plci.appl n ack.number ack.handle 0) else s
    s.popAck n
  else s

/-! ## api_put_reenter and callback -/

/-- The request is accepted: what it will be confirmed with. -/
def accept (s : WinSt P) (msg : Mem) : WinSt P :=
  let n := headerNcci msg
  let b := flagged (dataB3ReqFlags msg)
  let as := s.accepted n b ++ [(headerNumber msg, dataB3ReqHandle msg)]
  { s with accepted := Function.update s.accepted n (Function.update (s.accepted n) b as) }

/-- `api_parse` with the format "dwww". -/
def parsesDataB3 (msg : Mem) : Bool := decide (sizeofHeader + 10 ≤ headerLength msg)

/-- The call of the message's function, and whether it was called; `takes` says that
    `api_put_reenter` kept the PLCI. Other functions than `data_b3_req` are part of the
    environment. -/
def dispatch (s : WinSt P) (takes : Bool) (appl : ApplPtr P) (msg : Mem) (queued : Bool) : WinSt P × Bool :=
  let s := if takes then
      { s with plci := { s.plci with command := headerCommand msg, number := headerNumber msg } } else s
  if headerCommand msg = cmdDataB3R then
    if parsesDataB3 msg then (s.dataB3Req takes appl msg queued, true)
    else (if takes then { s with plci := { s.plci with command := 0 } } else s, false)
  else (s, true)

/-- What comes with a message: the number of adapters and the application's record. -/
structure Put (P : PtrSize) where
  maxAdapter : Nat
  ap : Appl
  appl : ApplPtr P
  msg : Mem

/-- The message is for this PLCI, and a DATA_B3 request in it names a buffer of the
    application that is not in use. -/
def admits (s : WinSt P) (x : Put P) : Bool :=
  headerPlci x.msg == s.plci.id
    && (headerCommand x.msg != cmdDataB3R
      || (decide (dataB3ReqData x.msg < 65536) && !s.used x.appl (dataB3ReqData x.msg)))

/-- `api_put`. -/
def put (s : WinSt P) (x : Put P) : WinSt P :=
  match apiPutReenter P x.maxAdapter s.a s.plci x.ap x.msg false with
  | .enqueue j =>
    let q := enqueueMsg P s.plci.toMsgIn j x.msg x.appl
    if headerCommand x.msg = cmdDataB3R then
      let s := if parsesDataB3 x.msg then s.accept x.msg else s
      { s.bufferSet x.appl (transmitBufferSet (dataB3ReqData x.msg)) with plci := s.plci.withQueue q }
    else { s with plci := s.plci.withQueue q }
  | .dispatch takes =>
    let s := if takes && headerCommand x.msg == cmdDataB3R && parsesDataB3 x.msg then s.accept x.msg else s
    (s.dispatch takes x.appl x.msg false).1
  | _ => s

/-- The error branch of the dequeue loop. -/
def dropMsg (s : WinSt P) (appl : ApplPtr P) (msg : Mem) : WinSt P :=
  if headerCommand msg = cmdDataB3R then s.bufferFree appl (dataB3ReqData msg) else s

/-- What `api_put_reenter` decides about the head message, the cursors already behind it. -/
def headPut (s : WinSt P) (maxAdapter : Nat) (ap : Appl) : Divas.Capi.Put :=
  apiPutReenter P maxAdapter s.a (s.plci.withQueue (dequeueMsg P s.plci.toMsgIn)) ap (headMsg s.plci.toMsgIn) true

/-- One turn of the dequeue loop of `callback`. -/
def dequeue (s : WinSt P) (maxAdapter : Nat) (ap : Appl) : WinSt P :=
  if !plciBusy P s.plci && s.plci.msgInWritePos != s.plci.msgInReadPos then
    let m := headMsg s.plci.toMsgIn
    let appl := headAppl P s.plci.toMsgIn
    let r := s.headPut maxAdapter ap
    let s := { s with plci := s.plci.withQueue (dequeueMsg P s.plci.toMsgIn) }
    if appl ≠ ApplPtr.null P then
      match r with
      | .badMsg => s.dropMsg appl m
      | .queueFull => s.dropMsg appl m
      | .enqueue j => { s with plci := s.plci.withQueue (enqueueMsg P s.plci.toMsgIn j m appl) }
      | .dispatch takes =>
        let (s, ok) := s.dispatch takes appl m true
        if ok then s else s.dropMsg appl m
    else s
  else s

/-- The return code of the request that is out. -/
def rc (s : WinSt P) : WinSt P :=
  if s.plci.nlReq then
    let sent := s.plci.dataSent
    let s := { s with plci := { s.plci with nlReq := false, dataSent := false } }
    if sent then s.dataRc s.plci.nlReqCh s.plci.dataSentPtr else s
  else s

/-- `data_rc (plci, ncci_ch[ncci], DBuffer[data_out].P)`, a turn of the loop in `reset_b3_req`
    and `adjust_b_process`. -/
def flushRc (s : WinSt P) (n : Nat) : WinSt P :=
  let w := s.a.ncci n
  if w.dataPending ≠ 0 then s.dataRc (s.a.ncciCh n) (w.dBuffer w.dataOut).p else s

def flushAck (s : WinSt P) (n : Nat) : WinSt P :=
  if (s.a.ncci n).dataAckPending ≠ 0 then s.dataAck (s.a.ncciCh n) else s

/-! ## The environment -/

/-- What the rest of the adapter's code sets. -/
structure Other where
  state : State
  reqIn : Nat
  internalCommand : Nat
  command : Nat
  number : Nat
  nlReq : Bool
  nlReqCh : Nat
  sendDisc : Nat
  ncciRingList : Nat
  chNcci : Nat → Nat
  ncciCh : Nat → Nat
  ncciPlci : Nat → Nat
  ncciState : Nat → State
  ncciNext : Nat → Nat
  okFcPending : Nat → Bool

/-- A request that is out stays out, and an NCCI with data pending stays mapped as it is. -/
def allows (s : WinSt P) (o : Other) : Bool :=
  (!s.plci.dataSent || (o.nlReq && o.nlReqCh == s.plci.nlReqCh))
    && (List.range (maxNcci + 1)).all fun n =>
      (s.a.ncci n).dataPending == 0
        || (o.ncciCh n == s.a.ncciCh n && o.ncciPlci n == s.a.ncciPlci n
          && o.chNcci (s.a.ncciCh n) == s.a.chNcci (s.a.ncciCh n))

def other (s : WinSt P) (o : Other) : WinSt P :=
  { s with
    a := { s.a with
      chNcci := o.chNcci
      ncciCh := o.ncciCh
      ncciPlci := o.ncciPlci
      ncciState := o.ncciState
      ncciNext := o.ncciNext
      okFcPending := o.okFcPending }
    plci := { s.plci with
      state := o.state
      reqIn := o.reqIn
      internalCommand := o.internalCommand
      command := o.command
      number := o.number
      nlReq := o.nlReq
      nlReqCh := o.nlReqCh
      sendDisc := o.sendDisc
      ncciRingList := o.ncciRingList } }

/-! ## Runs -/

inductive Ev (P : PtrSize) where
  | put (x : Put P)
  | dequeue (maxAdapter : Nat) (ap : Appl)
  | rc
  | ack (ch : Nat)
  | cleanup (n : Nat)
  | flushRc (n : Nat)
  | flushAck (n : Nat)
  | sendData
  | other (o : Other)

def step (s : WinSt P) : Ev P → WinSt P
  | .put x => if s.admits x then s.put x else s
  | .dequeue maxAdapter ap => s.dequeue maxAdapter ap
  | .rc => s.rc
  | .ack ch => s.dataAck ch
  | .cleanup n => s.cleanupNcciData n
  | .flushRc n => s.flushRc n
  | .flushAck n => s.flushAck n
  | .sendData => s.sendData
  | .other o => if s.allows o then s.other o else s

/-- Nothing queued, nothing pending, no data with the adapter. -/
structure Init (s : WinSt P) : Prop where
  queue : ∃ m, s.plci.toMsgIn = emptyQueue P m
  id : s.plci.id ≠ 0
  sent : s.plci.dataSent = false
  window : ∀ n, (s.a.ncci n).dataOut = 0 ∧ (s.a.ncci n).dataPending = 0 ∧
    (s.a.ncci n).dataAckOut = 0 ∧ (s.a.ncci n).dataAckPending = 0
  log : s.log = []
  accepted : s.accepted = fun _ _ => []

/-! ## A PLCI with one NCCI -/

/-- NCCI 1 on channel 1, connected; application 1; pointers of eight bytes. -/
def oneNcci : WinSt .eight where
  a :=
    { id := 1
      maxPlci := 1
      adapterDisabled := false
      chNcci := fun i => if i = 1 then 1 else 0
      ncciCh := fun i => if i = 1 then 1 else 0
      ncciPlci := fun i => if i = 1 then 1 else 0
      ncciState := fun i => if i = 1 then .connected else .idle
      ncciNext := fun i => if i = 1 then 1 else 0
      ncci := fun _ => ⟨0, 0, 0, 0, fun _ => ⟨0, 0, 0, 0, 0⟩, fun _ => ⟨0, 0⟩⟩
      okFcPending := fun _ => false }
  plci :=
    { emptyQueue .eight (fun _ => 0) with
      id := 1
      state := .connected
      appl := ⟨1, by decide⟩
      reqIn := 0
      internalCommand := 0
      command := 0
      number := 0
      nlReq := false
      nlReqCh := 0
      dataSent := false
      dataSentPtr := 0
      sendDisc := 0
      ncciRingList := 1 }
  used := fun _ _ => false
  log := []
  accepted := fun _ _ => []

theorem oneNcci_init : oneNcci.Init :=
  ⟨⟨_, rfl⟩, by decide, rfl, fun _ => ⟨rfl, rfl, rfl, rfl⟩, rfl, rfl⟩

/-- A DATA_B3 request of ten bytes for NCCI 1 in the transmit buffer `ref`. -/
def dataB3Msg (flags ref : UInt8) : Mem := fun i =>
  [22, 0, 1, 0, 0x86, 0x80, ref, 0, 1, 1, 1, 0, ref, 0, 0, 0, 10, 0, ref, 0, flags, 0].getD i 0

theorem appl_fits (appl : Fin 256) : appl.val < 256 ^ PtrSize.eight.bytes := by
  have := appl.isLt
  simp [PtrSize.bytes]
  omega

/-- It is put by the application `appl`. -/
def putData (appl : Fin 256) (flags ref : UInt8) : Ev .eight :=
  .put ⟨1, ⟨8, fun _ => 0, fun _ => 0⟩, ⟨appl, appl_fits appl⟩, dataB3Msg flags ref⟩

/-- An internal command begins or ends. -/
def internal (command : Nat) : Ev .eight :=
  .other
    { oneNcci.a, oneNcci.plci with
      internalCommand := command }

end WinSt

end Divas.Capi
