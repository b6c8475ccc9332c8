/-
  Divas.Capi.Request — the request buffer `RBuffer` of a PLCI (message.c).

  A request is built up in `RBuffer` by `add_ie`, `add_p` and `add_s`, closed by
  `sig_req_` or `nl_req_ncci_`, and passed to the adapter by `send_req`:

    length (2) | information elements | 0 | flag | request | channel

  The flag is 1 for the network layer entity, else an Id for the signaling entity.
  `req_in_start` is where the record that is being built starts (`req_in` is past its
  terminating 0), `req_out` where the first record starts that is not sent.

  Two machines take the same events. `step` is the code's. `specStep` keeps the
  requests in a list. `other` is all other code: it changes the adapter's state, takes
  return codes (which clear `nl_req` and `sig_req`, and assign Ids), and writes to the
  memory behind `RBuffer`; `drained` is `control_rc` when nothing is left to send.
-/

import Mathlib.Logic.Function.Basic
import Divas.Lib.Run
import Divas.Capi.Types

namespace Divas.Capi

open Divas.Lib.Bytes

/-- `sizeof(plci->RBuffer)`. -/
def sizeofRBuffer : Nat := 2048

def escCode : UInt8 := 0x7f
def uidCode : UInt8 := 0x2d
def caiCode : UInt8 := 0x10
def nlId : UInt8 := 0x20
def removeReq : UInt8 := 0xff
def nXon : UInt8 := 15
def nXonSent : UInt8 := 0x02
def nXonReq : UInt8 := 0x04

/-! ## The state outside the buffer -/

structure Entity where
  id : UInt8
  req : UInt8
  reqCh : UInt8

/-- What `adapter->request` is given: the entity, and the `XData` block. -/
structure Issue where
  nl : Bool
  id : UInt8
  req : UInt8
  reqCh : UInt8
  block : List UInt8
  deriving DecidableEq, Repr

/-- What the functions read and write of PLCI and adapter, less the buffer. -/
structure Entities where
  plciId : UInt8
  adapterDisabled : Bool
  nl : Entity
  sig : Entity
  nlReq : UInt8
  sigReq : UInt8
  nlGlobalReq : UInt8
  sigGlobalReq : UInt8
  nlRemoveId : UInt8
  nlRemoveNcci : Nat
  sigRemoveId : UInt8
  ncciCh : Nat → UInt8
  /-- `manufacturer_features & MANUFACTURER_FEATURE_XONOFF_FLOW_CONTROL`. -/
  xonoffFlowControl : Bool
  chFlowControl : Nat → UInt8
  chFlowPlci : Nat → UInt8
  lastFlowControlCh : Nat
  /-- The calls of `adapter->request`, in order. -/
  issued : List Issue

namespace Entities

def xonPending (c : Entities) (i : Nat) : Bool := c.chFlowControl i &&& nXonReq != 0 && c.plciId == c.chFlowPlci i

/-- The first `i` with `lo ≤ i < lo + n` that has an X_ON pending. -/
def firstXon (c : Entities) (lo n : Nat) : Option Nat := ((List.range n).map (lo + ·)).find? c.xonPending

/-- `find_channel_with_pending_x_on`. -/
def findChannelWithPendingXOn (c : Entities) : Nat × Entities :=
  if !c.xonoffFlowControl then (0, c)
  else
    let maxCh := maxNlChannel + 1
    let c := if maxCh ≤ c.lastFlowControlCh then { c with lastFlowControlCh := 1 } else c
    match c.firstXon c.lastFlowControlCh (maxCh - c.lastFlowControlCh) with
    | some i => (i, { c with lastFlowControlCh := i + 1 })
    | none =>
      match c.firstXon 1 (c.lastFlowControlCh - 1) with
      | some i => (i, { c with lastFlowControlCh := i + 1 })
      | none => (0, c)

def request (c : Entities) (r : Issue) : Entities := { c with issued := c.issued ++ [r] }

def channelXmitXon (c : Entities) : Entities :=
  if c.nlReq != 0 || c.nl.id == 0 || c.nlRemoveId != 0 then c
  else
    let (i, c) := c.findChannelWithPendingXOn
    let ch := UInt8.ofNat i
    if ch == 0 then c
    else
      let flow := (c.chFlowControl ch.toNat &&& ~~~nXonReq) ||| nXonSent
      { c with
        chFlowControl := Function.update c.chFlowControl ch.toNat flow
        nlReq := nXon
        nl := { c.nl with req := nXon, reqCh := ch } }.request ⟨true, c.nl.id, nXon, ch, []⟩

/-- `sig_req_` notes which entity is removed. -/
def noteSig (c : Entities) (req : UInt8) : Entities := if req == removeReq then { c with sigRemoveId := c.sig.id } else c

/-- `nl_req_ncci_` notes which entity and NCCI are removed. -/
def noteNl (c : Entities) (req : UInt8) (ncci : Nat) : Entities :=
  if req == removeReq then { c with nlRemoveId := c.nl.id, nlRemoveNcci := ncci } else c

/-- The channel byte of a network layer request. -/
def nlChannel (c : Entities) (req : UInt8) (ncci : Nat) : UInt8 :=
  c.ncciCh ((if req == removeReq then 0 else ncci) % 256)

/-- `esc_uid`: four bytes, the PLCI's Id in hexadecimal. -/
def escUid (c : Entities) : List UInt8 :=
  let hex := fun n : Nat => UInt8.ofNat (if n < 10 then 0x30 + n else 0x57 + n)
  [4, uidCode, 0x43, hex (c.plciId.toNat / 16 % 16), hex (c.plciId.toNat % 16)]

/-- `!(e->Id & 0x1f)`: the entity is not assigned. -/
def unassigned (id : UInt8) : Bool := id &&& 0x1f == 0

/-- The network layer branch of `send_req`, less the buffer. -/
def sendNl (c : Entities) (req ch : UInt8) (block : List UInt8) : Entities :=
  let id := if unassigned c.nl.id then nlId else c.nl.id
  { c with
    nlReq := req
    nl := ⟨id, req, ch⟩
    nlGlobalReq := if unassigned c.nl.id then req else c.nlGlobalReq }.request ⟨true, id, req, ch, block⟩

/-- The signaling branch of `send_req`, less the buffer. -/
def sendSig (c : Entities) (flag req ch : UInt8) (block : List UInt8) : Entities :=
  let id := if flag != 0 then flag else c.sig.id
  { c with
    sigReq := req
    sig := ⟨id, req, ch⟩
    sigGlobalReq := if unassigned id then req else c.sigGlobalReq }.request ⟨false, id, req, ch, block⟩

end Entities

/-! ## The buffer -/

structure ReqBuf where
  rBuffer : Mem
  reqInStart : Nat
  reqIn : Nat
  reqOut : Nat

namespace ReqBuf

/-- `RBuffer[req_in++] = ..`. -/
def put (b : ReqBuf) (bs : List UInt8) : ReqBuf :=
  { b with rBuffer := store b.rBuffer b.reqIn bs, reqIn := b.reqIn + bs.length }

/-- `add_ie`; `p` points to the length byte. -/
def addIe (b : ReqBuf) (code : UInt8) (p : Option Mem) (pLength : Nat) : ReqBuf :=
  if code &&& 0x80 == 0 && pLength == 0 then b
  else
    let b := if b.reqIn == b.reqInStart then { b with reqIn := b.reqIn + 2 } else { b with reqIn := b.reqIn - 1 }
    let b := b.put [code]
    let b := match p with
      | some p => (b.put [UInt8.ofNat pLength]).put (load p 1 pLength)
      | none => b
    b.put [0]

def addP (b : ReqBuf) (code : UInt8) (p : Option Mem) : ReqBuf :=
  b.addIe code p (match p with
    | some p => (p 0).toNat
    | none => 0)

/-- `add_s`; an `API_PARSE` is the pointer `info` and the length. -/
def addS (b : ReqBuf) (code : UInt8) (p : Option (Mem × Nat)) : ReqBuf :=
  match p with
  | some (info, length) => b.addIe code (some info) length
  | none => b

/-- A request without elements gets its terminating 0. -/
def terminate (b : ReqBuf) : ReqBuf :=
  if b.reqIn == b.reqInStart then { b with reqIn := b.reqIn + 2 }.put [0] else b

def finish (b : ReqBuf) (flag req ch : UInt8) : ReqBuf :=
  let b := { b with rBuffer := store b.rBuffer b.reqInStart (leBytes 2 (b.reqIn - b.reqInStart - 2)) }
  let b := b.put [flag, req, ch]
  { b with reqInStart := b.reqIn }

/-- How `sig_req_` and `nl_req_ncci_` close a record. -/
def close (b : ReqBuf) (flag req ch : UInt8) : ReqBuf := b.terminate.finish flag req ch

end ReqBuf

/-! ## The machine -/

structure ReqSt where
  ent : Entities
  buf : ReqBuf

/-- The Ids that the callers of `sig_req` give: 1 would make it a network layer request. -/
abbrev SigId := { id : UInt8 // id ≠ 1 }

inductive ReqEv where
  | addIe (code : UInt8) (p : Option Mem) (pLength : Nat)
  | addP (code : UInt8) (p : Option Mem)
  | addS (code : UInt8) (p : Option (Mem × Nat))
  | sigReq (req : UInt8) (id : SigId)
  | nlReqNcci (req : UInt8) (ncci : Nat)
  | sendReq
  | drained
  | other (c : Entities) (m : Mem)

namespace ReqSt

def sigReq (s : ReqSt) (req id : UInt8) : ReqSt :=
  if s.ent.adapterDisabled then s
  else ⟨s.ent.noteSig req, (s.buf.addP escCode (some fun i => s.ent.escUid.getD i 0)).close id req 0⟩

def nlReqNcci (s : ReqSt) (req : UInt8) (ncci : Nat) : ReqSt :=
  if s.ent.adapterDisabled then s
  else ⟨s.ent.noteNl req ncci, s.buf.close 1 req (s.ent.nlChannel req ncci)⟩

/-- `send_req` from where it takes the next record. -/
def sendRecord (s : ReqSt) : ReqSt :=
  let m := s.buf.rBuffer
  let l := word m s.buf.reqOut
  let p := s.buf.reqOut + 2
  let out := p + l + 3
  if m (p + l) == 1 then
    if Entities.unassigned s.ent.nl.id then
      let sigId := if s.ent.sig.id == 0xff then 0 else s.ent.sig.id
      let m' := store m (out - 4) [caiCode, 1, sigId, 0]
      ⟨s.ent.sendNl (m (p + l + 1)) (m (p + l + 2)) (load m' p (l + 3)), { s.buf with rBuffer := m', reqOut := out }⟩
    else ⟨s.ent.sendNl (m (p + l + 1)) (m (p + l + 2)) (load m p l), { s.buf with reqOut := out }⟩
  else ⟨s.ent.sendSig (m (p + l)) (m (p + l + 1)) (m (p + l + 2)) (load m p l), { s.buf with reqOut := out }⟩

def sendReq (s : ReqSt) : ReqSt :=
  if s.ent.adapterDisabled then s
  else
    let s := { s with ent := s.ent.channelXmitXon }
    if s.buf.reqIn == s.buf.reqOut then s
    else if s.ent.nlReq != 0 || s.ent.sigReq != 0 then s
    else s.sendRecord

/-- `req_in = req_in_start = req_out = 0` in `control_rc`. -/
def drained (s : ReqSt) : ReqSt :=
  if s.buf.reqIn == s.buf.reqOut then { s with buf := { s.buf with reqIn := 0, reqInStart := 0, reqOut := 0 } } else s

/-- The entities change, and the memory behind `RBuffer`. No request is made. -/
def other (s : ReqSt) (c : Entities) (m : Mem) : ReqSt :=
  ⟨{ c with issued := s.ent.issued },
    { s.buf with rBuffer := fun i => if i < sizeofRBuffer then s.buf.rBuffer i else m i }⟩

def step (s : ReqSt) : ReqEv → ReqSt
  | .addIe code p pLength => { s with buf := s.buf.addIe code p pLength }
  | .addP code p => { s with buf := s.buf.addP code p }
  | .addS code p => { s with buf := s.buf.addS code p }
  | .sigReq req id => s.sigReq req id.1
  | .nlReqNcci req ncci => s.nlReqNcci req ncci
  | .sendReq => s.sendReq
  | .drained => s.drained
  | .other c m => s.other c m

/-- An empty buffer. -/
def start (c : Entities) (m : Mem) : ReqSt := ⟨c, ⟨m, 0, 0, 0⟩⟩

/-- The step stays within `RBuffer`, and `send_req` is called when the request that was
    begun last is closed, or an earlier one still waits. -/
structure Fits (s : ReqSt) (e : ReqEv) : Prop where
  size : (s.step e).buf.reqIn ≤ sizeofRBuffer
  closed : e = .sendReq → s.buf.reqIn = s.buf.reqInStart ∨ s.buf.reqOut ≠ s.buf.reqInStart

end ReqSt

/-! ## The specification -/

/-- A request with its information elements. -/
structure Request where
  flag : UInt8
  req : UInt8
  ch : UInt8
  ies : List UInt8
  deriving DecidableEq, Repr

structure Requests where
  ent : Entities
  /-- The elements added since the last request was closed. -/
  ies : List UInt8
  queue : List Request

/-- One information element. -/
def ieBytes (code : UInt8) (p : Option Mem) (pLength : Nat) : List UInt8 :=
  if code &&& 0x80 == 0 && pLength == 0 then []
  else code :: (match p with
    | some p => UInt8.ofNat pLength :: load p 1 pLength
    | none => [])

namespace Requests

def add (s : Requests) (bs : List UInt8) : Requests := { s with ies := s.ies ++ bs }

/-- The block of a request. A network layer entity that is not assigned gets the Id of
    the signaling entity in a `CAI` element. -/
def block (c : Entities) (r : Request) : List UInt8 :=
  if r.flag == 1 && Entities.unassigned c.nl.id then
    r.ies ++ [caiCode, 1, if c.sig.id == 0xff then 0 else c.sig.id, 0]
  else r.ies ++ [0]

def send (c : Entities) (r : Request) : Entities :=
  if r.flag == 1 then c.sendNl r.req r.ch (block c r) else c.sendSig r.flag r.req r.ch (block c r)

def sendReq (s : Requests) : Requests :=
  if s.ent.adapterDisabled then s
  else
    let s := { s with ent := s.ent.channelXmitXon }
    match s.queue with
    | [] => s
    | r :: q => if s.ent.nlReq != 0 || s.ent.sigReq != 0 then s else { s with ent := send s.ent r, queue := q }

def step (s : Requests) : ReqEv → Requests
  | .addIe code p pLength => s.add (ieBytes code p pLength)
  | .addP code p => s.add (ieBytes code p (match p with
    | some p => (p 0).toNat
    | none => 0))
  | .addS code p => s.add (match p with
    | some (info, length) => ieBytes code (some info) length
    | none => [])
  | .sigReq req id =>
    if s.ent.adapterDisabled then s
    else ⟨s.ent.noteSig req, [], s.queue ++ [⟨id.1, req, 0, s.ies ++ escCode :: s.ent.escUid⟩]⟩
  | .nlReqNcci req ncci =>
    if s.ent.adapterDisabled then s
    else ⟨s.ent.noteNl req ncci, [], s.queue ++ [⟨1, req, s.ent.nlChannel req ncci, s.ies⟩]⟩
  | .sendReq => s.sendReq
  | .drained => s
  | .other c _ => { s with ent := { c with issued := s.ent.issued } }

end Requests

end Divas.Capi
