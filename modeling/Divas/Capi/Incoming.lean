/-
  Divas.Capi.Incoming — an incoming call that several applications are offered (message.c).

  `c_ind_mask` has a bit for each application that got CONNECT_I. The PLCI waits in
  INC_CON_PENDING (or INC_CON_ALERT) for the first one to take the call: with CONNECT_RES,
  with INFO_REQ (then it is INC_CON_CONNECTED_PEND until CONNECT_RES), or with DISCONNECT_REQ.
  The others get DISCONNECT_I, and their bits stay until they answer it. Messages of theirs
  that are under way then arrive in the states behind the assignment.

  What `AdvCodecSupport` and `add_b23` say to an accepted call is a parameter of the event,
  and so is what the card reports. An application answers CONNECT_I once, says nothing more
  after a rejection or a DISCONNECT_REQ but DISCONNECT_RES, and that after a DISCONNECT_I; a
  message that it may not send is no step. `assigned`, `accepted`, `offered` and `phase` are
  ghost fields. The reservation of resources and `listen_check` are left out.
-/

import Mathlib.Data.Finset.Basic
import Mathlib.Logic.Function.Basic
import Divas.Lib.Run
import Divas.Capi.Types

namespace Divas.Capi

abbrev State.suspending : State := .other 13
abbrev State.incConConnectedPend : State := .other 17
abbrev State.incConConnectedAlert : State := .other 18
abbrev State.incConBlindRetrieve : State := .other 20

/-- A request to the card. `CALL_RES` carries the parameters of an application. -/
inductive SigReq where
  | callRes (appl : Nat)
  | callAlert
  | infoReq
  | userData
  | facilityReq
  | hangup
  | reject
  | remove
  deriving DecidableEq

/-- What an application has said about the call. -/
inductive Phase where
  | offered
  | accepted
  | closing
  | done
  | released
  deriving DecidableEq

/-- The PLCI of the call. An application is its index in `application[]`. -/
structure Incoming where
  maxAppl : Nat
  /-- `plci->Id` is not 0. -/
  live : Bool
  state : State
  appl : Option Nat
  cIndMask : Finset Nat
  sigId : Nat
  nlId : Nat
  channels : Nat
  sigRemoveId : Bool
  /-- A request waits for the card, or for its answer. -/
  reqPending : Bool
  /-- The application whose CONNECT_RES waits for the codec. -/
  spoofed : Option Nat
  lastrejectcause : Nat
  /-- Requests, in order. -/
  requests : List SigReq
  /-- The DISCONNECT_I sent, with their reasons. -/
  sent : List (Nat × Nat)
  offered : Finset Nat
  phase : Nat → Phase
  assigned : List Nat
  accepted : List Nat

/-- `_OTHER_APPL_CONNECTED`. -/
def otherApplConnected : Nat := 0x3304

namespace Incoming

variable (s : Incoming)

/-- `INC_CON_PENDING` or `INC_CON_ALERT`. -/
def Ringing : Prop := s.state = .incConPending ∨ s.state = .incConAlert

instance : Decidable s.Ringing := inferInstanceAs (Decidable (_ ∨ _))

/-- `INC_CON_CONNECTED_PEND` or `INC_CON_CONNECTED_ALERT`. -/
def Connected : Prop := s.state = .incConConnectedPend ∨ s.state = .incConConnectedAlert

instance : Decidable s.Connected := inferInstanceAs (Decidable (_ ∨ _))

/-- The applications with a bit, in the order of the loops. -/
def masked : List Nat := (List.range s.maxAppl).filter (· ∈ s.cIndMask)

def sigReq (r : SigReq) : Incoming := { s with requests := s.requests ++ [r] }

def disconnectI (xs : List Nat) (reason : Nat) : Incoming := { s with sent := s.sent ++ xs.map fun x => (x, reason) }

def setState (t : State) : Incoming := { s with state := t }

/-- How many DISCONNECT_I the application got. -/
def told (x : Nat) : Nat := s.sent.countP fun m => m.1 == x

/-! ## Assignment -/

def clearIncomingCall (discOthers : Bool) (reason : Nat) : Incoming :=
  if discOthers then s.disconnectI s.masked reason else s

/-- `plci->appl = appl`. -/
def setAppl (x : Nat) : Incoming := { s with appl := some x, assigned := s.assigned ++ [x] }

def clearBit (x : Nat) : Incoming := { s with cIndMask := s.cIndMask.erase x }

def assignIncomingCall (x : Nat) (discOthers : Bool) : Incoming :=
  let s := (s.setAppl x).clearBit x
  if discOthers then s.disconnectI s.masked otherApplConnected else s

def ignoreIncomingCall (x : Nat) : Incoming := s.clearBit x

/-- The request that turns the call down. -/
def rejectRequest (reject : Nat) : SigReq :=
  if reject &&& 0xff00 = 0x3400 then .reject
  else if reject = 1 ∨ 8 < reject then (if s.lastrejectcause ≠ 0 then .reject else .hangup)
  else .reject

/-- The last one turns the call down; before, an application is only told. -/
def rejectCall (x reject : Nat) : Incoming :=
  if reject = 0 then s
  else if s.cIndMask = ∅ then (s.sigReq (s.rejectRequest reject)).setAppl x
  else
    let cause := if reject &&& 0xff00 = 0x3400 ∨ (reject ≠ 1 ∧ reject < 9) then reject else s.lastrejectcause
    { s with lastrejectcause := cause }.disconnectI [x] otherApplConnected

/-! ## Removal -/

/-- The condition of `plci_remove_check`. -/
def Removable : Prop := s.nlId = 0 ∧ s.cIndMask = ∅ ∧ (s.sigId = 0xff ∨ s.sigId = 0)

instance : Decidable s.Removable := inferInstanceAs (Decidable (_ ∧ _))

def removeComplete : Incoming :=
  let s := { s with sigId := 0 }
  if s.live then { s with live := false, state := .idle, channels := 0, appl := none, spoofed := none } else s

def plciRemoveCheck : Incoming := if s.Removable then s.removeComplete else s

/-- `plci_remove_`, for a PLCI that is not on the D channel. -/
def plciRemove : Incoming :=
  if s.Removable then s.removeComplete
  else
    let s := if !s.sigRemoveId && (s.sigId != 0 || s.reqPending) then s.sigReq .hangup else s
    let s := { s with channels := 0, appl := none }
    if s.Ringing then (s.setState .outgDisPending).clearIncomingCall false 0 else s

/-! ## The messages of an application -/

/-- What `AdvCodecSupport` and `add_b23` say to an accepted call. -/
inductive Outcome where
  | request
  | refused
  | spoofed
  deriving DecidableEq

/-- The answer to an accepted call. -/
def answer (x : Nat) : Outcome → Incoming
  | .request => s.sigReq (.callRes x)
  | .refused => s.sigReq .hangup
  | .spoofed => { s with spoofed := some x }

def connectRes (x reject : Nat) (o : Outcome) : Incoming :=
  if s.Connected then
    if reject ≠ 0 then s.rejectCall x reject else (s.setState .incConAccept).sigReq (.callRes x)
  else if s.Ringing ∨ s.state = .incConBlindRetrieve then
    if reject ≠ 0 then (s.ignoreIncomingCall x).rejectCall x reject
    else ((s.assignIncomingCall x (s.state != .incConBlindRetrieve)).setState .incConAccept).answer x o
  else s

/-- Digits, user data and a facility of an INFO_REQ. -/
structure InfoParms where
  digits : Bool
  uui : Bool
  fac : Bool

/-- The application gets a call that rings. -/
def getsCall (x : Nat) : Incoming :=
  if s.Ringing then
    (s.setState (if s.state = .incConAlert then .incConConnectedAlert else .incConConnectedPend)).assignIncomingCall x true
  else s

def infoReq (x : Nat) (p : InfoParms) : Incoming :=
  if s.state = .idle then s
  else if !p.fac && p.digits then s.sigReq .infoReq
  else if p.uui then (s.getsCall x).sigReq .userData
  else if p.fac then (s.getsCall x).sigReq .facilityReq
  else s

/-- `ALERT_REQ` without sending complete. -/
def alertReq : Incoming :=
  if s.state = .incConPending then (s.setState .incConAlert).sigReq .callAlert
  else if s.state = .incConConnectedPend then (s.setState .incConConnectedAlert).sigReq .callAlert
  else s

def disconnectReq (x : Nat) : Incoming :=
  let s := if s.Ringing then (s.assignIncomingCall x true).setState .outgDisPending else s
  if s.sigId ≠ 0 ∧ s.appl ≠ none then
    if s.sigId ≠ 0xff then
      if s.state ≠ .incDisPending then (s.sigReq .hangup).setState .outgDisPending else s
    else if s.nlId ≠ 0 then (s.disconnectI [x] 0).setState .incDisPending
    else s
  else s

def disconnectRes (x : Nat) : Incoming :=
  let s := s.clearBit x
  if s.Removable then s.removeComplete
  else if (s.state = .incDisPending ∨ s.state = .suspending) ∧ s.cIndMask = ∅ then
    let s := if s.state ≠ .suspending then s.setState .idle else s
    if s.channels = 0 then s.plciRemove else s
  else s

/-- `CapiRelease` at a PLCI that is in use. -/
def release (x : Nat) : Incoming :=
  let s :=
    if s.Ringing ∧ x ∈ s.cIndMask then
      let s := s.ignoreIncomingCall x
      if s.cIndMask = ∅ then (s.sigReq .hangup).setState .outgDisPending else s
    else s
  let dropped := x ∈ s.cIndMask
  let s := s.clearBit x
  let s := if dropped ∧ s.cIndMask = ∅ ∧ s.appl = none then s.plciRemove else s
  if s.live ∧ s.appl = some x then { s with appl := none, spoofed := none }.plciRemove else s

/-! ## The card -/

def hangup (reason : Nat) : Incoming :=
  let s := if s.Ringing then s.clearIncomingCall true reason else { s with cIndMask := ∅ }
  match s.appl with
  | none => if s.cIndMask = ∅ then (s.setState .idle).sigReq .remove else s.setState .incDisPending
  | some x =>
    if s.state ≠ .idle ∧ s.state ≠ .incDisPending then (s.setState .incDisPending).disconnectI [x] reason else s

/-- The codec is there: the saved CONNECT_RES goes on. -/
def codecReady : Incoming :=
  match s.spoofed with
  | none => s
  | some x => { s.sigReq (.callRes x) with spoofed := none }

/-- `plci` of a message: the PLCI is in use, and it has an application or rings. -/
def Routed : Prop := s.live ∧ (s.appl ≠ none ∨ s.Ringing)

instance : Decidable s.Routed := inferInstanceAs (Decidable (_ ∧ _))

end Incoming

/-! ## Runs -/

/-- A state that the card moves a call to that has its application. -/
structure Progress where
  state : State
  notRinging : state ≠ .incConPending ∧ state ≠ .incConAlert
  notConnected : state ≠ .incConConnectedPend ∧ state ≠ .incConConnectedAlert
  notRetrieve : state ≠ .incConBlindRetrieve

def Progress.idle : Progress := ⟨.idle, by decide, by decide, by decide⟩
def Progress.accept : Progress := ⟨.incConAccept, by decide, by decide, by decide⟩
def Progress.outgDis : Progress := ⟨.outgDisPending, by decide, by decide, by decide⟩
def Progress.incDis : Progress := ⟨.incDisPending, by decide, by decide, by decide⟩

inductive CallEv where
  | connectRes (x reject : Nat) (o : Incoming.Outcome)
  | infoReq (x : Nat) (p : Incoming.InfoParms)
  | alertReq (x : Nat)
  | disconnectReq (x : Nat)
  | disconnectRes (x : Nat)
  | release (x : Nat)
  | hangup (reason : Nat)
  | codecReady
  | progress (t : Progress)
  /-- Entities are assigned or gone, B3 connections come and go, requests are answered. -/
  | entities (nlId channels : Nat) (sigGone sigRemoveId reqPending : Bool)

namespace Incoming

variable (s : Incoming)

/-- The application has not rejected the call nor ended it. -/
def MayTalk (x : Nat) : Prop := x ∈ s.offered ∧ (s.phase x = .offered ∨ s.phase x = .accepted)

instance (x : Nat) : Decidable (s.MayTalk x) := inferInstanceAs (Decidable (_ ∧ _))

/-- Who may send what, when. -/
def Allowed : CallEv → Prop
  | .connectRes x _ _ => x ∈ s.offered ∧ s.phase x = .offered
  | .infoReq x _ => s.MayTalk x
  | .alertReq x => s.MayTalk x
  | .disconnectReq x => s.MayTalk x
  | .disconnectRes x => x ∈ s.offered ∧ s.phase x ≠ .done ∧ s.phase x ≠ .released ∧ s.told x ≠ 0
  | .release x => x ∈ s.offered ∧ s.phase x ≠ .released
  | .progress _ => s.appl ≠ none
  | _ => True

instance (e : CallEv) : Decidable (s.Allowed e) := by
  cases e <;> unfold Allowed <;> infer_instance

def setPhase (x : Nat) (p : Phase) : Incoming := { s with phase := Function.update s.phase x p }

/-- The message, for a PLCI that `api_put` finds. -/
def routed (t : Incoming) : Incoming := if s.Routed then t else s

/-- What an allowed event does. -/
def act : CallEv → Incoming
  | .connectRes x reject o =>
    let s := if reject = 0 then { s.setPhase x .accepted with accepted := s.accepted ++ [x] } else s.setPhase x .closing
    s.routed (s.connectRes x reject o)
  | .infoReq x p => s.routed (s.infoReq x p)
  | .alertReq _ => s.routed s.alertReq
  | .disconnectReq x =>
    let s := s.setPhase x .closing
    s.routed (s.disconnectReq x)
  | .disconnectRes x =>
    let s := s.setPhase x .done
    if s.live then s.disconnectRes x else s
  | .release x =>
    let s := s.setPhase x .released
    if s.live then s.release x else s
  | .hangup reason => if s.live then s.hangup reason else s
  | .codecReady => if s.live then s.codecReady else s
  | .progress t => if s.live then s.setState t.state else s
  | .entities nlId channels sigGone sigRemoveId reqPending =>
    let s := { s with nlId, channels, sigRemoveId, reqPending, sigId := if sigGone then 0 else s.sigId }
    if s.live then s.plciRemoveCheck else s

def step (e : CallEv) : Incoming := if s.Allowed e then s.act e else s

/-- A call that has just been offered. -/
structure Init : Prop where
  live : s.live = true
  state : s.state = .incConPending
  appl : s.appl = none
  mask : s.cIndMask = s.offered
  bound : ∀ x ∈ s.offered, x < s.maxAppl
  sigId : s.sigId ≠ 0xff
  spoofed : s.spoofed = none
  requests : s.requests = []
  sent : s.sent = []
  phase : ∀ x, s.phase x = .offered
  assigned : s.assigned = []
  accepted : s.accepted = []

end Incoming

end Divas.Capi
