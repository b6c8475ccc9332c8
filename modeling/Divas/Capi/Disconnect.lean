/-
  Divas.Capi.Disconnect — who has been told that a B3 connection is gone (message.c).

  With N_DISC and N_DISC_ACK the channel and its NCCI are free at once, while the
  application has yet to answer the DISCONNECT_B3_I. The NCCIs it has not answered for are
  in `inc_dis_ncci_table` of the PLCI, an array of bytes whose first 0 is its end.
  `channels` counts them and the connections.

  Actors. The network layer of a PLCI indicates N_CONNECT (`nlConnect`) and N_DISC or
  N_DISC_ACK (`nlDisc`), on any channel; the application sends DISCONNECT_B3_RESP
  (`disconnectB3Res`; `api_put` looks at the NCCI of no other message less). The PLCIs are
  all PLCIs of an adapter, and none of them is a fax PLCI (B3_prot 4 or 5). All other code
  is the environment: it moves the PLCIs and the connections from state to state, wants a
  confirmation (`send_disc`), and fills receive buffers.
-/

import Divas.Capi.Connect
import Divas.Capi.Receive
import Divas.Capi.Incoming

namespace Divas.Capi

def maxChannelsPerPlci : Nat := 8

/-! ## inc_dis_ncci_table -/

/-- `for(i=0; (i<MAX_CHANNELS_PER_PLCI) && plci->inc_dis_ncci_table[i]; i++)`. -/
def tableEnd (t : List Nat) : Nat := t.findIdx (· == 0)

/-- `for(i=0; i<MAX_CHANNELS_PER_PLCI && plci->inc_dis_ncci_table[i]!=(byte)ncci; i++)`. -/
def tableFind (t : List Nat) (ncci : Nat) : Nat := t.findIdx (· == ncci % 256)

/-- The entries behind `i` move down. -/
def tableRemove (t : List Nat) (i : Nat) : List Nat := t.eraseIdx i ++ [0]

/-! ## The state -/

structure DiscPlci where
  state : State
  /-- `command` is one that assigns the PLCI. -/
  assigning : Bool
  /-- The application that has the PLCI. -/
  appl : Option Nat
  /-- `nl_remove_id` is set. -/
  removing : Bool
  b3Prot : Nat
  channels : Nat
  sendDisc : Nat
  incDisNcciTable : List Nat

inductive DiscMsg where
  | connectB3I (plci ncci : Nat)
  | connectB3T90ActiveI (plci ncci : Nat)
  | disconnectB3Conf (plci ncci : Nat)
  | disconnectB3I (plci ncci : Nat)
  | disconnectI (plci : Nat)
  deriving DecidableEq

structure DiscSt where
  n : NcciSt
  /-- The applications, each under its Id. -/
  appl : Nat → RxAppl
  plci : Nat → DiscPlci
  /-- What the applications got, the newest first. -/
  sent : List DiscMsg

/-- `State < INC_ACT_PENDING`. -/
def State.beforeIncAct : State → Bool
  | .idle | .outgConPending | .incConPending | .incConAlert | .incConAccept => true
  | _ => false

namespace DiscSt

def send (s : DiscSt) (m : DiscMsg) : DiscSt := { s with sent := m :: s.sent }

def setPlci (s : DiscSt) (p : Nat) (q : DiscPlci) : DiscSt := { s with plci := Function.update s.plci p q }

def setNcciState (s : DiscSt) (n : Nat) (st : State) : DiscSt :=
  { s with n := s.n.setAdapter { s.n.a with ncciState := Function.update s.n.a.ncciState n st } }

/-- `ncci_free_receive_buffers`. -/
def freeReceiveBuffers (s : DiscSt) (p ncci : Nat) : DiscSt :=
  let k := (s.plci p).appl.getD 0
  let (appl, bug) := ncciFreeReceiveBuffers (s.plci p).appl.isSome s.n.a p ncci (s.appl k, s.n.mappingBug)
  { s with appl := Function.update s.appl k appl, n := { s.n with mappingBug := bug } }

/-- `ncci_remove (plci, ncci, FALSE)`, with the receive buffers. -/
def ncciRemove (s : DiscSt) (p ncci : Nat) : DiscSt :=
  let s := s.freeReceiveBuffers p ncci
  { s with n := s.n.ncciRemove p ncci false }

/-- `if (plci->channels) plci->channels--`. -/
def dropChannel (q : DiscPlci) : DiscPlci := { q with channels := q.channels - 1 }

/-- `plci_remove`: the PLCI has no NCCI and no application any more. -/
def plciRemove (s : DiscSt) (p : Nat) : DiscSt :=
  let s := s.ncciRemove p 0
  s.setPlci p { s.plci p with channels := 0, appl := none }

/-! ## Indications -/

/-- The indication is discarded or flow controlled. -/
def refusesConnect (q : DiscPlci) : Bool :=
  q.removing || q.state == .incDisPending || q.state == .outgDisPending || (q.state == .idle && !q.assigning)
    || q.state.beforeIncAct || (q.state == .localConnect && q.assigning) || q.appl.isNone

/-- The NCCI of the channel; a channel that has none gets one. -/
def channelNcci (s : DiscSt) (p ch : Nat) : Nat × NcciSt :=
  if s.n.a.chNcci ch == 0 then s.n.getNcci p ch 0 else (s.n.a.chNcci ch, s.n)

/-- N_CONNECT. -/
def nlConnect (s : DiscSt) (p ch : Nat) : DiscSt :=
  let q := s.plci p
  if refusesConnect q then s
  else
    let (ncci, n) := s.channelNcci p ch
    let s := { s with n := n }
    let idle := n.a.ncciState ncci == .idle
    let s := if idle then s.setPlci p { q with channels := (q.channels + 1) % 256 } else s
    (s.setNcciState ncci .incConPending).send
      (if !idle && q.b3Prot == 1 then .connectB3T90ActiveI p ncci else .connectB3I p ncci)

/-- The NCCI is added to the table, or the channel is not counted any more. -/
def addIncDis (q : DiscPlci) (ncci : Nat) : DiscPlci :=
  if tableEnd q.incDisNcciTable < maxChannelsPerPlci then
    { q with incDisNcciTable := q.incDisNcciTable.set (tableEnd q.incDisNcciTable) (ncci % 256) }
  else dropChannel q

/-- N_DISC and N_DISC_ACK. -/
def nlDisc (s : DiscSt) (p ch : Nat) : DiscSt :=
  let q := s.plci p
  if q.removing || q.appl.isNone then s
  else
    let ncci := s.n.a.chNcci ch
    let ncciState := s.n.a.ncciState ncci
    let s := s.ncciRemove p ncci
    if q.channels == 0 then s
    else
      let s := if q.sendDisc == ncci then s.send (.disconnectB3Conf p (if ncci != 0 then ncci else ch)) else s
      let q := if q.sendDisc == ncci then { q with sendDisc := 0 } else q
      let q := addIncDis q ncci
      let s := s.send (.disconnectB3I p (if ncci != 0 then ncci else ch))
      let hangup := ncciState == .outgRejPending && q.b3Prot != 1 && q.b3Prot != 2 && q.b3Prot != 3
      s.setPlci p (if hangup then { q with state := .outgDisPending } else q)

/-! ## The response -/

/-- The message does not come to the PLCI. -/
def refusesResponse (q : DiscPlci) : Bool := !(q.appl.isSome || q.state == .incConPending || q.state == .incConAlert)

/-- `disconnect_b3_res`. `ncci` is a word. -/
def disconnectB3Res (s : DiscSt) (p ncci : Nat) : DiscSt :=
  let q := s.plci p
  if refusesResponse q || ncci == 0 then s
  else
    let i := tableFind q.incDisNcciTable ncci
    if i < maxChannelsPerPlci then
      let q := dropChannel { q with incDisNcciTable := tableRemove q.incDisNcciTable i }
      let s := (s.setPlci p q).freeReceiveBuffers p ncci
      if (q.state == .idle || q.state == .suspending) && q.channels == 0 then
        (if q.state == .suspending then s.send (.disconnectI p) else s).plciRemove p
      else s
    else s

end DiscSt

/-! ## Runs -/

inductive DiscEv where
  | connect (p : PlciId) (ch : UInt8)
  | disc (p : PlciId) (ch : UInt8)
  | response (p : PlciId) (ncci : UInt16)
  | plciState (p : PlciId) (state : State) (assigning removing : Bool) (appl : Option Nat) (sendDisc : Nat)
  | ncciState (n : Nat) (state : State)
  | buffers (appl : Nat → RxAppl)

namespace DiscSt

def step (s : DiscSt) : DiscEv → DiscSt
  | .connect p ch => s.nlConnect p.id ch.toNat
  | .disc p ch => s.nlDisc p.id ch.toNat
  | .response p ncci => s.disconnectB3Res p.id ncci.toNat
  | .plciState p state assigning removing appl sendDisc =>
    s.setPlci p.id { s.plci p.id with
      state := state, assigning := assigning, removing := removing, appl := appl, sendDisc := sendDisc }
  | .ncciState n state =>
    if s.n.a.ncciState n == .idle || state == .idle then s else s.setNcciState n state
  | .buffers appl => { s with appl := appl }

/-- No channel is mapped, and no PLCI has a connection. -/
structure Init (s : DiscSt) : Prop where
  ncci : s.n.Init
  ncciState : ∀ n, s.n.a.ncciState n = .idle
  channels : ∀ p, (s.plci p).channels = 0
  table : ∀ p, (s.plci p).incDisNcciTable = List.replicate maxChannelsPerPlci 0
  sent : s.sent = []

end DiscSt

end Divas.Capi
