/-
  Divas.Capi.MixerRequest — a line interconnect request with a list of participants
  (`mixer_process_request`, the branches for the new forms of LI_REQ_CONNECT and
  LI_REQ_DISCONNECT, message.c).

  The parameter has a structure of participants, behind the data path of the PLCI when they
  are to be connected. Each participant is a structure with a PLCI, and in a connect with the
  flags of the data path. The participants are taken one after the other, until one is
  malformed or `result_buffer` is full; each one gets an entry of seven bytes there. The
  reply is sent from `result_buffer`, in the end by UPDATE, or at once when the request is
  refused.

  The two branches differ in their formats and in what they tell the mixer. What the calls
  do to the coefficients and to the ring is in `Divas.Capi.Mixer` and `Divas.Capi.LiRing`.
-/

import Divas.Lib.Flags
import Divas.Capi.LiRing
import Divas.Capi.Mixer
import Divas.Capi.ParseBounds

namespace Divas.Capi

open Divas.Lib.Bytes Divas.Lib.Flags Divas.Lib.Ring

/-- `sizeof(result_buffer)`, with `MAX_MSG_SIZE` 256. -/
def resultBufferSize : Nat := 256 / (1 + 4) * (1 + 4 + 2)

def liGood : Nat := 0
def liWrongState : Nat := 0x2001
def liWrongIdentifier : Nat := 0x2002
def liWrongMessageFormat : Nat := 0x2007

def liPlciBLastFlag : Nat := 0x80000000
def liPlciBDiscFlag : Nat := 0x40000000
def liPlciBSkipFlag : Nat := 0x20000000

inductive LiForm where
  | connect
  | disconnect
  deriving DecidableEq, Repr

namespace LiForm

/-- LI_REQ_CONNECT, LI_REQ_DISCONNECT. -/
def function : LiForm → Nat
  | connect => 1
  | disconnect => 2

/-- The format of the parameter. -/
def format : LiForm → List ParseFmt
  | connect => [.d, .s]
  | disconnect => [.s]

/-- The entry of `li_req_parms` that has the participants. -/
def participants : LiForm → Nat
  | connect => 1
  | disconnect => 0

/-- The format of a participant. -/
def participantFormat : LiForm → List ParseFmt
  | connect => [.d, .d]
  | disconnect => [.d]

end LiForm

/-! ## The state -/

/-- The fields of a `PLCI` that are looked at. -/
structure LiPlci where
  state : Bool
  nlId : UInt8
  nlRemoveId : UInt8
  liBchannelId : UInt8
  liChannelBits : UInt8
  /-- `get_b1_facilities`, with `B1_FACILITY_MIXER` added, has it. -/
  mixes : Bool

structure LiCard where
  /-- `request` is not NULL. -/
  request : Bool
  maxPlci : Nat
  /-- `UnMapController (adapter->Id)`. -/
  controller : Nat
  xconnect : Bool

/-- The place of a PLCI: its adapter and its index there. -/
abbrev LiPlace := Nat × Nat

structure LiSystem where
  maxAdapter : Nat
  mapController : Nat → Nat
  adapter : Nat → LiCard

/-- A call of another function. -/
inductive LiCall where
  | notifyUpdate (plciB : LiPlace)
  | updateConnect (plciBId : Nat) (connect : Bool) (liFlags : Nat)
  | calculateCoefs
  deriving DecidableEq

/-- What a request finds and leaves. The queue and its positions are of the PLCI of the request. -/
structure LiReqSt where
  plci : LiPlace → LiPlci
  queue : Nat → Nat
  readPos : Nat
  writePos : Nat
  /-- `result_buffer`; it is static. -/
  result : Mem
  oldLiSpec : Bool
  updatePossible : Bool
  calls : List LiCall

/-- The parameters of `mixer_process_request`. `m` is the memory from `li_parms[1].info[1]`
    on. -/
structure LiReq where
  /-- `UnMapId (Id)`. -/
  id : Nat
  /-- The PLCI, or NULL. -/
  plci : Option LiPlace
  operation : Operation
  m : Mem
  /-- `li_parms[1].length`. -/
  length : UInt16

namespace LiReqSt

def setPlci (s : LiReqSt) (k : LiPlace) (p : LiPlci) : LiReqSt := { s with plci := Function.update s.plci k p }

def setBits (s : LiReqSt) (k : LiPlace) (bits : UInt8) : LiReqSt := s.setPlci k { s.plci k with liChannelBits := bits }

def call (s : LiReqSt) (c : LiCall) : LiReqSt := { s with calls := s.calls ++ [c] }

def setQueue (s : LiReqSt) (pos entry : Nat) : LiReqSt := { s with queue := Function.update s.queue pos entry }

def write (s : LiReqSt) (pos : Nat) (bs : List UInt8) : LiReqSt := { s with result := store s.result pos bs }

/-! ## The checks -/

/-- `li_check_main_plci`. -/
def liCheckMainPlci (s : LiReqSt) (plci : Option LiPlace) : Nat :=
  match plci with
  | none => liWrongIdentifier
  | some k =>
    let p := s.plci k
    if p.state = false ∨ p.nlId = 0 ∨ p.nlRemoveId ≠ 0 ∨ p.liBchannelId = 0 then liWrongState else liGood

/-- `ctlr_b`. -/
def ctlrB (e : LiSystem) (plciBId : Nat) : Nat :=
  if plciBId &&& 0x7f ≠ 0 then
    let c := e.mapController (plciBId &&& 0x7f)
    if e.maxAdapter < c ∨ (c ≠ 0 ∧ (e.adapter (c - 1)).request = false) then 0 else c
  else 0

/-- `li2_check_plci_b`, for a PLCI of the adapter `own`: the place of the other one, or what
    is written to the result. -/
def li2CheckPlciB (e : LiSystem) (s : LiReqSt) (own plciBId pos : Nat) : Except Nat LiPlace :=
  let c := ctlrB e plciBId
  let n := plciBId >>> 8 &&& 0xff
  let k : LiPlace := (c - 1, n - 1)
  if LiSt.free s.readPos pos < 2 then .error liWrongState
  else if c = 0 ∨ n = 0 ∨ (e.adapter (c - 1)).maxPlci < n then .error liWrongIdentifier
  else if (s.plci k).state = false ∨ (s.plci k).liBchannelId = 0 then .error liWrongState
  else if plciBId &&& 0x7f ≠ (e.adapter own).controller &&& 0x7f
      ∧ ((e.adapter own).xconnect = false ∨ (e.adapter (c - 1)).xconnect = false) then .error liWrongIdentifier
  else if (s.plci k).mixes = false then .error liWrongState
  else .ok k

end LiReqSt

/-! ## The participants -/

/-- The structure of the participants: the memory from its contents on, and its length. -/
structure Parts where
  m : Mem
  length : Nat

/-- `api_parse` of the parameter, and the participants in it. -/
def LiReq.parts (form : LiForm) (q : LiReq) : Option Parts :=
  (apiParse q.m q.length.toNat form.format).map fun parms =>
    let p := parms.getD form.participants ⟨0, none⟩
    ⟨from_ q.m (p.info + 1), p.length.getD 0⟩

/-- `(word)(li_parms[1].length - participant_parms_pos)`. -/
def LiReq.rest (q : LiReq) (pos : Nat) : Nat := (q.length.toNat + 65536 - pos) % 65536

/-- `api_parse` of a participant: where its contents stand, and their length. -/
def Parts.participantStruct (ps : Parts) (q : LiReq) (pos : Nat) : Option (Nat × Nat) :=
  (apiParse (from_ ps.m pos) (q.rest pos) [.s]).map fun parms =>
    let p := parms.getD 0 ⟨0, none⟩
    (pos + p.info + 1, p.length.getD 0)

/-- A participant that got an entry: where it stands, and what the entry says. -/
structure Treated where
  pos : Nat
  plciBId : Nat
  result : Nat
  deriving DecidableEq, Repr

/-- Its entry. -/
def Treated.bytes (x : Treated) : List UInt8 := 6 :: (leBytes 4 x.plciBId ++ leBytes 2 x.result)

/-- The loop: `participant_parms_pos`, `result_pos` and `plci_b_write_pos`. -/
structure Treating where
  st : LiReqSt
  pos : Nat
  resultPos : Nat
  writePos : Nat
  treated : List Treated

namespace Treating

/-- The entry of a participant. It is written from `result_pos` on. -/
def entry (t : Treating) (plciBId result : Nat) : Treating :=
  let x : Treated := ⟨t.pos, plciBId, result⟩
  { t with st := t.st.write t.resultPos x.bytes, resultPos := t.resultPos + 7, treated := t.treated ++ [x] }

/-- `sizeof(result_buffer) - result_pos < 7`, behind the entry. -/
def full (t : Treating) : Bool := decide (t.resultPos + 7 ≤ resultBufferSize ∧ resultBufferSize - (t.resultPos + 7) < 7)

/-- `participant_parms_pos` behind the participant. -/
def behind (t : Treating) (c : Nat × Nat) : Treating := { t with pos := (c.1 + c.2) % 65536 }

/-- The other PLCI takes part. -/
def accept (form : LiForm) (e : LiSystem) (q : LiReq) (t : Treating) (k : LiPlace) (plciBId liFlags : Nat) : Treating :=
  let s := t.st.setBits k ((t.st.plci k).liChannelBits &&& ~~~liChannelNoAddresses)
  let s :=
    if (e.adapter k.1).xconnect = true ∧ has (s.plci k).liChannelBits liChannelAddressesSet = false then
      let s := { s with updatePossible := false }
      if q.operation ≠ .update then s.call (.notifyUpdate k) else s
    else s
  let s :=
    if q.operation = .update then
      match form with
      | .connect => (s.setBits k ((s.plci k).liChannelBits ||| liChannelInvolved)).call (.updateConnect plciBId true liFlags)
      | .disconnect => s.call (.updateConnect plciBId false 0)
    else s
  let flag :=
    match form with
    | .connect => if liFlags &&& li2FlagConnect ≠ 0 then 0 else liPlciBDiscFlag
    | .disconnect => liPlciBDiscFlag
  { t with st := s.setQueue t.writePos (plciBId ||| flag), writePos := bump liQueueEntries t.writePos }

/-- A turn of the loop: `false` is the break. `own` is the adapter of the PLCI. -/
def turn (form : LiForm) (e : LiSystem) (q : LiReq) (ps : Parts) (own : Nat) (t : Treating) : Treating × Bool :=
  match ps.participantStruct q t.pos with
  | none => (t.entry 0 liWrongMessageFormat, false)
  | some c =>
    match apiParse (from_ ps.m c.1) c.2 form.participantFormat with
    | none => (t.entry 0 liWrongMessageFormat, false)
    | some parms =>
      let plciBId := dword ps.m (c.1 + (parms.getD 0 ⟨0, none⟩).info) % 65536
      let liFlags := dword ps.m (c.1 + (parms.getD 1 ⟨0, none⟩).info)
      if t.full then (t.entry plciBId liWrongState, false)
      else
        match LiReqSt.li2CheckPlciB e t.st own plciBId t.writePos with
        | .error result => ((t.entry plciBId result).behind c, true)
        | .ok k =>
          if q.operation ≠ .precheck ∧ has (t.st.plci k).liChannelBits liChannelNoAddresses = true then
            ((t.entry plciBId liWrongState).behind c, true)
          else (((t.entry plciBId liGood).accept form e q k plciBId liFlags).behind c, true)

/-- `while (participant_parms_pos < length)`; `none` is a loop that goes on for more than `n`
    turns. -/
def loop (form : LiForm) (e : LiSystem) (q : LiReq) (ps : Parts) (own : Nat) : Nat → Treating → Option Treating
  | 0, _ => none
  | n + 1, t =>
    if t.pos < ps.length then
      match t.turn form e q ps own with
      | (t, true) => loop form e q ps own n t
      | (t, false) => some t
    else some t

/-- Behind the loop: the lengths, and the end of the group in the ring. -/
def finish (t : Treating) : Treating :=
  let s := ((t.st.write 0 [UInt8.ofNat (t.resultPos - 1)]).write 3 [UInt8.ofNat (t.resultPos - 4)]).write 6
    [UInt8.ofNat (t.resultPos - 7)]
  let i := LiSt.before t.writePos
  if t.writePos = s.readPos ∨ s.queue i &&& liPlciBLastFlag ≠ 0 then
    { t with
      st := s.setQueue t.writePos (liPlciBSkipFlag ||| liPlciBLastFlag)
      writePos := bump liQueueEntries t.writePos }
  else { t with st := s.setQueue i (s.queue i ||| liPlciBLastFlag) }

end Treating

/-! ## mixer_process_request -/

/-- What is returned, the state, and the Info of the confirmation, if one is sent. -/
structure LiReply where
  returns : Bool
  st : LiReqSt
  confirms : Option Nat
  treated : List Treated

/-- Turns enough for `result_buffer`. -/
def maxTurns : Nat := resultBufferSize / 7

/-- In front of the loop. -/
def LiReqSt.begin (form : LiForm) (q : LiReq) (liFlags : Nat) (k : LiPlace) (s : LiReqSt) : LiReqSt :=
  let s := s.setBits k ((s.plci k).liChannelBits &&& ~~~liChannelNoAddresses)
  if form = .connect ∧ q.operation = .update then s.call (.updateConnect q.id true liFlags) else s

/-- Behind it. -/
def Treating.reply (q : LiReq) (t : Treating) : LiReply :=
  if q.operation = .update then
    ⟨true, ({ t.st with writePos := t.writePos }).call .calculateCoefs, some liGood, t.treated⟩
  else ⟨true, t.st, none, t.treated⟩

/-- The participants, for a PLCI that may be connected. -/
def LiReqSt.treat (form : LiForm) (e : LiSystem) (q : LiReq) (ps : Parts) (liFlags : Nat) (k : LiPlace) (s : LiReqSt) :
    Option LiReply :=
  let s := s.begin form q liFlags k
  (Treating.loop form e q ps k.1 maxTurns ⟨s, 0, 7, s.writePos, []⟩).map fun t => t.finish.reply q

/-- The first bytes of the reply. -/
def LiReqSt.opened (form : LiForm) (s : LiReqSt) : LiReqSt :=
  ({ s with updatePossible := true, oldLiSpec := false }.write 0 (3 :: leBytes 2 form.function)).write 3 [0]

/-- The reply before there is an entry. -/
def LiReqSt.informed (info : Nat) (s : LiReqSt) : LiReqSt := ((s.write 0 [7]).write 3 (4 :: leBytes 2 info)).write 6 [0]

/-- `mixer_process_request`, the branch of the new form. -/
def mixerProcessRequest (form : LiForm) (e : LiSystem) (q : LiReq) (s : LiReqSt) : Option LiReply :=
  let s := s.opened form
  match q.parts form with
  | none => some ⟨false, s, some liWrongMessageFormat, []⟩
  | some ps =>
    let info := s.liCheckMainPlci q.plci
    let s := s.informed info
    match q.plci with
    | none => some ⟨false, s, some info, []⟩
    | some k =>
      if info ≠ liGood then some ⟨false, s, some info, []⟩
      else if q.operation ≠ .precheck ∧ has (s.plci k).liChannelBits liChannelNoAddresses = true then
        some ⟨false, s, some liWrongState, []⟩
      else
        -- The flags between the PLCI and the interconnect, without those of the participants.
        s.treat form e q ps (dword q.m 0 &&& 0xfffffffc) k

end Divas.Capi
