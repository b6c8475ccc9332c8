/-
  Divas.Capi.LiRing — the notification ring of the line interconnect (message.c).

  `li_plci_b_queue` of a PLCI holds what its application is told when the mixer has the
  new coefficients. A LI_REQ_CONNECT or LI_REQ_DISCONNECT is processed three times over
  the ring: to check it when it comes (PRECHECK) and when its turn has come (CHECK), and
  to do it (UPDATE); each pass writes the entries, only the last one moves
  `li_plci_b_write_pos`. A silent update marks the end of a group, and
  `mixer_notify_source_removed` writes an entry of its own. `MIXER_COMMAND_8` moves
  `li_plci_b_req_pos`; up to there `mixer_indication_coefs_set` reads, a group at a time.
  When the coefficients cannot be written, `MIXER_COMMAND_9` takes entries back.

  The checks of a participant look at other PLCIs; what they say is part of the request.
  `written` and `got` are the entries that were written and read, in order.
-/

import Mathlib.Logic.Function.Basic
import Divas.Lib.Ring
import Divas.Lib.Run

namespace Divas.Capi

open Divas.Lib.Ring

/-- `LI_PLCI_B_QUEUE_ENTRIES`. -/
def liQueueEntries : Nat := 256

/-- The participants that `result_buffer` has room for. -/
def maxParticipants : Nat := 49

/-- `LI2_FLAG_INTERCONNECT_A_B | LI2_FLAG_INTERCONNECT_B_A | LI2_FLAG_PCCONNECT_A_B |
    LI2_FLAG_PCCONNECT_B_A`. -/
def li2FlagConnect : Nat := 0xc0000003

/-- What an entry tells: the PLCI, and `LI_PLCI_B_DISC_FLAG` and `LI_PLCI_B_SKIP_FLAG`. -/
structure Notice where
  id : Nat
  disc : Bool
  skip : Bool
  deriving DecidableEq, Repr

/-- An entry; `last` is `LI_PLCI_B_LAST_FLAG`. -/
structure LiEntry extends Notice where
  last : Bool
  deriving DecidableEq, Repr

/-- `LI_PLCI_B_SKIP_FLAG | LI_PLCI_B_LAST_FLAG`. -/
def skipEntry : LiEntry := ⟨⟨0, false, true⟩, true⟩

inductive Operation where
  | precheck
  | check
  | update
  deriving DecidableEq, Repr

structure Participant where
  plciBId : Nat
  flags : Nat
  /-- The checks accept it, the one for room in the ring apart. -/
  accepted : Bool
  /-- It is the PLCI itself and has no addresses, and the silent update that
      `mixer_notify_update` puts is processed at once. -/
  notifiesSelf : Bool

structure LiRequest where
  connect : Bool
  /-- `APPL_FLAG_OLD_LI_SPEC`: one participant. -/
  oldSpec : Bool
  /-- The format, `li_check_main_plci` and the addresses of the PLCI are right. -/
  mainOk : Bool
  /-- The participants up to the first one that is malformed. -/
  participants : List Participant

structure LiSt where
  queue : Nat → LiEntry
  readPos : Nat
  writePos : Nat
  reqPos : Nat
  written : List Notice
  got : List Notice

namespace LiSt

/-- `((read_pos > pos) ? read_pos : LI_PLCI_B_QUEUE_ENTRIES + read_pos) - pos - 1`. -/
def free (readPos pos : Nat) : Nat := (if pos < readPos then readPos else liQueueEntries + readPos) - pos - 1

/-- The position before `pos`. -/
def before (pos : Nat) : Nat := if pos = 0 then liQueueEntries - 1 else pos - 1

def setEntry (s : LiSt) (pos : Nat) (e : LiEntry) : LiSt := { s with queue := Function.update s.queue pos e }

/-- `queue[pos] |= LI_PLCI_B_LAST_FLAG`. -/
def setLast (s : LiSt) (pos : Nat) : LiSt := s.setEntry pos { s.queue pos with last := true }

/-- A group ends at `pos`, or the ring is empty: a marker is needed to end another one. -/
def ended (s : LiSt) (pos : Nat) : Bool := pos == s.readPos || (s.queue (before pos)).last

/-- Write the entry and move `li_plci_b_write_pos`. -/
def push (s : LiSt) (e : LiEntry) : LiSt :=
  { s.setEntry s.writePos e with
    writePos := bump liQueueEntries s.writePos
    written := s.written ++ [e.toNotice] }

/-- LI_REQ_SILENT_UPDATE. -/
def silentUpdate (s : LiSt) : LiSt :=
  if s.ended s.writePos then
    if free s.readPos s.writePos < 2 then s else s.push skipEntry
  else s.setLast (before s.writePos)

/-- `mixer_notify_source_removed`. -/
def sourceRemoved (s : LiSt) (plciBId : Nat) : LiSt :=
  if free s.readPos s.writePos < 1 then s else s.push ⟨⟨plciBId, true, false⟩, false⟩

end LiSt

/-! ## mixer_process_request -/

/-- One pass: `plci_b_write_pos` and the entries written so far. -/
structure Pass where
  st : LiSt
  pos : Nat
  entries : List LiEntry

namespace Pass

def put (t : Pass) (e : LiEntry) : Pass :=
  ⟨t.st.setEntry t.pos e, bump liQueueEntries t.pos, t.entries ++ [e]⟩

/-- Room and the other checks. -/
def takes (t : Pass) (p : Participant) : Bool := !(LiSt.free t.st.readPos t.pos < 2) && p.accepted

/-- `mixer_notify_update` in a PRECHECK or CHECK pass. -/
def notify (t : Pass) (op : Operation) (p : Participant) : Pass :=
  if op != .update && p.notifiesSelf then { t with st := t.st.silentUpdate } else t

/-- `LI_PLCI_B_DISC_FLAG` of an entry. -/
def discFlag (r : LiRequest) (p : Participant) : Bool :=
  if r.connect then !r.oldSpec && p.flags &&& li2FlagConnect == 0 else true

def participant (op : Operation) (r : LiRequest) (t : Pass) (p : Participant) : Pass :=
  if t.takes p then (t.notify op p).put ⟨⟨p.plciBId % 65536, discFlag r p, false⟩, r.oldSpec⟩ else t

/-- The end of the group. -/
def finish (t : Pass) : Pass :=
  if t.st.ended t.pos then t.put skipEntry else { t with st := t.st.setLast (LiSt.before t.pos) }

/-- `if (operation == MIXER_PROCESS_OPERATION_UPDATE) li_plci_b_write_pos = plci_b_write_pos`. -/
def commit (t : Pass) (op : Operation) : LiSt :=
  if op == .update then { t.st with writePos := t.pos, written := t.st.written ++ t.entries.map (·.toNotice) } else t.st

end Pass

/-- The participants that are looked at. -/
def LiRequest.looked (r : LiRequest) : List Participant := r.participants.take (if r.oldSpec then 1 else maxParticipants)

namespace LiSt

def processRequest (s : LiSt) (op : Operation) (r : LiRequest) : LiSt :=
  if !r.mainOk then s
  else
    let t := r.looked.foldl (Pass.participant op r) ⟨s, s.writePos, []⟩
    (if r.oldSpec then t else t.finish).commit op

/-! ## mixer_command -/

/-- `MIXER_COMMAND_8`. -/
def setReqPos (s : LiSt) : LiSt := { s with reqPos := s.writePos }

/-- The loop of `MIXER_COMMAND_9` when the coefficients are not written. It ends at
    `li_plci_b_req_pos`, a ring away at most. -/
def takeBack : Nat → LiSt → LiSt
  | 0, s => s
  | k + 1, s =>
    let s := { s with writePos := before s.writePos }
    if s.writePos ≠ s.reqPos ∧ (s.queue (before s.writePos)).last = false then takeBack k s else s

def writeFailed (s : LiSt) : LiSt := if s.writePos ≠ s.reqPos then takeBack liQueueEntries s else s

/-- One turn of `mixer_indication_coefs_set`. -/
def readEntry (s : LiSt) : LiSt :=
  { s with got := s.got ++ [(s.queue s.readPos).toNotice], readPos := bump liQueueEntries s.readPos }

def readLoop : Nat → LiSt → LiSt
  | 0, s => s
  | k + 1, s =>
    let last := (s.queue s.readPos).last
    let s := s.readEntry
    if last = false ∧ s.readPos ≠ s.reqPos then readLoop k s else s

/-- `mixer_indication_coefs_set`. It ends at `li_plci_b_req_pos`, a ring away at most. -/
def coefsSet (s : LiSt) : LiSt := if s.readPos ≠ s.reqPos then readLoop liQueueEntries s else s

end LiSt

inductive LiEv where
  | request (op : Operation) (r : LiRequest)
  | silentUpdate
  | sourceRemoved (plciBId : Nat)
  | setReqPos
  | writeFailed
  | coefsSet

namespace LiSt

def step (s : LiSt) : LiEv → LiSt
  | .request op r => s.processRequest op r
  | .silentUpdate => s.silentUpdate
  | .sourceRemoved plciBId => s.sourceRemoved plciBId
  | .setReqPos => s.setReqPos
  | .writeFailed => s.writeFailed
  | .coefsSet => s.coefsSet

def start (queue : Nat → LiEntry) : LiSt := ⟨queue, 0, 0, 0, [], []⟩

/-- The participants of a request that get an entry. -/
def taken (s : LiSt) (r : LiRequest) : List Participant :=
  (r.looked.filter (·.accepted)).take (free s.readPos s.writePos - 1)

/-- A request with a list of participants that gets no entry. -/
def takesNone (s : LiSt) (r : LiRequest) : Bool := r.mainOk && !r.oldSpec && (s.taken r).isEmpty

/-- A pass without an entry finds the end of a group where it marks one: a check pass
    must not mark entries that wait, an UPDATE has a marker to write and needs the room.
    A check pass does not notify the PLCI itself. Nothing waits behind
    `li_plci_b_req_pos` when the coefficients are not written. -/
def Cond (s : LiSt) : LiEv → Prop
  | .request op r =>
    (op = .update → s.takesNone r = true → s.ended s.writePos = true → 1 ≤ free s.readPos s.writePos) ∧
    (op ≠ .update → s.takesNone r = true → s.ended s.writePos = true) ∧
    (op ≠ .update → r.mainOk = true → ∀ p, p ∈ s.taken r → p.notifiesSelf = false)
  | .writeFailed => s.writePos = s.reqPos
  | _ => True

instance (s : LiSt) : (e : LiEv) → Decidable (Cond s e)
  | .request .. => inferInstanceAs (Decidable (_ ∧ _ ∧ _))
  | .writeFailed => inferInstanceAs (Decidable (s.writePos = s.reqPos))
  | .silentUpdate | .sourceRemoved _ | .setReqPos | .coefsSet => isTrue trivial

end LiSt

end Divas.Capi
