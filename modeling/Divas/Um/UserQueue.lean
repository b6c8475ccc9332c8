/-
  Divas.Um.UserQueue — the indications of a management entity on their way to its reader (um_idi.c).

  An indication comes in two calls of `process_idi_ind`: the look-ahead says how long it is and
  gets a place for its data or the answer RNR, and when the data is there the second call
  completes it. A plain indication has a segment of the data queue as its place. A combined one
  has `cbuffer`, and `read_combi_ind` splits it later: as many parts at a time as the queue has
  room for, when the indication is complete, at the look-ahead of the next combined one, and
  whenever the user reads.

  The queue is the one of `Divas.Queue.MsgQueue` with a `dword` as head. Beside the fields of the
  entity the state has what the adapter has been offered (`offer`), the indications in the order
  in which they were completed (`arrived`), and the messages that the user has got (`readOut`).
  Return codes come and go by an event of their own. Left out is a removed entity.
-/

import Divas.Queue.MsgQueueFifo
import Divas.Um.CombiInd

namespace Divas.Um

open Divas.Lib.Bytes Divas.Lib.Run Divas.Queue Divas.Capi

def divaUmIdiInd : Nat := 2

/-- `sizeof(diva_um_idi_ind_hdr_t)`: the type, the union with the features of an adapter, and the length. -/
def sizeofIndHdr : Nat := 152
def dataLengthOffset : Nat := 148

def sizeofCbuffer : Nat := 4096

/-- An indication as the reader sees it. -/
structure Indication where
  ind : UInt8
  indCh : UInt8
  data : List UInt8
  deriving DecidableEq

def Part.indication (p : Part) : Indication := ⟨p.ind, 0, p.data⟩

/-- The place that a look-ahead has got, with `RLength` for a segment. -/
inductive Offer where
  | segment (ind : UInt8) (place rLength : Nat)
  | cbuffer
  deriving DecidableEq

structure UserQueue where
  data : QueueSt
  maxLength : Nat
  rc : List (List UInt8)
  rcPending : Bool
  combiInd : Bool
  cbuffer : Mem
  cbufferLength : Nat
  cbufferPos : Nat
  rNum : UInt8
  rnr : UInt8
  offer : Option Offer
  arrived : List Indication
  readOut : List (List UInt8)

/-! ## Segments -/

/-- `diva_data_q_get_segment4write`. -/
def getSegment4write (q : QueueSt) (length : Nat) : Option (QueueSt × Nat) :=
  (queueAllocMsg .four q.q (length % 65536)).map fun r => (q.step .four (.alloc (length % 65536)), r.2)

/-- The fields of the header that are set; the rest of the union stays as it is. -/
def writeIndHdr (q : QueueSt) (pind : Nat) (ind indCh : UInt8) (dataLength : Nat) : QueueSt :=
  (q.step .four (.fill pind 0 (leBytes 4 divaUmIdiInd ++ leBytes 4 ind.toNat ++ leBytes 4 indCh.toNat))).step .four
    (.fill pind dataLengthOffset (leBytes 4 dataLength))

/-- `memcpy` behind the header. -/
def writeIndData (q : QueueSt) (pind : Nat) (bytes : List UInt8) : QueueSt := q.step .four (.fill pind sizeofIndHdr bytes)

def ackSegment4write (q : QueueSt) (pind : Nat) : QueueSt := q.step .four (.complete pind)

namespace UserQueue

variable (e : UserQueue)

/-! ## read_combi_ind -/

/-- The length of the part at `cbuffer_pos`. -/
def thisIndLength : Nat := Divas.Um.thisIndLength (e.cbuffer (e.cbufferPos + 1)) (e.cbuffer (e.cbufferPos + 2))

/-- The part at `cbuffer_pos` in the segment `pind`. -/
def takePart (q : QueueSt) (pind : Nat) : UserQueue :=
  let n := e.thisIndLength
  let q := writeIndHdr q pind (e.cbuffer e.cbufferPos) 0 n
  { e with
    data := ackSegment4write (writeIndData q pind (load e.cbuffer (e.cbufferPos + 3) n)) pind
    cbufferPos := e.cbufferPos + 1 + 2 + (n + 1)
    cbufferLength := e.cbufferLength - (4 + n) }

/-- The loop of `read_combi_ind`, with `ret`; `true` if it returns for want of a segment. -/
def splitLoop : Nat → UserQueue → Nat → UserQueue × Nat × Bool
  | 0, e, ret => (e, ret, false)
  | fuel + 1, e, ret =>
    if e.cbufferLength > 3 ∧ e.cbuffer e.cbufferPos ≠ 0 then
      if e.thisIndLength ≥ e.maxLength ∨ e.thisIndLength + 4 > e.cbufferLength then
        ({ e with cbufferLength := 0, cbufferPos := 0 }, ret, false)
      else
        match getSegment4write e.data (e.thisIndLength + sizeofIndHdr) with
        | none => (e, 1, true)
        | some (q, pind) => splitLoop fuel (e.takePart q pind) 1
    else (e, ret, false)

/-- `read_combi_ind` for an application that takes combined indications itself. -/
def readWhole : UserQueue × Nat :=
  let readable (e : UserQueue) : Nat := if (queuePeekMsg .four e.data.q).isSome then 1 else 0
  if e.cbufferLength > 3 then
    match getSegment4write e.data (e.cbufferLength + sizeofIndHdr) with
    | none => (e, 1)
    | some (q, pind) =>
      let q := writeIndData (writeIndHdr q pind manCombiInd 0 e.cbufferLength) pind (load e.cbuffer 0 e.cbufferLength)
      let e := { e with data := ackSegment4write q pind, cbufferLength := 0, cbufferPos := 0 }
      (e, readable e)
  else
    let e := { e with cbufferLength := 0, cbufferPos := 0 }
    (e, readable e)

/-- `read_combi_ind`. -/
def readCombiInd : UserQueue × Nat :=
  if e.combiInd then e.readWhole
  else
    match splitLoop (e.cbufferLength + 1) e 0 with
    | (e, ret, true) => (e, ret)
    | (e, ret, false) =>
      if e.cbufferLength ≤ 3 ∨ e.cbuffer e.cbufferPos = 0 then ({ e with cbufferLength := 0, cbufferPos := 0 }, ret) else (e, ret)

/-! ## process_idi_ind -/

/-- `do_wakeup` at the end of `process_idi_ind`. -/
def wakeup (doWakeup : Bool) : Bool := doWakeup && !(e.rcPending && e.rc.isEmpty)

/-- `process_idi_ind` for a look-ahead; the caller has set `RNum` and `RNR` to 0. -/
def lookAhead (ind : UInt8) (rLength : Nat) : UserQueue × Bool :=
  if ind = manCombiInd then
    let r := if e.cbufferLength ≠ 0 then e.readCombiInd else (e, 0)
    if r.1.cbufferLength = 0 then
      ({ r.1 with rNum := 1, rnr := 0, cbufferPos := 0, offer := some .cbuffer }, r.1.wakeup (r.2 ≠ 0))
    else ({ r.1 with rNum := 0, rnr := 1, offer := none }, r.1.wakeup true)
  else
    match getSegment4write e.data (rLength + sizeofIndHdr) with
    | some (q, pind) => ({ e with data := q, rNum := 1, rnr := 0, offer := some (.segment ind pind rLength) }, e.wakeup false)
    | none => ({ e with rNum := 0, rnr := 1, offer := none }, e.wakeup true)

/-- `process_idi_ind` for the complete data of a plain indication, which the adapter has put behind the header. -/
def completePlain (ind : UInt8) (pind : Nat) (indCh : UInt8) (bytes : List UInt8) : UserQueue × Bool :=
  let q := writeIndHdr (writeIndData e.data pind bytes) pind ind indCh bytes.length
  ({ e with data := ackSegment4write q pind, offer := none, arrived := e.arrived ++ [⟨ind, indCh, bytes⟩] }, e.wakeup true)

/-- `process_idi_ind` for a combined indication that the adapter has put into `cbuffer`. -/
def completeCombi (parts : List Part) : UserQueue × Bool :=
  let e :=
    { e with
      cbuffer := store e.cbuffer 0 (combined parts)
      cbufferLength := (combined parts).length
      offer := none
      arrived := e.arrived ++ parts.map Part.indication }
  let r := e.readCombiInd
  (r.1, r.1.wakeup (r.2 ≠ 0))

/-! ## diva_um_idi_read -/

/-- `diva_um_idi_read`; `copied` is what the copy to the user returns. -/
def read (maxLength copied : Int) : UserQueue × Int :=
  match e.rc with
  | segment :: rc =>
    let e := { e with rcPending := false }
    if segment.length > maxLength then (e, -2)
    else if copied ≥ 0 then (({ e with rc } : UserQueue).readCombiInd.1, copied)
    else (e, copied)
  | [] =>
    if e.rcPending then (e, 0)
    else
      let e := e.readCombiInd.1
      match queuePeekMsg .four e.data.q with
      | none => (e, 0)
      | some (place, size) =>
        if size > maxLength then (e, -2)
        else if copied ≥ 0 then
          (({ e with
              data := e.data.step .four .free
              readOut := e.readOut ++ [load e.data.q.mem place size] } : UserQueue).readCombiInd.1, copied)
        else (e, copied)

end UserQueue

/-! ## Runs -/

inductive IndEv where
  | look (ind : UInt8) (rLength : UInt16)
  | plain (indCh : UInt8) (bytes : List UInt8)
  | combi (parts : List Part)
  | read (maxLength copied : Int)
  | returnCodes (rc : List (List UInt8)) (pending : Bool)

namespace UserQueue

def step (e : UserQueue) : IndEv → UserQueue
  | .look ind rLength => (e.lookAhead ind rLength.toNat).1
  | .plain indCh bytes =>
    match e.offer with
    | some (.segment ind pind _) => (e.completePlain ind pind indCh bytes).1
    | _ => e
  | .combi parts =>
    match e.offer with
    | some .cbuffer => (e.completeCombi parts).1
    | _ => e
  | .read maxLength copied => (e.read maxLength copied).1
  | .returnCodes rc pending => { e with rc, rcPending := pending }

/-- The entity of `divas_um_idi_create_entity`, without the feature for combined indications. -/
def created (memory cbuffer : Mem) : UserQueue where
  data := QueueSt.start memory (2560 * 16)
  maxLength := 2560
  rc := []
  rcPending := false
  combiInd := false
  cbuffer := cbuffer
  cbufferLength := 0
  cbufferPos := 0
  rNum := 0
  rnr := 0
  offer := none
  arrived := []
  readOut := []

/-- What the adapter does: a look-ahead is completed before the next one, with no more data than there is place for, and a
combined indication has parts that are shorter than a message of the queue may be. -/
def Protocol (e : UserQueue) : IndEv → Prop
  | .look _ _ => e.offer = none
  | .plain _ bytes => ∃ ind pind rLength, e.offer = some (.segment ind pind rLength) ∧ bytes.length ≤ rLength
  | .combi parts => e.offer = some .cbuffer ∧ (combined parts).length ≤ sizeofCbuffer ∧ ∀ p, p ∈ parts →
    p.data.length < e.maxLength
  | _ => True

/-- A segment that the data fits into. -/
def placeFor (bytes : List UInt8) : Option Offer → Prop
  | some (.segment _ _ rLength) => bytes.length ≤ rLength
  | _ => False

instance (bytes : List UInt8) : (o : Option Offer) → Decidable (placeFor bytes o)
  | some (.segment _ _ rLength) => inferInstanceAs (Decidable (bytes.length ≤ rLength))
  | some .cbuffer => isFalse id
  | none => isFalse id

theorem placeFor_iff (bytes : List UInt8) (o : Option Offer) :
    placeFor bytes o ↔ ∃ ind pind rLength, o = some (.segment ind pind rLength) ∧ bytes.length ≤ rLength := by
  cases o with
  | none => simp [placeFor]
  | some o => cases o <;> simp [placeFor]

instance (e : UserQueue) : (ev : IndEv) → Decidable (Protocol e ev)
  | .look _ _ => inferInstanceAs (Decidable (e.offer = none))
  | .plain _ bytes => decidable_of_iff _ (placeFor_iff bytes e.offer)
  | .combi parts => inferInstanceAs (Decidable (e.offer = some .cbuffer ∧ (combined parts).length ≤ sizeofCbuffer ∧
      ∀ p, p ∈ parts → p.data.length < e.maxLength))
  | .read _ _ | .returnCodes _ _ => isTrue trivial

end UserQueue

end Divas.Um
