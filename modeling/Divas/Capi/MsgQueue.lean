/-
  Divas.Capi.MsgQueue — the message queue of a PLCI (`api_put_reenter` and the dequeue
  loop of `callback`, message.c).

  `api_put_reenter` either hands a message to its function or copies it into the byte
  array `msg_in_queue` of its PLCI, padded to the pointer size and followed by the
  application pointer. Three cursors describe the array: messages are read at
  `msg_in_read_pos`, written at `msg_in_write_pos`, and the reader goes back to offset
  0 where it meets `msg_in_wrap_pos`. `MSG_IN_QUEUE_SIZE` as a read position is a
  second name for offset 0, and equal read and write positions mean empty.

  `apiPutReenter` is what the function decides (it refuses, it hands on, or it enqueues
  at an offset); `enqueueMsg` and `dequeueMsg` are what the two sides then do to the
  queue. The free-space test and the count of queued DATA_B3 requests are functions of
  their own (`msgInRoom`, `queuedData`).
-/

import Divas.Capi.Types

namespace Divas.Capi

open Divas.Lib.Bytes

variable (P : PtrSize)

/-! ## The layout of the array -/

/-- `(n + (sizeof(void *) - 1)) & ~(sizeof(void *) - 1)`. -/
def align (n : Nat) : Nat := (n + (P.bytes - 1)) / P.bytes * P.bytes

def msgInQueueSize : Nat := align P (4096 * 2)

def msgInOverhead : Nat := P.bytes

/-- `while (k != msg_in_write_pos)`: from `k` on, `n` counts the DATA_B3 requests queued
    for `ncci` and `l` those of them with Flags bit 2. A pass over the whole array
    takes fewer steps than the array has bytes, which is what `fuel` starts with. -/
def queuedDataFrom (q : MsgIn) (ncci : Nat) : Nat → Nat → Nat × Nat → Nat × Nat
  | 0, _, c => c
  | fuel + 1, k, (n, l) =>
    if k = q.msgInWritePos then (n, l)
    else
      let k := if k = q.msgInWrapPos then 0 else k
      let m := from_ q.msgInQueue k
      let hit := headerCommand m == cmdDataB3R && headerNcci m == ncci
      let n' := if hit then n + 1 else n
      let l' := if hit && flagged (dataB3ReqFlags m) then l + 1 else l
      queuedDataFrom q ncci fuel (k + align P (headerLength m + msgInOverhead P)) (n', l')

def queuedData (q : MsgIn) (ncci : Nat) (c : Nat × Nat) : Nat × Nat :=
  queuedDataFrom P q ncci (msgInQueueSize P) q.msgInReadPos c

/-- `i` and `j` of `api_put_reenter`: the room for a message of `len` bytes (one more
    than the bytes that are free) and the offset it would be stored at. -/
def msgInRoom (q : MsgIn) (len : Nat) : Nat × Nat :=
  let i := q.msgInReadPos
  let j := q.msgInWritePos
  if i ≤ j then
    if j + len + msgInOverhead P ≤ msgInQueueSize P then (msgInQueueSize P - j + 1, j) else (i, 0)
  else
    -- the room of one more message like the one at offset 0 is kept free
    let n := align P (headerLength q.msgInQueue + msgInOverhead P)
    let i := if msgInQueueSize P - n < i then msgInQueueSize P - n + 1 else i
    (if j < i then i - j else 0, j)

/-- The test before Q-FULL1. -/
def noRoom (q : MsgIn) (len : Nat) : Bool := (msgInRoom P q len).1 ≤ align P (len + msgInOverhead P)

/-! ## api_put_reenter -/

/-- What `api_put_reenter` does with a message: it returns an error, it enqueues it at
    an offset, or it hands it to the function of its command, with its PLCI or with
    none. -/
inductive Put where
  | badMsg
  | queueFull
  | enqueue (j : Nat)
  | dispatch (plci : Bool)
  deriving DecidableEq, Repr

/-- The PLCI accepts the message: its state, and the NCCI if the message names one. -/
def plciTakes (a : Adapter) (p : Plci P) (msg : Mem) : Bool :=
  p.id != 0
    && (decide (p.appl ≠ ApplPtr.null P) || p.state == .incConPending || p.state == .incConAlert
      || headerCommand msg == cmdDisconnectIResponse)
    && (headerNcci msg == 0 || headerCommand msg == cmdDisconnectB3IResponse
      || (decide (headerNcci msg < maxNcci + 1) && a.ncciPlci (headerNcci msg) == p.id))

def plciBusy (p : Plci P) : Bool := p.reqIn != 0 || p.internalCommand != 0

/-- A DATA_B3 response that must wait in the queue behind a request of its own buffer. -/
def dataResWaits (a : Adapter) (p : Plci P) (ap : Appl) (msg : Mem) : Bool :=
  let n := dataB3ResNumber msg
  !(headerNcci msg == 0
    || decide (ap.maxBuffer ≤ n)
    || ap.dataNCCI n != headerNcci msg ||| a.id <<< 8
    || (ap.dataFlags n >>> 8) % 256 != p.id
    || ap.dataFlags n &&& 0x4 == 0
    || ap.dataFlags n &&& 0x10 == 0
    || p.reqIn == 0)

/-- `if (c)`: the enqueue branch. -/
def enqueueBranch (a : Adapter) (p : Plci P) (ap : Appl) (msg : Mem) (j : Nat) : Put :=
  if headerCommand msg = cmdDataB3IResponse then
    if headerLength msg < 14 then .badMsg
    else if dataResWaits P a p ap msg then .enqueue j else .dispatch true
  else .enqueue j

/-- The controller the header names, counted from 0 (`(byte)((controller & 0x7f) - 1)`). -/
def controllerOf (msg : Mem) : Nat := (headerController msg % 128 + 255) % 256

/-- The message is for a controller that does not exist and is no manufacturer message
    without one. -/
def invalidCtrl (maxAdapter : Nat) (msg : Mem) : Bool :=
  decide (maxAdapter ≤ controllerOf msg)
    && (headerController msg % 128 != 0
      || (headerCommand msg != cmdManufacturerR && headerCommand msg != cmdManufacturerIResponse))

/-- The test before Q-FULL2: the DATA_B3 window of the message's NCCI is full. -/
def dataFull (a : Adapter) (p : Plci P) (msg : Mem) : Bool :=
  let w := a.ncci (headerNcci msg)
  let (n, l) := queuedData P p.toMsgIn (headerNcci msg) (w.dataPending, w.dataAckPending)
  decide (maxDataB3 ≤ n) || decide (maxDataAck ≤ l)

/-- The part of `api_put_reenter` for a PLCI that accepts the message. -/
def putTaken (a : Adapter) (p : Plci P) (ap : Appl) (msg : Mem) (queued : Bool) : Put :=
  let j := (msgInRoom P p.toMsgIn (headerLength msg)).2
  if noRoom P p.toMsgIn (headerLength msg) then .queueFull
  else
    let c := !queued && p.msgInWritePos != p.msgInReadPos
    if headerCommand msg = cmdDataB3R then
      if headerLength msg < 20 then .badMsg
      else if dataFull P a p msg then .queueFull
      else if plciBusy P p && queued then .queueFull
      else if c || plciBusy P p then enqueueBranch P a p ap msg j else .dispatch true
    else if c || plciBusy P p then enqueueBranch P a p ap msg j else .dispatch true

/-- The header names a PLCI of the adapter. -/
def namesPlci (a : Adapter) (msg : Mem) : Bool :=
  headerPlci msg != 0 && decide (headerPlci msg ≤ a.maxPlci) && !a.adapterDisabled

/-- `api_put_reenter` up to the call of the message's function. `a` and `p` are the
    adapter and the PLCI that the header names, `queued` says that `msg` points into
    `msg_in_queue`. -/
def apiPutReenter (maxAdapter : Nat) (a : Adapter) (p : Plci P) (ap : Appl) (msg : Mem) (queued : Bool) : Put :=
  if headerLength msg < sizeofHeader ∨ maxMsgSize < headerLength msg then .badMsg
  else if invalidCtrl maxAdapter msg then .badMsg
  else if namesPlci a msg && plciTakes P a p msg then putTaken P a p ap msg queued
  else .dispatch false

/-! ## The queue -/

/-- The transmit buffer a DATA_B3 request names, as `TransmitBufferSet` returns it: the
    index, cast to a pointer. -/
def transmitBufferSet (ref : Nat) : Nat := ref

/-- The copy into `msg_in_queue` at offset `j`. -/
def enqueueMsg (q : MsgIn) (j : Nat) (msg : Mem) (appl : ApplPtr P) : MsgIn :=
  let len := headerLength msg
  let m := store q.msgInQueue j (load msg 0 len)
  let m := if headerCommand (from_ m j) = cmdDataB3R then
      store m (j + 12) (leBytes 4 (transmitBufferSet (dataB3ReqData (from_ m j)))) else m
  let j' := align P (j + len)
  { msgInQueue := storePtr P m j' appl
    msgInReadPos := q.msgInReadPos
    msgInWritePos := j' + msgInOverhead P
    msgInWrapPos := if j = 0 then q.msgInWritePos else q.msgInWrapPos }

/-- Where the dequeue loop finds the head message. -/
def headPos (q : MsgIn) : Nat := if q.msgInReadPos = q.msgInWrapPos then 0 else q.msgInReadPos

def headMsg (q : MsgIn) : Mem := from_ q.msgInQueue (headPos q)

def headAppl (q : MsgIn) : ApplPtr P :=
  loadPtr P q.msgInQueue (headPos q + align P (headerLength (headMsg q)))

/-- The read position behind the head message. -/
def advanceRead (q : MsgIn) : MsgIn :=
  let i := align P (headerLength (headMsg q)) + msgInOverhead P
  if q.msgInReadPos = q.msgInWrapPos then { q with msgInWrapPos := msgInQueueSize P, msgInReadPos := i }
  else { q with msgInReadPos := headPos q + i }

/-- The reader met the writer (the queue is empty) or the wrap mark. -/
def settleRead (q : MsgIn) : MsgIn :=
  if q.msgInReadPos = q.msgInWritePos then
    { q with msgInWritePos := msgInQueueSize P, msgInReadPos := msgInQueueSize P }
  else if q.msgInReadPos = q.msgInWrapPos then
    { q with msgInReadPos := msgInQueueSize P, msgInWrapPos := msgInQueueSize P }
  else q

/-- The cursors after the head message is taken out. -/
def dequeueMsg (q : MsgIn) : MsgIn := settleRead P (advanceRead P q)

/-- The queue of a PLCI that was just taken (`get_plci_`): empty, the array as it was. -/
def emptyQueue (m : Mem) : MsgIn := ⟨m, msgInQueueSize P, msgInQueueSize P, msgInQueueSize P⟩

/-! ## Alignment -/

theorem align_add_bytes (n : Nat) : align P (n + P.bytes) = align P n + P.bytes := by
  cases P <;> simp only [align, PtrSize.bytes] <;> omega

theorem le_align (n : Nat) : n ≤ align P n := by
  cases P <;> simp only [align, PtrSize.bytes] <;> omega

theorem bytes_pos : 0 < P.bytes := by cases P <;> decide

theorem bytes_dvd_align (n : Nat) : P.bytes ∣ align P n := ⟨_, Nat.mul_comm _ _⟩

theorem bytes_dvd_size : P.bytes ∣ msgInQueueSize P := bytes_dvd_align P _

theorem msgInQueueSize_eq : msgInQueueSize P = 8192 := by cases P <;> rfl

theorem align_add_of_dvd {k : Nat} (h : P.bytes ∣ k) (n : Nat) : align P (k + n) = k + align P n := by
  obtain ⟨d, rfl⟩ := h
  cases P <;> simp only [align, PtrSize.bytes] <;> omega

/-- Below a multiple of the pointer size there is room for a number if there is room
    for it rounded up. -/
theorem align_le_of_dvd {k n : Nat} (hk : P.bytes ∣ k) (h : n ≤ k) : align P n ≤ k := by
  obtain ⟨d, rfl⟩ := hk
  cases P <;> simp only [align, PtrSize.bytes] at * <;> omega

end Divas.Capi
