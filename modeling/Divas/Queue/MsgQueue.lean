/-
  Divas.Queue.MsgQueue — the message queue of `queue.c` and of `dqueue.c`.

  Both are the same code over a head of another size: in `queue.c` the head is a union
  with a pointer and messages are rounded up to the size of a pointer, in `dqueue.c` it
  is a `dword` and so is the unit. The size of the head is the parameter `P`.

  Positions are counted from `Base`, so `High` is `size`; `mem` is the memory from `Base`
  on. The caller of `queueAllocMsg` fills the message later (`fill`) and marks it as
  complete. `live` lists the messages that were accepted and not freed, oldest first.
-/

import Divas.Lib.Run
import Divas.Capi.Types

namespace Divas.Queue

open Divas.Lib.Bytes Divas.Capi

/-- `MSG_INCOMPLETE`. -/
def msgIncomplete : Nat := 0x8000

/-- `Size & ~MSG_INCOMPLETE`. -/
def msgSize (head : Nat) : Nat := head &&& 0xffff7fff

structure MsgQueue where
  size : Nat
  head : Nat
  tail : Nat
  wrap : Option Nat
  count : Nat
  mem : Mem

variable (P : PtrSize)

/-- `MSG_NEED`: the head and the message, rounded up. -/
def msgNeed (size : Nat) : Nat := (P.bytes + size + P.bytes - 1) / P.bytes * P.bytes

def queueInit (buffer : Mem) (sizeBuffer : Nat) : MsgQueue := ⟨sizeBuffer, 0, 0, none, 0, buffer⟩

def queueReset (q : MsgQueue) : MsgQueue := queueInit q.mem q.size

/-- Look if `size` bytes will fit in queue. -/
def queueSpace (q : MsgQueue) (size : Nat) : Bool :=
  let need := msgNeed P size % 65536
  if q.tail = q.head then q.wrap.isNone && decide (need ≤ q.size)
  else if q.head < q.tail then decide (q.tail + need ≤ q.size) || decide (need ≤ q.head)
  else decide (q.tail + need ≤ q.head)

/-- `n & ~(sizeof(void*) - 1)`. -/
def roundDown (n : Nat) : Nat := n / P.bytes * P.bytes

/-- The free bytes, without those behind the last message that none of `splitSize` bytes
    can use. `MSG_NEED` is kept in a `dword`. -/
def freeBytes (q : MsgQueue) (splitSize : Nat) : Nat :=
  let s := msgNeed P splitSize % 4294967296
  let n := roundDown P (q.size - q.tail)
  if q.tail = q.head then if q.wrap.isSome then 0 else roundDown P q.size
  else if q.tail < q.head then q.head - q.tail
  else if splitSize = 0 then if n < q.head then q.head else n
  else if n % s < q.head then n - n % s + q.head
  else n

/-- How many bytes can be written behind as many messages of `splitSize` bytes as fit, and
    `*pSplitCount`, which is written unless `splitSize` is 0. None if it divides by 0. -/
def queueGetFree (q : MsgQueue) (splitSize splitCount : Nat) : Option (Nat × Nat) :=
  let s := msgNeed P splitSize % 4294967296
  let n := freeBytes P q splitSize
  let fret (n : Nat) := if P.bytes < n then n - P.bytes else 0
  if splitSize = 0 then some (fret n, splitCount)
  else if s = 0 then none
  else some (fret (n % s), n / s)

namespace MsgQueue

/-- The code from `alloc:` on. -/
def alloc (q : MsgQueue) (size need : Nat) : MsgQueue × Nat :=
  ({ q with
      mem := store q.mem q.tail (leBytes 4 (size ||| msgIncomplete))
      tail := q.tail + need
      count := (q.count + size) % 4294967296 },
    q.tail + P.bytes)

end MsgQueue

/-- The queue and the place of the message, or NULL. -/
def queueAllocMsg (q : MsgQueue) (size : Nat) : Option (MsgQueue × Nat) :=
  let need := msgNeed P size % 65536
  if q.tail = q.head then
    if q.wrap.isSome ∨ q.size < need then none else some (q.alloc P size need)
  else if q.head < q.tail then
    if q.tail + need ≤ q.size then some (q.alloc P size need)
    else if q.head < need then none
    else some (({ q with wrap := some q.tail, tail := 0 } : MsgQueue).alloc P size need)
  else if q.head < q.tail + need then none
  else some (q.alloc P size need)

def queueCompleteMsg (m : Mem) (p : Nat) : Mem := store m (p - P.bytes) (leBytes 4 (msgSize (dword m (p - P.bytes))))

def queueWriteMsg (q : MsgQueue) (data : List UInt8) : Option (MsgQueue × Nat) :=
  match queueAllocMsg P q data.length with
  | some (q, place) => some ({ q with mem := queueCompleteMsg P (store q.mem place data) place }, place)
  | none => none

def queueFreeMsg (q : MsgQueue) : MsgQueue :=
  let size := msgSize (dword q.mem q.head) % 65536
  let head := q.head + msgNeed P size
  let count := (q.count + 4294967296 - size) % 4294967296
  match q.wrap with
  | some e => if e ≤ head then { q with head := 0, wrap := none, count } else { q with head, count }
  | none => if q.tail ≤ head then { q with head := 0, tail := 0, count } else { q with head, count }

/-- The queue, and the place and the size of the message at its head, or NULL. -/
def queueFreeTail (q : MsgQueue) : MsgQueue × Option (Nat × Nat) :=
  if q.head = q.tail ∧ q.wrap.isNone then (q, none)
  else
    let size := msgSize (dword q.mem q.head) % 65536
    ({ q with tail := q.head + msgNeed P size, wrap := none, count := size }, some (q.head + P.bytes, size))

/-- The place and the size of the first valid message, or NULL. -/
def queuePeekMsg (q : MsgQueue) : Option (Nat × Nat) :=
  if (q.head = q.tail ∧ q.wrap.isNone) ∨ dword q.mem q.head &&& msgIncomplete ≠ 0 then none
  else some (q.head + P.bytes, dword q.mem q.head % 65536)

/-! ## Runs -/

/-- An accepted message: where its head is, its bytes, and whether it is complete. -/
structure Msg where
  off : Nat
  bytes : List UInt8
  complete : Bool
  deriving DecidableEq

def Msg.place (m : Msg) : Nat := m.off + P.bytes

inductive QueueEv where
  | alloc (size : Nat)
  | write (data : List UInt8)
  | fill (p k : Nat) (bs : List UInt8)
  | complete (p : Nat)
  | peek
  | free
  | freeTail
  | reset

structure QueueSt where
  q : MsgQueue
  live : List Msg

namespace QueueSt

def start (buffer : Mem) (sizeBuffer : UInt32) : QueueSt := ⟨queueInit buffer sizeBuffer.toNat, []⟩

def accept (s : QueueSt) (data : Nat → Mem → List UInt8) (complete : Bool) : Option (MsgQueue × Nat) → QueueSt
  | some (q, place) => ⟨q, s.live ++ [⟨place - P.bytes, data place q.mem, complete⟩]⟩
  | none => s

/-- Write `bs` over the bytes from `k` on. -/
def overwrite (bytes : List UInt8) (k : Nat) (bs : List UInt8) : List UInt8 := bytes.take k ++ bs ++ bytes.drop (k + bs.length)

def atPlace (live : List Msg) (p : Nat) (f : Msg → Msg) : List Msg := live.map fun m => if m.place P = p then f m else m

def step (s : QueueSt) : QueueEv → QueueSt
  | .alloc size => s.accept P (fun p m => load m p size) false (queueAllocMsg P s.q size)
  | .write data => s.accept P (fun _ _ => data) true (queueWriteMsg P s.q data)
  | .fill p k bs =>
    ⟨{ s.q with mem := store s.q.mem (p + k) bs }, atPlace P s.live p fun m => { m with bytes := overwrite m.bytes k bs }⟩
  | .complete p =>
    ⟨{ s.q with mem := queueCompleteMsg P s.q.mem p }, atPlace P s.live p fun m => { m with complete := true }⟩
  | .peek => s
  | .free => ⟨queueFreeMsg P s.q, s.live.tail⟩
  | .freeTail => ⟨(queueFreeTail P s.q).1, s.live.take 1⟩
  | .reset => ⟨queueReset s.q, []⟩

/-- Sizes leave the bit of `MSG_INCOMPLETE` free, only live messages are filled and
    completed, and only a queue with a message is told to free one. -/
def Valid (s : QueueSt) : QueueEv → Prop
  | .alloc size => size < 0x8000
  | .write data => data.length < 0x8000
  | .fill p k bs => ∃ m, m ∈ s.live ∧ m.place P = p ∧ k + bs.length ≤ m.bytes.length
  | .complete p => ∃ m, m ∈ s.live ∧ m.place P = p
  | .free => s.live ≠ []
  | _ => True

instance (s : QueueSt) : (e : QueueEv) → Decidable (Valid P s e)
  | .alloc size => inferInstanceAs (Decidable (size < 0x8000))
  | .write data => inferInstanceAs (Decidable (data.length < 0x8000))
  | .fill p k bs => inferInstanceAs (Decidable (∃ m, m ∈ s.live ∧ m.place P = p ∧ k + bs.length ≤ m.bytes.length))
  | .complete p => inferInstanceAs (Decidable (∃ m, m ∈ s.live ∧ m.place P = p))
  | .free => inferInstanceAs (Decidable (s.live ≠ []))
  | .peek | .freeTail | .reset => isTrue trivial

end QueueSt

end Divas.Queue
