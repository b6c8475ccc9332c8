/-
  Divas.Queue.TraceRing — the trace ring of the kernel (debug.c).

  The ring is the queue of `dqueue.c`. A writer frees entries from the head until its own one
  fits, stores the head of the entry and its data, and completes it; all of this, and the time
  from `diva_maint_get_message` to `diva_maint_ack_message`, is under `dbg_q_lock`. `entries` are
  the entries in the ring, oldest first, and `taken` the ones that the reader has released.

  Proved (`trace_ring`): in every run of writes and reads whose entries are smaller than half the
  ring, each write stores its entry and frees the oldest ones only while it does not fit, the
  reader sees the entries with the bytes and lengths written and with growing sequence numbers,
  and no write touches a byte outside its entry; as long as the writers store every byte of their
  entries and the sequence numbers do not wrap. `diva_mnt_insert_message` never does: it leaves the
  last byte out and stores its zero behind the entry (`Writer.whole_iff`, `trace_ring_insert`).
-/

import Divas.Queue.Segment
import Mathlib.Data.List.Forall2

namespace Divas.Queue.Trace

open Divas.Lib.Bytes Divas.Lib.Run Divas.Capi

/-! ## Entries -/

/-- `diva_dbg_entry_head_t`. -/
structure EntryHead where
  sequence : UInt32
  timeSec : UInt32
  timeUsec : UInt32
  facility : UInt32
  dli : UInt32
  drvId : UInt32
  diCpu : UInt32
  dataLength : UInt32
  deriving DecidableEq

/-- `sizeof (diva_dbg_entry_head_t)`. -/
def sizeofEntryHead : Nat := 32

def EntryHead.bytes (h : EntryHead) : List UInt8 :=
  leBytes 4 h.sequence.toNat ++ leBytes 4 h.timeSec.toNat ++ leBytes 4 h.timeUsec.toNat ++ leBytes 4 h.facility.toNat ++
    leBytes 4 h.dli.toNat ++ leBytes 4 h.drvId.toNat ++ leBytes 4 h.diCpu.toNat ++ leBytes 4 h.dataLength.toNat

def msgTypeString : UInt32 := 3
def msgTypeBinary : UInt32 := 4
def msgFrameMaxSize : Nat := 2150

def dliLog : UInt32 := 0x0100
def dliFtl : UInt32 := 0x0200

/-- What a writer asks `queueAllocMsg` for, and what it stores; a zero is stored at `zero`, counted from the head. -/
structure TraceMsg where
  size : Nat
  facility : UInt32
  dli : UInt32
  drvId : UInt32
  dataLength : Nat
  data : List UInt8
  zero : Option Nat

/-! ## Writers -/

/-- `DI_append`. -/
def diAppend (id type facility : UInt32) (log : List UInt8) : TraceMsg where
  size := log.length + sizeofEntryHead
  facility := facility
  dli := type
  drvId := id
  dataLength := log.length
  data := log
  zero := none

/-- `diva_mnt_insert_message`. -/
def divaMntInsertMessage (message : List UInt8) : TraceMsg where
  size := min msgFrameMaxSize message.length + sizeofEntryHead + 1
  facility := msgTypeString
  dli := dliFtl
  drvId := 0x1fffffff
  dataLength := min msgFrameMaxSize message.length + 1
  data := message.take msgFrameMaxSize
  zero := some (sizeofEntryHead + (min msgFrameMaxSize message.length + 1))

/-- `DI_format` with a binary message of at most `MaxDumpSize` bytes. -/
def diFormatDump (maxDumpSize : Nat) (id type : UInt32) (data : List UInt8) : Option TraceMsg :=
  if data.length = 0 then none
  else
    some
      { size := min maxDumpSize data.length + sizeofEntryHead
        facility := msgTypeBinary
        dli := type
        drvId := id
        dataLength := min maxDumpSize data.length
        data := data.take maxDumpSize
        zero := none }

/-- `DI_format` with `DLI_XLOG`, of at most `MaxXlogSize` bytes; `data` may be NULL, and `skip` is an
    indication to an entity of the driver itself. -/
def diFormatXlog (maxXlogSize : Nat) (skip : Bool) (id type : UInt32) (code : UInt16) (data : Option Mem) (length : Nat) :
    Option TraceMsg :=
  if skip then none
  else
    some
      { size := min maxXlogSize length + sizeofEntryHead + 2
        facility := msgTypeBinary
        dli := type
        drvId := id
        dataLength := min maxXlogSize length + 2
        data :=
          [code.toUInt8, (code >>> 8).toUInt8] ++
            match data with
            | some data => load data 0 (min maxXlogSize length)
            | none => []
        zero := none }

/-- `DI_format` with a text. -/
def diFormatText (id type : UInt32) (fmtBuf : List UInt8) : Option TraceMsg :=
  if fmtBuf.length = 0 then none
  else
    some
      { size := fmtBuf.length + (sizeofEntryHead + 1)
        facility := msgTypeString
        dli := type
        drvId := id
        dataLength := fmtBuf.length + 1
        data := fmtBuf ++ [0]
        zero := none }

/-- `DI_register`, with the text of its entry. -/
def diRegister (tmp : List UInt8) : TraceMsg where
  size := tmp.length + 1 + sizeofEntryHead
  facility := msgTypeString
  dli := dliLog
  drvId := 0
  dataLength := tmp.length + 1
  data := tmp ++ [0]
  zero := none

inductive Writer where
  | append (id type facility : UInt32) (log : List UInt8)
  | insert (message : List UInt8)
  | dump (maxDumpSize : Nat) (id type : UInt32) (data : List UInt8)
  | xlog (maxXlogSize : Nat) (skip : Bool) (id type : UInt32) (code : UInt16) (data : Option Mem) (length : Nat)
  | text (id type : UInt32) (fmtBuf : List UInt8)
  | register (tmp : List UInt8)

def Writer.msg : Writer → Option TraceMsg
  | .append id type facility log => some (diAppend id type facility log)
  | .insert message => some (divaMntInsertMessage message)
  | .dump maxDumpSize id type data => diFormatDump maxDumpSize id type data
  | .xlog maxXlogSize skip id type code data length => diFormatXlog maxXlogSize skip id type code data length
  | .text id type fmtBuf => diFormatText id type fmtBuf
  | .register tmp => some (diRegister tmp)

/-! ## The ring -/

/-- The loop that allocates an entry, in at most `turns` turns. -/
def allocEntry (size : Nat) : Nat → QueueSt → QueueSt × Option Nat
  | 0, s => (s, none)
  | turns + 1, s =>
    match queueAllocMsg .four s.q size with
    | some (_, p) => (s.step .four (.alloc size), some p)
    | none =>
      match queuePeekMsg .four s.q with
      | some _ => allocEntry size turns (s.step .four .free)
      | none => (s, none)

structure Entry where
  msg : TraceMsg
  head : EntryHead

structure Ring where
  queue : QueueSt
  sequence : UInt32
  busy : Bool
  entries : List Entry
  taken : List Entry
  writes : Nat

namespace Ring

def start (buffer : Mem) (sizeBuffer : UInt32) : Ring := ⟨QueueSt.start buffer sizeBuffer, 0, false, [], [], 0⟩

/-- The head that a write stores. -/
def newHead (s : Ring) (m : TraceMsg) (sec usec : UInt32) : EntryHead :=
  ⟨s.sequence, sec, usec, m.facility, m.dli, m.drvId, 0, UInt32.ofNat m.dataLength⟩

/-- The stores of a writer into the entry at `p`. -/
def storeEntry (queue : QueueSt) (p : Nat) (head : EntryHead) (m : TraceMsg) : QueueSt :=
  let queue := queue.step .four (.fill p 0 head.bytes)
  let queue := queue.step .four (.fill p sizeofEntryHead m.data)
  let queue : QueueSt :=
    match m.zero with
    | some k => ⟨{ queue.q with mem := store queue.q.mem (p + k) [0] }, queue.live⟩
    | none => queue
  queue.step .four (.complete p)

/-- A write of `m`. -/
def write (s : Ring) (m : TraceMsg) (sec usec : UInt32) : Ring :=
  match allocEntry (m.size % 65536) (s.queue.live.length + 1) s.queue with
  | (queue, none) => { s with queue := queue }
  | (queue, some p) =>
    { s with
      queue := storeEntry queue p (s.newHead m sec usec) m
      sequence := s.sequence + 1
      entries := s.entries.drop (s.queue.live.length + 1 - queue.live.length) ++ [⟨m, s.newHead m sec usec⟩]
      writes := s.writes + 1 }

/-- `diva_maint_get_message`: the place and the size of the oldest entry. -/
def divaMaintGetMessage (s : Ring) : Option (Nat × Nat) := if s.busy then none else queuePeekMsg .four s.queue.q

/-- `diva_maint_ack_message`. -/
def divaMaintAckMessage (s : Ring) (doRelease : Bool) : Ring :=
  if s.busy = false then s
  else if doRelease then
    { s with
      queue := s.queue.step .four .free
      busy := false
      entries := s.entries.tail
      taken := s.taken ++ s.entries.take 1 }
  else { s with busy := false }

inductive Ev where
  | write (w : Writer) (sec usec : UInt32)
  | get
  | ack (doRelease : Bool)

/-- A step; a writer does not get the lock before the reader has acknowledged. -/
def step (s : Ring) : Ev → Ring
  | .write w sec usec =>
    match w.msg with
    | some m => if s.busy then s else s.write m sec usec
    | none => s
  | .get => { s with busy := s.busy || (s.divaMaintGetMessage).isSome }
  | .ack doRelease => s.divaMaintAckMessage doRelease

end Ring

/-! ## What holds -/

/-- The queue without its `k` oldest entries. -/
def freed : Nat → QueueSt → QueueSt
  | 0, s => s
  | k + 1, s => freed k (s.step .four .free)

/-- The message is complete, and consists of the head of the entry and of its data, whose length the head has. -/
def Carries (e : Entry) (m : Msg) : Prop :=
  m.complete = true ∧ m.bytes = e.head.bytes ++ e.msg.data ∧ e.head.dataLength.toNat = e.msg.data.length

def Earlier (a b : Entry) : Prop := a.head.sequence.toNat < b.head.sequence.toNat

/-- The reader gets the oldest entry; the entries are in the ring as they were written and apart
    from each other, and their sequence numbers grow, also behind those that were released. -/
structure Shown (s : Ring) : Prop where
  message : s.busy = false → s.divaMaintGetMessage = s.queue.live.head?.map fun m => (m.place .four, m.bytes.length)
  carries : List.Forall₂ Carries s.entries s.queue.live
  bytes : ∀ m ∈ s.queue.live, load s.queue.q.mem (m.place .four) m.bytes.length = m.bytes
  inside : ∀ m ∈ s.queue.live, m.stop .four ≤ s.queue.q.size
  apart : s.queue.live.Pairwise (Apart .four)
  order : (s.taken ++ s.entries).Pairwise Earlier

/-- A write frees the `k` oldest entries, each one because its own does not fit yet, stores its entry
    behind the others, and leaves all other bytes as they are. -/
def Wrote (s : Ring) (msg : TraceMsg) (sec usec : UInt32) (s' : Ring) : Prop :=
  ∃ k m, s'.queue.live = s.queue.live.drop k ++ [m] ∧ (∀ j, j < k → queueAllocMsg .four (freed j s.queue).q msg.size = none) ∧
    s'.entries = s.entries.drop k ++ [⟨msg, s.newHead msg sec usec⟩] ∧ s'.taken = s.taken ∧
    ∀ i, i < m.off ∨ m.stop .four ≤ i → s'.queue.q.mem i = s.queue.q.mem i

/-- The writers that store every byte of their entries: not `diva_mnt_insert_message`, and not
    `DLI_XLOG` for a length without data. -/
def Writer.Whole : Writer → Prop
  | .insert _ => False
  | .xlog maxXlogSize skip _ _ _ none length => skip = true ∨ min maxXlogSize length = 0
  | _ => True

/-- Entries are smaller than 0x8000 bytes and than half the ring, `dbg_sequence` has not wrapped, and
    the writer stores every byte of its entry. -/
def Ring.Cond (s : Ring) : Ring.Ev → Prop
  | .write w _ _ =>
    (∀ m, w.msg = some m → m.size < 0x8000 ∧ 2 * m.size < s.queue.q.size) ∧ s.writes < 4294967296 ∧ w.Whole
  | _ => True

/-! ## Writers -/

/-- The head and the data are all of the entry, and nothing is stored besides. -/
structure TraceMsg.Full (m : TraceMsg) : Prop where
  size : sizeofEntryHead + m.data.length = m.size
  length : m.data.length = m.dataLength
  zero : m.zero = none

/-- Every inserted message leaves a byte of its entry out. -/
theorem divaMntInsertMessage_short (message : List UInt8) :
    sizeofEntryHead + (divaMntInsertMessage message).data.length + 1 = (divaMntInsertMessage message).size := by
  show sizeofEntryHead + (message.take msgFrameMaxSize).length + 1 = min msgFrameMaxSize message.length + sizeofEntryHead + 1
  rw [List.length_take]
  omega

theorem Writer.whole_iff {w : Writer} {m : TraceMsg} (hm : w.msg = some m) : m.Full ↔ w.Whole := by
  cases w with
  | append id type facility log =>
    cases hm
    exact ⟨fun _ => trivial, fun _ => ⟨Nat.add_comm _ _, rfl, rfl⟩⟩
  | insert message =>
    cases hm
    refine ⟨fun h => ?_, fun h => h.elim⟩
    have hshort := divaMntInsertMessage_short message
    have hfull := h.size
    omega
  | dump maxDumpSize id type data =>
    have hm : diFormatDump maxDumpSize id type data = some m := hm
    unfold diFormatDump at hm
    split at hm
    · exact absurd hm nofun
    · cases hm
      have hlen : (data.take maxDumpSize).length = min maxDumpSize data.length := List.length_take
      exact ⟨fun _ => trivial, fun _ => ⟨(congrArg (sizeofEntryHead + ·) hlen).trans (Nat.add_comm _ _), hlen, rfl⟩⟩
  | xlog maxXlogSize skip id type code data length =>
    have hm : diFormatXlog maxXlogSize skip id type code data length = some m := hm
    unfold diFormatXlog at hm
    split at hm
    · exact absurd hm nofun
    · rename_i hskip
      cases hm
      cases data with
      | some data =>
        have hlen : ([code.toUInt8, (code >>> 8).toUInt8] ++ load data 0 (min maxXlogSize length)).length =
            min maxXlogSize length + 2 := by
          simp only [List.length_append, List.length_cons, List.length_nil, load_length]
          omega
        refine ⟨fun _ => trivial, fun _ => ⟨?_, hlen, rfl⟩⟩
        show sizeofEntryHead + _ = min maxXlogSize length + sizeofEntryHead + 2
        rw [hlen]
        omega
      | none =>
        refine ⟨fun h => Or.inr ?_, fun h => ?_⟩
        · have hlen : 2 = min maxXlogSize length + 2 := h.length
          omega
        · have hlen : min maxXlogSize length = 0 := h.resolve_left hskip
          refine ⟨?_, ?_, rfl⟩
          · show sizeofEntryHead + 2 = min maxXlogSize length + sizeofEntryHead + 2
            omega
          · show 2 = min maxXlogSize length + 2
            omega
  | text id type fmtBuf =>
    have hm : diFormatText id type fmtBuf = some m := hm
    unfold diFormatText at hm
    split at hm
    · exact absurd hm nofun
    · cases hm
      have hlen : (fmtBuf ++ [0]).length = fmtBuf.length + 1 := List.length_append
      refine ⟨fun _ => trivial, fun _ => ⟨?_, hlen, rfl⟩⟩
      show sizeofEntryHead + (fmtBuf ++ [0]).length = fmtBuf.length + (sizeofEntryHead + 1)
      omega
  | register tmp =>
    cases hm
    have hlen : (tmp ++ [0]).length = tmp.length + 1 := List.length_append
    exact ⟨fun _ => trivial, fun _ => ⟨(congrArg (sizeofEntryHead + ·) hlen).trans (Nat.add_comm _ _), hlen, rfl⟩⟩

theorem EntryHead.length_bytes (h : EntryHead) : h.bytes.length = sizeofEntryHead := by
  unfold EntryHead.bytes
  simp only [List.length_append, leBytes_length]
  rfl

/-! ## Allocation -/

section Alloc

variable {s : QueueSt} {size p k : Nat}

theorem queueFreeMsg_mem (q : MsgQueue) : (queueFreeMsg .four q).mem = q.mem := by
  unfold queueFreeMsg
  dsimp only
  split
  · split
    · rfl
    · rfl
  · split
    · rfl
    · rfl

/-- What the loop has done: `k` entries are freed, and behind the others there is room for one. -/
structure Allocated (s s' : QueueSt) (size p k : Nat) : Prop where
  holds : Holds .four s'
  live : s'.live = s.live.drop k ++ [⟨p - 4, load s'.q.mem p size, false⟩]
  few : k ≤ s.live.length
  place : 4 ≤ p
  full : ∀ j, j < k → queueAllocMsg .four (freed j s).q size = none
  mem : s'.q.mem = store s.q.mem (p - 4) (leBytes 4 (size ||| msgIncomplete))
  size : s'.q.size = s.q.size

/-- With more turns than entries the loop ends with an entry. -/
theorem allocEntry_allocated (hs : size < 0x8000) : ∀ (turns : Nat) (s : QueueSt), Holds .four s →
    (∀ m ∈ s.live, m.complete = true) →
    msgNeed .four size ≤ s.q.size → s.live.length < turns →
    ∃ s' p k, allocEntry size turns s = (s', some p) ∧ Allocated s s' size p k := by
  intro turns
  induction turns with
  | zero =>
    intro s _ _ _ hturns
    exact absurd hturns (Nat.not_lt_zero _)
  | succ turns ih =>
    intro s h hcomplete hfit hturns
    rw [allocEntry]
    cases ha : queueAllocMsg .four s.q size with
    | some r =>
      rcases r with ⟨q', p⟩
      rcases h.layout.alloc hs ha with ⟨off, hp, hsize, hmem, -, -⟩
      have hp : p = off + 4 := hp
      have hstep : s.step .four (.alloc size) = ⟨q', s.live ++ [⟨p - 4, load q'.mem p size, false⟩]⟩ := by
        show s.accept .four (fun p m => load m p size) false (queueAllocMsg .four s.q size) = _
        rw [ha]
        rfl
      refine ⟨s.step .four (.alloc size), p, 0, rfl, ?_⟩
      have hholds := h.alloc hs
      rw [hstep] at hholds ⊢
      refine ⟨hholds, rfl, Nat.zero_le _, by omega, fun j hj => absurd hj (Nat.not_lt_zero _), ?_, hsize⟩
      rw [show p - 4 = off by omega]
      exact hmem
    | none =>
      have hne : s.live ≠ [] := by
        intro hl
        refine h.alloc_empty hl ?_ ha
        rw [msgNeed_mod hs]
        exact hfit
      rcases List.exists_cons_of_ne_nil hne with ⟨m, live, hl⟩
      have hpeek : queuePeekMsg .four s.q = some (m.place .four, m.bytes.length) := by
        rw [h.peek_first hl, if_pos (hcomplete m (by rw [hl]; exact List.mem_cons_self))]
      rw [hpeek]
      dsimp only
      have hlive : (s.step .four .free).live = live := by
        show s.live.tail = live
        rw [hl]
        rfl
      have hcomplete' : ∀ m ∈ (s.step .four .free).live, m.complete = true := by
        intro a ha
        rw [hlive] at ha
        exact hcomplete a (by rw [hl]; exact List.mem_cons_of_mem _ ha)
      have hfit' : msgNeed .four size ≤ (s.step .four .free).q.size := by
        rw [step_size]
        exact hfit
      have hturns' : (s.step .four .free).live.length < turns := by
        rw [hlive]
        rw [hl, List.length_cons] at hturns
        omega
      rcases ih (s.step .four .free) (h.free hne) hcomplete' hfit' hturns' with ⟨s', p, k, heq, hdone⟩
      refine ⟨s', p, k + 1, heq, hdone.holds, ?_, ?_, hdone.place, ?_, ?_, ?_⟩
      · rw [hdone.live, hlive, hl, List.drop_succ_cons]
      · have := hdone.few
        rw [hlive] at this
        rw [hl, List.length_cons]
        omega
      · intro j hj
        cases j with
        | zero => exact ha
        | succ j => exact hdone.full j (by omega)
      · rw [hdone.mem]
        show store (queueFreeMsg .four s.q).mem _ _ = _
        rw [queueFreeMsg_mem]
      · rw [hdone.size]
        exact step_size s .free

end Alloc

/-! ## The stores into an entry -/

section Entries

variable {s : QueueSt} {xs : List Msg} {m : Msg}

/-- What is stored for a message stays between its ends. -/
theorem fill_outside {k : Nat} {bs : List UInt8} (hk : k + bs.length ≤ m.bytes.length) {i : Nat}
    (hi : i < m.off ∨ m.stop .four ≤ i) :
    (s.step .four (.fill (m.place .four) k bs)).q.mem i = s.q.mem i := by
  have := m.place_le .four
  have hplace : m.place .four = m.off + 4 := rfl
  exact store_outside _ (by omega)

theorem complete_outside {i : Nat} (hi : i < m.off ∨ m.stop .four ≤ i) :
    (s.step .four (.complete (m.place .four))).q.mem i = s.q.mem i := by
  have := m.off_lt .four
  show store s.q.mem (m.off + 4 - 4) _ i = _
  rw [Nat.add_sub_cancel]
  refine store_outside _ ?_
  rw [leBytes_length]
  omega

/-- The head and the data over all of the bytes. -/
theorem overwrite_entry {bytes : List UInt8} (head : EntryHead) {data : List UInt8}
    (h : sizeofEntryHead + data.length = bytes.length) :
    QueueSt.overwrite (QueueSt.overwrite bytes 0 head.bytes) sizeofEntryHead data = head.bytes ++ data := by
  have hfirst : QueueSt.overwrite bytes 0 head.bytes = head.bytes ++ bytes.drop sizeofEntryHead := by
    unfold QueueSt.overwrite
    rw [List.take_zero, List.nil_append, Nat.zero_add, head.length_bytes]
  rw [hfirst, ← head.length_bytes]
  unfold QueueSt.overwrite
  rw [List.take_left, List.drop_of_length_le, List.append_nil]
  rw [List.length_append, List.length_drop, head.length_bytes]
  omega

/-- The entry is stored, and nothing outside of it. -/
theorem storeEntry_last (h : Holds .four s) (hl : s.live = xs ++ [m]) (head : EntryHead) {msg : TraceMsg} (hfull : msg.Full)
    (hsize : m.bytes.length = msg.size) :
    ∃ m', m'.off = m.off ∧ m'.stop .four = m.stop .four ∧ m'.complete = true ∧ m'.bytes = head.bytes ++ msg.data ∧
      Holds .four (Ring.storeEntry s (m.place .four) head msg) ∧ (Ring.storeEntry s (m.place .four) head msg).live = xs ++ [m'] ∧
      ∀ i, i < m.off ∨ m.stop .four ≤ i → (Ring.storeEntry s (m.place .four) head msg).q.mem i = s.q.mem i := by
  have hhead := head.length_bytes
  have hroom := hfull.size
  have hbytes : QueueSt.overwrite (QueueSt.overwrite m.bytes 0 head.bytes) sizeofEntryHead msg.data = head.bytes ++ msg.data :=
    overwrite_entry head (by omega)
  have hstore : Ring.storeEntry s (m.place .four) head msg =
      ((s.step .four (.fill (m.place .four) 0 head.bytes)).step .four (.fill (m.place .four) sizeofEntryHead msg.data)).step .four
        (.complete (m.place .four)) := by
    unfold Ring.storeEntry
    rw [hfull.zero]
  -- the head of the entry, with `m` as it is then
  have hfill1 : 0 + head.bytes.length ≤ m.bytes.length := by omega
  obtain ⟨hlive1, hholds1⟩ := fill_last h hl hfill1
  obtain ⟨m1, hm1⟩ : ∃ m1 : Msg, m1 = { m with bytes := QueueSt.overwrite m.bytes 0 head.bytes } := ⟨_, rfl⟩
  have hlen1 : m1.bytes.length = m.bytes.length := by
    rw [hm1]
    exact overwrite_length hfill1
  have hplace1 : m1.place .four = m.place .four := by rw [hm1]; rfl
  have hstop1 : m1.stop .four = m.stop .four := by
    unfold Msg.stop
    rw [hlen1, hm1]
  rw [← hm1] at hlive1
  -- the data
  have hfill2 : sizeofEntryHead + msg.data.length ≤ m1.bytes.length := by omega
  obtain ⟨hlive2, hholds2⟩ := fill_last hholds1 hlive1 hfill2
  rw [hplace1] at hlive2 hholds2
  obtain ⟨m2, hm2⟩ : ∃ m2 : Msg, m2 = { m1 with bytes := QueueSt.overwrite m1.bytes sizeofEntryHead msg.data } := ⟨_, rfl⟩
  have hlen2 : m2.bytes.length = m.bytes.length := by
    rw [hm2, ← hlen1]
    exact overwrite_length hfill2
  have hplace2 : m2.place .four = m.place .four := by rw [hm2, ← hplace1]; rfl
  have hoff2 : m2.off = m.off := by rw [hm2, hm1]
  have hstop2 : m2.stop .four = m.stop .four := by
    unfold Msg.stop
    rw [hlen2, hoff2]
  have hbytes2 : m2.bytes = head.bytes ++ msg.data := by rw [hm2, hm1, ← hbytes]
  rw [← hm2] at hlive2
  -- the flag
  obtain ⟨hlive3, hholds3⟩ := complete_last hholds2 hlive2
  rw [hplace2] at hlive3 hholds3
  rw [hstore]
  refine ⟨{ m2 with complete := true }, hoff2, hstop2, rfl, hbytes2, hholds3, hlive3, ?_⟩
  intro i hi
  have hi1 : i < m1.off ∨ m1.stop .four ≤ i := by
    rw [hstop1, show m1.off = m.off by rw [hm1]]
    exact hi
  have hdata := fill_outside (s := s.step .four (.fill (m.place .four) 0 head.bytes)) hfill2 hi1
  rw [hplace1] at hdata
  rw [complete_outside hi, hdata, fill_outside hfill1 hi]

end Entries

/-! ## Runs -/

structure Inv (s : Ring) : Prop where
  holds : Holds .four s.queue
  carries : List.Forall₂ Carries s.entries s.queue.live
  sequence : s.sequence = UInt32.ofNat s.writes
  order : (s.taken ++ s.entries).Pairwise Earlier
  below : ∀ e ∈ s.taken ++ s.entries, e.head.sequence.toNat < s.writes

section Runs

variable {s : Ring} {msg : TraceMsg} {sec usec : UInt32}

theorem Inv.complete (h : Inv s) : ∀ m ∈ s.queue.live, m.complete = true := by
  have : ∀ {es : List Entry} {ms : List Msg}, List.Forall₂ Carries es ms → ∀ m ∈ ms, m.complete = true := by
    intro es ms hall
    induction hall with
    | nil => exact fun m hm => absurd hm List.not_mem_nil
    | cons hhead _ ih =>
      intro m hm
      rcases List.mem_cons.mp hm with rfl | hm
      · exact hhead.1
      · exact ih m hm
  exact this h.carries

theorem Inv.start (buffer : Mem) (sizeBuffer : UInt32) : Inv (Ring.start buffer sizeBuffer) :=
  ⟨Holds.start buffer sizeBuffer, .nil, rfl, .nil, fun _ he => absurd he List.not_mem_nil⟩

/-- A write stores its entry, and keeps the ring. -/
theorem Inv.write (h : Inv s) (hfull : msg.Full) (hs : msg.size < 0x8000) (hneed : msgNeed .four msg.size ≤ s.queue.q.size)
    (hwrites : s.writes < 4294967296) : Inv (s.write msg sec usec) ∧ Wrote s msg sec usec (s.write msg sec usec) ∧
      (s.write msg sec usec).queue.q.size = s.queue.q.size := by
  rcases allocEntry_allocated hs (s.queue.live.length + 1) s.queue h.holds h.complete hneed (Nat.lt_succ_self _) with
    ⟨queue, p, k, hloop, hdone⟩
  have hword : msg.size % 65536 = msg.size := Nat.mod_eq_of_lt (by omega)
  obtain ⟨m, hm⟩ : ∃ m : Msg, m = ⟨p - 4, load queue.q.mem p msg.size, false⟩ := ⟨_, rfl⟩
  have hlive := hdone.live
  rw [← hm] at hlive
  have hplace : m.place .four = p := by
    rw [hm]
    show p - 4 + 4 = p
    have := hdone.place
    omega
  have hlen : m.bytes.length = msg.size := by
    rw [hm]
    exact load_length _ _ _
  rcases storeEntry_last hdone.holds hlive (s.newHead msg sec usec) hfull hlen with
    ⟨m', hoff, hstop, hcomplete, hbytes, hholds, hlive', hmem⟩
  have hlength : (s.newHead msg sec usec).dataLength.toNat = msg.data.length := by
    have hroom := hfull.size
    show (UInt32.ofNat msg.dataLength).toNat = msg.data.length
    rw [UInt32.toNat_ofNat', ← hfull.length]
    exact Nat.mod_eq_of_lt (by omega)
  rw [hplace] at hholds hlive' hmem
  have hfreed : s.queue.live.length + 1 - queue.live.length = k := by
    have := hdone.few
    rw [hlive, List.length_append, List.length_drop, List.length_singleton]
    omega
  have hwrite : s.write msg sec usec =
      { s with
        queue := Ring.storeEntry queue p (s.newHead msg sec usec) msg
        sequence := s.sequence + 1
        entries := s.entries.drop k ++ [⟨msg, s.newHead msg sec usec⟩]
        writes := s.writes + 1 } := by
    unfold Ring.write
    rw [hword, hloop]
    dsimp only
    rw [hfreed]
  have hseq : (s.newHead msg sec usec).sequence.toNat = s.writes := by
    show s.sequence.toNat = s.writes
    rw [h.sequence, UInt32.toNat_ofNat']
    exact Nat.mod_eq_of_lt hwrites
  have hsub : (s.taken ++ s.entries.drop k).Sublist (s.taken ++ s.entries) := (List.drop_sublist k _).append_left _
  rw [hwrite]
  refine ⟨⟨hholds, ?_, ?_, ?_, ?_⟩, ⟨k, m', hlive', hdone.full, rfl, rfl, ?_⟩, ?_⟩
  · show List.Forall₂ Carries (s.entries.drop k ++ [_]) (Ring.storeEntry queue p (s.newHead msg sec usec) msg).live
    rw [hlive']
    exact List.rel_append (List.forall₂_drop k h.carries) (.cons ⟨hcomplete, hbytes, hlength⟩ .nil)
  · show s.sequence + 1 = UInt32.ofNat (s.writes + 1)
    rw [h.sequence]
    simp
  · show (s.taken ++ (s.entries.drop k ++ [_])).Pairwise Earlier
    rw [← List.append_assoc, List.pairwise_append]
    refine ⟨h.order.sublist hsub, List.pairwise_singleton _ _, ?_⟩
    intro e he e' he'
    rw [List.mem_singleton.mp he']
    unfold Earlier
    dsimp only
    rw [hseq]
    exact h.below e (hsub.subset he)
  · intro e he
    have he : e ∈ s.taken ++ (s.entries.drop k ++ [⟨msg, s.newHead msg sec usec⟩]) := he
    rw [← List.append_assoc] at he
    show e.head.sequence.toNat < s.writes + 1
    rcases List.mem_append.mp he with he | he
    · have := h.below e (hsub.subset he)
      omega
    · rw [List.mem_singleton.mp he]
      dsimp only
      omega
  · intro i hi
    rw [hoff, hstop] at hi
    show (Ring.storeEntry queue p (s.newHead msg sec usec) msg).q.mem i = _
    rw [hmem i hi, hdone.mem]
    have hoffm : m.off = p - 4 := by rw [hm]
    have := m.off_lt .four
    refine store_outside _ ?_
    rw [leBytes_length]
    omega
  · have hstore : (Ring.storeEntry queue p (s.newHead msg sec usec) msg).q.size = queue.q.size := by
      unfold Ring.storeEntry
      cases msg.zero with
      | none => rfl
      | some k => rfl
    exact hstore.trans hdone.size

/-- The reader takes the oldest entry. -/
theorem Inv.ack (h : Inv s) (doRelease : Bool) (hbusy : s.busy = true → s.queue.live ≠ []) :
    Inv (s.divaMaintAckMessage doRelease) := by
  unfold Ring.divaMaintAckMessage
  by_cases hb : s.busy = false
  · rw [if_pos hb]
    exact h
  · rw [if_neg hb]
    cases doRelease with
    | false => exact ⟨h.holds, h.carries, h.sequence, h.order, h.below⟩
    | true =>
      have hne := hbusy (by simpa using hb)
      have hsplit : s.taken ++ s.entries.take 1 ++ s.entries.tail = s.taken ++ s.entries := by
        rw [List.append_assoc, ← List.drop_one, List.take_append_drop]
      rw [if_pos rfl]
      refine ⟨h.holds.free hne, ?_, h.sequence, ?_, ?_⟩
      · show List.Forall₂ Carries s.entries.tail s.queue.live.tail
        rw [← List.drop_one, ← List.drop_one]
        exact List.forall₂_drop 1 h.carries
      · show (s.taken ++ s.entries.take 1 ++ s.entries.tail).Pairwise Earlier
        rw [hsplit]
        exact h.order
      · show ∀ e ∈ s.taken ++ s.entries.take 1 ++ s.entries.tail, e.head.sequence.toNat < s.writes
        rw [hsplit]
        exact h.below

theorem Inv.peek (h : Inv s) : queuePeekMsg .four s.queue.q = s.queue.live.head?.map fun m =>
    (m.place .four, m.bytes.length) := by
  rw [h.holds.peek]
  cases hl : s.queue.live with
  | nil => rfl
  | cons m live => exact if_pos (h.complete m (by rw [hl]; exact List.mem_cons_self))

/-- What holds in every state of a run; the reader that is at an entry has one. -/
structure Running (sizeBuffer : UInt32) (s : Ring) : Prop where
  inv : Inv s
  busy : s.busy = true → s.queue.live ≠ []
  size : s.queue.q.size = sizeBuffer.toNat

theorem Running.write {sizeBuffer : UInt32} (h : Running sizeBuffer s) (hsize : 4096 ≤ sizeBuffer.toNat) {w : Writer}
    (hc : s.Cond (.write w sec usec)) (hmsg : w.msg = some msg) : Inv (s.write msg sec usec) ∧
      Wrote s msg sec usec (s.write msg sec usec) ∧
      (s.write msg sec usec).queue.q.size = s.queue.q.size := by
  rcases hc with ⟨hsmall, hwrites, hwhole⟩
  have hsmall := hsmall msg hmsg
  have hneed : msgNeed .four msg.size ≤ s.queue.q.size := by
    have hs := h.size
    show (4 + msg.size + 4 - 1) / 4 * 4 ≤ _
    omega
  exact h.inv.write ((Writer.whole_iff hmsg).mpr hwhole) hsmall.1 hneed hwrites

theorem Running.step {sizeBuffer : UInt32} (hsize : 4096 ≤ sizeBuffer.toNat) (e : Ring.Ev)
    (h : Running sizeBuffer s) (hc : s.Cond e) :
    Running sizeBuffer (s.step e) := by
  cases e with
  | write w sec usec =>
    unfold Ring.step
    dsimp only
    cases hmsg : w.msg with
    | none => exact h
    | some msg =>
      dsimp only
      by_cases hb : s.busy = true
      · rw [if_pos hb]
        exact h
      · rcases h.write hsize hc hmsg with ⟨hinv, ⟨k, m, hlive, -⟩, hqsize⟩
        rw [if_neg hb]
        refine ⟨hinv, ?_, hqsize.trans h.size⟩
        intro _
        rw [hlive]
        exact List.append_ne_nil_of_right_ne_nil _ (List.cons_ne_nil _ _)
  | get =>
    refine ⟨⟨h.inv.holds, h.inv.carries, h.inv.sequence, h.inv.order, h.inv.below⟩, ?_, h.size⟩
    intro hb hl
    have hb : (s.busy || s.divaMaintGetMessage.isSome) = true := hb
    have hl : s.queue.live = [] := hl
    have hidle : s.busy = false := by
      by_contra hbusy
      exact h.busy (by simpa using hbusy) hl
    have hnone : s.divaMaintGetMessage = none := by
      unfold Ring.divaMaintGetMessage
      rw [hidle, h.inv.peek, hl]
      rfl
    rw [hidle, hnone] at hb
    exact Bool.false_ne_true hb
  | ack doRelease =>
    have hinv := h.inv.ack doRelease h.busy
    have hstep : s.step (.ack doRelease) = s.divaMaintAckMessage doRelease := rfl
    rw [hstep]
    refine ⟨hinv, ?_, ?_⟩
    · unfold Ring.divaMaintAckMessage
      by_cases hb : s.busy = false
      · rw [if_pos hb]
        exact h.busy
      · rw [if_neg hb]
        cases doRelease with
        | false => exact fun h' => absurd h' Bool.false_ne_true
        | true => exact fun h' => absurd h' Bool.false_ne_true
    · unfold Ring.divaMaintAckMessage
      split
      · exact h.size
      · split
        · show (s.queue.step .four .free).q.size = _
          rw [step_size]
          exact h.size
        · exact h.size

end Runs

/-- In every run the reader sees the entries that were written, oldest first, and each write stores
    its entry behind the others, frees only what is in its way, and touches nothing else. -/
theorem trace_ring (buffer : Mem) (sizeBuffer : UInt32) (hsize : 4096 ≤ sizeBuffer.toNat) (es : List Ring.Ev)
    (hc : Along Ring.step Ring.Cond (Ring.start buffer sizeBuffer) es) :
    let s := run Ring.step (Ring.start buffer sizeBuffer) es
    Shown s ∧ ∀ w sec usec msg, s.Cond (.write w sec usec) → s.busy = false → w.msg = some msg →
      Wrote s msg sec usec (s.step (.write w sec usec)) := by
  intro s
  have h : Running sizeBuffer s := by
    refine hc.invariant Ring.step (fun s e h hc => h.step hsize e hc) ?_
    exact ⟨Inv.start buffer sizeBuffer, fun hb => absurd hb Bool.false_ne_true, rfl⟩
  refine ⟨⟨?_, h.inv.carries, ?_, ?_, h.inv.holds.layout.apart, h.inv.order⟩, ?_⟩
  · intro hb
    unfold Ring.divaMaintGetMessage
    rw [hb, ← h.inv.peek]
    rfl
  · intro m hm
    exact (h.inv.holds.stored m hm).bytes
  · intro m hm
    exact h.inv.holds.layout.within hm
  · intro w sec usec msg hcond hb hmsg
    have hstep : s.step (.write w sec usec) = s.write msg sec usec := by
      unfold Ring.step
      dsimp only
      rw [hmsg, hb]
      rfl
    rw [hstep]
    exact (h.write hsize hcond hmsg).2.1

/-- Two entries, of which the reader takes the first one. -/
def twoEntries : List Ring.Ev :=
  [.write (.register [0x64, 0x72, 0x76]) 1 2, .write (.append 1 4 5 [0x6d, 0x73, 0x67, 0x21]) 3 4, .get, .ack true]

theorem trace_ring_two :
    let s := run Ring.step (Ring.start (fun _ => 0) 4096) twoEntries
    Shown s ∧ s.entries.length = 1 ∧ s.taken.length = 1 :=
  have hregister : (Ring.start (fun _ => 0) 4096).Cond (.write (.register [0x64, 0x72, 0x76]) 1 2) :=
    ⟨fun _ hm => by cases hm; decide, by decide, trivial⟩
  have happend : ((Ring.start (fun _ => 0) 4096).step (.write (.register [0x64, 0x72, 0x76]) 1 2)).Cond
      (.write (.append 1 4 5 [0x6d, 0x73, 0x67, 0x21]) 3 4) :=
    ⟨fun _ hm => by cases hm; decide +kernel, by decide +kernel, trivial⟩
  ⟨(trace_ring (fun _ => 0) 4096 (by decide) twoEntries ⟨hregister, happend, trivial, trivial, trivial⟩).1,
    by decide +kernel, by decide +kernel⟩

/-- The zero behind an inserted message of three bytes is stored behind its entry. -/
theorem trace_ring_insert :
    ¬ (∀ (buffer : Mem) (sizeBuffer : UInt32) (es : List Ring.Ev), 4096 ≤ sizeBuffer.toNat →
        ∀ w sec usec msg, w.msg = some msg → msg.size < 0x8000 → 2 * msg.size < sizeBuffer.toNat →
          (run Ring.step (Ring.start buffer sizeBuffer) es).busy = false →
          Wrote (run Ring.step (Ring.start buffer sizeBuffer) es) msg sec usec
            ((run Ring.step (Ring.start buffer sizeBuffer) es).step (.write w sec usec))) := by
  intro h
  rcases h (fun _ => 1) 4096 [] (by decide) (.insert [0x61, 0x62, 0x63]) 0 0 _ rfl (by decide) (by decide) rfl with
    ⟨k, m, hlive, -, -, -, hmem⟩
  obtain ⟨s, hs⟩ : ∃ s, s = (Ring.start (fun _ => 1) 4096).step (.write (.insert [0x61, 0x62, 0x63]) 0 0) := ⟨_, rfl⟩
  have hplace : s.queue.live.map (fun m => (m.off, m.bytes.length)) = [(0, 36)] := by
    rw [hs]
    decide +kernel
  have hzero : s.queue.q.mem 40 = 0 := by
    rw [hs]
    decide +kernel
  rw [hs] at hplace hzero
  have hlive' : ((Ring.start (fun _ => 1) 4096).step (.write (.insert [0x61, 0x62, 0x63]) 0 0)).queue.live = [m] := by
    refine Eq.trans hlive ?_
    show ([] : List Msg).drop k ++ [m] = [m]
    rw [List.drop_nil]
    rfl
  rw [hlive', List.map_singleton, List.singleton_inj, Prod.mk.injEq] at hplace
  have hstop : m.stop .four = 40 := by
    unfold Msg.stop
    rw [hplace.1, hplace.2]
    rfl
  have hkept : ((Ring.start (fun _ => 1) 4096).step (.write (.insert [0x61, 0x62, 0x63]) 0 0)).queue.q.mem 40 = 1 :=
    hmem 40 (Or.inr (Nat.le_of_eq hstop))
  rw [hzero] at hkept
  exact absurd hkept (by decide)

end Divas.Queue.Trace
