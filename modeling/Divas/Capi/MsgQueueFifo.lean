/-
  Divas.Capi.MsgQueueFifo — the message queue of a PLCI is a lossless FIFO.

  `Layout` lists where the live messages lie, by what the three cursors say: nothing
  (`empty`), one run of messages from offset 0 with the reader at the second name of 0
  (`front`), one run from the read position (`straight`), or a run up to the wrap mark
  followed by a run from 0 (`wrapped`). A queue with a live list represents it when
  every message is stored where the layout puts it (`Holds`).

  Proved:
  - `enqueue_holds` / `dequeue_holds`: an accepted message is appended to the live
    list, a dequeue takes its head off.
  - `fifo`: over every run from the empty queue, what was accepted is what was
    delivered followed by what is live, byte for byte and with the application
    pointer; a refused message changes nothing; live messages are disjoint and lie in
    the array; the read and write positions are equal exactly when nothing is live.
  - `queuedData_eq`: the count of queued DATA_B3 requests is a count over the live list.
-/

import Divas.Lib.Run
import Divas.Capi.MsgQueue

namespace Divas.Capi

open Divas.Lib.Bytes Divas.Lib.Run

variable {P : PtrSize}

/-- A message in the array: its offset, its bytes and its application pointer. -/
structure Slot (P : PtrSize) where
  off : Nat
  msg : List UInt8
  appl : ApplPtr P

/-- What a slot takes: the message rounded up and the pointer. -/
def Slot.size (s : Slot P) : Nat := align P (s.msg.length + msgInOverhead P)

def Slot.stop (s : Slot P) : Nat := s.off + s.size

theorem Slot.size_eq (s : Slot P) : s.size = align P s.msg.length + P.bytes := align_add_bytes P _

theorem Slot.size_pos (s : Slot P) : 0 < s.size := by
  have := bytes_pos P
  have := s.size_eq
  omega

/-! ## Runs of adjacent messages -/

/-- The messages of the list lie one after the other from `k` to `e`. -/
def Chain : Nat → List (Slot P) → Nat → Prop
  | k, [], e => k = e
  | k, s :: ss, e => s.off = k ∧ Chain s.stop ss e

theorem Chain.snoc {k e : Nat} {ss : List (Slot P)} (h : Chain k ss e) (s : Slot P) (hs : s.off = e) :
    Chain k (ss ++ [s]) s.stop := by
  induction ss generalizing k with
  | nil => exact ⟨hs.trans h.symm, rfl⟩
  | cons t ss ih => exact ⟨h.1, ih h.2⟩

theorem Chain.le {k e : Nat} {ss : List (Slot P)} (h : Chain k ss e) : k ≤ e := by
  induction ss generalizing k with
  | nil => exact Nat.le_of_eq h
  | cons t ss ih =>
    have h1 := h.1
    have := ih h.2
    unfold Slot.stop at this
    omega

theorem Chain.lt {k e : Nat} {s : Slot P} {ss : List (Slot P)} (h : Chain k (s :: ss) e) : k < e := by
  have h1 := h.1
  have h2 := h.2.le
  have := s.size_pos
  unfold Slot.stop at h2
  omega

theorem Chain.bounds {k e : Nat} {ss : List (Slot P)} (h : Chain k ss e) :
    ∀ s ∈ ss, k ≤ s.off ∧ s.stop ≤ e := by
  induction ss generalizing k with
  | nil => intro s hs; cases hs
  | cons t ss ih =>
    intro s hs
    have ht := h.1
    rcases List.mem_cons.mp hs with rfl | hs
    · exact ⟨by omega, h.2.le⟩
    · obtain ⟨h1, h2⟩ := ih h.2 s hs
      unfold Slot.stop at h1
      exact ⟨by omega, h2⟩

theorem Chain.disjoint {k e : Nat} {ss : List (Slot P)} (h : Chain k ss e) :
    ss.Pairwise fun s t => s.stop ≤ t.off := by
  induction ss generalizing k with
  | nil => exact List.Pairwise.nil
  | cons t ss ih => exact List.Pairwise.cons (fun s hs => (h.2.bounds s hs).1) (ih h.2)

theorem Chain.dvd {k e : Nat} {ss : List (Slot P)} (h : Chain k ss e) (hk : P.bytes ∣ k) : P.bytes ∣ e := by
  induction ss generalizing k with
  | nil => exact h ▸ hk
  | cons t ss ih =>
    refine ih h.2 ?_
    unfold Slot.stop
    rw [h.1]
    exact Nat.dvd_add hk (bytes_dvd_align P _)

/-! ## Messages in memory -/

/-- The slot's message and pointer are in memory at its offset. -/
structure Stored (m : Mem) (s : Slot P) : Prop where
  bytes : load m s.off s.msg.length = s.msg
  length : headerLength (from_ m s.off) = s.msg.length
  header : sizeofHeader ≤ s.msg.length
  appl : loadPtr P m (s.off + align P s.msg.length) = s.appl

/-- What lies outside a slot does not matter to it. -/
theorem Stored.frame {m m' : Mem} {s : Slot P} (h : Stored m s)
    (hm : ∀ i, s.off ≤ i → i < s.stop → m' i = m i) : Stored m' s := by
  have hle := le_align P s.msg.length
  have hsz := s.size_eq
  have hh := h.header
  unfold Slot.stop at hm
  unfold sizeofHeader at hh
  have hb : load m' s.off s.msg.length = load m s.off s.msg.length :=
    load_congr fun i hi => hm _ (by omega) (by omega)
  have hp : load m' (s.off + align P s.msg.length) P.bytes = load m (s.off + align P s.msg.length) P.bytes :=
    load_congr fun i hi => hm _ (by omega) (by omega)
  refine ⟨hb.trans h.bytes, ?_, h.header, (loadPtr_congr hp).trans h.appl⟩
  have hw := word_of_load_eq (j := 0) hb (by omega)
  have hl := h.length
  unfold headerLength at hl ⊢
  rw [word_from, Nat.add_zero] at hl ⊢
  exact hw.trans hl

/-- `TransmitBufferSet` gives the index back, so the copy into the array is the message
    and the pointer. -/
theorem enqueueMsg_mem (q : MsgIn) {j : Nat} (hj : P.bytes ∣ j) (msg : Mem) (appl : ApplPtr P) :
    (enqueueMsg P q j msg appl).msgInQueue =
      storePtr P (store q.msgInQueue j (load msg 0 (headerLength msg))) (j + align P (headerLength msg)) appl := by
  have hset : ∀ m : Mem, store m (j + 12) (leBytes 4 (transmitBufferSet (dataB3ReqData (from_ m j)))) = m := by
    intro m
    have h4 := leBytes_leNat (load m (j + 12) 4)
    rw [load_length] at h4
    rw [transmitBufferSet, dataB3ReqData, dword_from, dword, h4]
    exact store_load m (j + 12) 4
  unfold enqueueMsg
  simp only [hset, ite_self, align_add_of_dvd P hj]

/-- The new slot of an enqueued message. -/
def newSlot (j : Nat) (msg : Mem) (appl : ApplPtr P) : Slot P := ⟨j, load msg 0 (headerLength msg), appl⟩

theorem newSlot_size (j : Nat) (msg : Mem) (appl : ApplPtr P) :
    (newSlot j msg appl).size = align P (headerLength msg + msgInOverhead P) := by
  simp [newSlot, Slot.size]

theorem enqueueMsg_frame (q : MsgIn) {j : Nat} (hj : P.bytes ∣ j) (msg : Mem) (appl : ApplPtr P) {i : Nat}
    (hi : i < j ∨ (newSlot j msg appl).stop ≤ i) : (enqueueMsg P q j msg appl).msgInQueue i = q.msgInQueue i := by
  have hsz : (newSlot j msg appl).stop = j + (align P (headerLength msg) + P.bytes) := by
    rw [Slot.stop, Slot.size_eq]; simp [newSlot]
  have hle := le_align P (headerLength msg)
  rw [enqueueMsg_mem q hj, storePtr, store_outside _ (by simp only [leBytes_length]; omega),
    store_outside _ (by simp only [load_length]; omega)]

theorem enqueueMsg_stored (q : MsgIn) {j : Nat} (hj : P.bytes ∣ j) (msg : Mem) (appl : ApplPtr P)
    (hlen : sizeofHeader ≤ headerLength msg) :
    Stored (enqueueMsg P q j msg appl).msgInQueue (newSlot j msg appl) := by
  have hle := le_align P (headerLength msg)
  have hb : load (enqueueMsg P q j msg appl).msgInQueue j (headerLength msg) = load msg 0 (headerLength msg) := by
    rw [enqueueMsg_mem q hj, storePtr, load_store_disjoint _ (by omega)]
    have := load_store_self q.msgInQueue j (load msg 0 (headerLength msg))
    rwa [load_length] at this
  refine ⟨by simpa [newSlot] using hb, ?_, by simpa [newSlot] using hlen, ?_⟩
  · have hw := word_of_load_eq (j := 0) hb (by unfold sizeofHeader at hlen; omega)
    simp only [newSlot, headerLength, load_length, word_from, Nat.add_zero]
    exact hw
  · simp only [newSlot, load_length]
    rw [enqueueMsg_mem q hj, loadPtr_storePtr]

/-! ## The layout -/

/-- Where the live messages lie. The `front` run keeps free the room of one more
    message like its first. -/
inductive Layout (q : MsgIn) : List (Slot P) → Prop
  | empty (hr : q.msgInReadPos = msgInQueueSize P) (hw : q.msgInWritePos = msgInQueueSize P)
      (hp : q.msgInWrapPos = msgInQueueSize P) : Layout q []
  | front {s : Slot P} {ss : List (Slot P)} (hr : q.msgInReadPos = msgInQueueSize P)
      (hp : q.msgInWrapPos = msgInQueueSize P) (hw : q.msgInWritePos < msgInQueueSize P)
      (hc : Chain 0 (s :: ss) q.msgInWritePos) (hs : ss ≠ [] → q.msgInWritePos + s.size ≤ msgInQueueSize P) :
      Layout q (s :: ss)
  | straight {s : Slot P} {ss : List (Slot P)} (hd : P.bytes ∣ q.msgInReadPos) (h0 : 0 < q.msgInReadPos)
      (hp : q.msgInWrapPos = msgInQueueSize P) (hw : q.msgInWritePos ≤ msgInQueueSize P)
      (hc : Chain q.msgInReadPos (s :: ss) q.msgInWritePos) : Layout q (s :: ss)
  | wrapped {b f : Slot P} {bs fs : List (Slot P)} (hd : P.bytes ∣ q.msgInReadPos)
      (hp : q.msgInWrapPos ≤ msgInQueueSize P) (hb : Chain q.msgInReadPos (b :: bs) q.msgInWrapPos)
      (hw : q.msgInWritePos < q.msgInReadPos) (hf : Chain 0 (f :: fs) q.msgInWritePos)
      (hs : fs ≠ [] → q.msgInWritePos + f.size ≤ msgInQueueSize P) : Layout q ((b :: bs) ++ (f :: fs))

/-- The queue represents the live list. -/
structure Holds (q : MsgIn) (live : List (Slot P)) : Prop where
  layout : Layout q live
  stored : ∀ s ∈ live, Stored q.msgInQueue s

theorem Layout.empty_iff {q : MsgIn} {live : List (Slot P)} (h : Layout q live) :
    q.msgInReadPos = q.msgInWritePos ↔ live = [] := by
  cases h with
  | empty hr hw hp => simp [hr, hw]
  | front hr hp hw hc hs => simp; omega
  | straight hd h0 hp hw hc => have := hc.lt; simp; omega
  | wrapped hd hp hb hw hf hs => simp; omega

theorem Layout.bounds {q : MsgIn} {live : List (Slot P)} (h : Layout q live) :
    ∀ s ∈ live, s.stop ≤ msgInQueueSize P := by
  intro s hs
  cases h with
  | empty hr hw hp => cases hs
  | front hr hp hw hc _ => have := (hc.bounds s hs).2; omega
  | straight hd h0 hp hw hc => have := (hc.bounds s hs).2; omega
  | wrapped hd hp hb hw hf _ =>
    rcases List.mem_append.mp hs with hs | hs
    · have := (hb.bounds s hs).2; omega
    · have := (hf.bounds s hs).2; have := hb.lt; omega

theorem Layout.disjoint {q : MsgIn} {live : List (Slot P)} (h : Layout q live) :
    live.Pairwise fun s t => s.stop ≤ t.off ∨ t.stop ≤ s.off := by
  cases h with
  | empty hr hw hp => exact List.Pairwise.nil
  | front hr hp hw hc _ => exact hc.disjoint.imp Or.inl
  | straight hd h0 hp hw hc => exact hc.disjoint.imp Or.inl
  | wrapped hd hp hb hw hf _ =>
    refine List.pairwise_append.mpr ⟨hb.disjoint.imp Or.inl, hf.disjoint.imp Or.inl, fun s hs t ht => Or.inr ?_⟩
    have h1 := (hb.bounds s hs).1
    have h2 := (hf.bounds t ht).2
    omega

/-! ## Enqueue -/

theorem noRoom_iff (q : MsgIn) (len : Nat) :
    noRoom P q len = false ↔ align P (len + msgInOverhead P) < (msgInRoom P q len).1 := by
  simp [noRoom]

/-- The size a fresh message takes is a multiple of the pointer size, so it fits below
    the end of the array exactly when its bytes do. -/
theorem fits_iff {w len : Nat} (hw : P.bytes ∣ w) :
    w + len + msgInOverhead P ≤ msgInQueueSize P ↔ w + align P (len + msgInOverhead P) ≤ msgInQueueSize P := by
  have h1 := le_align P (len + msgInOverhead P)
  constructor
  · intro h
    have := align_le_of_dvd P (bytes_dvd_size P) h
    rwa [Nat.add_assoc, align_add_of_dvd P hw] at this
  · intro h; omega

theorem newSlot_stop (j : Nat) (msg : Mem) (appl : ApplPtr P) :
    (newSlot j msg appl).stop = j + align P (headerLength msg + msgInOverhead P) := by
  rw [Slot.stop, newSlot_size]
  rfl

theorem enqueueMsg_writePos (q : MsgIn) {j : Nat} (hj : P.bytes ∣ j) (msg : Mem) (appl : ApplPtr P) :
    (enqueueMsg P q j msg appl).msgInWritePos = (newSlot j msg appl).stop := by
  rw [newSlot_stop, enqueueMsg, align_add_of_dvd P hj, msgInOverhead, align_add_bytes, Nat.add_assoc]

theorem enqueueMsg_wrapPos (q : MsgIn) (j : Nat) (msg : Mem) (appl : ApplPtr P) :
    (enqueueMsg P q j msg appl).msgInWrapPos = if j = 0 then q.msgInWritePos else q.msgInWrapPos := rfl

/-- The size that is read at the start of the array. -/
theorem Stored.first_size {q : MsgIn} {s : Slot P} (h : Stored q.msgInQueue s) (h0 : s.off = 0) :
    align P (headerLength q.msgInQueue + msgInOverhead P) = s.size := by
  have hlen := h.length
  have hfrom : from_ q.msgInQueue 0 = q.msgInQueue := by
    funext i
    simp [from_]
  rw [h0, hfrom] at hlen
  rw [hlen, Slot.size]

section Lands

variable {q : MsgIn} {live : List (Slot P)} {msg : Mem} {appl : ApplPtr P} {s f b : Slot P} {ss fs bs : List (Slot P)}

/-- A message can go to the offset: it is aligned, no live message lies there, and the cursors
    behind the copy describe the longer list. -/
structure Lands (q : MsgIn) (live : List (Slot P)) (j : Nat) (msg : Mem) (appl : ApplPtr P) : Prop where
  aligned : P.bytes ∣ j
  free : ∀ s ∈ live, s.stop ≤ j ∨ (newSlot j msg appl).stop ≤ s.off
  layout : Layout (enqueueMsg P q j msg appl) (live ++ [newSlot j msg appl])

/-- The first message of an empty queue. -/
theorem lands_first (hr : q.msgInReadPos = msgInQueueSize P) (hw : q.msgInWritePos = msgInQueueSize P)
    (hfit : align P (headerLength msg + msgInOverhead P) < msgInQueueSize P) : Lands q [] 0 msg appl := by
  have hw' := enqueueMsg_writePos q (Nat.dvd_zero _) msg appl
  refine ⟨Nat.dvd_zero _, by simp, ?_⟩
  refine Layout.front hr ((enqueueMsg_wrapPos q 0 msg appl).trans hw) ?_ ⟨rfl, hw'.symm⟩ (fun h => absurd rfl h)
  rw [hw', newSlot_stop]
  omega

/-- Behind the messages at the start of the array. -/
theorem lands_front (hr : q.msgInReadPos = msgInQueueSize P) (hp : q.msgInWrapPos = msgInQueueSize P)
    (hc : Chain 0 (s :: ss) q.msgInWritePos)
    (hfit : q.msgInWritePos + align P (headerLength msg + msgInOverhead P) + s.size ≤ msgInQueueSize P) :
    Lands q (s :: ss) q.msgInWritePos msg appl := by
  have hdv : P.bytes ∣ q.msgInWritePos := hc.dvd (Nat.dvd_zero _)
  have hlt := hc.lt
  have hspos := s.size_pos
  have hw' := enqueueMsg_writePos q hdv msg appl
  refine ⟨hdv, fun t ht => Or.inl (hc.bounds t ht).2, ?_⟩
  refine Layout.front hr (((enqueueMsg_wrapPos q _ msg appl).trans (if_neg (by omega))).trans hp) ?_ ?_ (fun _ => ?_)
  · rw [hw', newSlot_stop]
    omega
  · rw [hw']
    exact hc.snoc (newSlot q.msgInWritePos msg appl) rfl
  · rw [hw', newSlot_stop]
    exact hfit

/-- Behind the messages up to the end of the array. -/
theorem lands_straight (hd : P.bytes ∣ q.msgInReadPos) (h0 : 0 < q.msgInReadPos) (hp : q.msgInWrapPos = msgInQueueSize P)
    (hc : Chain q.msgInReadPos (s :: ss) q.msgInWritePos)
    (hfit : q.msgInWritePos + align P (headerLength msg + msgInOverhead P) ≤ msgInQueueSize P) :
    Lands q (s :: ss) q.msgInWritePos msg appl := by
  have hdv : P.bytes ∣ q.msgInWritePos := hc.dvd hd
  have hlt := hc.lt
  have hw' := enqueueMsg_writePos q hdv msg appl
  refine ⟨hdv, fun t ht => Or.inl (hc.bounds t ht).2, ?_⟩
  refine Layout.straight hd h0 (((enqueueMsg_wrapPos q _ msg appl).trans (if_neg (by omega))).trans hp) ?_ ?_
  · rw [hw', newSlot_stop]
    exact hfit
  · rw [hw']
    exact hc.snoc _ rfl

/-- At the start of the array, below the messages: the write position becomes the wrap position. -/
theorem lands_again (hd : P.bytes ∣ q.msgInReadPos) (hw : q.msgInWritePos ≤ msgInQueueSize P)
    (hc : Chain q.msgInReadPos (s :: ss) q.msgInWritePos)
    (hfit : align P (headerLength msg + msgInOverhead P) < q.msgInReadPos) : Lands q (s :: ss) 0 msg appl := by
  have hw' := enqueueMsg_writePos q (Nat.dvd_zero _) msg appl
  have hwrap := enqueueMsg_wrapPos q 0 msg appl
  rw [if_pos rfl] at hwrap
  refine ⟨Nat.dvd_zero _, fun t ht => Or.inr ?_, ?_⟩
  · have := (hc.bounds t ht).1
    rw [newSlot_stop]
    omega
  · refine Layout.wrapped hd (by rw [hwrap]; exact hw) ?_ ?_ ⟨rfl, hw'.symm⟩ (fun h => absurd rfl h)
    · rw [hwrap]
      exact hc
    · rw [hw', newSlot_stop, Nat.zero_add]
      exact hfit

/-- Behind the messages at the start of the array, below those before the wrap. -/
theorem lands_wrapped (hd : P.bytes ∣ q.msgInReadPos) (hp : q.msgInWrapPos ≤ msgInQueueSize P)
    (hb : Chain q.msgInReadPos (b :: bs) q.msgInWrapPos) (hf : Chain 0 (f :: fs) q.msgInWritePos)
    (hfit : q.msgInWritePos + align P (headerLength msg + msgInOverhead P) < q.msgInReadPos)
    (hroom : q.msgInWritePos + align P (headerLength msg + msgInOverhead P) + f.size ≤ msgInQueueSize P) :
    Lands q ((b :: bs) ++ (f :: fs)) q.msgInWritePos msg appl := by
  have hdv : P.bytes ∣ q.msgInWritePos := hf.dvd (Nat.dvd_zero _)
  have hlt := hf.lt
  have hw' := enqueueMsg_writePos q hdv msg appl
  have hwrap := (enqueueMsg_wrapPos q q.msgInWritePos msg appl).trans (if_neg (by omega))
  refine ⟨hdv, fun t ht => ?_, ?_⟩
  · rcases List.mem_append.mp ht with ht | ht
    · right
      have := (hb.bounds t ht).1
      rw [newSlot_stop]
      omega
    · exact Or.inl (hf.bounds t ht).2
  · rw [List.append_assoc]
    refine Layout.wrapped hd (by rw [hwrap]; exact hp) ?_ ?_ ?_ (fun _ => ?_)
    · rw [hwrap]
      exact hb
    · rw [hw', newSlot_stop]
      exact hfit
    · rw [hw']
      exact hf.snoc _ rfl
    · rw [hw', newSlot_stop]
      exact hroom

end Lands

/-- Where a message that has room goes. -/
theorem enqueue_lands {q : MsgIn} {live : List (Slot P)} (h : Holds q live) (msg : Mem) (appl : ApplPtr P)
    (hroom : noRoom P q (headerLength msg) = false) : Lands q live (msgInRoom P q (headerLength msg)).2 msg appl := by
  have hover : 0 < msgInOverhead P := bytes_pos P
  rw [noRoom_iff] at hroom
  obtain ⟨hl, hst⟩ := h
  cases hl with
  | empty hr hw hp =>
    have hj : msgInRoom P q (headerLength msg) = (msgInQueueSize P, 0) := by
      simp only [msgInRoom, hr, hw, Nat.le_refl, if_true]
      rw [if_neg (by omega)]
    rw [hj] at hroom ⊢
    exact lands_first hr hw hroom
  | @front s ss hr hp hw hc hs =>
    have hn := (hst s (by simp)).first_size hc.1
    have hspos := s.size_pos
    have hj : msgInRoom P q (headerLength msg) =
        (if q.msgInWritePos < msgInQueueSize P - s.size + 1 then msgInQueueSize P - s.size + 1 - q.msgInWritePos else 0,
          q.msgInWritePos) := by
      simp only [msgInRoom, hr, hn]
      rw [if_neg (by omega : ¬ msgInQueueSize P ≤ q.msgInWritePos),
        if_pos (by omega : msgInQueueSize P - s.size < msgInQueueSize P)]
    rw [hj] at hroom ⊢
    simp only at hroom ⊢
    apply lands_front hr hp hc
    have hsle := hc.2.le
    have hs0 := hc.1
    unfold Slot.stop at hsle
    split at hroom <;> omega
  | @straight s ss hd h0 hp hw hc =>
    have hlt := hc.lt
    by_cases hfit : q.msgInWritePos + headerLength msg + msgInOverhead P ≤ msgInQueueSize P
    · have hj : msgInRoom P q (headerLength msg) = (msgInQueueSize P - q.msgInWritePos + 1, q.msgInWritePos) := by
        simp only [msgInRoom]
        rw [if_pos (by omega), if_pos hfit]
      rw [hj]
      exact lands_straight hd h0 hp hc ((fits_iff (hc.dvd hd)).mp hfit)
    · have hj : msgInRoom P q (headerLength msg) = (q.msgInReadPos, 0) := by
        simp only [msgInRoom]
        rw [if_pos (by omega), if_neg hfit]
      rw [hj] at hroom ⊢
      exact lands_again hd hw hc hroom
  | @wrapped b f bs fs hd hp hb hw hf hs =>
    have hn := (hst f (by simp)).first_size hf.1
    have hfle := hf.2.le
    have hf0 := hf.1
    have hfpos := f.size_pos
    have hblt := hb.lt
    unfold Slot.stop at hfle
    have hj : (msgInRoom P q (headerLength msg)).2 = q.msgInWritePos := by
      simp only [msgInRoom]
      rw [if_neg (by omega)]
    have hfit : q.msgInWritePos + align P (headerLength msg + msgInOverhead P) < q.msgInReadPos ∧
        q.msgInWritePos + align P (headerLength msg + msgInOverhead P) + f.size ≤ msgInQueueSize P := by
      simp only [msgInRoom, hn] at hroom
      rw [if_neg (by omega)] at hroom
      simp only at hroom
      by_cases hres : msgInQueueSize P - f.size < q.msgInReadPos
      · rw [if_pos hres] at hroom
        split at hroom <;> omega
      · rw [if_neg hres, if_pos hw] at hroom
        omega
    rw [hj]
    exact lands_wrapped hd hp hb hf hfit.1 hfit.2

theorem enqueue_holds {q : MsgIn} {live : List (Slot P)} (h : Holds q live) (msg : Mem) (appl : ApplPtr P)
    (hlen : sizeofHeader ≤ headerLength msg) (hroom : noRoom P q (headerLength msg) = false) :
    Holds (enqueueMsg P q (msgInRoom P q (headerLength msg)).2 msg appl)
      (live ++ [newSlot (msgInRoom P q (headerLength msg)).2 msg appl]) := by
  obtain ⟨hj, hfree, hl⟩ := enqueue_lands h msg appl hroom
  refine ⟨hl, fun s hs => ?_⟩
  rcases List.mem_append.mp hs with hs | hs
  · refine (h.stored s hs).frame fun i h1 h2 => enqueueMsg_frame q hj msg appl ?_
    rcases hfree s hs with h' | h' <;> omega
  · simp only [List.mem_singleton] at hs
    subst hs
    exact enqueueMsg_stored q hj msg appl hlen

/-! ## Dequeue -/

/-- What the dequeue loop reads at the head. -/
structure HeadIs (q : MsgIn) (s : Slot P) : Prop where
  pos : headPos q = s.off
  length : headerLength (headMsg q) = s.msg.length
  bytes : load (headMsg q) 0 s.msg.length = s.msg
  appl : headAppl P q = s.appl

theorem Stored.head {q : MsgIn} {s : Slot P} (h : Stored q.msgInQueue s) (hp : headPos q = s.off) : HeadIs q s := by
  have hl : headerLength (headMsg q) = s.msg.length := by rw [headMsg, hp]; exact h.length
  refine ⟨hp, hl, ?_, ?_⟩
  · rw [headMsg, load_from, hp, Nat.add_zero]; exact h.bytes
  · rw [headAppl, hl, hp]; exact h.appl

theorem HeadIs.mem {q : MsgIn} {s : Slot P} (h : HeadIs q s) : headMsg q = from_ q.msgInQueue s.off := by
  rw [headMsg, h.pos]

theorem Layout.headPos {q : MsgIn} {s : Slot P} {ss : List (Slot P)} (h : Layout q (s :: ss)) :
    headPos q = s.off := by
  unfold Divas.Capi.headPos
  generalize hlive : s :: ss = live at h
  cases h with
  | empty => cases hlive
  | front hr hp hw hc hs =>
    cases hlive
    rw [if_pos (by omega)]; exact hc.1.symm
  | straight hd h0 hp hw hc =>
    cases hlive
    have := hc.lt
    rw [if_neg (by omega)]; exact hc.1.symm
  | wrapped hd hp hb hw hf hs =>
    simp only [List.cons_append, List.cons.injEq] at hlive
    obtain ⟨rfl, -⟩ := hlive
    have := hb.lt
    rw [if_neg (by omega)]; exact hb.1.symm

theorem Holds.head {q : MsgIn} {s : Slot P} {ss : List (Slot P)} (h : Holds q (s :: ss)) : HeadIs q s :=
  (h.stored s (by simp)).head h.layout.headPos

theorem advanceRead_eq {q : MsgIn} {s : Slot P} (h : HeadIs q s) :
    advanceRead P q = if q.msgInReadPos = q.msgInWrapPos then
      { q with msgInWrapPos := msgInQueueSize P, msgInReadPos := s.size }
    else { q with msgInReadPos := s.stop } := by
  have hsz : align P (headerLength (headMsg q)) + msgInOverhead P = s.size := by
    rw [h.length, s.size_eq]; rfl
  simp only [advanceRead, hsz, h.pos, Slot.stop]

theorem settleRead_mem (q : MsgIn) : (settleRead P q).msgInQueue = q.msgInQueue := by
  unfold settleRead
  split
  · rfl
  · split <;> rfl

theorem dequeueMsg_mem (q : MsgIn) : (dequeueMsg P q).msgInQueue = q.msgInQueue := by
  rw [dequeueMsg, settleRead_mem, advanceRead]
  split <;> rfl

/-- The cursors after a dequeue, from the end of the head message on. -/
theorem dequeueMsg_eq {q : MsgIn} {s : Slot P} (h : HeadIs q s) {r p : Nat}
    (hr : r = if q.msgInReadPos = q.msgInWrapPos then s.size else s.stop)
    (hp : p = if q.msgInReadPos = q.msgInWrapPos then msgInQueueSize P else q.msgInWrapPos) :
    dequeueMsg P q =
      if r = q.msgInWritePos then
        { q with msgInWritePos := msgInQueueSize P, msgInReadPos := msgInQueueSize P, msgInWrapPos := p }
      else if r = p then { q with msgInReadPos := msgInQueueSize P, msgInWrapPos := msgInQueueSize P }
      else { q with msgInReadPos := r, msgInWrapPos := p } := by
  subst hr hp
  unfold dequeueMsg settleRead
  rw [advanceRead_eq h]
  split <;> rfl

theorem Chain.tail_nil {e : Nat} {s : Slot P} {ss : List (Slot P)} {k : Nat} (h : Chain k (s :: ss) e) :
    s.stop = e ↔ ss = [] := by
  cases ss with
  | nil => exact ⟨fun _ => rfl, fun _ => h.2⟩
  | cons t ts =>
    have := Chain.lt h.2
    exact ⟨fun he => by omega, fun he => by cases he⟩

/-- The cursors after a dequeue describe the rest of the live list. -/
theorem dequeue_layout {q : MsgIn} {s : Slot P} {ss : List (Slot P)} (h : Layout q (s :: ss)) (hhead : HeadIs q s) :
    Layout (dequeueMsg P q) ss := by
  have hspos := s.size_pos
  have hso : s.off + s.size = s.stop := rfl
  generalize hlive : s :: ss = live at h
  cases h with
  | empty => cases hlive
  | front hr hp hw hc hs =>
    cases hlive
    have hoff := hc.1
    have hst : s.stop = s.size := by omega
    have hle := hc.2.le
    have hrp : q.msgInReadPos = q.msgInWrapPos := hr.trans hp.symm
    rw [dequeueMsg_eq hhead (if_pos hrp).symm (if_pos hrp).symm]
    by_cases he : s.size = q.msgInWritePos
    · rw [if_pos he, hc.tail_nil.mp (hst.trans he)]
      exact Layout.empty rfl rfl rfl
    · rw [if_neg he, if_neg (by omega)]
      cases ss with
      | nil => exact absurd (hst.symm.trans (hc.tail_nil.mpr rfl)) he
      | cons t ts => exact Layout.straight (bytes_dvd_align P _) s.size_pos rfl (Nat.le_of_lt hw) (hst ▸ hc.2)
  | straight hd h0 hp hw hc =>
    cases hlive
    have hlt := hc.lt
    have hoff := hc.1
    have hle := hc.2.le
    have hrp : q.msgInReadPos ≠ q.msgInWrapPos := by omega
    rw [dequeueMsg_eq hhead (if_neg hrp).symm (if_neg hrp).symm]
    by_cases he : s.stop = q.msgInWritePos
    · rw [if_pos he, hc.tail_nil.mp he]
      exact Layout.empty rfl rfl hp
    · rw [if_neg he, if_neg (by omega)]
      cases ss with
      | nil => exact absurd (hc.tail_nil.mpr rfl) he
      | cons t ts =>
        refine Layout.straight ?_ (by simp only; omega) hp hw hc.2
        simp only [Slot.stop, hoff]
        exact Nat.dvd_add hd (bytes_dvd_align P _)
  | @wrapped b f bs fs hd hp hb hw hf hs =>
    simp only [List.cons_append, List.cons.injEq] at hlive
    obtain ⟨rfl, rfl⟩ := hlive
    have hlt := hb.lt
    have hoff := hb.1
    have hle := hb.2.le
    have hrp : q.msgInReadPos ≠ q.msgInWrapPos := by omega
    rw [dequeueMsg_eq hhead (if_neg hrp).symm (if_neg hrp).symm, if_neg (by omega)]
    cases bs with
    | nil =>
      rw [if_pos (hb.tail_nil.mpr rfl)]
      exact Layout.front rfl rfl (by simp only; omega) hf hs
    | cons t ts =>
      rw [if_neg (fun he => by cases hb.tail_nil.mp he)]
      refine Layout.wrapped ?_ hp hb.2 (by simp only; omega) hf hs
      simp only [Slot.stop, hoff]
      exact Nat.dvd_add hd (bytes_dvd_align P _)

theorem dequeue_holds {q : MsgIn} {s : Slot P} {ss : List (Slot P)} (h : Holds q (s :: ss)) :
    Holds (dequeueMsg P q) ss := by
  refine ⟨dequeue_layout h.layout h.head, fun t ht => ?_⟩
  rw [dequeueMsg_mem]
  exact h.stored t (List.mem_cons_of_mem _ ht)

/-! ## The count of queued requests -/

/-- The message of a slot, as a memory. -/
def Slot.mem (t : Slot P) : Mem := fun i => t.msg.getD i 0

theorem Stored.mem {m : Mem} {t : Slot P} (h : Stored m t) : load m t.off t.msg.length = load t.mem 0 t.msg.length := by
  rw [h.bytes]
  apply List.ext_getElem (by simp)
  intro i h1 h2
  simp [load, Slot.mem, List.getD_eq_getElem?_getD, h1]

/-- A byte inside a stored message. -/
theorem Stored.byte {m : Mem} {t : Slot P} (h : Stored m t) {j : Nat} (hj : j < t.msg.length) :
    from_ m t.off j = t.mem j := by
  have hb := congrArg (fun l => l.getD j 0) h.bytes
  simpa [load, hj, from_, Slot.mem, List.getD_eq_getElem?_getD] using hb

/-- A 16-bit field inside a stored message. -/
theorem Stored.word {m : Mem} {t : Slot P} (h : Stored m t) {j : Nat} (hj : j + 2 ≤ t.msg.length) :
    word (from_ m t.off) j = word t.mem j := by
  rw [word_from, word_of_load_eq h.mem hj, Nat.zero_add]

/-- A 32-bit field inside a stored message. -/
theorem Stored.dword {m : Mem} {t : Slot P} (h : Stored m t) {j : Nat} (hj : j + 4 ≤ t.msg.length) :
    dword (from_ m t.off) j = dword t.mem j := by
  rw [dword_from, dword_of_load_eq h.mem hj, Nat.zero_add]

/-- The slot holds a DATA_B3 request for the NCCI. -/
def Slot.dataFor (t : Slot P) (ncci : Nat) : Bool := headerCommand t.mem == cmdDataB3R && headerNcci t.mem == ncci

/-- Such a request with Flags bit 2, as the count reads it: the Flags field of a request
    that is shorter than 22 bytes is what follows it in the array. -/
def Slot.flaggedFor (m : Mem) (t : Slot P) (ncci : Nat) : Bool :=
  t.dataFor ncci && flagged (dataB3ReqFlags (from_ m t.off))

theorem Stored.dataFor {m : Mem} {t : Slot P} (h : Stored m t) (ncci : Nat) :
    (headerCommand (from_ m t.off) == cmdDataB3R && headerNcci (from_ m t.off) == ncci) = t.dataFor ncci := by
  have hlen := h.header
  unfold sizeofHeader at hlen
  unfold Slot.dataFor headerCommand headerNcci
  rw [h.word (by omega), h.word (by omega)]

theorem newSlot_mem {j : Nat} {msg : Mem} {appl : ApplPtr P} {i : Nat} (hi : i < headerLength msg) :
    (newSlot j msg appl).mem i = msg i := by
  simp [newSlot, Slot.mem, load, hi]

theorem newSlot_word {j : Nat} {msg : Mem} {appl : ApplPtr P} {k : Nat} (hk : k + 2 ≤ headerLength msg) :
    word (newSlot j msg appl).mem k = word msg k := by
  unfold word
  rw [load_congr fun i hi => newSlot_mem (by omega)]

theorem newSlot_dword {j : Nat} {msg : Mem} {appl : ApplPtr P} {k : Nat} (hk : k + 4 ≤ headerLength msg) :
    dword (newSlot j msg appl).mem k = dword msg k := by
  unfold dword
  rw [load_congr fun i hi => newSlot_mem (by omega)]

/-- The count along a run of messages that does not meet the write position or the
    wrap mark. -/
theorem queuedDataFrom_chain {q : MsgIn} {ncci k e fuel : Nat} {ss : List (Slot P)} (hc : Chain k ss e)
    (hst : ∀ t ∈ ss, Stored q.msgInQueue t) (hw : ∀ t ∈ ss, t.off ≠ q.msgInWritePos)
    (hp : ∀ t ∈ ss, t.off ≠ q.msgInWrapPos) (hf : ss.length ≤ fuel) (c : Nat × Nat) :
    queuedDataFrom P q ncci fuel k c =
      queuedDataFrom P q ncci (fuel - ss.length) e
        (c.1 + ss.countP (·.dataFor ncci), c.2 + ss.countP (Slot.flaggedFor q.msgInQueue · ncci)) := by
  induction ss generalizing k c fuel with
  | nil => rw [show k = e from hc]; simp
  | cons t ss ih =>
    obtain ⟨n, l⟩ := c
    obtain ⟨fuel, rfl⟩ : ∃ f, fuel = f + 1 := ⟨fuel - 1, by simp only [List.length_cons] at hf; omega⟩
    have hoff : t.off = k := hc.1
    have ht : Stored q.msgInQueue t := hst t (by simp)
    have hkw : k ≠ q.msgInWritePos := hoff ▸ hw t (by simp)
    have hkp : k ≠ q.msgInWrapPos := hoff ▸ hp t (by simp)
    have hlen : align P (headerLength (from_ q.msgInQueue k) + msgInOverhead P) = t.size := by
      rw [← hoff, ht.length]; rfl
    have hstop : k + t.size = t.stop := by rw [← hoff]; rfl
    have hih := fun c' => ih hc.2 (fun u hu => hst u (by simp [hu])) (fun u hu => hw u (by simp [hu]))
      (fun u hu => hp u (by simp [hu])) (show _ ≤ fuel by simpa using hf) c'
    simp only [queuedDataFrom, if_neg hkw, if_neg hkp, hlen, hstop, hih, List.length_cons, Nat.add_sub_add_right]
    rw [← hoff, ht.dataFor]
    congr 1
    simp only [List.countP_cons, Slot.flaggedFor]
    by_cases h1 : t.dataFor ncci = true
    · by_cases h2 : flagged (dataB3ReqFlags (from_ q.msgInQueue t.off)) = true
      · simp [h1, h2]; omega
      · simp [h1, h2]; omega
    · simp [h1]

theorem queuedDataFrom_write (q : MsgIn) (ncci fuel : Nat) (c : Nat × Nat) :
    queuedDataFrom P q ncci fuel q.msgInWritePos c = c := by
  cases fuel with
  | zero => rfl
  | succ fuel => simp [queuedDataFrom]

/-- At the wrap mark the count goes on at offset 0. -/
theorem queuedDataFrom_wrap {q : MsgIn} {ncci fuel : Nat} (hf : 0 < fuel) (h1 : q.msgInWrapPos ≠ q.msgInWritePos)
    (h2 : 0 ≠ q.msgInWritePos) (c : Nat × Nat) :
    queuedDataFrom P q ncci fuel q.msgInWrapPos c = queuedDataFrom P q ncci fuel 0 c := by
  obtain ⟨fuel, rfl⟩ : ∃ f, fuel = f + 1 := ⟨fuel - 1, by omega⟩
  simp only [queuedDataFrom, if_neg h1, if_neg h2, if_true, ite_self]

theorem Chain.length_le {k e : Nat} {ss : List (Slot P)} (h : Chain k ss e) : k + ss.length ≤ e := by
  induction ss generalizing k with
  | nil => exact Nat.le_of_eq h
  | cons t ss ih =>
    have h1 := h.1
    have h2 := ih h.2
    have := t.size_pos
    unfold Slot.stop at h2
    simp only [List.length_cons]
    omega

/-- The loop of `api_put_reenter` counts the live requests of the NCCI. -/
theorem queuedData_eq {q : MsgIn} {live : List (Slot P)} (h : Holds q live) (ncci : Nat) (c : Nat × Nat) :
    queuedData P q ncci c =
      (c.1 + live.countP (·.dataFor ncci), c.2 + live.countP (Slot.flaggedFor q.msgInQueue · ncci)) := by
  obtain ⟨hl, hst⟩ := h
  have hle : ∀ t : Slot P, t.off < t.stop := fun t => by have := t.size_pos; unfold Slot.stop; omega
  unfold queuedData
  cases hl with
  | empty hr hw hp =>
    rw [hr, ← hw, queuedDataFrom_write]
    simp
  | front hr hp hw hc hs =>
    have hlen := hc.length_le
    have hlt := hc.lt
    have hb := hc.bounds
    rw [hr, ← hp, queuedDataFrom_wrap (by omega) (by omega) (by omega),
      queuedDataFrom_chain hc hst (fun t ht => ?_) (fun t ht => ?_) (by omega), queuedDataFrom_write]
    · have := (hb t ht).2; have := hle t; omega
    · have := (hb t ht).2; have := hle t; omega
  | straight hd h0 hp hw hc =>
    have hlen := hc.length_le
    have hb := hc.bounds
    rw [queuedDataFrom_chain hc hst (fun t ht => ?_) (fun t ht => ?_) (by omega), queuedDataFrom_write]
    · have := (hb t ht).2; have := hle t; omega
    · have := (hb t ht).2; have := hle t; omega
  | wrapped hd hp hb hw hf hs =>
    have hlb := hb.length_le
    have hlf := hf.length_le
    have hbb := hb.bounds
    have hfb := hf.bounds
    have hblt := hb.lt
    have hflt := hf.lt
    rw [queuedDataFrom_chain hb (fun t ht => hst t (List.mem_append_left _ ht)) (fun t ht => ?_) (fun t ht => ?_)
        (by omega), queuedDataFrom_wrap (by omega) (by omega) (by omega),
      queuedDataFrom_chain hf (fun t ht => hst t (List.mem_append_right _ ht)) (fun t ht => ?_) (fun t ht => ?_)
        (by omega), queuedDataFrom_write]
    · simp only [List.countP_append, Nat.add_assoc]
    · have := (hfb t ht).2; have := hle t; omega
    · have := (hfb t ht).2; have := hle t; omega
    · have := (hbb t ht).1; omega
    · have := (hbb t ht).2; have := hle t; omega

/-! ## Runs -/

/-- What `api_put_reenter` is called with, and what it looks up besides the queue. -/
structure PutArgs (P : PtrSize) where
  maxAdapter : Nat
  a : Adapter
  plci : Plci P
  ap : Appl
  appl : ApplPtr P
  msg : Mem

/-- The queue after `api_put_reenter` decided. -/
def Put.queue (r : Put) (q : MsgIn) (msg : Mem) (appl : ApplPtr P) : MsgIn :=
  match r with
  | .enqueue j => enqueueMsg P q j msg appl
  | _ => q

/-- The decision for a message that is not in the queue array itself. -/
def PutArgs.put (x : PutArgs P) (q : MsgIn) : Put :=
  apiPutReenter P x.maxAdapter x.a (x.plci.withQueue q) x.ap x.msg false

inductive FifoEv (P : PtrSize) where
  | put (x : PutArgs P)
  | dequeue

/-- A queue with the messages it accepted and the messages it delivered so far. -/
structure FifoSt (P : PtrSize) where
  q : MsgIn
  accepted : List (List UInt8 × ApplPtr P)
  delivered : List (List UInt8 × ApplPtr P)

def fifoStep (s : FifoSt P) : FifoEv P → FifoSt P
  | .put x =>
    let r := x.put s.q
    { s with
      q := r.queue s.q x.msg x.appl
      accepted := match r with
        | .enqueue _ => s.accepted ++ [(load x.msg 0 (headerLength x.msg), x.appl)]
        | _ => s.accepted }
  | .dequeue =>
    if s.q.msgInWritePos ≠ s.q.msgInReadPos then
      { s with
        q := dequeueMsg P s.q
        delivered := s.delivered ++ [(load (headMsg s.q) 0 (headerLength (headMsg s.q)), headAppl P s.q)] }
    else s

/-- The queue a PLCI starts with. -/
def FifoSt.start (P : PtrSize) (m : Mem) : FifoSt P := ⟨emptyQueue P m, [], []⟩

/-- What the enqueue branch can return. -/
theorem enqueueBranch_cases (a : Adapter) (p : Plci P) (ap : Appl) (msg : Mem) (j : Nat) :
    enqueueBranch P a p ap msg j = .badMsg ∨ enqueueBranch P a p ap msg j = .enqueue j ∨
      (enqueueBranch P a p ap msg j = .dispatch true ∧ headerCommand msg = cmdDataB3IResponse) := by
  unfold enqueueBranch
  split
  · rename_i hc
    split
    · exact Or.inl rfl
    · split
      · exact Or.inr (Or.inl rfl)
      · exact Or.inr (Or.inr ⟨rfl, hc⟩)
  · exact Or.inr (Or.inl rfl)

theorem putTaken_enqueue {j : Nat} {a : Adapter} {p : Plci P} {ap : Appl} {msg : Mem} {queued : Bool}
    (h : putTaken P a p ap msg queued = .enqueue j) :
    noRoom P p.toMsgIn (headerLength msg) = false ∧ j = (msgInRoom P p.toMsgIn (headerLength msg)).2 := by
  have hbranch : ∀ j', enqueueBranch P a p ap msg j' = .enqueue j → j = j' := by
    intro j' hb
    rcases enqueueBranch_cases a p ap msg j' with h' | h' | ⟨h', -⟩
    · rw [h'] at hb; cases hb
    · rw [h'] at hb; cases hb; rfl
    · rw [h'] at hb; cases hb
  unfold putTaken at h
  simp only at h
  split at h
  · cases h
  · rename_i hroom
    refine ⟨by simpa using hroom, ?_⟩
    repeat' split at h
    all_goals first | cases h | exact hbranch _ h

/-- A message is enqueued only with its header, where there is room for it. -/
theorem apiPutReenter_enqueue {maxAdapter j : Nat} {a : Adapter} {p : Plci P} {ap : Appl} {msg : Mem} {queued : Bool}
    (h : apiPutReenter P maxAdapter a p ap msg queued = .enqueue j) :
    sizeofHeader ≤ headerLength msg ∧ noRoom P p.toMsgIn (headerLength msg) = false ∧
      j = (msgInRoom P p.toMsgIn (headerLength msg)).2 := by
  unfold apiPutReenter at h
  split at h
  · cases h
  rename_i hlen
  split at h
  · cases h
  split at h
  · exact ⟨by omega, putTaken_enqueue h⟩
  · cases h

/-- A queue that keeps its books: what was accepted is what was delivered and then what
    is live. -/
def Books (s : FifoSt P) (live : List (Slot P)) : Prop :=
  Holds s.q live ∧ s.accepted = s.delivered ++ live.map fun t => (t.msg, t.appl)

theorem books_step {s : FifoSt P} {live : List (Slot P)} (h : Books s live) (e : FifoEv P) :
    ∃ live', Books (fifoStep s e) live' := by
  obtain ⟨hq, hb⟩ := h
  cases e with
  | put x =>
    simp only [fifoStep]
    rcases hr : x.put s.q with _ | _ | j | b
    · exact ⟨live, hq, hb⟩
    · exact ⟨live, hq, hb⟩
    · obtain ⟨hlen, hroom, rfl⟩ := apiPutReenter_enqueue hr
      refine ⟨_, enqueue_holds hq x.msg x.appl hlen hroom, ?_⟩
      simp [hb, newSlot]
    · exact ⟨live, hq, hb⟩
  | dequeue =>
    simp only [fifoStep]
    by_cases he : s.q.msgInWritePos = s.q.msgInReadPos
    · simp only [he, ne_eq, not_true, if_false]
      exact ⟨live, hq, hb⟩
    · simp only [ne_eq, he, not_false_eq_true, if_true]
      cases live with
      | nil => exact absurd (hq.layout.empty_iff.mpr rfl).symm he
      | cons t ts =>
        have hd := hq.head
        refine ⟨ts, dequeue_holds hq, ?_⟩
        simp [hb, hd.length, hd.bytes, hd.appl]

/-- Over every run of enqueues and dequeues from the empty queue: what was accepted is
    what was delivered and then what is live; a live message is in the array as it was
    accepted, inside the array and apart from the others; the queue reads as empty
    exactly when nothing is live; and a refused message changes nothing. -/
theorem fifo (m : Mem) (es : List (FifoEv P)) :
    ∃ live : List (Slot P),
      (run fifoStep (FifoSt.start P m) es).accepted =
        (run fifoStep (FifoSt.start P m) es).delivered ++ live.map (fun t => (t.msg, t.appl)) ∧
      (∀ t ∈ live, load (run fifoStep (FifoSt.start P m) es).q.msgInQueue t.off t.msg.length = t.msg ∧
        loadPtr P (run fifoStep (FifoSt.start P m) es).q.msgInQueue (t.off + align P t.msg.length) = t.appl ∧
        t.stop ≤ msgInQueueSize P) ∧
      live.Pairwise (fun t u => t.stop ≤ u.off ∨ u.stop ≤ t.off) ∧
      ((run fifoStep (FifoSt.start P m) es).q.msgInReadPos = (run fifoStep (FifoSt.start P m) es).q.msgInWritePos ↔
        live = []) ∧
      ∀ x : PutArgs P, x.put (run fifoStep (FifoSt.start P m) es).q = .queueFull →
        fifoStep (run fifoStep (FifoSt.start P m) es) (.put x) = run fifoStep (FifoSt.start P m) es := by
  have hinv : ∃ live, Books (run fifoStep (FifoSt.start P m) es) live := by
    refine run_invariant fifoStep (I := fun s => ∃ live, Books s live) (fun s e h => ?_) ?_ es
    · obtain ⟨live, h⟩ := h
      exact books_step h e
    · exact ⟨[], ⟨Layout.empty rfl rfl rfl, by simp⟩, rfl⟩
  generalize run fifoStep (FifoSt.start P m) es = s at hinv ⊢
  obtain ⟨live, hq, hb⟩ := hinv
  refine ⟨live, hb, fun t ht => ?_, hq.layout.disjoint, hq.layout.empty_iff, fun x hx => ?_⟩
  · have hst := hq.stored t ht
    exact ⟨hst.bytes, hst.appl, hq.layout.bounds t ht⟩
  · unfold fifoStep
    simp only [hx, Put.queue]

end Divas.Capi
