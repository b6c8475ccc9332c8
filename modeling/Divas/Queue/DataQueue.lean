/-
  Divas.Queue.DataQueue — the data queue of the user mode interface (dqueue.c).

  `diva_data_q_init` allocates one block for the queue's record, the segments and their
  heads, and tells the queue the size of the segments alone.

  Proved: the queue accepts as many segments as it was made for, inside the block, only
  when there is none, or when their length is so large that the rounded size of one does
  not fit into a `word` (`segments_iff`).
-/

import Divas.Queue.MsgQueue

namespace Divas.Queue

open Divas.Lib.Bytes Divas.Capi

/-- `sizeof(DIVA_MSG_QUEUE)`: seven fields, each in the room of a pointer. -/
def sizeofMsgQueue (P : PtrSize) : Nat := 7 * P.bytes

/-- `sizeof(DIVA_MSG_HEAD)`. -/
def sizeofMsgHead : Nat := PtrSize.four.bytes

/-- `diva_um_idi_data_queue_t`, and the number of bytes that were allocated for it. -/
structure DataQueue where
  pQ : MsgQueue
  maxLength : Nat
  block : Nat

/-- `diva_data_q_init`; `malloc` is the memory behind the record, if there is any. -/
def dataQInit (P : PtrSize) (malloc : Option Mem) (maxLength maxSegments : Nat) : Option DataQueue :=
  let size := (maxLength * maxSegments + sizeofMsgQueue P + maxSegments * sizeofMsgHead) % 4294967296
  malloc.map fun mem => ⟨queueInit mem (maxLength * maxSegments), maxLength, (size + 64) % 4294967296⟩

/-- `diva_data_q_get_segment4write`. -/
def dataQGetSegment4write (q : DataQueue) (length : Nat) : Option (DataQueue × Nat) :=
  (queueAllocMsg .four q.pQ (length % 65536)).map fun r => ({ q with pQ := r.1 }, r.2)

/-- The places that `n` calls return, or NULL if one of them does. -/
def segments (length : Nat) : Nat → DataQueue → Option (List Nat)
  | 0, _ => some []
  | n + 1, q =>
    match dataQGetSegment4write q length with
    | none => none
    | some (q, p) => (segments length n q).map (p :: ·)

/-- All calls return a segment that lies in the block. -/
def Capacity (P : PtrSize) (q : DataQueue) (maxSegments : Nat) : Prop :=
  ∃ ps, segments q.maxLength maxSegments q = some ps ∧ ∀ p, p ∈ ps → sizeofMsgQueue P + p + q.maxLength ≤ q.block

/-- What a segment takes from the queue. -/
def segmentNeed (length : Nat) : Nat := msgNeed .four (length % 65536) % 65536

theorem segmentNeed_small {length : Nat} (h : length < 65529) : length + 4 ≤ segmentNeed length := by
  simp only [segmentNeed, msgNeed, PtrSize.bytes]
  omega

theorem segmentNeed_large {length : Nat} (h : 65529 ≤ length) : segmentNeed length ≤ length := by
  simp only [segmentNeed, msgNeed, PtrSize.bytes]
  omega

variable {q : DataQueue} {l n : Nat}

/-- A queue with segments from `Base` on, which was never read. -/
structure Fresh (q : DataQueue) (l : Nat) : Prop where
  head : q.pQ.head = 0
  wrap : q.pQ.wrap = none
  tail : segmentNeed l = 0 → q.pQ.tail = 0

/-- One segment more. -/
def nextSegment (q : DataQueue) (l : Nat) : DataQueue :=
  { q with pQ := (q.pQ.alloc .four (l % 65536) (segmentNeed l)).1 }

theorem nextSegment_tail (q : DataQueue) (l : Nat) : (nextSegment q l).pQ.tail = q.pQ.tail + segmentNeed l := rfl

theorem nextSegment_size (q : DataQueue) (l : Nat) : (nextSegment q l).pQ.size = q.pQ.size := rfl

theorem Fresh.next (h : Fresh q l) : Fresh (nextSegment q l) l := by
  refine ⟨h.head, h.wrap, fun h0 => ?_⟩
  rw [nextSegment_tail, h.tail h0, h0]

theorem Fresh.segment (h : Fresh q l) : dataQGetSegment4write q l =
    if q.pQ.tail + segmentNeed l ≤ q.pQ.size then some (nextSegment q l, q.pQ.tail + 4) else none := by
  have hneed : msgNeed .four (l % 65536) % 65536 = segmentNeed l := rfl
  unfold dataQGetSegment4write queueAllocMsg
  simp only [hneed, h.head, h.wrap, Option.isSome_none, Bool.false_eq_true, false_or]
  by_cases ht0 : q.pQ.tail = 0
  · by_cases hfit : segmentNeed l ≤ q.pQ.size
    · simp [ht0, hfit, MsgQueue.alloc, PtrSize.bytes, nextSegment]
    · simp [ht0, hfit]
  · -- A part of the queue is filled, and `Head` is at `Base`: it cannot wrap.
    have hpos : 0 < segmentNeed l := Nat.pos_of_ne_zero fun h0 => ht0 (h.tail h0)
    have htail : 0 < q.pQ.tail := Nat.pos_of_ne_zero ht0
    rw [if_neg ht0, if_pos htail, if_pos hpos]
    split <;> rfl

theorem Fresh.isSome_iff (h : Fresh q l) :
    (segments l n q).isSome = true ↔ n = 0 ∨ q.pQ.tail + n * segmentNeed l ≤ q.pQ.size := by
  induction n generalizing q with
  | zero => simp [segments]
  | succ n ih =>
    have hmul : (n + 1) * segmentNeed l = n * segmentNeed l + segmentNeed l := Nat.succ_mul _ _
    have ih := ih h.next
    rw [nextSegment_tail, nextSegment_size] at ih
    unfold segments
    rw [h.segment]
    by_cases hfit : q.pQ.tail + segmentNeed l ≤ q.pQ.size
    · rw [if_pos hfit]
      simp only [Option.isSome_map]
      rw [ih]
      constructor
      · intro hroom
        rcases hroom with rfl | hroom <;> omega
      · intro hroom
        omega
    · rw [if_neg hfit]
      simp only [Option.isSome_none, Bool.false_eq_true, false_iff]
      omega

/-- The segments stand one after the other. -/
theorem Fresh.place_le (h : Fresh q l) {ps : List Nat} (hs : segments l n q = some ps) {p : Nat} (hp : p ∈ ps) :
    p + segmentNeed l ≤ q.pQ.tail + n * segmentNeed l + 4 := by
  induction n generalizing q ps with
  | zero =>
    cases hs
    cases hp
  | succ n ih =>
    have hmul : (n + 1) * segmentNeed l = n * segmentNeed l + segmentNeed l := Nat.succ_mul _ _
    unfold segments at hs
    rw [h.segment] at hs
    by_cases hfit : q.pQ.tail + segmentNeed l ≤ q.pQ.size
    · rw [if_pos hfit] at hs
      obtain ⟨qs, hqs, rfl⟩ := Option.map_eq_some_iff.1 hs
      rcases List.mem_cons.1 hp with rfl | hp
      · omega
      · have hrest := ih h.next hqs hp
        rw [nextSegment_tail] at hrest
        omega
    · rw [if_neg hfit] at hs
      cases hs

/-- A queue of `maxSegments` segments takes them all if and only if there is none to take
    or a segment takes no more than its own length, since the rounded size of one
    overflows. -/
theorem segments_iff (P : PtrSize) (mem : Mem) {maxLength maxSegments : Nat} (hp : maxLength * maxSegments < 2147483648)
    {q : DataQueue} (hq : dataQInit P (some mem) maxLength maxSegments = some q) :
    Capacity P q maxSegments ↔ maxSegments = 0 ∨ 65529 ≤ maxLength := by
  unfold dataQInit at hq
  rw [Option.map_some, Option.some.injEq] at hq
  have hf : Fresh q maxLength := by
    rw [← hq]
    exact ⟨rfl, rfl, fun _ => rfl⟩
  have hq' : q.maxLength = maxLength ∧ q.pQ.tail = 0 ∧ q.pQ.size = maxLength * maxSegments ∧
      q.block = ((maxLength * maxSegments + sizeofMsgQueue P + maxSegments * 4) % 4294967296 + 64) % 4294967296 := by
    rw [← hq]
    exact ⟨rfl, rfl, rfl, rfl⟩
  obtain ⟨hlen, htail, hsize, hblock⟩ := hq'
  have hsome := hf.isSome_iff (n := maxSegments)
  rw [htail, hsize, Nat.zero_add] at hsome
  unfold Capacity
  rw [hlen]
  constructor
  · intro hs
    obtain ⟨ps, hps, -⟩ := hs
    rcases hsome.1 (by rw [hps]; rfl) with h0 | hroom
    · exact Or.inl h0
    · by_contra hn
      rw [not_or, not_le] at hn
      have hneed := segmentNeed_small hn.2
      have hmul : (maxLength + 1) * maxSegments ≤ segmentNeed maxLength * maxSegments :=
        Nat.mul_le_mul_right _ (by omega)
      rw [Nat.succ_mul, Nat.mul_comm (segmentNeed maxLength)] at hmul
      omega
  · intro hs
    rcases hs with rfl | hlarge
    · exact ⟨[], rfl, fun p hp => by cases hp⟩
    · have hneed := segmentNeed_large hlarge
      have hmul : maxSegments * segmentNeed maxLength ≤ maxLength * maxSegments := by
        rw [Nat.mul_comm maxLength]
        exact Nat.mul_le_mul_left _ hneed
      obtain ⟨ps, hps⟩ := Option.isSome_iff_exists.1 (hsome.2 (Or.inr hmul))
      refine ⟨ps, hps, fun p hp => ?_⟩
      have hle := hf.place_le hps hp
      rw [htail, Nat.zero_add] at hle
      -- The last segment begins where the ones before it end and is `maxLength` long.
      have hlast : p + maxLength ≤ maxLength * maxSegments + 4 := by
        have hn : 1 ≤ maxSegments := by
          by_contra h0
          have : maxSegments = 0 := by omega
          subst this
          cases hps
          cases hp
        obtain ⟨n, rfl⟩ := Nat.exists_eq_add_of_le hn
        have h1 : (1 + n) * segmentNeed maxLength = segmentNeed maxLength + n * segmentNeed maxLength := by
          rw [Nat.add_mul, Nat.one_mul]
        have h2 : n * segmentNeed maxLength ≤ n * maxLength := Nat.mul_le_mul_left _ hneed
        have h3 : maxLength * (1 + n) = maxLength + n * maxLength := by rw [Nat.mul_add, Nat.mul_one, Nat.mul_comm n]
        omega
      have hmax : maxSegments ≤ 32771 := by
        by_contra hn
        have : 65529 * 32772 ≤ maxLength * maxSegments := Nat.mul_le_mul hlarge (by omega)
        omega
      have hrec : sizeofMsgQueue P ≤ 56 := by cases P <;> decide
      rw [hblock]
      omega

theorem segments_iff_one : ∃ q, dataQInit .eight (some fun _ => 0) 1 1 = some q ∧ ¬ Capacity .eight q 1 :=
  ⟨_, rfl, fun h => absurd ((segments_iff .eight (fun _ => 0) (by decide) rfl).1 h) (by decide)⟩

/-- The queue that `um_idi.c` makes for two return codes of 512 bytes. -/
def rcQueue : DataQueue := ⟨queueInit (fun _ => 0) 1024, 512, 1152⟩

/-- It refuses the second one. -/
theorem segment_refused : dataQInit .eight (some fun _ => 0) 512 2 = some rcQueue ∧ ¬ Capacity .eight rcQueue 2 := by
  refine ⟨rfl, fun h => ?_⟩
  have hnone : segments 512 2 rcQueue = none := by decide +kernel
  rcases h with ⟨ps, hps, -⟩
  rw [show rcQueue.maxLength = 512 from rfl, hnone] at hps
  cases hps

end Divas.Queue
