/-
  Divas.Queue.MsgQueueFifo — the message queue is a FIFO.

  The live messages lie one after the other from `Head` to `Tail`, or, when the queue has
  wrapped, from `Head` to `Wrap` and from `Base` to `Tail` (`Layout`). With their heads
  and bytes in memory and `Count` the sum of their sizes this is the invariant (`Holds`).

  Proved: every operation keeps it (`Holds.step`), and with it, in every run, what
  `queuePeekMsg` and `queueFreeTail` return is said by the list of live messages alone
  (`queue_fifo`).
-/

import Mathlib.Data.List.Pairwise
import Divas.Lib.Blocks
import Divas.Queue.MsgQueue

namespace Divas.Queue

open Divas.Lib.Bytes Divas.Lib.Blocks Divas.Lib.Run Divas.Capi

variable {P : PtrSize}

/-! ## Sizes -/

theorem le_msgNeed (P : PtrSize) (n : Nat) : P.bytes + n ≤ msgNeed P n := by
  cases P <;> simp only [msgNeed, PtrSize.bytes] <;> omega

theorem msgNeed_le (P : PtrSize) (n : Nat) : msgNeed P n ≤ n + 15 := by
  cases P <;> simp only [msgNeed, PtrSize.bytes] <;> omega

theorem four_le_bytes (P : PtrSize) : 4 ≤ P.bytes := by cases P <;> decide

theorem msgNeed_mod {n : Nat} (h : n < 0x8000) : msgNeed P n % 65536 = msgNeed P n :=
  Nat.mod_eq_of_lt (by have := msgNeed_le P n; omega)

/-- `queueSpace` says what `queueAllocMsg` does. -/
theorem queueSpace_eq (q : MsgQueue) (size : Nat) : queueSpace P q size = (queueAllocMsg P q size).isSome := by
  unfold queueSpace queueAllocMsg
  simp only
  split
  · cases q.wrap with
    | none => by_cases h : q.size < msgNeed P size % 65536 <;> simp [h, Nat.not_le.2, Nat.not_lt.1]
    | some e => simp
  · split
    · by_cases h : q.tail + msgNeed P size % 65536 ≤ q.size
      · simp [h]
      · by_cases h' : q.head < msgNeed P size % 65536 <;> simp [h, h']; omega
    · by_cases h : q.head < q.tail + msgNeed P size % 65536 <;> simp [h]; omega

/-! ## The flag in a head -/

theorem testBit_msgSize (n i : Nat) : (msgSize n).testBit i = (n.testBit i && (decide (i < 32) && !decide (15 = i))) := by
  have hmask : (0xffff7fff : Nat) = (2 ^ 32 - 1) ^^^ 2 ^ 15 := by decide
  rw [msgSize, Nat.testBit_and, hmask, Nat.testBit_xor, Nat.testBit_two_pow_sub_one, Nat.testBit_two_pow]
  by_cases h : 15 = i
  · subst h; simp
  · simp [h]

theorem testBit_incomplete (i : Nat) : msgIncomplete.testBit i = decide (15 = i) := by
  show (2 ^ 15).testBit i = _
  exact Nat.testBit_two_pow

theorem incomplete_set {n : Nat} (h : n < 0x8000) :
    msgSize (n ||| msgIncomplete) = n ∧ (n ||| msgIncomplete) &&& msgIncomplete ≠ 0 ∧ n ||| msgIncomplete < 4294967296 := by
  have hn : ∀ i, 15 ≤ i → n.testBit i = false := fun i hi =>
    Nat.testBit_lt_two_pow (Nat.lt_of_lt_of_le h (Nat.pow_le_pow_right (by decide : 2 > 0) hi))
  refine ⟨?_, ?_, ?_⟩
  · apply Nat.eq_of_testBit_eq
    intro i
    rw [testBit_msgSize, Nat.testBit_or, testBit_incomplete]
    by_cases hi : i < 15
    · simp [show i < 32 by omega, show ¬ 15 = i by omega]
    · simp [hn i (by omega)]
      omega
  · intro h0
    have : ((n ||| msgIncomplete) &&& msgIncomplete).testBit 15 = false := by rw [h0]; rfl
    rw [Nat.testBit_and, Nat.testBit_or, testBit_incomplete] at this
    simp at this
  · exact Nat.or_lt_two_pow (n := 32) (by omega) (by decide)

theorem incomplete_clear {n : Nat} (h : n < 0x8000) : msgSize n = n ∧ n &&& msgIncomplete = 0 := by
  have hn : ∀ i, 15 ≤ i → n.testBit i = false := fun i hi =>
    Nat.testBit_lt_two_pow (Nat.lt_of_lt_of_le h (Nat.pow_le_pow_right (by decide : 2 > 0) hi))
  constructor
  · apply Nat.eq_of_testBit_eq
    intro i
    rw [testBit_msgSize]
    by_cases hi : i < 15
    · simp [show i < 32 by omega, show ¬ 15 = i by omega]
    · simp [hn i (by omega)]
  · apply Nat.eq_of_testBit_eq
    intro i
    rw [Nat.testBit_and, testBit_incomplete, Nat.zero_testBit]
    by_cases hi : 15 = i
    · rw [hn i (by omega)]; rfl
    · simp [hi]
/-! ## Messages in memory -/

def Msg.stop (P : PtrSize) (m : Msg) : Nat := m.off + msgNeed P m.bytes.length

/-- What the head of a message says. -/
def Msg.head (m : Msg) : Nat := if m.complete then m.bytes.length else m.bytes.length ||| msgIncomplete

structure Stored (P : PtrSize) (mem : Mem) (m : Msg) : Prop where
  head : dword mem m.off = m.head
  bytes : load mem (m.place P) m.bytes.length = m.bytes
  small : m.bytes.length < 0x8000

theorem Msg.place_le (P : PtrSize) (m : Msg) : m.place P + m.bytes.length ≤ m.stop P := by
  have := le_msgNeed P m.bytes.length
  unfold Msg.place Msg.stop
  omega

theorem Msg.off_lt (P : PtrSize) (m : Msg) : m.off + 4 ≤ m.stop P := by
  have := le_msgNeed P m.bytes.length
  have := four_le_bytes P
  unfold Msg.stop
  omega

theorem dword_congr {m m' : Mem} {k : Nat} (h : ∀ i, i < 4 → m (k + i) = m' (k + i)) : dword m k = dword m' k := by
  unfold dword
  rw [load_congr h]

theorem dword_store (m : Mem) (k : Nat) {v : Nat} (h : v < 4294967296) : dword (store m k (leBytes 4 v)) k = v := by
  have hl := load_store_self m k (leBytes 4 v)
  rw [leBytes_length] at hl
  rw [dword, hl, leNat_leBytes (by simpa using h)]

/-- What lies outside a message does not matter to it. -/
theorem Stored.frame {mem mem' : Mem} {m : Msg} (h : Stored P mem m)
    (hm : ∀ i, m.off ≤ i → i < m.stop P → mem' i = mem i) : Stored P mem' m := by
  have hplace := m.place_le P
  have hoff := m.off_lt P
  have hle : m.off ≤ m.place P := Nat.le_add_right _ _
  refine ⟨?_, ?_, h.small⟩
  · exact (dword_congr fun i hi => hm _ (by omega) (by omega)).trans h.head
  · exact (load_congr fun i hi => hm _ (by omega) (by omega)).trans h.bytes

/-- The size that the head says, complete or not. -/
theorem Stored.size {mem : Mem} {m : Msg} (h : Stored P mem m) : msgSize (dword mem m.off) % 65536 = m.bytes.length := by
  have hs := h.small
  rw [h.head]
  unfold Msg.head
  split
  · rw [(incomplete_clear hs).1, Nat.mod_eq_of_lt (by omega)]
  · rw [(incomplete_set hs).1, Nat.mod_eq_of_lt (by omega)]

/-! ## Where the messages lie -/

inductive Layout (P : PtrSize) (q : MsgQueue) (live : List Msg) : Prop where
  | straight (hw : q.wrap = none) (hc : Adjacent Msg.off (Msg.stop P) q.head live q.tail) (ht : q.tail ≤ q.size)
      (h0 : live = [] → q.head = 0)
  | wrapped (e : Nat) (as bs : List Msg) (hw : q.wrap = some e) (hl : live = as ++ bs) (ha : as ≠ []) (hb : bs ≠ [])
      (hca : Adjacent Msg.off (Msg.stop P) q.head as e) (he : e ≤ q.size)
      (hcb : Adjacent Msg.off (Msg.stop P) 0 bs q.tail) (ht : q.tail ≤ q.head)

variable {q : MsgQueue} {live : List Msg}

theorem Layout.within (h : Layout P q live) {m : Msg} (hm : m ∈ live) : m.stop P ≤ q.size := by
  cases h with
  | straight hw hc ht h0 => exact Nat.le_trans (hc.bounds hm).2.2 ht
  | wrapped e as bs hw hl ha hb hca he hcb ht =>
    have := hca.le
    rw [hl, List.mem_append] at hm
    rcases hm with hm | hm
    · exact Nat.le_trans (hca.bounds hm).2.2 he
    · exact Nat.le_trans (hcb.bounds hm).2.2 (by omega)

/-- Two messages do not overlap. -/
def Apart (P : PtrSize) (a b : Msg) : Prop := a.stop P ≤ b.off ∨ b.stop P ≤ a.off

instance : Std.Symm (Apart P) := ⟨fun _ _ h => Or.symm h⟩

theorem Layout.apart (h : Layout P q live) : live.Pairwise (Apart P) := by
  cases h with
  | straight hw hc ht h0 => exact hc.pairwise.imp Or.inl
  | wrapped e as bs hw hl ha hb hca he hcb ht =>
    rw [hl, List.pairwise_append]
    refine ⟨hca.pairwise.imp Or.inl, hcb.pairwise.imp Or.inl, fun a ha b hb => Or.inr ?_⟩
    have := (hca.bounds ha).1
    have := (hcb.bounds hb).2.2
    omega

theorem Layout.sum_le (h : Layout P q live) : (live.map fun m => m.bytes.length).sum ≤ q.size := by
  have hn : ∀ a : Msg, a.off + a.bytes.length ≤ a.stop P := by
    intro a
    have := a.place_le P
    unfold Msg.place at this
    omega
  cases h with
  | straight hw hc ht h0 =>
    have := hc.sum_le fun a _ => hn a
    omega
  | wrapped e as bs hw hl ha hb hca he hcb ht =>
    have h1 := hca.sum_le fun a _ => hn a
    have h2 := hcb.sum_le fun a _ => hn a
    rw [hl, List.map_append, List.sum_append]
    omega

theorem Layout.empty_iff (h : Layout P q live) : (q.head = q.tail ∧ q.wrap.isNone = true) ↔ live = [] := by
  cases h with
  | straight hw hc ht h0 =>
    rw [hc.nil_iff, hw]
    simp
  | wrapped e as bs hw hl ha hb hca he hcb ht =>
    rw [hw, hl]
    simp [ha]

theorem Layout.head_eq {m : Msg} (h : Layout P q (m :: live)) : q.head = m.off := by
  cases h with
  | straight hw hc ht h0 => exact hc.1.symm
  | wrapped e as bs hw hl ha hb hca he hcb ht =>
    obtain ⟨a, as, rfl⟩ := List.exists_cons_of_ne_nil ha
    rw [List.cons_append, List.cons.injEq] at hl
    rw [hl.1]
    exact hca.1.symm

theorem Layout.withMem (h : Layout P q live) (mem : Mem) : Layout P { q with mem } live := by
  cases h with
  | straight hw hc ht h0 => exact .straight hw hc ht h0
  | wrapped e as bs hw hl ha hb hca he hcb ht => exact .wrapped e as bs hw hl ha hb hca he hcb ht

/-- Changes in place. -/
theorem Layout.map (h : Layout P q live) {f : Msg → Msg} (ho : ∀ m, m ∈ live → (f m).off = m.off)
    (hl : ∀ m, m ∈ live → (f m).bytes.length = m.bytes.length) : Layout P q (live.map f) := by
  have hs : ∀ m, m ∈ live → (f m).stop P = m.stop P := by
    intro m hm
    unfold Msg.stop
    rw [ho m hm, hl m hm]
  cases h with
  | straight hw hc ht h0 =>
    refine .straight hw (hc.map ho hs) ht fun hn => h0 ?_
    exact List.map_eq_nil_iff.1 hn
  | wrapped e as bs hw hlive ha hb hca he hcb ht =>
    have has : ∀ m, m ∈ as → m ∈ live := fun m hm => by rw [hlive]; exact List.mem_append_left _ hm
    have hbs : ∀ m, m ∈ bs → m ∈ live := fun m hm => by rw [hlive]; exact List.mem_append_right _ hm
    refine .wrapped e (as.map f) (bs.map f) hw ?_ ?_ ?_ (hca.map (fun m hm => ho m (has m hm)) fun m hm => hs m (has m hm)) he
      (hcb.map (fun m hm => ho m (hbs m hm)) fun m hm => hs m (hbs m hm)) ht
    · rw [hlive, List.map_append]
    · simpa using ha
    · simpa using hb

/-! ## The operations -/

/-- An accepted message lies behind the others, or from `Base` on. -/
theorem Layout.alloc (h : Layout P q live) {size : Nat} (hs : size < 0x8000) {q' : MsgQueue} {p : Nat}
    (ha : queueAllocMsg P q size = some (q', p)) :
    ∃ off, p = off + P.bytes ∧ q'.size = q.size ∧ q'.mem = store q.mem off (leBytes 4 (size ||| msgIncomplete)) ∧
      q'.count = (q.count + size) % 4294967296 ∧ ∀ m : Msg, m.off = off → m.bytes.length = size → Layout P q' (live ++ [m]) := by
  have hneed := le_msgNeed P size
  have hpos := four_le_bytes P
  have hstop : ∀ m : Msg, m.bytes.length = size → m.stop P = m.off + msgNeed P size := by
    intro m hm
    rw [Msg.stop, hm]
  unfold queueAllocMsg at ha
  simp only [msgNeed_mod hs] at ha
  cases h with
  | straight hw hc ht h0 =>
    split at ha
    · -- The queue is empty and starts at `Base` again.
      rename_i he
      have hnil := hc.nil_iff.2 he.symm
      have hhead := h0 hnil
      split at ha
      · cases ha
      rename_i hroom
      rw [not_or] at hroom
      rw [Option.some.injEq] at ha
      cases ha
      refine ⟨q.tail, rfl, rfl, rfl, rfl, fun m hm hl => ?_⟩
      subst hnil
      refine .straight hw ⟨?_, ?_, ?_⟩ ?_ (by simp)
      · show m.off = q.head
        omega
      · show q.head < m.stop P
        rw [hstop m hl]
        omega
      · show m.stop P = q.tail + msgNeed P size
        rw [hstop m hl, hm]
      · show q.tail + msgNeed P size ≤ q.size
        omega
    · split at ha
      · rename_i hlt
        split at ha
        · rename_i hfit
          rw [Option.some.injEq] at ha
          cases ha
          refine ⟨q.tail, rfl, rfl, rfl, rfl, fun m hm hl => ?_⟩
          have hsn := hc.snoc (a := m) hm (by rw [hstop m hl]; omega)
          rw [hstop m hl, hm] at hsn
          exact .straight hw hsn hfit (by simp)
        · split at ha
          · cases ha
          · -- It wraps: the messages up to now end at the wrap mark.
            rename_i hfit hroom
            rw [Option.some.injEq] at ha
            cases ha
            refine ⟨0, rfl, rfl, rfl, rfl, fun m hm hl => ?_⟩
            have hne : live ≠ [] := fun hn => absurd (hc.nil_iff.1 hn) (by omega)
            refine .wrapped q.tail live [m] rfl rfl hne (by simp) hc ht ⟨hm, ?_, ?_⟩ ?_
            · rw [hstop m hl]
              omega
            · show m.stop P = 0 + msgNeed P size
              rw [hstop m hl, hm]
            · show 0 + msgNeed P size ≤ q.head
              omega
      · rename_i hne hlt
        have := hc.le
        omega
  | wrapped e as bs hw hlive hane hbne hca he hcb ht =>
    split at ha
    · rw [hw] at ha
      simp at ha
    · split at ha
      · omega
      · split at ha
        · cases ha
        · rename_i hroom
          rw [Option.some.injEq] at ha
          cases ha
          refine ⟨q.tail, rfl, rfl, rfl, rfl, fun m hm hl => ?_⟩
          have hsn := hcb.snoc (a := m) hm (by rw [hstop m hl]; omega)
          rw [hstop m hl, hm] at hsn
          refine .wrapped e as (bs ++ [m]) hw (by rw [hlive, List.append_assoc]) hane (by simp) hca he hsn ?_
          show q.tail + msgNeed P size ≤ q.head
          omega

theorem Layout.free {m : Msg} (h : Layout P q (m :: live)) (hs : msgSize (dword q.mem q.head) % 65536 = m.bytes.length) :
    Layout P (queueFreeMsg P q) live := by
  have hhead := h.head_eq
  have hstop : q.head + msgNeed P m.bytes.length = m.stop P := by rw [hhead, Msg.stop]
  unfold queueFreeMsg
  simp only [hs, hstop]
  cases h with
  | straight hw hc ht h0 =>
    have hrest := hc.2.2
    rw [hw]
    simp only
    split
    · rename_i hle
      have hnil := hrest.nil_iff.2 (by have := hrest.le; omega)
      subst hnil
      exact .straight rfl rfl (Nat.zero_le _) fun _ => rfl
    · refine .straight rfl hrest ht fun hn => ?_
      have := hrest.nil_iff.1 hn
      omega
  | wrapped e as bs hw hl ha hb hca he hcb ht =>
    obtain ⟨a, as, rfl⟩ := List.exists_cons_of_ne_nil ha
    rw [List.cons_append, List.cons.injEq] at hl
    obtain ⟨rfl, rfl⟩ := hl
    have hrest := hca.2.2
    have hlt := hca.2.1
    have hle := hrest.le
    rw [hw]
    simp only
    split
    · -- The last message before the wrap mark is gone.
      rename_i hend
      have hnil := hrest.nil_iff.2 (by omega)
      subst hnil
      refine .straight rfl hcb ?_ fun hn => absurd hn hb
      show q.tail ≤ q.size
      omega
    · refine .wrapped e as bs rfl rfl (fun hn => ?_) hb hrest he hcb ?_
      · have := hrest.nil_iff.1 hn
        omega
      · show q.tail ≤ m.stop P
        omega

theorem Layout.freeTail {m : Msg} (h : Layout P q (m :: live))
    (hs : msgSize (dword q.mem q.head) % 65536 = m.bytes.length) : Layout P (queueFreeTail P q).1 [m] := by
  have hhead := h.head_eq
  have hin := h.within (m := m) (by simp)
  have hlt := m.off_lt P
  have hne : ¬ (q.head = q.tail ∧ q.wrap.isNone = true) := fun he => by simpa using h.empty_iff.1 he
  unfold queueFreeTail
  rw [if_neg hne]
  simp only [hs]
  have hstop : q.head + msgNeed P m.bytes.length = m.stop P := by rw [hhead, Msg.stop]
  refine .straight rfl ⟨hhead.symm, ?_, ?_⟩ ?_ (by simp)
  · show q.head < m.stop P
    omega
  · exact hstop.symm
  · show q.head + msgNeed P m.bytes.length ≤ q.size
    omega

/-! ## The invariant -/

/-- The sizes of the live messages together. -/
def sizes (live : List Msg) : Nat := (live.map fun m => m.bytes.length).sum

structure Holds (P : PtrSize) (s : QueueSt) : Prop where
  layout : Layout P s.q s.live
  stored : ∀ m, m ∈ s.live → Stored P s.q.mem m
  count : s.q.count = sizes s.live
  size : s.q.size < 4294967296

variable {s : QueueSt}

theorem Holds.head {m : Msg} (h : Holds P s) (hl : s.live = m :: live) :
    s.q.head = m.off ∧ msgSize (dword s.q.mem s.q.head) % 65536 = m.bytes.length := by
  have hhead : s.q.head = m.off := by
    have := h.layout
    rw [hl] at this
    exact this.head_eq
  have hm := h.stored m (by rw [hl]; simp)
  rw [hhead]
  exact ⟨rfl, hm.size⟩

/-- A message that is written behind the others. -/
theorem Holds.append (h : Holds P s) {q' : MsgQueue} {m : Msg} (hl : Layout P q' (s.live ++ [m])) (hm : Stored P q'.mem m)
    (hmem : ∀ i, i < m.off ∨ m.stop P ≤ i → q'.mem i = s.q.mem i)
    (hc : q'.count = (s.q.count + m.bytes.length) % 4294967296) (hs : q'.size = s.q.size) :
    Holds P ⟨q', s.live ++ [m]⟩ := by
  have hsize := h.size
  refine ⟨hl, ?_, ?_, ?_⟩
  · intro a ha
    have hap := hl.apart
    rw [List.pairwise_append] at hap
    rcases List.mem_append.1 ha with ha | ha
    · have hd := hap.2.2 a ha m (by simp)
      refine (h.stored a ha).frame fun i h1 h2 => hmem i ?_
      unfold Apart at hd
      omega
    · rw [List.mem_singleton] at ha
      rw [ha]
      exact hm
  · have hsum := hl.sum_le
    simp only [sizes, List.map_append, List.map_cons, List.map_nil, List.sum_append, List.sum_cons, List.sum_nil] at hsum ⊢
    rw [hs] at hsum
    rw [hc, h.count, sizes, Nat.mod_eq_of_lt (by omega)]
    omega
  · show q'.size < _
    rw [hs]
    exact hsize

theorem store_head {mem : Mem} {m : Msg} {v i : Nat} (h : i < m.off ∨ m.stop P ≤ i) :
    store mem m.off (leBytes 4 v) i = mem i := by
  have := m.off_lt P
  refine store_outside mem ?_
  rw [leBytes_length]
  omega

theorem Holds.alloc (h : Holds P s) {size : Nat} (hs : size < 0x8000) : Holds P (s.step P (.alloc size)) := by
  show Holds P (s.accept P (fun p m => load m p size) false (queueAllocMsg P s.q size))
  cases ha : queueAllocMsg P s.q size with
  | none => exact h
  | some r =>
    obtain ⟨q', p⟩ := r
    obtain ⟨off, rfl, hsize, hmem, hcount, hl⟩ := h.layout.alloc hs ha
    have hoff : off + P.bytes - P.bytes = off := Nat.add_sub_cancel _ _
    have hlen : (load q'.mem (off + P.bytes) size).length = size := load_length _ _ _
    show Holds P ⟨q', s.live ++ [⟨off + P.bytes - P.bytes, load q'.mem (off + P.bytes) size, false⟩]⟩
    rw [hoff]
    refine h.append (hl _ rfl hlen) ⟨?_, ?_, ?_⟩ (fun i hi => ?_) ?_ hsize
    · show dword q'.mem off = (load q'.mem (off + P.bytes) size).length ||| msgIncomplete
      rw [hlen, hmem]
      exact dword_store _ _ (incomplete_set hs).2.2
    · show load q'.mem (off + P.bytes) (load q'.mem (off + P.bytes) size).length = _
      rw [hlen]
    · show (load q'.mem (off + P.bytes) size).length < 0x8000
      rw [hlen]
      exact hs
    · rw [hmem]
      exact store_head hi
    · show q'.count = _
      rw [hcount, hlen]

/-- A head that says the size, and the message behind it. -/
theorem queueCompleteMsg_eq {mem : Mem} {m : Msg} (h : msgSize (dword mem m.off) = m.bytes.length) :
    queueCompleteMsg P mem (m.place P) = store mem m.off (leBytes 4 m.bytes.length) := by
  have hoff : m.place P - P.bytes = m.off := Nat.add_sub_cancel _ _
  unfold queueCompleteMsg
  rw [hoff, h]

theorem Holds.write (h : Holds P s) {data : List UInt8} (hs : data.length < 0x8000) : Holds P (s.step P (.write data)) := by
  show Holds P (s.accept P (fun _ _ => data) true (queueWriteMsg P s.q data))
  unfold queueWriteMsg
  cases ha : queueAllocMsg P s.q data.length with
  | none => exact h
  | some r =>
    obtain ⟨q', p⟩ := r
    obtain ⟨off, rfl, hsize, hmem, hcount, hl⟩ := h.layout.alloc hs ha
    have hoff : off + P.bytes - P.bytes = off := Nat.add_sub_cancel _ _
    have hbytes := four_le_bytes P
    have hhead : dword (store q'.mem (off + P.bytes) data) off = data.length ||| msgIncomplete := by
      rw [dword, load_store_disjoint _ (by omega), hmem]
      exact dword_store _ _ (incomplete_set hs).2.2
    have hcomplete : queueCompleteMsg P (store q'.mem (off + P.bytes) data) (off + P.bytes)
        = store (store q'.mem (off + P.bytes) data) off (leBytes 4 data.length) := by
      refine queueCompleteMsg_eq (m := ⟨off, data, true⟩) ?_
      show msgSize (dword _ off) = data.length
      rw [hhead]
      exact (incomplete_set hs).1
    show Holds P ⟨{ q' with mem := queueCompleteMsg P (store q'.mem (off + P.bytes) data) (off + P.bytes) },
      s.live ++ [⟨off + P.bytes - P.bytes, data, true⟩]⟩
    rw [hoff, hcomplete]
    have hlayout : Layout P { q' with mem := store (store q'.mem (off + P.bytes) data) off (leBytes 4 data.length) }
        (s.live ++ [⟨off, data, true⟩]) := by
      have := (hl ⟨off, data, true⟩ rfl rfl).withMem (store (store q'.mem (off + P.bytes) data) off (leBytes 4 data.length))
      exact this
    refine h.append hlayout ⟨?_, ?_, hs⟩ (fun i hi => ?_) hcount hsize
    · exact dword_store _ _ (by omega)
    · show load (store (store q'.mem (off + P.bytes) data) off (leBytes 4 data.length)) (off + P.bytes) data.length = data
      rw [load_store_disjoint _ (by rw [leBytes_length]; omega), load_store_self]
    · have hplace := Msg.place_le P ⟨off, data, true⟩
      show store (store q'.mem (off + P.bytes) data) off (leBytes 4 data.length) i = _
      rw [store_head (m := ⟨off, data, true⟩) hi, store_outside _ ?_, hmem, store_head (m := ⟨off, data, true⟩) hi]
      unfold Msg.place at hplace
      simp only at hplace hi
      omega

theorem Holds.free (h : Holds P s) (hne : s.live ≠ []) : Holds P (s.step P .free) := by
  obtain ⟨m, live, hl⟩ := List.exists_cons_of_ne_nil hne
  obtain ⟨hhead, hsize⟩ := h.head hl
  have hlayout := h.layout
  have hcount := h.count
  have hsum := h.layout.sum_le
  have hq := h.size
  rw [hl] at hlayout hcount hsum
  have hfree := hlayout.free hsize
  have hsame : (queueFreeMsg P s.q).mem = s.q.mem ∧ (queueFreeMsg P s.q).size = s.q.size ∧
      (queueFreeMsg P s.q).count = (s.q.count + 4294967296 - m.bytes.length) % 4294967296 := by
    rw [← hsize]
    unfold queueFreeMsg
    simp only
    split <;> split <;> exact ⟨rfl, rfl, rfl⟩
  obtain ⟨hmem, hsz, hc⟩ := hsame
  show Holds P ⟨queueFreeMsg P s.q, s.live.tail⟩
  rw [hl]
  refine ⟨hfree, ?_, ?_, by rw [hsz]; exact hq⟩
  · intro a ha
    rw [hmem]
    exact h.stored a (by rw [hl]; exact List.mem_cons_of_mem _ ha)
  · rw [hc, hcount]
    simp only [sizes, List.map_cons, List.sum_cons, List.tail_cons] at hsum ⊢
    omega

theorem Holds.freeTail (h : Holds P s) : Holds P (s.step P .freeTail) := by
  show Holds P ⟨(queueFreeTail P s.q).1, s.live.take 1⟩
  by_cases hne : s.live = []
  · have he := h.layout.empty_iff.2 hne
    have hsame : (queueFreeTail P s.q).1 = s.q := by
      unfold queueFreeTail
      rw [if_pos he]
    rw [hsame, hne, List.take_nil, ← hne]
    exact h
  · obtain ⟨m, live, hl⟩ := List.exists_cons_of_ne_nil hne
    obtain ⟨hhead, hsize⟩ := h.head hl
    have hlayout := h.layout
    rw [hl] at hlayout
    have hfree := hlayout.freeTail hsize
    have he : ¬ (s.q.head = s.q.tail ∧ s.q.wrap.isNone = true) := fun he => hne (h.layout.empty_iff.1 he)
    rw [hl]
    refine ⟨hfree, ?_, ?_, ?_⟩
    · intro a ha
      have ha : a = m := by simpa using ha
      subst ha
      have hm := h.stored a (by rw [hl]; simp)
      unfold queueFreeTail
      rw [if_neg he]
      exact hm
    · unfold queueFreeTail
      rw [if_neg he]
      show msgSize (dword s.q.mem s.q.head) % 65536 = _
      rw [hsize]
      simp [sizes]
    · unfold queueFreeTail
      rw [if_neg he]
      exact h.size

/-! ## Changes in place -/

/-- Only one live message is at a place. -/
theorem Layout.unique (h : Layout P q live) {a b : Msg} (ha : a ∈ live) (hb : b ∈ live) (he : a.off = b.off) : a = b := by
  by_contra hne
  have hd := h.apart.forall ha hb hne
  have := a.off_lt P
  have := b.off_lt P
  unfold Apart at hd
  omega

/-- A write into a live message that changes it as `f` says. -/
theorem Holds.inPlace (h : Holds P s) {a : Msg} (ha : a ∈ s.live) {mem : Mem} {f : Msg → Msg} (ho : (f a).off = a.off)
    (hl : (f a).bytes.length = a.bytes.length) (hf : Stored P mem (f a))
    (hmem : ∀ i, i < a.off ∨ a.stop P ≤ i → mem i = s.q.mem i) :
    Holds P ⟨{ s.q with mem }, QueueSt.atPlace P s.live (a.place P) f⟩ := by
  have hplace : ∀ m, m ∈ s.live → m.place P = a.place P → m = a := fun m hm he =>
    h.layout.unique hm ha (Nat.add_right_cancel he)
  have hoff : ∀ m, m ∈ s.live → (if m.place P = a.place P then f m else m).off = m.off := by
    intro m hm
    split
    · rename_i he
      rw [hplace m hm he]
      exact ho
    · rfl
  have hlen : ∀ m, m ∈ s.live → (if m.place P = a.place P then f m else m).bytes.length = m.bytes.length := by
    intro m hm
    split
    · rename_i he
      rw [hplace m hm he]
      exact hl
    · rfl
  refine ⟨(h.layout.map hoff hlen).withMem mem, ?_, ?_, h.size⟩
  · intro b hb
    obtain ⟨m, hm, rfl⟩ := List.mem_map.1 hb
    split
    · rename_i he
      rw [hplace m hm he]
      exact hf
    · rename_i hne
      have hma : m ≠ a := fun e => hne (by rw [e])
      have hd := h.layout.apart.forall hm ha hma
      refine (h.stored m hm).frame fun i h1 h2 => hmem i ?_
      unfold Apart at hd
      omega
  · show s.q.count = sizes (QueueSt.atPlace P s.live (a.place P) f)
    rw [h.count, sizes, sizes, QueueSt.atPlace, List.map_map]
    congr 1
    exact List.map_congr_left fun m hm => (hlen m hm).symm

theorem load_overwrite (m : Mem) (a k n : Nat) {bs : List UInt8} (h : k + bs.length ≤ n) :
    load (store m (a + k) bs) a n = QueueSt.overwrite (load m a n) k bs := by
  obtain ⟨r, rfl⟩ := Nat.exists_eq_add_of_le h
  have hdrop : (load m a (k + bs.length + r)).drop (k + bs.length) = load m (a + (k + bs.length)) r := by
    rw [load_add, List.drop_left' (load_length _ _ _)]
  have htake : (load m a (k + bs.length + r)).take k = load m a k := by
    rw [Nat.add_assoc, load_add, List.take_left' (load_length _ _ _)]
  rw [QueueSt.overwrite, hdrop, htake, load_add, load_add, load_store_self, load_store_disjoint _ (by omega),
    load_store_disjoint _ (by omega)]

theorem overwrite_length {bytes bs : List UInt8} {k : Nat} (h : k + bs.length ≤ bytes.length) :
    (QueueSt.overwrite bytes k bs).length = bytes.length := by
  unfold QueueSt.overwrite
  rw [List.length_append, List.length_append, List.length_take, List.length_drop]
  omega

theorem Holds.fill (h : Holds P s) {p k : Nat} {bs : List UInt8}
    (hv : ∃ m, m ∈ s.live ∧ m.place P = p ∧ k + bs.length ≤ m.bytes.length) : Holds P (s.step P (.fill p k bs)) := by
  obtain ⟨a, ha, rfl, hk⟩ := hv
  have hs := h.stored a ha
  have hlen := overwrite_length hk
  have hplace := a.place_le P
  have hbytes := four_le_bytes P
  show Holds P ⟨{ s.q with mem := store s.q.mem (a.place P + k) bs }, _⟩
  refine h.inPlace ha (f := fun m => { m with bytes := QueueSt.overwrite m.bytes k bs }) rfl hlen ⟨?_, ?_, ?_⟩ fun i hi => ?_
  · show dword (store s.q.mem (a.off + P.bytes + k) bs) a.off = Msg.head { a with bytes := QueueSt.overwrite a.bytes k bs }
    rw [dword, load_store_disjoint _ (by omega), ← dword, hs.head]
    unfold Msg.head
    rw [hlen]
  · show load (store s.q.mem (a.place P + k) bs) (a.place P) (QueueSt.overwrite a.bytes k bs).length = _
    rw [hlen, load_overwrite _ _ _ _ hk, hs.bytes]
  · show (QueueSt.overwrite a.bytes k bs).length < 0x8000
    rw [hlen]
    exact hs.small
  · refine store_outside _ ?_
    unfold Msg.place at hplace ⊢
    omega

theorem Holds.complete (h : Holds P s) {p : Nat} (hv : ∃ m, m ∈ s.live ∧ m.place P = p) :
    Holds P (s.step P (.complete p)) := by
  obtain ⟨a, ha, rfl⟩ := hv
  have hs := h.stored a ha
  have hsize : msgSize (dword s.q.mem a.off) = a.bytes.length := by
    rw [hs.head]
    unfold Msg.head
    split
    · exact (incomplete_clear hs.small).1
    · exact (incomplete_set hs.small).1
  have hsmall := hs.small
  have hbytes := four_le_bytes P
  show Holds P ⟨{ s.q with mem := queueCompleteMsg P s.q.mem (a.place P) }, _⟩
  rw [queueCompleteMsg_eq hsize]
  refine h.inPlace ha (f := fun m => { m with complete := true }) rfl rfl ⟨?_, ?_, hsmall⟩ fun i hi => ?_
  · exact dword_store _ _ (by omega)
  · show load _ (a.off + P.bytes) a.bytes.length = a.bytes
    rw [load_store_disjoint _ (by rw [leBytes_length]; omega)]
    exact hs.bytes
  · exact store_head hi

/-! ## Runs -/

theorem Layout.empty {q : MsgQueue} (hw : q.wrap = none) (hh : q.head = 0) (ht : q.tail = 0) : Layout P q [] :=
  .straight hw (hh.trans ht.symm) (ht ▸ Nat.zero_le _) fun _ => hh

theorem Holds.step (h : Holds P s) {e : QueueEv} (hv : QueueSt.Valid P s e) : Holds P (s.step P e) := by
  cases e with
  | alloc size => exact h.alloc hv
  | write data => exact h.write hv
  | fill p k bs => exact h.fill hv
  | complete p => exact h.complete hv
  | peek => exact h
  | free => exact h.free hv
  | freeTail => exact h.freeTail
  | reset => exact ⟨.empty rfl rfl rfl, (fun m hm => by cases hm), rfl, h.size⟩

theorem Holds.start (buffer : Mem) (sizeBuffer : UInt32) : Holds P (QueueSt.start buffer sizeBuffer) :=
  ⟨.empty rfl rfl rfl, (fun m hm => by cases hm), rfl, sizeBuffer.toNat_lt⟩

theorem Holds.run {buffer : Mem} {sizeBuffer : UInt32} {es : List QueueEv}
    (hv : Along (QueueSt.step P) (QueueSt.Valid P) (QueueSt.start buffer sizeBuffer) es) :
    Holds P (run (QueueSt.step P) (QueueSt.start buffer sizeBuffer) es) :=
  hv.invariant (I := Holds P) (QueueSt.step P) (fun _ _ h hv => h.step hv) (Holds.start buffer sizeBuffer)

theorem queueAllocMsg_size {q q' : MsgQueue} {size p : Nat} (h : queueAllocMsg P q size = some (q', p)) : q'.size = q.size := by
  unfold queueAllocMsg at h
  simp only at h
  repeat' split at h
  all_goals cases h
  all_goals rfl

/-- `Size` is constant. -/
theorem step_size (s : QueueSt) (e : QueueEv) : (s.step P e).q.size = s.q.size := by
  cases e with
  | alloc size =>
    show (s.accept P (fun p m => load m p size) false (queueAllocMsg P s.q size)).q.size = _
    cases ha : queueAllocMsg P s.q size with
    | none => rfl
    | some r => exact queueAllocMsg_size ha
  | write data =>
    show (s.accept P (fun _ _ => data) true (queueWriteMsg P s.q data)).q.size = _
    unfold queueWriteMsg
    cases ha : queueAllocMsg P s.q data.length with
    | none => rfl
    | some r =>
      show r.1.size = s.q.size
      exact queueAllocMsg_size ha
  | free =>
    show (queueFreeMsg P s.q).size = _
    unfold queueFreeMsg
    simp only
    split <;> split <;> rfl
  | freeTail =>
    show (queueFreeTail P s.q).1.size = _
    unfold queueFreeTail
    split <;> rfl
  | fill | complete | peek | reset => rfl

/-- What `queuePeekMsg` says of the live messages. -/
def peekOf (P : PtrSize) : List Msg → Option (Nat × Nat)
  | [] => none
  | m :: _ => if m.complete then some (m.place P, m.bytes.length) else none

theorem Holds.peek (h : Holds P s) : queuePeekMsg P s.q = peekOf P s.live := by
  unfold queuePeekMsg
  by_cases hne : s.live = []
  · rw [if_pos (Or.inl (h.layout.empty_iff.2 hne)), hne]
    rfl
  · have he : ¬ (s.q.head = s.q.tail ∧ s.q.wrap.isNone = true) := fun he => hne (h.layout.empty_iff.1 he)
    obtain ⟨m, live, hl⟩ := List.exists_cons_of_ne_nil hne
    have hs := h.stored m (by rw [hl]; simp)
    have hsmall := hs.small
    have hhead := (h.head hl).1
    rw [hhead] at he
    rw [hhead, hs.head, hl]
    cases hc : m.complete with
    | true =>
      have hm : m.head = m.bytes.length := by simp [Msg.head, hc]
      rw [hm, if_neg (not_or.2 ⟨he, not_not.2 (incomplete_clear hsmall).2⟩), Nat.mod_eq_of_lt (by omega)]
      simp [peekOf, hc, Msg.place]
    | false =>
      have hm : m.head = m.bytes.length ||| msgIncomplete := by simp [Msg.head, hc]
      rw [hm, if_pos (Or.inr (incomplete_set hsmall).2.1)]
      simp [peekOf, hc]

theorem Holds.freeTail_result (h : Holds P s) :
    (queueFreeTail P s.q).2 = s.live.head?.map fun m => (m.place P, m.bytes.length) := by
  unfold queueFreeTail
  by_cases hne : s.live = []
  · rw [if_pos (h.layout.empty_iff.2 hne), hne]
    rfl
  · have he : ¬ (s.q.head = s.q.tail ∧ s.q.wrap.isNone = true) := fun he => hne (h.layout.empty_iff.1 he)
    obtain ⟨m, live, hl⟩ := List.exists_cons_of_ne_nil hne
    obtain ⟨hhead, hsize⟩ := h.head hl
    rw [if_neg he, hl]
    simp only [hsize, List.head?_cons, Option.map_some]
    rw [hhead]
    rfl

/-- In every run the queue holds the live messages, byte for byte and apart from each
    other, `queuePeekMsg` shows the oldest one exactly when it is complete, `queueFreeTail`
    leaves it, and `Count` is the sum of the sizes. -/
theorem queue_fifo {buffer : Mem} {sizeBuffer : UInt32} {es : List QueueEv}
    (hv : Along (QueueSt.step P) (QueueSt.Valid P) (QueueSt.start buffer sizeBuffer) es) :
    let s := run (QueueSt.step P) (QueueSt.start buffer sizeBuffer) es
    queuePeekMsg P s.q = peekOf P s.live ∧
    (queueFreeTail P s.q).2 = (s.live.head?.map fun m => (m.place P, m.bytes.length)) ∧
    (∀ m, m ∈ s.live → load s.q.mem (m.place P) m.bytes.length = m.bytes) ∧
    (∀ m, m ∈ s.live → m.stop P ≤ sizeBuffer.toNat) ∧
    s.live.Pairwise (Apart P) ∧
    s.q.count = sizes s.live := by
  intro s
  have h : Holds P s := Holds.run hv
  have hsize : s.q.size = sizeBuffer.toNat :=
    run_invariant (QueueSt.step P) (I := fun s => s.q.size = sizeBuffer.toNat) (fun s e h => (step_size s e).trans h) rfl es
  refine ⟨h.peek, h.freeTail_result, fun m hm => (h.stored m hm).bytes, fun m hm => ?_, h.layout.apart, h.count⟩
  rw [← hsize]
  exact h.layout.within hm

/-- Two messages of eight bytes; the first one is freed and the third one wraps, is
    filled and completed. -/
def wrapRun : List QueueEv :=
  [.write [1, 2, 3, 4, 5, 6, 7, 8], .write [9, 9, 9, 9, 9, 9, 9, 9], .free, .alloc 8, .fill 8 0 [7, 7], .complete 8]

theorem queue_fifo_wrapRun :
    let s := run (QueueSt.step .eight) (QueueSt.start (fun _ => 0) 40) wrapRun
    queuePeekMsg .eight s.q = peekOf .eight s.live ∧ peekOf .eight s.live = some (24, 8) ∧ s.q.wrap = some 32 :=
  ⟨(queue_fifo (show Along (QueueSt.step .eight) (QueueSt.Valid .eight) (QueueSt.start (fun _ => 0) 40) wrapRun by
      decide +kernel)).1,
    by decide +kernel, by decide +kernel⟩

end Divas.Queue
