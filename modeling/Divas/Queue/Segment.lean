/-
  Divas.Queue.Segment — the segment that was allocated last, while it is filled.

  A segment of the data queue is allocated, filled in pieces and completed. `window` is a part of
  its bytes; a piece that is written shows in its own window and leaves the others.

  Proved: allocation adds a message that is not complete (`alloc_last`), and filling and completing
  the last message change that one alone (`fill_last`, `complete_last`).
-/

import Divas.Queue.MsgQueueFifo

namespace Divas.Queue

open Divas.Lib.Bytes Divas.Capi

/-! ## Windows -/

/-- `n` bytes from the offset `a` on. -/
def window (bytes : List UInt8) (a n : Nat) : List UInt8 := (bytes.drop a).take n

theorem overwrite_getElem? {bytes bs : List UInt8} {k : Nat} (h : k + bs.length ≤ bytes.length) (i : Nat) :
    (QueueSt.overwrite bytes k bs)[i]? = if k ≤ i ∧ i < k + bs.length then bs[i - k]? else bytes[i]? := by
  have htake : (bytes.take k).length = k := by rw [List.length_take]; omega
  unfold QueueSt.overwrite
  by_cases h1 : i < k
  · rw [if_neg (by omega), List.append_assoc, List.getElem?_append_left (by omega), List.getElem?_take_of_lt h1]
  · by_cases h2 : i < k + bs.length
    · rw [if_pos ⟨by omega, h2⟩, List.append_assoc, List.getElem?_append_right (by omega), htake,
        List.getElem?_append_left (by omega)]
    · have hlen : (bytes.take k ++ bs).length = k + bs.length := by rw [List.length_append, htake]
      rw [if_neg (by omega), List.getElem?_append_right (by omega), hlen, List.getElem?_drop]
      congr 1
      omega

theorem window_getElem? (bytes : List UInt8) (a n i : Nat) : (window bytes a n)[i]? = if i < n then bytes[a + i]? else none := by
  unfold window
  by_cases h : i < n
  · rw [if_pos h, List.getElem?_take_of_lt h, List.getElem?_drop]
  · rw [if_neg h, List.getElem?_take_eq_none (by omega)]

theorem window_overwrite_self {bytes bs : List UInt8} {k : Nat} (h : k + bs.length ≤ bytes.length) :
    window (QueueSt.overwrite bytes k bs) k bs.length = bs := by
  apply List.ext_getElem?
  intro i
  rw [window_getElem?, overwrite_getElem? h]
  by_cases hi : i < bs.length
  · rw [if_pos hi, if_pos ⟨by omega, by omega⟩, Nat.add_sub_cancel_left]
  · rw [if_neg hi, List.getElem?_eq_none (by omega)]

theorem window_overwrite_apart {bytes bs : List UInt8} {k a n : Nat} (h : k + bs.length ≤ bytes.length)
    (hd : a + n ≤ k ∨ k + bs.length ≤ a) : window (QueueSt.overwrite bytes k bs) a n = window bytes a n := by
  apply List.ext_getElem?
  intro i
  rw [window_getElem?, window_getElem?, overwrite_getElem? h]
  by_cases hi : i < n
  · rw [if_pos hi, if_pos hi, if_neg (by omega)]
  · rw [if_neg hi, if_neg hi]

/-! ## The last message -/

variable {P : PtrSize} {s : QueueSt} {front : List Msg} {m : Msg}

theorem Holds.place_ne (h : Holds P s) (hl : s.live = front ++ [m]) : ∀ a, a ∈ front → a.place P ≠ m.place P := by
  intro a ha he
  have hp := h.layout.apart
  rw [hl, List.pairwise_append] at hp
  have hd := hp.2.2 a ha m (by simp)
  have h1 := a.off_lt P
  have h2 := m.off_lt P
  unfold Apart at hd
  unfold Msg.place at he
  omega

theorem atPlace_last (h : Holds P s) (hl : s.live = front ++ [m]) (f : Msg → Msg) :
    QueueSt.atPlace P s.live (m.place P) f = front ++ [f m] := by
  have hne := h.place_ne hl
  rw [QueueSt.atPlace, hl, List.map_append, List.map_singleton, if_pos rfl]
  congr 1
  refine (List.map_congr_left fun a ha => ?_).trans (List.map_id _)
  rw [if_neg (hne a ha)]
  rfl

/-- A segment of the queue. -/
theorem alloc_last (h : Holds P s) {size p : Nat} {q : MsgQueue} (hs : size < 0x8000)
    (ha : queueAllocMsg P s.q size = some (q, p)) :
    ∃ m, (s.step P (.alloc size)).live = s.live ++ [m] ∧ m.place P = p ∧ m.complete = false ∧ m.bytes.length = size ∧
      Holds P (s.step P (.alloc size)) := by
  obtain ⟨off, rfl, -⟩ := h.layout.alloc hs ha
  refine ⟨⟨off, load q.mem (off + P.bytes) size, false⟩, ?_, rfl, rfl, load_length _ _ _, h.alloc hs⟩
  have hstep : s.step P (.alloc size) = s.accept P (fun p m => load m p size) false (queueAllocMsg P s.q size) := rfl
  rw [hstep, ha]
  simp only [QueueSt.accept, Nat.add_sub_cancel]

theorem fill_last (h : Holds P s) (hl : s.live = front ++ [m]) {k : Nat} {bs : List UInt8} (hk : k + bs.length ≤ m.bytes.length) :
    (s.step P (.fill (m.place P) k bs)).live = front ++ [{ m with bytes := QueueSt.overwrite m.bytes k bs }] ∧
      Holds P (s.step P (.fill (m.place P) k bs)) :=
  ⟨atPlace_last h hl _, h.fill ⟨m, by rw [hl]; simp, rfl, hk⟩⟩

theorem complete_last (h : Holds P s) (hl : s.live = front ++ [m]) :
    (s.step P (.complete (m.place P))).live = front ++ [{ m with complete := true }] ∧
      Holds P (s.step P (.complete (m.place P))) :=
  ⟨atPlace_last h hl _, h.complete ⟨m, by rw [hl]; simp, rfl⟩⟩

/-- A queue with messages shows its first one, if that is complete. -/
theorem Holds.peek_first (h : Holds P s) {live : List Msg} (hl : s.live = m :: live) :
    queuePeekMsg P s.q = if m.complete then some (m.place P, m.bytes.length) else none := by
  rw [h.peek, hl]
  rfl

/-- An empty queue has room for every message that is not longer than itself. -/
theorem Holds.alloc_empty (h : Holds P s) (hl : s.live = []) {size : Nat} (hn : msgNeed P size % 65536 ≤ s.q.size) :
    queueAllocMsg P s.q size ≠ none := by
  obtain ⟨he, hw⟩ := h.layout.empty_iff.mpr hl
  have hwrap : s.q.wrap.isSome = false := by simpa using hw
  unfold queueAllocMsg
  simp only
  rw [if_pos he.symm, if_neg (by rw [hwrap]; simp; omega)]
  simp

end Divas.Queue
