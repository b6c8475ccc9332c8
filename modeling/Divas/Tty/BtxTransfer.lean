/-
  Divas.Tty.BtxTransfer — the transfer of a page.

  A page comes in frames with transparent data, of which the last says so (`pushed`). Then the
  client acknowledges: `acked` follows the place in `DLE 0`, `DLE 1`, `DLE 0` and so on, of which
  a write has one byte, or both bytes of one acknowledgement. Frames come meanwhile.

  `Gathering`, `Flushing` and `Popping` are the states in between, `Popping page held k n s` with
  `k` blocks presented and `n` bytes of the acknowledgements.

  Proved: a page of up to `btxMaxPage` bytes is transferred, and a larger one discarded, just if
  its last frame has data and the page does not have `btxMaxPage` bytes (`page_transfer`). A frame
  without data is dropped, also a last one, and the end code of the last block of a full page is
  written behind `Page`.
-/

import Divas.Tty.BtxBlocks
import Mathlib.Data.List.Induction

namespace Divas.Tty.Btx

open Divas.Lib.Bytes Divas.Lib.Checks

variable (portXmit : List UInt8 → Bool)

/-! ## The claim about a page -/

def more (data : List UInt8) : Event := .recv (0x04 :: 0x01 :: data)

def last (data : List UInt8) : Event := .recv (0x04 :: 0x00 :: data)

def pushed (ms : List (List UInt8)) (l : List UInt8) : List Event := ms.map more ++ [last l]

/-- The byte at a place of the acknowledgements. -/
def ackByte (p : Nat) : UInt8 := if p % 2 = 0 then ascDle else if p / 2 % 2 = 0 then 0x30 else 0x31

/-- The place after an event, if it is one of a correct client. -/
def acked (p : Nat) : Event → Option Nat
  | .recv _ => some p
  | .write w =>
    if w = [ackByte p] then some (p + 1)
    else if p % 2 = 0 ∧ w = [ackByte p, ackByte (p + 1)] then some (p + 2)
    else none

/-- The screen data that is held, in `btxMaxHold` bytes. -/
def holding (held : List UInt8) : Event → List UInt8
  | .recv (0x01 :: 0x00 :: data) => if held.length + data.length ≤ btxMaxHold then held ++ data else held
  | _ => held

def heldIn (es : List Event) : List UInt8 := es.foldl holding []

/-- The blocks are presented one by one, and behind the last an EOT and what is held. -/
structure Transfers (s : BtxData) (ms : List (List UInt8)) (l : List UInt8) (fs : List (List UInt8)) : Prop where
  going : ∀ es p, es.foldlM acked 0 = some p → p < 2 * (fs.length + 1) →
    ∃ t, run portXmit s (pushed ms l ++ es) = .ok (t, .rxEnqueue eotDleEnq :: (fs.take (p / 2)).map .rxEnqueue)
  finished : ∀ es e p, es.foldlM acked 0 = some p → p < 2 * (fs.length + 1) → acked p e = some (2 * (fs.length + 1)) →
    ∃ t, run portXmit s (pushed ms l ++ es ++ [e]) = .ok (t, .rxEnqueue eotDleEnq :: fs.map .rxEnqueue ++
        .rxEnqueue [ascEot] :: if heldIn es ≠ [] then [.rxEnqueue (heldIn es)] else []) ∧ t = btxUp t

/-- Nothing is presented, and the port is in screen mode again. -/
def Discards (s : BtxData) (ms : List (List UInt8)) (l : List UInt8) : Prop :=
  ∃ t, run portXmit s (pushed ms l) = .ok (t, []) ∧ t = btxUp t

def PageTransfer (s : BtxData) (ms : List (List UInt8)) (l : List UInt8) : Prop :=
  let page := ms.flatten ++ l
  if page.length ≤ btxMaxPage then ∃ fs, Presents page fs ∧ Transfers portXmit s ms l fs else Discards portXmit s ms l

/-! ## Runs -/

variable {portXmit}

theorem run_cons {s t : BtxData} {e : Event} {out : List Out} (h : step portXmit s e = .ok (t, out)) (es : List Event) :
    run portXmit s (e :: es) = (run portXmit t es).map fun r => (r.1, out ++ r.2) := by
  rw [run, h]
  show (run portXmit t es >>= _) = _
  cases run portXmit t es <;> rfl

theorem run_append {s t : BtxData} {as : List Event} {out : List Out} (h : run portXmit s as = .ok (t, out)) (bs : List Event) :
    run portXmit s (as ++ bs) = (run portXmit t bs).map fun r => (r.1, out ++ r.2) := by
  induction as generalizing s out with
  | nil =>
    cases h
    rw [List.nil_append]
    cases run portXmit t bs with
    | error _ => rfl
    | ok _ => rfl
  | cons e as ih =>
    rw [run] at h
    obtain ⟨⟨u, o⟩, hu, h⟩ := bind_eq_ok.mp h
    obtain ⟨⟨v, r⟩, hv, h⟩ := bind_eq_ok.mp h
    cases h
    rw [List.cons_append, run_cons hu, ih hv]
    cases run portXmit t bs with
    | error _ => rfl
    | ok r' =>
      show Except.ok (r'.1, o ++ (r ++ r'.2)) = Except.ok (r'.1, o ++ r ++ r'.2)
      rw [List.append_assoc]

theorem run_single {s t : BtxData} {e : Event} {out : List Out} (h : step portXmit s e = .ok (t, out)) :
    run portXmit s [e] = .ok (t, out) := by
  rw [run_cons h]
  show Except.ok (t, out ++ []) = _
  rw [List.append_nil]

/-- A run in three parts, of which the first hands nothing on. -/
theorem run_snoc {s t u : BtxData} {as : List Event} {e : Event} {o o' : List Out} (h : run portXmit s as = .ok (t, o))
    (he : step portXmit t e = .ok (u, o')) : run portXmit s (as ++ [e]) = .ok (u, o ++ o') := by
  rw [run_append h, run_single he]
  rfl

variable (portXmit)

/-! ## The page is saved -/

/-- The bytes of a page are in `Page`. -/
structure Saved (bytes : List UInt8) (s : BtxData) : Prop where
  sizePage : s.sizePage = btxMaxPage
  sizeData : s.sizeData = bytes.length
  page : load s.page 0 bytes.length = bytes
  nextData : s.nextData = 0
  sizeHold : s.sizeHold = 0

inductive Gathering : List UInt8 → BtxData → Prop
  | first {s : BtxData} : s.state = .screen → s.sizePage = btxMaxPage → Gathering [] s
  | next {s : BtxData} {bytes : List UInt8} : s.state = .tdInPush → Saved bytes s → Gathering bytes s

def Flushing (s : BtxData) : Prop := s.state = .tdInFlush ∧ s.sizePage = btxMaxPage

structure Popping (page held : List UInt8) (k n : Nat) (s : BtxData) : Prop where
  state : s.state = .tdInPop
  sizePage : s.sizePage = btxMaxPage
  nextAck : s.nextAck = n
  saved : load s.page 0 page.length = page
  sizeData : s.sizeData = if k < blocks page then page.length else 0
  nextData : s.nextData = if k < blocks page then 256 * k else 0
  sizeHold : s.sizeHold = held.length
  room : held.length ≤ btxMaxHold
  hold : load s.hold 0 held.length = held

/-- A frame without data is dropped. -/
theorem step_empty (s : BtxData) (a b : UInt8) : step portXmit s (.recv [a, b]) = .ok (s, []) := rfl

theorem load_store_append {m : Mem} {as bs : List UInt8} (h : load m 0 as.length = as) :
    load (store m as.length bs) 0 (as ++ bs).length = as ++ bs := by
  have hkeep : load (store m as.length bs) 0 as.length = as := by
    rw [load_store_disjoint m (Or.inl (by omega)), h]
  rw [List.length_append, load_add, hkeep, Nat.zero_add, load_store_self]

theorem push_fits {s : BtxData} {bytes data : List UInt8} (h : Saved bytes s)
    (hfit : (bytes ++ data).length ≤ btxMaxPage) (hdr : Nat) :
    ∃ t, Saved (bytes ++ data) t ∧ t.state = s.state ∧
      push s hdr data = .ok (if hdr = btxHdrTdLast then ({ t with state := .tdInPop, nextAck := 0 }, [.rxEnqueue eotDleEnq])
        else (t, [])) := by
  have hlen := hfit
  rw [List.length_append] at hlen
  refine ⟨{ s with page := store s.page bytes.length data, sizeData := bytes.length + data.length },
    ⟨h.sizePage, List.length_append.symm, load_store_append h.page, h.nextData, h.sizeHold⟩, rfl, ?_⟩
  unfold push
  rw [h.sizeData, h.sizePage, if_neg (by omega), put_of_le _ hlen, blit_eq_store]
  simp only [ok_bind_ok]
  split <;> rfl

theorem push_overrun {s : BtxData} {bytes data : List UInt8} (h : Saved bytes s)
    (hover : btxMaxPage < (bytes ++ data).length) (hdr : Nat) :
    push s hdr data = .ok ({ s with state := if hdr = btxHdrTdMore then .tdInFlush else .screen }, []) := by
  rw [List.length_append] at hover
  unfold push
  rw [h.sizeData, h.sizePage, if_pos hover]
  rfl

/-- A frame with transparent data is pushed to what is saved. -/
theorem Gathering.step_push {s : BtxData} {bytes data : List UInt8} (h : Gathering bytes s) (hdata : data ≠ []) {a b : UInt8}
    (hhdr : leNat [a, b] = btxHdrTdMore ∨ leNat [a, b] = btxHdrTdLast) :
    ∃ s', s'.state = .tdInPush ∧ Saved bytes s' ∧ step portXmit s (.recv (a :: b :: data)) = push s' (leNat [a, b]) data := by
  have hlen : ¬ (a :: b :: data).length ≤ 2 := by
    have := List.length_pos_iff.mpr hdata
    simp only [List.length_cons]
    omega
  have hpush : ∀ s' : BtxData, btxRecv s (a :: b :: data) maxRnaStreamBuffer
        = (push s' (leNat [a, b]) data >>= fun r => pure (r.1, r.2, [])) →
      step portXmit s (.recv (a :: b :: data)) = push s' (leNat [a, b]) data := by
    intro s' hs'
    unfold step
    simp only [hs']
    cases push s' (leNat [a, b]) data <;> rfl
  cases h with
  | first hstate hsize =>
    refine ⟨{ s with state := .tdInPush, sizeHold := 0, sizeData := 0, nextData := 0 }, rfl,
      ⟨hsize, rfl, rfl, rfl, rfl⟩, hpush _ ?_⟩
    unfold btxRecv
    rw [if_neg hlen, hstate]
    exact if_pos hhdr
  | next hstate hsaved =>
    refine ⟨s, hstate, hsaved, hpush _ ?_⟩
    unfold btxRecv
    rw [if_neg hlen, hstate]
    exact if_pos hhdr

theorem Gathering.more {s : BtxData} {bytes : List UInt8} (h : Gathering bytes s) (hle : bytes.length ≤ btxMaxPage)
    (data : List UInt8) :
    ∃ t, step portXmit s (more data) = .ok (t, []) ∧
      ((bytes ++ data).length ≤ btxMaxPage ∧ Gathering (bytes ++ data) t ∨ btxMaxPage < (bytes ++ data).length ∧ Flushing t) := by
  by_cases hdata : data = []
  · refine ⟨s, by rw [hdata]; rfl, Or.inl ?_⟩
    rw [hdata, List.append_nil]
    exact ⟨hle, h⟩
  · obtain ⟨s', hstate, hsaved, hstep⟩ := h.step_push portXmit hdata (a := 0x04) (b := 0x01) (Or.inl rfl)
    by_cases hfit : (bytes ++ data).length ≤ btxMaxPage
    · obtain ⟨t, ht, htstate, hpush⟩ := push_fits hsaved hfit (leNat [0x04, 0x01])
      rw [if_neg (by decide)] at hpush
      exact ⟨t, hstep.trans hpush, Or.inl ⟨hfit, .next (htstate.trans hstate) ht⟩⟩
    · have hover : btxMaxPage < (bytes ++ data).length := Nat.lt_of_not_le hfit
      have hpush := push_overrun hsaved hover (leNat [0x04, 0x01])
      exact ⟨_, hstep.trans hpush, Or.inr ⟨hover, rfl, hsaved.sizePage⟩⟩

theorem Flushing.more {s : BtxData} (h : Flushing s) (data : List UInt8) : step portXmit s (more data) = .ok (s, []) := by
  cases data with
  | nil => rfl
  | cons d ds =>
    unfold step Btx.more
    simp only [btxRecv, h.1]
    rfl

theorem Flushing.run {s : BtxData} (h : Flushing s) (ms : List (List UInt8)) :
    run portXmit s (ms.map Btx.more) = .ok (s, []) := by
  induction ms with
  | nil => rfl
  | cons m ms ih =>
    rw [List.map_cons, run_cons (h.more portXmit m), ih]
    rfl

/-- The frames before the last one. -/
theorem Gathering.run {s : BtxData} {bytes : List UInt8} (h : Gathering bytes s) (hle : bytes.length ≤ btxMaxPage)
    (ms : List (List UInt8)) : ∃ t, run portXmit s (ms.map Btx.more) = .ok (t, []) ∧
      ((bytes ++ ms.flatten).length ≤ btxMaxPage ∧ Gathering (bytes ++ ms.flatten) t ∨
        btxMaxPage < (bytes ++ ms.flatten).length ∧ Flushing t) := by
  induction ms generalizing s bytes with
  | nil =>
    refine ⟨s, rfl, Or.inl ?_⟩
    rw [List.flatten_nil, List.append_nil]
    exact ⟨hle, h⟩
  | cons m ms ih =>
    obtain ⟨t, ht, hcase⟩ := h.more portXmit hle m
    rw [List.map_cons, List.flatten_cons, ← List.append_assoc]
    rcases hcase with ⟨hfit, hgather⟩ | ⟨hover, hflush⟩
    · obtain ⟨u, hu, hcase⟩ := ih hgather hfit
      refine ⟨u, ?_, hcase⟩
      rw [run_cons ht, hu]
      rfl
    · refine ⟨t, ?_, Or.inr ⟨?_, hflush⟩⟩
      · rw [run_cons ht, hflush.run portXmit ms]
        rfl
      · rw [List.length_append]
        omega

theorem Gathering.last {s : BtxData} {bytes data : List UInt8} (h : Gathering bytes s) (hdata : data ≠ []) :
    ∃ t, ((bytes ++ data).length ≤ btxMaxPage ∧ step portXmit s (last data) = .ok (t, [.rxEnqueue eotDleEnq]) ∧
        Popping (bytes ++ data) [] 0 0 t) ∨
      (btxMaxPage < (bytes ++ data).length ∧ step portXmit s (last data) = .ok (t, []) ∧ t = btxUp t) := by
  obtain ⟨s', hstate, hsaved, hstep⟩ := h.step_push portXmit hdata (a := 0x04) (b := 0x00) (Or.inr rfl)
  by_cases hfit : (bytes ++ data).length ≤ btxMaxPage
  · obtain ⟨t, ht, htstate, hpush⟩ := push_fits hsaved hfit (leNat [0x04, 0x00])
    rw [if_pos (by decide)] at hpush
    have hsome : 0 < blocks (bytes ++ data) := by
      rw [lt_blocks_iff]
      exact List.length_pos_iff.mpr (List.append_ne_nil_of_right_ne_nil _ hdata)
    refine ⟨_, Or.inl ⟨hfit, hstep.trans hpush, ?_⟩⟩
    refine ⟨rfl, ht.sizePage, rfl, ht.page, ?_, ?_, ht.sizeHold, Nat.zero_le _, rfl⟩
    · rw [if_pos hsome]
      exact ht.sizeData
    · rw [if_pos hsome]
      exact ht.nextData
  · have hover : btxMaxPage < (bytes ++ data).length := Nat.lt_of_not_le hfit
    have hpush := push_overrun hsaved hover (leNat [0x04, 0x00])
    refine ⟨_, Or.inr ⟨hover, hstep.trans hpush, ?_⟩⟩
    unfold btxUp
    rw [← hsaved.sizePage]
    rfl

theorem Flushing.last {s : BtxData} {data : List UInt8} (h : Flushing s) (hdata : data ≠ []) :
    step portXmit s (last data) = .ok (btxUp s, []) := by
  cases data with
  | nil => exact absurd rfl hdata
  | cons d ds =>
    unfold step Btx.last btxUp
    simp only [btxRecv, h.1]
    rw [← h.2]
    rfl

/-! ## The page is presented -/

section Present

variable {s : BtxData} {page held : List UInt8} {k n : Nat}

theorem load_part {m : Mem} {bs : List UInt8} (h : load m 0 bs.length = bs) {i n : Nat} (hin : i + n ≤ bs.length) :
    load m i n = (bs.drop i).take n := by
  obtain ⟨r, hr⟩ := Nat.exists_eq_add_of_le hin
  have hsplit : bs = load m 0 i ++ (load m i n ++ load m (i + n) r) := by
    conv_lhs => rw [← h, hr, Nat.add_assoc, load_add, load_add, Nat.zero_add]
  conv_rhs => rw [hsplit]
  rw [List.drop_append_of_le_length (by simp), List.drop_of_length_le (by simp), List.nil_append,
    List.take_append_of_le_length (by simp), List.take_of_length_le (by simp)]

/-- The byte past the chunk is there again. -/
theorem store_back (m : Mem) (i : Nat) (b : UInt8) : store (store m i [b]) i [m i] = m := by
  funext j
  by_cases hj : j = i
  · rw [hj]
    have hin : 0 < [m i].length := by simp
    exact store_inside (store m i [b]) hin
  · have hout : j < i ∨ i + [m i].length ≤ j := by
      simp only [List.length_cons, List.length_nil]
      omega
    rw [store_outside _ hout, store_outside m (by simpa using hout)]

/-- The chunk with the end code behind it. -/
theorem load_patched {m : Mem} (h : load m 0 page.length = page) (hk : k < blocks page) (e : UInt8) :
    load (store m (256 * k + (chunk page k).length) [e]) (256 * k) ((chunk page k).length + 1) = chunk page k ++ [e] := by
  have hlt := (lt_blocks_iff page k).mp hk
  have hlen := length_chunk page k
  have hin : 256 * k + (chunk page k).length ≤ page.length := by
    split at hlen <;> omega
  have hchunk : load m (256 * k) (chunk page k).length = chunk page k := by
    rw [load_part h hin]
    unfold chunk
    rw [List.length_take, List.length_drop]
    by_cases hfull : 256 ≤ page.length - 256 * k
    · rw [Nat.min_eq_left hfull]
    · rw [Nat.min_eq_right (by omega), List.take_of_length_le (by simp), List.take_of_length_le (by simp; omega)]
  rw [load_add, load_store_disjoint m (Or.inl (Nat.le_refl _)), hchunk]
  congr 1
  exact load_store_self m _ [e]

/-- The end code is written inside `Page`. -/
theorem Popping.present_chunk (h : Popping page held k n s) (hk : k < blocks page)
    (hroom : 256 * k + (chunk page k).length < btxMaxPage) :
    ∃ t, present s isdnMaxFrame = .ok (t, [.rxEnqueue (frame page k)]) ∧ Popping page held (k + 1) n t := by
  have hlt := (lt_blocks_iff page k).mp hk
  have hnext := lt_blocks_iff page (k + 1)
  have hlen := length_chunk page k
  have hput : ∀ (m : Mem) (b : UInt8), put btxMaxPage m (256 * k + (chunk page k).length) [b]
      = .ok (store m (256 * k + (chunk page k).length) [b]) := by
    intro m b
    have hin : 256 * k + (chunk page k).length + [b].length ≤ btxMaxPage := hroom
    rw [put_of_le m hin, blit_eq_store]
  have hframe : put isdnMaxFrame (fun _ => 0) 0 (frame page k) = .ok (store (fun _ => 0) 0 (frame page k)) := by
    rw [put_of_le _ (by simpa using frame_length_le page k), blit_eq_store]
  have hchunk : load s.page (256 * k) (chunk page k).length = chunk page k := by
    have := load_patched h.saved hk 0
    rw [load_add, load_store_disjoint s.page (Or.inl (Nat.le_refl _))] at this
    exact (List.append_inj this (by simp)).1
  have hbuild : ∀ e, e = endOf page k → [ascDle, ascStx] ++ doubled (chunk page k) ++ [ascDle, e,
      UInt8.ofBitVec ((crcOf (chunk page k ++ [e])).setWidth 8),
        UInt8.ofBitVec ((crcOf (chunk page k ++ [e]) >>> 8).setWidth 8)] = frame page k := by
    intro e he
    rw [he]
    rfl
  unfold present
  simp only [h.sizeData, h.nextData, if_pos hk, ← hlen]
  rw [if_neg (by split at hlen <;> omega)]
  by_cases hlast : 256 * k + (chunk page k).length ≥ page.length
  · have hend : endOf page k = ascEtx := if_pos (by split at hlen <;> omega)
    have hdone : ¬ k + 1 < blocks page := by
      rw [hnext]
      split at hlen <;> omega
    simp only [if_pos hlast, hput, ok_bind_ok, store_back, load_patched h.saved hk, hchunk, btxCRC16_eq]
    rw [hbuild _ hend.symm, hframe, ok_bind_ok, load_store_self]
    exact ⟨_, rfl, h.state, h.sizePage, h.nextAck, h.saved, (if_neg hdone).symm, (if_neg hdone).symm, h.sizeHold, h.room, h.hold⟩
  · have hend : endOf page k = ascEtb := if_neg (by split at hlen <;> omega)
    have hmore : k + 1 < blocks page := by
      rw [hnext]
      split at hlen <;> omega
    have hfull : 256 * k + (chunk page k).length = 256 * (k + 1) := by
      split at hlen <;> omega
    simp only [if_neg hlast, hput, ok_bind_ok, store_back, load_patched h.saved hk, hchunk, btxCRC16_eq]
    rw [hbuild _ hend.symm, hframe, ok_bind_ok, load_store_self]
    refine ⟨_, rfl, h.state, h.sizePage, h.nextAck, h.saved, ?_, ?_, h.sizeHold, h.room, h.hold⟩
    · exact (if_pos hmore).symm
    · rw [if_pos hmore]
      exact hfull

/-- The end code would be written behind `Page`. -/
theorem Popping.present_full (h : Popping page held k n s) (hk : k < blocks page)
    (hfull : 256 * k + (chunk page k).length = btxMaxPage) : present s isdnMaxFrame = .error .write := by
  have hlt := (lt_blocks_iff page k).mp hk
  have hlen := length_chunk page k
  unfold present
  simp only [h.sizeData, h.nextData, if_pos hk, ← hlen]
  rw [if_neg (by split at hlen <;> omega)]
  have hput : ∀ (m : Mem) (b : UInt8), put btxMaxPage m (256 * k + (chunk page k).length) [b] = .error .write := by
    intro m b
    unfold put
    exact if_neg (by simp [hfull])
  simp only [hput]
  rfl

theorem Popping.present_end (h : Popping page held k n s) (hk : k = blocks page) :
    present s isdnMaxFrame
      = .ok ({ s with state := .screen }, .rxEnqueue [ascEot] :: if held ≠ [] then [.rxEnqueue held] else []) := by
  have hno : ¬ k < blocks page := by omega
  have hheld : s.sizeHold ≠ 0 ↔ held ≠ [] := by
    rw [h.sizeHold]
    exact not_congr List.length_eq_zero_iff
  unfold present
  simp only [h.sizeData, h.nextData, if_neg hno]
  rw [if_pos (by decide)]
  by_cases hne : held = []
  · rw [if_neg (fun hn => hheld.mp hn hne), if_neg (fun hn => hn hne)]
    rfl
  · rw [if_pos (hheld.mpr hne), if_pos hne, h.sizeHold, h.hold]
    rfl

/-! ## Acknowledgements -/

theorem leNat_screen {a b : UInt8} : leNat [a, b] = btxHdrScreen ↔ a = 0x01 ∧ b = 0x00 := by
  have ha := a.toNat_lt
  have hval : leNat [a, b] = a.toNat + 256 * b.toNat := rfl
  rw [hval, show btxHdrScreen = 1 from rfl, ← UInt8.toNat_inj, ← UInt8.toNat_inj, show (0x01 : UInt8).toNat = 1 from rfl,
    show (0x00 : UInt8).toNat = 0 from rfl]
  omega

theorem holding_other {a b : UInt8} (hne : ¬ (a = 0x01 ∧ b = 0x00)) (data : List UInt8) :
    holding held (.recv (a :: b :: data)) = held := by
  unfold holding
  split
  case h_1 heq =>
    cases heq
    exact absurd ⟨rfl, rfl⟩ hne
  case h_2 => rfl

theorem Popping.keep (h : Popping page held k n s) (data : List UInt8) :
    ∃ t, keep s data = .ok t ∧ Popping page (if held.length + data.length ≤ btxMaxHold then held ++ data else held) k n t := by
  unfold Btx.keep
  rw [h.sizeHold]
  by_cases hfit : held.length + data.length ≤ btxMaxHold
  · rw [if_neg (by omega), if_pos hfit, put_of_le _ hfit, blit_eq_store]
    refine ⟨_, rfl, h.state, h.sizePage, h.nextAck, h.saved, h.sizeData, h.nextData, List.length_append.symm, ?_,
      load_store_append h.hold⟩
    rw [List.length_append]
    exact hfit
  · rw [if_pos (by omega), if_neg hfit]
    exact ⟨s, rfl, h⟩

/-- A frame is held if it has screen data that fits, and nothing else happens. -/
theorem Popping.step_recv (h : Popping page held k n s) (data : List UInt8) :
    ∃ t, step portXmit s (.recv data) = .ok (t, []) ∧ Popping page (holding held (.recv data)) k n t := by
  match data with
  | [] => exact ⟨s, rfl, h⟩
  | [a] =>
    refine ⟨s, rfl, ?_⟩
    rw [show holding held (.recv [a]) = held by unfold holding; split <;> simp_all]
    exact h
  | a :: b :: rest =>
    by_cases hscreen : a = 0x01 ∧ b = 0x00
    · obtain ⟨rfl, rfl⟩ := hscreen
      obtain ⟨t, ht, hpop⟩ := h.keep rest
      cases rest with
      | nil =>
        refine ⟨s, rfl, ?_⟩
        rw [show holding held (.recv [0x01, 0x00]) = held by unfold holding; simp]
        exact h
      | cons c cs =>
        refine ⟨t, ?_, hpop⟩
        unfold step
        simp only [btxRecv, h.state]
        have hhdr : leNat (List.take 2 (0x01 :: 0x00 :: c :: cs)) = btxHdrScreen := rfl
        rw [if_neg (by simp), if_pos hhdr]
        simp only [List.drop_succ_cons, List.drop_zero, ht]
        rfl
    · rw [holding_other hscreen]
      refine ⟨s, ?_, h⟩
      unfold step
      simp only [btxRecv, h.state]
      by_cases hlen : (a :: b :: rest).length ≤ 2
      · rw [if_pos hlen]
        rfl
      · have hhdr : ¬ leNat (List.take 2 (a :: b :: rest)) = btxHdrScreen := fun heq => hscreen (leNat_screen.mp heq)
        rw [if_neg hlen, if_neg hhdr]
        rfl

theorem readAt_head (a : UInt8) (as : List UInt8) : readAt (a :: as) 0 = .ok a := rfl

theorem digit_ack {m : Nat} (hm : s.nextAck = m) (hodd : m % 2 = 1) (hlt : m < 65535) (sizeFrame : Nat) :
    digit s [ackByte m] sizeFrame = present { s with nextAck := m + 1 } sizeFrame := by
  have hbyte : ackByte m = (0x30 : UInt8) + UInt8.ofNat ((m >>> 1) &&& 1) := by
    unfold ackByte
    rw [if_neg (by omega), Nat.and_one_is_mod, Nat.shiftRight_eq_div_pow, Nat.pow_one]
    rcases Nat.mod_two_eq_zero_or_one (m / 2) with hz | hz
    · rw [if_pos hz, hz]
      rfl
    · rw [if_neg (by omega), hz]
      rfl
  unfold digit
  rw [readAt_head, ok_bind_ok, hm, if_neg, Nat.mod_eq_of_lt (by omega)]
  intro hbad
  rcases hbad with hbad | hbad
  · exact hbad hbyte
  · exact hbad rfl

/-- A write has one byte of an acknowledgement, or both. -/
theorem acked_write {w : List UInt8} {q : Nat} (h : acked n (.write w) = some q) :
    (w = [ackByte n] ∧ q = n + 1) ∨ (n % 2 = 0 ∧ w = [ackByte n, ackByte (n + 1)] ∧ q = n + 2) := by
  simp only [acked] at h
  split at h
  case isTrue hone =>
    cases h
    exact Or.inl ⟨hone, rfl⟩
  case isFalse =>
    split at h
    case isTrue htwo =>
      cases h
      exact Or.inr ⟨htwo.1, htwo.2, rfl⟩
    case isFalse => cases h

theorem Popping.step_write (h : Popping page held k n s) (hn : n < 65534) {w : List UInt8} {q : Nat}
    (hq : acked n (.write w) = some q) :
    step portXmit s (.write w)
      = if q % 2 = 1 then .ok ({ s with nextAck := q }, []) else present { s with nextAck := q } isdnMaxFrame := by
  unfold step btxWrite
  simp only [h.state, h.nextAck, Nat.and_one_is_mod]
  by_cases heven : n % 2 = 0
  · have hdle : ackByte n = ascDle := if_pos heven
    rw [if_pos heven]
    rcases acked_write hq with ⟨hw, hq⟩ | ⟨-, hw, hq⟩
    · rw [if_pos (show q % 2 = 1 by omega), hw, hq, hdle, readAt_head, ok_bind_ok, if_neg (not_not.mpr rfl),
        if_pos (show [ascDle].length = 1 from rfl), Nat.mod_eq_of_lt (show n + 1 < 65536 by omega)]
      rfl
    · rw [if_neg (show ¬ q % 2 = 1 by omega), hw, hq, hdle, readAt_head, ok_bind_ok, if_neg (not_not.mpr rfl), if_neg (by simp),
        Nat.mod_eq_of_lt (show n + 1 < 65536 by omega)]
      exact digit_ack (m := n + 1) rfl (by omega) (by omega) isdnMaxFrame
  · rw [if_neg heven]
    rcases acked_write hq with ⟨hw, hq⟩ | ⟨hno, -⟩
    · rw [if_neg (show ¬ q % 2 = 1 by omega), hw, hq]
      refine (digit_ack h.nextAck (by omega) (by omega) isdnMaxFrame).trans ?_
      rw [h.state]
    · exact absurd hno heven

/-- With an acknowledgement that is not complete nothing is presented. -/
theorem Popping.half (h : Popping page held k n s) (q : Nat) : Popping page held k q { s with nextAck := q } :=
  ⟨h.state, h.sizePage, rfl, h.saved, h.sizeData, h.nextData, h.sizeHold, h.room, h.hold⟩

end Present

/-! ## The run -/

theorem acked_le {n q : Nat} {e : Event} (h : acked n e = some q) : n ≤ q ∧ q ≤ n + 2 := by
  cases e with
  | recv _ =>
    cases h
    omega
  | write w =>
    rcases acked_write h with ⟨-, hq⟩ | ⟨-, -, hq⟩ <;> omega

/-- A block is presented with the second byte of its acknowledgement. -/
theorem acked_half {n q : Nat} {w : List UInt8} (h : acked n (.write w) = some q) :
    q / 2 = n / 2 + if q % 2 = 1 then 0 else 1 := by
  rcases acked_write h with ⟨-, hq⟩ | ⟨heven, -, hq⟩
  · split <;> omega
  · rw [if_neg (by omega)]
    omega

theorem foldlM_snoc (es : List Event) (e : Event) (n : Nat) :
    (es ++ [e]).foldlM acked n = (es.foldlM acked n).bind fun p => acked p e := by
  rw [List.foldlM_append]
  show (es.foldlM acked n).bind _ = _
  congr 1
  funext p
  exact bind_pure _

/-- The blocks up to `k` are in `Page` with the end codes behind them. -/
def Room (page : List UInt8) (k : Nat) : Prop := page.length < btxMaxPage ∨ 256 * k < btxMaxPage

theorem Popping.run {s : BtxData} {page : List UInt8} (h : Popping page [] 0 0 s) (hpage : page.length ≤ btxMaxPage)
    {es : List Event} {q : Nat}
    (hq : es.foldlM acked 0 = some q) (hlt : q < 2 * (blocks page + 1)) (hroom : Room page (q / 2)) :
    ∃ t, run portXmit s es = .ok (t, (List.range (q / 2)).map fun k => .rxEnqueue (frame page k)) ∧
      Popping page (heldIn es) (q / 2) q t := by
  induction es using List.reverseRecOn generalizing q with
  | nil =>
    cases hq
    exact ⟨s, rfl, h⟩
  | append_singleton es e ih =>
    rw [foldlM_snoc, Option.bind_eq_some_iff] at hq
    obtain ⟨p, hp, hpq⟩ := hq
    have hle := acked_le hpq
    have hblocks : blocks page ≤ 8 := by
      unfold blocks
      unfold btxMaxPage at hpage
      omega
    have hroomp : Room page (p / 2) := by
      rcases hroom with hroom | hroom
      · exact Or.inl hroom
      · exact Or.inr (by omega)
    obtain ⟨t, ht, hpop⟩ := ih hp (by omega) hroomp
    have hheld : heldIn (es ++ [e]) = holding (heldIn es) e := List.foldl_concat ..
    rw [hheld]
    cases e with
    | recv data =>
      cases hpq
      obtain ⟨u, hu, hpop⟩ := hpop.step_recv portXmit data
      refine ⟨u, ?_, hpop⟩
      rw [run_snoc ht hu, List.append_nil]
    | write w =>
      have hhalf := acked_half hpq
      have hstep := hpop.step_write portXmit (by omega) hpq
      by_cases hodd : q % 2 = 1
      · rw [if_pos hodd] at hhalf hstep
        rw [hhalf]
        exact ⟨_, by rw [run_snoc ht hstep, List.append_nil, Nat.add_zero], hpop.half q⟩
      · rw [if_neg hodd] at hhalf hstep
        have hk : p / 2 < blocks page := by omega
        have hlen := length_chunk page (p / 2)
        have hin : 256 * (p / 2) + (chunk page (p / 2)).length < btxMaxPage := by
          have := (lt_blocks_iff page (p / 2)).mp hk
          rcases hroom with hroom | hroom
          · split at hlen <;> omega
          · split at hlen <;> omega
        obtain ⟨u, hu, hpop⟩ := (hpop.half q).present_chunk hk hin
        rw [hhalf]
        refine ⟨u, ?_, hpop⟩
        rw [run_snoc ht (hstep.trans hu), List.range_succ, List.map_append]
        rfl

/-! ## The transfer of a page -/

section Page

variable (s : BtxData) (ms : List (List UInt8)) (l : List UInt8)

theorem gathering_up : Gathering [] (btxUp s) := .first rfl rfl

/-- With data in the last frame the page is presented, or it is discarded. -/
theorem run_pushed (hl : l ≠ []) :
    ((ms.flatten ++ l).length ≤ btxMaxPage ∧
      ∃ t, run portXmit (btxUp s) (pushed ms l) = .ok (t, [.rxEnqueue eotDleEnq]) ∧ Popping (ms.flatten ++ l) [] 0 0 t) ∨
    (btxMaxPage < (ms.flatten ++ l).length ∧ Discards portXmit (btxUp s) ms l) := by
  obtain ⟨t, ht, hcase⟩ := (gathering_up s).run portXmit (Nat.zero_le _) ms
  rw [List.nil_append] at hcase
  rcases hcase with ⟨-, hgather⟩ | ⟨hover, hflush⟩
  · obtain ⟨u, hu⟩ := hgather.last portXmit hl
    rcases hu with ⟨hfit, hu, hpop⟩ | ⟨hover, hu, hup⟩
    · exact Or.inl ⟨hfit, u, run_snoc ht hu, hpop⟩
    · exact Or.inr ⟨hover, u, run_snoc ht hu, hup⟩
  · refine Or.inr ⟨?_, btxUp t, run_snoc ht (hflush.last portXmit hl), rfl⟩
    rw [List.length_append]
    omega

theorem transfers (hl : l ≠ []) (hroom : (ms.flatten ++ l).length < btxMaxPage) :
    Transfers portXmit (btxUp s) ms l (frames (ms.flatten ++ l)) := by
  have hcount : (frames (ms.flatten ++ l)).length = blocks (ms.flatten ++ l) := by
    unfold frames
    rw [List.length_map, List.length_range]
  rcases run_pushed portXmit s ms l hl with ⟨-, t, ht, hpop⟩ | ⟨hover, -⟩
  · constructor
    · intro es p hp hlt
      rw [hcount] at hlt
      obtain ⟨u, hu, -⟩ := hpop.run portXmit (Nat.le_of_lt hroom) hp hlt (Or.inl hroom)
      refine ⟨u, ?_⟩
      rw [run_append ht, hu]
      unfold frames
      rw [← List.map_take, List.take_range, Nat.min_eq_left (by omega), List.map_map]
      rfl
    · intro es e p hp hlt he
      rw [hcount] at hlt he
      obtain ⟨u, hu, hpop⟩ := hpop.run portXmit (Nat.le_of_lt hroom) hp hlt (Or.inl hroom)
      have hle := acked_le he
      have hblocks : blocks (ms.flatten ++ l) ≤ 8 := by
        unfold blocks
        unfold btxMaxPage at hroom
        omega
      cases e with
      | recv data =>
        cases he
        omega
      | write w =>
        have hlast : p / 2 = blocks (ms.flatten ++ l) := by omega
        have hstep := hpop.step_write portXmit (by omega) he
        rw [if_neg (by omega), (hpop.half _).present_end hlast] at hstep
        refine ⟨{ u with nextAck := 2 * (blocks (ms.flatten ++ l) + 1), state := .screen }, ?_, ?_⟩
        · rw [List.append_assoc, run_append ht, run_snoc hu hstep, hlast]
          unfold frames
          rw [List.map_map]
          rfl
        · unfold btxUp
          rw [← hpop.sizePage]
  · omega

/-- A last frame without data is dropped. -/
theorem not_transfer_empty : ¬ PageTransfer portXmit (btxUp s) ms [] := by
  obtain ⟨t, ht, hcase⟩ := (gathering_up s).run portXmit (Nat.zero_le _) ms
  rw [List.nil_append] at hcase
  have hrun : run portXmit (btxUp s) (pushed ms []) = .ok (t, []) := run_snoc ht (step_empty portXmit t 0x04 0x00)
  unfold PageTransfer
  rw [List.append_nil]
  intro h
  rcases hcase with ⟨hfit, -⟩ | ⟨hover, hflush⟩
  · rw [if_pos hfit] at h
    obtain ⟨fs, -, htransfers⟩ := h
    obtain ⟨u, hu⟩ := htransfers.going [] 0 rfl (by omega)
    rw [List.append_nil, hrun] at hu
    cases hu
  · rw [if_neg (by omega)] at h
    obtain ⟨u, hu, hup⟩ := h
    rw [hrun] at hu
    cases hu
    have hstate : t.state = .screen := by
      rw [hup]
      rfl
    rw [hflush.1] at hstate
    cases hstate

/-- Both bytes of some acknowledgements. -/
def acks (n : Nat) : List Event := (List.range n).map fun k => .write [ackByte (2 * k), ackByte (2 * k + 1)]

/-- The end code of the last block of a full page is written behind `Page`. -/
theorem not_transfer_full (hl : l ≠ []) (hfull : (ms.flatten ++ l).length = btxMaxPage) :
    ¬ PageTransfer portXmit (btxUp s) ms l := by
  intro h
  have hblocks : blocks (ms.flatten ++ l) = 8 := by
    unfold blocks
    rw [hfull]
    rfl
  rcases run_pushed portXmit s ms l hl with ⟨hfit, t, ht, hpop⟩ | ⟨hover, -⟩
  · unfold PageTransfer at h
    rw [if_pos hfit] at h
    obtain ⟨fs, hpresents, htransfers⟩ := h
    have hcount := hpresents.length_le
    rw [hfull, show btxMaxPage = 256 * 8 from rfl] at hcount
    have hacks : (acks 7).foldlM acked 0 = some 14 := by decide
    obtain ⟨u, hu, hpop⟩ := hpop.run portXmit hfit hacks (by omega) (Or.inr (by decide))
    have he : acked 14 (.write [ackByte 14, ackByte 15]) = some 16 := by decide
    have hstep := hpop.step_write portXmit (by omega) he
    have hlen := length_chunk (ms.flatten ++ l) 7
    rw [hfull, if_neg (by decide)] at hlen
    rw [if_neg (by omega), (hpop.half 16).present_full (by omega) (by rw [hlen]; rfl)] at hstep
    obtain ⟨v, hv⟩ := htransfers.going (acks 7 ++ [.write [ackByte 14, ackByte 15]]) 16 (by decide) (by omega)
    rw [run_append ht, run_append hu, run, hstep] at hv
    cases hv
  · omega

end Page

/-- A page is transferred, or discarded if it is too large, just if its last frame has data and it
    does not fill `Page`. -/
theorem page_transfer (portXmit : List UInt8 → Bool) (s : BtxData) (ms : List (List UInt8)) (l : List UInt8) :
    PageTransfer portXmit (btxUp s) ms l ↔ l ≠ [] ∧ (ms.flatten ++ l).length ≠ btxMaxPage := by
  constructor
  · intro h
    have hl : l ≠ [] := by
      intro hl
      rw [hl] at h
      exact not_transfer_empty portXmit s ms h
    exact ⟨hl, fun hfull => not_transfer_full portXmit s ms l hl hfull h⟩
  · rintro ⟨hl, hne⟩
    unfold PageTransfer
    by_cases hfit : (ms.flatten ++ l).length ≤ btxMaxPage
    · rw [if_pos hfit]
      exact ⟨frames (ms.flatten ++ l), presents_frames _, transfers portXmit s ms l hl (Nat.lt_of_le_of_ne hfit hne)⟩
    · rw [if_neg hfit]
      rcases run_pushed portXmit s ms l hl with ⟨hfit', -⟩ | ⟨-, h⟩
      · exact absurd hfit' hfit
      · exact h

/-- A port that was not used before. -/
def fresh : BtxData := ⟨.screen, 0, fun _ => 0, 0, 0, 0, fun _ => 0, 0⟩

/-- A full page in frames of 126 bytes, and a page with a last frame that has no data. -/
theorem page_lost :
    ¬ PageTransfer (fun _ => true) (btxUp fresh) (List.replicate 16 (List.replicate 126 0x20)) (List.replicate 32 0x20) ∧
      ¬ PageTransfer (fun _ => true) (btxUp fresh) [List.replicate 126 0x20] [] := by
  refine ⟨not_transfer_full _ fresh _ _ (by decide) ?_, not_transfer_empty _ fresh _⟩
  rw [List.flatten_replicate_replicate, List.length_append, List.length_replicate, List.length_replicate]
  rfl

end Divas.Tty.Btx
