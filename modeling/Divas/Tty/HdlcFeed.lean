/-
  Divas.Tty.HdlcFeed — bytes fed to the HDLC receiver one after the other.

  What `Reads` says of all bits of a line decides what is returned byte after byte. Proved:
  without a frame to come to nothing is returned (`returned_none`); with one it is returned
  with the byte that has the last bit of the closing flag, and not before
  (`returned_first`); and then it is returned again with the next byte (`rxProcess_again`).
-/

import Divas.Tty.HdlcLoop

namespace Divas.Tty

open Divas.Lib.Bits Divas.Lib.Stuffing

/-- The bits of some bytes, each the least significant bit first. -/
def bits (bs : List Byte) : List Bool := bs.flatMap bitsOf

@[simp] theorem bits_nil : bits [] = [] := rfl

@[simp] theorem bits_cons (b : Byte) (bs : List Byte) : bits (b :: bs) = bitsOf b ++ bits bs := rfl

@[simp] theorem length_bits (bs : List Byte) : (bits bs).length = 8 * bs.length := by
  induction bs with
  | nil => rfl
  | cons b bs ih =>
    rw [bits_cons, List.length_append, length_bitsOf, ih, List.length_cons]
    omega

namespace SoftHdlc

theorem rxProcess_eq (h : SoftHdlc) {s : List Bool} (hs : s.length + 8 < 65536) (b : Byte) :
    (h.withBits s).rxProcess b = rxLoop ((s ++ bitsOf b).length + 1) (h.withBits (s ++ bitsOf b)) := by
  have hlen : (s ++ bitsOf b).length = s.length + 8 := by simp
  have hbits : ofBits 32 s ||| (b.setWidth 32 <<< s.length) = ofBits 32 (s ++ bitsOf b) := ofBits_or b
  have hcount : ((h.withBits s).residBitCount + 8) % 65536 = (s ++ bitsOf b).length := by
    rw [hlen]
    exact Nat.mod_eq_of_lt (show s.length + 8 < 65536 by omega)
  unfold rxProcess
  simp only [hcount]
  show rxLoop _ { h with residDataBits := ofBits 32 s ||| (b.setWidth 32 <<< s.length), residBitCount := _ } = _
  rw [hbits]
  rfl

theorem rxProcess_looped (h : SoftHdlc) {s : List Bool} (hs : s.length < 24) (b : Byte) (t : List Bool) :
    Looped h (s ++ bitsOf b) t ((h.withBits s).rxProcess b) := by
  rw [rxProcess_eq h (by omega)]
  exact rxLoop_looped h t (by simp; omega) (Nat.lt_succ_self _)

/-- Nothing is returned when there is no frame to come to. -/
theorem returned_none {h : SoftHdlc} {s : List Bool} (hs : s.length < 16) (bs : List Byte)
    (hno : ∀ data u, ¬ Reads h (s ++ bits bs) data u) : ∀ o, o ∈ (h.withBits s).returned bs → o = none := by
  induction bs generalizing h s with
  | nil =>
    intro o ho
    cases ho
  | cons b bs ih =>
    have hl := rxProcess_looped h (s := s) (by omega) b (bits bs)
    rw [bits_cons, ← List.append_assoc] at hno
    rw [returned]
    generalize (h.withBits s).rxProcess b = res at hl
    cases hl with
    | waits k r hlen _ hreads =>
      intro o ho
      rcases List.mem_cons.1 ho with rfl | ho
      · rfl
      · exact ih hlen (fun data u hr => hno data u ((hreads data u).2 hr)) o ho
    | returns k r data _ _ _ hreads => exact absurd hreads (hno data _)

/-! ## Where a frame ends -/

theorem rxData_frame {h k : SoftHdlc} {s : List Bool} {data : List Byte}
    (ht : (h.withBits s).rxData (ofBits 16 s) = .frame k data) :
    (lateFlag <+: s ∨ flag <+: s.drop 5) ∧ h.rxCrc = hdlcCrcOk := by
  have hok : ∀ n, (h.withBits s).endOfFrame n = .frame k data → h.rxCrc = hdlcCrcOk := by
    intro n he
    unfold endOfFrame at he
    split at he
    · rename_i hok
      exact hok.1
    · cases he
  by_cases hlate : lateFlag <+: s
  · rw [rxData_late h hlate] at ht
    exact ⟨Or.inl hlate, hok 9 ht⟩
  · by_cases hflag : flag <+: s.drop 5
    · rw [rxData_flag h hflag] at ht
      exact ⟨Or.inr hflag, hok 8 ht⟩
    · by_cases h16 : s.length < 16
      · rw [rxData_short h h16 hlate hflag] at ht
        cases ht
      · have htook := rxData_took h (Nat.not_lt.1 h16) hlate hflag
        rw [ht] at htook
        cases htook

theorem rxTurn_frame {h k : SoftHdlc} {s : List Bool} {data : List Byte} (ht : (h.withBits s).rxTurn = .frame k data) :
    h.rxState = .data ∧ (lateFlag <+: s ∨ flag <+: s.drop 5) := by
  cases hst : h.rxState with
  | searchFlag =>
    by_cases h16 : s.length < 16
    · rw [searchFlag_wait hst h16] at ht
      cases ht
    · by_cases hex : ∃ j, j ≤ 8 ∧ flag <+: s.drop j
      · classical
        obtain ⟨hj, hflag⟩ := Nat.find_spec hex
        rw [searchFlag_found hst (Nat.not_lt.1 h16) hj hflag fun j hlt hf => Nat.find_min hex hlt ⟨by omega, hf⟩] at ht
        cases ht
      · rw [searchFlag_none hst (Nat.not_lt.1 h16) fun j hj hf => hex ⟨j, hj, hf⟩] at ht
        cases ht
  | searchData =>
    by_cases h13 : s.length < 13
    · rw [searchData_wait hst h13] at ht
      cases ht
    · by_cases hflag : flag <+: s.drop 5
      · rw [searchData_flag hst hflag] at ht
        cases ht
      · rw [searchData_begin hst (Nat.not_lt.1 h13) hflag, data_turn (h := h.begun) rfl] at ht
        exact absurd (rxData_frame ht).2 (show ¬ hdlcCrcInit = hdlcCrcOk by decide)
  | data =>
    rw [data_turn hst] at ht
    exact ⟨rfl, (rxData_frame ht).1⟩

/-- The bits up to the end of the closing flag. -/
def closing (s : List Bool) : Nat := if flag <+: s.drop 5 then 13 else 14

theorem closing_le {s : List Bool} (hs : lateFlag <+: s ∨ flag <+: s.drop 5) (t : List Bool) : closing (s ++ t) ≤ s.length := by
  unfold closing
  rcases hs with hlate | hflag
  · have hlen : 14 ≤ s.length := hlate.length_le
    split <;> omega
  · have hlen := flag_length_le hflag
    rw [if_pos ((prefix_more t hlen).2 hflag)]
    omega

/-- A frame is there as soon as its closing flag is. -/
theorem frame_prefix {h k : SoftHdlc} {s t : List Bool} {data : List Byte} (ht : (h.withBits (s ++ t)).rxTurn = .frame k data)
    (hs : closing (s ++ t) ≤ s.length) : ∃ k', (h.withBits s).rxTurn = .frame k' data := by
  obtain ⟨hst, hpat⟩ := rxTurn_frame ht
  have hback : ∀ n, (h.withBits (s ++ t)).endOfFrame n = .frame k data → ∃ k', (h.withBits s).endOfFrame n = .frame k' data := by
    intro n he
    rw [endOfFrame_withBits h (s ++ t) s, he]
    exact ⟨_, rfl⟩
  rw [data_turn hst] at ht ⊢
  unfold closing at hs
  by_cases hflag : flag <+: (s ++ t).drop 5
  · rw [if_pos hflag] at hs
    rw [rxData_flag h hflag] at ht
    rw [rxData_flag h ((prefix_more t hs).1 hflag)]
    exact hback 8 ht
  · rw [if_neg hflag] at hs
    have hlate : lateFlag <+: s ++ t := hpat.resolve_right hflag
    have hlate' : lateFlag <+: s := List.prefix_of_prefix_length_le hlate (List.prefix_append s t) hs
    rw [rxData_late h hlate] at ht
    rw [rxData_late h hlate']
    exact hback 9 ht

theorem Reads.closing_le {h : SoftHdlc} {s u : List Bool} {data : List Byte} (hr : Reads h s data u) : closing u ≤ u.length := by
  induction hr with
  | @frame _ _ s _ hf =>
    have := SoftHdlc.closing_le (rxTurn_frame hf).2 []
    rwa [List.append_nil] at this
  | eat _ _ ih => exact ih

/-- A receiver that waits does not have the closing flag. -/
theorem waits_before {h : SoftHdlc} {s t u : List Bool} {data : List Byte} (hlen : s.length < 16)
    (hwait : (h.withBits s).rxTurn = .wait (h.withBits s)) (hr : Reads h (s ++ t) data u) : u.length - closing u < t.length := by
  by_contra hge
  have hu := hr.closing_le
  cases hr with
  | frame hf =>
    rw [List.length_append] at hge hu
    obtain ⟨k, hk⟩ := frame_prefix hf (by omega)
    rw [hwait] at hk
    cases hk
  | eat he hr =>
    have hthree := (rxTurn_eat he).1
    have hle := hr.length_le
    have hthirteen : 13 ≤ closing u := by
      unfold closing
      split <;> decide
    rw [List.length_drop, List.length_append] at hle
    omega

/-- The frame is returned with the byte that ends its closing flag, and nothing before. -/
theorem returned_first {h : SoftHdlc} {s u : List Bool} (bs : List Byte) {data : List Byte} (hs : s.length < 16)
    (hr : Reads h (s ++ bits bs) data u) (hu : u.length - closing u < (bits bs).length) :
    ∃ (pre post : List Byte) (b : Byte) (k : SoftHdlc) (r : List Bool), bs = pre ++ b :: post ∧
      post.length = (u.length - closing u) / 8 ∧
      13 ≤ r.length ∧ r.length < 24 ∧ (k.withBits r).rxTurn = .frame (k.withBits r) data ∧
      (h.withBits s).returned bs = List.replicate pre.length none ++ some data :: (k.withBits r).returned post ∧
      (h.withBits s).after (pre ++ [b]) = k.withBits r := by
  induction bs generalizing h s with
  | nil => exact absurd hu (Nat.not_lt_zero _)
  | cons b bs ih =>
    have hl := rxProcess_looped h (s := s) (by omega) b (bits bs)
    rw [bits_cons, ← List.append_assoc] at hr
    generalize hres : (h.withBits s).rxProcess b = res at hl
    cases hl with
    | waits k r hlen hwait hreads =>
      have hr' := (hreads data u).1 hr
      obtain ⟨pre, post, c, k', r', hbs, hpost, h13, hr24, hframe, hret, haft⟩ := ih hlen hr' (waits_before hlen hwait hr')
      refine ⟨b :: pre, post, c, k', r', by rw [hbs, List.cons_append], hpost, h13, hr24, hframe, ?_, ?_⟩
      · rw [returned, hres]
        show none :: (k.withBits r).returned bs = _
        rw [hret]
        rfl
      · rw [List.cons_append, after, hres]
        exact haft
    | returns k r data' hlen hflag hframe hreads =>
      obtain ⟨rfl, rfl⟩ := hr.unique hreads
      have hclose := closing_le hflag (bits bs)
      have hlen' : (bits (b :: bs)).length = (bits bs).length + 8 := by
        rw [bits_cons, List.length_append, length_bitsOf, Nat.add_comm]
      have h13 : 13 ≤ closing (r ++ bits bs) := by
        unfold closing
        split <;> decide
      rw [List.length_append, length_bitsOf] at hlen
      refine ⟨[], bs, b, k, r, rfl, ?_, by omega, by omega, hframe, ?_, ?_⟩
      · rw [hlen', List.length_append] at hu
        rw [List.length_append]
        rw [length_bits] at *
        omega
      · rw [returned, hres]
        rfl
      · rw [List.nil_append, after, hres]
        rfl

/-- After it has been returned a frame is returned again, and no bit is used up. -/
theorem rxProcess_again {h : SoftHdlc} {s : List Bool} {data : List Byte} (hs : s.length + 8 < 65536)
    (hf : (h.withBits s).rxTurn = .frame (h.withBits s) data) (b : Byte) :
    (h.withBits s).rxProcess b = (h.withBits (s ++ bitsOf b), some data) ∧
    (h.withBits (s ++ bitsOf b)).rxTurn = .frame (h.withBits (s ++ bitsOf b)) data := by
  have hm := rxTurn_more h s (bitsOf b)
  rw [hf] at hm
  generalize hr : (h.withBits (s ++ bitsOf b)).rxTurn = r at hm
  generalize hw : h.withBits s = w at hm
  generalize hd : Turn.frame w data = f at hm
  cases hm with
  | wait k _ _ _ => cases hd
  | eat k n _ _ => cases hd
  | frame k data' hflag hframe =>
    injection hd with h1 h2
    have hk : k.withBits (s ++ bitsOf b) = h.withBits (s ++ bitsOf b) :=
      congrArg (fun x => x.withBits (s ++ bitsOf b)) (h1.symm.trans hw.symm)
    rw [← hw, rxProcess_eq h hs b, rxLoop, hr, hk, ← h2]
    exact ⟨rfl, rfl⟩

end SoftHdlc

end Divas.Tty
