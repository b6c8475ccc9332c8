/-
  Divas.Tty.HdlcLoop — the loop of the HDLC receiver over the bits that are there.

  First what a turn does at a flag, without one, and in the search for one. Then
  `rxTurn_more`: what a turn does with some bits it does with more bits behind them. So the
  loop can be followed on all bits of the line at once: `Reads h s data u` says that with
  the bits `s` the receiver comes to a frame `data`, with `u` left. `rxProcess_none` and
  `rxProcess_some` tell what feeding a byte does to that.
-/

import Mathlib.Data.Nat.Find
import Divas.Tty.HdlcTurn

namespace Divas.Tty

open Divas.Lib.Bits Divas.Lib.Crc Divas.Lib.Stuffing

namespace SoftHdlc

/-! ## The data state -/

theorem flag_length_le {s : List Bool} {i : Nat} (h : flag <+: s.drop i) : i + 8 ≤ s.length := by
  have := h.length_le
  rw [List.length_drop] at this
  have h8 : flag.length = 8 := rfl
  omega

theorem late_not_flag {s : List Bool} (h : lateFlag <+: s) : ¬ flag <+: s.drop 5 := by
  obtain ⟨t, rfl⟩ := h
  intro hf
  obtain ⟨u, hu⟩ := hf
  have : (flag ++ u)[1]? = ((lateFlag ++ t).drop 5)[1]? := by rw [hu]
  simp [flag, lateFlag] at this

theorem rxData_late (h : SoftHdlc) {s : List Bool} (hs : lateFlag <+: s) :
    (h.withBits s).rxData (ofBits 16 s) = (h.withBits s).endOfFrame 9 := by
  have hlen : 14 ≤ s.length := hs.length_le
  have hpat := (lateFlag_word hlen).2 hs
  unfold rxData
  simp only [withBits_residBitCount, hpat]
  by_cases h16 : s.length < 16
  · rw [if_pos h16, if_neg (by omega), if_pos ⟨by omega, trivial⟩]
  · have hfive : ¬ fiveOnes (ofBits 16 s) &&& 0x0fff = 0 := by
      rw [noFive_word (by omega)]
      intro hno
      refine hno 4 (by decide) ?_
      obtain ⟨t, rfl⟩ := hs
      unfold EndOnes
      rw [List.take_append_of_le_length (by decide)]
      decide
    have hsix : fiveOnes (ofBits 16 s) &&& (fiveOnes (ofBits 16 s) <<< 1) ≠ 0 := by
      rw [sixOnes_iff (by omega)]
      refine ⟨12, by decide, ?_⟩
      obtain ⟨t, rfl⟩ := hs
      unfold EndOnes
      rw [List.take_append_of_le_length (by decide)]
      decide
    rw [if_neg h16, if_neg hfive, if_pos hsix, if_pos trivial]

theorem endOnes_flag {s : List Bool} (hs : flag <+: s.drop 5) : EndOnes 6 s 11 := by
  obtain ⟨t, ht⟩ := hs
  have hlen := flag_length_le ⟨t, ht⟩
  unfold EndOnes
  rw [← List.take_append_drop 5 s, ← ht, List.take_append, List.take_of_length_le (by rw [List.length_take]; omega), ones_append,
    List.take_append_of_le_length (by simp [flag]; omega), List.length_take, Nat.min_eq_left (show 5 ≤ s.length by omega)]
  exact Nat.le_refl 6

theorem rxData_flag (h : SoftHdlc) {s : List Bool} (hs : flag <+: s.drop 5) :
    (h.withBits s).rxData (ofBits 16 s) = (h.withBits s).endOfFrame 8 := by
  have hlen := flag_length_le hs
  have hpat := (flag_word (by omega)).2 hs
  have hlate : ¬ (s.length > 13 ∧ ofBits 16 s &&& 0x3fff = 0x1f9f) := by
    intro hl
    exact late_not_flag ((lateFlag_word (by omega)).1 hl.2) hs
  unfold rxData
  simp only [withBits_residBitCount, hpat]
  by_cases h16 : s.length < 16
  · rw [if_pos h16, if_neg (by omega), if_neg hlate, if_pos trivial]
  · have hfive : ¬ fiveOnes (ofBits 16 s) &&& 0x0fff = 0 := by
      rw [noFive_word (by omega)]
      intro hno
      exact hno 11 (by decide) (Nat.le_trans (by decide) (endOnes_flag hs))
    have hsix : fiveOnes (ofBits 16 s) &&& (fiveOnes (ofBits 16 s) <<< 1) ≠ 0 :=
      (sixOnes_iff (by omega)).2 ⟨11, by decide, endOnes_flag hs⟩
    rw [if_neg h16, if_neg hfive, if_pos hsix, if_neg (fun hl => hlate ⟨by omega, hl⟩), if_pos trivial]

theorem rxData_short (h : SoftHdlc) {s : List Bool} (hs : s.length < 16) (hlate : ¬ lateFlag <+: s)
    (hflag : ¬ flag <+: s.drop 5) :
    (h.withBits s).rxData (ofBits 16 s) = .wait (h.withBits s) := by
  have hcount : (h.withBits s).residBitCount = s.length := rfl
  unfold rxData
  rw [if_pos (hcount ▸ hs)]
  by_cases h13 : s.length < 13
  · exact if_pos h13
  · rw [if_neg (hcount ▸ h13), if_neg, if_neg]
    · rw [flag_word (by omega)]
      exact hflag
    · intro hl
      rw [hcount] at hl
      exact hlate ((lateFlag_word (by omega)).1 hl.2)

/-- Leaving the data state after six ones that are no flag. -/
def abort (h : SoftHdlc) : SoftHdlc := { h with rxState := .searchFlag, flagCounter := 0 }

/-- What the receiver does with data and no flag in front. -/
inductive Took (h : SoftHdlc) (s : List Bool) : Turn → Prop
  | plain : NoFive s 12 → Took h s (.eat ((h.gotByte (ofBits 8 (s.drop 5))).withBits s) 8)
  | aborted : Took h s (.eat (h.abort.withBits s) 8)
  | stuffed (b : Byte) (n : Nat) : (∀ p, p < 16 → ¬ EndOnes 6 s p) → n = 9 ∨ n = 10 → Took h s (.eat ((h.gotByte b).withBits s) n)

theorem gotByte_withBits (h : SoftHdlc) (s : List Bool) (b : Byte) : (h.withBits s).gotByte b = (h.gotByte b).withBits s := by
  unfold gotByte
  show (if h.rxMessage.length + 2 < h.rxMessageSize then _ else _) = _
  split <;> rfl

theorem rxData_took (h : SoftHdlc) {s : List Bool} (hs : 16 ≤ s.length) (hlate : ¬ lateFlag <+: s) (hflag : ¬ flag <+: s.drop 5) :
    Took h s ((h.withBits s).rxData (ofBits 16 s)) := by
  by_cases hno : NoFive s 12
  · rw [rxData_plain h hs hno, gotByte_withBits]
    exact Took.plain hno
  · unfold rxData
    simp only [withBits_residBitCount, if_neg (Nat.not_lt.2 hs), if_neg (mt (noFive_word hs).1 hno)]
    split
    · rw [if_neg (mt (lateFlag_word (by omega)).1 hlate), if_neg (mt (flag_word (by omega)).1 hflag)]
      exact Took.aborted
    · rename_i hfew
      have hsix : ∀ p, p < 16 → ¬ EndOnes 6 s p := fun p hp h6 => hfew ((sixOnes_iff hs).2 ⟨p, hp, h6⟩)
      split
      · rw [rxByte_eq, gotByte_withBits]
        exact Took.stuffed _ _ hsix (Or.inl rfl)
      · rw [rxByte_eq, gotByte_withBits]
        exact Took.stuffed _ _ hsix (Or.inr rfl)

/-! ## The search for a flag -/

theorem trailingZeroes_table : ∀ x, x < 256 → ∀ p, p < 8 → x.testBit p = true → (∀ j, j < p → x.testBit j = false) →
    ddalTrailingZeroesTable.getD x 0 = p := by
  have htable : ddalTrailingZeroesTable.drop 1 = (List.range 255).map fun x => (List.range 8).findIdx fun p =>
      (x + 1).testBit p := by
    decide +kernel
  intro x hx p hp hbit hlow
  rcases x with - | x
  · simp at hbit
  · have hdrop : ddalTrailingZeroesTable.getD (x + 1) 0 = (ddalTrailingZeroesTable.drop 1).getD x 0 := by
      simp [List.getD_eq_getElem?_getD]
    have hx' : x < 255 := by omega
    have hfind : (List.range 8).findIdx (fun p => (x + 1).testBit p) = p := by
      rw [List.findIdx_eq (by simpa using hp)]
      simpa using ⟨hbit, hlow⟩
    rw [hdrop, htable, ← hfind]
    simp [List.getD_eq_getElem?_getD, hx']

theorem wordTrailingZeroes_eq {w : BitVec 16} {p : Nat} (hp : w.getLsbD p = true) (hlow : ∀ j, j < p → w.getLsbD j = false) :
    wordTrailingZeroes w = p := by
  have hp16 := BitVec.lt_of_getLsbD hp
  have hlt : (w &&& 0xff).toNat < 256 := by
    rw [BitVec.toNat_and]
    exact Nat.lt_of_le_of_lt Nat.and_le_right (by decide)
  have hmask : ∀ i, i < 16 → (0xff : BitVec 16).getLsbD i = decide (i < 8) := by decide
  unfold wordTrailingZeroes
  by_cases h8 : p < 8
  · have hbit : (w &&& 0xff).toNat.testBit p = true := by
      rw [BitVec.testBit_toNat, BitVec.getLsbD_and, hp, hmask p hp16, decide_eq_true h8]
      rfl
    have hne : w &&& 0xff ≠ 0 := by
      intro hz
      rw [hz] at hbit
      simp at hbit
    rw [if_pos hne]
    refine trailingZeroes_table _ hlt p h8 hbit fun j hj => ?_
    rw [BitVec.testBit_toNat, BitVec.getLsbD_and, hlow j hj, Bool.false_and]
  · have hzero : w &&& 0xff = 0 := (and_low_eq_zero hmask).2 fun i _ hi => hlow i (by omega)
    have hbit : ∀ j, (w >>> 8).toNat.testBit j = w.getLsbD (8 + j) := by
      intro j
      rw [BitVec.testBit_toNat, BitVec.getLsbD_ushiftRight]
    have htable := trailingZeroes_table (w >>> 8).toNat
        (by rw [BitVec.toNat_ushiftRight, Nat.shiftRight_eq_div_pow]; omega) (p - 8)
      (by omega) (by rw [hbit, Nat.add_sub_cancel' (by omega), hp]) fun j hj => by rw [hbit, hlow _ (by omega)]
    rw [if_neg (fun hn => hn hzero), htable]
    omega

/-- Behind a flag that was found. -/
def found (h : SoftHdlc) : SoftHdlc := { h with flagCounter := 0, rxState := .searchData }

theorem searchFlag_wait {h : SoftHdlc} (hst : h.rxState = .searchFlag) {s : List Bool} (hs : s.length < 16) :
    (h.withBits s).rxTurn = .wait (h.withBits s) := by
  unfold rxTurn
  have hst' : (h.withBits s).rxState = .searchFlag := hst
  rw [hst']
  exact if_pos hs

theorem searchFlag_none {h : SoftHdlc} (hst : h.rxState = .searchFlag) {s : List Bool} (hs : 16 ≤ s.length)
    (hno : ∀ j, j ≤ 8 → ¬ flag <+: s.drop j) : (h.withBits s).rxTurn = .eat (h.withBits s) 9 := by
  have hzero : flagEnds (ofBits 16 s) = 0 := by
    refine BitVec.eq_of_getLsbD_eq fun p hp => ?_
    have hp' : (flagEnds (ofBits 16 s)).getLsbD p = false := by
      rw [← Bool.not_eq_true, flagEnds_iff hs hp]
      exact fun hf => hno (p - 6) (by omega) hf.2.2
    exact hp'.trans BitVec.getLsbD_zero.symm
  have hst' : (h.withBits s).rxState = .searchFlag := hst
  unfold rxTurn
  simp only [hst', withBits_word, withBits_residBitCount, if_neg (Nat.not_lt.2 hs), hzero, if_true]

theorem searchFlag_found {h : SoftHdlc} (hst : h.rxState = .searchFlag) {s : List Bool} (hs : 16 ≤ s.length)
    {i : Nat} (hi : i ≤ 8)
    (hflag : flag <+: s.drop i) (hno : ∀ j, j < i → ¬ flag <+: s.drop j) :
      (h.withBits s).rxTurn = .eat (h.found.withBits s) (i + 3) := by
  have hend : (flagEnds (ofBits 16 s)).getLsbD (i + 6) = true := (flagEnds_iff hs (by omega)).2 ⟨by omega, by omega, hflag⟩
  have hlow : ∀ j, j < i + 6 → (flagEnds (ofBits 16 s)).getLsbD j = false := by
    intro j hj
    rw [← Bool.not_eq_true, flagEnds_iff hs (by omega)]
    exact fun hf => hno (j - 6) (by omega) hf.2.2
  have hne : flagEnds (ofBits 16 s) ≠ 0 := by
    intro hz
    rw [hz] at hend
    exact absurd (BitVec.getLsbD_zero.symm.trans hend) (by decide)
  have hst' : (h.withBits s).rxState = .searchFlag := hst
  unfold rxTurn
  simp only [hst', withBits_word, withBits_residBitCount, if_neg (Nat.not_lt.2 hs), if_neg hne, wordTrailingZeroes_eq hend hlow]
  rfl

/-! ## Behind a flag -/

/-- One flag more. -/
def countFlag (h : SoftHdlc) : SoftHdlc := if h.flagCounter < 0x00ff then { h with flagCounter := h.flagCounter + 1 } else h

/-- A message begins. -/
def begun (h : SoftHdlc) : SoftHdlc := { h.beginMessage (maxHdlcFrameLength + 2) with rxCrc := hdlcCrcInit, rxState := .data }

theorem searchData_wait {h : SoftHdlc} (hst : h.rxState = .searchData) {s : List Bool} (hs : s.length < 13) :
    (h.withBits s).rxTurn = .wait (h.withBits s) := by
  have hst' : (h.withBits s).rxState = .searchData := hst
  unfold rxTurn
  rw [hst']
  exact if_pos hs

theorem searchData_flag {h : SoftHdlc} (hst : h.rxState = .searchData) {s : List Bool} (hs : flag <+: s.drop 5) :
    (h.withBits s).rxTurn = .eat (h.countFlag.withBits s) 8 := by
  have hlen := flag_length_le hs
  have hst' : (h.withBits s).rxState = .searchData := hst
  have hcount : (if (h.withBits s).flagCounter < 0x00ff then { h.withBits s with flagCounter := (h.withBits s).flagCounter + 1 }
      else h.withBits s) = h.countFlag.withBits s := by
    unfold countFlag
    show (if h.flagCounter < 0x00ff then _ else _) = _
    split <;> rfl
  unfold rxTurn
  split
  · rename_i heq
    cases hst'.symm.trans heq
  · rw [withBits_word]
    exact ((if_neg (show ¬ s.length < 13 by omega)).trans (if_pos ((flag_word (by omega)).2 hs))).trans
      (congrArg (Turn.eat · 8) hcount)
  · rename_i heq
    cases hst'.symm.trans heq

theorem data_turn {h : SoftHdlc} (hst : h.rxState = .data) (s : List Bool) :
    (h.withBits s).rxTurn = (h.withBits s).rxData (ofBits 16 s) := by
  have hst' : (h.withBits s).rxState = .data := hst
  unfold rxTurn
  simp only [hst', withBits_word]

theorem searchData_begin {h : SoftHdlc} (hst : h.rxState = .searchData) {s : List Bool} (hs : 13 ≤ s.length)
    (hno : ¬ flag <+: s.drop 5) :
    (h.withBits s).rxTurn = (h.begun.withBits s).rxTurn := by
  have hst' : (h.withBits s).rxState = .searchData := hst
  rw [data_turn (h := h.begun) rfl]
  unfold rxTurn
  simp only [hst', withBits_word, withBits_residBitCount, if_neg (Nat.not_lt.2 hs), if_neg (mt (flag_word hs).1 hno)]
  rfl

/-! ## More bits -/

theorem prefix_more {pat s : List Bool} {n : Nat} (t : List Bool) (hs : n + pat.length ≤ s.length) :
    pat <+: (s ++ t).drop n ↔ pat <+: s.drop n := by
  rw [prefix_drop_iff hs, prefix_drop_iff (by simp; omega)]
  refine forall_congr' fun i => imp_congr_right fun hi => ?_
  rw [getD_append_left (by omega)]

/-- The same turn with other bits. -/
def Turn.withBits (s : List Bool) : Turn → Turn
  | .wait h => .wait (h.withBits s)
  | .frame h data => .frame (h.withBits s) data
  | .eat h n => .eat (h.withBits s) n

theorem endOfFrame_withBits (h : SoftHdlc) (s t : List Bool) (n : Nat) :
    (h.withBits t).endOfFrame n = ((h.withBits s).endOfFrame n).withBits t := by
  unfold endOfFrame
  show (if h.rxCrc = hdlcCrcOk ∧ h.rxMessage.length > 2 then _ else _)
    = (if h.rxCrc = hdlcCrcOk ∧ h.rxMessage.length > 2 then _ else _ : Turn).withBits t
  split <;> rfl

theorem rxByte_withBits (h : SoftHdlc) (s t : List Bool) (v : BitVec 16) (n : Nat) :
    (h.withBits t).rxByte v n = ((h.withBits s).rxByte v n).withBits t := by
  rw [rxByte_eq, rxByte_eq, gotByte_withBits, gotByte_withBits]
  rfl

/-- In the data state a turn depends on sixteen bits. -/
theorem rxData_long (h : SoftHdlc) {s t : List Bool} (hs : 16 ≤ s.length) (ht : 16 ≤ t.length) (v : BitVec 16) :
    (h.withBits t).rxData v = ((h.withBits s).rxData v).withBits t := by
  unfold rxData
  rw [if_neg (Nat.not_lt.2 (show 16 ≤ (h.withBits t).residBitCount from ht)),
    if_neg (Nat.not_lt.2 (show 16 ≤ (h.withBits s).residBitCount from hs))]
  dsimp only
  split
  · exact rxByte_withBits h s t v 8
  · split
    · split
      · exact endOfFrame_withBits h s t 9
      · split
        · exact endOfFrame_withBits h s t 8
        · rfl
    · split
      · exact rxByte_withBits h s t _ 9
      · exact rxByte_withBits h s t _ 10

/-- What a turn does with the bits `s` it does with the bits `s ++ t` too. -/
inductive More (s t : List Bool) : Turn → Turn → Prop
  | wait (h : SoftHdlc) {r : Turn} : s.length < 16 → (h.withBits s).rxTurn = .wait (h.withBits s) →
      r = (h.withBits (s ++ t)).rxTurn → More s t (.wait (h.withBits s)) r
  | eat (h : SoftHdlc) (n : Nat) : 3 ≤ n → n ≤ s.length → More s t (.eat (h.withBits s) n) (.eat (h.withBits (s ++ t)) n)
  | frame (h : SoftHdlc) (data : List Byte) : lateFlag <+: s ∨ flag <+: s.drop 5 →
      (h.withBits s).rxTurn = .frame (h.withBits s) data →
        More s t (.frame (h.withBits s) data) (.frame (h.withBits (s ++ t)) data)

theorem more_endOfFrame (h : SoftHdlc) {s : List Bool} (t : List Bool) {n : Nat} (hn : 3 ≤ n) (hs : n ≤ s.length)
    (hflag : lateFlag <+: s ∨ flag <+: s.drop 5) (ht : (h.withBits s).rxTurn = (h.withBits s).endOfFrame n) :
    More s t ((h.withBits s).endOfFrame n) ((h.withBits (s ++ t)).endOfFrame n) := by
  rw [endOfFrame_withBits h s (s ++ t)]
  unfold endOfFrame at ht ⊢
  split
  · rename_i hok
    rw [if_pos hok] at ht
    exact More.frame h _ hflag ht
  · exact More.eat { h with flagCounter := 0, rxState := .searchData } n hn hs

theorem rxData_more {h : SoftHdlc} (hst : h.rxState = .data) (s t : List Bool) :
    More s t ((h.withBits s).rxData (ofBits 16 s)) ((h.withBits (s ++ t)).rxData (ofBits 16 (s ++ t))) := by
  by_cases hlate : lateFlag <+: s
  · have hlen : 14 ≤ s.length := hlate.length_le
    rw [rxData_late h hlate, rxData_late h (hlate.trans (List.prefix_append s t))]
    exact more_endOfFrame h t (by decide) (by omega) (Or.inl hlate) ((data_turn hst s).trans (rxData_late h hlate))
  · by_cases hflag : flag <+: s.drop 5
    · have hlen := flag_length_le hflag
      rw [rxData_flag h hflag, rxData_flag h ((prefix_more t hlen).2 hflag)]
      exact more_endOfFrame h t (by decide) (by omega) (Or.inr hflag) ((data_turn hst s).trans (rxData_flag h hflag))
    · by_cases h16 : s.length < 16
      · rw [rxData_short h h16 hlate hflag]
        exact More.wait h h16 ((data_turn hst s).trans (rxData_short h h16 hlate hflag)) (data_turn hst _).symm
      · have h16' := Nat.not_lt.1 h16
        have htook := rxData_took h h16' hlate hflag
        rw [ofBits_append_left h16', rxData_long h (t := s ++ t) h16' (by rw [List.length_append]; omega)]
        generalize (h.withBits s).rxData (ofBits 16 s) = r at htook ⊢
        cases htook with
        | plain _ => exact More.eat _ 8 (by decide) (by omega)
        | aborted => exact More.eat _ 8 (by decide) (by omega)
        | stuffed b n _ hn => exact More.eat _ n (by omega) (by omega)

theorem rxTurn_more (h : SoftHdlc) (s t : List Bool) : More s t (h.withBits s).rxTurn (h.withBits (s ++ t)).rxTurn := by
  cases hst : h.rxState with
  | searchFlag =>
    by_cases h16 : s.length < 16
    · rw [searchFlag_wait hst h16]
      exact More.wait h h16 (searchFlag_wait hst h16) rfl
    · have h16' := Nat.not_lt.1 h16
      have hmore : ∀ j, j ≤ 8 → (flag <+: (s ++ t).drop j ↔ flag <+: s.drop j) := fun j hj =>
        prefix_more t (Nat.le_trans (Nat.add_le_add_right hj 8) h16')
      have hlong : 16 ≤ (s ++ t).length := by
        rw [List.length_append]
        omega
      by_cases hex : ∃ j, j ≤ 8 ∧ flag <+: s.drop j
      · classical
        obtain ⟨hj, hflag⟩ := Nat.find_spec hex
        have hmin : ∀ j, j < Nat.find hex → ¬ flag <+: s.drop j := fun j hlt hf => Nat.find_min hex hlt ⟨by omega, hf⟩
        rw [searchFlag_found hst h16' hj hflag hmin, searchFlag_found hst hlong hj ((hmore _ hj).2 hflag) fun j hlt => by
          rw [hmore j (by omega)]
          exact hmin j hlt]
        exact More.eat h.found _ (by omega) (by omega)
      · have hno : ∀ j, j ≤ 8 → ¬ flag <+: s.drop j := fun j hj hf => hex ⟨j, hj, hf⟩
        rw [searchFlag_none hst h16' hno, searchFlag_none hst hlong fun j hj => by
          rw [hmore j hj]
          exact hno j hj]
        exact More.eat h 9 (by decide) (by omega)
  | searchData =>
    by_cases h13 : s.length < 13
    · rw [searchData_wait hst h13]
      exact More.wait h (by omega) (searchData_wait hst h13) rfl
    · have hlen : 5 + flag.length ≤ s.length := Nat.not_lt.1 h13
      by_cases hflag : flag <+: s.drop 5
      · rw [searchData_flag hst hflag, searchData_flag hst ((prefix_more t hlen).2 hflag)]
        exact More.eat h.countFlag 8 (by decide) (by omega)
      · rw [searchData_begin hst (Nat.not_lt.1 h13) hflag, searchData_begin hst (by rw [List.length_append]; omega)
          (mt (prefix_more t hlen).1 hflag), data_turn (h := h.begun) rfl, data_turn (h := h.begun) rfl]
        exact rxData_more rfl s t
  | data =>
    rw [data_turn hst, data_turn hst]
    exact rxData_more hst s t

/-! ## The loop -/

/-- With the bits `s` the receiver comes to a frame; `u` is what is left then. -/
inductive Reads : SoftHdlc → List Bool → List Byte → List Bool → Prop
  | frame {h h' : SoftHdlc} {s : List Bool} {data : List Byte} : (h.withBits s).rxTurn = .frame h' data → Reads h s data s
  | eat {h h' : SoftHdlc} {s u : List Bool} {n : Nat} {data : List Byte} : (h.withBits s).rxTurn = .eat (h'.withBits s) n →
      Reads h' (s.drop n) data u → Reads h s data u

theorem rxTurn_eat {h h' : SoftHdlc} {s : List Bool} {n : Nat} (ht : (h.withBits s).rxTurn = .eat h' n) :
    3 ≤ n ∧ n ≤ s.length ∧ h' = h'.withBits s := by
  have hm := rxTurn_more h s []
  rw [ht] at hm
  generalize (h.withBits (s ++ [])).rxTurn = r at hm
  cases hm with
  | eat h'' n h3 hn => exact ⟨h3, hn, rfl⟩

theorem reads_of_turn {h k : SoftHdlc} {s u : List Bool} {data : List Byte} (he : (h.withBits s).rxTurn = (k.withBits s).rxTurn)
    (hr : Reads h s data u) : Reads k s data u := by
  cases hr with
  | frame hf => exact Reads.frame (he ▸ hf)
  | eat ht hr => exact Reads.eat (he ▸ ht) hr

theorem reads_eat {h h' : SoftHdlc} {s : List Bool} {n : Nat} (ht : (h.withBits s).rxTurn = .eat (h'.withBits s) n)
    {data : List Byte} {u : List Bool} : Reads h s data u ↔ Reads h' (s.drop n) data u := by
  constructor
  · intro hr
    cases hr with
    | frame hf =>
      rw [ht] at hf
      cases hf
    | @eat _ k _ _ m _ he hr =>
      rw [ht] at he
      injection he with h1 h2
      subst h2
      have hsame : (k.withBits (s.drop n)).rxTurn = (h'.withBits (s.drop n)).rxTurn :=
        congrArg (fun k => (k.withBits (s.drop n)).rxTurn) h1.symm
      exact reads_of_turn hsame hr
  · exact Reads.eat ht

theorem not_reads_wait {h h' : SoftHdlc} {s u : List Bool} {data : List Byte} (ht : (h.withBits s).rxTurn = .wait h') :
    ¬ Reads h s data u := by
  intro hr
  cases hr with
  | frame hf =>
    rw [ht] at hf
    cases hf
  | eat he _ =>
    rw [ht] at he
    cases he

/-- There is one frame to come to. -/
theorem Reads.unique {h : SoftHdlc} {s u u' : List Bool} {data data' : List Byte} (hr : Reads h s data u)
    (hr' : Reads h s data' u') :
    data = data' ∧ u = u' := by
  induction hr with
  | frame hf =>
    cases hr' with
    | frame hf' =>
      rw [hf] at hf'
      injection hf' with _ h2
      exact ⟨h2, rfl⟩
    | eat he _ =>
      rw [hf] at he
      cases he
  | eat he _ ih => exact ih ((reads_eat he).1 hr')

theorem Reads.length_le {h : SoftHdlc} {s u : List Bool} {data : List Byte} (hr : Reads h s data u) : u.length ≤ s.length := by
  induction hr with
  | frame _ => exact Nat.le_refl _
  | eat _ _ ih =>
    rw [List.length_drop] at ih
    omega

/-- The loop over the bits `s`, with the bits `t` to come. -/
inductive Looped (h : SoftHdlc) (s t : List Bool) : SoftHdlc × Option (List Byte) → Prop
  | waits (k : SoftHdlc) (r : List Bool) : r.length < 16 → (k.withBits r).rxTurn = .wait (k.withBits r) →
      (∀ data u, Reads h (s ++ t) data u ↔ Reads k (r ++ t) data u) → Looped h s t (k.withBits r, none)
  | returns (k : SoftHdlc) (r : List Bool) (data : List Byte) : r.length ≤ s.length → lateFlag <+: r ∨ flag <+: r.drop 5 →
      (k.withBits r).rxTurn = .frame (k.withBits r) data → Reads h (s ++ t) data (r ++ t) → Looped h s t (k.withBits r, some data)

theorem rxLoop_looped {fuel : Nat} (h : SoftHdlc) {s : List Bool} (t : List Bool) (hs : s.length ≤ 32) (hf : s.length < fuel) :
    Looped h s t (rxLoop fuel (h.withBits s)) := by
  induction fuel generalizing h s with
  | zero => omega
  | succ fuel ih =>
    have hm := rxTurn_more h s t
    rw [rxLoop]
    generalize hr : (h.withBits s).rxTurn = r at hm
    generalize hr' : (h.withBits (s ++ t)).rxTurn = r' at hm
    cases hm with
    | wait k hlen hwait hmore =>
      refine Looped.waits k s hlen hwait fun data u => ?_
      exact ⟨reads_of_turn (hr'.trans hmore), reads_of_turn (hr'.trans hmore).symm⟩
    | eat k n h3 hn =>
      have hrest := ih k (s := s.drop n) (by rw [List.length_drop]; omega) (by rw [List.length_drop]; omega)
      have hbits : (k.withBits s).residDataBits >>> n = (k.withBits (s.drop n)).residDataBits := ofBits_ushiftRight hs n
      have hcount : (k.withBits s).residBitCount - n = (k.withBits (s.drop n)).residBitCount := List.length_drop.symm
      have hstep : ∀ data u, Reads h (s ++ t) data u ↔ Reads k (s.drop n ++ t) data u := by
        intro data u
        rw [reads_eat hr', List.drop_append_of_le_length hn]
      show Looped h s t (rxLoop fuel { k.withBits s with residDataBits := _, residBitCount := _ })
      rw [hbits, hcount]
      generalize hres : rxLoop fuel (k.withBits (s.drop n)) = res at hrest
      have hres' : rxLoop fuel { k.withBits s with
          residDataBits := (k.withBits (s.drop n)).residDataBits
          residBitCount := (k.withBits (s.drop n)).residBitCount } = res := hres
      rw [hres']
      cases hrest with
      | waits k' r hlen hwait hreads => exact Looped.waits k' r hlen hwait fun data u => (hstep data u).trans (hreads data u)
      | returns k' r data hlen hflag hframe hreads =>
        rw [List.length_drop] at hlen
        exact Looped.returns k' r data (by omega) hflag hframe ((hstep data _).2 hreads)
    | frame k data hflag hframe =>
      exact Looped.returns k s data (Nat.le_refl _) hflag hframe (Reads.frame hr')

end SoftHdlc

end Divas.Tty
