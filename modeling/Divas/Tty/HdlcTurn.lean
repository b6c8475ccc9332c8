/-
  Divas.Tty.HdlcTurn — a turn of the HDLC receiver, in terms of the bits it has.

  `h.withBits s` is the receiver `h` with the bits `s`, the oldest first. The word tricks of
  the source are read here as statements about lists: where a flag is, where five or six
  ones end, and that taking stuffed zeros out of the word gives the byte that was sent
  (`rxData_sent`). What a turn does with the bits that are there it does with more of them
  too (`rxTurn_more`).
-/

import Divas.Lib.Bits
import Divas.Lib.Crc
import Divas.Lib.Stuffing
import Divas.Tty.Hdlc

namespace Divas.Tty

open Divas.Lib.Bits Divas.Lib.Crc Divas.Lib.Stuffing

namespace SoftHdlc

def withBits (h : SoftHdlc) (s : List Bool) : SoftHdlc := { h with residDataBits := ofBits 32 s, residBitCount := s.length }

@[simp] theorem withBits_withBits (h : SoftHdlc) (s t : List Bool) : (h.withBits s).withBits t = h.withBits t := rfl

@[simp] theorem withBits_residBitCount (h : SoftHdlc) (s : List Bool) : (h.withBits s).residBitCount = s.length := rfl

theorem withBits_word (h : SoftHdlc) (s : List Bool) : (h.withBits s).residDataBits.setWidth 16 = ofBits 16 s :=
  setWidth_ofBits (by decide) s

/-! ## Words -/

theorem and_low_eq_zero {w m : BitVec 16} {k : Nat} (hm : ∀ i, i < 16 → m.getLsbD i = decide (i < k)) :
    w &&& m = 0 ↔ ∀ i, i < 16 → i < k → w.getLsbD i = false := by
  rw [BitVec.eq_of_getLsbD_eq_iff]
  constructor
  · intro h i hi hk
    have := h i hi
    rw [BitVec.getLsbD_and, hm i hi, decide_eq_true hk, Bool.and_true] at this
    exact this.trans BitVec.getLsbD_zero
  · intro h i hi
    rw [BitVec.getLsbD_and, hm i hi]
    refine Eq.trans ?_ BitVec.getLsbD_zero.symm
    by_cases hk : i < k
    · rw [h i hi hk, Bool.false_and]
    · rw [decide_eq_false hk, Bool.and_false]

/-- A mask and a value look for a pattern at a place. -/
theorem and_eq_iff {m q : BitVec 16} {s : List Bool} (lo : Nat) (pat : List Bool) (hlen : lo + pat.length ≤ 16)
    (hs : lo + pat.length ≤ s.length)
    (hm : ∀ i, i < 16 → m.getLsbD i = decide (lo ≤ i ∧ i < lo + pat.length))
    (hq : ∀ i, i < 16 → q.getLsbD i = (decide (lo ≤ i) && pat.getD (i - lo) false)) :
    ofBits 16 s &&& m = q ↔ pat <+: s.drop lo := by
  rw [prefix_drop_iff hs, BitVec.eq_of_getLsbD_eq_iff]
  constructor
  · intro h i hi
    have := h (lo + i) (by omega)
    rwa [BitVec.getLsbD_and, hm _ (by omega), hq _ (by omega), getLsbD_ofBits_lt (by omega), decide_eq_true ⟨by omega, by omega⟩,
      decide_eq_true (by omega), Bool.and_true, Bool.true_and, Nat.add_sub_cancel_left] at this
  · intro h i hi
    rw [BitVec.getLsbD_and, hm i hi, hq i hi, getLsbD_ofBits_lt hi]
    by_cases hlo : lo ≤ i
    · by_cases hup : i < lo + pat.length
      · have := h (i - lo) (by omega)
        rw [Nat.add_sub_cancel' hlo] at this
        rw [decide_eq_true ⟨hlo, hup⟩, decide_eq_true hlo, Bool.and_true, Bool.true_and, this]
      · rw [decide_eq_false (by omega), Bool.and_false, getD_of_length_le (by omega), Bool.and_false]
    · rw [decide_eq_false (by omega), decide_eq_false hlo, Bool.and_false, Bool.false_and]

theorem flag_word {s : List Bool} (hs : 13 ≤ s.length) : ofBits 16 s &&& 0x1fe0 = 0x0fc0 ↔ flag <+: s.drop 5 :=
  and_eq_iff 5 flag (by decide) hs (by decide) (by decide)

/-- The stuffed zero between the last five ones of a frame and the flag. -/
def lateFlag : List Bool := [true, true, true, true, true, false] ++ flag

theorem lateFlag_word {s : List Bool} (hs : 14 ≤ s.length) : ofBits 16 s &&& 0x3fff = 0x1f9f ↔ lateFlag <+: s :=
  and_eq_iff 0 lateFlag (by decide) hs (by decide) (by decide)

theorem fiveOnes_marks (v : BitVec 16) : Marks 5 v (fiveOnes v) :=
  (((marks_one v).shift (by decide : 1 ≤ 1)).shift (by decide : 2 ≤ 2)).shift (by decide : 1 ≤ 4)

/-- `k` ones end at place `p`. -/
def EndOnes (k : Nat) (s : List Bool) (p : Nat) : Prop := k ≤ ones 0 (s.take (p + 1))

theorem endOnes_iff {s : List Bool} {k p : Nat} (hp : p < 16) (hs : 16 ≤ s.length) :
    EndOnes k s p ↔ k ≤ p + 1 ∧ ∀ j, j < k → (ofBits 16 s).getLsbD (p - j) = true := by
  unfold EndOnes
  rw [le_ones_take (by omega)]
  refine and_congr_right fun _ => forall_congr' fun j => imp_congr_right fun _ => ?_
  rw [getLsbD_ofBits_lt (by omega)]

theorem fiveOnes_iff {s : List Bool} {p : Nat} (hs : 16 ≤ s.length) (hp : p < 16) :
    (fiveOnes (ofBits 16 s)).getLsbD p = true ↔ EndOnes 5 s p := by
  rw [fiveOnes_marks _ p hp, endOnes_iff hp hs]

theorem sixOnes_iff {s : List Bool} (hs : 16 ≤ s.length) :
    fiveOnes (ofBits 16 s) &&& (fiveOnes (ofBits 16 s) <<< 1) ≠ 0 ↔ ∃ p, p < 16 ∧ EndOnes 6 s p := by
  have hsix : ∀ p, p < 16 →
      ((fiveOnes (ofBits 16 s) &&& (fiveOnes (ofBits 16 s) <<< 1)).getLsbD p = true ↔ EndOnes 6 s p) := by
    intro p hp
    rw [(fiveOnes_marks _).shift (by decide : 1 ≤ 5) p hp, endOnes_iff hp hs]
  constructor
  · intro h
    by_contra hno
    refine h (BitVec.eq_of_getLsbD_eq fun p hp => ?_)
    have hno6 : (fiveOnes (ofBits 16 s) &&& (fiveOnes (ofBits 16 s) <<< 1)).getLsbD p = false :=
      Bool.eq_false_iff.2 fun h6 => hno ⟨p, hp, (hsix p hp).1 h6⟩
    exact hno6.trans BitVec.getLsbD_zero.symm
  · intro h hz
    obtain ⟨p, hp, h6⟩ := h
    rw [← hsix p hp, hz] at h6
    exact absurd h6 (by simp)

/-- No five ones end below place `k`. -/
def NoFive (s : List Bool) (k : Nat) : Prop := ∀ p, p < k → ¬ EndOnes 5 s p

theorem noFive_word {s : List Bool} (hs : 16 ≤ s.length) : fiveOnes (ofBits 16 s) &&& 0x0fff = 0 ↔ NoFive s 12 := by
  rw [and_low_eq_zero (k := 12) (by decide)]
  constructor
  · intro h p hp
    rw [← fiveOnes_iff hs (by omega), h p (by omega) hp]
    decide
  · intro h p hp hk
    rw [← Bool.not_eq_true, fiveOnes_iff hs hp]
    exact h p hk

theorem flagEnds_word (v : BitVec 16) {p : Nat} (hp : p < 16) :
    (flagEnds v).getLsbD p = true ↔
      6 ≤ p ∧ p ≤ 14 ∧ v.getLsbD (p - 6) = false ∧ (∀ j, j < 6 → v.getLsbD (p - j) = true) ∧ v.getLsbD (p + 1) = false := by
  have hmask : ∀ i, i < 16 → ((v &&& 0x7ffe).getLsbD i = true ↔ 1 ≤ i ∧ i ≤ 14 ∧ v.getLsbD i = true) := by
    have h : ∀ i, i < 16 → (0x7ffe : BitVec 16).getLsbD i = decide (1 ≤ i ∧ i ≤ 14) := by decide
    intro i hi
    rw [BitVec.getLsbD_and, h i hi]
    simp only [Bool.and_eq_true, decide_eq_true_eq]
    exact ⟨fun h => ⟨h.2.1, h.2.2, h.1⟩, fun h => ⟨h.2.2, h.1, h.2.1⟩⟩
  have hnext : (((~~~(v.setWidth 32)).sshiftRight 1).setWidth 16).getLsbD p = !v.getLsbD (p + 1) := by
    rw [BitVec.getLsbD_setWidth, BitVec.getLsbD_sshiftRight, BitVec.getLsbD_not, BitVec.getLsbD_setWidth, Nat.add_comm 1 p]
    simp [hp, show p + 1 < 32 by omega, show p < 32 by omega]
  have hsix := ((marks_one (v &&& 0x7ffe)).shift (by decide : 1 ≤ 1)).shift (by decide : 2 ≤ 2) |>.shift
      (by decide : 2 ≤ 4) |> (· p hp)
  unfold flagEnds
  rw [BitVec.getLsbD_and, BitVec.getLsbD_and, hnext, Bool.and_eq_true, Bool.and_eq_true, hsix, BitVec.getLsbD_shiftLeft,
    BitVec.getLsbD_not]
  simp only [Bool.and_eq_true, decide_eq_true_eq, Bool.not_eq_true', decide_eq_false_iff_not]
  constructor
  · intro h
    obtain ⟨⟨⟨h1, h2⟩, ⟨_, h3⟩, _, h4⟩, h5⟩ := h
    have htop := (hmask p hp).1 (h2 0 (by decide))
    exact ⟨by omega, htop.2.1, h4, fun j hj => ((hmask (p - j) (by omega)).1 (h2 j hj)).2.2, h5⟩
  · intro h
    obtain ⟨h6, h14, hfirst, hones, hlast⟩ := h
    refine ⟨⟨⟨by omega, fun j hj => ?_⟩, ⟨hp, by omega⟩, by omega, hfirst⟩, hlast⟩
    exact (hmask (p - j) (by omega)).2 ⟨by omega, by omega, hones j hj⟩

/-- Where a flag has its last one. -/
theorem flagEnds_iff {s : List Bool} (hs : 16 ≤ s.length) {p : Nat} (hp : p < 16) :
    (flagEnds (ofBits 16 s)).getLsbD p = true ↔ 6 ≤ p ∧ p ≤ 14 ∧ flag <+: s.drop (p - 6) := by
  rw [flagEnds_word _ hp]
  refine and_congr_right fun h6 => and_congr_right fun h14 => ?_
  rw [prefix_drop_iff (show p - 6 + flag.length ≤ s.length by simp [flag]; omega), getLsbD_ofBits_lt (by omega),
    getLsbD_ofBits_lt (by omega)]
  constructor
  · intro h i hi
    obtain ⟨h0, h1, h7⟩ := h
    rcases show i = 0 ∨ i = 7 ∨ (1 ≤ i ∧ i ≤ 6) by simp [flag] at hi; omega with rfl | rfl | hmid
    · exact h0
    · rw [show p - 6 + 7 = p + 1 by omega]
      exact h7
    · have hone := h1 (6 - i) (by omega)
      rw [getLsbD_ofBits_lt (by omega), show p - (6 - i) = p - 6 + i by omega] at hone
      rw [hone]
      rcases show i = 1 ∨ i = 2 ∨ i = 3 ∨ i = 4 ∨ i = 5 ∨ i = 6 by omega with rfl | rfl | rfl | rfl | rfl | rfl <;> rfl
  · intro h
    refine ⟨h 0 (by decide), fun j hj => ?_, ?_⟩
    · have hone := h (6 - j) (by simp [flag]; omega)
      rw [show p - 6 + (6 - j) = p - j by omega] at hone
      rw [getLsbD_ofBits_lt (by omega), hone]
      rcases show j = 0 ∨ j = 1 ∨ j = 2 ∨ j = 3 ∨ j = 4 ∨ j = 5 by omega with rfl | rfl | rfl | rfl | rfl | rfl <;> rfl
    · have hlast := h 7 (by decide)
      rw [show p - 6 + 7 = p + 1 by omega] at hlast
      exact hlast

/-! ## The checksum -/

def fcsPoly : BitVec 16 := 0x8408

theorem crcTable_eq : ∀ i, i < 256 → ddalHdlcCrcTable.getD i 0 = shifts fcsPoly 8 (BitVec.ofNat 16 i) := by
  have htable : ddalHdlcCrcTable = (List.range 256).map fun i => shifts fcsPoly 8 (BitVec.ofNat 16 i) := by decide +kernel
  intro i hi
  rw [htable]
  simp [List.getD_eq_getElem?_getD, hi]

theorem rxCrc_eq (c w : BitVec 16) :
    (c >>> 8) ^^^ ddalHdlcCrcTable.getD ((c ^^^ w) &&& 0xff).toNat 0 = crcByte fcsPoly c (w.setWidth 8) :=
  table_crcByte crcTable_eq c w

/-! ## A byte of data -/

/-- What a byte does to the receiver. -/
def gotByte (h : SoftHdlc) (b : Byte) : SoftHdlc :=
  if h.rxMessage.length + 2 < h.rxMessageSize then { h with rxCrc := crcByte fcsPoly h.rxCrc b, rxMessage := h.rxMessage ++ [b] }
  else { h with rxCrc := crcByte fcsPoly h.rxCrc b, rxState := .searchFlag }

theorem rxByte_eq (h : SoftHdlc) (v : BitVec 16) (n : Nat) : h.rxByte v n = .eat (h.gotByte ((v >>> (n - 3)).setWidth 8)) n := by
  unfold rxByte gotByte
  simp only [rxCrc_eq]
  split <;> rfl

theorem rxByte_bits (h : SoftHdlc) {s : List Bool} {n : Nat} (hn : n ≤ 11) :
    h.rxByte (ofBits 16 s) n = .eat (h.gotByte (ofBits 8 (s.drop (n - 3)))) n := by
  rw [rxByte_eq]
  congr 2
  refine BitVec.eq_of_getLsbD_eq fun i hi => ?_
  rw [BitVec.getLsbD_setWidth, BitVec.getLsbD_ushiftRight, getLsbD_ofBits_lt (by omega), getLsbD_ofBits_lt hi, getD_drop,
    decide_eq_true hi, Bool.true_and]

theorem rxData_plain (h : SoftHdlc) {s : List Bool} (hs : 16 ≤ s.length) (hno : NoFive s 12) :
    (h.withBits s).rxData (ofBits 16 s) = .eat ((h.withBits s).gotByte (ofBits 8 (s.drop 5))) 8 := by
  unfold rxData
  rw [if_neg (by simpa using hs)]
  simp only [(noFive_word hs).2 hno, if_true]
  exact rxByte_bits _ (by decide)

/-- The mask of the lowest place where five ones end. -/
theorem lowMask_five {s : List Bool} (hs : 16 ≤ s.length) {p : Nat} (hp : p < 16) (hfive : EndOnes 5 s p)
    (hno : NoFive s p) (i : Nat) :
    (fiveOnes (ofBits 16 s) ^^^ (fiveOnes (ofBits 16 s) - 1)).getLsbD i = decide (i ≤ p) := by
  refine getLsbD_lowMask ((fiveOnes_iff hs hp).2 hfive) (fun j hj => ?_) i
  rw [← Bool.not_eq_true, fiveOnes_iff hs (by omega)]
  exact hno j hj

/-- The places behind `n` where five ones end. -/
def laterFives (v : BitVec 16) : BitVec 16 := fiveOnes v &&& ~~~(fiveOnes v ^^^ (fiveOnes v - 1))

theorem laterFives_iff {s : List Bool} (hs : 16 ≤ s.length) {p : Nat} (hp : p < 16) (hfive : EndOnes 5 s p) (hno : NoFive s p)
    {i : Nat} (hi : i < 16) : (laterFives (ofBits 16 s)).getLsbD i = true ↔ p < i ∧ EndOnes 5 s i := by
  unfold laterFives
  rw [BitVec.getLsbD_and, BitVec.getLsbD_not, lowMask_five hs hp hfive hno, Bool.and_eq_true, fiveOnes_iff hs hi]
  simp [hi, and_comm]

/-- The first stuffed zero, behind `as`, is taken out. -/
theorem rxData_first (h : SoftHdlc) {as bs : List Bool} (hs : 16 ≤ (as ++ false :: bs).length) (ha : 0 < as.length)
    (ha' : as.length ≤ 12) (hfive : EndOnes 5 (as ++ false :: bs) (as.length - 1))
      (hno : NoFive (as ++ false :: bs) (as.length - 1))
    (hsix : ∀ p, p < 16 → ¬ EndOnes 6 (as ++ false :: bs) p) :
    (h.withBits (as ++ false :: bs)).rxData (ofBits 16 (as ++ false :: bs))
      = let w := laterFives (ofBits 16 (as ++ false :: bs))
        if w &&& 0x1fff = 0 then (h.withBits (as ++ false :: bs)).rxByte (ofBits 16 (false :: as ++ bs)) 9
        else (h.withBits (as ++ false :: bs)).rxByte
          (ofBits 16 (false :: as ++ bs) + (ofBits 16 (false :: as ++ bs) &&& (w ^^^ (w - 1)))) 10 := by
  have hsome : ¬ fiveOnes (ofBits 16 (as ++ false :: bs)) &&& 0x0fff = 0 := by
    rw [noFive_word hs]
    exact fun hn => hn _ (by omega) hfive
  have hfew : ¬ fiveOnes (ofBits 16 (as ++ false :: bs)) &&& (fiveOnes (ofBits 16 (as ++ false :: bs)) <<< 1) ≠ 0 := by
    rw [sixOnes_iff hs]
    intro hn
    obtain ⟨p, hp, h6⟩ := hn
    exact hsix p hp h6
  have hdel : ofBits 16 (as ++ false :: bs) + (ofBits 16 (as ++ false :: bs) &&&
      (fiveOnes (ofBits 16 (as ++ false :: bs)) ^^^ (fiveOnes (ofBits 16 (as ++ false :: bs)) - 1)))
        = ofBits 16 (false :: as ++ bs) := by
    refine ofBits_delete fun i _ => ?_
    rw [lowMask_five hs (by omega) hfive hno]
    exact decide_eq_decide.2 (by omega)
  unfold rxData
  simp only [withBits_residBitCount, if_neg (Nat.not_lt.2 hs), if_neg hsome, if_neg hfew, hdel]
  rfl

/-- One stuffed zero. -/
theorem rxData_one (h : SoftHdlc) {as bs : List Bool} (hs : 16 ≤ (as ++ false :: bs).length) (ha : 0 < as.length)
    (ha' : as.length ≤ 12) (hfive : EndOnes 5 (as ++ false :: bs) (as.length - 1))
      (hno : NoFive (as ++ false :: bs) (as.length - 1))
    (hsix : ∀ p, p < 16 → ¬ EndOnes 6 (as ++ false :: bs) p)
    (hrest : ∀ p, as.length ≤ p → p < 13 → ¬ EndOnes 5 (as ++ false :: bs) p) :
    (h.withBits (as ++ false :: bs)).rxData (ofBits 16 (as ++ false :: bs))
      = .eat ((h.withBits (as ++ false :: bs)).gotByte (ofBits 8 ((as ++ bs).drop 5))) 9 := by
  have hnone : laterFives (ofBits 16 (as ++ false :: bs)) &&& 0x1fff = 0 := by
    refine (and_low_eq_zero (k := 13) (by decide)).2 fun i hi hk => ?_
    rw [← Bool.not_eq_true, laterFives_iff hs (by omega) hfive hno hi]
    exact fun hn => hrest i (by omega) hk hn.2
  rw [rxData_first h hs ha ha' hfive hno hsix]
  simp only [hnone, if_true]
  exact rxByte_bits _ (by decide)

/-- Two stuffed zeros. -/
theorem rxData_two (h : SoftHdlc) {as bs cs : List Bool} (hs : 16 ≤ (as ++ false :: (bs ++ false :: cs)).length)
    (ha : 0 < as.length)
    (hb : as.length + bs.length ≤ 12) (hb' : 0 < bs.length)
      (hfive : EndOnes 5 (as ++ false :: (bs ++ false :: cs)) (as.length - 1))
    (hno : NoFive (as ++ false :: (bs ++ false :: cs)) (as.length - 1))
    (hsix : ∀ p, p < 16 → ¬ EndOnes 6 (as ++ false :: (bs ++ false :: cs)) p)
    (hnext : EndOnes 5 (as ++ false :: (bs ++ false :: cs)) (as.length + bs.length))
    (hbetween : ∀ p, as.length ≤ p → p < as.length + bs.length → ¬ EndOnes 5 (as ++ false :: (bs ++ false :: cs)) p) :
    (h.withBits (as ++ false :: (bs ++ false :: cs))).rxData (ofBits 16 (as ++ false :: (bs ++ false :: cs)))
      = .eat ((h.withBits (as ++ false :: (bs ++ false :: cs))).gotByte (ofBits 8 ((as ++ bs ++ cs).drop 5))) 10 := by
  have hlater := fun i hi => laterFives_iff (i := i) hs (by omega) hfive hno hi
  have hsome : ¬ laterFives (ofBits 16 (as ++ false :: (bs ++ false :: cs))) &&& 0x1fff = 0 := by
    intro hz
    have := (and_low_eq_zero (k := 13) (by decide)).1 hz (as.length + bs.length) (by omega) (by omega)
    rw [(hlater _ (by omega)).2 ⟨by omega, hnext⟩] at this
    cases this
  have hmask : ∀ i, (laterFives (ofBits 16 (as ++ false :: (bs ++ false :: cs))) ^^^
      (laterFives (ofBits 16 (as ++ false :: (bs ++ false :: cs))) - 1)).getLsbD i = decide (i ≤ as.length + bs.length) := by
    intro i
    refine getLsbD_lowMask ((hlater _ (by omega)).2 ⟨by omega, hnext⟩) (fun j hj => ?_) i
    rw [← Bool.not_eq_true, hlater j (by omega)]
    exact fun hn => hbetween j (by omega) hj hn.2
  have hdel : ofBits 16 ((false :: as ++ bs) ++ false :: cs) + (ofBits 16 ((false :: as ++ bs) ++ false :: cs) &&&
      (laterFives (ofBits 16 (as ++ false :: (bs ++ false :: cs))) ^^^
        (laterFives (ofBits 16 (as ++ false :: (bs ++ false :: cs))) - 1)))
      = ofBits 16 (false :: (false :: as ++ bs) ++ cs) := by
    refine ofBits_delete fun i _ => ?_
    rw [hmask i]
    refine decide_eq_decide.2 ?_
    simp only [List.cons_append, List.length_cons, List.length_append]
    omega
  rw [rxData_first h hs ha (by omega) hfive hno hsix]
  simp only [hsome, if_false]
  rw [← List.append_assoc, hdel, rxByte_bits _ (by decide)]
  simp

/-! ## What the sender sends -/

theorem endOnes_window {k p : Nat} {ctx r : List Bool} (hctx : ctx.length = 5) (hp : 4 ≤ p) :
    EndOnes k (ctx ++ r) p ↔ k ≤ ones (ones 0 ctx) (r.take (p - 4)) := by
  unfold EndOnes
  rw [List.take_append, List.take_of_length_le (by omega), ones_append, hctx, show p + 1 - 5 = p - 4 by omega]

theorem noFive_start (s : List Bool) : NoFive s 4 := by
  intro p hp h
  have := ones_le 0 (s.take (p + 1))
  rw [List.length_take] at this
  unfold EndOnes at h
  omega

theorem noFive_window {k : Nat} {ctx r : List Bool} (hctx : ctx.length = 5)
    (h : ∀ i, i + 4 < k → ones (ones 0 ctx) (r.take i) < 5) :
    NoFive (ctx ++ r) k := by
  intro p hp
  by_cases h4 : p < 4
  · exact noFive_start _ p h4
  · rw [endOnes_window hctx (by omega)]
    have := h (p - 4) (by omega)
    omega

theorem endOnes_split {k : Nat} {as bs : List Bool} (ha : 0 < as.length) :
    EndOnes k (as ++ bs) (as.length - 1) ↔ k ≤ ones 0 as := by
  unfold EndOnes
  rw [Nat.sub_add_cancel ha, List.take_left]

theorem endOnes_behind {k p : Nat} {as bs : List Bool} (hp : as.length ≤ p) :
    EndOnes k (as ++ false :: bs) p ↔ k ≤ ones 0 (bs.take (p - as.length)) := by
  unfold EndOnes
  rw [List.take_append, List.take_of_length_le (by omega), ones_append, show p + 1 - as.length = p - as.length + 1 by omega,
    List.take_succ_cons]
  rfl

theorem noSix_sent {ctx d rest : List Bool} (hctx : ctx.length = 5) (hd : d.length = 8) (hrest : 3 ≤ rest.length)
    (hfree : SixFree (left (ones 0 ctx) d) (rest.take 3)) {p : Nat} (hp : p < 16) :
    ¬ EndOnes 6 (ctx ++ (lag (ones 0 ctx) d ++ rest)) p := by
  have hn : ones 0 ctx ≤ 5 := hctx ▸ (Nat.zero_add ctx.length) ▸ ones_le 0 ctx
  by_cases h4 : p < 4
  · intro h6
    exact noFive_start _ p h4 (Nat.le_trans (by decide) h6)
  · rw [endOnes_window hctx (by omega)]
    have hlen := length_le_lag (ones 0 ctx) d
    have hall : SixFree (ones 0 ctx) (lag (ones 0 ctx) d ++ rest.take 3) :=
      sixFree_append.2 ⟨sixFree_lag hn d, (ones_lag d).symm ▸ hfree⟩
    have htake : (lag (ones 0 ctx) d ++ rest).take (p - 4) = (lag (ones 0 ctx) d ++ rest.take 3).take (p - 4) := by
      conv => lhs; rw [← List.take_append_drop 3 rest, ← List.append_assoc]
      exact List.take_append_of_le_length (by simp; omega)
    have := (hall.take (p - 4)).ones_le hn
    rw [htake]
    omega

/-- The receiver reads the byte that was sent; the bits behind it must not go on with six ones. -/
theorem rxData_sent (h : SoftHdlc) {ctx d rest : List Bool} (hctx : ctx.length = 5) (hd : d.length = 8) (hrest : 3 ≤ rest.length)
    (hfree : SixFree (left (ones 0 ctx) d) (rest.take 3)) :
    (h.withBits (ctx ++ (lag (ones 0 ctx) d ++ rest))).rxData (ofBits 16 (ctx ++ (lag (ones 0 ctx) d ++ rest)))
      = .eat ((h.withBits (ctx ++ (lag (ones 0 ctx) d ++ rest))).gotByte (ofBits 8 d)) (lag (ones 0 ctx) d).length := by
  have hn : ones 0 ctx ≤ 5 := hctx ▸ (Nat.zero_add ctx.length) ▸ ones_le 0 ctx
  have hbyte : ∀ r : List Bool, ofBits 8 ((ctx ++ (d ++ r)).drop 5) = ofBits 8 d := by
    intro r
    rw [List.drop_left' hctx]
    exact ofBits_append_left (by omega) r
  have hsix := fun p hp => noSix_sent (p := p) hctx hd hrest hfree hp
  rcases lag_split hn d with hplain | hsplit
  · obtain ⟨hlag, hshort⟩ := hplain
    rw [hlag]
    have hno : NoFive (ctx ++ (d ++ rest)) 12 := by
      refine noFive_window hctx fun i hi => ?_
      rw [List.take_append_of_le_length (by omega)]
      exact hshort i (by omega)
    rw [rxData_plain h (by simp; omega) hno, hbyte, hd]
  · obtain ⟨a, c, hac, hc, hlag, hones, hshort⟩ := hsplit
    have hlen : a.length + c.length = 8 := by rw [← hd, hac, List.length_append]
    have hcpos : 0 < c.length := List.length_pos_of_ne_nil hc
    have hfive : ∀ r, EndOnes 5 (ctx ++ a ++ r) ((ctx ++ a).length - 1) := by
      intro r
      rw [endOnes_split (by simp; omega), ones_append, hones]
    have hno : ∀ r, NoFive (ctx ++ a ++ r) ((ctx ++ a).length - 1) := by
      intro r
      rw [List.append_assoc]
      refine noFive_window hctx fun i hi => ?_
      rw [List.length_append] at hi
      rw [List.take_append_of_le_length (by omega)]
      exact hshort i (by omega)
    rcases lag_split (Nat.zero_le 5) c with hone | htwo
    · -- one zero was stuffed
      obtain ⟨hlagc, hshortc⟩ := hone
      have hs : ctx ++ (lag (ones 0 ctx) d ++ rest) = ctx ++ a ++ false :: (c ++ rest) := by
        rw [hlag, hlagc]
        simp
      have hread : ofBits 8 ((ctx ++ a ++ (c ++ rest)).drop 5) = ofBits 8 d := by
        rw [List.append_assoc ctx, ← List.append_assoc a, ← hac]
        exact hbyte rest
      have hnine : (lag (ones 0 ctx) d).length = 9 := by
        rw [hlag, hlagc]
        simp
        omega
      rw [hs] at hsix ⊢
      rw [rxData_one h (by simp; omega) (by simp; omega) (by simp; omega) (hfive _) (hno _) hsix ?_]
      · rw [hread, hnine]
      · intro p hp hp'
        rw [List.length_append] at hp
        rw [endOnes_behind (by simp; omega), List.take_append_of_le_length (by simp; omega)]
        have := hshortc (p - (ctx ++ a).length) (by simp; omega)
        omega
    · -- two zeros were stuffed; a byte has no room for a third one
      obtain ⟨e, f, hef, hf, hlagc, honese, hshorte⟩ := htwo
      have hlen' : e.length + f.length = c.length := by rw [hef, List.length_append]
      have hfpos : 0 < f.length := List.length_pos_of_ne_nil hf
      have he5 := ones_le 0 e
      have hlagf : lag 0 f = f := by
        rcases lag_split (Nat.zero_le 5) f with h1 | h1
        · exact h1.1
        · obtain ⟨g, k, hgk, hk, -, honesg, -⟩ := h1
          have hg5 := ones_le 0 g
          have hglen : g.length + k.length = f.length := by rw [hgk, List.length_append]
          omega
      have hs : ctx ++ (lag (ones 0 ctx) d ++ rest) = ctx ++ a ++ false :: (e ++ false :: (f ++ rest)) := by
        rw [hlag, hlagc, hlagf]
        simp
      have hread : ofBits 8 ((ctx ++ a ++ e ++ (f ++ rest)).drop 5) = ofBits 8 d := by
        rw [List.append_assoc (ctx ++ a), ← List.append_assoc e, ← hef, List.append_assoc ctx, ← List.append_assoc a, ← hac]
        exact hbyte rest
      have hten : (lag (ones 0 ctx) d).length = 10 := by
        rw [hlag, hlagc, hlagf]
        simp
        omega
      rw [hs] at hsix ⊢
      rw [rxData_two h (by simp; omega) (by simp; omega) (by simp; omega) (by omega) (hfive _) (hno _) hsix ?_ ?_]
      · rw [hread, hten]
      · rw [endOnes_behind (by omega), Nat.add_sub_cancel_left, List.take_left, honese]
      · intro p hp hp'
        rw [endOnes_behind hp, List.take_append_of_le_length (by omega)]
        have := hshorte (p - (ctx ++ a).length) (by omega)
        omega

end SoftHdlc

end Divas.Tty
