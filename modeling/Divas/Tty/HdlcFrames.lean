/-
  Divas.Tty.HdlcFrames — frames on a line, and which of them the HDLC receiver comes to.

  A line begins with up to seven bits of anything and at least two flags, whatever the
  alignment (`reads_sync`). Proved here on all bits of the line: the receiver comes to a
  frame that is sent (`reads_sent`), and never to one with a wrong checksum (`never_wrong`)
  or to one with an abort in it (`never_aborted`). A search for a flag that goes on in the
  middle of such a frame comes to nothing either (`never_search`).
-/

import Divas.Tty.HdlcFeed

namespace Divas.Tty

open Divas.Lib.Bits Divas.Lib.Crc Divas.Lib.Stuffing SoftHdlc

/-! ## What is sent -/

def flags (n : Nat) : List Bool := (List.replicate n flag).flatten

/-- The checksum of a frame. -/
def fcs (payload : List Byte) : BitVec 16 := ~~~ payload.foldl (crcByte fcsPoly) hdlcCrcInit

/-- A checksum as it is sent, the low byte first. -/
def fcsBytes (v : BitVec 16) : List Byte := [v.setWidth 8, (v >>> 8).setWidth 8]

/-- Payload and checksum, stuffed. -/
def frameBits (payload : List Byte) (v : BitVec 16) : List Bool := stuff 0 (bits (payload ++ fcsBytes v))

theorem flags_succ (n : Nat) : flags (n + 1) = flag ++ flags n := rfl

theorem getLsbD_high (v : BitVec 16) (i : Nat) :
    (((v >>> 8).setWidth 8).setWidth 16).getLsbD i = (decide (i < 8) && v.getLsbD (8 + i)) := by
  rw [BitVec.getLsbD_setWidth, BitVec.getLsbD_setWidth, BitVec.getLsbD_ushiftRight]
  by_cases h : i < 8
  · simp [h, show i < 16 by omega]
  · simp [h]

/-- The checksum of a frame, and no other one, takes the register to its good value. -/
theorem crc_fcsBytes (c v : BitVec 16) : (fcsBytes v).foldl (crcByte fcsPoly) c = hdlcCrcOk ↔ v = ~~~c := by
  have hhigh : shifts fcsPoly 8 (((v >>> 8).setWidth 8).setWidth 16 <<< 8) = ((v >>> 8).setWidth 8).setWidth 16 := by
    rw [shifts_zeros]
    · refine BitVec.eq_of_getLsbD_eq fun i hi => ?_
      rw [BitVec.getLsbD_ushiftRight, BitVec.getLsbD_shiftLeft, Nat.add_sub_cancel_left, getLsbD_high]
      by_cases h : i < 8
      · simp [h, show 8 + i < 16 by omega]
      · simp [h]
    · intro i hi
      rw [BitVec.getLsbD_shiftLeft, decide_eq_true hi]
      simp
  have hsplit : v = (v.setWidth 8).setWidth 16 ^^^ (((v >>> 8).setWidth 8).setWidth 16 <<< 8) := by
    refine BitVec.eq_of_getLsbD_eq fun i hi => ?_
    rw [BitVec.getLsbD_xor, BitVec.getLsbD_setWidth, BitVec.getLsbD_setWidth, BitVec.getLsbD_shiftLeft, getLsbD_high]
    by_cases h : i < 8
    · simp [h, hi]
    · simp [h, hi, show i - 8 < 8 by omega, show 8 + (i - 8) = i by omega]
  have hboth : (fcsBytes v).foldl (crcByte fcsPoly) c = shifts fcsPoly 16 (c ^^^ v) := by
    show shifts fcsPoly 8 (shifts fcsPoly 8 (c ^^^ (v.setWidth 8).setWidth 16) ^^^ ((v >>> 8).setWidth 8).setWidth 16) = _
    conv => rhs; rw [hsplit, ← BitVec.xor_assoc, shifts_add _ 8 8, shifts_xor _ 8 (c ^^^ _), hhigh]
  have hok : hdlcCrcOk = shifts fcsPoly 16 (BitVec.allOnes 16) := by decide +kernel
  rw [hboth, hok]
  constructor
  · intro h
    have hx := shifts_injective (by decide) 16 h
    rw [← BitVec.xor_allOnes, ← hx, ← BitVec.xor_assoc, BitVec.xor_self, BitVec.zero_xor]
  · intro h
    rw [h, ← BitVec.xor_allOnes, ← BitVec.xor_assoc, BitVec.xor_self, BitVec.zero_xor]

theorem crc_frame (payload : List Byte) (v : BitVec 16) :
    (payload ++ fcsBytes v).foldl (crcByte fcsPoly) hdlcCrcInit = hdlcCrcOk ↔ v = fcs payload := by
  rw [List.foldl_append]
  exact crc_fcsBytes _ v

namespace SoftHdlc

/-- The end of a flag. -/
def five : List Bool := [true, true, true, true, false]

/-- A flag does not begin in what stands before another one, unless it has its last zero there. -/
theorem flag_straddle {w t : List Bool} {j : Nat} (hj : j < w.length) (h : flag <+: (w ++ (flag ++ t)).drop j) :
    j + 7 ≤ w.length := by
  by_contra hlt
  have hlen := flag_length_le h
  have hbit := (prefix_drop_iff hlen).1 h (w.length - j) (by simp [flag]; omega)
  rw [Nat.add_sub_cancel' (Nat.le_of_lt hj), getD_append_right (Nat.le_refl _), Nat.sub_self] at hbit
  have hone : ∀ i, i < 7 → 0 < i → flag.getD i false = true := by decide
  rw [hone _ (by omega) (by omega)] at hbit
  cases hbit

/-- No flag begins in `w`, when a flag stands behind it. -/
def NoFlag (w : List Bool) : Prop := ∀ j, j < w.length → ¬ flag <+: (w ++ flag).drop j

theorem NoFlag.drop {w : List Bool} (h : NoFlag w) (n : Nat) : NoFlag (w.drop n) := by
  intro j hj hf
  rw [List.length_drop] at hj
  rw [← List.drop_append_of_le_length (by omega), List.drop_drop] at hf
  exact h (n + j) (by omega) hf

theorem NoFlag.more {w : List Bool} (h : NoFlag w) {j : Nat} (hj : j < w.length) (t : List Bool) :
    ¬ flag <+: (w ++ (flag ++ t)).drop j := by
  intro hf
  have hstraddle := flag_straddle hj hf
  have hlen : j + flag.length ≤ (w ++ flag).length := by
    rw [List.length_append]
    simp [flag]
    omega
  rw [← List.append_assoc, prefix_more t hlen] at hf
  exact h j hj hf

/-- Stuffed bits have no flag. -/
theorem SixFree.noFlag {n : Nat} {w : List Bool} (hn : n ≤ 5) (h : SixFree n w) : NoFlag w := by
  intro j hj hf
  have hstraddle : j + 7 ≤ w.length := flag_straddle (t := []) hj (by rwa [List.append_nil])
  obtain ⟨t, ht⟩ := hf
  have hseven : (w.drop j).take 7 = flag.take 7 := by
    have := congrArg (List.take 7) ht
    rw [List.drop_append_of_le_length (Nat.le_of_lt hj), List.take_append_of_le_length (by decide),
      List.take_append_of_le_length (by rw [List.length_drop]; omega)] at this
    exact this.symm
  have hle := (h.take (j + 7)).ones_le hn
  rw [List.take_add, ones_append, hseven] at hle
  exact absurd hle (by decide : ¬ 6 ≤ 5)

/-! ## Flags and the search for them -/

theorem drop_five (t : List Bool) : (flag ++ t).drop 3 = five ++ t := rfl

theorem reads_flags (n : Nat) (y : List Bool) {h : SoftHdlc} (hst : h.rxState = .searchData) :
    ∃ k : SoftHdlc, k.rxState = .searchData ∧ ∀ data u, Reads h (five ++ (flags n ++ y)) data u ↔ Reads k (five ++ y) data u := by
  induction n generalizing h with
  | zero => exact ⟨h, hst, fun data u => Iff.rfl⟩
  | succ n ih =>
    have hflag : flag <+: (five ++ (flags (n + 1) ++ y)).drop 5 := ⟨flags n ++ y, by simp [flags_succ, five]⟩
    have hk : h.countFlag.rxState = .searchData := by
      unfold countFlag
      split <;> exact hst
    obtain ⟨k, hk', hreads⟩ := ih hk
    refine ⟨k, hk', fun data u => ?_⟩
    rw [reads_eat (searchData_flag hst hflag), ← hreads data u]
    rfl

/-- The bits behind the last flag. -/
def Cut (s : List Bool) : Prop := s.length < 8 ∧ s <+: flag

theorem never_flags (n : Nat) {y : List Bool} (hy : Cut y) {h : SoftHdlc} (hst : h.rxState = .searchData)
    (data : List Byte) (u : List Bool) :
    ¬ Reads h (five ++ (flags n ++ y)) data u := by
  obtain ⟨k, hk, hreads⟩ := reads_flags n y hst
  have hlen : (five ++ y).length < 13 := by
    rw [List.length_append]
    have := hy.1
    simp [five]
    omega
  rw [hreads data u]
  exact not_reads_wait (searchData_wait hk hlen)

/-- A search goes on behind the first flag. -/
theorem reads_found {h : SoftHdlc} (hst : h.rxState = .searchFlag) {w t : List Bool} (hlen : 16 ≤ (w ++ (flag ++ t)).length)
    (hw : w.length ≤ 8) (hno : NoFlag w) (data : List Byte) (u : List Bool) :
    Reads h (w ++ (flag ++ t)) data u ↔ Reads h.found (five ++ t) data u := by
  have hflag : flag <+: (w ++ (flag ++ t)).drop w.length := by
    rw [List.drop_left]
    exact List.prefix_append flag t
  rw [reads_eat (searchFlag_found hst hlen hw hflag fun j hj => hno.more hj t), List.drop_append,
    List.drop_of_length_le (by omega),
    List.nil_append, Nat.add_sub_cancel_left, drop_five]

theorem NoFlag.cut {w : List Bool} (h : NoFlag w) (n : Nat) {y : List Bool} (hy : Cut y) {j : Nat} (hj : j < w.length) :
    ¬ flag <+: (w ++ (flags n ++ y)).drop j := by
  cases n with
  | zero =>
    intro hf
    obtain ⟨z, hz⟩ := hy.2
    have hmore := hf.trans (List.prefix_append _ z)
    rw [← List.drop_append_of_le_length (by rw [List.length_append]; omega), List.append_assoc] at hmore
    exact h j hj (hz ▸ hmore)
  | succ n =>
    rw [flags_succ, List.append_assoc]
    exact h.more hj _

theorem never_search (n : Nat) {y : List Bool} (hy : Cut y) {w : List Bool} (hno : NoFlag w) {h : SoftHdlc}
    (hst : h.rxState = .searchFlag) (data : List Byte) (u : List Bool) : ¬ Reads h (w ++ (flags n ++ y)) data u := by
  induction hm : w.length using Nat.strongRecOn generalizing w with
  | ind m ih =>
    subst hm
    by_cases hlen : (w ++ (flags n ++ y)).length < 16
    · exact not_reads_wait (searchFlag_wait hst hlen)
    · by_cases hw : w.length ≤ 8
      · cases n with
        | zero =>
          have hy8 := hy.1
          rw [List.length_append] at hlen
          exact absurd (show w.length + y.length < 16 by omega) hlen
        | succ n =>
          rw [flags_succ, List.append_assoc] at hlen ⊢
          rw [reads_found hst (Nat.not_lt.1 hlen) hw hno]
          exact never_flags n hy rfl data u
      · have hnone : ∀ j, j ≤ 8 → ¬ flag <+: (w ++ (flags n ++ y)).drop j := fun j hj => hno.cut n hy (by omega)
        rw [reads_eat (searchFlag_none hst (Nat.not_lt.1 hlen) hnone), List.drop_append_of_le_length (by omega)]
        exact ih (w.drop 9).length (by rw [List.length_drop]; omega) (hno.drop 9) rfl

/-! ## The beginning of the line -/

theorem noFlag_of_straddle {w : List Bool} (hw : w.length < 8) (hno : ¬ NoFlag w) : w = flag.take 7 := by
  unfold NoFlag at hno
  simp only [not_forall, not_not] at hno
  obtain ⟨j, hj, hf⟩ := hno
  have hstraddle : j + 7 ≤ w.length := flag_straddle (t := []) hj (by rwa [List.append_nil])
  have hj0 : j = 0 := by omega
  rw [hj0, List.drop_zero] at hf
  obtain ⟨t, ht⟩ := hf
  have hflag : (flag ++ t).take 7 = flag.take 7 := List.take_append_of_le_length (by decide)
  rw [ht, List.take_append_of_le_length (by omega), List.take_of_length_le (by omega)] at hflag
  exact hflag

/-- A flag that shares its last zero with the next one costs that one. -/
theorem reads_shared {h : SoftHdlc} (hst : h.rxState = .searchData) {y : List Bool} (hy : 8 ≤ y.length)
    (data : List Byte) (u : List Bool) :
    Reads h (five ++ (flag.drop 1 ++ (flag ++ y))) data u ↔ Reads h.begun.abort.found (five ++ y) data u := by
  have hlen : 16 ≤ (five ++ (flag.drop 1 ++ (flag ++ y))).length := by simp [five, flag]
  have hlate : ¬ lateFlag <+: five ++ (flag.drop 1 ++ (flag ++ y)) := by
    intro hl
    have := (prefix_drop_iff (show 0 + lateFlag.length ≤ _ by simp [lateFlag, five, flag])).1 hl 4 (by decide)
    exact absurd this (show ¬ false = true by decide)
  have hflag : ¬ flag <+: (five ++ (flag.drop 1 ++ (flag ++ y))).drop 5 := by
    intro hl
    have := (prefix_drop_iff (by simp [five, flag])).1 hl 0 (by decide)
    exact absurd this (show ¬ true = false by decide)
  have hsix : EndOnes 6 (five ++ (flag.drop 1 ++ (flag ++ y))) 10 := by
    show 6 ≤ 6
    decide
  have hturn : (h.withBits (five ++ (flag.drop 1 ++ (flag ++ y)))).rxTurn
      = .eat (h.begun.abort.withBits (five ++ (flag.drop 1 ++ (flag ++ y)))) 8 := by
    rw [searchData_begin hst (by omega) hflag, data_turn (h := h.begun) rfl]
    have htook := rxData_took h.begun hlen hlate hflag
    generalize (h.begun.withBits (five ++ (flag.drop 1 ++ (flag ++ y)))).rxData _ = r at htook ⊢
    cases htook with
    | plain hno => exact absurd (Nat.le_trans (by decide) hsix) (hno 10 (by decide))
    | aborted => rfl
    | stuffed b n hno _ => exact absurd hsix (hno 10 (by decide))
  rw [reads_eat hturn]
  have hno : NoFlag [true, true, true, false] := by
    intro j hj
    have : ∀ j, j < 4 → ¬ flag <+: ([true, true, true, false] ++ flag).drop j := by decide
    exact this j hj
  exact reads_found (h := h.begun.abort) rfl (w := [true, true, true, false]) (by simp [flag]; omega) (by decide) hno data u

/-- From the second flag on the receiver is behind a flag. -/
theorem reads_sync {junk : List Bool} (hj : junk.length < 8) (n : Nat) {y : List Bool} (hy : 8 ≤ y.length) :
    ∃ k : SoftHdlc, k.rxState = .searchData ∧
      ∀ data u, Reads init (junk ++ (flags (n + 2) ++ y)) data u ↔ Reads k (five ++ y) data u := by
  have hassoc : flags (n + 2) ++ y = flag ++ (flags (n + 1) ++ y) := by rw [flags_succ, List.append_assoc]
  have hassoc' : flags (n + 1) ++ y = flag ++ (flags n ++ y) := by rw [flags_succ, List.append_assoc]
  have hlen : 16 ≤ (flag ++ (flag ++ (flags n ++ y))).length := by simp [flag]
  by_cases hno : NoFlag junk
  · obtain ⟨k, hk, hreads⟩ := reads_flags (n + 1) y (h := init.found) rfl
    refine ⟨k, hk, fun data u => ?_⟩
    rw [hassoc, reads_found rfl (by rw [hassoc', List.length_append]; omega) (by omega) hno, hreads data u]
  · obtain ⟨k, hk, hreads⟩ := reads_flags n y (h := init.found.begun.abort.found) rfl
    refine ⟨k, hk, fun data u => ?_⟩
    have hshift : junk ++ (flags (n + 2) ++ y) = [] ++ (flag ++ (flag.drop 1 ++ (flag ++ (flags n ++ y)))) := by
      rw [noFlag_of_straddle hj hno, hassoc, hassoc']
      rfl
    rw [hshift, reads_found rfl (by simp [flag]) (by decide) (fun j hj => absurd hj (Nat.not_lt_zero _)),
      reads_shared rfl (by rw [List.length_append]; omega), hreads data u]

/-! ## The data of a frame -/

theorem gotByte_room {h : SoftHdlc} (hroom : h.rxMessage.length + 2 < h.rxMessageSize) (b : Byte) :
    h.gotByte b = { h with rxCrc := crcByte fcsPoly h.rxCrc b, rxMessage := h.rxMessage ++ [b] } := if_pos hroom

theorem ones_le_five {ctx : List Bool} (hctx : ctx.length = 5) : ones 0 ctx ≤ 5 := by
  have := ones_le 0 ctx
  omega

/-- A byte that was sent: the receiver has it, and the last five bits before what follows. -/
theorem reads_byte {h : SoftHdlc} (hst : h.rxState = .data) {ctx rest : List Bool} (hctx : ctx.length = 5) (b : Byte)
    (hrest : 3 ≤ rest.length) (hfree : SixFree (left (ones 0 ctx) (bitsOf b)) (rest.take 3)) :
    ∃ ctx' : List Bool, ctx'.length = 5 ∧ ones 0 ctx' = left (ones 0 ctx) (bitsOf b) ∧
      ∀ data u, Reads h (ctx ++ (lag (ones 0 ctx) (bitsOf b) ++ rest)) data u ↔ Reads (h.gotByte b) (ctx' ++ rest) data u := by
  have hsplit := List.take_append_drop (lag (ones 0 ctx) (bitsOf b)).length (ctx ++ lag (ones 0 ctx) (bitsOf b))
  have hlen : ((ctx ++ lag (ones 0 ctx) (bitsOf b)).drop (lag (ones 0 ctx) (bitsOf b)).length).length = 5 := by
    rw [List.length_drop, List.length_append]
    omega
  have hones : ones 0 (ctx ++ lag (ones 0 ctx) (bitsOf b)) = left (ones 0 ctx) (bitsOf b) := by rw [ones_append, ones_lag]
  refine ⟨_, hlen, ?_, fun data u => ?_⟩
  · have hlast := ones_last (n := 0) ((ctx ++ lag (ones 0 ctx) (bitsOf b)).take (lag (ones 0 ctx) (bitsOf b)).length) hlen
      (by rw [hsplit, hones]; exact left_le (ones_le_five hctx) _)
    rw [hlast, hsplit, hones]
  · have hturn := (data_turn hst _).trans (rxData_sent h hctx (length_bitsOf b) hrest hfree)
    rw [gotByte_withBits, ofBits_bitsOf] at hturn
    rw [reads_eat hturn, ← List.append_assoc, List.drop_append_of_le_length (by rw [List.length_append]; omega)]

/-- Behind the data come the zero that is due and a flag, so no six ones. -/
theorem rest_free {n : Nat} (hn : n ≤ 5) (bs t : List Bool) :
    3 ≤ (lag n bs ++ (due (left n bs) ++ (flag ++ t))).length ∧
    SixFree n ((lag n bs ++ (due (left n bs) ++ (flag ++ t))).take 3) := by
  have hsplit : lag n bs ++ (due (left n bs) ++ (flag ++ t)) = lag n bs ++ (due (left n bs) ++ flag.take 3)
      ++ (flag.drop 3 ++ t) := by
    simp [flag]
  have hlen : 3 ≤ (lag n bs ++ (due (left n bs) ++ flag.take 3)).length := by
    simp [flag]
    omega
  refine ⟨by rw [hsplit, List.length_append]; omega, ?_⟩
  rw [hsplit, List.take_append_of_le_length hlen]
  refine SixFree.take (sixFree_append.2 ⟨sixFree_lag hn bs, ?_⟩) 3
  rw [ones_lag]
  exact sixFree_due ⟨by decide, by decide, trivial⟩

theorem all_ones {ctx : List Bool} (hctx : ctx.length = 5) (h5 : ones 0 ctx = 5) : ctx = [true, true, true, true, true] := by
  have hall : ∀ a b c d e : Bool, ones 0 [a, b, c, d, e] = 5 → [a, b, c, d, e] = [true, true, true, true, true] := by decide
  obtain ⟨a, b, c, d, e, rfl⟩ : ∃ a b c d e, ctx = [a, b, c, d, e] := by
    match ctx, hctx with
    | [a, b, c, d, e], _ => exact ⟨a, b, c, d, e, rfl⟩
  exact hall a b c d e h5

/-- The closing flag, with the zero before it that may be due. -/
theorem closing_turn {h : SoftHdlc} (hst : h.rxState = .data) {ctx : List Bool} (hctx : ctx.length = 5) (t : List Bool) :
    (h.withBits (ctx ++ (due (ones 0 ctx) ++ (flag ++ t)))).rxTurn
      = (h.withBits (ctx ++ (due (ones 0 ctx) ++ (flag ++ t)))).endOfFrame (8 + (due (ones 0 ctx)).length) ∧
    (ctx ++ (due (ones 0 ctx) ++ (flag ++ t))).drop (8 + (due (ones 0 ctx)).length) = five ++ t ∧
    closing (ctx ++ (due (ones 0 ctx) ++ (flag ++ t))) = 13 + (due (ones 0 ctx)).length := by
  rw [data_turn hst]
  by_cases h5 : ones 0 ctx = 5
  · have hlate : lateFlag <+: ctx ++ (due (ones 0 ctx) ++ (flag ++ t)) := by
      rw [all_ones hctx h5]
      exact List.prefix_append lateFlag t
    refine ⟨?_, ?_, ?_⟩
    · rw [rxData_late h hlate, h5]
      rfl
    · rw [all_ones hctx h5]
      rfl
    · unfold closing
      rw [if_neg (late_not_flag hlate), h5]
      rfl
  · have hdue : due (ones 0 ctx) = [] := if_neg h5
    have hflag : flag <+: (ctx ++ (due (ones 0 ctx) ++ (flag ++ t))).drop 5 := by
      rw [List.drop_left' hctx, hdue]
      exact List.prefix_append flag t
    refine ⟨?_, ?_, ?_⟩
    · rw [rxData_flag h hflag, hdue]
      rfl
    · rw [hdue]
      show (ctx ++ (flag ++ t)).drop (5 + 3) = _
      rw [← List.drop_drop, List.drop_left' hctx, drop_five]
    · unfold closing
      rw [if_pos hflag, hdue]
      rfl

/-- A frame that fits and has its checksum. -/
theorem reads_frame (ds : List Byte) {h : SoftHdlc} (hst : h.rxState = .data) {ctx : List Bool}
    (hctx : ctx.length = 5) (t : List Bool)
    (hroom : h.rxMessage.length + ds.length + 1 < h.rxMessageSize) (hok : ds.foldl (crcByte fcsPoly) h.rxCrc = hdlcCrcOk)
    (hpos : 2 < h.rxMessage.length + ds.length) :
    ∃ u, u.length - closing u = t.length ∧
      Reads h (ctx ++ (lag (ones 0 ctx) (bits ds) ++ (due (left (ones 0 ctx) (bits ds)) ++ (flag ++ t))))
        ((h.rxMessage ++ ds).take (h.rxMessage.length + ds.length - 2)) u := by
  induction ds generalizing h ctx with
  | nil =>
    obtain ⟨hturn, -, hclose⟩ := closing_turn hst hctx t
    refine ⟨_, ?_, @Reads.frame h (h.withBits (ctx ++ (due (ones 0 ctx) ++ (flag ++ t)))) _ _ ?_⟩
    · show (ctx ++ (due (ones 0 ctx) ++ (flag ++ t))).length - closing (ctx ++ (due (ones 0 ctx) ++ (flag ++ t))) = _
      rw [hclose]
      simp [hctx, flag]
      omega
    · show (h.withBits (ctx ++ (due (ones 0 ctx) ++ (flag ++ t)))).rxTurn = _
      rw [hturn, List.append_nil]
      exact if_pos ⟨hok, hpos⟩
  | cons b ds ih =>
    have hn := left_le (ones_le_five hctx) (bitsOf b)
    obtain ⟨hlen, hfree⟩ := rest_free hn (bits ds) t
    obtain ⟨ctx', hctx', hones, hreads⟩ := reads_byte hst hctx b hlen hfree
    rw [List.length_cons] at hroom hpos
    have hgot := gotByte_room (h := h) (by omega) b
    rw [hgot] at hreads
    obtain ⟨u, hu, hr⟩ := ih (h := { h with rxCrc := crcByte fcsPoly h.rxCrc b, rxMessage := h.rxMessage ++ [b] }) hst hctx'
      (by simp; omega) hok (by simp; omega)
    refine ⟨u, hu, ?_⟩
    rw [bits_cons, lag_append, left_append, List.append_assoc]
    rw [hones] at hr
    have hdata : (h.rxMessage ++ [b] ++ ds).take ((h.rxMessage ++ [b]).length + ds.length - 2)
        = (h.rxMessage ++ b :: ds).take (h.rxMessage.length + (b :: ds).length - 2) := by
      congr 1
      · simp
        omega
      · simp
    rw [← hdata]
    exact (hreads _ _).2 hr

/-- A frame without its checksum is not returned, however long it is. -/
theorem never_bytes (ds : List Byte) {h : SoftHdlc} (hst : h.rxState = .data) {ctx : List Bool} (hctx : ctx.length = 5) (n : Nat)
    {y : List Bool} (hy : Cut y) (hbad : ds.foldl (crcByte fcsPoly) h.rxCrc ≠ hdlcCrcOk) (data : List Byte) (u : List Bool) :
    ¬ Reads h (ctx ++ (lag (ones 0 ctx) (bits ds) ++ (due (left (ones 0 ctx) (bits ds)) ++ (flag ++ (flags n ++ y)))))
      data u := by
  induction ds generalizing h ctx with
  | nil =>
    obtain ⟨hturn, hdrop, -⟩ := closing_turn hst hctx (flags n ++ y)
    have heat : (h.withBits (ctx ++ (due (ones 0 ctx) ++ (flag ++ (flags n ++ y))))).rxTurn
        = .eat (h.found.withBits (ctx ++ (due (ones 0 ctx) ++ (flag ++ (flags n ++ y))))) (8 + (due (ones 0 ctx)).length) := by
      rw [hturn]
      exact if_neg fun hok => hbad hok.1
    show ¬ Reads h (ctx ++ (due (ones 0 ctx) ++ (flag ++ (flags n ++ y)))) data u
    rw [reads_eat heat, hdrop]
    exact never_flags n hy rfl data u
  | cons b ds ih =>
    have hn := left_le (ones_le_five hctx) (bitsOf b)
    obtain ⟨hlen, hfree⟩ := rest_free hn (bits ds) (flags n ++ y)
    obtain ⟨ctx', hctx', hones, hreads⟩ := reads_byte hst hctx b hlen hfree
    rw [bits_cons, lag_append, left_append, List.append_assoc, hreads]
    by_cases hroom : h.rxMessage.length + 2 < h.rxMessageSize
    · rw [gotByte_room hroom, ← hones]
      exact ih (h := { h with rxCrc := crcByte fcsPoly h.rxCrc b, rxMessage := h.rxMessage ++ [b] }) hst hctx' hbad
    · -- the message is too long: the rest of it is skipped
      have hgot : (h.gotByte b).rxState = .searchFlag := by
        unfold gotByte
        rw [if_neg hroom]
      rw [← hones] at hfree ⊢
      have hsix : SixFree 0 (ctx' ++ (lag (ones 0 ctx') (bits ds) ++ due (left (ones 0 ctx') (bits ds)))) :=
        sixFree_append.2 ⟨sixFree_short (by omega), sixFree_lag_due (ones_le_five hctx') (bits ds)⟩
      have hno := SixFree.noFlag (Nat.zero_le 5) hsix
      have := never_search (n + 1) hy hno hgot data u
      simpa only [flags_succ, List.append_assoc] using this

/-! ## Aborts -/

/-- Seven ones in a row. -/
def HasAbort (w : List Bool) : Prop := ∃ q, q + 7 ≤ w.length ∧ ∀ i, i < 7 → w.getD (q + i) false = true

theorem endOnes_abort {w t : List Bool} {q k : Nat} (hq : q + 7 ≤ w.length) (hones : ∀ i, i < 7 → w.getD (q + i) false = true)
    (hk : 0 < k) (hk' : k ≤ 7) : EndOnes k (w ++ t) (q + k - 1) := by
  unfold EndOnes
  rw [le_ones_take (by rw [List.length_append]; omega)]
  refine ⟨by omega, fun j hj => ?_⟩
  rw [getD_append_left (by omega), show q + k - 1 - j = q + (k - 1 - j) by omega]
  exact hones _ (by omega)

theorem gotByte_state {h : SoftHdlc} (hst : h.rxState = .data) (b : Byte) :
    (h.gotByte b).rxState = .data ∨ (h.gotByte b).rxState = .searchFlag := by
  unfold gotByte
  split
  · exact Or.inl hst
  · exact Or.inr rfl

/-- Before the closing flag comes an abort: the receiver leaves the data state there. -/
theorem never_abort (n : Nat) {y : List Bool} (hy : Cut y) {w : List Bool} (hno : NoFlag w) (habort : HasAbort w) {h : SoftHdlc}
    (hst : h.rxState = .data) (data : List Byte) (u : List Bool) : ¬ Reads h (w ++ (flags (n + 1) ++ y)) data u := by
  induction hm : w.length using Nat.strongRecOn generalizing w h with
  | ind m ih =>
    subst hm
    obtain ⟨q, hq, hones⟩ := habort
    have hfirst : ∀ j, j < w.length → ¬ flag <+: (w ++ (flags (n + 1) ++ y)).drop j := fun j hj => hno.cut (n + 1) hy hj
    have hflag := hfirst 5 (by omega)
    have hlate : ¬ lateFlag <+: w ++ (flags (n + 1) ++ y) := by
      intro hl
      obtain ⟨t, ht⟩ := hl
      refine hfirst 6 (by omega) ?_
      rw [← ht]
      exact List.prefix_append flag t
    by_cases hlen : (w ++ (flags (n + 1) ++ y)).length < 16
    · exact not_reads_wait ((data_turn hst _).trans (rxData_short h hlen hlate hflag))
    · -- the rest of the line, in whatever state it is read
      have hrest : ∀ k : SoftHdlc, ∀ e, 3 ≤ e → e ≤ q → (k.rxState = .data ∨ k.rxState = .searchFlag) →
          ¬ Reads k ((w ++ (flags (n + 1) ++ y)).drop e) data u := by
        intro k e h3 he hk
        rw [List.drop_append_of_le_length (by omega)]
        rcases hk with hk | hk
        · refine ih (w.drop e).length (by rw [List.length_drop]; omega) (hno.drop e)
            ⟨q - e, by rw [List.length_drop]; omega, ?_⟩ hk rfl
          intro i hi
          rw [getD_drop, show e + (q - e + i) = q + i by omega]
          exact hones i hi
        · exact never_search (n + 1) hy (hno.drop e) hk data u
      have hturn := data_turn hst (w ++ (flags (n + 1) ++ y))
      have htook := rxData_took h (Nat.not_lt.1 hlen) hlate hflag
      rw [← hturn] at htook
      generalize hr : (h.withBits (w ++ (flags (n + 1) ++ y))).rxTurn = r at htook
      cases htook with
      | plain hfive =>
        have h5 := endOnes_abort (t := flags (n + 1) ++ y) hq hones (k := 5) (by decide) (by decide)
        rw [reads_eat hr]
        refine hrest _ 8 (by decide) ?_ (gotByte_state hst _)
        by_contra hlt
        exact hfive (q + 5 - 1) (by omega) h5
      | stuffed b e hsix he =>
        have h6 := endOnes_abort (t := flags (n + 1) ++ y) hq hones (k := 6) (by decide) (by decide)
        rw [reads_eat hr]
        refine hrest _ e (by omega) ?_ (gotByte_state hst _)
        by_contra hlt
        exact hsix (q + 6 - 1) (by omega) h6
      | aborted =>
        rw [reads_eat hr]
        by_cases h8 : 8 ≤ w.length
        · rw [List.drop_append_of_le_length h8]
          exact never_search (n + 1) hy (hno.drop 8) rfl data u
        · -- the abort ends where the flag begins, and its first zero is used up
          have hseven : w.length = 7 := by omega
          have hcut : (w ++ (flags (n + 1) ++ y)).drop 8 = flag.drop 1 ++ (flags n ++ y) := by
            rw [List.drop_append, List.drop_of_length_le (by omega), hseven, flags_succ]
            rfl
          have hno' : NoFlag (flag.drop 1) := by
            intro j hj
            have : ∀ j, j < 7 → ¬ flag <+: (flag.drop 1 ++ flag).drop j := by decide
            exact this j hj
          rw [hcut]
          exact never_search n hy hno' rfl data u

/-! ## Lines -/

theorem reads_begin {h : SoftHdlc} (hst : h.rxState = .searchData) {y : List Bool} (hy : 8 ≤ y.length)
    (hno : ¬ flag <+: y) (data : List Byte)
    (u : List Bool) : Reads h (five ++ y) data u ↔ Reads h.begun (five ++ y) data u := by
  have hlen : 13 ≤ (five ++ y).length := by
    rw [List.length_append]
    simp [five]
    omega
  have hbegin := searchData_begin hst hlen hno
  exact ⟨reads_of_turn hbegin, reads_of_turn hbegin.symm⟩

/-- A line with some bits between its flags. -/
theorem reads_line {junk : List Bool} (hj : junk.length < 8) (n : Nat) {w : List Bool} (hw : w ≠ [])
    (hno : NoFlag w) (t : List Bool) :
    ∃ k : SoftHdlc, k.rxState = .searchData ∧
      ∀ data u, Reads init (junk ++ (flags (n + 2) ++ (w ++ (flag ++ t)))) data u ↔
        Reads k.begun (five ++ (w ++ (flag ++ t))) data u := by
  have hlen : 8 ≤ (w ++ (flag ++ t)).length := by
    simp [flag]
    omega
  obtain ⟨k, hk, hreads⟩ := reads_sync hj n hlen
  refine ⟨k, hk, fun data u => ?_⟩
  rw [hreads, reads_begin hk hlen]
  have := hno.more (List.length_pos_of_ne_nil hw) t
  rwa [List.drop_zero] at this

theorem frameBits_ne_nil (payload : List Byte) (v : BitVec 16) : frameBits payload v ≠ [] := by
  intro h
  have hlen := congrArg List.length h
  unfold frameBits at hlen
  rw [stuff_zero, List.length_append, List.length_nil] at hlen
  have hle := length_le_lag 0 (bits (payload ++ fcsBytes v))
  have htwo : (payload ++ fcsBytes v).length = payload.length + 2 := by simp [fcsBytes]
  rw [length_bits, htwo] at hle
  omega

theorem reads_sent {junk : List Bool} (hj : junk.length < 8) (n : Nat) {payload : List Byte} (hpos : 1 ≤ payload.length)
    (hmax : payload.length ≤ maxHdlcFrameLength - 2) (t : List Bool) :
    ∃ u, u.length - closing u = t.length ∧
      Reads init (junk ++ (flags (n + 2) ++ (frameBits payload (fcs payload) ++ (flag ++ t)))) payload u := by
  obtain ⟨k, -, hreads⟩ := reads_line hj n (frameBits_ne_nil payload (fcs payload))
    (SixFree.noFlag (Nat.zero_le 5) (sixFree_stuff _)) t
  have hlen : (payload ++ fcsBytes (fcs payload)).length = payload.length + 2 := by simp [fcsBytes]
  have hsize : k.begun.rxMessageSize = 2059 := rfl
  have hmax' : payload.length ≤ 2055 := hmax
  obtain ⟨u, hu, hr⟩ := reads_frame (payload ++ fcsBytes (fcs payload)) (h := k.begun) rfl (show five.length = 5 from rfl) t
    (by rw [hlen, hsize]; show 0 + _ + 1 < _; omega) ((crc_frame payload _).2 rfl) (by rw [hlen]; show 2 < 0 + _; omega)
  have hdata : (k.begun.rxMessage ++ (payload ++ fcsBytes (fcs payload))).take
      (k.begun.rxMessage.length + (payload ++ fcsBytes (fcs payload)).length - 2) = payload := by
    rw [hlen]
    show (payload ++ fcsBytes (fcs payload)).take (0 + (payload.length + 2) - 2) = payload
    rw [Nat.zero_add, Nat.add_sub_cancel, List.take_left]
  refine ⟨u, hu, (hreads _ _).2 ?_⟩
  unfold frameBits
  rw [hdata] at hr
  rw [stuff_zero, List.append_assoc]
  exact hr

theorem never_wrong {junk : List Bool} (hj : junk.length < 8) (n : Nat) (payload : List Byte) {v : BitVec 16}
    (hv : v ≠ fcs payload)
    (m : Nat) {y : List Bool} (hy : Cut y) (data : List Byte) (u : List Bool) :
    ¬ Reads init (junk ++ (flags (n + 2) ++ (frameBits payload v ++ (flag ++ (flags m ++ y))))) data u := by
  obtain ⟨k, -, hreads⟩ := reads_line hj n (frameBits_ne_nil payload v) (SixFree.noFlag (Nat.zero_le 5) (sixFree_stuff _))
    (flags m ++ y)
  rw [hreads]
  unfold frameBits
  rw [stuff_zero, List.append_assoc]
  exact never_bytes (payload ++ fcsBytes v) (h := k.begun) rfl (show five.length = 5 from rfl) m hy
    (mt (crc_frame payload v).1 hv) data u

theorem never_aborted {junk : List Bool} (hj : junk.length < 8) (n : Nat) {c : List Bool} (habort : HasAbort c)
    (hno : ∀ j, 0 < j → j < 8 + c.length → ¬ flag <+: (flag ++ (c ++ flag)).drop j) (m : Nat) {y : List Bool} (hy : Cut y)
    (data : List Byte) (u : List Bool) : ¬ Reads init (junk ++ (flags (n + 2) ++ (c ++ (flag ++ (flags m ++ y))))) data u := by
  obtain ⟨q, hq, hones⟩ := habort
  have hno5 : NoFlag (five ++ c) := by
    intro j hj
    rw [List.length_append] at hj
    have := hno (3 + j) (by omega) (by simp [five] at hj; omega)
    rwa [← List.drop_drop, drop_five, ← List.append_assoc] at this
  have hnoc : NoFlag c := hno5.drop 5
  have hne : c ≠ [] := by
    rintro rfl
    simp at hq
  obtain ⟨k, -, hreads⟩ := reads_line hj n hne hnoc (flags m ++ y)
  rw [hreads, ← List.append_assoc, ← List.append_assoc flag]
  refine never_abort m hy hno5 ⟨q + 5, by simp [five]; omega, fun i hi => ?_⟩ rfl data u
  rw [getD_append_right (by simp [five]; omega)]
  show c.getD (q + 5 + i - 5) false = true
  rw [show q + 5 + i - 5 = q + i by omega]
  exact hones i hi

end SoftHdlc

end Divas.Tty
