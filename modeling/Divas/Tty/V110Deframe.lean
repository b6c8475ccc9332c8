/-
  Divas.Tty.V110Deframe — the deframer of V.110 and a deframer on the bits of the line.

  `deframe` looks for frames in a list of bits; it has no window and no pieces, and does
  nothing before it has the bits that decide. A turn of `do_deframe` does the same if the
  window is not filled over its end (`Fills`) and the bits that decide are in it (`Decides`).
  The last turn of each call does not wait for them.

  Proved, for all irates and all pieces of the line whose turns meet both: `do_deframe` returns
  the frames that `deframe` finds on all bits together, but for those still in the window; the
  window has never more than 32 bits, and a call ends after a number of steps linear in its
  length (`v110_deframing`). With short pieces the window runs empty, and its length wraps
  (`v110_underflow`).
-/

import Mathlib.Data.List.Induction
import Mathlib.Tactic.IntervalCases
import Divas.Lib.Bits
import Divas.Lib.Run
import Divas.Tty.V110

namespace Divas.Tty.V110

open Divas.Lib.Bits Divas.Lib.Run

/-! ## The bits of the line -/

def bitsOfByte (r : Irate) (b : Octet) : List Bool := (List.range r.bits).map b.getLsbD

def lineBits (r : Irate) (data : List Octet) : List Bool := data.flatMap (bitsOfByte r)

/-- Eight bits as a byte, the first one highest. -/
def octetOf (bs : List Bool) : Octet := ofBits 8 (((List.range 8).map fun i => bs.getD i false).reverse)

theorem octetOf_append {bs : List Bool} (more : List Bool) (h : 8 ≤ bs.length) : octetOf (bs ++ more) = octetOf bs := by
  unfold octetOf
  congr 2
  refine List.map_congr_left ?_
  intro i hi
  have := List.mem_range.mp hi
  exact getD_append_left (by omega)

/-! ## The deframer -/

/-- The bits that decide are there. -/
def Decided (part : List Octet) (bs : List Bool) : Prop :=
  if part = [] then 9 ≤ bs.length ∨ true ∈ bs.take 8
  else if part.length ≤ 8 then 9 ≤ bs.length ∨ (8 ≤ bs.length ∧ bs.getD 0 false = true)
  else 8 ≤ bs.length ∨ (1 ≤ bs.length ∧ bs.getD 0 false = false)

instance (part : List Octet) (bs : List Bool) : Decidable (Decided part bs) := by
  unfold Decided
  infer_instance

/-- What a decision gives: the octets of a frame so far, the bits to drop, and a frame. -/
structure Decision where
  part : List Octet
  drop : Nat
  frame : Option (List Octet)
  deriving DecidableEq, Repr

/-- A zero octet and a one begin a frame; nine octets follow, each with a one in front. The one
    behind an octet is enough, too, unless it is the last. -/
def decision (part : List Octet) (bs : List Bool) : Decision :=
  if part = [] then if true ∉ bs.take 8 ∧ bs.getD 8 false = true then ⟨[0], 8, none⟩ else ⟨[], 1, none⟩
  else if part.length ≤ 8 then
    if bs.getD 0 false = true ∨ bs.getD 8 false = true then ⟨part ++ [octetOf bs], 8, none⟩ else ⟨[], 1, none⟩
  else if bs.getD 0 false = true then ⟨[], 8, some (part ++ [octetOf bs])⟩
  else ⟨[], 1, none⟩

theorem decided_pos {part : List Octet} {bs : List Bool} (h : Decided part bs) : 1 ≤ bs.length := by
  unfold Decided at h
  split at h
  · rcases h with h | h
    · omega
    · cases bs with
      | nil => cases h
      | cons b bs => exact Nat.succ_pos _
  split at h
  · omega
  · omega

theorem decision_pos (part : List Octet) (bs : List Bool) : 1 ≤ (decision part bs).drop := by
  unfold decision
  split
  · split
    · exact (by decide : 1 ≤ 8)
    · exact le_rfl
  split
  · split
    · exact (by decide : 1 ≤ 8)
    · exact le_rfl
  split
  · exact (by decide : 1 ≤ 8)
  · exact le_rfl

/-- The frames in the bits. -/
def deframe (part : List Octet) (bs : List Bool) : List (List Octet) :=
  if _ : Decided part bs then
    (decision part bs).frame.toList ++ deframe (decision part bs).part (bs.drop (decision part bs).drop)
  else []
termination_by bs.length
decreasing_by
  have h1 := decided_pos ‹Decided part bs›
  have h2 := decision_pos part bs
  rw [List.length_drop]
  omega

/-- As many bits as are dropped are there. -/
theorem decision_drop_le {part : List Octet} {bs : List Bool} (h : Decided part bs) : (decision part bs).drop ≤ bs.length := by
  have hpos := decided_pos h
  unfold Decided at h
  unfold decision
  split at h
  case isTrue hp =>
    rw [if_pos hp]
    split
    case isTrue hz =>
      rcases h with h | h
      · exact Nat.le_of_succ_le h
      · exact absurd h hz.1
    case isFalse => exact hpos
  case isFalse hp =>
    rw [if_neg hp]
    split at h
    case isTrue h8 =>
      rw [if_pos h8]
      split
      · show 8 ≤ bs.length
        omega
      · exact hpos
    case isFalse h8 =>
      rw [if_neg h8]
      split
      case isTrue h1 =>
        show 8 ≤ bs.length
        rw [h1] at h
        simpa using h
      case isFalse => exact hpos

/-- More bits do not change a decision. -/
theorem decided_append {part : List Octet} {bs : List Bool} (h : Decided part bs) (more : List Bool) :
    Decided part (bs ++ more) ∧ decision part (bs ++ more) = decision part bs := by
  have hpos := decided_pos h
  have h0 : (bs ++ more).getD 0 false = bs.getD 0 false := getD_append_left hpos
  unfold Decided at h ⊢
  unfold decision
  rw [h0, List.length_append]
  by_cases hp : part = []
  · rw [if_pos hp] at h ⊢
    rw [if_pos hp, if_pos hp]
    have hmem : true ∈ bs.take 8 → true ∈ (bs ++ more).take 8 := by
      intro hm
      rw [List.take_append]
      exact List.mem_append_left _ hm
    by_cases hm : true ∈ bs.take 8
    · refine ⟨Or.inr (hmem hm), ?_⟩
      rw [if_neg (fun hc => hc.1 (hmem hm)), if_neg (fun hc => hc.1 hm)]
    · have hlen : 9 ≤ bs.length := h.resolve_right hm
      refine ⟨Or.inl (by omega), ?_⟩
      rw [List.take_append_of_le_length (by omega), getD_append_left (by omega)]
  · rw [if_neg hp] at h ⊢
    rw [if_neg hp, if_neg hp]
    by_cases h8 : part.length ≤ 8
    · rw [if_pos h8] at h ⊢
      rw [if_pos h8, if_pos h8]
      rcases h with hlen | ⟨hlen, h1⟩
      · refine ⟨Or.inl (by omega), ?_⟩
        rw [getD_append_left (by omega), octetOf_append more (by omega)]
      · refine ⟨Or.inr ⟨by omega, h1⟩, ?_⟩
        rw [if_pos (Or.inl h1), if_pos (Or.inl h1), octetOf_append more (by omega)]
    · rw [if_neg h8] at h ⊢
      rw [if_neg h8, if_neg h8]
      rcases h with hlen | ⟨hlen, h1⟩
      · refine ⟨Or.inl (by omega), ?_⟩
        rw [octetOf_append more hlen]
      · refine ⟨Or.inr ⟨by omega, h1⟩, ?_⟩
        rw [h1, if_neg Bool.false_ne_true, if_neg Bool.false_ne_true]

theorem deframe_decided {part : List Octet} {bs : List Bool} (h : Decided part bs) (more : List Bool) :
    deframe part (bs ++ more) =
      (decision part bs).frame.toList ++ deframe (decision part bs).part (bs.drop (decision part bs).drop ++ more) := by
  obtain ⟨hd, he⟩ := decided_append h more
  rw [deframe, dif_pos hd, he, List.drop_append_of_le_length (decision_drop_le h)]

/-! ## The window -/

/-- The bits, the first one highest, and zeros behind them. -/
def Window (w : BitVec 32) (bs : List Bool) : Prop := ∀ i < 32, w.getLsbD (31 - i) = bs.getD i false

theorem and_eq_zero_iff (w m : BitVec 32) : w &&& m = 0 ↔ ∀ i < 32, m.getLsbD (31 - i) = true → w.getLsbD (31 - i) = false := by
  constructor
  · intro h i _ hm
    have hbit := congrArg (fun v : BitVec 32 => v.getLsbD (31 - i)) h
    rw [BitVec.getLsbD_and, hm, Bool.and_true] at hbit
    simpa using hbit
  · intro h
    apply BitVec.eq_of_getLsbD_eq
    intro j hj
    have hj' := h (31 - j) (by omega)
    rw [show 31 - (31 - j) = j by omega] at hj'
    rw [BitVec.getLsbD_and, show BitVec.getLsbD (0 : BitVec 32) j = false from BitVec.getLsbD_zero]
    cases hm : m.getLsbD j with
    | false => exact Bool.and_false _
    | true => rw [hj' hm, Bool.false_and]

section Window

variable {w : BitVec 32} {bs : List Bool}

theorem Window.zero : Window 0 [] := by
  intro i _
  exact BitVec.getLsbD_zero

/-- The mask of the first octet, of the ninth bit, of both first bits, and of the first. -/
theorem masks : (∀ i < 32, (0xff000000 : BitVec 32).getLsbD (31 - i) = decide (i < 8)) ∧
    (∀ i < 32, (0x00800000 : BitVec 32).getLsbD (31 - i) = decide (i = 8)) ∧
    (∀ i < 32, (0x80800000 : BitVec 32).getLsbD (31 - i) = decide (i = 0 ∨ i = 8)) ∧
    ∀ i < 32, (0x80000000 : BitVec 32).getLsbD (31 - i) = decide (i = 0) := by
  decide

theorem Window.octet_zero (h : Window w bs) : w &&& 0xff000000 = 0 ↔ true ∉ bs.take 8 := by
  rw [and_eq_zero_iff]
  constructor
  · intro hz hm
    obtain ⟨i, hi, hb⟩ := List.mem_iff_getElem.mp hm
    rw [List.length_take] at hi
    have hz' := hz i (by omega) ((masks.1 i (by omega)).trans (decide_eq_true (by omega)))
    rw [h i (by omega), List.getD_eq_getElem?_getD, List.getElem?_eq_getElem (by omega)] at hz'
    rw [List.getElem_take] at hb
    rw [hb] at hz'
    cases hz'
  · intro hno i hi hm
    rw [masks.1 i hi, decide_eq_true_iff] at hm
    rw [h i hi]
    by_cases hlen : i < bs.length
    · rw [List.getD_eq_getElem?_getD, List.getElem?_eq_getElem hlen]
      cases hb : bs[i] with
      | false => rfl
      | true =>
        refine absurd (List.mem_iff_getElem.mpr ⟨i, ?_, ?_⟩) hno
        · rw [List.length_take]
          omega
        · rw [List.getElem_take, hb]
    · exact getD_of_length_le (by omega)

theorem Window.ninth (h : Window w bs) : w &&& 0x00800000 ≠ 0 ↔ bs.getD 8 false = true := by
  rw [Ne, and_eq_zero_iff, ← h 8 (by omega), ← Bool.not_eq_false, not_iff_not]
  constructor
  · exact fun hz => hz 8 (by omega) (by decide)
  · intro hb i hi hm
    rw [masks.2.1 i hi, decide_eq_true_iff] at hm
    rw [hm]
    exact hb

theorem Window.firstOrNinth (h : Window w bs) : w &&& 0x80800000 ≠ 0 ↔ bs.getD 0 false = true ∨ bs.getD 8 false = true := by
  rw [Ne, and_eq_zero_iff, ← h 8 (by omega), ← h 0 (by omega), ← Bool.not_eq_false, ← Bool.not_eq_false,
    ← not_and_or, not_iff_not]
  constructor
  · exact fun hz => ⟨hz 0 (by omega) (by decide), hz 8 (by omega) (by decide)⟩
  · rintro ⟨h0, h8⟩ i hi hm
    rw [masks.2.2.1 i hi, decide_eq_true_iff] at hm
    rcases hm with hm | hm
    · rw [hm]
      exact h0
    · rw [hm]
      exact h8

theorem Window.firstBit (h : Window w bs) : w &&& 0x80000000 ≠ 0 ↔ bs.getD 0 false = true := by
  rw [Ne, and_eq_zero_iff, ← h 0 (by omega), ← Bool.not_eq_false, not_iff_not]
  constructor
  · exact fun hz => hz 0 (by omega) (by decide)
  · intro hb i hi hm
    rw [masks.2.2.2 i hi, decide_eq_true_iff] at hm
    rw [hm]
    exact hb

theorem Window.shift (h : Window w bs) (hlen : bs.length ≤ 32) (n : Nat) : Window (w <<< n) (bs.drop n) := by
  intro i hi
  rw [BitVec.getLsbD_shiftLeft, getD_drop]
  by_cases hn : 31 - i < n
  · rw [getD_of_length_le (by omega), decide_eq_true hn]
    simp
  · have hbit := h (n + i) (by omega)
    rw [show 31 - (n + i) = 31 - i - n by omega] at hbit
    rw [hbit, decide_eq_false hn, decide_eq_true (show 31 - i < 32 by omega)]
    rfl

theorem Window.octet (h : Window w bs) : ((w &&& 0xff000000) >>> 24).setWidth 8 = octetOf bs := by
  apply BitVec.eq_of_getLsbD_eq
  intro j hj
  unfold octetOf
  rw [getLsbD_ofBits_lt hj, BitVec.getLsbD_setWidth, BitVec.getLsbD_ushiftRight, BitVec.getLsbD_and]
  have hbit := h (7 - j) (by omega)
  have hmask := masks.1 (7 - j) (by omega)
  rw [show 31 - (7 - j) = 24 + j by omega] at hbit hmask
  rw [hbit, hmask, decide_eq_true hj, decide_eq_true (show 7 - j < 8 by omega), Bool.and_true, Bool.true_and]
  interval_cases j <;> rfl

theorem Irate.bits_pos (r : Irate) : 1 ≤ r.bits := by
  cases r <;> decide

theorem length_bitsOfByte (r : Irate) (b : Octet) : (bitsOfByte r b).length = r.bits := by
  unfold bitsOfByte
  rw [List.length_map, List.length_range]

theorem getD_bitsOfByte (r : Irate) (b : Octet) {i : Nat} (h : i < r.bits) : (bitsOfByte r b).getD i false = b.getLsbD i := by
  unfold bitsOfByte
  rw [List.getD_eq_getElem?_getD, List.getElem?_map, List.getElem?_range h]
  rfl

/-- The used bits in the order of the line. -/
theorem refill_bit (s : SoftV110) (b : Octet) {j : Nat} (hj : j < 32) :
    (s.refill b).getLsbD j = (decide (j < s.irate.bits) && b.getLsbD (s.irate.bits - 1 - j)) := by
  unfold SoftV110.refill
  dsimp only
  revert b j
  cases s.irate with
  | irate8K => decide +kernel
  | irate16K => decide +kernel
  | irate32K => decide +kernel
  | irate64K => decide +kernel

/-- The bits of a byte behind those in the window. -/
theorem Window.append {r : Irate} {s : SoftV110} (hr : s.irate = r) (h : Window s.wnd bs) (hlen : s.len.toNat = bs.length)
    (hroom : bs.length + r.bits ≤ 32) (b : Octet) : Window (s.wnd ||| s.refill b <<< s.missing) (bs ++ bitsOfByte r b) := by
  have hmissing : s.missing = 32 - bs.length - r.bits := by
    have hpos := r.bits_pos
    unfold SoftV110.missing
    rw [hlen, hr]
    omega
  intro i hi
  rw [BitVec.getLsbD_or, h i hi, BitVec.getLsbD_shiftLeft, hmissing, refill_bit s b (by omega), hr]
  by_cases hin : i < bs.length
  · rw [getD_append_left hin, decide_eq_false (show ¬ 31 - i - (32 - bs.length - r.bits) < r.bits by omega)]
    simp
  · rw [getD_append_right (Nat.le_of_not_lt hin), getD_of_length_le (Nat.le_of_not_lt hin)]
    by_cases hb : i - bs.length < r.bits
    · rw [getD_bitsOfByte r b hb, decide_eq_true (show 31 - i < 32 by omega),
        decide_eq_false (show ¬ 31 - i < 32 - bs.length - r.bits by omega),
        decide_eq_true (show 31 - i - (32 - bs.length - r.bits) < r.bits by omega),
        show r.bits - 1 - (31 - i - (32 - bs.length - r.bits)) = i - bs.length by omega]
      simp
    · rw [getD_of_length_le (by rw [length_bitsOfByte]; omega), decide_eq_true (show 31 - i < 32 - bs.length - r.bits by omega)]
      simp

end Window

/-! ## Turns -/

/-- The window is not filled over its end: the bits in it are those of whole bytes, or the data
    ends before. -/
def Fills (s : SoftV110) (data : List Octet) : Prop :=
  s.len.toNat ≤ 32 - s.irate.bits → s.len.toNat % s.irate.bits = 0 ∨ s.len.toNat + data.length * s.irate.bits ≤ 32

/-- The bits that decide are in the window. -/
def Decides (s : SoftV110) : Prop :=
  match s.state with
  | .zeroOctett => 9 ≤ s.len.toNat ∨ s.wnd &&& 0xff000000 ≠ 0
  | .sync =>
    if s.rxFramePos ≤ 8 then 9 ≤ s.len.toNat ∨ (8 ≤ s.len.toNat ∧ s.wnd &&& 0x80000000 ≠ 0)
    else 8 ≤ s.len.toNat ∨ s.wnd &&& 0x80000000 = 0

instance (s : SoftV110) (data : List Octet) : Decidable (Fills s data) := inferInstanceAs (Decidable (_ → _))

instance (s : SoftV110) : Decidable (Decides s) := by
  unfold Decides
  cases s.state with
  | zeroOctett => exact inferInstance
  | sync => exact inferInstance

/-- The octets of the frame so far. -/
def SoftV110.part (s : SoftV110) : List Octet := (List.range s.rxFramePos).map s.rxFrame

/-- The bits `line` have been taken from the line, and the last of them, `buf`, are in the window. -/
structure Holds (r : Irate) (line buf : List Bool) (s : SoftV110) (frames : List (List Octet)) : Prop where
  irate : s.irate = r
  len : s.len.toNat = buf.length
  le : buf.length ≤ 32
  wnd : Window s.wnd buf
  pos : s.rxFramePos ≤ 9
  state : s.state = .zeroOctett ↔ s.rxFramePos = 0
  spec : ∀ more, deframe [] (line ++ more) = frames ++ deframe s.part (buf ++ more)

section Turns

variable {r : Irate} {line buf : List Bool} {s : SoftV110} {frames : List (List Octet)}

theorem lineBits_cons (r : Irate) (b : Octet) (data : List Octet) :
    lineBits r (b :: data) = bitsOfByte r b ++ lineBits r data := rfl

theorem Holds.refillByte (h : Holds r line buf s frames) (hroom : buf.length + r.bits ≤ 32) (b : Octet) :
    Holds r (line ++ bitsOfByte r b) (buf ++ bitsOfByte r b) (s.refillByte b) frames := by
  have hlen := h.len
  refine ⟨h.irate, ?_, ?_, h.wnd.append h.irate hlen hroom b, h.pos, h.state, ?_⟩
  · show (s.len + BitVec.ofNat 32 s.irate.bits).toNat = _
    rw [h.irate, BitVec.toNat_add, BitVec.toNat_ofNat, hlen, List.length_append, length_bitsOfByte]
    omega
  · rw [List.length_append, length_bitsOfByte]
    exact hroom
  · intro more
    rw [List.append_assoc, List.append_assoc]
    exact h.spec _

/-- The window is filled. -/
theorem Holds.refillLoop (data : List Octet) :
    ∀ {line buf : List Bool} {s : SoftV110}, Holds r line buf s frames → (data ≠ [] → buf.length + r.bits ≤ 32) →
      (buf.length % r.bits = 0 ∨ buf.length + data.length * r.bits ≤ 32) →
      ∃ taken, data = taken ++ (s.refillLoop data).2 ∧ (data ≠ [] → taken ≠ []) ∧
        Holds r (line ++ lineBits r taken) (buf ++ lineBits r taken) (s.refillLoop data).1 frames := by
  induction data with
  | nil =>
    intro line buf s h _ _
    refine ⟨[], rfl, fun hne => absurd rfl hne, ?_⟩
    rw [show lineBits r [] = [] from rfl, List.append_nil, List.append_nil]
    exact h
  | cons b data ih =>
    intro line buf s h hroom hfills
    have hstep := h.refillByte (hroom (List.cons_ne_nil b data)) b
    have hlen' : (buf ++ bitsOfByte r b).length = buf.length + r.bits := by
      rw [List.length_append, length_bitsOfByte]
    unfold SoftV110.refillLoop
    split
    case isTrue hlt =>
      rw [hstep.len, hlen'] at hlt
      have hdvd : buf.length % r.bits = 0 → buf.length + r.bits + r.bits ≤ 32 := by
        intro h0
        cases r with
        | irate8K =>
          show buf.length + 1 + 1 ≤ 32
          exact hlt
        | irate16K =>
          have h0 : buf.length % 2 = 0 := h0
          have hlt : buf.length + 2 < 32 := hlt
          show buf.length + 2 + 2 ≤ 32
          omega
        | irate32K =>
          have h0 : buf.length % 4 = 0 := h0
          have hlt : buf.length + 4 < 32 := hlt
          show buf.length + 4 + 4 ≤ 32
          omega
        | irate64K =>
          have h0 : buf.length % 8 = 0 := h0
          have hlt : buf.length + 8 < 32 := hlt
          show buf.length + 8 + 8 ≤ 32
          omega
      rw [List.length_cons, Nat.succ_mul] at hfills
      obtain ⟨taken, hdata, -, hholds⟩ := ih hstep (by
        intro hne
        rw [hlen']
        rcases hfills with h0 | hsum
        · exact hdvd h0
        · have hone := Nat.mul_le_mul_right r.bits (List.length_pos_of_ne_nil hne)
          omega) (by
        rw [hlen', Nat.add_mod_right]
        rcases hfills with h0 | hsum
        · exact Or.inl h0
        · right
          omega)
      refine ⟨b :: taken, ?_, fun _ => List.cons_ne_nil b taken, ?_⟩
      · rw [List.cons_append, ← hdata]
      · rw [lineBits_cons, ← List.append_assoc, ← List.append_assoc]
        exact hholds
    case isFalse =>
      refine ⟨[b], rfl, fun _ => List.cons_ne_nil b [], ?_⟩
      rw [show lineBits r [b] = bitsOfByte r b from List.append_nil _]
      exact hstep

theorem length_lineBits (r : Irate) (data : List Octet) : (lineBits r data).length = r.bits * data.length := by
  induction data with
  | nil => rfl
  | cons b data ih => rw [lineBits_cons, List.length_append, length_bitsOfByte, ih, List.length_cons, Nat.mul_succ, Nat.add_comm]

theorem Holds.refilled (h : Holds r line buf s frames) {data : List Octet} (hne : data ≠ []) (hf : Fills s data) :
    ∃ taken, data = taken ++ (s.refilled data).2 ∧ 1 ≤ (buf ++ lineBits r taken).length ∧
      Holds r (line ++ lineBits r taken) (buf ++ lineBits r taken) (s.refilled data).1 frames := by
  unfold Fills at hf
  rw [h.len, h.irate] at hf
  unfold SoftV110.refilled
  rw [h.len, h.irate]
  split
  case isTrue hroom =>
    have hle : r.bits ≤ 32 := by
      cases r <;> decide
    obtain ⟨taken, hdata, htaken, hholds⟩ := h.refillLoop data (fun _ => by omega) (hf hroom)
    have hpos := Nat.mul_le_mul r.bits_pos (List.length_pos_of_ne_nil (htaken hne))
    refine ⟨taken, hdata, ?_, hholds⟩
    rw [List.length_append, length_lineBits]
    omega
  case isFalse hfull =>
    have hle : r.bits ≤ 8 := by
      cases r <;> decide
    refine ⟨[], rfl, ?_, ?_⟩
    · rw [List.length_append]
      omega
    · rw [show lineBits r [] = [] from rfl, List.append_nil, List.append_nil]
      exact h

theorem length_part (s : SoftV110) : s.part.length = s.rxFramePos := by
  unfold SoftV110.part
  rw [List.length_map, List.length_range]

/-- One octet more. -/
theorem part_putOctet (s : SoftV110) (b : Octet) :
    (List.range (s.rxFramePos + 1)).map (Function.update s.rxFrame s.rxFramePos b) = s.part ++ [b] := by
  unfold SoftV110.part
  rw [List.range_succ, List.map_append, List.map_singleton, Function.update_self]
  congr 1
  refine List.map_congr_left ?_
  intro i hi
  exact Function.update_of_ne (Nat.ne_of_lt (List.mem_range.mp hi)) _ _

/-- A decision is carried out. -/
theorem Holds.decided {t : SoftV110} (h : Holds r line buf s frames) (hd : Decided s.part buf) (hr : t.irate = s.irate)
    (hw : t.wnd = s.wnd <<< (decision s.part buf).drop) (hl : t.len = s.len - BitVec.ofNat 32 (decision s.part buf).drop)
    (hpos : t.rxFramePos ≤ 9) (hst : t.state = .zeroOctett ↔ t.rxFramePos = 0) (hp : t.part = (decision s.part buf).part) :
    Holds r line (buf.drop (decision s.part buf).drop) t (frames ++ (decision s.part buf).frame.toList) := by
  have hdrop := decision_drop_le hd
  have hlen := h.len
  have hle := h.le
  refine ⟨hr.trans h.irate, ?_, ?_, ?_, hpos, hst, ?_⟩
  · rw [hl, BitVec.toNat_sub, BitVec.toNat_ofNat, hlen, List.length_drop]
    omega
  · rw [List.length_drop]
    omega
  · rw [hw]
    exact h.wnd.shift hle _
  · intro more
    rw [h.spec, deframe_decided hd, hp, List.append_assoc]

theorem Holds.zeroTurn (h : Holds r line buf s frames) (hz : s.state = .zeroOctett) (hd : Decides s) :
    ∃ d, 1 ≤ d ∧ d ≤ buf.length ∧ Holds r line (buf.drop d) s.zeroTurn frames := by
  have hpos := h.state.mp hz
  have hpart : s.part = [] := List.length_eq_zero_iff.mp ((length_part s).trans hpos)
  have hdec : Decided s.part buf := by
    unfold Decides at hd
    unfold Decided
    rw [hz] at hd
    rw [if_pos hpart, ← h.len]
    rcases hd with hd | hd
    · exact Or.inl hd
    · right
      by_contra hno
      exact hd (h.wnd.octet_zero.mpr hno)
  have htake : (⟨[], 1, none⟩ : Decision) = decision s.part buf →
      ∃ d, 1 ≤ d ∧ d ≤ buf.length ∧ Holds r line (buf.drop d) s.takeBit frames := by
    intro he
    have hhold := h.decided (t := s.takeBit) hdec rfl (by rw [← he]; rfl) (by rw [← he]; rfl) h.pos h.state
        (by rw [← he]; exact hpart)
    rw [← he, Option.toList_none, List.append_nil] at hhold
    exact ⟨1, le_rfl, decided_pos hdec, hhold⟩
  unfold SoftV110.zeroTurn
  by_cases h8 : true ∈ buf.take 8
  · rw [if_neg (fun hc => h.wnd.octet_zero.mp hc h8)]
    refine htake ?_
    unfold decision
    rw [if_pos hpart, if_neg (fun hc => hc.1 h8)]
  · rw [if_pos (h.wnd.octet_zero.mpr h8)]
    by_cases h9 : buf.getD 8 false = true
    · rw [if_pos (h.wnd.ninth.mpr h9)]
      have he : decision s.part buf = ⟨[0], 8, none⟩ := by
        unfold decision
        rw [if_pos hpart, if_pos ⟨h8, h9⟩]
      have hle := decision_drop_le hdec
      have hhold := h.decided
        (t := { s.takeOctet with rxFrame := Function.update s.rxFrame 0 0, rxFramePos := s.rxFramePos + 1, state := .sync })
        hdec rfl (by rw [he]; rfl) (by rw [he]; rfl) (by show s.rxFramePos + 1 ≤ 9; omega)
        ⟨nofun, fun hc => absurd hc (Nat.succ_ne_zero _)⟩ (by
          rw [he]
          show (List.range (s.rxFramePos + 1)).map (Function.update s.rxFrame 0 0) = [0]
          rw [hpos]
          rfl)
      rw [he] at hhold hle
      rw [Option.toList_none, List.append_nil] at hhold
      exact ⟨8, (by decide : 1 ≤ 8), hle, hhold⟩
    · rw [if_neg (fun hc => h9 (h.wnd.ninth.mp hc))]
      refine htake ?_
      unfold decision
      rw [if_pos hpart, if_neg (fun hc => h9 hc.2)]

theorem Holds.syncTurn (h : Holds r line buf s frames) (hs : s.state = .sync) (hd : Decides s) (h1 : 1 ≤ buf.length) :
    ∃ d, 1 ≤ d ∧ d ≤ buf.length ∧ Holds r line (buf.drop d) s.syncTurn.1 (frames ++ s.syncTurn.2.toList) := by
  have hne : s.rxFramePos ≠ 0 := by
    intro h0
    rw [h.state.mpr h0] at hs
    cases hs
  have hlen := length_part s
  have hpart : s.part ≠ [] := by
    intro hp
    rw [hp] at hlen
    exact hne hlen.symm
  have hdec : Decided s.part buf := by
    unfold Decides at hd
    unfold Decided
    rw [hs] at hd
    dsimp only at hd
    rw [if_neg hpart, hlen, ← h.len]
    split at hd
    case isTrue h8 =>
      rw [if_pos h8]
      rcases hd with hd | ⟨hd, hb⟩
      · exact Or.inl hd
      · exact Or.inr ⟨hd, h.wnd.firstBit.mp hb⟩
    case isFalse h8 =>
      rw [if_neg h8]
      by_cases hb : buf.getD 0 false = true
      · left
        rcases hd with hd | hd
        · exact hd
        · exact absurd hd (h.wnd.firstBit.mpr hb)
      · rw [h.len]
        exact Or.inr ⟨h1, Bool.eq_false_of_not_eq_true hb⟩
  refine ⟨(decision s.part buf).drop, decision_pos s.part buf, decision_drop_le hdec, ?_⟩
  have hput := part_putOctet s s.first
  rw [show s.first = octetOf buf from h.wnd.octet] at hput
  unfold SoftV110.syncTurn
  by_cases h8 : s.rxFramePos ≤ 8
  · rw [if_pos h8]
    have h8' : s.part.length ≤ 8 := by rw [hlen]; exact h8
    by_cases hb : buf.getD 0 false = true ∨ buf.getD 8 false = true
    · rw [if_pos (h.wnd.firstOrNinth.mpr hb)]
      have he : decision s.part buf = ⟨s.part ++ [octetOf buf], 8, none⟩ := by
        unfold decision
        rw [if_neg hpart, if_pos h8', if_pos hb]
      have hhold := h.decided (t := { (s.putOctet s.first).takeOctet with rxFramePos := s.rxFramePos + 1 }) hdec rfl
        (by rw [he]; rfl) (by rw [he]; rfl) (by show s.rxFramePos + 1 ≤ 9; omega)
        ⟨fun hc => absurd (hs.symm.trans hc) nofun, fun hc => absurd hc (Nat.succ_ne_zero _)⟩ (by
          rw [he, ← hput, show octetOf buf = s.first from h.wnd.octet.symm]
          rfl)
      rw [he] at hhold ⊢
      exact hhold
    · rw [if_neg (fun hc => hb (h.wnd.firstOrNinth.mp hc))]
      have he : decision s.part buf = ⟨[], 1, none⟩ := by
        unfold decision
        rw [if_neg hpart, if_pos h8', if_neg hb]
      have hhold := h.decided (t := { s.takeBit with rxFramePos := 0, state := .zeroOctett, detectorCounter := 0 }) hdec rfl
        (by rw [he]; rfl) (by rw [he]; rfl) (Nat.zero_le 9) ⟨fun _ => rfl, fun _ => rfl⟩ (by rw [he]; rfl)
      rw [he] at hhold ⊢
      exact hhold
  · rw [if_neg h8]
    have h8' : ¬ s.part.length ≤ 8 := by rw [hlen]; exact h8
    have h9 : s.rxFramePos = 9 := by
      have := h.pos
      omega
    by_cases hb : buf.getD 0 false = true
    · rw [if_pos (h.wnd.firstBit.mpr hb)]
      have he : decision s.part buf = ⟨[], 8, some (s.part ++ [octetOf buf])⟩ := by
        unfold decision
        rw [if_neg hpart, if_neg h8', if_pos hb]
      have hframe : (s.putOctet s.first).frame = s.part ++ [octetOf buf] := by
        rw [← hput, show octetOf buf = s.first from h.wnd.octet.symm, h9]
        show (List.range 10).map (Function.update s.rxFrame s.rxFramePos s.first) = _
        rw [h9]
      have hhold := h.decided
        (t := { (s.putOctet s.first).takeOctet with rxFramePos := 0, state := .zeroOctett, detectorCounter := s.detectorCounter
          + 1 })
        hdec rfl (by rw [he]; rfl) (by rw [he]; rfl) (Nat.zero_le 9) ⟨fun _ => rfl, fun _ => rfl⟩ (by rw [he]; rfl)
      rw [he] at hhold ⊢
      rw [hframe]
      exact hhold
    · rw [if_neg (fun hc => hb (h.wnd.firstBit.mp hc))]
      have he : decision s.part buf = ⟨[], 1, none⟩ := by
        unfold decision
        rw [if_neg hpart, if_neg h8', if_neg hb]
      have hhold := h.decided (t := { s.takeBit with rxFramePos := 0, state := .zeroOctett }) hdec rfl
        (by rw [he]; rfl) (by rw [he]; rfl) (Nat.zero_le 9) ⟨fun _ => rfl, fun _ => rfl⟩ (by rw [he]; rfl)
      rw [he] at hhold ⊢
      exact hhold

/-- A turn takes bytes from the data, and at least a bit from the window. -/
theorem Holds.turn (h : Holds r line buf s frames) {data : List Octet} (hne : data ≠ []) (hf : Fills s data)
    (hd : Decides (s.refilled data).1) :
    ∃ taken buf', data = taken ++ (s.deframeTurn data).2.1 ∧
      Holds r (line ++ lineBits r taken) buf' (s.deframeTurn data).1 (frames ++ (s.deframeTurn data).2.2.toList) ∧
      buf'.length + r.bits * (s.deframeTurn data).2.1.length < buf.length + r.bits * data.length := by
  obtain ⟨taken, hdata, hone, hfill⟩ := h.refilled hne hf
  have hmeasure : ∀ d, 1 ≤ d → ((buf ++ lineBits r taken).drop d).length + r.bits * (s.refilled data).2.length <
      buf.length + r.bits * data.length := by
    intro d hd1
    have hlen : r.bits * data.length = r.bits * (taken ++ (s.refilled data).2).length :=
      congrArg (fun l => r.bits * l.length) hdata
    rw [List.length_append, Nat.mul_add] at hlen
    rw [List.length_append, length_lineBits] at hone
    rw [List.length_drop, List.length_append, length_lineBits]
    omega
  unfold SoftV110.deframeTurn
  dsimp only
  cases hst : (s.refilled data).1.state with
  | zeroOctett =>
    obtain ⟨d, hd1, hd2, hhold⟩ := hfill.zeroTurn hst hd
    refine ⟨taken, _, hdata, ?_, hmeasure d hd1⟩
    rw [Option.toList_none, List.append_nil]
    exact hhold
  | sync =>
    obtain ⟨d, hd1, hd2, hhold⟩ := hfill.syncTurn hst hd hone
    exact ⟨taken, _, hdata, hhold, hmeasure d hd1⟩

end Turns

/-! ## Calls -/

/-- A call of `softv110_decode_process` between two turns. -/
structure Call where
  s : SoftV110
  data : List Octet
  frames : List (List Octet)

/-- Bytes are skipped, or a turn of `do_deframe` is made. -/
def Call.turn (c : Call) : Call :=
  if c.data = [] then c
  else
    match c.s.phase with
    | .idle => ⟨(c.s.skip c.data).1, (c.s.skip c.data).2, c.frames⟩
    | .sync => ⟨(c.s.deframeTurn c.data).1, (c.s.deframeTurn c.data).2.1, c.frames ++ (c.s.deframeTurn c.data).2.2.toList⟩

/-- The condition on a turn. -/
def TurnOk (c : Call) : Prop := c.data ≠ [] → c.s.phase = .sync → Fills c.s c.data ∧ Decides (c.s.refilled c.data).1

instance (c : Call) : Decidable (TurnOk c) := inferInstanceAs (Decidable (_ → _ → _))

/-- The condition on a call: all its turns meet it. -/
def CallOk (c : Call) : Prop := ∀ k, TurnOk (Call.turn^[k] c)

theorem CallOk.turn {c : Call} (h : CallOk c) : CallOk c.turn := fun k => h (k + 1)

/-- The bytes `given` have been given to the detector, the last of them are still to be used. -/
inductive Progress (r : Irate) (given : List Octet) (c : Call) : Prop
  | idle (phase : c.s.phase = .idle) (start : c.s = { softV110Init r with detectDelay := c.s.detectDelay })
    (pos : 0 < c.s.detectDelay) (le : c.s.detectDelay ≤ v110DetectionDelay) (frames : c.frames = [])
    (skipped : v110DetectionDelay - c.s.detectDelay ≤ given.length)
    (data : c.data = given.drop (v110DetectionDelay - c.s.detectDelay))
  | sync (used : List Octet) (buf : List Bool) (phase : c.s.phase = .sync) (le : v110DetectionDelay ≤ given.length)
    (data : given.drop v110DetectionDelay = used ++ c.data) (holds : Holds r (lineBits r used) buf c.s c.frames)

/-- The turns that a call may still take. -/
def Call.left (c : Call) : Nat := c.s.len.toNat + 8 * c.data.length + if c.s.phase = .idle then 1 else 0

section Calls

variable {r : Irate} {given : List Octet} {c : Call}

theorem holds_init (r : Irate) (n : Nat) (ph : Phase) : Holds r [] [] { softV110Init r with detectDelay := n, phase := ph } [] :=
  ⟨rfl, rfl, Nat.zero_le 32, Window.zero, Nat.zero_le 9, ⟨fun _ => rfl, fun _ => rfl⟩, fun _ => rfl⟩

theorem deframe_phase (s : SoftV110) (data : List Octet) : (s.deframeTurn data).1.phase = s.phase := by
  have hloop : ∀ (data : List Octet) (s : SoftV110), (s.refillLoop data).1.phase = s.phase := by
    intro data
    induction data with
    | nil => exact fun _ => rfl
    | cons b data ih =>
      intro s
      unfold SoftV110.refillLoop
      split
      · exact ih _
      · rfl
  have hfill : (s.refilled data).1.phase = s.phase := by
    unfold SoftV110.refilled
    split
    · exact hloop data s
    · rfl
  unfold SoftV110.deframeTurn
  dsimp only
  cases (s.refilled data).1.state with
  | zeroOctett =>
    rw [← hfill]
    dsimp only
    unfold SoftV110.zeroTurn
    split
    · split
      · rfl
      · rfl
    · rfl
  | sync =>
    rw [← hfill]
    dsimp only
    unfold SoftV110.syncTurn
    split
    · split
      · rfl
      · rfl
    split
    · rfl
    · rfl

/-- A turn of a call. -/
theorem Progress.turn (h : Progress r given c) (hne : c.data ≠ []) (ht : TurnOk c) :
    Progress r given c.turn ∧ c.turn.left < c.left := by
  have hlen := List.length_pos_of_ne_nil hne
  unfold Call.turn
  rw [if_neg hne]
  cases h with
  | idle phase start pos le frames skipped data =>
    rw [phase]
    dsimp only
    have hgiven := congrArg List.length data
    rw [List.length_drop] at hgiven
    by_cases hall : c.s.detectDelay ≤ c.data.length
    · have hskip : c.s.skip c.data =
          ({ softV110Init r with detectDelay := 0, phase := .sync }, c.data.drop c.s.detectDelay) := by
        unfold SoftV110.skip
        dsimp only
        rw [Nat.min_eq_left hall, Nat.sub_self, if_pos rfl]
        exact (congrArg
          (fun s : SoftV110 => (({ s with detectDelay := 0, phase := .sync } : SoftV110), c.data.drop c.s.detectDelay)) start :)
      rw [hskip, frames]
      constructor
      · refine .sync [] [] rfl (by omega) ?_ (holds_init r 0 .sync)
        show given.drop v110DetectionDelay = [] ++ c.data.drop c.s.detectDelay
        rw [List.nil_append, data, List.drop_drop, show v110DetectionDelay - c.s.detectDelay + c.s.detectDelay
          = v110DetectionDelay by omega]
      · unfold Call.left
        rw [phase]
        dsimp only
        rw [List.length_drop]
        show 0 + _ + 0 < _ + _ + 1
        omega
    · have hskip : c.s.skip c.data
        = ({ softV110Init r with detectDelay := c.s.detectDelay - c.data.length, phase := .idle }, []) := by
        unfold SoftV110.skip
        dsimp only
        rw [Nat.min_eq_right (by omega), List.drop_length, if_neg (by omega)]
        exact (congrArg (fun s : SoftV110 =>
          (({ s with detectDelay := c.s.detectDelay - c.data.length, phase := .idle } : SoftV110), ([] : List Octet))) start :)
      rw [hskip, frames]
      constructor
      · refine .idle rfl rfl ?_ ?_ rfl ?_ ?_
        · show 0 < c.s.detectDelay - c.data.length
          omega
        · show c.s.detectDelay - c.data.length ≤ _
          omega
        · show v110DetectionDelay - (c.s.detectDelay - c.data.length) ≤ _
          omega
        · refine (List.drop_eq_nil_of_le ?_).symm
          show given.length ≤ v110DetectionDelay - (c.s.detectDelay - c.data.length)
          omega
      · unfold Call.left
        rw [phase]
        show 0 + 0 + 1 < _ + _ + 1
        omega
  | sync used buf phase le data holds =>
    rw [phase]
    dsimp only
    obtain ⟨hf, hd⟩ := ht hne phase
    obtain ⟨taken, buf', hdata, hhold, hlt⟩ := holds.turn hne hf hd
    have hphase := (deframe_phase c.s c.data).trans phase
    constructor
    · refine .sync (used ++ taken) buf' hphase le ?_ ?_
      · rw [data, List.append_assoc, ← hdata]
      · rw [show lineBits r (used ++ taken) = lineBits r used ++ lineBits r taken from List.flatMap_append]
        exact hhold
    · have hle : r.bits ≤ 8 := by
        cases r <;> decide
      have hlen2 := congrArg List.length hdata
      rw [List.length_append] at hlen2
      unfold Call.left
      dsimp only
      rw [hphase, phase, hhold.len, holds.len]
      obtain ⟨m, hm⟩ : ∃ m, c.data.length = m + (c.s.deframeTurn c.data).2.1.length := ⟨taken.length, hlen2⟩
      rw [hm, Nat.mul_add] at hlt
      rw [hm]
      have := Nat.mul_le_mul_right m hle
      omega

/-- Any number of turns. -/
theorem Progress.turns (h : Progress r given c) (hok : CallOk c) : ∀ k, Progress r given (Call.turn^[k] c) := by
  intro k
  induction k generalizing c with
  | zero => exact h
  | succ k ih =>
    rw [Function.iterate_succ_apply]
    by_cases hne : c.data = []
    · refine ih ?_ hok.turn
      unfold Call.turn
      rw [if_pos hne]
      exact h
    · exact ih (h.turn hne (hok 0)).1 hok.turn

theorem Call.turn_sync {s : SoftV110} {b : Octet} {data : List Octet} {frames : List (List Octet)} (hs : s.phase = .sync) :
    Call.turn ⟨s, b :: data, frames⟩ =
      ⟨(s.deframeTurn (b :: data)).1, (s.deframeTurn (b :: data)).2.1, frames ++ (s.deframeTurn (b :: data)).2.2.toList⟩ := by
  unfold Call.turn
  rw [if_neg (List.cons_ne_nil b data)]
  dsimp only
  rw [hs]

/-- `do_deframe` is turns, until there is a frame or no more data. -/
theorem doDeframe_turns (fuel : Nat) :
    ∀ {s : SoftV110} {data : List Octet} {frames : List (List Octet)}, s.phase = .sync → Progress r given ⟨s, data, frames⟩ →
      CallOk ⟨s, data, frames⟩ → Call.left ⟨s, data, frames⟩ ≤ fuel → data ≠ [] →
      ∃ k left s' rest frame, SoftV110.doDeframe fuel s data = some (left, s', rest, frame) ∧
        Call.turn^[k] ⟨s, data, frames⟩ = ⟨s', rest, frames ++ frame.toList⟩ ∧
          Call.left ⟨s', rest, frames ++ frame.toList⟩ ≤ left ∧
        Call.left ⟨s', rest, frames ++ frame.toList⟩ < Call.left ⟨s, data, frames⟩ ∧ (frame = none → rest = []) := by
  induction fuel with
  | zero =>
    intro s data frames _ _ _ hleft hne
    have := List.length_pos_of_ne_nil hne
    unfold Call.left at hleft
    dsimp only at hleft
    omega
  | succ fuel ih =>
    intro s data frames hs hprog hok hleft hne
    obtain ⟨b, data, rfl⟩ := List.exists_cons_of_ne_nil hne
    obtain ⟨hprog', hlt⟩ := hprog.turn hne (hok 0)
    have hok' := hok.turn
    have hphase := (deframe_phase s (b :: data)).trans hs
    rw [Call.turn_sync hs] at hprog' hlt hok'
    unfold SoftV110.doDeframe
    generalize hr : s.deframeTurn (b :: data) = res at hprog' hlt hok' hphase
    obtain ⟨s', rest, frame⟩ := res
    have hone : Call.turn ⟨s, b :: data, frames⟩ = ⟨s', rest, frames ++ frame.toList⟩ := by
      rw [Call.turn_sync hs, hr]
    cases frame with
    | some frame => exact ⟨1, fuel, s', rest, some frame, rfl, hone, Nat.le_of_lt_succ (hlt.trans_le hleft), hlt, nofun⟩
    | none =>
      dsimp only at hprog' hlt hok' ⊢
      rw [Option.toList_none, List.append_nil] at hprog' hlt hok' hone
      by_cases hrest : rest = []
      · subst hrest
        refine ⟨1, fuel, s', [], none, ?_, ?_, ?_, ?_, fun _ => rfl⟩
        · cases fuel with
          | zero => rfl
          | succ fuel => rfl
        · rw [Option.toList_none, List.append_nil]
          exact hone
        · rw [Option.toList_none, List.append_nil]
          exact Nat.le_of_lt_succ (hlt.trans_le hleft)
        · rw [Option.toList_none, List.append_nil]
          exact hlt
      · obtain ⟨k, left, s'', rest', frame, hrun, hturns, hle, hlt', hnone⟩ := 
          ih hphase hprog' hok' (Nat.le_of_lt_succ (hlt.trans_le hleft)) hrest
        refine ⟨k + 1, left, s'', rest', frame, hrun, ?_, hle, hlt'.trans hlt, hnone⟩
        rw [Function.iterate_succ_apply, hone]
        exact hturns

/-- A call is turns, until there is no more data. -/
theorem decodeLoop_turns (calls : Nat) :
    ∀ {fuel : Nat} {d : SoftV110.Decoded} {data : List Octet}, Progress r given ⟨d.s, data, d.frames⟩ →
      CallOk ⟨d.s, data, d.frames⟩ → Call.left ⟨d.s, data, d.frames⟩ ≤ calls → Call.left ⟨d.s, data, d.frames⟩ ≤ fuel →
      ∃ k d', SoftV110.decodeLoop calls fuel d data = some d' ∧ Call.turn^[k] ⟨d.s, data, d.frames⟩ = ⟨d'.s, [], d'.frames⟩ := by
  induction calls with
  | zero =>
    intro fuel d data _ _ hcalls _
    have hnil : data = [] := by
      by_contra hne
      have := List.length_pos_of_ne_nil hne
      unfold Call.left at hcalls
      dsimp only at hcalls
      omega
    subst hnil
    exact ⟨0, d, rfl, rfl⟩
  | succ calls ih =>
    intro fuel d data hprog hok hcalls hfuel
    cases data with
    | nil => exact ⟨0, d, rfl, rfl⟩
    | cons b data =>
      unfold SoftV110.decodeLoop
      cases hphase : d.s.phase with
      | idle =>
        obtain ⟨hprog', hlt⟩ := hprog.turn (List.cons_ne_nil b data) (hok 0)
        have hok' := hok.turn
        have hone : Call.turn ⟨d.s, b :: data, d.frames⟩ = ⟨(d.s.skip (b :: data)).1, (d.s.skip (b :: data)).2, d.frames⟩ := by
          unfold Call.turn
          rw [if_neg (List.cons_ne_nil b data)]
          dsimp only
          rw [hphase]
        rw [hone] at hprog' hlt hok'
        obtain ⟨k, d', hrun, hturns⟩ := ih (d := { d with s := (d.s.skip (b :: data)).1 }) hprog' hok'
          (Nat.le_of_lt_succ (hlt.trans_le hcalls)) (hlt.le.trans hfuel)
        refine ⟨k + 1, d', hrun, ?_⟩
        rw [Function.iterate_succ_apply, hone]
        exact hturns
      | sync =>
        obtain ⟨k, left, s', rest, frame, hrun, hturns, hle, hlt, hnone⟩ :=
          doDeframe_turns fuel hphase hprog hok hfuel (List.cons_ne_nil b data)
        have hprog' := hprog.turns hok k
        have hok' : CallOk (Call.turn^[k] ⟨d.s, b :: data, d.frames⟩) := by
          intro j
          rw [← Function.iterate_add_apply]
          exact hok (j + k)
        dsimp only
        rw [hrun]
        rw [hturns] at hprog' hok'
        cases frame with
        | none =>
          rw [Option.toList_none, List.append_nil] at hprog' hok' hturns hlt hle
          obtain ⟨j, d', hrun', hturns'⟩ := ih (d := { d with s := s' }) hprog' hok' (Nat.le_of_lt_succ (hlt.trans_le hcalls)) hle
          refine ⟨j + k, d', hrun', ?_⟩
          rw [Function.iterate_add_apply, hturns]
          exact hturns'
        | some frame =>
          obtain ⟨j, d', hrun', hturns'⟩ := ih (d := ⟨s', d.frames ++ [frame], s'.doV110 frame⟩) hprog' hok'
            (Nat.le_of_lt_succ (hlt.trans_le hcalls)) hle
          refine ⟨j + k, d', hrun', ?_⟩
          rw [Function.iterate_add_apply, hturns]
          exact hturns'

/-- The next piece of the line. -/
theorem Progress.give {s : SoftV110} {frames : List (List Octet)} (h : Progress r given ⟨s, [], frames⟩) (piece : List Octet) :
    Progress r (given ++ piece) ⟨s, piece, frames⟩ := by
  cases h with
  | idle phase start pos le frames skipped data =>
    have hlen : given.length ≤ v110DetectionDelay - s.detectDelay := List.drop_eq_nil_iff.mp data.symm
    refine .idle phase start pos le frames ?_ ?_
    · rw [List.length_append]
      exact skipped.trans (Nat.le_add_right _ _)
    · rw [List.drop_append, List.drop_eq_nil_of_le hlen, List.nil_append,
        show v110DetectionDelay - s.detectDelay - given.length = 0 from Nat.sub_eq_zero_of_le skipped, List.drop_zero]
  | sync used buf phase le data holds =>
    refine .sync used buf phase ?_ ?_ holds
    · rw [List.length_append]
      exact le.trans (Nat.le_add_right _ _)
    · rw [List.append_nil] at data
      rw [List.drop_append_of_le_length le, data]

theorem Progress.bounds (h : Progress r given c) : c.s.len.toNat ≤ 32 ∧ c.s.rxFramePos ≤ 9 := by
  cases h with
  | idle phase start pos le frames skipped data =>
    rw [start]
    exact ⟨Nat.zero_le 32, Nat.zero_le 9⟩
  | sync used buf phase le data holds =>
    rw [holds.len]
    exact ⟨holds.le, holds.pos⟩

end Calls

/-! ## The pieces of the line -/

/-- A detector, the frames so far, and whether a call has taken more steps than it may. -/
structure Feed where
  s : SoftV110
  frames : List (List Octet)
  late : Bool

/-- A call with the next piece; at most eight turns for each byte, and 34. -/
def Feed.step (f : Feed) (piece : List Octet) : Feed :=
  match f.s.softV110DecodeProcess (8 * piece.length + 34) f.frames piece with
  | some d => { f with s := d.s, frames := d.frames }
  | none => { f with late := true }

def Feed.start (r : Irate) : Feed := ⟨softV110Init r, [], false⟩

/-- All turns of the call meet the condition. -/
def PieceOk (f : Feed) (piece : List Octet) : Prop := CallOk ⟨f.s, piece, f.frames⟩

/-- The frames are those of the whole line, but for those in the window. -/
structure Deframed (r : Irate) (line : List Octet) (f : Feed) : Prop where
  inTime : f.late = false
  len : f.s.len.toNat ≤ 32
  pos : f.s.rxFramePos ≤ 9
  frames : ∃ buf, buf.length = f.s.len.toNat ∧
    deframe [] (lineBits r (line.drop v110DetectionDelay)) = f.frames ++ deframe f.s.part buf

theorem Progress.step {r : Irate} {given : List Octet} {f : Feed} (h : Progress r given ⟨f.s, [], f.frames⟩)
    (hlate : f.late = false)
    {piece : List Octet} (hok : PieceOk f piece) :
    Progress r (given ++ piece) ⟨(f.step piece).s, [], (f.step piece).frames⟩ ∧ (f.step piece).late = false := by
  have hgive := h.give piece
  have hbound := h.bounds.1
  have hleft : Call.left ⟨f.s, piece, f.frames⟩ ≤ 8 * piece.length + 34 := by
    unfold Call.left
    dsimp only at hbound ⊢
    split
    · omega
    · omega
  obtain ⟨k, d', hrun, hturns⟩ := decodeLoop_turns (8 * piece.length + 34) (d := ⟨f.s, f.frames, none⟩) hgive hok hleft hleft
  have hprog := hgive.turns hok k
  rw [hturns] at hprog
  unfold Feed.step SoftV110.softV110DecodeProcess
  rw [hrun]
  exact ⟨hprog, hlate⟩

theorem Progress.start (r : Irate) : Progress r [] ⟨softV110Init r, [], []⟩ := by
  have hdelay : (softV110Init r).detectDelay = v110DetectionDelay := rfl
  have hpos : 0 < v110DetectionDelay := by
    unfold v110DetectionDelay
    decide
  refine .idle rfl rfl ?_ ?_ rfl ?_ ?_
  · rw [hdelay]
    exact hpos
  · rw [hdelay]
  · rw [hdelay, Nat.sub_self]
    exact Nat.zero_le _
  · rw [List.drop_nil]

theorem Progress.deframed {r : Irate} {line : List Octet} {f : Feed} (h : Progress r line ⟨f.s, [], f.frames⟩)
    (hlate : f.late = false) :
    Deframed r line f := by
  obtain ⟨hlen, hpos⟩ := h.bounds
  refine ⟨hlate, hlen, hpos, ?_⟩
  cases h with
  | idle phase start pos le frames skipped data =>
    have hline : line.length ≤ v110DetectionDelay :=
      (List.drop_eq_nil_iff.mp data.symm).trans (Nat.sub_le _ _)
    have hlen0 : f.s.len = 0 := by
      rw [show f.s = _ from start]
      rfl
    have hpart : f.s.part = [] := by
      rw [show f.s = _ from start]
      rfl
    refine ⟨[], ?_, ?_⟩
    · rw [hlen0]
      rfl
    · rw [List.drop_eq_nil_of_le hline, show f.frames = [] from frames, hpart]
      rfl
  | sync used buf phase le data holds =>
    refine ⟨buf, holds.len.symm, ?_⟩
    rw [data, List.append_nil]
    have hspec := holds.spec []
    rwa [List.append_nil, List.append_nil] at hspec

theorem Progress.run {r : Irate} {pieces : List (List Octet)} (h : Along Feed.step PieceOk (Feed.start r) pieces) :
    Progress r pieces.flatten ⟨(run Feed.step (Feed.start r) pieces).s, [], (run Feed.step (Feed.start r) pieces).frames⟩ ∧
      (run Feed.step (Feed.start r) pieces).late = false := by
  induction pieces using List.reverseRecOn with
  | nil => exact ⟨Progress.start r, rfl⟩
  | append_singleton pieces piece ih =>
    obtain ⟨hp1, hp2⟩ := (along_append Feed.step).mp h
    obtain ⟨hprog, hlate⟩ := ih hp1
    rw [run_append, List.flatten_append, List.flatten_singleton]
    exact hprog.step hlate hp2.1

/-- However the line is cut into pieces whose turns meet the condition, the frames are those of
    the line, and the window keeps its bounds between all turns. -/
theorem v110_deframing (r : Irate) (pieces : List (List Octet)) (h : Along Feed.step PieceOk (Feed.start r) pieces) :
    Deframed r pieces.flatten (run Feed.step (Feed.start r) pieces) ∧
      ∀ before piece behind, pieces = before ++ piece :: behind → ∀ k,
        (Call.turn^[k] ⟨(run Feed.step (Feed.start r) before).s, piece,
          (run Feed.step (Feed.start r) before).frames⟩).s.len.toNat ≤ 32 ∧
        (Call.turn^[k] ⟨(run Feed.step (Feed.start r) before).s, piece,
          (run Feed.step (Feed.start r) before).frames⟩).s.rxFramePos ≤ 9 := by
  constructor
  · obtain ⟨hprog, hlate⟩ := Progress.run h
    exact hprog.deframed hlate
  · intro before piece behind hpieces k
    rw [hpieces] at h
    obtain ⟨hp1, hp2⟩ := (along_append Feed.step).mp h
    exact (((Progress.run hp1).1.give piece).turns hp2.1 k).bounds

theorem Call.turn_nil {c : Call} (h : c.data = []) : c.turn = c := by
  unfold Call.turn
  rw [if_pos h]

/-- A call is over when its data is. -/
theorem callOk_of_turns {c : Call} {n : Nat} (h : ∀ k < n, TurnOk (Call.turn^[k] c)) (hn : (Call.turn^[n] c).data = []) :
    CallOk c := by
  have hstays : ∀ k, (Call.turn^[n + k] c).data = [] := by
    intro k
    induction k with
    | zero => exact hn
    | succ k ih =>
      rw [← Nat.add_assoc, Function.iterate_succ_apply', Call.turn_nil ih]
      exact ih
  intro k
  by_cases hk : k < n
  · exact h k hk
  · obtain ⟨j, rfl⟩ := Nat.exists_eq_add_of_le (Nat.le_of_not_lt hk)
    intro hne
    exact absurd (hstays j) hne

/-- The detector when the delay is over. -/
def delayed (r : Irate) : SoftV110 := { softV110Init r with detectDelay := 0, phase := .sync }

section Delay

variable (r : Irate) {data : List Octet} (h : data.length = v110DetectionDelay)

include h

theorem skip_delay : (softV110Init r).skip data = (delayed r, []) := by
  have hdelay : (softV110Init r).detectDelay = v110DetectionDelay := rfl
  unfold SoftV110.skip
  rw [hdelay, h, Nat.min_self]
  dsimp only
  rw [Nat.sub_self, List.drop_eq_nil_of_le (le_of_eq h)]
  rfl

theorem step_delay : (Feed.start r).step data = ⟨delayed r, [], false⟩ := by
  have hskip := skip_delay r h
  unfold Feed.step SoftV110.softV110DecodeProcess
  cases data with
  | nil => cases h
  | cons b data =>
    rw [show 8 * (b :: data).length + 34 = 8 * (b :: data).length + 33 + 1 from rfl]
    unfold SoftV110.decodeLoop
    rw [show (⟨(Feed.start r).s, (Feed.start r).frames, none⟩ : SoftV110.Decoded).s = softV110Init r from rfl,
      show (softV110Init r).phase = .idle from rfl]
    dsimp only
    rw [hskip]
    unfold SoftV110.decodeLoop
    rfl

theorem pieceOk_delay : PieceOk (Feed.start r) data := by
  refine callOk_of_turns (n := 1) ?_ ?_
  · intro k hk
    rw [Nat.lt_one_iff.mp hk]
    intro _ hphase
    cases hphase
  · unfold Call.turn
    cases data with
    | nil => cases h
    | cons b data =>
      rw [Function.iterate_one]
      dsimp only
      rw [if_neg (List.cons_ne_nil b data), show (Feed.start r).s = softV110Init r from rfl,
        show (softV110Init r).phase = .idle from rfl]
      dsimp only
      rw [skip_delay r h]

end Delay

def framePieces : List (List Octet) := [[0, 1, 1, 1, 1], List.replicate 5 0x01 ++ List.replicate 4 0xff]

/-- A frame that is cut behind its fifth byte. -/
theorem v110_deframing_cut :
    Deframed .irate64K (List.replicate v110DetectionDelay 0xff :: framePieces).flatten
        (run Feed.step (Feed.start .irate64K) (List.replicate v110DetectionDelay 0xff :: framePieces)) ∧
      (run Feed.step (Feed.start .irate64K) (List.replicate v110DetectionDelay 0xff :: framePieces)).frames.length = 1 := by
  have hdelay : (List.replicate v110DetectionDelay (0xff : Octet)).length = v110DetectionDelay := List.length_replicate
  have hfirst : PieceOk ⟨delayed .irate64K, [], false⟩ [0, 1, 1, 1, 1] :=
    callOk_of_turns (n := 2) (by decide +kernel) (by decide +kernel)
  have hsecond : PieceOk (Feed.step ⟨delayed .irate64K, [], false⟩ [0, 1, 1, 1, 1])
      (List.replicate 5 0x01 ++ List.replicate 4 0xff) :=
    callOk_of_turns (n := 9) (by decide +kernel) (by decide +kernel)
  have hcount : (run Feed.step ⟨delayed .irate64K, [], false⟩ framePieces).frames.length = 1 := by decide +kernel
  rw [← step_delay .irate64K hdelay] at hfirst hsecond hcount
  have halong : Along Feed.step PieceOk (Feed.start .irate64K) (List.replicate v110DetectionDelay 0xff :: framePieces) := by
    unfold framePieces
    exact ⟨pieceOk_delay .irate64K hdelay, hfirst, hsecond, trivial⟩
  refine ⟨(v110_deframing .irate64K _ halong).1, ?_⟩
  rw [run_cons]
  exact hcount

/-- At one bit a byte: a zero octet and a one are taken, and then one bit. -/
theorem v110_underflow :
    ¬ ∀ (r : Irate) (pieces : List (List Octet)), (∀ piece ∈ pieces, piece ≠ []) →
      (run Feed.step (Feed.start r) pieces).s.len.toNat ≤ 32 := by
  intro h
  have hdelay : (List.replicate v110DetectionDelay (0xff : Octet)).length = v110DetectionDelay := List.length_replicate
  have hrun := h .irate8K [List.replicate v110DetectionDelay 0xff, List.replicate 8 0 ++ [1], [1]] (by
    intro piece hpiece
    rcases List.mem_cons.mp hpiece with rfl | hpiece
    · exact fun hnil => by rw [hnil] at hdelay; cases hdelay
    · revert hpiece piece
      decide)
  rw [run_cons, step_delay .irate8K hdelay] at hrun
  revert hrun
  decide +kernel

end Divas.Tty.V110
