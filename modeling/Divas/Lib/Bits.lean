/-
  Divas.Lib.Bits — lists of bits, the least significant first, and the words that hold them.

  `ofBits w bs` is the word of width `w` with the bits of the list, cut or filled with
  zeros. A shift to the right drops bits, an or with a word shifted behind them adds some.

  Proved too: two ways to work on the lowest set bit `p` of a word. `w ^^^ (w - 1)` is the
  mask of the places up to `p` (`getLsbD_lowMask`), and `v + (v &&& mask)` takes a zero
  behind place `p` out of `v`, with a new zero in front (`ofBits_delete`).
-/

import Mathlib.Data.List.Basic
import Mathlib.Algebra.Ring.Nat

namespace Divas.Lib.Bits

def ofBits (w : Nat) (bs : List Bool) : BitVec w := (BitVec.ofBoolListLE bs).setWidth w

/-- The bits of a word. -/
def bitsOf {w : Nat} (v : BitVec w) : List Bool := (List.range w).map v.getLsbD

@[simp] theorem length_bitsOf {w : Nat} (v : BitVec w) : (bitsOf v).length = w := by simp [bitsOf]

theorem getD_bitsOf {w : Nat} (v : BitVec w) (i : Nat) : (bitsOf v).getD i false = v.getLsbD i := by
  unfold bitsOf
  by_cases h : i < w
  · simp [List.getD_eq_getElem?_getD, h]
  · simp [List.getD_eq_getElem?_getD, h, BitVec.getLsbD_of_ge v i (Nat.not_lt.1 h)]

theorem getLsbD_ofBits (w : Nat) (bs : List Bool) (i : Nat) : (ofBits w bs).getLsbD i = (decide (i < w) && bs.getD i false) := by
  unfold ofBits
  rw [BitVec.getLsbD_setWidth, BitVec.getLsbD_ofBoolListLE]

theorem getLsbD_ofBits_lt {w i : Nat} (h : i < w) (bs : List Bool) : (ofBits w bs).getLsbD i = bs.getD i false := by
  rw [getLsbD_ofBits, decide_eq_true h, Bool.true_and]

theorem ofBits_bitsOf {w : Nat} (v : BitVec w) : ofBits w (bitsOf v) = v := by
  refine BitVec.eq_of_getLsbD_eq fun i hi => ?_
  rw [getLsbD_ofBits_lt hi, getD_bitsOf]

/-- Only the first `w` bits count. -/
theorem ofBits_congr {w : Nat} {as bs : List Bool} (h : ∀ i, i < w → as.getD i false = bs.getD i false) :
    ofBits w as = ofBits w bs := by
  refine BitVec.eq_of_getLsbD_eq fun i hi => ?_
  rw [getLsbD_ofBits_lt hi, getLsbD_ofBits_lt hi, h i hi]

theorem getD_append_left {as bs : List Bool} {i : Nat} (h : i < as.length) : (as ++ bs).getD i false = as.getD i false := by
  simp [List.getD_eq_getElem?_getD, List.getElem?_append_left h]

theorem getD_append_right {as bs : List Bool} {i : Nat} (h : as.length ≤ i) :
    (as ++ bs).getD i false = bs.getD (i - as.length) false := by
  simp [List.getD_eq_getElem?_getD, List.getElem?_append_right h]

theorem getD_drop (bs : List Bool) (n i : Nat) : (bs.drop n).getD i false = bs.getD (n + i) false := by
  simp [List.getD_eq_getElem?_getD]

theorem getD_of_length_le {bs : List Bool} {i : Nat} (h : bs.length ≤ i) : bs.getD i false = false := by
  simp [List.getD_eq_getElem?_getD, h]

/-- A pattern at a place. -/
theorem prefix_drop_iff {pat s : List Bool} {lo : Nat} (hs : lo + pat.length ≤ s.length) :
    pat <+: s.drop lo ↔ ∀ i, i < pat.length → s.getD (lo + i) false = pat.getD i false := by
  rw [List.prefix_iff_eq_take]
  constructor
  · intro h i hi
    rw [h]
    simp only [List.getD_eq_getElem?_getD]
    rw [List.getElem?_take_of_lt hi, List.getElem?_drop]
  · intro h
    refine List.ext_getElem? fun i => ?_
    by_cases hi : i < pat.length
    · have hbit := h i hi
      simp only [List.getD_eq_getElem?_getD, List.getElem?_eq_getElem hi,
        List.getElem?_eq_getElem (show lo + i < s.length by omega),
        Option.getD_some] at hbit
      rw [List.getElem?_take_of_lt hi, List.getElem?_drop, List.getElem?_eq_getElem hi, List.getElem?_eq_getElem (by omega), hbit]
    · rw [List.getElem?_eq_none (Nat.not_lt.1 hi), List.getElem?_eq_none (by simp; omega)]

theorem ofBits_append_left {w : Nat} {as : List Bool} (h : w ≤ as.length) (bs : List Bool) : ofBits w (as ++ bs) = ofBits w as :=
  ofBits_congr fun _ hi => getD_append_left (Nat.lt_of_lt_of_le hi h)

theorem setWidth_ofBits {v w : Nat} (h : v ≤ w) (bs : List Bool) : (ofBits w bs).setWidth v = ofBits v bs := by
  refine BitVec.eq_of_getLsbD_eq fun i hi => ?_
  rw [BitVec.getLsbD_setWidth, getLsbD_ofBits_lt hi, getLsbD_ofBits_lt (by omega)]
  simp [hi]

theorem ofBits_ushiftRight {w : Nat} {bs : List Bool} (h : bs.length ≤ w) (n : Nat) :
    ofBits w bs >>> n = ofBits w (bs.drop n) := by
  refine BitVec.eq_of_getLsbD_eq fun i hi => ?_
  rw [BitVec.getLsbD_ushiftRight, getLsbD_ofBits_lt hi, getLsbD_ofBits, getD_drop]
  by_cases hn : n + i < w
  · simp [hn]
  · rw [getD_of_length_le (by omega), Bool.and_false]

theorem ofBits_or {w k : Nat} {bs : List Bool} (v : BitVec k) :
    ofBits w bs ||| (v.setWidth w <<< bs.length) = ofBits w (bs ++ bitsOf v) := by
  refine BitVec.eq_of_getLsbD_eq fun i hi => ?_
  rw [BitVec.getLsbD_or, BitVec.getLsbD_shiftLeft, BitVec.getLsbD_setWidth, getLsbD_ofBits_lt hi, getLsbD_ofBits_lt hi]
  by_cases hb : i < bs.length
  · rw [getD_append_left hb]
    simp [hb]
  · rw [getD_append_right (Nat.not_lt.1 hb), getD_of_length_le (Nat.not_lt.1 hb), getD_bitsOf]
    simp [hb, hi, show i - bs.length < w by omega]

/-! ## Runs of ones -/

/-- The bits of `v` are the places where `k` ones of `u` end. -/
def Marks {w : Nat} (k : Nat) (u v : BitVec w) : Prop :=
  ∀ p, p < w → (v.getLsbD p = true ↔ k ≤ p + 1 ∧ ∀ j, j < k → u.getLsbD (p - j) = true)

theorem marks_one {w : Nat} (u : BitVec w) : Marks 1 u u := by
  intro p _
  constructor
  · intro h
    refine ⟨by omega, fun j hj => ?_⟩
    rwa [Nat.lt_one_iff.1 hj]
  · intro h
    exact h.2 0 (by omega)

/-- Two runs that meet make a longer one. -/
theorem Marks.shift {w k j : Nat} {u v : BitVec w} (h : Marks k u v) (hj : j ≤ k) : Marks (k + j) u (v &&& (v <<< j)) := by
  intro p hp
  have hback := h (p - j) (by omega)
  rw [BitVec.getLsbD_and, BitVec.getLsbD_shiftLeft, Bool.and_eq_true, Bool.and_eq_true, Bool.and_eq_true, h p hp, hback,
    decide_eq_true_eq, Bool.not_eq_true', decide_eq_false_iff_not]
  constructor
  · intro hm
    obtain ⟨⟨h1, h2⟩, ⟨_, h3⟩, h4, h5⟩ := hm
    refine ⟨by omega, fun i hi => ?_⟩
    by_cases hik : i < k
    · exact h2 i hik
    · have := h5 (i - j) (by omega)
      rwa [Nat.sub_sub, Nat.add_sub_cancel' (by omega)] at this
  · intro hm
    refine ⟨⟨by omega, fun i hi => hm.2 i (by omega)⟩, ⟨hp, by omega⟩, by omega, fun i hi => ?_⟩
    rw [Nat.sub_sub]
    exact hm.2 (j + i) (by omega)

/-! ## The lowest set bit -/

/-- One less than a number whose lowest set bit is `p`. -/
theorem testBit_pred {n p : Nat} (hp : n.testBit p = true) (hlow : ∀ j, j < p → n.testBit j = false) (i : Nat) :
    (n - 1).testBit i = if i < p then true else if i = p then false else n.testBit i := by
  have hmod : n % 2 ^ p = 0 := by
    refine Nat.eq_of_testBit_eq fun j => ?_
    rw [Nat.testBit_mod_two_pow, Nat.zero_testBit]
    by_cases hj : j < p
    · simp [hlow j hj]
    · simp [hj]
  obtain ⟨q, rfl⟩ := Nat.dvd_of_mod_eq_zero hmod
  rw [Nat.testBit_two_pow_mul] at hp
  obtain ⟨m, rfl⟩ : ∃ m, q = 2 * m + 1 := ⟨q / 2, by
    have : q % 2 = 1 := by simpa using hp
    omega⟩
  have hpos := Nat.two_pow_pos p
  have hpred : 2 ^ p * (2 * m + 1) - 1 = 2 ^ p * (2 * m) + (2 ^ p - 1) := by
    rw [Nat.mul_succ]
    omega
  rw [hpred, Nat.testBit_two_pow_mul_add _ (by omega), Nat.testBit_two_pow_mul, Nat.testBit_two_pow_sub_one]
  by_cases hi : i < p
  · simp [hi]
  · rw [if_neg hi, if_neg hi]
    by_cases he : i = p
    · subst he
      simp
    · obtain ⟨d, hd⟩ : ∃ d, i - p = d + 1 := ⟨i - p - 1, by omega⟩
      rw [if_neg he, hd, Nat.testBit_succ, Nat.testBit_succ]
      simp [show p ≤ i by omega, show (2 * m + 1) / 2 = m by omega]

theorem getLsbD_lowMask {w p : Nat} {v : BitVec w} (hp : v.getLsbD p = true) (hlow : ∀ j, j < p → v.getLsbD j = false) (i : Nat) :
    (v ^^^ (v - 1)).getLsbD i = decide (i ≤ p) := by
  have hpos : 0 < v.toNat := by
    rcases Nat.eq_zero_or_pos v.toNat with h0 | h0
    · rw [← BitVec.testBit_toNat, h0, Nat.zero_testBit] at hp
      cases hp
    · exact h0
  have hw : 0 < w := Nat.lt_of_le_of_lt (Nat.zero_le p) (BitVec.lt_of_getLsbD hp)
  have hone : (1 : BitVec w).toNat = 1 := by
    show 1 % 2 ^ w = 1
    exact Nat.mod_eq_of_lt (Nat.one_lt_two_pow (by omega))
  have hpred : (v - 1).toNat = v.toNat - 1 := by
    rw [BitVec.toNat_sub_of_le (BitVec.le_def.2 (by omega)), hone]
  rw [BitVec.getLsbD_xor, ← BitVec.testBit_toNat, ← BitVec.testBit_toNat, hpred,
    testBit_pred hp fun j hj => hlow j hj]
  rcases Nat.lt_trichotomy i p with h | h | h
  · have := hlow i h
    rw [← BitVec.testBit_toNat] at this
    simp [this, h, Nat.le_of_lt h]
  · subst h
    rw [← BitVec.testBit_toNat] at hp
    simp [hp]
  · simp [show ¬ i < p by omega, show ¬ i = p by omega, show ¬ i ≤ p by omega]

theorem toNat_ofBoolListLE_append (as bs : List Bool) :
    (BitVec.ofBoolListLE (as ++ bs)).toNat = (BitVec.ofBoolListLE as).toNat + 2 ^ as.length * (BitVec.ofBoolListLE bs).toNat := by
  induction as with
  | nil => simp [BitVec.ofBoolListLE]
  | cons a as ih =>
    have hcons : ∀ cs : List Bool, (BitVec.ofBoolListLE (a :: cs)).toNat = (BitVec.ofBoolListLE cs).toNat * 2
        + a.toNat := fun cs =>
      BitVec.toNat_concat _ _
    rw [List.cons_append, hcons, hcons, ih, List.length_cons, Nat.pow_succ, Nat.add_mul, Nat.mul_right_comm, Nat.mul_assoc]
    omega

/-- A zero is taken out: what stands before it moves up by one place. -/
theorem ofBits_delete {w : Nat} {as bs : List Bool} {x : BitVec w} (hx : ∀ i, i < w → x.getLsbD i = decide (i < as.length)) :
    ofBits w (as ++ false :: bs) + (ofBits w (as ++ false :: bs) &&& x) = ofBits w (false :: as ++ bs) := by
  have hlow : ofBits w (as ++ false :: bs) &&& x = ofBits w as := by
    refine BitVec.eq_of_getLsbD_eq fun i hi => ?_
    rw [BitVec.getLsbD_and, hx i hi, getLsbD_ofBits_lt hi, getLsbD_ofBits_lt hi]
    by_cases h : i < as.length
    · rw [getD_append_left h]
      simp [h]
    · rw [getD_of_length_le (Nat.not_lt.1 h)]
      simp [h]
  have hnat : ∀ cs : List Bool, (ofBits w cs).toNat = (BitVec.ofBoolListLE cs).toNat % 2 ^ w := fun cs =>
      BitVec.toNat_setWidth _ _
  have hzero : ∀ cs : List Bool, (BitVec.ofBoolListLE (false :: cs)).toNat = (BitVec.ofBoolListLE cs).toNat * 2 := fun cs =>
    BitVec.toNat_concat _ _
  rw [hlow]
  apply BitVec.eq_of_toNat_eq
  rw [BitVec.toNat_add, hnat, hnat, hnat, ← Nat.add_mod, toNat_ofBoolListLE_append, hzero, List.cons_append, hzero,
    toNat_ofBoolListLE_append]
  congr 1
  rw [Nat.add_mul, Nat.mul_assoc]
  omega

end Divas.Lib.Bits
