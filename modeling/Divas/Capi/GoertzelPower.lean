/-
  Divas.Capi.GoertzelPower — the power of a Goertzel filter (capidtmf_goertzel_result).

  The power is q1² + q2² + D·q2 with D the product of the coefficient and -q1. Three 32-bit words
  hold it on the way, 16 bits apart; they are products of halves, so each word has a sign and a
  carry of its own until the two shifts at the end.

  Proved (`goertzelResult_exact`): the two words left behind are the 64-bit power, exactly, and D
  is the coefficient times -q1 rounded down.
-/

import Divas.Capi.DtmfReceive
import Divas.Lib.Words
import Mathlib.Algebra.Order.Ring.Int
import Mathlib.Tactic.Ring

namespace Divas.Capi.DtmfReceive

open Divas.Lib.Words

/-! ## Three words -/

/-- The number that `lo`, `mid` and `hi` hold. -/
def wordsValue (x : Int32 × Int32 × Int32) : Int := x.2.2.toInt * 2 ^ 32 + x.2.1.toInt * 2 ^ 16 + x.1.toInt

/-- `lo` and `mid` after `n` terms, and `hi` up to a bound. -/
structure Within (n top : Int) (x : Int32 × Int32 × Int32) : Prop where
  lo : -(n * 65536) < x.1.toInt ∧ x.1.toInt < n * 65536
  mid : -(n * 196608) < x.2.1.toInt ∧ x.2.1.toInt < n * 196608
  hi : -top ≤ x.2.2.toInt ∧ x.2.2.toInt ≤ top

/-- A number that is not negative is its two halves. -/
theorem halves {q : Int32} (h : 0 ≤ q.toInt) :
    q.toInt = (high q).toNat * 65536 + (low q).toNat ∧ (high q).toNat < 32768 ∧ (low q).toNat < 65536 := by
  have hlt := q.toInt_lt
  have hlow : ((low q).toNat : Int) = q.toInt % 65536 := toNat_low q
  have hhigh : ((high q).toNat : Int) = q.toInt / 65536 := toNat_high h
  omega

theorem product_words {d e : Int32} (hd : 0 ≤ d.toInt) (he : 0 ≤ e.toInt) :
    Within 1 (2 ^ 30 + 2 ^ 17) (product d e) ∧ wordsValue (product d e) = d.toInt * e.toInt := by
  obtain ⟨hdv, hdh, hdl⟩ := halves hd
  obtain ⟨hev, heh, hel⟩ := halves he
  obtain ⟨hk, hkb⟩ := toNat_mul_halves hdl hel
  obtain ⟨hk1, hk1b⟩ := toNat_mul_halves (show (high d).toNat < 65536 by omega) hel
  obtain ⟨hk2, hk2b⟩ := toNat_mul_halves hdl (show (high e).toNat < 65536 by omega)
  obtain ⟨hk3, -⟩ := toNat_mul_halves (show (high d).toNat < 65536 by omega) (show (high e).toNat < 65536 by omega)
  have hk3b : (high d).toNat * (high e).toNat ≤ 32767 * 32767 := Nat.mul_le_mul (by omega) (by omega)
  have hlo : (low d * low e &&& 0xffff).toNat = (low d).toNat * (low e).toNat % 65536 := by rw [toNat_and_low, hk]
  have hmid : ((low d * low e) >>> 16 + (high d * low e &&& 0xffff) + (low d * high e &&& 0xffff)).toNat =
      (low d).toNat * (low e).toNat / 65536 + (high d).toNat * (low e).toNat % 65536 +
        (low d).toNat * (high e).toNat % 65536 := by
    rw [UInt32.toNat_add, UInt32.toNat_add, toNat_shiftRight_high, toNat_and_low, toNat_and_low, hk, hk1, hk2]
    omega
  have hhi : ((high d * low e) >>> 16 + (low d * high e) >>> 16 + high d * high e).toNat =
      (high d).toNat * (low e).toNat / 65536 + (low d).toNat * (high e).toNat / 65536 +
        (high d).toNat * (high e).toNat := by
    rw [UInt32.toNat_add, UInt32.toNat_add, toNat_shiftRight_high, toNat_shiftRight_high, hk1, hk2, hk3]
    omega
  have hlo' : (product d e).1.toInt = (((low d).toNat * (low e).toNat % 65536 : Nat) : Int) := by
    rw [← hlo]; exact toInt_toInt32_fits (by omega)
  have hmid' := toInt_toInt32_fits (show ((low d * low e) >>> 16 + (high d * low e &&& 0xffff) +
    (low d * high e &&& 0xffff)).toNat < 2147483648 by omega)
  have hhi' := toInt_toInt32_fits (show ((high d * low e) >>> 16 + (low d * high e) >>> 16 +
    high d * high e).toNat < 2147483648 by omega)
  rw [hmid] at hmid'
  rw [hhi] at hhi'
  change (product d e).2.1.toInt = _ at hmid'
  change (product d e).2.2.toInt = _ at hhi'
  refine ⟨⟨by omega, by omega, by omega⟩, ?_⟩
  -- the product of the sums, with the carries put back
  have hring : d.toInt * e.toInt = (high d).toNat * (high e).toNat * 2 ^ 32 +
      ((high d).toNat * (low e).toNat + (low d).toNat * (high e).toNat) * 2 ^ 16 + (low d).toNat * (low e).toNat := by
    rw [hdv, hev]; ring
  rw [hring]
  unfold wordsValue
  rw [hlo', hmid', hhi']
  push_cast
  generalize ((low d).toNat : Int) * (low e).toNat = k at *
  generalize ((high d).toNat : Int) * (low e).toNat = k1 at *
  generalize ((low d).toNat : Int) * (high e).toNat = k2 at *
  generalize ((high d).toNat : Int) * (high e).toNat = k3 at *
  omega

theorem negate_words {n top : Int} {x : Int32 × Int32 × Int32} (hn : n ≤ 3) (htop : top < 2147483648) (h : Within n top x) :
    Within n top (negate x) ∧ wordsValue (negate x) = -wordsValue x := by
  obtain ⟨hlo, hmid, hhi⟩ := h
  have e1 : (negate x).1.toInt = -x.1.toInt := toInt_neg_fits (by omega)
  have e2 : (negate x).2.1.toInt = -x.2.1.toInt := toInt_neg_fits (by omega)
  have e3 : (negate x).2.2.toInt = -x.2.2.toInt := toInt_neg_fits (by omega)
  refine ⟨⟨by omega, by omega, by omega⟩, ?_⟩
  unfold wordsValue
  omega

theorem addSquare_words {n top : Int} {d : Int32} {x : Int32 × Int32 × Int32} (hd : 0 ≤ d.toInt) (hd' : d.toInt ≤ 2 ^ 30)
    (hn : n ≤ 2) (htop : top ≤ 2 ^ 30 + 2 ^ 29) (h : Within n top x) :
    Within (n + 1) (top + 2 ^ 28 + 2 ^ 15) (addSquare d x) ∧ wordsValue (addSquare d x) = wordsValue x + d.toInt ^ 2 := by
  obtain ⟨hlo, hmid, hhi⟩ := h
  obtain ⟨hdv, hdh, hdl⟩ := halves hd
  have hdh' : (high d).toNat ≤ 16384 := by omega
  obtain ⟨hk, hkb⟩ := toNat_mul_halves hdl hdl
  obtain ⟨hk1, -⟩ := toNat_mul_halves (show (high d).toNat < 65536 by omega) hdl
  obtain ⟨hk3, -⟩ := toNat_mul_halves (show (high d).toNat < 65536 by omega) (show (high d).toNat < 65536 by omega)
  have hk1b : (high d).toNat * (low d).toNat ≤ 16384 * 65535 := Nat.mul_le_mul hdh' (by omega)
  have hk3b : (high d).toNat * (high d).toNat ≤ 16384 * 16384 := Nat.mul_le_mul hdh' hdh'
  have hlow : (low d * low d &&& 0xffff).toNat = (low d).toNat * (low d).toNat % 65536 := by rw [toNat_and_low, hk]
  have hcarry : ((low d * low d) >>> 16).toNat = (low d).toNat * (low d).toNat / 65536 := by rw [toNat_shiftRight_high, hk]
  have hcross : ((high d * low d &&& 0xffff) <<< 1).toNat = (high d).toNat * (low d).toNat % 65536 * 2 := by
    rw [toNat_shiftLeft_one, toNat_and_low, hk1]
    omega
  have hcross' : (((high d * low d) >>> 16) <<< 1).toNat = (high d).toNat * (low d).toNat / 65536 * 2 := by
    rw [toNat_shiftLeft_one, toNat_shiftRight_high, hk1]
    omega
  have hlo' : (addSquare d x).1.toInt = x.1.toInt + (low d * low d &&& 0xffff).toNat :=
    toInt_add_unsigned (by omega) (by omega) (by omega)
  have hmid' : (addSquare d x).2.1.toInt =
      x.2.1.toInt + ((low d * low d) >>> 16).toNat + ((high d * low d &&& 0xffff) <<< 1).toNat := by
    have h1 := toInt_add_unsigned (a := x.2.1) (u := (low d * low d) >>> 16) (by omega) (by omega) (by omega)
    have h2 := toInt_add_unsigned (a := (x.2.1.toUInt32 + (low d * low d) >>> 16).toInt32)
      (u := (high d * low d &&& 0xffff) <<< 1) (by omega) (by omega) (by omega)
    rw [h1] at h2
    exact h2
  have hhi' : (addSquare d x).2.2.toInt =
      x.2.2.toInt + (((high d * low d) >>> 16) <<< 1).toNat + (high d * high d).toNat := by
    have h1 := toInt_add_unsigned (a := x.2.2) (u := ((high d * low d) >>> 16) <<< 1) (by omega) (by omega) (by omega)
    have h2 := toInt_add_unsigned (a := (x.2.2.toUInt32 + ((high d * low d) >>> 16) <<< 1).toInt32)
      (u := high d * high d) (by omega) (by omega) (by omega)
    rw [h1] at h2
    exact h2
  rw [hlow] at hlo'
  rw [hcarry, hcross] at hmid'
  rw [hcross', hk3] at hhi'
  refine ⟨⟨by omega, by omega, by omega⟩, ?_⟩
  have hring : d.toInt ^ 2 = (high d).toNat * (high d).toNat * 2 ^ 32 + (high d).toNat * (low d).toNat * 2 ^ 17 +
      (low d).toNat * (low d).toNat := by
    rw [hdv]; ring
  rw [hring]
  unfold wordsValue
  rw [hlo', hmid', hhi']
  push_cast
  generalize ((low d).toNat : Int) * (low d).toNat = k at *
  generalize ((high d).toNat : Int) * (low d).toNat = k1 at *
  generalize ((high d).toNat : Int) * (high d).toNat = k3 at *
  omega

/-- The two shifts at the end carry `lo` into `mid` and `mid` into `hi`, and keep the value. -/
theorem carry_words {n top : Int} {x : Int32 × Int32 × Int32} (hn : n ≤ 3) (htop : top ≤ 2147400000) (h : Within n top x) :
    let mid := x.2.1 + (x.1 >>> 16)
    (x.2.2 + mid >>> 16).toInt * 2 ^ 32 + (((x.1 &&& (0xffff : Int32)) ||| (mid <<< (16 : Int32))).toUInt32.toNat : Int) =
      wordsValue x := by
  intro mid
  obtain ⟨hlo, hmid, hhi⟩ := h
  have hshift := toInt_shiftRight x.1 16 16 rfl
  have hm : mid.toInt = x.2.1.toInt + (x.1 >>> 16).toInt := toInt_add_fits (by omega) (by omega)
  have hshift' := toInt_shiftRight mid 16 16 rfl
  have hh : (x.2.2 + mid >>> 16).toInt = x.2.2.toInt + (mid >>> 16).toInt := toInt_add_fits (by omega) (by omega)
  rw [hh, toNat_join]
  unfold wordsValue
  omega

/-! ## The product term -/

/-- `d` of `capidtmf_goertzel_result` after its first step: the coefficient times -q1, shifted down. -/
def productTerm (coeff q1 : Int32) : Int32 :=
  let d := coeff >>> 1
  let d := if 0 ≤ d then d else -d
  (((d <<< 1) * ((-q1) >>> 16)).toUInt32 + lowProduct d (-q1)).toInt32

/-- The result as the carries of five terms. -/
def powerWords (coeff q1 q2 : Int32) : Int32 × Int32 × Int32 :=
  let d := productTerm coeff q1
  let e := absolute q2
  let x := if 0 ≤ d then product d e else negate (product (-d) e)
  let x := if q2 < 0 then negate x else x
  addSquare (absolute q2) (addSquare (absolute q1) x)

theorem goertzelResult_eq (coeff q1 q2 : Int32) :
    goertzelResult coeff (q1, q2) =
      let x := powerWords coeff q1 q2
      let mid := x.2.1 + (x.1 >>> 16)
      ((x.1 &&& (0xffff : Int32)) ||| (mid <<< (16 : Int32)), x.2.2 + mid >>> 16) := rfl

/-- The coefficients that the table has at any time: its fifteen tones, and in the last place 0 at first and then
what the accumulator runs through. -/
def TableCoefficient (coeff : Int32) : Prop :=
  coeff ∈ goertzelCoefTable ∨ coeff = 0 ∨ ∃ k ≤ accumulateCycles, coeff = fundamentalAt k

/-- Every coefficient is even and below 2 in the format with 16 bits behind the point. -/
theorem TableCoefficient.even {coeff : Int32} (h : TableCoefficient coeff) :
    0 ≤ coeff.toInt ∧ coeff.toInt < 131072 ∧ coeff.toInt % 2 = 0 := by
  have htable : (goertzelCoefTable.all fun c => decide (0 ≤ c.toInt ∧ c.toInt < 131072 ∧ c.toInt % 2 = 0)) = true := by
    decide +kernel
  have hlast : ∀ k < 206, 0 ≤ (fundamentalAt k).toInt ∧ (fundamentalAt k).toInt < 131072 ∧ (fundamentalAt k).toInt % 2 = 0 := by
    decide +kernel
  rcases h with h | rfl | ⟨k, hk, rfl⟩
  · exact of_decide_eq_true (List.all_eq_true.mp htable coeff h)
  · decide
  · exact hlast k (Nat.lt_succ_of_le hk)

/-- The term is the coefficient times -q1 without its last 16 bits, rounded down. -/
theorem productTerm_toInt {coeff q1 : Int32} (hc : 0 ≤ coeff.toInt ∧ coeff.toInt < 131072 ∧ coeff.toInt % 2 = 0)
    (hq : -(2 ^ 30) ≤ q1.toInt ∧ q1.toInt ≤ 2 ^ 30) :
    (productTerm coeff q1).toInt = coeff.toInt * -q1.toInt / 65536 ∧
      (productTerm coeff q1).toInt ≤ 2147450880 ∧ -2147450880 ≤ (productTerm coeff q1).toInt := by
  have hneg : (-q1).toInt = -q1.toInt := toInt_neg_fits (by omega)
  have hd := toInt_shiftRight coeff 1 1 rfl
  have hh := toInt_shiftRight (-q1) 16 16 rfl
  have hd0 : (0 : Int32) ≤ coeff >>> 1 := by rw [nonneg_iff, hd]; exact Int.ediv_nonneg hc.1 (by decide)
  have hdNat : ((coeff >>> 1).toUInt32.toNat : Int) = (coeff >>> 1).toInt := by
    rw [toNat_toUInt32]; omega
  have hdouble : ((coeff >>> 1) <<< 1).toInt = coeff.toInt := by
    have hdef : (coeff >>> 1) <<< 1 = ((coeff >>> 1).toUInt32 <<< 1).toInt32 := rfl
    have hshift := toNat_shiftLeft_one (coeff >>> 1).toUInt32
    rw [hdef, toInt_toInt32_fits (by omega)]
    omega
  have hlow : ((-q1 &&& 0xffff).toUInt32.toNat : Int) = (-q1).toInt % 65536 := toNat_low (-q1)
  obtain ⟨hl, hlb⟩ := toNat_mul_halves (show (coeff >>> 1).toUInt32.toNat < 65536 by omega)
    (show (-q1 &&& 0xffff).toUInt32.toNat < 65536 by omega)
  have hlp : (lowProduct (coeff >>> 1) (-q1)).toNat =
      (coeff >>> 1).toUInt32.toNat * (-q1 &&& 0xffff).toUInt32.toNat / 32768 := by
    have hshift := toNat_shiftRight_nat ((coeff >>> 1).toUInt32 * (-q1 &&& 0xffff).toUInt32) 15 15 rfl
    rw [hl] at hshift
    exact hshift
  -- the product with the high half
  have hpb := abs_le.mp (abs_mul_le (abs_le.mpr ⟨show -131070 ≤ coeff.toInt by omega, by omega⟩)
    (abs_le.mpr ⟨show -16384 ≤ ((-q1) >>> 16).toInt by omega, by omega⟩))
  have hprod : (((coeff >>> 1) <<< 1) * ((-q1) >>> 16)).toInt = coeff.toInt * ((-q1) >>> 16).toInt := by
    rw [← hdouble] at hpb ⊢
    exact toInt_mul_fits (by omega) (by omega)
  -- twice the half coefficient times the low half
  have hsplit : coeff.toInt * -q1.toInt = coeff.toInt * ((-q1) >>> 16).toInt * 65536 +
      2 * ((coeff >>> 1).toUInt32.toNat * (-q1 &&& 0xffff).toUInt32.toNat : Nat) := by
    have hc2 : coeff.toInt = 2 * (coeff >>> 1).toUInt32.toNat := by omega
    have hq2 : -q1.toInt = ((-q1) >>> 16).toInt * 65536 + (-q1 &&& 0xffff).toUInt32.toNat := by omega
    rw [hq2]
    push_cast
    rw [hc2]
    ring
  have hqb := abs_le.mp (abs_mul_le (abs_le.mpr ⟨show -131070 ≤ coeff.toInt by omega, by omega⟩)
    (abs_le.mpr ⟨show -(2 ^ 30) ≤ -q1.toInt by omega, by omega⟩))
  have hterm : (productTerm coeff q1).toInt = coeff.toInt * ((-q1) >>> 16).toInt + (lowProduct (coeff >>> 1) (-q1)).toNat := by
    unfold productTerm
    simp only [hd0, if_true]
    rw [← hprod]
    exact toInt_add_unsigned (by omega) (by omega) (by omega)
  rw [hlp] at hterm
  omega

/-! ## The result -/

theorem absolute_toInt {q : Int32} (h : -2147483648 < q.toInt) : (absolute q).toInt = |q.toInt| := by
  unfold absolute
  by_cases hq : 0 ≤ q
  · have hq' := nonneg_iff.mp hq
    rw [if_pos hq, abs_of_nonneg hq']
  · have hq' := not_le.mp (mt nonneg_iff.mpr hq)
    rw [if_neg hq, toInt_neg_fits h, abs_of_neg hq']

/-- The signed product of the term and q2, in three words. -/
theorem signedProduct_words (d q2 : Int32) (hd : -2147483648 < d.toInt) (hq : -2147483648 < q2.toInt) :
    let x := if 0 ≤ d then product d (absolute q2) else negate (product (-d) (absolute q2))
    let x := if q2 < 0 then negate x else x
    Within 1 (2 ^ 30 + 2 ^ 17) x ∧ wordsValue x = d.toInt * q2.toInt := by
  have habs := absolute_toInt hq
  have habs0 : 0 ≤ (absolute q2).toInt := by rw [habs]; exact abs_nonneg _
  have hinner : Within 1 (2 ^ 30 + 2 ^ 17) (if 0 ≤ d then product d (absolute q2) else negate (product (-d) (absolute q2))) ∧
      wordsValue (if 0 ≤ d then product d (absolute q2) else negate (product (-d) (absolute q2))) =
        d.toInt * (absolute q2).toInt := by
    by_cases h : 0 ≤ d
    · rw [if_pos h]
      exact product_words (nonneg_iff.mp h) habs0
    · have hlt : d.toInt < 0 := not_le.mp (mt nonneg_iff.mpr h)
      have hneg := toInt_neg_fits hd
      obtain ⟨hw, hv⟩ := product_words (show 0 ≤ (-d).toInt by omega) habs0
      obtain ⟨hw', hv'⟩ := negate_words (by omega) (by omega) hw
      rw [if_neg h]
      refine ⟨hw', ?_⟩
      rw [hv', hv, hneg]
      ring
  obtain ⟨hw, hv⟩ := hinner
  intro x y
  by_cases h : q2 < 0
  · have hlt := neg_iff.mp h
    obtain ⟨hw', hv'⟩ := negate_words (by omega) (by omega) hw
    have hy : y = negate x := if_pos h
    rw [hy]
    refine ⟨hw', ?_⟩
    rw [hv', hv, habs, abs_of_neg hlt]
    ring
  · have hle := not_lt.mp (mt neg_iff.mpr h)
    have hy : y = x := if_neg h
    rw [hy]
    refine ⟨hw, ?_⟩
    rw [hv, habs, abs_of_nonneg hle]

/-- The power of a filter: the two words left are q1² + q2² + D·q2 exactly, where D is the product term, and that is within
two units of the coefficient times -q1. -/
theorem goertzelResult_exact {coeff q1 q2 : Int32} (hc : TableCoefficient coeff) (h1 : |q1.toInt| ≤ 2 ^ 30)
    (h2 : |q2.toInt| ≤ 2 ^ 30) :
    (goertzelResult coeff (q1, q2)).2.toInt * 2 ^ 32 + ((goertzelResult coeff (q1, q2)).1.toUInt32.toNat : Int) =
        q1.toInt ^ 2 + q2.toInt ^ 2 + (productTerm coeff q1).toInt * q2.toInt ∧
      |(productTerm coeff q1).toInt * 2 ^ 16 + coeff.toInt * q1.toInt| < 2 * 2 ^ 16 := by
  have h1' := abs_le.mp h1
  have h2' := abs_le.mp h2
  obtain ⟨hterm, hhigh, hlow⟩ := productTerm_toInt hc.even h1'
  have ha1 := absolute_toInt (q := q1) (by omega)
  have ha2 := absolute_toInt (q := q2) (by omega)
  obtain ⟨hw, hv⟩ := signedProduct_words (productTerm coeff q1) q2 (by omega) (by omega)
  obtain ⟨hw1, hv1⟩ := addSquare_words (d := absolute q1) (by rw [ha1]; exact abs_nonneg _) (by omega) (by omega) (by omega) hw
  obtain ⟨hw2, hv2⟩ := addSquare_words (d := absolute q2) (by rw [ha2]; exact abs_nonneg _) (by omega) (by omega) (by omega) hw1
  have hcarry := carry_words (by omega) (by omega) hw2
  constructor
  · rw [goertzelResult_eq]
    refine hcarry.trans ?_
    rw [hv2, hv1, hv, ha1, ha2, sq_abs, sq_abs]
    ring
  · rw [hterm, abs_lt]
    have hneg : coeff.toInt * -q1.toInt = -(coeff.toInt * q1.toInt) := by ring
    rw [hneg]
    omega

/-- The filter for 697 Hz, with q1 and q2 of opposite signs. -/
theorem goertzelResult_exact_697 :
    (goertzelResult (0xda97 * 2) (70000, -50000)).2.toInt * 2 ^ 32 +
          ((goertzelResult (0xda97 * 2) (70000, -50000)).1.toUInt32.toNat : Int) =
        (70000 : Int32).toInt ^ 2 + (-50000 : Int32).toInt ^ 2 +
          (productTerm (0xda97 * 2) 70000).toInt * (-50000 : Int32).toInt ∧
      |(productTerm (0xda97 * 2) 70000).toInt * 2 ^ 16 + (0xda97 * 2 : Int32).toInt * (70000 : Int32).toInt| < 2 * 2 ^ 16 :=
  goertzelResult_exact (Or.inl (by decide)) (by decide) (by decide)

end Divas.Capi.DtmfReceive
