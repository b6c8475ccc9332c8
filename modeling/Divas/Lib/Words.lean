/-
  Divas.Lib.Words — 32-bit machine words read as integers.

  A sum, a product or a shift of machine words is the integer one as long as the integer result is
  in range; only the result has to fit, not what the words held on the way.
-/

import Mathlib.Algebra.Order.Ring.Abs
import Mathlib.Algebra.Order.Ring.Int

namespace Divas.Lib.Words

/-! ## Range -/

theorem bmod_fits {x : Int} (lo : -2147483648 ≤ x) (hi : x < 2147483648) : x.bmod 4294967296 = x :=
  Int.bmod_eq_of_le lo hi

theorem abs_mul_le {a b A B : Int} (ha : |a| ≤ A) (hb : |b| ≤ B) : |a * b| ≤ A * B := by
  rw [abs_mul]
  exact mul_le_mul ha hb (abs_nonneg _) ((abs_nonneg _).trans ha)

/-! ## Signed words -/

theorem nonneg_iff {a : Int32} : 0 ≤ a ↔ 0 ≤ a.toInt := Int32.le_iff_toInt_le

theorem neg_iff {a : Int32} : a < 0 ↔ a.toInt < 0 := Int32.lt_iff_toInt_lt

theorem toInt_add_fits {a b : Int32} (lo : -2147483648 ≤ a.toInt + b.toInt) (hi : a.toInt + b.toInt < 2147483648) :
    (a + b).toInt = a.toInt + b.toInt := by
  rw [Int32.toInt_add]
  exact bmod_fits lo hi

theorem toInt_mul_fits {a b : Int32} (lo : -2147483648 ≤ a.toInt * b.toInt) (hi : a.toInt * b.toInt < 2147483648) :
    (a * b).toInt = a.toInt * b.toInt := by
  rw [Int32.toInt_mul]
  exact bmod_fits lo hi

theorem toInt_neg_fits {a : Int32} (h : -2147483648 < a.toInt) : (-a).toInt = -a.toInt := by
  have hlt := a.toInt_lt
  rw [Int32.toInt_neg]
  exact bmod_fits (by omega) (by omega)

/-- An arithmetic shift right is a division that rounds down. -/
theorem toInt_shiftRight (a s : Int32) (n : Nat) (hs : (s.toBitVec.smod 32).toNat = n) : (a >>> s).toInt = a.toInt / 2 ^ n := by
  rw [← Int32.toInt_toBitVec, Int32.toBitVec_shiftRight, BitVec.sshiftRight', hs, BitVec.toInt_sshiftRight,
    Int.shiftRight_eq_div_pow, Int32.toInt_toBitVec]
  rfl

/-! ## Between the signed and the unsigned reading -/

theorem toNat_toUInt32 (a : Int32) : (a.toUInt32.toNat : Int) = a.toInt % 4294967296 := by
  have hlt := a.toBitVec.isLt
  have hbmod : a.toInt % 4294967296 = (a.toBitVec.toNat : Int) % 4294967296 := by
    rw [← Int32.toInt_toBitVec, BitVec.toInt_eq_toNat_bmod]
    exact Int.bmod_emod
  rw [hbmod, ← Int32.toNat_toBitVec]
  omega

theorem toInt_toInt32 (u : UInt32) : u.toInt32.toInt = (u.toNat : Int).bmod 4294967296 := by
  rw [← Int32.toInt_toBitVec]
  exact BitVec.toInt_eq_toNat_bmod _

theorem toInt_toInt32_fits {u : UInt32} (h : u.toNat < 2147483648) : u.toInt32.toInt = u.toNat := by
  rw [toInt_toInt32]
  exact bmod_fits (by omega) (by omega)

/-- An unsigned word added to a signed one. -/
theorem toInt_add_unsigned {a : Int32} {u : UInt32} (h : u.toNat < 2147483648) (lo : -2147483648 ≤ a.toInt + u.toNat)
    (hi : a.toInt + u.toNat < 2147483648) : (a.toUInt32 + u).toInt32.toInt = a.toInt + u.toNat := by
  have hu := toInt_toInt32_fits h
  have hsum : (a.toUInt32 + u).toInt32 = a + u.toInt32 := rfl
  rw [hsum, toInt_add_fits (by omega) (by omega), hu]

/-! ## Halves of a word -/

theorem toNat_and_low (u : UInt32) : (u &&& 0xffff).toNat = u.toNat % 65536 := by
  rw [UInt32.toNat_and]
  exact Nat.and_two_pow_sub_one_eq_mod _ 16

theorem toNat_shiftRight_nat (u s : UInt32) (n : Nat) (hs : s.toNat % 32 = n) : (u >>> s).toNat = u.toNat / 2 ^ n := by
  rw [UInt32.toNat_shiftRight, hs, Nat.shiftRight_eq_div_pow]

theorem toNat_shiftRight_high (u : UInt32) : (u >>> 16).toNat = u.toNat / 65536 := toNat_shiftRight_nat u 16 16 rfl

theorem toNat_shiftLeft_one (u : UInt32) : (u <<< 1).toNat = u.toNat * 2 % 4294967296 := by
  rw [UInt32.toNat_shiftLeft]
  exact congrArg (· % 4294967296) (Nat.shiftLeft_eq _ 1)

theorem toNat_low (a : Int32) : ((a &&& 0xffff).toUInt32.toNat : Int) = a.toInt % 65536 := by
  have hand := toNat_and_low a.toUInt32
  have hcast := toNat_toUInt32 a
  have hlow : (a &&& 0xffff).toUInt32.toNat = (a.toUInt32 &&& 0xffff).toNat := rfl
  omega

theorem toNat_high {a : Int32} (h : 0 ≤ a.toInt) : ((a >>> 16).toUInt32.toNat : Int) = a.toInt / 65536 := by
  have hlt := a.toInt_lt
  have hcast := toNat_toUInt32 (a >>> 16)
  have hshift := toInt_shiftRight a 16 16 rfl
  omega

/-- Two halves put together. -/
theorem toNat_join (a b : Int32) :
    (((a &&& (0xffff : Int32)) ||| (b <<< (16 : Int32))).toUInt32.toNat : Int) = b.toInt % 65536 * 65536 + a.toInt % 65536 := by
  have hlow := toNat_low a
  have hcast := toNat_toUInt32 b
  have hshift : (b <<< (16 : Int32)).toUInt32.toNat = b.toUInt32.toNat % 65536 * 65536 := by
    have hdef : (b <<< (16 : Int32)).toUInt32 = b.toUInt32 <<< 16 := rfl
    rw [hdef, UInt32.toNat_shiftLeft]
    have hpow : b.toUInt32.toNat <<< ((16 : UInt32).toNat % 32) = b.toUInt32.toNat * 65536 := Nat.shiftLeft_eq _ 16
    omega
  have hor : ((a &&& (0xffff : Int32)) ||| (b <<< (16 : Int32))).toUInt32.toNat =
      (b <<< (16 : Int32)).toUInt32.toNat + (a &&& 0xffff).toUInt32.toNat := by
    rw [Int32.toUInt32_or, UInt32.toNat_or, hshift, Nat.or_comm]
    have hlt : (a &&& (0xffff : Int32)).toUInt32.toNat < 2 ^ 16 := by omega
    have hbits := Nat.shiftLeft_add_eq_or_of_lt hlt (b.toUInt32.toNat % 65536)
    rw [Nat.shiftLeft_eq] at hbits
    exact hbits.symm
  omega

/-! ## Products of halves -/

/-- A product of two halves does not wrap. -/
theorem toNat_mul_halves {u v : UInt32} (hu : u.toNat < 65536) (hv : v.toNat < 65536) :
    (u * v).toNat = u.toNat * v.toNat ∧ u.toNat * v.toNat ≤ 65535 * 65535 := by
  have hle : u.toNat * v.toNat ≤ 65535 * 65535 := Nat.mul_le_mul (by omega) (by omega)
  refine ⟨?_, hle⟩
  rw [UInt32.toNat_mul]
  exact Nat.mod_eq_of_lt (by omega)

end Divas.Lib.Words
