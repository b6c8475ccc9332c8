/-
  Divas.Lib.BitTable — bits in a table of 32-bit words.

  Bit `b` is bit `b & 0x1f` of word `b >> 5`.

  Proved: clearing a bit changes what `test` says of this bit and of no other (`test_unset`),
  and a word is 0 if and only if none of its bits is set (`word_eq_zero`).
-/

import Mathlib.Logic.Function.Basic

namespace Divas.Lib.BitTable

abbrev Table := Nat → BitVec 32

/-- The word with only the bit. -/
def bit (b : Nat) : BitVec 32 := 1#32 <<< (b &&& 0x1f)

def test (t : Table) (b : Nat) : Bool := t (b >>> 5) &&& bit b != 0#32

def unset (t : Table) (b : Nat) : Table := Function.update t (b >>> 5) (t (b >>> 5) &&& ~~~ bit b)

theorem low_eq (b : Nat) : b &&& 0x1f = b % 32 := Nat.and_two_pow_sub_one_eq_mod b 5

theorem word_eq (b : Nat) : b >>> 5 = b / 32 := Nat.shiftRight_eq_div_pow b 5

theorem getLsbD_bit (b i : Nat) (hi : i < 32) : (bit b).getLsbD i = decide (b % 32 = i) := by
  have hlt : b % 32 < 32 := Nat.mod_lt b (by decide)
  rw [bit, low_eq, BitVec.getLsbD_shiftLeft, BitVec.getLsbD_one]
  by_cases h : b % 32 = i
  · subst h
    simp [hlt]
  · by_cases hlo : i < b % 32
    · simp [hlo, h]
    · have hne : i - b % 32 ≠ 0 := by omega
      simp [h, hne]

theorem test_eq (t : Table) (b : Nat) : test t b = (t (b / 32)).getLsbD (b % 32) := by
  have hlt : b % 32 < 32 := Nat.mod_lt b (by decide)
  rw [test, word_eq]
  cases hb : (t (b / 32)).getLsbD (b % 32) with
  | true =>
    refine bne_iff_ne.mpr ?_
    intro h0
    have := congrArg (fun w => w.getLsbD (b % 32)) h0
    simp [BitVec.getLsbD_and, getLsbD_bit b _ hlt, hb] at this
  | false =>
    have h0 : t (b / 32) &&& bit b = 0#32 := by
      apply BitVec.eq_of_getLsbD_eq
      intro i hi
      rw [BitVec.getLsbD_and, getLsbD_bit b i hi, BitVec.getLsbD_zero]
      by_cases h : b % 32 = i
      · rw [← h, hb, Bool.false_and]
      · simp [h]
    rw [h0]
    rfl

theorem test_unset (t : Table) (a b : Nat) : test (unset t a) b = (test t b && decide (b ≠ a)) := by
  have hlt : b % 32 < 32 := Nat.mod_lt b (by decide)
  rw [test_eq, test_eq, unset, word_eq]
  by_cases hw : b / 32 = a / 32
  · rw [hw, Function.update_self, BitVec.getLsbD_and, BitVec.getLsbD_not, getLsbD_bit a _ hlt]
    have hiff : a % 32 = b % 32 ↔ ¬ b ≠ a := by omega
    by_cases hba : b ≠ a
    · simp [hba, hlt, hiff]
    · simp [hba, hiff]
  · have hba : b ≠ a := fun h => hw (by rw [h])
    rw [Function.update_of_ne hw]
    simp [hba]

theorem word_eq_zero {t : Table} {k : Nat} : t k = 0#32 ↔ ∀ b, b / 32 = k → test t b = false := by
  constructor
  · intro h b hb
    rw [test_eq, hb, h, BitVec.getLsbD_zero]
  · intro h
    apply BitVec.eq_of_getLsbD_eq
    intro i hi
    have := h (32 * k + i) (by omega)
    rw [test_eq, show (32 * k + i) / 32 = k by omega, show (32 * k + i) % 32 = i by omega] at this
    rw [this, BitVec.getLsbD_zero]

end Divas.Lib.BitTable
