/-
  Divas.Lib.Crc — cyclic redundancy checks, the least significant bit first.

  `shifts poly n c` is `n` bits of the remainder `c`. A shift is linear in exclusive or
  (`shifts_xor`), so eight of them are what a table has for the low byte, and the rest moved
  down by eight places (`shifts_eight`).
-/

import Mathlib.Data.List.Basic

namespace Divas.Lib.Crc

variable {w : Nat} (poly : BitVec w)

def shift (c : BitVec w) : BitVec w := if c.getLsbD 0 then (c >>> 1) ^^^ poly else c >>> 1

def shifts : Nat → BitVec w → BitVec w
  | 0, c => c
  | n + 1, c => shift poly (shifts n c)

/-- A byte more. -/
def crcByte (c : BitVec w) (b : BitVec 8) : BitVec w := shifts poly 8 (c ^^^ b.setWidth w)

theorem shift_xor (a b : BitVec w) : shift poly (a ^^^ b) = shift poly a ^^^ shift poly b := by
  have hcancel : ∀ x y : BitVec w, x ^^^ y = x ^^^ poly ^^^ (y ^^^ poly) := by
    intro x y
    rw [BitVec.xor_assoc, ← BitVec.xor_assoc poly, BitVec.xor_comm poly, BitVec.xor_assoc y, BitVec.xor_self, BitVec.xor_zero]
  unfold shift
  rw [BitVec.getLsbD_xor, BitVec.ushiftRight_xor_distrib]
  cases a.getLsbD 0 <;> cases b.getLsbD 0
  · rfl
  · exact BitVec.xor_assoc _ _ _
  · show a >>> 1 ^^^ b >>> 1 ^^^ poly = a >>> 1 ^^^ poly ^^^ b >>> 1
    rw [BitVec.xor_assoc, BitVec.xor_comm (b >>> 1), BitVec.xor_assoc]
  · exact hcancel _ _

theorem shifts_xor (n : Nat) (a b : BitVec w) : shifts poly n (a ^^^ b) = shifts poly n a ^^^ shifts poly n b := by
  induction n with
  | zero => rfl
  | succ n ih => rw [shifts, shifts, shifts, ih, shift_xor]

/-- Zeros at the low end are shifted out. -/
theorem shifts_zeros {c : BitVec w} {n : Nat} (h : ∀ i, i < n → c.getLsbD i = false) : shifts poly n c = c >>> n := by
  induction n with
  | zero => rw [shifts, BitVec.ushiftRight_zero]
  | succ n ih =>
    have hrest := ih fun i hi => h i (by omega)
    have hbit : (c >>> n).getLsbD 0 = false := by
      rw [BitVec.getLsbD_ushiftRight]
      exact h n (Nat.lt_succ_self n)
    rw [shifts, hrest, shift, hbit, BitVec.shiftRight_add]
    rfl

theorem shifts_eight (c : BitVec w) : shifts poly 8 c = (c >>> 8) ^^^ shifts poly 8 ((c.setWidth 8).setWidth w) := by
  have hlow : ∀ i, ((c.setWidth 8).setWidth w).getLsbD i = (decide (i < 8) && c.getLsbD i) := by
    intro i
    rw [BitVec.getLsbD_setWidth, BitVec.getLsbD_setWidth]
    by_cases hi : i < w
    · simp [hi]
    · simp [hi, BitVec.getLsbD_of_ge c i (Nat.not_lt.1 hi)]
  have hsplit : c = (c ^^^ (c.setWidth 8).setWidth w) ^^^ (c.setWidth 8).setWidth w := by
    rw [BitVec.xor_assoc, BitVec.xor_self, BitVec.xor_zero]
  have hhigh : shifts poly 8 (c ^^^ (c.setWidth 8).setWidth w) = c >>> 8 := by
    rw [shifts_zeros]
    · refine BitVec.eq_of_getLsbD_eq fun i _ => ?_
      rw [BitVec.getLsbD_ushiftRight, BitVec.getLsbD_ushiftRight, BitVec.getLsbD_xor, hlow, decide_eq_false (by omega),
        Bool.false_and, Bool.xor_false]
    · intro i hi
      rw [BitVec.getLsbD_xor, hlow]
      simp [hi]
  conv => lhs; rw [hsplit, shifts_xor, hhigh]

/-- A table has the eight shifts of the low byte. -/
theorem table_crcByte {poly : BitVec 16} {table : List (BitVec 16)}
    (htable : ∀ i, i < 256 → table.getD i 0 = shifts poly 8 (BitVec.ofNat 16 i)) (c v : BitVec 16) :
    (c >>> 8) ^^^ table.getD ((c ^^^ v) &&& 0xff).toNat 0 = crcByte poly c (v.setWidth 8) := by
  have hmask : ∀ i, i < 16 → (0xff : BitVec 16).getLsbD i = decide (i < 8) := by decide
  have hhigh : (c ^^^ (v.setWidth 8).setWidth 16) >>> 8 = c >>> 8 := by
    refine BitVec.eq_of_getLsbD_eq fun i _ => ?_
    rw [BitVec.getLsbD_ushiftRight, BitVec.getLsbD_ushiftRight, BitVec.getLsbD_xor, BitVec.getLsbD_setWidth,
      BitVec.getLsbD_setWidth,
      decide_eq_false (show ¬ 8 + i < 8 by omega), Bool.false_and, Bool.and_false, Bool.xor_false]
  have hlow : ((c ^^^ (v.setWidth 8).setWidth 16).setWidth 8).setWidth 16 = (c ^^^ v) &&& 0xff := by
    refine BitVec.eq_of_getLsbD_eq fun i hi => ?_
    rw [BitVec.getLsbD_setWidth, BitVec.getLsbD_setWidth, BitVec.getLsbD_xor, BitVec.getLsbD_setWidth, BitVec.getLsbD_setWidth,
      BitVec.getLsbD_and, BitVec.getLsbD_xor, hmask i hi]
    by_cases h8 : i < 8 <;> simp [h8, hi]
  have hlt : ((c ^^^ v) &&& 0xff).toNat < 256 := by
    rw [BitVec.toNat_and]
    exact Nat.lt_of_le_of_lt Nat.and_le_right (by decide)
  unfold crcByte
  rw [shifts_eight, hhigh, hlow, htable _ hlt, BitVec.ofNat_toNat, BitVec.setWidth_eq]

/-- With the highest bit in the polynomial no shift loses anything. -/
theorem shift_injective {a b : BitVec (w + 1)} {p : BitVec (w + 1)} (hp : p.getLsbD w = true) (h : shift p a = shift p b) :
    a = b := by
  have htop : ∀ c : BitVec (w + 1), (shift p c).getLsbD w = c.getLsbD 0 := by
    intro c
    have hout : (c >>> 1).getLsbD w = false := by
      rw [BitVec.getLsbD_ushiftRight]
      exact BitVec.getLsbD_of_ge c _ (by omega)
    unfold shift
    cases hc : c.getLsbD 0 with
    | false => exact hout
    | true =>
      rw [if_pos rfl, BitVec.getLsbD_xor, hout, hp]
      rfl
  have hlow : a.getLsbD 0 = b.getLsbD 0 := by rw [← htop a, ← htop b, h]
  have hrest : a >>> 1 = b >>> 1 := by
    unfold shift at h
    rw [hlow] at h
    cases hb : b.getLsbD 0 with
    | false =>
      simp only [hb, Bool.false_eq_true, if_false] at h
      exact h
    | true =>
      simp only [hb, if_true] at h
      exact (BitVec.xor_left_inj p).1 h
  refine BitVec.eq_of_getLsbD_eq fun i _ => ?_
  cases i with
  | zero => exact hlow
  | succ i =>
    have := congrArg (fun c => c.getLsbD i) hrest
    simp only [BitVec.getLsbD_ushiftRight] at this
    rwa [Nat.add_comm 1 i] at this

theorem shifts_injective {p : BitVec (w + 1)} (hp : p.getLsbD w = true) (n : Nat) {a b : BitVec (w + 1)}
    (h : shifts p n a = shifts p n b) : a = b := by
  induction n with
  | zero => exact h
  | succ n ih => exact ih (shift_injective hp h)

theorem shifts_add (n m : Nat) (c : BitVec w) : shifts poly (n + m) c = shifts poly n (shifts poly m c) := by
  induction n with
  | zero => rw [Nat.zero_add, shifts]
  | succ n ih => rw [Nat.succ_add, shifts, ih, shifts]

end Divas.Lib.Crc
