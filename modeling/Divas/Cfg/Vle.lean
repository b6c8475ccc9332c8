/-
  Divas.Cfg.Vle — variable length numbers of the configuration storage (diva_cfg_lib.c).

  A `dword` is stored in bytes of seven bits. `dword_to_vle` writes it, or only counts when
  it has no buffer, and gives up when the buffer is too short; `vle_to_dword` reads it and
  says how many bytes it took. Storage is a list of bytes; what lies behind it is not read.

  Proved: `dword_to_vle` writes the encoding if there is room (`dwordToVle_eq`), and
  `vle_to_dword` reads the encoding of a dword (`vleToDword_encode`).
-/

import Mathlib.Data.Nat.Bitwise
import Divas.Lib.Leb128

namespace Divas.Cfg

open Divas.Lib

/-- The loop of `dword_to_vle`. `room` is `max_length` if there is a buffer. A dword has at
    most five groups of seven bits. -/
def dwordToVleLoop (room : Option Nat) : Nat → Nat → Nat → Option (List UInt8)
  | 0, _, _ => some []
  | n + 1, pos, value =>
    if room.any (· ≤ pos) then none
    else if value >>> 7 ≠ 0 then
      (dwordToVleLoop room n (pos + 1) (value >>> 7)).map (UInt8.ofNat ((value &&& 0x7f) ||| 0x80) :: ·)
    else some [UInt8.ofNat (value &&& 0x7f)]

/-- The bytes that `dword_to_vle` writes, or counts. -/
def dwordToVle (value : Nat) (room : Option Nat) : Option (List UInt8) := dwordToVleLoop room 5 0 value

def vleToDwordLoop : List UInt8 → Nat → Nat → Nat × Nat
  | [], i, v => (v, i)
  | b :: vle, i, v =>
    let v := v ||| (b.toNat &&& 0x7f) <<< (i * 7) % 2 ^ 32
    if b.toNat &&& 0x80 ≠ 0 then vleToDwordLoop vle (i + 1) v else (v, i + 1)

/-- The value, and how many bytes it has. -/
def vleToDword (vle : List UInt8) : Nat × Nat := vleToDwordLoop vle 0 0

theorem and_low (v : Nat) : v &&& 0x7f = v % 128 := Nat.and_two_pow_sub_one_eq_mod v 7

theorem shift_low (v : Nat) : v >>> 7 = v / 128 := Nat.shiftRight_eq_div_pow v 7

theorem or_high {v : Nat} (h : v < 128) : v ||| 0x80 = v + 128 := by
  have := Nat.two_pow_add_eq_or_of_lt (i := 7) h 1
  rw [Nat.or_comm, ← this]
  omega

theorem and_high (b : UInt8) : b.toNat &&& 0x80 ≠ 0 ↔ ¬ b.toNat < 128 := by
  have hb := b.toNat_lt
  have hand : b.toNat &&& 0x80 = 2 ^ 7 * (b.toNat.testBit 7).toNat := by
    rw [Nat.and_comm]
    exact Nat.two_pow_and b.toNat 7
  rw [hand, Nat.testBit_eq_decide_div_mod_eq]
  by_cases h : b.toNat / 2 ^ 7 % 2 = 1
  · simp only [h, decide_true, Bool.toNat_true]
    omega
  · simp only [h, decide_false, Bool.toNat_false]
    omega

theorem dwordToVleLoop_eq {room : Option Nat} {n v : Nat} (pos : Nat) (hn : 0 < n) (hv : v < 128 ^ n) :
    dwordToVleLoop room n pos v
      = if room.any (· < pos + (Leb128.encode v).length) then none else some (Leb128.encode v) := by
  induction n generalizing v pos with
  | zero => omega
  | succ n ih =>
    unfold dwordToVleLoop
    by_cases hroom : room.any (· ≤ pos)
    · have hall : room.any (· < pos + (Leb128.encode v).length) := by
        have hpos := Leb128.length_encode_pos v
        rcases room with - | m
        · simp at hroom
        · simp only [Option.any_some, decide_eq_true_eq] at hroom ⊢
          omega
      rw [if_pos hroom, if_pos hall]
    · rw [if_neg hroom]
      by_cases hlt : v < 128
      · have hz : ¬ v >>> 7 ≠ 0 := by rw [shift_low]; omega
        have hlow : v &&& 0x7f = v := by rw [and_low]; omega
        have hone : ¬ room.any (· < pos + [UInt8.ofNat v].length) := by
          rcases room with - | m
          · simp
          · simp only [Option.any_some, decide_eq_true_eq, List.length_singleton] at hroom ⊢
            omega
        rw [if_neg hz, Leb128.encode_of_lt hlt, hlow, if_neg hone]
      · have hz : v >>> 7 ≠ 0 := by rw [shift_low]; omega
        have hn' : 0 < n := by
          rcases Nat.eq_zero_or_pos n with rfl | hpos
          · exact absurd (by simpa using hv) hlt
          · exact hpos
        have hdiv : v / 128 < 128 ^ n := Nat.div_lt_of_lt_mul (by rw [Nat.pow_succ] at hv; omega)
        have hbyte : (v &&& 0x7f) ||| 0x80 = v % 128 + 128 := by rw [and_low, or_high (Nat.mod_lt v (by decide))]
        have hlen : pos + 1 + (Leb128.encode (v / 128)).length
            = pos + (UInt8.ofNat (v % 128 + 128) :: Leb128.encode (v / 128)).length := by
          rw [List.length_cons]; omega
        rw [if_pos hz, hbyte, shift_low, ih (pos + 1) hn' hdiv, hlen, Leb128.encode_of_ge hlt]
        split <;> rfl

/-- `dword_to_vle` writes the encoding, if there is room for it. -/
theorem dwordToVle_eq {room : Option Nat} {v : Nat} (hv : v < 2 ^ 32) :
    dwordToVle v room = if room.any (· < (Leb128.encode v).length) then none else some (Leb128.encode v) := by
  have h := @dwordToVleLoop_eq room 5 v 0 (by decide) (hv.trans (by decide))
  rwa [Nat.zero_add] at h

theorem dwordToVle_count {v : Nat} (hv : v < 2 ^ 32) : dwordToVle v none = some (Leb128.encode v) := dwordToVle_eq hv

theorem dwordToVle_room {v m : Nat} (hv : v < 2 ^ 32) (hm : (Leb128.encode v).length ≤ m) :
    dwordToVle v (some m) = some (Leb128.encode v) := by
  rw [dwordToVle_eq hv, if_neg]
  simpa using hm

/-- The groups of seven bits are put together. -/
theorem or_shift {v g i : Nat} (hv : v < 2 ^ (i * 7)) : v ||| g <<< (i * 7) = v + g * 2 ^ (i * 7) := by
  rw [Nat.or_comm, Nat.shiftLeft_eq, Nat.mul_comm g, ← Nat.two_pow_add_eq_or_of_lt hv]
  omega

theorem vleToDwordLoop_encode (n : Nat) {i v : Nat} (rest : List UInt8) (hv : v < 2 ^ (i * 7))
    (hn : v + n * 2 ^ (i * 7) < 2 ^ 32) :
    vleToDwordLoop (Leb128.encode n ++ rest) i v = (v + n * 2 ^ (i * 7), i + (Leb128.encode n).length) := by
  induction n using Nat.strongRecOn generalizing i v with
  | ind n ih =>
    by_cases hlt : n < 128
    · have hb : (UInt8.ofNat n).toNat = n := by simp; omega
      have hlow : n &&& 0x7f = n := by rw [and_low]; omega
      have hfit : n <<< (i * 7) % 2 ^ 32 = n <<< (i * 7) := by
        rw [Nat.shiftLeft_eq]; exact Nat.mod_eq_of_lt (by omega)
      have hend : ¬ (UInt8.ofNat n).toNat &&& 0x80 ≠ 0 := by rw [and_high, hb]; exact not_not.mpr hlt
      rw [Leb128.encode_of_lt hlt, List.singleton_append, vleToDwordLoop]
      rw [if_neg hend, hb, hlow, hfit, or_shift hv]
      rfl
    · have hb : (UInt8.ofNat (n % 128 + 128)).toNat = n % 128 + 128 := by simp; omega
      have hlow : n % 128 + 128 &&& 0x7f = n % 128 := by rw [and_low]; omega
      have hmore : (UInt8.ofNat (n % 128 + 128)).toNat &&& 0x80 ≠ 0 := by rw [and_high, hb]; omega
      have hpow : (2 : Nat) ^ ((i + 1) * 7) = 128 * 2 ^ (i * 7) := by rw [Nat.succ_mul, Nat.pow_add]; ring
      have hsplit : n % 128 * 2 ^ (i * 7) + n / 128 * 2 ^ ((i + 1) * 7) = n * 2 ^ (i * 7) := by
        rw [hpow, ← Nat.mul_assoc, ← Nat.add_mul]
        congr 1
        omega
      have hfit : (n % 128) <<< (i * 7) % 2 ^ 32 = (n % 128) <<< (i * 7) := by
        rw [Nat.shiftLeft_eq]; exact Nat.mod_eq_of_lt (by omega)
      have hv' : v + n % 128 * 2 ^ (i * 7) < 2 ^ ((i + 1) * 7) := by
        have hmod : n % 128 + 1 ≤ 128 := Nat.mod_lt n (by decide)
        have := Nat.mul_le_mul_right (2 ^ (i * 7)) hmod
        rw [Nat.add_mul] at this
        rw [hpow]
        omega
      rw [Leb128.encode_of_ge hlt, List.cons_append, vleToDwordLoop]
      rw [if_pos hmore, hb, hlow, hfit, or_shift hv, ih (n / 128) (by omega) hv' (by omega), List.length_cons]
      simp only [Prod.mk.injEq]
      constructor
      · omega
      · omega

/-- `vle_to_dword` reads what `dword_to_vle` writes, whatever follows. -/
theorem vleToDword_encode {v : Nat} (hv : v < 2 ^ 32) (rest : List UInt8) :
    vleToDword (Leb128.encode v ++ rest) = (v, (Leb128.encode v).length) := by
  have h := vleToDwordLoop_encode v rest (i := 0) (v := 0) (by decide) (by simpa using hv)
  simpa [vleToDword] using h

end Divas.Cfg
