/-
  Divas.Lib.BitStream — a stream of bytes read as bits, the highest bit of a byte first.

  The bits in front of a place are a number, `upTo`; the `w` bits in front of it are
  `window w`. Before the first bit there are zeros.

  Proved: a window does not depend on what follows (`window_append`), and a window that
  ends inside a byte is made by shifting the window in front of the byte and the byte
  together (`window_join`).
-/

import Mathlib.Data.List.Induction
import Mathlib.Data.Nat.Bitwise
import Mathlib.Tactic.Ring

namespace Divas.Lib.BitStream

/-- The bytes as digits. -/
def value (bs : List (BitVec 8)) : Nat := bs.foldl (fun v b => v * 256 + b.toNat) 0

/-- The first `t` bits. -/
def upTo (bs : List (BitVec 8)) (t : Nat) : Nat := value bs / 2 ^ (8 * bs.length - t)

/-- The `w` bits in front of place `t`. -/
def window (w : Nat) (bs : List (BitVec 8)) (t : Nat) : BitVec w := BitVec.ofNat w (upTo bs t)

variable {as bs : List (BitVec 8)} {w t : Nat}

@[simp] theorem value_nil : value [] = 0 := rfl

theorem value_snoc (bs : List (BitVec 8)) (b : BitVec 8) : value (bs ++ [b]) = value bs * 256 + b.toNat := by
  unfold value
  rw [List.foldl_append]
  rfl

theorem value_append (as bs : List (BitVec 8)) : value (as ++ bs) = value as * 2 ^ (8 * bs.length) + value bs := by
  induction bs using List.reverseRecOn with
  | nil => simp
  | append_singleton bs b ih =>
    rw [← List.append_assoc, value_snoc, value_snoc, ih, List.length_append, List.length_singleton, Nat.mul_add, Nat.pow_add]
    ring

theorem value_lt (bs : List (BitVec 8)) : value bs < 2 ^ (8 * bs.length) := by
  induction bs using List.reverseRecOn with
  | nil => simp
  | append_singleton bs b ih =>
    have hb := b.isLt
    rw [value_snoc, List.length_append, List.length_singleton, Nat.mul_add, Nat.pow_add]
    omega

theorem upTo_length (bs : List (BitVec 8)) : upTo bs (8 * bs.length) = value bs := by
  unfold upTo
  rw [Nat.sub_self, Nat.pow_zero, Nat.div_one]

theorem upTo_append (bs : List (BitVec 8)) (h : t ≤ 8 * as.length) : upTo (as ++ bs) t = upTo as t := by
  have hexp : 8 * (as ++ bs).length - t = 8 * bs.length + (8 * as.length - t) := by
    rw [List.length_append]
    omega
  unfold upTo
  rw [value_append, hexp, Nat.pow_add, ← Nat.div_div_eq_div_mul, Nat.mul_comm, Nat.mul_add_div (Nat.two_pow_pos _),
    Nat.div_eq_of_lt (value_lt bs), Nat.add_zero]

theorem upTo_zero (bs : List (BitVec 8)) : upTo bs 0 = 0 := by
  unfold upTo
  exact Nat.div_eq_of_lt (value_lt bs)

theorem upTo_lt (h : t ≤ 8 * bs.length) : upTo bs t < 2 ^ t := by
  have hv := value_lt bs
  unfold upTo
  refine Nat.div_lt_of_lt_mul ?_
  rw [← Nat.pow_add]
  rwa [show 8 * bs.length - t + t = 8 * bs.length by omega]

/-- Fewer bits; none before the first. -/
theorem upTo_div (h : t ≤ 8 * bs.length) (k : Nat) : upTo bs t / 2 ^ k = upTo bs (t - k) := by
  by_cases hk : k ≤ t
  · unfold upTo
    rw [Nat.div_div_eq_div_mul, ← Nat.pow_add]
    congr 2
    omega
  · have hlt := upTo_lt h
    have h0 : t - k = 0 := by omega
    rw [h0, upTo_zero, Nat.div_eq_of_lt (hlt.trans_le (Nat.pow_le_pow_right (by omega) (by omega)))]

theorem window_append (bs : List (BitVec 8)) (h : t ≤ 8 * as.length) : window w (as ++ bs) t = window w as t := by
  unfold window
  rw [upTo_append bs h]

theorem window_zero (bs : List (BitVec 8)) : window w bs 0 = 0 := by
  unfold window
  rw [upTo_zero]
  rfl

/-- The byte that was appended. -/
theorem window_last (bs : List (BitVec 8)) (b : BitVec 8) : window 8 (bs ++ [b]) (8 * bs.length + 8) = b := by
  have hlen : 8 * bs.length + 8 = 8 * (bs ++ [b]).length := by
    rw [List.length_append, List.length_singleton]
    omega
  unfold window
  rw [hlen, upTo_length, value_snoc]
  apply BitVec.eq_of_toNat_eq
  rw [BitVec.toNat_ofNat]
  have := b.isLt
  omega

/-- A window that ends `s` bits behind `t`, from the one that ends there and the next eight bits. -/
theorem window_join (bs : List (BitVec 8)) {s : Nat} (hs : s ≤ 8) (hw : 8 ≤ w) (h : t + 8 ≤ 8 * bs.length) :
    window w bs t <<< s ||| (window 8 bs (t + 8)).setWidth w >>> (8 - s) = window w bs (t + s) := by
  have hdiv : ∀ k ≤ 8, upTo bs (t + 8 - k) = upTo bs (t + 8) / 2 ^ k := fun k _ => (upTo_div h k).symm
  have h1 : upTo bs t = upTo bs (t + 8) / 2 ^ 8 := by
    have := hdiv 8 le_rfl
    rwa [Nat.add_sub_cancel] at this
  have h2 : upTo bs (t + s) = upTo bs (t + 8) / 2 ^ (8 - s) := by
    have := hdiv (8 - s) (by omega)
    rwa [show t + 8 - (8 - s) = t + s by omega] at this
  unfold window
  rw [h1, h2]
  generalize upTo bs (t + 8) = v
  apply BitVec.eq_of_getLsbD_eq
  intro i hi
  rw [BitVec.getLsbD_or, BitVec.getLsbD_shiftLeft, BitVec.getLsbD_ushiftRight, BitVec.getLsbD_setWidth, BitVec.getLsbD_ofNat,
    BitVec.getLsbD_ofNat, BitVec.getLsbD_ofNat, Nat.testBit_div_two_pow, Nat.testBit_div_two_pow]
  by_cases his : i < s
  · have hin : i + (8 - s) < 8 := by omega
    have hw' : i + (8 - s) < w := by omega
    simp [his, hi, hin, hw', Nat.add_comm (8 - s) i]
  · have hout : ¬ i + (8 - s) < 8 := by omega
    have hplace : i - s + 8 = i + (8 - s) := by omega
    have hlow : i - s < w := by omega
    simp [his, hi, hout, hplace, hlow, Nat.add_comm (8 - s) i]

end Divas.Lib.BitStream
