/-
  Divas.Lib.Leb128 — numbers as bytes of seven bits, the low ones first.

  The high bit of a byte says that another one follows.

  Proved: a number takes at least one byte (`length_encode_pos`), and below `128 ^ k` at most `k`
  bytes (`length_encode_le`).
-/

import Mathlib.Algebra.Order.Ring.Nat
import Mathlib.Tactic.Ring

namespace Divas.Lib.Leb128

def encode (n : Nat) : List UInt8 :=
  if n < 128 then [UInt8.ofNat n] else UInt8.ofNat (n % 128 + 128) :: encode (n / 128)

theorem encode_of_lt {n : Nat} (h : n < 128) : encode n = [UInt8.ofNat n] := by
  rw [encode, if_pos h]

theorem encode_of_ge {n : Nat} (h : ¬ n < 128) : encode n = UInt8.ofNat (n % 128 + 128) :: encode (n / 128) := by
  rw [encode, if_neg h]

theorem length_encode_pos (n : Nat) : 0 < (encode n).length := by
  by_cases h : n < 128
  · simp [encode_of_lt h]
  · simp [encode_of_ge h]

theorem encode_ne_nil (n : Nat) : encode n ≠ [] := List.ne_nil_of_length_pos (length_encode_pos n)

theorem length_encode_le {n k : Nat} (hk : 0 < k) (h : n < 128 ^ k) : (encode n).length ≤ k := by
  induction k generalizing n with
  | zero => omega
  | succ k ih =>
    by_cases hn : n < 128
    · simp [encode_of_lt hn]
    · have hk' : 0 < k := by
        rcases Nat.eq_zero_or_pos k with rfl | hpos
        · exact absurd (by simpa using h) hn
        · exact hpos
      have hdiv : n / 128 < 128 ^ k := Nat.div_lt_of_lt_mul (by rw [Nat.pow_succ] at h; omega)
      simpa [encode_of_ge hn] using ih hk' hdiv

end Divas.Lib.Leb128
