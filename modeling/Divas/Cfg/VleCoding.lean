/-
  Divas.Cfg.VleCoding — `dword_to_vle` with its buffer (diva_cfg_lib.c).

  The function writes a group of seven bits and sets the high bit of the byte when another
  group follows; it looks for room in the buffer before each of the two. Without a buffer it
  only counts.

  Proved, for every dword and every limit: it returns 0 if and only if there are more groups
  than the limit, and else the number of the groups, which `vle_to_dword` reads back whatever
  follows; nothing is written behind the limit, the count without a buffer is the same, and
  no shorter byte string is read as the dword (`vle_coding`).
-/

import Divas.Cfg.Vle
import Divas.Lib.Bytes

namespace Divas.Cfg

open Divas.Lib Divas.Lib.Bytes

/-- The loop of `dword_to_vle` from `pos` on: the return value, and the buffer if there is one. -/
def dwordToVleBuffer (maxLength : Nat) (value pos : Nat) (vle : Option Mem) : Nat × Option Mem :=
  if vle.isSome ∧ maxLength ≤ pos then (0, vle)
  else
    let low := vle.map fun p => Function.update p pos (UInt8.ofNat (value &&& 0x7f))
    if value >>> 7 ≠ 0 then
      if vle.isSome ∧ maxLength ≤ pos then (0, low)
      else dwordToVleBuffer maxLength (value >>> 7) (pos + 1) (low.map fun p => Function.update p pos (p pos ||| 0x80))
    else (pos + 1, low)
termination_by value
decreasing_by
  rename_i h _
  rw [Nat.shiftRight_eq_div_pow] at h ⊢
  omega

/-- The number of groups of seven bits. -/
def groups (v : Nat) : Nat := if v < 128 then 1 else groups (v / 128) + 1

theorem length_encode_eq (v : Nat) : (Leb128.encode v).length = groups v := by
  fun_induction Leb128.encode v with
  | case1 n h => rw [groups, if_pos h, List.length_singleton]
  | case2 n h ih => rw [groups, if_neg h, List.length_cons, ih]

theorem groups_pos (v : Nat) : 0 < groups v := by
  rw [← length_encode_eq]
  exact Leb128.length_encode_pos v

/-- With a high bit the low group of the value is the byte of the encoding. -/
theorem low_high (v : Nat) : UInt8.ofNat (v &&& 0x7f) ||| 0x80 = UInt8.ofNat (v % 128 + 128) := by
  rw [and_low]
  apply UInt8.toNat_inj.mp
  have hlow : v % 128 < 128 := Nat.mod_lt v (by decide)
  have hbyte : (UInt8.ofNat (v % 128)).toNat = v % 128 := by simp; omega
  have hsum : (UInt8.ofNat (v % 128 + 128)).toNat = v % 128 + 128 := by simp; omega
  rw [UInt8.toNat_or, hbyte, hsum]
  exact or_high hlow

theorem dwordToVleBuffer_none (maxLength v pos : Nat) : dwordToVleBuffer maxLength v pos none = (pos + groups v, none) := by
  induction v using Nat.strongRecOn generalizing pos with
  | ind v ih =>
    have hs := shift_low v
    rw [dwordToVleBuffer]
    simp only [Option.isSome_none, Bool.false_eq_true, false_and, if_false, Option.map_none]
    by_cases hlt : v < 128
    · have hz : ¬ v >>> 7 ≠ 0 := by omega
      rw [if_neg hz, groups, if_pos hlt]
    · have hz : v >>> 7 ≠ 0 := by omega
      have hmore : groups v = groups (v / 128) + 1 := by rw [groups, if_neg hlt]
      rw [if_pos hz, hs, ih (v / 128) (by omega), hmore]
      congr 1
      omega

/-- What the loop does with a buffer: the encoding from `pos` on, if there is room for it. -/
theorem dwordToVleBuffer_some (maxLength v pos : Nat) (p : Mem) :
    if maxLength < pos + groups v then
      ∃ q, dwordToVleBuffer maxLength v pos (some p) = (0, some q) ∧ ∀ i, i < pos ∨ maxLength ≤ i → q i = p i
    else dwordToVleBuffer maxLength v pos (some p) = (pos + groups v, some (store p pos (Leb128.encode v))) := by
  induction v using Nat.strongRecOn generalizing pos p with
  | ind v ih =>
    have hs := shift_low v
    have hpos := groups_pos v
    rw [dwordToVleBuffer]
    simp only [Option.isSome_some, true_and, Option.map_some]
    by_cases hroom : maxLength ≤ pos
    · rw [if_pos (by omega)]
      refine ⟨p, ?_, fun i _ => rfl⟩
      rw [if_pos hroom]
    · rw [if_neg hroom]
      by_cases hlt : v < 128
      · have hz : ¬ v >>> 7 ≠ 0 := by omega
        have hone : groups v = 1 := by rw [groups, if_pos hlt]
        have hlow : v &&& 0x7f = v := by rw [and_low]; omega
        rw [hone, if_neg (by omega), if_neg hz, Leb128.encode_of_lt hlt, hlow, update_eq_store]
      · have hz : v >>> 7 ≠ 0 := by omega
        have hmore : groups v = groups (v / 128) + 1 := by rw [groups, if_neg hlt]
        rw [if_pos hz, if_neg hroom, hs, Function.update_self, Function.update_idem, low_high, hmore, ← Nat.add_assoc,
          Nat.add_right_comm]
        have hrest := ih (v / 128) (by omega) (pos + 1) (Function.update p pos (UInt8.ofNat (v % 128 + 128)))
        split
        · rename_i hlong
          rw [if_pos hlong] at hrest
          obtain ⟨q, hq, hframe⟩ := hrest
          refine ⟨q, hq, ?_⟩
          intro i hi
          rw [hframe i (by omega), Function.update_of_ne (by omega)]
        · rename_i hfits
          rw [if_neg hfits] at hrest
          rw [hrest, Leb128.encode_of_ge hlt, update_eq_store]
          exact congrArg (fun q => (pos + 1 + groups (v / 128), some q)) (store_store p pos _ _)

/-! ## Reading -/

theorem le_vleToDwordLoop (bs : List UInt8) (i v : Nat) : i ≤ (vleToDwordLoop bs i v).2 := by
  induction bs generalizing i v with
  | nil => exact le_refl i
  | cons b bs ih =>
    unfold vleToDwordLoop
    dsimp only
    split
    · exact (Nat.le_succ i).trans (ih (i + 1) _)
    · exact Nat.le_succ i

theorem vleToDwordLoop_pos {bs : List UInt8} (h : bs ≠ []) (v : Nat) : 0 < (vleToDwordLoop bs 0 v).2 := by
  cases bs with
  | nil => exact absurd rfl h
  | cons b bs =>
    unfold vleToDwordLoop
    dsimp only
    split
    · exact le_vleToDwordLoop bs 1 _
    · exact Nat.one_pos

/-- After `k` bytes the value has at most `k` groups. -/
theorem vleToDwordLoop_lt (bs : List UInt8) {i v : Nat} (hv : v < 2 ^ (i * 7)) :
    (vleToDwordLoop bs i v).1 < 2 ^ ((vleToDwordLoop bs i v).2 * 7) := by
  induction bs generalizing i v with
  | nil => exact hv
  | cons b bs ih =>
    have hnext : v ||| (b.toNat &&& 0x7f) <<< (i * 7) % 2 ^ 32 < 2 ^ ((i + 1) * 7) := by
      have hpow : (2 : Nat) ^ ((i + 1) * 7) = 128 * 2 ^ (i * 7) := by rw [Nat.succ_mul, Nat.pow_add]; ring
      have hgroup : (b.toNat &&& 0x7f) <<< (i * 7) % 2 ^ 32 < 2 ^ ((i + 1) * 7) := by
        refine Nat.lt_of_le_of_lt (Nat.mod_le _ _) ?_
        rw [and_low, Nat.shiftLeft_eq, hpow]
        exact Nat.mul_lt_mul_of_pos_right (Nat.mod_lt _ (by decide)) (Nat.two_pow_pos _)
      refine Nat.or_lt_two_pow (Nat.lt_of_lt_of_le hv ?_) hgroup
      rw [hpow]
      exact Nat.le_mul_of_pos_left _ (by decide)
    unfold vleToDwordLoop
    dsimp only
    split
    · exact ih hnext
    · exact hnext

/-- No byte string with fewer bytes than groups is read as the value. -/
theorem groups_le_read {bs : List UInt8} (h : bs ≠ []) : groups (vleToDword bs).1 ≤ (vleToDword bs).2 := by
  have hpos := vleToDwordLoop_pos h 0
  have hlt := vleToDwordLoop_lt bs (i := 0) (v := 0) (by decide)
  have hpow : (2 : Nat) ^ ((vleToDwordLoop bs 0 0).2 * 7) = 128 ^ (vleToDwordLoop bs 0 0).2 := by
    rw [Nat.mul_comm, Nat.pow_mul]
  rw [hpow] at hlt
  rw [← length_encode_eq]
  exact Leb128.length_encode_le hpos hlt

/-! ## Coding -/

/-- The coding of a dword, for every limit of the buffer: what is behind the encoding stays as it was. -/
theorem vle_coding (v : BitVec 32) (maxLength : Nat) (buf : Mem) :
    ((dwordToVleBuffer maxLength v.toNat 0 (some buf)).1 = 0 ↔ maxLength < groups v.toNat) ∧
    (∃ vle, (dwordToVleBuffer maxLength v.toNat 0 (some buf)).2 = some vle ∧ (∀ i, maxLength ≤ i → vle i = buf i) ∧
      (groups v.toNat ≤ maxLength →
        (dwordToVleBuffer maxLength v.toNat 0 (some buf)).1 = groups v.toNat ∧ (∀ i, groups v.toNat ≤ i → vle i = buf i) ∧
        ∀ rest, vleToDword (load vle 0 (groups v.toNat) ++ rest) = (v.toNat, groups v.toNat))) ∧
    dwordToVleBuffer maxLength v.toNat 0 none = (groups v.toNat, none) ∧
    ∀ bs, bs ≠ [] → (vleToDword bs).1 = v.toNat → groups v.toNat ≤ (vleToDword bs).2 := by
  have hpos := groups_pos v.toNat
  have hrun := dwordToVleBuffer_some maxLength v.toNat 0 buf
  have hnone := dwordToVleBuffer_none maxLength v.toNat 0
  rw [Nat.zero_add] at hrun hnone
  have hshort : ∀ bs, bs ≠ [] → (vleToDword bs).1 = v.toNat → groups v.toNat ≤ (vleToDword bs).2 := by
    intro bs hbs hv
    rw [← hv]
    exact groups_le_read hbs
  by_cases hlong : maxLength < groups v.toNat
  · rw [if_pos hlong] at hrun
    obtain ⟨vle, hret, hframe⟩ := hrun
    refine ⟨?_, ⟨vle, ?_, fun i hi => hframe i (.inr hi), fun hle => absurd hlong (by omega)⟩, hnone, hshort⟩
    · simp [hret, hlong]
    · rw [hret]
  · rw [if_neg hlong] at hrun
    have hbehind : ∀ i, groups v.toNat ≤ i → store buf 0 (Leb128.encode v.toNat) i = buf i := by
      intro i hi
      refine store_outside buf (.inr ?_)
      rw [length_encode_eq]
      omega
    refine ⟨?_, ⟨store buf 0 (Leb128.encode v.toNat), ?_, ?_, ?_⟩, hnone, hshort⟩
    · rw [hrun]
      simp only [hlong, iff_false]
      exact Nat.ne_of_gt hpos
    · rw [hrun]
    · intro i hi
      exact hbehind i (by omega)
    · intro _
      refine ⟨by rw [hrun], hbehind, ?_⟩
      intro rest
      rw [← length_encode_eq, load_store_self]
      exact vleToDword_encode v.isLt rest

end Divas.Cfg
