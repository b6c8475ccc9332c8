/-
  Divas.Lib.Flags — flag bits of a byte.

  `has x m` says that a byte has a bit of the mask `m`. Flags are set with `|||` and
  cleared with `&&&`. Proved: what the tests see of a byte that was set or masked, and
  that setting and masking respect equality under a mask.
-/

namespace Divas.Lib.Flags

/-- `x & m`, as a condition. -/
def has (x m : UInt8) : Bool := x &&& m != 0

theorem has_iff {x m : UInt8} : has x m = true ↔ x &&& m ≠ 0 := by simp [has]

@[simp] theorem has_zero (m : UInt8) : has 0 m = false := by simp [has]

theorem or_and (x y m : UInt8) : (x ||| y) &&& m = (x &&& m) ||| (y &&& m) :=
  UInt8.toBitVec_inj.1 BitVec.and_or_distrib_right

theorem and_or (x y m : UInt8) : m &&& (x ||| y) = (m &&& x) ||| (m &&& y) :=
  UInt8.toBitVec_inj.1 BitVec.and_or_distrib_left

theorem xor_and (x y m : UInt8) : (x ^^^ y) &&& m = (x &&& m) ^^^ (y &&& m) := by
  apply UInt8.toBitVec_inj.1
  apply BitVec.eq_of_getLsbD_eq
  intro i _
  simp only [UInt8.toBitVec_and, UInt8.toBitVec_xor, BitVec.getLsbD_and, BitVec.getLsbD_xor]
  cases m.toBitVec.getLsbD i <;> simp

/-- Absorption. -/
theorem or_and_self (x y : UInt8) : x ||| (x &&& y) = x := by
  have h : x ||| (x &&& y) = x &&& (x ||| y) := by rw [and_or, UInt8.and_self]
  rw [h]
  apply UInt8.toBitVec_inj.1
  apply BitVec.eq_of_getLsbD_eq
  intro i _
  simp only [UInt8.toBitVec_and, UInt8.toBitVec_or, BitVec.getLsbD_and, BitVec.getLsbD_or]
  cases x.toBitVec.getLsbD i <;> simp

theorem has_or (x y m : UInt8) : has (x ||| y) m = (has x m || has y m) := by
  rw [Bool.eq_iff_iff, Bool.or_eq_true, has_iff, has_iff, has_iff, or_and, ne_eq, UInt8.or_eq_zero_iff,
    Decidable.not_and_iff_not_or_not]

theorem has_and (x k m : UInt8) : has (x &&& k) m = has x (k &&& m) := by
  simp only [has, UInt8.and_assoc]

/-- A test sees what it masks. -/
theorem has_congr {x y m k : UInt8} (h : x &&& m = y &&& m) (hk : m &&& k = k) : has x k = has y k := by
  have : ∀ z : UInt8, z &&& k = (z &&& m) &&& k := by
    intro z
    rw [UInt8.and_assoc, hk]
  simp only [has, this x, this y, h]

theorem has_mono {x m k : UInt8} (hk : m &&& k = k) (h : has x k = true) : has x m = true := by
  rw [has_iff] at h ⊢
  intro h0
  apply h
  rw [← hk, ← UInt8.and_assoc, h0, UInt8.zero_and]

theorem or_congr {x y m : UInt8} (h : x &&& m = y &&& m) (k : UInt8) : (x ||| k) &&& m = (y ||| k) &&& m := by
  rw [or_and, or_and, h]

theorem and_congr {x y m : UInt8} (h : x &&& m = y &&& m) (k : UInt8) : (x &&& k) &&& m = (y &&& k) &&& m := by
  rw [UInt8.and_assoc, UInt8.and_comm k, ← UInt8.and_assoc, h, UInt8.and_assoc, UInt8.and_comm m, ← UInt8.and_assoc]

theorem and_and_mask (x y m : UInt8) : (x &&& y) &&& m = (x &&& m) &&& (y &&& m) := by
  rw [UInt8.and_assoc x m, UInt8.and_comm m, UInt8.and_assoc y, UInt8.and_self, UInt8.and_assoc]

/-! ## Conditional setting -/

/-- `if (c) x |= m`. -/
def orIf (c : Bool) (x m : UInt8) : UInt8 := if c then x ||| m else x

@[simp] theorem orIf_false (x m : UInt8) : orIf false x m = x := rfl
@[simp] theorem orIf_true (x m : UInt8) : orIf true x m = x ||| m := rfl

theorem orIf_and {m k : UInt8} (hm : m &&& k = 0) (c : Bool) (x : UInt8) : orIf c x m &&& k = x &&& k := by
  cases c with
  | false => rfl
  | true => rw [orIf_true, or_and, hm, UInt8.or_zero]

theorem has_orIf (c : Bool) (x m k : UInt8) : has (orIf c x m) k = (has x k || (c && has m k)) := by
  cases c with
  | false => simp [orIf]
  | true => simp [orIf, has_or]

/-- A byte that is one or zero, as a condition is true or not. -/
noncomputable def bit (p : Prop) : UInt8 := open Classical in if p then 1 else 0

theorem bit_congr {p q : Prop} (h : p ↔ q) : bit p = bit q := by rw [propext h]

theorem bit_false {p : Prop} (h : ¬ p) : bit p = 0 := by simp [bit, h]

theorem bit_true {p : Prop} (h : p) : bit p = 1 := by simp [bit, h]

theorem bit_or (p q : Prop) : bit p ||| bit q = bit (p ∨ q) := by
  by_cases hp : p <;> by_cases hq : q <;> simp [bit, hp, hq]

theorem bit_and (p q : Prop) : bit p &&& bit q = bit (p ∧ q) := by
  by_cases hp : p <;> by_cases hq : q <;> simp [bit, hp, hq]

theorem has_bit (p : Prop) : has (bit p) 1 = true ↔ p := by
  by_cases hp : p <;> simp [bit, hp, has]

end Divas.Lib.Flags
