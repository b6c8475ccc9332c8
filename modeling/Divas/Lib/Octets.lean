/-
  Divas.Lib.Octets — arrays that start with their length, and the octets put into them.

  A `Source` is what a pointer points to: the memory from it on, and the number of octets
  that are there to be read. What is fetched from it comes with its accesses, each one with
  the size of its source, so that the bounds can be asked for later.

  A `Counted` array keeps the offsets that were written beside its bytes. Octets are copied
  to an offset, behind the ones that the length counts (`append`), or behind a counter of
  one byte (`fill`). `Counts` says that the length counts the octets that were written.

  A `Param` is such an array with the accesses of what was put into it. It is `Sound` for a
  size of the array if nothing was written or read outside; each operation has a lemma that
  says what it adds to that.
-/

import Divas.Lib.Bytes
import Mathlib.Logic.Function.Basic

namespace Divas.Lib.Octets

open Divas.Lib.Bytes

/-! ## Sources -/

structure Source where
  mem : Mem
  size : Nat

/-- An access at an offset of a source of that size. -/
structure Access where
  size : Nat
  offset : Nat
  deriving DecidableEq

def Access.Inside (a : Access) : Prop := a.offset < a.size

instance (a : Access) : Decidable a.Inside := inferInstanceAs (Decidable (a.offset < a.size))

/-- Octets, and the accesses that they come from. -/
structure Fetched where
  octets : List UInt8
  accesses : List Access

namespace Fetched

/-- Octets that are no parameter. -/
def literal (vs : List UInt8) : Fetched := ⟨vs, []⟩

instance : Append Fetched := ⟨fun v w => ⟨v.octets ++ w.octets, v.accesses ++ w.accesses⟩⟩

@[simp] theorem octets_literal (vs : List UInt8) : (literal vs).octets = vs := rfl

@[simp] theorem accesses_literal (vs : List UInt8) : (literal vs).accesses = [] := rfl

@[simp] theorem octets_append (v w : Fetched) : (v ++ w).octets = v.octets ++ w.octets := rfl

@[simp] theorem accesses_append (v w : Fetched) : (v ++ w).accesses = v.accesses ++ w.accesses := rfl

end Fetched

/-- `n` octets from the offset `k` on. -/
def Source.fetch (s : Source) (k n : Nat) : Fetched := ⟨load s.mem k n, (List.range n).map fun i => ⟨s.size, k + i⟩⟩

@[simp] theorem Source.octets_fetch_length (s : Source) (k n : Nat) : (s.fetch k n).octets.length = n := load_length _ _ _

@[simp] theorem Source.octets_fetch_eq_nil (s : Source) (k n : Nat) : (s.fetch k n).octets = [] ↔ n = 0 := by
  rw [← List.length_eq_zero_iff, Source.octets_fetch_length]

/-- All accesses are inside. -/
def AllInside (as : List Access) : Prop := ∀ a ∈ as, a.Inside

@[simp] theorem allInside_nil : AllInside [] := by simp [AllInside]

@[simp] theorem allInside_append (as bs : List Access) : AllInside (as ++ bs) ↔ AllInside as ∧ AllInside bs := by
  simp only [AllInside, List.mem_append]
  constructor
  · intro h
    exact ⟨fun a ha => h a (.inl ha), fun a ha => h a (.inr ha)⟩
  · rintro ⟨ha, hb⟩ a (h | h)
    · exact ha a h
    · exact hb a h

@[simp] theorem Source.allInside_fetch (s : Source) (k n : Nat) : AllInside (s.fetch k n).accesses ↔ n = 0 ∨ k + n ≤ s.size := by
  simp only [AllInside, Source.fetch, List.forall_mem_map, List.mem_range, Access.Inside]
  constructor
  · intro h
    cases n with
    | zero => exact .inl rfl
    | succ n =>
      have := h n (Nat.lt_succ_self n)
      exact .inr (by omega)
  · intro h i hi
    omega

/-! ## Counted arrays -/

structure Counted where
  mem : Mem
  written : List Nat

namespace Counted

/-- `b[0]`. -/
def length (b : Counted) : Nat := (b.mem 0).toNat

def set (b : Counted) (i : Nat) (v : UInt8) : Counted := ⟨Function.update b.mem i v, i :: b.written⟩

def copy (b : Counted) : Nat → List UInt8 → Counted
  | _, [] => b
  | i, v :: vs => (b.set i v).copy (i + 1) vs

/-- `b[0] = n`. -/
def setLength (b : Counted) (n : Nat) : Counted := b.set 0 (UInt8.ofNat n)

/-- `b[++b[0]] = v`. -/
def append (b : Counted) (v : UInt8) : Counted :=
  let n := (b.length + 1) % 256
  (b.setLength n).set n v

def appendAll (b : Counted) (vs : List UInt8) : Counted := vs.foldl append b

/-- `b[++len] = v` for each octet, with `len` a byte. -/
def fill : Counted → Nat → List UInt8 → Counted × Nat
  | b, len, [] => (b, len)
  | b, len, v :: vs => (b.set ((len + 1) % 256) v).fill ((len + 1) % 256) vs

/-- The length counts the octets that were written. -/
def Counts (b : Counted) : Prop := ∀ k, 0 < k → (k ∈ b.written ↔ k ≤ b.length)

/-- Only offsets of an array of that size were written. -/
def Within (b : Counted) (size : Nat) : Prop := ∀ k ∈ b.written, k < size

/-! ### What is written -/

section Written

variable (b : Counted) (i n : Nat) (v : UInt8) (vs : List UInt8)

@[simp] theorem written_set : (b.set i v).written = i :: b.written := rfl

@[simp] theorem written_setLength : (b.setLength n).written = 0 :: b.written := rfl

@[simp] theorem mem_copy (k : Nat) : k ∈ (b.copy i vs).written ↔ (i ≤ k ∧ k < i + vs.length) ∨ k ∈ b.written := by
  induction vs generalizing b i with
  | nil =>
    simp only [copy, List.length_nil]
    constructor
    · exact .inr
    · rintro (h | h)
      · omega
      · exact h
  | cons v vs ih =>
    simp only [copy, ih, written_set, List.mem_cons, List.length_cons]
    constructor
    · rintro (h | rfl | h)
      · exact .inl (by omega)
      · exact .inl (by omega)
      · exact .inr h
    · rintro (h | h)
      · by_cases hk : k = i
        · exact .inr (.inl hk)
        · exact .inl (by omega)
      · exact .inr (.inr h)

@[simp] theorem length_setLength : (b.setLength n).length = n % 256 := by simp [length, setLength, set]

theorem length_set (h : i ≠ 0) : (b.set i v).length = b.length := by simp [length, set, Ne.symm h]

theorem length_copy (h : i ≠ 0) : (b.copy i vs).length = b.length := by
  induction vs generalizing b i with
  | nil => rfl
  | cons v vs ih => rw [copy, ih _ _ (by omega), length_set _ _ _ h]

theorem length_lt : b.length < 256 := (b.mem 0).toNat_lt

/-- An octet that was written already may be written again. -/
theorem counts_copy (h0 : i ≠ 0) (h : ∀ k, i ≤ k → k < i + vs.length → k ∈ b.written) :
    (b.copy i vs).Counts ↔ b.Counts := by
  have hmem : ∀ k, k ∈ (b.copy i vs).written ↔ k ∈ b.written := by
    intro k
    rw [mem_copy]
    constructor
    · rintro (hk | hk)
      · exact h k hk.1 hk.2
      · exact hk
    · exact .inr
  simp only [Counts, hmem, length_copy _ _ _ h0]

end Written

/-! ### Appending -/

section Append

variable {b : Counted}

theorem length_append (h : b.length < 255) (v : UInt8) : (b.append v).length = b.length + 1 := by
  unfold append
  rw [length_set _ _ _ (by omega), length_setLength]
  omega

theorem mem_append (h : b.length < 255) (v : UInt8) (k : Nat) :
    k ∈ (b.append v).written ↔ k = 0 ∨ k = b.length + 1 ∨ k ∈ b.written := by
  unfold append
  rw [Nat.mod_eq_of_lt (by omega)]
  simp only [written_set, written_setLength, List.mem_cons]
  exact or_left_comm

theorem length_appendAll {vs : List UInt8} (h : b.length + vs.length ≤ 255) : (b.appendAll vs).length = b.length + vs.length := by
  induction vs generalizing b with
  | nil => rfl
  | cons v vs ih =>
    rw [List.length_cons] at h ⊢
    have hlen := length_append (b := b) (by omega) v
    have := ih (b := b.append v) (by omega)
    rw [hlen, Nat.add_assoc, Nat.add_comm 1] at this
    exact this

theorem mem_appendAll {vs : List UInt8} (h : b.length + vs.length ≤ 255) (h0 : 0 ∈ b.written) (k : Nat) :
    k ∈ (b.appendAll vs).written ↔ (b.length < k ∧ k ≤ b.length + vs.length) ∨ k ∈ b.written := by
  induction vs generalizing b with
  | nil =>
    simp only [appendAll, List.foldl_nil, List.length_nil]
    constructor
    · exact .inr
    · rintro (hk | hk)
      · omega
      · exact hk
  | cons v vs ih =>
    rw [List.length_cons] at h ⊢
    have hlen := length_append (b := b) (by omega) v
    have hmem := mem_append (b := b) (by omega) v
    have := ih (b := b.append v) (by omega) ((hmem 0).2 (.inl rfl))
    change k ∈ ((b.append v).appendAll vs).written ↔ _
    rw [this, hlen, hmem k]
    constructor
    · rintro (hk | rfl | rfl | hk)
      · exact .inl (by omega)
      · exact .inr h0
      · exact .inl (by omega)
      · exact .inr hk
    · rintro (hk | hk)
      · by_cases he : k = b.length + 1
        · exact .inr (.inr (.inl he))
        · exact .inl (by omega)
      · exact .inr (.inr (.inr hk))

theorem written_appendAll {k : Nat} (vs : List UInt8) (h : k ∈ b.written) : k ∈ (b.appendAll vs).written := by
  induction vs generalizing b with
  | nil => exact h
  | cons v vs ih =>
    apply ih
    unfold append
    simp [h]

/-- Octets that are too many for an array of `size` are written nevertheless. -/
theorem appendAll_beyond {vs : List UInt8} {size : Nat} (h0 : 0 ∈ b.written) (hn : b.length < size) (hsize : size ≤ 255)
    (hlong : size ≤ b.length + vs.length) : size ∈ (b.appendAll vs).written := by
  have hsplit : b.appendAll vs = (b.appendAll (vs.take (size - b.length))).appendAll (vs.drop (size - b.length)) := by
    unfold appendAll
    rw [← List.foldl_append, List.take_append_drop]
  have htake : (vs.take (size - b.length)).length = size - b.length := by
    rw [List.length_take]
    omega
  rw [hsplit]
  apply written_appendAll
  rw [mem_appendAll (by omega) h0]
  exact .inl (by omega)

end Append

/-! ### Filling -/

section Fill

variable {b : Counted} {n : Nat}

theorem fill_length (b : Counted) (len : Nat) (vs : List UInt8) (h : len < 256) :
    (b.fill len vs).2 = (len + vs.length) % 256 := by
  induction vs generalizing b len with
  | nil => exact (Nat.mod_eq_of_lt h).symm
  | cons v vs ih =>
    rw [fill, ih _ _ (Nat.mod_lt _ (by decide)), List.length_cons]
    omega

theorem mem_fill (b : Counted) (len : Nat) (vs : List UInt8) (k : Nat) :
    k ∈ (b.fill len vs).1.written ↔ (∃ j < vs.length, k = (len + 1 + j) % 256) ∨ k ∈ b.written := by
  induction vs generalizing b len with
  | nil => simp [fill]
  | cons v vs ih =>
    rw [fill, ih, written_set, List.mem_cons, List.length_cons]
    constructor
    · rintro (⟨j, hj, rfl⟩ | rfl | h)
      · exact .inl ⟨j + 1, by omega, by omega⟩
      · exact .inl ⟨0, by omega, by omega⟩
      · exact .inr h
    · rintro (⟨j, hj, rfl⟩ | h)
      · cases j with
        | zero => exact .inr (.inl (by omega))
        | succ j => exact .inl ⟨j, by omega, by omega⟩
      · exact .inr (.inr h)

/-- The octets behind the first `n` ones: the length that is stored counts them unless the
    counter wraps, to another value than 255. -/
theorem fill_counts {vs : List UInt8} (h : ∀ k, k ∈ b.written ↔ k ≤ n) (hn : n < 256) :
    ((b.fill n vs).1.setLength (b.fill n vs).2).Counts ↔ (n + vs.length) % 256 = min (n + vs.length) 255 := by
  have hlen : ((b.fill n vs).1.setLength (b.fill n vs).2).length = (n + vs.length) % 256 := by
    rw [length_setLength, fill_length _ _ _ hn, Nat.mod_mod]
  have hmem : ∀ k, 0 < k → (k ∈ ((b.fill n vs).1.setLength (b.fill n vs).2).written ↔ k ≤ min (n + vs.length) 255) := by
    intro k hk
    rw [written_setLength, List.mem_cons, mem_fill, h]
    constructor
    · rintro (h0 | ⟨j, hj, rfl⟩ | hle)
      · omega
      · have := Nat.mod_lt (n + 1 + j) (show 0 < 256 by decide)
        have := Nat.mod_le (n + 1 + j) 256
        omega
      · omega
    · intro hle
      by_cases hkn : k ≤ n
      · exact .inr (.inr hkn)
      · exact .inr (.inl ⟨k - n - 1, by omega, by rw [Nat.mod_eq_of_lt] <;> omega⟩)
  unfold Counts
  rw [hlen]
  constructor
  · intro hcounts
    have hlt := Nat.mod_lt (n + vs.length) (show 0 < 256 by decide)
    rcases Nat.lt_trichotomy ((n + vs.length) % 256) (min (n + vs.length) 255) with hless | heq | hmore
    · have := (hcounts _ (by omega)).1 ((hmem (min (n + vs.length) 255) (by omega)).2 (Nat.le_refl _))
      omega
    · exact heq
    · have := Nat.mod_le (n + vs.length) 256
      omega
  · intro heq k hk
    rw [hmem k hk, heq]

end Fill

end Counted

/-! ## Parameters -/

/-- A parameter that is put together: its array, and what was read for it. -/
structure Param where
  array : Counted
  reads : List Access

namespace Param

def length (b : Param) : Nat := b.array.length

def look (b : Param) (v : Fetched) : Param := ⟨b.array, v.accesses ++ b.reads⟩

def put (b : Param) (i : Nat) (v : Fetched) : Param := ⟨b.array.copy i v.octets, v.accesses ++ b.reads⟩

def setLength (b : Param) (n : Nat) : Param := ⟨b.array.setLength n, b.reads⟩

def append (b : Param) (v : Fetched) : Param := ⟨b.array.appendAll v.octets, v.accesses ++ b.reads⟩

/-- `b[++len] = v` for each octet, and `b[0] = len`. -/
def fill (b : Param) (v : Fetched) : Param :=
  let (array, len) := b.array.fill b.length v.octets
  ⟨array.setLength len, v.accesses ++ b.reads⟩

/-- Nothing is written outside of an array of that size, or read outside of a source. -/
def Sound (b : Param) (size : Nat) : Prop := AllInside b.reads ∧ b.array.Within size

section Operations

variable (b : Param) (v : Fetched) (i n : Nat) {size : Nat}

@[simp] theorem array_look : (b.look v).array = b.array := rfl

@[simp] theorem length_look : (b.look v).length = b.length := rfl

@[simp] theorem length_setLength : (b.setLength n).length = n % 256 := Counted.length_setLength _ _

@[simp] theorem length_put (h : i ≠ 0) : (b.put i v).length = b.length := Counted.length_copy _ _ _ h

@[simp] theorem mem_put (k : Nat) :
    k ∈ (b.put i v).array.written ↔ (i ≤ k ∧ k < i + v.octets.length) ∨ k ∈ b.array.written := Counted.mem_copy _ _ _ _

@[simp] theorem mem_setLength (k : Nat) : k ∈ (b.setLength n).array.written ↔ k = 0 ∨ k ∈ b.array.written := List.mem_cons

theorem sound_look : (b.look v).Sound size ↔ AllInside v.accesses ∧ b.Sound size := by
  simp [Sound, look, and_assoc]

theorem sound_put : (b.put i v).Sound size ↔
    AllInside v.accesses ∧ (v.octets = [] ∨ i + v.octets.length ≤ size) ∧ b.Sound size := by
  have hwithin : (b.array.copy i v.octets).Within size ↔
      (v.octets = [] ∨ i + v.octets.length ≤ size) ∧ b.array.Within size := by
    simp only [Counted.Within, Counted.mem_copy]
    constructor
    · intro h
      refine ⟨?_, fun k hk => h k (.inr hk)⟩
      cases hv : v.octets with
      | nil => exact .inl rfl
      | cons o os =>
        rw [hv, List.length_cons] at h
        have := h (i + os.length) (.inl (by omega))
        exact .inr (by rw [List.length_cons]; omega)
    · rintro ⟨hv, hb⟩ k (hk | hk)
      · rcases hv with hv | hv
        · rw [hv, List.length_nil] at hk
          omega
        · omega
      · exact hb k hk
  simp only [Sound, put, allInside_append, hwithin]
  constructor
  · rintro ⟨⟨hr, hb⟩, hv, hw⟩
    exact ⟨hr, hv, hb, hw⟩
  · rintro ⟨hr, hv, hb, hw⟩
    exact ⟨⟨hr, hb⟩, hv, hw⟩

theorem sound_setLength (h : 0 < size) : (b.setLength n).Sound size ↔ b.Sound size := by
  have hwithin : (b.array.setLength n).Within size ↔ b.array.Within size := by
    simp only [Counted.Within, Counted.written_setLength, List.mem_cons]
    constructor
    · intro hs k hk
      exact hs k (.inr hk)
    · rintro hs k (rfl | hk)
      · exact h
      · exact hs k hk
  simp only [Sound, setLength, hwithin]

end Operations

section Append

variable {b : Param} {v : Fetched} {size : Nat}

theorem length_append (h : b.length + v.octets.length ≤ 255) : (b.append v).length = b.length + v.octets.length :=
  Counted.length_appendAll h

theorem mem_append (h : b.length + v.octets.length ≤ 255) (h0 : 0 ∈ b.array.written) (k : Nat) :
    k ∈ (b.append v).array.written ↔ (b.length < k ∧ k ≤ b.length + v.octets.length) ∨ k ∈ b.array.written :=
  Counted.mem_appendAll h h0 k

/-- What is appended behind a length in the array stays in it unless it is too much. -/
theorem sound_append (h0 : 0 ∈ b.array.written) (hn : b.length < size) (hsize : size ≤ 255) :
    (b.append v).Sound size ↔ AllInside v.accesses ∧ b.length + v.octets.length < size ∧ b.Sound size := by
  have hwithin : (b.array.appendAll v.octets).Within size ↔ b.length + v.octets.length < size ∧ b.array.Within size := by
    constructor
    · intro h
      have hlt : b.length + v.octets.length < size := by
        by_contra hlong
        have := h size (Counted.appendAll_beyond h0 hn hsize (Nat.le_of_not_lt hlong))
        exact Nat.lt_irrefl size this
      exact ⟨hlt, fun k hk => h k (Counted.written_appendAll v.octets hk)⟩
    · rintro ⟨hlt, hb⟩ k hk
      rcases (Counted.mem_appendAll (show b.array.length + _ ≤ 255 from by unfold length at hlt; omega) h0 k).1 hk with hk | hk
      · unfold length at hlt
        omega
      · exact hb k hk
  simp only [Sound, append, allInside_append, hwithin]
  constructor
  · rintro ⟨⟨hr, hb⟩, hv, hw⟩
    exact ⟨hr, hv, hb, hw⟩
  · rintro ⟨hr, hv, hb, hw⟩
    exact ⟨⟨hr, hb⟩, hv, hw⟩

/-- A counter of one byte stays in an array of 256 octets. -/
theorem sound_fill : (b.fill v).Sound 256 ↔ AllInside v.accesses ∧ b.Sound 256 := by
  have hwithin : (b.fill v).array.Within 256 ↔ b.array.Within 256 := by
    simp only [Counted.Within, fill, Counted.written_setLength, List.mem_cons, Counted.mem_fill]
    constructor
    · intro h k hk
      exact h k (.inr (.inr hk))
    · rintro h k (rfl | ⟨j, -, rfl⟩ | hk)
      · decide
      · exact Nat.mod_lt _ (by decide)
      · exact h k hk
  have hreads : (b.fill v).reads = v.accesses ++ b.reads := rfl
  simp only [Sound, hwithin, hreads, allInside_append, and_assoc]

theorem fill_counts (h : ∀ k, k ∈ b.array.written ↔ k ≤ b.length) :
    (b.fill v).array.Counts ↔ (b.length + v.octets.length) % 256 = min (b.length + v.octets.length) 255 :=
  Counted.fill_counts h (Counted.length_lt _)

/-- What is written or read outside stays so, whatever is appended. -/
theorem Sound.of_append (h : (b.append v).Sound size) : b.Sound size := by
  refine ⟨fun a ha => h.1 a ?_, fun k hk => h.2 k (Counted.written_appendAll v.octets hk)⟩
  exact List.mem_append_right _ ha

end Append

/-- In an array of that size, the octets up to `n` are written, and the length is `len`. -/
structure Covers (b : Param) (size len n : Nat) : Prop where
  sound : b.Sound size
  length : b.length = len
  written : ∀ k, k ∈ b.array.written ↔ k ≤ n

namespace Covers

variable {b : Param} {v : Fetched} {size len n i : Nat}

theorem counts (h : b.Covers size n n) : b.array.Counts := by
  intro k _
  rw [h.written, ← h.length]
  rfl

theorem look (h : b.Covers size len n) (hv : AllInside v.accesses) : (b.look v).Covers size len n :=
  ⟨(sound_look b v).2 ⟨hv, h.sound⟩, h.length, h.written⟩

theorem setLength {m : Nat} (h : b.Covers size len n) (hsize : 0 < size) (hm : m < 256) : (b.setLength m).Covers size m n := by
  refine ⟨(sound_setLength b m hsize).2 h.sound, ?_, ?_⟩
  · rw [length_setLength, Nat.mod_eq_of_lt hm]
  · intro k
    rw [mem_setLength, h.written]
    omega

/-- Octets over or right behind the ones that are there. -/
theorem put {m : Nat} (h : b.Covers size len n) (hv : AllInside v.accesses) (hi : i ≠ 0) (hnext : i ≤ n + 1)
    (hm : max (n + 1) (i + v.octets.length) = m + 1) (hsize : m < size) : (b.put i v).Covers size len m := by
  refine ⟨(sound_put b v i).2 ⟨hv, .inr (by omega), h.sound⟩, ?_, ?_⟩
  · rw [length_put b v i hi, h.length]
  · intro k
    rw [mem_put, h.written]
    omega

theorem append {m : Nat} (h : b.Covers size n n) (hv : AllInside v.accesses) (hm : n + v.octets.length = m) (hlt : m < size)
    (hsize : size ≤ 255) : (b.append v).Covers size m m := by
  have h0 : 0 ∈ b.array.written := (h.written 0).2 (Nat.zero_le n)
  have hlen := h.length
  refine ⟨(sound_append h0 (by omega) hsize).2 ⟨hv, by omega, h.sound⟩, ?_, ?_⟩
  · rw [length_append (by omega), h.length, hm]
  · intro k
    rw [mem_append (by omega) h0, h.written]
    omega

end Covers

end Param

end Divas.Lib.Octets
