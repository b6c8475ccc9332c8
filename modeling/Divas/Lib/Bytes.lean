/-
  Divas.Lib.Bytes — byte memories and little-endian numbers.

  A memory is a total function from offsets to bytes; what lies outside an array is
  the memory around it. `store` writes a list of bytes from an offset on, `load` reads
  a number of bytes from an offset. `leBytes` and `leNat` are the little-endian coding
  of a number in a fixed number of bytes and its inverse.
-/

import Mathlib.Algebra.Ring.Nat
import Mathlib.Data.List.GetD
import Mathlib.Logic.Function.Basic

namespace Divas.Lib.Bytes

abbrev Mem := Nat → UInt8

def store (m : Mem) (k : Nat) (bs : List UInt8) : Mem :=
  fun i => if k ≤ i ∧ i < k + bs.length then bs.getD (i - k) 0 else m i

def load (m : Mem) (k n : Nat) : List UInt8 := (List.range n).map fun i => m (k + i)

/-- The memory seen from the pointer `k` on. -/
def from_ (m : Mem) (k : Nat) : Mem := fun i => m (k + i)

/-! ## Loads and stores -/

@[simp] theorem load_length (m : Mem) (k n : Nat) : (load m k n).length = n := by simp [load]

@[simp] theorem load_zero (m : Mem) (k : Nat) : load m k 0 = [] := rfl

theorem load_congr {m m' : Mem} {k k' n : Nat} (h : ∀ i, i < n → m (k + i) = m' (k' + i)) :
    load m k n = load m' k' n := by
  apply List.map_congr_left
  intro i hi
  exact h i (List.mem_range.mp hi)

theorem load_from (m : Mem) (k j n : Nat) : load (from_ m k) j n = load m (k + j) n :=
  load_congr fun i _ => by simp [from_, Nat.add_assoc]

theorem load_add (m : Mem) (k a b : Nat) : load m k (a + b) = load m k a ++ load m (k + a) b := by
  simp [load, List.range_add, Nat.add_assoc, Function.comp_def]

theorem load_one (m : Mem) (k : Nat) : load m k 1 = [m k] := by simp [load]

theorem load_succ (m : Mem) (k n : Nat) : load m k (n + 1) = m k :: load m (k + 1) n := by
  rw [Nat.add_comm n 1, load_add, load_one]; rfl

theorem store_outside (m : Mem) {k i : Nat} {bs : List UInt8} (h : i < k ∨ k + bs.length ≤ i) :
    store m k bs i = m i := by
  unfold store
  rw [if_neg (by omega)]

theorem store_inside (m : Mem) {k i : Nat} {bs : List UInt8} (h : i < bs.length) :
    store m k bs (k + i) = bs.getD i 0 := by
  unfold store
  rw [if_pos (by omega), Nat.add_sub_cancel_left]

theorem load_store_self (m : Mem) (k : Nat) (bs : List UInt8) : load (store m k bs) k bs.length = bs := by
  apply List.ext_getElem (by simp)
  intro i h1 h2
  have : store m k bs (k + i) = bs.getD i 0 := store_inside m h2
  simp [load, this, List.getD_eq_getElem?_getD, h2]

theorem load_store_disjoint (m : Mem) {j k n : Nat} {bs : List UInt8} (h : k + n ≤ j ∨ j + bs.length ≤ k) :
    load (store m j bs) k n = load m k n :=
  load_congr fun i hi => store_outside m (by omega)

theorem update_eq_store (m : Mem) (k : Nat) (b : UInt8) : Function.update m k b = store m k [b] := by
  funext i
  unfold store
  by_cases h : i = k
  · subst h
    simp
  · rw [Function.update_of_ne h, if_neg]
    simp only [List.length_singleton]
    omega

/-- A store that ends where the next one begins is one store of both. -/
theorem store_store (m : Mem) (k : Nat) (as bs : List UInt8) :
    store (store m k as) (k + as.length) bs = store m k (as ++ bs) := by
  funext i
  unfold store
  simp only [List.length_append]
  by_cases h1 : k + as.length ≤ i ∧ i < k + as.length + bs.length
  · rw [if_pos h1, if_pos (by omega), List.getD_append_right _ _ _ _ (by omega), Nat.sub_sub]
  · rw [if_neg h1]
    by_cases h2 : k ≤ i ∧ i < k + as.length
    · rw [if_pos h2, if_pos (by omega), List.getD_append _ _ _ _ (by omega)]
    · rw [if_neg h2, if_neg (by omega)]

@[simp] theorem store_nil (m : Mem) (k : Nat) : store m k [] = m := by
  funext i; exact store_outside m (by simp; omega)

/-- Storing what is there changes nothing. -/
theorem store_load (m : Mem) (k n : Nat) : store m k (load m k n) = m := by
  funext i
  by_cases h : k ≤ i ∧ i < k + n
  · obtain ⟨d, rfl⟩ := Nat.exists_eq_add_of_le h.1
    rw [store_inside m (by simp; omega)]
    have hd : d < n := by omega
    simp [load, List.getD_eq_getElem?_getD, hd]
  · exact store_outside m (by simp; omega)

/-! ## Little-endian numbers -/

def leBytes : Nat → Nat → List UInt8
  | 0, _ => []
  | n + 1, v => UInt8.ofNat (v % 256) :: leBytes n (v / 256)

def leNat : List UInt8 → Nat
  | [] => 0
  | b :: bs => b.toNat + 256 * leNat bs

@[simp] theorem leBytes_length (n v : Nat) : (leBytes n v).length = n := by
  induction n generalizing v with
  | zero => rfl
  | succ n ih => simp [leBytes, ih]

theorem leNat_leBytes {n v : Nat} (h : v < 256 ^ n) : leNat (leBytes n v) = v := by
  induction n generalizing v with
  | zero => simp at h; subst h; rfl
  | succ n ih =>
    have hd : v / 256 < 256 ^ n := by
      rw [Nat.pow_succ] at h
      exact Nat.div_lt_of_lt_mul (by omega)
    simp only [leBytes, leNat, ih hd, UInt8.toNat_ofNat']
    omega

theorem leNat_lt (bs : List UInt8) : leNat bs < 256 ^ bs.length := by
  induction bs with
  | nil => simp [leNat]
  | cons b bs ih =>
    have := b.toNat_lt
    simp only [leNat, List.length_cons, Nat.pow_succ]
    omega

theorem leBytes_leNat (bs : List UInt8) : leBytes bs.length (leNat bs) = bs := by
  induction bs with
  | nil => rfl
  | cons b bs ih =>
    have hb := b.toNat_lt
    have h1 : (b.toNat + 256 * leNat bs) % 256 = b.toNat := by omega
    have h2 : (b.toNat + 256 * leNat bs) / 256 = leNat bs := by omega
    simp only [List.length_cons, leBytes, leNat, h1, h2, ih, UInt8.ofNat_toNat]

/-- The bytes of a number whose low bytes are known. -/
theorem leBytes_append (bs : List UInt8) (k w : Nat) :
    leBytes (bs.length + k) (leNat bs + 256 ^ bs.length * w) = bs ++ leBytes k w := by
  induction bs with
  | nil => simp [leNat]
  | cons b bs ih =>
    have hb := b.toNat_lt
    have hsum : leNat (b :: bs) + 256 ^ (b :: bs).length * w = b.toNat + 256 * (leNat bs + 256 ^ bs.length * w) := by
      rw [leNat, List.length_cons, Nat.pow_succ, Nat.mul_add, ← Nat.mul_assoc 256, Nat.mul_comm 256 (256 ^ _), Nat.add_assoc]
    have hlow : (b.toNat + 256 * (leNat bs + 256 ^ bs.length * w)) % 256 = b.toNat := by omega
    have hhigh : (b.toNat + 256 * (leNat bs + 256 ^ bs.length * w)) / 256 = leNat bs + 256 ^ bs.length * w := by omega
    rw [hsum, List.length_cons, Nat.add_right_comm, leBytes, hlow, hhigh, ih, UInt8.ofNat_toNat, List.cons_append]

/-- The 16-bit number at offset `k`. -/
def word (m : Mem) (k : Nat) : Nat := leNat (load m k 2)

/-- The 32-bit number at offset `k`. -/
def dword (m : Mem) (k : Nat) : Nat := leNat (load m k 4)

theorem word_lt (m : Mem) (k : Nat) : word m k < 65536 := by
  have := leNat_lt (load m k 2)
  simpa [word] using this

theorem word_from (m : Mem) (k j : Nat) : word (from_ m k) j = word m (k + j) := by
  rw [word, load_from, word]

theorem dword_from (m : Mem) (k j : Nat) : dword (from_ m k) j = dword m (k + j) := by
  rw [dword, load_from, dword]

theorem word_store_disjoint (m : Mem) {j k : Nat} {bs : List UInt8} (h : k + 2 ≤ j ∨ j + bs.length ≤ k) :
    word (store m j bs) k = word m k := by
  rw [word, load_store_disjoint m h, word]

/-- A number read inside two equal loads is the same. -/
theorem word_of_load_eq {m m' : Mem} {k k' n j : Nat} (h : load m k n = load m' k' n) (hj : j + 2 ≤ n) :
    word m (k + j) = word m' (k' + j) := by
  have hn : n = j + (2 + (n - j - 2)) := by omega
  rw [hn, load_add, load_add, load_add, load_add] at h
  have h' := List.append_inj_right h (by simp)
  have h'' := List.append_inj_left h' (by simp)
  rw [word, h'', word]

theorem dword_of_load_eq {m m' : Mem} {k k' n j : Nat} (h : load m k n = load m' k' n) (hj : j + 4 ≤ n) :
    dword m (k + j) = dword m' (k' + j) := by
  have hn : n = j + (4 + (n - j - 4)) := by omega
  rw [hn, load_add, load_add, load_add, load_add] at h
  have h' := List.append_inj_right h (by simp)
  have h'' := List.append_inj_left h' (by simp)
  rw [dword, h'', dword]

end Divas.Lib.Bytes
