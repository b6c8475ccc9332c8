/-
  Divas.Capi.AddInfo — the additional info of an indication (`AddInfo`, message.c).

  The facility elements of an indication go to the application in one array: a byte with the
  length of the rest, and for each element 0x1c, its length and its contents. The position in
  the array, the position in the element and the length of the array are bytes.

  Proved: `AddInfo` ends with the array of the elements if and only if they make at most 255
  bytes (`add_info_builds`). A longer array begins with a wrong length and overwrites itself,
  and an element of 255 bytes is copied without end (`add_info_wraps`).
-/

import Divas.Lib.Bytes
import Mathlib.Logic.Function.Basic

namespace Divas.Capi

open Divas.Lib.Bytes

def maxMultiIe : Nat := 6

/-! ## The copy -/

/-- `for (k = 0; k <= flen; k++, j++) facility[j] = fty_i[i][k]` from `k` on, in at most `turns`
    turns. -/
def copyElement (element : Mem) (flen : UInt8) : Nat → UInt8 → UInt8 → Mem → Option (UInt8 × Mem)
  | 0, _, _, _ => none
  | turns + 1, k, j, facility =>
    if k ≤ flen then copyElement element flen turns (k + 1) (j + 1) (Function.update facility j.toNat (element k.toNat))
    else some (j, facility)

/-- The loop over the elements from `i` on, with `n` entries left. -/
def copyFacilities (ftyI : Nat → Mem) (turns : Nat) : Nat → Nat → UInt8 → UInt8 → Mem → Option (UInt8 × Mem)
  | 0, _, _, len, facility => some (len, facility)
  | n + 1, i, j, len, facility =>
    if ftyI i 0 = 0 then some (len, facility)
    else
      (copyElement (ftyI i) (ftyI i 0) turns 0 (j + 1) (Function.update facility j.toNat 0x1c)).bind
        fun (j, facility) => copyFacilities ftyI turns n (i + 1) j (len + ftyI i 0 + 2) facility

/-- Neither a B channel nor the D channel. -/
def noChannel : Mem := fun i => [2, 2, 0].getD i 0

/-- `add_i[0]`: the last byte of the channel identification tells whether there is a channel. -/
def bChannelInfo (escChi : Mem) : Mem :=
  if escChi 0 ≠ 0 ∧ escChi (escChi 0).toNat &&& 0x7f = 0 then noChannel else fun _ => 0

/-- `add_i[3]` and `facility`. -/
def facilityArray (turns : Nat) (ftyI : Nat → Mem) (facility : Mem) : Option (Mem × Mem) :=
  if ftyI 0 0 = 0 then some (fun _ => 0, facility)
  else
    (copyFacilities ftyI turns maxMultiIe 0 1 0 facility).map
      fun (len, facility) => (Function.update facility 0 len, Function.update facility 0 len)

/-- `AddInfo`: the length of all, `add_i` and `facility`. -/
def addInfo (turns : Nat) (addI ftyI : Nat → Mem) (escChi facility : Mem) : Option (UInt8 × (Nat → Mem) × Mem) :=
  (facilityArray turns ftyI facility).map fun (array, facility) =>
    let addI : Nat → Mem := Function.update (Function.update addI 0 (bChannelInfo escChi)) 3 array
    (addI 0 0 + addI 1 0 + addI 2 0 + addI 3 0 + 4, addI, facility)

/-! ## The array -/

/-- An element in the array. -/
def facilityBytes (element : Mem) : List UInt8 := 0x1c :: load element 0 ((element 0).toNat + 1)

/-- The elements from `i` on, up to the first empty one of `n`. -/
def facilitiesFrom (ftyI : Nat → Mem) : Nat → Nat → List UInt8
  | 0, _ => []
  | n + 1, i => if ftyI i 0 = 0 then [] else facilityBytes (ftyI i) ++ facilitiesFrom ftyI n (i + 1)

def facilities (ftyI : Nat → Mem) : List UInt8 := facilitiesFrom ftyI maxMultiIe 0

/-- `AddInfo` ends, writes into the array of 256 bytes only, and makes it of the elements. -/
def Builds (addI ftyI : Nat → Mem) (escChi facility : Mem) : Prop :=
  ∃ turns len addI' facility', addInfo turns addI ftyI escChi facility = some (len, addI', facility') ∧
    (∀ p, 256 ≤ p → facility' p = facility p) ∧
    (ftyI 0 0 ≠ 0 →
      addI' 3 = facility' ∧ (facility' 0).toNat = (facilities ftyI).length ∧
        load facility' 1 (facilities ftyI).length = facilities ftyI)

section Copy

variable {ftyI : Nat → Mem} {element facility : Mem} {flen j k len : UInt8} {turns : Nat}

theorem toNat_succ {j : UInt8} (h : j.toNat + 1 < 256) : (j + 1).toNat = j.toNat + 1 := by
  rw [UInt8.toNat_add]
  exact Nat.mod_eq_of_lt h

theorem toNat_advance {j : UInt8} {n : Nat} (h : j.toNat + n < 256) : (j + UInt8.ofNat n).toNat = j.toNat + n := by
  rw [UInt8.toNat_add, UInt8.toNat_ofNat', Nat.mod_eq_of_lt (by omega : n < 2 ^ 8)]
  exact Nat.mod_eq_of_lt h

/-- Behind what fills the array nothing is left to store. -/
theorem store_behind {m : Mem} {as bs : List UInt8} (h : j.toNat + as.length + bs.length ≤ 256) :
    store (store m j.toNat as) (j + UInt8.ofNat as.length).toNat bs = store m j.toNat (as ++ bs) := by
  cases bs with
  | nil => rw [store_nil, List.append_nil]
  | cons b bs =>
    rw [List.length_cons] at h
    rw [toNat_advance (by omega)]
    exact store_store m j.toNat as (b :: bs)

theorem store_cons {m : Mem} {b : UInt8} {bs : List UInt8} (h : j.toNat + 1 + bs.length ≤ 256) :
    store (store m j.toNat [b]) (j + 1).toNat bs = store m j.toNat (b :: bs) := by
  apply store_behind
  exact h

/-- The rest of an element, with `n` bytes left, goes to the array. -/
theorem copyElement_eq {n : Nat} (hflen : flen.toNat < 255) (hk : k.toNat + n = flen.toNat + 1)
    (hj : j.toNat + n ≤ 256) (ht : n < turns) :
    copyElement element flen turns k j facility =
      some (j + UInt8.ofNat n, store facility j.toNat (load element k.toNat n)) := by
  induction n generalizing turns k j facility with
  | zero =>
    obtain ⟨turns, rfl⟩ := Nat.exists_eq_add_of_lt ht
    rw [Nat.zero_add, copyElement, if_neg]
    · simp
    · intro h
      have := UInt8.le_iff_toNat_le.mp h
      omega
  | succ n ih =>
    obtain ⟨turns, rfl⟩ : ∃ t, turns = t + 1 := ⟨turns - 1, by omega⟩
    have hle : k ≤ flen := UInt8.le_iff_toNat_le.mpr (by omega)
    have hk' : (k + 1).toNat = k.toNat + 1 := toNat_succ (by omega)
    have hj' : (j + 1).toNat + n ≤ 256 := by
      rw [UInt8.toNat_add]
      have : (1 : UInt8).toNat = 1 := rfl
      omega
    rw [copyElement, if_pos hle, ih (by omega) hj' (by omega), update_eq_store, hk', load_succ]
    rw [store_cons (by simp; omega)]
    rw [UInt8.ofNat_add, UInt8.add_assoc, UInt8.add_comm 1]
    rfl

/-- One element with its 0x1c. -/
theorem copyElement_facility (hflen : (element 0).toNat < 255) (hj : j.toNat + (facilityBytes element).length ≤ 256)
    (ht : 255 < turns) :
    copyElement element (element 0) turns 0 (j + 1) (Function.update facility j.toNat 0x1c) =
      some (j + UInt8.ofNat (facilityBytes element).length, store facility j.toNat (facilityBytes element)) := by
  have hlen : (facilityBytes element).length = (element 0).toNat + 2 := by simp [facilityBytes]
  rw [hlen] at hj
  have hj1 : (j + 1).toNat = j.toNat + 1 := toNat_succ (by omega)
  have h0 : (0 : UInt8).toNat = 0 := rfl
  rw [copyElement_eq (n := (element 0).toNat + 1) hflen (by omega) (by omega) (by omega), update_eq_store, hlen]
  rw [store_cons (by simp; omega), h0]
  rw [UInt8.add_assoc, UInt8.ofNat_add, UInt8.ofNat_add, UInt8.add_comm 1, UInt8.add_assoc]
  rfl

/-- The elements that are left go to the array behind those before. -/
theorem copyFacilities_eq {n i : Nat} (hj : j.toNat + (facilitiesFrom ftyI n i).length ≤ 256) (ht : 255 < turns) :
    copyFacilities ftyI turns n i j len facility =
      some (len + UInt8.ofNat (facilitiesFrom ftyI n i).length, store facility j.toNat (facilitiesFrom ftyI n i)) := by
  induction n generalizing i j len facility with
  | zero => simp [copyFacilities, facilitiesFrom]
  | succ n ih =>
    unfold copyFacilities facilitiesFrom
    by_cases h0 : ftyI i 0 = 0
    · rw [if_pos h0, if_pos h0]
      simp
    · rw [if_neg h0, if_neg h0]
      have hb := (ftyI i 0).toNat_lt
      have hlen : (facilityBytes (ftyI i)).length = (ftyI i 0).toNat + 2 := by simp [facilityBytes]
      unfold facilitiesFrom at hj
      rw [if_neg h0, List.length_append] at hj
      rw [copyElement_facility (by omega) (by omega) ht]
      have hj' : (j + UInt8.ofNat (facilityBytes (ftyI i)).length).toNat + (facilitiesFrom ftyI n (i + 1)).length ≤ 256 := by
        rw [UInt8.toNat_add, UInt8.toNat_ofNat']
        omega
      simp only [Option.bind_some]
      rw [ih hj', store_behind (by omega), List.length_append, UInt8.ofNat_add, UInt8.add_assoc, UInt8.add_assoc,
        hlen, UInt8.ofNat_add, UInt8.ofNat_toNat, UInt8.add_assoc]
      rfl

/-- Elements that make at most 255 bytes. -/
theorem facilityArray_eq (facility : Mem) (h : ftyI 0 0 ≠ 0) (hle : (facilities ftyI).length ≤ 255) :
    facilityArray 256 ftyI facility =
      let array := Function.update (store facility 1 (facilities ftyI)) 0 (UInt8.ofNat (facilities ftyI).length)
      some (array, array) := by
  have h1 : (1 : UInt8).toNat = 1 := rfl
  have hj : (1 : UInt8).toNat + (facilitiesFrom ftyI maxMultiIe 0).length ≤ 256 := by
    unfold facilities at hle
    omega
  unfold facilityArray
  rw [if_neg h, copyFacilities_eq hj (by omega), UInt8.zero_add]
  rfl

theorem facilities_empty (h : ftyI 0 0 = 0) : facilities ftyI = [] := by
  unfold facilities maxMultiIe facilitiesFrom
  rw [if_pos h]

theorem addInfo_eq (addI : Nat → Mem) (escChi : Mem) {array facility' : Mem}
    (h : facilityArray turns ftyI facility = some (array, facility')) :
    ∃ len addI', addInfo turns addI ftyI escChi facility = some (len, addI', facility') ∧ addI' 3 = array := by
  unfold addInfo
  rw [h]
  refine ⟨_, _, rfl, ?_⟩
  simp

/-- The length of the array is a byte. -/
theorem Builds.length_le {addI : Nat → Mem} {escChi : Mem} (h : Builds addI ftyI escChi facility) :
    (facilities ftyI).length ≤ 255 := by
  obtain ⟨turns, len, addI', facility', -, -, hbuilt⟩ := h
  by_cases h0 : ftyI 0 0 = 0
  · rw [facilities_empty h0]
    simp
  · obtain ⟨-, hlen, -⟩ := hbuilt h0
    have := (facility' 0).toNat_lt
    omega

/-- An element of 255 bytes is copied without end. -/
theorem copyElement_endless : copyElement element 255 turns k j facility = none := by
  induction turns generalizing k j facility with
  | zero => rfl
  | succ turns ih =>
    have hk : k ≤ 255 := UInt8.le_iff_toNat_le.mpr (Nat.le_of_lt_succ k.toNat_lt)
    rw [copyElement, if_pos hk, ih]

end Copy

/-- `AddInfo` builds the array if and only if the elements make at most 255 bytes. -/
theorem add_info_builds (addI ftyI : Nat → Mem) (escChi facility : Mem) :
    Builds addI ftyI escChi facility ↔ (facilities ftyI).length ≤ 255 := by
  constructor
  · exact Builds.length_le
  · intro hle
    by_cases h0 : ftyI 0 0 = 0
    · have harray : facilityArray 256 ftyI facility = some (fun _ => 0, facility) := if_pos h0
      obtain ⟨len, addI', h, -⟩ := addInfo_eq addI escChi harray
      exact ⟨256, len, addI', facility, h, fun _ _ => rfl, fun h => absurd h0 h⟩
    · obtain ⟨len, addI', h, h3⟩ := addInfo_eq addI escChi (facilityArray_eq facility h0 hle)
      refine ⟨256, len, addI', _, h, ?_, fun _ => ⟨h3, ?_, ?_⟩⟩
      · intro p hp
        rw [Function.update_of_ne (by omega), store_outside facility (by omega)]
      · rw [Function.update_self, UInt8.toNat_ofNat']
        exact Nat.mod_eq_of_lt (by omega)
      · rw [update_eq_store, load_store_disjoint _ (by simp), load_store_self]

/-- An element of `n` bytes. -/
def elementOf (n : UInt8) : Mem := Function.update (fun _ => 0) 0 n

/-- Two elements of 126 bytes make an array of 256, and one of 255 bytes makes none. -/
theorem add_info_wraps :
    ¬ (∀ (addI ftyI : Nat → Mem) (escChi facility : Mem), Builds addI ftyI escChi facility) ∧
      ∀ turns addI escChi facility, addInfo turns addI (fun i => elementOf (if i = 0 then 255 else 0)) escChi facility
        = none := by
  constructor
  · intro h
    have hle := (h (fun _ _ => 0) (fun i => elementOf (if i < 2 then 126 else 0)) (fun _ => 0) (fun _ => 0)).length_le
    exact absurd hle (by decide +kernel)
  · intro turns addI escChi facility
    have h0 : elementOf 255 0 = 255 := rfl
    unfold addInfo facilityArray maxMultiIe copyFacilities
    simp only [reduceIte, h0, copyElement_endless]
    rfl

end Divas.Capi
