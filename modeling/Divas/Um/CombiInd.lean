/-
  Divas.Um.CombiInd — the body of a combined indication (MAN_COMBI_IND).

  A combined indication carries other indications, one behind the other: the code of each, the
  16-bit length of its data, the data, and one byte more. A code of 0 ends it.
-/

import Divas.Lib.Bytes
import Mathlib.Data.List.Basic

namespace Divas.Um

open Divas.Lib.Bytes

def manInfoInd : UInt8 := 2
def manCombiInd : UInt8 := 9

/-- An indication inside a combined one. -/
structure Part where
  ind : UInt8
  data : List UInt8
  trailer : UInt8
  ind_ne : ind ≠ 0
  length_lt : data.length < 65536

/-- `this_ind_length` of a part. -/
def thisIndLength (low high : UInt8) : Nat := low.toNat ||| high.toNat <<< 8

theorem thisIndLength_eq (low high : UInt8) : thisIndLength low high = low.toNat + 256 * high.toNat := by
  have h := Nat.shiftLeft_add_eq_or_of_lt (show low.toNat < 2 ^ 8 from low.toNat_lt) high.toNat
  unfold thisIndLength
  rw [Nat.or_comm, ← h, Nat.shiftLeft_eq]
  omega

namespace Part

variable (p : Part)

def header : List UInt8 := [p.ind, UInt8.ofNat p.data.length, UInt8.ofNat (p.data.length / 256)]

def bytes : List UInt8 := p.header ++ (p.data ++ [p.trailer])

@[simp] theorem header_length : p.header.length = 3 := rfl

@[simp] theorem bytes_length : p.bytes.length = p.data.length + 4 := by
  simp only [bytes, List.length_append, header_length, List.length_singleton]
  omega

theorem thisIndLength_header : thisIndLength (UInt8.ofNat p.data.length) (UInt8.ofNat (p.data.length / 256)) = p.data.length := by
  have hlt := p.length_lt
  rw [thisIndLength_eq, UInt8.toNat_ofNat', UInt8.toNat_ofNat']
  omega

end Part

/-- The body that the parts make. -/
def combined (ps : List Part) : List UInt8 := ps.flatMap Part.bytes

@[simp] theorem combined_nil : combined [] = [] := rfl

@[simp] theorem combined_cons (p : Part) (ps : List Part) : combined (p :: ps) = p.bytes ++ combined ps := rfl

/-- Each part has at least one byte. -/
theorem combined_length_le (ps : List Part) : ps.length ≤ (combined ps).length := by
  induction ps with
  | nil => exact Nat.le_refl 0
  | cons p ps ih =>
    rw [combined_cons, List.length_append, Part.bytes_length, List.length_cons]
    omega

end Divas.Um
