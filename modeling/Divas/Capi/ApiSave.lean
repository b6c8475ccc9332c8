/-
  Divas.Capi.ApiSave — saved messages (`API_SAVE`, message.c).

  The parameters of a message are pointers; a saved message has the bytes they point to in
  its own array `info`, and pointers into it. `api_swap_msg` exchanges two saved messages
  and moves the pointers with the bytes.

  Proved: two calls of `api_swap_msg` cancel (`apiSwapMsg_twice`).
-/

import Mathlib.Logic.Function.Basic
import Divas.Capi.BProtocol

namespace Divas.Capi

open Divas.Lib.Bytes

def maxMsgParms : Nat := 20

structure ApiSave where
  /-- The address of `info`. -/
  addr : Int
  /-- `parms[i].info` (NULL is `none`) and `parms[i].length`. -/
  parms : Nat → Option Int × Nat
  /-- `info`, and the memory behind it. -/
  info : Mem

/-- `api_save_msg (in, "s", out)`. -/
def apiSaveMsg (p : Parm) (out : ApiSave) : ApiSave where
  addr := out.addr
  parms := Function.update (Function.update out.parms 0 (some out.addr, p.length)) 1 (none, 0)
  info i := if i < p.length + 1 then p.info i else out.info i

/-- The first parameter that `api_load_msg` gives. -/
def apiLoadMsg (s : ApiSave) : Parm :=
  match (s.parms 0).1 with
  | some a => ⟨from_ s.info (a - s.addr).toNat, (s.parms 0).2⟩
  | none => ⟨fun _ => 0, (s.parms 0).2⟩

/-- `in1` of `api_swap_msg (in1, in2)` after the call. -/
def swapped (in1 in2 : ApiSave) : ApiSave where
  addr := in1.addr
  parms i :=
    if i < maxMsgParms + 1 then ((in2.parms i).1.map (· + (in1.addr - in2.addr)), (in2.parms i).2) else in1.parms i
  info i := if i < maxMsgSize then in2.info i else in1.info i

def apiSwapMsg (in1 in2 : ApiSave) : ApiSave × ApiSave := (swapped in1 in2, swapped in2 in1)

/-! ## Swapping -/

theorem swapped_swapped (in1 in2 : ApiSave) : swapped (swapped in1 in2) (swapped in2 in1) = in1 := by
  obtain ⟨addr, parms, info⟩ := in1
  unfold swapped
  congr 1
  · funext i
    dsimp only
    split
    case isTrue =>
      generalize parms i = p
      rcases p with ⟨_ | a, n⟩
      · rfl
      · show (some (a + (in2.addr - addr) + (addr - in2.addr)), n) = (some a, n)
        rw [show a + (in2.addr - addr) + (addr - in2.addr) = a by omega]
    case isFalse => rfl
  · funext i
    dsimp only
    split
    · rfl
    · rfl

theorem apiSwapMsg_twice (in1 in2 : ApiSave) : apiSwapMsg (apiSwapMsg in1 in2).1 (apiSwapMsg in1 in2).2 = (in1, in2) :=
  Prod.ext (swapped_swapped in1 in2) (swapped_swapped in2 in1)

/-- Saved with "s", and not too long for the array. -/
structure Single (s : ApiSave) : Prop where
  first : (s.parms 0).1 = some s.addr
  last : s.parms 1 = (none, 0)
  fits : (s.parms 0).2 + 1 ≤ maxMsgSize

end Divas.Capi
