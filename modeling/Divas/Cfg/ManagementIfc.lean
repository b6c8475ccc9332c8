/-
  Divas.Cfg.ManagementIfc — requests to the management interface (cfglib.c).

  A variable of a section is written in two steps: a read request asks for the variable that
  the management information of the section names, and the write request is made of its
  answer, which says the type and the length, and of the configured value. The management
  information is a name, or a script: `/`, and entries of a length of two digits, a letter and
  a name; `script_offset` is the place of the last character of the entry that was read.

  A pointer to a name with its length is the list of its bytes. What is read behind a
  configured value, or written behind a buffer, is a fault.
-/

import Divas.Cfg.UpdateResult

namespace Divas.Cfg

open Divas.Lib Bytes Checks Print

/-- `diva_cfg_lib_management_ifc_state_t`, as far as requests are made of it. `failed` is
    whether `error` has the number of a line. -/
structure ManagementIfc where
  scriptOffset : Nat
  failed : Bool
  writeVarName : List UInt8
  finalEnumNr : BitVec 32
  varNameBuffer : Mem
  xdata : Mem
  rdata : Mem

def xdataSize : Nat := 270
def varNameBufferSize : Nat := 270

abbrev escChar : UInt8 := 0x7f
abbrev atChar : UInt8 := 64

/-! ## The name -/

/-- What a script has behind an offset. -/
inductive ScriptEntry where
  | stop
  | error
  | name (name : List UInt8) (offset : Nat)
  deriving DecidableEq

/-- `strtol (&tmp[tmp[0] == '0' ? 1 : 0], …, 16)`, as a byte. -/
def entryLength (c d : UInt8) : Nat := (strtol (if c = 48 then [d] else [c, d]) 16).1 % 256

/-- The entry of a script of so many bytes that is behind an offset. -/
def scriptEntry (info : List UInt8) (length offset : Nat) : ScriptEntry :=
  let i := offset + 1
  if length ≤ i + 2 then .stop
  else
    let n := entryLength (info.getD i 0) (info.getD (i + 1) 0)
    let i := i + 2
    if n < 2 ∨ length < i + n then .error
    else if info.getD i 0 ∈ ascii "EW" then .name ((info.drop (i + 1)).take (n - 1)) (i + 1 + n - 2)
    else .error

/-- The enumeration number in the place of the first `@`. -/
def applyEnumeration (s : ManagementIfc) (name : List UInt8) : Checked (Mem × List UInt8) :=
  let i := (name.takeWhile (· ≠ atChar)).length
  if 0 < s.finalEnumNr.toInt ∧ 0 < i ∧ i < name.length then do
    let m ← put varNameBufferSize s.varNameBuffer 0 (name.take i)
    let (m, n) ← print divaSnprintf varNameBufferSize m i (varNameBufferSize - 20) (numeral 10 s.finalEnumNr.toInt.toNat)
    let m ← put varNameBufferSize m (i + n) (name.drop (i + 1))
    pure (m, load m 0 ((i + n + (name.length - (i + 1))) % 256))
  else pure (s.varNameBuffer, name)

/-! ## The read request -/

/-- The request for a variable. -/
def readReq (s : ManagementIfc) (name : List UInt8) : Checked (ManagementIfc × Nat) := do
  let (varNameBuffer, name) ← applyEnumeration s name
  let n := name.length
  let x ← put xdataSize s.xdata 0 [escChar]
  let x ← put xdataSize x 2 [0x80, 0, 0, 0, 0, UInt8.ofNat n]
  let x ← put xdataSize x 8 name
  let x ← put xdataSize x 1 [UInt8.ofNat (n + 6)]
  let x ← put xdataSize x (8 + n) [0]
  let s := { s with varNameBuffer := varNameBuffer, writeVarName := name, xdata := x, rdata := store s.rdata 0 [0] }
  pure (s, (n + 9) % 256)

/-- `diva_cfg_create_read_req`. `src` is the section of the variable, which has management
    information. -/
def createReadReq (src : List UInt8) (s : ManagementIfc) : Checked (ManagementIfc × Nat) :=
  match getSectionElement src Vie.managementInfo with
  | none => .error .read
  | some offset => do
    let element := src.drop offset
    let bs := element.drop (vleToDword element).2
    let (length, used) := vleToDword bs
    let managementInfo := bs.drop used
    let x ← put xdataSize s.xdata 0 [0]
    let s := { s with writeVarName := [], xdata := x }
    if managementInfo.head? = some slashChar then
      match scriptEntry managementInfo (length % 256) s.scriptOffset with
      | .stop => pure ({ s with scriptOffset := 0 }, 0)
      | .error => pure ({ s with scriptOffset := 0, failed := true }, 0)
      | .name name offset => readReq { s with scriptOffset := offset } name
    else readReq { s with scriptOffset := 0 } (managementInfo.take (length % 256))

/-! ## The write request -/

/-- `diva_cfg_check_management_variable_value_type`. -/
def checkManagementVariableValueType (varType : UInt8) : Int :=
  if varType = 0x81 then 0
  else if varType ∈ [0x82, 0x83, 0x87, 0x85, 0x88] then 1
  else -1

/-- `diva_cfg_get_variable_data`. -/
def getVariableData (value : List UInt8) : Option (List UInt8) :=
  match identifySection (getSectionType value) with
  | none => none
  | some _ => [Vie.namedVarValue, Vie.ramInitValue, Vie.pcInitValue].findSome? fun id =>
      (getSectionElement value id).map fun offset => elementBytes (value.drop offset)

/-- A signed value of 1, 2 or 4 bytes as a dword. -/
def signedSource : List UInt8 → Option Nat
  | [a] => some (if a.toNat < 128 then a.toNat else 2 ^ 32 - 256 + a.toNat)
  | [a, b] =>
    let w := a.toNat + 256 * b.toNat
    some (if w < 32768 then w else 2 ^ 32 - 65536 + w)
  | [a, b, c, d] => some (a.toNat + 256 * b.toNat + 65536 * c.toNat + 16777216 * d.toNat)
  | _ => none

/-- The value behind the name: its length, or none if the type has none for it. -/
def writeValue (x : Mem) (p : Nat) (varType : UInt8) (max : Nat) (value : List UInt8) : Checked (Option (Mem × Nat)) :=
  if varType = 0x02 then pure (some (x, 0))
  else if varType = 0x03 then do
    let x ← put xdataSize x p value
    let x ← put xdataSize x (p + value.length) [0]
    pure (some (x, value.length + 1))
  else if varType = 0x04 ∨ varType = 0x05 then do
    let x ← put xdataSize x p [UInt8.ofNat value.length]
    let x ← put xdataSize x (p + 1) value
    pure (some (x, value.length + 1))
  else if 0 < checkManagementVariableValueType varType then do
    let x ← put xdataSize x p ((List.range max).map fun i => value.getD i 0)
    -- The value is copied once more behind the bytes of the loop.
    let bytes ← slice value 0 max
    let x ← put xdataSize x (p + max) bytes
    pure (some (x, max))
  else if checkManagementVariableValueType varType = 0 then
    match signedSource value with
    | none => pure none
    | some v =>
      if max = 1 ∨ max = 2 ∨ max = 4 then do
        let x ← put xdataSize x p (leBytes max v)
        pure (some (x, max))
      else pure none
  else pure none

/-- Whether the answer lets a value of this length be written. -/
def writable (r : Mem) (length : Nat) : Prop :=
  r 3 = 0x02 ∨ (r 4 &&& 1 ≠ 0 ∧ (if r 3 = 0x03 ∨ r 3 = 0x04 then length + 1 else length) ≤ (r 6).toNat)

instance (r : Mem) (length : Nat) : Decidable (writable r length) := inferInstanceAs (Decidable (_ ∨ _))

/-- `diva_cfg_create_write_req`. The answer to the read request is in `rdata`. -/
def createWriteReq (src : List UInt8) (s : ManagementIfc) : Checked (ManagementIfc × Int) :=
  let r := s.rdata
  let value := (getVariableData src).getD []
  let name := s.writeVarName
  let s := { s with writeVarName := [] }
  if name = [] ∨ ¬ writable r value.length then pure ({ s with failed := true }, -1)
  else do
    let x ← put xdataSize s.xdata 0 (load r 0 8)
    let x ← put xdataSize x 8 name
    match ← writeValue x (8 + name.length) (r 3) (r 6).toNat value with
    | none => pure ({ s with failed := true, xdata := x }, -1)
    | some (x, n) =>
      let x ← put xdataSize x 1 [UInt8.ofNat (n + name.length + 6)]
      let x ← put xdataSize x 6 [UInt8.ofNat n]
      let x ← put xdataSize x (8 + name.length + n) [0]
      pure ({ s with xdata := x, rdata := store r 0 [0] }, (x 1).toNat + 3)

end Divas.Cfg
