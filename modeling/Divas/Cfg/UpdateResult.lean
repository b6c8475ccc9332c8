/-
  Divas.Cfg.UpdateResult — the result of the update of a section, as text (parser.c).

  `diva_cfg_lib_write_variable_update_result` prints the elements of a section to a buffer of
  512 bytes and appends them to the response, between the tags of a tlie and with the result
  of the update behind them. `limit` is one less than the buffer, and what is left of it is
  the size for `snprintf` as well as the end of a value: the characters of a value are copied
  while more than 5 are left. The functions are modelled as they are called here, with `fmt` 1.
  The function that appends is a parameter: it returns 0 if it did.
-/

import Divas.Cfg.TextSyntax
import Divas.Lib.Print

namespace Divas.Cfg

open Divas.Lib Bytes Checks Print

/-- `diva_snprintf` of runtime.c: it returns what it wrote, and for a size of 1 or less it
    writes a zero and nothing else. -/
def divaSnprintf : Snprintf where
  run size text :=
    if 1 < size then (text.take (size.toNat - 1) ++ [0], min text.length (size.toNat - 1)) else ([0], 0)
  fits h := by
    rename_i size text
    split
    · rw [List.take_of_length_le (by omega), Nat.min_eq_left (by omega)]
    · have hnil : text = [] := List.eq_nil_of_length_eq_zero (by omega)
      rw [hnil]
      rfl
  cuts hpos h := by
    rename_i size text
    split
    · exact ⟨rfl, by dsimp only; omega⟩
    · have hone : size.toNat - 1 = 0 := by omega
      rw [hone]
      exact ⟨rfl, Nat.le_refl 0⟩

/-! ## The tables -/

/-- The optional elements of the kinds of sections. -/
def optionalElements : List (Nat × List Nat) :=
  [(Vie.pcInitname, [Vie.parameterLine]),
    (Vie.ramInitOffset, [Vie.parameterLine]),
    (Vie.namedVarName, []),
    (Vie.imageType, [Vie.imageArchive, Vie.imageData]),
    (Vie.bindingDirection, [Vie.bindingService, Vie.bindingHLC, Vie.bindingLLC, Vie.bindingRangeStart, Vie.bindingRangeEnd,
      Vie.bindingBindTo, Vie.bindingBindTo2, Vie.bindingRangeStartCiPN, Vie.bindingRangeEndCiPN, Vie.bindingRangeStartSub,
      Vie.bindingRangeEndSub, Vie.bindingRangeStartCiPNSub, Vie.bindingRangeEndCiPNSub])]

def CfgSection.optional (ref : CfgSection) : List Nat := (optionalElements.lookup ref.type).getD []

/-- `diva_hot_update_operation_result_t`. -/
inductive HotUpdateResult where
  | ok
  | noChangesDetected
  | failedNotPossible
  | failedOwnerNotFound
  | lastApplicationResponse
  | pending
  | invalidApplicationResponse
  deriving DecidableEq

def HotUpdateResult.toNat : HotUpdateResult → Nat
  | ok => 0
  | noChangesDetected => 1
  | failedNotPossible => 2
  | failedOwnerNotFound => 3
  | lastApplicationResponse => 4
  | pending => 5
  | invalidApplicationResponse => 6

/-! ## Printing -/

/-- A buffer, and how much was written from `dst` on. -/
abbrev Printed := Mem × Nat

def bufferSize : Nat := 512

variable (f : Snprintf)

/-- `written += diva_snprintf (&dst[written], limit - written, …)`. -/
def snprintfAt (dst : Nat) (limit : Int) (text : List UInt8) (o : Printed) : Checked Printed := do
  let (m, n) ← print f bufferSize o.1 (dst + o.2) (limit - o.2) text
  pure (m, o.2 + n)

/-- The characters of a value, while more than 5 are left. -/
def copyChars (dst : Nat) (limit : Int) : List UInt8 → Printed → Checked Printed
  | [], o => pure o
  | b :: data, o =>
    if 5 < limit - o.2 then do
      let m ← put bufferSize o.1 (dst + o.2) [b]
      copyChars dst limit data (m, o.2 + 1)
    else pure o

/-- The bytes of a value, while more than 5 characters are left. -/
def printBytes (dst : Nat) (limit : Int) : (label : Bool) → List UInt8 → Printed → Checked Printed
  | _, [], o => pure o
  | label, b :: data, o =>
    if 5 < limit - o.2 then do
      let o ← snprintfAt f dst limit ((if label then ascii "," else []) ++ hexByte b) o
      printBytes dst limit true data o
    else pure o

/-- Whether a value can be printed as characters. The loop compares with an `int`. -/
def isAscii (data : List UInt8) : Bool :=
  if data.length < 2147483648 then data.all fun c => 0x20 ≤ c && c ≤ 0x7e && c ≠ ltChar && c ≠ gtChar
  else true

/-- The tag of an element. -/
def openVie (name : List UInt8) : List UInt8 := ascii "\t\t\t<vie id=\"" ++ name ++ ascii "\">"

def closeVie : List UInt8 := ascii "</vie>\n"

/-- `diva_snprint_ident`. -/
def snprintIdent (m : Mem) (dst : Nat) (value : List UInt8) (limit : Int) (id : Nat) : Checked Printed :=
  match getSectionElement value id with
  | none => pure (m, 0)
  | some offset =>
    let element := value.drop offset
    match findTagFromId id with
    | none => pure (m, 0)
    | some tag =>
      let name := tag.attributeName.getD []
      match tag.form with
      | .vle => snprintfAt f dst limit (openVie name ++ numeral 16 (elementNumber element) ++ closeVie) (m, 0)
      | .bs => do
        let data := elementBytes element
        let o ← snprintfAt f dst limit (openVie name) (m, 0)
        if isAscii data then
          let o ← snprintfAt f dst limit (ascii "<as>") o
          let o ← copyChars dst limit data o
          let o ← snprintfAt f dst limit [] o
          let o ← snprintfAt f dst limit (ascii "</as>") o
          snprintfAt f dst limit closeVie o
        else
          let o ← snprintfAt f dst limit (ascii "<bs>") o
          let o ← printBytes f dst limit false data o
          let o ← snprintfAt f dst limit (ascii "</bs>") o
          snprintfAt f dst limit closeVie o
      | .tlie => pure (m, 0)

/-- The elements of a list that are in the section. -/
def snprintIdents (dst : Nat) (value : List UInt8) (limit : Int) : List Nat → Printed → Checked Printed
  | [], o => pure o
  | id :: ids, o =>
    if (getSectionElement value id).isSome then do
      let (m, n) ← snprintIdent f o.1 (dst + o.2) value (limit - o.2) id
      snprintIdents dst value limit ids (m, o.2 + n)
    else snprintIdents dst value limit ids o

/-- `diva_snprint_value`. -/
def snprintValue (m : Mem) (dst : Nat) (value : List UInt8) (limit : Int) : Checked Printed :=
  let id := getSectionType value
  match identifySection id with
  | none => snprintfAt f dst limit (ascii "=NotDefined") (m, 0)
  | some ref => do
    let o ← snprintIdent f m dst value limit id
    let o ← snprintIdents f dst value limit ref.required o
    snprintIdents f dst value limit ref.optional o

/-- `diva_cfg_lib_write_variable_update_result`. `m` is what is in `buffer`, which is not
    initialized. -/
def writeVariableUpdateResult {σ : Type} (addString : σ → List UInt8 → σ × Int) (m : Mem) (value : List UInt8)
    (result : HotUpdateResult) (s : σ) : Checked (σ × Int) :=
  let id := getSectionType value
  match identifySection id with
  | none => pure (s, -1)
  | some _ =>
    let (s, failed) := addString s (ascii "\t\t<tlie>\n")
    if failed ≠ 0 then pure (s, -1)
    else do
      let (m, _) ← snprintValue f m 0 value (bufferSize - 1)
      let (s, failed) := addString s (cString m bufferSize)
      if failed ≠ 0 then pure (s, -1)
      else
        let (m, _) ← snprintfAt f 0 (bufferSize - 1) (openVie (ascii "response") ++ numeral 10 result.toNat ++ closeVie) (m, 0)
        let (s, failed) := addString s (cString m bufferSize)
        if failed ≠ 0 then pure (s, -1)
        else
          let (s, failed) := addString s (ascii "\t\t</tlie>\n")
          if failed ≠ 0 then pure (s, -1) else pure (s, 0)

end Divas.Cfg
