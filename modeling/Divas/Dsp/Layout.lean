/-
  Divas.Dsp.Layout — where a pass over a combifile comes to.

  The header, the description and the directory are followed by the downloads (`opened`). A
  `Place` is the start of a download in a pass, with what the pass has counted and loaded until
  then. `next` is the place behind a download, if the pass does not stop there, `places` are the
  places of the downloads one after the other.

  `Safe` says that a pass comes to no description of `logBuffer` bytes or more that it logs
  whole, and to no usage mask of which it reads more than `usageBuffer` bytes.
-/

import Divas.Dsp.DspFile

namespace Divas.Dsp

open Divas.Lib.Bytes

def File.size (file : File) : Nat := file.bytes.length

/-! ## Before the downloads -/

def File.header (file : File) : CombiHeader := CombiHeader.of file.mem 0

/-- The directory lies behind the description. -/
def File.directory (file : File) : Nat := file.header.headerSize + file.header.combifileDescriptionSize

def File.cardType (file : File) (j : Nat) : Nat := word file.mem (file.directory + 4 * j)

def File.fileSetNumber (file : File) (j : Nat) : Nat := word file.mem (file.directory + 4 * j + 2)

/-- The header is in order, and there is as much of the file as it says. -/
def File.Begins (file : File) : Prop :=
  combiHeaderSize ≤ file.size ∧ file.header.refused = none ∧ file.directory ≤ file.size

instance (file : File) : Decidable file.Begins := inferInstanceAs (Decidable (_ ∧ _ ∧ _))

/-- The entry for a card type; a first entry is looked at also if there is none. -/
def File.entry (file : File) (cardTypeNumber : Nat) : Option Nat :=
  (List.range (max file.header.directoryEntries 1)).find? fun j => decide (file.cardType j = cardTypeNumber)

def opened (file : File) (cardTypeNumber : Nat) : Option (Nat × FileSet × Nat) :=
  if file.Begins then
    match file.entry cardTypeNumber with
    | some j =>
      if file.directory + 4 * (j + 1) ≤ file.size ∧ file.directory + 4 * file.header.directoryEntries ≤ file.size then
        some (file.header.downloadCount, FileSet.of file.header.usageMaskSize (file.fileSetNumber j),
          file.directory + 4 * file.header.directoryEntries)
      else none
    | none => none
  else none

/-- The description of the file is logged, with a zero behind it. -/
def LongText (file : File) : Prop := file.Begins ∧ logBuffer ≤ file.header.combifileDescriptionSize

/-! ## The downloads -/

structure Place where
  position : Nat
  requiredCount : Nat
  loaded : List Nat

def Tables.limit : Tables → Option Nat
  | .reserve => none
  | .native downloadCount => some downloadCount
  | .portable downloadCount => some downloadCount

section Places

variable (file : File) (env : Env) (tables : Tables) (set : FileSet)

/-- The byte of the usage mask; behind the mask it is what was in the buffer before. -/
def usage (position : Nat) : UInt8 :=
  if set.usageMaskOffset < set.usageMaskSize then file.mem (position + set.usageMaskOffset) else env.stack set.usageMaskOffset

def required (position : Nat) : Bool := decide ((usage file env set position).toNat &&& set.usageMaskByte ≠ 0)

def headerAt (position : Nat) : FileHeader := FileHeader.of file.mem (position + set.usageMaskSize)

def behind (position : Nat) : Nat := position + set.usageMaskSize + fileHeaderSize

/-- The header of a download is there and in order. -/
def Sound (position : Nat) : Prop := behind set position ≤ file.size ∧ (headerAt file set position).refused = none

instance (position : Nat) : Decidable (Sound file set position) := inferInstanceAs (Decidable (_ ∧ _))

def excessSize (hdr : FileHeader) : Nat := (hdr.headerSize + 65536 - fileHeaderSize) % 65536

/-- Sections are loaded, if the file has them and there is room on the card. -/
def loads : Nat → List Nat → List Nat → Option (Nat × List Nat)
  | position, loaded, [] => some (position, loaded)
  | position, loaded, length :: rest =>
    if length = 0 then loads position loaded rest
    else
      match tables with
      | .portable _ =>
        if (env.cardLoad (loaded ++ [length])).isSome ∧ position + length ≤ file.size then
          loads (position + length) (loaded ++ [length]) rest
        else none
      | _ => none

def skips (pl : Place) (requiredCount : Nat) : Option Place :=
  (file.seek (behind set pl.position) (behindHeader (headerAt file set pl.position))).map fun position =>
    ⟨position, requiredCount, pl.loaded⟩

def next (pl : Place) : Option Place :=
  if Sound file set pl.position then
    if required file env set pl.position then
      match tables.limit with
      | some downloadCount =>
        if pl.requiredCount < downloadCount then
          let hdr := headerAt file set pl.position
          (loads file env tables (behind set pl.position) pl.loaded (excessSize hdr :: hdr.sections)).map fun r =>
            ⟨r.1, pl.requiredCount + 1, r.2⟩
        else none
      | none => skips file set pl (pl.requiredCount + 1)
    else skips file set pl pl.requiredCount
  else none

def places (position : Nat) : Nat → Option Place
  | 0 => some ⟨position, 0, []⟩
  | i + 1 => (places position i).bind (next file env tables set)

/-- More of the usage mask is read than the buffer has room for. -/
def LongMask (pl : Place) : Prop := usageBuffer < set.usageMaskSize ∧ pl.position + usageBuffer < file.size

/-- The description of a download that is loaded is logged, with a zero behind it. -/
def LongDescription (pl : Place) : Prop :=
  Sound file set pl.position ∧ required file env set pl.position = true ∧
    ∃ downloadCount, tables.limit = some downloadCount ∧ pl.requiredCount < downloadCount ∧
      ∃ r, loads file env tables (behind set pl.position) pl.loaded [excessSize (headerAt file set pl.position)] = some r ∧
        logBuffer ≤ (headerAt file set pl.position).downloadDescriptionSize ∧
        r.1 + (headerAt file set pl.position).downloadDescriptionSize ≤ file.size

end Places

/-- The pass comes to nothing that does not fit its buffers. -/
def Safe (file : File) (cardTypeNumber : Nat) (tables : Tables) (env : Env) : Prop :=
  ¬ LongText file ∧
    ∀ downloadCount set position, opened file cardTypeNumber = some (downloadCount, set, position) →
      ∀ i < downloadCount, ∀ pl, places file env tables set position i = some pl →
        ¬ LongMask file set pl ∧ ¬ LongDescription file env tables set pl

end Divas.Dsp
