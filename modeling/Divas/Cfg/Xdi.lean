/-
  Divas.Cfg.Xdi — an instance as one adapter memory update (diva_cfg_lib.c).

  The adapter gets its PCINIT list and its RAM settings as the image of a shared memory. The
  instance is translated into one that has, instead of its PCINIT and RAM sections, one RAM
  section that writes this image at offset 0. `diva_cfg_translate_xdi_data` goes through the
  instance twice: without memory, to add up the lengths (`sizePass`), and then with a block
  of that length (`writePass`). `diva_cfg_write_ram_init` and `diva_cfg_write_pcinit` do
  both. The block is memory from address 0 on; a write at a larger address is one behind it.

  `items` is what the loops over `diva_cfg_get_next_channel_configuration_item` see: the
  sections from their pointers on. Lengths are dwords.
-/

import Divas.Cfg.Storage
import Divas.Lib.Bytes

namespace Divas.Cfg

open Divas.Lib.Bytes (Mem store)

/-- A dword. -/
def w32 (n : Nat) : Nat := n % 2 ^ 32

/-- `max_length - position`. -/
def room (maxLength position : Nat) : Nat := w32 (maxLength + (2 ^ 32 - position))

/-- How many bytes `dword_to_vle` counts. -/
def vleLength (value : Nat) : Nat := ((dwordToVle value none).getD []).length

/-! ## The sections of an instance -/

/-- `diva_cfg_get_next_channel_configuration_item`, for any channel. -/
def getNextChannelConfigurationItem (src : List UInt8) (currentItem : Option Nat) : Option Nat :=
  nextTaken src
    (fun item =>
      let id := getSectionType (src.drop item)
      id ≠ Vie.bindingDirection && id ≠ Vie.notDefined)
    (src.length + 1) currentItem

def itemsLoop (src : List UInt8) : Nat → Option Nat → List Nat
  | 0, _ => []
  | n + 1, current =>
    match getNextChannelConfigurationItem src current with
    | none => []
    | some item => item :: itemsLoop src n (some item)

def items (src : List UInt8) : List (List UInt8) := (itemsLoop src (src.length + 1) none).map fun item => src.drop item

/-- An element of a section that has it. -/
def elementOf (item : List UInt8) (id : Nat) : List UInt8 :=
  match getSectionElement item id with
  | some element => item.drop element
  | none => []

/-! ## RAM -/

inductive RamInitOperation where
  | notDefined
  | write
  | setBits
  | clearBits
  deriving DecidableEq

def ramInitOperation : Nat → RamInitOperation
  | 1 => .write
  | 2 => .setBits
  | 3 => .clearBits
  | _ => .notDefined

def getRamInitOperation (item : List UInt8) : RamInitOperation :=
  ramInitOperation (elementNumber (elementOf item Vie.ramInitOperation))

def getRamInitOffset (item : List UInt8) : Nat := elementNumber (elementOf item Vie.ramInitOffset)

def getRamInitValue (item : List UInt8) : List UInt8 := elementBytes (elementOf item Vie.ramInitValue)

/-- The loop over the bytes from `offset` to `stop`. -/
def modify (f : UInt8 → UInt8 → UInt8) (m : Mem) (base offset stop : Nat) (data : List UInt8) : Mem :=
  fun k => if base + offset ≤ k ∧ k < base + stop then f (m k) (data.getD (k - (base + offset)) 0) else m k

/-- One section. No result stands for 0xffffffff. -/
def ramItem (base maxLength : Nat) (s : Option Mem × Nat) (item : List UInt8) : Option (Option Mem × Nat) :=
  if getSectionType item ≠ Vie.ramInitOffset then some s
  else
    let data := getRamInitValue item
    let offset := getRamInitOffset item
    let stop := w32 (offset + data.length)
    let length := max s.2 stop
    match s.1 with
    | none => some (none, length)
    | some m =>
      if maxLength < stop then none
      else
        match getRamInitOperation item with
        | .write => some (some (store m (base + offset) data), length)
        | .setBits => some (some (modify (fun b d => b ||| d) m base offset stop data), length)
        | .clearBits => some (some (modify (fun b d => b &&& ~~~d) m base offset stop data), length)
        | .notDefined => none

/-- `diva_cfg_write_ram_init`, with `dst` at `base`. -/
def writeRamInit (mem : Option Mem) (base : Nat) (src : List UInt8) (maxLength : Nat) : Option (Option Mem × Nat) :=
  (items src).foldlM (ramItem base maxLength) (mem, 0)

/-! ## PCINIT -/

def pcinitOffset : Nat := 224
def pcinitCfgLineNumber : UInt8 := 0x3c

def getPcInitType (item : List UInt8) : Nat := elementNumber (elementOf item Vie.pcInitname) % 256

/-- The length, as a byte, and what is stored from the data on. -/
def getPcInitData (item : List UInt8) : Nat × List UInt8 :=
  match getSectionElement item Vie.pcInitValue with
  | some data =>
    let bs := (item.drop data).drop (vleToDword (item.drop data)).2
    ((vleToDword bs).1 % 256, bs.drop (vleToDword bs).2)
  | none => (0, [])

def getCfgLineNumber (item : List UInt8) : Nat :=
  match getSectionElement item Vie.parameterLine with
  | some data => elementNumber (item.drop data) % 256
  | none => 0

structure Pcinit where
  mem : Option Mem
  offset : Nat
  currentCfgLine : Nat
  writeCfgLine : Bool

/-- Bytes of the list, if `limit` is in the buffer. -/
def Pcinit.put (s : Pcinit) (base limit maxLength : Nat) (bytes : List UInt8) : Option Pcinit :=
  match s.mem with
  | none => some { s with offset := w32 (s.offset + bytes.length) }
  | some m =>
    if limit < maxLength then
      some { s with mem := some (store m (base + s.offset) bytes), offset := w32 (s.offset + bytes.length) }
    else none

/-- From the first change of the line on, every entry has its line before it. -/
def Pcinit.line (s : Pcinit) (base maxLength cfgLine : Nat) : Option Pcinit :=
  let s := if cfgLine ≠ s.currentCfgLine then { s with writeCfgLine := true, currentCfgLine := cfgLine } else s
  if s.writeCfgLine then
    s.put base (w32 (s.offset + 2)) maxLength [pcinitCfgLineNumber, 1, UInt8.ofNat s.currentCfgLine]
  else some s

def pcinitItem (base maxLength : Nat) (s : Pcinit) (item : List UInt8) : Option Pcinit :=
  if getSectionType item ≠ Vie.pcInitname then some s
  else
    let (length, data) := getPcInitData item
    let type := getPcInitType item
    do
      let s ← s.line base maxLength (getCfgLineNumber item)
      let s ← s.put base s.offset maxLength [UInt8.ofNat type]
      if type &&& 0x80 ≠ 0 then some s
      else
        let s ← s.put base s.offset maxLength [UInt8.ofNat length]
        if length ≠ 0 then s.put base (w32 (s.offset + length)) maxLength (data.take length) else some s

/-- `diva_cfg_write_pcinit`, with `dst` at `base`. -/
def writePcinit (mem : Option Mem) (base : Nat) (src : List UInt8) (maxLength : Nat) : Option (Option Mem × Nat) := do
  let s ← (items src).foldlM (pcinitItem base maxLength) ⟨mem, pcinitOffset, 0, false⟩
  let s ← s.put base s.offset maxLength [0]
  some (s.mem, s.offset)

/-! ## The image of an instance -/

/-- Where the identification of the instance is, and how long. -/
def getInstanceData (src : List UInt8) : Nat × Nat :=
  let (_, idUsed) := vleToDword src
  let (_, lengthUsed) := vleToDword (src.drop idUsed)
  let start := idUsed + lengthUsed
  let (instanceType, typeUsed) := vleToDword (src.drop start)
  let (value, used) := vleToDword (src.drop (start + typeUsed))
  if instanceType = Vie.instance2 then (start, w32 (typeUsed + value + used)) else (start, w32 (typeUsed + used))

/-- A section that is not written to the memory of the adapter. -/
def Copied (item : List UInt8) : Prop := getSectionType item ≠ Vie.pcInitname ∧ getSectionType item ≠ Vie.ramInitOffset

instance (item : List UInt8) : Decidable (Copied item) := inferInstanceAs (Decidable (_ ∧ _))

structure Sizes where
  maxLength : Nat
  totalSectionLength : Nat
  totalRamSectionLength : Nat
  sharedRamLength : Nat
  deriving DecidableEq

/-- The ids and numbers of the RAM section before its value. -/
def ramSectionStart : List Nat :=
  [Vie.ramInitOffset, 0, Vie.ramInitOperation, ramInitOperationWrite, Vie.ramInitValue]

/-- The round without memory. -/
def sizePass (src : List UInt8) : Option Sizes :=
  let position := vleLength Vie.tlie
  let totalSectionLength := position
  let position := w32 (position + (getInstanceData src).2)
  let position := (items src).foldl (fun p item => if Copied item then w32 (p + getMaxLength item) else p) position
  let position := w32 (position + vleLength Vie.tlie)
  let totalRamSectionLength := position
  let position := ramSectionStart.foldl (fun p value => w32 (p + vleLength value)) position
  match writeRamInit none 0 src 0, writePcinit none 0 src 0 with
  | some (_, ramLength), some (_, pcinitLength) =>
    if ramLength = 0xffffffff ∨ pcinitLength = 0xffffffff then none
    else
      let sharedRamLength := max ramLength pcinitLength
      let position := w32 (position + sharedRamLength)
      let position := w32 (position + vleLength sharedRamLength)
      let totalRamSectionLength := room position totalRamSectionLength
      let position := w32 (position + vleLength totalRamSectionLength)
      let totalSectionLength := room position totalSectionLength
      let position := w32 (position + vleLength totalSectionLength)
      some ⟨position, totalSectionLength, totalRamSectionLength, sharedRamLength⟩
  | _, _ => none

/-- The block, with the header in front of the position. -/
structure Writer where
  mem : Mem
  position : Nat

/-- `position += dword_to_vle (value, mem + position, max_length - position)`. -/
def Writer.vle (headerLength maxLength : Nat) (s : Writer) (value : Nat) : Writer :=
  match dwordToVle value (some (room maxLength s.position)) with
  | some bytes => ⟨store s.mem (headerLength + s.position) bytes, w32 (s.position + bytes.length)⟩
  | none => s

/-- A section that is copied. -/
def Writer.item (headerLength maxLength : Nat) (s : Writer) (item : List UInt8) : Option Writer :=
  if Copied item then
    let id := getMaxLength item
    if id ≤ room maxLength s.position then
      some ⟨store s.mem (headerLength + s.position) (item.take id), w32 (s.position + id)⟩
    else none
  else some s

/-- The identification, if it fits. -/
def Writer.ident (headerLength maxLength : Nat) (s : Writer) (src : List UInt8) : Writer :=
  let (start, length) := getInstanceData src
  let mem :=
    if w32 (s.position + length) < room maxLength s.position then
      store s.mem (headerLength + s.position) ((src.drop start).take length)
    else s.mem
  ⟨mem, w32 (s.position + length)⟩

/-- The round with memory. -/
def writePass (mem : Mem) (headerLength : Nat) (src : List UInt8) (sz : Sizes) : Option Mem :=
  let s := [Vie.tlie, sz.totalSectionLength].foldl (Writer.vle headerLength sz.maxLength) ⟨mem, 0⟩
  let s := s.ident headerLength sz.maxLength src
  match (items src).foldlM (Writer.item headerLength sz.maxLength) s with
  | none => none
  | some s =>
    let s := ([Vie.tlie, sz.totalRamSectionLength] ++ ramSectionStart ++ [sz.sharedRamLength]).foldl
      (Writer.vle headerLength sz.maxLength) s
    match writeRamInit (some s.mem) (headerLength + s.position) src (room sz.maxLength s.position) with
    | some (some mem, ramLength) =>
      match writePcinit (some mem) (headerLength + s.position) src (room sz.maxLength s.position) with
      | some (some mem, pcinitLength) => if ramLength = 0xffffffff ∨ pcinitLength = 0xffffffff then none else some mem
      | _ => none
    | _ => none

/-- `diva_cfg_translate_xdi_data`: the block and its length. `malloc` says whether there is
    memory, and `mem` what is in it. -/
def translateXdiData (malloc : Bool) (mem : Mem) (headerLength : Nat) (src : List UInt8) : Option (Mem × Nat) :=
  match sizePass src with
  | none => none
  | some sz =>
    if malloc then
      let length := w32 (sz.maxLength + headerLength)
      match writePass (fun i => if i < length then 0 else mem i) headerLength src sz with
      | none => none
      | some mem => some (mem, length)
    else none

end Divas.Cfg
