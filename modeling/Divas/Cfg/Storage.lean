/-
  Divas.Cfg.Storage — the configuration storage and its walkers (diva_cfg_lib.c).

  Storage is a tree. An element is its id, a number, and what the id says: a `tlie` has its
  length and its content, a number nothing more, a binary string its length and its bytes.
  The walkers get a pointer to a tlie: here the list of bytes from it on, and an offset into
  it for a pointer into it. A loop runs at most `max_length` times, since every round takes
  a byte off it.
-/

import Divas.Cfg.Vle

namespace Divas.Cfg

/-! ## The elements -/

namespace Vie

abbrev notDefined : Nat := 0
abbrev tlie : Nat := 1
abbrev owner : Nat := 2
abbrev inst : Nat := 3
abbrev instance2 : Nat := 4
abbrev pcInitname : Nat := 5
abbrev pcInitValue : Nat := 6
abbrev ramInitOffset : Nat := 7
abbrev ramInitOperation : Nat := 8
abbrev ramInitValue : Nat := 9
abbrev imageType : Nat := 10
abbrev imageName : Nat := 11
abbrev imageArchive : Nat := 12
abbrev imageData : Nat := 13
abbrev namedVarName : Nat := 14
abbrev namedVarValue : Nat := 15
abbrev managementInfo : Nat := 16
abbrev bindingDirection : Nat := 17
abbrev bindingEnable : Nat := 18
abbrev bindingService : Nat := 19
abbrev bindingServiceMask : Nat := 20
abbrev bindingBC : Nat := 21
abbrev bindingHLC : Nat := 22
abbrev bindingLLC : Nat := 23
abbrev bindingRangeStart : Nat := 24
abbrev bindingRangeEnd : Nat := 25
abbrev bindingRangeStartCiPN : Nat := 26
abbrev bindingRangeEndCiPN : Nat := 27
abbrev bindingRangeStartSub : Nat := 28
abbrev bindingRangeEndSub : Nat := 29
abbrev bindingRangeStartCiPNSub : Nat := 30
abbrev bindingRangeEndCiPNSub : Nat := 31
abbrev bindingBindTo : Nat := 32
abbrev bindingBindTo2 : Nat := 33
abbrev parameterLine : Nat := 34

end Vie

/-- What follows the id. -/
inductive Form where
  | tlie
  | vle
  | bs
  deriving DecidableEq

/-- A name of the text: `tag`, or `tag` with the attribute `id="attribute"`. -/
structure VieTag where
  tag : List UInt8
  id : Nat
  attributeName : Option (List UInt8)
  form : Form
  deriving DecidableEq

def ascii (s : String) : List UInt8 := s.toList.map Char.toUInt8

def VieTag.vie (id : Nat) (name : String) (form : Form) : VieTag := ⟨ascii "vie", id, some (ascii name), form⟩

/-- `vie_attributes`. A longer name stands before its prefixes. -/
def vieAttributes : List VieTag :=
  [⟨ascii "tlie", Vie.tlie, none, .tlie⟩,
    .vie Vie.owner "owner" .vle,
    .vie Vie.instance2 "instance2" .bs,
    .vie Vie.inst "instance" .vle,
    .vie Vie.pcInitname "pcinitname" .vle,
    .vie Vie.pcInitValue "pcinitvalue" .bs,
    .vie Vie.ramInitOffset "raminitoffset" .vle,
    .vie Vie.ramInitOperation "raminitoperation" .vle,
    .vie Vie.ramInitValue "raminitvalue" .bs,
    .vie Vie.imageType "imagetype" .vle,
    .vie Vie.imageName "imagename" .bs,
    .vie Vie.imageArchive "imagearchive" .bs,
    .vie Vie.imageData "imagedata" .bs,
    .vie Vie.namedVarName "namedvarname" .bs,
    .vie Vie.namedVarValue "namedvarvalue" .bs,
    .vie Vie.managementInfo "managementinfo" .bs,
    .vie Vie.bindingRangeStartCiPNSub "bindingrangestartcipnsub" .bs,
    .vie Vie.bindingRangeEndCiPNSub "bindingrangeendcipnsub" .bs,
    .vie Vie.bindingRangeStartCiPN "bindingrangestartcipn" .bs,
    .vie Vie.bindingRangeStartSub "bindingrangestartsub" .bs,
    .vie Vie.bindingRangeEndCiPN "bindingrangeendcipn" .bs,
    .vie Vie.bindingRangeEndSub "bindingrangeendsub" .bs,
    .vie Vie.bindingServiceMask "bindingservicemask" .bs,
    .vie Vie.bindingRangeStart "bindingrangestart" .bs,
    .vie Vie.bindingDirection "bindingdirection" .vle,
    .vie Vie.bindingRangeEnd "bindingrangeend" .bs,
    .vie Vie.bindingService "bindingservice" .bs,
    .vie Vie.bindingEnable "bindingenable" .vle,
    .vie Vie.bindingBindTo2 "bindingto2" .bs,
    .vie Vie.bindingHLC "bindinghlc" .bs,
    .vie Vie.bindingLLC "bindingllc" .bs,
    .vie Vie.bindingBC "bindingbc" .bs,
    .vie Vie.bindingBindTo "bindingto" .vle,
    .vie Vie.parameterLine "parameterline" .vle]

def findTagFromId (id : Nat) : Option VieTag := vieAttributes.find? (·.id == id)

/-! ## The walkers -/

/-- The length of an element whose number stands for so many bytes, or 0 if it is not
    within `max_length`. -/
def skipElement (payload : Nat → Nat) (src : List UInt8) (maxLength : Nat) : Nat :=
  let (_, idUsed) := vleToDword src
  if idUsed = 0 ∨ maxLength ≤ idUsed then 0
  else
    let (value, used) := vleToDword (src.drop idUsed)
    let totalUsed := (idUsed + payload value + used) % 2 ^ 32
    if used = 0 ∨ maxLength < totalUsed then 0 else totalUsed

def skipTlie : List UInt8 → Nat → Nat := skipElement fun length => length
def skipVieVle : List UInt8 → Nat → Nat := skipElement fun _ => 0
def skipVieBs : List UInt8 → Nat → Nat := skipElement fun length => length

/-- `tag->skip`. -/
def VieTag.skip (tag : VieTag) : List UInt8 → Nat → Nat :=
  match tag.form with
  | .tlie => skipTlie
  | .vle => skipVieVle
  | .bs => skipVieBs

/-- The length of a tlie with its header. -/
def getMaxLength (src : List UInt8) : Nat :=
  let (id, idUsed) := vleToDword src
  if id ≠ Vie.tlie then 0
  else
    let (length, used) := vleToDword (src.drop idUsed)
    if length = 0 then 0 else (idUsed + used + length) % 2 ^ 32

/-- Behind the header of a tlie that is not empty: the length of the header and of the
    content. -/
def tlieContent (src : List UInt8) : Option (Nat × Nat) :=
  let (id, idUsed) := vleToDword src
  if id ≠ Vie.tlie then none
  else
    let (maxLength, used) := vleToDword (src.drop idUsed)
    if maxLength = 0 then none else some (idUsed + used, maxLength)

def sectionElementLoop (requiredId : Nat) : Nat → List UInt8 → Nat → Nat → Option Nat
  | 0, _, _, _ => none
  | n + 1, src, offset, maxLength =>
    if maxLength = 0 then none
    else
      let (id, _) := vleToDword src
      if id = requiredId then some offset
      else
        match findTagFromId id with
        | none => none
        | some tag =>
          let used := tag.skip src maxLength
          if used = 0 then none else sectionElementLoop requiredId n (src.drop used) (offset + used) (maxLength - used)

/-- `diva_cfg_get_section_element`. -/
def getSectionElement (src : List UInt8) (requiredId : Nat) : Option Nat :=
  match tlieContent src with
  | none => none
  | some (header, maxLength) => sectionElementLoop requiredId maxLength (src.drop header) header maxLength

def nextSectionLoop : Nat → List UInt8 → Nat → Nat → Bool → Option Nat
  | 0, _, _, _, _ => none
  | n + 1, src, offset, maxLength, skipCurrent =>
    if maxLength = 0 then none
    else
      let (id, _) := vleToDword src
      if id = Vie.tlie ∧ skipCurrent = false then some offset
      else
        match findTagFromId id with
        | none => none
        | some tag =>
          let used := tag.skip src maxLength
          if used = 0 then none else nextSectionLoop n (src.drop used) (offset + used) (maxLength - used) false

/-- `diva_cfg_get_next_cfg_section`. -/
def getNextCfgSection (src : List UInt8) (currentSection : Option Nat) : Option Nat :=
  match tlieContent src with
  | none => none
  | some (header, maxLength) =>
    match currentSection with
    | none => nextSectionLoop maxLength (src.drop header) header maxLength false
    | some current =>
      if header + maxLength ≤ current ∨ current < header then none
      else nextSectionLoop maxLength (src.drop current) current (maxLength - (current - header)) true

/-- The first section behind `current` that is taken. -/
def nextTaken (src : List UInt8) (takes : Nat → Bool) : Nat → Option Nat → Option Nat
  | 0, _ => none
  | n + 1, current =>
    match getNextCfgSection src current with
    | none => none
    | some item => if takes item then some item else nextTaken src takes n (some item)

/-- The number of an element. -/
def elementNumber (src : List UInt8) : Nat := (vleToDword (src.drop (vleToDword src).2)).1

/-- `diva_get_bs`: the bytes of a binary string, from its length on. -/
def getBs (src : List UInt8) : List UInt8 :=
  let (length, offset) := vleToDword src
  (src.drop offset).take length

/-- The bytes of an element that is a binary string. -/
def elementBytes (src : List UInt8) : List UInt8 := getBs (src.drop (vleToDword src).2)

/-! ## The sections -/

/-- A kind of section: the element that makes it one, and those it must have. -/
structure CfgSection where
  type : Nat
  required : List Nat
  deriving DecidableEq

def sections : List CfgSection :=
  [⟨Vie.pcInitname, [Vie.pcInitValue]⟩,
    ⟨Vie.ramInitOffset, [Vie.ramInitValue, Vie.ramInitOperation]⟩,
    ⟨Vie.namedVarName, [Vie.namedVarValue]⟩,
    ⟨Vie.imageType, [Vie.imageName]⟩,
    ⟨Vie.bindingDirection, [Vie.bindingEnable]⟩]

def ramInitOperationWrite : Nat := 1

def identifySection (id : Nat) : Option CfgSection := sections.find? (·.type == id)

/-- `diva_cfg_get_section_type`. -/
def getSectionType (src : List UInt8) : Nat :=
  match sections.find? (fun s => (getSectionElement src s.type).isSome) with
  | some s => s.type
  | none => Vie.notDefined

end Divas.Cfg
