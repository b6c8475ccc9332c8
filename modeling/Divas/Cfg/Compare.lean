/-
  Divas.Cfg.Compare — whether a section has changed (diva_cfg_lib.c).

  For each section of a new instance `diva_cfg_compare` finds the section of the old one
  with the same identity, and then compares the two. `find` and `cmp` of the four types that
  have them are here as the source has them; bindings are always written. A pointer is its
  address with the bytes that are stored from it on.
-/

import Divas.Cfg.Storage

namespace Divas.Cfg

structure Ptr where
  addr : Nat
  bytes : List UInt8
  deriving DecidableEq

namespace Ptr

def at_ (p : Ptr) (offset : Nat) : Ptr := ⟨p.addr + offset, p.bytes.drop offset⟩

/-- `diva_cfg_get_section_element`. -/
def element (src : Ptr) (requiredId : Nat) : Option Ptr := (getSectionElement src.bytes requiredId).map src.at_

/-- The number of the element. -/
def number (element : Ptr) : Nat := elementNumber element.bytes

/-- The length of the binary string of the element. -/
def bsLength (element : Ptr) : Nat := elementNumber element.bytes

def bs (element : Ptr) : List UInt8 := elementBytes element.bytes

/-- The same length, and `memcmp` finds no difference. -/
def sameBs (p q : Ptr) : Bool := p.bsLength = q.bsLength && p.bs = q.bs

/-- The parameter line, or 0. -/
def cfgLine (src : Ptr) : Nat :=
  match src.element Vie.parameterLine with
  | some line => line.number
  | none => 0

end Ptr

/-! ## Find -/

/-- The first section of the instance that is taken. -/
def findFirst (inst : Ptr) (takes : Ptr → Bool) : Option Ptr :=
  (nextTaken inst.bytes (fun item => takes (inst.at_ item)) (inst.bytes.length + 1) none).map inst.at_

def findPcinitSection (ref inst : Ptr) : Option Ptr :=
  match ref.element Vie.pcInitname with
  | none => none
  | some name =>
    findFirst inst fun sec =>
      sec.cfgLine = ref.cfgLine &&
        match sec.element Vie.pcInitname with
        | none => false
        | some orgName => orgName.number = name.number

/-- Whether two operations are compatible: two writes, or two operations on the same bits. -/
def sameRamOperation (ref sec refOperation orgOperation : Ptr) : Bool :=
  if refOperation.number = ramInitOperationWrite ∨ orgOperation.number = ramInitOperationWrite then
    refOperation.number = orgOperation.number
  else
    match ref.element Vie.ramInitValue, sec.element Vie.ramInitValue with
    | some refValue, some orgValue => refValue.sameBs orgValue
    | _, _ => false

def findRamSection (ref inst : Ptr) : Option Ptr :=
  match ref.element Vie.ramInitOffset with
  | none => none
  | some refOffset =>
    match ref.element Vie.ramInitOperation with
    | none => none
    | some refOperation =>
      findFirst inst fun sec =>
        match sec.element Vie.ramInitOffset with
        | none => false
        | some orgOffset =>
          orgOffset.number = refOffset.number && sec.cfgLine = ref.cfgLine &&
            match sec.element Vie.ramInitOperation with
            | none => false
            | some orgOperation => sameRamOperation ref sec refOperation orgOperation

def findVarSection (ref inst : Ptr) : Option Ptr :=
  match ref.element Vie.namedVarName with
  | none => none
  | some refName =>
    findFirst inst fun sec =>
      match sec.element Vie.namedVarName with
      | none => false
      | some orgName => refName.sameBs orgName

/-- Neither has the optional binary string, or both have the same. -/
def sameOptionalBs (new org : Option Ptr) : Bool :=
  match new, org with
  | none, none => true
  | some new, some org => new.sameBs org
  | _, _ => false

def findImageSection (new inst : Ptr) : Option Ptr :=
  match new.element Vie.imageType with
  | none => none
  | some newType =>
    match new.element Vie.imageName with
    | none => none
    | some newName =>
      findFirst inst fun sec =>
        match sec.element Vie.imageType with
        | none => false
        | some orgType =>
          orgType.number = newType.number &&
            match sec.element Vie.imageName with
            | none => false
            | some orgName =>
              orgName.sameBs newName && sameOptionalBs (new.element Vie.imageArchive) (sec.element Vie.imageArchive)

/-! ## Compare -/

def cmpPcinitSection (new org : Ptr) : Int :=
  match new.element Vie.pcInitValue, org.element Vie.pcInitValue with
  | some newValue, some orgValue => if org.cfgLine = new.cfgLine then (if newValue.sameBs orgValue then 0 else 1) else 1
  | _, _ => 1

/-- The parameter lines that are compared are the pointers to them. -/
def cmpRamSection (new org : Ptr) : Int :=
  let newCfgLine := new.element Vie.parameterLine
  let orgCfgLine := org.element Vie.parameterLine
  match new.element Vie.ramInitValue, org.element Vie.ramInitValue,
      new.element Vie.ramInitOperation, org.element Vie.ramInitOperation with
  | some newValue, some orgValue, some newOperation, some orgOperation =>
    if orgCfgLine.map Ptr.addr = newCfgLine.map Ptr.addr then
      if orgOperation.number = newOperation.number ∧ newValue.sameBs orgValue then 0 else 1
    else 1
  | _, _, _, _ => 1

def cmpVarSection (new org : Ptr) : Int :=
  match new.element Vie.namedVarValue, org.element Vie.namedVarValue with
  | some newValue, some orgValue => if newValue.sameBs orgValue then 0 else 1
  | _, _ => 1

def cmpImageSection (new org : Ptr) : Int :=
  match new.element Vie.imageType, org.element Vie.imageType with
  | some newType, some orgType =>
    if orgType.number ≠ newType.number then 1
    else
      match new.element Vie.imageName, org.element Vie.imageName with
      | some newName, some orgName =>
        if !newName.sameBs orgName then 1
        else if [Vie.imageArchive, Vie.imageData].all fun id => sameOptionalBs (new.element id) (org.element id) then 0
        else 1
      | _, _ => -1
  | _, _ => -1

/-! ## The types that are compared -/

inductive SectionType where
  | pcinit
  | ram
  | var
  | image
  deriving DecidableEq

namespace SectionType

/-- The element that makes a section one of this type. -/
def id : SectionType → Nat
  | pcinit => Vie.pcInitname
  | ram => Vie.ramInitOffset
  | var => Vie.namedVarName
  | image => Vie.imageType

/-- `find` of the type. -/
def find : SectionType → Ptr → Ptr → Option Ptr
  | pcinit => findPcinitSection
  | ram => findRamSection
  | var => findVarSection
  | image => findImageSection

/-- `cmp` of the type. -/
def cmp : SectionType → Ptr → Ptr → Int
  | pcinit => cmpPcinitSection
  | ram => cmpRamSection
  | var => cmpVarSection
  | image => cmpImageSection

end SectionType

end Divas.Cfg
