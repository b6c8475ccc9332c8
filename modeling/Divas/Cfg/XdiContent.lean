/-
  Divas.Cfg.XdiContent — what the translation of an instance is to contain.

  The loops of the translation see the sections of the instance through pointers. Here is
  what they read there, in terms of the content: which sections are items
  (`items_encode`), what a RAM section does to the shared memory, and the PCINIT list.

  The PCINIT list has its numbers in bytes: a line and a type lose what is above, and the
  data what its length byte does not count. A type from 0x80 on has no data. Type 0 ends the
  list and PCINIT_CFG_LINE_NUMBER changes the line, so neither is an entry
  (`decodePcinit_encode`).
-/

import Divas.Cfg.Xdi
import Divas.Cfg.Tree

namespace Divas.Cfg

open Divas.Lib
open Divas.Lib.Bytes (Mem store load)

/-! ## Sections -/

namespace Elems

/-- The type of the section with this content. -/
def sectionType (c : Elems) : Nat :=
  match sections.find? (fun s => (c.find s.type).isSome) with
  | some s => s.type
  | none => Vie.notDefined

/-- The section is no binding. -/
def IsItem (c : Elems) : Prop := c.sectionType ≠ Vie.bindingDirection ∧ c.sectionType ≠ Vie.notDefined

instance (c : Elems) : Decidable c.IsItem := inferInstanceAs (Decidable (_ ∧ _))

/-- The section is copied. -/
def IsCopied (c : Elems) : Prop := c.sectionType ≠ Vie.pcInitname ∧ c.sectionType ≠ Vie.ramInitOffset

instance (c : Elems) : Decidable c.IsCopied := inferInstanceAs (Decidable (_ ∧ _))

/-- The places of the items. -/
def itemPlaces : Elems → List Elems
  | nil => []
  | vle _ _ rest => rest.itemPlaces
  | bs _ _ rest => rest.itemPlaces
  | tlie content rest => if content.IsItem then tlie content rest :: rest.itemPlaces else rest.itemPlaces

/-- The contents of the items. -/
def itemContents : Elems → List Elems
  | nil => []
  | vle _ _ rest => rest.itemContents
  | bs _ _ rest => rest.itemContents
  | tlie content rest => if content.IsItem then content :: rest.itemContents else rest.itemContents

theorem itemPlaces_none {es : Elems} (h : es.findTlie IsItem = none) : es.itemPlaces = [] := by
  induction es with
  | nil => rfl
  | vle id value rest ih => exact ih h
  | bs id data rest ih => exact ih h
  | tlie content rest _ ih =>
    rw [findTlie] at h
    split at h
    · cases h
    · rename_i hno
      rw [itemPlaces, if_neg hno]
      exact ih h

theorem itemPlaces_some {es fs : Elems} (h : es.findTlie IsItem = some fs) : es.itemPlaces = fs :: fs.tail.itemPlaces := by
  induction es with
  | nil => cases h
  | vle id value rest ih => exact ih h
  | bs id data rest ih => exact ih h
  | tlie content rest _ ih =>
    rw [findTlie] at h
    split at h
    · rename_i hc
      cases h
      rw [itemPlaces, if_pos hc]
      rfl
    · rename_i hno
      rw [itemPlaces, if_neg hno]
      exact ih h

end Elems

theorem getSectionType_encode (t : Tlie) (behind : List UInt8) :
    getSectionType (t.encode ++ behind) = t.content.sectionType := by
  have hfind : (fun s : CfgSection => (getSectionElement (t.encode ++ behind) s.type).isSome)
      = fun s => (t.content.find s.type).isSome := by
    funext s
    rw [Tlie.getSectionElement_encode, Option.isSome_map]
  unfold getSectionType
  rw [hfind]
  rfl

namespace Tlie

variable {t : Tlie} (behind : List UInt8)

/-- A section, from its pointer on. -/
theorem encode_sub {content rest : Elems} (h : (Elems.tlie content rest).Place t.content) :
    (Elems.tlie content rest).encode ++ behind = (t.sub h).encode ++ (rest.encode ++ behind) := by
  simp [encode, sub, Elems.encode]

theorem getNextItem_eq {es : Elems} (hes : es.Place t.content) {current : Option Nat}
    (hnext : getNextCfgSection (t.encode ++ behind) current = es.nextTlie.map t.offset) :
    getNextChannelConfigurationItem (t.encode ++ behind) current = (es.findTlie Elems.IsItem).map t.offset := by
  have hle := length_le_of_place hes
  have hlen := t.encode_length
  have hlen' : (t.encode ++ behind).length = t.encode.length + behind.length := List.length_append
  unfold getNextChannelConfigurationItem
  refine nextTaken_eq ?_ hes (by omega) hnext
  intro content rest h
  rw [drop_offset h, encode_sub behind h, getSectionType_encode]
  dsimp only
  rw [Bool.and_eq_true, decide_eq_true_eq, decide_eq_true_eq]
  rfl

theorem itemsLoop_eq {es : Elems} (hes : es.Place t.content) {n : Nat} (hn : es.encode.length < n) {current : Option Nat}
    (hnext : getNextCfgSection (t.encode ++ behind) current = es.nextTlie.map t.offset) :
    itemsLoop (t.encode ++ behind) n current = es.itemPlaces.map t.offset := by
  induction n generalizing es current with
  | zero => omega
  | succ n ih =>
    rw [itemsLoop, getNextItem_eq behind hes hnext]
    rcases hf : es.findTlie Elems.IsItem with - | fs
    · rw [Elems.itemPlaces_none hf]
      rfl
    · obtain ⟨content, rest, rfl, hplace, -⟩ := Elems.findTlie_some hf
      have hin : (Elems.tlie content rest).Place t.content := hplace.trans hes
      have hle := hplace.suffix.length_le
      have hlen := (Elems.tlie content rest).length_encode
      have hpos := Elems.length_head_pos (show Elems.tlie content rest ≠ .nil by simp)
      have hrest : rest.Place t.content := Elems.Place.trans (.tail .here) hin
      have hlen' : (Elems.tlie content rest).tail.encode.length = rest.encode.length := rfl
      rw [Elems.itemPlaces_some hf, List.map_cons]
      dsimp only [Option.map_some]
      rw [ih hrest (by omega) (t.getNextCfgSection_next hin (by simp) behind)]
      rfl

/-- The items as sections, with what lies behind them. -/
theorem items_encode (t : Tlie) (behind : List UInt8) :
    ∃ secs : List (Tlie × List UInt8), items (t.encode ++ behind) = secs.map (fun s => s.1.encode ++ s.2) ∧
      secs.map (fun s => s.1.content) = t.content.itemContents := by
  have hlen := t.encode_length
  have hlen' : (t.encode ++ behind).length = t.encode.length + behind.length := List.length_append
  have hloop : itemsLoop (t.encode ++ behind) ((t.encode ++ behind).length + 1) none = t.content.itemPlaces.map t.offset :=
    itemsLoop_eq behind .here (by omega) (t.getNextCfgSection_first behind)
  have hgo : ∀ es : Elems, es.Place t.content → ∃ secs : List (Tlie × List UInt8),
      (es.itemPlaces.map t.offset).map (fun item => (t.encode ++ behind).drop item) = secs.map (fun s => s.1.encode ++ s.2) ∧
        secs.map (fun s => s.1.content) = es.itemContents := by
    intro es hes
    induction es with
    | nil => exact ⟨[], rfl, rfl⟩
    | vle id value rest ih => exact ih (Elems.Place.trans (.tail .here) hes)
    | bs id data rest ih => exact ih (Elems.Place.trans (.tail .here) hes)
    | tlie content rest _ ih =>
      obtain ⟨secs, h1, h2⟩ := ih (Elems.Place.trans (.tail .here) hes)
      rw [Elems.itemPlaces, Elems.itemContents]
      split
      · refine ⟨(t.sub hes, rest.encode ++ behind) :: secs, ?_, ?_⟩
        · rw [List.map_cons, List.map_cons, h1, drop_offset hes, encode_sub behind hes]
          rfl
        · rw [List.map_cons, h2]
          rfl
      · exact ⟨secs, h1, h2⟩
  unfold items
  rw [hloop]
  exact hgo t.content .here

end Tlie

/-! ## The elements of a section -/

theorem elementNumber_nil : elementNumber [] = 0 := rfl

theorem elementBytes_nil : elementBytes [] = [] := rfl

theorem elementOf_number (t : Tlie) (behind : List UInt8) {k : Nat}
    (hform : (findTagFromId k).map (·.form) = some .vle) :
    elementNumber (elementOf (t.encode ++ behind) k) = (t.content.numberOf k).getD 0 := by
  unfold elementOf
  rw [t.getSectionElement_encode]
  rcases t.ok.find_number hform with ⟨hf, hn⟩ | ⟨value, rest, hf, hn, hid, hv⟩
  · rw [hf, hn]
    exact elementNumber_nil
  · have hnum := elementNumber_encode hid hv (rest.encode ++ behind)
    rw [hf, hn, Option.map_some]
    dsimp only
    rw [Tlie.drop_offset (Elems.find_place hf).1]
    simpa [Elems.encode] using hnum

theorem elementOf_bytes (t : Tlie) (behind : List UInt8) {k : Nat}
    (hform : (findTagFromId k).map (·.form) = some .bs) :
    elementBytes (elementOf (t.encode ++ behind) k) = (t.content.bytesOf k).getD [] := by
  unfold elementOf
  rw [t.getSectionElement_encode]
  rcases t.ok.find_bytes hform with ⟨hf, hn⟩ | ⟨data, rest, hf, hn, hid, hd⟩
  · rw [hf, hn]
    exact elementBytes_nil
  · have hbs := elementBytes_encode hid hd (rest.encode ++ behind)
    rw [hf, hn, Option.map_some]
    dsimp only
    rw [Tlie.drop_offset (Elems.find_place hf).1]
    simpa [Elems.encode] using hbs

namespace Elems

def ramValue (c : Elems) : List UInt8 := (c.bytesOf Vie.ramInitValue).getD []
def ramOffset (c : Elems) : Nat := (c.numberOf Vie.ramInitOffset).getD 0
def ramOperation (c : Elems) : RamInitOperation := ramInitOperation ((c.numberOf Vie.ramInitOperation).getD 0)

end Elems

theorem getRamInitValue_encode (t : Tlie) (behind : List UInt8) :
    getRamInitValue (t.encode ++ behind) = t.content.ramValue := elementOf_bytes t behind rfl

theorem getRamInitOffset_encode (t : Tlie) (behind : List UInt8) :
    getRamInitOffset (t.encode ++ behind) = t.content.ramOffset := elementOf_number t behind rfl

theorem getRamInitOperation_encode (t : Tlie) (behind : List UInt8) :
    getRamInitOperation (t.encode ++ behind) = t.content.ramOperation :=
  congrArg ramInitOperation (elementOf_number t behind rfl)

/-! ## RAM -/

/-- What a section does to the shared memory. -/
def ramApply (m : Mem) (c : Elems) : Mem :=
  if c.sectionType = Vie.ramInitOffset then
    match c.ramOperation with
    | .write => store m c.ramOffset c.ramValue
    | .setBits => fun k => if c.ramOffset ≤ k ∧ k < c.ramOffset + c.ramValue.length
      then m k ||| c.ramValue.getD (k - c.ramOffset) 0 else m k
    | .clearBits => fun k => if c.ramOffset ≤ k ∧ k < c.ramOffset + c.ramValue.length
      then m k &&& ~~~c.ramValue.getD (k - c.ramOffset) 0 else m k
    | .notDefined => m
  else m

/-- Where the RAM sections end. -/
def ramEnd (n : Nat) (c : Elems) : Nat :=
  if c.sectionType = Vie.ramInitOffset then max n (c.ramOffset + c.ramValue.length) else n

/-! ## PCINIT -/

/-- An entry of the PCINIT list. -/
structure PcinitEntry where
  line : UInt8
  type : UInt8
  data : List UInt8
  deriving DecidableEq

/-- The entry of a section, in bytes. -/
def Elems.pcinitEntry (c : Elems) : PcinitEntry where
  line := UInt8.ofNat ((c.numberOf Vie.parameterLine).getD 0)
  type := UInt8.ofNat ((c.numberOf Vie.pcInitname).getD 0)
  data :=
    let data := (c.bytesOf Vie.pcInitValue).getD []
    data.take (data.length % 256)

/-- The bytes of an entry, behind its line. -/
def PcinitEntry.bytes (e : PcinitEntry) : List UInt8 :=
  e.type :: if e.type &&& 0x80 = 0 then UInt8.ofNat e.data.length :: e.data else []

/-- The list, from a line on. `w` says that the line is written before every entry. -/
def encodePcinit : UInt8 → Bool → List PcinitEntry → List UInt8
  | _, _, [] => [0]
  | line, w, e :: es =>
    (if w || e.line != line then [pcinitCfgLineNumber, 1, e.line] else []) ++ e.bytes
      ++ encodePcinit e.line (w || e.line != line) es

/-- The entries of a list, with their lines. -/
def decodePcinit : Nat → UInt8 → List UInt8 → List PcinitEntry
  | 0, _, _ => []
  | _ + 1, _, [] => []
  | n + 1, line, type :: rest =>
    if type = 0 then []
    else if type &&& 0x80 ≠ 0 then ⟨line, type, []⟩ :: decodePcinit n line rest
    else
      let length := (rest.headD 0).toNat
      let data := rest.tail.take length
      if type = pcinitCfgLineNumber then decodePcinit n (data.headD 0) (rest.tail.drop length)
      else ⟨line, type, data⟩ :: decodePcinit n line (rest.tail.drop length)

/-- The type stands for an entry. -/
def PcinitEntry.Proper (e : PcinitEntry) : Prop := e.type ≠ 0 ∧ e.type ≠ pcinitCfgLineNumber

/-- What the list holds of an entry: a type from 0x80 on has no data. -/
def PcinitEntry.stored (e : PcinitEntry) : PcinitEntry := if e.type &&& 0x80 = 0 then e else { e with data := [] }

theorem decodePcinit_entry {e : PcinitEntry} (hp : e.Proper) (hd : e.data.length < 256) (n : Nat) (rest : List UInt8) :
    decodePcinit (n + 1) e.line (e.bytes ++ rest) = e.stored :: decodePcinit n e.line rest := by
  unfold PcinitEntry.bytes PcinitEntry.stored
  split
  · rename_i hlow
    have hlen : (UInt8.ofNat e.data.length).toNat = e.data.length := by simp; omega
    rw [List.cons_append, decodePcinit, if_neg hp.1, if_neg (not_not.mpr hlow)]
    dsimp only [List.cons_append, List.headD_cons, List.tail_cons]
    rw [if_neg hp.2, hlen, List.take_left, List.drop_left]
  · rename_i hhigh
    rw [List.cons_append, decodePcinit, if_neg hp.1, if_pos hhigh]
    rfl

theorem decodePcinit_line (n : Nat) (line line' : UInt8) (rest : List UInt8) :
    decodePcinit (n + 1) line ([pcinitCfgLineNumber, 1, line'] ++ rest) = decodePcinit n line' rest := by
  rw [List.cons_append, decodePcinit, if_neg (by decide), if_neg (by decide)]
  rfl

/-- The list is read back, entry by entry. -/
theorem decodePcinit_encode {es : List PcinitEntry} (hp : ∀ e ∈ es, e.Proper) (hd : ∀ e ∈ es, e.data.length < 256)
    (line : UInt8) (w : Bool) (behind : List UInt8) {n : Nat} (hn : 2 * es.length < n) :
    decodePcinit n line (encodePcinit line w es ++ behind) = es.map PcinitEntry.stored := by
  induction es generalizing line w n with
  | nil =>
    obtain ⟨n, rfl⟩ := Nat.exists_eq_add_of_lt hn
    rfl
  | cons e es ih =>
    have hp' : ∀ e ∈ es, e.Proper := fun e he => hp e (List.mem_cons_of_mem _ he)
    have hd' : ∀ e ∈ es, e.data.length < 256 := fun e he => hd e (List.mem_cons_of_mem _ he)
    rw [List.length_cons] at hn
    obtain ⟨n, rfl⟩ := Nat.exists_eq_add_of_le (show 2 ≤ n by omega)
    have hentry := fun k (hk : 2 * es.length < k) => by
      have h := decodePcinit_entry (hp e List.mem_cons_self) (hd e List.mem_cons_self) k
        (encodePcinit e.line (w || e.line != line) es ++ behind)
      rwa [ih hp' hd' e.line _ hk] at h
    unfold encodePcinit
    split
    · rw [List.append_assoc, List.append_assoc, show 2 + n = n + 1 + 1 by omega, decodePcinit_line, hentry n (by omega)]
      rfl
    · rename_i hw
      have hline : e.line = line := by
        simp only [Bool.or_eq_true, bne_iff_ne, not_or, not_not] at hw
        exact hw.2
      rw [List.nil_append, List.append_assoc, show 2 + n = n + 1 + 1 by omega, ← hline]
      rw [← hline] at hentry
      exact hentry (n + 1) (by omega)

end Divas.Cfg
