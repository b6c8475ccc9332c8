/-
  Divas.Cfg.SectionBounds — where the walkers of a section read (diva_cfg_lib.c).

  `diva_cfg_get_section_element` and `diva_cfg_get_next_cfg_section` have the same loop:
  they look at the id of the element, return the element or skip it by the function of
  its type, and count down what is left of the content. The skip functions add the
  lengths as dwords. `Turn` is one turn of the loop, `Reached` the turns of a call.

  Proved: every turn reads an element that begins in the content and takes a part of what
  is left, so a call ends, and it returns a pointer into the content; the elements it
  skips end within the content exactly when the length of none of them exceeds a dword
  (`sections_inside`).
-/

import Divas.Cfg.Storage
import Divas.Cfg.VleCoding

namespace Divas.Cfg

/-! ## The loop -/

/-- The loop before a turn: the element, and what is left of the content. -/
structure Reading where
  offset : Nat
  maxLength : Nat
  skipCurrent : Bool
  deriving DecidableEq

inductive Turn where
  | stop (result : Option Nat)
  | next (r : Reading)

/-- The body of the loop. `stops` says which element is returned. -/
def turn (stops : Nat → Bool → Bool) (src : List UInt8) (r : Reading) : Turn :=
  if r.maxLength = 0 then .stop none
  else
    let (id, _) := vleToDword (src.drop r.offset)
    if stops id r.skipCurrent then .stop (some r.offset)
    else
      match findTagFromId id with
      | none => .stop none
      | some tag =>
        let used := tag.skip (src.drop r.offset) r.maxLength
        if used = 0 then .stop none else .next ⟨r.offset + used, r.maxLength - used, false⟩

def turns (stops : Nat → Bool → Bool) (src : List UInt8) : Nat → Reading → Option Nat
  | 0, _ => none
  | n + 1, r =>
    match turn stops src r with
    | .stop result => result
    | .next r => turns stops src n r

/-- The element that `diva_cfg_get_section_element` returns. -/
def requiredElement (requiredId id : Nat) (_ : Bool) : Bool := id = requiredId

/-- The element that `diva_cfg_get_next_cfg_section` returns. -/
def nextTlieElement (id : Nat) (skipCurrent : Bool) : Bool := id = Vie.tlie ∧ skipCurrent = false

variable {src : List UInt8} {stops : Nat → Bool → Bool} {start r r' : Reading} {tag : VieTag}

theorem sectionElementLoop_turns (src : List UInt8) (requiredId n : Nat) (r : Reading) :
    sectionElementLoop requiredId n (src.drop r.offset) r.offset r.maxLength = turns (requiredElement requiredId) src n r := by
  induction n generalizing r with
  | zero => rfl
  | succ n ih =>
    unfold sectionElementLoop turns turn requiredElement
    by_cases h0 : r.maxLength = 0
    · simp [h0]
    · simp only [h0, if_false, decide_eq_true_eq]
      split
      · rfl
      · cases findTagFromId (vleToDword (src.drop r.offset)).1 with
        | none => rfl
        | some tag =>
          by_cases hused : tag.skip (src.drop r.offset) r.maxLength = 0
          · simp [hused]
          · simp only [hused, if_false, List.drop_drop]
            exact ih ⟨r.offset + tag.skip (src.drop r.offset) r.maxLength, _, false⟩

theorem nextSectionLoop_turns (src : List UInt8) (n : Nat) (r : Reading) :
    nextSectionLoop n (src.drop r.offset) r.offset r.maxLength r.skipCurrent = turns nextTlieElement src n r := by
  induction n generalizing r with
  | zero => rfl
  | succ n ih =>
    unfold nextSectionLoop turns turn nextTlieElement
    by_cases h0 : r.maxLength = 0
    · simp [h0]
    · simp only [h0, if_false, decide_eq_true_eq]
      split
      · rfl
      · cases findTagFromId (vleToDword (src.drop r.offset)).1 with
        | none => rfl
        | some tag =>
          by_cases hused : tag.skip (src.drop r.offset) r.maxLength = 0
          · simp [hused]
          · simp only [hused, if_false, List.drop_drop]
            exact ih ⟨r.offset + tag.skip (src.drop r.offset) r.maxLength, _, false⟩

/-! ## The skip functions -/

/-- What the number of an element stands for. -/
def VieTag.payload (tag : VieTag) (value : Nat) : Nat :=
  match tag.form with
  | .vle => 0
  | _ => value

/-- The id, the number and the bytes that it stands for. -/
def VieTag.extent (tag : VieTag) (src : List UInt8) : Nat :=
  let (_, idUsed) := vleToDword src
  let (value, used) := vleToDword (src.drop idUsed)
  idUsed + tag.payload value + used

theorem VieTag.skip_eq (tag : VieTag) : tag.skip = skipElement tag.payload := by
  obtain ⟨name, id, attributeName, form⟩ := tag
  cases form <;> rfl

/-- An element is skipped by its length, counted as a dword. -/
theorem VieTag.skip_of (tag : VieTag) (src : List UInt8) (maxLength : Nat) :
    tag.skip src maxLength
      = if (vleToDword src).2 = 0 ∨ maxLength ≤ (vleToDword src).2 ∨ (vleToDword (src.drop (vleToDword src).2)).2 = 0
          ∨ maxLength < tag.extent src % 2 ^ 32 then 0
        else tag.extent src % 2 ^ 32 := by
  rw [VieTag.skip_eq]
  unfold skipElement VieTag.extent
  simp only
  by_cases hid : (vleToDword src).2 = 0 ∨ maxLength ≤ (vleToDword src).2
  · rw [if_pos hid, if_pos (by tauto)]
  · rw [if_neg hid]
    congr 1
    rw [eq_iff_iff]
    tauto

/-! ## The elements of a section -/

/-- The element of a reading is not the one that is looked for, its type is known, and its
    number is there. -/
structure Stored (stops : Nat → Bool → Bool) (src : List UInt8) (r : Reading) (tag : VieTag) : Prop where
  skipped : stops (vleToDword (src.drop r.offset)).1 r.skipCurrent = false
  known : findTagFromId (vleToDword (src.drop r.offset)).1 = some tag
  room : (vleToDword (src.drop r.offset)).2 < r.maxLength
  number : (vleToDword ((src.drop r.offset).drop (vleToDword (src.drop r.offset)).2)).2 ≠ 0

/-- The elements that follow each other in the content, by their lengths. -/
inductive Element (stops : Nat → Bool → Bool) (src : List UInt8) (start : Reading) : Reading → Prop
  | first : Element stops src start start
  | next {r : Reading} {tag : VieTag} : Element stops src start r → Stored stops src r tag →
      tag.extent (src.drop r.offset) ≤ r.maxLength →
      Element stops src start
        ⟨r.offset + tag.extent (src.drop r.offset), r.maxLength - tag.extent (src.drop r.offset), false⟩

/-- No element is so long that its length, counted as a dword, is a part of what is left. -/
def Fits (stops : Nat → Bool → Bool) (src : List UInt8) (start : Reading) : Prop :=
  ∀ r tag, Element stops src start r → Stored stops src r tag → 2 ^ 32 ≤ tag.extent (src.drop r.offset) →
    tag.extent (src.drop r.offset) % 2 ^ 32 = 0 ∨ r.maxLength < tag.extent (src.drop r.offset) % 2 ^ 32

theorem findTagFromId_zero : findTagFromId 0 = none := by decide

/-- The id of a known element is there. -/
theorem known_idUsed {bs : List UInt8} (h : findTagFromId (vleToDword bs).1 = some tag) : 0 < (vleToDword bs).2 := by
  have hne : bs ≠ [] := by
    intro hnil
    rw [hnil] at h
    rw [show (vleToDword []).1 = 0 from rfl, findTagFromId_zero] at h
    cases h
  exact vleToDwordLoop_pos hne 0

theorem VieTag.extent_pos {bs : List UInt8} (h : findTagFromId (vleToDword bs).1 = some tag) : 0 < tag.extent bs := by
  have hid := known_idUsed h
  unfold VieTag.extent
  simp only
  omega

theorem Stored.skip_eq (h : Stored stops src r tag) :
    tag.skip (src.drop r.offset) r.maxLength
      = if r.maxLength < tag.extent (src.drop r.offset) % 2 ^ 32 then 0 else tag.extent (src.drop r.offset) % 2 ^ 32 := by
  have hid := known_idUsed h.known
  have hroom := h.room
  rw [VieTag.skip_of]
  congr 1
  rw [eq_iff_iff]
  constructor
  · rintro (h0 | h0 | h0 | h0)
    · omega
    · omega
    · exact absurd h0 h.number
    · exact h0
  · intro h0
    exact .inr (.inr (.inr h0))

/-- What the skip function accepts is stored, and is skipped by its length as a dword. -/
theorem Stored.of_skip (hs : stops (vleToDword (src.drop r.offset)).1 r.skipCurrent = false)
    (hk : findTagFromId (vleToDword (src.drop r.offset)).1 = some tag)
    (hskip : tag.skip (src.drop r.offset) r.maxLength ≠ 0) : Stored stops src r tag := by
  rw [VieTag.skip_of] at hskip
  split at hskip
  · exact absurd rfl hskip
  · rename_i h
    push Not at h
    exact ⟨hs, hk, h.2.1, h.2.2.1⟩

/-! ## A turn -/

theorem turn_zero (h : r.maxLength = 0) : turn stops src r = .stop none := by
  unfold turn
  rw [if_pos h]

theorem turn_next : turn stops src r = .next r' ↔
    ∃ tag, Stored stops src r tag ∧ tag.extent (src.drop r.offset) % 2 ^ 32 ≠ 0
      ∧ tag.extent (src.drop r.offset) % 2 ^ 32 ≤ r.maxLength
      ∧ r' = ⟨r.offset + tag.extent (src.drop r.offset) % 2 ^ 32,
          r.maxLength - tag.extent (src.drop r.offset) % 2 ^ 32, false⟩ := by
  constructor
  · intro h
    unfold turn at h
    split at h
    · cases h
    · simp only at h
      split at h
      · cases h
      · rename_i hs
        cases hk : findTagFromId (vleToDword (src.drop r.offset)).1 with
        | none => simp [hk] at h
        | some tag =>
          simp only [hk] at h
          split at h
          · cases h
          · rename_i hskip
            have hst := Stored.of_skip (by simpa using hs) hk hskip
            rw [hst.skip_eq] at h hskip
            split at hskip
            · exact absurd rfl hskip
            · rename_i hle
              rw [if_neg hle] at h
              exact ⟨tag, hst, hskip, by omega, (Turn.next.inj h).symm⟩
  · intro ⟨tag, hst, hpos, hle, hr'⟩
    have hroom := hst.room
    have hskip := hst.skip_eq
    rw [if_neg (by omega)] at hskip
    unfold turn
    rw [if_neg (by omega)]
    simp only [hst.skipped, hst.known, hskip, hpos, if_false, hr', Bool.false_eq_true]

theorem turn_smaller (h : turn stops src r = .next r') : r'.maxLength < r.maxLength := by
  obtain ⟨tag, -, hpos, hle, rfl⟩ := turn_next.mp h
  simp only
  omega

/-- What is returned is the element that was looked at. -/
theorem turn_stop {p : Nat} (h : turn stops src r = .stop (some p)) : p = r.offset ∧ r.maxLength ≠ 0 := by
  unfold turn at h
  split at h
  · cases h
  · rename_i hleft
    simp only at h
    split at h
    · simp only [Turn.stop.injEq, Option.some.injEq] at h
      exact ⟨h.symm, hleft⟩
    · cases hk : findTagFromId (vleToDword (src.drop r.offset)).1 with
      | none => simp [hk] at h
      | some tag =>
        simp only [hk] at h
        split at h
        · cases h
        · cases h

/-! ## A call -/

/-- The turns of a call. -/
inductive Reached (stops : Nat → Bool → Bool) (src : List UInt8) (start : Reading) : Reading → Prop
  | first : Reached stops src start start
  | next {r r' : Reading} : Reached stops src start r → turn stops src r = .next r' → Reached stops src start r'

theorem Reached.head (h : turn stops src start = .next r) (hr : Reached stops src r r') :
    Reached stops src start r' := by
  induction hr with
  | first => exact .next .first h
  | next _ ht ih => exact .next ih ht

/-- A call ends, after at most as many turns as there are bytes left. -/
theorem turns_ends (stops : Nat → Bool → Bool) (src : List UInt8) {k : Nat} (h : r.maxLength ≤ k) :
    ∃ r', Reached stops src r r' ∧ turn stops src r' = .stop (turns stops src k r) := by
  induction k generalizing r with
  | zero => exact ⟨r, .first, turn_zero (by omega)⟩
  | succ k ih =>
    unfold turns
    cases ht : turn stops src r with
    | stop result => exact ⟨r, .first, ht⟩
    | next s =>
      have hless := turn_smaller ht
      obtain ⟨r', hr', hstop⟩ := ih (r := s) (by omega)
      exact ⟨r', hr'.head ht, hstop⟩

/-- A reading in a content of `n` bytes from `header` on. -/
structure InContent (header n : Nat) (r : Reading) : Prop where
  start : header ≤ r.offset
  rest : r.offset + r.maxLength = header + n

variable {header n : Nat}

theorem turn_inContent (h : InContent header n r) (ht : turn stops src r = .next r') : InContent header n r' := by
  obtain ⟨tag, -, -, hle, rfl⟩ := turn_next.mp ht
  have hstart := h.start
  have hrest := h.rest
  exact ⟨by simp only; omega, by simp only; omega⟩

theorem Reached.inContent (h : InContent header n start) (hr : Reached stops src start r) : InContent header n r := by
  induction hr with
  | first => exact h
  | next _ ht ih => exact turn_inContent ih ht

/-- What a call does in a content of `n` bytes from `header` on. -/
structure Walk (stops : Nat → Bool → Bool) (src : List UInt8) (header n : Nat) (start : Reading)
    (result : Option Nat) : Prop where
  ends : ∃ r, Reached stops src start r ∧ turn stops src r = .stop result
  starts : ∀ r, Reached stops src start r → r.maxLength ≠ 0 → header ≤ r.offset ∧ r.offset < header + n
  pointer : ∀ p, result = some p → header ≤ p ∧ p < header + n
  accepted : ∀ r tag, Reached stops src start r → findTagFromId (vleToDword (src.drop r.offset)).1 = some tag →
    stops (vleToDword (src.drop r.offset)).1 r.skipCurrent = false → tag.skip (src.drop r.offset) r.maxLength ≠ 0 →
    r.offset + tag.extent (src.drop r.offset) ≤ header + n

/-- The elements are read one after the other. -/
theorem Element.reached (hn : n < 2 ^ 32) (h : InContent header n start) (he : Element stops src start r) :
    Reached stops src start r := by
  induction he with
  | first => exact .first
  | next he hst hle ih =>
    have hin := ih.inContent h
    have hstart := hin.start
    have hrest := hin.rest
    have hpos := VieTag.extent_pos hst.known
    refine .next ih (turn_next.mpr ⟨_, hst, ?_⟩)
    rw [Nat.mod_eq_of_lt (by omega)]
    exact ⟨by omega, hle, rfl⟩

/-- While the lengths fit, only elements are read. -/
theorem Fits.element (hfit : Fits stops src start) (hr : Reached stops src start r) : Element stops src start r := by
  induction hr with
  | first => exact .first
  | @next r _ hr ht ih =>
    obtain ⟨tag, hst, hpos, hle, rfl⟩ := turn_next.mp ht
    have hlt : tag.extent (src.drop r.offset) < 2 ^ 32 := by
      by_contra hlong
      rcases hfit _ _ ih hst (by omega) with h0 | h0
      · exact hpos h0
      · omega
    rw [Nat.mod_eq_of_lt hlt] at hle ⊢
    exact ih.next hst hle

theorem walk_iff (stops : Nat → Bool → Bool) (src : List UInt8) {k : Nat} (hn : n < 2 ^ 32) (h : InContent header n start)
    (hk : start.maxLength ≤ k) :
    Walk stops src header n start (turns stops src k start) ↔ Fits stops src start := by
  constructor
  · intro hw r tag he hst hlong
    by_contra hfit
    push Not at hfit
    have hskip : tag.skip (src.drop r.offset) r.maxLength ≠ 0 := by
      rw [hst.skip_eq, if_neg (by omega)]
      exact hfit.1
    have hreach := he.reached hn h
    have hin := hreach.inContent h
    have hend := hw.accepted r tag hreach hst.known hst.skipped hskip
    have hstart := hin.start
    omega
  · intro hfit
    refine ⟨turns_ends stops src hk, ?_, ?_, ?_⟩
    · intro r hr hleft
      have hin := hr.inContent h
      exact ⟨hin.start, by have := hin.rest; omega⟩
    · intro p hp
      obtain ⟨r, hr, hstop⟩ := turns_ends stops src hk
      rw [hp] at hstop
      obtain ⟨rfl, hleft⟩ := turn_stop hstop
      have hin := hr.inContent h
      exact ⟨hin.start, by have := hin.rest; omega⟩
    · intro r tag hr hknown hs hskip
      have hst := Stored.of_skip hs hknown hskip
      have hrest := (hr.inContent h).rest
      rw [hst.skip_eq] at hskip
      split at hskip
      · exact absurd rfl hskip
      · rename_i hle
        have hlt : tag.extent (src.drop r.offset) < 2 ^ 32 := by
          by_contra hlong
          rcases hfit r tag (hfit.element hr) hst (by omega) with h0 | h0
          · exact hskip h0
          · exact hle h0
        rw [Nat.mod_eq_of_lt hlt] at hle
        omega

/-! ## The walkers -/

/-- The length of the header of a tlie. -/
def sectionHeader (src : List UInt8) : Nat := (vleToDword src).2 + (vleToDword (src.drop (vleToDword src).2)).2

/-- Where `diva_cfg_get_section_element` begins. -/
def elementStart (src : List UInt8) : Option Reading :=
  (tlieContent src).map fun content => ⟨content.1, content.2, false⟩

/-- Where `diva_cfg_get_next_cfg_section` begins. -/
def sectionStart (src : List UInt8) (currentSection : Option Nat) : Option Reading :=
  match tlieContent src, currentSection with
  | none, _ => none
  | some (header, maxLength), none => some ⟨header, maxLength, false⟩
  | some (header, maxLength), some current =>
    if header + maxLength ≤ current ∨ current < header then none
    else some ⟨current, maxLength - (current - header), true⟩

/-- A call that begins at `start`, if it reads at all. -/
def Inside (stops : Nat → Bool → Bool) (src : List UInt8) (start : Option Reading) (result : Option Nat) : Prop :=
  match start with
  | none => result = none
  | some r => Walk stops src (sectionHeader src) (elementNumber src) r result

/-- The content of a section has a length that fits. -/
def SectionFits (stops : Nat → Bool → Bool) (src : List UInt8) (start : Option Reading) : Prop :=
  ∀ r, start = some r → Fits stops src r

/-- A number is a dword. -/
theorem vleToDwordLoop_dword (bs : List UInt8) {i v : Nat} (hv : v < 2 ^ 32) : (vleToDwordLoop bs i v).1 < 2 ^ 32 := by
  induction bs generalizing i v with
  | nil => exact hv
  | cons b bs ih =>
    have hnext : v ||| (b.toNat &&& 0x7f) <<< (i * 7) % 2 ^ 32 < 2 ^ 32 :=
      Nat.or_lt_two_pow hv (Nat.mod_lt _ (by decide))
    unfold vleToDwordLoop
    dsimp only
    split
    · exact ih hnext
    · exact hnext

theorem tlieContent_some {m : Nat} (h : tlieContent src = some (header, m)) :
    header = sectionHeader src ∧ m = elementNumber src ∧ m < 2 ^ 32 := by
  unfold tlieContent at h
  simp only at h
  split at h
  · cases h
  · split at h
    · cases h
    · simp only [Option.some.injEq, Prod.mk.injEq] at h
      obtain ⟨rfl, rfl⟩ := h
      exact ⟨rfl, rfl, vleToDwordLoop_dword _ (by decide)⟩

theorem getSectionElement_inside (src : List UInt8) (requiredId : Nat) :
    Inside (requiredElement requiredId) src (elementStart src) (getSectionElement src requiredId)
      ↔ SectionFits (requiredElement requiredId) src (elementStart src) := by
  unfold getSectionElement elementStart SectionFits
  cases hc : tlieContent src with
  | none => simp [Inside]
  | some content =>
    obtain ⟨header, m⟩ := content
    obtain ⟨rfl, rfl, hlt⟩ := tlieContent_some hc
    have hloop := sectionElementLoop_turns src requiredId (elementNumber src) ⟨sectionHeader src, elementNumber src, false⟩
    have hin : InContent (sectionHeader src) (elementNumber src) ⟨sectionHeader src, elementNumber src, false⟩ :=
      ⟨le_refl _, rfl⟩
    have hwalk := walk_iff (requiredElement requiredId) src hlt hin (le_refl _)
    simp only at hloop
    simp only [hloop, Option.map_some, Option.some.injEq, forall_eq', Inside]
    exact hwalk

theorem getNextCfgSection_inside (src : List UInt8) (current : Option Nat) :
    Inside nextTlieElement src (sectionStart src current) (getNextCfgSection src current)
      ↔ SectionFits nextTlieElement src (sectionStart src current) := by
  unfold getNextCfgSection sectionStart SectionFits
  cases hc : tlieContent src with
  | none => simp [Inside]
  | some content =>
    obtain ⟨header, m⟩ := content
    obtain ⟨rfl, rfl, hlt⟩ := tlieContent_some hc
    cases current with
    | none =>
      have hloop := nextSectionLoop_turns src (elementNumber src) ⟨sectionHeader src, elementNumber src, false⟩
      have hin : InContent (sectionHeader src) (elementNumber src) ⟨sectionHeader src, elementNumber src, false⟩ :=
        ⟨le_refl _, rfl⟩
      have hwalk := walk_iff nextTlieElement src hlt hin (le_refl _)
      simp only at hloop
      simp only [hloop, Option.some.injEq, forall_eq', Inside]
      exact hwalk
    | some current =>
      by_cases hout : sectionHeader src + elementNumber src ≤ current ∨ current < sectionHeader src
      · simp [hout, Inside]
      · have hloop := nextSectionLoop_turns src (elementNumber src)
          ⟨current, elementNumber src - (current - sectionHeader src), true⟩
        have hin : InContent (sectionHeader src) (elementNumber src)
            ⟨current, elementNumber src - (current - sectionHeader src), true⟩ := ⟨by simp only; omega, by simp only; omega⟩
        have hwalk := walk_iff nextTlieElement src hlt hin (Nat.sub_le _ _)
        simp only at hloop
        simp only [hout, if_false, hloop, Option.some.injEq, forall_eq', Inside]
        exact hwalk

end Divas.Cfg
