/-
  Divas.Capi.ParseBounds — the bytes that `api_parse` reads, and the fields that it describes.

  The fields of a message follow each other, and each one says its size (`fieldSize`).
  `Leads` goes from field to field as `api_parse` does, in 16 bits: a field whose length is
  cut off, or that ends behind the message, ends the way.

  Proved, for all messages and formats: `api_parse` reads nothing behind the message if and
  only if each string that is reached has its length in the message, and the fields of an
  accepted message lie in it one behind the other if and only if none of them ends at 2^16
  or later (`api_parse_sound`). A string behind the last byte, and an escape with one byte
  behind it, are read nevertheless, and a string of nearly 2^16 bytes is accepted
  (`api_parse_reads_on`).

  The formats are literals of the callers, shorter than the 2^16 turns that `i` can count.
-/

import Divas.Capi.Sendf

namespace Divas.Capi

open Divas.Lib.Bytes

variable (msg : Mem) (length : Nat)

/-! ## The reads -/

/-- The offsets that a turn of `api_parse` reads. -/
def apiParseReads (p : Nat) : ParseFmt → List Nat
  | .s => if msg p = 0xff then if length < p + 2 then [p] else [p, p + 1, p + 2] else [p, p]
  | _ => []

/-- The offsets that `api_parse` reads from position `p` on. -/
def apiParseTrace : Nat → List ParseFmt → List Nat
  | _, [] => []
  | p, f :: fs =>
    apiParseReads msg length p f ++
      match apiParseOne msg length p f with
      | none => []
      | some (_, p) => if length < p then [] else apiParseTrace p fs

/-! ## The fields -/

/-- The bytes of a field, its length included. -/
def fieldSize (p : Nat) : ParseFmt → Nat
  | .b => 1
  | .w => 2
  | .d => 4
  | .s => if msg p = 0xff then word msg (p + 1) + 3 else (msg p).toNat + 1
  | .r => length - p

/-- The entry of a field: of a string behind the escape its `info` is the last byte of the length. -/
def fieldParm (p : Nat) : ParseFmt → ApiParse
  | .s => if msg p = 0xff then ⟨p + 2, some (word msg (p + 1))⟩ else ⟨p, some (msg p).toNat⟩
  | .r => ⟨p, some (length - p)⟩
  | _ => ⟨p, none⟩

/-- The fields from `p` on lie in the message one behind the other, and the entries are theirs. -/
def LiesIn : Nat → List ParseFmt → List ApiParse → Prop
  | _, [], [] => True
  | p, f :: fs, parm :: parms =>
    parm = fieldParm msg length p f ∧ p + fieldSize msg length p f ≤ length ∧ LiesIn (p + fieldSize msg length p f) fs parms
  | _, _, _ => False

/-- An escape, and at most one byte of the message in front of and behind it. -/
def CutOff (p : Nat) (f : ParseFmt) : Prop := f = .s ∧ msg p = 0xff ∧ length < p + 2

/-- The end of a field as a word. -/
def fieldEnd (p : Nat) (f : ParseFmt) : Nat := (p + fieldSize msg length p f) % 65536

/-- The fields lead from `p` to `q`, each one with its end in the message. -/
def Leads : Nat → List ParseFmt → Nat → Prop
  | p, [], q => p = q
  | p, f :: fs, q => ¬ CutOff msg length p f ∧ fieldEnd msg length p f ≤ length ∧ Leads (fieldEnd msg length p f) fs q

/-- All fields that are reached from `p` on. -/
def AtFields (Q : Nat → ParseFmt → Prop) (p : Nat) (format : List ParseFmt) : Prop :=
  ∀ before f behind q, format = before ++ f :: behind → Leads msg length p before q → Q q f

/-- The length of a string is in the message, or only one byte of an escape. -/
def HasLength (p : Nat) (f : ParseFmt) : Prop := f = .s → p < length ∧ (msg p = 0xff → p + 2 ≠ length)

/-- A field does not end at 2^16 or later. -/
def NoWrap (p : Nat) (f : ParseFmt) : Prop := p + fieldSize msg length p f < 65536

/-- Nothing behind the message is read, and an accepted message consists of its fields. -/
def ParseSound (format : List ParseFmt) : Prop :=
  (∀ parms, apiParse msg length format = some parms → LiesIn msg length 0 format parms) ∧
    ∀ i ∈ apiParseTrace msg length 0 format, i < length

section Fields

variable {msg : Mem} {length : Nat} {p : Nat} {f : ParseFmt} {fs : List ParseFmt}

theorem atFields_nil {Q : Nat → ParseFmt → Prop} : AtFields msg length Q p [] := by
  intro before f behind q h
  exact absurd h.symm (List.append_ne_nil_of_right_ne_nil before (List.cons_ne_nil f behind))

theorem atFields_cons {Q : Nat → ParseFmt → Prop} : AtFields msg length Q p (f :: fs) ↔
    Q p f ∧ (¬ CutOff msg length p f → fieldEnd msg length p f ≤ length →
      AtFields msg length Q (fieldEnd msg length p f) fs) := by
  constructor
  · intro h
    refine ⟨h [] f fs p rfl rfl, ?_⟩
    intro hcut hend before g behind q hfs hleads
    refine h (f :: before) g behind q ?_ ⟨hcut, hend, hleads⟩
    rw [hfs, List.cons_append]
  · rintro ⟨hhere, hrest⟩ before g behind q hfs hleads
    cases before with
    | nil =>
      cases hfs
      cases hleads
      exact hhere
    | cons f' before =>
      cases hfs
      obtain ⟨hcut, hend, hleads⟩ := hleads
      exact hrest hcut hend before g behind q rfl hleads

/-- A turn takes the field, unless it is cut off. -/
theorem apiParseOne_eq (hp : p ≤ length) (hl : length < 65536) :
    (CutOff msg length p f ∧ apiParseOne msg length p f = none) ∨
      (¬ CutOff msg length p f ∧ apiParseOne msg length p f = some (fieldParm msg length p f, fieldEnd msg length p f)) := by
  cases f with
  | b => exact Or.inr ⟨(fun h => nomatch h.1), rfl⟩
  | w => exact Or.inr ⟨(fun h => nomatch h.1), rfl⟩
  | d => exact Or.inr ⟨(fun h => nomatch h.1), rfl⟩
  | s =>
    unfold apiParseOne fieldParm fieldEnd fieldSize
    by_cases hff : msg p = 0xff
    · by_cases hcut : length < p + 2
      · refine Or.inl ⟨⟨rfl, hff, hcut⟩, ?_⟩
        dsimp only
        rw [if_pos hff, if_pos hcut]
      · refine Or.inr ⟨fun h => hcut h.2.2, ?_⟩
        dsimp only
        rw [if_pos hff, if_neg hcut, if_pos hff, if_pos hff, Nat.add_assoc]
    · refine Or.inr ⟨fun h => hff h.2.1, ?_⟩
      dsimp only
      rw [if_neg hff, if_neg hff, if_neg hff, Nat.add_assoc]
  | r =>
    have hrest : (length + 65536 - p) % 65536 = length - p := by omega
    refine Or.inr ⟨(fun h => nomatch h.1), ?_⟩
    unfold apiParseOne fieldParm fieldEnd fieldSize
    dsimp only
    rw [hrest]

theorem reads_iff : (∀ i ∈ apiParseReads msg length p f, i < length) ↔ HasLength msg length p f := by
  unfold HasLength apiParseReads
  cases f with
  | s =>
    dsimp only
    split
    case isTrue hff =>
      split
      case isTrue hcut =>
        simp only [List.mem_singleton, forall_eq, true_implies]
        exact ⟨fun h => ⟨h, fun _ => by omega⟩, fun h => h.1⟩
      case isFalse hcut =>
        simp only [List.mem_cons, List.not_mem_nil, or_false, forall_eq_or_imp, forall_eq, true_implies]
        constructor
        · rintro ⟨h0, h1, h2⟩
          exact ⟨h0, fun _ => by omega⟩
        · rintro ⟨h0, h2⟩
          have := h2 hff
          omega
    case isFalse hff =>
      simp only [List.mem_cons, List.not_mem_nil, or_false, or_self, forall_eq, true_implies]
      exact ⟨fun h => ⟨h, fun hc => absurd hc hff⟩, fun h => h.1⟩
  | b => simp
  | w => simp
  | d => simp
  | r => simp

/-- Every byte that is read is in the message. -/
theorem trace_iff (hp : p ≤ length) (hl : length < 65536) :
    (∀ i ∈ apiParseTrace msg length p fs, i < length) ↔ AtFields msg length (HasLength msg length) p fs := by
  induction fs generalizing p with
  | nil => exact ⟨fun _ => atFields_nil, fun _ i hi => nomatch hi⟩
  | cons f fs ih =>
    rw [atFields_cons, ← reads_iff]
    unfold apiParseTrace
    simp only [List.mem_append, or_imp, forall_and]
    apply and_congr_right'
    rcases @apiParseOne_eq msg length p f hp hl with ⟨hcut, hone⟩ | ⟨hcut, hone⟩
    · rw [hone]
      exact ⟨fun _ h => absurd hcut h, fun _ i hi => nomatch hi⟩
    · rw [hone]
      dsimp only
      by_cases hend : length < fieldEnd msg length p f
      · rw [if_pos hend]
        exact ⟨fun _ _ h => absurd hend (Nat.not_lt.mpr h), fun _ i hi => nomatch hi⟩
      · rw [if_neg hend, ih (Nat.le_of_not_lt hend)]
        exact ⟨fun h _ _ => h, fun h => h hcut (Nat.le_of_not_lt hend)⟩

theorem apiParseFrom_cons (hp : p ≤ length) (hl : length < 65536) {parms : List ApiParse} :
    apiParseFrom msg length p (f :: fs) = some parms ↔
      ¬ CutOff msg length p f ∧ fieldEnd msg length p f ≤ length ∧
        ∃ rest, apiParseFrom msg length (fieldEnd msg length p f) fs = some rest ∧ parms = fieldParm msg length p f :: rest := by
  rw [apiParseFrom]
  rcases @apiParseOne_eq msg length p f hp hl with ⟨hcut, hone⟩ | ⟨hcut, hone⟩
  · rw [hone]
    exact ⟨(fun h => nomatch h), fun h => absurd hcut h.1⟩
  · rw [hone]
    dsimp only
    by_cases hend : length < fieldEnd msg length p f
    · rw [if_pos hend]
      exact ⟨(fun h => nomatch h), fun h => absurd hend (Nat.not_lt.mpr h.2.1)⟩
    · rw [if_neg hend, Option.map_eq_some_iff]
      constructor
      · rintro ⟨rest, hrest, rfl⟩
        exact ⟨hcut, Nat.le_of_not_lt hend, rest, hrest, rfl⟩
      · rintro ⟨-, -, rest, hrest, rfl⟩
        exact ⟨rest, hrest, rfl⟩

/-- A message is accepted if and only if its fields lead through it. -/
theorem accepted_iff (hp : p ≤ length) (hl : length < 65536) :
    (∃ parms, apiParseFrom msg length p fs = some parms) ↔ ∃ q, Leads msg length p fs q := by
  induction fs generalizing p with
  | nil => exact ⟨fun _ => ⟨p, rfl⟩, fun _ => ⟨[], rfl⟩⟩
  | cons f fs ih =>
    constructor
    · rintro ⟨parms, h⟩
      obtain ⟨hcut, hend, rest, hrest, -⟩ := (apiParseFrom_cons hp hl).mp h
      obtain ⟨q, hq⟩ := (ih hend).mp ⟨rest, hrest⟩
      exact ⟨q, hcut, hend, hq⟩
    · rintro ⟨q, hcut, hend, hq⟩
      obtain ⟨rest, hrest⟩ := (ih hend).mpr ⟨q, hq⟩
      exact ⟨_, (apiParseFrom_cons hp hl).mpr ⟨hcut, hend, rest, hrest, rfl⟩⟩

theorem liesIn_iff (hp : p ≤ length) (hl : length < 65536) {parms : List ApiParse}
    (h : apiParseFrom msg length p fs = some parms) :
    LiesIn msg length p fs parms ↔ AtFields msg length (NoWrap msg length) p fs := by
  induction fs generalizing p parms with
  | nil =>
    cases h
    exact ⟨fun _ => atFields_nil, fun _ => trivial⟩
  | cons f fs ih =>
    obtain ⟨hcut, hend, rest, hrest, rfl⟩ := (apiParseFrom_cons hp hl).mp h
    rw [atFields_cons]
    unfold LiesIn
    have hwrap : NoWrap msg length p f → fieldEnd msg length p f = p + fieldSize msg length p f := Nat.mod_eq_of_lt
    constructor
    · rintro ⟨-, hle, hlay⟩
      have hno : NoWrap msg length p f := Nat.lt_of_le_of_lt hle hl
      refine ⟨hno, fun _ _ => ?_⟩
      rw [← hwrap hno] at hlay
      exact (ih hend hrest).mp hlay
    · rintro ⟨hno, hfields⟩
      have hlay := (ih hend hrest).mpr (hfields hcut hend)
      rw [hwrap hno] at hlay hend
      exact ⟨rfl, hend, hlay⟩

end Fields

/-- Each string that is reached has its length in the message; and if the fields lead through
    the message, none of them ends at 2^16 or later. -/
theorem api_parse_sound (msg : Mem) (length : UInt16) (format : List ParseFmt) :
    ParseSound msg length.toNat format ↔
      AtFields msg length.toNat (HasLength msg length.toNat) 0 format ∧
        ∀ q, Leads msg length.toNat 0 format q → AtFields msg length.toNat (NoWrap msg length.toNat) 0 format := by
  have hl : length.toNat < 65536 := length.toNat_lt
  have hp : 0 ≤ length.toNat := Nat.zero_le _
  unfold ParseSound apiParse
  rw [trace_iff hp hl, and_comm]
  apply and_congr_right'
  constructor
  · intro h q hq
    obtain ⟨parms, hparms⟩ := (accepted_iff hp hl).mpr ⟨q, hq⟩
    exact (liesIn_iff hp hl hparms).mp (h parms hparms)
  · intro h parms hparms
    obtain ⟨q, hq⟩ := (accepted_iff hp hl).mp ⟨parms, hparms⟩
    exact (liesIn_iff hp hl hparms).mpr (h q hq)

/-- The bytes of a message, and others behind it. -/
def messageOf (bytes : List UInt8) : Mem := fun i => bytes.getD i 0

/-- An escape whose length is cut off by one byte; and a string of 65533 bytes in a message of
    four: its end wraps to 0. -/
theorem api_parse_reads_on :
    ¬ (∀ (msg : Mem) (length : UInt16) (format : List ParseFmt), ParseSound msg length.toNat format) ∧
      apiParseTrace (messageOf [0xff, 0]) 2 0 [.s] = [0, 1, 2] ∧
      apiParse (messageOf [0xff, 0xfd, 0xff, 0]) 4 [.s] = some [⟨2, some 65533⟩] := by
  have hreads : apiParseTrace (messageOf [0xff, 0]) 2 0 [.s] = [0, 1, 2] := by decide
  refine ⟨?_, hreads, by decide⟩
  intro h
  have h2 := (h (messageOf [0xff, 0]) 2 [.s]).2 2
  have : 2 ∈ apiParseTrace (messageOf [0xff, 0]) 2 0 [.s] := by
    rw [hreads]
    decide
  exact absurd (h2 this) (by decide)

end Divas.Capi
