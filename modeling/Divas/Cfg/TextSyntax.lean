/-
  Divas.Cfg.TextSyntax — how the parser reads a text (parser.c, diva_cfg_lib.c, runtime.c).

  A function gets the text from its position on, without the zero that ends it, and returns
  what it read and the text behind it. What is read goes to the storage in the code; here it
  is the value, and there is room for it. A loop runs at most as often as there are characters.

  Proved: how often a text that was read has `>` in it, and that the strings that were read
  are no longer than the text (`reads_readTlie`); a number (`strToVle_numeral`), characters
  (`readBs_ascii`) and a list of bytes (`readBs_hex`) are read as they are printed.
-/

import Divas.Cfg.Storage

namespace Divas.Cfg

/-! ## Characters -/

abbrev ltChar : UInt8 := 60
abbrev gtChar : UInt8 := 62
abbrev slashChar : UInt8 := 47
abbrev blankChar : UInt8 := 32
abbrev commaChar : UInt8 := 44

/-- `diva_cfg_ignore_unused`. -/
def ignoreUnused (src : List UInt8) : List UInt8 := src.dropWhile (· ∈ ascii "\n\r \t")

def toNextTag (src : List UInt8) : List UInt8 := src.dropWhile (· ≠ ltChar)

/-- A successful `strncmp`: the text behind the word. -/
def expect (word src : List UInt8) : Option (List UInt8) :=
  if word.isPrefixOf src then some (src.drop word.length) else none

/-! ## Numbers -/

def digitOf (c : UInt8) : Option Nat :=
  if 48 ≤ c.toNat ∧ c.toNat ≤ 57 then some (c.toNat - 48)
  else if 97 ≤ c.toNat ∧ c.toNat ≤ 122 then some (c.toNat - 97 + 10)
  else if 65 ≤ c.toNat ∧ c.toNat ≤ 90 then some (c.toNat - 65 + 10)
  else none

def strtolDigits (base : Nat) : List UInt8 → Nat → Nat × List UInt8
  | [], val => (val, [])
  | c :: s, val =>
    match digitOf c with
    | some d => if base ≤ d then (val, c :: s) else strtolDigits base s ((val * base + d) % 2 ^ 32)
    | none => (val, c :: s)

/-- The number as a dword. -/
def strtol (s : List UInt8) (base : Nat) : Nat × List UInt8 :=
  let s := s.dropWhile (· ∈ ascii " \t")
  let signs := s.takeWhile (· ∈ ascii "-")
  let (val, stop) := strtolDigits base (s.drop signs.length) 0
  (if signs.length % 2 = 1 then (2 ^ 32 - val) % 2 ^ 32 else val, stop)

def strToVle (src : List UInt8) : Option (Nat × List UInt8) :=
  let (v, stop) := strtol (ignoreUnused src) 16
  if stop.length = src.length then none else some (v, stop)

/-! ## Binary strings -/

/-- The loop over the numbers of `<bs>`. -/
def hexItems : Nat → List UInt8 → Option (List UInt8 × List UInt8)
  | 0, _ => none
  | n + 1, src =>
    let start := ignoreUnused src
    let (val, stop) := strtol start 16
    if 0xff < val then none
    else
      let rest := ignoreUnused stop
      match expect (ascii ",") rest with
      | some src => (hexItems n src).map fun (data, src) => (UInt8.ofNat val :: data, src)
      | none =>
        (expect (ascii "</bs>") rest).map fun src => (if stop.length = start.length then [] else [UInt8.ofNat val], src)

/-- The loop over the characters of `<as>`. -/
def asciiItems : List UInt8 → Option (List UInt8 × List UInt8)
  | [] => none
  | c :: src =>
    match expect (ascii "</as>") (c :: src) with
    | some src => some ([], src)
    | none => (asciiItems src).map fun (data, src) => (c :: data, src)

/-- `diva_read_bs`. -/
def readBs (src : List UInt8) : Option (List UInt8 × List UInt8) :=
  let src := toNextTag src
  match expect (ascii "<bs>") src with
  | some src => hexItems src.length src
  | none =>
    match expect (ascii "<as>") src with
    | some src => (asciiItems src).filter fun (_, src) => src ≠ []
    | none => none

/-! ## Tags -/

/-- `diva_cfg_find_tag_by_name`, over a table. -/
def findTagByName (attributes : List VieTag) (src : List UInt8) : Option (VieTag × List UInt8) := do
  let src ← expect (ascii "<") src
  let tag ← attributes.find? fun tag => tag.tag.isPrefixOf src
  let src := ignoreUnused (src.drop tag.tag.length)
  match tag.attributeName with
  | some _ =>
    let src ← expect (ascii "id=\"") src
    let tag ← attributes.find? fun t => tag.tag.isPrefixOf t.tag && t.attributeName.any (·.isPrefixOf src)
    let src ← expect (ascii "\"") (src.drop (tag.attributeName.getD []).length)
    let src ← expect (ascii ">") (ignoreUnused src)
    pure (tag, src)
  | none =>
    let src ← expect (ascii ">") src
    pure (tag, src)

def closeTag (tag : VieTag) (src : List UInt8) : Option (List UInt8) := do
  let src ← expect (ascii "</") (toNextTag src)
  let src ← expect tag.tag src
  expect (ascii ">") src

/-! ## Elements -/

inductive VieValue where
  | number (value : Nat)
  | bytes (data : List UInt8)
  deriving DecidableEq

structure VieEntry where
  id : Nat
  value : VieValue
  deriving DecidableEq

/-- A tag of the table and its `read_proc`. A section has no tlie in it. -/
def readVie (attributes : List VieTag) (src : List UInt8) : Option (VieEntry × List UInt8) := do
  let (tag, src) ← findTagByName attributes src
  match tag.form with
  | .vle =>
    let (v, src) ← strToVle src
    let src ← closeTag tag src
    pure (⟨tag.id, .number v⟩, src)
  | .bs =>
    let (data, src) ← readBs src
    let src ← closeTag tag src
    pure (⟨tag.id, .bytes data⟩, src)
  | .tlie => none

/-- The loop of `read_tlie`. -/
def readVies (attributes : List VieTag) : Nat → List UInt8 → Option (List VieEntry × List UInt8)
  | 0, _ => none
  | n + 1, src => do
    let (e, src) ← readVie attributes src
    let src := toNextTag src
    if (ascii "</").isPrefixOf src then pure ([e], src)
    else
      let (es, src) ← readVies attributes n src
      pure (e :: es, src)

/-- A tlie with its elements. -/
def readTlie (attributes : List VieTag) (src : List UInt8) : Option (List VieEntry × List UInt8) := do
  let (tag, src) ← findTagByName attributes (toNextTag src)
  if tag.form = .tlie then
    let (es, src) ← readVies attributes src.length (toNextTag src)
    let src ← closeTag tag (toNextTag src)
    pure (es, src)
  else none

/-! ## What is read -/

/-- From one text to what is left of it: at least so many `>` and so many characters. -/
structure Reads (tags length : Nat) (src rest : List UInt8) : Prop where
  tags : rest.count gtChar + tags ≤ src.count gtChar
  length : rest.length + length ≤ src.length

namespace Reads

variable {a b a' b' : Nat} {src mid rest : List UInt8}

theorem of_suffix (h : rest <:+ src) : Reads 0 0 src rest := ⟨h.count_le gtChar, h.length_le⟩

theorem trans (h : Reads a b src mid) (h' : Reads a' b' mid rest) : Reads (a + a') (b + b') src rest := by
  have h1 := h.tags
  have h2 := h'.tags
  have h3 := h.length
  have h4 := h'.length
  exact ⟨by omega, by omega⟩

theorem weaken (h : Reads a b src rest) (ha : a' ≤ a) (hb : b' ≤ b) : Reads a' b' src rest := by
  have h1 := h.tags
  have h2 := h.length
  exact ⟨by omega, by omega⟩

end Reads

theorem expect_eq_some {word src rest : List UInt8} (h : expect word src = some rest) : src = word ++ rest := by
  unfold expect at h
  split at h
  · rename_i hpre
    cases h
    exact (List.prefix_iff_eq_append.mp (List.isPrefixOf_iff_prefix.mp hpre)).symm
  · cases h

theorem reads_expect {word src rest : List UInt8} (h : expect word src = some rest) :
    Reads (word.count gtChar) word.length src rest := by
  rw [expect_eq_some h]
  exact ⟨by rw [List.count_append]; omega, by rw [List.length_append]; omega⟩

theorem expect_append (word rest : List UInt8) : expect word (word ++ rest) = some rest := by
  simp [expect]

theorem reads_ignoreUnused (src : List UInt8) : Reads 0 0 src (ignoreUnused src) := .of_suffix (List.dropWhile_suffix _)

theorem reads_toNextTag (src : List UInt8) : Reads 0 0 src (toNextTag src) := .of_suffix (List.dropWhile_suffix _)

theorem strtolDigits_suffix (base : Nat) (s : List UInt8) (val : Nat) : (strtolDigits base s val).2 <:+ s := by
  induction s generalizing val with
  | nil => exact List.suffix_refl _
  | cons c s ih =>
    unfold strtolDigits
    split
    · split
      · exact List.suffix_refl _
      · exact (ih _).trans (List.suffix_cons c s)
    · exact List.suffix_refl _

theorem strtol_suffix (s : List UInt8) (base : Nat) : (strtol s base).2 <:+ s := by
  unfold strtol
  exact (strtolDigits_suffix base _ 0).trans ((List.drop_suffix _ _).trans (List.dropWhile_suffix _))

theorem reads_strToVle {src rest : List UInt8} {v : Nat} (h : strToVle src = some (v, rest)) : Reads 0 0 src rest := by
  unfold strToVle at h
  dsimp only at h
  split at h
  · cases h
  · have hsuffix := (strtol_suffix (ignoreUnused src) 16).trans (List.dropWhile_suffix _)
    cases h
    exact .of_suffix hsuffix

theorem reads_hexItems {n : Nat} {src data rest : List UInt8} (h : hexItems n src = some (data, rest)) :
    Reads 1 data.length src rest := by
  induction n generalizing src data with
  | zero => cases h
  | succ n ih =>
    have hstart := (reads_ignoreUnused src).trans (.of_suffix (strtol_suffix (ignoreUnused src) 16))
    have hrest := hstart.trans (reads_ignoreUnused (strtol (ignoreUnused src) 16).2)
    unfold hexItems at h
    dsimp only at h
    split at h
    · cases h
    · split at h
      · rename_i next hcomma
        obtain ⟨⟨tail, rest'⟩, htail, heq⟩ := Option.map_eq_some_iff.mp h
        dsimp only at heq
        cases heq
        have hread := hrest.trans ((reads_expect hcomma).trans (ih htail))
        rw [show (ascii ",").length = 1 from rfl] at hread
        exact hread.weaken (by omega) (by rw [List.length_cons]; omega)
      · obtain ⟨rest', hend, heq⟩ := Option.map_eq_some_iff.mp h
        cases heq
        have hread := hrest.trans (reads_expect hend)
        refine hread.weaken (by decide) ?_
        split
        · exact Nat.zero_le _
        · exact (by decide : 1 ≤ 0 + 0 + 0 + (ascii "</bs>").length)

theorem reads_asciiItems {src data rest : List UInt8} (h : asciiItems src = some (data, rest)) :
    Reads 1 data.length src rest := by
  induction src generalizing data with
  | nil => cases h
  | cons c src ih =>
    unfold asciiItems at h
    split at h
    · rename_i rest' hend
      cases h
      exact (reads_expect hend).weaken (by decide) (Nat.zero_le _)
    · obtain ⟨⟨tail, rest'⟩, htail, heq⟩ := Option.map_eq_some_iff.mp h
      cases heq
      have hread := ih htail
      have htags := hread.tags
      have hlength := hread.length
      have hcount : src.count gtChar ≤ (c :: src).count gtChar := List.count_le_count_cons
      exact ⟨by omega, by simp only [List.length_cons]; omega⟩

theorem reads_readBs {src data rest : List UInt8} (h : readBs src = some (data, rest)) : Reads 2 data.length src rest := by
  have htag := reads_toNextTag src
  unfold readBs at h
  dsimp only at h
  split at h
  · rename_i items hbs
    exact ((htag.trans (reads_expect hbs)).trans (reads_hexItems h)).weaken (by decide) (by omega)
  · split at h
    · rename_i items has
      have hitems := Option.eq_some_of_filter_eq_some h
      exact ((htag.trans (reads_expect has)).trans (reads_asciiItems hitems)).weaken (by decide) (by omega)
    · cases h

theorem reads_findTagByName {attributes : List VieTag} {src rest : List UInt8} {tag : VieTag}
    (h : findTagByName attributes src = some (tag, rest)) : Reads 1 0 src rest := by
  unfold findTagByName at h
  obtain ⟨src1, hlt, h⟩ := Option.bind_eq_some_iff.mp h
  obtain ⟨first, -, h⟩ := Option.bind_eq_some_iff.mp h
  have hname : Reads 0 0 src (ignoreUnused (src1.drop first.tag.length)) :=
    ((reads_expect hlt).trans ((Reads.of_suffix (List.drop_suffix _ _)).trans (reads_ignoreUnused _))).weaken (Nat.zero_le _)
      (Nat.zero_le _)
  dsimp only at h
  split at h
  · obtain ⟨src2, hid, h⟩ := Option.bind_eq_some_iff.mp h
    obtain ⟨second, -, h⟩ := Option.bind_eq_some_iff.mp h
    obtain ⟨src3, hquote, h⟩ := Option.bind_eq_some_iff.mp h
    obtain ⟨src4, hgt, h⟩ := Option.bind_eq_some_iff.mp h
    have hdrop : Reads 0 0 src2 (src2.drop (second.attributeName.getD []).length) := .of_suffix (List.drop_suffix _ _)
    cases h
    have hattribute := (hname.trans (reads_expect hid)).trans hdrop
    have hend := (hattribute.trans (reads_expect hquote)).trans ((reads_ignoreUnused src3).trans (reads_expect hgt))
    exact hend.weaken (by decide) (Nat.zero_le _)
  · obtain ⟨src2, hgt, h⟩ := Option.bind_eq_some_iff.mp h
    cases h
    exact (hname.trans (reads_expect hgt)).weaken (by decide) (Nat.zero_le _)

theorem reads_closeTag {tag : VieTag} {src rest : List UInt8} (h : closeTag tag src = some rest) : Reads 1 0 src rest := by
  unfold closeTag at h
  obtain ⟨src1, hopen, h⟩ := Option.bind_eq_some_iff.mp h
  obtain ⟨src2, hname, h⟩ := Option.bind_eq_some_iff.mp h
  have hread := ((reads_toNextTag src).trans (reads_expect hopen)).trans ((reads_expect hname).trans (reads_expect h))
  exact hread.weaken (by rw [show (ascii ">").count gtChar = 1 from rfl]; omega) (Nat.zero_le _)

namespace VieEntry

/-- How many tags the element has. -/
def tags (e : VieEntry) : Nat :=
  match e.value with
  | .number _ => 2
  | .bytes _ => 4

/-- How many bytes the element has. -/
def bytes (e : VieEntry) : Nat :=
  match e.value with
  | .number _ => 0
  | .bytes data => data.length

end VieEntry

variable {attributes : List VieTag} {src rest : List UInt8}

theorem reads_readVie {e : VieEntry} (h : readVie attributes src = some (e, rest)) : Reads e.tags e.bytes src rest := by
  unfold readVie at h
  obtain ⟨⟨tag, src1⟩, htag, h⟩ := Option.bind_eq_some_iff.mp h
  dsimp only at h
  split at h
  · obtain ⟨⟨v, src2⟩, hv, h⟩ := Option.bind_eq_some_iff.mp h
    obtain ⟨src3, hclose, h⟩ := Option.bind_eq_some_iff.mp h
    cases h
    exact (reads_findTagByName htag).trans ((reads_strToVle hv).trans (reads_closeTag hclose))
  · obtain ⟨⟨data, src2⟩, hdata, h⟩ := Option.bind_eq_some_iff.mp h
    obtain ⟨src3, hclose, h⟩ := Option.bind_eq_some_iff.mp h
    cases h
    have hread := (reads_findTagByName htag).trans ((reads_readBs hdata).trans (reads_closeTag hclose))
    exact hread.weaken (Nat.le_refl _) (by simp [VieEntry.bytes])
  · cases h

theorem reads_readVies {n : Nat} {es : List VieEntry} (h : readVies attributes n src = some (es, rest)) :
    Reads (es.map VieEntry.tags).sum (es.map VieEntry.bytes).sum src rest := by
  induction n generalizing src es with
  | zero => cases h
  | succ n ih =>
    unfold readVies at h
    obtain ⟨⟨e, src1⟩, he, h⟩ := Option.bind_eq_some_iff.mp h
    have hread := (reads_readVie he).trans (reads_toNextTag src1)
    dsimp only at h
    split at h
    · cases h
      simpa using hread
    · obtain ⟨⟨tail, src2⟩, htail, h⟩ := Option.bind_eq_some_iff.mp h
      cases h
      simpa using hread.trans (ih htail)

/-- A tlie that was read: every tag of it was there, and its strings were. -/
theorem reads_readTlie {es : List VieEntry} (h : readTlie attributes src = some (es, rest)) :
    Reads (2 + (es.map VieEntry.tags).sum) (es.map VieEntry.bytes).sum src rest := by
  unfold readTlie at h
  obtain ⟨⟨tag, src1⟩, htag, h⟩ := Option.bind_eq_some_iff.mp h
  dsimp only at h
  split at h
  · obtain ⟨⟨es', src2⟩, hes, h⟩ := Option.bind_eq_some_iff.mp h
    obtain ⟨src3, hclose, h⟩ := Option.bind_eq_some_iff.mp h
    dsimp only [Option.pure_def] at h
    cases h
    have hopen := (reads_toNextTag src).trans (reads_findTagByName htag)
    have hread := hopen.trans ((reads_toNextTag src1).trans ((reads_readVies hes).trans ((reads_toNextTag src2).trans
      (reads_closeTag hclose))))
    exact hread.weaken (by omega) (by omega)
  · cases h

/-! ## What is printed -/

def digitChar (d : Nat) : UInt8 := if d < 10 then UInt8.ofNat (48 + d) else UInt8.ofNat (87 + d)

/-- `%lx`, or `%lu`. -/
def numeral (base v : Nat) : List UInt8 :=
  if _h : v < base ∨ base < 2 then [digitChar v]
  else numeral base (v / base) ++ [digitChar (v % base)]
termination_by v
decreasing_by exact Nat.div_lt_self (by omega) (by omega)

/-- `%02x`. -/
def hexByte (b : UInt8) : List UInt8 := [digitChar (b.toNat / 16), digitChar (b.toNat % 16)]

/-- `%s%02x` for each byte, with a comma in front of all but the first. -/
def hexList : List UInt8 → List UInt8
  | [] => []
  | b :: data => hexByte b ++ data.flatMap fun b => commaChar :: hexByte b

theorem numeral_of_lt {base v : Nat} (h : v < base) : numeral base v = [digitChar v] := by
  rw [numeral, dif_pos (Or.inl h)]

theorem numeral_of_ge {base v : Nat} (hbase : 2 ≤ base) (h : base ≤ v) :
    numeral base v = numeral base (v / base) ++ [digitChar (v % base)] := by
  rw [numeral, dif_neg (by omega)]

theorem digitOf_digitChar : ∀ d < 16, digitOf (digitChar d) = some d := by decide

/-- The digits of a hexadecimal number. -/
def Digit (c : UInt8) : Prop := ∃ d < 16, c = digitChar d

/-- A digit is no character that stands around a number. -/
theorem Digit.notMem {c : UInt8} (h : Digit c) {l : List UInt8} (hl : ∀ x ∈ l, x ∈ 0 :: ascii "\n\r \t-<>,") : c ∉ l := by
  have hall : ∀ d < 16, digitChar d ∉ 0 :: ascii "\n\r \t-<>," := by decide
  obtain ⟨d, hd, rfl⟩ := h
  exact fun hmem => hall d hd (hl _ hmem)

theorem digit_of_mem_numeral {base v : Nat} {c : UInt8} (hbase : 2 ≤ base) (hmax : base ≤ 16) (h : c ∈ numeral base v) :
    Digit c := by
  induction v using Nat.strongRecOn with
  | ind v ih =>
    by_cases hlt : v < base
    · rw [numeral_of_lt hlt, List.mem_singleton] at h
      exact ⟨v, by omega, h⟩
    · rw [numeral_of_ge hbase (by omega), List.mem_append, List.mem_singleton] at h
      rcases h with h | h
      · exact ih (v / base) (Nat.div_lt_self (by omega) (by omega)) h
      · have hmod : v % base < base := Nat.mod_lt v (by omega)
        exact ⟨v % base, by omega, h⟩

theorem digit_of_mem_hexByte {b c : UInt8} (h : c ∈ hexByte b) : Digit c := by
  have hb := b.toNat_lt
  unfold hexByte at h
  rw [List.mem_cons, List.mem_singleton] at h
  rcases h with h | h
  · exact ⟨b.toNat / 16, by omega, h⟩
  · exact ⟨b.toNat % 16, by omega, h⟩

theorem mem_hexList {data : List UInt8} {c : UInt8} (h : c ∈ hexList data) : Digit c ∨ c = commaChar := by
  rcases data with - | ⟨b, data⟩
  · cases h
  · rw [hexList, List.mem_append, List.mem_flatMap] at h
    rcases h with h | ⟨b', -, h⟩
    · exact Or.inl (digit_of_mem_hexByte h)
    · rcases List.mem_cons.mp h with h | h
      · exact Or.inr h
      · exact Or.inl (digit_of_mem_hexByte h)

theorem numeral_ne_nil (base v : Nat) : numeral base v ≠ [] := by
  rw [numeral]
  split
  · exact List.cons_ne_nil _ _
  · exact List.append_ne_nil_of_right_ne_nil _ (List.cons_ne_nil _ _)

/-! ## Reading it back -/

theorem strtolDigits_digit {base d : Nat} (hbase : base ≤ 16) (hd : d < base) (s : List UInt8) (val : Nat) :
    strtolDigits base (digitChar d :: s) val = strtolDigits base s ((val * base + d) % 2 ^ 32) := by
  rw [strtolDigits, digitOf_digitChar d (by omega)]
  dsimp only
  rw [if_neg (by omega)]

theorem strtolDigits_stop {base : Nat} {c : UInt8} (h : digitOf c = none) (s : List UInt8) (val : Nat) :
    strtolDigits base (c :: s) val = (val, c :: s) := by
  rw [strtolDigits, h]

theorem strtolDigits_numeral {base : Nat} (hbase : 2 ≤ base) (hmax : base ≤ 16) (v : Nat) (s : List UInt8) :
    strtolDigits base (numeral base v ++ s) 0 = strtolDigits base s (v % 2 ^ 32) := by
  induction v using Nat.strongRecOn generalizing s with
  | ind v ih =>
    by_cases hlt : v < base
    · rw [numeral_of_lt hlt, List.singleton_append, strtolDigits_digit hmax hlt, Nat.zero_mul, Nat.zero_add]
    · have hmod : v % base < base := Nat.mod_lt v (by omega)
      rw [numeral_of_ge hbase (by omega), List.append_assoc, List.singleton_append,
        ih (v / base) (Nat.div_lt_self (by omega) (by omega)), strtolDigits_digit hmax hmod]
      congr 1
      rw [Nat.add_mod, Nat.mul_mod, Nat.mod_mod, ← Nat.mul_mod, ← Nat.add_mod, Nat.div_add_mod']

/-- A number begins with a digit: nothing in front of it is left out. -/
theorem strtol_digit {c : UInt8} (hc : Digit c) (s : List UInt8) (base : Nat) :
    strtol (c :: s) base = strtolDigits base (c :: s) 0 := by
  have hblank : c ∉ ascii " \t" := hc.notMem (by decide +kernel)
  have hsign : c ∉ ascii "-" := hc.notMem (by decide +kernel)
  unfold strtol
  rw [List.dropWhile_cons_of_neg (by simpa using hblank)]
  dsimp only
  rw [List.takeWhile_cons_of_neg (by simpa using hsign)]
  simp

theorem ignoreUnused_digit {c : UInt8} (hc : Digit c) (s : List UInt8) : ignoreUnused (c :: s) = c :: s := by
  have hno : c ∉ ascii "\n\r \t" := hc.notMem (by decide +kernel)
  unfold ignoreUnused
  rw [List.dropWhile_cons_of_neg (by simpa using hno)]

theorem strToVle_numeral {v : Nat} (hv : v < 2 ^ 32) (s : List UInt8) :
    strToVle (numeral 16 v ++ ltChar :: s) = some (v, ltChar :: s) := by
  obtain ⟨c, tail, hcons⟩ := List.exists_cons_of_ne_nil (numeral_ne_nil 16 v)
  have hc : Digit c := digit_of_mem_numeral (by decide) (by decide) (hcons ▸ List.mem_cons_self)
  have hread : strtolDigits 16 (numeral 16 v ++ ltChar :: s) 0 = (v, ltChar :: s) := by
    rw [strtolDigits_numeral (by decide) (by decide), Nat.mod_eq_of_lt hv, strtolDigits_stop (by decide)]
  have hnum : strtol (ignoreUnused (numeral 16 v ++ ltChar :: s)) 16 = (v, ltChar :: s) := by
    rw [hcons, List.cons_append, ignoreUnused_digit hc, strtol_digit hc, ← List.cons_append, ← hcons, hread]
  unfold strToVle
  rw [hnum]
  dsimp only
  have hshorter : (ltChar :: s).length ≠ (numeral 16 v ++ ltChar :: s).length := by
    simp only [hcons, List.length_append, List.length_cons]
    omega
  rw [if_neg hshorter]

theorem strtol_hexByte (b : UInt8) {c : UInt8} (hc : digitOf c = none) (s : List UInt8) :
    strtol (hexByte b ++ c :: s) 16 = (b.toNat, c :: s) := by
  have hb := b.toNat_lt
  have hfirst : Digit (digitChar (b.toNat / 16)) := ⟨b.toNat / 16, by omega, rfl⟩
  have hsum : (b.toNat / 16 * 16 + b.toNat % 16) % 2 ^ 32 = b.toNat := by omega
  unfold hexByte
  rw [List.cons_append, strtol_digit hfirst, List.singleton_append, strtolDigits_digit (by decide) (by omega),
    strtolDigits_digit (by decide) (by omega), strtolDigits_stop hc, Nat.zero_mul, Nat.zero_add,
    Nat.mod_eq_of_lt (show b.toNat / 16 < 2 ^ 32 by omega), hsum]

/-- A byte of a list, and the character behind it. -/
theorem hexItems_hexByte (n : Nat) (b : UInt8) {c : UInt8} (hc : digitOf c = none) (hused : c ∉ ascii "\n\r \t")
    (s : List UInt8) :
    hexItems (n + 1) (hexByte b ++ c :: s) =
      match expect (ascii ",") (c :: s) with
      | some src => (hexItems n src).map fun (data, src) => (b :: data, src)
      | none => (expect (ascii "</bs>") (c :: s)).map fun src => ([b], src) := by
  have hb := b.toNat_lt
  have hstart : ignoreUnused (hexByte b ++ c :: s) = hexByte b ++ c :: s :=
    ignoreUnused_digit ⟨b.toNat / 16, by omega, rfl⟩ _
  have hrest : ignoreUnused (c :: s) = c :: s := by
    unfold ignoreUnused
    rw [List.dropWhile_cons_of_neg (by simpa using hused)]
  rw [hexItems, hstart, strtol_hexByte b hc]
  dsimp only
  rw [hrest, if_neg (by omega), UInt8.ofNat_toNat, if_neg (by simp [hexByte])]

theorem hexList_cons (b b' : UInt8) (data : List UInt8) :
    hexList (b :: b' :: data) = hexByte b ++ commaChar :: hexList (b' :: data) := by
  simp [hexList]

theorem hexItems_hexList {n : Nat} (b : UInt8) (data : List UInt8) (hn : data.length ≤ n) (s : List UInt8) :
    hexItems (n + 1) (hexList (b :: data) ++ (ascii "</bs>" ++ s)) = some (b :: data, s) := by
  induction data generalizing n b with
  | nil =>
    have hitem := hexItems_hexByte n b (c := ltChar) (by decide) (by decide) (ascii "/bs>" ++ s)
    have hcomma : expect (ascii ",") (ltChar :: (ascii "/bs>" ++ s)) = none := rfl
    have hend : expect (ascii "</bs>") (ltChar :: (ascii "/bs>" ++ s)) = some s := expect_append (ascii "</bs>") s
    have hsplit : hexList [b] ++ (ascii "</bs>" ++ s) = hexByte b ++ ltChar :: (ascii "/bs>" ++ s) := by
      simp only [hexList, List.flatMap_nil, List.append_nil]
      rfl
    rw [hsplit, hitem, hcomma]
    dsimp only
    rw [hend]
    rfl
  | cons b' data ih =>
    rw [List.length_cons] at hn
    obtain ⟨n, rfl⟩ := Nat.exists_eq_add_of_lt (show 0 < n by omega)
    rw [Nat.zero_add] at hn ⊢
    have hitem := hexItems_hexByte (n + 1) b (c := commaChar) (by decide) (by decide)
      (hexList (b' :: data) ++ (ascii "</bs>" ++ s))
    have hcomma : expect (ascii ",") (commaChar :: (hexList (b' :: data) ++ (ascii "</bs>" ++ s)))
        = some (hexList (b' :: data) ++ (ascii "</bs>" ++ s)) := expect_append (ascii ",") _
    rw [hexList_cons, List.append_assoc, List.cons_append, hitem, hcomma]
    dsimp only
    rw [ih b' (by omega)]
    rfl

theorem asciiItems_append {data : List UInt8} (h : ltChar ∉ data) (s : List UInt8) :
    asciiItems (data ++ (ascii "</as>" ++ s)) = some (data, s) := by
  induction data with
  | nil =>
    have hend : expect (ascii "</as>") (ltChar :: (ascii "/as>" ++ s)) = some s := expect_append (ascii "</as>") s
    show asciiItems (ltChar :: (ascii "/as>" ++ s)) = _
    rw [asciiItems, hend]
  | cons c data ih =>
    have hc : c ≠ ltChar := fun hc => h (hc ▸ List.mem_cons_self)
    have hno : expect (ascii "</as>") (c :: (data ++ (ascii "</as>" ++ s))) = none := by
      unfold expect
      rw [if_neg]
      intro hpre
      rw [List.isPrefixOf_iff_prefix] at hpre
      exact hc (List.head_eq_of_cons_eq (List.prefix_iff_eq_append.mp hpre)).symm
    rw [List.cons_append, asciiItems, hno]
    dsimp only
    rw [ih fun hmem => h (List.mem_cons_of_mem c hmem)]
    rfl

/-! ## Tags that are printed -/

theorem toNextTag_append {gap : List UInt8} (h : ltChar ∉ gap) (s : List UInt8) : toNextTag (gap ++ s) = toNextTag s := by
  unfold toNextTag
  rw [List.dropWhile_append_of_pos]
  intro c hc
  have hne : c ≠ ltChar := fun heq => h (heq ▸ hc)
  simpa using hne

theorem readBs_ascii {data : List UInt8} (h : ltChar ∉ data) {s : List UInt8} (hs : s ≠ []) :
    readBs (ascii "<as>" ++ (data ++ (ascii "</as>" ++ s))) = some (data, s) := by
  have hbs : expect (ascii "<bs>") (ascii "<as>" ++ (data ++ (ascii "</as>" ++ s))) = none := rfl
  have htag : toNextTag (ascii "<as>" ++ (data ++ (ascii "</as>" ++ s))) = ascii "<as>" ++ (data ++ (ascii "</as>" ++ s)) := rfl
  unfold readBs
  dsimp only
  rw [htag, hbs, expect_append]
  dsimp only
  rw [asciiItems_append h]
  simpa using hs

theorem length_le_hexList (data : List UInt8) : data.length ≤ (hexList data).length := by
  rcases data with - | ⟨b, data⟩
  · exact Nat.zero_le _
  · induction data generalizing b with
    | nil => exact (by decide : 1 ≤ 2)
    | cons b' data ih =>
      have hrest := ih b'
      simp only [hexList_cons, List.length_append, List.length_cons] at hrest ⊢
      omega

theorem readBs_hex (b : UInt8) (data s : List UInt8) :
    readBs (ascii "<bs>" ++ (hexList (b :: data) ++ (ascii "</bs>" ++ s))) = some (b :: data, s) := by
  have htag : toNextTag (ascii "<bs>" ++ (hexList (b :: data) ++ (ascii "</bs>" ++ s)))
      = ascii "<bs>" ++ (hexList (b :: data) ++ (ascii "</bs>" ++ s)) := rfl
  have hlen := length_le_hexList (b :: data)
  rw [List.length_cons] at hlen
  obtain ⟨n, hn⟩ : ∃ n, (hexList (b :: data) ++ (ascii "</bs>" ++ s)).length = n + 1 :=
    ⟨(hexList (b :: data)).length + 4 + s.length, by
      rw [List.length_append, List.length_append, show (ascii "</bs>").length = 5 from rfl]
      omega⟩
  have hfuel : data.length ≤ n := by
    rw [List.length_append, List.length_append, show (ascii "</bs>").length = 5 from rfl] at hn
    omega
  unfold readBs
  dsimp only
  rw [htag, expect_append]
  dsimp only
  rw [hn, hexItems_hexList b data hfuel]

theorem closeTag_append (tag : VieTag) (s : List UInt8) :
    closeTag tag (ascii "</" ++ (tag.tag ++ (ascii ">" ++ s))) = some s := by
  have htag : toNextTag (ascii "</" ++ (tag.tag ++ (ascii ">" ++ s))) = ascii "</" ++ (tag.tag ++ (ascii ">" ++ s)) := rfl
  unfold closeTag
  rw [htag, expect_append]
  dsimp only [Option.bind_eq_bind, Option.bind_some]
  rw [expect_append]
  dsimp only [Option.bind_some]
  exact expect_append _ _

end Divas.Cfg
