/-
  Divas.Cfg.UpdateResultDocument — the result of an update, read back.

  A text is `Spaced` if it is some elements with nothing but space around them: this is all
  that the last line feed, for which there may be no room, makes a difference for.

  Proved: the result of every section is written inside the buffer, its tags are nested and
  its elements are read back, exactly when the elements of the section take no more than 511
  characters (`response_document`), for `snprintf` of the standard and for the one of the
  kernel modules. A value of 500 characters is lost (`long_value_lost`).
-/

import Divas.Cfg.UpdateResultPrint
import Divas.Lib.Markup
import Mathlib.Algebra.Order.BigOperators.Group.List
import Mathlib.Data.List.Find
import Mathlib.Data.List.TakeWhile

namespace Divas.Cfg

open Divas.Lib Bytes Checks Print Markup

/-! ## A name -/

/-- The name of every element is found, and no prefix of it in front of it. -/
theorem resultAttributes_find : ∀ tag ∈ resultAttributes, tag.form ≠ .tlie → tag.tag = ascii "vie" ∧
    tag.attributeName.isSome = true ∧ resultAttributes.find? (fun t => (ascii "vie").isPrefixOf t.tag &&
      t.attributeName.any (·.isPrefixOf (tag.attributeName.getD []))) = some tag := by
  decide +kernel

/-- A word without a character is in front of a text up to it. -/
theorem isPrefixOf_append_cons {word : List UInt8} {c : UInt8} (h : c ∉ word) (front rest : List UInt8) :
    word.isPrefixOf (front ++ c :: rest) = word.isPrefixOf front := by
  induction word generalizing front with
  | nil => simp
  | cons a word ih =>
    rw [List.mem_cons, not_or] at h
    cases front with
    | nil =>
      have hne : (a == c) = false := by simpa using fun heq : a = c => h.1 heq.symm
      simp [List.isPrefixOf, hne]
    | cons b front => simp [List.isPrefixOf, ih h.2]

theorem findTagByName_printed {tag : VieTag} (htag : tag ∈ resultAttributes) (hform : tag.form ≠ .tlie) (rest : List UInt8) :
    findTagByName resultAttributes (ascii "<vie id=\"" ++ (tag.attributeName.getD [] ++ (ascii "\">" ++ rest)))
      = some (tag, rest) := by
  obtain ⟨-, -, hfind⟩ := resultAttributes_find tag htag hform
  have hname : resultAttributes.find? (fun t => (ascii "vie").isPrefixOf t.tag &&
      t.attributeName.any (·.isPrefixOf (tag.attributeName.getD [] ++ (ascii "\">" ++ rest)))) = some tag := by
    rw [← hfind]
    refine List.find?_congr fun t ht => ?_
    have hplain := attributeName_plain t ht
    rcases hattr : t.attributeName with - | name
    · rfl
    · rw [hattr] at hplain
      have hquote : (34 : UInt8) ∉ name := fun hmem => hplain 34 hmem (by decide)
      have hpre := isPrefixOf_append_cons hquote (tag.attributeName.getD []) (gtChar :: rest)
      show ((ascii "vie").isPrefixOf t.tag && name.isPrefixOf (tag.attributeName.getD [] ++ 34 :: gtChar :: rest)) = _
      rw [hpre]
      rfl
  have hfirst : ∀ s, resultAttributes.find? (fun t => t.tag.isPrefixOf (ascii "vie id=\"" ++ s))
      = some (.vie Vie.owner "owner" .vle) := fun s => rfl
  have hblank : ∀ s, ignoreUnused ((ascii "vie id=\"" ++ s).drop (ascii "vie").length) = ascii "id=\"" ++ s := fun s => rfl
  have hlt : ∀ s, expect (ascii "<") (ascii "<vie id=\"" ++ s) = some (ascii "vie id=\"" ++ s) := fun s =>
      expect_append (ascii "<") _
  unfold findTagByName
  rw [hlt]
  dsimp only [Option.bind_eq_bind, Option.bind_some]
  rw [hfirst]
  dsimp only [Option.bind_some, VieTag.vie]
  rw [hblank, expect_append]
  dsimp only [Option.bind_some]
  rw [hname]
  dsimp only [Option.bind_some]
  rw [List.drop_left]
  have hquote : expect (ascii "\"") (ascii "\">" ++ rest) = some (ascii ">" ++ rest) := expect_append (ascii "\"") _
  have hend : ignoreUnused (ascii ">" ++ rest) = ascii ">" ++ rest := rfl
  rw [hquote]
  dsimp only [Option.bind_some]
  rw [hend, expect_append]
  rfl

/-! ## An element -/

namespace VieEntry

/-- From `<` to the last `>`. -/
def element (e : VieEntry) : List UInt8 :=
  ascii "<vie id=\"" ++ e.name ++ ascii "\">" ++ e.opened ++ e.cutValue e.bytes ++ e.closed ++ ascii "</vie>"

theorem text_eq (e : VieEntry) : e.text = ascii "\t\t\t" ++ e.element ++ ascii "\n" := by
  have hopen : ascii "\t\t\t<vie id=\"" = ascii "\t\t\t" ++ ascii "<vie id=\"" := rfl
  have hclose : closeVie = ascii "</vie>" ++ ascii "\n" := rfl
  unfold text cutText element openVie
  rw [hopen, hclose]
  simp only [List.append_assoc]

/-- The form of the value is the one of the table. -/
structure Known (e : VieEntry) : Prop where
  tag : ∃ tag, resultAttributes.find? (·.id == e.id) = some tag ∧
    tag.form = match e.value with
      | .number _ => .vle
      | .bytes _ => .bs
  number : ∀ v, e.value = .number v → v < 2 ^ 32

theorem readVie_element {e : VieEntry} (h : e.Known) (hsmall : e.Small) (rest : List UInt8) :
    readVie resultAttributes (e.element ++ rest) = some (e, rest) := by
  obtain ⟨tag, hfind, hform⟩ := h.tag
  have hmem := List.mem_of_find?_eq_some hfind
  have hid : tag.id = e.id := by simpa using List.find?_some hfind
  have hname : e.name = tag.attributeName.getD [] := by
    unfold name
    rw [hfind]
    rfl
  have hne : tag.form ≠ .tlie := by
    rw [hform]
    rcases e with ⟨id, v | data⟩ <;> simp
  obtain ⟨hvie, -, -⟩ := resultAttributes_find tag hmem hne
  have hclose : ∀ s, closeTag tag (ascii "</vie>" ++ s) = some s := by
    intro s
    have hread := closeTag_append tag s
    rwa [hvie] at hread
  have hsplit : e.element ++ rest = ascii "<vie id=\"" ++ (tag.attributeName.getD [] ++ (ascii "\">" ++
      (e.opened ++ (e.cutValue e.bytes ++ (e.closed ++ (ascii "</vie>" ++ rest)))))) := by
    unfold element
    rw [hname]
    simp only [List.append_assoc]
  rw [hsplit]
  unfold readVie
  rw [findTagByName_printed hmem hne]
  dsimp only [Option.bind_eq_bind, Option.bind_some]
  rw [hform]
  rcases e with ⟨id, v | data⟩
  · have hnum : strToVle (numeral 16 v ++ (ascii "</vie>" ++ rest)) = some (v, ascii "</vie>" ++ rest) :=
      strToVle_numeral (h.number v rfl) (ascii "/vie>" ++ rest)
    dsimp only [opened, closed, cutValue]
    rw [List.nil_append, List.nil_append, hnum]
    dsimp only [Option.bind_some]
    rw [hclose, hid]
    rfl
  · have hread : readBs ((VieEntry.mk id (.bytes data)).opened ++ ((VieEntry.mk id (.bytes data)).cutValue
        (VieEntry.mk id (.bytes data)).bytes ++ ((VieEntry.mk id (.bytes data)).closed ++ (ascii "</vie>" ++ rest))))
        = some (data, ascii "</vie>" ++ rest) := by
      unfold opened closed cutValue bytes
      dsimp only
      rw [List.take_length]
      by_cases hascii : isAscii data = true
      · have hplain : ltChar ∉ data := fun hc => isAscii_plain hascii hsmall ltChar hc (by decide)
        rw [if_pos hascii, if_pos hascii, if_pos hascii]
        exact readBs_ascii hplain (List.cons_ne_nil _ _)
      · have hnil : data ≠ [] := by
          rintro rfl
          exact hascii rfl
        obtain ⟨b, tail, rfl⟩ := List.exists_cons_of_ne_nil hnil
        rw [if_neg hascii, if_neg hascii, if_neg hascii]
        exact readBs_hex b tail _
    dsimp only
    rw [hread]
    dsimp only [Option.bind_some]
    rw [hclose, hid]
    rfl

end VieEntry

/-! ## Elements with space -/

/-- Some elements with nothing but space around them. -/
inductive Spaced : List VieEntry → List UInt8 → Prop where
  | nil {gap : List UInt8} (h : ltChar ∉ gap) : Spaced [] gap
  | cons {gap : List UInt8} {e : VieEntry} {es : List VieEntry} {text : List UInt8} (h : ltChar ∉ gap) (ht : Spaced es text) :
      Spaced (e :: es) (gap ++ (e.element ++ text))

namespace Spaced

variable {es es' : List VieEntry} {text text' gap : List UInt8} {e : VieEntry}

theorem gap_append (h : ltChar ∉ gap) (ht : Spaced es text) : Spaced es (gap ++ text) := by
  cases ht with
  | nil h' => exact .nil fun hmem => (List.mem_append.mp hmem).elim h h'
  | cons h' ht =>
    rw [← List.append_assoc]
    exact .cons (fun hmem => (List.mem_append.mp hmem).elim h h') ht

theorem append (h : Spaced es text) (h' : Spaced es' text') : Spaced (es ++ es') (text ++ text') := by
  induction h with
  | nil hgap => exact gap_append hgap h'
  | cons hgap ht ih =>
    rw [List.append_assoc, List.append_assoc, List.cons_append]
    exact .cons hgap ih

theorem element (e : VieEntry) : Spaced [e] e.element := by
  have hnil : ltChar ∉ ([] : List UInt8) := List.not_mem_nil
  have hspaced : Spaced [e] ([] ++ (e.element ++ [])) := .cons hnil (.nil hnil)
  simpa using hspaced

theorem line (e : VieEntry) : Spaced [e] e.text := by
  rw [VieEntry.text_eq, List.append_assoc]
  exact gap_append (by decide) ((element e).append (.nil (by decide)))

theorem texts (es : List VieEntry) : Spaced es (VieEntry.texts es) := by
  induction es with
  | nil => exact .nil List.not_mem_nil
  | cons e es ih => exact (line e).append ih

/-- Also without the last line feed. -/
theorem dropLast (es : List VieEntry) : Spaced es (VieEntry.texts es).dropLast := by
  rcases List.eq_nil_or_concat' es with rfl | ⟨front, e, rfl⟩
  · exact .nil List.not_mem_nil
  · have hsplit : VieEntry.texts (front ++ [e]) = (VieEntry.texts front ++ (ascii "\t\t\t" ++ e.element)) ++ ascii "\n" := by
      unfold VieEntry.texts
      rw [List.flatMap_append, List.flatMap_singleton, VieEntry.text_eq]
      simp only [List.append_assoc]
    have hlast : ascii "\n" = [10] := rfl
    rw [hsplit, hlast, List.dropLast_concat]
    exact (texts front).append (gap_append (by decide) (element e))

theorem length_le (h : Spaced es text) : es.length ≤ text.length := by
  induction h with
  | nil _ => exact Nat.zero_le _
  | cons _ _ ih =>
    rename_i gap e es text _ _
    have helement : 0 < e.element.length := List.length_pos_of_ne_nil (List.cons_ne_nil _ _)
    rw [List.length_append, List.length_append, List.length_cons]
    omega

theorem toNextTag_cons (h : Spaced (e :: es) text) (rest : List UInt8) :
    ∃ text', Spaced es text' ∧ toNextTag (text ++ rest) = e.element ++ (text' ++ rest) := by
  cases h with
  | cons hgap ht =>
    rename_i gap text'
    refine ⟨text', ht, ?_⟩
    rw [List.append_assoc, List.append_assoc, toNextTag_append hgap]
    rfl

/-- The loop reads all the elements. -/
theorem readVies (h : Spaced es text) (hne : es ≠ []) (hes : ∀ e ∈ es, e.Known ∧ e.Small) {n : Nat} (hn : es.length ≤ n)
    (rest : List UInt8) :
    Cfg.readVies resultAttributes n (toNextTag (text ++ (ascii "</" ++ rest))) = some (es, ascii "</" ++ rest) := by
  induction es generalizing text n with
  | nil => exact absurd rfl hne
  | cons e es ih =>
    obtain ⟨text', ht, htag⟩ := h.toNextTag_cons (ascii "</" ++ rest)
    obtain ⟨hknown, hsmall⟩ := hes e List.mem_cons_self
    rw [List.length_cons] at hn
    obtain ⟨n, rfl⟩ := Nat.exists_eq_add_of_lt (show 0 < n by omega)
    rw [Nat.zero_add] at hn ⊢
    rw [htag, Cfg.readVies, VieEntry.readVie_element hknown hsmall]
    dsimp only [Option.bind_eq_bind, Option.bind_some]
    rcases es with - | ⟨e', es⟩
    · cases ht with
      | nil hgap =>
        have hend : toNextTag (text' ++ (ascii "</" ++ rest)) = ascii "</" ++ rest := by
          rw [toNextTag_append hgap]
          rfl
        have hpre : (ascii "</").isPrefixOf (ascii "</" ++ rest) = true := by simp
        rw [hend, if_pos hpre]
        rfl
    · obtain ⟨text'', -, hnext⟩ := ht.toNextTag_cons (ascii "</" ++ rest)
      have hopen : ¬ (ascii "</").isPrefixOf (toNextTag (text' ++ (ascii "</" ++ rest))) = true := by
        rw [hnext, VieEntry.element]
        simp only [List.append_assoc]
        exact Bool.false_ne_true
      rw [if_neg hopen, ih ht (List.cons_ne_nil _ _) (fun e he => hes e (List.mem_cons_of_mem _ he)) (by omega)]
      rfl

end Spaced

/-! ## Nesting -/

/-- The characters of the tags. -/
def tagMarks : Marks UInt8 := ⟨ltChar, gtChar, slashChar, blankChar⟩

theorem nested_plain {text : List UInt8} (h : ∀ c ∈ text, c ∉ 0 :: ascii "<>") : Nested tagMarks text :=
  .plain fun hmem => h ltChar hmem (by decide)

/-- A tag with no attribute. -/
theorem nested_tag (name : List UInt8) {text : List UInt8} (hname : ∀ c ∈ name, c ∉ ascii " <>/") (h : Nested tagMarks text) :
    Nested tagMarks (ascii "<" ++ name ++ ascii ">" ++ text ++ (ascii "</" ++ name ++ ascii ">")) := by
  have hlt : ltChar ∉ name := fun hmem => hname _ hmem (by decide)
  have hgt : gtChar ∉ name := fun hmem => hname _ hmem (by decide)
  have hopen : name.takeWhile (· ≠ blankChar) = name := by
    rw [List.takeWhile_eq_self_iff]
    intro c hc
    have hne : c ≠ blankChar := fun heq => hname c hc (heq ▸ by decide)
    simpa using hne
  refine Nested.element (k := tagMarks) hopen ?_ hlt hgt ?_ ?_ h
  · intro hslash
    exact hname slashChar (List.mem_of_mem_head? hslash) (by decide)
  · exact fun hmem => (List.mem_cons.mp hmem).elim (by decide) hlt
  · exact fun hmem => (List.mem_cons.mp hmem).elim (by decide) hgt

theorem VieEntry.nested_element {e : VieEntry} (h : e.Small) : Nested tagMarks e.element := by
  have hvalue : Nested tagMarks (e.opened ++ e.cutValue e.bytes ++ e.closed) := by
    have hplain := nested_plain (cutValue_plain h e.bytes)
    rcases e with ⟨id, v | data⟩
    · simpa [opened, closed] using hplain
    · unfold opened closed
      dsimp only
      by_cases hascii : isAscii data = true
      · rw [if_pos hascii, if_pos hascii]
        exact nested_tag (ascii "as") (by decide +kernel) hplain
      · rw [if_neg hascii, if_neg hascii]
        exact nested_tag (ascii "bs") (by decide +kernel) hplain
  have hlt : ltChar ∉ e.name := fun hmem => e.name_plain _ hmem (by decide)
  have hgt : gtChar ∉ e.name := fun hmem => e.name_plain _ hmem (by decide)
  have hbody : ∀ c ∈ [ltChar, gtChar], c ∉ ascii "vie id=\"" ++ e.name ++ ascii "\"" := by
    intro c hc
    rw [List.mem_append, List.mem_append, not_or, not_or]
    rcases List.mem_cons.mp hc with rfl | hc
    · exact ⟨⟨by decide, hlt⟩, by decide⟩
    · rw [List.mem_singleton.mp hc]
      exact ⟨⟨by decide, hgt⟩, by decide⟩
  have hname : (ascii "vie id=\"" ++ e.name ++ ascii "\"").takeWhile (· ≠ blankChar) = ascii "vie" := rfl
  have hhead : (ascii "vie id=\"" ++ e.name ++ ascii "\"").head? = some 118 := rfl
  have hlt' : ltChar ∉ slashChar :: ascii "vie" := by decide
  have hgt' : gtChar ∉ slashChar :: ascii "vie" := by decide
  have helement := Nested.element (k := tagMarks) hname (by rw [hhead]; decide) (hbody ltChar (by decide))
    (hbody gtChar (by decide)) hlt' hgt' hvalue
  have hsplit : e.element = ltChar :: (ascii "vie id=\"" ++ e.name ++ ascii "\"") ++ [gtChar]
      ++ (e.opened ++ e.cutValue e.bytes ++ e.closed) ++ (ltChar :: slashChar :: ascii "vie" ++ [gtChar]) := by
    have h1 : ascii "<vie id=\"" = ltChar :: ascii "vie id=\"" := rfl
    have h2 : ascii "\">" = ascii "\"" ++ [gtChar] := rfl
    have h3 : ascii "</vie>" = ltChar :: slashChar :: ascii "vie" ++ [gtChar] := rfl
    unfold element
    rw [h1, h2, h3]
    simp only [List.append_assoc, List.cons_append]
  rw [hsplit]
  exact helement

theorem Spaced.nested {es : List VieEntry} {text : List UInt8} (h : Spaced es text) (hes : ∀ e ∈ es, e.Small) :
    Nested tagMarks text := by
  induction h with
  | nil hgap => exact .plain hgap
  | cons hgap ht ih =>
    refine (Nested.plain hgap).append ((VieEntry.nested_element (hes _ List.mem_cons_self)).append (ih ?_))
    exact fun e he => hes e (List.mem_cons_of_mem _ he)

/-! ## The document -/

/-- A text whose tags are nested and which is read as some elements. -/
structure Document (es : List VieEntry) (text : List UInt8) : Prop where
  nested : Nested tagMarks text
  read : ∃ rest, readTlie resultAttributes text = some (es, rest)

theorem Spaced.document {es : List VieEntry} {text : List UInt8} (h : Spaced es text) (hne : es ≠ [])
    (hes : ∀ e ∈ es, e.Known ∧ e.Small) :
    Document es (ascii "\t\t<tlie>\n" ++ text ++ ascii "\t\t</tlie>\n") := by
  have hinner : Spaced es (ascii "\n" ++ text ++ ascii "\t\t") := by
    have hfront : Spaced es (ascii "\n" ++ text) := gap_append (by decide) h
    have hend : Spaced [] (ascii "\t\t") := .nil (by decide)
    simpa only [List.append_nil] using hfront.append hend
  have hsplit : ascii "\t\t<tlie>\n" ++ text ++ ascii "\t\t</tlie>\n"
      = ascii "\t\t" ++ (ascii "<" ++ ascii "tlie" ++ ascii ">" ++ (ascii "\n" ++ text ++ ascii "\t\t")
        ++ (ascii "</" ++ ascii "tlie" ++ ascii ">")) ++ ascii "\n" := by
    have h1 : ascii "\t\t<tlie>\n" = ascii "\t\t" ++ (ascii "<" ++ (ascii "tlie" ++ (ascii ">" ++ ascii "\n"))) := rfl
    have h2 : ascii "\t\t</tlie>\n" = ascii "\t\t" ++ (ascii "</" ++ (ascii "tlie" ++ (ascii ">" ++ ascii "\n"))) := rfl
    rw [h1, h2]
    simp only [List.append_assoc]
  rw [hsplit]
  refine ⟨?_, ascii "\n", ?_⟩
  · have htlie := nested_tag (ascii "tlie") (by decide +kernel) (hinner.nested fun e he => (hes e he).2)
    exact (Nested.append (.plain (by decide)) htlie).append (.plain (by decide))
  · have hfuel := hinner.length_le
    have hread := hinner.readVies hne hes (n := (ascii "\n" ++ text ++ ascii "\t\t" ++ (ascii "</" ++ (ascii "tlie" ++
      (ascii ">" ++ ascii "\n")))).length) (by rw [List.length_append]; omega) (ascii "tlie" ++ (ascii ">" ++ ascii "\n"))
    have htag : findTagByName resultAttributes (toNextTag (ascii "\t\t" ++ (ascii "<" ++ ascii "tlie" ++ ascii ">"
        ++ (ascii "\n" ++ text ++ ascii "\t\t") ++ (ascii "</" ++ ascii "tlie" ++ ascii ">")) ++ ascii "\n"))
        = some (⟨ascii "tlie", Vie.tlie, none, .tlie⟩, ascii "\n" ++ text ++ ascii "\t\t"
          ++ (ascii "</" ++ (ascii "tlie" ++ (ascii ">" ++ ascii "\n")))) := by
      simp only [List.append_assoc]
      rfl
    have hclose : closeTag ⟨ascii "tlie", Vie.tlie, none, .tlie⟩ (toNextTag (ascii "</" ++ (ascii "tlie" ++ (ascii ">" ++
        ascii "\n")))) = some (ascii "\n") := rfl
    unfold readTlie
    rw [htag]
    dsimp only [Option.bind_eq_bind, Option.bind_some]
    rw [if_pos rfl, hread]
    dsimp only [Option.bind_some]
    rw [hclose]
    rfl

/-! ## What is printed is known -/

theorem Elems.known_printed {t : Tlie} : ∀ e ∈ t.content.printed, e.Known := by
  intro e he
  unfold Elems.printed at he
  rcases hs : t.content.section_ with - | ref
  · rw [hs] at he
    cases he
  · rw [hs] at he
    obtain ⟨id, -, hentry⟩ := List.mem_filterMap.mp he
    rcases find_of_entry hentry with ⟨value, rest, hf, rfl⟩ | ⟨data, rest, hf, rfl⟩
    · have hok := (find_place hf).1.ok t.ok
      obtain ⟨tag, htag, hform⟩ := Option.map_eq_some_iff.mp hok.1
      refine ⟨⟨tag, find_resultAttributes htag, hform⟩, ?_⟩
      rintro v hv
      cases hv
      exact hok.2.1
    · have hok := (find_place hf).1.ok t.ok
      obtain ⟨tag, htag, hform⟩ := Option.map_eq_some_iff.mp hok.1
      exact ⟨⟨tag, find_resultAttributes htag, hform⟩, fun v hv => by cases hv⟩

/-- The result of the update. -/
def responseEntry (result : HotUpdateResult) : VieEntry := ⟨Vie.parameterLine + 1, .number result.toNat⟩

theorem HotUpdateResult.toNat_lt (result : HotUpdateResult) : result.toNat < 7 := by
  cases result <;> decide

theorem responseEntry_known (result : HotUpdateResult) : (responseEntry result).Known ∧ (responseEntry result).Small := by
  have hlt := result.toNat_lt
  refine ⟨⟨⟨_, rfl, rfl⟩, ?_⟩, (by decide : 0 < 2147483648)⟩
  rintro v hv
  cases hv
  omega

theorem responseEntry_text (result : HotUpdateResult) :
    openVie (ascii "response") ++ numeral 10 result.toNat ++ closeVie = (responseEntry result).text := by
  have hlt := result.toNat_lt
  have hname : (responseEntry result).name = ascii "response" := rfl
  have hdigit : numeral 10 result.toNat = numeral 16 result.toNat := by
    rw [numeral_of_lt (by omega), numeral_of_lt (by omega)]
  unfold VieEntry.text VieEntry.cutText
  rw [hname, hdigit]
  simp [VieEntry.opened, VieEntry.closed, VieEntry.cutValue, responseEntry]

theorem length_responseEntry (result : HotUpdateResult) : (responseEntry result).text.length = 30 := by
  have hlt := result.toNat_lt
  rw [← responseEntry_text, numeral_of_lt (by omega)]
  rfl

/-! ## The length -/

namespace VieEntry

/-- How many characters the element takes. -/
def size (e : VieEntry) : Nat :=
  21 + e.name.length +
    match e.value with
    | .number v => (numeral 16 v).length
    | .bytes data => 9 + if isAscii data then data.length else 3 * data.length - 1

theorem length_hexList (data : List UInt8) : (hexList data).length = 3 * data.length - 1 := by
  rcases data with - | ⟨b, data⟩
  · rfl
  · induction data generalizing b with
    | nil => rfl
    | cons b' data ih =>
      have hrest := ih b'
      have hbyte : (hexByte b).length = 2 := rfl
      simp only [hexList_cons, List.length_append, List.length_cons, hbyte] at hrest ⊢
      omega

theorem length_text (e : VieEntry) : e.text.length = e.size := by
  have h1 : (ascii "\t\t\t<vie id=\"").length = 12 := rfl
  have h2 : (ascii "\">").length = 2 := rfl
  have h3 : closeVie.length = 7 := rfl
  unfold text cutText openVie size
  simp only [List.length_append, h1, h2, h3]
  rcases e with ⟨id, v | data⟩
  · simp only [opened, closed, cutValue, List.length_nil]
    omega
  · have h4 : (ascii "<as>").length = 4 ∧ (ascii "<bs>").length = 4 := ⟨rfl, rfl⟩
    have h5 : (ascii "</as>").length = 5 ∧ (ascii "</bs>").length = 5 := ⟨rfl, rfl⟩
    unfold opened closed cutValue bytes
    dsimp only
    rw [List.take_length]
    split
    · omega
    · rw [length_hexList]
      omega

theorem bytes_le_size (e : VieEntry) : e.bytes ≤ e.size := by
  rcases e with ⟨id, v | data⟩
  · exact Nat.zero_le _
  · unfold bytes size
    dsimp only
    split
    · omega
    · rename_i hascii
      have hne : data ≠ [] := by
        rintro rfl
        exact hascii rfl
      have hpos := List.length_pos_of_ne_nil hne
      omega

theorem length_texts (es : List VieEntry) : (texts es).length = (es.map size).sum := by
  induction es with
  | nil => rfl
  | cons e es ih =>
    have hcons : texts (e :: es) = e.text ++ texts es := rfl
    rw [hcons, List.length_append, length_text, ih, List.map_cons, List.sum_cons]

theorem count_texts {es : List VieEntry} (h : AllSmall es) : (texts es).count gtChar = (es.map tags).sum := by
  induction es with
  | nil => rfl
  | cons e es ih =>
    have hcons : texts (e :: es) = e.text ++ texts es := rfl
    rw [hcons, List.count_append, text, count_cutText (h e List.mem_cons_self),
      ih fun e' he' => h e' (List.mem_cons_of_mem e he'), List.map_cons, List.sum_cons]

theorem bytes_le_sum {es : List VieEntry} {e : VieEntry} (h : e ∈ es) : e.bytes ≤ (es.map bytes).sum :=
  List.le_sum_of_mem (List.mem_map_of_mem h)

end VieEntry

/-! ## The call -/

section Call

variable {σ : Type} (addString : σ → List UInt8 → σ × Int)

/-- Strings that were appended one after the other. -/
inductive Appended : σ → List (List UInt8) → σ → Prop where
  | nil (s : σ) : Appended s [] s
  | cons {s s' s'' : σ} {p : List UInt8} {ps : List (List UInt8)} (h : addString s p = (s', 0)) (hrest : Appended s' ps s'') :
      Appended s (p :: ps) s''

/-- The strings of a result. -/
def resultStrings (value result : List UInt8) : List (List UInt8) := [ascii "\t\t<tlie>\n", value, result, ascii "\t\t</tlie>\n"]

theorem resultStrings_flatten (value result : List UInt8) :
    (resultStrings value result).flatten = ascii "\t\t<tlie>\n" ++ (value ++ result) ++ ascii "\t\t</tlie>\n" := by
  simp [resultStrings]

/-- The calls of the function, until one fails. -/
def addAll : List (List UInt8) → σ → σ × Int
  | [], s => (s, 0)
  | p :: ps, s =>
    let (s, failed) := addString s p
    if failed ≠ 0 then (s, -1) else addAll ps s

variable {addString}

theorem addAll_appended {ps : List (List UInt8)} {s : σ} (h : (addAll addString ps s).2 = 0) :
    Appended addString s ps (addAll addString ps s).1 := by
  induction ps generalizing s with
  | nil => exact .nil s
  | cons p ps ih =>
    rcases hadd : addString s p with ⟨s1, failed⟩
    unfold addAll at h ⊢
    rw [hadd] at h ⊢
    dsimp only at h ⊢
    by_cases hf : failed ≠ 0
    · rw [if_pos hf] at h
      cases h
    · rw [if_neg hf] at h ⊢
      have hzero : failed = 0 := by simpa using hf
      exact .cons (hzero ▸ hadd) (ih h)

variable {f : Snprintf} {m m1 : Mem} {n : Nat} {t : Tlie} {behind : List UInt8} {ref : CfgSection} {o : Printed}

theorem write_none (hs : t.content.section_ = none) (result : HotUpdateResult) (s : σ) :
    writeVariableUpdateResult f addString m (t.encode ++ behind) result s = .ok (s, -1) := by
  unfold writeVariableUpdateResult
  dsimp only
  rw [identifySection_getSectionType, hs]
  rfl

theorem write_ok (hs : t.content.section_ = some ref)
    (hvalue : snprintValue f m 0 (t.encode ++ behind) (bufferSize - 1) = .ok (m1, n)) {result : HotUpdateResult}
    (hresult : snprintfAt f 0 (bufferSize - 1) (responseEntry result).text (m1, 0) = .ok o) (s : σ) :
    writeVariableUpdateResult f addString m (t.encode ++ behind) result s
      = .ok (addAll addString (resultStrings (cString m1 bufferSize) (cString o.1 bufferSize)) s) := by
  unfold writeVariableUpdateResult
  dsimp only
  rw [identifySection_getSectionType, hs, hvalue, responseEntry_text]
  dsimp only [addAll, resultStrings]
  split
  · rfl
  · rw [ok_bind_ok]
    dsimp only
    split
    · rfl
    · rw [hresult, ok_bind_ok]
      split
      · rfl
      · split
        · rfl
        · rfl

theorem write_error (hs : t.content.section_ = some ref) {e : Fault}
    (hvalue : snprintValue f m 0 (t.encode ++ behind) (bufferSize - 1) = .error e) {result : HotUpdateResult} {s : σ}
    (hadd : (addString s (ascii "\t\t<tlie>\n")).2 = 0) :
    writeVariableUpdateResult f addString m (t.encode ++ behind) result s = .error e := by
  unfold writeVariableUpdateResult
  dsimp only
  rw [identifySection_getSectionType, hs, hvalue]
  dsimp only
  rw [if_neg (by simpa using hadd)]
  rfl

end Call

/-! ## The result -/

/-- Whatever appends the strings: nothing is written outside the buffer, and if the function
    returns 0 it appended a document of the section. -/
def Documented (f : Snprintf) (m : Mem) (t : Tlie) (behind : List UInt8) (result : HotUpdateResult) : Prop :=
  ∀ (σ : Type) (addString : σ → List UInt8 → σ × Int) (s : σ), ∃ s' ret,
    writeVariableUpdateResult f addString m (t.encode ++ behind) result s = .ok (s', ret) ∧
      (ret = 0 → ∃ strings, Appended addString s strings s' ∧
        Document (t.content.printed ++ [responseEntry result]) strings.flatten)

/-- How many characters the elements of the section take. -/
def Elems.printedSize (es : Elems) : Nat := (es.printed.map VieEntry.size).sum

section Result

variable {f : Snprintf} {m : Mem} {t : Tlie} {behind : List UInt8} {result : HotUpdateResult} {ref : CfgSection}

/-- The text of the result is always printed. -/
theorem result_printed (f : Snprintf) (m : Mem) (result : HotUpdateResult) :
    ∃ o, snprintfAt f 0 (bufferSize - 1) (responseEntry result).text (m, 0) = .ok o ∧
      cString o.1 bufferSize = (responseEntry result).text := by
  have hlen := length_responseEntry result
  have hsmall := (responseEntry_known result).2
  have hnil : Holds 0 (m, 0) [] := Keeps.nil (by decide) m
  obtain ⟨o, ho⟩ := snprintfAt_ok f rfl hnil (by decide) (responseEntry result).text
  have hholds := snprintfAt_holds rfl hnil ho
  rw [List.nil_append] at hholds
  have hne : (responseEntry result).text ≠ [] := List.ne_nil_of_length_pos (by omega)
  refine ⟨o, ho, ?_⟩
  rw [Keeps.cString hholds (by decide) (by decide) hne (VieEntry.clean_cutText hsmall _), List.take_of_length_le (by omega)]

theorem printed_ne_nil (hs : t.content.section_ = some ref) : t.content.printed ≠ [] := by
  have hfind : (t.content.find ref.type).isSome = true := by simpa using List.find?_some hs
  have htlie := printed_ne_tlie ref (List.mem_of_find?_eq_some hs) ref.type List.mem_cons_self
  rcases he : t.content.entry ref.type with - | e
  · rw [(Elems.entry_eq_none htlie).mp he] at hfind
    cases hfind
  · unfold Elems.printed Elems.entries CfgSection.printed
    rw [hs]
    dsimp only
    rw [List.filterMap_cons_some he]
    exact List.cons_ne_nil _ _

theorem texts_ne_nil {es : List VieEntry} (h : es ≠ []) : VieEntry.texts es ≠ [] := by
  obtain ⟨e, es, rfl⟩ := List.exists_cons_of_ne_nil h
  exact List.append_ne_nil_of_left_ne_nil (List.cons_ne_nil _ _) _

/-- The elements are printed whole, up to the last line feed. -/
theorem spaced_take {es : List VieEntry} (h : (VieEntry.texts es).length ≤ 511) :
    Spaced es ((VieEntry.texts es).take 510) := by
  by_cases hfull : (VieEntry.texts es).length = 511
  · have hdrop := Spaced.dropLast es
    rwa [List.dropLast_eq_take, hfull] at hdrop
  · rw [List.take_of_length_le (by omega)]
    exact .texts es

theorem documented_of_size (h : t.content.printedSize ≤ 511) : Documented f m t behind result := by
  intro σ addString s
  rcases hs : t.content.section_ with - | ref
  · exact ⟨s, -1, write_none hs result s, fun h0 => absurd h0 (by decide)⟩
  · have hlen := VieEntry.length_texts t.content.printed
    have hfits : (VieEntry.texts t.content.printed).length ≤ 511 := hlen.le.trans h
    have hsmall : AllSmall t.content.printed := by
      intro e he
      have hle : e.size ≤ t.content.printedSize := List.le_sum_of_mem (List.mem_map_of_mem he)
      have hbytes := e.bytes_le_size
      unfold VieEntry.Small
      omega
    have hprinting := snprintValue_printing f m behind hs
    obtain ⟨o, ho⟩ := hprinting.ok (by rwa [List.nil_append])
    obtain ⟨X, hholds, hXlen, halike, hcut⟩ := hprinting.holds o ho
    have hX : X = VieEntry.texts t.content.printed := by
      by_contra hne
      have hlong := hcut hne
      rw [List.nil_append] at hlong
      omega
    obtain ⟨o', ho', hstring⟩ := result_printed f o.1 result
    have hclean := (halike hsmall).clean
    rw [List.nil_append] at hholds
    have hvalue : cString o.1 bufferSize = X.take 510 := Keeps.cString hholds (by decide) (by decide)
      (hX ▸ texts_ne_nil (printed_ne_nil hs)) hclean
    have hspaced := (spaced_take hfits).append (Spaced.line (responseEntry result))
    have hall : ∀ e ∈ t.content.printed ++ [responseEntry result], e.Known ∧ e.Small := by
      intro e he
      rcases List.mem_append.mp he with he | he
      · exact ⟨Elems.known_printed e he, hsmall e he⟩
      · rw [List.mem_singleton.mp he]
        exact responseEntry_known result
    have hdoc := hspaced.document (by simp) hall
    rw [write_ok hs ho ho' s, hvalue, hstring, hX]
    refine ⟨(addAll addString (resultStrings ((VieEntry.texts t.content.printed).take 510) (responseEntry result).text) s).1,
      _, rfl, fun h0 => ⟨_, addAll_appended h0, ?_⟩⟩
    rw [resultStrings_flatten]
    exact hdoc

/-- A caller that keeps the strings. -/
def keepStrings (s : List (List UInt8)) (p : List UInt8) : List (List UInt8) × Int := (s ++ [p], 0)

theorem keepStrings_appended {s s' strings : List (List UInt8)} (h : Appended keepStrings s strings s') : s' = s ++ strings := by
  induction h with
  | nil s => simp
  | cons h _ ih =>
    cases h
    rw [ih]
    simp

/-- With more characters some tag or some byte is missing. -/
theorem size_of_documented (h : Documented f m t behind result) : t.content.printedSize ≤ 511 := by
  rcases hs : t.content.section_ with - | ref
  · have hnone : t.content.printed = [] := by
      unfold Elems.printed
      rw [hs]
    unfold Elems.printedSize
    rw [hnone]
    exact Nat.zero_le 511
  · by_contra hlong
    have hlen : 512 ≤ (VieEntry.texts t.content.printed).length := by
      rw [VieEntry.length_texts]
      exact Nat.lt_of_not_le hlong
    obtain ⟨s', ret, hwrite, hret⟩ := h _ keepStrings []
    have hprinting := snprintValue_printing f m behind hs
    rcases hvalue : snprintValue f m 0 (t.encode ++ behind) (bufferSize - 1) with e | o
    · rw [write_error hs hvalue rfl] at hwrite
      cases hwrite
    · obtain ⟨o', ho', hstring⟩ := result_printed f o.1 result
      rw [write_ok hs hvalue ho', hstring] at hwrite
      cases hwrite
      obtain ⟨strings, happended, hdoc⟩ := hret rfl
      have hstrings : strings = resultStrings (cString o.1 bufferSize) (responseEntry result).text :=
        (keepStrings_appended happended).symm
      obtain ⟨rest, hread⟩ := hdoc.read
      have hreads := reads_readTlie hread
      have htags := hreads.tags
      have hlength := hreads.length
      have hresp : (responseEntry result).text.count gtChar = 2 := VieEntry.count_cutText (responseEntry_known result).2 _
      have hresplen := length_responseEntry result
      have hresptags : (responseEntry result).tags = 2 := rfl
      have hopen : (ascii "\t\t<tlie>\n").count gtChar = 1 ∧ (ascii "\t\t<tlie>\n").length = 9 := ⟨rfl, rfl⟩
      have hclose : (ascii "\t\t</tlie>\n").count gtChar = 1 ∧ (ascii "\t\t</tlie>\n").length = 10 := ⟨rfl, rfl⟩
      have hbuffer : (cString o.1 bufferSize).length ≤ 512 := length_cString_le o.1 bufferSize
      rw [hstrings, resultStrings_flatten] at htags hlength
      simp only [List.count_append, List.length_append, List.map_append, List.map_cons, List.map_nil, List.sum_append,
        List.sum_cons, List.sum_nil, hopen, hclose, hresp, hresplen, hresptags] at htags hlength
      by_cases hsmall : AllSmall t.content.printed
      -- The front of the text has fewer tags.
      · obtain ⟨X, hholds, hXlen, halike, hcut⟩ := hprinting.holds o hvalue
        rw [List.nil_append] at hholds hcut
        have hXlong : 512 ≤ X.length := by
          by_cases hX : X = VieEntry.texts t.content.printed
          · rw [hX]
            exact hlen
          · exact hcut hX
        have hstr : cString o.1 bufferSize = X.take 510 := Keeps.cString hholds (by decide) (by decide)
          (List.ne_nil_of_length_pos (by omega)) (halike hsmall).clean
        have hfewer := (halike hsmall).take_tags (texts_ne_nil (printed_ne_nil hs)) (n := 510) (by omega)
        rw [hstr] at htags
        rw [VieEntry.count_texts hsmall] at hfewer
        omega
      -- A value of so many bytes is in no text that has room.
      · unfold AllSmall at hsmall
        push Not at hsmall
        obtain ⟨e, he, hlarge⟩ := hsmall
        have hsum := VieEntry.bytes_le_sum he
        unfold VieEntry.Small at hlarge
        omega

/-- For every section: its result is written as it should be if and only if its elements take
    at most 511 characters. -/
theorem response_document (f : Snprintf) (m : Mem) (t : Tlie) (behind : List UInt8) (result : HotUpdateResult) :
    Documented f m t behind result ↔ t.content.printedSize ≤ 511 :=
  ⟨size_of_documented, documented_of_size⟩

end Result

/-- The variable `A`, with 500 characters. -/
def longVariable : Tlie where
  content := .bs Vie.namedVarName [65] (.bs Vie.namedVarValue (List.replicate 500 65) .nil)
  ok := by decide +kernel
  ne := nofun
  size := by decide +kernel

theorem long_value_lost : ¬ Documented cSnprintf (fun _ => 0) longVariable [] .noChangesDetected := by
  rw [response_document]
  decide +kernel

end Divas.Cfg
