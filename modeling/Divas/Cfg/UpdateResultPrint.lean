/-
  Divas.Cfg.UpdateResultPrint — what is printed of a section.

  `VieEntry.text` is the whole text of an element. A value that is too long is cut, and the
  text is then too long for the buffer, so what was printed is always told by some text
  that is `Alike`: with as many tags, no longer, and with the same end.

  Proved: after the elements of a section the buffer holds what has room of such a text, and
  of the whole one if this is shorter than 512 characters; then no write is outside
  (`snprintValue_printing`).
-/

import Divas.Cfg.UpdateResult
import Divas.Cfg.Tree

namespace Divas.Cfg

open Divas.Lib Bytes Checks Print

/-! ## The text of an element -/

/-- The names of the elements of a result. -/
def resultAttributes : List VieTag := vieAttributes ++ [.vie (Vie.parameterLine + 1) "response" .vle]

namespace VieEntry

def name (e : VieEntry) : List UInt8 := ((resultAttributes.find? (·.id == e.id)).bind (·.attributeName)).getD []

/-- The first bytes of a value, as the whole value is printed. -/
def cutValue (e : VieEntry) (k : Nat) : List UInt8 :=
  match e.value with
  | .number v => numeral 16 v
  | .bytes data => if isAscii data then data.take k else hexList (data.take k)

def opened (e : VieEntry) : List UInt8 :=
  match e.value with
  | .number _ => []
  | .bytes data => if isAscii data then ascii "<as>" else ascii "<bs>"

def closed (e : VieEntry) : List UInt8 :=
  match e.value with
  | .number _ => []
  | .bytes data => if isAscii data then ascii "</as>" else ascii "</bs>"

def cutText (e : VieEntry) (k : Nat) : List UInt8 := openVie e.name ++ e.opened ++ e.cutValue k ++ e.closed ++ closeVie

def text (e : VieEntry) : List UInt8 := e.cutText e.bytes

/-- The length of a value is an `int`. -/
def Small (e : VieEntry) : Prop := e.bytes < 2147483648

end VieEntry

/-- A text with as many tags as another one, no longer, with the same end, and no zero. -/
structure Alike (full text : List UInt8) : Prop where
  tags : text.count gtChar = full.count gtChar
  length : text.length ≤ full.length
  ends : full ≠ [] → ∃ front, text = front ++ ascii ">\n"
  clean : 0 ∉ text

namespace Alike

variable {full text full' text' : List UInt8}

theorem nil : Alike [] [] := ⟨rfl, Nat.le_refl 0, fun h => absurd rfl h, List.not_mem_nil⟩

theorem append (h : Alike full text) (h' : Alike full' text') : Alike (full ++ full') (text ++ text') := by
  have hlen := h.length
  have hlen' := h'.length
  refine ⟨?_, ?_, ?_, ?_⟩
  · rw [List.count_append, List.count_append, h.tags, h'.tags]
  · rw [List.length_append, List.length_append]
    omega
  · intro hne
    by_cases hnil : full' = []
    · have htext : text' = [] := by
        rw [hnil] at hlen'
        exact List.eq_nil_of_length_eq_zero (Nat.le_zero.mp hlen')
      rw [hnil, List.append_nil] at hne
      rw [htext, List.append_nil]
      exact h.ends hne
    · obtain ⟨front, hfront⟩ := h'.ends hnil
      exact ⟨text ++ front, by rw [hfront, List.append_assoc]⟩
  · exact fun hmem => (List.mem_append.mp hmem).elim h.clean h'.clean

/-- What has room of a text that is too long has fewer tags. -/
theorem take_tags (h : Alike full text) (hne : full ≠ []) {n : Nat} (hlong : n + 1 < text.length) :
    (text.take n).count gtChar < full.count gtChar := by
  obtain ⟨front, hfront⟩ := h.ends hne
  have htags := h.tags
  have hend : (ascii ">\n").length = 2 := rfl
  have hgt : (ascii ">\n").count gtChar = 1 := rfl
  rw [hfront, List.length_append, hend] at hlong
  rw [hfront, List.count_append, hgt] at htags
  rw [hfront, List.take_append_of_le_length (by omega)]
  have hle := (List.take_sublist n front).count_le gtChar
  omega

end Alike

/-- No character of a name ends anything. -/
theorem attributeName_plain : ∀ tag ∈ resultAttributes, ∀ c ∈ tag.attributeName.getD [], c ∉ 0 :: ascii "<>\"" := by
  have hall : (resultAttributes.all fun tag => (tag.attributeName.getD []).all fun c => decide (c ∉ 0 :: ascii "<>\""))
      = true := by
    decide +kernel
  intro tag htag c hc
  exact of_decide_eq_true (List.all_eq_true.mp (List.all_eq_true.mp hall tag htag) c hc)

theorem VieEntry.name_plain (e : VieEntry) : ∀ c ∈ e.name, c ∉ 0 :: ascii "<>\"" := by
  intro c hc
  unfold VieEntry.name at hc
  rcases hfind : resultAttributes.find? (·.id == e.id) with - | tag
  · rw [hfind] at hc
    exact (List.not_mem_nil hc).elim
  · rw [hfind] at hc
    exact attributeName_plain tag (List.mem_of_find?_eq_some hfind) c hc

theorem isAscii_plain {data : List UInt8} (h : isAscii data = true) (hsmall : data.length < 2147483648) :
    ∀ c ∈ data, c ∉ 0 :: ascii "<>" := by
  unfold isAscii at h
  rw [if_pos hsmall, List.all_eq_true] at h
  intro c hc
  have hall := h c hc
  have hplain : ∀ c : UInt8, (0x20 ≤ c && c ≤ 0x7e && c ≠ ltChar && c ≠ gtChar) = true → c ∉ 0 :: ascii "<>" := by
    intro c hc hmem
    have hlist : c ∈ [0, ltChar, gtChar] := hmem
    simp only [List.mem_cons, List.not_mem_nil, or_false] at hlist
    rcases hlist with rfl | rfl | rfl
    · exact absurd hc (by decide)
    · exact absurd hc (by decide)
    · exact absurd hc (by decide)
  exact hplain c hall

theorem hexList_plain (data : List UInt8) : ∀ c ∈ hexList data, c ∉ 0 :: ascii "<>" := by
  intro c hc
  rcases mem_hexList hc with hdigit | rfl
  · exact hdigit.notMem (by decide +kernel)
  · decide

namespace VieEntry

theorem cutValue_plain {e : VieEntry} (h : e.Small) (k : Nat) : ∀ c ∈ e.cutValue k, c ∉ 0 :: ascii "<>" := by
  intro c hc
  rcases e with ⟨id, v | data⟩
  · exact (digit_of_mem_numeral (by decide) (by decide) hc).notMem (by decide +kernel)
  · unfold cutValue at hc
    dsimp only at hc
    split at hc
    · rename_i hascii
      exact isAscii_plain hascii h c (List.mem_of_mem_take hc)
    · exact hexList_plain _ c hc

/-- As many tags, whatever is cut. -/
theorem count_cutText {e : VieEntry} (h : e.Small) (k : Nat) : (e.cutText k).count gtChar = e.tags := by
  have hname : e.name.count gtChar = 0 := List.count_eq_zero.mpr fun hmem => e.name_plain gtChar hmem (by decide)
  have hvalue : (e.cutValue k).count gtChar = 0 :=
    List.count_eq_zero.mpr fun hmem => cutValue_plain h k gtChar hmem (by decide)
  have hopen : (openVie e.name).count gtChar = 1 := by
    unfold openVie
    rw [List.count_append, List.count_append, hname]
    rfl
  have hclose : closeVie.count gtChar = 1 := rfl
  unfold cutText
  rw [List.count_append, List.count_append, List.count_append, List.count_append, hopen, hvalue, hclose]
  rcases e with ⟨id, v | data⟩
  · rfl
  · unfold opened closed tags
    dsimp only
    split
    · rfl
    · rfl

theorem clean_cutText {e : VieEntry} (h : e.Small) (k : Nat) : 0 ∉ e.cutText k := by
  have hname : 0 ∉ e.name := fun hmem => e.name_plain 0 hmem List.mem_cons_self
  have hvalue : 0 ∉ e.cutValue k := fun hmem => cutValue_plain h k 0 hmem List.mem_cons_self
  have hopened : 0 ∉ e.opened ∧ 0 ∉ e.closed := by
    rcases e with ⟨id, v | data⟩
    · exact ⟨List.not_mem_nil, List.not_mem_nil⟩
    · unfold opened closed
      dsimp only
      split
      · exact ⟨by decide, by decide⟩
      · exact ⟨by decide, by decide⟩
  have hfirst : 0 ∉ ascii "\t\t\t<vie id=\"" := by decide
  have hsecond : 0 ∉ ascii "\">" := by decide
  have hlast : 0 ∉ closeVie := by decide
  unfold cutText openVie
  simp only [List.mem_append, not_or]
  exact ⟨⟨⟨⟨⟨⟨hfirst, hname⟩, hsecond⟩, hopened.1⟩, hvalue⟩, hopened.2⟩, hlast⟩

end VieEntry

theorem hexList_take_le (data : List UInt8) (k : Nat) : (hexList (data.take k)).length ≤ (hexList data).length := by
  rcases data with - | ⟨b, data⟩
  · simp
  · rcases k with - | k
    · exact Nat.zero_le _
    · have hflat : ((data.take k).flatMap fun b => commaChar :: hexByte b).length
          ≤ (data.flatMap fun b => commaChar :: hexByte b).length := by
        conv_rhs => rw [← List.take_append_drop k data, List.flatMap_append]
        rw [List.length_append]
        exact Nat.le_add_right _ _
      rw [List.take_succ_cons, hexList, hexList, List.length_append, List.length_append]
      omega

namespace VieEntry

theorem cutValue_le (e : VieEntry) (k : Nat) : (e.cutValue k).length ≤ (e.cutValue e.bytes).length := by
  rcases e with ⟨id, v | data⟩
  · exact Nat.le_refl _
  · unfold cutValue bytes
    dsimp only
    split
    · rw [List.take_length]
      exact (List.take_sublist k data).length_le
    · rw [List.take_length]
      exact hexList_take_le data k

theorem cutText_le (e : VieEntry) (k : Nat) : (e.cutText k).length ≤ e.text.length := by
  have hle := e.cutValue_le k
  unfold text cutText
  simp only [List.length_append]
  omega

theorem alike_cutText {e : VieEntry} (h : e.Small) (k : Nat) : Alike e.text (e.cutText k) := by
  refine ⟨?_, e.cutText_le k, ?_, clean_cutText h k⟩
  · rw [text, count_cutText h, count_cutText h]
  · intro _
    refine ⟨openVie e.name ++ e.opened ++ e.cutValue k ++ e.closed ++ ascii "</vie", ?_⟩
    rw [List.append_assoc]
    rfl

/-- The text of some elements. -/
def texts (es : List VieEntry) : List UInt8 := es.flatMap text

end VieEntry

/-! ## A piece -/

section Pieces

variable {f : Snprintf} {dst : Nat} {limit : Int} {o o' : Printed} {T piece : List UInt8}

/-- What the buffer holds of a text, when `dst` and `limit` belong together. -/
def Holds (dst : Nat) (o : Printed) (T : List UInt8) : Prop := Keeps 511 o.1 (dst + o.2) T

theorem snprintfAt_eq (f : Snprintf) (hlimit : limit = 511 - (dst : Int)) (piece : List UInt8) (o : Printed) :
    snprintfAt f dst limit piece o
      = print f bufferSize o.1 (dst + o.2) ((511 : Nat) - (dst + o.2 : Nat)) piece >>= fun r => pure (r.1, o.2 + r.2) := by
  have hsize : limit - o.2 = ((511 : Nat) : Int) - (dst + o.2 : Nat) := by
    rw [hlimit]
    omega
  unfold snprintfAt
  rw [hsize]

theorem snprintfAt_holds (hlimit : limit = 511 - (dst : Int)) (h : Holds dst o T)
    (ho : snprintfAt f dst limit piece o = .ok o') : Holds dst o' (T ++ piece) := by
  rw [snprintfAt_eq f hlimit] at ho
  obtain ⟨r, hr, ho⟩ := bind_eq_ok.mp ho
  cases ho
  have hkeeps := h.print (by decide) (by decide) hr
  unfold Holds
  dsimp only
  rwa [← Nat.add_assoc]

theorem snprintfAt_ok (f : Snprintf) (hlimit : limit = 511 - (dst : Int)) (h : Holds dst o T) (hshort : T.length < 511)
    (piece : List UInt8) : Ok (snprintfAt f dst limit piece o) := by
  have hcap : 511 ≤ bufferSize := by decide
  obtain ⟨r, hr⟩ := Keeps.ok f h hshort hcap piece
  rw [snprintfAt_eq f hlimit, hr]
  exact ok_ok _

/-- A text that is not terminated yet: the first piece does it. -/
theorem snprintfAt_shown (f : Snprintf) (hlimit : limit = 511 - (dst : Int)) (h : Shown o.1 (dst + o.2) T)
    (hshort : T.length < 511) (piece : List UInt8) :
    ∃ o', snprintfAt f dst limit piece o = .ok o' ∧ Holds dst o' (T ++ piece) := by
  have hcap : 511 ≤ bufferSize := by decide
  obtain ⟨r, hr, hkeeps⟩ := print_room f h hshort hcap piece
  refine ⟨(r.1, o.2 + r.2), ?_, ?_⟩
  · rw [snprintfAt_eq f hlimit, hr]
    rfl
  · unfold Holds
    dsimp only
    rwa [← Nat.add_assoc]

/-! ## A value -/

/-- More than 5 characters are left. -/
theorem room_iff (hlimit : limit = 511 - (dst : Int)) (h : Holds dst o T) : 5 < limit - o.2 ↔ T.length < 506 := by
  rw [hlimit]
  cases h with
  | room short shown ended =>
    have hplace := shown.place
    omega
  | full long content ended place => omega

theorem copyChars_shown (hlimit : limit = 511 - (dst : Int)) (data : List UInt8) (h : Shown o.1 (dst + o.2) T)
    (hshort : T.length < 511) :
    ∃ o' k, copyChars dst limit data o = .ok o' ∧ k ≤ data.length ∧ (k < data.length → 506 ≤ (T ++ data.take k).length) ∧
      (T ++ data.take k).length < 511 ∧ Shown o'.1 (dst + o'.2) (T ++ data.take k) := by
  induction data generalizing o T with
  | nil => exact ⟨o, 0, rfl, Nat.le_refl 0, fun h => absurd h (by simp), by simpa using hshort, by simpa using h⟩
  | cons b data ih =>
    have hplace := h.place
    unfold copyChars
    by_cases hroom : 5 < limit - o.2
    · have hfits : dst + o.2 + [b].length ≤ bufferSize := by
        rw [List.length_singleton, bufferSize]
        omega
      have hput := put_of_le o.1 hfits
      rw [if_pos hroom, hput, blit_eq_store]
      have hnext : Shown (store o.1 (dst + o.2) [b]) (dst + (o.2 + 1)) (T ++ [b]) := by
        refine ⟨?_, ?_⟩
        · rw [List.length_append]
          exact h.store [b]
        · rw [List.length_append, List.length_singleton]
          omega
      obtain ⟨o', k, hcopy, hk, hcut, hfits, hshown⟩ := ih (o := (store o.1 (dst + o.2) [b], o.2 + 1)) hnext
        (by rw [List.length_append, List.length_singleton]; omega)
      refine ⟨o', k + 1, hcopy, Nat.succ_le_succ hk, ?_, ?_, ?_⟩
      · intro hlt
        have hcut' := hcut (Nat.lt_of_succ_lt_succ hlt)
        simpa using hcut'
      · simpa using hfits
      · simpa using hshown
    · rw [if_neg hroom]
      exact ⟨o, 0, rfl, Nat.zero_le _, fun _ => by simp; omega, by simpa using hshort, by simpa using h⟩

/-- What a loop over a value prints: all of it, or a front that leaves no room. -/
structure Values (dst : Nat) (T : List UInt8) (n : Nat) (value : Nat → List UInt8) (x : Checked Printed) : Prop where
  ok : T.length < 511 → Ok x
  holds : ∀ o', x = .ok o' → ∃ k ≤ n, Holds dst o' (T ++ value k) ∧ (k < n → 506 ≤ (T ++ value k).length)

theorem copyChars_values (f : Snprintf) (hlimit : limit = 511 - (dst : Int)) (data : List UInt8) (h : Holds dst o T) :
    Values dst T data.length (fun k => data.take k) (copyChars dst limit data o >>= snprintfAt f dst limit []) := by
  by_cases hshort : T.length < 511
  · obtain ⟨o1, k, hcopy, hk, hcut, hfits, hshown⟩ := copyChars_shown hlimit data (Keeps.shown h hshort) hshort
    obtain ⟨o2, hprint, hholds⟩ := snprintfAt_shown f hlimit hshown hfits []
    rw [hcopy, ok_bind_ok, hprint]
    refine ⟨fun _ => ok_ok _, ?_⟩
    intro o' ho
    cases ho
    rw [List.append_nil] at hholds
    exact ⟨k, hk, hholds, hcut⟩
  · have hroom : ¬ 5 < limit - o.2 := by
      rw [room_iff hlimit h]
      omega
    have hcopy : copyChars dst limit data o = .ok o := by
      cases data with
      | nil => rfl
      | cons b data =>
        unfold copyChars
        rw [if_neg hroom]
        rfl
    rw [hcopy, ok_bind_ok]
    refine ⟨fun hlt => absurd hlt hshort, ?_⟩
    intro o' ho
    have hholds := snprintfAt_holds hlimit h ho
    refine ⟨0, Nat.zero_le _, by simpa using hholds, ?_⟩
    intro _
    rw [List.take_zero, List.append_nil]
    omega

/-- The bytes of a list behind a comma, or not. -/
def hexFrom (label : Bool) (data : List UInt8) : List UInt8 :=
  if label then data.flatMap fun b => commaChar :: hexByte b else hexList data

theorem hexFrom_cons (label : Bool) (b : UInt8) (data : List UInt8) :
    hexFrom label (b :: data) = ((if label then ascii "," else []) ++ hexByte b) ++ hexFrom true data := by
  cases label with
  | false => simp [hexFrom, hexList]
  | true =>
    simp only [hexFrom, if_true, List.flatMap_cons]
    rfl

theorem printBytes_values (f : Snprintf) (hlimit : limit = 511 - (dst : Int)) (label : Bool) (data : List UInt8)
    (h : Holds dst o T) : Values dst T data.length (fun k => hexFrom label (data.take k))
      (printBytes f dst limit label data o) := by
  induction data generalizing label o T with
  | nil =>
    refine ⟨fun _ => ok_ok o, ?_⟩
    intro o' ho
    cases ho
    refine ⟨0, Nat.le_refl 0, ?_, fun hlt => absurd hlt (by simp)⟩
    cases label with
    | false => simpa [hexFrom, hexList] using h
    | true => simpa [hexFrom] using h
  | cons b data ih =>
    have hiff := room_iff hlimit h
    unfold printBytes
    by_cases hroom : T.length < 506
    · rw [if_pos (hiff.mpr hroom)]
      obtain ⟨o1, ho1⟩ := snprintfAt_ok f hlimit h (by omega) ((if label then ascii "," else []) ++ hexByte b)
      have hnext := ih true (snprintfAt_holds hlimit h ho1)
      have hpiece : ((if label then ascii "," else []) ++ hexByte b).length ≤ 3 := by
        cases label with
        | false => exact (by decide : 2 ≤ 3)
        | true => exact (by decide : 3 ≤ 3)
      rw [ho1, ok_bind_ok]
      refine ⟨fun _ => hnext.ok (by rw [List.length_append]; omega), ?_⟩
      intro o' ho
      obtain ⟨k, hk, hholds, hcut⟩ := hnext.holds o' ho
      refine ⟨k + 1, Nat.succ_le_succ hk, ?_, ?_⟩
      · rw [List.take_succ_cons, hexFrom_cons, ← List.append_assoc]
        exact hholds
      · intro hlt
        rw [List.take_succ_cons, hexFrom_cons, ← List.append_assoc]
        exact hcut (Nat.lt_of_succ_lt_succ hlt)
    · rw [if_neg (fun hlt => hroom (hiff.mp hlt))]
      refine ⟨fun _ => ok_ok o, ?_⟩
      intro o' ho
      cases ho
      refine ⟨0, Nat.zero_le _, ?_, ?_⟩
      · cases label with
        | false => simpa [hexFrom, hexList] using h
        | true => simpa [hexFrom] using h
      · intro _
        rw [List.length_append]
        omega

/-- A value between its tags. -/
theorem bracket {n : Nat} {value : Nat → List UInt8} {loop : Printed → Checked Printed} (f : Snprintf)
    (hlimit : limit = 511 - (dst : Int)) (hloop : ∀ o T, Holds dst o T → Values dst T n value (loop o))
    (hmono : ∀ k, (value k).length ≤ (value n).length) (a b c d : List UInt8) (h : Holds dst o T) :
    ((T ++ (a ++ b ++ value n ++ c)).length < 511 →
      Ok (snprintfAt f dst limit a o >>= fun o => snprintfAt f dst limit b o >>= fun o => loop o >>= fun o =>
        snprintfAt f dst limit c o >>= fun o => snprintfAt f dst limit d o)) ∧
    ∀ o', (snprintfAt f dst limit a o >>= fun o => snprintfAt f dst limit b o >>= fun o => loop o >>= fun o =>
        snprintfAt f dst limit c o >>= fun o => snprintfAt f dst limit d o) = .ok o' →
      ∃ k ≤ n, Holds dst o' (T ++ (a ++ b ++ value k ++ c ++ d)) ∧ (k < n → 506 ≤ (T ++ a ++ b ++ value k).length) := by
  constructor
  · intro hshort
    simp only [List.length_append] at hshort
    obtain ⟨o1, ho1⟩ := snprintfAt_ok f hlimit h (by omega) a
    have h1 := snprintfAt_holds hlimit h ho1
    obtain ⟨o2, ho2⟩ := snprintfAt_ok f hlimit h1 (by simp only [List.length_append]; omega) b
    have h2 := snprintfAt_holds hlimit h1 ho2
    obtain ⟨o3, ho3⟩ := (hloop o2 _ h2).ok (by simp only [List.length_append]; omega)
    obtain ⟨k, -, h3, -⟩ := (hloop o2 _ h2).holds o3 ho3
    have hk := hmono k
    obtain ⟨o4, ho4⟩ := snprintfAt_ok f hlimit h3 (by simp only [List.length_append]; omega) c
    have h4 := snprintfAt_holds hlimit h3 ho4
    rw [ho1, ok_bind_ok, ho2, ok_bind_ok, ho3, ok_bind_ok, ho4, ok_bind_ok]
    exact snprintfAt_ok f hlimit h4 (by simp only [List.length_append]; omega) d
  · intro o' ho
    obtain ⟨o1, ho1, ho⟩ := bind_eq_ok.mp ho
    obtain ⟨o2, ho2, ho⟩ := bind_eq_ok.mp ho
    obtain ⟨o3, ho3, ho⟩ := bind_eq_ok.mp ho
    obtain ⟨o4, ho4, ho⟩ := bind_eq_ok.mp ho
    have h2 := snprintfAt_holds hlimit (snprintfAt_holds hlimit h ho1) ho2
    obtain ⟨k, hk, h3, hcut⟩ := (hloop o2 _ h2).holds o3 ho3
    have h5 := snprintfAt_holds hlimit (snprintfAt_holds hlimit h3 ho4) ho
    refine ⟨k, hk, ?_, hcut⟩
    simpa only [List.append_assoc] using h5

end Pieces

/-! ## An element -/

namespace Elems

/-- The element that is stored under an id. -/
def entry (es : Elems) (id : Nat) : Option VieEntry :=
  match es.find id with
  | some (vle _ value _) => some ⟨id, .number value⟩
  | some (bs _ data _) => some ⟨id, .bytes data⟩
  | _ => none

theorem find_of_entry {es : Elems} {id : Nat} {e : VieEntry} (h : es.entry id = some e) :
    (∃ value rest, es.find id = some (vle id value rest) ∧ e = ⟨id, .number value⟩) ∨
      ∃ data rest, es.find id = some (bs id data rest) ∧ e = ⟨id, .bytes data⟩ := by
  unfold entry at h
  rcases hf : es.find id with - | fs
  · rw [hf] at h
    cases h
  · have hid := (find_place hf).2.2
    rw [hf] at h
    rcases fs with - | ⟨i, value, rest⟩ | ⟨i, data, rest⟩ | ⟨content, rest⟩
    · cases h
    · cases hid
      cases h
      exact Or.inl ⟨value, rest, rfl, rfl⟩
    · cases hid
      cases h
      exact Or.inr ⟨data, rest, rfl, rfl⟩
    · cases h

theorem entry_eq_none {es : Elems} {id : Nat} (hid : id ≠ Vie.tlie) : es.entry id = none ↔ es.find id = none := by
  unfold entry
  rcases hf : es.find id with - | fs
  · exact ⟨fun _ => rfl, fun _ => rfl⟩
  · obtain ⟨-, hne, hfid⟩ := find_place hf
    rcases fs with - | ⟨i, value, rest⟩ | ⟨i, data, rest⟩ | ⟨content, rest⟩
    · exact absurd rfl hne
    · simp
    · simp
    · exact absurd hfid.symm hid

end Elems

/-- What was printed is what has room of a text. -/
structure Printing (dst : Nat) (T full : List UInt8) (small : Prop) (x : Checked Printed) : Prop where
  ok : (T ++ full).length ≤ 511 → Ok x
  holds : ∀ o', x = .ok o' → ∃ X, Holds dst o' (T ++ X) ∧ X.length ≤ full.length ∧ (small → Alike full X) ∧
    (X ≠ full → 512 ≤ (T ++ X).length)

theorem find_resultAttributes {id : Nat} {tag : VieTag} (h : findTagFromId id = some tag) :
    resultAttributes.find? (·.id == id) = some tag := by
  unfold findTagFromId at h
  unfold resultAttributes
  rw [List.find?_append, h]
  rfl

/-- The name that is printed is the one of the table. -/
theorem entry_name {id : Nat} {tag : VieTag} (h : findTagFromId id = some tag) (value : VieValue) :
    (VieEntry.mk id value).name = tag.attributeName.getD [] := by
  unfold VieEntry.name
  dsimp only
  rw [find_resultAttributes h]
  rfl

section Element

variable {f : Snprintf} {dst : Nat} {limit : Int} {o : Printed} {m : Mem} {T : List UInt8} {t : Tlie} {id value : Nat}
  {data : List UInt8} {rest : Elems} {e : VieEntry}

/-- The loop over a value, with the piece that terminates characters. -/
def printValue (f : Snprintf) (dst : Nat) (limit : Int) (data : List UInt8) (o : Printed) : Checked Printed :=
  if isAscii data then copyChars dst limit data o >>= snprintfAt f dst limit [] else printBytes f dst limit false data o

theorem printValue_values (f : Snprintf) (hlimit : limit = 511 - (dst : Int)) (id : Nat) (data : List UInt8) (h : Holds dst o T) :
    Values dst T data.length (VieEntry.mk id (.bytes data)).cutValue (printValue f dst limit data o) := by
  unfold printValue
  by_cases hascii : isAscii data = true
  · have hvalue : (VieEntry.mk id (.bytes data)).cutValue = fun k => data.take k := by
      funext k
      simp [VieEntry.cutValue, hascii]
    rw [if_pos hascii, hvalue]
    exact copyChars_values f hlimit data h
  · have hvalue : (VieEntry.mk id (.bytes data)).cutValue = fun k => hexFrom false (data.take k) := by
      funext k
      simp [VieEntry.cutValue, hascii, hexFrom]
    rw [if_neg hascii, hvalue]
    exact printBytes_values f hlimit false data h

theorem snprintIdent_number (f : Snprintf) (m : Mem) (dst : Nat) (limit : Int) (behind : List UInt8)
    (hf : t.content.find id = some (.vle id value rest)) :
    snprintIdent f m dst (t.encode ++ behind) limit id
      = snprintfAt f dst limit (VieEntry.mk id (.number value)).text (m, 0) := by
  obtain ⟨hplace, -, -⟩ := Elems.find_place hf
  have hok := hplace.ok t.ok
  obtain ⟨tag, htag, hform⟩ := Option.map_eq_some_iff.mp hok.1
  have hid : id < 2 ^ 32 := (Elems.findTagFromId_lt htag).trans (by decide)
  have hnum : elementNumber ((t.encode ++ behind).drop (t.offset (.vle id value rest))) = value := by
    rw [Tlie.drop_offset hplace, Elems.encode, List.append_assoc, List.append_assoc]
    exact elementNumber_encode hid hok.2.1 _
  unfold snprintIdent
  rw [Tlie.getSectionElement_encode, hf, Option.map_some]
  dsimp only
  rw [htag]
  dsimp only
  rw [hform, hnum, ← entry_name htag (.number value)]
  simp [VieEntry.text, VieEntry.cutText, VieEntry.cutValue, VieEntry.opened, VieEntry.closed]

theorem snprintIdent_bytes (f : Snprintf) (m : Mem) (dst : Nat) (limit : Int) (behind : List UInt8)
    (hf : t.content.find id = some (.bs id data rest)) :
    snprintIdent f m dst (t.encode ++ behind) limit id
      = snprintfAt f dst limit (openVie (VieEntry.mk id (.bytes data)).name) (m, 0) >>= fun o =>
          snprintfAt f dst limit (VieEntry.mk id (.bytes data)).opened o >>= fun o =>
          printValue f dst limit data o >>= fun o =>
          snprintfAt f dst limit (VieEntry.mk id (.bytes data)).closed o >>= fun o => snprintfAt f dst limit closeVie o := by
  obtain ⟨hplace, -, -⟩ := Elems.find_place hf
  have hok := hplace.ok t.ok
  obtain ⟨tag, htag, hform⟩ := Option.map_eq_some_iff.mp hok.1
  have hid : id < 2 ^ 32 := (Elems.findTagFromId_lt htag).trans (by decide)
  have hbytes : elementBytes ((t.encode ++ behind).drop (t.offset (.bs id data rest))) = data := by
    rw [Tlie.drop_offset hplace, Elems.encode, List.append_assoc, List.append_assoc, List.append_assoc]
    exact elementBytes_encode hid hok.2.1 _
  unfold snprintIdent
  rw [Tlie.getSectionElement_encode, hf, Option.map_some]
  dsimp only
  rw [htag]
  dsimp only
  rw [hform, hbytes, ← entry_name htag (.bytes data)]
  by_cases hascii : isAscii data = true
  · simp only [VieEntry.opened, VieEntry.closed, printValue, hascii, if_true, bind_assoc]
  · simp only [VieEntry.opened, VieEntry.closed, printValue, hascii, if_false, Bool.false_eq_true]

theorem snprintIdent_printing (f : Snprintf) (hlimit : limit = 511 - (dst : Int)) (behind : List UInt8)
    (he : t.content.entry id = some e) (h : Holds dst (m, 0) T) :
    Printing dst T e.text e.Small (snprintIdent f m dst (t.encode ++ behind) limit id) := by
  have hclose : closeVie.length = 7 := rfl
  rcases Elems.find_of_entry he with ⟨value, rest, hf, rfl⟩ | ⟨data, rest, hf, rfl⟩
  · rw [snprintIdent_number f m dst limit behind hf]
    refine ⟨?_, ?_⟩
    · intro hfits
      refine snprintfAt_ok f hlimit h ?_ _
      rw [VieEntry.text, VieEntry.cutText] at hfits
      simp only [List.length_append, hclose] at hfits
      omega
    · intro o' ho
      exact ⟨_, snprintfAt_holds hlimit h ho, Nat.le_refl _, fun hsmall => VieEntry.alike_cutText hsmall _,
        fun hne => absurd rfl hne⟩
  · have hbracket := bracket f hlimit (fun o T h => printValue_values f hlimit id data h)
      (VieEntry.mk id (.bytes data)).cutValue_le (openVie (VieEntry.mk id (.bytes data)).name)
      (VieEntry.mk id (.bytes data)).opened (VieEntry.mk id (.bytes data)).closed closeVie h
    rw [snprintIdent_bytes f m dst limit behind hf]
    refine ⟨?_, ?_⟩
    · intro hfits
      have hbytes : (VieEntry.mk id (.bytes data)).bytes = data.length := rfl
      refine hbracket.1 ?_
      rw [VieEntry.text, hbytes, VieEntry.cutText] at hfits
      simp only [List.length_append, hclose] at hfits ⊢
      omega
    · intro o' ho
      obtain ⟨k, hk, hholds, hcut⟩ := hbracket.2 o' ho
      refine ⟨(VieEntry.mk id (.bytes data)).cutText k, hholds, VieEntry.cutText_le _ k,
        fun hsmall => VieEntry.alike_cutText hsmall k, ?_⟩
      intro hne
      have hlt : k < data.length := by
        rcases Nat.lt_or_eq_of_le hk with hlt | rfl
        · exact hlt
        · exact absurd rfl hne
      have hlong := hcut hlt
      have hend : 5 ≤ (VieEntry.mk id (.bytes data)).closed.length := by
        unfold VieEntry.closed
        dsimp only
        split
        · exact (by decide : 5 ≤ 5)
        · exact (by decide : 5 ≤ 5)
      rw [VieEntry.cutText]
      simp only [List.length_append, hclose] at hlong ⊢
      omega

end Element

/-! ## A section -/

section Section

variable {dst : Nat} {limit : Int} {o : Printed} {T : List UInt8} {t : Tlie}

/-- The elements of a list that are in the section. -/
def Elems.entries (es : Elems) (ids : List Nat) : List VieEntry := ids.filterMap es.entry

/-- Elements whose lengths are all an `int`. -/
def AllSmall (es : List VieEntry) : Prop := ∀ e ∈ es, e.Small

theorem snprintIdents_printing (f : Snprintf) (hlimit : limit = 511 - (dst : Int)) (behind : List UInt8) {ids : List Nat}
    (hids : ∀ id ∈ ids, id ≠ Vie.tlie) (h : Holds dst o T) :
    Printing dst T (VieEntry.texts (t.content.entries ids)) (AllSmall (t.content.entries ids))
      (snprintIdents f dst (t.encode ++ behind) limit ids o) := by
  induction ids generalizing o T with
  | nil =>
    refine ⟨fun _ => ok_ok o, ?_⟩
    intro o' ho
    cases ho
    exact ⟨[], by simpa using h, Nat.le_refl 0, fun _ => .nil, fun hne => absurd rfl hne⟩
  | cons id ids ih =>
    have hrest := fun id' hid' => hids id' (List.mem_cons_of_mem id hid')
    unfold snprintIdents
    rw [Tlie.getSectionElement_encode, Option.isSome_map]
    rcases he : t.content.entry id with - | e
    · have hf := (Elems.entry_eq_none (hids id List.mem_cons_self)).mp he
      have hentries : t.content.entries (id :: ids) = t.content.entries ids := List.filterMap_cons_none he
      rw [hf, hentries, if_neg (by simp)]
      exact ih hrest h
    · have hf : (t.content.find id).isSome = true := by
        rw [Option.isSome_iff_ne_none]
        intro hnone
        rw [(Elems.entry_eq_none (hids id List.mem_cons_self)).mpr hnone] at he
        cases he
      have hentries : t.content.entries (id :: ids) = e :: t.content.entries ids := List.filterMap_cons_some he
      have htexts : VieEntry.texts (e :: t.content.entries ids) = e.text ++ VieEntry.texts (t.content.entries ids) := rfl
      rw [if_pos hf, hentries, htexts]
      have hlimit' : limit - o.2 = 511 - ((dst + o.2 : Nat) : Int) := by
        rw [hlimit]
        omega
      have hat : Holds (dst + o.2) (o.1, 0) T := h
      have hfirst := snprintIdent_printing f hlimit' behind he hat
      -- What is behind the element, in the whole buffer.
      have hnext : ∀ r X, Holds (dst + o.2) r (T ++ X) → Printing dst (T ++ X) (VieEntry.texts (t.content.entries ids))
          (AllSmall (t.content.entries ids)) (snprintIdents f dst (t.encode ++ behind) limit ids (r.1, o.2 + r.2)) := by
        intro r X hr
        refine ih hrest ?_
        unfold Holds at hr ⊢
        rwa [← Nat.add_assoc]
      refine ⟨?_, ?_⟩
      · intro hfits
        rw [List.length_append, List.length_append] at hfits
        obtain ⟨r, hr⟩ := hfirst.ok (by rw [List.length_append]; omega)
        obtain ⟨X, hX, hlen, -, hne⟩ := hfirst.holds r hr
        rw [hr, ok_bind_ok]
        refine (hnext r X hX).ok ?_
        rw [List.length_append, List.length_append]
        omega
      · intro o' ho
        obtain ⟨r, hr, ho⟩ := bind_eq_ok.mp ho
        obtain ⟨X, hX, hlen, halike, hne⟩ := hfirst.holds r hr
        obtain ⟨Y, hY, hlen', halike', hne'⟩ := (hnext r X hX).holds o' ho
        rw [List.append_assoc] at hY
        refine ⟨X ++ Y, hY, ?_, ?_, ?_⟩
        · rw [List.length_append, List.length_append]
          omega
        · intro hsmall
          exact (halike (hsmall e List.mem_cons_self)).append (halike' fun e' he' => hsmall e' (List.mem_cons_of_mem e he'))
        · intro hcut
          by_cases hX' : X = e.text
          · have hY' : Y ≠ VieEntry.texts (t.content.entries ids) := by
              rintro rfl
              exact hcut (by rw [hX'])
            rw [← List.append_assoc]
            exact hne' hY'
          · have hlong := hne hX'
            rw [← List.append_assoc, List.length_append]
            omega

/-- One list behind another. -/
theorem snprintIdents_append (f : Snprintf) (dst : Nat) (value : List UInt8) (limit : Int) (ids ids' : List Nat) (o : Printed) :
    snprintIdents f dst value limit (ids ++ ids') o
      = snprintIdents f dst value limit ids o >>= snprintIdents f dst value limit ids' := by
  induction ids generalizing o with
  | nil => rfl
  | cons id ids ih =>
    simp only [List.cons_append, snprintIdents]
    split
    · simp only [ih, bind_assoc]
    · exact ih o

/-- The elements that are printed of a section. -/
def CfgSection.printed (ref : CfgSection) : List Nat := ref.type :: (ref.required ++ ref.optional)

/-- The kind of a section. -/
def Elems.section_ (es : Elems) : Option CfgSection := sections.find? fun ref => (es.find ref.type).isSome

/-- What is printed of a section. -/
def Elems.printed (es : Elems) : List VieEntry :=
  match es.section_ with
  | some ref => es.entries ref.printed
  | none => []

theorem identifySection_getSectionType (behind : List UInt8) :
    identifySection (getSectionType (t.encode ++ behind)) = t.content.section_ := by
  have hsame : (sections.find? fun s => (getSectionElement (t.encode ++ behind) s.type).isSome) = t.content.section_ := by
    unfold Elems.section_
    congr 1
    funext s
    rw [Tlie.getSectionElement_encode, Option.isSome_map]
  unfold getSectionType
  rw [hsame]
  have hall : ∀ ref ∈ sections, identifySection ref.type = some ref := by decide
  rcases hs : t.content.section_ with - | ref
  · rfl
  · exact hall ref (List.mem_of_find?_eq_some hs)

theorem snprintValue_eq (f : Snprintf) (m : Mem) (dst : Nat) (limit : Int) (behind : List UInt8) {ref : CfgSection}
    (hs : t.content.section_ = some ref) :
    snprintValue f m dst (t.encode ++ behind) limit = snprintIdents f dst (t.encode ++ behind) limit ref.printed (m, 0) := by
  have htype : getSectionType (t.encode ++ behind) = ref.type := by
    have hid := identifySection_getSectionType (t := t) behind
    rw [hs] at hid
    have hfound : ref.type = getSectionType (t.encode ++ behind) := by simpa using List.find?_some hid
    exact hfound.symm
  have hfind : (t.content.find ref.type).isSome = true := by simpa using List.find?_some hs
  have hfirst : snprintIdents f dst (t.encode ++ behind) limit [ref.type] (m, 0)
      = snprintIdent f m dst (t.encode ++ behind) limit ref.type := by
    unfold snprintIdents
    rw [Tlie.getSectionElement_encode, Option.isSome_map, if_pos hfind]
    simp [snprintIdents]
  have hsplit : ref.printed = [ref.type] ++ (ref.required ++ ref.optional) := rfl
  unfold snprintValue
  dsimp only
  rw [identifySection_getSectionType, hs]
  dsimp only
  rw [htype, hsplit, snprintIdents_append, hfirst]
  congr 1
  funext o
  exact (snprintIdents_append f dst _ limit ref.required ref.optional o).symm

theorem printed_ne_tlie : ∀ ref ∈ sections, ∀ id ∈ ref.printed, id ≠ Vie.tlie := by decide

/-- What the buffer holds after a section. -/
theorem snprintValue_printing (f : Snprintf) (m : Mem) (behind : List UInt8) {ref : CfgSection}
    (hs : t.content.section_ = some ref) :
    Printing 0 [] (VieEntry.texts t.content.printed) (AllSmall t.content.printed)
      (snprintValue f m 0 (t.encode ++ behind) (bufferSize - 1)) := by
  have hprinted : t.content.printed = t.content.entries ref.printed := by
    unfold Elems.printed
    rw [hs]
  have hids := printed_ne_tlie ref (List.mem_of_find?_eq_some hs)
  have hnil : Holds 0 (m, 0) [] := Keeps.nil (by decide) m
  rw [snprintValue_eq f m 0 _ behind hs, hprinted]
  exact snprintIdents_printing f rfl behind hids hnil

end Section

end Divas.Cfg
