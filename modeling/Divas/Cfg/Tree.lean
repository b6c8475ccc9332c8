/-
  Divas.Cfg.Tree — what the configuration storage stands for.

  The tree of the elements, its encoding, and what the walkers find in the encoding of a
  tree. `Elems` is a sequence of elements together with all that follows in it, so a place
  in a sequence is its rest there; its offset is what its length leaves of the whole.

  Proved:
  - a walker that steps over an element of an encoding takes its length (`skip_head`);
  - the length of a stored tlie is what `get_max_length` says (`getMaxLength_encode`);
  - `diva_cfg_get_section_element` finds the first element of an id
    (`getSectionElement_encode`);
  - `diva_cfg_get_next_cfg_section` goes from one tlie to the next (`getNextCfgSection_first`,
    `getNextCfgSection_next`).
-/

import Divas.Cfg.Storage

namespace Divas.Cfg

open Divas.Lib

inductive Elems where
  | nil
  | vle (id value : Nat) (rest : Elems)
  | bs (id : Nat) (data : List UInt8) (rest : Elems)
  | tlie (content : Elems) (rest : Elems)
  deriving DecidableEq

namespace Elems

def encode : Elems → List UInt8
  | nil => []
  | vle id value rest => Leb128.encode id ++ Leb128.encode value ++ rest.encode
  | bs id data rest => Leb128.encode id ++ Leb128.encode data.length ++ data ++ rest.encode
  | tlie content rest => Leb128.encode Vie.tlie ++ Leb128.encode content.encode.length ++ content.encode ++ rest.encode

/-- The id of the first element. -/
@[simp] def id : Elems → Nat
  | nil => Vie.notDefined
  | vle id _ _ => id
  | bs id _ _ => id
  | tlie _ _ => Vie.tlie

/-- The bytes of the first element. -/
@[simp] def head : Elems → List UInt8
  | nil => []
  | vle id value _ => Leb128.encode id ++ Leb128.encode value
  | bs id data _ => Leb128.encode id ++ Leb128.encode data.length ++ data
  | tlie content _ => Leb128.encode Vie.tlie ++ Leb128.encode content.encode.length ++ content.encode

@[simp] def tail : Elems → Elems
  | nil => nil
  | vle _ _ rest => rest
  | bs _ _ rest => rest
  | tlie _ rest => rest

def append : Elems → Elems → Elems
  | nil, fs => fs
  | vle id value rest, fs => vle id value (rest.append fs)
  | bs id data rest, fs => bs id data (rest.append fs)
  | tlie content rest, fs => tlie content (rest.append fs)

/-- The ids are of the form that they are used with, the numbers are dwords, and a tlie is
    not empty. -/
def Ok : Elems → Prop
  | nil => True
  | vle id value rest => (findTagFromId id).map (·.form) = some .vle ∧ value < 2 ^ 32 ∧ rest.Ok
  | bs id data rest => (findTagFromId id).map (·.form) = some .bs ∧ data.length < 2 ^ 32 ∧ rest.Ok
  | tlie content rest => content ≠ nil ∧ content.encode.length < 2 ^ 32 ∧ content.Ok ∧ rest.Ok

instance decidableOk : (es : Elems) → Decidable es.Ok
  | nil => isTrue trivial
  | vle _ _ rest =>
    have := decidableOk rest
    inferInstanceAs (Decidable (_ ∧ _ ∧ rest.Ok))
  | bs _ _ rest =>
    have := decidableOk rest
    inferInstanceAs (Decidable (_ ∧ _ ∧ rest.Ok))
  | tlie content rest =>
    have := decidableOk content
    have := decidableOk rest
    inferInstanceAs (Decidable (_ ∧ _ ∧ content.Ok ∧ rest.Ok))

variable {es fs : Elems}

theorem encode_eq (es : Elems) : es.encode = es.head ++ es.tail.encode := by
  cases es <;> simp [encode]

theorem encode_append (es fs : Elems) : (es.append fs).encode = es.encode ++ fs.encode := by
  induction es with
  | nil => rfl
  | vle id value rest ih => simp [append, encode, ih]
  | bs id data rest ih => simp [append, encode, ih]
  | tlie content rest _ ih => simp [append, encode, ih]

theorem Ok.tail (h : es.Ok) : es.tail.Ok := by
  cases es with
  | nil => trivial
  | vle id value rest => exact h.2.2
  | bs id data rest => exact h.2.2
  | tlie content rest => exact h.2.2.2

/-- Every id is one byte. -/
theorem findTagFromId_lt {id : Nat} {tag : VieTag} (h : findTagFromId id = some tag) : id < 128 := by
  have hmem := List.mem_of_find?_eq_some h
  have hid : tag.id = id := by simpa using List.find?_some h
  have hall : ∀ t ∈ vieAttributes, t.id < 128 := by decide
  exact hid ▸ hall tag hmem

theorem Ok.form (h : es.Ok) (hne : es ≠ nil) : ∃ tag, findTagFromId es.id = some tag ∧
    tag.form = match es with
      | tlie _ _ => .tlie
      | bs _ _ _ => .bs
      | _ => .vle := by
  cases es with
  | nil => exact absurd rfl hne
  | vle id value rest =>
    obtain ⟨tag, htag, hform⟩ := Option.map_eq_some_iff.mp h.1
    exact ⟨tag, htag, hform⟩
  | bs id data rest =>
    obtain ⟨tag, htag, hform⟩ := Option.map_eq_some_iff.mp h.1
    exact ⟨tag, htag, hform⟩
  | tlie content rest => exact ⟨_, rfl, rfl⟩

theorem Ok.id_lt (h : es.Ok) (hne : es ≠ nil) : es.id < 128 := by
  obtain ⟨tag, htag, -⟩ := h.form hne
  exact findTagFromId_lt htag

theorem Ok.vleToDword_head (h : es.Ok) (hne : es ≠ nil) (rest : List UInt8) :
    vleToDword (es.head ++ rest) = (es.id, (Leb128.encode es.id).length) := by
  have hid : es.id < 2 ^ 32 := (h.id_lt hne).trans (by decide)
  cases es with
  | nil => exact absurd rfl hne
  | vle id value rest => simpa using vleToDword_encode hid _
  | bs id data rest => simpa using vleToDword_encode hid _
  | tlie content rest => simpa using vleToDword_encode hid _

end Elems

/-! ## Steps -/

/-- An element with a number, and as many bytes behind it as the number stands for. -/
theorem skipElement_eq {f : Nat → Nat} {id value maxLength : Nat} {d r : List UInt8} (hid : id < 2 ^ 32)
    (hv : value < 2 ^ 32) (hp : f value = d.length) (hmax : maxLength < 2 ^ 32)
    (hfit : (Leb128.encode id ++ Leb128.encode value ++ d).length ≤ maxLength) :
    skipElement f (Leb128.encode id ++ Leb128.encode value ++ d ++ r) maxLength
      = (Leb128.encode id ++ Leb128.encode value ++ d).length := by
  have hi := Leb128.length_encode_pos id
  have hw := Leb128.length_encode_pos value
  have hfirst : vleToDword (Leb128.encode id ++ Leb128.encode value ++ d ++ r) = (id, (Leb128.encode id).length) := by
    simpa using vleToDword_encode hid (Leb128.encode value ++ d ++ r)
  have hsecond : vleToDword ((Leb128.encode id ++ Leb128.encode value ++ d ++ r).drop (Leb128.encode id).length)
      = (value, (Leb128.encode value).length) := by
    simpa using vleToDword_encode hv (d ++ r)
  simp only [List.length_append] at hfit ⊢
  have hmod : ((Leb128.encode id).length + d.length + (Leb128.encode value).length) % 2 ^ 32
      = (Leb128.encode id).length + d.length + (Leb128.encode value).length := Nat.mod_eq_of_lt (by omega)
  unfold skipElement
  rw [hfirst]
  dsimp only
  rw [if_neg (by omega), hsecond]
  dsimp only
  rw [hp, hmod, if_neg (by omega)]
  omega

namespace Elems

variable {es fs : Elems}

/-- What a walker steps over is the first element. -/
theorem Ok.skip_head (h : es.Ok) (hne : es ≠ nil) {maxLength : Nat} (hmax : maxLength < 2 ^ 32)
    (hfit : es.head.length ≤ maxLength) (rest : List UInt8) :
    ∃ tag, findTagFromId es.id = some tag ∧ tag.skip (es.head ++ rest) maxLength = es.head.length := by
  obtain ⟨tag, htag, hform⟩ := h.form hne
  have hid : es.id < 2 ^ 32 := (h.id_lt hne).trans (by decide)
  refine ⟨tag, htag, ?_⟩
  cases es with
  | nil => exact absurd rfl hne
  | vle id value tl =>
    have hs := skipElement_eq (f := fun _ => 0) (d := []) (r := rest) hid h.2.1 rfl hmax (by simpa using hfit)
    simpa [VieTag.skip, hform, skipVieVle] using hs
  | bs id data tl =>
    have hs := skipElement_eq (f := fun n => n) (d := data) (r := rest) hid h.2.1 rfl hmax hfit
    simpa [VieTag.skip, hform, skipVieBs] using hs
  | tlie content tl =>
    have hs := skipElement_eq (f := fun n => n) (d := content.encode) (r := rest) hid h.2.1 rfl hmax hfit
    simpa [VieTag.skip, hform, skipTlie] using hs

/-- Along the elements of a sequence, whatever they are. -/
@[elab_as_elim] theorem tailInduction {P : Elems → Prop} (nil : P nil) (step : ∀ es, es ≠ .nil → P es.tail → P es)
    (es : Elems) : P es := by
  induction es with
  | nil => exact nil
  | vle id value rest ih => exact step _ (by simp) ih
  | bs id data rest ih => exact step _ (by simp) ih
  | tlie content rest _ ih => exact step _ (by simp) ih

theorem length_head_pos (hne : es ≠ nil) : 0 < es.head.length := by
  have h := fun n => Leb128.length_encode_pos n
  cases es with
  | nil => exact absurd rfl hne
  | vle id value rest => simp [h]
  | bs id data rest => simp [h]
  | tlie content rest => simp [h]

theorem length_encode (es : Elems) : es.encode.length = es.head.length + es.tail.encode.length := by
  rw [encode_eq, List.length_append]

/-! ## Places -/

/-- From the first element of an id on. -/
def find (requiredId : Nat) : Elems → Option Elems
  | nil => none
  | vle id value rest => if id = requiredId then some (vle id value rest) else rest.find requiredId
  | bs id data rest => if id = requiredId then some (bs id data rest) else rest.find requiredId
  | tlie content rest => if Vie.tlie = requiredId then some (tlie content rest) else rest.find requiredId

/-- From the first tlie on. -/
def nextTlie : Elems → Option Elems
  | nil => none
  | vle _ _ rest => rest.nextTlie
  | bs _ _ rest => rest.nextTlie
  | tlie content rest => some (tlie content rest)

/-- A place in the sequence: from an element of it on. -/
inductive Place (fs : Elems) : Elems → Prop where
  | here : Place fs fs
  | tail {es : Elems} (h : Place fs es.tail) : Place fs es

theorem find_eq (hne : es ≠ nil) (requiredId : Nat) :
    es.find requiredId = if es.id = requiredId then some es else es.tail.find requiredId := by
  cases es with
  | nil => exact absurd rfl hne
  | vle id value rest => rfl
  | bs id data rest => rfl
  | tlie content rest => rfl

theorem Place.suffix (h : Place fs es) : fs.encode <:+ es.encode := by
  induction h with
  | here => exact List.suffix_refl _
  | tail h ih =>
    rename_i es
    rw [encode_eq es]
    exact ih.trans (List.suffix_append _ _)

theorem Place.ok (h : Place fs es) (hok : es.Ok) : fs.Ok := by
  induction h with
  | here => exact hok
  | tail h ih => exact ih hok.tail

theorem Place.eq_nil (h : Place fs nil) : fs = nil := by
  have hlen := h.suffix.length_le
  cases fs with
  | nil => rfl
  | vle id value rest => simp [encode, Leb128.encode_ne_nil] at hlen
  | bs id data rest => simp [encode, Leb128.encode_ne_nil] at hlen
  | tlie content rest => simp [encode, Leb128.encode_ne_nil] at hlen

theorem Place.trans {gs : Elems} (h : Place gs fs) (h' : Place fs es) : Place gs es := by
  induction h' with
  | here => exact h
  | tail _ ih => exact .tail ih

theorem find_place {requiredId : Nat} (h : es.find requiredId = some fs) :
    Place fs es ∧ fs ≠ nil ∧ fs.id = requiredId := by
  induction es using tailInduction with
  | nil => cases h
  | step es hne ih =>
    rw [find_eq hne] at h
    split at h
    · rename_i hid
      cases h
      exact ⟨.here, hne, hid⟩
    · obtain ⟨hp, hrest⟩ := ih h
      exact ⟨.tail hp, hrest⟩

theorem nextTlie_place (h : es.nextTlie = some fs) : Place fs es ∧ ∃ content rest, fs = tlie content rest := by
  induction es with
  | nil => cases h
  | vle id value rest ih => exact ⟨.tail (ih h).1, (ih h).2⟩
  | bs id data rest ih => exact ⟨.tail (ih h).1, (ih h).2⟩
  | tlie content rest _ _ =>
    cases h
    exact ⟨.here, content, rest, rfl⟩

theorem place_append (es fs : Elems) : Place fs (es.append fs) := by
  induction es with
  | nil => exact .here
  | vle id value rest ih => exact .tail ih
  | bs id data rest ih => exact .tail ih
  | tlie content rest _ ih => exact .tail ih

/-- The number that is stored under an id. -/
def numberOf (es : Elems) (id : Nat) : Option Nat :=
  match es.find id with
  | some (vle _ value _) => some value
  | _ => none

/-- The binary string that is stored under an id. -/
def bytesOf (es : Elems) (id : Nat) : Option (List UInt8) :=
  match es.find id with
  | some (bs _ data _) => some data
  | _ => none

/-- Whether an element has the form that its id stands for. -/
theorem Ok.find_number (h : es.Ok) {k : Nat} (hform : (findTagFromId k).map (·.form) = some .vle) :
    (es.find k = none ∧ es.numberOf k = none) ∨
      ∃ value rest, es.find k = some (vle k value rest) ∧ es.numberOf k = some value ∧ k < 2 ^ 32 ∧ value < 2 ^ 32 := by
  unfold numberOf
  rcases hf : es.find k with - | fs
  · exact Or.inl ⟨rfl, rfl⟩
  · obtain ⟨hplace, hne, hid⟩ := find_place hf
    have hok := hplace.ok h
    have hlt := hok.id_lt hne
    obtain ⟨tag, htag, htf⟩ := hok.form hne
    rw [hid] at htag hlt
    rw [htag, Option.map_some, htf] at hform
    rcases fs with - | ⟨i, value, rest⟩ | ⟨i, data, rest⟩ | ⟨content, rest⟩
    · exact absurd rfl hne
    · cases hid
      exact Or.inr ⟨value, rest, rfl, rfl, hlt.trans (by decide), hok.2.1⟩
    · cases hform
    · cases hform

theorem Ok.find_bytes (h : es.Ok) {k : Nat} (hform : (findTagFromId k).map (·.form) = some .bs) :
    (es.find k = none ∧ es.bytesOf k = none) ∨
      ∃ data rest, es.find k = some (bs k data rest) ∧ es.bytesOf k = some data ∧ k < 2 ^ 32 ∧ data.length < 2 ^ 32 := by
  unfold bytesOf
  rcases hf : es.find k with - | fs
  · exact Or.inl ⟨rfl, rfl⟩
  · obtain ⟨hplace, hne, hid⟩ := find_place hf
    have hok := hplace.ok h
    have hlt := hok.id_lt hne
    obtain ⟨tag, htag, htf⟩ := hok.form hne
    rw [hid] at htag hlt
    rw [htag, Option.map_some, htf] at hform
    rcases fs with - | ⟨i, value, rest⟩ | ⟨i, data, rest⟩ | ⟨content, rest⟩
    · exact absurd rfl hne
    · cases hform
    · cases hid
      exact Or.inr ⟨data, rest, rfl, rfl, hlt.trans (by decide), hok.2.1⟩
    · cases hform

section Taken

variable {p : Elems → Prop} [DecidablePred p]

/-- The first tlie whose content is taken. -/
def findTlie (p : Elems → Prop) [DecidablePred p] : Elems → Option Elems
  | nil => none
  | vle _ _ rest => rest.findTlie p
  | bs _ _ rest => rest.findTlie p
  | tlie content rest => if p content then some (tlie content rest) else rest.findTlie p

theorem findTlie_eq_none (h : ∀ content, ¬ p content) (es : Elems) : es.findTlie p = none := by
  induction es with
  | nil => rfl
  | vle id value rest ih => exact ih
  | bs id data rest ih => exact ih
  | tlie content rest _ ih => simp [findTlie, h content, ih]

theorem findTlie_some (h : es.findTlie p = some fs) : ∃ content rest, fs = tlie content rest ∧ Place fs es ∧ p content := by
  induction es with
  | nil => cases h
  | vle id value rest ih =>
    obtain ⟨c, r, he, hp, hc⟩ := ih h
    exact ⟨c, r, he, .tail hp, hc⟩
  | bs id data rest ih =>
    obtain ⟨c, r, he, hp, hc⟩ := ih h
    exact ⟨c, r, he, .tail hp, hc⟩
  | tlie content rest _ ih =>
    rw [findTlie] at h
    split at h
    · rename_i hc
      cases h
      exact ⟨content, rest, rfl, .here, hc⟩
    · obtain ⟨c, r, he, hp, hc⟩ := ih h
      exact ⟨c, r, he, .tail hp, hc⟩

/-- The first one is found. -/
theorem findTlie_append {content rest : Elems} (hp : p content) (es : Elems)
    (hfirst : ∀ c r, Place (tlie c r) es → ¬ p c) : (es.append (tlie content rest)).findTlie p = some (tlie content rest) := by
  induction es with
  | nil => simp [append, findTlie, hp]
  | vle id value tl ih => exact ih (fun c r h => hfirst c r (.tail h))
  | bs id data tl ih => exact ih (fun c r h => hfirst c r (.tail h))
  | tlie c tl _ ih =>
    rw [append, findTlie, if_neg (hfirst c tl .here)]
    exact ih (fun c r h => hfirst c r (.tail h))

theorem findTlie_nextTlie (h : es.nextTlie = some fs) : es.findTlie p = fs.findTlie p := by
  induction es with
  | nil => cases h
  | vle id value rest ih => exact ih h
  | bs id data rest ih => exact ih h
  | tlie content rest _ _ =>
    cases h
    rfl

theorem findTlie_none (h : es.nextTlie = none) : es.findTlie p = none := by
  induction es with
  | nil => rfl
  | vle id value rest ih => exact ih h
  | bs id data rest ih => exact ih h
  | tlie content rest _ _ => cases h

end Taken

/-! ## Loops -/

theorem sectionElementLoop_step (h : es.Ok) (hne : es ≠ nil) (requiredId n offset : Nat) (rest : List UInt8)
    (hsize : es.encode.length < 2 ^ 32) :
    sectionElementLoop requiredId (n + 1) (es.encode ++ rest) offset es.encode.length
      = if es.id = requiredId then some offset
        else sectionElementLoop requiredId n (es.tail.encode ++ rest) (offset + es.head.length) es.tail.encode.length := by
  have hlen := es.length_encode
  have hpos := length_head_pos hne
  obtain ⟨tag, htag, hskip⟩ := h.skip_head hne hsize (by omega) (es.tail.encode ++ rest)
  have hsplit : es.encode ++ rest = es.head ++ (es.tail.encode ++ rest) := by rw [encode_eq, List.append_assoc]
  have hdrop : (es.head ++ (es.tail.encode ++ rest)).drop es.head.length = es.tail.encode ++ rest := List.drop_left
  have hmax : es.encode.length - es.head.length = es.tail.encode.length := by omega
  rw [sectionElementLoop, if_neg (by omega), hsplit, h.vleToDword_head hne]
  dsimp only
  rw [htag]
  dsimp only
  rw [hskip, if_neg (show ¬ es.head.length = 0 by omega), hdrop, hmax]

theorem sectionElementLoop_encode (h : es.Ok) (requiredId : Nat) {n : Nat} (offset : Nat) (rest : List UInt8)
    (hsize : es.encode.length < 2 ^ 32) (hn : es.encode.length ≤ n) :
    sectionElementLoop requiredId n (es.encode ++ rest) offset es.encode.length
      = (es.find requiredId).map fun fs => offset + es.encode.length - fs.encode.length := by
  induction es using tailInduction generalizing n offset with
  | nil => cases n <;> rfl
  | step es hne ih =>
    have hlen := es.length_encode
    have hpos := length_head_pos hne
    obtain ⟨n, rfl⟩ := Nat.exists_eq_add_of_lt (show 0 < n by omega)
    rw [Nat.zero_add, sectionElementLoop_step h hne _ _ _ _ hsize, find_eq hne]
    split
    · simp
    · have hoff : offset + es.head.length + es.tail.encode.length = offset + es.encode.length := by omega
      rw [ih h.tail (offset + es.head.length) (by omega) (by omega), hoff]

theorem nextSectionLoop_step (h : es.Ok) (hne : es ≠ nil) (n offset : Nat) (rest : List UInt8) (skipCurrent : Bool)
    (hsize : es.encode.length < 2 ^ 32) :
    nextSectionLoop (n + 1) (es.encode ++ rest) offset es.encode.length skipCurrent
      = if es.id = Vie.tlie ∧ skipCurrent = false then some offset
        else nextSectionLoop n (es.tail.encode ++ rest) (offset + es.head.length) es.tail.encode.length false := by
  have hlen := es.length_encode
  have hpos := length_head_pos hne
  obtain ⟨tag, htag, hskip⟩ := h.skip_head hne hsize (by omega) (es.tail.encode ++ rest)
  have hsplit : es.encode ++ rest = es.head ++ (es.tail.encode ++ rest) := by rw [encode_eq, List.append_assoc]
  have hdrop : (es.head ++ (es.tail.encode ++ rest)).drop es.head.length = es.tail.encode ++ rest := List.drop_left
  have hmax : es.encode.length - es.head.length = es.tail.encode.length := by omega
  rw [nextSectionLoop, if_neg (by omega), hsplit, h.vleToDword_head hne]
  dsimp only
  rw [htag]
  dsimp only
  rw [hskip, if_neg (show ¬ es.head.length = 0 by omega), hdrop, hmax]

theorem Ok.nextTlie_eq (h : es.Ok) (hne : es ≠ nil) :
    es.nextTlie = if es.id = Vie.tlie then some es else es.tail.nextTlie := by
  have hne1 : ∀ {id : Nat} {form : Form}, (findTagFromId id).map (·.form) = some form → form ≠ .tlie → id ≠ Vie.tlie := by
    rintro id form hform hne rfl
    have htlie : (findTagFromId Vie.tlie).map (·.form) = some .tlie := rfl
    rw [htlie] at hform
    exact hne (Option.some.inj hform).symm
  cases es with
  | nil => exact absurd rfl hne
  | vle id value rest => exact (if_neg (hne1 h.1 (by simp))).symm
  | bs id data rest => exact (if_neg (hne1 h.1 (by simp))).symm
  | tlie content rest => rfl

theorem nextSectionLoop_encode (h : es.Ok) {n : Nat} (offset : Nat) (rest : List UInt8)
    (hsize : es.encode.length < 2 ^ 32) (hn : es.encode.length ≤ n) :
    nextSectionLoop n (es.encode ++ rest) offset es.encode.length false
      = es.nextTlie.map fun fs => offset + es.encode.length - fs.encode.length := by
  induction es using tailInduction generalizing n offset with
  | nil => cases n <;> rfl
  | step es hne ih =>
    have hlen := es.length_encode
    have hpos := length_head_pos hne
    obtain ⟨n, rfl⟩ := Nat.exists_eq_add_of_lt (show 0 < n by omega)
    rw [Nat.zero_add, nextSectionLoop_step h hne _ _ _ _ hsize, h.nextTlie_eq hne]
    by_cases hid : es.id = Vie.tlie
    · rw [if_pos ⟨hid, rfl⟩, if_pos hid]
      simp
    · have hoff : offset + es.head.length + es.tail.encode.length = offset + es.encode.length := by omega
      rw [if_neg (fun hc => hid hc.1), if_neg hid, ih h.tail (offset + es.head.length) (by omega) (by omega), hoff]

end Elems

/-! ## A tlie -/

theorem elementNumber_encode {id value : Nat} (hid : id < 2 ^ 32) (hv : value < 2 ^ 32) (rest : List UInt8) :
    elementNumber (Leb128.encode id ++ (Leb128.encode value ++ rest)) = value := by
  unfold elementNumber
  rw [vleToDword_encode hid, List.drop_left, vleToDword_encode hv]

theorem elementBytes_encode {id : Nat} {data : List UInt8} (hid : id < 2 ^ 32) (hd : data.length < 2 ^ 32)
    (rest : List UInt8) :
    elementBytes (Leb128.encode id ++ (Leb128.encode data.length ++ (data ++ rest))) = data := by
  unfold elementBytes getBs
  rw [vleToDword_encode hid, List.drop_left, vleToDword_encode hd]
  dsimp only
  rw [List.drop_left, List.take_left]

/-- The content of a tlie that is stored. -/
structure Tlie where
  content : Elems
  ok : content.Ok
  ne : content ≠ .nil
  size : (Elems.tlie content .nil).encode.length < 2 ^ 32

namespace Tlie

variable (t : Tlie)

def encode : List UInt8 := (Elems.tlie t.content .nil).encode

def header : List UInt8 := Leb128.encode Vie.tlie ++ Leb128.encode t.content.encode.length

/-- Where a place of the content is. -/
def offset (fs : Elems) : Nat := t.encode.length - fs.encode.length

theorem encode_eq : t.encode = t.header ++ t.content.encode := by
  simp [encode, header, Elems.encode]

theorem encode_length : t.encode.length = t.header.length + t.content.encode.length := by
  rw [encode_eq, List.length_append]

theorem encode_lt : t.encode.length < 2 ^ 32 := t.size

theorem content_lt : t.content.encode.length < 2 ^ 32 := by
  have := t.encode_lt
  rw [encode_length] at this
  omega

theorem content_pos : 0 < t.content.encode.length := by
  have h1 := Elems.length_head_pos t.ne
  have h2 := t.content.length_encode
  omega

theorem vleToDword_encode (rest : List UInt8) :
    vleToDword (t.encode ++ rest) = (Vie.tlie, (Leb128.encode Vie.tlie).length)
      ∧ vleToDword ((t.encode ++ rest).drop (Leb128.encode Vie.tlie).length)
        = (t.content.encode.length, (Leb128.encode t.content.encode.length).length) := by
  constructor
  · simpa [encode, Elems.encode] using Cfg.vleToDword_encode (v := Vie.tlie) (by decide) _
  · simpa [encode, Elems.encode] using Cfg.vleToDword_encode t.content_lt (t.content.encode ++ rest)

theorem tlieContent_encode (rest : List UInt8) :
    tlieContent (t.encode ++ rest) = some (t.header.length, t.content.encode.length) := by
  obtain ⟨h1, h2⟩ := t.vleToDword_encode rest
  have hpos := t.content_pos
  unfold tlieContent
  rw [h1]
  dsimp only
  rw [h2]
  simp [header, show ¬ t.content.encode.length = 0 by omega]

/-- The length of the stored tlie. -/
theorem getMaxLength_encode (rest : List UInt8) : getMaxLength (t.encode ++ rest) = t.encode.length := by
  obtain ⟨h1, h2⟩ := t.vleToDword_encode rest
  have hpos := t.content_pos
  have hlt := t.encode_lt
  have hlen : (Leb128.encode Vie.tlie).length + (Leb128.encode t.content.encode.length).length + t.content.encode.length
      = t.encode.length := by
    simp [encode, Elems.encode]
    omega
  unfold getMaxLength
  rw [h1]
  dsimp only
  rw [h2]
  dsimp only
  rw [if_neg (by simp), if_neg (by omega), hlen, Nat.mod_eq_of_lt hlt]

variable {t} {fs : Elems}

theorem length_le_of_place (h : fs.Place t.content) : fs.encode.length ≤ t.content.encode.length :=
  h.suffix.length_le

theorem offset_add (h : fs.Place t.content) : t.offset fs + fs.encode.length = t.encode.length := by
  have h1 := length_le_of_place h
  have h2 := t.encode_length
  unfold offset
  omega

theorem header_le_offset (h : fs.Place t.content) : t.header.length ≤ t.offset fs := by
  have h1 := length_le_of_place h
  have h2 := t.encode_length
  unfold offset
  omega

theorem drop_offset (h : fs.Place t.content) (rest : List UInt8) :
    (t.encode ++ rest).drop (t.offset fs) = fs.encode ++ rest := by
  obtain ⟨pre, hpre⟩ := h.suffix
  have hsplit : t.encode = (t.header ++ pre) ++ fs.encode := by rw [encode_eq, ← hpre, List.append_assoc]
  have hoff : t.offset fs = (t.header ++ pre).length := by
    unfold offset
    rw [hsplit, List.length_append, Nat.add_sub_cancel_right]
  rw [hoff, hsplit, List.append_assoc, List.drop_left]

theorem drop_header (rest : List UInt8) : (t.encode ++ rest).drop t.header.length = t.content.encode ++ rest := by
  rw [encode_eq, List.append_assoc, List.drop_left]

/-- The first element with the id. -/
theorem getSectionElement_encode (requiredId : Nat) (rest : List UInt8) :
    getSectionElement (t.encode ++ rest) requiredId = (t.content.find requiredId).map t.offset := by
  unfold getSectionElement
  rw [t.tlieContent_encode]
  dsimp only
  rw [drop_header, Elems.sectionElementLoop_encode t.ok requiredId _ rest t.content_lt (Nat.le_refl _)]
  rw [← t.encode_length]
  rfl

/-- The first section. -/
theorem getNextCfgSection_first (rest : List UInt8) :
    getNextCfgSection (t.encode ++ rest) none = t.content.nextTlie.map t.offset := by
  unfold getNextCfgSection
  rw [t.tlieContent_encode]
  dsimp only
  rw [drop_header, Elems.nextSectionLoop_encode t.ok _ rest t.content_lt (Nat.le_refl _)]
  rw [← t.encode_length]
  rfl

/-- The section behind another one. -/
theorem getNextCfgSection_next (h : fs.Place t.content) (hne : fs ≠ .nil) (rest : List UInt8) :
    getNextCfgSection (t.encode ++ rest) (some (t.offset fs)) = fs.tail.nextTlie.map t.offset := by
  have hlen := fs.length_encode
  have hpos := Elems.length_head_pos hne
  have hle := length_le_of_place h
  have hadd := offset_add h
  have hhead := header_le_offset h
  have htot := t.encode_length
  have hlt := t.content_lt
  have hmax : t.content.encode.length - (t.offset fs - t.header.length) = fs.encode.length := by omega
  obtain ⟨n, hn⟩ := Nat.exists_eq_add_of_lt t.content_pos
  rw [Nat.zero_add] at hn
  unfold getNextCfgSection
  rw [t.tlieContent_encode]
  dsimp only
  rw [if_neg (by omega), drop_offset h, hmax]
  conv_lhs => rw [hn]
  rw [Elems.nextSectionLoop_step (h.ok t.ok) hne _ _ _ _ (by omega), if_neg (by simp),
    Elems.nextSectionLoop_encode (h.ok t.ok).tail _ rest (by omega) (by omega)]
  congr 1
  funext gs
  unfold offset at hadd ⊢
  omega

/-- The loop over the sections behind a place. -/
theorem nextTaken_eq {takes : Nat → Bool} {p : Elems → Prop} [DecidablePred p] {behind : List UInt8}
    (htakes : ∀ {content rest : Elems}, (Elems.tlie content rest).Place t.content →
      (takes (t.offset (.tlie content rest)) = true ↔ p content))
    {es : Elems} (hes : es.Place t.content) {n : Nat} (hn : es.encode.length < n) {current : Option Nat}
    (hnext : getNextCfgSection (t.encode ++ behind) current = es.nextTlie.map t.offset) :
    nextTaken (t.encode ++ behind) takes n current = (es.findTlie p).map t.offset := by
  induction n generalizing es current with
  | zero => omega
  | succ n ih =>
    rw [nextTaken, hnext]
    rcases hnt : es.nextTlie with - | fs
    · rw [Elems.findTlie_none hnt]
      rfl
    · obtain ⟨hplace, content, rest, rfl⟩ := Elems.nextTlie_place hnt
      have hin : (Elems.tlie content rest).Place t.content := hplace.trans hes
      have hle := hplace.suffix.length_le
      have hlen := (Elems.tlie content rest).length_encode
      have hpos := Elems.length_head_pos (show Elems.tlie content rest ≠ .nil by simp)
      rw [Elems.findTlie_nextTlie hnt, Elems.findTlie]
      dsimp only [Option.map_some]
      by_cases hp : p content
      · rw [if_pos ((htakes hin).mpr hp), if_pos hp]
        rfl
      · have hno := fun htk => hp ((htakes hin).mp htk)
        rw [if_neg hno, if_neg hp]
        have hrest : rest.Place t.content := Elems.Place.trans (.tail .here) hin
        have hlen' : (Elems.tlie content rest).tail.encode.length = rest.encode.length := rfl
        exact ih hrest (by omega) (t.getNextCfgSection_next hin (by simp) behind)

/-- A tlie of the content. -/
def sub {content rest : Elems} (h : (Elems.tlie content rest).Place t.content) : Tlie where
  content := content
  ok := (h.ok t.ok).2.2.1
  ne := (h.ok t.ok).1
  size := by
    have h1 := length_le_of_place h
    have h2 := t.content_lt
    simp only [Elems.encode, List.length_append, List.length_nil] at h1 ⊢
    omega

end Tlie

end Divas.Cfg
