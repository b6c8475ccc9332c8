/-
  Divas.Lib.Markup — text with tags.

  A tag stands between `lt` and `gt`. One that begins with `slash` closes the element of its
  name, any other opens one: its name goes up to the first `blank`. The scanner keeps the
  names of the open elements, the last one in front.

  Proved: text without tags changes nothing (`Nested.plain`), and neither does an element
  around text that changes nothing (`Nested.element`).
-/

import Mathlib.Data.List.Basic

namespace Divas.Lib.Markup

universe u

variable {α : Type u} [DecidableEq α]

/-- The characters that make a tag. -/
structure Marks (α : Type u) where
  lt : α
  gt : α
  slash : α
  blank : α

/-- The open elements, and what was read of a tag. -/
structure Scan (α : Type u) where
  opened : List (List α)
  tag : Option (List α)
  deriving DecidableEq

variable (k : Marks α)

/-- The end of a tag. -/
def endTag (opened : List (List α)) (tag : List α) : Option (Scan α) :=
  if tag.head? = some k.slash then
    if opened.head? = some tag.tail then some ⟨opened.tail, none⟩ else none
  else some ⟨tag.takeWhile (· ≠ k.blank) :: opened, none⟩

def step (s : Scan α) (c : α) : Option (Scan α) :=
  match s.tag with
  | none => some (if c = k.lt then ⟨s.opened, some []⟩ else s)
  | some tag =>
    if c = k.gt then endTag k s.opened tag
    else if c = k.lt then none
    else some ⟨s.opened, some (tag ++ [c])⟩

def scan (s : Scan α) (text : List α) : Option (Scan α) := text.foldlM (step k) s

/-- Every element that is opened is closed, and none else, inside whatever is open. -/
def Nested (text : List α) : Prop := ∀ opened : List (List α), scan k ⟨opened, none⟩ text = some ⟨opened, none⟩

variable {k} {text text' name : List α}

theorem scan_append (s : Scan α) (text text' : List α) :
    scan k s (text ++ text') = (scan k s text).bind fun s' => scan k s' text' :=
  List.foldlM_append

theorem Nested.append (h : Nested k text) (h' : Nested k text') : Nested k (text ++ text') := by
  intro opened
  rw [scan_append, h opened]
  exact h' opened

theorem Nested.plain (h : k.lt ∉ text) : Nested k text := by
  intro opened
  induction text with
  | nil => rfl
  | cons c text ih =>
    have hc : c ≠ k.lt := fun hc => h (hc ▸ List.mem_cons_self)
    have hrest := ih fun hmem => h (List.mem_cons_of_mem c hmem)
    unfold scan at hrest ⊢
    simpa [List.foldlM_cons, step, hc] using hrest

/-- Inside a tag. -/
theorem scan_tag (opened : List (List α)) (tag : List α) {body : List α} (hlt : k.lt ∉ body) (hgt : k.gt ∉ body) :
    scan k ⟨opened, some tag⟩ (body ++ [k.gt]) = endTag k opened (tag ++ body) := by
  induction body generalizing tag with
  | nil => simp [scan, step, List.foldlM_cons]
  | cons c body ih =>
    have hc : c ≠ k.lt := fun hc => hlt (hc ▸ List.mem_cons_self)
    have hc' : c ≠ k.gt := fun hc => hgt (hc ▸ List.mem_cons_self)
    have hrest := ih (tag ++ [c]) (fun hmem => hlt (List.mem_cons_of_mem c hmem)) fun hmem => hgt (List.mem_cons_of_mem c hmem)
    rw [List.append_assoc, List.singleton_append] at hrest
    unfold scan at hrest ⊢
    simpa [List.foldlM_cons, step, hc, hc'] using hrest

theorem scan_lt (opened : List (List α)) {body : List α} (hlt : k.lt ∉ body) (hgt : k.gt ∉ body) :
    scan k ⟨opened, none⟩ (k.lt :: body ++ [k.gt]) = endTag k opened body := by
  have htag := scan_tag opened [] hlt hgt
  unfold scan at htag ⊢
  simpa [List.foldlM_cons, step] using htag

/-- A tag that opens an element, what is in the element, and the tag that closes it. -/
theorem Nested.element {body : List α} (hname : body.takeWhile (· ≠ k.blank) = name) (hopen : body.head? ≠ some k.slash)
    (hlt : k.lt ∉ body) (hgt : k.gt ∉ body) (hlt' : k.lt ∉ k.slash :: name) (hgt' : k.gt ∉ k.slash :: name)
    (h : Nested k text) : Nested k (k.lt :: body ++ [k.gt] ++ text ++ (k.lt :: k.slash :: name ++ [k.gt])) := by
  intro opened
  rw [scan_append, scan_append, scan_lt opened hlt hgt]
  have hopened : endTag k opened body = some ⟨name :: opened, none⟩ := by
    unfold endTag
    rw [if_neg hopen, hname]
  have hclosed : endTag k (name :: opened) (k.slash :: name) = some ⟨opened, none⟩ := by
    unfold endTag
    simp
  rw [hopened, Option.bind_some, h (name :: opened), Option.bind_some]
  exact (scan_lt (name :: opened) hlt' hgt').trans hclosed

end Divas.Lib.Markup
