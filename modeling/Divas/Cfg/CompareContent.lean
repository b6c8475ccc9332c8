/-
  Divas.Cfg.CompareContent — sections are compared by what they contain.

  `Matches` is the identity that `find` looks for, `Same` is what `cmp` compares. Both are
  about the contents; the code computes them from pointers into two images.

  Proved:
  - `find` gives the first section of the instance that matches (`find_eq`);
  - `cmp` gives 0 if and only if the contents are the same, and for RAM sections the
    pointers to the parameter lines (`cmp_eq_zero`);
  - a section that is stored in two places is found, and is the same; a section that is
    found and the same has equal identity, line and value (`section_comparison`).
-/

import Divas.Cfg.Compare
import Divas.Cfg.Tree

namespace Divas.Cfg

namespace Elems

/-! ## What a section contains -/

def line (es : Elems) : Nat := (es.numberOf Vie.parameterLine).getD 0

end Elems

/-! ## Pointers into an image -/

namespace Tlie

variable (t : Tlie)

/-- The image at an address, with what lies behind it. -/
def ptr (addr : Nat) (behind : List UInt8) : Ptr := ⟨addr, t.encode ++ behind⟩

variable {t} (addr : Nat) (behind : List UInt8)

theorem element_ptr (id : Nat) :
    (t.ptr addr behind).element id = (t.content.find id).map fun fs => ⟨addr + t.offset fs, fs.encode ++ behind⟩ := by
  unfold Ptr.element ptr
  dsimp only
  rw [getSectionElement_encode, Option.map_map]
  apply Option.map_congr
  intro fs hfs
  simp [Ptr.at_, drop_offset (Elems.find_place hfs).1]

/-- A number of the content is read through the pointer. -/
theorem numberOf_cases {k : Nat} (hform : (findTagFromId k).map (·.form) = some .vle) :
    (t.content.numberOf k = none ∧ (t.ptr addr behind).element k = none) ∨
      ∃ value p, t.content.numberOf k = some value ∧ (t.ptr addr behind).element k = some p ∧ p.number = value := by
  rw [element_ptr]
  rcases t.ok.find_number hform with ⟨hf, hn⟩ | ⟨value, rest, hf, hn, hid, hv⟩
  · rw [hf]
    exact Or.inl ⟨hn, rfl⟩
  · rw [hf]
    refine Or.inr ⟨value, _, hn, rfl, ?_⟩
    have hnum := elementNumber_encode hid hv (rest.encode ++ behind)
    simpa [Ptr.number, Elems.encode] using hnum

theorem bytesOf_cases {k : Nat} (hform : (findTagFromId k).map (·.form) = some .bs) :
    (t.content.bytesOf k = none ∧ (t.ptr addr behind).element k = none) ∨
      ∃ data p, t.content.bytesOf k = some data ∧ (t.ptr addr behind).element k = some p ∧ p.bsLength = data.length ∧
        p.bs = data := by
  rw [element_ptr]
  rcases t.ok.find_bytes hform with ⟨hf, hn⟩ | ⟨data, rest, hf, hn, hid, hd⟩
  · rw [hf]
    exact Or.inl ⟨hn, rfl⟩
  · rw [hf]
    refine Or.inr ⟨data, _, hn, rfl, ?_, ?_⟩
    · have hnum := elementNumber_encode hid hd (data ++ (rest.encode ++ behind))
      simpa [Ptr.bsLength, Elems.encode] using hnum
    · have hbs := elementBytes_encode hid hd (rest.encode ++ behind)
      simpa [Ptr.bs, Elems.encode] using hbs

theorem cfgLine_ptr : (t.ptr addr behind).cfgLine = t.content.line := by
  unfold Ptr.cfgLine Elems.line
  rcases t.numberOf_cases addr behind (k := Vie.parameterLine) rfl with ⟨hn, he⟩ | ⟨v, p, hn, he, hv⟩
  · rw [hn, he]
    rfl
  · rw [hn, he]
    exact hv

/-- A section of an instance. -/
theorem at_offset {content rest : Elems} (h : (Elems.tlie content rest).Place t.content) :
    (t.ptr addr behind).at_ (t.offset (.tlie content rest))
      = (t.sub h).ptr (addr + t.offset (.tlie content rest)) (rest.encode ++ behind) := by
  unfold Ptr.at_ ptr
  dsimp only
  rw [drop_offset h]
  simp [Tlie.encode, sub, Elems.encode]

end Tlie

theorem sameBs_eq {p q : Ptr} {d e : List UInt8} (hp : p.bsLength = d.length ∧ p.bs = d) (hq : q.bsLength = e.length ∧ q.bs = e) :
    p.sameBs q = true ↔ d = e := by
  unfold Ptr.sameBs
  rw [hp.1, hp.2, hq.1, hq.2, Bool.and_eq_true, decide_eq_true_eq, decide_eq_true_eq]
  constructor
  · intro h
    exact h.2
  · rintro rfl
    exact ⟨rfl, rfl⟩

/-! ## Find -/

/-- Both contain it, and the same. -/
def Shared {α : Type} (x y : Option α) : Prop := x ≠ none ∧ y = x

instance {α : Type} [DecidableEq α] (x y : Option α) : Decidable (Shared x y) := inferInstanceAs (Decidable (_ ∧ _))

theorem shared_some {α : Type} {x y : α} : Shared (some x) (some y) ↔ y = x := by
  simp [Shared]

theorem not_shared_none {α : Type} {x : Option α} : ¬ Shared x none := by
  rintro ⟨h, h'⟩
  exact h h'.symm

/-- Two writes, or two operations on the same bits. -/
def SameOperation (ref sec : Elems) : Prop :=
  ref.numberOf Vie.ramInitOperation ≠ none ∧ sec.numberOf Vie.ramInitOperation ≠ none ∧
    if ref.numberOf Vie.ramInitOperation = some ramInitOperationWrite ∨
        sec.numberOf Vie.ramInitOperation = some ramInitOperationWrite then
      ref.numberOf Vie.ramInitOperation = sec.numberOf Vie.ramInitOperation
    else Shared (ref.bytesOf Vie.ramInitValue) (sec.bytesOf Vie.ramInitValue)

instance (ref sec : Elems) : Decidable (SameOperation ref sec) := inferInstanceAs (Decidable (_ ∧ _ ∧ _))

/-- The identity of a section. -/
def Matches : SectionType → Elems → Elems → Prop
  | .pcinit, ref, sec => Shared (ref.numberOf Vie.pcInitname) (sec.numberOf Vie.pcInitname) ∧ sec.line = ref.line
  | .ram, ref, sec =>
    Shared (ref.numberOf Vie.ramInitOffset) (sec.numberOf Vie.ramInitOffset) ∧ sec.line = ref.line ∧ SameOperation ref sec
  | .var, ref, sec => Shared (ref.bytesOf Vie.namedVarName) (sec.bytesOf Vie.namedVarName)
  | .image, ref, sec =>
    Shared (ref.numberOf Vie.imageType) (sec.numberOf Vie.imageType) ∧
      Shared (ref.bytesOf Vie.imageName) (sec.bytesOf Vie.imageName) ∧
      ref.bytesOf Vie.imageArchive = sec.bytesOf Vie.imageArchive

instance (ty : SectionType) (ref sec : Elems) : Decidable (Matches ty ref sec) := by
  cases ty <;> unfold Matches <;> infer_instance

/-- The loop over all the sections. -/
theorem findFirst_eq {t : Tlie} {addr : Nat} {behind : List UInt8} {takes : Ptr → Bool} {p : Elems → Prop} [DecidablePred p]
    (htakes : ∀ (sec : Tlie) (a : Nat) (r : List UInt8), takes (sec.ptr a r) = true ↔ p sec.content) :
    findFirst (t.ptr addr behind) takes
      = (t.content.findTlie p).map fun fs => (t.ptr addr behind).at_ (t.offset fs) := by
  have hlen := t.encode_length
  have hptr : (t.ptr addr behind).bytes.length = t.encode.length + behind.length := List.length_append
  unfold findFirst
  rw [hptr]
  unfold Tlie.ptr at htakes ⊢
  dsimp only
  rw [Tlie.nextTaken_eq (p := p) ?_ .here (by omega) (t.getNextCfgSection_first behind), Option.map_map]
  · rfl
  · intro content rest h
    have hat := Tlie.at_offset addr behind h
    unfold Tlie.ptr at hat
    rw [hat]
    exact htakes (t.sub h) _ _

variable (ref : Tlie) (a : Nat) (r : List UInt8) (inst : Tlie) (b : Nat) (q : List UInt8)

theorem findPcinitSection_eq :
    findPcinitSection (ref.ptr a r) (inst.ptr b q)
      = (inst.content.findTlie (Matches .pcinit ref.content)).map fun fs => (inst.ptr b q).at_ (inst.offset fs) := by
  unfold findPcinitSection
  rcases ref.numberOf_cases a r (k := Vie.pcInitname) rfl with ⟨hn, he⟩ | ⟨v, p, hn, he, hv⟩
  · rw [he, Elems.findTlie_eq_none]
    · rfl
    · intro content h
      exact h.1.1 hn
  · rw [he]
    refine findFirst_eq ?_
    intro sec a' r'
    rw [Tlie.cfgLine_ptr, Tlie.cfgLine_ptr, Bool.and_eq_true, decide_eq_true_eq]
    dsimp only [Matches]
    rw [hn]
    rcases sec.numberOf_cases a' r' (k := Vie.pcInitname) rfl with ⟨hn', he'⟩ | ⟨v', p', hn', he', hv'⟩
    · rw [he', hn']
      simp [not_shared_none]
    · rw [he', hn', shared_some]
      simp [hv, hv', and_comm]

theorem sameRamOperation_eq {sec : Tlie} {p p' : Ptr} {v v' : Nat} (a' : Nat) (r' : List UInt8)
    (hn : ref.content.numberOf Vie.ramInitOperation = some v) (hv : p.number = v)
    (hn' : sec.content.numberOf Vie.ramInitOperation = some v') (hv' : p'.number = v') :
    sameRamOperation (ref.ptr a r) (sec.ptr a' r') p p' = true ↔ SameOperation ref.content sec.content := by
  unfold sameRamOperation SameOperation
  rw [hn, hn', hv, hv']
  simp only [ne_eq, reduceCtorEq, not_false_eq_true, true_and, Option.some.injEq]
  split
  · rw [decide_eq_true_eq]
  · rcases ref.bytesOf_cases a r (k := Vie.ramInitValue) rfl with ⟨hd, hb⟩ | ⟨d, pd, hd, hb, hpd⟩
    · rw [hd, hb]
      simp [Shared]
    · rcases sec.bytesOf_cases a' r' (k := Vie.ramInitValue) rfl with ⟨hd', hb'⟩ | ⟨d', pd', hd', hb', hpd'⟩
      · rw [hd, hb, hd', hb']
        simp [not_shared_none]
      · rw [hd, hb, hd', hb', shared_some]
        dsimp only
        rw [sameBs_eq hpd hpd']
        exact eq_comm

theorem findRamSection_eq :
    findRamSection (ref.ptr a r) (inst.ptr b q)
      = (inst.content.findTlie (Matches .ram ref.content)).map fun fs => (inst.ptr b q).at_ (inst.offset fs) := by
  unfold findRamSection
  rcases ref.numberOf_cases a r (k := Vie.ramInitOffset) rfl with ⟨hn, he⟩ | ⟨v, p, hn, he, hv⟩
  · rw [he, Elems.findTlie_eq_none]
    · rfl
    · intro content h
      exact h.1.1 hn
  rcases ref.numberOf_cases a r (k := Vie.ramInitOperation) rfl with ⟨hno, heo⟩ | ⟨vo, po, hno, heo, hvo⟩
  · rw [he, heo, Elems.findTlie_eq_none]
    · rfl
    · intro content h
      exact h.2.2.1 hno
  · rw [he, heo]
    refine findFirst_eq ?_
    intro sec a' r'
    dsimp only [Matches]
    rw [hn]
    rcases sec.numberOf_cases a' r' (k := Vie.ramInitOffset) rfl with ⟨hn', he'⟩ | ⟨v', p', hn', he', hv'⟩
    · rw [he', hn']
      simp [not_shared_none]
    rw [he', hn', shared_some]
    dsimp only
    rw [Tlie.cfgLine_ptr, Tlie.cfgLine_ptr, Bool.and_eq_true, Bool.and_eq_true, decide_eq_true_eq, decide_eq_true_eq, hv, hv',
      and_assoc]
    refine and_congr_right fun _ => and_congr_right fun _ => ?_
    rcases sec.numberOf_cases a' r' (k := Vie.ramInitOperation) rfl with ⟨hno', heo'⟩ | ⟨vo', po', hno', heo', hvo'⟩
    · rw [heo']
      simp [SameOperation, hno']
    · rw [heo']
      exact sameRamOperation_eq ref a r a' r' hno hvo hno' hvo'

theorem findVarSection_eq :
    findVarSection (ref.ptr a r) (inst.ptr b q)
      = (inst.content.findTlie (Matches .var ref.content)).map fun fs => (inst.ptr b q).at_ (inst.offset fs) := by
  unfold findVarSection
  rcases ref.bytesOf_cases a r (k := Vie.namedVarName) rfl with ⟨hd, he⟩ | ⟨d, p, hd, he, hp⟩
  · rw [he, Elems.findTlie_eq_none]
    · rfl
    · intro content h
      exact h.1 hd
  · rw [he]
    refine findFirst_eq ?_
    intro sec a' r'
    dsimp only [Matches]
    rw [hd]
    rcases sec.bytesOf_cases a' r' (k := Vie.namedVarName) rfl with ⟨hd', he'⟩ | ⟨d', p', hd', he', hp'⟩
    · rw [he', hd']
      simp [not_shared_none]
    · rw [he', hd', shared_some]
      dsimp only
      rw [sameBs_eq hp hp']
      exact eq_comm

/-- The optional binary strings are the same. -/
theorem sameOptionalBs_eq (new org : Tlie) (a a' : Nat) (r r' : List UInt8) {id : Nat}
    (hform : (findTagFromId id).map (·.form) = some .bs) :
    sameOptionalBs ((new.ptr a r).element id) ((org.ptr a' r').element id) = true
      ↔ new.content.bytesOf id = org.content.bytesOf id := by
  rcases new.bytesOf_cases a r hform with ⟨hd, he⟩ | ⟨d, p, hd, he, hp⟩
  · rcases org.bytesOf_cases a' r' hform with ⟨hd', he'⟩ | ⟨d', p', hd', he', hp'⟩
    · rw [he, he', hd, hd']
      simp [sameOptionalBs]
    · rw [he, he', hd, hd']
      simp [sameOptionalBs]
  · rcases org.bytesOf_cases a' r' hform with ⟨hd', he'⟩ | ⟨d', p', hd', he', hp'⟩
    · rw [he, he', hd, hd']
      simp [sameOptionalBs]
    · rw [he, he', hd, hd', Option.some.injEq]
      exact sameBs_eq hp hp'

theorem findImageSection_eq :
    findImageSection (ref.ptr a r) (inst.ptr b q)
      = (inst.content.findTlie (Matches .image ref.content)).map fun fs => (inst.ptr b q).at_ (inst.offset fs) := by
  unfold findImageSection
  rcases ref.numberOf_cases a r (k := Vie.imageType) rfl with ⟨hn, he⟩ | ⟨v, p, hn, he, hv⟩
  · rw [he, Elems.findTlie_eq_none]
    · rfl
    · intro content h
      exact h.1.1 hn
  rcases ref.bytesOf_cases a r (k := Vie.imageName) rfl with ⟨hd, hen⟩ | ⟨d, pn, hd, hen, hpn⟩
  · rw [he, hen, Elems.findTlie_eq_none]
    · rfl
    · intro content h
      exact h.2.1.1 hd
  · rw [he, hen]
    refine findFirst_eq ?_
    intro sec a' r'
    dsimp only [Matches]
    rw [hn, hd]
    rcases sec.numberOf_cases a' r' (k := Vie.imageType) rfl with ⟨hn', he'⟩ | ⟨v', p', hn', he', hv'⟩
    · rw [he', hn']
      simp [not_shared_none]
    rw [he', hn', shared_some]
    dsimp only
    rw [Bool.and_eq_true, decide_eq_true_eq, hv, hv']
    refine and_congr_right fun _ => ?_
    rcases sec.bytesOf_cases a' r' (k := Vie.imageName) rfl with ⟨hd', hen'⟩ | ⟨d', pn', hd', hen', hpn'⟩
    · rw [hen', hd']
      simp [not_shared_none]
    · rw [hen', hd', shared_some]
      dsimp only
      rw [Bool.and_eq_true, sameBs_eq hpn' hpn, sameOptionalBs_eq ref sec a a' r r' rfl]

/-- `find` gives the first section of the instance that matches. -/
theorem find_eq (ty : SectionType) :
    ty.find (ref.ptr a r) (inst.ptr b q)
      = (inst.content.findTlie (Matches ty ref.content)).map fun fs => (inst.ptr b q).at_ (inst.offset fs) := by
  cases ty with
  | pcinit => exact findPcinitSection_eq ref a r inst b q
  | ram => exact findRamSection_eq ref a r inst b q
  | var => exact findVarSection_eq ref a r inst b q
  | image => exact findImageSection_eq ref a r inst b q

/-! ## Compare -/

/-- What is compared. -/
def Same : SectionType → Elems → Elems → Prop
  | .pcinit, new, org => org.line = new.line ∧ Shared (new.bytesOf Vie.pcInitValue) (org.bytesOf Vie.pcInitValue)
  | .ram, new, org =>
    Shared (new.numberOf Vie.ramInitOperation) (org.numberOf Vie.ramInitOperation) ∧
      Shared (new.bytesOf Vie.ramInitValue) (org.bytesOf Vie.ramInitValue)
  | .var, new, org => Shared (new.bytesOf Vie.namedVarValue) (org.bytesOf Vie.namedVarValue)
  | .image, new, org =>
    Shared (new.numberOf Vie.imageType) (org.numberOf Vie.imageType) ∧
      Shared (new.bytesOf Vie.imageName) (org.bytesOf Vie.imageName) ∧
      new.bytesOf Vie.imageArchive = org.bytesOf Vie.imageArchive ∧ new.bytesOf Vie.imageData = org.bytesOf Vie.imageData

/-- The parameter lines are at the same address. -/
def SameLinePtr (new org : Ptr) : Prop :=
  (org.element Vie.parameterLine).map Ptr.addr = (new.element Vie.parameterLine).map Ptr.addr

section Compare

variable (new : Tlie) (a : Nat) (r : List UInt8) (org : Tlie) (b : Nat) (q : List UInt8)

theorem cmpPcinitSection_eq_zero :
    cmpPcinitSection (new.ptr a r) (org.ptr b q) = 0 ↔ Same .pcinit new.content org.content := by
  unfold cmpPcinitSection
  dsimp only [Same]
  rw [Tlie.cfgLine_ptr, Tlie.cfgLine_ptr]
  rcases new.bytesOf_cases a r (k := Vie.pcInitValue) rfl with ⟨hd, he⟩ | ⟨d, p, hd, he, hp⟩
  · rw [he, hd]
    simp [Shared]
  rcases org.bytesOf_cases b q (k := Vie.pcInitValue) rfl with ⟨hd', he'⟩ | ⟨d', p', hd', he', hp'⟩
  · rw [he, he', hd']
    simp [not_shared_none]
  rw [he, he', hd, hd', shared_some]
  have hbs := sameBs_eq hp hp'
  dsimp only
  split
  · rename_i hline
    split
    · rename_i hsame
      exact iff_of_true rfl ⟨hline, (hbs.mp hsame).symm⟩
    · rename_i hsame
      exact iff_of_false (by decide) (fun h => hsame (hbs.mpr h.2.symm))
  · rename_i hline
    exact iff_of_false (by decide) (fun h => hline h.1)

theorem cmpRamSection_eq_zero :
    cmpRamSection (new.ptr a r) (org.ptr b q) = 0
      ↔ Same .ram new.content org.content ∧ SameLinePtr (new.ptr a r) (org.ptr b q) := by
  unfold cmpRamSection SameLinePtr
  dsimp only [Same]
  rcases new.bytesOf_cases a r (k := Vie.ramInitValue) rfl with ⟨hd, he⟩ | ⟨d, p, hd, he, hp⟩
  · rw [he, hd]
    simp [Shared]
  rcases org.bytesOf_cases b q (k := Vie.ramInitValue) rfl with ⟨hd', he'⟩ | ⟨d', p', hd', he', hp'⟩
  · rw [he, he', hd']
    simp [not_shared_none]
  rcases new.numberOf_cases a r (k := Vie.ramInitOperation) rfl with ⟨hn, hf⟩ | ⟨v, o, hn, hf, ho⟩
  · rw [he, he', hf, hn]
    simp [Shared]
  rcases org.numberOf_cases b q (k := Vie.ramInitOperation) rfl with ⟨hn', hf'⟩ | ⟨v', o', hn', hf', ho'⟩
  · rw [he, he', hf, hf', hn']
    simp [not_shared_none]
  rw [he, he', hf, hf', hd, hd', hn, hn', shared_some, shared_some]
  have hbs := sameBs_eq hp hp'
  dsimp only
  rw [ho, ho']
  split
  · rename_i hline
    split
    · rename_i hsame
      exact iff_of_true rfl ⟨⟨hsame.1, (hbs.mp hsame.2).symm⟩, hline⟩
    · rename_i hsame
      exact iff_of_false (by decide) (fun h => hsame ⟨h.1.1, hbs.mpr h.1.2.symm⟩)
  · rename_i hline
    exact iff_of_false (by decide) (fun h => hline h.2)

theorem cmpVarSection_eq_zero :
    cmpVarSection (new.ptr a r) (org.ptr b q) = 0 ↔ Same .var new.content org.content := by
  unfold cmpVarSection
  dsimp only [Same]
  rcases new.bytesOf_cases a r (k := Vie.namedVarValue) rfl with ⟨hd, he⟩ | ⟨d, p, hd, he, hp⟩
  · rw [he, hd]
    simp [Shared]
  rcases org.bytesOf_cases b q (k := Vie.namedVarValue) rfl with ⟨hd', he'⟩ | ⟨d', p', hd', he', hp'⟩
  · rw [he, he', hd']
    simp [not_shared_none]
  rw [he, he', hd, hd', shared_some]
  have hbs := sameBs_eq hp hp'
  dsimp only
  split
  · rename_i hsame
    exact iff_of_true rfl (hbs.mp hsame).symm
  · rename_i hsame
    exact iff_of_false (by decide) (fun h => hsame (hbs.mpr h.symm))

theorem cmpImageSection_eq_zero :
    cmpImageSection (new.ptr a r) (org.ptr b q) = 0 ↔ Same .image new.content org.content := by
  unfold cmpImageSection
  dsimp only [Same]
  rcases new.numberOf_cases a r (k := Vie.imageType) rfl with ⟨hn, hf⟩ | ⟨v, o, hn, hf, ho⟩
  · rw [hf, hn]
    simp [Shared]
  rcases org.numberOf_cases b q (k := Vie.imageType) rfl with ⟨hn', hf'⟩ | ⟨v', o', hn', hf', ho'⟩
  · rw [hf, hf', hn']
    simp [not_shared_none]
  rw [hf, hf', hn, hn', shared_some]
  dsimp only
  rw [ho, ho']
  split
  · rename_i hty
    exact iff_of_false (by decide) (fun h => hty h.1)
  rename_i hty
  rcases new.bytesOf_cases a r (k := Vie.imageName) rfl with ⟨hd, he⟩ | ⟨d, p, hd, he, hp⟩
  · rw [he, hd]
    simp [Shared]
  rcases org.bytesOf_cases b q (k := Vie.imageName) rfl with ⟨hd', he'⟩ | ⟨d', p', hd', he', hp'⟩
  · rw [he, he', hd']
    simp [not_shared_none]
  rw [he, he', hd, hd', shared_some]
  have hbs := sameBs_eq hp hp'
  have hopt : ([Vie.imageArchive, Vie.imageData].all fun id =>
      sameOptionalBs ((new.ptr a r).element id) ((org.ptr b q).element id)) = true
        ↔ new.content.bytesOf Vie.imageArchive = org.content.bytesOf Vie.imageArchive
          ∧ new.content.bytesOf Vie.imageData = org.content.bytesOf Vie.imageData := by
    simp only [List.all_cons, List.all_nil, Bool.and_true, Bool.and_eq_true]
    rw [sameOptionalBs_eq new org a b r q rfl, sameOptionalBs_eq new org a b r q rfl]
  dsimp only
  split
  · rename_i hname
    refine iff_of_false (by decide) (fun h => ?_)
    rw [hbs.mpr h.2.1.symm] at hname
    cases hname
  · rename_i hname
    have hname' : d' = d := (hbs.mp (by simpa using hname)).symm
    split
    · rename_i hall
      exact iff_of_true rfl ⟨not_not.mp hty, hname', hopt.mp hall⟩
    · rename_i hall
      exact iff_of_false (by decide) (fun h => hall (hopt.mpr h.2.2))

/-- `cmp` compares the contents, and for RAM sections the addresses of the parameter lines. -/
theorem cmp_eq_zero (ty : SectionType) :
    ty.cmp (new.ptr a r) (org.ptr b q) = 0
      ↔ Same ty new.content org.content ∧ (ty = .ram → SameLinePtr (new.ptr a r) (org.ptr b q)) := by
  cases ty with
  | pcinit => exact (cmpPcinitSection_eq_zero new a r org b q).trans (by simp)
  | ram => exact (cmpRamSection_eq_zero new a r org b q).trans (by simp)
  | var => exact (cmpVarSection_eq_zero new a r org b q).trans (by simp)
  | image => exact (cmpImageSection_eq_zero new a r org b q).trans (by simp)

end Compare

/-! ## The same section in two images -/

/-- The element of the type is there, and those that it requires. -/
def Complete (ty : SectionType) (es : Elems) : Prop :=
  ∀ s, identifySection ty.id = some s → ∀ id ∈ s.type :: s.required, es.find id ≠ none

instance (ty : SectionType) (es : Elems) : Decidable (Complete ty es) :=
  match h : identifySection ty.id with
  | none => isTrue fun _ hs => nomatch h.symm.trans hs
  | some s =>
    decidable_of_iff (∀ id ∈ s.type :: s.required, es.find id ≠ none)
      ⟨fun hall _ hs => Option.some.inj (h.symm.trans hs) ▸ hall, fun hc => hc s h⟩

/-- PCINIT and RAM sections may have a parameter line. -/
def SectionType.hasLine : SectionType → Bool
  | .pcinit => true
  | .ram => true
  | .var => false
  | .image => false

/-- What tells a section from others of its type. -/
def SameIdentity : SectionType → Elems → Elems → Prop
  | .pcinit, new, org => org.numberOf Vie.pcInitname = new.numberOf Vie.pcInitname
  | .ram, new, org => org.numberOf Vie.ramInitOffset = new.numberOf Vie.ramInitOffset
  | .var, new, org => org.bytesOf Vie.namedVarName = new.bytesOf Vie.namedVarName
  | .image, new, org =>
    org.numberOf Vie.imageType = new.numberOf Vie.imageType ∧ org.bytesOf Vie.imageName = new.bytesOf Vie.imageName ∧
      org.bytesOf Vie.imageArchive = new.bytesOf Vie.imageArchive

instance (ty : SectionType) (new org : Elems) : Decidable (SameIdentity ty new org) := by
  cases ty <;> unfold SameIdentity <;> infer_instance

/-- What a section sets. -/
def SameValue : SectionType → Elems → Elems → Prop
  | .pcinit, new, org => org.bytesOf Vie.pcInitValue = new.bytesOf Vie.pcInitValue
  | .ram, new, org =>
    org.numberOf Vie.ramInitOperation = new.numberOf Vie.ramInitOperation ∧
      org.bytesOf Vie.ramInitValue = new.bytesOf Vie.ramInitValue
  | .var, new, org => org.bytesOf Vie.namedVarValue = new.bytesOf Vie.namedVarValue
  | .image, new, org => org.bytesOf Vie.imageData = new.bytesOf Vie.imageData

theorem numberOf_ne_none {t : Tlie} {k : Nat} (hform : (findTagFromId k).map (·.form) = some .vle)
    (h : t.content.find k ≠ none) : t.content.numberOf k ≠ none := by
  rcases t.numberOf_cases 0 [] hform with ⟨-, he⟩ | ⟨v, p, hn, -, -⟩
  · rw [Tlie.element_ptr, Option.map_eq_none_iff] at he
    exact absurd he h
  · rw [hn]
    simp

theorem bytesOf_ne_none {t : Tlie} {k : Nat} (hform : (findTagFromId k).map (·.form) = some .bs)
    (h : t.content.find k ≠ none) : t.content.bytesOf k ≠ none := by
  rcases t.bytesOf_cases 0 [] hform with ⟨-, he⟩ | ⟨d, p, hd, -, -⟩
  · rw [Tlie.element_ptr, Option.map_eq_none_iff] at he
    exact absurd he h
  · rw [hd]
    simp

theorem numberOf_eq_none {t : Tlie} {id : Nat} (addr : Nat) (behind : List UInt8)
    (hform : (findTagFromId id).map (·.form) = some .vle) (h : t.content.numberOf id = none) :
    (t.ptr addr behind).element id = none := by
  rcases t.numberOf_cases addr behind hform with ⟨-, he⟩ | ⟨v, p, hn, -, -⟩
  · exact he
  · rw [h] at hn
    cases hn

/-- A complete section matches itself. -/
theorem matches_self {ty : SectionType} {sec : Tlie} (hc : Complete ty sec.content) : Matches ty sec.content sec.content := by
  cases ty with
  | pcinit => exact ⟨⟨numberOf_ne_none rfl (hc _ rfl _ (by decide)), rfl⟩, rfl⟩
  | ram =>
    have hop := numberOf_ne_none (k := Vie.ramInitOperation) rfl (hc _ rfl _ (by decide))
    refine ⟨⟨numberOf_ne_none rfl (hc _ rfl _ (by decide)), rfl⟩, rfl, hop, hop, ?_⟩
    split
    · rfl
    · exact ⟨bytesOf_ne_none rfl (hc _ rfl _ (by decide)), rfl⟩
  | var => exact ⟨bytesOf_ne_none rfl (hc _ rfl _ (by decide)), rfl⟩
  | image =>
    exact ⟨⟨numberOf_ne_none rfl (hc _ rfl _ (by decide)), rfl⟩, ⟨bytesOf_ne_none rfl (hc _ rfl _ (by decide)), rfl⟩, rfl⟩

/-- A complete section is the same as itself. -/
theorem same_self {ty : SectionType} {sec : Tlie} (hc : Complete ty sec.content) : Same ty sec.content sec.content := by
  cases ty with
  | pcinit => exact ⟨rfl, bytesOf_ne_none rfl (hc _ rfl _ (by decide)), rfl⟩
  | ram =>
    exact ⟨⟨numberOf_ne_none rfl (hc _ rfl _ (by decide)), rfl⟩, bytesOf_ne_none rfl (hc _ rfl _ (by decide)), rfl⟩
  | var => exact ⟨bytesOf_ne_none rfl (hc _ rfl _ (by decide)), rfl⟩
  | image =>
    exact ⟨⟨numberOf_ne_none rfl (hc _ rfl _ (by decide)), rfl⟩, ⟨bytesOf_ne_none rfl (hc _ rfl _ (by decide)), rfl⟩, rfl, rfl⟩

/-- What is compared are the values, and for a PCINIT section the line. -/
theorem value_of_same {ty : SectionType} {new org : Elems} (hs : Same ty new org) :
    (ty = .pcinit → org.line = new.line) ∧ SameValue ty new org := by
  cases ty with
  | pcinit => exact ⟨fun _ => hs.1, hs.2.2⟩
  | ram => exact ⟨nofun, hs.1.2, hs.2.2⟩
  | var => exact ⟨nofun, hs.2⟩
  | image => exact ⟨nofun, hs.2.2.2.symm⟩

/-- What matches and is the same has equal identity, value and line. -/
theorem equal_of_same {ty : SectionType} {new org : Elems} (hm : Matches ty new org) (hs : Same ty new org) :
    (ty.hasLine = true → org.line = new.line) ∧ SameIdentity ty new org ∧ SameValue ty new org := by
  cases ty with
  | pcinit => exact ⟨fun _ => hm.2, hm.1.2, hs.2.2⟩
  | ram => exact ⟨fun _ => hm.2.1, hm.1.2, hs.1.2, hs.2.2⟩
  | var =>
    refine ⟨?_, hm.2, hs.2⟩
    rintro ⟨⟩
  | image =>
    refine ⟨?_, ⟨hm.1.2, hm.2.1.2, hm.2.2.symm⟩, hs.2.2.2.symm⟩
    rintro ⟨⟩

/-- A section that is stored in two images: `find` locates it in the other one if no section
    before it matches, and `cmp` gives 0, for a RAM section if it has no parameter line. Where
    `find` locates a section and `cmp` gives 0, the two are equal; and where `cmp` gives 0 for any
    two sections, they have the same value and the same line. -/
theorem section_comparison (ty : SectionType) (sec inst : Tlie) (a b : Nat) (r q : List UInt8) :
    (∀ pre rest, inst.content = pre.append (.tlie sec.content rest) → Complete ty sec.content →
      (∀ c s, (Elems.tlie c s).Place pre → ¬ Matches ty sec.content c) →
        ty.find (sec.ptr a r) (inst.ptr b q) = some ((inst.ptr b q).at_ (inst.offset (.tlie sec.content rest))) ∧
          ((ty = .ram → sec.content.numberOf Vie.parameterLine = none) →
            ty.cmp (sec.ptr a r) ((inst.ptr b q).at_ (inst.offset (.tlie sec.content rest))) = 0)) ∧
      (∀ org, ty.find (sec.ptr a r) (inst.ptr b q) = some org → ty.cmp (sec.ptr a r) org = 0 →
        ∃ c rest, (Elems.tlie c rest).Place inst.content ∧ org = (inst.ptr b q).at_ (inst.offset (.tlie c rest)) ∧
          (ty.hasLine = true → c.line = sec.content.line) ∧ SameIdentity ty sec.content c ∧ SameValue ty sec.content c) ∧
      ∀ (org : Tlie) (addr : Nat) (behind : List UInt8), ty.cmp (sec.ptr a r) (org.ptr addr behind) = 0 →
        SameValue ty sec.content org.content ∧ (ty = .pcinit → org.content.line = sec.content.line) ∧
          (ty = .ram → SameLinePtr (sec.ptr a r) (org.ptr addr behind)) := by
  refine ⟨?_, ?_, ?_⟩
  · intro pre rest hinst hc hfirst
    have hplace : (Elems.tlie sec.content rest).Place inst.content := by
      rw [hinst]
      exact Elems.place_append _ _
    have hfound : inst.content.findTlie (Matches ty sec.content) = some (.tlie sec.content rest) := by
      rw [hinst]
      exact Elems.findTlie_append (matches_self hc) pre hfirst
    constructor
    · rw [find_eq, hfound]
      rfl
    · intro hline
      rw [Tlie.at_offset b q hplace, cmp_eq_zero]
      refine ⟨same_self hc, ?_⟩
      intro hram
      have hnew := numberOf_eq_none a r (t := sec) rfl (hline hram)
      have horg := numberOf_eq_none (b + inst.offset (.tlie sec.content rest)) (rest.encode ++ q)
          (t := inst.sub hplace) rfl (hline hram)
      rw [SameLinePtr, hnew, horg]
  · intro org hfind hcmp
    rw [find_eq, Option.map_eq_some_iff] at hfind
    obtain ⟨fs, hfs, rfl⟩ := hfind
    obtain ⟨c, rest, rfl, hplace, hm⟩ := Elems.findTlie_some hfs
    rw [Tlie.at_offset b q hplace, cmp_eq_zero] at hcmp
    exact ⟨c, rest, hplace, rfl, equal_of_same hm hcmp.1⟩
  · intro org addr behind hcmp
    obtain ⟨hsame, hline⟩ := (cmp_eq_zero sec a r org addr behind ty).mp hcmp
    exact ⟨(value_of_same hsame).2, (value_of_same hsame).1, hline⟩

/-- Two PCINIT sections that differ in their names. -/
def pcinitOne : Tlie :=
  ⟨.vle Vie.pcInitname 1 (.bs Vie.pcInitValue [7] .nil), by decide, by decide, by decide +kernel⟩

def pcinitTwo : Tlie :=
  ⟨.vle Vie.pcInitname 2 (.bs Vie.pcInitValue [7] .nil), by decide, by decide, by decide +kernel⟩

def pcinitInstance : Tlie :=
  ⟨.vle Vie.inst 1 (.tlie pcinitTwo.content (.tlie pcinitOne.content .nil)), by decide +kernel, by decide, by decide +kernel⟩

theorem section_comparison_pcinit :
    (∃ org, SectionType.pcinit.find (pcinitOne.ptr 100 []) (pcinitInstance.ptr 500 []) = some org ∧
      SectionType.pcinit.cmp (pcinitOne.ptr 100 []) org = 0) ∧
    ∃ c, SameIdentity .pcinit pcinitOne.content c ∧ SameValue .pcinit pcinitOne.content c := by
  obtain ⟨hstored, hequal, -⟩ := section_comparison .pcinit pcinitOne pcinitInstance 100 500 [] []
  have hfirst : ∀ c s, (Elems.tlie c s).Place (.vle Vie.inst 1 (.tlie pcinitTwo.content .nil)) →
      ¬ Matches .pcinit pcinitOne.content c := by
    rintro c s (_ | h)
    rcases h with _ | h
    · decide
    · nomatch h.eq_nil
  obtain ⟨hfind, hcmp⟩ := hstored _ .nil rfl (by decide) hfirst
  have hzero := hcmp (fun h => nomatch h)
  obtain ⟨c, -, -, -, -, hid, hvalue⟩ := hequal _ hfind hzero
  exact ⟨⟨_, hfind, hzero⟩, c, hid, hvalue⟩

/-- A RAM section with a parameter line. -/
def ramLine : Tlie :=
  ⟨.vle Vie.ramInitOffset 0 (.vle Vie.ramInitOperation 1 (.bs Vie.ramInitValue [7] (.vle Vie.parameterLine 1 .nil))),
    by decide, by decide, by decide +kernel⟩

/-- `cmp` leaves the identity to `find`: two sections that differ in it compare equal. And a
    RAM section with a parameter line differs from its copy. -/
theorem cmp_pcinit_ignores_name :
    (SectionType.pcinit.cmp (pcinitOne.ptr 100 []) (pcinitTwo.ptr 500 []) = 0 ∧
      ¬ SameIdentity .pcinit pcinitOne.content pcinitTwo.content) ∧
    SectionType.ram.cmp (ramLine.ptr 100 []) (ramLine.ptr 500 []) ≠ 0 := by
  decide +kernel

end Divas.Cfg
