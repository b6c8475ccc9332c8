/-
  Divas.Cfg.XdiImage — the update of the adapter is the image of the instance.

  Both rounds of the translation see the same items. The first one adds up the length of
  what the second one writes, as long as no length exceeds a dword; a RAM offset from the
  configuration can make it exceed one, and then neither the lengths nor the bounds that are
  checked with them mean anything.

  Proved:
  - the first round gives the lengths of the image (`sizePass_eq`);
  - the second one writes it, and nothing else (`writePass_eq`);
  - the result is the stored tlie of `adapterContent` (`translate_xdi_data`): the
    identification, the sections that are copied, and one RAM section with the RAM settings
    and the PCINIT list.
-/

import Divas.Cfg.XdiContent

namespace Divas.Cfg

open Divas.Lib
open Divas.Lib.Bytes (Mem store load)

/-! ## Dwords -/

theorem w32_eq {n : Nat} (h : n < 2 ^ 32) : w32 n = n := Nat.mod_eq_of_lt h

theorem room_eq {maxLength position : Nat} (h : position ≤ maxLength) (hmax : maxLength < 2 ^ 32) :
    room maxLength position = maxLength - position := by
  unfold room w32
  omega

theorem vleLength_eq {v : Nat} (h : v < 2 ^ 32) : vleLength v = (Leb128.encode v).length := by
  rw [vleLength, dwordToVle_count h]
  rfl

/-! ## The image -/

namespace Elems

/-- The first element alone. -/
def single : Elems → Elems
  | nil => nil
  | vle id value _ => vle id value nil
  | bs id data _ => bs id data nil
  | tlie content _ => tlie content nil

/-- Sections, one after the other. -/
def tlies : List Elems → Elems → Elems
  | [], es => es
  | c :: cs, es => tlie c (tlies cs es)

/-- The entries of the PCINIT list. -/
def pcinitEntries (es : Elems) : List PcinitEntry :=
  (es.itemContents.filter fun c => c.sectionType = Vie.pcInitname).map pcinitEntry

def pcinitList (es : Elems) : List UInt8 := encodePcinit 0 false es.pcinitEntries

/-- How much of the shared memory is set. -/
def sharedLength (es : Elems) : Nat := max (es.itemContents.foldl ramEnd 0) (pcinitOffset + es.pcinitList.length)

/-- The shared memory: zero, the RAM sections in order, and the PCINIT list. -/
def sharedMemory (es : Elems) : Mem := store (es.itemContents.foldl ramApply fun _ => 0) pcinitOffset es.pcinitList

def sharedImage (es : Elems) : List UInt8 := load es.sharedMemory 0 es.sharedLength

/-- The RAM section that writes the shared memory at offset 0. -/
def ramSection (es : Elems) : Elems :=
  vle Vie.ramInitOffset 0 (vle Vie.ramInitOperation ramInitOperationWrite (bs Vie.ramInitValue es.sharedImage nil))

def copied (es : Elems) : List Elems := es.itemContents.filter fun c => c.IsCopied

/-- What the adapter gets: the identification, the sections that are copied, and the RAM
    section. -/
def adapterContent (es : Elems) : Elems := es.single.append (tlies es.copied (tlie es.ramSection nil))

theorem encode_tlies (cs : List Elems) (es : Elems) :
    (tlies cs es).encode = cs.flatMap (fun c => (tlie c nil).encode) ++ es.encode := by
  induction cs with
  | nil => rfl
  | cons c cs ih => simp [tlies, encode, ih]

theorem sharedImage_length (es : Elems) : es.sharedImage.length = es.sharedLength := Bytes.load_length _ _ _

end Elems

/-! ## RAM -/

section Ram

variable {base maxLength : Nat}

/-- What a step does to the memory and to the length. -/
theorem ramItem_none (sec : Tlie) (behind : List UInt8) (n : Nat)
    (hfit : sec.content.ramOffset + sec.content.ramValue.length < 2 ^ 32) :
    ramItem base maxLength (none, n) (sec.encode ++ behind) = some (none, ramEnd n sec.content) := by
  unfold ramItem ramEnd
  rw [getSectionType_encode, getRamInitValue_encode, getRamInitOffset_encode]
  by_cases h : sec.content.sectionType = Vie.ramInitOffset
  · rw [if_neg (not_not.mpr h), if_pos h]
    dsimp only
    rw [w32_eq hfit]
  · rw [if_pos h, if_neg h]

theorem le_foldl_ramEnd (cs : List Elems) (n : Nat) : n ≤ cs.foldl ramEnd n := by
  induction cs generalizing n with
  | nil => exact Nat.le_refl n
  | cons c cs ih =>
    refine Nat.le_trans ?_ (ih (ramEnd n c))
    unfold ramEnd
    split <;> omega

/-- Every RAM section ends within the length. -/
theorem ramEnd_le {cs : List Elems} {c : Elems} (h : c ∈ cs) (hram : c.sectionType = Vie.ramInitOffset) (n : Nat) :
    c.ramOffset + c.ramValue.length ≤ cs.foldl ramEnd n := by
  induction cs generalizing n with
  | nil => cases h
  | cons c' cs ih =>
    rcases List.mem_cons.mp h with rfl | h
    · refine Nat.le_trans ?_ (le_foldl_ramEnd cs (ramEnd n c))
      rw [ramEnd, if_pos hram]
      omega
    · exact ih h (ramEnd n c')

theorem ramItem_skip {s : Option Mem × Nat} (sec : Tlie) (behind : List UInt8) (h : sec.content.sectionType ≠ Vie.ramInitOffset) :
    ramItem base maxLength s (sec.encode ++ behind) = some s := by
  unfold ramItem
  rw [getSectionType_encode, if_pos h]

theorem writeRamInit_none (secs : List (Tlie × List UInt8)) (n : Nat)
    (hfit : (secs.map fun s => s.1.content).foldl ramEnd n < 2 ^ 32) :
    (secs.map fun s => s.1.encode ++ s.2).foldlM (ramItem base maxLength) (none, n)
      = some (none, (secs.map fun s => s.1.content).foldl ramEnd n) := by
  induction secs generalizing n with
  | nil => rfl
  | cons sec secs ih =>
    have hle := le_foldl_ramEnd (secs.map fun s => s.1.content) (ramEnd n sec.1.content)
    have hstep : ramItem base maxLength (none, n) (sec.1.encode ++ sec.2) = some (none, ramEnd n sec.1.content) := by
      by_cases h : sec.1.content.sectionType = Vie.ramInitOffset
      · refine ramItem_none sec.1 sec.2 n ?_
        have hmem : sec.1.content ∈ (sec :: secs).map fun s => s.1.content := by simp
        have hle' := ramEnd_le hmem h n
        omega
      · rw [ramItem_skip sec.1 sec.2 h, ramEnd, if_neg h]
    rw [List.map_cons, List.map_cons, List.foldlM_cons, hstep, List.foldl_cons]
    exact ih (ramEnd n sec.1.content) hfit

/-- The memory from `base` on is the shared memory so far, and around it nothing has
    changed. -/
structure Shares (base shared : Nat) (m0 m : Mem) (image : Mem) : Prop where
  image : ∀ i, i < shared → m (base + i) = image i
  around : ∀ i, i < base ∨ base + shared ≤ i → m i = m0 i

theorem Shares.store {shared : Nat} {m0 m image : Mem} (hs : Shares base shared m0 m image) {offset : Nat}
    {data : List UInt8} (hfit : offset + data.length ≤ shared) :
    Shares base shared m0 (Bytes.store m (base + offset) data) (Bytes.store image offset data) where
  image := by
    intro i hi
    by_cases h : offset ≤ i ∧ i < offset + data.length
    · obtain ⟨d, rfl⟩ := Nat.exists_eq_add_of_le h.1
      rw [← Nat.add_assoc, Bytes.store_inside m (by omega), Bytes.store_inside image (by omega)]
    · rw [Bytes.store_outside m (by omega), Bytes.store_outside image (by omega)]
      exact hs.image i hi
  around := by
    intro i hi
    rw [Bytes.store_outside m (by omega)]
    exact hs.around i hi

/-- The loop over the bytes of the section. -/
theorem Shares.modify {shared : Nat} {m0 m image : Mem} (hs : Shares base shared m0 m image) {offset : Nat}
    {data : List UInt8} (hfit : offset + data.length ≤ shared) (f : UInt8 → UInt8 → UInt8) :
    Shares base shared m0 (Cfg.modify f m base offset (offset + data.length) data)
      fun k => if offset ≤ k ∧ k < offset + data.length then f (image k) (data.getD (k - offset) 0) else image k where
  image := by
    intro i hi
    unfold Cfg.modify
    by_cases h : offset ≤ i ∧ i < offset + data.length
    · have hsub : base + i - (base + offset) = i - offset := by omega
      rw [if_pos (by omega), if_pos h, hs.image i hi, hsub]
    · rw [if_neg (by omega), if_neg h]
      exact hs.image i hi
  around := by
    intro i hi
    unfold Cfg.modify
    rw [if_neg (by omega)]
    exact hs.around i hi

theorem ramItem_shares {shared : Nat} {m0 m image : Mem} {n : Nat} (hs : Shares base shared m0 m image) (sec : Tlie)
    (behind : List UInt8) {s' : Option Mem × Nat}
    (h : ramItem base maxLength (some m, n) (sec.encode ++ behind) = some s')
    (hfit : sec.content.sectionType = Vie.ramInitOffset → sec.content.ramOffset + sec.content.ramValue.length ≤ shared)
    (hlt : shared < 2 ^ 32) :
    ∃ m', s' = (some m', ramEnd n sec.content) ∧ Shares base shared m0 m' (ramApply image sec.content) := by
  unfold ramItem at h
  unfold ramEnd ramApply
  rw [getSectionType_encode, getRamInitValue_encode, getRamInitOffset_encode, getRamInitOperation_encode] at h
  by_cases hram : sec.content.sectionType = Vie.ramInitOffset
  · have hend := hfit hram
    rw [if_neg (not_not.mpr hram)] at h
    dsimp only at h
    rw [w32_eq (by omega)] at h
    rw [if_pos hram, if_pos hram]
    split at h
    · cases h
    · cases hop : sec.content.ramOperation with
      | notDefined =>
        rw [hop] at h
        cases h
      | write =>
        rw [hop] at h
        cases h
        exact ⟨_, rfl, hs.store hend⟩
      | setBits =>
        rw [hop] at h
        cases h
        exact ⟨_, rfl, hs.modify hend fun b d => b ||| d⟩
      | clearBits =>
        rw [hop] at h
        cases h
        exact ⟨_, rfl, hs.modify hend fun b d => b &&& ~~~d⟩
  · rw [if_pos hram] at h
    rw [if_neg hram, if_neg hram]
    cases h
    exact ⟨m, rfl, hs⟩

/-- The RAM sections in order. -/
theorem writeRamInit_shares {shared : Nat} (secs : List (Tlie × List UInt8)) {m0 m image : Mem} {n : Nat}
    (hs : Shares base shared m0 m image) {s' : Option Mem × Nat}
    (h : (secs.map fun s => s.1.encode ++ s.2).foldlM (ramItem base maxLength) (some m, n) = some s')
    (hfit : ∀ c ∈ secs.map fun s => s.1.content, c.sectionType = Vie.ramInitOffset → c.ramOffset + c.ramValue.length ≤ shared)
    (hlt : shared < 2 ^ 32) :
    ∃ m', s' = (some m', (secs.map fun s => s.1.content).foldl ramEnd n) ∧
      Shares base shared m0 m' ((secs.map fun s => s.1.content).foldl ramApply image) := by
  induction secs generalizing m image n with
  | nil =>
    cases h
    exact ⟨m, rfl, hs⟩
  | cons sec secs ih =>
    rw [List.map_cons, List.foldlM_cons] at h
    rw [List.map_cons] at hfit
    obtain ⟨s1, h1, h2⟩ := Option.bind_eq_some_iff.mp h
    obtain ⟨m1, rfl, hs1⟩ := ramItem_shares hs sec.1 sec.2 h1 (hfit sec.1.content List.mem_cons_self) hlt
    exact ih hs1 h2 (fun c hc => hfit c (List.mem_cons_of_mem _ hc))

end Ram

/-! ## PCINIT -/

section Pcinit

variable {base maxLength : Nat}

theorem ofNat_mod (n : Nat) : UInt8.ofNat (n % 256) = UInt8.ofNat n := by
  apply UInt8.toNat_inj.mp
  simp

theorem getPcInitType_encode (sec : Tlie) (behind : List UInt8) :
    UInt8.ofNat (getPcInitType (sec.encode ++ behind)) = sec.content.pcinitEntry.type
      ∧ getPcInitType (sec.encode ++ behind) = sec.content.pcinitEntry.type.toNat := by
  unfold getPcInitType
  rw [elementOf_number sec behind rfl]
  exact ⟨ofNat_mod _, (UInt8.toNat_ofNat').symm⟩

theorem getCfgLineNumber_encode (sec : Tlie) (behind : List UInt8) :
    getCfgLineNumber (sec.encode ++ behind) = sec.content.pcinitEntry.line.toNat := by
  have hnum := elementOf_number sec behind (k := Vie.parameterLine) rfl
  have hline : sec.content.pcinitEntry.line.toNat = (sec.content.numberOf Vie.parameterLine).getD 0 % 256 := UInt8.toNat_ofNat'
  rw [hline, ← hnum]
  unfold getCfgLineNumber elementOf
  split <;> rfl

/-- The data, and what lies behind it. -/
theorem getPcInitData_encode (sec : Tlie) (behind : List UInt8) :
    ∃ more, getPcInitData (sec.encode ++ behind)
      = (sec.content.pcinitEntry.data.length, sec.content.pcinitEntry.data ++ more) := by
  unfold getPcInitData Elems.pcinitEntry
  rw [sec.getSectionElement_encode]
  rcases sec.ok.find_bytes (k := Vie.pcInitValue) rfl with ⟨hf, hn⟩ | ⟨data, rest, hf, hn, hid, hd⟩
  · rw [hf, hn]
    exact ⟨[], rfl⟩
  · have hdrop : (sec.encode ++ behind).drop (sec.offset (.bs Vie.pcInitValue data rest))
        = Leb128.encode Vie.pcInitValue ++ (Leb128.encode data.length ++ (data ++ (rest.encode ++ behind))) := by
      rw [Tlie.drop_offset (Elems.find_place hf).1]
      simp [Elems.encode]
    have hlen : (data.take (data.length % 256)).length = data.length % 256 := by
      rw [List.length_take]
      exact Nat.min_eq_left (Nat.mod_le _ _)
    refine ⟨data.drop (data.length % 256) ++ (rest.encode ++ behind), ?_⟩
    rw [hf, hn]
    dsimp only [Option.map_some, Option.getD_some]
    have hsplit : data.take (data.length % 256) ++ (data.drop (data.length % 256) ++ (rest.encode ++ behind))
        = data ++ (rest.encode ++ behind) := by
      rw [← List.append_assoc, List.take_append_drop]
    rw [hdrop, vleToDword_encode hid, List.drop_left, vleToDword_encode hd, hlen, hsplit]
    dsimp only
    rw [List.drop_left]

/-- The bytes are written behind what is there. -/
structure Pcinit.Wrote (s s' : Pcinit) (base : Nat) (bytes : List UInt8) : Prop where
  offset : s'.offset = s.offset + bytes.length
  mem : s'.mem = s.mem.map fun m => store m (base + s.offset) bytes

theorem Pcinit.Wrote.refl (s : Pcinit) : s.Wrote s base [] := by
  refine ⟨by simp, ?_⟩
  cases s.mem <;> simp

theorem Pcinit.Wrote.trans {s s1 s2 : Pcinit} {as bs : List UInt8} (h1 : s.Wrote s1 base as) (h2 : s1.Wrote s2 base bs) :
    s.Wrote s2 base (as ++ bs) := by
  constructor
  · rw [h2.offset, h1.offset, List.length_append, Nat.add_assoc]
  · have hboth : (fun m => store m (base + s1.offset) bs) ∘ (fun m => store m (base + s.offset) as)
        = fun m => store m (base + s.offset) (as ++ bs) := by
      funext m
      rw [Function.comp_apply, h1.offset, ← Nat.add_assoc, Bytes.store_store]
    rw [h2.mem, h1.mem, Option.map_map, hboth]

theorem Pcinit.put_wrote {s s' : Pcinit} {limit : Nat} {bytes : List UInt8} (h : s.put base limit maxLength bytes = some s')
    (hfit : s.offset + bytes.length < 2 ^ 32) :
    s.Wrote s' base bytes ∧ s'.currentCfgLine = s.currentCfgLine ∧ s'.writeCfgLine = s.writeCfgLine := by
  unfold Pcinit.put at h
  split at h
  · rename_i hm
    cases h
    refine ⟨⟨w32_eq hfit, ?_⟩, rfl, rfl⟩
    rw [hm]
    rfl
  · rename_i m hm
    split at h
    · cases h
      refine ⟨⟨w32_eq hfit, ?_⟩, rfl, rfl⟩
      rw [hm]
      rfl
    · cases h

/-- Without memory nothing is too long. -/
theorem Pcinit.put_none (base maxLength : Nat) {s : Pcinit} (hm : s.mem = none) (limit : Nat) (bytes : List UInt8) :
    ∃ s', s.put base limit maxLength bytes = some s' ∧ s'.mem = none := by
  unfold Pcinit.put
  rw [hm]
  exact ⟨_, rfl, rfl⟩

theorem and_high_eq_zero (b : UInt8) : b &&& 0x80 = 0 ↔ b.toNat &&& 0x80 = 0 := by
  rw [← UInt8.toNat_inj, UInt8.toNat_and]
  rfl

/-- The line before an entry. -/
theorem Pcinit.line_wrote {s s' : Pcinit} {line line' : UInt8} (hline : s.currentCfgLine = line.toNat)
    (h : s.line base maxLength line'.toNat = some s') (hfit : s.offset + 3 < 2 ^ 32) :
    s.Wrote s' base (if s.writeCfgLine || line' != line then [pcinitCfgLineNumber, 1, line'] else []) ∧
      s'.currentCfgLine = line'.toNat ∧ s'.writeCfgLine = (s.writeCfgLine || line' != line) := by
  unfold Pcinit.line at h
  rw [hline] at h
  by_cases hne : line' = line
  · subst hne
    dsimp only at h
    rw [if_neg (show ¬ line'.toNat ≠ line'.toNat from fun hne => hne rfl)] at h
    have hsame : (s.writeCfgLine || line' != line') = s.writeCfgLine := by simp
    rw [hsame]
    split at h
    · rename_i hw
      obtain ⟨hwrote, hcur, hflag⟩ := Pcinit.put_wrote h hfit
      rw [hline, UInt8.ofNat_toNat] at hwrote
      rw [if_pos hw]
      exact ⟨hwrote, hcur.trans hline, hflag⟩
    · rename_i hw
      cases h
      rw [if_neg hw]
      exact ⟨.refl s, hline, rfl⟩
  · have hne' : line'.toNat ≠ line.toNat := fun he => hne (UInt8.toNat_inj.mp he)
    have hset : (s.writeCfgLine || line' != line) = true := by simp [hne]
    dsimp only at h
    rw [if_pos hne', if_pos rfl] at h
    obtain ⟨hwrote, hcur, hflag⟩ := Pcinit.put_wrote h hfit
    rw [UInt8.ofNat_toNat] at hwrote
    rw [hset, if_pos rfl]
    exact ⟨⟨hwrote.offset, hwrote.mem⟩, hcur, hflag⟩

theorem pcinitItem_wrote {s s' : Pcinit} {line : UInt8} (hline : s.currentCfgLine = line.toNat) (sec : Tlie)
    (behind : List UInt8) (hty : sec.content.sectionType = Vie.pcInitname)
    (h : pcinitItem base maxLength s (sec.encode ++ behind) = some s')
    (hfit : s.offset + 3 + sec.content.pcinitEntry.bytes.length < 2 ^ 32) :
    s.Wrote s' base ((if s.writeCfgLine || sec.content.pcinitEntry.line != line then
        [pcinitCfgLineNumber, 1, sec.content.pcinitEntry.line] else []) ++ sec.content.pcinitEntry.bytes) ∧
      s'.currentCfgLine = sec.content.pcinitEntry.line.toNat ∧
      s'.writeCfgLine = (s.writeCfgLine || sec.content.pcinitEntry.line != line) := by
  obtain ⟨more, hdata⟩ := getPcInitData_encode sec behind
  obtain ⟨htype, htype'⟩ := getPcInitType_encode sec behind
  have hcfg := getCfgLineNumber_encode sec behind
  unfold pcinitItem at h
  rw [getSectionType_encode, if_neg (not_not.mpr hty), hdata, hcfg] at h
  dsimp only at h
  rw [htype, htype'] at h
  generalize sec.content.pcinitEntry = e at h hfit ⊢
  obtain ⟨s1, h1, h⟩ := Option.bind_eq_some_iff.mp h
  obtain ⟨s2, h2, h⟩ := Option.bind_eq_some_iff.mp h
  obtain ⟨hw1, hc1, hf1⟩ := Pcinit.line_wrote hline h1 (by omega)
  have hlen1 : s1.offset ≤ s.offset + 3 := by
    rw [hw1.offset]
    split <;> simp
  have hpos : 0 < e.bytes.length := by simp [PcinitEntry.bytes]
  obtain ⟨hw2, hc2, hf2⟩ := Pcinit.put_wrote h2 (by rw [List.length_singleton]; omega)
  have hlen2 : s2.offset = s1.offset + 1 := hw2.offset
  by_cases hlow : e.type &&& 0x80 = 0
  · have hbytes : e.bytes = [e.type] ++ ([UInt8.ofNat e.data.length] ++ e.data) := by
      rw [PcinitEntry.bytes, if_pos hlow]
      rfl
    rw [hbytes] at hfit ⊢
    simp only [List.length_append, List.length_singleton] at hfit
    rw [if_neg (not_not.mpr ((and_high_eq_zero _).mp hlow))] at h
    obtain ⟨s3, h3, h⟩ := Option.bind_eq_some_iff.mp h
    obtain ⟨hw3, hc3, hf3⟩ := Pcinit.put_wrote h3 (by rw [List.length_singleton]; omega)
    have hlen3 : s3.offset = s2.offset + 1 := hw3.offset
    obtain ⟨hw4, hc4, hf4⟩ : s3.Wrote s' base e.data ∧ s'.currentCfgLine = s3.currentCfgLine ∧
        s'.writeCfgLine = s3.writeCfgLine := by
      split at h
      · rw [List.take_left] at h
        exact Pcinit.put_wrote h (by omega)
      · rename_i hnil
        have hnil' : e.data = [] := List.eq_nil_of_length_eq_zero (not_not.mp hnil)
        cases h
        rw [hnil']
        exact ⟨.refl _, rfl, rfl⟩
    exact ⟨hw1.trans (hw2.trans (hw3.trans hw4)), by rw [hc4, hc3, hc2, hc1], by rw [hf4, hf3, hf2, hf1]⟩
  · have hbytes : e.bytes = [e.type] := by rw [PcinitEntry.bytes, if_neg hlow]
    rw [if_pos (fun hz => hlow ((and_high_eq_zero _).mpr hz))] at h
    cases h
    rw [hbytes]
    exact ⟨hw1.trans hw2, hc2.trans hc1, hf2.trans hf1⟩

theorem pcinitItem_skip {s : Pcinit} (sec : Tlie) (behind : List UInt8) (h : sec.content.sectionType ≠ Vie.pcInitname) :
    pcinitItem base maxLength s (sec.encode ++ behind) = some s := by
  unfold pcinitItem
  rw [getSectionType_encode, if_pos h]

/-- The entries of sections. -/
def entriesOf (cs : List Elems) : List PcinitEntry :=
  (cs.filter fun c => c.sectionType = Vie.pcInitname).map Elems.pcinitEntry

theorem length_encodePcinit_pos (line : UInt8) (w : Bool) (es : List PcinitEntry) : 0 < (encodePcinit line w es).length := by
  cases es with
  | nil => simp [encodePcinit]
  | cons e es => simp [encodePcinit, PcinitEntry.bytes]

/-- The entries in order, before the end of the list. -/
theorem pcinitItems_wrote (secs : List (Tlie × List UInt8)) {s s' : Pcinit} {line : UInt8}
    (hline : s.currentCfgLine = line.toNat)
    (h : (secs.map fun s => s.1.encode ++ s.2).foldlM (pcinitItem base maxLength) s = some s')
    (hfit : s.offset + (encodePcinit line s.writeCfgLine (entriesOf (secs.map fun s => s.1.content))).length + 2 < 2 ^ 32) :
    ∃ body, encodePcinit line s.writeCfgLine (entriesOf (secs.map fun s => s.1.content)) = body ++ [0] ∧
      s.Wrote s' base body := by
  induction secs generalizing s line with
  | nil =>
    cases h
    exact ⟨[], rfl, .refl _⟩
  | cons sec secs ih =>
    rw [List.map_cons, List.foldlM_cons] at h
    obtain ⟨s1, h1, h2⟩ := Option.bind_eq_some_iff.mp h
    by_cases hty : sec.1.content.sectionType = Vie.pcInitname
    · have hentries : entriesOf ((sec :: secs).map fun s => s.1.content)
          = sec.1.content.pcinitEntry :: entriesOf (secs.map fun s => s.1.content) := by
        simp [entriesOf, hty]
      rw [hentries, encodePcinit] at hfit ⊢
      simp only [List.length_append] at hfit
      have hpos := length_encodePcinit_pos sec.1.content.pcinitEntry.line
        (s.writeCfgLine || sec.1.content.pcinitEntry.line != line) (entriesOf (secs.map fun s => s.1.content))
      obtain ⟨hw1, hc1, hf1⟩ := pcinitItem_wrote hline sec.1 sec.2 hty h1 (by omega)
      have hoff := hw1.offset
      rw [List.length_append, ← hf1] at hoff
      rw [← hf1] at hfit ⊢
      obtain ⟨body, hbody, hw2⟩ := ih hc1 h2 (by omega)
      refine ⟨_, ?_, hw1.trans hw2⟩
      rw [hbody, hf1, ← List.append_assoc]
    · have hentries : entriesOf ((sec :: secs).map fun s => s.1.content) = entriesOf (secs.map fun s => s.1.content) := by
        simp [entriesOf, hty]
      rw [pcinitItem_skip sec.1 sec.2 hty] at h1
      cases h1
      rw [hentries] at hfit ⊢
      exact ih hline h2 hfit

/-- Without memory every entry is counted. -/
theorem pcinitItem_none (base maxLength : Nat) {s : Pcinit} (hm : s.mem = none) (item : List UInt8) :
    ∃ s', pcinitItem base maxLength s item = some s' ∧ s'.mem = none := by
  unfold pcinitItem
  split
  · exact ⟨s, rfl, hm⟩
  · obtain ⟨s1, h1, hm1⟩ : ∃ s1, s.line base maxLength (getCfgLineNumber item) = some s1 ∧ s1.mem = none := by
      unfold Pcinit.line
      generalize hs0 : (if getCfgLineNumber item ≠ s.currentCfgLine then
        { s with writeCfgLine := true, currentCfgLine := getCfgLineNumber item } else s) = s0
      have hm0 : s0.mem = none := by
        subst hs0
        split <;> exact hm
      dsimp only
      split
      · exact Pcinit.put_none _ _ hm0 _ _
      · exact ⟨s0, rfl, hm0⟩
    obtain ⟨s2, h2, hm2⟩ := Pcinit.put_none base maxLength hm1 s1.offset [UInt8.ofNat (getPcInitType item)]
    obtain ⟨s3, h3, hm3⟩ := Pcinit.put_none base maxLength hm2 s2.offset [UInt8.ofNat (getPcInitData item).1]
    dsimp only
    simp only [h1, h2, Option.bind_eq_bind, Option.bind_some]
    split
    · exact ⟨s2, rfl, hm2⟩
    · simp only [h3, Option.bind_some]
      split
      · exact Pcinit.put_none _ _ hm3 _ _
      · exact ⟨s3, rfl, hm3⟩

theorem pcinitItems_none (base maxLength : Nat) (its : List (List UInt8)) {s : Pcinit} (hm : s.mem = none) :
    ∃ s', its.foldlM (pcinitItem base maxLength) s = some s' ∧ s'.mem = none := by
  induction its generalizing s with
  | nil => exact ⟨s, rfl, hm⟩
  | cons item its ih =>
    obtain ⟨s1, h1, hm1⟩ := pcinitItem_none base maxLength hm item
    obtain ⟨s2, h2, hm2⟩ := ih hm1
    refine ⟨s2, ?_, hm2⟩
    rw [List.foldlM_cons, h1]
    exact h2

end Pcinit

/-! ## The rounds -/

section Rounds

variable (t : Tlie) (behind : List UInt8)

/-- The PCINIT list, in the memory that there is. -/
theorem writePcinit_wrote {mem mem' : Option Mem} {base maxLength n : Nat}
    (h : writePcinit mem base (t.encode ++ behind) maxLength = some (mem', n))
    (hfit : pcinitOffset + t.content.pcinitList.length + 2 < 2 ^ 32) :
    mem' = mem.map (fun m => store m (base + pcinitOffset) t.content.pcinitList)
      ∧ n = pcinitOffset + t.content.pcinitList.length := by
  obtain ⟨secs, hitems, hcontents⟩ := t.items_encode behind
  unfold writePcinit at h
  rw [hitems] at h
  obtain ⟨s1, h1, h⟩ := Option.bind_eq_some_iff.mp h
  obtain ⟨s2, h2, h⟩ := Option.bind_eq_some_iff.mp h
  cases h
  have hlist : encodePcinit 0 false (entriesOf (secs.map fun s => s.1.content)) = t.content.pcinitList := by
    rw [hcontents]
    rfl
  obtain ⟨body, hbody, hw1⟩ := pcinitItems_wrote secs (show 0 = (0 : UInt8).toNat from rfl) h1 (by rw [hlist]; exact hfit)
  rw [hlist] at hbody
  have hlen := congrArg List.length hbody
  rw [List.length_append, List.length_singleton] at hlen
  have hoff : s1.offset = pcinitOffset + body.length := hw1.offset
  obtain ⟨hw2, -⟩ := Pcinit.put_wrote h2 (by rw [List.length_singleton]; omega)
  have hboth := hw1.trans hw2
  rw [← hbody] at hboth
  exact ⟨hboth.mem, hboth.offset⟩

theorem writePcinit_none (hfit : pcinitOffset + t.content.pcinitList.length + 2 < 2 ^ 32) :
    writePcinit none 0 (t.encode ++ behind) 0 = some (none, pcinitOffset + t.content.pcinitList.length) := by
  obtain ⟨s1, h1, hm1⟩ := pcinitItems_none 0 0 (items (t.encode ++ behind))
    (s := ⟨none, pcinitOffset, 0, false⟩) rfl
  obtain ⟨s2, h2, hm2⟩ := Pcinit.put_none 0 0 hm1 s1.offset [0]
  have h : writePcinit none 0 (t.encode ++ behind) 0 = some (s2.mem, s2.offset) := by
    unfold writePcinit
    simp only [h1, h2, Option.bind_eq_bind, Option.bind_some]
  rw [h, hm2, (writePcinit_wrote t behind h hfit).2]

/-- The lengths of the RAM sections. -/
theorem writeRamInit_eq (hfit : t.content.itemContents.foldl ramEnd 0 < 2 ^ 32) :
    writeRamInit none 0 (t.encode ++ behind) 0 = some (none, t.content.itemContents.foldl ramEnd 0) := by
  obtain ⟨secs, hitems, hcontents⟩ := t.items_encode behind
  unfold writeRamInit
  rw [hitems, ← hcontents]
  rw [← hcontents] at hfit
  exact writeRamInit_none secs 0 hfit

/-- The sections that are copied. -/
theorem copied_length (secs : List (Tlie × List UInt8)) (p : Nat)
    (hfit : p + (((secs.map fun s => s.1.content).filter fun c => c.IsCopied).flatMap fun c => (Elems.tlie c .nil).encode).length
      < 2 ^ 32) :
    (secs.map fun s => s.1.encode ++ s.2).foldl (fun p item => if Copied item then w32 (p + getMaxLength item) else p) p
      = p + (((secs.map fun s => s.1.content).filter fun c => c.IsCopied).flatMap fun c =>
        (Elems.tlie c .nil).encode).length := by
  induction secs generalizing p with
  | nil => rfl
  | cons sec secs ih =>
    have hcopied : Copied (sec.1.encode ++ sec.2) ↔ sec.1.content.IsCopied := by
      unfold Copied Elems.IsCopied
      rw [getSectionType_encode]
    rw [List.map_cons, List.map_cons, List.foldl_cons]
    rw [List.map_cons] at hfit
    by_cases hc : sec.1.content.IsCopied
    · rw [List.filter_cons_of_pos (by simpa using hc), List.flatMap_cons, List.length_append] at hfit ⊢
      have hlen : (Elems.tlie sec.1.content .nil).encode.length = sec.1.encode.length := rfl
      rw [if_pos (hcopied.mpr hc), sec.1.getMaxLength_encode, w32_eq (by omega), ih _ (by omega)]
      omega
    · rw [List.filter_cons_of_neg (by simpa using hc)] at hfit ⊢
      rw [if_neg (fun h => hc (hcopied.mp h))]
      exact ih p hfit

theorem vleLength_foldl (vs : List Nat) (hvs : ∀ v ∈ vs, v < 2 ^ 32) (p : Nat)
    (hfit : p + (vs.flatMap Leb128.encode).length < 2 ^ 32) :
    vs.foldl (fun p value => w32 (p + vleLength value)) p = p + (vs.flatMap Leb128.encode).length := by
  induction vs generalizing p with
  | nil => rfl
  | cons v vs ih =>
    rw [List.flatMap_cons, List.length_append] at hfit ⊢
    rw [List.foldl_cons, vleLength_eq (hvs v List.mem_cons_self), w32_eq (by omega),
      ih (fun v hv => hvs v (List.mem_cons_of_mem _ hv)) _ (by omega)]
    omega

/-- The identification is the first element. -/
theorem getInstanceData_eq (hid : t.content.id = Vie.inst ∨ t.content.id = Vie.instance2) :
    getInstanceData (t.encode ++ behind) = (t.header.length, t.content.single.encode.length) ∧
      ((t.encode ++ behind).drop t.header.length).take t.content.single.encode.length = t.content.single.encode := by
  obtain ⟨h1, h2⟩ := t.vleToDword_encode behind
  have hdrop := t.drop_header behind
  have hstart : (Leb128.encode Vie.tlie).length + (Leb128.encode t.content.encode.length).length = t.header.length :=
    List.length_append.symm
  have hlt := t.content_lt
  have hok := t.ok
  unfold getInstanceData
  rw [h1]
  dsimp only
  rw [h2]
  dsimp only
  rw [hstart, ← List.drop_drop, hdrop]
  rcases hes : t.content with - | ⟨id, value, rest⟩ | ⟨id, data, rest⟩ | ⟨content, rest⟩
  · exact absurd hes t.ne
  · rw [hes] at hid hok hlt
    have hid' : id = Vie.inst := by
      refine hid.resolve_right ?_
      rintro rfl
      exact absurd hok.1 (by decide)
    subst hid'
    have hid32 : Vie.inst < 2 ^ 32 := by decide
    simp only [Elems.encode, List.length_append] at hlt
    have hw : w32 ((Leb128.encode Vie.inst).length + (Leb128.encode value).length)
        = (Leb128.encode Vie.inst).length + (Leb128.encode value).length := w32_eq (by omega)
    constructor
    · simp only [Elems.encode, List.append_assoc, Elems.single, List.append_nil, List.length_append]
      rw [vleToDword_encode hid32, List.drop_left, vleToDword_encode hok.2.1]
      dsimp only
      rw [if_neg (by decide), hw]
    · simp only [Elems.encode, Elems.single, List.append_nil]
      rw [List.append_assoc, List.take_left]
  · rw [hes] at hid hok hlt
    have hid' : id = Vie.instance2 := by
      refine hid.resolve_left ?_
      rintro rfl
      exact absurd hok.1 (by decide)
    subst hid'
    have hid32 : Vie.instance2 < 2 ^ 32 := by decide
    simp only [Elems.encode, List.length_append] at hlt
    have hw : w32 ((Leb128.encode Vie.instance2).length + data.length + (Leb128.encode data.length).length)
        = (Leb128.encode Vie.instance2).length + data.length + (Leb128.encode data.length).length := w32_eq (by omega)
    constructor
    · simp only [Elems.encode, List.append_assoc, Elems.single, List.append_nil, List.length_append]
      rw [vleToDword_encode hid32, List.drop_left, vleToDword_encode hok.2.1]
      dsimp only
      rw [if_pos rfl, hw, Nat.add_right_comm, Nat.add_assoc]
    · simp only [Elems.encode, Elems.single, List.append_nil]
      rw [List.append_assoc (Leb128.encode Vie.instance2 ++ Leb128.encode data.length ++ data), List.take_left]
  · rw [hes] at hid
    rcases hid with hid | hid
    · cases hid
    · cases hid

/-- What is in front of the shared memory in the RAM section. -/
def Elems.ramStart (es : Elems) : List UInt8 := ramSectionStart.flatMap Leb128.encode ++ Leb128.encode es.sharedLength

theorem encode_ramSection (es : Elems) : es.ramSection.encode = es.ramStart ++ es.sharedImage := by
  simp [Elems.ramSection, Elems.ramStart, ramSectionStart, Elems.encode, Elems.sharedImage_length]

/-- The bytes of the copied sections. -/
def Elems.copiedBytes (es : Elems) : List UInt8 := es.copied.flatMap fun c => (Elems.tlie c .nil).encode

/-- What is in front of the shared memory in the image. -/
def Elems.imageStart (es : Elems) : List UInt8 :=
  [Vie.tlie, es.adapterContent.encode.length].flatMap Leb128.encode ++ es.single.encode ++ es.copiedBytes
    ++ [Vie.tlie, es.ramSection.encode.length].flatMap Leb128.encode ++ es.ramStart

theorem encode_adapterContent (es : Elems) :
    es.adapterContent.encode = es.single.encode ++ es.copiedBytes
      ++ ([Vie.tlie, es.ramSection.encode.length].flatMap Leb128.encode ++ (es.ramStart ++ es.sharedImage)) := by
  unfold Elems.adapterContent
  rw [Elems.encode_append, Elems.encode_tlies, ← encode_ramSection]
  simp [Elems.encode, Elems.copiedBytes]

/-- The image is its start and the shared memory. -/
theorem encode_adapter (es : Elems) : (Elems.tlie es.adapterContent .nil).encode = es.imageStart ++ es.sharedImage := by
  simp only [Elems.encode, Elems.imageStart, encode_adapterContent, List.flatMap_cons, List.flatMap_nil, List.append_nil,
    List.append_assoc]

theorem two_le_imageStart (es : Elems) : 2 ≤ es.imageStart.length := by
  have h1 := Leb128.length_encode_pos Vie.tlie
  have h2 := Leb128.length_encode_pos es.adapterContent.encode.length
  simp only [Elems.imageStart, List.length_append, List.flatMap_cons, List.flatMap_nil, List.append_nil]
  omega

/-- The first round gives the lengths. -/
theorem sizePass_eq (hid : t.content.id = Vie.inst ∨ t.content.id = Vie.instance2)
    (hfit : (Elems.tlie t.content.adapterContent .nil).encode.length < 2 ^ 32) :
    sizePass (t.encode ++ behind) = some
      ⟨(Elems.tlie t.content.adapterContent .nil).encode.length, t.content.adapterContent.encode.length,
        t.content.ramSection.encode.length, t.content.sharedLength⟩ := by
  obtain ⟨secs, hitems, hcontents⟩ := t.items_encode behind
  have hshared : t.content.sharedImage.length = t.content.sharedLength := t.content.sharedImage_length
  have hram := congrArg List.length (encode_ramSection t.content)
  have hcontent := congrArg List.length (encode_adapterContent t.content)
  have htotal := congrArg List.length (encode_adapter t.content)
  have hmax : max (t.content.itemContents.foldl ramEnd 0) (pcinitOffset + t.content.pcinitList.length)
      = t.content.sharedLength := rfl
  have hpcpos := length_encodePcinit_pos 0 false t.content.pcinitEntries
  have hv0 := Leb128.length_encode_pos Vie.tlie
  have hv1 := Leb128.length_encode_pos t.content.ramSection.encode.length
  have hv2 := Leb128.length_encode_pos t.content.sharedLength
  have hv3 := Leb128.length_encode_pos t.content.adapterContent.encode.length
  simp only [Elems.imageStart, Elems.ramStart, List.length_append, List.flatMap_cons, List.flatMap_nil, List.append_nil,
    hshared] at hram hcontent htotal
  have hvs : ∀ v ∈ ramSectionStart, v < 2 ^ 32 := by decide
  have htl : Vie.tlie < 2 ^ 32 := by decide
  have hcopied : ∀ p, p + t.content.copiedBytes.length < 2 ^ 32 → (secs.map fun s => s.1.encode ++ s.2).foldl
      (fun p item => if Copied item then w32 (p + getMaxLength item) else p) p = p + t.content.copiedBytes.length := by
    unfold Elems.copiedBytes Elems.copied
    rw [← hcontents]
    exact copied_length secs
  generalize hstart : (Leb128.encode Vie.tlie).length = start at *
  generalize hident : t.content.single.encode.length = ident at *
  generalize t.content.copiedBytes.length = copied at *
  generalize hfixed : (ramSectionStart.flatMap Leb128.encode).length = fixed at *
  unfold sizePass
  rw [hitems, (getInstanceData_eq t behind hid).1, writeRamInit_eq t behind (by omega), writePcinit_none t behind (by omega),
    vleLength_eq htl]
  dsimp only
  rw [hstart, hident, w32_eq (n := start + ident) (by omega), hcopied (start + ident) (by omega),
    w32_eq (n := start + ident + copied + start) (by omega),
    vleLength_foldl _ hvs (start + ident + copied + start) (by omega), hmax, hfixed,
    w32_eq (n := start + ident + copied + start + fixed + t.content.sharedLength) (by omega), vleLength_eq (by omega),
    w32_eq (n := start + ident + copied + start + fixed + t.content.sharedLength + _) (by omega),
    room_eq (by omega) (by omega), if_neg (by omega)]
  have hsub : start + ident + copied + start + fixed + t.content.sharedLength + (Leb128.encode t.content.sharedLength).length
      - (start + ident + copied + start) = t.content.ramSection.encode.length := by omega
  have hpos : start + ident + copied + start + fixed + t.content.sharedLength + (Leb128.encode t.content.sharedLength).length
      = start + ident + copied + start + t.content.ramSection.encode.length := by omega
  rw [hsub, hpos, vleLength_eq (by omega), w32_eq (n := start + ident + copied + start + t.content.ramSection.encode.length + _)
    (by omega),
    room_eq (by omega) (by omega)]
  have hall : start + ident + copied + start + t.content.ramSection.encode.length
      + (Leb128.encode t.content.ramSection.encode.length).length - start = t.content.adapterContent.encode.length := by omega
  rw [hall, vleLength_eq (by omega), w32_eq (by omega)]
  congr 2
  omega

/-! The round with memory. `Writer.wrote` is the writer once `bytes` are written. -/

def Writer.wrote (m : Mem) (headerLength : Nat) (bytes : List UInt8) : Writer := ⟨store m headerLength bytes, bytes.length⟩

theorem Writer.vle_wrote (m : Mem) (headerLength : Nat) {maxLength v : Nat} {bytes : List UInt8} (hv : v < 2 ^ 32)
    (hmax : maxLength < 2 ^ 32) (hfit : bytes.length + (Leb128.encode v).length ≤ maxLength) :
    (wrote m headerLength bytes).vle headerLength maxLength v = wrote m headerLength (bytes ++ Leb128.encode v) := by
  unfold Writer.vle wrote
  dsimp only
  rw [room_eq (by omega) hmax, dwordToVle_room hv (by omega)]
  dsimp only
  rw [w32_eq (by omega), Bytes.store_store, List.length_append]

theorem Writer.vles_wrote (m : Mem) (headerLength : Nat) {maxLength : Nat} (vs : List Nat) (hvs : ∀ v ∈ vs, v < 2 ^ 32)
    {bytes : List UInt8} (hmax : maxLength < 2 ^ 32) (hfit : bytes.length + (vs.flatMap Leb128.encode).length ≤ maxLength) :
    vs.foldl (Writer.vle headerLength maxLength) (wrote m headerLength bytes)
      = wrote m headerLength (bytes ++ vs.flatMap Leb128.encode) := by
  induction vs generalizing bytes with
  | nil => rw [List.flatMap_nil, List.append_nil]; rfl
  | cons v vs ih =>
    rw [List.flatMap_cons, List.length_append] at hfit
    rw [List.foldl_cons, vle_wrote m headerLength (hvs v List.mem_cons_self) hmax (by omega),
      ih (fun v hv => hvs v (List.mem_cons_of_mem _ hv)) (by rw [List.length_append]; omega), List.flatMap_cons,
      List.append_assoc]

theorem Writer.item_wrote (m : Mem) (headerLength : Nat) {maxLength : Nat} (sec : Tlie) {bytes : List UInt8}
    (hc : sec.content.IsCopied) (hmax : maxLength < 2 ^ 32) (hfit : bytes.length + sec.encode.length ≤ maxLength) :
    (wrote m headerLength bytes).item headerLength maxLength (sec.encode ++ behind)
      = some (wrote m headerLength (bytes ++ sec.encode)) := by
  have hcopied : Copied (sec.encode ++ behind) := by
    unfold Copied
    rw [getSectionType_encode]
    exact hc
  have hroom : sec.encode.length ≤ room maxLength (wrote m headerLength bytes).position := by
    unfold wrote
    dsimp only
    rw [room_eq (by omega) hmax]
    omega
  unfold Writer.item
  rw [if_pos hcopied, sec.getMaxLength_encode]
  dsimp only
  rw [if_pos hroom, List.take_left]
  dsimp only [wrote]
  rw [w32_eq (by omega), Bytes.store_store, List.length_append]

theorem Writer.items_wrote (m : Mem) (headerLength : Nat) {maxLength : Nat} (secs : List (Tlie × List UInt8))
    {bytes : List UInt8} (hmax : maxLength < 2 ^ 32)
    (hfit : bytes.length + (((secs.map fun s => s.1.content).filter fun c => c.IsCopied).flatMap
      fun c => (Elems.tlie c .nil).encode).length ≤ maxLength) :
    (secs.map fun s => s.1.encode ++ s.2).foldlM (Writer.item headerLength maxLength) (wrote m headerLength bytes)
      = some (wrote m headerLength (bytes ++ ((secs.map fun s => s.1.content).filter fun c => c.IsCopied).flatMap
          fun c => (Elems.tlie c .nil).encode)) := by
  induction secs generalizing bytes with
  | nil => simp
  | cons sec secs ih =>
    have henc : (Elems.tlie sec.1.content .nil).encode = sec.1.encode := rfl
    rw [List.map_cons, List.map_cons, List.foldlM_cons]
    rw [List.map_cons] at hfit
    by_cases hc : sec.1.content.IsCopied
    · rw [List.filter_cons_of_pos (by simpa using hc), List.flatMap_cons, henc] at hfit ⊢
      rw [List.length_append] at hfit
      rw [item_wrote sec.2 m headerLength sec.1 hc hmax (by omega), ← List.append_assoc]
      exact ih (by rw [List.length_append]; omega)
    · rw [List.filter_cons_of_neg (by simpa using hc)] at hfit ⊢
      have hskip : (wrote m headerLength bytes).item headerLength maxLength (sec.1.encode ++ sec.2)
          = some (wrote m headerLength bytes) := by
        unfold Writer.item
        rw [if_neg]
        unfold Copied
        rw [getSectionType_encode]
        exact hc
      rw [hskip]
      exact ih hfit

/-- The identification fits, since the shared memory is behind it. -/
theorem Writer.ident_wrote (m : Mem) (headerLength : Nat) {maxLength : Nat} {bytes : List UInt8}
    (hid : t.content.id = Vie.inst ∨ t.content.id = Vie.instance2) (hmax : maxLength < 2 ^ 32)
    (hfit : 2 * bytes.length + t.content.single.encode.length < maxLength) :
    (wrote m headerLength bytes).ident headerLength maxLength (t.encode ++ behind)
      = wrote m headerLength (bytes ++ t.content.single.encode) := by
  obtain ⟨hdata, hbytes⟩ := getInstanceData_eq t behind hid
  have hpos : (wrote m headerLength bytes).position = bytes.length := rfl
  have hroom : w32 ((wrote m headerLength bytes).position + t.content.single.encode.length)
      < room maxLength (wrote m headerLength bytes).position := by
    rw [hpos, w32_eq (by omega), room_eq (by omega) hmax]
    omega
  unfold Writer.ident
  rw [hdata]
  dsimp only
  rw [if_pos hroom, hbytes]
  dsimp only [wrote]
  rw [w32_eq (by omega), Bytes.store_store, List.length_append]

/-- The writer up to the shared memory. -/
theorem writePass_start (m : Mem) (headerLength : Nat) (hid : t.content.id = Vie.inst ∨ t.content.id = Vie.instance2)
    (hfit : (Elems.tlie t.content.adapterContent .nil).encode.length < 2 ^ 32) {sz : Sizes}
    (hsz : sizePass (t.encode ++ behind) = some sz) {m' : Mem} (h : writePass m headerLength (t.encode ++ behind) sz = some m') :
    ∃ m1 ramLength pcinitLength,
      writeRamInit (some (store m headerLength t.content.imageStart)) (headerLength + t.content.imageStart.length)
        (t.encode ++ behind) t.content.sharedLength = some (some m1, ramLength) ∧
      writePcinit (some m1) (headerLength + t.content.imageStart.length) (t.encode ++ behind) t.content.sharedLength
        = some (some m', pcinitLength) := by
  rw [sizePass_eq t behind hid hfit, Option.some_inj] at hsz
  obtain ⟨secs, hitems, hcontents⟩ := t.items_encode behind
  have hshared := t.content.sharedImage_length
  have htotal := congrArg List.length (encode_adapter t.content)
  have hcontent := congrArg List.length (encode_adapterContent t.content)
  have hram := congrArg List.length (encode_ramSection t.content)
  have hmax : pcinitOffset ≤ t.content.sharedLength := Nat.le_trans (Nat.le_add_right _ _) (Nat.le_max_right _ _)
  have hlt : t.content.adapterContent.encode.length < 2 ^ 32 := by
    simp only [Elems.encode, List.length_append] at hfit
    omega
  have hstart : ([Vie.tlie, t.content.adapterContent.encode.length].flatMap Leb128.encode).length ≤ 6 := by
    have htl : (Leb128.encode Vie.tlie).length = 1 := by decide +kernel
    have hle := Leb128.length_encode_le (n := t.content.adapterContent.encode.length) (k := 5) (by decide) (by omega)
    simp only [List.flatMap_cons, List.flatMap_nil, List.append_nil, List.length_append]
    omega
  have himage : t.content.imageStart = [Vie.tlie, t.content.adapterContent.encode.length].flatMap Leb128.encode
      ++ t.content.single.encode ++ t.content.copiedBytes
      ++ ([Vie.tlie, t.content.ramSection.encode.length] ++ ramSectionStart ++ [t.content.sharedLength]).flatMap
        Leb128.encode := by
    simp [Elems.imageStart, Elems.ramStart]
  have hlen := congrArg List.length himage
  simp only [List.length_append] at htotal hcontent hram hlen
  have hpc : pcinitOffset = 224 := rfl
  have hcopied : t.content.copiedBytes = ((secs.map fun s => s.1.content).filter fun c => c.IsCopied).flatMap
      fun c => (Elems.tlie c .nil).encode := by
    rw [hcontents]
    rfl
  have hroom : (Elems.tlie t.content.adapterContent .nil).encode.length - t.content.imageStart.length
      = t.content.sharedLength := by
    omega
  have hvs : ∀ v ∈ [Vie.tlie, t.content.adapterContent.encode.length], v < 2 ^ 32 := by
    intro v hv
    simp only [List.mem_cons, List.not_mem_nil, or_false] at hv
    rcases hv with rfl | rfl
    · decide
    · exact hlt
  have hvs' : ∀ v ∈ [Vie.tlie, t.content.ramSection.encode.length] ++ ramSectionStart ++ [t.content.sharedLength],
      v < 2 ^ 32 := by
    intro v hv
    rcases List.mem_append.mp hv with hv | hv
    · rcases List.mem_append.mp hv with hv | hv
      · simp only [List.mem_cons, List.not_mem_nil, or_false] at hv
        rcases hv with rfl | rfl
        · decide
        · omega
      · exact (show ∀ v ∈ ramSectionStart, v < 2 ^ 32 by decide) v hv
    · rw [List.mem_singleton.mp hv]
      omega
  unfold writePass at h
  subst hsz
  dsimp only at h
  rw [show (⟨m, 0⟩ : Writer) = Writer.wrote m headerLength [] by simp [Writer.wrote]] at h
  rw [Writer.vles_wrote m headerLength _ hvs hfit (by simp only [List.length_nil]; omega), List.nil_append,
    Writer.ident_wrote t behind m headerLength hid hfit (by omega), hitems,
    Writer.items_wrote m headerLength secs hfit (by rw [← hcopied]; simp only [List.length_append]; omega), ← hcopied] at h
  dsimp only at h
  rw [Writer.vles_wrote m headerLength _ hvs' hfit (by simp only [List.length_append]; omega), ← himage] at h
  dsimp only [Writer.wrote] at h
  rw [room_eq (by omega) hfit, hroom] at h
  split at h
  · rename_i m1 ramLength hr
    split at h
    · rename_i m2 pcinitLength hp
      split at h
      · cases h
      · cases h
        exact ⟨m1, ramLength, pcinitLength, hr, hp⟩
    · cases h
  · cases h

/-- The shared memory is written over zeros, and nothing behind the block. -/
theorem writePass_eq (m : Mem) {headerLength : Nat} (hid : t.content.id = Vie.inst ∨ t.content.id = Vie.instance2)
    (hfit : (Elems.tlie t.content.adapterContent .nil).encode.length < 2 ^ 32)
    (hzero : ∀ i, i < headerLength + (Elems.tlie t.content.adapterContent .nil).encode.length → m i = 0) {sz : Sizes}
    (hsz : sizePass (t.encode ++ behind) = some sz) {m' : Mem} (h : writePass m headerLength (t.encode ++ behind) sz = some m') :
    load m' headerLength (Elems.tlie t.content.adapterContent .nil).encode.length
      = (Elems.tlie t.content.adapterContent .nil).encode ∧
      ∀ i, headerLength + (Elems.tlie t.content.adapterContent .nil).encode.length ≤ i → m' i = m i := by
  obtain ⟨m1, ramLength, pcinitLength, hram, hpc⟩ := writePass_start t behind m headerLength hid hfit hsz h
  obtain ⟨secs, hitems, hcontents⟩ := t.items_encode behind
  have hshared := t.content.sharedImage_length
  have htotal := congrArg List.length (encode_adapter t.content)
  rw [List.length_append, hshared] at htotal
  have hram_le : t.content.itemContents.foldl ramEnd 0 ≤ t.content.sharedLength := Nat.le_max_left _ _
  have hpc_le : pcinitOffset + t.content.pcinitList.length ≤ t.content.sharedLength := Nat.le_max_right _ _
  have hstart : Shares (headerLength + t.content.imageStart.length) t.content.sharedLength
      (store m headerLength t.content.imageStart) (store m headerLength t.content.imageStart) fun _ => 0 := by
    constructor
    · intro i hi
      rw [Bytes.store_outside m (by omega), hzero _ (by omega)]
    · intro i _
      rfl
  unfold writeRamInit at hram
  rw [hitems] at hram
  obtain ⟨m2, hm2, hs2⟩ := writeRamInit_shares secs hstart hram (by
    intro c hc hty
    rw [hcontents] at hc
    exact Nat.le_trans (ramEnd_le hc hty 0) hram_le) (by omega)
  cases hm2
  rw [hcontents] at hs2
  have htwo := two_le_imageStart t.content
  obtain ⟨hm3, -⟩ := writePcinit_wrote t behind hpc (by omega)
  cases hm3
  have hs3 := hs2.store hpc_le
  constructor
  · dsimp only
    rw [htotal, Bytes.load_add, encode_adapter]
    have hfront : load (store m1 (headerLength + t.content.imageStart.length + pcinitOffset) t.content.pcinitList) headerLength
        t.content.imageStart.length = load (store m headerLength t.content.imageStart) headerLength
          t.content.imageStart.length := by
      refine Bytes.load_congr ?_
      intro i hi
      exact hs3.around _ (.inl (by omega))
    rw [hfront, Bytes.load_store_self]
    congr 1
    refine Bytes.load_congr ?_
    intro i hi
    rw [hs3.image i hi, Nat.zero_add]
    rfl
  · intro i hi
    dsimp only
    rw [hs3.around i (.inr (by omega)), Bytes.store_outside m (by omega)]

end Rounds

/-! ## The adapter -/

namespace Elems

theorem Ok.append {es fs : Elems} (h : es.Ok) (hf : fs.Ok) : (es.append fs).Ok := by
  induction es with
  | nil => exact hf
  | vle id value rest ih => exact ⟨h.1, h.2.1, ih h.2.2⟩
  | bs id data rest ih => exact ⟨h.1, h.2.1, ih h.2.2⟩
  | tlie content rest _ ih => exact ⟨h.1, h.2.1, h.2.2.1, ih h.2.2.2⟩

theorem Ok.single {es : Elems} (h : es.Ok) : es.single.Ok := by
  cases es with
  | nil => trivial
  | vle id value rest => exact ⟨h.1, h.2.1, trivial⟩
  | bs id data rest => exact ⟨h.1, h.2.1, trivial⟩
  | tlie content rest => exact ⟨h.1, h.2.1, h.2.2.1, trivial⟩

/-- The sections of a tree as trees. -/
theorem Ok.itemContents {es c : Elems} (h : es.Ok) (hc : c ∈ es.itemContents) :
    c ≠ nil ∧ c.encode.length < 2 ^ 32 ∧ c.Ok := by
  induction es with
  | nil => cases hc
  | vle id value rest ih => exact ih h.2.2 hc
  | bs id data rest ih => exact ih h.2.2 hc
  | tlie content rest _ ih =>
    rw [Elems.itemContents] at hc
    split at hc
    · rcases List.mem_cons.mp hc with rfl | hc
      · exact ⟨h.1, h.2.1, h.2.2.1⟩
      · exact ih h.2.2.2 hc
    · exact ih h.2.2.2 hc

theorem Ok.tlies {cs : List Elems} {es : Elems} (hcs : ∀ c ∈ cs, c ≠ nil ∧ c.encode.length < 2 ^ 32 ∧ c.Ok) (h : es.Ok) :
    (Elems.tlies cs es).Ok := by
  induction cs with
  | nil => exact h
  | cons c cs ih =>
    obtain ⟨hne, hlt, hok⟩ := hcs c List.mem_cons_self
    exact ⟨hne, hlt, hok, ih fun c hc => hcs c (List.mem_cons_of_mem _ hc)⟩

theorem Ok.adapterContent {es : Elems} (h : es.Ok) (hfit : (tlie es.adapterContent nil).encode.length < 2 ^ 32) :
    es.adapterContent.Ok := by
  have htotal := congrArg List.length (encode_adapter es)
  have hcontent := congrArg List.length (encode_adapterContent es)
  have hram := congrArg List.length (encode_ramSection es)
  have hlen := es.sharedImage_length
  have htwo := two_le_imageStart es
  simp only [List.length_append] at htotal
  have hramlt : es.ramSection.encode.length < 2 ^ 32 := by
    simp only [imageStart, List.length_append] at htotal hram
    omega
  refine h.single.append (Ok.tlies ?_ ⟨nofun, hramlt, ?_, trivial⟩)
  · intro c hc
    exact h.itemContents (List.mem_filter.mp hc).1
  · exact ⟨rfl, by decide, rfl, by decide, rfl, by omega, trivial⟩

theorem adapterContent_ne (es : Elems) : es.adapterContent ≠ nil := by
  have hcontent := congrArg List.length (encode_adapterContent es)
  have hpos := Leb128.length_encode_pos Vie.tlie
  simp only [List.length_append, List.flatMap_cons] at hcontent
  intro hnil
  rw [hnil, encode, List.length_nil] at hcontent
  omega

end Elems

/-- The adapter content as a stored tlie. -/
def Tlie.adapter (t : Tlie) (hfit : (Elems.tlie t.content.adapterContent .nil).encode.length < 2 ^ 32) : Tlie where
  content := t.content.adapterContent
  ok := t.ok.adapterContent hfit
  ne := t.content.adapterContent_ne
  size := hfit

/-- The PCINIT list is read from the shared memory. -/
theorem decodePcinit_sharedImage (es : Elems) (hproper : ∀ e ∈ es.pcinitEntries, e.Proper) {n : Nat}
    (hn : 2 * es.pcinitEntries.length < n) :
    decodePcinit n 0 (es.sharedImage.drop pcinitOffset) = es.pcinitEntries.map PcinitEntry.stored := by
  have hle : pcinitOffset + es.pcinitList.length ≤ es.sharedLength := Nat.le_max_right _ _
  obtain ⟨k, hk⟩ := Nat.exists_eq_add_of_le hle
  have hdata : ∀ e ∈ es.pcinitEntries, e.data.length < 256 := by
    intro e he
    obtain ⟨c, -, rfl⟩ := List.mem_map.mp he
    refine Nat.lt_of_le_of_lt (List.length_take_le _ _) (Nat.mod_lt _ (by decide))
  have hlist : es.sharedImage.drop pcinitOffset
      = es.pcinitList ++ load es.sharedMemory (pcinitOffset + es.pcinitList.length) k := by
    have hself := Bytes.load_store_self (es.itemContents.foldl ramApply fun _ => 0) pcinitOffset es.pcinitList
    have hfront : (load es.sharedMemory 0 pcinitOffset).length = pcinitOffset := Bytes.load_length _ _ _
    unfold Elems.sharedImage
    rw [hk, Bytes.load_add, Bytes.load_add, List.append_assoc, List.drop_left' hfront, Nat.zero_add, Nat.zero_add]
    congr 1
  rw [hlist]
  exact decodePcinit_encode hproper hdata 0 false _ hn

/-- Of every instance whose image is shorter than a dword can tell, header included, the
    block is the header and the stored adapter content, and nothing behind it is written. -/
theorem translate_xdi_data (t : Tlie) (behind : List UInt8) (hid : t.content.id = Vie.inst ∨ t.content.id = Vie.instance2)
    (malloc : Bool) (mem : Mem) (headerLength : Nat)
    (hfit : headerLength + (Elems.tlie t.content.adapterContent .nil).encode.length < 2 ^ 32) {m : Mem} {n : Nat}
    (h : translateXdiData malloc mem headerLength (t.encode ++ behind) = some (m, n)) :
    ∃ out : Tlie, out.content = t.content.adapterContent ∧ load m headerLength (n - headerLength) = out.encode ∧
      getMaxLength out.encode = n - headerLength ∧ headerLength ≤ n ∧ (∀ i, n ≤ i → m i = mem i) ∧
      ((∀ e ∈ t.content.pcinitEntries, e.Proper) → ∀ k, 2 * t.content.pcinitEntries.length < k →
        decodePcinit k 0 (t.content.sharedImage.drop pcinitOffset) = t.content.pcinitEntries.map PcinitEntry.stored) := by
  have hfit' : (Elems.tlie t.content.adapterContent .nil).encode.length < 2 ^ 32 := by omega
  have hsz := sizePass_eq t behind hid hfit'
  have hlen := w32_eq (n := (Elems.tlie t.content.adapterContent .nil).encode.length + headerLength) (by omega)
  unfold translateXdiData at h
  rw [hsz] at h
  dsimp only at h
  rw [hlen] at h
  split at h
  · split at h
    · cases h
    · rename_i m' hw
      cases h
      obtain ⟨hload, haround⟩ := writePass_eq t behind _ hid hfit' (fun i hi => if_pos (by omega)) hsz hw
      refine ⟨t.adapter hfit', rfl, ?_, ?_, by omega, ?_, ?_⟩
      · rw [Nat.add_sub_cancel]
        exact hload
      · have hmax := (t.adapter hfit').getMaxLength_encode []
        rw [List.append_nil] at hmax
        rw [hmax, Nat.add_sub_cancel]
        rfl
      · intro i hi
        rw [haround i (by omega), if_neg (by omega)]
      · intro hproper k hk
        exact decodePcinit_sharedImage t.content hproper hk
  · cases h

/-- An instance with a RAM section, a PCINIT section and a parameter. -/
def ramAndPcinit : Elems :=
  .vle Vie.inst 1
    (.tlie (.vle Vie.ramInitOffset 3 (.vle Vie.ramInitOperation 1 (.bs Vie.ramInitValue [7, 8] .nil)))
      (.tlie (.vle Vie.pcInitname 5 (.bs Vie.pcInitValue [1] .nil))
        (.tlie (.bs Vie.namedVarName [65] (.bs Vie.namedVarValue [66] .nil)) .nil)))

theorem translate_xdi_data_ramAndPcinit :
    ∃ t : Tlie, t.content = ramAndPcinit ∧ ∃ m n, translateXdiData true (fun _ => 0) 3 (t.encode ++ []) = some (m, n) ∧
      ∃ out : Tlie, out.content = t.content.adapterContent ∧ load m 3 (n - 3) = out.encode ∧
        getMaxLength out.encode = n - 3 ∧ 3 ≤ n ∧ (∀ i, n ≤ i → m i = 0) ∧
        ((∀ e ∈ t.content.pcinitEntries, e.Proper) → ∀ k, 2 * t.content.pcinitEntries.length < k →
          decodePcinit k 0 (t.content.sharedImage.drop pcinitOffset) = t.content.pcinitEntries.map PcinitEntry.stored) := by
  have hsome : (translateXdiData true (fun _ => 0) 3 ((Elems.tlie ramAndPcinit .nil).encode ++ [])).isSome := by
    decide +kernel
  obtain ⟨⟨m, n⟩, h⟩ := Option.isSome_iff_exists.mp hsome
  let t : Tlie := ⟨ramAndPcinit, by decide +kernel, by decide, by decide +kernel⟩
  exact ⟨t, rfl, m, n, h, translate_xdi_data t [] (.inl rfl) true (fun _ => 0) 3 (by decide +kernel) h⟩

def bindingSection : Elems := .tlie (.vle Vie.bindingDirection 1 (.vle Vie.bindingEnable 1 .nil)) .nil

/-- An instance with a binding. -/
def withBinding : Elems := .vle Vie.inst 1 bindingSection

/-- An instance with RAM that ends at 2^32 + 1. -/
def withWideRam : Elems :=
  .vle Vie.inst 1
    (.tlie (.vle Vie.ramInitOffset 0xffffffff (.vle Vie.ramInitOperation 1 (.bs Vie.ramInitValue [7, 8] .nil))) .nil)

/-- A binding is not in the block. The end of a RAM section is a dword when it is compared
    with the length, so the wide section is taken to be one byte long, and its bytes are
    written behind the block. -/
theorem translate_xdi_data_loses :
    (∃ m n, translateXdiData true (fun _ => 0) 0 (Elems.tlie withBinding .nil).encode = some (m, n) ∧
      ∀ i, i < n → load m i bindingSection.encode.length ≠ bindingSection.encode) ∧
    ∃ m n, translateXdiData true (fun _ => 0) 0 (Elems.tlie withWideRam .nil).encode = some (m, n) ∧ ∃ i, n ≤ i ∧ m i ≠ 0 := by
  have hbinding : (translateXdiData true (fun _ => 0) 0 (Elems.tlie withBinding .nil).encode).any (fun r =>
      decide (∀ i, i < r.2 → load r.1 i bindingSection.encode.length ≠ bindingSection.encode)) = true := by
    decide +kernel
  have hwide : (translateXdiData true (fun _ => 0) 0 (Elems.tlie withWideRam .nil).encode).any (fun r =>
      decide (r.2 ≤ 2 ^ 32 ∧ r.1 (2 ^ 32 + 15) ≠ 0)) = true := by
    decide +kernel
  constructor
  · obtain ⟨⟨m, n⟩, h, hno⟩ := (Option.any_eq_true _ _).mp hbinding
    exact ⟨m, n, h, of_decide_eq_true hno⟩
  · obtain ⟨⟨m, n⟩, h, hwrite⟩ := (Option.any_eq_true _ _).mp hwide
    obtain ⟨hle, hne⟩ := of_decide_eq_true hwrite
    exact ⟨m, n, h, 2 ^ 32 + 15, Nat.le_trans hle (Nat.le_add_right _ _), hne⟩

end Divas.Cfg
