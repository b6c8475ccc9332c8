/-
  Divas.Cfg.ManagementWrite — the variables that are written (cfglib.c).

  `encoding` is the configured value as a variable of a type has it: nothing for a command, a
  string with a zero behind it or with its length in front, a number with zeros or with its
  sign up to the length of the variable. A `Request` is what is sent: a length octet and the
  octets that follow, with the length of the path and of the value in front of them.

  Proved:
  - what is written behind the name is the encoding, except that the value of a number without
    a sign is copied a second time behind it (`writeValue_eq`, `writeValue_unsigned`);
  - the two requests for a variable are well formed, and keep to the value and to the buffer,
    exactly if the name goes out as it is enumerated, all lengths fit their octets, the
    encoding fits the variable, the answer has the length of the path, and the value of a
    number without a sign has all its bytes (`wellFormed_iff`);
  - with the visits of a script (`management_requests`), and a number that is shorter than its
    variable, whose copy reads behind it (`short_number_read_behind`).
-/

import Divas.Cfg.ManagementRead
import Divas.Cfg.XdiContent

namespace Divas.Cfg

open Divas.Lib Bytes Checks

/-! ## The value -/

/-- A number without a sign. -/
def Unsigned (varType : UInt8) : Prop := varType ∈ [0x82, 0x83, 0x87, 0x85, 0x88]

instance (varType : UInt8) : Decidable (Unsigned varType) := inferInstanceAs (Decidable (_ ∈ _))

theorem Unsigned.ne {varType : UInt8} (h : Unsigned varType) : varType ≠ 0x02 ∧ varType ≠ 0x03 ∧
    ¬ (varType = 0x04 ∨ varType = 0x05) := by
  unfold Unsigned at h
  simp only [List.mem_cons, List.not_mem_nil, or_false] at h
  rcases h with rfl | rfl | rfl | rfl | rfl
  all_goals decide

/-- The bytes of a number of this length with the sign of the last of them. -/
def signExtended (max : Nat) (value : List UInt8) : List UInt8 :=
  value ++ List.replicate (max - value.length) (if (value.getLast?.getD 0).toNat < 128 then 0 else 0xff)

/-- A value as a variable of a type and a length has it. -/
def encoding (varType : UInt8) (max : Nat) (value : List UInt8) : Option (List UInt8) :=
  if varType = 0x02 then some []
  else if varType = 0x03 then some (value ++ [0])
  else if varType = 0x04 ∨ varType = 0x05 then some (UInt8.ofNat value.length :: value)
  else if Unsigned varType then some (value ++ List.replicate (max - value.length) 0)
  else if varType = 0x81 ∧ value.length ∈ [1, 2, 4] ∧ max ∈ [1, 2, 4] then some (signExtended max value)
  else none

section Value

variable {varType : UInt8} {max p : Nat} {value : List UInt8}

theorem check_pos (varType : UInt8) : 0 < checkManagementVariableValueType varType ↔ Unsigned varType := by
  unfold checkManagementVariableValueType Unsigned
  by_cases h : varType = 0x81
  · subst h
    decide
  · rw [if_neg h]
    split <;> simp_all

theorem check_zero (varType : UInt8) : checkManagementVariableValueType varType = 0 ↔ varType = 0x81 := by
  unfold checkManagementVariableValueType
  split
  · simp_all
  · split <;> simp_all

/-- The dword is the value, with its sign above it. -/
theorem signedSource_eq {v : Nat} (h : signedSource value = some v) : ∃ w, v = leNat value + 256 ^ value.length * w ∧
    ∀ max ∈ [1, 2, 4], value.length ≤ max → leBytes (max - value.length) w
      = List.replicate (max - value.length) (if (value.getLast?.getD 0).toNat < 128 then 0 else 0xff) := by
  rcases value with - | ⟨a, - | ⟨b, - | ⟨c, - | ⟨d, - | ⟨e, value⟩⟩⟩⟩⟩
  · cases h
  · cases h
    by_cases hs : a.toNat < 128
    · refine ⟨0, by simp [leNat, hs], ?_⟩
      simp only [List.getLast?_singleton, Option.getD_some, hs, if_true, List.length_singleton]
      decide
    · refine ⟨2 ^ 24 - 1, by simp only [leNat, hs, if_false, List.length_singleton]; omega, ?_⟩
      simp only [List.getLast?_singleton, Option.getD_some, hs, if_false, List.length_singleton]
      decide
  · have ha := a.toNat_lt
    have hb := b.toNat_lt
    cases h
    by_cases hs : b.toNat < 128
    · have hw : a.toNat + 256 * b.toNat < 32768 := by omega
      refine ⟨0, by simp only [leNat, hw, if_true]; omega, ?_⟩
      simp only [List.getLast?_cons_cons, List.getLast?_singleton, Option.getD_some, hs, if_true, List.length_cons,
        List.length_nil]
      decide
    · have hw : ¬ a.toNat + 256 * b.toNat < 32768 := by omega
      refine ⟨2 ^ 16 - 1, by simp only [leNat, hw, if_false, List.length_cons, List.length_nil]; omega, ?_⟩
      simp only [List.getLast?_cons_cons, List.getLast?_singleton, Option.getD_some, hs, if_false, List.length_cons,
        List.length_nil]
      decide
  · cases h
  · cases h
    refine ⟨0, by simp only [leNat]; omega, ?_⟩
    intro max hmax hle
    simp only [List.mem_cons, List.not_mem_nil, or_false] at hmax
    simp only [List.length_cons, List.length_nil] at hle ⊢
    have hfour : max - 4 = 0 := by omega
    rw [hfour]
    rfl
  · cases h

theorem leBytes_signedSource {v : Nat} (h : signedSource value = some v) (hmax : max ∈ [1, 2, 4]) (hle : value.length ≤ max) :
    leBytes max v = signExtended max value := by
  obtain ⟨w, hv, hhigh⟩ := signedSource_eq h
  have happend := leBytes_append value (max - value.length) w
  rw [Nat.add_sub_cancel' hle, ← hv, hhigh max hmax hle] at happend
  exact happend

theorem signedSource_none : signedSource value = none ↔ value.length ∉ [1, 2, 4] := by
  rcases value with - | ⟨a, - | ⟨b, - | ⟨c, - | ⟨d, - | ⟨e, value⟩⟩⟩⟩⟩
  all_goals simp [signedSource]

/-- The value behind the name, unless it is a number without a sign. -/
theorem writeValue_eq (x : Mem) (p : Nat) (hunsigned : ¬ Unsigned varType) (hle : varType = 0x02 ∨ value.length ≤ max) :
    writeValue x p varType max value = match encoding varType max value with
      | none => .ok none
      | some enc => put xdataSize x p enc >>= fun x => pure (some (x, enc.length)) := by
  unfold writeValue encoding
  by_cases hexecute : varType = 0x02
  · have hput : put xdataSize x p [] = .ok x := by
      rw [put_eq_ok]
      exact ⟨Or.inl rfl, store_nil x p⟩
    rw [if_pos hexecute, if_pos hexecute]
    dsimp only
    rw [hput]
    rfl
  · have hshort : value.length ≤ max := hle.resolve_left hexecute
    rw [if_neg hexecute, if_neg hexecute]
    by_cases hstring : varType = 0x03
    · rw [if_pos hstring, if_pos hstring]
      dsimp only
      rw [← put_put, bind_assoc, List.length_append]
      rfl
    · rw [if_neg hstring, if_neg hstring]
      by_cases hcounted : varType = 0x04 ∨ varType = 0x05
      · rw [if_pos hcounted, if_pos hcounted]
        have hpair := put_put xdataSize x p [UInt8.ofNat value.length] value
        rw [List.singleton_append] at hpair
        dsimp only
        rw [← hpair, bind_assoc]
        rfl
      · rw [if_neg hcounted, if_neg hcounted, if_neg (by rwa [check_pos]), if_neg hunsigned]
        by_cases hsigned : varType = 0x81
        · rw [if_pos ((check_zero _).mpr hsigned)]
          rcases hs : signedSource value with - | v
          · rw [if_neg fun h => signedSource_none.mp hs h.2.1]
            rfl
          · have hlength : value.length ∈ [1, 2, 4] := by
              by_contra hno
              rw [signedSource_none.mpr hno] at hs
              cases hs
            dsimp only
            by_cases hmax : max = 1 ∨ max = 2 ∨ max = 4
            · have hmem : max ∈ [1, 2, 4] := by simpa using hmax
              have hbytes := leBytes_signedSource hs hmem hshort
              have hlen : (leBytes max v).length = max := leBytes_length max v
              rw [if_pos hmax, if_pos ⟨hsigned, hlength, hmem⟩]
              dsimp only
              rw [← hbytes, hlen]
            · rw [if_neg hmax, if_neg fun h => hmax (by simpa using h.2.2)]
              rfl
        · rw [if_neg (by rwa [check_zero]), if_neg fun h => hsigned h.1]
          rfl

/-- The value of a number without a sign is written twice. -/
theorem writeValue_unsigned (x : Mem) (p : Nat) (hunsigned : Unsigned varType) (hle : value.length ≤ max)
    {o : Option (Mem × Nat)} : writeValue x p varType max value = .ok o ↔
      value.length = max ∧ (max = 0 ∨ p + 2 * max ≤ xdataSize) ∧ o = some (store x p (value ++ value), max) := by
  obtain ⟨h2, h3, h45⟩ := hunsigned.ne
  unfold writeValue
  rw [if_neg h2, if_neg h3, if_neg h45, if_pos ((check_pos _).mpr hunsigned)]
  have hlen : ((List.range max).map fun i => value.getD i 0).length = max := by simp
  by_cases hfull : value.length = max
  · have hsame : ((List.range max).map fun i => value.getD i 0) = value := by
      subst hfull
      exact List.ext_getElem (by simp) fun i h1 h2 => by simp [List.getD_eq_getElem?_getD, h2]
    have hslice : slice value 0 max = .ok value := by
      rw [slice_of_le (by omega), List.drop_zero, List.take_of_length_le (by omega)]
    have hcopy : (put xdataSize x p value >>= fun m => put xdataSize m (p + max) value) = put xdataSize x p (value ++ value) := by
      rw [← put_put, hfull]
    have hdo : (put xdataSize x p ((List.range max).map fun i => value.getD i 0) >>= fun x => slice value 0 max >>= fun bytes =>
        put xdataSize x (p + max) bytes >>= fun x => pure (some (x, max)))
          = (put xdataSize x p (value ++ value) >>= fun x => pure (some (x, max)) : Checked (Option (Mem × Nat))) := by
      rw [hsame, hslice, ← hcopy, bind_assoc]
      rfl
    have hboth : (value ++ value).length = 2 * max := by rw [List.length_append]; omega
    refine (Eq.congr_left hdo).trans ?_
    rw [bind_eq_ok]
    constructor
    · rintro ⟨m, hput, hret⟩
      obtain ⟨hroom, rfl⟩ := put_eq_ok.mp hput
      exact ⟨hfull, by omega, (Except.ok.inj hret).symm⟩
    · rintro ⟨-, hroom, rfl⟩
      exact ⟨_, put_eq_ok.mpr ⟨by omega, rfl⟩, rfl⟩
  · constructor
    · intro h
      obtain ⟨m, -, h⟩ := bind_eq_ok.mp h
      obtain ⟨bytes, hslice, -⟩ := bind_eq_ok.mp h
      unfold slice at hslice
      rw [if_neg (by omega)] at hslice
      cases hslice
    · exact fun h => absurd h.1 hfull

theorem encoding_full {enc : List UInt8} (h : encoding varType max value = some enc) (hunsigned : Unsigned varType)
    (hfull : value.length = max) : enc = value := by
  obtain ⟨h2, h3, h45⟩ := hunsigned.ne
  unfold encoding at h
  rw [if_neg h2, if_neg h3, if_neg h45, if_pos hunsigned, hfull, Nat.sub_self, List.replicate_zero, List.append_nil] at h
  exact (Option.some.inj h).symm

theorem encoding_unsigned (hunsigned : Unsigned varType) (max : Nat) (value : List UInt8) :
    ∃ enc, encoding varType max value = some enc := by
  unfold encoding
  split
  · exact ⟨_, rfl⟩
  · split
    · exact ⟨_, rfl⟩
    · split
      · exact ⟨_, rfl⟩
      · exact ⟨_, rfl⟩

/-- If the value is written, it is with its encoding at this place, and for a number without a
    sign nothing of the value is missing. -/
theorem writeValue_ok {x : Mem} {o : Option (Mem × Nat)} (hle : varType = 0x02 ∨ value.length ≤ max)
    (h : writeValue x p varType max value = .ok o) {enc : List UInt8} (henc : encoding varType max value = some enc) :
    ∃ x', o = some (x', enc.length) ∧ (∀ i, i < p → x' i = x i) ∧
      (Unsigned varType → value.length = max ∧ (max = 0 ∨ p + 2 * max ≤ xdataSize)) := by
  by_cases hunsigned : Unsigned varType
  · have hshort : value.length ≤ max := hle.resolve_left fun h2 => by subst h2; exact absurd hunsigned (by decide)
    obtain ⟨hfull, hroom, rfl⟩ := (writeValue_unsigned x p hunsigned hshort).mp h
    obtain rfl := encoding_full henc hunsigned hfull
    exact ⟨_, by rw [hfull], fun i hi => store_outside x (Or.inl hi), fun _ => ⟨hfull, hroom⟩⟩
  · rw [writeValue_eq x p hunsigned hle, henc] at h
    dsimp only at h
    obtain ⟨m, hput, hret⟩ := bind_eq_ok.mp h
    obtain ⟨-, rfl⟩ := put_eq_ok.mp hput
    exact ⟨_, (Except.ok.inj hret).symm, fun i hi => store_outside x (Or.inl hi), fun hc => absurd hc hunsigned⟩

/-- With room for the encoding, and all of a number without a sign, the value is written. -/
theorem writeValue_room (x : Mem) (hle : varType = 0x02 ∨ value.length ≤ max) {enc : List UInt8}
    (henc : encoding varType max value = some enc) (hroom : p + enc.length ≤ xdataSize)
    (hnumber : Unsigned varType → value.length = max ∧ p + 2 * max ≤ xdataSize) :
    ∃ x', writeValue x p varType max value = .ok (some (x', enc.length)) ∧ load x' p enc.length = enc ∧
      ∀ i, i < p → x' i = x i := by
  by_cases hunsigned : Unsigned varType
  · have hshort : value.length ≤ max := hle.resolve_left fun h2 => by subst h2; exact absurd hunsigned (by decide)
    obtain ⟨hfull, hfit⟩ := hnumber hunsigned
    obtain rfl := encoding_full henc hunsigned hfull
    refine ⟨store x p (enc ++ enc), ?_, ?_, fun i hi => store_outside x (Or.inl hi)⟩
    · rw [hfull]
      exact (writeValue_unsigned x p hunsigned hshort).mpr ⟨hfull, Or.inr hfit, rfl⟩
    · have hload := load_store_self x p (enc ++ enc)
      rw [List.length_append, load_add] at hload
      exact (List.append_inj hload (load_length _ _ _)).1
  · refine ⟨store x p enc, ?_, load_store_self x p enc, fun i hi => store_outside x (Or.inl hi)⟩
    rw [writeValue_eq x p hunsigned hle, henc]
    dsimp only
    rw [put_store x hroom]
    rfl

theorem writeValue_refused (x : Mem) (p : Nat) (hle : varType = 0x02 ∨ value.length ≤ max)
    (henc : encoding varType max value = none) : writeValue x p varType max value = .ok none := by
  have hunsigned : ¬ Unsigned varType := by
    intro h
    obtain ⟨enc, hsome⟩ := encoding_unsigned h max value
    cases henc.symm.trans hsome
  rw [writeValue_eq x p hunsigned hle, henc]

end Value

/-! ## The request -/

/-- A request of so many octets. The length octet does not count itself, the octet in front of
    it and the zero at the end. -/
structure Request (x : Mem) (length : Nat) (path value : List UInt8) : Prop where
  length : length = path.length + value.length + 9
  octets : (x 1).toNat = path.length + value.length + 6
  valueLength : (x 6).toNat = value.length
  pathLength : (x 7).toNat = path.length
  pathAt : load x 8 path.length = path
  valueAt : load x (8 + path.length) value.length = value
  ended : x (8 + path.length + value.length) = 0

/-- A write request in `xdata` that is made of an answer. -/
structure WriteOctets (x r : Mem) (name enc : List UInt8) : Prop where
  octets : x 1 = UInt8.ofNat (enc.length + name.length + 6)
  header : ∀ i ∈ [0, 2, 3, 4, 5, 7], x i = r i
  valueLength : x 6 = UInt8.ofNat enc.length
  path : load x 8 name.length = name
  value : load x (8 + name.length) enc.length = enc
  ended : x (8 + name.length + enc.length) = 0

theorem writable_le {r : Mem} {length : Nat} (h : writable r length) : r 3 = 0x02 ∨ length ≤ (r 6).toNat := by
  rcases h with h | ⟨-, h⟩
  · exact Or.inl h
  · right
    split at h
    · omega
    · exact h

namespace ManagedVariable

variable {v : ManagedVariable}

/-- The configured value. -/
def value (v : ManagedVariable) : List UInt8 :=
  match v.sec.content.section_ with
  | none => []
  | some _ => ([Vie.namedVarValue, Vie.ramInitValue, Vie.pcInitValue].findSome? v.sec.content.bytesOf).getD []

theorem element_bytes (t : Tlie) (behind : List UInt8) {k : Nat} (hform : (findTagFromId k).map (·.form) = some .bs) :
    (getSectionElement (t.encode ++ behind) k).map (fun offset => elementBytes ((t.encode ++ behind).drop offset))
      = t.content.bytesOf k := by
  rw [t.getSectionElement_encode]
  rcases t.ok.find_bytes hform with ⟨hf, hn⟩ | ⟨data, rest, hf, hn, hid, hd⟩
  · rw [hf, hn]
    rfl
  · have hbs := elementBytes_encode hid hd (rest.encode ++ behind)
    rw [hf, hn, Option.map_some, Option.map_some, Tlie.drop_offset (Elems.find_place hf).1]
    simpa [Elems.encode] using hbs

theorem getVariableData_eq (v : ManagedVariable) (behind : List UInt8) : (getVariableData (v.src behind)).getD [] = v.value := by
  unfold getVariableData value src
  rw [identifySection_getSectionType]
  rcases v.sec.content.section_ with - | ref
  · rfl
  · dsimp only
    rw [List.findSome?_cons, List.findSome?_cons, List.findSome?_cons, element_bytes _ _ (by rfl), element_bytes _ _ (by rfl),
      element_bytes _ _ (by rfl)]
    rfl

/-- The lengths, and the zero at the end. -/
def finishWriteReq (s : ManagementIfc) (name : List UInt8) (x : Mem) (n : Nat) : Checked (ManagementIfc × Int) :=
  put xdataSize (store (store x 1 [UInt8.ofNat (n + name.length + 6)]) 6 [UInt8.ofNat n]) (8 + name.length + n) [0] >>= fun x =>
    .ok ({ s with writeVarName := [], xdata := x, rdata := store s.rdata 0 [0] }, (x 1).toNat + 3)

/-- The answer and the name, in front of the value. -/
def writeHead (s : ManagementIfc) : Mem := store (store s.xdata 0 (load s.rdata 0 8)) 8 s.writeVarName

/-- A write request with a name for which the answer allows the value. -/
theorem createWriteReq_eq (v : ManagedVariable) (behind : List UInt8) (s : ManagementIfc) (hne : s.writeVarName ≠ [])
    (hle : s.writeVarName.length ≤ 255) (hw : writable s.rdata v.value.length) :
    createWriteReq (v.src behind) s =
      (writeValue (writeHead s) (8 + s.writeVarName.length) (s.rdata 3) (s.rdata 6).toNat v.value >>= fun o => match o with
        | none => .ok ({ s with writeVarName := [], failed := true, xdata := writeHead s }, -1)
        | some (x, n) => finishWriteReq s s.writeVarName x n) := by
  unfold createWriteReq
  rw [v.getVariableData_eq behind]
  dsimp only
  rw [if_neg (by tauto), put_store _ (by rw [xdataSize, load_length]; decide), ok_bind_ok,
    put_store _ (by rw [xdataSize]; omega), ok_bind_ok]
  refine bind_congr fun o => ?_
  rcases o with - | ⟨x, n⟩
  · rfl
  · dsimp only
    rw [put_store _ (by rw [xdataSize]; simp), ok_bind_ok, put_store _ (by rw [xdataSize]; simp), ok_bind_ok]
    rfl

/-- The write request is not made: there is no name, or the answer does not allow the value. -/
theorem createWriteReq_refused (v : ManagedVariable) (behind : List UInt8) (s : ManagementIfc)
    (h : s.writeVarName = [] ∨ ¬ writable s.rdata v.value.length) :
    createWriteReq (v.src behind) s = .ok ({ s with writeVarName := [], failed := true }, -1) := by
  unfold createWriteReq
  rw [v.getVariableData_eq behind]
  dsimp only
  rw [if_pos h]
  rfl

theorem createWriteReq_unencoded (v : ManagedVariable) (behind : List UInt8) (s : ManagementIfc) (hne : s.writeVarName ≠ [])
    (hle : s.writeVarName.length ≤ 255) (hw : writable s.rdata v.value.length)
    (henc : encoding (s.rdata 3) (s.rdata 6).toNat v.value = none) :
    createWriteReq (v.src behind) s = .ok ({ s with writeVarName := [], failed := true, xdata := writeHead s }, -1) := by
  rw [createWriteReq_eq v behind s hne hle hw, writeValue_refused _ _ (writable_le hw) henc]
  rfl

theorem writeHead_header (s : ManagementIfc) {i : Nat} (hi : i < 8) : writeHead s i = s.rdata i := by
  have h : store s.xdata 0 (load s.rdata 0 8) (0 + i) = (load s.rdata 0 8).getD i 0 :=
    store_inside s.xdata (by rw [load_length]; exact hi)
  rw [Nat.zero_add] at h
  unfold writeHead
  rw [store_outside _ (by omega), h]
  simp [load, List.getD_eq_getElem?_getD, hi]

theorem writeHead_path (s : ManagementIfc) : load (writeHead s) 8 s.writeVarName.length = s.writeVarName := load_store_self _ _ _

/-- A request that is made. -/
theorem finishWriteReq_ok {s s' : ManagementIfc} {name enc : List UInt8} {x : Mem} {n : Int}
    (h : finishWriteReq s name x enc.length = .ok (s', n)) :
    n = ((s'.xdata 1).toNat : Int) + 3 ∧ s'.xdata 1 = UInt8.ofNat (enc.length + name.length + 6) ∧
      s'.xdata 6 = UInt8.ofNat enc.length ∧ (∀ i, i < 8 + name.length + enc.length → i ≠ 1 → i ≠ 6 → s'.xdata i = x i) ∧
      s'.xdata (8 + name.length + enc.length) = 0 := by
  obtain ⟨m, hput, hret⟩ := bind_eq_ok.mp h
  obtain ⟨-, rfl⟩ := put_eq_ok.mp hput
  cases Except.ok.inj hret
  dsimp only
  refine ⟨rfl, ?_, ?_, ?_, ?_⟩
  · rw [store_outside _ (by omega), store_outside _ (by omega)]
    exact store_inside (k := 1) (i := 0) _ (by simp)
  · rw [store_outside _ (by omega)]
    exact store_inside (k := 6) (i := 0) _ (by simp)
  · intro i hi h1 h6
    rw [store_outside _ (by omega), store_outside _ (by simp; omega), store_outside _ (by simp; omega)]
  · exact store_inside (i := 0) _ (by simp)

/-- The write request, if the value has room and nothing of it is missing. -/
theorem createWriteReq_room (v : ManagedVariable) (behind : List UInt8) (s : ManagementIfc) {enc : List UInt8}
    (hne : s.writeVarName ≠ []) (hw : writable s.rdata v.value.length)
    (henc : encoding (s.rdata 3) (s.rdata 6).toNat v.value = some enc)
    (hroom : 8 + s.writeVarName.length + enc.length + 1 ≤ xdataSize) (hle : s.writeVarName.length ≤ 255)
    (hnumber : Unsigned (s.rdata 3) → v.value.length = (s.rdata 6).toNat ∧
      8 + s.writeVarName.length + 2 * (s.rdata 6).toNat ≤ xdataSize) :
    ∃ s' n, createWriteReq (v.src behind) s = .ok (s', n) ∧ n = ((s'.xdata 1).toNat : Int) + 3 ∧
      WriteOctets s'.xdata s.rdata s.writeVarName enc := by
  obtain ⟨x, hx, hload, hframe⟩ := writeValue_room (p := 8 + s.writeVarName.length) (writeHead s) (writable_le hw) henc
    (by omega) hnumber
  have hroom' : 8 + s.writeVarName.length + enc.length + ([0] : List UInt8).length ≤ xdataSize := hroom
  have hput := put_store (store (store x 1 [UInt8.ofNat (enc.length + s.writeVarName.length + 6)]) 6 [UInt8.ofNat enc.length])
    hroom'
  have hfinish : ∃ r, finishWriteReq s s.writeVarName x enc.length = .ok r := by
    unfold finishWriteReq
    rw [hput]
    exact ⟨_, rfl⟩
  obtain ⟨⟨s', n⟩, hr⟩ := hfinish
  obtain ⟨hn, h1, h6, hsame, hend⟩ := finishWriteReq_ok hr
  refine ⟨s', n, ?_, hn, h1, ?_, h6, ?_, ?_, hend⟩
  · rw [createWriteReq_eq v behind s hne hle hw, hx, ok_bind_ok]
    exact hr
  · intro i hi
    have hlt : i < 8 ∧ i ≠ 1 ∧ i ≠ 6 := by
      have hall : ∀ i ∈ [0, 2, 3, 4, 5, 7], i < 8 ∧ i ≠ 1 ∧ i ≠ 6 := by decide
      exact hall i hi
    rw [hsame i (by omega) hlt.2.1 hlt.2.2, hframe i (by omega), writeHead_header s hlt.1]
  · conv_rhs => rw [← writeHead_path s]
    refine load_congr fun i hi => ?_
    rw [hsame _ (by omega) (by omega) (by omega), hframe _ (by omega)]
  · conv_rhs => rw [← hload]
    exact load_congr fun i hi => hsame _ (by omega) (by omega) (by omega)

/-- What a write request shows that was made. -/
theorem createWriteReq_made {v : ManagedVariable} {behind : List UInt8} {s s' : ManagementIfc} {n : Int} {enc : List UInt8}
    (hne : s.writeVarName ≠ []) (hle : s.writeVarName.length ≤ 255) (hw : writable s.rdata v.value.length)
    (henc : encoding (s.rdata 3) (s.rdata 6).toNat v.value = some enc)
    (h : createWriteReq (v.src behind) s = .ok (s', n)) :
    n ≠ -1 ∧ s'.xdata 7 = s.rdata 7 ∧ (Unsigned (s.rdata 3) → v.value.length = (s.rdata 6).toNat ∧
      ((s.rdata 6).toNat = 0 ∨ 8 + s.writeVarName.length + 2 * (s.rdata 6).toNat ≤ xdataSize)) := by
  rw [createWriteReq_eq v behind s hne hle hw] at h
  obtain ⟨o, hvalue, h⟩ := bind_eq_ok.mp h
  obtain ⟨x, rfl, hframe, hnumber⟩ := writeValue_ok (writable_le hw) hvalue henc
  dsimp only at h
  obtain ⟨hn, -, -, hsame, -⟩ := finishWriteReq_ok h
  refine ⟨by omega, ?_, hnumber⟩
  rw [hsame 7 (by omega) (by decide) (by decide), hframe 7 (by omega), writeHead_header s (by decide)]

/-! ## Both requests -/

/-- The read request for the entry behind the offset, and the write request that is made of its
    answer, if both are made. -/
def WellFormed (v : ManagedVariable) (behind : List UInt8) (s : ManagementIfc) (r : Mem) : Prop :=
  ∃ s1 length, createReadReq (v.src behind) s = .ok (s1, length) ∧ (length ≠ 0 →
    ∃ s2 n, createWriteReq (v.src behind) { s1 with rdata := r } = .ok (s2, n) ∧ (n ≠ -1 →
      ∃ name enc, (entries v.info s.scriptOffset).head? = some name ∧ encoding (r 3) (r 6).toNat v.value = some enc ∧
        enc.length ≤ (r 6).toNat ∧
        s1.xdata 0 = escChar ∧ Request s1.xdata length (enumerated s.finalEnumNr name) [] ∧
        (∀ i ∈ [0, 2, 3, 4, 5], s2.xdata i = r i) ∧ Request s2.xdata n.toNat (enumerated s.finalEnumNr name) enc))

/-- A read request with a name goes out. -/
def Asked (nr : BitVec 32) (name : List UInt8) : Prop := (firstReplaced nr name).length % 256 ∉ [0, 247]

instance (nr : BitVec 32) (name : List UInt8) : Decidable (Asked nr name) := inferInstanceAs (Decidable (_ ∉ _))

/-- The name, the answer and the encoded value go together. -/
structure Fits (v : ManagedVariable) (nr : BitVec 32) (r : Mem) (name enc : List UInt8) : Prop where
  marks : MarksOk nr name
  readLength : (enumerated nr name).length + 9 ≤ 255
  writeLength : (enumerated nr name).length + enc.length + 6 ≤ 255
  valueLength : enc.length ≤ (r 6).toNat
  pathLength : (r 7).toNat = (enumerated nr name).length
  number : Unsigned (r 3) → v.value.length = (r 6).toNat ∧ (enumerated nr name).length + 2 * (r 6).toNat + 8 ≤ xdataSize

theorem toNat_ofNat_of_lt {n : Nat} (h : n ≤ 255) : (UInt8.ofNat n).toNat = n := by
  rw [UInt8.toNat_ofNat']
  omega

theorem request_of_read {x : Mem} {path : List UInt8} (h : ReadOctets x path) (hlength : path.length + 9 ≤ 255) :
    Request x ((path.length + 9) % 256) path [] where
  length := by
    rw [List.length_nil]
    omega
  octets := by
    rw [h.octets, toNat_ofNat_of_lt (by omega)]
    rfl
  valueLength := by
    rw [h.valueLength]
    rfl
  pathLength := by rw [h.pathLength, toNat_ofNat_of_lt (by omega)]
  pathAt := h.path
  valueAt := rfl
  ended := h.ended

theorem request_of_write {x r : Mem} {path enc : List UInt8} (h : WriteOctets x r path enc)
    (hlength : path.length + enc.length + 6 ≤ 255) (hpath : (r 7).toNat = path.length) :
    Request x (((x 1).toNat : Int) + 3).toNat path enc where
  length := by
    rw [h.octets, toNat_ofNat_of_lt (by omega)]
    omega
  octets := by
    rw [h.octets, toNat_ofNat_of_lt (by omega)]
    omega
  valueLength := by rw [h.valueLength, toNat_ofNat_of_lt (by omega)]
  pathLength := by rw [h.header 7 (by decide), hpath]
  pathAt := h.path
  valueAt := h.value
  ended := h.ended

/-- The name that went out is the one of the request. -/
theorem sent_of_request {x : Mem} {nr : BitVec 32} {name path : List UInt8} {length : Nat}
    (h : ReadOctets x (sentName nr name)) (hreq : Request x length path []) : sentName nr name = path := by
  have hle : (sentName nr name).length ≤ 255 := by
    rw [length_sentName]
    omega
  have hlength : path.length = (sentName nr name).length := by
    rw [← hreq.pathLength, h.pathLength, toNat_ofNat_of_lt hle]
  rw [← h.path, ← hreq.pathAt, hlength]

theorem fits_of_wellFormed {v : ManagedVariable} {behind : List UInt8} {s : ManagementIfc} {r : Mem} {name enc : List UInt8}
    (h : WellFormed v behind s r) (hhead : (entries v.info s.scriptOffset).head? = some name) (hasked : Asked s.finalEnumNr name)
    (hw : writable r v.value.length) (henc : encoding (r 3) (r 6).toNat v.value = some enc) :
    Fits v s.finalEnumNr r name enc := by
  obtain ⟨s1, length, hread, hrest⟩ := h
  have hinfo : v.info ≠ [] := by
    intro hnil
    unfold entries at hhead
    rw [hnil] at hhead
    cases Option.some.inj hhead
    exact hasked (by rw [firstReplaced_of_notMem List.not_mem_nil]; exact List.mem_cons_self)
  obtain ⟨rest, hentries⟩ : ∃ rest, entries v.info s.scriptOffset = name :: rest := by
    rcases hl : entries v.info s.scriptOffset with - | ⟨name', rest⟩
    · rw [hl] at hhead
      cases hhead
    · rw [hl] at hhead
      cases hhead
      exact ⟨rest, rfl⟩
  obtain ⟨s1', hread', hname, -, hoctets, -⟩ := createReadReq_entry behind s hinfo hentries
  cases hread.symm.trans hread'
  unfold Asked at hasked
  rw [← length_sentName] at hasked
  simp only [List.mem_cons, List.not_mem_nil, or_false, not_or] at hasked
  have hsent : (sentName s.finalEnumNr name).length ≤ 255 := by
    rw [length_sentName]
    omega
  obtain ⟨s2, n, hwrite, hmade⟩ := hrest (by omega)
  have hne : ({ s1 with rdata := r } : ManagementIfc).writeVarName ≠ [] := by
    dsimp only
    rw [hname]
    exact List.length_pos_iff.mp (by omega)
  have hle : ({ s1 with rdata := r } : ManagementIfc).writeVarName.length ≤ 255 := by
    dsimp only
    rw [hname]
    exact hsent
  obtain ⟨hn, hseven, hnumber⟩ := createWriteReq_made hne hle hw henc hwrite
  obtain ⟨name', enc', hhead', henc', hvalue, -, hreq, -, hwreq⟩ := hmade hn
  cases hhead.symm.trans hhead'
  cases henc.symm.trans henc'
  have hpath := sent_of_request hoctets hreq
  obtain ⟨hmarks, -⟩ := (sentName_eq_iff _ _).mp hpath
  have hlength := hreq.length
  have hwlength := hwreq.octets
  have hbyte := (s2.xdata 1).toNat_lt
  dsimp only at hseven hnumber
  rw [hname, hpath] at hnumber
  rw [List.length_nil] at hlength
  rw [hpath] at hlength hsent
  refine ⟨hmarks, by omega, by omega, hvalue, ?_, fun hu => ⟨(hnumber hu).1, ?_⟩⟩
  · rw [← hseven, hwreq.pathLength]
  · have := (hnumber hu).2
    rw [xdataSize] at this ⊢
    omega

theorem wellFormed_of_fits {v : ManagedVariable} {s : ManagementIfc} {r : Mem} (behind : List UInt8)
    (hfits : ∀ name enc, (entries v.info s.scriptOffset).head? = some name → Asked s.finalEnumNr name →
      writable r v.value.length → encoding (r 3) (r 6).toNat v.value = some enc → Fits v s.finalEnumNr r name enc) :
    WellFormed v behind s r := by
  by_cases hinfo : v.info = []
  · obtain ⟨s1, n, hread, hno⟩ := createReadReq_empty behind s hinfo
    refine ⟨s1, n, hread, fun hn => ⟨_, _, createWriteReq_refused v behind _ (Or.inl (hno.resolve_left hn)), ?_⟩⟩
    exact fun hc => absurd rfl hc
  · rcases hentries : entries v.info s.scriptOffset with - | ⟨name, rest⟩
    · obtain ⟨s1, hread, -⟩ := createReadReq_none behind s hentries
      exact ⟨s1, 0, hread, fun hc => absurd rfl hc⟩
    · obtain ⟨s1, hread, hname, -, hoctets, -⟩ := createReadReq_entry behind s hinfo hentries
      have hhead : (entries v.info s.scriptOffset).head? = some name := by rw [hentries]; rfl
      refine ⟨s1, _, hread, fun hlength => ?_⟩
      -- The request is refused without a name, by the answer, or for the type of the variable.
      by_cases hrefused : ({ s1 with rdata := r } : ManagementIfc).writeVarName = [] ∨ ¬ writable r v.value.length
      · exact ⟨_, _, createWriteReq_refused v behind _ hrefused, fun hc => absurd rfl hc⟩
      · rw [not_or, not_not] at hrefused
        obtain ⟨hne, hw⟩ := hrefused
        have hsent : (sentName s.finalEnumNr name).length ≤ 255 := by
          rw [length_sentName]
          omega
        have hle : ({ s1 with rdata := r } : ManagementIfc).writeVarName.length ≤ 255 := by
          dsimp only
          rw [hname]
          exact hsent
        rcases henc : encoding (r 3) (r 6).toNat v.value with - | enc
        · exact ⟨_, _, createWriteReq_unencoded v behind _ hne hle hw henc, fun hc => absurd rfl hc⟩
        · have hasked : Asked s.finalEnumNr name := by
            have hpos := List.length_pos_iff.mpr hne
            dsimp only at hpos
            rw [hname] at hpos
            unfold Asked
            rw [← length_sentName]
            simp only [List.mem_cons, List.not_mem_nil, or_false, not_or]
            omega
          obtain ⟨hmarks, hrl, hwl, hvl, hpl, hnumber⟩ := hfits name enc hhead hasked hw henc
          have hpath := (sentName_eq_iff s.finalEnumNr name).mpr ⟨hmarks, by omega⟩
          rw [hpath] at hname hoctets
          obtain ⟨s2, n, hwrite, hn, hwoctets⟩ := createWriteReq_room v behind _ hne hw henc
            (by dsimp only; rw [hname, xdataSize]; omega) hle
            (by dsimp only; rw [hname]; exact fun hu => ⟨(hnumber hu).1, by have := (hnumber hu).2; omega⟩)
          dsimp only at hwoctets
          rw [hname] at hwoctets
          refine ⟨s2, n, hwrite, fun _ => ⟨name, enc, hhead, rfl, hvl, hoctets.escape, ?_, ?_, ?_⟩⟩
          · rw [hpath]
            exact request_of_read hoctets hrl
          · have hsub : ∀ i ∈ [0, 2, 3, 4, 5], i ∈ [0, 2, 3, 4, 5, 7] := by decide
            exact fun i hi => hwoctets.header i (hsub i hi)
          · rw [hn]
            exact request_of_write hwoctets hwl hpl

theorem wellFormed_iff (v : ManagedVariable) (behind : List UInt8) (s : ManagementIfc) (r : Mem) :
    WellFormed v behind s r ↔ ∀ name enc, (entries v.info s.scriptOffset).head? = some name → Asked s.finalEnumNr name →
      writable r v.value.length → encoding (r 3) (r 6).toNat v.value = some enc → Fits v s.finalEnumNr r name enc :=
  ⟨fun h _ _ => fits_of_wellFormed h, wellFormed_of_fits behind⟩

/-- The requests for a variable: when the two of an entry are well formed, and when those of a
    script visit its entries. -/
theorem management_requests (v : ManagedVariable) (behind : List UInt8) (s : ManagementIfc) (r : Mem) :
    (WellFormed v behind s r ↔ ∀ name enc, (entries v.info s.scriptOffset).head? = some name → Asked s.finalEnumNr name →
      writable r v.value.length → encoding (r 3) (r 6).toNat v.value = some enc → Fits v s.finalEnumNr r name enc) ∧
    (Visits v behind s ↔ (v.info.head? = some slashChar → ∀ name ∈ entries v.info 0, Visited s.finalEnumNr name)) :=
  ⟨wellFormed_iff v behind s r, visits_iff behind s⟩

end ManagedVariable

/-- A variable with a value of one byte. -/
def shortNumber : ManagedVariable where
  sec := {
    content := .bs Vie.namedVarName (ascii "n") (.bs Vie.namedVarValue [5] (.bs Vie.managementInfo (ascii "Config\\N") .nil))
    ok := by decide +kernel
    ne := by simp
    size := by decide +kernel }
  info := ascii "Config\\N"
  stored := by decide +kernel
  short := by decide

/-- The answer: a number without a sign of four bytes that may be written. -/
def numberAnswer : Mem := store (fun _ => 0) 0 ([escChar, 14, 0x80, 0x82, 1, 0, 4, 8] ++ ascii "Config\\N")

def noRequest : ManagementIfc where
  scriptOffset := 0
  failed := false
  writeVarName := []
  finalEnumNr := 0
  varNameBuffer := fun _ => 0
  xdata := fun _ => 0
  rdata := fun _ => 0

/-- Three bytes behind the configured value are read. -/
theorem short_number_read_behind : ¬ ManagedVariable.WellFormed shortNumber [] noRequest numberAnswer := by
  intro h
  have hfits := (ManagedVariable.wellFormed_iff _ _ _ _).mp h (ascii "Config\\N") [5, 0, 0, 0] rfl (by decide +kernel)
    (by decide +kernel) (by decide +kernel)
  have hnumber := (hfits.number (by decide +kernel)).1
  revert hnumber
  decide +kernel

end Divas.Cfg
