/-
  Divas.Capi.SavedParms — saved parameters of any format (message.c).

  `api_save_msg` copies the parameters of a message one behind the other into the array of the
  saved message, `api_load_msg` gives pointers into this array, `api_compare_msg` compares a saved
  message with parameters. Of a string behind the escape the last byte of its length is copied
  with it.

  Proved (`saved_parameters`), for every message that `api_parse` accepts and whose fields have at
  most 256 bytes: what is saved compares equal to the parameters, loading it yields parameters of
  the same lengths and values, which can be parsed as before, also behind `api_swap_msg` from the
  other saved message; two calls of `api_swap_msg` cancel; and for every saved message
  `api_compare_msg` returns 0 if and only if all lengths and values are equal.

  The formats are literals of the callers, of at most ten fields.
-/

import Divas.Capi.ApiSave
import Divas.Capi.ParseBounds

namespace Divas.Capi

open Divas.Lib.Bytes

/-! ## The functions -/

/-- `n` of `api_save_msg`. -/
def saveSize (length : Nat) : ParseFmt → Nat
  | .b => 1
  | .w => 2
  | .d => 4
  | .s => (length + 1) % 65536
  | .r => 0

/-- `api_save_msg` from parameter `i` on, with `p` bytes in the array. -/
def saveFrom (params : Nat → Parm) : Nat → Nat → List ParseFmt → ApiSave → ApiSave
  | i, _, [], out => { out with parms := Function.update out.parms i (none, 0) }
  | i, p, f :: fs, out =>
    saveFrom params (i + 1) (p + saveSize (params i).length f) fs
      { out with
        parms := Function.update out.parms i (some (out.addr + p), (params i).length)
        info := store out.info p (load (params i).info 0 (saveSize (params i).length f)) }

/-- `api_save_msg`. -/
def apiSaveFormat (params : Nat → Parm) (format : List ParseFmt) (out : ApiSave) : ApiSave := saveFrom params 0 0 format out

/-- `parms[i]` of a saved message. -/
def savedParm (s : ApiSave) (i : Nat) : Parm :=
  match (s.parms i).1 with
  | some a => ⟨from_ s.info (a - s.addr).toNat, (s.parms i).2⟩
  | none => ⟨fun _ => 0, (s.parms i).2⟩

/-- `api_load_msg` from entry `i` on, up to the entry without `info`; `n` entries are left. -/
def loadFrom (s : ApiSave) : Nat → Nat → List Parm
  | 0, _ => []
  | n + 1, i => if (s.parms i).1.isNone then [] else savedParm s i :: loadFrom s n (i + 1)

/-- `api_load_msg`. -/
def apiLoadFormat (s : ApiSave) : List Parm := loadFrom s (maxMsgParms + 1) 0

/-- The bytes that `api_compare_msg` compares. -/
def compared (p : Parm) : ParseFmt → List UInt8
  | .b => load p.info 0 1
  | .w => load p.info 0 2
  | .d => load p.info 0 4
  | .s => load p.info 1 p.length
  | .r => []

/-- `api_compare_msg` from parameter `i` on. -/
def compareFrom (s : ApiSave) (cmp : Nat → Parm) : Nat → List ParseFmt → UInt8
  | _, [] => 0
  | i, f :: fs =>
    if (s.parms i).2 ≠ (cmp i).length then 1
    else if compared (savedParm s i) f ≠ compared ⟨(cmp i).info, (s.parms i).2⟩ f then 1
    else compareFrom s cmp (i + 1) fs

def apiCompareMsg (s : ApiSave) (format : List ParseFmt) (cmp : Nat → Parm) : UInt8 := compareFrom s cmp 0 format

/-! ## Parameters -/

/-- The same length and value. -/
def Equal (f : ParseFmt) (p q : Parm) : Prop := p.length = q.length ∧ compared p f = compared q f

/-- A string can be parsed like the other one: the parse of its contents has the same result, if it
    depends on the contents only. -/
def Reparses (p q : Parm) : Prop :=
  ∀ format, (∀ i ∈ apiParseTrace (from_ q.info 1) q.length 0 format, i < q.length) →
    apiParse (from_ p.info 1) p.length format = apiParse (from_ q.info 1) q.length format

/-- The parameters of the list are `params`. -/
def Yields (format : List ParseFmt) (params : Nat → Parm) (loaded : List Parm) : Prop :=
  loaded.length = format.length ∧
    ∀ i f, format[i]? = some f → ∃ p, loaded[i]? = some p ∧ Equal f p (params i) ∧ (f = .s → Reparses p (params i))

/-- The parameters as `api_parse` leaves them; it does not set the length of a number. -/
def parmsOf (msg : Mem) (stale : Nat → Nat) (parsed : List ApiParse) (i : Nat) : Parm :=
  match parsed[i]? with
  | some e => ⟨from_ msg e.info, e.length.getD (stale i)⟩
  | none => ⟨fun _ => 0, stale i⟩

/-- The bytes of the fields from `p` on. -/
def encodedFrom (msg : Mem) (length : Nat) : Nat → List ParseFmt → Nat
  | _, [] => 0
  | p, f :: fs => fieldSize msg length p f + encodedFrom msg length (p + fieldSize msg length p f) fs

theorem compareFrom_eq_zero (s : ApiSave) (cmp : Nat → Parm) (format : List ParseFmt) : ∀ i, compareFrom s cmp i format = 0 ↔
    ∀ k f, format[k]? = some f → Equal f (savedParm s (i + k)) (cmp (i + k)) := by
  have hlength : ∀ i, (savedParm s i).length = (s.parms i).2 := by
    intro i
    unfold savedParm
    split
    · rfl
    · rfl
  induction format with
  | nil =>
    intro i
    simp [compareFrom]
  | cons f fs ih =>
    intro i
    have hhead : Equal f (savedParm s i) (cmp i) ↔
        (s.parms i).2 = (cmp i).length ∧ compared (savedParm s i) f = compared ⟨(cmp i).info, (s.parms i).2⟩ f := by
      unfold Equal
      rw [hlength]
      apply and_congr_right
      intro h
      rw [h]
    have hcons : (∀ k g, (f :: fs)[k]? = some g → Equal g (savedParm s (i + k)) (cmp (i + k))) ↔
        Equal f (savedParm s i) (cmp i) ∧ ∀ k g, fs[k]? = some g → Equal g (savedParm s (i + 1 + k)) (cmp (i + 1 + k)) := by
      constructor
      · intro h
        refine ⟨h 0 f rfl, ?_⟩
        intro k g hg
        rw [Nat.add_assoc, Nat.add_comm 1 k]
        exact h (k + 1) g hg
      · intro h k g hg
        cases k with
        | zero =>
          cases hg
          exact h.1
        | succ k =>
          have := h.2 k g hg
          rw [Nat.add_assoc, Nat.add_comm 1 k] at this
          exact this
    rw [hcons, hhead, ← ih, compareFrom]
    by_cases h1 : (s.parms i).2 = (cmp i).length
    · rw [if_neg (not_not.mpr h1)]
      by_cases h2 : compared (savedParm s i) f = compared ⟨(cmp i).info, (s.parms i).2⟩ f
      · rw [if_neg (not_not.mpr h2)]
        exact ⟨fun h => ⟨⟨h1, h2⟩, h⟩, fun h => h.2⟩
      · rw [if_pos h2]
        exact ⟨fun h => absurd h (by decide), fun h => absurd h.1.2 h2⟩
    · rw [if_pos h1]
      exact ⟨fun h => absurd h (by decide), fun h => absurd h.1.1 h1⟩

/-! ## Parsing a copy -/

section Reparse

variable {m m' : Mem} {length : Nat}

theorem word_congr {k : Nat} (h0 : m k = m' k) (h1 : m (k + 1) = m' (k + 1)) : word m k = word m' k := by
  unfold word
  congr 1
  apply load_congr
  intro i hi
  rcases Nat.lt_succ_iff_lt_or_eq.mp hi with hi | rfl
  · rw [Nat.lt_one_iff.mp hi]
    exact h0
  · exact h1

theorem apiParseOne_congr {p : Nat} {f : ParseFmt} (hagree : ∀ i, i < length → m i = m' i)
    (hreads : ∀ i ∈ apiParseReads m length p f, i < length) : apiParseOne m length p f = apiParseOne m' length p f := by
  cases f with
  | s =>
    unfold apiParseReads at hreads
    unfold apiParseOne
    dsimp only at hreads ⊢
    have hp : m p = m' p := by
      apply hagree
      apply hreads
      split
      · split
        · exact List.mem_cons_self
        · exact List.mem_cons_self
      · exact List.mem_cons_self
    rw [← hp]
    by_cases hff : m p = 0xff
    · rw [if_pos hff] at hreads ⊢
      rw [if_pos hff]
      by_cases hcut : length < p + 2
      · rw [if_pos hcut, if_pos hcut]
      · rw [if_neg hcut] at hreads
        have hword : word m (p + 1) = word m' (p + 1) :=
          word_congr (hagree _ (hreads _ (by simp))) (hagree _ (hreads _ (by simp)))
        rw [if_neg hcut, if_neg hcut, hword]
    · rw [if_neg hff, if_neg hff]
  | b => rfl
  | w => rfl
  | d => rfl
  | r => rfl

/-- A parse that depends on the first `length` bytes only. -/
theorem apiParseFrom_congr {format : List ParseFmt} (hagree : ∀ i, i < length → m i = m' i) : ∀ {p : Nat},
    (∀ i ∈ apiParseTrace m length p format, i < length) → apiParseFrom m length p format = apiParseFrom m' length p format := by
  induction format with
  | nil =>
    intro p _
    rfl
  | cons f fs ih =>
    intro p hreads
    unfold apiParseTrace at hreads
    simp only [List.mem_append, or_imp, forall_and] at hreads
    have hone := apiParseOne_congr hagree hreads.1
    unfold apiParseFrom
    rw [← hone]
    cases h : apiParseOne m length p f with
    | none => rfl
    | some r =>
      rcases r with ⟨parm, q⟩
      dsimp only
      by_cases hq : length < q
      · rw [if_pos hq, if_pos hq]
      · have hrest := hreads.2
        rw [h] at hrest
        dsimp only at hrest
        rw [if_neg hq] at hrest
        rw [if_neg hq, if_neg hq, ih hrest]

theorem Equal.reparses {p q : Parm} (h : Equal .s p q) : Reparses p q := by
  intro format hreads
  rcases h with ⟨hlen, hbytes⟩
  have hagree : ∀ i, i < q.length → from_ q.info 1 i = from_ p.info 1 i := by
    intro i hi
    have hget : (load p.info 1 p.length)[i]? = (load q.info 1 q.length)[i]? := by
      have : load p.info 1 p.length = load q.info 1 q.length := hbytes
      rw [this]
    rw [hlen] at hget
    simp only [load, List.getElem?_map, List.getElem?_range hi, Option.map_some, Option.some.injEq] at hget
    exact hget.symm
  unfold apiParse
  rw [apiParseFrom_congr hagree hreads, hlen]

end Reparse

/-! ## Saved parameters -/

section Copy

variable {params : Nat → Parm} {s a b out : ApiSave} {i p n : Nat} {f : ParseFmt} {fs : List ParseFmt}

/-- What is left of a copy of `n` bytes. -/
theorem load_inside {m m' : Mem} {k k' c d : Nat} (h : load m k n = load m' k' n) (hn : c + d ≤ n) :
    load m (k + c) d = load m' (k' + c) d := by
  rw [show n = c + (d + (n - c - d)) by omega, load_add, load_add, load_add, load_add] at h
  have htail := List.append_inj_right h (by simp)
  exact List.append_inj_left htail (by simp)

/-- The bytes that are saved from parameter `i` on. -/
def savedBytes (params : Nat → Parm) : Nat → List ParseFmt → Nat
  | _, [] => 0
  | i, f :: fs => (if f = .s then (params i).length + 1 else saveSize (params i).length f) + savedBytes params (i + 1) fs

/-- The parameters from `i` on are saved from `p` on. -/
def Saved (params : Nat → Parm) : Nat → Nat → List ParseFmt → ApiSave → Prop
  | i, _, [], s => s.parms i = (none, 0)
  | i, p, f :: fs, s =>
    s.parms i = (some (s.addr + p), (params i).length) ∧
      load s.info p (saveSize (params i).length f) = load (params i).info 0 (saveSize (params i).length f) ∧
      p + saveSize (params i).length f ≤ maxMsgSize ∧ (f = .s → (params i).length + 1 ≤ maxMsgSize) ∧
      Saved params (i + 1) (p + saveSize (params i).length f) fs s

/-- What has been saved stays. -/
theorem saveFrom_frame (params : Nat → Parm) (fs : List ParseFmt) : ∀ (i p : Nat) (out : ApiSave),
    (saveFrom params i p fs out).addr = out.addr ∧ (∀ j, j < i → (saveFrom params i p fs out).parms j = out.parms j) ∧
      ∀ k, k < p → (saveFrom params i p fs out).info k = out.info k := by
  induction fs with
  | nil =>
    intro i p out
    refine ⟨rfl, ?_, fun _ _ => rfl⟩
    intro j hj
    exact Function.update_of_ne (Nat.ne_of_lt hj) _ _
  | cons f fs ih =>
    intro i p out
    rw [saveFrom]
    rcases ih (i + 1) (p + saveSize (params i).length f)
      { out with
        parms := Function.update out.parms i (some (out.addr + p), (params i).length)
        info := store out.info p (load (params i).info 0 (saveSize (params i).length f)) } with ⟨haddr, hparms, hinfo⟩
    refine ⟨haddr, ?_, ?_⟩
    · intro j hj
      rw [hparms j (by omega)]
      exact Function.update_of_ne (Nat.ne_of_lt hj) _ _
    · intro k hk
      rw [hinfo k (by omega)]
      exact store_outside _ (Or.inl hk)

theorem saveSize_le (h : (if f = .s then n + 1 else saveSize n f) ≤ maxMsgSize) :
    saveSize n f = (if f = .s then n + 1 else saveSize n f) := by
  have hm : maxMsgSize = 256 := rfl
  by_cases hf : f = .s
  · subst hf
    rw [if_pos rfl] at h ⊢
    exact Nat.mod_eq_of_lt (by omega)
  · rw [if_neg hf]

theorem saved_saveFrom (fs : List ParseFmt) : ∀ (i p : Nat) (out : ApiSave), p + savedBytes params i fs ≤ maxMsgSize →
    Saved params i p fs (saveFrom params i p fs out) := by
  induction fs with
  | nil =>
    intro i p out _
    show Function.update out.parms i (none, 0) i = (none, 0)
    simp
  | cons f fs ih =>
    intro i p out hp
    rw [savedBytes] at hp
    have hsize := saveSize_le (n := (params i).length) (f := f) (by omega)
    have hrest := ih (i + 1) (p + saveSize (params i).length f)
      { out with
        parms := Function.update out.parms i (some (out.addr + p), (params i).length)
        info := store out.info p (load (params i).info 0 (saveSize (params i).length f)) } (by omega)
    rcases saveFrom_frame params fs (i + 1) (p + saveSize (params i).length f)
      { out with
        parms := Function.update out.parms i (some (out.addr + p), (params i).length)
        info := store out.info p (load (params i).info 0 (saveSize (params i).length f)) } with ⟨haddr, hparms, hinfo⟩
    rw [saveFrom]
    refine ⟨?_, ?_, by omega, ?_, hrest⟩
    · rw [hparms i (Nat.lt_succ_self i), haddr]
      simp
    · refine Eq.trans (load_congr fun k hk => hinfo (p + k) (by omega)) ?_
      have hself := load_store_self out.info p (load (params i).info 0 (saveSize (params i).length f))
      rw [load_length] at hself
      exact hself
    · intro hf
      rw [if_pos hf] at hp
      omega

/-- The other saved message holds the parameters behind `api_swap_msg`. -/
theorem Saved.swapped (fs : List ParseFmt) : ∀ {i p : Nat}, i + fs.length ≤ maxMsgParms → Saved params i p fs b →
    Saved params i p fs (Divas.Capi.swapped a b) := by
  induction fs with
  | nil =>
    intro i p hi h
    have hparms : (Divas.Capi.swapped a b).parms i = ((b.parms i).1.map (· + (a.addr - b.addr)), (b.parms i).2) := if_pos
        (Nat.lt_succ_of_le hi)
    show (Divas.Capi.swapped a b).parms i = (none, 0)
    rw [hparms, show b.parms i = (none, 0) from h]
    rfl
  | cons f fs ih =>
    intro i p hi h
    rw [List.length_cons] at hi
    rcases h with ⟨hparm, hload, hfits, hlen, hrest⟩
    have hparms : (Divas.Capi.swapped a b).parms i
        = ((b.parms i).1.map (· + (a.addr - b.addr)), (b.parms i).2) := if_pos (by omega)
    refine ⟨?_, ?_, hfits, hlen, ih (by omega) hrest⟩
    · rw [hparms, hparm]
      show (some (b.addr + p + (a.addr - b.addr)), (params i).length) = (some (a.addr + p), (params i).length)
      rw [show b.addr + p + (a.addr - b.addr) = a.addr + p by omega]
    · rw [← hload]
      apply load_congr
      intro k hk
      exact if_pos (by omega)

theorem Saved.equal (h : Saved params i p (f :: fs) s) : Equal f (savedParm s i) (params i) := by
  rcases h with ⟨hparm, hload, -, hlen, -⟩
  have hsaved : savedParm s i = ⟨from_ s.info p, (params i).length⟩ := by
    unfold savedParm
    rw [hparm]
    dsimp only
    congr 2
    omega
  rw [hsaved]
  refine ⟨rfl, ?_⟩
  cases f with
  | b =>
    show load (from_ s.info p) 0 1 = load (params i).info 0 1
    rw [load_from]
    exact hload
  | w =>
    show load (from_ s.info p) 0 2 = load (params i).info 0 2
    rw [load_from]
    exact hload
  | d =>
    show load (from_ s.info p) 0 4 = load (params i).info 0 4
    rw [load_from]
    exact hload
  | s =>
    have hm : maxMsgSize = 256 := rfl
    have hsize : saveSize (params i).length .s = (params i).length + 1 := Nat.mod_eq_of_lt (by have := hlen rfl; omega)
    rw [hsize] at hload
    show load (from_ s.info p) 1 (params i).length = load (params i).info 1 (params i).length
    rw [load_from]
    have := load_inside (c := 1) (d := (params i).length) hload (by omega)
    rw [Nat.zero_add] at this
    exact this
  | r => rfl

/-- Loading yields what is held. -/
theorem Saved.yields (fs : List ParseFmt) : ∀ {i p n : Nat}, fs.length < n → Saved params i p fs s →
    Yields fs (fun k => params (i + k)) (loadFrom s n i) := by
  induction fs with
  | nil =>
    intro i p n hn h
    rcases Nat.exists_eq_add_of_lt hn with ⟨n, rfl⟩
    have hnone : (s.parms i).1.isNone = true := by
      rw [show s.parms i = (none, 0) from h]
      rfl
    rw [loadFrom, if_pos hnone]
    refine ⟨rfl, ?_⟩
    intro k f hf
    simp at hf
  | cons f fs ih =>
    intro i p n hn h
    rcases Nat.exists_eq_add_of_lt hn with ⟨n, rfl⟩
    have hsome : ¬ (s.parms i).1.isNone = true := by
      rw [h.1]
      exact Bool.false_ne_true
    rw [loadFrom, if_neg hsome]
    rcases ih (n := (f :: fs).length + n) (by rw [List.length_cons]; omega) h.2.2.2.2 with ⟨hlen, hall⟩
    refine ⟨?_, ?_⟩
    · rw [List.length_cons, hlen, List.length_cons]
    · intro k g hg
      cases k with
      | zero =>
        cases hg
        refine ⟨savedParm s i, rfl, h.equal, ?_⟩
        rintro rfl
        exact h.equal.reparses
      | succ k =>
        rcases hall k g hg with ⟨q, hq, heq⟩
        refine ⟨q, hq, ?_⟩
        dsimp only at heq
        rw [Nat.add_assoc, Nat.add_comm 1 k] at heq
        exact heq

/-- What is held compares equal. -/
theorem Saved.compare (fs : List ParseFmt) : ∀ {i p : Nat}, Saved params i p fs s → ∀ k f, fs[k]? = some f →
    Equal f (savedParm s (i + k)) (params (i + k)) := by
  induction fs with
  | nil =>
    intro i p _ k f hf
    simp at hf
  | cons g fs ih =>
    intro i p h k f hf
    cases k with
    | zero =>
      cases hf
      exact h.equal
    | succ k =>
      have := ih h.2.2.2.2 k f hf
      rw [Nat.add_assoc, Nat.add_comm 1 k] at this
      exact this

end Copy

/-! ## Messages -/

section Message

variable {msg : Mem} {length : Nat} {stale : Nat → Nat} {parsed : List ApiParse}

theorem savedBytes_le (fs : List ParseFmt) : ∀ {i p : Nat} {rest : List ApiParse}, .r ∉ fs → p ≤ length → length < 65536 →
    apiParseFrom msg length p fs = some rest → (∀ k, parsed[i + k]? = rest[k]?) → p + encodedFrom msg length p fs ≤ maxMsgSize →
    savedBytes (parmsOf msg stale parsed) i fs ≤ encodedFrom msg length p fs := by
  induction fs with
  | nil =>
    intro i p rest _ _ _ _ _ _
    exact Nat.le_refl 0
  | cons f fs ih =>
    intro i p rest hfmt hp hl hparse hrest hsize
    have hm : maxMsgSize = 256 := rfl
    have hr : .r ≠ f := fun h => hfmt (h ▸ List.mem_cons_self)
    have hfmt' : .r ∉ fs := fun h => hfmt (List.mem_cons_of_mem _ h)
    rcases (apiParseFrom_cons hp hl).mp hparse with ⟨-, hend, rest', hparse', rfl⟩
    rw [encodedFrom] at hsize ⊢
    have hnext : fieldEnd msg length p f = p + fieldSize msg length p f := Nat.mod_eq_of_lt (by omega)
    rw [hnext] at hend hparse'
    have hparm : parmsOf msg stale parsed i =
        ⟨from_ msg (fieldParm msg length p f).info, (fieldParm msg length p f).length.getD (stale i)⟩ := by
      unfold parmsOf
      rw [show parsed[i]? = some (fieldParm msg length p f) from hrest 0]
    have htail := ih (i := i + 1) hfmt' hend hl hparse' (fun k => by rw [Nat.add_assoc, Nat.add_comm 1 k]; exact hrest (k + 1))
        (by omega)
    have hhead : (if f = .s then (parmsOf msg stale parsed i).length + 1 else saveSize (parmsOf msg stale parsed i).length f) ≤
        fieldSize msg length p f := by
      rw [hparm]
      cases f with
      | b => exact Nat.le_refl 1
      | w => exact Nat.le_refl 2
      | d => exact Nat.le_refl 4
      | s =>
        rw [if_pos rfl]
        unfold fieldParm fieldSize
        dsimp only
        split
        · exact Nat.add_le_add_left (by decide) _
        · exact Nat.le_refl _
      | r => exact absurd rfl hr
    rw [savedBytes]
    exact Nat.add_le_add hhead htail

end Message

/-- With the format "s" these are the functions of the B protocol. -/
theorem apiSaveFormat_single (params : Nat → Parm) (out : ApiSave) (h : (params 0).length + 1 < 65536) :
    apiSaveFormat params [.s] out = apiSaveMsg (params 0) out := by
  have hinfo : store out.info 0 (load (params 0).info 0 ((params 0).length + 1)) =
      fun i => if i < (params 0).length + 1 then (params 0).info i else out.info i := by
    funext i
    by_cases hi : i < (params 0).length + 1
    · rw [if_pos hi]
      have hload : i < (load (params 0).info 0 ((params 0).length + 1)).length := by
        rw [load_length]
        exact hi
      have := store_inside out.info (k := 0) hload
      rw [Nat.zero_add] at this
      rw [this]
      simp [load, List.getD_eq_getElem?_getD, hi]
    · rw [if_neg hi]
      exact store_outside _ (Or.inr (by rw [load_length]; omega))
  have hsize : saveSize (params 0).length .s = (params 0).length + 1 := Nat.mod_eq_of_lt h
  unfold apiSaveFormat apiSaveMsg saveFrom saveFrom
  rw [hsize, hinfo]
  congr 2
  simp

/-- What is saved compares equal and is loaded as it was, also behind a swap; with the format "s" it
    is what the B protocol is saved with. -/
theorem saved_parameters :
    (∀ (msg : Mem) (length : UInt16) (format : List ParseFmt) (stale : Nat → Nat) (parsed : List ApiParse) (out : ApiSave),
      .r ∉ format → format.length ≤ maxMsgParms → apiParse msg length.toNat format = some parsed →
      encodedFrom msg length.toNat 0 format ≤ maxMsgSize →
      let params := parmsOf msg stale parsed
      let saved := apiSaveFormat params format out
      apiCompareMsg saved format params = 0 ∧ Yields format params (apiLoadFormat saved) ∧
        ∀ other, Yields format params (apiLoadFormat (apiSwapMsg saved other).2) ∧
          Yields format params (apiLoadFormat (apiSwapMsg other saved).1)) ∧
      (∀ a b, apiSwapMsg (apiSwapMsg a b).1 (apiSwapMsg a b).2 = (a, b)) ∧
      (∀ s format cmp, apiCompareMsg s format cmp = 0 ↔ ∀ i f, format[i]? = some f → Equal f (savedParm s i) (cmp i)) ∧
      ∀ params out, (params 0).length + 1 < 65536 → apiSaveFormat params [.s] out = apiSaveMsg (params 0) out := by
  refine ⟨?_, apiSwapMsg_twice, ?_, apiSaveFormat_single⟩
  · intro msg length format stale parsed out hfmt hcount hparse hsize params saved
    have hbytes : savedBytes params 0 format ≤ encodedFrom msg length.toNat 0 format :=
      savedBytes_le format hfmt (Nat.zero_le _) length.toNat_lt hparse (fun k => by rw [Nat.zero_add]) (by omega)
    have hholds : Saved params 0 0 format saved := saved_saveFrom format 0 0 out (by omega)
    have hload : ∀ {s}, Saved params 0 0 format s → Yields format params (apiLoadFormat s) := by
      intro s h
      have := h.yields format (n := maxMsgParms + 1) (Nat.lt_succ_of_le hcount)
      simp only [Nat.zero_add] at this
      exact this
    refine ⟨?_, hload hholds, ?_⟩
    · apply (compareFrom_eq_zero saved params format 0).mpr
      exact hholds.compare format
    · intro other
      have hswap : ∀ a, Saved params 0 0 format (Divas.Capi.swapped a saved) := fun a => hholds.swapped format (by omega)
      exact ⟨hload (hswap other), hload (hswap other)⟩
  · intro s format cmp
    have := compareFrom_eq_zero s cmp format 0
    simp only [Nat.zero_add] at this
    exact this

theorem saved_parameters_message :
    let msg := messageOf [5, 0x34, 0x12, 2, 1, 2, 0xff, 2, 0, 9, 8]
    let params := parmsOf msg (fun _ => 0) [⟨0, none⟩, ⟨1, none⟩, ⟨3, some 2⟩, ⟨8, some 2⟩]
    let saved := apiSaveFormat params [.b, .w, .s, .s] ⟨1000, fun _ => (none, 0), fun _ => 0⟩
    apiParse msg 11 [.b, .w, .s, .s] = some [⟨0, none⟩, ⟨1, none⟩, ⟨3, some 2⟩, ⟨8, some 2⟩] ∧
      apiCompareMsg saved [.b, .w, .s, .s] params = 0 ∧ Yields [.b, .w, .s, .s] params (apiLoadFormat saved) :=
  have hparse : apiParse (messageOf [5, 0x34, 0x12, 2, 1, 2, 0xff, 2, 0, 9, 8]) (11 : UInt16).toNat [.b, .w, .s, .s] =
      some [⟨0, none⟩, ⟨1, none⟩, ⟨3, some 2⟩, ⟨8, some 2⟩] := by decide
  have h := saved_parameters.1 (messageOf [5, 0x34, 0x12, 2, 1, 2, 0xff, 2, 0, 9, 8]) 11 [.b, .w, .s, .s] (fun _ => 0)
    [⟨0, none⟩, ⟨1, none⟩, ⟨3, some 2⟩, ⟨8, some 2⟩] ⟨1000, fun _ => (none, 0), fun _ => 0⟩ (by decide)
      (by decide) hparse (by decide)
  ⟨hparse, h.1, h.2.1⟩

end Divas.Capi
