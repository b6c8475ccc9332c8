/-
  Divas.Um.ChainedInd — how the master entity finds out that more indications follow (um_idi.c).

  A MAN_INFO_IND whose data starts with the ESC variable `ind_count` announces a chain: as many
  indications follow. `check_chained_indication` reads the number out of the data of a plain
  indication; `check_chained_combi_indication` walks the parts of a combined one, takes the
  number from the first part that announces a chain and counts it down with each MAN_INFO_IND
  after it. It gives `check_chained_indication` the code of the part in place of its data, so
  that it never finds a number.

  Proved: both forms agree on a sequence of indications, and no byte outside the data is read,
  if and only if each MAN_INFO_IND is as long as the pattern that it follows, and the first one
  that announces a chain, if any, is followed by exactly as many as it says (`chained_alike`).
  An announcement alone is missed (`chain_missed`).
-/

import Divas.Um.CombiInd

namespace Divas.Um

/-! ## The functions -/

/-- `&&` over tests that may read outside of the data. -/
def allOf : List (Option Bool) → Option Bool
  | [] => some true
  | none :: _ => none
  | some false :: _ => some false
  | some true :: tests => allOf tests

/-- `"ind_count"`. -/
def indCountName : List UInt8 := [0x69, 0x6e, 0x64, 0x5f, 0x63, 0x6f, 0x75, 0x6e, 0x74]

/-- The condition of `check_chained_indication`, test by test. -/
def chainTests (src : List UInt8) : List (Option Bool) :=
  [src[0]?.map (· == 0x7f),          -- ESC element
    src[2]?.map (· == 0x80),         -- man info element
    src[3]?.map (· == 0x82),         -- MI_UINT
    src[4]?.map (· &&& 0x04 != 0),   -- is an ESC variable
    src[7]?.map (· == 9),            -- path len
    if 17 ≤ src.length then some ((src.drop 8).take 9 == indCountName) else none,
    src[6]?.map (· == 1)]            -- length of variable

/-- `check_chained_indication`; `none` if it reads outside of `src`. -/
def checkChainedIndication (src : List UInt8) : Option Nat := do
  if ← allOf (chainTests src) then
    let n ← src[17]?
    some n.toNat
  else some 0

/-- The loop of `check_chained_combi_indication`; `none` if it reads outside of `cbuffer`, or where the fuel ends. -/
def chainedLoop (cbuffer : List UInt8) : Nat → Nat → Nat → Nat → Option Nat
  | 0, _, _, _ => none
  | fuel + 1, cbufferPos, cbufferLength, indCount =>
    if cbufferLength > 3 then do
      let ind ← cbuffer[cbufferPos]?
      if ind ≠ 0 then
        let low ← cbuffer[cbufferPos + 1]?
        let high ← cbuffer[cbufferPos + 2]?
        let n := thisIndLength low high
        if n + 4 > cbufferLength then some 0
        else
          let indCount ←
            if ind = manInfoInd then
              if indCount = 0 then checkChainedIndication (cbuffer.drop cbufferPos) else some (indCount - 1)
            else some indCount
          chainedLoop cbuffer fuel ((cbufferPos + (n + 4)) % 65536) ((cbufferLength - (n + 4)) % 65536) indCount
      else some indCount
    else some indCount

/-- `check_chained_combi_indication`. -/
def checkChainedCombiIndication (cbuffer : List UInt8) (cbufferLength : Nat) : Option Nat :=
  chainedLoop cbuffer (cbufferLength + 1) 0 cbufferLength 0

/-! ## What is announced -/

/-- The data announces that `n` indications follow. -/
structure Announces (data : List UInt8) (n : Nat) : Prop where
  esc : data[0]? = some 0x7f
  info : data[2]? = some 0x80
  uint : data[3]? = some 0x82
  variable_ : ∃ b, data[4]? = some b ∧ b &&& 0x04 ≠ 0
  pathLength : data[7]? = some 9
  name : (data.drop 8).take 9 = indCountName
  length : data[6]? = some 1
  count : ∃ b, data[17]? = some b ∧ b.toNat = n
  pos : 0 < n

/-- The data is as long as what it has of the pattern asks for. -/
def Covered (data : List UInt8) : Prop :=
  0 < data.length ∧ (data[0]? = some 0x7f →
    2 < data.length ∧ (data[2]? = some 0x80 →
      3 < data.length ∧ (data[3]? = some 0x82 →
        4 < data.length ∧ ((∃ b, data[4]? = some b ∧ b &&& 0x04 ≠ 0) →
          7 < data.length ∧ (data[7]? = some 9 →
            17 ≤ data.length ∧ ((data.drop 8).take 9 = indCountName →
              6 < data.length ∧ (data[6]? = some 1 → 17 < data.length)))))))

def infoParts (ps : List Part) : Nat := ps.countP fun p => p.ind = manInfoInd

/-- The indications still to come: the number that the first announcement gives, less the MAN_INFO_IND after it. -/
def stillToCome : List Part → Option Int
  | [] => some 0
  | p :: ps =>
    if p.ind = manInfoInd then do
      let n ← checkChainedIndication p.data
      if n = 0 then stillToCome ps else some ((n : Int) - infoParts ps)
    else stillToCome ps

/-- Both forms report the same, and neither reads outside of what was received. -/
structure Alike (ps : List Part) : Prop where
  combi : ∃ n : Nat, checkChainedCombiIndication (combined ps) (combined ps).length = some n ∧ stillToCome ps = some (n : Int)
  plain : ∀ p, p ∈ ps → p.ind = manInfoInd → checkChainedIndication p.data ≠ none

/-! ## The plain form -/

theorem allOf_eq_true {tests : List (Option Bool)} : allOf tests = some true ↔ ∀ t, t ∈ tests → t = some true := by
  induction tests with
  | nil => simp [allOf]
  | cons t tests ih =>
    cases t with
    | none => simp [allOf]
    | some b =>
      cases b with
      | false => simp [allOf]
      | true => simp [allOf, ih]

/-- The tests are made inside the data, and where all of them hold so does `P`. -/
def Passes (tests : List (Option Bool)) (P : Prop) : Prop := allOf tests ≠ none ∧ (allOf tests = some true → P)

theorem passes_nil {P : Prop} : Passes [] P ↔ P := by simp [Passes, allOf]

theorem passes_cons {P : Prop} (x : Option UInt8) (f : UInt8 → Bool) (tests : List (Option Bool)) :
    Passes (x.map f :: tests) P ↔ x ≠ none ∧ ((∃ b, x = some b ∧ f b = true) → Passes tests P) := by
  cases x with
  | none => simp [Passes, allOf]
  | some b => cases hb : f b <;> simp [Passes, allOf, hb]

theorem passes_if {P c : Prop} [Decidable c] (b : Bool) (tests : List (Option Bool)) :
    Passes ((if c then some b else none) :: tests) P ↔ c ∧ (b = true → Passes tests P) := by
  by_cases hc : c
  · cases b <;> simp [Passes, allOf, hc]
  · simp [Passes, allOf, hc]

theorem getElem?_ne_none {src : List UInt8} {k : Nat} : src[k]? ≠ none ↔ k < src.length := by
  rw [ne_eq, List.getElem?_eq_none_iff, not_le]

theorem checkChainedIndication_ne_none {src : List UInt8} :
    checkChainedIndication src ≠ none ↔ Passes (chainTests src) (17 < src.length) := by
  unfold checkChainedIndication Passes
  cases h : allOf (chainTests src) with
  | none => simp
  | some b =>
    cases b with
    | false => simp
    | true =>
      rw [← getElem?_ne_none]
      cases h17 : src[17]? with
      | none => simp
      | some v => simp

/-- The plain form reads inside the data exactly where the data covers the pattern. -/
theorem covered_iff {src : List UInt8} : Covered src ↔ checkChainedIndication src ≠ none := by
  rw [checkChainedIndication_ne_none]
  unfold chainTests
  simp only [passes_cons, passes_if, passes_nil, beq_iff_eq, bne_iff_ne, exists_eq_right, getElem?_ne_none]
  exact Iff.rfl

theorem map_eq_true {x : Option UInt8} {f : UInt8 → Bool} : x.map f = some true ↔ ∃ b, x = some b ∧ f b = true := by
  cases x with
  | none => simp
  | some b => simp

/-- What the plain form reports is what the data announces. -/
theorem announces_iff {src : List UInt8} {n : Nat} : Announces src n ↔ checkChainedIndication src = some n ∧ 0 < n := by
  have htests : allOf (chainTests src) = some true ↔ ∀ t, t ∈ chainTests src → t = some true := allOf_eq_true
  simp only [chainTests, List.mem_cons, List.not_mem_nil, or_false, forall_eq_or_imp, forall_eq, map_eq_true, beq_iff_eq,
    bne_iff_ne, exists_eq_right] at htests
  constructor
  · intro h
    obtain ⟨v, h17, hv⟩ := h.count
    have hlen : 17 < src.length := getElem?_ne_none.mp (by simp [h17])
    have hall := htests.mpr ⟨h.esc, h.info, h.uint, h.variable_, h.pathLength, by simp [h.name, Nat.le_of_lt hlen], h.length⟩
    refine ⟨?_, h.pos⟩
    simp [checkChainedIndication, chainTests, hall, h17, hv]
  · rintro ⟨h, hpos⟩
    unfold checkChainedIndication at h
    cases hall : allOf (chainTests src) with
    | none => simp [hall] at h
    | some b =>
      cases b with
      | false => simp [hall] at h; omega
      | true =>
        obtain ⟨h0, h2, h3, h4, h7, hname, h6⟩ := htests.mp hall
        cases h17 : src[17]? with
        | none => simp [hall, h17] at h
        | some v =>
          have hlen : 17 < src.length := getElem?_ne_none.mp (by simp [h17])
          have hv : v.toNat = n := by simpa [hall, h17] using h
          rw [if_pos (by omega)] at hname
          exact ⟨h0, h2, h3, h4, h7, by simpa using hname, h6, ⟨v, h17, hv⟩, hpos⟩

/-! ## The combined form -/

/-- The code of a part is no ESC element. -/
theorem checkChainedIndication_part (p : Part) (hp : p.ind = manInfoInd) (rest : List UInt8) :
    checkChainedIndication (p.bytes ++ rest) = some 0 := by
  have h0 : (p.bytes ++ rest)[0]? = some manInfoInd := by simp [Part.bytes, Part.header, hp]
  have htests : allOf (chainTests (p.bytes ++ rest)) = some false := by
    unfold chainTests
    rw [h0]
    rfl
  unfold checkChainedIndication
  rw [htests]
  rfl

/-- The walk over whole parts finds no announcement. -/
theorem chainedLoop_combined {cbuffer before : List UInt8} {ps : List Part} {fuel : Nat} (h : cbuffer = before ++ combined ps)
    (hlt : cbuffer.length < 65536) (hfuel : ps.length < fuel) :
    chainedLoop cbuffer fuel before.length (combined ps).length 0 = some 0 := by
  induction ps generalizing before fuel with
  | nil =>
    obtain ⟨fuel, rfl⟩ := Nat.exists_eq_add_of_lt hfuel
    simp [chainedLoop]
  | cons p ps ih =>
    obtain ⟨fuel, rfl⟩ := Nat.exists_eq_succ_of_ne_zero (show fuel ≠ 0 by omega)
    have hdrop : cbuffer.drop before.length = p.bytes ++ combined ps := by rw [h, combined_cons, List.drop_left]
    have hget : ∀ k, cbuffer[before.length + k]? = (p.bytes ++ combined ps)[k]? := by
      intro k
      rw [← hdrop, List.getElem?_drop]
    have h0 : cbuffer[before.length]? = some p.ind := hget 0
    have h1 : cbuffer[before.length + 1]? = some (UInt8.ofNat p.data.length) := hget 1
    have h2 : cbuffer[before.length + 2]? = some (UInt8.ofNat (p.data.length / 256)) := hget 2
    have hlen : (combined (p :: ps)).length = p.data.length + 4 + (combined ps).length := by simp
    have htotal : cbuffer.length = before.length + (combined (p :: ps)).length := by rw [h, List.length_append]
    have hnext : chainedLoop cbuffer fuel (before ++ p.bytes).length (combined ps).length 0 = some 0 :=
      ih (by rw [h, combined_cons, List.append_assoc]) (by simp only [List.length_cons] at hfuel; omega)
    rw [List.length_append, Part.bytes_length] at hnext
    have hpos : (before.length + (p.data.length + 4)) % 65536 = before.length + (p.data.length + 4) := by omega
    have hleft : ((combined (p :: ps)).length - (p.data.length + 4)) % 65536 = (combined ps).length := by omega
    unfold chainedLoop
    rw [if_pos (by omega)]
    simp only [h0, h1, h2, Option.bind_eq_bind, Option.bind_some, p.thisIndLength_header, ne_eq, p.ind_ne, not_false_eq_true,
      if_true, hpos, hleft]
    rw [if_neg (by omega)]
    by_cases hp : p.ind = manInfoInd
    · rw [if_pos hp, hdrop, checkChainedIndication_part p hp]
      exact hnext
    · rw [if_neg hp]
      exact hnext

theorem checkChainedCombiIndication_eq {ps : List Part} (h : (combined ps).length < 65536) :
    checkChainedCombiIndication (combined ps) (combined ps).length = some 0 := by
  have hle := combined_length_le ps
  have hloop : chainedLoop (combined ps) ((combined ps).length + 1) ([] : List UInt8).length (combined ps).length 0 = some 0 :=
    chainedLoop_combined rfl h (by omega)
  exact hloop

/-! ## Both forms -/

/-- The first MAN_INFO_IND that announces a chain is followed by as many MAN_INFO_IND as it says. -/
def ChainComplete (ps : List Part) : Prop :=
  ∀ before p after n, ps = before ++ p :: after → p.ind = manInfoInd → Announces p.data n →
    (∀ q m, q ∈ before → q.ind = manInfoInd → ¬ Announces q.data m) → infoParts after = n

theorem chainComplete_cons_skip {p : Part} {ps : List Part} (hp : p.ind = manInfoInd → ∀ m, ¬ Announces p.data m) :
    ChainComplete (p :: ps) ↔ ChainComplete ps := by
  constructor
  · intro h before q after n hps hq hn hbefore
    refine h (p :: before) q after n (by rw [hps]; rfl) hq hn ?_
    intro r m hr hri
    rcases List.mem_cons.mp hr with rfl | hr
    · exact hp hri m
    · exact hbefore r m hr hri
  · intro h before q after n hps hq hn hbefore
    cases before with
    | nil =>
      obtain ⟨rfl, -⟩ := List.cons.inj hps
      exact absurd hn (hp hq n)
    | cons r before =>
      obtain ⟨-, hps⟩ := List.cons.inj hps
      exact h before q after n hps hq hn fun s m hs => hbefore s m (List.mem_cons_of_mem _ hs)

theorem chainComplete_cons_info {p : Part} {ps : List Part} {n : Nat} (hp : p.ind = manInfoInd) (hn : Announces p.data n) :
    ChainComplete (p :: ps) ↔ infoParts ps = n := by
  constructor
  · intro h
    exact h [] p ps n rfl hp hn (by simp)
  · intro h before q after m hps hq hm hbefore
    cases before with
    | nil =>
      obtain ⟨rfl, rfl⟩ := List.cons.inj hps
      have hcheck := (announces_iff.mp hn).1
      rw [(announces_iff.mp hm).1] at hcheck
      rw [h, Option.some.inj hcheck]
    | cons r before =>
      obtain ⟨rfl, -⟩ := List.cons.inj hps
      exact absurd hn (hbefore p n (by simp) hp)

theorem stillToCome_eq_zero {ps : List Part} (h : ∀ p, p ∈ ps → p.ind = manInfoInd → Covered p.data) :
    stillToCome ps = some 0 ↔ ChainComplete ps := by
  induction ps with
  | nil => simp [stillToCome, ChainComplete]
  | cons p ps ih =>
    have hrest := ih fun q hq => h q (List.mem_cons_of_mem _ hq)
    unfold stillToCome
    by_cases hp : p.ind = manInfoInd
    · rw [if_pos hp]
      obtain ⟨n, hn⟩ := Option.ne_none_iff_exists'.mp (covered_iff.mp (h p (by simp) hp))
      rw [hn, Option.bind_eq_bind, Option.bind_some]
      by_cases h0 : n = 0
      · rw [if_pos h0, hrest]
        refine (chainComplete_cons_skip fun _ m hm => ?_).symm
        obtain ⟨hcheck, hpos⟩ := announces_iff.mp hm
        rw [hn] at hcheck
        have := Option.some.inj hcheck
        omega
      · rw [if_neg h0, chainComplete_cons_info hp (announces_iff.mpr ⟨hn, by omega⟩), Option.some_inj]
        omega
    · rw [if_neg hp, hrest]
      exact (chainComplete_cons_skip fun hpi => absurd hpi hp).symm

/-- The two forms agree on the parts of a combined indication, inside the data, if and only if every MAN_INFO_IND covers
the pattern and the first chain that is announced is complete. -/
theorem chained_alike {ps : List Part} (h : (combined ps).length < 65536) :
    Alike ps ↔ (∀ p, p ∈ ps → p.ind = manInfoInd → Covered p.data) ∧ ChainComplete ps := by
  have hcombi := checkChainedCombiIndication_eq h
  constructor
  · intro ha
    have hcov : ∀ p, p ∈ ps → p.ind = manInfoInd → Covered p.data := fun p hp hi => covered_iff.mpr (ha.plain p hp hi)
    obtain ⟨n, hn, hstill⟩ := ha.combi
    have h0 : 0 = n := Option.some.inj (hcombi.symm.trans hn)
    refine ⟨hcov, (stillToCome_eq_zero hcov).mp ?_⟩
    rw [hstill, ← h0]
    rfl
  · rintro ⟨hcov, hchain⟩
    exact ⟨⟨0, hcombi, (stillToCome_eq_zero hcov).mpr hchain⟩, fun p hp hi => covered_iff.mp (hcov p hp hi)⟩

/-- A MAN_INFO_IND that announces two indications. -/
def chainStart : Part where
  ind := manInfoInd
  data := [0x7f, 0x11, 0x80, 0x82, 0x04, 0x00, 0x01, 9] ++ indCountName ++ [2]
  trailer := 0
  ind_ne := by decide
  length_lt := by decide

/-- Two indications are still to come, and the combined form reports none. -/
theorem chain_missed :
    ¬ ∀ ps : List Part, (combined ps).length < 65536 → Alike ps := by
  intro h
  obtain ⟨n, hn, hstill⟩ := (h [chainStart] (by decide)).combi
  have h0 : checkChainedCombiIndication (combined [chainStart]) (combined [chainStart]).length = some 0 := by decide
  have h2 : stillToCome [chainStart] = some 2 := by decide
  rw [h0] at hn
  rw [h2, ← Option.some.inj hn] at hstill
  exact absurd (Option.some.inj hstill) (by decide)

/-- A MAN_INFO_IND that belongs to a chain. -/
def chainMember : Part := ⟨manInfoInd, [0x7f, 0x05, 0x81], 0, by decide, by decide⟩

/-- With both indications of the chain behind it nothing is left to report. -/
theorem chained_alike_complete : Alike [chainStart, chainMember, chainMember] := by
  refine (chained_alike (by decide)).mpr ⟨?_, ?_⟩
  · intro p hp _
    refine covered_iff.mpr ?_
    simp only [List.mem_cons, List.not_mem_nil, or_false, or_self] at hp
    rcases hp with rfl | rfl
    · decide
    · decide
  · exact (chainComplete_cons_info (n := 2) rfl (announces_iff.mpr (by decide))).mpr (by decide)

end Divas.Um
