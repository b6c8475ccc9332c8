/-
  Divas.Capi.NcciOverflow — what `get_ncci` does when no NCCI is free.

  The search for a channel with two NCCIs is there for the trace only. Its outer loop ends
  when `i` is above the channels or `j` above the NCCIs, and does not count `i` up
  (`overflowSearch`). Behind it the channel is taken for the NCCI.

  Proved: the search ends if and only if less than two NCCIs belong to channel 1
  (`overflowSearch_ends`); and in every state, for every PLCI and channel, `get_ncci` ends with
  an NCCI that no other connection uses, or leaves the tables, if and only if the channel is
  mapped, or a forced NCCI is no other connection's, or one is free (`get_ncci_usable`). A
  preserved NCCI of channel 1 is enough for a search without end (`get_ncci_hangs`).
-/

import Divas.Capi.NcciMapping

namespace Divas.Capi

open Divas.Lib.Run

/-! ## The search -/

/-- `while ((j < MAX_NCCI+1) && (a->ncci_ch[j] != i)) j++`, with `n` NCCIs left. -/
def searchFrom (ncciCh : Nat → Nat) (i : Nat) : Nat → Nat → Nat
  | 0, j => j
  | n + 1, j => if ncciCh j ≠ i then searchFrom ncciCh i n (j + 1) else j

namespace NcciSt

/-- A turn of the outer loop gives `k` and `j`. -/
def overflowTurn (s : NcciSt) (i : Nat) : Nat × Nat :=
  let j := searchFrom s.a.ncciCh i maxNcci 1
  if j < maxNcci + 1 then (j, searchFrom s.a.ncciCh i (maxNcci - j) (j + 1)) else (j, j)

/-- At most `turns` turns. -/
def overflowSearch (s : NcciSt) (i : Nat) : Nat → Option (Nat × Nat × Nat)
  | 0 => none
  | turns + 1 =>
    let (k, j) := s.overflowTurn i
    if i < maxNlChannel + 1 ∧ j < maxNcci + 1 then s.overflowSearch i turns else some (i, k, j)

end NcciSt

/-- The next NCCI of the channel and those behind it, or none. -/
theorem searchFrom_spec (ncciCh : Nat → Nat) (i : Nat) (n : Nat) : ∀ j,
    ((List.range' j n).countP (fun m => ncciCh m == i) = 0 ∧ searchFrom ncciCh i n j = j + n) ∨
      ∃ m, searchFrom ncciCh i n j = j + m ∧ m < n ∧
        (List.range' j n).countP (fun m => ncciCh m == i)
          = (List.range' (j + m + 1) (n - m - 1)).countP (fun m => ncciCh m == i) + 1 := by
  induction n with
  | zero => exact fun j => Or.inl ⟨rfl, rfl⟩
  | succ n ih =>
    intro j
    unfold searchFrom
    rw [List.range'_succ]
    by_cases h : ncciCh j = i
    · rw [if_neg (not_not.mpr h), List.countP_cons_of_pos (by simp [h])]
      refine Or.inr ⟨0, rfl, Nat.succ_pos n, ?_⟩
      simp
    · rw [if_pos h, List.countP_cons_of_neg (by simp [h])]
      rcases ih (j + 1) with ⟨hcount, hend⟩ | ⟨m, hend, hm, hcount⟩
      · refine Or.inl ⟨hcount, ?_⟩
        omega
      · refine Or.inr ⟨m + 1, ?_, Nat.succ_lt_succ hm, ?_⟩
        · omega
        · rw [hcount, show j + 1 + m + 1 = j + (m + 1) + 1 by omega, show n - m - 1 = n + 1 - (m + 1) - 1 by omega]

theorem overflowTurn_end (s : NcciSt) (i : Nat) :
    (s.overflowTurn i).2 < maxNcci + 1 ↔ 2 ≤ nccis.countP (fun n => s.a.ncciCh n == i) := by
  have hm : maxNcci = 127 := rfl
  have hrange : nccis = List.range' 1 maxNcci := by decide
  rw [hrange]
  unfold NcciSt.overflowTurn
  dsimp only
  rcases searchFrom_spec s.a.ncciCh i maxNcci 1 with ⟨hcount, hend⟩ | ⟨m, hend, hlt, hcount⟩
  · rw [hend, hcount, if_neg (by omega)]
    omega
  · rw [hend, if_pos (by omega), hcount]
    dsimp only
    rcases searchFrom_spec s.a.ncciCh i (maxNcci - (1 + m)) (1 + m + 1) with ⟨hcount2, hend2⟩ | ⟨m2, hend2, hlt2, hcount2⟩
    · rw [hend2, show maxNcci - m - 1 = maxNcci - (1 + m) by omega, hcount2]
      omega
    · rw [hend2, show maxNcci - m - 1 = maxNcci - (1 + m) by omega, hcount2]
      omega

/-- The outer loop: one turn, or no end. -/
theorem overflowSearch_ends (s : NcciSt) : (∃ turns result, s.overflowSearch 1 turns = some result) ↔
    s.overflowSearchEnds = true := by
  have hturn := overflowTurn_end s 1
  unfold NcciSt.overflowSearchEnds
  rw [decide_eq_true_iff, ← not_le, ← hturn]
  constructor
  · rintro ⟨turns, result, h⟩ hlt
    induction turns with
    | zero => cases h
    | succ turns ih =>
      unfold NcciSt.overflowSearch at h
      dsimp only at h
      rw [if_pos ⟨by decide, hlt⟩] at h
      exact ih h
  · intro hge
    refine ⟨1, (1, s.overflowTurn 1), ?_⟩
    unfold NcciSt.overflowSearch
    exact if_neg (fun h => hge h.2)

/-! ## get_ncci -/

/-- An NCCI is mapped to a channel, and it is not the one that the PLCI forces back. -/
def UsedByOther (s : NcciSt) (p forceNcci n : Nat) : Prop := s.a.ncciCh n ≠ 0 ∧ ¬ (n = forceNcci ∧ s.a.ncciPlci n = p)

/-- The call returns, with an NCCI that no other connection uses, or the tables as they were. -/
def Usable (s : NcciSt) (p ch forceNcci : Nat) : Prop :=
  (s.getNcci p ch forceNcci).2.hung = false ∧
    ((1 ≤ (s.getNcci p ch forceNcci).1 ∧ (s.getNcci p ch forceNcci).1 ≤ maxNcci ∧
        ¬ UsedByOther s p forceNcci (s.getNcci p ch forceNcci).1) ∨
      ((s.getNcci p ch forceNcci).2.a = s.a ∧ (s.getNcci p ch forceNcci).2.ncciRingList = s.ncciRingList))

def Available (s : NcciSt) (p ch forceNcci : Nat) : Prop :=
  s.a.chNcci ch ≠ 0 ∨
    if forceNcci = 0 then ∃ n, (n ≠ 0 ∧ n ≤ maxNcci) ∧ s.a.ncciCh n = 0
    else s.a.ncciCh forceNcci = 0 ∨ s.a.ncciPlci forceNcci = p

section GetNcci

variable {s : NcciSt} {p ch forceNcci : Nat}

/-- The channel is mapped to the NCCI. -/
theorem establish_changes {n : Nat} (t : NcciSt) (hch : s.a.chNcci ch = 0) (hn : n % 256 ≠ 0) : (t.establish n ch).a ≠ s.a := by
  intro h
  have hnow : (t.establish n ch).a.chNcci ch = n % 256 := by
    unfold NcciSt.establish
    exact Function.update_self ch (n % 256) t.a.chNcci
  rw [h, hch] at hnow
  exact hn hnow.symm

theorem unmapped (hch : ch ≠ 0) (hmap : s.a.chNcci ch = 0) : (ch == 0 || s.a.chNcci ch != 0) = false := by
  rw [Bool.or_eq_false_iff]
  exact ⟨beq_false_of_ne hch, by rw [hmap]; rfl⟩

theorem getNcci_force (hch : ch ≠ 0) (hmap : s.a.chNcci ch = 0) (hf : forceNcci ≠ 0) :
    s.getNcci p ch forceNcci = (forceNcci, s.establish forceNcci ch) := by
  unfold NcciSt.getNcci
  rw [unmapped hch hmap, if_neg Bool.false_ne_true, if_pos (bne_iff_ne.mpr hf)]

/-- An NCCI is free, and it is given to the channel. -/
theorem getNcci_free (hch : ch ≠ 0) (hmap : s.a.chNcci ch = 0) {n : Nat} (hn : n ≠ 0 ∧ n ≤ maxNcci) (hfree : s.a.ncciCh n = 0) :
    ∃ m, (m ≠ 0 ∧ m ≤ maxNcci) ∧ s.a.ncciCh m = 0 ∧ s.getNcci p ch 0 = (m, (s.assign p m).establish m ch) := by
  unfold NcciSt.getNcci
  by_cases hown : ch ≤ maxNcci ∧ s.a.ncciCh ch = 0
  · refine ⟨ch, ⟨hch, hown.1⟩, hown.2, ?_⟩
    simp [hch, hmap, hown.2, Nat.lt_succ_of_le hown.1]
  · obtain ⟨m, hm⟩ := freeNcci_isSome hn hfree
    obtain ⟨hle, hzero⟩ := freeNcci_some hm
    refine ⟨m, hle, hzero, ?_⟩
    have hno : (ch < maxNcci + 1 && s.a.ncciCh ch == 0) = false := by
      rw [Bool.and_eq_false_iff]
      simp only [decide_eq_false_iff_not, beq_eq_false_iff_ne]
      omega
    rw [unmapped hch hmap, hno, hm]
    rfl

/-- No NCCI is free: the search does not end, or the channel is taken for the NCCI. -/
theorem getNcci_full (hch : ch ≠ 0) (hmap : s.a.chNcci ch = 0) (hfull : ¬ ∃ n, (n ≠ 0 ∧ n ≤ maxNcci) ∧ s.a.ncciCh n = 0) :
    s.getNcci p ch 0 =
      if s.overflowSearchEnds then (ch, (s.countBug.assign p ch).establish ch ch) else (0, { s.countBug with hung := true }) := by
  have hnone : s.freeNcci = none := by
    cases hfree : s.freeNcci with
    | none => rfl
    | some m => exact absurd ⟨m, freeNcci_some hfree⟩ hfull
  have hno : (ch < maxNcci + 1 && s.a.ncciCh ch == 0) = false := by
    rw [Bool.and_eq_false_iff]
    simp only [decide_eq_false_iff_not, beq_eq_false_iff_ne]
    by_cases hlt : ch < maxNcci + 1
    · exact Or.inr (fun h => hfull ⟨ch, ⟨hch, Nat.le_of_lt_succ hlt⟩, h⟩)
    · exact Or.inl hlt
  unfold NcciSt.getNcci
  rw [unmapped hch hmap, hno, hnone]
  rfl

end GetNcci

/-- For every state, PLCI and channel: `get_ncci` returns a usable NCCI if and only if the channel is
    mapped, or an NCCI is free, or the forced one is not used by another connection. The search through
    a full table ends exactly where the model of the call says so. -/
theorem get_ncci_usable (s : NcciSt) (hs : s.hung = false) (plci : PlciId) (ch : UInt8) (hch : ch.toNat ≠ 0)
    (forceNcci : NcciId) :
    (Usable s plci.id ch.toNat forceNcci.ncci ↔ Available s plci.id ch.toNat forceNcci.ncci) ∧
      ((∃ turns result, s.overflowSearch 1 turns = some result) ↔ s.overflowSearchEnds = true) := by
  refine ⟨?_, overflowSearch_ends s⟩
  have hbyte : ch.toNat % 256 = ch.toNat := Nat.mod_eq_of_lt ch.toNat_lt
  unfold Usable Available
  by_cases hmap : s.a.chNcci ch.toNat = 0
  · rw [or_iff_right (not_not.mpr hmap)]
    by_cases hf : forceNcci.ncci = 0
    · rw [if_pos hf, hf]
      constructor
      · rintro ⟨hret, hgot⟩
        by_contra hfull
        rw [getNcci_full hch hmap hfull] at hret hgot
        by_cases hends : s.overflowSearchEnds = true
        · rw [if_pos hends] at hgot
          rcases hgot with ⟨-, hle, hother⟩ | ⟨hsame, -⟩
          · refine hother ⟨fun hz => hfull ⟨ch.toNat, ⟨hch, hle⟩, hz⟩, fun h => hch h.1⟩
          · exact establish_changes _ hmap (by rw [hbyte]; exact hch) hsame
        · rw [if_neg hends] at hret
          cases hret
      · rintro ⟨n, hn, hfree⟩
        obtain ⟨m, hm, hzero, hget⟩ := getNcci_free (p := plci.id) hch hmap hn hfree
        rw [hget]
        refine ⟨?_, Or.inl ⟨Nat.pos_of_ne_zero hm.1, hm.2, fun h => h.1 hzero⟩⟩
        show (s.assign plci.id m).hung = false
        rw [NcciSt.assign, ringInsert_eq]
        exact hs
    · rw [if_neg hf, getNcci_force hch hmap hf]
      have hforced : forceNcci.ncci % 256 ≠ 0 := by
        have hle := forceNcci.le
        have hm : maxNcci = 127 := rfl
        omega
      constructor
      · rintro ⟨-, ⟨-, -, hother⟩ | ⟨hsame, -⟩⟩
        · by_contra h
          rw [not_or] at h
          exact hother ⟨h.1, fun ho => h.2 ho.2⟩
        · exact absurd hsame (establish_changes _ hmap hforced)
      · intro h
        refine ⟨hs, Or.inl ⟨Nat.pos_of_ne_zero hf, forceNcci.le, ?_⟩⟩
        rintro ⟨hused, hother⟩
        rcases h with hz | hp
        · exact hused hz
        · exact hother ⟨rfl, hp⟩
  · refine iff_of_true ⟨?_, Or.inr ⟨?_, ?_⟩⟩ (Or.inl hmap)
    all_goals
      unfold NcciSt.getNcci
      simp [hmap, NcciSt.countBug, hs]

/-- PLCI 1 has NCCI 1 on channel 1, and PLCI 2 NCCI 2 on channel 2. -/
def twoMapped : NcciSt := run NcciSt.step emptyNcci [.get plci1 1 noNcci, .get plci2 2 noNcci]

/-- A new channel gets the next NCCI, and not the one of the other PLCI. -/
theorem get_ncci_usable_two : Usable twoMapped 1 200 0 ∧ ¬ Usable twoMapped 2 200 1 := by
  have hfree : Usable twoMapped 1 200 0 :=
    (get_ncci_usable twoMapped rfl plci1 200 (by decide) noNcci).1.mpr (Or.inr ⟨3, by decide, rfl⟩)
  refine ⟨hfree, fun h => ?_⟩
  rcases (get_ncci_usable twoMapped rfl plci2 200 (by decide) ncci1).1.mp h with hmapped | hforced
  · exact hmapped rfl
  · have hown : twoMapped.a.ncciCh 1 = 0 ∨ twoMapped.a.ncciPlci 1 = 2 := hforced
    exact absurd hown (by decide)

/-- The NCCI of channel 1 is preserved, and the channels from 1 on are mapped. -/
def preservedFirst (k : Nat) : List NcciEv := [.get plci1 1 noNcci, .remove plci1 ncci1 true] ++ mapFirst k

theorem preservedFirst_run {k : Nat} (hk : k + 1 ≤ maxNcci) :
    (∀ n, (run NcciSt.step emptyNcci (preservedFirst k)).a.ncciCh n = if n = 1 then 1 else if n ≤ k + 1 then n - 1 else 0) ∧
      (∀ c, (run NcciSt.step emptyNcci (preservedFirst k)).a.chNcci c = if c ≠ 0 ∧ c ≤ k then c + 1 else 0) ∧
      (run NcciSt.step emptyNcci (preservedFirst k)).hung = false := by
  induction k with
  | zero =>
    refine ⟨?_, ?_, rfl⟩
    · intro n
      show Function.update (fun _ => 0) 1 1 n = _
      by_cases h : n = 1
      · rw [h, Function.update_self, if_pos rfl]
      · rw [Function.update_of_ne h, if_neg h]
        split <;> omega
    · intro c
      show Function.update (Function.update (fun _ => 0) 1 1) 1 0 c = _
      rw [if_neg (by omega)]
      by_cases h : c = 1
      · rw [h, Function.update_self]
      · rw [Function.update_of_ne h, Function.update_of_ne h]
  | succ k ih =>
    have hm : maxNcci = 127 := rfl
    obtain ⟨h1, h2, h3⟩ := ih (by omega)
    have hev : preservedFirst (k + 1) = preservedFirst k ++ [.get plci1 (UInt8.ofNat (k + 1)) noNcci] := by
      simp [preservedFirst, mapFirst, List.range_succ]
    rw [hev, run_append]
    generalize run NcciSt.step emptyNcci (preservedFirst k) = s at h1 h2 h3
    have hch : (UInt8.ofNat (k + 1)).toNat = k + 1 := by
      rw [UInt8.toNat_ofNat']
      omega
    -- the NCCI of the channel's own number is the preserved one, or the one of the channel before
    have hfree : s.freeNcci = some (k + 2) := by
      rw [NcciSt.freeNcci, show nccis = List.range' 1 maxNcci by decide, List.find?_range'_eq_some]
      refine ⟨?_, ?_, ?_⟩
      · rw [h1, if_neg (by omega), if_neg (by omega)]
        rfl
      · rw [List.mem_range'_1]
        omega
      · intro j hj hlt
        rw [h1]
        split
        · rfl
        · rw [if_pos (by omega)]
          simp
          omega
    have hstep : s.step (.get plci1 (UInt8.ofNat (k + 1)) noNcci) = (s.assign 1 (k + 2)).establish (k + 2) (k + 1) := by
      unfold NcciSt.step
      rw [h3]
      show (s.getNcci 1 (UInt8.ofNat (k + 1)).toNat 0).2 = _
      rw [hch]
      have hmapped : (k + 1 == 0 || s.a.chNcci (k + 1) != 0) = false := by simp [h2]
      have hown : (k + 1 < maxNcci + 1 && s.a.ncciCh (k + 1) == 0) = false := by
        rw [h1]
        split
        · simp
        · rw [if_pos (Nat.le_refl _)]
          simp
          omega
      unfold NcciSt.getNcci
      rw [hmapped, hown, hfree]
      rfl
    have hmod : (k + 2) % 256 = k + 2 := Nat.mod_eq_of_lt (by omega)
    rw [run_cons, run_nil, hstep, NcciSt.assign, ringInsert_eq]
    refine ⟨?_, ?_, h3⟩
    · intro n
      show Function.update s.a.ncciCh (k + 2) (k + 1) n = _
      by_cases e : n = k + 2
      · rw [e, Function.update_self, if_neg (by omega), if_pos (Nat.le_refl _)]
        rfl
      · rw [Function.update_of_ne e, h1]
        split
        · rfl
        · split <;> split <;> omega
    · intro c
      show Function.update s.a.chNcci (k + 1) ((k + 2) % 256) c = _
      rw [hmod]
      by_cases e : c = k + 1
      · rw [e, Function.update_self, if_pos ⟨by omega, Nat.le_refl _⟩]
      · rw [Function.update_of_ne e, h2]
        split <;> split <;> omega

/-- Channel 1 has two NCCIs and all are taken: for the next channel `get_ncci` does not return. -/
theorem get_ncci_hangs :
    ¬ ∀ (s : NcciSt), s.Init → ∀ es, (run NcciSt.step s es).hung = false → ∀ (plci : PlciId) (ch : UInt8), ch.toNat ≠ 0 →
      ∀ forceNcci : NcciId, Usable (run NcciSt.step s es) plci.id ch.toNat forceNcci.ncci := by
  intro h
  obtain ⟨h1, h2, h3⟩ := preservedFirst_run (k := 126) (by decide)
  have huse := h emptyNcci emptyNcci_init (preservedFirst 126) h3 plci1 200 (by decide) noNcci
  generalize run NcciSt.step emptyNcci (preservedFirst 126) = s at h1 h2 h3 huse
  have hfull : ¬ ∃ n, (n ≠ 0 ∧ n ≤ maxNcci) ∧ s.a.ncciCh n = 0 := by
    rintro ⟨n, hn, hz⟩
    have hm : maxNcci = 127 := rfl
    rw [h1] at hz
    split at hz
    · cases hz
    · rw [if_pos (by omega)] at hz
      omega
  have hmap : s.a.chNcci (200 : UInt8).toNat = 0 := by
    rw [h2]
    rfl
  have hends : s.overflowSearchEnds = false := by
    have htwo : 2 ≤ nccis.countP (fun n => s.a.ncciCh n == 1) := by
      have hsub : List.Sublist [1, 2] nccis := by decide
      refine Nat.le_trans ?_ hsub.countP_le
      simp [h1]
    unfold NcciSt.overflowSearchEnds
    exact decide_eq_false (Nat.not_lt.mpr htwo)
  have hret := huse.1
  rw [show noNcci.ncci = 0 from rfl, getNcci_full (by decide) hmap hfull, hends] at hret
  cases hret

end Divas.Capi
