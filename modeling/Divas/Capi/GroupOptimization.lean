/-
  Divas.Capi.GroupOptimization — which applications are offered an incoming call (message.c).

  Applications with the same masks and limits are a group; `group_optimization` lets only one
  application of a group keep its bit in `c_ind_mask`, the first with the smallest number of
  busy PLCIs. A PLCI is busy for the applications it is offering a call to, and else for the
  application that has it.

  Proved: the count of the busy PLCIs, which skips words of the mask that are 0, is the
  number of the other PLCIs that are busy for the application (`applBusyPlcis_eq`), and
  exactly which bits `group_optimization` leaves (`group_optimization_selects`).
-/

import Divas.Capi.Types
import Divas.Capi.Incoming
import Divas.Lib.BitTable
import Mathlib.Data.List.Nodup
import Mathlib.Tactic.ByContra

namespace Divas.Capi

open Divas.Lib.BitTable

/-! ## Tables -/

def groupoptOnlyOnSingleConn : Nat := 1
def groupoptSingleConnToMulti : Nat := 2

/-- The fields of a PLCI that count, its application by the index. -/
structure BusyPlci where
  state : State
  appl : Option Nat
  cIndMaskTable : Table

/-- `INC_CON_PENDING` or `INC_CON_ALERT`. -/
def BusyPlci.Offering (p : BusyPlci) : Prop := p.state = .incConPending ∨ p.state = .incConAlert

instance (p : BusyPlci) : Decidable p.Offering := inferInstanceAs (Decidable (_ ∨ _))

/-- The limits of an application. -/
structure Limits where
  maxNcci : Nat
  maxNcciData : Nat
  maxDataLength : Nat
  deriving DecidableEq

/-- The adapter and the applications; `max_plci` and `max_appl` are bytes. -/
structure Groups where
  maxAppl : UInt8
  maxPlci : UInt8
  plci : Nat → BusyPlci
  application : Nat → Limits
  cipMask : Nat → Nat
  infoMask : Nat → Nat
  /-- `group_optimization_enabled & GROUPOPT_ENABLE_MASK`, and `GROUPOPT_ALSO_ON_INDIVIDUALS`. -/
  enabled : Nat
  alsoOnIndividuals : Bool

namespace Groups

variable (g : Groups)

/-! ## Busy PLCIs -/

/-- The applications that have been counted so often, in a `word` each. -/
abbrev Counts := Nat → Nat

def count (c : Counts) (j : Nat) : Counts := Function.update c j ((c j + 1) % 65536)

/-- The inner loop over a word of the mask, from `j` on: `j` behind it, and the counts. -/
def countWord (t : Table) (maxAppl j : Nat) (c : Counts) : Nat × Counts :=
  let c := if test t j then count c j else c
  if j + 1 < maxAppl ∧ (j + 1) &&& 0x1f ≠ 0 then countWord t maxAppl (j + 1) c else (j + 1, c)
termination_by maxAppl - j

theorem lt_countWord (t : Table) (maxAppl j : Nat) (c : Counts) : j < (countWord t maxAppl j c).1 := by
  induction h : maxAppl - j generalizing j c with
  | zero =>
    rw [countWord]
    rw [if_neg (by omega)]
    exact Nat.lt_succ_self j
  | succ n ih =>
    rw [countWord]
    split
    · exact (Nat.lt_succ_self j).trans (ih (j + 1) _ (by omega))
    · exact Nat.lt_succ_self j

/-- The loop over the mask of a PLCI. -/
def countMask (t : Table) (maxAppl j : Nat) (c : Counts) : Counts :=
  if j < maxAppl then
    if t (j >>> 5) = 0#32 then countMask t maxAppl (j + 32) c
    else countMask t maxAppl (countWord t maxAppl j c).1 (countWord t maxAppl j c).2
  else c
termination_by maxAppl - j
decreasing_by
  · omega
  · have := lt_countWord t maxAppl j c
    omega

/-- A PLCI that is not the one of the call. -/
def countPlci (p : BusyPlci) (c : Counts) : Counts :=
  if p.Offering then countMask p.cIndMaskTable g.maxAppl.toNat 0 c
  else match p.appl with
  | some j => if p.state ≠ .idle then count c j else c
  | none => c

/-- `appl_busy_plcis` for the call of PLCI `k`. -/
def applBusyPlcis (k : Nat) : Counts :=
  (List.range g.maxPlci.toNat).foldl (fun c i => if i ≠ k then g.countPlci (g.plci i) c else c) fun _ => 0

/-! ## Groups -/

/-- The applications have the same masks and limits. -/
def Same (j app : Nat) : Prop :=
  g.cipMask j = g.cipMask app ∧ g.infoMask j = g.infoMask app ∧ (g.application j).maxNcci = (g.application app).maxNcci ∧
    (g.application j).maxNcciData = (g.application app).maxNcciData ∧
    (g.application j).maxDataLength = (g.application app).maxDataLength

instance (j app : Nat) : Decidable (g.Same j app) := inferInstanceAs (Decidable (_ ∧ _))

/-- The applications from `app` on, as the loops over `j` take them. -/
def from_ (app : Nat) : List Nat := List.range' app (g.maxAppl.toNat - app)

/-- `i`, `least_busy_app` and `least_busy_plcis`. -/
structure Scan where
  i : Nat
  app : Nat
  plcis : Nat

/-- The first loop over the group of `app`. -/
def scan (busy : Counts) (next : Table) (app : Nat) : Scan :=
  (g.from_ app).foldl
    (fun s j =>
      if test next j ∧ g.Same j app then
        if busy j < s.plcis then ⟨s.i + 1, j, busy j⟩ else { s with i := s.i + 1 }
      else s)
    ⟨0, app, busy app⟩

/-- The application `j` of the group of `app` loses its bit. -/
def Dropped (s : Scan) (app j : Nat) : Prop :=
  (1 < s.i ∨ g.alsoOnIndividuals = true) ∧
    (j ≠ s.app ∨ (g.application app).maxNcci ≤ s.plcis ∨ (s.plcis ≠ 0 ∧ g.enabled = groupoptSingleConnToMulti))

instance (s : Scan) (app j : Nat) : Decidable (g.Dropped s app j) := inferInstanceAs (Decidable (_ ∧ _))

/-- The second loop over the group of `app`: `next_appl_mask_table`, and the mask of the call. -/
def clearGroup (s : Scan) (app : Nat) (ts : Table × Table) : Table × Table :=
  (g.from_ app).foldl
    (fun ts j =>
      if test ts.1 j ∧ g.Same j app then (unset ts.1 j, if g.Dropped s app j then unset ts.2 j else ts.2) else ts)
    ts

/-- The single connection mode leaves the application alone. -/
def Excluded (app : Nat) : Prop := (g.application app).maxNcci ≠ 1 ∧ g.enabled = groupoptOnlyOnSingleConn

instance (app : Nat) : Decidable (g.Excluded app) := inferInstanceAs (Decidable (_ ∧ _))

/-- A turn of the loop over the applications. -/
def turn (busy : Counts) (ts : Table × Table) (app : Nat) : Table × Table :=
  if test ts.1 app ∧ ¬ g.Excluded app then g.clearGroup (g.scan busy ts.1 app) app ts else ts

/-- `group_optimization` for the call of PLCI `k`: its `c_ind_mask`. -/
def groupOptimization (k : Nat) : Table :=
  ((List.range g.maxAppl.toNat).foldl (g.turn (g.applBusyPlcis k)) ((g.plci k).cIndMaskTable, (g.plci k).cIndMaskTable)).2

/-! ## How often an application is counted -/

section Counting

variable {g} {t : Table} {n j : Nat} {c : Counts}

theorem count_apply (c : Counts) (j x : Nat) : count c j x = if x = j then (c x + 1) % 65536 else c x := by
  unfold count
  by_cases h : x = j
  · subst h
    rw [Function.update_self, if_pos rfl]
  · rw [Function.update_of_ne h, if_neg h]

/-- A turn of the inner loop. -/
theorem countOne_apply (t : Table) (c : Counts) (j x : Nat) :
    (if test t j then count c j else c) x = if x = j ∧ test t x = true then (c x + 1) % 65536 else c x := by
  by_cases ht : test t j = true
  · rw [if_pos ht, count_apply]
    by_cases h : x = j
    · subst h
      rw [if_pos rfl, if_pos ⟨rfl, ht⟩]
    · rw [if_neg h, if_neg fun hc => h hc.1]
  · rw [if_neg ht]
    by_cases h : x = j
    · subst h
      rw [if_neg fun hc => ht hc.2]
    · rw [if_neg fun hc => h hc.1]

/-- The inner loop counts the bits up to the end of the word or of the applications. -/
theorem countWord_spec (hj : j < n) :
    ((countWord t n j c).1 = n ∨ (countWord t n j c).1 % 32 = 0) ∧ (countWord t n j c).1 ≤ n ∧
    ∀ x, (countWord t n j c).2 x =
      if (j ≤ x ∧ x < (countWord t n j c).1) ∧ test t x = true then (c x + 1) % 65536 else c x := by
  induction h : n - j generalizing j c with
  | zero => omega
  | succ m ih =>
    rw [countWord]
    have hlow : (j + 1) &&& 0x1f = (j + 1) % 32 := low_eq (j + 1)
    split
    · rename_i hmore
      obtain ⟨hend, hle, hval⟩ := @ih (j + 1) (if test t j then count c j else c) hmore.1 (by omega)
      refine ⟨hend, hle, ?_⟩
      intro x
      have hlt := lt_countWord t n (j + 1) (if test t j then count c j else c)
      rw [hval x, countOne_apply]
      by_cases hx : x = j
      · subst hx
        rw [if_neg (by omega)]
        by_cases ht : test t x = true
        · rw [if_pos ⟨rfl, ht⟩, if_pos ⟨by omega, ht⟩]
        · rw [if_neg fun hc => ht hc.2, if_neg fun hc => ht hc.2]
      · rw [if_neg (c := x = j ∧ _) fun hc => hx hc.1]
        have hrange : (j + 1 ≤ x ∧ x < (countWord t n (j + 1) (if test t j then count c j else c)).1) ↔
            (j ≤ x ∧ x < (countWord t n (j + 1) (if test t j then count c j else c)).1) := by omega
        simp only [hrange]
    · rename_i hlast
      rw [hlow] at hlast
      refine ⟨by omega, by omega, ?_⟩
      intro x
      have hone : (j ≤ x ∧ x < j + 1) ↔ x = j := by omega
      show (if test t j then count c j else c) x = if (j ≤ x ∧ x < j + 1) ∧ test t x = true then _ else _
      rw [countOne_apply]
      simp only [hone]

/-- The loop over the mask counts each bit once. -/
theorem countMask_spec (hj : j % 32 = 0 ∨ n ≤ j) (x : Nat) :
    countMask t n j c x = if (j ≤ x ∧ x < n) ∧ test t x = true then (c x + 1) % 65536 else c x := by
  induction h : n - j using Nat.strongRecOn generalizing j c with
  | ind m ih =>
    rw [countMask]
    split
    · rename_i hlt
      split
      · rename_i hzero
        rw [@ih (n - (j + 32)) (by omega) (j + 32) c (by omega) rfl]
        -- no bit of the word that is skipped is set
        have hskip : x / 32 = j / 32 → test t x = false := by
          rw [word_eq] at hzero
          exact word_eq_zero.mp hzero x
        by_cases ht : test t x = true
        · have hword : x / 32 ≠ j / 32 := fun hc => by rw [hskip hc] at ht; exact Bool.false_ne_true ht
          have hrange : (j + 32 ≤ x ∧ x < n) ↔ (j ≤ x ∧ x < n) := by omega
          simp only [hrange]
        · rw [if_neg fun hc => ht hc.2, if_neg fun hc => ht hc.2]
      · obtain ⟨hend, hle, hval⟩ := countWord_spec (t := t) (c := c) hlt
        have hgt := lt_countWord t n j c
        rw [ih (n - (countWord t n j c).1) (by omega) (by omega) rfl, hval x]
        by_cases hx : x < (countWord t n j c).1
        · have hnot : ¬ (((countWord t n j c).1 ≤ x ∧ x < n) ∧ test t x = true) := by omega
          rw [if_neg hnot]
          have hrange : (j ≤ x ∧ x < (countWord t n j c).1) ↔ (j ≤ x ∧ x < n) := by omega
          simp only [hrange]
        · have hnot : ¬ ((j ≤ x ∧ x < (countWord t n j c).1) ∧ test t x = true) := by omega
          have hrange : ((countWord t n j c).1 ≤ x ∧ x < n) ↔ (j ≤ x ∧ x < n) := by omega
          rw [if_neg hnot]
          simp only [hrange]
    · rename_i hge
      rw [if_neg (by omega)]

variable (g)

/-- The PLCI is busy for the application. -/
def Busy (p : BusyPlci) (x : Nat) : Prop :=
  (p.Offering ∧ test p.cIndMaskTable x = true) ∨ (¬ p.Offering ∧ p.state ≠ .idle ∧ p.appl = some x)

instance (p : BusyPlci) (x : Nat) : Decidable (Busy p x) := inferInstanceAs (Decidable (_ ∨ _))

/-- How many PLCIs but `k` are busy for the application. -/
def busyPlcis (k x : Nat) : Nat := (List.range g.maxPlci.toNat).countP fun i => decide (i ≠ k ∧ Busy (g.plci i) x)

theorem countPlci_apply (p : BusyPlci) (c : Counts) {x : Nat} (hx : x < g.maxAppl.toNat) :
    g.countPlci p c x = if Busy p x then (c x + 1) % 65536 else c x := by
  unfold countPlci
  by_cases hp : p.Offering
  · have hbusy : Busy p x ↔ test p.cIndMaskTable x = true := by simp [Busy, hp]
    rw [if_pos hp, countMask_spec (.inl rfl)]
    simp only [Nat.zero_le, hx, and_self, true_and, hbusy]
  · have hbusy : Busy p x ↔ p.state ≠ .idle ∧ p.appl = some x := by simp [Busy, hp]
    rw [if_neg hp]
    simp only [hbusy]
    cases ha : p.appl with
    | none => simp
    | some j =>
      by_cases hs : p.state = .idle
      · simp [hs]
      · by_cases hj : x = j
        · subst hj
          simp [hs, count_apply]
        · simp [hs, count_apply, hj, Ne.symm hj]

theorem applBusyPlcis_eq (k : Nat) {x : Nat} (hx : x < g.maxAppl.toNat) : g.applBusyPlcis k x = g.busyPlcis k x := by
  have hrun : ∀ n, n ≤ g.maxPlci.toNat →
      (List.range n).foldl (fun c i => if i ≠ k then g.countPlci (g.plci i) c else c) (fun _ => 0) x =
        (List.range n).countP fun i => decide (i ≠ k ∧ Busy (g.plci i) x) := by
    intro n
    induction n with
    | zero => exact fun _ => rfl
    | succ n ih =>
      intro hn
      have hlt := g.maxPlci.toNat_lt
      have hle : (List.range n).countP (fun i => decide (i ≠ k ∧ Busy (g.plci i) x)) ≤ n := by
        have := List.countP_le_length (p := fun i => decide (i ≠ k ∧ Busy (g.plci i) x)) (l := List.range n)
        rwa [List.length_range] at this
      have ih := ih (by omega)
      rw [List.range_succ, List.foldl_append, List.countP_append]
      simp only [List.foldl_cons, List.foldl_nil, List.countP_cons, List.countP_nil, Nat.zero_add, decide_eq_true_eq]
      by_cases hk : n = k
      · rw [if_neg (not_not.mpr hk), ih, if_neg fun hc => hc.1 hk]
        rfl
      · rw [if_pos hk, g.countPlci_apply _ _ hx, ih]
        by_cases hb : Busy (g.plci n) x
        · rw [if_pos hb, if_pos ⟨hk, hb⟩, Nat.mod_eq_of_lt (by omega)]
        · rw [if_neg hb, if_neg fun hc => hb hc.2]
          rfl
  exact hrun _ (le_refl _)

end Counting

/-! ## The loops over a group -/

section Loops

variable {g}

theorem Same.symm {i j : Nat} (h : g.Same i j) : g.Same j i :=
  ⟨h.1.symm, h.2.1.symm, h.2.2.1.symm, h.2.2.2.1.symm, h.2.2.2.2.symm⟩

theorem Same.trans {i j k : Nat} (h : g.Same i j) (h' : g.Same j k) : g.Same i k :=
  ⟨h.1.trans h'.1, h.2.1.trans h'.2.1, h.2.2.1.trans h'.2.2.1, h.2.2.2.1.trans h'.2.2.2.1, h.2.2.2.2.trans h'.2.2.2.2⟩

theorem Same.excluded {i j : Nat} (h : g.Same i j) : g.Excluded i ↔ g.Excluded j := by
  unfold Excluded
  rw [h.2.2.1]

/-- What the first loop finds among the candidates of a list in order. -/
theorem scan_list (busy : Counts) (P : Nat → Prop) [DecidablePred P] (L : List Nat) (hL : L.Pairwise (· < ·)) (s : Scan)
    (hs : s.plcis = busy s.app) (hfirst : ∀ j ∈ L, s.app ≤ j) :
    let r := L.foldl
      (fun s j => if P j then if busy j < s.plcis then (⟨s.i + 1, j, busy j⟩ : Scan) else { s with i := s.i + 1 } else s) s
    r.i = s.i + L.countP (fun j => decide (P j)) ∧ r.plcis = busy r.app ∧ r.plcis ≤ s.plcis ∧
      (r.plcis = s.plcis → r.app = s.app) ∧ (r.app = s.app ∨ (r.app ∈ L ∧ P r.app)) ∧
      ∀ j ∈ L, P j → r.plcis ≤ busy j ∧ (busy j = r.plcis → r.app ≤ j) := by
  induction L generalizing s with
  | nil => exact ⟨rfl, hs, le_refl _, fun _ => rfl, .inl rfl, fun j hj => nomatch hj⟩
  | cons j L ih =>
    obtain ⟨hj, hL⟩ := List.pairwise_cons.mp hL
    have hrest : ∀ i ∈ L, s.app ≤ i := fun i hi => hfirst i (List.mem_cons_of_mem j hi)
    have hhere : s.app ≤ j := hfirst j List.mem_cons_self
    dsimp only [List.foldl_cons]
    by_cases hP : P j
    · rw [if_pos hP]
      by_cases hlt : busy j < s.plcis
      · rw [if_pos hlt]
        obtain ⟨hi, hb, hle, heq, hin, hmin⟩ := ih hL ⟨s.i + 1, j, busy j⟩ rfl fun i hi => Nat.le_of_lt (hj i hi)
        dsimp only at hi hle heq hin
        refine ⟨?_, hb, by omega, fun hc => absurd hlt (by omega), ?_, ?_⟩
        · rw [hi, List.countP_cons_of_pos (by simpa using hP)]
          omega
        · rcases hin with hin | ⟨hin, hPin⟩
          · exact .inr ⟨by rw [hin]; exact List.mem_cons_self, by rwa [hin]⟩
          · exact .inr ⟨List.mem_cons_of_mem j hin, hPin⟩
        · intro i hi hPi
          rcases List.mem_cons.mp hi with rfl | hi
          · exact ⟨hle, fun hc => Nat.le_of_eq (heq hc.symm)⟩
          · exact hmin i hi hPi
      · rw [if_neg hlt]
        obtain ⟨hi, hb, hle, heq, hin, hmin⟩ := ih hL { s with i := s.i + 1 } hs hrest
        dsimp only at hi hle heq hin
        refine ⟨?_, hb, hle, heq, ?_, ?_⟩
        · rw [hi, List.countP_cons_of_pos (by simpa using hP)]
          omega
        · exact hin.imp_right fun hc => ⟨List.mem_cons_of_mem j hc.1, hc.2⟩
        · intro i hi hPi
          rcases List.mem_cons.mp hi with rfl | hi
          · refine ⟨by omega, ?_⟩
            intro hc
            rw [heq (by omega)]
            exact hhere
          · exact hmin i hi hPi
    · rw [if_neg hP]
      obtain ⟨hi, hb, hle, heq, hin, hmin⟩ := ih hL s hs hrest
      refine ⟨?_, hb, hle, heq, ?_, ?_⟩
      · rw [hi, List.countP_cons_of_neg (by simpa using hP)]
      · exact hin.imp_right fun hc => ⟨List.mem_cons_of_mem j hc.1, hc.2⟩
      · intro i hi hPi
        rcases List.mem_cons.mp hi with rfl | hi
        · exact absurd hPi hP
        · exact hmin i hi hPi

/-- What the second loop clears. -/
theorem unset_list (S D : Nat → Prop) [DecidablePred S] [DecidablePred D] (L : List Nat) (hL : L.Nodup) (ts : Table × Table)
    (b : Nat) :
    let r := L.foldl
      (fun ts j => if test ts.1 j = true ∧ S j then (unset ts.1 j, if D j then unset ts.2 j else ts.2) else ts) ts
    (test r.1 b = true ↔ test ts.1 b = true ∧ ¬ (b ∈ L ∧ S b)) ∧
      (test r.2 b = true ↔ test ts.2 b = true ∧ ¬ (b ∈ L ∧ test ts.1 b = true ∧ S b ∧ D b)) := by
  induction L generalizing ts with
  | nil => simp
  | cons j L ih =>
    obtain ⟨hj, hL⟩ := List.nodup_cons.mp hL
    dsimp only [List.foldl_cons]
    by_cases hS : test ts.1 j = true ∧ S j
    · rw [if_pos hS]
      obtain ⟨h1, h2⟩ := ih hL (unset ts.1 j, if D j then unset ts.2 j else ts.2)
      have hmask : test (if D j then unset ts.2 j else ts.2) b = true ↔ test ts.2 b = true ∧ ¬ (b = j ∧ D j) := by
        by_cases hD : D j
        · rw [if_pos hD, test_unset]
          simp [hD]
        · rw [if_neg hD]
          simp [hD]
      rw [h1, h2, hmask, test_unset]
      by_cases hb : b = j
      · subst hb
        simp [hj, hS.1, hS.2]
      · simp [hb]
    · rw [if_neg hS]
      obtain ⟨h1, h2⟩ := ih hL ts
      rw [h1, h2]
      by_cases hb : b = j
      · subst hb
        by_cases ht : test ts.1 b = true
        · have : ¬ S b := fun hc => hS ⟨ht, hc⟩
          simp [this]
        · simp [ht]
      · simp [hb]

theorem mem_from {app j : Nat} : j ∈ g.from_ app ↔ app ≤ j ∧ j < g.maxAppl.toNat := by
  unfold from_
  rw [List.mem_range'_1]
  omega

end Loops

/-! ## The bits that are left -/

section Selection

variable (k : Nat)

/-- The application is offered the call, before the selection. -/
def Masked (x : Nat) : Prop := test (g.plci k).cIndMaskTable x = true

instance (x : Nat) : Decidable (g.Masked k x) := inferInstanceAs (Decidable (_ = _))

/-- The group of the application among those that are offered the call. -/
def group (x : Nat) : List Nat := (List.range g.maxAppl.toNat).filter fun j => decide (g.Masked k j ∧ g.Same j x)

/-- The application is the first of its group with the smallest number of busy PLCIs, and may have another call. -/
def Selected (x : Nat) : Prop :=
  (∀ j ∈ g.group k x, g.busyPlcis k x ≤ g.busyPlcis k j ∧ (g.busyPlcis k j = g.busyPlcis k x → x ≤ j)) ∧
    g.busyPlcis k x < (g.application x).maxNcci ∧ (g.enabled = groupoptSingleConnToMulti → g.busyPlcis k x = 0)

/-- The application keeps its bit: it is alone in its group and individuals are left, or it is selected. -/
def Keeps (x : Nat) : Prop := ((g.group k x).length = 1 ∧ g.alsoOnIndividuals = false) ∨ g.Selected k x

variable {g k} {n x : Nat}

theorem mem_group {j : Nat} : j ∈ g.group k x ↔ j < g.maxAppl.toNat ∧ g.Masked k j ∧ g.Same j x := by
  simp [group]

theorem group_congr {j : Nat} (h : g.Same j x) : g.group k j = g.group k x := by
  refine List.filter_congr ?_
  intro i _
  have hiff : g.Same i j ↔ g.Same i x := ⟨fun hi => hi.trans h, fun hi => hi.trans h.symm⟩
  simp only [hiff]

/-- The masks when the applications below `n` had their turn. -/
structure Turned (g : Groups) (k n : Nat) (ts : Table × Table) : Prop where
  next : ∀ b, test ts.1 b = true ↔
    g.Masked k b ∧ (b < g.maxAppl.toNat → ¬ g.Excluded b → ∀ x < n, g.Masked k x → ¬ g.Same x b)
  mask : ∀ b, test ts.2 b = true ↔
    g.Masked k b ∧ (b < g.maxAppl.toNat → ¬ g.Excluded b → (∃ x < n, g.Masked k x ∧ g.Same x b) → g.Keeps k b)

/-- A turn that does nothing: the application is not offered the call, is excluded, or is behind another of its group. -/
theorem Turned.skip {ts : Table × Table} (h : g.Turned k n ts) (hn : n < g.maxAppl.toNat)
    (hskip : ¬ (test ts.1 n = true ∧ ¬ g.Excluded n)) : g.Turned k (n + 1) ts := by
  -- whoever has the application before it in its group had another one before it already
  have hold : ∀ b, ¬ g.Excluded b → g.Masked k n → g.Same n b → ∃ x < n, g.Masked k x ∧ g.Same x b := by
    intro b hb hmask hsame
    have hexcl : ¬ g.Excluded n := fun hc => hb (hsame.excluded.mp hc)
    have hnot : ¬ test ts.1 n = true := fun hc => hskip ⟨hc, hexcl⟩
    rw [h.next n] at hnot
    by_contra hnone
    refine hnot ⟨hmask, ?_⟩
    intro _ _ x hx hxm hxs
    exact hnone ⟨x, hx, hxm, hxs.trans hsame⟩
  constructor
  · intro b
    rw [h.next b]
    refine and_congr_right ?_
    intro _
    constructor
    · intro hall hb hexcl x hx hxm hxs
      rcases Nat.lt_succ_iff_lt_or_eq.mp hx with hlt | rfl
      · exact hall hb hexcl x hlt hxm hxs
      · obtain ⟨y, hy, hym, hys⟩ := hold b hexcl hxm hxs
        exact hall hb hexcl y hy hym hys
    · intro hall hb hexcl x hx
      exact hall hb hexcl x (Nat.lt_succ_of_lt hx)
  · intro b
    rw [h.mask b]
    refine and_congr_right ?_
    intro _
    constructor
    · rintro hall hb hexcl ⟨x, hx, hxm, hxs⟩
      rcases Nat.lt_succ_iff_lt_or_eq.mp hx with hlt | rfl
      · exact hall hb hexcl ⟨x, hlt, hxm, hxs⟩
      · exact hall hb hexcl (hold b hexcl hxm hxs)
    · rintro hall hb hexcl ⟨x, hx, hxm, hxs⟩
      exact hall hb hexcl ⟨x, Nat.lt_succ_of_lt hx, hxm, hxs⟩

/-- The candidates of the loops over the group of its first application are the group. -/
theorem Turned.candidates {ts : Table × Table} (h : g.Turned k n ts) (hn : test ts.1 n = true) (hexcl : ¬ g.Excluded n)
    (hlt : n < g.maxAppl.toNat) (j : Nat) :
    (j ∈ g.from_ n ∧ test ts.1 j = true ∧ g.Same j n) ↔ j ∈ g.group k n := by
  have hfirst := ((h.next n).mp hn).2 hlt hexcl
  rw [mem_from, mem_group, h.next j]
  constructor
  · rintro ⟨⟨_, hj⟩, ⟨hm, _⟩, hs⟩
    exact ⟨hj, hm, hs⟩
  · rintro ⟨hj, hm, hs⟩
    refine ⟨⟨?_, hj⟩, ⟨hm, ?_⟩, hs⟩
    · by_contra hlow
      exact hfirst j (by omega) hm hs
    · intro _ _ x hx hxm hxs
      exact hfirst x hx hxm (hxs.trans hs)

/-- What the scan of the group of its first application finds. -/
theorem Turned.scan {ts : Table × Table} (h : g.Turned k n ts) (hn : test ts.1 n = true) (hexcl : ¬ g.Excluded n)
    (hlt : n < g.maxAppl.toNat) :
    (g.scan (g.applBusyPlcis k) ts.1 n).i = (g.group k n).length ∧
    (g.scan (g.applBusyPlcis k) ts.1 n).app ∈ g.group k n ∧
    (g.scan (g.applBusyPlcis k) ts.1 n).plcis = g.busyPlcis k (g.scan (g.applBusyPlcis k) ts.1 n).app ∧
    ∀ j ∈ g.group k n, (g.scan (g.applBusyPlcis k) ts.1 n).plcis ≤ g.busyPlcis k j ∧
      (g.busyPlcis k j = (g.scan (g.applBusyPlcis k) ts.1 n).plcis → (g.scan (g.applBusyPlcis k) ts.1 n).app ≤ j) := by
  have hcand := h.candidates hn hexcl hlt
  have hself : n ∈ g.group k n := (hcand n).mp ⟨mem_from.mpr ⟨le_refl n, hlt⟩, hn, ⟨rfl, rfl, rfl, rfl, rfl⟩⟩
  have hbusy : ∀ j ∈ g.group k n, g.applBusyPlcis k j = g.busyPlcis k j :=
    fun j hj => g.applBusyPlcis_eq k (mem_group.mp hj).1
  obtain ⟨hi, hplcis, _, _, hin, hmin⟩ := scan_list (g.applBusyPlcis k) (fun j => test ts.1 j = true ∧ g.Same j n) (g.from_ n)
    List.pairwise_lt_range' ⟨0, n, g.applBusyPlcis k n⟩ rfl fun j hj => (mem_from.mp hj).1
  change (g.scan (g.applBusyPlcis k) ts.1 n).i = _ at hi
  change (g.scan (g.applBusyPlcis k) ts.1 n).plcis = g.applBusyPlcis k (g.scan (g.applBusyPlcis k) ts.1 n).app at hplcis
  change (g.scan (g.applBusyPlcis k) ts.1 n).app = n ∨ _ at hin
  have happ : (g.scan (g.applBusyPlcis k) ts.1 n).app ∈ g.group k n := by
    rcases hin with hin | hin
    · rw [hin]
      exact hself
    · exact (hcand _).mp hin
  refine ⟨?_, happ, by rw [hplcis, hbusy _ happ], ?_⟩
  · rw [hi, Nat.zero_add, List.countP_eq_length_filter]
    refine List.Perm.length_eq ((List.perm_ext_iff_of_nodup ?_ ?_).mpr ?_)
    · exact List.Nodup.filter _ List.nodup_range'
    · exact List.Nodup.filter _ List.nodup_range
    · intro j
      rw [List.mem_filter, decide_eq_true_eq]
      exact hcand j
  · intro j hj
    rw [← hbusy j hj]
    exact hmin j ((hcand j).mpr hj).1 ((hcand j).mpr hj).2

/-- In the group of its first application, the second loop drops who does not keep the bit. -/
theorem Turned.dropped_iff {ts : Table × Table} (h : g.Turned k n ts) (hn : test ts.1 n = true) (hexcl : ¬ g.Excluded n)
    (hlt : n < g.maxAppl.toNat) {b : Nat} (hb : b ∈ g.group k n) :
    g.Dropped (g.scan (g.applBusyPlcis k) ts.1 n) n b ↔ ¬ g.Keeps k b := by
  obtain ⟨hi, happ, hplcis, hmin⟩ := h.scan hn hexcl hlt
  have hsame := (mem_group.mp hb).2.2
  have hpos := List.length_pos_of_mem hb
  have hmax : (g.application b).maxNcci = (g.application n).maxNcci := hsame.2.2.1
  have halone : (1 < (g.scan (g.applBusyPlcis k) ts.1 n).i ∨ g.alsoOnIndividuals = true) ↔
      ¬ ((g.group k b).length = 1 ∧ g.alsoOnIndividuals = false) := by
    rw [hi, group_congr hsame]
    cases g.alsoOnIndividuals with
    | true => simp
    | false =>
      simp only [Bool.false_eq_true, or_false, and_true]
      omega
  have hselected : g.Selected k b ↔ ¬ (b ≠ (g.scan (g.applBusyPlcis k) ts.1 n).app ∨
      (g.application n).maxNcci ≤ (g.scan (g.applBusyPlcis k) ts.1 n).plcis ∨
      ((g.scan (g.applBusyPlcis k) ts.1 n).plcis ≠ 0 ∧ g.enabled = groupoptSingleConnToMulti)) := by
    by_cases he : b = (g.scan (g.applBusyPlcis k) ts.1 n).app
    · rw [← he] at hplcis
      have hbest : ∀ j ∈ g.group k b, g.busyPlcis k b ≤ g.busyPlcis k j ∧ (g.busyPlcis k j = g.busyPlcis k b → b ≤ j) := by
        intro j hj
        rw [group_congr hsame] at hj
        have := hmin j hj
        rwa [hplcis, ← he] at this
      unfold Selected
      rw [hmax, hplcis]
      constructor
      · rintro ⟨_, hroom, hmode⟩ (hc | hc | ⟨hc, hm⟩)
        · exact hc he
        · omega
        · exact hc (hmode hm)
      · intro hnot
        refine ⟨hbest, ?_, ?_⟩
        · by_contra hc
          exact hnot (.inr (.inl (Nat.le_of_not_lt hc)))
        · intro hm
          by_contra hc
          exact hnot (.inr (.inr ⟨hc, hm⟩))
    · constructor
      · rintro ⟨hbest, _, _⟩
        rw [group_congr hsame] at hbest
        obtain ⟨hle, hfirst⟩ := hbest _ happ
        obtain ⟨hle', hfirst'⟩ := hmin b hb
        have heq : g.busyPlcis k b = (g.scan (g.applBusyPlcis k) ts.1 n).plcis := by omega
        have h1 := hfirst' heq
        have h2 := hfirst (by omega)
        omega
      · exact fun hnot => absurd (.inl he) hnot
  unfold Dropped Keeps
  rw [halone, not_or, hselected, not_not]

theorem Turned.turn {ts : Table × Table} (h : g.Turned k n ts) (hlt : n < g.maxAppl.toNat) :
    g.Turned k (n + 1) (g.turn (g.applBusyPlcis k) ts n) := by
  unfold Groups.turn
  split
  · rename_i hturn
    obtain ⟨hn, hexcl⟩ := hturn
    have hcand := h.candidates hn hexcl hlt
    obtain ⟨hmn, hfirst⟩ := (h.next n).mp hn
    have hfirst := hfirst hlt hexcl
    have hunset := unset_list (fun j => g.Same j n) (g.Dropped (g.scan (g.applBusyPlcis k) ts.1 n) n) (g.from_ n)
      List.nodup_range' ts
    constructor
    · intro b
      refine (hunset b).1.trans ?_
      rw [h.next b]
      constructor
      · rintro ⟨⟨hm, hall⟩, hnot⟩
        refine ⟨hm, ?_⟩
        intro hb hbe x hx hxm hxs
        rcases Nat.lt_succ_iff_lt_or_eq.mp hx with hx | rfl
        · exact hall hb hbe x hx hxm hxs
        · refine hnot ⟨mem_from.mpr ⟨?_, hb⟩, hxs.symm⟩
          by_contra hlow
          exact hfirst b (by omega) hm hxs.symm
      · rintro ⟨hm, hall⟩
        refine ⟨⟨hm, fun hb hbe x hx => hall hb hbe x (Nat.lt_succ_of_lt hx)⟩, ?_⟩
        rintro ⟨hb, hs⟩
        have hbe : ¬ g.Excluded b := fun hc => hexcl (hs.excluded.mp hc)
        exact hall (mem_from.mp hb).2 hbe n (Nat.lt_succ_self n) hmn hs.symm
    · intro b
      refine (hunset b).2.trans ?_
      have hdrop : (b ∈ g.from_ n ∧ test ts.1 b = true ∧ g.Same b n ∧ g.Dropped (g.scan (g.applBusyPlcis k) ts.1 n) n b) ↔
          b ∈ g.group k n ∧ ¬ g.Keeps k b := by
        constructor
        · rintro ⟨h1, h2, h3, h4⟩
          have hb := (hcand b).mp ⟨h1, h2, h3⟩
          exact ⟨hb, (h.dropped_iff hn hexcl hlt hb).mp h4⟩
        · rintro ⟨hb, hk⟩
          obtain ⟨h1, h2, h3⟩ := (hcand b).mpr hb
          exact ⟨h1, h2, h3, (h.dropped_iff hn hexcl hlt hb).mpr hk⟩
      rw [hdrop, h.mask b]
      constructor
      · rintro ⟨⟨hm, hall⟩, hnot⟩
        refine ⟨hm, ?_⟩
        rintro hb hbe ⟨x, hx, hxm, hxs⟩
        rcases Nat.lt_succ_iff_lt_or_eq.mp hx with hx | rfl
        · exact hall hb hbe ⟨x, hx, hxm, hxs⟩
        · by_contra hk
          exact hnot ⟨mem_group.mpr ⟨hb, hm, hxs.symm⟩, hk⟩
      · rintro ⟨hm, hall⟩
        refine ⟨⟨hm, ?_⟩, ?_⟩
        · rintro hb hbe ⟨x, hx, hxm, hxs⟩
          exact hall hb hbe ⟨x, Nat.lt_succ_of_lt hx, hxm, hxs⟩
        · rintro ⟨hb, hk⟩
          obtain ⟨hb, _, hs⟩ := mem_group.mp hb
          exact hk (hall hb (fun hc => hexcl (hs.excluded.mp hc)) ⟨n, Nat.lt_succ_self n, hmn, hs.symm⟩)
  · rename_i hskip
    exact h.skip hlt hskip

theorem turned_run (g : Groups) (k : Nat) {n : Nat} (hn : n ≤ g.maxAppl.toNat) :
    g.Turned k n
      ((List.range n).foldl (g.turn (g.applBusyPlcis k)) ((g.plci k).cIndMaskTable, (g.plci k).cIndMaskTable)) := by
  induction n with
  | zero =>
    constructor
    · intro b
      exact ⟨fun h => ⟨h, fun _ _ x hx => absurd hx (Nat.not_lt_zero x)⟩, And.left⟩
    · intro b
      refine ⟨fun h => ⟨h, ?_⟩, And.left⟩
      rintro _ _ ⟨x, hx, _⟩
      exact absurd hx (Nat.not_lt_zero x)
  | succ n ih =>
    rw [List.range_succ, List.foldl_append]
    exact (ih (by omega)).turn hn

/-- The bits that are left: of the applications that are offered the call, those that the mode excludes and those that
keep their bit in their group. Each count of busy PLCIs is the one that the source makes. -/
theorem group_optimization_selects (g : Groups) (k : Nat) :
    (∀ b, test (g.groupOptimization k) b = true ↔
      g.Masked k b ∧ (b < g.maxAppl.toNat → ¬ g.Excluded b → g.Keeps k b)) ∧
    ∀ x < g.maxAppl.toNat, g.applBusyPlcis k x = g.busyPlcis k x := by
  refine ⟨?_, fun x hx => g.applBusyPlcis_eq k hx⟩
  intro b
  refine ((turned_run g k (le_refl _)).mask b).trans (and_congr_right ?_)
  intro hm
  constructor
  · intro hall hb hexcl
    exact hall hb hexcl ⟨b, hb, hm, ⟨rfl, rfl, rfl, rfl, rfl⟩⟩
  · intro hall hb hexcl _
    exact hall hb hexcl

end Selection

end Groups

end Divas.Capi
