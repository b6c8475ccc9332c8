/-
  Divas.Lib.Stuffing — bit stuffing.

  A sender puts a zero behind five ones in a row (`stuff`), so that the six ones of a flag
  never occur in what it sends. A receiver that looks at some bits at a time meets the zero
  that is due only with the next bits: `lag n bs` is what is sent for the bits when `n` ones
  came before, without the zero that is due at the end (`stuff_eq_lag`).

  Proved: how what is sent falls apart where a zero comes in (`lag_split`), that no six ones
  are sent (`sixFree_lag`), and how many ones end at a place (`le_ones_take`).
-/

import Mathlib.Data.List.Basic

namespace Divas.Lib.Stuffing

def flag : List Bool := [false, true, true, true, true, true, true, false]

/-- The ones since the last zero, `n` of them before. -/
def ones : Nat → List Bool → Nat
  | n, [] => n
  | n, true :: bs => ones (n + 1) bs
  | _, false :: bs => ones 0 bs

def stuff : Nat → List Bool → List Bool
  | _, [] => []
  | n, true :: bs => if n = 4 then true :: false :: stuff 0 bs else true :: stuff (n + 1) bs
  | _, false :: bs => false :: stuff 0 bs

/-- The zero that is due behind `n` ones. -/
def due (n : Nat) : List Bool := if n = 5 then [false] else []

def lag : Nat → List Bool → List Bool
  | _, [] => []
  | n, true :: bs => due n ++ true :: lag (if n = 5 then 1 else n + 1) bs
  | n, false :: bs => due n ++ false :: lag 0 bs

/-- The ones that count at the end of `lag n bs`. -/
def left : Nat → List Bool → Nat
  | n, [] => n
  | n, true :: bs => left (if n = 5 then 1 else n + 1) bs
  | _, false :: bs => left 0 bs

theorem ones_append (n : Nat) (as bs : List Bool) : ones n (as ++ bs) = ones (ones n as) bs := by
  induction as generalizing n with
  | nil => rfl
  | cons a as ih => cases a <;> exact ih _

theorem ones_due {n : Nat} (bs : List Bool) : ones n (due n ++ bs) = if n = 5 then ones 0 bs else ones n bs := by
  unfold due
  split <;> rfl

theorem left_le {n : Nat} (hn : n ≤ 5) (bs : List Bool) : left n bs ≤ 5 := by
  induction bs generalizing n with
  | nil => exact hn
  | cons b bs ih =>
    cases b with
    | false => exact ih (Nat.zero_le _)
    | true =>
      refine ih ?_
      split <;> omega

theorem ones_lag {n : Nat} (bs : List Bool) : ones n (lag n bs) = left n bs := by
  induction bs generalizing n with
  | nil => rfl
  | cons b bs ih =>
    cases b with
    | false =>
      rw [lag, ones_due]
      split <;> exact ih
    | true =>
      rw [lag, ones_due, left]
      by_cases h : n = 5
      · rw [if_pos h, if_pos h]
        exact ih
      · rw [if_neg h, if_neg h]
        exact ih

theorem lag_append (n : Nat) (as bs : List Bool) : lag n (as ++ bs) = lag n as ++ lag (left n as) bs := by
  induction as generalizing n with
  | nil => rfl
  | cons a as ih => cases a <;> simp [lag, left, ih]

theorem length_le_lag (n : Nat) (bs : List Bool) : bs.length ≤ (lag n bs).length := by
  induction bs generalizing n with
  | nil => exact Nat.le_refl _
  | cons b bs ih =>
    cases b with
    | false =>
      have := ih 0
      simp only [lag, List.length_append, List.length_cons]
      omega
    | true =>
      have := ih (if n = 5 then 1 else n + 1)
      simp only [lag, List.length_append, List.length_cons]
      omega

theorem left_append (n : Nat) (as bs : List Bool) : left n (as ++ bs) = left (left n as) bs := by
  induction as generalizing n with
  | nil => rfl
  | cons a as ih => cases a <;> exact ih _

theorem stuff_eq_lag {n : Nat} (hn : n ≤ 5) (bs : List Bool) : due n ++ stuff (n % 5) bs = lag n bs ++ due (left n bs) := by
  induction bs generalizing n with
  | nil => rw [stuff, lag, left, List.append_nil, List.nil_append]
  | cons b bs ih =>
    cases b with
    | false =>
      have h0 := ih (Nat.zero_le 5)
      rw [show due 0 = [] from rfl, List.nil_append, Nat.zero_mod] at h0
      simp [stuff, lag, left, h0]
    | true =>
      by_cases h5 : n = 5
      · have h1 := ih (n := 1) (by omega)
        rw [show due 1 = [] from rfl, List.nil_append, show 1 % 5 = 1 from rfl] at h1
        simp [stuff, lag, left, h5, h1]
      · have h1 := ih (n := n + 1) (by omega)
        by_cases h4 : n = 4
        · rw [h4, show due (4 + 1) = [false] from rfl, show (4 + 1) % 5 = 0 from rfl] at h1
          simp only [List.singleton_append] at h1
          simp [stuff, lag, left, h4, h1]
        · rw [show due (n + 1) = [] from if_neg (by omega), List.nil_append, Nat.mod_eq_of_lt (by omega)] at h1
          simp [stuff, lag, left, h5, h4, h1, Nat.mod_eq_of_lt (show n < 5 by omega)]

theorem ones_le (n : Nat) (bs : List Bool) : ones n bs ≤ n + bs.length := by
  induction bs generalizing n with
  | nil => exact Nat.le_refl _
  | cons b bs ih =>
    cases b with
    | false =>
      have := ih 0
      rw [ones, List.length_cons]
      omega
    | true =>
      have := ih (n + 1)
      rw [ones, List.length_cons]
      omega

/-! ## Where a zero comes in -/

/-- Before `bs` ends no five ones stand in a row. -/
def Short (n : Nat) (bs : List Bool) : Prop := ∀ k, k < bs.length → ones n (bs.take k) < 5

theorem lag_split {n : Nat} (hn : n ≤ 5) (bs : List Bool) :
    (lag n bs = bs ∧ Short n bs) ∨
    ∃ as cs, bs = as ++ cs ∧ cs ≠ [] ∧ lag n bs = as ++ false :: lag 0 cs ∧ ones n as = 5 ∧ Short n as := by
  induction bs generalizing n with
  | nil => exact Or.inl ⟨rfl, fun k hk => absurd hk (Nat.not_lt_zero _)⟩
  | cons b bs ih =>
    by_cases h5 : n = 5
    · refine Or.inr ⟨[], b :: bs, rfl, List.cons_ne_nil _ _, ?_, h5, fun k hk => absurd hk (Nat.not_lt_zero _)⟩
      cases b <;> simp [lag, h5, due]
    · have hstep : lag n (b :: bs) = b :: lag (ones n [b]) bs := by
        cases b <;> simp [lag, h5, due, ones]
      have hle : ones n [b] ≤ 5 := by
        cases b
        · exact Nat.zero_le _
        · show n + 1 ≤ 5
          omega
      have hcons : ∀ as, Short (ones n [b]) as → Short n (b :: as) := by
        intro as h k hk
        cases k with
        | zero =>
          show n < 5
          omega
        | succ k =>
          have := h k (by simpa using hk)
          rw [List.take_succ_cons, ← List.singleton_append, ones_append]
          exact this
      rcases ih hle with h | h
      · exact Or.inl ⟨by rw [hstep, h.1], hcons bs h.2⟩
      · obtain ⟨as, cs, hbs, hcs, hlag, hones, hshort⟩ := h
        refine Or.inr ⟨b :: as, cs, by rw [hbs, List.cons_append], hcs, by rw [hstep, hlag, List.cons_append],
          ?_, hcons as hshort⟩
        rw [← List.singleton_append, ones_append]
        exact hones

/-! ## No six ones -/

def SixFree : Nat → List Bool → Prop
  | _, [] => True
  | n, true :: bs => n < 5 ∧ SixFree (n + 1) bs
  | _, false :: bs => SixFree 0 bs

theorem sixFree_append {n : Nat} {as bs : List Bool} : SixFree n (as ++ bs) ↔ SixFree n as ∧ SixFree (ones n as) bs := by
  induction as generalizing n with
  | nil => simp [SixFree, ones]
  | cons a as ih => cases a <;> simp [SixFree, ones, ih, and_assoc]

theorem SixFree.take {n : Nat} {bs : List Bool} (h : SixFree n bs) (k : Nat) : SixFree n (bs.take k) := by
  rw [← List.take_append_drop k bs, sixFree_append] at h
  exact h.1

theorem SixFree.ones_le {n : Nat} {bs : List Bool} (hn : n ≤ 5) (h : SixFree n bs) : ones n bs ≤ 5 := by
  induction bs generalizing n with
  | nil => exact hn
  | cons b bs ih =>
    cases b with
    | false => exact ih (Nat.zero_le _) h
    | true => exact ih h.1 h.2

theorem sixFree_short {n : Nat} {bs : List Bool} (h : n + bs.length ≤ 5) : SixFree n bs := by
  induction bs generalizing n with
  | nil => trivial
  | cons b bs ih =>
    rw [List.length_cons] at h
    cases b with
    | false => exact ih (by omega)
    | true => exact ⟨by omega, ih (by omega)⟩

theorem sixFree_due {n : Nat} {bs : List Bool} (h : SixFree (if n = 5 then 0 else n) bs) : SixFree n (due n ++ bs) := by
  unfold due
  by_cases h5 : n = 5
  · rw [if_pos h5] at h ⊢
    exact h
  · rw [if_neg h5] at h ⊢
    exact h

theorem sixFree_lag {n : Nat} (hn : n ≤ 5) (bs : List Bool) : SixFree n (lag n bs) := by
  induction bs generalizing n with
  | nil => trivial
  | cons b bs ih =>
    cases b with
    | false => exact sixFree_due (ih (Nat.zero_le _))
    | true =>
      refine sixFree_due ?_
      by_cases h5 : n = 5
      · rw [if_pos h5, if_pos h5]
        exact ⟨by omega, ih (by omega)⟩
      · rw [if_neg h5, if_neg h5]
        exact ⟨by omega, ih (by omega)⟩

theorem sixFree_lag_due {n : Nat} (hn : n ≤ 5) (bs : List Bool) : SixFree n (lag n bs ++ due (left n bs)) := by
  rw [sixFree_append, ones_lag]
  refine ⟨sixFree_lag hn bs, ?_⟩
  unfold due
  split <;> trivial

theorem stuff_zero (bs : List Bool) : stuff 0 bs = lag 0 bs ++ due (left 0 bs) := stuff_eq_lag (Nat.zero_le 5) bs

theorem sixFree_stuff (bs : List Bool) : SixFree 0 (stuff 0 bs) := by
  rw [stuff_zero]
  exact sixFree_lag_due (Nat.zero_le 5) bs

/-! ## Runs of ones -/

theorem ones_take_succ {bs : List Bool} {p : Nat} (hp : p < bs.length) :
    ones 0 (bs.take (p + 1)) = if bs.getD p false then ones 0 (bs.take p) + 1 else 0 := by
  rw [List.take_succ_eq_append_getElem hp, ones_append, List.getD_eq_getElem?_getD, List.getElem?_eq_getElem hp]
  cases h : bs[p] <;> simp [ones]

/-- `k` ones end at place `p`. -/
theorem le_ones_take {bs : List Bool} {p : Nat} (hp : p < bs.length) (k : Nat) :
    k ≤ ones 0 (bs.take (p + 1)) ↔ k ≤ p + 1 ∧ ∀ j, j < k → bs.getD (p - j) false = true := by
  induction p generalizing k with
  | zero =>
    rw [ones_take_succ hp]
    rcases k with _ | _ | k
    · simp
    · have hone : (∀ j, j < 1 → bs.getD (0 - j) false = true) ↔ bs.getD 0 false = true := by
        simp only [Nat.lt_one_iff, forall_eq, Nat.sub_zero]
      rw [hone]
      cases bs.getD 0 false <;> simp [ones]
    · cases bs.getD 0 false <;> simp [ones]
  | succ p ih =>
    rw [ones_take_succ hp]
    cases k with
    | zero => simp
    | succ k =>
      cases h : bs.getD (p + 1) false with
      | false =>
        simp only [Bool.false_eq_true, if_false]
        constructor
        · intro hk
          omega
        · intro hk
          have := hk.2 0 (by omega)
          rw [Nat.sub_zero, h] at this
          cases this
      | true =>
        rw [if_pos rfl, Nat.succ_le_succ_iff, ih (by omega)]
        constructor
        · intro hk
          refine ⟨by omega, fun j hj => ?_⟩
          cases j with
          | zero => exact h
          | succ j =>
            rw [Nat.add_sub_add_right]
            exact hk.2 j (by omega)
        · intro hk
          refine ⟨by omega, fun j hj => ?_⟩
          have := hk.2 (j + 1) (by omega)
          rwa [Nat.add_sub_add_right] at this

theorem ones_of_false {bs : List Bool} (h : false ∈ bs) (n m : Nat) : ones n bs = ones m bs := by
  induction bs generalizing n m with
  | nil => cases h
  | cons b bs ih =>
    cases b with
    | false => rfl
    | true => exact ih (by simpa using h) _ _

theorem ones_of_true {bs : List Bool} (h : false ∉ bs) (n : Nat) : ones n bs = n + bs.length := by
  induction bs generalizing n with
  | nil => rfl
  | cons b bs ih =>
    cases b with
    | false => exact absurd (List.mem_cons_self ..) h
    | true =>
      rw [ones, ih (by simpa using h), List.length_cons]
      omega

/-- The last five bits tell how many ones count, as long as there are no six. -/
theorem ones_last {n : Nat} (as : List Bool) {bs : List Bool} (h5 : bs.length = 5) (hle : ones n (as ++ bs) ≤ 5) :
    ones 0 bs = ones n (as ++ bs) := by
  rw [ones_append] at hle ⊢
  by_cases h : false ∈ bs
  · exact ones_of_false h _ _
  · rw [ones_of_true h] at hle
    have h0 : ones n as = 0 := by omega
    rw [h0]

end Divas.Lib.Stuffing
