/-
  Divas.Lib.Escapes — sequences with an escape symbol.

  `escaped esc toggle must xs` is `xs` with every symbol that `must` be escaped as `esc` and its
  toggled form. Proved: what no escaped sequence contains (`not_mem_escaped`), where a cut of one
  lies (`cut_escaped`), and that one ends in an escape only when it is cut behind it
  (`getLast?_escaped`).
-/

import Mathlib.Data.List.Basic

namespace Divas.Lib.Escapes

universe u

variable {α : Type u} (esc : α) (toggle : α → α) (must : α → Bool)

def unit (x : α) : List α := if must x then [esc, toggle x] else [x]

def escaped : List α → List α
  | [] => []
  | x :: xs => unit esc toggle must x ++ escaped xs

variable {esc toggle must}

theorem unit_of_must {x : α} (h : must x = true) : unit esc toggle must x = [esc, toggle x] := if_pos h

theorem unit_of_not {x : α} (h : must x = false) : unit esc toggle must x = [x] := by
  unfold unit
  rw [h]
  rfl

theorem escaped_append (xs ys : List α) :
    escaped esc toggle must (xs ++ ys) = escaped esc toggle must xs ++ escaped esc toggle must ys := by
  induction xs with
  | nil => rfl
  | cons x xs ih => rw [List.cons_append, escaped, escaped, ih, List.append_assoc]

theorem unit_ne_nil (x : α) : unit esc toggle must x ≠ [] := by
  cases h : must x with
  | true => simp [unit_of_must h]
  | false => simp [unit_of_not h]

theorem escaped_ne_nil {xs : List α} (h : xs ≠ []) : escaped esc toggle must xs ≠ [] := by
  cases xs with
  | nil => exact absurd rfl h
  | cons x xs =>
    rw [escaped]
    exact List.append_ne_nil_of_left_ne_nil (unit_ne_nil x) _

/-- A symbol that is escaped, and is neither the escape nor a toggled form, does not occur. -/
theorem not_mem_escaped {y : α} (hmust : must y = true) (hesc : y ≠ esc) (htoggle : ∀ x, must x = true → toggle x ≠ y)
    (xs : List α) : y ∉ escaped esc toggle must xs := by
  induction xs with
  | nil => exact List.not_mem_nil
  | cons x xs ih =>
    rw [escaped, List.mem_append]
    intro hmem
    rcases hmem with hx | hxs
    · cases h : must x with
      | true =>
        rw [unit_of_must h, List.mem_pair] at hx
        rcases hx with hx | hx
        · exact hesc hx
        · exact htoggle x h hx.symm
      | false =>
        rw [unit_of_not h, List.mem_singleton] at hx
        rw [hx, h] at hmust
        exact absurd hmust Bool.false_ne_true
    · exact ih hxs

section Cut

variable (hesc : must esc = true) (htoggle : ∀ x, must x = true → toggle x ≠ esc)
include hesc htoggle

/-- No escaped sequence ends in an escape. -/
theorem getLast?_escaped (xs : List α) : (escaped esc toggle must xs).getLast? ≠ some esc := by
  induction xs with
  | nil => simp [escaped]
  | cons x xs ih =>
    rw [escaped]
    by_cases hxs : xs = []
    · rw [hxs, escaped, List.append_nil]
      cases h : must x with
      | true => simp [unit_of_must h, htoggle x h]
      | false =>
        have hne : x ≠ esc := by
          intro hx
          rw [hx, hesc] at h
          exact absurd h.symm Bool.false_ne_true
        simp [unit_of_not h, hne]
    · rw [List.getLast?_append_of_ne_nil _ (escaped_ne_nil hxs)]
      exact ih

end Cut

/-- A cut of an escaped sequence lies between two symbols or directly behind an escape. -/
theorem cut_escaped {xs p q : List α} (h : p ++ q = escaped esc toggle must xs) :
    ∃ ys zs, xs = ys ++ zs ∧
      ((p = escaped esc toggle must ys ∧ q = escaped esc toggle must zs) ∨
        ∃ z zs', zs = z :: zs' ∧ must z = true ∧ p = escaped esc toggle must ys ++ [esc] ∧
          q = toggle z :: escaped esc toggle must zs') := by
  induction xs generalizing p with
  | nil =>
    rw [escaped, List.append_eq_nil_iff] at h
    exact ⟨[], [], rfl, Or.inl ⟨h.1, h.2⟩⟩
  | cons x xs ih =>
    -- the cut lies in the first symbol, or behind it
    have hbehind : ∀ p', p = unit esc toggle must x ++ p' → p' ++ q = escaped esc toggle must xs →
        ∃ ys zs, x :: xs = ys ++ zs ∧
          ((p = escaped esc toggle must ys ∧ q = escaped esc toggle must zs) ∨
            ∃ z zs', zs = z :: zs' ∧ must z = true ∧ p = escaped esc toggle must ys ++ [esc] ∧
              q = toggle z :: escaped esc toggle must zs') := by
      intro p' hp hrest
      obtain ⟨ys, zs, hxs, hcut⟩ := ih hrest
      refine ⟨x :: ys, zs, by rw [hxs, List.cons_append], ?_⟩
      rcases hcut with ⟨hp', hq⟩ | ⟨z, zs', hzs, hz, hp', hq⟩
      · exact Or.inl ⟨by rw [hp, hp', escaped], hq⟩
      · exact Or.inr ⟨z, zs', hzs, hz, by rw [hp, hp', escaped, List.append_assoc], hq⟩
    rw [escaped] at h
    cases p with
    | nil => exact ⟨[], x :: xs, rfl, Or.inl ⟨rfl, by rw [escaped]; exact h⟩⟩
    | cons a p =>
      cases hx : must x with
      | false =>
        rw [unit_of_not hx, List.cons_append, List.singleton_append] at h
        obtain ⟨ha, hrest⟩ := List.cons.inj h
        exact hbehind p (by rw [unit_of_not hx, ha]; rfl) hrest
      | true =>
        rw [unit_of_must hx] at h
        cases p with
        | nil =>
          simp only [List.cons_append, List.nil_append, List.cons.injEq] at h
          exact ⟨[], x :: xs, rfl, Or.inr ⟨x, xs, rfl, hx, by rw [h.1]; rfl, h.2⟩⟩
        | cons b p =>
          simp only [List.cons_append, List.nil_append, List.cons.injEq] at h
          exact hbehind p (by rw [unit_of_must hx, h.1, h.2.1]; rfl) h.2.2

end Divas.Lib.Escapes
