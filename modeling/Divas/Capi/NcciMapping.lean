/-
  Divas.Capi.NcciMapping — the invariants of the NCCI mapping.

  Proved: in every run whose calls of `get_ncci` meet `Cond`, the two tables are inverse
  to each other, no channel is claimed by two NCCIs of PLCIs, the circle of each PLCI goes
  once through each of its NCCIs, and every call returns (`ncci_mapping`). Without the
  condition this fails when all NCCIs are taken (`ncci_overflow`), and when the channel of
  a preserved NCCI is given to another PLCI (`preserved_channel_taken`).
-/

import Mathlib.Data.List.Perm.Subperm
import Divas.Capi.Ncci

namespace Divas.Capi

open Divas.Lib.Loop Divas.Lib.Run Divas.Lib.Links NcciSt

/-! ## The tables -/

structure Maps (chNcci ncciCh ncciPlci : Nat → Nat) : Prop where
  zero : chNcci 0 = 0
  inverse : ∀ ch, chNcci ch ≠ 0 → chNcci ch ≤ maxNcci ∧ ncciCh (chNcci ch) = ch
  claimed : ∀ n m, ncciPlci n ≠ 0 → ncciPlci m ≠ 0 → ncciCh n = ncciCh m → n = m
  used : ∀ n, ncciPlci n ≠ 0 → n ≠ 0 ∧ n ≤ maxNcci ∧ ncciCh n ≠ 0

variable {chNcci ncciCh ncciPlci : Nat → Nat}

/-- NCCI `n` gets channel `ch`, and perhaps an owner. -/
theorem Maps.map (h : Maps chNcci ncciCh ncciPlci) {n ch : Nat} {ncciPlci' : Nat → Nat} (hn : n ≠ 0 ∧ n ≤ maxNcci)
    (hch : ch ≠ 0) (hun : ∀ c, c ≠ ch → chNcci c ≠ n) (hp : ∀ m, m ≠ n → ncciPlci' m = ncciPlci m)
    (hcl : ncciPlci' n ≠ 0 → ∀ m, m ≠ n → ncciPlci m ≠ 0 → ncciCh m ≠ ch) :
    Maps (Function.update chNcci ch n) (Function.update ncciCh n ch) ncciPlci' := by
  have hother : ∀ m, m ≠ n → ncciPlci' n ≠ 0 → ncciPlci' m ≠ 0 → ncciCh m ≠ ch := by
    intro m hm hpn hpm
    rw [hp m hm] at hpm
    exact hcl hpn m hm hpm
  refine ⟨?_, fun c hc => ?_, fun x y hx hy he => ?_, fun x hx => ?_⟩
  · rw [Function.update_of_ne (Ne.symm hch)]
    exact h.zero
  · by_cases e : c = ch
    · subst e
      rw [Function.update_self, Function.update_self]
      exact ⟨hn.2, rfl⟩
    · rw [Function.update_of_ne e] at hc ⊢
      rw [Function.update_of_ne (hun c e)]
      exact h.inverse c hc
  · by_cases ex : x = n
    · by_cases ey : y = n
      · rw [ex, ey]
      · subst ex
        rw [Function.update_self, Function.update_of_ne ey] at he
        exact absurd he.symm (hother y ey hx hy)
    · by_cases ey : y = n
      · subst ey
        rw [Function.update_self, Function.update_of_ne ex] at he
        exact absurd he (hother x ex hy hx)
      · rw [Function.update_of_ne ex, Function.update_of_ne ey] at he
        rw [hp x ex] at hx
        rw [hp y ey] at hy
        exact h.claimed x y hx hy he
  · by_cases ex : x = n
    · subst ex
      rw [Function.update_self]
      exact ⟨hn.1, hn.2, hch⟩
    · rw [Function.update_of_ne ex]
      rw [hp x ex] at hx
      exact h.used x hx

theorem Maps.unmap (h : Maps chNcci ncciCh ncciPlci) (c : Nat) : Maps (Function.update chNcci c 0) ncciCh ncciPlci := by
  refine ⟨?_, fun c' hc => ?_, h.claimed, h.used⟩
  · by_cases e : 0 = c
    · rw [e, Function.update_self]
    · rw [Function.update_of_ne e]
      exact h.zero
  · by_cases e : c' = c
    · rw [e, Function.update_self] at hc
      exact absurd rfl hc
    · rw [Function.update_of_ne e] at hc ⊢
      exact h.inverse c' hc

/-- An NCCI that no channel leads to loses its channel and its owner. -/
theorem Maps.clear (h : Maps chNcci ncciCh ncciPlci) {n : Nat} (hn : ∀ c, chNcci c ≠ n) :
    Maps chNcci (Function.update ncciCh n 0) (Function.update ncciPlci n 0) := by
  have hne : ∀ x, Function.update ncciPlci n 0 x ≠ 0 → x ≠ n ∧ ncciPlci x ≠ 0 := by
    intro x hx
    by_cases e : x = n
    · rw [e, Function.update_self] at hx
      exact absurd rfl hx
    · rw [Function.update_of_ne e] at hx
      exact ⟨e, hx⟩
  refine ⟨h.zero, fun c hc => ?_, fun x y hx hy he => ?_, fun x hx => ?_⟩
  · rw [Function.update_of_ne (hn c)]
    exact h.inverse c hc
  · rw [Function.update_of_ne (hne x hx).1, Function.update_of_ne (hne y hy).1] at he
    exact h.claimed x y (hne x hx).2 (hne y hy).2 he
  · rw [Function.update_of_ne (hne x hx).1]
    exact h.used x (hne x hx).2

/-- After `unmap` no channel leads to the NCCI. -/
theorem Maps.unmapped (h : Maps chNcci ncciCh ncciPlci) {n : Nat} (hn : n ≠ 0) (c : Nat) :
    Function.update chNcci (ncciCh n) 0 c ≠ n := by
  by_cases e : c = ncciCh n
  · rw [e, Function.update_self]
    exact Ne.symm hn
  · rw [Function.update_of_ne e]
    intro hc
    have := (h.inverse c (by rw [hc]; exact hn)).2
    rw [hc] at this
    exact e this.symm

/-! ## The circles -/

/-- The circle of PLCI `p` with the entry `ring`. -/
def RingOf (next : Nat → Nat) (ring : Nat) (ncciPlci : Nat → Nat) (p : Nat) : Prop :=
  ∃ L : List Nat, L.Nodup ∧ (∀ n, n ∈ L ↔ ncciPlci n = p) ∧ ring = L.headD 0 ∧ Cycle next L

variable {next next' : Nat → Nat} {ncciPlci' : Nat → Nat} {ring p n : Nat}

/-- A circle sees the owner and the links of its own NCCIs only. -/
theorem RingOf.congr (h : RingOf next ring ncciPlci p) (hp : ∀ n, ncciPlci' n = p ↔ ncciPlci n = p)
    (hn : ∀ n, ncciPlci n = p → next n = next' n) : RingOf next' ring ncciPlci' p := by
  obtain ⟨L, hd, hm, hr, hc⟩ := h
  exact ⟨L, hd, fun n => (hm n).trans (hp n).symm, hr, (cycle_congr fun x hx => hn x ((hm x).1 hx)).1 hc⟩

theorem RingOf.empty (h : ∀ n, ncciPlci n ≠ p) : RingOf next 0 ncciPlci p :=
  ⟨[], List.nodup_nil, fun n => by simp [h n], rfl, trivial⟩

theorem RingOf.mem_or (h : RingOf next ring ncciPlci p) : (ring = 0 ∧ ∀ n, ncciPlci n ≠ p) ∨ ncciPlci ring = p := by
  obtain ⟨L, -, hm, hr, -⟩ := h
  cases L with
  | nil =>
    refine Or.inl ⟨hr, fun n hn => ?_⟩
    have := (hm n).2 hn
    cases this
  | cons x xs =>
    have hx : x = ring := hr.symm
    subst hx
    exact Or.inr ((hm x).1 List.mem_cons_self)

/-- `get_ncci` inserts an NCCI. -/
theorem RingOf.insert (h : RingOf next ring ncciPlci p) (hz : ncciPlci 0 ≠ p) (hn : ncciPlci n ≠ p)
    (hp : ∀ m, ncciPlci' m = p ↔ m = n ∨ ncciPlci m = p) :
    RingOf (if ring = 0 then Function.update next n n else Function.update (Function.update next n (next ring)) ring n)
      (if ring = 0 then n else ring) ncciPlci' p := by
  obtain ⟨L, hd, hm, hr, hc⟩ := h
  cases L with
  | nil =>
    have hr0 : ring = 0 := hr
    rw [if_pos hr0, if_pos hr0]
    refine ⟨[n], List.nodup_singleton n, fun m => ?_, rfl, cycle_single next n⟩
    rw [hp m, ← hm m]
    simp
  | cons x xs =>
    have hr : x = ring := hr.symm
    subst hr
    have hx : x ≠ 0 := by
      intro e
      exact hz (by rw [← (hm 0)]; rw [← e]; exact List.mem_cons_self)
    have hnL : n ∉ x :: xs := fun h => hn ((hm n).1 h)
    rw [if_neg hx, if_neg hx]
    refine ⟨x :: n :: xs, ?_, fun m => ?_, rfl, cycle_insert hc hd hnL⟩
    · have h1 := List.nodup_cons.1 hd
      rw [List.mem_cons, not_or] at hnL
      refine List.nodup_cons.2 ⟨?_, List.nodup_cons.2 ⟨hnL.2, h1.2⟩⟩
      rw [List.mem_cons, not_or]
      exact ⟨Ne.symm hnL.1, h1.1⟩
    · rw [hp m, ← hm m]
      simp only [List.mem_cons]
      tauto

/-! ## Unlinking -/

theorem findBefore_step {next : Nat → Nat} {ring n k i : Nat} (h : i ≠ 0 ∧ next i ≠ ring ∧ next i ≠ n) :
    findBefore next ring n (k + 1) i = findBefore next ring n k (next i) := by
  rw [findBefore, if_pos h]

theorem findBefore_stop {next : Nat → Nat} {ring n k i : Nat} (h : ¬ (i ≠ 0 ∧ next i ≠ ring ∧ next i ≠ n)) :
    findBefore next ring n (k + 1) i = some i := by
  rw [findBefore, if_neg h]

/-- The search along the rest of a circle. It finds the node before `n`, or, when `n` does
    not come, the last node. -/
theorem findBefore_path {next : Nat → Nat} {ring n i : Nat} {bs : List Nat} {k : Nat} (h : Path next (next i) bs ring)
    (hring : ring ∉ bs) (hz : 0 ∉ i :: bs) (hk : bs.length < k) :
    (∃ cs j ds, i :: bs = cs ++ j :: n :: ds ∧ findBefore next ring n k i = some j) ∨
      (n ∉ bs ∧ ∃ cs j, i :: bs = cs ++ [j] ∧ findBefore next ring n k i = some j) := by
  induction bs generalizing i k with
  | nil =>
    obtain ⟨k, rfl⟩ : ∃ m, k = m + 1 := ⟨k - 1, by simp at hk; omega⟩
    have hi : next i = ring := h
    exact Or.inr ⟨by simp, [], i, rfl, findBefore_stop (by simp [hi])⟩
  | cons b bs ih =>
    obtain ⟨k, rfl⟩ : ∃ m, k = m + 1 := ⟨k - 1, by omega⟩
    obtain ⟨hb, h'⟩ := h
    rw [List.mem_cons, not_or] at hring hz
    by_cases e : b = n
    · subst e
      exact Or.inl ⟨[], i, bs, rfl, findBefore_stop (by simp [hb])⟩
    · have hgo : i ≠ 0 ∧ next i ≠ ring ∧ next i ≠ n := by
        rw [hb]
        exact ⟨Ne.symm hz.1, Ne.symm hring.1, e⟩
      rw [findBefore_step hgo, hb]
      rcases ih h' hring.2 hz.2 (by simp at hk; omega) with ⟨cs, j, ds, h1, h2⟩ | ⟨h0, cs, j, h1, h2⟩
      · exact Or.inl ⟨i :: cs, j, ds, by rw [h1]; rfl, h2⟩
      · refine Or.inr ⟨?_, i :: cs, j, by rw [h1]; rfl, h2⟩
        rw [List.mem_cons, not_or]
        exact ⟨fun h => e h.symm, h0⟩

theorem mem_nccis {n : Nat} : n ∈ nccis ↔ n ≠ 0 ∧ n ≤ maxNcci := by
  simp only [nccis, List.mem_map, List.mem_range]
  constructor
  · intro hw
    rcases hw with ⟨k, hk, he⟩
    omega
  · intro hw
    rcases hw with ⟨h0, hle⟩
    exact ⟨n - 1, by omega, by omega⟩

/-- There are no more NCCIs than turns of the search. -/
theorem circle_length {L : List Nat} (hd : L.Nodup) (h : ∀ n, n ∈ L → n ≠ 0 ∧ n ≤ maxNcci) : L.length ≤ maxNcci := by
  have hsub : L ⊆ nccis := fun n hn => mem_nccis.2 (h n hn)
  have := (hd.subperm hsub).length_le
  simpa [nccis] using this

/-- `ncci_remove` unlinks an NCCI. -/
theorem RingOf.remove (h : RingOf next ring ncciPlci p) (hb : ∀ m, ncciPlci m = p → m ≠ 0 ∧ m ≤ maxNcci)
    (hn : ncciPlci n = p) (hp : ∀ m, ncciPlci' m = p ↔ m ≠ n ∧ ncciPlci m = p) :
    ∃ i, findBefore next ring n 256 ring = some i ∧ i ≠ 0 ∧ next i = n ∧ ncciPlci i = p ∧
      RingOf (Function.update (Function.update next i (next n)) n 0)
        (if i = n then 0 else if ring = n then i else ring) ncciPlci' p := by
  obtain ⟨L, hd, hm, hr, hc⟩ := h
  have hlen := circle_length hd fun m hmL => hb m ((hm m).1 hmL)
  have hnL := (hm n).2 hn
  cases L with
  | nil => cases hnL
  | cons x xs =>
    have hr : x = ring := hr.symm
    subst hr
    have hz : 0 ∉ x :: xs := fun h0 => (hb 0 ((hm 0).1 h0)).1 rfl
    have hx := (List.nodup_cons.1 hd).1
    have hlt : xs.length < 256 := by
      rw [List.length_cons] at hlen
      have : maxNcci = 127 := rfl
      omega
    rcases findBefore_path (n := n) hc hx hz hlt with ⟨cs, j, ds, h1, h2⟩ | ⟨h0, cs, j, h1, h2⟩
    · -- `n` is not the entry of the circle.
      have hj : j ∈ x :: xs := by
        rw [h1]
        simp
      rw [h1] at hc hd
      have hnx : n ∉ cs ++ j :: ds ∧ j ≠ n := by
        have h3 := List.nodup_append.1 hd
        have h4 := List.nodup_cons.1 h3.2.1
        have h5 := List.nodup_cons.1 h4.2
        refine ⟨?_, fun e => h4.1 (e ▸ List.mem_cons_self)⟩
        rw [List.mem_append, List.mem_cons, not_or, not_or]
        exact ⟨fun h => h3.2.2 n h n (by simp) rfl, fun e => h4.1 (e ▸ List.mem_cons_self), h5.1⟩
      have hxn : x ≠ n := by
        intro e
        cases cs with
        | nil =>
          have := (List.cons.inj h1).1
          exact hnx.2 (this ▸ e)
        | cons c cs =>
          have := (List.cons.inj h1).1
          exact hnx.1 (by rw [← e, this]; simp)
      refine ⟨j, h2, (hb j ((hm j).1 hj)).1, cycle_next hc, (hm j).1 hj, cs ++ j :: ds, ?_, fun m => ?_, ?_, ?_⟩
      · refine List.Nodup.sublist ?_ hd
        exact (List.sublist_cons_self n ds).cons_cons j |>.append_left cs
      · rw [hp m, ← hm m, h1]
        simp only [List.mem_append, List.mem_cons]
        constructor
        · intro h
          exact ⟨fun e => hnx.1 (by rw [← e]; simpa using h), by tauto⟩
        · intro h
          tauto
      · rw [if_neg hnx.2, if_neg hxn]
        cases cs with
        | nil => exact (List.cons.inj h1).1
        | cons c cs => exact (List.cons.inj h1).1
      · rw [cycle_update hnx.1]
        exact cycle_unlink hc hd
    · -- `n` is the entry; the search ends at the last node.
      have hxn : n = x := by
        rw [List.mem_cons] at hnL
        rcases hnL with e | e
        · exact e
        · exact absurd e h0
      subst hxn
      cases cs with
      | nil =>
        obtain ⟨hj, hxs⟩ := List.cons.inj h1
        subst hj
        subst hxs
        refine ⟨n, h2, (hb n hn).1, hc, hn, ?_⟩
        rw [if_pos rfl]
        refine RingOf.empty fun m hmp => ?_
        obtain ⟨h3, h4⟩ := (hp m).1 hmp
        rw [← hm m] at h4
        exact h3 (by simpa using h4)
      | cons c cs =>
        have hxs : xs = cs ++ [j] := (List.cons.inj h1).2
        subst hxs
        have hj : j ∈ n :: (cs ++ [j]) := by simp
        have hjn : j ≠ n := fun e => hx (by rw [← e]; simp)
        have hncs : n ∉ j :: cs := by
          rw [List.mem_cons, not_or]
          exact ⟨Ne.symm hjn, fun h => hx (by simp [h])⟩
        refine ⟨j, h2, (hb j ((hm j).1 hj)).1, cycle_last hc, (hm j).1 hj, j :: cs, ?_, fun m => ?_, ?_, ?_⟩
        · have := (List.nodup_cons.1 hd).2
          rw [List.nodup_append] at this
          exact List.nodup_cons.2 ⟨fun h => this.2.2 j h j (by simp) rfl, this.1⟩
        · rw [hp m, ← hm m]
          simp only [List.mem_cons, List.mem_append, List.not_mem_nil, or_false]
          constructor
          · intro h
            refine ⟨fun e => hncs (by rw [← e]; simpa using h), by tauto⟩
          · intro h
            tauto
        · rw [if_neg hjn, if_pos rfl]
          rfl
        · rw [cycle_update hncs]
          exact cycle_unlink_first hc hd

/-! ## The invariant -/

structure NcciInv (s : NcciSt) : Prop where
  maps : Maps s.a.chNcci s.a.ncciCh s.a.ncciPlci
  rings : ∀ p, p ≠ 0 → RingOf s.a.ncciNext (s.ncciRingList p) s.a.ncciPlci p
  returns : s.hung = false

variable {s : NcciSt}

theorem ringInsert_eq (s : NcciSt) (p n : Nat) :
    s.ringInsert p n = { s with
      ncciRingList := Function.update s.ncciRingList p (if s.ncciRingList p = 0 then n else s.ncciRingList p)
      a := { s.a with
        ncciNext :=
          if s.ncciRingList p = 0 then Function.update s.a.ncciNext n (n % 256)
          else Function.update (Function.update s.a.ncciNext n (s.a.ncciNext (s.ncciRingList p)))
            (s.ncciRingList p) (n % 256) } } := by
  unfold ringInsert
  by_cases h : s.ncciRingList p = 0
  · simp [h, setAdapter]
  · simp [h, setAdapter]

/-- A forced NCCI gets the channel. -/
theorem NcciInv.force (h : NcciInv s) {n ch : Nat} (hn : n ≠ 0 ∧ n ≤ maxNcci) (hch : ch ≠ 0)
    (hun : ∀ c, s.a.chNcci c ≠ n)
    (hcl : s.a.ncciPlci n ≠ 0 → ∀ m, m ≠ n → s.a.ncciPlci m ≠ 0 → s.a.ncciCh m ≠ ch) : NcciInv (s.establish n ch) := by
  have hmod : n % 256 = n := Nat.mod_eq_of_lt (by have : maxNcci = 127 := rfl; omega)
  refine ⟨?_, h.rings, h.returns⟩
  show Maps (Function.update s.a.chNcci ch (n % 256)) (Function.update s.a.ncciCh n ch) s.a.ncciPlci
  rw [hmod]
  exact h.maps.map hn hch (fun c _ => hun c) (fun _ _ => rfl) hcl

/-- A free NCCI is given to PLCI `p` with the channel. -/
theorem NcciInv.take (h : NcciInv s) {p n ch : Nat} (hp : p ≠ 0) (hn : n ≠ 0 ∧ n ≤ maxNcci) (hfree : s.a.ncciCh n = 0)
    (hch : ch ≠ 0) (hcl : ∀ m, s.a.ncciPlci m ≠ 0 → s.a.ncciCh m ≠ ch) : NcciInv ((s.assign p n).establish n ch) := by
  have hmod : n % 256 = n := Nat.mod_eq_of_lt (by have : maxNcci = 127 := rfl; omega)
  have howner : s.a.ncciPlci n = 0 := by
    by_contra e
    exact (h.maps.used n e).2.2 hfree
  have hun : ∀ c, s.a.chNcci c ≠ n := by
    intro c hc
    have := (h.maps.inverse c (by rw [hc]; exact hn.1)).2
    rw [hc, hfree] at this
    rw [← this, h.maps.zero] at hc
    exact hn.1 hc.symm
  have hzero : s.a.ncciPlci 0 = 0 := by
    by_contra e
    exact (h.maps.used 0 e).1 rfl
  rw [assign, ringInsert_eq]
  refine ⟨?_, fun q hq => ?_, h.returns⟩
  · show Maps (Function.update s.a.chNcci ch (n % 256)) (Function.update s.a.ncciCh n ch) (Function.update s.a.ncciPlci n p)
    rw [hmod]
    refine h.maps.map hn hch (fun c _ => hun c) (fun m hm => Function.update_of_ne hm _ _) fun _ m _ => hcl m
  · show RingOf (if s.ncciRingList p = 0 then Function.update s.a.ncciNext n (n % 256)
        else Function.update (Function.update s.a.ncciNext n (s.a.ncciNext (s.ncciRingList p))) (s.ncciRingList p) (n % 256))
      (Function.update s.ncciRingList p (if s.ncciRingList p = 0 then n else s.ncciRingList p) q)
      (Function.update s.a.ncciPlci n p) q
    rw [hmod]
    have hr := h.rings p hp
    by_cases e : q = p
    · subst e
      rw [Function.update_self]
      refine hr.insert (by rw [hzero]; exact Ne.symm hq) (by rw [howner]; exact Ne.symm hq) fun m => ?_
      by_cases em : m = n
      · subst em
        simp
      · simp [em]
    · rw [Function.update_of_ne e]
      refine (h.rings q hq).congr (fun m => ?_) fun m hm => ?_
      · by_cases em : m = n
        · subst em
          rw [Function.update_self, howner]
          exact ⟨fun h => absurd h.symm e, fun h => absurd h.symm hq⟩
        · rw [Function.update_of_ne em]
      · -- The links that change belong to `n` and to PLCI `p`.
        have hmn : m ≠ n := fun em => hq (by rw [← hm, em, howner])
        by_cases hr0 : s.ncciRingList p = 0
        · rw [if_pos hr0, Function.update_of_ne hmn]
        · have hmr : m ≠ s.ncciRingList p := by
            intro em
            rcases hr.mem_or with h0 | h0
            · exact hr0 h0.1
            · exact e (by rw [← hm, em, h0])
          rw [if_neg hr0, Function.update_of_ne hmr, Function.update_of_ne hmn]

theorem freeNcci_some {n : Nat} (h : s.freeNcci = some n) : (n ≠ 0 ∧ n ≤ maxNcci) ∧ s.a.ncciCh n = 0 := by
  have h1 := List.find?_some h
  have h2 := List.mem_of_find?_eq_some h
  exact ⟨mem_nccis.1 h2, by simpa using h1⟩

theorem freeNcci_isSome {n : Nat} (hn : n ≠ 0 ∧ n ≤ maxNcci) (h : s.a.ncciCh n = 0) : ∃ m, s.freeNcci = some m := by
  rw [← Option.isSome_iff_exists, freeNcci, List.find?_isSome]
  exact ⟨n, mem_nccis.2 hn, by simpa using h⟩

theorem NcciInv.getNcci (h : NcciInv s) {plci : PlciId} {ch : UInt8} {forceNcci : NcciId}
    (hc : s.Cond (.get plci ch forceNcci)) : NcciInv (s.getNcci plci.id ch.toNat forceNcci.ncci).2 := by
  have hp : plci.id ≠ 0 := by have := plci.pos; omega
  unfold NcciSt.getNcci
  by_cases h0 : (ch.toNat == 0 || s.a.chNcci ch.toNat != 0) = true
  · rw [if_pos h0]
    exact ⟨h.maps, h.rings, h.returns⟩
  · rw [if_neg h0]
    simp only [Bool.or_eq_true, beq_iff_eq, bne_iff_ne, not_or, Decidable.not_not] at h0
    have hc := hc h0.1 h0.2
    by_cases hf : forceNcci.ncci = 0
    · rw [if_pos hf] at hc
      obtain ⟨⟨m, hm0, hm, hmfree⟩, hcl⟩ := hc
      rw [if_neg (by simpa using hf)]
      by_cases hown : (ch.toNat < maxNcci + 1 && s.a.ncciCh ch.toNat == 0) = true
      · rw [if_pos hown]
        simp only [Bool.and_eq_true, decide_eq_true_eq, beq_iff_eq] at hown
        exact h.take hp ⟨h0.1, by omega⟩ hown.2 h0.1 hcl
      · rw [if_neg hown]
        obtain ⟨n, hn⟩ := freeNcci_isSome ⟨hm0, hm⟩ hmfree
        obtain ⟨hn1, hn2⟩ := freeNcci_some hn
        rw [hn]
        exact h.take hp hn1 hn2 h0.1 hcl
    · rw [if_neg hf] at hc
      rw [if_pos (by simpa using hf)]
      exact h.force ⟨hf, forceNcci.le⟩ h0.1 hc.1 hc.2

/-! ## Removal -/

/-- Preserving takes only the way from the channel to the NCCI. -/
theorem NcciInv.unmap (h : NcciInv s) (n : Nat) : NcciInv ((s.cleanupNcci n).unmap n) :=
  ⟨h.maps.unmap _, h.rings, h.returns⟩

/-- The tables after an NCCI is unmapped and cleared. -/
theorem NcciInv.cleared (h : NcciInv s) {n : Nat} (hn : n ≠ 0) :
    Maps (Function.update s.a.chNcci (s.a.ncciCh n) 0) (Function.update s.a.ncciCh n 0) (Function.update s.a.ncciPlci n 0) :=
  (h.maps.unmap _).clear (h.maps.unmapped hn)

theorem owner_cleared {ncciPlci : Nat → Nat} {n q : Nat} (hq : q ≠ 0) (m : Nat) :
    Function.update ncciPlci n 0 m = q ↔ m ≠ n ∧ ncciPlci m = q := by
  by_cases e : m = n
  · subst e
    rw [Function.update_self]
    exact ⟨fun h => absurd h.symm hq, fun h => absurd rfl h.1⟩
  · rw [Function.update_of_ne e]
    simp [e]

theorem NcciInv.removeOne (h : NcciInv s) {p : Nat} (hp : p ≠ 0) (n : Nat) (preserveNcci : Bool) :
    NcciInv (s.removeOne p n preserveNcci) := by
  unfold NcciSt.removeOne
  cases ho : s.a.ncciPlci n != p with
  | true => exact ⟨h.maps, h.rings, h.returns⟩
  | false =>
    have ho : s.a.ncciPlci n = p := by simpa using ho
    have hn : n ≠ 0 := (h.maps.used n (by rw [ho]; exact hp)).1
    cases preserveNcci with
    | true => exact h.unmap n
    | false =>
      have hb : ∀ m, s.a.ncciPlci m = p → m ≠ 0 ∧ m ≤ maxNcci := by
        intro m hm
        have := h.maps.used m (by rw [hm]; exact hp)
        exact ⟨this.1, this.2.1⟩
      obtain ⟨i, h1, h2, h3, h4, h5⟩ := (h.rings p hp).remove hb ho (owner_cleared hp)
      have hin : (i != 0 && s.a.ncciNext i == n) = true := by simp [h2, h3]
      have heq : (((s.cleanupNcci n).unmap n).clearNcci n).ringRemove p n = { s with
          ncciRingList := Function.update s.ncciRingList p
            (if i = n then 0 else if s.ncciRingList p = n then i else s.ncciRingList p)
          a := { (((s.cleanupNcci n).unmap n).clearNcci n).a with
            ncciNext := Function.update (Function.update s.a.ncciNext i (s.a.ncciNext n)) n 0 } } := by
        have h1' : findBefore (((s.cleanupNcci n).unmap n).clearNcci n).a.ncciNext
            ((((s.cleanupNcci n).unmap n).clearNcci n).ncciRingList p) n 256
            ((((s.cleanupNcci n).unmap n).clearNcci n).ncciRingList p) = some i := h1
        unfold NcciSt.ringRemove
        simp only [h1']
        rw [if_pos (show (i != 0 && (((s.cleanupNcci n).unmap n).clearNcci n).a.ncciNext i == n) = true from hin)]
        rfl
      show NcciInv ((((s.cleanupNcci n).unmap n).clearNcci n).ringRemove p n)
      rw [heq]
      refine ⟨h.cleared hn, fun q hq => ?_, h.returns⟩
      show RingOf _ (Function.update s.ncciRingList p _ q) (Function.update s.a.ncciPlci n 0) q
      by_cases e : q = p
      · subst e
        rw [Function.update_self]
        exact h5
      · rw [Function.update_of_ne e]
        refine (h.rings q hq).congr (fun m => ?_) fun m hm => ?_
        · rw [owner_cleared hq]
          exact ⟨fun h => h.2, fun hm => ⟨fun em => e (by rw [← hm, em, ho]), hm⟩⟩
        · -- The links that change belong to PLCI `p`.
          have hmn : m ≠ n := fun em => e (by rw [← hm, em, ho])
          have hmi : m ≠ i := fun em => e (by rw [← hm, em, h4])
          show s.a.ncciNext m = Function.update (Function.update s.a.ncciNext i (s.a.ncciNext n)) n 0 m
          rw [Function.update_of_ne hmn, Function.update_of_ne hmi]

/-- What holds while the NCCIs of `p` are removed: all but the circle of `p`. -/
structure Removing (p : Nat) (s : NcciSt) : Prop where
  maps : Maps s.a.chNcci s.a.ncciCh s.a.ncciPlci
  rings : ∀ q, q ≠ 0 → q ≠ p → RingOf s.a.ncciNext (s.ncciRingList q) s.a.ncciPlci q
  returns : s.hung = false

theorem Removing.turn {p : Nat} (hp : p ≠ 0) (h : Removing p s) (n : Nat) :
    Removing p (removeTurn p false n s) ∧ (removeTurn p false n s).a.ncciPlci n ≠ p ∧
      ∀ m, s.a.ncciPlci m ≠ p → (removeTurn p false n s).a.ncciPlci m ≠ p := by
  unfold removeTurn
  cases ho : s.a.ncciPlci n == p with
  | false =>
    refine ⟨h, ?_, fun m hm => hm⟩
    simpa using ho
  | true =>
    have ho : s.a.ncciPlci n = p := by simpa using ho
    have hn : n ≠ 0 := (h.maps.used n (by rw [ho]; exact hp)).1
    refine ⟨⟨(h.maps.unmap _).clear (h.maps.unmapped hn), fun q hq e => ?_, h.returns⟩, ?_, fun m hm => ?_⟩
    · refine (h.rings q hq e).congr (fun m => ?_) fun m hm => ?_
      · show Function.update s.a.ncciPlci n 0 m = q ↔ _
        rw [owner_cleared hq]
        exact ⟨fun h => h.2, fun hm => ⟨fun em => e (by rw [← hm, em, ho]), hm⟩⟩
      · have hmn : m ≠ n := fun em => e (by rw [← hm, em, ho])
        exact (Function.update_of_ne hmn _ _).symm
    · show Function.update s.a.ncciPlci n 0 n ≠ p
      rw [Function.update_self]
      exact Ne.symm hp
    · show Function.update s.a.ncciPlci n 0 m ≠ p
      rw [ne_eq, owner_cleared hp]
      exact fun h => hm h.2

theorem NcciInv.removeAll (h : NcciInv s) {p : Nat} (hp : p ≠ 0) (preserveNcci : Bool) :
    NcciInv (s.removeAll p preserveNcci) := by
  unfold NcciSt.removeAll
  cases preserveNcci with
  | true =>
    have hturn : ∀ k t, NcciInv t → NcciInv (removeTurn p true k t) := by
      intro k t ht
      unfold removeTurn
      split
      · exact ht.unmap _
      · exact ht
    rw [if_pos rfl]
    unfold forFrom
    exact forTo_keep h fun k t ht => hturn (1 + k) t ht
  | false =>
    have hloop := forTo_invariant (n := maxNcci) (b := fun k => removeTurn p false (1 + k)) (s := s)
      (I := fun k t => Removing p t ∧ ∀ m, m ≠ 0 → m ≤ k → t.a.ncciPlci m ≠ p)
      ⟨⟨h.maps, fun q hq _ => h.rings q hq, h.returns⟩, fun m h0 hm => absurd (Nat.le_zero.1 hm) h0⟩ ?_
    · unfold forFrom
      rw [Nat.add_sub_cancel]
      generalize forTo maxNcci (fun k => removeTurn p false (1 + k)) s = t at hloop ⊢
      obtain ⟨hr, hm⟩ := hloop
      rw [if_neg Bool.false_ne_true]
      refine ⟨hr.maps, fun q hq => ?_, hr.returns⟩
      show RingOf t.a.ncciNext (Function.update t.ncciRingList p 0 q) t.a.ncciPlci q
      by_cases e : q = p
      · subst e
        rw [Function.update_self]
        refine RingOf.empty fun m hmp => ?_
        have hu := hr.maps.used m (by rw [hmp]; exact hq)
        exact hm m hu.1 hu.2.1 hmp
      · rw [Function.update_of_ne e]
        exact hr.rings q hq e
    · intro k t hk ht
      obtain ⟨h1, h2, h3⟩ := ht.1.turn hp (1 + k)
      refine ⟨h1, fun m h0 hm => ?_⟩
      by_cases e : m = 1 + k
      · rw [e]
        exact h2
      · exact h3 m (ht.2 m h0 (by omega))

/-! ## Runs -/

theorem step_ncciInv (s : NcciSt) (e : NcciEv) (h : NcciInv s) (hc : s.Cond e) : NcciInv (s.step e) := by
  unfold NcciSt.step
  rw [h.returns]
  cases e with
  | get plci ch forceNcci => exact h.getNcci hc
  | remove plci ncci preserveNcci =>
    have hp : plci.id ≠ 0 := by have := plci.pos; omega
    show NcciInv (s.ncciRemove _ _ _)
    unfold ncciRemove
    split
    · exact h.removeOne hp _ _
    · exact h.removeAll hp _

theorem init_ncciInv (h : s.Init) : NcciInv s := by
  refine ⟨⟨h.chNcci 0, fun ch hc => absurd (h.chNcci ch) hc, fun n _ hn => absurd (h.ncciPlci n) hn,
    fun n hn => absurd (h.ncciPlci n) hn⟩, fun p hp => ?_, h.hung⟩
  rw [h.ring p]
  exact RingOf.empty fun n => by rw [h.ncciPlci n]; exact Ne.symm hp

/-- The mapping of channels and NCCIs, and the circles of the PLCIs. -/
structure Mapping (s : NcciSt) : Prop where
  inverse : ∀ ch n, s.a.chNcci ch = n → n ≠ 0 → 1 ≤ n ∧ n ≤ maxNcci ∧ s.a.ncciCh n = ch
  injective : ∀ ch ch', s.a.chNcci ch ≠ 0 → s.a.chNcci ch = s.a.chNcci ch' → ch = ch'
  claimed : ∀ n m, s.a.ncciPlci n ≠ 0 → s.a.ncciPlci m ≠ 0 → s.a.ncciCh n = s.a.ncciCh m → n = m
  rings : ∀ p : PlciId, RingOf s.a.ncciNext (s.ncciRingList p.id) s.a.ncciPlci p.id

theorem NcciInv.mapping (h : NcciInv s) : Mapping s := by
  refine ⟨fun ch n hn h0 => ?_, fun ch ch' h0 he => ?_, h.maps.claimed, fun p => h.rings p.id (by have := p.pos; omega)⟩
  · subst hn
    have := h.maps.inverse ch h0
    exact ⟨by omega, this.1, this.2⟩
  · have h1 := (h.maps.inverse ch h0).2
    rw [he] at h0 h1
    rw [← h1, (h.maps.inverse ch' h0).2]

theorem ncci_mapping (s : NcciSt) (h : s.Init) (es : List NcciEv) (hc : Along NcciSt.step Cond s es) :
    Mapping (run NcciSt.step s es) ∧ (run NcciSt.step s es).hung = false := by
  have hi : NcciInv (run NcciSt.step s es) := Along.invariant NcciSt.step step_ncciInv (init_ncciInv h) hc
  exact ⟨hi.mapping, hi.returns⟩

/-! ## Without the condition -/

def emptyNcci : NcciSt where
  a :=
    { id := 1
      maxPlci := 32
      adapterDisabled := false
      chNcci := fun _ => 0
      ncciCh := fun _ => 0
      ncciPlci := fun _ => 0
      ncciState := fun _ => .idle
      ncciNext := fun _ => 0
      ncci := fun _ => ⟨0, 0, 0, 0, fun _ => ⟨0, 0, 0, 0, 0⟩, fun _ => ⟨0, 0⟩⟩
      okFcPending := fun _ => false }
  ncciRingList := fun _ => 0
  mappingBug := 0
  hung := false

theorem emptyNcci_init : emptyNcci.Init := ⟨fun _ => rfl, fun _ => rfl, fun _ => rfl, fun _ => rfl, rfl⟩

def plci1 : PlciId := ⟨1, by decide, by decide⟩
def plci2 : PlciId := ⟨2, by decide, by decide⟩
def noNcci : NcciId := ⟨0, by decide⟩
def ncci1 : NcciId := ⟨1, by decide⟩

/-- An NCCI is preserved and forced to another channel. -/
def forcedBack : List NcciEv := [.get plci1 1 noNcci, .remove plci1 ncci1 true, .get plci1 3 ncci1]

theorem ncci_mapping_forced : Mapping (run NcciSt.step emptyNcci forcedBack) := by
  have hc : Along NcciSt.step Cond emptyNcci forcedBack := by
    refine ⟨fun _ _ => ?_, trivial, fun _ _ => ?_, trivial⟩
    · exact ⟨⟨1, by decide, by decide, rfl⟩, fun n hn => absurd rfl hn⟩
    · refine ⟨fun c => ?_, fun _ n hn hp => absurd ?_ hp⟩
      · show Function.update (Function.update (fun _ => 0) 1 1) 1 0 c ≠ 1
        by_cases e : c = 1
        · simp [e]
        · simp [e]
      · exact Function.update_of_ne hn _ _
  exact (ncci_mapping emptyNcci emptyNcci_init forcedBack hc).1

/-- PLCI 1 maps the channels 1 to `k`. -/
def mapFirst (k : Nat) : List NcciEv := (List.range k).map fun i => .get plci1 (UInt8.ofNat (i + 1)) noNcci

theorem mapFirst_run {k : Nat} (hk : k ≤ maxNcci) :
    (∀ n, (run NcciSt.step emptyNcci (mapFirst k)).a.ncciCh n = if n ≤ k then n else 0) ∧
      (∀ n, (run NcciSt.step emptyNcci (mapFirst k)).a.chNcci n = if n ≤ k then n else 0) ∧
      (run NcciSt.step emptyNcci (mapFirst k)).hung = false := by
  induction k with
  | zero =>
    refine ⟨fun n => ?_, fun n => ?_, rfl⟩
    · show 0 = _
      split <;> omega
    · show 0 = _
      split <;> omega
  | succ k ih =>
    have hm : maxNcci = 127 := rfl
    obtain ⟨h1, h2, h3⟩ := ih (by omega)
    have hev : mapFirst (k + 1) = mapFirst k ++ [.get plci1 (UInt8.ofNat (k + 1)) noNcci] := by
      simp [mapFirst, List.range_succ]
    rw [hev, run_append]
    generalize run NcciSt.step emptyNcci (mapFirst k) = s at h1 h2 h3
    have hch : (UInt8.ofNat (k + 1)).toNat = k + 1 := by
      rw [UInt8.toNat_ofNat']
      omega
    have hmod : (k + 1) % 256 = k + 1 := Nat.mod_eq_of_lt (by omega)
    have hstep : s.step (.get plci1 (UInt8.ofNat (k + 1)) noNcci) = (s.assign 1 (k + 1)).establish (k + 1) (k + 1) := by
      unfold NcciSt.step
      rw [h3]
      show (s.getNcci 1 (UInt8.ofNat (k + 1)).toNat 0).2 = _
      rw [hch]
      have c1 : (k + 1 == 0 || s.a.chNcci (k + 1) != 0) = false := by simp [h2]
      have c2 : (k + 1 < maxNcci + 1 && s.a.ncciCh (k + 1) == 0) = true := by
        simp [h1]
        omega
      unfold NcciSt.getNcci
      rw [c1, c2]
      rfl
    rw [run_cons, run_nil, hstep, assign, ringInsert_eq]
    refine ⟨fun n => ?_, fun n => ?_, h3⟩
    · show Function.update s.a.ncciCh (k + 1) (k + 1) n = _
      by_cases e : n = k + 1
      · simp [e]
      · rw [Function.update_of_ne e, h1]
        split <;> split <;> omega
    · show Function.update s.a.chNcci (k + 1) ((k + 1) % 256) n = _
      rw [hmod]
      by_cases e : n = k + 1
      · simp [e]
      · rw [Function.update_of_ne e, h2]
        split <;> split <;> omega

/-- All NCCIs are taken: the next channel is mapped to an NCCI that does not exist. -/
theorem ncci_overflow :
    emptyNcci.Init ∧ ¬ Mapping (run NcciSt.step emptyNcci (mapFirst maxNcci ++ [.get plci1 200 noNcci])) := by
  refine ⟨emptyNcci_init, fun h => ?_⟩
  obtain ⟨h1, h2, h3⟩ := mapFirst_run (Nat.le_refl maxNcci)
  rw [run_append, run_cons, run_nil] at h
  generalize run NcciSt.step emptyNcci (mapFirst maxNcci) = s at h h1 h2 h3
  have hnone : s.freeNcci = none := by
    rw [freeNcci, List.find?_eq_none]
    intro n hn
    have := mem_nccis.1 hn
    simp [h1, this.1, this.2]
  have hends : s.overflowSearchEnds = true := by
    have hcount : nccis.countP (fun n => s.a.ncciCh n == 1) = nccis.countP (fun n => n == 1) := by
      refine List.countP_congr fun n hn => ?_
      simp [h1, (mem_nccis.1 hn).2]
    rw [overflowSearchEnds, hcount]
    decide
  have hstep : (s.step (.get plci1 200 noNcci)).a.chNcci 200 = 200 := by
    unfold NcciSt.step
    rw [h3]
    show ((s.getNcci 1 200 0).2).a.chNcci 200 = 200
    unfold NcciSt.getNcci
    have c1 : (200 == 0 || s.a.chNcci 200 != 0) = false := by
      rw [h2]
      decide
    have c2 : (decide (200 < maxNcci + 1) && s.a.ncciCh 200 == 0) = false := rfl
    rw [c1, c2, hnone, hends]
    exact Function.update_self 200 200 (s.countBug.assign 1 200).a.chNcci
  exact absurd (h.inverse 200 200 hstep (by decide)).2.1 (by decide)

/-- The channel of a preserved NCCI is given to another PLCI: two NCCIs claim it. -/
theorem preserved_channel_taken :
    ¬ Mapping (run NcciSt.step emptyNcci [.get plci1 1 noNcci, .remove plci1 noNcci true, .get plci2 1 noNcci]) := by
  intro h
  have := h.claimed 1 2 (by decide +kernel) (by decide +kernel) (by decide +kernel)
  cases this

end Divas.Capi
