/-
  Divas.Capi.LiTableRegions — the line interconnect tables stay consistent.

  `LiTableInv` says that every adapter with channels begins where the regions of the
  slots below it end. Adding an adapter shifts the channels behind it up, removing one
  shifts them down again (`shift`); entries, rows and columns move alike.

  Proved: in every run whose steps meet `Cond` the regions are disjoint and cover the
  table, every entry names its adapter, and a step keeps the bytes between channels that
  stay and clears the rows and columns of channels that come (`li_tables`). Without the
  condition a new adapter gets the region of another one (`li_tables_vscapi`).
-/

import Mathlib.Tactic.SplitIfs
import Divas.Capi.LiTable

namespace Divas.Capi

open Divas.Lib.Bytes Divas.Lib.Loop Divas.Lib.Regions Divas.Lib.Run LiTableSt

/-- Where a channel goes when `c` channels come in at `base`. -/
def shift (base c x : Nat) : Nat := if x < base then x else x + c

/-! ## Rows -/

theorem store_first (row : Mem) {bs : List UInt8} {i : Nat} (hi : i < bs.length) : store row 0 bs i = bs.getD i 0 := by
  have h := store_inside row (k := 0) hi
  rwa [Nat.zero_add] at h

theorem addRow_shift {base c k y : Nat} (hk : base + c ≤ k) (hy : y < k - c) (old fresh : Mem) :
    addRow base c k old fresh (shift base c y) = old y := by
  unfold addRow shift
  by_cases hb : y < base
  · have hfirst : store (if base ≠ 0 then store fresh 0 (load old 0 base) else fresh) base (List.replicate c 0) y = old y := by
      rw [store_outside _ (Or.inl hb), if_pos (by omega)]
      rw [store_first _ (by simpa using hb)]
      simp [load, List.getD_eq_getElem?_getD, hb]
    rw [if_pos hb]
    split
    · rw [store_outside _ (Or.inl (by omega)), hfirst]
    · exact hfirst
  · rw [if_neg hb, if_pos (by omega)]
    obtain ⟨d, rfl⟩ := Nat.exists_eq_add_of_le (Nat.not_lt.1 hb)
    have hd : d < k - (base + c) := by omega
    rw [show base + d + c = base + c + d by omega, store_inside _ (by simpa using hd)]
    simp [load, List.getD_eq_getElem?_getD, hd]

theorem addRow_new {base c k o : Nat} (ho : o < c) (old fresh : Mem) : addRow base c k old fresh (base + o) = 0 := by
  have hzero : ∀ row : Mem, store row base (List.replicate c 0) (base + o) = 0 := by
    intro row
    rw [store_inside _ (by simpa using ho)]
    simp [List.getD_eq_getElem?_getD, ho]
  unfold addRow
  split
  · rw [store_outside _ (Or.inl (by omega)), hzero]
  · exact hzero _

theorem newConfig_zero {k x : Nat} (hx : x < k) (slot : Nat) (fresh : LiConfig) :
    (newConfig slot k fresh).flagTable x = 0 ∧ (newConfig slot k fresh).coefTable x = 0 := by
  have hzero : ∀ row : Mem, store row 0 (List.replicate k 0) x = 0 := by
    intro row
    rw [store_first _ (by simpa using hx)]
    simp [List.getD_eq_getElem?_getD, hx]
  exact ⟨hzero _, hzero _⟩

theorem cleanRow_eq {base c k y : Nat} (hy : y < k) (row : Mem) : cleanRow base c k row y = row (shift base c y) := by
  unfold cleanRow shift
  by_cases hb : y < base
  · rw [if_pos hb, store_outside _ (Or.inl hb)]
  · obtain ⟨d, rfl⟩ := Nat.exists_eq_add_of_le (Nat.not_lt.1 hb)
    have hd : d < k - base := by omega
    rw [if_neg hb, store_inside _ (by simpa using hd)]
    simp [load, List.getD_eq_getElem?_getD, hd, Nat.add_right_comm]

/-! ## Tables -/

theorem rebuild_eq (s : LiTableSt) (slot base c k : Nat) (fresh : Nat → LiConfig) {i : Nat} (hi : i < k) :
    (s.rebuild slot base c k fresh).2 i = if base ≤ i ∧ i < base + c then newConfig slot k (fresh i)
      else oldConfig base c k (s.table (if i < base then i else i - c)) (fresh i) := by
  have hloop := forTo_invariant (n := k) (s := (0, fresh))
    (b := fun i t => if base ≤ i ∧ i < base + c then (t.1, Function.update t.2 i (newConfig slot k (fresh i)))
      else (t.1 + 1, Function.update t.2 i (oldConfig base c k (s.table t.1) (fresh i))))
    (I := fun n t => t.1 = (if n ≤ base then n else if n ≤ base + c then base else n - c) ∧
      ∀ i, i < n → t.2 i = if base ≤ i ∧ i < base + c then newConfig slot k (fresh i)
        else oldConfig base c k (s.table (if i < base then i else i - c)) (fresh i))
    ⟨by simp, fun i hi => absurd hi (Nat.not_lt_zero _)⟩ ?_
  · exact hloop.2 i hi
  · intro n t hn h
    obtain ⟨hj, htable⟩ := h
    have hold : ∀ e, (∀ i, i < n → Function.update t.2 n e i = t.2 i) := fun e i hi =>
      Function.update_of_ne (Nat.ne_of_lt hi) _ _
    by_cases hin : base ≤ n ∧ n < base + c
    · rw [if_pos hin]
      refine ⟨?_, fun i hi => ?_⟩
      · show t.1 = _
        rw [hj]
        split_ifs <;> omega
      · rcases Nat.lt_succ_iff_lt_or_eq.1 hi with hi | rfl
        · exact (hold _ i hi).trans (htable i hi)
        · show Function.update t.2 i _ i = _
          rw [Function.update_self, if_pos hin]
    · rw [if_neg hin]
      refine ⟨?_, fun i hi => ?_⟩
      · show t.1 + 1 = _
        rw [hj]
        split_ifs <;> omega
      · rcases Nat.lt_succ_iff_lt_or_eq.1 hi with hi | rfl
        · exact (hold _ i hi).trans (htable i hi)
        · show Function.update t.2 i _ i = _
          have hjn : t.1 = if i < base then i else i - c := by
            rw [hj]
            split_ifs <;> omega
          rw [Function.update_self, if_neg hin, hjn]

theorem rebuild_shift (s : LiTableSt) {slot base c k x : Nat} (fresh : Nat → LiConfig) (hk : base + c ≤ k) (hx : x < k - c) :
    (s.rebuild slot base c k fresh).2 (shift base c x) = oldConfig base c k (s.table x) (fresh (shift base c x)) := by
  have hlt : shift base c x < k := by
    unfold shift
    split <;> omega
  have hout : ¬ (base ≤ shift base c x ∧ shift base c x < base + c) := by
    unfold shift
    split <;> omega
  have hback : (if shift base c x < base then shift base c x else shift base c x - c) = x := by
    unfold shift
    split_ifs <;> omega
  rw [rebuild_eq s slot base c k fresh hlt, if_neg hout, hback]

theorem moveTable_eq {k x : Nat} (hx : x < k) (table : Nat → LiConfig) (base c : Nat) :
    (moveTable table base c k x).adapter = (table (shift base c x)).adapter ∧
    ∀ y, y < k → (moveTable table base c k x).flagTable y = (table (shift base c x)).flagTable (shift base c y) ∧
      (moveTable table base c k x).coefTable y = (table (shift base c x)).coefTable (shift base c y) := by
  have hmoved : (if base ≤ x ∧ x < k then table (x + c) else table x) = table (shift base c x) := by
    unfold shift
    by_cases hb : x < base
    · rw [if_pos hb, if_neg (by omega)]
    · rw [if_neg hb, if_pos ⟨by omega, hx⟩]
  unfold moveTable
  simp only [hmoved, if_pos hx]
  exact ⟨trivial, fun y hy => ⟨cleanRow_eq hy _, cleanRow_eq hy _⟩⟩

/-! ## The invariant -/

structure LiTableInv (s : LiTableSt) : Prop where
  free : ∀ i, (s.adapter i).request = false → s.adapter i = LiAdapter.zero
  used : ∀ i, (s.adapter i).request = true → i < s.maxAdapter
  small : ∀ i, s.chan i ≤ 64
  normal : ∀ i, (s.adapter i).request = true → ((s.adapter i).vscapiMode = true ↔ s.chan i = 0)
  base : ∀ i, s.chan i ≠ 0 → (s.adapter i).liBase = startOf s.chan i
  total : s.liTotalChannels = startOf s.chan s.maxAdapter
  cards : s.maxAdapter ≤ maxCards
  entries : ∀ i o, o < s.chan i → (s.table (startOf s.chan i + o)).adapter = i

variable {s : LiTableSt}

theorem LiTableInv.chan_free (h : LiTableInv s) {i : Nat} (hi : (s.adapter i).request = false) : s.chan i = 0 := by
  unfold chan
  rw [h.free i hi]
  rfl

theorem LiTableInv.present (h : LiTableInv s) {i : Nat} (hi : s.chan i ≠ 0) : (s.adapter i).request = true := by
  rw [← Bool.not_eq_false]
  exact fun hf => hi (h.chan_free hf)

theorem LiTableInv.chan_above (h : LiTableInv s) {i : Nat} (hi : s.maxAdapter ≤ i) : s.chan i = 0 := by
  by_contra hne
  have := h.used i (h.present hne)
  omega

theorem LiTableInv.startOf_above (h : LiTableInv s) {n : Nat} (hn : s.maxAdapter ≤ n) :
    startOf s.chan n = s.liTotalChannels := by
  rw [h.total]
  exact startOf_gap hn fun i h1 _ => h.chan_above h1

theorem LiTableInv.region_le (h : LiTableInv s) (i : Nat) : startOf s.chan i + s.chan i ≤ s.liTotalChannels := by
  rw [← h.startOf_above (n := max s.maxAdapter (i + 1)) (Nat.le_max_left _ _)]
  exact startOf_before (Nat.lt_of_lt_of_le (Nat.lt_succ_self i) (Nat.le_max_right _ _))

theorem LiTableInv.total_le (h : LiTableInv s) : s.liTotalChannels ≤ 6400 := by
  have := startOf_le h.small s.maxAdapter
  have hc := h.cards
  rw [h.total]
  unfold maxCards at hc
  omega

theorem LiTableInv.owns_iff (h : LiTableInv s) {i x : Nat} :
    s.Owns i x ↔ startOf s.chan i ≤ x ∧ x < startOf s.chan i + s.chan i := by
  constructor
  · intro ho
    obtain ⟨h1, h2, h3⟩ := ho
    have hne : s.chan i ≠ 0 := by
      unfold chan
      omega
    rw [h.base i hne] at h2 h3
    exact ⟨h2, h3⟩
  · intro hx
    have hne : s.chan i ≠ 0 := by omega
    refine ⟨h.present hne, ?_⟩
    rw [h.base i hne]
    exact hx

/-- The regions are disjoint, cover the table, and every entry names its adapter. -/
structure Consistent (s : LiTableSt) : Prop where
  cover : ∀ x, x < s.liTotalChannels ↔ ∃ i, s.Owns i x
  disjoint : ∀ i j x, s.Owns i x → s.Owns j x → i = j
  entries : ∀ i x, s.Owns i x → (s.table x).adapter = i

theorem LiTableInv.consistent (h : LiTableInv s) : Consistent s := by
  refine ⟨fun x => ?_, fun i j x hi hj => ?_, fun i x hi => ?_⟩
  · constructor
    · intro hx
      rw [h.total] at hx
      obtain ⟨i, -, hi⟩ := exists_region hx
      exact ⟨i, h.owns_iff.2 hi⟩
    · intro hx
      obtain ⟨i, hi⟩ := hx
      have := h.owns_iff.1 hi
      have := h.region_le i
      omega
  · exact region_unique (h.owns_iff.1 hi) (h.owns_iff.1 hj)
  · obtain ⟨h1, h2⟩ := h.owns_iff.1 hi
    obtain ⟨o, rfl⟩ := Nat.exists_eq_add_of_le h1
    exact h.entries i o (by omega)

theorem start_inv (table : Nat → LiConfig) : LiTableInv (start table) where
  free := fun _ _ => rfl
  used := by
    intro i hi
    exact absurd hi (by simp [start, LiAdapter.zero])
  small := fun _ => Nat.zero_le _
  normal := by
    intro i hi
    exact absurd hi (by simp [start, LiAdapter.zero])
  base := fun _ hi => absurd rfl hi
  total := rfl
  cards := Nat.zero_le _
  entries := fun _ _ ho => absurd ho (Nat.not_lt_zero _)

/-! ## Adding a card -/

theorem baseOf_cases (s : LiTableSt) (slot : Nat) :
    (∃ l, s.LastBelow slot l ∧ s.baseOf slot = ((s.adapter l).liBase + (s.adapter l).liChannels) % 65536) ∨
    (∀ m, m < slot → (s.adapter m).request = false) ∧ s.baseOf slot = 0 := by
  induction slot with
  | zero => exact Or.inr ⟨fun m hm => absurd hm (Nat.not_lt_zero _), rfl⟩
  | succ n ih =>
    have hstep : s.baseOf (n + 1)
        = if (s.adapter n).request then ((s.adapter n).liBase + (s.adapter n).liChannels) % 65536 else s.baseOf n :=
      forTo_succ n _ _
    by_cases hn : (s.adapter n).request = true
    · left
      refine ⟨n, ⟨Nat.lt_succ_self n, hn, fun m h1 h2 => ?_⟩, ?_⟩
      · omega
      · rw [hstep, if_pos hn]
    · rw [hstep, if_neg hn]
      have hfree : (s.adapter n).request = false := Bool.not_eq_true _ ▸ hn
      rcases ih with h | h
      · obtain ⟨l, hl, hb⟩ := h
        obtain ⟨h1, h2, h3⟩ := hl
        refine Or.inl ⟨l, ⟨by omega, h2, fun m hm hm' => ?_⟩, hb⟩
        rcases Nat.lt_succ_iff_lt_or_eq.1 hm' with h4 | rfl
        · exact h3 m hm h4
        · exact hfree
      · obtain ⟨h1, h2⟩ := h
        refine Or.inr ⟨fun m hm => ?_, h2⟩
        rcases Nat.lt_succ_iff_lt_or_eq.1 hm with h4 | rfl
        · exact h1 m h4
        · exact hfree

theorem LiTableInv.startOf_le_total (h : LiTableInv s) (n : Nat) : startOf s.chan n ≤ s.liTotalChannels := by
  rw [← h.startOf_above (n := max s.maxAdapter n) (Nat.le_max_left _ _)]
  exact startOf_mono (Nat.le_max_right _ _)

/-- A new adapter begins where the regions of the slots below it end. -/
theorem LiTableInv.baseOf_eq (h : LiTableInv s) {slot : Nat}
    (hc : ∀ l, s.LastBelow slot l → (s.adapter l).vscapiMode = true → (s.adapter l).liBase = startOf s.chan l) :
    s.baseOf slot = startOf s.chan slot := by
  rcases baseOf_cases s slot with hl | hl
  · obtain ⟨l, hlast, hb⟩ := hl
    have hbase : (s.adapter l).liBase = startOf s.chan l := by
      by_cases hz : s.chan l = 0
      · exact hc l hlast ((h.normal l hlast.2.1).2 hz)
      · exact h.base l hz
    have hgap : startOf s.chan slot = startOf s.chan (l + 1) :=
      startOf_gap hlast.1 fun i h1 h2 => h.chan_free (hlast.2.2 i h1 h2)
    have hnext : startOf s.chan (l + 1) = startOf s.chan l + (s.adapter l).liChannels := rfl
    have hle := h.startOf_le_total slot
    have htotal := h.total_le
    rw [hb, hbase, ← hnext, ← hgap]
    exact Nat.mod_eq_of_lt (by omega)
  · rw [hl.2]
    exact (startOf_gap (Nat.zero_le slot) fun i _ hi => h.chan_free (hl.1 i hi)).symm

/-- What a step does when `c` channels come in at `slot`. -/
structure Inserted (s s' : LiTableSt) (slot c : Nat) : Prop where
  own : ∃ pri, s'.adapter slot = ⟨true, false, pri, c, startOf s.chan slot⟩
  other : ∀ i, i ≠ slot → s'.adapter i
    = if slot < i ∧ (s.adapter i).request = true then (s.adapter i).withBase (((s.adapter i).liBase + c) % 65536) else s.adapter i
  maxAdapter : s'.maxAdapter = if slot = s.maxAdapter then s.maxAdapter + 1 else s.maxAdapter
  liTotalChannels : s'.liTotalChannels = s.liTotalChannels + c
  table : ∃ fresh, s'.table = (s.rebuild slot (startOf s.chan slot) c (s.liTotalChannels + c) fresh).2

theorem LiTableInv.inserted (h : LiTableInv s) {slot : Nat} (pri : Bool) (fresh : Nat → LiConfig)
    (hc : s.Cond (.add slot false pri true true fresh)) :
    Inserted s (s.divaAddCard slot false pri true true fresh) slot
      (if pri then mixerTotalChannelsPri else mixerTotalChannelsBri) := by
  obtain ⟨hfree, hslot, hcards, hbelow⟩ := hc
  have hbase := h.baseOf_eq (hbelow rfl)
  have hmax := h.cards
  have htotal := h.total_le
  have hsmall : (if pri then mixerTotalChannelsPri else mixerTotalChannelsBri) ≤ 64 := by
    cases pri <;> decide
  unfold divaAddCard
  simp only [Bool.not_true, Bool.false_eq_true, if_false, hbase]
  generalize (if pri = true then mixerTotalChannelsPri else mixerTotalChannelsBri) = c at hsmall ⊢
  have hcount : ∀ t : LiTableSt, (t.countAdapter slot).adapter = t.adapter ∧ (t.countAdapter slot).table = t.table ∧
      (t.countAdapter slot).liTotalChannels = t.liTotalChannels ∧
      (t.countAdapter slot).maxAdapter = if slot = t.maxAdapter then (t.maxAdapter + 1) % 256 else t.maxAdapter := by
    intro t
    unfold countAdapter
    split <;> exact ⟨rfl, rfl, rfl, rfl⟩
  refine ⟨⟨pri, ?_⟩, fun i hi => ?_, ?_, ?_, ⟨fresh, ?_⟩⟩
  · rw [(hcount _).1]
    simp [setAdapter, Nat.not_succ_le_self]
  · rw [(hcount _).1]
    simp only [setAdapter, Function.update_of_ne hi]
    by_cases hr : (s.adapter i).request = true
    · have := h.used i hr
      simp [hr, this, Nat.succ_le_iff]
    · simp [hr]
  · rw [(hcount _).2.2.2]
    show (if slot = s.maxAdapter then (s.maxAdapter + 1) % 256 else s.maxAdapter) = _
    unfold maxCards at hmax hcards
    split
    · exact Nat.mod_eq_of_lt (by omega)
    · rfl
  · rw [(hcount _).2.2.1]
    exact Nat.mod_eq_of_lt (by omega)
  · rw [(hcount _).2.1]
    rfl

namespace Inserted

variable {s' : LiTableSt} {slot c : Nat}

theorem chan_eq (hi : Inserted s s' slot c) : s'.chan = Function.update s.chan slot c := by
  funext i
  by_cases hs : i = slot
  · subst hs
    obtain ⟨pri, hown⟩ := hi.own
    rw [Function.update_self]
    unfold chan
    rw [hown]
  · rw [Function.update_of_ne hs]
    unfold chan
    rw [hi.other i hs]
    split <;> rfl

theorem startOf_eq (hi : Inserted s s' slot c) (hfree : s.chan slot = 0) (n : Nat) :
    startOf s'.chan n = startOf s.chan n + if slot < n then c else 0 := by
  have := startOf_update s.chan slot c n
  rw [hi.chan_eq]
  rw [hfree] at this
  simpa using this

/-- A channel that was there before is moved by `shift`. -/
theorem place_eq (hi : Inserted s s' slot c) (hfree : s.chan slot = 0) {i o : Nat} (hs : i ≠ slot) (ho : o < s.chan i) :
    startOf s'.chan i + o = shift (startOf s.chan slot) c (startOf s.chan i + o) := by
  rw [hi.startOf_eq hfree]
  unfold shift
  by_cases hlt : slot < i
  · have := startOf_mono (f := s.chan) (Nat.le_of_lt hlt)
    rw [if_pos hlt, if_neg (by omega)]
    omega
  · have := startOf_before (f := s.chan) (i := i) (j := slot) (by omega)
    rw [if_neg hlt, if_pos (by omega)]
    omega

theorem inv (hi : Inserted s s' slot c) (h : LiTableInv s) (hfree : (s.adapter slot).request = false)
    (hslot : slot ≤ s.maxAdapter) (hcards : slot < maxCards) (hsmall : c ≤ 64) (hpos : c ≠ 0) : LiTableInv s' := by
  obtain ⟨pri, hown⟩ := hi.own
  have hzero := h.chan_free hfree
  have htotal := h.total_le
  have hreq : ∀ i, i ≠ slot → (s'.adapter i).request = (s.adapter i).request := by
    intro i hs
    rw [hi.other i hs]
    split <;> rfl
  have hmax : s.maxAdapter ≤ s'.maxAdapter ∧ slot < s'.maxAdapter := by
    rw [hi.maxAdapter]
    split <;> omega
  refine ⟨fun i hr => ?_, fun i hr => ?_, fun i => ?_, fun i hr => ?_, fun i hne => ?_, ?_, ?_, fun i o ho => ?_⟩
  · have hs : i ≠ slot := by
      rintro rfl
      simp [hown] at hr
    have hr' := (hreq i hs).symm.trans hr
    rw [hi.other i hs, if_neg (by simp [hr'])]
    exact h.free i hr'
  · by_cases hs : i = slot
    · rw [hs]
      exact hmax.2
    · exact Nat.lt_of_lt_of_le (h.used i ((hreq i hs).symm.trans hr)) hmax.1
  · rw [hi.chan_eq]
    by_cases hs : i = slot
    · rw [hs, Function.update_self]
      exact hsmall
    · rw [Function.update_of_ne hs]
      exact h.small i
  · rw [hi.chan_eq]
    by_cases hs : i = slot
    · rw [hs, Function.update_self, hown]
      simp [hpos]
    · rw [Function.update_of_ne hs, ← h.normal i ((hreq i hs).symm.trans hr), hi.other i hs]
      split <;> rfl
  · rw [hi.startOf_eq hzero]
    by_cases hs : i = slot
    · subst hs
      simp [hown]
    · rw [hi.chan_eq, Function.update_of_ne hs] at hne
      have hold := h.base i hne
      have hle := h.startOf_le_total i
      rw [hi.other i hs]
      by_cases hlt : slot < i
      · rw [if_pos ⟨hlt, h.present hne⟩, if_pos hlt, ← hold]
        exact Nat.mod_eq_of_lt (by omega)
      · rw [if_neg (by omega), if_neg hlt]
        exact hold
  · rw [hi.liTotalChannels, hi.startOf_eq hzero, if_pos hmax.2, h.startOf_above hmax.1]
  · have := h.cards
    rw [hi.maxAdapter]
    split <;> omega
  · obtain ⟨fresh, htable⟩ := hi.table
    have hroom := h.startOf_le_total slot
    rw [htable]
    by_cases hs : i = slot
    · subst hs
      rw [hi.chan_eq, Function.update_self] at ho
      rw [hi.startOf_eq hzero, if_neg (Nat.lt_irrefl _), Nat.add_zero, rebuild_eq _ _ _ _ _ _ (by omega),
        if_pos ⟨by omega, by omega⟩]
      rfl
    · rw [hi.chan_eq, Function.update_of_ne hs] at ho
      have := h.region_le i
      rw [hi.place_eq hzero hs ho, rebuild_shift _ _ (by omega) (by omega)]
      exact h.entries i o ho

end Inserted

/-- `diva_add_card` gives up before the adapter counts; an adapter in `vscapi_mode` gets no channels. -/
theorem LiTableInv.vscapi (h : LiTableInv s) {slot : Nat} (hfree : (s.adapter slot).request = false)
    (hslot : slot ≤ s.maxAdapter) (hcards : slot < maxCards) (pri tableOk : Bool) (fresh : Nat → LiConfig) :
    LiTableInv (s.divaAddCard slot true pri true tableOk fresh) ∧
    (s.divaAddCard slot true pri true tableOk fresh).chan = s.chan ∧
    (∀ i, i ≠ slot → (s.divaAddCard slot true pri true tableOk fresh).adapter i = s.adapter i) ∧
    (s.divaAddCard slot true pri true tableOk fresh).table = s.table ∧
    (s.divaAddCard slot true pri true tableOk fresh).liTotalChannels = s.liTotalChannels := by
  have hmax := h.cards
  have hzero := h.chan_free hfree
  have hadd : s.divaAddCard slot true pri true tableOk fresh
      = (s.setAdapter slot ⟨true, true, false, 0, 0⟩).countAdapter slot := rfl
  have hs' : ∃ m, s.divaAddCard slot true pri true tableOk fresh
      = { s.setAdapter slot ⟨true, true, false, 0, 0⟩ with maxAdapter := m } ∧
      s.maxAdapter ≤ m ∧ slot < m ∧ m ≤ maxCards := by
    rw [hadd]
    unfold countAdapter maxCards at *
    by_cases hlast : slot = s.maxAdapter
    · refine ⟨(s.maxAdapter + 1) % 256, if_pos hlast, ?_, ?_, ?_⟩ <;> rw [Nat.mod_eq_of_lt (by omega)] <;> omega
    · exact ⟨s.maxAdapter, if_neg hlast, Nat.le_refl _, by omega, hmax⟩
  obtain ⟨m, hs', hm, hslot', hm'⟩ := hs'
  rw [hs']
  have hother : ∀ i, i ≠ slot → (s.setAdapter slot ⟨true, true, false, 0, 0⟩).adapter i = s.adapter i := fun i hi =>
    Function.update_of_ne hi _ _
  have hown : (s.setAdapter slot ⟨true, true, false, 0, 0⟩).adapter slot = ⟨true, true, false, 0, 0⟩ := Function.update_self _ _ _
  have hchan : ({ s.setAdapter slot ⟨true, true, false, 0, 0⟩ with maxAdapter := m } : LiTableSt).chan = s.chan := by
    funext i
    by_cases hi : i = slot
    · rw [hi, hzero]
      show ((s.setAdapter slot _).adapter slot).liChannels = 0
      rw [hown]
    · show ((s.setAdapter slot _).adapter i).liChannels = (s.adapter i).liChannels
      rw [hother i hi]
  refine ⟨⟨fun i hr => ?_, fun i hr => ?_, fun i => ?_, fun i hr => ?_, fun i hne => ?_, ?_, hm', fun i o ho => ?_⟩,
    hchan, hother, rfl, rfl⟩
  · have hi : i ≠ slot := by
      rintro rfl
      exact absurd (hown ▸ hr) (by decide)
    exact (hother i hi).trans (h.free i ((congrArg _ (hother i hi)).symm.trans hr))
  · by_cases hi : i = slot
    · rw [hi]
      exact hslot'
    · exact Nat.lt_of_lt_of_le (h.used i ((congrArg _ (hother i hi)).symm.trans hr)) hm
  · rw [hchan]
    exact h.small i
  · rw [hchan]
    by_cases hi : i = slot
    · subst hi
      simp [hown, hzero]
    · rw [← h.normal i ((congrArg _ (hother i hi)).symm.trans hr)]
      simp [hother i hi]
  · rw [hchan] at hne ⊢
    have hi : i ≠ slot := by
      rintro rfl
      exact hne hzero
    exact (congrArg _ (hother i hi)).trans (h.base i hne)
  · rw [hchan]
    exact (h.startOf_above hm).symm
  · rw [hchan] at ho ⊢
    exact h.entries i o ho

theorem LiTableInv.refused (h : LiTableInv s) {slot : Nat} (hfree : (s.adapter slot).request = false) :
    s.setAdapter slot LiAdapter.zero = s := by
  have hu : Function.update s.adapter slot LiAdapter.zero = s.adapter := by
    rw [← h.free slot hfree, Function.update_eq_self]
  unfold setAdapter
  rw [hu]

/-! ## Removing a card -/

theorem lastAdapter_le (adapter : Nat → LiAdapter) (n : Nat) : lastAdapter adapter n ≤ n := by
  induction n with
  | zero => exact Nat.le_refl _
  | succ n ih =>
    unfold lastAdapter
    split
    · exact Nat.le_succ_of_le ih
    · exact Nat.le_refl _

theorem lastAdapter_free (adapter : Nat → LiAdapter) {n i : Nat} (hi : lastAdapter adapter n ≤ i) (hn : i < n) :
    (adapter i).request = false := by
  induction n with
  | zero => exact absurd hn (Nat.not_lt_zero _)
  | succ n ih =>
    unfold lastAdapter at hi
    split at hi
    · rename_i hfree
      rcases Nat.lt_succ_iff_lt_or_eq.1 hn with h | rfl
      · exact ih hi h
      · simpa using hfree
    · omega

/-- What a step does when the channels of slot `id` go. -/
structure Removed (s s' : LiTableSt) (id : Nat) : Prop where
  own : s'.adapter id = LiAdapter.zero
  other : ∀ i, i ≠ id → s'.adapter i = if id ≤ i ∧ (s.adapter i).request = true
    then (s.adapter i).withBase (((s.adapter i).liBase + 65536 - s.chan id) % 65536) else s.adapter i
  maxAdapter : s'.maxAdapter = lastAdapter s'.adapter s.maxAdapter
  liTotalChannels : s'.liTotalChannels = s.liTotalChannels - s.chan id
  table : ∀ x, x < s.liTotalChannels - s.chan id →
    (s'.table x).adapter = (s.table (shift (startOf s.chan id) (s.chan id) x)).adapter ∧
    ∀ y, y < s.liTotalChannels - s.chan id →
      (s'.table x).flagTable y =
        (s.table (shift (startOf s.chan id) (s.chan id) x)).flagTable (shift (startOf s.chan id) (s.chan id) y) ∧
      (s'.table x).coefTable y =
        (s.table (shift (startOf s.chan id) (s.chan id) x)).coefTable (shift (startOf s.chan id) (s.chan id) y)

theorem shift_zero (base x : Nat) : shift base 0 x = x := by
  unfold shift
  split <;> rfl

theorem LiTableInv.removed (h : LiTableInv s) (id : Nat) : Removed s (s.cleanAdapter id) id := by
  refine ⟨?_, fun i hi => ?_, ?_, rfl, fun x hx => ?_⟩
  · exact Function.update_self _ _ _
  · have hold : (s.cleanAdapter id).adapter i = if id ≤ i ∧ i < s.maxAdapter ∧ (s.adapter i).request = true
        then (s.adapter i).withBase (((s.adapter i).liBase + 65536 - s.chan id) % 65536) else s.adapter i := by
      unfold cleanAdapter
      simp only [setAdapter, Function.update_of_ne hi]
      split <;> rfl
    rw [hold]
    by_cases hr : (s.adapter i).request = true
    · have := h.used i hr
      simp [hr, this]
    · simp [hr]
  · unfold cleanAdapter
    simp only [setAdapter]
    split <;> rfl
  · have htable : (s.cleanAdapter id).table = if s.liTotalChannels - s.chan id ≠ 0 ∧
      (s.adapter id).liBase < s.liTotalChannels - s.chan id
        then moveTable s.table (s.adapter id).liBase (s.chan id) (s.liTotalChannels - s.chan id) else s.table := by
      unfold cleanAdapter
      simp only [setAdapter]
      split
      · rename_i hc
        exact (if_pos hc).symm
      · rename_i hc
        exact (if_neg hc).symm
    have hplace : ∀ y, y < s.liTotalChannels - s.chan id →
        shift (startOf s.chan id) (s.chan id) y = shift (s.adapter id).liBase (s.chan id) y := by
      intro y _
      by_cases hc : s.chan id = 0
      · rw [hc, shift_zero, shift_zero]
      · rw [h.base id hc]
    rw [htable]
    split
    · rw [hplace x hx]
      have hmoved := moveTable_eq hx s.table (s.adapter id).liBase (s.chan id)
      refine ⟨hmoved.1, fun y hy => ?_⟩
      rw [hplace y hy]
      exact hmoved.2 y hy
    · -- nothing lies behind the region
      rename_i hlast
      have hsame : ∀ y, y < s.liTotalChannels - s.chan id → shift (startOf s.chan id) (s.chan id) y = y := by
        intro y hy
        rw [hplace y hy]
        exact if_pos (by omega)
      rw [hsame x hx]
      refine ⟨rfl, fun y hy => ?_⟩
      rw [hsame y hy]
      exact ⟨rfl, rfl⟩

namespace Removed

variable {s' : LiTableSt} {id : Nat}

theorem chan_eq (hr : Removed s s' id) : s'.chan = Function.update s.chan id 0 := by
  funext i
  by_cases hi : i = id
  · subst hi
    rw [Function.update_self]
    unfold chan
    rw [hr.own]
    rfl
  · rw [Function.update_of_ne hi]
    unfold chan
    rw [hr.other i hi]
    split <;> rfl

theorem startOf_eq (hr : Removed s s' id) (n : Nat) :
    startOf s'.chan n + (if id < n then s.chan id else 0) = startOf s.chan n := by
  have := startOf_update s.chan id 0 n
  rw [hr.chan_eq]
  simpa using this

/-- A channel that stays was at `shift` of its place. -/
theorem place_eq (hr : Removed s s' id) {i o : Nat} (hi : i ≠ id) (ho : o < s.chan i) :
    shift (startOf s.chan id) (s.chan id) (startOf s'.chan i + o) = startOf s.chan i + o := by
  have hstart := hr.startOf_eq i
  unfold shift
  by_cases hlt : id < i
  · have := startOf_before (f := s.chan) hlt
    rw [if_pos hlt] at hstart
    rw [if_neg (by omega)]
    omega
  · have := startOf_before (f := s.chan) (i := i) (j := id) (by omega)
    rw [if_neg hlt] at hstart
    rw [if_pos (by omega)]
    omega

theorem place_lt (hr : Removed s s' id) (h : LiTableInv s) {i o : Nat} (hi : i ≠ id) (ho : o < s.chan i) :
    startOf s'.chan i + o < s.liTotalChannels - s.chan id := by
  have hstart := hr.startOf_eq i
  have hregion := h.region_le i
  have hown := h.region_le id
  by_cases hlt : id < i
  · have := startOf_before (f := s.chan) hlt
    rw [if_pos hlt] at hstart
    omega
  · have := startOf_before (f := s.chan) (i := i) (j := id) (by omega)
    rw [if_neg hlt] at hstart
    omega

theorem inv (hr : Removed s s' id) (h : LiTableInv s) (hid : (s.adapter id).request = true) : LiTableInv s' := by
  have hused := h.used id hid
  have hreq : ∀ i, i ≠ id → (s'.adapter i).request = (s.adapter i).request := by
    intro i hi
    rw [hr.other i hi]
    split <;> rfl
  have hne : ∀ i, (s'.adapter i).request = true → i ≠ id := by
    rintro i hi rfl
    rw [hr.own] at hi
    exact absurd hi (by decide)
  have hmax : s'.maxAdapter ≤ s.maxAdapter := by
    rw [hr.maxAdapter]
    exact lastAdapter_le _ _
  have hlast : ∀ i, s'.maxAdapter ≤ i → i < s.maxAdapter → (s'.adapter i).request = false := by
    intro i h1 h2
    rw [hr.maxAdapter] at h1
    exact lastAdapter_free _ h1 h2
  have hfree : ∀ i, (s'.adapter i).request = false → s'.adapter i = LiAdapter.zero := by
    intro i hi
    by_cases he : i = id
    · rw [he]
      exact hr.own
    · have hi' := (hreq i he).symm.trans hi
      rw [hr.other i he, if_neg (by simp [hi'])]
      exact h.free i hi'
  refine ⟨hfree, fun i hi => ?_, fun i => ?_, fun i hi => ?_, fun i hc => ?_, ?_, Nat.le_trans hmax h.cards, fun i o ho => ?_⟩
  · have hlt := h.used i ((hreq i (hne i hi)).symm.trans hi)
    by_contra hge
    have := hlast i (by omega) hlt
    rw [hi] at this
    cases this
  · rw [hr.chan_eq]
    by_cases he : i = id
    · rw [he, Function.update_self]
      exact Nat.zero_le _
    · rw [Function.update_of_ne he]
      exact h.small i
  · have he := hne i hi
    rw [hr.chan_eq, Function.update_of_ne he, ← h.normal i ((hreq i he).symm.trans hi), hr.other i he]
    split <;> rfl
  · rw [hr.chan_eq] at hc
    by_cases he : i = id
    · rw [he, Function.update_self] at hc
      exact absurd rfl hc
    · rw [Function.update_of_ne he] at hc
      have hstart := hr.startOf_eq i
      have hold := h.base i hc
      have hle := h.startOf_le_total i
      have htotal := h.total_le
      rw [hr.other i he]
      by_cases hlt : id < i
      · rw [if_pos hlt] at hstart
        rw [if_pos ⟨Nat.le_of_lt hlt, h.present hc⟩]
        show ((s.adapter i).liBase + 65536 - s.chan id) % 65536 = _
        rw [hold, show startOf s.chan i + 65536 - s.chan id = startOf s'.chan i + 65536 by omega, Nat.add_mod_right]
        exact Nat.mod_eq_of_lt (by omega)
      · rw [if_neg hlt] at hstart
        rw [if_neg (by omega), hold]
        exact hstart.symm
  · have hstart := hr.startOf_eq s.maxAdapter
    rw [if_pos hused, ← h.total] at hstart
    have hgap : startOf s'.chan s.maxAdapter = startOf s'.chan s'.maxAdapter := by
      refine startOf_gap hmax fun i h1 h2 => ?_
      unfold chan
      rw [hfree i (hlast i h1 h2)]
      rfl
    rw [hr.liTotalChannels, ← hgap]
    omega
  · rw [hr.chan_eq] at ho
    by_cases he : i = id
    · rw [he, Function.update_self] at ho
      exact absurd ho (Nat.not_lt_zero _)
    · rw [Function.update_of_ne he] at ho
      rw [(hr.table _ (hr.place_lt h he ho)).1, hr.place_eq he ho]
      exact h.entries i o ho

end Removed

/-! ## Steps and runs -/

/-- What lies between channel `o` of slot `i` and channel `p` of slot `j`. -/
def flagOf (s : LiTableSt) (i o j p : Nat) : UInt8 := (s.table ((s.adapter i).liBase + o)).flagTable ((s.adapter j).liBase + p)

def coefOf (s : LiTableSt) (i o j p : Nat) : UInt8 := (s.table ((s.adapter i).liBase + o)).coefTable ((s.adapter j).liBase + p)

/-- An adapter that is there before and after a step. -/
def Survives (s s' : LiTableSt) (i : Nat) : Prop := (s.adapter i).request = true ∧ (s'.adapter i).request = true

/-- An adapter that is there after a step only. -/
def Arrives (s s' : LiTableSt) (i : Nat) : Prop := (s.adapter i).request = false ∧ (s'.adapter i).request = true

structure KeepsRows (s s' : LiTableSt) : Prop where
  channels : ∀ i, Survives s s' i → s'.chan i = s.chan i
  bytes : ∀ i j o p, Survives s s' i → Survives s s' j → o < s.chan i → p < s.chan j →
    flagOf s' i o j p = flagOf s i o j p ∧ coefOf s' i o j p = coefOf s i o j p
  zero : ∀ i o x, Arrives s s' i → o < s'.chan i → x < s'.liTotalChannels →
    (s'.table ((s'.adapter i).liBase + o)).flagTable x = 0 ∧ (s'.table ((s'.adapter i).liBase + o)).coefTable x = 0 ∧
    (s'.table x).flagTable ((s'.adapter i).liBase + o) = 0 ∧ (s'.table x).coefTable ((s'.adapter i).liBase + o) = 0

theorem keepsRows_refl (s : LiTableSt) : KeepsRows s s where
  channels := fun _ _ => rfl
  bytes := fun _ _ _ _ _ _ _ _ => ⟨rfl, rfl⟩
  zero := by
    intro i o x ha
    exact absurd (ha.1.symm.trans ha.2) (by decide)

theorem LiTableInv.liBase_eq (h : LiTableInv s) {i o : Nat} (ho : o < s.chan i) : (s.adapter i).liBase = startOf s.chan i :=
  h.base i (by omega)

theorem Inserted.keepsRows {s' : LiTableSt} {slot c : Nat} (hi : Inserted s s' slot c) (h : LiTableInv s) (h' : LiTableInv s')
    (hfree : (s.adapter slot).request = false) : KeepsRows s s' := by
  have hzero := h.chan_free hfree
  have hroom := h.startOf_le_total slot
  obtain ⟨fresh, htable⟩ := hi.table
  have hne : ∀ i, Survives s s' i → i ≠ slot := by
    rintro i hs rfl
    exact absurd (hfree.symm.trans hs.1) (by decide)
  have hchan : ∀ i, i ≠ slot → s'.chan i = s.chan i := by
    intro i hs
    rw [hi.chan_eq, Function.update_of_ne hs]
  have hplace : ∀ i o, i ≠ slot → o < s.chan i → (s'.adapter i).liBase + o
      = shift (startOf s.chan slot) c ((s.adapter i).liBase + o) := by
    intro i o hs ho
    rw [h'.liBase_eq ((hchan i hs).symm ▸ ho), h.liBase_eq ho, hi.place_eq hzero hs ho]
  have hlt : ∀ i o, o < s.chan i → (s.adapter i).liBase + o < s.liTotalChannels := by
    intro i o ho
    have := h.region_le i
    rw [h.liBase_eq ho]
    omega
  refine ⟨fun i hs => hchan i (hne i hs), fun i j o p hsi hsj ho hp => ?_, fun i o x ha ho hx => ?_⟩
  · have hx := hlt i o ho
    have hy := hlt j p hp
    unfold flagOf coefOf
    rw [hplace i o (hne i hsi) ho, hplace j p (hne j hsj) hp, htable, rebuild_shift _ _ (by omega) (by omega)]
    exact ⟨addRow_shift (by omega) (by omega) _ _, addRow_shift (by omega) (by omega) _ _⟩
  · have hs : i = slot := by
      by_contra hs
      have : (s'.adapter i).request = (s.adapter i).request := by
        rw [hi.other i hs]
        split <;> rfl
      rw [ha.1, ha.2] at this
      cases this
    subst hs
    rw [hi.chan_eq, Function.update_self] at ho
    rw [hi.liTotalChannels] at hx
    obtain ⟨pri, hown⟩ := hi.own
    have hbase : (s'.adapter i).liBase = startOf s.chan i := by
      rw [hown]
    have hrow := newConfig_zero hx i (fresh (startOf s.chan i + o))
    rw [hbase, htable, rebuild_eq _ _ _ _ _ _ (by omega), if_pos ⟨by omega, by omega⟩, rebuild_eq _ _ _ _ _ _ hx]
    refine ⟨hrow.1, hrow.2, ?_⟩
    split
    · exact newConfig_zero (by omega) _ _
    · exact ⟨addRow_new ho _ _, addRow_new ho _ _⟩

theorem Removed.keepsRows {s' : LiTableSt} {id : Nat} (hr : Removed s s' id) (h : LiTableInv s) (h' : LiTableInv s') :
    KeepsRows s s' := by
  have hne : ∀ i, (s'.adapter i).request = true → i ≠ id := by
    rintro i hi rfl
    rw [hr.own] at hi
    cases hi
  have hchan : ∀ i, i ≠ id → s'.chan i = s.chan i := by
    intro i hi
    rw [hr.chan_eq, Function.update_of_ne hi]
  refine ⟨fun i hs => hchan i (hne i hs.2), fun i j o p hsi hsj ho hp => ?_, fun i o x ha _ _ => ?_⟩
  · have hi := hne i hsi.2
    have hj := hne j hsj.2
    have hx := hr.place_lt h hi ho
    have hy := hr.place_lt h hj hp
    have htable := (hr.table _ hx).2 _ hy
    rw [hr.place_eq hi ho, hr.place_eq hj hp] at htable
    unfold flagOf coefOf
    rw [h'.liBase_eq ((hchan i hi).symm ▸ ho), h'.liBase_eq ((hchan j hj).symm ▸ hp), h.liBase_eq ho, h.liBase_eq hp]
    exact htable
  · have hi := hne i ha.2
    have : (s'.adapter i).request = (s.adapter i).request := by
      rw [hr.other i hi]
      split <;> rfl
    rw [ha.1, ha.2] at this
    cases this

theorem step_inv {e : LiTableEv} (h : LiTableInv s) (hc : s.Cond e) : LiTableInv (s.step e) ∧ KeepsRows s (s.step e) := by
  cases e with
  | clean id =>
    have hr := h.removed id
    have h' := hr.inv h hc
    exact ⟨h', hr.keepsRows h h'⟩
  | add slot vscapiMode pri plciOk tableOk fresh =>
    obtain ⟨hfree, hslot, hcards, hbelow⟩ := hc
    have hsame := h.refused hfree
    cases plciOk with
    | false =>
      have hs : s.step (.add slot vscapiMode pri false tableOk fresh) = s := hsame
      rw [hs]
      exact ⟨h, keepsRows_refl s⟩
    | true =>
      cases vscapiMode with
      | true =>
        obtain ⟨h', hchan, hother, htable, -⟩ := h.vscapi hfree hslot hcards pri tableOk fresh
        refine ⟨h', ⟨fun i _ => congrFun hchan i, fun i j o p hsi hsj _ _ => ?_, fun i o x ha ho _ => ?_⟩⟩
        · have hne : ∀ i, (s.adapter i).request = true → i ≠ slot := by
            rintro i hs rfl
            exact absurd (hfree.symm.trans hs) (by decide)
          show flagOf (s.divaAddCard slot true pri true tableOk fresh) i o j p = _ ∧
            coefOf (s.divaAddCard slot true pri true tableOk fresh) i o j p = _
          unfold flagOf coefOf
          rw [htable, hother i (hne i hsi.1), hother j (hne j hsj.1)]
          exact ⟨rfl, rfl⟩
        · have hnone := h.chan_free ha.1
          have ho' : o < s.chan i := (congrFun hchan i) ▸ ho
          omega
      | false =>
        cases tableOk with
        | false =>
          have hs : s.step (.add slot false pri true false fresh) = s := hsame
          rw [hs]
          exact ⟨h, keepsRows_refl s⟩
        | true =>
          have hi := h.inserted pri fresh ⟨hfree, hslot, hcards, hbelow⟩
          have h' := hi.inv h hfree hslot hcards (by cases pri <;> decide) (by cases pri <;> decide)
          exact ⟨h', hi.keepsRows h h' hfree⟩

/-- The tables stay consistent in every run whose steps meet the condition, and its next
    step keeps the rows too. -/
theorem li_tables (table : Nat → LiConfig) (es : List LiTableEv) (hc : Along step Cond (start table) es) :
    Consistent (run step (start table) es) ∧
    ∀ e, Cond (run step (start table) es) e → KeepsRows (run step (start table) es) (step (run step (start table) es) e) := by
  have h : LiTableInv (run step (start table) es) :=
    Along.invariant step (I := LiTableInv) (fun _ _ h hc => (step_inv h hc).1) (start_inv table) hc
  exact ⟨h.consistent, fun e he => (step_inv h he).2⟩

/-- Rows that nobody has written. -/
def blankConfig : LiConfig := ⟨0, 0, 0, 0, 0, 0, fun _ => 0, fun _ => 0⟩

/-- A normal adapter, one in `vscapi_mode`, and a normal one behind it. -/
def vscapiBetween : List LiTableEv :=
  [.add 0 false false true true (fun _ => blankConfig), .add 1 true false true true (fun _ => blankConfig),
    .add 2 false false true true (fun _ => blankConfig)]

/-- Two normal adapters; the first one goes. -/
def twoCards : List LiTableEv :=
  [.add 0 false false true true (fun _ => blankConfig), .add 1 false true true true (fun _ => blankConfig), .clean 0]

theorem li_tables_twoCards : Along step Cond (start fun _ => blankConfig) twoCards ∧
    Consistent (run step (start fun _ => blankConfig) twoCards) := by
  have hc : Along step Cond (start fun _ => blankConfig) twoCards := by
    refine ⟨⟨rfl, by decide, by decide, fun _ l hl => ?_⟩, ⟨rfl, by decide, by decide, fun _ l hl hv => ?_⟩, rfl, trivial⟩
    · exact absurd hl.1 (Nat.not_lt_zero _)
    · have h0 : l = 0 := Nat.lt_one_iff.1 hl.1
      rw [h0] at hv
      exact absurd hv (by decide)
  exact ⟨hc, (li_tables _ _ hc).1⟩

/-- Behind an adapter in `vscapi_mode` the third one gets the channels of the first. -/
theorem li_tables_vscapi : ¬ Consistent (run step (start fun _ => blankConfig) vscapiBetween) := by
  intro h
  have h0 : Owns (run step (start fun _ => blankConfig) vscapiBetween) 0 0 := by
    refine ⟨?_, ?_, ?_⟩ <;> decide
  have h2 : Owns (run step (start fun _ => blankConfig) vscapiBetween) 2 0 := by
    refine ⟨?_, ?_, ?_⟩ <;> decide
  exact absurd (h.disjoint 0 2 0 h0 h2) (by decide)

end Divas.Capi
