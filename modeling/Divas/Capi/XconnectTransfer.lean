/-
  Divas.Capi.XconnectTransfer — a transfer of the coefficients is complete
  (`xconnect_write_coefs`, `xconnect_write_coefs_process`).

  A transfer is the calls from `xconnect_write_coefs` on, each answered with OK and none
  delayed, until one makes no request. The bits of a coefficient that may be written are
  `allowed`; what is due is a list of pairs of a source channel and an entry of
  `xconnect_write_prog`. A call writes the first sixteen of the list, in its order, and
  leaves the others, so the calls are the batches of the list.

  Proved: a transfer ends, its records are those that were due and no others, each request
  fits into the buffer, and afterwards no allowed bit differs (`coefs_transferred`). The
  channels are at most 6400 (`LiTableInv.total_le`), so `li_total_channels + 1` is a word.
-/

import Mathlib.Data.List.Nodup
import Mathlib.Data.List.ProdSigma
import Divas.Lib.Batches
import Divas.Capi.Xconnect

namespace Divas.Capi

open Divas.Lib.Bytes Divas.Lib.Flags Divas.Lib.Batches

/-! ## Bits -/

theorem forall_byte {P : UInt8 → Prop} (h : ∀ n : Fin 256, P (UInt8.ofFin n)) (x : UInt8) : P x := by
  simpa using h x.toFin

section Bits

variable {e e' : XconnectProg}

theorem and_mask (he : e ∈ xconnectWriteProg) : ∀ x : UInt8, x &&& e.mask = 0 ∨ x &&& e.mask = e.mask := by
  apply forall_byte
  revert he e
  decide +kernel

theorem mask_ne_zero (he : e ∈ xconnectWriteProg) : e.mask ≠ 0 := by
  revert he e
  decide

/-- The masks have one bit each. -/
theorem has_and_mask (he : e ∈ xconnectWriteProg) (x y : UInt8) : has (x &&& y) e.mask = (has x e.mask && has y e.mask) := by
  have hm := mask_ne_zero he
  simp only [has, and_and_mask x y]
  rcases and_mask he x with hx | hx
  · simp [hx]
  · rcases and_mask he y with hy | hy <;> simp [hx, hy]

theorem mask_and_mask (he : e ∈ xconnectWriteProg) (he' : e' ∈ xconnectWriteProg) :
    e.mask &&& e'.mask = if e' = e then e'.mask else 0 := by
  revert he' e'
  revert he e
  decide

theorem has_xor_mask (he : e ∈ xconnectWriteProg) (he' : e' ∈ xconnectWriteProg) (x : UInt8) :
    has (x ^^^ e.mask) e'.mask = (has x e'.mask ^^ decide (e' = e)) := by
  have hm := mask_ne_zero he'
  unfold has
  rw [xor_and, mask_and_mask he he']
  by_cases heq : e' = e
  · subst heq
    rcases and_mask he x with hx | hx <;> simp [hx, hm]
  · simp [heq]

theorem mask_low (he : e ∈ xconnectWriteProg) : e.mask &&& 0xf = e.mask := by
  revert he e
  decide

theorem nibbles : ∀ m : UInt8, (m <<< (4 : UInt8)) &&& 0xf = 0 ∧ m <<< (4 : UInt8) >>> (4 : UInt8) = m &&& 0xf ∧
    coefDiff m &&& liCoefAll = coefDiff m := by
  apply forall_byte
  decide +kernel

/-- The wanted bits are in the low nibble, and a toggle is in the high one. -/
theorem toggled_low (c m : UInt8) : (c ^^^ (m <<< (4 : UInt8))) &&& 0xf = c &&& 0xf := by
  rw [xor_and, (nibbles m).1, UInt8.xor_zero]

theorem coefDiff_toggled (c m : UInt8) : coefDiff (c ^^^ (m <<< (4 : UInt8))) = coefDiff c ^^^ (m &&& 0xf) := by
  unfold coefDiff
  rw [toggled_low, UInt8.shiftRight_xor, (nibbles m).2.1, UInt8.xor_assoc]

theorem coefDiff_and_all (c : UInt8) : coefDiff c &&& liCoefAll = coefDiff c := (nibbles c).2.2

theorem no_mask_iff : ∀ x : UInt8, (∀ e ∈ xconnectWriteProg, has x e.mask = false) ↔ x &&& liCoefAll = 0 := by
  apply forall_byte
  decide +kernel

theorem has_wanted (he : e ∈ xconnectWriteProg) {c c' : UInt8} (h : c' &&& 0xf = c &&& 0xf) : has c' e.mask = has c e.mask :=
  has_congr h (by rw [UInt8.and_comm, mask_low he])

end Bits

namespace XSt

/-! ## What is due -/

/-- The bits of a coefficient that may be written: none for a source channel without
    addresses, an IC channel or one on another card; for a channel of another adapter what
    the addresses of both sides allow. -/
def allowed (s : XSt) (i j : Nat) : UInt8 :=
  if has (s.table j).channel liChannelAddressesSet = false ∨ s.icChannel j = true ∨ s.cardsApart i j = true then 0
  else if s.otherAdapter j then s.destMask i &&& s.sourceMask j else liCoefAll

def isDue (s : XSt) (coef : Nat → Nat → UInt8) (i : Nat) (x : Nat × XconnectProg) : Bool :=
  has (coefDiff (coef i x.1) &&& s.allowed i x.1) x.2.mask

/-- What is due of `n` channels from `j` on, in the order of the loops. -/
def due (s : XSt) (coef : Nat → Nat → UInt8) (i j n : Nat) : List (Nat × XconnectProg) :=
  ((List.range' j n) ×ˢ xconnectWriteProg).filter (s.isDue coef i)

/-- The records of entries, with the table as it is. -/
def records (s : XSt) (b : List (Nat × XconnectProg)) : List (List UInt8) :=
  b.map fun x => s.record s.own x.1 x.2 (s.coefTable s.own x.1)

/-- The records of what is due. -/
def dueRecords (s : XSt) : List (List UInt8) := s.records (s.due s.coefTable s.own 0 s.liTotalChannels)

variable {s : XSt} {coef coef' : Nat → Nat → UInt8} {i j n : Nat} {x y : Nat × XconnectProg} {r : UInt8}

theorem mem_due (h : x ∈ s.due coef i j n) : x.2 ∈ xconnectWriteProg ∧ s.isDue coef i x = true := by
  obtain ⟨hx, hdue⟩ := List.mem_filter.mp h
  exact ⟨(List.mem_product.mp hx).2, hdue⟩

theorem due_add (a b : Nat) : s.due coef i j (a + b) = s.due coef i j a ++ s.due coef i (j + a) b := by
  have h : List.range' j (a + b) = List.range' j a ++ List.range' (j + a) b := by simp
  unfold due
  rw [h]
  simp only [SProd.sprod, List.product, List.flatMap_append, List.filter_append]

theorem due_one : s.due coef i j 1 = (xconnectWriteProg.filter fun e => s.isDue coef i (j, e)).map (j, ·) := by
  simp [due, SProd.sprod, List.product, List.filter_map, Function.comp_def]

/-- Nothing is due of a channel where no allowed bit differs. -/
theorem due_one_eq_nil : s.due coef i j 1 = [] ↔ coefDiff (coef i j) &&& s.allowed i j = 0 := by
  have hall : (coefDiff (coef i j) &&& s.allowed i j) &&& liCoefAll = coefDiff (coef i j) &&& s.allowed i j := by
    rw [UInt8.and_comm (coefDiff _), UInt8.and_assoc, coefDiff_and_all]
  rw [due_one, List.map_eq_nil_iff, List.filter_eq_nil_iff]
  simp only [isDue, Bool.not_eq_true]
  rw [no_mask_iff, hall]

/-! ## The channels that are passed -/

/-- The loops pass the channels of which nothing is due. -/
theorem skips_iff : s.skips i j (coefDiff (coef i j)) = true ↔ s.due coef i j 1 = [] := by
  rw [due_one_eq_nil]
  unfold skips allowed
  by_cases h0 : coefDiff (coef i j) = 0
  · simp [h0]
  · cases has (s.table j).channel liChannelAddressesSet <;> cases s.icChannel j <;> cases s.cardsApart i j <;>
      cases s.otherAdapter j <;> simp [h0, coefDiff_and_all, UInt8.and_assoc]

/-- The mask of a channel that is not passed. -/
theorem effective (h : s.due coef i j 1 ≠ []) :
    (if s.otherAdapter j then coefDiff (coef i j) &&& s.destMask i &&& s.sourceMask j else coefDiff (coef i j))
      = coefDiff (coef i j) &&& s.allowed i j := by
  rw [ne_eq, due_one_eq_nil] at h
  unfold allowed at h ⊢
  split at h
  · simp at h
  · rename_i hnone
    rw [if_neg hnone]
    split <;> simp [coefDiff_and_all, UInt8.and_assoc]

/-- What is due stands behind the channels of which nothing is due. -/
theorem due_succ (h : s.due coef i j 1 = []) (hj : j < n) : s.due coef i j (n - j) = s.due coef i (j + 1) (n - (j + 1)) := by
  have hn : n - j = 1 + (n - (j + 1)) := by omega
  rw [hn, due_add, h, List.nil_append]

theorem scan_spec (m : Nat) : ∀ (j : Nat) (r : UInt8), j ≤ s.liTotalChannels → s.liTotalChannels - j ≤ m →
    (j < s.liTotalChannels → r = coefDiff (coef i j)) →
    ∃ j' r', s.scan coef i m (j, r) = (j', r') ∧ j ≤ j' ∧ j' ≤ s.liTotalChannels ∧
      (j' < s.liTotalChannels → r' = coefDiff (coef i j') ∧ s.due coef i j' 1 ≠ []) ∧
      s.due coef i j (s.liTotalChannels - j) = s.due coef i j' (s.liTotalChannels - j') := by
  induction m with
  | zero =>
    intro j r hj hm _
    exact ⟨j, r, rfl, Nat.le_refl j, hj, fun h => by omega, rfl⟩
  | succ m ih =>
    intro j r hj hm hr
    by_cases hgo : j < s.liTotalChannels ∧ s.skips i j r = true
    · obtain ⟨hlt, hskip⟩ := hgo
      obtain ⟨j', r', hscan, hle, hN, hstop, hdue⟩ :=
        ih (j + 1) (s.advance coef i j r).2 hlt (by omega) (by simp +contextual [advance])
      refine ⟨j', r', ?_, by omega, hN, hstop, ?_⟩
      · rw [← hscan, scan, if_pos ⟨hlt, hskip⟩]
        rfl
      · rw [hr hlt, skips_iff] at hskip
        rw [due_succ hskip hlt, hdue]
    · refine ⟨j, r, by rw [scan, if_neg hgo], Nat.le_refl j, hj, ?_, rfl⟩
      intro hlt
      refine ⟨hr hlt, ?_⟩
      rw [ne_eq, ← skips_iff, ← hr hlt]
      exact fun h => hgo ⟨hlt, h⟩

/-! ## The records that are written -/

/-- The coefficients keep what is wanted. -/
def SameWanted (coef coef' : Nat → Nat → UInt8) : Prop := ∀ i j, coef' i j &&& 0xf = coef i j &&& 0xf

theorem toggle_self (coef : Nat → Nat → UInt8) (i j : Nat) (m : UInt8) :
    toggle coef i j m i j = coef i j ^^^ (m <<< (4 : UInt8)) := by
  simp [toggle]

theorem toggle_other {k l : Nat} (h : ¬ (k = i ∧ l = j)) (m : UInt8) : toggle coef i j m k l = coef k l := by
  unfold toggle
  by_cases hk : k = i
  · subst hk
    have hl : l ≠ j := fun hl => h ⟨rfl, hl⟩
    simp [hl]
  · simp [hk]

theorem toggle_wanted (coef : Nat → Nat → UInt8) (i j : Nat) (m : UInt8) : SameWanted coef (toggle coef i j m) := by
  intro k l
  by_cases h : k = i ∧ l = j
  · rw [h.1, h.2, toggle_self, toggled_low]
  · rw [toggle_other h]

/-- A record takes what was written off the list, and nothing else. -/
theorem isDue_toggle (hx : x.2 ∈ xconnectWriteProg) (hy : y.2 ∈ xconnectWriteProg) (hdue : s.isDue coef i x = true) :
    s.isDue (toggle coef i x.1 x.2.mask) i y = (s.isDue coef i y && decide (y ≠ x)) := by
  by_cases h : y.1 = x.1
  · have hxy : y = x ↔ y.2 = x.2 := by simp [Prod.ext_iff, h]
    unfold isDue at hdue ⊢
    rw [has_and_mask hx, Bool.and_eq_true] at hdue
    rw [h, toggle_self, coefDiff_toggled, mask_low hx, has_and_mask hy, has_and_mask hy, has_xor_mask hx hy]
    simp only [ne_eq, hxy]
    by_cases he : y.2 = x.2
    · simp [he, hdue]
    · simp [he]
  · have hne : y ≠ x := fun hxy => h (congrArg Prod.fst hxy)
    unfold isDue
    rw [toggle_other (fun hh => h hh.2)]
    simp [hne]

theorem due_nodup : (s.due coef i j n).Nodup := by
  have hprod : ((List.range' j n) ×ˢ xconnectWriteProg).Nodup := List.Nodup.product List.nodup_range' (by decide)
  exact hprod.filter _

theorem due_toggle {l : List (Nat × XconnectProg)} (h : s.due coef i j n = x :: l) :
    s.due (toggle coef i x.1 x.2.mask) i j n = l := by
  have hx : x ∈ s.due coef i j n := by simp [h]
  obtain ⟨hprog, hdue⟩ := mem_due hx
  have hnodup : (x :: l).Nodup := h ▸ due_nodup
  have hnot : x ∉ l := (List.nodup_cons.mp hnodup).1
  have hfilter : s.due (toggle coef i x.1 x.2.mask) i j n = (s.due coef i j n).filter fun y => decide (y ≠ x) := by
    unfold due
    rw [List.filter_filter]
    apply List.filter_congr
    intro y hy
    rw [isDue_toggle hprog (List.mem_product.mp hy).2 hdue, Bool.and_comm]
  rw [hfilter, h, List.filter_cons_of_neg (by simp)]
  apply List.filter_eq_self.mpr
  intro y hy
  have hne : y ≠ x := fun hyx => hnot (hyx ▸ hy)
  simpa using hne

/-- The records of a list are written, one after the other. -/
def putAll (s : XSt) (i : Nat) (f : Filling) (l : List (Nat × XconnectProg)) : Filling :=
  l.foldl (fun f x => s.put i x.1 x.2 f) f

variable {f : Filling} {l l' : List (Nat × XconnectProg)}

@[simp] theorem putAll_nil : s.putAll i f [] = f := rfl

@[simp] theorem putAll_cons : s.putAll i f (x :: l) = s.putAll i (s.put i x.1 x.2 f) l := rfl

theorem putAll_append : s.putAll i f (l ++ l') = s.putAll i (s.putAll i f l) l' := List.foldl_append

@[simp] theorem record_length (e : XconnectProg) (c : UInt8) : (s.record i j e c).length = 16 := by simp [record]

@[simp] theorem putAll_length : (s.putAll i f l).p.length = f.p.length + 16 * l.length := by
  induction l generalizing f with
  | nil => rfl
  | cons x l ih =>
    rw [putAll_cons, ih]
    simp [put]
    omega

theorem SameWanted.trans {coef₁ coef₂ coef₃ : Nat → Nat → UInt8} (h : SameWanted coef₁ coef₂) (h' : SameWanted coef₂ coef₃) :
    SameWanted coef₁ coef₃ := fun i j => (h' i j).trans (h i j)

theorem putAll_wanted : SameWanted f.coef (s.putAll i f l).coef := by
  induction l generalizing f with
  | nil => exact fun _ _ => rfl
  | cons x l ih =>
    have hput := toggle_wanted f.coef i x.1 x.2.mask
    exact hput.trans ih

/-- A record says what is wanted, and the toggles keep that. -/
theorem record_wanted (hx : x.2 ∈ xconnectWriteProg) (h : SameWanted coef coef') :
    s.record i x.1 x.2 (coef' i x.1) = s.record i x.1 x.2 (coef i x.1) := by
  unfold record
  rw [has_wanted hx (h i x.1)]

theorem putAll_bytes (hl : ∀ x ∈ l, x.2 ∈ xconnectWriteProg) :
    (s.putAll i f l).p = f.p ++ l.flatMap fun x => s.record i x.1 x.2 (f.coef i x.1) := by
  induction l generalizing f with
  | nil => simp
  | cons x l ih =>
    have hput := toggle_wanted f.coef i x.1 x.2.mask
    have hrest : (l.flatMap fun y => s.record i y.1 y.2 ((s.put i x.1 x.2 f).coef i y.1))
        = l.flatMap fun y => s.record i y.1 y.2 (f.coef i y.1) := by
      apply List.flatMap_congr
      intro y hy
      exact record_wanted (hl y (List.mem_cons_of_mem x hy)) hput
    rw [putAll_cons, ih (fun y hy => hl y (List.mem_cons_of_mem x hy)), hrest]
    simp [put]

/-- What is written off the front of the list leaves the others. -/
theorem due_putAll (h : s.due f.coef i j n = l ++ l') : s.due (s.putAll i f l).coef i j n = l' := by
  induction l generalizing f with
  | nil => exact h
  | cons x l ih => exact ih (due_toggle h)

/-! ## A request -/

/-- The buffer has one byte and `k` records. -/
theorem room_iff {k : Nat} (hk : k ≤ 16) (h : f.p.length = 1 + 16 * k) : f.room = true ↔ k < 16 := by
  unfold Filling.room internalReqBufferSize
  rw [h, decide_eq_true_eq]
  omega

/-- The loop over `xconnect_write_prog` ends with it, or with the buffer full. -/
theorem writeProg_spec (r : UInt8) : ∀ (es : List XconnectProg) (f : Filling) (k : Nat), f.p.length = 1 + 16 * k → k < 16 →
    ∃ es' rest, es = es' ++ rest ∧
      s.writeProg i j r es f = (rest, s.putAll i f ((es'.filter fun e => has r e.mask).map (j, ·))) ∧
      k + (es'.filter fun e => has r e.mask).length ≤ 16 ∧
      (rest = [] ∨ k + (es'.filter fun e => has r e.mask).length = 16) := by
  intro es
  induction es with
  | nil =>
    intro f k _ hk
    exact ⟨[], [], rfl, rfl, by simp; omega, .inl rfl⟩
  | cons e es ih =>
    intro f k hf hk
    let f₁ := if has r e.mask then s.put i j e f else f
    let k₁ := if has r e.mask then k + 1 else k
    have hf₁ : f₁.p.length = 1 + 16 * k₁ := by
      by_cases he : has r e.mask = true
      · simp [f₁, k₁, he, put, hf]
        omega
      · simp [f₁, k₁, he, hf]
    have hk₁ : k₁ ≤ 16 := by
      simp only [k₁]
      split <;> omega
    have hput : ∀ es' : List XconnectProg,
        s.putAll i f₁ ((es'.filter fun e => has r e.mask).map (j, ·))
          = s.putAll i f (((e :: es').filter fun e => has r e.mask).map (j, ·)) := by
      intro es'
      by_cases he : has r e.mask = true <;> simp [f₁, he]
    have hcount : ∀ es' : List XconnectProg,
        k₁ + (es'.filter fun e => has r e.mask).length = k + ((e :: es').filter fun e => has r e.mask).length := by
      intro es'
      by_cases he : has r e.mask = true
      · simp [k₁, he]
        omega
      · simp [k₁, he]
    have hwrite : s.writeProg i j r (e :: es) f = if es ≠ [] ∧ f₁.room = true then s.writeProg i j r es f₁ else (es, f₁) := rfl
    by_cases hgo : es ≠ [] ∧ f₁.room = true
    · obtain ⟨es', rest, hes, heq, hle, hstop⟩ := ih f₁ k₁ hf₁ ((room_iff hk₁ hf₁).1 hgo.2)
      rw [hput] at heq
      rw [hcount] at hle hstop
      exact ⟨e :: es', rest, by rw [hes, List.cons_append], by rw [hwrite, if_pos hgo, heq], hle, hstop⟩
    · have hnil : (([] : List XconnectProg).filter fun e => has r e.mask) = [] := rfl
      refine ⟨[e], es, rfl, by rw [hwrite, if_neg hgo, ← hput]; rfl, by rw [← hcount, hnil]; exact hk₁, ?_⟩
      rw [← hcount, hnil, List.length_nil, Nat.add_zero]
      by_cases hes : es = []
      · exact .inl hes
      · have hfull : ¬ f₁.room = true := fun h => hgo ⟨hes, h⟩
        rw [room_iff hk₁ hf₁] at hfull
        exact .inr (by omega)

/-- A turn writes what is due of the channel, or the first of it that fits. -/
theorem turn_spec {k : Nat} (hdue : s.due f.coef i j 1 ≠ []) (hf : f.p.length = 1 + 16 * k) (hk : k < 16) :
    ∃ rest l l', s.due f.coef i j 1 = l ++ l' ∧
      s.writeProg i j (if s.otherAdapter j then coefDiff (f.coef i j) &&& s.destMask i &&& s.sourceMask j
        else coefDiff (f.coef i j))
        xconnectWriteProg f = (rest, s.putAll i f l) ∧
      k + l.length ≤ 16 ∧ (rest = [] → l' = []) ∧ (rest = [] ∨ k + l.length = 16) := by
  rw [effective hdue]
  obtain ⟨es', rest, hes, heq, hle, hstop⟩ := writeProg_spec (s := s) (i := i) (j := j)
    (coefDiff (f.coef i j) &&& s.allowed i j) xconnectWriteProg f k hf hk
  refine ⟨rest, _, (rest.filter fun e => s.isDue f.coef i (j, e)).map (j, ·), ?_, heq, by simpa using hle,
    ?_, by simpa using hstop⟩
  · rw [due_one]
    conv_lhs => rw [hes, List.filter_append, List.map_append]
    rfl
  · intro h
    simp [h]

/-- The outer loop writes the first of what is due, until the channels end or the buffer is
    full, and it is at the channel of what comes next. -/
theorem fill_spec (m : Nat) : ∀ (j k : Nat) (f : Filling), j < s.liTotalChannels → s.liTotalChannels - j ≤ m →
    s.due f.coef i j 1 ≠ [] → f.p.length = 1 + 16 * k → k < 16 →
    ∃ j' l l', s.fill i m (j, coefDiff (f.coef i j)) f = (j', s.putAll i f l) ∧
      s.due f.coef i j (s.liTotalChannels - j) = l ++ l' ∧ j' ≤ s.liTotalChannels ∧
      l' = s.due (s.putAll i f l).coef i j' (s.liTotalChannels - j') ∧
      k + l.length ≤ 16 ∧ (l' = [] ∨ k + l.length = 16) := by
  induction m with
  | zero => intro j k f hj hm; omega
  | succ m ih =>
    intro j k f hj hm hdue hf hk
    obtain ⟨rest, l₁, l₁', hl₁, hwrite, hle, hrest, hstop⟩ := turn_spec hdue hf hk
    have hsplit : s.due f.coef i j (s.liTotalChannels - j)
        = l₁ ++ (l₁' ++ s.due f.coef i (j + 1) (s.liTotalChannels - (j + 1))) := by
      have hn : s.liTotalChannels - j = 1 + (s.liTotalChannels - (j + 1)) := by omega
      rw [hn, due_add, hl₁, List.append_assoc]
    have hafter := due_putAll hsplit
    have hlen : (s.putAll i f l₁).p.length = 1 + 16 * (k + l₁.length) := by
      rw [putAll_length, hf]
      omega
    by_cases hnil : rest = []
    · -- The channel is done, and the loop goes to the next one that is not passed.
      obtain ⟨j₁, r₁, hscan, hj₁, hN, hnext, hskip⟩ := @scan_spec s (s.putAll i f l₁).coef i
        s.liTotalChannels (j + 1) (s.advance (s.putAll i f l₁).coef i j
          (if s.otherAdapter j then coefDiff (f.coef i j) &&& s.destMask i &&& s.sourceMask j else coefDiff (f.coef i j))).2
        hj (by omega) (by simp +contextual [advance])
      have hdone : s.due (s.putAll i f l₁).coef i j 1 = [] := due_putAll (by rw [hl₁, hrest hnil])
      have hj₁due : s.due (s.putAll i f l₁).coef i j (s.liTotalChannels - j)
          = s.due (s.putAll i f l₁).coef i j₁ (s.liTotalChannels - j₁) := by rw [due_succ hdone hj, hskip]
      have hfill : s.fill i (m + 1) (j, coefDiff (f.coef i j)) f =
          if j₁ < s.liTotalChannels ∧ (s.putAll i f l₁).room = true then s.fill i m (j₁, r₁) (s.putAll i f l₁)
          else (j₁, s.putAll i f l₁) := by
        simp only [fill, hwrite, hnil, if_true]
        rw [show s.scan (s.putAll i f l₁).coef i s.liTotalChannels (s.advance (s.putAll i f l₁).coef i j _) = (j₁, r₁) from hscan]
      by_cases hgo : j₁ < s.liTotalChannels ∧ (s.putAll i f l₁).room = true
      · obtain ⟨hr, hne⟩ := hnext hgo.1
        obtain ⟨j', l₂, l₂', heq, hl₂, hj', hl', hle', hstop'⟩ :=
          ih j₁ (k + l₁.length) (s.putAll i f l₁) hgo.1 (by omega) hne hlen
          ((room_iff hle hlen).1 hgo.2)
        rw [← putAll_append] at heq hl'
        refine ⟨j', l₁ ++ l₂, l₂', ?_, ?_, hj', hl', by simp; omega, hstop'.imp_right fun h => by simp; omega⟩
        · rw [hfill, if_pos hgo, hr, heq]
        · rw [hsplit, ← hafter, hj₁due, hl₂, List.append_assoc]
      · refine ⟨j₁, l₁, _, by rw [hfill, if_neg hgo], hsplit, hN, by rw [← hafter, hj₁due], hle, ?_⟩
        rw [← hafter, hj₁due]
        rw [room_iff hle hlen] at hgo
        by_cases hlt : j₁ < s.liTotalChannels
        · exact .inr (by omega)
        · left
          rw [show s.liTotalChannels - j₁ = 0 by omega]
          rfl
    · -- The buffer is full, and the loop stays at the channel.
      have hfull := hstop.resolve_left hnil
      have hroom : ¬ (s.putAll i f l₁).room = true := by
        rw [room_iff hle hlen]
        omega
      refine ⟨j, l₁, _, ?_, hsplit, Nat.le_of_lt hj, hafter.symm, hle, .inr hfull⟩
      simp only [fill, hwrite, if_neg hnil]
      rw [if_neg (fun h => hroom h.2)]

/-! ## The mixer coefficients -/

/-- The coefficients keep what is wanted, and bits that agree still agree. -/
def Settles (coef coef' : Nat → Nat → UInt8) : Prop :=
  SameWanted coef coef' ∧ ∀ i j m, coefDiff (coef i j) &&& m = 0 → coefDiff (coef' i j) &&& m = 0

theorem Settles.refl (coef : Nat → Nat → UInt8) : Settles coef coef := ⟨fun _ _ => rfl, fun _ _ _ h => h⟩

theorem Settles.trans {coef₁ coef₂ coef₃ : Nat → Nat → UInt8} (h : Settles coef₁ coef₂) (h' : Settles coef₂ coef₃) :
    Settles coef₁ coef₃ := ⟨h.1.trans h'.1, fun i j m hm => h'.2 i j m (h.2 i j m hm)⟩

/-- A toggle of bits that differ. -/
theorem settles_toggle (coef : Nat → Nat → UInt8) (i j : Nat) (m : UInt8) :
    Settles coef (toggle coef i j (coefDiff (coef i j) &&& m)) := by
  refine ⟨toggle_wanted coef i j _, ?_⟩
  intro k l b hb
  by_cases h : k = i ∧ l = j
  · rw [h.1, h.2] at hb ⊢
    have hmask : (coefDiff (coef i j) &&& m &&& 0xf) &&& b = (coefDiff (coef i j) &&& b) &&& (m &&& 0xf) := by
      rw [UInt8.and_assoc (coefDiff _) m, UInt8.and_assoc, UInt8.and_comm (m &&& 0xf) b, ← UInt8.and_assoc]
    rw [toggle_self, coefDiff_toggled, xor_and, hmask, hb]
    simp
  · rwa [toggle_other h]

theorem briTurn_spec (overrides : Bool) (f : Filling) (x : MixerProgBri × Nat) :
    (∃ b, (s.briTurn overrides f x).p = f.p ++ [b]) ∧ Settles f.coef (s.briTurn overrides f x).coef := by
  unfold briTurn
  dsimp only
  split
  · refine ⟨⟨_, rfl⟩, ?_⟩
    dsimp only
    split
    · exact settles_toggle f.coef _ _ _
    · exact Settles.refl f.coef
  · exact ⟨⟨_, rfl⟩, Settles.refl f.coef⟩

theorem briTurns_spec (overrides : Bool) (xs : List (MixerProgBri × Nat)) (f : Filling) :
    (∃ bs, (xs.foldl (s.briTurn overrides) f).p = f.p ++ bs ∧ bs.length = xs.length) ∧
      Settles f.coef (xs.foldl (s.briTurn overrides) f).coef := by
  induction xs generalizing f with
  | nil => exact ⟨⟨[], by simp⟩, Settles.refl f.coef⟩
  | cons x xs ih =>
    obtain ⟨⟨b, hb⟩, hs⟩ := s.briTurn_spec overrides f x
    obtain ⟨⟨bs, hbs, hlen⟩, hs'⟩ := ih (s.briTurn overrides f x)
    refine ⟨⟨b :: bs, ?_, by simp [hlen]⟩, hs.trans hs'⟩
    rw [List.foldl_cons, hbs, hb, List.append_assoc, List.singleton_append]

/-- The last request of a transfer on an XCONNECT adapter. -/
def mixerRequest (s : XSt) (i : Nat) : Filling := if s.a.liPri then ⟨s.priHeader i, s.coefTable⟩ else s.mixerBri true i

theorem mixerRequest_spec (i : Nat) :
    (s.mixerRequest i).p.head? ≠ some udataRequestXconnectTo ∧ (s.mixerRequest i).p.length ≤ 39 ∧
      Settles s.coefTable (s.mixerRequest i).coef := by
  unfold mixerRequest
  split
  · exact ⟨by simp [priHeader, udataRequestSetMixerCoefsPriSync, udataRequestXconnectTo], by simp [priHeader, features],
      Settles.refl s.coefTable⟩
  · unfold mixerBri
    dsimp only
    split
    · obtain ⟨⟨bs, hbs, hlen⟩, hs⟩ := s.briTurns_spec true mixerWriteProgBri.zipIdx
        ⟨udataRequestSetMixerCoefsBri :: s.features i (if s.voice.signal && s.voice.own
          && decide (advVoiceNewCoefBase + 2 ≤ s.voice.coefLength) then word s.voice.coefBuffer advVoiceNewCoefBase else 0),
          s.coefTable⟩
      have hprog : bs.length = 36 := by rw [hlen]; rfl
      refine ⟨?_, ?_, hs⟩
      · rw [hbs]
        simp [udataRequestSetMixerCoefsBri, udataRequestXconnectTo]
      · rw [hbs]
        simp [features, hprog]
    · exact ⟨by simp [udataRequestSetMixerCoefsBri, udataRequestXconnectTo], by simp [features], Settles.refl s.coefTable⟩

/-! ## The calls -/

/-- Between two calls of a transfer. -/
def resumed (s : XSt) (j : Nat) (coef : Nat → Nat → UInt8) (command : Nat) : XSt :=
  { s with liWriteChannel := j, coefTable := coef, internalCommand := command }

section Resumed

variable (s : XSt) (j : Nat) (coef : Nat → Nat → UInt8) (command : Nat)

theorem resumed_scan (coef' : Nat → Nat → UInt8) (i n : Nat) (x : Nat × UInt8) :
    (s.resumed j coef command).scan coef' i n x = s.scan coef' i n x := by
  induction n generalizing x with
  | zero => rfl
  | succ n ih =>
    simp only [scan, ih]
    rfl

theorem resumed_writeProg (i k : Nat) (r : UInt8) (es : List XconnectProg) (f : Filling) :
    (s.resumed j coef command).writeProg i k r es f = s.writeProg i k r es f := by
  induction es generalizing f with
  | nil => rfl
  | cons e es ih =>
    simp only [writeProg, ih]
    rfl

theorem resumed_fill (i n : Nat) (x : Nat × UInt8) (f : Filling) :
    (s.resumed j coef command).fill i n x f = s.fill i n x f := by
  induction n generalizing x f with
  | zero => rfl
  | succ n ih =>
    simp only [fill, ih, resumed_writeProg, resumed_scan]
    rfl

/-- A call, on an XCONNECT adapter. -/
theorem process_resumed (hch : s.liBchannelId ≠ 0) (hx : (s.table s.own).adapter.xconnect = true) :
    (s.resumed j coef command).xconnectWriteCoefsProcess true false =
      (let x := if j < s.liTotalChannels then s.scan coef s.own s.liTotalChannels (j, coefDiff (coef s.own j)) else (j, 0)
      let out := s.fill s.own s.liTotalChannels x ⟨[udataRequestXconnectTo], coef⟩
      let f := (s.resumed j coef command).mixerRequest s.own
      if x.1 < s.liTotalChannels then ⟨true, s.resumed (out.1 % 65536) out.2.coef s.liWriteCommand, some out.2.p⟩
      else if x.1 = s.liTotalChannels then
        ⟨true, s.resumed ((s.liTotalChannels + 1) % 65536) f.coef s.liWriteCommand, some f.p⟩
      else ⟨true, s.resumed x.1 coef command, none⟩) := by
  unfold xconnectWriteCoefsProcess
  rw [if_neg (fun h => hch h.1), if_neg (by simp)]
  dsimp only
  rw [if_pos (show ((s.resumed j coef command).table (s.resumed j coef command).own).adapter.xconnect = true from hx)]
  simp only [xconnectBranch, resumed_scan, resumed_fill]
  rfl

end Resumed

/-- A call with something due. -/
theorem process_due {command : Nat} (hch : s.liBchannelId ≠ 0) (hx : (s.table s.own).adapter.xconnect = true)
    (hN : s.liTotalChannels < 65535) (hj : j ≤ s.liTotalChannels)
    (hfrom : s.due coef s.own 0 s.liTotalChannels = s.due coef s.own j (s.liTotalChannels - j))
    (hne : s.due coef s.own 0 s.liTotalChannels ≠ []) :
    ∃ j' coef', (s.resumed j coef command).xconnectWriteCoefsProcess true false
        = ⟨true, s.resumed j' coef' s.liWriteCommand, some (udataRequestXconnectTo ::
            ((s.due coef s.own 0 s.liTotalChannels).take 16).flatMap fun x => s.record s.own x.1 x.2 (coef s.own x.1))⟩ ∧
      j' ≤ s.liTotalChannels ∧ SameWanted coef coef' ∧
      s.due coef' s.own 0 s.liTotalChannels = (s.due coef s.own 0 s.liTotalChannels).drop 16 ∧
      s.due coef' s.own 0 s.liTotalChannels = s.due coef' s.own j' (s.liTotalChannels - j') := by
  have hlt : j < s.liTotalChannels := by
    by_contra hge
    rw [hfrom, show s.liTotalChannels - j = 0 by omega] at hne
    exact hne rfl
  obtain ⟨j₁, r₁, hscan, _, hj₁, hnext, hskip⟩ := @scan_spec s coef s.own s.liTotalChannels j (coefDiff (coef s.own j)) hj
    (by omega) (fun _ => rfl)
  have hlt₁ : j₁ < s.liTotalChannels := by
    by_contra hge
    rw [hfrom, hskip, show s.liTotalChannels - j₁ = 0 by omega] at hne
    exact hne rfl
  obtain ⟨hr, hdue⟩ := hnext hlt₁
  obtain ⟨j', l, l', hfill, hl, hj', hl', hle, hstop⟩ := fill_spec s.liTotalChannels j₁ 0 ⟨[udataRequestXconnectTo], coef⟩ hlt₁
    (by omega) hdue rfl (by omega)
  rw [Nat.zero_add] at hle hstop
  have hall : s.due coef s.own 0 s.liTotalChannels = l ++ l' := by rw [hfrom, hskip, ← hl]
  have htake : (s.due coef s.own 0 s.liTotalChannels).take 16 = l ∧ (s.due coef s.own 0 s.liTotalChannels).drop 16 = l' := by
    rw [hall]
    rcases hstop with hnil | hfull
    · rw [hnil, List.append_nil]
      exact ⟨List.take_of_length_le hle, List.drop_eq_nil_of_le hle⟩
    · rw [← hfull]
      exact ⟨List.take_left, List.drop_left⟩
  have hafter := @due_putAll s s.own 0 s.liTotalChannels ⟨[udataRequestXconnectTo], coef⟩ l l' hall
  refine ⟨j', (s.putAll s.own ⟨[udataRequestXconnectTo], coef⟩ l).coef, ?_, hj', putAll_wanted, by rw [hafter, htake.2],
    by rw [hafter, ← hl']⟩
  have hprog : ∀ x ∈ l, x.2 ∈ xconnectWriteProg := by
    intro x hx
    exact (mem_due (hall ▸ List.mem_append_left l' hx)).1
  have hbytes := putAll_bytes (s := s) (i := s.own) (f := ⟨[udataRequestXconnectTo], coef⟩) hprog
  have hmod : j' % 65536 = j' := Nat.mod_eq_of_lt (by omega)
  rw [htake.1]
  rw [process_resumed s j coef command hch hx, if_pos hlt, hscan, hr]
  dsimp only
  rw [if_pos hlt₁, hfill]
  dsimp only
  rw [hmod, hbytes]
  rfl

/-- The call with nothing due: the mixer coefficients. -/
theorem process_mixer {command : Nat} (hch : s.liBchannelId ≠ 0) (hx : (s.table s.own).adapter.xconnect = true)
    (hN : s.liTotalChannels < 65535) (hj : j ≤ s.liTotalChannels)
    (hfrom : s.due coef s.own 0 s.liTotalChannels = s.due coef s.own j (s.liTotalChannels - j))
    (hnil : s.due coef s.own 0 s.liTotalChannels = []) :
    (s.resumed j coef command).xconnectWriteCoefsProcess true false
      = ⟨true, s.resumed (s.liTotalChannels + 1) ((s.resumed j coef command).mixerRequest s.own).coef s.liWriteCommand,
          some ((s.resumed j coef command).mixerRequest s.own).p⟩ := by
  have hpos : ∃ r, (if j < s.liTotalChannels then s.scan coef s.own s.liTotalChannels (j, coefDiff (coef s.own j)) else (j, 0))
      = (s.liTotalChannels, r) := by
    by_cases hlt : j < s.liTotalChannels
    · obtain ⟨j₁, r₁, hscan, _, hj₁, hnext, hskip⟩ := @scan_spec s coef s.own s.liTotalChannels j (coefDiff (coef s.own j)) hj
        (by omega) (fun _ => rfl)
      rcases Nat.lt_or_eq_of_le hj₁ with hlt₁ | heq
      · have hrest : s.liTotalChannels - j₁ = 1 + (s.liTotalChannels - j₁ - 1) := by omega
        rw [hfrom, hskip, hrest, due_add, List.append_eq_nil_iff] at hnil
        exact absurd hnil.1 (hnext hlt₁).2
      · exact ⟨r₁, by rw [if_pos hlt, hscan, heq]⟩
    · exact ⟨0, by rw [if_neg hlt, Nat.le_antisymm hj (Nat.not_lt.mp hlt)]⟩
  obtain ⟨r, hr⟩ := hpos
  have hmod : (s.liTotalChannels + 1) % 65536 = s.liTotalChannels + 1 := Nat.mod_eq_of_lt (by omega)
  rw [process_resumed s j coef command hch hx, hr]
  simp [hmod]

/-- The last call makes no request. -/
theorem process_last {command : Nat} (hch : s.liBchannelId ≠ 0) (hx : (s.table s.own).adapter.xconnect = true) :
    (s.resumed (s.liTotalChannels + 1) coef command).xconnectWriteCoefsProcess true false
      = ⟨true, s.resumed (s.liTotalChannels + 1) coef command, none⟩ := by
  have hpos : ¬ s.liTotalChannels + 1 < s.liTotalChannels := by omega
  rw [process_resumed s _ coef command hch hx, if_neg hpos]
  simp

/-! ## The transfer -/

/-- The calls of `xconnect_write_coefs_process`, each answered with OK and none delayed,
    until one makes no request. -/
inductive Transfer : XSt → List (List UInt8) → XSt → Prop
  | last {s t : XSt} : s.xconnectWriteCoefsProcess true false = ⟨true, t, none⟩ → Transfer s [] t
  | more {s t u : XSt} {r : List UInt8} {rs : List (List UInt8)} : s.xconnectWriteCoefsProcess true false = ⟨true, t, some r⟩ →
      Transfer t rs u → Transfer s (r :: rs) u

theorem Transfer.unique {t u u' : XSt} {rs rs' : List (List UInt8)} (h : Transfer t rs u) (h' : Transfer t rs' u') :
    rs = rs' ∧ u = u' := by
  induction h generalizing rs' with
  | last heq =>
    cases h' with
    | last heq' => simp_all
    | more heq' _ => simp_all
  | more heq _ ih =>
    cases h' with
    | last heq' => simp_all
    | more heq' hrest =>
      rw [heq] at heq'
      injection heq' with _ ht hr
      subst ht
      injection hr with hr
      obtain ⟨hrs, hu⟩ := ih hrest
      exact ⟨by rw [hr, hrs], hu⟩

/-- A state of a transfer of `s`. -/
structure Going (s t : XSt) : Prop where
  now : t = s.resumed t.liWriteChannel t.coefTable t.internalCommand
  wanted : SameWanted s.coefTable t.coefTable
  channel : t.liWriteChannel ≤ s.liTotalChannels
  behind : s.due t.coefTable s.own 0 s.liTotalChannels
    = s.due t.coefTable s.own t.liWriteChannel (s.liTotalChannels - t.liWriteChannel)

/-- What is due in a state of the transfer. -/
def left (s t : XSt) : List (Nat × XconnectProg) := s.due t.coefTable s.own 0 s.liTotalChannels

def afterCall (t : XSt) : XSt := (t.xconnectWriteCoefsProcess true false).st

/-- The request for a part of what is due. -/
def xconnectRequest (s : XSt) (b : List (Nat × XconnectProg)) : List UInt8 := udataRequestXconnectTo :: (s.records b).flatten

variable {t : XSt}

/-- A call sends the first sixteen of what is due, and leaves the others. -/
theorem Going.call (hch : s.liBchannelId ≠ 0) (hx : (s.table s.own).adapter.xconnect = true)
    (hN : s.liTotalChannels < 65535) (h : Going s t) (hne : s.left t ≠ []) :
    t.xconnectWriteCoefsProcess true false = ⟨true, t.afterCall, some (s.xconnectRequest ((s.left t).take 16))⟩ ∧
      Going s t.afterCall ∧ s.left t.afterCall = (s.left t).drop 16 := by
  obtain ⟨j', coef', hprocess, hj', hwanted, hdrop, hbehind⟩ := @process_due s t.coefTable t.liWriteChannel t.internalCommand
    hch hx hN h.channel h.behind hne
  rw [← h.now] at hprocess
  have hafter : t.afterCall = s.resumed j' coef' s.liWriteCommand := by rw [afterCall, hprocess]
  have hrequest : (((s.left t).take 16).flatMap fun x => s.record s.own x.1 x.2 (t.coefTable s.own x.1))
      = (s.records ((s.left t).take 16)).flatten := by
    rw [records, ← List.flatMap_def]
    apply List.flatMap_congr
    intro x hx
    exact record_wanted (mem_due (List.mem_of_mem_take hx)).1 h.wanted
  refine ⟨?_, ?_, by rw [hafter]; exact hdrop⟩
  · rw [hafter, hprocess, xconnectRequest, ← hrequest]
    rfl
  · rw [hafter]
    exact ⟨rfl, h.wanted.trans hwanted, hj', hbehind⟩

/-- With nothing due the transfer ends with the mixer coefficients. -/
theorem Going.finish (hch : s.liBchannelId ≠ 0) (hx : (s.table s.own).adapter.xconnect = true)
    (hN : s.liTotalChannels < 65535) (h : Going s t) (hnil : s.left t = []) :
    ∃ u, Transfer t [(t.mixerRequest s.own).p] u ∧ Settles t.coefTable u.coefTable := by
  have hprocess := @process_mixer s t.coefTable t.liWriteChannel t.internalCommand hch hx hN h.channel h.behind hnil
  rw [← h.now] at hprocess
  exact ⟨_, .more hprocess (.last (process_last hch hx)), (t.mixerRequest_spec s.own).2.2⟩

/-- The batches of what is due are the requests. -/
theorem Going.transfer {bs : List (List (Nat × XconnectProg))} {u : XSt} (hch : s.liBchannelId ≠ 0)
    (hx : (s.table s.own).adapter.xconnect = true) (hN : s.liTotalChannels < 65535)
    (hrun : Run s.left 16 afterCall t bs u) (h : Going s t) :
    ∃ v, Transfer t (bs.map s.xconnectRequest ++ [(u.mixerRequest s.own).p]) v ∧ Settles u.coefTable v.coefTable := by
  induction hrun with
  | done hnil => exact h.finish hch hx hN hnil
  | take hne _ ih =>
    obtain ⟨hprocess, hgoing, _⟩ := h.call hch hx hN hne
    obtain ⟨v, hrest, hsettles⟩ := ih hgoing
    exact ⟨v, .more hprocess hrest, hsettles⟩

/-- Nothing is due: no allowed bit of a coefficient differs. -/
theorem due_nil_agree (h : s.due coef s.own 0 n = []) (hj : j < n) : coefDiff (coef s.own j) &&& s.allowed s.own j = 0 := by
  have hn : n = j + (1 + (n - (j + 1))) := by omega
  rw [hn, due_add, Nat.zero_add, due_add, List.append_eq_nil_iff, List.append_eq_nil_iff] at h
  exact due_one_eq_nil.mp h.2.1

theorem records_length (b : List (Nat × XconnectProg)) : ∀ r ∈ s.records b, r.length = 16 := by
  intro r hr
  obtain ⟨x, _, rfl⟩ := List.mem_map.mp hr
  exact record_length x.2 _

theorem xconnectRequest_length (b : List (Nat × XconnectProg)) : (s.xconnectRequest b).length = 1 + 16 * b.length := by
  simp [xconnectRequest, records, Function.comp_def]
  omega

/-- The value in a record: nothing, or what is needed between the two laws. -/
theorem records_value (s : XSt) (b : List (Nat × XconnectProg)) :
    (s.records b).map (·[14]?) = b.map (fun x =>
      some (if has (s.coefTable s.own x.1) x.2.mask = false then 0x01
        else if (s.table s.own).adapter.uLaw = (s.table x.1).adapter.uLaw then 0x80
        else if (s.table s.own).adapter.uLaw then 0x86 else 0x7a)) := by
  unfold records
  rw [List.map_map]
  refine List.map_congr_left fun x _ => ?_
  have hvalue : (s.record s.own x.1 x.2 (s.coefTable s.own x.1))[14]? =
      some (s.coefValue s.own x.1 (has (s.coefTable s.own x.1) x.2.mask)) := rfl
  refine hvalue.trans (congrArg some ?_)
  unfold coefValue
  cases (s.table s.own).adapter.uLaw with
  | false =>
    cases (s.table x.1).adapter.uLaw with
    | false => rfl
    | true => rfl
  | true =>
    cases (s.table x.1).adapter.uLaw with
    | false => rfl
    | true => rfl

/-- The batches of a transfer from its first state. -/
theorem exists_batches (hch : s.liBchannelId ≠ 0) (hx : (s.table s.own).adapter.xconnect = true)
    (hN : s.liTotalChannels < 65535) (hstart : s.liWriteChannel = 0) :
    ∃ (bs : List (List (Nat × XconnectProg))) (u v : XSt), Transfer s (bs.map s.xconnectRequest ++ [(u.mixerRequest s.own).p]) v ∧
      bs.flatten = s.left s ∧ (∀ b ∈ bs, b ≠ [] ∧ b.length ≤ 16) ∧ s.left u = [] ∧
      SameWanted s.coefTable v.coefTable ∧ Settles u.coefTable v.coefTable := by
  have hgoing : Going s s := ⟨rfl, fun _ _ => rfl, by omega, by rw [hstart]; rfl⟩
  have hcall : ∀ t, Going s t → s.left t ≠ [] → Going s t.afterCall ∧ s.left t.afterCall = (s.left t).drop 16 :=
    fun t ht hne => (ht.call hch hx hN hne).2
  obtain ⟨bs, u, hrun⟩ := exists_run (by decide : 0 < 16) hcall hgoing
  obtain ⟨v, htransfer, hsettles⟩ := hgoing.transfer hch hx hN hrun
  have hu : Going s u := hrun.invariant (fun t ht hne => (hcall t ht hne).1) hgoing
  exact ⟨bs, u, v, htransfer, hrun.flatten hcall hgoing, hrun.sizes (by decide), hrun.pending_nil, hu.wanted.trans hsettles.1,
    hsettles⟩

/-- A transfer to a channel of an XCONNECT adapter ends. Its requests are the records that
    were due, sixteen at most in a request, each with the value of its coefficient, and the mixer
    coefficients behind them; each fits into the buffer. Afterwards what was wanted is written, as far as it may be. -/
theorem coefs_transferred (s : XSt) (command : Nat) (hch : s.liBchannelId ≠ 0) (hx : (s.table s.own).adapter.xconnect = true)
    (hN : s.liTotalChannels < 65535) :
    (∃ requests t, Transfer (s.xconnectWriteCoefs command) requests t) ∧
    ∀ requests t, Transfer (s.xconnectWriteCoefs command) requests t →
      (∀ r ∈ requests, r.length ≤ internalReqBufferSize) ∧
      (∀ r ∈ s.dueRecords, r.length = 16) ∧
      s.dueRecords.map (·[14]?) = (s.due s.coefTable s.own 0 s.liTotalChannels).map (fun x =>
        some (if has (s.coefTable s.own x.1) x.2.mask = false then 0x01
          else if (s.table s.own).adapter.uLaw = (s.table x.1).adapter.uLaw then 0x80
          else if (s.table s.own).adapter.uLaw then 0x86 else 0x7a)) ∧
      (∃ (batches : List (List (List UInt8))) (tail : List UInt8),
        requests = batches.map (fun b => udataRequestXconnectTo :: b.flatten) ++ [tail] ∧
        batches.flatten = s.dueRecords ∧ (∀ b ∈ batches, b ≠ []) ∧ tail.head? ≠ some udataRequestXconnectTo) ∧
      ∀ j < s.liTotalChannels, t.coefTable s.own j &&& 0xf = s.coefTable s.own j &&& 0xf ∧
        coefDiff (t.coefTable s.own j) &&& s.allowed s.own j = 0 := by
  obtain ⟨bs, u, v, htransfer, hflat, hsizes, hnil, hwanted, hsettles⟩ :=
    @exists_batches (s.xconnectWriteCoefs command) hch hx hN rfl
  refine ⟨⟨_, _, htransfer⟩, ?_⟩
  intro requests t ht
  obtain ⟨rfl, rfl⟩ := ht.unique htransfer
  obtain ⟨hhead, hlen, _⟩ := u.mixerRequest_spec s.own
  refine ⟨?_, s.records_length _, s.records_value _, ⟨bs.map s.records, _, ?_, ?_, ?_, hhead⟩, ?_⟩
  · intro r hr
    unfold internalReqBufferSize
    rcases List.mem_append.mp hr with hr | hr
    · obtain ⟨b, hb, rfl⟩ := List.mem_map.mp hr
      have hsize := (hsizes b hb).2
      rw [xconnectRequest_length]
      omega
    · rw [List.mem_singleton.mp hr]
      exact Nat.le_trans hlen (by decide)
  · rw [List.map_map]
    rfl
  · have hmap := congrArg s.records hflat
    rw [records, List.map_flatten] at hmap
    exact hmap
  · intro b hb
    obtain ⟨c, hc, rfl⟩ := List.mem_map.mp hb
    simpa [records] using (hsizes c hc).1
  · intro j hj
    exact ⟨hwanted s.own j, hsettles.2 _ _ _ (@due_nil_agree (s.xconnectWriteCoefs command) u.coefTable j _ hnil hj)⟩

/-- Channel 1 is of the adapter of channel 0, channel 2 is of another one and has no address
    of its B channel. -/
def threeChannels : XSt :=
  let a : XAdapter := ⟨true, false, true, false, false, 0⟩
  let b : XAdapter := ⟨true, true, true, false, false, 2⟩
  let table (k : Nat) : XChannel :=
    if k < 2 then ⟨a, ⟨0, 0x100, 0⟩, ⟨0, 0x200, 0⟩, 1, 2, liChannelAddressesSet⟩
    else ⟨b, ⟨0, 0, 0⟩, ⟨0, 0x300, 0⟩, 3, 4, liChannelAddressesSet⟩
  let coefTable (_ k : Nat) : UInt8 := if k = 1 then 0x13 else if k = 2 then 0x05 else 0
  ⟨3, table, coefTable, a, ⟨false, false, 0, fun _ => 0⟩, 1, 0, 0, 0, 0⟩

/-- One bit of channel 1 differs; of the two of channel 2 the addresses allow one. -/
theorem coefs_transferred_three :
    threeChannels.dueRecords = [[0, 0, 0, 0, 0, 0, 0, 0, 0, 1, 0, 0, 0, 0x80, 0x80, 1],
      [0, 0, 0, 0, 0, 0, 0, 0, 0, 3, 0, 0, 0, 0, 0x7a, 4]] ∧
    (∃ requests t, Transfer (threeChannels.xconnectWriteCoefs 1) requests t) ∧
    ∀ requests t, Transfer (threeChannels.xconnectWriteCoefs 1) requests t →
      ∀ j < 3, coefDiff (t.coefTable 0 j) &&& threeChannels.allowed 0 j = 0 := by
  obtain ⟨hends, hall⟩ := coefs_transferred threeChannels 1 (by decide) (by decide) (by decide)
  refine ⟨by decide, hends, ?_⟩
  intro requests t ht j hj
  exact ((hall requests t ht).2.2.2.2 j hj).2

end XSt

end Divas.Capi
