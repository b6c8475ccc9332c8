/-
  Divas.Capi.IndPasses — the passes of `sig_ind` over an indication (message.c).

  `sig_ind` calls `IndParse` ten times with the same buffer. The eighth pass overwrites connected
  party numbers, the ninth one origination addresses. A later pass takes the overwritten octets
  for an identifier and a length.

  Proved: each pass sees the elements of the received packet at their places, and finds the same
  ones with the same contents, as long as every party number that is overwritten is at most 126
  octets long and has a type that is equal to its length, or neither of both leaves an element
  behind it (`passes_independent`).
  A connected number behind which the walk goes astray is `passes_disturbed`.
-/

import Divas.Capi.IndParse
import Mathlib.Data.List.Induction

namespace Divas.Capi.IndParse

open Divas.Lib.Bytes

/-! ## The passes -/

def multiFacId : List UInt16 := [0x1c]
def multiPiId : List UInt16 := [0x1e]
def multiSsextId : List UInt16 := [0x8ee]
def multiIupId : List UInt16 := [0x676]
def multiIpuId : List UInt16 := [0x677]
def multiRdnId : List UInt16 := [0x74]
def multiVswitchId : List UInt16 := [0x8ed]

def parmsId : List UInt16 :=
  [0x70, SDNCMPL, 0x71, 0x6d, 0x04, 0x7c, 0x7d, 0x808, 0x28, 0x29, 0x1a, 0x7e, CONG_RR, CONG_RNR, 0x818, 0x2c, 0x18, 0x08, 0x804,
    0xff, 0x73, CONN_NR, 0x76, 0x27, 0x10, 0x87b, 0x14, 0x8ef, 0x800, 0xff, 0x87a, 0x00]

def multiCiPNId : List UInt16 := [OAD]
def multiEsccaiId : List UInt16 := [0x810]

/-- `parms_id` and `multiIEsize` of the calls of `IndParse`, in their order. -/
def passes : List (List UInt16 × Nat) :=
  [(multiFacId, 6), (multiPiId, 6), (multiSsextId, 6), (multiIupId, 6), (multiIpuId, 6), (multiRdnId, 6), (multiVswitchId, 6),
    (parmsId, 0), (multiCiPNId, 6), (multiEsccaiId, 6)]

/-- The buffer behind a pass. -/
def bufferAfter (length : Nat) (buf : Mem) (pass : List UInt16 × Nat) : Mem :=
  (indParse pass.1 pass.2 length buf fun _ => none).place.buf

/-- A place that a pass reaches, and what it finds there. -/
def entry (ids : List UInt16) (p : Place) : Nat × Option Nat := (p.ploc, if p.Passes then p.found ids else none)

def seen (ids : List UInt16) (length : Nat) (buf : Mem) : List (Nat × Option Nat) := (places ids length buf).map (entry ids)

/-- Each pass sees the elements of the received packet, and finds the same ones with the same octets. -/
def Independent (length : Nat) (buf : Mem) : Prop :=
  ∀ before pass after, passes = before ++ pass :: after →
    seen pass.1 length (before.foldl (bufferAfter length) buf) = seen pass.1 length buf ∧
      ∀ p ∈ places pass.1 length (before.foldl (bufferAfter length) buf), p.Stored pass.1 →
        ∀ k, p.ploc ≤ k → k < (p.next pass.1).ploc → before.foldl (bufferAfter length) buf k = buf k

namespace Place

variable (R : UInt16 → Prop) (length : Nat) (p : Place)

/-- A party number that is overwritten if its code is one of `R`. -/
def Altered : Prop := p.Passes ∧ R p.code ∧ p.Party ∧ p.octet 2 &&& 0x80 ≠ 0

/-- Behind the overwritten octets the walk goes on as behind the received ones, or it ends as there. -/
def InSync : Prop :=
  (p.octet 1).toNat < 127 ∧
    (p.octet 2 &&& 0x7f = p.octet 1 ∨
      length ≤ p.ploc + 2 + (p.octet 1).toNat + 1 ∧ length ≤ p.ploc + 2 + (p.octet 2 &&& 0x7f).toNat + 1)

instance : Decidable (p.InSync length) := inferInstanceAs (Decidable (_ ∧ _))

/-- The place in a buffer with other octets. -/
def inBuf (c : Mem) : Place := { p with buf := c }

end Place

/-! ## Codes -/

theorem or_eq_zero {a b : UInt16} (h : a ||| b = 0) : a = 0 ∧ b = 0 := by
  have h' : a.toBitVec ||| b.toBitVec = 0#16 := congrArg UInt16.toBitVec h
  rcases BitVec.or_eq_zero_iff.mp h' with ⟨ha, hb⟩
  exact ⟨UInt16.toBitVec_inj.mp ha, UInt16.toBitVec_inj.mp hb⟩

theorem or_and (a b m : UInt16) : ((a ||| b) &&& m : UInt16) = (a &&& m) ||| (b &&& m) := by
  apply UInt16.toBitVec_inj.mp
  exact BitVec.and_or_distrib_right

theorem codeset_high (c : UInt8) : (c.toUInt16 <<< (8 : UInt16)) &&& 0xff00 = c.toUInt16 <<< (8 : UInt16) := by
  have hlow : c.toUInt16 &&& 0xff = c.toUInt16 := by
    apply UInt16.toNat_inj.mp
    rw [UInt16.toNat_and, UInt8.toNat_toUInt16, show (0xff : UInt16).toNat = 2 ^ 8 - 1 from rfl, Nat.and_two_pow_sub_one_eq_mod,
      Nat.mod_eq_of_lt c.toNat_lt]
  have hmask : (0xff00 : UInt16) = 0xff <<< (8 : UInt16) := by decide
  rw [hmask, ← UInt16.shiftLeft_and, hlow]

theorem succ_below {x : UInt8} (h : x.toNat < 127) : (x + 1) &&& 0x80 = 0 ∧ (x + 1) &&& 0xf0 ≠ SHIFT := by
  have hlow : (x + 1) &&& 0x7f = x + 1 := by
    apply UInt8.toNat_inj.mp
    have hsum : (x + 1).toNat = (x.toNat + 1) % 256 := rfl
    rw [UInt8.toNat_and, show (0x7f : UInt8).toNat = 2 ^ 7 - 1 from rfl, Nat.and_two_pow_sub_one_eq_mod, hsum]
    omega
  have hbit : (x + 1) &&& 0x80 = 0 := by
    rw [← hlow, UInt8.and_assoc]
    exact UInt8.and_zero
  refine ⟨hbit, fun hshift => ?_⟩
  have hhigh : ((x + 1) &&& 0xf0) &&& 0x80 = (x + 1) &&& 0x80 := UInt8.and_assoc ..
  rw [hshift, hbit] at hhigh
  exact absurd hhigh (by decide)

theorem succ_wraps {x : UInt8} (h : (x + 1).toNat = 0) : x = 255 := by
  have hsum : (x.toNat + 1) % 256 = 0 := h
  have hlt := x.toNat_lt
  have hmax : x.toNat = 255 := by omega
  exact UInt8.toNat_inj.mp hmax

theorem succ_code (x : UInt8) : (x + 1).toUInt16 ≠ 0x810 ∧ ((x + 1).toUInt16 = 0x6c → x = 107) := by
  have hval : (x + 1).toUInt16.toNat = (x.toNat + 1) % 256 := rfl
  have hlt := x.toNat_lt
  constructor
  · intro h
    rw [h, show (0x810 : UInt16).toNat = 2064 from rfl] at hval
    omega
  · intro h
    rw [h, show (0x6c : UInt16).toNat = 108 from rfl] at hval
    have hoctet : x.toNat = 107 := by omega
    exact UInt8.toNat_inj.mp hoctet

/-- An octet with the highest bit only. -/
theorem high_only {x : UInt8} (hhigh : x &&& 0x80 ≠ 0) (hlow : x &&& 0x7f = 0) : x = 0x80 := by
  have hmod : x.toNat % 2 ^ 7 = 0 := by
    rw [← Nat.and_two_pow_sub_one_eq_mod]
    exact congrArg UInt8.toNat hlow
  have hne : x.toNat ≠ 0 := by
    intro hzero
    rw [show x = 0 from UInt8.toNat_inj.mp hzero] at hhigh
    exact hhigh (by decide)
  have hval : x.toNat = 128 := by
    have := x.toNat_lt
    omega
  exact UInt8.toNat_inj.mp hval

theorem octet_low (w : UInt8) (v : UInt16) (hv : v = OAD ∨ v = CONN_NR ∨ v = CAD) (h : w.toUInt16 = v) :
    w = 0x6c ∨ w = 0x4c ∨ w = 0x0c := by
  have hval : w.toNat = v.toNat := congrArg UInt16.toNat h
  rcases hv with rfl | rfl | rfl
  · exact Or.inl (UInt8.toNat_inj.mp hval)
  · exact Or.inr (Or.inl (UInt8.toNat_inj.mp hval))
  · exact Or.inr (Or.inr (UInt8.toNat_inj.mp hval))

namespace Place

section

variable {p : Place} {c : Mem}

theorem Party.codes (h : p.Party) : p.codesetHere.toUInt16 <<< (8 : UInt16) = 0 ∧
    (p.octet 0 = 0x6c ∨ p.octet 0 = 0x4c ∨ p.octet 0 = 0x0c) := by
  have hhigh : p.code &&& 0xff00 = 0 := by
    rcases h with h | h | h
    · rw [h]; decide
    · rw [h]; decide
    · rw [h]; decide
  unfold code at hhigh
  rw [or_and, codeset_high] at hhigh
  rcases or_eq_zero hhigh with ⟨hw, hc⟩
  refine ⟨hc, ?_⟩
  by_cases hesc : p.octet 0 = ESC ∧ 3 ≤ p.wlen
  · rw [if_pos hesc, or_and] at hw
    exact absurd (or_eq_zero hw).2 (by decide)
  · apply octet_low _ _ h
    unfold code
    rw [if_neg hesc, hc, UInt16.or_zero]

theorem Party.not_single (h : p.Party) : ¬ p.Single := by
  unfold Single
  rcases h.codes.2 with h | h | h
  · rw [h]; decide
  · rw [h]; decide
  · rw [h]; decide

theorem Party.not_shift (h : p.Party) : ¬ p.IsShift := by
  unfold IsShift
  rcases h.codes.2 with h | h | h
  · rw [h]; decide
  · rw [h]; decide
  · rw [h]; decide

theorem Party.wlen (h : p.Party) : p.wlen = p.octet 1 + 1 := if_neg h.not_single

theorem found_isSome (ids : List UInt16) (h : ¬ p.IsShift) : (p.found ids).isSome ↔ p.code ∈ ids := by
  unfold found
  rw [if_neg h, List.findIdx?_isSome]
  simp

/-! ## Places of the received packet in another buffer -/

@[simp] theorem inBuf_ploc : (p.inBuf c).ploc = p.ploc := rfl
@[simp] theorem inBuf_octet (k : Nat) : (p.inBuf c).octet k = c (p.ploc + k) := rfl
@[simp] theorem inBuf_codesetHere : (p.inBuf c).codesetHere = p.codesetHere := rfl
@[simp] theorem inBuf_lockHere : (p.inBuf c).lockHere = p.lockHere := rfl

/-- The octets of the element as the walk bounds it, and its length. -/
def Same (c : Mem) (p : Place) : Prop :=
  ∀ k, p.ploc ≤ k → k < p.ploc + (p.wlen.toNat + 1) ∨ ¬ p.Single ∧ k = p.ploc + 1 → c k = p.buf k

/-- The octets that are written over those of a party number. -/
structure Over (c : Mem) (p : Place) : Prop where
  first : c p.ploc = p.octet 1 + 1
  second : c (p.ploc + 1) = p.octet 2 &&& 0x7f
  third : p.octet 1 ≠ 0 → c (p.ploc + 2) = 0x80

theorem Same.first (h : Same c p) : (p.inBuf c).octet 0 = p.octet 0 := h p.ploc (Nat.le_refl _) (Or.inl (by omega))

theorem Same.single (h : Same c p) : (p.inBuf c).Single ↔ p.Single := by
  unfold Single
  rw [h.first]

theorem Same.wlen (h : Same c p) : (p.inBuf c).wlen = p.wlen := by
  unfold Place.wlen
  by_cases hs : p.Single
  · rw [if_pos hs, if_pos (h.single.mpr hs)]
  · rw [if_neg hs, if_neg (fun h' => hs (h.single.mp h')),
      show (p.inBuf c).octet 1 = p.octet 1 from h (p.ploc + 1) (Nat.le_succ _) (Or.inr ⟨hs, rfl⟩)]

theorem Same.shift (h : Same c p) : (p.inBuf c).IsShift ↔ p.IsShift := by
  unfold IsShift
  rw [h.first]

theorem Same.code (h : Same c p) : (p.inBuf c).code = p.code := by
  unfold Place.code
  rw [h.first, h.wlen, inBuf_codesetHere]
  by_cases hesc : p.octet 0 = ESC ∧ 3 ≤ p.wlen
  · have hthree : 3 ≤ p.wlen.toNat := UInt8.le_iff_toNat_le.mp hesc.2
    rw [if_pos hesc, if_pos hesc,
      show (p.inBuf c).octet 2 = p.octet 2 from h (p.ploc + 2) (by omega) (Or.inl (by omega))]
  · rw [if_neg hesc, if_neg hesc]

theorem Same.found (ids : List UInt16) (h : Same c p) : (p.inBuf c).found ids = p.found ids := by
  unfold Place.found
  rw [h.code]
  by_cases hs : p.IsShift
  · rw [if_pos hs, if_pos (h.shift.mpr hs)]
  · rw [if_neg hs, if_neg (fun h' => hs (h.shift.mp h'))]

theorem Same.passes (h : Same c p) : (p.inBuf c).Passes ↔ p.Passes := by
  unfold Passes
  rw [h.wlen, inBuf_ploc]

theorem Same.party (h : Same c p) : (p.inBuf c).Party ↔ p.Party := by
  unfold Party
  rw [h.code]

/-- The next place, if the octets lead there. -/
theorem inBuf_next (ids : List UInt16) (hw : (p.inBuf c).wlen = p.wlen)
    (h : ¬ (p.inBuf c).IsShift ∧ ¬ p.IsShift ∨ (p.inBuf c).octet 0 = p.octet 0) :
    (p.inBuf c).next ids = (p.next []).inBuf (if (p.inBuf c).Rewrites ids then (p.inBuf c).rewritten else c) := by
  have hshift : (p.inBuf c).octet 0 = p.octet 0 → ((p.inBuf c).IsShift ↔ p.IsShift) := by
    intro h
    unfold IsShift
    rw [h]
  have hcodeset : ((p.inBuf c).next ids).codeset = (p.next []).codeset := by
    show (if (p.inBuf c).IsShift then (p.inBuf c).octet 0 &&& 7 else p.codesetHere) = if p.IsShift
      then p.octet 0 &&& 7 else p.codesetHere
    rcases h with ⟨h1, h2⟩ | h
    · rw [if_neg h1, if_neg h2]
    · by_cases hs : p.IsShift
      · rw [if_pos hs, if_pos ((hshift h).mpr hs), h]
      · rw [if_neg hs, if_neg (fun h' => hs ((hshift h).mp h'))]
  have hlock : ((p.inBuf c).next ids).lock = (p.next []).lock := by
    show (if (p.inBuf c).IsShift then (if (p.inBuf c).octet 0 &&& 0x08 = 0 then (p.inBuf c).octet 0 &&& 7 else p.lockHere)
      ||| 0x80
        else p.lockHere) =
      if p.IsShift then (if p.octet 0 &&& 0x08 = 0 then p.octet 0 &&& 7 else p.lockHere) ||| 0x80 else p.lockHere
    rcases h with ⟨h1, h2⟩ | h
    · rw [if_neg h1, if_neg h2]
    · by_cases hs : p.IsShift
      · rw [if_pos hs, if_pos ((hshift h).mpr hs), h]
      · rw [if_neg hs, if_neg (fun h' => hs ((hshift h).mp h'))]
  have hploc : ((p.inBuf c).next ids).ploc = (p.next []).ploc := by
    show p.ploc + ((p.inBuf c).wlen.toNat + 1) = p.ploc + (p.wlen.toNat + 1)
    rw [hw]
  have hbuf : ((p.inBuf c).next ids).buf = if (p.inBuf c).Rewrites ids then (p.inBuf c).rewritten else c := rfl
  rw [show (p.inBuf c).next ids = ⟨((p.inBuf c).next ids).ploc, ((p.inBuf c).next ids).codeset, ((p.inBuf c).next ids).lock,
    ((p.inBuf c).next ids).buf⟩ from rfl, hcodeset, hlock, hploc, hbuf]
  rfl

@[simp] theorem next_nil_buf : (p.next []).buf = p.buf := by
  have hno : ¬ p.Rewrites [] := by
    intro h
    have : (p.found []).isSome := h.1
    unfold Place.found at this
    split at this
    · exact Bool.false_ne_true this
    · exact Bool.false_ne_true this
  show (if p.Rewrites [] then p.rewritten else p.buf) = p.buf
  exact if_neg hno

/-! ## Overwritten party numbers -/

theorem Party.wlen_toNat (h : p.Party) (hlen : (p.octet 1).toNat < 127) : p.wlen.toNat = (p.octet 1).toNat + 1 := by
  rw [h.wlen, UInt8.toNat_add]
  show ((p.octet 1).toNat + 1) % 256 = _
  omega

theorem Party.next_ploc (h : p.Party) (hlen : (p.octet 1).toNat < 127) :
    (p.next []).ploc = p.ploc + ((p.octet 1).toNat + 2) := by
  show p.ploc + (p.wlen.toNat + 1) = _
  rw [h.wlen_toNat hlen]

theorem Over.first_low (h : Over c p) (hlen : (p.octet 1).toNat < 127) :
    (p.inBuf c).octet 0 &&& 0x80 = 0 ∧ (p.inBuf c).octet 0 &&& 0xf0 ≠ SHIFT := by
  rw [show (p.inBuf c).octet 0 = p.octet 1 + 1 from h.first]
  exact succ_below hlen

/-- The type of the number is taken for the length. -/
theorem Over.wlen (h : Over c p) (hlen : (p.octet 1).toNat < 127) : (p.inBuf c).wlen = (p.octet 2 &&& 0x7f) + 1 := by
  unfold Place.wlen
  rw [if_neg (show ¬ (p.inBuf c).Single from not_not.mpr (h.first_low hlen).1)]
  exact congrArg (· + 1) h.second

/-- The length of the number is taken for an identifier that no pass looks for. -/
theorem Over.found {ids : List UInt16} (h : Over c p) (hparty : p.Party) (hlen : (p.octet 1).toNat < 127) (hesc : 0x880 ∉ ids)
    (hother : (p.octet 1 + 1).toUInt16 ∉ ids) : (p.inBuf c).found ids = none := by
  have hshift : ¬ (p.inBuf c).IsShift := (h.first_low hlen).2
  rw [← Option.not_isSome_iff_eq_none, found_isSome ids hshift]
  unfold Place.code
  rw [inBuf_codesetHere, hparty.codes.1, UInt16.or_zero, show (p.inBuf c).octet 0 = p.octet 1 + 1 from h.first]
  by_cases he : p.octet 1 + 1 = ESC ∧ 3 ≤ (p.inBuf c).wlen
  · have hl : p.octet 1 ≠ 0 := by
      intro hl
      rw [hl] at he
      exact absurd he.1 (by decide)
    rw [if_pos he, show (p.inBuf c).octet 2 = 0x80 from h.third hl]
    exact hesc
  · rw [if_neg he]
    exact hother

/-- What is written behind the number leaves the overwritten octets. -/
theorem Over.kept {c' : Mem} (h : Over c p) (hploc : (p.next []).ploc = p.ploc + ((p.octet 1).toNat + 2))
    (hc : ∀ k, k < (p.next []).ploc → c' k = c k) : Over c' p := by
  refine ⟨(hc _ (by omega)).trans h.first, (hc _ (by omega)).trans h.second, ?_⟩
  intro hl
  have hl' : (p.octet 1).toNat ≠ 0 := fun h0 => hl (UInt8.toNat_inj.mp h0)
  exact (hc _ (by omega)).trans (h.third hl)

theorem rewritten_eq (hsecond : c (p.ploc + 1) = p.octet 1) (hthird : c (p.ploc + 2) = p.octet 2) :
    (p.inBuf c).rewritten = store c p.ploc [p.octet 1 + 1, p.octet 2 &&& 0x7f, 0x80] := by
  unfold rewritten
  rw [inBuf_octet, inBuf_octet, hsecond, hthird]
  rfl

theorem over_rewritten (hsecond : c (p.ploc + 1) = p.octet 1) (hthird : c (p.ploc + 2) = p.octet 2) :
    Over (p.inBuf c).rewritten p := by
  rw [rewritten_eq hsecond hthird]
  exact ⟨store_inside c (k := p.ploc) (i := 0) (Nat.zero_lt_succ _),
    store_inside c (k := p.ploc) (i := 1) (Nat.succ_lt_succ (Nat.zero_lt_succ _)),
    fun _ => store_inside c (k := p.ploc) (i := 2) (Nat.lt_succ_self _)⟩

theorem rewritten_before {k : Nat} (hk : k < p.ploc) : (p.inBuf c).rewritten k = c k := store_outside _ (Or.inl hk)

/-- The octet behind an empty number is overwritten with itself. -/
theorem rewritten_behind {k : Nat} (hthird : c (p.ploc + 2) = p.octet 2) (hhigh : p.octet 2 &&& 0x80 ≠ 0)
    (hlow : p.octet 2 &&& 0x7f = p.octet 1) (hk : p.ploc + ((p.octet 1).toNat + 2) ≤ k) :
    (p.inBuf c).rewritten k = c k := by
  by_cases hk2 : k = p.ploc + 2
  · have hzero : p.octet 1 = 0 := UInt8.toNat_inj.mp (show (p.octet 1).toNat = 0 by omega)
    rw [hk2, hthird, high_only hhigh (hlow.trans hzero)]
    exact store_inside c (k := p.ploc) (i := 2) (Nat.lt_succ_self _)
  · refine store_outside _ (Or.inr ?_)
    show p.ploc + 3 ≤ k
    omega

end

/-- The loop takes a turn at the place. -/
def Goes (length : Nat) (p : Place) : Prop := p.ploc + 1 < length ∧ p.Passes

instance (length : Nat) (p : Place) : Decidable (p.Goes length) := inferInstanceAs (Decidable (_ ∧ _))

end Place

open Place

/-- From a place of the received packet on, a buffer has the received octets, but for the party
    numbers that have been overwritten. -/
def Matches (R : UInt16 → Prop) (length : Nat) : Nat → Place → Mem → Prop
  | 0, p, c => ∀ k, p.ploc ≤ k → c k = p.buf k
  | turns + 1, p, c =>
    (¬ p.Goes length → ∀ k, p.ploc ≤ k → c k = p.buf k) ∧
      (p.Goes length → (p.Altered R → Over c p) ∧ (¬ p.Altered R → Same c p) ∧
        ((p.Altered R → (p.next []).ploc + 1 < length) → Matches R length turns (p.next []) c))

def lastPlace (ids : List UInt16) (length : Nat) : Nat → Place → Place
  | 0, p => p
  | turns + 1, p => if p.Goes length then lastPlace ids length turns (p.next ids) else p

/-- A code that has been overwritten, or is overwritten by a pass. -/
def grown (R : UInt16 → Prop) (ids : List UInt16) (code : UInt16) : Prop := R code ∨ code ∈ ids

/-- What a pass sees and leaves from a place of the received packet on. -/
structure Follows (R : UInt16 → Prop) (ids : List UInt16) (length turns : Nat) (p : Place) (c : Mem) : Prop where
  entries : (walk ids length turns (p.inBuf c)).map (entry ids) = (walk [] length turns p).map (entry ids)
  octets : ∀ q ∈ walk ids length turns (p.inBuf c), q.Stored ids → ∀ k, q.ploc ≤ k → k < (q.next ids).ploc → c k = p.buf k
  behind : Matches (grown R ids) length turns p (lastPlace ids length turns (p.inBuf c)).buf
  before : ∀ k, k < p.ploc → (lastPlace ids length turns (p.inBuf c)).buf k = c k

section Walk

variable {ids : List UInt16} {R : UInt16 → Prop} {length turns : Nat} {p : Place} {c c' : Mem}

theorem walk_goes (h : p.Goes length) : walk ids length (turns + 1) p = p :: walk ids length turns (p.next ids) := by
  rw [walk, if_pos h.1, if_pos (show p.ploc + p.wlen.toNat ≤ bufferSize from h.2)]

theorem walk_last (h1 : p.ploc + 1 < length) (h2 : p.Passes → ¬ (p.next ids).ploc + 1 < length) :
    walk ids length (turns + 1) p = [p] := by
  rw [walk, if_pos h1]
  by_cases hpasses : p.Passes
  · rw [if_pos (show p.ploc + p.wlen.toNat ≤ bufferSize from hpasses)]
    cases turns with
    | zero => rfl
    | succ turns => rw [walk, if_neg (h2 hpasses)]
  · rw [if_neg (show ¬ p.ploc + p.wlen.toNat ≤ bufferSize from hpasses)]

theorem lastPlace_buf (h2 : p.Passes → ¬ (p.next ids).ploc + 1 < length) (h : ¬ p.Rewrites ids) :
    (lastPlace ids length (turns + 1) p).buf = p.buf := by
  have hnext : (p.next ids).buf = p.buf := if_neg h
  rw [lastPlace]
  by_cases hgoes : p.Goes length
  · rw [if_pos hgoes]
    cases turns with
    | zero => exact hnext
    | succ turns => rw [lastPlace, if_neg (fun h' => h2 hgoes.2 h'.1), hnext]
  · rw [if_neg hgoes]

theorem walk_from : ∀ (turns : Nat) (p : Place), ∀ q ∈ walk ids length turns p, p.ploc ≤ q.ploc := by
  intro turns
  induction turns with
  | zero =>
    intro p q hq
    exact absurd hq List.not_mem_nil
  | succ turns ih =>
    intro p q hq
    unfold walk at hq
    split at hq
    · rcases List.mem_cons.mp hq with rfl | hq
      · exact Nat.le_refl _
      · split at hq
        · have := ih _ q hq
          rw [Place.next] at this
          dsimp only at this
          omega
        · exact absurd hq List.not_mem_nil
    · exact absurd hq List.not_mem_nil

/-- The octets before the place do not matter. -/
theorem Matches.congr : ∀ {turns : Nat} {p : Place}, Matches R length turns p c → (∀ k, p.ploc ≤ k → c' k = c k) →
    Matches R length turns p c' := by
  intro turns
  induction turns with
  | zero =>
    intro p h hc k hk
    rw [hc k hk]
    exact h k hk
  | succ turns ih =>
    intro p h hc
    refine ⟨?_, ?_⟩
    · intro hgoes k hk
      rw [hc k hk]
      exact h.1 hgoes k hk
    · intro hgoes
      rcases h.2 hgoes with ⟨hover, hsame, hnext⟩
      refine ⟨?_, ?_, ?_⟩
      · intro halt
        have := hover halt
        exact ⟨(hc _ (Nat.le_refl _)).trans this.first, (hc _ (by omega)).trans this.second,
          fun hl => (hc _ (by omega)).trans (this.third hl)⟩
      · intro halt k hk hin
        rw [hc k hk]
        exact hsame halt k hk hin
      · intro hvisit
        apply ih (hnext hvisit)
        intro k hk
        apply hc
        have : (p.next []).ploc = p.ploc + (p.wlen.toNat + 1) := rfl
        omega

/-- The first octet at a place is the received one, or both are of elements with a length. -/
theorem Matches.first (h : Matches R length turns p c) (hsync : ∀ q ∈ walk [] length turns p, q.Altered R → q.InSync length) :
    c p.ploc = p.buf p.ploc ∨ c p.ploc &&& 0x80 = 0 ∧ p.buf p.ploc &&& 0x80 = 0 := by
  cases turns with
  | zero => exact Or.inl (h _ (Nat.le_refl _))
  | succ turns =>
    by_cases hgoes : p.Goes length
    · rcases h.2 hgoes with ⟨hover, hsame, -⟩
      by_cases halt : p.Altered R
      · right
        have hlen := (hsync p (by rw [walk_goes hgoes]; exact List.mem_cons_self) halt).1
        refine ⟨?_, not_not.mp halt.2.2.1.not_single⟩
        rw [(hover halt).first]
        exact (succ_below hlen).1
      · exact Or.inl (hsame halt).first
    · exact Or.inl (h.1 hgoes _ (Nat.le_refl _))

/-- The third octet of a party number is the received one, or both have the highest bit clear. -/
theorem Matches.third (h : Matches R length (turns + 1) p c) (hgoes : p.Goes length) (hnot : ¬ p.Altered R) (hparty : p.Party)
    (hsync : ∀ q ∈ walk [] length (turns + 1) p, q.Altered R → q.InSync length) :
    c (p.ploc + 2) = p.octet 2 ∨ c (p.ploc + 2) &&& 0x80 = 0 ∧ p.octet 2 &&& 0x80 = 0 := by
  rcases h.2 hgoes with ⟨-, hsame, hnext⟩
  have hnext := hnext (fun halt => absurd halt hnot)
  rw [walk_goes hgoes] at hsync
  have hploc : (p.next []).ploc = p.ploc + (p.wlen.toNat + 1) := rfl
  by_cases htwo : 2 ≤ p.wlen.toNat
  · exact Or.inl (hsame hnot _ (by omega) (Or.inl (by omega)))
  · by_cases hone : p.wlen.toNat = 1
    · have := hnext.first (fun q hq => hsync q (List.mem_cons_of_mem _ hq))
      rw [hploc, hone, next_nil_buf] at this
      exact this
    · -- the length is 255: the octet of the length is the next element
      have hzero : p.wlen.toNat = 0 := by omega
      have hlast : p.octet 1 = 255 := by
        apply succ_wraps
        rw [← hparty.wlen]
        exact hzero
      rw [hzero] at hploc
      cases turns with
      | zero =>
        left
        have := hnext (p.ploc + 2) (by omega)
        rwa [next_nil_buf] at this
      | succ turns =>
        by_cases hq : (p.next []).Goes length
        · have hsingle : (p.next []).Single := by
            unfold Single Place.octet
            rw [next_nil_buf, hploc, Nat.add_zero]
            show p.octet 1 &&& 0x80 ≠ 0
            rw [hlast]
            decide
          have hnot' : ¬ (p.next []).Altered R := fun halt => halt.2.2.1.not_single hsingle
          have hnext' := (hnext.2 hq).2.2 (fun halt => absurd halt hnot')
          rw [walk_goes hq] at hsync
          have := hnext'.first (fun q hq => hsync q (List.mem_cons_of_mem _ (List.mem_cons_of_mem _ hq)))
          have hw : (p.next []).wlen = 0 := if_pos hsingle
          have hploc' : ((p.next []).next []).ploc = p.ploc + 2 := by
            show (p.next []).ploc + ((p.next []).wlen.toNat + 1) = p.ploc + 2
            rw [hw, hploc]
            rfl
          rw [hploc', next_nil_buf, next_nil_buf] at this
          exact this
        · left
          have := hnext.1 hq (p.ploc + 2) (by omega)
          rwa [next_nil_buf] at this

theorem entry_same (h : Same c p) : entry ids (p.inBuf c) = entry ids p := by
  unfold entry
  rw [h.found]
  by_cases hpasses : p.Passes
  · rw [if_pos hpasses, if_pos (h.passes.mpr hpasses)]
    rfl
  · rw [if_neg hpasses, if_neg (fun h' => hpasses (h.passes.mp h'))]
    rfl

/-- A turn of both walks behind which they go on. -/
theorem follows_on {c1 : Mem} (hgoes : p.Goes length) (hgoes' : (p.inBuf c).Goes length)
    (hnext : (p.inBuf c).next ids = (p.next []).inBuf c1) (hentry : entry ids (p.inBuf c) = entry ids p)
    (hbefore : ∀ k, k < p.ploc → c1 k = c k) (hbehind : ∀ k, (p.next []).ploc ≤ k → c1 k = c k)
    (hself : (p.inBuf c).Stored ids → ∀ k, p.ploc ≤ k → k < (p.next []).ploc → c k = p.buf k)
    (hF : Follows R ids length turns (p.next []) c1)
    (hover : p.Altered (grown R ids) → Over (lastPlace ids length turns ((p.next []).inBuf c1)).buf p)
    (hsame : ¬ p.Altered (grown R ids) → Same (lastPlace ids length turns ((p.next []).inBuf c1)).buf p) :
      Follows R ids length (turns + 1) p c := by
  have hploc : (p.next []).ploc = p.ploc + (p.wlen.toNat + 1) := rfl
  have hlast : lastPlace ids length (turns + 1) (p.inBuf c) = lastPlace ids length turns ((p.next []).inBuf c1) := by
    rw [lastPlace, if_pos hgoes', hnext]
  refine ⟨?_, ?_, ?_, ?_⟩
  · rw [walk_goes hgoes', walk_goes hgoes, List.map_cons, List.map_cons, hnext, hF.entries, hentry]
  · intro q hq hstored k hk1 hk2
    rw [walk_goes hgoes', hnext] at hq
    rcases List.mem_cons.mp hq with rfl | hq
    · rw [hnext] at hk2
      exact hself hstored k hk1 hk2
    · have hfrom := walk_from _ _ q hq
      rw [inBuf_ploc] at hfrom
      rw [← hbehind k (Nat.le_trans hfrom hk1), hF.octets q hq hstored k hk1 hk2, next_nil_buf]
  · rw [hlast]
    exact ⟨fun hn => absurd hgoes hn, fun _ => ⟨hover, hsame, fun _ => hF.behind⟩⟩
  · intro k hk
    rw [hlast, hF.before k (by omega), hbefore k hk]

/-- The last turn of both walks, at a party number that is overwritten. -/
theorem follows_end {c1 : Mem} (hgoes : p.Goes length) (hend : ¬ (p.next []).ploc + 1 < length)
    (hend' : (p.inBuf c).Passes → ¬ ((p.inBuf c).next ids).ploc + 1 < length)
    (hbuf : (lastPlace ids length (turns + 1) (p.inBuf c)).buf = c1) (hentry : entry ids (p.inBuf c) = entry ids p)
    (hbefore : ∀ k, k < p.ploc → c1 k = c k)
    (hself : (p.inBuf c).Stored ids → ∀ k, p.ploc ≤ k → k < ((p.inBuf c).next ids).ploc → c k = p.buf k)
    (hgrown : p.Altered (grown R ids)) (hover : Over c1 p) : Follows R ids length (turns + 1) p c := by
  have hwalk : walk ids length (turns + 1) (p.inBuf c) = [p.inBuf c] := walk_last (p := p.inBuf c) hgoes.1 hend'
  refine ⟨?_, ?_, ?_, ?_⟩
  · rw [hwalk, walk_last hgoes.1 (fun _ => hend), List.map_singleton, List.map_singleton, hentry]
  · intro q hq hstored
    rw [hwalk] at hq
    rcases List.mem_singleton.mp hq with rfl
    exact hself hstored
  · rw [hbuf]
    exact ⟨fun hn => absurd hgoes hn,
      fun _ => ⟨fun _ => hover, fun hn => absurd hgrown hn, fun hv => absurd (hv hgrown) hend⟩⟩
  · intro k hk
    rw [hbuf]
    exact hbefore k hk

/-- A turn at a party number that has been overwritten. -/
theorem follows_altered (hnot : ∀ code, R code → code ∉ ids) (hesc : 0x880 ∉ ids) (hgoes : p.Goes length) (halt : p.Altered R)
    (h : Matches R length (turns + 1) p c) (hsync : p.InSync length) (hother : (p.octet 1 + 1).toUInt16 ∉ ids)
    (ih : (p.next []).ploc + 1 < length → Follows R ids length turns (p.next []) c) : Follows R ids length (turns + 1) p c := by
  have hover : Over c p := (h.2 hgoes).1 halt
  have hparty := halt.2.2.1
  have hgrown : p.Altered (grown R ids) := ⟨halt.1, Or.inl halt.2.1, halt.2.2⟩
  have hploc := hparty.next_ploc hsync.1
  have hwlen := hover.wlen hsync.1
  have hfound : (p.inBuf c).found ids = none := hover.found hparty hsync.1 hesc hother
  have hpfound : p.found ids = none := by
    rw [← Option.not_isSome_iff_eq_none, found_isSome ids hparty.not_shift]
    exact hnot _ halt.2.1
  have hentry : entry ids (p.inBuf c) = entry ids p := by
    unfold entry
    rw [hfound, hpfound]
    simp
  have hkeeps : ¬ (p.inBuf c).Rewrites ids := by
    intro hr
    have := hr.1
    rw [hfound] at this
    exact Bool.false_ne_true this
  have hstored : ¬ (p.inBuf c).Stored ids := by
    intro hs
    have := hs.2
    rw [hfound] at this
    exact Bool.false_ne_true this
  by_cases hvisit : (p.next []).ploc + 1 < length
  · have hx : p.octet 2 &&& 0x7f = p.octet 1 := by
      rcases hsync.2 with hx | hend
      · exact hx
      · omega
    have hw : (p.inBuf c).wlen = p.wlen := by rw [hwlen, hx, hparty.wlen]
    have hnext : (p.inBuf c).next ids = (p.next []).inBuf c := by
      rw [inBuf_next ids hw (Or.inl ⟨(hover.first_low hsync.1).2, hparty.not_shift⟩), if_neg hkeeps]
    have hgoes' : (p.inBuf c).Goes length := by
      refine ⟨hgoes.1, ?_⟩
      have := hgoes.2
      unfold Passes at this ⊢
      rwa [hw]
    have hF := ih hvisit
    exact follows_on hgoes hgoes' hnext hentry (fun _ _ => rfl) (fun _ _ => rfl) (fun hs => absurd hs hstored) hF
      (fun _ => hover.kept hploc hF.before) (fun hn => absurd hgrown hn)
  · have hend : (p.inBuf c).Passes → ¬ ((p.inBuf c).next ids).ploc + 1 < length := by
      intro _
      show ¬ p.ploc + ((p.inBuf c).wlen.toNat + 1) + 1 < length
      have hx127 : (p.octet 2 &&& 0x7f).toNat ≤ 127 := by
        rw [UInt8.toNat_and]
        exact Nat.and_le_right
      rw [hwlen, UInt8.toNat_add]
      show ¬ p.ploc + (((p.octet 2 &&& 0x7f).toNat + 1) % 256 + 1) + 1 < length
      rcases hsync.2 with hx | hend
      · rw [hx] at hx127 ⊢
        omega
      · omega
    exact follows_end hgoes hvisit hend (lastPlace_buf hend hkeeps) hentry (fun _ _ => rfl) (fun hs => absurd hs hstored)
      hgrown hover

/-- A turn at an element that has not been overwritten, and is not overwritten now. -/
theorem follows_kept (hgoes : p.Goes length) (halt : ¬ p.Altered R) (h : Matches R length (turns + 1) p c)
    (hkeeps : ¬ (p.inBuf c).Rewrites ids)
    (hsync : ∀ q ∈ walk [] length (turns + 1) p, q.Altered (grown R ids) → q.InSync length)
    (ih : Matches R length turns (p.next []) c → Follows R ids length turns (p.next []) c) :
      Follows R ids length (turns + 1) p c := by
  rcases h.2 hgoes with ⟨-, hsame, hmatch⟩
  have hsame := hsame halt
  have hF := ih (hmatch (fun h' => absurd h' halt))
  have hsyncR : ∀ q ∈ walk [] length (turns + 1) p, q.Altered R → q.InSync length :=
    fun q hq hq' => hsync q hq ⟨hq'.1, Or.inl hq'.2.1, hq'.2.2⟩
  have hnext : (p.inBuf c).next ids = (p.next []).inBuf c := by
    rw [inBuf_next ids hsame.wlen (Or.inr hsame.first), if_neg hkeeps]
  have hgoes' : (p.inBuf c).Goes length := ⟨hgoes.1, hsame.passes.mpr hgoes.2⟩
  have hploc : (p.next []).ploc = p.ploc + (p.wlen.toNat + 1) := rfl
  have hgrown : ¬ p.Altered (grown R ids) := by
    intro hg
    rcases hg with ⟨hpasses, hcode | hcode, hparty, hbit⟩
    · exact halt ⟨hpasses, hcode, hparty, hbit⟩
    · apply hkeeps
      refine ⟨?_, hsame.party.mpr hparty, ?_⟩
      · rw [hsame.found]
        exact (found_isSome ids hparty.not_shift).mpr hcode
      · rcases h.third hgoes halt hparty hsyncR with heq | hclear
        · show c (p.ploc + 2) &&& 0x80 ≠ 0
          rw [heq]
          exact hbit
        · exact absurd hclear.2 hbit
  have hself : ∀ k, p.ploc ≤ k → k < (p.next []).ploc → c k = p.buf k := fun k hk1 hk2 => hsame k hk1 (Or.inl hk2)
  apply follows_on hgoes hgoes' hnext (entry_same hsame) (fun _ _ => rfl) (fun _ _ => rfl) (fun _ => hself) hF
  · intro hg
    exact absurd hg hgrown
  · intro _ k hk hin
    by_cases hbefore : k < (p.next []).ploc
    · rw [hF.before k hbefore]
      exact hsame k hk hin
    · -- a length of 255
      rcases hin with hin | ⟨hs, hk1⟩
      · omega
      · have hk2 : k = (p.next []).ploc := by omega
        have hw : p.wlen = p.octet 1 + 1 := if_neg hs
        have hzero : p.wlen.toNat = 0 := by omega
        have hmax : p.octet 1 = 255 := succ_wraps (hw ▸ hzero)
        have hbit : p.buf k &&& 0x80 ≠ 0 := by
          rw [hk1, show p.buf (p.ploc + 1) = 255 from hmax]
          decide
        rw [walk_goes hgoes] at hsync
        have := hF.behind.first (fun q hq => hsync q (List.mem_cons_of_mem _ hq))
        rw [next_nil_buf, ← hk2] at this
        rcases this with this | this
        · exact this
        · exact absurd this.2 hbit

/-- A turn at a party number that is overwritten now. -/
theorem follows_rewrites (hgoes : p.Goes length) (halt : ¬ p.Altered R) (h : Matches R length (turns + 1) p c)
    (hrewrites : (p.inBuf c).Rewrites ids)
    (hsync : ∀ q ∈ walk [] length (turns + 1) p, q.Altered (grown R ids) → q.InSync length)
    (ih : ∀ c, Matches R length turns (p.next []) c → Follows R ids length turns (p.next []) c) :
      Follows R ids length (turns + 1) p c := by
  rcases h.2 hgoes with ⟨-, hsame, hmatch⟩
  have hsame := hsame halt
  have hmatch := hmatch (fun h' => absurd h' halt)
  have hsyncR : ∀ q ∈ walk [] length (turns + 1) p, q.Altered R → q.InSync length :=
    fun q hq hq' => hsync q hq ⟨hq'.1, Or.inl hq'.2.1, hq'.2.2⟩
  have hparty := hsame.party.mp hrewrites.2.1
  have hbit : c (p.ploc + 2) &&& 0x80 ≠ 0 := hrewrites.2.2
  have hthird : c (p.ploc + 2) = p.octet 2 := by
    rcases h.third hgoes halt hparty hsyncR with heq | hclear
    · exact heq
    · exact absurd hclear.1 hbit
  have hgrown : p.Altered (grown R ids) := by
    refine ⟨hgoes.2, Or.inr ?_, hparty, ?_⟩
    · have := hrewrites.1
      rw [hsame.found] at this
      exact (found_isSome ids hparty.not_shift).mp this
    · rw [← hthird]
      exact hbit
  have hin := hsync p (by rw [walk_goes hgoes]; exact List.mem_cons_self) hgrown
  have hwlen := hparty.wlen_toNat hin.1
  have hploc := hparty.next_ploc hin.1
  have hsecond : c (p.ploc + 1) = p.octet 1 := hsame _ (by omega) (Or.inl (by omega))
  have hover : Over (p.inBuf c).rewritten p := over_rewritten hsecond hthird
  have hnext : (p.inBuf c).next ids = (p.next []).inBuf (p.inBuf c).rewritten := by
    rw [inBuf_next ids hsame.wlen (Or.inr hsame.first), if_pos hrewrites]
  have hgoes' : (p.inBuf c).Goes length := ⟨hgoes.1, hsame.passes.mpr hgoes.2⟩
  have hself : ∀ k, p.ploc ≤ k → k < (p.next []).ploc → c k = p.buf k := fun k hk1 hk2 => hsame k hk1 (Or.inl hk2)
  by_cases hvisit : (p.next []).ploc + 1 < length
  · have hx : p.octet 2 &&& 0x7f = p.octet 1 := by
      rcases hin.2 with hx | hend
      · exact hx
      · omega
    have hbehind : ∀ k, (p.next []).ploc ≤ k → (p.inBuf c).rewritten k = c k :=
      fun k hk => rewritten_behind hthird hgrown.2.2.2 hx (hploc ▸ hk)
    have hF := ih _ (hmatch.congr hbehind)
    exact follows_on hgoes hgoes' hnext (entry_same hsame) (fun _ => rewritten_before) hbehind (fun _ => hself) hF
      (fun _ => hover.kept hploc hF.before) (fun hn => absurd hgrown hn)
  · have hend : (p.inBuf c).Passes → ¬ ((p.inBuf c).next ids).ploc + 1 < length := by
      intro _
      rw [hnext]
      exact hvisit
    have hbuf : (lastPlace ids length (turns + 1) (p.inBuf c)).buf = (p.inBuf c).rewritten := by
      rw [lastPlace, if_pos hgoes', hnext]
      cases turns with
      | zero => rfl
      | succ turns => rw [lastPlace, if_neg (fun h' => hvisit h'.1)]; rfl
    refine follows_end hgoes hvisit hend hbuf (entry_same hsame) (fun _ => rewritten_before) ?_ hgrown hover
    intro _
    rw [hnext]
    exact hself

/-- Where the loop ends. -/
theorem follows_stop (hgoes : ¬ p.Goes length) (h : Matches R length (turns + 1) p c) : Follows R ids length (turns + 1) p c := by
  have hall := h.1 hgoes
  have hsame : Same c p := fun k hk _ => hall k hk
  have hgoes' : ¬ (p.inBuf c).Goes length := fun h' => hgoes ⟨h'.1, hsame.passes.mp h'.2⟩
  have hbuf : (lastPlace ids length (turns + 1) (p.inBuf c)).buf = c := by
    rw [lastPlace, if_neg hgoes']
    rfl
  have hwalk : ∀ (ids : List UInt16) (q : Place), ¬ q.Goes length →
      walk ids length (turns + 1) q = if q.ploc + 1 < length then [q] else [] := by
    intro ids q hq
    rw [walk]
    by_cases hvisit : q.ploc + 1 < length
    · rw [if_pos hvisit, if_pos hvisit, if_neg (show ¬ q.ploc + q.wlen.toNat ≤ bufferSize from fun h' => hq ⟨hvisit, h'⟩)]
    · rw [if_neg hvisit, if_neg hvisit]
  refine ⟨?_, ?_, ?_, ?_⟩
  · rw [hwalk ids _ hgoes', hwalk [] _ hgoes, inBuf_ploc]
    by_cases hvisit : p.ploc + 1 < length
    · have hpasses : ¬ p.Passes := fun h' => hgoes ⟨hvisit, h'⟩
      rw [if_pos hvisit, if_pos hvisit, List.map_singleton, List.map_singleton]
      unfold entry
      rw [if_neg hpasses, if_neg (fun h' => hpasses (hsame.passes.mp h'))]
      rfl
    · rw [if_neg hvisit, if_neg hvisit, List.map_nil]
  · intro q hq hstored
    rw [hwalk ids _ hgoes', inBuf_ploc] at hq
    split at hq
    · rcases List.mem_singleton.mp hq with rfl
      exact absurd ⟨‹_›, hstored.1⟩ hgoes'
    · exact absurd hq List.not_mem_nil
  · rw [hbuf]
    exact ⟨fun _ => hall, fun hg => absurd hg hgoes⟩
  · intro k _
    rw [hbuf]

/-- A pass sees what it would see in the received packet. -/
theorem follows (hnot : ∀ code, R code → code ∉ ids) (hesc : 0x880 ∉ ids) :
    ∀ (turns : Nat) (p : Place) (c : Mem), Matches R length turns p c →
    (∀ q ∈ walk [] length turns p, q.Altered (grown R ids) → q.InSync length) →
    (∀ q ∈ walk [] length turns p, q.Altered R → (q.octet 1 + 1).toUInt16 ∉ ids) → Follows R ids length turns p c := by
  intro turns
  induction turns with
  | zero =>
    intro p c h _ _
    exact ⟨rfl, fun q hq => absurd hq List.not_mem_nil, h, fun _ _ => rfl⟩
  | succ turns ih =>
    intro p c h hsync hother
    by_cases hgoes : p.Goes length
    · have hrest : ∀ c, Matches R length turns (p.next []) c → Follows R ids length turns (p.next []) c := by
        intro c hc
        apply ih _ _ hc
        · intro q hq
          exact hsync q (by rw [walk_goes hgoes]; exact List.mem_cons_of_mem _ hq)
        · intro q hq
          exact hother q (by rw [walk_goes hgoes]; exact List.mem_cons_of_mem _ hq)
      have hself : p ∈ walk [] length (turns + 1) p := by
        rw [walk_goes hgoes]
        exact List.mem_cons_self
      by_cases halt : p.Altered R
      · apply follows_altered hnot hesc hgoes halt h
        · exact hsync p hself ⟨halt.1, Or.inl halt.2.1, halt.2.2⟩
        · exact hother p hself halt
        · intro hvisit
          exact hrest c ((h.2 hgoes).2.2 (fun _ => hvisit))
      · by_cases hrewrites : (p.inBuf c).Rewrites ids
        · exact follows_rewrites hgoes halt h hrewrites hsync hrest
        · exact follows_kept hgoes halt h hrewrites hsync (hrest c)
    · exact follows_stop hgoes h

end Walk

/-! ## The passes -/

/-- The codes that the passes look for. -/
def codesOf (done : List (List UInt16 × Nat)) (code : UInt16) : Prop := ∃ pass ∈ done, code ∈ pass.1

/-- Each party number that is overwritten leaves the walk in step, and is not taken for an address. -/
def Undisturbed (length : Nat) (buf : Mem) : Prop :=
  ∀ p ∈ places [] length buf, p.Passes → p.code = CONN_NR ∨ p.code = OAD → p.octet 2 &&& 0x80 ≠ 0 →
    p.InSync length ∧ (p.code = CONN_NR → p.octet 1 ≠ 107)

section Passes

variable {length : Nat} {buf : Mem}

theorem matches_self : ∀ (turns : Nat) (p : Place), Matches (fun _ => False) length turns p p.buf := by
  intro turns
  induction turns with
  | zero =>
    intro p k _
    rfl
  | succ turns ih =>
    intro p
    refine ⟨fun _ _ _ => rfl, fun _ => ⟨fun halt => absurd halt.2.1 id, fun _ _ _ _ => rfl, fun _ => ?_⟩⟩
    have := ih (p.next [])
    rwa [next_nil_buf] at this

theorem indParseFrom_place (ids : List UInt16) (multiIEsize : Nat) : ∀ (turns : Nat) (s : IndSt),
    (indParseFrom ids multiIEsize length turns s).place = lastPlace ids length turns s.place := by
  intro turns
  induction turns with
  | zero =>
    intro s
    rfl
  | succ turns ih =>
    intro s
    rw [indParseFrom, lastPlace]
    by_cases hgoes : s.place.Goes length
    · rw [if_pos hgoes, if_pos (show s.place.ploc + 1 < length ∧ s.place.ploc + s.place.wlen.toNat ≤ bufferSize from hgoes),
        ih, turn_place]
    · rw [if_neg hgoes, if_neg (show ¬ (s.place.ploc + 1 < length ∧ s.place.ploc + s.place.wlen.toNat ≤ bufferSize) from hgoes)]

theorem codesOf_grown (done : List (List UInt16 × Nat)) (pass : List UInt16 × Nat) :
    codesOf (done ++ [pass]) = grown (codesOf done) pass.1 := by
  funext code
  simp [codesOf, grown, or_and_right, exists_or]

/-- No two passes look for the same code, and a code of a pass does not have the form of a number. -/
theorem passes_apart : passes.Pairwise (fun a b => ∀ code ∈ a.1, code ∉ b.1) ∧ (∀ pass ∈ passes, 0x880 ∉ pass.1) ∧
    (∀ pass ∈ passes, CAD ∉ pass.1) ∧ passes.Pairwise (fun a b => CONN_NR ∈ a.1 → ∀ code ∈ b.1, code = 0x6c ∨ code = 0x810) ∧
      passes.Pairwise (fun a b => OAD ∈ a.1 → ∀ code ∈ b.1, code = 0x810) := by
  have hall : passes.Pairwise fun a b => (a.1.all fun code => !b.1.contains code) = true := by decide +kernel
  have hconn : passes.Pairwise fun a b =>
      (!a.1.contains CONN_NR || b.1.all fun code => decide (code = 0x6c) || decide (code = 0x810)) = true := by
    decide +kernel
  have hoad : passes.Pairwise fun a b => (!a.1.contains OAD || b.1.all fun code => decide (code = 0x810)) = true := by
    decide +kernel
  refine ⟨?_, by decide +kernel, by decide +kernel, ?_, ?_⟩
  · apply hall.imp
    intro a b h code ha hb
    have := List.all_eq_true.mp h code ha
    simp [hb] at this
  · apply hconn.imp
    intro a b h ha code hb
    simp only [List.contains_iff_mem.mpr ha, Bool.not_true, Bool.false_or] at h
    simpa using List.all_eq_true.mp h code hb
  · apply hoad.imp
    intro a b h ha code hb
    simp only [List.contains_iff_mem.mpr ha, Bool.not_true, Bool.false_or] at h
    simpa using List.all_eq_true.mp h code hb

theorem pairwise_split {α : Type} {Q : α → α → Prop} {xs done rest : List α} {x : α} (h : xs.Pairwise Q)
    (hxs : xs = done ++ x :: rest) :
    ∀ y ∈ done, Q y x := by
  rw [hxs, List.pairwise_append] at h
  intro y hy
  exact h.2.2 y hy x List.mem_cons_self

theorem follows_pass (hbuf : Undisturbed length buf) {before done rest : List (List UInt16 × Nat)} {pass : List UInt16 × Nat}
    (hpasses : passes = before ++ pass :: rest) (hsub : ∀ x ∈ done, x ∈ before) {c : Mem}
    (h : Matches (codesOf done) length length ⟨0, 0, 0, buf⟩ c) :
      Follows (codesOf done) pass.1 length length ⟨0, 0, 0, buf⟩ c := by
  have hmem : pass ∈ passes := by
    rw [hpasses]
    simp
  have hcode : ∀ (q : Place) (R : List (List UInt16 × Nat)), (∀ x ∈ R, x ∈ passes) → q.Altered (codesOf R) →
      q.code = CONN_NR ∨ q.code = OAD := by
    intro q R hR halt
    rcases halt.2.1 with ⟨x, hx, hin⟩
    rcases halt.2.2.1 with ho | hn | hc
    · exact Or.inr ho
    · exact Or.inl hn
    · rw [hc] at hin
      exact absurd hin (passes_apart.2.2.1 x (hR x hx))
  have hdone : ∀ x ∈ done, x ∈ passes := by
    intro x hx
    rw [hpasses]
    exact List.mem_append_left _ (hsub x hx)
  apply follows
  · intro code hR hin
    rcases hR with ⟨x, hx, hxin⟩
    exact pairwise_split passes_apart.1 hpasses x (hsub x hx) code hxin hin
  · exact passes_apart.2.1 pass hmem
  · exact h
  · intro q hq halt
    rw [← codesOf_grown] at halt
    refine (hbuf q hq halt.1 (hcode q _ ?_ halt) halt.2.2.2).1
    intro x hx
    rcases List.mem_append.mp hx with hx | hx
    · exact hdone x hx
    · rw [List.mem_singleton.mp hx]
      exact hmem
  · intro q hq halt hin
    have hq' := hbuf q hq halt.1 (hcode q _ hdone halt) halt.2.2.2
    have hlow : (q.octet 1 + 1).toUInt16 ≠ 0x810 ∧ ((q.octet 1 + 1).toUInt16 = 0x6c → q.octet 1 = 107) := succ_code (q.octet 1)
    rcases halt.2.1 with ⟨x, hx, hxin⟩
    rcases hcode q _ hdone halt with hconn | hoad
    · rw [hconn] at hxin
      rcases pairwise_split passes_apart.2.2.2.1 hpasses x (hsub x hx) hxin _ hin with h' | h'
      · exact hq'.2 hconn (hlow.2 h')
      · exact hlow.1 h'
    · rw [hoad] at hxin
      exact hlow.1 (pairwise_split passes_apart.2.2.2.2 hpasses x (hsub x hx) hxin _ hin)

/-- The passes so far have left the elements of the received packet. -/
theorem matches_passes (hbuf : Undisturbed length buf) (done : List (List UInt16 × Nat)) :
    ∀ rest, passes = done ++ rest → Matches (codesOf done) length length ⟨0, 0, 0, buf⟩
      (done.foldl (bufferAfter length) buf) := by
  induction done using List.reverseRecOn with
  | nil =>
    intro rest _
    have hnone : codesOf [] = fun _ => False := by
      funext code
      simp [codesOf]
    rw [hnone]
    exact matches_self length ⟨0, 0, 0, buf⟩
  | append_singleton done pass ih =>
    intro rest hpasses
    rw [List.append_assoc] at hpasses
    have hF := follows_pass hbuf hpasses (fun _ hx => hx) (ih _ hpasses)
    rw [codesOf_grown, List.foldl_append]
    have hafter : bufferAfter length (done.foldl (bufferAfter length) buf) pass =
        (lastPlace pass.1 length length ((⟨0, 0, 0, buf⟩ : Place).inBuf (done.foldl (bufferAfter length) buf))).buf := by
      unfold bufferAfter indParse
      rw [indParseFrom_place]
      rfl
    show Matches _ _ _ _ (bufferAfter length (done.foldl (bufferAfter length) buf) pass)
    rw [hafter]
    exact hF.behind

end Passes

/-- No pass disturbs the later ones, if every overwritten number leaves the walk in step. -/
theorem passes_independent (length : Nat) (buf : Mem) (h : Undisturbed length buf) : Independent length buf := by
  intro done pass rest hpasses
  have hF := follows_pass h hpasses (fun _ hx => hx) (matches_passes h done _ hpasses)
  -- the pass over the received packet
  have hnone : Follows (codesOf []) pass.1 length length ⟨0, 0, 0, buf⟩ buf :=
    follows_pass h hpasses (fun _ hx => absurd hx List.not_mem_nil) (matches_passes h [] _ rfl)
  exact ⟨hF.entries.trans hnone.entries.symm, hF.octets⟩

instance (length : Nat) (buf : Mem) : Decidable (Undisturbed length buf) :=
  inferInstanceAs (Decidable (∀ p ∈ places [] length buf, p.Passes → p.code = CONN_NR ∨ p.code = OAD → p.octet 2 &&& 0x80 ≠ 0 →
    p.InSync length ∧ (p.code = CONN_NR → p.octet 1 ≠ 107)))

/-- A connected number of two octets whose type is 2. -/
theorem passes_independent_two :
    Undisturbed 9 (received [0x4c, 2, 0x82, 0x31, 0x7f, 3, 0x10, 1, 2]) ∧
      Independent 9 (received [0x4c, 2, 0x82, 0x31, 0x7f, 3, 0x10, 1, 2]) :=
  have h : Undisturbed 9 (received [0x4c, 2, 0x82, 0x31, 0x7f, 3, 0x10, 1, 2]) := by decide +kernel
  ⟨h, passes_independent 9 (received [0x4c, 2, 0x82, 0x31, 0x7f, 3, 0x10, 1, 2]) h⟩

/-- Behind a connected number of three octets the last pass does not find the call identity. -/
theorem passes_disturbed :
    ¬ (∀ (length : Nat) (buf : Mem), Independent length buf) ∧
      seen multiEsccaiId 10 (received [0x4c, 3, 0x81, 0x31, 0x32, 0x7f, 3, 0x10, 1, 2]) = [(0, none), (5, some 0)] ∧
      seen multiEsccaiId 10
        ((passes.take 9).foldl (bufferAfter 10) (received [0x4c, 3, 0x81, 0x31, 0x32, 0x7f, 3, 0x10, 1, 2]))
          = [(0, none), (3, none)] := by
  have hreceived : seen multiEsccaiId 10 (received [0x4c, 3, 0x81, 0x31, 0x32, 0x7f, 3, 0x10, 1, 2])
      = [(0, none), (5, some 0)] := by
    decide +kernel
  have hlast : seen multiEsccaiId 10
      ((passes.take 9).foldl (bufferAfter 10) (received [0x4c, 3, 0x81, 0x31, 0x32, 0x7f, 3, 0x10, 1, 2]))
        = [(0, none), (3, none)] := by
    decide +kernel
  refine ⟨?_, hreceived, hlast⟩
  intro h
  have := (h 10 (received [0x4c, 3, 0x81, 0x31, 0x32, 0x7f, 3, 0x10, 1, 2]) (passes.take 9) (multiEsccaiId, 6) [] rfl).1
  rw [hreceived, hlast] at this
  exact absurd this (by decide)

end Divas.Capi.IndParse
