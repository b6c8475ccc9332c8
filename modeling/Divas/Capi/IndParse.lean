/-
  Divas.Capi.IndParse — the information elements of a signalling indication (`IndParse`,
  message.c).

  An element is an octet with the highest bit set, or an identifier, a length and as many octets
  of contents. `IndParse` walks the elements and stores pointers to those of its list. Of a party
  number whose third octet has the highest bit set it overwrites the first three octets. A
  position is compared with the size of the array and not with the received length, and with
  `multiIEsize` the number of pointers is not compared with anything.

  Proved: for every buffer, length and list, all pointers in `parms` are to elements in the
  received octets, no other octet is read or overwritten, and with `multiIEsize` no other entry
  of `parms` is written, if and only if each element of the received octets has the octets that
  are read of it, those that are found are complete, and they are not more than `multiIEsize`
  (`ind_parse_bounds`). Seven facility elements are too many (`ind_parse_seven`).
-/

import Divas.Lib.Bytes
import Mathlib.Logic.Function.Basic
import Mathlib.Data.List.Basic

namespace Divas.Capi.IndParse

open Divas.Lib.Bytes

def SHIFT : UInt8 := 0x90
def ESC : UInt8 := 0x7f
def SDNCMPL : UInt16 := 0xa1
def CONG_RR : UInt16 := 0xb0
def CONG_RNR : UInt16 := 0xbf
def OAD : UInt16 := 0x6c
def CONN_NR : UInt16 := 0x4c
def CAD : UInt16 := 0x0c

/-- The size of `P` in a receive buffer. -/
def bufferSize : Nat := 270

/-- Where the walk stands: `ploc`, `codeset`, `lock`, and the buffer `in`. -/
structure Place where
  ploc : Nat
  codeset : UInt8
  lock : UInt8
  buf : Mem

namespace Place

variable (ids : List UInt16) (p : Place)

/-- `in[ploc + k]`. -/
def octet (k : Nat) : UInt8 := p.buf (p.ploc + k)

def Single : Prop := p.octet 0 &&& 0x80 ≠ 0

instance : Decidable p.Single := inferInstanceAs (Decidable (_ ≠ _))

def wlen : UInt8 := if p.Single then 0 else p.octet 1 + 1

/-- `codeset` at the element. -/
def codesetHere : UInt8 := if p.lock &&& 0x80 ≠ 0 then p.codeset else p.lock

/-- `lock` at the element. -/
def lockHere : UInt8 := if p.lock &&& 0x80 ≠ 0 then p.lock &&& 0x7f else p.lock

def IsShift : Prop := p.octet 0 &&& 0xf0 = SHIFT

instance : Decidable p.IsShift := inferInstanceAs (Decidable (_ = _))

def code : UInt16 :=
  (if p.octet 0 = ESC ∧ 3 ≤ p.wlen then (p.octet 2).toUInt16 ||| 0x800 else (p.octet 0).toUInt16) |||
    (p.codesetHere.toUInt16 <<< 8)

/-- The index in `parms_id`, without its first entry. -/
def found : Option Nat := if p.IsShift then none else ids.findIdx? (· = p.code)

def Party : Prop := p.code = OAD ∨ p.code = CONN_NR ∨ p.code = CAD

instance : Decidable p.Party := inferInstanceAs (Decidable (_ ∨ _ ∨ _))

def SingleOctet : Prop := p.code = SDNCMPL ∨ p.code = CONG_RR ∨ p.code = CONG_RNR

instance : Decidable p.SingleOctet := inferInstanceAs (Decidable (_ ∨ _ ∨ _))

/-- The element is found and overwritten. -/
def Rewrites : Prop := (p.found ids).isSome ∧ p.Party ∧ p.octet 2 &&& 0x80 ≠ 0

instance : Decidable (p.Rewrites ids) := inferInstanceAs (Decidable (_ ∧ _ ∧ _))

def rewritten : Mem := store p.buf p.ploc [p.octet 1 + 1, p.octet 2 &&& 0x7f, 0x80]

/-- What is stored in `parms`: a position in the buffer. -/
def pointer : Nat := if p.Rewrites ids then p.ploc else if p.SingleOctet then p.ploc else p.ploc + 1

def next : Place where
  ploc := p.ploc + (p.wlen.toNat + 1)
  codeset := if p.IsShift then p.octet 0 &&& 7 else p.codesetHere
  lock := if p.IsShift then (if p.octet 0 &&& 0x08 = 0 then p.octet 0 &&& 7 else p.lockHere) ||| 0x80 else p.lockHere
  buf := if p.Rewrites ids then p.rewritten else p.buf

end Place

/-- The walk, and `parms`: a position in the buffer, or the empty string. -/
structure IndSt where
  place : Place
  mIEindex : Nat
  parms : Nat → Option Nat

section Walk

variable (ids : List UInt16) (multiIEsize length : Nat)

/-- The index in `parms` of the element at hand. -/
def IndSt.index (s : IndSt) (i : Nat) : Nat := if multiIEsize = 0 then i else s.mIEindex

/-- A turn of the loop. -/
def IndSt.turn (s : IndSt) : IndSt :=
  match s.place.found ids with
  | none => { s with place := s.place.next ids }
  | some i =>
    { place := s.place.next ids
      mIEindex := s.index multiIEsize i + 1
      parms := Function.update s.parms (s.index multiIEsize i) (some (s.place.pointer ids)) }

/-- The loop, in at most `turns` turns. -/
def indParseFrom : Nat → IndSt → IndSt
  | 0, s => s
  | turns + 1, s =>
    if s.place.ploc + 1 < length ∧ s.place.ploc + s.place.wlen.toNat ≤ bufferSize then indParseFrom turns (s.turn ids multiIEsize)
    else s

/-- The state before the loop. -/
def IndSt.init (buf : Mem) (parms : Nat → Option Nat) : IndSt where
  place := ⟨0, 0, 0, buf⟩
  mIEindex := 0
  parms k := if k < ids.length ∨ k < multiIEsize then none else parms k

/-- `IndParse`. -/
def indParse (buf : Mem) (parms : Nat → Option Nat) : IndSt :=
  indParseFrom ids multiIEsize length length (IndSt.init ids multiIEsize buf parms)

/-- The places that the walk reaches. -/
def walk : Nat → Place → List Place
  | 0, _ => []
  | turns + 1, p =>
    if p.ploc + 1 < length then
      p :: if p.ploc + p.wlen.toNat ≤ bufferSize then walk turns (p.next ids) else []
    else []

/-- The places that `IndParse` reaches. -/
def places (buf : Mem) : List Place := walk ids length length ⟨0, 0, 0, buf⟩

end Walk

namespace Place

variable (ids : List UInt16) (length : Nat) (p : Place)

/-- The check of the length lets the element pass. -/
def Passes : Prop := p.ploc + p.wlen.toNat ≤ bufferSize

instance : Decidable p.Passes := inferInstanceAs (Decidable (_ ≤ _))

/-- A pointer to the element is stored. -/
def Stored : Prop := p.Passes ∧ (p.found ids).isSome

instance : Decidable (p.Stored ids) := inferInstanceAs (Decidable (_ ∧ _))

/-- The third octet is read: the code of an escape, or the type of a party number. -/
def ThirdRead : Prop :=
  p.Passes ∧ ¬ p.IsShift ∧ (p.octet 0 = ESC ∧ 3 ≤ p.wlen ∨ (p.found ids).isSome ∧ p.Party)

instance : Decidable (p.ThirdRead ids) := inferInstanceAs (Decidable (_ ∧ _ ∧ _))

/-- The positions that the turn reads. -/
def reads : List Nat :=
  p.ploc :: (if ¬ p.Single ∨ p.Stored ids ∧ ¬ p.SingleOctet then [p.ploc + 1] else []) ++
    if p.ThirdRead ids then [p.ploc + 2] else []

/-- The positions that the turn overwrites. -/
def overwritten : List Nat := if p.Passes ∧ p.Rewrites ids then [p.ploc, p.ploc + 1, p.ploc + 2] else []

/-- The end of the element: of an octet, or of as many octets as its length says. -/
def elementEnd : Nat := if p.SingleOctet then p.ploc + 1 else p.ploc + 2 + (p.octet 1).toNat

/-- A pointer to the element, as the turn leaves it: to its only octet, or to the number of
    octets that it has behind there. -/
def Points (q : Nat) : Prop :=
  p.ploc ≤ q ∧ q < p.elementEnd ∧ (p.SingleOctet ∨ q + 1 + ((p.next ids).buf q).toNat ≤ p.elementEnd)

/-- The third octet is received if it is read, and the element if it is found. -/
def Fits : Prop := (p.ThirdRead ids → p.ploc + 2 < length) ∧ (p.Stored ids → p.elementEnd ≤ length)

end Place

/-! ## The received octets -/

/-- A receive buffer. -/
def received (octets : List UInt8) : Mem := fun i => octets.getD i 0

/-- The received octets from an element on. -/
structure Rest where
  codeset : UInt8
  lock : UInt8
  octets : List UInt8

namespace Rest

variable (ids : List UInt16) (length : Nat) (r : Rest)

/-- The element at the front. -/
def front : Place := ⟨0, r.codeset, r.lock, received r.octets⟩

/-- As many octets are left of `length` that the check lets the element pass. -/
def Passes : Prop := length - r.octets.length + r.front.wlen.toNat ≤ bufferSize

instance : Decidable (r.Passes length) := inferInstanceAs (Decidable (_ ≤ _))

/-- The third octet is needed: of an escape element with a code, or of a party number that is found. -/
def NeedsThird : Prop := ¬ r.front.IsShift ∧
    (r.front.octet 0 = ESC ∧ 3 ≤ r.front.wlen ∨ (r.front.found ids).isSome ∧ r.front.Party)

instance : Decidable (r.NeedsThird ids) := inferInstanceAs (Decidable (_ ∧ _))

/-- The octets that are needed are there, and all of the element if it is found. -/
def Complete : Prop :=
  r.Passes length → (r.NeedsThird ids → 3 ≤ r.octets.length) ∧ ((r.front.found ids).isSome → r.front.elementEnd ≤ r.octets.length)

instance : Decidable (r.Complete ids length) := inferInstanceAs (Decidable (_ → _ ∧ _))

/-- The octets with the element overwritten, if it is a party number that is found. -/
def left : List UInt8 :=
  if r.front.Rewrites ids then [r.front.octet 1 + 1, r.front.octet 2 &&& 0x7f, 0x80] ++ r.octets.drop 3 else r.octets

/-- From the next element on. -/
def behind : Rest :=
  ⟨(r.front.next ids).codeset, (r.front.next ids).lock, (r.left ids).drop (r.front.wlen.toNat + 1)⟩

/-- The elements, each with what is behind it. -/
def elements : Nat → Rest → List Rest
  | 0, _ => []
  | turns + 1, r => if 2 ≤ r.octets.length then r :: if r.Passes length then elements turns (r.behind ids) else [] else []

/-- The elements that are found. -/
def foundIn (rs : List Rest) : List Rest := rs.filter fun r => r.Passes length ∧ (r.front.found ids).isSome

end Rest

section Bounds

variable (ids : List UInt16) (multiIEsize length : Nat) (buf : Mem)

/-- The state after some turns. -/
def after (turns : Nat) (parms : Nat → Option Nat) : IndSt :=
  indParseFrom ids multiIEsize length turns (IndSt.init ids multiIEsize buf parms)

/-- What a turn stores in `parms` points to an element in the received octets, and so does all that
    `parms` has in the end; no other octet is read or overwritten, and with `multiIEsize` no other
    entry of `parms` is written. -/
structure Bounded : Prop where
  stores : ∀ parms turns, turns < length → ∀ s, s = after ids multiIEsize length buf turns parms →
    s.place.ploc + 1 < length → s.place.Passes → ∀ i, s.place.found ids = some i →
      ∃ q, (s.turn ids multiIEsize).parms (s.index multiIEsize i) = some q ∧ s.place.Points ids q ∧ s.place.elementEnd ≤ length
  pointers : ∀ parms k q, (indParse ids multiIEsize length buf parms).parms k = some q →
    parms k = some q ∨ ∃ p ∈ places ids length buf, p.Points ids q ∧ p.elementEnd ≤ length
  octets : ∀ p ∈ places ids length buf, ∀ k ∈ p.reads ids ++ p.overwritten ids, k < length
  entries : multiIEsize ≠ 0 → ∀ parms k, multiIEsize ≤ k → (indParse ids multiIEsize length buf parms).parms k = parms k

/-- The elements of the received octets. -/
def receivedElements : List Rest := Rest.elements ids length length ⟨0, 0, load buf 0 length⟩

/-- The elements that are found. -/
def stored : List Place := (places ids length buf).filter (·.Stored ids)

end Bounds

/-! ## The octets -/

theorem Place.reads_iff {ids : List UInt16} {length : Nat} {p : Place} (h : p.ploc + 1 < length) :
    (∀ k ∈ p.reads ids ++ p.overwritten ids, k < length) ↔ (p.ThirdRead ids → p.ploc + 2 < length) := by
  have hthird : p.Passes ∧ p.Rewrites ids → p.ThirdRead ids := by
    intro h
    rcases h with ⟨hpasses, hfound, hparty, -⟩
    refine ⟨hpasses, ?_, Or.inr ⟨hfound, hparty⟩⟩
    intro hshift
    rw [Place.found, if_pos hshift] at hfound
    exact Bool.false_ne_true hfound
  constructor
  · intro hall hread
    apply hall
    unfold reads
    rw [if_pos hread]
    simp
  · intro hread k hk
    rcases List.mem_append.mp hk with hk | hk
    · rcases List.mem_append.mp hk with hk | hk
      · rcases List.mem_cons.mp hk with rfl | hk
        · omega
        · split at hk
          · rcases List.mem_singleton.mp hk with rfl
            exact h
          · exact absurd hk List.not_mem_nil
      · split at hk
        · rcases List.mem_singleton.mp hk with rfl
          exact hread ‹_›
        · exact absurd hk List.not_mem_nil
    · unfold overwritten at hk
      split at hk
      · have := hread (hthird ‹_›)
        simp only [List.mem_cons, List.not_mem_nil, or_false] at hk
        omega
      · exact absurd hk List.not_mem_nil

theorem walk_inside {ids : List UInt16} {length : Nat} : ∀ (turns : Nat) (p : Place), ∀ q ∈ walk ids length turns p,
    q.ploc + 1 < length := by
  intro turns
  induction turns with
  | zero =>
    intro p q hq
    exact absurd hq List.not_mem_nil
  | succ turns ih =>
    intro p q hq
    unfold walk at hq
    split at hq
    · rcases List.mem_cons.mp hq with rfl | hq
      · assumption
      · split at hq
        · exact ih _ q hq
        · exact absurd hq List.not_mem_nil
    · exact absurd hq List.not_mem_nil

/-! ## The entries of `parms` -/

section Entries

variable {ids : List UInt16} {multiIEsize length : Nat} {s : IndSt}

/-- The number of elements that are found. -/
def count (ids : List UInt16) (length turns : Nat) (p : Place) : Nat := ((walk ids length turns p).filter (·.Stored ids)).length

theorem turn_place : (s.turn ids multiIEsize).place = s.place.next ids := by
  unfold IndSt.turn
  split
  · rfl
  · rfl

theorem count_succ (multiIEsize : Nat) {turns : Nat}
    (h : s.place.ploc + 1 < length ∧ s.place.ploc + s.place.wlen.toNat ≤ bufferSize) :
    count ids length (turns + 1) s.place =
      (if (s.place.found ids).isSome then 1 else 0) + count ids length turns (s.turn ids multiIEsize).place := by
  unfold count
  rw [turn_place, walk, if_pos h.1, if_pos h.2, List.filter_cons]
  by_cases hfound : (s.place.found ids).isSome
  · have hstored : s.place.Stored ids := ⟨h.2, hfound⟩
    rw [if_pos (decide_eq_true hstored), if_pos hfound, List.length_cons, Nat.add_comm]
  · have hstored : ¬ s.place.Stored ids := fun hs => hfound hs.2
    rw [if_neg (by simpa using hstored), if_neg hfound, Nat.zero_add]

theorem count_done {turns : Nat} (h : ¬ (s.place.ploc + 1 < length ∧ s.place.ploc + s.place.wlen.toNat ≤ bufferSize)) :
    count ids length (turns + 1) s.place = 0 := by
  unfold count walk
  by_cases h1 : s.place.ploc + 1 < length
  · have h2 : ¬ s.place.ploc + s.place.wlen.toNat ≤ bufferSize := fun h2 => h ⟨h1, h2⟩
    have hstored : ¬ s.place.Stored ids := fun hs => h2 hs.1
    rw [if_pos h1, if_neg h2, List.filter_cons, if_neg (by simpa using hstored)]
    rfl
  · rw [if_neg h1]
    rfl

/-- With `multiIEsize` the next entries get the pointers, and the others stay. -/
theorem indParseFrom_parms (ids : List UInt16) (length : Nat) (hmulti : multiIEsize ≠ 0) : ∀ (turns : Nat) (s : IndSt) (k : Nat),
    (s.mIEindex ≤ k ∧ k < s.mIEindex + count ids length turns s.place →
      ((indParseFrom ids multiIEsize length turns s).parms k).isSome) ∧
      (k < s.mIEindex ∨ s.mIEindex + count ids length turns s.place ≤ k →
        (indParseFrom ids multiIEsize length turns s).parms k = s.parms k) := by
  intro turns
  induction turns with
  | zero =>
    intro s k
    have hcount : count ids length 0 s.place = 0 := rfl
    rw [hcount]
    exact ⟨fun h => by omega, fun _ => rfl⟩
  | succ turns ih =>
    intro s k
    rw [indParseFrom]
    by_cases h : s.place.ploc + 1 < length ∧ s.place.ploc + s.place.wlen.toNat ≤ bufferSize
    · rw [if_pos h, count_succ multiIEsize h]
      rcases ih (s.turn ids multiIEsize) k with ⟨hin, hout⟩
      cases hfound : s.place.found ids with
      | none =>
        have hturn : s.turn ids multiIEsize = { s with place := s.place.next ids } := by
          unfold IndSt.turn
          rw [hfound]
        rw [hturn] at hin hout ⊢
        simp only [Option.isSome_none, Bool.false_eq_true, if_false, Nat.zero_add]
        exact ⟨hin, hout⟩
      | some i =>
        have hturn : s.turn ids multiIEsize =
            ⟨s.place.next ids, s.mIEindex + 1, Function.update s.parms s.mIEindex (some (s.place.pointer ids))⟩ := by
          unfold IndSt.turn IndSt.index
          rw [hfound]
          dsimp only
          rw [if_neg hmulti]
        rw [hturn] at hin hout ⊢
        simp only [Option.isSome_some, if_true]
        dsimp only at hin hout
        constructor
        · intro hk
          by_cases hself : k = s.mIEindex
          · subst hself
            rw [hout (Or.inl (Nat.lt_succ_self _)), Function.update_self]
            rfl
          · exact hin (by omega)
        · intro hk
          have hother : k ≠ s.mIEindex := by omega
          rw [hout (by omega), Function.update_of_ne hother]
    · rw [if_neg h, count_done h]
      exact ⟨fun hk => by omega, fun _ => rfl⟩

/-- The loop has ended. -/
theorem indParseFrom_ends : ∀ (turns : Nat) (s : IndSt), length ≤ s.place.ploc + turns →
    ¬ ((indParseFrom ids multiIEsize length turns s).place.ploc + 1 < length ∧
      (indParseFrom ids multiIEsize length turns s).place.Passes) := by
  intro turns
  induction turns with
  | zero =>
    intro s h hlast
    rw [indParseFrom] at hlast
    omega
  | succ turns ih =>
    intro s h
    rw [indParseFrom]
    split
    · apply ih
      rw [turn_place, Place.next]
      dsimp only
      omega
    · assumption

/-- Without `multiIEsize` only the entries of the list are written. -/
theorem indParseFrom_single : ∀ (turns : Nat) (s : IndSt) (k : Nat), ids.length ≤ k →
    (indParseFrom ids 0 length turns s).parms k = s.parms k := by
  intro turns
  induction turns with
  | zero =>
    intro s k _
    rfl
  | succ turns ih =>
    intro s k hk
    rw [indParseFrom]
    split
    · rw [ih _ k hk]
      cases hfound : s.place.found ids with
      | none =>
        unfold IndSt.turn
        rw [hfound]
      | some i =>
        have hi : i < ids.length := by
          unfold Place.found at hfound
          split at hfound
          · exact absurd hfound nofun
          · exact (List.findIdx?_eq_some_iff_getElem.mp hfound).1
        unfold IndSt.turn IndSt.index
        rw [hfound]
        dsimp only
        rw [if_pos rfl]
        exact Function.update_of_ne (by omega) _ _
    · rfl

/-- What `parms` has in the end was there before, or it is the pointer of an element that is found. -/
theorem indParseFrom_pointer : ∀ (turns : Nat) (s : IndSt) (k q : Nat),
    (indParseFrom ids multiIEsize length turns s).parms k = some q →
      s.parms k = some q ∨ ∃ p ∈ walk ids length turns s.place, p.Stored ids ∧ p.pointer ids = q := by
  intro turns
  induction turns with
  | zero =>
    intro s k q h
    exact Or.inl h
  | succ turns ih =>
    intro s k q h
    rw [indParseFrom] at h
    split at h
    case isFalse => exact Or.inl h
    case isTrue hgo =>
      have hwalk : walk ids length (turns + 1) s.place = s.place :: walk ids length turns (s.place.next ids) := by
        rw [walk, if_pos hgo.1, if_pos hgo.2]
      rw [hwalk]
      rcases ih _ k q h with hq | ⟨p, hp, hstored, hpointer⟩
      · cases hfound : s.place.found ids with
        | none =>
          have hturn : (s.turn ids multiIEsize).parms = s.parms := by
            unfold IndSt.turn
            rw [hfound]
          rw [hturn] at hq
          exact Or.inl hq
        | some i =>
          have hturn : (s.turn ids multiIEsize).parms =
              Function.update s.parms (s.index multiIEsize i) (some (s.place.pointer ids)) := by
            unfold IndSt.turn
            rw [hfound]
          rw [hturn] at hq
          by_cases hself : k = s.index multiIEsize i
          · subst hself
            rw [Function.update_self, Option.some.injEq] at hq
            exact Or.inr ⟨s.place, List.mem_cons_self, ⟨hgo.2, by rw [hfound]; rfl⟩, hq⟩
          · rw [Function.update_of_ne hself] at hq
            exact Or.inl hq
      · rw [turn_place] at hp
        exact Or.inr ⟨p, List.mem_cons_of_mem _ hp, hstored, hpointer⟩

end Entries

/-! ## The pointers -/

section Pointers

variable {ids : List UInt16} {multiIEsize length : Nat}

theorem Place.elementEnd_single {p : Place} (h : p.SingleOctet) : p.elementEnd = p.ploc + 1 := if_pos h

theorem Place.elementEnd_length {p : Place} (h : ¬ p.SingleOctet) : p.elementEnd = p.ploc + 2 + (p.octet 1).toNat := if_neg h

/-- A party number is no element of an octet. -/
theorem Place.Party.not_singleOctet {p : Place} (h : p.Party) : ¬ p.SingleOctet := by
  unfold Place.Party at h
  unfold Place.SingleOctet
  rcases h with h | h | h
  · rw [h]; decide
  · rw [h]; decide
  · rw [h]; decide

theorem Place.points_pointer (ids : List UInt16) (p : Place) : p.Points ids (p.pointer ids) := by
  unfold Points pointer
  by_cases hrewrites : p.Rewrites ids
  · have hbuf : (p.next ids).buf p.ploc = p.octet 1 + 1 := by
      have hnext : (p.next ids).buf = p.rewritten := if_pos hrewrites
      rw [hnext]
      exact store_inside p.buf (k := p.ploc) (i := 0) (by simp)
    have hone : (p.octet 1 + 1).toNat ≤ (p.octet 1).toNat + 1 := Nat.mod_le _ _
    rw [if_pos hrewrites, hbuf, elementEnd_length hrewrites.2.1.not_singleOctet]
    exact ⟨Nat.le_refl _, by omega, Or.inr (by omega)⟩
  · rw [if_neg hrewrites]
    by_cases hsingle : p.SingleOctet
    · rw [if_pos hsingle, elementEnd_single hsingle]
      exact ⟨Nat.le_refl _, Nat.lt_succ_self _, Or.inl hsingle⟩
    · have hbuf : (p.next ids).buf (p.ploc + 1) = p.octet 1 := by
        have hnext : (p.next ids).buf = p.buf := if_neg hrewrites
        rw [hnext]
        rfl
      rw [if_neg hsingle, hbuf, elementEnd_length hsingle]
      exact ⟨by omega, by omega, Or.inr (by omega)⟩

/-- A place of the walk is reached after some turns. -/
theorem walk_reached {p : Place} : ∀ (turns : Nat) (s : IndSt), p ∈ walk ids length turns s.place →
    p.ploc + 1 < length ∧ ∃ n < turns, (indParseFrom ids multiIEsize length n s).place = p := by
  intro turns
  induction turns with
  | zero =>
    intro s h
    exact absurd h List.not_mem_nil
  | succ turns ih =>
    intro s h
    unfold walk at h
    split at h
    case isFalse => exact absurd h List.not_mem_nil
    case isTrue hin =>
      rcases List.mem_cons.mp h with rfl | h
      · exact ⟨hin, 0, Nat.succ_pos _, rfl⟩
      · split at h
        case isFalse => exact absurd h List.not_mem_nil
        case isTrue hpasses =>
          have hturn : (s.turn ids multiIEsize).place = s.place.next ids := turn_place
          rw [← hturn] at h
          obtain ⟨hp, n, hn, hplace⟩ := ih _ h
          refine ⟨hp, n + 1, Nat.succ_lt_succ hn, ?_⟩
          rw [indParseFrom, if_pos ⟨hin, hpasses⟩]
          exact hplace

theorem turn_stores {s : IndSt} {i : Nat} (h : s.place.found ids = some i) :
    (s.turn ids multiIEsize).parms (s.index multiIEsize i) = some (s.place.pointer ids) := by
  unfold IndSt.turn
  rw [h]
  exact Function.update_self _ _ _

/-- A place that is reached after some turns is one of the walk. -/
theorem reached_walk : ∀ (turns n : Nat) (s : IndSt), n < turns →
    (indParseFrom ids multiIEsize length n s).place.ploc + 1 < length →
    (indParseFrom ids multiIEsize length n s).place ∈ walk ids length turns s.place := by
  intro turns
  induction turns with
  | zero =>
    intro n s hn
    omega
  | succ turns ih =>
    intro n s hn hin
    cases n with
    | zero =>
      rw [indParseFrom] at hin ⊢
      rw [walk, if_pos hin]
      exact List.mem_cons_self
    | succ n =>
      rw [indParseFrom] at hin ⊢
      by_cases hgo : s.place.ploc + 1 < length ∧ s.place.ploc + s.place.wlen.toNat ≤ bufferSize
      · rw [if_pos hgo] at hin ⊢
        have := ih n _ (by omega) hin
        rw [turn_place] at this
        rw [walk, if_pos hgo.1, if_pos hgo.2]
        exact List.mem_cons_of_mem _ this
      · rw [if_neg hgo] at hin ⊢
        rw [walk, if_pos hin]
        exact List.mem_cons_self

end Pointers

/-! ## The walk over the received octets -/

section Received

variable {ids : List UInt16} {length : Nat}

/-- The walk stands at the front of what is left of the received octets. -/
structure Stands (length : Nat) (p : Place) (r : Rest) : Prop where
  codeset : r.codeset = p.codeset
  lock : r.lock = p.lock
  octets : r.octets = load p.buf p.ploc (length - p.ploc)

namespace Stands

variable {p : Place} {r : Rest}

theorem length_eq (h : Stands length p r) : r.octets.length = length - p.ploc := by rw [h.octets, load_length]

theorem octet (h : Stands length p r) {k : Nat} (hk : p.ploc + k < length) : r.front.octet k = p.octet k := by
  show r.octets.getD (0 + k) 0 = p.buf (p.ploc + k)
  rw [h.octets, Nat.zero_add, List.getD_eq_getElem _ _ (by rw [load_length]; omega)]
  simp [load]

theorem single (h : Stands length p r) (hin : p.ploc + 1 < length) : r.front.Single ↔ p.Single := by
  unfold Place.Single
  rw [h.octet (show p.ploc + 0 < length by omega)]

theorem wlen (h : Stands length p r) (hin : p.ploc + 1 < length) : r.front.wlen = p.wlen := by
  unfold Place.wlen
  rw [h.octet hin]
  exact if_congr (h.single hin) rfl rfl

theorem passes (h : Stands length p r) (hin : p.ploc + 1 < length) : r.Passes length ↔ p.Passes := by
  unfold Rest.Passes Place.Passes
  rw [h.wlen hin, h.length_eq, Nat.sub_sub_self (by omega)]

theorem isShift (h : Stands length p r) (hin : p.ploc + 1 < length) : r.front.IsShift ↔ p.IsShift := by
  unfold Place.IsShift
  rw [h.octet (show p.ploc + 0 < length by omega)]

theorem codesetHere (h : Stands length p r) : r.front.codesetHere = p.codesetHere := by
  unfold Place.codesetHere
  show (if r.lock &&& 0x80 ≠ 0 then r.codeset else r.lock) = _
  rw [h.codeset, h.lock]

/-- The code, if the third octet is received or not needed for it. -/
theorem code (h : Stands length p r) (hin : p.ploc + 1 < length) (hthird : p.octet 0 = ESC ∧ 3 ≤ p.wlen → p.ploc + 2 < length) :
    r.front.code = p.code := by
  unfold Place.code
  rw [h.codesetHere, h.octet (show p.ploc + 0 < length by omega), h.wlen hin]
  by_cases hesc : p.octet 0 = ESC ∧ 3 ≤ p.wlen
  · rw [if_pos hesc, if_pos hesc, h.octet (hthird hesc)]
  · rw [if_neg hesc, if_neg hesc]

theorem found (h : Stands length p r) (hin : p.ploc + 1 < length) (hcode : r.front.code = p.code) :
    r.front.found ids = p.found ids := by
  unfold Place.found
  rw [hcode]
  exact if_congr (h.isShift hin) rfl rfl

theorem party (hcode : r.front.code = p.code) : r.front.Party ↔ p.Party := by
  unfold Place.Party
  rw [hcode]

theorem needsThird (h : Stands length p r) (hin : p.ploc + 1 < length) (hpasses : p.Passes) (hcode : r.front.code = p.code) :
    r.NeedsThird ids ↔ p.ThirdRead ids := by
  unfold Rest.NeedsThird Place.ThirdRead
  rw [h.isShift hin, h.octet (show p.ploc + 0 < length by omega), h.wlen hin, h.found hin hcode, party hcode]
  exact ⟨fun hneeds => ⟨hpasses, hneeds⟩, fun hread => hread.2⟩

theorem elementEnd (h : Stands length p r) (hin : p.ploc + 1 < length) (hcode : r.front.code = p.code) :
    r.front.elementEnd ≤ r.octets.length ↔ p.elementEnd ≤ length := by
  have hsingle : r.front.SingleOctet ↔ p.SingleOctet := by
    unfold Place.SingleOctet
    rw [hcode]
  have hzero : r.front.ploc = 0 := rfl
  by_cases hs : p.SingleOctet
  · rw [Place.elementEnd_single hs, Place.elementEnd_single (hsingle.mpr hs), h.length_eq, hzero]
    omega
  · rw [Place.elementEnd_length hs, Place.elementEnd_length (fun hr => hs (hsingle.mp hr)), h.length_eq, h.octet hin, hzero]
    omega

/-- Where the third octet is needed and not received, both say so. -/
theorem complete_iff (h : Stands length p r) (hin : p.ploc + 1 < length) : r.Complete ids length ↔ p.Fits ids length := by
  unfold Rest.Complete
  rw [h.passes hin]
  by_cases hpasses : p.Passes
  · by_cases hesc : p.octet 0 = ESC ∧ 3 ≤ p.wlen ∧ ¬ p.ploc + 2 < length
    · -- the code of an escape behind the received octets
      obtain ⟨hescape, hwlen, hshort⟩ := hesc
      have hshift : ¬ p.IsShift := by
        unfold Place.IsShift
        rw [hescape]
        decide
      constructor
      · intro hr
        have hneeds : r.NeedsThird ids := by
          refine ⟨fun hs => hshift ((h.isShift hin).mp hs), Or.inl ⟨?_, by rw [h.wlen hin]; exact hwlen⟩⟩
          rw [h.octet (show p.ploc + 0 < length by omega)]
          exact hescape
        have := (hr hpasses).1 hneeds
        rw [h.length_eq] at this
        omega
      · intro hp
        exact absurd (hp.1 ⟨hpasses, hshift, Or.inl ⟨hescape, hwlen⟩⟩) hshort
    · have hcode : r.front.code = p.code := h.code hin fun hread => by
        by_contra hshort
        exact hesc ⟨hread.1, hread.2, hshort⟩
      rw [h.needsThird hin hpasses hcode, h.found hin hcode, h.elementEnd hin hcode, h.length_eq]
      unfold Place.Fits Place.Stored
      constructor
      · intro hr
        exact ⟨fun hread => by have := (hr hpasses).1 hread; omega, fun hstored => (hr hpasses).2 hstored.2⟩
      · intro hp _
        exact ⟨fun hread => by have := hp.1 hread; omega, fun hfound => hp.2 ⟨hpasses, hfound⟩⟩
  · exact ⟨fun _ => ⟨fun hread => absurd hread.1 hpasses, fun hstored => absurd hstored.1 hpasses⟩, fun _ hp => absurd hp hpasses⟩

/-- With the third octet received where it is needed, the turn does the same. -/
theorem step (h : Stands length p r) (hin : p.ploc + 1 < length) (hpasses : p.Passes) (hfits : p.Fits ids length) :
    r.front.found ids = p.found ids ∧ Stands length (p.next ids) (r.behind ids) := by
  have hcode : r.front.code = p.code := by
    refine h.code hin fun hesc => hfits.1 ⟨hpasses, ?_, Or.inl hesc⟩
    unfold Place.IsShift
    rw [hesc.1]
    decide
  have hfound : r.front.found ids = p.found ids := h.found hin hcode
  have hzero : r.front.octet 0 = p.octet 0 := h.octet (show p.ploc + 0 < length by omega)
  have hlock : r.front.lockHere = p.lockHere := by
    unfold Place.lockHere
    show (if r.lock &&& 0x80 ≠ 0 then r.lock &&& 0x7f else r.lock) = _
    rw [h.lock]
  have hthird : (p.found ids).isSome → p.Party → p.ploc + 2 < length := by
    intro hf hparty
    refine hfits.1 ⟨hpasses, ?_, Or.inr ⟨hf, hparty⟩⟩
    intro hshift
    rw [Place.found, if_pos hshift] at hf
    cases hf
  have hrewrites : r.front.Rewrites ids ↔ p.Rewrites ids := by
    unfold Place.Rewrites
    rw [hfound, party hcode]
    constructor
    · intro hr
      rw [h.octet (hthird hr.1 hr.2.1)] at hr
      exact hr
    · intro hp
      rw [h.octet (hthird hp.1 hp.2.1)]
      exact hp
  have hleft : r.left ids = load (p.next ids).buf p.ploc (length - p.ploc) := by
    unfold Rest.left
    by_cases hrew : p.Rewrites ids
    · have hnext : (p.next ids).buf = p.rewritten := if_pos hrew
      have hlen := hthird hrew.1 hrew.2.1
      have hsplit : length - p.ploc = 3 + (length - p.ploc - 3) := by omega
      rw [if_pos (hrewrites.mpr hrew), hnext, h.octets, h.octet hin, h.octet hlen]
      unfold Place.rewritten
      rw [hsplit, load_add, load_add, List.drop_left' (load_length _ _ _)]
      congr 1
      · exact (load_store_self p.buf p.ploc _).symm
      · exact (load_store_disjoint p.buf (j := p.ploc) (k := p.ploc + 3) (Or.inr (by simp))).symm
    · have hnext : (p.next ids).buf = p.buf := if_neg hrew
      rw [if_neg fun hr => hrew (hrewrites.mp hr), hnext]
      exact h.octets
  refine ⟨hfound, ?_, ?_, ?_⟩
  · show (if r.front.IsShift then r.front.octet 0 &&& 7 else r.front.codesetHere) = _
    rw [hzero, h.codesetHere]
    exact if_congr (h.isShift hin) rfl rfl
  · show (if r.front.IsShift then (if r.front.octet 0 &&& 0x08 = 0 then r.front.octet 0 &&& 7 else r.front.lockHere) ||| 0x80
      else r.front.lockHere) = _
    rw [hzero, hlock]
    exact if_congr (h.isShift hin) rfl rfl
  · show (r.left ids).drop (r.front.wlen.toNat + 1) = load (p.next ids).buf (p.ploc + (p.wlen.toNat + 1))
      (length - (p.ploc + (p.wlen.toNat + 1)))
    rw [hleft, h.wlen hin]
    by_cases hmore : p.wlen.toNat + 1 ≤ length - p.ploc
    · have hsplit : length - p.ploc = (p.wlen.toNat + 1) + (length - (p.ploc + (p.wlen.toNat + 1))) := by omega
      rw [hsplit, load_add, List.drop_left' (load_length _ _ _)]
    · rw [List.drop_of_length_le (by rw [load_length]; omega), show length - (p.ploc + (p.wlen.toNat + 1)) = 0 by omega]
      rfl

end Stands

/-- The places of the walk are the elements of the received octets, up to the first that lacks octets. -/
theorem walk_elements : ∀ (turns : Nat) (p : Place) (r : Rest), Stands length p r →
    ((∀ q ∈ walk ids length turns p, q.Fits ids length) ↔ ∀ q ∈ Rest.elements ids length turns r, q.Complete ids length) ∧
      ((∀ q ∈ walk ids length turns p, q.Fits ids length) →
        ((walk ids length turns p).filter (·.Stored ids)).length
          = (Rest.foundIn ids length (Rest.elements ids length turns r)).length) := by
  intro turns
  induction turns with
  | zero =>
    intro p r _
    exact ⟨⟨fun _ _ h => absurd h List.not_mem_nil, fun _ _ h => absurd h List.not_mem_nil⟩, fun _ => rfl⟩
  | succ turns ih =>
    intro p r h
    unfold walk Rest.elements
    rw [h.length_eq]
    by_cases hin : p.ploc + 1 < length
    case neg =>
      rw [if_neg hin, if_neg (by omega)]
      exact ⟨⟨fun _ _ h => absurd h List.not_mem_nil, fun _ _ h => absurd h List.not_mem_nil⟩, fun _ => rfl⟩
    case pos =>
      rw [if_pos hin, if_pos (show 2 ≤ length - p.ploc by omega)]
      by_cases hpasses : p.Passes
      case neg =>
        have hstored : ¬ p.Stored ids := fun hs => hpasses hs.1
        have hfound : ¬ (r.Passes length ∧ (r.front.found ids).isSome) := fun hs => hpasses ((h.passes hin).mp hs.1)
        rw [if_neg (show ¬ p.ploc + p.wlen.toNat ≤ bufferSize from hpasses), if_neg fun hr => hpasses ((h.passes hin).mp hr)]
        simp only [List.mem_singleton, forall_eq]
        refine ⟨(h.complete_iff hin).symm, fun _ => ?_⟩
        unfold Rest.foundIn
        rw [List.filter_cons, List.filter_cons, if_neg (by simpa using hstored), if_neg (by simpa using hfound)]
        rfl
      case pos =>
        rw [if_pos (show p.ploc + p.wlen.toNat ≤ bufferSize from hpasses), if_pos ((h.passes hin).mpr hpasses)]
        simp only [List.forall_mem_cons]
        by_cases hfits : p.Fits ids length
        case neg => exact ⟨⟨fun hall => absurd hall.1 hfits, fun hall => absurd ((h.complete_iff hin).mp hall.1) hfits⟩,
          fun hall => absurd hall.1 hfits⟩
        case pos =>
          obtain ⟨hfound, hnext⟩ := h.step hin hpasses hfits
          obtain ⟨hiff, hcount⟩ := ih _ _ hnext
          refine ⟨and_congr (h.complete_iff hin).symm hiff, fun hall => ?_⟩
          have hrest := hcount hall.2
          unfold Rest.foundIn at hrest ⊢
          rw [List.filter_cons, List.filter_cons]
          by_cases hsome : (p.found ids).isSome
          · have hstored : p.Stored ids := ⟨hpasses, hsome⟩
            have hfoundr : r.Passes length ∧ (r.front.found ids).isSome :=
              ⟨(h.passes hin).mpr hpasses, by rw [hfound]; exact hsome⟩
            rw [if_pos (decide_eq_true hstored), if_pos (decide_eq_true hfoundr), List.length_cons, List.length_cons, hrest]
          · have hstored : ¬ p.Stored ids := fun hs => hsome hs.2
            have hfoundr : ¬ (r.Passes length ∧ (r.front.found ids).isSome) := fun hs => hsome (by rw [← hfound]; exact hs.2)
            rw [if_neg (by simpa using hstored), if_neg (by simpa using hfoundr), hrest]

end Received

/-- With `multiIEsize` the entries behind stay exactly if neither the list nor the elements found are more. -/
theorem entries_iff {ids : List UInt16} {multiIEsize length : Nat} {buf : Mem} (hmulti : multiIEsize ≠ 0) :
    (∀ parms k, multiIEsize ≤ k → (indParse ids multiIEsize length buf parms).parms k = parms k) ↔
      ids.length ≤ multiIEsize ∧ (stored ids length buf).length ≤ multiIEsize := by
  have hparms := fun parms k =>
    indParseFrom_parms ids length hmulti length (IndSt.init ids multiIEsize buf parms) k
  have hinit : ∀ parms k, (IndSt.init ids multiIEsize buf parms).parms k =
      if k < ids.length ∨ k < multiIEsize then none else parms k := fun _ _ => rfl
  have hcount : ∀ parms, (IndSt.init ids multiIEsize buf parms).mIEindex +
      count ids length length (IndSt.init ids multiIEsize buf parms).place = (stored ids length buf).length := by
    intro parms
    exact Nat.zero_add _
  simp only [hcount, hinit] at hparms
  constructor
  · intro hkeep
    -- the entry behind the last one would be the empty string, or a pointer
    have hfew : (stored ids length buf).length ≤ multiIEsize := by
      by_contra hmany
      have hsome := (hparms (fun _ => none) multiIEsize).1 ⟨Nat.zero_le _, by omega⟩
      have hnone : ((indParse ids multiIEsize length buf fun _ => none).parms multiIEsize) = none := hkeep _ _ (Nat.le_refl _)
      unfold indParse at hnone
      rw [hnone] at hsome
      exact Bool.false_ne_true hsome
    refine ⟨?_, hfew⟩
    by_contra hids
    have hempty := (hparms (fun _ => some 0) multiIEsize).2 (Or.inr hfew)
    rw [if_pos (Or.inl (by omega))] at hempty
    have hold : ((indParse ids multiIEsize length buf fun _ => some 0).parms multiIEsize) = some 0 := hkeep _ _ (Nat.le_refl _)
    unfold indParse at hold
    rw [hempty] at hold
    exact absurd hold nofun
  · intro hsmall parms k hk
    have hstay := (hparms parms k).2 (Or.inr (by omega))
    rw [if_neg (by omega)] at hstay
    exact hstay

/-- The pointers and accesses are in bounds exactly if this holds of each place of the walk, and if the
    elements found are not too many. -/
theorem bounded_iff {ids : List UInt16} {multiIEsize length : Nat} {buf : Mem} :
    Bounded ids multiIEsize length buf ↔
      (∀ p ∈ places ids length buf, p.Fits ids length) ∧
        (multiIEsize ≠ 0 → ids.length ≤ multiIEsize ∧ (stored ids length buf).length ≤ multiIEsize) := by
  have hreads : ∀ p ∈ places ids length buf,
      (∀ k ∈ p.reads ids ++ p.overwritten ids, k < length) ↔ (p.ThirdRead ids → p.ploc + 2 < length) :=
    fun p hp => Place.reads_iff (walk_inside length _ p hp)
  constructor
  · intro h
    refine ⟨fun p hp => ⟨(hreads p hp).mp (h.octets p hp), fun hstored => ?_⟩,
      fun hmulti => (entries_iff hmulti).mp (h.entries hmulti)⟩
    obtain ⟨hin, n, hn, hplace⟩ : p.ploc + 1 < length ∧ ∃ n < length,
        (indParseFrom ids multiIEsize length n (IndSt.init ids multiIEsize buf fun _ => none)).place = p :=
          walk_reached length _ hp
    obtain ⟨i, hfound⟩ := Option.isSome_iff_exists.mp hstored.2
    obtain ⟨q, -, -, hend⟩ := h.stores (fun _ => none) n hn _ rfl (by rw [after, hplace]; exact hin)
      (by rw [after, hplace]; exact hstored.1)
      i (by rw [after, hplace]; exact hfound)
    rw [after, hplace] at hend
    exact hend
  · intro h
    obtain ⟨hfits, hsmall⟩ := h
    refine ⟨?_, ?_, fun p hp => (hreads p hp).mpr (hfits p hp).1, fun hmulti => (entries_iff hmulti).mpr (hsmall hmulti)⟩
    · intro parms n hn s hs hin hpasses i hfound
      have hplace : s.place ∈ places ids length buf := by
        subst hs
        exact reached_walk length n (IndSt.init ids multiIEsize buf parms) hn hin
      refine ⟨_, turn_stores hfound, s.place.points_pointer ids, (hfits _ hplace).2 ⟨hpasses, ?_⟩⟩
      rw [hfound]
      rfl
    · intro parms k q hq
      rcases indParseFrom_pointer length (IndSt.init ids multiIEsize buf parms) k q hq with hold | ⟨p, hp, hstored, rfl⟩
      · left
        have hinit : (IndSt.init ids multiIEsize buf parms).parms k = if k < ids.length ∨
            k < multiIEsize then none else parms k := rfl
        rw [hinit] at hold
        split at hold
        · cases hold
        · exact hold
      · exact Or.inr ⟨p, hp, p.points_pointer ids, (hfits p hp).2 hstored⟩

theorem bounded_iff_received {ids : List UInt16} {multiIEsize length : Nat} {buf : Mem} :
    Bounded ids multiIEsize length buf ↔
      (∀ r ∈ receivedElements ids length buf, r.Complete ids length) ∧
        (multiIEsize ≠ 0 → ids.length ≤ multiIEsize ∧
          (Rest.foundIn ids length (receivedElements ids length buf)).length ≤ multiIEsize) := by
  have hstands : Stands length ⟨0, 0, 0, buf⟩ ⟨0, 0, load buf 0 length⟩ := ⟨rfl, rfl, rfl⟩
  have hwalk : ((∀ p ∈ places ids length buf, p.Fits ids length) ↔ ∀ r ∈ receivedElements ids length buf, r.Complete ids length) ∧
      ((∀ p ∈ places ids length buf, p.Fits ids length) →
        (stored ids length buf).length = (Rest.foundIn ids length (receivedElements ids length buf)).length) :=
    walk_elements length _ _ hstands
  obtain ⟨hiff, hsame⟩ := hwalk
  rw [bounded_iff]
  constructor
  · intro h
    rw [hsame h.1] at h
    exact ⟨hiff.mp h.1, h.2⟩
  · intro h
    have hfits := hiff.mpr h.1
    refine ⟨hfits, ?_⟩
    rw [hsame hfits]
    exact h.2

/-- `IndParse` ends, and without `multiIEsize` it writes the entries of its list only. Everything else
    is in bounds exactly if the received octets have what is needed of each element, and not too many
    are found. -/
theorem ind_parse_bounds (ids : List UInt16) (multiIEsize length : Nat) (buf : Mem) :
    (∀ parms, ¬ ((indParse ids multiIEsize length buf parms).place.ploc + 1 < length ∧
      (indParse ids multiIEsize length buf parms).place.Passes)) ∧
    (∀ parms k, ids.length ≤ k → (indParse ids 0 length buf parms).parms k = parms k) ∧
    (Bounded ids multiIEsize length buf ↔
      (∀ r ∈ receivedElements ids length buf, r.Complete ids length) ∧
        (multiIEsize ≠ 0 → ids.length ≤ multiIEsize ∧
          (Rest.foundIn ids length (receivedElements ids length buf)).length ≤ multiIEsize)) := by
  refine ⟨fun parms => ?_, fun parms k hk => ?_, ?_⟩
  · exact indParseFrom_ends length (IndSt.init ids multiIEsize buf parms) (Nat.le_add_left _ _)
  · have hsame : (indParseFrom ids 0 length length (IndSt.init ids 0 buf parms)).parms k = (IndSt.init ids 0 buf parms).parms k :=
      indParseFrom_single length _ k hk
    exact hsame.trans (if_neg (by omega))
  · exact bounded_iff_received

/-! ## Failures -/

/-- A facility element of an octet. -/
def facility : List UInt8 := [0x1c, 1, 0x91]

/-- The seventh facility element of an indication is stored behind the six entries for them. -/
theorem ind_parse_seven :
    ¬ (∀ (ids : List UInt16) (multiIEsize length : Nat) (buf : Mem), Bounded ids multiIEsize length buf) ∧
      (indParse [0x1c] 6 21 (received (facility ++ facility ++ facility ++ facility ++ facility ++ facility ++ facility))
        fun _ => none).parms 6 = some 19 := by
  have hseventh : (indParse [0x1c] 6 21
      (received (facility ++ facility ++ facility ++ facility ++ facility ++ facility ++ facility)) fun _ => none).parms 6
        = some 19 := by
    decide +kernel
  refine ⟨?_, hseventh⟩
  intro h
  have := (h [0x1c] 6 21 (received (facility ++ facility ++ facility ++ facility ++ facility ++ facility ++ facility))).entries
    (by decide) (fun _ => none) 6 (Nat.le_refl _)
  rw [hseventh] at this
  exact absurd this nofun

/-- An element of five octets that has not been received, and a party number whose third octet is
    behind the received ones. -/
theorem ind_parse_cut :
    ¬ Bounded [0x1c] 6 2 (received [0x1c, 5]) ∧ ¬ Bounded [0x6c] 6 2 (received [0x6c, 0, 0x80]) := by
  constructor
  · intro h
    exact absurd (bounded_iff_received.mp h).1 (by decide)
  · intro h
    exact absurd (bounded_iff_received.mp h).1 (by decide)

end Divas.Capi.IndParse
