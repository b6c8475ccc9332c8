/-
  Divas.Capi.ChiChannel — the channel of a channel identification (`chi_to_channel`, message.c).

  The first byte of the element is its length. A group of octets ends with the first one that has
  bit 8 set. At a primary rate access the element has a group with the kind of access, a group
  with the interface if it is not the implicit one, a group with the kind of channel, and the
  channels: a slot map, or channel numbers. `pchannelmap` is given if several channels are
  acceptable.

  Proved: no octet behind the element is read, and a channel that is returned is the one that the
  element encodes, or the first of those in the channel map, if and only if a slot map that is
  accepted has a slot and begins behind its group (`chi_to_channel_decodes`). A slot map without a
  slot is accepted as channel 32 (`chi_to_channel_empty`).
-/

import Divas.Lib.Bytes
import Mathlib.Data.Nat.Bitwise

namespace Divas.Capi.Chi

open Divas.Lib.Bytes

/-! ## The function -/

/-- What is returned, and the channel map. -/
abbrev Result := UInt8 × Nat

def anyChannel : Result := (0xff, 0)
def wrongCoding : Result := (0xfe, 0)
def dChannel : Result := (0xfd, 0)

section Source

variable (chi : Mem)

def length : Nat := (chi 0).toNat

/-- Reads octet `i`. What is behind the element is not there. -/
def octet (i : Nat) : Option UInt8 := if i ≤ length chi then some (chi i) else none

/-- `for (; i < chi[0] && !(chi[i] & 0x80); i++)`, with `n` octets left. -/
def groupLoop : Nat → Nat → Option Nat
  | 0, i => some i
  | n + 1, i => (octet chi i).bind fun c => if c &&& 0x80 = 0 then groupLoop n (i + 1) else some i

/-- The group from `p` on; `k` gets its last octet, which is not the last one of the element. -/
def group (p : Nat) (k : Nat → Option Result) : Option Result :=
  (groupLoop chi (length chi - p) p).bind fun i =>
    if i = length chi then some wrongCoding
    else (octet chi i).bind fun c => if c &&& 0x80 = 0 then some wrongCoding else k i

/-- `(dword) (1L << ch)`, with a `long` of 64 bits. -/
def oneShl (ch : Nat) : Nat := (1 <<< ch) % 4294967296

/-- `for (ch = 0; !(c & (1 << ch)); ch++)` for an octet with a bit. -/
def lowBitLoop (c : UInt8) : Nat → Nat → Nat
  | 0, ch => ch
  | n + 1, ch => if c.toNat &&& 1 <<< ch = 0 then lowBitLoop c n (ch + 1) else ch

def lowBit (c : UInt8) : Nat := lowBitLoop c 8 0

/-- The loop over the slot map behind `p`, with `n` octets left. -/
def slotLoop : Nat → Nat → Nat → Nat → Option (Nat × Nat)
  | 0, _, ch, map => some (ch, map)
  | n + 1, p, ch, map =>
    (octet chi (p + 1)).bind fun c =>
      if c ≠ 0 then slotLoop n (p + 1) (lowBit c) ((map <<< 8) % 4294967296 ||| c.toNat)
      else slotLoop n (p + 1) (ch + 8) ((map <<< 8) % 4294967296)

/-- The last lines: without `pchannelmap` only one channel is accepted. -/
def accept (mapped : Bool) (excl ch map : Nat) : Option Result :=
  if mapped then some (UInt8.ofNat (excl ||| ch), map)
  else if map ≠ oneShl ch then some wrongCoding
  else some (UInt8.ofNat (excl ||| ch), 0)

/-- A slot map: E1 has 32 slots, T1 has 24 that begin with 1. -/
def slotMap (mapped : Bool) (excl p : Nat) : Option Result :=
  if length chi - p = 4 then (slotLoop chi 4 p 0 0).bind fun (ch, map) => accept mapped excl ch map
  else if length chi - p = 3 then
    (slotLoop chi 3 p 0 0).bind fun (ch, map) => accept mapped excl (ch + 1) ((map <<< 1) % 4294967296)
  else some wrongCoding

/-- `for (i = p; i <= chi[0]; i++)` over the channel numbers, with `n` octets left. -/
def numberLoop : Nat → Nat → Nat → Option (Option Nat)
  | 0, _, map => some (some map)
  | n + 1, i, map =>
    (octet chi i).bind fun c =>
      if 31 < (c &&& 0x7f).toNat then some none else numberLoop n (i + 1) (map ||| oneShl (c &&& 0x7f).toNat)

/-- Channel numbers from `p` on. -/
def numbers (mapped : Bool) (excl p : Nat) : Option Result :=
  (octet chi p).bind fun c =>
    if mapped then
      if 30 < (length chi - p) % 256 then some wrongCoding
      else
        (numberLoop chi (length chi + 1 - p) p 0).bind fun map =>
          match map with
          | none => some wrongCoding
          | some map => if c &&& 0x40 ≠ 0 then some wrongCoding else accept mapped excl (c &&& 0x3f).toNat map
    else if p ≠ length chi then some wrongCoding
    else if 31 < (c &&& 0x3f).toNat then some wrongCoding
    else if c &&& 0x40 ≠ 0 then some wrongCoding
    else accept mapped excl (c &&& 0x3f).toNat (oneShl (c &&& 0x3f).toNat)

/-- The kind of channel from `p` on, and the channels. -/
def channels (mapped : Bool) (excl p : Nat) : Option Result :=
  group chi p fun i =>
    (octet chi p).bind fun c =>
      if c ||| 0xd0 ≠ 0xd3 then some wrongCoding
      else if c &&& 0x10 ≠ 0 then slotMap chi mapped excl p
      else numbers chi mapped excl (i + 1)

/-- `excl`. -/
def exclusive (c : UInt8) : Nat := if c &&& 0x08 ≠ 0 then 0x40 else 0

/-- Primary rate. -/
def primary (mapped : Bool) (c : UInt8) : Option Result :=
  if length chi = 1 ∧ c = 0xac then some dChannel
  else
    group chi 1 fun i =>
      if c ||| 0xc8 ≠ 0xe9 then some wrongCoding
      else if c &&& 0x40 ≠ 0 then group chi (i + 1) fun i => channels chi mapped (exclusive c) (i + 1)
      else channels chi mapped (exclusive c) (i + 1)

/-- Basic rate: one group, which is the element. -/
def basic (mapped : Bool) (c : UInt8) : Option Result :=
  (groupLoop chi (length chi - 1) 1).bind fun i =>
    if i ≠ length chi then some wrongCoding
    else
      (octet chi i).bind fun last =>
        if last &&& 0x80 = 0 then some wrongCoding
        else
          let excl := UInt8.ofNat (exclusive c)
          let oneChannel (ch : UInt8) (map : Nat) : Result := (excl ||| ch, if mapped then map else 0)
          match c ||| 0x98 with
          | 0x98 => some (0, 0)
          | 0x99 => some (oneChannel 1 2)
          | 0x9a => some (oneChannel 2 4)
          | 0x9b => some anyChannel
          | 0x9c => some dChannel
          | _ => some wrongCoding

/-- `chi_to_channel`. `mapped`: `pchannelmap` is given. -/
def chiToChannel (mapped : Bool) : Option Result :=
  (octet chi 0).bind fun n =>
    if n = 0 then some anyChannel
    else (octet chi 1).bind fun c => if c &&& 0x20 ≠ 0 then primary chi mapped c else basic chi mapped c

/-! ## The element -/

/-- A group of octets from `p` to `i`. -/
def Group (p i : Nat) : Prop := p ≤ i ∧ i < length chi ∧ chi i &&& 0x80 ≠ 0 ∧ ∀ j, p ≤ j → j < i → chi j &&& 0x80 = 0

/-- The kind of channel is in the group from `p` to `i`. -/
def KindOfChannel (p i : Nat) : Prop :=
  Group chi p i ∧
    if chi 1 &&& 0x40 ≠ 0 then ∃ g h, Group chi 1 g ∧ Group chi (g + 1) h ∧ p = h + 1
    else ∃ g, Group chi 1 g ∧ p = g + 1

/-- A slot of the octets behind `i`; the last octet has the first eight. -/
def Slot (i k : Nat) : Prop :=
  ∃ q b, i < q ∧ q ≤ length chi ∧ b < 8 ∧ (chi q).toNat.testBit b ∧
    k = 8 * (length chi - q) + b + if length chi - i = 3 then 1 else 0

/-- The element encodes channel `k`. -/
def Encodes (k : Nat) : Prop :=
  ∃ p i, KindOfChannel chi p i ∧
    if chi p &&& 0x10 ≠ 0 then Slot chi i k else ∃ q, i < q ∧ q ≤ length chi ∧ k = (chi q &&& 0x7f).toNat

/-- A slot map that is accepted, behind the octet `p`. -/
def SlotMapAt (p i : Nat) : Prop :=
  KindOfChannel chi p i ∧ chi 1 &&& 0x20 ≠ 0 ∧ chi 1 ||| 0xc8 = 0xe9 ∧ chi p ||| 0xd0 = 0xd3 ∧ chi p &&& 0x10 ≠ 0 ∧
    (length chi - p = 4 ∨ length chi - p = 3)

/-- A result that is a channel is for the channels `S`: without a channel map it is the only one,
    and else the map has them, it is not empty, and it has the result. -/
def Fits (mapped : Bool) (S : Nat → Prop) (res : Option Result) : Prop :=
  ∃ r map, res = some (r, map) ∧
    (r < 0x80 →
      if mapped then map ≠ 0 ∧ (∀ k, map.testBit k ↔ S k) ∧ map.testBit (r &&& 0x3f).toNat
      else (∀ k, S k ↔ k = (r &&& 0x3f).toNat) ∧ (r &&& 0x3f).toNat ≤ 31)

/-- No octet behind the element is read, and a channel of a primary rate access is as the element
    encodes it. -/
def Decodes : Prop :=
  (∀ mapped, chiToChannel chi mapped ≠ none) ∧
    (length chi ≠ 0 → chi 1 &&& 0x20 ≠ 0 → ∀ mapped, Fits mapped (Encodes chi) (chiToChannel chi mapped))

/-- A slot map that is accepted has a slot and begins behind its group. -/
def MapsOk : Prop := ∀ p i, SlotMapAt chi p i → i = p ∧ ∃ q, p < q ∧ q ≤ length chi ∧ chi q ≠ 0

end Source

section Reading

variable {chi : Mem} {p i k n : Nat}

theorem octet_eq (h : i ≤ length chi) : octet chi i = some (chi i) := if_pos h

theorem groupLoop_spec (chi : Mem) (n : Nat) : ∀ {i : Nat}, i + n = length chi →
    ∃ e, groupLoop chi n i = some e ∧ i ≤ e ∧ e ≤ length chi ∧ (∀ j, i ≤ j → j < e → chi j &&& 0x80 = 0) ∧
      (e < length chi → chi e &&& 0x80 ≠ 0) := by
  induction n with
  | zero =>
    intro i hi
    refine ⟨i, rfl, Nat.le_refl i, Nat.le_of_eq hi, ?_, ?_⟩
    · intro j h1 h2
      omega
    · intro h
      omega
  | succ n ih =>
    intro i hi
    rw [groupLoop, octet_eq (by omega), Option.bind_some]
    by_cases hc : chi i &&& 0x80 = 0
    · rcases ih (i := i + 1) (by omega) with ⟨e, hloop, h1, h2, hin, hend⟩
      rw [if_pos hc, hloop]
      refine ⟨e, rfl, by omega, h2, ?_, hend⟩
      intro j hj hje
      by_cases h : j = i
      · rw [h, hc]
      · exact hin j (by omega) hje
    · rw [if_neg hc]
      refine ⟨i, rfl, Nat.le_refl i, by omega, ?_, fun _ => hc⟩
      intro j h1 h2
      omega

/-- A group is read to its end, or the coding is wrong. -/
theorem group_cases (hp : p ≤ length chi) (k : Nat → Option Result) :
    (∃ i, Group chi p i ∧ group chi p k = k i) ∨ ((∀ i, ¬ Group chi p i) ∧ group chi p k = some wrongCoding) := by
  rcases groupLoop_spec chi (length chi - p) (i := p) (by omega) with ⟨e, hloop, hpe, hle, hin, hend⟩
  unfold group
  rw [hloop, Option.bind_some]
  by_cases he : e = length chi
  · rw [if_pos he]
    refine Or.inr ⟨?_, rfl⟩
    intro i hi
    apply hi.2.2.1
    apply hin i hi.1
    have := hi.2.1
    omega
  · have hlast : chi e &&& 0x80 ≠ 0 := hend (by omega)
    rw [if_neg he, octet_eq hle, Option.bind_some, if_neg hlast]
    exact Or.inl ⟨e, ⟨hpe, by omega, hlast, hin⟩, rfl⟩

theorem Group.unique {i' : Nat} (h : Group chi p i) (h' : Group chi p i') : i = i' := by
  rcases h with ⟨h1, -, h2, h3⟩
  rcases h' with ⟨h1', -, h2', h3'⟩
  rcases Nat.lt_trichotomy i i' with hlt | heq | hgt
  · exact absurd (h3' i h1 hlt) h2
  · exact heq
  · exact absurd (h3 i' h1' hgt) h2'

theorem KindOfChannel.unique {p' i' : Nat} (h : KindOfChannel chi p i) (h' : KindOfChannel chi p' i') : p = p' ∧ i = i' := by
  rcases h with ⟨hi, hp⟩
  rcases h' with ⟨hi', hp'⟩
  have heq : p = p' := by
    by_cases h40 : chi 1 &&& 0x40 ≠ 0
    · rw [if_pos h40] at hp hp'
      rcases hp with ⟨g, e, hg, he, rfl⟩
      rcases hp' with ⟨g', e', hg', he', rfl⟩
      have := hg.unique hg'
      subst this
      rw [he.unique he']
    · rw [if_neg h40] at hp hp'
      rcases hp with ⟨g, hg, rfl⟩
      rcases hp' with ⟨g', hg', rfl⟩
      rw [hg.unique hg']
  subst heq
  exact ⟨rfl, hi.unique hi'⟩

/-- What the element encodes is behind the only group with the kind of channel. -/
theorem KindOfChannel.encodes (h : KindOfChannel chi p i) :
    Encodes chi k ↔ if chi p &&& 0x10 ≠ 0 then Slot chi i k else ∃ q, i < q ∧ q ≤ length chi ∧ k = (chi q &&& 0x7f).toNat := by
  constructor
  · rintro ⟨p', i', h', henc⟩
    rcases h.unique h' with ⟨rfl, rfl⟩
    exact henc
  · intro henc
    exact ⟨p, i, h, henc⟩

/-! ## Slot maps -/

theorem testBit_octet {c : UInt8} (h : 8 ≤ k) : c.toNat.testBit k = false := by
  apply Nat.testBit_lt_two_pow
  calc c.toNat < 2 ^ 8 := c.toNat_lt
    _ ≤ 2 ^ k := Nat.pow_le_pow_right (by decide) h

theorem lowBitLoop_spec {c : UInt8} {n ch k : Nat} (hge : ch ≤ k) (hlt : k < ch + n) (hbit : c.toNat.testBit k) :
    lowBitLoop c n ch < ch + n ∧ c.toNat.testBit (lowBitLoop c n ch) := by
  induction n generalizing ch with
  | zero => omega
  | succ n ih =>
    unfold lowBitLoop
    rw [Nat.one_shiftLeft, Nat.and_two_pow]
    cases hch : c.toNat.testBit ch with
    | true => simpa using hch
    | false =>
      have hne : k ≠ ch := by
        rintro rfl
        rw [hbit] at hch
        cases hch
      have := ih (show ch + 1 ≤ k by omega) (by omega)
      rw [show ch + (n + 1) = ch + 1 + n by omega]
      simpa using this

theorem lowBit_spec {c : UInt8} (h : c ≠ 0) : lowBit c < 8 ∧ c.toNat.testBit (lowBit c) := by
  obtain ⟨k, hk⟩ := Nat.exists_testBit_of_ne_zero (fun h0 => h (UInt8.toNat_inj.mp h0))
  have hlt : k < 8 := by
    by_contra hge
    rw [testBit_octet (by omega)] at hk
    cases hk
  have := lowBitLoop_spec (n := 8) (Nat.zero_le k) (by omega) hk
  simpa [lowBit] using this

/-- An octet is shifted in. -/
theorem testBit_shiftIn {m : Nat} {c : UInt8} (hm : m < 16777216) :
    ((m <<< 8) % 4294967296 ||| c.toNat).testBit k ↔ (k < 8 ∧ c.toNat.testBit k) ∨ (8 ≤ k ∧ m.testBit (k - 8)) := by
  have hlt : m <<< 8 < 4294967296 := by
    rw [Nat.shiftLeft_eq]
    omega
  rw [Nat.mod_eq_of_lt hlt, Nat.testBit_or, Nat.testBit_shiftLeft, Bool.or_eq_true, Bool.and_eq_true, decide_eq_true_iff]
  by_cases h : 8 ≤ k
  · rw [testBit_octet h]
    simp [h]
  · have hk : k < 8 := by omega
    simp [h, hk]

theorem shiftIn_lt {m : Nat} {c : UInt8} (hm : m < 256 ^ (4 - (n + 1))) (hn : n + 1 ≤ 4) :
    (m <<< 8) % 4294967296 ||| c.toNat < 256 ^ (4 - n) := by
  have hpow : 256 ^ (4 - n) = 2 ^ (8 * (4 - n)) := by rw [Nat.pow_mul]
  have hsucc : 256 ^ (4 - n) = 256 ^ (4 - (n + 1)) * 256 := by
    rw [show 4 - n = 4 - (n + 1) + 1 by omega, Nat.pow_succ]
  have hshift : (m <<< 8) % 4294967296 < 256 ^ (4 - n) := by
    apply Nat.lt_of_le_of_lt (Nat.mod_le _ _)
    rw [Nat.shiftLeft_eq, hsucc]
    exact Nat.mul_lt_mul_of_pos_right hm (by decide)
  have hc : c.toNat < 256 ^ (4 - n) := by
    calc c.toNat < 256 ^ 1 := c.toNat_lt
      _ ≤ 256 ^ (4 - n) := Nat.pow_le_pow_right (by decide) (by omega)
  rw [hpow] at hshift hc ⊢
  exact Nat.or_lt_two_pow hshift hc

theorem slotLoop_succ {ch map : Nat} (hp : p + 1 ≤ length chi) :
    slotLoop chi (n + 1) p ch map =
      slotLoop chi n (p + 1) (if chi (p + 1) ≠ 0 then lowBit (chi (p + 1)) else ch + 8)
        ((map <<< 8) % 4294967296 ||| (chi (p + 1)).toNat) := by
  rw [slotLoop, octet_eq hp, Option.bind_some]
  by_cases hc : chi (p + 1) = 0
  · rw [if_neg (not_not.mpr hc), if_neg (not_not.mpr hc), hc]
    simp
  · rw [if_pos hc, if_pos hc]

/-- The octets behind `p` are shifted in, and `ch` is a bit of the map, or counts on. -/
theorem slotLoop_spec (chi : Mem) (n : Nat) : ∀ (p ch map : Nat), p + n ≤ length chi → map < 256 ^ (4 - n) → n ≤ 4 →
    map.testBit ch ∨ map = 0 →
    ∃ ch' map', slotLoop chi n p ch map = some (ch', map') ∧
      (∀ k, map'.testBit k ↔ (∃ q b, p < q ∧ q ≤ p + n ∧ b < 8 ∧ (chi q).toNat.testBit b ∧ k = 8 * (p + n - q) + b) ∨
        (8 * n ≤ k ∧ map.testBit (k - 8 * n))) ∧
      (map'.testBit ch' ∨ map' = 0 ∧ ch' = ch + 8 * n) := by
  induction n with
  | zero =>
    intro p ch map hp hmap hn hbit
    refine ⟨ch, map, rfl, ?_, ?_⟩
    · intro k
      constructor
      · intro h
        exact Or.inr ⟨Nat.zero_le _, h⟩
      · intro h
        rcases h with ⟨q, b, h1, h2, -⟩ | ⟨-, h⟩
        · omega
        · exact h
    · rcases hbit with h | h
      · exact Or.inl h
      · exact Or.inr ⟨h, rfl⟩
  | succ n ih =>
    intro p ch map hp hmap hn hbit
    have hroom : map < 16777216 := by
      calc map < 256 ^ (4 - (n + 1)) := hmap
        _ ≤ 256 ^ 3 := Nat.pow_le_pow_right (by decide) (by omega)
    have hshift : ∀ k, ((map <<< 8) % 4294967296 ||| (chi (p + 1)).toNat).testBit k ↔
        (k < 8 ∧ (chi (p + 1)).toNat.testBit k) ∨ (8 ≤ k ∧ map.testBit (k - 8)) := fun k => testBit_shiftIn hroom
    rw [slotLoop_succ (by omega)]
    have hmap1 : (map <<< 8) % 4294967296 ||| (chi (p + 1)).toNat < 256 ^ (4 - n) := shiftIn_lt hmap (by omega)
    have hfirst : ((map <<< 8) % 4294967296 ||| (chi (p + 1)).toNat).testBit
        (if chi (p + 1) ≠ 0 then lowBit (chi (p + 1)) else ch + 8) ∨
        (map <<< 8) % 4294967296 ||| (chi (p + 1)).toNat = 0 ∧
          (if chi (p + 1) ≠ 0 then lowBit (chi (p + 1)) else ch + 8) = ch + 8 := by
      by_cases hc : chi (p + 1) = 0
      · rw [if_neg (not_not.mpr hc)]
        rcases hbit with h | h
        · refine Or.inl ((hshift (ch + 8)).mpr (Or.inr ⟨by omega, ?_⟩))
          rw [Nat.add_sub_cancel]
          exact h
        · rw [h, hc]
          exact Or.inr ⟨rfl, rfl⟩
      · rw [if_pos hc]
        have hlow := lowBit_spec hc
        exact Or.inl ((hshift _).mpr (Or.inl hlow))
    generalize (map <<< 8) % 4294967296 ||| (chi (p + 1)).toNat = map1 at hshift hmap1 hfirst ⊢
    generalize (if chi (p + 1) ≠ 0 then lowBit (chi (p + 1)) else ch + 8) = ch1 at hfirst ⊢
    rcases ih (p + 1) _ _ (by omega) hmap1 (by omega) (hfirst.imp_right And.left) with ⟨ch', map', hloop, hbits, hlast⟩
    refine ⟨ch', map', hloop, ?_, ?_⟩
    · intro k
      rw [hbits, hshift]
      constructor
      · intro h
        rcases h with ⟨q, b, h1, h2, h3, h4, rfl⟩ | ⟨h1, ⟨h2, h3⟩ | ⟨h2, h3⟩⟩
        · exact Or.inl ⟨q, b, by omega, by omega, h3, h4, by omega⟩
        · exact Or.inl ⟨p + 1, k - 8 * n, by omega, by omega, h2, h3, by omega⟩
        · refine Or.inr ⟨by omega, ?_⟩
          rw [show k - 8 * (n + 1) = k - 8 * n - 8 by omega]
          exact h3
      · intro h
        rcases h with ⟨q, b, h1, h2, h3, h4, rfl⟩ | ⟨h1, h2⟩
        · by_cases hq : q = p + 1
          · subst hq
            refine Or.inr ⟨by omega, Or.inl ⟨by omega, ?_⟩⟩
            rw [show 8 * (p + (n + 1) - (p + 1)) + b - 8 * n = b by omega]
            exact h4
          · exact Or.inl ⟨q, b, by omega, by omega, h3, h4, by omega⟩
        · refine Or.inr ⟨by omega, Or.inr ⟨by omega, ?_⟩⟩
          rw [show k - 8 * n - 8 = k - 8 * (n + 1) by omega]
          exact h2
    · rcases hlast with h | ⟨h0, hch⟩
      · exact Or.inl h
      · rcases hfirst with h | ⟨-, hch1⟩
        · have hset : map'.testBit (ch1 + 8 * n) := (hbits _).mpr (Or.inr ⟨by omega, by rwa [Nat.add_sub_cancel]⟩)
          rw [h0, Nat.zero_testBit] at hset
          exact absurd hset (by decide)
        · exact Or.inr ⟨h0, by omega⟩

theorem Slot.lt (h : Slot chi p k) (hp : length chi - p ≤ 4) : k < 32 := by
  rcases h with ⟨q, b, h1, h2, h3, -, h5⟩
  split at h5
  · omega
  · omega

/-- A slot is a bit of an octet that is not zero. -/
theorem slot_iff : (∃ k, Slot chi p k) ↔ ∃ q, p < q ∧ q ≤ length chi ∧ chi q ≠ 0 := by
  constructor
  · intro h
    rcases h with ⟨k, q, b, h1, h2, -, h4, -⟩
    refine ⟨q, h1, h2, ?_⟩
    intro h0
    rw [h0] at h4
    simp at h4
  · intro h
    rcases h with ⟨q, h1, h2, h3⟩
    have hlow := lowBit_spec h3
    exact ⟨_, q, lowBit (chi q), h1, h2, hlow.1, hlow.2, rfl⟩

/-- The map and the channel before they are returned. -/
theorem slotMap_spec (mapped : Bool) (excl : Nat) (hp : length chi - p = 4 ∨ length chi - p = 3) :
    ∃ ch map, slotMap chi mapped excl p = accept mapped excl ch map ∧ (∀ k, map.testBit k ↔ Slot chi p k) ∧
      (map.testBit ch ∨ map = 0 ∧ ch < 64) := by
  have hzero : ∀ k, (0 : Nat).testBit k = false := Nat.zero_testBit
  unfold slotMap
  rcases hp with hp | hp
  · rcases slotLoop_spec chi 4 p 0 0 (by omega) (by decide) (by decide) (Or.inr rfl)
      with ⟨ch, map, hloop, hbits, hlast⟩
    rw [if_pos hp, hloop]
    refine ⟨ch, map, rfl, ?_, ?_⟩
    · intro k
      rw [hbits, hzero]
      unfold Slot
      rw [hp, show p + 4 = length chi by omega]
      simp
    · rcases hlast with h | ⟨h0, hch⟩
      · exact Or.inl h
      · exact Or.inr ⟨h0, by omega⟩
  · rcases slotLoop_spec chi 3 p 0 0 (by omega) (by decide) (by decide) (Or.inr rfl)
      with ⟨ch, map, hloop, hbits, hlast⟩
    have hmap : map < 2 ^ 24 := by
      apply Nat.lt_pow_two_of_testBit
      intro k hk
      rw [← Bool.not_eq_true, hbits, hzero]
      intro h
      rcases h with ⟨q, b, h1, h2, h3, -, h5⟩ | ⟨-, h⟩
      · omega
      · exact absurd h (by decide)
    have hshift : ∀ k, ((map <<< 1) % 4294967296).testBit k ↔ 1 ≤ k ∧ map.testBit (k - 1) := by
      intro k
      have hlt : map <<< 1 < 4294967296 := by
        rw [Nat.shiftLeft_eq]
        omega
      rw [Nat.mod_eq_of_lt hlt, Nat.testBit_shiftLeft, Bool.and_eq_true, decide_eq_true_iff]
    rw [if_neg (by omega), if_pos hp, hloop]
    refine ⟨ch + 1, (map <<< 1) % 4294967296, rfl, ?_, ?_⟩
    · intro k
      rw [hshift, hbits, hzero]
      unfold Slot
      rw [hp, show p + 3 = length chi by omega]
      constructor
      · intro h
        rcases h with ⟨h0, ⟨q, b, h1, h2, h3, h4, h5⟩ | ⟨-, h⟩⟩
        · exact ⟨q, b, h1, h2, h3, h4, by rw [if_pos rfl]; omega⟩
        · exact absurd h (by decide)
      · intro h
        rcases h with ⟨q, b, h1, h2, h3, h4, h5⟩
        rw [if_pos rfl] at h5
        exact ⟨by omega, Or.inl ⟨q, b, h1, h2, h3, h4, by omega⟩⟩
    · rcases hlast with h | ⟨h0, hch⟩
      · refine Or.inl ((hshift _).mpr ⟨by omega, ?_⟩)
        exact h
      · refine Or.inr ⟨?_, by omega⟩
        rw [h0]
        rfl

/-! ## Results -/

theorem exclusive_cases (c : UInt8) : exclusive c = 0 ∨ exclusive c = 64 := by
  unfold exclusive
  split
  · exact Or.inr rfl
  · exact Or.inl rfl

/-- The low six bits of the result are the channel, and it is no error. -/
theorem result_octet {excl ch : Nat} (he : excl = 0 ∨ excl = 64) (hch : ch < 64) :
    (UInt8.ofNat (excl ||| ch) &&& 0x3f).toNat = ch ∧ UInt8.ofNat (excl ||| ch) < 0x80 := by
  have hsum : excl ||| ch = excl + ch := by
    rcases he with rfl | rfl
    · simp
    · exact (Nat.two_pow_add_eq_or_of_lt (i := 6) hch 1).symm
  have hlow : (UInt8.ofNat (excl ||| ch) &&& 0x3f).toNat = (excl + ch) % 256 % 64 := by
    rw [hsum]
    exact Nat.and_two_pow_sub_one_eq_mod _ 6
  have hval : (UInt8.ofNat (excl ||| ch)).toNat = (excl + ch) % 256 := by
    rw [hsum]
    rfl
  have hmax : (0x80 : UInt8).toNat = 128 := rfl
  refine ⟨by omega, UInt8.lt_iff_toNat_lt.mpr (by omega)⟩

theorem fits_above {mapped : Bool} {S : Nat → Prop} {r : UInt8} {map : Nat} (h : ¬ r < 0x80) : Fits mapped S (some (r, map)) :=
  ⟨r, map, rfl, fun h' => absurd h' h⟩

theorem fits_wrongCoding {mapped : Bool} {S : Nat → Prop} : Fits mapped S (some wrongCoding) := fits_above (by decide)

theorem testBit_oneShl {ch : Nat} (h : ch < 32) : (oneShl ch).testBit k ↔ k = ch := by
  have hlt : 1 <<< ch < 4294967296 := by
    rw [Nat.one_shiftLeft]
    exact Nat.pow_lt_pow_right (by decide) h
  unfold oneShl
  rw [Nat.mod_eq_of_lt hlt, Nat.one_shiftLeft, Nat.testBit_two_pow]
  simp [eq_comm]

/-- A map of channels below 32 that has the channel, is returned with it. -/
theorem accept_fits {mapped : Bool} {S : Nat → Prop} {excl ch map : Nat} (he : excl = 0 ∨ excl = 64)
    (hbits : ∀ k, map.testBit k ↔ S k)
    (hlt : ∀ k, S k → k < 32) (hch : map.testBit ch) : Fits mapped S (accept mapped excl ch map) := by
  have hch32 : ch < 32 := hlt ch ((hbits ch).mp hch)
  have hlow := (result_octet he (show ch < 64 by omega)).1
  unfold accept
  cases mapped with
  | true =>
    refine ⟨_, _, rfl, fun _ => ⟨?_, hbits, ?_⟩⟩
    · intro h0
      rw [h0, Nat.zero_testBit] at hch
      exact absurd hch (by decide)
    · rw [hlow]
      exact hch
  | false =>
    by_cases hone : map = oneShl ch
    · rw [if_neg (by decide), if_neg (not_not.mpr hone)]
      refine ⟨_, _, rfl, fun _ => ⟨?_, ?_⟩⟩
      · intro k
        rw [hlow, ← hbits, hone, testBit_oneShl hch32]
      · rw [hlow]
        omega
    · rw [if_neg (by decide), if_pos hone]
      exact fits_wrongCoding

/-! ## Channel numbers -/

theorem numberLoop_spec (chi : Mem) (n : Nat) : ∀ (i map : Nat), i + n = length chi + 1 →
    numberLoop chi n i map = some none ∨
      ∃ map', numberLoop chi n i map = some (some map') ∧
        (∀ q, i ≤ q → q ≤ length chi → (chi q &&& 0x7f).toNat < 32) ∧
        ∀ k, map'.testBit k ↔ map.testBit k ∨ ∃ q, i ≤ q ∧ q ≤ length chi ∧ k = (chi q &&& 0x7f).toNat := by
  induction n with
  | zero =>
    intro i map hi
    refine Or.inr ⟨map, rfl, ?_, ?_⟩
    · intro q h1 h2
      omega
    · intro k
      constructor
      · exact Or.inl
      · intro h
        rcases h with h | ⟨q, h1, h2, -⟩
        · exact h
        · omega
  | succ n ih =>
    intro i map hi
    rw [numberLoop, octet_eq (by omega), Option.bind_some]
    by_cases hc : 31 < (chi i &&& 0x7f).toNat
    · rw [if_pos hc]
      exact Or.inl rfl
    · rw [if_neg hc]
      have hlt : (chi i &&& 0x7f).toNat < 32 := by omega
      rcases ih (i + 1) (map ||| oneShl (chi i &&& 0x7f).toNat) (by omega) with h | ⟨map', hloop, hall, hbits⟩
      · exact Or.inl h
      · refine Or.inr ⟨map', hloop, ?_, ?_⟩
        · intro q h1 h2
          by_cases hq : q = i
          · rw [hq]
            exact hlt
          · exact hall q (by omega) h2
        · intro k
          rw [hbits, Nat.testBit_or, Bool.or_eq_true, testBit_oneShl hlt]
          constructor
          · intro h
            rcases h with (h | h) | ⟨q, h1, h2, h3⟩
            · exact Or.inl h
            · exact Or.inr ⟨i, Nat.le_refl i, by omega, h⟩
            · exact Or.inr ⟨q, by omega, h2, h3⟩
          · intro h
            rcases h with h | ⟨q, h1, h2, h3⟩
            · exact Or.inl (Or.inl h)
            · by_cases hq : q = i
              · subst hq
                exact Or.inl (Or.inr h3)
              · exact Or.inr ⟨q, by omega, h2, h3⟩

theorem low_six {c : UInt8} (h : c &&& 0x40 = 0) : (c &&& 0x7f).toNat = (c &&& 0x3f).toNat := by
  have hzero : c.toNat &&& 0x40 = 0 := congrArg UInt8.toNat h
  calc (c &&& 0x7f).toNat = c.toNat &&& (0x3f ||| 0x40) := rfl
    _ = (c &&& 0x3f).toNat := by rw [Nat.and_or_distrib_left, hzero, Nat.or_zero]; rfl

theorem numbers_fits {mapped : Bool} {S : Nat → Prop} {excl : Nat} (hp : p ≤ length chi) (he : excl = 0 ∨ excl = 64)
    (hS : ∀ k, S k ↔ ∃ q, p ≤ q ∧ q ≤ length chi ∧ k = (chi q &&& 0x7f).toNat) : Fits mapped S (numbers chi mapped excl p) := by
  unfold numbers
  rw [octet_eq hp, Option.bind_some]
  cases mapped with
  | true =>
    rw [if_pos rfl]
    split
    · exact fits_wrongCoding
    · rcases numberLoop_spec chi (length chi + 1 - p) p 0 (by omega) with h | ⟨map, hloop, hall, hbits⟩
      · rw [h]
        exact fits_wrongCoding
      · rw [hloop]
        dsimp only [Option.bind_some]
        by_cases h40 : chi p &&& 0x40 = 0
        · rw [if_neg (not_not.mpr h40)]
          have hmap : ∀ k, map.testBit k ↔ S k := by
            intro k
            rw [hbits, hS, Nat.zero_testBit]
            simp
          refine accept_fits he hmap ?_ ?_
          · intro k hk
            rcases (hS k).mp hk with ⟨q, h1, h2, rfl⟩
            exact hall q h1 h2
          · rw [hmap, hS]
            exact ⟨p, Nat.le_refl p, hp, (low_six h40).symm⟩
        · rw [if_pos h40]
          exact fits_wrongCoding
  | false =>
    rw [if_neg (by decide)]
    split
    · exact fits_wrongCoding
    split
    · exact fits_wrongCoding
    split
    · exact fits_wrongCoding
    · rename_i hone hlt h40
      have hch : (chi p &&& 0x3f).toNat < 32 := by omega
      have hbits : ∀ k, (oneShl (chi p &&& 0x3f).toNat).testBit k ↔ S k := by
        intro k
        rw [testBit_oneShl hch, hS, ← low_six (not_not.mp h40)]
        constructor
        · intro h
          exact ⟨p, Nat.le_refl p, hp, h⟩
        · intro h
          rcases h with ⟨q, h1, h2, h3⟩
          rw [h3, show q = p by omega]
      refine accept_fits he hbits ?_ ?_
      · intro k hk
        rw [(testBit_oneShl hch).mp ((hbits k).mpr hk)]
        exact hch
      · exact (testBit_oneShl hch).mpr rfl

/-! ## Elements -/

theorem slotMap_fits {mapped : Bool} {S : Nat → Prop} {excl : Nat} (he : excl = 0 ∨ excl = 64) (hS : ∀ k, S k ↔ Slot chi p k)
    (hslot : length chi - p = 4 ∨ length chi - p = 3 → ∃ q, p < q ∧ q ≤ length chi ∧ chi q ≠ 0) :
    Fits mapped S (slotMap chi mapped excl p) := by
  by_cases hlen : length chi - p = 4 ∨ length chi - p = 3
  · rcases slotMap_spec mapped excl hlen with ⟨ch, map, heq, hbits, hlast⟩
    rw [heq]
    refine accept_fits he (fun k => (hbits k).trans (hS k).symm) ?_ ?_
    · intro k hk
      exact ((hS k).mp hk).lt (by omega)
    · rcases hlast with h | ⟨h0, -⟩
      · exact h
      · rcases slot_iff.mpr (hslot hlen) with ⟨k, hk⟩
        have hbit := (hbits k).mpr hk
        rw [h0, Nat.zero_testBit] at hbit
        exact absurd hbit (by decide)
  · unfold slotMap
    rw [if_neg (fun h => hlen (Or.inl h)), if_neg (fun h => hlen (Or.inr h))]
    exact fits_wrongCoding

theorem channels_fits {mapped : Bool} {excl : Nat} (he : excl = 0 ∨ excl = 64) (hp : p ≤ length chi)
    (hkind : ∀ i, Group chi p i → KindOfChannel chi p i) (h20 : chi 1 &&& 0x20 ≠ 0) (hc8 : chi 1 ||| 0xc8 = 0xe9)
      (hok : MapsOk chi) :
    Fits mapped (Encodes chi) (channels chi mapped excl p) := by
  unfold channels
  rcases group_cases hp (fun i => (octet chi p).bind fun c =>
      if c ||| 0xd0 ≠ 0xd3 then some wrongCoding
      else if c &&& 0x10 ≠ 0 then slotMap chi mapped excl p
      else numbers chi mapped excl (i + 1)) with ⟨i, hi, heq⟩ | ⟨-, heq⟩
  · rw [heq, octet_eq hp, Option.bind_some]
    by_cases hd3 : chi p ||| 0xd0 = 0xd3
    · rw [if_neg (not_not.mpr hd3)]
      by_cases h10 : chi p &&& 0x10 ≠ 0
      · rw [if_pos h10]
        have hmap : length chi - p = 4 ∨ length chi - p = 3 → i = p ∧ ∃ q, p < q ∧ q ≤ length chi ∧ chi q ≠ 0 :=
          fun hlen => hok p i ⟨hkind i hi, h20, hc8, hd3, h10, hlen⟩
        by_cases hlen : length chi - p = 4 ∨ length chi - p = 3
        · refine slotMap_fits he ?_ (fun hlen => (hmap hlen).2)
          intro k
          rw [(hkind i hi).encodes, if_pos h10, (hmap hlen).1]
        · unfold slotMap
          rw [if_neg (fun h => hlen (Or.inl h)), if_neg (fun h => hlen (Or.inr h))]
          exact fits_wrongCoding
      · rw [if_neg h10]
        refine numbers_fits hi.2.1 he ?_
        intro k
        rw [(hkind i hi).encodes, if_neg h10]
        rfl
    · rw [if_pos hd3]
      exact fits_wrongCoding
  · rw [heq]
    exact fits_wrongCoding

theorem primary_fits {mapped : Bool} (h0 : length chi ≠ 0) (h20 : chi 1 &&& 0x20 ≠ 0) (hok : MapsOk chi) :
    Fits mapped (Encodes chi) (primary chi mapped (chi 1)) := by
  unfold primary
  split
  · exact fits_above (by decide)
  rcases group_cases (show 1 ≤ length chi by omega) (fun i =>
      if chi 1 ||| 0xc8 ≠ 0xe9 then some wrongCoding
      else if chi 1 &&& 0x40 ≠ 0 then group chi (i + 1) fun i => channels chi mapped (exclusive (chi 1)) (i + 1)
      else channels chi mapped (exclusive (chi 1)) (i + 1)) with ⟨g, hg, heq⟩ | ⟨-, heq⟩
  · rw [heq]
    by_cases hc8 : chi 1 ||| 0xc8 = 0xe9
    · rw [if_neg (not_not.mpr hc8)]
      by_cases h40 : chi 1 &&& 0x40 ≠ 0
      · rw [if_pos h40]
        rcases group_cases (show g + 1 ≤ length chi from hg.2.1) (fun i => channels chi mapped (exclusive (chi 1)) (i + 1))
          with ⟨h, hh, heq⟩ | ⟨-, heq⟩
        · rw [heq]
          refine channels_fits (exclusive_cases _) hh.2.1 ?_ h20 hc8 hok
          intro i hi
          refine ⟨hi, ?_⟩
          rw [if_pos h40]
          exact ⟨g, h, hg, hh, rfl⟩
        · rw [heq]
          exact fits_wrongCoding
      · rw [if_neg h40]
        refine channels_fits (exclusive_cases _) hg.2.1 ?_ h20 hc8 hok
        intro i hi
        refine ⟨hi, ?_⟩
        rw [if_neg h40]
        exact ⟨g, hg, rfl⟩
    · rw [if_pos hc8]
      exact fits_wrongCoding
  · rw [heq]
    exact fits_wrongCoding

theorem basic_some (mapped : Bool) (c : UInt8) (h0 : length chi ≠ 0) : basic chi mapped c ≠ none := by
  rcases groupLoop_spec chi (length chi - 1) (i := 1) (by omega) with ⟨e, hloop, -, hle, -, -⟩
  unfold basic
  rw [hloop, Option.bind_some]
  split
  · simp
  · rw [octet_eq hle, Option.bind_some]
    split
    · simp
    · dsimp only
      split <;> simp

theorem chiToChannel_eq (mapped : Bool) (h0 : length chi ≠ 0) :
    chiToChannel chi mapped = if chi 1 &&& 0x20 ≠ 0 then primary chi mapped (chi 1) else basic chi mapped (chi 1) := by
  have hlen : chi 0 ≠ 0 := by
    intro h
    apply h0
    unfold length
    rw [h]
    rfl
  unfold chiToChannel
  rw [octet_eq (Nat.zero_le _), Option.bind_some, if_neg hlen, octet_eq (by omega), Option.bind_some]

theorem chiToChannel_empty (mapped : Bool) (h0 : length chi = 0) : chiToChannel chi mapped = some anyChannel := by
  have hlen : chi 0 = 0 := UInt8.toNat_inj.mp h0
  unfold chiToChannel
  rw [octet_eq (Nat.zero_le _), Option.bind_some, if_pos hlen]

theorem decodes_of_mapsOk (hok : MapsOk chi) : Decodes chi := by
  have hfits : length chi ≠ 0 → chi 1 &&& 0x20 ≠ 0 → ∀ mapped, Fits mapped (Encodes chi) (chiToChannel chi mapped) := by
    intro h0 h20 mapped
    rw [chiToChannel_eq mapped h0, if_pos h20]
    exact primary_fits h0 h20 hok
  refine ⟨?_, hfits⟩
  intro mapped
  by_cases h0 : length chi = 0
  · rw [chiToChannel_empty mapped h0]
    simp
  · by_cases h20 : chi 1 &&& 0x20 ≠ 0
    · rcases hfits h0 h20 mapped with ⟨r, map, heq, -⟩
      rw [heq]
      simp
    · rw [chiToChannel_eq mapped h0, if_neg h20]
      exact basic_some mapped _ h0

theorem Group.eq (h : Group chi p i) (k : Nat → Option Result) : group chi p k = k i := by
  have hp : p ≤ length chi := Nat.le_trans h.1 (Nat.le_of_lt h.2.1)
  rcases group_cases hp k with ⟨i', hi', heq⟩ | ⟨hnone, -⟩
  · rw [heq, h.unique hi']
  · exact absurd h (hnone i)

/-- The map of an accepted element is returned. -/
theorem SlotMapAt.result (h : SlotMapAt chi p i) (mapped : Bool) :
    chiToChannel chi mapped = slotMap chi mapped (exclusive (chi 1)) p := by
  rcases h with ⟨⟨hi, hkind⟩, h20, hc8, hd3, h10, -⟩
  have hp : p ≤ length chi := Nat.le_trans hi.1 (Nat.le_of_lt hi.2.1)
  have hchannels : channels chi mapped (exclusive (chi 1)) p = slotMap chi mapped (exclusive (chi 1)) p := by
    unfold channels
    rw [hi.eq, octet_eq hp, Option.bind_some, if_neg (not_not.mpr hd3), if_pos h10]
  by_cases h40 : chi 1 &&& 0x40 ≠ 0
  · rw [if_pos h40] at hkind
    rcases hkind with ⟨g, e, hg, he, rfl⟩
    have h1 := hg.1
    have h2 := hg.2.1
    rw [chiToChannel_eq mapped (by omega), if_pos h20, primary, if_neg (by omega), hg.eq,
      if_neg (not_not.mpr hc8), if_pos h40, he.eq]
    exact hchannels
  · rw [if_neg h40] at hkind
    rcases hkind with ⟨g, hg, rfl⟩
    have h1 := hg.1
    have h2 := hg.2.1
    rw [chiToChannel_eq mapped (by omega), if_pos h20, primary, if_neg (by omega), hg.eq, if_neg (not_not.mpr hc8), if_neg h40]
    exact hchannels

theorem high_bit {c : UInt8} (h : c &&& 0x80 ≠ 0) : c.toNat.testBit 7 := by
  by_contra hbit
  have hand : c.toNat &&& 2 ^ 7 = (c.toNat.testBit 7).toNat * 2 ^ 7 := Nat.and_two_pow c.toNat 7
  rw [Bool.eq_false_of_not_eq_true hbit, Bool.toNat_false, Nat.zero_mul] at hand
  exact h (UInt8.toNat_inj.mp hand)

theorem mapsOk_of_decodes (h : Decodes chi) : MapsOk chi := by
  intro p i hmap
  have hi : Group chi p i := hmap.1.1
  have h1 := hi.1
  have h2 := hi.2.1
  have hlen := hmap.2.2.2.2.2
  rcases slotMap_spec true (exclusive (chi 1)) hlen with ⟨ch, map, heq, hbits, hlast⟩
  have hch : ch < 64 := by
    rcases hlast with hbit | ⟨-, hch⟩
    · have := ((hbits ch).mp hbit).lt (by omega)
      omega
    · exact hch
  have hr := (result_octet (exclusive_cases (chi 1)) hch).2
  rcases h.2 (by omega) hmap.2.1 true with ⟨r, map', hres, hfits⟩
  rw [hmap.result, heq] at hres
  cases hres
  rcases hfits hr with ⟨hne, hencodes, -⟩
  constructor
  · -- the last octet of a longer group would be slots of the map, above those behind it
    by_contra hpi
    have hslot : Slot chi p _ := ⟨i, 7, by omega, by omega, by decide, high_bit hi.2.2.1, rfl⟩
    have henc := (hencodes _).mp ((hbits _).mpr hslot)
    rw [hmap.1.encodes, if_pos hmap.2.2.2.2.1] at henc
    rcases henc with ⟨q, b, h3, h4, h5, -, h6⟩
    split at h6 <;> split at h6 <;> omega
  · rcases Nat.exists_testBit_of_ne_zero hne with ⟨k, hk⟩
    exact slot_iff.mp ⟨k, (hbits k).mp hk⟩

end Reading

/-- A channel identification is decoded if and only if a slot map that is accepted has a slot and begins
    behind its group. -/
theorem chi_to_channel_decodes (chi : Mem) : Decodes chi ↔ MapsOk chi := by
  constructor
  · exact mapsOk_of_decodes
  · exact decodes_of_mapsOk

/-- An E1 slot map without a slot. -/
def emptyMap : Mem := fun i => [6, 0xa9, 0x93, 0, 0, 0, 0].getD i 0

/-- It is channel 32, exclusive. -/
theorem chi_to_channel_empty : ¬ (∀ chi, Decodes chi) ∧ chiToChannel emptyMap false = some (0x60, 0) := by
  have hres : chiToChannel emptyMap false = some (0x60, 0) := by decide +kernel
  refine ⟨?_, hres⟩
  intro h
  rcases (h emptyMap).2 (by decide) (by decide) false with ⟨r, map, heq, hfits⟩
  rw [hres] at heq
  cases heq
  exact absurd (hfits (by decide)).2 (by decide)

end Divas.Capi.Chi
