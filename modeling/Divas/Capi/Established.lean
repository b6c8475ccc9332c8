/-
  Divas.Capi.Established — the resource, the facilities and the protocols of a B protocol.

  `Established` says of a PLCI that it has the B1 resource and the facilities that belong to its
  B protocol under its `tel` and `B1_options`, and `askedProtocols` are the B2 and B3 protocols.

  Proved: `add_b1` leaves a PLCI that is established as it is (`Established.addB1`), and `add_b23`
  sets the protocols asked for, or none (`addB23_protocols`).
-/

import Mathlib.Data.Nat.Bitwise
import Divas.Capi.BProtocolAlike

namespace Divas.Capi

/-! ## What a B protocol asks for -/

/-- The parameters of a B protocol, where it is not too long and well formed. -/
def readB (bp : Parm) : Option (List Parm) :=
  if 256 < bp.length then none
  else
    match parseB bp with
    | none => none
    | some bps => if (globalConfig (parm bps 6) 0).isSome then some bps else none

/-- RTP is asked for, and possible. -/
def wantsRtp (f : Features) (p : BChannel) (bps : List Parm) : Prop :=
  (parm bps 0).word 0 = b1Rtp ∧ privateOrLine f p privateRtp

instance (f : Features) (p : BChannel) (bps : List Parm) : Decidable (wantsRtp f p bps) :=
  inferInstanceAs (Decidable (_ ∧ _))

/-- The resource of a B1 protocol without facilities; `none` where it is not supported. -/
def protocolResource (f : Features) (p : BChannel) (bps : List Parm) : Option Nat :=
  if (parm bps 0).word 0 = b1NoResource then some 0
  else if wantsRtp f p bps then some (if rtpTransparent f p bps then 9 else 31)
  else if (parm bps 1).word 0 = b2T38 ∧ privateOrLine f p privateT38 then some 16
  else if (parm bps 0).word 0 = b1Piafs ∧ f.privateOptions.testBit privatePiafs then some 35
  else if (parm bps 0).word 0 = b1Ss7 ∧ f.privateOptions.testBit privateSs7 then some 40
  else if b1Supported f bps then some (resource.getD ((parm bps 0).word 0) 0)
  else none

/-- The facilities with LINEAR16, where the RTP payload on the transparent resource is L16. -/
def linear (f : Features) (p : BChannel) (bps : List Parm) (b1Facilities : Nat) : Nat :=
  if wantsRtp f p bps ∧ rtpTransparent f p bps ∧ (parm bps 3).byte 1 = 1 then b1Facilities ||| facilityLinear16
  else b1Facilities

/-- The B2 and B3 protocols are those of RTP or T.38, or of the profile; a modem has its own. -/
def takesProtocols (f : Features) (p : BChannel) (bps : List Parm) : Prop :=
  let b1 := (parm bps 0).word 0
  let b2 := (parm bps 1).word 0
  let b3 := (parm bps 2).word 0
  (b2 = b2Rtp ∧ b3 = b3Rtp ∧ privateOrLine f p privateRtp) ∨
    (b2 = b2T38 ∧ (b3 = b3TransparentIp ∨ b3 = b3Rtp) ∧ privateOrLine f p privateT38) ∨
    (b2Supported f b2 ∧ b3Supported f b3 ∧ (modemB23 b1 b2 → (b1 = b1ModemAllNegotiate → b2 = b2ModemEcCompression) ∧
      (b1 ≠ b1ModemAllNegotiate → b2 = b2Transparent) ∧ (b3 = b3Modem ∨ b3 = b3Transparent)))

instance (f : Features) (p : BChannel) (bps : List Parm) : Decidable (takesProtocols f p bps) :=
  inferInstanceAs (Decidable (_ ∨ _ ∨ _))

/-- The B2 and B3 protocols that are asked for; `none` where they are refused, as by a codec that is not transparent. -/
def askedProtocols (f : Features) (p : BChannel) (bp : Parm) : Option (Nat × Nat) :=
  if bp.length = 0 then some (if p.tel = .none then (0, 0) else (1, 0))
  else
    match readB bp with
    | none => none
    | some bps =>
      if (codecB23 p bps).isSome ∧ takesProtocols f p bps then some ((parm bps 1).word 0, (parm bps 2).word 0) else none

/-- The facilities are of the resource. -/
def Within (f : Features) (b1Resource b1Facilities : Nat) : Prop := b1Facilities &&& getB1Facilities f b1Resource = b1Facilities

/-- The channel has the resource and the facilities of its B protocol under its `tel` and `B1_options`. -/
def Established (f : Features) (p : BChannel) (bp : Parm) (b1Facilities : Nat) : Prop :=
  if p.b1Resource = 0 then b1Facilities = 0
  else
    match p.tel with
    | .codecPermanent => True
    | .codec => p.b1Resource = 1 ∧ b1Facilities = 0
    | .advVoice =>
      p.b1Resource = addB1Facilities f p 9 b1Facilities ∧ hasBits b1Facilities facilityVoice ∧ Within f p.b1Resource b1Facilities
    | .none =>
      if bp.length = 0 then p.b1Resource = 5 ∧ b1Facilities = 0
      else
        ∀ bps, readB bp = some bps → ∀ r, protocolResource f p bps = some r →
          p.b1Resource = addB1Facilities f p r (linear f p bps b1Facilities) ∧ hasBits b1Facilities facilityVoice = false ∧
            Within f p.b1Resource b1Facilities

/-! ## Facilities -/

section Facilities

variable {f : Features} {r g : Nat}

/-- No resource has LINEAR16, and they are words. -/
theorem getB1Facilities_bits (f : Features) (r : Nat) :
    getB1Facilities f r < 2 ^ 16 ∧ facilityLinear16 &&& getB1Facilities f r = 0 := by
  have htable : b1FacilitiesTable.getD r 0 < 2 ^ 16 ∧ facilityLinear16 &&& b1FacilitiesTable.getD r 0 = 0 := by
    by_cases hr : r < b1FacilitiesTable.length
    · have hall : ∀ g ∈ b1FacilitiesTable, g < 2 ^ 16 ∧ facilityLinear16 &&& g = 0 := by decide
      refine hall _ ?_
      rw [List.getD_eq_getElem _ _ hr]
      exact List.getElem_mem hr
    · rw [List.getD_eq_default _ _ (Nat.le_of_not_lt hr)]
      decide
  have hor : ∀ {g m : Nat}, m < 2 ^ 16 ∧ facilityLinear16 &&& m = 0 → g < 2 ^ 16 ∧ facilityLinear16 &&& g = 0 →
      (g ||| m) < 2 ^ 16 ∧ facilityLinear16 &&& (g ||| m) = 0 := by
    rintro g m ⟨hm, hm'⟩ ⟨hg, hg'⟩
    refine ⟨Nat.or_lt_two_pow hg hm, ?_⟩
    rw [Nat.and_or_distrib_left, hg', hm']
    rfl
  have hif : ∀ {c : Bool} {g m : Nat}, m < 2 ^ 16 ∧ facilityLinear16 &&& m = 0 → g < 2 ^ 16 ∧ facilityLinear16 &&& g = 0 →
      (if c then g ||| m else g) < 2 ^ 16 ∧ facilityLinear16 &&& (if c then g ||| m else g) = 0 := by
    intro c g m hm hg
    cases c with
    | true => exact hor hm hg
    | false => exact hg
  unfold getB1Facilities
  dsimp only
  exact hif (by decide) (hif (by decide) (hif (by decide) htable))

theorem Within.lt (h : Within f r g) : g < 2 ^ 16 := by
  unfold Within at h
  rw [← h]
  exact Nat.lt_of_le_of_lt Nat.and_le_right (getB1Facilities_bits f r).1

/-- Facilities that are not there need not be cleared. -/
theorem clear_absent {m : Nat} (hg : g < 2 ^ 16) (h : hasBits g m = false) : clear g m = g := by
  have hm : g &&& m = 0 := by simpa [hasBits] using h
  unfold clear
  rw [Nat.and_xor_distrib_left, hm, Nat.xor_zero]
  exact Nat.and_two_pow_sub_one_of_lt_two_pow hg

theorem or_present (h : hasBits g facilityVoice = true) : g ||| facilityVoice = g := by
  have hbit : g.testBit 4 = true := by
    by_contra hbit
    have hnone : g &&& 2 ^ 4 = 0 := by
      rw [Nat.and_two_pow, Bool.eq_false_iff.mpr hbit]
      rfl
    unfold hasBits at h
    rw [show facilityVoice = 2 ^ 4 from rfl, hnone] at h
    cases h
  apply Nat.eq_of_testBit_eq
  intro i
  rw [Nat.testBit_or, show facilityVoice = 2 ^ 4 from rfl, Nat.testBit_two_pow]
  by_cases hi : 4 = i
  · rw [← hi, hbit]
    rfl
  · rw [decide_eq_false hi, Bool.or_false]

/-- LINEAR16 does not get into the facilities. -/
theorem linear_within (p : BChannel) (bps : List Parm) (h : Within f r g) (hv : hasBits g facilityVoice = false) :
    clear (linear f p bps g) facilityVoice = linear f p bps g ∧ linear f p bps g &&& getB1Facilities f r = g := by
  have hlt := h.lt
  have hvoice : g &&& facilityVoice = 0 := by simpa [hasBits] using hv
  unfold linear
  split
  · refine ⟨clear_absent (Nat.or_lt_two_pow hlt (by decide)) ?_, ?_⟩
    · unfold hasBits
      rw [Nat.and_or_distrib_right, hvoice]
      rfl
    · rw [Nat.and_or_distrib_right, (getB1Facilities_bits f r).2, Nat.or_zero]
      exact h
  · exact ⟨clear_absent hlt hv, h⟩

end Facilities

/-! ## add_b1 -/

section AddB1

variable {f : Features} {p : BChannel} {bps : List Parm}

theorem linear_of_not (h : ¬ wantsRtp f p bps) (b1Facilities : Nat) : linear f p bps b1Facilities = b1Facilities :=
  if_neg fun h' => h h'.1

/-- With RTP on the transparent resource the payload decides about LINEAR16. -/
theorem linear_rtp (h : wantsRtp f p bps) (b1Facilities : Nat) :
    linear f p bps b1Facilities =
      if rtpTransparent f p bps ∧ (parm bps 3).byte 1 = 1 then b1Facilities ||| facilityLinear16 else b1Facilities := by
  unfold linear
  by_cases ht : rtpTransparent f p bps = true ∧ (parm bps 3).byte 1 = 1
  · rw [if_pos ⟨h, ht⟩, if_pos ht]
  · rw [if_neg fun h' => ht h'.2, if_neg ht]

theorem addB1Profile_resource (p : BChannel) (bps : List Parm) (b1Facilities : Nat) :
    (addB1Profile f p bps b1Facilities).1.b1Resource =
      if b1Supported f bps then addB1Facilities f p (resource.getD ((parm bps 0).word 0) 0) (clear b1Facilities facilityVoice)
      else p.b1Resource := by
  unfold addB1Profile
  dsimp only
  cases b1Supported f bps with
  | false => rfl
  | true =>
    rw [if_neg (by decide), if_pos rfl]
    split
    · split
      · rfl
      · rfl
    split
    · rfl
    · rfl

/-- `add_b1` takes the resource of the protocol, with the facilities. -/
theorem addB1Protocol_resource (p : BChannel) (bps : List Parm) (b1Facilities : Nat) :
    (addB1Protocol f p bps b1Facilities).1.b1Resource =
      ((protocolResource f p bps).map fun r => addB1Facilities f p r (clear (linear f p bps b1Facilities) facilityVoice)).getD
        p.b1Resource := by
  unfold addB1Protocol protocolResource
  dsimp only
  by_cases h0 : (parm bps 0).word 0 = b1NoResource
  · rw [if_pos h0, if_pos h0]
    rfl
  rw [if_neg h0, if_neg h0]
  by_cases h1 : wantsRtp f p bps
  · have h1' : (parm bps 0).word 0 = b1Rtp ∧ privateOrLine f p privateRtp = true := h1
    rw [if_pos h1, if_pos h1', linear_rtp h1]
    unfold rtpResource
    dsimp only
    cases rtpTransparent f p bps with
    | false =>
      rw [if_neg Bool.false_ne_true, if_neg fun h => Bool.false_ne_true h.1]
      rfl
    | true =>
      rw [if_pos rfl]
      by_cases h : (parm bps 3).byte 1 = 1
      · rw [if_pos h, if_pos ⟨rfl, h⟩]
        rfl
      · rw [if_neg h, if_neg fun h' => h h'.2]
        rfl
  have h1' : ¬ ((parm bps 0).word 0 = b1Rtp ∧ privateOrLine f p privateRtp = true) := h1
  rw [if_neg h1, if_neg h1', linear_of_not h1]
  by_cases h2 : (parm bps 1).word 0 = b2T38 ∧ privateOrLine f p privateT38 = true
  · rw [if_pos h2, if_pos h2]
    rfl
  rw [if_neg h2, if_neg h2]
  by_cases h3 : (parm bps 0).word 0 = b1Piafs ∧ f.privateOptions.testBit privatePiafs = true
  · rw [if_pos h3, if_pos h3]
    rfl
  rw [if_neg h3, if_neg h3]
  by_cases h4 : (parm bps 0).word 0 = b1Ss7 ∧ f.privateOptions.testBit privateSs7 = true
  · rw [if_pos h4, if_pos h4]
    rfl
  rw [if_neg h4, if_neg h4, addB1Profile_resource]
  cases b1Supported f bps with
  | true => rfl
  | false => rfl

/-- The facilities that it asks for, where it takes a resource. -/
theorem addB1Asked_protocol {bp : Parm} (htel : p.tel = .none) (hlen : bp.length ≠ 0) (b1Facilities : Nat) :
    addB1Asked f p bp 0 b1Facilities =
      match readB bp with
      | none => none
      | some bps =>
        (protocolResource f p bps).map fun _ =>
          if (parm bps 0).word 0 = b1NoResource then b1Facilities else clear (linear f p bps b1Facilities) facilityVoice := by
  unfold addB1Asked readB
  rw [if_neg (by decide), htel]
  dsimp only
  rw [if_neg hlen]
  split
  · rfl
  cases parseB bp with
  | none => rfl
  | some bps =>
    dsimp only
    rcases globalConfig_cases (parm bps 6) (direct p.callDir) 0 with ⟨hg, hg'⟩ | ⟨d, d', hg, hg'⟩
    · rw [hg, hg']
      rfl
    · rw [hg, hg']
      dsimp only [Option.isSome_some]
      rw [if_pos rfl]
      unfold protocolResource
      dsimp only
      by_cases h0 : (parm bps 0).word 0 = b1NoResource
      · simp only [h0, if_true, Option.map_some]
      simp only [h0, if_false]
      by_cases h1 : wantsRtp f p bps
      · have h1' : (parm bps 0).word 0 = b1Rtp ∧ privateOrLine f p privateRtp = true := h1
        rw [if_pos h1, if_pos h1', linear_rtp h1]
        dsimp only [Option.map_some]
        split
        · rfl
        · rfl
      have h1' : ¬ ((parm bps 0).word 0 = b1Rtp ∧ privateOrLine f p privateRtp = true) := h1
      rw [if_neg h1, if_neg h1', linear_of_not h1]
      split
      · rfl
      split
      · rfl
      split
      · rfl
      · cases b1Supported f bps with
        | true => rfl
        | false => rfl

/-- Without a codec `add_b1` takes the resource of what can be read. -/
theorem addB1_resource {bp : Parm} (htel : p.tel = .none) (hlen : bp.length ≠ 0) (b1Facilities : Nat) :
    (addB1 f p bp 0 b1Facilities).1.b1Resource =
      match readB bp with
      | none => p.b1Resource
      | some bps =>
        ((protocolResource f p bps).map fun r => addB1Facilities f p r (clear (linear f p bps b1Facilities) facilityVoice)).getD
          p.b1Resource := by
  unfold addB1 readB
  rw [if_neg (by decide), htel]
  dsimp only
  rw [if_neg hlen]
  split
  · rfl
  cases parseB bp with
  | none => rfl
  | some bps =>
    dsimp only
    rcases globalConfig_cases (parm bps 6) (direct p.callDir) 0 with ⟨hg, hg'⟩ | ⟨d, d', hg, hg'⟩
    · rw [hg, hg']
      rfl
    · rw [hg, hg']
      dsimp only [Option.isSome_some]
      rw [if_pos rfl]
      have halike : Alike { p with callDir := d } p := ⟨rfl, rfl, rfl, rfl, rfl⟩
      have hset : ∀ q : BChannel, q = { p with callDir := d } →
          (addB1Protocol f q bps b1Facilities).1.b1Resource = (addB1Protocol f p bps b1Facilities).1.b1Resource := by
        rintro q rfl
        exact (addB1Protocol_alike halike).1.b1Resource
      rw [hset _ (by rw [htel]), addB1Protocol_resource]

/-- An established channel is configured again as it is. -/
theorem Established.addB1 {bp : Parm} {g : Nat} (h : Established f p bp g) :
    (addB1 f p bp (if p.b1Resource = 0 then 2 else 0) g).1.b1Resource = p.b1Resource ∧
      ((addB1Asked f p bp (if p.b1Resource = 0 then 2 else 0) g).map fun asked => asked &&& getB1Facilities f p.b1Resource).getD
        g = g := by
  have h02 : ¬ (0 : Nat) = 2 := by decide
  unfold Established at h
  by_cases h0 : p.b1Resource = 0
  · rw [if_pos h0] at h
    rw [if_pos h0, h0, h]
    unfold Divas.Capi.addB1 addB1Asked
    rw [if_pos rfl, if_pos rfl]
    exact ⟨rfl, Nat.zero_and _⟩
  rw [if_neg h0] at h
  rw [if_neg h0]
  cases htel : p.tel with
  | codecPermanent =>
    unfold Divas.Capi.addB1 addB1Asked
    rw [if_neg h02, if_neg h02, htel]
    exact ⟨rfl, rfl⟩
  | codec =>
    rw [htel] at h
    obtain ⟨hr, hg⟩ := h
    unfold Divas.Capi.addB1 addB1Asked
    rw [if_neg h02, if_neg h02, htel, hg]
    exact ⟨hr.symm, Nat.zero_and _⟩
  | advVoice =>
    rw [htel] at h
    obtain ⟨hr, hv, hw⟩ := h
    unfold Divas.Capi.addB1 addB1Asked
    rw [if_neg h02, if_neg h02, htel]
    dsimp only
    rw [or_present hv]
    exact ⟨hr.symm, hw⟩
  | none =>
    rw [htel] at h
    dsimp only at h
    by_cases hlen : bp.length = 0
    · rw [if_pos hlen] at h
      obtain ⟨hr, hg⟩ := h
      unfold Divas.Capi.addB1 addB1Asked
      rw [if_neg h02, if_neg h02, htel, hg]
      dsimp only
      rw [if_pos hlen, if_pos hlen]
      exact ⟨hr.symm, Nat.zero_and _⟩
    rw [if_neg hlen] at h
    rw [addB1_resource htel hlen, addB1Asked_protocol htel hlen]
    cases hread : readB bp with
    | none => exact ⟨rfl, rfl⟩
    | some bps =>
      dsimp only
      cases hres : protocolResource f p bps with
      | none => exact ⟨rfl, rfl⟩
      | some r =>
        obtain ⟨hr, hv, hw⟩ := h bps hread r hres
        obtain ⟨hclear, hlinear⟩ := linear_within p bps hw hv
        dsimp only [Option.map_some, Option.getD_some]
        rw [hclear]
        refine ⟨hr.symm, ?_⟩
        split
        · exact hw
        · exact hlinear

end AddB1

/-! ## add_b23 -/

section AddB23

variable {f : Features} {dma : Int} {p : BChannel} {applId : Nat} {bps : List Parm}

/-- The B2 and B3 protocols of the channel. -/
def BChannel.protocols (p : BChannel) : Nat × Nat := (p.b2Prot, p.b3Prot)

theorem takeDma_protocols (f : Features) (dma : Int) (p : BChannel) : (takeDma f dma p).protocols = p.protocols := by
  unfold takeDma
  split
  · rfl
  · rfl

theorem addB23Profile_protocols (p : BChannel) (applId : Nat) (bps : List Parm) :
    (addB23Profile f dma p applId bps).1.protocols =
      if b2Supported f ((parm bps 1).word 0) ∧ b3Supported f ((parm bps 2).word 0) ∧
          (modemB23 ((parm bps 0).word 0) ((parm bps 1).word 0) →
            ((parm bps 0).word 0 = b1ModemAllNegotiate → (parm bps 1).word 0 = b2ModemEcCompression) ∧
              ((parm bps 0).word 0 ≠ b1ModemAllNegotiate → (parm bps 1).word 0 = b2Transparent) ∧
              ((parm bps 2).word 0 = b3Modem ∨ (parm bps 2).word 0 = b3Transparent)) then
        ((parm bps 1).word 0, (parm bps 2).word 0)
      else p.protocols := by
  rw [addB23Profile_fst, addModemB23_fst]
  by_cases hs : (!b2Supported f ((parm bps 1).word 0)) = true ∨ (!b3Supported f ((parm bps 2).word 0)) = true
  · rw [if_pos hs, if_neg]
    rintro ⟨h2, h3, -⟩
    rw [h2, h3] at hs
    exact hs.elim Bool.false_ne_true Bool.false_ne_true
  rw [if_neg hs]
  have h2 : b2Supported f ((parm bps 1).word 0) = true := by
    by_contra h
    exact hs (Or.inl (by simpa using h))
  have h3 : b3Supported f ((parm bps 2).word 0) = true := by
    by_contra h
    exact hs (Or.inr (by simpa using h))
  by_cases hm : modemB23 ((parm bps 0).word 0) ((parm bps 1).word 0) = true
  · rw [if_pos hm]
    by_cases hstack : ((parm bps 0).word 0 = b1ModemAllNegotiate ∧ (parm bps 1).word 0 ≠ b2ModemEcCompression) ∨
        ((parm bps 0).word 0 ≠ b1ModemAllNegotiate ∧ (parm bps 1).word 0 ≠ b2Transparent)
    · rw [if_pos hstack, if_neg]
      rintro ⟨-, -, h⟩
      obtain ⟨hall, hother, -⟩ := h hm
      rcases hstack with ⟨h1, hne⟩ | ⟨h1, hne⟩
      · exact hne (hall h1)
      · exact hne (hother h1)
    rw [if_neg hstack]
    by_cases hb3 : (parm bps 2).word 0 ≠ b3Modem ∧ (parm bps 2).word 0 ≠ b3Transparent
    · rw [if_pos hb3, if_neg]
      rintro ⟨-, -, h⟩
      exact (h hm).2.2.elim hb3.1 hb3.2
    · rw [if_neg hb3, if_pos, takeDma_protocols]
      · rfl
      · refine ⟨h2, h3, fun _ => ⟨?_, ?_, ?_⟩⟩
        · exact fun h1 => by_contra fun hne => hstack (Or.inl ⟨h1, hne⟩)
        · exact fun h1 => by_contra fun hne => hstack (Or.inr ⟨h1, hne⟩)
        · exact (not_and_or.mp hb3).imp not_not.mp not_not.mp
  · rw [if_neg hm, if_pos ⟨h2, h3, fun h => absurd h hm⟩]
    rfl

theorem addB23Protocol_protocols (p : BChannel) (applId : Nat) (bps : List Parm) :
    (addB23Protocol f dma p applId bps).1.protocols =
      if takesProtocols f p bps then ((parm bps 1).word 0, (parm bps 2).word 0) else p.protocols := by
  unfold addB23Protocol
  dsimp only
  by_cases hrtp : (parm bps 1).word 0 = b2Rtp ∧ (parm bps 2).word 0 = b3Rtp ∧ privateOrLine f p privateRtp = true
  · have htakes : takesProtocols f p bps := Or.inl hrtp
    rw [if_pos hrtp, if_pos htakes]
    rfl
  rw [if_neg hrtp]
  by_cases ht38 : (parm bps 1).word 0 = b2T38 ∧ ((parm bps 2).word 0 = b3TransparentIp ∨ (parm bps 2).word 0 = b3Rtp) ∧
      privateOrLine f p privateT38 = true
  · have htakes : takesProtocols f p bps := Or.inr (Or.inl ht38)
    rw [if_pos ht38, if_pos htakes]
    rfl
  rw [if_neg ht38, addB23Profile_protocols]
  refine if_congr ⟨fun h => Or.inr (Or.inr h), fun h => ?_⟩ rfl rfl
  exact Or.resolve_left (Or.resolve_left h hrtp) ht38

theorem takesProtocols_alike {p' : BChannel} (h : Alike p p') : takesProtocols f p bps ↔ takesProtocols f p' bps := by
  unfold takesProtocols
  rw [h.privateOrLine_eq, h.privateOrLine_eq]

/-- Whether a codec refuses the B protocol depends on `tel` alone. -/
theorem codecB23_same (p : BChannel) (bps : List Parm) {p' : BChannel} (h : p.tel = p'.tel) :
    (codecB23 p bps = none ∧ (codecB23 p' bps).isSome = false) ∨
      ∃ q, codecB23 p bps = some q ∧ Alike q p ∧ (codecB23 p' bps).isSome = true := by
  unfold codecB23
  rw [← h]
  cases htel : p.tel with
  | codec => exact Or.inl ⟨rfl, rfl⟩
  | codecPermanent => exact Or.inl ⟨rfl, rfl⟩
  | none => exact Or.inr ⟨p, rfl, .refl p, rfl⟩
  | advVoice =>
    dsimp only
    split
    · exact Or.inl ⟨rfl, rfl⟩
    · exact Or.inr ⟨_, rfl, ⟨htel.symm, rfl, rfl, rfl, rfl⟩, rfl⟩

/-- `add_b23` sets the protocols asked for, or none. -/
theorem addB23_protocols (p : BChannel) (applId : Nat) (bp : Parm) :
    (addB23 f dma p applId bp).1.protocols = (askedProtocols f p bp).getD p.protocols := by
  have hdma := takeDma_protocols f dma p
  have hset : Alike (takeDma f dma p) p := by
    have h := takeDma_set f dma p
    exact ⟨h.tel, h.b1Options, h.b1Resource, congrArg Prod.fst hdma, congrArg Prod.snd hdma⟩
  unfold addB23 askedProtocols readB
  dsimp only
  rw [← hdma]
  generalize takeDma f dma p = q at hset ⊢
  by_cases hlen : bp.length = 0
  · rw [if_pos hlen, if_pos hlen, hset.tel]
    by_cases htel : p.tel = .none
    · rw [if_pos htel, if_neg (not_not.mpr htel)]
      rfl
    · rw [if_neg htel, if_pos htel]
      rfl
  rw [if_neg hlen, if_neg hlen]
  split
  · rfl
  cases parseB bp with
  | none => rfl
  | some bps =>
    dsimp only
    rcases codecB23_same q bps (show q.tel = p.tel from hset.tel) with ⟨hq, hp⟩ | ⟨q', hq, hq', hp⟩
    · rw [hq]
      by_cases hg : (globalConfig (parm bps 6) 0).isSome = true
      · rw [if_pos hg]
        dsimp only
        rw [hp, if_neg fun h => Bool.false_ne_true h.1]
        rfl
      · rw [if_neg hg]
        rfl
    · rw [hq]
      dsimp only
      have hsame : q'.protocols = q.protocols := Prod.ext hq'.b2Prot hq'.b3Prot
      rcases globalConfig_cases (parm bps 6) q'.callDir 0 with ⟨hg, hg'⟩ | ⟨d, d', hg, hg'⟩
      · rw [hg, hg']
        exact hsame
      · rw [hg, hg']
        dsimp only [Option.isSome_some]
        rw [if_pos rfl, addB23Protocol_protocols]
        dsimp only
        have halike : Alike { q' with callDir := d } p :=
          ⟨hq'.tel.trans hset.tel, hq'.b1Options.trans hset.b1Options, hq'.b1Resource.trans hset.b1Resource,
            hq'.b2Prot.trans hset.b2Prot, hq'.b3Prot.trans hset.b3Prot⟩
        by_cases ht : takesProtocols f p bps
        · rw [if_pos ((takesProtocols_alike halike).mpr ht), if_pos ⟨hp, ht⟩]
          rfl
        · rw [if_neg fun h => ht ((takesProtocols_alike halike).mp h), if_neg fun h => ht h.2]
          exact hsame

end AddB23

end Divas.Capi
