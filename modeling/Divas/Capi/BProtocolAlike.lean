/-
  Divas.Capi.BProtocolAlike — what `add_b1` and `add_b23` read of a B channel.

  Besides the B protocol and the features of the adapter the results depend on `tel` and
  `B1_options`, and on the fields that they set where they stop with an error before. The
  direction of the call and the options that an earlier attempt has left change neither the
  resource (`addB1_alike`) nor the B2 and B3 protocols (`addB23_alike`).
-/

import Divas.Capi.AdjustB

namespace Divas.Capi

/-! ## Channels -/

/-- The channels differ only in what an attempt to configure them may leave. -/
structure Alike (p p' : BChannel) : Prop where
  tel : p.tel = p'.tel
  b1Options : p.b1Options = p'.b1Options
  b1Resource : p.b1Resource = p'.b1Resource
  b2Prot : p.b2Prot = p'.b2Prot
  b3Prot : p.b3Prot = p'.b3Prot

namespace Alike

variable {f : Features} {p p' p'' : BChannel}

theorem refl (p : BChannel) : Alike p p := ⟨rfl, rfl, rfl, rfl, rfl⟩

theorem symm (h : Alike p p') : Alike p' p := ⟨h.1.symm, h.2.symm, h.3.symm, h.4.symm, h.5.symm⟩

theorem trans (h : Alike p p') (h' : Alike p' p'') : Alike p p'' :=
  ⟨h.1.trans h'.1, h.2.trans h'.2, h.3.trans h'.3, h.4.trans h'.4, h.5.trans h'.5⟩

theorem addB1Facilities_eq (h : Alike p p') (r b1Facilities : Nat) :
    addB1Facilities f p r b1Facilities = addB1Facilities f p' r b1Facilities := by
  unfold addB1Facilities needsDtmf
  rw [h.b1Options]

theorem privateOrLine_eq (h : Alike p p') (option : Nat) : privateOrLine f p option = privateOrLine f p' option := by
  unfold privateOrLine
  rw [h.b1Options]

theorem rtpTransparent_eq (h : Alike p p') (bps : List Parm) : rtpTransparent f p bps = rtpTransparent f p' bps := by
  unfold rtpTransparent
  rw [h.b1Options]

theorem rtpResource_eq (h : Alike p p') (bps : List Parm) (b1Facilities : Nat) :
    rtpResource f p bps b1Facilities = rtpResource f p' bps b1Facilities := by
  unfold rtpResource
  rw [h.rtpTransparent_eq]
  split
  · exact h.addB1Facilities_eq _ _
  · exact h.addB1Facilities_eq _ _

end Alike

/-- Two results of `add_b1` or `add_b23` that set the channel alike. -/
def SameResult (r r' : BChannel × Info) : Prop := Alike r.1 r'.1 ∧ r.2 = r'.2

/-- Whether there is an error does not depend on the direction. -/
theorem globalConfig_cases (bp6 : Parm) (c c' : Nat) :
    (globalConfig bp6 c = none ∧ globalConfig bp6 c' = none) ∨
      ∃ d d', globalConfig bp6 c = some d ∧ globalConfig bp6 c' = some d' := by
  unfold globalConfig
  by_cases h0 : bp6.length = 0
  · rw [if_pos h0, if_pos h0]
    exact Or.inr ⟨c, c', rfl, rfl⟩
  · rw [if_neg h0, if_neg h0]
    cases bp6.parse [.w] with
    | none => exact Or.inl ⟨rfl, rfl⟩
    | some ps => exact Or.inr ⟨_, _, rfl, rfl⟩

section AddB1

variable {f : Features} {p p' : BChannel} {bps : List Parm} {b1Facilities : Nat}

theorem addB1Profile_alike (h : Alike p p') :
    SameResult (addB1Profile f p bps b1Facilities) (addB1Profile f p' bps b1Facilities) := by
  unfold addB1Profile
  dsimp only
  rw [h.addB1Facilities_eq]
  split
  · exact ⟨h, rfl⟩
  · split
    · cases (parm bps 3).parse [.w, .w, .w, .w, .w, .w] with
      | none => exact ⟨⟨h.tel, h.b1Options, rfl, h.b2Prot, h.b3Prot⟩, rfl⟩
      | some mdmCfg => exact ⟨⟨h.tel, h.b1Options, rfl, h.b2Prot, h.b3Prot⟩, rfl⟩
    · split
      · exact ⟨⟨h.tel, h.b1Options, rfl, h.b2Prot, h.b3Prot⟩, rfl⟩
      · exact ⟨⟨h.tel, h.b1Options, rfl, h.b2Prot, h.b3Prot⟩, rfl⟩

theorem addB1Protocol_alike (h : Alike p p') :
    SameResult (addB1Protocol f p bps b1Facilities) (addB1Protocol f p' bps b1Facilities) := by
  have hset : ∀ r : Nat, SameResult ({ p with b1Resource := r }, .success) ({ p' with b1Resource := r }, .success) :=
    fun r => ⟨⟨h.tel, h.b1Options, rfl, h.b2Prot, h.b3Prot⟩, rfl⟩
  unfold addB1Protocol
  dsimp only
  rw [h.privateOrLine_eq, h.privateOrLine_eq, h.rtpResource_eq, h.addB1Facilities_eq, h.addB1Facilities_eq, h.addB1Facilities_eq]
  split
  · exact hset 0
  split
  · exact hset _
  split
  · exact hset _
  split
  · exact hset _
  split
  · exact hset _
  · exact addB1Profile_alike h

theorem addB1_alike (h : Alike p p') (bp : Parm) (bChannelInfo b1Facilities : Nat) :
    SameResult (addB1 f p bp bChannelInfo b1Facilities) (addB1 f p' bp bChannelInfo b1Facilities) := by
  have hset : ∀ (q q' : BChannel), Alike q q' → ∀ r : Nat,
      SameResult ({ q with b1Resource := r }, .success) ({ q' with b1Resource := r }, .success) :=
    fun q q' hq r => ⟨⟨hq.tel, hq.b1Options, rfl, hq.b2Prot, hq.b3Prot⟩, rfl⟩
  have hdir : Alike { p with callDir := direct p.callDir } { p' with callDir := direct p'.callDir } :=
    ⟨h.tel, h.b1Options, h.b1Resource, h.b2Prot, h.b3Prot⟩
  obtain ⟨tel, callDir, b1Resource, b1Options, b2Prot, b3Prot, options, optionsConn, advNl, rxDma⟩ := p
  obtain ⟨tel', callDir', b1Resource', b1Options', b2Prot', b3Prot', options', optionsConn', advNl', rxDma'⟩ := p'
  obtain rfl : tel = tel' := h.tel
  unfold addB1
  by_cases h2 : bChannelInfo = 2
  · rw [if_pos h2, if_pos h2]
    exact hset _ _ h 0
  rw [if_neg h2, if_neg h2]
  cases tel with
  | codecPermanent => exact ⟨h, rfl⟩
  | codec => exact hset _ _ h 1
  | advVoice =>
    dsimp only
    rw [h.addB1Facilities_eq]
    exact hset _ _ h _
  | none =>
    dsimp only at hdir ⊢
    split
    · exact hset _ _ hdir 5
    split
    · exact ⟨hdir, rfl⟩
    cases parseB bp with
    | none => exact ⟨hdir, rfl⟩
    | some bps =>
      dsimp only
      rcases globalConfig_cases (parm bps 6) (direct callDir) (direct callDir') with ⟨hg, hg'⟩ | ⟨d, d', hg, hg'⟩
      · rw [hg, hg']
        exact ⟨hdir, rfl⟩
      · rw [hg, hg']
        exact addB1Protocol_alike ⟨rfl, h.b1Options, h.b1Resource, h.b2Prot, h.b3Prot⟩

theorem addB1Asked_alike (h : Alike p p') (bp : Parm) (bChannelInfo b1Facilities : Nat) :
    addB1Asked f p bp bChannelInfo b1Facilities = addB1Asked f p' bp bChannelInfo b1Facilities := by
  unfold addB1Asked
  rw [h.tel]
  split
  · rfl
  cases p'.tel with
  | codecPermanent => rfl
  | codec => rfl
  | advVoice => rfl
  | none =>
    dsimp only
    split
    · rfl
    split
    · rfl
    cases parseB bp with
    | none => rfl
    | some bps =>
      dsimp only
      rw [h.privateOrLine_eq, h.privateOrLine_eq, h.rtpTransparent_eq]
      rcases globalConfig_cases (parm bps 6) (direct p.callDir) (direct p'.callDir) with ⟨hg, hg'⟩ | ⟨d, d', hg, hg'⟩
      · rw [hg, hg']
      · rw [hg, hg']

/-- `add_b1` sets no more than the resource, the direction and the options. -/
theorem addB1_set (f : Features) (p : BChannel) (bp : Parm) (bChannelInfo b1Facilities : Nat) :
    Alike (addB1 f p bp bChannelInfo b1Facilities).1
      { p with b1Resource := (addB1 f p bp bChannelInfo b1Facilities).1.b1Resource } := by
  suffices h : ∃ r c o, (addB1 f p bp bChannelInfo b1Facilities).1 =
      { p with b1Resource := r, callDir := c, requestedOptions := o } by
    obtain ⟨r, c, o, h⟩ := h
    rw [h]
    exact ⟨rfl, rfl, rfl, rfl, rfl⟩
  have hprofile : ∀ (q : BChannel) bps, ∃ r o, (addB1Profile f q bps b1Facilities).1
      = { q with b1Resource := r, requestedOptions := o } := by
    intro q bps
    unfold addB1Profile
    dsimp only
    split
    · exact ⟨_, _, rfl⟩
    split
    · split
      · exact ⟨_, _, rfl⟩
      · exact ⟨_, _, rfl⟩
    split
    · exact ⟨_, _, rfl⟩
    · exact ⟨_, _, rfl⟩
  have hprotocol : ∀ (q : BChannel) bps, ∃ r o, (addB1Protocol f q bps b1Facilities).1
      = { q with b1Resource := r, requestedOptions := o } := by
    intro q bps
    unfold addB1Protocol
    dsimp only
    split
    · exact ⟨_, _, rfl⟩
    split
    · exact ⟨_, _, rfl⟩
    split
    · exact ⟨_, _, rfl⟩
    split
    · exact ⟨_, _, rfl⟩
    split
    · exact ⟨_, _, rfl⟩
    · exact hprofile q bps
  unfold addB1
  split
  · exact ⟨_, _, _, rfl⟩
  split
  · exact ⟨_, _, _, rfl⟩
  · exact ⟨_, _, _, rfl⟩
  · exact ⟨_, _, _, rfl⟩
  dsimp only
  split
  · exact ⟨_, _, _, rfl⟩
  split
  · exact ⟨_, _, _, rfl⟩
  split
  · exact ⟨_, _, _, rfl⟩
  split
  · exact ⟨_, _, _, rfl⟩
  · rename_i c _
    obtain ⟨r, o, h⟩ := hprotocol { p with callDir := c } ‹_›
    exact ⟨r, c, o, h⟩

end AddB1

section AddB23

variable {f : Features} {dma : Int} {p p' : BChannel} {applId : Nat} {bps : List Parm}

theorem takeDma_alike (f : Features) (dma : Int) (h : Alike p p') : Alike (takeDma f dma p) (takeDma f dma p') := by
  have hself : ∀ q : BChannel, Alike (takeDma f dma q) q := by
    intro q
    unfold takeDma
    split
    · exact ⟨rfl, rfl, rfl, rfl, rfl⟩
    · exact .refl q
  exact (hself p).trans (h.trans (hself p').symm)

/-- A modem sets both protocols unless the stack is not supported. -/
theorem addModemB23_fst (p : BChannel) (applId : Nat) (bps : List Parm) :
    (addModemB23 f dma p applId bps).1 =
      if ((parm bps 0).word 0 = b1ModemAllNegotiate ∧ (parm bps 1).word 0 ≠ b2ModemEcCompression) ∨
          ((parm bps 0).word 0 ≠ b1ModemAllNegotiate ∧ (parm bps 1).word 0 ≠ b2Transparent) then p
      else if (parm bps 2).word 0 ≠ b3Modem ∧ (parm bps 2).word 0 ≠ b3Transparent then p
      else takeDma f dma { p with b2Prot := (parm bps 1).word 0, b3Prot := (parm bps 2).word 0 } := by
  unfold addModemB23
  dsimp only
  split
  · rfl
  split
  · rfl
  split
  · split
    · rfl
    split
    · rfl
    · rfl
  · rfl

theorem addModemB23_alike (h : Alike p p') :
    Alike (addModemB23 f dma p applId bps).1 (addModemB23 f dma p' applId bps).1 := by
  rw [addModemB23_fst, addModemB23_fst]
  by_cases h1 : ((parm bps 0).word 0 = b1ModemAllNegotiate ∧ (parm bps 1).word 0 ≠ b2ModemEcCompression) ∨
      ((parm bps 0).word 0 ≠ b1ModemAllNegotiate ∧ (parm bps 1).word 0 ≠ b2Transparent)
  · rw [if_pos h1, if_pos h1]
    exact h
  rw [if_neg h1, if_neg h1]
  by_cases h2 : (parm bps 2).word 0 ≠ b3Modem ∧ (parm bps 2).word 0 ≠ b3Transparent
  · rw [if_pos h2, if_pos h2]
    exact h
  · rw [if_neg h2, if_neg h2]
    exact takeDma_alike f dma ⟨h.tel, h.b1Options, h.b1Resource, rfl, rfl⟩

/-- The direction changes layer 2, and with it the error only. -/
theorem addB23Profile_fst (p : BChannel) (applId : Nat) (bps : List Parm) :
    (addB23Profile f dma p applId bps).1 =
      if (!b2Supported f ((parm bps 1).word 0)) = true ∨ (!b3Supported f ((parm bps 2).word 0)) = true then p
      else if modemB23 ((parm bps 0).word 0) ((parm bps 1).word 0) = true then (addModemB23 f dma p applId bps).1
      else { p with b2Prot := (parm bps 1).word 0, b3Prot := (parm bps 2).word 0 } := by
  unfold addB23Profile
  dsimp only
  by_cases h2 : (!b2Supported f ((parm bps 1).word 0)) = true
  · rw [if_pos h2, if_pos (Or.inl h2)]
  by_cases h3 : (!b3Supported f ((parm bps 2).word 0)) = true
  · rw [if_neg h2, if_pos h3, if_pos (Or.inr h3)]
  have hn : ¬ ((!b2Supported f ((parm bps 1).word 0)) = true ∨ (!b3Supported f ((parm bps 2).word 0)) = true) := by
    rintro (h | h)
    · exact h2 h
    · exact h3 h
  rw [if_neg h2, if_neg h3, if_neg hn]
  by_cases hm : modemB23 ((parm bps 0).word 0) ((parm bps 1).word 0) = true
  · rw [if_pos hm, if_pos hm]
  · rw [if_neg hm, if_neg hm]
    split
    · rfl
    · rfl

theorem addB23Profile_alike (h : Alike p p') :
    Alike (addB23Profile f dma p applId bps).1 (addB23Profile f dma p' applId bps).1 := by
  rw [addB23Profile_fst, addB23Profile_fst]
  by_cases h2 : (!b2Supported f ((parm bps 1).word 0)) = true ∨ (!b3Supported f ((parm bps 2).word 0)) = true
  · rw [if_pos h2, if_pos h2]
    exact h
  rw [if_neg h2, if_neg h2]
  by_cases hm : modemB23 ((parm bps 0).word 0) ((parm bps 1).word 0) = true
  · rw [if_pos hm, if_pos hm]
    exact addModemB23_alike h
  · rw [if_neg hm, if_neg hm]
    exact ⟨h.tel, h.b1Options, h.b1Resource, rfl, rfl⟩

theorem addB23Protocol_alike (h : Alike p p') :
    Alike (addB23Protocol f dma p applId bps).1 (addB23Protocol f dma p' applId bps).1 := by
  have hset : ∀ b2 b3 : Nat, Alike { p with b2Prot := b2, b3Prot := b3 } { p' with b2Prot := b2, b3Prot := b3 } :=
    fun _ _ => ⟨h.tel, h.b1Options, h.b1Resource, rfl, rfl⟩
  unfold addB23Protocol
  dsimp only
  rw [h.privateOrLine_eq, h.privateOrLine_eq]
  split
  · exact hset _ _
  split
  · exact hset _ _
  · exact addB23Profile_alike h

theorem addB23_alike (h : Alike p p') (bp : Parm) : Alike (addB23 f dma p applId bp).1 (addB23 f dma p' applId bp).1 := by
  have hdma := takeDma_alike f dma h
  unfold addB23
  dsimp only
  generalize takeDma f dma p = q at hdma ⊢
  generalize takeDma f dma p' = q' at hdma ⊢
  obtain ⟨tel, callDir, b1Resource, b1Options, b2Prot, b3Prot, options, optionsConn, advNl, rxDma⟩ := q
  obtain ⟨tel', callDir', b1Resource', b1Options', b2Prot', b3Prot', options', optionsConn', advNl', rxDma'⟩ := q'
  obtain rfl : tel = tel' := hdma.tel
  dsimp only
  split
  · split
    · exact ⟨rfl, hdma.b1Options, hdma.b1Resource, rfl, rfl⟩
    · exact ⟨rfl, hdma.b1Options, hdma.b1Resource, rfl, rfl⟩
  split
  · exact hdma
  cases parseB bp with
  | none => exact hdma
  | some bps =>
    have hcodec : (codecB23 ⟨tel, callDir, b1Resource, b1Options, b2Prot, b3Prot, options, optionsConn, advNl, rxDma⟩ bps = none ∧
        codecB23 ⟨tel, callDir', b1Resource', b1Options', b2Prot', b3Prot', options', optionsConn', advNl', rxDma'⟩ bps = none) ∨
        ∃ q q', codecB23 ⟨tel, callDir, b1Resource, b1Options, b2Prot, b3Prot, options, optionsConn, advNl, rxDma⟩ bps = some q ∧
          codecB23 ⟨tel, callDir', b1Resource', b1Options', b2Prot', b3Prot', options', optionsConn', advNl', rxDma'⟩ bps
            = some q' ∧
          Alike q q' := by
      unfold codecB23
      cases tel with
      | codec => exact Or.inl ⟨rfl, rfl⟩
      | codecPermanent => exact Or.inl ⟨rfl, rfl⟩
      | none => exact Or.inr ⟨_, _, rfl, rfl, hdma⟩
      | advVoice =>
        dsimp only
        by_cases hb : (parm bps 1).word 0 ≠ b2Transparent ∨ (parm bps 2).word 0 ≠ b3Transparent
        · rw [if_pos hb, if_pos hb]
          exact Or.inl ⟨rfl, rfl⟩
        · rw [if_neg hb, if_neg hb]
          exact Or.inr ⟨_, _, rfl, rfl, ⟨rfl, hdma.b1Options, hdma.b1Resource, hdma.b2Prot, hdma.b3Prot⟩⟩
    dsimp only
    rcases hcodec with ⟨hq, hq'⟩ | ⟨q, q', hq, hq', hqq⟩
    · rw [hq, hq']
      exact hdma
    · rw [hq, hq']
      dsimp only
      rcases globalConfig_cases (parm bps 6) q.callDir q'.callDir with ⟨hg, hg'⟩ | ⟨d, d', hg, hg'⟩
      · rw [hg, hg']
        exact hqq
      · rw [hg, hg']
        exact addB23Protocol_alike ⟨hqq.tel, hqq.b1Options, hqq.b1Resource, hqq.b2Prot, hqq.b3Prot⟩

/-- The channel is as it was but for the protocols and what the results do not depend on. -/
def ProtocolsSet (p q : BChannel) : Prop := Alike q { p with b2Prot := q.b2Prot, b3Prot := q.b3Prot }

theorem takeDma_set (f : Features) (dma : Int) (q : BChannel) : ProtocolsSet q (takeDma f dma q) := by
  unfold takeDma
  split
  · exact ⟨rfl, rfl, rfl, rfl, rfl⟩
  · exact ⟨rfl, rfl, rfl, rfl, rfl⟩

theorem addModemB23_set (q : BChannel) : ProtocolsSet q (addModemB23 f dma q applId bps).1 := by
  rw [addModemB23_fst]
  split
  · exact .refl q
  split
  · exact .refl q
  · have h := takeDma_set f dma { q with b2Prot := (parm bps 1).word 0, b3Prot := (parm bps 2).word 0 }
    exact ⟨h.tel, h.b1Options, h.b1Resource, rfl, rfl⟩

theorem addB23Profile_set (q : BChannel) : ProtocolsSet q (addB23Profile f dma q applId bps).1 := by
  rw [addB23Profile_fst]
  split
  · exact .refl q
  split
  · exact addModemB23_set q
  · exact ⟨rfl, rfl, rfl, rfl, rfl⟩

theorem addB23Protocol_set (q : BChannel) : ProtocolsSet q (addB23Protocol f dma q applId bps).1 := by
  unfold addB23Protocol
  dsimp only
  split
  · exact ⟨rfl, rfl, rfl, rfl, rfl⟩
  split
  · exact ⟨rfl, rfl, rfl, rfl, rfl⟩
  · exact addB23Profile_set q

theorem codecB23_set {q q' : BChannel} (h : codecB23 q bps = some q') : ProtocolsSet q q' := by
  unfold codecB23 at h
  split at h
  · split at h
    · cases h
    · cases h
      exact ⟨rfl, rfl, rfl, rfl, rfl⟩
  · cases h
    exact .refl q
  · cases h

theorem ProtocolsSet.trans {p q r : BChannel} (h : ProtocolsSet p q) (h' : ProtocolsSet q r) : ProtocolsSet p r :=
  ⟨h'.tel.trans h.tel, h'.b1Options.trans h.b1Options, h'.b1Resource.trans h.b1Resource, rfl, rfl⟩

theorem addB23_set (p : BChannel) (bp : Parm) : ProtocolsSet p (addB23 f dma p applId bp).1 := by
  have hdma := takeDma_set f dma p
  unfold addB23
  dsimp only
  generalize takeDma f dma p = q at hdma ⊢
  split
  · split
    · exact hdma.trans ⟨rfl, rfl, rfl, rfl, rfl⟩
    · exact hdma.trans ⟨rfl, rfl, rfl, rfl, rfl⟩
  split
  · exact hdma
  cases parseB bp with
  | none => exact hdma
  | some bps =>
    dsimp only
    cases hq : codecB23 q bps with
    | none => exact hdma
    | some q' =>
      have hq' := hdma.trans (codecB23_set hq)
      dsimp only
      cases globalConfig (parm bps 6) q'.callDir with
      | none => exact hq'
      | some c => exact hq'.trans ((show ProtocolsSet q' { q' with callDir := c } from ⟨rfl, rfl, rfl, rfl, rfl⟩).trans
        (addB23Protocol_set _))

end AddB23

end Divas.Capi
