/-
  Divas.Tty.PppTrackSafe — which control frames are tracked safely.

  `Blocked` says that the search for an option comes to one of length zero that is not the
  one: then it goes on for ever. `FirstOpt` is what it finds otherwise.

  Proved, for every state and frame: a call ends, reads inside the frame and writes inside
  `Req` and `ModCfg` just if the search is not blocked, an IPCP frame with address and control
  bytes has its length field, and a configure nak that the ACCM is taken out of is not larger
  than `ModCfg` without it (`callSafe_iff`).
-/

import Divas.Tty.PppTrack

namespace Divas.Tty.Ppp

open Divas.Lib.Checks Divas.Lib.Run

/-! ## The search for an option -/

/-- The search comes to an option of length zero that is not the one. -/
inductive Blocked (frame : List UInt8) (endOpts : Nat) (optId : UInt8) : Nat → Prop
  | zero {opt : Nat} : opt + 2 ≤ endOpts → frame[opt + 1]? = some 0 → frame[opt]? ≠ some optId → Blocked frame endOpts optId opt
  | next {opt : Nat} {length : UInt8} : opt + 2 ≤ endOpts → frame[opt + 1]? = some length → opt + length.toNat ≤ endOpts →
      frame[opt]? ≠ some optId → Blocked frame endOpts optId (opt + length.toNat) → Blocked frame endOpts optId opt

/-- The first option of this type, from an option on. -/
inductive FirstOpt (frame : List UInt8) (endOpts : Nat) (optId : UInt8) : Nat → Nat → Prop
  | here {opt : Nat} {length : UInt8} : opt + 2 ≤ endOpts → frame[opt + 1]? = some length → opt + length.toNat ≤ endOpts →
      frame[opt]? = some optId → FirstOpt frame endOpts optId opt opt
  | next {opt o : Nat} {length : UInt8} : opt + 2 ≤ endOpts → frame[opt + 1]? = some length → opt + length.toNat ≤ endOpts →
      frame[opt]? ≠ some optId → FirstOpt frame endOpts optId (opt + length.toNat) o → FirstOpt frame endOpts optId opt o

section FindOpt

variable {frame : List UInt8} {endOpts opt o : Nat} {optId : UInt8}

/-- It lies before the end of the options. -/
theorem FirstOpt.inside (h : FirstOpt frame endOpts optId opt o) :
    opt ≤ o ∧ o + 2 ≤ endOpts ∧ frame[o]? = some optId ∧ ∃ length, frame[o + 1]? = some length ∧ o + length.toNat ≤ endOpts := by
  induction h with
  | here h2 hl hle hid => exact ⟨Nat.le_refl _, h2, hid, _, hl, hle⟩
  | next _ _ _ _ _ ih => exact ⟨by omega, ih.2⟩

theorem FirstOpt.unique {o' : Nat} (h : FirstOpt frame endOpts optId opt o) (h' : FirstOpt frame endOpts optId opt o') :
    o = o' := by
  induction h with
  | here _ _ _ hid =>
    cases h' with
    | here => rfl
    | next _ _ _ hne _ => exact absurd hid hne
  | next _ hl _ hne _ ih =>
    cases h' with
    | here _ _ _ hid => exact absurd hid hne
    | next _ hl' _ _ ho =>
      cases Option.some.inj (hl.symm.trans hl')
      exact ih ho

/-- One turn of the loop. -/
theorem pppFindOpt_succ (optId : UInt8) (hle : endOpts ≤ frame.length) (fuel : Nat) (h2 : opt + 2 ≤ endOpts) :
    ∃ length option, frame[opt + 1]? = some length ∧ frame[opt]? = some option ∧
      pppFindOpt frame endOpts optId (fuel + 1) opt =
        if opt + length.toNat ≤ endOpts then
          if option = optId then .ok (some opt) else pppFindOpt frame endOpts optId fuel (opt + length.toNat)
        else .ok none := by
  have h1 : opt + 1 < frame.length := by omega
  have h0 : opt < frame.length := by omega
  refine ⟨frame[opt + 1], frame[opt], List.getElem?_eq_getElem h1, List.getElem?_eq_getElem h0, ?_⟩
  rw [pppFindOpt, if_pos h2, readAt_of_lt h1, ok_bind_ok]
  split
  · rw [readAt_of_lt h0, ok_bind_ok]
    rfl
  · rfl

theorem pppFindOpt_end (fuel : Nat) (h2 : ¬ opt + 2 ≤ endOpts) : pppFindOpt frame endOpts optId (fuel + 1) opt = .ok none := by
  rw [pppFindOpt, if_neg h2]
  rfl

/-- What is found. -/
theorem pppFindOpt_some {fuel : Nat} (h : pppFindOpt frame endOpts optId fuel opt = .ok (some o)) :
    FirstOpt frame endOpts optId opt o := by
  induction fuel generalizing opt with
  | zero => cases h
  | succ fuel ih =>
    rw [pppFindOpt] at h
    split at h
    case isFalse => cases h
    case isTrue h2 =>
      obtain ⟨length, hl, h⟩ := bind_eq_ok.mp h
      have hl := readAt_eq_ok.mp hl
      split at h
      case isFalse => cases h
      case isTrue hin =>
        obtain ⟨option, ho, h⟩ := bind_eq_ok.mp h
        have ho := readAt_eq_ok.mp ho
        split at h
        case isTrue hid =>
          cases h
          exact .here h2 hl hin (by rw [ho, hid])
        case isFalse hid =>
          refine .next h2 hl hin ?_ (ih h)
          rw [ho]
          exact fun hc => hid (Option.some.inj hc)

/-- There is no option of the type. -/
theorem no_first_of_none (hle : endOpts ≤ frame.length) {fuel : Nat}
    (h : pppFindOpt frame endOpts optId fuel opt = .ok none) (o : Nat) :
    ¬ FirstOpt frame endOpts optId opt o := by
  intro ho
  induction fuel generalizing opt with
  | zero => cases h
  | succ fuel ih =>
    cases ho with
    | here h2 hl hin hid =>
      obtain ⟨length, option, hl', ho', heq⟩ := pppFindOpt_succ optId hle fuel h2
      cases Option.some.inj (hl.symm.trans hl')
      rw [heq, if_pos hin, if_pos (Option.some.inj (ho'.symm.trans hid))] at h
      cases h
    | next h2 hl hin hne ho =>
      obtain ⟨length, option, hl', ho', heq⟩ := pppFindOpt_succ optId hle fuel h2
      cases Option.some.inj (hl.symm.trans hl')
      rw [ho'] at hne
      rw [heq, if_pos hin, if_neg (fun hc => hne (by rw [hc]))] at h
      exact ih h ho

/-- It goes on for ever. -/
theorem Blocked.hang (hle : endOpts ≤ frame.length) (h : Blocked frame endOpts optId opt) (fuel : Nat) :
    pppFindOpt frame endOpts optId fuel opt = .error .hang := by
  induction fuel generalizing opt with
  | zero => rfl
  | succ fuel ih =>
    cases h with
    | zero h2 hl hne =>
      obtain ⟨length, option, hl', ho, heq⟩ := pppFindOpt_succ optId hle fuel h2
      cases Option.some.inj (hl.symm.trans hl')
      have hb : Blocked frame endOpts optId opt := .zero h2 hl hne
      rw [ho] at hne
      rw [heq, if_pos (by show opt + 0 ≤ endOpts; omega), if_neg (fun hc => hne (by rw [hc]))]
      exact ih hb
    | next h2 hl hle' hne hb =>
      obtain ⟨length, option, hl', ho, heq⟩ := pppFindOpt_succ optId hle fuel h2
      cases Option.some.inj (hl.symm.trans hl')
      rw [ho] at hne
      rw [heq, if_pos hle', if_neg (fun hc => hne (by rw [hc]))]
      exact ih hb

/-- It comes to an end. -/
theorem pppFindOpt_ok (hle : endOpts ≤ frame.length) (h : ¬ Blocked frame endOpts optId opt) {fuel : Nat}
    (hfuel : endOpts ≤ opt + fuel) :
    Ok (pppFindOpt frame endOpts optId (fuel + 1) opt) := by
  induction fuel generalizing opt with
  | zero =>
    rw [pppFindOpt_end 0 (by omega)]
    exact ok_ok none
  | succ fuel ih =>
    by_cases h2 : opt + 2 ≤ endOpts
    · obtain ⟨length, option, hl, ho, heq⟩ := pppFindOpt_succ optId hle (fuel + 1) h2
      rw [heq]
      split
      case isTrue hle' =>
        split
        case isTrue => exact ok_ok _
        case isFalse hid =>
          have hne : frame[opt]? ≠ some optId := by
            rw [ho]
            exact fun hc => hid (Option.some.inj hc)
          by_cases h0 : length = 0
          · rw [h0] at hl
            exact absurd (.zero h2 hl hne) h
          · have hpos : 0 < length.toNat := by
              refine Nat.pos_of_ne_zero fun hz => h0 ?_
              exact UInt8.toNat_inj.mp hz
            exact ih (fun hb => h (.next h2 hl hle' hne hb)) (by omega)
      case isFalse => exact ok_ok _
    · rw [pppFindOpt_end _ h2]
      exact ok_ok _

/-- The search for another option comes to an end where this one has. -/
theorem not_blocked_of_none (hle : endOpts ≤ frame.length) {fuel : Nat} (h : pppFindOpt frame endOpts optId fuel opt = .ok none)
    (optId' : UInt8) :
    ¬ Blocked frame endOpts optId' opt := by
  induction fuel generalizing opt with
  | zero => cases h
  | succ fuel ih =>
    by_cases h2 : opt + 2 ≤ endOpts
    · obtain ⟨length, option, hl, ho, heq⟩ := pppFindOpt_succ optId hle fuel h2
      rw [heq] at h
      intro hb
      split at h
      case isTrue =>
        split at h
        case isTrue => cases h
        case isFalse =>
          have hno := ih h
          cases hb with
          | zero _ hl' hne =>
            cases Option.some.inj (hl.symm.trans hl')
            exact hno (.zero h2 hl' hne)
          | next _ hl' _ _ hb =>
            cases Option.some.inj (hl.symm.trans hl')
            exact hno hb
      case isFalse hgt =>
        cases hb with
        | zero _ hl' _ =>
          cases Option.some.inj (hl.symm.trans hl')
          exact hgt (by show opt + 0 ≤ endOpts; omega)
        | next _ hl' hle' _ _ =>
          cases Option.some.inj (hl.symm.trans hl')
          exact hgt hle'
    · intro hb
      cases hb with
      | zero h2' => exact h2 h2'
      | next h2' => exact h2 h2'

end FindOpt

/-! ## LCP -/

/-- `ntohs`, where the frame has the two bytes. -/
def wordAt (frame : List UInt8) (p : Nat) : Nat := (frame.getD p 0).toNat * 256 + (frame.getD (p + 1) 0).toNat

section Lcp

variable {frame : List UInt8} {endOpts opt o p fuel : Nat} {ppp : PppConfig} {from_ : From}

theorem getElem_getD {i : Nat} (h : i < frame.length) : frame[i] = frame.getD i 0 := by
  rw [List.getD_eq_getElem?_getD, List.getElem?_eq_getElem h]
  rfl

theorem ntohs_of_lt (h : p + 1 < frame.length) : ntohs frame p = .ok (wordAt frame p) := by
  unfold ntohs wordAt
  rw [readAt_of_lt (show p < frame.length by omega), ok_bind_ok, readAt_of_lt h, ok_bind_ok, getElem_getD, getElem_getD]
  rfl

theorem ntohl_of_lt (h : p + 3 < frame.length) : Ok (ntohl frame p) := by
  unfold ntohl
  rw [ntohs_of_lt (show p + 1 < frame.length by omega), ok_bind_ok, ntohs_of_lt h, ok_bind_ok]
  exact ok_pure _

theorem pppSyncLcpFrame_length (h : pppSyncLcpFrame frame = true) :
    9 ≤ frame.length ∧ maxCfgHdrLen + wordAt frame 6 ≤ frame.length := by
  unfold pppSyncLcpFrame at h
  split at h
  · rw [Bool.and_eq_true, decide_eq_true_eq, decide_eq_true_eq] at h
    refine ⟨by simp, ?_⟩
    have h2 := h.2
    rw [Nat.add_comm] at h2
    exact h2
  · cases h

/-- The bytes before and behind the ACCM fit in `ModCfg`. -/
theorem ok_cutAccm (modCfg : Nat → UInt8) (sizeOpts : Nat) (hle : endOpts ≤ frame.length) (hopt : opt + lcpOptAccmLen ≤ endOpts) :
    Ok (cutAccm modCfg frame sizeOpts endOpts opt) ↔ endOpts ≤ lcpFrameMax + lcpOptAccmLen := by
  unfold lcpOptAccmLen at hopt
  have hfirst : slice frame 0 opt = .ok (frame.take opt) := slice_of_le (by omega)
  have hsecond : slice frame (opt + lcpOptAccmLen) (endOpts - (opt + lcpOptAccmLen)) =
      .ok ((frame.drop (opt + lcpOptAccmLen)).take (endOpts - (opt + lcpOptAccmLen))) :=
        slice_of_le (by unfold lcpOptAccmLen; omega)
  have hlen1 : (frame.take opt).length = opt := by
    rw [List.length_take]
    omega
  have hlen2 : ((frame.drop (opt + lcpOptAccmLen)).take (endOpts - (opt + lcpOptAccmLen))).length = endOpts - (opt + 6) := by
    rw [List.length_take, List.length_drop]
    unfold lcpOptAccmLen
    omega
  unfold cutAccm
  rw [hfirst, ok_bind_ok]
  constructor
  · intro h
    obtain ⟨m1, h1, h⟩ := ok_bind.mp h
    have h1 := (ok_put modCfg).mp ⟨m1, h1⟩
    rw [hsecond, ok_bind_ok] at h
    obtain ⟨m2, h2, -⟩ := ok_bind.mp h
    have h2 := (ok_put m1).mp ⟨m2, h2⟩
    rw [hlen1] at h1
    rw [hlen2] at h2
    unfold lcpFrameMax at h1 h2 ⊢
    unfold lcpOptAccmLen
    omega
  · intro h
    unfold lcpFrameMax lcpOptAccmLen at h
    refine ok_bind.mpr ⟨_, put_of_le modCfg (by rw [hlen1]; unfold lcpFrameMax; omega), ?_⟩
    rw [hsecond, ok_bind_ok]
    refine ok_bind.mpr ⟨_, put_of_le _ (by rw [hlen2]; unfold lcpFrameMax; omega), ?_⟩
    exact ⟨_, put_of_le _ (show 6 + 2 ≤ 96 by decide)⟩

theorem ok_saved (buf : Nat → UInt8) (h : frame.length ≤ lcpFrameMax) :
    slice frame 0 frame.length = .ok frame ∧ Ok (memCpy buf 0 frame) := by
  constructor
  · rw [slice_of_le (by omega), List.drop_zero, List.take_length]
  · exact ⟨_, put_of_le buf (by omega)⟩

/-- A request is saved if it fits. -/
theorem ok_lcpReq {sizeOpts : Nat} {optAccm : Option Nat} (accm : UInt32) (hle : endOpts ≤ frame.length)
    (hopt : ∀ opt, optAccm = some opt → opt + lcpOptAccmLen ≤ endOpts) :
      Ok (lcpReq ppp frame from_ sizeOpts endOpts optAccm accm) := by
  unfold lcpReq
  dsimp only
  generalize (if from_ = .port then Side.tx else .rx) = side
  cases optAccm with
  | some opt =>
    dsimp only
    split
    · exact ok_pure _
    · split
      · exact ok_pure _
      · rename_i hmax
        obtain ⟨hslice, req, hreq⟩ := ok_saved (ppp.track side).req (Nat.not_lt.mp hmax)
        obtain ⟨modCfg, hmod⟩ := (ok_cutAccm ppp.modCfg sizeOpts hle (hopt opt rfl)).mpr
          (by unfold lcpFrameMax lcpOptAccmLen at *; omega)
        rw [hslice, ok_bind_ok, hreq, ok_bind_ok, hmod, ok_bind_ok]
        exact ok_pure _
  | none =>
    dsimp only
    split
    · exact ok_pure _
    · split
      · exact ok_pure _
      · rename_i hmax
        have hmax : frame.length ≤ 90 := Nat.not_lt.mp hmax
        obtain ⟨hslice, req, hreq⟩ := ok_saved (ppp.track side).req (show frame.length ≤ lcpFrameMax by unfold lcpFrameMax; omega)
        obtain ⟨-, modCfg, hmod⟩ := ok_saved ppp.modCfg (show frame.length ≤ lcpFrameMax by unfold lcpFrameMax; omega)
        rw [hslice, ok_bind_ok, hreq, ok_bind_ok, ok_bind_ok, hmod, ok_bind_ok]
        refine ok_bind.mpr ⟨_, put_of_le _ (by show frame.length + 6 ≤ 96; omega), ?_⟩
        refine ok_bind.mpr ⟨_, put_of_le _ (show 6 + 2 ≤ 96 by decide), ?_⟩
        exact ok_pure _

theorem ok_lcpAck (optAccm : Option Nat) (accm : UInt32) : Ok (lcpAck ppp frame from_ optAccm accm) := by
  unfold lcpAck
  dsimp only
  generalize (if from_ = .port then Side.rx else .tx) = side
  split
  · exact ok_pure _
  · exact ok_bind.mpr ⟨_, put_of_le _ (show 4 + 1 ≤ 96 by decide), ok_pure _⟩

theorem ok_lcpRej (optAccm : Option Nat) : Ok (lcpRej ppp frame from_ optAccm) := by
  unfold lcpRej
  cases optAccm with
  | none => exact ok_pure _
  | some opt => exact ok_pure _

/-- The track of the requests that the other side answers. -/
def answered (from_ : From) : Side := if from_ = .port then .rx else .tx

theorem ok_lcpNak_none (sizeOpts : Nat) (accm : UInt32) : Ok (lcpNak ppp frame from_ sizeOpts endOpts none accm) := ok_pure _

/-- A nak is not looked at for its size. -/
theorem ok_lcpNak {sizeOpts : Nat} (accm : UInt32) (hle : endOpts ≤ frame.length)
    (hopt : opt + lcpOptAccmLen ≤ endOpts) (_ : 8 ≤ opt) :
    Ok (lcpNak ppp frame from_ sizeOpts endOpts (some opt) accm) ↔
      ((ppp.track (answered from_)).caughtReq = lcpFlagAddAccm → endOpts ≤ lcpFrameMax + lcpOptAccmLen) := by
  unfold lcpNak answered
  dsimp only
  generalize (if from_ = .port then Side.rx else .tx) = side
  split
  case isTrue hne => exact ⟨fun _ hc => absurd hc hne, fun _ => ok_pure _⟩
  case isFalse hadd =>
    have hadd := not_ne_iff.mp hadd
    split
    case isTrue =>
      constructor
      · intro h _
        obtain ⟨m, hm, -⟩ := ok_bind.mp h
        exact (ok_cutAccm ppp.modCfg sizeOpts hle hopt).mp ⟨m, hm⟩
      · intro h
        obtain ⟨m, hm⟩ := (ok_cutAccm ppp.modCfg sizeOpts hle hopt).mpr (h hadd)
        rw [hm, ok_bind_ok]
        exact ok_pure _
    case isFalse honly =>
      refine ⟨fun _ _ => ?_, fun _ => ok_pure _⟩
      unfold lcpFrameMax lcpOptAccmLen at *
      omega

end Lcp

/-- The types that are tracked. -/
def Tracks (type : UInt8) : Prop := cfgReq ≤ type ∧ type ≤ cfgRej

instance (type : UInt8) : Decidable (Tracks type) := inferInstanceAs (Decidable (_ ∧ _))

/-- The end of the options of an LCP frame. -/
def lcpEnd (frame : List UInt8) : Nat := maxCfgHdrLen + wordAt frame 6

/-- A nak for the ACCM that was added, which is too large without it. -/
def NakTooLarge (ppp : PppConfig) (frame : List UInt8) (from_ : From) : Prop :=
  frame.getD 4 0 = cfgNak ∧ (ppp.track (answered from_)).caughtReq = lcpFlagAddAccm ∧ lcpFrameMax + lcpOptAccmLen < lcpEnd frame ∧
    ∃ o, FirstOpt frame (lcpEnd frame) lcpOptAccm 8 o ∧ frame[o + 1]? = some lcpOptAccmLen.toUInt8

/-- The condition for an LCP frame. -/
def LcpMet (ppp : PppConfig) (frame : List UInt8) (from_ : From) : Prop :=
  pppSyncLcpFrame frame = true → Tracks (frame.getD 4 0) →
    ¬ Blocked frame (lcpEnd frame) lcpOptAccm 8 ∧ ¬ NakTooLarge ppp frame from_

section LcpFrame

variable {frame : List UInt8} {fuel : Nat} {ppp : PppConfig} {from_ : From}

theorem not_tracks {type : UInt8} : (type < cfgReq ∨ cfgRej < type) ↔ ¬ Tracks type := by
  unfold Tracks
  rw [not_and_or, UInt8.not_le, UInt8.not_le]

/-- `pppTrackLcp` from the search for the ACCM on. -/
def lcpSearch (fuel : Nat) (ppp : PppConfig) (frame : List UInt8) (from_ : From) : Checked Tracked := do
  match ← pppFindOpt frame (lcpEnd frame) lcpOptAccm fuel 8 with
  | some opt =>
    let length ← readAt frame (opt + 1)
    if length.toNat ≠ lcpOptAccmLen then return ppp.pass frame
    else
      let accm ← ntohl frame (opt + 2)
      lcpType ppp frame from_ (frame.getD 4 0) (wordAt frame 6) (lcpEnd frame) (some opt) accm
  | none => lcpType ppp frame from_ (frame.getD 4 0) (wordAt frame 6) (lcpEnd frame) none 0

theorem pppTrackLcp_tracks (hs : pppSyncLcpFrame frame = true) (ht : Tracks (frame.getD 4 0)) :
    pppTrackLcp fuel ppp frame from_ = lcpSearch fuel ppp frame from_ := by
  obtain ⟨h9, -⟩ := pppSyncLcpFrame_length hs
  unfold pppTrackLcp lcpSearch
  rw [if_neg (by rw [hs]; decide), readAt_of_lt (show 4 < frame.length by omega), ok_bind_ok, getElem_getD,
    if_neg (fun hor => not_tracks.mp hor ht), ntohs_of_lt (show 6 + 1 < frame.length by omega)]
  rfl

theorem pppTrackLcp_passes (h : ¬ (pppSyncLcpFrame frame = true ∧ Tracks (frame.getD 4 0))) :
    Ok (pppTrackLcp fuel ppp frame from_) := by
  unfold pppTrackLcp
  split
  · exact ok_pure _
  · rename_i hs
    have hs : pppSyncLcpFrame frame = true := Bool.not_eq_false _ ▸ hs
    obtain ⟨h9, -⟩ := pppSyncLcpFrame_length hs
    rw [readAt_of_lt (show 4 < frame.length by omega), ok_bind_ok, getElem_getD,
      if_pos (not_tracks.mpr fun ht => h ⟨hs, ht⟩)]
    exact ok_pure _

theorem ok_lcpType_none (type : UInt8) (sizeOpts endOpts : Nat) (hle : endOpts ≤ frame.length) :
    Ok (lcpType ppp frame from_ type sizeOpts endOpts none 0) := by
  unfold lcpType
  split
  · exact ok_lcpReq 0 hle nofun
  · split
    · exact ok_lcpAck none 0
    · split
      · exact ok_lcpNak_none sizeOpts 0
      · exact ok_lcpRej none

theorem ok_lcpType_some {type : UInt8} {sizeOpts endOpts opt : Nat} (accm : UInt32) (hle : endOpts ≤ frame.length)
    (hopt : opt + lcpOptAccmLen ≤ endOpts) (h8 : 8 ≤ opt) :
    Ok (lcpType ppp frame from_ type sizeOpts endOpts (some opt) accm) ↔
      (type = cfgNak → (ppp.track (answered from_)).caughtReq = lcpFlagAddAccm → endOpts ≤ lcpFrameMax + lcpOptAccmLen) := by
  unfold lcpType
  split
  case isTrue hreq =>
    refine ⟨fun _ hnak => ?_, fun _ => ok_lcpReq accm hle ?_⟩
    · rw [hreq] at hnak
      cases hnak
    · intro o ho
      cases ho
      exact hopt
  case isFalse =>
    split
    case isTrue hack =>
      refine ⟨fun _ hnak => ?_, fun _ => ok_lcpAck (some opt) accm⟩
      rw [hack] at hnak
      cases hnak
    case isFalse =>
      split
      case isTrue hnak =>
        rw [ok_lcpNak accm hle hopt h8]
        exact ⟨fun h _ => h, fun h => h hnak⟩
      case isFalse hno => exact ⟨fun _ hnak => absurd hnak hno, fun _ => ok_lcpRej (some opt)⟩

/-- What is behind the search is safe, unless a nak is too large. -/
theorem ok_lcpSearch (hs : pppSyncLcpFrame frame = true) {r : Option Nat}
    (hr : pppFindOpt frame (lcpEnd frame) lcpOptAccm fuel 8 = .ok r) :
    Ok (lcpSearch fuel ppp frame from_) ↔ ¬ NakTooLarge ppp frame from_ := by
  obtain ⟨-, hle⟩ := pppSyncLcpFrame_length hs
  have hle : lcpEnd frame ≤ frame.length := hle
  unfold lcpSearch
  rw [hr, ok_bind_ok]
  cases r with
  | none =>
    refine ⟨fun _ ⟨_, _, _, o, ho, _⟩ => ?_, fun _ => ok_lcpType_none _ _ _ hle⟩
    exact no_first_of_none hle hr o ho
  | some opt =>
    have hfirst := pppFindOpt_some hr
    obtain ⟨h8, h2, -, length, hl, hin⟩ := hfirst.inside
    dsimp only
    rw [readAt_eq_ok.mpr hl, ok_bind_ok]
    split
    case isTrue hne =>
      refine ⟨fun _ ⟨_, _, _, o, ho, h6⟩ => ?_, fun _ => ok_pure _⟩
      rw [← hfirst.unique ho, hl] at h6
      cases h6
      exact hne rfl
    case isFalse heq =>
      have heq : length.toNat = 6 := not_ne_iff.mp heq
      obtain ⟨accm, haccm⟩ := ntohl_of_lt (show opt + 2 + 3 < frame.length by omega)
      rw [haccm, ok_bind_ok, ok_lcpType_some accm hle (show opt + 6 ≤ lcpEnd frame by omega) h8]
      constructor
      · rintro h ⟨hnak, hadd, hlt, -⟩
        exact absurd (h hnak hadd) (by omega)
      · intro h hnak hadd
        by_contra hlt
        refine h ⟨hnak, hadd, by omega, opt, hfirst, ?_⟩
        rw [hl]
        exact congrArg some (UInt8.toNat_inj.mp heq)

/-- An LCP frame is tracked safely just if the condition is met. -/
theorem lcp_safe (h : Ok (pppTrackLcp fuel ppp frame from_)) : LcpMet ppp frame from_ := by
  intro hs ht
  obtain ⟨-, hle⟩ := pppSyncLcpFrame_length hs
  have hle : lcpEnd frame ≤ frame.length := hle
  rw [pppTrackLcp_tracks hs ht] at h
  have hsearch := h
  unfold lcpSearch at hsearch
  obtain ⟨r, hr, -⟩ := ok_bind.mp hsearch
  refine ⟨fun hb => ?_, (ok_lcpSearch hs hr).mp h⟩
  rw [hb.hang hle fuel] at hr
  cases hr

theorem LcpMet.safe (h : LcpMet ppp frame from_) : Ok (pppTrackLcp (enough frame) ppp frame from_) := by
  by_cases hst : pppSyncLcpFrame frame = true ∧ Tracks (frame.getD 4 0)
  · obtain ⟨hb, hn⟩ := h hst.1 hst.2
    obtain ⟨-, hle⟩ := pppSyncLcpFrame_length hst.1
    have hle : lcpEnd frame ≤ frame.length := hle
    obtain ⟨r, hr⟩ := pppFindOpt_ok hle hb (show lcpEnd frame ≤ 8 + frame.length by omega)
    rw [pppTrackLcp_tracks hst.1 hst.2]
    exact (ok_lcpSearch hst.1 hr).mpr hn
  · exact pppTrackLcp_passes hst

end LcpFrame

/-! ## IPCP -/

/-- `Adj`. -/
def adjOf (frame : List UInt8) : Nat := if frame.getD 0 0 = 0xff then 0 else 2

/-- The end of the options of an IPCP frame. -/
def ipcpEnd (frame : List UInt8) : Nat := maxCfgHdrLen - adjOf frame + wordAt frame (6 - adjOf frame)

/-- The condition for an IPCP frame. -/
def IpcpMet (frame : List UInt8) : Prop :=
  8 - adjOf frame ≤ frame.length ∧
    (minCfgOptLen ≤ wordAt frame (6 - adjOf frame) → ipcpEnd frame ≤ frame.length → Tracks (frame.getD (4 - adjOf frame) 0) →
      ¬ Blocked frame (ipcpEnd frame) ipcpOptAddr (8 - adjOf frame))

section Ipcp

variable {frame : List UInt8} {fuel : Nat} {ppp : PppConfig} {from_ : From}

theorem adjOf_cases (frame : List UInt8) : adjOf frame = 0 ∨ adjOf frame = 2 := by
  unfold adjOf
  split
  · exact Or.inl rfl
  · exact Or.inr rfl

/-- A request is saved if it fits; the rest is fixed places of the buffers. -/
theorem ok_ipcpType (adj : Nat) (type : UInt8) (sizeOpts : Nat) (addr : UInt32) :
    Ok (ipcpType ppp frame from_ adj type sizeOpts addr) := by
  have hack : 4 - adj + 1 ≤ lcpFrameMax := by
    unfold lcpFrameMax
    omega
  have hword : 6 - adj + 2 ≤ lcpFrameMax := by
    unfold lcpFrameMax
    omega
  unfold ipcpType
  dsimp only
  split
  · exact ok_pure _
  · split
    · split
      · exact ok_pure _
      · split
        · exact ok_pure _
        · rename_i hmax
          obtain ⟨hslice, req, hreq⟩ := ok_saved ppp.txTrack.req (Nat.not_lt.mp hmax)
          obtain ⟨-, modCfg, hmod⟩ := ok_saved ppp.modCfg (Nat.not_lt.mp hmax)
          rw [hslice, ok_bind_ok, hreq, ok_bind_ok]
          split
          · rw [ok_bind_ok, hmod, ok_bind_ok]
            exact ok_bind.mpr ⟨_, put_of_le _ hword, ok_pure _⟩
          · exact ok_pure _
    · split
      · split
        · exact ok_pure _
        · exact ok_bind.mpr ⟨_, put_of_le _ hack, ok_pure _⟩
      · exact ok_pure _

/-- `pppTrackIpcp` from the search for the address on. -/
def ipcpSearch (fuel : Nat) (ppp : PppConfig) (frame : List UInt8) (from_ : From) : Checked Tracked := do
  match ← findAddr fuel frame (ipcpEnd frame) (8 - adjOf frame) with
  | some opt =>
    let length ← readAt frame (opt + 1)
    if length.toNat < ipcpOptAddrLen then return ppp.pass frame
    else
      let addr ← ntohl frame (opt + 2)
      ipcpType ppp frame from_ (adjOf frame) (frame.getD (4 - adjOf frame) 0) (wordAt frame (6 - adjOf frame)) addr
  | none => ipcpType ppp frame from_ (adjOf frame) (frame.getD (4 - adjOf frame) 0) (wordAt frame (6 - adjOf frame)) 0

/-- The frame has its length field. -/
theorem pppTrackIpcp_eq (h : 8 - adjOf frame ≤ frame.length) :
    pppTrackIpcp fuel ppp frame from_ =
      if minCfgOptLen ≤ wordAt frame (6 - adjOf frame) ∧ ipcpEnd frame ≤ frame.length ∧
        Tracks (frame.getD (4 - adjOf frame) 0) then
        ipcpSearch fuel ppp frame from_
      else .ok (ppp.pass frame) := by
  have hadj := adjOf_cases frame
  unfold pppTrackIpcp
  rw [readAt_of_lt (show 0 < frame.length by omega), ok_bind_ok, getElem_getD]
  have hsame : (if frame.getD 0 0 = 0xff then 0 else 2) = adjOf frame := rfl
  rw [hsame]
  dsimp only
  rw [ntohs_of_lt (show 6 - adjOf frame + 1 < frame.length by omega), ok_bind_ok,
    readAt_of_lt (show 4 - adjOf frame < frame.length by omega), ok_bind_ok, getElem_getD]
  have hend : maxCfgHdrLen - adjOf frame + wordAt frame (6 - adjOf frame) = ipcpEnd frame := rfl
  rw [hend]
  by_cases h1 : wordAt frame (6 - adjOf frame) < minCfgOptLen ∨ frame.length < ipcpEnd frame
  · rw [if_pos h1, if_neg (by omega)]
    rfl
  · rw [if_neg h1]
    by_cases h2 : Tracks (frame.getD (4 - adjOf frame) 0)
    · rw [if_neg (fun hor => not_tracks.mp hor h2), if_pos ⟨by omega, by omega, h2⟩]
      rfl
    · rw [if_pos (not_tracks.mpr h2), if_neg (fun hand => h2 hand.2.2)]
      rfl

theorem findAddr_some {endOpts opts o : Nat} (h : findAddr fuel frame endOpts opts = .ok (some o)) :
    ∃ optId, FirstOpt frame endOpts optId opts o := by
  unfold findAddr at h
  obtain ⟨r, hr, h⟩ := bind_eq_ok.mp h
  cases r with
  | some opt =>
    cases h
    exact ⟨_, pppFindOpt_some hr⟩
  | none => exact ⟨_, pppFindOpt_some h⟩

theorem findAddr_not_blocked {endOpts opts : Nat} (hle : endOpts ≤ frame.length) (h : Ok (findAddr fuel frame endOpts opts)) :
    ¬ Blocked frame endOpts ipcpOptAddr opts := by
  intro hb
  unfold findAddr at h
  obtain ⟨r, hr, -⟩ := ok_bind.mp h
  rw [hb.hang hle fuel] at hr
  cases hr

/-- Where the search for the one option ends, the other one does too. -/
theorem ok_findAddr {endOpts opts : Nat} (hle : endOpts ≤ frame.length) (hb : ¬ Blocked frame endOpts ipcpOptAddr opts) :
    Ok (findAddr (enough frame) frame endOpts opts) := by
  unfold findAddr
  obtain ⟨r, hr⟩ := pppFindOpt_ok hle hb (show endOpts ≤ opts + frame.length by omega)
  refine ok_bind.mpr ⟨r, hr, ?_⟩
  cases r with
  | some opt => exact ok_pure _
  | none => exact pppFindOpt_ok hle (not_blocked_of_none hle hr ipcpOptAddrs) (show endOpts ≤ opts + frame.length by omega)

theorem ok_ipcpSearch (hle : ipcpEnd frame ≤ frame.length) :
    Ok (ipcpSearch fuel ppp frame from_) ↔ Ok (findAddr fuel frame (ipcpEnd frame) (8 - adjOf frame)) := by
  unfold ipcpSearch
  constructor
  · intro h
    obtain ⟨r, hr, -⟩ := ok_bind.mp h
    exact ⟨r, hr⟩
  · rintro ⟨r, hr⟩
    rw [hr, ok_bind_ok]
    cases r with
    | none => exact ok_ipcpType _ _ _ _
    | some opt =>
      obtain ⟨optId, hfirst⟩ := findAddr_some hr
      obtain ⟨-, -, -, length, hl, hin⟩ := hfirst.inside
      dsimp only
      rw [readAt_eq_ok.mpr hl, ok_bind_ok]
      split
      · exact ok_pure _
      · rename_i hge
        have hge : 6 ≤ length.toNat := Nat.not_lt.mp hge
        obtain ⟨addr, haddr⟩ := ntohl_of_lt (show opt + 2 + 3 < frame.length by omega)
        rw [haddr, ok_bind_ok]
        exact ok_ipcpType _ _ _ _

/-- An IPCP frame is tracked safely just if the condition is met. -/
theorem ipcp_safe (h : Ok (pppTrackIpcp fuel ppp frame from_)) : IpcpMet frame := by
  have hlen : 8 - adjOf frame ≤ frame.length := by
    have hadj := adjOf_cases frame
    unfold pppTrackIpcp at h
    obtain ⟨first, hfirst, h⟩ := ok_bind.mp h
    have hfirst := readAt_eq_ok.mp hfirst
    have hsame : (if first = 0xff then 0 else 2) = adjOf frame := by
      unfold adjOf
      rw [List.getD_eq_getElem?_getD, hfirst]
      rfl
    rw [hsame] at h
    obtain ⟨sizeOpts, hsize, -⟩ := ok_bind.mp h
    unfold ntohs at hsize
    obtain ⟨hi, -, hsize⟩ := bind_eq_ok.mp hsize
    obtain ⟨lo, hlo, -⟩ := bind_eq_ok.mp hsize
    have hlt := (List.getElem?_eq_some_iff.mp (readAt_eq_ok.mp hlo)).1
    omega
  refine ⟨hlen, fun h1 h2 h3 => ?_⟩
  rw [pppTrackIpcp_eq hlen, if_pos ⟨h1, h2, h3⟩, ok_ipcpSearch h2] at h
  exact findAddr_not_blocked h2 h

theorem IpcpMet.safe (h : IpcpMet frame) : Ok (pppTrackIpcp (enough frame) ppp frame from_) := by
  obtain ⟨hlen, hmet⟩ := h
  rw [pppTrackIpcp_eq hlen]
  split
  case isTrue hall =>
    rw [ok_ipcpSearch hall.2.1]
    exact ok_findAddr hall.2.1 (hmet hall.1 hall.2.1 hall.2.2)
  case isFalse => exact ok_ok _

end Ipcp

/-! ## Control frames -/

/-- The condition for a frame. -/
def Met (patches : UInt8) (ppp : PppConfig) (c : Control) : Prop :=
  isControl c.frame = true →
    (c.frame.take 4 = [0xff, 0x03, 0xc0, 0x21] → patches &&& pppPatchPassLcp = 0 → LcpMet ppp c.frame c.from_) ∧
      (c.frame.take 4 ≠ [0xff, 0x03, 0xc0, 0x21] → c.frame.take 4 = [0xff, 0x03, 0x80, 0x21] ∨ c.frame.take 2 = [0x80, 0x21] →
        patches &&& pppPatchPassIpcp = 0 → IpcpMet c.frame)

theorem callSafe_iff (patches : UInt8) (ppp : PppConfig) (c : Control) : CallSafe patches ppp c ↔ Met patches ppp c := by
  constructor
  · rintro ⟨fuel, h⟩ hcontrol
    unfold rnaTrack at h
    rw [if_neg (by rw [hcontrol]; decide)] at h
    constructor
    · intro htag hpatch
      rw [if_pos htag, if_neg (fun hne => hne hpatch)] at h
      exact lcp_safe h
    · intro hno htag hpatch
      rw [if_neg hno, if_neg (fun hne => hne hpatch), if_pos htag] at h
      exact ipcp_safe h
  · intro h
    refine ⟨enough c.frame, ?_⟩
    unfold rnaTrack
    split
    case isTrue => exact ok_pure _
    case isFalse hcontrol =>
      obtain ⟨hlcp, hipcp⟩ := h (Bool.not_eq_false _ ▸ hcontrol)
      split
      case isTrue htag =>
        split
        case isTrue => exact ok_pure _
        case isFalse hpatch => exact (hlcp htag (not_ne_iff.mp hpatch)).safe
      case isFalse hno =>
        split
        case isTrue => exact ok_pure _
        case isFalse hpatch =>
          split
          case isTrue htag => exact (hipcp hno htag (not_ne_iff.mp hpatch)).safe
          case isFalse => exact ok_pure _

/-- An option that is found lies before the end of the options. -/
theorem pppFindOpt_inside {frame : List UInt8} {endOpts opt o fuel : Nat} {optId : UInt8}
    (h : pppFindOpt frame endOpts optId fuel opt = .ok (some o)) :
    opt ≤ o ∧ o + 2 ≤ endOpts ∧ ∃ length, frame[o + 1]? = some length ∧ o + length.toNat ≤ endOpts := by
  obtain ⟨h1, h2, -, h3⟩ := (pppFindOpt_some h).inside
  exact ⟨h1, h2, h3⟩

/-- What the search returns. -/
def OptionsInside : Prop :=
  ∀ (frame : List UInt8) (endOpts opt o fuel : Nat) (optId : UInt8), pppFindOpt frame endOpts optId fuel opt = .ok (some o) →
    opt ≤ o ∧ o + 2 ≤ endOpts ∧ ∃ length, frame[o + 1]? = some length ∧ o + length.toNat ≤ endOpts

/-- In a run of control frames all calls are safe just if the condition is met before each of them;
    what `pppFindOpt` returns is always an option inside. -/
theorem tracking_safe (patches : UInt8) (ppp : PppConfig) (cs : List Control) :
    (Along (rnaStep patches) (CallSafe patches) (rnaUp patches ppp) cs ↔
      Along (rnaStep patches) (Met patches) (rnaUp patches ppp) cs) ∧
      OptionsInside := by
  refine ⟨?_, fun _ _ _ _ _ _ h => pppFindOpt_inside h⟩
  have hsame : CallSafe patches = Met patches := by
    funext ppp c
    exact propext (callSafe_iff patches ppp c)
  rw [hsame]

/-- A configure request with an option of length zero. -/
def zeroLength : List UInt8 := [0xff, 0x03, 0xc0, 0x21, 0x01, 0x01, 0x00, 0x06, 0x01, 0x00]

/-- A configure request of the peer, and a nak of the port for the ACCM and 48 options without data. -/
def largeNak : List Control :=
  [⟨[0xff, 0x03, 0xc0, 0x21, 0x01, 0x01, 0x00, 0x08, 0x01, 0x04, 0x05, 0xdc], .peer⟩,
    ⟨[0xff, 0x03, 0xc0, 0x21, 0x03, 0x01, 0x00, 0x6a, 0x02, 0x06, 0x00, 0x00, 0x00, 0x00]
      ++ (List.replicate 48 [0x07, 0x02]).flatten, .port⟩]

/-- An IPCP frame with address and control bytes, and no length. -/
def noLength : List UInt8 := [0xff, 0x03, 0x80, 0x21, 0x01, 0x01]

/-- Nothing is negotiated. -/
def blank : PppConfig := ⟨⟨0, 0, 0, fun _ => 0, 0, 0, 0⟩, ⟨0, 0, 0, fun _ => 0, 0, 0, 0⟩, fun _ => 0⟩

/-- The search goes on for ever, `ModCfg` is left, and the frame is. -/
theorem tracking_faults :
    ¬ Along (rnaStep 0) (CallSafe 0) (rnaUp 0 blank) [⟨zeroLength, .peer⟩] ∧
      ¬ Along (rnaStep 0) (CallSafe 0) (rnaUp 0 blank) largeNak ∧
      ¬ Along (rnaStep 0) (CallSafe 0) (rnaUp 0 blank) [⟨noLength, .peer⟩] := by
  refine ⟨?_, ?_, ?_⟩
  · rintro ⟨h, -⟩
    have hmet := ((callSafe_iff 0 _ _).mp h (by decide)).1 (by decide) (by decide) (by decide) (by decide)
    exact hmet.1 (.zero (by decide) (by decide) (by decide))
  · rintro ⟨-, h, -⟩
    have hmet := ((callSafe_iff 0 _ _).mp h (by decide)).1 (by decide) (by decide) (by decide) (by decide)
    refine hmet.2 ⟨by decide, ?_, by decide, 8, .here (by decide) (show _ = some 6 by decide) (by decide) (by decide), by decide⟩
    decide +kernel
  · rintro ⟨h, -⟩
    have hmet := ((callSafe_iff 0 _ _).mp h (by decide)).2 (by decide) (by decide) (by decide)
    exact absurd hmet.1 (by decide)

end Divas.Tty.Ppp
