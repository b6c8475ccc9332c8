/-
  Divas.Capi.AdjustBRollback — a B channel that cannot be switched gets back what it had.

  `Configured` is a condition on the PLCI before the adjustment: it has the B1 resource and the
  facilities that belong to its B protocol under its `tel` and `B1_options`, and where layers 2
  and 3 are assigned again the B2 and B3 protocols.

  Proved, for all return codes and whatever else the calls find: an adjustment that ends with GOOD
  leaves the PLCI as requested, one that fails to switch puts the messages back and leaves a
  configured PLCI as it was, and as long as it is not decided the old and the new B protocol are
  both there (`adjust_b_rollback`). The condition is needed: when SELECT_B_REQ has switched the
  codec off before, the old resource is not established again (`adjust_b_codec_off`).
-/

import Divas.Capi.Established

namespace Divas.Capi

open Divas.Lib.Bytes Divas.Lib.Run

/-! ## Saved messages -/

variable {a b : ApiSave}

theorem Single.swapped (h : Single b) : Single (swapped a b) := by
  have h0 : (Divas.Capi.swapped a b).parms 0 = ((b.parms 0).1.map (· + (a.addr - b.addr)), (b.parms 0).2) := rfl
  have h1 : (Divas.Capi.swapped a b).parms 1 = ((b.parms 1).1.map (· + (a.addr - b.addr)), (b.parms 1).2) := rfl
  refine ⟨?_, ?_, ?_⟩
  · rw [h0, h.first]
    show some (b.addr + (a.addr - b.addr)) = some a.addr
    rw [show b.addr + (a.addr - b.addr) = a.addr by omega]
  · rw [h1, h.last]
    rfl
  · rw [h0]
    exact h.fits

theorem Single.load (h : Single a) : apiLoadMsg a = ⟨a.info, (a.parms 0).2⟩ := by
  unfold apiLoadMsg
  rw [h.first]
  show (⟨from_ a.info (a.addr - a.addr).toNat, _⟩ : Parm) = _
  rw [Int.sub_self]
  congr 1
  funext i
  show a.info (0 + i) = a.info i
  rw [Nat.zero_add]

/-- A message that was saved with "s" is saved onto itself. -/
theorem Single.save (h : Single a) : apiSaveMsg (apiLoadMsg a) a = a := by
  rw [h.load]
  obtain ⟨addr, parms, info⟩ := a
  unfold apiSaveMsg
  congr 1
  · funext i
    show Function.update (Function.update parms 0 (some addr, (parms 0).2)) 1 (none, 0) i = parms i
    by_cases h1 : i = 1
    · rw [h1, Function.update_self]
      exact h.last.symm
    · rw [Function.update_of_ne h1]
      by_cases h0 : i = 0
      · have hfirst : (parms 0).1 = some addr := h.first
        rw [h0, Function.update_self, ← hfirst]
      · rw [Function.update_of_ne h0]
  · funext i
    show (if i < (parms 0).2 + 1 then info i else info i) = info i
    rw [ite_self]

/-- The bytes of the message. -/
def contents (s : ApiSave) : List UInt8 := load (apiLoadMsg s).info 0 ((apiLoadMsg s).length + 1)

theorem contents_swapped (h : Single b) : contents (Divas.Capi.swapped a b) = contents b := by
  have hlen : ((Divas.Capi.swapped a b).parms 0).2 = (b.parms 0).2 := rfl
  unfold contents
  rw [h.load, h.swapped.load]
  dsimp only
  rw [hlen]
  refine List.map_congr_left ?_
  intro i hi
  have hfits := h.fits
  have := List.mem_range.mp hi
  show (if 0 + i < maxMsgSize then b.info (0 + i) else a.info (0 + i)) = b.info (0 + i)
  rw [if_pos (by omega)]

theorem contents_save (a m : ApiSave) : contents (apiSaveMsg (apiLoadMsg a) m) = contents a := by
  have hsaved : apiLoadMsg (apiSaveMsg (apiLoadMsg a) m) = ⟨(apiSaveMsg (apiLoadMsg a) m).info, (apiLoadMsg a).length⟩ := by
    show (⟨from_ _ (m.addr - m.addr).toNat, _⟩ : Parm) = _
    rw [Int.sub_self]
    congr 1
    funext i
    show (apiSaveMsg (apiLoadMsg a) m).info (0 + i) = (apiSaveMsg (apiLoadMsg a) m).info i
    rw [Nat.zero_add]
  unfold contents
  rw [hsaved]
  refine List.map_congr_left ?_
  intro i hi
  have hlt : i < (apiLoadMsg a).length + 1 := List.mem_range.mp hi
  show (if 0 + i < (apiLoadMsg a).length + 1 then (apiLoadMsg a).info (0 + i) else m.info (0 + i)) = (apiLoadMsg a).info (0 + i)
  rw [if_pos (by omega)]

/-! ## The condition -/

namespace AdjPlci

/-- A command starts an adjustment. The messages are saved with "s". -/
structure Begins (s : AdjPlci) : Prop where
  start : s.adjustBState = .start
  command : s.adjustBCommand ≠ 0
  bProtocol : Single s.bProtocol
  parmsMsg : ∀ m, s.adjustBParmsMsg = some m → Single m

theorem adjustB1Resource_begins {s : AdjPlci} (hbp : Single s.bProtocol) {bpMsg : Option ApiSave}
    (hmsg : ∀ m, bpMsg = some m → Single m)
    (b1Facilities : Nat) {internalCommand : Nat} (hcommand : internalCommand ≠ 0) :
    Begins (s.adjustB1Resource bpMsg b1Facilities internalCommand) :=
  ⟨rfl, hcommand, hbp, hmsg⟩

theorem selectB_begins {s : AdjPlci} (hbp : Single s.bProtocol) {savedMsg : ApiSave} (hmsg : Single savedMsg) (advSignal : Bool) :
    Begins (s.selectB savedMsg advSignal) := by
  refine ⟨rfl, (by decide : selectBCommand1 ≠ 0), hbp, ?_⟩
  intro m hm
  cases hm
  exact hmsg

/-- The PLCI has what its B protocol asks for under its `tel` and `B1_options`; the B2 and B3 protocols
    where layers 2 and 3 are to be assigned. -/
structure Configured (e : AdjustEnv) (s : AdjPlci) : Prop where
  established : Established e.f s.toBChannel (apiLoadMsg s.bProtocol) s.b1Facilities
  protocols : s.mode modeAssignL23 = true → s.b1Resource ≠ 0 →
    ∀ asked, askedProtocols e.f s.toBChannel (apiLoadMsg s.bProtocol) = some asked → s.toBChannel.protocols = asked

/-! ## What the calls leave -/

/-- The PLCI without where the adjustment is. -/
def core (s : AdjPlci) : AdjPlci := { s with adjustBState := .start, internalCommand := 0 }

/-- The PLCI has what it had, and the message too. -/
structure RolledBack (s₀ s : AdjPlci) : Prop where
  bProtocol : s.bProtocol = s₀.bProtocol
  parmsMsg : s.adjustBParmsMsg = s₀.adjustBParmsMsg
  b1Facilities : s.b1Facilities = s₀.b1Facilities
  channel : Alike s.toBChannel s₀.toBChannel

/-- The same B channel, and the same messages. -/
structure SameConfig (s t : AdjPlci) : Prop where
  bProtocol : s.bProtocol = t.bProtocol
  parmsMsg : s.adjustBParmsMsg = t.adjustBParmsMsg
  b1Facilities : s.b1Facilities = t.b1Facilities
  channel : s.toBChannel = t.toBChannel

/-- After `ADJUST_B_START`. -/
def begun (s₀ : AdjPlci) : AdjPlci :=
  { s₀ with
    adjustBInfo := .good, adjustBPrevB1Resource := s₀.b1Resource, adjustBPrevB1Facilities := s₀.b1Facilities,
      switchFailed := false }

/-- The new B protocol, and what `add_b1` makes of it. -/
def attempt (e : AdjustEnv) (s₀ : AdjPlci) : AdjPlci × Info :=
  if s₀.mode modeSwitchL1 then
    s₀.begun.swapParms.configureB1 e (if s₀.mode modeNoResource then 2 else 0) s₀.adjustBFacilities
  else (s₀.begun, .success)

def tried (e : AdjustEnv) (s₀ : AdjPlci) : AdjPlci := { (attempt e s₀).1 with adjustBInfo := .info (attempt e s₀).2 }

/-- Layers 2 and 3 are assigned as `assignL231` does it. -/
def assigned (e : AdjustEnv) (s : AdjPlci) : AdjPlci × Info :=
  let r := ({ s with callDir := if s.mode modeConnect then s.callDir ||| callDirForceOutgNl else s.callDir } :
    AdjPlci).configureB23 e
  ({ r.1 with callDir := s.callDir }, r.2)

/-- What is requested: only facilities of the same resource, or the B protocol of the message
    on layer 1, and on layers 2 and 3 where they are assigned. -/
def requested (e : AdjustEnv) (s₀ : AdjPlci) : AdjPlci :=
  if s₀.onlyFacilities && s₀.facilitiesResource e == s₀.b1Resource then
    s₀.adjustB1Facilities e (s₀.facilitiesResource e) s₀.adjustBFacilities
  else if s₀.mode modeAssignL23 && (tried e s₀).b1Resource != 0 then (assigned e (tried e s₀).keepParms).1
  else (tried e s₀).keepParms

/-- Both B protocols are there: not exchanged, exchanged, or the new one twice. -/
def BothKept (s₀ s : AdjPlci) : Prop :=
  (s.bProtocol = s₀.bProtocol ∧ s.adjustBParmsMsg = s₀.adjustBParmsMsg) ∨
    ∃ m m', s₀.adjustBParmsMsg = some m ∧ s.adjustBParmsMsg = some m' ∧ s.bProtocol = swapped s₀.bProtocol m ∧
      (m' = swapped m s₀.bProtocol ∨ contents m' = contents m)

/-! ## Equations -/

section Equations

variable {e : AdjustEnv} {s t : AdjPlci}

theorem of_core (h : core s = core t) : s = { t with adjustBState := s.adjustBState, internalCommand := s.internalCommand } :=
  congrArg (fun x : AdjPlci => { x with adjustBState := s.adjustBState, internalCommand := s.internalCommand }) h

theorem configureB1_eq (e : AdjustEnv) (s : AdjPlci) (bChannelInfo b1Facilities : Nat) :
    s.configureB1 e bChannelInfo b1Facilities =
      ({ s with
          toBChannel := (addB1 e.f s.toBChannel (apiLoadMsg s.bProtocol) bChannelInfo b1Facilities).1
          b1Facilities := ((addB1Asked e.f s.toBChannel (apiLoadMsg s.bProtocol) bChannelInfo b1Facilities).map fun asked =>
            asked &&& getB1Facilities e.f
              (addB1 e.f s.toBChannel (apiLoadMsg s.bProtocol) bChannelInfo b1Facilities).1.b1Resource).getD s.b1Facilities
          bProtocol := apiSaveMsg (apiLoadMsg s.bProtocol) s.bProtocol },
        (addB1 e.f s.toBChannel (apiLoadMsg s.bProtocol) bChannelInfo b1Facilities).2) := by
  unfold configureB1
  dsimp only
  cases addB1Asked e.f s.toBChannel (apiLoadMsg s.bProtocol) bChannelInfo b1Facilities with
  | none => rfl
  | some asked => rfl

theorem configureB1_core (h : core s = core t) (x y : Nat) :
    core (s.configureB1 e x y).1 = core (t.configureB1 e x y).1 ∧ (s.configureB1 e x y).2 = (t.configureB1 e x y).2 := by
  rw [of_core h, configureB1_eq, configureB1_eq]
  exact ⟨rfl, rfl⟩

theorem configureB1_alike (hc : Alike s.toBChannel t.toBChannel) (hf : s.b1Facilities = t.b1Facilities)
    (hb : s.bProtocol = t.bProtocol) (x y : Nat) :
    Alike (s.configureB1 e x y).1.toBChannel (t.configureB1 e x y).1.toBChannel ∧
      (s.configureB1 e x y).1.b1Facilities = (t.configureB1 e x y).1.b1Facilities ∧
      (s.configureB1 e x y).2 = (t.configureB1 e x y).2 := by
  have h := addB1_alike (f := e.f) hc (apiLoadMsg t.bProtocol) x y
  rw [configureB1_eq, configureB1_eq]
  dsimp only
  rw [hb, hf, addB1Asked_alike hc, h.1.b1Resource]
  exact ⟨h.1, rfl, h.2⟩

theorem configureB23_alike (hc : Alike s.toBChannel t.toBChannel) (ha : s.appl = t.appl) (hb : s.bProtocol = t.bProtocol) :
    Alike (s.configureB23 e).1.toBChannel (t.configureB23 e).1.toBChannel := by
  unfold configureB23
  dsimp only
  rw [hb, ha]
  exact addB23_alike hc (apiLoadMsg t.bProtocol)

theorem configureB23_set (e : AdjustEnv) (s : AdjPlci) : ProtocolsSet s.toBChannel (s.configureB23 e).1.toBChannel :=
  addB23_set s.toBChannel (apiLoadMsg s.bProtocol)

/-- A configured PLCI is configured again as it is. -/
theorem Configured.configureB1 (h : Configured e s) :
    (s.configureB1 e (if s.b1Resource = 0 then 2 else 0) s.b1Facilities).1.b1Resource = s.b1Resource ∧
      (s.configureB1 e (if s.b1Resource = 0 then 2 else 0) s.b1Facilities).1.b1Facilities = s.b1Facilities := by
  obtain ⟨hres, hfac⟩ := h.established.addB1
  rw [configureB1_eq]
  dsimp only
  refine ⟨hres, ?_⟩
  rw [hres]
  exact hfac

theorem Configured.configureB23 (h : Configured e s) (hm : s.mode modeAssignL23 = true) (hres : s.b1Resource ≠ 0) :
    (s.configureB23 e).1.b2Prot = s.b2Prot ∧ (s.configureB23 e).1.b3Prot = s.b3Prot := by
  have hset : (s.configureB23 e).1.toBChannel.protocols = s.toBChannel.protocols := by
    have h23 : (addB23 e.f e.dma s.toBChannel (s.appl.getD 0) (apiLoadMsg s.bProtocol)).1.protocols
        = (askedProtocols e.f s.toBChannel (apiLoadMsg s.bProtocol)).getD s.toBChannel.protocols :=
      addB23_protocols s.toBChannel (s.appl.getD 0) (apiLoadMsg s.bProtocol)
    refine Eq.trans h23 ?_
    cases hasked : askedProtocols e.f s.toBChannel (apiLoadMsg s.bProtocol) with
    | none => rfl
    | some asked => exact (h.protocols hm hres asked hasked).symm
  exact ⟨congrArg Prod.fst hset, congrArg Prod.snd hset⟩

theorem swapParms_none (h : s.adjustBParmsMsg = none) : s.swapParms = s := by
  unfold swapParms
  rw [h]

theorem swapParms_some {m : ApiSave} (h : s.adjustBParmsMsg = some m) :
    s.swapParms = { s with bProtocol := swapped s.bProtocol m, adjustBParmsMsg := some (swapped m s.bProtocol) } := by
  unfold swapParms
  rw [h]
  rfl

theorem swapParms_eq (s : AdjPlci) : ∃ b m, s.swapParms = { s with bProtocol := b, adjustBParmsMsg := m } := by
  cases hm : s.adjustBParmsMsg with
  | none => exact ⟨s.bProtocol, s.adjustBParmsMsg, swapParms_none hm⟩
  | some m => exact ⟨_, _, swapParms_some hm⟩

theorem keepParms_eq (s : AdjPlci) : ∃ m, s.keepParms = { s with adjustBParmsMsg := m } := by
  unfold keepParms
  split
  · split
    · exact ⟨_, rfl⟩
    · exact ⟨s.adjustBParmsMsg, rfl⟩
  · exact ⟨s.adjustBParmsMsg, rfl⟩

theorem keepParms_none (h : s.adjustBParmsMsg = none ∨ s.mode modeSwitchL1 = false) : s.keepParms = s := by
  unfold keepParms
  rcases h with h | h
  · rw [h]
  · rw [h]
    cases s.adjustBParmsMsg with
    | none => rfl
    | some m => rfl

theorem keepParms_some {m : ApiSave} (h : s.adjustBParmsMsg = some m) (hm : s.mode modeSwitchL1 = true) :
    s.keepParms = { s with adjustBParmsMsg := some (apiSaveMsg (apiLoadMsg s.bProtocol) m) } := by
  unfold keepParms
  rw [h, hm]
  rfl

theorem setInfo_core (h : core s = core t) (info : AdjustInfo) :
    core { s with adjustBInfo := info } = core { t with adjustBInfo := info } := by
  rw [of_core h]
  rfl

theorem swapParms_core (h : core s = core t) : core s.swapParms = core t.swapParms := by
  have hs : s.adjustBParmsMsg = t.adjustBParmsMsg := (congrArg adjustBParmsMsg h :)
  cases hm : t.adjustBParmsMsg with
  | none =>
    rw [swapParms_none (hs.trans hm), swapParms_none hm]
    exact h
  | some m =>
    rw [swapParms_some (hs.trans hm), swapParms_some hm, of_core h]
    rfl

theorem keepParms_core (h : core s = core t) : core s.keepParms = core t.keepParms := by
  have hs : s.adjustBParmsMsg = t.adjustBParmsMsg := (congrArg adjustBParmsMsg h :)
  have hmode : s.mode modeSwitchL1 = t.mode modeSwitchL1 :=
    (congrArg (fun x : AdjPlci => x.mode modeSwitchL1) h :)
  cases hm : t.adjustBParmsMsg with
  | none =>
    rw [keepParms_none (Or.inl (hs.trans hm)), keepParms_none (Or.inl hm)]
    exact h
  | some m =>
    cases hsw : t.mode modeSwitchL1 with
    | false =>
      rw [keepParms_none (Or.inr (hmode.trans hsw)), keepParms_none (Or.inr hsw)]
      exact h
    | true =>
      rw [keepParms_some (hs.trans hm) (hmode.trans hsw), keepParms_some hm hsw, of_core h]
      rfl

theorem assigned_eq (e : AdjustEnv) (s : AdjPlci) :
    (assigned e s).1 =
      { s with toBChannel := (assigned e s).1.toBChannel, bProtocol := apiSaveMsg (apiLoadMsg s.bProtocol) s.bProtocol } := rfl

theorem assigned_core (h : core s = core t) :
    core (assigned e s).1 = core (assigned e t).1 ∧ (assigned e s).2 = (assigned e t).2 := by
  rw [of_core h]
  exact ⟨rfl, rfl⟩

end Equations

/-! ## Phases -/

inductive Phase where
  | start
  | before
  | switching
  | undoing
  | restoring
  | assigned
  deriving DecidableEq

def phase : AdjustBState → Phase
  | .start => .start
  | .saveMeasure1 | .saveMixer1 | .saveDtmf1 | .removeL231 | .removeL232 | .saveEc1 | .saveDtmfParameter1 | .saveAudioParameter1
  | .savePitchParameter1 | .saveVoice1 | .switchL11 => .before
  | .switchL12 => .switching
  | .unswitchL11 | .unswitchL12 => .undoing
  | .restoreVoice1 | .restoreVoice2 | .restorePitchParameter1 | .restorePitchParameter2 | .restoreAudioParameter1
  | .restoreAudioParameter2 | .restoreDtmfParameter1 | .restoreDtmfParameter2 | .restoreEc1 | .restoreEc2 | .assignL231 =>
    .restoring
  | _ => .assigned

/-- The switch failed; the messages are back, and a configured PLCI has what it had. -/
structure Undoing (e : AdjustEnv) (s₀ s : AdjPlci) : Prop where
  bProtocol : s.bProtocol = s₀.bProtocol
  parmsMsg : s.adjustBParmsMsg = s₀.adjustBParmsMsg
  rolledBack : Configured e s₀ → RolledBack s₀ s
  failed : s.switchFailed = true
  info : s.adjustBInfo ≠ .good
  mode : s.adjustBMode = s₀.adjustBMode
  command : s.adjustBCommand = s₀.adjustBCommand
  appl : s.appl = s₀.appl

section Posts

variable (e : AdjustEnv) (s₀ : AdjPlci)

def Before (s : AdjPlci) : Prop := core s = core s₀.begun

def Tried (s : AdjPlci) : Prop := core s = core (tried e s₀)

def Undone (s : AdjPlci) : Prop := Undoing e s₀ (core s)

/-- Layer 1 has been switched, or has failed to. -/
def Switched (s : AdjPlci) : Prop :=
  Undone e s₀ s ∨ ((tried e s₀).adjustBInfo = .good ∧ core s = core (tried e s₀).keepParms)

/-- Layers 2 and 3 are assigned where they are to be. -/
def Assigned (s : AdjPlci) : Prop :=
  Undone e s₀ s ∨ ((tried e s₀).adjustBInfo = .good ∧ core s = core (requested e s₀))

/-- What holds while a call is waited for. -/
def Pending (s : AdjPlci) : Prop :=
  match phase s.adjustBState with
  | .start => core s = core s₀
  | .before => Before s₀ s
  | .switching => Tried e s₀ s ∧ s₀.mode modeSwitchL1 = true
  | .undoing => Undone e s₀ s
  | .restoring => Switched e s₀ s
  | .assigned => Assigned e s₀ s

/-- What holds when the adjustment is over. -/
structure Final (s : AdjPlci) (info : AdjustInfo) : Prop where
  kept : BothKept s₀ s
  failed : s.switchFailed = true →
    info ≠ .good ∧ s.bProtocol = s₀.bProtocol ∧ s.adjustBParmsMsg = s₀.adjustBParmsMsg ∧ (Configured e s₀ → RolledBack s₀ s)
  good : info = .good → SameConfig s (requested e s₀)
  message : info = .good → ∀ m, s₀.adjustBParmsMsg = some m → s₀.mode modeSwitchL1 = true → contents s.bProtocol = contents m

/-- What a call leaves. -/
def Post (r : AdjPlci × AdjustInfo) : Prop :=
  if r.2 ≠ .good ∨ r.1.internalCommand = 0 then Final e s₀ r.1 r.2 else Pending e s₀ r.1

variable {e s₀} {s : AdjPlci} {info : AdjustInfo}

theorem Post.ends (h : info ≠ .good ∨ s.internalCommand = 0) (hf : Final e s₀ s info) : Post e s₀ (s, info) := by
  unfold Post
  rw [if_pos h]
  exact hf

theorem Post.waiting {st : AdjustBState} (hc : s.adjustBCommand ≠ 0) (hi : Pending e s₀ (s.wait st).1) :
    Post e s₀ (s.wait st) := by
  unfold Post
  rw [if_neg]
  · exact hi
  · rw [not_or]
    exact ⟨fun h => h rfl, hc⟩

/-! ## What is kept -/

variable (hb : Begins s₀)

theorem BothKept.same (h : s.bProtocol = s₀.bProtocol) (h' : s.adjustBParmsMsg = s₀.adjustBParmsMsg) :
    BothKept s₀ s := Or.inl ⟨h, h'⟩

theorem Undone.kept (h : Undone e s₀ s) : BothKept s₀ s := .same h.bProtocol h.parmsMsg

theorem Before.kept (h : Before s₀ s) : BothKept s₀ s :=
  .same (congrArg AdjPlci.bProtocol h :) (congrArg AdjPlci.adjustBParmsMsg h :)

/-- The attempt to switch exchanges the messages. -/
theorem attempt_messages (hb : Begins s₀) :
    ((tried e s₀).bProtocol = s₀.bProtocol ∧ (tried e s₀).adjustBParmsMsg = s₀.adjustBParmsMsg ∧
        (s₀.adjustBParmsMsg = none ∨ s₀.mode modeSwitchL1 = false)) ∨
      ∃ m, s₀.adjustBParmsMsg = some m ∧ s₀.mode modeSwitchL1 = true ∧ (tried e s₀).bProtocol = swapped s₀.bProtocol m ∧
        (tried e s₀).adjustBParmsMsg = some (swapped m s₀.bProtocol) := by
  unfold tried attempt
  cases hsw : s₀.mode modeSwitchL1 with
  | false =>
    rw [if_neg Bool.false_ne_true]
    exact Or.inl ⟨rfl, rfl, Or.inr rfl⟩
  | true =>
    rw [if_pos rfl, configureB1_eq]
    cases hm : s₀.adjustBParmsMsg with
    | none =>
      rw [swapParms_none (s := s₀.begun) hm]
      exact Or.inl ⟨hb.bProtocol.save, hm, Or.inl rfl⟩
    | some m =>
      rw [swapParms_some (s := s₀.begun) hm]
      exact Or.inr ⟨m, rfl, rfl, (hb.parmsMsg m hm).swapped.save, rfl⟩

/-- The attempt changes the channel and the messages only. -/
theorem tried_eq (e : AdjustEnv) (s₀ : AdjPlci) :
    ∃ c f b m i, tried e s₀ = { s₀.begun with
      toBChannel := c, b1Facilities := f, bProtocol := b, adjustBParmsMsg := m, adjustBInfo := i } := by
  unfold tried attempt
  split
  · obtain ⟨b, m, h⟩ := swapParms_eq s₀.begun
    rw [h, configureB1_eq]
    exact ⟨_, _, _, _, _, rfl⟩
  · exact ⟨s₀.toBChannel, s₀.b1Facilities, s₀.bProtocol, s₀.adjustBParmsMsg, _, rfl⟩

theorem Tried.kept (hb : Begins s₀) (h : Tried e s₀ s) : BothKept s₀ s := by
  have h1 : s.bProtocol = (tried e s₀).bProtocol := (congrArg AdjPlci.bProtocol h :)
  have h2 : s.adjustBParmsMsg = (tried e s₀).adjustBParmsMsg := (congrArg AdjPlci.adjustBParmsMsg h :)
  rcases attempt_messages (e := e) hb with ⟨hp, hm, -⟩ | ⟨m, hm, -, hp, hm'⟩
  · exact .same (h1.trans hp) (h2.trans hm)
  · exact Or.inr ⟨m, _, hm, h2.trans hm', h1.trans hp, Or.inl rfl⟩

/-- After a successful switch both messages have the new B protocol. -/
theorem settled_messages (hb : Begins s₀) :
    (tried e s₀).keepParms.bProtocol = (tried e s₀).bProtocol ∧ BothKept s₀ (tried e s₀).keepParms ∧
      Single (tried e s₀).keepParms.bProtocol := by
  obtain ⟨c, f, b, m₁, i, htried⟩ := tried_eq e s₀
  have hmode : (tried e s₀).mode modeSwitchL1 = s₀.mode modeSwitchL1 := by
    rw [htried]
    rfl
  rcases attempt_messages (e := e) hb with ⟨hp, hm, hnone⟩ | ⟨m, hm, hsw, hp, hm'⟩
  · have hkeep : (tried e s₀).keepParms = tried e s₀ := by
      refine keepParms_none ?_
      rw [hm, hmode]
      exact hnone
    rw [hkeep]
    refine ⟨rfl, .same hp hm, ?_⟩
    rw [hp]
    exact hb.bProtocol
  · have hsingle := hb.parmsMsg m hm
    rw [keepParms_some hm' (hmode.trans hsw)]
    refine ⟨rfl, Or.inr ⟨m, _, hm, rfl, hp, Or.inr ?_⟩, ?_⟩
    · rw [contents_save, hp]
      exact contents_swapped hsingle
    · show Single (tried e s₀).bProtocol
      rw [hp]
      exact hsingle.swapped

/-- Not only facilities of the same resource are requested. -/
def Exchanges (e : AdjustEnv) (s₀ : AdjPlci) : Prop := (s₀.onlyFacilities && s₀.facilitiesResource e == s₀.b1Resource) = false

/-- Assigning layers 2 and 3 changes the channel only. -/
theorem requested_eq (hb : Begins s₀) (hx : Exchanges e s₀) :
    ∃ c, requested e s₀ = { (tried e s₀).keepParms with toBChannel := c } := by
  obtain ⟨-, -, hsingle⟩ := settled_messages (e := e) hb
  unfold requested
  rw [hx, if_neg Bool.false_ne_true]
  generalize (tried e s₀).keepParms = t at hsingle ⊢
  split
  · rw [assigned_eq, hsingle.save]
    exact ⟨_, rfl⟩
  · exact ⟨t.toBChannel, rfl⟩

/-- The old and the new B protocol after a successful switch. -/
structure Settled (e : AdjustEnv) (s₀ t : AdjPlci) : Prop where
  kept : BothKept s₀ t
  message : ∀ m, s₀.adjustBParmsMsg = some m → s₀.mode modeSwitchL1 = true → contents t.bProtocol = contents m
  failed : t.switchFailed = false
  info : t.adjustBInfo = (tried e s₀).adjustBInfo
  command : t.adjustBCommand = s₀.adjustBCommand
  mode : t.adjustBMode = s₀.adjustBMode
  single : Single t.bProtocol

theorem keepParms_settled (hb : Begins s₀) : Settled e s₀ (tried e s₀).keepParms := by
  obtain ⟨hprot, hkept, hsingle⟩ := settled_messages (e := e) hb
  obtain ⟨m₂, hkeep⟩ := keepParms_eq (tried e s₀)
  obtain ⟨c, f, b, m₁, i, htried⟩ := tried_eq e s₀
  refine ⟨hkept, ?_, ?_, ?_, ?_, ?_, hsingle⟩
  · intro m hm hsw
    rw [hprot]
    rcases attempt_messages (e := e) hb with ⟨-, -, hnone⟩ | ⟨m', hm', -, hp, -⟩
    · rcases hnone with hnone | hnone
      · rw [hnone] at hm
        cases hm
      · rw [hnone] at hsw
        cases hsw
    · rw [hm] at hm'
      cases hm'
      rw [hp]
      exact contents_swapped (hb.parmsMsg m hm)
  · rw [hkeep, htried]
    rfl
  · rw [hkeep]
  · rw [hkeep, htried]
    rfl
  · rw [hkeep, htried]
    rfl

theorem requested_settled (hb : Begins s₀) (hx : Exchanges e s₀) : Settled e s₀ (requested e s₀) := by
  obtain ⟨c, hreq⟩ := requested_eq (e := e) hb hx
  have h := keepParms_settled (e := e) hb
  rw [hreq]
  exact ⟨h.kept, h.message, h.failed, h.info, h.command, h.mode, h.single⟩

theorem Settled.of_core {t : AdjPlci} (ht : Settled e s₀ t) (h : core s = core t) : Settled e s₀ s := by
  rw [AdjPlci.of_core h]
  exact ⟨ht.kept, ht.message, ht.failed, ht.info, ht.command, ht.mode, ht.single⟩

theorem SameConfig.of_core {t : AdjPlci} (h : core s = core t) : SameConfig s t := by
  rw [AdjPlci.of_core h]
  exact ⟨rfl, rfl, rfl, rfl⟩

theorem Undone.final (h : Undone e s₀ s) (hi : info ≠ .good) : Final e s₀ s info := by
  refine ⟨h.kept, fun _ => ⟨hi, h.bProtocol, h.parmsMsg, fun hc => ?_⟩, fun hg => absurd hg hi, fun hg => absurd hg hi⟩
  obtain ⟨hp, hm, hf, hch⟩ := h.rolledBack hc
  exact ⟨hp, hm, hf, hch⟩

/-! ## After the switch -/

theorem Assigned.command (hb : Begins s₀) (hx : Exchanges e s₀) (h : Assigned e s₀ s) : s.adjustBCommand ≠ 0 := by
  rcases h with h | ⟨-, h⟩
  · exact h.command.trans_ne hb.command
  · exact ((requested_settled hb hx).of_core h).command.trans_ne hb.command

theorem Assigned.final (hb : Begins s₀) (hx : Exchanges e s₀) (h : Assigned e s₀ s) (hi : info ≠ .good ∨ info = s.adjustBInfo) :
    Final e s₀ s info := by
  rcases h with h | ⟨-, h⟩
  · refine h.final ?_
    rcases hi with hi | hi
    · exact hi
    · rw [hi]
      exact h.info
  · have hs := (requested_settled hb hx).of_core h
    refine ⟨hs.kept, ?_, fun _ => .of_core h, fun _ => hs.message⟩
    intro hf
    rw [hs.failed] at hf
    cases hf

theorem Assigned.waiting {st : AdjustBState} (hb : Begins s₀) (hx : Exchanges e s₀) (h : Assigned e s₀ s)
    (hp : phase st = .assigned) :
    Post e s₀ (s.wait st) := by
  refine .waiting (h.command hb hx) ?_
  unfold Pending
  rw [show phase (s.wait st).1.adjustBState = .assigned from hp]
  exact h

theorem Assigned.fails (hb : Begins s₀) (hx : Exchanges e s₀) (h : Assigned e s₀ s) (hi : info ≠ .good) : Post e s₀ (s, info) :=
  .ends (Or.inl hi) (h.final hb hx (Or.inl hi))

theorem wrongState_ne : AdjustInfo.wrongState ≠ .good := by decide

/-- What a restore function does: it waits in its phase, fails, or goes on. -/
def Restores (p : Phase) (s : AdjPlci) (r : AdjPlci × AdjustInfo) : Prop :=
  (∃ st, phase st = p ∧ r = s.wait st) ∨ (∃ st, r = (s.goTo st, .wrongState)) ∨ ∃ st, r = (s.goTo st, .good)

theorem Restores.skip (p : Phase) (s : AdjPlci) : Restores p s (s, .good) := Or.inr (Or.inr ⟨s.adjustBState, rfl⟩)

theorem Restores.fail (p : Phase) (s : AdjPlci) : Restores p s (s, .wrongState) := Or.inr (Or.inl ⟨s.adjustBState, rfl⟩)

theorem Restores.wait {p : Phase} {st : AdjustBState} (s : AdjPlci) (h : phase st = p) : Restores p s (s.wait st) :=
  Or.inl ⟨st, h, rfl⟩

/-- A restore function, and what is behind it. -/
theorem restored_post {p : Phase} {config next : AdjPlci → AdjPlci × AdjustInfo} (hc : Restores p s (config s))
    (hwait : ∀ st, phase st = p → Post e s₀ (s.wait st)) (hfail : ∀ st, Post e s₀ (s.goTo st, .wrongState))
    (h0 : s.internalCommand = 0) (hcmd : s.adjustBCommand ≠ 0) (hnext : ∀ st, Post e s₀ (next (s.goTo st))) :
    Post e s₀ (s.restored config next) := by
  unfold restored
  split
  · dsimp only
    rcases hc with ⟨st, hp, hr⟩ | ⟨st, hr⟩ | ⟨st, hr⟩
    · rw [hr, if_pos (show _ ∨ (s.wait st).1.internalCommand ≠ 0 from Or.inr hcmd)]
      exact hwait st hp
    · rw [hr, if_pos (show AdjustInfo.wrongState ≠ .good ∨ _ from Or.inl wrongState_ne)]
      exact hfail st
    · rw [hr, if_neg]
      · exact hnext st
      · rintro (h | h)
        · exact h rfl
        · exact h h0
  · exact hnext s.adjustBState

theorem restoreConfig_restores {p : Phase} (first second : AdjustBState) (h1 : phase first = p)
    (h2 : phase second = p) (s : AdjPlci)
    (active busy : Bool) (rc : Nat) : Restores p s (s.restoreConfig active busy first second rc) := by
  unfold restoreConfig
  split
  · exact .skip p s
  split
  · refine .wait s ?_
    split
    · exact h1
    · exact h2
  split
  · exact .fail p s
  · exact .skip p s

theorem measureRestoreConfig_restores (s : AdjPlci) (i : AdjustIn) (rc : Nat) :
    Restores .assigned s (s.measureRestoreConfig i rc) := by
  unfold measureRestoreConfig
  split
  · exact .skip _ s
  split
  · split
    · exact .wait s rfl
    split
    · exact .wait s rfl
    · exact .skip _ s
  split
  · exact .fail _ s
  · exact .skip _ s

theorem mixerWrite_restores (s : AdjPlci) (i : AdjustIn) : Restores .assigned s (s.mixerWrite i) := by
  unfold mixerWrite
  dsimp only
  cases i.writeCoefs with
  | failed => exact Or.inr (Or.inl ⟨_, rfl⟩)
  | waiting => exact Or.inl ⟨.restoreMixer6, rfl, rfl⟩
  | done => exact Or.inr (Or.inr ⟨.restoreMixer7, rfl⟩)

theorem mixerQueried_phase {st : AdjustBState} (h : phase st = .assigned) (rc : Nat) :
    phase (mixerQueried st rc) = .assigned := by
  unfold mixerQueried
  split
  · cases st <;> exact h
  split
  · cases st <;> exact h
  · exact h

theorem mixerRestoreConfig_restores (s : AdjPlci) (i : AdjustIn) (rc : Nat) :
    Restores .assigned s (s.mixerRestoreConfig e i rc) := by
  have queried : ∀ st, s.adjustBState = st → phase st = .assigned →
      Restores .assigned s (if rcFails rc && rc != 0 then s.fail .wrongState
        else
          let st := mixerQueried s.adjustBState rc
          if st ≠ .restoreMixer5 then s.wait st else s.mixerWrite i) := by
    intro st hst hp
    split
    · exact .fail _ s
    dsimp only
    split
    · refine .wait s (mixerQueried_phase ?_ rc)
      rw [hst]
      exact hp
    · exact mixerWrite_restores s i
  unfold mixerRestoreConfig
  split
  · exact .skip _ s
  split
  case h_1 =>
    split
    · refine .wait s ?_
      split
      · rfl
      · rfl
    · exact mixerWrite_restores s i
  case h_2 h => exact queried _ h rfl
  case h_3 h => exact queried _ h rfl
  case h_4 h => exact queried _ h rfl
  case h_5 => exact mixerWrite_restores s i
  case h_6 => exact mixerWrite_restores s i
  case h_7 => exact .skip _ s

/-! ## The labels, the last one first -/

section Labels

variable (hb : Begins s₀) (hx : Exchanges e s₀) (i : AdjustIn)
include hb hx

theorem atEnd_post (h : Assigned e s₀ s) (h0 : s.internalCommand = 0) : Post e s₀ s.atEnd :=
  .ends (Or.inr h0) (Assigned.final hb hx h (Or.inr rfl))

theorem restoreMeasure_post (rc : Nat) (h : Assigned e s₀ s) (h0 : s.internalCommand = 0) : Post e s₀ (restoreMeasure i rc s) :=
  restored_post (measureRestoreConfig_restores s i rc) (fun _ => h.waiting hb hx) (fun _ => h.fails hb hx wrongState_ne) h0
    (h.command hb hx) fun _ => atEnd_post hb hx h h0

theorem restoreMixer_post (rc : Nat) (h : Assigned e s₀ s) (h0 : s.internalCommand = 0) : Post e s₀ (restoreMixer e i rc s) :=
  restored_post (mixerRestoreConfig_restores s i rc) (fun _ => h.waiting hb hx) (fun _ => h.fails hb hx wrongState_ne) h0
    (h.command hb hx) fun _ => restoreMeasure_post hb hx i rcOk h h0

theorem restoreDtmf_post (rc : Nat) (h : Assigned e s₀ s) (h0 : s.internalCommand = 0) : Post e s₀ (restoreDtmf e i rc s) :=
  restored_post (restoreConfig_restores .restoreDtmf1 .restoreDtmf2 rfl rfl s _ _ rc) (fun _ => h.waiting hb hx)
    (fun _ => h.fails hb hx wrongState_ne) h0
    (h.command hb hx) fun _ => restoreMixer_post hb hx i rcOk h h0

theorem connect5_post (h : Assigned e s₀ s) (h0 : s.internalCommand = 0) : Post e s₀ (connect5 e i s) :=
  restoreDtmf_post hb hx i rcOk h h0

theorem connect2_post (rc : Nat) (hp : phase s.adjustBState = .assigned) (h : Assigned e s₀ s) (h0 : s.internalCommand = 0) :
    Post e s₀ (connect2 e i rc s) := by
  have hc : phase (connected s.adjustBState rc) = .assigned := by
    generalize s.adjustBState = st at hp ⊢
    unfold connected
    split
    · cases st <;> exact hp
    split
    · cases st <;> exact hp
    · exact hp
  unfold connect2
  split
  · exact h.fails hb hx wrongState_ne
  dsimp only
  split
  · exact h.waiting hb hx hc
  · exact connect5_post hb hx i h h0

theorem connect1_post (hp : phase s.adjustBState = .assigned) (h : Assigned e s₀ s) (h0 : s.internalCommand = 0) :
    Post e s₀ (connect1 e i s) := by
  unfold connect1
  split
  · split
    · exact h.waiting hb hx hp
    · exact h.waiting hb hx rfl
  · exact connect2_post hb hx i rcOk rfl h h0

theorem assignL232_post (rc : Nat) (hp : phase s.adjustBState = .assigned) (h : Assigned e s₀ s) (h0 : s.internalCommand = 0) :
    Post e s₀ (assignL232 e i rc s) := by
  unfold assignL232
  split
  · refine h.fails hb hx ?_
    split
    · decide
    · decide
  split
  · exact h.waiting hb hx hp
  split
  · exact h.fails hb hx wrongState_ne
  split
  · have hf := Assigned.final hb hx h (Or.inr rfl)
    refine .ends (Or.inr h0) ⟨hf.kept, ?_, ?_, hf.message⟩
    · intro hs
      obtain ⟨hg, hp, hm, hback⟩ := hf.failed hs
      refine ⟨hg, hp, hm, fun hc => ?_⟩
      obtain ⟨h1, h2, h3, h4⟩ := hback hc
      exact ⟨h1, h2, h3, h4⟩
    · intro hg
      obtain ⟨h1, h2, h3, h4⟩ := hf.good hg
      exact ⟨h1, h2, h3, h4⟩
  · exact connect1_post hb hx i rfl h h0

/-! ## Before layers 2 and 3 are assigned -/

omit hx in
theorem Switched.command (h : Switched e s₀ s) : s.adjustBCommand ≠ 0 := by
  rcases h with h | ⟨-, h⟩
  · exact h.command.trans_ne hb.command
  · exact ((keepParms_settled hb).of_core h).command.trans_ne hb.command

omit hx in
theorem Switched.waiting {st : AdjustBState} (h : Switched e s₀ s) (hp : phase st = .restoring) : Post e s₀ (s.wait st) := by
  refine .waiting (h.command hb) ?_
  unfold Pending
  rw [show phase (s.wait st).1.adjustBState = .restoring from hp]
  exact h

omit hx in
theorem Switched.fails (h : Switched e s₀ s) (hi : info ≠ .good) : Post e s₀ (s, info) := by
  refine .ends (Or.inl hi) ?_
  rcases h with h | ⟨-, h⟩
  · exact h.final hi
  · have hs := (keepParms_settled hb).of_core h
    refine ⟨hs.kept, ?_, fun hg => absurd hg hi, fun hg => absurd hg hi⟩
    intro hf
    rw [hs.failed] at hf
    cases hf

omit hx in
/-- Layers 2 and 3 assigned again with the old B protocol. -/
theorem Undone.assign (h : Undone e s₀ s) (hm : s₀.mode modeAssignL23 = true) (hres : s.b1Resource ≠ 0) :
    Undone e s₀ (assigned e s).1 := by
  have hp : s.bProtocol = s₀.bProtocol := h.bProtocol
  have happl : s.appl = s₀.appl := h.appl
  have hsingle : Single s.bProtocol := by
    rw [hp]
    exact hb.bProtocol
  generalize hd : (if s.mode modeConnect then s.callDir ||| callDirForceOutgNl else s.callDir) = d
  have hset : ProtocolsSet s.toBChannel (assigned e s).1.toBChannel := by
    unfold assigned
    dsimp only
    rw [hd]
    have h23 := configureB23_set e { s with callDir := d }
    exact ⟨h23.tel, h23.b1Options, h23.b1Resource, rfl, rfl⟩
  rw [assigned_eq, hsingle.save]
  refine ⟨hp, h.parmsMsg, fun hr => ?_, h.failed, h.info, h.mode, h.command, h.appl⟩
  have halike : Alike s.toBChannel s₀.toBChannel := (h.rolledBack hr).channel
  obtain ⟨hprot2, hprot3⟩ := hr.configureB23 hm (by rw [← halike.b1Resource]; exact hres)
  have hsame : Alike (assigned e s).1.toBChannel (s₀.configureB23 e).1.toBChannel := by
    unfold assigned
    dsimp only
    rw [hd]
    have h23 := configureB23_alike (e := e) (s := { s with callDir := d }) (t := s₀)
      ⟨halike.tel, halike.b1Options, halike.b1Resource, halike.b2Prot, halike.b3Prot⟩ happl hp
    exact ⟨h23.tel, h23.b1Options, h23.b1Resource, h23.b2Prot, h23.b3Prot⟩
  refine ⟨hp, h.parmsMsg, (h.rolledBack hr).b1Facilities, ?_⟩
  exact ⟨hset.tel.trans halike.tel, hset.b1Options.trans halike.b1Options, hset.b1Resource.trans halike.b1Resource,
    hsame.b2Prot.trans hprot2, hsame.b3Prot.trans hprot3⟩

/-- Where layers 2 and 3 are to be assigned, they are assigned as requested or again. -/
theorem Switched.assign (h : Switched e s₀ s) (hm : s.mode modeAssignL23 = true) (hres : s.b1Resource ≠ 0) :
    Assigned e s₀ (assigned e s).1 := by
  rcases h with h | ⟨hg, h⟩
  · refine Or.inl (h.assign hb ?_ hres)
    rw [← hm]
    exact (congrArg (fun mode => hasBits mode modeAssignL23) h.mode.symm :)
  · have hmode : s.adjustBMode = s₀.adjustBMode := ((keepParms_settled hb).of_core h).mode
    have hm₀ : s₀.mode modeAssignL23 = true := by
      rw [← hm]
      exact (congrArg (fun mode => hasBits mode modeAssignL23) hmode.symm :)
    have hres' : (tried e s₀).b1Resource ≠ 0 := by
      obtain ⟨m₂, hkeep⟩ := keepParms_eq (tried e s₀)
      have hk : s.b1Resource = (tried e s₀).keepParms.b1Resource := (congrArg (fun x : AdjPlci => x.b1Resource) h :)
      rw [hkeep] at hk
      rw [← hk]
      exact hres
    refine Or.inr ⟨hg, ?_⟩
    have hreq : requested e s₀ = (assigned e (tried e s₀).keepParms).1 := by
      unfold requested
      rw [hx, if_neg Bool.false_ne_true, hm₀, Bool.true_and, if_pos (bne_iff_ne.mpr hres')]
    rw [hreq]
    exact (assigned_core h).1

/-- Where they are not, nothing more is done. -/
theorem Switched.skip (h : Switched e s₀ s) (hm : (s.mode modeAssignL23 && s.b1Resource != 0) = false) : Assigned e s₀ s := by
  rcases h with h | ⟨hg, h⟩
  · exact Or.inl h
  · refine Or.inr ⟨hg, ?_⟩
    have hreq : requested e s₀ = (tried e s₀).keepParms := by
      obtain ⟨m₂, hkeep⟩ := keepParms_eq (tried e s₀)
      have hmode : s.adjustBMode = s₀.adjustBMode := ((keepParms_settled hb).of_core h).mode
      have hk : s.b1Resource = (tried e s₀).keepParms.b1Resource := (congrArg (fun x : AdjPlci => x.b1Resource) h :)
      have hm₀ : s.mode modeAssignL23 = s₀.mode modeAssignL23 := (congrArg (fun mode => hasBits mode modeAssignL23) hmode :)
      rw [hkeep] at hk
      unfold requested
      rw [hx, if_neg Bool.false_ne_true, ← hm₀, ← hk, hm, if_neg Bool.false_ne_true]
    rw [hreq]
    exact h

omit hb hx in
theorem assignL231_eq (hm : (s.mode modeAssignL23 && s.b1Resource != 0) = true) :
    assignL231 e i s =
      if i.nlBusy then s.wait s.adjustBState
      else if (assigned e s).2 ≠ .success then (assigned e s).1.fail (.info (assigned e s).2)
      else (assigned e s).1.wait .assignL232 := by
  unfold assignL231 assigned
  rw [hm, if_pos rfl]
  dsimp only
  cases s.mode modeConnect with
  | false => rfl
  | true => rfl

theorem assignL231_post (hp : phase s.adjustBState = .restoring) (h : Switched e s₀ s)
    (h0 : s.internalCommand = 0) : Post e s₀ (assignL231 e i s) := by
  cases hm : s.mode modeAssignL23 && s.b1Resource != 0 with
  | false =>
    unfold assignL231
    rw [hm, if_neg Bool.false_ne_true]
    exact assignL232_post hb hx i rcAssignOk rfl (Switched.skip hb hx h hm) h0
  | true =>
    rw [assignL231_eq i hm]
    rw [Bool.and_eq_true, bne_iff_ne] at hm
    have ha := Switched.assign hb hx h hm.1 hm.2
    split
    · exact h.waiting hb hp
    split
    case isTrue hi =>
      refine ha.fails hb hx ?_
      intro hg
      exact hi (AdjustInfo.info.inj hg)
    case isFalse => exact ha.waiting hb hx rfl

theorem restoreEc_post (rc : Nat) (h : Switched e s₀ s) (h0 : s.internalCommand = 0) :
    Post e s₀ (restoreEc e i rc s) :=
  restored_post (restoreConfig_restores .restoreEc1 .restoreEc2 rfl rfl s _ _ rc) (fun _ => h.waiting hb)
    (fun _ => h.fails hb wrongState_ne) h0 (h.command hb) fun _ => assignL231_post hb hx i rfl h h0

theorem restoreDtmfParameter_post (rc : Nat) (h : Switched e s₀ s) (h0 : s.internalCommand = 0) :
    Post e s₀ (restoreDtmfParameter e i rc s) :=
  restored_post (restoreConfig_restores .restoreDtmfParameter1 .restoreDtmfParameter2 rfl rfl s _ _ rc) (fun _ => h.waiting hb)
    (fun _ => h.fails hb wrongState_ne) h0 (h.command hb) fun _ => restoreEc_post hb hx i rcOk h h0

theorem restoreAudioParameter_post (rc : Nat) (h : Switched e s₀ s) (h0 : s.internalCommand = 0) :
    Post e s₀ (restoreAudioParameter e i rc s) :=
  restored_post (restoreConfig_restores .restoreAudioParameter1 .restoreAudioParameter2 rfl rfl s _ _ rc) (fun _ => h.waiting hb)
    (fun _ => h.fails hb wrongState_ne) h0 (h.command hb) fun _ => restoreDtmfParameter_post hb hx i rcOk h h0

theorem restorePitchParameter_post (rc : Nat) (h : Switched e s₀ s) (h0 : s.internalCommand = 0) :
    Post e s₀ (restorePitchParameter e i rc s) :=
  restored_post (restoreConfig_restores .restorePitchParameter1 .restorePitchParameter2 rfl rfl s _ _ rc) (fun _ => h.waiting hb)
    (fun _ => h.fails hb wrongState_ne) h0 (h.command hb) fun _ => restoreAudioParameter_post hb hx i rcOk h h0

theorem restoreVoice_post (rc : Nat) (h : Switched e s₀ s) (h0 : s.internalCommand = 0) :
    Post e s₀ (restoreVoice e i rc s) :=
  restored_post (restoreConfig_restores .restoreVoice1 .restoreVoice2 rfl rfl s _ _ rc) (fun _ => h.waiting hb)
    (fun _ => h.fails hb wrongState_ne) h0 (h.command hb) fun _ => restorePitchParameter_post hb hx i rcOk h h0

/-! ## The switch -/

theorem unswitchL12_post (rc : Nat) (h : Switched e s₀ s) (h0 : s.internalCommand = 0) :
    Post e s₀ (unswitchL12 e i rc s) := by
  unfold unswitchL12
  split
  · exact h.fails hb wrongState_ne
  · exact restoreVoice_post hb hx i rcOk h h0

omit hx in
/-- Layer 1 switched back to the old B protocol, resource and facilities. -/
theorem Undone.configure (h : Undone e s₀ s) :
    Undone e s₀ (s.configureB1 e (if s.b1Resource = 0 then 2 else 0) s.b1Facilities).1 := by
  have hp : s.bProtocol = s₀.bProtocol := h.bProtocol
  have hback : Configured e s₀ → RolledBack s₀ (s.configureB1 e (if s.b1Resource = 0 then 2 else 0) s.b1Facilities).1 := by
    intro hr
    have halike : Alike s.toBChannel s₀.toBChannel := (h.rolledBack hr).channel
    have hf : s.b1Facilities = s₀.b1Facilities := (h.rolledBack hr).b1Facilities
    obtain ⟨hres, hfac⟩ := hr.configureB1
    rw [halike.b1Resource, hf]
    generalize (if s₀.b1Resource = 0 then 2 else 0) = x at hres hfac ⊢
    obtain ⟨hc, hf', -⟩ := configureB1_alike (e := e) halike hf hp x s₀.b1Facilities
    have hset := addB1_set e.f s.toBChannel (apiLoadMsg s.bProtocol) x s₀.b1Facilities
    rw [configureB1_eq] at hc hf' ⊢
    refine ⟨?_, h.parmsMsg, hf'.trans hfac, ?_⟩
    · show apiSaveMsg (apiLoadMsg s.bProtocol) s.bProtocol = s₀.bProtocol
      rw [hp]
      exact hb.bProtocol.save
    · exact ⟨hset.tel.trans halike.tel, hset.b1Options.trans halike.b1Options, hc.b1Resource.trans hres,
        hset.b2Prot.trans halike.b2Prot, hset.b3Prot.trans halike.b3Prot⟩
  rw [configureB1_eq] at hback ⊢
  refine ⟨?_, h.parmsMsg, fun hr => ?_, h.failed, h.info, h.mode, h.command, h.appl⟩
  · show apiSaveMsg (apiLoadMsg s.bProtocol) s.bProtocol = s₀.bProtocol
    rw [hp]
    exact hb.bProtocol.save
  · obtain ⟨h1, h2, h3, h4⟩ := hback hr
    exact ⟨h1, h2, h3, h4⟩

theorem unswitchL11_post (hp : phase s.adjustBState = .undoing) (h : Switched e s₀ s)
    (h0 : s.internalCommand = 0) : Post e s₀ (unswitchL11 e i s) := by
  unfold unswitchL11
  split
  case isFalse => exact unswitchL12_post hb hx i rcOk h h0
  case isTrue hbad =>
    have hu : Undone e s₀ s := by
      rcases h with h | ⟨hg, h⟩
      · exact h
      · exact absurd (((keepParms_settled hb).of_core h).info.trans hg) hbad
    split
    · refine .waiting (h.command hb) ?_
      unfold Pending
      rw [show phase (s.wait s.adjustBState).1.adjustBState = .undoing from hp]
      exact hu
    · have hc := Undone.configure hb hu
      dsimp only
      generalize s.configureB1 e (if s.b1Resource = 0 then 2 else 0) s.b1Facilities = r at hc ⊢
      obtain ⟨s', info⟩ := r
      split
      case isTrue hi =>
        refine .ends (Or.inl ?_) (hc.final ?_)
        · intro hg
          exact hi (AdjustInfo.info.inj hg)
        · intro hg
          exact hi (AdjustInfo.info.inj hg)
      case isFalse => exact .waiting (hc.command.trans_ne hb.command) hc

omit hb hx in
theorem switchInfo_ne (s : AdjPlci) (rc : Nat) : s.switchInfo e rc ≠ .good := by
  unfold switchInfo
  split
  · split
    · split
      · decide
      · decide
    split
    · decide
    split
    · decide
    · decide
  · decide

omit hx in
/-- The old B protocol, resource and facilities are put back. -/
theorem Tried.rollBack (hsw : s₀.mode modeSwitchL1 = true) (h : Tried e s₀ s) (hi : info ≠ .good) :
    Undone e s₀ ({ s with adjustBInfo := info } : AdjPlci).rollBack := by
  have hprev : s.adjustBPrevB1Resource = s₀.b1Resource ∧ s.adjustBPrevB1Facilities = s₀.b1Facilities ∧
      s.adjustBMode = s₀.adjustBMode ∧ s.adjustBCommand = s₀.adjustBCommand ∧ s.appl = s₀.appl := by
    obtain ⟨c, f, b, m, j, htried⟩ := tried_eq e s₀
    rw [of_core h, htried]
    exact ⟨rfl, rfl, rfl, rfl, rfl⟩
  obtain ⟨hres, hfac, hmode, hcmd, happl⟩ := hprev
  have hchannel : s.toBChannel = (tried e s₀).toBChannel := (congrArg toBChannel h :)
  have hset : Alike (tried e s₀).toBChannel { s₀.toBChannel with b1Resource := (tried e s₀).b1Resource } := by
    unfold tried attempt
    rw [hsw, if_pos rfl]
    obtain ⟨b, m, hswap⟩ := swapParms_eq s₀.begun
    rw [hswap, configureB1_eq]
    exact addB1_set e.f s₀.toBChannel (apiLoadMsg b) _ _
  rw [← hchannel] at hset
  have hprot : s.bProtocol = (tried e s₀).bProtocol := (congrArg AdjPlci.bProtocol h :)
  have hmsg : s.adjustBParmsMsg = (tried e s₀).adjustBParmsMsg := (congrArg AdjPlci.adjustBParmsMsg h :)
  have hback : ({ s with adjustBInfo := info } : AdjPlci).swapParms =
      { s with adjustBInfo := info, bProtocol := s₀.bProtocol, adjustBParmsMsg := s₀.adjustBParmsMsg } := by
    rcases attempt_messages (e := e) hb with ⟨hp, hm, hnone⟩ | ⟨m, hm, -, hp, hm'⟩
    · have hnone : s₀.adjustBParmsMsg = none := by
        rcases hnone with hnone | hnone
        · exact hnone
        · rw [hsw] at hnone
          cases hnone
      rw [swapParms_none (s := { s with adjustBInfo := info }) ((hmsg.trans hm).trans hnone), ← hm, ← hmsg, ← hp, ← hprot]
    · rw [swapParms_some (s := { s with adjustBInfo := info }) (hmsg.trans hm')]
      dsimp only
      rw [hprot, hp, swapped_swapped, swapped_swapped, hm]
  unfold AdjPlci.rollBack
  rw [hback]
  dsimp only
  rw [hres, hfac]
  exact ⟨rfl, rfl, fun _ => ⟨rfl, rfl, rfl, ⟨hset.tel, hset.b1Options, rfl, hset.b2Prot, hset.b3Prot⟩⟩,
    rfl, hi, hmode, hcmd, happl⟩

theorem switchL12_post (rc : Nat) (hrc : s₀.mode modeSwitchL1 = true ∨ rc = rcOk) (h : Tried e s₀ s)
    (h0 : s.internalCommand = 0) : Post e s₀ (switchL12 e i rc s) := by
  have hinfo : s.adjustBInfo = (tried e s₀).adjustBInfo := (congrArg AdjPlci.adjustBInfo h :)
  unfold switchL12
  dsimp only
  cases hf : rcFails rc with
  | true =>
    have hsw : s₀.mode modeSwitchL1 = true := by
      rcases hrc with hsw | hrc
      · exact hsw
      · rw [hrc] at hf
        cases hf
    rw [if_pos rfl, if_neg (switchInfo_ne s rc)]
    refine unswitchL11_post hb hx i rfl (Or.inl (h.rollBack hb hsw (switchInfo_ne s rc))) ?_
    obtain ⟨b, m, hswap⟩ := swapParms_eq { s with adjustBInfo := s.switchInfo e rc }
    show ({ s with adjustBInfo := s.switchInfo e rc } : AdjPlci).swapParms.internalCommand = 0
    rw [hswap]
    exact h0
  | false =>
    rw [if_neg Bool.false_ne_true]
    split
    case isTrue hg =>
      obtain ⟨m, hkeep⟩ := keepParms_eq s
      refine unswitchL11_post hb hx i rfl (Or.inr ⟨hinfo.symm.trans hg, keepParms_core h⟩) ?_
      rw [hkeep]
      exact h0
    case isFalse hg =>
      have hsw : s₀.mode modeSwitchL1 = true := by
        cases hsw : s₀.mode modeSwitchL1 with
        | true => rfl
        | false =>
          refine absurd (hinfo.trans ?_) hg
          unfold tried attempt
          rw [hsw]
          rfl
      refine unswitchL11_post hb hx i rfl (Or.inl (h.rollBack hb hsw hg)) ?_
      obtain ⟨b, m, hswap⟩ := swapParms_eq s
      show s.swapParms.internalCommand = 0
      rw [hswap]
      exact h0

/-! ## Before the switch -/

omit hb hx in
theorem Before.final (h : Before s₀ s) (hi : info ≠ .good) : Final e s₀ s info := by
  have hf : s.switchFailed = false := (congrArg AdjPlci.switchFailed h :)
  refine ⟨h.kept, ?_, fun hg => absurd hg hi, fun hg => absurd hg hi⟩
  intro hs
  rw [hf] at hs
  cases hs

omit hx in
theorem Before.waiting {st : AdjustBState} (h : Before s₀ s) (hp : phase st = .before) : Post e s₀ (s.wait st) := by
  have hc : s.adjustBCommand = s₀.adjustBCommand := (congrArg adjustBCommand h :)
  refine .waiting (hc.trans_ne hb.command) ?_
  unfold Pending
  rw [show phase (s.wait st).1.adjustBState = .before from hp]
  exact h

theorem switchL11_post (hp : phase s.adjustBState = .before) (h : Before s₀ s) (h0 : s.internalCommand = 0) :
    Post e s₀ (switchL11 e i s) := by
  have hmode : s.mode modeSwitchL1 = s₀.mode modeSwitchL1 := (congrArg (fun x : AdjPlci => x.mode modeSwitchL1) h :)
  have hnores : s.mode modeNoResource = s₀.mode modeNoResource := (congrArg (fun x : AdjPlci => x.mode modeNoResource) h :)
  have hfac : s.adjustBFacilities = s₀.adjustBFacilities := (congrArg adjustBFacilities h :)
  unfold switchL11
  split
  case isFalse hsw =>
    refine switchL12_post hb hx i rcOk (Or.inr rfl) ?_ h0
    show core s = core (tried e s₀)
    unfold tried attempt
    rw [← hmode, if_neg hsw]
    exact h
  case isTrue hsw =>
    split
    · exact h.waiting hb hp
    have ht : core { (s.swapParms.configureB1 e (if s.mode modeNoResource then 2 else 0) s.adjustBFacilities).1 with
        adjustBInfo := .info (s.swapParms.configureB1 e (if s.mode modeNoResource then 2 else 0) s.adjustBFacilities).2 } =
        core (tried e s₀) := by
      obtain ⟨h1, h2⟩ := configureB1_core (e := e) (swapParms_core h) (if s₀.mode modeNoResource then 2 else 0)
        s₀.adjustBFacilities
      unfold tried attempt
      rw [hnores, hfac, ← hmode, if_pos hsw, h2]
      exact setInfo_core h1 _
    have hcmd : (s.swapParms.configureB1 e (if s.mode modeNoResource then 2 else 0) s.adjustBFacilities).1.adjustBCommand ≠ 0 ∧
        (s.swapParms.configureB1 e (if s.mode modeNoResource then 2 else 0) s.adjustBFacilities).1.internalCommand = 0 := by
      have hc : s.adjustBCommand = s₀.adjustBCommand := (congrArg adjustBCommand h :)
      obtain ⟨b, m, hswap⟩ := swapParms_eq s
      rw [hswap, configureB1_eq]
      exact ⟨hc.trans_ne hb.command, h0⟩
    dsimp only
    generalize s.swapParms.configureB1 e (if s.mode modeNoResource then 2 else 0) s.adjustBFacilities = r at ht hcmd ⊢
    obtain ⟨s', info⟩ := r
    dsimp only at ht hcmd ⊢
    split
    · exact switchL12_post hb hx i rcOk (Or.inr rfl) ht hcmd.2
    · exact .waiting hcmd.1 ⟨ht, hmode.symm.trans hsw⟩

theorem removeL232_post (rc : Nat) (hp : phase s.adjustBState = .before) (h : Before s₀ s)
    (h0 : s.internalCommand = 0) : Post e s₀ (removeL232 e i rc s) := by
  unfold removeL232
  split
  · exact .ends (Or.inl wrongState_ne) (h.final wrongState_ne)
  split
  · exact h.waiting hb hp
  · exact switchL11_post hb hx i rfl h h0

theorem removeL231_post (h : Before s₀ s) (h0 : s.internalCommand = 0) : Post e s₀ (removeL231 e i s) := by
  unfold removeL231
  split
  · exact h.waiting hb rfl
  · exact removeL232_post hb hx i rcOk rfl h h0

/-- One call that does not start the adjustment. -/
theorem adjustBProcess_post (hp : phase s.adjustBState ≠ .start) (h : Pending e s₀ s) (h0 : s.internalCommand = 0) :
    Post e s₀ (s.adjustBProcess e i) := by
  unfold adjustBProcess
  unfold Pending at h
  split
  case h_1 hs =>
    rw [hs] at hp
    exact absurd rfl hp
  all_goals
    rename_i hs
    rw [hs] at h
  case h_2 | h_3 | h_4 | h_5 => exact removeL231_post hb hx i h h0
  case h_6 => exact removeL232_post hb hx i i.rc (congrArg phase hs) h h0
  case h_7 | h_8 | h_9 | h_10 | h_11 => exact switchL11_post hb hx i rfl h h0
  case h_12 => exact switchL11_post hb hx i (congrArg phase hs) h h0
  case h_13 => exact switchL12_post hb hx i i.rc (Or.inl h.2) h.1 h0
  case h_14 => exact unswitchL11_post hb hx i (congrArg phase hs) (Or.inl h) h0
  case h_15 => exact unswitchL12_post hb hx i i.rc (Or.inl h) h0
  case h_16 | h_17 => exact restoreVoice_post hb hx i i.rc h h0
  case h_18 | h_19 => exact restorePitchParameter_post hb hx i i.rc h h0
  case h_20 | h_21 => exact restoreAudioParameter_post hb hx i i.rc h h0
  case h_22 | h_23 => exact restoreDtmfParameter_post hb hx i i.rc h h0
  case h_24 | h_25 => exact restoreEc_post hb hx i i.rc h h0
  case h_26 => exact assignL231_post hb hx i (congrArg phase hs) h h0
  case h_27 => exact assignL232_post hb hx i i.rc (congrArg phase hs) h h0
  case h_28 => exact connect1_post hb hx i (congrArg phase hs) h h0
  case h_29 | h_30 | h_31 => exact connect2_post hb hx i i.rc (congrArg phase hs) h h0
  case h_32 => exact connect5_post hb hx i h h0
  case h_33 | h_34 => exact restoreDtmf_post hb hx i i.rc h h0
  case h_35 | h_36 | h_37 | h_38 | h_39 | h_40 | h_41 => exact restoreMixer_post hb hx i i.rc h h0
  case h_42 | h_43 => exact restoreMeasure_post hb hx i i.rc h h0
  case h_44 => exact atEnd_post hb hx h h0

omit hb hx in
theorem start_eq (s₀ : AdjPlci) (st : AdjustBState) :
    start e i { s₀ with adjustBState := st, internalCommand := 0 } =
      if s₀.onlyFacilities && s₀.facilitiesResource e == s₀.b1Resource then
        (({ s₀.begun with adjustBState := st, internalCommand := 0 } : AdjPlci).adjustB1Facilities e (s₀.facilitiesResource e)
          s₀.adjustBFacilities, .good)
      else if s₀.onlyFacilities && clear s₀.adjustBFacilities (getB1Facilities e.f (s₀.facilitiesResource e)) != 0 then
        ({ s₀.begun with adjustBState := st, internalCommand := 0, switchFailed := true }, .wrongState)
      else saveMeasure e i { s₀.begun with adjustBState := .saveMeasure1, internalCommand := 0 } := rfl

/-- The first call. -/
theorem start_post (h : core s = core s₀) (h0 : s.internalCommand = 0) :
    Post e s₀ (start e i s) := by
  have hs : s = { s₀ with adjustBState := s.adjustBState, internalCommand := s.internalCommand } := of_core h
  generalize s.adjustBState = st at hs
  rw [h0] at hs
  subst hs
  rw [start_eq, hx, if_neg Bool.false_ne_true]
  split
  · refine .ends (Or.inl wrongState_ne)
      ⟨.same rfl rfl, fun _ => ⟨wrongState_ne, rfl, rfl, fun _ => ⟨rfl, rfl, rfl, .refl _⟩⟩, ?_, ?_⟩
    · exact fun hg => absurd hg wrongState_ne
    · exact fun hg => absurd hg wrongState_ne
  · exact removeL231_post hb hx i rfl rfl

end Labels

/-- Where only facilities of the same resource are requested, the first call sets them. -/
theorem start_facilities {i : AdjustIn} (hx : ¬ Exchanges e s₀) (h : core s = core s₀) (h0 : s.internalCommand = 0) :
    (start e i s).2 = .good ∧ (start e i s).1.internalCommand = 0 ∧ Final e s₀ (start e i s).1 .good := by
  have hs : s = { s₀ with adjustBState := s.adjustBState, internalCommand := s.internalCommand } := of_core h
  have hd : (s₀.onlyFacilities && s₀.facilitiesResource e == s₀.b1Resource) = true := Bool.of_not_eq_false hx
  generalize s.adjustBState = st at hs
  rw [h0] at hs
  subst hs
  rw [start_eq, hd, if_pos rfl]
  refine ⟨rfl, rfl, .same rfl rfl, ?_, ?_, ?_⟩
  · intro hf
    cases hf
  · intro _
    unfold requested
    rw [hd, if_pos rfl]
    exact ⟨rfl, rfl, rfl, rfl⟩
  · intro _ m hm
    have hnone := (Bool.and_eq_true_iff.mp hd).1
    unfold onlyFacilities at hnone
    rw [hm] at hnone
    cases hnone

end Posts

end AdjPlci

/-! ## Runs -/

namespace AdjRun

open AdjPlci

variable (e : AdjustEnv) (s₀ : AdjPlci)

/-- What holds after any number of calls. -/
structure Holds (r : AdjRun) : Prop where
  waiting : r.ended = none → Pending e s₀ r.s ∧ (phase r.s.adjustBState = .start ∨ Exchanges e s₀)
  final : ∀ info, r.ended = some info → Final e s₀ r.s info

variable {e s₀}

theorem Holds.ended {s : AdjPlci} {info : AdjustInfo} (h : Final e s₀ s info) : Holds e s₀ ⟨s, some info⟩ := by
  refine ⟨nofun, ?_⟩
  rintro info ⟨⟩
  exact h

theorem Holds.of_post {r : AdjPlci × AdjustInfo} (hx : Exchanges e s₀) (h : Post e s₀ r) :
    Holds e s₀ ⟨r.1, if r.2 ≠ .good ∨ r.1.internalCommand = 0 then some r.2 else none⟩ := by
  unfold Post at h
  split at h
  case isTrue hover =>
    rw [if_pos hover]
    exact .ended h
  case isFalse hover =>
    rw [if_neg hover]
    exact ⟨fun _ => ⟨h, Or.inr hx⟩, nofun⟩

/-- One call. -/
theorem Holds.step (hb : Begins s₀) {r : AdjRun} (i : AdjustIn) (h : Holds e s₀ r) : Holds e s₀ (r.step e i) := by
  unfold AdjRun.step
  cases hended : r.ended with
  | some info => exact h
  | none =>
    obtain ⟨hi, hx⟩ := h.waiting hended
    rw [Option.isSome_none, if_neg Bool.false_ne_true]
    by_cases hp : phase r.s.adjustBState = .start
    · have hst : r.s.adjustBState = .start := by
        generalize r.s.adjustBState = st at hp
        cases st <;> first | rfl | cases hp
      have hstart : ({ r.s with internalCommand := 0 } : AdjPlci).adjustBProcess e i
          = start e i { r.s with internalCommand := 0 } := by
        unfold adjustBProcess
        rw [hst]
      have hcore : core { r.s with internalCommand := 0 } = core s₀ := by
        unfold Pending at hi
        rw [hp] at hi
        exact hi
      rw [hstart]
      by_cases hx : Exchanges e s₀
      · exact .of_post hx (start_post hb hx i hcore rfl)
      · obtain ⟨hg, h0, hf⟩ := start_facilities (e := e) (i := i) hx hcore rfl
        dsimp only
        rw [hg, if_pos (Or.inr h0)]
        exact .ended hf
    · have hx : Exchanges e s₀ := hx.resolve_left hp
      exact .of_post hx (adjustBProcess_post hb hx i hp hi rfl)

/-- Both B protocols are there while the adjustment waits. -/
theorem Pending.kept (hb : Begins s₀) {s : AdjPlci} (h : Pending e s₀ s) (hx : phase s.adjustBState = .start ∨ Exchanges e s₀) :
    BothKept s₀ s := by
  unfold Pending at h
  cases hp : phase s.adjustBState with
  | start =>
    rw [hp] at h
    exact .same (congrArg AdjPlci.bProtocol h :) (congrArg AdjPlci.adjustBParmsMsg h :)
  | before =>
    rw [hp] at h
    exact Before.kept h
  | switching =>
    rw [hp] at h
    exact h.1.kept hb
  | undoing =>
    rw [hp] at h
    exact Undone.kept h
  | restoring =>
    rw [hp] at h
    rcases h with h | ⟨-, h⟩
    · exact Undone.kept h
    · exact ((keepParms_settled hb).of_core h).kept
  | assigned =>
    rw [hp] at h hx
    rcases h with h | ⟨-, h⟩
    · exact Undone.kept h
    · exact ((requested_settled hb (hx.resolve_left nofun)).of_core h).kept

/-- After any number of calls both B protocols are there; when the adjustment is over, it has
    rolled back what could not be switched, or set what was requested. -/
theorem adjust_b_rollback (e : AdjustEnv) (s₀ : AdjPlci) (hb : Begins s₀) (is : List AdjustIn) :
    BothKept s₀ (run (AdjRun.step e) ⟨s₀, none⟩ is).s ∧
      ∀ info, (run (AdjRun.step e) ⟨s₀, none⟩ is).ended = some info →
        ((run (AdjRun.step e) ⟨s₀, none⟩ is).s.switchFailed = true →
          info ≠ .good ∧ (run (AdjRun.step e) ⟨s₀, none⟩ is).s.bProtocol = s₀.bProtocol ∧
            (run (AdjRun.step e) ⟨s₀, none⟩ is).s.adjustBParmsMsg = s₀.adjustBParmsMsg ∧
            (Configured e s₀ → RolledBack s₀ (run (AdjRun.step e) ⟨s₀, none⟩ is).s)) ∧
        (info = .good → SameConfig (run (AdjRun.step e) ⟨s₀, none⟩ is).s (requested e s₀) ∧
          ∀ m, s₀.adjustBParmsMsg = some m → s₀.mode modeSwitchL1 = true →
            contents (run (AdjRun.step e) ⟨s₀, none⟩ is).s.bProtocol = contents m) := by
  have h₀ : Holds e s₀ ⟨s₀, none⟩ := by
    have hp : phase s₀.adjustBState = .start := by rw [hb.start]; rfl
    refine ⟨fun _ => ⟨?_, Or.inl hp⟩, nofun⟩
    unfold Pending
    rw [hp]
  have h := run_invariant (AdjRun.step e) (I := Holds e s₀) (fun _ i hi => hi.step hb i) h₀ is
  generalize run (AdjRun.step e) ⟨s₀, none⟩ is = r at h ⊢
  constructor
  · cases hended : r.ended with
    | none =>
      obtain ⟨hi, hx⟩ := h.waiting hended
      exact Pending.kept hb hi hx
    | some info => exact (h.final info hended).kept
  · intro info hended
    have hf := h.final info hended
    exact ⟨hf.failed, fun hg => ⟨hf.good hg, hf.message hg⟩⟩

/-! ## SELECT_B_REQ with a B1 protocol that is not supported -/

/-- A message with the B protocol `bytes`, saved at `addr`. -/
def savedB (addr : Int) (bytes : List UInt8) : ApiSave :=
  apiSaveMsg ⟨fun i => bytes.getD i 0, (bytes.getD 0 0).toNat⟩ ⟨addr, fun _ => (none, 0), fun _ => 0⟩

theorem savedB_single (addr : Int) {bytes : List UInt8} (h : (bytes.getD 0 0).toNat + 1 ≤ maxMsgSize) :
    Single (savedB addr bytes) :=
  ⟨rfl, rfl, h⟩

def plainEnv : AdjustEnv := ⟨⟨0, 0, 0, 0, 0, 0, 0, true, false, fun _ => 0⟩, 0⟩

def unsupportedB : ApiSave := savedB 2000 [9, 40, 0, 0, 0, 0, 0, 0, 0, 0]

/-- A PLCI without a codec. -/
def withoutCodec (b1Resource b1Facilities : Nat) (bProtocol : ApiSave) : AdjPlci where
  tel := .none
  callDir := callDirOut
  b1Resource := b1Resource
  b1Options := 0
  b2Prot := 0
  b3Prot := 0
  requestedOptions := 0
  requestedOptionsConn := 0
  advNl := false
  rxDmaDescriptor := 0
  appl := some 1
  b1Facilities := b1Facilities
  bProtocol := bProtocol
  internalCommand := 0
  adjustBState := .start
  adjustBMode := 0
  adjustBParmsMsg := none
  adjustBFacilities := 0
  adjustBCommand := 0
  adjustBInfo := .good
  adjustBPrevB1Resource := 0
  adjustBPrevB1Facilities := 0
  adjustBRestore := false
  switchFailed := false

def unsupported (b1Resource b1Facilities : Nat) : AdjPlci :=
  selectB (withoutCodec b1Resource b1Facilities (savedB 1000 [0])) unsupportedB false

/-- Nothing is busy or in use. -/
def idle (rc : Nat) : AdjustIn := ⟨rc, false, false, false, false, false, false, false, false, false, .done, false⟩

/-- The resource is not established, layer 1 is switched back, and layers 2 and 3 are assigned. -/
def unsupportedRun (b1Resource b1Facilities : Nat) : AdjRun :=
  run (AdjRun.step plainEnv) ⟨unsupported b1Resource b1Facilities, none⟩ [idle 0, idle rcOk, idle rcAssignOk]

theorem unsupported_begins (b1Resource b1Facilities : Nat) : Begins (unsupported b1Resource b1Facilities) :=
  selectB_begins (savedB_single 1000 (by decide)) (savedB_single 2000 (by decide)) false

/-- The PLCI was configured without a codec. -/
theorem unsupported_configured : Configured plainEnv (unsupported 5 0) :=
  ⟨⟨rfl, rfl⟩, fun _ _ _ h => Option.some.inj h⟩

/-- An adapter with the transparent protocols. -/
def transparentEnv : AdjustEnv := ⟨⟨0, 2, 2, 1, 0, 0, 0, true, false, fun _ => 0⟩, 0⟩

def transparentB (addr : Int) : ApiSave := savedB addr [9, 1, 0, 1, 0, 0, 0, 0, 0, 0]

theorem transparentB_single (addr : Int) : Single (transparentB addr) := savedB_single addr (by decide)

/-- It had a codec, and gets a B protocol that is supported. -/
def selected : AdjPlci := selectB (withoutCodec 20 facilityVoice (transparentB 1000)) (transparentB 2000) false

/-- The mixer is to be used. -/
def mixed : AdjPlci := adjustB1Resource (withoutCodec 9 0 (transparentB 1000)) none facilityMixer 7

def selectedRun : AdjRun := run (AdjRun.step transparentEnv) ⟨selected, none⟩ [idle 0, idle rcOk, idle rcAssignOk]

def mixedRun : AdjRun := run (AdjRun.step transparentEnv) ⟨mixed, none⟩ [idle rcOk, idle rcOk]

theorem adjust_b_rollback_runs :
    ((unsupportedRun 5 0).ended = some (.info .b1NotSupported) ∧ RolledBack (unsupported 5 0) (unsupportedRun 5 0).s) ∧
      (selectedRun.ended = some .good ∧ SameConfig selectedRun.s (requested transparentEnv selected) ∧
        selectedRun.s.b1Resource = 9) ∧
      mixedRun.ended = some .good ∧ SameConfig mixedRun.s (requested transparentEnv mixed) ∧ mixedRun.s.b1Resource = 20 := by
  have hmixed : Begins mixed := adjustB1Resource_begins (transparentB_single 1000) (by intro m hm; cases hm)
      facilityMixer (by decide)
  have hselected : Begins selected := selectB_begins (transparentB_single 1000) (transparentB_single 2000) false
  refine ⟨?_, ?_, ?_⟩
  · have hended : (unsupportedRun 5 0).ended = some (.info .b1NotSupported) := by decide +kernel
    have h := (adjust_b_rollback plainEnv (unsupported 5 0) (unsupported_begins 5 0) [idle 0, idle rcOk, idle rcAssignOk]).2
      (.info .b1NotSupported) hended
    exact ⟨hended, (h.1 (by decide +kernel)).2.2.2 unsupported_configured⟩
  · have hended : selectedRun.ended = some .good ∧ selectedRun.s.b1Resource = 9 := by decide +kernel
    have h := (adjust_b_rollback transparentEnv selected hselected [idle 0, idle rcOk, idle rcAssignOk]).2 .good hended.1
    exact ⟨hended.1, (h.2 rfl).1, hended.2⟩
  · have hended : mixedRun.ended = some .good ∧ mixedRun.s.b1Resource = 20 := by decide +kernel
    have h := (adjust_b_rollback transparentEnv mixed hmixed [idle rcOk, idle rcOk]).2 .good hended.1
    exact ⟨hended.1, (h.2 rfl).1, hended.2⟩

/-- The PLCI was configured with a codec, which SELECT_B_REQ has switched off: it had the resource
    20 with the facility VOICE, and gets the resource 5. -/
theorem adjust_b_codec_off :
    ¬ ∀ (e : AdjustEnv) (s₀ : AdjPlci), Begins s₀ → ∀ (is : List AdjustIn) (info : AdjustInfo),
      (run (AdjRun.step e) ⟨s₀, none⟩ is).ended = some info → (run (AdjRun.step e) ⟨s₀, none⟩ is).s.switchFailed = true →
        RolledBack s₀ (run (AdjRun.step e) ⟨s₀, none⟩ is).s := by
  intro h
  have hback := h plainEnv (unsupported 20 facilityVoice) (unsupported_begins 20 facilityVoice)
      [idle 0, idle rcOk, idle rcAssignOk]
    (.info .b1NotSupported) (by decide +kernel) (by decide +kernel)
  have hres : (unsupportedRun 20 facilityVoice).s.b1Resource = 5 := by decide +kernel
  have hold : (unsupportedRun 20 facilityVoice).s.b1Resource = 20 := hback.channel.b1Resource
  rw [hres] at hold
  cases hold

end AdjRun

end Divas.Capi
