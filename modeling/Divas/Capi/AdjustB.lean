/-
  Divas.Capi.AdjustB — the B channel of a PLCI is reconfigured (message.c).

  `adjust_b_process` removes layers 2 and 3, switches layer 1 to another B1 resource,
  restores what the functions of the PLCI had set up, and assigns and connects layers 2 and
  3 again; `adjust_b_mode` says which of these. It is called with each return code. A call
  that waits leaves `internal_command` set; one that ends leaves it 0 or returns an error. The
  labels of its `switch` are functions here, and a label that falls through calls the next.

  The new B protocol is in the message `adjust_b_parms_msg`. It is exchanged with `B_protocol`
  for the switch, and exchanged back when the switch fails; then layer 1 is switched to what
  it was.

  `AdjustIn` is what a call finds: the return code, what is busy, and which functions are in
  use. What the functions save and restore, the parameters of the requests, and the NCCIs are
  left out. The save functions return GOOD at once. `switchFailed` is a ghost field.
-/

import Mathlib.Logic.Function.Basic
import Divas.Lib.Run
import Divas.Capi.ApiSave

namespace Divas.Capi

open Divas.Lib.Bytes Divas.Lib.Run

/-! ## Facilities -/

def featureV18 : Nat := 0x00000080
def featureVown : Nat := 0x01000000
def featureXconnect : Nat := 0x02000000

/-- `b1_facilities_table`. -/
def b1FacilitiesTable : List Nat :=
  [0x0000, 0x0000, 0x0000, 0x0000, 0x0000, 0x0000, 0x0000, 0x0000, 0x0000, 0x0000, 0x0000, 0x0000, 0x0000, 0x0000, 0x0000,
    0x0000, 0x0000, 0x0000, 0x0000, 0x0000, 0x0012, 0x0000, 0x000c, 0x001e, 0x001f, 0x0013, 0x0012, 0x0012, 0x026c, 0x027e,
    0x027f, 0x002c, 0x003e, 0x003f, 0x0000, 0x0000, 0x02cc, 0x02de, 0x02df, 0x0000, 0x0000, 0x0000, 0x0100, 0x0112, 0x0113]

def getB1Facilities (f : Features) (b1Resource : Nat) : Nat :=
  let soft := hasBits f.manufacturerFeatures
  let trans := b1Resource == 9 || b1Resource == 20 || b1Resource == 25
  let modem := b1Resource == 17 || b1Resource == 18
  let b1Facilities := b1FacilitiesTable.getD b1Resource 0
  let b1Facilities := if trans && soft featureSoftDtmfSend then b1Facilities ||| facilityDtmfx else b1Facilities
  let b1Facilities := if trans && soft featureSoftDtmfReceive then b1Facilities ||| facilityDtmfr else b1Facilities
  if modem && soft (featureV18 ||| featureVown) then b1Facilities ||| (facilityDtmfx ||| facilityDtmfr) else b1Facilities

/-- The facilities that `add_b1` gives to `adjust_b1_facilities`; `none` where it does not
    call it. -/
def addB1Asked (f : Features) (p : BChannel) (bp : Parm) (bChannelInfo b1Facilities : Nat) : Option Nat :=
  if bChannelInfo = 2 then some b1Facilities
  else
    match p.tel with
    | .codecPermanent => none
    | .codec => some b1Facilities
    | .advVoice => some (b1Facilities ||| facilityVoice)
    | .none =>
      if bp.length = 0 then some b1Facilities
      else if 256 < bp.length then none
      else
        match parseB bp with
        | none => none
        | some bps =>
          match globalConfig (parm bps 6) (direct p.callDir) with
          | none => none
          | some _ =>
            let b1 := (parm bps 0).word 0
            let plain := clear b1Facilities facilityVoice
            if b1 = b1NoResource then some b1Facilities
            else if b1 = b1Rtp ∧ privateOrLine f p privateRtp then
              some (if rtpTransparent f p bps ∧ (parm bps 3).byte 1 = 1
                then clear (b1Facilities ||| facilityLinear16) facilityVoice
                else plain)
            else if (parm bps 1).word 0 = b2T38 ∧ privateOrLine f p privateT38 then some plain
            else if b1 = b1Piafs ∧ f.privateOptions.testBit privatePiafs then some plain
            else if b1 = b1Ss7 ∧ f.privateOptions.testBit privateSs7 then some plain
            else if b1Supported f bps then some plain
            else none

/-! ## The PLCI -/

inductive AdjustInfo where
  | info (i : Info)
  | outOfFax
  | outOfInterconnectResources
  | outOfBResources
  | outOfBLicenses
  | relatedResourceError
  deriving DecidableEq, Repr

abbrev AdjustInfo.good : AdjustInfo := .info .success
abbrev AdjustInfo.wrongState : AdjustInfo := .info .wrongState

inductive AdjustBState where
  | start
  | saveMeasure1
  | saveMixer1
  | saveDtmf1
  | removeL231
  | removeL232
  | saveEc1
  | saveDtmfParameter1
  | saveAudioParameter1
  | savePitchParameter1
  | saveVoice1
  | switchL11
  | switchL12
  | unswitchL11
  | unswitchL12
  | restoreVoice1
  | restoreVoice2
  | restorePitchParameter1
  | restorePitchParameter2
  | restoreAudioParameter1
  | restoreAudioParameter2
  | restoreDtmfParameter1
  | restoreDtmfParameter2
  | restoreEc1
  | restoreEc2
  | assignL231
  | assignL232
  | connect1
  | connect2
  | connect3
  | connect4
  | connect5
  | restoreDtmf1
  | restoreDtmf2
  | restoreMixer1
  | restoreMixer2
  | restoreMixer3
  | restoreMixer4
  | restoreMixer5
  | restoreMixer6
  | restoreMixer7
  | restoreMeasure1
  | restoreMeasure2
  | ended
  deriving DecidableEq, Repr

/-! `adjust_b_mode` -/

def modeSave : Nat := 0x0001
def modeRemoveL23 : Nat := 0x0002
def modeSwitchL1 : Nat := 0x0004
def modeNoResource : Nat := 0x0008
def modeAssignL23 : Nat := 0x0010
def modeUserConnect : Nat := 0x0020
def modeConnect : Nat := 0x0040
def modeRestore : Nat := 0x0080

/-! Return codes -/

def rcOk : Nat := 0xff
def rcOkFc : Nat := 0xfc
def rcAssignOk : Nat := 0xef
def rcAssign : Nat := 0xe0
def rcWrongCh : Nat := 0x04
def rcOutOfResources : Nat := 0x07
def rcOutOfLicenses : Nat := 0x08

structure AdjPlci extends BChannel where
  /-- `appl`, by its Id. -/
  appl : Option Nat
  b1Facilities : Nat
  bProtocol : ApiSave
  internalCommand : Nat
  adjustBState : AdjustBState
  adjustBMode : Nat
  /-- The message that `adjust_b_parms_msg` points to. -/
  adjustBParmsMsg : Option ApiSave
  adjustBFacilities : Nat
  adjustBCommand : Nat
  adjustBInfo : AdjustInfo
  adjustBPrevB1Resource : Nat
  adjustBPrevB1Facilities : Nat
  adjustBRestore : Bool
  /-- The new B1 configuration could not be established. -/
  switchFailed : Bool

/-- `xconnect_write_coefs_process`. -/
inductive WriteCoefs where
  | failed
  | waiting
  | done
  deriving DecidableEq, Repr

/-- What a call finds. -/
structure AdjustIn where
  rc : Nat
  /-- `sig_req`. -/
  sigReq : Bool
  /-- `plci_nl_busy`. -/
  nlBusy : Bool
  /-- `NL.Id && !nl_remove_id`. -/
  nlAssigned : Bool
  /-- `hangup_flow_ctrl_timer != 0`. -/
  hangup : Bool
  /-- `plci == a->AdvSignalPLCI`. -/
  advSignal : Bool
  pitchEnabled : Bool
  audioSet : Bool
  dtmfParameter : Bool
  mixerInvolved : Bool
  writeCoefs : WriteCoefs
  measureSetup : Bool

/-- The adapter, and `diva_get_dma_descriptor`. -/
structure AdjustEnv where
  f : Features
  dma : Int

namespace AdjPlci

variable (e : AdjustEnv)

def mode (s : AdjPlci) (m : Nat) : Bool := hasBits s.adjustBMode m

def goTo (s : AdjPlci) (st : AdjustBState) : AdjPlci := { s with adjustBState := st }

/-- `internal_command = adjust_b_command`, and the call returns. -/
def wait (s : AdjPlci) (st : AdjustBState) : AdjPlci × AdjustInfo :=
  ({ s with internalCommand := s.adjustBCommand, adjustBState := st }, .good)

def fail (s : AdjPlci) (info : AdjustInfo) : AdjPlci × AdjustInfo := (s, info)

def adjustB1Facilities (s : AdjPlci) (newB1Resource newB1Facilities : Nat) : AdjPlci :=
  { s with b1Facilities := newB1Facilities &&& getB1Facilities e.f newB1Resource }

/-- `api_load_msg (&plci->B_protocol, bp)` and `add_b1`, which saves `bp` again. -/
def configureB1 (s : AdjPlci) (bChannelInfo b1Facilities : Nat) : AdjPlci × Info :=
  let bp := apiLoadMsg s.bProtocol
  let (b, info) := addB1 e.f s.toBChannel bp bChannelInfo b1Facilities
  let s' := { s with toBChannel := b, bProtocol := apiSaveMsg bp s.bProtocol }
  match addB1Asked e.f s.toBChannel bp bChannelInfo b1Facilities with
  | some asked => (s'.adjustB1Facilities e b.b1Resource asked, info)
  | none => (s', info)

/-- `api_load_msg (&plci->B_protocol, bp)` and `add_b23`. -/
def configureB23 (s : AdjPlci) : AdjPlci × Info :=
  let bp := apiLoadMsg s.bProtocol
  let (b, info) := addB23 e.f e.dma s.toBChannel (s.appl.getD 0) bp
  ({ s with toBChannel := b, bProtocol := apiSaveMsg bp s.bProtocol }, info)

/-- RTP or T.38 is asked for. -/
def rtpOptions (s : AdjPlci) : Bool :=
  s.appl.isSome && hasBits (s.requestedOptionsConn ||| s.requestedOptions ||| e.f.requestedOptionsTable (s.appl.getD 0 - 1))
    (2 ^ privateRtp ||| 2 ^ privateT38)

/-- `api_swap_msg (&plci->B_protocol, plci->adjust_b_parms_msg)`. -/
def swapParms (s : AdjPlci) : AdjPlci :=
  match s.adjustBParmsMsg with
  | some m => { s with bProtocol := (apiSwapMsg s.bProtocol m).1, adjustBParmsMsg := some (apiSwapMsg s.bProtocol m).2 }
  | none => s

/-! ## Restoring -/

def rcFails (rc : Nat) : Bool := rc != rcOk && rc != rcOkFc

/-- The restore functions with one request: of the coefficients of the codec, the pitch, audio,
    DTMF and echo canceller parameters, and the DTMF receiver. -/
def restoreConfig (s : AdjPlci) (active busy : Bool) (first second : AdjustBState) (rc : Nat) : AdjPlci × AdjustInfo :=
  if !active then (s, .good)
  else if s.adjustBState = first then s.wait (if busy then first else second)
  else if s.adjustBState = second && rcFails rc then s.fail .wrongState
  else (s, .good)

def measureRestoreConfig (s : AdjPlci) (i : AdjustIn) (rc : Nat) : AdjPlci × AdjustInfo :=
  if !hasBits s.b1Facilities (facilityMeasure ||| facilityGentone) then (s, .good)
  else if s.adjustBState = .restoreMeasure1 then
    if i.nlBusy then s.wait .restoreMeasure1
    else if i.measureSetup then s.wait .restoreMeasure2
    else (s, .good)
  else if s.adjustBState = .restoreMeasure2 && rcFails rc then s.fail .wrongState
  else (s, .good)

/-- `ADJUST_B_RESTORE_MIXER_5` and `_6`. -/
def mixerWrite (s : AdjPlci) (i : AdjustIn) : AdjPlci × AdjustInfo :=
  let s := s.goTo .restoreMixer6
  match i.writeCoefs with
  | .failed => s.fail .wrongState
  | .waiting => s.wait .restoreMixer6
  | .done => (s.goTo .restoreMixer7, .good)

/-- What the state becomes when the addresses are queried. -/
def mixerQueried (st : AdjustBState) (rc : Nat) : AdjustBState :=
  if rc = rcOk then
    match st with
    | .restoreMixer2 => .restoreMixer3
    | .restoreMixer4 => .restoreMixer5
    | st => st
  else if rc = 0 then
    match st with
    | .restoreMixer2 => .restoreMixer4
    | .restoreMixer3 => .restoreMixer5
    | st => st
  else st

def mixerRestoreConfig (s : AdjPlci) (i : AdjustIn) (rc : Nat) : AdjPlci × AdjustInfo :=
  if !(hasBits s.b1Facilities facilityMixer && i.mixerInvolved) then (s, .good)
  else
    match s.adjustBState with
    | .restoreMixer1 =>
      if hasBits e.f.manufacturerFeatures featureXconnect then s.wait (if i.nlBusy then .restoreMixer1 else .restoreMixer2)
      else s.mixerWrite i
    | .restoreMixer2 | .restoreMixer3 | .restoreMixer4 =>
      if rcFails rc && rc != 0 then s.fail .wrongState
      else
        let st := mixerQueried s.adjustBState rc
        if st ≠ .restoreMixer5 then s.wait st else s.mixerWrite i
    | .restoreMixer5 | .restoreMixer6 => s.mixerWrite i
    | _ => (s, .good)

/-- A restore function is called, and what is behind it, unless it waits or fails. -/
def restored (s : AdjPlci) (config : AdjPlci → AdjPlci × AdjustInfo) (next : AdjPlci → AdjPlci × AdjustInfo) :
    AdjPlci × AdjustInfo :=
  if s.mode modeRestore then
    let r := config s
    if r.2 ≠ .good ∨ r.1.internalCommand ≠ 0 then r else next r.1
  else next s

/-! ## The labels, the last one first -/

def atEnd (s : AdjPlci) : AdjPlci × AdjustInfo := (s.goTo .ended, s.adjustBInfo)

def restoreMeasure (i : AdjustIn) (rc : Nat) (s : AdjPlci) : AdjPlci × AdjustInfo :=
  s.restored (fun s => s.measureRestoreConfig i rc) atEnd

def restoreMixer (i : AdjustIn) (rc : Nat) (s : AdjPlci) : AdjPlci × AdjustInfo :=
  s.restored (fun s => s.mixerRestoreConfig e i rc) fun s => restoreMeasure i rcOk (s.goTo .restoreMeasure1)

def restoreDtmf (i : AdjustIn) (rc : Nat) (s : AdjPlci) : AdjPlci × AdjustInfo :=
  s.restored (fun s => s.restoreConfig (hasBits s.b1Facilities facilityDtmfr) i.nlBusy .restoreDtmf1 .restoreDtmf2 rc) fun s =>
    restoreMixer e i rcOk (s.goTo .restoreMixer1)

def connect5 (i : AdjustIn) (s : AdjPlci) : AdjPlci × AdjustInfo := restoreDtmf e i rcOk (s.goTo .restoreDtmf1)

/-- N_CONNECT has a return code (0xff) and an indication (0), in any order. -/
def connected (st : AdjustBState) (rc : Nat) : AdjustBState :=
  if rc = rcOk then
    match st with
    | .connect2 => .connect3
    | .connect4 => .connect5
    | st => st
  else if rc = 0 then
    match st with
    | .connect2 => .connect4
    | .connect3 => .connect5
    | st => st
  else st

def connect2 (i : AdjustIn) (rc : Nat) (s : AdjPlci) : AdjPlci × AdjustInfo :=
  if rcFails rc && rc != 0 then s.fail .wrongState
  else
    let st := connected s.adjustBState rc
    if st ≠ .connect5 then s.wait st else connect5 e i (s.goTo .connect5)

def connect1 (i : AdjustIn) (s : AdjPlci) : AdjPlci × AdjustInfo :=
  if s.mode modeConnect then
    if i.nlBusy then s.wait s.adjustBState else s.wait .connect2
  else connect2 e i rcOk (s.goTo .connect5)

def assignL232 (i : AdjustIn) (rc : Nat) (s : AdjPlci) : AdjPlci × AdjustInfo :=
  if rcFails rc && rc != rcAssignOk then
    s.fail (if s.rtpOptions e && rc == rcAssign ||| rcWrongCh then .relatedResourceError else .wrongState)
  else if s.mode modeAssignL23 && rc != rcAssignOk then s.wait s.adjustBState
  else if s.mode modeAssignL23 && i.hangup then s.fail .wrongState
  else if s.mode modeUserConnect then ({ s with adjustBRestore := true, adjustBInfo := .good }, s.adjustBInfo)
  else connect1 e i (s.goTo .connect1)

def assignL231 (i : AdjustIn) (s : AdjPlci) : AdjPlci × AdjustInfo :=
  if s.mode modeAssignL23 && s.b1Resource != 0 then
    if i.nlBusy then s.wait s.adjustBState
    else
      let callDir := s.callDir
      let s := if s.mode modeConnect then { s with callDir := s.callDir ||| callDirForceOutgNl } else s
      let (s, info) := s.configureB23 e
      let s := { s with callDir := callDir }
      if info ≠ .success then s.fail (.info info) else s.wait .assignL232
  else assignL232 e i rcAssignOk (s.goTo .assignL232)

def restoreEc (i : AdjustIn) (rc : Nat) (s : AdjPlci) : AdjPlci × AdjustInfo :=
  s.restored (fun s => s.restoreConfig (hasBits s.b1Facilities facilityEc) i.sigReq .restoreEc1 .restoreEc2 rc) fun s =>
    assignL231 e i (s.goTo .assignL231)

def restoreDtmfParameter (i : AdjustIn) (rc : Nat) (s : AdjPlci) : AdjPlci × AdjustInfo :=
  s.restored (fun s => s.restoreConfig (hasBits s.b1Facilities facilityDtmfr && i.dtmfParameter) i.sigReq
    .restoreDtmfParameter1 .restoreDtmfParameter2 rc) fun s => restoreEc e i rcOk (s.goTo .restoreEc1)

def restoreAudioParameter (i : AdjustIn) (rc : Nat) (s : AdjPlci) : AdjPlci × AdjustInfo :=
  s.restored (fun s => s.restoreConfig i.audioSet i.sigReq .restoreAudioParameter1 .restoreAudioParameter2 rc) fun s =>
    restoreDtmfParameter e i rcOk (s.goTo .restoreDtmfParameter1)

def restorePitchParameter (i : AdjustIn) (rc : Nat) (s : AdjPlci) : AdjPlci × AdjustInfo :=
  s.restored (fun s => s.restoreConfig (hasBits s.b1Facilities facilityPitch && i.pitchEnabled) i.sigReq
    .restorePitchParameter1 .restorePitchParameter2 rc) fun s => restoreAudioParameter e i rcOk (s.goTo .restoreAudioParameter1)

def restoreVoice (i : AdjustIn) (rc : Nat) (s : AdjPlci) : AdjPlci × AdjustInfo :=
  s.restored (fun s => s.restoreConfig (hasBits s.b1Facilities facilityVoice && s.tel == .advVoice && i.advSignal) i.sigReq
    .restoreVoice1 .restoreVoice2 rc) fun s => restorePitchParameter e i rcOk (s.goTo .restorePitchParameter1)

def unswitchL12 (i : AdjustIn) (rc : Nat) (s : AdjPlci) : AdjPlci × AdjustInfo :=
  if rcFails rc then s.fail .wrongState else restoreVoice e i rcOk (s.goTo .restoreVoice1)

def unswitchL11 (i : AdjustIn) (s : AdjPlci) : AdjPlci × AdjustInfo :=
  if s.adjustBInfo ≠ .good then
    if i.sigReq then s.wait s.adjustBState
    else
      let (s, info) := s.configureB1 e (if s.b1Resource = 0 then 2 else 0) s.b1Facilities
      if info ≠ .success then s.fail (.info info) else s.wait .unswitchL12
  else unswitchL12 e i rcOk (s.goTo .unswitchL12)

/-- Why the switch failed. -/
def switchInfo (s : AdjPlci) (rc : Nat) : AdjustInfo :=
  if rc = rcOutOfResources ∨ rc = rcOutOfLicenses then
    if s.rtpOptions e then if rc = rcOutOfLicenses then .outOfBLicenses else .outOfBResources
    else if s.b1Resource = 16 ∧ s.adjustBPrevB1Resource ≠ 16 then .outOfFax
    else if hasBits (clear s.adjustBFacilities s.adjustBPrevB1Facilities) facilityMixer then .outOfInterconnectResources
    else .wrongState
  else .wrongState

/-- The message gets the new B protocol too. -/
def keepParms (s : AdjPlci) : AdjPlci :=
  match s.adjustBParmsMsg with
  | some m => if s.mode modeSwitchL1 then { s with adjustBParmsMsg := some (apiSaveMsg (apiLoadMsg s.bProtocol) m) } else s
  | none => s

/-- The PLCI has its old B protocol, resource and facilities again. -/
def rollBack (s : AdjPlci) : AdjPlci :=
  { s.swapParms with
    b1Resource := s.adjustBPrevB1Resource, b1Facilities := s.adjustBPrevB1Facilities, switchFailed := true }

def switchL12 (i : AdjustIn) (rc : Nat) (s : AdjPlci) : AdjPlci × AdjustInfo :=
  let s := if rcFails rc then { s with adjustBInfo := s.switchInfo e rc } else s
  let s := if s.adjustBInfo = .good then s.keepParms else s.rollBack
  unswitchL11 e i (s.goTo .unswitchL11)

def switchL11 (i : AdjustIn) (s : AdjPlci) : AdjPlci × AdjustInfo :=
  if s.mode modeSwitchL1 then
    if i.sigReq then s.wait s.adjustBState
    else
      let (s, info) := s.swapParms.configureB1 e (if s.mode modeNoResource then 2 else 0) s.adjustBFacilities
      let s := { s with adjustBInfo := .info info }
      if info ≠ .success then switchL12 e i rcOk (s.goTo .switchL12) else s.wait .switchL12
  else switchL12 e i rcOk (s.goTo .switchL12)

/-- From `ADJUST_B_SAVE_EC_1` to `ADJUST_B_SAVE_VOICE_1` nothing waits. -/
def saveEc (i : AdjustIn) (s : AdjPlci) : AdjPlci × AdjustInfo := switchL11 e i (s.goTo .switchL11)

def removeL232 (i : AdjustIn) (rc : Nat) (s : AdjPlci) : AdjPlci × AdjustInfo :=
  if rcFails rc then s.fail .wrongState
  else if s.mode modeRemoveL23 && i.nlBusy then s.wait s.adjustBState
  else saveEc e i (s.goTo .saveEc1)

def removeL231 (i : AdjustIn) (s : AdjPlci) : AdjPlci × AdjustInfo :=
  if s.mode modeRemoveL23 && i.nlAssigned then s.wait .removeL232 else removeL232 e i rcOk (s.goTo .removeL232)

/-- From `ADJUST_B_SAVE_MEASURE_1` to `ADJUST_B_SAVE_DTMF_1` nothing waits. -/
def saveMeasure (i : AdjustIn) (s : AdjPlci) : AdjPlci × AdjustInfo := removeL231 e i (s.goTo .removeL231)

/-- Only layer 1 is switched, and with the old B protocol. -/
def onlyFacilities (s : AdjPlci) : Bool :=
  s.adjustBParmsMsg.isNone && s.mode modeSwitchL1
    && clear s.adjustBMode (modeSave ||| modeSwitchL1 ||| modeNoResource ||| modeRestore) == 0

/-- The resource for the facilities. -/
def facilitiesResource (s : AdjPlci) : Nat :=
  if s.adjustBMode = modeNoResource then 0 else addB1Facilities e.f s.toBChannel s.b1Resource s.adjustBFacilities

def start (i : AdjustIn) (s : AdjPlci) : AdjPlci × AdjustInfo :=
  let s := { s with
    adjustBInfo := .good, adjustBPrevB1Resource := s.b1Resource, adjustBPrevB1Facilities := s.b1Facilities,
      switchFailed := false }
  let b1Resource := s.facilitiesResource e
  if s.onlyFacilities && b1Resource == s.b1Resource then (s.adjustB1Facilities e b1Resource s.adjustBFacilities, .good)
  else if s.onlyFacilities && clear s.adjustBFacilities (getB1Facilities e.f b1Resource) != 0 then
    ({ s with switchFailed := true } : AdjPlci).fail .wrongState
  else saveMeasure e i (s.goTo .saveMeasure1)

def adjustBProcess (s : AdjPlci) (i : AdjustIn) : AdjPlci × AdjustInfo :=
  match s.adjustBState with
  | .start => start e i s
  | .saveMeasure1 | .saveMixer1 | .saveDtmf1 => saveMeasure e i s
  | .removeL231 => removeL231 e i s
  | .removeL232 => removeL232 e i i.rc s
  | .saveEc1 | .saveDtmfParameter1 | .saveAudioParameter1 | .savePitchParameter1 | .saveVoice1 => saveEc e i s
  | .switchL11 => switchL11 e i s
  | .switchL12 => switchL12 e i i.rc s
  | .unswitchL11 => unswitchL11 e i s
  | .unswitchL12 => unswitchL12 e i i.rc s
  | .restoreVoice1 | .restoreVoice2 => restoreVoice e i i.rc s
  | .restorePitchParameter1 | .restorePitchParameter2 => restorePitchParameter e i i.rc s
  | .restoreAudioParameter1 | .restoreAudioParameter2 => restoreAudioParameter e i i.rc s
  | .restoreDtmfParameter1 | .restoreDtmfParameter2 => restoreDtmfParameter e i i.rc s
  | .restoreEc1 | .restoreEc2 => restoreEc e i i.rc s
  | .assignL231 => assignL231 e i s
  | .assignL232 => assignL232 e i i.rc s
  | .connect1 => connect1 e i s
  | .connect2 | .connect3 | .connect4 => connect2 e i i.rc s
  | .connect5 => connect5 e i s
  | .restoreDtmf1 | .restoreDtmf2 => restoreDtmf e i i.rc s
  | .restoreMixer1 | .restoreMixer2 | .restoreMixer3 | .restoreMixer4 | .restoreMixer5 | .restoreMixer6 | .restoreMixer7 =>
    restoreMixer e i i.rc s
  | .restoreMeasure1 | .restoreMeasure2 => restoreMeasure i i.rc s
  | .ended => atEnd s

/-! ## Who starts it -/

def adjustB1Resource (s : AdjPlci) (bpMsg : Option ApiSave) (b1Facilities internalCommand : Nat) : AdjPlci :=
  { s with
    adjustBParmsMsg := bpMsg
    adjustBFacilities := b1Facilities
    adjustBCommand := internalCommand
    adjustBMode :=
      if bpMsg.isNone ∧ s.b1Resource = 0 then modeSave ||| modeNoResource ||| modeSwitchL1
      else modeSave ||| modeSwitchL1 ||| modeRestore
    adjustBState := .start }

/-- `SELECT_B_COMMAND_1`. -/
def selectBCommand1 : Nat := 23

/-- The first call of `select_b_command`. `advSignal`: the PLCI is `AdvSignalPLCI`. -/
def selectB (s : AdjPlci) (savedMsg : ApiSave) (advSignal : Bool) : AdjPlci :=
  { s with
    adjustBParmsMsg := some savedMsg
    adjustBFacilities :=
      if s.tel = .advVoice ∧ advSignal then s.b1Facilities ||| facilityVoice else clear s.b1Facilities facilityVoice
    adjustBCommand := selectBCommand1
    adjustBMode :=
      if (savedMsg.parms 0).2 = 0 then modeSave ||| modeRemoveL23 ||| modeSwitchL1 ||| modeNoResource
      else modeSave ||| modeRemoveL23 ||| modeSwitchL1 ||| modeAssignL23 ||| modeUserConnect ||| modeRestore
    adjustBState := .start }

end AdjPlci

/-! ## Runs -/

/-- `ended`: what the last call returned, when the adjustment is over. -/
structure AdjRun where
  s : AdjPlci
  ended : Option AdjustInfo

/-- A command that calls `adjust_b_process` sets `internal_command` to 0 before. -/
def AdjRun.step (e : AdjustEnv) (r : AdjRun) (i : AdjustIn) : AdjRun :=
  if r.ended.isSome then r
  else
    let (s, info) := ({ r.s with internalCommand := 0 } : AdjPlci).adjustBProcess e i
    ⟨s, if info ≠ .good ∨ s.internalCommand = 0 then some info else none⟩

end Divas.Capi
