/-
  Divas.Capi.Connect — outgoing calls: `get_plci_`, `connect_req` and `plci_remove_check`
  (message.c), with the other code that takes a PLCI or a null channel.

  `connect_req` takes a PLCI and then, one after the other, the codec, a null channel and the
  consultation link, before the B protocol of the request is looked at. Every error from
  then on ends at the same exit, which sets `Id` to 0.

  Requests to the card, the parameters of the call and the texts of supplementary services
  are left out, and so is the spoofed request that waits for the codec: they do not change
  what the PLCI holds. `listen_check`, which `plci_remove_check` calls, is the event
  `getPlci`. `reserved` is a ghost field: the entries of `null_plci_table` that the PLCI has
  written since `get_plci_` gave it away.
-/

import Mathlib.Logic.Function.Basic
import Divas.Lib.Run
import Divas.Capi.BProtocol

namespace Divas.Capi

open Divas.Lib.Bytes

/-! ## The adapter -/

/-- `PLCI *`: the adapter and the index in `a->plci`. -/
structure PlciPtr where
  adapter : Nat
  plci : Nat
  deriving DecidableEq, Repr

abbrev State.listening : State := .other 6
abbrev State.localConnect : State := .other 10
abbrev State.advancedVoiceNosig : State := .other 15
abbrev State.resuming : State := .other 16

structure ConnPlci extends BChannel where
  id : Nat
  sigId : Nat
  nlId : Nat
  /-- The Id of the application. -/
  appl : Option Nat
  state : State
  bChannel : Nat
  cIndMaskEmpty : Bool
  relatedConsultPLCI : Option PlciPtr
  reserved : List Nat

structure ConnAdapter where
  maxPlci : Nat
  /-- `max_plci` is a byte. -/
  maxPlci_le : maxPlci ≤ 255
  adapterDisabled : Bool
  vscapiMode : Bool
  features : Features
  nullPlciBase : Nat
  nullPlciChannels : Nat
  nullPlciTable : Nat → Nat
  plci : Nat → ConnPlci
  advCodecFLAG : Bool
  advSignalAppl : Option Nat
  advSignalPLCI : Option Nat
  advCodecPLCI : Option Nat
  scomApplDisable : Bool

def manufacturerFeature2NullPlci : Nat := 0x00000800
def manufacturerFeature2RtpLine : Nat := 0x00010000
def manufacturerFeature2NoClockLine : Nat := 0x00020000
def glExternalEquipmentSupported : Nat := 0x00000002
def glHandsetSupported : Nat := 0x00000004

namespace ConnAdapter

def modify (a : ConnAdapter) (i : Nat) (f : ConnPlci → ConnPlci) : ConnAdapter :=
  { a with plci := Function.update a.plci i (f (a.plci i)) }

/-! ## get_plci_ -/

/-- `for(i=0;i<a->max_plci && a->plci[i].Id;i++)`. -/
def freePlci (a : ConnAdapter) : Option Nat := (List.range a.maxPlci).find? fun i => (a.plci i).id == 0

/-- What `get_plci_` leaves as it was: `b_channel` and the DMA descriptor. -/
def freshPlci (i : Nat) (p : ConnPlci) : ConnPlci where
  tel := .none
  callDir := callDirOut ||| callDirOriginate
  b1Resource := 0
  b1Options := 0
  b2Prot := 0
  b3Prot := 0
  requestedOptions := 0
  requestedOptionsConn := 0
  advNl := false
  rxDmaDescriptor := p.rxDmaDescriptor
  id := (i + 1) % 256
  sigId := 0
  nlId := 0
  appl := none
  state := .idle
  bChannel := p.bChannel
  cIndMaskEmpty := true
  relatedConsultPLCI := none
  reserved := []

def getPlci (a : ConnAdapter) : Option (Nat × ConnAdapter) := a.freePlci.map fun i => (i, a.modify i (freshPlci i))

/-! ## The codec -/

/-- `AdvCodecSupport`, without `hook_listen`. -/
def advCodecSupport (a : ConnAdapter) (i applId : Nat) : Info × ConnAdapter :=
  if hasBits a.features.globalOptions glHandsetSupported then
    if a.advCodecFLAG then
      if a.advSignalAppl ≠ some applId ∨ a.advSignalPLCI ≠ none then (.wrongState, a)
      else (.success, { a.modify i fun p => { p with tel := .advVoice } with advSignalPLCI := some i })
    else
      match a.getPlci with
      | none => (.wrongState, a)
      | some (j, a) =>
        let a := a.modify j fun p => { p with tel := .codecPermanent, state := .advancedVoiceNosig }
        let a := a.modify i fun p => { p with tel := .advVoice }
        (.success,
          { a with advSignalPLCI := some i, advSignalAppl := some applId, advCodecFLAG := true, advCodecPLCI := some j })
  else if hasBits a.features.globalOptions glExternalEquipmentSupported then
    let a := a.modify i fun p => { p with tel := .codec }
    if a.scomApplDisable then (.success, a)
    else
      match a.getPlci with
      | none => (.wrongState, a)
      | some (_, a) => (.success, { a with scomApplDisable := true })
  else (.facilityNotSupported, a)

/-! ## Null channels -/

/-- The channel that is free for a null PLCI. -/
def nullChannel (a : ConnAdapter) : Option Nat :=
  if a.nullPlciBase = 32 ∧ a.nullPlciTable 0 = 0 then some 0
  else ((List.range a.nullPlciChannels).map (a.nullPlciBase + ·)).find? fun channel => a.nullPlciTable channel == 0

/-- `a->null_plci_table[channel] = plci->Id`. -/
def reserve (a : ConnAdapter) (i channel : Nat) : ConnAdapter :=
  let a := { a with nullPlciTable := Function.update a.nullPlciTable channel (a.plci i).id }
  a.modify i fun p => { p with bChannel := channel % 256, reserved := p.reserved ++ [channel] }

end ConnAdapter

/-! ## CONNECT_REQ -/

structure ConnAppl where
  id : Nat
  /-- `access & DIVA_CAPI_APPL_VSCAPI_ACCESS`. -/
  vscapiAccess : Bool

structure ConnectReq where
  /-- The adapter of the controller, if there is one. -/
  a : Option Nat
  /-- `Id & EXT_CONTROLLER`. -/
  ext : Bool
  appl : ConnAppl
  parms : Nat → Parm
  /-- `diva_get_dma_descriptor`. -/
  dma : Int

def privBchannelInfoNoReservation : Nat := 0x0103

namespace ConnectReq

variable (r : ConnectReq)

/-- The calling party number of a facility request `S_CCBS_CALL`. -/
def ccbs : Bool :=
  let p := r.parms 1
  p.length == 7 && 7 ≤ p.byte 0 && p.byte 1 == 67 && p.byte 2 == 67 && p.byte 3 == 66 && p.byte 4 == 83 && p.byte 5 == 2

/-- `LinkLayer`. -/
def linkLayer : Nat := if (r.parms 5).length ≠ 0 then (r.parms 5).word 3 else 0

/-- The additional info, taken apart. -/
def ai : Option (List Parm) := (r.parms 9).parse [.s, .s, .s, .s]

/-- The B channel information. -/
def bChannelInfo : Parm :=
  match r.ai with
  | some aiParms => if (r.parms 9).length ≠ 0 then parm aiParms 0 else Parm.empty
  | none => Parm.empty

/-- An explicit channel identification has at most 35 bytes. -/
def chiWrong : Bool :=
  let p := r.bChannelInfo
  p.byte 3 < 1 || 35 < (if p.byte 4 = 0x18 then p.byte 5 else p.byte 3)

/-- A byte of the channel mask that stands for a channel. -/
def maskByte (i b : Nat) : Bool :=
  b == 0xff || b == 0xfe || b == 0x7e || b == 0xfd || (i == 0 && b == 0xc0)

/-- The channels of the mask, and whether a byte of it is wrong. -/
def maskChannels : List Nat :=
  (List.range (r.bChannelInfo.length - 4)).filter fun i => maskByte i (r.bChannelInfo.byte (i + 5))

def maskWrong : Bool :=
  (List.range (r.bChannelInfo.length - 4)).any fun i =>
    r.bChannelInfo.byte (i + 5) != 0 && !maskByte i (r.bChannelInfo.byte (i + 5))

/-- `ch`, as the message has it. -/
def chOf : Nat :=
  if (r.parms 9).length = 0 then 0
  else if r.ai.isNone then 0xffff
  else if r.bChannelInfo.length ≠ 0 then r.bChannelInfo.word 1
  else 0

/-- A channel mask is given. -/
def masked : Bool :=
  (r.chOf == 3 || r.chOf == privBchannelInfoNoReservation)
    && 7 ≤ r.bChannelInfo.length && r.bChannelInfo.length ≤ 36

/-- `dir`. -/
def dir : Nat := if r.masked then r.bChannelInfo.word 3 else 0

/-- The errors of the additional info. -/
def aiInfo : Info :=
  if (r.parms 9).length = 0 then .success
  else if r.ai.isNone then .wrongMessageFormat
  else if 4 < r.chOf ∧ r.chOf ≠ privBchannelInfoNoReservation then .wrongMessageFormat
  else if r.chOf = 4 ∧ r.chiWrong then .wrongMessageFormat
  else if r.masked ∧ r.maskWrong then .wrongMessageFormat
  else .success

/-- An empty channel mask asks for a null PLCI. -/
def asksNull : Bool := r.masked && r.maskChannels.isEmpty

/-- A mask of the D channel alone. -/
def onlyDChannel : Bool := r.masked && r.maskChannels == [0]

/-- `ch`: a mask of the D channel alone asks for the D channel. -/
def ch : Nat := if r.onlyDChannel ∧ r.aiInfo = .success then 1 else r.chOf

/-- `noCh`: the D channel with a B2 protocol that has no access to it. -/
def noCh : Bool := r.ch == 1 && r.linkLayer != 3 && r.linkLayer != 12 && r.linkLayer != 1 && r.linkLayer != 27

/-- The `Info` behind the channel: a null PLCI is not supported, or there is none left. -/
def channelInfo (a : ConnAdapter) : Info :=
  if !r.asksNull then r.aiInfo
  else if !hasBits a.features.manufacturerFeatures2 manufacturerFeature2NullPlci then .wrongMessageFormat
  else if a.nullChannel.isNone then .outOfPlci
  else r.aiInfo

/-- The null channel that the request takes. -/
def takesNull (a : ConnAdapter) : Option Nat :=
  if r.asksNull && hasBits a.features.manufacturerFeatures2 manufacturerFeature2NullPlci then a.nullChannel else none

/-- The channel of the mask. -/
def takeChannel (a : ConnAdapter) (i : Nat) : ConnAdapter :=
  match r.takesNull a with
  | some channel =>
    let a := a.reserve i channel
    a.modify i fun p => { p with b1Options := p.b1Options ||| arrangementNullPlci, state := .localConnect }
  | none =>
    match r.maskChannels with
    | [] => a
    | channel :: _ =>
      if r.masked && !r.onlyDChannel && r.aiInfo == .success then
        a.modify i fun p => { p with bChannel := channel, state := .localConnect }
      else a

/-! ## The B protocol -/

/-- A call that the signalling entity makes. -/
def signalled : Bool :=
  r.ch == 0 || r.ch == 2 || r.noCh || r.ch == 3 || r.ch == 4 || r.ch == privBchannelInfoNoReservation

/-- `add_b1`, or the D channel. -/
def layer1 (f : Features) (p : ConnPlci) (info : Info) : ConnPlci × Info :=
  if r.signalled ∧ info = .success then
    let (b, info) := addB1 f p.toBChannel (r.parms 5) (if r.noCh ∨ r.ch = 2 then 2 else r.ch) 0
    ({ p with toBChannel := b }, info)
  else if r.ch = 1 then ({ p with sigId := 0xff }, .success)
  else (p, info)

/-- There is a B channel, or the D channel carries it. -/
def asksB23 (p : ConnPlci) : Bool := r.ch != 2 && !r.noCh && (r.ch == 1 || p.b1Resource != 0)

/-- `add_b23`, where there is a channel for it. -/
def layer23 (f : Features) (p : ConnPlci) (info : Info) : ConnPlci × Info :=
  if info = .success ∧ r.asksB23 p then
    let (b, info) := addB23 f r.dma p.toBChannel r.appl.id (r.parms 5)
    ({ p with toBChannel := b }, info)
  else (p, info)

/-- The direction of the call. -/
def directed (p : ConnPlci) : ConnPlci :=
  if r.dir = 1 then
    { p with callDir := clear p.callDir (callDirOut ||| callDirOriginate) ||| (callDirIn ||| callDirAnswer) }
  else p

def bProtocol (f : Features) (p : ConnPlci) (info : Info) : ConnPlci × Info :=
  let (p, info) := r.layer1 f (r.directed p) info
  r.layer23 f p info

end ConnectReq

/-! ## connect_req -/

structure ConnSt where
  adapter : Nat → ConnAdapter
  maxAdapter : Nat
  controllerMap : Nat → Nat

/-- What the application gets: a confirmation with an `Info`, a call that ends at once
    because the adapter is disabled, or nothing yet. -/
inductive Reply where
  | confirm (info : Info)
  | l1Error
  | pending
  deriving DecidableEq

namespace ConnSt

def set (s : ConnSt) (n : Nat) (a : ConnAdapter) : ConnSt := { s with adapter := Function.update s.adapter n a }

def plci (s : ConnSt) (p : PlciPtr) : ConnPlci := (s.adapter p.adapter).plci p.plci

def modify (s : ConnSt) (p : PlciPtr) (f : ConnPlci → ConnPlci) : ConnSt :=
  s.set p.adapter ((s.adapter p.adapter).modify p.plci f)

/-- `MapController`, for a controller without the external bit. -/
def mapController (s : ConnSt) (ctrl : Nat) : Nat :=
  (((List.range s.maxAdapter).map (· + 1)).find? fun i => s.controllerMap i == ctrl).getD 0

/-- The PLCI of the consultation call: `cPLCI` names its controller and its Id. -/
def consultPlci (s : ConnSt) (r : ConnectReq) : Option PlciPtr :=
  let pcplci := r.parms 11
  let consultplci := dword pcplci.info 1 % 0x10000
  let ctrl := s.mapController (consultplci % 0x80)
  if pcplci.length ≠ 4 ∨ consultplci % 0x80 = 0 ∨ ctrl = 0 ∨ s.maxAdapter < ctrl then none
  else
    let a := s.adapter (ctrl - 1)
    match (List.range a.maxPlci).findRev? fun i => (a.plci i).id == consultplci / 256 with
    | none => none
    | some i => if consultplci / 256 ≠ 0 ∧ (a.plci i).state ≠ .idle then some ⟨ctrl - 1, i⟩ else none

/-- Both PLCIs remember each other. -/
def consult (s : ConnSt) (r : ConnectReq) (p : PlciPtr) : ConnSt :=
  match s.consultPlci r with
  | none => s
  | some q =>
    let s := s.modify q fun x => { x with relatedConsultPLCI := some p }
    s.modify p fun x => { x with relatedConsultPLCI := some q }

/-- The adapter with the PLCI that is taken, when there is a free one. -/
def takePlci (s : ConnSt) (r : ConnectReq) (n : Nat) : Option (Nat × ConnAdapter) :=
  (s.adapter n).getPlci.map fun (i, a) =>
    (i, a.modify i fun p => { p with appl := some r.appl.id, callDir := callDirOut ||| callDirOriginate })

/-- The codec of a call on an external controller. -/
def codec (r : ConnectReq) (a : ConnAdapter) (i : Nat) : Info × ConnAdapter :=
  if r.ext then a.advCodecSupport i r.appl.id else (.success, a)

/-- Behind the codec: the channel, and the consultation call. -/
def arrange (s : ConnSt) (r : ConnectReq) (n i : Nat) (a : ConnAdapter) : ConnSt :=
  (s.set n (r.takeChannel a i)).consult r ⟨n, i⟩

/-- The B protocol; what fails ends at the exit that clears the identifier. -/
def finish (s : ConnSt) (r : ConnectReq) (p : PlciPtr) (info : Info) : ConnSt × Reply :=
  let (x, info) := r.bProtocol (s.adapter p.adapter).features (s.plci p) info
  let s := s.modify p fun _ => x
  if info = .success then (s, .pending) else (s.modify p fun x => { x with id := 0 }, .confirm info)

/-- The adapter is there for the application. -/
def admits (s : ConnSt) (r : ConnectReq) : Option Nat :=
  match r.a with
  | none => none
  | some n => if (s.adapter n).vscapiMode && !r.appl.vscapiAccess then none else some n

/-- From the codec on. -/
def proceed (s : ConnSt) (r : ConnectReq) (n i : Nat) (a : ConnAdapter) : ConnSt × Reply :=
  match codec r a i with
  | (.success, a) => (s.arrange r n i a).finish r ⟨n, i⟩ (r.channelInfo a)
  | (_, a) =>
    (s.set n (a.modify i fun p => { p with id := 0 }), .confirm (if r.ccbs then .notAllowed else .wrongIdentifier))

def connectReq (s : ConnSt) (r : ConnectReq) : ConnSt × Reply :=
  match s.admits r with
  | none => (s, .confirm .wrongIdentifier)
  | some n =>
    if (s.adapter n).adapterDisabled then (s, if r.ccbs then .confirm .notAllowed else .l1Error)
    else
      match s.takePlci r n with
      | none => (s, .confirm .outOfPlci)
      | some (i, a) => s.proceed r n i a

end ConnSt

/-! ## manufacturer_req and facility_req -/

/-- `_DI_ASSIGN_PLCI`, when the message is well formed. -/
structure AssignPlci where
  a : Nat
  applId : Nat
  codec : Nat

/-- `S_RESUME`: the parameters may be malformed. -/
structure Resume where
  a : Nat
  ext : Bool
  applId : Nat
  malformed : Bool

namespace ConnAdapter

/-- Data stub and data without a clock: the codecs 4 and 6. -/
def assignNull (a : ConnAdapter) (i codec : Nat) : ConnAdapter :=
  match a.nullChannel with
  | none => a
  | some channel =>
    let feature := if codec = 6 then manufacturerFeature2NoClockLine else manufacturerFeature2RtpLine
    if hasBits a.features.manufacturerFeatures2 feature then a.reserve i channel else a

/-- The PLCI stays, whatever the request is answered with. -/
def assignPlci (a : ConnAdapter) (applId codec : Nat) : ConnAdapter :=
  match a.getPlci with
  | none => a
  | some (i, a) =>
    let a := a.modify i fun p => { p with appl := some applId, state := .localConnect }
    if codec = 4 ∨ codec = 6 then a.assignNull i codec
    else if codec = 2 then (a.advCodecSupport i applId).2
    else a

def resume (a : ConnAdapter) (r : Resume) : ConnAdapter :=
  match a.getPlci with
  | none => a
  | some (i, a) =>
    let a := a.modify i fun p => { p with appl := some r.applId }
    match if r.ext then a.advCodecSupport i r.applId else (.success, a) with
    | (.success, a) =>
      a.modify i fun p => if r.malformed then { p with id := 0 } else { p with state := .resuming }
    | (_, a) => a.modify i fun p => { p with id := 0 }

/-! ## plci_remove_check -/

/-- No network layer entity and no application left, and no signalling entity but the D
    channel. -/
def removable (a : ConnAdapter) (i : Nat) : Bool :=
  let p := a.plci i
  p.nlId == 0 && p.cIndMaskEmpty && (p.sigId == 0 || p.sigId == 0xff)

/-- `plci_remove_complete`. -/
def removeComplete (a : ConnAdapter) (i : Nat) : ConnAdapter :=
  let id := (a.plci i).id
  let a := if id = 0 then a
    else
      { a.modify i fun p => { p with id := 0, state := .idle, appl := none } with
        nullPlciTable := fun c =>
          if c < a.nullPlciBase + a.nullPlciChannels ∧ a.nullPlciTable c = id then 0 else a.nullPlciTable c }
  a.modify i fun p => { p with sigId := 0 }

/-- `CodecIdCheck`. The PLCI of the codec is not the one that owns it, so that its own
    removal does not come here again. -/
def codecIdCheck (a : ConnAdapter) (i : Nat) : ConnAdapter :=
  if a.advSignalPLCI ≠ some i then a
  else
    match a.advCodecPLCI with
    | none => { a with advSignalPLCI := none }
    | some j =>
      if (a.plci j).state = .advancedVoiceNosig then
        let a := if a.removable j then a.removeComplete j else a
        { a with advCodecFLAG := false, advCodecPLCI := none, advSignalAppl := none, advSignalPLCI := none }
      else { a with advSignalPLCI := none }

def plciRemoveCheck (a : ConnAdapter) (i : Nat) : ConnAdapter :=
  if a.removable i then ((if (a.plci i).id = 0 then a else a.codecIdCheck i).removeComplete i) else a

end ConnAdapter

/-! ## Runs -/

/-- What the rest of the program does to a PLCI: any of its fields but `Id` and the
    consultation link. -/
structure PlciFields extends BChannel where
  sigId : Nat
  nlId : Nat
  appl : Option Nat
  state : State
  bChannel : Nat
  cIndMaskEmpty : Bool

/-- What it does to the adapter. -/
structure AdapterFields where
  adapterDisabled : Bool
  advCodecFLAG : Bool
  advSignalAppl : Option Nat
  advSignalPLCI : Option Nat
  advCodecPLCI : Option Nat
  scomApplDisable : Bool

def PlciFields.write (u : PlciFields) (p : ConnPlci) : ConnPlci :=
  { p with
    toBChannel := u.toBChannel, sigId := u.sigId, nlId := u.nlId, appl := u.appl, state := u.state
    bChannel := u.bChannel, cIndMaskEmpty := u.cIndMaskEmpty }

def AdapterFields.write (u : AdapterFields) (a : ConnAdapter) : ConnAdapter :=
  { a with
    adapterDisabled := u.adapterDisabled, advCodecFLAG := u.advCodecFLAG, advSignalAppl := u.advSignalAppl
    advSignalPLCI := u.advSignalPLCI, advCodecPLCI := u.advCodecPLCI, scomApplDisable := u.scomApplDisable }

inductive ConnEv where
  | connectReq (r : ConnectReq)
  | assignPlci (m : AssignPlci)
  | resume (r : Resume)
  /-- Any other caller of `get_plci_`. -/
  | getPlci (n : Nat)
  | plciRemoveCheck (p : PlciPtr)
  | plciFields (p : PlciPtr) (u : PlciFields)
  | adapterFields (n : Nat) (u : AdapterFields)

namespace ConnSt

def onAdapter (s : ConnSt) (n : Nat) (f : ConnAdapter → ConnAdapter) : ConnSt := s.set n (f (s.adapter n))

def step (s : ConnSt) : ConnEv → ConnSt
  | .connectReq r => (s.connectReq r).1
  | .assignPlci m => s.onAdapter m.a fun a => a.assignPlci m.applId m.codec
  | .resume r => s.onAdapter r.a fun a => a.resume r
  | .getPlci n => s.onAdapter n fun a => (a.getPlci.map (·.2)).getD a
  | .plciRemoveCheck p => s.onAdapter p.adapter fun a => a.plciRemoveCheck p.plci
  | .plciFields p u => s.modify p u.write
  | .adapterFields n u => s.onAdapter n u.write

/-- No PLCI is in use, as `memset` leaves them. -/
structure Init (s : ConnSt) : Prop where
  id : ∀ p, (s.plci p).id = 0
  table : ∀ n c, (s.adapter n).nullPlciTable c = 0

end ConnSt

end Divas.Capi
