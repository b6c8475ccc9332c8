/-
  Divas.Capi.BProtocol — the B protocol of a call (message.c): `add_b1` and `add_b23` check
  the parameters of an application against the profile of the adapter.

  Both put parameters into the request buffer of the PLCI. The model has what they decide:
  the `Info` they return and the fields of the PLCI they set; the bytes of CAI, LLC, DLC and
  NLC are left out. `add_b1` and `add_b23` read the structure with `api_parse`, so that what
  lies behind it in the message is the memory around it.

  `diva_get_dma_descriptor` is a parameter: the descriptor the adapter gives, or -1.
-/

import Divas.Capi.Sendf

namespace Divas.Capi

open Divas.Lib.Bytes

/-! ## Parameters of a message -/

/-- What a request is answered with (`capi20.h`). -/
inductive Info where
  | success
  | wrongState
  | wrongIdentifier
  | outOfPlci
  | wrongMessageFormat
  | b1NotSupported
  | b2NotSupported
  | b3NotSupported
  | b1ParmNotSupported
  | b2ParmNotSupported
  | b3ParmNotSupported
  | bStackNotSupported
  | resourceError
  | facilityNotSupported
  | notAllowed
  deriving DecidableEq, Repr

/-- An entry of an `API_PARSE` array: `info` is the memory from the pointer on. -/
structure Parm where
  info : Mem
  length : Nat

namespace Parm

/-- `READ_WORD(&info[k])`. -/
def word (p : Parm) (k : Nat) : Nat := Divas.Lib.Bytes.word p.info k

/-- `info[k]`. -/
def byte (p : Parm) (k : Nat) : Nat := (p.info k).toNat

/-- `api_parse(&info[1], length, format, parms)`. The lengths of numbers stay 0, as they
    are initialised. -/
def parse (p : Parm) (format : List ParseFmt) : Option (List Parm) :=
  let msg := from_ p.info 1
  (apiParse msg p.length format).map fun ps => ps.map fun q => ⟨from_ msg q.info, q.length.getD 0⟩

/-- `api_parse` fails on it. -/
def malformed (p : Parm) (format : List ParseFmt) : Bool := (p.parse format).isNone

def empty : Parm := ⟨fun _ => 0, 0⟩

end Parm

/-- `parms[i]`. -/
def parm (ps : List Parm) (i : Nat) : Parm := ps.getD i Parm.empty

/-! ## The adapter and the PLCI -/

/-- What an adapter supports. -/
structure Features where
  globalOptions : Nat
  b1Protocols : Nat
  b2Protocols : Nat
  b3Protocols : Nat
  privateOptions : Nat
  manufacturerFeatures : Nat
  manufacturerFeatures2 : Nat
  uLaw : Bool
  /-- `diva_xdi_extended_features & DIVA_CAPI_USE_CMA`. -/
  useCma : Bool
  /-- `requested_options_table[appl->Id-1]`. -/
  requestedOptionsTable : Nat → Nat

/-- `PLCI.tel`. -/
inductive Tel where
  | none
  | codec
  | codecPermanent
  | advVoice
  deriving DecidableEq, Repr

/-- The fields of a `PLCI` for its B channel. -/
structure BChannel where
  tel : Tel
  callDir : Nat
  b1Resource : Nat
  b1Options : Nat
  b2Prot : Nat
  b3Prot : Nat
  requestedOptions : Nat
  requestedOptionsConn : Nat
  advNl : Bool
  /-- The descriptor plus 1, or not positive. -/
  rxDmaDescriptor : Int

def callDirOut : Nat := 0x01
def callDirIn : Nat := 0x02
def callDirOriginate : Nat := 0x04
def callDirAnswer : Nat := 0x08
def callDirForceOutgNl : Nat := 0x10

/-- `n & ~mask` of words. -/
def clear (n mask : Nat) : Nat := n &&& (0xffff ^^^ mask)

/-- `n & mask`. -/
def hasBits (n mask : Nat) : Bool := n &&& mask != 0

def privateRtp : Nat := 1
def privateT38 : Nat := 2
def privateV18 : Nat := 4
def privateVown : Nat := 7
def privateListening : Nat := 27
def privateSs7 : Nat := 28
def privatePiafs : Nat := 29

/-- `DSP_CAI_ARRANGEMENT_LINE_FLAG`, `_NULL_PLCI`, `_MASK`. -/
def arrangementLineFlag : Nat := 0x01
def arrangementNullPlci : Nat := 0x02
def arrangementMask : Nat := 0x0f

/-- The private option, or a line side PLCI. -/
def privateOrLine (f : Features) (p : BChannel) (option : Nat) : Bool :=
  f.privateOptions.testBit option || hasBits p.b1Options arrangementLineFlag

/-! ## B1 resources -/

def facilityLocal : Nat := 0x0001
def facilityMixer : Nat := 0x0002
def facilityDtmfx : Nat := 0x0004
def facilityDtmfr : Nat := 0x0008
def facilityVoice : Nat := 0x0010
def facilityEc : Nat := 0x0020
def facilityDtmftone : Nat := 0x0040
def facilityGentone : Nat := 0x0080
def facilityMeasure : Nat := 0x0100
def facilityPitch : Nat := 0x0200
def facilityLinear16 : Nat := 0x0400

def featureHardDtmf : Nat := 0x00000004
def featureSoftDtmfSend : Nat := 0x00000008
def featureSoftDtmfReceive : Nat := 0x00000020
def featureXonOffFlowControl : Nat := 0x00010000

/-- The resource without a mixer, with one, and with a local connection. -/
def mixed (b1Facilities plain mixer loc : Nat) : Nat :=
  if hasBits b1Facilities (facilityLocal ||| facilityLinear16) then loc
  else if hasBits b1Facilities (facilityMixer ||| facilityVoice) then mixer
  else plain

/-- A resource with DTMF: hardware, or what the software does not do. -/
def needsDtmf (f : Features) (p : BChannel) (b1Facilities : Nat) : Bool :=
  let soft := hasBits f.manufacturerFeatures
  (soft featureHardDtmf && !soft featureSoftDtmfReceive && (p.b1Options &&& arrangementMask) != arrangementNullPlci)
    || (hasBits b1Facilities facilityDtmfr && (hasBits b1Facilities facilityMixer || !soft featureSoftDtmfReceive))
    || (hasBits b1Facilities facilityDtmfx && (hasBits b1Facilities facilityMixer || !soft featureSoftDtmfSend))

def addB1Facilities (f : Features) (p : BChannel) (b1Resource b1Facilities : Nat) : Nat :=
  match b1Resource with
  | 5 | 26 => if hasBits b1Facilities (facilityMixer ||| facilityVoice) then 26 else 5
  | 8 | 27 => if hasBits b1Facilities (facilityMixer ||| facilityVoice) then 27 else 8
  | 9 | 20 | 22 | 23 | 24 | 25 | 28 | 29 | 30 | 36 | 37 | 38 | 42 | 43 | 44 =>
    if hasBits b1Facilities facilityEc then mixed b1Facilities 28 29 30
    else if hasBits b1Facilities facilityPitch then mixed b1Facilities 36 37 38
    else if hasBits b1Facilities facilityDtmftone then mixed b1Facilities 36 37 38
    else if hasBits b1Facilities facilityGentone then mixed b1Facilities 36 37 38
    else if hasBits b1Facilities facilityMeasure then mixed b1Facilities 42 43 44
    else if needsDtmf f p b1Facilities then mixed b1Facilities 22 23 24
    else mixed b1Facilities 9 20 25
  | 31 | 32 | 33 => mixed b1Facilities 31 32 33
  | b => b

/-! ## add_b1 -/

def b1NoResource : Nat := 0xffff
def b1V110Async : Nat := 2
def b1V110Sync : Nat := 3
def b1ModemAllNegotiate : Nat := 7
def b1ModemAsync : Nat := 8
def b1ModemSyncHdlc : Nat := 9
def b1Ss7 : Nat := 28
def b1Piafs : Nat := 29
def b1Rtp : Nat := 31
def b2Transparent : Nat := 1
def b2Sdlc : Nat := 2
def b2X75 : Nat := 0
def b2ModemEcCompression : Nat := 7
def b2X75V42bis : Nat := 8
def b2Listening : Nat := 27
def b2Ss7 : Nat := 28
def b2Piafs : Nat := 29
def b2T38 : Nat := 30
def b2Rtp : Nat := 31
def b3Transparent : Nat := 0
def b3T30 : Nat := 4
def b3T30WithExtensions : Nat := 5
def b3Modem : Nat := 7
def b3TransparentIp : Nat := 30
def b3Rtp : Nat := 31

/-- `resource[]`. -/
def resource : List Nat := [5, 9, 13, 12, 16, 39, 9, 17, 17, 18]

/-- The rates of V.110. -/
def v110Rates : List Nat :=
  [0, 56000, 50, 75, 110, 150, 200, 300, 600, 1200, 2400, 4800, 7200, 9600, 12000, 24000, 14400, 19200, 28800, 38400,
    48000, 76, 1201, 56001]

def isModem (b1 : Nat) : Bool := b1 == b1ModemAllNegotiate || b1 == b1ModemAsync || b1 == b1ModemSyncHdlc

/-- The structure with a global configuration, or without one. -/
def parseB (bp : Parm) : Option (List Parm) :=
  match bp.parse [.w, .w, .w, .s, .s, .s, .b] with
  | none => bp.parse [.w, .w, .w, .s, .s, .s]
  | some _ => bp.parse [.w, .w, .w, .s, .s, .s, .s]

/-- The global configuration sets the direction. -/
def globalConfig (bp6 : Parm) (callDir : Nat) : Option Nat :=
  if bp6.length = 0 then some callDir
  else
    (bp6.parse [.w]).map fun ps =>
      match (parm ps 0).word 0 with
      | 1 => clear callDir callDirAnswer ||| callDirOriginate
      | 2 => clear callDir callDirOriginate ||| callDirAnswer
      | _ => callDir

/-- The direction of the B channel follows that of the call. -/
def direct (callDir : Nat) : Nat :=
  let callDir := clear callDir (callDirOriginate ||| callDirAnswer)
  if hasBits callDir callDirOut then callDir ||| callDirOriginate
  else if hasBits callDir callDirIn then callDir ||| callDirAnswer
  else callDir

/-- RTP payload that the transparent resource carries. -/
def rtpTransparent (f : Features) (p : BChannel) (bps : List Parm) : Bool :=
  let b1Config := parm bps 3
  (parm bps 1).word 0 == b2Transparent && (parm bps 2).word 0 == b3Transparent && !hasBits p.b1Options arrangementLineFlag
    && 6 ≤ b1Config.length && 4 ≤ b1Config.byte 2
    && ((b1Config.byte 1 == 0 && f.uLaw) || (b1Config.byte 1 == 8 && !f.uLaw) || b1Config.byte 1 == 1)
    && (b1Config.word 3 &&& 0x010f) == 0x010f

def rtpResource (f : Features) (p : BChannel) (bps : List Parm) (b1Facilities : Nat) : Nat :=
  if rtpTransparent f p bps then
    let i := if (parm bps 3).byte 1 = 1 then b1Facilities ||| facilityLinear16 else b1Facilities
    addB1Facilities f p 9 (clear i facilityVoice)
  else addB1Facilities f p 31 (clear b1Facilities facilityVoice)

/-- The profile has the B1 protocol; V.110 at 56 k is HDLC. -/
def b1Supported (f : Features) (bps : List Parm) : Bool :=
  let b1 := (parm bps 0).word 0
  let b1Config := parm bps 3
  b1 < 32 && (f.b1Protocols.testBit b1
    || (b1 == b1V110Sync && f.b1Protocols.testBit 0
      && (b1Config.length == 0 || b1Config.word 1 == 0 || b1Config.word 1 == 56000)))

/-- The options that the modem configuration asks for. -/
def modemOptions (f : Features) (p : BChannel) (mdmCfg : List Parm) : Nat :=
  let w := (parm mdmCfg 5).word 0
  let o := if f.privateOptions.testBit privateV18 && hasBits w 0x8000 then p.requestedOptions ||| 2 ^ privateV18
    else p.requestedOptions
  if hasBits w 0x4000 then o ||| 2 ^ privateVown else o

/-- The B1 protocols of the profile. -/
def addB1Profile (f : Features) (p : BChannel) (bps : List Parm) (b1Facilities : Nat) : BChannel × Info :=
  let b1 := (parm bps 0).word 0
  let b1Config := parm bps 3
  if !b1Supported f bps then (p, .b1NotSupported)
  else
    let p := { p with b1Resource := addB1Facilities f p (resource.getD b1 0) (clear b1Facilities facilityVoice) }
    if isModem b1 && b1Config.length != 0 then
      match b1Config.parse [.w, .w, .w, .w, .w, .w] with
      | none => (p, .wrongMessageFormat)
      | some mdmCfg => ({ p with requestedOptions := modemOptions f p mdmCfg }, .success)
    else if (b1 == b1V110Async || b1 == b1V110Sync) && b1Config.length != 0 && !v110Rates.contains (b1Config.word 1) then
      (p, .b1ParmNotSupported)
    else (p, .success)

def addB1Protocol (f : Features) (p : BChannel) (bps : List Parm) (b1Facilities : Nat) : BChannel × Info :=
  let b1 := (parm bps 0).word 0
  let plain := clear b1Facilities facilityVoice
  if b1 = b1NoResource then ({ p with b1Resource := 0 }, .success)
  else if b1 = b1Rtp ∧ privateOrLine f p privateRtp then
    ({ p with b1Resource := rtpResource f p bps b1Facilities }, .success)
  else if (parm bps 1).word 0 = b2T38 ∧ privateOrLine f p privateT38 then
    ({ p with b1Resource := addB1Facilities f p 16 plain }, .success)
  else if b1 = b1Piafs ∧ f.privateOptions.testBit privatePiafs then
    ({ p with b1Resource := addB1Facilities f p 35 plain }, .success)
  else if b1 = b1Ss7 ∧ f.privateOptions.testBit privateSs7 then
    ({ p with b1Resource := addB1Facilities f p 40 plain }, .success)
  else addB1Profile f p bps b1Facilities

def addB1 (f : Features) (p : BChannel) (bp : Parm) (bChannelInfo b1Facilities : Nat) : BChannel × Info :=
  if bChannelInfo = 2 then ({ p with b1Resource := 0 }, .success)
  else
    match p.tel with
    | .codecPermanent => (p, .success)
    | .codec => ({ p with b1Resource := 1 }, .success)
    | .advVoice => ({ p with b1Resource := addB1Facilities f p 9 (b1Facilities ||| facilityVoice) }, .success)
    | .none =>
      let p := { p with callDir := direct p.callDir }
      if bp.length = 0 then ({ p with b1Resource := 5 }, .success)
      else if 256 < bp.length then (p, .wrongMessageFormat)
      else
        match parseB bp with
        | none => (p, .wrongMessageFormat)
        | some bps =>
          match globalConfig (parm bps 6) p.callDir with
          | none => (p, .wrongMessageFormat)
          | some callDir => addB1Protocol f { p with callDir } bps b1Facilities

/-! ## add_b23 -/

def x75V42bis : Nat := 12
def v120L2 : Nat := 8
def v120V42bis : Nat := 15
def listener : Nat := 27
def mtp2 : Nat := 28
def piafsCrc : Nat := 29
def lapd : Nat := 6

def llc2Out : List Nat := [1, 2, 4, 6, 2, 0, 0, 0, x75V42bis, v120L2, v120V42bis, v120L2, 6]
def llc2In : List Nat := [1, 3, 4, 6, 3, 0, 0, 0, x75V42bis, v120L2, v120V42bis, v120L2, 6]

/-- `llc[1]`: layer 2. -/
def layer2 (p : BChannel) (b2 : Nat) : Nat :=
  if b2 = b2Piafs then piafsCrc
  else if b2 = b2Ss7 then mtp2
  else if b2 = b2Listening then listener
  else (if hasBits p.callDir (callDirOriginate ||| callDirForceOutgNl) then llc2Out else llc2In).getD b2 0

/-- The first error of the B2 configuration. -/
def b2Config (l2 b3 : Nat) (c : Parm) : Info :=
  if l2 = piafsCrc then
    if b3 ≠ b3Transparent then .bStackNotSupported
    else if c.length ≠ 0 ∧ c.malformed [.b, .w, .w, .w] then .wrongMessageFormat
    else .success
  else if l2 = mtp2 then
    if b3 ≠ b3Transparent then .bStackNotSupported
    else if c.length ≠ 0 ∧ c.malformed [.b] then .wrongMessageFormat
    else if c.length ≠ 0 ∧ c.length ≠ 1 then .wrongMessageFormat
    else .success
  else if l2 = listener then
    if c.length ≠ 0 ∧ c.malformed [.w, .w, .s] then .wrongMessageFormat else .success
  else if l2 = v120L2 ∨ l2 = v120V42bis then
    if b3 ≠ b3Transparent then .bStackNotSupported
    else if c.length = 0 then .success
    else if l2 = v120V42bis ∧ c.malformed [.b, .b, .b, .b, .w, .w, .w] then .wrongMessageFormat
    else if c.byte 3 &&& 0x88 ≠ 0x80 then .b2ParmNotSupported
    else .success
  else if c.length = 0 then .success
  else if c.malformed (if l2 = x75V42bis then [.b, .b, .b, .b, .w, .w, .w] else [.b, .b, .b, .b, .s]) then
    .wrongMessageFormat
  else if l2 = lapd then
    if 5 < c.length then .b2ParmNotSupported else .success
  else if c.byte 3 ≠ 8 ∧ c.byte 3 ≠ 128 then .b2ParmNotSupported
  -- the window against the modulus
  else if c.byte 3 - 1 < c.byte 4 then .b2ParmNotSupported
  else .success

/-- The first error of the B3 configuration: of a fax, else of X.25. -/
def b3Config (b3 : Nat) (c : Parm) : Info :=
  if c.length = 0 then .success
  else if b3 = b3T30 ∨ b3 = b3T30WithExtensions then
    if c.malformed [.w, .w, .s, .s] then .wrongMessageFormat else .success
  else if c.length ≠ 16 ∧ c.length ≠ 18 then .b3ParmNotSupported
  else if c.word 13 ≠ 8 ∧ c.word 13 ≠ 128 then .b3ParmNotSupported
  else if c.byte 13 ≤ c.word 15 then .b3ParmNotSupported
  else if c.length = 18 ∧ c.byte 17 ≠ 1 then .b3ParmNotSupported
  else .success

/-- `rx_dma_descriptor`, asked for where there is none yet. -/
def takeDma (f : Features) (dma : Int) (p : BChannel) : BChannel :=
  if hasBits f.manufacturerFeatures featureXonOffFlowControl && f.useCma && p.rxDmaDescriptor ≤ 0 then
    { p with rxDmaDescriptor := if 0 ≤ dma then dma + 1 else dma }
  else p

/-- V.18 or VOWN are asked for, by anybody. -/
def modemExtensions (f : Features) (p : BChannel) (applId : Nat) : Bool :=
  hasBits (p.requestedOptionsConn ||| p.requestedOptions ||| f.requestedOptionsTable (applId - 1))
    (2 ^ privateV18 ||| 2 ^ privateVown)

/-- The SDLC part of the B2 configuration of a modem. -/
def sdlcMalformed (c : Parm) : Bool :=
  match c.parse [.w, .s, .s] with
  | none => false
  | some mdmCfg => (parm mdmCfg 2).length != 0 && (parm mdmCfg 2).malformed [.b, .b, .b, .b, .s]

def addModemB23 (f : Features) (dma : Int) (p : BChannel) (applId : Nat) (bps : List Parm) : BChannel × Info :=
  let b1 := (parm bps 0).word 0
  let b2 := (parm bps 1).word 0
  let b3 := (parm bps 2).word 0
  let c := parm bps 4
  if (b1 = b1ModemAllNegotiate ∧ b2 ≠ b2ModemEcCompression) ∨ (b1 ≠ b1ModemAllNegotiate ∧ b2 ≠ b2Transparent) then
    (p, .bStackNotSupported)
  else if b3 ≠ b3Modem ∧ b3 ≠ b3Transparent then (p, .bStackNotSupported)
  else
    let p := takeDma f dma { p with b2Prot := b2, b3Prot := b3 }
    if b2 = b2ModemEcCompression ∧ c.length ≠ 0 then
      if c.malformed [.w] then (p, .wrongMessageFormat)
      else if modemExtensions f p applId && !c.malformed [.w, .s] && sdlcMalformed c then (p, .wrongMessageFormat)
      else (p, .success)
    else (p, .success)

def b2Supported (f : Features) (b2 : Nat) : Bool :=
  b2 < 32 && (f.b2Protocols.testBit b2 || (b2 == b2Piafs && f.privateOptions.testBit privatePiafs)
    || (b2 == b2Ss7 && f.privateOptions.testBit privateSs7)
    || (b2 == b2Listening && f.privateOptions.testBit privateListening))

def b3Supported (f : Features) (b3 : Nat) : Bool := b3 < 32 && f.b3Protocols.testBit b3

/-- A modem, unless SDLC or X.75 runs on top of the synchronous one. -/
def modemB23 (b1 b2 : Nat) : Bool :=
  b2 != b2Sdlc && !(b1 == b1ModemSyncHdlc && (b2 == b2X75 || b2 == b2X75V42bis)) && isModem b1

/-- The B2 and B3 protocols of the profile. -/
def addB23Profile (f : Features) (dma : Int) (p : BChannel) (applId : Nat) (bps : List Parm) : BChannel × Info :=
  let b1 := (parm bps 0).word 0
  let b2 := (parm bps 1).word 0
  let b3 := (parm bps 2).word 0
  if !b2Supported f b2 then (p, .b2NotSupported)
  else if !b3Supported f b3 then (p, .b3NotSupported)
  else if modemB23 b1 b2 then addModemB23 f dma p applId bps
  else
    let p := { p with b2Prot := b2, b3Prot := b3 }
    match b2Config (layer2 p b2) b3 (parm bps 4) with
    | .success => (p, b3Config b3 (parm bps 5))
    | e => (p, e)

def addB23Protocol (f : Features) (dma : Int) (p : BChannel) (applId : Nat) (bps : List Parm) : BChannel × Info :=
  let b2 := (parm bps 1).word 0
  let b3 := (parm bps 2).word 0
  if b2 = b2Rtp ∧ b3 = b3Rtp ∧ privateOrLine f p privateRtp then ({ p with b2Prot := b2, b3Prot := b3 }, .success)
  else if b2 = b2T38 ∧ (b3 = b3TransparentIp ∨ b3 = b3Rtp) ∧ privateOrLine f p privateT38 then
    ({ p with b2Prot := b2, b3Prot := b3 }, .success)
  else addB23Profile f dma p applId bps

/-- A codec needs a transparent B channel. -/
def codecB23 (p : BChannel) (bps : List Parm) : Option BChannel :=
  match p.tel with
  | .advVoice =>
    if (parm bps 1).word 0 ≠ b2Transparent ∨ (parm bps 2).word 0 ≠ b3Transparent then none
    else some { p with advNl := true }
  | .none => some p
  | _ => none

def addB23 (f : Features) (dma : Int) (p : BChannel) (applId : Nat) (bp : Parm) : BChannel × Info :=
  let p := takeDma f dma p
  if bp.length = 0 then
    if p.tel ≠ .none then ({ p with advNl := true, b2Prot := 1, b3Prot := 0 }, .success)
    else ({ p with b2Prot := 0, b3Prot := 0 }, .success)
  else if 256 < bp.length then (p, .wrongMessageFormat)
  else
    match parseB bp with
    | none => (p, .wrongMessageFormat)
    | some bps =>
      match codecB23 p bps with
      | none => (p, .b2NotSupported)
      | some p =>
        match globalConfig (parm bps 6) p.callDir with
        | none => (p, .wrongMessageFormat)
        | some callDir => addB23Protocol f dma { p with callDir } applId bps

end Divas.Capi
