/-
  Divas.Capi.Xconnect — the coefficients of the line interconnect go to the adapter
  (`xconnect_write_coefs_process`, message.c).

  Each entry of `coef_table` has the coefficients that are wanted in its low nibble and
  those that were written in its high one. `xconnect_write_coefs_process` is called when the
  last request was answered, until it makes no request. For a channel `i` of an XCONNECT
  adapter it goes over the source channels from `li_write_channel` on, passes those that
  have nothing to write (`skips`), and writes a record of 16 bytes for each coefficient that
  differs, as long as the request buffer has room; the next call goes on in the same
  channel. At last it sends the mixer coefficients.

  Each channel has its adapter in its entry; an adapter is told by its `li_base`.
-/

import Divas.Lib.Bytes
import Divas.Capi.Mixer

namespace Divas.Capi

open Divas.Lib.Bytes Divas.Lib.Flags

def internalReqBufferSize : Nat := 272

def mixerBchannelsBri : Nat := 2
def mixerChannelsBri : Nat := 4
def mixerChannelsPri : Nat := 32

def udataRequestSetMixerCoefsBri : UInt8 := 24
def udataRequestSetMixerCoefsPriSync : UInt8 := 25
def udataRequestXconnectTo : UInt8 := 29

def xconnectChannelPortPc : Nat := 0x8000

def mixerFeatureEnableTxData : Nat := 0x0001
def mixerFeatureEnableRxData : Nat := 0x0002
def mixerFeatureUnusedSourcePc : Nat := 0x0008

def mixerCoefLineFromPcFlag : UInt8 := 0x20
def mixerCoefLineToPcFlag : UInt8 := 0x40
def mixerCoefLineRowFlag : UInt8 := 0x80

/-- `ADV_VOICE_NEW_COEF_BASE`. -/
def advVoiceNewCoefBase : Nat := 6 * 2

/-! ## The tables -/

structure XconnectProg where
  mask : UInt8
  fromPc : Bool
  toPc : Bool
  deriving DecidableEq

def xconnectWriteProg : List XconnectProg :=
  [⟨liCoefChCh, false, false⟩, ⟨liCoefChPc, false, true⟩, ⟨liCoefPcCh, true, false⟩, ⟨liCoefPcPc, true, true⟩]

structure MixerProgPri where
  mask : UInt8
  lineFlags : UInt8

def mixerWriteProgPri : List MixerProgPri :=
  [⟨liCoefChCh, 0⟩, ⟨liCoefChPc, mixerCoefLineToPcFlag⟩, ⟨liCoefPcCh, mixerCoefLineFromPcFlag⟩,
    ⟨liCoefPcPc, mixerCoefLineToPcFlag ||| mixerCoefLineFromPcFlag⟩]

structure MixerProgBri where
  fromCh : Nat
  toCh : Nat
  mask : UInt8
  xconnectOverride : UInt8

def mixerWriteProgBri : List MixerProgBri :=
  [⟨0, 0, liCoefChCh, 0x01⟩, ⟨1, 0, liCoefChCh, 0x01⟩, ⟨0, 0, liCoefPcCh, 0x80⟩, ⟨1, 0, liCoefPcCh, 0x01⟩,
    ⟨2, 0, liCoefChCh, 0x00⟩, ⟨3, 0, liCoefChCh, 0x00⟩, ⟨0, 0, liCoefChPc, 0x80⟩, ⟨1, 0, liCoefChPc, 0x01⟩,
    ⟨0, 0, liCoefPcPc, 0x01⟩, ⟨1, 0, liCoefPcPc, 0x01⟩, ⟨2, 0, liCoefChPc, 0x00⟩, ⟨3, 0, liCoefChPc, 0x00⟩,
    ⟨0, 2, liCoefChCh, 0x00⟩, ⟨1, 2, liCoefChCh, 0x00⟩, ⟨0, 2, liCoefPcCh, 0x00⟩, ⟨1, 2, liCoefPcCh, 0x00⟩,
    ⟨2, 2, liCoefChCh, 0x00⟩, ⟨3, 2, liCoefChCh, 0x00⟩, ⟨1, 1, liCoefChCh, 0x01⟩, ⟨0, 1, liCoefChCh, 0x01⟩,
    ⟨1, 1, liCoefPcCh, 0x80⟩, ⟨0, 1, liCoefPcCh, 0x01⟩, ⟨3, 1, liCoefChCh, 0x00⟩, ⟨2, 1, liCoefChCh, 0x00⟩,
    ⟨1, 1, liCoefChPc, 0x80⟩, ⟨0, 1, liCoefChPc, 0x01⟩, ⟨1, 1, liCoefPcPc, 0x01⟩, ⟨0, 1, liCoefPcPc, 0x01⟩,
    ⟨3, 1, liCoefChPc, 0x00⟩, ⟨2, 1, liCoefChPc, 0x00⟩, ⟨1, 3, liCoefChCh, 0x00⟩, ⟨0, 3, liCoefChCh, 0x00⟩,
    ⟨1, 3, liCoefPcCh, 0x00⟩, ⟨0, 3, liCoefPcCh, 0x00⟩, ⟨3, 3, liCoefChCh, 0x00⟩, ⟨2, 3, liCoefChCh, 0x00⟩]

/-- `mixer_swapped_index_bri`. -/
def mixerSwappedIndexBri (n : Nat) : Nat := (n + 18) % 36

/-! ## The state -/

structure XconnectTransferAddress where
  cardId : UInt32
  low : UInt32
  high : UInt32

def XconnectTransferAddress.given (t : XconnectTransferAddress) : Bool := (t.low ||| t.high ||| t.cardId) != 0

structure XAdapter where
  liPri : Bool
  uLaw : Bool
  xconnect : Bool
  dmaconnect : Bool
  liQueryChannelSupported : Bool
  liBase : Nat

/-- `LI_CONFIG`, less the rows. -/
structure XChannel where
  adapter : XAdapter
  sendB : XconnectTransferAddress
  sendPc : XconnectTransferAddress
  sourceInfoB : UInt8
  sourceInfoPc : UInt8
  channel : UInt8

/-- `AdvSignalPLCI` of the adapter: it is there with `ADV_VOICE`, it is the PLCI. -/
structure AdvVoice where
  signal : Bool
  own : Bool
  coefLength : Nat
  coefBuffer : Mem

structure XSt where
  liTotalChannels : Nat
  table : Nat → XChannel
  coefTable : Nat → Nat → UInt8
  /-- `plci->adapter`. -/
  a : XAdapter
  voice : AdvVoice
  liBchannelId : Nat
  liChannelBits : UInt8
  liWriteCommand : Nat
  liWriteChannel : Nat
  internalCommand : Nat

/-- The coefficients that differ. -/
def coefDiff (c : UInt8) : UInt8 := (c &&& 0xf) ^^^ (c >>> (4 : UInt8))

/-- `coef_table[j] ^= mask << 4` in row `i`. -/
def toggle (coef : Nat → Nat → UInt8) (i j : Nat) (mask : UInt8) : Nat → Nat → UInt8 :=
  Function.update coef i (Function.update (coef i) j (coef i j ^^^ (mask <<< (4 : UInt8))))

namespace XSt

/-- `i`. -/
def own (s : XSt) : Nat := (s.a.liBase + s.liBchannelId + 65535) % 65536

/-! ## The channels that are passed -/

/-- What may be written to channel `i`, by its addresses. -/
def destMask (s : XSt) (i : Nat) : UInt8 :=
  let c := s.table i
  if has c.channel liChannelAddressesSet then
    (if c.sendB.given then liCoefAll else liCoefChPc ||| liCoefPcPc)
      &&& (if c.sendPc.given then liCoefAll else liCoefChCh ||| liCoefPcCh)
  else 0

/-- What channel `j` may send, by its addresses. -/
def sourceMask (s : XSt) (j : Nat) : UInt8 :=
  let c := s.table j
  (if c.sendB.given then liCoefAll else liCoefPcCh ||| liCoefPcPc)
    &&& (if c.sendPc.given then liCoefAll else liCoefChCh ||| liCoefChPc)

/-- An IC channel of a BRI adapter. -/
def icChannel (s : XSt) (j : Nat) : Bool :=
  let a := (s.table j).adapter
  !a.liPri && decide (a.liBase + mixerBchannelsBri ≤ j) && decide (j < a.liBase + mixerChannelsBri)

/-- The channels are on different cards, without DMACONNECT on both sides. -/
def cardsApart (s : XSt) (i j : Nat) : Bool :=
  (s.table j).sendB.cardId != (s.table i).sendB.cardId && (!s.a.dmaconnect || !(s.table j).adapter.dmaconnect)

/-- `li_config_table[j].adapter->li_base != a->li_base`. -/
def otherAdapter (s : XSt) (j : Nat) : Bool := (s.table j).adapter.liBase != s.a.liBase

/-- The condition of the loops that pass a channel. -/
def skips (s : XSt) (i j : Nat) (r : UInt8) : Bool :=
  r == 0
    || !has (s.table j).channel liChannelAddressesSet
    || s.icChannel j
    || s.cardsApart i j
    || (s.otherAdapter j && (r &&& s.destMask i &&& s.sourceMask j) == 0)

/-- `j++; if (j < li_total_channels) r = ..`. -/
def advance (s : XSt) (coef : Nat → Nat → UInt8) (i j : Nat) (r : UInt8) : Nat × UInt8 :=
  (j + 1, if j + 1 < s.liTotalChannels then coefDiff (coef i (j + 1)) else r)

/-- The loop; `n` is what is left of the channels. -/
def scan (s : XSt) (coef : Nat → Nat → UInt8) (i : Nat) : Nat → Nat × UInt8 → Nat × UInt8
  | 0, x => x
  | n + 1, (j, r) =>
    if j < s.liTotalChannels ∧ s.skips i j r = true then s.scan coef i n (s.advance coef i j r) else (j, r)

/-! ## The records -/

def toCh (s : XSt) : Nat :=
  if s.a.liPri then s.liBchannelId - 1 else if s.a.liQueryChannelSupported then s.liBchannelId + 2 else 0

/-- The value of a coefficient. -/
def coefValue (s : XSt) (i j : Nat) (wanted : Bool) : UInt8 :=
  if wanted = false then 0x01
  else if (s.table i).adapter.uLaw then if (s.table j).adapter.uLaw then 0x80 else 0x86
  else if (s.table j).adapter.uLaw then 0x7a else 0x80

def record (s : XSt) (i j : Nat) (e : XconnectProg) (coef : UInt8) : List UInt8 :=
  let c := s.table j
  let transferAddress := if e.fromPc then c.sendPc else c.sendB
  let sourceInfo := if e.fromPc then c.sourceInfoPc else c.sourceInfoB
  let w := if e.toPc then s.toCh ||| xconnectChannelPortPc else s.toCh
  leBytes 4 transferAddress.cardId.toNat ++ leBytes 4 transferAddress.high.toNat ++ leBytes 4 transferAddress.low.toNat
    ++ leBytes 2 w ++ [s.coefValue i j (has coef e.mask), sourceInfo]

/-- The request buffer and the table while they are written. -/
structure Filling where
  p : List UInt8
  coef : Nat → Nat → UInt8

/-- `(p - plci->internal_req_buffer) + 16 < INTERNAL_REQ_BUFFER_SIZE`. -/
def Filling.room (f : Filling) : Bool := f.p.length + 16 < internalReqBufferSize

def put (s : XSt) (i j : Nat) (e : XconnectProg) (f : Filling) : Filling :=
  ⟨f.p ++ s.record i j e (f.coef i j), toggle f.coef i j e.mask⟩

/-- The loop over `xconnect_write_prog`: what is left of it, and the buffer. -/
def writeProg (s : XSt) (i j : Nat) (r : UInt8) : List XconnectProg → Filling → List XconnectProg × Filling
  | [], f => ([], f)
  | e :: es, f =>
    let f := if has r e.mask then s.put i j e f else f
    if es ≠ [] ∧ f.room = true then s.writeProg i j r es f else (es, f)

/-- The outer loop; `n` is what is left of the channels. -/
def fill (s : XSt) (i : Nat) : Nat → Nat × UInt8 → Filling → Nat × Filling
  | 0, (j, _), f => (j, f)
  | n + 1, (j, r), f =>
    let r := if s.otherAdapter j then r &&& s.destMask i &&& s.sourceMask j else r
    let (es, f) := s.writeProg i j r xconnectWriteProg f
    let (j, r) := if es = [] then s.scan f.coef i s.liTotalChannels (s.advance f.coef i j r) else (j, r)
    if j < s.liTotalChannels ∧ f.room = true then s.fill i n (j, r) f else (j, f)

/-! ## The mixer coefficients -/

/-- The feature word of the channel. -/
def features (s : XSt) (i w : Nat) : List UInt8 :=
  let c := (s.table i).channel
  let w := if has c liChannelTxData then w ||| mixerFeatureEnableTxData else w
  let w := if has c liChannelRxData then w ||| mixerFeatureEnableRxData else w
  let w := if !has c liChannelUsedSourcePc then w ||| mixerFeatureUnusedSourcePc else w
  leBytes 2 w

/-- The coefficients of advanced voice, for a channel that is not involved. -/
def voiceByte (s : XSt) (n : Nat) : UInt8 :=
  let w := if s.voice.own then n else mixerSwappedIndexBri n
  if s.voice.signal && decide (advVoiceNewCoefBase + 2 + w < s.voice.coefLength) then
    s.voice.coefBuffer (advVoiceNewCoefBase + 2 + w)
  else 0

def chMap (s : XSt) (ch : Nat) : Nat := if s.liBchannelId = 2 then ch ^^^ 1 else ch

/-- A turn of the loop over `mixer_write_prog_bri`. `overrides` says that the XCONNECT
    channels take their coefficients from the table of the loop. -/
def briTurn (s : XSt) (overrides : Bool) (f : Filling) (x : MixerProgBri × Nat) : Filling :=
  let (e, n) := x
  let i := s.a.liBase + s.chMap e.toCh
  let j := s.a.liBase + s.chMap e.fromCh
  if has ((s.table i).channel &&& (s.table j).channel) liChannelInvolved then
    let wanted : UInt8 := if has (f.coef i j) e.mask then 0x80 else 0x01
    let byte := if overrides && e.xconnectOverride != 0 then e.xconnectOverride else wanted
    let writes := !overrides || decide (mixerBchannelsBri ≤ s.chMap e.toCh) || decide (mixerBchannelsBri ≤ s.chMap e.fromCh)
    ⟨f.p ++ [byte], if writes then toggle f.coef i j (coefDiff (f.coef i j) &&& e.mask) else f.coef⟩
  else ⟨f.p ++ [s.voiceByte n], f.coef⟩

def mixerBri (s : XSt) (overrides : Bool) (i : Nat) : Filling :=
  let w := if s.voice.signal && s.voice.own && decide (advVoiceNewCoefBase + 2 ≤ s.voice.coefLength) then
      word s.voice.coefBuffer advVoiceNewCoefBase
    else 0
  let f : Filling := ⟨udataRequestSetMixerCoefsBri :: s.features i w, s.coefTable⟩
  if s.liBchannelId ≤ mixerChannelsBri then mixerWriteProgBri.zipIdx.foldl (s.briTurn overrides) f else f

/-- A coefficient in a line of the PRI mixer. -/
def priCoef (mask : UInt8) (f : Filling) (x : Nat × Nat) : Filling :=
  let (i, j) := x
  if has (coefDiff (f.coef i j)) mask then
    ⟨f.p ++ [if has (f.coef i j) mask then 0x80 else 0x01], toggle f.coef i j mask⟩
  else ⟨f.p ++ [0x00], f.coef⟩

/-- The column and the row of channel `i`. -/
def priTurn (s : XSt) (i : Nat) (f : Filling) (e : MixerProgPri) : Filling :=
  let line := UInt8.ofNat (s.liBchannelId - 1) ||| e.lineFlags
  let channels := (List.range mixerChannelsPri).map (s.a.liBase + ·)
  let f := (channels.map (i, ·)).foldl (priCoef e.mask) ⟨f.p ++ [line], f.coef⟩
  (channels.map (·, i)).foldl (priCoef e.mask) ⟨f.p ++ [line ||| mixerCoefLineRowFlag], f.coef⟩

def priHeader (s : XSt) (i : Nat) : List UInt8 := udataRequestSetMixerCoefsPriSync :: s.features i 0

def mixerPri (s : XSt) (i : Nat) : Filling := mixerWriteProgPri.foldl (s.priTurn i) ⟨s.priHeader i, s.coefTable⟩

/-! ## xconnect_write_coefs_process -/

/-- What is returned, the state, and the request that is made. -/
structure Reply where
  ok : Bool
  st : XSt
  request : Option (List UInt8)

def xconnectWriteCoefs (s : XSt) (internalCommand : Nat) : XSt :=
  { s with liWriteCommand := internalCommand, liWriteChannel := 0 }

/-- `internal_command` before a request. -/
def command (s : XSt) : XSt := { s with internalCommand := s.liWriteCommand }

def sent (s : XSt) (j : Nat) (f : Filling) : Reply :=
  ⟨true, { s with liWriteChannel := j % 65536, coefTable := f.coef }, some f.p⟩

/-- The branch of the XCONNECT adapters, with `j` and `r` behind the first loop. -/
def xconnectBranch (s : XSt) (nlBusy : Bool) (i : Nat) (x : Nat × UInt8) : Reply :=
  if x.1 < s.liTotalChannels then
    if nlBusy then ⟨true, s.command, none⟩
    else
      let (j, f) := s.fill i s.liTotalChannels x ⟨[udataRequestXconnectTo], s.coefTable⟩
      s.command.sent j f
  else if x.1 = s.liTotalChannels then
    if nlBusy then ⟨true, s.command, none⟩
    else
      let f := if s.a.liPri then ⟨s.priHeader i, s.coefTable⟩ else s.mixerBri true i
      s.command.sent (s.liTotalChannels + 1) f
  else ⟨true, { s with liWriteChannel := x.1 }, none⟩

def mixerBranch (s : XSt) (nlBusy : Bool) (i : Nat) : Reply :=
  if s.liWriteChannel ≤ s.liTotalChannels then
    if nlBusy then ⟨true, s.command, none⟩
    else s.command.sent (s.liTotalChannels + 1) (if s.a.liPri then s.mixerPri i else s.mixerBri false i)
  else ⟨true, s, none⟩

/-- `xconnect_write_coefs_process`; `rcOk` says that `Rc` is OK or OK_FC, `nlBusy` is
    `plci_nl_busy`. -/
def xconnectWriteCoefsProcess (s : XSt) (rcOk nlBusy : Bool) : Reply :=
  if s.liBchannelId = 0 ∧ (s.a.xconnect = false ∨ has s.liChannelBits liChannelAddressesSet = true) then ⟨true, s, none⟩
  else if s.liWriteChannel ≠ 0 ∧ rcOk = false then ⟨false, s, none⟩
  else
    let i := s.own
    let j := s.liWriteChannel
    if (s.table i).adapter.xconnect then
      s.xconnectBranch nlBusy i
        (if j < s.liTotalChannels then s.scan s.coefTable i s.liTotalChannels (j, coefDiff (s.coefTable i j)) else (j, 0))
    else s.mixerBranch nlBusy i

end XSt

end Divas.Capi
