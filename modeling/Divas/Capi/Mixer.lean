/-
  Divas.Capi.Mixer — the routing computation of the line interconnect,
  `mixer_calculate_coefs` (message.c).

  `li_config_table` holds for each channel `i` its state bits `channel`, its flags
  `chflags`, and for each channel `j` the flags `flag_table[j]` of the link from `i` to
  `j` and the coefficients `coef_table[j]`. The fields of all entries are tables here.
  Each loop of the source over all channels is one phase.
-/

import Mathlib.Logic.Function.Basic
import Divas.Lib.Loop
import Divas.Lib.Flags

namespace Divas.Capi

open Divas.Lib.Loop Divas.Lib.Flags

def liChannelInvolved : UInt8 := 0x01
def liChannelTxData : UInt8 := 0x04
def liChannelRxData : UInt8 := 0x08
def liChannelConference : UInt8 := 0x10
def liChannelUsedSourcePc : UInt8 := 0x20
def liChannelNoAddresses : UInt8 := 0x40
def liChannelAddressesSet : UInt8 := 0x80

def liChflagMonitor : UInt8 := 0x01
def liChflagMix : UInt8 := 0x02
def liChflagLoop : UInt8 := 0x04
def liChflagNullPlci : UInt8 := 0x08
def liChflagNotSendX : UInt8 := 0x10
def liChflagNotReceiveX : UInt8 := 0x20

def liFlagInterconnect : UInt8 := 0x01
def liFlagMonitor : UInt8 := 0x02
def liFlagMix : UInt8 := 0x04
def liFlagPcconnect : UInt8 := 0x08
def liFlagConference : UInt8 := 0x10
def liFlagAnnouncement : UInt8 := 0x20
def liFlagBconnect : UInt8 := 0x40

def liCoefChCh : UInt8 := 0x01
def liCoefChPc : UInt8 := 0x02
def liCoefPcCh : UInt8 := 0x04
def liCoefPcPc : UInt8 := 0x08

/-- The four coefficients that are computed; the high nibble says which are set. -/
def liCoefAll : UInt8 := liCoefChCh ||| liCoefChPc ||| liCoefPcCh ||| liCoefPcPc

/-- `li_config_table`. -/
structure LiConfigTable where
  channel : Nat → UInt8
  chflags : Nat → UInt8
  flagTable : Nat → Nat → UInt8
  coefTable : Nat → Nat → UInt8

namespace LiConfigTable

/-! ## Assignments -/

/-- `if (c) li_config_table[i].channel |= m`. -/
def orChannelIf (c : Bool) (i : Nat) (m : UInt8) (s : LiConfigTable) : LiConfigTable :=
  if c then { s with channel := Function.update s.channel i (s.channel i ||| m) } else s

/-- `li_config_table[i].channel &= m`. -/
def andChannel (i : Nat) (m : UInt8) (s : LiConfigTable) : LiConfigTable :=
  { s with channel := Function.update s.channel i (s.channel i &&& m) }

/-- `if (c) li_config_table[i].flag_table[j] |= m`. -/
def orFlagIf (c : Bool) (i j : Nat) (m : UInt8) (s : LiConfigTable) : LiConfigTable :=
  if c then
    { s with flagTable := Function.update s.flagTable i (Function.update (s.flagTable i) j (s.flagTable i j ||| m)) }
  else s

def setCoef (i j : Nat) (b : UInt8) (s : LiConfigTable) : LiConfigTable :=
  { s with coefTable := Function.update s.coefTable i (Function.update (s.coefTable i) j b) }

/-- `if (c) li_config_table[i].coef_table[j] |= m`. -/
def orCoefIf (c : Bool) (i j : Nat) (m : UInt8) (s : LiConfigTable) : LiConfigTable :=
  if c then s.setCoef i j (s.coefTable i j ||| m) else s

/-- `li_config_table[i].coef_table[j] &= m`. -/
def andCoef (i j : Nat) (m : UInt8) (s : LiConfigTable) : LiConfigTable := s.setCoef i j (s.coefTable i j &&& m)

/-! ## Involved channels -/

/-- What a channel's own flags involve it for. -/
def involveOwn (i : Nat) (s : LiConfigTable) : LiConfigTable :=
  let f := s.flagTable i i
  let own := has (s.chflags i) (~~~liChflagNullPlci)
    || (has f (liFlagMonitor ||| liFlagMix ||| liFlagAnnouncement)
      && (!has f liFlagMonitor || !has f (liFlagMix ||| liFlagAnnouncement)))
    || has f (~~~(liFlagMonitor ||| liFlagMix ||| liFlagAnnouncement))
  ((s.andChannel i (liChannelAddressesSet ||| liChannelNoAddresses)).orChannelIf own i liChannelInvolved).orChannelIf
    (has f liFlagConference) i liChannelConference

/-- `b`: the flags of all links between `i` and another channel. -/
def linkFlags (N : Nat) (s : LiConfigTable) (i : Nat) : UInt8 :=
  let add := fun j b => b ||| (s.flagTable i j ||| s.flagTable j i)
  forFrom (i + 1) N add (forTo i add 0)

def involveLinked (N i : Nat) (s : LiConfigTable) : LiConfigTable :=
  let b := linkFlags N s i
  (s.orChannelIf (b != 0) i liChannelInvolved).orChannelIf (has b liFlagConference) i liChannelConference

/-! ## Conferences -/

def clearCoefs (N i : Nat) (s : LiConfigTable) : LiConfigTable := forTo N (fun j => andCoef i j (~~~liCoefAll)) s

/-- Row `i` of the matrix of conference links. -/
def conferenceRow (N i : Nat) (s : LiConfigTable) : LiConfigTable :=
  if has (s.channel i) liChannelConference then
    forTo N (fun j s => s.orCoefIf (has (s.flagTable i j) liFlagConference) i j liCoefChCh) s
  else s

/-- One row of round `n` of Warshall's algorithm, in place. -/
def joinRow (N n i : Nat) (s : LiConfigTable) : LiConfigTable :=
  forTo N (fun j s => s.setCoef i j (s.coefTable i j ||| (s.coefTable i n &&& s.coefTable n j))) s

def joinRound (N n : Nat) (s : LiConfigTable) : LiConfigTable :=
  if has (s.channel n) liChannelConference then
    forTo N (fun i s => if has (s.channel i) liChannelConference then joinRow N n i s else s) s
  else s

/-- The closure of row `i` becomes conference flags, except the diagonal. -/
def conferenceFlags (N i : Nat) (s : LiConfigTable) : LiConfigTable :=
  if has (s.channel i) liChannelInvolved then
    let s := s.andCoef i i (~~~liCoefChCh)
    let s := forTo N (fun j s => s.orFlagIf (has (s.coefTable i j) liCoefChCh) i j liFlagConference) s
    s.orCoefIf (has (s.flagTable i i) liFlagConference) i i liCoefChCh
  else s

/-! ## Other coefficients -/

/-- `!(chflags & (LI_CHFLAG_NULL_PLCI | LI_CHFLAG_NOT_SEND_X))`. -/
def sendsX (s : LiConfigTable) (i : Nat) : Bool := !has (s.chflags i) (liChflagNullPlci ||| liChflagNotSendX)

/-- `!(chflags & (LI_CHFLAG_NULL_PLCI | LI_CHFLAG_NOT_RECEIVE_X))`. -/
def receivesX (s : LiConfigTable) (i : Nat) : Bool := !has (s.chflags i) (liChflagNullPlci ||| liChflagNotReceiveX)

def linkCoefs (i j : Nat) (s : LiConfigTable) : LiConfigTable :=
  let f := s.flagTable i j
  ((((s.orCoefIf (has f liFlagInterconnect && (s.sendsX i && s.receivesX j)) i j liCoefChCh).orCoefIf
    (has f liFlagBconnect) i j liCoefChCh).orCoefIf
    (has f liFlagMonitor) i j liCoefChPc).orCoefIf
    (has f liFlagMix) i j liCoefPcCh).orCoefIf
    (has f liFlagPcconnect) i j liCoefPcPc

/-- A monitored channel `i`. -/
def monitorCoefs (i j : Nat) (s : LiConfigTable) : LiConfigTable :=
  if has (s.flagTable i j) liFlagInterconnect then
    (s.orCoefIf (s.receivesX j) i j liCoefChPc).orCoefIf (has (s.chflags j) liChflagMix) i j liCoefPcPc
  else s

/-- A channel `i` that is mixed into. -/
def mixCoefs (i j : Nat) (s : LiConfigTable) : LiConfigTable :=
  s.orCoefIf (has (s.flagTable j i) liFlagInterconnect && s.sendsX j) j i liCoefPcCh

/-- A looped channel passes what `n` sends to it on to `j`. -/
def loopCoefs (i j n : Nat) (s : LiConfigTable) : LiConfigTable :=
  if has (s.flagTable n i) liFlagInterconnect then
    (((s.orCoefIf (s.sendsX n && s.receivesX j) n j liCoefChCh).orCoefIf
      (has (s.chflags j) liChflagMix && s.sendsX n) n j liCoefPcCh).orCoefIf
      (has (s.chflags j) liChflagMix && has (s.chflags n) liChflagMonitor) n j liCoefPcPc).orCoefIf
      (has (s.chflags n) liChflagMonitor && s.receivesX j) n j liCoefChPc
  else s

def interconnect (N i : Nat) (s : LiConfigTable) : LiConfigTable :=
  if has (s.channel i) liChannelInvolved then
    let s := forTo N (linkCoefs i) s
    let s := if has (s.chflags i) liChflagMonitor then forTo N (monitorCoefs i) s else s
    let s := if has (s.chflags i) liChflagMix then forTo N (mixCoefs i) s else s
    if has (s.chflags i) liChflagLoop then
      forTo N (fun j s => if has (s.flagTable i j) liFlagInterconnect then forTo N (loopCoefs i j) s else s) s
    else s
  else s

def sourceData (i j : Nat) (s : LiConfigTable) : LiConfigTable :=
  s.orChannelIf (has (s.flagTable j i) (liFlagPcconnect ||| liFlagAnnouncement ||| liFlagMix)) i
    (liChannelTxData ||| liChannelUsedSourcePc)

/-- Which directions the B channel data of `i` is used in. -/
def dataChannels (N i : Nat) (s : LiConfigTable) : LiConfigTable :=
  if has (s.channel i) liChannelInvolved then
    let s := s.orChannelIf (has (s.chflags i) liChflagMonitor) i liChannelRxData
    let s := s.orChannelIf (has (s.chflags i) liChflagMix) i (liChannelTxData ||| liChannelUsedSourcePc)
    let s := forTo N
      (fun j s => s.orChannelIf (has (s.flagTable i j) (liFlagPcconnect ||| liFlagMonitor)) i liChannelRxData) s
    let s := forTo i (sourceData i) s
    let s := forFrom (i + 1) N (sourceData i) s
    s.orChannelIf (has (s.flagTable i i) (liFlagPcconnect ||| liFlagAnnouncement ||| liFlagMix)) i liChannelTxData
  else s

/-- A channel with an announcement hears nothing else. The `while` loop looks for one. -/
def announce (N i : Nat) (s : LiConfigTable) : LiConfigTable :=
  if has (s.channel i) liChannelInvolved
      && (List.range N).any (fun j => has (s.flagTable i j) liFlagAnnouncement) then
    forTo N
      (fun j s => (s.andCoef i j (~~~(liCoefChCh ||| liCoefPcCh))).orCoefIf
        (has (s.flagTable i j) liFlagAnnouncement) i j liCoefPcCh) s
  else s

def involveOthers (i : Nat) (s : LiConfigTable) : LiConfigTable :=
  let f := s.flagTable i i
  s.orChannelIf (!has f liFlagMonitor || !has f (liFlagMix ||| liFlagAnnouncement)) i liChannelInvolved

/-! ## mixer_calculate_coefs -/

def involve (N : Nat) (s : LiConfigTable) : LiConfigTable := forTo N (involveLinked N) (forTo N involveOwn s)

def closeConferences (N : Nat) (s : LiConfigTable) : LiConfigTable :=
  let s := forTo N (clearCoefs N) s
  let s := forTo N (conferenceRow N) s
  let s := forTo N (joinRound N) s
  forTo N (conferenceFlags N) s

def routeOthers (N : Nat) (s : LiConfigTable) : LiConfigTable :=
  let s := forTo N (interconnect N) s
  let s := forTo N (dataChannels N) s
  let s := forTo N (announce N) s
  forTo N involveOthers s

/-- `mixer_calculate_coefs` with `li_total_channels = N`, less the trace output. -/
def mixerCalculateCoefs (N : Nat) (s : LiConfigTable) : LiConfigTable :=
  routeOthers N (closeConferences N (involve N s))

end LiConfigTable

end Divas.Capi
