/-
  Divas.Tty.PppTrack — the tracking of LCP and IPCP frames (ppp.c, rna.c).

  `rnaRecv` and `rnaWrite` look at the control frames of the peer and of the port. The ACCM
  option is added to a configure request, or deleted from it; the request is saved, and the
  acknowledgement is answered with it. For IPCP an empty request can be sent in the place of
  the real one. LCP and IPCP of the port share `TxTrack`.

  A frame is the list of its bytes, `Cfg` points to its begin or, where an IPCP frame has no
  address and control bytes, two bytes before it (`adj`). `Req` and `ModCfg` have
  `lcpFrameMax` bytes. All accesses are checked (`Checked`): reads of the frame, writes to the
  buffers. The loop of `pppFindOpt` takes its fuel as an argument. `sizeof (CFG_HDR)` is 9,
  as `Options` has one byte under UNIX.
-/

import Divas.Lib.Checks
import Divas.Lib.Run

namespace Divas.Tty.Ppp

open Divas.Lib.Checks

def lcpFrameMax : Nat := 96
def cfgHdrSize : Nat := 9
def maxCfgHdrLen : Nat := 4
def minCfgOptLen : Nat := 4

def cfgReq : UInt8 := 1
def cfgAck : UInt8 := 2
def cfgNak : UInt8 := 3
def cfgRej : UInt8 := 4
def lcpCfgMax : UInt8 := 13

def lcpOptAccm : UInt8 := 2
def lcpOptAccmLen : Nat := 6
def ipcpOptAddrs : UInt8 := 1
def ipcpOptAddr : UInt8 := 3
def ipcpOptAddrLen : Nat := 6

def lcpFlagAddAccm : UInt8 := 0x01
def lcpFlagDelAccm : UInt8 := 0x02
def ipcpFlagNulCfg : UInt8 := 0x10

def pppPatchPassLcp : UInt8 := 0x80
def pppPatchKeepTxAccm : UInt8 := 0x40
def pppPatchKeepRxAccm : UInt8 := 0x20
def pppPatchNulTxCfg : UInt8 := 0x08
def pppPatchPassIpcp : UInt8 := 0x04

/-- `LCP_TRACK`. -/
structure LcpTrack where
  flags : UInt8
  caughtReq : UInt8
  caughtRej : UInt8
  req : Nat → UInt8
  savAccm : UInt32
  ackAccm : UInt32
  defAccm : UInt32

/-- `PPP_CONFIG`. -/
structure PppConfig where
  txTrack : LcpTrack
  rxTrack : LcpTrack
  modCfg : Nat → UInt8

/-- `From`: a frame of the peer (`<`) or of the port (`>`). -/
inductive From where
  | peer
  | port
  deriving DecidableEq, Repr

/-- Which of the two tracks. -/
inductive Side where
  | tx
  | rx
  deriving DecidableEq, Repr

/-- What `*Data` points to. -/
inductive Source where
  | frame
  | modCfg
  | req (side : Side)
  deriving DecidableEq, Repr

/-- The state behind a call, `*Data` and the size that is returned. -/
structure Tracked where
  ppp : PppConfig
  data : Source
  sizeData : Nat

namespace PppConfig

def track (ppp : PppConfig) : Side → LcpTrack
  | .tx => ppp.txTrack
  | .rx => ppp.rxTrack

def setTrack (ppp : PppConfig) (side : Side) (t : LcpTrack) : PppConfig :=
  match side with
  | .tx => { ppp with txTrack := t }
  | .rx => { ppp with rxTrack := t }

/-- The frame is passed on as it is. -/
def pass (ppp : PppConfig) (frame : List UInt8) : Tracked := ⟨ppp, .frame, frame.length⟩

end PppConfig

/-! ## Reading and writing -/

/-- `ntohs`. -/
def ntohs (frame : List UInt8) (p : Nat) : Checked Nat := do
  let hi ← readAt frame p
  let lo ← readAt frame (p + 1)
  return hi.toNat * 256 + lo.toNat

/-- `ntohl`. -/
def ntohl (frame : List UInt8) (p : Nat) : Checked UInt32 := do
  let hi ← ntohs frame p
  let lo ← ntohs frame (p + 2)
  return (hi * 65536 + lo).toUInt32

/-- `ntohs` of a word in a saved request. -/
def wordOf (buf : Nat → UInt8) (p : Nat) : Nat := (buf p).toNat * 256 + (buf (p + 1)).toNat

/-- The bytes of `htons`. -/
def bytesOfWord (w : Nat) : List UInt8 := [(w / 256).toUInt8, w.toUInt8]

/-- The bytes of `htonl`. -/
def bytesOfDword (d : UInt32) : List UInt8 := [(d >>> 24).toUInt8, (d >>> 16).toUInt8, (d >>> 8).toUInt8, d.toUInt8]

/-- `mem_cpy` to `Req` or `ModCfg`. -/
def memCpy (buf : Nat → UInt8) (i : Nat) (bytes : List UInt8) :
    Checked (Nat → UInt8) := Lib.Checks.put lcpFrameMax buf i bytes

/-- `pppFindOpt`, from the option at `opt` on. -/
def pppFindOpt (frame : List UInt8) (endOpts : Nat) (optId : UInt8) : Nat → Nat → Checked (Option Nat)
  | 0, _ => .error .hang
  | fuel + 1, opt =>
    if opt + 2 ≤ endOpts then do
      let length ← readAt frame (opt + 1)
      if opt + length.toNat ≤ endOpts then
        let option ← readAt frame opt
        if option = optId then return some opt else pppFindOpt frame endOpts optId fuel (opt + length.toNat)
      else return none
    else return none

/-! ## LCP -/

/-- `pppSyncLcpFrame`. -/
def pppSyncLcpFrame (frame : List UInt8) : Bool :=
  match frame with
  | 0xff :: 0x03 :: 0xc0 :: 0x21 :: type :: _ :: hi :: lo :: _ :: _ =>
    type ≤ lcpCfgMax && hi.toNat * 256 + lo.toNat + maxCfgHdrLen ≤ frame.length
  | _ => false

/-- The options before and behind the ACCM, with their new size. -/
def cutAccm (modCfg : Nat → UInt8) (frame : List UInt8) (sizeOpts endOpts opt : Nat) : Checked (Nat → UInt8) := do
  let modCfg ← memCpy modCfg 0 (← slice frame 0 opt)
  let modCfg ← memCpy modCfg opt (← slice frame (opt + lcpOptAccmLen) (endOpts - (opt + lcpOptAccmLen)))
  memCpy modCfg 6 (bytesOfWord (sizeOpts - lcpOptAccmLen))

/-- `CFG_REQ`. -/
def lcpReq (ppp : PppConfig) (frame : List UInt8) (from_ : From) (sizeOpts endOpts : Nat) (optAccm : Option Nat) (accm : UInt32) :
    Checked Tracked :=
  let side := if from_ = .port then .tx else .rx
  let track := { ppp.track side with caughtReq := 0 }
  match optAccm with
  | some opt =>
    if track.flags &&& lcpFlagDelAccm = 0 then return (ppp.setTrack side track).pass frame
    else if lcpFrameMax < frame.length then return (ppp.setTrack side track).pass frame
    else do
      let req ← memCpy track.req 0 (← slice frame 0 frame.length)
      let modCfg ← cutAccm ppp.modCfg frame sizeOpts endOpts opt
      let ppp := ppp.setTrack side { track with req, caughtReq := lcpFlagDelAccm, savAccm := accm }
      return ⟨{ ppp with modCfg }, .modCfg, frame.length - lcpOptAccmLen⟩
  | none =>
    if track.flags &&& lcpFlagAddAccm = 0 then return (ppp.setTrack side track).pass frame
    else if lcpFrameMax - lcpOptAccmLen < frame.length then return (ppp.setTrack side track).pass frame
    else do
      let req ← memCpy track.req 0 (← slice frame 0 frame.length)
      let modCfg ← memCpy ppp.modCfg 0 (← slice frame 0 frame.length)
      let accm := if track.caughtRej ≠ 0 then track.savAccm else 0
      let modCfg ← memCpy modCfg frame.length ([lcpOptAccm, lcpOptAccmLen.toUInt8] ++ bytesOfDword accm)
      let modCfg ← memCpy modCfg 6 (bytesOfWord (sizeOpts + lcpOptAccmLen))
      let ppp := ppp.setTrack side { track with req, caughtReq := lcpFlagAddAccm }
      return ⟨{ ppp with modCfg }, .modCfg, frame.length + lcpOptAccmLen⟩

/-- `CFG_ACK`. -/
def lcpAck (ppp : PppConfig) (frame : List UInt8) (from_ : From) (optAccm : Option Nat) (accm : UInt32) : Checked Tracked :=
  let side := if from_ = .port then .rx else .tx
  let caughtReq := (ppp.track side).caughtReq
  let track := { ppp.track side with caughtReq := 0, caughtRej := 0 }
  if caughtReq = 0 then
    let track := { track with ackAccm := if optAccm.isSome then accm else track.defAccm }
    return (ppp.setTrack side track).pass frame
  else do
    let ackAccm := if optAccm.isSome then accm else if caughtReq = lcpFlagDelAccm then track.savAccm else track.defAccm
    let req ← memCpy track.req 4 [cfgAck]
    return ⟨ppp.setTrack side { track with ackAccm, req }, .req side, (maxCfgHdrLen + wordOf req 6) % 0x10000⟩

/-- `CFG_NAK`. -/
def lcpNak (ppp : PppConfig) (frame : List UInt8) (from_ : From) (sizeOpts endOpts : Nat) (optAccm : Option Nat) (accm : UInt32) :
    Checked Tracked :=
  let side := if from_ = .port then .rx else .tx
  let caughtReq := (ppp.track side).caughtReq
  let track := { ppp.track side with caughtReq := 0 }
  match optAccm with
  | none => return (ppp.setTrack side track).pass frame
  | some opt =>
    if caughtReq ≠ lcpFlagAddAccm then return (ppp.setTrack side track).pass frame
    else if opt ≠ 8 ∨ endOpts ≠ opt + lcpOptAccmLen then do
      -- there is more than the ACCM; the frame may be larger than `ModCfg`
      let modCfg ← cutAccm ppp.modCfg frame sizeOpts endOpts opt
      let ppp := ppp.setTrack side { track with savAccm := accm, caughtRej := 1 }
      return ⟨{ ppp with modCfg }, .modCfg, frame.length - lcpOptAccmLen⟩
    else return ⟨ppp.setTrack side { track with flags := lcpFlagDelAccm }, .frame, 0⟩

/-- `CFG_REJ`. -/
def lcpRej (ppp : PppConfig) (frame : List UInt8) (from_ : From) (optAccm : Option Nat) : Checked Tracked :=
  let side := if from_ = .port then .rx else .tx
  let track := { ppp.track side with caughtReq := 0 }
  match optAccm with
  | none => return (ppp.setTrack side track).pass frame
  | some _ => return (ppp.setTrack side { track with flags := lcpFlagDelAccm }).pass frame

/-- `pppTrackLcp` behind the search for the ACCM. -/
def lcpType (ppp : PppConfig) (frame : List UInt8) (from_ : From) (type : UInt8) (sizeOpts endOpts : Nat) (optAccm : Option Nat)
    (accm : UInt32) : Checked Tracked :=
  if type = cfgReq then lcpReq ppp frame from_ sizeOpts endOpts optAccm accm
  else if type = cfgAck then lcpAck ppp frame from_ optAccm accm
  else if type = cfgNak then lcpNak ppp frame from_ sizeOpts endOpts optAccm accm
  else lcpRej ppp frame from_ optAccm

/-- `pppTrackLcp`. -/
def pppTrackLcp (fuel : Nat) (ppp : PppConfig) (frame : List UInt8) (from_ : From) : Checked Tracked :=
  if pppSyncLcpFrame frame = false then return ppp.pass frame
  else do
    let type ← readAt frame 4
    if type < cfgReq ∨ cfgRej < type then return ppp.pass frame
    else
      let sizeOpts ← ntohs frame 6
      let endOpts := maxCfgHdrLen + sizeOpts
      match ← pppFindOpt frame endOpts lcpOptAccm fuel 8 with
      | some opt =>
        let length ← readAt frame (opt + 1)
        if length.toNat ≠ lcpOptAccmLen then return ppp.pass frame
        else
          let accm ← ntohl frame (opt + 2)
          lcpType ppp frame from_ type sizeOpts endOpts (some opt) accm
      | none => lcpType ppp frame from_ type sizeOpts endOpts none 0

/-! ## IPCP -/

/-- The address option, or the obsolete one. -/
def findAddr (fuel : Nat) (frame : List UInt8) (endOpts opts : Nat) : Checked (Option Nat) := do
  match ← pppFindOpt frame endOpts ipcpOptAddr fuel opts with
  | some opt => return some opt
  | none => pppFindOpt frame endOpts ipcpOptAddrs fuel opts

/-- `pppTrackIpcp` behind the search for the address. -/
def ipcpType (ppp : PppConfig) (frame : List UInt8) (from_ : From) (adj : Nat) (type : UInt8) (sizeOpts : Nat) (addr : UInt32) :
    Checked Tracked :=
  if (type = cfgReq) = (from_ = .peer) then return ppp.pass frame
  else
    let caughtReq := ppp.txTrack.caughtReq
    let caughtRej := ppp.txTrack.caughtRej
    let track := { ppp.txTrack with caughtReq := 0, caughtRej := 0 }
    if type = cfgReq then
      if addr = 0 then return (ppp.setTrack .tx track).pass frame
      else if lcpFrameMax < frame.length then return (ppp.setTrack .tx track).pass frame
      else do
        let req ← memCpy track.req 0 (← slice frame 0 frame.length)
        if track.flags &&& ipcpFlagNulCfg ≠ 0 ∨ caughtRej ≠ 0 then
          let modCfg ← memCpy ppp.modCfg 0 (← slice frame 0 frame.length)
          let modCfg ← memCpy modCfg (6 - adj) (bytesOfWord 4)
          let ppp := ppp.setTrack .tx { track with req, caughtReq := 2 }
          return ⟨{ ppp with modCfg }, .modCfg, cfgHdrSize - adj⟩
        else return (ppp.setTrack .tx { track with req, caughtReq := 1 }).pass frame
    else if type = cfgAck then
      if caughtReq ≠ 2 then return (ppp.setTrack .tx track).pass frame
      else do
        let req ← memCpy track.req (4 - adj) [cfgAck]
        return ⟨ppp.setTrack .tx { track with req }, .req .tx, (maxCfgHdrLen - adj + wordOf req (6 - adj)) % 0x10000⟩
    else
      let track :=
        if type = cfgRej ∧ addr ≠ 0 ∧ caughtReq = 1 ∧
          sizeOpts = wordOf track.req (6 - adj) then { track with caughtRej := 1 } else track
      return (ppp.setTrack .tx { track with flags := track.flags &&& ~~~ ipcpFlagNulCfg }).pass frame

/-- `pppTrackIpcp`. -/
def pppTrackIpcp (fuel : Nat) (ppp : PppConfig) (frame : List UInt8) (from_ : From) : Checked Tracked := do
  let first ← readAt frame 0
  let adj := if first = 0xff then 0 else 2
  let sizeOpts ← ntohs frame (6 - adj)
  let endOpts := maxCfgHdrLen - adj + sizeOpts
  if sizeOpts < minCfgOptLen ∨ frame.length < endOpts then return ppp.pass frame
  else
    let type ← readAt frame (4 - adj)
    if type < cfgReq ∨ cfgRej < type then return ppp.pass frame
    else
      match ← findAddr fuel frame endOpts (8 - adj) with
      | some opt =>
        let length ← readAt frame (opt + 1)
        if length.toNat < ipcpOptAddrLen then return ppp.pass frame
        else
          let addr ← ntohl frame (opt + 2)
          ipcpType ppp frame from_ adj type sizeOpts addr
      | none => ipcpType ppp frame from_ adj type sizeOpts 0

/-! ## The frames that are tracked -/

/-- The control protocols of PPP. -/
def isControl (frame : List UInt8) : Bool :=
  decide (6 ≤ frame.length) &&
    let prot := if frame.take 2 = [0xff, 0x03] then frame.getD 2 0 else frame.getD 0 0
    prot == 0x80 || prot == 0xc0 || prot == 0xc2

/-- What `rnaRecv` does with a frame of the peer before it is exploded, and `rnaWrite` with a
    frame of the port when it is imploded. -/
def rnaTrack (fuel : Nat) (patches : UInt8) (ppp : PppConfig) (frame : List UInt8) (from_ : From) : Checked Tracked :=
  if isControl frame = false then return ppp.pass frame
  else if frame.take 4 = [0xff, 0x03, 0xc0, 0x21] then
    if patches &&& pppPatchPassLcp ≠ 0 then return ppp.pass frame else pppTrackLcp fuel ppp frame from_
  else if patches &&& pppPatchPassIpcp ≠ 0 then return ppp.pass frame
  else if frame.take 4 = [0xff, 0x03, 0x80, 0x21] ∨ frame.take 2 = [0x80, 0x21] then pppTrackIpcp fuel ppp frame from_
  else return ppp.pass frame

/-- `pppInit` for a track. `Req` and `SavACCM` stay as they are. -/
def LcpTrack.init (t : LcpTrack) (flags : UInt8) (accm : UInt32) : LcpTrack :=
  { t with flags, caughtReq := 0, caughtRej := 0, ackAccm := accm, defAccm := accm }

/-- `pppInit`, as `rnaUp` calls it. -/
def rnaUp (patches : UInt8) (ppp : PppConfig) : PppConfig :=
  { ppp with
    rxTrack := ppp.rxTrack.init (if patches &&& pppPatchKeepRxAccm ≠ 0 then 0 else lcpFlagAddAccm) 0xffffffff
    txTrack := ppp.txTrack.init
      ((if patches &&& pppPatchKeepTxAccm ≠ 0 then 0 else lcpFlagDelAccm) |||
        if patches &&& pppPatchNulTxCfg ≠ 0 then ipcpFlagNulCfg else 0) 0 }

/-! ## Runs -/

/-- A control frame, and where it comes from. -/
structure Control where
  frame : List UInt8
  from_ : From

/-- Turns that are enough for the options of a frame. -/
def enough (frame : List UInt8) : Nat := frame.length + 1

/-- The state behind a frame; it stays where the call does what it must not do. -/
def rnaStep (patches : UInt8) (ppp : PppConfig) (c : Control) : PppConfig :=
  match rnaTrack (enough c.frame) patches ppp c.frame c.from_ with
  | .ok t => t.ppp
  | .error _ => ppp

/-- The call ends, reads inside the frame and writes inside the buffers. -/
def CallSafe (patches : UInt8) (ppp : PppConfig) (c : Control) : Prop := ∃ fuel, Ok (rnaTrack fuel patches ppp c.frame c.from_)

end Divas.Tty.Ppp
