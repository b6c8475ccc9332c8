/-
  Divas.Capi.B23Octets — the octets that `add_b23` puts into DLC and NLC (message.c).

  The protocol configurations of the application are copied into two arrays, `dlc` of 64 and
  `nlc` of 256 octets, which start with their length and are handed to the adapter by
  `add_p`. What is read of a parameter is recorded with the octets that the parameter has:
  two of a word, the length and that many octets of a structure, none where nothing was
  parsed. The tables of the layers are sources of their own.

  The arrays are static: what a call does not write is left from the calls before. LLI and
  LLC have a fixed length and are left out. `add_modem_b23` has arrays of its own; the
  stations of a fax get no time in front of their head line (`fax_head_line_time` of
  capifunc.c).
-/

import Divas.Capi.BProtocol
import Divas.Lib.Octets

namespace Divas.Capi

open Divas.Lib.Bytes Divas.Lib.Octets

/-! ## Parameters as sources -/

/-- A structure: its length and its octets. -/
def Parm.struct (c : Parm) : Source := ⟨c.info, c.length + 1⟩

/-- Entry `i` of an array that `api_parse` has filled. What it did not parse has no octets. -/
def parmSource (format : List ParseFmt) (ps : List Parm) (i : Nat) : Source :=
  match format[i]?, ps[i]? with
  | some .b, some p => ⟨p.info, 1⟩
  | some .w, some p => ⟨p.info, 2⟩
  | some .d, some p => ⟨p.info, 4⟩
  | some .s, some p => p.struct
  | some .r, some p => ⟨p.info, p.length⟩
  | _, _ => ⟨Parm.empty.info, 0⟩

/-- The parameters after `api_parse`, none if it was not called or failed. -/
def parsed (c : Parm) (format : List ParseFmt) : List Parm := (c.parse format).getD []

def bFormat : List ParseFmt := [.w, .w, .w, .s, .s, .s, .s]
def piafsFormat : List ParseFmt := [.b, .w, .w, .w]
def listenerFormat : List ParseFmt := [.w, .w, .s]
def v42bisFormat : List ParseFmt := [.b, .b, .b, .b, .w, .w, .w]
def b2Format : List ParseFmt := [.b, .b, .b, .b, .s]
def faxFormat : List ParseFmt := [.w, .w, .s, .s]
def nsfFormat : List ParseFmt := [.w, .w, .s, .s, .s]

/-! ## The state -/

/-- What a PLCI keeps of a fax connection. -/
structure FaxInfo where
  faxConnectInfoLength : Nat
  faxConnectInfoBuffer : Mem
  nsfControlBits : Nat

structure B23 where
  p : BChannel
  fax : FaxInfo
  dlc : Param
  nlc : Param
  /-- What was read of the B protocol and of the tables. -/
  reads : List Access
  /-- `add_p(plci, DLC, dlc)`. -/
  dlcAdded : Bool
  nlcAdded : Bool

namespace B23

/-- Nothing is put into DLC and NLC yet. -/
def start (p : BChannel) (fax : FaxInfo) (dlc nlc : Mem) : B23 :=
  { p, fax, dlc := ⟨⟨dlc, []⟩, []⟩, nlc := ⟨⟨nlc, []⟩, []⟩, reads := [], dlcAdded := false, nlcAdded := false }

def look (s : B23) (v : Fetched) : B23 := { s with reads := v.accesses ++ s.reads }

def addDlc (s : B23) (dlc : Param) : B23 := { s with dlc, dlcAdded := true }

def addNlc (s : B23) (nlc : Param) : B23 := { s with nlc, nlcAdded := true }

end B23

open B23 Fetched

def octet (v : Nat) : UInt8 := UInt8.ofNat v

/-! ## Layer 2 -/

def maskModulus : Nat := 0x88

/-- Options of SDLC and X.75: the packets wait for CTS and DCD. -/
def sdlcOptionWaitCtsDcdOn : Nat := 0x01
def sdlcOptionIndicateCtsDcdOn : Nat := 0x02
def sdlcOptionSingleDataPackets : Nat := 0x08
def sdlcOptionFastPollRecovery : Nat := 0x40
def x75OptionWaitCtsDcdOn : Nat := 0x01
def piafsUdataAbilities : Nat := 0x80
def x75t : Nat := 1

/-- `WRITE_WORD(&dlc[1], w)`. -/
def putWord (d : Param) (w : Nat) : Param := d.put 1 (literal (leBytes 2 w))

def addPiafs (d : Param) (max b3 : Nat) (c : Parm) : Param × Info :=
  if b3 ≠ b3Transparent then (d, .bStackNotSupported)
  else if c.length ≠ 0 ∧ c.malformed piafsFormat then (d, .wrongMessageFormat)
  else
    let e := parmSource piafsFormat (parsed c piafsFormat)
    let d := (putWord d max).put 3 (literal [0, 0, 0, 0])
    if 7 ≤ c.length then
      let d := d.put 7 (literal [7, 0] ++ (e 0).fetch 0 1 ++ (e 1).fetch 0 2 ++ (e 2).fetch 0 2 ++ (e 3).fetch 0 2)
      let d := d.setLength 15
      if 8 ≤ c.length then
        -- the control abilities are taken from an entry that the format does not have
        let d := (d.put 7 (literal [10])).put 16 (literal [2, octet piafsUdataAbilities] ++ (e 4).fetch 0 1)
        (d.setLength 18, .success)
      else (d, .success)
    else ((d.put 7 (literal [7, 0, 3, 3, 0, 0, 0, 0, 0])).setLength 15, .success)

def addMtp2 (d : Param) (max b3 : Nat) (c : Parm) : Param × Info :=
  if b3 ≠ b3Transparent then (d, .bStackNotSupported)
  else if c.length ≠ 0 ∧ c.malformed [.b] then (d, .wrongMessageFormat)
  else
    let d := (putWord d max).put 3 (literal [0, 0, 0, 0])
    if c.length ≠ 0 then
      if c.length ≠ 1 then (d, .wrongMessageFormat)
      else ((d.put 7 (literal [1, 0] ++ (parmSource [.b] (parsed c [.b]) 0).fetch 0 1)).setLength 9, .success)
    else (d.setLength 6, .success)

def addListener (d : Param) (max : Nat) (c : Parm) : Param × Info :=
  let d := putWord d max
  if c.length ≠ 0 ∧ c.malformed listenerFormat then (d, .wrongMessageFormat)
  else
    let ps := parsed c listenerFormat
    let e := parmSource listenerFormat ps
    let d := (d.put 3 (literal [0, 0, 0, 0])).setLength 6
    if 5 ≤ c.length then
      let d := d.setLength (d.length + 2)
      let d := d.append ((e 0).fetch 0 2 ++ (e 1).fetch 0 2 ++ (e 2).fetch 1 (parm ps 2).length)
      (d.put 7 (literal [octet (d.length + 256 - 8), 0]), .success)
    else (d, .success)

/-- The parameters of V.42bis. -/
def putV42bis (d : Param) (c : Parm) : Param :=
  let e := parmSource v42bisFormat (parsed c v42bisFormat)
  if 10 ≤ c.length then
    (d.put 7 (literal [6, 0] ++ (e 4).fetch 0 2 ++ (e 5).fetch 0 2 ++ (e 6).fetch 0 2)).setLength 14
  else d

/-- Options stand behind the XID, and behind the length of none. -/
def appendOption (d : Param) (i : Nat) : Param :=
  let d := if d.length < 8 then (d.setLength 8).put 7 (literal [0, 0]) else d
  d.append (literal [octet i])

def addV120 (d : Param) (l2 b3 : Nat) (c : Parm) : Param × Info :=
  if b3 ≠ b3Transparent then (d, .bStackNotSupported)
  else
    let d := d.setLength 6
    let d := (putWord d (word d.array.mem 1 + 2)).put 3 (literal [0x08, 0x01, 127, 7])
    if c.length = 0 then (d, .success)
    else if l2 = v120V42bis ∧ c.malformed v42bisFormat then (d, .wrongMessageFormat)
    else
      let addrA := c.byte 2 <<< 3 ||| (c.byte 1 >>> 5 &&& 0x04)
      let addrB := c.byte 1 <<< 1 ||| 0x01
      let d := (d.look (c.struct.fetch 1 3)).put 3 (literal [octet addrA, octet addrB])
      if c.byte 3 &&& maskModulus ≠ 0x80 then (d, .b2ParmNotSupported)
      else
        let d := d.put 5 (literal [octet ((c.byte 3 &&& maskModulus) - 1)] ++ c.struct.fetch 4 1)
        let d := if l2 = v120V42bis then putV42bis d c else d
        -- other bits are options
        (if c.byte 3 &&& 0x77 ≠ 0 then appendOption d (c.byte 3 &&& 0x77) else d, .success)

def addLapd (d : Param) (b2 : Nat) (c : Parm) : Param × Info :=
  let d := d.setLength 4
  let d := d.put 2 (if 1 ≤ c.length then c.struct.fetch 1 1 else literal [0x01])
  let sapi := literal [if b2 = 12 then 0 else 0x40]
  let d := d.put 1 (if 2 ≤ c.length ∧ b2 = 12 then c.struct.fetch 2 1 else sapi)
  let d := if 3 ≤ c.length then d.look (c.struct.fetch 3 1) else d
  let d := d.put 3 (literal [if 3 ≤ c.length ∧ c.byte 3 = 128 then 127 else 7])
  let d := d.put 4 (if 4 ≤ c.length then c.struct.fetch 4 1 else literal [1])
  if 5 < c.length then (d, .b2ParmNotSupported) else (d, .success)

/-- SDLC on top of a modem. -/
def sdlcOverModem (b1 b2 : Nat) : Bool := b2 == b2Sdlc && isModem b1

/-- X.75 on top of the synchronous modem. -/
def x75OverModem (l2 b1 : Nat) : Bool := b1 == b1ModemSyncHdlc && (l2 == x75t || l2 == x75V42bis)

def sdlcOptions (b3 : Nat) : Nat :=
  let i := sdlcOptionWaitCtsDcdOn ||| sdlcOptionSingleDataPackets ||| sdlcOptionFastPollRecovery
  if b3 = b3Modem then i ||| sdlcOptionIndicateCtsDcdOn else i

def putModemOptions (d : Param) (l2 b1 b2 b3 : Nat) : Param :=
  let d := if sdlcOverModem b1 b2 then appendOption d (sdlcOptions b3) else d
  if x75OverModem l2 b1 then appendOption d x75OptionWaitCtsDcdOn else d

/-- The XID of the application, behind a length that counts two octets more. -/
def putXid (d : Param) (c : Parm) : Param :=
  let ps := parsed c b2Format
  let xid := (parm ps 4).length
  if xid ≠ 0 then
    let d := (d.setLength (xid + 10)).put 7 (literal (leBytes 2 (xid + 2)))
    d.put 11 ((parmSource b2Format ps 4).fetch 1 xid)
  else d

def addX75 (d : Param) (l2 b1 b2 b3 : Nat) (c : Parm) : Param × Info :=
  let d := ((d.setLength 6).put 3 (c.struct.fetch 1 2)).look (c.struct.fetch 3 1)
  if c.byte 3 ≠ 8 ∧ c.byte 3 ≠ 128 then (d, .b2ParmNotSupported)
  else
    let d := d.put 5 (literal [octet (c.byte 3 - 1)] ++ c.struct.fetch 4 1)
    if c.byte 3 - 1 < c.byte 4 then (d, .b2ParmNotSupported)
    else if l2 = x75V42bis then (putV42bis d c, .success)
    else (putModemOptions (putXid d c) l2 b1 b2 b3, .success)

/-- Without a configuration, a protocol on top of a modem has its own defaults. -/
def addDefault (d : Param) (l2 b1 b2 b3 : Nat) : Param :=
  let d :=
    if sdlcOverModem b1 b2 then
      ((d.setLength 8).put 3 (literal [0xc1, 1, 7, 7, 0, 0])).append (literal [octet (sdlcOptions b3)])
    else d
  if x75OverModem l2 b1 then
    ((d.setLength 8).put 3 (literal [3, 1, 7, 7, 0, 0])).append (literal [octet x75OptionWaitCtsDcdOn])
  else d

def addB2 (d : Param) (max l2 b1 b2 b3 : Nat) (c : Parm) : Param × Info :=
  if l2 = piafsCrc then addPiafs d max b3 c
  else if l2 = mtp2 then addMtp2 d max b3 c
  else if l2 = listener then addListener d max c
  else if l2 = v120L2 ∨ l2 = v120V42bis then addV120 d l2 b3 c
  else if c.length ≠ 0 then
    if c.malformed (if l2 = x75V42bis then v42bisFormat else b2Format) then (d, .wrongMessageFormat)
    else if l2 = lapd then addLapd d b2 c
    else addX75 d l2 b1 b2 b3 c
  else (addDefault d l2 b1 b2 b3, .success)

/-! ## Layer 3 -/

/-- X.25: twelve octets of numbers, modulus and window, and the private extensions. -/
def addX25 (n : Param) (c : Parm) : Param × Info :=
  if c.length = 0 then (n, .success)
  else
    let n := n.setLength 14
    if c.length ≠ 16 ∧ c.length ≠ 18 then (n, .b3ParmNotSupported)
    else
      let n := (n.put 1 (c.struct.fetch 1 12)).look (c.struct.fetch 13 2)
      if c.word 13 ≠ 8 ∧ c.word 13 ≠ 128 then (n, .b3ParmNotSupported)
      else
        let n := (n.put 13 (c.struct.fetch 13 1)).look (c.struct.fetch 15 2)
        if c.byte 13 ≤ c.word 15 then (n, .b3ParmNotSupported)
        else
          let n := n.put 14 (c.struct.fetch 15 1)
          if c.length = 18 then
            let n := (n.setLength 16).look (c.struct.fetch 17 1)
            if c.byte 17 ≠ 1 then (n, .b3ParmNotSupported) else (n.put 15 (c.struct.fetch 17 2), .success)
          else (n, .success)

/-! ### Fax -/

def featureFaxPaperFormats : Nat := 0x00400000
def featureFaxNonstandard : Nat := 0x10000000
def feature2ColorFax : Nat := 0x00000008
def privateFaxSubSepPwd : Nat := 3
def privateFaxPaperFormats : Nat := 6
def privateFaxNonstandard : Nat := 8
def capiMaxHeadLineSpace : Nat := 89
def nsfControlBitNegotiateResp : Nat := 0x0008
def controlBitAcceptPolling : Nat := 0x0040

/-- `sizeof(T30_INFO)`, and the fields of it by their offset. -/
def t30Size : Nat := 36
def t30Rate : Nat := 1
def t30Resolution : Nat := 2
def t30DataFormat : Nat := 3
def t30OperatingMode : Nat := 6
def t30ControlBits : Nat := 7
def t30FeatureBits : Nat := 9
def t30Recording : Nat := 11
def t30ResolutionHigh : Nat := 12
def t30StationIdLen : Nat := 14
def t30HeadLineLen : Nat := 15
def t30StationId : Nat := 16

/-- `((T30_INFO *)&nlc[1])->field = ...`. -/
def t30 (n : Param) (field : Nat) (v : Fetched) : Param := n.put (field + 1) v

/-- `((T30_INFO *)&nlc[1])->field`. -/
def t30Field (n : Param) (field : Nat) : Nat := (n.array.mem (field + 1)).toNat

/-- A private option that is asked for, by anybody. -/
def optionRequested (f : Features) (p : BChannel) (applId option : Nat) : Bool :=
  (p.requestedOptionsConn ||| p.requestedOptions ||| f.requestedOptionsTable (applId - 1)).testBit option

/-- NLC of a fax, before its configuration is read. -/
def startFax (f : Features) (n : Param) (b1Config : Parm) : Param :=
  let n := (n.put 0 (literal (List.replicate t30Size 0))).setLength t30Size
  let mode := if hasBits f.manufacturerFeatures2 feature2ColorFax then 0x80 else 0
  let mode := if hasBits f.manufacturerFeatures featureFaxPaperFormats then (mode &&& 0xf0) ||| 3 else mode
  let n := t30 (t30 n t30OperatingMode (literal [octet mode])) t30Rate (literal [0xff])
  if 2 ≤ b1Config.length then
    t30 (n.look (b1Config.struct.fetch 1 2)) t30Rate (literal [octet (b1Config.word 1 / 2400)])
  else n

/-- Resolution and control bits, of words that `divacapi.h` gives bit by bit. -/
structure FaxBits where
  resolution : Nat
  control : Nat
  control2 : Nat

/-- The bits of the B3 protocol with extensions; those of a connection that is there already count. -/
def extendedBits (fax : FaxInfo) (i : Nat) (b : FaxBits) : FaxBits :=
  let b := if hasBits i 0x0002 then { b with control := b.control ||| controlBitAcceptPolling } else b
  let b := if hasBits i 0x0400 then { b with control2 := b.control2 ||| 0x3f, resolution := b.resolution ||| 0x6028 } else b
  let b := if hasBits i 0x0800 then { b with control2 := b.control2 ||| 0xde, resolution := b.resolution ||| 0x6028 } else b
  let b := if hasBits i 0x1000 then { b with control := clear b.control 0x8000 } else b
  let b := if hasBits i 0x2000 then { b with control := clear b.control 0x0008 } else b
  let b := if hasBits i 0x4000 then { b with control := clear b.control 0x0010 } else b
  let b := if hasBits i 0x8000 then { b with control := clear b.control 0x0002 } else b
  let info := fax.faxConnectInfoBuffer
  if fax.faxConnectInfoLength ≠ 0 then
    { resolution := (info t30Resolution).toNat ||| (info t30ResolutionHigh).toNat <<< 8
      control := b.control ||| (word info t30ControlBits &&& 0x0180)
      control2 := b.control2 ||| (word info t30FeatureBits &&& 0x0200) }
  else b

/-- The bits that the configuration asks for. -/
def faxBits (f : Features) (p : BChannel) (fax : FaxInfo) (applId rate i dataFormat : Nat) : FaxBits :=
  let fine := hasBits i 0x0001 || (p.b3Prot == b3T30 && dataFormat % 256 != 5)
  let b : FaxBits :=
    { resolution := if fine then 1 else 0
      control := if rate ≠ 0 ∧ rate ≤ 6 then clear 0x903a 0x1000 else 0x903a
      control2 := 0 }
  let b :=
    if hasBits f.manufacturerFeatures featureFaxPaperFormats && optionRequested f p applId privateFaxPaperFormats then
      { b with resolution := b.resolution ||| 0x1fd6 }
    else b
  if p.b3Prot = b3T30WithExtensions then extendedBits fax i b else b

/-- Data format, recording properties and resolution. -/
def putFormat (f : Features) (p : BChannel) (fax : FaxInfo) (n : Param) (dataFormat resolution : Nat) : Param :=
  let n := t30 n t30DataFormat (literal [octet dataFormat])
  let n := if hasBits f.manufacturerFeatures featureFaxPaperFormats then t30 n t30Recording (literal [10]) else n
  let info := fax.faxConnectInfoBuffer
  let n :=
    if p.b3Prot = b3T30WithExtensions ∧ fax.faxConnectInfoLength ≠ 0 then
      t30 (t30 n t30DataFormat (literal [info t30DataFormat])) t30Recording (literal [info t30Recording])
    else n
  t30 (t30 n t30Resolution (literal [octet resolution])) t30ResolutionHigh (literal [octet (resolution / 256)])

/-- Twenty octets, filled with blanks. -/
def putStationId (n : Param) (ps : List Parm) : Param :=
  let len := min (parm ps 2).length 20
  let n := t30 n t30StationId ((parmSource faxFormat ps 2).fetch 1 len ++ literal (List.replicate (20 - len) 32))
  t30 n t30StationIdLen (literal [20])

def headLineLen (ps : List Parm) : Nat := min ((parm ps 3).length % 256) capiMaxHeadLineSpace

def putHeadLine (n : Param) (ps : List Parm) : Param :=
  if (parm ps 3).length ≠ 0 then
    let len := headLineLen ps
    let n := (t30 n t30HeadLineLen (literal [octet len])).setLength (n.length + len)
    t30 n t30Size ((parmSource faxFormat ps 3).fetch 1 len)
  else t30 n t30HeadLineLen (literal [0])

/-- An octet string of the connection that is there already, with its length, or an empty
    one; and the position behind it, a byte. -/
def faxItem (fax : FaxInfo) (pos : Nat) : List UInt8 × Nat :=
  if pos < fax.faxConnectInfoLength then
    let n := 1 + (fax.faxConnectInfoBuffer pos).toNat
    ((List.range n).map fun j => fax.faxConnectInfoBuffer ((pos + j) % 256), (pos + n) % 256)
  else ([0], pos)

/-- The control bits in front of non-standard facilities. -/
def nsfControl (m : Mem) (pos length : Nat) : Nat := if 3 ≤ length ∧ 2 ≤ (m pos).toNat then word m (pos + 1) else 0

/-- The non-standard facilities, of the connection or of the configuration: their octets, the
    accesses for the control bits, and these. -/
def faxNsf (fax : FaxInfo) (pos : Nat) (c : Parm) : Fetched × Fetched × Nat :=
  let info := fax.faxConnectInfoBuffer
  if pos < fax.faxConnectInfoLength ∧ info pos ≠ 0 then
    (literal (faxItem fax pos).1, literal [], nsfControl info (pos + 1) (info pos).toNat)
  else
    match c.parse nsfFormat with
    | none => (literal [0], literal [], 0)
    | some ps =>
      let q := parm ps 4
      let e := parmSource nsfFormat ps 4
      let seen := if 3 ≤ q.length then e.fetch 1 1 ++ (if 2 ≤ q.byte 1 then e.fetch 2 2 else literal []) else literal []
      (literal [octet q.length] ++ e.fetch 1 q.length, seen, nsfControl q.info 1 q.length)

/-- `requested_options` for sub-addresses and non-standard facilities. -/
def faxOptions (f : Features) (p : BChannel) (dataFormat : Nat) : BChannel :=
  let p :=
    if f.privateOptions.testBit privateFaxSubSepPwd && hasBits dataFormat 0x8000 then
      { p with requestedOptions := p.requestedOptions ||| 2 ^ privateFaxSubSepPwd }
    else p
  if f.privateOptions.testBit privateFaxNonstandard && hasBits dataFormat 0x4000 then
    { p with requestedOptions := p.requestedOptions ||| 2 ^ privateFaxNonstandard }
  else p

/-- What is put behind the head line: the address and the password, and the facilities. -/
def faxItems (f : Features) (p : BChannel) (fax : FaxInfo) (applId : Nat) (c : Parm) : Fetched × Fetched × Nat :=
  let (address, pos) := faxItem fax t30Size
  let (password, pos) := faxItem fax pos
  if optionRequested f p applId privateFaxNonstandard then
    let (nsf, seen, bits) := faxNsf fax pos c
    (literal (address ++ password) ++ nsf, seen, bits)
  else (literal (address ++ password), literal [], 0)

/-- The address and the password or the facilities are asked for. -/
def wantsItems (f : Features) (p : BChannel) (applId : Nat) : Bool :=
  optionRequested f p applId privateFaxSubSepPwd || optionRequested f p applId privateFaxNonstandard

/-- The bits of the protocol with extensions; a selective polling needs an address. -/
def optionBits (f : Features) (p : BChannel) (applId dataFormat : Nat) (b : FaxBits) : FaxBits :=
  let b :=
    if f.privateOptions.testBit privateFaxNonstandard && hasBits dataFormat 0x0100 then
      { b with control2 := b.control2 ||| 0x0100 }
    else b
  if optionRequested f p applId privateFaxSubSepPwd then
    let b := { b with control := b.control ||| 0x0a00 }
    if hasBits b.control controlBitAcceptPolling then { b with control := b.control ||| 0x0400 } else b
  else b

/-- Strings behind the head line, with the control bits of the facilities. -/
def putItems (f : Features) (p : BChannel) (fax : FaxInfo) (n : Param) (applId : Nat) (c : Parm) : Param × Nat :=
  let (items, seen, bits) := faxItems f p fax applId c
  let n := (n.look seen).fill items
  if hasBits f.manufacturerFeatures featureFaxNonstandard && hasBits bits nsfControlBitNegotiateResp then
    (t30 n t30OperatingMode (literal [octet ((t30Field n t30OperatingMode &&& 0xf0) ||| 4)]), bits)
  else (n, bits)

/-- `fax_connect_info_buffer` takes over NLC without its head line. -/
def saveFaxInfo (fax : FaxInfo) (n : Param) : FaxInfo :=
  let info := store fax.faxConnectInfoBuffer 0 (load n.array.mem 1 t30Size)
  let info := store info t30HeadLineLen [0]
  let i := t30Size + t30Field n t30HeadLineLen
  let info := store info t30Size (load n.array.mem (i + 1) (n.length - i))
  { fax with faxConnectInfoBuffer := info, faxConnectInfoLength := t30Size + (n.length - i) }

/-- The words of the configuration of a fax, 0 where it has none. -/
def faxWord (c : Parm) (k : Nat) : Nat := if 2 * k + 2 ≤ c.length then (parm (parsed c faxFormat) k).word 0 else 0

def lookFaxWord (n : Param) (c : Parm) (k : Nat) : Param :=
  if 2 * k + 2 ≤ c.length then n.look ((parmSource faxFormat (parsed c faxFormat) k).fetch 0 2) else n

/-- NLC with the configuration up to the head line. -/
def putFax (f : Features) (p : BChannel) (fax : FaxInfo) (n : Param) (resolution : Nat) (c : Parm) : Param :=
  let ps := parsed c faxFormat
  let n := lookFaxWord (lookFaxWord n c 0) c 1
  putHeadLine (putStationId (putFormat f p fax n (faxWord c 1) resolution) ps) ps

/-- The strings of the protocol with extensions, where they are asked for. -/
def extendFax (f : Features) (p : BChannel) (fax : FaxInfo) (n : Param) (applId : Nat) (c : Parm) : Param × Nat :=
  if p.b3Prot = b3T30WithExtensions ∧ wantsItems f p applId then putItems f p fax n applId c else (n, 0)

def putFaxBits (n : Param) (b : FaxBits) : Param :=
  t30 (t30 n t30ControlBits (literal (leBytes 2 b.control))) t30FeatureBits (literal (leBytes 2 b.control2))

def addFax (f : Features) (s : B23) (applId : Nat) (n : Param) (c : Parm) : B23 × Param × Info :=
  if c.length ≠ 0 ∧ c.malformed faxFormat then (s, n, .wrongMessageFormat)
  else
    let b := faxBits f s.p s.fax applId (t30Field n t30Rate) (faxWord c 0) (faxWord c 1)
    let n := putFax f s.p s.fax n b.resolution c
    let extended := s.p.b3Prot = b3T30WithExtensions
    let p := if extended then faxOptions f s.p (faxWord c 1) else s.p
    let b := if extended then optionBits f p applId (faxWord c 1) b else b
    let strings := extendFax f p s.fax n applId c
    let n := putFaxBits strings.1 b
    ({ s with p, fax := saveFaxInfo { s.fax with nsfControlBits := strings.2 } n }, n, .success)

def isFax (b3 : Nat) : Bool := b3 == b3T30 || b3 == b3T30WithExtensions

def addB3 (f : Features) (s : B23) (applId : Nat) (n : Param) (c : Parm) : B23 × Param × Info :=
  if isFax s.p.b3Prot then addFax f s applId n c
  else
    let (n, info) := addX25 n c
    (s, n, info)

/-! ## add_b23 -/

/-- RTP and T.38: both configurations are copied as they are. -/
def addIp (s : B23) (max : Nat) (bps : List Parm) : B23 × Info :=
  let b2 := parm bps 4
  let b3 := parm bps 5
  let p := { s.p with b2Prot := (parm bps 1).word 0, b3Prot := (parm bps 2).word 0 }
  let dlc := (putWord s.dlc max).put 3 (literal [3, 1, 7, 7, 0, 0])
  let dlc := (dlc.put 9 (b2.struct.fetch 1 b2.length)).setLength (8 + b2.length)
  let nlc := (s.nlc.put 1 (b3.struct.fetch 1 b3.length)).setLength b3.length
  (({ s with p }.addDlc dlc).addNlc nlc, .success)

/-- `llc2_out` and `llc2_in` have one size, `llc3` and `header` another one. -/
def llc2Table : Source := ⟨fun i => octet (llc2Out.getD i 0), llc2Out.length⟩
def header : List Nat := [0, 2, 3, 3, 0, 0, 0, 0]
def headerTable : Source := ⟨fun i => octet (header.getD i 0), header.length⟩

/-- A layer 2 that is not in the tables. -/
def ownLayer2 (b2 : Nat) : Bool := b2 == b2Piafs || b2 == b2Ss7 || b2 == b2Listening

/-- The protocols and LLC. -/
def startLayers (s : B23) (b2 b3 : Nat) : B23 :=
  let s := { s with p := { s.p with b2Prot := b2, b3Prot := b3 } }
  let s := if ownLayer2 b2 then s else s.look (llc2Table.fetch b2 1)
  s.look (headerTable.fetch b3 1)

/-- DLC before its configuration is read. -/
def startDlc (s : B23) (max b3 : Nat) : Param := putWord (s.dlc.setLength 2) (max + header.getD b3 0)

/-- NLC before its configuration is read. -/
def startNlc (f : Features) (s : B23) (b3 : Nat) (b1Config : Parm) : Param :=
  let n := s.nlc.setLength 0
  if isFax b3 then startFax f n b1Config else n

/-- The layers, one after the other, and both parameters if they are accepted. -/
def addLayers (f : Features) (s : B23) (applId max : Nat) (bps : List Parm) : B23 × Info :=
  let b1 := (parm bps 0).word 0
  let b2 := (parm bps 1).word 0
  let b3 := (parm bps 2).word 0
  let s := startLayers s b2 b3
  let nlc := startNlc f s b3 (parm bps 3)
  let (dlc, info) := addB2 (startDlc s max b3) max (layer2 s.p b2) b1 b2 b3 (parm bps 4)
  if info ≠ .success then ({ s with dlc, nlc }, info)
  else
    let (s, nlc, info) := addB3 f s applId nlc (parm bps 5)
    if info ≠ .success then ({ s with dlc, nlc }, info) else ((s.addDlc dlc).addNlc nlc, .success)

/-- Without a B protocol: X.75, or transparent on a codec. -/
def addNoProtocol (s : B23) (max : Nat) : B23 × Info :=
  let p :=
    if s.p.tel ≠ .none then { s.p with advNl := true, b2Prot := 1, b3Prot := 0 } else { s.p with b2Prot := 0, b3Prot := 0 }
  ({ s with p }.addDlc (putWord (s.dlc.setLength 2) max), .success)

/-- RTP or T.38 on the adapter, or on a line side PLCI. -/
def isIp (f : Features) (p : BChannel) (b2 b3 : Nat) : Bool :=
  (b2 == b2Rtp && b3 == b3Rtp && privateOrLine f p privateRtp)
    || (b2 == b2T38 && (b3 == b3TransparentIp || b3 == b3Rtp) && privateOrLine f p privateT38)

def addProtocol (f : Features) (dma : Int) (s : B23) (applId max : Nat) (bps : List Parm) : B23 × Info :=
  let b1 := (parm bps 0).word 0
  let b2 := (parm bps 1).word 0
  let b3 := (parm bps 2).word 0
  let w := parmSource bFormat bps
  let s := s.look ((w 1).fetch 0 2 ++ (w 2).fetch 0 2)
  if isIp f s.p b2 b3 then addIp s max bps
  else if !b2Supported f b2 then (s, .b2NotSupported)
  else if !b3Supported f b3 then (s, .b3NotSupported)
  else
    let s := s.look ((w 0).fetch 0 2)
    if modemB23 b1 b2 then
      let (p, info) := addModemB23 f dma s.p applId bps
      ({ s with p }, info)
    else addLayers f s applId max bps

/-- The structure of the B protocol is parsed. -/
def addParsed (f : Features) (dma : Int) (s : B23) (applId max : Nat) (bps : List Parm) : B23 × Info :=
  let w := parmSource bFormat bps
  let s := if s.p.tel = .advVoice then s.look ((w 1).fetch 0 2 ++ (w 2).fetch 0 2) else s
  match codecB23 s.p bps with
  | none => (s, .b2NotSupported)
  | some p =>
    let global := parm bps 6
    match globalConfig global p.callDir with
    | none => ({ s with p }, .wrongMessageFormat)
    | some callDir =>
      let s := { s with p := { p with callDir } }
      let s := if global.length ≠ 0 then s.look ((parmSource [.w] (parsed global [.w]) 0).fetch 0 2) else s
      addProtocol f dma s applId max bps

/-- `add_b23`, from `dlc` and `nlc` as the calls before left them. -/
def addB23Octets (f : Features) (dma : Int) (p : BChannel) (fax : FaxInfo) (applId max : Nat) (dlc nlc : Mem) (bp : Parm) :
    B23 × Info :=
  let s := B23.start (takeDma f dma p) fax dlc nlc
  if bp.length = 0 then addNoProtocol s max
  else if 256 < bp.length then (s, .wrongMessageFormat)
  else
    match parseB bp with
    | none => (s, .wrongMessageFormat)
    | some bps => addParsed f dma s applId max bps

end Divas.Capi
