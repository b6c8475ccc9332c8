/-
  Divas.Tty.Btx — the BTX frame conversions of the port (btx.c).

  A frame has a header of two bytes. Transparent data is saved as a page (`push`) and then
  presented to the client in blocks, each one when the client has acknowledged the one before
  (`present`); screen data is passed, or held while a page is presented.

  `Page` and `Hold` are memories from their first byte on: what lies behind the array is
  there and is read, and writes are checked (`Checked`). What a call hands on to
  `portRxEnqueue` and to `portXmit` is `Out`. `portXmit` says whether a frame is taken.
-/

import Divas.Lib.Checks

namespace Divas.Tty.Btx

open Divas.Lib.Bytes Divas.Lib.Checks

def btxMaxPage : Nat := 2048
def btxMaxHold : Nat := 256

def btxHdrScreen : Nat := 0x0001
def btxHdrTdMore : Nat := 0x0104
def btxHdrTdLast : Nat := 0x0004

/-- `BTX_TAG_END_PAGE`, in the order of the bytes. -/
def btxTagEndPage : List UInt8 := [0x1f, 0x42, 0x41, 0x11]

def ascStx : UInt8 := 0x02
def ascEtx : UInt8 := 0x03
def ascEot : UInt8 := 0x04
def ascEnq : UInt8 := 0x05
def ascDle : UInt8 := 0x10
def ascEtb : UInt8 := 0x17

def eotDleEnq : List UInt8 := [ascEot, ascDle, ascEnq]
def dleEot : List UInt8 := [ascDle, ascEot]

def crctab : List (BitVec 16) :=
  [0x0000, 0xc0c1, 0xc181, 0x0140, 0xc301, 0x03c0, 0x0280, 0xc241,
    0xc601, 0x06c0, 0x0780, 0xc741, 0x0500, 0xc5c1, 0xc481, 0x0440,
    0xcc01, 0x0cc0, 0x0d80, 0xcd41, 0x0f00, 0xcfc1, 0xce81, 0x0e40,
    0x0a00, 0xcac1, 0xcb81, 0x0b40, 0xc901, 0x09c0, 0x0880, 0xc841,
    0xd801, 0x18c0, 0x1980, 0xd941, 0x1b00, 0xdbc1, 0xda81, 0x1a40,
    0x1e00, 0xdec1, 0xdf81, 0x1f40, 0xdd01, 0x1dc0, 0x1c80, 0xdc41,
    0x1400, 0xd4c1, 0xd581, 0x1540, 0xd701, 0x17c0, 0x1680, 0xd641,
    0xd201, 0x12c0, 0x1380, 0xd341, 0x1100, 0xd1c1, 0xd081, 0x1040,
    0xf001, 0x30c0, 0x3180, 0xf141, 0x3300, 0xf3c1, 0xf281, 0x3240,
    0x3600, 0xf6c1, 0xf781, 0x3740, 0xf501, 0x35c0, 0x3480, 0xf441,
    0x3c00, 0xfcc1, 0xfd81, 0x3d40, 0xff01, 0x3fc0, 0x3e80, 0xfe41,
    0xfa01, 0x3ac0, 0x3b80, 0xfb41, 0x3900, 0xf9c1, 0xf881, 0x3840,
    0x2800, 0xe8c1, 0xe981, 0x2940, 0xeb01, 0x2bc0, 0x2a80, 0xea41,
    0xee01, 0x2ec0, 0x2f80, 0xef41, 0x2d00, 0xedc1, 0xec81, 0x2c40,
    0xe401, 0x24c0, 0x2580, 0xe541, 0x2700, 0xe7c1, 0xe681, 0x2640,
    0x2200, 0xe2c1, 0xe381, 0x2340, 0xe101, 0x21c0, 0x2080, 0xe041,
    0xa001, 0x60c0, 0x6180, 0xa141, 0x6300, 0xa3c1, 0xa281, 0x6240,
    0x6600, 0xa6c1, 0xa781, 0x6740, 0xa501, 0x65c0, 0x6480, 0xa441,
    0x6c00, 0xacc1, 0xad81, 0x6d40, 0xaf01, 0x6fc0, 0x6e80, 0xae41,
    0xaa01, 0x6ac0, 0x6b80, 0xab41, 0x6900, 0xa9c1, 0xa881, 0x6840,
    0x7800, 0xb8c1, 0xb981, 0x7940, 0xbb01, 0x7bc0, 0x7a80, 0xba41,
    0xbe01, 0x7ec0, 0x7f80, 0xbf41, 0x7d00, 0xbdc1, 0xbc81, 0x7c40,
    0xb401, 0x74c0, 0x7580, 0xb541, 0x7700, 0xb7c1, 0xb681, 0x7640,
    0x7200, 0xb2c1, 0xb381, 0x7340, 0xb101, 0x71c0, 0x7080, 0xb041,
    0x5000, 0x90c1, 0x9181, 0x5140, 0x9301, 0x53c0, 0x5280, 0x9241,
    0x9601, 0x56c0, 0x5780, 0x9741, 0x5500, 0x95c1, 0x9481, 0x5440,
    0x9c01, 0x5cc0, 0x5d80, 0x9d41, 0x5f00, 0x9fc1, 0x9e81, 0x5e40,
    0x5a00, 0x9ac1, 0x9b81, 0x5b40, 0x9901, 0x59c0, 0x5880, 0x9841,
    0x8801, 0x48c0, 0x4980, 0x8941, 0x4b00, 0x8bc1, 0x8a81, 0x4a40,
    0x4e00, 0x8ec1, 0x8f81, 0x4f40, 0x8d01, 0x4dc0, 0x4c80, 0x8c41,
    0x4400, 0x84c1, 0x8581, 0x4540, 0x8701, 0x47c0, 0x4680, 0x8641,
    0x8201, 0x42c0, 0x4380, 0x8341, 0x4100, 0x81c1, 0x8081, 0x4040]

def btxCRC16 (crc : BitVec 16) (cp : List UInt8) : BitVec 16 :=
  cp.foldl (fun crc c => (crc >>> 8) ^^^ crctab.getD ((crc ^^^ c.toBitVec.setWidth 16) &&& 0xff).toNat 0) crc

inductive State where
  | screen
  | tdInPush
  | tdInFlush
  | tdInPop
  deriving DecidableEq, Repr

/-- `BTX_DATA`. -/
structure BtxData where
  state : State
  nextAck : Nat
  page : Mem
  sizePage : Nat
  sizeData : Nat
  nextData : Nat
  hold : Mem
  sizeHold : Nat

inductive Out where
  | rxEnqueue (data : List UInt8)
  | xmit (frame : List UInt8)
  deriving DecidableEq, Repr

def btxUp (s : BtxData) : BtxData := { s with state := .screen, sizePage := btxMaxPage }

/-! ## Frames from the network -/

/-- The end of `btxRecv`: the tag of a page is followed by an EOT. -/
def pass (data : List UInt8) (sizeStream : Nat) : Checked (List UInt8) :=
  if 4 ≤ data.length ∧ data.drop (data.length - 4) = btxTagEndPage then do
    let stream ← put sizeStream (fun _ => 0) 0 data
    let stream ← put sizeStream stream data.length [ascEot]
    pure (load stream 0 (data.length + 1))
  else pure data

/-- The transparent data of a frame is saved. -/
def push (s : BtxData) (hdr : Nat) (data : List UInt8) : Checked (BtxData × List Out) :=
  if s.sizeData + data.length > s.sizePage then
    pure ({ s with state := if hdr = btxHdrTdMore then .tdInFlush else .screen }, [])
  else do
    let page ← put btxMaxPage s.page s.sizeData data
    let s := { s with page := page, sizeData := s.sizeData + data.length }
    if hdr = btxHdrTdLast then pure ({ s with state := .tdInPop, nextAck := 0 }, [.rxEnqueue eotDleEnq])
    else pure (s, [])

/-- The screen data of a frame is held. -/
def keep (s : BtxData) (data : List UInt8) : Checked BtxData :=
  if s.sizeHold + data.length > btxMaxHold then pure s
  else do
    let hold ← put btxMaxHold s.hold s.sizeHold data
    pure { s with hold := hold, sizeHold := s.sizeHold + data.length }

/-- The state, what is enqueued, and the data that is left for the caller. -/
def btxRecv (s : BtxData) (data : List UInt8) (sizeStream : Nat) : Checked (BtxData × List Out × List UInt8) :=
  if data.length ≤ 2 then pure (s, [], [])
  else
    let hdr := leNat (data.take 2)
    let data := data.drop 2
    match s.state with
    | .screen =>
      if hdr = btxHdrTdMore ∨ hdr = btxHdrTdLast then do
        let (s, out) ← push { s with state := .tdInPush, sizeHold := 0, sizeData := 0, nextData := 0 } hdr data
        pure (s, out, [])
      else do
        let data ← pass data sizeStream
        pure (s, [], data)
    | .tdInPush =>
      if hdr = btxHdrTdMore ∨ hdr = btxHdrTdLast then do
        let (s, out) ← push s hdr data
        pure (s, out, [])
      else do
        let data ← pass data sizeStream
        pure ({ s with state := .screen }, [], data)
    | .tdInPop =>
      if hdr = btxHdrScreen then do
        let s ← keep s data
        pure (s, [], [])
      else pure (s, [], [])
    | .tdInFlush =>
      if hdr = btxHdrTdMore then pure (s, [], [])
      else if hdr = btxHdrTdLast then pure ({ s with state := .screen }, [], [])
      else do
        let data ← pass data sizeStream
        pure ({ s with state := .screen }, [], data)

/-! ## Data from the client -/

/-- The bytes of a chunk, with each DLE doubled. -/
def doubled : List UInt8 → List UInt8
  | [] => []
  | b :: bs => if b = ascDle then b :: ascDle :: doubled bs else b :: doubled bs

/-- The loop for screen data, each turn of which takes a byte at least; a frame that is not taken ends it. -/
def screenLoop (portXmit : List UInt8 → Bool) (sizeFrame : Nat) : Nat → List UInt8 → Checked (List Out)
  | 0, _ => pure []
  | turns + 1, this =>
    if this.length = 0 then pure []
    else do
      let sizeChunk := if this.length < 126 then this.length else 126
      let frame ← put sizeFrame (fun _ => 0) 0 [0x01, 0x00]
      let frame ← put sizeFrame frame 2 (this.take sizeChunk)
      let sent := load frame 0 (2 + sizeChunk)
      if portXmit sent then do
        let rest ← screenLoop portXmit sizeFrame turns (this.drop sizeChunk)
        pure (.xmit sent :: rest)
      else pure [.xmit sent]

/-- The next chunk, or the end of the page. -/
def present (s : BtxData) (sizeFrame : Nat) : Checked (BtxData × List Out) :=
  let sizeChunk := if s.sizeData - s.nextData > 256 then 256 else s.sizeData - s.nextData
  if sizeChunk = 0 then
    pure ({ s with state := .screen },
      .rxEnqueue (eotDleEnq.take 1) :: if s.sizeHold ≠ 0 then [.rxEnqueue (load s.hold 0 s.sizeHold)] else [])
  else do
    let this := s.nextData
    let last := s.nextData + sizeChunk
    let endCC := if last ≥ s.sizeData then ascEtx else ascEtb
    let s := if last ≥ s.sizeData then { s with nextData := 0, sizeData := 0 } else { s with nextData := last }
    -- the byte past the chunk is the end code while the checksum is computed
    let savCC := s.page last
    let page ← put btxMaxPage s.page last [endCC]
    let checksum := btxCRC16 0 (load page this (sizeChunk + 1))
    let page ← put btxMaxPage page last [savCC]
    let bytes := [ascDle, ascStx] ++ doubled (load page this sizeChunk) ++
      [ascDle, endCC, UInt8.ofBitVec (checksum.setWidth 8), UInt8.ofBitVec ((checksum >>> 8).setWidth 8)]
    let frame ← put sizeFrame (fun _ => 0) 0 bytes
    pure ({ s with page := page }, [.rxEnqueue (load frame 0 bytes.length)])

/-- The `0` or `1` behind the DLE of an acknowledgement. -/
def digit (s : BtxData) (this : List UInt8) (sizeFrame : Nat) : Checked (BtxData × List Out) := do
  let c ← readAt this 0
  if c ≠ (0x30 : UInt8) + UInt8.ofNat ((s.nextAck >>> 1) &&& 1) ∨ this.length ≠ 1 then pure (s, [.rxEnqueue dleEot])
  else present { s with nextAck := (s.nextAck + 1) % 65536 } sizeFrame

def btxWrite (portXmit : List UInt8 → Bool) (s : BtxData) (data : List UInt8) (sizeFrame : Nat) : Checked (BtxData × List Out) :=
  match s.state with
  | .screen => do
    let out ← screenLoop portXmit sizeFrame data.length data
    pure (s, out)
  | .tdInPush => pure (s, [])
  | .tdInFlush => pure (s, [])
  | .tdInPop =>
    if s.nextAck &&& 1 = 0 then do
      let c ← readAt data 0
      if c ≠ ascDle then pure (s, [.rxEnqueue dleEot])
      else
        let s := { s with nextAck := (s.nextAck + 1) % 65536 }
        if data.length = 1 then pure (s, [])
        else digit s (data.drop 1) sizeFrame
    else digit s data sizeFrame

/-! ## The port -/

/-- `MAX_RNA_STREAM_BUFFER`, the size of `Stream`. -/
def maxRnaStreamBuffer : Nat := 3200

/-- `ISDN_MAX_FRAME`, the size of `data_Frame`. -/
def isdnMaxFrame : Nat := 2048

inductive Event where
  | recv (data : List UInt8)
  | write (data : List UInt8)
  deriving DecidableEq, Repr

/-- `portRecv` and `portWrite`: what `btxRecv` leaves is enqueued. -/
def step (portXmit : List UInt8 → Bool) (s : BtxData) : Event → Checked (BtxData × List Out)
  | .recv data => do
    let (s, out, rest) ← btxRecv s data maxRnaStreamBuffer
    pure (s, if rest.length = 0 then out else out ++ [.rxEnqueue rest])
  | .write data => btxWrite portXmit s data isdnMaxFrame

/-- The events one after the other, and all that is handed on. -/
def run (portXmit : List UInt8 → Bool) : BtxData → List Event → Checked (BtxData × List Out)
  | s, [] => pure (s, [])
  | s, e :: es => do
    let (s, out) ← step portXmit s e
    let (s, rest) ← run portXmit s es
    pure (s, out ++ rest)

end Divas.Tty.Btx
