/-
  Divas.Tty.Ppp — the PPP framing of the asynchronous port (ppp.c).

  `pppExplode` expands a frame into stream buffers of the caller, `pppImplode` gathers frames
  from a stream that the caller has in pieces. Both are resumed: the buffer is full, the piece
  is at its end. A pointer into a buffer or a piece is the list of the bytes before it or from it on.
-/

import Divas.Lib.Escapes

namespace Divas.Tty.Ppp

open Divas.Lib.Escapes

/-! ## The checksum -/

def fcstab : List UInt16 :=
  [0x0000, 0x1189, 0x2312, 0x329b, 0x4624, 0x57ad, 0x6536, 0x74bf,
    0x8c48, 0x9dc1, 0xaf5a, 0xbed3, 0xca6c, 0xdbe5, 0xe97e, 0xf8f7,
    0x1081, 0x0108, 0x3393, 0x221a, 0x56a5, 0x472c, 0x75b7, 0x643e,
    0x9cc9, 0x8d40, 0xbfdb, 0xae52, 0xdaed, 0xcb64, 0xf9ff, 0xe876,
    0x2102, 0x308b, 0x0210, 0x1399, 0x6726, 0x76af, 0x4434, 0x55bd,
    0xad4a, 0xbcc3, 0x8e58, 0x9fd1, 0xeb6e, 0xfae7, 0xc87c, 0xd9f5,
    0x3183, 0x200a, 0x1291, 0x0318, 0x77a7, 0x662e, 0x54b5, 0x453c,
    0xbdcb, 0xac42, 0x9ed9, 0x8f50, 0xfbef, 0xea66, 0xd8fd, 0xc974,
    0x4204, 0x538d, 0x6116, 0x709f, 0x0420, 0x15a9, 0x2732, 0x36bb,
    0xce4c, 0xdfc5, 0xed5e, 0xfcd7, 0x8868, 0x99e1, 0xab7a, 0xbaf3,
    0x5285, 0x430c, 0x7197, 0x601e, 0x14a1, 0x0528, 0x37b3, 0x263a,
    0xdecd, 0xcf44, 0xfddf, 0xec56, 0x98e9, 0x8960, 0xbbfb, 0xaa72,
    0x6306, 0x728f, 0x4014, 0x519d, 0x2522, 0x34ab, 0x0630, 0x17b9,
    0xef4e, 0xfec7, 0xcc5c, 0xddd5, 0xa96a, 0xb8e3, 0x8a78, 0x9bf1,
    0x7387, 0x620e, 0x5095, 0x411c, 0x35a3, 0x242a, 0x16b1, 0x0738,
    0xffcf, 0xee46, 0xdcdd, 0xcd54, 0xb9eb, 0xa862, 0x9af9, 0x8b70,
    0x8408, 0x9581, 0xa71a, 0xb693, 0xc22c, 0xd3a5, 0xe13e, 0xf0b7,
    0x0840, 0x19c9, 0x2b52, 0x3adb, 0x4e64, 0x5fed, 0x6d76, 0x7cff,
    0x9489, 0x8500, 0xb79b, 0xa612, 0xd2ad, 0xc324, 0xf1bf, 0xe036,
    0x18c1, 0x0948, 0x3bd3, 0x2a5a, 0x5ee5, 0x4f6c, 0x7df7, 0x6c7e,
    0xa50a, 0xb483, 0x8618, 0x9791, 0xe32e, 0xf2a7, 0xc03c, 0xd1b5,
    0x2942, 0x38cb, 0x0a50, 0x1bd9, 0x6f66, 0x7eef, 0x4c74, 0x5dfd,
    0xb58b, 0xa402, 0x9699, 0x8710, 0xf3af, 0xe226, 0xd0bd, 0xc134,
    0x39c3, 0x284a, 0x1ad1, 0x0b58, 0x7fe7, 0x6e6e, 0x5cf5, 0x4d7c,
    0xc60c, 0xd785, 0xe51e, 0xf497, 0x8028, 0x91a1, 0xa33a, 0xb2b3,
    0x4a44, 0x5bcd, 0x6956, 0x78df, 0x0c60, 0x1de9, 0x2f72, 0x3efb,
    0xd68d, 0xc704, 0xf59f, 0xe416, 0x90a9, 0x8120, 0xb3bb, 0xa232,
    0x5ac5, 0x4b4c, 0x79d7, 0x685e, 0x1ce1, 0x0d68, 0x3ff3, 0x2e7a,
    0xe70e, 0xf687, 0xc41c, 0xd595, 0xa12a, 0xb0a3, 0x8238, 0x93b1,
    0x6b46, 0x7acf, 0x4854, 0x59dd, 0x2d62, 0x3ceb, 0x0e70, 0x1ff9,
    0xf78f, 0xe606, 0xd49d, 0xc514, 0xb1ab, 0xa022, 0x92b9, 0x8330,
    0x7bc7, 0x6a4e, 0x58d5, 0x495c, 0x3de3, 0x2c6a, 0x1ef1, 0x0f78]

def pppInitFcs16 : UInt16 := 0xffff
def pppGoodFcs16 : UInt16 := 0xf0b8

def pppfcs16 (fcs : UInt16) (cp : List UInt8) : UInt16 :=
  cp.foldl (fun fcs c => (fcs >>> 8) ^^^ fcstab.getD ((fcs ^^^ c.toUInt16) &&& 0xff).toNat 0) fcs

/-- The two bytes of `Checksum` for a frame, in little endian order. -/
def checksumOf (frame : List UInt8) : List UInt8 :=
  let fcs := pppfcs16 pppInitFcs16 frame ^^^ pppInitFcs16
  [fcs.toUInt8, (fcs >>> 8).toUInt8]

/-- `ACCM & (1 << c)` of a control character. -/
def mapped (accm : UInt32) (c : UInt8) : Bool := c < 0x20 && accm &&& (1 <<< c.toUInt32) != 0

/-! ## Explode -/

inductive ExpState where
  | start
  | again
  | check
  deriving DecidableEq

/-- `PPP_STREAM` of `pppExplode`: `frame` are the `sizeFrame` bytes from `Frame` on, which may point into
    `Checksum`, and `stream` the bytes between `baseStream` and `Stream`. -/
structure ExpStream where
  state : ExpState
  checksum : List UInt8
  frame : List UInt8
  stream : List UInt8
  sizeStream : Nat
  deriving DecidableEq

/-- The bytes that `explode` always escapes. -/
def special : List UInt8 := [0x7e, 0x7d, 0x11, 0x13, 0x91, 0x93]

def mustEscape (accm : UInt32) (c : UInt8) : Bool := special.contains c || mapped accm c

/-- The loop of `explode`: whether it comes to the end of the frame, what is left of it, and the stream. -/
def explodeLoop (accm : UInt32) (sizeStream : Nat) : List UInt8 → List UInt8 → Bool × List UInt8 × List UInt8
  | [], stream => (true, [], stream)
  | c :: frame, stream =>
    let endStream : Int := (sizeStream : Int) - 2
    if mustEscape accm c then
      if (stream.length : Int) ≥ endStream then (false, c :: frame, stream)
      else explodeLoop accm sizeStream frame (stream ++ [0x7d, c ^^^ 0x20])
    else if (stream.length : Int) > endStream then (false, c :: frame, stream)
    else explodeLoop accm sizeStream frame (stream ++ [c])

/-- `explode`, which leaves `Frame` and `sizeFrame` as they are when it comes to the end. -/
def explode (s : ExpStream) (accm : UInt32) : Bool × ExpStream :=
  match explodeLoop accm s.sizeStream s.frame s.stream with
  | (true, _, stream) => (true, { s with stream := stream })
  | (false, frame, stream) => (false, { s with frame := frame, stream := stream })

/-- `pppExplode` behind the start of a frame. -/
def explodeOn (s : ExpStream) (accm : UInt32) : ExpStream :=
  match explode s accm with
  | (true, s) =>
    if s.state ≠ .check then
      match explode { s with state := .check, frame := s.checksum } accm with
      | (true, s) => { s with state := .start, stream := s.stream ++ [0x7e] }
      | (false, s) => s
    else s
  | (false, s) => if s.state = .start then { s with state := .again } else s

/-- `pppExplode`. -/
def pppExplode (s : ExpStream) (accm : UInt32) : ExpStream :=
  if s.state = .start then explodeOn { s with checksum := checksumOf s.frame, stream := s.stream ++ [0x7e] } accm
  else explodeOn s accm

/-! ## Implode -/

inductive ImpState where
  | start
  | more
  | escape
  | scan
  deriving DecidableEq

/-- `PPP_STREAM` of `pppImplode`: `stream` are the bytes of the piece from `Stream` on, `frame` the bytes between
    `baseFrame` and `Frame`. -/
structure ImpStream where
  state : ImpState
  check : Bool
  stream : List UInt8
  sizeStream : Nat
  frame : List UInt8
  sizeFrame : Nat
  deriving DecidableEq

/-- Where `pppImplode` is when it looks at the counter and the next byte: at one of its states, or behind an
    escape in the loop. -/
inductive Place where
  | inState (state : ImpState)
  | unescape
  deriving DecidableEq

inductive Turn where
  /-- Leave with a complete frame. -/
  | done (sizeStream : Nat) (s : ImpStream)
  | next (place : Place) (sizeStream : Nat) (s : ImpStream)

/-- `restart`: forget the frame and scan on. -/
def restart (sizeStream : Nat) (s : ImpStream) : Turn := .next (.inState s.state) sizeStream { s with frame := [] }

/-- Put a byte into the frame buffer, and go on in the loop. -/
def put (c : UInt8) (sizeStream : Nat) (s : ImpStream) : Turn :=
  if s.frame.length ≥ s.sizeFrame then restart sizeStream { s with state := .scan }
  else .next (.inState .more) sizeStream { s with frame := s.frame ++ [c] }

/-- A byte of the loop; the counter is already the one behind it. -/
def moreByte (accm : UInt32) (c : UInt8) (sizeStream : Nat) (s : ImpStream) : Turn :=
  if c = 0x7e then
    let sizeFrame := s.frame.length % 65536
    if sizeFrame < 4 then restart sizeStream { s with state := .start }
    else if s.check && pppfcs16 pppInitFcs16 (s.frame.take sizeFrame) != pppGoodFcs16 then
      restart sizeStream { s with state := .start }
    else .done sizeStream { s with frame := s.frame.dropLast.dropLast, state := .start }
  else if c = 0x7d then .next .unescape sizeStream s
  else if accm != 0 && mapped accm c then .next (.inState .more) sizeStream s
  else put c sizeStream s

/-- A byte at a place, with `sizeStream` as the counter before it. -/
def implodeByte (accm : UInt32) (place : Place) (c : UInt8) (sizeStream : Nat) (s : ImpStream) : Turn :=
  match place with
  | .inState .scan =>
    if c ≠ 0x7e then .next (.inState .scan) (sizeStream - 1) s
    else .next (.inState .start) (sizeStream - 1) { s with state := .start }
  | .inState .start =>
    if c = 0x7e then .next (.inState .start) (sizeStream - 1) s
    else moreByte accm c (sizeStream - 1) { s with state := .more }
  | .inState .escape =>
    if mapped accm c then .next (.inState .escape) (sizeStream - 1) s
    -- the counter stays as it is
    else if c = 0x7e then restart sizeStream { s with state := .start }
    else if s.frame.length ≥ s.sizeFrame then restart sizeStream { s with state := .scan }
    else .next (.inState .more) sizeStream { s with frame := s.frame ++ [c ^^^ 0x20], state := .more }
  | .inState .more => moreByte accm c (sizeStream - 1) s
  | .unescape =>
    -- the counter of an empty piece wraps, and the loop goes on
    if sizeStream = 0 then moreByte accm c 0xfffe { s with state := .escape }
    else if mapped accm c then .next .unescape (sizeStream - 1) s
    else if c = 0x7e then restart (sizeStream - 1) { s with state := .start }
    else put (c ^^^ 0x20) (sizeStream - 1) s

/-- `pppImplode` from a place on; `none` is a read behind the piece. -/
def implodeFrom (accm : UInt32) : Place → List UInt8 → Nat → ImpStream → Option ImpStream
  | place, [], sizeStream, s =>
    if sizeStream = 0 ∧ place ≠ .unescape then some { s with stream := [], sizeStream := 0 } else none
  | place, c :: stream, sizeStream, s =>
    if sizeStream = 0 ∧ place ≠ .unescape then some { s with stream := c :: stream, sizeStream := 0 }
    else
      match implodeByte accm place c sizeStream s with
      | .done sizeStream s => some { s with stream := stream, sizeStream := sizeStream }
      | .next place sizeStream s => implodeFrom accm place stream sizeStream s

/-- `pppImplode`. -/
def pppImplode (s : ImpStream) (accm : UInt32) : Option ImpStream := implodeFrom accm (.inState s.state) s.stream s.sizeStream s

/-! ## The callers -/

/-- The first calls of `pppExplode` for a frame, each with a new buffer: the stream after them, and what they left
    in the buffers. -/
def explodeCalls (accm : UInt32) (frame : List UInt8) (sizes : Nat → Nat) : Nat → ExpStream × List (List UInt8)
  | 0 => ({ state := .start, checksum := [], frame := frame, stream := [], sizeStream := 0 }, [])
  | k + 1 =>
    let r := explodeCalls accm frame sizes k
    let s := pppExplode { r.1 with stream := [], sizeStream := sizes k } accm
    (s, r.2 ++ [s.stream])

/-- What the caller does with a complete frame: it takes it and gives the buffer back. -/
def deliver (s : ImpStream) : List (List UInt8) × ImpStream :=
  if 0 < s.frame.length % 65536 ∧ s.state = .start then ([s.frame], { s with frame := [] }) else ([], s)

/-- The calls of `pppImplode` until the piece is empty, with the frames that they complete. -/
def implodePiece (accm : UInt32) : Nat → ImpStream → Option (List (List UInt8) × ImpStream)
  | 0, _ => none
  | fuel + 1, s =>
    (pppImplode s accm).bind fun s =>
      let r := deliver s
      if r.2.sizeStream = 0 then some r
      else (implodePiece accm fuel r.2).map fun r' => (r.1 ++ r'.1, r'.2)

/-- A stream in pieces. -/
def implodePieces (accm : UInt32) : List (List UInt8) → ImpStream → Option (List (List UInt8) × ImpStream)
  | [], s => some ([], s)
  | piece :: pieces, s =>
    (implodePiece accm (piece.length + 1) { s with stream := piece, sizeStream := piece.length }).bind fun r =>
      (implodePieces accm pieces r.2).map fun r' => (r.1 ++ r'.1, r'.2)

/-- `PPP_STREAM` at the begin of processing, with `Check` set. -/
def impInit (sizeFrame : Nat) : ImpStream where
  state := .start
  check := true
  stream := []
  sizeStream := 0
  frame := []
  sizeFrame := sizeFrame

end Divas.Tty.Ppp
