/-
  Divas.Tty.Hdlc — the software HDLC receiver (hdlc.c).

  `diva_hdlc_rx_process` gets a byte of the line at a time and keeps the bits it has not
  used, the first one lowest, in `hdlc_rx_resid_data_bits`. Its loop is `rxLoop`, a turn of
  it `rxTurn`: the receiver waits for more bits, uses some up, or has a frame.

  In the data state the five bits in front are those before the next byte: with them it sees
  where a zero was stuffed. Words are bit vectors. Where C works with an int wider than the
  word that is assigned, the places above do not come back.

  `rx_message` is an array in the record, so it is never NULL, and the state is one of three.
-/

import Mathlib.Data.List.Basic

namespace Divas.Tty

abbrev Byte := BitVec 8

def ddalHdlcCrcTable : List (BitVec 16) :=
  [0x0000, 0x1189, 0x2312, 0x329b, 0x4624, 0x57ad, 0x6536, 0x74bf, 0x8c48, 0x9dc1, 0xaf5a, 0xbed3, 0xca6c, 0xdbe5, 0xe97e, 0xf8f7,
   0x1081, 0x0108, 0x3393, 0x221a, 0x56a5, 0x472c, 0x75b7, 0x643e, 0x9cc9, 0x8d40, 0xbfdb, 0xae52, 0xdaed, 0xcb64, 0xf9ff, 0xe876,
   0x2102, 0x308b, 0x0210, 0x1399, 0x6726, 0x76af, 0x4434, 0x55bd, 0xad4a, 0xbcc3, 0x8e58, 0x9fd1, 0xeb6e, 0xfae7, 0xc87c, 0xd9f5,
   0x3183, 0x200a, 0x1291, 0x0318, 0x77a7, 0x662e, 0x54b5, 0x453c, 0xbdcb, 0xac42, 0x9ed9, 0x8f50, 0xfbef, 0xea66, 0xd8fd, 0xc974,
   0x4204, 0x538d, 0x6116, 0x709f, 0x0420, 0x15a9, 0x2732, 0x36bb, 0xce4c, 0xdfc5, 0xed5e, 0xfcd7, 0x8868, 0x99e1, 0xab7a, 0xbaf3,
   0x5285, 0x430c, 0x7197, 0x601e, 0x14a1, 0x0528, 0x37b3, 0x263a, 0xdecd, 0xcf44, 0xfddf, 0xec56, 0x98e9, 0x8960, 0xbbfb, 0xaa72,
   0x6306, 0x728f, 0x4014, 0x519d, 0x2522, 0x34ab, 0x0630, 0x17b9, 0xef4e, 0xfec7, 0xcc5c, 0xddd5, 0xa96a, 0xb8e3, 0x8a78, 0x9bf1,
   0x7387, 0x620e, 0x5095, 0x411c, 0x35a3, 0x242a, 0x16b1, 0x0738, 0xffcf, 0xee46, 0xdcdd, 0xcd54, 0xb9eb, 0xa862, 0x9af9, 0x8b70,
   0x8408, 0x9581, 0xa71a, 0xb693, 0xc22c, 0xd3a5, 0xe13e, 0xf0b7, 0x0840, 0x19c9, 0x2b52, 0x3adb, 0x4e64, 0x5fed, 0x6d76, 0x7cff,
   0x9489, 0x8500, 0xb79b, 0xa612, 0xd2ad, 0xc324, 0xf1bf, 0xe036, 0x18c1, 0x0948, 0x3bd3, 0x2a5a, 0x5ee5, 0x4f6c, 0x7df7, 0x6c7e,
   0xa50a, 0xb483, 0x8618, 0x9791, 0xe32e, 0xf2a7, 0xc03c, 0xd1b5, 0x2942, 0x38cb, 0x0a50, 0x1bd9, 0x6f66, 0x7eef, 0x4c74, 0x5dfd,
   0xb58b, 0xa402, 0x9699, 0x8710, 0xf3af, 0xe226, 0xd0bd, 0xc134, 0x39c3, 0x284a, 0x1ad1, 0x0b58, 0x7fe7, 0x6e6e, 0x5cf5, 0x4d7c,
   0xc60c, 0xd785, 0xe51e, 0xf497, 0x8028, 0x91a1, 0xa33a, 0xb2b3, 0x4a44, 0x5bcd, 0x6956, 0x78df, 0x0c60, 0x1de9, 0x2f72, 0x3efb,
   0xd68d, 0xc704, 0xf59f, 0xe416, 0x90a9, 0x8120, 0xb3bb, 0xa232, 0x5ac5, 0x4b4c, 0x79d7, 0x685e, 0x1ce1, 0x0d68, 0x3ff3, 0x2e7a,
   0xe70e, 0xf687, 0xc41c, 0xd595, 0xa12a, 0xb0a3, 0x8238, 0x93b1, 0x6b46, 0x7acf, 0x4854, 0x59dd, 0x2d62, 0x3ceb, 0x0e70, 0x1ff9,
   0xf78f, 0xe606, 0xd49d, 0xc514, 0xb1ab, 0xa022, 0x92b9, 0x8330, 0x7bc7, 0x6a4e, 0x58d5, 0x495c, 0x3de3, 0x2c6a, 0x1ef1, 0x0f78]

def ddalTrailingZeroesTable : List Nat :=
  [8, 0, 1, 0, 2, 0, 1, 0, 3, 0, 1, 0, 2, 0, 1, 0, 4, 0, 1, 0, 2, 0, 1, 0, 3, 0, 1, 0, 2, 0, 1, 0,
   5, 0, 1, 0, 2, 0, 1, 0, 3, 0, 1, 0, 2, 0, 1, 0, 4, 0, 1, 0, 2, 0, 1, 0, 3, 0, 1, 0, 2, 0, 1, 0,
   6, 0, 1, 0, 2, 0, 1, 0, 3, 0, 1, 0, 2, 0, 1, 0, 4, 0, 1, 0, 2, 0, 1, 0, 3, 0, 1, 0, 2, 0, 1, 0,
   5, 0, 1, 0, 2, 0, 1, 0, 3, 0, 1, 0, 2, 0, 1, 0, 4, 0, 1, 0, 2, 0, 1, 0, 3, 0, 1, 0, 2, 0, 1, 0,
   7, 0, 1, 0, 2, 0, 1, 0, 3, 0, 1, 0, 2, 0, 1, 0, 4, 0, 1, 0, 2, 0, 1, 0, 3, 0, 1, 0, 2, 0, 1, 0,
   5, 0, 1, 0, 2, 0, 1, 0, 3, 0, 1, 0, 2, 0, 1, 0, 4, 0, 1, 0, 2, 0, 1, 0, 3, 0, 1, 0, 2, 0, 1, 0,
   6, 0, 1, 0, 2, 0, 1, 0, 3, 0, 1, 0, 2, 0, 1, 0, 4, 0, 1, 0, 2, 0, 1, 0, 3, 0, 1, 0, 2, 0, 1, 0,
   5, 0, 1, 0, 2, 0, 1, 0, 3, 0, 1, 0, 2, 0, 1, 0, 4, 0, 1, 0, 2, 0, 1, 0, 3, 0, 1, 0, 2, 0, 1, 0]

def wordTrailingZeroes (w : BitVec 16) : Nat :=
  if w &&& 0xff ≠ 0 then ddalTrailingZeroesTable.getD (w &&& 0xff).toNat 0 else ddalTrailingZeroesTable.getD (w >>> 8).toNat 0 + 8

inductive RxState where
  | searchFlag
  | searchData
  | data
  deriving DecidableEq, Repr

def hdlcCrcInit : BitVec 16 := 0xffff

def hdlcCrcOk : BitVec 16 := 0xf0b8

/-- `DDALFAX_MAX_HDLC_FRAME_LENGTH`. -/
def maxHdlcFrameLength : Nat := 2048 + 7 + 2

/-- `diva_soft_hdlc_t`; `rxMessage` is `rx_message` up to `rx_message_pos`. -/
structure SoftHdlc where
  residDataBits : BitVec 32
  residBitCount : Nat
  rxState : RxState
  flagCounter : Nat
  rxCrc : BitVec 16
  rxMessage : List Byte
  rxMessageSize : Nat
  deriving DecidableEq

namespace SoftHdlc

/-- `diva_init_hdlc_rx_process`. -/
def init : SoftHdlc := ⟨0, 0, .searchFlag, 0, 0, [], 0⟩

/-- `ddalfax_rx_begin_message`; the buffer has `DDALFAX_MAX_HDLC_FRAME_LENGTH + 4` bytes. -/
def beginMessage (h : SoftHdlc) (size : Nat) : SoftHdlc :=
  { h with rxMessage := [], rxMessageSize := if maxHdlcFrameLength + 4 < size then maxHdlcFrameLength + 4 else size }

/-- What a turn of the loop does. `wait` returns 0, `frame` returns the message. -/
inductive Turn where
  | wait (h : SoftHdlc)
  | frame (h : SoftHdlc) (data : List Byte)
  | eat (h : SoftHdlc) (bits : Nat)

/-- The places where a flag has its last one. -/
def flagEnds (bits : BitVec 16) : BitVec 16 :=
  let w := bits &&& 0x7ffe
  let w := w &&& (w <<< 1)
  let w := w &&& (w <<< 2)
  let w := w &&& (w <<< 2)
  let w := w &&& (~~~bits <<< 6)
  w &&& ((~~~(bits.setWidth 32)).sshiftRight 1).setWidth 16

/-- The places where five ones end. -/
def fiveOnes (bits : BitVec 16) : BitVec 16 :=
  let w := bits &&& (bits <<< 1)
  let w := w &&& (w <<< 2)
  w &&& (w <<< 1)

/-- The closing flag. A frame that is not returned leaves the receiver behind the flag. -/
def endOfFrame (h : SoftHdlc) (bits : Nat) : Turn :=
  if h.rxCrc = hdlcCrcOk ∧ h.rxMessage.length > 2 then .frame h (h.rxMessage.take (h.rxMessage.length - 2))
  else .eat { h with flagCounter := 0, rxState := .searchData } bits

/-- A byte of data; the stuffed zeros are out of `newDataBits`. -/
def rxByte (h : SoftHdlc) (newDataBits : BitVec 16) (bits : Nat) : Turn :=
  let w := newDataBits >>> (bits - 3)
  let h := { h with rxCrc := (h.rxCrc >>> 8) ^^^ ddalHdlcCrcTable.getD ((h.rxCrc ^^^ w) &&& 0xff).toNat 0 }
  if h.rxMessage.length + 2 < h.rxMessageSize then .eat { h with rxMessage := h.rxMessage ++ [w.setWidth 8] } bits
  else .eat { h with rxState := .searchFlag } bits

def rxData (h : SoftHdlc) (newDataBits : BitVec 16) : Turn :=
  if h.residBitCount < 16 then
    if h.residBitCount < 13 then .wait h
    else if h.residBitCount > 13 ∧ newDataBits &&& 0x3fff = 0x1f9f then h.endOfFrame 9
    else if newDataBits &&& 0x1fe0 = 0x0fc0 then h.endOfFrame 8
    else .wait h
  else
    let w := fiveOnes newDataBits
    if w &&& 0x0fff = 0 then h.rxByte newDataBits 8
    else if w &&& (w <<< 1) ≠ 0 then
      if newDataBits &&& 0x3fff = 0x1f9f then h.endOfFrame 9
      else if newDataBits &&& 0x1fe0 = 0x0fc0 then h.endOfFrame 8
      else .eat { h with rxState := .searchFlag, flagCounter := 0 } 8
    else
      let x := w ^^^ (w - 1)
      let newDataBits := newDataBits + (newDataBits &&& x)
      let w := w &&& ~~~x
      if w &&& 0x1fff = 0 then h.rxByte newDataBits 9
      else
        let x := w ^^^ (w - 1)
        let newDataBits := newDataBits + (newDataBits &&& x)
        h.rxByte newDataBits 10

def rxTurn (h : SoftHdlc) : Turn :=
  let newDataBits := h.residDataBits.setWidth 16
  match h.rxState with
  | .searchFlag =>
    if h.residBitCount < 16 then .wait h
    else
      let w := flagEnds newDataBits
      if w = 0 then .eat h 9 else .eat { h with flagCounter := 0, rxState := .searchData } (wordTrailingZeroes w - 3)
  | .searchData =>
    if h.residBitCount < 13 then .wait h
    else if newDataBits &&& 0x1fe0 = 0x0fc0 then
      .eat (if h.flagCounter < 0x00ff then { h with flagCounter := h.flagCounter + 1 } else h) 8
    else
      -- the first byte of a message; the data state goes on with the same bits
      let h := { h.beginMessage (maxHdlcFrameLength + 2) with rxCrc := hdlcCrcInit, rxState := .data }
      h.rxData newDataBits
  | .data => h.rxData newDataBits

/-- The loop. Every turn that goes on uses bits up. -/
def rxLoop : Nat → SoftHdlc → SoftHdlc × Option (List Byte)
  | 0, h => (h, none)
  | n + 1, h =>
    match h.rxTurn with
    | .wait h => (h, none)
    | .frame h data => (h, some data)
    | .eat h bits => rxLoop n { h with residDataBits := h.residDataBits >>> bits, residBitCount := h.residBitCount - bits }

/-- `diva_hdlc_rx_process`. A shift by 32 or more, undefined in C, leaves no bit here. -/
def rxProcess (h : SoftHdlc) (hdlcByte : Byte) : SoftHdlc × Option (List Byte) :=
  let h := { h with
    residDataBits := h.residDataBits ||| (hdlcByte.setWidth 32 <<< h.residBitCount)
    residBitCount := (h.residBitCount + 8) % 65536 }
  rxLoop (h.residBitCount + 1) h

/-! ## Runs -/

/-- What is returned, byte after byte. -/
def returned (h : SoftHdlc) : List Byte → List (Option (List Byte))
  | [] => []
  | b :: bs => (h.rxProcess b).2 :: returned (h.rxProcess b).1 bs

/-- The receiver after some bytes. -/
def after (h : SoftHdlc) : List Byte → SoftHdlc
  | [] => h
  | b :: bs => after (h.rxProcess b).1 bs

end SoftHdlc

end Divas.Tty
