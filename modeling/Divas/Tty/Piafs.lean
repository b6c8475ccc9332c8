/-
  Divas.Tty.Piafs — the PIAFS detectors (piafs.c).

  `Fr2PiafsFramingDecode` looks for the synchronization pattern 50 EF 29 93 at any bit of the
  stream; it is bytes 3 to 6 of a frame of 80 bytes, the last four of them the CRC. The
  detector for 64K (`RateAdaptationEnable` off) hunts in the bytes as they are; the one for
  32K takes four bits of each byte, where it has found them in the state `preHunt`.

  `huntPhaseSyncLag` is the ring of the last seven bytes: when the pattern is found, they are
  the frame so far. `DQRxBuffer` is either NULL or `rx_frame`; a frame is opened at once.
  `DQRxBufLen`, `CurrentSynchroCandidate` and the traces are left out.

  The loop takes its fuel as an argument: in the state `preHunt` it goes back in the data.
-/

import Mathlib.Logic.Function.Basic

namespace Divas.Tty.Piafs

abbrev Octet := BitVec 8

def frameLength : Nat := 80
def crcLength : Nat := 4

/-- `DQRxBufLen`. -/
def bufLength : Nat := 80

def crc32MsbCrcTable : List (BitVec 32) :=
  [0x0, 0x4C11DB7, 0x9823B6E, 0xD4326D9, 0x130476DC, 0x17C56B6B, 0x1A864DB2, 0x1E475005, 0x2608EDB8, 0x22C9F00F, 0x2F8AD6D6,
   0x2B4BCB61, 0x350C9B64, 0x31CD86D3, 0x3C8EA00A, 0x384FBDBD, 0x4C11DB70, 0x48D0C6C7, 0x4593E01E, 0x4152FDA9, 0x5F15ADAC,
   0x5BD4B01B, 0x569796C2, 0x52568B75, 0x6A1936C8, 0x6ED82B7F, 0x639B0DA6, 0x675A1011, 0x791D4014, 0x7DDC5DA3, 0x709F7B7A,
   0x745E66CD, 0x9823B6E0, 0x9CE2AB57, 0x91A18D8E, 0x95609039, 0x8B27C03C, 0x8FE6DD8B, 0x82A5FB52, 0x8664E6E5, 0xBE2B5B58,
   0xBAEA46EF, 0xB7A96036, 0xB3687D81, 0xAD2F2D84, 0xA9EE3033, 0xA4AD16EA, 0xA06C0B5D, 0xD4326D90, 0xD0F37027, 0xDDB056FE,
   0xD9714B49, 0xC7361B4C, 0xC3F706FB, 0xCEB42022, 0xCA753D95, 0xF23A8028, 0xF6FB9D9F, 0xFBB8BB46, 0xFF79A6F1, 0xE13EF6F4,
   0xE5FFEB43, 0xE8BCCD9A, 0xEC7DD02D, 0x34867077, 0x30476DC0, 0x3D044B19, 0x39C556AE, 0x278206AB, 0x23431B1C, 0x2E003DC5,
   0x2AC12072, 0x128E9DCF, 0x164F8078, 0x1B0CA6A1, 0x1FCDBB16, 0x18AEB13, 0x54BF6A4, 0x808D07D, 0xCC9CDCA, 0x7897AB07,
   0x7C56B6B0, 0x71159069, 0x75D48DDE, 0x6B93DDDB, 0x6F52C06C, 0x6211E6B5, 0x66D0FB02, 0x5E9F46BF, 0x5A5E5B08, 0x571D7DD1,
   0x53DC6066, 0x4D9B3063, 0x495A2DD4, 0x44190B0D, 0x40D816BA, 0xACA5C697, 0xA864DB20, 0xA527FDF9, 0xA1E6E04E, 0xBFA1B04B,
   0xBB60ADFC, 0xB6238B25, 0xB2E29692, 0x8AAD2B2F, 0x8E6C3698, 0x832F1041, 0x87EE0DF6, 0x99A95DF3, 0x9D684044, 0x902B669D,
   0x94EA7B2A, 0xE0B41DE7, 0xE4750050, 0xE9362689, 0xEDF73B3E, 0xF3B06B3B, 0xF771768C, 0xFA325055, 0xFEF34DE2, 0xC6BCF05F,
   0xC27DEDE8, 0xCF3ECB31, 0xCBFFD686, 0xD5B88683, 0xD1799B34, 0xDC3ABDED, 0xD8FBA05A, 0x690CE0EE, 0x6DCDFD59, 0x608EDB80,
   0x644FC637, 0x7A089632, 0x7EC98B85, 0x738AAD5C, 0x774BB0EB, 0x4F040D56, 0x4BC510E1, 0x46863638, 0x42472B8F, 0x5C007B8A,
   0x58C1663D, 0x558240E4, 0x51435D53, 0x251D3B9E, 0x21DC2629, 0x2C9F00F0, 0x285E1D47, 0x36194D42, 0x32D850F5, 0x3F9B762C,
   0x3B5A6B9B, 0x315D626, 0x7D4CB91, 0xA97ED48, 0xE56F0FF, 0x1011A0FA, 0x14D0BD4D, 0x19939B94, 0x1D528623, 0xF12F560E,
   0xF5EE4BB9, 0xF8AD6D60, 0xFC6C70D7, 0xE22B20D2, 0xE6EA3D65, 0xEBA91BBC, 0xEF68060B, 0xD727BBB6, 0xD3E6A601, 0xDEA580D8,
   0xDA649D6F, 0xC423CD6A, 0xC0E2D0DD, 0xCDA1F604, 0xC960EBB3, 0xBD3E8D7E, 0xB9FF90C9, 0xB4BCB610, 0xB07DABA7, 0xAE3AFBA2,
   0xAAFBE615, 0xA7B8C0CC, 0xA379DD7B, 0x9B3660C6, 0x9FF77D71, 0x92B45BA8, 0x9675461F, 0x8832161A, 0x8CF30BAD, 0x81B02D74,
   0x857130C3, 0x5D8A9099, 0x594B8D2E, 0x5408ABF7, 0x50C9B640, 0x4E8EE645, 0x4A4FFBF2, 0x470CDD2B, 0x43CDC09C, 0x7B827D21,
   0x7F436096, 0x7200464F, 0x76C15BF8, 0x68860BFD, 0x6C47164A, 0x61043093, 0x65C52D24, 0x119B4BE9, 0x155A565E, 0x18197087,
   0x1CD86D30, 0x29F3D35, 0x65E2082, 0xB1D065B, 0xFDC1BEC, 0x3793A651, 0x3352BBE6, 0x3E119D3F, 0x3AD08088, 0x2497D08D,
   0x2056CD3A, 0x2D15EBE3, 0x29D4F654, 0xC5A92679, 0xC1683BCE, 0xCC2B1D17, 0xC8EA00A0, 0xD6AD50A5, 0xD26C4D12, 0xDF2F6BCB,
   0xDBEE767C, 0xE3A1CBC1, 0xE760D676, 0xEA23F0AF, 0xEEE2ED18, 0xF0A5BD1D, 0xF464A0AA, 0xF9278673, 0xFDE69BC4, 0x89B8FD09,
   0x8D79E0BE, 0x803AC667, 0x84FBDBD0, 0x9ABC8BD5, 0x9E7D9662, 0x933EB0BB, 0x97FFAD0C, 0xAFB010B1, 0xAB710D06, 0xA6322BDF,
   0xA2F33668, 0xBCB4666D, 0xB8757BDA, 0xB5365D03, 0xB1F740B4]

def shiftTable : List Nat :=
  [8, 8, 8, 8, 8, 8, 8, 8, 8, 8, 8, 8, 8, 8, 8, 8, 8, 8, 8, 8, 8, 8, 8, 8, 8, 8, 8, 8, 8, 8, 8, 8,
   8, 8, 8, 8, 8, 8, 8, 8, 8, 8, 8, 8, 8, 8, 8, 8, 8, 8, 3, 8, 8, 8, 8, 8, 8, 8, 8, 8, 8, 8, 8, 8,
   8, 8, 8, 8, 8, 8, 8, 8, 8, 8, 8, 8, 5, 8, 8, 8, 8, 8, 8, 7, 8, 8, 8, 8, 8, 8, 8, 8, 8, 8, 8, 8,
   8, 8, 8, 8, 2, 8, 8, 8, 8, 8, 8, 8, 8, 8, 8, 8, 8, 8, 8, 8, 8, 8, 8, 8, 8, 8, 8, 8, 8, 8, 8, 8,
   8, 8, 8, 8, 8, 8, 8, 8, 8, 8, 8, 8, 8, 8, 8, 8, 8, 8, 8, 8, 8, 8, 8, 8, 8, 4, 8, 8, 8, 8, 8, 8,
   8, 8, 8, 8, 8, 8, 6, 8, 8, 8, 8, 8, 8, 8, 8, 8, 8, 8, 8, 8, 8, 8, 8, 8, 8, 8, 8, 8, 8, 8, 8, 8,
   8, 8, 8, 8, 8, 8, 8, 8, 8, 1, 8, 8, 8, 8, 8, 8, 8, 8, 8, 8, 8, 8, 8, 8, 8, 8, 8, 8, 8, 8, 8, 8,
   8, 8, 8, 8, 8, 8, 8, 8, 8, 8, 8, 8, 8, 8, 8, 8, 8, 8, 8, 8, 8, 8, 8, 8, 8, 8, 8, 8, 8, 8, 8, 8]

inductive RxState where
  | hunt
  | data
  | crc
  | preHunt
  deriving DecidableEq, Repr

/-- `PiafsFrm_t`. -/
structure PiafsFrm where
  rxState : RxState
  previousRxState : RxState
  syncHistory : BitVec 32
  justSynchronized : Bool
  preShiftCount : Nat
  preShiftRegister : BitVec 16
  rateAdaptationEnable : Bool
  isThereABytePending : Bool
  bytePending : Octet
  bitsToLeftShift : Nat
  currentRxShiftRegister : Octet
  huntPhaseSyncLag : Nat → Octet
  huntPhaseSyncLagIndex : Nat
  /-- `DQRxBuffer != NULL`. -/
  dqRxBuffer : Bool
  dqRxBufIdx : Nat
  rxCrc : BitVec 32
  receivedCrc : BitVec 32
  numberOfReceivedCrcBytes : Nat
  idxInRxFrame : Nat
  rxFrame : Nat → Octet

/-- `init_piafs_process`. -/
def initPiafsProcess (rateAdaptationEnable : Bool) : PiafsFrm where
  rxState := if rateAdaptationEnable then .preHunt else .hunt
  previousRxState := .hunt
  syncHistory := 0
  justSynchronized := false
  preShiftCount := 0
  preShiftRegister := 0
  rateAdaptationEnable
  isThereABytePending := false
  bytePending := 0
  bitsToLeftShift := 0
  currentRxShiftRegister := 0
  huntPhaseSyncLag _ := 0
  huntPhaseSyncLagIndex := 0
  dqRxBuffer := false
  dqRxBufIdx := 0
  rxCrc := 0xffffffff
  receivedCrc := 0
  numberOfReceivedCrcBytes := 0
  idxInRxFrame := 0
  rxFrame _ := 0

namespace PiafsFrm

/-- `x << 8`, and `y`. -/
def pair (x y : Octet) : BitVec 16 := x.setWidth 16 <<< 8 + y.setWidth 16

/-- `PiafsPreShiftBitRx`. -/
def preShiftBitRx (s : PiafsFrm) (x y : Octet) : Octet × PiafsFrm :=
  let z := pair x y
  if 4 < s.preShiftCount then
    let register := s.preShiftRegister <<< (s.preShiftCount % 4) + z >>> (20 - s.preShiftCount)
    let rest := (List.range (8 - s.preShiftCount)).foldl
      (fun (r : BitVec 16) i => r <<< 1 ||| (z >>> (7 - i - s.preShiftCount) &&& 1)) (z >>> (12 - s.preShiftCount) &&& 0x0f)
    (register.setWidth 8, { s with preShiftRegister := rest })
  else
    ((z >>> (8 - s.preShiftCount) &&& 0xf0 ||| z >>> (4 - s.preShiftCount) &&& 0x0f).setWidth 8, s)

/-- The turns of `PiafsAcquirePreSync`, from the `i`th one on. -/
def acquirePreSyncLoop (s : PiafsFrm) (z : BitVec 16) : Nat → Nat → PiafsFrm × Bool
  | 0, _ => (s, false)
  | n + 1, i =>
    let register := s.preShiftRegister <<< 1 ||| (if z.getLsbD 15 then 1 else 0)
    if register ||| 0x0f0f = 0x5f0f then ({ s with preShiftCount := i % 8, preShiftRegister := 0 }, true)
    else acquirePreSyncLoop { s with preShiftRegister := register } (z <<< 1) n (i + 1)

def acquirePreSync (s : PiafsFrm) (x y : Octet) : PiafsFrm × Bool := s.acquirePreSyncLoop (pair x y) 16 1

/-- `PiafsShiftBitRx`. -/
def shiftBitRx (s : PiafsFrm) (x : Octet) : Octet × PiafsFrm :=
  (s.currentRxShiftRegister ||| x >>> (8 - s.bitsToLeftShift), { s with currentRxShiftRegister := x <<< s.bitsToLeftShift })

def crc32Msb (crc : BitVec 32) (x : Octet) : BitVec 32 :=
  crc <<< 8 ^^^ crc32MsbCrcTable.getD ((crc >>> 24).toNat ^^^ x.toNat) 0

/-- `GenericDQOpenWriteRxQueue`, unless the frame is open, and a byte is stored; an index that is
    out of the buffer begins again. -/
def storeByte (s : PiafsFrm) (x : Octet) : PiafsFrm :=
  let idx := if s.dqRxBuffer then s.dqRxBufIdx else 0
  let idx := if bufLength ≤ idx then 0 else idx
  { s with
    dqRxBuffer := true
    rxFrame := Function.update s.rxFrame idx x
    rxCrc := crc32Msb s.rxCrc x
    dqRxBufIdx := idx + 1
    idxInRxFrame := s.idxInRxFrame + 1 }

/-- The end of the frame but for its CRC. -/
def endOfData (s : PiafsFrm) : PiafsFrm :=
  { s with justSynchronized := false, rxState := if s.rxState = .data then .crc else s.rxState }

/-- `PiafsProcessIncomingData`. -/
def processIncomingData (s : PiafsFrm) (x : Octet) : PiafsFrm :=
  let s := s.storeByte x
  if s.idxInRxFrame = frameLength - crcLength then { s.endOfData with receivedCrc := 0, numberOfReceivedCrcBytes := 0 } else s

/-- The next byte of the ring. -/
def lagTurn (s : PiafsFrm) : PiafsFrm :=
  let s := { s with huntPhaseSyncLagIndex := (s.huntPhaseSyncLagIndex + 1) % 7 }
  let (x, s) := s.shiftBitRx (s.huntPhaseSyncLag s.huntPhaseSyncLagIndex)
  s.processIncomingData x

/-- The pattern is found: the last seven bytes and this one are the begin of a frame. -/
def synchronize (s : PiafsFrm) (currentShift : Nat) (x : Octet) : PiafsFrm :=
  let s := { s with rxState := .data, justSynchronized := true, bitsToLeftShift := currentShift, currentRxShiftRegister := 0 }
  let (_, s) := s.shiftBitRx (s.huntPhaseSyncLag s.huntPhaseSyncLagIndex)
  let s := (List.range 6).foldl (fun s _ => s.lagTurn) s
  let (x, s) := s.shiftBitRx x
  s.processIncomingData x

/-- `HUNT_STATE`. -/
def huntTurn (s : PiafsFrm) (x : Octet) : PiafsFrm :=
  let currentShift := shiftTable.getD (s.syncHistory.setWidth 8).toNat 0
  if s.syncHistory <<< currentShift ||| x.setWidth 32 >>> (8 - currentShift) = 0x50ef2993 then s.synchronize currentShift x
  else
    { s with
      huntPhaseSyncLag := Function.update s.huntPhaseSyncLag s.huntPhaseSyncLagIndex x
      huntPhaseSyncLagIndex := (s.huntPhaseSyncLagIndex + 1) % 7
      syncHistory := s.syncHistory <<< 8 ||| x.setWidth 32 }

/-- `DATA_STATE`. -/
def dataTurn (s : PiafsFrm) (x : Octet) : PiafsFrm :=
  let (result, s) := s.shiftBitRx x
  let s := s.storeByte result
  let s := if s.idxInRxFrame = frameLength - crcLength then s.endOfData else s
  { s with receivedCrc := 0, numberOfReceivedCrcBytes := 0 }

/-- `CRC_STATE`, and whether a frame is detected. -/
def crcTurn (s : PiafsFrm) (x : Octet) : PiafsFrm × Bool :=
  let (result, s) := s.shiftBitRx x
  let s := { s with
    receivedCrc := s.receivedCrc <<< 8 ||| result.setWidth 32
    numberOfReceivedCrcBytes := s.numberOfReceivedCrcBytes + 1 }
  if s.numberOfReceivedCrcBytes ≠ crcLength then (s, false)
  else if s.rxCrc = s.receivedCrc then (s, true)
  else
    ({ s with
        rxState := if s.previousRxState = .preHunt then .preHunt else .data
        dqRxBuffer := false
        idxInRxFrame := 0
        rxCrc := 0xffffffff }, false)

/-! ## The loop -/

/-- `ReadIndex`, `NbBytes` and `PreSyncIndex`. -/
structure Cursor where
  readIndex : Nat
  nbBytes : Nat
  preSyncIndex : Nat

/-- The next byte, for 32K assembled of two; none where one is left. -/
def nextByte (s : PiafsFrm) (data : Nat → Octet) (c : Cursor) : PiafsFrm × Cursor × Option Octet :=
  if s.rateAdaptationEnable then
    if 1 < c.nbBytes then
      if s.isThereABytePending then
        let (x, s) := ({ s with isThereABytePending := false } : PiafsFrm).preShiftBitRx s.bytePending (data c.readIndex)
        (s, { c with readIndex := c.readIndex + 1, nbBytes := c.nbBytes - 1 }, some x)
      else
        let (x, s) := s.preShiftBitRx (data c.readIndex) (data (c.readIndex + 1))
        (s, { c with readIndex := c.readIndex + 2, nbBytes := c.nbBytes - 2 }, some x)
    else
      ({ s with bytePending := data c.readIndex, isThereABytePending := true },
        { c with readIndex := c.readIndex + 1, nbBytes := c.nbBytes - 1 }, none)
  else (s, { c with readIndex := c.readIndex + 1, nbBytes := c.nbBytes - 1 }, some (data c.readIndex))

/-- `PRE_HUNT_STATE`. -/
def preHuntTurn (s : PiafsFrm) (data : Nat → Octet) (saved : Nat) (c : Cursor) : PiafsFrm × Cursor :=
  let (s, found) := s.acquirePreSync (data c.preSyncIndex) (data (c.preSyncIndex + 1))
  if found then
    ({ s with previousRxState := .preHunt, rxState := .hunt, dqRxBufIdx := 0 },
      if c.readIndex ≤ 10 then { c with readIndex := 0, nbBytes := saved }
      else { c with readIndex := c.readIndex - 10, nbBytes := c.nbBytes + 10 })
  else (s, { c with preSyncIndex := c.preSyncIndex + 2 })

/-- The loop over `saved` bytes. -/
def decodeLoop (data : Nat → Octet) (saved : Nat) : Nat → PiafsFrm → Cursor → PiafsFrm × Cursor × Bool
  | 0, s, c => (s, c, false)
  | fuel + 1, s, c =>
    if c.nbBytes = 0 then (s, c, false)
    else
      match s.nextByte data c with
      | (s, c, none) => (s, c, false)
      | (s, c, some x) =>
        match s.rxState with
        | .preHunt =>
          let (s, c) := s.preHuntTurn data saved c
          decodeLoop data saved fuel s c
        | .hunt => decodeLoop data saved fuel (s.huntTurn x) c
        | .data => decodeLoop data saved fuel (s.dataTurn x) c
        | .crc =>
          let (s, detected) := s.crcTurn x
          if detected then (s, c, true) else decodeLoop data saved fuel s c

/-- `Fr2PiafsFramingDecode`: the bytes used, and whether a frame was detected. -/
def fr2PiafsFramingDecode (fuel : Nat) (s : PiafsFrm) (data : Nat → Octet) (nbBytes : Nat) : PiafsFrm × Nat × Bool :=
  let (s, c, detected) := decodeLoop data nbBytes fuel s ⟨0, nbBytes, 0⟩
  if detected then (s, 0, true)
  else
    (if s.rxState ≠ .data ∧ s.rxState ≠ .crc ∧ s.previousRxState = .preHunt then { s with rxState := .preHunt } else s,
      nbBytes - c.nbBytes, false)

end PiafsFrm

end Divas.Tty.Piafs
