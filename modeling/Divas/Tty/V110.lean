/-
  Divas.Tty.V110 — the V.110 detectors (v110.c).

  A detector takes 1, 2, 4 or 8 bits of each byte of the line (`v110_irate`), the lowest
  one first, and looks for frames of ten bytes: a byte of zeros, and nine that begin with a
  one. `rx_deframe_wnd` is the window of up to 32 bits, the first one highest, and
  `rx_deframe_len` the bits in it. A turn of the loop of `do_deframe` fills the window when
  there is room for the bits of a byte, and then looks at the first nine bits of it.

  The bits shifted in behind the window are zeros, and the turn does not ask how many are
  left. `rx_deframe_len` is a dword and wraps. The shift count of `refill` is a `size_t`; where
  it is above 31 the processor takes its lowest five bits.

  The loops get their fuel as arguments. `v110_rate` beyond the irate, the settings for the
  line and what `do_v110` only traces are left out.
-/

import Mathlib.Algebra.Ring.Nat
import Mathlib.Logic.Function.Basic

namespace Divas.Tty.V110

abbrev Octet := BitVec 8

inductive Irate where
  | irate8K
  | irate16K
  | irate32K
  | irate64K
  deriving DecidableEq, Repr

/-- The bits used of a byte (RA2). -/
def Irate.bits : Irate → Nat
  | .irate8K => 1
  | .irate16K => 2
  | .irate32K => 4
  | .irate64K => 8

def Irate.mask : Irate → BitVec 32
  | .irate8K => 0x01
  | .irate16K => 0x03
  | .irate32K => 0x0f
  | .irate64K => 0xff

/-- `diva_v110_irate_sequence_t`. -/
structure IrateSequence where
  speed : Nat
  eRate : BitVec 8
  idiRate : Nat
  deriving DecidableEq, Repr

/-- `diva_v110_detector_setup`; the last one of a sequence is the default. -/
def Irate.sequence : Irate → List IrateSequence
  | .irate8K => [⟨600, 0x40, 1⟩, ⟨1200, 0x20, 2⟩, ⟨4800, 0x30, 4⟩, ⟨2400, 0xff, 3⟩]
  | .irate16K => [⟨9600, 0xff, 5⟩]
  | .irate32K => [⟨19200, 0xff, 6⟩]
  | .irate64K => [⟨38400, 0xff, 7⟩]

inductive Phase where
  | idle
  | sync
  deriving DecidableEq, Repr

inductive FrmState where
  | zeroOctett
  | sync
  deriving DecidableEq, Repr

/-- `soft_v110_state`. -/
structure SoftV110 where
  irate : Irate
  phase : Phase
  detectDelay : Nat
  state : FrmState
  rxFrame : Nat → Octet
  rxFramePos : Nat
  len : BitVec 32
  wnd : BitVec 32
  detectorCounter : BitVec 32

def v110DetectionDelay : Nat := 10 * 1024

/-- `softv110_init`. -/
def softV110Init (irate : Irate) : SoftV110 where
  irate
  phase := .idle
  detectDelay := v110DetectionDelay
  state := .zeroOctett
  rxFrame _ := 0
  rxFramePos := 0
  len := 0
  wnd := 0
  detectorCounter := 0

namespace SoftV110

/-! ## do_deframe -/

/-- The used bits of a byte, the first one highest. -/
def refill (s : SoftV110) (b : Octet) : BitVec 32 :=
  let r := b.setWidth 32 &&& s.irate.mask
  match s.irate with
  | .irate8K => r
  | .irate16K => r >>> 1 ||| (r <<< 1 &&& 0x02)
  | .irate32K => (r <<< 7 &&& 0x80 ||| r <<< 5 &&& 0x40 ||| r <<< 3 &&& 0x20 ||| r <<< 1 &&& 0x10) >>> 4
  | .irate64K =>
    r <<< 7 &&& 0x80 ||| r <<< 5 &&& 0x40 ||| r <<< 3 &&& 0x20 ||| r <<< 1 &&& 0x10 |||
      r >>> 7 &&& 0x01 ||| r >>> 5 &&& 0x02 ||| r >>> 3 &&& 0x04 ||| r >>> 1 &&& 0x08

/-- `((sizeof(dword)*8) - rx_deframe_len) - bits`, as the shift takes it. -/
def missing (s : SoftV110) : Nat := (2 ^ 64 + 32 - s.len.toNat - s.irate.bits) % 2 ^ 64 % 32

def refillByte (s : SoftV110) (b : Octet) : SoftV110 :=
  { s with wnd := s.wnd ||| s.refill b <<< s.missing, len := s.len + BitVec.ofNat 32 s.irate.bits }

/-- The loop that fills the window, and what is left of the data. -/
def refillLoop (s : SoftV110) : List Octet → SoftV110 × List Octet
  | [] => (s, [])
  | b :: data => if (s.refillByte b).len.toNat < 32 then (s.refillByte b).refillLoop data else (s.refillByte b, data)

/-- At least the used bits of one byte are free. -/
def refilled (s : SoftV110) (data : List Octet) : SoftV110 × List Octet :=
  if s.len.toNat ≤ 32 - s.irate.bits then s.refillLoop data else (s, data)

def takeBit (s : SoftV110) : SoftV110 := { s with wnd := s.wnd <<< 1, len := s.len - 1 }

def takeOctet (s : SoftV110) : SoftV110 := { s with wnd := s.wnd <<< 8, len := s.len - 8 }

/-- `(byte) ((rx_deframe_wnd & 0xff000000) >> 24)`. -/
def first (s : SoftV110) : Octet := ((s.wnd &&& 0xff000000) >>> 24).setWidth 8

def putOctet (s : SoftV110) (b : Octet) : SoftV110 := { s with rxFrame := Function.update s.rxFrame s.rxFramePos b }

/-- The ten bytes that a returned pointer points to. -/
def frame (s : SoftV110) : List Octet := (List.range 10).map s.rxFrame

/-- `FRM_STATE_ZERO_OCTETT`. -/
def zeroTurn (s : SoftV110) : SoftV110 :=
  if s.wnd &&& 0xff000000 = 0 then
    if s.wnd &&& 0x00800000 ≠ 0 then
      { s.takeOctet with rxFrame := Function.update s.rxFrame 0 0, rxFramePos := s.rxFramePos + 1, state := .sync }
    else s.takeBit
  else s.takeBit

/-- `FRM_STATE_SYNC`. -/
def syncTurn (s : SoftV110) : SoftV110 × Option (List Octet) :=
  if s.rxFramePos ≤ 8 then
    if s.wnd &&& 0x80800000 ≠ 0 then ({ (s.putOctet s.first).takeOctet with rxFramePos := s.rxFramePos + 1 }, none)
    else ({ s.takeBit with rxFramePos := 0, state := .zeroOctett, detectorCounter := 0 }, none)
  else if s.wnd &&& 0x80000000 ≠ 0 then
    ({ (s.putOctet s.first).takeOctet with rxFramePos := 0, state := .zeroOctett, detectorCounter := s.detectorCounter + 1 },
      some (s.putOctet s.first).frame)
  else ({ s.takeBit with rxFramePos := 0, state := .zeroOctett }, none)

/-- A turn of the loop: what is left of the data, and a frame. -/
def deframeTurn (s : SoftV110) (data : List Octet) : SoftV110 × List Octet × Option (List Octet) :=
  let (s, data) := s.refilled data
  match s.state with
  | .zeroOctett => (s.zeroTurn, data, none)
  | .sync =>
    let (s, frame) := s.syncTurn
    (s, data, frame)

/-- `do_deframe`, with the fuel that is left. -/
def doDeframe : Nat → SoftV110 → List Octet → Option (Nat × SoftV110 × List Octet × Option (List Octet))
  | fuel, s, [] => some (fuel, s, [], none)
  | 0, _, _ :: _ => none
  | fuel + 1, s, b :: data =>
    match s.deframeTurn (b :: data) with
    | (s, data, some frame) => some (fuel, s, data, some frame)
    | (s, data, none) => doDeframe fuel s data

/-! ## softv110_decode_process -/

/-- `do_v110`. -/
def doV110 (s : SoftV110) (frame : List Octet) : Option IrateSequence :=
  s.irate.sequence.find? fun q => q.eRate == 0xff || q.eRate == frame.getD 5 0 &&& 0x70

/-- `SOFTV110_PHASE_IDLE`. -/
def skip (s : SoftV110) (data : List Octet) : SoftV110 × List Octet :=
  let removed := min s.detectDelay data.length
  ({ s with detectDelay := s.detectDelay - removed, phase := if s.detectDelay - removed = 0 then .sync else .idle },
    data.drop removed)

/-- The detector, the frames that `do_deframe` has returned, and what was detected. -/
structure Decoded where
  s : SoftV110
  frames : List (List Octet)
  detected : Option IrateSequence

/-- The loop: at most `calls` calls, and `fuel` turns of `do_deframe` in all of them. -/
def decodeLoop : Nat → Nat → Decoded → List Octet → Option Decoded
  | _, _, d, [] => some d
  | 0, _, _, _ :: _ => none
  | calls + 1, fuel, d, b :: data =>
    match d.s.phase with
    | .idle =>
      let (s, data) := d.s.skip (b :: data)
      decodeLoop calls fuel { d with s } data
    | .sync =>
      match doDeframe fuel d.s (b :: data) with
      | none => none
      | some (fuel, s, data, none) => decodeLoop calls fuel { d with s } data
      | some (fuel, s, data, some frame) => decodeLoop calls fuel ⟨s, d.frames ++ [frame], s.doV110 frame⟩ data

/-- The frames of one call more; nothing, where the call takes more than `steps` steps. -/
def softV110DecodeProcess (steps : Nat) (s : SoftV110) (frames : List (List Octet)) (data : List Octet) : Option Decoded :=
  decodeLoop steps steps ⟨s, frames, none⟩ data

end SoftV110

end Divas.Tty.V110
