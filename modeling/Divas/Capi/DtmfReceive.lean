/-
  Divas.Capi.DtmfReceive — the soft DTMF receiver (capidtmf.c).

  Two analysis windows of 205 samples run over the stream, the second one 103 samples behind the
  first. `capidtmf_recv_block` takes at most 32 samples a turn and never passes the end of the
  first window; when that is reached the levels are evaluated, and the second window becomes the
  first at the start of the next turn.

  Proved (`recv_blocks_cut`): after `capidtmf_init` and `capidtmf_recv_enable` the state behind a
  common border of two ways of cutting a stream into blocks is the same, and every table, window
  and digit buffer index on the way is in its range.
-/

import Divas.Lib.Cuts
import Mathlib.Algebra.Ring.Nat
import Mathlib.Data.Fin.Basic

namespace Divas.Capi.DtmfReceive

open Divas.Lib.Cuts

/-! ## Tables -/

def accumulateCycles : Nat := 205
def fundamentalOffset : Int32 := 0xff35 * 2
def fundamentalDecrement : Int32 := 0x0028 * 2
def windowedSamples : Nat := 32
def digitBufferSize : Nat := 32
def stateIdle : UInt8 := 0x00
def stateDtmfActive : UInt8 := 0x01
def sensitivityLow : Nat := 83
def sensitivityHigh : Nat := 83
def highExceedingLow : Nat := 10
def lowExceedingHigh : Nat := 10
def harmonicsSel : Nat := 12
def guardSnrDontcare : Nat := 0xc000
def noDigit : UInt8 := 0xff
def timeGranularity : Nat := (accumulateCycles + 1) / 2
def minGapDuration : UInt16 := 2
def minDigitDuration : UInt16 := 1
def indicationDigit : UInt16 := 0x0001

def expandTableAlaw : List Int :=
  [-5504, 5504, -344, 344, -22016, 22016, -1376, 1376, -2752, 2752, -88, 88, -11008, 11008, -688, 688,
    -7552, 7552, -472, 472, -30208, 30208, -1888, 1888, -3776, 3776, -216, 216, -15104, 15104, -944, 944,
    -4480, 4480, -280, 280, -17920, 17920, -1120, 1120, -2240, 2240, -24, 24, -8960, 8960, -560, 560,
    -6528, 6528, -408, 408, -26112, 26112, -1632, 1632, -3264, 3264, -152, 152, -13056, 13056, -816, 816,
    -6016, 6016, -376, 376, -24064, 24064, -1504, 1504, -3008, 3008, -120, 120, -12032, 12032, -752, 752,
    -8064, 8064, -504, 504, -32256, 32256, -2016, 2016, -4032, 4032, -248, 248, -16128, 16128, -1008, 1008,
    -4992, 4992, -312, 312, -19968, 19968, -1248, 1248, -2496, 2496, -56, 56, -9984, 9984, -624, 624,
    -7040, 7040, -440, 440, -28160, 28160, -1760, 1760, -3520, 3520, -184, 184, -14080, 14080, -880, 880,
    -5248, 5248, -328, 328, -20992, 20992, -1312, 1312, -2624, 2624, -72, 72, -10496, 10496, -656, 656,
    -7296, 7296, -456, 456, -29184, 29184, -1824, 1824, -3648, 3648, -200, 200, -14592, 14592, -912, 912,
    -4224, 4224, -264, 264, -16896, 16896, -1056, 1056, -2112, 2112, -8, 8, -8448, 8448, -528, 528,
    -6272, 6272, -392, 392, -25088, 25088, -1568, 1568, -3136, 3136, -136, 136, -12544, 12544, -784, 784,
    -5760, 5760, -360, 360, -23040, 23040, -1440, 1440, -2880, 2880, -104, 104, -11520, 11520, -720, 720,
    -7808, 7808, -488, 488, -31232, 31232, -1952, 1952, -3904, 3904, -232, 232, -15616, 15616, -976, 976,
    -4736, 4736, -296, 296, -18944, 18944, -1184, 1184, -2368, 2368, -40, 40, -9472, 9472, -592, 592,
    -6784, 6784, -424, 424, -27136, 27136, -1696, 1696, -3392, 3392, -168, 168, -13568, 13568, -848, 848]

def expandTableUlaw : List Int :=
  [-32124, 32124, -1884, 1884, -7932, 7932, -372, 372, -15996, 15996, -876, 876, -3900, 3900, -120, 120,
    -23932, 23932, -1372, 1372, -5884, 5884, -244, 244, -11900, 11900, -620, 620, -2876, 2876, -56, 56,
    -28028, 28028, -1628, 1628, -6908, 6908, -308, 308, -13948, 13948, -748, 748, -3388, 3388, -88, 88,
    -19836, 19836, -1116, 1116, -4860, 4860, -180, 180, -9852, 9852, -492, 492, -2364, 2364, -24, 24,
    -30076, 30076, -1756, 1756, -7420, 7420, -340, 340, -14972, 14972, -812, 812, -3644, 3644, -104, 104,
    -21884, 21884, -1244, 1244, -5372, 5372, -212, 212, -10876, 10876, -556, 556, -2620, 2620, -40, 40,
    -25980, 25980, -1500, 1500, -6396, 6396, -276, 276, -12924, 12924, -684, 684, -3132, 3132, -72, 72,
    -17788, 17788, -988, 988, -4348, 4348, -148, 148, -8828, 8828, -428, 428, -2108, 2108, -8, 8,
    -31100, 31100, -1820, 1820, -7676, 7676, -356, 356, -15484, 15484, -844, 844, -3772, 3772, -112, 112,
    -22908, 22908, -1308, 1308, -5628, 5628, -228, 228, -11388, 11388, -588, 588, -2748, 2748, -48, 48,
    -27004, 27004, -1564, 1564, -6652, 6652, -292, 292, -13436, 13436, -716, 716, -3260, 3260, -80, 80,
    -18812, 18812, -1052, 1052, -4604, 4604, -164, 164, -9340, 9340, -460, 460, -2236, 2236, -16, 16,
    -29052, 29052, -1692, 1692, -7164, 7164, -324, 324, -14460, 14460, -780, 780, -3516, 3516, -96, 96,
    -20860, 20860, -1180, 1180, -5116, 5116, -196, 196, -10364, 10364, -524, 524, -2492, 2492, -32, 32,
    -24956, 24956, -1436, 1436, -6140, 6140, -260, 260, -12412, 12412, -652, 652, -3004, 3004, -64, 64,
    -16764, 16764, -924, 924, -4092, 4092, -132, 132, -8316, 8316, -396, 396, -1980, 1980, 0, 0]

def windowFunction : List Int :=
  [-500, -999, -1499, -1998, -2496, -2994, -3491, -3988, -4483, -4978,
    -5471, -5963, -6454, -6943, -7431, -7917, -8401, -8883, -9363, -9840,
    -10316, -10789, -11259, -11727, -12193, -12655, -13115, -13571, -14024, -14474,
    -14921, -15364, -15804, -16240, -16672, -17100, -17524, -17944, -18360, -18772,
    -19180, -19583, -19981, -20375, -20764, -21148, -21527, -21901, -22270, -22634,
    -22993, -23346, -23694, -24037, -24374, -24705, -25030, -25350, -25664, -25971,
    -26273, -26568, -26858, -27141, -27418, -27688, -27952, -28210, -28461, -28705,
    -28943, -29174, -29398, -29615, -29826, -30029, -30226, -30415, -30598, -30773,
    -30941, -31102, -31256, -31402, -31541, -31673, -31797, -31914, -32024, -32126,
    -32221, -32308, -32388, -32460, -32524, -32581, -32631, -32673, -32707, -32734,
    -32753, -32764, -32768, -32764, -32753, -32734, -32707, -32673, -32631, -32581,
    -32524, -32460, -32388, -32308, -32221, -32126, -32024, -31914, -31797, -31673,
    -31541, -31402, -31256, -31102, -30941, -30773, -30598, -30415, -30226, -30029,
    -29826, -29615, -29398, -29174, -28943, -28705, -28461, -28210, -27952, -27688,
    -27418, -27141, -26858, -26568, -26273, -25971, -25664, -25350, -25030, -24705,
    -24374, -24037, -23694, -23346, -22993, -22634, -22270, -21901, -21527, -21148,
    -20764, -20375, -19981, -19583, -19180, -18772, -18360, -17944, -17524, -17100,
    -16672, -16240, -15804, -15364, -14921, -14474, -14024, -13571, -13115, -12655,
    -12193, -11727, -11259, -10789, -10316, -9840, -9363, -8883, -8401, -7917,
    -7431, -6943, -6454, -5963, -5471, -4978, -4483, -3988, -3491, -2994,
    -2496, -1998, -1499, -999, -500]

def leadingZeroesTable : List Nat :=
  [8, 7, 6, 6, 5, 5, 5, 5, 4, 4, 4, 4, 4, 4, 4, 4, 3, 3, 3, 3, 3, 3, 3, 3, 3, 3, 3, 3, 3, 3, 3, 3,
    2, 2, 2, 2, 2, 2, 2, 2, 2, 2, 2, 2, 2, 2, 2, 2, 2, 2, 2, 2, 2, 2, 2, 2, 2, 2, 2, 2, 2, 2, 2, 2,
    1, 1, 1, 1, 1, 1, 1, 1, 1, 1, 1, 1, 1, 1, 1, 1, 1, 1, 1, 1, 1, 1, 1, 1, 1, 1, 1, 1, 1, 1, 1, 1,
    1, 1, 1, 1, 1, 1, 1, 1, 1, 1, 1, 1, 1, 1, 1, 1, 1, 1, 1, 1, 1, 1, 1, 1, 1, 1, 1, 1, 1, 1, 1, 1,
    0, 0, 0, 0, 0, 0, 0, 0, 0, 0, 0, 0, 0, 0, 0, 0, 0, 0, 0, 0, 0, 0, 0, 0, 0, 0, 0, 0, 0, 0, 0, 0,
    0, 0, 0, 0, 0, 0, 0, 0, 0, 0, 0, 0, 0, 0, 0, 0, 0, 0, 0, 0, 0, 0, 0, 0, 0, 0, 0, 0, 0, 0, 0, 0,
    0, 0, 0, 0, 0, 0, 0, 0, 0, 0, 0, 0, 0, 0, 0, 0, 0, 0, 0, 0, 0, 0, 0, 0, 0, 0, 0, 0, 0, 0, 0, 0,
    0, 0, 0, 0, 0, 0, 0, 0, 0, 0, 0, 0, 0, 0, 0, 0, 0, 0, 0, 0, 0, 0, 0, 0, 0, 0, 0, 0, 0, 0, 0, 0]

/-- `capidtmf_recv_goertzel_coef_table` without its last place, which takes a fundamental accumulator. -/
def goertzelCoefTable : List Int32 :=
  [0xda97 * 2, 0xd299 * 2, 0xc8cb * 2, 0xbd36 * 2, 0x9501 * 2, 0x7f89 * 2, 0x6639 * 2, 0x48c6 * 2, 0xe14c * 2, 0xb2e0 * 2,
    0xa1a0 * 2, 0x8a87 * 2, 0x7353 * 2, 0x583b * 2, 0x37d8 * 2]

def guardSnrLowTable : List Nat :=
  [14, 14, 14, 14, guardSnrDontcare, guardSnrDontcare, guardSnrDontcare, guardSnrDontcare, 14, 16, guardSnrDontcare,
    guardSnrDontcare, harmonicsSel - 8, harmonicsSel - 4, harmonicsSel - 4, 12]

def guardSnrHighTable : List Nat :=
  [guardSnrDontcare, guardSnrDontcare, guardSnrDontcare, guardSnrDontcare, 18, 18, 18, 18, guardSnrDontcare,
    guardSnrDontcare, 16, 4, 6, 8, 16, 12]

/-! ## The Goertzel filters -/

/-- `buffer[0]` and `buffer[1]` of each frequency. -/
abbrev Goertzel := Fin 16 → Int32 × Int32

/-- The coefficients of a turn, with the accumulator in the last place. -/
def coeffs (accumulator : Int32) (i : Fin 16) : Int32 := if i = 15 then accumulator else goertzelCoefTable.getD i 0

/-- `(dword) d * (dword) (q & 0xffff) >> 15`. -/
def lowProduct (d q : Int32) : UInt32 := (d.toUInt32 * (q &&& 0xffff).toUInt32) >>> 15

/-- `q0` where the coefficient is not negative. -/
def forward (c d : Int32) (sample : Int16) (q : Int32 × Int32) : Int32 × Int32 :=
  (((sample.toInt32 - q.2 + c * (q.1 >>> 16)).toUInt32 + lowProduct d q.1).toInt32, q.1)

/-- `q0` where the coefficient was negative. -/
def backward (c d : Int32) (sample : Int16) (q : Int32 × Int32) : Int32 × Int32 :=
  (((sample.toInt32 - q.2).toUInt32 - ((c * (q.1 >>> 16)).toUInt32 + lowProduct d q.1)).toInt32, q.1)

/-- `capidtmf_goertzel_loop`, one of the fifteen frequencies with a fixed coefficient. -/
def toneLoop (coeff : Int32) (samples : List Int16) (q : Int32 × Int32) : Int32 × Int32 :=
  let d := coeff >>> 1
  let c := d <<< 1
  if 0 ≤ c then samples.foldl (fun q x => forward c d x q) q else samples.foldl (fun q x => backward (-c) (-d) x q) q

/-- `capidtmf_goertzel_loop`, the last frequency, with the coefficient that it leaves. -/
def fundamentalLoop (coeff : Int32) (samples : List Int16) (q : Int32 × Int32) : (Int32 × Int32) × Int32 :=
  let c := (coeff >>> 1) <<< 1
  if 0 ≤ c then
    samples.foldl (fun s x => (forward s.2 (s.2 >>> 1) x s.1, s.2 - fundamentalDecrement)) (q, c)
  else samples.foldl (fun s x => (backward s.2 (s.2 >>> 1) x s.1, s.2 + fundamentalDecrement)) (q, -c)

/-- `capidtmf_goertzel_loop`. -/
def goertzelLoop (buffer : Goertzel) (accumulator : Int32) (samples : List Int16) : Goertzel × Int32 :=
  let last := fundamentalLoop accumulator samples (buffer 15)
  ⟨fun i => if i = 15 then last.1 else toneLoop (coeffs accumulator i) samples (buffer i), last.2⟩

def absolute (q : Int32) : Int32 := if 0 ≤ q then q else -q

def low (q : Int32) : UInt32 := (q &&& 0xffff).toUInt32
def high (q : Int32) : UInt32 := (q >>> 16).toUInt32

/-- The three parts of a product of two non-negative numbers: `lo`, `mid` and `hi`. -/
def product (d e : Int32) : Int32 × Int32 × Int32 :=
  let k := low d * low e
  let k1 := high d * low e
  let k2 := low d * high e
  ⟨(k &&& 0xffff).toInt32, ((k >>> 16) + (k1 &&& 0xffff) + (k2 &&& 0xffff)).toInt32,
    ((k1 >>> 16) + (k2 >>> 16) + high d * high e).toInt32⟩

def negate (x : Int32 × Int32 × Int32) : Int32 × Int32 × Int32 := (-x.1, -x.2.1, -x.2.2)

/-- Add the square of `d`. -/
def addSquare (d : Int32) (x : Int32 × Int32 × Int32) : Int32 × Int32 × Int32 :=
  let k := low d * low d
  let k1 := high d * low d
  ⟨(x.1.toUInt32 + (k &&& 0xffff)).toInt32, (x.2.1.toUInt32 + (k >>> 16) + ((k1 &&& 0xffff) <<< 1)).toInt32,
    (x.2.2.toUInt32 + ((k1 >>> 16) <<< 1) + high d * high d).toInt32⟩

/-- `capidtmf_goertzel_result` of one frequency: the low and the high half of its power. -/
def goertzelResult (coeff : Int32) (q : Int32 × Int32) : Int32 × Int32 :=
  let d := coeff >>> 1
  -- both branches of the source multiply by the magnitude of the coefficient
  let d := if 0 ≤ d then d else -d
  let d := (((d <<< 1) * ((-q.1) >>> 16)).toUInt32 + lowProduct d (-q.1)).toInt32
  let e := absolute q.2
  let x := if 0 ≤ d then product d e else negate (product (-d) e)
  let x := if q.2 < 0 then negate x else x
  let x := addSquare (absolute q.2) (addSquare (absolute q.1) x)
  let mid := x.2.1 + (x.1 >>> 16)
  let hi := x.2.2 + mid >>> 16
  ((x.1 &&& (0xffff : Int32)) ||| (mid <<< (16 : Int32)), hi)

/-! ## The receiver -/

/-- The digit part of `t_capidtmf_recv_state`. -/
structure Digits where
  digitBuffer : Vector UInt8 digitBufferSize
  digitWritePos : Nat
  digitReadPos : Nat
  indicationState : UInt16
  indicationStateAck : UInt16
  minGapDuration : UInt16
  minDigitDuration : UInt16
  currentDigitOnTime : UInt16
  currentDigitOffTime : UInt16
  currentDigitValue : UInt8

/-- `t_capidtmf_recv_state`. -/
structure RecvState extends Digits where
  cycleCounter0 : Int
  fundamentalAccumulator0 : Int32
  goertzelBuffer0 : Goertzel
  fundamentalAccumulator : Int32
  goertzelBuffer : Goertzel
  cycleCounter : Nat
  state : UInt8

/-- `t_capidtmf_state`. -/
structure DtmfState where
  ulaw : UInt8
  recv : RecvState

/-- `capidtmf_recv_init`, which leaves the buffers as the memory has them. -/
def recvInit (r : RecvState) : RecvState :=
  { r with
    minGapDuration := minGapDuration
    minDigitDuration := minDigitDuration
    cycleCounter0 := 0
    cycleCounter := 0
    currentDigitOnTime := 0
    currentDigitOffTime := 0
    currentDigitValue := noDigit
    digitWritePos := 0
    digitReadPos := 0
    indicationState := 0
    indicationStateAck := 0
    state := stateIdle }

/-- `capidtmf_init`. -/
def capidtmfInit (s : DtmfState) (ulaw : UInt8) : DtmfState := { ulaw := ulaw, recv := recvInit s.recv }

/-- A duration in units of half a window, less what the windows add; at least `least`. -/
def shortened (duration least : UInt16) : UInt16 :=
  if duration ≤ least then least
  else
    let duration := duration - 1
    if duration > least then duration - 1 else duration

/-- `capidtmf_recv_enable`. -/
def recvEnable (s : DtmfState) (minDigit minGap : UInt16) (pendingDtmfDigitCode : UInt8) : DtmfState :=
  let pending := pendingDtmfDigitCode < 0x10
  { s with
    recv :=
      { s.recv with
        indicationStateAck := s.recv.indicationStateAck &&& indicationDigit
        minDigitDuration :=
          shortened (UInt16.ofNat ((minDigit.toNat * 8 + timeGranularity / 2) / timeGranularity)) minDigitDuration
        minGapDuration := shortened (UInt16.ofNat (minGap.toNat * 8 / timeGranularity)) minGapDuration
        cycleCounter := 0
        currentDigitOnTime := if pending then 0xffff else 0
        currentDigitOffTime := 0
        currentDigitValue := if pending then pendingDtmfDigitCode else noDigit
        state := s.recv.state ||| stateDtmfActive } }

/-- `capidtmf_recv_indicate_digit`; `none` is a store outside `digit_buffer`. -/
def indicateDigit (digit : UInt8) (r : Digits) : Option Digits :=
  let i := if r.digitWritePos = digitBufferSize - 1 then 0 else r.digitWritePos + 1
  if i = r.digitReadPos then some r
  else if h : r.digitWritePos < digitBufferSize then
    some
      { r with
        digitBuffer := r.digitBuffer.set r.digitWritePos digit h
        digitWritePos := i
        indicationState := (r.indicationState &&& ~~~indicationDigit) ||| (~~~r.indicationStateAck &&& indicationDigit) }
  else none

/-! ### Levels -/

section Evaluation

-- What a `dword` becomes when it is shifted by 32 bits to the right and to the left, which C leaves open.
variable (shiftRight32 shiftLeft32 : UInt32 → UInt32)

/-- `capidtmf_dword_leading_zeroes`; `none` is an index outside the table. -/
def dwordLeadingZeroes (d : UInt32) : Option Nat :=
  if d &&& 0xffff0000 ≠ 0 then
    if d &&& 0xff000000 ≠ 0 then leadingZeroesTable[(d >>> 24).toNat]?
    else leadingZeroesTable[(d >>> 16).toNat]?.map (8 + ·)
  else if d &&& 0xff00 ≠ 0 then leadingZeroesTable[(d >>> 8).toNat]?.map (16 + ·)
  else leadingZeroesTable[d.toNat]?.map (24 + ·)

/-- The level of one frequency, in units of about a decibel. -/
def level (q : Int32 × Int32) : Option UInt8 := do
  let lo := q.1.toUInt32
  let hi := q.2.toUInt32
  let n ← dwordLeadingZeroes (if hi ≠ 0 then hi else lo)
  let top :=
    if hi ≠ 0 then (hi <<< UInt32.ofNat n) ||| (if n = 0 then shiftRight32 lo else lo >>> UInt32.ofNat (32 - n))
    else if n = 32 then shiftLeft32 lo
    else lo <<< UInt32.ofNat n
  let n := UInt16.ofInt (195 - 3 * (if hi ≠ 0 then n else n + 32))
  let n := if top ≥ 0xcb300000 then n + 2 else if top ≥ 0xa1450000 then n + 1 else n
  some n.toUInt8

/-- The highest of the levels from `first` on that is over `floor`, with `value` of its index. -/
def peak (levels : List UInt8) (first count floor : Nat) (value : Nat → UInt8) : Nat × UInt8 :=
  (List.range' first count).foldl
    (fun p i => if (levels.getD i 0).toNat > p.1 then ((levels.getD i 0).toNat, value i) else p) (floor, noDigit)

/-- `low_peak`, `high_peak` and the digit that they stand for: `likely_digit`. -/
def likelyDigit (levels : List UInt8) : Nat × Nat × UInt8 :=
  let lowPeak := peak levels 0 4 sensitivityLow UInt8.ofNat
  let highPeak := peak levels 4 4 sensitivityHigh (fun i => UInt8.ofNat ((i - 4) <<< 2))
  let digit :=
    if highPeak.1 + lowExceedingHigh < lowPeak.1 then noDigit
    else if lowPeak.1 + highExceedingLow < highPeak.1 then noDigit
    else lowPeak.2 ||| highPeak.2
  (lowPeak.1, highPeak.1, digit)

/-- A frequency that is too strong beside one of the peaks, as each of the two of a digit is beside itself. -/
def tooStrong (levels : List UInt8) (lowPeak highPeak i : Nat) : Bool :=
  let margin (peak : Nat) (table : List Nat) : Int16 :=
    Int16.ofInt ((peak : Int) - (levels.getD i 0).toNat - (table.getD i 0 : Nat))
  margin lowPeak guardSnrLowTable < 0 || margin highPeak guardSnrHighTable < 0

/-- The digit of the levels, `CAPIDTMF_RECV_NO_DIGIT` for none. -/
def resultDigit (levels : List UInt8) : UInt8 :=
  let p := likelyDigit levels
  if (List.range 16).countP (tooStrong levels p.1 p.2.1) ≠ 2 then noDigit else p.2.2

/-- The times after a window without a digit. -/
def gapWindow (likely : UInt8) (r : Digits) : Option Digits :=
  if r.currentDigitOnTime ≠ 0 then do
    let r := { r with currentDigitOffTime := r.currentDigitOffTime + 1 }
    let gap : Int :=
      if likely = r.currentDigitValue then (r.currentDigitOffTime.toNat : Int) - 1 else r.currentDigitOffTime.toNat
    if gap ≥ r.minGapDuration.toNat then
      let r ← if r.currentDigitOnTime = 0xffff then indicateDigit 0x7f r else some r
      some { r with currentDigitOnTime := 0, currentDigitOffTime := 0 }
    else some r
  else if r.currentDigitOffTime ≠ 0 then some { r with currentDigitOffTime := r.currentDigitOffTime - 1 }
  else some r

/-- The times after a window with a digit. -/
def digitWindow (result : UInt8) (r : Digits) : Option Digits :=
  if r.currentDigitOnTime = 0 ∧ r.currentDigitOffTime ≠ 0 then
    some { r with currentDigitOffTime := r.currentDigitOffTime - 1 }
  else
    let other := r.currentDigitOnTime ≠ 0 ∧ result ≠ r.currentDigitValue
    let n := if other then 0 else r.currentDigitOffTime
    let onTime := if other then 0 else r.currentDigitOnTime
    let r := { r with currentDigitValue := result, currentDigitOffTime := 0, currentDigitOnTime := onTime }
    if onTime ≠ 0xffff then
      let onTime := onTime + (n + 1)
      if onTime ≥ r.minDigitDuration then indicateDigit result { r with currentDigitOnTime := 0xffff }
      else some { r with currentDigitOnTime := onTime }
    else some r

/-- The times after a window with these levels. -/
def digitTimes (levels : List UInt8) (r : Digits) : Option Digits :=
  if resultDigit levels = noDigit then gapWindow (likelyDigit levels).2.2 r else digitWindow (resultDigit levels) r

/-- The end of a window: the levels of its frequencies, and what follows from them for the digits. -/
def evaluate (r : RecvState) : Option RecvState := do
  let buffer : Goertzel := fun i => goertzelResult (coeffs r.fundamentalAccumulator i) (r.goertzelBuffer i)
  let levels ← (List.finRange 16).mapM (fun i => level shiftRight32 shiftLeft32 (buffer i))
  let digits ← digitTimes levels r.toDigits
  some { r with toDigits := digits, goertzelBuffer := buffer, cycleCounter := 0 }

end Evaluation

/-! ### Turns -/

/-- The start of a turn: where the first window has ended, the second one becomes the first. -/
def shiftWindows (r : RecvState) : RecvState :=
  if r.cycleCounter = 0 then
    let fresh := r.cycleCounter0 = 0
    { r with
      cycleCounter := (r.cycleCounter0 % 65536).toNat
      cycleCounter0 := if fresh then -((accumulateCycles + 1 : Nat) / 2 : Nat) else -((accumulateCycles % 2 : Nat) : Int)
      fundamentalAccumulator := if fresh then fundamentalOffset else r.fundamentalAccumulator0
      fundamentalAccumulator0 := fundamentalOffset
      goertzelBuffer := if fresh then fun _ => (0, 0) else r.goertzelBuffer0
      goertzelBuffer0 := fun _ => (0, 0) }
  else r

/-- The entry of a table; `none` is an index outside it. -/
def tableAt (table : List Int) (i : Int) : Option Int := if 0 ≤ i then table[i.toNat]? else none

/-- The samples times the window from place `q` on. -/
def windowed (ulaw : UInt8) : Int → List UInt8 → Option (List Int16)
  | _, [] => some []
  | q, x :: p => do
    let sample ← tableAt (if ulaw ≠ 0 then expandTableUlaw else expandTableAlaw) x.toNat
    let factor ← tableAt windowFunction q
    let rest ← windowed ulaw (q + 1) p
    some (Int16.ofInt ((sample * factor) >>> (15 : Nat)) :: rest)

/-- The samples of a turn go into the second window, once it has begun, and into the first one. -/
def accumulate (ulaw : UInt8) (r : RecvState) (p : List UInt8) : Option RecvState := do
  let second ←
    if r.cycleCounter0 + p.length > 0 then do
      let j := if r.cycleCounter0 < 0 then (-r.cycleCounter0).toNat else 0
      let samples ← windowed ulaw (r.cycleCounter0 + j) (p.drop j)
      some (goertzelLoop r.goertzelBuffer0 r.fundamentalAccumulator0 samples)
    else some (r.goertzelBuffer0, r.fundamentalAccumulator0)
  let samples ← windowed ulaw r.cycleCounter p
  let first := goertzelLoop r.goertzelBuffer r.fundamentalAccumulator samples
  some
    { r with
      goertzelBuffer0 := second.1
      fundamentalAccumulator0 := second.2
      cycleCounter0 := r.cycleCounter0 + p.length
      goertzelBuffer := first.1
      fundamentalAccumulator := first.2
      cycleCounter := r.cycleCounter + p.length }

section Block

variable (shiftRight32 shiftLeft32 : UInt32 → UInt32)

/-- The end of a turn. -/
def finish (r : RecvState) : Option RecvState :=
  if r.cycleCounter = accumulateCycles then evaluate shiftRight32 shiftLeft32 r else some r

/-- How many samples a turn takes, with `left` samples left in the block. -/
def turnLength (r : RecvState) (left : Nat) : Nat :=
  let n := (((accumulateCycles : Int) - r.cycleCounter) % 65536).toNat
  let n := if n > left then left else n
  if n > windowedSamples then windowedSamples else n

/-- The loop of `capidtmf_recv_block` from a place of the block on; `none` also where the fuel ends. -/
def recvLoop (ulaw : UInt8) : Nat → RecvState → List UInt8 → Option RecvState
  | _, r, [] => some r
  | 0, _, _ :: _ => none
  | fuel + 1, r, x :: p => do
    let r := shiftWindows r
    let n := turnLength r (p.length + 1)
    let r ← accumulate ulaw r ((x :: p).take n)
    let r ← finish shiftRight32 shiftLeft32 r
    recvLoop ulaw fuel r ((x :: p).drop n)

/-- `capidtmf_recv_block`. -/
def recvBlock (s : DtmfState) (buffer : List UInt8) : Option DtmfState :=
  if s.recv.state &&& stateDtmfActive ≠ 0 then do
    let r ← recvLoop shiftRight32 shiftLeft32 s.ulaw buffer.length s.recv buffer
    some { s with recv := r }
  else some s

end Block

/-! ## The filters in pieces -/

/-- The accumulator `k` samples after the start of a window. -/
def fundamentalAt (k : Nat) : Int32 := fundamentalOffset - Int32.ofNat k * fundamentalDecrement

theorem fundamentalAt_facts :
    ∀ k < 206, (0 : Int32) ≤ (fundamentalAt k >>> 1) <<< 1 ∧ (fundamentalAt k >>> 1) <<< 1 = fundamentalAt k ∧
      fundamentalAt k - fundamentalDecrement = fundamentalAt (k + 1) := by
  decide +kernel

theorem toneLoop_append (coeff : Int32) (xs ys : List Int16) (q : Int32 × Int32) :
    toneLoop coeff (xs ++ ys) q = toneLoop coeff ys (toneLoop coeff xs q) := by
  unfold toneLoop
  by_cases h : (0 : Int32) ≤ (coeff >>> 1) <<< 1
  · simp [h]
  · simp [h]

/-- One sample of the last frequency, with a coefficient that is not negative. -/
def fundamentalStep (s : (Int32 × Int32) × Int32) (x : Int16) : (Int32 × Int32) × Int32 :=
  (forward s.2 (s.2 >>> 1) x s.1, s.2 - fundamentalDecrement)

/-- Inside a window the mask at the start of the loop takes nothing from the coefficient. -/
theorem fundamentalLoop_at {k : Nat} (hk : k < 206) (xs : List Int16) (q : Int32 × Int32) :
    fundamentalLoop (fundamentalAt k) xs q = xs.foldl fundamentalStep (q, fundamentalAt k) := by
  obtain ⟨hpos, heven, -⟩ := fundamentalAt_facts k hk
  unfold fundamentalLoop
  simp only [hpos, if_true]
  rw [heven]
  rfl

theorem foldl_fundamentalStep {k : Nat} (xs : List Int16) (h : k + xs.length ≤ 205) (q : Int32 × Int32) :
    (xs.foldl fundamentalStep (q, fundamentalAt k)).2 = fundamentalAt (k + xs.length) := by
  induction xs generalizing k q with
  | nil => rfl
  | cons x xs ih =>
    simp only [List.length_cons] at h ⊢
    have hstep : fundamentalStep (q, fundamentalAt k) x =
        (forward (fundamentalAt k) (fundamentalAt k >>> 1) x q, fundamentalAt (k + 1)) := by
      unfold fundamentalStep
      rw [(fundamentalAt_facts k (by omega)).2.2]
    rw [List.foldl_cons, hstep, ih (by omega)]
    congr 1
    omega

section Loop

variable (b : Goertzel) (accumulator : Int32) (xs : List Int16)

theorem goertzelLoop_snd : (goertzelLoop b accumulator xs).2 = (fundamentalLoop accumulator xs (b 15)).2 := rfl

theorem goertzelLoop_last : (goertzelLoop b accumulator xs).1 15 = (fundamentalLoop accumulator xs (b 15)).1 := rfl

theorem goertzelLoop_tone {i : Fin 16} (hi : i ≠ 15) :
    (goertzelLoop b accumulator xs).1 i = toneLoop (coeffs accumulator i) xs (b i) := if_neg hi

theorem coeffs_tone (accumulator' : Int32) {i : Fin 16} (hi : i ≠ 15) : coeffs accumulator i = coeffs accumulator' i := by
  simp [coeffs, hi]

theorem toneLoop_nil (coeff : Int32) (q : Int32 × Int32) : toneLoop coeff [] q = q := by simp [toneLoop]

end Loop

theorem goertzelLoop_accumulator {k : Nat} (b : Goertzel) (xs : List Int16) (h : k + xs.length ≤ 205) :
    (goertzelLoop b (fundamentalAt k) xs).2 = fundamentalAt (k + xs.length) := by
  rw [goertzelLoop_snd, fundamentalLoop_at (by omega), foldl_fundamentalStep xs h]

theorem goertzelLoop_nil {k : Nat} (hk : k < 206) (b : Goertzel) :
    goertzelLoop b (fundamentalAt k) [] = (b, fundamentalAt k) := by
  have hlast := fundamentalLoop_at hk [] (b 15)
  apply Prod.ext
  · funext i
    by_cases hi : i = 15
    · rw [hi, goertzelLoop_last, hlast, List.foldl_nil]
    · rw [goertzelLoop_tone _ _ _ hi, toneLoop_nil]
  · rw [goertzelLoop_snd, hlast, List.foldl_nil]

/-- The samples of a window in two pieces. -/
theorem goertzelLoop_append {k : Nat} (b : Goertzel) (xs ys : List Int16) (h : k + xs.length + ys.length ≤ 205) :
    goertzelLoop b (fundamentalAt k) (xs ++ ys) =
      goertzelLoop (goertzelLoop b (fundamentalAt k) xs).1 (fundamentalAt (k + xs.length)) ys := by
  have hlast : fundamentalLoop (fundamentalAt k) (xs ++ ys) (b 15) =
      fundamentalLoop (fundamentalAt (k + xs.length)) ys (fundamentalLoop (fundamentalAt k) xs (b 15)).1 := by
    rw [fundamentalLoop_at (by omega), fundamentalLoop_at (by omega), fundamentalLoop_at (by omega), List.foldl_append,
      ← foldl_fundamentalStep xs (by omega) (b 15)]
  apply Prod.ext
  · funext i
    by_cases hi : i = 15
    · rw [hi, goertzelLoop_last, goertzelLoop_last, goertzelLoop_last, hlast]
    · rw [goertzelLoop_tone _ _ _ hi, goertzelLoop_tone _ _ _ hi, goertzelLoop_tone _ _ _ hi, toneLoop_append,
        coeffs_tone (fundamentalAt k) (fundamentalAt (k + xs.length)) hi]
  · rw [goertzelLoop_snd, goertzelLoop_snd, goertzelLoop_last, hlast]

/-! ## Indices -/

theorem tableAt_some (table : List Int) {i : Int} (h0 : 0 ≤ i) (h : i < table.length) : ∃ v, tableAt table i = some v := by
  have hlt : i.toNat < table.length := by omega
  refine ⟨table[i.toNat], ?_⟩
  unfold tableAt
  rw [if_pos h0]
  exact List.getElem?_eq_getElem hlt

theorem tables_length : windowFunction.length = 205 ∧ expandTableUlaw.length = 256 ∧ expandTableAlaw.length = 256 ∧
    leadingZeroesTable.length = 256 := by decide +kernel

theorem windowFunction_length : windowFunction.length = 205 := tables_length.1

theorem expandTable_length (ulaw : UInt8) : (if ulaw ≠ 0 then expandTableUlaw else expandTableAlaw).length = 256 := by
  obtain ⟨-, hu, ha, -⟩ := tables_length
  by_cases h : ulaw ≠ 0
  · rw [if_pos h, hu]
  · rw [if_neg h, ha]

/-- Inside the window every sample is found. -/
theorem windowed_some (ulaw : UInt8) {q : Int} (p : List UInt8) (h0 : 0 ≤ q) (h : q + p.length ≤ 205) :
    ∃ xs, windowed ulaw q p = some xs ∧ xs.length = p.length := by
  induction p generalizing q with
  | nil => exact ⟨[], rfl, rfl⟩
  | cons x p ih =>
    simp only [List.length_cons] at h
    obtain ⟨sample, hsample⟩ := tableAt_some (if ulaw ≠ 0 then expandTableUlaw else expandTableAlaw)
      (i := x.toNat) (by omega) (by rw [expandTable_length]; exact_mod_cast x.toNat_lt)
    obtain ⟨factor, hfactor⟩ := tableAt_some windowFunction (i := q) h0 (by rw [windowFunction_length]; omega)
    obtain ⟨rest, hrest, hlen⟩ := ih (q := q + 1) (by omega) (by omega)
    refine ⟨Int16.ofInt ((sample * factor) >>> (15 : Nat)) :: rest, ?_, by simp [hlen]⟩
    rw [windowed, hsample, hfactor, hrest]
    rfl

theorem windowed_append (ulaw : UInt8) (q : Int) (p p' : List UInt8) {xs ys : List Int16}
    (hxs : windowed ulaw q p = some xs) (hys : windowed ulaw (q + p.length) p' = some ys) :
    windowed ulaw q (p ++ p') = some (xs ++ ys) := by
  induction p generalizing q xs with
  | nil =>
    have hnil : xs = [] := by simpa [windowed] using hxs.symm
    simp only [List.length_nil, Int.ofNat_zero, Int.add_zero] at hys
    rw [hnil]
    exact hys
  | cons x p ih =>
    simp only [windowed, Option.bind_eq_bind, Option.bind_eq_some_iff, Option.some.injEq] at hxs
    obtain ⟨sample, hsample, factor, hfactor, rest, hrest, hcons⟩ := hxs
    have hnext : windowed ulaw (q + 1 + p.length) p' = some ys := by
      rw [← hys]
      congr 1
      simp only [List.length_cons]
      omega
    rw [List.cons_append, windowed, hsample, hfactor, ih (q + 1) hrest hnext, ← hcons]
    rfl

theorem leadingZeroes_some {i : Nat} (h : i < 256) : ∃ n, leadingZeroesTable[i]? = some n := by
  have hlen : leadingZeroesTable.length = 256 := tables_length.2.2.2
  exact ⟨_, List.getElem?_eq_getElem (by omega)⟩

theorem lt_of_mask {x m lo w : Nat} (hx : x < 2 ^ w) (hm : ∀ i < w, lo ≤ i → m.testBit i = true) (h : x &&& m = 0) :
    x < 2 ^ lo := by
  apply Nat.lt_of_not_le
  intro hge
  obtain ⟨i, hi, hbit⟩ := Nat.exists_ge_and_testBit_of_ge_two_pow hge
  have hw : i < w := by
    apply Nat.lt_of_not_le
    intro hle
    have hxi : x < 2 ^ i := Nat.lt_of_lt_of_le hx (Nat.pow_le_pow_right (by omega) hle)
    rw [Nat.testBit_lt_two_pow hxi] at hbit
    exact absurd hbit (by decide)
  have hand : (x &&& m).testBit i = true := by rw [Nat.testBit_and, hbit, hm i hw hi]; rfl
  rw [h, Nat.zero_testBit] at hand
  exact absurd hand (by decide)

/-- The index that the leading zeroes of a `dword` are looked up at is a byte in each branch. -/
theorem dwordLeadingZeroes_some (d : UInt32) : ∃ n, dwordLeadingZeroes d = some n := by
  have hd : d.toNat < 2 ^ 32 := d.toNat_lt
  have toNat_zero {m : UInt32} (h : ¬(d &&& m ≠ 0)) : d.toNat &&& m.toNat = 0 := by
    rw [← UInt32.toNat_and, not_not.1 h]
    rfl
  have hshift (k : UInt32) {w : Nat} (hk : k.toNat % 32 = w) : (d >>> k).toNat = d.toNat / 2 ^ w := by
    rw [UInt32.toNat_shiftRight, hk, Nat.shiftRight_eq_div_pow]
  unfold dwordLeadingZeroes
  by_cases h16 : d &&& 0xffff0000 ≠ 0
  · rw [if_pos h16]
    by_cases h24 : d &&& 0xff000000 ≠ 0
    · rw [if_pos h24]
      apply leadingZeroes_some
      rw [hshift 24 (w := 24) rfl]
      omega
    · rw [if_neg h24]
      have hlt : d.toNat < 2 ^ 24 := lt_of_mask hd (by decide) (toNat_zero h24)
      obtain ⟨n, hn⟩ := leadingZeroes_some (i := (d >>> 16).toNat) (by
        rw [hshift 16 (w := 16) rfl]
        omega)
      exact ⟨8 + n, by rw [hn]; rfl⟩
  · rw [if_neg h16]
    have hlt16 : d.toNat < 2 ^ 16 := lt_of_mask hd (by decide) (toNat_zero h16)
    by_cases h8 : d &&& 0xff00 ≠ 0
    · rw [if_pos h8]
      obtain ⟨n, hn⟩ := leadingZeroes_some (i := (d >>> 8).toNat) (by
        rw [hshift 8 (w := 8) rfl]
        omega)
      exact ⟨16 + n, by rw [hn]; rfl⟩
    · rw [if_neg h8]
      have hlt : d.toNat < 2 ^ 8 := lt_of_mask hlt16 (by decide) (toNat_zero h8)
      obtain ⟨n, hn⟩ := leadingZeroes_some (i := d.toNat) hlt
      exact ⟨24 + n, by rw [hn]; rfl⟩

section Evaluation

variable (shiftRight32 shiftLeft32 : UInt32 → UInt32)

theorem level_some (q : Int32 × Int32) : ∃ v, level shiftRight32 shiftLeft32 q = some v := by
  obtain ⟨n, hn⟩ := dwordLeadingZeroes_some (if q.2.toUInt32 ≠ 0 then q.2.toUInt32 else q.1.toUInt32)
  unfold level
  simp only [hn, Option.bind_eq_bind, Option.bind_some]
  exact ⟨_, rfl⟩

theorem mapM_some {α β : Type} {f : α → Option β} (hf : ∀ x, ∃ v, f x = some v) (xs : List α) :
    ∃ vs, xs.mapM f = some vs := by
  induction xs with
  | nil => exact ⟨[], rfl⟩
  | cons x xs ih =>
    obtain ⟨v, hv⟩ := hf x
    obtain ⟨vs, hvs⟩ := ih
    exact ⟨v :: vs, by rw [List.mapM_cons, hv, hvs]; rfl⟩

/-- The write position of the digit buffer. -/
def Digits.InRange (r : Digits) : Prop := r.digitWritePos < digitBufferSize

theorem indicateDigit_some (digit : UInt8) {r : Digits} (h : r.InRange) : ∃ r', indicateDigit digit r = some r' ∧ r'.InRange := by
  unfold indicateDigit
  simp only []
  by_cases hfull : (if r.digitWritePos = digitBufferSize - 1 then 0 else r.digitWritePos + 1) = r.digitReadPos
  · rw [if_pos hfull]
    exact ⟨r, rfl, h⟩
  · have hlt : r.digitWritePos < digitBufferSize := h
    rw [if_neg hfull, dif_pos hlt]
    refine ⟨_, rfl, ?_⟩
    unfold Digits.InRange
    unfold digitBufferSize at hlt ⊢
    dsimp only
    split
    · decide
    · omega

theorem gapWindow_some (likely : UInt8) {r : Digits} (h : r.InRange) : ∃ r', gapWindow likely r = some r' ∧ r'.InRange := by
  unfold gapWindow
  by_cases hon : r.currentDigitOnTime ≠ 0
  · rw [if_pos hon]
    dsimp only
    generalize (if likely = r.currentDigitValue then ((r.currentDigitOffTime + 1).toNat : Int) - 1
      else (r.currentDigitOffTime + 1).toNat) = gap
    by_cases hgap : gap ≥ r.minGapDuration.toNat
    · rw [if_pos hgap]
      by_cases hmax : r.currentDigitOnTime = 0xffff
      · rw [if_pos hmax]
        obtain ⟨r', he, h'⟩ := indicateDigit_some 0x7f
          (r := { r with currentDigitOffTime := r.currentDigitOffTime + 1 }) h
        exact ⟨{ r' with currentDigitOnTime := 0, currentDigitOffTime := 0 }, by rw [he]; rfl, h'⟩
      · rw [if_neg hmax]
        exact ⟨_, rfl, h⟩
    · rw [if_neg hgap]
      exact ⟨_, rfl, h⟩
  · rw [if_neg hon]
    split
    · exact ⟨_, rfl, h⟩
    · exact ⟨_, rfl, h⟩

theorem digitWindow_some (result : UInt8) {r : Digits} (h : r.InRange) :
    ∃ r', digitWindow result r = some r' ∧ r'.InRange := by
  unfold digitWindow
  split
  · exact ⟨_, rfl, h⟩
  · dsimp only
    generalize (if r.currentDigitOnTime ≠ 0 ∧ result ≠ r.currentDigitValue then 0 else r.currentDigitOffTime) = n
    generalize (if r.currentDigitOnTime ≠ 0 ∧ result ≠ r.currentDigitValue then 0 else r.currentDigitOnTime) = onTime
    by_cases hmax : onTime ≠ 0xffff
    · rw [if_pos hmax]
      by_cases hlong : onTime + (n + 1) ≥ r.minDigitDuration
      · rw [if_pos hlong]
        exact indicateDigit_some result h
      · rw [if_neg hlong]
        exact ⟨_, rfl, h⟩
    · rw [if_neg hmax]
      exact ⟨_, rfl, h⟩

theorem digitTimes_some (levels : List UInt8) {r : Digits} (h : r.InRange) :
    ∃ r', digitTimes levels r = some r' ∧ r'.InRange := by
  unfold digitTimes
  split
  · exact gapWindow_some _ h
  · exact digitWindow_some _ h

/-- The end of a window succeeds; it leaves the second window as it is. -/
theorem evaluate_some {r : RecvState} (h : r.InRange) :
    ∃ r', evaluate shiftRight32 shiftLeft32 r = some r' ∧ r'.InRange ∧ r'.cycleCounter = 0 ∧
      r'.cycleCounter0 = r.cycleCounter0 ∧ r'.fundamentalAccumulator0 = r.fundamentalAccumulator0 ∧ r'.state = r.state := by
  obtain ⟨levels, hlevels⟩ := mapM_some
    (f := fun i => level shiftRight32 shiftLeft32 (goertzelResult (coeffs r.fundamentalAccumulator i) (r.goertzelBuffer i)))
    (fun _ => level_some shiftRight32 shiftLeft32 _) (List.finRange 16)
  obtain ⟨d, hd, hrange⟩ := digitTimes_some levels h
  unfold evaluate
  simp only [hlevels, hd, Option.bind_eq_bind, Option.bind_some]
  exact ⟨_, rfl, hrange, rfl, rfl, rfl, rfl⟩

end Evaluation

/-! ## Turns in pieces -/

/-- The second window runs 103 samples behind the first, and both accumulators stand where their windows do. -/
structure Mid (r : RecvState) : Prop where
  inRange : r.InRange
  active : r.state &&& stateDtmfActive ≠ 0
  le : r.cycleCounter ≤ 205
  behind : r.cycleCounter0 = (r.cycleCounter : Int) - 103
  accumulator : r.fundamentalAccumulator = fundamentalAt r.cycleCounter
  accumulator0 : r.fundamentalAccumulator0 = fundamentalAt r.cycleCounter0.toNat

/-- Between two turns: inside a window, or at the end of one, where the windows are not shifted yet. -/
structure Ready (r : RecvState) : Prop where
  inRange : r.InRange
  active : r.state &&& stateDtmfActive ≠ 0
  mid : r.cycleCounter ≠ 0 → Mid r ∧ r.cycleCounter < 205
  ended : r.cycleCounter = 0 →
    r.cycleCounter0 = 0 ∨ (r.cycleCounter0 = 102 ∧ r.fundamentalAccumulator0 = fundamentalAt 102)

theorem shiftWindows_of_ne {r : RecvState} (h : r.cycleCounter ≠ 0) : shiftWindows r = r := if_neg h

theorem fundamentalAt_zero : fundamentalAt 0 = fundamentalOffset := by decide

theorem Ready.shift {r : RecvState} (h : Ready r) : Mid (shiftWindows r) ∧ (shiftWindows r).cycleCounter < 205 := by
  by_cases hcc : r.cycleCounter = 0
  · rcases h.ended hcc with hfresh | ⟨hhalf, hacc⟩
    · unfold shiftWindows
      rw [if_pos hcc]
      simp only [hfresh, if_true]
      exact ⟨⟨h.inRange, h.active, by dsimp only; decide, by dsimp only; decide, fundamentalAt_zero.symm,
        fundamentalAt_zero.symm⟩, by decide⟩
    · unfold shiftWindows
      rw [if_pos hcc]
      simp only [hhalf]
      exact ⟨⟨h.inRange, h.active, by dsimp only; decide, by dsimp only; decide, hacc, fundamentalAt_zero.symm⟩,
        by decide⟩
  · rw [shiftWindows_of_ne hcc]
    exact h.mid hcc

/-- Inside a window the second one takes the samples from place `j` on, none where it has not begun. -/
theorem accumulate_eq {ulaw : UInt8} {r : RecvState} (h : Mid r) {p : List UInt8} {xs0 xs : List Int16}
    (hxs0 : windowed ulaw r.cycleCounter0.toNat (p.drop (-r.cycleCounter0).toNat) = some xs0)
    (hxs : windowed ulaw r.cycleCounter p = some xs) :
    accumulate ulaw r p = some
      { r with
        goertzelBuffer0 := (goertzelLoop r.goertzelBuffer0 r.fundamentalAccumulator0 xs0).1
        fundamentalAccumulator0 := (goertzelLoop r.goertzelBuffer0 r.fundamentalAccumulator0 xs0).2
        cycleCounter0 := r.cycleCounter0 + p.length
        goertzelBuffer := (goertzelLoop r.goertzelBuffer r.fundamentalAccumulator xs).1
        fundamentalAccumulator := (goertzelLoop r.goertzelBuffer r.fundamentalAccumulator xs).2
        cycleCounter := r.cycleCounter + p.length } := by
  have hle := h.le
  have hbehind := h.behind
  by_cases hbegun : r.cycleCounter0 + p.length > 0
  · have hj : (if r.cycleCounter0 < 0 then (-r.cycleCounter0).toNat else 0) = (-r.cycleCounter0).toNat := by
      split <;> omega
    have hq : r.cycleCounter0 + ((-r.cycleCounter0).toNat : Nat) = (r.cycleCounter0.toNat : Int) := by omega
    unfold accumulate
    rw [if_pos hbegun]
    simp only [hj, hq, hxs0, hxs, Option.bind_eq_bind, Option.bind_some]
  · have hnone : p.drop (-r.cycleCounter0).toNat = [] := List.drop_eq_nil_of_le (by omega)
    have hnil : xs0 = [] := by
      rw [hnone] at hxs0
      exact (Option.some.inj hxs0).symm
    have hloop : goertzelLoop r.goertzelBuffer0 r.fundamentalAccumulator0 [] =
        (r.goertzelBuffer0, r.fundamentalAccumulator0) := by
      rw [h.accumulator0]
      exact goertzelLoop_nil (by omega) _
    unfold accumulate
    rw [if_neg hbegun]
    simp only [hnil, hloop, hxs, Option.bind_eq_bind, Option.bind_some]

/-- A piece of a window succeeds, and its accumulators go on with it. -/
theorem Mid.piece (ulaw : UInt8) {r : RecvState} (h : Mid r) (p : List UInt8) (hp : r.cycleCounter + p.length ≤ 205) :
    ∃ r', accumulate ulaw r p = some r' ∧ Mid r' ∧ r'.cycleCounter = r.cycleCounter + p.length := by
  have hbehind := h.behind
  obtain ⟨xs0, hxs0, hlen0⟩ := windowed_some ulaw (q := r.cycleCounter0.toNat) (p.drop (-r.cycleCounter0).toNat)
    (by omega) (by rw [List.length_drop]; omega)
  obtain ⟨xs, hxs, hlen⟩ := windowed_some ulaw (q := r.cycleCounter) p (by omega) (by omega)
  refine ⟨_, accumulate_eq h hxs0 hxs, ⟨h.inRange, h.active, hp, ?_, ?_, ?_⟩, rfl⟩
  · dsimp only
    omega
  · dsimp only
    rw [h.accumulator, goertzelLoop_accumulator _ _ (by omega), hlen]
  · dsimp only
    rw [List.length_drop] at hlen0
    rw [h.accumulator0, goertzelLoop_accumulator _ _ (by omega), hlen0]
    congr 1
    omega

/-- A piece of a window in two pieces. -/
theorem Mid.append {ulaw : UInt8} {r r' : RecvState} (h : Mid r) {p : List UInt8} (p' : List UInt8)
    (hp : r.cycleCounter + p.length + p'.length ≤ 205) (hr : accumulate ulaw r p = some r') :
    accumulate ulaw r (p ++ p') = accumulate ulaw r' p' := by
  have hbehind := h.behind
  obtain ⟨xs0, hxs0, hlen0⟩ := windowed_some ulaw (q := r.cycleCounter0.toNat) (p.drop (-r.cycleCounter0).toNat)
    (by omega) (by rw [List.length_drop]; omega)
  obtain ⟨xs, hxs, hlen⟩ := windowed_some ulaw (q := r.cycleCounter) p (by omega) (by omega)
  have hfirst := accumulate_eq h hxs0 hxs
  obtain ⟨r₁, he, hmid, hcc⟩ := h.piece ulaw p (by omega)
  obtain rfl : r₁ = r' := Option.some.inj (he.symm.trans hr)
  have hr₁ := Option.some.inj (he.symm.trans hfirst)
  have hcc0 : r₁.cycleCounter0 = r.cycleCounter0 + p.length := by rw [hr₁]
  obtain ⟨ys0, hys0, hlen0'⟩ := windowed_some ulaw (q := r₁.cycleCounter0.toNat) (p'.drop (-r₁.cycleCounter0).toNat)
    (by omega) (by rw [List.length_drop]; omega)
  obtain ⟨ys, hys, hlen'⟩ := windowed_some ulaw (q := r₁.cycleCounter) p' (by omega) (by omega)
  -- the rest begins in each window where the first piece has ended
  have hboth0 : windowed ulaw r.cycleCounter0.toNat ((p ++ p').drop (-r.cycleCounter0).toNat) = some (xs0 ++ ys0) := by
    rw [List.drop_append]
    apply windowed_append ulaw _ _ _ hxs0
    rw [← hys0, List.length_drop]
    congr 2 <;> omega
  have hboth : windowed ulaw r.cycleCounter (p ++ p') = some (xs ++ ys) := by
    apply windowed_append ulaw _ _ _ hxs
    rw [← hys, hcc]
    congr 1
  rw [List.length_drop] at hlen0 hlen0'
  have hloop0 : goertzelLoop r.goertzelBuffer0 r.fundamentalAccumulator0 (xs0 ++ ys0) =
      goertzelLoop r₁.goertzelBuffer0 r₁.fundamentalAccumulator0 ys0 := by
    have hacc : r₁.fundamentalAccumulator0 = fundamentalAt (r.cycleCounter0.toNat + xs0.length) := by
      rw [hmid.accumulator0]
      congr 1
      omega
    rw [h.accumulator0, goertzelLoop_append _ _ _ (by omega), hacc, hr₁, h.accumulator0]
  have hloop : goertzelLoop r.goertzelBuffer r.fundamentalAccumulator (xs ++ ys) =
      goertzelLoop r₁.goertzelBuffer r₁.fundamentalAccumulator ys := by
    have hacc : r₁.fundamentalAccumulator = fundamentalAt (r.cycleCounter + xs.length) := by
      rw [hmid.accumulator, hcc, hlen]
    rw [h.accumulator, goertzelLoop_append _ _ _ (by omega), hacc, hr₁, h.accumulator]
  rw [accumulate_eq h hboth0 hboth, accumulate_eq hmid hys0 hys, hloop0, hloop, hcc, hcc0, List.length_append]
  rw [hr₁]
  simp only [Nat.add_assoc, Int.add_assoc, Int.natCast_add]

section Block

variable (shiftRight32 shiftLeft32 : UInt32 → UInt32) (ulaw : UInt8)

/-- The end of a turn succeeds, and what it leaves is ready for the next one. -/
theorem Mid.finished {r : RecvState} (h : Mid r) (hne : r.cycleCounter ≠ 0) :
    ∃ r', finish shiftRight32 shiftLeft32 r = some r' ∧ Ready r' := by
  have hle := h.le
  have hbehind := h.behind
  unfold finish
  by_cases hend : r.cycleCounter = accumulateCycles
  · obtain ⟨r', he, hrange, hcc, hcc0, hacc0, hstate⟩ := evaluate_some shiftRight32 shiftLeft32 h.inRange
    rw [if_pos hend]
    unfold accumulateCycles at hend
    have h102 : r.cycleCounter0 = 102 := by omega
    refine ⟨r', he, hrange, hstate ▸ h.active, fun hne => absurd hcc hne, fun _ => Or.inr ⟨hcc0.trans h102, ?_⟩⟩
    rw [hacc0, h.accumulator0, h102]
    rfl
  · rw [if_neg hend]
    unfold accumulateCycles at hend
    exact ⟨r, rfl, h.inRange, h.active, fun _ => ⟨h, by omega⟩, fun hzero => absurd hzero hne⟩

/-- One sample. -/
def sample (r : RecvState) (x : UInt8) : Option RecvState :=
  (accumulate ulaw (shiftWindows r) [x]).bind (finish shiftRight32 shiftLeft32)

theorem sample_some {r : RecvState} (h : Ready r) (x : UInt8) :
    ∃ r', sample shiftRight32 shiftLeft32 ulaw r x = some r' ∧ Ready r' := by
  obtain ⟨hmid, hlt⟩ := h.shift
  obtain ⟨r₁, he₁, h₁, hcc₁⟩ := hmid.piece ulaw [x] (by simp only [List.length_singleton]; omega)
  obtain ⟨r₂, he₂, h₂⟩ := h₁.finished shiftRight32 shiftLeft32 (by rw [hcc₁]; simp)
  refine ⟨r₂, ?_, h₂⟩
  unfold sample
  rw [he₁]
  exact he₂

/-- A turn is its samples one by one. -/
theorem turn_eq {r : RecvState} (h : Ready r) {p : List UInt8} (hne : p ≠ [])
    (hp : (shiftWindows r).cycleCounter + p.length ≤ 205) :
    (accumulate ulaw (shiftWindows r) p).bind (finish shiftRight32 shiftLeft32) =
      p.foldlM (sample shiftRight32 shiftLeft32 ulaw) r := by
  induction p generalizing r with
  | nil => exact absurd rfl hne
  | cons x p ih =>
    obtain ⟨hmid, hlt⟩ := h.shift
    simp only [List.length_cons] at hp
    cases p with
    | nil =>
      rw [List.foldlM_cons]
      simp only [List.foldlM_nil, bind_pure]
      rfl
    | cons y p =>
      simp only [List.length_cons] at hp
      obtain ⟨r₁, he₁, h₁, hcc₁⟩ := hmid.piece ulaw [x] (by simp only [List.length_singleton]; omega)
      simp only [List.length_singleton] at hcc₁
      -- the window does not end before the last sample of the turn
      have hfinish : finish shiftRight32 shiftLeft32 r₁ = some r₁ := by
        unfold finish accumulateCycles
        rw [if_neg (by omega)]
      have hready : Ready r₁ := ⟨h₁.inRange, h₁.active, fun _ => ⟨h₁, by omega⟩, fun hzero => by omega⟩
      have hshift : shiftWindows r₁ = r₁ := shiftWindows_of_ne (by omega)
      have hsample : sample shiftRight32 shiftLeft32 ulaw r x = some r₁ := by
        unfold sample
        rw [he₁]
        exact hfinish
      have hrest := ih hready (by simp) (by rw [hshift, hcc₁]; simp only [List.length_cons]; omega)
      rw [hshift] at hrest
      have happend := hmid.append (y :: p)
        (by simp only [List.length_cons, List.length_nil]; omega) he₁
      rw [List.singleton_append] at happend
      rw [List.foldlM_cons, hsample, happend]
      exact hrest

theorem turnLength_bounds {r : RecvState} (h : r.cycleCounter < 205) (left : Nat) (hleft : 0 < left) :
    0 < turnLength r left ∧ turnLength r left ≤ left ∧ r.cycleCounter + turnLength r left ≤ 205 := by
  unfold turnLength accumulateCycles windowedSamples
  dsimp only
  split <;> split <;> omega

/-- The loop of a block is its samples one by one; the length of the block is fuel enough. -/
theorem recvLoop_eq {fuel : Nat} {r : RecvState} (h : Ready r) {p : List UInt8} (hp : p.length ≤ fuel) :
    recvLoop shiftRight32 shiftLeft32 ulaw fuel r p = p.foldlM (sample shiftRight32 shiftLeft32 ulaw) r := by
  induction fuel generalizing r p with
  | zero =>
    obtain rfl : p = [] := List.eq_nil_of_length_eq_zero (by omega)
    rfl
  | succ fuel ih =>
    cases p with
    | nil => rfl
    | cons x p =>
      obtain ⟨hmid, hlt⟩ := h.shift
      obtain ⟨hpos, hle, hend⟩ := turnLength_bounds hlt (p.length + 1) (by omega)
      rw [recvLoop]
      generalize turnLength (shiftWindows r) (p.length + 1) = n at hpos hle hend ⊢
      have htake : ((x :: p).take n).length = n := by
        rw [List.length_take, List.length_cons]
        omega
      have hne : (x :: p).take n ≠ [] := by
        intro hnil
        rw [hnil] at htake
        simp only [List.length_nil] at htake
        omega
      have hturn := turn_eq shiftRight32 shiftLeft32 ulaw h hne (by rw [htake]; exact hend)
      obtain ⟨r', he, h'⟩ := foldlM_some (fun _ x hs => sample_some shiftRight32 shiftLeft32 ulaw hs x) h
        ((x :: p).take n)
      rw [he] at hturn
      obtain ⟨r₁, he₁, he₂⟩ := Option.bind_eq_some_iff.1 hturn
      have hrest : ((x :: p).drop n).length ≤ fuel := by
        rw [List.length_drop]
        simp only [List.length_cons] at hp ⊢
        omega
      have hsplit := foldlM_split (sample shiftRight32 shiftLeft32 ulaw) r (x :: p) n
      rw [he] at hsplit
      rw [he₁, hsplit]
      simp only [Option.bind_eq_bind, Option.bind_some, he₂]
      exact ih h' hrest

end Block

/-! ## Blocks -/

section Blocks

variable (shiftRight32 shiftLeft32 : UInt32 → UInt32)

/-- One sample of the stream. -/
def streamSample (s : DtmfState) (x : UInt8) : Option DtmfState :=
  (sample shiftRight32 shiftLeft32 s.ulaw s.recv x).map (fun r => { s with recv := r })

theorem streamSample_some {s : DtmfState} (h : Ready s.recv) (x : UInt8) :
    ∃ s', streamSample shiftRight32 shiftLeft32 s x = some s' ∧ Ready s'.recv := by
  obtain ⟨r, he, hr⟩ := sample_some shiftRight32 shiftLeft32 s.ulaw h x
  refine ⟨{ s with recv := r }, ?_, hr⟩
  unfold streamSample
  rw [he]
  rfl

theorem foldlM_streamSample (s : DtmfState) (p : List UInt8) :
    p.foldlM (streamSample shiftRight32 shiftLeft32) s =
      (p.foldlM (sample shiftRight32 shiftLeft32 s.ulaw) s.recv).map (fun r => { s with recv := r }) := by
  induction p generalizing s with
  | nil => rfl
  | cons x p ih =>
    rw [List.foldlM_cons, List.foldlM_cons]
    unfold streamSample
    cases hx : sample shiftRight32 shiftLeft32 s.ulaw s.recv x with
    | none => rfl
    | some r => exact ih { s with recv := r }

/-- `capidtmf_recv_block` takes its samples one by one. -/
theorem recvBlock_eq {s : DtmfState} (h : Ready s.recv) (p : List UInt8) :
    recvBlock shiftRight32 shiftLeft32 s p = p.foldlM (streamSample shiftRight32 shiftLeft32) s := by
  unfold recvBlock
  rw [if_pos h.active, recvLoop_eq shiftRight32 shiftLeft32 s.ulaw h (Nat.le_refl _), foldlM_streamSample]
  exact (Option.map_eq_bind ..).symm

/-- After `capidtmf_init` and `capidtmf_recv_enable` the receiver is at the start of a window. -/
theorem ready_enabled (memory : DtmfState) (ulaw : UInt8) (minDigit minGap : UInt16) (pending : UInt8) :
    Ready (recvEnable (capidtmfInit memory ulaw) minDigit minGap pending).recv := by
  refine ⟨?_, ?_, fun hne => absurd rfl hne, fun _ => Or.inl rfl⟩
  · show 0 < digitBufferSize
    decide
  · show (stateIdle ||| stateDtmfActive) &&& stateDtmfActive ≠ 0
    decide

/-- Two ways of cutting a stream into blocks leave the same state at every border that they have in
    common, the digits in `digit_buffer` included, and no index leaves its range. -/
theorem recv_blocks_cut (memory : DtmfState) (ulaw : UInt8) (minDigit minGap : UInt16) (pending : UInt8)
    (blocks blocks' : List (List UInt8)) (hcut : blocks.flatten = blocks'.flatten) (m m' : Nat)
    (hborder : (blocks.take m).flatten.length = (blocks'.take m').flatten.length) :
    ∃ s, (blocks.take m).foldlM (recvBlock shiftRight32 shiftLeft32)
        (recvEnable (capidtmfInit memory ulaw) minDigit minGap pending) = some s ∧
      (blocks'.take m').foldlM (recvBlock shiftRight32 shiftLeft32)
        (recvEnable (capidtmfInit memory ulaw) minDigit minGap pending) = some s := by
  obtain ⟨s, he, he', -⟩ := cuts_agree (I := fun s => Ready s.recv)
    (fun _ x hs => streamSample_some shiftRight32 shiftLeft32 hs x)
    (fun _ p hs => recvBlock_eq shiftRight32 shiftLeft32 hs p)
    (ready_enabled memory ulaw minDigit minGap pending) hcut hborder
  exact ⟨s, he, he'⟩

end Blocks

/-- A memory of zeros. -/
def zeroState : DtmfState where
  ulaw := 0
  recv :=
    { digitBuffer := Vector.replicate digitBufferSize 0
      digitWritePos := 0
      digitReadPos := 0
      indicationState := 0
      indicationStateAck := 0
      minGapDuration := 0
      minDigitDuration := 0
      currentDigitOnTime := 0
      currentDigitOffTime := 0
      currentDigitValue := 0
      cycleCounter0 := 0
      fundamentalAccumulator0 := 0
      goertzelBuffer0 := fun _ => (0, 0)
      fundamentalAccumulator := 0
      goertzelBuffer := fun _ => (0, 0)
      cycleCounter := 0
      state := 0 }

/-- 42 samples of the digit 5, in A-law. -/
def digitFive : List UInt8 :=
  [170, 205, 157, 209, 70, 192, 120, 170, 166, 176, 236, 32, 177, 29, 125, 121, 80, 188, 208, 174, 233, 170, 232, 175,
    209, 189, 81, 120, 124, 28, 176, 33, 237, 177, 167, 170, 121, 193, 71, 208, 156, 204]

/-- Five of them go over the end of the first window. -/
theorem recv_blocks_cut_digit :
    ∃ s, (List.replicate 5 digitFive).foldlM (recvBlock id id) (recvEnable (capidtmfInit zeroState 0) 40 40 0xff) = some s ∧
      [(List.replicate 5 digitFive).flatten.take 100, (List.replicate 5 digitFive).flatten.drop 100].foldlM (recvBlock id id)
        (recvEnable (capidtmfInit zeroState 0) 40 40 0xff) = some s ∧
      s.recv.digitWritePos = 1 ∧ s.recv.digitBuffer.toList.head? = some 5 := by
  obtain ⟨s, h, h'⟩ := recv_blocks_cut id id zeroState 0 40 40 0xff (List.replicate 5 digitFive)
    [(List.replicate 5 digitFive).flatten.take 100, (List.replicate 5 digitFive).flatten.drop 100] (by simp) 5 2 (by simp)
  have hdigit : ((List.replicate 5 digitFive).foldlM (recvBlock id id)
      (recvEnable (capidtmfInit zeroState 0) 40 40 0xff)).map (fun s => (s.recv.digitWritePos, s.recv.digitBuffer.toList.head?))
        = some (1, some 5) := by
    decide +kernel
  rw [show (List.replicate 5 digitFive).take 5 = List.replicate 5 digitFive from rfl] at h
  rw [h, Option.map_some, Option.some.injEq, Prod.mk.injEq] at hdigit
  exact ⟨s, h, h', hdigit.1, hdigit.2⟩

end Divas.Capi.DtmfReceive
