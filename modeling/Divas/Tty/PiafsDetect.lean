/-
  Divas.Tty.PiafsDetect — what the detector for 64K detects.

  The stream is the bytes that were given so far, `window w bs t` the `w` bits in front of bit
  `t`. The first pattern fixes where the frames begin: `octet bs t j` is the `j`th byte from
  there on, `t` the end of the pattern, and `CrcOk bs t k` says that the `k`th frame has its
  CRC. `syncHistory` begins with zeros, so the last 31 bits of the pattern at the begin of the
  stream are taken for it (`SyncAt bs 31`).

  Proved, for every way to cut the stream: a frame is detected with the last byte of the first
  frame that has its CRC (`listen_spec`); so the frame around the first pattern of the stream
  is detected exactly, unless the stream begins inside a pattern (`piafs_detection`). Then the
  frame is passed by (`piafs_passes`).
-/

import Mathlib.Tactic.IntervalCases
import Divas.Lib.BitStream
import Divas.Lib.Run
import Divas.Tty.Piafs

namespace Divas.Tty.Piafs

open Divas.Lib.BitStream Divas.Lib.Run

/-! ## Frames -/

/-- The pattern ends at bit `t`. -/
def SyncAt (bs : List Octet) (t : Nat) : Prop := window 32 bs t = 0x50ef2993

instance (bs : List Octet) (t : Nat) : Decidable (SyncAt bs t) := inferInstanceAs (Decidable (_ = _))

/-- The first pattern ends at bit `t`. -/
structure FirstSync (bs : List Octet) (t : Nat) : Prop where
  le : t ≤ 8 * bs.length
  sync : SyncAt bs t
  first : ∀ u < t, ¬ SyncAt bs u

/-- The `j`th byte from the begin of the frame whose pattern ends at bit `t`. -/
def octet (bs : List Octet) (t j : Nat) : Octet := window 8 bs (t + 8 * j - 48)

/-- The CRC of the first `n` bytes of the `k`th frame. -/
def crcUpTo (bs : List Octet) (t k n : Nat) : BitVec 32 :=
  (List.range n).foldl (fun crc j => PiafsFrm.crc32Msb crc (octet bs t (80 * k + j))) 0xffffffff

/-- Where the `k`th frame ends. -/
def frameEnd (t k : Nat) : Nat := t + 640 * k + 584

/-- The `k`th frame has its CRC. -/
def CrcOk (bs : List Octet) (t k : Nat) : Prop := crcUpTo bs t k (frameLength - crcLength) = window 32 bs (frameEnd t k)

instance (bs : List Octet) (t k : Nat) : Decidable (CrcOk bs t k) := inferInstanceAs (Decidable (_ = _))

/-- A frame with its CRC has been there. -/
def Found (bs : List Octet) : Prop := ∃ t k, FirstSync bs t ∧ frameEnd t k ≤ 8 * bs.length ∧ CrcOk bs t k

section Append

variable {as bs : List Octet} {t k m : Nat}

theorem syncAt_append (bs : List Octet) (h : t ≤ 8 * as.length) : SyncAt (as ++ bs) t ↔ SyncAt as t := by
  unfold SyncAt
  rw [window_append bs h]

theorem octet_append (bs : List Octet) {j : Nat} (h : t + 8 * j ≤ 8 * as.length + 48) : octet (as ++ bs) t j = octet as t j :=
  window_append bs (by omega)

theorem crcUpTo_succ (bs : List Octet) (t k n : Nat) :
    crcUpTo bs t k (n + 1) = PiafsFrm.crc32Msb (crcUpTo bs t k n) (octet bs t (80 * k + n)) := by
  unfold crcUpTo
  rw [List.range_succ, List.foldl_append]
  rfl

theorem crcUpTo_append (bs : List Octet) {n : Nat} (h : t + 8 * (80 * k + n) ≤ 8 * as.length + 56) :
    crcUpTo (as ++ bs) t k n = crcUpTo as t k n := by
  induction n with
  | zero => rfl
  | succ n ih =>
    rw [crcUpTo_succ, crcUpTo_succ, ih (by omega), octet_append bs (by omega)]

theorem crcOk_append (bs : List Octet) (h : frameEnd t k ≤ 8 * as.length) : CrcOk (as ++ bs) t k ↔ CrcOk as t k := by
  have hdata : t + 8 * (80 * k + (frameLength - crcLength)) ≤ 8 * as.length + 56 := by
    unfold frameEnd at h
    unfold frameLength crcLength
    grind
  unfold CrcOk
  rw [window_append bs h, crcUpTo_append bs hdata]

theorem FirstSync.append (h : FirstSync as t) (bs : List Octet) : FirstSync (as ++ bs) t := by
  have hle := h.le
  refine ⟨?_, (syncAt_append bs hle).mpr h.sync, ?_⟩
  · rw [List.length_append]
    omega
  · intro u hu hs
    exact h.first u hu ((syncAt_append bs (by omega)).mp hs)

theorem FirstSync.unique {t' : Nat} (h : FirstSync as t) (h' : FirstSync as t') : t = t' := by
  rcases Nat.lt_trichotomy t t' with hlt | heq | hlt
  · exact absurd h.sync (h'.first t hlt)
  · exact heq
  · exact absurd h'.sync (h.first t' hlt)

theorem Found.append (h : Found as) (bs : List Octet) : Found (as ++ bs) := by
  obtain ⟨t, k, hfirst, hend, hcrc⟩ := h
  refine ⟨t, k, hfirst.append bs, ?_, (crcOk_append bs hend).mpr hcrc⟩
  rw [List.length_append]
  omega

end Append

/-! ## The pattern at any bit -/

/-- The last byte of the history tells where the pattern may end. -/
theorem shiftTable_sync {bs : List Octet} {n s : Nat} (h1 : 1 ≤ s) (h8 : s ≤ 8) (hle : n + s ≤ 8 * bs.length)
    (h : SyncAt bs (n + s)) :
    shiftTable.getD (window 8 bs n).toNat 0 = s := by
  have hv : upTo bs (n + s) % 2 ^ 32 = 0x50ef2993 := by
    have hn := congrArg BitVec.toNat h
    rw [window, BitVec.toNat_ofNat] at hn
    exact hn
  have hn : upTo bs n = upTo bs (n + s) / 2 ^ s := by
    rw [upTo_div hle, Nat.add_sub_cancel]
  have hbyte : (window 8 bs n).toNat = 0x50ef2993 / 2 ^ s % 2 ^ 8 := by
    unfold window
    rw [BitVec.toNat_ofNat, hn, ← hv]
    generalize upTo bs (n + s) = v
    interval_cases s <;> omega
  rw [hbyte]
  interval_cases s <;> decide +kernel

theorem shiftTable_bounds : ∀ i < 256, 1 ≤ shiftTable.getD i 0 ∧ shiftTable.getD i 0 ≤ 8 := by
  have hall : (shiftTable.all fun v => decide (1 ≤ v ∧ v ≤ 8)) = true := by decide +kernel
  have hlength : shiftTable.length = 256 := by decide +kernel
  intro i hi
  rw [List.getD_eq_getElem?_getD, List.getElem?_eq_getElem (by omega), Option.getD_some]
  exact of_decide_eq_true (List.all_eq_true.mp hall _ (List.getElem_mem _))

/-- A byte of the frames, from the two bytes of the stream that have its bits. -/
theorem octet_join (bs : List Octet) (u : Nat) {s : Nat} (hs : s ≤ 8) (h : 8 * (u + 1) ≤ 8 * bs.length + 48) :
    window 8 bs (8 * u - 48) <<< s ||| window 8 bs (8 * (u + 1) - 48) >>> (8 - s) = window 8 bs (8 * u + s - 48) := by
  by_cases hu : 6 ≤ u
  · have hj := window_join bs (w := 8) (t := 8 * u - 48) hs le_rfl (by omega)
    rw [BitVec.setWidth_eq] at hj
    rw [show 8 * (u + 1) - 48 = 8 * u - 48 + 8 by omega, show 8 * u + s - 48 = 8 * u - 48 + s by omega]
    exact hj
  · rw [show 8 * u - 48 = 0 by omega, show 8 * (u + 1) - 48 = 0 by omega, show 8 * u + s - 48 = 0 by omega, window_zero]
    simp

/-! ## States -/

open PiafsFrm

/-- No pattern yet. -/
structure Hunting (bs : List Octet) (s : PiafsFrm) : Prop where
  noSync : ∀ t ≤ 8 * bs.length, ¬ SyncAt bs t
  state : s.rxState = .hunt
  previous : s.previousRxState = .hunt
  off : s.rateAdaptationEnable = false
  history : s.syncHistory = window 32 bs (8 * bs.length)
  index : s.huntPhaseSyncLagIndex = bs.length % 7
  lag : ∀ i < 7, s.huntPhaseSyncLag ((bs.length + i) % 7) = window 8 bs (8 * (bs.length + i + 1) - 56)
  crc : s.rxCrc = 0xffffffff
  frame : s.idxInRxFrame = 0
  buffer : s.dqRxBuffer = false
  bufIdx : s.dqRxBufIdx = 0

/-- The received CRC after `c` of its bytes. -/
def receivedUpTo (bs : List Octet) (t k c : Nat) : BitVec 32 :=
  (List.range c).foldl (fun r j => r <<< 8 ||| (octet bs t (80 * k + 76 + j)).setWidth 32) 0

/-- `m` bytes of the frames have been read. -/
structure Reading (bs : List Octet) (t m : Nat) (s : PiafsFrm) : Prop where
  state : s.rxState = if m % 80 < 76 then .data else .crc
  previous : s.previousRxState = .hunt
  off : s.rateAdaptationEnable = false
  frame : s.idxInRxFrame = min (m % 80) 76
  crc : s.rxCrc = crcUpTo bs t (m / 80) (min (m % 80) 76)
  count : 76 ≤ m % 80 → s.numberOfReceivedCrcBytes = m % 80 - 76
  received : 76 ≤ m % 80 → s.receivedCrc = receivedUpTo bs t (m / 80) (m % 80 - 76)
  closed : s.dqRxBuffer = false → m % 80 = 0
  bufIdx : s.dqRxBuffer = true → s.dqRxBufIdx = min (m % 80) 76
  bound : s.dqRxBufIdx ≤ 76

/-- Frames are read, and none has had its CRC; `d` bytes have followed the pattern. -/
structure Aligned (bs : List Octet) (t d : Nat) (s : PiafsFrm) : Prop where
  first : FirstSync bs t
  none : ∀ k, frameEnd t k ≤ 8 * bs.length → ¬ CrcOk bs t k
  shift : 8 * bs.length + s.bitsToLeftShift = t + 8 * d + 8
  shift_pos : 1 ≤ s.bitsToLeftShift
  shift_le : s.bitsToLeftShift ≤ 8
  register : s.currentRxShiftRegister = window 8 bs (8 * bs.length) <<< s.bitsToLeftShift
  reading : Reading bs t (7 + d) s

/-! ## The bytes of the frames -/

section Frames

variable {bs : List Octet} {t m : Nat} {s : PiafsFrm} {x : Octet}

theorem receivedUpTo_succ (bs : List Octet) (t k c : Nat) :
    receivedUpTo bs t k (c + 1) = receivedUpTo bs t k c <<< 8 ||| (octet bs t (80 * k + 76 + c)).setWidth 32 := by
  unfold receivedUpTo
  rw [List.range_succ, List.foldl_append]
  rfl

theorem receivedUpTo_append {as : List Octet} (bs : List Octet) {k c : Nat} (h : t + 8 * (80 * k + 76 + c) ≤ 8 * as.length + 56) :
    receivedUpTo (as ++ bs) t k c = receivedUpTo as t k c := by
  induction c with
  | zero => rfl
  | succ c ih => rw [receivedUpTo_succ, receivedUpTo_succ, ih (by omega), octet_append bs (by omega)]

/-- Four bytes shift out what was there before. -/
theorem shifted_out (w a b c d : BitVec 32) :
    (((w <<< 8 ||| a) <<< 8 ||| b) <<< 8 ||| c) <<< 8 ||| d
      = ((((0 : BitVec 32) <<< 8 ||| a) <<< 8 ||| b) <<< 8 ||| c) <<< 8 ||| d := by
  have hw : ∀ v : BitVec 32, v <<< 8 <<< 8 <<< 8 <<< 8 = 0 := by
    intro v
    rw [← BitVec.shiftLeft_add, ← BitVec.shiftLeft_add, ← BitVec.shiftLeft_add]
    exact BitVec.shiftLeft_eq_zero (by decide)
  simp only [BitVec.shiftLeft_or_distrib, hw]

/-- Four bytes are the 32 bits in front of the end of the frame. -/
theorem receivedUpTo_four (ht : 31 ≤ t) {k : Nat} (h : frameEnd t k ≤ 8 * bs.length) :
    receivedUpTo bs t k 4 = window 32 bs (frameEnd t k) := by
  have hjoin : ∀ c < 4, window 32 bs (frameEnd t k - 32 + 8 * (c + 1)) =
      window 32 bs (frameEnd t k - 32 + 8 * c) <<< 8 ||| (octet bs t (80 * k + 76 + c)).setWidth 32 := by
    intro c hc
    have hle : frameEnd t k - 32 + 8 * c + 8 ≤ 8 * bs.length := by
      unfold frameEnd at h ⊢
      omega
    have hj := window_join bs (w := 32) (t := frameEnd t k - 32 + 8 * c) (s := 8) le_rfl (by omega) hle
    rw [Nat.sub_self, BitVec.ushiftRight_zero] at hj
    have hplace : t + 8 * (80 * k + 76 + c) - 48 = frameEnd t k - 32 + 8 * c + 8 := by
      unfold frameEnd
      omega
    unfold octet
    rw [hplace, hj]
    rfl
  have h4 := hjoin 3 (by omega)
  rw [hjoin 2 (by omega), hjoin 1 (by omega), hjoin 0 (by omega)] at h4
  have hend : frameEnd t k - 32 + 8 * (3 + 1) = frameEnd t k := by
    unfold frameEnd
    omega
  rw [hend] at h4
  rw [h4, shifted_out, receivedUpTo_succ, receivedUpTo_succ, receivedUpTo_succ, receivedUpTo_succ]
  rfl

/-- What has been read does not change. -/
theorem Reading.append {as : List Octet} (bs : List Octet) (h : Reading as t m s) (hle : t + 8 * m ≤ 8 * as.length + 56) :
    Reading (as ++ bs) t m s := by
  have hdiv := Nat.div_add_mod m 80
  refine ⟨h.state, h.previous, h.off, h.frame, ?_, h.count, ?_, h.closed, h.bufIdx, h.bound⟩
  · rw [crcUpTo_append bs (by omega)]
    exact h.crc
  · intro hc
    rw [receivedUpTo_append bs (by omega)]
    exact h.received hc

theorem next_data (h : m % 80 < 76) : (m + 1) % 80 = m % 80 + 1 ∧ (m + 1) / 80 = m / 80 := by omega

/-- A byte is stored. -/
theorem Reading.process (h : Reading bs t m s) (hm : m % 80 < 76) (hx : x = octet bs t m) :
    Reading bs t (m + 1) (s.processIncomingData x) := by
  obtain ⟨hmod, hdiv⟩ := next_data hm
  have hmin : min (m % 80) 76 = m % 80 := by omega
  have hframe := h.frame
  have hcrc := h.crc
  rw [hmin] at hframe hcrc
  have hplace : 80 * (m / 80) + m % 80 = m := Nat.div_add_mod m 80
  have hstore : (s.storeByte x).idxInRxFrame = m % 80 + 1 ∧ (s.storeByte x).rxCrc = crcUpTo bs t (m / 80) (m % 80 + 1) ∧
      (s.storeByte x).dqRxBufIdx = m % 80 + 1 ∧ (s.storeByte x).dqRxBuffer = true := by
    refine ⟨?_, ?_, ?_, rfl⟩
    · show s.idxInRxFrame + 1 = _
      rw [hframe]
    · show crc32Msb s.rxCrc x = _
      rw [hcrc, crcUpTo_succ, hplace, hx]
    · have hidx : (if s.dqRxBuffer then s.dqRxBufIdx else 0) = m % 80 := by
        cases hb : s.dqRxBuffer with
        | true => exact (h.bufIdx hb).trans hmin
        | false => exact (h.closed hb).symm
      show (if bufLength ≤ (if s.dqRxBuffer then s.dqRxBufIdx else 0) then 0 else if s.dqRxBuffer then s.dqRxBufIdx else 0)
        + 1 = _
      rw [hidx, if_neg (by unfold bufLength; omega)]
  obtain ⟨h1, h2, h3, h4⟩ := hstore
  have hstate : (s.storeByte x).rxState = .data := by
    show s.rxState = .data
    rw [h.state, if_pos hm]
  have hmin' : min ((m + 1) % 80) 76 = m % 80 + 1 := by omega
  unfold processIncomingData
  dsimp only
  rw [h1]
  split
  case isTrue hend =>
    have hend : m % 80 = 75 := Nat.succ.inj hend
    refine ⟨?_, h.previous, h.off, ?_, ?_, ?_, ?_, ?_, ?_, ?_⟩
    · show (if (s.storeByte x).rxState = .data then RxState.crc else _) = _
      rw [hstate, if_pos rfl, if_neg (by omega)]
    · exact h1.trans hmin'.symm
    · rw [hmin', hdiv]
      exact h2
    · intro _
      show 0 = _
      omega
    · intro _
      rw [show (m + 1) % 80 - 76 = 0 by omega]
      rfl
    · intro hc
      have htrue : true = false := h4.symm.trans hc
      cases htrue
    · exact fun _ => h3.trans hmin'.symm
    · show (s.storeByte x).dqRxBufIdx ≤ 76
      omega
  case isFalse hend =>
    have hend : m % 80 ≠ 75 := fun he => hend (congrArg Nat.succ he)
    have hlt : (m + 1) % 80 < 76 := by omega
    refine ⟨?_, h.previous, h.off, h1.trans hmin'.symm, ?_, ?_, ?_, ?_, fun _ => h3.trans hmin'.symm, ?_⟩
    · rw [hstate, if_pos hlt]
    · rw [hmin', hdiv]
      exact h2
    · omega
    · omega
    · intro hc
      rw [h4] at hc
      cases hc
    · omega

/-- The next byte of the frames is shifted together from two bytes of the stream. -/
theorem Aligned.shiftBitRx {d : Nat} (h : Aligned bs t d s) (x : Octet) :
    (s.shiftBitRx x).1 = octet (bs ++ [x]) t (7 + d) ∧
      (s.shiftBitRx x).2.currentRxShiftRegister = window 8 (bs ++ [x]) (8 * (bs ++ [x]).length) <<< s.bitsToLeftShift := by
  have hshift := h.shift
  have hj := window_join (bs ++ [x]) (w := 8) (t := 8 * bs.length) h.shift_le le_rfl
      (by rw [List.length_append, List.length_singleton]; omega)
  have hlast := window_last bs x
  rw [BitVec.setWidth_eq, hlast, window_append [x] le_rfl, ← h.register] at hj
  constructor
  · show s.currentRxShiftRegister ||| x >>> (8 - s.bitsToLeftShift) = window 8 (bs ++ [x]) (t + 8 * (7 + d) - 48)
    rw [hj, show t + 8 * (7 + d) - 48 = 8 * bs.length + s.bitsToLeftShift by omega]
  · rw [List.length_append, List.length_singleton, Nat.mul_add, hlast]
    rfl

theorem Aligned.bound {d : Nat} (h : Aligned bs t d s) : t + 8 * (7 + d) ≤ 8 * bs.length + 56 := by
  have := h.shift
  have := h.shift_le
  omega

/-- No frame ends between bytes that are not its last. -/
theorem Aligned.none_append {d : Nat} (h : Aligned bs t d s) (x : Octet)
    (hlast : ∀ k, 7 + d = 80 * k + 79 → ¬ CrcOk (bs ++ [x]) t k) :
    ∀ k, frameEnd t k ≤ 8 * (bs ++ [x]).length → ¬ CrcOk (bs ++ [x]) t k := by
  intro k hk
  rw [List.length_append, List.length_singleton] at hk
  by_cases hbs : frameEnd t k ≤ 8 * bs.length
  · rw [crcOk_append [x] hbs]
    exact h.none k hbs
  · refine hlast k ?_
    have hshift := h.shift
    have hpos := h.shift_pos
    have hle := h.shift_le
    unfold frameEnd at hk hbs
    omega

theorem Aligned.dataTurn {d : Nat} (h : Aligned bs t d s) (x : Octet) (hm : (7 + d) % 80 < 76) :
    Aligned (bs ++ [x]) t (d + 1) (s.dataTurn x) := by
  obtain ⟨hx, hreg⟩ := h.shiftBitRx x
  have hread : Reading (bs ++ [x]) t (7 + d) (s.shiftBitRx x).2 := by
    obtain ⟨h1, h2, h3, h4, h5, h6, h7, h8, h9, h10⟩ := h.reading.append [x] h.bound
    exact ⟨h1, h2, h3, h4, h5, h6, h7, h8, h9, h10⟩
  have hproc := hread.process hm hx
  have hturn : s.dataTurn x =
      { (s.shiftBitRx x).2.processIncomingData (s.shiftBitRx x).1 with receivedCrc := 0, numberOfReceivedCrcBytes := 0 } := by
    unfold PiafsFrm.dataTurn processIncomingData
    dsimp only
    split
    · rfl
    · rfl
  have hshift := h.shift
  have hfields : (s.dataTurn x).bitsToLeftShift = s.bitsToLeftShift ∧
      (s.dataTurn x).currentRxShiftRegister = (s.shiftBitRx x).2.currentRxShiftRegister := by
    rw [hturn]
    unfold processIncomingData
    dsimp only
    split
    · exact ⟨rfl, rfl⟩
    · exact ⟨rfl, rfl⟩
  refine ⟨h.first.append [x], h.none_append x (fun k hk => absurd hk (by omega)), ?_, ?_, ?_, ?_, ?_⟩
  · rw [hfields.1, List.length_append, List.length_singleton]
    omega
  · rw [hfields.1]
    exact h.shift_pos
  · rw [hfields.1]
    exact h.shift_le
  · rw [hfields.2, hfields.1, hreg]
  · rw [hturn]
    refine ⟨hproc.state, hproc.previous, hproc.off, hproc.frame, hproc.crc, ?_, ?_, hproc.closed, hproc.bufIdx, hproc.bound⟩
    · intro _
      show 0 = _
      omega
    · intro _
      rw [show (7 + (d + 1)) % 80 - 76 = 0 by omega]
      rfl

/-- A byte of the CRC; the last one ends the frame. -/
theorem Aligned.crcTurn {d : Nat} (ht : 31 ≤ t) (h : Aligned bs t d s) (x : Octet) (hm : 76 ≤ (7 + d) % 80) :
    ((s.crcTurn x).2 = true ∧ Found (bs ++ [x]) ∧ (s.crcTurn x).1.dqRxBufIdx ≤ 76) ∨
      ((s.crcTurn x).2 = false ∧ Aligned (bs ++ [x]) t (d + 1) (s.crcTurn x).1) := by
  obtain ⟨hx, hreg⟩ := h.shiftBitRx x
  have hread := h.reading.append [x] h.bound
  have hshift := h.shift
  have hle := h.shift_le
  have hpos := h.shift_pos
  have hcount := hread.count hm
  have hplace : 80 * ((7 + d) / 80) + 76 + ((7 + d) % 80 - 76) = 7 + d := by omega
  have hreceived : s.receivedCrc <<< 8 ||| (s.shiftBitRx x).1.setWidth 32 =
      receivedUpTo (bs ++ [x]) t ((7 + d) / 80) ((7 + d) % 80 - 76 + 1) := by
    rw [hread.received hm, hx, receivedUpTo_succ, hplace]
  have hcrc : s.rxCrc = crcUpTo (bs ++ [x]) t ((7 + d) / 80) 76 := by
    rw [hread.crc, Nat.min_eq_right hm]
  have hlen : 8 * (bs ++ [x]).length + s.bitsToLeftShift = t + 8 * (d + 1) + 8 := by
    rw [List.length_append, List.length_singleton]
    omega
  unfold PiafsFrm.crcTurn
  dsimp only
  rw [show (s.shiftBitRx x).2.numberOfReceivedCrcBytes = s.numberOfReceivedCrcBytes from rfl,
    show (s.shiftBitRx x).2.receivedCrc = s.receivedCrc from rfl, show (s.shiftBitRx x).2.rxCrc = s.rxCrc from rfl,
      hreceived, hcount]
  split
  case isTrue hmore =>
    unfold crcLength at hmore
    refine Or.inr ⟨rfl, h.first.append [x], h.none_append x ?_, hlen, hpos, hle, hreg, ?_⟩
    · intro k hk
      omega
    · have hmod : (7 + (d + 1)) % 80 = (7 + d) % 80 + 1 := by omega
      have hdiv : (7 + (d + 1)) / 80 = (7 + d) / 80 := by omega
      have hmin : min ((7 + (d + 1)) % 80) 76 = min ((7 + d) % 80) 76 := by omega
      refine ⟨?_, hread.previous, hread.off, ?_, ?_, ?_, ?_, ?_, ?_, hread.bound⟩
      · rw [if_neg (by omega)]
        show s.rxState = _
        rw [hread.state, if_neg (by omega)]
      · rw [hmin]
        exact hread.frame
      · rw [hmin, hdiv]
        exact hread.crc
      · intro _
        show (7 + d) % 80 - 76 + 1 = _
        omega
      · intro _
        rw [hdiv, show (7 + (d + 1)) % 80 - 76 = (7 + d) % 80 - 76 + 1 by omega]
      · intro hc
        have := hread.closed hc
        omega
      · rw [hmin]
        exact hread.bufIdx
  case isFalse hmore =>
    have hmore : (7 + d) % 80 - 76 + 1 = 4 := not_ne_iff.mp hmore
    have hk : 7 + d = 80 * ((7 + d) / 80) + 79 := by omega
    have hend : frameEnd t ((7 + d) / 80) ≤ 8 * (bs ++ [x]).length := by
      unfold frameEnd
      omega
    rw [hmore, receivedUpTo_four ht hend, hcrc]
    split
    case isTrue hok => exact Or.inl ⟨rfl, ⟨t, (7 + d) / 80, h.first.append [x], hend, hok⟩, hread.bound⟩
    case isFalse hbad =>
      refine Or.inr ⟨rfl, h.first.append [x], h.none_append x ?_, hlen, hpos, hle, hreg, ?_⟩
      · intro k hk'
        rw [show k = (7 + d) / 80 by omega]
        exact hbad
      · have hmod : (7 + (d + 1)) % 80 = 0 := by omega
        rw [show 7 + (d + 1) = 80 * ((7 + d) / 80 + 1) by omega]
        have hzero : 80 * ((7 + d) / 80 + 1) % 80 = 0 := Nat.mul_mod_right _ _
        refine ⟨?_, hread.previous, hread.off, ?_, ?_, ?_, ?_, fun _ => hzero, nofun, hread.bound⟩
        · rw [hzero]
          show (if s.previousRxState = .preHunt then RxState.preHunt else .data) = _
          rw [hread.previous]
          rfl
        · rw [hzero]
          rfl
        · rw [hzero]
          rfl
        · intro hc
          omega
        · intro hc
          omega

end Frames

/-! ## Hunting -/

section Hunt

variable {bs : List Octet} {s : PiafsFrm} {x : Octet}

/-- The ring is read from its oldest byte on: `i` bytes of the frame are there. -/
structure Lagging (bs : List Octet) (t i : Nat) (s : PiafsFrm) : Prop where
  index : s.huntPhaseSyncLagIndex = (bs.length + i) % 7
  lag : ∀ i < 7, s.huntPhaseSyncLag ((bs.length + i) % 7) = window 8 bs (8 * (bs.length + i + 1) - 56)
  shift : t = 8 * bs.length + s.bitsToLeftShift
  shift_le : s.bitsToLeftShift ≤ 8
  register : s.currentRxShiftRegister = window 8 bs (8 * (bs.length + i + 1) - 56) <<< s.bitsToLeftShift
  reading : Reading bs t i s

theorem process_frame (s : PiafsFrm) (x : Octet) :
    (s.processIncomingData x).huntPhaseSyncLagIndex = s.huntPhaseSyncLagIndex ∧
      (s.processIncomingData x).huntPhaseSyncLag = s.huntPhaseSyncLag ∧
      (s.processIncomingData x).bitsToLeftShift = s.bitsToLeftShift ∧
      (s.processIncomingData x).currentRxShiftRegister = s.currentRxShiftRegister := by
  unfold processIncomingData
  dsimp only
  split
  · exact ⟨rfl, rfl, rfl, rfl⟩
  · exact ⟨rfl, rfl, rfl, rfl⟩

theorem Lagging.turn {t i : Nat} (h : Lagging bs t i s) (hi : i < 6) : Lagging bs t (i + 1) s.lagTurn := by
  have hindex : (s.huntPhaseSyncLagIndex + 1) % 7 = (bs.length + (i + 1)) % 7 := by
    rw [h.index]
    omega
  have hbyte := h.lag (i + 1) (by omega)
  have hshift := h.shift
  obtain ⟨b, hb⟩ : ∃ b, s.huntPhaseSyncLag ((s.huntPhaseSyncLagIndex + 1) % 7) = b := ⟨_, rfl⟩
  have hb' := hb
  rw [hindex, hbyte] at hb'
  have hx : s.currentRxShiftRegister ||| b >>> (8 - s.bitsToLeftShift) = octet bs t i := by
    have hj := octet_join bs (bs.length + i) h.shift_le (by omega)
    rw [h.register, ← hb', show 8 * (bs.length + i + 1) - 56 = 8 * (bs.length + i) - 48 by omega,
      show 8 * (bs.length + (i + 1) + 1) - 56 = 8 * (bs.length + i + 1) - 48 by omega, hj]
    unfold octet
    rw [hshift, show 8 * (bs.length + i) + s.bitsToLeftShift - 48 = 8 * bs.length + s.bitsToLeftShift + 8 * i - 48 by omega]
  have hturn : s.lagTurn = ({ s with
      huntPhaseSyncLagIndex := (s.huntPhaseSyncLagIndex + 1) % 7
      currentRxShiftRegister := b <<< s.bitsToLeftShift } : PiafsFrm).processIncomingData (octet bs t i) := by
    rw [← hx, ← hb]
    rfl
  have hread : Reading bs t i { s with
      huntPhaseSyncLagIndex := (s.huntPhaseSyncLagIndex + 1) % 7, currentRxShiftRegister := b <<< s.bitsToLeftShift } := by
    obtain ⟨h1, h2, h3, h4, h5, h6, h7, h8, h9, h10⟩ := h.reading
    exact ⟨h1, h2, h3, h4, h5, h6, h7, h8, h9, h10⟩
  have hproc := hread.process (by omega) rfl
  obtain ⟨h1, h2, h3, h4⟩ := process_frame { s with
      huntPhaseSyncLagIndex := (s.huntPhaseSyncLagIndex + 1) % 7, currentRxShiftRegister := b <<< s.bitsToLeftShift }
        (octet bs t i)
  rw [hturn]
  refine ⟨h1.trans hindex, ?_, ?_, ?_, ?_, hproc⟩
  · rw [h2]
    exact h.lag
  · rw [h3]
    exact hshift
  · rw [h3]
    exact h.shift_le
  · rw [h4, h3, ← hb']

theorem Lagging.turns {t : Nat} (h : Lagging bs t 0 s) :
    ∀ i ≤ 6, Lagging bs t i ((List.range i).foldl (fun s _ => s.lagTurn) s) := by
  intro i
  induction i with
  | zero => exact fun _ => h
  | succ i ih =>
    intro hi
    rw [List.range_succ, List.foldl_append]
    exact (ih (by omega)).turn (by omega)

/-- The pattern ends inside the byte. -/
theorem Hunting.synchronize {k : Nat} (h : Hunting bs s) (h1 : 1 ≤ k) (h8 : k ≤ 8)
    (hfirst : FirstSync (bs ++ [x]) (8 * bs.length + k)) : Aligned (bs ++ [x]) (8 * bs.length + k) 0 (s.synchronize k x) := by
  obtain ⟨s₁, hs₁⟩ : ∃ s₁ : PiafsFrm, s₁ =
      { s with
        rxState := .data, justSynchronized := true, bitsToLeftShift := k
        currentRxShiftRegister := s.huntPhaseSyncLag s.huntPhaseSyncLagIndex <<< k } := ⟨_, rfl⟩
  have hlag : Lagging bs (8 * bs.length + k) 0 s₁ := by
    rw [hs₁]
    refine ⟨h.index, h.lag, rfl, h8, ?_, ?_⟩
    · show s.huntPhaseSyncLag s.huntPhaseSyncLagIndex <<< k = _
      rw [h.index, ← h.lag 0 (by omega)]
      rfl
    · refine ⟨rfl, h.previous, h.off, h.frame, h.crc, nofun, nofun, fun _ => rfl, ?_, ?_⟩
      · intro hb
        have hfalse : false = true := h.buffer.symm.trans hb
        cases hfalse
      · show s.dqRxBufIdx ≤ 76
        rw [h.bufIdx]
        omega
  have h6 := hlag.turns 6 le_rfl
  have hturn : s.synchronize k x =
      (((List.range 6).foldl (fun s _ => s.lagTurn) s₁).shiftBitRx x).2.processIncomingData
        (((List.range 6).foldl (fun s _ => s.lagTurn) s₁).shiftBitRx x).1 := by
    rw [hs₁]
    rfl
  rw [hturn]
  generalize (List.range 6).foldl (fun s _ => s.lagTurn) s₁ = s₂ at h6
  have hk : s₂.bitsToLeftShift = k := by
    have := h6.shift
    omega
  have hlast := window_last bs x
  have hlen : 8 * (bs ++ [x]).length = 8 * bs.length + 8 := by
    rw [List.length_append, List.length_singleton, Nat.mul_add]
  have hx : (s₂.shiftBitRx x).1 = octet (bs ++ [x]) (8 * bs.length + k) 6 := by
    have hj := window_join (bs ++ [x]) (w := 8) (t := 8 * bs.length) h8 le_rfl (by omega)
    rw [BitVec.setWidth_eq, hlast, window_append [x] le_rfl] at hj
    show s₂.currentRxShiftRegister ||| x >>> (8 - s₂.bitsToLeftShift) = window 8 (bs ++ [x]) _
    rw [h6.register, hk, show 8 * (bs.length + 6 + 1) - 56 = 8 * bs.length by omega, hj,
      show 8 * bs.length + k + 8 * 6 - 48 = 8 * bs.length + k by omega]
  have hread : Reading (bs ++ [x]) (8 * bs.length + k) 6 (s₂.shiftBitRx x).2 := by
    obtain ⟨h1, h2, h3, h4, h5, h6, h7, h8, h9, h10⟩ := h6.reading.append [x] (by omega)
    exact ⟨h1, h2, h3, h4, h5, h6, h7, h8, h9, h10⟩
  have hproc := hread.process (by decide) hx
  obtain ⟨-, -, hshift, hreg⟩ := process_frame (s₂.shiftBitRx x).2 (s₂.shiftBitRx x).1
  have hshift : ((s₂.shiftBitRx x).2.processIncomingData (s₂.shiftBitRx x).1).bitsToLeftShift = k := hshift.trans hk
  refine ⟨hfirst, ?_, ?_, ?_, ?_, ?_, hproc⟩
  · intro j hj
    unfold frameEnd at hj
    omega
  · rw [hshift]
    omega
  · rw [hshift]
    exact h1
  · rw [hshift]
    exact h8
  · rw [hreg, hshift, hlen, hlast, ← hk]
    rfl

/-- The test of the history and the byte is for the pattern. -/
theorem Hunting.check (h : Hunting bs s) {k : Nat} (hk : k ≤ 8) :
    s.syncHistory <<< k ||| x.setWidth 32 >>> (8 - k) = window 32 (bs ++ [x]) (8 * bs.length + k) := by
  have hj := window_join (bs ++ [x]) (w := 32) (t := 8 * bs.length) hk (by omega)
    (by rw [List.length_append, List.length_singleton]; omega)
  rw [window_last, window_append [x] le_rfl, ← h.history] at hj
  exact hj

/-- Only at the place that the table gives the pattern may end. -/
theorem Hunting.shift (h : Hunting bs s) {k : Nat} (h1 : 1 ≤ k) (h8 : k ≤ 8) (hs : SyncAt (bs ++ [x]) (8 * bs.length + k)) :
    shiftTable.getD (s.syncHistory.setWidth 8).toNat 0 = k := by
  have hlow : s.syncHistory.setWidth 8 = window 8 (bs ++ [x]) (8 * bs.length) := by
    rw [h.history, window_append [x] le_rfl]
    unfold window
    exact BitVec.setWidth_ofNat_of_le (by omega) _
  rw [hlow]
  refine shiftTable_sync h1 h8 ?_ hs
  rw [List.length_append, List.length_singleton]
  omega

/-- A byte in the hunt state. -/
theorem Hunting.turn (h : Hunting bs s) (x : Octet) :
    Hunting (bs ++ [x]) (s.huntTurn x) ∨ ∃ t, Aligned (bs ++ [x]) t 0 (s.huntTurn x) := by
  have hlen : 8 * (bs ++ [x]).length = 8 * bs.length + 8 := by
    rw [List.length_append, List.length_singleton, Nat.mul_add]
  obtain ⟨h1, h8⟩ := shiftTable_bounds _ (s.syncHistory.setWidth 8).isLt
  have hcheck := h.check (x := x) h8
  have hshift : ∀ k, 1 ≤ k → k ≤ 8 → SyncAt (bs ++ [x]) (8 * bs.length + k) →
      shiftTable.getD (s.syncHistory.setWidth 8).toNat 0 = k := fun _ => h.shift
  have hearlier : ∀ t ≤ 8 * bs.length, ¬ SyncAt (bs ++ [x]) t := by
    intro t ht
    rw [syncAt_append [x] ht]
    exact h.noSync t ht
  unfold huntTurn
  dsimp only
  generalize shiftTable.getD (s.syncHistory.setWidth 8).toNat 0 = k at *
  rw [hcheck]
  split
  case isTrue hsync =>
    refine Or.inr ⟨8 * bs.length + k, h.synchronize h1 h8 ⟨by omega, hsync, ?_⟩⟩
    intro u hu hs
    by_cases hle : u ≤ 8 * bs.length
    · exact hearlier u hle hs
    · have hu' : u = 8 * bs.length + (u - 8 * bs.length) := by omega
      rw [hu'] at hs
      have := hshift _ (by omega) (by omega) hs
      omega
  case isFalse hno =>
    refine Or.inl ⟨?_, h.state, h.previous, h.off, ?_, ?_, ?_, h.crc, h.frame, h.buffer, h.bufIdx⟩
    · intro t ht hs
      by_cases hle : t ≤ 8 * bs.length
      · exact hearlier t hle hs
      · have ht' : t = 8 * bs.length + (t - 8 * bs.length) := by omega
        rw [ht'] at hs
        rw [← hshift _ (by omega) (by omega) hs] at hs
        exact hno hs
    · have hjoin := h.check (x := x) (k := 8) le_rfl
      rw [Nat.sub_self, BitVec.ushiftRight_zero] at hjoin
      rw [hlen]
      exact hjoin
    · show (s.huntPhaseSyncLagIndex + 1) % 7 = _
      rw [h.index, List.length_append, List.length_singleton]
      omega
    · intro i hi
      show Function.update s.huntPhaseSyncLag s.huntPhaseSyncLagIndex x (((bs ++ [x]).length + i) % 7) = _
      rw [h.index, List.length_append, List.length_singleton]
      by_cases hi6 : i = 6
      · rw [show (bs.length + 1 + i) % 7 = bs.length % 7 by omega, Function.update_self,
          show 8 * (bs.length + 1 + i + 1) - 56 = 8 * bs.length + 8 by omega]
        exact (window_last bs x).symm
      · rw [Function.update_of_ne (by omega), show bs.length + 1 + i = bs.length + (i + 1) by omega, h.lag (i + 1) (by omega)]
        exact (window_append [x] (by omega)).symm

end Hunt

/-! ## The loop -/

section Loop

variable {bs : List Octet} {s : PiafsFrm}

/-- What the detector is, as long as it has not detected a frame. -/
def Listening (bs : List Octet) (s : PiafsFrm) : Prop := Hunting bs s ∨ ∃ t d, Aligned bs t d s

theorem SyncAt.ge {t : Nat} (h : SyncAt bs t) (hle : t ≤ 8 * bs.length) : 31 ≤ t := by
  by_contra hlt
  have hv := upTo_lt hle
  have hp : 2 ^ t ≤ 2 ^ 30 := Nat.pow_le_pow_right (by omega) (by omega)
  have hn := congrArg BitVec.toNat h
  rw [window, BitVec.toNat_ofNat, Nat.mod_eq_of_lt (by omega)] at hn
  have : upTo bs t = 0x50ef2993 := hn
  omega

theorem Listening.not_found (h : Listening bs s) : ¬ Found bs := by
  rintro ⟨t, k, hfirst, hend, hcrc⟩
  rcases h with h | ⟨t', d, h⟩
  · exact h.noSync t hfirst.le hfirst.sync
  · rw [hfirst.unique h.first] at hend hcrc
    exact h.none k hend hcrc

theorem Listening.fields (h : Listening bs s) : s.rateAdaptationEnable = false ∧ s.previousRxState = .hunt ∧
    s.dqRxBufIdx ≤ 76 := by
  rcases h with h | ⟨t, d, h⟩
  · exact ⟨h.off, h.previous, by rw [h.bufIdx]; omega⟩
  · exact ⟨h.reading.off, h.reading.previous, h.reading.bound⟩

theorem Listening.nextByte (h : Listening bs s) (data : Nat → Octet) (c : Cursor) :
    s.nextByte data c = (s, { c with readIndex := c.readIndex + 1, nbBytes := c.nbBytes - 1 }, some (data c.readIndex)) := by
  unfold PiafsFrm.nextByte
  rw [h.fields.1, if_neg Bool.false_ne_true]

/-- The loop over the rest of a piece. -/
theorem decodeLoop_listening (data : Nat → Octet) (saved : Nat) (xs : List Octet) :
    ∀ (fuel : Nat) (bs : List Octet) (s : PiafsFrm) (c : Cursor), Listening bs s → xs.length ≤ fuel → c.nbBytes = xs.length →
      (∀ i < xs.length, data (c.readIndex + i) = xs.getD i 0) →
      ((decodeLoop data saved fuel s c).2.2 = true ∧ Found (bs ++ xs) ∧ (decodeLoop data saved fuel s c).1.dqRxBufIdx ≤ 76) ∨
        ((decodeLoop data saved fuel s c).2.2 = false ∧ Listening (bs ++ xs) (decodeLoop data saved fuel s c).1 ∧
          (decodeLoop data saved fuel s c).2.1.nbBytes = 0) := by
  induction xs with
  | nil =>
    intro fuel bs s c h _ hn _
    rw [List.append_nil]
    cases fuel with
    | zero => exact Or.inr ⟨rfl, h, hn⟩
    | succ fuel =>
      unfold decodeLoop
      rw [show c.nbBytes = 0 from hn, if_pos rfl]
      exact Or.inr ⟨rfl, h, hn⟩
  | cons x xs ih =>
    intro fuel bs s c h hfuel hn hdata
    cases fuel with
    | zero => exact absurd hfuel (Nat.not_succ_le_zero _)
    | succ fuel =>
      have hfuel' : xs.length ≤ fuel := Nat.le_of_succ_le_succ hfuel
      have hx : data c.readIndex = x := hdata 0 (Nat.succ_pos _)
      have hnext : ∀ s', Listening (bs ++ [x]) s' →
          ((decodeLoop data saved fuel s' ⟨c.readIndex + 1, c.nbBytes - 1, c.preSyncIndex⟩).2.2 = true ∧ Found (bs ++ x :: xs) ∧
            (decodeLoop data saved fuel s' ⟨c.readIndex + 1, c.nbBytes - 1, c.preSyncIndex⟩).1.dqRxBufIdx ≤ 76) ∨
          ((decodeLoop data saved fuel s' ⟨c.readIndex + 1, c.nbBytes - 1, c.preSyncIndex⟩).2.2 = false ∧
            Listening (bs ++ x :: xs) (decodeLoop data saved fuel s' ⟨c.readIndex + 1, c.nbBytes - 1, c.preSyncIndex⟩).1 ∧
            (decodeLoop data saved fuel s' ⟨c.readIndex + 1, c.nbBytes - 1, c.preSyncIndex⟩).2.1.nbBytes = 0) := by
        intro s' hs'
        have hstep := ih fuel (bs ++ [x]) s' ⟨c.readIndex + 1, c.nbBytes - 1, c.preSyncIndex⟩ hs' hfuel' (by rw [hn]; rfl) (by
          intro i hi
          rw [show c.readIndex + 1 + i = c.readIndex + (i + 1) by omega]
          exact hdata (i + 1) (Nat.succ_lt_succ hi))
        rwa [List.append_assoc] at hstep
      unfold decodeLoop
      rw [if_neg (by rw [hn]; exact Nat.succ_ne_zero _), h.nextByte]
      dsimp only
      rw [hx]
      rcases h with h | ⟨t, d, h⟩
      · rw [h.state]
        refine hnext _ ?_
        rcases h.turn x with h' | ⟨t, h'⟩
        · exact Or.inl h'
        · exact Or.inr ⟨t, 0, h'⟩
      · by_cases hm : (7 + d) % 80 < 76
        · rw [h.reading.state, if_pos hm]
          exact hnext _ (Or.inr ⟨t, d + 1, h.dataTurn x hm⟩)
        · rw [h.reading.state, if_neg hm]
          dsimp only
          rcases h.crcTurn (h.first.sync.ge h.first.le) x (by omega) with ⟨hd, hfound, hidx⟩ | ⟨hd, h'⟩
          · rw [hd, if_pos rfl]
            rw [show bs ++ x :: xs = bs ++ [x] ++ xs by simp]
            exact Or.inl ⟨rfl, hfound.append xs, hidx⟩
          · rw [hd, if_neg Bool.false_ne_true]
            exact hnext _ (Or.inr ⟨t, d + 1, h'⟩)

end Loop

/-! ## The detector and the pieces of a stream -/

/-- A detector and `*detected`. -/
structure Detector where
  s : PiafsFrm
  detected : Bool

/-- The next piece, as long as nothing is detected. -/
def Detector.feed (d : Detector) (piece : List Octet) : Detector :=
  if d.detected then d
  else
    let (s, _, detected) := fr2PiafsFramingDecode 0x10000 d.s (fun i => piece.getD i 0) piece.length
    ⟨s, detected⟩

/-- The pieces, from the initialization for 64K on. -/
def listen (pieces : List (List Octet)) : Detector := run Detector.feed ⟨initPiafsProcess false, false⟩ pieces

theorem hunting_init : Hunting [] (initPiafsProcess false) := by
  refine ⟨?_, rfl, rfl, rfl, rfl, rfl, ?_, rfl, rfl, rfl, rfl⟩
  · intro t ht
    rw [Nat.le_zero.mp ht]
    decide
  · intro i hi
    rw [show 8 * (([] : List Octet).length + i + 1) - 56 = 0 by rw [List.length_nil]; omega, window_zero]
    rfl

/-- A piece: its bytes are used, or a frame was detected. -/
theorem Listening.decode {bs : List Octet} {s : PiafsFrm} (h : Listening bs s) {piece : List Octet}
    (hlen : piece.length ≤ 0xffff) :
    ((fr2PiafsFramingDecode 0x10000 s (fun i => piece.getD i 0) piece.length).2.2 = true ∧ Found (bs ++ piece) ∧
        (fr2PiafsFramingDecode 0x10000 s (fun i => piece.getD i 0) piece.length).1.dqRxBufIdx ≤ 76) ∨
      ((fr2PiafsFramingDecode 0x10000 s (fun i => piece.getD i 0) piece.length).2 = (piece.length, false) ∧
        Listening (bs ++ piece) (fr2PiafsFramingDecode 0x10000 s (fun i => piece.getD i 0) piece.length).1) := by
  have hloop := decodeLoop_listening (fun i => piece.getD i 0) piece.length piece 0x10000 bs s
      ⟨0, piece.length, 0⟩ h (by omega) rfl
    (fun i _ => by dsimp only; rw [Nat.zero_add])
  unfold fr2PiafsFramingDecode
  dsimp only
  generalize decodeLoop (fun i => piece.getD i 0) piece.length 0x10000 s ⟨0, piece.length, 0⟩ = r at hloop ⊢
  obtain ⟨s', c, detected⟩ := r
  dsimp only at hloop ⊢
  rcases hloop with ⟨rfl, hfound, hidx⟩ | ⟨rfl, hl, hn⟩
  · exact Or.inl ⟨rfl, hfound, hidx⟩
  · refine Or.inr ⟨?_, ?_⟩
    · rw [if_neg Bool.false_ne_true, hn, Nat.sub_zero]
    · rw [if_neg Bool.false_ne_true, hl.fields.2.1, if_neg (fun hc => nomatch hc.2.2)]
      exact hl

/-- However the stream is cut, a frame is detected as soon as one with its CRC is there. -/
theorem listen_spec (pieces : List (List Octet)) (h : ∀ c ∈ pieces, c.length ≤ 0xffff) :
    ((listen pieces).detected = true ↔ Found pieces.flatten) ∧ (listen pieces).s.dqRxBufIdx ≤ 80 := by
  suffices hs : ((listen pieces).detected = true ∧ Found pieces.flatten ∧ (listen pieces).s.dqRxBufIdx ≤ 76) ∨
      ((listen pieces).detected = false ∧ Listening pieces.flatten (listen pieces).s) by
    rcases hs with ⟨hd, hf, hi⟩ | ⟨hd, hl⟩
    · exact ⟨⟨fun _ => hf, fun _ => hd⟩, by omega⟩
    · refine ⟨⟨fun hd' => ?_, fun hf => absurd hf hl.not_found⟩, ?_⟩
      · rw [hd] at hd'
        cases hd'
      · have := hl.fields.2.2
        omega
  induction pieces using List.reverseRecOn with
  | nil => exact Or.inr ⟨rfl, Or.inl hunting_init⟩
  | append_singleton pieces c ih =>
    have hc := h c (by simp)
    have hrun : listen (pieces ++ [c]) = (listen pieces).feed c := by
      unfold listen
      rw [run_append]
      rfl
    rw [hrun, List.flatten_append, List.flatten_singleton]
    unfold Detector.feed
    rcases ih (fun c hc => h c (List.mem_append_left _ hc)) with ⟨hd, hf, hi⟩ | ⟨hd, hl⟩
    · rw [hd, if_pos rfl]
      exact Or.inl ⟨hd, hf.append c, hi⟩
    · rw [hd, if_neg Bool.false_ne_true]
      dsimp only
      rcases hl.decode hc with ⟨hd', hf, hi⟩ | ⟨hd', hl'⟩
      · exact Or.inl ⟨hd', hf, hi⟩
      · exact Or.inr ⟨congrArg Prod.snd hd', hl'⟩

/-! ## The frame around the first pattern of the stream -/

/-- The first pattern in the stream is bytes 3 to 6 of the frame that begins with bit `p`. -/
structure FrameAt (bs : List Octet) (p : Nat) : Prop where
  complete : p + 640 ≤ 8 * bs.length
  sync : SyncAt bs (p + 56)
  first : ∀ t < p + 56, 32 ≤ t → ¬ SyncAt bs t

/-- The frame that begins with bit `p` has its CRC. -/
def FrameCrc (bs : List Octet) (p : Nat) : Prop := CrcOk bs (p + 56) 0

instance (bs : List Octet) (p : Nat) : Decidable (FrameCrc bs p) := inferInstanceAs (Decidable (CrcOk _ _ _))

/-- Pieces of a begin of the stream. `NbBytes` is a word. -/
def PiecesOf (bs : List Octet) (pieces : List (List Octet)) : Prop := pieces.flatten <+: bs ∧ ∀ c ∈ pieces, c.length ≤ 0xffff

/-- The frame is detected with the last byte that has bits of it, if it has its CRC. -/
structure Detects (bs : List Octet) (p : Nat) : Prop where
  notBefore : ∀ pieces, PiecesOf bs pieces → 8 * pieces.flatten.length < p + 640 → (listen pieces).detected = false
  atEnd : ∀ pieces, PiecesOf bs pieces → p + 640 ≤ 8 * pieces.flatten.length → 8 * pieces.flatten.length < p + 648 →
    ((listen pieces).detected = true ↔ FrameCrc bs p)
  bufIdx : ∀ pieces, PiecesOf bs pieces → (listen pieces).s.dqRxBufIdx ≤ 80

/-- The frames counted from a pattern that ends at bit 31: none before the last byte of the frame
    at `p` has its CRC, and one that ends with that byte has it just if the frame at `p` has. -/
structure PassedBy (bs : List Octet) (p : Nat) : Prop where
  before : ∀ k, 77 + 80 * k < (p + 647) / 8 → ¬ CrcOk bs 31 k
  atEnd : FrameCrc bs p ↔ ∃ k, 77 + 80 * k = (p + 647) / 8 ∧ CrcOk bs 31 k

section Detection

variable {bs : List Octet} {p : Nat}

theorem piecesOf_take (bs : List Octet) (n : Nat) :
    PiecesOf bs ((bs.take n).map fun b => [b]) ∧ ((bs.take n).map fun b => [b]).flatten = bs.take n := by
  have hflat : ((bs.take n).map fun b => [b]).flatten = bs.take n := by
    generalize bs.take n = as
    induction as with
    | nil => rfl
    | cons b as ih =>
      rw [List.map_cons, List.flatten_cons, ih]
      rfl
  refine ⟨⟨?_, ?_⟩, hflat⟩
  · rw [hflat]
    exact List.take_prefix n bs
  · intro c hc
    obtain ⟨b, -, rfl⟩ := List.mem_map.mp hc
    exact (by decide : 1 ≤ 0xffff)

/-- What is detected in a begin of the stream depends on its first pattern only. -/
theorem found_iff {as : List Octet} {t : Nat} (h : FirstSync bs t) (has : as <+: bs) :
    Found as ↔ ∃ k, frameEnd t k ≤ 8 * as.length ∧ CrcOk bs t k := by
  obtain ⟨cs, rfl⟩ := has
  constructor
  · rintro ⟨t', k, hfirst, hend, hcrc⟩
    rw [h.unique (hfirst.append cs)]
    exact ⟨k, hend, (crcOk_append cs hend).mpr hcrc⟩
  · rintro ⟨k, hend, hcrc⟩
    have hle : t ≤ 8 * as.length := by
      unfold frameEnd at hend
      omega
    refine ⟨t, k, ⟨hle, (syncAt_append cs hle).mp h.sync, ?_⟩, hend, (crcOk_append cs hend).mp hcrc⟩
    intro u hu hs
    exact h.first u hu ((syncAt_append cs (by omega)).mpr hs)

theorem detected_iff {t : Nat} (h : FirstSync bs t) {pieces : List (List Octet)} (hp : PiecesOf bs pieces) :
    (listen pieces).detected = true ↔ ∃ k, frameEnd t k ≤ 8 * pieces.flatten.length ∧ CrcOk bs t k :=
  (listen_spec pieces hp.2).1.trans (found_iff h hp.1)

/-- The first pattern of the stream is found. -/
theorem FrameAt.detects (h : FrameAt bs p) (h31 : ¬ SyncAt bs 31) : Detects bs p := by
  have hcomplete := h.complete
  have hfirst : FirstSync bs (p + 56) := by
    refine ⟨by omega, h.sync, ?_⟩
    intro u hu hs
    have hge := hs.ge (by omega)
    by_cases hu31 : u = 31
    · rw [hu31] at hs
      exact h31 hs
    · exact h.first u hu (by omega) hs
  refine ⟨?_, ?_, fun pieces hp => (listen_spec pieces hp.2).2⟩
  · intro pieces hp hlt
    rw [← Bool.not_eq_true, detected_iff hfirst hp]
    rintro ⟨k, hend, -⟩
    unfold frameEnd at hend
    omega
  · intro pieces hp hle hlt
    rw [detected_iff hfirst hp]
    constructor
    · rintro ⟨k, hend, hcrc⟩
      have hk : k = 0 := by
        unfold frameEnd at hend
        omega
      rw [hk] at hcrc
      exact hcrc
    · intro hcrc
      refine ⟨0, ?_, hcrc⟩
      unfold frameEnd
      omega

/-- The stream begins inside a pattern, and frames are counted from there. -/
theorem FrameAt.detects_iff (h : FrameAt bs p) (h31 : SyncAt bs 31) : Detects bs p ↔ PassedBy bs p := by
  have hcomplete := h.complete
  have hfirst : FirstSync bs 31 := by
    refine ⟨by omega, h31, ?_⟩
    intro u hu hs
    have hge := hs.ge (by omega)
    omega
  have hdetected : ∀ pieces, PiecesOf bs pieces →
      ((listen pieces).detected = true ↔ ∃ k, 77 + 80 * k ≤ pieces.flatten.length ∧ CrcOk bs 31 k) := by
    intro pieces hp
    rw [detected_iff hfirst hp]
    refine exists_congr fun k => and_congr_left fun _ => ?_
    unfold frameEnd
    omega
  constructor
  · intro hd
    have hbefore : ∀ k, 77 + 80 * k < (p + 647) / 8 → ¬ CrcOk bs 31 k := by
      intro k hk hcrc
      obtain ⟨hp, hflat⟩ := piecesOf_take bs (77 + 80 * k)
      have hlen : (bs.take (77 + 80 * k)).length = 77 + 80 * k := by
        rw [List.length_take]
        omega
      have hno := hd.notBefore _ hp (by rw [hflat, hlen]; omega)
      have hyes := (hdetected _ hp).mpr ⟨k, by rw [hflat, hlen], hcrc⟩
      rw [hno] at hyes
      cases hyes
    refine ⟨hbefore, ?_⟩
    obtain ⟨hp, hflat⟩ := piecesOf_take bs ((p + 647) / 8)
    have hlen : (bs.take ((p + 647) / 8)).length = (p + 647) / 8 := by
      rw [List.length_take]
      omega
    rw [← hd.atEnd _ hp (by rw [hflat, hlen]; omega) (by rw [hflat, hlen]; omega), hdetected _ hp, hflat, hlen]
    refine exists_congr fun k => and_congr_left fun hcrc => ?_
    have := hbefore k
    constructor
    · intro hle
      by_contra hne
      exact this (by omega) hcrc
    · exact Nat.le_of_eq
  · intro hpass
    refine ⟨?_, ?_, fun pieces hp => (listen_spec pieces hp.2).2⟩
    · intro pieces hp hlt
      rw [← Bool.not_eq_true, hdetected pieces hp]
      rintro ⟨k, hk, hcrc⟩
      exact hpass.before k (by omega) hcrc
    · intro pieces hp hle hlt
      have hn : pieces.flatten.length = (p + 647) / 8 := by omega
      rw [hdetected pieces hp, hpass.atEnd, hn]
      refine exists_congr fun k => and_congr_left fun hcrc => ?_
      constructor
      · intro hk
        by_contra hne
        exact hpass.before k (by omega) hcrc
      · exact Nat.le_of_eq

end Detection

/-- The frame around the first pattern of the stream is detected exactly, unless the stream begins
    with the last 31 bits of a pattern. -/
theorem piafs_detection (bs : List Octet) (p : Nat) (h : FrameAt bs p) : Detects bs p ↔ ¬ SyncAt bs 31 ∨ PassedBy bs p := by
  by_cases h31 : SyncAt bs 31
  · rw [h.detects_iff h31]
    exact ⟨Or.inr, fun hor => hor.resolve_left fun hno => hno h31⟩
  · exact ⟨fun _ => Or.inl h31, fun _ => h.detects h31⟩

/-- A frame of zeros. -/
def zeroFrame : List Octet := [0x00, 0x00, 0x00, 0x50, 0xef, 0x29, 0x93] ++ List.replicate 69 0x00 ++ [0x08, 0x5c, 0x56, 0xab]

theorem zeroFrame_at : FrameAt zeroFrame 0 := ⟨by decide +kernel, by decide +kernel, by decide +kernel⟩

/-- The frame is detected with its last byte, in one piece or two. -/
theorem piafs_detection_zeros :
    (listen [zeroFrame.take 79]).detected = false ∧ (listen [zeroFrame]).detected = true ∧
      (listen [zeroFrame.take 5, zeroFrame.drop 5]).detected = true := by
  have h := (piafs_detection zeroFrame 0 zeroFrame_at).mpr (Or.inl (by decide +kernel))
  have hcrc : FrameCrc zeroFrame 0 := by decide +kernel
  refine ⟨h.notBefore _ ⟨by decide +kernel, by decide +kernel⟩ (by decide +kernel), ?_, ?_⟩
  · exact (h.atEnd _ ⟨by decide +kernel, by decide +kernel⟩ (by decide +kernel) (by decide +kernel)).mpr hcrc
  · exact (h.atEnd _ ⟨by decide +kernel, by decide +kernel⟩ (by decide +kernel) (by decide +kernel)).mpr hcrc

/-- The last 31 bits of a pattern, a bit, and the frame. -/
def insideFrame : List Octet := [0xa1, 0xde, 0x53, 0x26] ++ zeroFrame

theorem insideFrame_at : FrameAt insideFrame 32 := ⟨by decide +kernel, by decide +kernel, by decide +kernel⟩

/-- Behind the last 31 bits of a pattern the frame is not detected. -/
theorem piafs_passes : ¬ ∀ (bs : List Octet) (p : Nat), FrameAt bs p → Detects bs p := by
  intro h
  have hiff := (h insideFrame 32 insideFrame_at).atEnd [insideFrame] ⟨by decide +kernel, by decide +kernel⟩ (by decide +kernel)
    (by decide +kernel)
  have hcrc : FrameCrc insideFrame 32 := by decide +kernel
  have hno : (listen [insideFrame]).detected = false := by decide +kernel
  have hyes := hiff.mpr hcrc
  rw [hno] at hyes
  cases hyes

end Divas.Tty.Piafs
