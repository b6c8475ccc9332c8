/-
  Divas.Tty.PiafsTurn — the turns of the loop of `Fr2PiafsFramingDecode`, for 32K.

  `turn` is one turn of the loop, and `decodeLoop_ends` says that the loop of the model is the
  one of these turns. Two bytes of the data make one for the states; where a byte was left from
  the last call, it is the first of the two.

  Proved: the loop ends on every piece of data, in every state that a run can come to
  (`decode_ends`): a hit of the pre-synchronisation goes back by ten bytes at most, and a whole
  frame is read before the next one. A call reads inside its data, unless it begins in the
  state `preHunt` with a byte left (`decode_inside`): the pre-synchronisation has its own index
  and takes two bytes of the data in every turn.
-/

import Divas.Lib.Turns
import Divas.Tty.Piafs

namespace Divas.Tty.Piafs

open Divas.Lib.Turns

namespace PiafsFrm

/-! ## A turn -/

/-- One turn of the loop. -/
def turn (data : Nat → Octet) (saved : Nat) (t : PiafsFrm × Cursor) : (PiafsFrm × Cursor) ⊕ (PiafsFrm × Cursor × Bool) :=
  if t.2.nbBytes = 0 then .inr (t.1, t.2, false)
  else
    match t.1.nextByte data t.2 with
    | (s, c, none) => .inr (s, c, false)
    | (s, c, some x) =>
      match s.rxState with
      | .preHunt => .inl (s.preHuntTurn data saved c)
      | .hunt => .inl (s.huntTurn x, c)
      | .data => .inl (s.dataTurn x, c)
      | .crc => if (s.crcTurn x).2 then .inr ((s.crcTurn x).1, c, true) else .inl ((s.crcTurn x).1, c)

theorem decodeLoop_succ (data : Nat → Octet) (saved fuel : Nat) (s : PiafsFrm) (c : Cursor) :
    decodeLoop data saved (fuel + 1) s c =
      match turn data saved (s, c) with
      | .inl t => decodeLoop data saved fuel t.1 t.2
      | .inr r => r := by
  unfold turn
  rw [decodeLoop]
  dsimp only
  split
  · rfl
  · rcases s.nextByte data c with ⟨s, c, _ | x⟩
    · rfl
    · dsimp only
      cases s.rxState with
      | preHunt => rfl
      | hunt => rfl
      | data => rfl
      | crc =>
        dsimp only
        split
        · rfl
        · rfl

/-- The number of bytes of the data that the next turn takes. -/
def taken (s : PiafsFrm) : Nat := if s.isThereABytePending then 1 else 2

/-- The first of the two bytes, the byte that was left if there is one. -/
def leading (s : PiafsFrm) (data : Nat → Octet) (i : Nat) : Octet := if s.isThereABytePending then s.bytePending else data i

/-- The state behind `PiafsPreShiftBitRx`, and its byte. -/
def shifted (s : PiafsFrm) (data : Nat → Octet) (i : Nat) : Octet × PiafsFrm :=
  ({ s with isThereABytePending := false } : PiafsFrm).preShiftBitRx (s.leading data i) (data (i + s.taken - 1))

def Cursor.advance (c : Cursor) (k : Nat) : Cursor := { c with readIndex := c.readIndex + k, nbBytes := c.nbBytes - k }

theorem nextByte_some {s : PiafsFrm} {c : Cursor} (data : Nat → Octet) (hr : s.rateAdaptationEnable = true) (hn : 1 < c.nbBytes) :
    s.nextByte data c = ((s.shifted data c.readIndex).2, c.advance s.taken, some (s.shifted data c.readIndex).1) := by
  unfold nextByte shifted leading taken Cursor.advance
  rw [if_pos hr, if_pos hn]
  cases hp : s.isThereABytePending with
  | true => rfl
  | false =>
    have hs : ({ s with isThereABytePending := false } : PiafsFrm) = s := by
      cases s
      cases hp
      rfl
    rw [hs]
    rfl

theorem nextByte_none {s : PiafsFrm} {c : Cursor} (data : Nat → Octet) (hr : s.rateAdaptationEnable = true) (hn : c.nbBytes = 1) :
    s.nextByte data c = ({ s with bytePending := data c.readIndex, isThereABytePending := true }, c.advance 1, none) := by
  unfold nextByte Cursor.advance
  rw [if_pos hr, if_neg (by omega)]

/-- A turn with a byte for the states. -/
theorem turn_some {data : Nat → Octet} {saved : Nat} {s : PiafsFrm} {c : Cursor} (hr : s.rateAdaptationEnable = true)
    (hn : 1 < c.nbBytes) :
    turn data saved (s, c) =
      match (s.shifted data c.readIndex).2.rxState with
      | .preHunt => .inl ((s.shifted data c.readIndex).2.preHuntTurn data saved (c.advance s.taken))
      | .hunt => .inl ((s.shifted data c.readIndex).2.huntTurn (s.shifted data c.readIndex).1, c.advance s.taken)
      | .data => .inl ((s.shifted data c.readIndex).2.dataTurn (s.shifted data c.readIndex).1, c.advance s.taken)
      | .crc =>
        if ((s.shifted data c.readIndex).2.crcTurn (s.shifted data c.readIndex).1).2 then
          .inr (((s.shifted data c.readIndex).2.crcTurn (s.shifted data c.readIndex).1).1, c.advance s.taken, true)
        else .inl (((s.shifted data c.readIndex).2.crcTurn (s.shifted data c.readIndex).1).1, c.advance s.taken) := by
  unfold turn
  dsimp only
  rw [if_neg (by omega), nextByte_some data hr hn]

/-- What a turn does that is not the last one. -/
theorem turn_cases {data : Nat → Octet} {saved : Nat} {s s' : PiafsFrm} {c c' : Cursor} (hr : s.rateAdaptationEnable = true)
    (h : turn data saved (s, c) = .inl (s', c')) :
    1 < c.nbBytes ∧
      (((s.shifted data c.readIndex).2.rxState = .preHunt ∧
          (s', c') = (s.shifted data c.readIndex).2.preHuntTurn data saved (c.advance s.taken)) ∨
        (c' = c.advance s.taken ∧
          (((s.shifted data c.readIndex).2.rxState = .hunt ∧
              s' = (s.shifted data c.readIndex).2.huntTurn (s.shifted data c.readIndex).1) ∨
            ((s.shifted data c.readIndex).2.rxState = .data ∧
              s' = (s.shifted data c.readIndex).2.dataTurn (s.shifted data c.readIndex).1) ∨
            ((s.shifted data c.readIndex).2.rxState = .crc ∧
              ((s.shifted data c.readIndex).2.crcTurn (s.shifted data c.readIndex).1).2 = false ∧
              s' = ((s.shifted data c.readIndex).2.crcTurn (s.shifted data c.readIndex).1).1)))) := by
  unfold turn at h
  dsimp only at h
  split at h
  case isTrue => cases h
  case isFalse h0 =>
    by_cases hn : 1 < c.nbBytes
    · refine ⟨hn, ?_⟩
      rw [nextByte_some data hr hn] at h
      dsimp only at h
      cases hx : (s.shifted data c.readIndex).2.rxState with
      | preHunt =>
        rw [hx] at h
        exact Or.inl ⟨rfl, (Sum.inl.inj h).symm⟩
      | hunt =>
        rw [hx] at h
        cases h
        exact Or.inr ⟨rfl, Or.inl ⟨rfl, rfl⟩⟩
      | data =>
        rw [hx] at h
        cases h
        exact Or.inr ⟨rfl, Or.inr (Or.inl ⟨rfl, rfl⟩)⟩
      | crc =>
        rw [hx] at h
        dsimp only at h
        split at h
        case isTrue => cases h
        case isFalse hd =>
          cases h
          exact Or.inr ⟨rfl, Or.inr (Or.inr ⟨rfl, Bool.eq_false_iff.mpr hd, rfl⟩)⟩
    · rw [nextByte_none data hr (by omega)] at h
      cases h

/-- What the last turn does. -/
theorem turn_last {data : Nat → Octet} {saved : Nat} {s s' : PiafsFrm} {c c' : Cursor} {detected : Bool}
    (hr : s.rateAdaptationEnable = true) (h : turn data saved (s, c) = .inr (s', c', detected)) :
    (c.nbBytes = 0 ∧ s' = s ∧ c' = c ∧ detected = false) ∨
      (c.nbBytes = 1 ∧ s' = { s with bytePending := data c.readIndex, isThereABytePending := true } ∧ c' = c.advance 1 ∧
        detected = false) ∨
      (1 < c.nbBytes ∧ (s.shifted data c.readIndex).2.rxState = .crc ∧ detected = true ∧ c' = c.advance s.taken ∧
        ((s.shifted data c.readIndex).2.crcTurn (s.shifted data c.readIndex).1).2 = true) := by
  unfold turn at h
  dsimp only at h
  split at h
  case isTrue h0 =>
    cases h
    exact Or.inl ⟨h0, rfl, rfl, rfl⟩
  case isFalse h0 =>
    by_cases hn : 1 < c.nbBytes
    · rw [nextByte_some data hr hn] at h
      dsimp only at h
      cases hx : (s.shifted data c.readIndex).2.rxState with
      | preHunt =>
        rw [hx] at h
        cases h
      | hunt =>
        rw [hx] at h
        cases h
      | data =>
        rw [hx] at h
        cases h
      | crc =>
        rw [hx] at h
        dsimp only at h
        split at h
        case isTrue hd =>
          cases h
          exact Or.inr (Or.inr ⟨hn, rfl, rfl, rfl, hd⟩)
        case isFalse => cases h
    · rw [nextByte_none data hr (by omega)] at h
      cases h
      exact Or.inr (Or.inl ⟨by omega, rfl, rfl, rfl⟩)

/-! ## What the turns leave as it is -/

/-- The fields that are not of a frame. -/
def front (s : PiafsFrm) : Bool × Bool × Octet × Nat × BitVec 16 × RxState :=
  (s.rateAdaptationEnable, s.isThereABytePending, s.bytePending, s.preShiftCount, s.preShiftRegister, s.previousRxState)

/-- The begin of `synchronize`, with the oldest byte of the ring. -/
def beginFrame (s : PiafsFrm) (k : Nat) : PiafsFrm :=
  { s with
    rxState := .data
    justSynchronized := true
    bitsToLeftShift := k
    currentRxShiftRegister := s.huntPhaseSyncLag s.huntPhaseSyncLagIndex <<< k }

/-- The state behind `PiafsShiftBitRx` for the next byte of the ring, and its byte. -/
def lagShift (s : PiafsFrm) : Octet × PiafsFrm :=
  ({ s with huntPhaseSyncLagIndex := (s.huntPhaseSyncLagIndex + 1) % 7 } : PiafsFrm).shiftBitRx
    (s.huntPhaseSyncLag ((s.huntPhaseSyncLagIndex + 1) % 7))

def lagTurns (s : PiafsFrm) (n : Nat) : PiafsFrm := (List.range n).foldl (fun s _ => s.lagTurn) s

theorem synchronize_eq (s : PiafsFrm) (k : Nat) (x : Octet) :
    s.synchronize k x =
      (((s.beginFrame k).lagTurns 6).shiftBitRx x).2.processIncomingData (((s.beginFrame k).lagTurns 6).shiftBitRx x).1 := rfl

section Front

variable (s : PiafsFrm) (x : Octet)

@[simp] theorem front_shiftBitRx : (s.shiftBitRx x).2.front = s.front := rfl

@[simp] theorem front_processIncomingData : (s.processIncomingData x).front = s.front := by
  unfold processIncomingData
  dsimp only
  split
  · rfl
  · rfl

@[simp] theorem front_lagTurn : s.lagTurn.front = s.front := front_processIncomingData s.lagShift.2 s.lagShift.1

theorem front_lagTurns (n : Nat) : (s.lagTurns n).front = s.front := by
  unfold lagTurns
  induction n with
  | zero => rfl
  | succ n ih =>
    rw [List.range_succ, List.foldl_append]
    exact (front_lagTurn _).trans ih

@[simp] theorem front_synchronize (k : Nat) : (s.synchronize k x).front = s.front := by
  rw [synchronize_eq, front_processIncomingData, front_shiftBitRx, front_lagTurns]
  rfl

@[simp] theorem front_huntTurn : (s.huntTurn x).front = s.front := by
  unfold huntTurn
  dsimp only
  split
  · exact front_synchronize s x _
  · rfl

@[simp] theorem front_dataTurn : (s.dataTurn x).front = s.front := by
  unfold dataTurn
  dsimp only
  split
  · rfl
  · rfl

@[simp] theorem front_crcTurn : (s.crcTurn x).1.front = s.front := by
  unfold crcTurn
  dsimp only
  split
  · rfl
  · split
    · rfl
    · rfl

theorem preShiftBitRx_state (y : Octet) : ∃ r, (s.preShiftBitRx x y).2 = { s with preShiftRegister := r } := by
  unfold preShiftBitRx
  dsimp only
  split
  · exact ⟨_, rfl⟩
  · exact ⟨s.preShiftRegister, rfl⟩

theorem shifted_state (data : Nat → Octet) (i : Nat) :
    ∃ r, (s.shifted data i).2 = { s with isThereABytePending := false, preShiftRegister := r } :=
  preShiftBitRx_state _ _ _

theorem acquirePreSyncLoop_state (n : Nat) (z : BitVec 16) (i : Nat) :
    ((s.acquirePreSyncLoop z n i).2 = true ∧
        ∃ k r, (s.acquirePreSyncLoop z n i).1 = { s with preShiftCount := k, preShiftRegister := r }) ∨
      ((s.acquirePreSyncLoop z n i).2 = false ∧ ∃ r, (s.acquirePreSyncLoop z n i).1 = { s with preShiftRegister := r }) := by
  induction n generalizing s z i with
  | zero => exact Or.inr ⟨rfl, s.preShiftRegister, rfl⟩
  | succ n ih =>
    rw [acquirePreSyncLoop]
    generalize (s.preShiftRegister <<< 1 ||| if z.getLsbD 15 then 1 else 0) = register
    split
    · exact Or.inl ⟨rfl, i % 8, 0, rfl⟩
    · exact ih { s with preShiftRegister := register } (z <<< 1) (i + 1)

end Front

/-- The state behind a hit of the pre-synchronisation. -/
def preSynced (s : PiafsFrm) (k : Nat) (r : BitVec 16) : PiafsFrm :=
  { s with preShiftCount := k, preShiftRegister := r, previousRxState := .preHunt, rxState := .hunt, dqRxBufIdx := 0 }

/-- It goes back by ten bytes, or to the begin of the data. -/
def Cursor.back (c : Cursor) (saved : Nat) : Cursor :=
  if c.readIndex ≤ 10 then { c with readIndex := 0, nbBytes := saved }
  else { c with readIndex := c.readIndex - 10, nbBytes := c.nbBytes + 10 }

theorem preHuntTurn_eq (s : PiafsFrm) (data : Nat → Octet) (saved : Nat) (c : Cursor) :
    s.preHuntTurn data saved c =
      if (s.acquirePreSync (data c.preSyncIndex) (data (c.preSyncIndex + 1))).2 then
        ({ (s.acquirePreSync (data c.preSyncIndex) (data (c.preSyncIndex + 1))).1 with
            previousRxState := .preHunt, rxState := .hunt, dqRxBufIdx := 0 }, c.back saved)
      else ((s.acquirePreSync (data c.preSyncIndex) (data (c.preSyncIndex + 1))).1,
        { c with preSyncIndex := c.preSyncIndex + 2 }) := rfl

theorem preHuntTurn_cases (s : PiafsFrm) (data : Nat → Octet) (saved : Nat) (c : Cursor) :
    ((s.acquirePreSync (data c.preSyncIndex) (data (c.preSyncIndex + 1))).2 = true ∧
        ∃ k r, s.preHuntTurn data saved c = (s.preSynced k r, c.back saved)) ∨
      ((s.acquirePreSync (data c.preSyncIndex) (data (c.preSyncIndex + 1))).2 = false ∧
        ∃ r, s.preHuntTurn data saved c = ({ s with preShiftRegister := r }, { c with preSyncIndex := c.preSyncIndex + 2 })) := by
  unfold preHuntTurn
  rcases acquirePreSyncLoop_state s 16 (pair (data c.preSyncIndex) (data (c.preSyncIndex + 1))) 1
    with ⟨hf, k, r, hs⟩ | ⟨hf, r, hs⟩
  · refine Or.inl ⟨hf, k, r, ?_⟩
    unfold acquirePreSync
    dsimp only
    rw [hf, hs, if_pos rfl]
    rfl
  · refine Or.inr ⟨hf, r, ?_⟩
    unfold acquirePreSync
    dsimp only
    rw [hf, hs, if_neg Bool.false_ne_true]

/-! ## The place in the frame -/

theorem processIncomingData_place (s : PiafsFrm) (x : Octet) (h : s.idxInRxFrame < 75) :
    (s.processIncomingData x).rxState = s.rxState ∧ (s.processIncomingData x).idxInRxFrame = s.idxInRxFrame + 1 := by
  have hne : ¬ (s.storeByte x).idxInRxFrame = frameLength - crcLength := by
    show ¬ s.idxInRxFrame + 1 = 76
    omega
  unfold processIncomingData
  dsimp only
  rw [if_neg hne]
  exact ⟨rfl, rfl⟩

theorem lagTurn_place (s : PiafsFrm) (h : s.idxInRxFrame < 75) :
    s.lagTurn.rxState = s.rxState ∧ s.lagTurn.idxInRxFrame = s.idxInRxFrame + 1 :=
  processIncomingData_place s.lagShift.2 s.lagShift.1 h

theorem lagTurns_place (s : PiafsFrm) (n : Nat) (h : s.idxInRxFrame + n < 76) :
    (s.lagTurns n).rxState = s.rxState ∧ (s.lagTurns n).idxInRxFrame = s.idxInRxFrame + n := by
  induction n with
  | zero => exact ⟨rfl, rfl⟩
  | succ n ih =>
    obtain ⟨hstate, hidx⟩ := ih (by omega)
    have hsucc : s.lagTurns (n + 1) = (s.lagTurns n).lagTurn := by
      unfold lagTurns
      rw [List.range_succ, List.foldl_append]
      rfl
    obtain ⟨h1, h2⟩ := lagTurn_place (s.lagTurns n) (by omega)
    rw [hsucc, h1, h2]
    exact ⟨hstate, by omega⟩

/-- The first seven bytes of the frame are there at once. -/
theorem synchronize_place (s : PiafsFrm) (k : Nat) (x : Octet) (h0 : s.idxInRxFrame = 0) :
    (s.synchronize k x).rxState = .data ∧ (s.synchronize k x).idxInRxFrame = 7 := by
  obtain ⟨h1, h2⟩ := lagTurns_place (s.beginFrame k) 6 (by show s.idxInRxFrame + 6 < 76; omega)
  have hidx : ((s.beginFrame k).lagTurns 6).idxInRxFrame = 6 := by
    rw [h2]
    show s.idxInRxFrame + 6 = 6
    omega
  rw [synchronize_eq]
  generalize (s.beginFrame k).lagTurns 6 = t at h1 hidx
  obtain ⟨h3, h4⟩ := processIncomingData_place (t.shiftBitRx x).2 (t.shiftBitRx x).1 (by show t.idxInRxFrame < 75; omega)
  refine ⟨h3.trans h1, h4.trans ?_⟩
  show t.idxInRxFrame + 1 = 7
  omega

theorem huntTurn_place (s : PiafsFrm) (x : Octet) (hs : s.rxState = .hunt) (h0 : s.idxInRxFrame = 0) :
    ((s.huntTurn x).rxState = .hunt ∧ (s.huntTurn x).idxInRxFrame = 0) ∨
      ((s.huntTurn x).rxState = .data ∧ (s.huntTurn x).idxInRxFrame = 7) := by
  unfold huntTurn
  dsimp only
  split
  · exact Or.inr (synchronize_place s _ x h0)
  · exact Or.inl ⟨hs, h0⟩

theorem dataTurn_place (s : PiafsFrm) (x : Octet) (hs : s.rxState = .data) (h : s.idxInRxFrame < 76) :
    ((s.dataTurn x).rxState = .data ∧ (s.dataTurn x).idxInRxFrame = s.idxInRxFrame + 1 ∧ s.idxInRxFrame < 75) ∨
      ((s.dataTurn x).rxState = .crc ∧ (s.dataTurn x).idxInRxFrame = 76 ∧ (s.dataTurn x).numberOfReceivedCrcBytes = 0 ∧
        s.idxInRxFrame = 75) := by
  unfold dataTurn
  dsimp only
  split
  case isTrue hend =>
    have hend : s.idxInRxFrame + 1 = 76 := hend
    refine Or.inr ⟨?_, hend, rfl, by omega⟩
    show (if s.rxState = .data then RxState.crc else s.rxState) = .crc
    rw [if_pos hs]
  case isFalse hend =>
    have hend : ¬ s.idxInRxFrame + 1 = 76 := hend
    exact Or.inl ⟨hs, rfl, by omega⟩

theorem crcTurn_place (s : PiafsFrm) (x : Octet) (hs : s.rxState = .crc) (hp : s.previousRxState = .preHunt)
    (h : s.numberOfReceivedCrcBytes < 4) (hd : (s.crcTurn x).2 = false) :
    ((s.crcTurn x).1.rxState = .crc ∧ (s.crcTurn x).1.idxInRxFrame = s.idxInRxFrame ∧
        (s.crcTurn x).1.numberOfReceivedCrcBytes = s.numberOfReceivedCrcBytes + 1 ∧ s.numberOfReceivedCrcBytes < 3) ∨
      ((s.crcTurn x).1.rxState = .preHunt ∧ (s.crcTurn x).1.idxInRxFrame = 0 ∧ s.numberOfReceivedCrcBytes = 3) := by
  unfold crcTurn at hd ⊢
  dsimp only at hd ⊢
  split
  case isTrue hmore =>
    have hmore : s.numberOfReceivedCrcBytes + 1 ≠ 4 := hmore
    exact Or.inl ⟨hs, rfl, rfl, by omega⟩
  case isFalse hmore =>
    rw [if_neg hmore] at hd
    have hlast : s.numberOfReceivedCrcBytes + 1 = 4 := not_ne_iff.mp hmore
    split
    case isTrue hok =>
      rw [if_pos hok] at hd
      cases hd
    case isFalse =>
      refine Or.inr ⟨?_, rfl, by omega⟩
      show (if s.previousRxState = .preHunt then RxState.preHunt else .data) = .preHunt
      rw [if_pos hp]

/-! ## The loop ends -/

/-- No pre-synchronisation yet. -/
structure Fresh (s : PiafsFrm) : Prop where
  state : s.rxState = .preHunt
  previous : s.previousRxState = .hunt
  count : s.preShiftCount = 0

/-- What holds of a detector for 32K. -/
structure Valid (s : PiafsFrm) : Prop where
  on : s.rateAdaptationEnable = true
  previous : s.previousRxState = .preHunt ∨ s.Fresh
  outside : s.rxState = .preHunt ∨ s.rxState = .hunt → s.idxInRxFrame = 0
  data : s.rxState = .data → s.idxInRxFrame < 76
  crc : s.rxState = .crc → s.idxInRxFrame = 76 ∧ s.numberOfReceivedCrcBytes < 4

/-- It grows by one in every turn, but for a hit of the pre-synchronisation. -/
def weight (s : PiafsFrm) : Nat :=
  match s.rxState with
  | .hunt => 0
  | .data => s.idxInRxFrame
  | .crc => 76 + s.numberOfReceivedCrcBytes
  | .preHunt => 80

theorem valid_init : Valid (initPiafsProcess true) := ⟨rfl, Or.inr ⟨rfl, rfl, rfl⟩, fun _ => rfl, nofun, nofun⟩

section Turns

variable {data : Nat → Octet} {saved : Nat} {s s' : PiafsFrm} {c c' : Cursor}

theorem Valid.shifted (h : Valid s) (data : Nat → Octet) (i : Nat) :
    Valid (s.shifted data i).2 ∧ (s.shifted data i).2.rxState = s.rxState ∧ (s.shifted data i).2.idxInRxFrame = s.idxInRxFrame ∧
      (s.shifted data i).2.weight = s.weight ∧ (s.shifted data i).2.isThereABytePending = false := by
  obtain ⟨r, hr⟩ := s.shifted_state data i
  rw [hr]
  exact ⟨⟨h.on, h.previous.imp_right fun hf => ⟨hf.state, hf.previous, hf.count⟩, h.outside, h.data, h.crc⟩, rfl, rfl, rfl, rfl⟩

theorem Valid.synced (h : Valid s) (hs : s.rxState ≠ .preHunt) : s.previousRxState = .preHunt :=
  h.previous.resolve_right fun hf => hs hf.state

theorem front_previous (h : s'.front = s.front) : s'.rateAdaptationEnable = s.rateAdaptationEnable ∧
    s'.isThereABytePending = s.isThereABytePending ∧ s'.previousRxState = s.previousRxState := by
  unfold front at h
  simp only [Prod.mk.injEq] at h
  exact ⟨h.1, h.2.1, h.2.2.2.2.2⟩

theorem Valid.huntTurn (h : Valid s) (hs : s.rxState = .hunt) (x : Octet) :
    Valid (s.huntTurn x) ∧ (s.huntTurn x).weight ≤ s.weight + 7 := by
  obtain ⟨hon, -, hprev⟩ := front_previous (front_huntTurn s x)
  have hp := h.synced (by rw [hs]; decide)
  rcases huntTurn_place s x hs (h.outside (Or.inr hs)) with ⟨h1, h2⟩ | ⟨h1, h2⟩
  · refine ⟨⟨hon.trans h.on, Or.inl (hprev.trans hp), fun _ => h2, ?_, ?_⟩, ?_⟩
    · rw [h1]
      nofun
    · rw [h1]
      nofun
    · unfold weight
      rw [h1]
      exact Nat.zero_le _
  · refine ⟨⟨hon.trans h.on, Or.inl (hprev.trans hp), ?_, ?_, ?_⟩, ?_⟩
    · rw [h1]
      simp
    · omega
    · rw [h1]
      nofun
    · unfold weight
      rw [h1]
      dsimp only
      omega

theorem Valid.dataTurn (h : Valid s) (hs : s.rxState = .data) (x : Octet) :
    Valid (s.dataTurn x) ∧ (s.dataTurn x).weight = s.weight + 1 := by
  obtain ⟨hon, -, hprev⟩ := front_previous (front_dataTurn s x)
  have hp := h.synced (by rw [hs]; decide)
  have hw : s.weight = s.idxInRxFrame := by
    unfold weight
    rw [hs]
  rcases dataTurn_place s x hs (h.data hs) with ⟨h1, h2, h3⟩ | ⟨h1, h2, h3, h4⟩
  · refine ⟨⟨hon.trans h.on, Or.inl (hprev.trans hp), ?_, ?_, ?_⟩, ?_⟩
    · rw [h1]
      simp
    · omega
    · rw [h1]
      nofun
    · rw [hw, ← h2]
      unfold weight
      rw [h1]
  · refine ⟨⟨hon.trans h.on, Or.inl (hprev.trans hp), ?_, ?_, ?_⟩, ?_⟩
    · rw [h1]
      simp
    · rw [h1]
      nofun
    · omega
    · rw [hw, h4]
      unfold weight
      rw [h1, h3]

theorem Valid.crcTurn (h : Valid s) (hs : s.rxState = .crc) {x : Octet} (hd : (s.crcTurn x).2 = false) :
    Valid (s.crcTurn x).1 ∧ (s.crcTurn x).1.weight = s.weight + 1 := by
  obtain ⟨hon, -, hprev⟩ := front_previous (front_crcTurn s x)
  have hp := h.synced (by rw [hs]; decide)
  obtain ⟨hidx, hnum⟩ := h.crc hs
  have hw : s.weight = 76 + s.numberOfReceivedCrcBytes := by
    unfold weight
    rw [hs]
  rcases crcTurn_place s x hs hp hnum hd with ⟨h1, h2, h3, h4⟩ | ⟨h1, h2, h3⟩
  · refine ⟨⟨hon.trans h.on, Or.inl (hprev.trans hp), ?_, ?_, ?_⟩, ?_⟩
    · rw [h1]
      simp
    · rw [h1]
      nofun
    · omega
    · rw [hw, Nat.add_assoc, ← h3]
      unfold weight
      rw [h1]
  · refine ⟨⟨hon.trans h.on, Or.inl (hprev.trans hp), fun _ => h2, ?_, ?_⟩, ?_⟩
    · rw [h1]
      nofun
    · rw [h1]
      nofun
    · rw [hw, h3]
      unfold weight
      rw [h1]

theorem Valid.preSynced (h : Valid s) (hs : s.rxState = .preHunt) (k : Nat) (r : BitVec 16) : Valid (s.preSynced k r) :=
  ⟨h.on, Or.inl rfl, fun _ => h.outside (Or.inl hs), nofun, nofun⟩

theorem Valid.preShiftRegister (h : Valid s) (r : BitVec 16) : Valid { s with preShiftRegister := r } :=
  ⟨h.on, h.previous.imp_right fun hf => ⟨hf.state, hf.previous, hf.count⟩, h.outside, h.data, h.crc⟩

theorem Cursor.back_sum (h : c.readIndex + c.nbBytes = saved) :
    (c.back saved).readIndex + (c.back saved).nbBytes = saved ∧ (c.back saved).nbBytes ≤ c.nbBytes + 10 ∧
      (c.back saved).readIndex = c.readIndex - 10 ∧ (c.back saved).preSyncIndex = c.preSyncIndex := by
  unfold Cursor.back
  split
  · exact ⟨Nat.zero_add _, by show saved ≤ _; omega, by show 0 = _; omega, rfl⟩
  · exact ⟨by show c.readIndex - 10 + (c.nbBytes + 10) = _; omega, Nat.le_refl _, rfl, rfl⟩

theorem Cursor.advance_sum {k : Nat} (h : c.readIndex + c.nbBytes = saved) (hk : k ≤ c.nbBytes) :
    (c.advance k).readIndex + (c.advance k).nbBytes = saved := by
  show c.readIndex + k + (c.nbBytes - k) = saved
  omega

theorem taken_bounds (s : PiafsFrm) : 1 ≤ s.taken ∧ s.taken ≤ 2 := by
  unfold taken
  split
  · exact ⟨Nat.le_refl _, by decide⟩
  · exact ⟨by decide, Nat.le_refl _⟩

/-- The bytes that are left and the place in the frame measure how long the loop goes on. -/
theorem turn_valid (h : Valid s) (hsum : c.readIndex + c.nbBytes = saved) (ht : turn data saved (s, c) = .inl (s', c')) :
    Valid s' ∧ c'.readIndex + c'.nbBytes = saved ∧ 8 * c'.nbBytes + s'.weight < 8 * c.nbBytes + s.weight := by
  obtain ⟨hn, hcases⟩ := turn_cases h.on ht
  obtain ⟨hv, hstate, -, hw, -⟩ := h.shifted data c.readIndex
  obtain ⟨hk1, hk2⟩ := s.taken_bounds
  have hsum' := Cursor.advance_sum hsum (show s.taken ≤ c.nbBytes by omega)
  have hnb : (c.advance s.taken).nbBytes = c.nbBytes - s.taken := rfl
  generalize (s.shifted data c.readIndex).2 = t at hcases hv hstate hw
  generalize (s.shifted data c.readIndex).1 = x at hcases
  rw [← hw]
  rcases hcases with ⟨hs, hturn⟩ | ⟨rfl, ⟨hs, rfl⟩ | ⟨hs, rfl⟩ | ⟨hs, hd, rfl⟩⟩
  · have hwt : t.weight = 80 := by
      unfold weight
      rw [hs]
    rcases preHuntTurn_cases t data saved (c.advance s.taken) with ⟨-, k, r, heq⟩ | ⟨-, r, heq⟩
    · rw [heq] at hturn
      cases hturn
      obtain ⟨h1, h2, -, -⟩ := Cursor.back_sum hsum'
      refine ⟨hv.preSynced hs k r, h1, ?_⟩
      have : (t.preSynced k r).weight = 0 := rfl
      omega
    · rw [heq] at hturn
      cases hturn
      refine ⟨hv.preShiftRegister r, hsum', ?_⟩
      have : ({ t with preShiftRegister := r } : PiafsFrm).weight = t.weight := rfl
      show 8 * (c.advance s.taken).nbBytes + _ < _
      omega
  · obtain ⟨hv', hle⟩ := hv.huntTurn hs x
    exact ⟨hv', hsum', by omega⟩
  · obtain ⟨hv', hle⟩ := hv.dataTurn hs x
    exact ⟨hv', hsum', by omega⟩
  · obtain ⟨hv', hle⟩ := hv.crcTurn hs hd
    exact ⟨hv', hsum', by omega⟩

theorem weight_le (h : Valid s) : s.weight ≤ 80 := by
  unfold weight
  cases hs : s.rxState with
  | hunt => exact Nat.zero_le _
  | preHunt => exact Nat.le_refl _
  | data =>
    have := h.data hs
    show s.idxInRxFrame ≤ 80
    omega
  | crc =>
    have := h.crc hs
    show 76 + s.numberOfReceivedCrcBytes ≤ 80
    omega

theorem decodeLoop_ends (data : Nat → Octet) (saved fuel : Nat) {s : PiafsFrm} {c : Cursor} (h : Valid s)
    (hsum : c.readIndex + c.nbBytes = saved) (hfuel : 8 * c.nbBytes + s.weight < fuel) :
    Ends (turn data saved) (s, c) (decodeLoop data saved fuel s c) := by
  induction fuel generalizing s c with
  | zero => omega
  | succ fuel ih =>
    rw [decodeLoop_succ]
    cases ht : turn data saved (s, c) with
    | inr r => exact .last ht
    | inl t =>
      obtain ⟨s', c'⟩ := t
      obtain ⟨hv, hsum', hlt⟩ := turn_valid h hsum ht
      exact .next ht (ih hv hsum' (by omega))

end Turns

/-! ## Where the loop reads -/

/-- The places of the data that a turn reads. -/
def turnReads (s : PiafsFrm) (c : Cursor) : List Nat :=
  if c.nbBytes = 0 then []
  else if s.rateAdaptationEnable ∧ 1 < c.nbBytes then
    (if s.isThereABytePending then [c.readIndex] else [c.readIndex, c.readIndex + 1]) ++
      if s.rxState = .preHunt then [c.preSyncIndex, c.preSyncIndex + 1] else []
  else [c.readIndex]

/-- Where the pre-synchronisation is. A hit leaves it where it was, so it can be ahead of `ReadIndex`,
    but not when the next frame has been read. -/
structure Placed (s : PiafsFrm) (c : Cursor) : Prop where
  left : s.rxState = .preHunt → s.isThereABytePending = false
  place : c.preSyncIndex ≤ c.readIndex ∨ s.rxState = .hunt ∧ c.preSyncIndex ≤ c.readIndex + 8 ∨
    s.rxState = .data ∧ c.preSyncIndex + s.idxInRxFrame ≤ c.readIndex + 15

section Reads

variable {data : Nat → Octet} {saved : Nat} {s s' : PiafsFrm} {c c' : Cursor}

theorem Placed.reads (h : Placed s c) (hsum : c.readIndex + c.nbBytes = saved) : ∀ i ∈ turnReads s c, i < saved := by
  intro i hi
  unfold turnReads at hi
  split at hi
  case isTrue => cases hi
  case isFalse h0 =>
    split at hi
    case isFalse =>
      have := List.mem_singleton.mp hi
      omega
    case isTrue hn =>
      obtain ⟨-, hn⟩ := hn
      rcases List.mem_append.mp hi with hi | hi
      · have hle : i ≤ c.readIndex + 1 := by
          split at hi
          · have := List.mem_singleton.mp hi
            omega
          · simp at hi
            omega
        omega
      · split at hi
        case isFalse => cases hi
        case isTrue hs =>
          have hplace : c.preSyncIndex ≤ c.readIndex := by
            rcases h.place with hp | ⟨hs', -⟩ | ⟨hs', -⟩
            · exact hp
            · rw [hs] at hs'
              cases hs'
            · rw [hs] at hs'
              cases hs'
          simp at hi
          omega

theorem turn_placed (h : Valid s) (hp : Placed s c) (ht : turn data saved (s, c) = .inl (s', c')) :
    Placed s' c' ∧ s'.isThereABytePending = false := by
  obtain ⟨hn, hcases⟩ := turn_cases h.on ht
  obtain ⟨hv, hstate, hidx, -, hleft⟩ := h.shifted data c.readIndex
  obtain ⟨hk1, hk2⟩ := s.taken_bounds
  have hplace := hp.place
  have hpre := hp.left
  have hk : s.rxState = .preHunt → s.taken = 2 := by
    intro hs
    unfold taken
    rw [hpre hs]
    rfl
  rw [← hstate] at hplace hk
  rw [← hidx] at hplace
  generalize (s.shifted data c.readIndex).2 = t at hcases hv hleft hplace hk
  generalize (s.shifted data c.readIndex).1 = x at hcases
  have hread : (c.advance s.taken).readIndex = c.readIndex + s.taken := rfl
  have hpidx : (c.advance s.taken).preSyncIndex = c.preSyncIndex := rfl
  rcases hcases with ⟨hs, hturn⟩ | ⟨rfl, ⟨hs, rfl⟩ | ⟨hs, rfl⟩ | ⟨hs, hd, rfl⟩⟩
  · have hle : c.preSyncIndex ≤ c.readIndex := by
      rcases hplace with hle | ⟨hs', -⟩ | ⟨hs', -⟩
      · exact hle
      · rw [hs] at hs'
        cases hs'
      · rw [hs] at hs'
        cases hs'
    rcases preHuntTurn_cases t data saved (c.advance s.taken) with ⟨-, k, r, heq⟩ | ⟨-, r, heq⟩
    · rw [heq] at hturn
      cases hturn
      have hback : ((c.advance s.taken).back saved).readIndex = (c.advance s.taken).readIndex - 10 ∧
          ((c.advance s.taken).back saved).preSyncIndex = (c.advance s.taken).preSyncIndex := by
        unfold Cursor.back
        split
        · exact ⟨by show 0 = _; omega, rfl⟩
        · exact ⟨rfl, rfl⟩
      refine ⟨⟨nofun, Or.inr (Or.inl ⟨rfl, ?_⟩)⟩, hleft⟩
      show ((c.advance s.taken).back saved).preSyncIndex ≤ _
      rw [hback.1, hback.2, hread, hpidx, hk hs]
      omega
    · rw [heq] at hturn
      cases hturn
      refine ⟨⟨fun _ => hleft, Or.inl ?_⟩, hleft⟩
      show c.preSyncIndex + 2 ≤ c.readIndex + s.taken
      rw [hk hs]
      omega
  · have hleft' := (front_previous (front_huntTurn t x)).2.1.trans hleft
    refine ⟨⟨fun _ => hleft', ?_⟩, hleft'⟩
    rw [hread, hpidx]
    have h0 := hv.outside (Or.inr hs)
    rcases huntTurn_place t x hs h0 with ⟨h1, h2⟩ | ⟨h1, h2⟩
    · simp only [h1, true_and, reduceCtorEq, false_and, or_false]
      rcases hplace with hle | ⟨-, hle⟩ | ⟨hs', -⟩
      · omega
      · omega
      · rw [hs] at hs'
        cases hs'
    · simp only [h1, h2, true_and, reduceCtorEq, false_and, false_or]
      rcases hplace with hle | ⟨-, hle⟩ | ⟨hs', -⟩
      · omega
      · omega
      · rw [hs] at hs'
        cases hs'
  · have hleft' := (front_previous (front_dataTurn t x)).2.1.trans hleft
    refine ⟨⟨fun _ => hleft', ?_⟩, hleft'⟩
    rw [hread, hpidx]
    have hplace : c.preSyncIndex ≤ c.readIndex ∨ c.preSyncIndex + t.idxInRxFrame ≤ c.readIndex + 15 := by
      rcases hplace with hle | ⟨hs', -⟩ | ⟨-, hle⟩
      · exact Or.inl hle
      · rw [hs] at hs'
        cases hs'
      · exact Or.inr hle
    rcases dataTurn_place t x hs (hv.data hs) with ⟨h1, h2, h3⟩ | ⟨h1, h2, h3, h4⟩
    · simp only [h1, h2, true_and, reduceCtorEq, false_and, false_or]
      omega
    · omega
  · have hleft' := (front_previous (front_crcTurn t x)).2.1.trans hleft
    refine ⟨⟨fun _ => hleft', Or.inl ?_⟩, hleft'⟩
    rw [hread, hpidx]
    rcases hplace with hle | ⟨hs', -⟩ | ⟨hs', -⟩
    · omega
    · rw [hs] at hs'
      cases hs'
    · rw [hs] at hs'
      cases hs'

/-- What holds in every turn of a call. -/
structure Inside (saved : Nat) (t : PiafsFrm × Cursor) : Prop where
  valid : Valid t.1
  sum : t.2.readIndex + t.2.nbBytes = saved
  placed : Placed t.1 t.2

theorem Inside.turn {t t' : PiafsFrm × Cursor} (h : Inside saved t) (ht : turn data saved t = .inl t') : Inside saved t' := by
  obtain ⟨hv, hsum, -⟩ := turn_valid h.valid h.sum ht
  exact ⟨hv, hsum, (turn_placed h.valid h.placed ht).1⟩

end Reads

end PiafsFrm

end Divas.Tty.Piafs
