/-
  Divas.Tty.PiafsFollow — a call for a piece beside the call for the stream, for 32K.

  A call keeps the state and the byte that was left, but neither the index of the
  pre-synchronisation nor a hit of it: where a piece ends in the state `hunt`, the next call
  begins with the pre-synchronisation, and a hit goes back inside its piece only. `Continues`
  says of a state and the next piece that no turn of the call goes another way than in the one
  call, and `Kept` is what the two calls have in common between two turns.

  Proved: the call for the stream makes the turns of a piece that continues (`Follows.turn`),
  whether the piece comes before any pre-synchronisation (`Ahead`) or inside a frame (`InFrame`).
-/

import Divas.Tty.PiafsTurn

namespace Divas.Tty.Piafs

open Divas.Lib.Turns PiafsFrm

/-! ## Pieces that continue -/

namespace PiafsFrm

/-- The byte that was left. -/
def waiting (s : PiafsFrm) : List Octet := if s.isThereABytePending then [s.bytePending] else []

/-- `PiafsPreShiftBitRx` over the bytes, two by two. -/
def assembled (s : PiafsFrm) : List Octet → List Octet
  | x :: y :: rest => (s.preShiftBitRx x y).1 :: assembled (s.preShiftBitRx x y).2 rest
  | _ => []

/-- `PiafsShiftBitRx` over the bytes. -/
def aligned (s : PiafsFrm) : List Octet → List Octet
  | x :: rest => (s.shiftBitRx x).1 :: aligned (s.shiftBitRx x).2 rest
  | [] => []

/-- `PiafsAcquirePreSync` over the bytes, two by two. -/
def preSyncIn (s : PiafsFrm) : List Octet → Bool
  | x :: y :: rest => (s.acquirePreSync x y).2 || preSyncIn (s.acquirePreSync x y).1 rest
  | _ => false

/-- The bytes of the CRC that are there. -/
def crcBytes (s : PiafsFrm) : Nat := if s.rxState = .crc then s.numberOfReceivedCrcBytes else 0

def crcSoFar (s : PiafsFrm) : BitVec 32 := if s.rxState = .crc then s.receivedCrc else 0

/-- The bytes of the frame that are to come. -/
def toCome (s : PiafsFrm) : Nat := 76 - s.idxInRxFrame + (4 - s.crcBytes)

/-- The frame has its CRC, with these bytes to come. -/
def FrameOk (s : PiafsFrm) (bytes : List Octet) : Prop :=
  (bytes.take (76 - s.idxInRxFrame)).foldl crc32Msb s.rxCrc =
    ((bytes.drop (76 - s.idxInRxFrame)).take (4 - s.crcBytes)).foldl
      (fun (crc : BitVec 32) x => crc <<< 8 ||| x.setWidth 32) s.crcSoFar

instance (s : PiafsFrm) (bytes : List Octet) : Decidable (s.FrameOk bytes) := inferInstanceAs (Decidable (_ = _))

/-- The call for the piece goes on as one call for all the stream would: it comes before any
    pre-synchronisation, with no byte left and none in the first eight bytes, or inside a frame
    that does not end in it or that has its CRC. A byte that was left is lost if the next piece
    is of one byte. -/
def Continues (s : PiafsFrm) (piece : List Octet) : Prop :=
  (s.rxState = .preHunt ∧ s.previousRxState = .hunt ∧ s.preShiftCount = 0 ∧ s.isThereABytePending = false ∧
      s.preSyncIn (piece.take 8) = false) ∨
    ((s.rxState = .data ∨ s.rxState = .crc) ∧ ¬ (s.isThereABytePending = true ∧ piece.length = 1) ∧
      (s.waiting.length + piece.length ≤ 2 * s.toCome + 1 ∨ s.FrameOk (s.aligned (s.assembled (s.waiting ++ piece)))))

instance (s : PiafsFrm) (piece : List Octet) : Decidable (s.Continues piece) := inferInstanceAs (Decidable (_ ∨ _))

end PiafsFrm

/-! ## What does not depend on the byte that was left -/

namespace PiafsFrm

/-- The state without the byte that was left. -/
def settled (s : PiafsFrm) : PiafsFrm := { s with isThereABytePending := false, bytePending := 0 }

section Settled

variable (s : PiafsFrm) (x : Octet)

theorem settled_processIncomingData : s.settled.processIncomingData x = (s.processIncomingData x).settled := by
  unfold processIncomingData
  dsimp only
  rw [apply_ite settled]
  rfl

theorem settled_lagTurn : s.settled.lagTurn = s.lagTurn.settled :=
  settled_processIncomingData s.lagShift.2 s.lagShift.1

theorem settled_lagTurns (n : Nat) : s.settled.lagTurns n = (s.lagTurns n).settled := by
  unfold lagTurns
  induction n with
  | zero => rfl
  | succ n ih =>
    rw [List.range_succ, List.foldl_append, List.foldl_append, ih]
    exact settled_lagTurn _

theorem settled_synchronize (k : Nat) : s.settled.synchronize k x = (s.synchronize k x).settled := by
  have hbegin : s.settled.beginFrame k = (s.beginFrame k).settled := rfl
  rw [synchronize_eq, synchronize_eq, hbegin, settled_lagTurns]
  generalize (s.beginFrame k).lagTurns 6 = t
  exact settled_processIncomingData (t.shiftBitRx x).2 (t.shiftBitRx x).1

theorem settled_huntTurn : s.settled.huntTurn x = (s.huntTurn x).settled := by
  unfold huntTurn
  dsimp only
  rw [apply_ite settled, ← settled_synchronize]
  rfl

theorem settled_dataTurn : s.settled.dataTurn x = (s.dataTurn x).settled := by
  have hstore : (s.settled.shiftBitRx x).2.storeByte (s.settled.shiftBitRx x).1 =
      ((s.shiftBitRx x).2.storeByte (s.shiftBitRx x).1).settled := rfl
  unfold dataTurn
  dsimp only
  rw [hstore]
  generalize (s.shiftBitRx x).2.storeByte (s.shiftBitRx x).1 = t
  by_cases h : t.idxInRxFrame = frameLength - crcLength
  · rw [if_pos h, if_pos (show t.settled.idxInRxFrame = _ from h)]
    rfl
  · rw [if_neg h, if_neg (show ¬ t.settled.idxInRxFrame = _ from h)]
    rfl

theorem settled_crcTurn : s.settled.crcTurn x = ((s.crcTurn x).1.settled, (s.crcTurn x).2) := by
  unfold crcTurn
  dsimp only [shiftBitRx, settled]
  split
  · rfl
  · split
    · rfl
    · rfl

theorem settled_acquirePreSyncLoop (n : Nat) (z : BitVec 16) (i : Nat) :
    s.settled.acquirePreSyncLoop z n i = ((s.acquirePreSyncLoop z n i).1.settled, (s.acquirePreSyncLoop z n i).2) := by
  induction n generalizing s z i with
  | zero => rfl
  | succ n ih =>
    rw [acquirePreSyncLoop, acquirePreSyncLoop]
    have hr : s.settled.preShiftRegister = s.preShiftRegister := rfl
    rw [hr]
    generalize (s.preShiftRegister <<< 1 ||| if z.getLsbD 15 then 1 else 0) = register
    split
    · rfl
    · exact ih { s with preShiftRegister := register } (z <<< 1) (i + 1)

theorem settled_acquirePreSync (y : Octet) : s.settled.acquirePreSync x y
    = ((s.acquirePreSync x y).1.settled, (s.acquirePreSync x y).2) :=
  settled_acquirePreSyncLoop s 16 (pair x y) 1

theorem settled_preShiftBitRx (y : Octet) : s.settled.preShiftBitRx x y
    = ((s.preShiftBitRx x y).1, (s.preShiftBitRx x y).2.settled) := by
  unfold preShiftBitRx
  dsimp only
  by_cases h : 4 < s.preShiftCount
  · rw [if_pos (show 4 < s.settled.preShiftCount from h), if_pos h]
    rfl
  · rw [if_neg (show ¬ 4 < s.settled.preShiftCount from h), if_neg h]
    rfl

end Settled

end PiafsFrm

/-! ## Turn by turn -/

/-- What a call for a piece and the call for the stream have in common when `pos` bytes are given:
    the call for the stream has not read the byte that was left. -/
structure Kept (D : Nat → Octet) (N pos : Nat) (s : PiafsFrm) (t : PiafsFrm × Cursor) : Prop where
  state : t.1 = s.settled
  index : t.2.readIndex + s.waiting.length = pos
  sum : t.2.readIndex + t.2.nbBytes = N
  left : s.isThereABytePending = true → s.bytePending = D (pos - 1)

section Follow

variable {D data : Nat → Octet} {N o n : Nat} {s s' : PiafsFrm} {c c' : Cursor} {t : PiafsFrm × Cursor}

theorem waiting_taken (s : PiafsFrm) : s.waiting.length + s.taken = 2 := by
  unfold PiafsFrm.waiting taken
  split
  · rfl
  · rfl

theorem waiting_none (h : s.isThereABytePending = false) : s.waiting = [] := by
  unfold PiafsFrm.waiting
  rw [h]
  rfl

/-- The next byte is assembled of the same two bytes. -/
theorem Kept.shifted (h : Kept D N (o + c.readIndex) s t) (hdata : ∀ i < n, D (o + i) = data i) (hn : 1 < c.nbBytes)
    (hsum : c.readIndex + c.nbBytes = n) :
    t.1.shifted D t.2.readIndex = ((s.shifted data c.readIndex).1, (s.shifted data c.readIndex).2.settled) := by
  have hindex := h.index
  have hleft := h.left
  have hsettled : ({ s.settled with isThereABytePending := false } : PiafsFrm) =
      ({ s with isThereABytePending := false } : PiafsFrm).settled := rfl
  have hlead : t.1.leading D t.2.readIndex = s.leading data c.readIndex ∧
      D (t.2.readIndex + t.1.taken - 1) = data (c.readIndex + s.taken - 1) := by
    have ht : t.1.isThereABytePending = false := by
      rw [h.state]
      rfl
    unfold leading taken
    rw [ht]
    unfold PiafsFrm.waiting at hindex
    cases hp : s.isThereABytePending with
    | true =>
      rw [hp] at hindex
      have hindex : t.2.readIndex + 1 = o + c.readIndex := hindex
      rw [if_neg Bool.false_ne_true, if_pos rfl, hleft hp, ← hindex]
      refine ⟨rfl, ?_⟩
      rw [if_neg Bool.false_ne_true, if_pos rfl, show t.2.readIndex + 2 - 1 = o + c.readIndex by omega]
      exact hdata _ (by omega)
    | false =>
      rw [hp] at hindex
      have hindex : t.2.readIndex = o + c.readIndex := hindex
      rw [hindex]
      refine ⟨hdata _ (by omega), ?_⟩
      show D (o + c.readIndex + 2 - 1) = data (c.readIndex + 2 - 1)
      rw [show o + c.readIndex + 2 - 1 = o + (c.readIndex + 2 - 1) by omega]
      exact hdata _ (by omega)
  unfold PiafsFrm.shifted
  rw [hlead.1, hlead.2, h.state, hsettled, settled_preShiftBitRx]

theorem Kept.advance (h : Kept D N (o + c.readIndex) s t) (hle : o + n ≤ N) (hn : 1 < c.nbBytes)
    (hsum : c.readIndex + c.nbBytes = n) :
    1 < t.2.nbBytes ∧ (t.2.advance t.1.taken).readIndex = o + (c.advance s.taken).readIndex ∧
      (t.2.advance t.1.taken).readIndex + (t.2.advance t.1.taken).nbBytes = N := by
  have hindex := h.index
  have hsum' := h.sum
  have htaken := waiting_taken s
  have ht : t.1.taken = 2 := by
    rw [h.state]
    rfl
  have hread : (t.2.advance t.1.taken).readIndex = t.2.readIndex + 2 := by
    rw [ht]
    rfl
  have hnb : (t.2.advance t.1.taken).nbBytes = t.2.nbBytes - 2 := by
    rw [ht]
    rfl
  have hread' : (c.advance s.taken).readIndex = c.readIndex + s.taken := rfl
  omega

/-- The byte that was left is used in the first turn. -/
theorem kept_of_settled {pos : Nat} (hp : s.isThereABytePending = false) (hstate : t.1 = s.settled) (hindex : t.2.readIndex = pos)
    (hsum : t.2.readIndex + t.2.nbBytes = N) : Kept D N pos s t := by
  refine ⟨hstate, ?_, hsum, ?_⟩
  · rw [waiting_none hp]
    exact hindex
  · rw [hp]
    nofun

/-- The pre-synchronisation of the piece is at the same place of the stream, and a hit is not cut short. -/
structure SamePlace (data : Nat → Octet) (o n : Nat) (s : PiafsFrm) (c : Cursor) (t : PiafsFrm × Cursor) : Prop where
  index : t.2.preSyncIndex = o + c.preSyncIndex
  inside : c.preSyncIndex + 1 < n
  back : ((s.shifted data c.readIndex).2.acquirePreSync (data c.preSyncIndex) (data (c.preSyncIndex + 1))).2 = true →
    o = 0 ∨ 8 ≤ c.readIndex
  taken : s.taken = 2

/-- The call for the stream makes the same turn. -/
theorem Kept.turn (h : Kept D N (o + c.readIndex) s t) (hv : Valid s) (hdata : ∀ i < n, D (o + i) = data i) (hle : o + n ≤ N)
    (hsum : c.readIndex + c.nbBytes = n) (hpre : 1 < c.nbBytes → s.rxState = .preHunt → SamePlace data o n s c t)
    (ht : turn data n (s, c) = .inl (s', c')) :
    ∃ t', turn D N t = .inl t' ∧ Kept D N (o + c'.readIndex) s' t' ∧
      t'.2.preSyncIndex + c.preSyncIndex = t.2.preSyncIndex + c'.preSyncIndex := by
  obtain ⟨hn, hcases⟩ := turn_cases hv.on ht
  have hshift := h.shifted hdata hn hsum
  obtain ⟨hn', hread, hsum'⟩ := h.advance hle hn hsum
  obtain ⟨hv', hstate, -, -, hleft⟩ := hv.shifted data c.readIndex
  have hsame := hpre hn
  rw [← hstate] at hsame
  obtain ⟨t₁, t₂⟩ := t
  have hon : t₁.rateAdaptationEnable = true := by
    have := h.state
    dsimp only at this
    rw [this]
    exact hv.on
  rw [turn_some hon hn', hshift]
  dsimp only at hread hsum' ⊢
  generalize hu : (s.shifted data c.readIndex).2 = u at hcases hv' hleft hsame ⊢
  generalize (s.shifted data c.readIndex).1 = x at hcases ⊢
  have hrx : u.settled.rxState = u.rxState := rfl
  rw [hrx]
  rcases hcases with ⟨hs, hturn⟩ | ⟨rfl, ⟨hs, rfl⟩ | ⟨hs, rfl⟩ | ⟨hs, hd, rfl⟩⟩
  · obtain ⟨hidx, hin, hback, htaken⟩ := hsame hs
    dsimp only at hidx
    rw [hu] at hback
    rw [hs]
    dsimp only
    have hp : (t₂.advance t₁.taken).preSyncIndex = o + c.preSyncIndex := hidx
    have hd₁ : D (t₂.advance t₁.taken).preSyncIndex = data c.preSyncIndex := by
      rw [hp]
      exact hdata _ (by omega)
    have hd₂ : D ((t₂.advance t₁.taken).preSyncIndex + 1) = data (c.preSyncIndex + 1) := by
      rw [hp, Nat.add_assoc]
      exact hdata _ hin
    have hr' : (c.advance s.taken).readIndex = c.readIndex + 2 := by
      rw [htaken]
      rfl
    rw [preHuntTurn_eq] at hturn ⊢
    rw [hd₁, hd₂, settled_acquirePreSync]
    have hq : (c.advance s.taken).preSyncIndex = c.preSyncIndex := rfl
    rw [hq] at hturn
    have hacq : (u.acquirePreSync (data c.preSyncIndex) (data (c.preSyncIndex + 1))).1.isThereABytePending = false := by
      rcases acquirePreSyncLoop_state u 16 (pair (data c.preSyncIndex) (data (c.preSyncIndex + 1))) 1
        with ⟨-, k, r, ha⟩ | ⟨-, r, ha⟩
      · exact (congrArg PiafsFrm.isThereABytePending ha).trans hleft
      · exact (congrArg PiafsFrm.isThereABytePending ha).trans hleft
    generalize u.acquirePreSync (data c.preSyncIndex) (data (c.preSyncIndex + 1)) = a at hturn hback hacq ⊢
    obtain ⟨u', found⟩ := a
    dsimp only at hturn hback hacq ⊢
    cases found with
    | false =>
      rw [if_neg Bool.false_ne_true] at hturn ⊢
      cases hturn
      refine ⟨_, rfl, kept_of_settled hacq rfl hread hsum', ?_⟩
      show t₂.preSyncIndex + 2 + c.preSyncIndex = t₂.preSyncIndex + (c.preSyncIndex + 2)
      omega
    | true =>
      rw [if_pos rfl] at hturn ⊢
      cases hturn
      obtain ⟨hsumc, -, hrc, -⟩ := Cursor.back_sum (Cursor.advance_sum hsum (show s.taken ≤ c.nbBytes by omega))
      obtain ⟨hsumt, -, hrt, hpt⟩ := Cursor.back_sum hsum'
      have hpc : ((c.advance s.taken).back n).preSyncIndex = c.preSyncIndex := by
        unfold Cursor.back
        split
        · rfl
        · rfl
      refine ⟨_, rfl, kept_of_settled hacq rfl ?_ hsumt, ?_⟩
      · have hb := hback rfl
        dsimp only
        omega
      · dsimp only
        rw [hpt, hpc]
        rfl
  · rw [hs]
    refine ⟨_, rfl, kept_of_settled ?_ (settled_huntTurn u x) hread hsum', rfl⟩
    exact (front_previous (front_huntTurn u x)).2.1.trans hleft
  · rw [hs]
    refine ⟨_, rfl, kept_of_settled ?_ (settled_dataTurn u x) hread hsum', rfl⟩
    exact (front_previous (front_dataTurn u x)).2.1.trans hleft
  · rw [hs]
    dsimp only
    rw [settled_crcTurn, hd, if_neg Bool.false_ne_true]
    refine ⟨_, rfl, kept_of_settled ?_ rfl hread hsum', rfl⟩
    exact (front_previous (front_crcTurn u x)).2.1.trans hleft

end Follow

/-! ## Inside a frame -/

section InFrame

variable {s s' : PiafsFrm}

theorem preShiftBitRx_congr (hc : s.preShiftCount = s'.preShiftCount) (hr : s.preShiftRegister = s'.preShiftRegister)
    (x y : Octet) :
    (s.preShiftBitRx x y).1 = (s'.preShiftBitRx x y).1 ∧
      (s.preShiftBitRx x y).2.preShiftCount = (s'.preShiftBitRx x y).2.preShiftCount ∧
      (s.preShiftBitRx x y).2.preShiftRegister = (s'.preShiftBitRx x y).2.preShiftRegister := by
  unfold preShiftBitRx
  dsimp only
  rw [hc, hr]
  split
  · exact ⟨rfl, rfl, rfl⟩
  · exact ⟨rfl, hc, hr⟩

theorem assembled_congr (hc : s.preShiftCount = s'.preShiftCount) (hr : s.preShiftRegister = s'.preShiftRegister)
    (bytes : List Octet) :
    s.assembled bytes = s'.assembled bytes := by
  induction s, bytes using assembled.induct generalizing s' with
  | case1 s x y rest ih =>
    obtain ⟨h1, h2, h3⟩ := preShiftBitRx_congr hc hr x y
    rw [assembled, assembled, h1, ih h2 h3]
  | case2 s bytes hshort =>
    rw [assembled, assembled]
    · exact hshort
    · exact hshort

theorem aligned_congr (hr : s.currentRxShiftRegister = s'.currentRxShiftRegister) (hb : s.bitsToLeftShift = s'.bitsToLeftShift)
    (bytes : List Octet) : s.aligned bytes = s'.aligned bytes := by
  induction bytes generalizing s s' with
  | nil => rfl
  | cons x rest ih =>
    have hx : (s.shiftBitRx x).1 = (s'.shiftBitRx x).1 := by
      unfold shiftBitRx
      rw [hr, hb]
    have hreg : (s.shiftBitRx x).2.currentRxShiftRegister = (s'.shiftBitRx x).2.currentRxShiftRegister := by
      show x <<< s.bitsToLeftShift = x <<< s'.bitsToLeftShift
      rw [hb]
    rw [aligned, aligned, hx, ih hreg hb]

theorem dataTurn_fields (s : PiafsFrm) (x : Octet) :
    (s.dataTurn x).rxCrc = crc32Msb s.rxCrc (s.shiftBitRx x).1 ∧
      (s.dataTurn x).currentRxShiftRegister = (s.shiftBitRx x).2.currentRxShiftRegister ∧
      (s.dataTurn x).bitsToLeftShift = (s.shiftBitRx x).2.bitsToLeftShift ∧
      (s.dataTurn x).receivedCrc = 0 ∧ (s.dataTurn x).numberOfReceivedCrcBytes = 0 := by
  unfold PiafsFrm.dataTurn
  dsimp only
  split
  · exact ⟨rfl, rfl, rfl, rfl, rfl⟩
  · exact ⟨rfl, rfl, rfl, rfl, rfl⟩

/-- A byte of the data of a frame. -/
theorem frameOk_data (hs : s.rxState = .data) (h : s.idxInRxFrame < 76) (x : Octet) (rest : List Octet) :
    (s.FrameOk (s.aligned (x :: rest)) ↔ (s.dataTurn x).FrameOk ((s.dataTurn x).aligned rest)) ∧
      s.toCome = (s.dataTurn x).toCome + 1 := by
  obtain ⟨hcrc, hreg, hbits, hreceived, hnum⟩ := dataTurn_fields s x
  have hne : ¬ s.rxState = .crc := by
    rw [hs]
    decide
  have hbytes : (s.dataTurn x).crcBytes = 0 ∧ (s.dataTurn x).crcSoFar = 0 := by
    unfold crcBytes crcSoFar
    rw [hnum, hreceived, ite_self, ite_self]
    exact ⟨rfl, rfl⟩
  have hidx : (s.dataTurn x).idxInRxFrame = s.idxInRxFrame + 1 := by
    rcases dataTurn_place s x hs h with ⟨-, h2, -⟩ | ⟨-, h2, -, h4⟩
    · exact h2
    · omega
  have hsub : 76 - s.idxInRxFrame = 76 - (s.dataTurn x).idxInRxFrame + 1 := by omega
  constructor
  · unfold FrameOk
    rw [aligned, hbytes.1, hbytes.2, hcrc, hsub, aligned_congr hreg hbits rest]
    unfold crcBytes crcSoFar
    rw [if_neg hne, if_neg hne]
    rfl
  · unfold toCome
    rw [hbytes.1, hsub]
    unfold crcBytes
    rw [if_neg hne]

/-- A byte of the CRC, but not the last one. -/
theorem frameOk_crc (hs : s.rxState = .crc) (hidx : s.idxInRxFrame = 76) (h : s.numberOfReceivedCrcBytes < 3)
    (x : Octet) (rest : List Octet) :
    (s.FrameOk (s.aligned (x :: rest)) ↔ (s.crcTurn x).1.FrameOk ((s.crcTurn x).1.aligned rest)) ∧
      s.toCome = (s.crcTurn x).1.toCome + 1 := by
  have hturn : (s.crcTurn x).1 =
      { (s.shiftBitRx x).2 with
        receivedCrc := s.receivedCrc <<< 8 ||| (s.shiftBitRx x).1.setWidth 32
        numberOfReceivedCrcBytes := s.numberOfReceivedCrcBytes + 1 } := by
    unfold PiafsFrm.crcTurn
    dsimp only
    rw [if_pos (show (s.shiftBitRx x).2.numberOfReceivedCrcBytes + 1
      ≠ crcLength by show s.numberOfReceivedCrcBytes + 1 ≠ 4; omega)]
    rfl
  have hsub : 4 - s.numberOfReceivedCrcBytes = 4 - (s.numberOfReceivedCrcBytes + 1) + 1 := by omega
  have hcrc : ((s.shiftBitRx x).2).rxState = .crc := hs
  have hal : (s.crcTurn x).1.aligned rest = (s.shiftBitRx x).2.aligned rest := by
    rw [hturn]
    refine aligned_congr ?_ ?_ rest
    · rfl
    · rfl
  rw [hal, hturn]
  constructor
  · unfold FrameOk crcBytes crcSoFar
    dsimp only
    rw [if_pos hs, if_pos hs, if_pos hcrc, if_pos hcrc, show (s.shiftBitRx x).2.idxInRxFrame = s.idxInRxFrame from rfl,
      hidx, hsub, aligned]
    rfl
  · unfold toCome crcBytes
    dsimp only
    rw [if_pos hs, if_pos hcrc, show (s.shiftBitRx x).2.idxInRxFrame = s.idxInRxFrame from rfl]
    omega

/-- The last byte of the CRC. -/
theorem frameOk_last (hs : s.rxState = .crc) (hidx : s.idxInRxFrame = 76) (h : s.numberOfReceivedCrcBytes = 3)
    (x : Octet) (rest : List Octet) :
    (s.FrameOk (s.aligned (x :: rest)) ↔ (s.crcTurn x).2 = true) ∧ s.toCome = 1 := by
  constructor
  · unfold FrameOk crcBytes crcSoFar PiafsFrm.crcTurn
    dsimp only
    rw [if_pos hs, if_pos hs, hidx, h, if_neg (show ¬ (s.shiftBitRx x).2.numberOfReceivedCrcBytes + 1
      ≠ crcLength by show ¬ s.numberOfReceivedCrcBytes + 1 ≠ 4; omega), aligned]
    show s.rxCrc = s.receivedCrc <<< 8 ||| (s.shiftBitRx x).1.setWidth 32 ↔
      (if s.rxCrc = s.receivedCrc <<< 8 ||| (s.shiftBitRx x).1.setWidth 32 then (_, true) else ((_ : PiafsFrm), false)).2 = true
    split
    case isTrue hok => exact ⟨fun _ => rfl, fun _ => hok⟩
    case isFalse hno => exact ⟨fun hok => absurd hok hno, nofun⟩
  · unfold toCome crcBytes
    rw [if_pos hs, hidx, h]

end InFrame

/-! ## A piece -/

section Piece

variable {D : Nat → Octet} {N o : Nat} {piece : List Octet} {s s' : PiafsFrm} {c c' : Cursor} {t : PiafsFrm × Cursor}

/-- The data of a call. -/
def bytesOf (piece : List Octet) (i : Nat) : Octet := piece.getD i 0

/-- The piece began before any pre-synchronisation. A hit goes back inside the piece: the first one
    does not come in its first bytes, and a frame is read between two of them. -/
structure Ahead (o : Nat) (piece : List Octet) (s : PiafsFrm) (c : Cursor) (t : PiafsFrm × Cursor) : Prop where
  left : s.isThereABytePending = false
  place : t.2.preSyncIndex = o + c.preSyncIndex
  fresh : s.Fresh → c.preSyncIndex = c.readIndex ∧ c.readIndex % 2 = 0 ∧
    (o = 0 ∨ s.preSyncIn ((piece.take 8).drop c.readIndex) = false)
  synced : s.previousRxState = .preHunt → s.rxState = .hunt ∨ s.rxState = .data ∧ s.idxInRxFrame ≤ c.readIndex + 7 ∨
    s.rxState = .crc ∧ 69 ≤ c.readIndex ∨ s.rxState = .preHunt ∧ 10 ≤ c.readIndex

/-- The piece began inside a frame. -/
structure InFrame (piece : List Octet) (s : PiafsFrm) (c : Cursor) : Prop where
  state : s.rxState = .data ∨ s.rxState = .crc
  left : ¬ (s.isThereABytePending = true ∧ c.nbBytes = 1)
  frame : s.waiting.length + c.nbBytes ≤ 2 * s.toCome + 1 ∨
    s.FrameOk (s.aligned (s.assembled (s.waiting ++ piece.drop c.readIndex)))

/-- The frame has not had its CRC, and one byte is left at most. -/
structure Over (s : PiafsFrm) (c : Cursor) : Prop where
  state : s.rxState = .preHunt
  previous : s.previousRxState = .preHunt
  left : s.isThereABytePending = false
  nbBytes : c.nbBytes ≤ 1

theorem getElem_bytesOf {i : Nat} (h : i < piece.length) : piece[i] = bytesOf piece i := by
  unfold bytesOf
  rw [List.getD_eq_getElem?_getD, List.getElem?_eq_getElem h]
  rfl

theorem drop_two {i : Nat} (h : i + 1 < piece.length) :
    piece.drop i = bytesOf piece i :: bytesOf piece (i + 1) :: piece.drop (i + 2) := by
  rw [List.drop_eq_getElem_cons (show i < piece.length by omega), List.drop_eq_getElem_cons h, getElem_bytesOf, getElem_bytesOf]

/-- Before any pre-synchronisation no bits are shifted. -/
theorem shifted_fresh (h : s.Fresh) (hp : s.isThereABytePending = false) (data : Nat → Octet) (i : Nat) :
    (s.shifted data i).2 = s := by
  have hs : ({ s with isThereABytePending := false } : PiafsFrm) = s := by
    cases s
    cases hp
    rfl
  unfold PiafsFrm.shifted
  rw [hs]
  unfold preShiftBitRx
  dsimp only
  rw [h.count, if_neg (by decide)]

theorem Ahead.miss (h : Ahead o piece s c t) (hf : s.Fresh) (hn : 1 < c.nbBytes) (hsum : c.readIndex + c.nbBytes = piece.length)
    (h8 : c.readIndex < 8) :
    o = 0 ∨ ((s.acquirePreSync (bytesOf piece c.preSyncIndex) (bytesOf piece (c.preSyncIndex + 1))).2 = false ∧
      (s.acquirePreSync (bytesOf piece c.preSyncIndex) (bytesOf piece (c.preSyncIndex + 1))).1.preSyncIn
        ((piece.take 8).drop (c.readIndex + 2)) = false) := by
  obtain ⟨hp, hpar, hor⟩ := h.fresh hf
  refine hor.imp_right fun hno => ?_
  have hlen : c.readIndex + 1 < (piece.take 8).length := by
    rw [List.length_take]
    omega
  have hb : ∀ i < 8, bytesOf (piece.take 8) i = bytesOf piece i := by
    intro i hi
    unfold bytesOf
    rw [List.getD_eq_getElem?_getD, List.getD_eq_getElem?_getD, List.getElem?_take_of_lt hi]
  rw [drop_two hlen, hb _ h8, hb _ (by omega), preSyncIn, Bool.or_eq_false_iff] at hno
  rw [hp]
  exact hno

theorem Ahead.samePlace (h : Ahead o piece s c t) (hv : Valid s) (hp : Placed s c) (hsum : c.readIndex + c.nbBytes = piece.length)
    (hn : 1 < c.nbBytes) (hs : s.rxState = .preHunt) : SamePlace (bytesOf piece) o piece.length s c t := by
  have hle : c.preSyncIndex ≤ c.readIndex := by
    rcases hp.place with hle | ⟨hs', -⟩ | ⟨hs', -⟩
    · exact hle
    · rw [hs] at hs'
      cases hs'
    · rw [hs] at hs'
      cases hs'
  refine ⟨h.place, by omega, ?_, ?_⟩
  · intro hit
    rcases hv.previous with hprev | hf
    · right
      rcases h.synced hprev with hs' | ⟨hs', -⟩ | ⟨hs', -⟩ | ⟨-, hge⟩
      · rw [hs] at hs'
        cases hs'
      · rw [hs] at hs'
        cases hs'
      · rw [hs] at hs'
        cases hs'
      · omega
    · by_cases h8 : c.readIndex < 8
      · refine (h.miss hf hn hsum h8).imp_right fun hno => ?_
        rw [shifted_fresh hf h.left, hno.1] at hit
        cases hit
      · exact Or.inr (by omega)
  · unfold taken
    rw [h.left]
    rfl

/-- How far a receiver has come that has seen the first synchronisation, behind a turn. -/
theorem synced_turn {u u' : PiafsFrm} {x : Octet} {r : Nat} (hv : Valid u) (hp : u.previousRxState = .preHunt)
    (hs : u.rxState = .hunt ∨ u.rxState = .data ∧ u.idxInRxFrame ≤ r + 7 ∨ u.rxState = .crc ∧ 69 ≤ r ∨
      u.rxState = .preHunt ∧ 10 ≤ r)
    (hturn : u.rxState = .hunt ∧ u' = u.huntTurn x ∨ u.rxState = .data ∧ u' = u.dataTurn x ∨
      u.rxState = .crc ∧ (u.crcTurn x).2 = false ∧ u' = (u.crcTurn x).1) :
    u'.previousRxState = .preHunt ∧ (u'.rxState = .hunt ∨ u'.rxState = .data ∧ u'.idxInRxFrame ≤ r + 2 + 7 ∨
      u'.rxState = .crc ∧ 69 ≤ r + 2 ∨ u'.rxState = .preHunt ∧ 10 ≤ r + 2) := by
  rcases hturn with ⟨hstate, rfl⟩ | ⟨hstate, rfl⟩ | ⟨hstate, hd, rfl⟩
  · refine ⟨(front_previous (front_huntTurn u x)).2.2.trans hp, ?_⟩
    rcases huntTurn_place u x hstate (hv.outside (Or.inr hstate)) with ⟨h1, -⟩ | ⟨h1, h2⟩
    · exact Or.inl h1
    · exact Or.inr (Or.inl ⟨h1, by omega⟩)
  · refine ⟨(front_previous (front_dataTurn u x)).2.2.trans hp, ?_⟩
    have hidx : u.idxInRxFrame ≤ r + 7 := by
      simpa [hstate] using hs
    rcases dataTurn_place u x hstate (hv.data hstate) with ⟨h1, h2, -⟩ | ⟨h1, -, -, h4⟩
    · exact Or.inr (Or.inl ⟨h1, by omega⟩)
    · exact Or.inr (Or.inr (Or.inl ⟨h1, by omega⟩))
  · refine ⟨(front_previous (front_crcTurn u x)).2.2.trans hp, ?_⟩
    have hge : 69 ≤ r := by
      simpa [hstate] using hs
    rcases crcTurn_place u x hstate hp (hv.crc hstate).2 hd with ⟨h1, -, -, -⟩ | ⟨h1, -, -⟩
    · exact Or.inr (Or.inr (Or.inl ⟨h1, by omega⟩))
    · exact Or.inr (Or.inr (Or.inr ⟨h1, by omega⟩))

theorem Ahead.turn {t' : PiafsFrm × Cursor} (h : Ahead o piece s c t) (hv : Valid s)
    (hsum : c.readIndex + c.nbBytes = piece.length)
    (ht : turn (bytesOf piece) piece.length (s, c) = .inl (s', c')) (hleft : s'.isThereABytePending = false)
    (hplace : t'.2.preSyncIndex + c.preSyncIndex = t.2.preSyncIndex + c'.preSyncIndex) : Ahead o piece s' c' t' := by
  obtain ⟨hn, hcases⟩ := turn_cases hv.on ht
  obtain ⟨hv', hstate, hidx, -, -⟩ := hv.shifted (bytesOf piece) c.readIndex
  have htaken : s.taken = 2 := by
    unfold taken
    rw [h.left]
    rfl
  have hplace' : t'.2.preSyncIndex = o + c'.preSyncIndex := by
    have := h.place
    omega
  have hread : (c.advance s.taken).readIndex = c.readIndex + 2 := by
    rw [htaken]
    rfl
  have hprev : (s.shifted (bytesOf piece) c.readIndex).2.previousRxState = s.previousRxState := by
    obtain ⟨r, hr⟩ := s.shifted_state (bytesOf piece) c.readIndex
    rw [hr]
  have hsynced := h.synced
  rw [← hstate, ← hidx, ← hprev] at hsynced
  have hfresh : ∀ u : PiafsFrm, u.rxState ≠ .preHunt → ¬ u.Fresh := fun u hu hf => hu hf.state
  rcases hcases with ⟨hs, hturn⟩ | ⟨rfl, hcases⟩
  · rw [hstate] at hs
    rcases preHuntTurn_cases (s.shifted (bytesOf piece) c.readIndex).2 (bytesOf piece) piece.length (c.advance s.taken) with
      ⟨-, k, r, heq⟩ | ⟨hmiss, r, heq⟩
    · rw [heq] at hturn
      cases hturn
      exact ⟨hleft, hplace', fun hf => absurd hf (hfresh _ (by show RxState.hunt ≠ .preHunt; decide)), fun _ => Or.inl rfl⟩
    · have hacq : (preHuntTurn (s.shifted (bytesOf piece) c.readIndex).2 (bytesOf piece) piece.length (c.advance s.taken)).1 =
          ((s.shifted (bytesOf piece) c.readIndex).2.acquirePreSync (bytesOf piece c.preSyncIndex)
            (bytesOf piece (c.preSyncIndex + 1))).1 := by
        rw [preHuntTurn_eq, if_neg (by rw [hmiss]; decide)]
        rfl
      have hmiss : ((s.shifted (bytesOf piece) c.readIndex).2.acquirePreSync (bytesOf piece c.preSyncIndex)
        (bytesOf piece (c.preSyncIndex + 1))).2 = false := hmiss
      rw [heq] at hturn hacq
      cases hturn
      refine ⟨hleft, hplace', ?_, ?_⟩
      · intro hf
        have hf₀ : s.Fresh := by
          rcases hv.previous with hp | hf₀
          · have hp' := hf.previous
            dsimp only at hp'
            rw [hprev, hp] at hp'
            cases hp'
          · exact hf₀
        obtain ⟨h1, h2, h3⟩ := h.fresh hf₀
        have hread' : (c.advance s.taken).readIndex = c.readIndex + 2 := hread
        refine ⟨?_, ?_, ?_⟩
        · show c.preSyncIndex + 2 = (c.advance s.taken).readIndex
          omega
        · show (c.advance s.taken).readIndex % 2 = 0
          omega
        · show o = 0 ∨ preSyncIn _ ((piece.take 8).drop (c.advance s.taken).readIndex) = false
          rw [hread]
          by_cases h8 : c.readIndex < 8
          · refine (h.miss hf₀ hn hsum h8).imp_right fun hno => ?_
            dsimp only at hacq
            rw [hacq, shifted_fresh hf₀ h.left]
            exact hno.2
          · right
            have hnil : (piece.take 8).drop (c.readIndex + 2) = [] := by
              rw [List.drop_eq_nil_iff, List.length_take]
              omega
            rw [hnil, preSyncIn]
            nofun
      · intro hp
        have hp : (s.shifted (bytesOf piece) c.readIndex).2.previousRxState = .preHunt := hp
        show _ ∨ _ ∨ _ ∨ (s.shifted (bytesOf piece) c.readIndex).2.rxState = .preHunt ∧ 10 ≤ (c.advance s.taken).readIndex
        rw [hread]
        rcases hsynced hp with hs' | ⟨hs', -⟩ | ⟨hs', -⟩ | ⟨hs', hge⟩
        · rw [hstate, hs] at hs'
          cases hs'
        · rw [hstate, hs] at hs'
          cases hs'
        · rw [hstate, hs] at hs'
          cases hs'
        · exact Or.inr (Or.inr (Or.inr ⟨hs', by omega⟩))
  · have hne : (s.shifted (bytesOf piece) c.readIndex).2.rxState ≠ .preHunt := by
      rcases hcases with ⟨hs, -⟩ | ⟨hs, -⟩ | ⟨hs, -⟩
      · rw [hs]
        decide
      · rw [hs]
        decide
      · rw [hs]
        decide
    have hp := hv'.synced hne
    obtain ⟨hp', hfar⟩ := synced_turn hv' hp (hsynced hp) hcases
    refine ⟨hleft, hplace', ?_, fun _ => ?_⟩
    · intro hf
      rw [hf.previous] at hp'
      cases hp'
    · rw [hread]
      exact hfar

/-- The bytes of a turn. -/
theorem waiting_drop (hn : 1 < c.nbBytes) (hsum : c.readIndex + c.nbBytes = piece.length) :
    s.waiting ++ piece.drop c.readIndex =
      s.leading (bytesOf piece) c.readIndex :: bytesOf piece (c.readIndex + s.taken - 1) :: piece.drop
        (c.readIndex + s.taken) := by
  unfold PiafsFrm.waiting leading taken
  cases hp : s.isThereABytePending with
  | true =>
    rw [if_pos rfl, if_pos rfl, if_pos rfl, List.drop_eq_getElem_cons (show c.readIndex < piece.length by omega), getElem_bytesOf]
    rfl
  | false =>
    rw [if_neg Bool.false_ne_true, if_neg Bool.false_ne_true, if_neg Bool.false_ne_true, List.nil_append,
      drop_two (show c.readIndex + 1 < piece.length by omega)]
    rfl

theorem assembled_turn (hn : 1 < c.nbBytes) (hsum : c.readIndex + c.nbBytes = piece.length) :
    s.assembled (s.waiting ++ piece.drop c.readIndex) =
      (s.shifted (bytesOf piece) c.readIndex).1 ::
        (s.shifted (bytesOf piece) c.readIndex).2.assembled (piece.drop (c.readIndex + s.taken)) := by
  rw [waiting_drop hn hsum]
  have hs : s.assembled (s.leading (bytesOf piece) c.readIndex :: bytesOf piece (c.readIndex + s.taken - 1) ::
      piece.drop (c.readIndex + s.taken)) = ({ s with isThereABytePending := false } : PiafsFrm).assembled
        (s.leading (bytesOf piece) c.readIndex :: bytesOf piece (c.readIndex + s.taken - 1) :: piece.drop
          (c.readIndex + s.taken)) := by
    refine assembled_congr ?_ ?_ _
    · rfl
    · rfl
  rw [hs, assembled]
  rfl

theorem frameOk_shifted (data : Nat → Octet) (i : Nat) (bytes : List Octet) :
    (s.FrameOk (s.aligned bytes) ↔ (s.shifted data i).2.FrameOk ((s.shifted data i).2.aligned bytes)) ∧
      s.toCome = (s.shifted data i).2.toCome := by
  obtain ⟨r, hr⟩ := s.shifted_state data i
  rw [hr]
  have hal : s.aligned bytes = ({ s with isThereABytePending := false, preShiftRegister := r } : PiafsFrm).aligned bytes := by
    refine aligned_congr ?_ ?_ bytes
    · rfl
    · rfl
  rw [hal]
  exact ⟨Iff.rfl, rfl⟩

theorem front_shift {u : PiafsFrm} (h : s'.front = u.front) (bytes : List Octet) : u.assembled bytes = s'.assembled bytes := by
  unfold front at h
  simp only [Prod.mk.injEq] at h
  exact assembled_congr h.2.2.2.1.symm h.2.2.2.2.1.symm bytes

theorem InFrame.turn (h : InFrame piece s c) (hv : Valid s) (hsum : c.readIndex + c.nbBytes = piece.length)
    (ht : turn (bytesOf piece) piece.length (s, c) = .inl (s', c')) (hleft : s'.isThereABytePending = false) :
    InFrame piece s' c' ∨ Over s' c' := by
  obtain ⟨hn, hcases⟩ := turn_cases hv.on ht
  obtain ⟨hv', hstate, -, -, -⟩ := hv.shifted (bytesOf piece) c.readIndex
  have hframe := h.frame
  obtain ⟨hok, hcome⟩ := frameOk_shifted (s := s) (bytesOf piece) c.readIndex
    ((s.shifted (bytesOf piece) c.readIndex).1 ::
      (s.shifted (bytesOf piece) c.readIndex).2.assembled (piece.drop (c.readIndex + s.taken)))
  rw [assembled_turn hn hsum, hok, hcome] at hframe
  have hwait := waiting_taken s
  have hnone := waiting_none hleft
  have hst := h.state
  rw [← hstate] at hst
  rcases hcases with ⟨hs, -⟩ | ⟨rfl, ⟨hs, -⟩ | hcases⟩
  · rw [hs] at hst
    simp at hst
  · rw [hs] at hst
    simp at hst
  generalize (s.shifted (bytesOf piece) c.readIndex).2 = u at hcases hv' hframe
  generalize (s.shifted (bytesOf piece) c.readIndex).1 = x at hcases hframe
  have hnb : (c.advance s.taken).nbBytes = c.nbBytes - s.taken := rfl
  have hread : (c.advance s.taken).readIndex = c.readIndex + s.taken := rfl
  have hnext : (s'.rxState = .data ∨ s'.rxState = .crc) → u.toCome = s'.toCome + 1 →
      (u.FrameOk (u.aligned (x :: u.assembled (piece.drop (c.readIndex + s.taken)))) ↔
        s'.FrameOk (s'.aligned (u.assembled (piece.drop (c.readIndex + s.taken))))) →
      s'.front = u.front → InFrame piece s' (c.advance s.taken) := by
    intro hst' hcome' hok' hfront
    refine ⟨hst', ?_, ?_⟩
    · rw [hleft]
      nofun
    · rw [hnone, hread, List.nil_append, ← front_shift hfront, ← hok']
      exact hframe.imp_left fun hle => by
        rw [List.length_nil, hnb]
        omega
  rcases hcases with ⟨hs, rfl⟩ | ⟨hs, hd, rfl⟩
  · left
    obtain ⟨hok', hcome'⟩ := frameOk_data hs (hv'.data hs) x (u.assembled (piece.drop (c.readIndex + s.taken)))
    refine hnext ?_ hcome' hok' (front_dataTurn u x)
    rcases dataTurn_place u x hs (hv'.data hs) with ⟨h1, -⟩ | ⟨h1, -⟩
    · exact Or.inl h1
    · exact Or.inr h1
  · have hp := hv'.synced (by rw [hs]; decide)
    obtain ⟨hidx, hnum⟩ := hv'.crc hs
    rcases crcTurn_place u x hs hp hnum hd with ⟨h1, -, -, h4⟩ | ⟨h1, -, h3⟩
    · obtain ⟨hok', hcome'⟩ := frameOk_crc hs hidx h4 x (u.assembled (piece.drop (c.readIndex + s.taken)))
      exact Or.inl (hnext (Or.inr h1) hcome' hok' (front_crcTurn u x))
    · obtain ⟨hok', hcome'⟩ := frameOk_last hs hidx h3 x (u.assembled (piece.drop (c.readIndex + s.taken)))
      refine Or.inr ⟨h1, (front_previous (front_crcTurn u x)).2.2.trans hp, hleft, ?_⟩
      rw [hok', hd] at hframe
      have hle := hframe.resolve_right Bool.false_ne_true
      rw [hnb]
      omega

/-- What holds in every turn of the call for a piece. -/
structure Follows (D : Nat → Octet) (N o : Nat) (piece : List Octet) (u t : PiafsFrm × Cursor) : Prop where
  inside : Inside piece.length u
  kept : Kept D N (o + u.2.readIndex) u.1 t
  part : Ahead o piece u.1 u.2 t ∨ InFrame piece u.1 u.2 ∨ Over u.1 u.2

theorem Follows.samePlace {u : PiafsFrm × Cursor} (h : Follows D N o piece u t) (hn : 1 < u.2.nbBytes)
    (hs : u.1.rxState = .preHunt) :
    SamePlace (bytesOf piece) o piece.length u.1 u.2 t := by
  rcases h.part with ha | hf | hover
  · exact ha.samePlace h.inside.valid h.inside.placed h.inside.sum hn hs
  · rcases hf.state with hs' | hs'
    · rw [hs] at hs'
      cases hs'
    · rw [hs] at hs'
      cases hs'
  · have := hover.nbBytes
    omega

theorem Follows.turn {u u' : PiafsFrm × Cursor} (h : Follows D N o piece u t)
    (hdata : ∀ i < piece.length, D (o + i) = bytesOf piece i)
    (hle : o + piece.length ≤ N) (ht : turn (bytesOf piece) piece.length u = .inl u') :
    ∃ t', PiafsFrm.turn D N t = .inl t' ∧ Follows D N o piece u' t' := by
  obtain ⟨s, c⟩ := u
  obtain ⟨s', c'⟩ := u'
  have hsum := h.inside.sum
  obtain ⟨t', hturn, hkept, hplace⟩ := h.kept.turn h.inside.valid hdata hle hsum h.samePlace ht
  have hleft := (turn_placed h.inside.valid h.inside.placed ht).2
  refine ⟨t', hturn, h.inside.turn ht, hkept, ?_⟩
  rcases h.part with ha | hf | hover
  · exact Or.inl (ha.turn h.inside.valid hsum ht hleft hplace)
  · exact Or.inr (hf.turn h.inside.valid hsum ht hleft)
  · have hn := (turn_cases h.inside.valid.on ht).1
    have hle := hover.nbBytes
    dsimp only at hle
    omega

end Piece

end Divas.Tty.Piafs
