/-
  Divas.Queue.MsgQueueSpace — what the message queue says of its free space.

  `queueSpace` answers for one message, `queueGetFree` for messages of one size and one
  more behind them. Both compute anew what `queueAllocMsg` will find. A size is passed to
  `queueAllocMsg` as a `word`, and so is what it needs with its head.

  Proved, for every state that a run reaches:
  - `queueSpace` is true exactly when `queueAllocMsg` returns a place, and the message
    lies inside the queue and apart from the live ones exactly when the room that was found for the
    low 16 bits of its need holds all of it (`space_predicts`);
  - the messages that `queueGetFree` counts are accepted, and then one of as many bytes as
    it returns, if there are any (`free_achieved`).
-/

import Divas.Queue.MsgQueueFifo

namespace Divas.Queue

open Divas.Lib.Bytes Divas.Lib.Blocks Divas.Lib.Run Divas.Capi

variable {P : PtrSize}

/-! ## Sizes as words -/

theorem msgNeed_word (P : PtrSize) (n : Nat) : msgNeed P (n % 65536) % 65536 = msgNeed P n % 65536 := by
  cases P <;> simp only [msgNeed, PtrSize.bytes] <;> omega

theorem bytes_dvd_msgNeed (P : PtrSize) (n : Nat) : P.bytes ∣ msgNeed P n := Nat.dvd_mul_left _ _

theorem bytes_dvd_roundDown (P : PtrSize) (n : Nat) : P.bytes ∣ roundDown P n := Nat.dvd_mul_left _ _

theorem roundDown_le (P : PtrSize) (n : Nat) : roundDown P n ≤ n := Nat.div_mul_le_self _ _

/-- A message that fills a room of whole units. -/
theorem msgNeed_sub {n : Nat} (hd : P.bytes ∣ n) (hn : P.bytes < n) : msgNeed P (n - P.bytes) = n := by
  obtain ⟨k, rfl⟩ := hd
  cases P <;> simp only [msgNeed, PtrSize.bytes] at hn ⊢ <;> omega

/-! ## `queueSpace` -/

/-- The room that is found for the low 16 bits of what a message needs holds all of it. -/
def RoomKept (P : PtrSize) (q : MsgQueue) (size : Nat) : Prop :=
  let need := msgNeed P size
  let cut := need % 65536
  if q.tail = q.head then q.wrap = none → cut ≤ q.size → need ≤ q.size
  else if q.head < q.tail then
    if q.tail + cut ≤ q.size then q.tail + need ≤ q.size else cut ≤ q.head → need ≤ q.head
  else q.tail + cut ≤ q.head → q.tail + need ≤ q.head

/-- The block of a message with its head, inside the queue and apart from the live ones. -/
def Placed (P : PtrSize) (s : QueueSt) (off need : Nat) : Prop :=
  off + need ≤ s.q.size ∧ ∀ m, m ∈ s.live → off + need ≤ m.off ∨ m.stop P ≤ off

/-- `queueSpace` says whether there is a place, and the place is right. -/
def Predicts (P : PtrSize) (s : QueueSt) (size : Nat) : Prop :=
  (queueSpace P s.q size = true ↔ (queueAllocMsg P s.q size).isSome = true) ∧
  ∀ q' p, queueAllocMsg P s.q size = some (q', p) → ∃ off, p = off + P.bytes ∧ Placed P s off (msgNeed P size)

theorem roomKept_of_lt {q : MsgQueue} {size : Nat} (h : msgNeed P size < 65536) : RoomKept P q size := by
  unfold RoomKept
  simp only [Nat.mod_eq_of_lt h]
  split
  · exact fun _ h => h
  · split
    · split
      · assumption
      · exact id
    · exact id

variable {s : QueueSt} {q : MsgQueue} {live : List Msg}

/-- A block behind the last message, in front of `e`. -/
theorem Layout.placed_tail (h : Layout P q live) {need : Nat} :
    (q.tail + need ≤ q.size ∧ ∀ m, m ∈ live → q.tail + need ≤ m.off ∨ m.stop P ≤ q.tail) ↔
      if q.head ≤ q.tail ∧ q.wrap = none then q.tail + need ≤ q.size else q.tail + need ≤ q.head := by
  cases h with
  | straight hw hc ht h0 =>
    have hle := hc.le
    rw [if_pos ⟨hle, hw⟩]
    exact ⟨fun hp => hp.1, fun hp => ⟨hp, fun m hm => Or.inr (hc.bounds hm).2.2⟩⟩
  | wrapped e as bs hw hl ha hb hca he hcb ht =>
    have hlt := hca.lt ha
    rw [if_neg (by simp [hw])]
    constructor
    · intro hp
      -- The oldest message is at `Head`.
      obtain ⟨a, as, rfl⟩ := List.exists_cons_of_ne_nil ha
      have hoff := hca.1
      have hstop := hca.2.1
      rcases hp.2 a (by simp [hl]) with hfront | hback
      · omega
      · omega
    · intro hp
      refine ⟨by omega, fun m hm => ?_⟩
      rw [hl, List.mem_append] at hm
      rcases hm with hm | hm
      · have := (hca.bounds hm).1
        omega
      · exact Or.inr (hcb.bounds hm).2.2

/-- A block at `Base`, when the messages lie in one row. -/
theorem Layout.placed_base (h : Layout P q live) (hlt : q.head < q.tail) {need : Nat} :
    (0 + need ≤ q.size ∧ ∀ m, m ∈ live → 0 + need ≤ m.off ∨ m.stop P ≤ 0) ↔ need ≤ q.head := by
  cases h with
  | straight hw hc ht h0 =>
    constructor
    · intro hp
      cases live with
      | nil => exact absurd hc (Nat.ne_of_lt hlt)
      | cons a rest =>
        have hoff := hc.1
        have hstop := hc.2.1
        rcases hp.2 a (by simp) with hfront | hback <;> omega
    · intro hn
      refine ⟨by omega, fun m hm => ?_⟩
      have := (hc.bounds hm).1
      omega
  | wrapped e as bs hw hl ha hb hca he hcb ht => omega

theorem predicts_some {size : Nat} (off : Nat) {q' : MsgQueue} (ha : queueAllocMsg P s.q size = some (q', off + P.bytes)) :
    Predicts P s size ↔ Placed P s off (msgNeed P size) := by
  constructor
  · intro h
    obtain ⟨off', heq, hp⟩ := h.2 q' _ ha
    rwa [Nat.add_right_cancel heq]
  · intro h
    refine ⟨by rw [queueSpace_eq], fun q'' p hp => ?_⟩
    rw [ha, Option.some.injEq, Prod.mk.injEq] at hp
    exact ⟨off, hp.2.symm, h⟩

theorem predicts_none {size : Nat} (ha : queueAllocMsg P s.q size = none) : Predicts P s size :=
  ⟨by rw [queueSpace_eq], fun q' p hp => by rw [ha] at hp; cases hp⟩

theorem Layout.predicts_iff (h : Layout P s.q s.live) (size : Nat) : Predicts P s size ↔ RoomKept P s.q size := by
  have htail := @Layout.placed_tail P s.q s.live h (msgNeed P size)
  unfold RoomKept
  simp only
  split
  · rename_i heq
    cases hw : s.q.wrap with
    | some e =>
      have hnone : queueAllocMsg P s.q size = none := by simp [queueAllocMsg, heq, hw]
      simp [predicts_none hnone]
    | none =>
      -- The queue is empty, and the message goes to `Base`.
      have hhead : s.q.head = 0 := by
        cases h with
        | straight hw' hc ht h0 => exact h0 (hc.nil_iff.2 heq.symm)
        | wrapped e as bs hw' => rw [hw'] at hw; cases hw
      rw [if_pos ⟨Nat.le_of_eq heq.symm, hw⟩] at htail
      by_cases hfit : msgNeed P size % 65536 ≤ s.q.size
      · have hsome : queueAllocMsg P s.q size = some (s.q.alloc P size (msgNeed P size % 65536)) := by
          simp [queueAllocMsg, heq, hw, Nat.not_lt.2 hfit]
        rw [predicts_some _ hsome, Placed, htail]
        have htail0 : s.q.tail = 0 := heq.trans hhead
        simp [hfit, htail0]
      · have hnone : queueAllocMsg P s.q size = none := by simp [queueAllocMsg, heq, hw, Nat.not_le.1 hfit]
        simp [predicts_none hnone, hfit]
  · rename_i hne
    split
    · rename_i hlt
      have hw : s.q.wrap = none := by
        cases h with
        | straight hw => exact hw
        | wrapped e as bs hw hl ha hb hca he hcb ht => omega
      rw [if_pos ⟨Nat.le_of_lt hlt, hw⟩] at htail
      by_cases hfit : s.q.tail + msgNeed P size % 65536 ≤ s.q.size
      · have hsome : queueAllocMsg P s.q size = some (s.q.alloc P size (msgNeed P size % 65536)) := by
          simp [queueAllocMsg, hne, hlt, hfit]
        rw [predicts_some _ hsome, Placed, htail, if_pos hfit]
      · rw [if_neg hfit]
        by_cases hroom : msgNeed P size % 65536 ≤ s.q.head
        · have hsome : queueAllocMsg P s.q size =
              some (({ s.q with wrap := some s.q.tail, tail := 0 } : MsgQueue).alloc P size (msgNeed P size % 65536)) := by
            simp [queueAllocMsg, hne, hlt, hfit, Nat.not_lt.2 hroom]
          rw [predicts_some 0 hsome, Placed, h.placed_base hlt]
          simp [hroom]
        · have hnone : queueAllocMsg P s.q size = none := by
            simp [queueAllocMsg, hne, hlt, hfit, Nat.not_le.1 hroom]
          simp [predicts_none hnone, hroom]
    · rename_i hge
      have hw : ¬ (s.q.head ≤ s.q.tail ∧ s.q.wrap = none) := by omega
      rw [if_neg hw] at htail
      by_cases hroom : s.q.tail + msgNeed P size % 65536 ≤ s.q.head
      · have hsome : queueAllocMsg P s.q size = some (s.q.alloc P size (msgNeed P size % 65536)) := by
          simp [queueAllocMsg, hne, hge, Nat.not_lt.2 hroom]
        rw [predicts_some _ hsome, Placed, htail]
        simp [hroom]
      · have hnone : queueAllocMsg P s.q size = none := by simp [queueAllocMsg, hne, hge, Nat.not_le.1 hroom]
        simp [predicts_none hnone, hroom]

/-- In every run of messages below 0x8000 bytes, and for every size: `queueSpace` predicts
    what `queueAllocMsg` does, and the message gets a right place, exactly when the room
    that is found for the low 16 bits of its need holds all of it. -/
theorem space_predicts {buffer : Mem} {sizeBuffer : UInt32} {es : List QueueEv}
    (hv : Along (QueueSt.step P) (QueueSt.Valid P) (QueueSt.start buffer sizeBuffer) es) (size : UInt16) :
    let s := run (QueueSt.step P) (QueueSt.start buffer sizeBuffer) es
    Predicts P s size.toNat ↔ RoomKept P s.q size.toNat :=
  (Holds.run hv).layout.predicts_iff size.toNat

theorem space_predicts_wrapRun : Predicts .eight (run (QueueSt.step .eight) (QueueSt.start (fun _ => 0) 40) wrapRun) 8 :=
  (space_predicts (show Along (QueueSt.step .eight) (QueueSt.Valid .eight) (QueueSt.start (fun _ => 0) 40) wrapRun by
    decide +kernel) 8).2 (roomKept_of_lt (by decide))

/-- A message of 0x8000 bytes, whose head cannot say its size, is left alone in the queue. -/
def longRun : List QueueEv := [.alloc 0x8000, .freeTail]

theorem longRun_live : ∃ d : List UInt8, d.length = 0x8000 ∧
    (run (QueueSt.step .eight) (QueueSt.start (fun _ => 0) 40000) longRun).live = [⟨0, d, false⟩] := by
  refine ⟨load (store (fun _ => 0) 0 (leBytes 4 (0x8000 ||| msgIncomplete))) 8 0x8000, load_length _ _ _, ?_⟩
  simp [longRun, QueueSt.step, QueueSt.accept, QueueSt.start, queueInit, queueAllocMsg, MsgQueue.alloc, msgNeed, PtrSize.bytes]

/-- An empty queue of 16 bytes has a place for 65535 bytes. Behind a message of 0x8000
    bytes a place is returned that lies in this message. -/
theorem space_overflows : ¬ Predicts .eight (QueueSt.start (fun _ => 0) 16) 0xffff ∧
    ¬ Predicts .eight (run (QueueSt.step .eight) (QueueSt.start (fun _ => 0) 40000) longRun) 1 := by
  constructor
  · intro h
    have hkept := ((@Holds.start .eight (fun _ => 0) 16).layout.predicts_iff 0xffff).1 h
    simp [RoomKept, QueueSt.start, queueInit, msgNeed, PtrSize.bytes] at hkept
  · intro h
    have htail : (run (QueueSt.step .eight) (QueueSt.start (fun _ => 0) 40000) longRun).q.tail = 8 := by decide +kernel
    have hhead : (run (QueueSt.step .eight) (QueueSt.start (fun _ => 0) 40000) longRun).q.head = 0 := rfl
    have hsize : (run (QueueSt.step .eight) (QueueSt.start (fun _ => 0) 40000) longRun).q.size = 40000 := rfl
    obtain ⟨d, hd, hlive⟩ := longRun_live
    generalize run (QueueSt.step .eight) (QueueSt.start (fun _ => 0) 40000) longRun = s at h htail hhead hsize hlive
    have hsome : queueAllocMsg .eight s.q 1 = some (s.q.alloc .eight 1 16) := by
      simp [queueAllocMsg, htail, hhead, hsize, msgNeed, PtrSize.bytes]
    obtain ⟨off, hoff, -, hp⟩ := h.2 _ _ hsome
    have hlong := hp _ (by rw [hlive]; exact List.mem_singleton_self _)
    simp only [htail, PtrSize.bytes] at hoff
    simp only [Msg.stop, hd, msgNeed, PtrSize.bytes] at hlong
    omega

/-! ## `queueGetFree` -/

/-- Positions are whole units. -/
structure Aligned (P : PtrSize) (q : MsgQueue) : Prop where
  head : P.bytes ∣ q.head
  tail : P.bytes ∣ q.tail

theorem bytes_dvd_word (P : PtrSize) (n : Nat) : P.bytes ∣ msgNeed P n % 65536 :=
  (Nat.dvd_mod_iff (by cases P <;> decide)).2 (bytes_dvd_msgNeed P n)

theorem Aligned.alloc (h : Aligned P q) {size p : Nat} {q' : MsgQueue} (ha : queueAllocMsg P q size = some (q', p)) :
    Aligned P q' := by
  have hneed := bytes_dvd_word P size
  have htail : P.bytes ∣ q.tail + msgNeed P size % 65536 := Nat.dvd_add h.tail hneed
  unfold queueAllocMsg at ha
  simp only at ha
  split at ha
  · split at ha
    · cases ha
    · cases ha
      exact ⟨h.head, htail⟩
  · split at ha
    · split at ha
      · cases ha
        exact ⟨h.head, htail⟩
      · split at ha
        · cases ha
        · cases ha
          exact ⟨h.head, by simpa [MsgQueue.alloc] using hneed⟩
    · split at ha
      · cases ha
      · cases ha
        exact ⟨h.head, htail⟩

theorem Aligned.write (h : Aligned P q) {data : List UInt8} {p : Nat} {q' : MsgQueue}
    (hw : queueWriteMsg P q data = some (q', p)) : Aligned P q' := by
  unfold queueWriteMsg at hw
  cases ha : queueAllocMsg P q data.length with
  | none => simp [ha] at hw
  | some r =>
    rw [ha] at hw
    cases hw
    have hr := h.alloc ha
    exact ⟨hr.head, hr.tail⟩

theorem Aligned.step (h : Aligned P s.q) (e : QueueEv) : Aligned P (s.step P e).q := by
  cases e with
  | alloc size =>
    show Aligned P (s.accept P _ false (queueAllocMsg P s.q size)).q
    cases ha : queueAllocMsg P s.q size with
    | none => exact h
    | some r => exact h.alloc ha
  | write data =>
    show Aligned P (s.accept P _ true (queueWriteMsg P s.q data)).q
    cases hw : queueWriteMsg P s.q data with
    | none => exact h
    | some r => exact h.write hw
  | fill p k bs => exact ⟨h.head, h.tail⟩
  | complete p => exact ⟨h.head, h.tail⟩
  | peek => exact h
  | free =>
    have hhead : P.bytes ∣ s.q.head + msgNeed P (msgSize (dword s.q.mem s.q.head) % 65536) :=
      Nat.dvd_add h.head (bytes_dvd_msgNeed P _)
    show Aligned P (queueFreeMsg P s.q)
    unfold queueFreeMsg
    simp only
    split <;> split
    · exact ⟨Nat.dvd_zero _, h.tail⟩
    · exact ⟨hhead, h.tail⟩
    · exact ⟨Nat.dvd_zero _, Nat.dvd_zero _⟩
    · exact ⟨hhead, h.tail⟩
  | freeTail =>
    show Aligned P (queueFreeTail P s.q).1
    unfold queueFreeTail
    split
    · exact h
    · exact ⟨h.head, Nat.dvd_add h.head (bytes_dvd_msgNeed P _)⟩
  | reset => exact ⟨Nat.dvd_zero _, Nat.dvd_zero _⟩

/-- Room for `n` bytes of messages that take at most `s` each: in one piece, or for whole
    messages behind the last one and for the rest at `Base`. -/
inductive Room (q : MsgQueue) (s n : Nat) : Prop where
  | front (h : q.tail + n ≤ q.head)
  | behind (hle : q.head ≤ q.tail) (hw : q.tail = q.head → q.wrap = none) (h : q.tail + n ≤ q.size)
  | both (m k : Nat) (hn : n = m + k) (hlt : q.head < q.tail) (hm : s ∣ m) (h : q.tail + m ≤ q.size) (hk : k ≤ q.head)

variable {n r : Nat}

/-- A message in this room is accepted, and the room is less by `r`. -/
theorem Room.alloc (h : Room q r n) {size : Nat} (hn : 0 < n) (hr : msgNeed P size % 65536 ≤ r)
    (hfit : msgNeed P size % 65536 ≤ n) :
    ∃ q' p, queueAllocMsg P q size = some (q', p) ∧ (r ≤ n → Room q' r (n - r)) := by
  cases h with
  | front h =>
    have hsome : queueAllocMsg P q size = some (q.alloc P size (msgNeed P size % 65536)) := by
      simp [queueAllocMsg, show ¬ q.tail = q.head by omega, show ¬ q.head < q.tail by omega,
        show ¬ q.head < q.tail + msgNeed P size % 65536 by omega]
    refine ⟨_, _, hsome, fun hle => .front ?_⟩
    show q.tail + msgNeed P size % 65536 + (n - r) ≤ q.head
    omega
  | behind hle hw h =>
    have hsome : queueAllocMsg P q size = some (q.alloc P size (msgNeed P size % 65536)) := by
      by_cases heq : q.tail = q.head
      · simp [queueAllocMsg, heq, hw heq, show ¬ q.size < msgNeed P size % 65536 by omega]
      · simp [queueAllocMsg, heq, show q.head < q.tail by omega, show q.tail + msgNeed P size % 65536 ≤ q.size by omega]
    refine ⟨_, _, hsome, fun hrn => .behind ?_ (fun heq => ?_) ?_⟩
    · show q.head ≤ q.tail + msgNeed P size % 65536
      omega
    · have heq' : q.tail + msgNeed P size % 65536 = q.head := heq
      exact hw (by omega)
    · show q.tail + msgNeed P size % 65536 + (n - r) ≤ q.size
      omega
  | both m k hmk hlt hm h hk =>
    by_cases hfitm : q.tail + msgNeed P size % 65536 ≤ q.size
    · have hsome : queueAllocMsg P q size = some (q.alloc P size (msgNeed P size % 65536)) := by
        simp [queueAllocMsg, show ¬ q.tail = q.head by omega, hlt, hfitm]
      refine ⟨_, _, hsome, fun hrn => ?_⟩
      have hlt' : q.head < q.tail + msgNeed P size % 65536 := by omega
      by_cases hm0 : m = 0
      · refine .both 0 (n - r) (by omega) hlt' (Nat.dvd_zero _) hfitm ?_
        show n - r ≤ q.head
        omega
      · have hrm := Nat.le_of_dvd (Nat.pos_of_ne_zero hm0) hm
        refine .both (m - r) k (by omega) hlt' (Nat.dvd_sub hm (Nat.dvd_refl r)) ?_ hk
        show q.tail + msgNeed P size % 65536 + (m - r) ≤ q.size
        omega
    · -- What is left behind the last message is less than one needs: it wraps.
      have hm0 : m = 0 := by
        by_contra hne
        have := Nat.le_of_dvd (Nat.pos_of_ne_zero hne) hm
        omega
      have hsome : queueAllocMsg P q size =
          some (({ q with wrap := some q.tail, tail := 0 } : MsgQueue).alloc P size (msgNeed P size % 65536)) := by
        simp [queueAllocMsg, show ¬ q.tail = q.head by omega, hlt, hfitm, show ¬ q.head < msgNeed P size % 65536 by omega]
      refine ⟨_, _, hsome, fun hrn => .front ?_⟩
      show 0 + msgNeed P size % 65536 + (n - r) ≤ q.head
      omega

theorem Room.write (h : Room q r n) (data : List UInt8) (hn : 0 < n) (hr : msgNeed P data.length % 65536 ≤ r)
    (hfit : msgNeed P data.length % 65536 ≤ n) :
    ∃ q' p, queueWriteMsg P q data = some (q', p) ∧ (r ≤ n → Room q' r (n - r)) := by
  obtain ⟨q', p, ha, hroom⟩ := h.alloc hn hr hfit
  unfold queueWriteMsg
  rw [ha]
  refine ⟨_, p, rfl, fun hrn => ?_⟩
  cases hroom hrn with
  | front h => exact .front h
  | behind hle hw h => exact .behind hle hw h
  | both m k hmk hlt hm h hk => exact .both m k hmk hlt hm h hk

/-- One write after the other. -/
def writeAll (P : PtrSize) : MsgQueue → List (List UInt8) → Option MsgQueue
  | q, [] => some q
  | q, data :: rest =>
    match queueWriteMsg P q data with
    | some (q, _) => writeAll P q rest
    | none => none

/-- All messages of a size have room when the room is for so many. -/
theorem Room.writeAll (h : Room q r n) (hr : 0 < r) {ds : List (List UInt8)}
    (hds : ∀ d, d ∈ ds → msgNeed P d.length % 65536 ≤ r) (hn : ds.length * r ≤ n) :
    ∃ q', writeAll P q ds = some q' ∧ Room q' r (n - ds.length * r) := by
  induction ds generalizing q n with
  | nil => exact ⟨q, rfl, by simpa using h⟩
  | cons d ds ih =>
    have hmul : (ds.length + 1) * r = ds.length * r + r := Nat.succ_mul _ _
    rw [List.length_cons, hmul] at hn
    have hd := hds d (by simp)
    obtain ⟨q', p, hw, hroom⟩ := h.write d (by omega) hd (by omega)
    obtain ⟨q'', hall, hrest⟩ := ih (hroom (by omega)) (fun d hd => hds d (by simp [hd])) (by omega)
    refine ⟨q'', by simp [Queue.writeAll, hw, hall], ?_⟩
    rw [List.length_cons, hmul, Nat.add_comm, ← Nat.sub_sub]
    exact hrest

theorem Layout.free_bounds (h : Layout P q live) (hlt : q.head < q.tail) :
    q.tail + roundDown P (q.size - q.tail) ≤ q.size := by
  have hdown := roundDown_le P (q.size - q.tail)
  cases h with
  | straight hw hc ht h0 => omega
  | wrapped e as bs hw hl ha hb hca he hcb ht => omega

theorem Aligned.freeBytes (h : Aligned P q) (splitSize : Nat) : P.bytes ∣ freeBytes P q splitSize := by
  have hs : P.bytes ∣ msgNeed P splitSize % 4294967296 :=
    (Nat.dvd_mod_iff (by cases P <;> decide)).2 (bytes_dvd_msgNeed P _)
  have hn := bytes_dvd_roundDown P (q.size - q.tail)
  unfold Queue.freeBytes
  simp only
  split
  · split
    · exact Nat.dvd_zero _
    · exact bytes_dvd_roundDown P _
  · split
    · exact Nat.dvd_sub h.head h.tail
    · split
      · split
        · exact h.head
        · exact hn
      · split
        · exact Nat.dvd_add (Nat.dvd_sub hn ((Nat.dvd_mod_iff hs).2 hn)) h.head
        · exact hn

/-- The room that `queueGetFree` found. -/
theorem Layout.room (h : Layout P q live) (splitSize r : Nat)
    (hr : 0 < splitSize → r = msgNeed P splitSize % 4294967296) : Room q r (freeBytes P q splitSize) := by
  unfold freeBytes
  simp only
  split
  · rename_i heq
    cases hw : q.wrap with
    | some e => exact .front (Nat.le_of_eq heq)
    | none =>
      have hhead : q.head = 0 := by
        cases h with
        | straight hw' hc ht h0 => exact h0 (hc.nil_iff.2 heq.symm)
        | wrapped e as bs hw' => rw [hw'] at hw; cases hw
      have := roundDown_le P q.size
      exact .behind (Nat.le_of_eq heq.symm) (fun _ => hw) (by simp; omega)
  · rename_i hne
    split
    · exact .front (by omega)
    · rename_i hge
      have hlt : q.head < q.tail := by omega
      have hfree := h.free_bounds hlt
      split
      · split
        · exact .both 0 q.head (by omega) hlt (Nat.dvd_zero _) (by omega) (Nat.le_refl _)
        · exact .behind (Nat.le_of_lt hlt) (fun heq => absurd heq hne) hfree
      · rename_i hsplit
        rw [← hr (Nat.pos_of_ne_zero hsplit)]
        split
        · exact .both _ q.head rfl hlt (Nat.dvd_sub_mod _) (by omega) (Nat.le_refl _)
        · exact .behind (Nat.le_of_lt hlt) (fun heq => absurd heq hne) hfree

/-- One more message in what is left. -/
theorem Room.rest (h : Room q r n) (hd : P.bytes ∣ n) (hn : P.bytes < n) (hnr : n ≤ r) {data : List UInt8}
    (hdata : data.length = (n - P.bytes) % 65536) : (queueWriteMsg P q data).isSome = true := by
  have hneed : msgNeed P data.length % 65536 = n % 65536 := by rw [hdata, msgNeed_word, msgNeed_sub hd hn]
  have hmod := Nat.mod_le n 65536
  obtain ⟨q', p, hw, -⟩ := h.write data (by omega) (by rw [hneed]; omega) (by rw [hneed]; exact hmod)
  rw [hw]
  rfl

theorem run_aligned {buffer : Mem} {sizeBuffer : UInt32} (es : List QueueEv) :
    Aligned P (run (QueueSt.step P) (QueueSt.start buffer sizeBuffer) es).q :=
  run_invariant (QueueSt.step P) (I := fun s => Aligned P s.q) (fun _ e h => h.step e) ⟨Nat.dvd_zero _, Nat.dvd_zero _⟩ es

/-- In every run: if `queueGetFree` returns `f` and counts `c` messages of `splitSize`
    bytes, then `c` of them are accepted and behind them one of `f` bytes, if `f` is not 0;
    for `splitSize` 0 one of `f` bytes alone, if `f` is not 0. A size is passed as a `word`. -/
theorem free_achieved {buffer : Mem} {sizeBuffer : UInt32} {es : List QueueEv}
    (hv : Along (QueueSt.step P) (QueueSt.Valid P) (QueueSt.start buffer sizeBuffer) es)
      (splitSize splitCount : UInt32) {f c : Nat} :
    let s := run (QueueSt.step P) (QueueSt.start buffer sizeBuffer) es
    queueGetFree P s.q splitSize.toNat splitCount.toNat = some (f, c) →
    (splitSize ≠ 0 → ∀ ds : List (List UInt8), ds.length = c → (∀ d, d ∈ ds → d.length = splitSize.toNat % 65536) →
      ∃ q', writeAll P s.q ds = some q' ∧
        (0 < f → ∀ d : List UInt8, d.length = f % 65536 → (queueWriteMsg P q' d).isSome = true)) ∧
    (splitSize = 0 → 0 < f → ∀ d : List UInt8, d.length = f % 65536 → (queueWriteMsg P s.q d).isSome = true) := by
  intro s hfree
  have hlayout : Layout P s.q s.live := (Holds.run hv).layout
  have haligned : Aligned P s.q := run_aligned es
  have hdvd := haligned.freeBytes splitSize.toNat
  have hfret : ∀ n f : Nat, (if P.bytes < n then n - P.bytes else 0) = f → 0 < f → P.bytes < n ∧ f = n - P.bytes := by
    intro n f hf hpos
    split at hf <;> omega
  unfold queueGetFree at hfree
  simp only at hfree
  constructor
  · intro hsplit ds hlen hds
    have hsplit' : splitSize.toNat ≠ 0 := fun h => hsplit (UInt32.toNat_inj.1 h)
    rw [if_neg hsplit'] at hfree
    split at hfree
    · cases hfree
    rename_i hs
    rw [Option.some.injEq, Prod.mk.injEq] at hfree
    obtain ⟨hf, hc⟩ := hfree
    have hroom := hlayout.room splitSize.toNat _ (fun _ => rfl)
    have hneed : ∀ d, d ∈ ds → msgNeed P d.length % 65536 ≤ msgNeed P splitSize.toNat % 4294967296 := by
      intro d hd
      rw [hds d hd, msgNeed_word]
      omega
    have hall : ds.length * (msgNeed P splitSize.toNat % 4294967296) ≤ freeBytes P s.q splitSize.toNat := by
      rw [hlen, ← hc]
      exact Nat.div_mul_le_self _ _
    obtain ⟨q', hw, hrest⟩ := hroom.writeAll (Nat.pos_of_ne_zero hs) hneed hall
    refine ⟨q', hw, fun hpos d hd => ?_⟩
    obtain ⟨hlt, hfn⟩ := hfret _ f hf hpos
    have hmod : freeBytes P s.q splitSize.toNat - ds.length * (msgNeed P splitSize.toNat % 4294967296) =
        freeBytes P s.q splitSize.toNat % (msgNeed P splitSize.toNat % 4294967296) := by
      rw [hlen, ← hc, Nat.mul_comm]
      exact (Nat.mod_eq_sub_mul_div ..).symm
    have hsd : P.bytes ∣ msgNeed P splitSize.toNat % 4294967296 :=
      (Nat.dvd_mod_iff (by cases P <;> decide)).2 (bytes_dvd_msgNeed P _)
    rw [hmod] at hrest
    exact hrest.rest ((Nat.dvd_mod_iff hsd).2 hdvd) hlt (Nat.le_of_lt (Nat.mod_lt _ (Nat.pos_of_ne_zero hs))) (by rw [hd, hfn])
  · intro hsplit hpos d hd
    have hsplit' : splitSize.toNat = 0 := by simp [hsplit]
    rw [if_pos hsplit', Option.some.injEq, Prod.mk.injEq] at hfree
    obtain ⟨hlt, hfn⟩ := hfret _ f hfree.1 hpos
    have hroom := hlayout.room splitSize.toNat (freeBytes P s.q splitSize.toNat) (by omega)
    exact hroom.rest hdvd hlt (Nat.le_refl _) (by rw [hd, hfn])

theorem free_achieved_two : let s := run (QueueSt.step .eight) (QueueSt.start (fun _ => 0) 56) [.write [1]]
    ∃ q', writeAll .eight s.q [[1, 2, 3, 4, 5, 6, 7, 8, 9]] = some q' ∧
      (0 < 8 → ∀ d : List UInt8, d.length = 8 % 65536 → (queueWriteMsg .eight q' d).isSome = true) :=
  (@free_achieved .eight (fun _ => 0) 56 [.write [1]] (by decide +kernel) 9 0 8 1 (by decide +kernel)).1 (by decide) _ rfl
    (by decide)

/-- In a full queue `queueGetFree` returns 0 for one message, and none of 0 bytes is
    accepted, since its head has no room. -/
theorem free_full : let s := run (QueueSt.step .eight) (QueueSt.start (fun _ => 0) 16) [.write [1, 2, 3, 4, 5, 6, 7, 8]]
    queueGetFree .eight s.q 0 0 = some (0, 0) ∧ (queueWriteMsg .eight s.q []).isNone = true := by
  decide +kernel

end Divas.Queue
