/-
  Divas.Idi.IndReassembly — the buffers of a client and the data of a packet.

  Proved: for all packets and all lists of buffers that a client gives in the look ahead,
  `isdn_ind` ends, uses the entries of the list only, stores the data in order and reports
  how much it is, if and only if each indication finds the room that its turn of the loop
  needs (`isdn_ind_reassembly`). The loop has one turn for empty data, too: it goes on to the
  next buffer when the current one is full.

  Where there is no room the loop leaves `RCurrent` at `RNum`, and the next indication, or
  the end of the packet, uses the entry behind the list (`isdn_ind_behind_list`).
-/

import Mathlib.Data.List.GetD
import Divas.Lib.Run
import Divas.Lib.Segments
import Divas.Idi.Ind

namespace Divas.Idi

open Divas.Lib.Run Divas.Lib.Segments

/-! ## Buffers -/

def lengths (r : Nat → Buffers) (i : Nat) : Nat := (r i).pLength

/-- The bytes are in the buffers, one behind the other. -/
structure Holds (r0 : Nat → Buffers) (got : List UInt8) (r : Nat → Buffers) : Prop where
  null : ∀ i, (r i).p.isSome = (r0 i).p.isSome
  bytes : ∀ i k, k < (r0 i).pLength → total (lengths r0) i + k < got.length →
    ∀ p, (r i).p = some p → p k = got.getD (total (lengths r0) i + k) 0

/-- `ROffset` in the buffer `RCurrent` is the place behind the bytes. -/
structure Filled (r0 : Nat → Buffers) (rNum : Nat) (got : List UInt8) (e : RxEntity) : Prop where
  num : e.rNum = rNum
  cur : e.rCurrent < rNum
  off : e.rOffset ≤ (r0 e.rCurrent).pLength
  pos : got.length = total (lengths r0) e.rCurrent + e.rOffset
  lens : ∀ i, (e.r i).pLength = (r0 i).pLength
  holds : Holds r0 got e.r

/-- Data of `n` bytes finds its room behind `off` in the buffer `cur`. -/
def Fits (len : Nat → Nat) (rNum cur off n : Nat) : Prop :=
  if n = 0 then ¬ (off = len cur ∧ cur + 1 = rNum) else total len cur + off + n ≤ total len rNum

instance (len : Nat → Nat) (rNum cur off n : Nat) : Decidable (Fits len rNum cur off n) := by
  unfold Fits
  infer_instance

section Buffers

variable {r0 : Nat → Buffers} {rNum : Nat} {got : List UInt8} {e : RxEntity}

theorem Filled.le (h : Filled r0 rNum got e) : got.length ≤ total (lengths r0) rNum := by
  have hoff : e.rOffset ≤ lengths r0 e.rCurrent := h.off
  have hnext : total (lengths r0) e.rCurrent + lengths r0 e.rCurrent ≤ total (lengths r0) rNum := total_add_le h.cur
  rw [h.pos]
  omega

/-- The next buffer. -/
theorem Filled.next (h : Filled r0 rNum got e) (hfull : e.rOffset = (r0 e.rCurrent).pLength) (hcur : e.rCurrent + 1 < rNum) :
    Filled r0 rNum got { e with rOffset := 0, rCurrent := e.rCurrent + 1 } := by
  refine ⟨h.num, hcur, Nat.zero_le _, ?_, h.lens, h.holds⟩
  show got.length = total (lengths r0) (e.rCurrent + 1) + 0
  rw [total_succ, h.pos, hfull]
  rfl

/-- Bytes that fit into the current buffer. -/
theorem Filled.copy {s : Rx} (h : Filled r0 rNum got s.e) {chunk : List UInt8}
    (hroom : s.e.rOffset + chunk.length ≤ (r0 s.e.rCurrent).pLength) : Filled r0 rNum (got ++ chunk) (s.copy chunk).e := by
  have hpos := h.pos
  refine ⟨h.num, h.cur, hroom, ?_, ?_, ?_, ?_⟩
  · rw [List.length_append, hpos, Nat.add_assoc]
    rfl
  · intro i
    show (Function.update s.e.r s.e.rCurrent _ i).pLength = _
    by_cases hi : i = s.e.rCurrent
    · rw [hi, Function.update_self]
      exact h.lens s.e.rCurrent
    · rw [Function.update_of_ne hi]
      exact h.lens i
  · intro i
    show (Function.update s.e.r s.e.rCurrent _ i).p.isSome = _
    by_cases hi : i = s.e.rCurrent
    · rw [hi, Function.update_self, Option.isSome_map]
      exact h.holds.null s.e.rCurrent
    · rw [Function.update_of_ne hi]
      exact h.holds.null i
  · intro i k hk hlt p hp
    rw [List.length_append] at hlt
    change (Function.update s.e.r s.e.rCurrent _ i).p = some p at hp
    by_cases hi : i = s.e.rCurrent
    · subst hi
      rw [Function.update_self, Option.map_eq_some_iff] at hp
      obtain ⟨q, hq, rfl⟩ := hp
      unfold Rx.write
      by_cases hold : k < s.e.rOffset
      · rw [if_neg (by omega), h.holds.bytes s.e.rCurrent k hk (by omega) q hq, List.getD_append _ _ _ _ (by omega)]
      · rw [if_pos (by omega), List.getD_append_right _ _ _ _ (by omega)]
        congr 1
        omega
    · rw [Function.update_of_ne hi] at hp
      -- a buffer in front of the current one has all its bytes, one behind it has none of the chunk
      have hfront : total (lengths r0) i + k < got.length := by
        rcases Nat.lt_or_gt_of_ne hi with hlt' | hgt
        · have hend : total (lengths r0) i + (r0 i).pLength ≤ total (lengths r0) s.e.rCurrent := total_add_le hlt'
          omega
        · have hend : total (lengths r0) s.e.rCurrent + (r0 s.e.rCurrent).pLength ≤ total (lengths r0) i := total_add_le hgt
          omega
      rw [h.holds.bytes i k hk hfront p hp, List.getD_append _ _ _ _ hfront]

end Buffers

/-! ## The copy loop -/

/-- What the loop leaves as it is. -/
structure Same (s t : Rx) : Prop where
  calls : t.calls = s.calls
  mInd : t.e.mInd = s.e.mInd
  rnr : t.e.rnr = s.e.rnr

section Loop

variable {r0 : Nat → Buffers} {rNum : Nat} {got : List UInt8}

theorem mem_touch {s : Rx} (hcur : s.e.rCurrent < rNum) (h : ∀ i ∈ s.touched, i < rNum) : ∀ i ∈ s.touch.touched, i < rNum := by
  intro i hi
  rcases List.mem_append.mp hi with hi | hi
  · exact h i hi
  · rw [List.mem_singleton.mp hi]
    exact hcur

/-- The buffer of the turn, or the end of the list. -/
theorem Filled.nextBuffer {s : Rx} (h : Filled r0 rNum got s.e) (hnum : rNum < 256) :
    (s.nextBuffer.e.rNum = rNum ∧ Same s s.nextBuffer ∧ s.nextBuffer.touched = s.touch.touched) ∧
      ((s.nextBuffer.e.rCurrent = rNum ∧ s.e.rOffset = (r0 s.e.rCurrent).pLength ∧ s.e.rCurrent + 1 = rNum) ∨
        (Filled r0 rNum got s.nextBuffer.e ∧
          ((s.nextBuffer.e.rCurrent = s.e.rCurrent + 1 ∧ s.e.rOffset = (r0 s.e.rCurrent).pLength) ∨
            (s.nextBuffer.e.rCurrent = s.e.rCurrent ∧ s.e.rOffset < (r0 s.e.rCurrent).pLength ∧
              s.nextBuffer.e.rOffset = s.e.rOffset)))) := by
  have hcur := h.cur
  have hmod : (s.e.rCurrent + 1) % 256 = s.e.rCurrent + 1 := Nat.mod_eq_of_lt (by omega)
  have hlens := h.lens s.e.rCurrent
  unfold Rx.nextBuffer
  dsimp only [Rx.touch]
  by_cases hfull : s.e.rOffset = (s.e.r s.e.rCurrent).pLength
  · rw [if_pos hfull, hmod]
    refine ⟨⟨h.num, ⟨rfl, rfl, rfl⟩, rfl⟩, ?_⟩
    by_cases hend : s.e.rCurrent + 1 = rNum
    · exact Or.inl ⟨hend, hfull.trans hlens, hend⟩
    · exact Or.inr ⟨h.next (hfull.trans hlens) (by omega), Or.inl ⟨rfl, hfull.trans hlens⟩⟩
  · rw [if_neg hfull]
    refine ⟨⟨h.num, ⟨rfl, rfl, rfl⟩, rfl⟩, Or.inr ⟨h, Or.inr ⟨rfl, ?_, rfl⟩⟩⟩
    have hoff := h.off
    omega

/-- The loop ends. It has stored the data, or `RCurrent` is behind the list. -/
theorem Filled.copyLoop (hnum : rNum < 256) (data : List UInt8) (turns : Nat) : ∀ (offset : Nat) (s : Rx) (got : List UInt8),
    Filled r0 rNum got s.e → offset ≤ data.length → data.length - offset + (rNum - s.e.rCurrent) < turns →
    (∀ i ∈ s.touched, i < rNum) →
    ∃ t, s.copyLoop data turns offset = some t ∧ Same s t ∧ (∀ i ∈ t.touched, i < rNum) ∧ t.e.rNum = rNum ∧
      ((Fits (lengths r0) rNum s.e.rCurrent s.e.rOffset (data.length - offset) ∧ Filled r0 rNum (got ++ data.drop offset) t.e) ∨
        (¬ Fits (lengths r0) rNum s.e.rCurrent s.e.rOffset (data.length - offset) ∧ t.e.rCurrent = rNum)) := by
  induction turns with
  | zero => exact fun offset s got _ _ hturns => absurd hturns (Nat.not_lt_zero _)
  | succ turns ih =>
    intro offset s got h hoffset hturns htouched
    have hcur := h.cur
    have hpos := h.pos
    obtain ⟨⟨hn, hsame, htouch⟩, hnext⟩ := h.nextBuffer hnum
    have hin : ∀ i ∈ s.nextBuffer.touched, i < rNum := by
      rw [htouch]
      exact mem_touch hcur htouched
    unfold Rx.copyLoop
    dsimp only
    rcases hnext with ⟨hend, hfull, hlast⟩ | ⟨hfill, hwhere⟩
    · -- behind the list
      rw [if_pos (by omega)]
      refine ⟨s.nextBuffer, rfl, hsame, hin, hn, Or.inr ⟨?_, hend⟩⟩
      have hcap : total (lengths r0) rNum = total (lengths r0) s.e.rCurrent + (r0 s.e.rCurrent).pLength := by
        rw [← hlast, total_succ]
        rfl
      unfold Fits
      split
      · exact not_not.mpr ⟨hfull, hlast⟩
      · omega
    · have hcur' := hfill.cur
      have hlens := hfill.lens s.nextBuffer.e.rCurrent
      have hoff' := hfill.off
      have hpos' := hfill.pos
      have hle := hfill.le
      rw [if_neg (by omega), hlens]
      generalize hc : min (data.length - offset) ((r0 s.nextBuffer.e.rCurrent).pLength - s.nextBuffer.e.rOffset) = clength
      have hchunk : ((data.drop offset).take clength).length = clength := by
        rw [List.length_take, List.length_drop]
        omega
      have hcopy : Filled r0 rNum (got ++ (data.drop offset).take clength)
          (s.nextBuffer.copy ((data.drop offset).take clength)).e :=
        hfill.copy (by omega)
      have hsame' : Same s (s.nextBuffer.copy ((data.drop offset).take clength)) := ⟨hsame.calls, hsame.mInd, hsame.rnr⟩
      have hin' : ∀ i ∈ (s.nextBuffer.copy ((data.drop offset).take clength)).touched, i < rNum := mem_touch hcur' hin
      have hcap : total (lengths r0) s.nextBuffer.e.rCurrent + (r0 s.nextBuffer.e.rCurrent).pLength ≤ total (lengths r0) rNum :=
        total_add_le hcur'
      have hmoved : s.nextBuffer.e.rCurrent = s.e.rCurrent + 1 ∨
          (s.nextBuffer.e.rCurrent = s.e.rCurrent ∧ s.nextBuffer.e.rOffset < (r0 s.nextBuffer.e.rCurrent).pLength) := by
        rcases hwhere with ⟨hcur1, -⟩ | ⟨hcur0, hfree, hoff0⟩
        · exact Or.inl hcur1
        · refine Or.inr ⟨hcur0, ?_⟩
          rw [hcur0, hoff0]
          exact hfree
      by_cases hmore : offset + clength < data.length
      · rw [if_pos hmore]
        have hcopycur : (s.nextBuffer.copy ((data.drop offset).take clength)).e.rCurrent = s.nextBuffer.e.rCurrent := rfl
        have hcopyoff : (s.nextBuffer.copy ((data.drop offset).take clength)).e.rOffset = s.nextBuffer.e.rOffset + clength :=
          congrArg (s.nextBuffer.e.rOffset + ·) hchunk
        obtain ⟨t, hrun, hsame2, hin2, hn2, hcase⟩ := ih (offset + clength) _ _ hcopy (Nat.le_of_lt hmore) (by
          rw [hcopycur]
          omega) hin'
        have hfits : Fits (lengths r0) rNum s.nextBuffer.e.rCurrent (s.nextBuffer.e.rOffset + clength)
            (data.length - (offset + clength)) ↔
            Fits (lengths r0) rNum s.e.rCurrent s.e.rOffset (data.length - offset) := by
          unfold Fits
          rw [if_neg (by omega), if_neg (by omega)]
          omega
        rw [hcopycur, hcopyoff, hfits] at hcase
        refine ⟨t, hrun, ⟨hsame2.calls.trans hsame'.calls, hsame2.mInd.trans hsame'.mInd, hsame2.rnr.trans hsame'.rnr⟩,
          hin2, hn2, ?_⟩
        rcases hcase with ⟨hf, hfilled⟩ | ⟨hf, hgone⟩
        · refine Or.inl ⟨hf, ?_⟩
          rwa [List.append_assoc, ← List.drop_drop, List.take_append_drop] at hfilled
        · exact Or.inr ⟨hf, hgone⟩
      · rw [if_neg hmore]
        refine ⟨_, rfl, hsame', hin', hn, Or.inl ⟨?_, ?_⟩⟩
        · unfold Fits
          split
          · rintro ⟨hfull, hlast⟩
            rcases hwhere with ⟨hmoved, -⟩ | ⟨-, hfree, -⟩
            · omega
            · exact absurd hfull (Nat.ne_of_lt hfree)
          · omega
        · have hall : (data.drop offset).take clength = data.drop offset := by
            rw [List.take_of_length_le]
            rw [List.length_drop]
            omega
          rw [hall] at hcopy ⊢
          exact hcopy

end Loop

/-! ## The packet -/

/-- A call of `isdn_ind`; nothing, once it has not returned. -/
def step (client : RxEntity → Answer) (s : Option Rx) (x : Indication) : Option Rx :=
  s.bind fun s => (s.isdnInd client x).map (·.2)

/-- The state in front of the loop. -/
def Rx.opened (client : RxEntity → Answer) (s : Rx) (x : Indication) : Rx :=
  let s := { s with e := { s.e with indCh := x.ch } }
  if s.e.rCurrent = 0xff then
    let s := (s.lookAhead x).answered (client (s.lookAhead x).e)
    { s with e := { s.e with rCurrent := 0, rOffset := 0 } }
  else s

/-- The data of the indication finds its room. -/
def IndFits (client : RxEntity → Answer) (s : Option Rx) (x : Indication) : Prop :=
  ∃ t, s = some t ∧ Fits (lengths (t.opened client x).e.r) (t.opened client x).e.rNum (t.opened client x).e.rCurrent
    (t.opened client x).e.rOffset x.data.length

/-- The client gives buffers in each look ahead. -/
def GivesBuffers (client : RxEntity → Answer) : Prop := ∀ e, (client e).rnr = 0 ∧ 0 < (client e).rNum ∧ (client e).rNum < 256

/-- The client has been called for the look ahead and at the end. Only entries of its list have been used, they hold
    the data as far as there is room, and their lengths in the report are the bytes stored. -/
structure Reassembled (client : RxEntity → Answer) (data : List UInt8) (s : Rx) (look done : RxEntity) : Prop where
  calls : s.calls = [look, done]
  ahead : look.complete ≠ 2
  complete : done.complete = 2
  next : s.e.rCurrent = 0xff
  inList : ∀ i ∈ s.touched, i < (client look).rNum
  stored : Holds (client look).r (data.take (total (lengths (client look).r) (client look).rNum)) done.r
  reported : total (lengths done.r) done.rNum = min data.length (total (lengths (client look).r) (client look).rNum)

section Packet

variable {client : RxEntity → Answer} {look : RxEntity} {got : List UInt8} {s t : Rx} {x : Indication}

theorem isdnInd_opened (hclient : GivesBuffers client) (s : Rx) (x : Indication) :
    s.isdnInd client x = (s.opened client x).receive x := by
  unfold Rx.isdnInd Rx.opened
  dsimp only
  split
  · obtain ⟨h0, h1, -⟩ := hclient (({ s with e := { s.e with indCh := x.ch } } : Rx).lookAhead x).e
    unfold Rx.answered
    dsimp only
    rw [h0, if_neg (by decide), if_neg (fun h => Nat.ne_of_gt h1 h.2)]
  · rfl

/-- In a packet, in front of the loop. -/
structure Open (client : RxEntity → Answer) (mInd : Nat) (look : RxEntity) (got : List UInt8) (s : Rx) : Prop where
  calls : s.calls = [look]
  ahead : look.complete ≠ 2
  inList : ∀ i ∈ s.touched, i < (client look).rNum
  ready : s.e.rnr = 0
  mInd : s.e.mInd = mInd
  filled : Filled (client look).r (client look).rNum got s.e

/-- The loop has gone behind the list. -/
structure Behind (client : RxEntity → Answer) (look : RxEntity) (s : Rx) : Prop where
  calls : s.calls = [look]
  ready : s.e.rnr = 0
  num : s.e.rNum = (client look).rNum
  cur : s.e.rCurrent = (client look).rNum

/-- An entry behind the list is used, or the second call is not the one at the end. -/
def Spoilt (client : RxEntity → Answer) (s : Option Rx) : Prop :=
  ∀ t, s = some t → ∃ look rest, t.calls = look :: rest ∧
    ((∃ i ∈ t.touched, (client look).rNum ≤ i) ∨ ∃ c cs, rest = c :: cs ∧ c.complete ≠ 2)

theorem receive_open (hclient : GivesBuffers client) {mInd : Nat} (h : Open client mInd look got s) (x : Indication) :
    ∃ t, Same s t ∧ (∀ i ∈ t.touched, i < (client look).rNum) ∧ t.e.rNum = (client look).rNum ∧
      s.receive x = some (0, if x.ind ≠ mInd then t.finish x.ind else t) ∧
      ((Fits (lengths s.e.r) s.e.rNum s.e.rCurrent s.e.rOffset x.data.length ∧
          Filled (client look).r (client look).rNum (got ++ x.data) t.e) ∨
        (¬ Fits (lengths s.e.r) s.e.rNum s.e.rCurrent s.e.rOffset x.data.length ∧ t.e.rCurrent = (client look).rNum)) := by
  have hnum := h.filled.num
  have hlens : lengths s.e.r = lengths (client look).r := funext h.filled.lens
  obtain ⟨t, hrun, hsame, hin, hn, hcase⟩ := Filled.copyLoop (hclient look).2.2 x.data (x.data.length + s.e.rNum + 1) 0 s got
    h.filled (Nat.zero_le _) (by omega) h.inList
  refine ⟨t, hsame, hin, hn, ?_, ?_⟩
  · unfold Rx.receive
    rw [h.ready, if_neg (by decide), hrun, Option.map_some, hsame.mInd, h.mInd]
  · rw [hlens, hnum]
    exact hcase

theorem touch_sub (s : Rx) : s.touched <+: s.touch.touched := List.prefix_append _ _

theorem copyLoop_grows (data : List UInt8) (turns : Nat) : ∀ offset (s t : Rx), s.copyLoop data turns offset = some t →
    s.touched <+: t.touched ∧ s.e.rCurrent ∈ t.touched ∧ t.calls = s.calls := by
  induction turns with
  | zero => exact fun _ _ _ h => nomatch h
  | succ turns ih =>
    intro offset s t h
    have hnext : s.nextBuffer.touched = s.touch.touched ∧ s.nextBuffer.calls = s.calls := by
      unfold Rx.nextBuffer
      dsimp only
      split <;> exact ⟨rfl, rfl⟩
    have hmem : s.e.rCurrent ∈ s.nextBuffer.touched := by
      rw [hnext.1]
      exact List.mem_append_right _ List.mem_cons_self
    have hsub : s.touched <+: s.nextBuffer.touched := by
      rw [hnext.1]
      exact touch_sub s
    unfold Rx.copyLoop at h
    dsimp only at h
    split at h
    · cases h
      exact ⟨hsub, hmem, hnext.2⟩
    · generalize (data.drop offset).take _ = chunk at h
      have hcopy : s.nextBuffer.touched <+: (s.nextBuffer.copy chunk).touched := touch_sub s.nextBuffer
      have hcalls : (s.nextBuffer.copy chunk).calls = s.calls := hnext.2
      split at h
      · obtain ⟨h1, -, h3⟩ := ih _ _ _ h
        exact ⟨(hsub.trans hcopy).trans h1, (hcopy.trans h1).subset hmem, h3.trans hcalls⟩
      · cases h
        exact ⟨hsub.trans hcopy, hcopy.subset hmem, hcalls⟩

theorem finish_grows (s : Rx) (ind : Nat) : s.touched <+: (s.finish ind).touched ∧ s.e.rCurrent ∈ (s.finish ind).touched ∧
    ∃ done, (s.finish ind).calls = s.calls ++ [done] ∧ done.complete = 2 :=
  ⟨touch_sub s, List.mem_append_right _ List.mem_cons_self, _, rfl, rfl⟩

theorem receive_grows {c : Nat} (h : s.receive x = some (c, t)) :
    s.touched <+: t.touched ∧ s.calls <+: t.calls ∧ (s.e.rnr ≠ 2 → s.e.rCurrent ∈ t.touched) := by
  unfold Rx.receive at h
  split at h
  case isTrue h2 =>
    cases h
    split
    · exact ⟨List.prefix_rfl, List.prefix_rfl, fun hr => absurd h2 hr⟩
    · exact ⟨List.prefix_rfl, List.prefix_rfl, fun hr => absurd h2 hr⟩
  case isFalse h2 =>
    rw [Option.map_eq_some_iff] at h
    obtain ⟨u, hrun, hu⟩ := h
    obtain ⟨h1, h2, h3⟩ := copyLoop_grows _ _ _ _ _ hrun
    cases hu
    rw [← h3]
    split
    · obtain ⟨h4, -, done, h5, -⟩ := finish_grows u x.ind
      refine ⟨h1.trans h4, ?_, fun _ => h4.subset h2⟩
      rw [h5]
      exact List.prefix_append _ _
    · exact ⟨h1, List.prefix_rfl, fun _ => h2⟩

/-- What the look ahead adds. -/
theorem opened_grows (client : RxEntity → Answer) (s : Rx) (x : Indication) : (s.opened client x).touched = s.touched ∧
    ((s.e.rCurrent ≠ 0xff ∧ (s.opened client x).calls = s.calls ∧ (s.opened client x).e.rCurrent = s.e.rCurrent ∧
        (s.opened client x).e.rnr = s.e.rnr) ∨
      (s.e.rCurrent = 0xff ∧ ∃ c, (s.opened client x).calls = s.calls ++ [c] ∧ c.complete ≠ 2)) := by
  unfold Rx.opened
  dsimp only
  by_cases hcur : s.e.rCurrent = 0xff
  · rw [if_pos hcur]
    refine ⟨rfl, Or.inr ⟨hcur, _, rfl, ?_⟩⟩
    split
    · exact (by decide : 0 ≠ 2)
    · exact (by decide : 1 ≠ 2)
  · rw [if_neg hcur]
    exact ⟨rfl, Or.inl ⟨hcur, rfl, rfl, rfl⟩⟩

theorem Spoilt.of_prefix (h : Spoilt client (some s)) (htouched : s.touched <+: t.touched) (hcalls : s.calls <+: t.calls) :
    Spoilt client (some t) := by
  intro u hu
  cases hu
  obtain ⟨look, rest, hcs, hbad⟩ := h s rfl
  obtain ⟨more, hmore⟩ := hcalls
  refine ⟨look, rest ++ more, ?_, ?_⟩
  · rw [← hmore, hcs]
    rfl
  · rcases hbad with ⟨i, hi, hle⟩ | ⟨c, cs, hrest, hc⟩
    · exact Or.inl ⟨i, htouched.subset hi, hle⟩
    · exact Or.inr ⟨c, cs ++ more, by rw [hrest]; rfl, hc⟩

theorem Spoilt.step (hclient : GivesBuffers client) {s : Option Rx} (h : Spoilt client s) (x : Indication) :
    Spoilt client (step client s x) := by
  intro u hu
  cases s with
  | none => cases hu
  | some s =>
    obtain ⟨⟨c, t⟩, hrun, rfl⟩ := Option.map_eq_some_iff.mp hu
    rw [isdnInd_opened hclient] at hrun
    obtain ⟨h1, h2, -⟩ := receive_grows hrun
    obtain ⟨h3, h4⟩ := opened_grows client s x
    rw [h3] at h1
    refine h.of_prefix h1 (List.IsPrefix.trans ?_ h2) _ rfl
    rcases h4 with ⟨-, h5, -⟩ | ⟨-, c, h5, -⟩
    · exact ⟨[], (List.append_nil s.calls).trans h5.symm⟩
    · rw [h5]
      exact List.prefix_append _ _

/-- The next indication uses the entry behind the list, or begins with a look ahead. -/
theorem Behind.step (hclient : GivesBuffers client) (h : Behind client look s) (x : Indication) :
    Spoilt client (step client (some s) x) := by
  intro u hu
  obtain ⟨⟨c, t⟩, hrun, rfl⟩ := Option.map_eq_some_iff.mp hu
  rw [isdnInd_opened hclient] at hrun
  obtain ⟨h1, h2, h3⟩ := receive_grows hrun
  obtain ⟨h4, h5⟩ := opened_grows client s x
  rcases h5 with ⟨-, hcalls, hcur, hrnr⟩ | ⟨-, c', hcalls, hc'⟩
  · rw [hcalls, h.calls] at h2
    obtain ⟨more, hmore⟩ := h2
    refine ⟨look, more, hmore.symm, Or.inl ⟨s.e.rCurrent, ?_, Nat.le_of_eq h.cur.symm⟩⟩
    rw [hcur, hrnr, h.ready] at h3
    exact h3 (by decide)
  · rw [hcalls, h.calls] at h2
    obtain ⟨more, hmore⟩ := h2
    exact ⟨look, c' :: more, hmore.symm, Or.inr ⟨c', more, rfl, hc'⟩⟩

theorem Spoilt.run (hclient : GivesBuffers client) {s : Option Rx} (h : Spoilt client s) (xs : List Indication) :
    Spoilt client (run (Idi.step client) s xs) :=
  run_invariant (Idi.step client) (fun _ x hs => hs.step hclient x) h xs

/-- No report of a packet is spoilt. -/
theorem Spoilt.not_reassembled {data : List UInt8} {done : RxEntity} {s : Option Rx} (h : Spoilt client s) (hs : s = some t) :
    ¬ Reassembled client data t look done := by
  intro hr
  obtain ⟨look', rest, hcalls, hbad⟩ := h t hs
  rw [hr.calls] at hcalls
  cases hcalls
  rcases hbad with ⟨i, hi, hle⟩ | ⟨c, cs, hrest, hc⟩
  · exact absurd (hr.inList i hi) (Nat.not_lt.mpr hle)
  · cases hrest
    exact hc hr.complete

/-- The end of a packet whose data has found its room. -/
theorem Filled.finish (hclient : GivesBuffers client) (hcalls : s.calls = [look]) (hahead : look.complete ≠ 2)
    (hin : ∀ i ∈ s.touched, i < (client look).rNum) (h : Filled (client look).r (client look).rNum got s.e) (ind : Nat) :
    ∃ done, Reassembled client got (s.finish ind) look done := by
  have hle := h.le
  have hcur := h.cur
  have hnum := (hclient look).2.2
  have hmod : (s.e.rCurrent + 1) % 256 = s.e.rCurrent + 1 := Nat.mod_eq_of_lt (by omega)
  refine ⟨(s.finish ind).e, ⟨?_, hahead, rfl, rfl, mem_touch hcur hin, ?_, ?_⟩⟩
  · unfold Rx.finish Rx.call
    dsimp only [Rx.touch]
    rw [hcalls]
    rfl
  · rw [List.take_of_length_le hle]
    refine ⟨?_, ?_⟩
    · intro i
      show (Function.update s.e.r s.e.rCurrent _ i).p.isSome = _
      rw [← h.holds.null i]
      by_cases hi : i = s.e.rCurrent
      · rw [hi, Function.update_self]
        rfl
      · rw [Function.update_of_ne hi]
    · intro i k hk hlt p hp
      change (Function.update s.e.r s.e.rCurrent _ i).p = some p at hp
      refine h.holds.bytes i k hk hlt p ?_
      by_cases hi : i = s.e.rCurrent
      · rw [hi, Function.update_self] at hp
        rw [hi]
        exact hp
      · rwa [Function.update_of_ne hi] at hp
  · rw [Nat.min_eq_left hle, h.pos]
    have hfront : total (lengths (Function.update s.e.r s.e.rCurrent { s.e.r s.e.rCurrent with pLength := s.e.rOffset }))
        s.e.rCurrent =
        total (lengths (client look).r) s.e.rCurrent := by
      apply total_congr
      intro i hi
      show (Function.update s.e.r s.e.rCurrent _ i).pLength = ((client look).r i).pLength
      rw [Function.update_of_ne (Nat.ne_of_lt hi)]
      exact h.lens i
    show total (lengths (Function.update s.e.r s.e.rCurrent { s.e.r s.e.rCurrent with pLength := s.e.rOffset }))
      (if s.e.rOffset ≠ 0 then (s.e.rCurrent + 1) % 256 else s.e.rCurrent) = _
    by_cases hoff : s.e.rOffset = 0
    · rw [if_neg (not_not.mpr hoff), hfront, hoff, Nat.add_zero]
    · rw [if_pos hoff, hmod, total_succ, hfront]
      congr 1
      show (Function.update s.e.r s.e.rCurrent _ s.e.rCurrent).pLength = _
      rw [Function.update_self]

/-- Between the indications of a packet, or in front of it. -/
def Ready (client : RxEntity → Answer) (mInd : Nat) (got : List UInt8) (s : Rx) : Prop :=
  (s.e.rCurrent = 0xff ∧ s.touched = [] ∧ s.calls = [] ∧ s.e.mInd = mInd ∧ got = []) ∨ ∃ look, Open client mInd look got s

theorem Ready.opened (hclient : GivesBuffers client) {mInd : Nat} (h : Ready client mInd got s) (x : Indication) :
    ∃ look, Open client mInd look got (s.opened client x) := by
  rcases h with ⟨hcur, htouched, hcalls, hmInd, rfl⟩ | ⟨look, h⟩
  · have hopen : s.opened client x = { (({ s with e := { s.e with indCh := x.ch } } : Rx).lookAhead x).answered
        (client (({ s with e := { s.e with indCh := x.ch } } : Rx).lookAhead x).e) with
        e := { ((({ s with e := { s.e with indCh := x.ch } } : Rx).lookAhead x).answered
          (client (({ s with e := { s.e with indCh := x.ch } } : Rx).lookAhead x).e)).e with rCurrent := 0, rOffset := 0 } } := by
      unfold Rx.opened
      exact if_pos hcur
    have hmInd' : (({ s with e := { s.e with indCh := x.ch } } : Rx).lookAhead x).e.mInd = mInd := by
      unfold Rx.lookAhead
      dsimp only
      split
      · exact hmInd
      · exact hmInd
    obtain ⟨h0, h1, h2⟩ := hclient (({ s with e := { s.e with indCh := x.ch } } : Rx).lookAhead x).e
    refine ⟨(({ s with e := { s.e with indCh := x.ch } } : Rx).lookAhead x).e, ?_⟩
    rw [hopen]
    refine ⟨?_, ?_, ?_, h0, hmInd',
      ⟨rfl, h1, Nat.zero_le _, rfl, fun _ => rfl, ⟨fun _ => rfl, fun i k _ hlt => absurd hlt (Nat.not_lt_zero _)⟩⟩⟩
    · show s.calls ++ [_] = _
      rw [hcalls]
      rfl
    · unfold Rx.lookAhead
      dsimp only
      split
      · exact (by decide : 0 ≠ 2)
      · exact (by decide : 1 ≠ 2)
    · intro i hi
      change i ∈ s.touched at hi
      rw [htouched] at hi
      cases hi
  · have hcur := h.filled.cur
    have hnum := (hclient look).2.2
    have hsame : s.opened client x = { s with e := { s.e with indCh := x.ch } } := by
      unfold Rx.opened
      exact if_neg (show s.e.rCurrent ≠ 0xff by omega)
    refine ⟨look, ?_⟩
    rw [hsame]
    exact ⟨h.calls, h.ahead, h.inList, h.ready, h.mInd,
      ⟨h.filled.num, h.filled.cur, h.filled.off, h.filled.pos, h.filled.lens, h.filled.holds⟩⟩

theorem packet (hclient : GivesBuffers client) {mInd : Nat} {last : Indication} (hlast : last.ind ≠ mInd) (more : List Indication)
    (hmore : ∀ x ∈ more, x.ind = mInd) : ∀ (s : Rx) (got : List UInt8), Ready client mInd got s →
    ((∃ t look done, run (Idi.step client) (some s) (more ++ [last]) = some t ∧
        Reassembled client (got ++ (more ++ [last]).flatMap (·.data)) t look done) ↔
      Along (Idi.step client) (IndFits client) (some s) (more ++ [last])) := by
  induction more with
  | nil =>
    intro s got hs
    obtain ⟨look, hopen⟩ := hs.opened hclient last
    obtain ⟨t, hsame, hin, hnum, hrun, hcase⟩ := receive_open hclient hopen last
    rw [if_pos hlast] at hrun
    have hstep : Idi.step client (some s) last = some (t.finish last.ind) := by
      unfold Idi.step
      rw [Option.bind_some, isdnInd_opened hclient, hrun]
      rfl
    rw [List.nil_append, run_cons, run_nil, hstep, List.flatMap_singleton]
    rcases hcase with ⟨hfits, hfilled⟩ | ⟨hfits, hcur⟩
    · refine iff_of_true ?_ ⟨⟨s, rfl, hfits⟩, trivial⟩
      obtain ⟨done, hdone⟩ := hfilled.finish hclient (hsame.calls.trans hopen.calls) hopen.ahead hin last.ind
      exact ⟨_, look, done, rfl, hdone⟩
    · refine iff_of_false ?_ ?_
      · rintro ⟨u, look', done, hu, hre⟩
        cases hu
        obtain ⟨h1, h2, done', h3, -⟩ := finish_grows t last.ind
        have hcalls := hre.calls
        rw [h3, hsame.calls, hopen.calls] at hcalls
        cases hcalls
        rw [hcur] at h2
        exact absurd (hre.inList _ h2) (Nat.lt_irrefl _)
      · rintro ⟨⟨u, hu, hf⟩, -⟩
        cases hu
        exact hfits hf
  | cons x more ih =>
    intro s got hs
    obtain ⟨look, hopen⟩ := hs.opened hclient x
    obtain ⟨t, hsame, hin, hnum, hrun, hcase⟩ := receive_open hclient hopen x
    rw [if_neg (not_not.mpr (hmore x List.mem_cons_self))] at hrun
    have hstep : Idi.step client (some s) x = some t := by
      unfold Idi.step
      rw [Option.bind_some, isdnInd_opened hclient, hrun]
      rfl
    rw [List.cons_append, run_cons, hstep, List.flatMap_cons, ← List.append_assoc]
    rcases hcase with ⟨hfits, hfilled⟩ | ⟨hfits, hcur⟩
    · have hready : Ready client mInd (got ++ x.data) t :=
        Or.inr ⟨look, hsame.calls.trans hopen.calls, hopen.ahead, hin, hsame.rnr.trans hopen.ready,
          hsame.mInd.trans hopen.mInd, hfilled⟩
      rw [ih (fun y hy => hmore y (List.mem_cons_of_mem x hy)) t (got ++ x.data) hready]
      constructor
      · intro h
        refine ⟨⟨s, rfl, hfits⟩, ?_⟩
        rw [hstep]
        exact h
      · intro h
        have h2 := h.2
        rwa [hstep] at h2
    · refine iff_of_false ?_ ?_
      · rintro ⟨u, look', done, hu, hre⟩
        have hbehind : Behind client look t := ⟨hsame.calls.trans hopen.calls, hsame.rnr.trans hopen.ready, hnum, hcur⟩
        cases more with
        | nil =>
          rw [List.nil_append, run_cons, run_nil] at hu
          exact (hbehind.step hclient last).not_reassembled hu hre
        | cons y more =>
          rw [List.cons_append, run_cons] at hu
          exact ((hbehind.step hclient y).run hclient (more ++ [last])).not_reassembled hu hre
      · rintro ⟨⟨u, hu, hf⟩, -⟩
        cases hu
        exact hfits hf

end Packet

/-- The packet ends with the report of what the buffers of the client hold, if and only if all its data finds room. -/
theorem isdn_ind_reassembly (client : RxEntity → Answer) (hclient : GivesBuffers client) (e : RxEntity)
    (hfree : e.rCurrent = 0xff)
    (more : List Indication) (last : Indication) (hmore : ∀ x ∈ more, x.ind = e.mInd) (hlast : last.ind ≠ e.mInd) :
    (∃ t look done, run (step client) (some ⟨e, [], []⟩) (more ++ [last]) = some t ∧
        Reassembled client ((more ++ [last]).flatMap (·.data)) t look done) ↔
      Along (step client) (IndFits client) (some ⟨e, [], []⟩) (more ++ [last]) := by
  have hready : Ready client e.mInd [] ⟨e, [], []⟩ := Or.inl ⟨hfree, rfl, rfl, rfl, rfl⟩
  exact packet hclient hlast more hmore ⟨e, [], []⟩ [] hready

/-- A client with `rNum` buffers of `n` bytes each. -/
def clientOf (rNum n : Nat) (_ : RxEntity) : Answer := ⟨0, rNum, fun _ => ⟨n, some fun _ => 0⟩⟩

theorem givesBuffers_clientOf {rNum n : Nat} (hpos : 0 < rNum) (hlt : rNum < 256) : GivesBuffers (clientOf rNum n) :=
  fun _ => ⟨rfl, hpos, hlt⟩

/-- An entity with `MInd` 1 between two packets. -/
def idleEntity : RxEntity := ⟨0, 0, 0, fun _ => ⟨0, none⟩, 0, 0, 0, 1, 0xff, 0⟩

/-- Three bytes in two buffers of two bytes. -/
theorem isdn_ind_reassembly_three : ∃ t look done, run (step (clientOf 2 2)) (some ⟨idleEntity, [], []⟩)
      ([⟨1, 0, 1, 2, [5, 6]⟩] ++ [⟨8, 0, 1, 1, [7]⟩]) = some t ∧ Reassembled (clientOf 2 2) [5, 6, 7] t look done := by
  have hclient : GivesBuffers (clientOf 2 2) := givesBuffers_clientOf (by decide) (by decide)
  refine (isdn_ind_reassembly (clientOf 2 2) hclient idleEntity rfl [⟨1, 0, 1, 2, [5, 6]⟩] ⟨8, 0, 1, 1, [7]⟩ ?_ ?_).mpr ?_
  · intro x hx
    rw [List.mem_singleton.mp hx]
    rfl
  · decide
  · exact ⟨⟨_, rfl, by decide⟩, ⟨_, rfl, by decide⟩, trivial⟩

/-- One buffer of one byte, one byte of data, and nothing in the last indication: it is taken for the entry behind the list. -/
theorem isdn_ind_behind_list :
    ¬ ∀ (client : RxEntity → Answer), GivesBuffers client → ∀ e : RxEntity, e.rCurrent = 0xff →
      ∀ (more : List Indication) (last : Indication),
      (∀ x ∈ more, x.ind = e.mInd) → last.ind ≠ e.mInd →
        ∃ t look done, run (step client) (some ⟨e, [], []⟩) (more ++ [last]) = some t ∧
          Reassembled client ((more ++ [last]).flatMap (·.data)) t look done := by
  intro h
  have hclient : GivesBuffers (clientOf 1 1) := givesBuffers_clientOf (by decide) (by decide)
  obtain ⟨t, look, done, hrun, hre⟩ := h (clientOf 1 1) hclient idleEntity rfl [⟨1, 0, 1, 1, [5]⟩] ⟨8, 0, 1, 0, []⟩
    (by intro x hx; rw [List.mem_singleton.mp hx]; rfl) (by decide)
  have htouched : t.touched = [0, 0, 0, 1] := by
    cases hrun
    decide
  have hin := hre.inList 1 (by rw [htouched]; decide)
  exact absurd hin (by unfold clientOf; decide)

end Divas.Idi
