/-
  Divas.Capi.WindowBuffers — transmit buffers and confirmations of the DATA_B3 window.

  A transmit buffer that is set is held in one place: by a queued message, by the
  request in hand between the queue and the window (`Hand`), or by an entry of an
  NCCI's ring; the buffer with the adapter may be the head entry of a ring or in no
  place at all. `Ledger` says that the places are apart and that every buffer was set
  once more than it was freed exactly while it is held.

  The requests of an NCCI stand in line: those confirmed, those in the window, the one
  in hand, those queued. `Lines` says that the line is a part of what was accepted, in
  the order it was accepted.

  Proved:
  - `Kept.step`: one step keeps both, if the DATA_B3 requests put come from the PLCI's
    own application and a request reaches the window only while its NCCI is mapped.
  - `window_kept`: over every run whose steps are like that, the windows are bounded,
    every buffer is freed exactly once, and every request is confirmed at most once
    and in order.
-/

import Divas.Lib.Places
import Divas.Capi.WindowBound

namespace Divas.Capi

open Divas.Lib.Bytes Divas.Lib.Ring Divas.Lib.Run Divas.Lib.Places

variable {P : PtrSize}

/-! ## Places of a buffer -/

inductive Place where
  | queue
  | hand
  | window (n : Nat)
  deriving DecidableEq

/-- A DATA_B3 request between the queue and the window, and whether its buffer is set. -/
structure Hand where
  msg : Mem
  set : Bool

def Slot.isData (t : Slot P) : Bool := headerCommand t.mem == cmdDataB3R

namespace WinSt

def pend (s : WinSt P) (n : Nat) : List DataB3Desc :=
  ring maxDataB3 (s.a.ncci n).dBuffer (s.a.ncci n).dataOut (s.a.ncci n).dataPending

def acks (s : WinSt P) (n : Nat) : List DataAckDesc :=
  ring maxDataAck (s.a.ncci n).dataAck (s.a.ncci n).dataAckOut (s.a.ncci n).dataAckPending

def refs (s : WinSt P) (hand : Option Hand) (live : List (Slot P)) : Place → List Nat
  | .queue => (live.filter Slot.isData).map fun t => dataB3ReqData t.mem
  | .hand =>
    match hand with
    | some ⟨msg, true⟩ => [dataB3ReqData msg]
    | _ => []
  | .window n => (s.pend n).map (·.p)

/-- The buffer with the adapter. -/
def sent (s : WinSt P) : Option Nat := if s.plci.dataSent then some s.plci.dataSentPtr else none

end WinSt

/-- A place holds the buffer, or it is with the adapter. -/
def HeldBy (L : Place → List Nat) (sent : Option Nat) (r : Nat) : Prop := Held L r ∨ sent = some r

/-- The buffers of the PLCI's application that are held were set once more than they
    were freed, all others as often; buffers of other applications were not touched. -/
structure Ledger (s : WinSt P) (L : Place → List Nat) (sent : Option Nat) : Prop where
  apart : Apart L
  lt : ∀ r, HeldBy L sent r → r < 65536
  used : ∀ r, HeldBy L sent r → s.used s.plci.appl r = true
  held : ∀ r, HeldBy L sent r → s.log.count (Call.set s.plci.appl r) = s.log.count (Call.free s.plci.appl r) + 1
  free : ∀ r, ¬ HeldBy L sent r → s.log.count (Call.set s.plci.appl r) = s.log.count (Call.free s.plci.appl r)
  foreign : ∀ b r, b ≠ s.plci.appl → s.log.count (Call.set b r) = 0 ∧ s.log.count (Call.free b r) = 0

namespace Ledger

variable {s s' : WinSt P} {L L' : Place → List Nat} {sent sent' : Option Nat}

theorem congr (h : Ledger s L sent) (hp : s'.plci.appl = s.plci.appl) (hu : s'.used = s.used) (hl : s'.log = s.log) :
    Ledger s' L sent :=
  ⟨h.apart, h.lt, by rw [hp, hu]; exact h.used, by rw [hp, hl]; exact h.held, by rw [hp, hl]; exact h.free,
    by rw [hp, hl]; exact h.foreign⟩

/-- Confirmations and requests are not counted. -/
theorem call (h : Ledger s L sent) {c : Call P} (hset : ∀ a r, c ≠ Call.set a r) (hfree : ∀ a r, c ≠ Call.free a r) :
    Ledger (s.call c) L sent := by
  have h1 : ∀ a r, (s.log ++ [c]).count (Call.set a r) = s.log.count (Call.set a r) := by
    intro a r
    rw [List.count_append, List.count_singleton, if_neg (by simpa using hset a r), Nat.add_zero]
  have h2 : ∀ a r, (s.log ++ [c]).count (Call.free a r) = s.log.count (Call.free a r) := by
    intro a r
    rw [List.count_append, List.count_singleton, if_neg (by simpa using hfree a r), Nat.add_zero]
  refine ⟨h.apart, h.lt, h.used, ?_, ?_, ?_⟩
  · simpa only [WinSt.call_log, WinSt.call_plci, h1, h2] using h.held
  · simpa only [WinSt.call_log, WinSt.call_plci, h1, h2] using h.free
  · simpa only [WinSt.call_log, WinSt.call_plci, h1, h2] using h.foreign

/-- The buffers change places. -/
theorem keep (h : Ledger s L sent) (ha : Apart L') (hheld : ∀ r, HeldBy L' sent' r ↔ HeldBy L sent r) :
    Ledger s L' sent' :=
  ⟨ha, fun r hr => h.lt r ((hheld r).mp hr), fun r hr => h.used r ((hheld r).mp hr),
    fun r hr => h.held r ((hheld r).mp hr), fun r hr => h.free r (fun hr' => hr ((hheld r).mpr hr')), h.foreign⟩

/-- A buffer that nobody holds is set. -/
theorem gain (h : Ledger s L sent) {r : Nat} (hlt : r < 65536) (hr : ¬ HeldBy L sent r) (ha : Apart L')
    (hheld : ∀ x, HeldBy L' sent' x ↔ x = r ∨ HeldBy L sent x) : Ledger (s.bufferSet s.plci.appl r) L' sent' := by
  have hmod : r % 65536 = r := Nat.mod_eq_of_lt hlt
  have hset : ∀ x, (s.log ++ [Call.set s.plci.appl r]).count (Call.set s.plci.appl x) =
      s.log.count (Call.set s.plci.appl x) + if x = r then 1 else 0 := by
    intro x
    rw [List.count_append, List.count_singleton]
    congr 1
    by_cases e : x = r
    · subst e; simp
    · simp [e, Ne.symm e]
  have hfree : ∀ b x, (s.log ++ [Call.set s.plci.appl r]).count (Call.free b x) = s.log.count (Call.free b x) := by
    intro b x
    rw [List.count_append, List.count_singleton]; simp
  refine ⟨ha, fun x hx => ?_, fun x hx => ?_, fun x hx => ?_, fun x hx => ?_, fun b x hb => ?_⟩
  · rcases (hheld x).mp hx with rfl | hx
    · exact hlt
    · exact h.lt x hx
  · simp only [WinSt.bufferSet, WinSt.call_plci, Function.update_self, hmod]
    by_cases e : x = r
    · subst e; simp
    · rw [Function.update_of_ne e]
      exact h.used x (((hheld x).mp hx).resolve_left e)
  · simp only [WinSt.bufferSet_log, WinSt.bufferSet_plci, hset, hfree]
    by_cases e : x = r
    · subst e
      rw [if_pos rfl, h.free x hr]
    · rw [if_neg e, h.held x (((hheld x).mp hx).resolve_left e)]
  · have hx' : x ≠ r ∧ ¬ HeldBy L sent x := by
      rw [hheld x, not_or] at hx
      exact hx
    simp only [WinSt.bufferSet_log, WinSt.bufferSet_plci, hset, hfree, if_neg hx'.1, h.free x hx'.2, Nat.add_zero]
  · obtain ⟨h1, h2⟩ := h.foreign b x hb
    simp only [WinSt.bufferSet_log, hfree, h2, List.count_append, h1, List.count_singleton]
    have hb' : s.plci.appl ≠ b := fun e => hb e.symm
    simp [hb']

/-- A held buffer is freed, and nobody holds it then. -/
theorem release (h : Ledger s L sent) {r : Nat} (hr : HeldBy L sent r) (ha : Apart L') (hr' : ¬ HeldBy L' sent' r)
    (hheld : ∀ x, x ≠ r → (HeldBy L' sent' x ↔ HeldBy L sent x)) :
    Ledger (s.bufferFree s.plci.appl r) L' sent' := by
  have hmod : r % 65536 = r := Nat.mod_eq_of_lt (h.lt r hr)
  have hset : ∀ b x, (s.log ++ [Call.free s.plci.appl r]).count (Call.set b x) = s.log.count (Call.set b x) := by
    intro b x
    rw [List.count_append, List.count_singleton]; simp
  have hfree : ∀ x, (s.log ++ [Call.free s.plci.appl r]).count (Call.free s.plci.appl x) =
      s.log.count (Call.free s.plci.appl x) + if x = r then 1 else 0 := by
    intro x
    rw [List.count_append, List.count_singleton]
    congr 1
    by_cases e : x = r
    · subst e; simp
    · simp [e, Ne.symm e]
  have hne : ∀ x, HeldBy L' sent' x → x ≠ r := by
    rintro x hx rfl
    exact hr' hx
  refine ⟨ha, fun x hx => ?_, fun x hx => ?_, fun x hx => ?_, fun x hx => ?_, fun b x hb => ?_⟩
  · exact h.lt x ((hheld x (hne x hx)).mp hx)
  · simp only [WinSt.bufferFree, WinSt.call_plci, Function.update_self, hmod]
    rw [Function.update_of_ne (hne x hx)]
    exact h.used x ((hheld x (hne x hx)).mp hx)
  · simp only [WinSt.bufferFree_log, WinSt.bufferFree_plci, hset, hfree, if_neg (hne x hx), Nat.add_zero]
    exact h.held x ((hheld x (hne x hx)).mp hx)
  · simp only [WinSt.bufferFree_log, WinSt.bufferFree_plci, hset, hfree]
    by_cases e : x = r
    · subst e
      rw [if_pos rfl, h.held x hr]
    · rw [if_neg e, h.free x (mt (hheld x e).mpr hx), Nat.add_zero]
  · obtain ⟨h1, h2⟩ := h.foreign b x hb
    simp only [WinSt.bufferFree_log, hset, h1, List.count_append, h2, List.count_singleton]
    have hb' : s.plci.appl ≠ b := fun e => hb e.symm
    simp [hb']

end Ledger

/-! ## The line of an NCCI -/

/-- What a request will be confirmed with, if it is one for this NCCI and this class. -/
def entry (msg : Mem) (n : Nat) (b : Bool) : List (Nat × Nat) :=
  if headerNcci msg = n ∧ WinSt.parsesDataB3 msg = true ∧ flagged (dataB3ReqFlags msg) = b then
    [(headerNumber msg, dataB3ReqHandle msg)] else []

/-- The confirmations sent for the requests of an NCCI, of the class without (from
    `data_rc`) or with Flags bit 2 (from `data_ack`). -/
def confirmed (log : List (Call P)) (n : Nat) (b : Bool) : List (Nat × Nat) :=
  log.filterMap fun
    | .confirm f _ m number handle _ =>
      if m = n ∧ f = (if b then .dataAck else .dataRc) then some (number, handle) else none
    | _ => none

namespace WinSt

def inWindow (s : WinSt P) (n : Nat) : Bool → List (Nat × Nat)
  | false => ((s.pend n).filter fun d => !flagged d.flags).map fun d => (d.number, d.handle)
  | true => (s.acks n).map fun d => (d.number, d.handle)

def inHand (hand : Option Hand) (n : Nat) (b : Bool) : List (Nat × Nat) :=
  match hand with
  | some x => entry x.msg n b
  | none => []

def inQueue (live : List (Slot P)) (n : Nat) (b : Bool) : List (Nat × Nat) :=
  (live.filter Slot.isData).flatMap fun t => entry t.mem n b

def line (s : WinSt P) (hand : Option Hand) (live : List (Slot P)) (n : Nat) (b : Bool) : List (Nat × Nat) :=
  (confirmed s.log n b ++ s.inWindow n b) ++ (inHand hand n b ++ inQueue live n b)

end WinSt

/-- The requests of every NCCI stand in the order they were accepted in. -/
def Lines (s : WinSt P) (hand : Option Hand) (live : List (Slot P)) : Prop :=
  ∀ n b, (s.line hand live n b).Sublist (s.accepted n b)

/-! ## The invariant -/

/-- An NCCI of the PLCI is mapped to its channel. -/
def Mapped (s : WinSt P) (n : Nat) : Prop := s.a.ncciPlci n = s.plci.id → s.a.chNcci (s.a.ncciCh n) = n

structure Kept (s : WinSt P) (hand : Option Hand) (live : List (Slot P)) : Prop where
  bounded : Bounded s live
  appl : s.plci.appl ≠ ApplPtr.null P
  id : s.plci.id ≠ 0
  owner : ∀ t ∈ live, t.isData = true → t.appl = s.plci.appl ∧ headerPlci t.mem = s.plci.id
  ledger : Ledger s (s.refs hand live) s.sent
  /-- Data is with the adapter while its request is out; it is the head of its ring. -/
  req : s.plci.dataSent = true → s.plci.nlReq = true
  head : ∀ k r, s.sent = some r → r ∈ s.refs hand live k →
    ∃ n d ds, k = .window n ∧ s.pend n = d :: ds ∧ d.p = r ∧ s.plci.nlReqCh = s.a.ncciCh n
  mapped : ∀ n, (s.a.ncci n).dataPending ≠ 0 →
    n ≠ 0 ∧ n < maxNcci + 1 ∧ s.a.ncciPlci n = s.plci.id ∧ s.a.chNcci (s.a.ncciCh n) = n
  lines : Lines s hand live

/-! ## The places of an NCCI's requests -/

theorem confirmed_append (log log' : List (Call P)) (n : Nat) (b : Bool) :
    confirmed (log ++ log') n b = confirmed log n b ++ confirmed log' n b := List.filterMap_append

/-- Only confirmations are read off the log. -/
theorem confirmed_call {log : List (Call P)} {c : Call P} (hc : ∀ f a m number handle info, c ≠ .confirm f a m number handle info)
    (n : Nat) (b : Bool) : confirmed (log ++ [c]) n b = confirmed log n b := by
  rw [confirmed_append]
  cases c with
  | confirm f a m number handle info => exact absurd rfl (hc f a m number handle info)
  | set a r => simp [confirmed]
  | free a r => simp [confirmed]
  | request ch r => simp [confirmed]

theorem confirmed_freeUnlessSent (s : WinSt P) (r n : Nat) (b : Bool) :
    confirmed (s.freeUnlessSent r).log n b = confirmed s.log n b := by
  unfold WinSt.freeUnlessSent
  split
  · exact confirmed_call (by simp) n b
  · rfl

theorem confirmed_cleanupLoop (d : Nat → DataB3Desc) (pending out : Nat) (s : WinSt P) (n : Nat) (b : Bool) :
    confirmed (WinSt.cleanupLoop d pending out s).log n b = confirmed s.log n b := by
  induction pending generalizing out s with
  | zero => rfl
  | succ pending ih =>
    rw [WinSt.cleanupLoop, ih]
    exact confirmed_freeUnlessSent s _ n b

theorem pend_congr {s s' : WinSt P} {n : Nat} (h : s'.a.ncci n = s.a.ncci n) : s'.pend n = s.pend n := by
  simp only [WinSt.pend, h]

theorem acks_congr {s s' : WinSt P} {n : Nat} (h : s'.a.ncci n = s.a.ncci n) : s'.acks n = s.acks n := by
  simp only [WinSt.acks, h]

theorem inWindow_congr {s s' : WinSt P} {n : Nat} (h : s'.a.ncci n = s.a.ncci n) (b : Bool) :
    s'.inWindow n b = s.inWindow n b := by
  cases b <;> simp only [WinSt.inWindow, pend_congr h, acks_congr h]

/-- A change of one NCCI's rings is a change of one place. -/
theorem refs_setNcci (s : WinSt P) (n : Nat) (w : Ncci) (hand : Option Hand) (live : List (Slot P)) :
    (s.setNcci n w).refs hand live =
      Function.update (s.refs hand live) (.window n) ((ring maxDataB3 w.dBuffer w.dataOut w.dataPending).map (·.p)) := by
  funext k
  cases k with
  | queue => rfl
  | hand => rfl
  | window m =>
    by_cases e : m = n
    · subst e; simp [WinSt.refs, WinSt.pend]
    · have hne : Place.window m ≠ Place.window n := fun h => e (by injection h)
      simp [WinSt.refs, WinSt.pend, Function.update_of_ne e, Function.update_of_ne hne]

theorem refs_congr {s s' : WinSt P} (h : s'.a.ncci = s.a.ncci) (hand : Option Hand) (live : List (Slot P)) :
    s'.refs hand live = s.refs hand live := by
  funext k
  cases k with
  | queue => rfl
  | hand => rfl
  | window m => simp only [WinSt.refs, WinSt.pend, h]

/-- The head entry of a ring and the rest. -/
theorem pend_cons {s : WinSt P} {n : Nat} (hout : (s.a.ncci n).dataOut < maxDataB3) (hp : (s.a.ncci n).dataPending ≠ 0) :
    s.pend n = (s.a.ncci n).dBuffer (s.a.ncci n).dataOut ::
      ring maxDataB3 (s.a.ncci n).dBuffer (bump maxDataB3 (s.a.ncci n).dataOut) ((s.a.ncci n).dataPending - 1) := by
  obtain ⟨k, hk⟩ := Nat.exists_eq_succ_of_ne_zero hp
  rw [WinSt.pend, hk, Nat.succ_eq_add_one, ring_succ _ hout, Nat.add_sub_cancel]

theorem acks_cons {s : WinSt P} {n : Nat} (hout : (s.a.ncci n).dataAckOut < maxDataAck)
    (hp : (s.a.ncci n).dataAckPending ≠ 0) :
    s.acks n = (s.a.ncci n).dataAck (s.a.ncci n).dataAckOut ::
      ring maxDataAck (s.a.ncci n).dataAck (bump maxDataAck (s.a.ncci n).dataAckOut) ((s.a.ncci n).dataAckPending - 1) := by
  obtain ⟨k, hk⟩ := Nat.exists_eq_succ_of_ne_zero hp
  rw [WinSt.acks, hk, Nat.succ_eq_add_one, ring_succ _ hout, Nat.add_sub_cancel]

theorem pend_nil_iff {s : WinSt P} {n : Nat} : s.pend n = [] ↔ (s.a.ncci n).dataPending = 0 := by
  rw [← List.length_eq_zero_iff, WinSt.pend, ring_length]

/-! ## Buffers leave a place -/

theorem heldBy_update {L : Place → List Nat} {k : Place} {r : Nat} {rs : List Nat} (hk : L k = r :: rs)
    {sent : Option Nat} {x : Nat} (hx : x ≠ r) : HeldBy (Function.update L k rs) sent x ↔ HeldBy L sent x := by
  have hgains : Gains (Function.update L k rs) L k r := by
    refine gains_cons ?_ fun k' e => (Function.update_of_ne e ..).symm
    rw [Function.update_self]
    exact hk
  unfold HeldBy
  rw [hgains.held, or_iff_right hx]

theorem update_sub {L : Place → List Nat} {k : Place} {rs : List Nat} (hs : rs.Sublist (L k)) (k' : Place) :
    (Function.update L k rs k').Sublist (L k') := by
  by_cases e : k' = k
  · subst e; rw [Function.update_self]; exact hs
  · rw [Function.update_of_ne e]

/-- The head of a place leaves it: it is freed unless it is with the adapter. -/
theorem Ledger.pop {s : WinSt P} {L : Place → List Nat} {k : Place} {r : Nat} {rs : List Nat} (h : Ledger s L s.sent)
    (hk : L k = r :: rs) : Ledger (s.freeUnlessSent r) (Function.update L k rs) s.sent := by
  have hr : HeldBy L s.sent r := Or.inl ⟨k, by rw [hk]; simp⟩
  have ha : Apart (Function.update L k rs) := h.apart.sub (update_sub (by rw [hk]; exact List.sublist_cons_self r rs))
  have hnot : ¬ Held (Function.update L k rs) r :=
    h.apart.pop_fresh hk (Function.update_self ..) (fun k' e => Function.update_of_ne e ..)
  unfold WinSt.freeUnlessSent
  by_cases hs : s.sent = some r
  · have : (!s.plci.dataSent || r != s.plci.dataSentPtr) = false := by
      unfold WinSt.sent at hs
      split at hs
      · rename_i hd
        injection hs with hs
        simp [hd, hs]
      · cases hs
    rw [this]
    refine h.keep ha fun x => ?_
    by_cases e : x = r
    · subst e
      exact iff_of_true (Or.inr hs) hr
    · exact heldBy_update hk e
  · have : (!s.plci.dataSent || r != s.plci.dataSentPtr) = true := by
      unfold WinSt.sent at hs
      split at hs
      · rename_i hd
        simp only [Option.some.injEq] at hs
        simp [hd, Ne.symm hs]
      · rename_i hd
        simp [hd]
    rw [if_pos this]
    refine h.release hr ha ?_ fun x e => heldBy_update hk e
    intro hw
    rcases hw with h' | h'
    · exact hnot h'
    · exact hs h'

theorem sent_congr {s s' : WinSt P} (h : s'.plci = s.plci) : s'.sent = s.sent := by
  simp only [WinSt.sent, h]

/-- The cleanup loop empties a place. -/
theorem Ledger.cleanupLoop {d : Nat → DataB3Desc} {k : Place} {pending out : Nat} (hout : out < maxDataB3)
    {s : WinSt P} {L : Place → List Nat} (h : Ledger s L s.sent)
    (hk : L k = (ring maxDataB3 d out pending).map (·.p)) :
    Ledger (WinSt.cleanupLoop d pending out s) (Function.update L k []) s.sent := by
  induction pending generalizing out s L with
  | zero =>
    rw [ring_zero, List.map_nil] at hk
    rw [← hk, Function.update_eq_self]
    exact h
  | succ pending ih =>
    rw [ring_succ d hout, List.map_cons] at hk
    have hs : (s.freeUnlessSent (d out).p).sent = s.sent := sent_congr (by simp)
    have := ih (bump_lt hout) (hs ▸ h.pop hk) (Function.update_self ..)
    rw [Function.update_idem, hs] at this
    exact this

/-! ## Steps that shrink a window -/

theorem Lines.mono {s s' : WinSt P} {hand hand' : Option Hand} {live live' : List (Slot P)} (h : Lines s hand live)
    (hacc : s'.accepted = s.accepted)
    (hsub : ∀ n b, (s'.line hand' live' n b).Sublist (s.line hand live n b)) : Lines s' hand' live' := by
  intro n b
  rw [hacc]
  exact (hsub n b).trans (h n b)

namespace Kept

variable {s s' : WinSt P} {hand : Option Hand} {live : List (Slot P)}

/-- The rings of one NCCI change, its data ring by losing entries at the front. -/
theorem shrink (h : Kept s hand live) {s1 : WinSt P} (ha : s1.a = s.a) (hp : s1.plci = s.plci) {n : Nat} {w : Ncci}
    (hok : NcciOk w (live.countP (·.dataFor n)))
    (hw : ring maxDataB3 w.dBuffer w.dataOut w.dataPending <:+ s.pend n)
    (hl : Ledger s1 (Function.update (s.refs hand live) (.window n)
      ((ring maxDataB3 w.dBuffer w.dataOut w.dataPending).map (·.p))) s.sent)
    (hlines : Lines (s1.setNcci n w) hand live) : Kept (s1.setNcci n w) hand live := by
  have hrefs : (s1.setNcci n w).refs hand live = Function.update (s.refs hand live) (.window n)
      ((ring maxDataB3 w.dBuffer w.dataOut w.dataPending).map (·.p)) := by
    rw [refs_setNcci, refs_congr (s := s) (by rw [ha])]
  have hsent : (s1.setNcci n w).sent = s.sent := sent_congr (by rw [WinSt.setNcci_plci, hp])
  refine ⟨?_, by simpa [hp] using h.appl, by simpa [hp] using h.id, by simpa [hp] using h.owner, ?_,
    by simpa [hp] using h.req, ?_, ?_, hlines⟩
  · exact Bounded.setNcci (h.bounded.congr (by rw [hp]) (by rw [ha])) hok
  · rw [hrefs, hsent]
    exact hl.congr (by simp) (by simp) (by simp)
  · intro k r hr hk
    rw [hsent] at hr
    rw [hrefs] at hk
    have hsub : (Function.update (s.refs hand live) (.window n)
        ((ring maxDataB3 w.dBuffer w.dataOut w.dataPending).map (·.p)) k).Sublist (s.refs hand live k) :=
      update_sub (hw.sublist.map _) k
    obtain ⟨m, d, ds, rfl, hpend, hd, hch⟩ := h.head k r hr (hsub.mem hk)
    refine ⟨m, d, ds, rfl, ?_, hd, by simpa [hp, ha, WinSt.setNcci] using hch⟩
    by_cases e : m = n
    · subst e
      have hnodup := h.ledger.apart.nodup (.window m)
      simp only [WinSt.refs, hpend, List.map_cons, List.nodup_cons, hd] at hnodup
      simp only [Function.update_self] at hk
      rw [hpend] at hw
      have hnew : (s1.setNcci m w).pend m = ring maxDataB3 w.dBuffer w.dataOut w.dataPending := by
        simp [WinSt.pend]
      rw [hnew]
      rcases List.suffix_cons_iff.mp hw with hw | hw
      · exact hw
      · exact absurd ((hw.sublist.map _).mem hk) hnodup.1
    · rw [pend_congr (s := s) (by simp [Function.update_of_ne e, ha])]
      exact hpend
  · intro m hm
    have hold : (s.a.ncci m).dataPending ≠ 0 := by
      by_cases e : m = n
      · subst e
        intro h0
        have hnil := pend_nil_iff.mpr h0
        rw [hnil] at hw
        have := congrArg List.length (List.suffix_nil.mp hw)
        rw [ring_length] at this
        simp only [WinSt.setNcci_ncci, Function.update_self] at hm
        exact hm this
      · simpa [Function.update_of_ne e, ha] using hm
    simpa [hp, ha, WinSt.setNcci] using h.mapped m hold

theorem cleanup (h : Kept s hand live) (n : Nat) : Kept (s.cleanupNcciData n) hand live := by
  unfold WinSt.cleanupNcciData
  split
  · simp only [if_pos h.appl]
    obtain ⟨ha, hp, hacc⟩ := WinSt.cleanupLoop_frame (s.a.ncci n).dBuffer (s.a.ncci n).dataPending (s.a.ncci n).dataOut s
    refine h.shrink ha hp (h.bounded.ncci n).clean ?_ ?_ ?_
    · simp only [ring_zero]; exact List.nil_suffix
    · exact h.ledger.cleanupLoop (h.bounded.ncci n).out rfl
    · refine h.lines.mono (by simpa using hacc) fun m b => ?_
      unfold WinSt.line
      rw [WinSt.setNcci_log, confirmed_cleanupLoop]
      refine List.Sublist.append (List.Sublist.append (List.Sublist.refl _) ?_) (List.Sublist.refl _)
      by_cases e : m = n
      · subst e
        cases b <;> simp [WinSt.inWindow, WinSt.pend, WinSt.acks]
      · rw [inWindow_congr (s := s) (by simp [Function.update_of_ne e, ha])]
  · exact h

/-- The head of a ring goes to the adapter. -/
theorem sendDataNcci (h : Kept s hand live) (hreq : s.plci.nlReq = false) (n : Nat) :
    Kept (s.sendDataNcci n) hand live := by
  have hns : s.plci.dataSent = false := by
    by_contra hd
    have := h.req (by simpa using hd)
    rw [hreq] at this
    cases this
  have hnone : s.sent = none := by simp [WinSt.sent, hns]
  unfold WinSt.sendDataNcci
  split
  · exact h
  simp only
  split
  · rename_i hp
    split
    · have hcons := pend_cons (h.bounded.ncci n).out hp
      have hmem : ((s.a.ncci n).dBuffer (s.a.ncci n).dataOut).p ∈ s.refs hand live (.window n) := by
        simp [WinSt.refs, hcons]
      refine ⟨h.bounded.congr rfl rfl, h.appl, h.id, h.owner, ?_, fun _ => rfl, ?_, h.mapped, ?_⟩
      · have hcall := (hnone ▸ h.ledger).call (c := .request (s.a.ncciCh n) ((s.a.ncci n).dBuffer (s.a.ncci n).dataOut).p)
          (by simp) (by simp)
        refine (hcall.keep hcall.apart fun r => ?_).congr rfl rfl rfl
        simp only [WinSt.sent, if_true, HeldBy, reduceCtorEq, or_false, Option.some.injEq]
        refine ⟨fun hr => ?_, Or.inl⟩
        rcases hr with hr | rfl
        · exact hr
        · exact ⟨_, hmem⟩
      · intro k r hr hk
        simp only [WinSt.sent, if_true, Option.some.injEq] at hr
        subst hr
        have hkn := h.ledger.apart.unique k (.window n) _ hk hmem
        exact ⟨n, _, _, hkn, hcons, rfl, rfl⟩
      · refine h.lines.mono rfl fun m b => ?_
        show ((confirmed (s.log ++ [_]) m b ++ _) ++ _).Sublist _
        rw [confirmed_call (by simp)]
        exact List.Sublist.refl _
    · exact h.cleanup n
  · split
    · refine ⟨h.bounded.congr rfl rfl, h.appl, h.id, h.owner, h.ledger.congr rfl rfl rfl, fun _ => rfl, ?_, h.mapped, h.lines⟩
      intro k r hr
      have : s.sent = some r := hr
      rw [hnone] at this
      cases this
    · exact h

/-- The place in the ring of the NCCIs does not count. -/
theorem setRing (h : Kept s hand live) (n : Nat) : Kept (s.setRing n) hand live :=
  ⟨h.bounded.congr rfl rfl, h.appl, h.id, h.owner, h.ledger.congr rfl rfl rfl, h.req, h.head, h.mapped, h.lines⟩

theorem sendData (h : Kept s hand live) : Kept s.sendData hand live :=
  WinSt.sendData_invariant (I := fun s => Kept s hand live) (fun _ n h hreq => h.sendDataNcci hreq n)
    (fun _ n h => h.setRing n) h

end Kept

/-! ## Confirmations -/

theorem confirmed_confirm (log : List (Call P)) (f : Confirmer) (a : ApplPtr P) (m number handle info n : Nat) (b : Bool) :
    confirmed (log ++ [.confirm f a m number handle info]) n b =
      confirmed log n b ++
        if m = n ∧ f = (if b then .dataAck else .dataRc) then [(number, handle)] else [] := by
  rw [confirmed_append]
  congr 1
  by_cases hc : m = n ∧ f = (if b then .dataAck else .dataRc)
  · simp only [confirmed, List.filterMap_cons, if_pos hc, List.filterMap_nil]
  · simp only [confirmed, List.filterMap_cons, if_neg hc, List.filterMap_nil]

namespace Kept

variable {s s' : WinSt P} {hand : Option Hand} {live : List (Slot P)}

/-- A request leaves the head of its ring, confirmed or not. -/
theorem pop (h : Kept s hand live) {n : Nat} (hp : (s.a.ncci n).dataPending ≠ 0) {s1 : WinSt P}
    (hs1 : s1 = s.freeUnlessSent ((s.a.ncci n).dBuffer (s.a.ncci n).dataOut).p ∨
      flagged ((s.a.ncci n).dBuffer (s.a.ncci n).dataOut).flags = false ∧
        s1 = (s.freeUnlessSent ((s.a.ncci n).dBuffer (s.a.ncci n).dataOut).p).call
          (.confirm .dataRc s.plci.appl n ((s.a.ncci n).dBuffer (s.a.ncci n).dataOut).number
            ((s.a.ncci n).dBuffer (s.a.ncci n).dataOut).handle 0)) : Kept (s1.popData n) hand live := by
  have hok := h.bounded.ncci n
  have hcons := pend_cons hok.out hp
  have hframe : s1.a = s.a ∧ s1.plci = s.plci ∧ s1.accepted = s.accepted := by
    rcases hs1 with rfl | ⟨-, rfl⟩ <;> simp
  obtain ⟨ha, hpl, hacc⟩ := hframe
  have hpop := h.ledger.pop (k := .window n) (by rw [WinSt.refs, hcons, List.map_cons])
  unfold WinSt.popData
  rw [ha]
  refine h.shrink ha hpl hok.popData ?_ ?_ ?_
  · rw [hcons]; exact List.suffix_cons _ _
  · rcases hs1 with rfl | ⟨-, rfl⟩
    · exact hpop
    · exact hpop.call (by simp) (by simp)
  · refine h.lines.mono (by simpa using hacc) fun m b => ?_
    by_cases e : m = n
    · subst e
      unfold WinSt.line
      refine List.Sublist.append ?_ (List.Sublist.refl _)
      cases b with
      | false =>
        have hw : ∀ w : WinSt P, (w.setNcci m { s.a.ncci m with
            dataOut := bump maxDataB3 (s.a.ncci m).dataOut, dataPending := (s.a.ncci m).dataPending - 1 }).pend m =
              ring maxDataB3 (s.a.ncci m).dBuffer (bump maxDataB3 (s.a.ncci m).dataOut) ((s.a.ncci m).dataPending - 1) := by
          intro w; simp [WinSt.pend]
        simp only [WinSt.inWindow, hw, hcons, WinSt.setNcci_log, List.filter_cons]
        rcases hs1 with rfl | ⟨hf, rfl⟩
        · rw [confirmed_freeUnlessSent]
          refine (List.Sublist.refl _).append (List.Sublist.map _ ?_)
          split
          · exact List.sublist_cons_self _ _
          · exact List.Sublist.refl _
        · rw [WinSt.call_log, confirmed_confirm, confirmed_freeUnlessSent, hf, if_pos ⟨rfl, by simp⟩]
          simp
      | true =>
        have hw : ∀ w : WinSt P, (w.setNcci m { s.a.ncci m with
            dataOut := bump maxDataB3 (s.a.ncci m).dataOut, dataPending := (s.a.ncci m).dataPending - 1 }).acks m =
              s.acks m := by
          intro w; simp [WinSt.acks]
        simp only [WinSt.inWindow, hw, WinSt.setNcci_log]
        rcases hs1 with rfl | ⟨hf, rfl⟩
        · rw [confirmed_freeUnlessSent]
        · rw [WinSt.call_log, confirmed_confirm, confirmed_freeUnlessSent, if_neg (by simp), List.append_nil]
    · unfold WinSt.line
      rw [inWindow_congr (s := s) (by simp [Function.update_of_ne e, ha])]
      refine List.Sublist.append (List.Sublist.append ?_ (List.Sublist.refl _)) (List.Sublist.refl _)
      rw [WinSt.setNcci_log]
      rcases hs1 with rfl | ⟨hf, rfl⟩
      · rw [confirmed_freeUnlessSent]
      · rw [WinSt.call_log, confirmed_confirm, confirmed_freeUnlessSent, if_neg (fun hc => e hc.1.symm), List.append_nil]

/-- `data_rc` on the head entry of a mapped NCCI. -/
theorem dataRc_head (h : Kept s hand live) {n ch : Nat} (hp : (s.a.ncci n).dataPending ≠ 0) (hch : s.a.chNcci ch = n) :
    Kept (s.dataRc ch ((s.a.ncci n).dBuffer (s.a.ncci n).dataOut).p) hand live := by
  obtain ⟨h0, -, hpl, -⟩ := h.mapped n hp
  unfold WinSt.dataRc
  rw [if_pos h.appl]
  simp only [WinSt.freeUnlessSent_a, WinSt.freeUnlessSent_plci, hch]
  rw [if_pos ⟨⟨h0, hpl⟩, hp, trivial⟩]
  refine h.pop hp ?_
  by_cases hf : flagged ((s.a.ncci n).dBuffer (s.a.ncci n).dataOut).flags = true
  · simp [hf]
  · by_cases hi : s.a.ncciState n = .idle
    · simp [hi]
    · right
      simp only [Bool.not_eq_true] at hf
      refine ⟨hf, ?_⟩
      rw [if_pos (by simp [hf, hi])]

theorem flushRc (h : Kept s hand live) (n : Nat) : Kept (s.flushRc n) hand live := by
  unfold WinSt.flushRc
  simp only
  split
  · rename_i hp
    exact h.dataRc_head hp (h.mapped n hp).2.2.2
  · exact h

/-- The return code of a data request: its buffer is freed, and its entry, if it is still
    in its ring, is the head there and leaves. -/
theorem rc (h : Kept s hand live) : Kept s.rc hand live := by
  unfold WinSt.rc
  split
  swap
  · exact h
  simp only
  cases hsent : s.plci.dataSent with
  | false =>
    have hnone : s.sent = none := by simp [WinSt.sent, hsent]
    refine ⟨h.bounded.congr rfl rfl, h.appl, h.id, h.owner, ?_, (fun hd => by cases hd), (fun k r hr => by cases hr), h.mapped,
      h.lines⟩
    have hl := h.ledger
    rw [hnone] at hl
    exact hl.congr rfl rfl rfl
  | true =>
    have hsome : s.sent = some s.plci.dataSentPtr := by simp [WinSt.sent, hsent]
    have hl := h.ledger
    rw [hsome] at hl
    simp only [if_true]
    by_cases hin : Held (s.refs hand live) s.plci.dataSentPtr
    · obtain ⟨k, hk⟩ := hin
      obtain ⟨n, d, ds, rfl, hpend, hd, hch⟩ := h.head k _ hsome hk
      have hp : (s.a.ncci n).dataPending ≠ 0 := by
        intro h0
        rw [pend_nil_iff.mpr h0] at hpend
        cases hpend
      -- the buffer is in its ring, so nothing changes hands while the request ends
      have hended : Kept { s with plci := { s.plci with nlReq := false, dataSent := false } } hand live := by
        refine ⟨h.bounded.congr rfl rfl, h.appl, h.id, h.owner, ?_, (fun hd => by cases hd),
          (fun k r hr => by cases hr), h.mapped,
          h.lines⟩
        refine (hl.keep hl.apart fun r => ?_).congr rfl rfl rfl
        simp only [HeldBy, WinSt.sent, Bool.false_eq_true, if_false, reduceCtorEq, or_false, Option.some.injEq]
        refine ⟨Or.inl, fun hr => ?_⟩
        rcases hr with hr | rfl
        · exact hr
        · exact ⟨_, hk⟩
      rw [pend_cons (h.bounded.ncci n).out hp, List.cons.injEq] at hpend
      have hhead := hended.dataRc_head hp (show s.a.chNcci s.plci.nlReqCh = n by
        rw [hch]; exact (h.mapped n hp).2.2.2)
      simp only [hpend.1, hd] at hhead
      exact hhead
    · -- a cleanup emptied the ring: the buffer was with the adapter only
      have hmiss : WinSt.dataRc { s with plci := { s.plci with nlReq := false, dataSent := false } } s.plci.nlReqCh
          s.plci.dataSentPtr =
            { s with plci := { s.plci with nlReq := false, dataSent := false } }.bufferFree s.plci.appl
              s.plci.dataSentPtr := by
        unfold WinSt.dataRc
        rw [if_pos h.appl]
        simp only [WinSt.freeUnlessSent_a, WinSt.freeUnlessSent_plci]
        rw [if_neg]
        · simp [WinSt.freeUnlessSent]
        · intro hw
          rcases hw with ⟨-, hp, hd⟩
          refine hin ⟨.window (s.a.chNcci s.plci.nlReqCh), ?_⟩
          simp only [WinSt.refs, pend_cons (h.bounded.ncci _).out hp, List.map_cons, hd]
          exact List.mem_cons_self
      rw [hmiss]
      refine ⟨h.bounded.congr rfl rfl, h.appl, h.id, h.owner, ?_, (fun hd => by cases hd), (fun k r hr => by cases hr), h.mapped,
        h.lines.mono rfl fun n b => ?_⟩
      · have hl' : Ledger { s with plci := { s.plci with nlReq := false, dataSent := false } } (s.refs hand live) _ :=
          hl.congr rfl rfl rfl
        refine hl'.release (Or.inr rfl) hl.apart ?_ fun x hx => ?_
        · intro hw
          rcases hw with h' | h'
          · exact hin h'
          · cases h'
        · simp only [HeldBy, WinSt.sent, WinSt.bufferFree_plci, Bool.false_eq_true, if_false, reduceCtorEq, or_false,
            Option.some.injEq, Ne.symm hx]
          rfl
      · unfold WinSt.line
        rw [WinSt.bufferFree_log, confirmed_call (by simp)]
        exact List.Sublist.refl _

/-- An acknowledge confirms the oldest flagged request. -/
theorem dataAck (h : Kept s hand live) (ch : Nat) : Kept (s.dataAck ch) hand live := by
  unfold WinSt.dataAck
  simp only
  split
  swap
  · exact h
  rename_i hp
  have hok := h.bounded.ncci (s.a.chNcci ch)
  have hcons := acks_cons hok.ackOut hp
  generalize hn : s.a.chNcci ch = n at hp hok hcons ⊢
  generalize hack : (s.a.ncci n).dataAck (s.a.ncci n).dataAckOut = ack at hcons ⊢
  have hs1 : ∀ s1 : WinSt P, s1 = s ∨ s1 = s.call (.confirm .dataAck s.plci.appl n ack.number ack.handle 0) →
      Kept (s1.popAck n) hand live := by
    intro s1 hs1
    have hframe : s1.a = s.a ∧ s1.plci = s.plci ∧ s1.accepted = s.accepted := by
      rcases hs1 with rfl | rfl <;> simp
    obtain ⟨ha, hpl, hacc⟩ := hframe
    unfold WinSt.popAck
    rw [ha]
    refine h.shrink ha hpl hok.popAck List.suffix_rfl ?_ ?_
    · have hsame : Function.update (s.refs hand live) (.window n)
          ((ring maxDataB3 (s.a.ncci n).dBuffer (s.a.ncci n).dataOut (s.a.ncci n).dataPending).map (·.p)) =
            s.refs hand live := Function.update_eq_self (Place.window n) (s.refs hand live)
      rw [hsame]
      rcases hs1 with rfl | rfl
      · exact h.ledger
      · exact h.ledger.call (by simp) (by simp)
    · refine h.lines.mono (by simpa using hacc) fun m b => ?_
      by_cases e : m = n
      · subst e
        unfold WinSt.line
        refine List.Sublist.append ?_ (List.Sublist.refl _)
        cases b with
        | false =>
          have hw : ∀ w : WinSt P, (w.setNcci m { s.a.ncci m with
              dataAckOut := bump maxDataAck (s.a.ncci m).dataAckOut,
              dataAckPending := (s.a.ncci m).dataAckPending - 1 }).pend m = s.pend m := by
            intro w; simp [WinSt.pend]
          simp only [WinSt.inWindow, hw, WinSt.setNcci_log]
          rcases hs1 with rfl | rfl
          · exact List.Sublist.refl _
          · rw [WinSt.call_log, confirmed_confirm, if_neg (by simp), List.append_nil]
        | true =>
          have hw : ∀ w : WinSt P, (w.setNcci m { s.a.ncci m with
              dataAckOut := bump maxDataAck (s.a.ncci m).dataAckOut,
              dataAckPending := (s.a.ncci m).dataAckPending - 1 }).acks m =
                ring maxDataAck (s.a.ncci m).dataAck (bump maxDataAck (s.a.ncci m).dataAckOut)
                  ((s.a.ncci m).dataAckPending - 1) := by
            intro w; simp [WinSt.acks]
          simp only [WinSt.inWindow, hw, hcons, WinSt.setNcci_log, List.map_cons]
          rcases hs1 with rfl | rfl
          · exact (List.Sublist.refl _).append (List.sublist_cons_self _ _)
          · rw [WinSt.call_log, confirmed_confirm, if_pos ⟨rfl, by simp⟩]
            simp
      · unfold WinSt.line
        rw [inWindow_congr (s := s) (by simp [Function.update_of_ne e, ha])]
        refine List.Sublist.append (List.Sublist.append ?_ (List.Sublist.refl _)) (List.Sublist.refl _)
        rw [WinSt.setNcci_log]
        rcases hs1 with rfl | rfl
        · exact List.Sublist.refl _
        · rw [WinSt.call_log, confirmed_confirm, if_neg (fun hc => e hc.1.symm), List.append_nil]
  split
  · exact hs1 _ (Or.inr rfl)
  · exact hs1 _ (Or.inl rfl)

theorem flushAck (h : Kept s hand live) (n : Nat) : Kept (s.flushAck n) hand live := by
  unfold WinSt.flushAck
  split
  · exact h.dataAck _
  · exact h

end Kept

/-! ## Requests enter the window -/

theorem pushData_ring {w : Ncci} {k : Nat} (hok : NcciOk w k) (hp : w.dataPending < maxDataB3) (data : DataB3Desc) :
    ring maxDataB3 (WinSt.pushData w data).dBuffer (WinSt.pushData w data).dataOut (WinSt.pushData w data).dataPending =
      ring maxDataB3 w.dBuffer w.dataOut w.dataPending ++ [data] := by
  have := ring_push w.dBuffer hok.out hp data
  unfold WinSt.pushData
  simp only
  split <;> exact this

theorem pushData_acks {w : Ncci} {k : Nat} (hok : NcciOk w k) (ha : w.dataAckPending < maxDataAck) (data : DataB3Desc) :
    ring maxDataAck (WinSt.pushData w data).dataAck (WinSt.pushData w data).dataAckOut
        (WinSt.pushData w data).dataAckPending =
      ring maxDataAck w.dataAck w.dataAckOut w.dataAckPending ++
        if flagged data.flags then [⟨data.handle, data.number⟩] else [] := by
  unfold WinSt.pushData
  simp only
  split
  · exact ring_push w.dataAck hok.ackOut ha _
  · rw [List.append_nil]

/-- The conditions under which a request enters the window of its NCCI. -/
structure Enters (s : WinSt P) (live : List (Slot P)) (msg : Mem) : Prop where
  ncci : headerNcci msg ≠ 0 ∧ headerNcci msg < maxNcci + 1
  plci : s.a.ncciPlci (headerNcci msg) = s.plci.id
  mapped : s.a.chNcci (s.a.ncciCh (headerNcci msg)) = headerNcci msg
  pending : (s.a.ncci (headerNcci msg)).dataPending + live.countP (·.dataFor (headerNcci msg)) < maxDataB3
  acks : (s.a.ncci (headerNcci msg)).dataAckPending < maxDataAck
  parses : WinSt.parsesDataB3 msg = true

namespace Kept

variable {s s' : WinSt P} {hand : Option Hand} {live : List (Slot P)}

/-- A request in hand whose buffer is set. -/
theorem gains_hand (s : WinSt P) (live : List (Slot P)) (msg : Mem) :
    Gains (s.refs none live) (s.refs (some ⟨msg, true⟩) live) .hand (dataB3ReqData msg) := by
  refine gains_push rfl fun k e => ?_
  cases k with
  | queue => rfl
  | hand => exact absurd rfl e
  | window m => rfl

/-- The buffer of a request in hand is in no other place. -/
theorem hand_apart {msg : Mem} (h : Apart (s.refs (some ⟨msg, true⟩) live)) :
    Apart (s.refs none live) ∧ ¬ Held (s.refs none live) (dataB3ReqData msg) := by
  have hgains := gains_hand s live msg
  constructor
  · apply h.sub
    intro k
    cases k with
    | queue => exact List.Sublist.refl _
    | hand => exact List.nil_sublist _
    | window m => exact List.Sublist.refl _
  · exact h.pop_fresh (k := .hand) rfl rfl fun k e => (hgains.elsewhere k e).symm

/-- The rings of the NCCI with the request in its window. -/
theorem pend_push {n k : Nat} (hok : NcciOk (s.a.ncci n) k) (hp : (s.a.ncci n).dataPending < maxDataB3) (data : DataB3Desc)
    (m : Nat) : (s.setNcci n (WinSt.pushData (s.a.ncci n) data)).pend m = s.pend m ++ if m = n then [data] else [] := by
  by_cases e : m = n
  · subst e
    rw [if_pos rfl, WinSt.pend, WinSt.setNcci_ncci, Function.update_self, pushData_ring hok hp]
    rfl
  · rw [if_neg e, List.append_nil, pend_congr (s := s) (by simp [Function.update_of_ne e])]

theorem refs_push {n k : Nat} (hok : NcciOk (s.a.ncci n) k) (hp : (s.a.ncci n).dataPending < maxDataB3)
    (data : DataB3Desc) (hand : Option Hand) (live : List (Slot P)) :
    (s.setNcci n (WinSt.pushData (s.a.ncci n) data)).refs hand live =
      Function.update (s.refs hand live) (.window n) (s.refs hand live (.window n) ++ [data.p]) := by
  rw [refs_setNcci, pushData_ring hok hp, List.map_append]
  rfl

/-- The line of the NCCI gets the request. -/
theorem inWindow_push {msg : Mem} {k : Nat} (hok : NcciOk (s.a.ncci (headerNcci msg)) k)
    (hp : (s.a.ncci (headerNcci msg)).dataPending < maxDataB3) (ha : (s.a.ncci (headerNcci msg)).dataAckPending < maxDataAck)
    (hparses : WinSt.parsesDataB3 msg = true) (m : Nat) (b : Bool) :
    (s.setNcci (headerNcci msg) (WinSt.pushData (s.a.ncci (headerNcci msg)) (WinSt.dataB3Desc msg))).inWindow m b =
      s.inWindow m b ++ entry msg m b := by
  by_cases e : m = headerNcci msg
  · subst e
    cases b with
    | false =>
      rw [WinSt.inWindow, pend_push hok hp, if_pos rfl, List.filter_append, List.map_append]
      congr 1
      by_cases hf : flagged (dataB3ReqFlags msg) = true
      · simp [entry, WinSt.dataB3Desc, hf]
      · simp [entry, WinSt.dataB3Desc, hf, hparses]
    | true =>
      have hacks : (s.setNcci (headerNcci msg) (WinSt.pushData (s.a.ncci (headerNcci msg)) (WinSt.dataB3Desc msg))).acks
          (headerNcci msg) = s.acks (headerNcci msg) ++
            if flagged (dataB3ReqFlags msg) then [⟨dataB3ReqHandle msg, headerNumber msg⟩] else [] := by
        rw [WinSt.acks, WinSt.setNcci_ncci, Function.update_self, pushData_acks hok ha]
        rfl
      rw [WinSt.inWindow, hacks, List.map_append]
      congr 1
      by_cases hf : flagged (dataB3ReqFlags msg) = true
      · simp [entry, hf, hparses]
      · simp [entry, hf]
  · rw [inWindow_congr (s := s) (by simp [Function.update_of_ne e])]
    simp [entry, Ne.symm e]

/-- The request in hand becomes the last of its window. -/
theorem push {msg : Mem} (h : Kept s (some ⟨msg, true⟩) live) (he : Enters s live msg) :
    Kept (s.setNcci (headerNcci msg) (WinSt.pushData (s.a.ncci (headerNcci msg)) (WinSt.dataB3Desc msg))) none live := by
  have hok := h.bounded.ncci (headerNcci msg)
  have hp : (s.a.ncci (headerNcci msg)).dataPending < maxDataB3 := by
    have := he.pending
    omega
  have hrefs := refs_push hok hp (WinSt.dataB3Desc msg) none live
  have hpend := pend_push hok hp (WinSt.dataB3Desc msg)
  have hwindow := inWindow_push hok hp he.acks he.parses
  obtain ⟨hsub, hgone⟩ := hand_apart h.ledger.apart
  have hhand := gains_hand s live msg
  have hbounded := h.bounded.setNcci (hok.pushData he.pending he.acks (WinSt.dataB3Desc msg))
  generalize WinSt.pushData (s.a.ncci (headerNcci msg)) (WinSt.dataB3Desc msg) = w at hrefs hpend hwindow hbounded ⊢
  have hk : (s.setNcci (headerNcci msg) w).refs none live (.window (headerNcci msg)) =
      s.refs none live (.window (headerNcci msg)) ++ [dataB3ReqData msg] := by
    rw [hrefs, Function.update_self]
    rfl
  have ho : ∀ k, k ≠ .window (headerNcci msg) → (s.setNcci (headerNcci msg) w).refs none live k = s.refs none live k := by
    intro k e
    rw [hrefs, Function.update_of_ne e]
  have hgains : Gains (s.refs none live) ((s.setNcci (headerNcci msg) w).refs none live) (.window (headerNcci msg))
      (dataB3ReqData msg) := gains_push hk ho
  refine ⟨hbounded, h.appl, h.id, h.owner, ?_, h.req, ?_, ?_, ?_⟩
  · refine (h.ledger.keep (hsub.push hgone hk ho) fun r => ?_).congr rfl rfl rfl
    unfold HeldBy
    rw [hgains.held, hhand.held]
    rfl
  · intro k r hr hk
    rcases hgains.mem.mp hk with hk | ⟨-, rfl⟩
    · obtain ⟨m, d, ds, rfl, hp, hd, hch⟩ := h.head k r hr (hhand.mem.mpr (Or.inl hk))
      exact ⟨m, d, _, rfl, by rw [hpend, hp]; rfl, hd, hch⟩
    · -- the buffer with the adapter is in a window
      obtain ⟨m, d, ds, hwin, -⟩ := h.head .hand _ hr (hhand.mem.mpr (Or.inr ⟨rfl, rfl⟩))
      cases hwin
  · intro m hm
    by_cases e : m = headerNcci msg
    · subst e
      exact ⟨he.ncci.1, he.ncci.2, he.plci, he.mapped⟩
    · exact h.mapped m (by simpa [Function.update_of_ne e] using hm)
  · refine h.lines.mono rfl fun m b => ?_
    unfold WinSt.line
    rw [hwindow]
    simp only [WinSt.inHand, WinSt.setNcci_log, List.nil_append, List.append_assoc]
    exact List.Sublist.refl _

/-- The request in hand is dropped: its buffer is freed. -/
theorem free {msg : Mem} (h : Kept s (some ⟨msg, true⟩) live) :
    Kept (s.bufferFree s.plci.appl (dataB3ReqData msg)) none live := by
  obtain ⟨hsub, hgone⟩ := hand_apart h.ledger.apart
  have hhand := gains_hand s live msg
  refine ⟨h.bounded.congr rfl rfl, h.appl, h.id, h.owner, ?_, h.req, fun k r hr hk => ?_, h.mapped,
    h.lines.mono rfl fun n b => ?_⟩
  · refine h.ledger.release (Or.inl ⟨.hand, List.mem_singleton_self _⟩) hsub ?_ fun x hx => ?_
    · intro hw
      rcases hw with hh | hs
      · exact hgone hh
      · -- the buffer in hand is not the one with the adapter, which is in a window if anywhere
        obtain ⟨n, d, ds, hk, -⟩ := h.head .hand _ hs (List.mem_singleton_self _)
        cases hk
    · unfold HeldBy
      rw [hhand.held, or_iff_right hx]
      rfl
  · exact h.head k r hr (hhand.mem.mpr (Or.inl hk))
  · unfold WinSt.line
    rw [WinSt.bufferFree_log, confirmed_call (by simp)]
    refine List.Sublist.append (List.Sublist.refl _) ?_
    exact List.sublist_append_right _ _

/-- A request in hand whose buffer is not set has none. -/
theorem refs_unset (s : WinSt P) (live : List (Slot P)) (msg : Mem) :
    s.refs none live = s.refs (some ⟨msg, false⟩) live := by
  funext k
  cases k <;> rfl

/-- A request whose buffer was never set is dropped. -/
theorem forget {msg : Mem} (h : Kept s (some ⟨msg, false⟩) live) : Kept s none live := by
  have hrefs := refs_unset s live msg
  refine ⟨h.bounded, h.appl, h.id, h.owner, hrefs ▸ h.ledger, h.req, fun k r hr hk => h.head k r hr (hrefs ▸ hk),
    h.mapped, h.lines.mono rfl fun n b => ?_⟩
  exact List.Sublist.append (List.Sublist.refl _) (List.sublist_append_right _ _)

/-- The buffer of the request in hand is set. -/
theorem set {msg : Mem} (h : Kept s (some ⟨msg, false⟩) live) (hlt : dataB3ReqData msg < 65536)
    (hfree : s.used s.plci.appl (dataB3ReqData msg) = false) :
    Kept (s.bufferSet s.plci.appl (dataB3ReqData msg)) (some ⟨msg, true⟩) live := by
  have hnot : ¬ HeldBy (s.refs (some ⟨msg, false⟩) live) s.sent (dataB3ReqData msg) := fun hh => by
    have := h.ledger.used _ hh
    rw [hfree] at this
    cases this
  have hhand := gains_hand s live msg
  rw [refs_unset s live msg] at hhand
  have ha : Apart (s.refs (some ⟨msg, true⟩) live) :=
    h.ledger.apart.push (fun hh => hnot (Or.inl hh)) rfl hhand.elsewhere
  refine ⟨h.bounded.congr rfl rfl, h.appl, h.id, h.owner, ?_, h.req, fun k r hr hkr => ?_, h.mapped,
    h.lines.mono rfl fun n b => ?_⟩
  · refine h.ledger.gain hlt hnot ha fun x => ?_
    show Held (s.refs (some ⟨msg, true⟩) live) x ∨ s.sent = some x ↔ _
    rw [hhand.held, or_assoc]
    rfl
  · rcases hhand.mem.mp hkr with hkr | ⟨-, rfl⟩
    · exact h.head k r hr hkr
    · exact absurd (Or.inr hr) hnot
  · unfold WinSt.line
    rw [WinSt.bufferSet_log, confirmed_call (by simp)]
    exact List.Sublist.refl _

/-- A confirmation that refuses a request. -/
theorem refused (h : Kept s hand live) (n number handle info : Nat) (a : ApplPtr P) :
    Kept (s.call (.confirm .dataB3Req a n number handle info)) hand live := by
  refine ⟨h.bounded.congr rfl rfl, h.appl, h.id, h.owner, h.ledger.call (by simp) (by simp), h.req, h.head, h.mapped,
    h.lines.mono rfl fun m b => ?_⟩
  unfold WinSt.line
  rw [WinSt.call_log, confirmed_confirm, if_neg (by cases b <;> simp), List.append_nil]
  exact List.Sublist.refl _

/-- The PLCI remembers the command it works on. -/
theorem command (h : Kept s hand live) (command number : Nat) :
    Kept { s with plci := { s.plci with command := command, number := number } } hand live :=
  ⟨h.bounded.congr rfl rfl, h.appl, h.id, h.owner, h.ledger.congr rfl rfl rfl, h.req, h.head, h.mapped, h.lines⟩

/-- `data_b3_req` for a queued message. -/
theorem dataB3Req_queued {msg : Mem} (h : Kept s (some ⟨msg, true⟩) live) (hplci : headerPlci msg ≠ 0) {takes : Bool}
    (he : takes = true → headerNcci msg ≠ 0 → Enters s live msg) :
    Kept (s.dataB3Req takes s.plci.appl msg true) none live := by
  unfold WinSt.dataB3Req
  simp only
  split
  · rename_i hgo
    exact (h.push (he hgo.1.1 hgo.1.2)).sendData
  · rw [if_pos h.appl, if_pos (by simp [hplci])]
    exact h.free.refused _ _ _ _ _

/-- `data_b3_req` for a message straight from the application. -/
theorem dataB3Req_direct {msg : Mem} (h : Kept s (some ⟨msg, false⟩) live) (hlt : dataB3ReqData msg < 65536)
    (hfree : s.used s.plci.appl (dataB3ReqData msg) = false) (he : headerNcci msg ≠ 0 → Enters s live msg) :
    Kept (s.dataB3Req true s.plci.appl msg false) none live := by
  unfold WinSt.dataB3Req
  simp only
  split
  · rename_i hgo
    have he' := he hgo.1.2
    have hset := h.set hlt hfree
    exact (hset.push ⟨he'.ncci, he'.plci, he'.mapped, he'.pending, he'.acks, he'.parses⟩).sendData
  · rw [if_pos h.appl, if_neg (by simp)]
    exact h.forget.refused _ _ _ _ _

end Kept

/-! ## Messages enter and leave the queue -/

/-- Two memories that agree inside the message have the same entry. -/
theorem entry_congr {m m' : Mem} (hl : headerLength m = headerLength m')
    (hw : ∀ j, j + 2 ≤ headerLength m' → word m j = word m' j) (n : Nat) (b : Bool) : entry m n b = entry m' n b := by
  unfold entry WinSt.parsesDataB3
  rw [hl]
  by_cases hp : sizeofHeader + 10 ≤ headerLength m'
  · unfold sizeofHeader at hp
    have h1 : headerNcci m = headerNcci m' := hw 10 (by omega)
    have h2 : dataB3ReqFlags m = dataB3ReqFlags m' := hw 20 (by omega)
    have h3 : headerNumber m = headerNumber m' := hw 6 (by omega)
    have h4 : dataB3ReqHandle m = dataB3ReqHandle m' := hw 18 (by omega)
    rw [h1, h2, h3, h4]
  · rw [if_neg (by simp [hp]), if_neg (by simp [hp])]

theorem accept_accepted {s : WinSt P} {msg : Mem} (hp : WinSt.parsesDataB3 msg = true) (n : Nat) (b : Bool) :
    (s.accept msg).accepted n b = s.accepted n b ++ entry msg n b := by
  unfold WinSt.accept entry
  simp only
  by_cases hn : headerNcci msg = n
  · subst hn
    rw [Function.update_self]
    by_cases hb : flagged (dataB3ReqFlags msg) = b
    · subst hb
      rw [Function.update_self, if_pos ⟨rfl, hp, rfl⟩]
    · rw [Function.update_of_ne (Ne.symm hb), if_neg (fun h => hb h.2.2), List.append_nil]
  · rw [Function.update_of_ne (Ne.symm hn), if_neg (fun h => hn h.1), List.append_nil]

namespace Kept

variable {s s' : WinSt P} {hand : Option Hand} {live : List (Slot P)}

/-- A request that is handed on at once: nothing is queued before it. -/
theorem accept {msg : Mem} (h : Kept s none []) (hp : WinSt.parsesDataB3 msg = true) :
    Kept (s.accept msg) (some ⟨msg, false⟩) [] := by
  have hrefs : (s.accept msg).refs (some ⟨msg, false⟩) [] = s.refs none [] := by funext k; cases k <;> rfl
  refine ⟨h.bounded.congr rfl rfl, h.appl, h.id, h.owner, ?_, h.req, fun k r hr hk => h.head k r hr (hrefs ▸ hk),
    h.mapped, fun n b => ?_⟩
  · rw [hrefs]; exact h.ledger.congr rfl rfl rfl
  · rw [accept_accepted hp]
    have := h.lines n b
    unfold WinSt.line at this ⊢
    simp only [WinSt.inHand, WinSt.inQueue, List.filter_nil, List.flatMap_nil, List.append_nil] at this ⊢
    exact this.append (List.Sublist.refl _)

/-- The places of a longer queue. -/
theorem refs_snoc (s : WinSt P) (live : List (Slot P)) (t : Slot P) :
    s.refs none (live ++ [t]) = Function.update (s.refs none live) .queue
      (s.refs none live .queue ++ if t.isData then [dataB3ReqData t.mem] else []) := by
  funext k
  cases k with
  | queue =>
    simp only [WinSt.refs, List.filter_append, List.map_append, Function.update_self, List.filter_singleton]
    split <;> simp_all
  | hand => rfl
  | window n => rfl

theorem inQueue_snoc (live : List (Slot P)) (t : Slot P) (n : Nat) (b : Bool) :
    WinSt.inQueue (live ++ [t]) n b = WinSt.inQueue live n b ++ if t.isData then entry t.mem n b else [] := by
  unfold WinSt.inQueue
  rw [List.filter_append, List.flatMap_append, List.filter_singleton]
  split <;> simp_all

/-- A message that is no DATA_B3 request is queued. -/
theorem enqueue_other (h : Kept s none live) {q : MsgIn} {t : Slot P} (ht : t.isData = false)
    (hb : Bounded { s with plci := s.plci.withQueue q } (live ++ [t])) :
    Kept { s with plci := s.plci.withQueue q } none (live ++ [t]) := by
  have hrefs : s.refs none (live ++ [t]) = s.refs none live := by
    rw [refs_snoc, ht]
    simp only [Bool.false_eq_true, if_false, List.append_nil, Function.update_eq_self]
  refine ⟨hb, h.appl, h.id, fun u hu hd => ?_, ?_, h.req, fun k r hr hk => ?_, h.mapped, h.lines.mono rfl fun n b => ?_⟩
  · rcases List.mem_append.mp hu with hu | hu
    · exact h.owner u hu hd
    · rw [List.mem_singleton.mp hu, ht] at hd
      cases hd
  · show Ledger _ (s.refs none (live ++ [t])) s.sent
    rw [hrefs]
    exact h.ledger.congr rfl rfl rfl
  · exact h.head k r hr (hrefs ▸ hk)
  · refine List.Sublist.append (List.Sublist.refl _) ?_
    rw [inQueue_snoc, ht]
    simp only [Bool.false_eq_true, if_false, List.append_nil]
    exact List.Sublist.refl _

/-- A DATA_B3 request of the PLCI's application is queued, its buffer set. -/
theorem enqueue_data (h : Kept s none live) {q : MsgIn} {t : Slot P} (ht : t.isData = true)
    (hown : t.appl = s.plci.appl ∧ headerPlci t.mem = s.plci.id) (hlt : dataB3ReqData t.mem < 65536)
    (hfree : s.used s.plci.appl (dataB3ReqData t.mem) = false) (acc : Nat → Bool → List (Nat × Nat))
    (hacc : ∀ n b, acc n b = s.accepted n b ++ entry t.mem n b)
    (hb : Bounded { s with plci := s.plci.withQueue q } (live ++ [t])) :
    Kept { s.bufferSet s.plci.appl (dataB3ReqData t.mem) with plci := s.plci.withQueue q, accepted := acc } none
      (live ++ [t]) := by
  have hnot : ¬ HeldBy (s.refs none live) s.sent (dataB3ReqData t.mem) := fun hh => by
    have := h.ledger.used _ hh
    rw [hfree] at this
    cases this
  have hrefs := refs_snoc s live t
  rw [ht, if_pos rfl] at hrefs
  have hk : s.refs none (live ++ [t]) .queue = s.refs none live .queue ++ [dataB3ReqData t.mem] := by
    rw [hrefs, Function.update_self]
  have ho : ∀ k, k ≠ .queue → s.refs none (live ++ [t]) k = s.refs none live k := by
    intro k e
    rw [hrefs, Function.update_of_ne e]
  have ha : Apart (s.refs none (live ++ [t])) := h.ledger.apart.push (fun hh => hnot (Or.inl hh)) hk ho
  have hgains : Gains (s.refs none live) (s.refs none (live ++ [t])) .queue (dataB3ReqData t.mem) := gains_push hk ho
  refine ⟨hb.congr rfl rfl, h.appl, h.id, fun u hu hd => ?_, ?_, h.req, fun k r hr hk => ?_, h.mapped, fun n b => ?_⟩
  · rcases List.mem_append.mp hu with hu | hu
    · exact h.owner u hu hd
    · rw [List.mem_singleton.mp hu]
      exact hown
  · refine (h.ledger.gain hlt hnot ha fun x => ?_).congr rfl rfl rfl
    show Held (s.refs none (live ++ [t])) x ∨ s.sent = some x ↔ _
    rw [hgains.held, or_assoc]
    rfl
  · rcases hgains.mem.mp hk with hk | ⟨-, rfl⟩
    · exact h.head k r hr hk
    · exact absurd (Or.inr hr) hnot
  · show ((confirmed (s.log ++ [_]) n b ++ _) ++ (_ ++ WinSt.inQueue (live ++ [t]) n b)).Sublist (acc n b)
    rw [confirmed_call (by simp), inQueue_snoc, ht, if_pos rfl, hacc, ← List.append_assoc, ← List.append_assoc]
    refine List.Sublist.append ?_ (List.Sublist.refl _)
    have := h.lines n b
    unfold WinSt.line at this
    rw [← List.append_assoc] at this
    exact this

/-- The head message is taken out of the queue; a DATA_B3 request is in hand then. -/
theorem take {t : Slot P} {rest : List (Slot P)} (h : Kept s none (t :: rest)) :
    if t.isData then Kept { s with plci := s.plci.withQueue (dequeueMsg P s.plci.toMsgIn) }
        (some ⟨headMsg s.plci.toMsgIn, true⟩) rest
      else Kept { s with plci := s.plci.withQueue (dequeueMsg P s.plci.toMsgIn) } none rest := by
  have hb : Bounded { s with plci := s.plci.withQueue (dequeueMsg P s.plci.toMsgIn) } rest := h.bounded.tail rfl rfl
  have hown : ∀ u ∈ rest, u.isData = true → u.appl = s.plci.appl ∧ headerPlci u.mem = s.plci.id :=
    fun u hu hd => h.owner u (List.mem_cons_of_mem _ hu) hd
  by_cases ht : t.isData = true
  · rw [if_pos ht]
    have hst := h.bounded.holds.stored t (by simp)
    have hhead := h.bounded.holds.head.mem
    have hlen : 20 ≤ t.msg.length := h.bounded.lens t (by simp) (by simpa [Slot.isData] using ht)
    have hl : headerLength (headMsg s.plci.toMsgIn) = headerLength t.mem := by
      rw [hhead]; exact hst.word (by omega)
    have hlt : headerLength t.mem = t.msg.length := by rw [← hl]; exact h.bounded.holds.head.length
    have hdata : dataB3ReqData (headMsg s.plci.toMsgIn) = dataB3ReqData t.mem := by
      rw [hhead]; exact hst.dword (by omega)
    have hentry : ∀ n b, entry (headMsg s.plci.toMsgIn) n b = entry t.mem n b :=
      entry_congr hl fun j hj => by rw [hhead]; exact hst.word (by omega)
    have hq : s.refs none (t :: rest) .queue = dataB3ReqData t.mem :: s.refs none rest .queue := by
      simp [WinSt.refs, ht]
    have ho : ∀ k, k ≠ .queue → s.refs none (t :: rest) k = s.refs none rest k := by
      intro k e
      cases k with
      | queue => exact absurd rfl e
      | hand => rfl
      | window n => rfl
    have hhand := gains_hand s rest (headMsg s.plci.toMsgIn)
    rw [hdata] at hhand
    have hmem : ∀ x, Held (s.refs (some ⟨headMsg s.plci.toMsgIn, true⟩) rest) x ↔ Held (s.refs none (t :: rest)) x :=
      fun x => (hhand.held x).trans ((gains_cons hq ho).held x).symm
    have hsub : Apart (s.refs none rest) := h.ledger.apart.sub fun k => by
      cases k with
      | queue => rw [hq]; exact List.sublist_cons_self _ _
      | hand => exact List.Sublist.refl _
      | window n => exact List.Sublist.refl _
    have hgone : ¬ Held (s.refs none rest) (dataB3ReqData t.mem) :=
      h.ledger.apart.pop_fresh hq rfl fun k e => (ho k e).symm
    have ha : Apart (s.refs (some ⟨headMsg s.plci.toMsgIn, true⟩) rest) :=
      hsub.push (k := .hand) hgone (by rw [WinSt.refs, hdata]; rfl) hhand.elsewhere
    refine ⟨hb, h.appl, h.id, hown, ?_, h.req, fun k r hr hk => ?_, h.mapped, h.lines.mono rfl fun n b => ?_⟩
    · refine (h.ledger.keep ha fun r => ?_).congr rfl rfl rfl
      unfold HeldBy
      rw [hmem]
      rfl
    · obtain ⟨k', hk'⟩ := (hmem r).mp ⟨k, hk⟩
      obtain ⟨n, d, ds, rfl, hp, hd, hch⟩ := h.head k' r hr hk'
      exact ⟨n, d, ds, ha.unique k (.window n) r hk (by rw [WinSt.refs, hp, List.map_cons, hd]; exact List.mem_cons_self),
        hp, hd, hch⟩
    · have hin : WinSt.inQueue (t :: rest) n b = entry t.mem n b ++ WinSt.inQueue rest n b := by
        simp [WinSt.inQueue, ht]
      refine List.Sublist.append (List.Sublist.refl _) ?_
      rw [hin, ← hentry]
      exact List.Sublist.refl _
  · rw [if_neg ht]
    have hrefs : s.refs none (t :: rest) = s.refs none rest := by
      funext k
      cases k with
      | queue => simp [WinSt.refs, ht]
      | hand => rfl
      | window n => rfl
    refine ⟨hb, h.appl, h.id, hown, ?_, h.req, fun k r hr hk => h.head k r hr (hrefs ▸ hk), h.mapped,
      h.lines.mono rfl fun n b => ?_⟩
    · have := h.ledger
      rw [hrefs] at this
      exact this.congr rfl rfl rfl
    · have hin : WinSt.inQueue (t :: rest) n b = WinSt.inQueue rest n b := by
        simp [WinSt.inQueue, ht]
      refine List.Sublist.append (List.Sublist.refl _) ?_
      rw [hin]

end Kept

/-! ## Steps and runs -/

/-- The condition on a step: a DATA_B3 request that its PLCI takes comes from the
    application of the PLCI, and as it reaches `data_b3_req` its NCCI is mapped to its
    channel. -/
def Cond (s : WinSt P) : WinSt.Ev P → Prop
  | .put x => headerCommand x.msg = cmdDataB3R → plciTakes P s.a s.plci x.msg = true →
      x.appl = s.plci.appl ∧ Mapped s (headerNcci x.msg)
  | .dequeue _ _ => headerCommand (headMsg s.plci.toMsgIn) = cmdDataB3R → Mapped s (headerNcci (headMsg s.plci.toMsgIn))
  | _ => True

/-- A DATA_B3 request that goes straight to its function finds the queue empty. -/
theorem put_dispatch_empty {maxAdapter : Nat} {a : Adapter} {p : Plci P} {ap : Appl} {msg : Mem}
    (h : apiPutReenter P maxAdapter a p ap msg false = .dispatch true) (hcmd : headerCommand msg = cmdDataB3R) :
    p.msgInWritePos = p.msgInReadPos := by
  obtain ⟨hr, ht⟩ := put_accepts (by rw [h]; simp) (by rw [h]; simp)
  rw [apiPutReenter_taken hr ht] at h
  unfold putTaken at h
  simp only [if_pos hcmd] at h
  have hbranch : ∀ j, enqueueBranch P a p ap msg j ≠ .dispatch true := by
    intro j hb
    rcases enqueueBranch_cases a p ap msg j with h' | h' | ⟨-, h'⟩
    · rw [h'] at hb; cases hb
    · rw [h'] at hb; cases hb
    · rw [hcmd] at h'; revert h'; decide
  split at h
  · cases h
  split at h
  · cases h
  split at h
  · cases h
  split at h
  · cases h
  split at h
  · exact absurd h (hbranch _)
  · rename_i hc
    simp only [Bool.or_eq_true, not_or, Bool.and_eq_true, Bool.not_false, true_and, bne_iff_ne, ne_eq,
      Decidable.not_not] at hc
    exact hc.1

/-- What `api_put_reenter` found out about a DATA_B3 request is what it needs to enter
    the window. -/
theorem enters {s : WinSt P} {live : List (Slot P)} (h : Bounded s live) {maxAdapter : Nat} {ap : Appl} {msg : Mem}
    {queued : Bool} (hr : apiPutReenter P maxAdapter s.a s.plci ap msg queued = .dispatch true)
    (hcmd : headerCommand msg = cmdDataB3R) (hm : Mapped s (headerNcci msg)) (hp : WinSt.parsesDataB3 msg = true)
    (hn : headerNcci msg ≠ 0) : Enters s live msg := by
  obtain ⟨-, hpend, hack⟩ := h.room_of_put hr (Or.inl rfl) hcmd
  obtain ⟨-, ht⟩ := put_accepts (by rw [hr]; simp) (by rw [hr]; simp)
  have hc : (cmdDataB3R == cmdDisconnectB3IResponse) = false := by decide
  simp only [plciTakes, Bool.and_eq_true, Bool.or_eq_true, hcmd, hc, beq_iff_eq, decide_eq_true_eq,
    Bool.false_eq_true, or_false, hn, false_or] at ht
  exact ⟨⟨hn, ht.2.1⟩, ht.2.2, hm ht.2.2, hpend, hack, hp⟩

namespace Kept

variable {s : WinSt P} {live : List (Slot P)}

theorem put (h : Kept s none live) {x : WinSt.Put P} (hadm : s.admits x = true) (hc : Cond s (.put x)) :
    ∃ live', Kept (s.put x) none live' := by
  simp only [WinSt.admits, Bool.and_eq_true, beq_iff_eq, Bool.or_eq_true, bne_iff_ne, decide_eq_true_eq,
    Bool.not_eq_true'] at hadm
  obtain ⟨hplci, hbuf⟩ := hadm
  unfold WinSt.put
  rcases hr : apiPutReenter P x.maxAdapter s.a s.plci x.ap x.msg false with _ | _ | j | takes
  · exact ⟨live, h⟩
  · exact ⟨live, h⟩
  · obtain ⟨hlen, hroom, rfl⟩ := apiPutReenter_enqueue hr
    have hdata := fun hcmd => h.bounded.room_of_put hr (Or.inr ⟨_, rfl⟩) hcmd
    have hb : Bounded
        { s with plci := s.plci.withQueue (enqueueMsg P s.plci.toMsgIn
            (msgInRoom P s.plci.toMsgIn (headerLength x.msg)).2 x.msg x.appl) }
        (live ++ [newSlot (msgInRoom P s.plci.toMsgIn (headerLength x.msg)).2 x.msg x.appl]) :=
      h.bounded.enqueue hlen hroom (fun hcmd => ⟨(hdata hcmd).1, (hdata hcmd).2.1⟩) rfl rfl
    have hcmd' : ∀ j, headerCommand (newSlot j x.msg x.appl).mem = headerCommand x.msg := fun j =>
      newSlot_word (by unfold sizeofHeader at hlen; omega)
    refine ⟨live ++ [newSlot (msgInRoom P s.plci.toMsgIn (headerLength x.msg)).2 x.msg x.appl], ?_⟩
    simp only
    by_cases hcmd : headerCommand x.msg = cmdDataB3R
    · rw [if_pos hcmd]
      obtain ⟨-, ht⟩ := put_accepts (by rw [hr]; simp) (by rw [hr]; simp)
      obtain ⟨happl, -⟩ := hc hcmd ht
      obtain ⟨hlt, hfree⟩ := hbuf.resolve_left (fun hne => hne hcmd)
      have h20 := (hdata hcmd).1
      have hl : ∀ j, headerLength (newSlot j x.msg x.appl).mem = headerLength x.msg := fun j => newSlot_word (by omega)
      have hd : ∀ j, dataB3ReqData (newSlot j x.msg x.appl).mem = dataB3ReqData x.msg := fun j => newSlot_dword (by omega)
      have he : ∀ j n b, entry (newSlot j x.msg x.appl).mem n b = entry x.msg n b := fun j n b =>
        entry_congr (hl j) (fun k hk => newSlot_word hk) n b
      have hacc : ∀ n b, (if WinSt.parsesDataB3 x.msg = true then s.accept x.msg else s).accepted n b =
          s.accepted n b ++ entry x.msg n b := by
        intro n b
        split
        · rename_i hp; exact accept_accepted hp n b
        · rename_i hp; rw [entry, if_neg (fun hh => hp hh.2.1), List.append_nil]
      have hk := h.enqueue_data (t := newSlot (msgInRoom P s.plci.toMsgIn (headerLength x.msg)).2 x.msg x.appl)
        (by simp [Slot.isData, hcmd', hcmd])
        ⟨happl, by
          show ((newSlot _ x.msg x.appl).mem 9).toNat = _
          rw [newSlot_mem (by omega)]
          exact hplci⟩
        (by rw [hd]; exact hlt) (by rw [hd, ← happl]; exact hfree)
        (if WinSt.parsesDataB3 x.msg = true then s.accept x.msg else s).accepted (fun n b => by rw [he]; exact hacc n b) hb
      rw [hd, ← happl] at hk
      have hstate : ∀ s1 : WinSt P, s1.a = s.a → s1.plci = s.plci → s1.used = s.used → s1.log = s.log →
          { s1.bufferSet x.appl (transmitBufferSet (dataB3ReqData x.msg)) with
            plci := s1.plci.withQueue (enqueueMsg P s.plci.toMsgIn
              (msgInRoom P s.plci.toMsgIn (headerLength x.msg)).2 x.msg x.appl) } =
          { s.bufferSet x.appl (dataB3ReqData x.msg) with
            plci := s.plci.withQueue (enqueueMsg P s.plci.toMsgIn
              (msgInRoom P s.plci.toMsgIn (headerLength x.msg)).2 x.msg x.appl)
            accepted := s1.accepted } := by
        intro s1 h1 h2 h3 h4
        simp only [WinSt.bufferSet, WinSt.call, transmitBufferSet, h1, h2, h3, h4]
      rw [hstate _ (by split <;> rfl) (by split <;> rfl) (by split <;> rfl) (by split <;> rfl)]
      exact hk
    · rw [if_neg hcmd]
      exact h.enqueue_other (by simp [Slot.isData, hcmd', hcmd]) hb
  · simp only
    by_cases hcmd : headerCommand x.msg = cmdDataB3R
    · obtain ⟨hlt, hfree⟩ := hbuf.resolve_left (fun hne => hne hcmd)
      refine ⟨live, ?_⟩
      unfold WinSt.dispatch
      simp only [if_pos hcmd]
      cases takes with
      | false =>
        simp only [Bool.false_and, Bool.false_eq_true, if_false]
        split
        · unfold WinSt.dataB3Req
          simp only [Bool.false_eq_true, false_and, if_false, Bool.and_false]
          split
          · exact h.refused _ _ _ _ _
          · exact h
        · exact h
      | true =>
        obtain ⟨-, ht⟩ := put_accepts (by rw [hr]; simp) (by rw [hr]; simp)
        obtain ⟨happl, hmap⟩ := hc hcmd ht
        have hnil : live = [] := h.bounded.holds.layout.empty_iff.mp (put_dispatch_empty hr hcmd).symm
        subst hnil
        simp only [hcmd, BEq.rfl, Bool.and_self, Bool.true_and, if_true]
        by_cases hp : WinSt.parsesDataB3 x.msg = true
        · rw [if_pos hp, if_pos hp]
          rw [happl] at hfree ⊢
          have hk := (h.accept hp).command cmdDataB3R (headerNumber x.msg)
          refine hk.dataB3Req_direct hlt hfree fun hn => ?_
          have he := enters h.bounded hr hcmd hmap hp hn
          exact ⟨he.ncci, he.plci, he.mapped, he.pending, he.acks, he.parses⟩
        · rw [if_neg hp, if_neg hp]
          exact (h.command cmdDataB3R (headerNumber x.msg)).command 0 (headerNumber x.msg)
    · refine ⟨live, ?_⟩
      have hf : (headerCommand x.msg == cmdDataB3R) = false := by simpa using hcmd
      simp only [hf, Bool.and_false, Bool.false_and, Bool.false_eq_true, if_false, WinSt.dispatch, if_neg hcmd]
      split
      · exact h.command _ _
      · exact h

theorem dequeue (h : Kept s none live) {maxAdapter : Nat} {ap : Appl} (hc : Cond s (.dequeue maxAdapter ap)) :
    ∃ live', Kept (s.dequeue maxAdapter ap) none live' := by
  unfold WinSt.dequeue
  split
  swap
  · exact ⟨live, h⟩
  rename_i hgo
  simp only [Bool.and_eq_true, Bool.not_eq_true', bne_iff_ne] at hgo
  cases live with
  | nil => exact absurd (h.bounded.holds.layout.empty_iff.mpr rfl).symm hgo.2
  | cons t rest =>
    refine ⟨rest, ?_⟩
    have htake := h.take
    have hst := h.bounded.holds.stored t (by simp)
    have hhead := h.bounded.holds.head
    have hlen := hst.header
    unfold sizeofHeader at hlen
    have hcmd : headerCommand (headMsg s.plci.toMsgIn) = headerCommand t.mem := by
      rw [hhead.mem]; exact hst.word (by omega)
    have hidle : plciBusy P (s.plci.withQueue (dequeueMsg P s.plci.toMsgIn)) = false := hgo.1
    simp only
    by_cases ht : t.isData = true
    · rw [if_pos ht] at htake
      have hcmd' : headerCommand (headMsg s.plci.toMsgIn) = cmdDataB3R := by
        rw [hcmd]; simpa [Slot.isData] using ht
      obtain ⟨hown, hplci⟩ := h.owner t (by simp) ht
      have hne : headerPlci (headMsg s.plci.toMsgIn) ≠ 0 := by
        have : headerPlci (headMsg s.plci.toMsgIn) = headerPlci t.mem := by
          rw [hhead.mem]
          show (from_ s.plci.msgInQueue t.off 9).toNat = (t.mem 9).toNat
          rw [hst.byte (by omega)]
        rw [this, hplci]; exact h.id
      have hdrop : Kept (WinSt.dropMsg { s with plci := s.plci.withQueue (dequeueMsg P s.plci.toMsgIn) } s.plci.appl
          (headMsg s.plci.toMsgIn)) none rest := by
        unfold WinSt.dropMsg
        rw [if_pos hcmd']
        exact htake.free
      rw [hhead.appl, hown, if_pos h.appl]
      rcases hr : s.headPut maxAdapter ap with _ | _ | j | takes
      · exact hdrop
      · exact hdrop
      · exact absurd hr (requeue_not_enqueue hidle)
      · simp only [WinSt.dispatch, if_pos hcmd']
        by_cases hp : WinSt.parsesDataB3 (headMsg s.plci.toMsgIn) = true
        · simp only [if_pos hp, if_true]
          cases takes with
          | true =>
            have hk := htake.command (headerCommand (headMsg s.plci.toMsgIn)) (headerNumber (headMsg s.plci.toMsgIn))
            refine hk.dataB3Req_queued hne fun _ hn => ?_
            have hb : Bounded { s with plci := s.plci.withQueue (dequeueMsg P s.plci.toMsgIn) } rest := htake.bounded
            have he := enters hb hr hcmd' (hc hcmd') hp hn
            exact ⟨he.ncci, he.plci, he.mapped, he.pending, he.acks, he.parses⟩
          | false => exact htake.dataB3Req_queued hne (fun hf => by cases hf)
        · simp only [if_neg hp, Bool.false_eq_true, if_false]
          unfold WinSt.dropMsg
          rw [if_pos hcmd']
          cases takes with
          | true =>
            have hk := htake.command 0 (headerNumber (headMsg s.plci.toMsgIn))
            exact hk.free
          | false => exact htake.free
    · rw [if_neg ht] at htake
      have hcmd' : headerCommand (headMsg s.plci.toMsgIn) ≠ cmdDataB3R := by
        rw [hcmd]; simpa [Slot.isData] using ht
      have hdrop : ∀ appl, Kept (WinSt.dropMsg { s with plci := s.plci.withQueue (dequeueMsg P s.plci.toMsgIn) } appl
          (headMsg s.plci.toMsgIn)) none rest := by
        intro appl
        unfold WinSt.dropMsg
        rw [if_neg hcmd']
        exact htake
      split
      · rcases hr : s.headPut maxAdapter ap with _ | _ | j | takes
        · exact hdrop _
        · exact hdrop _
        · exact absurd hr (requeue_not_enqueue hidle)
        · simp only [WinSt.dispatch, if_neg hcmd', if_true]
          split
          · exact htake.command _ _
          · exact htake
      · exact htake

/-- The environment. -/
theorem other (h : Kept s none live) {o : WinSt.Other} (ho : s.allows o = true) : Kept (s.other o) none live := by
  simp only [WinSt.allows, Bool.and_eq_true, Bool.or_eq_true, Bool.not_eq_true', beq_iff_eq, List.all_eq_true,
    List.mem_range] at ho
  obtain ⟨hreq, hmap⟩ := ho
  have hkeep : ∀ n, (s.a.ncci n).dataPending ≠ 0 →
      o.ncciCh n = s.a.ncciCh n ∧ o.ncciPlci n = s.a.ncciPlci n ∧ o.chNcci (s.a.ncciCh n) = s.a.chNcci (s.a.ncciCh n) := by
    intro n hn
    obtain ⟨⟨h1, h2⟩, h3⟩ := (hmap n (h.mapped n hn).2.1).resolve_left hn
    exact ⟨h1, h2, h3⟩
  refine ⟨h.bounded.congr rfl rfl, h.appl, h.id, h.owner, h.ledger.congr rfl rfl rfl, fun hd => ?_, fun k r hr hk => ?_,
    fun n hn => ?_, h.lines⟩
  · rcases hreq with hf | ⟨h1, -⟩
    · exact absurd hd (by rw [show (s.other o).plci.dataSent = s.plci.dataSent from rfl, hf]; simp)
    · exact h1
  · obtain ⟨n, d, ds, rfl, hp, hd, hch⟩ := h.head k r hr hk
    have hn : (s.a.ncci n).dataPending ≠ 0 := fun h0 => by
      rw [pend_nil_iff.mpr h0] at hp
      cases hp
    have hsent : s.plci.dataSent = true := by
      by_contra hf
      have : s.sent = none := by simp [WinSt.sent, hf]
      rw [show (s.other o).sent = s.sent from rfl, this] at hr
      cases hr
    refine ⟨n, d, ds, rfl, hp, hd, ?_⟩
    rcases hreq with hf | ⟨-, h2⟩
    · rw [hf] at hsent; cases hsent
    · show o.nlReqCh = o.ncciCh n
      rw [h2, hch, (hkeep n hn).1]
  · obtain ⟨h0, h1, h2, h3⟩ := h.mapped n hn
    obtain ⟨k1, k2, k3⟩ := hkeep n hn
    refine ⟨h0, h1, ?_, ?_⟩
    · show o.ncciPlci n = s.plci.id
      rw [k2, h2]
    · show o.chNcci (o.ncciCh n) = n
      rw [k1, k3, h3]

theorem step (h : Kept s none live) {e : WinSt.Ev P} (hc : Cond s e) : ∃ live', Kept (s.step e) none live' := by
  cases e with
  | put x =>
    simp only [WinSt.step]
    split
    · rename_i hadm; exact h.put hadm hc
    · exact ⟨live, h⟩
  | dequeue maxAdapter ap => exact h.dequeue hc
  | rc => exact ⟨live, h.rc⟩
  | ack ch => exact ⟨live, h.dataAck ch⟩
  | cleanup n => exact ⟨live, h.cleanup n⟩
  | flushRc n => exact ⟨live, h.flushRc n⟩
  | flushAck n => exact ⟨live, h.flushAck n⟩
  | sendData => exact ⟨live, h.sendData⟩
  | other o =>
    simp only [WinSt.step]
    split
    · rename_i ho; exact ⟨live, h.other ho⟩
    · exact ⟨live, h⟩

end Kept

theorem WinSt.Init.kept {s : WinSt P} (h : s.Init) (ha : s.plci.appl ≠ ApplPtr.null P) : Kept s none [] := by
  have hpend : ∀ n, s.pend n = [] := fun n => pend_nil_iff.mpr (h.window n).2.1
  have hacks : ∀ n, s.acks n = [] := fun n => by rw [WinSt.acks, (h.window n).2.2.2]; rfl
  have hrefs : ∀ k, s.refs none [] k = [] := fun k => by
    cases k with
    | queue => rfl
    | hand => rfl
    | window n => simp [WinSt.refs, hpend]
  have hnone : s.sent = none := by simp [WinSt.sent, h.sent]
  have hnot : ∀ r, ¬ HeldBy (s.refs none []) s.sent r := by
    intro r hw
    rcases hw with ⟨k, hk⟩ | hs
    · rw [hrefs] at hk; cases hk
    · rw [hnone] at hs; cases hs
  refine ⟨h.bounded, ha, h.id, by simp, ?_, fun hd => ?_, fun k r _ hk => ?_, fun n hn => ?_, fun n b => ?_⟩
  · refine ⟨⟨fun k => by rw [hrefs]; exact List.nodup_nil, fun k k' x hx => ?_⟩, fun r hr => absurd hr (hnot r),
      fun r hr => absurd hr (hnot r), fun r hr => absurd hr (hnot r), fun r _ => by rw [h.log]; rfl,
      fun b r _ => by rw [h.log]; exact ⟨rfl, rfl⟩⟩
    rw [hrefs] at hx; cases hx
  · rw [h.sent] at hd; cases hd
  · rw [hrefs] at hk; cases hk
  · exact absurd (h.window n).2.1 hn
  · have hw : s.inWindow n b = [] := by cases b <;> simp [WinSt.inWindow, hpend, hacks]
    simp [WinSt.line, hw, h.log, confirmed, WinSt.inHand, WinSt.inQueue]

/-- Over every run whose steps meet the condition: an NCCI's requests pending and
    queued are at most MAX_DATA_B3, its acknowledges at most MAX_DATA_ACK, its ring
    indices in range; a buffer was set once more than it was freed while it is queued,
    pending or with the adapter, and as often otherwise; and the confirmations of each
    class are a part, in order, of the requests accepted. -/
theorem window_kept {s : WinSt P} (h : s.Init) (ha : s.plci.appl ≠ ApplPtr.null P) {es : List (WinSt.Ev P)}
    (hc : Along WinSt.step Cond s es) :
    ∃ live, Holds (run WinSt.step s es).plci.toMsgIn live ∧
      (∀ n, ((run WinSt.step s es).a.ncci n).dataPending + live.countP (·.dataFor n) ≤ maxDataB3 ∧
        ((run WinSt.step s es).a.ncci n).dataAckPending ≤ maxDataAck ∧
        ((run WinSt.step s es).a.ncci n).dataOut < maxDataB3 ∧
        ((run WinSt.step s es).a.ncci n).dataAckOut < maxDataAck) ∧
      (∀ a r, a = (run WinSt.step s es).plci.appl →
        HeldBy ((run WinSt.step s es).refs none live) (run WinSt.step s es).sent r →
          (run WinSt.step s es).log.count (.set a r) = (run WinSt.step s es).log.count (.free a r) + 1) ∧
      (∀ a r, ¬ (a = (run WinSt.step s es).plci.appl ∧
          HeldBy ((run WinSt.step s es).refs none live) (run WinSt.step s es).sent r) →
        (run WinSt.step s es).log.count (.set a r) = (run WinSt.step s es).log.count (.free a r)) ∧
      ∀ n b, (confirmed (run WinSt.step s es).log n b).Sublist ((run WinSt.step s es).accepted n b) := by
  have hinv : ∃ live, Kept (run WinSt.step s es) none live :=
    hc.invariant WinSt.step (I := fun s => ∃ live, Kept s none live) (fun _ e ⟨_, hk⟩ hce => hk.step hce) ⟨[], h.kept ha⟩
  generalize run WinSt.step s es = s at hinv ⊢
  obtain ⟨live, hk⟩ := hinv
  refine ⟨live, hk.bounded.holds, fun n => ?_, ?_, fun a r hh => ?_, fun n b => ?_⟩
  · have hn := hk.bounded.ncci n
    exact ⟨hn.pending, hn.ackPending, hn.out, hn.ackOut⟩
  · rintro a r rfl hh
    exact hk.ledger.held r hh
  · by_cases e : a = s.plci.appl
    · subst e
      exact hk.ledger.free r (fun h' => hh ⟨rfl, h'⟩)
    · obtain ⟨h1, h2⟩ := hk.ledger.foreign a r e
      rw [h1, h2]
  · refine List.Sublist.trans ?_ (hk.lines n b)
    unfold WinSt.line
    rw [List.append_assoc]
    exact List.sublist_append_left _ _

open WinSt in
/-- A flagged request is put, sent, returned and acknowledged. -/
theorem window_kept_acked :
    ∃ live, Holds (run WinSt.step oneNcci [putData 1 4 0, .rc, .ack 1]).plci.toMsgIn live ∧
      (∀ n, ((run WinSt.step oneNcci [putData 1 4 0, .rc, .ack 1]).a.ncci n).dataPending + live.countP (·.dataFor n)
          ≤ maxDataB3 ∧
        ((run WinSt.step oneNcci [putData 1 4 0, .rc, .ack 1]).a.ncci n).dataAckPending ≤ maxDataAck ∧
        ((run WinSt.step oneNcci [putData 1 4 0, .rc, .ack 1]).a.ncci n).dataOut < maxDataB3 ∧
        ((run WinSt.step oneNcci [putData 1 4 0, .rc, .ack 1]).a.ncci n).dataAckOut < maxDataAck) ∧
      (∀ a r, a = (run WinSt.step oneNcci [putData 1 4 0, .rc, .ack 1]).plci.appl →
        HeldBy ((run WinSt.step oneNcci [putData 1 4 0, .rc, .ack 1]).refs none live)
            (run WinSt.step oneNcci [putData 1 4 0, .rc, .ack 1]).sent r →
          (run WinSt.step oneNcci [putData 1 4 0, .rc, .ack 1]).log.count (.set a r) =
            (run WinSt.step oneNcci [putData 1 4 0, .rc, .ack 1]).log.count (.free a r) + 1) ∧
      (∀ a r, ¬ (a = (run WinSt.step oneNcci [putData 1 4 0, .rc, .ack 1]).plci.appl ∧
          HeldBy ((run WinSt.step oneNcci [putData 1 4 0, .rc, .ack 1]).refs none live)
            (run WinSt.step oneNcci [putData 1 4 0, .rc, .ack 1]).sent r) →
        (run WinSt.step oneNcci [putData 1 4 0, .rc, .ack 1]).log.count (.set a r) =
          (run WinSt.step oneNcci [putData 1 4 0, .rc, .ack 1]).log.count (.free a r)) ∧
      ∀ n b, (confirmed (run WinSt.step oneNcci [putData 1 4 0, .rc, .ack 1]).log n b).Sublist
        ((run WinSt.step oneNcci [putData 1 4 0, .rc, .ack 1]).accepted n b) :=
  window_kept oneNcci_init (by decide)
    ⟨fun _ _ => ⟨by decide, by unfold Mapped; decide⟩, trivial, trivial, trivial⟩

open WinSt in
/-- Application 2 puts a request for the NCCI of application 1. After its return code
    nothing is queued, pending or with the adapter; its buffer is still set, and the
    buffer of application 1 of the same number was freed, which nobody had set. -/
theorem window_foreign_buffer :
    oneNcci.Init ∧ oneNcci.plci.appl ≠ ApplPtr.null .eight ∧
      (run WinSt.step oneNcci [putData 2 0 7, .rc]).accepted 1 false = [(7, 7)] ∧
      (run WinSt.step oneNcci [putData 2 0 7, .rc]).plci.msgInReadPos =
        (run WinSt.step oneNcci [putData 2 0 7, .rc]).plci.msgInWritePos ∧
      ((run WinSt.step oneNcci [putData 2 0 7, .rc]).a.ncci 1).dataPending = 0 ∧
      (run WinSt.step oneNcci [putData 2 0 7, .rc]).sent = none ∧
      (run WinSt.step oneNcci [putData 2 0 7, .rc]).log.count (.set ⟨2, by decide⟩ 7) = 1 ∧
      (run WinSt.step oneNcci [putData 2 0 7, .rc]).log.count (.free ⟨2, by decide⟩ 7) = 0 ∧
      (run WinSt.step oneNcci [putData 2 0 7, .rc]).log.count (.set ⟨1, by decide⟩ 7) = 0 ∧
      (run WinSt.step oneNcci [putData 2 0 7, .rc]).log.count (.free ⟨1, by decide⟩ 7) = 1 := by
  refine ⟨oneNcci_init, by decide, ?_⟩
  decide +kernel

end Divas.Capi
