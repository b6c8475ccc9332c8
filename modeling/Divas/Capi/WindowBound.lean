/-
  Divas.Capi.WindowBound — the bounds of the DATA_B3 send window, and when a message
  that was accepted into the queue is refused as it is taken out again.

  `Bounded` is the invariant of every run: the queue holds its live messages, the ring
  indices are in range, the requests an NCCI has pending or queued are at most
  MAX_DATA_B3, and the acknowledgements it waits for are at most MAX_DATA_ACK.

  Proved:
  - `bounded`: the invariant holds in every state a run reaches.
  - `requeue_full_iff`: the head message of an idle PLCI is refused with _QUEUE_FULL
    exactly when its PLCI takes it and one of two things is missing: room (`roomKept`;
    only a wrapped queue can lack it) or, for a DATA_B3 request, a place in the
    acknowledge ring beside the flagged requests still queued (`ackKept`).
-/

import Divas.Capi.Window

namespace Divas.Capi

open Divas.Lib.Bytes Divas.Lib.Ring Divas.Lib.Run

variable {P : PtrSize}

/-! ## What api_put_reenter decides -/

/-- The message passes the checks of its length and its controller and names a PLCI. -/
def routed (maxAdapter : Nat) (a : Adapter) (msg : Mem) : Prop :=
  (sizeofHeader ≤ headerLength msg ∧ headerLength msg ≤ maxMsgSize) ∧ invalidCtrl maxAdapter msg = false ∧
    namesPlci a msg = true

theorem apiPutReenter_taken {maxAdapter : Nat} {a : Adapter} {p : Plci P} {msg : Mem} (hr : routed maxAdapter a msg)
    (ht : plciTakes P a p msg = true) (ap : Appl) (queued : Bool) :
    apiPutReenter P maxAdapter a p ap msg queued = putTaken P a p ap msg queued := by
  obtain ⟨hl, hc, hn⟩ := hr
  unfold apiPutReenter
  rw [if_neg (by omega), if_neg (by simp [hc]), if_pos (by simp [hn, ht])]

/-- Every other message is an error or goes to its function without a PLCI. -/
theorem apiPutReenter_not_taken {maxAdapter : Nat} {a : Adapter} {p : Plci P} {msg : Mem}
    (h : ¬ (routed maxAdapter a msg ∧ plciTakes P a p msg = true)) (ap : Appl) (queued : Bool) :
    apiPutReenter P maxAdapter a p ap msg queued = .badMsg ∨
      apiPutReenter P maxAdapter a p ap msg queued = .dispatch false := by
  unfold apiPutReenter
  split
  · exact Or.inl rfl
  rename_i hl
  split
  · exact Or.inl rfl
  rename_i hc
  split
  · rename_i ht
    rw [Bool.and_eq_true] at ht
    exact absurd ⟨⟨by omega, by simpa using hc, ht.1⟩, ht.2⟩ h
  · exact Or.inr rfl

/-- A message of the queue that its idle PLCI takes is refused for want of room or for
    a full window. -/
theorem putTaken_queued {a : Adapter} {p : Plci P} {ap : Appl} {msg : Mem} (hidle : plciBusy P p = false) :
    putTaken P a p ap msg true =
      if noRoom P p.toMsgIn (headerLength msg) then .queueFull
      else if headerCommand msg = cmdDataB3R then
        if headerLength msg < 20 then .badMsg else if dataFull P a p msg then .queueFull else .dispatch true
      else .dispatch true := by
  unfold putTaken
  simp only [hidle, Bool.not_true, Bool.false_and, Bool.or_self, Bool.false_eq_true, if_false]

/-- A DATA_B3 request that is enqueued or handed on with its PLCI is long enough and
    has a place in the window. -/
theorem putTaken_data {a : Adapter} {p : Plci P} {ap : Appl} {msg : Mem} {queued : Bool}
    (hcmd : headerCommand msg = cmdDataB3R) (hb : putTaken P a p ap msg queued ≠ .badMsg)
    (hf : putTaken P a p ap msg queued ≠ .queueFull) : 20 ≤ headerLength msg ∧ dataFull P a p msg = false := by
  unfold putTaken at hb hf
  simp only [if_pos hcmd] at hb hf
  split at hf
  · exact absurd rfl hf
  rename_i hroom
  rw [if_neg hroom] at hb
  split at hf
  · rename_i hlen
    rw [if_pos hlen] at hb
    exact absurd rfl hb
  rename_i hlen
  split at hf
  · exact absurd rfl hf
  rename_i hfull
  exact ⟨by omega, by simpa using hfull⟩

/-- The decision for a message that is enqueued or handed on with its PLCI. -/
theorem put_accepts {maxAdapter : Nat} {a : Adapter} {p : Plci P} {ap : Appl} {msg : Mem} {queued : Bool}
    (hb : apiPutReenter P maxAdapter a p ap msg queued ≠ .badMsg)
    (hd : apiPutReenter P maxAdapter a p ap msg queued ≠ .dispatch false) :
    routed maxAdapter a msg ∧ plciTakes P a p msg = true := by
  by_contra h
  rcases apiPutReenter_not_taken h ap queued with h' | h'
  · exact hb h'
  · exact hd h'

/-- `callback` never puts the message it took out back into the queue. -/
theorem requeue_not_enqueue {maxAdapter j : Nat} {a : Adapter} {p : Plci P} {ap : Appl} {msg : Mem}
    (hidle : plciBusy P p = false) : apiPutReenter P maxAdapter a p ap msg true ≠ .enqueue j := by
  intro h
  obtain ⟨hr, ht⟩ := put_accepts (by rw [h]; simp) (by rw [h]; simp)
  rw [apiPutReenter_taken hr ht, putTaken_queued hidle] at h
  repeat' split at h
  all_goals cases h

/-! ## The bounds -/

/-- The rings of an NCCI with `k` requests still in the message queue. -/
structure NcciOk (w : Ncci) (k : Nat) : Prop where
  out : w.dataOut < maxDataB3
  ackOut : w.dataAckOut < maxDataAck
  pending : w.dataPending + k ≤ maxDataB3
  ackPending : w.dataAckPending ≤ maxDataAck

theorem NcciOk.clean {w : Ncci} {k : Nat} (h : NcciOk w k) :
    NcciOk { w with dataOut := 0, dataPending := 0, dataAckOut := 0, dataAckPending := 0 } k :=
  ⟨by simp [maxDataB3], by simp [maxDataAck, maxDataB3], by have := h.pending; simp only; omega, Nat.zero_le _⟩

theorem NcciOk.popData {w : Ncci} {k : Nat} (h : NcciOk w k) :
    NcciOk { w with dataOut := bump maxDataB3 w.dataOut, dataPending := w.dataPending - 1 } k :=
  ⟨bump_lt h.out, h.ackOut, by have := h.pending; simp only; omega, h.ackPending⟩

theorem NcciOk.popAck {w : Ncci} {k : Nat} (h : NcciOk w k) :
    NcciOk { w with dataAckOut := bump maxDataAck w.dataAckOut, dataAckPending := w.dataAckPending - 1 } k :=
  ⟨h.out, bump_lt h.ackOut, h.pending, by have := h.ackPending; simp only; omega⟩

theorem NcciOk.pushData {w : Ncci} {k : Nat} (h : NcciOk w k) (hp : w.dataPending + k < maxDataB3)
    (ha : w.dataAckPending < maxDataAck) (data : DataB3Desc) : NcciOk (WinSt.pushData w data) k := by
  unfold WinSt.pushData
  simp only
  split
  · exact ⟨h.out, h.ackOut, by simp only; omega, by simp only; omega⟩
  · exact ⟨h.out, h.ackOut, by simp only; omega, h.ackPending⟩

/-- The invariant: the queue and its live messages, and the rings of every NCCI. -/
structure Bounded (s : WinSt P) (live : List (Slot P)) : Prop where
  holds : Holds s.plci.toMsgIn live
  lens : ∀ t ∈ live, headerCommand t.mem = cmdDataB3R → 20 ≤ t.msg.length
  ncci : ∀ n, NcciOk (s.a.ncci n) (live.countP (·.dataFor n))

namespace Bounded

variable {s s' : WinSt P} {live : List (Slot P)}

theorem congr (h : Bounded s live) (hq : s'.plci.toMsgIn = s.plci.toMsgIn) (hn : s'.a.ncci = s.a.ncci) :
    Bounded s' live :=
  ⟨hq ▸ h.holds, h.lens, fun n => by rw [hn]; exact h.ncci n⟩

theorem setNcci (h : Bounded s live) {n : Nat} {w : Ncci} (hw : NcciOk w (live.countP (·.dataFor n))) :
    Bounded (s.setNcci n w) live := by
  refine ⟨h.holds, h.lens, fun m => ?_⟩
  by_cases e : m = n
  · subst e; simpa using hw
  · simpa [Function.update_of_ne e] using h.ncci m

theorem cleanup (h : Bounded s live) (n : Nat) : Bounded (s.cleanupNcciData n) live := by
  unfold WinSt.cleanupNcciData
  split
  · refine Bounded.setNcci ?_ (h.ncci n).clean
    split
    · obtain ⟨ha, hp, -⟩ := WinSt.cleanupLoop_frame (s.a.ncci n).dBuffer (s.a.ncci n).dataPending (s.a.ncci n).dataOut s
      exact h.congr (by rw [hp]) (by rw [ha])
    · exact h
  · exact h

theorem sendDataNcci (h : Bounded s live) (n : Nat) : Bounded (s.sendDataNcci n) live := by
  unfold WinSt.sendDataNcci
  split
  · exact h
  · simp only
    split
    · split
      · exact h.congr rfl rfl
      · exact h.cleanup n
    · split
      · exact h.congr rfl rfl
      · exact h

theorem sendData (h : Bounded s live) : Bounded s.sendData live :=
  WinSt.sendData_invariant (I := fun s => Bounded s live) (fun _ n h _ => h.sendDataNcci n) (fun _ _ h => h.congr rfl rfl) h

theorem dataRc (h : Bounded s live) (ch ptr : Nat) : Bounded (s.dataRc ch ptr) live := by
  have hf : Bounded (s.freeUnlessSent ptr) live := h.congr (by simp) (by simp)
  unfold WinSt.dataRc
  split
  · simp only
    split
    · refine Bounded.setNcci ?_ ?_
      · split
        · exact hf.congr rfl rfl
        · exact hf
      · split
        · exact (hf.ncci _).popData
        · exact (hf.ncci _).popData
    · exact hf
  · exact h

theorem dataAck (h : Bounded s live) (ch : Nat) : Bounded (s.dataAck ch) live := by
  unfold WinSt.dataAck
  simp only
  split
  · refine Bounded.setNcci ?_ ?_
    · split
      · exact h.congr rfl rfl
      · exact h
    · split
      · exact (h.ncci _).popAck
      · exact (h.ncci _).popAck
  · exact h

/-- A request that has a place in both rings enters the window. -/
theorem dataB3Req (h : Bounded s live) {msg : Mem}
    {takes : Bool} (hroom : takes = true →
      (s.a.ncci (headerNcci msg)).dataPending + live.countP (·.dataFor (headerNcci msg)) < maxDataB3 ∧
        (s.a.ncci (headerNcci msg)).dataAckPending < maxDataAck)
    (appl : ApplPtr P) (queued : Bool) : Bounded (s.dataB3Req takes appl msg queued) live := by
  have hw := h.ncci (headerNcci msg)
  unfold WinSt.dataB3Req
  simp only
  split
  · rename_i hgo
    obtain ⟨hroom, hack⟩ := hroom hgo.1.1
    refine (Bounded.setNcci ?_ ?_).sendData
    · split
      · exact h
      · exact h.congr rfl rfl
    · split
      · exact hw.pushData hroom hack _
      · exact hw.pushData hroom hack _
  · split
    · split
      · exact h.congr rfl rfl
      · exact h.congr rfl rfl
    · exact h

theorem dispatch (h : Bounded s live) {msg : Mem} {takes : Bool}
    (hroom : takes = true → headerCommand msg = cmdDataB3R →
      (s.a.ncci (headerNcci msg)).dataPending + live.countP (·.dataFor (headerNcci msg)) < maxDataB3 ∧
        (s.a.ncci (headerNcci msg)).dataAckPending < maxDataAck)
    (appl : ApplPtr P) (queued : Bool) : Bounded (s.dispatch takes appl msg queued).1 live := by
  unfold WinSt.dispatch
  simp only
  split
  · rename_i hcmd
    split
    · split
      · have h' : Bounded { s with plci := { s.plci with
            command := headerCommand msg, number := headerNumber msg } } live := h.congr rfl rfl
        exact h'.dataB3Req (fun ht => hroom ht hcmd) appl queued
      · exact h.dataB3Req (fun ht => hroom ht hcmd) appl queued
    · split
      · exact h.congr rfl rfl
      · exact h
  · split
    · exact h.congr rfl rfl
    · exact h

theorem dropMsg (h : Bounded s live) (appl : ApplPtr P) (msg : Mem) : Bounded (s.dropMsg appl msg) live := by
  unfold WinSt.dropMsg
  split
  · exact h.congr rfl rfl
  · exact h

/-- What a window that is not full has room for. -/
theorem room_of_dataFull (h : Bounded s live) {msg : Mem} (hf : dataFull P s.a s.plci msg = false) :
    (s.a.ncci (headerNcci msg)).dataPending + live.countP (·.dataFor (headerNcci msg)) < maxDataB3 ∧
      (s.a.ncci (headerNcci msg)).dataAckPending < maxDataAck := by
  unfold dataFull at hf
  simp only [queuedData_eq h.holds, Bool.or_eq_false_iff, decide_eq_false_iff_not, Nat.not_le] at hf
  exact ⟨hf.1, by omega⟩

/-- What `api_put_reenter` found out about a message it enqueues or hands on with its
    PLCI. -/
theorem room_of_put (h : Bounded s live) {maxAdapter : Nat} {ap : Appl} {msg : Mem} {queued : Bool} {r : Put}
    (hr : apiPutReenter P maxAdapter s.a s.plci ap msg queued = r) (hacc : r = .dispatch true ∨ ∃ j, r = .enqueue j)
    (hcmd : headerCommand msg = cmdDataB3R) :
    20 ≤ headerLength msg ∧
      (s.a.ncci (headerNcci msg)).dataPending + live.countP (·.dataFor (headerNcci msg)) < maxDataB3 ∧
        (s.a.ncci (headerNcci msg)).dataAckPending < maxDataAck := by
  have hne : r ≠ .badMsg ∧ r ≠ .dispatch false ∧ r ≠ .queueFull := by
    rcases hacc with rfl | ⟨j, rfl⟩ <;> simp
  obtain ⟨hrt, ht⟩ := put_accepts (hr ▸ hne.1) (hr ▸ hne.2.1)
  rw [apiPutReenter_taken hrt ht] at hr
  obtain ⟨hlen, hfull⟩ := putTaken_data hcmd (hr ▸ hne.1) (hr ▸ hne.2.2)
  exact ⟨hlen, h.room_of_dataFull hfull⟩

theorem enqueue (h : Bounded s live) {msg : Mem} {appl : ApplPtr P} (hlen : sizeofHeader ≤ headerLength msg)
    (hroom : noRoom P s.plci.toMsgIn (headerLength msg) = false)
    (hdata : headerCommand msg = cmdDataB3R → 20 ≤ headerLength msg ∧
      (s.a.ncci (headerNcci msg)).dataPending + live.countP (·.dataFor (headerNcci msg)) < maxDataB3)
    (hq : s'.plci.toMsgIn =
      enqueueMsg P s.plci.toMsgIn (msgInRoom P s.plci.toMsgIn (headerLength msg)).2 msg appl)
    (hn : s'.a.ncci = s.a.ncci) :
    Bounded s' (live ++ [newSlot (msgInRoom P s.plci.toMsgIn (headerLength msg)).2 msg appl]) := by
  unfold sizeofHeader at hlen
  have hc : ∀ j, headerCommand (newSlot j msg appl).mem = headerCommand msg := fun j => newSlot_word (by omega)
  have hnc : ∀ j, headerNcci (newSlot j msg appl).mem = headerNcci msg := fun j => newSlot_word (by omega)
  refine ⟨hq ▸ enqueue_holds h.holds msg appl hlen hroom, fun t ht hcmd => ?_, fun n => ?_⟩
  · rcases List.mem_append.mp ht with ht | ht
    · exact h.lens t ht hcmd
    · simp only [List.mem_singleton] at ht
      subst ht
      rw [hc] at hcmd
      simpa [newSlot] using (hdata hcmd).1
  · have hw := h.ncci n
    rw [hn]
    simp only [List.countP_append, List.countP_singleton, Slot.dataFor, hc, hnc]
    split
    · rename_i hd
      simp only [Bool.and_eq_true, beq_iff_eq] at hd
      obtain ⟨hcmd, rfl⟩ := hd
      have := (hdata hcmd).2
      exact ⟨hw.out, hw.ackOut, by simp only [Slot.dataFor] at this; omega, hw.ackPending⟩
    · exact ⟨hw.out, hw.ackOut, hw.pending, hw.ackPending⟩

theorem tail {t : Slot P} (h : Bounded s (t :: live)) (hq : s'.plci.toMsgIn = dequeueMsg P s.plci.toMsgIn)
    (hn : s'.a.ncci = s.a.ncci) : Bounded s' live := by
  refine ⟨hq ▸ dequeue_holds h.holds, fun u hu => h.lens u (by simp [hu]), fun n => ?_⟩
  have hw := h.ncci n
  have hle : live.countP (·.dataFor n) ≤ (t :: live).countP (·.dataFor n) := by simp [List.countP_cons]
  rw [hn]
  exact ⟨hw.out, hw.ackOut, by have := hw.pending; omega, hw.ackPending⟩

theorem put (h : Bounded s live) (x : WinSt.Put P) : ∃ live', Bounded (s.put x) live' := by
  unfold WinSt.put
  rcases hr : apiPutReenter P x.maxAdapter s.a s.plci x.ap x.msg false with _ | _ | j | takes
  · exact ⟨live, h⟩
  · exact ⟨live, h⟩
  · obtain ⟨hlen, hroom, rfl⟩ := apiPutReenter_enqueue hr
    have hdata := fun hcmd => (h.room_of_put hr (Or.inr ⟨_, rfl⟩) hcmd)
    refine ⟨live ++ [newSlot (msgInRoom P s.plci.toMsgIn (headerLength x.msg)).2 x.msg x.appl],
      h.enqueue hlen hroom (fun hcmd => ⟨(hdata hcmd).1, (hdata hcmd).2.1⟩) ?_ ?_⟩
    · simp only
      split
      · rfl
      · rfl
    · simp only
      split
      · split <;> rfl
      · rfl
  · refine ⟨live, ?_⟩
    have hroom : takes = true → headerCommand x.msg = cmdDataB3R → _ := fun ht hcmd =>
      (h.room_of_put hr (Or.inl (by rw [ht])) hcmd).2
    simp only
    split
    · have h' : Bounded (s.accept x.msg) live := h.congr rfl rfl
      exact h'.dispatch hroom x.appl false
    · exact h.dispatch hroom x.appl false

theorem dequeue (h : Bounded s live) (maxAdapter : Nat) (ap : Appl) :
    ∃ live', Bounded (s.dequeue maxAdapter ap) live' := by
  unfold WinSt.dequeue
  split
  · rename_i hgo
    simp only [Bool.and_eq_true, Bool.not_eq_true', bne_iff_ne] at hgo
    cases live with
    | nil => exact absurd (h.holds.layout.empty_iff.mpr rfl).symm hgo.2
    | cons t live =>
      refine ⟨live, ?_⟩
      have ht : Bounded { s with plci := s.plci.withQueue (dequeueMsg P s.plci.toMsgIn) } live :=
        h.tail rfl rfl
      simp only
      split
      · split
        · exact ht.dropMsg _ _
        · exact ht.dropMsg _ _
        · rename_i hr
          exact absurd hr (requeue_not_enqueue (p := s.plci.withQueue _) hgo.1)
        · rename_i takes hr
          have hd := ht.dispatch
            (fun (htk : takes = true) hcmd => (ht.room_of_put hr (Or.inl (by rw [htk])) hcmd).2) (headAppl P s.plci.toMsgIn) true
          split
          · exact hd
          · exact hd.dropMsg _ _
      · exact ht
  · exact ⟨live, h⟩

theorem step (h : Bounded s live) (e : WinSt.Ev P) : ∃ live', Bounded (s.step e) live' := by
  cases e with
  | put x =>
    simp only [WinSt.step]
    split
    · exact h.put x
    · exact ⟨live, h⟩
  | dequeue maxAdapter ap => exact h.dequeue maxAdapter ap
  | rc =>
    refine ⟨live, ?_⟩
    simp only [WinSt.step, WinSt.rc]
    split
    · split
      · refine Bounded.dataRc ?_ _ _
        exact h.congr rfl rfl
      · exact h.congr rfl rfl
    · exact h
  | ack ch => exact ⟨live, h.dataAck ch⟩
  | cleanup n => exact ⟨live, h.cleanup n⟩
  | flushRc n =>
    refine ⟨live, ?_⟩
    simp only [WinSt.step, WinSt.flushRc]
    split
    · exact h.dataRc _ _
    · exact h
  | flushAck n =>
    refine ⟨live, ?_⟩
    simp only [WinSt.step, WinSt.flushAck]
    split
    · exact h.dataAck _
    · exact h
  | sendData => exact ⟨live, h.sendData⟩
  | other o =>
    refine ⟨live, ?_⟩
    simp only [WinSt.step]
    split
    · exact h.congr rfl rfl
    · exact h

end Bounded

theorem WinSt.Init.bounded {s : WinSt P} (h : s.Init) : Bounded s [] := by
  obtain ⟨m, hq⟩ := h.queue
  refine ⟨⟨?_, by simp⟩, by simp, fun n => ?_⟩
  · rw [hq]; exact Layout.empty rfl rfl rfl
  · obtain ⟨h1, h2, h3, h4⟩ := h.window n
    exact ⟨by rw [h1]; decide, by rw [h3]; decide, by rw [h2]; simp, by rw [h4]; simp⟩

/-- The bounds hold in every state a run reaches. -/
theorem bounded {s : WinSt P} (h : s.Init) (es : List (WinSt.Ev P)) :
    ∃ live, Bounded (run WinSt.step s es) live :=
  run_invariant WinSt.step (I := fun s => ∃ live, Bounded s live) (fun _ e ⟨_, hb⟩ => hb.step e) ⟨[], h.bounded⟩ es

/-! ## Taking a message out again -/

/-- The room the head message finds when it is put again, the cursors behind it: a queue
    whose messages lie in one run always has it. A wrapped queue has it if the reader
    stays below the wrap mark and below the reserve for the message at offset 0, or if
    the writer is that far from the end. -/
def roomKept (P : PtrSize) (q : MsgIn) : Prop :=
  let s := align P (headerLength (headMsg q) + msgInOverhead P)
  let n := align P (headerLength q.msgInQueue + msgInOverhead P)
  q.msgInReadPos ≤ q.msgInWritePos ∨ q.msgInReadPos = msgInQueueSize P ∨
    (q.msgInReadPos + s < q.msgInWrapPos ∧ q.msgInReadPos + s + n ≤ msgInQueueSize P) ∨
    q.msgInWritePos + s + n ≤ msgInQueueSize P

/-- The room for a message of `len` bytes, with the cursors in one run. -/
theorem noRoom_straight {q : MsgIn} {len : Nat} (hle : q.msgInReadPos ≤ q.msgInWritePos) (hd : P.bytes ∣ q.msgInWritePos) :
    noRoom P q len = false ↔
      q.msgInWritePos + align P (len + msgInOverhead P) ≤ msgInQueueSize P ∨
        align P (len + msgInOverhead P) < q.msgInReadPos := by
  rw [noRoom_iff]
  simp only [msgInRoom, if_pos hle]
  by_cases hf : q.msgInWritePos + len + msgInOverhead P ≤ msgInQueueSize P
  · have := (fits_iff hd).mp hf
    rw [if_pos hf]
    omega
  · have := mt (fits_iff hd).mpr hf
    rw [if_neg hf]
    omega

/-- The room for a message of `len` bytes, with the writer behind the reader. -/
theorem noRoom_behind {q : MsgIn} {len : Nat} (hlt : q.msgInWritePos < q.msgInReadPos) :
    noRoom P q len = false ↔
      (q.msgInWritePos + align P (len + msgInOverhead P) < q.msgInReadPos ∧
          q.msgInReadPos + align P (headerLength q.msgInQueue + msgInOverhead P) ≤ msgInQueueSize P) ∨
        q.msgInWritePos + align P (len + msgInOverhead P) + align P (headerLength q.msgInQueue + msgInOverhead P) ≤
          msgInQueueSize P ∧ msgInQueueSize P < q.msgInReadPos + align P (headerLength q.msgInQueue + msgInOverhead P) := by
  have hpos : 0 < align P (len + msgInOverhead P) := by
    have := le_align P (len + msgInOverhead P); have := bytes_pos P; unfold msgInOverhead at *; omega
  rw [noRoom_iff]
  simp only [msgInRoom, if_neg (Nat.not_le.mpr hlt)]
  by_cases hres : msgInQueueSize P - align P (headerLength q.msgInQueue + msgInOverhead P) < q.msgInReadPos
  · rw [if_pos hres]
    split <;> omega
  · rw [if_neg hres, if_pos hlt]
    omega

/-- The head message finds room for itself again exactly when `roomKept` says so. -/
theorem noRoom_dequeue {q : MsgIn} {t : Slot P} {live : List (Slot P)} (h : Holds q (t :: live))
    (hlen : t.msg.length ≤ maxMsgSize) : noRoom P (dequeueMsg P q) t.msg.length = false ↔ roomKept P q := by
  have hhead := h.head
  have hmem : headerLength (dequeueMsg P q).msgInQueue = headerLength q.msgInQueue := by rw [dequeueMsg_mem]
  have hs : align P (headerLength (headMsg q) + msgInOverhead P) = t.size := by rw [hhead.length]; rfl
  have hs' : align P (t.msg.length + msgInOverhead P) = t.size := rfl
  have hsmall : t.size < msgInQueueSize P := by
    rw [msgInQueueSize_eq, t.size_eq]
    unfold maxMsgSize at hlen
    cases P <;> simp only [align, PtrSize.bytes] <;> omega
  have hspos := t.size_pos
  have hso : t.off + t.size = t.stop := rfl
  have hl := h.layout
  unfold roomKept
  simp only [hs]
  generalize hlive : t :: live = ts at hl
  cases hl with
  | empty => cases hlive
  | front hr hp hw hc hfit =>
    cases hlive
    have hoff := hc.1
    have hdv := hc.dvd (Nat.dvd_zero _)
    have hrp : q.msgInReadPos = q.msgInWrapPos := hr.trans hp.symm
    have hle := hc.2.le
    refine iff_of_true ?_ (Or.inr (Or.inl hr))
    rw [dequeueMsg_eq hhead (if_pos hrp).symm (if_pos hrp).symm]
    by_cases he : t.size = q.msgInWritePos
    · rw [if_pos he, noRoom_straight (Nat.le_refl _) (bytes_dvd_size P)]
      exact Or.inr hsmall
    · have hne : live ≠ [] := fun hn => he (by have := hc.tail_nil.mpr hn; omega)
      rw [if_neg he, if_neg (by omega)]
      refine (noRoom_straight ?_ ?_).mpr (Or.inl (hfit hne))
      · show t.size ≤ q.msgInWritePos
        omega
      · exact hdv
  | straight hd h0 hp hw hc =>
    cases hlive
    have hoff := hc.1
    have hlt := hc.lt
    have hle := hc.2.le
    have hrp : q.msgInReadPos ≠ q.msgInWrapPos := by omega
    refine iff_of_true ?_ (Or.inl (by omega))
    rw [dequeueMsg_eq hhead (if_neg hrp).symm (if_neg hrp).symm]
    by_cases he : t.stop = q.msgInWritePos
    · rw [if_pos he, noRoom_straight (Nat.le_refl _) (bytes_dvd_size P)]
      exact Or.inr hsmall
    · rw [if_neg he, if_neg (by omega)]
      refine (noRoom_straight ?_ ?_).mpr (Or.inr ?_)
      · exact hle
      · exact hc.dvd hd
      · show t.size < t.stop
        omega
  | @wrapped b f bs fs hd hp hb hw hf hfit =>
    simp only [List.cons_append, List.cons.injEq] at hlive
    obtain ⟨rfl, rfl⟩ := hlive
    have hoff := hb.1
    have hlt := hb.lt
    have hle := hb.2.le
    have hflt := hf.lt
    have hrp : q.msgInReadPos ≠ q.msgInWrapPos := by omega
    rw [dequeueMsg_eq hhead (if_neg hrp).symm (if_neg hrp).symm, if_neg (by omega)]
    by_cases he : t.stop = q.msgInWrapPos
    · rw [if_pos he, noRoom_behind (by simp only; omega)]
      simp only [hs']
      omega
    · rw [if_neg he, noRoom_behind (by simp only; omega)]
      simp only [hs']
      omega

/-- The acknowledge ring has a place for the head message beside the flagged requests
    that stay in the queue. -/
def ackKept (a : Adapter) (q : MsgIn) (rest : List (Slot P)) : Prop :=
  headerCommand (headMsg q) = cmdDataB3R →
    (a.ncci (headerNcci (headMsg q))).dataAckPending +
      rest.countP (Slot.flaggedFor q.msgInQueue · (headerNcci (headMsg q))) < maxDataAck

/-- A slot's request is long enough for its Flags to be looked at. -/
theorem Bounded.head_data {s : WinSt P} {t : Slot P} {rest : List (Slot P)} (hb : Bounded s (t :: rest))
    (hcmd : headerCommand (headMsg s.plci.toMsgIn) = cmdDataB3R) :
    20 ≤ t.msg.length ∧ t.dataFor (headerNcci (headMsg s.plci.toMsgIn)) = true := by
  have ht := hb.holds.stored t (by simp)
  have hdataFor := ht.dataFor (headerNcci (headMsg s.plci.toMsgIn))
  rw [← hb.holds.head.mem, hcmd, BEq.rfl, BEq.rfl, Bool.and_self] at hdataFor
  refine ⟨hb.lens t (by simp) ?_, hdataFor.symm⟩
  have hd := hdataFor.symm
  simp only [Slot.dataFor, Bool.and_eq_true, beq_iff_eq] at hd
  exact hd.1

/-- The pending and queued requests leave the head request its place in `DBuffer`, so
    the window can only lack a place in `DataAck`. -/
theorem dataFull_dequeue {s : WinSt P} {t : Slot P} {rest : List (Slot P)} (hb : Bounded s (t :: rest))
    (hcmd : headerCommand (headMsg s.plci.toMsgIn) = cmdDataB3R) :
    dataFull P s.a (s.plci.withQueue (dequeueMsg P s.plci.toMsgIn)) (headMsg s.plci.toMsgIn) = false ↔
      ackKept s.a s.plci.toMsgIn rest := by
  have hpend := (hb.ncci (headerNcci (headMsg s.plci.toMsgIn))).pending
  simp only [List.countP_cons, (hb.head_data hcmd).2, if_true] at hpend
  have hcount := queuedData_eq (dequeue_holds hb.holds) (headerNcci (headMsg s.plci.toMsgIn))
  simp only [dequeueMsg_mem] at hcount
  unfold dataFull ackKept
  simp only [Plci.withQueue_toMsgIn, hcount, hcmd, forall_const, Bool.or_eq_false_iff, decide_eq_false_iff_not,
    Nat.not_le]
  exact ⟨fun h => h.2, fun h => ⟨by omega, h⟩⟩

/-- In every state a run reaches: the head message of an idle PLCI is not refused with
    _QUEUE_FULL exactly when its PLCI does not take it at all, or it has room and, for a
    DATA_B3 request, a place in the acknowledge ring. -/
theorem requeue_full_iff {s : WinSt P} (h : s.Init) (es : List (WinSt.Ev P))
    (hidle : plciBusy P (run WinSt.step s es).plci = false)
    (hne : (run WinSt.step s es).plci.msgInWritePos ≠ (run WinSt.step s es).plci.msgInReadPos) :
    ∃ (t : Slot P) (rest : List (Slot P)), Holds (run WinSt.step s es).plci.toMsgIn (t :: rest) ∧
      ∀ maxAdapter ap, (run WinSt.step s es).headPut maxAdapter ap ≠ .queueFull ↔
        (routed maxAdapter (run WinSt.step s es).a (headMsg (run WinSt.step s es).plci.toMsgIn) →
          plciTakes P (run WinSt.step s es).a (run WinSt.step s es).plci (headMsg (run WinSt.step s es).plci.toMsgIn) →
          roomKept P (run WinSt.step s es).plci.toMsgIn ∧
            ackKept (run WinSt.step s es).a (run WinSt.step s es).plci.toMsgIn rest) := by
  obtain ⟨live, hb⟩ := bounded h es
  generalize run WinSt.step s es = s at hidle hne hb ⊢
  cases live with
  | nil => exact absurd (hb.holds.layout.empty_iff.mpr rfl).symm hne
  | cons t rest =>
    refine ⟨t, rest, hb.holds, fun maxAdapter ap => ?_⟩
    have hlen := hb.holds.head.length
    have hidle' : plciBusy P (s.plci.withQueue (dequeueMsg P s.plci.toMsgIn)) = false := hidle
    unfold WinSt.headPut
    by_cases htaken : routed maxAdapter s.a (headMsg s.plci.toMsgIn) ∧
        plciTakes P s.a (s.plci.withQueue (dequeueMsg P s.plci.toMsgIn)) (headMsg s.plci.toMsgIn) = true
    · obtain ⟨hr, htk⟩ := htaken
      have htk' : plciTakes P s.a s.plci (headMsg s.plci.toMsgIn) = true := htk
      have hroom := noRoom_dequeue hb.holds (hlen ▸ hr.1.2)
      rw [apiPutReenter_taken hr htk, putTaken_queued hidle', hlen, Plci.withQueue_toMsgIn]
      simp only [hr, htk', forall_const]
      by_cases hrk : roomKept P s.plci.toMsgIn
      · rw [if_neg (by simp [hroom.mpr hrk])]
        by_cases hcmd : headerCommand (headMsg s.plci.toMsgIn) = cmdDataB3R
        · have h20 := (hb.head_data hcmd).1
          have hfull := dataFull_dequeue hb hcmd
          rw [if_pos hcmd, if_neg (by omega)]
          by_cases hak : ackKept s.a s.plci.toMsgIn rest
          · rw [if_neg (by simp [hfull.mpr hak])]
            exact iff_of_true (by simp) ⟨hrk, hak⟩
          · rw [if_pos (by simpa using mt hfull.mp hak)]
            exact iff_of_false (by simp) (fun hh => hak hh.2)
        · rw [if_neg hcmd]
          exact iff_of_true (by simp) ⟨hrk, fun hc => absurd hc hcmd⟩
      · rw [if_pos (by simpa using mt hroom.mp hrk)]
        exact iff_of_false (by simp) (fun hh => hrk hh.1)
    · refine iff_of_true ?_ (fun hr htk => absurd ⟨hr, htk⟩ htaken)
      rcases apiPutReenter_not_taken htaken ap true with h' | h'
      · rw [h']; simp
      · rw [h']; simp

open WinSt in
/-- One flagged request is sent and waits for its acknowledge; while an internal command
    runs, one request and seven flagged ones are queued. -/
def ackRun : List (Ev .eight) :=
  [putData 1 4 0, .rc, internal 1, putData 1 0 1, putData 1 4 2, putData 1 4 3, putData 1 4 4, putData 1 4 5,
    putData 1 4 6, putData 1 4 7, putData 1 4 8, internal 0]

theorem requeue_full_iff_ackRun :
    ∃ (t : Slot .eight) (rest : List (Slot .eight)),
      Holds (run WinSt.step WinSt.oneNcci ackRun).plci.toMsgIn (t :: rest) ∧
      ∀ maxAdapter ap, (run WinSt.step WinSt.oneNcci ackRun).headPut maxAdapter ap ≠ .queueFull ↔
        (routed maxAdapter (run WinSt.step WinSt.oneNcci ackRun).a
            (headMsg (run WinSt.step WinSt.oneNcci ackRun).plci.toMsgIn) →
          plciTakes .eight (run WinSt.step WinSt.oneNcci ackRun).a (run WinSt.step WinSt.oneNcci ackRun).plci
            (headMsg (run WinSt.step WinSt.oneNcci ackRun).plci.toMsgIn) →
          roomKept .eight (run WinSt.step WinSt.oneNcci ackRun).plci.toMsgIn ∧
            ackKept (run WinSt.step WinSt.oneNcci ackRun).a (run WinSt.step WinSt.oneNcci ackRun).plci.toMsgIn rest) :=
  requeue_full_iff WinSt.oneNcci_init ackRun (by decide +kernel) (by decide +kernel)

/-- The first queued request is dropped: the acknowledge it waits for and the seven
    flagged requests behind it count eight, though it asks for no acknowledge itself. -/
theorem requeue_full_reached :
    ¬ ∀ (s : WinSt .eight) (es : List (WinSt.Ev .eight)), s.Init → plciBusy .eight (run WinSt.step s es).plci = false →
      (run WinSt.step s es).plci.msgInWritePos ≠ (run WinSt.step s es).plci.msgInReadPos →
      ∀ maxAdapter ap, (run WinSt.step s es).headPut maxAdapter ap ≠ .queueFull := by
  intro h
  exact h WinSt.oneNcci ackRun WinSt.oneNcci_init (by decide +kernel) (by decide +kernel) 1
    ⟨8, fun _ => 0, fun _ => 0⟩ (by decide +kernel)

end Divas.Capi
