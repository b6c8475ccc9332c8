/-
  Divas.Capi.LiRingOrder — the notification ring of the line interconnect loses nothing.

  Proved: in every run whose steps meet `Cond`, the entries read are the first ones
  written, the others are in the ring in order, the ring is empty exactly when all are
  read, and a PRECHECK or CHECK pass changes neither cursors nor entries that wait
  (`li_ring`). Without the condition an UPDATE empties a full ring (`li_ring_emptied`).
-/

import Divas.Capi.LiRing

namespace Divas.Capi

open Divas.Lib.Ring Divas.Lib.Run LiSt

/-! ## Positions -/

namespace LiSt

/-- The number of entries that wait. -/
def used (s : LiSt) : Nat := (s.writePos + 256 - s.readPos) % 256

/-- What the entries that wait tell, in order. -/
def waiting (s : LiSt) : List Notice := ring 256 (fun i => (s.queue i).toNotice) s.readPos s.used

end LiSt

theorem free_eq {r w : Nat} (hr : r < 256) (hw : w < 256) : free r w = 255 - (w + 256 - r) % 256 := by
  unfold free
  have : liQueueEntries = 256 := rfl
  split <;> omega

theorem before_bump {pos : Nat} (h : pos < 256) : before (bump 256 pos) = pos := by
  unfold before bump
  have : liQueueEntries = 256 := rfl
  split <;> split <;> omega

/-! ## The invariant -/

structure LiInv (s : LiSt) : Prop where
  readLt : s.readPos < 256
  writeLt : s.writePos < 256
  reqLt : s.reqPos < 256
  ahead : (s.reqPos + 256 - s.readPos) % 256 ≤ s.used
  log : s.written = s.got ++ s.waiting

variable {s : LiSt}

theorem LiInv.used_lt (_ : LiInv s) : s.used < 256 := Nat.mod_lt _ (by decide)

theorem LiInv.free_eq (h : LiInv s) : free s.readPos s.writePos = 255 - s.used := Divas.Capi.free_eq h.readLt h.writeLt

theorem LiInv.write_eq (h : LiInv s) : (s.readPos + s.used) % 256 = s.writePos := by
  have := h.readLt
  have := h.writeLt
  unfold used
  omega

theorem waiting_setEntry (s : LiSt) (pos : Nat) (e : LiEntry) :
    (fun i => ((s.setEntry pos e).queue i).toNotice) = Function.update (fun i => (s.queue i).toNotice) pos e.toNotice := by
  funext i
  by_cases h : i = pos
  · subst h
    simp [setEntry]
  · simp [setEntry, Function.update_of_ne h]

/-- The end of a group is not part of what an entry tells. -/
theorem notice_setLast (s : LiSt) (pos : Nat) : (fun i => ((s.setLast pos).queue i).toNotice) = fun i =>
    (s.queue i).toNotice := by
  rw [setLast, waiting_setEntry]
  exact Function.update_eq_self pos fun i => (s.queue i).toNotice

theorem LiInv.setLast (h : LiInv s) (pos : Nat) : LiInv (s.setLast pos) := by
  refine ⟨h.readLt, h.writeLt, h.reqLt, h.ahead, ?_⟩
  unfold waiting
  rw [notice_setLast]
  exact h.log

theorem LiInv.push (h : LiInv s) (hf : 1 ≤ free s.readPos s.writePos) (e : LiEntry) : LiInv (s.push e) := by
  have hr := h.readLt
  have hw := h.writeLt
  rw [h.free_eq] at hf
  have hused : (s.push e).used = s.used + 1 := by
    show (bump 256 s.writePos + 256 - s.readPos) % 256 = s.used + 1
    rw [bump_eq hw]
    unfold used at hf ⊢
    omega
  refine ⟨hr, bump_lt hw, h.reqLt, ?_, ?_⟩
  · rw [hused]
    exact Nat.le_succ_of_le h.ahead
  · have hring := ring_push (fun i => (s.queue i).toNotice) hr (n := s.used) (by omega) e.toNotice
    rw [wrap_eq (by have := h.used_lt; omega), h.write_eq] at hring
    unfold waiting
    rw [hused]
    show s.written ++ [e.toNotice] = s.got ++ ring 256 (fun i => ((s.setEntry s.writePos e).queue i).toNotice)
      s.readPos (s.used + 1)
    rw [waiting_setEntry, hring, h.log, List.append_assoc]
    rfl

theorem LiInv.silentUpdate (h : LiInv s) : LiInv s.silentUpdate := by
  unfold LiSt.silentUpdate
  split
  · split
    · exact h
    · exact h.push (by omega) _
  · exact h.setLast _

theorem LiInv.sourceRemoved (h : LiInv s) (plciBId : Nat) : LiInv (s.sourceRemoved plciBId) := by
  unfold LiSt.sourceRemoved
  split
  · exact h
  · exact h.push (by omega) _

theorem LiInv.setReqPos (h : LiInv s) : LiInv s.setReqPos :=
  ⟨h.readLt, h.writeLt, h.writeLt, Nat.le_refl _, h.log⟩

/-! ## Reading -/

theorem LiInv.readEntry (h : LiInv s) (hne : s.readPos ≠ s.reqPos) : LiInv s.readEntry := by
  have hr := h.readLt
  have hw := h.writeLt
  have hq := h.reqLt
  have ha := h.ahead
  have hpos : ∃ n, s.used = n + 1 := ⟨s.used - 1, by unfold used at ha ⊢; omega⟩
  obtain ⟨n, hn⟩ := hpos
  have hused : s.readEntry.used = n := by
    show (s.writePos + 256 - bump 256 s.readPos) % 256 = n
    rw [bump_eq hr]
    unfold used at hn
    omega
  refine ⟨bump_lt hr, hw, hq, ?_, ?_⟩
  · rw [hused]
    show (s.reqPos + 256 - bump 256 s.readPos) % 256 ≤ n
    rw [bump_eq hr]
    unfold used at hn ha
    omega
  · unfold waiting
    rw [hused]
    show s.written = (s.got ++ [(s.queue s.readPos).toNotice]) ++ ring 256 (fun i => (s.queue i).toNotice) (bump 256 s.readPos) n
    rw [h.log, List.append_assoc]
    congr 1
    unfold waiting
    rw [hn]
    exact ring_succ (fun i => (s.queue i).toNotice) hr n

theorem LiInv.readLoop {k : Nat} (h : LiInv s) (hne : s.readPos ≠ s.reqPos) : LiInv (readLoop k s) := by
  induction k generalizing s with
  | zero => exact h
  | succ k ih =>
    have h' := h.readEntry hne
    unfold LiSt.readLoop
    simp only
    split
    · rename_i hgo
      exact ih h' hgo.2
    · exact h'

theorem LiInv.coefsSet (h : LiInv s) : LiInv s.coefsSet := by
  unfold LiSt.coefsSet
  split
  · rename_i hne
    exact h.readLoop hne
  · exact h

/-! ## One pass

What a pass writes stands behind the entries that wait, which stay as they are. -/

/-- The entry of a participant. -/
def entryOf (r : LiRequest) (p : Participant) : LiEntry := ⟨⟨p.plciBId % 65536, Pass.discFlag r p, false⟩, r.oldSpec⟩

structure Written (s : LiSt) (t : Pass) : Prop where
  st : t.st = { s with queue := t.st.queue }
  room : s.used + t.entries.length < 256
  pos : t.pos = (s.writePos + t.entries.length) % 256
  order : ring 256 (fun i => (t.st.queue i).toNotice) s.readPos (s.used + t.entries.length)
    = s.waiting ++ t.entries.map (·.toNotice)

structure PassInv (r : LiRequest) (s : LiSt) (t : Pass) : Prop extends Written s t where
  live : ∀ k, k < s.used → t.st.queue ((s.readPos + k) % 256) = s.queue ((s.readPos + k) % 256)
  fresh : t.entries ≠ [] → (t.st.queue (before t.pos)).last = r.oldSpec
  none : t.entries = [] → t.st = s

variable {r : LiRequest} {t : Pass} {op : Operation}

theorem PassInv.start (h : LiInv s) : PassInv r s ⟨s, s.writePos, []⟩ := by
  refine ⟨⟨rfl, h.used_lt, ?_, ?_⟩, fun _ _ => rfl, fun h => absurd rfl h, fun _ => rfl⟩
  · exact (Nat.mod_eq_of_lt h.writeLt).symm
  · show ring _ _ _ (s.used + 0) = s.waiting ++ []
    rw [List.append_nil]
    rfl

theorem Written.pos_eq (h : LiInv s) (hp : Written s t) : (s.readPos + (s.used + t.entries.length)) % 256 = t.pos := by
  have := h.write_eq
  have := hp.pos
  omega

/-- A write behind the entries that wait leaves them as they are. -/
theorem PassInv.live_update (h : LiInv s) (hp : PassInv r s t) {k : Nat} (hk : k < s.used) (e : LiEntry) :
    Function.update t.st.queue t.pos e ((s.readPos + k) % 256) = s.queue ((s.readPos + k) % 256) := by
  rw [Function.update_of_ne, hp.live k hk]
  rw [← hp.toWritten.pos_eq h]
  intro he
  have hroom := hp.room
  have := slot_inj (by omega) hroom he
  omega

theorem PassInv.put (h : LiInv s) (hp : PassInv r s t) (hroom : s.used + t.entries.length < 255) {e : LiEntry}
    (he : e.last = r.oldSpec) : PassInv r s (t.put e) := by
  have hpos : t.pos < 256 := by
    rw [hp.pos]
    exact Nat.mod_lt _ (by decide)
  have hlen : (t.put e).entries.length = t.entries.length + 1 := by simp [Pass.put]
  refine ⟨⟨?_, by rw [hlen]; omega, ?_, ?_⟩, fun k hk => hp.live_update h hk e, fun _ => ?_, fun hn => ?_⟩
  · show t.st.setEntry t.pos e = _
    unfold setEntry
    rw [hp.st]
    rfl
  · rw [hlen]
    show bump 256 t.pos = _
    rw [bump_eq hpos, hp.pos]
    omega
  · rw [hlen, ← Nat.add_assoc]
    have hring := ring_push (fun i => (t.st.queue i).toNotice) h.readLt (n := s.used + t.entries.length) (by omega) e.toNotice
    rw [wrap_eq (by have := h.readLt; omega), hp.toWritten.pos_eq h, hp.order] at hring
    show ring 256 (fun i => ((t.st.setEntry t.pos e).queue i).toNotice) _ _ = _
    rw [waiting_setEntry, hring, List.append_assoc]
    simp [Pass.put]
  · show ((t.st.setEntry t.pos e).queue (before (bump 256 t.pos))).last = _
    rw [before_bump hpos]
    simp [setEntry, he]
  · simp [Pass.put] at hn

theorem PassInv.free_eq (h : LiInv s) (hp : PassInv r s t) : free t.st.readPos t.pos = 255 - (s.used + t.entries.length) := by
  have hread : t.st.readPos = s.readPos := by rw [hp.st]
  have hpos : t.pos < 256 := by
    rw [hp.pos]
    exact Nat.mod_lt _ (by decide)
  have hpe := hp.toWritten.pos_eq h
  have hroom := hp.room
  have hr := h.readLt
  rw [hread, Divas.Capi.free_eq hr hpos]
  omega

theorem PassInv.participant (h : LiInv s) (hp : PassInv r s t) {p : Participant} (ha : p.accepted = true)
    (hroom : s.used + t.entries.length < 254) (hn : op ≠ .update → p.notifiesSelf = false) :
    PassInv r s (Pass.participant op r t p) ∧ (Pass.participant op r t p).entries = t.entries ++ [entryOf r p] := by
  have htakes : t.takes p = true := by
    have hfree := hp.free_eq h
    simp only [Pass.takes, ha, Bool.and_true, Bool.not_eq_true', decide_eq_false_iff_not]
    omega
  have hnotify : t.notify op p = t := by
    unfold Pass.notify
    by_cases ho : op = .update
    · simp [ho]
    · simp [hn ho]
  unfold Pass.participant
  rw [htakes, hnotify, if_pos rfl]
  exact ⟨hp.put h (by omega) rfl, rfl⟩

/-- A pass gives entries to the first participants that the checks accept, as long as two
    slots are free. -/
theorem PassInv.participants (h : LiInv s) (ps : List Participant) (hp : PassInv r s t)
    (hn : ∀ p, p ∈ (ps.filter (·.accepted)).take (254 - (s.used + t.entries.length)) → op ≠ .update → p.notifiesSelf = false) :
    PassInv r s (ps.foldl (Pass.participant op r) t) ∧
      (ps.foldl (Pass.participant op r) t).entries
        = t.entries ++ ((ps.filter (·.accepted)).take (254 - (s.used + t.entries.length))).map (entryOf r) := by
  induction ps generalizing t with
  | nil => exact ⟨hp, by simp⟩
  | cons p ps ih =>
    rw [List.foldl_cons]
    by_cases ha : p.accepted = true
    · rw [List.filter_cons_of_pos ha] at hn ⊢
      by_cases hroom : s.used + t.entries.length < 254
      · obtain ⟨m, hm⟩ : ∃ m, 254 - (s.used + t.entries.length) = m + 1 := ⟨253 - (s.used + t.entries.length), by omega⟩
        rw [hm] at hn ⊢
        obtain ⟨h1, h2⟩ := hp.participant h ha hroom (hn p (by simp))
        have hm' : 254 - (s.used + (Pass.participant op r t p).entries.length) = m := by
          rw [h2, List.length_append, List.length_singleton]
          omega
        obtain ⟨h3, h4⟩ := ih h1 (by rw [hm']; exact fun q hq => hn q (by simp [hq]))
        refine ⟨h3, ?_⟩
        rw [h4, hm', h2]
        simp
      · -- No room for this one and those after it.
        have hm : 254 - (s.used + t.entries.length) = 0 := by omega
        have hskip : Pass.participant op r t p = t := by
          have hfree := hp.free_eq h
          have htakes : t.takes p = false := by
            simp only [Pass.takes, ha, Bool.and_true, Bool.not_eq_false', decide_eq_true_eq]
            omega
          unfold Pass.participant
          rw [htakes]
          rfl
        rw [hskip]
        obtain ⟨h3, h4⟩ := ih hp (by rw [hm]; simp)
        refine ⟨h3, ?_⟩
        rw [h4, hm]
        simp
    · rw [List.filter_cons_of_neg ha] at hn ⊢
      have hskip : Pass.participant op r t p = t := by
        rw [Bool.not_eq_true] at ha
        simp [Pass.participant, Pass.takes, ha]
      rw [hskip]
      exact ih hp hn

/-- The participants of a pass. -/
theorem pass_entries (h : LiInv s) (hn : op ≠ .update → ∀ p, p ∈ s.taken r → p.notifiesSelf = false) :
    PassInv r s (r.looked.foldl (Pass.participant op r) ⟨s, s.writePos, []⟩) ∧
      (r.looked.foldl (Pass.participant op r) ⟨s, s.writePos, []⟩).entries = (s.taken r).map (entryOf r) := by
  have htaken : s.taken r = (r.looked.filter (·.accepted)).take (254 - (s.used + 0)) := by
    unfold taken
    rw [h.free_eq]
    congr 1
    omega
  obtain ⟨h1, h2⟩ := PassInv.participants h r.looked (PassInv.start h)
    (fun p hp (ho : op ≠ .update) => hn ho p (by rw [htaken]; exact hp))
  exact ⟨h1, by rw [h2, htaken]; rfl⟩

theorem taken_length (h : LiInv s) (r : LiRequest) : s.used + (s.taken r).length < 255 ∨ s.taken r = [] := by
  have hle : (s.taken r).length ≤ free s.readPos s.writePos - 1 := List.length_take_le _ _
  rw [h.free_eq] at hle
  by_cases hu : s.used < 254
  · exact Or.inl (by omega)
  · refine Or.inr (List.eq_nil_of_length_eq_zero ?_)
    omega

/-- The end of a group is set on the entry that was written last. -/
theorem PassInv.not_ended (h : LiInv s) (hp : PassInv r s t) (hr : r.oldSpec = false) (hne : t.entries ≠ [])
    (hlt : s.used + t.entries.length < 255) : t.st.ended t.pos = false := by
  have hlen := List.length_pos_iff.2 hne
  have hread : t.st.readPos = s.readPos := by rw [hp.st]
  have hpe := hp.toWritten.pos_eq h
  have hrlt := h.readLt
  have hpos : t.pos ≠ s.readPos := by omega
  unfold ended
  rw [hread, hp.fresh hne, hr, Bool.or_false]
  simpa using hpos

theorem Written.setLast (hw : Written s t) (pos : Nat) : Written s { t with st := t.st.setLast pos } := by
  refine ⟨?_, hw.room, hw.pos, ?_⟩
  · show t.st.setLast pos = _
    unfold LiSt.setLast setEntry
    rw [hw.st]
  · show ring 256 (fun i => ((t.st.setLast pos).queue i).toNotice) _ _ = _
    rw [notice_setLast]
    exact hw.order

theorem PassInv.finish_written (h : LiInv s) (hp : PassInv r s t) (hr : r.oldSpec = false)
    (hlt : t.entries ≠ [] → s.used + t.entries.length < 255)
    (hc : t.entries = [] → s.ended s.writePos = true → s.used < 255) : Written s t.finish := by
  unfold Pass.finish
  cases he : t.st.ended t.pos with
  | false => exact hp.toWritten.setLast _
  | true =>
    have hnil : t.entries = [] := by
      by_contra hne
      rw [hp.not_ended h hr hne (hlt hne)] at he
      cases he
    have hst := hp.none hnil
    have hpos : t.pos = s.writePos := by
      have := hp.pos
      rw [hnil] at this
      exact this.trans (Nat.mod_eq_of_lt h.writeLt)
    rw [hst, hpos] at he
    have hu := hc hnil he
    -- The marker is written as any other entry is, in a pass of the old specification.
    have hold : PassInv { r with oldSpec := true } s t :=
      ⟨hp.toWritten, hp.live, fun hne => absurd hnil hne, hp.none⟩
    have hput := hold.put h (e := skipEntry) (by rw [hnil]; exact hu) rfl
    exact hput.toWritten

/-- An UPDATE. -/
theorem Written.commit (h : LiInv s) (hw : Written s t) : LiInv (t.commit .update) := by
  have hst := hw.st
  have hread : t.st.readPos = s.readPos := by rw [hst]
  have hreq : t.st.reqPos = s.reqPos := by rw [hst]
  have hgot : t.st.got = s.got := by rw [hst]
  have hwritten : t.st.written = s.written := by rw [hst]
  have hr := h.readLt
  have hpe := hw.pos_eq h
  have hroom := hw.room
  have hpos : t.pos < 256 := by omega
  have hused : (t.commit .update).used = s.used + t.entries.length := by
    show (t.pos + 256 - t.st.readPos) % 256 = _
    rw [hread]
    omega
  refine ⟨?_, hpos, ?_, ?_, ?_⟩
  · show t.st.readPos < 256
    rw [hread]
    exact hr
  · show t.st.reqPos < 256
    rw [hreq]
    exact h.reqLt
  · rw [hused]
    show (t.st.reqPos + 256 - t.st.readPos) % 256 ≤ _
    rw [hreq, hread]
    have := h.ahead
    omega
  · unfold waiting
    rw [hused]
    show t.st.written ++ t.entries.map (·.toNotice) = t.st.got ++ ring 256 (fun i => (t.st.queue i).toNotice) t.st.readPos _
    rw [hread, hgot, hwritten, hw.order, h.log, List.append_assoc]

/-! ## A check pass -/

/-- Cursors and waiting entries are as they were. -/
structure Unmoved (s s' : LiSt) : Prop where
  readPos : s'.readPos = s.readPos
  writePos : s'.writePos = s.writePos
  reqPos : s'.reqPos = s.reqPos
  written : s'.written = s.written
  got : s'.got = s.got
  live : ∀ k, k < s.used → s'.queue ((s.readPos + k) % 256) = s.queue ((s.readPos + k) % 256)

theorem Unmoved.refl (s : LiSt) : Unmoved s s := ⟨rfl, rfl, rfl, rfl, rfl, fun _ _ => rfl⟩

theorem LiInv.unmoved {s' : LiSt} (h : LiInv s) (hu : Unmoved s s') : LiInv s' := by
  have hused : s'.used = s.used := by
    unfold used
    rw [hu.readPos, hu.writePos]
  refine ⟨?_, ?_, ?_, ?_, ?_⟩
  · rw [hu.readPos]
    exact h.readLt
  · rw [hu.writePos]
    exact h.writeLt
  · rw [hu.reqPos]
    exact h.reqLt
  · rw [hused, hu.reqPos, hu.readPos]
    exact h.ahead
  · rw [hu.written, hu.got, h.log]
    congr 1
    unfold waiting
    rw [hused, hu.readPos]
    refine ring_congr fun k hk => ?_
    simp only [hu.live k hk]

theorem PassInv.unmoved (hp : PassInv r s t) : Unmoved s t.st := by
  refine ⟨?_, ?_, ?_, ?_, ?_, hp.live⟩ <;> rw [hp.st]

/-- The entry before the position of a pass was written by the pass. -/
theorem PassInv.last_unmoved (h : LiInv s) (hp : PassInv r s t) (hne : t.entries ≠ []) :
    Unmoved s (t.st.setLast (before t.pos)) := by
  have hlen := List.length_pos_iff.2 hne
  have hpe := hp.toWritten.pos_eq h
  have hroom := hp.room
  have hrlt := h.readLt
  have hat : before t.pos = (s.readPos + (s.used + t.entries.length - 1)) % 256 := by
    unfold before
    have : liQueueEntries = 256 := rfl
    split <;> omega
  have hu := hp.unmoved
  refine ⟨hu.readPos, hu.writePos, hu.reqPos, hu.written, hu.got, ?_⟩
  intro k hk
  rw [← hp.live k hk]
  unfold LiSt.setLast setEntry
  refine Function.update_of_ne ?_ _ _
  rw [hat]
  intro he
  have := slot_inj (by omega) (by omega) he
  omega

theorem PassInv.put_unmoved (h : LiInv s) (hp : PassInv r s t) (e : LiEntry) : Unmoved s (t.put e).st := by
  have hu := hp.unmoved
  exact ⟨hu.readPos, hu.writePos, hu.reqPos, hu.written, hu.got, fun k hk => hp.live_update h hk e⟩

theorem PassInv.finish_unmoved (h : LiInv s) (hp : PassInv r s t) (hc : t.entries = [] → s.ended s.writePos = true) :
    Unmoved s t.finish.st := by
  unfold Pass.finish
  cases he : t.st.ended t.pos with
  | true => exact hp.put_unmoved h skipEntry
  | false =>
    refine hp.last_unmoved h fun hnil => ?_
    have hpos : t.pos = s.writePos := by
      have := hp.pos
      rw [hnil] at this
      exact this.trans (Nat.mod_eq_of_lt h.writeLt)
    rw [hp.none hnil, hpos, hc hnil] at he
    cases he

theorem takesNone_of (hm : r.mainOk = true) (ho : r.oldSpec = false) (hn : s.taken r = []) : s.takesNone r = true := by
  simp [takesNone, hm, ho, hn]

/-- A PRECHECK or CHECK pass. -/
theorem LiInv.check (h : LiInv s) (ho : op ≠ .update) (hc : Cond s (.request op r)) : Unmoved s (s.processRequest op r) := by
  unfold processRequest
  cases hm : r.mainOk with
  | false => exact Unmoved.refl s
  | true =>
    obtain ⟨hp, hentries⟩ := pass_entries h fun ho => hc.2.2 ho hm
    simp only [Bool.not_true, Bool.false_eq_true, if_false]
    have hcommit : ∀ t : Pass, t.commit op = t.st := by
      intro t
      simp [Pass.commit, ho]
    rw [hcommit]
    cases hold : r.oldSpec with
    | true => exact hp.unmoved
    | false =>
      refine hp.finish_unmoved h fun hnil => hc.2.1 ho (takesNone_of hm hold ?_)
      rw [hentries] at hnil
      exact List.map_eq_nil_iff.1 hnil

theorem LiInv.update (h : LiInv s) (hc : Cond s (.request .update r)) : LiInv (s.processRequest .update r) := by
  unfold processRequest
  cases hm : r.mainOk with
  | false => exact h
  | true =>
    obtain ⟨hp, hentries⟩ := pass_entries (r := r) h fun (ho : Operation.update ≠ .update) => absurd rfl ho
    simp only [Bool.not_true, Bool.false_eq_true, if_false]
    cases hold : r.oldSpec with
    | true => exact hp.toWritten.commit h
    | false =>
      refine (hp.finish_written h hold (fun hne => ?_) fun hnil he => ?_).commit h
      · rw [hentries, List.length_map]
        rcases taken_length h r with hlt | hnil
        · exact hlt
        · rw [hentries, hnil] at hne
          exact absurd rfl hne
      · rw [hentries] at hnil
        have hroom := hc.1 rfl (takesNone_of hm hold (List.map_eq_nil_iff.1 hnil)) he
        rw [h.free_eq] at hroom
        omega

/-! ## Runs -/

theorem LiInv.step (h : LiInv s) {e : LiEv} (hc : Cond s e) : LiInv (s.step e) := by
  cases e with
  | request op r =>
    by_cases ho : op = .update
    · subst ho
      exact h.update hc
    · exact h.unmoved (h.check ho hc)
  | silentUpdate => exact h.silentUpdate
  | sourceRemoved plciBId => exact h.sourceRemoved plciBId
  | setReqPos => exact h.setReqPos
  | coefsSet => exact h.coefsSet
  | writeFailed =>
    have hsame : s.writeFailed = s := by
      have : s.writePos = s.reqPos := hc
      simp [LiSt.writeFailed, this]
    show LiInv s.writeFailed
    rw [hsame]
    exact h

theorem LiInv.start (queue : Nat → LiEntry) : LiInv (LiSt.start queue) :=
  ⟨Nat.zero_lt_succ _, Nat.zero_lt_succ _, Nat.zero_lt_succ _, Nat.le_refl _, by simp [LiSt.start, waiting, used]⟩

theorem LiInv.run {queue : Nat → LiEntry} {es : List LiEv} (hc : Along LiSt.step Cond (LiSt.start queue) es) :
    LiInv (run LiSt.step (LiSt.start queue) es) :=
  hc.invariant (I := LiInv) LiSt.step (fun _ _ h hc => h.step hc) (LiInv.start queue)

theorem waiting_length (s : LiSt) : s.waiting.length = s.used := ring_length _ _ _

/-- Equal cursors are an empty ring. -/
theorem LiInv.empty_iff (h : LiInv s) : s.writePos = s.readPos ↔ s.got = s.written := by
  have hused : s.writePos = s.readPos ↔ s.used = 0 := by
    have := h.readLt
    have := h.writeLt
    unfold used
    omega
  rw [hused, h.log, ← waiting_length, List.length_eq_zero_iff, List.self_eq_append_right]

/-! ### Everything is read -/

theorem readLoop_frame (k : Nat) (s : LiSt) :
    (LiSt.readLoop k s).writePos = s.writePos ∧ (LiSt.readLoop k s).reqPos = s.reqPos ∧
      (LiSt.readLoop k s).written = s.written := by
  induction k generalizing s with
  | zero => exact ⟨rfl, rfl, rfl⟩
  | succ k ih =>
    unfold LiSt.readLoop
    simp only
    split
    · exact ih s.readEntry
    · exact ⟨rfl, rfl, rfl⟩

theorem readLoop_got (k : Nat) (s : LiSt) : s.got.length ≤ (LiSt.readLoop k s).got.length := by
  induction k generalizing s with
  | zero => exact Nat.le_refl _
  | succ k ih =>
    have hentry : s.got.length ≤ s.readEntry.got.length := by simp [LiSt.readEntry]
    unfold LiSt.readLoop
    simp only
    split
    · exact hentry.trans (ih s.readEntry)
    · exact hentry

/-- The loop ends before a ring of entries is read: more turns change nothing. -/
theorem readLoop_enough {k : Nat} (h : LiInv s) (hne : s.readPos ≠ s.reqPos)
    (hk : (s.reqPos + 256 - s.readPos) % 256 ≤ k) : LiSt.readLoop (k + 1) s = LiSt.readLoop k s := by
  induction k generalizing s with
  | zero =>
    have := h.readLt
    have := h.reqLt
    omega
  | succ k ih =>
    have hread : ∀ n, LiSt.readLoop (n + 1) s
        = if (s.queue s.readPos).last = false ∧ s.readEntry.readPos ≠ s.readEntry.reqPos then LiSt.readLoop n s.readEntry
          else s.readEntry := fun _ => rfl
    rw [hread, hread]
    split
    · rename_i hgo
      refine ih (h.readEntry hne) hgo.2 ?_
      show (s.reqPos + 256 - bump 256 s.readPos) % 256 ≤ k
      have := h.readLt
      have := h.reqLt
      rw [bump_eq h.readLt]
      omega
    · rfl

theorem coefsSet_got (hne : s.readPos ≠ s.reqPos) : s.got.length < s.coefsSet.got.length := by
  have hentry : s.got.length < s.readEntry.got.length := by simp [LiSt.readEntry]
  unfold LiSt.coefsSet
  rw [if_pos hne]
  have hread : LiSt.readLoop liQueueEntries s
      = if (s.queue s.readPos).last = false ∧ s.readEntry.readPos ≠ s.readEntry.reqPos then LiSt.readLoop 255 s.readEntry
        else s.readEntry := rfl
  rw [hread]
  split
  · exact lt_of_lt_of_le hentry (readLoop_got _ _)
  · exact hentry

theorem coefsSet_frame (s : LiSt) :
    s.coefsSet.writePos = s.writePos ∧ s.coefsSet.reqPos = s.reqPos ∧ s.coefsSet.written = s.written := by
  unfold LiSt.coefsSet
  split
  · exact readLoop_frame _ _
  · exact ⟨rfl, rfl, rfl⟩

/-- Calls of `mixer_indication_coefs_set` read all entries up to `li_plci_b_req_pos`. -/
theorem LiInv.drain (h : LiInv s) (hreq : s.reqPos = s.writePos) {n : Nat} (hn : s.used ≤ n) :
    (LiSt.coefsSet^[n] s).got = s.written := by
  induction n generalizing s with
  | zero =>
    have hnil : s.waiting = [] := by
      rw [← List.length_eq_zero_iff, waiting_length]
      omega
    have hlog := h.log
    rw [hnil, List.append_nil] at hlog
    exact hlog.symm
  | succ n ih =>
    obtain ⟨hwrite, hreq', hwritten⟩ := coefsSet_frame s
    have h' := h.coefsSet
    have hless : s.coefsSet.used ≤ n := by
      by_cases hne : s.readPos = s.reqPos
      · have hsame : s.coefsSet = s := by simp [LiSt.coefsSet, hne]
        rw [hsame]
        unfold used
        have := h.writeLt
        omega
      · -- The entries that are read and those that wait are together as many as before.
        have hgot := coefsSet_got hne
        have hlog := congrArg List.length h.log
        have hlog' := congrArg List.length h'.log
        rw [hwritten, hlog, List.length_append, List.length_append, waiting_length, waiting_length] at hlog'
        omega
    rw [Function.iterate_succ_apply, ih h' (by rw [hreq', hwrite, hreq]) hless, hwritten]

/-- In every run that meets the condition, what was written is what was read and what
    waits, equal cursors mean that all is read, all that waits is read in the end, a check
    pass changes neither cursors nor entries that wait, and the loop of a read is left before
    it has gone once around the ring. -/
theorem li_ring {queue : Nat → LiEntry} {es : List LiEv} (hc : Along LiSt.step Cond (LiSt.start queue) es) :
    let s := run LiSt.step (LiSt.start queue) es
    s.written = s.got ++ s.waiting ∧
    (s.writePos = s.readPos ↔ s.got = s.written) ∧
    (LiSt.coefsSet^[s.used] s.setReqPos).got = s.written ∧
    (∀ op r, op ≠ .update → Cond s (.request op r) → Unmoved s (s.processRequest op r)) ∧
    ∀ k, s.readPos ≠ s.reqPos → 255 ≤ k → LiSt.readLoop (k + 1) s = LiSt.readLoop k s := by
  intro s
  have h : LiInv s := LiInv.run hc
  exact ⟨h.log, h.empty_iff, h.setReqPos.drain rfl (Nat.le_refl _), fun op r ho hc => h.check ho hc,
    fun k hne hk => readLoop_enough h hne (by omega)⟩

/-- Two participants are checked, connected and told, then a source is removed. -/
def connectTwo : List LiEv :=
  let r : LiRequest := ⟨true, false, true, [⟨0x101, 1, true, false⟩, ⟨0x201, 1, true, false⟩]⟩
  [.request .precheck r, .request .check r, .request .update r, .setReqPos, .coefsSet, .sourceRemoved 0x301]

theorem li_ring_connectTwo :
    let s := run LiSt.step (LiSt.start fun _ => skipEntry) connectTwo
    s.written = s.got ++ s.waiting ∧ s.got.length = 2 ∧ s.waiting.length = 1 :=
  ⟨(li_ring (show Along LiSt.step Cond (LiSt.start fun _ => skipEntry) connectTwo by decide +kernel)).1,
    by decide +kernel, by decide +kernel⟩

/-- 255 notices of removed sources fill the ring, a silent update ends their group. The
    marker of an UPDATE that accepts no participant then makes the cursors equal. -/
theorem li_ring_emptied :
    let s := run LiSt.step (LiSt.start fun _ => skipEntry)
      (List.replicate 255 (.sourceRemoved 0x101) ++ [.silentUpdate, .request .update ⟨true, false, true, []⟩])
    s.writePos = s.readPos ∧ s.got = [] ∧ s.written.length = 256 := by
  decide +kernel

end Divas.Capi
