/-
  Divas.Capi.IncomingArbitration — one application gets an incoming call.

  While the PLCI rings, an application with a bit has not answered, and whoever takes the
  call is the first one: the assignment leaves INC_CON_PENDING and INC_CON_ALERT. What
  arrives later from another application does nothing, but in one place: in
  INC_CON_CONNECTED_PEND and INC_CON_CONNECTED_ALERT CONNECT_RES is taken from anybody.

  Proved:
  - in every run in which no other application's CONNECT_RES arrives there, one application
    is assigned, CALL_RES is requested for it after it accepted, every other one gets one
    DISCONNECT_I, and the PLCI is removed without a bit left;
  - one such CONNECT_RES breaks this at once (`incoming_arbitration`).
-/

import Divas.Capi.Incoming

namespace Divas.Capi

open Divas.Lib.Run

namespace Incoming

/-! ## What is to hold -/

structure Arbitrated (s : Incoming) : Prop where
  /-- At most one application has been assigned. -/
  one : ∀ x ∈ s.assigned, ∀ y ∈ s.assigned, x = y
  owner : ∀ x, s.appl = some x → x ∈ s.assigned
  /-- `CALL_RES` has its parameters, and it has accepted. -/
  callRes : ∀ x, SigReq.callRes x ∈ s.requests → x ∈ s.assigned ∧ x ∈ s.accepted
  /-- Any other application gets one DISCONNECT_I: the call still rings for it, or it got
      it. -/
  told : ∀ x ∈ s.offered, s.phase x ≠ .released → x ∉ s.assigned →
    s.told x = if s.Ringing ∧ x ∈ s.cIndMask then 0 else 1
  removed : s.live = false → s.cIndMask = ∅

/-- No CONNECT_RES from another application behind an INFO_REQ that got the call. -/
def CleanEv (s : Incoming) : CallEv → Prop
  | .connectRes x reject o => s.Allowed (.connectRes x reject o) → s.Connected → ∀ y, s.appl = some y → y = x
  | _ => True

/-! ## The invariant -/

/-- The books of the call, while `t` may be talking: its bit may still be set. -/
structure InvBut (t : Option Nat) (s : Incoming) : Prop where
  bits : ∀ x ∈ s.cIndMask, x ∈ s.offered
  bound : ∀ x ∈ s.offered, x < s.maxAppl
  alive : s.Ringing ∨ s.Connected → s.live = true
  waiting : s.Ringing → ∀ x ∈ s.cIndMask, some x ≠ t → s.phase x = .offered
  silent : s.Ringing → ∀ x, some x ≠ t → s.phase x ≠ .accepted
  asked : s.Ringing ∨ s.Connected → ∀ x ∈ s.offered, s.phase x = .offered →
    x ∈ s.cIndMask ∨ ¬ s.Ringing ∧ x ∈ s.assigned
  unowned : s.Ringing → s.cIndMask ≠ ∅ → s.assigned = []
  one : ∀ x ∈ s.assigned, ∀ y ∈ s.assigned, x = y
  owner : ∀ x, s.appl = some x → x ∈ s.assigned
  apart : ∀ x ∈ s.cIndMask, x ∉ s.assigned
  callRes : ∀ x, SigReq.callRes x ∈ s.requests → x ∈ s.assigned ∧ x ∈ s.accepted
  saved : ∀ x, s.spoofed = some x → x ∈ s.assigned ∧ x ∈ s.accepted
  told : ∀ x ∈ s.offered, s.phase x ≠ .released → x ∉ s.assigned →
    s.told x = if s.Ringing ∧ x ∈ s.cIndMask then 0 else 1
  removed : s.live = false → s.cIndMask = ∅
  signal : s.sigId ≠ 0xff
  noRetrieve : s.state ≠ .incConBlindRetrieve

abbrev Inv (s : Incoming) : Prop := InvBut none s

variable {s : Incoming} {t : Option Nat} {x : Nat}

theorem InvBut.arbitrated (h : InvBut t s) : s.Arbitrated := ⟨h.one, h.owner, h.callRes, h.told, h.removed⟩

theorem Init.inv (h : s.Init) : s.Inv := by
  have hr : s.Ringing := Or.inl h.state
  constructor
  · intro x hx; rw [h.mask] at hx; exact hx
  · exact h.bound
  · intro _; exact h.live
  · intro _ x _ _; exact h.phase x
  · intro _ x _; rw [h.phase x]; simp
  · intro _ x hx _; left; rw [h.mask]; exact hx
  · intro _ _; exact h.assigned
  · intro x hx; rw [h.assigned] at hx; cases hx
  · intro x hx; rw [h.appl] at hx; cases hx
  · intro x _ hx; rw [h.assigned] at hx; cases hx
  · intro x hx; rw [h.requests] at hx; cases hx
  · intro x hx; rw [h.spoofed] at hx; cases hx
  · intro x hx _ _
    rw [if_pos ⟨hr, by rw [h.mask]; exact hx⟩, told, h.sent]
    rfl
  · intro hl; rw [h.live] at hl; cases hl
  · exact h.sigId
  · rw [h.state]; decide

/-- Nobody is talking any more: the call does not ring, or the bit is gone. -/
theorem InvBut.settle (h : InvBut (some x) s) (hx : s.Ringing → x ∉ s.cIndMask ∧ s.phase x ≠ .accepted) : s.Inv where
  bits := h.bits
  bound := h.bound
  alive := h.alive
  waiting := by
    intro hr y hy _
    refine h.waiting hr y hy ?_
    rintro ⟨⟩
    exact (hx hr).1 hy
  silent := by
    intro hr y _
    by_cases hyx : y = x
    · rw [hyx]; exact (hx hr).2
    · refine h.silent hr y ?_
      rintro ⟨⟩
      exact hyx rfl
  asked := h.asked
  unowned := h.unowned
  one := h.one
  owner := h.owner
  apart := h.apart
  callRes := h.callRes
  saved := h.saved
  told := h.told
  removed := h.removed
  signal := h.signal
  noRetrieve := h.noRetrieve

theorem Inv.talk (h : s.Inv) (x : Nat) : InvBut (some x) s where
  bits := h.bits
  bound := h.bound
  alive := h.alive
  waiting := fun hr y hy _ => h.waiting hr y hy (by simp)
  silent := fun hr y _ => h.silent hr y (by simp)
  asked := h.asked
  unowned := h.unowned
  one := h.one
  owner := h.owner
  apart := h.apart
  callRes := h.callRes
  saved := h.saved
  told := h.told
  removed := h.removed
  signal := h.signal
  noRetrieve := h.noRetrieve

/-- An application says something that is not its first word any more. -/
theorem Inv.setPhase (h : s.Inv) {p : Phase} (hp : p ≠ .offered) (hrel : p ≠ .released → s.phase x ≠ .released) :
    InvBut (some x) (s.setPhase x p) where
  bits := h.bits
  bound := h.bound
  alive := h.alive
  waiting := by
    intro hr y hy hne
    have hyx : y ≠ x := by
      rintro rfl
      exact hne rfl
    simpa [Incoming.setPhase, hyx] using h.waiting hr y hy (by simp)
  silent := by
    intro hr y hne
    have hyx : y ≠ x := by
      rintro rfl
      exact hne rfl
    simpa [Incoming.setPhase, hyx] using h.silent hr y (by simp)
  asked := by
    intro hr y hy hph
    by_cases hyx : y = x
    · subst hyx
      simp [Incoming.setPhase, hp] at hph
    · exact h.asked hr y hy (by simpa [Incoming.setPhase, hyx] using hph)
  unowned := h.unowned
  one := h.one
  owner := h.owner
  apart := h.apart
  callRes := h.callRes
  saved := h.saved
  told := by
    intro y hy hph hno
    refine h.told y hy ?_ hno
    by_cases hyx : y = x
    · subst hyx
      exact hrel (by simpa [Incoming.setPhase] using hph)
    · simpa [Incoming.setPhase, hyx] using hph
  removed := h.removed
  signal := h.signal
  noRetrieve := h.noRetrieve

/-! ## What a change of the fields does -/

/-- The fields that the arbitration looks at. -/
def core (s : Incoming) :=
  (s.maxAppl, s.live, s.state, s.appl, s.cIndMask, s.offered, s.phase, s.assigned, s.sent)

theorem InvBut.congr (h : InvBut t s) {s' : Incoming} (hc : s'.core = s.core)
    (hreq : ∀ x, SigReq.callRes x ∈ s'.requests → x ∈ s.assigned ∧ x ∈ s'.accepted)
    (hsaved : ∀ x, s'.spoofed = some x → x ∈ s.assigned ∧ x ∈ s'.accepted) (hsig : s'.sigId ≠ 0xff) : InvBut t s' := by
  cases s
  cases s'
  simp only [core, Prod.mk.injEq] at hc
  obtain ⟨rfl, rfl, rfl, rfl, rfl, rfl, rfl, rfl, rfl⟩ := hc
  exact ⟨h.bits, h.bound, h.alive, h.waiting, h.silent, h.asked, h.unowned, h.one, h.owner, h.apart, hreq, hsaved,
    h.told, h.removed, hsig, h.noRetrieve⟩

/-- A request that is no `CALL_RES`. -/
theorem InvBut.sigReq (h : InvBut t s) {r : SigReq} (hr : ∀ x, SigReq.callRes x ≠ r) : InvBut t (s.sigReq r) := by
  refine h.congr rfl ?_ h.saved h.signal
  intro x hx
  rcases List.mem_append.mp hx with hx | hx
  · exact h.callRes x hx
  · exact absurd (List.mem_singleton.mp hx) (hr x)

/-- A `CALL_RES` for the application that has the call and accepted. -/
theorem InvBut.sigReq_callRes (h : InvBut t s) (ha : x ∈ s.assigned) (hacc : x ∈ s.accepted) :
    InvBut t (s.sigReq (.callRes x)) := by
  refine h.congr rfl ?_ h.saved h.signal
  intro y hy
  rcases List.mem_append.mp hy with hy | hy
  · exact h.callRes y hy
  · cases List.mem_singleton.mp hy
    exact ⟨ha, hacc⟩

theorem not_ringing_progress (s : Incoming) (p : Progress) : ¬ (s.setState p.state).Ringing :=
  not_or.mpr p.notRinging

theorem not_connected_progress (s : Incoming) (p : Progress) : ¬ (s.setState p.state).Connected :=
  not_or.mpr p.notConnected

/-- A call that does not ring for anybody moves to a state in which nothing is taken. -/
theorem InvBut.quiet (h : InvBut t s) (hm : s.Ringing → s.cIndMask = ∅) (p : Progress) : (s.setState p.state).Inv where
  bits := h.bits
  bound := h.bound
  alive := by
    rintro (hr | hr)
    · exact absurd hr (s.not_ringing_progress p)
    · exact absurd hr (s.not_connected_progress p)
  waiting := fun hr => absurd hr (s.not_ringing_progress p)
  silent := fun hr => absurd hr (s.not_ringing_progress p)
  asked := by
    rintro (hr | hr)
    · exact absurd hr (s.not_ringing_progress p)
    · exact absurd hr (s.not_connected_progress p)
  unowned := fun hr => absurd hr (s.not_ringing_progress p)
  one := h.one
  owner := h.owner
  apart := h.apart
  callRes := h.callRes
  saved := h.saved
  told := by
    intro y hy hph hno
    rw [if_neg (fun hr => s.not_ringing_progress p hr.1)]
    refine (h.told y hy hph hno).trans (if_neg ?_)
    intro hr
    have := hr.2
    simp [hm hr.1] at this
  removed := h.removed
  signal := h.signal
  noRetrieve := p.notRetrieve

theorem told_disconnectI (s : Incoming) (xs : List Nat) (r y : Nat) :
    (s.disconnectI xs r).told y = s.told y + xs.count y := by
  simp only [told, disconnectI, List.countP_append, List.countP_map, List.count]
  rfl

theorem count_masked (hb : ∀ y ∈ s.cIndMask, y < s.maxAppl) (x : Nat) :
    s.masked.count x = if x ∈ s.cIndMask then 1 else 0 := by
  have hmem : x ∈ s.masked ↔ x ∈ s.cIndMask := by
    simp only [masked, List.mem_filter, List.mem_range, decide_eq_true_eq, and_iff_right_iff_imp]
    exact hb x
  have hnd : s.masked.Nodup := List.Nodup.filter _ List.nodup_range
  split
  · rename_i hx
    exact List.count_eq_one_of_mem hnd (hmem.mpr hx)
  · rename_i hx
    exact List.count_eq_zero_of_not_mem (fun h => hx (hmem.mp h))

/-! ## Assignment and rejection -/

/-- The first one gets the call, and the others are told. -/
theorem InvBut.assign (h : InvBut (some x) s) (hr : s.Ringing) (hx : x ∈ s.cIndMask) {u : State}
    (hu : ¬ (s.setState u).Ringing) (hb : u ≠ .incConBlindRetrieve) : ((s.assignIncomingCall x true).setState u).Inv := by
  have hass : s.assigned = [] := h.unowned hr (Finset.ne_empty_of_mem hx)
  have hlt : ∀ y ∈ s.cIndMask.erase x, y < s.maxAppl := by
    intro y hy
    exact h.bound y (h.bits y (Finset.mem_of_mem_erase hy))
  have hnew : ∀ y, y ∈ ((s.assignIncomingCall x true).setState u).assigned ↔ y = x := by
    intro y
    simp [assignIncomingCall, Incoming.setState, disconnectI, setAppl, clearBit, hass]
  constructor
  · intro y hy
    exact h.bits y (Finset.mem_of_mem_erase hy)
  · exact h.bound
  · intro _; exact h.alive (Or.inl hr)
  · intro hr'; exact absurd hr' hu
  · intro hr'; exact absurd hr' hu
  · intro _ y hy hph
    rcases h.asked (Or.inl hr) y hy hph with hy' | hy'
    · by_cases hyx : y = x
      · exact Or.inr ⟨hu, (hnew y).mpr hyx⟩
      · exact Or.inl (Finset.mem_erase.mpr ⟨hyx, hy'⟩)
    · exact absurd hr hy'.1
  · intro hr'; exact absurd hr' hu
  · intro y hy z hz
    rw [(hnew y).mp hy, (hnew z).mp hz]
  · intro y hy
    exact (hnew y).mpr (Option.some.inj hy).symm
  · intro y hy hy'
    exact (Finset.mem_erase.mp hy).1 ((hnew y).mp hy')
  · intro y hy
    have := (h.callRes y hy).1
    rw [hass] at this
    cases this
  · intro y hy
    have := (h.saved y hy).1
    rw [hass] at this
    cases this
  · intro y hy hph hno
    have hyx : y ≠ x := fun he => hno ((hnew y).mpr he)
    have hold := h.told y hy hph (by rw [hass]; simp)
    rw [if_neg (fun hr' => hu hr'.1)]
    have hcount : ((s.setAppl x).clearBit x).masked.count y = if y ∈ s.cIndMask.erase x then 1 else 0 :=
      count_masked (s := (s.setAppl x).clearBit x) hlt y
    have hmem : y ∈ s.cIndMask.erase x ↔ y ∈ s.cIndMask := by simp [hyx]
    calc ((s.assignIncomingCall x true).setState u).told y
        = s.told y + ((s.setAppl x).clearBit x).masked.count y := told_disconnectI _ _ _ _
      _ = 1 := by
        rw [hcount, hold]
        by_cases hy' : y ∈ s.cIndMask
        · rw [if_pos ⟨hr, hy'⟩, if_pos (hmem.mpr hy')]
        · rw [if_neg (fun hr' => hy' hr'.2), if_neg (fun hm => hy' (hmem.mp hm))]
  · intro hl
    have hl' : s.live = false := hl
    rw [h.alive (Or.inl hr)] at hl'
    cases hl'
  · exact h.signal
  · exact hb

theorem InvBut.silent_of_closing (h : InvBut (some x) s) (hr : s.Ringing) (hph : s.phase x = .closing) (y : Nat) :
    s.phase y ≠ .accepted := by
  by_cases hyx : y = x
  · rw [hyx, hph]; simp
  · refine h.silent hr y ?_
    rintro ⟨⟩
    exact hyx rfl

/-- The last application turns a call that rings down. -/
theorem InvBut.rejectLast (h : InvBut (some x) s) (hr : s.Ringing) (hx : x ∈ s.cIndMask) (hph : s.phase x = .closing)
    (hlast : s.cIndMask.erase x = ∅) {r : SigReq} (hreq : ∀ y, SigReq.callRes y ≠ r) :
    (((s.clearBit x).sigReq r).setAppl x).Inv := by
  have hass : s.assigned = [] := h.unowned hr (Finset.ne_empty_of_mem hx)
  have honly : ∀ y ∈ s.cIndMask, y = x := by
    intro y hy
    by_contra hne
    have := Finset.mem_erase.mpr ⟨hne, hy⟩
    simp [hlast] at this
  have hnew : ∀ y, y ∈ (((s.clearBit x).sigReq r).setAppl x).assigned ↔ y = x := by
    intro y
    simp [setAppl, Incoming.sigReq, clearBit, hass]
  have hempty : (((s.clearBit x).sigReq r).setAppl x).cIndMask = ∅ := hlast
  constructor
  · intro y hy; rw [hempty] at hy; simp at hy
  · exact h.bound
  · exact h.alive
  · intro _ y hy; rw [hempty] at hy; simp at hy
  · intro _ y _
    exact h.silent_of_closing hr hph y
  · intro _ y hy hph'
    rcases h.asked (Or.inl hr) y hy hph' with hy' | hy'
    · have hph'' : s.phase y = .offered := hph'
      rw [honly y hy', hph] at hph''
      cases hph''
    · exact absurd hr hy'.1
  · intro _ hne; exact absurd hempty hne
  · intro y hy z hz
    rw [(hnew y).mp hy, (hnew z).mp hz]
  · intro y hy
    exact (hnew y).mpr (Option.some.inj hy).symm
  · intro y hy; rw [hempty] at hy; simp at hy
  · intro y hy
    rcases List.mem_append.mp hy with hy | hy
    · have := (h.callRes y hy).1
      rw [hass] at this
      cases this
    · exact absurd (List.mem_singleton.mp hy) (hreq y)
  · intro y hy
    have := (h.saved y hy).1
    rw [hass] at this
    cases this
  · intro y hy hph' hno
    have hyx : y ≠ x := fun he => hno ((hnew y).mpr he)
    have hold := h.told y hy hph' (by rw [hass]; simp)
    rw [if_neg (fun hr' => hyx (honly y hr'.2))] at hold
    rw [if_neg (fun hr' => by have := hr'.2; rw [hempty] at this; simp at this)]
    exact hold
  · intro _; exact hempty
  · exact h.signal
  · exact h.noRetrieve

/-- Another application that rejects is told. -/
theorem InvBut.rejectOther (h : InvBut (some x) s) (hr : s.Ringing) (hx : x ∈ s.cIndMask) (hph : s.phase x = .closing)
    (cause : Nat) : ({ s.clearBit x with lastrejectcause := cause }.disconnectI [x] otherApplConnected).Inv := by
  have hass : s.assigned = [] := h.unowned hr (Finset.ne_empty_of_mem hx)
  constructor
  · intro y hy
    exact h.bits y (Finset.mem_of_mem_erase hy)
  · exact h.bound
  · exact h.alive
  · intro _ y hy _
    obtain ⟨hyx, hy'⟩ := Finset.mem_erase.mp hy
    refine h.waiting hr y hy' ?_
    rintro ⟨⟩
    exact hyx rfl
  · intro _ y _
    exact h.silent_of_closing hr hph y
  · intro _ y hy hph'
    rcases h.asked (Or.inl hr) y hy hph' with hy' | hy'
    · refine Or.inl (Finset.mem_erase.mpr ⟨?_, hy'⟩)
      rintro rfl
      have hph'' : s.phase y = .offered := hph'
      rw [hph] at hph''
      cases hph''
    · exact Or.inr hy'
  · intro _ _; exact hass
  · exact h.one
  · exact h.owner
  · intro y hy
    exact h.apart y (Finset.mem_of_mem_erase hy)
  · exact h.callRes
  · exact h.saved
  · intro y hy hph' hno
    have hold := h.told y hy hph' hno
    have hnew : ({ s.clearBit x with lastrejectcause := cause }.disconnectI [x] otherApplConnected).told y
        = s.told y + [x].count y := told_disconnectI _ _ _ _
    rw [hnew, hold]
    by_cases hyx : y = x
    · subst hyx
      rw [if_pos ⟨hr, hx⟩, if_neg (fun hr' => (Finset.mem_erase.mp hr'.2).1 rfl)]
      simp
    · have hmem : y ∈ s.cIndMask.erase x ↔ y ∈ s.cIndMask := by simp [hyx]
      have hz : [x].count y = 0 := by simp [Ne.symm hyx]
      rw [hz, Nat.add_zero]
      exact if_congr (and_congr_right fun _ => hmem.symm) rfl rfl
  · intro hl
    have hl' : s.live = false := hl
    rw [h.alive (Or.inl hr)] at hl'
    cases hl'
  · exact h.signal
  · exact h.noRetrieve

theorem rejectRequest_ne (s : Incoming) (reject x : Nat) : SigReq.callRes x ≠ s.rejectRequest reject := by
  unfold rejectRequest
  repeat' split
  all_goals simp

/-- An application with a bit rejects a call that rings: the last one turns it down, any
    other one is told. -/
theorem InvBut.rejectRinging (h : InvBut (some x) s) (hr : s.Ringing) (hx : x ∈ s.cIndMask) (hph : s.phase x = .closing)
    {reject : Nat} (hrej : reject ≠ 0) : ((s.ignoreIncomingCall x).rejectCall x reject).Inv := by
  unfold rejectCall ignoreIncomingCall
  rw [if_neg hrej]
  split
  · rename_i hlast
    exact h.rejectLast hr hx hph hlast (rejectRequest_ne _ reject)
  · exact h.rejectOther hr hx hph _

/-- DISCONNECT_I for an application that had the call. -/
theorem InvBut.tell (h : InvBut t s) (hx : x ∈ s.assigned) (r : Nat) : InvBut t (s.disconnectI [x] r) where
  bits := h.bits
  bound := h.bound
  alive := h.alive
  waiting := h.waiting
  silent := h.silent
  asked := h.asked
  unowned := h.unowned
  one := h.one
  owner := h.owner
  apart := h.apart
  callRes := h.callRes
  saved := h.saved
  told := by
    intro y hy hph hno
    have hyx : y ≠ x := fun he => hno (he ▸ hx)
    rw [told_disconnectI, h.told y hy hph hno]
    have hz : [x].count y = 0 := by simp [Ne.symm hyx]
    rw [hz]
    rfl
  removed := h.removed
  signal := h.signal
  noRetrieve := h.noRetrieve

theorem mem_setAppl_assigned (ha : x ∈ s.assigned) {y : Nat} : y ∈ (s.setAppl x).assigned ↔ y ∈ s.assigned := by
  simp only [setAppl, List.mem_append, List.mem_singleton, or_iff_left_iff_imp]
  rintro rfl
  exact ha

/-- The application that has the call is assigned again. -/
theorem InvBut.setAppl (h : InvBut t s) (ha : x ∈ s.assigned) : InvBut t (s.setAppl x) where
  bits := h.bits
  bound := h.bound
  alive := h.alive
  waiting := h.waiting
  silent := h.silent
  asked := by
    intro hr y hy hph
    exact (h.asked hr y hy hph).imp_right (fun h' => ⟨h'.1, (mem_setAppl_assigned ha).mpr h'.2⟩)
  unowned := by
    intro hr hm
    rw [h.unowned hr hm] at ha
    cases ha
  one := by
    intro y hy z hz
    exact h.one y ((mem_setAppl_assigned ha).mp hy) z ((mem_setAppl_assigned ha).mp hz)
  owner := by
    intro y hy
    cases Option.some.inj hy
    exact (mem_setAppl_assigned ha).mpr ha
  apart := by
    intro y hy hy'
    exact h.apart y hy ((mem_setAppl_assigned ha).mp hy')
  callRes := by
    intro y hy
    exact (h.callRes y hy).imp_left (mem_setAppl_assigned ha).mpr
  saved := by
    intro y hy
    exact (h.saved y hy).imp_left (mem_setAppl_assigned ha).mpr
  told := by
    intro y hy hph hno
    exact h.told y hy hph (fun hy' => hno ((mem_setAppl_assigned ha).mpr hy'))
  removed := h.removed
  signal := h.signal
  noRetrieve := h.noRetrieve

theorem Connected.not_ringing (hc : s.Connected) : ¬ s.Ringing := by
  rintro (hr | hr) <;> rcases hc with hc | hc <;> rw [hr] at hc <;> cases hc

/-- The application that has the call rejects it after all. -/
theorem InvBut.rejectConnected (h : InvBut (some x) s) (hc : s.Connected) (ha : x ∈ s.assigned) (reject : Nat) :
    (s.rejectCall x reject).Inv := by
  have hi : s.Inv := h.settle (fun hr => absurd hr hc.not_ringing)
  unfold rejectCall
  split
  · exact hi
  · split
    · exact (hi.sigReq (rejectRequest_ne s reject)).setAppl ha
    · have htell : ∀ cause, ({ s with lastrejectcause := cause }.disconnectI [x] otherApplConnected).Inv := by
        intro cause
        have hi' : Inv { s with lastrejectcause := cause } := hi.congr rfl hi.callRes hi.saved hi.signal
        exact hi'.tell ha _
      exact htell _

/-! ## Bits and removal -/

/-- The bit of an application that is done goes. It may have one only if the call does not
    ring for it, or if it is released. -/
theorem InvBut.clearBit (h : InvBut (some x) s) (hph : s.phase x ≠ .offered ∧ s.phase x ≠ .accepted)
    (hx : s.phase x = .released ∨ (s.Ringing → x ∉ s.cIndMask)) : (s.clearBit x).Inv where
  bits := by
    intro y hy
    exact h.bits y (Finset.mem_of_mem_erase hy)
  bound := h.bound
  alive := h.alive
  waiting := by
    intro hr y hy _
    obtain ⟨hyx, hy'⟩ := Finset.mem_erase.mp hy
    refine h.waiting hr y hy' ?_
    rintro ⟨⟩
    exact hyx rfl
  silent := by
    intro hr y _
    by_cases hyx : y = x
    · rw [hyx]; exact hph.2
    · refine h.silent hr y ?_
      rintro ⟨⟩
      exact hyx rfl
  asked := by
    intro hr y hy hphy
    refine (h.asked hr y hy hphy).imp_left (fun hy' => Finset.mem_erase.mpr ⟨?_, hy'⟩)
    rintro rfl
    exact hph.1 hphy
  unowned := by
    intro hr hm
    refine h.unowned hr ?_
    intro he
    exact hm (by rw [Incoming.clearBit, he]; rfl)
  one := h.one
  owner := h.owner
  apart := by
    intro y hy
    exact h.apart y (Finset.mem_of_mem_erase hy)
  callRes := h.callRes
  saved := h.saved
  told := by
    intro y hy hphy hno
    refine (h.told y hy hphy hno).trans (if_congr (and_congr_right ?_) rfl rfl)
    intro hr
    by_cases hyx : y = x
    · subst hyx
      rcases hx with hx | hx
      · exact absurd hx hphy
      · exact iff_of_false (hx hr) (fun hm => (Finset.mem_erase.mp hm).1 rfl)
    · simp [Incoming.clearBit, hyx]
  removed := by
    intro hl
    have := h.removed hl
    simp [Incoming.clearBit, this]
  signal := h.signal
  noRetrieve := h.noRetrieve

/-- `plci_remove_check` removes a PLCI whose mask is empty. -/
theorem Inv.removeComplete (h : s.Inv) (hm : s.cIndMask = ∅) : s.removeComplete.Inv := by
  have hz : (0 : Nat) ≠ 0xff := by decide
  unfold Incoming.removeComplete
  dsimp only
  split
  · have hq : (s.setState .idle).Inv := h.quiet (fun _ => hm) .idle
    exact
      { hq with
        alive := by rintro ((hr | hr) | (hr | hr)) <;> cases hr
        owner := fun x hx => nomatch hx
        saved := fun x hx => nomatch hx
        removed := fun _ => hm
        signal := hz }
  · exact h.congr rfl h.callRes h.saved hz

theorem Inv.plciRemoveCheck (h : s.Inv) : s.plciRemoveCheck.Inv := by
  unfold Incoming.plciRemoveCheck
  split
  · rename_i hrem
    exact h.removeComplete hrem.2.1
  · exact h

/-- The application loses the call. -/
theorem Inv.dropAppl (h : s.Inv) : Inv { s with appl := none } := { h with owner := fun _ hx => nomatch hx }

theorem Inv.plciRemove (h : s.Inv) (hm : s.Ringing → s.cIndMask = ∅) : s.plciRemove.Inv := by
  unfold Incoming.plciRemove
  split
  · rename_i hrem
    exact h.removeComplete hrem.2.1
  · have hhang : (if !s.sigRemoveId && (s.sigId != 0 || s.reqPending) then s.sigReq .hangup else s).Inv := by
      split
      · exact h.sigReq (fun _ hx => nomatch hx)
      · exact h
    have hmask : (if !s.sigRemoveId && (s.sigId != 0 || s.reqPending) then s.sigReq .hangup else s).Ringing →
        (if !s.sigRemoveId && (s.sigId != 0 || s.reqPending) then s.sigReq .hangup else s).cIndMask = ∅ := by
      split
      · exact hm
      · exact hm
    generalize (if !s.sigRemoveId && (s.sigId != 0 || s.reqPending) then s.sigReq .hangup else s) = s' at hhang hmask
    have hdrop : Inv { s' with channels := 0, appl := none } := hhang.dropAppl.congr rfl hhang.callRes hhang.saved hhang.signal
    dsimp only
    split
    · exact hdrop.quiet hmask .outgDis
    · exact hdrop

/-! ## The messages -/

/-- Who may talk while the call rings has a bit. -/
theorem Inv.mem_of_mayTalk (h : s.Inv) (hr : s.Ringing) (hx : s.MayTalk x) : x ∈ s.cIndMask := by
  rcases hx with ⟨hoff, hph | hph⟩
  · rcases h.asked (Or.inl hr) x hoff hph with hm | hm
    · exact hm
    · exact absurd hr hm.1
  · exact absurd hph (h.silent hr x (by simp))

theorem not_ringing_connectedPend (s : Incoming) : ¬ (s.setState .incConConnectedPend).Ringing := by
  rintro (he | he) <;> cases he

theorem not_ringing_connectedAlert (s : Incoming) : ¬ (s.setState .incConConnectedAlert).Ringing := by
  rintro (he | he) <;> cases he

theorem Inv.getsCall (h : s.Inv) (hx : s.MayTalk x) : (s.getsCall x).Inv := by
  unfold Incoming.getsCall
  split
  · rename_i hr
    split
    · exact (h.talk x).assign (u := .incConConnectedAlert) hr (h.mem_of_mayTalk hr hx) (s.not_ringing_connectedAlert) (by decide)
    · exact (h.talk x).assign (u := .incConConnectedPend) hr (h.mem_of_mayTalk hr hx) (s.not_ringing_connectedPend) (by decide)
  · exact h

theorem Inv.infoReq (h : s.Inv) (hx : s.MayTalk x) (p : InfoParms) : (s.infoReq x p).Inv := by
  have hgets : (s.getsCall x).Inv := h.getsCall hx
  unfold Incoming.infoReq
  split
  · exact h
  split
  · exact h.sigReq (fun _ he => nomatch he)
  split
  · exact hgets.sigReq (fun _ he => nomatch he)
  split
  · exact hgets.sigReq (fun _ he => nomatch he)
  · exact h

/-- ALERT_REQ keeps the call where it is for the applications. -/
theorem Inv.alertReq (h : s.Inv) : s.alertReq.Inv := by
  unfold Incoming.alertReq
  split
  · rename_i hp
    have hr : s.Ringing := Or.inl hp
    have hr' : (s.setState .incConAlert).Ringing := Or.inr rfl
    have ha : (s.setState .incConAlert).Inv :=
      { h with
        alive := fun _ => h.alive (Or.inl hr)
        waiting := fun _ => h.waiting hr
        silent := fun _ => h.silent hr
        asked := by
          intro _ y hy hph
          refine (h.asked (Or.inl hr) y hy hph).imp_right (fun h' => absurd hr h'.1)
        unowned := fun _ => h.unowned hr
        told := by
          intro y hy hph hno
          refine (h.told y hy hph hno).trans (if_congr (and_congr_left fun _ => ?_) rfl rfl)
          exact iff_of_true hr hr'
        noRetrieve := (by decide : State.incConAlert ≠ .incConBlindRetrieve) }
    exact ha.sigReq (fun _ he => nomatch he)
  split
  · rename_i _ hp
    have hc : s.Connected := Or.inl hp
    have hr' : ¬ (s.setState .incConConnectedAlert).Ringing := s.not_ringing_connectedAlert
    have ha : (s.setState .incConConnectedAlert).Inv :=
      { h with
        alive := fun _ => h.alive (Or.inr hc)
        waiting := fun he => absurd he hr'
        silent := fun he => absurd he hr'
        asked := by
          intro _ y hy hph
          exact (h.asked (Or.inr hc) y hy hph).imp_right (fun h' => ⟨hr', h'.2⟩)
        unowned := fun he => absurd he hr'
        told := by
          intro y hy hph hno
          refine (h.told y hy hph hno).trans (if_congr (and_congr_left fun _ => ?_) rfl rfl)
          exact iff_of_false hc.not_ringing hr'
        noRetrieve := (by decide : State.incConConnectedAlert ≠ .incConBlindRetrieve) }
    exact ha.sigReq (fun _ he => nomatch he)
  · exact h

/-- A call that rings goes to the application that accepts it. -/
theorem InvBut.answered (h : s.Inv) (ha : x ∈ s.assigned) (hacc : x ∈ s.accepted) (o : Outcome) : (s.answer x o).Inv := by
  cases o with
  | request => exact h.sigReq_callRes ha hacc
  | refused => exact h.sigReq (fun _ he => nomatch he)
  | spoofed =>
    refine h.congr rfl h.callRes ?_ h.signal
    intro y hy
    cases Option.some.inj hy
    exact ⟨ha, hacc⟩

theorem mem_assigned_assign (s : Incoming) (x : Nat) (u : State) (b : Bool) :
    x ∈ ((s.assignIncomingCall x b).setState u).assigned := by
  cases b <;> simp [assignIncomingCall, Incoming.setState, disconnectI, Incoming.setAppl, Incoming.clearBit]

theorem accepted_assign (s : Incoming) (x : Nat) (u : State) (b : Bool) :
    ((s.assignIncomingCall x b).setState u).accepted = s.accepted := by
  cases b <;> rfl

/-- CONNECT_RES of an application that has just accepted. -/
theorem InvBut.connectRes_accept (h : InvBut (some x) s) (hacc : x ∈ s.accepted) (hm : s.Ringing → x ∈ s.cIndMask)
    (hc : s.Connected → x ∈ s.assigned) (hq : ¬ s.Ringing → ¬ s.Connected → s.Inv) (o : Outcome) :
    (s.connectRes x 0 o).Inv := by
  unfold Incoming.connectRes
  split
  · rename_i hcon
    have hi : (s.setState .incConAccept).Inv := h.quiet (fun hr => absurd hr hcon.not_ringing) .accept
    exact hi.sigReq_callRes (hc hcon) hacc
  split
  · rename_i hcon hr
    have hr' : s.Ringing := hr.resolve_right h.noRetrieve
    have hi : ((s.assignIncomingCall x true).setState .incConAccept).Inv :=
      h.assign hr' (hm hr') (s.not_ringing_progress .accept) (by decide)
    have hbool : (s.state != State.incConBlindRetrieve) = true := by simpa using h.noRetrieve
    rw [hbool]
    refine InvBut.answered hi (s.mem_assigned_assign x _ true) ?_ o
    rw [accepted_assign]
    exact hacc
  · rename_i hcon hr
    exact hq (fun hr' => hr (Or.inl hr')) hcon

/-- CONNECT_RES of an application that has just rejected. -/
theorem InvBut.connectRes_reject (h : InvBut (some x) s) (hph : s.phase x = .closing) (hm : s.Ringing → x ∈ s.cIndMask)
    (hc : s.Connected → x ∈ s.assigned) {reject : Nat} (hrej : reject ≠ 0) (o : Outcome) : (s.connectRes x reject o).Inv := by
  unfold Incoming.connectRes
  split
  · rename_i hcon
    exact h.rejectConnected hcon (hc hcon) reject
  split
  · rename_i hcon hr
    have hr' : s.Ringing := hr.resolve_right h.noRetrieve
    exact h.rejectRinging hr' (hm hr') hph hrej
  · rename_i hcon hr
    exact h.settle (fun hr' => absurd (Or.inl hr') hr)

/-- Who has the call is assigned, so a call that rings has no bit left. -/
theorem InvBut.owned (h : InvBut t s) (hx : s.appl = some x) (hr : s.Ringing) : s.cIndMask = ∅ := by
  by_contra hm
  have ha := h.owner x hx
  rw [h.unowned hr hm] at ha
  cases ha

/-- The request that clears the call, for whoever it is. -/
theorem Inv.disconnectBehind (h : s.Inv) (hr : ¬ s.Ringing) (x : Nat) :
    (if s.sigId ≠ 0 ∧ s.appl ≠ none then
      if s.sigId ≠ 0xff then
        if s.state ≠ .incDisPending then (s.sigReq .hangup).setState .outgDisPending else s
      else if s.nlId ≠ 0 then (s.disconnectI [x] 0).setState .incDisPending
      else s
    else s).Inv := by
  have hm : s.Ringing → s.cIndMask = ∅ := fun hr' => absurd hr' hr
  split
  · rw [if_pos h.signal]
    split
    · exact InvBut.quiet (h.sigReq (r := .hangup) (fun _ he => nomatch he)) hm .outgDis
    · exact h
  · exact h

theorem InvBut.disconnectReq (h : InvBut (some x) s) (hm : s.Ringing → x ∈ s.cIndMask) : (s.disconnectReq x).Inv := by
  unfold Incoming.disconnectReq
  split
  · rename_i hr
    have hi : ((s.assignIncomingCall x true).setState .outgDisPending).Inv :=
      h.assign hr (hm hr) (s.not_ringing_progress .outgDis) (by decide)
    exact hi.disconnectBehind (s.not_ringing_progress .outgDis) x
  · rename_i hr
    exact (h.settle (fun hr' => absurd hr' hr)).disconnectBehind hr x

theorem InvBut.disconnectRes (h : InvBut (some x) s) (hph : s.phase x = .done) (hx : s.Ringing → x ∉ s.cIndMask) :
    (s.disconnectRes x).Inv := by
  have hi : (s.clearBit x).Inv := h.clearBit (by rw [hph]; simp) (Or.inr hx)
  unfold Incoming.disconnectRes
  dsimp only
  split
  · rename_i hrem
    exact hi.removeComplete hrem.2.1
  split
  · rename_i hst
    have hm : (s.clearBit x).Ringing → (s.clearBit x).cIndMask = ∅ := fun _ => hst.2
    have hidle : ((s.clearBit x).setState .idle).Inv := hi.quiet hm .idle
    split
    · split
      · exact hidle.plciRemove (fun _ => hst.2)
      · exact hidle
    · split
      · exact hi.plciRemove hm
      · exact hi
  · exact hi

/-- The application has left: its bit goes, and the call if nobody is left or if it was its
    call. -/
theorem InvBut.releaseBehind (h : InvBut (some x) s) (hph : s.phase x = .released) :
    (let dropped := x ∈ s.cIndMask
    let s := s.clearBit x
    let s := if dropped ∧ s.cIndMask = ∅ ∧ s.appl = none then s.plciRemove else s
    if s.live ∧ s.appl = some x then { s with appl := none, spoofed := none }.plciRemove else s).Inv := by
  have hi : (s.clearBit x).Inv := h.clearBit (by rw [hph]; simp) (Or.inl hph)
  have hdrop : (if x ∈ s.cIndMask ∧ (s.clearBit x).cIndMask = ∅ ∧ (s.clearBit x).appl = none then (s.clearBit x).plciRemove
      else s.clearBit x).Inv := by
    split
    · rename_i hd
      exact hi.plciRemove (fun _ => hd.2.1)
    · exact hi
  dsimp only
  generalize (if x ∈ s.cIndMask ∧ (s.clearBit x).cIndMask = ∅ ∧ (s.clearBit x).appl = none then (s.clearBit x).plciRemove
      else s.clearBit x) = s' at hdrop ⊢
  split
  · rename_i hx
    have hnone : Inv { s' with appl := none, spoofed := none } :=
      { hdrop.dropAppl with saved := fun _ he => nomatch he }
    exact hnone.plciRemove (fun hr => hdrop.owned hx.2 hr)
  · exact hdrop

theorem InvBut.release (h : InvBut (some x) s) (hph : s.phase x = .released) : (s.release x).Inv := by
  have hi : (s.clearBit x).Inv := h.clearBit (by rw [hph]; simp) (Or.inl hph)
  unfold Incoming.release
  dsimp only
  split
  · split
    · rename_i hm
      have hq := InvBut.quiet (hi.sigReq (r := .hangup) (fun _ he => nomatch he)) (fun _ => hm) .outgDis
      exact (hq.talk x).releaseBehind hph
    · exact (hi.talk x).releaseBehind hph
  · exact h.releaseBehind hph

/-- The network clears the call: the applications it rings for are told, and all the bits
    of a call that does not ring go. -/
theorem Inv.cleared (h : s.Inv) (reason : Nat) (p : Progress) :
    ((if s.Ringing then s.clearIncomingCall true reason else { s with cIndMask := ∅ }).setState p.state).Inv := by
  have hnr := s.not_ringing_progress p
  split
  · rename_i hr
    have hnr' : ¬ ((s.clearIncomingCall true reason).setState p.state).Ringing := hnr
    have hnc' : ¬ ((s.clearIncomingCall true reason).setState p.state).Connected := s.not_connected_progress p
    exact
      { h with
        alive := by
          rintro (hr' | hr')
          · exact absurd hr' hnr'
          · exact absurd hr' hnc'
        waiting := fun hr' => absurd hr' hnr'
        silent := fun hr' => absurd hr' hnr'
        asked := by
          rintro (hr' | hr')
          · exact absurd hr' hnr'
          · exact absurd hr' hnc'
        unowned := fun hr' => absurd hr' hnr'
        told := by
          intro y hy hph hno
          have hold := h.told y hy hph hno
          have hcount : s.masked.count y = if y ∈ s.cIndMask then 1 else 0 :=
            count_masked (fun z hz => h.bound z (h.bits z hz)) y
          rw [if_neg (fun hr' => hnr' hr'.1)]
          calc ((s.clearIncomingCall true reason).setState p.state).told y
              = s.told y + s.masked.count y := told_disconnectI _ _ _ _
            _ = 1 := by
              rw [hcount, hold]
              by_cases hy' : y ∈ s.cIndMask
              · rw [if_pos ⟨hr, hy'⟩, if_pos hy']
              · rw [if_neg (fun hr' => hy' hr'.2), if_neg hy']
        noRetrieve := p.notRetrieve }
  · rename_i hr
    have hq : (s.setState p.state).Inv := h.quiet (fun hr' => absurd hr' hr) p
    exact
      { hq with
        bits := fun y hy => nomatch Finset.notMem_empty y hy
        waiting := fun hr' => absurd hr' hnr
        asked := by
          rintro (hr' | hr')
          · exact absurd hr' hnr
          · exact absurd hr' (s.not_connected_progress p)
        unowned := fun hr' => absurd hr' hnr
        apart := fun y hy => nomatch Finset.notMem_empty y hy
        told := by
          intro y hy hph hno
          rw [if_neg (fun hr' => hnr hr'.1)]
          exact (hq.told y hy hph hno).trans (if_neg (fun hr' => hnr hr'.1))
        removed := fun _ => rfl }

theorem setState_self {u : State} (hu : s.state = u) : s.setState u = s := by
  subst hu
  rfl

theorem Inv.hangup (h : s.Inv) (reason : Nat) : (s.hangup reason).Inv := by
  have hidle := h.cleared reason .idle
  have hdis := h.cleared reason .incDis
  unfold Incoming.hangup
  generalize (if s.Ringing then s.clearIncomingCall true reason else { s with cIndMask := ∅ }) = s' at hidle hdis
  dsimp only
  split
  · split
    · exact InvBut.sigReq hidle (fun _ he => nomatch he)
    · exact hdis
  · rename_i x hx
    split
    · exact InvBut.tell hdis (hdis.owner x hx) reason
    · rename_i hst
      rcases Decidable.not_and_iff_not_or_not.mp hst with hst | hst
      · exact setState_self (not_not.mp hst) ▸ hidle
      · exact setState_self (not_not.mp hst) ▸ hdis

theorem Inv.codecReady (h : s.Inv) : s.codecReady.Inv := by
  unfold Incoming.codecReady
  split
  · exact h
  · rename_i x hx
    obtain ⟨ha, hacc⟩ := h.saved x hx
    have hi := h.sigReq_callRes ha hacc
    exact hi.congr rfl hi.callRes (fun _ he => nomatch he) hi.signal

/-! ## The step -/

theorem InvBut.accept (h : InvBut t s) (x : Nat) : InvBut t { s with accepted := s.accepted ++ [x] } := by
  refine h.congr rfl ?_ ?_ h.signal
  · intro y hy
    exact (h.callRes y hy).imp_right (List.mem_append_left _)
  · intro y hy
    exact (h.saved y hy).imp_right (List.mem_append_left _)

/-- Who has not been told yet has a bit, or the call. -/
theorem Inv.mem_of_told (h : s.Inv) (hr : s.Ringing) (hoff : x ∈ s.offered) (hrel : s.phase x ≠ .released)
    (ht : s.told x ≠ 0) : x ∉ s.cIndMask := by
  intro hm
  have hold := h.told x hoff hrel (h.apart x hm)
  rw [if_pos ⟨hr, hm⟩] at hold
  exact ht hold

theorem inv_ite {c : Prop} [Decidable c] {a b : Incoming} (ha : c → a.Inv) (hb : ¬ c → b.Inv) : (if c then a else b).Inv := by
  split
  · rename_i hc
    exact ha hc
  · rename_i hc
    exact hb hc

/-- Who may answer CONNECT_I has a bit while the call rings, and is the one that has the
    call behind it. -/
theorem Inv.mem_of_asked (h : s.Inv) (hx : x ∈ s.offered ∧ s.phase x = .offered) (hr : s.Ringing) : x ∈ s.cIndMask :=
  h.mem_of_mayTalk hr ⟨hx.1, Or.inl hx.2⟩

theorem Inv.assigned_of_clean (h : s.Inv) {reject : Nat} {o : Outcome} (ha : s.Allowed (.connectRes x reject o))
    (hc : s.CleanEv (.connectRes x reject o)) (hrt : s.Routed) (hcon : s.Connected) : x ∈ s.assigned := by
  rcases Option.ne_none_iff_exists'.mp (hrt.2.resolve_right hcon.not_ringing) with ⟨y, hy⟩
  exact hc ha hcon y hy ▸ h.owner y hy

theorem Inv.connectRes_step (h : s.Inv) {reject : Nat} {o : Outcome} (ha : s.Allowed (.connectRes x reject o))
    (hc : s.CleanEv (.connectRes x reject o)) : (s.act (.connectRes x reject o)).Inv := by
  have hnrel : s.phase x ≠ .released := by rw [ha.2]; simp
  unfold Incoming.act
  by_cases hrej : reject = 0
  · subst hrej
    have hi : InvBut (some x) { s.setPhase x .accepted with accepted := s.accepted ++ [x] } :=
      (h.setPhase (by simp) (fun _ => hnrel)).accept x
    have hbehind : ¬ s.Ringing → Inv { s.setPhase x .accepted with accepted := s.accepted ++ [x] } :=
      fun hr => hi.settle (fun hr' => absurd hr' hr)
    refine inv_ite ?_ ?_
    · intro hrt
      refine hi.connectRes_accept (List.mem_append_right _ (List.mem_singleton_self x)) (h.mem_of_asked ha) ?_ ?_ o
      · exact h.assigned_of_clean ha hc hrt
      · exact fun hr _ => hbehind hr
    · intro hrt
      exact hbehind (fun hr => hrt ⟨h.alive (Or.inl hr), Or.inr hr⟩)
  · have hi : InvBut (some x) (s.setPhase x .closing) := h.setPhase (by simp) (fun _ => hnrel)
    have hph : (s.setPhase x .closing).phase x = .closing := by simp [Incoming.setPhase]
    dsimp only
    rw [if_neg hrej]
    refine inv_ite ?_ ?_
    · intro hrt
      exact hi.connectRes_reject hph (h.mem_of_asked ha) (h.assigned_of_clean ha hc hrt) hrej o
    · intro hrt
      exact hi.settle (fun hr => absurd ⟨h.alive (Or.inl hr), Or.inr hr⟩ hrt)

theorem Inv.act (h : s.Inv) {e : CallEv} (ha : s.Allowed e) (hc : s.CleanEv e) : (s.act e).Inv := by
  cases e with
  | connectRes x reject o => exact h.connectRes_step ha hc
  | infoReq x p => exact inv_ite (fun _ => h.infoReq ha p) (fun _ => h)
  | alertReq x => exact inv_ite (fun _ => h.alertReq) (fun _ => h)
  | disconnectReq x =>
    have hnrel : s.phase x ≠ .released := by
      rcases ha.2 with hp | hp <;> rw [hp] <;> simp
    have hi : InvBut (some x) (s.setPhase x .closing) := h.setPhase (by simp) (fun _ => hnrel)
    refine inv_ite ?_ ?_
    · intro _
      exact hi.disconnectReq (fun hr => h.mem_of_mayTalk hr ha)
    · intro hrt
      exact hi.settle (fun hr => absurd ⟨h.alive (Or.inl hr), Or.inr hr⟩ hrt)
  | disconnectRes x =>
    obtain ⟨hoff, -, hrel, ht⟩ := ha
    have hi : InvBut (some x) (s.setPhase x .done) := h.setPhase (by simp) (fun _ => hrel)
    have hph : (s.setPhase x .done).phase x = .done := by simp [Incoming.setPhase]
    refine inv_ite ?_ ?_
    · intro _
      exact hi.disconnectRes hph (fun hr => h.mem_of_told hr hoff hrel ht)
    · intro hl
      exact hi.settle (fun hr => absurd (h.alive (Or.inl hr)) hl)
  | release x =>
    have hi : InvBut (some x) (s.setPhase x .released) := h.setPhase (by simp) (fun hne => absurd rfl hne)
    have hph : (s.setPhase x .released).phase x = .released := by simp [Incoming.setPhase]
    refine inv_ite ?_ ?_
    · intro _
      exact hi.release hph
    · intro hl
      exact hi.settle (fun hr => absurd (h.alive (Or.inl hr)) hl)
  | hangup reason => exact inv_ite (fun _ => h.hangup reason) (fun _ => h)
  | codecReady => exact inv_ite (fun _ => h.codecReady) (fun _ => h)
  | progress p =>
    refine inv_ite ?_ (fun _ => h)
    intro _
    refine h.quiet ?_ p
    rcases Option.ne_none_iff_exists'.mp ha with ⟨x, hx⟩
    exact h.owned hx
  | entities nlId channels sigGone sigRemoveId reqPending =>
    have hsig : (if sigGone then 0 else s.sigId) ≠ 0xff := by
      split
      · decide
      · exact h.signal
    have hi : Inv { s with nlId, channels, sigRemoveId, reqPending, sigId := if sigGone then 0 else s.sigId } :=
      h.congr rfl h.callRes h.saved hsig
    exact inv_ite (fun _ => hi.plciRemoveCheck) (fun _ => hi)

theorem Inv.step (h : s.Inv) {e : CallEv} (hc : s.CleanEv e) : (s.step e).Inv :=
  inv_ite (fun ha => h.act ha hc) (fun _ => h)

/-! ## A CONNECT_RES behind the assignment -/

/-- CALL_RES is requested for an application that does not have the call. -/
theorem Inv.accept_breaks (h : s.Inv) {y : Nat} (hcon : s.Connected) (hy : s.appl = some y) (hne : y ≠ x) {o : Outcome}
    (ha : s.Allowed (.connectRes x 0 o)) : ¬ (s.step (.connectRes x 0 o)).Arbitrated := by
  have hrt : s.Routed := ⟨h.alive (Or.inr hcon), Or.inl (by rw [hy]; simp)⟩
  have hstep : s.step (.connectRes x 0 o)
      = (({ s.setPhase x .accepted with accepted := s.accepted ++ [x] } : Incoming).setState .incConAccept).sigReq (.callRes x) :=
    calc s.step (.connectRes x 0 o)
        = s.act (.connectRes x 0 o) := if_pos ha
      _ = ({ s.setPhase x .accepted with accepted := s.accepted ++ [x] } : Incoming).connectRes x 0 o := if_pos hrt
      _ = _ := if_pos hcon
  intro hb
  rw [hstep] at hb
  have hx : x ∈ s.assigned := (hb.callRes x (List.mem_append_right _ (List.mem_singleton_self _))).1
  exact hne (h.one y (h.owner y hy) x hx)

theorem rejectCall_of_masked (hm : x ∈ s.cIndMask) {reject : Nat} (hrej : reject ≠ 0) :
    ∃ cause, s.rejectCall x reject = { s with lastrejectcause := cause }.disconnectI [x] otherApplConnected := by
  unfold rejectCall
  rw [if_neg hrej, if_neg (Finset.ne_empty_of_mem hm)]
  exact ⟨_, rfl⟩

/-- The application gets a second DISCONNECT_I. -/
theorem Inv.reject_breaks (h : s.Inv) {y : Nat} (hcon : s.Connected) (hy : s.appl = some y) (hne : y ≠ x) {reject : Nat}
    (hrej : reject ≠ 0) {o : Outcome} (ha : s.Allowed (.connectRes x reject o)) :
    ¬ (s.step (.connectRes x reject o)).Arbitrated := by
  have hrt : s.Routed := ⟨h.alive (Or.inr hcon), Or.inl (by rw [hy]; simp)⟩
  have hno : x ∉ s.assigned := fun hx => hne (h.one y (h.owner y hy) x hx)
  have hm : x ∈ s.cIndMask := (h.asked (Or.inr hcon) x ha.1 ha.2).resolve_right (fun h' => hno h'.2)
  have hone : s.told x = 1 :=
    (h.told x ha.1 (by rw [ha.2]; simp) hno).trans (if_neg (fun hr => hcon.not_ringing hr.1))
  obtain ⟨cause, hcause⟩ := rejectCall_of_masked (s := s.setPhase x .closing) hm hrej
  have hact : s.act (.connectRes x reject o) = (s.setPhase x .closing).routed
      ((s.setPhase x .closing).connectRes x reject o) := by
    unfold Incoming.act
    dsimp only
    rw [if_neg hrej]
  have hstep : s.step (.connectRes x reject o)
      = { s.setPhase x .closing with lastrejectcause := cause }.disconnectI [x] otherApplConnected :=
    calc s.step (.connectRes x reject o)
        = s.act (.connectRes x reject o) := if_pos ha
      _ = (s.setPhase x .closing).connectRes x reject o := hact.trans (if_pos hrt)
      _ = (s.setPhase x .closing).rejectCall x reject := (if_pos hcon).trans (if_pos hrej)
      _ = _ := hcause
  intro hb
  rw [hstep] at hb
  have htold := hb.told x ha.1 (by simp [disconnectI, Incoming.setPhase]) hno
  rw [told_disconnectI, if_neg (fun hr => hcon.not_ringing hr.1)] at htold
  have hsame : told { s.setPhase x .closing with lastrejectcause := cause } x = s.told x := rfl
  rw [hsame, hone] at htold
  simp at htold

theorem Inv.unclean_breaks (h : s.Inv) {e : CallEv} (hc : ¬ s.CleanEv e) : ¬ (s.step e).Arbitrated := by
  cases e with
  | connectRes x reject o =>
    simp only [CleanEv, not_forall] at hc
    obtain ⟨ha, hcon, y, hy, hne⟩ := hc
    by_cases hrej : reject = 0
    · subst hrej
      exact h.accept_breaks hcon hy hne ha
    · exact h.reject_breaks hcon hy hne hrej ha
  | _ => exact absurd trivial hc

/-- Of the applications that are offered a call one gets it, CALL_RES is requested with its
    parameters when it has accepted, every other one that stays gets one DISCONNECT_I, and
    the PLCI is removed without a bit left: in every run in which behind the assignment
    CONNECT_RES comes from the application that has the call. One from another application
    breaks it. -/
theorem incoming_arbitration (hs : s.Init) {es : List CallEv} (hc : Along Incoming.step CleanEv s es) :
    (run Incoming.step s es).Arbitrated ∧
      ∀ e, ((run Incoming.step s es).step e).Arbitrated ↔ (run Incoming.step s es).CleanEv e := by
  have hi : (run Incoming.step s es).Inv := Along.invariant Incoming.step (fun _ _ h hc => h.step hc) hs.inv hc
  refine ⟨hi.arbitrated, ?_⟩
  intro e
  constructor
  · intro hb
    by_contra hc'
    exact hi.unclean_breaks hc' hb
  · intro hc'
    exact (hi.step hc').arbitrated

/-- A call that two applications are offered. -/
def offer : Incoming where
  maxAppl := 2
  live := true
  state := .incConPending
  appl := none
  cIndMask := {0, 1}
  sigId := 1
  nlId := 0
  channels := 0
  sigRemoveId := false
  reqPending := false
  spoofed := none
  lastrejectcause := 0
  requests := []
  sent := []
  offered := {0, 1}
  phase := fun _ => .offered
  assigned := []
  accepted := []

theorem offer_init : offer.Init where
  live := rfl
  state := rfl
  appl := rfl
  mask := rfl
  bound := by decide
  sigId := by decide
  spoofed := rfl
  requests := rfl
  sent := rfl
  phase := fun _ => rfl
  assigned := rfl
  accepted := rfl

/-- The first application gets the call with its user data, and accepts it then. -/
def offerTaken : List CallEv :=
  [.infoReq 0 ⟨false, true, false⟩, .disconnectRes 1, .connectRes 0 0 .request]

theorem incoming_arbitration_offer : offer.Init ∧ Along Incoming.step CleanEv offer offerTaken ∧
    (run Incoming.step offer offerTaken).Arbitrated := by
  have hc : Along Incoming.step CleanEv offer offerTaken := by
    refine ⟨trivial, trivial, ?_, trivial⟩
    intro _ _ y hy
    exact (Option.some.inj hy).symm
  exact ⟨offer_init, hc, (incoming_arbitration offer_init hc).1⟩

/-- Its CONNECT_RES crosses that of the second one: the call goes to the first with the
    parameters of the second. -/
theorem late_connect_res_breaks : ∃ s : Incoming, s.Init ∧ ∃ es, ¬ (run Incoming.step s es).Arbitrated := by
  refine ⟨offer, offer_init, [.infoReq 0 ⟨false, true, false⟩, .connectRes 1 0 .request], ?_⟩
  intro hb
  have hx :
      SigReq.callRes 1 ∈ (run Incoming.step offer [.infoReq 0 ⟨false, true, false⟩, .connectRes 1 0 .request]).requests := by
    decide
  have hno : 1 ∉ (run Incoming.step offer [.infoReq 0 ⟨false, true, false⟩, .connectRes 1 0 .request]).assigned := by
    decide
  exact hno (hb.callRes 1 hx).1

end Incoming

end Divas.Capi
