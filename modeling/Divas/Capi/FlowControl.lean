/-
  Divas.Capi.FlowControl — the search for the next X-ON (`find_channel_with_pending_x_on`).

  A channel whose indication was refused is in X-OFF; when the application can go on, X-ON is
  requested for it (`channel_request_xon`), and `channel_xmit_xon` sends it, one channel at a
  time. All PLCIs of an adapter search from one position on (`last_flow_control_ch`), and each
  search moves it behind the channel that it finds.

  Proved (`x_on_fair`): as long as each search for another PLCI begins in a state in which this PLCI
  has a channel to be found in front of it, or none at all, a channel for which X-ON is requested is
  one of the next 255 channels that are found for its PLCI; and exactly when a search finds none.
  Searches for another PLCI that pass the channel keep it waiting without end (`x_on_starves`).
-/

import Divas.Capi.Receive
import Divas.Lib.Run

namespace Divas.Capi

open Divas.Lib.Run

namespace Flow

/-- X-ON is requested for the channel, and it is the PLCI's. -/
def Requested (f : Flow) (p i : Nat) : Prop := f.chFlowControl i &&& nXonReq ≠ 0 ∧ f.chFlowPlci i = p

instance (f : Flow) (p i : Nat) : Decidable (f.Requested p i) := inferInstanceAs (Decidable (_ ∧ _))

/-- The channel to which `channel_xmit_xon` sends X-ON, 0 for none. `ready`: the PLCI has a network
    layer that is not being removed, and no request for it. -/
def sends (f : Flow) (xonOff ready : Bool) (p : Nat) : Nat := if ready then (f.findChannelWithPendingXOn xonOff p).1 else 0

/-- The tables after `channel_xmit_xon`. -/
def xmitXon (f : Flow) (xonOff ready : Bool) (p : Nat) : Flow :=
  if ready then
    match f.findChannelWithPendingXOn xonOff p with
    | (ch, f) => if ch = 0 then f else f.set ch ((f.chFlowControl ch &&& ~~~nXonReq) ||| nXonSent)
  else f

/-- Where a search begins. -/
def start (f : Flow) : Nat := if maxNlChannel + 1 ≤ f.lastFlowControlCh then 1 else f.lastFlowControlCh

/-- The number of channels in front of `x` for a search. -/
def ahead (f : Flow) (x : Nat) : Nat :=
  if max f.start 1 ≤ x then x - max f.start 1 else x + maxNlChannel - max f.start 1

end Flow

/-! ## Runs -/

inductive FlowEvent where
  | xOff (p ch : Nat) (flag : UInt8)
  | xOn (ch : Nat)
  | requestXon (ch : Nat)
  | xmitXon (p : Nat) (ready : Bool)
  | remove (p : Nat)
  /-- A disconnect, or an indication that was taken although X-OFF was noted. -/
  | clear (ch : Nat)
  /-- The return code `OK_FC`. -/
  | okFc (p ch : Nat)

namespace Flow

def step (xonOff : Bool) (f : Flow) : FlowEvent → Flow
  | .xOff p ch flag => f.channelXOff p ch flag
  | .xOn ch => f.channelXOn ch
  | .requestXon ch => f.channelRequestXon ch
  | .xmitXon p ready => f.xmitXon xonOff ready p
  | .remove p => f.channelFlowControlRemove p
  | .clear ch => f.set ch (f.chFlowControl ch &&& ~~~nRxFlowControlMask)
  | .okFc p ch => { f with chFlowPlci := Function.update f.chFlowPlci ch p }

/-- The PLCI and the channel of an X-ON. -/
def selects (xonOff : Bool) (f : Flow) : FlowEvent → Option (Nat × Nat)
  | .xmitXon p ready => if f.sends xonOff ready p = 0 then none else some (p, f.sends xonOff ready p)
  | _ => none

/-- All X-ONs of a run. -/
def selections (xonOff : Bool) : Flow → List FlowEvent → List (Nat × Nat)
  | _, [] => []
  | f, e :: es => (f.selects xonOff e).toList ++ selections xonOff (f.step xonOff e) es

/-- If X-ON is requested for a channel of the PLCI, it is requested for one in front of `x`. -/
def InFront (f : Flow) (q x : Nat) : Prop :=
  ∀ i, 1 ≤ i → i ≤ maxNlChannel → f.Requested q i → ∃ y, 1 ≤ y ∧ y ≤ maxNlChannel ∧ f.Requested q y ∧ f.ahead y < f.ahead x

/-- X-ON is requested for the channel, and a search for another PLCI does not have to pass it. -/
def Waits (p x : Nat) (f : Flow) (e : FlowEvent) : Prop :=
  f.Requested p x ∧ ∀ q, e = .xmitXon q true → q ≠ p → f.InFront q x

section Search

variable {f : Flow} {xonOff : Bool} {p x i ch : Nat}

theorem start_le (f : Flow) : f.start ≤ maxNlChannel := by
  unfold start maxNlChannel
  split
  · omega
  · omega

theorem find_range {q : Nat → Bool} {lo n i : Nat} :
    (List.range' lo n).find? q = some i ↔ q i ∧ lo ≤ i ∧ i < lo + n ∧ ∀ j, lo ≤ j → j < i → ¬ q j := by
  rw [List.find?_range'_eq_some, List.mem_range'_1]
  simp [and_assoc]

/-- The search goes from the position to the last channel, and on from channel 1. -/
theorem find_eq (f : Flow) (p : Nat) :
    f.findChannelWithPendingXOn true p =
      match (List.range' f.start (maxNlChannel + 1 - f.start) ++ List.range' 1 (f.start - 1)).find? fun i => f.Requested p i with
      | some i => (i, { f with lastFlowControlCh := i + 1 })
      | none => (0, { f with lastFlowControlCh := f.start }) := by
  have hstart : (if maxNlChannel + 1 ≤ f.lastFlowControlCh then { f with lastFlowControlCh := 1 } else f)
      = { f with lastFlowControlCh := f.start } := by
    unfold start
    split
    · rfl
    · rfl
  have hfirst : (List.range (maxNlChannel + 1)).drop f.start = List.range' f.start (maxNlChannel + 1 - f.start) := by
    rw [List.range_eq_range', List.drop_range', Nat.zero_add, Nat.mul_one]
  have hagain : ((List.range (maxNlChannel + 1)).take f.start).drop 1 = List.range' 1 (f.start - 1) := by
    have := f.start_le
    rw [List.take_range, Nat.min_eq_left (by omega), List.range_eq_range', List.drop_range']
  have hq : (fun i => f.chFlowControl i &&& nXonReq != 0 && f.chFlowPlci i == p) = fun i => decide (f.Requested p i) := by
    funext i
    rw [Bool.eq_iff_iff, decide_eq_true_iff]
    simp [Requested]
  unfold findChannelWithPendingXOn
  rw [if_neg (by decide), hstart]
  dsimp only
  rw [hfirst, hagain, hq, List.find?_append]
  cases (List.range' f.start (maxNlChannel + 1 - f.start)).find? fun i => f.Requested p i with
  | some i => rfl
  | none => rfl

/-- A search finds the first channel that is requested, or there is none. -/
theorem find_cases (f : Flow) (p : Nat) :
    (∃ i, f.findChannelWithPendingXOn true p = (i, { f with lastFlowControlCh := i + 1 }) ∧ f.Requested p i ∧ i ≤ maxNlChannel ∧
      (i = 0 ↔ f.lastFlowControlCh = 0 ∧ f.Requested p 0) ∧ ∀ x, 1 ≤ i → 1 ≤ x → x ≤ maxNlChannel → f.Requested p x →
        f.ahead i ≤ f.ahead x) ∨
    (f.findChannelWithPendingXOn true p = (0, { f with lastFlowControlCh := f.start }) ∧
      ∀ x, 1 ≤ x → x ≤ maxNlChannel → ¬ f.Requested p x) := by
  have hm : maxNlChannel = 255 := rfl
  have hs := f.start_le
  have hlast : f.start = 0 → f.lastFlowControlCh = 0 := by
    unfold start
    split
    · omega
    · exact id
  rw [find_eq, List.find?_append]
  cases hone : (List.range' f.start (maxNlChannel + 1 - f.start)).find? fun i => f.Requested p i with
  | some i =>
    obtain ⟨hreq, hlo, hhi, hbefore⟩ := find_range.mp hone
    refine Or.inl ⟨i, rfl, of_decide_eq_true hreq, by omega, ⟨?_, ?_⟩, ?_⟩
    · rintro rfl
      exact ⟨hlast (by omega), of_decide_eq_true hreq⟩
    · rintro ⟨h0, hreq0⟩
      have hzero : f.start = 0 := by
        unfold start
        rw [h0]
        rfl
      exact Nat.eq_zero_of_not_pos fun h => hbefore 0 (by omega) h (decide_eq_true hreq0)
    intro x hi hx1 hx hx'
    have hnot : f.start ≤ x → ¬ x < i := fun h h' => hbefore x h h' (decide_eq_true hx')
    unfold ahead
    split
    · split
      · omega
      · omega
    · omega
  | none =>
    have hfirst : ∀ x, f.start ≤ x → x ≤ maxNlChannel → ¬ f.Requested p x := by
      intro x hx1 hx
      simpa using List.find?_range'_eq_none.mp hone x hx1 (by omega)
    cases htwo : (List.range' 1 (f.start - 1)).find? fun i => f.Requested p i with
    | some i =>
      obtain ⟨hreq, hlo, hhi, hbefore⟩ := find_range.mp htwo
      refine Or.inl ⟨i, rfl, of_decide_eq_true hreq, by omega, ⟨by omega, ?_⟩, ?_⟩
      · rintro ⟨h0, -⟩
        unfold start at hhi
        rw [h0, if_neg (by decide)] at hhi
        omega
      intro x hi hx1 hx hx'
      have hlt : x < f.start := Nat.lt_of_not_le fun h => hfirst x h hx hx'
      have hle : i ≤ x := Nat.le_of_not_lt fun h => hbefore x hx1 h (decide_eq_true hx')
      unfold ahead
      rw [if_neg (by omega), if_neg (by omega)]
      omega
    | none =>
      refine Or.inr ⟨rfl, ?_⟩
      intro x hx1 hx
      by_cases hlt : f.start ≤ x
      · exact hfirst x hlt hx
      · simpa using List.find?_range'_eq_none.mp htwo x hx1 (by omega)

/-- A search moves the position behind the channel that it finds: what was behind this channel stays there. -/
theorem ahead_advance {f' : Flow} (hi : 1 ≤ i) (him : i ≤ maxNlChannel) (hx : 1 ≤ x) (hxm : x ≤ maxNlChannel)
    (hf : f'.lastFlowControlCh = i + 1) (h : f.ahead i < f.ahead x) : f'.ahead x < f.ahead x := by
  have hm : maxNlChannel = 255 := rfl
  have hs := f.start_le
  unfold ahead at h ⊢
  have hs' : f'.start = if i = maxNlChannel then 1 else i + 1 := by
    unfold start
    rw [hf]
    split
    · rw [if_pos (by omega)]
    · rw [if_neg (by omega)]
  rw [hs']
  split at h <;> split at h <;> split <;> split <;> omega

theorem ahead_inj (hi : 1 ≤ i) (him : i ≤ maxNlChannel) (hx : 1 ≤ x) (hxm : x ≤ maxNlChannel) (h : f.ahead i = f.ahead x) :
    i = x := by
  have hm : maxNlChannel = 255 := rfl
  have hs := f.start_le
  unfold ahead at h
  split at h <;> split at h <;> omega

theorem ahead_lt (hx : 1 ≤ x) (hxm : x ≤ maxNlChannel) : f.ahead x < maxNlChannel := by
  have hm : maxNlChannel = 255 := rfl
  have hs := f.start_le
  unfold ahead
  split <;> omega

theorem ahead_congr {f' : Flow} (h : max f'.start 1 = max f.start 1) : f'.ahead x = f.ahead x := by
  unfold ahead
  rw [h]

theorem start_start (f : Flow) : ({ f with lastFlowControlCh := f.start } : Flow).start = f.start :=
  if_neg (Nat.not_le.mpr (Nat.lt_succ_of_le f.start_le))

theorem ahead_of_last {f' : Flow} (h : f'.lastFlowControlCh = f.lastFlowControlCh) : f'.ahead x = f.ahead x := by
  apply ahead_congr
  unfold start
  rw [h]

theorem channelXOff_last (f : Flow) (p ch : Nat) (flag : UInt8) :
    (f.channelXOff p ch flag).lastFlowControlCh = f.lastFlowControlCh := by
  unfold channelXOff
  split
  · rfl
  · rfl

theorem channelXOn_last (f : Flow) (ch : Nat) : (f.channelXOn ch).lastFlowControlCh = f.lastFlowControlCh := by
  unfold channelXOn
  split
  · rfl
  · rfl

theorem channelRequestXon_last (f : Flow) (ch : Nat) : (f.channelRequestXon ch).lastFlowControlCh = f.lastFlowControlCh := by
  unfold channelRequestXon
  split
  · rfl
  · rfl

/-- An X-ON moves the position, and a search without one leaves the order as it is. -/
theorem xmitXon_cases (f : Flow) (xonOff ready : Bool) (p : Nat) :
    (f.sends xonOff ready p = 0 ∧ max (f.xmitXon xonOff ready p).start 1 = max f.start 1) ∨
    (ready = true ∧ f.Requested p (f.sends xonOff ready p) ∧ 1 ≤ f.sends xonOff ready p ∧ f.sends xonOff ready p ≤ maxNlChannel ∧
      (f.xmitXon xonOff ready p).lastFlowControlCh = f.sends xonOff ready p + 1 ∧
      ∀ x, 1 ≤ x → x ≤ maxNlChannel → f.Requested p x → f.ahead (f.sends xonOff ready p) ≤ f.ahead x) := by
  unfold sends xmitXon
  by_cases hready : ready = true
  · rw [if_pos hready, if_pos hready]
    cases xonOff with
    | false => exact Or.inl ⟨rfl, rfl⟩
    | true =>
      rcases f.find_cases p with ⟨i, hfind, hreq, hi, h0, hfirst⟩ | ⟨hfind, hnone⟩
      · rw [hfind]
        dsimp only
        by_cases hi0 : i = 0
        · refine Or.inl ⟨hi0, ?_⟩
          have hlast := (h0.mp hi0).1
          unfold start
          rw [if_pos hi0, hlast, hi0]
          rfl
        · have hi1 : 1 ≤ i := Nat.pos_of_ne_zero hi0
          refine Or.inr ⟨hready, hreq, hi1, hi, ?_, fun x hx hxm hx' => hfirst x hi1 hx hxm hx'⟩
          rw [if_neg hi0]
          rfl
      · rw [hfind]
        refine Or.inl ⟨rfl, ?_⟩
        dsimp only
        rw [if_pos rfl, start_start]
  · rw [if_neg hready, if_neg hready]
    exact Or.inl ⟨rfl, rfl⟩

/-- What an event does to the order of the search. -/
theorem step_cases (f : Flow) (xonOff : Bool) (e : FlowEvent) :
    (f.selects xonOff e = none ∧ ∀ x, (f.step xonOff e).ahead x = f.ahead x) ∨
    ∃ q i, e = .xmitXon q true ∧ f.selects xonOff e = some (q, i) ∧ f.Requested q i ∧ 1 ≤ i ∧ i ≤ maxNlChannel ∧
      (f.step xonOff e).lastFlowControlCh = i + 1 ∧
      ∀ x, 1 ≤ x → x ≤ maxNlChannel → f.Requested q x → f.ahead i ≤ f.ahead x := by
  cases e with
  | xmitXon q ready =>
    rcases f.xmitXon_cases xonOff ready q with ⟨hnone, hstart⟩ | ⟨hready, hreq, hi, him, hlast, hfirst⟩
    · refine Or.inl ⟨if_pos hnone, fun x => ahead_congr hstart⟩
    · subst hready
      exact Or.inr ⟨q, _, rfl, if_neg (Nat.ne_zero_of_lt hi), hreq, hi, him, hlast, hfirst⟩
  | xOff q ch flag => exact Or.inl ⟨rfl, fun x => ahead_of_last (channelXOff_last f q ch flag)⟩
  | xOn ch => exact Or.inl ⟨rfl, fun x => ahead_of_last (channelXOn_last f ch)⟩
  | requestXon ch => exact Or.inl ⟨rfl, fun x => ahead_of_last (channelRequestXon_last f ch)⟩
  | remove q => exact Or.inl ⟨rfl, fun x => rfl⟩
  | clear ch => exact Or.inl ⟨rfl, fun x => rfl⟩
  | okFc q ch => exact Or.inl ⟨rfl, fun x => rfl⟩

/-- The X-ONs for the PLCI of a channel that waits use up the channels in front of it. -/
theorem served_le (hx : 1 ≤ x) (hxm : x ≤ maxNlChannel) {es : List FlowEvent} (hwaits : Along (step xonOff) (Waits p x) f es)
    (hnot : (p, x) ∉ selections xonOff f es) : (selections xonOff f es).countP (fun q => q.1 = p) ≤ f.ahead x := by
  induction es generalizing f with
  | nil => exact Nat.zero_le _
  | cons e es ih =>
    obtain ⟨⟨hreq, hothers⟩, hrest⟩ := hwaits
    rw [selections, List.mem_append, not_or] at hnot
    have hle := ih hrest hnot.2
    rw [selections, List.countP_append]
    rcases f.step_cases xonOff e with ⟨hsel, hsame⟩ | ⟨q, i, he, hsel, hfound, hi, him, hlast, hfirst⟩
    · rw [hsame] at hle
      rw [hsel]
      simpa using hle
    · rw [hsel] at hnot ⊢
      simp only [Option.toList_some, List.mem_singleton, List.countP_singleton] at hnot ⊢
      have hlt : f.ahead i < f.ahead x := by
        by_cases hq : q = p
        · subst hq
          have hne : i ≠ x := fun h => hnot.1 (by rw [h])
          exact Nat.lt_of_le_of_ne (hfirst x hx hxm hreq) fun h => hne (ahead_inj hi him hx hxm h)
        · obtain ⟨y, hy, hym, hy', hlt⟩ := hothers q he hq i hi him hfound
          exact Nat.lt_of_le_of_lt (hfirst y hy hym hy') hlt
      have hadv := ahead_advance hi him hx hxm hlast hlt
      split
      · omega
      · omega

end Search

/-- `channel_xmit_xon` of the adapter with its PLCIs: the request is N_XON for the channel. -/
theorem channelXmitXon_flow (s : RxSt) (a p : Nat) :
    ∃ ready, (s.channelXmitXon a p).flow a = (s.flow a).xmitXon (s.xonOffFlowControl a) ready p ∧
      ((s.flow a).sends (s.xonOffFlowControl a) ready p ≠ 0 →
        (s.channelXmitXon a p).nl a p
          = { s.nl a p with nlReq := nXon, reqCh := (s.flow a).sends (s.xonOffFlowControl a) ready p }) := by
  unfold RxSt.channelXmitXon sends xmitXon
  dsimp only
  by_cases hbusy : ((s.nl a p).nlReq != 0 || (s.nl a p).nlId == 0 || (s.nl a p).nlRemoveId != 0) = true
  · rw [if_pos hbusy]
    exact ⟨false, rfl, fun h => absurd rfl h⟩
  · rw [if_neg hbusy]
    refine ⟨true, ?_, ?_⟩
    · rw [if_pos rfl]
      rcases (s.flow a).findChannelWithPendingXOn (s.xonOffFlowControl a) p with ⟨ch, f⟩
      dsimp only
      by_cases hch : ch = 0
      · rw [if_pos (beq_iff_eq.mpr hch), if_pos hch]
        exact Function.update_self ..
      · rw [if_neg (fun h => hch (beq_iff_eq.mp h)), if_neg hch]
        exact Function.update_self ..
    · rw [if_pos rfl]
      intro hch
      rw [if_neg (fun h => hch (beq_iff_eq.mp h))]
      unfold RxSt.setNl
      dsimp only
      rw [Function.update_self, Function.update_self]

/-- A search finds no channel if and only if flow control is off, or X-ON is requested for none of the
    PLCI's channels, or the search is the first of the adapter and finds channel 0. -/
theorem find_eq_zero (f : Flow) (xonOff : Bool) (p : Nat) :
    (f.findChannelWithPendingXOn xonOff p).1 = 0 ↔
      xonOff = false ∨ (∀ x, 1 ≤ x → x ≤ maxNlChannel → ¬ f.Requested p x) ∨ (f.lastFlowControlCh = 0 ∧ f.Requested p 0) := by
  cases xonOff with
  | false => exact ⟨fun _ => Or.inl rfl, fun _ => rfl⟩
  | true =>
    rcases f.find_cases p with ⟨i, hfind, hreq, hi, h0, -⟩ | ⟨hfind, hnone⟩
    · rw [hfind]
      constructor
      · intro h
        exact Or.inr (Or.inr (h0.mp h))
      · rintro (h | h | h)
        · exact absurd h (by decide)
        · by_contra hi0
          exact h i (Nat.pos_of_ne_zero hi0) hi hreq
        · exact h0.mpr h
    · rw [hfind]
      exact ⟨fun _ => Or.inr (Or.inl hnone), fun _ => rfl⟩

/-- In every run, and from every state: a channel that waits is not kept waiting by 255 X-ONs for its PLCI.
    A search finds none if and only if flow control is off, there is none, or it begins at channel 0; so it
    finds one of those that wait unless flow control is off or it begins at channel 0. The tables are those of
    `channel_xmit_xon`. -/
theorem x_on_fair (f : Flow) (xonOff : Bool) (p : Nat) :
    (∀ x es, 1 ≤ x → x ≤ maxNlChannel → Along (step xonOff) (Waits p x) f es →
      (p, x) ∉ selections xonOff f es → (selections xonOff f es).countP (fun q => q.1 = p) < maxNlChannel) ∧
    ((f.findChannelWithPendingXOn xonOff p).1 = 0 ↔
      xonOff = false ∨ (∀ x, 1 ≤ x → x ≤ maxNlChannel → ¬ f.Requested p x) ∨ (f.lastFlowControlCh = 0 ∧ f.Requested p 0)) ∧
    (((f.findChannelWithPendingXOn xonOff p).1 = 0 → ∀ x, 1 ≤ x → x ≤ maxNlChannel → ¬ f.Requested p x) ↔
      (∀ x, 1 ≤ x → x ≤ maxNlChannel → ¬ f.Requested p x) ∨ (xonOff = true ∧ ¬ (f.lastFlowControlCh = 0 ∧ f.Requested p 0))) ∧
    ∀ (s : RxSt) a, ∃ ready, (s.channelXmitXon a p).flow a = (s.flow a).xmitXon (s.xonOffFlowControl a) ready p ∧
      ((s.flow a).sends (s.xonOffFlowControl a) ready p ≠ 0 →
        (s.channelXmitXon a p).nl a p
          = { s.nl a p with nlReq := nXon, reqCh := (s.flow a).sends (s.xonOffFlowControl a) ready p }) := by
  refine ⟨?_, f.find_eq_zero xonOff p, ?_, fun s a => channelXmitXon_flow s a p⟩
  · intro x es hx hxm hwaits hnot
    calc (selections xonOff f es).countP (fun q => q.1 = p)
        ≤ f.ahead x := served_le hx hxm hwaits hnot
      _ < maxNlChannel := ahead_lt hx hxm
  · rw [f.find_eq_zero xonOff p]
    constructor
    · intro h
      by_cases hnone : ∀ x, 1 ≤ x → x ≤ maxNlChannel → ¬ f.Requested p x
      · exact Or.inl hnone
      · refine Or.inr ⟨?_, fun h0 => hnone (h (Or.inr (Or.inr h0)))⟩
        rw [← Bool.not_eq_false]
        exact fun hoff => hnone (h (Or.inl hoff))
    · rintro (hnone | ⟨hon, h0⟩) hzero
      · exact hnone
      · exact (hzero.resolve_left (by rw [hon]; decide)).resolve_right h0

/-- All channels in X-ON. -/
def idle : Flow := ⟨fun _ => 0, fun _ => 0, 0, 0⟩

/-- The channels 3 and 5 of PLCI 2 and the channels 4 and 6 of PLCI 1 wait. -/
def fourWaiting : Flow :=
  run (step true) idle
    [.xOff 1 6 0, .requestXon 6, .xOff 2 3 0, .requestXon 3, .xOff 1 4 0, .requestXon 4, .xOff 2 5 0, .requestXon 5]

/-- While channel 6 waits, both PLCIs get the channels in front of it. -/
theorem x_on_fair_two :
    let es := [FlowEvent.xmitXon 2 true, .xmitXon 1 true, .xmitXon 2 true]
    selections true fourWaiting es = [(2, 3), (1, 4), (2, 5)] ∧
      (selections true fourWaiting es).countP (fun q => q.1 = 1) < maxNlChannel := by
  have hselected : selections true fourWaiting [.xmitXon 2 true, .xmitXon 1 true, .xmitXon 2 true]
      = [(2, 3), (1, 4), (2, 5)] := by
    decide +kernel
  refine ⟨hselected, (x_on_fair fourWaiting true 1).1 6 _ (by decide) (by decide) ⟨⟨?_, ?_⟩, ⟨?_, ?_⟩, ⟨?_, ?_⟩, trivial⟩ ?_⟩
  · decide
  · rintro q ⟨⟩ -
    exact fun _ _ _ _ => ⟨3, by decide, by decide, by decide, by decide⟩
  · decide
  · rintro q ⟨⟩ hne
    exact absurd rfl hne
  · decide
  · rintro q ⟨⟩ -
    exact fun _ _ _ _ => ⟨5, by decide, by decide, by decide, by decide⟩
  · rw [hselected]
    decide

/-! ## Starving -/

section Starving

variable {f : Flow} {q ch : Nat}

/-- X-OFF, and X-ON once again. -/
def turnOf (q ch : Nat) : List FlowEvent := [.xOff q ch 0, .requestXon ch, .xmitXon q true, .xOn ch]

/-- X-ON is requested for channel 5 only, for PLCI 1. -/
structure Starved (f : Flow) : Prop where
  control : f.chFlowControl = Function.update (fun _ => 0) 5 nXonReq
  plci : f.chFlowPlci 5 = 1

/-- `f` after X-OFF and the request for X-ON. -/
def asked (f : Flow) (q ch : Nat) : Flow :=
  ⟨Function.update f.chFlowControl ch nXonReq, Function.update f.chFlowPlci ch q, f.chFlowControlPending + 1, f.lastFlowControlCh⟩

theorem Starved.control_of_ne (h : Starved f) (hne : ch ≠ 5) : f.chFlowControl ch = 0 := by
  rw [h.control, Function.update_of_ne hne]

theorem channelRequestXon_of {c : UInt8} (h : f.chFlowControl ch = c) (hc : (c &&& nChXOff != 0) = true) :
    f.channelRequestXon ch = f.set ch ((c ||| nXonReq) &&& ~~~nChXOff &&& ~~~nXonConnectInd) := by
  subst h
  exact if_pos hc

theorem channelXOn_of {c : UInt8} (h : f.chFlowControl ch = c) (hc : (c &&& nXonSent != 0) = true) :
    f.channelXOn ch = f.set ch (c &&& ~~~nXonSent) := by
  subst h
  exact if_pos hc

theorem Starved.xOff_eq (h : Starved f) (hne : ch ≠ 5) : f.channelXOff q ch 0 =
    ⟨Function.update f.chFlowControl ch nChXOff, Function.update f.chFlowPlci ch q, f.chFlowControlPending + 1,
      f.lastFlowControlCh⟩ := by
  unfold channelXOff
  rw [h.control_of_ne hne, if_pos (by decide)]
  rfl

theorem Starved.asked_eq (h : Starved f) (hne : ch ≠ 5) : (f.channelXOff q ch 0).channelRequestXon ch = asked f q ch := by
  rw [h.xOff_eq hne, channelRequestXon_of (c := nChXOff) (Function.update_self ..) (by decide)]
  unfold set asked
  dsimp only
  rw [Function.update_idem]
  rfl

theorem Starved.requested (h : Starved f) (hne : ch ≠ 5) {p i : Nat} :
    (asked f q ch).Requested p i ↔ (i = ch ∧ q = p) ∨ (i = 5 ∧ p = 1) := by
  unfold Requested asked
  dsimp only
  by_cases hi : i = ch
  · subst hi
    rw [Function.update_self, Function.update_self]
    have hbit : nXonReq ≠ 0 := by decide
    simp [hbit, hne]
  · rw [Function.update_of_ne hi, Function.update_of_ne hi, h.control]
    by_cases h5 : i = 5
    · subst h5
      rw [Function.update_self, h.plci]
      have hbit : nXonReq ≠ 0 := by decide
      simp [hbit, hi, eq_comm]
    · rw [Function.update_of_ne h5]
      simp [hi, h5]

/-- The search finds the channel, since it is another PLCI's than channel 5, or in front of it. -/
theorem Starved.find (h : Starved f) (hch : 1 ≤ ch) (hchm : ch ≤ maxNlChannel) (hne : ch ≠ 5)
    (hfirst : q ≠ 1 ∨ f.ahead ch < f.ahead 5) :
    (asked f q ch).findChannelWithPendingXOn true q = (ch, { asked f q ch with lastFlowControlCh := ch + 1 }) := by
  have hown : (asked f q ch).Requested q ch := (h.requested hne).mpr (Or.inl ⟨rfl, rfl⟩)
  rcases (asked f q ch).find_cases q with ⟨i, hfind, hreq, hi, h0, hle⟩ | ⟨-, hnone⟩
  · suffices hich : i = ch by rw [hfind, hich]
    rcases (h.requested hne).mp hreq with ⟨hich, -⟩ | ⟨hi5, hq⟩
    · exact hich
    · subst hi5
      rcases hfirst with hq1 | hlt
      · exact absurd hq hq1
      · have hback : f.ahead 5 ≤ f.ahead ch := hle ch (by decide) hch hchm hown
        omega
  · exact absurd hown (hnone ch hch hchm)

/-- Another channel gets its X-ON while channel 5 waits. -/
theorem Starved.turn (h : Starved f) (q ch : Nat) (hch : 1 ≤ ch) (hchm : ch ≤ maxNlChannel) (hne : ch ≠ 5)
    (hfirst : q ≠ 1 ∨ f.ahead ch < f.ahead 5) :
    Starved (run (step true) f (turnOf q ch)) ∧ (run (step true) f (turnOf q ch)).lastFlowControlCh = ch + 1 ∧
      selections true f (turnOf q ch) = [(q, ch)] ∧ Along (step true) (fun f _ => f.Requested 1 5) f (turnOf q ch) := by
  have hfind := h.find hch hchm hne hfirst
  have hasked := h.asked_eq (q := q) hne
  have hxmit : (asked f q ch).xmitXon true true q =
      ⟨Function.update f.chFlowControl ch nXonSent, Function.update f.chFlowPlci ch q, f.chFlowControlPending + 1, ch + 1⟩ := by
    unfold xmitXon
    rw [if_pos rfl, hfind]
    dsimp only
    rw [if_neg (Nat.ne_zero_of_lt hch)]
    unfold set asked
    dsimp only
    rw [Function.update_self, Function.update_idem]
    rfl
  have hxon : ((asked f q ch).xmitXon true true q).channelXOn ch =
      ⟨f.chFlowControl, Function.update f.chFlowPlci ch q, f.chFlowControlPending + 1, ch + 1⟩ := by
    rw [hxmit, channelXOn_of (c := nXonSent) (Function.update_self ..) (by decide)]
    unfold set
    dsimp only
    rw [Function.update_idem]
    congr 1
    exact Function.update_eq_self_iff.mpr (h.control_of_ne hne).symm
  have hsends : (asked f q ch).sends true true q = ch := by
    unfold sends
    rw [if_pos rfl, hfind]
  have hrun : run (step true) f (turnOf q ch)
      = ⟨f.chFlowControl, Function.update f.chFlowPlci ch q, f.chFlowControlPending + 1, ch + 1⟩ := by
    rw [← hxon, ← hasked]
    rfl
  have hsel : selections true f (turnOf q ch) = [(q, ch)] := by
    have hselects : (asked f q ch).selects true (.xmitXon q true) = some (q, ch) := by
      unfold selects
      dsimp only
      rw [hsends, if_neg (Nat.ne_zero_of_lt hch)]
    show (((f.channelXOff q ch 0).channelRequestXon ch).selects true (.xmitXon q true)).toList ++ [] = _
    rw [hasked, hselects]
    rfl
  have hwaits : ∀ {c : UInt8} {n : UInt8} {l : Nat},
      Requested ⟨Function.update f.chFlowControl ch c, Function.update f.chFlowPlci ch q, n, l⟩ 1 5 := by
    intro c n l
    unfold Requested
    dsimp only
    rw [Function.update_of_ne hne.symm, Function.update_of_ne hne.symm, h.control, h.plci]
    exact ⟨by decide, rfl⟩
  rw [hrun, hsel]
  refine ⟨⟨h.control, ?_⟩, rfl, rfl, ?_, ?_, ?_, ?_, trivial⟩
  · dsimp only
    rw [Function.update_of_ne hne.symm, h.plci]
  · show f.Requested 1 5
    unfold Requested
    rw [h.control, h.plci]
    exact ⟨by decide, rfl⟩
  · show (f.channelXOff q ch 0).Requested 1 5
    rw [h.xOff_eq hne]
    exact hwaits
  · show ((f.channelXOff q ch 0).channelRequestXon ch).Requested 1 5
    rw [hasked]
    exact hwaits
  · show (((f.channelXOff q ch 0).channelRequestXon ch).xmitXon true true q).Requested 1 5
    rw [hasked, hxmit]
    exact hwaits

/-- PLCI 2 gets channel 9, and PLCI 1 channel 10. -/
def round : List FlowEvent := turnOf 2 9 ++ turnOf 1 10

def rounds : Nat → List FlowEvent
  | 0 => []
  | n + 1 => round ++ rounds n

theorem selections_append (f : Flow) (as bs : List FlowEvent) :
    selections true f (as ++ bs) = selections true f as ++ selections true (run (step true) f as) bs := by
  induction as generalizing f with
  | nil => rfl
  | cons e as ih => rw [List.cons_append, selections, selections, ih, List.append_assoc, run_cons]

theorem Starved.round (h : Starved f) :
    Starved (run (step true) f round) ∧ selections true f round = [(2, 9), (1, 10)] ∧
      Along (step true) (fun f _ => f.Requested 1 5) f round := by
  obtain ⟨hstarved, hlast, hsel, halong⟩ := h.turn 2 9 (by decide) (by decide) (by decide) (Or.inl (by decide))
  have hahead : (run (step true) f (turnOf 2 9)).ahead 10 < (run (step true) f (turnOf 2 9)).ahead 5 := by
    unfold ahead start
    rw [hlast]
    decide
  obtain ⟨hstarved', -, hsel', halong'⟩ := hstarved.turn 1 10 (by decide) (by decide) (by decide) (Or.inr hahead)
  unfold Flow.round
  rw [run_append, selections_append, hsel, hsel', along_append]
  exact ⟨hstarved', rfl, halong, halong'⟩

theorem Starved.rounds (n : Nat) (h : Starved f) :
    (1, 5) ∉ selections true f (rounds n) ∧ (selections true f (rounds n)).countP (fun q => q.1 = 1) = n ∧
      Along (step true) (fun f _ => f.Requested 1 5) f (rounds n) := by
  induction n generalizing f with
  | zero => exact ⟨List.not_mem_nil, rfl, trivial⟩
  | succ n ih =>
    obtain ⟨hstarved, hsel, halong⟩ := h.round
    obtain ⟨hnot, hcount, halong'⟩ := ih hstarved
    unfold Flow.rounds
    rw [selections_append, hsel, along_append, List.mem_append, List.countP_append, hcount]
    refine ⟨?_, ?_, halong, halong'⟩
    · rintro (h | h)
      · exact absurd h (by decide)
      · exact hnot h
    · rw [Nat.add_comm]
      rfl


end Starving

/-- In a run from the start channel 5 waits, and 255 X-ONs go to channel 10 of its PLCI; and without
    flow control a search finds no channel that waits. -/
theorem x_on_starves :
    ¬ (∀ p x before es, 1 ≤ x → x ≤ maxNlChannel →
        Along (step true) (fun f _ => f.Requested p x) (run (step true) idle before) es →
        (p, x) ∉ selections true (run (step true) idle before) es →
        (selections true (run (step true) idle before) es).countP (fun q => q.1 = p) < maxNlChannel) ∧
      ¬ (∀ (f : Flow) xonOff p, (f.findChannelWithPendingXOn xonOff p).1 = 0 → ∀ x, 1 ≤ x → x ≤ maxNlChannel →
        ¬ f.Requested p x) := by
  have hstarved : Starved (run (step true) idle [.xOff 1 5 0, .requestXon 5]) := by
    have hxoff : idle.channelXOff 1 5 0 = ⟨Function.update (fun _ => 0) 5 nChXOff, Function.update (fun _ => 0) 5 1, 1, 0⟩ := rfl
    have hrun : run (step true) idle [.xOff 1 5 0, .requestXon 5] = (idle.channelXOff 1 5 0).channelRequestXon 5 := rfl
    rw [hrun, hxoff, channelRequestXon_of (c := nChXOff) rfl (by decide)]
    unfold set
    dsimp only
    rw [Function.update_idem]
    exact ⟨rfl, rfl⟩
  constructor
  · intro h
    obtain ⟨hnot, hcount, halong⟩ := hstarved.rounds maxNlChannel
    have hlt := h 1 5 _ (rounds maxNlChannel) (by decide) (by decide) halong hnot
    rw [hcount] at hlt
    exact Nat.lt_irrefl _ hlt
  · intro h
    exact h (run (step true) idle [.xOff 1 5 0, .requestXon 5]) false 1 rfl 5 (by decide) (by decide) (by decide)

end Flow

end Divas.Capi
