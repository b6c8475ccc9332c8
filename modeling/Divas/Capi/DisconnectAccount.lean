/-
  Divas.Capi.DisconnectAccount — the disconnect accounting of the PLCIs.

  `DiscRun` adds to the state what the applications have yet to answer (`awaiting`): an NCCI
  waits from the DISCONNECT_B3_I that reports it to its DISCONNECT_B3_RESP.

  Proved: in every run whose steps meet `Cond`, `inc_dis_ncci_table` of each PLCI has exactly
  the NCCIs that wait, each once, and `channels` is their number and that of the connected
  NCCIs; then an N_DISC that meets the condition takes no mapping but that of its channel,
  and a DISCONNECT_B3_RESP frees no receive buffer (`disconnect_accounting`). Without the
  condition this fails when N_DISC comes on a channel without NCCI, since NCCI 0 stands for
  all NCCIs, and when an NCCI is given to a channel while its response is awaited
  (`disconnect_accounting_fails`).
-/

import Divas.Capi.NcciMapping
import Divas.Capi.ReceiveBuffers
import Divas.Capi.Disconnect

namespace Divas.Capi

open Divas.Lib.Run Divas.Lib.Entries

/-! ## The table -/

/-- The NCCIs, and zeros behind them. -/
def padded (L : List Nat) : List Nat := L ++ List.replicate (maxChannelsPerPlci - L.length) 0

section Table

variable {L : List Nat} {n : Nat}

theorem length_padded (h : L.length ≤ maxChannelsPerPlci) : (padded L).length = maxChannelsPerPlci := by
  rw [padded, List.length_append, List.length_replicate]
  omega

theorem tableEnd_padded (h0 : 0 ∉ L) : tableEnd (padded L) = L.length := by
  have hL : L.findIdx (· == 0) = L.length := by
    rw [List.findIdx_eq_length]
    intro x hx
    rw [beq_eq_false_iff_ne]
    exact fun e => h0 (e ▸ hx)
  rw [tableEnd, padded, List.findIdx_append, hL, if_neg (Nat.lt_irrefl _)]
  cases hk : maxChannelsPerPlci - L.length with
  | zero => simp
  | succ k => simp [List.replicate_succ, List.findIdx_cons]

theorem padded_set (h : L.length < maxChannelsPerPlci) : (padded L).set L.length n = padded (L ++ [n]) := by
  obtain ⟨k, hk⟩ : ∃ k, maxChannelsPerPlci - L.length = k + 1 := ⟨maxChannelsPerPlci - L.length - 1, by omega⟩
  have hk' : maxChannelsPerPlci - (L ++ [n]).length = k := by
    rw [List.length_append, List.length_singleton]
    omega
  rw [padded, padded, hk, hk', List.set_append_right _ _ (Nat.le_refl _), Nat.sub_self, List.replicate_succ, List.set_cons_zero,
    List.append_assoc]
  rfl

theorem tableFind_padded (hn : n ∈ L) (hb : n < 256) : tableFind (padded L) n = L.idxOf n := by
  have hlt : L.findIdx (· == n) < L.length := List.findIdx_lt_length.mpr ⟨n, hn, beq_self_eq_true n⟩
  rw [tableFind, Nat.mod_eq_of_lt hb, padded, List.findIdx_append, if_pos hlt]
  rfl

theorem tableFind_lt {t : List Nat} (h : tableFind t n < t.length) : n % 256 ∈ t := by
  obtain ⟨x, hx, he⟩ := List.findIdx_lt_length.mp h
  rw [beq_iff_eq] at he
  exact he ▸ hx

theorem tableRemove_padded (hn : n ∈ L) (hL : L.length ≤ maxChannelsPerPlci) :
    tableRemove (padded L) (L.idxOf n) = padded (L.erase n) := by
  have hlt : L.idxOf n < L.length := List.idxOf_lt_length_of_mem hn
  have hlen := List.length_erase_of_mem hn
  have hk : maxChannelsPerPlci - (L.erase n).length = maxChannelsPerPlci - L.length + 1 := by omega
  rw [tableRemove, padded, padded, hk, List.eraseIdx_append_of_lt_length hlt, List.eraseIdx_idxOf_eq_erase,
    List.replicate_succ', List.append_assoc]

theorem mem_padded (h0 : n ≠ 0) : n ∈ padded L ↔ n ∈ L := by
  rw [padded, List.mem_append, List.mem_replicate]
  constructor
  · rintro (h | h)
    · exact h
    · exact absurd h.2 h0
  · exact Or.inl

end Table

/-! ## The NCCIs -/

namespace NcciSt

/-- The NCCI that `get_ncci` gives to a channel. -/
def nextNcci (s : NcciSt) (ch : Nat) : Option Nat := if ch < maxNcci + 1 ∧ s.a.ncciCh ch = 0 then some ch else s.freeNcci

variable {s : NcciSt} {p ch n : Nat}

theorem getNcci_next (h0 : ch ≠ 0) (hch : s.a.chNcci ch = 0) (hn : s.nextNcci ch = some n) :
    s.getNcci p ch 0 = (n, (s.assign p n).establish n ch) := by
  have hfree : (ch == 0 || s.a.chNcci ch != 0) = false := by simp [h0, hch]
  unfold nextNcci at hn
  unfold getNcci
  rw [hfree]
  by_cases hown : ch < maxNcci + 1 ∧ s.a.ncciCh ch = 0
  · rw [if_pos hown] at hn
    cases hn
    have hb : (decide (ch < maxNcci + 1) && s.a.ncciCh ch == 0) = true := by simp [hown]
    rw [hb]
    rfl
  · rw [if_neg hown] at hn
    have hb : (decide (ch < maxNcci + 1) && s.a.ncciCh ch == 0) = false := by simpa using hown
    rw [hb, hn]
    rfl

theorem nextNcci_some (h0 : ch ≠ 0) (hn : s.nextNcci ch = some n) : (n ≠ 0 ∧ n ≤ maxNcci) ∧ s.a.ncciCh n = 0 := by
  unfold nextNcci at hn
  split at hn
  case isTrue h =>
    cases hn
    exact ⟨⟨h0, by omega⟩, h.2⟩
  case isFalse => exact freeNcci_some hn

end NcciSt

/-- The mapping while no NCCI is preserved: each NCCI that has an owner has a channel that
    leads to it, and exactly these are not idle. -/
structure Linked (s : NcciSt) : Prop where
  ncci : NcciInv s
  back : ∀ n, s.a.ncciPlci n ≠ 0 → s.a.chNcci (s.a.ncciCh n) = n
  owned : ∀ ch, s.a.chNcci ch ≠ 0 → s.a.ncciPlci (s.a.chNcci ch) ≠ 0
  idle : ∀ n, s.a.ncciState n = .idle ↔ s.a.ncciPlci n = 0

namespace Linked

variable {s : NcciSt} {p ch n : Nat}

/-- A channel that leads to no NCCI is not claimed. -/
theorem unclaimed (h : Linked s) (hch : s.a.chNcci ch = 0) (m : Nat) (hm : s.a.ncciPlci m ≠ 0) : s.a.ncciCh m ≠ ch := by
  intro e
  have := h.back m hm
  rw [e, hch] at this
  exact (h.ncci.maps.used m hm).1 this.symm

theorem free (h : Linked s) (hn : s.a.ncciCh n = 0) : s.a.ncciPlci n = 0 := by
  by_contra e
  exact (h.ncci.maps.used n e).2.2 hn

theorem take (h : Linked s) (hp : p ≠ 0) (h0 : ch ≠ 0) (hch : s.a.chNcci ch = 0) (hn : s.nextNcci ch = some n)
    (st : State) (hst : st ≠ .idle) (t : NcciSt) (ht : t = (s.assign p n).establish n ch) :
    Linked (t.setAdapter { t.a with ncciState := Function.update t.a.ncciState n st }) := by
  obtain ⟨hn1, hn2⟩ := NcciSt.nextNcci_some h0 hn
  have hmod : n % 256 = n := Nat.mod_eq_of_lt (by have : maxNcci = 127 := rfl; omega)
  have hinv := h.ncci.take hp hn1 hn2 h0 (h.unclaimed hch)
  rw [← ht] at hinv
  have hchNcci : t.a.chNcci = Function.update s.a.chNcci ch n := by
    rw [ht, NcciSt.assign, ringInsert_eq]
    show Function.update s.a.chNcci ch (n % 256) = _
    rw [hmod]
  have hncciCh : t.a.ncciCh = Function.update s.a.ncciCh n ch := by
    rw [ht, NcciSt.assign, ringInsert_eq]
    rfl
  have hncciPlci : t.a.ncciPlci = Function.update s.a.ncciPlci n p := by
    rw [ht, NcciSt.assign, ringInsert_eq]
    rfl
  have hncciState : t.a.ncciState = Function.update s.a.ncciState n .idle := by
    rw [ht, NcciSt.assign, ringInsert_eq]
    rfl
  refine ⟨⟨hinv.maps, hinv.rings, hinv.returns⟩, ?_, ?_, ?_⟩
  · intro m hm
    show t.a.chNcci (t.a.ncciCh m) = m
    change t.a.ncciPlci m ≠ 0 at hm
    rw [hncciPlci] at hm
    rw [hchNcci, hncciCh]
    by_cases e : m = n
    · rw [e, Function.update_self, Function.update_self]
    · rw [Function.update_of_ne e] at hm ⊢
      rw [Function.update_of_ne (h.unclaimed hch m hm)]
      exact h.back m hm
  · intro c hc
    show t.a.ncciPlci (t.a.chNcci c) ≠ 0
    change t.a.chNcci c ≠ 0 at hc
    rw [hchNcci] at hc ⊢
    rw [hncciPlci]
    by_cases e : c = ch
    · rw [e, Function.update_self, Function.update_self]
      exact hp
    · rw [Function.update_of_ne e] at hc ⊢
      have ho := h.owned c hc
      have hne : s.a.chNcci c ≠ n := fun hcn => ho (hcn ▸ h.free hn2)
      rwa [Function.update_of_ne hne]
  · intro m
    show Function.update t.a.ncciState n st m = .idle ↔ t.a.ncciPlci m = 0
    rw [hncciState, hncciPlci]
    by_cases e : m = n
    · rw [e, Function.update_self, Function.update_self]
      exact iff_of_false hst hp
    · rw [Function.update_of_ne e, Function.update_of_ne e, Function.update_of_ne e]
      exact h.idle m

theorem setState (h : Linked s) {st : State} (hn : s.a.ncciPlci n ≠ 0) (hst : st ≠ .idle) :
    Linked (s.setAdapter { s.a with ncciState := Function.update s.a.ncciState n st }) := by
  refine ⟨⟨h.ncci.maps, h.ncci.rings, h.ncci.returns⟩, h.back, h.owned, ?_⟩
  intro m
  show Function.update s.a.ncciState n st m = .idle ↔ s.a.ncciPlci m = 0
  by_cases e : m = n
  · rw [e, Function.update_self]
    exact iff_of_false hst hn
  · rw [Function.update_of_ne e]
    exact h.idle m

/-- The mapping counts, and the circles. -/
theorem congr {t : NcciSt} (h : Linked s) (ht : NcciInv t) (ha : t.a = s.a) : Linked t := by
  refine ⟨ht, ?_, ?_, ?_⟩
  · rw [ha]
    exact h.back
  · rw [ha]
    exact h.owned
  · rw [ha]
    exact h.idle

end Linked

/-! ## Removal -/

namespace NcciSt

variable {s : NcciSt} {p n : Nat}

theorem ringRemove_a (s : NcciSt) (p n : Nat) : ∃ next, (s.ringRemove p n).a = { s.a with ncciNext := next } := by
  unfold ringRemove
  dsimp only
  cases hi : findBefore s.a.ncciNext (s.ncciRingList p) n 256 (s.ncciRingList p) with
  | none => exact ⟨s.a.ncciNext, rfl⟩
  | some i =>
    dsimp only
    cases i != 0 && s.a.ncciNext i == n with
    | true => exact ⟨_, rfl⟩
    | false => exact ⟨_, rfl⟩

/-- The NCCI loses its channel and its owner. -/
theorem ncciRemove_owned (h0 : n ≠ 0) (hp : s.a.ncciPlci n = p) :
    (s.ncciRemove p n false).a.chNcci = Function.update s.a.chNcci (s.a.ncciCh n) 0 ∧
      (s.ncciRemove p n false).a.ncciCh = Function.update s.a.ncciCh n 0 ∧
      (s.ncciRemove p n false).a.ncciPlci = Function.update s.a.ncciPlci n 0 ∧
      (s.ncciRemove p n false).a.ncciState = Function.update s.a.ncciState n .idle := by
  have hn : (n != 0) = true := by simpa using h0
  have ho : (s.a.ncciPlci n != p) = false := by simpa using hp
  obtain ⟨next, hnext⟩ := ringRemove_a (((s.cleanupNcci n).unmap n).clearNcci n) p n
  have heq : s.ncciRemove p n false = (((s.cleanupNcci n).unmap n).clearNcci n).ringRemove p n := by
    rw [ncciRemove, if_pos hn, removeOne, ho]
    rfl
  rw [heq, hnext]
  exact ⟨rfl, rfl, rfl, rfl⟩

/-- A PLCI that has none of the NCCIs takes no mapping away. -/
theorem ncciRemove_unowned (h : ∀ m, Names n m → s.a.ncciPlci m ≠ p) : (s.ncciRemove p n false).a = s.a := by
  unfold ncciRemove
  by_cases h0 : n = 0
  · rw [if_neg (by simpa using h0)]
    subst h0
    have hturn : ∀ k, k < maxNcci → removeTurn p false (1 + k) s = s := by
      intro k hk
      have hne := h (1 + k) (by rw [Names, if_pos rfl]; omega)
      rw [removeTurn, if_neg (by simpa using hne)]
    have hloop : Lib.Loop.forFrom 1 (maxNcci + 1) (removeTurn p false) s = s := by
      unfold Lib.Loop.forFrom
      rw [Nat.add_sub_cancel]
      refine Lib.Loop.forTo_invariant (I := fun _ t => t = s) rfl ?_
      intro k t hk ht
      rw [ht, hturn k hk]
    rw [removeAll, hloop]
    rfl
  · rw [if_pos (by simpa using h0)]
    have hne := h n (by rw [Names, if_neg h0])
    rw [removeOne, if_pos (by simpa using hne)]
    rfl

end NcciSt

namespace Linked

variable {s : NcciSt} {p n : Nat}

theorem ncciRemove (h : Linked s) (hp : p ≠ 0) (n : Nat) : NcciInv (s.ncciRemove p n false) := by
  unfold NcciSt.ncciRemove
  split
  · exact h.ncci.removeOne hp n false
  · exact h.ncci.removeAll hp false

theorem remove (h : Linked s) (hp : p ≠ 0) (h0 : n ≠ 0) (hn : s.a.ncciPlci n = p) : Linked (s.ncciRemove p n false) := by
  obtain ⟨h1, h2, h3, h4⟩ := NcciSt.ncciRemove_owned h0 hn
  have hne : s.a.ncciPlci n ≠ 0 := hn ▸ hp
  refine ⟨h.ncciRemove hp n, ?_, ?_, ?_⟩
  · intro m hm
    rw [h3] at hm
    rw [h1, h2]
    have hmn : m ≠ n := by
      intro e
      rw [e, Function.update_self] at hm
      exact hm rfl
    rw [Function.update_of_ne hmn] at hm ⊢
    have hch : s.a.ncciCh m ≠ s.a.ncciCh n := fun e => hmn (h.ncci.maps.claimed m n hm hne e)
    rw [Function.update_of_ne hch]
    exact h.back m hm
  · intro c hc
    rw [h1] at hc ⊢
    rw [h3]
    have hcn : c ≠ s.a.ncciCh n := by
      intro e
      rw [e, Function.update_self] at hc
      exact hc rfl
    rw [Function.update_of_ne hcn] at hc ⊢
    have hne' : s.a.chNcci c ≠ n := by
      intro e
      have := (h.ncci.maps.inverse c hc).2
      rw [e] at this
      exact hcn this.symm
    rw [Function.update_of_ne hne']
    exact h.owned c hc
  · intro m
    rw [h3, h4]
    by_cases e : m = n
    · rw [e, Function.update_self, Function.update_self]
      exact iff_of_true rfl rfl
    · rw [Function.update_of_ne e, Function.update_of_ne e]
      exact h.idle m

end Linked

namespace DiscSt

variable {s : DiscSt} {p n : Nat}

/-- Of NCCIs that the PLCI does not have no buffer is freed. -/
theorem freeReceiveBuffers_unowned (h : ∀ m, Names n m → s.n.a.ncciPlci m ≠ p) (k : Nat) :
    ((s.freeReceiveBuffers p n).appl k).dataNCCI = (s.appl k).dataNCCI := by
  show (Function.update s.appl ((s.plci p).appl.getD 0) (ncciFreeReceiveBuffers (s.plci p).appl.isSome s.n.a p n
    (s.appl ((s.plci p).appl.getD 0), s.n.mappingBug)).1 k).dataNCCI = _
  by_cases e : k = (s.plci p).appl.getD 0
  · rw [e, Function.update_self]
    cases ha : (s.plci p).appl with
    | none => rw [Option.isSome_none, ncciFreeReceiveBuffers_null]
    | some j =>
      funext i
      refine (ncciFreeReceiveBuffers_freed (s.appl j) s.n.a p n s.n.mappingBug).kept i ?_
      rintro ⟨-, -, m, hm, hnames, -⟩
      exact h m hnames hm
  · rw [Function.update_of_ne e]

theorem ncciRemove_unowned (h : ∀ m, Names n m → s.n.a.ncciPlci m ≠ p) :
    (s.ncciRemove p n).n.a = s.n.a ∧ ∀ k, ((s.ncciRemove p n).appl k).dataNCCI = (s.appl k).dataNCCI :=
  ⟨NcciSt.ncciRemove_unowned (s := (s.freeReceiveBuffers p n).n) h, freeReceiveBuffers_unowned h⟩

theorem linked_ncciRemove (h : Linked s.n) (hp : p ≠ 0) (n : Nat) : NcciInv (s.ncciRemove p n).n := by
  have h' : Linked (s.freeReceiveBuffers p n).n := h.congr ⟨h.ncci.maps, h.ncci.rings, h.ncci.returns⟩ rfl
  exact h'.ncciRemove hp n

/-! ## What the steps do -/

theorem nlConnect_refused {ch : Nat} (hr : refusesConnect (s.plci p) = true) : s.nlConnect p ch = s := by
  rw [nlConnect]
  dsimp only
  rw [if_pos hr]

theorem nlDisc_discarded {ch : Nat} (hr : ((s.plci p).removing || (s.plci p).appl.isNone) = true) : s.nlDisc p ch = s := by
  rw [nlDisc]
  dsimp only
  rw [if_pos hr]

/-- N_DISC and N_DISC_ACK for a PLCI that counts no connection. -/
theorem nlDisc_uncounted {ch : Nat} (hr : ((s.plci p).removing || (s.plci p).appl.isNone) = false)
    (hc : (s.plci p).channels = 0) :
    s.nlDisc p ch = s.ncciRemove p (s.n.a.chNcci ch) := by
  rw [nlDisc]
  dsimp only
  rw [if_neg (by rw [hr]; exact Bool.false_ne_true), if_pos (by rw [hc]; rfl)]

/-- N_CONNECT on a channel that has an NCCI. -/
theorem nlConnect_mapped {ch : Nat} (hr : refusesConnect (s.plci p) = false) (hch : s.n.a.chNcci ch ≠ 0)
    (hst : s.n.a.ncciState (s.n.a.chNcci ch) ≠ .idle) :
    ∃ m, s.nlConnect p ch = (s.setNcciState (s.n.a.chNcci ch) .incConPending).send m ∧
      ∀ q k, m ≠ .disconnectB3I q k := by
  have hmap : (s.n.a.chNcci ch == 0) = false := by simpa using hch
  have hidle : (s.n.a.ncciState (s.n.a.chNcci ch) == .idle) = false := by simpa using hst
  unfold nlConnect channelNcci
  dsimp only
  rw [hr, hmap, if_neg Bool.false_ne_true, if_neg Bool.false_ne_true]
  dsimp only
  rw [hidle]
  refine ⟨_, rfl, ?_⟩
  intro q k
  split <;> intro h <;> cases h

/-- N_CONNECT on a channel that gets an NCCI. -/
theorem nlConnect_next {ch : Nat} (hr : refusesConnect (s.plci p) = false) (h0 : ch ≠ 0) (hch : s.n.a.chNcci ch = 0)
    (hn : s.n.nextNcci ch = some n) :
    ∃ m, s.nlConnect p ch =
        (({ s with n := (s.n.assign p n).establish n ch }.setPlci p
          { s.plci p with channels := ((s.plci p).channels + 1) % 256 }).setNcciState n .incConPending).send m ∧
      ∀ q k, m ≠ .disconnectB3I q k := by
  have hmap : (s.n.a.chNcci ch == 0) = true := by simpa using hch
  have hidle : (((s.n.assign p n).establish n ch).a.ncciState n == .idle) = true := by
    rw [NcciSt.assign, ringInsert_eq]
    show (Function.update s.n.a.ncciState n State.idle n == State.idle) = true
    rw [Function.update_self]
    rfl
  unfold nlConnect channelNcci
  dsimp only
  rw [hr, hmap, if_neg Bool.false_ne_true, if_pos rfl, NcciSt.getNcci_next h0 hch hn]
  dsimp only
  rw [hidle]
  refine ⟨_, rfl, ?_⟩
  intro q k
  split <;> intro h <;> cases h

/-- N_DISC and N_DISC_ACK for a PLCI that counts a connection. -/
theorem nlDisc_counted (ch : Nat) (hr : ((s.plci p).removing || (s.plci p).appl.isNone) = false) (hc : (s.plci p).channels ≠ 0) :
    ∃ ms q, s.nlDisc p ch = { s.ncciRemove p (s.n.a.chNcci ch) with
          plci := Function.update s.plci p q
          sent := .disconnectB3I p (if s.n.a.chNcci ch != 0 then s.n.a.chNcci ch else ch) :: (ms ++ s.sent) } ∧
      (∀ k l, .disconnectB3I k l ∉ ms) ∧
      q.incDisNcciTable = (addIncDis (s.plci p) (s.n.a.chNcci ch)).incDisNcciTable ∧
      q.channels = (addIncDis (s.plci p) (s.n.a.chNcci ch)).channels := by
  have hc' : ((s.plci p).channels == 0) = false := by simpa using hc
  unfold nlDisc
  dsimp only
  rw [hr, hc', if_neg Bool.false_ne_true, if_neg Bool.false_ne_true]
  have hadd : ∀ q : DiscPlci, (addIncDis { q with sendDisc := 0 } (s.n.a.chNcci ch)).incDisNcciTable =
      (addIncDis q (s.n.a.chNcci ch)).incDisNcciTable ∧
      (addIncDis { q with sendDisc := 0 } (s.n.a.chNcci ch)).channels = (addIncDis q (s.n.a.chNcci ch)).channels := by
    intro q
    unfold addIncDis
    dsimp only
    split
    · exact ⟨rfl, rfl⟩
    · exact ⟨rfl, rfl⟩
  have hhangup : ∀ (hangup : Bool) (q : DiscPlci),
      (if hangup then { q with state := .outgDisPending } else q).incDisNcciTable = q.incDisNcciTable ∧
        (if hangup then { q with state := .outgDisPending } else q).channels = q.channels := by
    intro hangup q
    cases hangup with
    | true => exact ⟨rfl, rfl⟩
    | false => exact ⟨rfl, rfl⟩
  cases (s.plci p).sendDisc == s.n.a.chNcci ch with
  | true =>
    refine ⟨[_], _, rfl, ?_, (hhangup _ _).1.trans (hadd _).1, (hhangup _ _).2.trans (hadd _).2⟩
    intro k l hm
    cases hm with
    | tail _ hm => cases hm
  | false =>
    refine ⟨[], _, rfl, ?_, (hhangup _ _).1, (hhangup _ _).2⟩
    intro k l hm
    cases hm

/-- What `disconnect_b3_res` does when the NCCI is in the table, but for the removal of the PLCI. -/
def respond (s : DiscSt) (p ncci : Nat) : DiscSt :=
  (s.setPlci p (dropChannel { s.plci p with
    incDisNcciTable := tableRemove (s.plci p).incDisNcciTable (tableFind (s.plci p).incDisNcciTable ncci) })).freeReceiveBuffers
      p ncci

theorem disconnectB3Res_found {ncci : Nat} (hr : refusesResponse (s.plci p) = false) (h0 : ncci ≠ 0)
    (hf : tableFind (s.plci p).incDisNcciTable ncci < maxChannelsPerPlci) :
    s.disconnectB3Res p ncci = s.respond p ncci ∨
      ((s.plci p).channels - 1 = 0 ∧ ∃ ms, (∀ k l, .disconnectB3I k l ∉ ms) ∧
        s.disconnectB3Res p ncci = ({ s.respond p ncci with sent := ms ++ (s.respond p ncci).sent } : DiscSt).plciRemove p) := by
  have h0' : (ncci == 0) = false := by simpa using h0
  unfold disconnectB3Res
  dsimp only
  rw [hr, h0', if_neg (by simp), if_pos hf]
  by_cases hlast : (((dropChannel { s.plci p with
      incDisNcciTable := tableRemove (s.plci p).incDisNcciTable (tableFind (s.plci p).incDisNcciTable ncci) }).state == .idle ||
    (dropChannel { s.plci p with
      incDisNcciTable := tableRemove (s.plci p).incDisNcciTable (tableFind (s.plci p).incDisNcciTable ncci) }).state
        == .suspending) &&
    (dropChannel { s.plci p with
      incDisNcciTable := tableRemove (s.plci p).incDisNcciTable (tableFind (s.plci p).incDisNcciTable ncci) }).channels == 0)
        = true
  · rw [if_pos hlast]
    have hzero : (s.plci p).channels - 1 = 0 := by
      rw [Bool.and_eq_true] at hlast
      exact beq_iff_eq.mp hlast.2
    refine Or.inr ⟨hzero, ?_⟩
    split
    · refine ⟨[.disconnectI p], ?_, rfl⟩
      intro k l hm
      cases hm with
      | tail _ hm => cases hm
    · refine ⟨[], ?_, rfl⟩
      intro k l hm
      cases hm
  · rw [if_neg hlast]
    exact Or.inl rfl

theorem disconnectB3Res_other {ncci : Nat}
    (h : ¬ (refusesResponse (s.plci p) = false ∧ ncci ≠ 0 ∧ tableFind (s.plci p).incDisNcciTable ncci < maxChannelsPerPlci)) :
    s.disconnectB3Res p ncci = s := by
  unfold disconnectB3Res
  dsimp only
  by_cases hr : (refusesResponse (s.plci p) || ncci == 0) = true
  · rw [if_pos hr]
  · rw [if_neg hr, if_neg]
    intro hlt
    rw [Bool.or_eq_true, not_or, Bool.not_eq_true, beq_iff_eq] at hr
    exact h ⟨hr.1, hr.2, hlt⟩

end DiscSt

/-! ## Runs -/

/-- The step brings a DISCONNECT_B3_I. -/
def reports (s s' : DiscSt) (p n : Nat) : Bool := (s'.sent.take (s'.sent.length - s.sent.length)).contains (.disconnectB3I p n)

/-- The event is the DISCONNECT_B3_RESP, and it comes to the PLCI. -/
def answers (s : DiscSt) (p n : Nat) : DiscEv → Bool
  | .response p' ncci => p'.id == p && ncci.toNat == n && !DiscSt.refusesResponse (s.plci p)
  | _ => false

/-- `awaiting p n`: the DISCONNECT_B3_RESP of NCCI `n` of PLCI `p` is awaited. -/
structure DiscRun where
  s : DiscSt
  awaiting : Nat → Nat → Bool

namespace DiscRun

def step (r : DiscRun) (e : DiscEv) : DiscRun where
  s := r.s.step e
  awaiting p n := reports r.s (r.s.step e) p n || (r.awaiting p n && !answers r.s p n e)

/-- A channel that gets an NCCI is not channel 0, and its NCCI is not awaited. N_DISC is for
    an NCCI of the PLCI and its table has room, or the PLCI counts no connection. A response
    does not name an NCCI above 255 whose low byte is in the table. -/
def Cond (r : DiscRun) : DiscEv → Prop
  | .connect p ch =>
    DiscSt.refusesConnect (r.s.plci p.id) = false → r.s.n.a.chNcci ch.toNat = 0 →
      ch.toNat ≠ 0 ∧ ∃ n, r.s.n.nextNcci ch.toNat = some n ∧ n ∉ (r.s.plci p.id).incDisNcciTable
  | .disc p ch =>
    ((r.s.plci p.id).removing || (r.s.plci p.id).appl.isNone) = false → (r.s.plci p.id).channels ≠ 0 →
      r.s.n.a.chNcci ch.toNat ≠ 0 ∧ r.s.n.a.ncciPlci (r.s.n.a.chNcci ch.toNat) = p.id ∧
        tableEnd (r.s.plci p.id).incDisNcciTable < maxChannelsPerPlci
  | .response p ncci => ncci.toNat % 256 ∈ (r.s.plci p.id).incDisNcciTable → ncci.toNat < 256
  | _ => True

/-! ## The invariant -/

/-- The connected NCCIs of a PLCI. -/
def connected (ncciPlci : Nat → Nat) (p : Nat) : Nat := entries (maxNcci + 1) ncciPlci p

/-- `L` are the NCCIs of PLCI `p` that wait for the response. -/
structure Account (ncciPlci : Nat → Nat) (p : Nat) (q : DiscPlci) (awaiting : Nat → Bool) (L : List Nat) : Prop where
  table : q.incDisNcciTable = padded L
  room : L.length ≤ maxChannelsPerPlci
  nodup : L.Nodup
  awaited : ∀ n, n ∈ L ↔ awaiting n = true
  released : ∀ n, n ∈ L → (n ≠ 0 ∧ n ≤ maxNcci) ∧ ncciPlci n ≠ p
  channels : q.channels = connected ncciPlci p + L.length

structure Inv (r : DiscRun) : Prop where
  linked : Linked r.s.n
  account : ∀ p, p ≠ 0 → ∃ L, Account r.s.n.a.ncciPlci p (r.s.plci p) (r.awaiting p) L

theorem connected_congr {ncciPlci ncciPlci' : Nat → Nat} {p : Nat} (h : ∀ n, ncciPlci' n = p ↔ ncciPlci n = p) :
    connected ncciPlci' p = connected ncciPlci p :=
  Nat.le_antisymm (entries_le fun n _ => (h n).1) (entries_le fun n _ => (h n).2)

namespace Account

variable {ncciPlci ncciPlci' : Nat → Nat} {p : Nat} {q q' : DiscPlci} {awaiting awaiting' : Nat → Bool} {L : List Nat}

/-- An account sees the owners of the PLCI's own NCCIs only. -/
theorem congr (h : Account ncciPlci p q awaiting L) (hp : ∀ n, ncciPlci' n = p ↔ ncciPlci n = p)
    (ht : q'.incDisNcciTable = q.incDisNcciTable) (hc : q'.channels = q.channels) (ha : ∀ n, awaiting' n = awaiting n) :
    Account ncciPlci' p q' awaiting' L where
  table := ht.trans h.table
  room := h.room
  nodup := h.nodup
  awaited n := by rw [ha, h.awaited]
  released n hn := ⟨(h.released n hn).1, fun e => (h.released n hn).2 ((hp n).1 e)⟩
  channels := by rw [hc, h.channels, connected_congr hp]

theorem zero_not_mem (h : Account ncciPlci p q awaiting L) : 0 ∉ L := fun h0 => (h.released 0 h0).1.1 rfl

/-- An NCCI that waits is in the table once. -/
theorem count_eq_one (h : Account ncciPlci p q awaiting L) {n : Nat} (hn : awaiting n = true) :
    q.incDisNcciTable.count n = 1 := by
  have hm := (h.awaited n).2 hn
  rw [h.table, padded, List.count_append, List.count_eq_one_of_mem h.nodup hm, List.count_replicate, if_neg]
  rw [beq_iff_eq]
  exact Ne.symm (h.released n hm).1.1

/-- The PLCI gets an NCCI. -/
theorem connect (h : Account ncciPlci p q awaiting L) {n : Nat} (hn : n ≠ 0 ∧ n ≤ maxNcci) (hfree : ncciPlci n = 0) (hp : p ≠ 0)
    (hnew : n ∉ q.incDisNcciTable) :
    Account (Function.update ncciPlci n p) p { q with channels := (q.channels + 1) % 256 } awaiting L := by
  have hnL : n ∉ L := by
    rwa [h.table, mem_padded hn.1] at hnew
  have hgain : connected (Function.update ncciPlci n p) p = connected ncciPlci p + 1 :=
    entries_gain (show n < maxNcci + 1 by omega) (hfree ▸ Ne.symm hp)
  have hbound : connected ncciPlci p ≤ maxNcci + 1 := by
    have := List.countP_le_length (p := fun i => ncciPlci i == p) (l := List.range (maxNcci + 1))
    rwa [List.length_range] at this
  refine ⟨h.table, h.room, h.nodup, h.awaited, ?_, ?_⟩
  · intro m hm
    refine ⟨(h.released m hm).1, ?_⟩
    rw [Function.update_of_ne (show m ≠ n from fun e => hnL (e ▸ hm))]
    exact (h.released m hm).2
  · have hroom := h.room
    have hch := h.channels
    have h1 : maxNcci = 127 := rfl
    have h2 : maxChannelsPerPlci = 8 := rfl
    show (q.channels + 1) % 256 = _
    rw [hgain]
    omega

/-- An NCCI is disconnected: it waits for the response. -/
theorem disconnect (h : Account ncciPlci p q awaiting L) (hp : p ≠ 0) {n : Nat} (hn : n ≠ 0 ∧ n ≤ maxNcci) (hown : ncciPlci n = p)
    (hroom : tableEnd q.incDisNcciTable < maxChannelsPerPlci)
    (ht : q'.incDisNcciTable = (DiscSt.addIncDis q n).incDisNcciTable) (hc : q'.channels = (DiscSt.addIncDis q n).channels)
    (ha : ∀ m, awaiting' m = true ↔ m = n ∨ awaiting m = true) :
    Account (Function.update ncciPlci n 0) p q' awaiting' (L ++ [n]) := by
  have hend : tableEnd q.incDisNcciTable = L.length := by rw [h.table, tableEnd_padded h.zero_not_mem]
  have hmod : n % 256 = n := Nat.mod_eq_of_lt (by have : maxNcci = 127 := rfl; omega)
  have hadd : DiscSt.addIncDis q n = { q with incDisNcciTable := q.incDisNcciTable.set L.length n } := by
    rw [DiscSt.addIncDis, if_pos hroom, hend, hmod]
  rw [hend] at hroom
  have hnL : n ∉ L := fun hm => (h.released n hm).2 hown
  have hlose : connected (Function.update ncciPlci n 0) p + 1 = connected ncciPlci p := by
    have := entries_lose (f := ncciPlci) (v := 0) (show n < maxNcci + 1 by omega) (by rw [hown]; exact Ne.symm hp)
    rwa [hown] at this
  refine ⟨?_, ?_, ?_, ?_, ?_, ?_⟩
  · rw [ht, hadd]
    show q.incDisNcciTable.set L.length n = _
    rw [h.table, padded_set hroom]
  · rw [List.length_append, List.length_singleton]
    omega
  · rw [List.nodup_append]
    refine ⟨h.nodup, List.nodup_singleton n, ?_⟩
    intro x hx y hy e
    rw [List.mem_singleton] at hy
    exact hnL (hy ▸ e ▸ hx)
  · intro m
    rw [List.mem_append, List.mem_singleton, h.awaited, ha, or_comm]
  · intro m hm
    rw [List.mem_append, List.mem_singleton] at hm
    by_cases e : m = n
    · rw [e, Function.update_self]
      exact ⟨hn, Ne.symm hp⟩
    · rw [Function.update_of_ne e]
      rcases hm with hm | hm
      · exact h.released m hm
      · exact absurd hm e
  · rw [hc, hadd]
    show q.channels = _
    rw [h.channels, List.length_append, List.length_singleton]
    omega

/-- The response to an NCCI that waits. -/
theorem respond (h : Account ncciPlci p q awaiting L) {n : Nat} (hn : n ∈ L)
    (ht : q'.incDisNcciTable = tableRemove q.incDisNcciTable (tableFind q.incDisNcciTable n)) (hc : q'.channels = q.channels - 1)
    (ha : ∀ m, awaiting' m = true ↔ m ≠ n ∧ awaiting m = true) :
    Account ncciPlci p q' awaiting' (L.erase n) := by
  have hlen := List.length_erase_of_mem hn
  have hpos := List.length_pos_of_mem hn
  have hroom := h.room
  have hb : n < 256 := by
    have := (h.released n hn).1
    have : maxNcci = 127 := rfl
    omega
  refine ⟨?_, ?_, h.nodup.erase n, ?_, ?_, ?_⟩
  · rw [ht, h.table, tableFind_padded hn hb, tableRemove_padded hn h.room]
  · omega
  · intro m
    rw [h.nodup.mem_erase_iff, h.awaited, ha]
  · intro m hm
    exact h.released m (List.mem_of_mem_erase hm)
  · rw [hc, h.channels, hlen]
    omega

end Account

/-! ## The steps -/

theorem reports_append {s s' : DiscSt} {ms : List DiscMsg} (h : s'.sent = ms ++ s.sent) (p n : Nat) :
    reports s s' p n = ms.contains (.disconnectB3I p n) := by
  rw [reports, h, List.length_append, Nat.add_sub_cancel, List.take_left]

theorem reports_none {s s' : DiscSt} {ms : List DiscMsg} (h : s'.sent = ms ++ s.sent) (hms : ∀ p n, .disconnectB3I p n ∉ ms)
    (p n : Nat) : reports s s' p n = false := by
  rw [reports_append h, Bool.eq_false_iff, ne_eq, List.contains_iff_mem]
  exact hms p n

/-- A step that neither reports nor answers leaves what is awaited. -/
theorem awaiting_keep {r : DiscRun} {e : DiscEv} {ms : List DiscMsg} (h : (r.s.step e).sent = ms ++ r.s.sent)
    (hms : ∀ p n, .disconnectB3I p n ∉ ms) (p : Nat) (ha : ∀ n, r.awaiting p n = true → answers r.s p n e = false) (n : Nat) :
    (r.step e).awaiting p n = r.awaiting p n := by
  show (reports r.s (r.s.step e) p n || (r.awaiting p n && !answers r.s p n e)) = _
  rw [reports_none h hms, Bool.false_or]
  cases hw : r.awaiting p n with
  | true => rw [ha n hw, Bool.not_false, Bool.and_true]
  | false => exact Bool.false_and _

namespace Inv

variable {r : DiscRun}

/-- A step that leaves the owners of the NCCIs, the tables and the numbers of channels. -/
theorem keep (hi : Inv r) {e : DiscEv} (ms : List DiscMsg) (hn : Linked (r.s.step e).n)
    (hp : (r.s.step e).n.a.ncciPlci = r.s.n.a.ncciPlci)
    (hq : ∀ p, ((r.s.step e).plci p).incDisNcciTable = (r.s.plci p).incDisNcciTable ∧
      ((r.s.step e).plci p).channels = (r.s.plci p).channels)
    (hs : (r.s.step e).sent = ms ++ r.s.sent) (hms : ∀ p n, .disconnectB3I p n ∉ ms)
    (ha : ∀ p n, p ≠ 0 → r.awaiting p n = true → answers r.s p n e = false) : Inv (r.step e) := by
  refine ⟨hn, ?_⟩
  intro q h0
  obtain ⟨L, hL⟩ := hi.account q h0
  refine ⟨L, hL.congr ?_ (hq q).1 (hq q).2 (awaiting_keep hs hms q fun n => ha q n h0)⟩
  intro n
  show (r.s.step e).n.a.ncciPlci n = q ↔ r.s.n.a.ncciPlci n = q
  rw [hp]

theorem idle (hi : Inv r) {e : DiscEv} (h : r.s.step e = r.s)
    (ha : ∀ p n, p ≠ 0 → r.awaiting p n = true → answers r.s p n e = false) : Inv (r.step e) := by
  refine hi.keep [] ?_ ?_ ?_ ?_ ?_ ha
  · rw [h]
    exact hi.linked
  · rw [h]
  · intro p
    rw [h]
    exact ⟨rfl, rfl⟩
  · rw [h]
    rfl
  · intro p n hm
    cases hm

theorem connect (hi : Inv r) {p : PlciId} {ch : UInt8} (hc : r.Cond (.connect p ch)) : Inv (r.step (.connect p ch)) := by
  have hp : p.id ≠ 0 := by have := p.pos; omega
  cases hr : DiscSt.refusesConnect (r.s.plci p.id) with
  | true =>
    exact hi.idle (DiscSt.nlConnect_refused hr) fun _ _ _ _ => rfl
  | false =>
    by_cases hch : r.s.n.a.chNcci ch.toNat = 0
    · obtain ⟨h0, n, hn, hnew⟩ := hc hr hch
      obtain ⟨m, hstep, hm⟩ := DiscSt.nlConnect_next hr h0 hch hn
      have hstep : r.s.step (.connect p ch) = _ := hstep
      obtain ⟨hn1, hn2⟩ := NcciSt.nextNcci_some h0 hn
      have hfree := hi.linked.free hn2
      have howner : (r.s.step (.connect p ch)).n.a.ncciPlci = Function.update r.s.n.a.ncciPlci n p.id := by
        rw [hstep]
        show ((r.s.n.assign p.id n).establish n ch.toNat).a.ncciPlci = _
        rw [NcciSt.assign, ringInsert_eq]
        rfl
      have hsent : (r.s.step (.connect p ch)).sent = [m] ++ r.s.sent := by
        rw [hstep]
        rfl
      have hms : ∀ q k, .disconnectB3I q k ∉ [m] := by
        intro q k h
        rw [List.mem_singleton] at h
        exact hm q k h.symm
      refine ⟨?_, ?_⟩
      · show Linked (r.s.step (.connect p ch)).n
        rw [hstep]
        exact hi.linked.take hp h0 hch hn .incConPending (by decide) _ rfl
      · intro q hq
        obtain ⟨L, hL⟩ := hi.account q hq
        have ha := awaiting_keep (r := r) hsent hms q fun _ _ => rfl
        show ∃ L, Account (r.s.step (.connect p ch)).n.a.ncciPlci q ((r.s.step (.connect p ch)).plci q) _ L
        rw [howner]
        by_cases e : q = p.id
        · subst e
          refine ⟨L, (hL.connect hn1 hfree hq hnew).congr (fun _ => Iff.rfl) ?_ ?_ ha⟩
          · rw [hstep]
            exact congrArg DiscPlci.incDisNcciTable (Function.update_self ..)
          · rw [hstep]
            exact congrArg DiscPlci.channels (Function.update_self ..)
        · have hsame : (r.s.step (.connect p ch)).plci q = r.s.plci q := by
            rw [hstep]
            exact Function.update_of_ne e _ _
          rw [hsame]
          refine ⟨L, hL.congr ?_ rfl rfl ha⟩
          intro k
          by_cases ek : k = n
          · rw [ek, Function.update_self, hfree]
            exact iff_of_false (Ne.symm e) (Ne.symm hq)
          · rw [Function.update_of_ne ek]
    · have howned := hi.linked.owned _ hch
      have hst : r.s.n.a.ncciState (r.s.n.a.chNcci ch.toNat) ≠ .idle := fun h => howned ((hi.linked.idle _).1 h)
      obtain ⟨m, hstep, hm⟩ := DiscSt.nlConnect_mapped hr hch hst
      have hstep : r.s.step (.connect p ch) = _ := hstep
      refine hi.keep [m] ?_ ?_ ?_ ?_ ?_ fun _ _ _ _ => rfl
      · rw [hstep]
        exact hi.linked.setState howned (by decide)
      · rw [hstep]
        rfl
      · intro q
        rw [hstep]
        exact ⟨rfl, rfl⟩
      · rw [hstep]
        rfl
      · intro q k h
        rw [List.mem_singleton] at h
        exact hm q k h.symm

/-- A PLCI that counts no connection has no NCCI. -/
theorem unowned (hi : Inv r) {p : Nat} (hp : p ≠ 0) (hc : connected r.s.n.a.ncciPlci p = 0) (m : Nat) :
    r.s.n.a.ncciPlci m ≠ p := by
  intro hm
  have hu := hi.linked.ncci.maps.used m (hm ▸ hp)
  have hpos : 0 < connected r.s.n.a.ncciPlci (r.s.n.a.ncciPlci m) := entries_pos (show m < maxNcci + 1 by omega)
  rw [hm] at hpos
  omega

theorem disc (hi : Inv r) {p : PlciId} {ch : UInt8} (hc : r.Cond (.disc p ch)) : Inv (r.step (.disc p ch)) := by
  have hp : p.id ≠ 0 := by have := p.pos; omega
  cases hr : ((r.s.plci p.id).removing || (r.s.plci p.id).appl.isNone) with
  | true =>
    exact hi.idle (DiscSt.nlDisc_discarded hr) fun _ _ _ _ => rfl
  | false =>
    by_cases hzero : (r.s.plci p.id).channels = 0
    · obtain ⟨L, hL⟩ := hi.account p.id hp
      have hown := hi.unowned hp (by have := hL.channels; omega)
      have hstep : r.s.step (.disc p ch) = _ := DiscSt.nlDisc_uncounted hr hzero
      have ha := (DiscSt.ncciRemove_unowned (s := r.s) (n := r.s.n.a.chNcci ch.toNat) fun m _ => hown m).1
      refine hi.keep [] ?_ ?_ ?_ ?_ ?_ fun _ _ _ _ => rfl
      · rw [hstep]
        exact hi.linked.congr (DiscSt.linked_ncciRemove hi.linked hp _) ha
      · rw [hstep, ha]
      · intro q
        rw [hstep]
        exact ⟨rfl, rfl⟩
      · rw [hstep]
        rfl
      · intro q k h
        cases h
    · obtain ⟨h0, hown, hroom⟩ := hc hr hzero
      obtain ⟨ms, q', hstep, hms, htab, hchan⟩ := DiscSt.nlDisc_counted ch.toNat hr hzero
      have hstep : r.s.step (.disc p ch) = _ := hstep
      generalize r.s.n.a.chNcci ch.toNat = n at h0 hown hstep htab hchan
      have hif : (if n != 0 then n else ch.toNat) = n := if_pos (by simpa using h0)
      rw [hif] at hstep
      have hu := hi.linked.ncci.maps.used n (hown ▸ hp)
      have howner : (r.s.step (.disc p ch)).n.a.ncciPlci = Function.update r.s.n.a.ncciPlci n 0 := by
        rw [hstep]
        exact (NcciSt.ncciRemove_owned (s := (r.s.freeReceiveBuffers p.id n).n) h0 hown).2.2.1
      have hsent : (r.s.step (.disc p ch)).sent = (.disconnectB3I p.id n :: ms) ++ r.s.sent := by
        rw [hstep]
        rfl
      refine ⟨?_, ?_⟩
      · show Linked (r.s.step (.disc p ch)).n
        rw [hstep]
        have hfreed : Linked (r.s.freeReceiveBuffers p.id n).n :=
          hi.linked.congr ⟨hi.linked.ncci.maps, hi.linked.ncci.rings, hi.linked.ncci.returns⟩ rfl
        exact hfreed.remove hp h0 hown
      · intro q hq
        obtain ⟨L, hL⟩ := hi.account q hq
        have haw : ∀ k, (r.step (.disc p ch)).awaiting q k = true ↔ (q = p.id ∧ k = n) ∨ r.awaiting q k = true := by
          intro k
          show (reports r.s (r.s.step (.disc p ch)) q k || (r.awaiting q k && !false)) = true ↔ _
          rw [reports_append hsent, Bool.not_false, Bool.and_true, Bool.or_eq_true, List.contains_iff_mem, List.mem_cons]
          have : DiscMsg.disconnectB3I q k = .disconnectB3I p.id n ↔ q = p.id ∧ k = n := by
            rw [DiscMsg.disconnectB3I.injEq]
          rw [this]
          constructor
          · rintro ((h | h) | h)
            · exact Or.inl h
            · exact absurd h (hms q k)
            · exact Or.inr h
          · rintro (h | h)
            · exact Or.inl (Or.inl h)
            · exact Or.inr h
        show ∃ L, Account (r.s.step (.disc p ch)).n.a.ncciPlci q ((r.s.step (.disc p ch)).plci q) _ L
        rw [howner]
        by_cases e : q = p.id
        · subst e
          have hself : (r.s.step (.disc p ch)).plci p.id = q' := by
            rw [hstep]
            exact Function.update_self ..
          rw [hself]
          refine ⟨L ++ [n], hL.disconnect hp ⟨h0, hu.2.1⟩ hown hroom htab hchan ?_⟩
          intro k
          rw [haw]
          simp only [true_and]
        · have hsame : (r.s.step (.disc p ch)).plci q = r.s.plci q := by
            rw [hstep]
            exact Function.update_of_ne e _ _
          rw [hsame]
          refine ⟨L, hL.congr ?_ rfl rfl ?_⟩
          · intro k
            by_cases ek : k = n
            · rw [ek, Function.update_self, hown]
              exact iff_of_false (Ne.symm hq) (Ne.symm e)
            · rw [Function.update_of_ne ek]
          · intro k
            rw [Bool.eq_iff_iff, haw]
            simp only [e, false_and, false_or]

/-- What the response to an NCCI of the table changes. -/
theorem response_found (hi : Inv r) {p : PlciId} {ncci : UInt16} {L : List Nat}
    (hL : Account r.s.n.a.ncciPlci p.id (r.s.plci p.id) (r.awaiting p.id) L)
    (hr : DiscSt.refusesResponse (r.s.plci p.id) = false) (hn : ncci.toNat ∈ L)
    (hf : tableFind (r.s.plci p.id).incDisNcciTable ncci.toNat < maxChannelsPerPlci) :
    (r.s.step (.response p ncci)).n.a = r.s.n.a ∧ NcciInv (r.s.step (.response p ncci)).n ∧
      (∀ k, ((r.s.step (.response p ncci)).appl k).dataNCCI = (r.s.appl k).dataNCCI) ∧
      (∃ ms, (r.s.step (.response p ncci)).sent = ms ++ r.s.sent ∧ ∀ q k, .disconnectB3I q k ∉ ms) ∧
      ∃ q', (r.s.step (.response p ncci)).plci = Function.update r.s.plci p.id q' ∧
        q'.incDisNcciTable = tableRemove (r.s.plci p.id).incDisNcciTable (tableFind (r.s.plci p.id).incDisNcciTable ncci.toNat) ∧
        q'.channels = (r.s.plci p.id).channels - 1 := by
  have hp : p.id ≠ 0 := by have := p.pos; omega
  have h0 := (hL.released _ hn).1.1
  have hinv : NcciInv (r.s.respond p.id ncci.toNat).n :=
    ⟨hi.linked.ncci.maps, hi.linked.ncci.rings, hi.linked.ncci.returns⟩
  have happl := DiscSt.freeReceiveBuffers_unowned (n := ncci.toNat) (p := p.id)
    (s := r.s.setPlci p.id (DiscSt.dropChannel { r.s.plci p.id with
      incDisNcciTable := tableRemove (r.s.plci p.id).incDisNcciTable (tableFind (r.s.plci p.id).incDisNcciTable ncci.toNat) }))
    (by
      intro m hm
      rw [Names, if_neg h0] at hm
      rw [hm]
      exact (hL.released _ hn).2)
  rcases DiscSt.disconnectB3Res_found hr h0 hf with hstep | ⟨hone, ms, hms, hstep⟩
  · have hstep : r.s.step (.response p ncci) = _ := hstep
    rw [hstep]
    exact ⟨rfl, hinv, happl, ⟨[], rfl, fun _ _ h => by cases h⟩, _, rfl, rfl, rfl⟩
  · have hstep : r.s.step (.response p ncci) = _ := hstep
    have hpos := List.length_pos_of_mem hn
    have hown := hi.unowned hp (by have := hL.channels; omega)
    have hrem := DiscSt.ncciRemove_unowned (n := 0)
      (s := { r.s.respond p.id ncci.toNat with sent := ms ++ (r.s.respond p.id ncci.toNat).sent }) fun m _ => hown m
    have hinv' := DiscSt.linked_ncciRemove (n := 0)
      (s := { r.s.respond p.id ncci.toNat with sent := ms ++ (r.s.respond p.id ncci.toNat).sent })
      (hi.linked.congr hinv rfl) hp
    rw [hstep]
    refine ⟨hrem.1, hinv', ?_, ⟨ms, rfl, hms⟩, ?_⟩
    · intro k
      exact (hrem.2 k).trans (happl k)
    · refine ⟨_, Function.update_idem .., ?_, hone.symm⟩
      show (Function.update r.s.plci p.id _ p.id).incDisNcciTable = _
      rw [Function.update_self]
      rfl

theorem response (hi : Inv r) {p : PlciId} {ncci : UInt16} (hc : r.Cond (.response p ncci)) :
    Inv (r.step (.response p ncci)) := by
  have hp : p.id ≠ 0 := by have := p.pos; omega
  obtain ⟨L, hL⟩ := hi.account p.id hp
  have hlen : (r.s.plci p.id).incDisNcciTable.length = maxChannelsPerPlci := by
    rw [hL.table, length_padded hL.room]
  by_cases hf : DiscSt.refusesResponse (r.s.plci p.id) = false ∧ ncci.toNat ≠ 0 ∧
      tableFind (r.s.plci p.id).incDisNcciTable ncci.toNat < maxChannelsPerPlci
  · obtain ⟨hr, h0, hlt⟩ := hf
    have hmem : ncci.toNat % 256 ∈ (r.s.plci p.id).incDisNcciTable := tableFind_lt (by omega)
    have hb := hc hmem
    rw [Nat.mod_eq_of_lt hb, hL.table, mem_padded h0] at hmem
    obtain ⟨ha, hinv, -, ⟨ms, hsent, hms⟩, q', hplci, htab, hchan⟩ := hi.response_found hL hr hmem hlt
    refine ⟨hi.linked.congr hinv ha, ?_⟩
    intro q hq
    show ∃ L, Account (r.s.step (.response p ncci)).n.a.ncciPlci q ((r.s.step (.response p ncci)).plci q) _ L
    rw [ha, hplci]
    by_cases e : q = p.id
    · subst e
      rw [Function.update_self]
      refine ⟨L.erase ncci.toNat, hL.respond hmem htab hchan ?_⟩
      intro k
      show (reports r.s (r.s.step (.response p ncci)) p.id k ||
        (r.awaiting p.id k && !(p.id == p.id && ncci.toNat == k && !DiscSt.refusesResponse (r.s.plci p.id)))) = true ↔ _
      rw [reports_none hsent hms, hr]
      rw [Bool.false_or, beq_self_eq_true, Bool.true_and, Bool.not_false, Bool.and_true, Bool.and_eq_true, Bool.not_eq_true',
        beq_eq_false_iff_ne, and_comm, ne_comm]
    · rw [Function.update_of_ne e]
      obtain ⟨L', hL'⟩ := hi.account q hq
      refine ⟨L', hL'.congr (fun _ => Iff.rfl) rfl rfl (awaiting_keep hsent hms q ?_)⟩
      intro k _
      show (p.id == q && ncci.toNat == k && !DiscSt.refusesResponse (r.s.plci q)) = false
      rw [show (p.id == q) = false by simpa using Ne.symm e, Bool.false_and, Bool.false_and]
  · refine hi.idle ?_ ?_
    · exact DiscSt.disconnectB3Res_other hf
    · -- What is awaited is in the table.
      intro q k hq hw
      rw [Bool.eq_false_iff]
      intro ha
      have ha : (p.id == q && ncci.toNat == k && !DiscSt.refusesResponse (r.s.plci q)) = true := ha
      rw [Bool.and_eq_true, Bool.and_eq_true, beq_iff_eq, beq_iff_eq] at ha
      obtain ⟨⟨rfl, rfl⟩, hr⟩ := ha
      have hmem := (hL.awaited _).2 hw
      have hrel := (hL.released _ hmem).1
      have hb : ncci.toNat < 256 := by
        have : maxNcci = 127 := rfl
        omega
      refine hf ⟨by simpa using hr, hrel.1, ?_⟩
      rw [hL.table, tableFind_padded hmem hb]
      have := List.idxOf_lt_length_of_mem hmem
      have := hL.room
      omega

theorem step (hi : Inv r) {e : DiscEv} (hc : r.Cond e) : Inv (r.step e) := by
  cases e with
  | connect p ch => exact hi.connect hc
  | disc p ch => exact hi.disc hc
  | response p ncci => exact hi.response hc
  | plciState p state assigning removing appl sendDisc =>
    refine hi.keep [] hi.linked rfl ?_ rfl (fun _ _ h => by cases h) fun _ _ _ _ => rfl
    intro q
    show (Function.update r.s.plci p.id _ q).incDisNcciTable = _ ∧ (Function.update r.s.plci p.id _ q).channels = _
    by_cases e : q = p.id
    · rw [e, Function.update_self]
      exact ⟨rfl, rfl⟩
    · rw [Function.update_of_ne e]
      exact ⟨rfl, rfl⟩
  | ncciState n state =>
    by_cases h : (r.s.n.a.ncciState n == .idle || state == .idle) = true
    · refine hi.idle ?_ fun _ _ _ _ => rfl
      exact if_pos h
    · have hstep : r.s.step (.ncciState n state) = r.s.setNcciState n state := if_neg h
      rw [Bool.or_eq_true, not_or, beq_iff_eq, beq_iff_eq] at h
      have hown : r.s.n.a.ncciPlci n ≠ 0 := fun h0 => h.1 ((hi.linked.idle n).2 h0)
      refine hi.keep [] ?_ ?_ ?_ ?_ (fun _ _ h => by cases h) fun _ _ _ _ => rfl
      · rw [hstep]
        exact hi.linked.setState hown h.2
      · rw [hstep]
        rfl
      · intro q
        rw [hstep]
        exact ⟨rfl, rfl⟩
      · rw [hstep]
        rfl
  | buffers appl => exact hi.keep [] hi.linked rfl (fun _ => ⟨rfl, rfl⟩) rfl (fun _ _ h => by cases h) fun _ _ _ _ => rfl

theorem init {s : DiscSt} (h : s.Init) : Inv ⟨s, fun _ _ => false⟩ := by
  refine ⟨⟨init_ncciInv h.ncci, fun n hn => absurd (h.ncci.ncciPlci n) hn, fun ch hc => absurd (h.ncci.chNcci ch) hc, ?_⟩, ?_⟩
  · intro n
    exact iff_of_true (h.ncciState n) (h.ncci.ncciPlci n)
  · intro p hp
    refine ⟨[], h.table p, Nat.zero_le _, List.nodup_nil, ?_, ?_, ?_⟩
    · intro n
      exact iff_of_false List.not_mem_nil Bool.false_ne_true
    · intro n hn
      cases hn
    · have hnone : connected s.n.a.ncciPlci p = 0 := by
        refine entries_eq_zero ?_
        intro n _
        rw [h.ncci.ncciPlci n]
        exact Ne.symm hp
      show (s.plci p).channels = connected s.n.a.ncciPlci p + 0
      rw [hnone, h.channels p]

end Inv

/-! ## The accounting -/

/-- The table has different NCCIs and then zeros. What is awaited is in it once, and
    `channels` counts its NCCIs and the connected ones. -/
structure Accounted (r : DiscRun) (p : Nat) : Prop where
  table : ∃ L, (r.s.plci p).incDisNcciTable = padded L ∧ L.length ≤ maxChannelsPerPlci ∧ L.Nodup ∧ 0 ∉ L
  awaited : ∀ n, r.awaiting p n = true → (r.s.plci p).incDisNcciTable.count n = 1
  channels : (r.s.plci p).channels = connected r.s.n.a.ncciPlci p + tableEnd (r.s.plci p).incDisNcciTable

/-- N_DISC or N_DISC_ACK on a channel leaves the mapping of the others. -/
def OthersMapped (s : DiscSt) (p : PlciId) (ch : UInt8) : Prop :=
  ∀ c, c ≠ ch.toNat → (s.step (.disc p ch)).n.a.chNcci c = s.n.a.chNcci c

/-- The response frees no receive buffer. -/
def FreesNothing (s : DiscSt) (p : PlciId) (ncci : UInt16) : Prop :=
  ∀ k, ((s.step (.response p ncci)).appl k).dataNCCI = (s.appl k).dataNCCI

namespace Inv

variable {r : DiscRun}

theorem accounted (hi : Inv r) {p : Nat} (hp : p ≠ 0) : r.Accounted p := by
  obtain ⟨L, hL⟩ := hi.account p hp
  refine ⟨⟨L, hL.table, hL.room, hL.nodup, hL.zero_not_mem⟩, fun n hn => hL.count_eq_one hn, ?_⟩
  rw [hL.channels, hL.table, tableEnd_padded hL.zero_not_mem]

theorem othersMapped (hi : Inv r) {p : PlciId} {ch : UInt8} (hc : r.Cond (.disc p ch)) : OthersMapped r.s p ch := by
  intro c hcne
  have hp : p.id ≠ 0 := by have := p.pos; omega
  cases hr : ((r.s.plci p.id).removing || (r.s.plci p.id).appl.isNone) with
  | true =>
    have hstep : r.s.step (.disc p ch) = r.s := DiscSt.nlDisc_discarded hr
    rw [hstep]
  | false =>
    by_cases hzero : (r.s.plci p.id).channels = 0
    · obtain ⟨L, hL⟩ := hi.account p.id hp
      have hown := hi.unowned hp (by have := hL.channels; omega)
      have hstep : r.s.step (.disc p ch) = _ := DiscSt.nlDisc_uncounted hr hzero
      rw [hstep, (DiscSt.ncciRemove_unowned (s := r.s) fun m _ => hown m).1]
    · obtain ⟨h0, hown, -⟩ := hc hr hzero
      obtain ⟨ms, q', hstep, -⟩ := DiscSt.nlDisc_counted ch.toNat hr hzero
      have hstep : r.s.step (.disc p ch) = _ := hstep
      have hch := (NcciSt.ncciRemove_owned (s := (r.s.freeReceiveBuffers p.id (r.s.n.a.chNcci ch.toNat)).n) h0 hown).1
      have hback : r.s.n.a.ncciCh (r.s.n.a.chNcci ch.toNat) = ch.toNat := (hi.linked.ncci.maps.inverse _ h0).2
      rw [hstep]
      show ((r.s.freeReceiveBuffers p.id (r.s.n.a.chNcci ch.toNat)).n.ncciRemove p.id (r.s.n.a.chNcci ch.toNat) false).a.chNcci
        c = _
      rw [hch]
      show Function.update r.s.n.a.chNcci (r.s.n.a.ncciCh (r.s.n.a.chNcci ch.toNat)) 0 c = _
      rw [hback, Function.update_of_ne hcne]

theorem freesNothing (hi : Inv r) {p : PlciId} {ncci : UInt16} (hc : r.Cond (.response p ncci)) : FreesNothing r.s p ncci := by
  have hp : p.id ≠ 0 := by have := p.pos; omega
  obtain ⟨L, hL⟩ := hi.account p.id hp
  by_cases hf : DiscSt.refusesResponse (r.s.plci p.id) = false ∧ ncci.toNat ≠ 0 ∧
      tableFind (r.s.plci p.id).incDisNcciTable ncci.toNat < maxChannelsPerPlci
  · obtain ⟨hr, h0, hlt⟩ := hf
    have hmem : ncci.toNat % 256 ∈ (r.s.plci p.id).incDisNcciTable := by
      refine tableFind_lt ?_
      rw [hL.table, length_padded hL.room, ← hL.table]
      exact hlt
    rw [Nat.mod_eq_of_lt (hc hmem), hL.table, mem_padded h0] at hmem
    exact (hi.response_found hL hr hmem hlt).2.2.1
  · intro k
    have hstep : r.s.step (.response p ncci) = r.s := DiscSt.disconnectB3Res_other hf
    rw [hstep]

end Inv

theorem disconnect_accounting {s : DiscSt} (hinit : s.Init) (es : List DiscEv) (h : Along step Cond ⟨s, fun _ _ => false⟩ es) :
    (∀ p : PlciId, (run step ⟨s, fun _ _ => false⟩ es).Accounted p.id) ∧
      (∀ p ch, (run step ⟨s, fun _ _ => false⟩ es).Cond (.disc p ch) → OthersMapped (run step ⟨s, fun _ _ => false⟩ es).s p ch) ∧
      ∀ p ncci, (run step ⟨s, fun _ _ => false⟩ es).Cond (.response p ncci) →
        FreesNothing (run step ⟨s, fun _ _ => false⟩ es).s p ncci := by
  have hi : Inv (run step ⟨s, fun _ _ => false⟩ es) :=
    Along.invariant step (I := Inv) (fun _ _ hi hc => hi.step hc) (.init hinit) h
  refine ⟨?_, fun p ch hc => hi.othersMapped hc, fun p ncci hc => hi.freesNothing hc⟩
  intro p
  exact hi.accounted (by have := p.pos; omega)

/-! ## Runs -/

/-- PLCIs that an application has, without connections. -/
def noConnections : DiscSt where
  n := emptyNcci
  appl _ := ⟨⟨2, fun _ => 0, fun _ => 0⟩, 2, 0, 0⟩
  plci _ := ⟨.connected, false, some 1, false, 3, 0, 0, List.replicate maxChannelsPerPlci 0⟩
  sent := []

theorem noConnections_init : noConnections.Init := ⟨emptyNcci_init, fun _ => rfl, fun _ => rfl, fun _ => rfl, rfl⟩

/-- Two connections; one is disconnected, and the application answers twice. -/
def answeredTwice : List DiscEv := [.connect plci1 1, .connect plci1 2, .disc plci1 2, .response plci1 2, .response plci1 2]

theorem disconnect_accounting_answered : (run step ⟨noConnections, fun _ _ => false⟩ answeredTwice).Accounted plci1.id := by
  refine (disconnect_accounting noConnections_init answeredTwice ?_).1 plci1
  refine ⟨?_, ?_, ?_, ?_, ?_, trivial⟩
  · exact fun _ _ => ⟨by decide, 1, by decide +kernel, by decide +kernel⟩
  · exact fun _ _ => ⟨by decide, 2, by decide +kernel, by decide +kernel⟩
  · exact fun _ _ => ⟨by decide +kernel, by decide +kernel, by decide +kernel⟩
  · exact fun _ => by decide
  · exact fun _ => by decide

/-- N_DISC comes twice on channel 2, or the channel is connected again before the response. -/
theorem disconnect_accounting_fails :
    noConnections.Init ∧
      ¬ OthersMapped (run step ⟨noConnections, fun _ _ => false⟩ [.connect plci1 1, .connect plci1 2, .disc plci1 2]).s plci1 2 ∧
      ¬ (run step ⟨noConnections, fun _ _ => false⟩ [.connect plci1 2, .disc plci1 2, .connect plci1 2, .disc plci1 2]).Accounted
          plci1.id := by
  refine ⟨noConnections_init, ?_, ?_⟩
  · intro h
    have := h 1 (by decide)
    revert this
    decide +kernel
  · intro h
    have := h.awaited 2 (by decide +kernel)
    revert this
    decide +kernel

end DiscRun

end Divas.Capi
