/-
  Divas.Capi.ReceiveBuffers — who a receive buffer belongs to.

  `awaiting` says for each buffer which NCCI has been told of it and has not answered; it is
  set when a DATA_B3_I is sent and ends with the response of that NCCI or its cleanup. In
  runs where no NCCI is cleaned up between the two steps of an indication, and its channel
  keeps it, a buffer that is awaited is assigned to the NCCI that it is awaited from
  (`receive_buffers`). After a cleanup between the steps the buffer is free, or another
  NCCI's, when the application is told of it (`receive_buffers_cleanup`).
-/

import Mathlib.Data.Nat.Bitwise
import Divas.Capi.Receive

namespace Divas.Capi

open Divas.Lib.Loop Divas.Lib.Run Divas.Lib.Entries

/-! ## Codes -/

theorem ncciCode_eq {id ncci : Nat} (h : ncci < 256) : ncciCode id ncci = id * 256 + ncci :=
  calc ncciCode id ncci = 2 ^ 8 * id ||| ncci := by rw [ncciCode, Nat.or_comm, Nat.shiftLeft_eq, Nat.mul_comm]
    _ = 2 ^ 8 * id + ncci := (Nat.two_pow_add_eq_or_of_lt h id).symm
    _ = id * 256 + ncci := by omega

theorem ncciCode_inj {id id' ncci ncci' : Nat} (h : ncci < 256) (h' : ncci' < 256)
    (he : ncciCode id ncci = ncciCode id' ncci') : id = id' ∧ ncci = ncci' := by
  rw [ncciCode_eq h, ncciCode_eq h'] at he
  omega

theorem ncciCode_pos {id ncci : Nat} (hid : 0 < id) (h : ncci < 256) : ncciCode id ncci ≠ 0 := by
  rw [ncciCode_eq h]
  omega

theorem reported_eq (f : Nat) : reported f = f.testBit 4 := by
  have h : f &&& 0x10 = 2 ^ 4 * (f.testBit 4).toNat := by
    rw [Nat.and_comm]
    exact Nat.two_pow_and f 4
  rw [reported, h]
  cases f.testBit 4 <;> rfl

/-- The flags of a buffer that is handed out. -/
theorem flags_assigned {p ind : Nat} (hp : p < 256) (hind : ind < 256) :
    flagsPlci (p <<< 8 ||| ind >>> 4) = p ∧ reported (p <<< 8 ||| ind >>> 4) = false := by
  have hlow : ind >>> 4 < 16 := by
    rw [Nat.shiftRight_eq_div_pow]
    omega
  have hsum : p <<< 8 ||| ind >>> 4 = 2 ^ 8 * p + ind >>> 4 := by
    rw [Nat.shiftLeft_eq, Nat.mul_comm]
    exact (Nat.two_pow_add_eq_or_of_lt (by omega) p).symm
  constructor
  · rw [flagsPlci, hsum, Nat.shiftRight_eq_div_pow]
    omega
  · rw [reported_eq, hsum, Nat.testBit_eq_decide_div_mod_eq]
    have hbit : (2 ^ 8 * p + ind >>> 4) / 2 ^ 4 % 2 = 0 := by omega
    rw [hbit]
    rfl

/-- Reporting a buffer keeps its PLCI. -/
theorem flags_report (f : Nat) : flagsPlci (f ||| 0x10) = flagsPlci f ∧ reported (f ||| 0x10) = true := by
  constructor
  · have hshift : (0x10 : Nat) >>> 8 = 0 := rfl
    rw [flagsPlci, Nat.shiftRight_or_distrib, hshift, Nat.or_zero, flagsPlci]
  · have hbit : (0x10 : Nat).testBit 4 = true := rfl
    rw [reported_eq, Nat.testBit_or, hbit, Bool.or_true]

/-! ## Cleaning up -/

/-- The call is for this NCCI, or for all. -/
def Names (ncci n : Nat) : Prop := if ncci = 0 then 1 ≤ n ∧ n < maxNcci + 1 else n = ncci

instance (ncci n : Nat) : Decidable (Names ncci n) := inferInstanceAs (Decidable (ite ..))

/-- The entry is of an NCCI that is cleaned up. -/
def Freed (t : RxAppl) (a : Adapter) (p : Nat) (ns : Nat → Prop) (i : Nat) : Prop :=
  i < t.maxBuffer ∧ flagsPlci (t.dataFlags i) = p ∧ ∃ n, a.ncciPlci n = p ∧ ns n ∧ t.dataNCCI i = ncciCode a.id n

/-- A table after a cleanup: some entries are 0, and the rest is as before. -/
structure FreedFrom (t t' : RxAppl) (a : Adapter) (p : Nat) (ns : Nat → Prop) : Prop where
  dataFlags : t'.dataFlags = t.dataFlags
  maxBuffer : t'.maxBuffer = t.maxBuffer
  maxNcciData : t'.maxNcciData = t.maxNcciData
  freed : ∀ i, Freed t a p ns i → t'.dataNCCI i = 0
  kept : ∀ i, ¬ Freed t a p ns i → t'.dataNCCI i = t.dataNCCI i

namespace FreedFrom

variable {t t' : RxAppl} {a : Adapter} {p : Nat} {ns : Nat → Prop}

theorem none (h : ∀ n, ¬ ns n) : FreedFrom t t a p ns := by
  refine ⟨rfl, rfl, rfl, ?_, fun _ _ => rfl⟩
  rintro i ⟨-, -, n, -, hn, -⟩
  exact absurd hn (h n)

theorem congr {ns' : Nat → Prop} (h : FreedFrom t t' a p ns) (he : ∀ n, ns n ↔ ns' n) : FreedFrom t t' a p ns' := by
  have hset : ns = ns' := funext fun n => propext (he n)
  rwa [← hset]

end FreedFrom

/-- One NCCI more. -/
theorem freeTurn_freed {t t' : RxAppl} {a : Adapter} {p : Nat} {ns : Nat → Prop} {bug : Nat}
    (h : FreedFrom t t' a p ns) (n : Nat) :
    FreedFrom t (freeTurn true a p n (t', bug)).1 a p fun k => ns k ∨ k = n := by
  have hmono : ∀ i, Freed t a p ns i → Freed t a p (fun k => ns k ∨ k = n) i := by
    rintro i ⟨h1, h2, k, h3, h4, h5⟩
    exact ⟨h1, h2, k, h3, .inl h4, h5⟩
  unfold freeTurn
  by_cases hp : a.ncciPlci n = p
  · rw [if_pos (beq_iff_eq.mpr hp), if_pos rfl]
    refine ⟨h.dataFlags, h.maxBuffer, h.maxNcciData, ?_, ?_⟩
    · intro i hi
      obtain ⟨h1, h2, k, h3, h4, h5⟩ := hi
      dsimp only [RxAppl.freeNcci]
      by_cases hf : Freed t a p ns i
      · rw [h.freed i hf, ite_self]
      · have hk : k = n := by
          rcases h4 with h4 | h4
          · exact absurd ⟨h1, h2, k, h3, h4, h5⟩ hf
          · exact h4
        rw [h.kept i hf, h.maxBuffer, h.dataFlags, if_pos ⟨h1, hk ▸ h5, h2⟩]
    · intro i hi
      have hf : ¬ Freed t a p ns i := fun hf => hi (hmono i hf)
      dsimp only [RxAppl.freeNcci]
      rw [h.kept i hf, h.maxBuffer, h.dataFlags, if_neg]
      rintro ⟨h1, h2, h3⟩
      exact hi ⟨h1, h3, n, hp, .inr rfl, h2⟩
  · rw [if_neg (by simpa using hp)]
    refine ⟨h.dataFlags, h.maxBuffer, h.maxNcciData, ?_, ?_⟩
    · rintro i ⟨h1, h2, k, h3, h4, h5⟩
      rcases h4 with h4 | rfl
      · exact h.freed i ⟨h1, h2, k, h3, h4, h5⟩
      · exact absurd h3 hp
    · intro i hi
      exact h.kept i fun hf => hi (hmono i hf)

theorem ncciFreeReceiveBuffers_freed (t : RxAppl) (a : Adapter) (p ncci bug : Nat) :
    FreedFrom t (ncciFreeReceiveBuffers true a p ncci (t, bug)).1 a p (Names ncci) := by
  unfold ncciFreeReceiveBuffers
  by_cases h0 : ncci = 0
  · subst h0
    have hloop : ∀ k s, FreedFrom t s.1 a p (fun n => 1 ≤ n ∧ n < 1 + k) →
        FreedFrom t (freeTurn true a p (1 + k) s).1 a p (fun n => 1 ≤ n ∧ n < 1 + (k + 1)) := by
      intro k s h
      exact (freeTurn_freed h (1 + k)).congr fun n => by omega
    have hall := forTo_invariant (n := maxNcci) (b := fun k => freeTurn true a p (1 + k)) (s := (t, bug))
      (I := fun k s => FreedFrom t s.1 a p fun n => 1 ≤ n ∧ n < 1 + k) (.none fun n => by omega) fun k s _ => hloop k s
    refine hall.congr ?_
    intro n
    rw [Names, if_pos rfl, Nat.add_comm 1]
  · rw [if_pos (by simpa using h0)]
    have hfirst : FreedFrom t t a p fun _ => False := .none fun _ => id
    refine (freeTurn_freed hfirst ncci).congr ?_
    intro n
    rw [Names, if_neg h0, false_or]

theorem ncciFreeReceiveBuffers_null (t : RxAppl) (a : Adapter) (p ncci bug : Nat) :
    (ncciFreeReceiveBuffers false a p ncci (t, bug)).1 = t := by
  have hturn : ∀ n s, (freeTurn false a p n s).1 = s.1 := by
    intro n s
    unfold freeTurn
    split <;> rfl
  unfold ncciFreeReceiveBuffers
  split
  · exact hturn ncci (t, bug)
  · exact forTo_keep (s := (t, bug)) (I := fun s => s.1 = t) rfl fun k s h => (hturn (1 + k) s).trans h

/-! ## What stays -/

namespace RxSt

/-- The tables, the mapping and the packets under way are the same. -/
structure Same (s s' : RxSt) : Prop where
  dataNCCI : s'.appl.dataNCCI = s.appl.dataNCCI
  dataFlags : s'.appl.dataFlags = s.appl.dataFlags
  maxBuffer : s'.appl.maxBuffer = s.appl.maxBuffer
  maxNcciData : s'.appl.maxNcciData = s.appl.maxNcciData
  adapters : s'.adapters = s.adapters
  receiving : ∀ a p, (s'.plci a p).receiving = (s.plci a p).receiving
  rNum : ∀ a p, (s'.plci a p).rNum = (s.plci a p).rNum
  sent : s'.sent = s.sent

namespace Same

variable {s s' s'' : RxSt}

theorem refl (s : RxSt) : Same s s := ⟨rfl, rfl, rfl, rfl, rfl, fun _ _ => rfl, fun _ _ => rfl, rfl⟩

theorem trans (h : Same s s') (h' : Same s' s'') : Same s s'' where
  dataNCCI := h'.dataNCCI.trans h.dataNCCI
  dataFlags := h'.dataFlags.trans h.dataFlags
  maxBuffer := h'.maxBuffer.trans h.maxBuffer
  maxNcciData := h'.maxNcciData.trans h.maxNcciData
  adapters := h'.adapters.trans h.adapters
  receiving a p := (h'.receiving a p).trans (h.receiving a p)
  rNum a p := (h'.rNum a p).trans (h.rNum a p)
  sent := h'.sent.trans h.sent

end Same

theorem setPlci_plci (s : RxSt) (a p a' p' : Nat) (r : RxPlci) :
    (s.setPlci a p r).plci a' p' = if a' = a ∧ p' = p then r else s.plci a' p' := by
  dsimp only [setPlci]
  by_cases ha : a' = a
  · subst ha
    rw [Function.update_self]
    by_cases hp : p' = p
    · subst hp
      rw [Function.update_self, if_pos ⟨rfl, rfl⟩]
    · rw [Function.update_of_ne hp, if_neg fun h => hp h.2]
  · rw [Function.update_of_ne ha, if_neg fun h => ha h.1]

theorem same_setFlow (s : RxSt) (a : Nat) (f : Flow) : Same s (s.setFlow a f) :=
  ⟨rfl, rfl, rfl, rfl, rfl, fun _ _ => rfl, fun _ _ => rfl, rfl⟩

theorem same_setNl (s : RxSt) (a p : Nat) (n : PlciNl) : Same s (s.setNl a p n) :=
  ⟨rfl, rfl, rfl, rfl, rfl, fun _ _ => rfl, fun _ _ => rfl, rfl⟩

theorem same_setRnr (s : RxSt) (a p rnr : Nat) : Same s (s.setRnr a p rnr) := by
  refine ⟨rfl, rfl, rfl, rfl, rfl, ?_, ?_, rfl⟩
  · intro a' p'
    rw [setRnr, setPlci_plci]
    split
    · rename_i h
      rw [h.1, h.2]
    · rfl
  · intro a' p'
    rw [setRnr, setPlci_plci]
    split
    · rename_i h
      rw [h.1, h.2]
    · rfl

theorem same_refuse (s : RxSt) (a p ch : Nat) : Same s (s.refuse a p ch) :=
  (same_setRnr s a p 1).trans (same_setFlow _ a _)

theorem same_noBuffer (s : RxSt) (a p ch : Nat) : Same s (s.noBuffer a p ch) := by
  have htimer : Same s (s.setAppl { s.appl with ncciDataFlowCtrlTimer := (s.appl.ncciDataFlowCtrlTimer + 1) % 65536 }) :=
    ⟨rfl, rfl, rfl, rfl, rfl, fun _ _ => rfl, fun _ _ => rfl, rfl⟩
  unfold noBuffer
  dsimp only
  split
  · exact htimer.trans (same_setRnr _ a p 2)
  · exact htimer.trans (same_refuse _ a p ch)

theorem same_channelXmitXon (s : RxSt) (a p : Nat) : Same s (s.channelXmitXon a p) := by
  unfold channelXmitXon
  dsimp only
  split
  · exact .refl s
  · split
    · exact same_setFlow s a _
    · exact (same_setFlow s a _).trans (same_setNl _ a p _)

theorem same_channelXmitExtendedXon (s : RxSt) (a p : Nat) : Same s (s.channelXmitExtendedXon a p) := by
  unfold channelXmitExtendedXon
  dsimp only
  split
  · exact (same_setFlow s a _).trans (same_channelXmitXon _ a p)
  · exact .refl s

theorem same_nlReqNcci (s : RxSt) (a p : Nat) (req : UInt8) (ncci : Nat) : Same s (s.nlReqNcci a p req ncci) := by
  unfold nlReqNcci
  split
  · exact .refl s
  · exact same_setNl s a p _

theorem same_resumeXon (s : RxSt) (a p ch : Nat) : Same s (s.resumeXon a p ch) := by
  unfold resumeXon
  split
  · exact (same_setFlow s a _).trans (same_channelXmitXon _ a p)
  · exact same_channelXmitXon s a p

/-- A response that a buffer waits for releases it, and no more. -/
theorem dataB3Res_release {s : RxSt} {a p ncci num : Nat} (h0 : ncci ≠ 0) (h : s.Answers a p ncci num) :
    Same (s.setAppl (s.appl.release num)) (s.dataB3Res a p ncci num) := by
  unfold dataB3Res
  rw [if_neg h0, if_pos h]
  dsimp only
  split
  · exact (same_resumeXon _ a p _).trans (same_nlReqNcci _ a p nDataAck ncci)
  · exact same_resumeXon _ a p _

/-- Any other response is counted at most. -/
theorem dataB3Res_other {s : RxSt} {a p ncci num : Nat} (h : ncci = 0 ∨ ¬ s.Answers a p ncci num) :
    ∃ bad, s.dataB3Res a p ncci num = s.setAppl { s.appl with badDataB3Resp := bad } := by
  unfold dataB3Res
  split
  · exact ⟨s.appl.badDataB3Resp, rfl⟩
  · rename_i h0
    rw [if_neg (h.resolve_left h0)]
    split
    · exact ⟨_, rfl⟩
    · exact ⟨s.appl.badDataB3Resp, rfl⟩

/-- A packet is refused, or it gets the first free buffer. -/
theorem nlIndData_cases (s : RxSt) (a p ch : Nat) (ind : DataInd) (rLength header : Nat) :
    Same s (s.nlIndData a p ch ind rLength header) ∨
      ∃ num r, s.appl.firstFree = some num ∧ s.appl.count (ncciCode a ((s.adapter a).chNcci ch)) < s.appl.maxNcciData ∧
        (s.adapter a).ncciState ((s.adapter a).chNcci ch) ≠ .idle ∧ r.rNum = num ∧ r.receiving = some ch ∧
        s.nlIndData a p ch ind rLength header
          = (s.setAppl (s.appl.assign num (ncciCode a ((s.adapter a).chNcci ch)) (p <<< 8 ||| ind.ind >>> 4))).setPlci a p r := by
  unfold nlIndData
  dsimp only
  split
  · exact .inl (same_setRnr s a p 2)
  · split
    · exact .inl (same_setRnr s a p 2)
    · rename_i hstate
      split
      · exact .inl (same_refuse s a p ch)
      · split
        · rename_i num hfree
          split
          · exact .inl (same_noBuffer s a p ch)
          · rename_i hcount
            refine .inr ⟨num, _, hfree, by omega, ?_, rfl, rfl, rfl⟩
            intro hidle
            simp [hidle] at hstate
        · exact .inl (same_noBuffer s a p ch)

theorem firstFree_some {t : RxAppl} {num : Nat} (h : t.firstFree = some num) : num < t.maxBuffer ∧ t.dataNCCI num = 0 := by
  unfold RxAppl.firstFree at h
  have hfree := List.find?_some h
  exact ⟨List.mem_range.mp (List.mem_of_find?_eq_some h), by simpa using hfree⟩

/-- The second step tells the application of the buffer. -/
theorem nlIndComplete_cases (s : RxSt) (a p first second rBuffers : Nat) :
    (Same s (s.nlIndComplete a p first second rBuffers) ∧ (s.plci a p).receiving = none) ∨
      ∃ ch r, (s.plci a p).receiving = some ch ∧ r.rNum = (s.plci a p).rNum ∧ r.receiving = none ∧
        (s.nlIndComplete a p first second rBuffers = s.setPlci a p r ∨
          ∃ m, m.adapter = a ∧ m.plci = p ∧ m.number = (s.plci a p).rNum ∧
            ((s.adapter a).chNcci ch ≠ 0 → m.ncci = (s.adapter a).chNcci ch) ∧
            s.nlIndComplete a p first second rBuffers
              = { (s.setPlci a p r).setAppl (s.appl.report (s.plci a p).rNum) with sent := m :: s.sent }) := by
  unfold nlIndComplete
  dsimp only
  split
  · rename_i hr
    exact .inl ⟨.refl s, hr⟩
  · rename_i ch hr
    refine .inr ?_
    split
    · refine ⟨ch, { s.plci a p with receiving := none, rBuffers := rBuffers, rnr := 2 }, hr, rfl, rfl, .inl ?_⟩
      unfold setRnr
      rw [setPlci_plci, if_pos ⟨rfl, rfl⟩]
      unfold setPlci
      simp
    · refine ⟨ch, { s.plci a p with receiving := none, rBuffers := rBuffers }, hr, rfl, rfl, .inr ⟨_, rfl, rfl, rfl, ?_, rfl⟩⟩
      intro hn
      exact if_pos (bne_iff_ne.mpr hn)

end RxSt

/-! ## Runs with what is awaited -/

namespace RxSt

/-- The NCCI is the PLCI's, and the call cleans it up. -/
def Cleans (s : RxSt) (a p ncci n : Nat) : Prop := (s.nl a p).hasAppl = true ∧ (s.adapter a).ncciPlci n = p ∧ Names ncci n

instance (s : RxSt) (a p ncci n : Nat) : Decidable (s.Cleans a p ncci n) := inferInstanceAs (Decidable (_ ∧ _ ∧ _))

/-- The DATA_B3_I that a step sends. -/
def tells (s : RxSt) (e : RxEv) : Option DataB3I :=
  if (s.step e).sent.length = s.sent.length then none else (s.step e).sent.head?

/-- The buffer that a step hands out. -/
def handsOut (s : RxSt) : RxEv → Option Nat
  | .data a p ch ind rLength header =>
    let s' := s.step (.data a p ch ind rLength header)
    if (s.plci a.id p.id).receiving.isNone && (s'.plci a.id p.id).receiving.isSome then some (s'.plci a.id p.id).rNum else none
  | _ => none

end RxSt

structure RxRun where
  s : RxSt
  /-- Adapter, PLCI and NCCI that have been told of a buffer and have not answered. -/
  awaiting : Nat → Option (Nat × Nat × Nat)

namespace RxRun

def step (r : RxRun) (e : RxEv) : RxRun where
  s := r.s.step e
  awaiting :=
    match e with
    | .complete .. =>
      match r.s.tells e with
      | some m => Function.update r.awaiting m.number (some (m.adapter, m.plci, m.ncci))
      | none => r.awaiting
    | .response a p ncci num =>
      if r.awaiting num = some (a.id, p.id, ncci.ncci) then Function.update r.awaiting num none else r.awaiting
    | .free a p ncci => fun k =>
      (r.awaiting k).filter fun (a', p', n) => !decide (a' = a.id ∧ p' = p.id ∧ r.s.Cleans a.id p.id ncci.ncci n)
    | _ => r.awaiting

/-- No NCCI is cleaned up between the steps of an indication, its channel keeps it, and no
    data comes on a channel that has none. -/
def Cond (r : RxRun) : RxEv → Prop
  | .data a _ ch .. => (r.s.adapter a.id).chNcci ch.toNat ≠ 0 ∨ (r.s.adapter a.id).ncciState 0 = .idle
  | .free a p ncci => ∀ ch, (r.s.plci a.id p.id).receiving = some ch →
    ¬ r.s.Cleans a.id p.id ncci.ncci ((r.s.adapter a.id).chNcci ch)
  | .other adapters _ _ => ∀ a p ch, (r.s.plci a p).receiving = some ch →
    (adapters.get a).chNcci ch = (r.s.adapter a).chNcci ch
  | _ => True

/-- The buffer of a packet that is under way. -/
structure Filling (s : RxSt) (a p ch : Nat) : Prop where
  pos : 0 < a
  num : (s.plci a p).rNum < s.appl.maxBuffer
  ncci : (s.adapter a).chNcci ch ≠ 0
  code : s.appl.dataNCCI (s.plci a p).rNum = ncciCode a ((s.adapter a).chNcci ch)
  plci : flagsPlci (s.appl.dataFlags (s.plci a p).rNum) = p
  silent : reported (s.appl.dataFlags (s.plci a p).rNum) = false

structure Inv (r : RxRun) : Prop where
  awaited : ∀ k a p n, r.awaiting k = some (a, p, n) → n ≠ 0 ∧ n < 256 ∧ r.s.Answers a p n k
  known : ∀ k, k < r.s.appl.maxBuffer → r.s.appl.dataNCCI k ≠ 0 → reported (r.s.appl.dataFlags k) = true →
    ∃ x, r.awaiting k = some x
  filling : ∀ a p ch, (r.s.plci a p).receiving = some ch → Filling r.s a p ch
  bound : ∀ c, c ≠ 0 → r.s.appl.count c ≤ r.s.appl.maxNcciData

theorem Filling.same {s s' : RxSt} (h : RxSt.Same s s') {a p ch : Nat} (hf : Filling s a p ch) : Filling s' a p ch := by
  have hadapter : s'.adapter a = s.adapter a := congrArg (fun x => x.get a) h.adapters
  refine ⟨hf.pos, ?_, ?_, ?_, ?_, ?_⟩
  · rw [h.rNum, h.maxBuffer]
    exact hf.num
  · rw [hadapter]
    exact hf.ncci
  · rw [h.rNum, h.dataNCCI, hadapter]
    exact hf.code
  · rw [h.rNum, h.dataFlags]
    exact hf.plci
  · rw [h.rNum, h.dataFlags]
    exact hf.silent

theorem Inv.same {s s' : RxSt} {w : Nat → Option (Nat × Nat × Nat)} (h : RxSt.Same s s') (hi : Inv ⟨s, w⟩) : Inv ⟨s', w⟩ where
  awaited := by
    intro k a p n hk
    obtain ⟨h0, hlt, h1, h2, h3, h4⟩ := hi.awaited k a p n hk
    refine ⟨h0, hlt, ?_⟩
    dsimp only [RxSt.Answers]
    rw [h.maxBuffer, h.dataNCCI, h.dataFlags]
    exact ⟨h1, h2, h3, h4⟩
  known := by
    intro k
    dsimp only
    rw [h.maxBuffer, h.dataNCCI, h.dataFlags]
    exact hi.known k
  filling := by
    intro a p ch hr
    rw [h.receiving] at hr
    exact (hi.filling a p ch hr).same h
  bound := by
    intro c hc
    dsimp only [RxAppl.count]
    rw [h.maxBuffer, h.dataNCCI, h.maxNcciData]
    exact hi.bound c hc

/-- Two packets that are under way have different buffers. -/
theorem Filling.apart {s : RxSt} {a p ch a' p' ch' : Nat} (h : Filling s a p ch) (h' : Filling s a' p' ch')
    (he : (s.plci a p).rNum = (s.plci a' p').rNum) : a = a' ∧ p = p' := by
  have hcode := h.code
  have hplci := h.plci
  rw [he, h'.code] at hcode
  rw [he, h'.plci] at hplci
  exact ⟨(ncciCode_inj (s.adapters.byte a' ch') (s.adapters.byte a ch) hcode).1.symm, hplci.symm⟩

/-- A free buffer is assigned. -/
theorem Inv.assign {s : RxSt} {w : Nat → Option (Nat × Nat × Nat)} (hi : Inv ⟨s, w⟩) {a p ch num : Nat}
    {ind : DataInd} {r : RxPlci}
    (ha : 0 < a) (hp : p < 256) (hfree : s.appl.firstFree = some num)
    (hcount : s.appl.count (ncciCode a ((s.adapter a).chNcci ch)) < s.appl.maxNcciData)
    (hncci : (s.adapter a).chNcci ch ≠ 0) (hnum : r.rNum = num) (hch : r.receiving = some ch) :
    Inv
      ⟨(s.setAppl (s.appl.assign num (ncciCode a ((s.adapter a).chNcci ch)) (p <<< 8 ||| ind.ind >>> 4))).setPlci a p r, w⟩ := by
  obtain ⟨hlt, hzero⟩ := RxSt.firstFree_some hfree
  obtain ⟨hflags, hsilent⟩ := flags_assigned hp ind.byte
  have hbyte := s.adapters.byte a ch
  -- a free buffer is neither awaited nor filled
  have hother : ∀ k a' n, n < 256 → 0 < a' → s.appl.dataNCCI k = ncciCode a' n → k ≠ num := by
    rintro k a' n hn ha' hk rfl
    rw [hzero] at hk
    exact ncciCode_pos ha' hn hk.symm
  refine ⟨?_, ?_, ?_, ?_⟩
  · intro k a' p' n hk
    obtain ⟨h0, hn, h1, h2, h3, h4⟩ := hi.awaited k a' p' n hk
    have hne : k ≠ num := by
      rintro rfl
      dsimp only at h2
      rw [hzero] at h2
      rw [ncciCode_eq hn] at h2
      omega
    refine ⟨h0, hn, h1, ?_, ?_, ?_⟩
    · exact (Function.update_of_ne hne _ _).trans h2
    · exact (congrArg flagsPlci (Function.update_of_ne hne _ _)).trans h3
    · exact (congrArg reported (Function.update_of_ne hne _ _)).trans h4
  · intro k hk hcode hrep
    by_cases e : k = num
    · subst e
      have hself : reported (Function.update s.appl.dataFlags k (p <<< 8 ||| ind.ind >>> 4) k) = true := hrep
      rw [Function.update_self, hsilent] at hself
      cases hself
    · refine hi.known k hk ?_ ?_
      · exact fun h0 => hcode ((Function.update_of_ne e _ _).trans h0)
      · exact (congrArg reported (Function.update_of_ne e _ _)).symm.trans hrep
  · intro a' p' ch' hr
    have hplci :=
      RxSt.setPlci_plci (s.setAppl (s.appl.assign num (ncciCode a ((s.adapter a).chNcci ch)) (p <<< 8 ||| ind.ind >>> 4)))
      a p a' p' r
    dsimp only at hr
    rw [hplci] at hr
    by_cases e : a' = a ∧ p' = p
    · obtain ⟨rfl, rfl⟩ := e
      rw [if_pos ⟨rfl, rfl⟩] at hr hplci
      rw [hch] at hr
      cases hr
      refine ⟨ha, ?_, hncci, ?_, ?_, ?_⟩
      · rw [hplci, hnum]
        exact hlt
      · rw [hplci, hnum]
        exact Function.update_self _ _ _
      · rw [hplci, hnum]
        exact (congrArg flagsPlci (Function.update_self _ _ _)).trans hflags
      · rw [hplci, hnum]
        exact (congrArg reported (Function.update_self _ _ _)).trans hsilent
    · rw [if_neg e] at hr hplci
      have hf := hi.filling a' p' ch' hr
      have hne := hother _ a' _ (s.adapters.byte a' ch') hf.pos hf.code
      refine ⟨hf.pos, ?_, hf.ncci, ?_, ?_, ?_⟩
      · rw [hplci]
        exact hf.num
      · rw [hplci]
        exact (Function.update_of_ne hne _ _).trans hf.code
      · rw [hplci]
        exact (congrArg flagsPlci (Function.update_of_ne hne _ _)).trans hf.plci
      · rw [hplci]
        exact (congrArg reported (Function.update_of_ne hne _ _)).trans hf.silent
  · intro c hc
    by_cases e : ncciCode a ((s.adapter a).chNcci ch) = c
    · subst e
      exact Nat.le_trans (entries_update _ _ _ _) hcount
    · exact Nat.le_trans (entries_update_of_ne e _ _ _) (hi.bound c hc)

/-- A packet is dropped. -/
theorem Inv.drop {s : RxSt} {w : Nat → Option (Nat × Nat × Nat)} (hi : Inv ⟨s, w⟩) {a p : Nat} {r : RxPlci}
    (hr : r.receiving = none) : Inv ⟨s.setPlci a p r, w⟩ := by
  refine ⟨hi.awaited, hi.known, ?_, hi.bound⟩
  intro a' p' ch' h
  have hplci := RxSt.setPlci_plci s a p a' p' r
  dsimp only at h
  rw [hplci] at h
  by_cases e : a' = a ∧ p' = p
  · rw [if_pos e, hr] at h
    cases h
  · rw [if_neg e] at h hplci
    have hf := hi.filling a' p' ch' h
    refine ⟨hf.pos, ?_, hf.ncci, ?_, ?_, ?_⟩
    · rw [hplci]
      exact hf.num
    · rw [hplci]
      exact hf.code
    · rw [hplci]
      exact hf.plci
    · rw [hplci]
      exact hf.silent

/-- A buffer is reported. -/
theorem Inv.report {s : RxSt} {w : Nat → Option (Nat × Nat × Nat)} (hi : Inv ⟨s, w⟩) {a p ch : Nat} {r : RxPlci}
    (hch : (s.plci a p).receiving = some ch) (hr : r.receiving = none) (sent : List DataB3I) :
    Inv ⟨{ (s.setPlci a p r).setAppl (s.appl.report (s.plci a p).rNum) with sent := sent },
      Function.update w (s.plci a p).rNum (some (a, p, (s.adapter a).chNcci ch))⟩ := by
  have hf := hi.filling a p ch hch
  obtain ⟨hplci, hrep⟩ := flags_report (s.appl.dataFlags (s.plci a p).rNum)
  have hdrop : Inv ⟨s.setPlci a p r, w⟩ := hi.drop hr
  refine ⟨?_, ?_, ?_, hi.bound⟩
  · intro k a' p' n hk
    by_cases e : k = (s.plci a p).rNum
    · subst e
      dsimp only at hk
      rw [Function.update_self] at hk
      cases hk
      refine ⟨hf.ncci, s.adapters.byte a ch, hf.num, hf.code, ?_, ?_⟩
      · exact (congrArg flagsPlci (Function.update_self _ _ _)).trans (hplci.trans hf.plci)
      · exact (congrArg reported (Function.update_self _ _ _)).trans hrep
    · dsimp only at hk
      rw [Function.update_of_ne e] at hk
      obtain ⟨h0, hn, h1, h2, h3, h4⟩ := hi.awaited k a' p' n hk
      refine ⟨h0, hn, h1, h2, ?_, ?_⟩
      · exact (congrArg flagsPlci (Function.update_of_ne e _ _)).trans h3
      · exact (congrArg reported (Function.update_of_ne e _ _)).trans h4
  · intro k hk hcode hk'
    by_cases e : k = (s.plci a p).rNum
    · subst e
      exact ⟨_, Function.update_self _ _ _⟩
    · obtain ⟨x, hx⟩ := hi.known k hk hcode ((congrArg reported (Function.update_of_ne e _ _)).symm.trans hk')
      exact ⟨x, (Function.update_of_ne e _ _).trans hx⟩
  · intro a' p' ch' h
    have hf' := hdrop.filling a' p' ch' h
    have hne : ((s.setPlci a p r).plci a' p').rNum ≠ (s.plci a p).rNum := by
      intro he
      have hsame := RxSt.setPlci_plci s a p a' p' r
      by_cases e : a' = a ∧ p' = p
      · have h' : ((s.setPlci a p r).plci a' p').receiving = some ch' := h
        rw [hsame, if_pos e, hr] at h'
        cases h'
      · rw [if_neg e] at hsame
        have h' : ((s.setPlci a p r).plci a' p').receiving = some ch' := h
        rw [hsame] at he h'
        exact e ((hi.filling a' p' ch' h').apart hf he)
    refine ⟨hf'.pos, hf'.num, hf'.ncci, hf'.code, ?_, ?_⟩
    · exact (congrArg flagsPlci (Function.update_of_ne hne _ _)).trans hf'.plci
    · exact (congrArg reported (Function.update_of_ne hne _ _)).trans hf'.silent

/-- The response that a buffer waits for is awaited. -/
theorem Inv.awaits {r : RxRun} (hi : Inv r) {a p ncci num : Nat} (ha : 0 < a) (hn : ncci < 256)
    (h : r.s.Answers a p ncci num) : r.awaiting num = some (a, p, ncci) := by
  obtain ⟨h1, h2, h3, h4⟩ := h
  obtain ⟨⟨a', p', n'⟩, hx⟩ := hi.known num h1 (by rw [h2]; exact ncciCode_pos ha hn) h4
  obtain ⟨-, hn', -, h2', h3', -⟩ := hi.awaited num a' p' n' hx
  obtain ⟨rfl, rfl⟩ := ncciCode_inj hn hn' (h2.symm.trans h2')
  rw [h3] at h3'
  rw [hx, h3']

/-- A response takes its buffer back. -/
theorem Inv.release {s : RxSt} {w : Nat → Option (Nat × Nat × Nat)} (hi : Inv ⟨s, w⟩) {num : Nat}
    (hrep : reported (s.appl.dataFlags num) = true) :
    Inv ⟨s.setAppl (s.appl.release num), Function.update w num none⟩ := by
  refine ⟨?_, ?_, ?_, ?_⟩
  · intro k a p n hk
    by_cases e : k = num
    · subst e
      dsimp only at hk
      rw [Function.update_self] at hk
      cases hk
    · dsimp only at hk
      rw [Function.update_of_ne e] at hk
      obtain ⟨h0, hn, h1, h2, h3, h4⟩ := hi.awaited k a p n hk
      exact ⟨h0, hn, h1, (Function.update_of_ne e _ _).trans h2, h3, h4⟩
  · intro k hk hcode hk'
    have e : k ≠ num := by
      rintro rfl
      exact hcode (Function.update_self _ _ _)
    obtain ⟨x, hx⟩ := hi.known k hk (fun h0 => hcode ((Function.update_of_ne e _ _).trans h0)) hk'
    exact ⟨x, (Function.update_of_ne e _ _).trans hx⟩
  · intro a p ch h
    have hf := hi.filling a p ch h
    have hne : (s.plci a p).rNum ≠ num := by
      rintro rfl
      have hsilent := hf.silent
      rw [hrep] at hsilent
      cases hsilent
    exact ⟨hf.pos, hf.num, hf.ncci, (Function.update_of_ne hne _ _).trans hf.code, hf.plci, hf.silent⟩
  · intro c hc
    exact Nat.le_trans (entries_update_of_ne (Ne.symm hc) _ _ _) (hi.bound c hc)

/-- NCCIs of a PLCI are cleaned up. -/
theorem Inv.free {r : RxRun} (hi : Inv r) {a : AdapterId} {p : PlciId} {ncci : NcciId} (hc : r.Cond (.free a p ncci)) :
    Inv (r.step (.free a p ncci)) := by
  have hid := r.s.adapters.id_get a.id
  have hnames : ∀ n, Names ncci.ncci n → n < 256 := by
    intro n hn
    have hle := ncci.le
    unfold Names at hn
    unfold maxNcci at *
    split at hn <;> omega
  -- an entry that is freed is one of an NCCI that is cleaned up
  have hfreed : ∀ {k a' n'}, n' < 256 → Freed r.s.appl (r.s.adapter a.id) p.id (Names ncci.ncci) k →
      r.s.appl.dataNCCI k = ncciCode a' n' → a' = a.id ∧ (r.s.adapter a.id).ncciPlci n' = p.id ∧ Names ncci.ncci n' := by
    rintro k a' n' hn' ⟨-, -, n, hplci, hn, hk⟩ hk'
    have hcode : ncciCode a.id n = ncciCode a' n' := by
      rw [← hk', hk]
      exact congrArg (fun i => ncciCode i n) hid.symm
    obtain ⟨rfl, rfl⟩ := ncciCode_inj (hnames n hn) hn' hcode
    exact ⟨rfl, hplci, hn⟩
  by_cases happl : (r.s.nl a.id p.id).hasAppl = true
  · have hf : FreedFrom r.s.appl (r.step (.free a p ncci)).s.appl (r.s.adapter a.id) p.id (Names ncci.ncci) := by
      have h := ncciFreeReceiveBuffers_freed r.s.appl (r.s.adapter a.id) p.id ncci.ncci r.s.mappingBug
      rw [← happl] at h
      exact h
    have hwait : ∀ k x, (r.step (.free a p ncci)).awaiting k = some x ↔
        r.awaiting k = some x ∧ ¬ (x.1 = a.id ∧ x.2.1 = p.id ∧ r.s.Cleans a.id p.id ncci.ncci x.2.2) := by
      intro k x
      dsimp only [step]
      rw [Option.filter_eq_some_iff, Bool.not_eq_true', decide_eq_false_iff_not]
    refine ⟨?_, ?_, ?_, ?_⟩
    · intro k a' p' n hk
      obtain ⟨hk, hno⟩ := (hwait k _).mp hk
      obtain ⟨h0, hn, h1, h2, h3, h4⟩ := hi.awaited k a' p' n hk
      have hkept : ¬ Freed r.s.appl (r.s.adapter a.id) p.id (Names ncci.ncci) k := by
        intro hfr
        obtain ⟨rfl, hplci, hnm⟩ := hfreed hn hfr h2
        exact hno ⟨rfl, h3.symm.trans hfr.2.1, happl, hplci, hnm⟩
      refine ⟨h0, hn, ?_⟩
      dsimp only [RxSt.Answers]
      rw [hf.maxBuffer, hf.kept k hkept, hf.dataFlags]
      exact ⟨h1, h2, h3, h4⟩
    · intro k hk hcode hrep
      rw [hf.maxBuffer] at hk
      rw [hf.dataFlags] at hrep
      have hkept : ¬ Freed r.s.appl (r.s.adapter a.id) p.id (Names ncci.ncci) k := fun hfr => hcode (hf.freed k hfr)
      rw [hf.kept k hkept] at hcode
      obtain ⟨⟨a', p', n⟩, hx⟩ := hi.known k hk hcode hrep
      obtain ⟨-, hn, h1, h2, h3, -⟩ := hi.awaited k a' p' n hx
      refine ⟨(a', p', n), (hwait k _).mpr ⟨hx, ?_⟩⟩
      rintro ⟨rfl, rfl, -, hplci, hnm⟩
      exact hkept ⟨h1, h3, n, hplci, hnm, h2.trans (congrArg (fun i => ncciCode i n) hid.symm)⟩
    · intro a' p' ch h
      have hfl := hi.filling a' p' ch h
      have hkept : ¬ Freed r.s.appl (r.s.adapter a.id) p.id (Names ncci.ncci) (r.s.plci a' p').rNum := by
        intro hfr
        obtain ⟨rfl, hplci, hnm⟩ := hfreed (r.s.adapters.byte a' ch) hfr hfl.code
        have hp : p' = p.id := hfl.plci.symm.trans hfr.2.1
        subst hp
        exact hc ch h ⟨happl, hplci, hnm⟩
      exact ⟨hfl.pos, hf.maxBuffer.symm ▸ hfl.num, hfl.ncci, (hf.kept _ hkept).trans hfl.code,
        (congrFun hf.dataFlags _).symm ▸ hfl.plci, (congrFun hf.dataFlags _).symm ▸ hfl.silent⟩
    · intro c hc0
      refine Nat.le_trans ?_ (hf.maxNcciData.symm ▸ hi.bound c hc0)
      unfold RxAppl.count
      rw [hf.maxBuffer]
      refine entries_le ?_
      intro i _ hci
      by_cases hfr : Freed r.s.appl (r.s.adapter a.id) p.id (Names ncci.ncci) i
      · rw [hf.freed i hfr] at hci
        exact absurd hci.symm hc0
      · rw [hf.kept i hfr] at hci
        exact hci
  · have hnull : r.s.appl = (r.step (.free a p ncci)).s.appl := by
      have h := ncciFreeReceiveBuffers_null r.s.appl (r.s.adapter a.id) p.id ncci.ncci r.s.mappingBug
      rw [← (Bool.not_eq_true _).mp happl] at h
      exact h.symm
    have hwait : (r.step (.free a p ncci)).awaiting = r.awaiting := by
      funext k
      have hno : ∀ x : Nat × Nat × Nat, (!decide (x.1 = a.id ∧ x.2.1 = p.id ∧ r.s.Cleans a.id p.id ncci.ncci x.2.2)) = true := by
        intro x
        simp [RxSt.Cleans, happl]
      dsimp only [step]
      rcases hk : r.awaiting k with - | x
      · rfl
      · rw [Option.filter_some, if_pos (hno x)]
    have hsame : RxSt.Same r.s (r.step (.free a p ncci)).s := by
      constructor
      · rw [← hnull]
      · rw [← hnull]
      · rw [← hnull]
      · rw [← hnull]
      · rfl
      · intro _ _
        rfl
      · intro _ _
        rfl
      · rfl
    have hstep : Inv ⟨(r.step (.free a p ncci)).s, r.awaiting⟩ := hi.same hsame
    rw [← hwait] at hstep
    exact hstep

theorem Inv.step {r : RxRun} (hi : Inv r) {e : RxEv} (hc : r.Cond e) : Inv (r.step e) := by
  cases e with
  | data a p ch ind rLength header =>
    change Inv ⟨r.s.step (.data a p ch ind rLength header), r.awaiting⟩
    dsimp only [RxSt.step]
    split
    · exact hi
    · rcases r.s.nlIndData_cases a.id p.id ch.toNat ind rLength header with hsame | ⟨num, q, hfree, hcount, hstate, hnum, hch, he⟩
      · exact hi.same hsame
      · rw [he]
        refine hi.assign a.pos p.byte hfree hcount ?_ hnum hch
        intro hzero
        rcases hc with hc | hc
        · exact hc hzero
        · rw [hzero] at hstate
          exact hstate hc
  | complete a p first second rBuffers =>
    rcases r.s.nlIndComplete_cases a.id p.id first second rBuffers with ⟨hsame, -⟩ | ⟨ch, q, hch, -, hq, he⟩
    · have htell : r.s.tells (.complete a p first second rBuffers) = none := if_pos (congrArg List.length hsame.sent)
      dsimp only [RxRun.step]
      rw [htell]
      exact hi.same hsame
    · rcases he with he | ⟨m, hma, hmp, hmn, hmc, he⟩
      · have hsent : (r.s.step (.complete a p first second rBuffers)).sent = r.s.sent := by
          dsimp only [RxSt.step]
          rw [he]
          rfl
        have htell : r.s.tells (.complete a p first second rBuffers) = none := if_pos (congrArg List.length hsent)
        dsimp only [RxRun.step]
        rw [htell]
        dsimp only [RxSt.step]
        rw [he]
        exact hi.drop hq
      · have hsent : (r.s.step (.complete a p first second rBuffers)).sent = m :: r.s.sent := congrArg RxSt.sent he
        have htell : r.s.tells (.complete a p first second rBuffers) = some m := by
          unfold RxSt.tells
          rw [hsent, if_neg (by simp)]
          rfl
        dsimp only [RxRun.step]
        rw [htell]
        dsimp only [RxSt.step]
        rw [he, hma, hmp, hmn, hmc (hi.filling a.id p.id ch hch).ncci]
        exact hi.report hch hq _
  | response a p ncci num =>
    dsimp only [RxRun.step, RxSt.step]
    by_cases hans : ncci.ncci ≠ 0 ∧ r.s.Answers a.id p.id ncci.ncci num
    · have hlt : ncci.ncci < 256 := Nat.lt_of_le_of_lt ncci.le (by decide)
      rw [if_pos (hi.awaits a.pos hlt hans.2)]
      exact (hi.release hans.2.2.2.2).same (RxSt.dataB3Res_release hans.1 hans.2)
    · have hno : ncci.ncci = 0 ∨ ¬ r.s.Answers a.id p.id ncci.ncci num := by tauto
      obtain ⟨bad, hbad⟩ := RxSt.dataB3Res_other hno
      rw [hbad, if_neg]
      · have hsame : RxSt.Same r.s (r.s.setAppl { r.s.appl with badDataB3Resp := bad }) :=
          ⟨rfl, rfl, rfl, rfl, rfl, fun _ _ => rfl, fun _ _ => rfl, rfl⟩
        exact Inv.same hsame hi
      · intro haw
        obtain ⟨h0, -, h⟩ := hi.awaited num _ _ _ haw
        exact hans ⟨h0, h⟩
  | free a p ncci => exact hi.free hc
  | xmitXon a p => exact hi.same (r.s.same_channelXmitXon a.id p.id)
  | xmitExtendedXon a p => exact hi.same (r.s.same_channelXmitExtendedXon a.id p.id)
  | xon a ch => exact hi.same (r.s.same_setFlow a.id _)
  | flowRemove a p => exact hi.same (r.s.same_setFlow a.id _)
  | other adapters flow nl =>
    refine ⟨hi.awaited, hi.known, ?_, hi.bound⟩
    intro a p ch h
    have hf := hi.filling a p ch h
    have hmap := hc a p ch h
    exact ⟨hf.pos, hf.num, fun h0 => hf.ncci (hmap.symm.trans h0), hf.code.trans (congrArg (ncciCode a) hmap.symm),
      hf.plci, hf.silent⟩

theorem Inv.init {s : RxSt} (h : s.Init) : Inv ⟨s, fun _ => none⟩ := by
  refine ⟨nofun, fun k _ hk => absurd (h.dataNCCI k) hk, ?_, ?_⟩
  · intro a p ch hr
    rw [h.receiving a p] at hr
    cases hr
  · intro c hc
    have hnone : s.appl.count c = 0 := by
      refine List.countP_eq_zero.mpr ?_
      intro i _ hi
      rw [beq_iff_eq, h.dataNCCI i] at hi
      exact hc hi.symm
    rw [hnone]
    exact Nat.zero_le _

/-! ## The account -/

structure Accounted (r : RxRun) : Prop where
  /-- A buffer that is handed out is free. -/
  free : ∀ e num, r.s.handsOut e = some num → num < r.s.appl.maxBuffer ∧ r.s.appl.dataNCCI num = 0
  /-- A buffer that an NCCI has been told of is its own. -/
  assigned : ∀ k a p n, r.awaiting k = some (a, p, n) → k < r.s.appl.maxBuffer ∧ r.s.appl.dataNCCI k = ncciCode a n
  bound : ∀ c, c ≠ 0 → r.s.appl.count c ≤ r.s.appl.maxNcciData
  /-- A response that is not awaited is counted at most. -/
  again : ∀ (a : AdapterId) (p : PlciId) (ncci : NcciId) num, r.awaiting num ≠ some (a.id, p.id, ncci.ncci) →
    ∃ bad, r.s.step (.response a p ncci num) = r.s.setAppl { r.s.appl with badDataB3Resp := bad }

theorem handsOut_free {s : RxSt} {e : RxEv} {num : Nat} (h : s.handsOut e = some num) :
    num < s.appl.maxBuffer ∧ s.appl.dataNCCI num = 0 := by
  cases e with
  | data a p ch ind rLength header =>
    dsimp only [RxSt.handsOut] at h
    split at h
    · rename_i hnew
      cases h
      rw [Bool.and_eq_true, Option.isNone_iff_eq_none] at hnew
      obtain ⟨hnone, hsome⟩ := hnew
      dsimp only [RxSt.step] at hsome ⊢
      rw [hnone] at hsome ⊢
      dsimp only [Option.isSome_none] at hsome ⊢
      rw [if_neg Bool.false_ne_true] at hsome ⊢
      rcases s.nlIndData_cases a.id p.id ch.toNat ind rLength header with hsame | ⟨num, q, hfree, -, -, hnum, -, he⟩
      · rw [hsame.receiving, hnone] at hsome
        cases hsome
      · rw [he, RxSt.setPlci_plci, if_pos ⟨rfl, rfl⟩, hnum]
        exact RxSt.firstFree_some hfree
    · cases h
  | _ => cases h

theorem Inv.accounted {r : RxRun} (hi : Inv r) : r.Accounted where
  free _ _ := handsOut_free
  assigned k a p n hk := ⟨(hi.awaited k a p n hk).2.2.1, (hi.awaited k a p n hk).2.2.2.1⟩
  bound := hi.bound
  again := by
    intro a p ncci num hno
    have hlt : ncci.ncci < 256 := Nat.lt_of_le_of_lt ncci.le (by decide)
    exact RxSt.dataB3Res_other (.inr fun h => hno (hi.awaits a.pos hlt h))

/-- In a run in which no NCCI is cleaned up between the steps of an indication the buffers
    are accounted for. -/
theorem receive_buffers {s : RxSt} (hinit : s.Init) {es : List RxEv} (h : Along step Cond ⟨s, fun _ => none⟩ es) :
    (run step ⟨s, fun _ => none⟩ es).Accounted :=
  (Along.invariant step (I := Inv) (fun _ _ hi hc => hi.step hc) (.init hinit) h).accounted

/-! ## A cleanup between the steps -/

/-- NCCI 1 of PLCI 1 on channel 1, connected. -/
def oneChannel (k : Nat) : Adapter where
  id := k
  maxPlci := 1
  adapterDisabled := false
  chNcci ch := if ch = 1 then 1 else 0
  ncciCh n := if n = 1 then 1 else 0
  ncciPlci n := if n = 1 then 1 else 0
  ncciState n := if n = 1 then .connected else .idle
  ncciNext n := if n = 1 then 1 else 0
  ncci _ := ⟨0, 0, 0, 0, fun _ => ⟨0, 0, 0, 0, 0⟩, fun _ => ⟨0, 0⟩⟩
  okFcPending _ := false

/-- The application has two buffers, and both are for one NCCI. -/
def twoBuffers : RxSt where
  appl := ⟨⟨2, fun _ => 0, fun _ => 0⟩, 2, 0, 0⟩
  mappingBug := 0
  adapters := ⟨oneChannel, fun _ => rfl, fun k ch => by unfold oneChannel; dsimp only; split <;> decide⟩
  xonOffFlowControl _ := false
  oobChannel _ := false
  flow _ := ⟨fun _ => 0, fun _ => 0, 0, 0⟩
  nl _ _ := ⟨true, 0, 1, 0, 0, 0, []⟩
  plci _ _ := ⟨0, 0, 0, 0, none⟩
  sent := []

theorem twoBuffers_init : twoBuffers.Init := ⟨fun _ => rfl, fun _ _ => rfl⟩

theorem one_lt_byte : 1 < 256 := by decide

theorem one_le_maxNcci : 1 ≤ maxNcci := by decide

def first : AdapterId := ⟨1, Nat.one_pos, one_lt_byte⟩
def plciOne : PlciId := ⟨1, Nat.one_pos, one_lt_byte⟩
def ncciOne : NcciId := ⟨1, one_le_maxNcci⟩
def nData : DataInd := ⟨8, by decide, by decide⟩

/-- A packet is received and answered. -/
def received : List RxEv :=
  [.data first plciOne 1 nData 8 0, .complete first plciOne 8 0 1, .response first plciOne ncciOne 0]

theorem receive_buffers_received : (run step ⟨twoBuffers, fun _ => none⟩ received).Accounted :=
  have h : Along step Cond ⟨twoBuffers, fun _ => none⟩ received := ⟨.inl (by decide), trivial, trivial, trivial⟩
  receive_buffers twoBuffers_init h

/-- The NCCI is cleaned up before the buffer is filled. -/
def cleanedUp : List RxEv :=
  [.data first plciOne 1 nData 8 0, .free first plciOne ncciOne, .complete first plciOne 8 0 1]

theorem receive_buffers_cleanup : twoBuffers.Init ∧ ¬ (run step ⟨twoBuffers, fun _ => none⟩ cleanedUp).Accounted := by
  refine ⟨twoBuffers_init, ?_⟩
  intro h
  have htold : (run step ⟨twoBuffers, fun _ => none⟩ cleanedUp).awaiting 0 = some (1, 1, 1) := by decide
  have hfree : (run step ⟨twoBuffers, fun _ => none⟩ cleanedUp).s.appl.dataNCCI 0 = 0 := by decide
  have hown := (h.assigned 0 1 1 1 htold).2
  rw [hfree] at hown
  exact absurd hown (by decide)

end RxRun

end Divas.Capi
