/-
  Divas.Capi.RequestOrder — the request buffer is a queue of requests.

  Proved:
  - `BufHolds.addIe`, `BufHolds.close`, `BufHolds.take`: what one call does to the list of
    requests that the buffer holds and to the request that is being built.
  - `step_refines`: a step of the code is a step of the specification.
  - `requests_in_order`: so is every run within `RBuffer`, and no `send_req` changes a
    byte of a request that is not sent.
-/

import Divas.Capi.Request

namespace Divas.Capi

open Divas.Lib.Bytes Divas.Lib.Run

/-! ## The layout -/

def recordBytes (r : Request) : List UInt8 := leBytes 2 (r.ies.length + 1) ++ (r.ies ++ [0]) ++ [r.flag, r.req, r.ch]

theorem recordBytes_length (r : Request) : (recordBytes r).length = r.ies.length + 6 := by
  simp [recordBytes]
  omega

/-- The record that is being built: none, or one with these elements. -/
def Opened (b : ReqBuf) (ies : List UInt8) : Prop :=
  b.reqIn = b.reqInStart + 2 + (ies.length + 1) ∧ load b.rBuffer (b.reqInStart + 2) (ies.length + 1) = ies ++ [0]

structure BufHolds (b : ReqBuf) (ies : List UInt8) (q : List Request) : Prop where
  order : b.reqOut ≤ b.reqInStart
  size : b.reqIn ≤ sizeofRBuffer
  closed : load b.rBuffer b.reqOut (b.reqInStart - b.reqOut) = q.flatMap recordBytes
  opened : (b.reqIn = b.reqInStart ∧ ies = []) ∨ Opened b ies

variable {b : ReqBuf} {ies : List UInt8} {q : List Request}

namespace ReqBuf

theorem put_put (b : ReqBuf) (xs ys : List UInt8) : (b.put xs).put ys = b.put (xs ++ ys) := by
  simp [put, store_store, Nat.add_assoc]

/-- Where the next element goes. -/
def begin_ (b : ReqBuf) : ReqBuf :=
  if b.reqIn == b.reqInStart then { b with reqIn := b.reqIn + 2 } else { b with reqIn := b.reqIn - 1 }

theorem addIe_eq {code : UInt8} {p : Option Mem} {pLength : Nat} (h : (code &&& 0x80 == 0 && pLength == 0) = false) :
    b.addIe code p pLength = b.begin_.put (ieBytes code p pLength ++ [0]) := by
  unfold addIe ieBytes
  rw [h]
  cases p with
  | none => simp [put_put, begin_]
  | some p => simp [put_put, begin_]

end ReqBuf

/-! ## Adding and closing -/

theorem BufHolds.begin_ (h : BufHolds b ies q) :
    b.begin_ = { b with reqIn := b.reqInStart + 2 + ies.length } ∧ load b.rBuffer (b.reqInStart + 2) ies.length = ies := by
  rcases h.opened with ⟨he, hi⟩ | ⟨he, hl⟩
  · subst hi
    constructor
    · simp [ReqBuf.begin_, he]
    · rfl
  · constructor
    · have hne : (b.reqIn == b.reqInStart) = false := by
        rw [beq_eq_false_iff_ne]
        omega
      have hin : b.reqIn - 1 = b.reqInStart + 2 + ies.length := by omega
      simp [ReqBuf.begin_, hne, hin]
    · rw [load_add] at hl
      exact List.append_inj_left hl (by simp)

theorem BufHolds.addIe (h : BufHolds b ies q) {code : UInt8} {p : Option Mem} {pLength : Nat}
    (hf : (b.addIe code p pLength).reqIn ≤ sizeofRBuffer) :
    BufHolds (b.addIe code p pLength) (ies ++ ieBytes code p pLength) q := by
  cases hs : (code &&& 0x80 == 0 && pLength == 0) with
  | true =>
    have h1 : b.addIe code p pLength = b := by
      unfold ReqBuf.addIe
      rw [if_pos hs]
    have h2 : ieBytes code p pLength = [] := by
      unfold ieBytes
      rw [if_pos hs]
    rw [h1, h2, List.append_nil]
    exact h
  | false =>
    rw [ReqBuf.addIe_eq hs] at hf ⊢
    obtain ⟨hb, hl⟩ := h.begin_
    rw [hb] at hf ⊢
    have hord := h.order
    refine ⟨hord, hf, ?_, Or.inr ⟨?_, ?_⟩⟩
    · show load (store b.rBuffer (b.reqInStart + 2 + ies.length) _) b.reqOut (b.reqInStart - b.reqOut) = _
      rw [load_store_disjoint _ (Or.inl (by omega))]
      exact h.closed
    · simp only [ReqBuf.put, List.length_append, List.length_singleton]
      omega
    · show load (store b.rBuffer (b.reqInStart + 2 + ies.length) _) (b.reqInStart + 2) _ = _
      have hlen : (ies ++ ieBytes code p pLength).length + 1 = ies.length + (ieBytes code p pLength ++ [0]).length := by
        simp only [List.length_append, List.length_singleton]
        omega
      rw [hlen, load_add, load_store_disjoint _ (Or.inl (Nat.le_refl _)), hl, load_store_self, List.append_assoc]

theorem BufHolds.terminate (h : BufHolds b ies q) (hf : b.terminate.reqIn ≤ sizeofRBuffer) :
    BufHolds b.terminate ies q ∧ Opened b.terminate ies := by
  rcases h.opened with ⟨he, hi⟩ | ho
  · subst hi
    have hord := h.order
    have hb : b.terminate = { b with reqIn := b.reqIn + 2 }.put [0] := by simp [ReqBuf.terminate, he]
    rw [hb] at hf ⊢
    have ho : Opened ({ b with reqIn := b.reqIn + 2 }.put [0]) [] := by
      refine ⟨by simp [ReqBuf.put, he], ?_⟩
      have h1 := load_store_self b.rBuffer (b.reqInStart + 2) [0]
      simpa [ReqBuf.put, he] using h1
    refine ⟨⟨hord, hf, ?_, Or.inr ho⟩, ho⟩
    show load (store b.rBuffer (b.reqIn + 2) [0]) b.reqOut (b.reqInStart - b.reqOut) = _
    rw [load_store_disjoint _ (Or.inl (by omega))]
    exact h.closed
  · have hne : (b.reqIn == b.reqInStart) = false := by
      rw [beq_eq_false_iff_ne]
      have := ho.1
      omega
    have hb : b.terminate = b := by simp [ReqBuf.terminate, hne]
    rw [hb]
    exact ⟨h, ho⟩

theorem BufHolds.finish (h : BufHolds b ies q) (ho : Opened b ies) {flag req ch : UInt8}
    (hf : (b.finish flag req ch).reqIn ≤ sizeofRBuffer) :
    BufHolds (b.finish flag req ch) [] (q ++ [⟨flag, req, ch, ies⟩]) := by
  obtain ⟨hin, hl⟩ := ho
  have hord := h.order
  have hlen : b.reqIn - b.reqInStart - 2 = ies.length + 1 := by omega
  have hb : b.finish flag req ch = { b with
      rBuffer := store (store b.rBuffer b.reqInStart (leBytes 2 (ies.length + 1))) b.reqIn [flag, req, ch]
      reqIn := b.reqIn + 3
      reqInStart := b.reqIn + 3 } := by
    simp [ReqBuf.finish, hlen, ReqBuf.put]
  rw [hb] at hf ⊢
  refine ⟨show b.reqOut ≤ b.reqIn + 3 by omega, hf, ?_, Or.inl ⟨rfl, rfl⟩⟩
  show load (store (store b.rBuffer b.reqInStart (leBytes 2 (ies.length + 1))) b.reqIn [flag, req, ch]) b.reqOut
    (b.reqIn + 3 - b.reqOut) = _
  -- The old records, the length, the elements with their 0, and the last three bytes.
  have h1 : load (store (store b.rBuffer b.reqInStart (leBytes 2 (ies.length + 1))) b.reqIn [flag, req, ch]) b.reqOut
      (b.reqInStart - b.reqOut) = q.flatMap recordBytes := by
    rw [load_store_disjoint _ (Or.inl (by omega)), load_store_disjoint _ (Or.inl (by omega))]
    exact h.closed
  have h2 : load (store (store b.rBuffer b.reqInStart (leBytes 2 (ies.length + 1))) b.reqIn [flag, req, ch])
      b.reqInStart 2 = leBytes 2 (ies.length + 1) := by
    rw [load_store_disjoint _ (Or.inl (by omega))]
    exact load_store_self b.rBuffer b.reqInStart (leBytes 2 (ies.length + 1))
  have h3 : load (store (store b.rBuffer b.reqInStart (leBytes 2 (ies.length + 1))) b.reqIn [flag, req, ch])
      (b.reqInStart + 2) (ies.length + 1) = ies ++ [0] := by
    rw [load_store_disjoint _ (Or.inl (by omega)), load_store_disjoint _ (Or.inr (by simp)), hl]
  have h4 := load_store_self (store b.rBuffer b.reqInStart (leBytes 2 (ies.length + 1))) b.reqIn [flag, req, ch]
  have hsplit : b.reqIn + 3 - b.reqOut = (b.reqInStart - b.reqOut) + (2 + ((ies.length + 1) + 3)) := by omega
  have e1 : b.reqOut + (b.reqInStart - b.reqOut) = b.reqInStart := by omega
  rw [hsplit, load_add, h1, e1, load_add, h2, load_add, h3, ← hin, List.flatMap_append]
  congr 1
  rw [show 3 = [flag, req, ch].length from rfl, h4]
  simp [recordBytes]

theorem BufHolds.close (h : BufHolds b ies q) {flag req ch : UInt8} (hf : (b.close flag req ch).reqIn ≤ sizeofRBuffer) :
    BufHolds (b.close flag req ch) [] (q ++ [⟨flag, req, ch, ies⟩]) := by
  have hle : b.terminate.reqIn ≤ (b.close flag req ch).reqIn := by simp [ReqBuf.close, ReqBuf.finish, ReqBuf.put]
  obtain ⟨h', ho⟩ := h.terminate (Nat.le_trans hle hf)
  exact h'.finish ho hf

/-! ## Taking -/

/-- The first record of the buffer. -/
theorem BufHolds.head {r : Request} (h : BufHolds b ies (r :: q)) :
    b.reqOut + (r.ies.length + 6) ≤ b.reqInStart ∧ word b.rBuffer b.reqOut = r.ies.length + 1 ∧
      load b.rBuffer (b.reqOut + 2) (r.ies.length + 1) = r.ies ++ [0] ∧
      load b.rBuffer (b.reqOut + 2 + (r.ies.length + 1)) 3 = [r.flag, r.req, r.ch] ∧
      load b.rBuffer (b.reqOut + (r.ies.length + 6)) (b.reqInStart - (b.reqOut + (r.ies.length + 6)))
        = q.flatMap recordBytes := by
  have hc := h.closed
  have hlen := congrArg List.length hc
  rw [load_length, List.flatMap_cons, List.length_append, recordBytes_length] at hlen
  have hsplit : b.reqInStart - b.reqOut
      = (2 + (r.ies.length + 1) + 3) + (b.reqInStart - (b.reqOut + (r.ies.length + 6))) := by
    have := h.order
    omega
  rw [hsplit, load_add, List.flatMap_cons] at hc
  have h1 := List.append_inj_left hc (by simp [recordBytes_length]; omega)
  have h2 := List.append_inj_right hc (by simp [recordBytes_length]; omega)
  rw [recordBytes, load_add, load_add] at h1
  have h3 := List.append_inj_right h1 (by simp)
  have h4 := List.append_inj_left h1 (by simp)
  have h5 := List.append_inj_left h4 (by simp)
  have h6 := List.append_inj_right h4 (by simp)
  refine ⟨by have := h.order; omega, ?_, h6, ?_, ?_⟩
  · have hsize : b.reqIn ≤ 2048 := h.size
    have hin : b.reqInStart ≤ b.reqIn := by
      rcases h.opened with ⟨he, -⟩ | ⟨he, -⟩ <;> omega
    rw [word, h5]
    apply leNat_leBytes
    show r.ies.length + 1 < 65536
    omega
  · rwa [show b.reqOut + 2 + (r.ies.length + 1) = b.reqOut + (2 + (r.ies.length + 1)) by omega]
  · rwa [show b.reqOut + (2 + (r.ies.length + 1) + 3) = b.reqOut + (r.ies.length + 6) by omega] at h2

theorem load_three {m : Mem} {k : Nat} {x y z : UInt8} (h : load m k 3 = [x, y, z]) :
    m k = x ∧ m (k + 1) = y ∧ m (k + 2) = z := by
  rw [load_succ, load_succ, load_succ, load_zero] at h
  simpa [Nat.add_assoc] using h

/-- `send_req` takes the first record, and writes only to bytes of this record. -/
theorem BufHolds.sendRecord {s : ReqSt} {r : Request} (h : BufHolds s.buf ies (r :: q)) :
    s.sendRecord.ent = Requests.send s.ent r ∧ BufHolds s.sendRecord.buf ies q ∧
      ∀ i, s.sendRecord.buf.reqOut ≤ i → s.sendRecord.buf.rBuffer i = s.buf.rBuffer i := by
  obtain ⟨hlen, hw, hies, h3, hq⟩ := h.head
  obtain ⟨hflag, hreq, hch⟩ := load_three h3
  have hout : s.buf.reqOut + 2 + (r.ies.length + 1) + 3 = s.buf.reqOut + (r.ies.length + 6) := by omega
  have hcai : s.buf.reqOut + (r.ies.length + 6) - 4 = s.buf.reqOut + 2 + r.ies.length := by omega
  have hrest : ∀ m, (∀ i, s.buf.reqOut + (r.ies.length + 6) ≤ i → m i = s.buf.rBuffer i) →
      BufHolds { s.buf with rBuffer := m, reqOut := s.buf.reqOut + (r.ies.length + 6) } ies q := by
    intro m hm
    have hload : ∀ k n, s.buf.reqOut + (r.ies.length + 6) ≤ k → load m k n = load s.buf.rBuffer k n :=
      fun k n hk => load_congr fun i _ => hm (k + i) (by omega)
    refine ⟨hlen, h.size, ?_, ?_⟩
    · show load m (s.buf.reqOut + (r.ies.length + 6)) _ = _
      rw [hload _ _ (Nat.le_refl _)]
      exact hq
    · rcases h.opened with ho | ⟨ho, hl⟩
      · exact Or.inl ho
      · refine Or.inr ⟨ho, ?_⟩
        show load m (s.buf.reqInStart + 2) _ = _
        rw [hload _ _ (by omega)]
        exact hl
  unfold ReqSt.sendRecord Requests.send Requests.block
  simp only [hw, hout, hcai, hflag, hreq, hch]
  cases hf : r.flag == 1 with
  | false =>
    refine ⟨?_, hrest s.buf.rBuffer fun _ _ => rfl, fun _ _ => rfl⟩
    simp [hies]
  | true =>
    cases hu : Entities.unassigned s.ent.nl.id with
    | false =>
      refine ⟨?_, hrest s.buf.rBuffer fun _ _ => rfl, fun _ _ => rfl⟩
      simp [hies]
    | true =>
      have hkeep : ∀ (bs : List UInt8) i, bs.length = 4 → s.buf.reqOut + (r.ies.length + 6) ≤ i →
          store s.buf.rBuffer (s.buf.reqOut + 2 + r.ies.length) bs i = s.buf.rBuffer i :=
        fun bs i hl hi => store_outside _ (by omega)
      refine ⟨?_, hrest _ fun i hi => hkeep _ i rfl hi, fun i hi => hkeep _ i rfl hi⟩
      simp only [if_true, Bool.and_self]
      congr 1
      rw [load_add] at hies
      have hies' := List.append_inj_left hies (by simp)
      have hself := load_store_self s.buf.rBuffer (s.buf.reqOut + 2 + r.ies.length)
        [caiCode, 1, if s.ent.sig.id == 0xff then 0 else s.ent.sig.id, 0]
      rw [show r.ies.length + 1 + 3 = r.ies.length + 4 by omega, load_add, load_store_disjoint _ (Or.inl (Nat.le_refl _)), hies']
      exact congrArg (r.ies ++ ·) hself

/-! ## Steps and runs -/

structure Refines (s : ReqSt) (a : Requests) : Prop where
  ent : a.ent = s.ent
  holds : BufHolds s.buf a.ies a.queue

theorem BufHolds.queue_nil_iff (h : BufHolds b ies q) : q = [] ↔ b.reqOut = b.reqInStart := by
  have hc := congrArg List.length h.closed
  rw [load_length] at hc
  have hord := h.order
  constructor
  · intro hq
    subst hq
    simp at hc
    omega
  · intro he
    cases q with
    | nil => rfl
    | cons r q =>
      rw [List.flatMap_cons, List.length_append, recordBytes_length] at hc
      omega

theorem BufHolds.reqIn_eq (h : BufHolds b ies q) (he : b.reqIn = b.reqOut) : b.reqOut = b.reqInStart ∧ ies = [] := by
  have hord := h.order
  rcases h.opened with ⟨ho, hi⟩ | ⟨ho, -⟩
  · exact ⟨by omega, hi⟩
  · omega

variable {s : ReqSt} {a : Requests}

theorem Refines.sendReq (h : Refines s a) (hc : s.buf.reqIn = s.buf.reqInStart ∨ s.buf.reqOut ≠ s.buf.reqInStart) :
    Refines s.sendReq a.sendReq ∧ ∀ i, s.sendReq.buf.reqOut ≤ i → s.sendReq.buf.rBuffer i = s.buf.rBuffer i := by
  obtain ⟨c, ies, q⟩ := a
  obtain ⟨rfl, hh⟩ := h
  have hx : Refines { s with ent := s.ent.channelXmitXon } ⟨s.ent.channelXmitXon, ies, q⟩ := ⟨rfl, hh⟩
  unfold ReqSt.sendReq Requests.sendReq
  by_cases hd : s.ent.adapterDisabled = true
  · rw [if_pos hd, if_pos hd]
    exact ⟨⟨rfl, hh⟩, fun _ _ => rfl⟩
  · rw [if_neg hd, if_neg hd]
    cases q with
    | nil =>
      have hstart := hh.queue_nil_iff.1 rfl
      have he : (s.buf.reqIn == s.buf.reqOut) = true := by
        rw [beq_iff_eq]
        rcases hc with hc | hc
        · omega
        · exact absurd hstart hc
      simp only [he, if_true]
      exact ⟨hx, fun _ _ => trivial⟩
    | cons r q =>
      have he : (s.buf.reqIn == s.buf.reqOut) = false := by
        rw [beq_eq_false_iff_ne]
        intro he
        exact absurd (hh.queue_nil_iff.2 (hh.reqIn_eq he).1) (by simp)
      simp only [he, Bool.false_eq_true, if_false]
      split
      · exact ⟨hx, fun _ _ => rfl⟩
      · obtain ⟨h1, h2, h3⟩ := BufHolds.sendRecord (s := { s with ent := s.ent.channelXmitXon }) hh
        exact ⟨⟨h1.symm, h2⟩, h3⟩

theorem Refines.drained (h : Refines s a) : Refines s.drained a := by
  unfold ReqSt.drained
  cases he : s.buf.reqIn == s.buf.reqOut with
  | false => exact h
  | true =>
    rw [beq_iff_eq] at he
    obtain ⟨hs, hi⟩ := h.holds.reqIn_eq he
    have hq := h.holds.queue_nil_iff.2 hs
    refine ⟨h.ent, Nat.le_refl _, Nat.zero_le _, ?_, Or.inl ⟨rfl, hi⟩⟩
    rw [hq]
    rfl

theorem Refines.other (h : Refines s a) (c : Entities) (m : Mem) :
    Refines (s.other c m) { a with ent := { c with issued := a.ent.issued } } := by
  obtain ⟨hord, hsize, hcl, hop⟩ := h.holds
  have hload : ∀ k n, k + n ≤ sizeofRBuffer → load (s.other c m).buf.rBuffer k n = load s.buf.rBuffer k n := by
    intro k n hk
    refine load_congr fun i hi => ?_
    show (if k + i < sizeofRBuffer then _ else _) = _
    rw [if_pos (by omega)]
  refine ⟨by rw [h.ent]; rfl, hord, hsize, ?_, ?_⟩
  · have hin : s.buf.reqInStart ≤ s.buf.reqIn := by
      rcases hop with ⟨he, -⟩ | ⟨he, -⟩ <;> omega
    show load (s.other c m).buf.rBuffer s.buf.reqOut (s.buf.reqInStart - s.buf.reqOut) = _
    rw [hload _ _ (by omega)]
    exact hcl
  · rcases hop with ho | ⟨ho, hl⟩
    · exact Or.inl ho
    · refine Or.inr ⟨ho, ?_⟩
      show load (s.other c m).buf.rBuffer (s.buf.reqInStart + 2) (a.ies.length + 1) = _
      rw [hload _ _ (by omega)]
      exact hl

theorem Refines.addIe (h : Refines s a) {code : UInt8} {p : Option Mem} {pLength : Nat}
    (hf : (s.buf.addIe code p pLength).reqIn ≤ sizeofRBuffer) :
    Refines { s with buf := s.buf.addIe code p pLength } (a.add (ieBytes code p pLength)) :=
  ⟨h.ent, h.holds.addIe hf⟩

theorem reqIn_le_close (b : ReqBuf) (flag req ch : UInt8) : b.reqIn ≤ (b.close flag req ch).reqIn := by
  have h : b.reqIn ≤ b.terminate.reqIn := by
    unfold ReqBuf.terminate
    split
    · simp [ReqBuf.put]
      omega
    · exact Nat.le_refl _
  simp [ReqBuf.close, ReqBuf.finish, ReqBuf.put]
  omega

/-- The element that `sig_req_` adds. -/
theorem escUid_ie (c : Entities) : ieBytes escCode (some fun i => c.escUid.getD i 0) 4 = escCode :: c.escUid := rfl

theorem Refines.sigReq (h : Refines s a) {req : UInt8} {id : SigId} (hf : (s.sigReq req id.1).buf.reqIn ≤ sizeofRBuffer) :
    Refines (s.sigReq req id.1) (a.step (.sigReq req id)) := by
  unfold ReqSt.sigReq at hf ⊢
  simp only [Requests.step, h.ent]
  cases hd : s.ent.adapterDisabled with
  | true => exact h
  | false =>
    have hadd : s.buf.addP escCode (some fun i => s.ent.escUid.getD i 0) =
        s.buf.addIe escCode (some fun i => s.ent.escUid.getD i 0) 4 := rfl
    simp only [hd, Bool.false_eq_true, if_false, hadd] at hf ⊢
    have h1 := h.holds.addIe (Nat.le_trans (reqIn_le_close _ _ _ _) hf)
    rw [escUid_ie] at h1
    exact ⟨rfl, h1.close hf⟩

theorem Refines.nlReqNcci (h : Refines s a) {req : UInt8} {ncci : Nat}
    (hf : (s.nlReqNcci req ncci).buf.reqIn ≤ sizeofRBuffer) :
    Refines (s.nlReqNcci req ncci) (a.step (.nlReqNcci req ncci)) := by
  unfold ReqSt.nlReqNcci at hf ⊢
  simp only [Requests.step, h.ent]
  cases hd : s.ent.adapterDisabled with
  | true => exact h
  | false =>
    simp only [hd, Bool.false_eq_true, if_false] at hf ⊢
    exact ⟨rfl, h.holds.close hf⟩

theorem step_refines (h : Refines s a) {e : ReqEv} (hf : s.Fits e) : Refines (s.step e) (a.step e) := by
  have hsize := hf.size
  cases e with
  | addIe code p pLength => exact h.addIe hsize
  | addP code p => exact h.addIe hsize
  | addS code p =>
    cases p with
    | none =>
      refine ⟨h.ent, ?_⟩
      show BufHolds s.buf (a.ies ++ []) a.queue
      rw [List.append_nil]
      exact h.holds
    | some p => exact h.addIe hsize
  | sigReq req id => exact h.sigReq hsize
  | nlReqNcci req ncci => exact h.nlReqNcci hsize
  | sendReq => exact (h.sendReq (hf.closed rfl)).1
  | drained => exact h.drained
  | other c m => exact h.other c m

theorem start_refines (c : Entities) (m : Mem) : Refines (ReqSt.start c m) ⟨c, [], []⟩ :=
  ⟨rfl, Nat.le_refl _, Nat.zero_le _, rfl, Or.inl ⟨rfl, rfl⟩⟩

theorem run_refines (h : Refines s a) {es : List ReqEv} (hf : Along ReqSt.step ReqSt.Fits s es) :
    Refines (run ReqSt.step s es) (run Requests.step a es) := by
  induction es generalizing s a with
  | nil => exact h
  | cons e es ih => exact ih (step_refines h hf.1) hf.2

/-- The requests that the adapter is given, and the state of the entities with them, are
    those of the list. -/
theorem requests_in_order (c : Entities) (m : Mem) (es : List ReqEv)
    (hf : Along ReqSt.step ReqSt.Fits (ReqSt.start c m) es) :
    (run ReqSt.step (ReqSt.start c m) es).ent = (run Requests.step ⟨c, [], []⟩ es).ent ∧
      ∀ s, s = run ReqSt.step (ReqSt.start c m) es → s.Fits .sendReq →
        ∀ i, s.sendReq.buf.reqOut ≤ i → s.sendReq.buf.rBuffer i = s.buf.rBuffer i := by
  have h := run_refines (start_refines c m) hf
  refine ⟨h.ent.symm, fun s hs hfit => ?_⟩
  subst hs
  exact (h.sendReq (hfit.closed rfl)).2

/-- PLCI 0x2a, with signaling Id 3 and no network layer Id. -/
def plci2a : Entities where
  plciId := 0x2a
  adapterDisabled := false
  nl := ⟨0, 0, 0⟩
  sig := ⟨3, 0, 0⟩
  nlReq := 0
  sigReq := 0
  nlGlobalReq := 0
  sigGlobalReq := 0
  nlRemoveId := 0
  nlRemoveNcci := 0
  sigRemoveId := 0
  ncciCh := fun n => if n == 1 then 7 else 0
  xonoffFlowControl := false
  chFlowControl := fun _ => 0
  chFlowPlci := fun _ => 0
  lastFlowControlCh := 1
  issued := []

/-- An information element of one byte. -/
def oneByte (v : UInt8) : Option Mem := some fun i => [1, v].getD i 0

/-- A network layer ASSIGN, a signaling HANGUP that is closed before the first is sent,
    and the return code of the first one between the two `send_req`. -/
def twoRequests : List ReqEv :=
  [.addP 0x7c (oneByte 5), .addP 0x7d (oneByte 6), .nlReqNcci 1 1, .addP 0x08 (oneByte 9), .sendReq,
    .sigReq 2 ⟨0, by decide⟩, .other { plci2a with nl := ⟨9, 1, 7⟩ } (fun _ => 0xff), .sendReq]

theorem requests_in_order_two :
    (run ReqSt.step (ReqSt.start plci2a fun _ => 0) twoRequests).ent.issued =
      [⟨true, 0x20, 1, 7, [0x7c, 1, 5, 0x7d, 1, 6, 0x10, 1, 3, 0]⟩,
        ⟨false, 3, 2, 0, [0x08, 1, 9, 0x7f, 4, 0x2d, 0x43, 0x32, 0x61, 0]⟩] := by
  have hf : Along ReqSt.step ReqSt.Fits (ReqSt.start plci2a fun _ => 0) twoRequests := by
    refine ⟨⟨by decide +kernel, fun h => by cases h⟩, ⟨by decide +kernel, fun h => by cases h⟩,
      ⟨by decide +kernel, fun h => by cases h⟩, ⟨by decide +kernel, fun h => by cases h⟩,
      ⟨by decide +kernel, fun _ => by decide +kernel⟩, ⟨by decide +kernel, fun h => by cases h⟩,
      ⟨by decide +kernel, fun h => by cases h⟩, ⟨by decide +kernel, fun _ => by decide +kernel⟩, trivial⟩
  rw [(requests_in_order plci2a (fun _ => 0) twoRequests hf).1]
  decide +kernel

/-- The element spliced in for an entity without Id is `CAI` (0x10), and one 0 ends the
    block. -/
theorem cai_block :
    (run ReqSt.step (ReqSt.start plci2a fun _ => 0) [.addP 0x7c (oneByte 5), .nlReqNcci 1 1, .sendReq]).ent.issued
        = [⟨true, 0x20, 1, 7, [0x7c, 1, 5] ++ [0x10, 1, 3, 0]⟩] ∧
      ([0x7c, 1, 5] ++ [0x10, 1, 3, 0] : List UInt8) ≠ [0x7c, 1, 5] ++ [0x01, 0x01, 3, 0x00] ++ [0] ∧
      ([0x7c, 1, 5] ++ [0x10, 1, 3, 0] : List UInt8) ≠ [0x7c, 1, 5] ++ [0x01, 0x01, 3, 0x00] := by
  decide +kernel

end Divas.Capi
