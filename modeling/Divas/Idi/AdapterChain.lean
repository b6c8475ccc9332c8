/-
  Divas.Idi.AdapterChain — a request in several blocks, and its callback.

  A client with a specific Id requests, and waits. Passes of `pr_out` send its data in
  blocks, between those of other clients, and return codes come for the blocks while others
  are still to be sent. Proved, for every such run (`request_chain`): the blocks have at most
  270 bytes, all but the last the code MInd and the last the code of the request, and
  together they are the data; a pass with 256 free request buffers sends one more of them
  until all are sent; the callback comes once, with the return code that leaves no block
  unanswered, and then the client is not busy.

  What other clients do is `Aside` of the client: nothing of it changes. `Phase` says what
  has been sent and answered.
-/

import Divas.Idi.AdapterQueue

namespace Divas.Idi

open Divas.Lib.Run

/-! ## What other clients do -/

/-- `b` is as `a` for entity `p` with slot `i` and Id `id`. -/
structure Aside (p i id : Nat) (a b : Adapter) : Prop where
  ent : b.ent p = a.ent p
  slot : (b.eTbl i).e = (a.eTbl i).e
  out : ∃ os, b.out = a.out ++ os ∧ ∀ o ∈ os, o.e ≠ p
  calls : ∃ ds, b.calls = a.calls ++ ds ∧ ∀ d ∈ ds, d.1 ≠ p
  flow : ∀ ch, b.flowControlIdTable ch = id → a.flowControlIdTable ch = id
  remove : b.removePending i = true → a.removePending i = true

section Aside

variable {a b c : Adapter} {p q i j id ref : Nat} {Q : List Nat} {r : Adapter.ReturnCode}

/-- Nothing is sent, and nobody is called. -/
theorem Aside.quiet (hent : b.ent p = a.ent p) (hslot : (b.eTbl i).e = (a.eTbl i).e) (hout : b.out = a.out)
    (hcalls : b.calls = a.calls)
    (hflow : b.flowControlIdTable = a.flowControlIdTable) (hremove : b.removePending i = a.removePending i) :
      Aside p i id a b := by
  refine ⟨hent, hslot, ⟨[], ?_, (fun o ho => nomatch ho)⟩, ⟨[], ?_, (fun d hd => nomatch hd)⟩, ?_, ?_⟩
  · rw [hout, List.append_nil]
  · rw [hcalls, List.append_nil]
  · intro ch
    rw [hflow]
    exact fun h => h
  · rw [hremove]
    exact fun h => h

theorem Aside.refl (a : Adapter) : Aside p i id a a := Aside.quiet rfl rfl rfl rfl rfl rfl

theorem Aside.trans (h : Aside p i id a b) (h' : Aside p i id b c) : Aside p i id a c := by
  obtain ⟨os, hos, hne⟩ := h.out
  obtain ⟨os', hos', hne'⟩ := h'.out
  obtain ⟨ds, hds, hdne⟩ := h.calls
  obtain ⟨ds', hds', hdne'⟩ := h'.calls
  refine ⟨h'.ent.trans h.ent, h'.slot.trans h.slot, ⟨os ++ os', ?_, ?_⟩, ⟨ds ++ ds', ?_, ?_⟩, ?_, ?_⟩
  · rw [hos', hos, List.append_assoc]
  · intro o ho
    rcases List.mem_append.mp ho with ho | ho
    · exact hne o ho
    · exact hne' o ho
  · rw [hds', hds, List.append_assoc]
  · intro d hd
    rcases List.mem_append.mp hd with hd | hd
    · exact hdne d hd
    · exact hdne' d hd
  · exact fun ch hch => h.flow ch (h'.flow ch hch)
  · exact fun hr => h.remove (h'.remove hr)

theorem Aside.setEnt (hq : q ≠ p) (e : Entity) : Aside p i id a (a.setEnt q e) :=
  Aside.quiet (Adapter.setEnt_of_ne a hq.symm e) rfl rfl rfl rfl rfl

theorem Aside.emit (blk : Block) (hq : blk.e ≠ p) : Aside p i id a (a.emit blk) := by
  refine ⟨rfl, rfl, ⟨[blk], rfl, ?_⟩, ⟨[], (List.append_nil _).symm, (fun d hd => nomatch hd)⟩, (fun ch h => h), fun h => h⟩
  intro o ho
  rw [List.mem_singleton.mp ho]
  exact hq

theorem Aside.callback (hq : q ≠ p) : Aside p i id a (a.callback q) := by
  refine ⟨rfl, rfl, ⟨[], (List.append_nil _).symm, (fun o ho => nomatch ho)⟩, ⟨[(q, a.ent q)], rfl, ?_⟩,
    (fun ch h => h), fun h => h⟩
  intro d hd
  rw [List.mem_singleton.mp hd]
  exact hq

theorem Aside.reqQueue (a : Adapter) (j : Nat) : Aside p i id a (a.reqQueue j) := by
  obtain ⟨hent, hout, -⟩ := reqQueue_rest a j
  have hsame := SameTables.reqQueue a j
  refine Aside.quiet (congrFun hent p) (hsame.slots i) hout ?_ hsame.flow ?_
  · unfold Adapter.reqQueue
    dsimp only
    split <;> rfl
  · unfold Adapter.reqQueue
    dsimp only
    split <;> rfl

theorem Aside.nextReq (a : Adapter) : Aside p i id a a.nextReq := by
  unfold Adapter.nextReq
  dsimp only
  split <;> exact Aside.quiet rfl rfl rfl rfl rfl rfl

theorem Aside.start (hq : q ≠ p) (a : Adapter) (j : Nat) : Aside p i id a (a.start q j) := by
  unfold Adapter.start
  dsimp only
  split
  · exact Aside.refl a
  · exact (Aside.setEnt hq _).trans (Aside.reqQueue _ j)

/-- The slot of an ASSIGN is a free one. -/
theorem Aside.ask {k : Ask} (ht : Tables a) (hok : AskOk a k) (hp : (a.eTbl i).e = some p) (hq : k.p ≠ p) :
    Aside p i id a (a.ask k) := by
  have hself := Adapter.setEnt_self a k.p
  unfold AskOk at hok
  dsimp only at hok
  unfold Adapter.ask Adapter.request
  rw [hself]
  dsimp only
  refine (Aside.setEnt hq (Adapter.filledIn (a.ent k.p) k)).trans ?_
  by_cases hassign : k.id.getD (a.ent k.p).id % 32 = 0
  · rw [if_pos hassign] at hok
    obtain ⟨-, hout, hroom⟩ := hok
    have ht1 : Tables (a.setEnt k.p (Adapter.filledIn (a.ent k.p) k)) := ht.setEnt_out hout _
    obtain ⟨-, -, hfree⟩ := ht1.newSlot hroom
    rw [if_pos (show (Adapter.filledIn (a.ent k.p) k).id % 32 = 0 from hassign)]
    split
    · exact Aside.refl _
    · refine Aside.trans ?_ (Aside.start hq _ _)
      refine Aside.trans ?_ (Aside.setEnt hq _)
      refine Aside.quiet rfl ?_ rfl rfl rfl rfl
      generalize (a.setEnt k.p (Adapter.filledIn (a.ent k.p) k)).newSlot = j at hfree
      change (a.eTbl j).e = none at hfree
      show (Function.update a.eTbl j _ i).e = (a.eTbl i).e
      rw [Function.update_of_ne]
      rintro rfl
      rw [hp] at hfree
      cases hfree
  · rw [if_neg (show ¬ (Adapter.filledIn (a.ent k.p) k).id % 32 = 0 from hassign)]
    exact Aside.start hq _ _

theorem Aside.send (hq : q ≠ p) (hj : j ≠ i) (a : Adapter) (ref : Nat) : Aside p i id a (a.send j q ref) := by
  by_cases hspec : (a.ent q).id % 32 = 0
  · rw [send_assign hspec]
    refine Aside.trans (Aside.emit (blockOf q (a.ent q) (a.ent q).req ref) hq) ?_
    refine (Aside.setEnt hq (assigned (a.ent q))).trans ?_
    exact Aside.quiet rfl ((SameTables.assignQueue _ _ ref).slots i) rfl rfl rfl rfl
  · by_cases hmore : (Adapter.nextData (a.ent q)).1 < (a.ent q).x.length ∧ (a.ent q).mInd ≠ 0
    · rw [send_more hspec hmore]
      refine Aside.trans (Aside.emit (blockOf q (a.ent q) (a.ent q).mInd ref) hq) ?_
      exact (Aside.setEnt hq (movedOn (a.ent q))).trans (Aside.reqQueue _ _)
    · rw [send_last hspec hmore]
      refine Aside.trans (Aside.emit (blockOf q (a.ent q) (a.ent q).req ref) hq) ?_
      refine (Aside.setEnt hq (finished (a.ent q))).trans ?_
      refine Aside.quiet rfl rfl rfl rfl rfl ?_
      unfold noteLast
      dsimp only
      split
      · exact Function.update_of_ne hj.symm _ _
      · rfl

/-- An entity leaves its slot. -/
theorem Aside.leave (hq : q ≠ p) (hj : j ≠ i) (hid : id ≠ 0) (a : Adapter) (k : Nat) (e : Entity) :
    Aside p i id a (((a.freeEntity j).clearId k).setEnt q e) := by
  refine Aside.trans ?_ (Aside.setEnt hq e)
  refine ⟨rfl, ?_, ⟨[], (List.append_nil _).symm, (fun o ho => nomatch ho)⟩,
    ⟨[], (List.append_nil _).symm, (fun d hd => nomatch hd)⟩, ?_,
    fun h => h⟩
  · show (Function.update a.eTbl j _ i).e = (a.eTbl i).e
    rw [Function.update_of_ne hj.symm]
  · intro ch hch
    change (if a.flowControlIdTable ch = k then 0 else a.flowControlIdTable ch) = id at hch
    split at hch
    · exact absurd hch.symm hid
    · exact hch

theorem Aside.restoreRnr (hq : q ≠ p) (rnr : Nat) : Aside p i id a (a.restoreRnr q rnr) := Aside.setEnt hq _

theorem Aside.answerBlock (hq : q ≠ p) (k : Nat) : Aside p i id a (a.answerBlock k q r) := by
  unfold Adapter.answerBlock
  dsimp only
  refine Aside.trans (Aside.setEnt hq (Adapter.countDown (a.ent q))) ?_
  split
  · exact (Aside.setEnt hq _).trans (Aside.callback hq)
  · exact Aside.refl _

theorem Aside.answerFlowControl (hq : q ≠ p) (hid : id ≠ 0) : Aside p i id a (a.answerFlowControl q r) := by
  have hflow : Aside p i id a { a with flowControlIdTable := Function.update a.flowControlIdTable r.ch 0 } := by
    refine ⟨rfl, rfl, ⟨[], (List.append_nil _).symm, (fun o ho => nomatch ho)⟩,
      ⟨[], (List.append_nil _).symm, (fun d hd => nomatch hd)⟩,
      ?_, fun h => h⟩
    intro ch hch
    change Function.update a.flowControlIdTable r.ch 0 ch = id at hch
    by_cases hr : ch = r.ch
    · rw [hr, Function.update_self] at hch
      exact absurd hch.symm hid
    · rwa [Function.update_of_ne hr] at hch
  unfold Adapter.answerFlowControl
  dsimp only
  split
  · exact hflow.trans ((Aside.setEnt hq _).trans (Aside.callback hq))
  · exact hflow

theorem Aside.answerOkFc (hq : q ≠ p) (hr : r.id ≠ id) : Aside p i id a (a.answerOkFc q r) := by
  have hflow : Aside p i id a { a with
      flowControlIdTable := Function.update a.flowControlIdTable r.ch r.id
      flowControlSkipTable := Function.update a.flowControlSkipTable r.ch false } := by
    refine ⟨rfl, rfl, ⟨[], (List.append_nil _).symm, (fun o ho => nomatch ho)⟩,
      ⟨[], (List.append_nil _).symm, (fun d hd => nomatch hd)⟩,
      ?_, fun h => h⟩
    intro ch hch
    change Function.update a.flowControlIdTable r.ch r.id ch = id at hch
    by_cases hc : ch = r.ch
    · rw [hc, Function.update_self] at hch
      exact absurd hch hr
    · rwa [Function.update_of_ne hc] at hch
  unfold Adapter.answerOkFc
  dsimp only
  exact hflow.trans ((Aside.setEnt hq _).trans (Aside.callback hq))

theorem Aside.answer (hq : q ≠ p) (hid : id ≠ 0) (hr : r.id ≠ id) (k rnr : Nat) (removeComplete : Bool) :
    Aside p i id a (a.answer k q r rnr removeComplete) := by
  unfold Adapter.answer
  split
  · exact (Aside.answerOkFc hq hr).trans (Aside.restoreRnr hq rnr)
  · dsimp only
    have hrest : ∀ b : Adapter, Aside p i id a b → Aside p i id a (if removeComplete then b else b.restoreRnr q rnr) := by
      intro b hb
      split
      · exact hb
      · exact hb.trans (Aside.restoreRnr hq rnr)
    apply hrest
    split
    · unfold Adapter.answerFcEnd
      dsimp only
      refine Aside.trans (b := { a with noRcCancelling := Function.update a.noRcCancelling k true })
        (Aside.quiet rfl rfl rfl rfl rfl rfl) ?_
      exact (Aside.setEnt hq _).trans (Aside.callback hq)
    · split
      · exact Aside.answerFlowControl hq hid
      · exact Aside.answerBlock hq k

theorem Aside.rcKnown (hq : q ≠ p) (hj : j ≠ i) (hid : id ≠ 0) (hr : r.id ≠ id) : Aside p i id a (a.rcKnown j q r) := by
  unfold Adapter.rcKnown
  dsimp only
  refine Aside.trans (Aside.setEnt hq { a.ent q with rnr := 0, rcCh := r.ch }) ?_
  split
  · split
    · exact Aside.restoreRnr hq _
    · refine Aside.trans ?_ (Aside.answer hq hid hr j _ true)
      refine Aside.trans (b := (a.setEnt q { a.ent q with rnr := 0, rcCh := r.ch }).noteExtension j r) ?_ ?_
      · unfold Adapter.noteExtension
        split <;> exact Aside.quiet rfl rfl rfl rfl rfl rfl
      · generalize (a.setEnt q { a.ent q with rnr := 0, rcCh := r.ch }).noteExtension j r = c
        unfold Adapter.removed
        dsimp only
        refine Aside.trans (b := { c with
          removePending := Function.update c.removePending j false
          noRcCancelling := Function.update c.noRcCancelling j false }) ?_ (Aside.leave hq hj hid _ _ _)
        exact Aside.quiet rfl rfl rfl rfl rfl (Function.update_of_ne hj.symm _ _)
  · exact Aside.answer hq hid hr j _ false

theorem Aside.rcAssign (hq : q ≠ p) (hj : j ≠ i) (hid : id ≠ 0) : Aside p i id a (a.rcAssign j q r) := by
  unfold Adapter.rcAssign
  dsimp only
  refine Aside.trans (Aside.setEnt hq { a.ent q with
    id := r.id, rc := r.rc, more := (a.ent q).more &&& ~~~xbusy, complete := 0xff }) ?_
  refine Aside.trans (Aside.callback hq) ?_
  split
  · exact Aside.quiet rfl rfl rfl rfl rfl rfl
  · refine ⟨rfl, ?_, ⟨[], (List.append_nil _).symm, (fun o ho => nomatch ho)⟩,
      ⟨[], (List.append_nil _).symm, (fun d hd => nomatch hd)⟩, ?_,
      fun h => h⟩
    · show (Function.update a.eTbl j _ i).e = (a.eTbl i).e
      rw [Function.update_of_ne hj.symm]
    · intro ch hch
      change (if a.flowControlIdTable ch = r.id then 0 else a.flowControlIdTable ch) = id at hch
      split at hch
      · exact absurd hch.symm hid
      · exact hch

end Aside

/-! ## The request -/

/-- All blocks of a request: the last has its code, the others MInd. -/
structure Sent (e : Entity) (bs : List Block) : Prop where
  number : bs.length = blocks e.x
  codes : bs.map (·.req) = List.replicate (blocks e.x - 1) e.mInd ++ [e.req]
  data : bs.flatMap (·.data) = e.x.flatten

/-- With the blocks `bs` sent, the callbacks `cs`, and `n` return codes; the slot is in the queue until the last block is sent. -/
inductive Phase (p : Nat) (e : Entity) (bs : List Block) (cs : List (Nat × Entity)) (n : Nat) (queued : Prop) : Prop where
  | sending (hw : Waiting e bs.length) (hq : queued) (hcodes : ∀ b ∈ bs, b.req = e.mInd)
      (hdata : bs.flatMap (·.data) ++ left e.x e.xCurrent e.xOffset = e.x.flatten) (hcount : counted e.more + n = bs.length)
      (hcs : cs = [])
  | sent (hsent : Sent e bs) (hbusy : e.more &&& xbusy ≠ 0) (hmoref : e.more &&& xmoref ≠ 0) (hmorep : e.more &&& xmorep = 0)
      (hcount : counted e.more + n = bs.length) (hopen : n < bs.length) (hcs : cs = [])
  | done (hsent : Sent e bs) (hbusy : e.more &&& xbusy = 0) (hcount : n = bs.length)
      (hcs : ∃ e' : Entity, cs = [(p, e')] ∧ e'.more &&& xbusy = 0 ∧ e'.rc = rcOk)

/-- What the request consists of. -/
structure SameRequest (e e' : Entity) : Prop where
  id : e'.id = e.id
  ch : e'.reqCh = e.reqCh
  req : e'.req = e.req
  mInd : e'.mInd = e.mInd
  x : e'.x = e.x

theorem SameRequest.trans {e e' e'' : Entity} (h : SameRequest e e') (h' : SameRequest e' e'') : SameRequest e e'' :=
  ⟨h'.id.trans h.id, h'.ch.trans h.ch, h'.req.trans h.req, h'.mInd.trans h.mInd, h'.x.trans h.x⟩

/-- A chain of blocks with a callback at its end. -/
structure Chaining (e : Entity) : Prop where
  spec : e.id % 32 ≠ 0
  mInd : e.mInd ≠ 0
  req : e.req ≠ remove ∧ e.req ≠ uremove

theorem Chaining.same {e e' : Entity} (h : Chaining e) (hs : SameRequest e e') : Chaining e' := by
  refine ⟨?_, ?_, ?_⟩
  · rw [hs.id]
    exact h.spec
  · rw [hs.mInd]
    exact h.mInd
  · rw [hs.req]
    exact h.req

/-- From the request on, which has led to `a`, until `t`. -/
structure Track (p i : Nat) (a t : Adapter) (queued : Prop) (n : Nat) : Prop where
  slot : (t.eTbl i).e = some p
  same : SameRequest (a.ent p) (t.ent p)
  flow : ∀ ch, t.flowControlIdTable ch ≠ (a.ent p).id
  remove : t.removePending i = false
  log : ∃ os ds, t.out = a.out ++ os ∧ t.calls = a.calls ++ ds ∧
    (∀ b ∈ os.filter (·.e = p), b.data.length ≤ 270 ∧ b.id = (a.ent p).id ∧ b.ch = (a.ent p).reqCh) ∧
    Phase p (t.ent p) (os.filter (·.e = p)) (ds.filter (·.1 = p)) n queued

section Track

variable {a t t' : Adapter} {p i n ref : Nat} {queued queued' : Prop} {Q : List Nat} {r : Adapter.ReturnCode}

theorem filter_aside {α : Type} {f : α → Nat} {os os' : List α} (h : ∀ o ∈ os', f o ≠ p) :
    (os ++ os').filter (fun o => f o = p) = os.filter fun o => f o = p := by
  rw [List.filter_append]
  have hnone : os'.filter (fun o => f o = p) = [] := by
    rw [List.filter_eq_nil_iff]
    intro o ho
    rw [decide_eq_true_eq]
    exact h o ho
  rw [hnone, List.append_nil]

theorem filter_own {α : Type} {f : α → Nat} {os : List α} {o : α} (h : f o = p) :
    (os ++ [o]).filter (fun o => f o = p) = (os.filter fun o => f o = p) ++ [o] := by
  rw [List.filter_append, List.filter_cons_of_pos (by rw [decide_eq_true_eq]; exact h), List.filter_nil]

theorem Phase.imp {e : Entity} {bs : List Block} {cs : List (Nat × Entity)} (h : Phase p e bs cs n queued)
    (hq : queued → queued') :
    Phase p e bs cs n queued' := by
  cases h with
  | sending hw hin hcodes hdata hcount hcs => exact .sending hw (hq hin) hcodes hdata hcount hcs
  | sent hsent hbusy hmoref hmorep hcount hopen hcs => exact .sent hsent hbusy hmoref hmorep hcount hopen hcs
  | done hsent hbusy hcount hcs => exact .done hsent hbusy hcount hcs

theorem Track.aside (h : Track p i a t queued n) (hs : Aside p i (a.ent p).id t t') (hq : queued → queued') :
    Track p i a t' queued' n := by
  obtain ⟨os, ds, hos, hds, hsmall, hphase⟩ := h.log
  obtain ⟨os', hos', hone⟩ := hs.out
  obtain ⟨ds', hds', hdne⟩ := hs.calls
  refine ⟨hs.slot.trans h.slot, ?_, fun ch hch => h.flow ch (hs.flow ch hch), ?_, os ++ os', ds ++ ds', ?_, ?_, ?_, ?_⟩
  · rw [hs.ent]
    exact h.same
  · cases hr : t'.removePending i with
    | false => rfl
    | true =>
      have hr' := hs.remove hr
      rw [h.remove] at hr'
      cases hr'
  · rw [hos', hos, List.append_assoc]
  · rw [hds', hds, List.append_assoc]
  · rw [filter_aside hone]
    exact hsmall
  · rw [filter_aside hone, filter_aside hdne, hs.ent]
    exact hphase.imp hq

/-! ## A block of the chain -/

theorem flatMap_snoc (bs : List Block) (b : Block) : (bs ++ [b]).flatMap (·.data) = bs.flatMap (·.data) ++ b.data := by
  rw [List.flatMap_append, List.flatMap_singleton]

/-- A full block, with data behind it. -/
theorem Phase.more {e : Entity} {bs : List Block} {cs : List (Nat × Entity)} {k : Nat} (h : Phase p e bs cs n queued)
    (hc : Chaining e) (hwait : Waiting e k) (hmore : (Adapter.nextData e).1 < e.x.length) (hq : queued') :
    Phase p (movedOn e) (bs ++ [blockOf p e e.mInd ref]) cs n queued' := by
  cases h with
  | sent _ _ hmoref => exact absurd hwait.unsent hmoref
  | done _ hbusy => exact absurd hbusy hwait.busy
  | sending hw _ hcodes hdata hcount hcs =>
    have hlen : (bs ++ [blockOf p e e.mInd ref]).length = bs.length + 1 := by
      rw [List.length_append, List.length_singleton]
    refine .sending ?_ hq ?_ ?_ ?_ hcs
    · rw [hlen]
      exact hw.next hc.spec ⟨hmore, hc.mInd⟩
    · intro b hb
      rcases List.mem_append.mp hb with hb | hb
      · exact hcodes b hb
      · rw [List.mem_singleton.mp hb]
        rfl
    · rw [flatMap_snoc, List.append_assoc]
      have hcopy := hw.position.nextData.same
      rw [List.nil_append] at hcopy
      show bs.flatMap (·.data) ++ ((Adapter.nextData e).2.2 ++ left e.x (Adapter.nextData e).1 (Adapter.nextData e).2.1)
        = e.x.flatten
      rw [hcopy]
      exact hdata
    · rw [hlen]
      have hlt := (hw.lt hc.spec ⟨hmore, hc.mInd⟩).1
      obtain ⟨-, -, -, hone⟩ := more_next e.more hw.busy hw.unsent (by omega)
      show counted ((e.more + 1) ||| xmorep) + n = bs.length + 1
      omega

/-- The last block takes the rest of the data. -/
theorem Phase.last {e : Entity} {bs : List Block} {cs : List (Nat × Entity)} {k : Nat} (h : Phase p e bs cs n queued)
    (hwait : Waiting e k) (hlast : ¬ (Adapter.nextData e).1 < e.x.length) :
    Phase p (finished e) (bs ++ [blockOf p e e.req ref]) cs n queued' := by
  cases h with
  | sent _ _ hmoref => exact absurd hwait.unsent hmoref
  | done _ hbusy => exact absurd hbusy hwait.busy
  | sending hw _ hcodes hdata hcount hcs =>
    obtain ⟨hrest, hnumber⟩ := hw.position.last hlast
    have hlen : (bs ++ [blockOf p e e.req ref]).length = bs.length + 1 := by
      rw [List.length_append, List.length_singleton]
    obtain ⟨hbusy, hpart, hmoref, hone⟩ := more_last e.more hw.busy hw.count_lt
    refine .sent ⟨?_, ?_, ?_⟩ hbusy hmoref hpart ?_ ?_ hcs
    · rw [hlen]
      exact hnumber.symm
    · have hall : bs.map (·.req) = List.replicate bs.length e.mInd := by
        rw [List.eq_replicate_iff, List.length_map]
        refine ⟨rfl, ?_⟩
        intro c hc
        obtain ⟨b, hb, rfl⟩ := List.mem_map.mp hc
        exact hcodes b hb
      show (bs ++ [blockOf p e e.req ref]).map (·.req) = List.replicate (blocks e.x - 1) e.mInd ++ [e.req]
      rw [List.map_append, hall, hnumber, Nat.add_sub_cancel]
      rfl
    · rw [flatMap_snoc]
      show bs.flatMap (·.data) ++ (Adapter.nextData e).2.2 = e.x.flatten
      rw [hrest]
      exact hdata
    · rw [hlen]
      show counted (((e.more + 1) ||| xmoref) &&& ~~~xmorep) + n = bs.length + 1
      omega
    · rw [hlen]
      omega

/-- The entity sends a block of its request. -/
theorem Track.block (h : Track p i a t queued n) {b : Block} (hslot : (t'.eTbl i).e = (t.eTbl i).e)
    (hsame : SameRequest (t.ent p) (t'.ent p)) (hflow : t'.flowControlIdTable = t.flowControlIdTable)
    (hremove : t'.removePending i = false) (hout : t'.out = t.out ++ [b]) (hcalls : t'.calls = t.calls) (hown : b.e = p)
    (hblock : b.data.length ≤ 270 ∧ b.id = (a.ent p).id ∧ b.ch = (a.ent p).reqCh)
    (hphase : ∀ bs cs, Phase p (t.ent p) bs cs n queued → Phase p (t'.ent p) (bs ++ [b]) cs n queued') :
    Track p i a t' queued' n := by
  obtain ⟨os, ds, hos, hds, hsmall, hbefore⟩ := h.log
  refine ⟨hslot.trans h.slot, h.same.trans hsame, ?_, hremove, os ++ [b], ds, ?_, hcalls.trans hds, ?_, ?_⟩
  · rw [hflow]
    exact h.flow
  · rw [hout, hos, List.append_assoc]
  · rw [filter_own (f := Block.e) hown]
    intro o ho
    rcases List.mem_append.mp ho with ho | ho
    · exact hsmall o ho
    · rw [List.mem_singleton.mp ho]
      exact hblock
  · rw [filter_own (f := Block.e) hown]
    exact hphase _ _ hbefore

/-- A turn for the entity sends a block, and is the last one or puts the slot into the queue again. -/
theorem Track.turn (ht : Tables t) (hq : Queued t (i :: Q)) (h : Track p i a t True n) (hc : Chaining (a.ent p)) (ref : Nat) :
    ∃ Q', Queued (t.nextReq.send i p ref) Q' ∧ Track p i a (t.nextReq.send i p ref) (i ∈ Q') n := by
  obtain ⟨-, -, hnent⟩ := nextReq_out t
  have hpass : Track p i a t.nextReq True n := h.aside (Aside.nextReq t) id
  have hturn := hq.turn ht h.slot ref
  obtain ⟨q, k, hqp, hwait⟩ := hq.waiting i List.mem_cons_self
  rw [h.slot] at hqp
  cases hqp
  rw [← hnent] at hwait
  have hchain := hc.same hpass.same
  have hblock : ∀ c, (blockOf p (t.nextReq.ent p) c ref).data.length ≤ 270 ∧
      (blockOf p (t.nextReq.ent p) c ref).id = (a.ent p).id ∧ (blockOf p (t.nextReq.ent p) c ref).ch = (a.ent p).reqCh :=
    fun _ => ⟨hwait.position.nextData.small, hpass.same.id, hpass.same.ch⟩
  by_cases hmore : (Adapter.nextData (t.nextReq.ent p)).1 < (t.nextReq.ent p).x.length ∧ (t.nextReq.ent p).mInd ≠ 0
  · rw [send_more hchain.spec hmore] at hturn ⊢
    have hself := Adapter.setEnt_self (t.nextReq.emit (blockOf p (t.nextReq.ent p) (t.nextReq.ent p).mInd ref)) p
      (movedOn (t.nextReq.ent p))
    obtain ⟨hent, -, -⟩ := reqQueue_rest ((t.nextReq.emit (blockOf p (t.nextReq.ent p) (t.nextReq.ent p).mInd ref)).setEnt p
      (movedOn (t.nextReq.ent p))) (t.nextReq.ent p).no
    rcases hturn with ⟨-, hmoref⟩ | ⟨hnext, -⟩
    · rw [hent, hself] at hmoref
      exact absurd (hwait.next hchain.spec hmore).unsent hmoref
    · have hsent : Track p i a ((t.nextReq.emit (blockOf p (t.nextReq.ent p) (t.nextReq.ent p).mInd ref)).setEnt p
          (movedOn (t.nextReq.ent p))) True n := by
        refine hpass.block rfl ?_ rfl hpass.remove rfl rfl rfl (hblock _) fun bs cs hphase => ?_
        · rw [hself]
          exact ⟨rfl, rfl, rfl, rfl, rfl⟩
        · rw [hself]
          exact hphase.more hchain hwait hmore.1 trivial
      exact ⟨Q ++ [i], hnext, hsent.aside (Aside.reqQueue _ _) fun _ => List.mem_append_right Q List.mem_cons_self⟩
  · rw [send_last hchain.spec hmore] at hturn ⊢
    have hself := Adapter.setEnt_self (t.nextReq.emit (blockOf p (t.nextReq.ent p) (t.nextReq.ent p).req ref)) p
      (finished (t.nextReq.ent p))
    rcases hturn with ⟨hnext, -⟩ | ⟨hnext, -⟩
    · refine ⟨Q, hnext, ?_⟩
      refine hpass.block rfl ?_ rfl ?_ rfl rfl rfl (hblock _) fun bs cs hphase => ?_
      · show SameRequest _ (((t.nextReq.emit _).setEnt p _).ent p)
        rw [hself]
        exact ⟨rfl, rfl, rfl, rfl, rfl⟩
      · show (if (t.nextReq.ent p).req = Divas.Idi.remove then Function.update t.nextReq.removePending i true
          else t.nextReq.removePending) i = false
        rw [if_neg hchain.req.1]
        exact hpass.remove
      · show Phase p (((t.nextReq.emit _).setEnt p _).ent p) _ _ n _
        rw [hself]
        exact hphase.last hwait fun hlt => hmore ⟨hlt, hchain.mInd⟩
    · -- the entity does not wait with all its blocks sent
      obtain ⟨q, k', hqp, hw'⟩ := hnext.waiting i (List.mem_append_right Q List.mem_cons_self)
      change (t.nextReq.eTbl i).e = some q at hqp
      rw [hpass.slot] at hqp
      cases hqp
      have hunsent : (((t.nextReq.emit _).setEnt p (finished (t.nextReq.ent p))).ent p).more &&& xmoref = 0 := hw'.unsent
      rw [hself] at hunsent
      exact absurd hunsent (more_last (t.nextReq.ent p).more hwait.busy hwait.count_lt).2.2.1

/-- In a pass, with the entity of the turn before. -/
def Chained (p i : Nat) (a : Adapter) (n : Nat) (t : Adapter) (this : Option Nat) : Prop :=
  Tables t ∧ ∃ Q, Queued t Q ∧ Track p i a t (i ∈ Q) n ∧
    ∀ q, this = some q → ∃ j, (t.eTbl j).e = some q ∧ ((t.ent q).req = uremove → j ∉ Q)

theorem Track.imp (h : Track p i a t queued n) (hq : queued → queued') : Track p i a t queued' n := h.aside (Aside.refl t) hq

theorem Chained.turn (hc : Chaining (a.ent p)) (t : Adapter) (this : Option Nat) (ref : Nat) (h : Chained p i a n t this)
    (hhead : t.head ≠ 0) : Chained p i a n (t.turn ref).1 (t.turn ref).2 := by
  obtain ⟨ht, Q, hq, htrack, -⟩ := h
  obtain ⟨j, q, Q, rfl, hj⟩ := hq.first hhead
  have hsame := SameTables.turn t ref
  obtain ⟨hjQ, -⟩ := List.nodup_cons.mp hq.linked.nodup
  have hturn := hq.turn ht hj ref
  rw [turn_eq hq.head_eq hj] at hsame ⊢
  refine ⟨ht.congr hsame, ?_⟩
  by_cases hji : j = i
  · subst hji
    have hp := htrack.slot
    rw [hj] at hp
    cases hp
    obtain ⟨Q', hnext, htrack'⟩ := (htrack.imp fun _ => trivial).turn ht hq hc ref
    refine ⟨Q', hnext, htrack', ?_⟩
    intro r hr
    cases hr
    refine ⟨j, (hsame.slots j).trans hj, ?_⟩
    intro hu
    exact absurd (htrack'.same.req.symm.trans hu) hc.req.2
  · have hqp : q ≠ p := by
      rintro rfl
      exact hji (ht.slot_eq htrack.slot hj)
    have haside := (Aside.nextReq t).trans (@Aside.send p q i j (a.ent p).id hqp hji t.nextReq ref)
    rcases hturn with ⟨hnext, -⟩ | ⟨hnext, hreq⟩
    · refine ⟨Q, hnext, htrack.aside haside fun hi => (List.mem_cons.mp hi).resolve_left (Ne.symm hji), ?_⟩
      intro r hr
      cases hr
      exact ⟨j, (hsame.slots j).trans hj, fun _ => hjQ⟩
    · refine ⟨Q ++ [j], hnext, htrack.aside haside fun hi => ?_, ?_⟩
      · exact List.mem_append_left _ ((List.mem_cons.mp hi).resolve_left (Ne.symm hji))
      · intro r hr
        cases hr
        refine ⟨j, (hsame.slots j).trans hj, ?_⟩
        intro hu
        exact absurd ((hsame.ent q).2.2.symm.trans hu) hreq

/-- The states between the events. -/
def Chain (p i : Nat) (a : Adapter) (n : Nat) (t : Adapter) : Prop := Tables t ∧ ∃ Q, Queued t Q ∧ Track p i a t (i ∈ Q) n

theorem ne_zero_of_spec {id : Nat} (h : id % 32 ≠ 0) : id ≠ 0 := by
  rintro rfl
  exact h rfl

theorem Chain.prOut (hc : Chaining (a.ent p)) (h : Chain p i a n t) (ready : Nat) (refs : Nat → Nat) :
    Chain p i a n (t.prOut ready refs) := by
  obtain ⟨ht, Q, hq, htrack⟩ := h
  unfold Adapter.prOut
  by_cases hhead : t.head = 0
  · rw [if_pos hhead]
    exact ⟨ht, Q, hq, htrack⟩
  · rw [if_neg hhead]
    by_cases hready : ready = 0
    · rw [if_pos hready]
      refine ⟨ht.congr ⟨rfl, rfl, fun _ => rfl, rfl, rfl, fun _ => ⟨rfl, rfl, rfl⟩⟩, Q, hq.congr rfl rfl rfl rfl rfl rfl, ?_⟩
      exact htrack.aside (Aside.quiet rfl rfl rfl rfl rfl rfl) fun hi => hi
    · rw [if_neg hready]
      obtain ⟨ht', Q', hq', htrack', hthis⟩ :=
        loop_invariant refs (Chained.turn hc) ready 0 t none ⟨ht, Q, hq, htrack, fun q hq => nomatch hq⟩
      dsimp only
      generalize Adapter.prOutLoop refs ready 0 t none = s at ht' hq' htrack' hthis
      cases hlast : s.2 with
      | none => exact ⟨ht', Q', hq', htrack'⟩
      | some q =>
        obtain ⟨j, hj, hjQ⟩ := hthis q hlast
        refine ⟨(ht'.uremoved hj).1, Q', ?_⟩
        unfold Adapter.uremoved
        dsimp only
        split
        case isFalse hn => exact ⟨hq', htrack'⟩
        case isTrue hu =>
          have hspec : (s.1.ent q).id % 32 ≠ 0 := fun hz => ht'.assigns j q hj hz hu.1
          have hqp : q ≠ p := by
            rintro rfl
            exact hc.req.2 (htrack'.same.req.symm.trans hu.1)
          have hji : j ≠ i := by
            rintro rfl
            have hp := htrack'.slot
            rw [hj] at hp
            cases hp
            exact hqp rfl
          rw [ht'.specific j q hj hspec]
          refine ⟨hq'.leave ht' hj (hjQ hu.1) _ _, htrack'.aside ?_ fun hi => hi⟩
          exact Aside.leave hqp hji (ne_zero_of_spec hc.spec) _ _ _

theorem Chain.ask {k : Ask} (h : Chain p i a n t) (hok : AskOk t k) (hk : k.p ≠ p) : Chain p i a n (t.ask k) := by
  obtain ⟨ht, Q, hq, htrack⟩ := h
  obtain ⟨hnext, -⟩ := hq.ask ht hok
  exact ⟨ht.ask hok.tables, Q ++ [t.slotOf k], hnext,
    htrack.aside (Aside.ask ht hok htrack.slot hk) fun hi => List.mem_append_left _ hi⟩

/-! ## A return code to the chain -/

/-- The entity at the callback. -/
def answered (e : Entity) (r : Adapter.ReturnCode) : Entity :=
  { e with rnr := 0, rcCh := r.ch, rc := r.rc, more := (e.more - 1) &&& ~~~xbusy, complete := 0xff }

theorem rcKnown_more (h : Ordinary t i r) (hcount : (t.ent p).more &&& xmorec ≠ 0) (hleft : counted (t.ent p).more ≠ 1) :
    t.rcKnown i p r = t.setEnt p (oneLess (t.ent p) r) := by
  obtain ⟨-, -, -, hone⟩ := more_down (t.ent p).more hcount
  rw [rcKnown_ordinary h]
  unfold Adapter.answerBlock Adapter.countDown
  dsimp only
  rw [Adapter.setEnt_self, setEnt_setEnt]
  dsimp only
  rw [if_pos hcount, Adapter.setEnt_self]
  dsimp only
  rw [if_neg]
  · unfold Adapter.restoreRnr
    rw [Adapter.setEnt_self, setEnt_setEnt]
    rfl
  · rintro ⟨-, hdone⟩
    have hzero := ((more_answered _).mp hdone).2
    omega

theorem rcKnown_last (h : Ordinary t i r) (hcount : counted (t.ent p).more = 1) (hmorep : (t.ent p).more &&& xmorep = 0)
    (hmoref : (t.ent p).more &&& xmoref ≠ 0) :
    t.rcKnown i p r = ((t.setEnt p (answered (t.ent p) r)).callback p).restoreRnr p (t.ent p).rnr := by
  have hne : (t.ent p).more &&& xmorec ≠ 0 := by
    intro hz
    have hzero := (counted_eq_zero _).mpr hz
    omega
  obtain ⟨-, hpart, hsent, hone⟩ := more_down (t.ent p).more hne
  rw [rcKnown_ordinary h]
  unfold Adapter.answerBlock Adapter.countDown
  dsimp only
  rw [Adapter.setEnt_self, setEnt_setEnt]
  dsimp only
  rw [if_pos hne, Adapter.setEnt_self]
  dsimp only
  rw [if_pos, setEnt_setEnt]
  · rfl
  · refine ⟨Or.inr ?_, (more_answered _).mpr ⟨hpart.trans hmorep, by omega⟩⟩
    rw [hsent]
    exact hmoref

theorem Track.answer (h : Track p i a t queued n) (hr : r.id = (a.ent p).id) (hrc : r.rc = rcOk)
    (hext : r.extendedInfoType ≠ rcTypeOkFc)
    (hopen : ∀ os, t.out = a.out ++ os → n < (os.filter (·.e = p)).length) : Track p i a (t.rcKnown i p r) queued (n + 1) := by
  have hord : Ordinary t i r := by
    refine ⟨?_, hext, ?_, h.remove⟩
    · rw [hrc]
      decide
    · rw [hr]
      exact h.flow r.ch
  obtain ⟨os, ds, hos, hds, hsmall, hphase⟩ := h.log
  have hn := hopen os hos
  have hself := Adapter.setEnt_self t p (oneLess (t.ent p) r)
  have hone : ∀ e : Entity, counted e.more + n = (os.filter (·.e = p)).length → e.more &&& xmorec ≠ 0 := by
    intro e he hz
    have hzero := (counted_eq_zero _).mpr hz
    omega
  cases hphase with
  | sending hw hq hcodes hdata hcount hcs =>
    have hne := hone _ hcount
    rw [rcKnown_waiting hord hw hne]
    refine ⟨h.slot, ?_, h.flow, h.remove, os, ds, hos, hds, hsmall, ?_⟩
    · rw [hself]
      exact ⟨h.same.id, h.same.ch, h.same.req, h.same.mInd, h.same.x⟩
    · rw [hself]
      refine .sending (hw.oneLess hne) hq hcodes hdata ?_ hcs
      have hdown := (more_down (t.ent p).more hne).2.2.2
      show counted ((t.ent p).more - 1) + (n + 1) = _
      omega
  | sent hsent hbusy hmoref hmorep hcount hopen' hcs =>
    have hne := hone _ hcount
    obtain ⟨hb, hpart, hs, hdown⟩ := more_down (t.ent p).more hne
    by_cases hlast : counted (t.ent p).more = 1
    · rw [rcKnown_last hord hlast hmorep hmoref]
      have hcall := Adapter.setEnt_self t p (answered (t.ent p) r)
      have hrest := Adapter.setEnt_self ((t.setEnt p (answered (t.ent p) r)).callback p) p
        { answered (t.ent p) r with rnr := (t.ent p).rnr }
      have hfinal : ((t.setEnt p (answered (t.ent p) r)).callback p).restoreRnr p (t.ent p).rnr =
          ((t.setEnt p (answered (t.ent p) r)).callback p).setEnt p { answered (t.ent p) r with rnr := (t.ent p).rnr } := by
        unfold Adapter.restoreRnr
        congr 1
        show ({ (t.setEnt p (answered (t.ent p) r)).ent p with rnr := (t.ent p).rnr } : Entity) = _
        rw [hcall]
      rw [hfinal]
      have hidle := (more_done ((t.ent p).more - 1)).1
      refine ⟨h.slot, ?_, h.flow, h.remove, os, ds ++ [(p, answered (t.ent p) r)], hos, ?_, hsmall, ?_⟩
      · rw [hrest]
        exact ⟨h.same.id, h.same.ch, h.same.req, h.same.mInd, h.same.x⟩
      · show t.calls ++ [(p, (t.setEnt p (answered (t.ent p) r)).ent p)] = _
        rw [hcall, hds, List.append_assoc]
      · have hown : (ds ++ [(p, answered (t.ent p) r)]).filter (·.1 = p) = ds.filter (·.1 = p) ++ [(p, answered (t.ent p) r)] :=
          filter_own (f := Prod.fst (α := Nat) (β := Entity)) rfl
        rw [hrest, hown, hcs]
        refine .done ⟨hsent.number, hsent.codes, hsent.data⟩ hidle ?_ ⟨_, rfl, hidle, hrc⟩
        omega
    · rw [rcKnown_more hord hne hlast]
      refine ⟨h.slot, ?_, h.flow, h.remove, os, ds, hos, hds, hsmall, ?_⟩
      · rw [hself]
        exact ⟨h.same.id, h.same.ch, h.same.req, h.same.mInd, h.same.x⟩
      · rw [hself]
        refine .sent ⟨hsent.number, hsent.codes, hsent.data⟩ ?_ ?_ ?_ ?_ ?_ hcs
        · show ((t.ent p).more - 1) &&& xbusy ≠ 0
          rw [hb]
          exact hbusy
        · show ((t.ent p).more - 1) &&& xmoref ≠ 0
          rw [hs]
          exact hmoref
        · show ((t.ent p).more - 1) &&& xmorep = 0
          rw [hpart]
          exact hmorep
        · show counted ((t.ent p).more - 1) + (n + 1) = _
          omega
        · omega
  | done hsent hbusy hcount hcs => omega

/-- A return code for the block of the client with this Id. -/
def isAnswer (id : Nat) : Adapter.Ev → Bool
  | .rc r => r.id = id ∧ r.rc ≠ readyIntRc
  | _ => false

theorem Chain.rc (hc : Chaining (a.ent p)) (h : Chain p i a n t) (hok : RcFits t r)
    (hown : isAnswer (a.ent p).id (.rc r) = true → r.rc = rcOk ∧ r.extendedInfoType ≠ rcTypeOkFc ∧
      ∀ os, t.out = a.out ++ os → n < (os.filter (·.e = p)).length) :
    Chain p i a (n + if isAnswer (a.ent p).id (.rc r) then 1 else 0) (t.step (.rc r)) := by
  obtain ⟨ht, Q, hq, htrack⟩ := h
  refine ⟨(ht.rc hok.tables).1, Q, hq.rc ht hok, ?_⟩
  have hpid : (t.ent p).id = (a.ent p).id := htrack.same.id
  have hslot := htrack.slot
  obtain ⟨hpos, -, -⟩ := ht.slot i p hslot
  show Track p i a ((t.isdnRc r).elim t (·.2)) (i ∈ Q) _
  unfold Adapter.isdnRc
  by_cases hready : r.rc = readyIntRc
  · have hno : isAnswer (a.ent p).id (.rc r) = false := by
      unfold isAnswer
      rw [decide_eq_false_iff_not]
      exact fun hyes => hyes.2 hready
    rw [if_pos hready, hno]
    split
    · exact htrack.aside (Aside.quiet rfl rfl rfl rfl rfl rfl) fun hi => hi
    · exact htrack
  · rw [if_neg hready]
    dsimp only
    by_cases hid : r.id = (a.ent p).id
    · have hyes : isAnswer (a.ent p).id (.rc r) = true := by
        unfold isAnswer
        rw [decide_eq_true_eq]
        exact ⟨hid, hready⟩
      obtain ⟨hrc, hext, hopen⟩ := hown hyes
      have hlead : t.idTable r.id = i := by
        rw [hid, ← hpid]
        apply ht.specific i p hslot
        rw [hpid]
        exact hc.spec
      rw [hyes, hlead, if_pos (Nat.ne_of_gt hpos), hslot]
      exact htrack.answer hid hrc hext hopen
    · have hno : isAnswer (a.ent p).id (.rc r) = false := by
        unfold isAnswer
        rw [decide_eq_false_iff_not]
        exact fun hyes => hid hyes.1
      rw [hno]
      have hother : ∀ j q, (t.eTbl j).e = some q → (t.ent q).id ≠ (a.ent p).id → q ≠ p ∧ j ≠ i := by
        intro j q hj hqid
        have hqp : q ≠ p := by
          rintro rfl
          exact hqid hpid
        refine ⟨hqp, ?_⟩
        rintro rfl
        rw [hslot] at hj
        cases hj
        exact hqp rfl
      by_cases hknown : t.idTable r.id = 0
      · rw [if_neg (not_not.mpr hknown)]
        by_cases hassign : r.rc / 16 * 16 = assignRc
        · rw [if_pos hassign]
          have hfits := hok hready
          rw [if_neg (not_not.mpr hknown)] at hfits
          cases hget : t.getAssign r.ref with
          | none => exact htrack
          | some j =>
            rw [Option.bind_some]
            by_cases hj0 : j = 0
            · rw [if_neg (not_not.mpr hj0)]
              exact htrack
            · rw [if_pos hj0]
              cases hj : (t.eTbl j).e with
              | none => exact htrack
              | some q =>
                have hnone := ((hfits hassign).1 j q hget hj).1
                obtain ⟨hqp, hji⟩ := hother j q hj (fun he => hc.spec (by rw [← he]; exact hnone))
                exact htrack.aside (Aside.rcAssign hqp hji (ne_zero_of_spec hc.spec)) fun hi => hi
        · rw [if_neg hassign]
          exact htrack
      · rw [if_pos hknown]
        obtain ⟨-, q, hj, hqid⟩ := ht.known r.id hknown
        rw [hj]
        obtain ⟨hqp, hji⟩ := hother _ q hj (fun he => hid (hqid.symm.trans he))
        exact htrack.aside (Aside.rcKnown hqp hji (ne_zero_of_spec hc.spec) hid) fun hi => hi

end Track

/-! ## Runs -/

/-- What the card has got for `p` since `a`. -/
def blocksFor (p : Nat) (a t : Adapter) : List Block := (t.out.drop a.out.length).filter (·.e = p)

/-- The callbacks of `p` since `a`. -/
def callsFor (p : Nat) (a t : Adapter) : List (Nat × Entity) := (t.calls.drop a.calls.length).filter (·.1 = p)

def answers (id : Nat) (es : List Adapter.Ev) : Nat := es.countP (isAnswer id)

/-- Client `p` waits. The return codes to it are OK, without flow control, and each answers a block that is sent and not
    answered: `n` have come before. -/
def Answered (p : Nat) (a : Adapter) : Adapter → Nat → List Adapter.Ev → Prop
  | _, _, [] => True
  | t, n, ev :: es =>
    (match ev with
    | .ask k => k.p ≠ p
    | .prOut _ _ => True
    | .rc r => isAnswer (a.ent p).id ev → r.rc = rcOk ∧ r.extendedInfoType ≠ rcTypeOkFc ∧ n < (blocksFor p a t).length) ∧
      Answered p a (t.step ev) (n + if isAnswer (a.ent p).id ev then 1 else 0) es

section Run

variable {a t : Adapter} {p i n : Nat}

theorem Chain.step (hc : Chaining (a.ent p)) (h : Chain p i a n t) {ev : Adapter.Ev} (hok : QueueOk t ev) {es : List Adapter.Ev}
    (hans : Answered p a t n (ev :: es)) : Chain p i a (n + if isAnswer (a.ent p).id ev then 1 else 0) (t.step ev) := by
  obtain ⟨hev, -⟩ := hans
  cases ev with
  | ask k => exact h.ask hok hev
  | prOut ready refs => exact h.prOut hc ready refs
  | rc r =>
    refine h.rc hc hok ?_
    intro hyes
    obtain ⟨hrc, hext, hopen⟩ := hev hyes
    refine ⟨hrc, hext, ?_⟩
    intro os hos
    unfold blocksFor at hopen
    rw [hos, List.drop_left] at hopen
    exact hopen

theorem Chain.run (hc : Chaining (a.ent p)) (es : List Adapter.Ev) : ∀ t n, Chain p i a n t → Along Adapter.step QueueOk t es →
    Answered p a t n es → Chain p i a (n + answers (a.ent p).id es) (run Adapter.step t es) := by
  induction es with
  | nil => exact fun t n h _ _ => h
  | cons ev es ih =>
    intro t n h hok hans
    have hnext := ih _ _ (h.step hc hok.1 hans) hok.2 hans.2
    have hcount : answers (a.ent p).id (ev :: es) = (if isAnswer (a.ent p).id ev then 1 else 0) + answers (a.ent p).id es := by
      unfold answers
      rw [List.countP_cons, Nat.add_comm]
    rw [hcount, ← Nat.add_assoc]
    exact hnext

/-- The request of an entity with a specific Id. -/
theorem ask_eq {k : Ask} (hspec : (Adapter.filledIn (a.ent k.p) k).id % 32 ≠ 0) (hbusy : (a.ent k.p).more &&& xbusy = 0) :
    a.ask k = (a.setEnt k.p { Adapter.filledIn (a.ent k.p) k with
      more := ((a.ent k.p).more ||| xbusy) &&& ~~~xmoref, xCurrent := 0, xOffset := 0 }).reqQueue (a.ent k.p).no := by
  have hfree : (Adapter.filledIn (a.ent k.p) k).more &&& xbusy = 0 := hbusy
  unfold Adapter.ask Adapter.request Adapter.start
  dsimp only
  rw [Adapter.setEnt_self, if_neg hspec, if_neg (not_not.mpr hfree), setEnt_setEnt]
  rfl

theorem Chain.start (ht : Tables t) {Q : List Nat} (hq : Queued t Q) {k : Ask} (hok : AskOk t k)
    (hc : Chaining (Adapter.filledIn (t.ent k.p) k)) (hflow : ∀ ch, t.flowControlIdTable ch ≠ (t.ent k.p).id)
    (hremove : t.removePending (t.ent k.p).no = false) :
    Chain k.p (t.ent k.p).no (t.ask k) 0 (t.ask k) ∧ SameRequest (Adapter.filledIn (t.ent k.p) k) ((t.ask k).ent k.p) := by
  obtain ⟨hnext, hj⟩ := hq.ask ht hok
  have ht' := ht.ask hok.tables
  generalize t.slotOf k = j at hnext hj
  unfold AskOk at hok
  dsimp only at hok
  rw [if_neg (show ¬ k.id.getD (t.ent k.p).id % 32 = 0 from hc.spec)] at hok
  obtain ⟨hid, hslot, hbusy, -⟩ := hok
  have hself := Adapter.setEnt_self t k.p { Adapter.filledIn (t.ent k.p) k with
    more := ((t.ent k.p).more ||| xbusy) &&& ~~~xmoref, xCurrent := 0, xOffset := 0 }
  rw [ask_eq hc.spec hbusy] at ht' hnext hj ⊢
  generalize hb : t.setEnt k.p { Adapter.filledIn (t.ent k.p) k with
    more := ((t.ent k.p).more ||| xbusy) &&& ~~~xmoref, xCurrent := 0, xOffset := 0 } = b at hself ht' hnext hj ⊢
  obtain ⟨hent, -, -⟩ := reqQueue_rest b (t.ent k.p).no
  have hsame := SameTables.reqQueue b (t.ent k.p).no
  have hremoved : (b.reqQueue (t.ent k.p).no).removePending = t.removePending := by
    unfold Adapter.reqQueue
    rw [← hb]
    dsimp only
    split <;> rfl
  have hslots : ((b.reqQueue (t.ent k.p).no).eTbl (t.ent k.p).no).e = some k.p := by
    rw [hsame.slots, ← hb]
    exact hslot
  have hji : j = (t.ent k.p).no := ht'.slot_eq hslots hj
  subst hji
  obtain ⟨q, m, hqp, hw⟩ := hnext.waiting _ (List.mem_append_right Q List.mem_cons_self)
  rw [hslots] at hqp
  cases hqp
  have hfirst : m = 0 := by
    have htaken := hw.position.taken
    rw [hent, hself] at htaken
    change k.x.flatten.length = 270 * m + (left k.x 0 0).length at htaken
    rw [left_start] at htaken
    omega
  have hcount : counted ((b.reqQueue (t.ent k.p).no).ent k.p).more = 0 := by
    have hle := hw.count
    omega
  refine ⟨⟨ht', Q ++ [(t.ent k.p).no], hnext, hslots, ⟨rfl, rfl, rfl, rfl, rfl⟩, ?_, ?_, [], [], (List.append_nil _).symm,
    (List.append_nil _).symm, (fun b hb => nomatch hb), ?_⟩, ?_⟩
  · intro ch
    rw [hsame.flow, hent, hself, ← hb]
    show t.flowControlIdTable ch ≠ k.id.getD (t.ent k.p).id
    rw [hid]
    exact hflow ch
  · rw [hremoved]
    exact hremove
  · rw [hfirst] at hw
    refine .sending hw (List.mem_append_right Q List.mem_cons_self) (fun b hb => nomatch hb) ?_ ?_ rfl
    · rw [hent, hself]
      rfl
    · show _ + 0 = 0
      omega
  · rw [hent, hself]
    exact ⟨rfl, rfl, rfl, rfl, rfl⟩

/-! ## The data goes out -/

theorem loop_grows (refs : Nat → Nat) (m count : Nat) (t : Adapter) (this : Option Nat) :
    ∃ os, (Adapter.prOutLoop refs m count t this).1.out = t.out ++ os := by
  refine loop_invariant (I := fun s _ => ∃ os, s.out = t.out ++ os) refs ?_ m count t this ⟨[], (List.append_nil _).symm⟩
  rintro s - ref ⟨os, hos⟩ -
  rcases turn_out s ref with ⟨-, -, hout⟩ | ⟨q, b, -, -, hout, -⟩
  · exact ⟨os, hout.trans hos⟩
  · refine ⟨os ++ [b], ?_⟩
    rw [hout, hos, List.append_assoc]

/-- With more turns than slots in front of it, a slot in the queue gets its turn. -/
theorem loop_reaches (refs : Nat → Nat) (m : Nat) :
    ∀ (count : Nat) (t : Adapter) (this : Option Nat) (front rest : List Nat), Tables t →
    Queued t (front ++ i :: rest) → (t.eTbl i).e = some p → front.length < m →
    ∃ os, (Adapter.prOutLoop refs m count t this).1.out = t.out ++ os ∧ ∃ b ∈ os, b.e = p := by
  induction m with
  | zero => exact fun _ _ _ _ _ _ _ _ hm => absurd hm (Nat.not_lt_zero _)
  | succ m ih =>
    intro count t this front rest ht hq hp hm
    have hhead : t.head ≠ 0 := by
      intro hz
      have hnil := hq.linked.empty_iff.mp hz
      exact absurd hnil (List.append_ne_nil_of_right_ne_nil front (List.cons_ne_nil i rest))
    obtain ⟨j, q, Q, hQ, hj⟩ := hq.first hhead
    have hsame := SameTables.turn t (refs count)
    rw [hQ] at hq
    have hturn := hq.turn ht hj (refs count)
    have hout := turn_out t (refs count)
    have heq : t.turn (refs count) = (t.nextReq.send j q (refs count), some q) := turn_eq hq.head_eq hj
    unfold Adapter.prOutLoop
    rw [if_neg hhead]
    dsimp only
    rcases hout with ⟨hnone, -⟩ | ⟨q', b, hq', -, hb, hbe, -⟩
    · rw [hq.head_eq, hj] at hnone
      cases hnone
    · cases front with
      | nil =>
        rw [List.nil_append] at hQ
        cases hQ
        rw [hq.head_eq, hp] at hq'
        cases hq'
        obtain ⟨os, hos⟩ := loop_grows refs m (if (t.turn (refs count)).2.isSome then count + 1 else count)
          (t.turn (refs count)).1
          (t.turn (refs count)).2
        refine ⟨b :: os, ?_, b, List.mem_cons_self, hbe⟩
        rw [hos, hb, List.append_assoc]
        rfl
      | cons f front =>
        rw [List.cons_append] at hQ
        cases hQ
        have hlen : front.length < m := Nat.lt_of_succ_lt_succ hm
        have hnext : ∃ rest', Queued (t.turn (refs count)).1 (front ++ i :: rest') := by
          rw [heq]
          rcases hturn with ⟨hnext, -⟩ | ⟨hnext, -⟩
          · exact ⟨rest, hnext⟩
          · rw [List.append_assoc] at hnext
            exact ⟨rest ++ [j], hnext⟩
        obtain ⟨rest', hnext⟩ := hnext
        obtain ⟨os, hos, c, hc, hce⟩ := ih (if (t.turn (refs count)).2.isSome then count + 1 else count) (t.turn (refs count)).1
          (t.turn (refs count)).2 front rest' (ht.congr hsame) hnext ((hsame.slots i).trans hp) hlen
        refine ⟨b :: os, ?_, c, List.mem_cons_of_mem b hc, hce⟩
        rw [hos, hb, List.append_assoc]
        rfl

/-- The queue has less than 256 slots. -/
theorem Queued.length_lt (ht : Tables t) {Q : List Nat} (hq : Queued t Q) : Q.length < 256 := by
  have hsub : 0 :: Q ⊆ List.range 256 := by
    intro j hj
    rw [List.mem_range]
    rcases List.mem_cons.mp hj with rfl | hj
    · decide
    · obtain ⟨q, -, hjq, -⟩ := hq.waiting j hj
      have hlt := (ht.slot j q hjq).2.1
      have hsize := ht.size
      omega
  have hnodup : (0 :: Q).Nodup := List.nodup_cons.mpr ⟨hq.linked.null, hq.linked.nodup⟩
  have hle := hnodup.length_le_of_subset hsub
  rw [List.length_cons, List.length_range] at hle
  omega

theorem uremoved_out (t : Adapter) (this : Option Nat) : (t.uremoved this).out = t.out := by
  cases this with
  | none => rfl
  | some q =>
    unfold Adapter.uremoved
    dsimp only
    split <;> rfl

/-- A pass with 256 free request buffers takes every slot that is in the queue. -/
theorem prOut_reaches (ht : Tables t) {Q : List Nat} (hq : Queued t Q) (hi : i ∈ Q) (hp : (t.eTbl i).e = some p) {ready : Nat}
    (hready : 256 ≤ ready) (refs : Nat → Nat) : ∃ os, (t.prOut ready refs).out = t.out ++ os ∧ ∃ b ∈ os, b.e = p := by
  obtain ⟨front, rest, rfl⟩ := List.append_of_mem hi
  have hlen := hq.length_lt ht
  rw [List.length_append] at hlen
  have hhead : t.head ≠ 0 := by
    intro hz
    have hnil := hq.linked.empty_iff.mp hz
    exact absurd hnil (List.append_ne_nil_of_right_ne_nil front (List.cons_ne_nil i rest))
  unfold Adapter.prOut
  rw [if_neg hhead, if_neg (by omega)]
  dsimp only
  rw [uremoved_out]
  exact loop_reaches refs ready 0 t none front rest ht hq hp (by omega)

end Run

/-- What has come of a request: with the blocks `bs` for the entity, its callbacks `cs`, and `n` return codes to it. -/
structure Served (p : Nat) (e : Entity) (bs : List Block) (cs : List (Nat × Entity)) (n : Nat) : Prop where
  addressed : ∀ b ∈ bs, b.data.length ≤ 270 ∧ b.id = e.id ∧ b.ch = e.reqCh
  few : n ≤ bs.length ∧ bs.length ≤ blocks e.x
  part : bs.length < blocks e.x → (∀ b ∈ bs, b.req = e.mInd) ∧ bs.flatMap (·.data) <+: e.x.flatten
  whole : bs.length = blocks e.x → bs.map (·.req) = List.replicate (blocks e.x - 1) e.mInd ++ [e.req] ∧
    bs.flatMap (·.data) = e.x.flatten
  silent : n < blocks e.x → cs = []
  called : n = blocks e.x → ∃ e' : Entity, cs = [(p, e')] ∧ e'.more &&& xbusy = 0 ∧ e'.rc = rcOk

theorem Phase.served {p n : Nat} {e : Entity} {bs : List Block} {cs : List (Nat × Entity)} {queued : Prop}
    (h : Phase p e bs cs n queued)
    (hsmall : ∀ b ∈ bs, b.data.length ≤ 270 ∧ b.id = e.id ∧ b.ch = e.reqCh) :
    Served p e bs cs n ∧ (bs.length < blocks e.x → queued) := by
  cases h with
  | sending hw hq hcodes hdata hcount hcs =>
    have hlt := hw.position.lt_blocks
    refine ⟨⟨hsmall, ⟨by omega, by omega⟩, fun _ => ⟨hcodes, ⟨_, hdata⟩⟩, fun he => by omega, fun _ => hcs, fun he => by omega⟩,
      fun _ => hq⟩
  | sent hsent hbusy hmoref hmorep hcount hopen hcs =>
    have hnumber := hsent.number
    refine
      ⟨⟨hsmall, ⟨by omega, by omega⟩, fun hlt => by omega, fun _ => ⟨hsent.codes, hsent.data⟩, fun _ => hcs, fun he => by omega⟩,
      fun hlt => by omega⟩
  | done hsent hbusy hcount hcs =>
    have hnumber := hsent.number
    refine
      ⟨⟨hsmall, ⟨by omega, by omega⟩, fun hlt => by omega, fun _ => ⟨hsent.codes, hsent.data⟩, fun hlt => by omega, fun _ => hcs⟩,
      fun hlt => by omega⟩

theorem Served.of_same {p n : Nat} {e e' : Entity} {bs : List Block} {cs : List (Nat × Entity)} (h : Served p e' bs cs n)
    (hs : SameRequest e e') : Served p e bs cs n := by
  refine ⟨?_, ?_, ?_, ?_, ?_, ?_⟩
  · rw [← hs.id, ← hs.ch]
    exact h.addressed
  · rw [← hs.x]
    exact h.few
  · rw [← hs.x, ← hs.mInd]
    exact h.part
  · rw [← hs.x, ← hs.mInd, ← hs.req]
    exact h.whole
  · rw [← hs.x]
    exact h.silent
  · rw [← hs.x]
    exact h.called

/-- In every run of an adapter, the request of a client with a specific Id is sent in blocks that are its data, and called back
    once, by the return code that leaves none of them unanswered. -/
theorem request_chain (a : Adapter) (h : a.Init) (es : List Adapter.Ev) (k : Ask) (during : List Adapter.Ev)
    (hc : Along Adapter.step QueueOk a (es ++ .ask k :: during))
    (hchain : Chaining (Adapter.filledIn ((run Adapter.step a es).ent k.p) k))
    (hflow : ∀ ch, (run Adapter.step a es).flowControlIdTable ch ≠ ((run Adapter.step a es).ent k.p).id)
    (hremove : (run Adapter.step a es).removePending ((run Adapter.step a es).ent k.p).no = false)
    (hans : Answered k.p ((run Adapter.step a es).ask k) ((run Adapter.step a es).ask k) 0 during) :
    let e := Adapter.filledIn ((run Adapter.step a es).ent k.p) k
    let b := (run Adapter.step a es).ask k
    let t := run Adapter.step b during
    Served k.p e (blocksFor k.p b t) (callsFor k.p b t) (answers e.id during) ∧
      ((blocksFor k.p b t).length < blocks k.x → ∀ ready refs, 256 ≤ ready →
        (blocksFor k.p b t).length < (blocksFor k.p b (t.prOut ready refs)).length) := by
  obtain ⟨hbefore, hask, hduring⟩ := (along_append Adapter.step).mp hc
  obtain ⟨ht, Q, hq⟩ := run_queued h hbefore
  generalize run Adapter.step a es = s at *
  obtain ⟨hstart, hsame⟩ := Chain.start ht hq hask hchain hflow hremove
  have hchain' : Chaining ((s.ask k).ent k.p) := by
    refine ⟨?_, ?_, ?_⟩
    · rw [hsame.id]
      exact hchain.spec
    · rw [hsame.mInd]
      exact hchain.mInd
    · rw [hsame.req]
      exact hchain.req
  dsimp only
  obtain ⟨ht', Q', hq', htrack⟩ := Chain.run hchain' during _ 0 hstart hduring hans
  generalize run Adapter.step (s.ask k) during = t at ht' hq' htrack
  rw [Nat.zero_add, hsame.id] at htrack
  have hslot := htrack.slot
  have hnow : SameRequest (Adapter.filledIn (s.ent k.p) k) (t.ent k.p) := hsame.trans htrack.same
  obtain ⟨os, ds, hos, hds, hsmall, hphase⟩ := htrack.log
  have hblocks : blocksFor k.p (s.ask k) t = os.filter (·.e = k.p) := by
    unfold blocksFor
    rw [hos, List.drop_left]
  have hcalls : callsFor k.p (s.ask k) t = ds.filter (·.1 = k.p) := by
    unfold callsFor
    rw [hds, List.drop_left]
  rw [hblocks, hcalls]
  rw [hsame.id, hsame.ch, ← hnow.id, ← hnow.ch] at hsmall
  obtain ⟨hserved, hin⟩ := hphase.served hsmall
  refine ⟨hserved.of_same hnow, ?_⟩
  rw [hnow.x] at hin
  intro hlt ready refs hready
  obtain ⟨os', hos', c, hmem, hce⟩ := prOut_reaches ht' hq' (hin hlt) hslot hready refs
  unfold blocksFor
  rw [hos', hos, List.append_assoc, List.drop_left, List.filter_append, List.length_append]
  have hpos : 0 < (os'.filter (·.e = k.p)).length := by
    apply List.length_pos_of_mem
    rw [List.mem_filter, decide_eq_true_eq]
    exact ⟨hmem, hce⟩
  omega

/-- Client 0 with the Id 5. -/
def assigned5 : List Adapter.Ev := [.ask ⟨0, some nlId, 1, 0, []⟩, .prOut 1 fun _ => 7, .rc ⟨assignOk, 5, 0, 7, 0⟩]

/-- 271 bytes and an empty buffer: two blocks, with a return code between them. -/
def longRequest : Ask := ⟨0, none, 2, 0, [List.replicate 271 1, []]⟩

def between : List Adapter.Ev := [.prOut 1 fun _ => 8, .rc ⟨rcOk, 5, 0, 0, 0⟩, .prOut 1 fun _ => 9, .rc ⟨rcOk, 5, 0, 0, 0⟩]

/-- A return code to a known entity. -/
theorem RcFits.of_slot {a : Adapter} {r : Adapter.ReturnCode} {i p : Nat} (hid : a.idTable r.id = i) (hi : i ≠ 0)
    (hslot : (a.eTbl i).e = some p) (hord : Ordinary a i r)
      (hcount : (a.ent p).more &&& xmoref = 0 → (a.ent p).more &&& xmorec ≠ 0) :
    RcFits a r := by
  intro _
  rw [hid, if_pos hi]
  intro q hq _ hm
  rw [hslot] at hq
  cases hq
  exact ⟨hord, hcount hm⟩

set_option maxRecDepth 20000 in
theorem request_chain_long : ((run Adapter.step ((run Adapter.step emptyAdapter assigned5).ask longRequest) between).out.map
    fun b => (b.req, b.data.length)) = [(1, 0), (nMdata, 270), (2, 1)] ∧
      ∃ e' : Entity, callsFor 0 ((run Adapter.step emptyAdapter assigned5).ask longRequest)
        (run Adapter.step ((run Adapter.step emptyAdapter assigned5).ask longRequest) between) = [(0, e')] ∧
          e'.more &&& xbusy = 0 ∧ e'.rc = rcOk := by
  refine ⟨by decide +kernel, ?_⟩
  have hassigned : Along Adapter.step QueueOk emptyAdapter assigned5 := by
    refine ⟨⟨by decide, (fun i hi => nomatch hi), by decide⟩, trivial, ?_, trivial⟩
    intro _ _
    refine ⟨?_, fun _ => by decide⟩
    intro i p hi hp
    cases hi
    cases hp
    exact ⟨rfl, by decide⟩
  have h1 := @RcFits.of_slot (((run Adapter.step emptyAdapter assigned5).step (.ask longRequest)).step (.prOut 1 fun _ => 8))
    ⟨rcOk, 5, 0, 0, 0⟩ 1 0 (by decide +kernel) (by decide) (by decide +kernel)
    ⟨by decide, by decide, by decide +kernel, by decide +kernel⟩ (by decide +kernel)
  have h2 :=
    @RcFits.of_slot (((((run Adapter.step emptyAdapter assigned5).step (.ask longRequest)).step (.prOut 1 fun _ => 8)).step
    (.rc ⟨rcOk, 5, 0, 0, 0⟩)).step (.prOut 1 fun _ => 9)) ⟨rcOk, 5, 0, 0, 0⟩ 1 0 (by decide +kernel)
      (by decide) (by decide +kernel)
    ⟨by decide, by decide, by decide +kernel, by decide +kernel⟩ (by decide +kernel)
  have hc : Along Adapter.step QueueOk emptyAdapter (assigned5 ++ .ask longRequest :: between) := by
    have hask : QueueOk (run Adapter.step emptyAdapter assigned5) (.ask longRequest) :=
      ⟨rfl, rfl, by decide, fun _ => by decide +kernel⟩
    exact (along_append Adapter.step).mpr ⟨hassigned, hask, trivial, h1, trivial, h2, trivial⟩
  have hans : Answered 0 ((run Adapter.step emptyAdapter assigned5).ask longRequest)
      ((run Adapter.step emptyAdapter assigned5).ask longRequest) 0 between :=
    ⟨trivial, fun _ => ⟨rfl, by decide, by decide +kernel⟩, trivial, fun _ => ⟨rfl, by decide, by decide +kernel⟩, trivial⟩
  have hserved := (request_chain emptyAdapter emptyAdapter_init assigned5 longRequest between hc
    ⟨by decide, by decide, by decide, by decide⟩ (fun ch => show (0 : Nat) ≠ 5 by decide) rfl hans).1
  exact hserved.called (by decide +kernel)

end Divas.Idi
