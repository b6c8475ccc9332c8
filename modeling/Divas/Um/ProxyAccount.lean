/-
  Divas.Um.ProxyAccount — what the proxy of an adapter accounts for.

  A proxy entity is on `assign_q` until the return code of its ASSIGN, then on `entity_q` and
  in `entity_map`, and then it is freed (`Placed`). Each queued request is pending, taken by
  the read, in `req_q`, or settled (`Ticketed`): a read has presented it, a callback has
  answered it, or it was dropped, because its entity was busy or with its entity at
  `REMOVE_COMPLETE`. An ASSIGN return code is for the oldest ASSIGN that was read: `assign_q`
  has those first that were read, in the order of the reads, and the others in the order of
  `req_q` (`Placed.order`).

  Proved: all this after every run (`proxy_accounting`), and that `nr_entities` is the number
  of the proxy entities and at most the limit, until an ASSIGN is refused at the limit. Then
  the read takes one from the count that nothing has added (`proxy_drops`).
-/

import Divas.Um.Proxy
import Mathlib.Data.List.Nodup

namespace Divas.Um

open Divas.Lib.Run
open scoped List

namespace Proxy

/-! ## What is accounted for -/

/-- The requests that a read has taken and not served. -/
def Reader.taken : Reader → List Request
  | .idle => []
  | .serving rest => rest
  | .creating r _ rest => r :: rest

/-- An entity that is counted and not yet on `assign_q`. -/
def Reader.reserved : Reader → Nat
  | .creating _ true _ => 1
  | _ => 0

/-- The requests that no read has presented and nothing has answered yet. -/
def waiting (p : Proxy) : List Nat :=
  p.pendingRequestsQ.map Request.ticket ++ (Reader.taken p.reader).map Request.ticket ++ p.reqQ.map fun u => (p.pU u).ticket

/-- The oldest ASSIGN that a read has presented and no return code has answered. -/
def oldestRead (p : Proxy) : Option Nat := p.shown.find? fun u => decide (u ∈ p.assignQ)

/-- Each proxy entity is in its place. -/
structure Placed (p : Proxy) : Prop where
  once : (p.assignQ ++ p.entityQ ++ p.freed).Perm (List.range p.created)
  map : ∀ id u, p.entityMap id = some u ↔ u ∈ p.entityQ ∧ (p.pU u).id = id
  reqQ : ∀ u, u ∈ p.reqQ ↔ (u ∈ p.assignQ ∨ u ∈ p.entityQ) ∧ (p.pU u).requestPending = true
  reqNodup : p.reqQ.Nodup
  assigns : ∀ u ∈ p.assignQ, (p.pU u).assignPending = true
  entities : ∀ u ∈ p.entityQ, (p.pU u).assignPending = false
  shown : ∀ u ∈ p.shown, u < p.created
  order : p.assignQ = p.shown.filter (fun u => decide (u ∈ p.assignQ)) ++ p.reqQ.filter fun u => decide (u ∈ p.assignQ)

/-- Each request has one place. -/
def Ticketed (p : Proxy) : Prop := (p.settled.map Prod.fst ++ p.waiting).Perm (List.range p.queued)

def Counted (p : Proxy) : Prop :=
  p.nrEntities = p.assignQ.length + p.entityQ.length + Reader.reserved p.reader ∧ p.nrEntities ≤ p.maxEntities

theorem nodup_snoc {l : List Nat} {a : Nat} (hl : l.Nodup) (ha : a ∉ l) : (l ++ [a]).Nodup := by
  rw [← List.concat_eq_append]
  exact List.Nodup.concat ha hl

section Placed

variable {p q : Proxy} {u v : Nat}

theorem Placed.nodup (h : Placed p) : (p.assignQ ++ p.entityQ ++ p.freed).Nodup := h.once.nodup_iff.mpr List.nodup_range

theorem Placed.assignNodup (h : Placed p) : p.assignQ.Nodup := (List.nodup_append.mp (List.nodup_append.mp h.nodup).1).1

theorem Placed.entityNodup (h : Placed p) : p.entityQ.Nodup := (List.nodup_append.mp (List.nodup_append.mp h.nodup).1).2.1

theorem Placed.apart (h : Placed p) (hu : u ∈ p.assignQ) : u ∉ p.entityQ := by
  intro he
  exact (List.nodup_append.mp (List.nodup_append.mp h.nodup).1).2.2 u hu u he rfl

theorem Placed.lt_created (h : Placed p) (hu : u ∈ p.assignQ ∨ u ∈ p.entityQ) : u < p.created := by
  refine List.mem_range.mp (h.once.mem_iff.mp ?_)
  rcases hu with hu | hu <;> simp [hu]

theorem Placed.reqQ_lt (h : Placed p) (hu : u ∈ p.reqQ) : u < p.created := h.lt_created ((h.reqQ u).mp hu).1

theorem Placed.mapped (h : Placed p) {id : UInt8} (hm : p.entityMap id = some u) : u ∈ p.entityQ := ((h.map id u).mp hm).1

/-- An ASSIGN on `assign_q` was read when it is not in `req_q`. -/
theorem Placed.read_iff (h : Placed p) (hu : u ∈ p.assignQ) : (p.pU u).requestPending = false ↔ u ∉ p.reqQ := by
  rw [h.reqQ u]
  cases hp : (p.pU u).requestPending <;> simp [hu]

theorem Placed.read_shown (h : Placed p) (hu : u ∈ p.assignQ) (hs : u ∈ p.shown) : u ∉ p.reqQ := by
  intro hr
  have hnodup := h.assignNodup
  rw [h.order] at hnodup
  have h1 : u ∈ p.shown.filter fun u => decide (u ∈ p.assignQ) := by simp [hu, hs]
  have h2 : u ∈ p.reqQ.filter fun u => decide (u ∈ p.assignQ) := by simp [hu, hr]
  exact (List.nodup_append.mp hnodup).2.2 u h1 u h2 rfl

/-- The first of `assign_q`, if it was read, is the oldest ASSIGN that was read; if it was not, none was. -/
theorem Placed.head_assignQ (h : Placed p) :
    p.oldestRead = p.assignQ.head?.filter fun u => (p.pU u).assignPending && !(p.pU u).requestPending := by
  have hfind : p.oldestRead = (p.shown.filter fun u => decide (u ∈ p.assignQ)).head? := List.head?_filter.symm
  rw [hfind]
  cases hs : p.shown.filter (fun u => decide (u ∈ p.assignQ)) with
  | cons u front =>
    have hu : u ∈ p.shown.filter fun u => decide (u ∈ p.assignQ) := by rw [hs]; exact List.mem_cons_self
    obtain ⟨hshown, hassign⟩ : u ∈ p.shown ∧ u ∈ p.assignQ := by simpa using hu
    have hread := (h.read_iff hassign).mpr (h.read_shown hassign hshown)
    have hhead : p.assignQ.head? = some u := by rw [h.order, hs]; rfl
    simp [hhead, hread, h.assigns u hassign, Option.filter]
  | nil =>
    have horder : p.assignQ = p.reqQ.filter fun u => decide (u ∈ p.assignQ) := by
      have := h.order
      rwa [hs, List.nil_append] at this
    cases ha : p.assignQ with
    | nil => rfl
    | cons u rest =>
      have hu : u ∈ p.assignQ := by rw [ha]; exact List.mem_cons_self
      have hr : u ∈ p.reqQ := by
        rw [horder] at hu
        exact (List.mem_filter.mp hu).1
      have hpending := ((h.reqQ u).mp hr).2
      simp [hpending, Option.filter]

/-! ### Steps -/

/-- The fields that say where a proxy entity is do not change. -/
theorem Placed.aside (h : Placed p) (nr : Nat) (pending : List Request) (ent : Nat → Entity) (reader : Reader) (queued : Nat)
    (settled : List (Nat × Outcome)) :
    Placed
      { p with
        nrEntities := nr
        pendingRequestsQ := pending
        ent := ent
        reader := reader
        queued := queued
        settled := settled } :=
  ⟨h.once, h.map, h.reqQ, h.reqNodup, h.assigns, h.entities, h.shown, h.order⟩

theorem Placed.userRequest (h : Placed p) (e : Nat) (v : Entity) : Placed (p.userRequest e v) := by
  unfold Proxy.userRequest
  split
  · exact h.aside _ _ _ _ _ _
  · split
    · exact h.aside _ _ _ _ _ _
    · exact h.aside _ _ _ _ _ _

theorem Placed.takeRequests (h : Placed p) (mem : Bool) : Placed (p.takeRequests mem) := by
  unfold Proxy.takeRequests
  split
  · exact h.aside _ _ _ _ _ _
  · exact h.aside _ _ _ _ _ _

theorem Placed.answer (h : Placed p) (r : Request) (rc rcCh no : UInt8) : Placed (p.answer r rc rcCh no) :=
  h.aside _ _ _ _ _ _

/-- A proxy entity keeps its flags and its Id. -/
theorem Placed.setUnit (h : Placed p) (x : ProxyEntity) (hr : x.requestPending = (p.pU u).requestPending)
    (ha : x.assignPending = (p.pU u).assignPending) (hi : x.id = (p.pU u).id) : Placed (p.setUnit u x) := by
  have hsame : ∀ v, ((p.setUnit u x).pU v).requestPending = (p.pU v).requestPending ∧
      ((p.setUnit u x).pU v).assignPending = (p.pU v).assignPending ∧ ((p.setUnit u x).pU v).id = (p.pU v).id := by
    intro v
    by_cases hv : v = u
    · subst hv
      simp [Proxy.setUnit, hr, ha, hi]
    · simp [Proxy.setUnit, hv]
  refine ⟨h.once, ?_, ?_, h.reqNodup, ?_, ?_, h.shown, h.order⟩
  · intro id v
    rw [(hsame v).2.2]
    exact h.map id v
  · intro v
    rw [(hsame v).1]
    exact h.reqQ v
  · intro v hv
    rw [(hsame v).2.1]
    exact h.assigns v hv
  · intro v hv
    rw [(hsame v).2.1]
    exact h.entities v hv

/-- An entity with an Id gets into `req_q`. -/
theorem Placed.queueRequest (h : Placed p) (hu : u ∈ p.entityQ) (hfree : (p.pU u).requestPending = false) (r : Request)
    (m : Message) : Placed (p.queueRequest u r m) := by
  have hnot : u ∉ p.reqQ := by
    intro hr
    have := ((h.reqQ u).mp hr).2
    rw [hfree] at this
    exact Bool.false_ne_true this
  have hapart : u ∉ p.assignQ := fun ha => h.apart ha hu
  refine ⟨h.once, ?_, ?_, ?_, ?_, ?_, h.shown, ?_⟩
  · intro id v
    by_cases hv : v = u
    · subst hv
      simpa [Proxy.queueRequest, Proxy.setUnit] using h.map id v
    · simpa [Proxy.queueRequest, Proxy.setUnit, hv] using h.map id v
  · intro v
    by_cases hv : v = u
    · subst hv
      simp [Proxy.queueRequest, Proxy.setUnit, hu]
    · simpa [Proxy.queueRequest, Proxy.setUnit, hv] using h.reqQ v
  · exact nodup_snoc h.reqNodup hnot
  · intro v hv
    have hne : v ≠ u := fun he => hapart (he ▸ hv)
    simpa [Proxy.queueRequest, Proxy.setUnit, hne] using h.assigns v hv
  · intro v hv
    by_cases he : v = u
    · subst he
      simpa [Proxy.queueRequest, Proxy.setUnit] using h.entities v hv
    · simpa [Proxy.queueRequest, Proxy.setUnit, he] using h.entities v hv
  · have hlast : (p.reqQ ++ [u]).filter (fun v => decide (v ∈ p.assignQ)) = p.reqQ.filter fun v => decide (v ∈ p.assignQ) := by
      simp [List.filter_append, hapart]
    show p.assignQ = _ ++ (p.reqQ ++ [u]).filter (fun v => decide (v ∈ p.assignQ))
    rw [hlast]
    exact h.order

/-- What becomes of a request with an Id. -/
theorem requestEntity_cases (p : Proxy) (r : Request) :
    p.requestEntity r = p.answer r wrongId 0 (p.ent r.e).no ∨
    (∃ u, p.requestEntity r =
      (p.setUnit u { p.pU u with req := { (p.pU u).req with data := [] } }).answer r wrongId 0 (p.ent r.e).no) ∨
    p.requestEntity r = { p with settled := p.settled ++ [(r.ticket, .busy)] } ∨
    ∃ u m, p.entityMap (p.ent r.e).id = some u ∧ (p.pU u).requestPending = false ∧ p.requestEntity r = p.queueRequest u r m := by
  unfold requestEntity
  split
  · exact .inl rfl
  · rename_i u hm
    split
    · exact .inl rfl
    · split
      · exact .inr (.inr (.inl rfl))
      · rename_i hfree
        simp only [Bool.or_eq_true, not_or, Bool.not_eq_true] at hfree
        split
        · exact .inr (.inl ⟨u, rfl⟩)
        · exact .inr (.inr (.inr ⟨u, _, hm, hfree.1, rfl⟩))

theorem Placed.requestEntity (h : Placed p) (r : Request) : Placed (p.requestEntity r) := by
  rcases p.requestEntity_cases r with he | ⟨u, he⟩ | he | ⟨u, m, hm, hfree, he⟩
  · rw [he]
    exact h.answer _ _ _ _
  · rw [he]
    exact (h.setUnit { p.pU u with req := { (p.pU u).req with data := [] } } rfl rfl rfl).answer _ _ _ _
  · rw [he]
    exact h.aside _ _ _ _ _ _
  · rw [he]
    exact h.queueRequest (h.mapped hm) hfree r m

theorem Placed.nextRequest (h : Placed p) (r : Request) (rest : List Request) : Placed (p.nextRequest r rest) := by
  unfold Proxy.nextRequest
  split
  · split
    · exact h.aside _ _ _ _ _ _
    · exact h.aside _ _ _ _ _ _
  · exact (h.requestEntity r).aside _ _ _ _ _ _

/-- A new proxy entity gets to the end of `assign_q` and of `req_q`. -/
theorem Placed.create (h : Placed p) (e : Entity) (r : Request) (data : List UInt8) :
    Placed { p.setUnit p.created (assigning e r data) with
      created := p.created + 1
      assignQ := p.assignQ ++ [p.created]
      reqQ := p.reqQ ++ [p.created] } := by
  have hnew : ∀ v, v ∈ p.assignQ ∨ v ∈ p.entityQ → v ≠ p.created := fun v hv => Nat.ne_of_lt (h.lt_created hv)
  have hassign : p.created ∉ p.assignQ := fun hc => hnew _ (.inl hc) rfl
  have hentity : p.created ∉ p.entityQ := fun hc => hnew _ (.inr hc) rfl
  have hreq : p.created ∉ p.reqQ := fun hc => Nat.lt_irrefl _ (h.reqQ_lt hc)
  have hshown : p.created ∉ p.shown := fun hc => Nat.lt_irrefl _ (h.shown _ hc)
  refine ⟨?_, ?_, ?_, nodup_snoc h.reqNodup hreq, ?_, ?_, ?_, ?_⟩
  · have hrange : (p.created :: (p.assignQ ++ p.entityQ ++ p.freed)).Perm (List.range (p.created + 1)) := by
      rw [List.range_succ]
      exact (h.once.cons p.created).trans (List.perm_append_singleton p.created _).symm
    refine List.Perm.trans ?_ hrange
    simp only [List.append_assoc, List.singleton_append]
    exact List.perm_middle
  · intro id v
    by_cases hv : v = p.created
    · subst hv
      simp only [Proxy.setUnit, hentity, false_and, iff_false]
      exact fun hm => hentity (h.mapped hm)
    · simpa [Proxy.setUnit, hv] using h.map id v
  · intro v
    by_cases hv : v = p.created
    · subst hv
      simp [Proxy.setUnit, assigning]
    · simpa [Proxy.setUnit, hv] using h.reqQ v
  · intro v hv
    by_cases hv' : v = p.created
    · subst hv'
      simp [Proxy.setUnit, assigning]
    · have hold : v ∈ p.assignQ := by simpa [hv'] using hv
      simpa [Proxy.setUnit, hv'] using h.assigns v hold
  · intro v hv
    simpa [Proxy.setUnit, hnew v (.inr hv)] using h.entities v hv
  · intro v hv
    exact Nat.lt_succ_of_lt (h.shown v hv)
  · have hs : p.shown.filter (fun v => decide (v ∈ p.assignQ ++ [p.created])) = p.shown.filter fun v =>
      decide (v ∈ p.assignQ) := by
      refine List.filter_congr ?_
      intro v hv
      have : v ≠ p.created := fun he => hshown (he ▸ hv)
      simp [this]
    have hq : p.reqQ.filter (fun v => decide (v ∈ p.assignQ ++ [p.created])) = p.reqQ.filter fun v => decide (v ∈ p.assignQ) := by
      refine List.filter_congr ?_
      intro v hv
      have : v ≠ p.created := fun he => hreq (he ▸ hv)
      simp [this]
    show p.assignQ ++ [p.created] = p.shown.filter (fun v => decide (v ∈ p.assignQ ++ [p.created])) ++
      (p.reqQ ++ [p.created]).filter fun v => decide (v ∈ p.assignQ ++ [p.created])
    rw [List.filter_append, hs, hq, ← List.append_assoc, ← h.order]
    simp

theorem Placed.createEntity (h : Placed p) (r : Request) (create : Bool) (rest : List Request) (mem : Bool) :
    Placed (p.createEntity r create rest mem) := by
  unfold Proxy.createEntity
  split
  · split
    · refine ⟨?_, h.map, h.reqQ, h.reqNodup, h.assigns, h.entities, fun v hv => Nat.lt_succ_of_lt (h.shown v hv), h.order⟩
      show (p.assignQ ++ p.entityQ ++ (p.freed ++ [p.created])).Perm (List.range (p.created + 1))
      rw [← List.append_assoc, List.range_succ]
      exact h.once.append_right _
    · exact (h.create _ r _).aside _ _ _ _ _ _
  · exact h.aside _ _ _ _ _ _

theorem Placed.handOut (h : Placed p) {rest : List Nat} (hq : p.reqQ = u :: rest) : Placed (p.handOut u) := by
  have hu : u ∈ p.reqQ := by rw [hq]; exact List.mem_cons_self
  have herase : p.reqQ.erase u = rest := by rw [hq, List.erase_cons_head]
  have hfirst : u ∉ rest := by
    have := h.reqNodup
    rw [hq] at this
    exact (List.nodup_cons.mp this).1
  refine ⟨h.once, ?_, ?_, h.reqNodup.erase u, ?_, ?_, ?_, ?_⟩
  · intro id v
    by_cases hv : v = u
    · subst hv
      simpa [Proxy.handOut, Proxy.setUnit] using h.map id v
    · simpa [Proxy.handOut, Proxy.setUnit, hv] using h.map id v
  · intro v
    show v ∈ p.reqQ.erase u ↔ _
    rw [herase]
    by_cases hv : v = u
    · subst hv
      simp [Proxy.handOut, Proxy.setUnit, hfirst]
    · have := h.reqQ v
      rw [hq] at this
      simpa [Proxy.handOut, Proxy.setUnit, hv] using this
  · intro v hv
    by_cases hv' : v = u
    · subst hv'
      simpa [Proxy.handOut, Proxy.setUnit] using h.assigns v hv
    · simpa [Proxy.handOut, Proxy.setUnit, hv'] using h.assigns v hv
  · intro v hv
    by_cases hv' : v = u
    · subst hv'
      simpa [Proxy.handOut, Proxy.setUnit] using h.entities v hv
    · simpa [Proxy.handOut, Proxy.setUnit, hv'] using h.entities v hv
  · intro v hv
    rcases List.mem_append.mp hv with hv | hv
    · exact h.shown v hv
    · rw [List.mem_singleton.mp hv]
      exact h.reqQ_lt hu
  · show p.assignQ = (p.shown ++ [u]).filter (fun v => decide (v ∈ p.assignQ)) ++
      (p.reqQ.erase u).filter fun v => decide (v ∈ p.assignQ)
    have horder := h.order
    rw [hq] at horder
    rw [herase, List.filter_append, List.append_assoc]
    by_cases ha : u ∈ p.assignQ
    · simpa [ha] using horder
    · simpa [ha] using horder

theorem Placed.present (h : Placed p) (maxLength copied : Int) : Placed (p.present maxLength copied).1 := by
  unfold Proxy.present
  split
  · exact h.aside _ _ _ _ _ _
  · rename_i u rest hq
    split
    · split
      · exact h.handOut hq
      · exact h.aside _ _ _ _ _ _
    · exact h.aside _ _ _ _ _ _

theorem Placed.removeComplete (h : Placed p) {id : UInt8} (hm : p.entityMap id = some u) : Placed (p.removeComplete id u) := by
  obtain ⟨hu, hid⟩ := (h.map id u).mp hm
  have hentity := h.entities u hu
  have hapart : u ∉ p.assignQ := fun ha => h.apart ha hu
  have hassignQ : (p.removeComplete id u).assignQ = p.assignQ := by simp [Proxy.removeComplete, hentity]
  have hentityQ : (p.removeComplete id u).entityQ = p.entityQ.erase u := by simp [Proxy.removeComplete, hentity]
  have hreqQ : (p.removeComplete id u).reqQ = p.reqQ.erase u := by
    cases hp : (p.pU u).requestPending with
    | true => simp [Proxy.removeComplete, hp]
    | false =>
      have hnot : u ∉ p.reqQ := by rw [h.reqQ u, hp]; simp
      simp [Proxy.removeComplete, hp, List.erase_of_not_mem hnot]
  have hmem : ∀ v, v ∈ p.entityQ.erase u ↔ v ≠ u ∧ v ∈ p.entityQ := fun v => h.entityNodup.mem_erase_iff
  refine ⟨?_, ?_, ?_, ?_, ?_, ?_, h.shown, ?_⟩
  · rw [hassignQ, hentityQ]
    show (p.assignQ ++ p.entityQ.erase u ++ (p.freed ++ [u])).Perm (List.range p.created)
    refine List.Perm.trans ?_ h.once
    have hout : p.entityQ.Perm (u :: p.entityQ.erase u) := List.perm_cons_erase hu
    calc p.assignQ ++ p.entityQ.erase u ++ (p.freed ++ [u])
      _ = (p.assignQ ++ (p.entityQ.erase u ++ p.freed)) ++ [u] := by simp
      _ ~ u :: (p.assignQ ++ (p.entityQ.erase u ++ p.freed)) := List.perm_append_singleton _ _
      _ ~ p.assignQ ++ u :: (p.entityQ.erase u ++ p.freed) := List.perm_middle.symm
      _ ~ p.assignQ ++ (p.entityQ ++ p.freed) := (hout.symm.append_right p.freed).append_left p.assignQ
      _ = p.assignQ ++ p.entityQ ++ p.freed := by simp
  · intro id' v
    rw [hentityQ, hmem v]
    show Function.update p.entityMap id none id' = some v ↔ (v ≠ u ∧ v ∈ p.entityQ) ∧ (p.pU v).id = id'
    by_cases he : id' = id
    · subst he
      rw [Function.update_self]
      constructor
      · exact fun hc => nomatch hc
      · rintro ⟨⟨hv, hq⟩, hi⟩
        have := (h.map id' v).mpr ⟨hq, hi⟩
        rw [hm] at this
        exact absurd (Option.some.inj this).symm hv
    · rw [Function.update_of_ne he, h.map id' v]
      constructor
      · rintro ⟨hq, hi⟩
        exact ⟨⟨fun hv => he (by rw [← hi, hv, hid]), hq⟩, hi⟩
      · rintro ⟨⟨_, hq⟩, hi⟩
        exact ⟨hq, hi⟩
  · intro v
    rw [hreqQ, hassignQ, hentityQ, hmem v, h.reqNodup.mem_erase_iff, h.reqQ v]
    show _ ↔ _ ∧ (p.pU v).requestPending = true
    constructor
    · rintro ⟨hv, hq, hp⟩
      exact ⟨hq.imp_right fun hq => ⟨hv, hq⟩, hp⟩
    · rintro ⟨hq, hp⟩
      refine ⟨?_, hq.imp_right And.right, hp⟩
      rintro rfl
      rcases hq with hq | hq
      · exact hapart hq
      · exact hq.1 rfl
  · rw [hreqQ]
    exact h.reqNodup.erase u
  · rw [hassignQ]
    exact h.assigns
  · intro v hv
    rw [hentityQ] at hv
    exact h.entities v (List.mem_of_mem_erase hv)
  · rw [hassignQ, hreqQ]
    have hfilter : (p.reqQ.erase u).filter (fun v => decide (v ∈ p.assignQ)) = p.reqQ.filter fun v => decide (v ∈ p.assignQ) := by
      rw [h.reqNodup.erase_eq_filter, List.filter_filter]
      refine List.filter_congr ?_
      intro v _
      by_cases hv : v = u
      · subst hv
        simp [hapart]
      · simp [hv]
    show p.assignQ = p.shown.filter (fun v => decide (v ∈ p.assignQ)) ++ (p.reqQ.erase u).filter fun v => decide (v ∈ p.assignQ)
    rw [hfilter]
    exact h.order

/-- Without its first proxy entity, `assign_q` is still in order. -/
theorem Placed.order_tail (h : Placed p) {rest : List Nat} (ha : p.assignQ = u :: rest) :
    rest = p.shown.filter (fun v => decide (v ∈ rest)) ++ p.reqQ.filter fun v => decide (v ∈ rest) := by
  have hfirst : u ∉ rest := by
    have := h.assignNodup
    rw [ha] at this
    exact (List.nodup_cons.mp this).1
  have hnarrow : ∀ l : List Nat, (l.filter fun v => decide (v ∈ p.assignQ)).filter (fun v => decide (v ∈ rest)) =
      l.filter fun v => decide (v ∈ rest) := by
    intro l
    rw [List.filter_filter]
    refine List.filter_congr ?_
    intro v _
    by_cases hv : v ∈ rest
    · simp [hv, ha]
    · simp [hv]
  have hself : p.assignQ.filter (fun v => decide (v ∈ rest)) = rest := by
    rw [ha, List.filter_cons_of_neg (by simpa using hfirst)]
    exact List.filter_eq_self.mpr (by simp)
  calc rest
    _ = p.assignQ.filter (fun v => decide (v ∈ rest)) := hself.symm
    _ = _ := by
      conv_lhs => rw [h.order]
      rw [List.filter_append, hnarrow, hnarrow]

/-- The proxy entity goes to `entity_q` and into the map, or it is freed. -/
theorem assigned_place (p : Proxy) (u : Nat) (hdr : Header) :
    ((p.assigned u hdr).entityQ = p.entityQ ++ [u] ∧ (p.assigned u hdr).freed = p.freed ∧
      (p.assigned u hdr).entityMap = Function.update p.entityMap hdr.id.toUInt8 (some u) ∧
      (p.assigned u hdr).nrEntities = p.nrEntities) ∨
    ((p.assigned u hdr).entityQ = p.entityQ ∧ (p.assigned u hdr).freed = p.freed ++ [u] ∧
      (p.assigned u hdr).entityMap = p.entityMap ∧
      (p.assigned u hdr).nrEntities = if p.nrEntities ≠ 0 then dec p.nrEntities else p.nrEntities) := by
  by_cases hrc : hdr.rcInd.toUInt8 = assignOk
  · left
    simp only [Proxy.assigned, if_pos hrc, Proxy.setEnt, Proxy.setUnit, and_self]
  · right
    simp only [Proxy.assigned, if_neg hrc, Proxy.setEnt, Proxy.setUnit, and_self]

theorem assigned_frame (p : Proxy) (u : Nat) (hdr : Header) :
    (p.assigned u hdr).assignQ = p.assignQ.erase u ∧ (p.assigned u hdr).reqQ = p.reqQ ∧ (p.assigned u hdr).shown = p.shown ∧
    (p.assigned u hdr).created = p.created ∧
    (p.assigned u hdr).pU = Function.update p.pU u { p.pU u with assignPending := false, id := hdr.id.toUInt8 } := by
  by_cases hrc : hdr.rcInd.toUInt8 = assignOk
  · simp only [Proxy.assigned, if_pos hrc, Proxy.setEnt, Proxy.setUnit, and_self]
  · simp only [Proxy.assigned, if_neg hrc, Proxy.setEnt, Proxy.setUnit, and_self]

theorem Placed.assigned (h : Placed p) {rest : List Nat} (ha : p.assignQ = u :: rest) (hread : (p.pU u).requestPending = false)
    {hdr : Header} (hm : p.entityMap hdr.id.toUInt8 = none) : Placed (p.assigned u hdr) := by
  have hu : u ∈ p.assignQ := by rw [ha]; exact List.mem_cons_self
  have hapart : u ∉ p.entityQ := h.apart hu
  have hnot : u ∉ p.reqQ := (h.read_iff hu).mp hread
  have herase : p.assignQ.erase u = rest := by rw [ha, List.erase_cons_head]
  have hfirst : u ∉ rest := by
    have := h.assignNodup
    rw [ha] at this
    exact (List.nodup_cons.mp this).1
  have hold : ∀ v ∈ rest, v ∈ p.assignQ := fun v hv => by rw [ha]; exact List.mem_cons_of_mem _ hv
  obtain ⟨hassignQ, hreqQ, hshown, hcreated, hpU⟩ := p.assigned_frame u hdr
  rw [herase] at hassignQ
  have hother : ∀ v, v ≠ u → (p.assigned u hdr).pU v = p.pU v := by
    intro v hv
    rw [hpU, Function.update_of_ne hv]
  have hself : ((p.assigned u hdr).pU u).id = hdr.id.toUInt8 ∧ ((p.assigned u hdr).pU u).assignPending = false ∧
      ((p.assigned u hdr).pU u).requestPending = false := by
    simp [hpU, hread]
  have hplace := p.assigned_place u hdr
  have hentityQ : ∀ v, v ≠ u → (v ∈ (p.assigned u hdr).entityQ ↔ v ∈ p.entityQ) := by
    intro v hv
    rcases hplace with ⟨hq, _⟩ | ⟨hq, _⟩
    · rw [hq]
      simp [hv]
    · rw [hq]
  refine ⟨?_, ?_, ?_, ?_, ?_, ?_, ?_, ?_⟩
  · rw [hassignQ, hcreated]
    refine List.Perm.trans ?_ h.once
    rw [ha]
    rcases hplace with ⟨hq, hf, _⟩ | ⟨hq, hf, _⟩
    · rw [hq, hf]
      calc rest ++ (p.entityQ ++ [u]) ++ p.freed
        _ = (rest ++ p.entityQ) ++ u :: p.freed := by simp
        _ ~ u :: (rest ++ p.entityQ ++ p.freed) := List.perm_middle
        _ = u :: rest ++ p.entityQ ++ p.freed := rfl
    · rw [hq, hf, ← List.append_assoc]
      exact List.perm_append_singleton u _
  · intro id v
    by_cases hv : v = u
    · subst hv
      rw [hself.1]
      rcases hplace with ⟨hq, _, he, _⟩ | ⟨hq, _, he, _⟩
      · rw [hq, he]
        by_cases hi : id = hdr.id.toUInt8
        · subst hi
          simp
        · rw [Function.update_of_ne hi]
          constructor
          · exact fun hc => absurd (h.mapped hc) hapart
          · rintro ⟨_, hc⟩
            exact absurd hc.symm hi
      · rw [hq, he]
        constructor
        · exact fun hc => absurd (h.mapped hc) hapart
        · exact fun hc => absurd hc.1 hapart
    · rw [hentityQ v hv, hother v hv, ← h.map id v]
      rcases hplace with ⟨_, _, he, _⟩ | ⟨_, _, he, _⟩
      · rw [he]
        by_cases hi : id = hdr.id.toUInt8
        · subst hi
          simp [hm, Ne.symm hv]
        · rw [Function.update_of_ne hi]
      · rw [he]
  · intro v
    rw [hreqQ, hassignQ]
    by_cases hv : v = u
    · subst hv
      simp [hnot, hself.2.2]
    · rw [hentityQ v hv, hother v hv, h.reqQ v, ha]
      simp [hv]
  · rw [hreqQ]
    exact h.reqNodup
  · intro v hv
    rw [hassignQ] at hv
    have hne : v ≠ u := fun he => hfirst (he ▸ hv)
    rw [hother v hne]
    exact h.assigns v (hold v hv)
  · intro v hv
    by_cases he : v = u
    · rw [he]
      exact hself.2.1
    · rw [hother v he]
      exact h.entities v ((hentityQ v he).mp hv)
  · rw [hshown, hcreated]
    exact h.shown
  · rw [hassignQ, hshown, hreqQ]
    exact h.order_tail ha

theorem proxyRc_cases (p : Proxy) (hdr : Header) :
    (∃ u, p.entityMap hdr.id.toUInt8 = some u ∧ (p.proxyRc hdr).1 = p.removeComplete hdr.id.toUInt8 u) ∨
    (∃ u rest, p.entityMap hdr.id.toUInt8 = none ∧ p.assignQ = u :: rest ∧ (p.pU u).requestPending = false ∧
      (p.proxyRc hdr).1 = p.assigned u hdr) ∨
    ∃ ent, (p.proxyRc hdr).1 = { p with ent := ent } := by
  unfold Proxy.proxyRc
  cases hm : p.entityMap hdr.id.toUInt8 with
  | some u =>
    dsimp only
    split
    · exact .inl ⟨u, rfl, rfl⟩
    · exact .inr (.inr ⟨_, rfl⟩)
  | none =>
    dsimp only
    split
    · split
      · rename_i u rest ha
        split
        · rename_i hread
          simp only [Bool.and_eq_true, Bool.not_eq_true'] at hread
          exact .inr (.inl ⟨u, rest, rfl, ha, hread.2, rfl⟩)
        · exact .inr (.inr ⟨p.ent, rfl⟩)
      · exact .inr (.inr ⟨p.ent, rfl⟩)
    · exact .inr (.inr ⟨p.ent, rfl⟩)

theorem proxyInd_ent (p : Proxy) (hdr : Header) (maxLength : Int) (take : Take) :
    ∃ ent, (p.proxyInd hdr maxLength take).1 = { p with ent := ent } := by
  unfold Proxy.proxyInd
  split
  · exact ⟨p.ent, rfl⟩
  · split
    · exact ⟨p.ent, rfl⟩
    · split
      · exact ⟨p.ent, rfl⟩
      · dsimp only
        split
        · exact ⟨_, rfl⟩
        · split <;> exact ⟨_, rfl⟩

theorem proxyWrite_cases (p : Proxy) (hdr : Header) (length copied : Int) (take : Take) :
    (∃ u, p.entityMap hdr.id.toUInt8 = some u ∧ (p.proxyWrite hdr length copied take).1 = p.removeComplete hdr.id.toUInt8 u) ∨
    (∃ u rest, p.entityMap hdr.id.toUInt8 = none ∧ p.assignQ = u :: rest ∧ (p.pU u).requestPending = false ∧
      (p.proxyWrite hdr length copied take).1 = p.assigned u hdr) ∨
    ∃ ent, (p.proxyWrite hdr length copied take).1 = { p with ent := ent } := by
  unfold Proxy.proxyWrite
  split
  · split
    · split
      · exact p.proxyRc_cases hdr
      · exact .inr (.inr (p.proxyInd_ent hdr _ take))
    · exact .inr (.inr ⟨p.ent, rfl⟩)
  · exact .inr (.inr ⟨p.ent, rfl⟩)

theorem Placed.proxyWrite (h : Placed p) (hdr : Header) (length copied : Int) (take : Take) :
    Placed (p.proxyWrite hdr length copied take).1 := by
  rcases p.proxyWrite_cases hdr length copied take with ⟨u, hm, he⟩ | ⟨u, rest, hm, ha, hread, he⟩ | ⟨ent, he⟩
  · rw [he]
    exact h.removeComplete hm
  · rw [he]
    exact h.assigned ha hread hm
  · rw [he]
    exact h.aside _ _ _ _ _ _

/-- What a step is, where it is one. -/
theorem step_cases (p : Proxy) (ev : Ev) :
    p.step ev = p ∨
    (∃ e v, p.step ev = p.userRequest e v) ∨
    (∃ mem, p.reader = .idle ∧ p.step ev = p.takeRequests mem) ∨
    (∃ r rest, p.reader = .serving (r :: rest) ∧ p.step ev = p.nextRequest r rest) ∨
    (∃ r create rest mem, p.reader = .creating r create rest ∧ ev = .make mem ∧ p.step ev = p.createEntity r create rest mem) ∨
    (∃ maxLength copied, p.reader = .serving [] ∧ p.step ev = (p.present maxLength copied).1) ∨
    ∃ hdr length copied take, p.step ev = (p.proxyWrite hdr length copied take).1 := by
  cases ev with
  | user e v => exact .inr (.inl ⟨e, v, rfl⟩)
  | read mem =>
    simp only [Proxy.step]
    split
    · rename_i hr
      exact .inr (.inr (.inl ⟨mem, hr, rfl⟩))
    · exact .inl rfl
  | next =>
    simp only [Proxy.step]
    split
    · rename_i r rest hr
      exact .inr (.inr (.inr (.inl ⟨r, rest, hr, rfl⟩)))
    · exact .inl rfl
  | make mem =>
    simp only [Proxy.step]
    split
    · rename_i r create rest hr
      exact .inr (.inr (.inr (.inr (.inl ⟨r, create, rest, mem, hr, rfl, rfl⟩))))
    · exact .inl rfl
  | present maxLength copied =>
    simp only [Proxy.step]
    split
    · rename_i hr
      exact .inr (.inr (.inr (.inr (.inr (.inl ⟨maxLength, copied, hr, rfl⟩)))))
    · exact .inl rfl
  | write hdr length copied take => exact .inr (.inr (.inr (.inr (.inr (.inr ⟨hdr, length, copied, take, rfl⟩)))))

theorem Placed.step (h : Placed p) (ev : Ev) : Placed (p.step ev) := by
  rcases p.step_cases ev with he | ⟨e, v, he⟩ | ⟨mem, _, he⟩ | ⟨r, rest, _, he⟩ | ⟨r, create, rest, mem, _, _, he⟩ |
    ⟨maxLength, copied, _, he⟩ | ⟨hdr, length, copied, take, he⟩
  · rwa [he]
  · rw [he]
    exact h.userRequest e v
  · rw [he]
    exact h.takeRequests mem
  · rw [he]
    exact h.nextRequest r rest
  · rw [he]
    exact h.createEntity r create rest mem
  · rw [he]
    exact h.present maxLength copied
  · rw [he]
    exact h.proxyWrite hdr length copied take

theorem placed_registered (max : Nat) (ent : Nat → Entity) : Placed (registered max ent) where
  once := by simp [registered]
  map := by simp [registered]
  reqQ := by simp [registered]
  reqNodup := List.nodup_nil
  assigns := by simp [registered]
  entities := by simp [registered]
  shown := by simp [registered]
  order := rfl

end Placed

/-! ## The requests -/

section Ticketed

variable {p : Proxy} {u : Nat} {r : Request} {rest : List Request}

theorem tickets_update {l : List Nat} (hu : u ∉ l) (f : Nat → ProxyEntity) (x : ProxyEntity) :
    (l.map fun v => (Function.update f u x v).ticket) = l.map fun v => (f v).ticket := by
  refine List.map_congr_left ?_
  intro v hv
  have : v ≠ u := fun he => hu (he ▸ hv)
  rw [Function.update_of_ne this]

/-- A change of a proxy entity that keeps its request. -/
theorem tickets_keep (l : List Nat) (f : Nat → ProxyEntity) {x : ProxyEntity} (hx : x.ticket = (f u).ticket) :
    (l.map fun v => (Function.update f u x v).ticket) = l.map fun v => (f v).ticket := by
  refine List.map_congr_left ?_
  intro v _
  by_cases hv : v = u
  · subst hv
    rw [Function.update_self, hx]
  · rw [Function.update_of_ne hv]

theorem Ticketed.userRequest (h : Ticketed p) (e : Nat) (v : Entity) : Ticketed (p.userRequest e v) := by
  unfold Proxy.userRequest
  split
  · exact h
  · split
    · unfold Ticketed at h ⊢
      rw [List.perm_iff_count] at h ⊢
      intro t
      have := h t
      simp only [waiting, Proxy.setEnt, List.count_append, List.map_append, List.range_succ, List.map_cons, List.map_nil]
        at this ⊢
      omega
    · exact h

theorem Ticketed.takeRequests (h : Ticketed p) (hr : p.reader = .idle) (mem : Bool) : Ticketed (p.takeRequests mem) := by
  unfold Ticketed at h ⊢
  rw [List.perm_iff_count] at h ⊢
  intro t
  have := h t
  unfold Proxy.takeRequests
  split
  · simp only [waiting, hr, Reader.taken, List.count_append, List.map_nil, List.count_nil] at this ⊢
    omega
  · simp only [waiting, hr, Reader.taken, List.count_append, List.map_nil, List.count_nil] at this ⊢
    omega

/-- The request that the read is serving is settled. -/
theorem Ticketed.settle {q : Proxy} (h : Ticketed p) (hr : Reader.taken p.reader = r :: rest) {o : Outcome}
    (hs : q.settled = p.settled ++ [(r.ticket, o)]) (hp : q.pendingRequestsQ = p.pendingRequestsQ)
    (ht : Reader.taken q.reader = rest) (hq : (q.reqQ.map fun v => (q.pU v).ticket) = p.reqQ.map fun v => (p.pU v).ticket)
    (hn : q.queued = p.queued) : Ticketed q := by
  unfold Ticketed at h ⊢
  rw [List.perm_iff_count] at h ⊢
  intro t
  have := h t
  simp only [waiting, hr, hs, hp, ht, hq, hn, List.count_append, List.map_append, List.map_cons, List.map_nil, List.count_cons,
    List.count_nil] at this ⊢
  omega

/-- The request that the read is serving gets into `req_q`. -/
theorem Ticketed.enqueue {q : Proxy} (h : Ticketed p) (hr : Reader.taken p.reader = r :: rest)
    (hs : q.settled = p.settled) (hp : q.pendingRequestsQ = p.pendingRequestsQ) (ht : Reader.taken q.reader = rest)
    (hq : (q.reqQ.map fun v => (q.pU v).ticket) = (p.reqQ.map fun v => (p.pU v).ticket) ++ [r.ticket])
    (hn : q.queued = p.queued) : Ticketed q := by
  unfold Ticketed at h ⊢
  rw [List.perm_iff_count] at h ⊢
  intro t
  have := h t
  simp only [waiting, hr, hs, hp, ht, hq, hn, List.count_append, List.map_cons, List.count_cons, List.count_nil] at this ⊢
  omega

/-- A request leaves `req_q` and is settled. -/
theorem Ticketed.dequeue {q : Proxy} (h : Ticketed p) (hu : u ∈ p.reqQ) {o : Outcome}
    (hs : q.settled = p.settled ++ [((p.pU u).ticket, o)]) (hp : q.pendingRequestsQ = p.pendingRequestsQ)
    (ht : Reader.taken q.reader = Reader.taken p.reader)
    (hq : (q.reqQ.map fun v => (q.pU v).ticket) = (p.reqQ.erase u).map fun v => (p.pU v).ticket)
    (hn : q.queued = p.queued) : Ticketed q := by
  have hout := (List.perm_cons_erase hu).map fun v => (p.pU v).ticket
  unfold Ticketed at h ⊢
  rw [List.perm_iff_count] at h hout ⊢
  intro t
  have h1 := h t
  have h2 := hout t
  simp only [waiting, hs, hp, ht, hq, hn, List.count_append, List.map_append, List.map_cons, List.map_nil, List.count_cons,
    List.count_nil] at h1 h2 ⊢
  omega

theorem Ticketed.nextRequest (h : Ticketed p) (hp : Placed p) (hr : p.reader = .serving (r :: rest)) :
    Ticketed (p.nextRequest r rest) := by
  have htaken : Reader.taken p.reader = r :: rest := by rw [hr]; rfl
  unfold Proxy.nextRequest
  split
  · split
    all_goals
      unfold Ticketed at h ⊢
      simpa only [waiting, hr, Reader.taken] using h
  · rcases p.requestEntity_cases r with he | ⟨u, he⟩ | he | ⟨u, m, hm, hfree, he⟩
    · rw [he]
      exact h.settle htaken rfl rfl rfl rfl rfl
    · rw [he]
      exact h.settle htaken rfl rfl rfl (tickets_keep _ _ rfl) rfl
    · rw [he]
      exact h.settle htaken rfl rfl rfl rfl rfl
    · rw [he]
      have hnot : u ∉ p.reqQ := by
        rw [hp.reqQ u, hfree]
        simp
      refine h.enqueue htaken rfl rfl rfl ?_ rfl
      show ((p.reqQ ++ [u]).map _) = _
      rw [List.map_append]
      simp only [queueRequest, Proxy.setUnit, tickets_update hnot, List.map_cons, List.map_nil, Function.update_self]

theorem Ticketed.createEntity (h : Ticketed p) (hp : Placed p) {create : Bool} (hr : p.reader = .creating r create rest)
    (mem : Bool) : Ticketed (p.createEntity r create rest mem) := by
  have htaken : Reader.taken p.reader = r :: rest := by rw [hr]; rfl
  have hnew : p.created ∉ p.reqQ := fun hc => Nat.lt_irrefl _ (hp.reqQ_lt hc)
  unfold Proxy.createEntity
  split
  · split
    · exact h.settle htaken rfl rfl rfl rfl rfl
    · refine h.enqueue htaken rfl rfl rfl ?_ rfl
      show ((p.reqQ ++ [p.created]).map _) = _
      rw [List.map_append]
      simp only [Proxy.setUnit, tickets_update hnew, List.map_cons, List.map_nil, Function.update_self, assigning]
  · exact h.settle htaken rfl rfl rfl rfl rfl

theorem Ticketed.present (h : Ticketed p) (hr : p.reader = .serving []) (maxLength copied : Int) :
    Ticketed (p.present maxLength copied).1 := by
  have hidle : Ticketed { p with reader := .idle } := by
    unfold Ticketed at h ⊢
    simpa only [waiting, hr, Reader.taken] using h
  unfold Proxy.present
  split
  · exact hidle
  · rename_i u rest hq
    split
    · split
      · refine h.dequeue (u := u) (by simp [hq]) rfl rfl ?_ ?_ rfl
        · rw [hr]
          rfl
        · exact tickets_keep _ _ rfl
      · exact hidle
    · exact hidle

theorem Ticketed.proxyWrite (h : Ticketed p) (hp : Placed p) (hdr : Header) (length copied : Int) (take : Take) :
    Ticketed (p.proxyWrite hdr length copied take).1 := by
  rcases p.proxyWrite_cases hdr length copied take with ⟨u, hm, he⟩ | ⟨u, rest, hm, ha, hread, he⟩ | ⟨ent, he⟩
  · rw [he]
    cases hpending : (p.pU u).requestPending with
    | true =>
      have hu : u ∈ p.reqQ := (hp.reqQ u).mpr ⟨.inr (hp.mapped hm), hpending⟩
      refine h.dequeue hu (o := .removed) ?_ rfl rfl ?_ rfl
      · simp [removeComplete, hpending]
      · simp [removeComplete, hpending, Proxy.setEnt]
    | false =>
      unfold Ticketed at h ⊢
      simpa [waiting, removeComplete, hpending, Proxy.setEnt] using h
  · rw [he]
    have hkeep := tickets_keep (u := u) p.reqQ p.pU (x := { p.pU u with assignPending := false, id := hdr.id.toUInt8 }) rfl
    by_cases hrc : hdr.rcInd.toUInt8 = assignOk
    all_goals
      unfold Ticketed at h ⊢
      simp only [Proxy.assigned, hrc, if_true, if_false, waiting, Proxy.setEnt, Proxy.setUnit]
      rw [hkeep]
      exact h
  · rw [he]
    exact h

theorem Ticketed.step (h : Ticketed p) (hp : Placed p) (ev : Ev) : Ticketed (p.step ev) := by
  rcases p.step_cases ev with he | ⟨e, v, he⟩ | ⟨mem, hr, he⟩ | ⟨r, rest, hr, he⟩ | ⟨r, create, rest, mem, hr, _, he⟩ |
    ⟨maxLength, copied, hr, he⟩ | ⟨hdr, length, copied, take, he⟩
  · rwa [he]
  · rw [he]
    exact h.userRequest e v
  · rw [he]
    exact h.takeRequests hr mem
  · rw [he]
    exact h.nextRequest hp hr
  · rw [he]
    exact h.createEntity hp hr mem
  · rw [he]
    exact h.present hr maxLength copied
  · rw [he]
    exact h.proxyWrite hp hdr length copied take

end Ticketed

/-! ## The count of the entities -/

/-- The step ends an ASSIGN that was refused at the limit. -/
def TurnsAway (p : Proxy) : Ev → Prop
  | .make _ => ∃ r rest, p.reader = .creating r false rest
  | _ => False

section Counted

variable {p q : Proxy} {u : Nat}

theorem dec_pos {n : Nat} (h0 : n ≠ 0) : dec n = n - 1 := if_neg h0

theorem Counted.congr (h : Counted p) (hn : q.nrEntities = p.nrEntities) (hm : q.maxEntities = p.maxEntities)
    (ha : q.assignQ = p.assignQ) (he : q.entityQ = p.entityQ) (hr : Reader.reserved q.reader = Reader.reserved p.reader) :
    Counted q := by
  unfold Counted at h ⊢
  rwa [hn, hm, ha, he, hr]

theorem requestEntity_count (p : Proxy) (r : Request) :
    (p.requestEntity r).nrEntities = p.nrEntities ∧ (p.requestEntity r).maxEntities = p.maxEntities ∧
    (p.requestEntity r).assignQ = p.assignQ ∧ (p.requestEntity r).entityQ = p.entityQ := by
  rcases p.requestEntity_cases r with he | ⟨u, he⟩ | he | ⟨u, m, _, _, he⟩
  all_goals
    rw [he]
    exact ⟨rfl, rfl, rfl, rfl⟩

theorem Counted.nextRequest (h : Counted p) (hmax : p.maxEntities ≤ 0xff) {r : Request} {rest : List Request}
    (hr : p.reader = .serving (r :: rest)) : Counted (p.nextRequest r rest) := by
  have h0 : Reader.reserved p.reader = 0 := by rw [hr]; rfl
  unfold Proxy.nextRequest
  split
  · split
    · rename_i hroom
      obtain ⟨hcount, hle⟩ := h
      have hinc : inc p.nrEntities = p.nrEntities + 1 := by
        unfold inc
        omega
      rw [hinc] at hroom ⊢
      refine ⟨?_, hroom⟩
      show p.nrEntities + 1 = p.assignQ.length + p.entityQ.length + 1
      omega
    · exact h.congr rfl rfl rfl rfl h0.symm
  · obtain ⟨hn, hm, ha, he⟩ := p.requestEntity_count r
    exact h.congr hn hm ha he h0.symm

theorem Counted.createEntity (h : Counted p) {r : Request} {rest : List Request}
    (hr : p.reader = .creating r true rest) (mem : Bool) : Counted (p.createEntity r true rest mem) := by
  have h1 : Reader.reserved p.reader = 1 := by rw [hr]; rfl
  obtain ⟨hcount, hle⟩ := h
  have hdec : dec p.nrEntities = p.nrEntities - 1 := dec_pos (by omega)
  -- without an entity the count goes back by what the read had added
  have hback : dec p.nrEntities = p.assignQ.length + p.entityQ.length + 0 ∧ dec p.nrEntities ≤ p.maxEntities := by
    rw [hdec]
    omega
  unfold Proxy.createEntity
  split
  · split
    · exact hback
    · refine ⟨?_, hle⟩
      show p.nrEntities = (p.assignQ ++ [p.created]).length + p.entityQ.length + 0
      rw [List.length_append, List.length_singleton]
      omega
  · exact hback

theorem Counted.present (h : Counted p) (hr : p.reader = .serving []) (maxLength copied : Int) :
    Counted (p.present maxLength copied).1 := by
  have h0 : Reader.reserved p.reader = 0 := by rw [hr]; rfl
  unfold Proxy.present
  split
  · exact h.congr rfl rfl rfl rfl h0.symm
  · split
    · split
      · exact h.congr rfl rfl rfl rfl h0.symm
      · exact h.congr rfl rfl rfl rfl h0.symm
    · exact h.congr rfl rfl rfl rfl h0.symm

theorem Counted.proxyWrite (h : Counted p) (hp : Placed p) (hmax : p.maxEntities ≤ 0xff) (hdr : Header) (length copied : Int)
    (take : Take) : Counted (p.proxyWrite hdr length copied take).1 := by
  obtain ⟨hcount, hle⟩ := h
  rcases p.proxyWrite_cases hdr length copied take with ⟨u, hm, he⟩ | ⟨u, rest, hm, ha, hread, he⟩ | ⟨ent, he⟩
  · rw [he]
    have hu := hp.mapped hm
    have hpos := List.length_pos_of_mem hu
    have hlen := List.length_erase_of_mem hu
    have hne : p.nrEntities ≠ 0 := by omega
    have hdec : dec p.nrEntities = p.nrEntities - 1 := dec_pos hne
    simp only [Counted, removeComplete, Proxy.setEnt, hp.entities u hu, hne, Bool.false_eq_true, if_false,
      ne_eq, not_false_eq_true,
      if_true, hdec, hlen]
    omega
  · rw [he]
    have hne : p.nrEntities ≠ 0 := by
      rw [ha, List.length_cons] at hcount
      omega
    have hdec : dec p.nrEntities = p.nrEntities - 1 := dec_pos hne
    have hmax' : (p.assigned u hdr).maxEntities = p.maxEntities ∧ (p.assigned u hdr).reader = p.reader := by
      by_cases hrc : hdr.rcInd.toUInt8 = assignOk
      · simp only [Proxy.assigned, if_pos hrc, Proxy.setEnt, Proxy.setUnit, and_self]
      · simp only [Proxy.assigned, if_neg hrc, Proxy.setEnt, Proxy.setUnit, and_self]
    have hassignQ := (p.assigned_frame u hdr).1
    rw [ha, List.erase_cons_head] at hassignQ
    rw [ha, List.length_cons] at hcount
    unfold Counted
    rw [hassignQ, hmax'.1, hmax'.2]
    rcases p.assigned_place u hdr with ⟨hq, _, _, hn⟩ | ⟨hq, _, _, hn⟩
    · rw [hq, hn, List.length_append, List.length_singleton]
      omega
    · rw [hq, hn, if_pos hne, hdec]
      omega
  · rw [he]
    exact ⟨hcount, hle⟩

theorem Counted.step (h : Counted p) (hp : Placed p) (hmax : p.maxEntities ≤ 0xff) {ev : Ev} (hc : ¬ p.TurnsAway ev) :
    Counted (p.step ev) := by
  rcases p.step_cases ev with he | ⟨e, v, he⟩ | ⟨mem, hr, he⟩ | ⟨r, rest, hr, he⟩ | ⟨r, create, rest, mem, hr, hev, he⟩ |
    ⟨maxLength, copied, hr, he⟩ | ⟨hdr, length, copied, take, he⟩
  · rwa [he]
  · rw [he]
    unfold Proxy.userRequest
    split
    · exact h
    · split <;> exact h
  · rw [he]
    unfold Proxy.takeRequests
    have h0 : Reader.reserved p.reader = 0 := by rw [hr]; rfl
    split <;> exact h.congr rfl rfl rfl rfl h0.symm
  · rw [he]
    exact h.nextRequest hmax hr
  · rw [he]
    cases create with
    | true => exact h.createEntity hr mem
    | false =>
      refine absurd ?_ hc
      rw [hev]
      exact ⟨r, rest, hr⟩
  · rw [he]
    exact h.present hr maxLength copied
  · rw [he]
    exact h.proxyWrite hp hmax hdr length copied take

end Counted

/-! ## Runs -/

section Runs

variable {p : Proxy}

structure Inv (p : Proxy) : Prop where
  placed : Placed p
  ticketed : Ticketed p
  limit : p.maxEntities ≤ 0xff

theorem step_maxEntities (p : Proxy) (ev : Ev) : (p.step ev).maxEntities = p.maxEntities := by
  rcases p.step_cases ev with he | ⟨e, v, he⟩ | ⟨mem, _, he⟩ | ⟨r, rest, _, he⟩ | ⟨r, create, rest, mem, _, _, he⟩ |
    ⟨maxLength, copied, _, he⟩ | ⟨hdr, length, copied, take, he⟩
  · rw [he]
  · rw [he]
    unfold Proxy.userRequest
    split
    · rfl
    · split <;> rfl
  · rw [he]
    unfold Proxy.takeRequests
    split <;> rfl
  · rw [he]
    unfold Proxy.nextRequest
    split
    · split <;> rfl
    · exact (p.requestEntity_count r).2.1
  · rw [he]
    unfold Proxy.createEntity
    split
    · split <;> rfl
    · rfl
  · rw [he]
    unfold Proxy.present
    split
    · rfl
    · split
      · split <;> rfl
      · rfl
  · rw [he]
    rcases p.proxyWrite_cases hdr length copied take with ⟨u, _, hw⟩ | ⟨u, rest, _, _, _, hw⟩ | ⟨ent, hw⟩
    · rw [hw]
      rfl
    · rw [hw]
      by_cases hrc : hdr.rcInd.toUInt8 = assignOk
      · simp only [Proxy.assigned, if_pos hrc, Proxy.setEnt, Proxy.setUnit]
      · simp only [Proxy.assigned, if_neg hrc, Proxy.setEnt, Proxy.setUnit]
    · rw [hw]

theorem limit_le (max : Nat) : limit max ≤ 0xff := by
  unfold limit
  split <;> omega

theorem inv_registered (max : Nat) (ent : Nat → Entity) : Inv (registered max ent) :=
  ⟨placed_registered max ent, List.Perm.refl _, limit_le max⟩

theorem Inv.step (h : Inv p) (ev : Ev) : Inv (p.step ev) :=
  ⟨h.placed.step ev, h.ticketed.step h.placed ev, by rw [step_maxEntities]; exact h.limit⟩

theorem inv_run (max : Nat) (ent : Nat → Entity) (es : List Ev) : Inv (run step (registered max ent) es) :=
  run_invariant step (fun _ ev h => h.step ev) (inv_registered max ent) es

/-- Until an ASSIGN is turned away at the limit, `nr_entities` is the number of the proxy entities. -/
theorem counted_run (max : Nat) (ent : Nat → Entity) {es : List Ev}
    (hes : Along step (fun p ev => ¬ p.TurnsAway ev) (registered max ent) es) : Counted (run step (registered max ent) es) := by
  have hstart : Inv (registered max ent) ∧ Counted (registered max ent) := ⟨inv_registered max ent, rfl, Nat.zero_le _⟩
  refine (Along.invariant step (I := fun p => Inv p ∧ Counted p) ?_ hstart hes).2
  intro p ev h hc
  exact ⟨h.1.step ev, h.2.step h.1.placed h.1.limit hc⟩

/-- Only the request of a busy entity is dropped by a read. -/
theorem busy_requestEntity (p : Proxy) (r : Request) (h : (p.requestEntity r).settled = p.settled ++ [(r.ticket, .busy)]) :
    ∃ u, p.entityMap (p.ent r.e).id = some u ∧ (p.pU u).e = r.e ∧
      ((p.pU u).requestPending = true ∨ (p.pU u).removePending = true) := by
  unfold requestEntity at h
  split at h
  · simp [answer] at h
  · rename_i u hm
    split at h
    · simp [answer] at h
    · rename_i hown
      split at h
      · rename_i hbusy
        exact ⟨u, hm, not_not.mp hown, by simpa using hbusy⟩
      · split at h
        · simp [answer, Proxy.setUnit] at h
        · simp [queueRequest, Proxy.setUnit] at h

theorem proxyRc_assign (h : Placed p) (hdr : Header) (hm : p.entityMap hdr.id.toUInt8 = none)
    (hrc : hdr.rcInd.toUInt8 &&& 0xf0 = assignRc) :
    (p.proxyRc hdr).1 = match p.oldestRead with
      | some u => p.assigned u hdr
      | none => p := by
  rw [h.head_assignQ]
  simp only [proxyRc, hm, hrc, if_true]
  cases ha : p.assignQ with
  | nil => rfl
  | cons u rest =>
    cases hread : (p.pU u).assignPending && !(p.pU u).requestPending with
    | true => simp [Option.filter, hread]
    | false => simp [Option.filter, hread]

/-- What holds after any run of requests, reads and writes. -/
theorem proxy_accounting (max : Nat) (ent : Nat → Entity) (es : List Ev) :
    let p := run step (registered max ent) es
    (Along step (fun p ev => ¬ p.TurnsAway ev) (registered max ent) es →
      p.nrEntities = p.assignQ.length + p.entityQ.length + Reader.reserved p.reader ∧ p.nrEntities ≤ p.maxEntities) ∧
    (∀ id u, p.entityMap id = some u ↔ u ∈ p.entityQ ∧ (p.pU u).id = id) ∧
    p.reqQ.Nodup ∧ (∀ u, u ∈ p.reqQ ↔ (u ∈ p.assignQ ∨ u ∈ p.entityQ) ∧ (p.pU u).requestPending = true) ∧
    (p.assignQ ++ p.entityQ ++ p.freed).Perm (List.range p.created) ∧
    (p.settled.map Prod.fst ++ p.waiting).Perm (List.range p.queued) ∧
    (∀ r, (p.requestEntity r).settled = p.settled ++ [(r.ticket, .busy)] →
      ∃ u, p.entityMap (p.ent r.e).id = some u ∧ (p.pU u).e = r.e ∧
        ((p.pU u).requestPending = true ∨ (p.pU u).removePending = true)) ∧
    ∀ hdr : Header, p.entityMap hdr.id.toUInt8 = none → hdr.rcInd.toUInt8 &&& 0xf0 = assignRc →
      (p.proxyRc hdr).1 = match p.oldestRead with
        | some u => p.assigned u hdr
        | none => p := by
  intro p
  have h : Inv p := inv_run max ent es
  refine ⟨fun hes => counted_run max ent hes, h.placed.map, h.placed.reqNodup, h.placed.reqQ, h.placed.once, h.ticketed, ?_, ?_⟩
  · intro r hr
    exact p.busy_requestEntity r hr
  · intro hdr hm hrc
    exact proxyRc_assign h.placed hdr hm hrc

/-- A client's request of `req` with the Id. -/
def asks (id req : UInt8) : Entity := ⟨id, req, 0, 0, 0, 0, 0, 0, 0, 0, 0, 0, [some [1]]⟩

/-- An entity with Id 1 queues two more requests before a read, then the process removes it. -/
def dropRun : List Ev :=
  [.user 0 (asks 0 1), .read true, .next, .make true, .present 100 9, .write ⟨1, 0xef, 0, 0x8000⟩ 8 8 ⟨0, 0⟩,
   .user 0 (asks 1 2), .user 0 (asks 1 3), .read true, .next, .next, .present 0 0, .write ⟨1, 0xff, 0, 0x8001⟩ 8 8 ⟨0, 0⟩]

/-- Two entities for a process that takes one. -/
def limitRun : List Ev :=
  [.user 0 (asks 0 1), .user 1 (asks 0 1), .read true, .next, .make true, .next, .make true, .present 0 0]

/-- A busy entity's request is dropped, and one in `req_q` with its entity; at the limit `nr_entities` loses an entity. -/
theorem proxy_drops :
    (run step (registered 1 fun _ => asks 0 0) dropRun).settled =
      [(0, .presented ⟨0, 1, 0, [1]⟩), (2, .busy), (1, .removed)] ∧
    (run step (registered 1 fun _ => asks 0 0) limitRun).nrEntities = 0 ∧
    (run step (registered 1 fun _ => asks 0 0) limitRun).assignQ.length = 1 := by
  decide +kernel

end Runs

end Proxy

end Divas.Um
