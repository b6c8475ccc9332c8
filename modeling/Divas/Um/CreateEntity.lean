/-
  Divas.Um.CreateEntity — a new entity of the user mode interface (um_idi.c).

  `divas_um_idi_create_entity` allocates the entity, its context and its two queues, and first of
  all a master if the adapter number asks for one. Under the lock the entity goes to the queue of
  the adapter, or to the idle queue of a master: of one that the adapter has already, and then
  the new one is superfluous, or of the new one, which goes to the queue of the adapter.

  Blocks and adapters are numbers, for their pointers. `taken` are the blocks that the call
  allocates and `freed` the ones that it frees, both in order.

  Proved: either there is no entity, every block is freed once and no queue is changed, or the
  entity is on one queue, as asked for, and only a superfluous master is freed, once
  (`create_all_or_nothing`). This holds if and only if the call does not fail on the context with
  a master allocated: that exit forgets the master (`master_leaked`).
-/

import Mathlib.Logic.Function.Basic
import Mathlib.Data.List.Nodup

namespace Divas.Um.Multiplex

def systemAdapterNr : UInt32 := 0
def maxTimeouts : UInt32 := 10
def statusRemovePending : UInt32 := 0x00000002
def statusRemoved : UInt32 := 0x00000008

/-! ## Data -/

inductive EntityType where
  | management
  | master
  | logical
  deriving DecidableEq

inductive MasterType where
  | idi
  | license
  deriving DecidableEq

/-- `diva_um_idi_master_entity_state_t`. -/
inductive MasterState where
  | idle
  | assignPending
  | assigned
  | responsePending
  | responsePendingCancelled
  | removePending
  | outOfService
  deriving DecidableEq

/-- The place of a state in the enumeration. -/
def MasterState.code : MasterState → Nat
  | .idle => 0
  | .assignPending => 1
  | .assigned => 2
  | .responsePending => 3
  | .responsePendingCancelled => 4
  | .removePending => 5
  | .outOfService => 6

/-- The fields of `divas_um_idi_entity_t` that creation and cleanup use; `data` and `rc` are the blocks of the queues. -/
structure Entity where
  adapter : Option Nat
  id : UInt8
  osRef : Nat
  status : UInt32
  osContext : Option Nat
  rcCount : Int
  data : Option Nat
  rc : Option Nat
  cbufferLength : Int
  cbufferPos : Int
  entityType : EntityType
  state : MasterState
  type : MasterType
  activeMultiplexQ : List Nat
  idleMultiplexQ : List Nat
  xdiEntity : Option Nat

/-- What `memset` leaves. -/
def Entity.zero : Entity :=
  ⟨none, 0, 0, 0, none, 0, none, none, 0, 0, .management, .idle, .idi, [], [], none⟩

structure Adapter where
  adapterNr : UInt32
  nrDelayedCleanupEntities : UInt32
  entityQ : List Nat

structure System where
  adapterQ : List Nat
  adp : Nat → Adapter
  ent : Nat → Entity

inductive QueueName where
  | entity (a : Nat)
  | active (m : Nat)
  | idle (m : Nat)
  deriving DecidableEq

namespace System

variable (s : System)

/-- A master on the queue of an adapter. -/
def Linked (m : Nat) : Prop := (s.ent m).entityType = .master ∧ ∃ a, a ∈ s.adapterQ ∧ m ∈ (s.adp a).entityQ

instance (m : Nat) : Decidable (s.Linked m) := inferInstanceAs (Decidable (_ ∧ ∃ a, a ∈ s.adapterQ ∧ _))

/-- The queues of the system: of its adapters, and of their masters. -/
def queue : QueueName → List Nat
  | .entity a => if a ∈ s.adapterQ then (s.adp a).entityQ else []
  | .active m => if s.Linked m then (s.ent m).activeMultiplexQ else []
  | .idle m => if s.Linked m then (s.ent m).idleMultiplexQ else []

def setEnt (e : Nat) (v : Entity) : System := { s with ent := Function.update s.ent e v }

def setAdp (a : Nat) (v : Adapter) : System := { s with adp := Function.update s.adp a v }

/-- `diva_um_idi_find_adapter`. -/
def findAdapter (nr : UInt32) : Option Nat := s.adapterQ.find? fun a => nr = (s.adp a).adapterNr

end System

/-- What `diva_os_malloc` returns at its first, second, … call: each block is new, and in no queue. -/
structure Allocator (s : System) where
  result : Nat → Option Nat
  fresh : ∀ k b, result k = some b → ∀ q, b ∉ s.queue q
  unlike : ∀ k k' b, result k = some b → result k' = some b → k = k'

/-- The system in the course of a call. -/
structure Call where
  sys : System
  tries : Nat
  taken : List Nat
  freed : List Nat

namespace Call

variable {s₀ : System} (alloc : Allocator s₀) (c : Call)

/-- `diva_os_malloc`. -/
def malloc : Option Nat × Call :=
  match alloc.result c.tries with
  | none => (none, { c with tries := c.tries + 1 })
  | some b => (some b, { c with tries := c.tries + 1, taken := c.taken ++ [b] })

/-- `diva_os_free`. -/
def free (b : Nat) : Call := { c with freed := c.freed ++ [b] }

/-- `diva_os_free` of what may be no block. -/
def freeIf : Option Nat → Call
  | none => c
  | some b => c.free b

def setEnt (e : Nat) (v : Entity) : Call := { c with sys := c.sys.setEnt e v }

/-- `cleanup_entity`. -/
def cleanupEntity (e : Nat) (freeMemory : Bool) : Call :=
  let v := c.sys.ent e
  let v :=
    { v with
      osRef := 0
      status := statusRemoved ||| statusRemovePending
      adapter := none
      id := 0
      rcCount := 0
      cbufferLength := 0
      cbufferPos := 0 }
  if freeMemory ∧ v.entityType ≠ .master then
    ((c.setEnt e { v with data := none, rc := none }).freeIf v.data).freeIf v.rc
  else c.setEnt e v

/-- The entity goes to the queue of its adapter or of its master; the superfluous master comes back. -/
def link (a : Nat) (masterEntity : Option Nat) (e : Nat) : Call × Option Nat :=
  let s := c.sys
  match masterEntity with
  | none =>
    let s := s.setEnt e { s.ent e with adapter := some a }
    ({ c with sys := s.setAdp a { s.adp a with entityQ := (s.adp a).entityQ ++ [e] } }, none)
  | some new =>
    let found := (s.adp a).entityQ.find? fun m =>
      (s.ent m).entityType = .master ∧ (s.ent m).type = (s.ent new).type ∧ (s.ent m).state.code < MasterState.removePending.code
    let m := found.getD new
    let s := s.setEnt m { s.ent m with adapter := some a }
    let s := s.setEnt e { s.ent e with xdiEntity := some m }
    let s := s.setEnt m { s.ent m with idleMultiplexQ := (s.ent m).idleMultiplexQ ++ [e] }
    match found with
    | some _ => ({ c with sys := s }, some new)
    | none => ({ c with sys := s.setAdp a { s.adp a with entityQ := (s.adp a).entityQ ++ [m] } }, none)

/-- The part of `divas_um_idi_create_entity` under the lock, and its end. -/
def enter (masterEntity : Option Nat) (e osContext : Nat) (nr : UInt32) (file : Nat) : Option Nat × Call :=
  match c.sys.findAdapter nr with
  | none => (none, (((c.cleanupEntity e true).free osContext).free e).freeIf masterEntity)
  | some a =>
    if (c.sys.adp a).nrDelayedCleanupEntities > maxTimeouts then
      (none, (((c.cleanupEntity e true).free osContext).free e).freeIf masterEntity)
    else
      let c := c.setEnt e { c.sys.ent e with osRef := file }
      let r := c.link a masterEntity e
      (some e, r.1.freeIf r.2)

/-- The queues of the entity, and what follows. -/
def createQueues (masterEntity : Option Nat) (e osContext : Nat) (nr : UInt32) (file : Nat) : Option Nat × Call :=
  match c.malloc alloc with
  | (none, c) => (none, ((c.free osContext).free e).freeIf masterEntity)
  | (some data, c) =>
    let c := c.setEnt e { c.sys.ent e with data := some data }
    match c.malloc alloc with
    | (none, c) => (none, (((c.free data).free osContext).free e).freeIf masterEntity)
    | (some rc, c) => (c.setEnt e { c.sys.ent e with rc := some rc }).enter masterEntity e osContext nr file

/-- `divas_um_idi_create_entity` behind the allocation of the master. -/
def createWith (masterEntity : Option Nat) (nr : UInt32) (file : Nat) : Option Nat × Call :=
  match c.malloc alloc with
  | (none, c) => (none, c.freeIf masterEntity)
  | (some e, c) =>
    let c := c.setEnt e Entity.zero
    match c.malloc alloc with
    -- no memory for the context: the master stays behind
    | (none, c) => (none, c.free e)
    | (some osContext, c) =>
      let entityType := if masterEntity = none then EntityType.management else EntityType.logical
      (c.setEnt e { c.sys.ent e with osContext := some osContext, entityType := entityType }).createQueues alloc masterEntity e
        osContext nr file

end Call

/-- `license_server`. -/
def licenseServer (adapterNr : UInt32) : Bool := adapterNr ≠ systemAdapterNr ∧ adapterNr &&& 0x4000 ≠ 0

/-- `create_master`. -/
def createMaster (adapterNr : UInt32) : Bool := adapterNr ≠ systemAdapterNr ∧ (adapterNr > 100 ∨ adapterNr &&& 0x4000 ≠ 0)

/-- The number without the bits for the kind of the entity. -/
def plainNr (adapterNr : UInt32) : UInt32 :=
  if adapterNr = systemAdapterNr then adapterNr else adapterNr &&& ~~~(0x8000 ||| 0x4000)

def masterType (adapterNr : UInt32) : MasterType := if licenseServer adapterNr then .license else .idi

/-- `divas_um_idi_create_entity`. -/
def createEntity (s : System) (alloc : Allocator s) (adapterNr : UInt32) (file : Nat) : Option Nat × Call :=
  let c : Call := ⟨s, 0, [], []⟩
  if createMaster adapterNr then
    match c.malloc alloc with
    | (none, c) => (none, c)
    | (some m, c) =>
      let c := c.setEnt m { Entity.zero with entityType := .master, type := masterType adapterNr }
      c.createWith alloc (some m) (plainNr adapterNr) file
  else c.createWith alloc none (plainNr adapterNr) file

/-! ## All or nothing -/

/-- The entity is on this queue once, and on no other. -/
structure OnlyOn (s : System) (e : Nat) (q : QueueName) : Prop where
  here : (s.queue q).count e = 1
  elsewhere : ∀ q', q' ≠ q → e ∉ s.queue q'

/-- A block that the entity `e` uses. -/
def Used (s : System) (e b : Nat) : Prop :=
  b = e ∨ (s.ent e).osContext = some b ∨ (s.ent e).data = some b ∨ (s.ent e).rc = some b ∨ (s.ent e).xdiEntity = some b

/-- Every block in `freed` was taken, and each taken block that is not `kept` is freed once. -/
structure FreedOnce (c : Call) (kept : Nat → Prop) : Prop where
  own : ∀ b, b ∈ c.freed → b ∈ c.taken
  unfreed : ∀ b, b ∈ c.taken → kept b → b ∉ c.freed
  once : ∀ b, b ∈ c.taken → ¬ kept b → c.freed.count b = 1

/-- The entity is where the adapter number asks for. -/
def Placed (s : System) (adapterNr : UInt32) (e : Nat) : Prop :=
  ∃ a, a ∈ s.adapterQ ∧ (s.adp a).adapterNr = plainNr adapterNr ∧
    if createMaster adapterNr then
      ∃ m, OnlyOn s e (.idle m) ∧ m ∈ (s.adp a).entityQ ∧ (s.ent m).entityType = .master ∧ (s.ent m).type = masterType adapterNr ∧
        (s.ent m).state.code < MasterState.removePending.code ∧ (s.ent e).xdiEntity = some m
    else OnlyOn s e (.entity a)

/-- Nothing is left of a call without a result; the result of another is in its place, with the blocks it uses. -/
def AllOrNothing (s : System) (adapterNr : UInt32) : Option Nat × Call → Prop
  | (none, c) => FreedOnce c (fun _ => False) ∧ ∀ q, c.sys.queue q = s.queue q
  | (some e, c) => FreedOnce c (Used c.sys e) ∧ Placed c.sys adapterNr e

/-! ## Queues and new blocks -/

/-- What is on a queue of the first system is the same in the second one. -/
structure SameHeld (s s' : System) : Prop where
  adapterQ : s'.adapterQ = s.adapterQ
  adp : s'.adp = s.adp
  ent : ∀ b q, b ∈ s.queue q → s'.ent b = s.ent b

variable {s s' : System}

theorem mem_entityQ {a m : Nat} (ha : a ∈ s.adapterQ) (hm : m ∈ (s.adp a).entityQ) : m ∈ s.queue (.entity a) := by
  simpa [System.queue, ha] using hm

theorem SameHeld.linked (h : SameHeld s s') (m : Nat) : s'.Linked m ↔ s.Linked m := by
  unfold System.Linked
  rw [h.adapterQ, h.adp]
  constructor
  · rintro ⟨ht, a, ha, hm⟩
    rw [h.ent m _ (mem_entityQ ha hm)] at ht
    exact ⟨ht, a, ha, hm⟩
  · rintro ⟨ht, a, ha, hm⟩
    rw [← h.ent m _ (mem_entityQ ha hm)] at ht
    exact ⟨ht, a, ha, hm⟩

theorem SameHeld.ent_linked (h : SameHeld s s') {m : Nat} (hm : s.Linked m) : s'.ent m = s.ent m := by
  obtain ⟨-, a, ha, hm⟩ := hm
  exact h.ent m _ (mem_entityQ ha hm)

theorem SameHeld.queue (h : SameHeld s s') (q : QueueName) : s'.queue q = s.queue q := by
  cases q with
  | entity a => simp only [System.queue, h.adapterQ, h.adp]
  | active m =>
    by_cases hm : s.Linked m
    · simp only [System.queue, h.linked m, hm, if_true, h.ent_linked hm]
    · simp only [System.queue, h.linked m, hm, if_false]
  | idle m =>
    by_cases hm : s.Linked m
    · simp only [System.queue, h.linked m, hm, if_true, h.ent_linked hm]
    · simp only [System.queue, h.linked m, hm, if_false]

theorem SameHeld.refl (s : System) : SameHeld s s := ⟨rfl, rfl, fun _ _ _ => rfl⟩

theorem SameHeld.setEnt (h : SameHeld s s') {b : Nat} (hb : ∀ q, b ∉ s.queue q) (v : Entity) : SameHeld s (s'.setEnt b v) := by
  refine ⟨h.adapterQ, h.adp, fun b' q hb' => ?_⟩
  have hne : b' ≠ b := by
    rintro rfl
    exact hb q hb'
  have hset : (s'.setEnt b v).ent b' = s'.ent b' := Function.update_of_ne hne _ _
  rw [hset, h.ent b' q hb']

/-- The blocks that a call has got are apart, and so far only their contents have changed. -/
structure Going (s : System) (alloc : Allocator s) (c : Call) : Prop where
  nodup : c.taken.Nodup
  result : ∀ b, b ∈ c.taken → ∃ k, k < c.tries ∧ alloc.result k = some b
  same : SameHeld s c.sys

namespace Going

variable {alloc : Allocator s} {c : Call}

theorem fresh (h : Going s alloc c) {b : Nat} (hb : b ∈ c.taken) : ∀ q, b ∉ s.queue q := by
  obtain ⟨k, -, hk⟩ := h.result b hb
  exact alloc.fresh k b hk

theorem setEnt (h : Going s alloc c) {b : Nat} (hb : b ∈ c.taken) (v : Entity) : Going s alloc (c.setEnt b v) :=
  ⟨h.nodup, h.result, h.same.setEnt (h.fresh hb) v⟩

/-- The next block. -/
theorem malloc (h : Going s alloc c) {b : Nat} (hb : alloc.result c.tries = some b) :
    c.malloc alloc = (some b, { c with tries := c.tries + 1, taken := c.taken ++ [b] }) ∧
      Going s alloc { c with tries := c.tries + 1, taken := c.taken ++ [b] } := by
  refine ⟨by simp [Call.malloc, hb], ?_, ?_, h.same⟩
  · refine List.nodup_append.mpr ⟨h.nodup, List.nodup_singleton b, fun x hx y hy => ?_⟩
    rintro rfl
    obtain ⟨k, hk, hres⟩ := h.result x hx
    rw [List.mem_singleton.mp hy] at hres
    have := alloc.unlike k c.tries b hres hb
    omega
  · intro x hx
    rcases List.mem_append.mp hx with hx | hx
    · obtain ⟨k, hk, hres⟩ := h.result x hx
      exact ⟨k, Nat.lt_succ_of_lt hk, hres⟩
    · rw [List.mem_singleton.mp hx]
      exact ⟨c.tries, Nat.lt_succ_self _, hb⟩

end Going

theorem malloc_none {alloc : Allocator s} {c : Call} (h : alloc.result c.tries = none) :
    c.malloc alloc = (none, { c with tries := c.tries + 1 }) := by
  simp [Call.malloc, h]

/-- All blocks freed, in any order. -/
theorem freedOnce_of_perm {c : Call} (hnodup : c.taken.Nodup) (hperm : c.freed.Perm c.taken) : FreedOnce c fun _ => False := by
  refine ⟨fun b hb => hperm.mem_iff.mp hb, fun b _ h => h.elim, fun b hb _ => ?_⟩
  rw [hperm.count_eq]
  exact List.count_eq_one_of_mem hnodup hb

/-! ## The exits -/

/-- The entity before it goes to a queue. -/
def built (entityType : EntityType) (osContext data rc : Nat) : Entity :=
  { Entity.zero with entityType := entityType, osContext := some osContext, data := some data, rc := some rc }

@[simp] theorem setEnt_self (c : Call) (e : Nat) (v : Entity) : (c.setEnt e v).sys.ent e = v := Function.update_self _ _ _

theorem setEnt_of_ne (c : Call) {e b : Nat} (h : b ≠ e) (v : Entity) : (c.setEnt e v).sys.ent b = c.sys.ent b :=
  Function.update_of_ne h _ _

/-- The master, if there is one, in the list of the blocks. -/
def listOf : Option Nat → List Nat
  | none => []
  | some m => [m]

@[simp] theorem freeIf_freed (c : Call) (m : Option Nat) : (c.freeIf m).freed = c.freed ++ listOf m := by
  cases m with
  | none => simp [Call.freeIf, listOf]
  | some m => rfl

@[simp] theorem freeIf_taken (c : Call) (m : Option Nat) : (c.freeIf m).taken = c.taken := by cases m <;> rfl

@[simp] theorem freeIf_sys (c : Call) (m : Option Nat) : (c.freeIf m).sys = c.sys := by cases m <;> rfl

@[simp] theorem free_freed (c : Call) (b : Nat) : (c.free b).freed = c.freed ++ [b] := rfl
@[simp] theorem free_taken (c : Call) (b : Nat) : (c.free b).taken = c.taken := rfl
@[simp] theorem free_sys (c : Call) (b : Nat) : (c.free b).sys = c.sys := rfl
@[simp] theorem setEnt_freed (c : Call) (e : Nat) (v : Entity) : (c.setEnt e v).freed = c.freed := rfl
@[simp] theorem setEnt_taken (c : Call) (e : Nat) (v : Entity) : (c.setEnt e v).taken = c.taken := rfl
@[simp] theorem setEnt_tries (c : Call) (e : Nat) (v : Entity) : (c.setEnt e v).tries = c.tries := rfl

/-- A call that fails has freed all it took, in some order, and nothing on a queue is changed. -/
structure Undone (s : System) (c : Call) : Prop where
  nodup : c.taken.Nodup
  perm : c.freed.Perm c.taken
  same : SameHeld s c.sys

theorem Undone.allOrNothing {c : Call} {adapterNr : UInt32} (h : Undone s c) : AllOrNothing s adapterNr (none, c) :=
  ⟨freedOnce_of_perm h.nodup h.perm, h.same.queue⟩

section Exits

variable {alloc : Allocator s} {c : Call} (masterEntity : Option Nat) (nr : UInt32) (file : Nat)

/-- Without the entity the master is all there is to free. -/
theorem createWith_none (hg : Going s alloc c) (ht : c.taken = listOf masterEntity) (hf : c.freed = [])
    (h0 : alloc.result c.tries = none) :
    ∃ c', c.createWith alloc masterEntity nr file = (none, c') ∧ Undone s c' := by
  refine ⟨_, by rw [Call.createWith, malloc_none h0], ?_, ?_, ?_⟩
  · simpa using hg.nodup
  · simp [ht, hf]
  · simpa using hg.same

/-- Without the context only the entity is freed. -/
theorem createWith_context (hg : Going s alloc c) (ht : c.taken = listOf masterEntity) (hf : c.freed = []) {e : Nat}
    (h0 : alloc.result c.tries = some e) (h1 : alloc.result (c.tries + 1) = none) :
    ∃ c', c.createWith alloc masterEntity nr file = (none, c') ∧ c'.taken = listOf masterEntity ++ [e] ∧ c'.freed = [e] ∧
      c'.taken.Nodup ∧ SameHeld s c'.sys := by
  obtain ⟨he, hg1⟩ := hg.malloc h0
  have hmem : e ∈ c.taken ++ [e] := by simp
  have hg2 := hg1.setEnt hmem Entity.zero
  refine ⟨_, by rw [Call.createWith, he]; simp only []; rw [malloc_none h1], ?_, ?_, ?_, ?_⟩
  · simp [ht]
  · simp [hf]
  · simpa using hg2.nodup
  · simpa using hg2.same

/-- The type of the entity. -/
def kindFor (masterEntity : Option Nat) : EntityType := if masterEntity = none then .management else .logical

/-- With the entity and its context the queues are next. -/
theorem createWith_queues (hg : Going s alloc c) {e osContext : Nat} (h0 : alloc.result c.tries = some e)
    (h1 : alloc.result (c.tries + 1) = some osContext) :
    ∃ c', c.createWith alloc masterEntity nr file = c'.createQueues alloc masterEntity e osContext nr file ∧ Going s alloc c' ∧
      c'.taken = c.taken ++ [e, osContext] ∧ c'.freed = c.freed ∧
      c'.sys.ent e = { Entity.zero with osContext := some osContext, entityType := kindFor masterEntity } ∧
      ∀ b, b ≠ e → c'.sys.ent b = c.sys.ent b := by
  obtain ⟨he, hg1⟩ := hg.malloc h0
  have hmem : e ∈ c.taken ++ [e] := by simp
  have hg2 := hg1.setEnt hmem Entity.zero
  obtain ⟨hctx, hg3⟩ := hg2.malloc h1
  have hg4 := hg3.setEnt (List.mem_append_left _ hmem)
    { Entity.zero with osContext := some osContext, entityType := kindFor masterEntity }
  refine ⟨_, ?_, hg4, ?_, rfl, setEnt_self _ _ _, ?_⟩
  · rw [Call.createWith, he]
    simp only []
    rw [hctx]
    simp only [setEnt_self, kindFor]
  · simp
  · intro b hb
    rw [setEnt_of_ne _ hb]
    exact setEnt_of_ne _ hb _

theorem enter_undone (hg : Going s alloc c) {e osContext data rc : Nat} {entityType : EntityType}
    (ht : c.taken = listOf masterEntity ++ [e, osContext, data, rc]) (hf : c.freed = [])
    (he : c.sys.ent e = built entityType osContext data rc) (hty : entityType ≠ .master) :
    Undone s ((((c.cleanupEntity e true).free osContext).free e).freeIf masterEntity) := by
  have hmem : e ∈ c.taken := by simp [ht]
  have hclean : ∃ v, c.cleanupEntity e true = (((c.setEnt e v).free data).free rc) := by
    refine
      ⟨{ built entityType osContext data rc with status := statusRemoved ||| statusRemovePending, data := none, rc := none }, ?_⟩
    unfold Call.cleanupEntity
    rw [he]
    simp [built, hty, Call.freeIf, Entity.zero]
  obtain ⟨v, hv⟩ := hclean
  rw [hv]
  refine ⟨?_, ?_, ?_⟩
  · simpa using hg.nodup
  · simp only [freeIf_freed, free_freed, setEnt_freed, freeIf_taken, free_taken, setEnt_taken, ht, hf]
    refine List.perm_append_comm.trans (List.Perm.append_left _ ?_)
    rw [List.perm_iff_count]
    intro x
    simp only [List.nil_append, List.cons_append, List.count_cons, List.count_nil]
    omega
  · simpa using (hg.setEnt hmem v).same

/-- Where a queue cannot be allocated all blocks are freed; otherwise the entity is complete and enters the system. -/
theorem createQueues_cases (hg : Going s alloc c) {e osContext : Nat} {entityType : EntityType}
    (ht : c.taken = listOf masterEntity ++ [e, osContext]) (hf : c.freed = [])
    (he : c.sys.ent e = { Entity.zero with osContext := some osContext, entityType := entityType }) :
    (∃ c', c.createQueues alloc masterEntity e osContext nr file = (none, c') ∧ Undone s c') ∨
      ∃ c' data rc, c.createQueues alloc masterEntity e osContext nr file = c'.enter masterEntity e osContext nr file ∧
        Going s alloc c' ∧ c'.taken = listOf masterEntity ++ [e, osContext, data, rc] ∧ c'.freed = [] ∧
        c'.sys.ent e = built entityType osContext data rc ∧ ∀ b, b ≠ e → c'.sys.ent b = c.sys.ent b := by
  have hmem : e ∈ c.taken := by simp [ht]
  cases h2 : alloc.result c.tries with
  | none =>
    left
    refine ⟨_, by rw [Call.createQueues, malloc_none h2], ?_, ?_, ?_⟩
    · simpa using hg.nodup
    · simp only [freeIf_freed, free_freed, freeIf_taken, free_taken, ht, hf]
      refine List.perm_append_comm.trans (List.Perm.append_left _ ?_)
      exact List.Perm.swap e osContext []
    · simpa using hg.same
  | some data =>
    obtain ⟨hm, hg1⟩ := hg.malloc h2
    have hg2 := hg1.setEnt (List.mem_append_left _ hmem) { c.sys.ent e with data := some data }
    cases h3 : alloc.result (c.tries + 1) with
    | none =>
      left
      refine ⟨_, by rw [Call.createQueues, hm]; simp only []; rw [malloc_none h3], ?_, ?_, ?_⟩
      · simpa using hg2.nodup
      · simp only [freeIf_freed, free_freed, setEnt_freed, freeIf_taken, free_taken, setEnt_taken, ht, hf]
        rw [List.perm_iff_count]
        intro x
        simp only [List.append_assoc, List.nil_append, List.cons_append, List.count_append, List.count_cons, List.count_nil]
        omega
      · simpa using hg2.same
    | some rc =>
      right
      obtain ⟨hm', hg3⟩ := hg2.malloc h3
      have hg4 := hg3.setEnt (List.mem_append_left _ (List.mem_append_left _ hmem))
        { c.sys.ent e with data := some data, rc := some rc }
      refine ⟨_, data, rc, ?_, hg4, ?_, ?_, ?_, ?_⟩
      · rw [Call.createQueues, hm]
        simp only []
        rw [hm']
        simp
      · simp [ht]
      · simpa using hf
      · rw [setEnt_self, he]
        rfl
      · intro b hb
        rw [setEnt_of_ne _ hb]
        exact setEnt_of_ne c hb _

end Exits

/-! ## The place of the entity -/

@[simp] theorem setEnt_queueAdapters (t : System) (b : Nat) (v : Entity) : (t.setEnt b v).adapterQ = t.adapterQ := rfl
@[simp] theorem setEnt_adp (t : System) (b : Nat) (v : Entity) : (t.setEnt b v).adp = t.adp := rfl
@[simp] theorem setAdp_queueAdapters (t : System) (a : Nat) (v : Adapter) : (t.setAdp a v).adapterQ = t.adapterQ := rfl
@[simp] theorem setAdp_ent (t : System) (a : Nat) (v : Adapter) : (t.setAdp a v).ent = t.ent := rfl
@[simp] theorem setAdp_adp_self (t : System) (a : Nat) (v : Adapter) : (t.setAdp a v).adp a = v := Function.update_self _ _ _
@[simp] theorem sys_setEnt_self (t : System) (b : Nat) (v : Entity) : (t.setEnt b v).ent b = v := Function.update_self _ _ _

theorem setAdp_adp_of_ne (t : System) {a a' : Nat} (h : a' ≠ a) (v : Adapter) : (t.setAdp a v).adp a' = t.adp a' :=
  Function.update_of_ne h _ _

theorem sys_setEnt_of_ne (t : System) {b b' : Nat} (h : b' ≠ b) (v : Entity) : (t.setEnt b v).ent b' = t.ent b' :=
  Function.update_of_ne h _ _

/-- An entity that is on one queue more than before. -/
theorem OnlyOn.of_added {e : Nat} {q : QueueName} (hfresh : ∀ q', e ∉ s.queue q') (hq : s'.queue q = s.queue q ++ [e])
    (ho : ∀ q', q' ≠ q → e ∈ s'.queue q' → e ∈ s.queue q') : OnlyOn s' e q := by
  constructor
  · rw [hq, List.count_append, List.count_eq_zero_of_not_mem (hfresh q)]
    simp
  · intro q' hne hmem
    exact hfresh q' (ho q' hne hmem)

/-- What is on a queue is on the queue of an adapter, or of a linked master. -/
theorem mem_queue_cases {x : Nat} {q : QueueName} (hx : x ∈ s.queue q) :
    (∃ a, q = .entity a ∧ a ∈ s.adapterQ ∧ x ∈ (s.adp a).entityQ) ∨
      (∃ m, q = .active m ∧ s.Linked m ∧ x ∈ (s.ent m).activeMultiplexQ) ∨
        ∃ m, q = .idle m ∧ s.Linked m ∧ x ∈ (s.ent m).idleMultiplexQ := by
  cases q with
  | entity a =>
    by_cases ha : a ∈ s.adapterQ
    · exact Or.inl ⟨a, rfl, ha, by simpa [System.queue, ha] using hx⟩
    · simp [System.queue, ha] at hx
  | active m =>
    by_cases hm : s.Linked m
    · exact Or.inr (Or.inl ⟨m, rfl, hm, by simpa [System.queue, hm] using hx⟩)
    · simp [System.queue, hm] at hx
  | idle m =>
    by_cases hm : s.Linked m
    · exact Or.inr (Or.inr ⟨m, rfl, hm, by simpa [System.queue, hm] using hx⟩)
    · simp [System.queue, hm] at hx

theorem mem_active {m x : Nat} (hm : s.Linked m) (hx : x ∈ (s.ent m).activeMultiplexQ) : x ∈ s.queue (.active m) := by
  simpa [System.queue, hm] using hx

theorem mem_idle {m x : Nat} (hm : s.Linked m) (hx : x ∈ (s.ent m).idleMultiplexQ) : x ∈ s.queue (.idle m) := by
  simpa [System.queue, hm] using hx

section Link

variable {c : Call} {a e : Nat}

/-- Without a master the entity is on the queue of the adapter. -/
theorem link_management (hsame : SameHeld s c.sys) (ha : a ∈ s.adapterQ) (hfresh : ∀ q, e ∉ s.queue q)
    (hty : (c.sys.ent e).entityType = .management) : OnlyOn (c.link a none e).1.sys e (.entity a) := by
  have hsys : (c.link a none e).1.sys = (c.sys.setEnt e { c.sys.ent e with adapter := some a }).setAdp a
      { c.sys.adp a with entityQ := (c.sys.adp a).entityQ ++ [e] } := rfl
  rw [hsys]
  have hself : (c.sys.setEnt e { c.sys.ent e with adapter := some a }).adp a = c.sys.adp a := rfl
  refine OnlyOn.of_added hfresh ?_ ?_
  · simp [System.queue, hsame.adapterQ, hsame.adp, ha]
  · intro q' hne hmem
    -- a linked master is another entity, and was linked before
    have hold : ∀ m, ((c.sys.setEnt e { c.sys.ent e with adapter := some a }).setAdp a
        { c.sys.adp a with entityQ := (c.sys.adp a).entityQ ++ [e] }).Linked m → m ≠ e ∧ s.Linked m := by
      rintro m ⟨hm, a', ha', hma⟩
      have hme : m ≠ e := by
        rintro rfl
        rw [setAdp_ent, sys_setEnt_self] at hm
        rw [hty] at hm
        cases hm
      rw [setAdp_ent, sys_setEnt_of_ne _ hme] at hm
      have hma' : m ∈ (s.adp a').entityQ := by
        by_cases haa : a' = a
        · subst haa
          rw [setAdp_adp_self, hsame.adp] at hma
          exact (List.mem_append.mp hma).resolve_right fun h => hme (List.mem_singleton.mp h)
        · rwa [setAdp_adp_of_ne _ haa, setEnt_adp, hsame.adp] at hma
      have ha'' : a' ∈ s.adapterQ := by rwa [setAdp_queueAdapters, setEnt_queueAdapters, hsame.adapterQ] at ha'
      rw [hsame.ent m _ (mem_entityQ ha'' hma')] at hm
      exact ⟨hme, hm, a', ha'', hma'⟩
    rcases mem_queue_cases hmem with ⟨a', rfl, ha', hx⟩ | ⟨m, rfl, hm, hx⟩ | ⟨m, rfl, hm, hx⟩
    · have haa : a' ≠ a := fun h => hne (by rw [h])
      rw [setAdp_adp_of_ne _ haa, setEnt_adp, hsame.adp] at hx
      exact mem_entityQ (by rwa [setAdp_queueAdapters, setEnt_queueAdapters, hsame.adapterQ] at ha') hx
    · obtain ⟨hme, hl⟩ := hold m hm
      rw [setAdp_ent, sys_setEnt_of_ne _ hme, hsame.ent_linked hl] at hx
      exact mem_active hl hx
    · obtain ⟨hme, hl⟩ := hold m hm
      rw [setAdp_ent, sys_setEnt_of_ne _ hme, hsame.ent_linked hl] at hx
      exact mem_idle hl hx

/-- The test of the loop over the queue of the adapter. -/
def usable (t : System) (new m : Nat) : Bool :=
  (t.ent m).entityType = .master ∧ (t.ent m).type = (t.ent new).type ∧ (t.ent m).state.code < MasterState.removePending.code

/-- The system with the entity on the idle queue of the master `m`. -/
def onIdle (t : System) (a m e : Nat) : System :=
  let t := t.setEnt m { t.ent m with adapter := some a }
  let t := t.setEnt e { t.ent e with xdiEntity := some m }
  t.setEnt m { t.ent m with idleMultiplexQ := (t.ent m).idleMultiplexQ ++ [e] }

theorem onIdle_master (t : System) {a m e : Nat} (hme : m ≠ e) :
    (onIdle t a m e).ent m = { t.ent m with adapter := some a, idleMultiplexQ := (t.ent m).idleMultiplexQ ++ [e] } := by
  simp [onIdle, System.setEnt, hme]

theorem onIdle_entity (t : System) {a m e : Nat} (hme : m ≠ e) :
    (onIdle t a m e).ent e = { t.ent e with xdiEntity := some m } := by
  simp [onIdle, System.setEnt, hme.symm]

theorem onIdle_of_ne (t : System) {a m e x : Nat} (hxm : x ≠ m) (hxe : x ≠ e) : (onIdle t a m e).ent x = t.ent x := by
  simp [onIdle, System.setEnt, hxm, hxe]

@[simp] theorem onIdle_adapterQ (t : System) (a m e : Nat) : (onIdle t a m e).adapterQ = t.adapterQ := rfl
@[simp] theorem onIdle_adp (t : System) (a m e : Nat) : (onIdle t a m e).adp = t.adp := rfl

theorem link_found {new m : Nat} (h : (c.sys.adp a).entityQ.find? (usable c.sys new) = some m) :
    c.link a (some new) e = ({ c with sys := onIdle c.sys a m e }, some new) := by
  have h' : (c.sys.adp a).entityQ.find? (fun m => decide ((c.sys.ent m).entityType = .master ∧
    (c.sys.ent m).type = (c.sys.ent new).type ∧ (c.sys.ent m).state.code < MasterState.removePending.code)) = some m := h
  simp only [Call.link, h']
  rfl

theorem link_new {new : Nat} (h : (c.sys.adp a).entityQ.find? (usable c.sys new) = none) :
    c.link a (some new) e =
      ({ c with
          sys :=
            (onIdle c.sys a new e).setAdp a
              { (onIdle c.sys a new e).adp a with entityQ := ((onIdle c.sys a new e).adp a).entityQ ++ [new] } }, none) := by
  have h' : (c.sys.adp a).entityQ.find? (fun m => decide ((c.sys.ent m).entityType = .master ∧
    (c.sys.ent m).type = (c.sys.ent new).type ∧ (c.sys.ent m).state.code < MasterState.removePending.code)) = none := h
  simp only [Call.link, h']
  rfl

/-- On the idle queue of a master that the adapter has. -/
theorem onIdle_linked {t : System} {m : Nat} (hsame : SameHeld s t) (hl : s.Linked m) (hfresh : ∀ q, e ∉ s.queue q) :
    OnlyOn (onIdle t a m e) e (.idle m) := by
  have hne : ∀ x, s.Linked x → x ≠ e := by
    rintro x ⟨-, a', ha', hx⟩ rfl
    exact hfresh _ (mem_entityQ ha' hx)
  have hme := hne m hl
  have hnotl : ∀ a', a' ∈ s.adapterQ → e ∉ (s.adp a').entityQ := fun a' ha' h => hfresh _ (mem_entityQ ha' h)
  -- no entity becomes a master, and no master another entity
  have hold : ∀ x, (onIdle t a m e).Linked x ↔ s.Linked x := by
    intro x
    unfold System.Linked
    rw [onIdle_adapterQ, onIdle_adp, hsame.adapterQ, hsame.adp]
    refine and_congr_left ?_
    rintro ⟨a', ha', hx⟩
    have hxe : x ≠ e := by
      rintro rfl
      exact hnotl a' ha' hx
    have hent := hsame.ent x _ (mem_entityQ ha' hx)
    by_cases hxm : x = m
    · subst hxm
      rw [onIdle_master t hxe, ← hent]
    · rw [onIdle_of_ne t hxm hxe, hent]
  refine OnlyOn.of_added hfresh ?_ ?_
  · simp only [System.queue, (hold m).mpr hl, hl, if_true, onIdle_master t hme, hsame.ent_linked hl]
  · intro q' hqne hmem
    rcases mem_queue_cases hmem with ⟨a', rfl, ha', hx⟩ | ⟨x, rfl, hx, hin⟩ | ⟨x, rfl, hx, hin⟩
    · rw [onIdle_adapterQ, hsame.adapterQ] at ha'
      rw [onIdle_adp, hsame.adp] at hx
      exact mem_entityQ ha' hx
    · have hlx := (hold x).mp hx
      refine mem_active hlx ?_
      by_cases hxm : x = m
      · subst hxm
        rwa [onIdle_master t hme, hsame.ent_linked hlx] at hin
      · rwa [onIdle_of_ne t hxm (hne x hlx), hsame.ent_linked hlx] at hin
    · have hlx := (hold x).mp hx
      have hxm : x ≠ m := fun h => hqne (by rw [h])
      rw [onIdle_of_ne t hxm (hne x hlx), hsame.ent_linked hlx] at hin
      exact mem_idle hlx hin

/-- On the idle queue of a new master that goes to the queue of the adapter. -/
theorem onIdle_new {t : System} {m : Nat} {v : Adapter} (hsame : SameHeld s t) (ha : a ∈ s.adapterQ)
    (hm : (t.ent m).entityType = .master) (hidle : (t.ent m).idleMultiplexQ = []) (hact : (t.ent m).activeMultiplexQ = [])
    (hv : v.entityQ = (s.adp a).entityQ ++ [m]) (hme : m ≠ e) (hfreshm : ∀ q, m ∉ s.queue q) (hfresh : ∀ q, e ∉ s.queue q) :
    OnlyOn ((onIdle t a m e).setAdp a v) e (.idle m) := by
  have hnotl : ¬ s.Linked m := by
    rintro ⟨-, a', ha', hx⟩
    exact hfreshm _ (mem_entityQ ha' hx)
  have hmem : ∀ a' x, a' ∈ s.adapterQ → x ∈ (((onIdle t a m e).setAdp a v).adp a').entityQ → x = m ∨ x ∈ (s.adp a').entityQ := by
    intro a' x ha' hx
    by_cases haa : a' = a
    · subst haa
      rw [setAdp_adp_self, hv] at hx
      rcases List.mem_append.mp hx with hx | hx
      · exact Or.inr hx
      · exact Or.inl (List.mem_singleton.mp hx)
    · rw [setAdp_adp_of_ne _ haa, onIdle_adp, hsame.adp] at hx
      exact Or.inr hx
  have hlm : ((onIdle t a m e).setAdp a v).Linked m := by
    refine ⟨?_, a, ?_, ?_⟩
    · rw [setAdp_ent, onIdle_master t hme]
      exact hm
    · rwa [setAdp_queueAdapters, onIdle_adapterQ, hsame.adapterQ]
    · rw [setAdp_adp_self, hv]
      simp
  have hold : ∀ x, ((onIdle t a m e).setAdp a v).Linked x → x = m ∨ (x ≠ m ∧ x ≠ e ∧ s.Linked x) := by
    rintro x ⟨hx, a', ha', hxa⟩
    rw [setAdp_queueAdapters, onIdle_adapterQ, hsame.adapterQ] at ha'
    by_cases hxm : x = m
    · exact Or.inl hxm
    · have hxa' := (hmem a' x ha' hxa).resolve_left hxm
      have hxe : x ≠ e := by
        rintro rfl
        exact hfresh _ (mem_entityQ ha' hxa')
      rw [setAdp_ent, onIdle_of_ne t hxm hxe, hsame.ent x _ (mem_entityQ ha' hxa')] at hx
      exact Or.inr ⟨hxm, hxe, hx, a', ha', hxa'⟩
  refine OnlyOn.of_added hfresh ?_ ?_
  · simp only [System.queue, hlm, hnotl, if_true, if_false, setAdp_ent, onIdle_master t hme, hidle]
  · intro q' hqne hin
    rcases mem_queue_cases hin with ⟨a', rfl, ha', hx⟩ | ⟨x, rfl, hx, hin⟩ | ⟨x, rfl, hx, hin⟩
    · rw [setAdp_queueAdapters, onIdle_adapterQ, hsame.adapterQ] at ha'
      exact mem_entityQ ha' ((hmem a' e ha' hx).resolve_left hme.symm)
    · rcases hold x hx with rfl | ⟨hxm, hxe, hlx⟩
      · rw [setAdp_ent, onIdle_master t hme] at hin
        rw [hact] at hin
        cases hin
      · rw [setAdp_ent, onIdle_of_ne t hxm hxe, hsame.ent_linked hlx] at hin
        exact mem_active hlx hin
    · rcases hold x hx with rfl | ⟨hxm, hxe, hlx⟩
      · exact absurd rfl hqne
      · rw [setAdp_ent, onIdle_of_ne t hxm hxe, hsame.ent_linked hlx] at hin
        exact mem_idle hlx hin

end Link

/-! ## All or nothing -/

theorem findAdapter_mem {t : System} {nr : UInt32} {a : Nat} (h : t.findAdapter nr = some a) :
    a ∈ t.adapterQ ∧ (t.adp a).adapterNr = nr := by
  refine ⟨List.mem_of_find?_eq_some h, ?_⟩
  have := List.find?_some h
  exact (of_decide_eq_true this).symm

section Enter

variable {alloc : Allocator s} {c : Call} {adapterNr : UInt32} {file e osContext data rc : Nat}

/-- The blocks that the entity has are used. -/
theorem used_own {t : System} (hc : (t.ent e).osContext = some osContext) (hd : (t.ent e).data = some data)
    (hr : (t.ent e).rc = some rc) {b : Nat} (hb : b ∈ [e, osContext, data, rc]) : Used t e b := by
  simp only [List.mem_cons, List.not_mem_nil, or_false] at hb
  rcases hb with rfl | rfl | rfl | rfl
  · exact Or.inl rfl
  · exact Or.inr (Or.inl hc)
  · exact Or.inr (Or.inr (Or.inl hd))
  · exact Or.inr (Or.inr (Or.inr (Or.inl hr)))

theorem enter_management {a : Nat} (hg : Going s alloc c) (hm : createMaster adapterNr = false)
    (ht : c.taken = [e, osContext, data, rc]) (hf : c.freed = [])
    (he : c.sys.ent e = { built .management osContext data rc with osRef := file })
    (ha : a ∈ s.adapterQ) (hnr : (s.adp a).adapterNr = plainNr adapterNr) :
    AllOrNothing s adapterNr (some e, (c.link a none e).1.freeIf (c.link a none e).2) := by
  have hmem : e ∈ c.taken := by simp [ht]
  have hplace := link_management hg.same ha (hg.fresh hmem) (by rw [he]; rfl)
  have hent : (c.link a none e).1.sys.ent e = { built .management osContext data rc with osRef := file, adapter := some a } := by
    simp [Call.link, he]
  have hfreed : (c.link a none e).1.freed = [] := hf
  have htaken : (c.link a none e).1.taken = [e, osContext, data, rc] := ht
  have hkind : (c.link a none e).2 = none := rfl
  rw [hkind]
  refine ⟨⟨?_, ?_, ?_⟩, a, ?_, ?_, ?_⟩
  · intro b hb
    simp [hfreed, listOf] at hb
  · intro b _ _ hb
    simp [hfreed, listOf] at hb
  · intro b hb hused
    rw [freeIf_taken, htaken] at hb
    rw [freeIf_sys] at hused
    exact absurd (used_own (by rw [hent]; rfl) (by rw [hent]; rfl) (by rw [hent]; rfl) hb) hused
  · have hq : (c.link a none e).1.sys.adapterQ = c.sys.adapterQ := rfl
    rwa [freeIf_sys, hq, hg.same.adapterQ]
  · have hadp : ((c.link a none e).1.sys.adp a).adapterNr = (c.sys.adp a).adapterNr := by simp [Call.link]
    rw [freeIf_sys, hadp, hg.same.adp, hnr]
  · rw [hm, freeIf_sys]
    exact hplace

theorem enter_found {a new m : Nat} (hg : Going s alloc c) (hm : createMaster adapterNr = true)
    (ht : c.taken = [new, e, osContext, data, rc]) (hf : c.freed = [])
    (he : c.sys.ent e = { built .logical osContext data rc with osRef := file })
    (hnew : c.sys.ent new = { Entity.zero with entityType := .master, type := masterType adapterNr })
    (ha : a ∈ s.adapterQ) (hnr : (s.adp a).adapterNr = plainNr adapterNr)
    (hfind : (c.sys.adp a).entityQ.find? (usable c.sys new) = some m) :
    AllOrNothing s adapterNr (some e, (c.link a (some new) e).1.freeIf (c.link a (some new) e).2) := by
  have hmemE : e ∈ c.taken := by simp [ht]
  have hmemN : new ∈ c.taken := by simp [ht]
  have hq : m ∈ (s.adp a).entityQ := by
    rw [← hg.same.adp]
    exact List.mem_of_find?_eq_some hfind
  have husable := List.find?_some hfind
  simp only [usable, decide_eq_true_eq] at husable
  obtain ⟨hmaster, htype, hstate⟩ := husable
  have hl : s.Linked m := by
    rw [hg.same.ent m _ (mem_entityQ ha hq)] at hmaster
    exact ⟨hmaster, a, ha, hq⟩
  have hme : m ≠ e := by
    rintro rfl
    exact hg.fresh hmemE _ (mem_entityQ ha hq)
  have hmn : m ≠ new := by
    rintro rfl
    exact hg.fresh hmemN _ (mem_entityQ ha hq)
  have hnodup := hg.nodup
  rw [ht] at hnodup
  obtain ⟨hnot, -⟩ := List.nodup_cons.mp hnodup
  rw [link_found hfind]
  have hent : (onIdle c.sys a m e).ent e = { built .logical osContext data rc with osRef := file, xdiEntity := some m } := by
    rw [onIdle_entity c.sys hme, he]
  have hentm := onIdle_master (a := a) c.sys hme
  have hunused : ¬ Used (onIdle c.sys a m e) e new := by
    unfold Used
    rw [hent]
    rintro (h | h | h | h | h)
    · exact hnot (by simp [h])
    · exact hnot (by simp [Option.some.inj h])
    · exact hnot (by simp [Option.some.inj h])
    · exact hnot (by simp [Option.some.inj h])
    · exact hmn (Option.some.inj h)
  refine ⟨⟨?_, ?_, ?_⟩, a, ?_, ?_, ?_⟩
  · intro b hb
    simp only [freeIf_freed, hf, listOf, List.nil_append, List.mem_singleton] at hb
    rw [freeIf_taken, hb]
    exact hmemN
  · intro b _ hused hb
    simp only [freeIf_freed, hf, listOf, List.nil_append, List.mem_singleton] at hb
    rw [freeIf_sys, hb] at hused
    exact hunused hused
  · intro b hb hused
    rw [freeIf_taken] at hb
    rw [freeIf_sys] at hused
    change b ∈ c.taken at hb
    rw [ht] at hb
    rcases List.mem_cons.mp hb with rfl | hb
    · simp [hf, listOf]
    · exact absurd (used_own (by rw [hent]; rfl) (by rw [hent]; rfl) (by rw [hent]; rfl) hb) hused
  · rwa [freeIf_sys, onIdle_adapterQ, hg.same.adapterQ]
  · rw [freeIf_sys, onIdle_adp, hg.same.adp, hnr]
  · rw [if_pos hm, freeIf_sys]
    refine ⟨m, onIdle_linked hg.same hl (hg.fresh hmemE), ?_, ?_, ?_, ?_, ?_⟩
    · rwa [onIdle_adp, hg.same.adp]
    · rw [hentm]
      exact hmaster
    · rw [hentm]
      exact htype.trans (by rw [hnew])
    · rw [hentm]
      exact hstate
    · rw [hent]

theorem enter_new {a new : Nat} (hg : Going s alloc c) (hm : createMaster adapterNr = true)
    (ht : c.taken = [new, e, osContext, data, rc]) (hf : c.freed = [])
    (he : c.sys.ent e = { built .logical osContext data rc with osRef := file })
    (hnew : c.sys.ent new = { Entity.zero with entityType := .master, type := masterType adapterNr })
    (ha : a ∈ s.adapterQ) (hnr : (s.adp a).adapterNr = plainNr adapterNr)
    (hfind : (c.sys.adp a).entityQ.find? (usable c.sys new) = none) :
    AllOrNothing s adapterNr (some e, (c.link a (some new) e).1.freeIf (c.link a (some new) e).2) := by
  have hmemE : e ∈ c.taken := by simp [ht]
  have hmemN : new ∈ c.taken := by simp [ht]
  have hnodup := hg.nodup
  rw [ht] at hnodup
  obtain ⟨hnot, -⟩ := List.nodup_cons.mp hnodup
  have hne : new ≠ e := by
    rintro rfl
    exact hnot (by simp)
  rw [link_new hfind]
  have hent : (onIdle c.sys a new e).ent e = { built .logical osContext data rc with osRef := file, xdiEntity := some new } := by
    rw [onIdle_entity c.sys hne, he]
  have hentm := onIdle_master (a := a) c.sys hne
  refine ⟨⟨?_, ?_, ?_⟩, a, ?_, ?_, ?_⟩
  · intro b hb
    simp [hf, listOf] at hb
  · intro b _ _ hb
    simp [hf, listOf] at hb
  · intro b hb hused
    rw [freeIf_taken] at hb
    rw [freeIf_sys] at hused
    change b ∈ c.taken at hb
    rw [ht] at hb
    rcases List.mem_cons.mp hb with rfl | hb
    · exact absurd (Or.inr (Or.inr (Or.inr (Or.inr (by rw [setAdp_ent, hent]))))) hused
    · refine absurd (used_own ?_ ?_ ?_ hb) hused
      · rw [setAdp_ent, hent]; rfl
      · rw [setAdp_ent, hent]; rfl
      · rw [setAdp_ent, hent]; rfl
  · rwa [freeIf_sys, setAdp_queueAdapters, onIdle_adapterQ, hg.same.adapterQ]
  · rw [freeIf_sys, setAdp_adp_self, onIdle_adp, hg.same.adp, hnr]
  · rw [if_pos hm, freeIf_sys]
    have hplace : OnlyOn ((onIdle c.sys a new e).setAdp a
        { (onIdle c.sys a new e).adp a with entityQ := ((onIdle c.sys a new e).adp a).entityQ ++ [new] }) e (.idle new) := by
      refine onIdle_new hg.same ha ?_ ?_ ?_ ?_ hne (hg.fresh hmemN) (hg.fresh hmemE)
      · rw [hnew]
      · rw [hnew]; rfl
      · rw [hnew]; rfl
      · rw [onIdle_adp, hg.same.adp]
    refine ⟨new, hplace, ?_, ?_, ?_, ?_, ?_⟩
    · rw [setAdp_adp_self]
      simp
    · rw [setAdp_ent, hentm, hnew]
    · rw [setAdp_ent, hentm, hnew]
    · rw [setAdp_ent, hentm, hnew]
      change MasterState.idle.code < MasterState.removePending.code
      decide
    · rw [setAdp_ent, hent]

/-- Under the lock the call is undone, or the entity gets its place. -/
theorem enter_allOrNothing {masterEntity : Option Nat} {entityType : EntityType} (hg : Going s alloc c)
    (hasked : createMaster adapterNr = masterEntity.isSome) (hty : entityType = kindFor masterEntity)
    (hmade : ∀ m, masterEntity = some m →
      c.sys.ent m = { Entity.zero with entityType := .master, type := masterType adapterNr })
    (ht : c.taken = listOf masterEntity ++ [e, osContext, data, rc]) (hf : c.freed = [])
    (he : c.sys.ent e = built entityType osContext data rc) :
    AllOrNothing s adapterNr (c.enter masterEntity e osContext (plainNr adapterNr) file) := by
  have hmem : e ∈ c.taken := by simp [ht]
  have hnmaster : entityType ≠ .master := by
    rw [hty, kindFor]
    split
    · simp
    · simp
  have hundone : AllOrNothing s adapterNr (none, _) := (enter_undone masterEntity hg ht hf he hnmaster).allOrNothing
  unfold Call.enter
  cases hfind : c.sys.findAdapter (plainNr adapterNr) with
  | none => exact hundone
  | some a =>
    obtain ⟨ha, hnr⟩ := findAdapter_mem hfind
    rw [hg.same.adapterQ] at ha
    rw [hg.same.adp] at hnr
    simp only []
    split
    · exact hundone
    · have hg' := hg.setEnt hmem { c.sys.ent e with osRef := file }
      have he' : (c.setEnt e { c.sys.ent e with osRef := file }).sys.ent e
          = { built entityType osContext data rc with osRef := file } := by
        rw [setEnt_self, he]
      cases masterEntity with
      | none =>
        rw [kindFor, if_pos rfl] at hty
        subst hty
        exact enter_management hg' hasked ht hf he' ha hnr
      | some new =>
        rw [kindFor, if_neg (by simp)] at hty
        subst hty
        have hnodup := hg.nodup
        rw [ht] at hnodup
        have hne : new ≠ e := by
          rintro rfl
          exact (List.nodup_cons.mp hnodup).1 (by simp)
        have hnew := hmade new rfl
        rw [← setEnt_of_ne c hne { c.sys.ent e with osRef := file }] at hnew
        cases hm : ((c.setEnt e { c.sys.ent e with osRef := file }).sys.adp a).entityQ.find?
            (usable (c.setEnt e { c.sys.ent e with osRef := file }).sys new) with
        | none => exact enter_new hg' hasked ht hf he' hnew ha hnr hm
        | some m => exact enter_found hg' hasked ht hf he' hnew ha hnr hm

end Enter

section Create

variable {alloc : Allocator s} {adapterNr : UInt32} {file : Nat}

/-- A master is allocated, the entity too, and there is no memory for its context. -/
def LeaksMaster (alloc : Allocator s) (adapterNr : UInt32) : Prop :=
  createMaster adapterNr = true ∧ alloc.result 0 ≠ none ∧ alloc.result 1 ≠ none ∧ alloc.result 2 = none

/-- Behind the allocation of the master only the exit without a context can fail, and only with a master. -/
theorem createWith_allOrNothing {c : Call} (masterEntity : Option Nat) (hg : Going s alloc c)
    (hasked : createMaster adapterNr = masterEntity.isSome)
    (hmade : ∀ m, masterEntity = some m →
      c.sys.ent m = { Entity.zero with entityType := .master, type := masterType adapterNr })
    (ht : c.taken = listOf masterEntity) (hf : c.freed = []) :
    AllOrNothing s adapterNr (c.createWith alloc masterEntity (plainNr adapterNr) file) ↔
      ¬ (masterEntity.isSome ∧ alloc.result c.tries ≠ none ∧ alloc.result (c.tries + 1) = none) := by
  cases h0 : alloc.result c.tries with
  | none =>
    obtain ⟨c', hc', hu⟩ := createWith_none masterEntity (plainNr adapterNr) file hg ht hf h0
    rw [hc']
    simp [hu.allOrNothing]
  | some e =>
    cases h1 : alloc.result (c.tries + 1) with
    | none =>
      obtain ⟨c', hc', ht', hf', hnodup, hsame⟩ := createWith_context masterEntity (plainNr adapterNr) file hg ht hf h0 h1
      rw [hc']
      cases masterEntity with
      | none =>
        have hu : Undone s c' := ⟨hnodup, by rw [ht', hf']; exact List.Perm.refl _, hsame⟩
        simp [hu.allOrNothing]
      | some m =>
        constructor
        · rintro ⟨hfreed, -⟩
          have hne : m ≠ e := by
            rintro rfl
            rw [ht'] at hnodup
            simp [listOf] at hnodup
          have honce := hfreed.once m (by simp [ht', listOf]) (fun h => h)
          rw [hf', List.count_singleton] at honce
          simp [hne.symm] at honce
        · intro h
          exact absurd ⟨rfl, by simp, rfl⟩ h
    | some osContext =>
      refine iff_of_true ?_ (by simp)
      obtain ⟨c', hc', hg', ht', hf', he', hother⟩ :=
        createWith_queues masterEntity (plainNr adapterNr) file hg h0 h1
      rw [hc']
      rw [ht] at ht'
      rw [hf] at hf'
      rcases createQueues_cases masterEntity (plainNr adapterNr) file hg' ht' hf' he' with
        ⟨c'', hc'', hu⟩ | ⟨c'', data, rc, hc'', hg'', ht'', hf'', he'', hother'⟩
      · rw [hc'']
        exact hu.allOrNothing
      · rw [hc'']
        refine enter_allOrNothing hg'' hasked rfl ?_ ht'' hf'' he''
        intro m hm
        have hne : m ≠ e := by
          rintro rfl
          have hnodup := hg'.nodup
          rw [ht', hm] at hnodup
          exact (List.nodup_cons.mp hnodup).1 (by simp)
        rw [hother' m hne, hother m hne]
        exact hmade m hm

/-- `divas_um_idi_create_entity` is all or nothing if and only if it does not fail on the context of an entity for which
it has allocated a master. -/
theorem create_all_or_nothing (s : System) (alloc : Allocator s) (adapterNr : UInt32) (file : Nat) :
    AllOrNothing s adapterNr (createEntity s alloc adapterNr file) ↔ ¬ LeaksMaster alloc adapterNr := by
  have hstart : Going s alloc ⟨s, 0, [], []⟩ := ⟨List.nodup_nil, by simp, SameHeld.refl s⟩
  unfold createEntity LeaksMaster
  by_cases hm : createMaster adapterNr = true
  · simp only [hm, if_true]
    cases h0 : alloc.result 0 with
    | none =>
      rw [malloc_none (c := ⟨s, 0, [], []⟩) h0]
      refine iff_of_true ?_ (by simp)
      exact Undone.allOrNothing ⟨List.nodup_nil, List.Perm.refl _, SameHeld.refl s⟩
    | some m =>
      obtain ⟨hmalloc, hg⟩ := hstart.malloc h0
      rw [hmalloc]
      have hg' := hg.setEnt (b := m) (by simp) { Entity.zero with entityType := .master, type := masterType adapterNr }
      refine (createWith_allOrNothing (some m) hg' hm ?_ rfl rfl).trans ?_
      · intro m' hm'
        obtain rfl := Option.some.inj hm'
        exact setEnt_self _ _ _
      · simp
  · simp only [hm]
    refine (createWith_allOrNothing none hstart (by simpa using hm) (by simp) rfl rfl).trans ?_
    simp

end Create

/-- One adapter, without entities. -/
def oneAdapter : System where
  adapterQ := [1]
  adp := fun _ => ⟨3, 0, []⟩
  ent := fun _ => Entity.zero

theorem oneAdapter_queue (q : QueueName) (b : Nat) : b ∉ oneAdapter.queue q := by
  intro hb
  rcases mem_queue_cases hb with ⟨a, rfl, ha, hx⟩ | ⟨m, rfl, ⟨hm, -⟩, -⟩ | ⟨m, rfl, ⟨hm, -⟩, -⟩
  · cases hx
  · cases hm
  · cases hm

/-- Memory for a master and for an entity, and for nothing more. -/
def twoBlocks : Allocator oneAdapter where
  result := fun k => if k < 2 then some (k + 10) else none
  fresh := fun _ b _ q => oneAdapter_queue q b
  unlike := by
    intro k k' b hk hk'
    by_cases h : k < 2
    · by_cases h' : k' < 2
      · simp only [h, h', if_true, Option.some.injEq] at hk hk'
        omega
      · simp [h'] at hk'
    · simp [h] at hk

/-- The master of a logical entity without a context is never freed. -/
theorem master_leaked : ¬ ∀ (s : System) (alloc : Allocator s) (adapterNr : UInt32) (file : Nat),
    AllOrNothing s adapterNr (createEntity s alloc adapterNr file) := by
  intro h
  have hall := h oneAdapter twoBlocks 0x8003 0
  have hres : createEntity oneAdapter twoBlocks 0x8003 0 = (none, (createEntity oneAdapter twoBlocks 0x8003 0).2) := rfl
  have htaken : (createEntity oneAdapter twoBlocks 0x8003 0).2.taken = [10, 11] := rfl
  have hfreed : (createEntity oneAdapter twoBlocks 0x8003 0).2.freed = [11] := rfl
  rw [hres] at hall
  have honce := hall.1.once 10 (by rw [htaken]; simp) (fun h => h)
  rw [hfreed] at honce
  exact absurd honce (by decide)

end Divas.Um.Multiplex
