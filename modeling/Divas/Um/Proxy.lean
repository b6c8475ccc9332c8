/-
  Divas.Um.Proxy — the proxy of an adapter that a user mode process implements (um_idi.c).

  A client of the proxy's request function only gets its entity into `pending_requests_q`.
  The process fetches the requests: `diva_um_idi_proxy_read` takes all pending ones, makes a
  proxy entity for each ASSIGN or looks the entity up by its Id, copies the data, puts the
  proxy entity into `req_q`, and hands out the first of that queue. The process answers with
  return codes and indications through `diva_um_idi_proxy_write`.

  The lock is dropped around allocations and callbacks, so a read is several steps here:
  `read` takes the pending requests, `next` takes the next of them, `make` ends an ASSIGN,
  and `present` hands out the first request. Requests of clients, also those from inside a
  callback, and writes come between them in any order. Entities and proxy entities are
  numbers, for their pointers. `queued` counts the requests that got into the queue, a
  request keeps its number as `ticket`; `created` counts the proxy entities, `freed` are the
  freed ones, `shown` the presented ones, and `settled` says what became of each request.
  Left out are the registration of the adapter, requests that are answered at once (`Req` 0),
  the copy of an indication into the client's buffers, and cleanup.
-/

import Mathlib.Logic.Function.Basic
import Divas.Lib.Run

namespace Divas.Um

/-! ## Codes -/

def remove : UInt8 := 0xff
def wrongCommand : UInt8 := 0x02
def wrongId : UInt8 := 0x03
def outOfResources : UInt8 := 0x07
def assignRc : UInt8 := 0xe0
def assignOk : UInt8 := 0xef

def proxyRcTypeRemoveComplete : UInt16 := 0x0001

/-! ## Data -/

/-- The fields of `ENTITY` that the proxy uses; `x` are the buffers `X[0]` to `X[XNum - 1]`, `none` without a pointer. -/
structure Entity where
  id : UInt8
  req : UInt8
  reqCh : UInt8
  rc : UInt8
  rcCh : UInt8
  ind : UInt8
  indCh : UInt8
  no : UInt8
  complete : UInt8
  rLength : UInt16
  rNum : UInt8
  rnr : UInt8
  x : List (Option (List UInt8))

/-- A pending request: the entity, and the number of the request. -/
structure Request where
  ticket : Nat
  e : Nat
  deriving DecidableEq

/-- `diva_um_idi_proxy_idi_req_t` and the data behind it. -/
structure Message where
  id : UInt8
  req : UInt8
  ch : UInt8
  data : List UInt8
  deriving DecidableEq

/-- `diva_um_idi_proxy_entity_t`; `ticket` is the request in `req`, and `id` the Id that the entity got with its ASSIGN. -/
structure ProxyEntity where
  e : Nat
  requestPending : Bool
  assignPending : Bool
  removePending : Bool
  req : Message
  ticket : Nat
  id : UInt8

/-- `diva_um_idi_proxy_idi_rc_or_ind_t`. -/
structure Header where
  id : UInt16
  rcInd : UInt16
  ch : UInt16
  dataLength : UInt16

/-- What became of a request: a read presented it, a callback answered it, or it was dropped. -/
inductive Outcome where
  | presented (m : Message)
  | answered (rc : UInt8)
  | busy
  | removed
  deriving DecidableEq

/-- Where a read is: `creating` is an ASSIGN that has counted its entity, or was refused at the limit. -/
inductive Reader where
  | idle
  | serving (rest : List Request)
  | creating (r : Request) (createEntity : Bool) (rest : List Request)

structure Proxy where
  maxEntities : Nat
  nrEntities : Nat
  entityMap : UInt8 → Option Nat
  pendingRequestsQ : List Request
  entityQ : List Nat
  assignQ : List Nat
  reqQ : List Nat
  pU : Nat → ProxyEntity
  ent : Nat → Entity
  reader : Reader
  queued : Nat
  created : Nat
  freed : List Nat
  shown : List Nat
  settled : List (Nat × Outcome)

namespace Proxy

/-- The limit that `diva_um_idi_proxy_add_adapter` takes from the process. -/
def limit (max : Nat) : Nat := if max = 0 ∨ 0xff < max then 0xff else max

/-- The registered proxy, before its first request. -/
def registered (max : Nat) (ent : Nat → Entity) : Proxy where
  maxEntities := limit max
  nrEntities := 0
  entityMap := fun _ => none
  pendingRequestsQ := []
  entityQ := []
  assignQ := []
  reqQ := []
  pU := fun _ => ⟨0, false, false, false, ⟨0, 0, 0, []⟩, 0, 0⟩
  ent := ent
  reader := .idle
  queued := 0
  created := 0
  freed := []
  shown := []
  settled := []

def setEnt (p : Proxy) (e : Nat) (v : Entity) : Proxy := { p with ent := Function.update p.ent e v }

def setUnit (p : Proxy) (u : Nat) (v : ProxyEntity) : Proxy := { p with pU := Function.update p.pU u v }

/-! ## Requests -/

/-- `diva_um_proxy_user_request` of the entity `e`, in which the client has put `v`. -/
def userRequest (p : Proxy) (e : Nat) (v : Entity) : Proxy :=
  if v.req = 0 then p.setEnt e v
  else if p.pendingRequestsQ.length < 256 then
    { p.setEnt e { v with no := 1 } with
      pendingRequestsQ := p.pendingRequestsQ ++ [⟨p.queued, e⟩]
      queued := p.queued + 1 }
  else p.setEnt e { v with no := 0, rc := assignRc ||| outOfResources }

/-! ## Reads -/

/-- `diva_copy_xdescr`: the data of the buffers, `none` for `0xffff` where it does not fit. -/
def copyXdescr (maxLength : Nat) : List (Option (List UInt8)) → List UInt8 → Option (List UInt8)
  | [], dst => some dst
  | none :: x, dst => copyXdescr maxLength x dst
  | some d :: x, dst =>
    if d.length = 0 then copyXdescr maxLength x dst
    else if maxLength < dst.length + d.length then none
    else copyXdescr maxLength x (dst ++ d)

/-- `sizeof(pU->req.data)`. -/
def dataSize : Nat := 2152

/-- `dword` arithmetic of `nr_entities`. -/
def inc (n : Nat) : Nat := (n + 1) % 0x100000000
def dec (n : Nat) : Nat := if n = 0 then 0xffffffff else n - 1

/-- The callback of an error exit. -/
def answer (p : Proxy) (r : Request) (rc rcCh no : UInt8) : Proxy :=
  { p.setEnt r.e { p.ent r.e with complete := 0xff, rc := rc, rcCh := rcCh, no := no } with
    settled := p.settled ++ [(r.ticket, .answered rc)] }

/-- The start of `diva_um_idi_proxy_read`; `mem` says whether there is memory for a copy of the queue. -/
def takeRequests (p : Proxy) (mem : Bool) : Proxy :=
  if p.pendingRequestsQ ≠ [] ∧ mem = true then { p with pendingRequestsQ := [], reader := .serving p.pendingRequestsQ }
  else { p with reader := .serving [] }

/-- The request of the proxy entity `u` gets into `req_q`. -/
def queueRequest (p : Proxy) (u : Nat) (r : Request) (m : Message) : Proxy :=
  { p.setUnit u { p.pU u with req := m, requestPending := true, ticket := r.ticket } with reqQ := p.reqQ ++ [u] }

/-- A request with an Id. -/
def requestEntity (p : Proxy) (r : Request) : Proxy :=
  match p.entityMap (p.ent r.e).id with
  | none => p.answer r wrongId 0 (p.ent r.e).no
  | some u =>
    if (p.pU u).e ≠ r.e then p.answer r wrongId 0 (p.ent r.e).no
    -- the source clears `e` here, so that nobody is called
    else if (p.pU u).requestPending || (p.pU u).removePending then { p with settled := p.settled ++ [(r.ticket, .busy)] }
    else match copyXdescr dataSize (p.ent r.e).x [] with
      | none => (p.setUnit u { p.pU u with req := { (p.pU u).req with data := [] } }).answer r wrongId 0 (p.ent r.e).no
      | some data => p.queueRequest u r ⟨(p.ent r.e).id, (p.ent r.e).req, (p.ent r.e).reqCh, data⟩

/-- The next of the requests that the read has taken. -/
def nextRequest (p : Proxy) (r : Request) (rest : List Request) : Proxy :=
  if (p.ent r.e).id &&& 0x1f = 0 then
    if inc p.nrEntities ≤ p.maxEntities then { p with nrEntities := inc p.nrEntities, reader := .creating r true rest }
    else { p with reader := .creating r false rest }
  else { p.requestEntity r with reader := .serving rest }

/-- The proxy entity of an ASSIGN. -/
def assigning (e : Entity) (r : Request) (data : List UInt8) : ProxyEntity :=
  ⟨r.e, true, true, false, ⟨e.id, e.req, e.reqCh, data⟩, r.ticket, 0⟩

/-- The rest of an ASSIGN; `mem` says whether there is memory for a proxy entity. -/
def createEntity (p : Proxy) (r : Request) (create : Bool) (rest : List Request) (mem : Bool) : Proxy :=
  if create && mem then
    match copyXdescr dataSize (p.ent r.e).x [] with
    | none =>
      { p.answer r (assignRc ||| wrongCommand) (p.ent r.e).reqCh 0 with
        nrEntities := dec p.nrEntities
        created := p.created + 1
        freed := p.freed ++ [p.created]
        reader := .serving rest }
    | some data =>
      { p.setUnit p.created (assigning (p.ent r.e) r data) with
        created := p.created + 1
        assignQ := p.assignQ ++ [p.created]
        reqQ := p.reqQ ++ [p.created]
        reader := .serving rest }
  else
    { p.answer r (assignRc ||| outOfResources) (p.ent r.e).reqCh (p.ent r.e).no with
      nrEntities := dec p.nrEntities
      reader := .serving rest }

/-- `sizeof(pU->req.hdr)`, and of the header of a write. -/
def headerSize : Nat := 8

/-- The process has got the request of `u`. -/
def handOut (p : Proxy) (u : Nat) : Proxy :=
  { p.setUnit u { p.pU u with removePending := (p.pU u).removePending || (p.pU u).req.req == remove, requestPending := false }
    with
    reqQ := p.reqQ.erase u
    shown := p.shown ++ [u]
    settled := p.settled ++ [((p.pU u).ticket, .presented (p.pU u).req)]
    reader := .idle }

/-- The end of `diva_um_idi_proxy_read`; `copied` is what `cp_fn` returns. -/
def present (p : Proxy) (maxLength copied : Int) : Proxy × Int :=
  match p.reqQ with
  | [] => ({ p with reader := .idle }, 0)
  | u :: _ =>
    if headerSize + (p.pU u).req.data.length ≤ maxLength then
      if 0 ≤ copied then (p.handOut u, copied) else ({ p with reader := .idle }, -2)
    else ({ p with reader := .idle }, -2)

/-! ## Writes -/

/-- `REMOVE_COMPLETE` for the proxy entity `u` with the Id. -/
def removeComplete (p : Proxy) (id : UInt8) (u : Nat) : Proxy :=
  { p.setEnt (p.pU u).e { p.ent (p.pU u).e with complete := 0xff, id := 0, rc := 0xff, rcCh := 0 } with
    entityMap := Function.update p.entityMap id none
    assignQ := if (p.pU u).assignPending then p.assignQ.erase u else p.assignQ
    entityQ := if (p.pU u).assignPending then p.entityQ else p.entityQ.erase u
    reqQ := if (p.pU u).requestPending then p.reqQ.erase u else p.reqQ
    settled := if (p.pU u).requestPending then p.settled ++ [((p.pU u).ticket, .removed)] else p.settled
    nrEntities := if p.nrEntities ≠ 0 then dec p.nrEntities else p.nrEntities
    freed := p.freed ++ [u] }

/-- An ASSIGN return code for the proxy entity `u`, the first of `assign_q`. -/
def assigned (p : Proxy) (u : Nat) (hdr : Header) : Proxy :=
  let id := hdr.id.toUInt8
  let rc := hdr.rcInd.toUInt8
  let e : Entity := { p.ent (p.pU u).e with complete := 0xff, id := id, rc := rc, rcCh := hdr.rcInd.toUInt8 }
  let q := (p.setUnit u { p.pU u with assignPending := false, id := id }).setEnt (p.pU u).e e
  if rc = assignOk then
    { q with
      assignQ := p.assignQ.erase u
      entityMap := Function.update p.entityMap id (some u)
      entityQ := p.entityQ ++ [u] }
  else
    { q with
      assignQ := p.assignQ.erase u
      nrEntities := if p.nrEntities ≠ 0 then dec p.nrEntities else p.nrEntities
      freed := p.freed ++ [u] }

/-- `diva_um_idi_proxy_rc`. -/
def proxyRc (p : Proxy) (hdr : Header) : Proxy × Int :=
  match p.entityMap hdr.id.toUInt8 with
  | some u =>
    if hdr.dataLength &&& proxyRcTypeRemoveComplete ≠ 0 then (p.removeComplete hdr.id.toUInt8 u, headerSize)
    else
      let e : Entity := { p.ent (p.pU u).e with complete := 0xff, rc := hdr.rcInd.toUInt8, rcCh := hdr.ch.toUInt8 }
      (p.setEnt (p.pU u).e e, headerSize)
  | none =>
    if hdr.rcInd.toUInt8 &&& 0xf0 = assignRc then
      match p.assignQ with
      | u :: _ => if (p.pU u).assignPending && !(p.pU u).requestPending then (p.assigned u hdr, headerSize) else (p, headerSize)
      | [] => (p, headerSize)
    else (p, -1)

/-- What a client leaves in its entity in the callback of an indication. -/
structure Take where
  rnr : UInt8
  rNum : UInt8

/-- `diva_um_idi_proxy_ind`; `maxLength` is the length of the data behind the header. -/
def proxyInd (p : Proxy) (hdr : Header) (maxLength : Int) (take : Take) : Proxy × Int :=
  if maxLength ≠ hdr.dataLength.toNat then (p, -1)
  else match p.entityMap hdr.id.toUInt8 with
  | none => (p, -1)
  | some u =>
    if (p.pU u).removePending then (p, hdr.dataLength.toNat + headerSize)
    else
      let e := (p.pU u).e
      let called : Entity :=
        { p.ent e with
          ind := hdr.rcInd.toUInt8
          indCh := hdr.ch.toUInt8
          complete := if hdr.dataLength.toNat ≤ 270 then 1 else 0
          rLength := hdr.dataLength
          rNum := take.rNum
          rnr := take.rnr }
      if take.rnr = 1 then (p.setEnt e called, 0)
      else if take.rNum = 0 ∨ take.rnr = 2 then (p.setEnt e called, hdr.dataLength.toNat + headerSize)
      else (p.setEnt e { called with complete := 2 }, hdr.dataLength.toNat + headerSize)

/-- `diva_um_idi_proxy_write` of `length` bytes; `copied` is what `cp_fn` returns, 0 also without memory. -/
def proxyWrite (p : Proxy) (hdr : Header) (length copied : Int) (take : Take) : Proxy × Int :=
  if headerSize ≤ length then
    if 0 < copied then
      if hdr.dataLength &&& 0x8000 ≠ 0 then p.proxyRc hdr else p.proxyInd hdr (length - headerSize) take
    else (p, copied)
  else (p, -1)

/-! ## Runs -/

inductive Ev where
  | user (e : Nat) (v : Entity)
  | read (mem : Bool)
  | next
  | make (mem : Bool)
  | present (maxLength copied : Int)
  | write (hdr : Header) (length copied : Int) (take : Take)

def step (p : Proxy) : Ev → Proxy
  | .user e v => p.userRequest e v
  | .read mem => match p.reader with
    | .idle => p.takeRequests mem
    | _ => p
  | .next => match p.reader with
    | .serving (r :: rest) => p.nextRequest r rest
    | _ => p
  | .make mem => match p.reader with
    | .creating r create rest => p.createEntity r create rest mem
    | _ => p
  | .present maxLength copied => match p.reader with
    | .serving [] => (p.present maxLength copied).1
    | _ => p
  | .write hdr length copied take => (p.proxyWrite hdr length copied take).1

end Proxy

end Divas.Um
