/-
  Divas.Idi.Adapter — requests to an adapter and return codes from it (io.c, di.c).

  A client calls `request` with its entity. An entity without a specific Id (`Id & 0x1f` is 0)
  gets a slot of `e_tbl`; the slot is put into the request queue. `pr_out` takes the slots
  from the queue and fills request buffers of the card, at most `ReadyCount` of them: for a
  specific Id one block of the data in at most 270 bytes, and the slot goes to the end of the
  queue again when data is left; else an ASSIGN, whose reference is kept in the slot. Both the
  queue and the list of the ASSIGNs are linked through `next` of the slots. `isdn_rc` takes a
  return code: for a known Id it is the entity's, else it may answer an ASSIGN.

  An entity is a number here, for its pointer. What a client requests from inside `CALLBACK`
  is a request right behind the return code. `put` are the entities in the order in which
  they were queued, `out` the blocks that the card has got, `calls` the entities at each
  `CALLBACK`. The streams (`tx_stream`, `rx_stream`), requests that are answered at once
  (`Req` 0), the trap of the adapter, traces and locks are left out.
-/

import Mathlib.Logic.Function.Basic

namespace Divas.Idi

/-! ## Codes -/

def xmorec : BitVec 8 := 0x0f
def xmorep : BitVec 8 := 0x10
def xmoref : BitVec 8 := 0x20
def xbusy : BitVec 8 := 0x40

def nlId : Nat := 0x20
def bllcId : Nat := 0x60
def taskId : Nat := 0x80
def manId : Nat := 0xe0

def uremove : Nat := 0xfe
def remove : Nat := 0xff
def nMdata : Nat := 1
def llMdata : Nat := 9

def assignRc : Nat := 0xe0
def assignOk : Nat := 0xef
def okFc : Nat := 0xfc
def readyIntRc : Nat := 0xfd
def rcOk : Nat := 0xff

/-- Types of extended information. -/
def rcTypeRemoveComplete : Nat := 0x08
def rcTypeOkFc : Nat := 0x0b

/-! ## The adapter -/

/-- The fields of `ENTITY` for requests; `x` are the buffers `X[0]` to `X[XNum - 1]`. -/
structure Entity where
  req : Nat
  rc : Nat
  reqCh : Nat
  rcCh : Nat
  id : Nat
  x : List (List UInt8)
  rnr : Nat
  complete : Nat
  no : Nat
  more : BitVec 8
  mInd : Nat
  xCurrent : Nat
  xOffset : Nat
  rCurrent : Nat

/-- `E_INFO`. -/
structure Slot where
  e : Option Nat
  next : Nat
  assignRef : Nat

/-- A request buffer of the card, and the entity that it is for. -/
structure Block where
  e : Nat
  id : Nat
  ch : Nat
  req : Nat
  reference : Nat
  data : List UInt8
  deriving DecidableEq

structure Adapter where
  ent : Nat → Entity
  eTbl : Nat → Slot
  eMax : Nat
  eCount : Nat
  assign : Nat
  head : Nat
  tail : Nat
  idTable : Nat → Nat
  idTypeTable : Nat → Nat
  flowControlIdTable : Nat → Nat
  flowControlSkipTable : Nat → Bool
  removePending : Nat → Bool
  noRcCancelling : Nat → Bool
  rcExtensionSupported : Bool
  readyInt : Nat
  put : List Nat
  out : List Block
  calls : List (Nat × Entity)

/-- The request of a client: with an Id for an ASSIGN. -/
structure Ask where
  p : Nat
  id : Option Nat
  req : Nat
  reqCh : Nat
  x : List (List UInt8)

namespace Adapter

def setEnt (a : Adapter) (p : Nat) (e : Entity) : Adapter := { a with ent := Function.update a.ent p e }

theorem setEnt_self (a : Adapter) (p : Nat) (e : Entity) : (a.setEnt p e).ent p = e := by
  unfold setEnt
  exact Function.update_self p e a.ent

theorem setEnt_of_ne (a : Adapter) {p q : Nat} (h : q ≠ p) (e : Entity) : (a.setEnt p e).ent q = a.ent q := by
  unfold setEnt
  exact Function.update_of_ne h e a.ent

def setSlot (a : Adapter) (i : Nat) (t : Slot) : Adapter := { a with eTbl := Function.update a.eTbl i t }

theorem setSlot_self (a : Adapter) (i : Nat) (t : Slot) : (a.setSlot i t).eTbl i = t := by
  unfold setSlot
  exact Function.update_self i t a.eTbl

theorem setSlot_of_ne (a : Adapter) {i j : Nat} (h : j ≠ i) (t : Slot) : (a.setSlot i t).eTbl j = a.eTbl j := by
  unfold setSlot
  exact Function.update_of_ne h t a.eTbl

/-! ## Queues of slots -/

def freeEntity (a : Adapter) (i : Nat) : Adapter :=
  { a.setSlot i { a.eTbl i with e := none } with eCount := (a.eCount + 65535) % 65536 }

def assignQueue (a : Adapter) (i ref : Nat) : Adapter :=
  { a.setSlot i { a.eTbl i with assignRef := ref, next := a.assign % 256 } with assign := i }

/-- The loop of `get_assign`, with at most `turns` turns. -/
def getAssignLoop (a : Adapter) (ref : Nat) : Nat → Nat → Option Nat
  | 0, _ => none
  | turns + 1, i => if i ≠ 0 ∧ (a.eTbl i).assignRef ≠ ref then a.getAssignLoop ref turns (a.eTbl i).next else some i

/-- Each slot has a byte for its number: a loop of more than 257 turns does not end. -/
def getAssign (a : Adapter) (ref : Nat) : Option Nat := a.getAssignLoop ref 257 (a.assign % 256)

/-- `req_queue`; `request` does the same. -/
def reqQueue (a : Adapter) (i : Nat) : Adapter :=
  let a := { a.setSlot i { a.eTbl i with next := 0 } with put := a.put ++ (a.eTbl i).e.toList }
  if a.head ≠ 0 then { a.setSlot a.tail { a.eTbl a.tail with next := i % 256 } with tail := i }
  else { a with head := i, tail := i }

def nextReq (a : Adapter) : Adapter :=
  let a := { a with head := (a.eTbl a.head).next }
  if a.head = 0 then { a with tail := 0 } else a

/-! ## request -/

/-- `for ( i = 1 ; IoAdapter->e_tbl[i].e ; ++i ) ;` with less than `e_max` slots in use. -/
def newSlot (a : Adapter) : Nat := ((List.range' 1 a.eMax).find? fun i => (a.eTbl i).e.isNone).getD 0

def takeSlot (a : Adapter) (i p : Nat) : Adapter :=
  { a.setSlot i { a.eTbl i with e := some p } with eCount := (a.eCount + 1) % 65536 }

/-- The entity is put into the queue, unless it is busy. -/
def start (a : Adapter) (p i : Nat) : Adapter :=
  let e := a.ent p
  if e.more &&& xbusy ≠ 0 then a
  else (a.setEnt p { e with more := (e.more ||| xbusy) &&& ~~~xmoref, xCurrent := 0, xOffset := 0 }).reqQueue i

/-- An entity with an Id that is not specific gets a slot. -/
def request (a : Adapter) (p : Nat) : Adapter :=
  let e := a.ent p
  if e.id % 32 = 0 then
    if a.eMax ≤ a.eCount then a
    else
      let i := a.newSlot
      ((a.takeSlot i p).setEnt p { e with no := i % 256, more := 0, rCurrent := 0xff }).start p i
  else a.start p e.no

/-- What the client fills in. -/
def filledIn (e : Entity) (q : Ask) : Entity := { e with id := q.id.getD e.id, req := q.req, reqCh := q.reqCh, x := q.x }

/-- The client fills in the entity and calls `request`. -/
def ask (a : Adapter) (q : Ask) : Adapter := (a.setEnt q.p (filledIn (a.ent q.p) q)).request q.p

/-! ## pr_out -/

/-- From `offset` of buffer `i` on, with `left` buffers left: at most 270 bytes behind those of `data`. -/
def fill (x : List (List UInt8)) : Nat → Nat → Nat → List UInt8 → Nat × Nat × List UInt8
  | 0, i, offset, data => (i, offset, data)
  | left + 1, i, offset, data =>
    if data.length < 270 then
      let p := x.getD i []
      let clength := min (270 - data.length) (p.length - offset)
      let data := data ++ (p.drop offset).take clength
      if offset + clength = p.length then fill x left (i + 1) 0 data else (i, offset + clength, data)
    else (i, offset, data)

def emit (a : Adapter) (b : Block) : Adapter := { a with out := a.out ++ [b] }

/-- A block with more data behind it. -/
def sendMore (a : Adapter) (p ref : Nat) (data : List UInt8) : Adapter :=
  let e := a.ent p
  ((a.setEnt p { e with more := (e.more + 1) ||| xmorep }).emit ⟨p, e.id, e.reqCh, e.mInd, ref, data⟩).reqQueue e.no

/-- The last block of a request, from slot `i`. -/
def sendLast (a : Adapter) (i p ref : Nat) (data : List UInt8) : Adapter :=
  let e := a.ent p
  let a := (a.setEnt p { e with more := ((e.more + 1) ||| xmoref) &&& ~~~xmorep }).emit ⟨p, e.id, e.reqCh, e.req, ref, data⟩
  { a with
    flowControlSkipTable :=
      if a.flowControlIdTable e.reqCh = e.id then Function.update a.flowControlSkipTable e.reqCh true else a.flowControlSkipTable
    removePending := if e.req = remove then Function.update a.removePending i true else a.removePending }

/-- The code for more data, by the Id of the ASSIGN. -/
def mIndOf (id : Nat) : Nat :=
  if id = nlId ∨ id = taskId ∨ id = manId then nMdata else if id = bllcId then llMdata else 0

def sendAssign (a : Adapter) (p ref : Nat) (data : List UInt8) : Adapter :=
  let e := a.ent p
  let a := (a.setEnt p { e with mInd := mIndOf e.id, more := (e.more ||| xmoref) &&& ~~~xmorep }).emit
    ⟨p, e.id, e.reqCh, e.req, ref, data⟩
  ({ a with idTypeTable := Function.update a.idTypeTable e.no e.id } : Adapter).assignQueue e.no ref

/-- `XCurrent` and `XOffset` behind the next block, and its data. -/
def nextData (e : Entity) : Nat × Nat × List UInt8 := fill e.x (e.x.length - e.xCurrent) e.xCurrent e.xOffset []

def send (a : Adapter) (i p ref : Nat) : Adapter :=
  let (xCurrent, xOffset, data) := nextData (a.ent p)
  let a := a.setEnt p { a.ent p with xCurrent, xOffset }
  let e := a.ent p
  if e.id % 32 ≠ 0 then
    if e.xCurrent < e.x.length ∧ e.mInd ≠ 0 then a.sendMore p ref data else a.sendLast i p ref data
  else a.sendAssign p ref data

/-- A turn of the loop, and its entity. -/
def turn (a : Adapter) (ref : Nat) : Adapter × Option Nat :=
  let i := a.head
  let a := a.nextReq
  match (a.eTbl i).e with
  | none => (a, none)
  | some p => (a.send i p ref, some p)

/-- The loop: with `n` free request buffers, the references of the buffers, and the entity of the turn before. -/
def prOutLoop (refs : Nat → Nat) : Nat → Nat → Adapter → Option Nat → Adapter × Option Nat
  | 0, _, a, this => (a, this)
  | n + 1, count, a, this =>
    if a.head = 0 then (a, this)
    else
      let (a, this) := a.turn (refs count)
      prOutLoop refs n (if this.isSome then count + 1 else count) a this

/-- The Id is no longer in use. -/
def clearId (a : Adapter) (id : Nat) : Adapter :=
  { a with
    flowControlIdTable := fun ch => if a.flowControlIdTable ch = id then 0 else a.flowControlIdTable ch
    idTable := Function.update a.idTable id 0 }

/-- An UREMOVE has no return code. -/
def uremoved (a : Adapter) : Option Nat → Adapter
  | none => a
  | some p =>
    let e := a.ent p
    if e.req = uremove ∧ e.id ≠ 0 then
      let a := (a.freeEntity (a.idTable e.id)).clearId e.id
      a.setEnt p { a.ent p with id := 0 }
    else a

def prOut (a : Adapter) (ready : Nat) (refs : Nat → Nat) : Adapter :=
  if a.head = 0 then a
  else if ready = 0 then { a with readyInt := if a.readyInt = 0 then 1 else a.readyInt }
  else
    let (a, this) := prOutLoop refs ready 0 a none
    a.uremoved this

/-! ## isdn_rc -/

/-- `CALLBACK`. -/
def callback (a : Adapter) (p : Nat) : Adapter := { a with calls := a.calls ++ [(p, a.ent p)] }

def restoreRnr (a : Adapter) (p rnr : Nat) : Adapter := a.setEnt p { a.ent p with rnr := rnr }

/-- A return code. -/
structure ReturnCode where
  rc : Nat
  id : Nat
  ch : Nat
  ref : Nat
  extendedInfoType : Nat

/-- The entity of a REMOVE leaves. -/
def removed (a : Adapter) (i p id : Nat) : Adapter :=
  let a :=
    { a with
      removePending := Function.update a.removePending i false
      noRcCancelling := Function.update a.noRcCancelling i false }
  let a := (a.freeEntity i).clearId id
  let e := { a.ent p with id := 0 }
  a.setEnt p (if (e.more &&& xmorec).toNat > 1 then { e with more := (e.more &&& ~~~xmorec) ||| 1 } else e)

/-- `OK_FC`. -/
def answerOkFc (a : Adapter) (p : Nat) (r : ReturnCode) : Adapter :=
  let a := { a with
    flowControlIdTable := Function.update a.flowControlIdTable r.ch r.id
    flowControlSkipTable := Function.update a.flowControlSkipTable r.ch false }
  let e := a.ent p
  (a.setEnt p { e with rc := r.rc, more := e.more &&& ~~~(xbusy ||| xmorec), complete := 0xff }).callback p

/-- Flow control ends, with a return code of its own. -/
def answerFcEnd (a : Adapter) (i p : Nat) (r : ReturnCode) : Adapter :=
  let a := { a with noRcCancelling := Function.update a.noRcCancelling i true }
  (a.setEnt p { a.ent p with rnr := rcTypeOkFc, rc := r.rc, complete := 0xff }).callback p

/-- Flow control ends with the return code of the request. -/
def answerFlowControl (a : Adapter) (p : Nat) (r : ReturnCode) : Adapter :=
  let a := { a with flowControlIdTable := Function.update a.flowControlIdTable r.ch 0 }
  if r.rc ≠ rcOk ∨ a.flowControlSkipTable r.ch = false then
    let e := { a.ent p with rc := r.rc }
    let e := if r.ch = e.reqCh then { e with more := e.more &&& ~~~(xbusy ||| xmorec), complete := 0xff } else e
    (a.setEnt p e).callback p
  else a

/-- `if (this->More &XMOREC) this->More--`. -/
def countDown (e : Entity) : Entity := if e.more &&& xmorec ≠ 0 then { e with more := e.more - 1 } else e

/-- A return code to a block. -/
def answerBlock (a : Adapter) (i p : Nat) (r : ReturnCode) : Adapter :=
  let a := a.setEnt p (countDown (a.ent p))
  let e := a.ent p
  if (a.noRcCancelling i = true ∨ e.more &&& xmoref ≠ 0) ∧ e.more &&& (xmorec ||| xmorep) = 0 then
    (a.setEnt p { e with rc := r.rc, more := e.more &&& ~~~xbusy, complete := 0xff }).callback p
  else a

/-- Behind the check for a REMOVE. -/
def answer (a : Adapter) (i p : Nat) (r : ReturnCode) (rnr : Nat) (removeComplete : Bool) : Adapter :=
  if r.rc = okFc then (a.answerOkFc p r).restoreRnr p rnr
  else
    let a :=
      if r.extendedInfoType = rcTypeOkFc then a.answerFcEnd i p r
      else if a.noRcCancelling i = false ∧ a.flowControlIdTable r.ch = r.id then a.answerFlowControl p r
      else a.answerBlock i p r
    if removeComplete then a else a.restoreRnr p rnr

/-- The card has sent the extended information of a removal. -/
def noteExtension (a : Adapter) (i : Nat) (r : ReturnCode) : Adapter :=
  if a.idTypeTable i = nlId ∧ r.extendedInfoType = rcTypeRemoveComplete then { a with rcExtensionSupported := true } else a

/-- A return code to the entity of a known Id. -/
def rcKnown (a : Adapter) (i p : Nat) (r : ReturnCode) : Adapter :=
  let rnr := (a.ent p).rnr
  let a := a.setEnt p { a.ent p with rnr := 0, rcCh := r.ch }
  if a.removePending i ∧ r.rc = rcOk then
    if a.idTypeTable i = nlId ∧ a.rcExtensionSupported ∧ r.extendedInfoType ≠ rcTypeRemoveComplete then a.restoreRnr p rnr
    else ((a.noteExtension i r).removed i p r.id).answer i p r rnr true
  else a.answer i p r rnr false

/-- A return code to an ASSIGN. -/
def rcAssign (a : Adapter) (i p : Nat) (r : ReturnCode) : Adapter :=
  let e := a.ent p
  let a := (a.setEnt p { e with id := r.id, rc := r.rc, more := e.more &&& ~~~xbusy, complete := 0xff }).callback p
  if r.rc = assignOk then { a with idTable := Function.update a.idTable r.id i } else (a.freeEntity i).clearId r.id

/-- `isdn_rc`: its return value; nothing, where a loop does not end or the slot has no entity. -/
def isdnRc (a : Adapter) (r : ReturnCode) : Option (Nat × Adapter) :=
  if r.rc = readyIntRc then
    if a.readyInt ≠ 0 then some (0, { a with readyInt := a.readyInt - 1 }) else some (2, a)
  else
    let i := a.idTable r.id
    if i ≠ 0 then (a.eTbl i).e.map fun p => (0, a.rcKnown i p r)
    else if r.rc / 16 * 16 = assignRc then
      (a.getAssign r.ref).bind fun i =>
        if i ≠ 0 then (a.eTbl i).e.map fun p => (1, a.rcAssign i p r) else some (2, a)
    else some (2, a)

/-! ## Runs -/

inductive Ev where
  | ask (q : Ask)
  | prOut (ready : Nat) (refs : Nat → Nat)
  | rc (r : ReturnCode)

/-- An adapter without entities. -/
structure Init (a : Adapter) : Prop where
  size : a.eMax ≤ 256
  slots : ∀ i, (a.eTbl i).e = none
  count : a.eCount = 0
  queue : a.head = 0 ∧ a.tail = 0
  assign : a.assign = 0
  ids : ∀ id, a.idTable id = 0
  flow : ∀ ch, a.flowControlIdTable ch = 0
  flags : ∀ i, a.removePending i = false ∧ a.noRcCancelling i = false
  nothing : a.put = [] ∧ a.out = [] ∧ a.calls = []

/-- A return code that is not handled to the end leaves nothing to look at. -/
def step (a : Adapter) : Ev → Adapter
  | .ask q => a.ask q
  | .prOut ready refs => a.prOut ready refs
  | .rc r => (a.isdnRc r).elim a (·.2)

end Adapter

end Divas.Idi
