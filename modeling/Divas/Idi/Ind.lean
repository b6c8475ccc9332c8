/-
  Divas.Idi.Ind — the indication handler of an adapter (`isdn_ind` of di.c).

  The data of a packet comes in any number of indications with `MInd` and one without. At
  the first one (`RCurrent` is 0xff) the handler calls the client for a look ahead, and the
  client may give `RNum` buffers; the handler copies the data of all indications into them
  and calls the client again at the last one.

  `touched` are the entries of `R` that have been read or written, `calls` the entity at each
  call of the client. Entries from `RNum` on are there in the model, too: what is behind the
  list is not known. The buffers of a list do not overlap.

  The receive stream (`rx_stream`), the trace and an Id without an entity are left out. A
  word is a Nat where it does not wrap: `offset` is at most the length of the data, and
  `ROffset` at most a `PLength`.
-/

import Mathlib.Logic.Function.Basic

namespace Divas.Idi

/-- `BUFFERS`: `P` is null, or what is behind it. -/
structure Buffers where
  pLength : Nat
  p : Option (Nat → UInt8)

/-- The fields of `ENTITY` for indications. -/
structure RxEntity where
  ind : Nat
  indCh : Nat
  rNum : Nat
  r : Nat → Buffers
  rLength : Nat
  rnr : Nat
  complete : Nat
  mInd : Nat
  rCurrent : Nat
  rOffset : Nat

/-- What the client gives in the look ahead. -/
structure Answer where
  rnr : Nat
  rNum : Nat
  r : Nat → Buffers

/-- An indication from the card; `data` is `RBuffer`. -/
structure Indication where
  ind : Nat
  ch : Nat
  mInd : Nat
  mLength : Nat
  data : List UInt8

structure Rx where
  e : RxEntity
  touched : List Nat
  calls : List RxEntity

namespace Rx

def touch (s : Rx) : Rx := { s with touched := s.touched ++ [s.e.rCurrent] }

/-- `CALLBACK`. -/
def call (s : Rx) : Rx := { s with calls := s.calls ++ [s.e] }

/-! ## The look ahead -/

def lookAhead (s : Rx) (x : Indication) : Rx :=
  let e := s.e
  let e := if x.ind = e.mInd then { e with complete := 0, ind := x.mInd } else { e with complete := 1, ind := x.ind }
  call { s with e := { e with rLength := x.mLength, rNum := 0 } }

/-- The client answers in the call. -/
def answered (s : Rx) (a : Answer) : Rx := { s with e := { s.e with rnr := a.rnr, rNum := a.rNum, r := a.r } }

/-! ## The copy loop -/

/-- `if(this->ROffset==R[this->RCurrent].PLength)`. -/
def nextBuffer (s : Rx) : Rx :=
  let s := s.touch
  if s.e.rOffset = (s.e.r s.e.rCurrent).pLength
    then { s with e := { s.e with rOffset := 0, rCurrent := (s.e.rCurrent + 1) % 256 } }
  else s

/-- The bytes of `chunk` from `start` on. -/
def write (p : Nat → UInt8) (start : Nat) (chunk : List UInt8) : Nat → UInt8 :=
  fun k => if start ≤ k ∧ k < start + chunk.length then chunk.getD (k - start) 0 else p k

def copy (s : Rx) (chunk : List UInt8) : Rx :=
  let b := s.e.r s.e.rCurrent
  { s.touch with e := { s.e with
      r := Function.update s.e.r s.e.rCurrent { b with p := b.p.map fun p => write p s.e.rOffset chunk }
      rOffset := s.e.rOffset + chunk.length } }

/-- The loop, with at most `turns` turns. -/
def copyLoop (data : List UInt8) : Nat → Nat → Rx → Option Rx
  | 0, _, _ => none
  | turns + 1, offset, s =>
    let s := s.nextBuffer
    if s.e.rNum ≤ s.e.rCurrent then some s
    else
      let clength := min (data.length - offset) ((s.e.r s.e.rCurrent).pLength - s.e.rOffset)
      let s := s.copy ((data.drop offset).take clength)
      if offset + clength < data.length then copyLoop data turns (offset + clength) s else some s

/-! ## The handler -/

/-- The last indication of a packet. -/
def finish (s : Rx) (ind : Nat) : Rx :=
  let s := s.touch
  let e := s.e
  let e := { e with r := Function.update e.r e.rCurrent { e.r e.rCurrent with pLength := e.rOffset } }
  let e := { e with rCurrent := if e.rOffset ≠ 0 then (e.rCurrent + 1) % 256 else e.rCurrent }
  call { s with e := { e with rNum := e.rCurrent, rCurrent := 0xff, ind := ind, complete := 2 } }

/-- From `if(this->RNR==2)` on. -/
def receive (s : Rx) (x : Indication) : Option (Nat × Rx) :=
  if s.e.rnr = 2 then
    some (0, if x.ind ≠ s.e.mInd then { s with e := { s.e with rCurrent := 0xff, rnr := 0 } } else s)
  else
    (s.copyLoop x.data (x.data.length + s.e.rNum + 1) 0).map fun s => (0, if x.ind ≠ s.e.mInd then s.finish x.ind else s)

/-- `isdn_ind` gives its return value; nothing, where its loop takes more turns than it has. -/
def isdnInd (client : RxEntity → Answer) (s : Rx) (x : Indication) : Option (Nat × Rx) :=
  let s := { s with e := { s.e with indCh := x.ch } }
  if s.e.rCurrent = 0xff then
    let s := s.lookAhead x
    let s := s.answered (client s.e)
    if s.e.rnr = 1 then some (1, { s with e := { s.e with rnr := 0 } })
    else if s.e.rnr = 0 ∧ s.e.rNum = 0 then some (0, s)
    else receive { s with e := { s.e with rCurrent := 0, rOffset := 0 } } x
  else receive s x

end Rx

end Divas.Idi
