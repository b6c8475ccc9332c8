/-
  Divas.Capi.Ncci — the NCCI mapping of an adapter (message.c).

  `ch_ncci` maps network layer channels to NCCIs, `ncci_ch` back; `ncci_plci` is the Id of
  the PLCI that an NCCI belongs to. The NCCIs of a PLCI are a circle: `ncci_ring_list` of
  the PLCI is one of them, `ncci_next` links them. `get_ncci` maps a channel, `ncci_remove`
  takes a mapping away; with `preserve_ncci` it takes only the way from the channel to the
  NCCI, and `get_ncci` with `force_ncci` gives the NCCI a channel again.

  The calls come from any PLCI in any order. What `ncci_remove` does to the data of an
  NCCI besides (`TransmitBufferFree`, `DataNCCI`) is not part of this model.
-/

import Mathlib.Logic.Function.Basic
import Divas.Lib.Loop
import Divas.Lib.Run
import Divas.Lib.Links
import Divas.Capi.Types

namespace Divas.Capi

open Divas.Lib.Loop

/-- The Id of a PLCI is a byte that is not 0. -/
structure PlciId where
  id : Nat
  pos : 0 < id
  byte : id < 256

/-- An NCCI that a caller names; 0 stands for none, or for all. -/
structure NcciId where
  ncci : Nat
  le : ncci ≤ maxNcci

structure NcciSt where
  a : Adapter
  /-- `ncci_ring_list` of each PLCI. -/
  ncciRingList : Nat → Nat
  /-- `diva_capi_ncci_mapping_bug`. -/
  mappingBug : Nat
  /-- A loop does not end. -/
  hung : Bool

/-- The NCCIs in the order of the loops over them. -/
def nccis : List Nat := (List.range maxNcci).map (· + 1)

namespace NcciSt

def setAdapter (s : NcciSt) (a : Adapter) : NcciSt := { s with a := a }

def countBug (s : NcciSt) : NcciSt := { s with mappingBug := s.mappingBug + 1 }

/-! ## get_ncci -/

/-- `a->ncci_ch[ncci] = ch; a->ch_ncci[ch] = (byte) ncci`. -/
def establish (s : NcciSt) (ncci ch : Nat) : NcciSt :=
  { s with a := { s.a with
      ncciCh := Function.update s.a.ncciCh ncci ch
      chNcci := Function.update s.a.chNcci ch (ncci % 256) } }

def ringInsert (s : NcciSt) (p ncci : Nat) : NcciSt :=
  let s :=
    if s.ncciRingList p == 0 then { s with ncciRingList := Function.update s.ncciRingList p ncci }
    else s.setAdapter { s.a with ncciNext := Function.update s.a.ncciNext ncci (s.a.ncciNext (s.ncciRingList p)) }
  s.setAdapter { s.a with ncciNext := Function.update s.a.ncciNext (s.ncciRingList p) (ncci % 256) }

/-- The PLCI gets the NCCI. -/
def assign (s : NcciSt) (p ncci : Nat) : NcciSt :=
  (s.setAdapter { s.a with
    ncciPlci := Function.update s.a.ncciPlci ncci p
    ncciState := Function.update s.a.ncciState ncci .idle }).ringInsert p ncci

def freeNcci (s : NcciSt) : Option Nat := nccis.find? fun n => s.a.ncciCh n == 0

/-- The search for a channel with two NCCIs, for the trace. `i` stays 1, so it does not
    end when channel 1 has two. -/
def overflowSearchEnds (s : NcciSt) : Bool := nccis.countP (fun n => s.a.ncciCh n == 1) < 2

def getNcci (s : NcciSt) (p ch forceNcci : Nat) : Nat × NcciSt :=
  if ch == 0 || s.a.chNcci ch != 0 then (ch, s.countBug)
  else if forceNcci != 0 then (forceNcci, s.establish forceNcci ch)
  else if ch < maxNcci + 1 && s.a.ncciCh ch == 0 then (ch, (s.assign p ch).establish ch ch)
  else
    match s.freeNcci with
    | some ncci => (ncci, (s.assign p ncci).establish ncci ch)
    | none =>
      if s.overflowSearchEnds then (ch, (s.countBug.assign p ch).establish ch ch)
      else (0, { s.countBug with hung := true })

/-! ## ncci_remove -/

def cleanupNcci (s : NcciSt) (ncci : Nat) : NcciSt :=
  let w := { s.a.ncci ncci with dataOut := 0, dataPending := 0, dataAckOut := 0, dataAckPending := 0 }
  s.setAdapter { s.a with ncci := Function.update s.a.ncci ncci w }

/-- `a->ch_ncci[a->ncci_ch[ncci]] = 0`. -/
def unmap (s : NcciSt) (ncci : Nat) : NcciSt :=
  s.setAdapter { s.a with chNcci := Function.update s.a.chNcci (s.a.ncciCh ncci) 0 }

def clearNcci (s : NcciSt) (ncci : Nat) : NcciSt :=
  s.setAdapter { s.a with
    ncciCh := Function.update s.a.ncciCh ncci 0
    ncciPlci := Function.update s.a.ncciPlci ncci 0
    ncciState := Function.update s.a.ncciState ncci .idle }

def clearNext (s : NcciSt) (ncci : Nat) : NcciSt :=
  s.setAdapter { s.a with ncciNext := Function.update s.a.ncciNext ncci 0 }

/-- The loop that looks for the NCCI before `ncci` in its circle. A link is a byte: a
    loop of more than 256 turns does not end. -/
def findBefore (next : Nat → Nat) (ring ncci : Nat) : Nat → Nat → Option Nat
  | 0, _ => none
  | k + 1, i => if i ≠ 0 ∧ next i ≠ ring ∧ next i ≠ ncci then findBefore next ring ncci k (next i) else some i

def ringRemove (s : NcciSt) (p ncci : Nat) : NcciSt :=
  let ring := s.ncciRingList p
  let next := s.a.ncciNext
  match findBefore next ring ncci 256 ring with
  | none => { s with hung := true }
  | some i =>
    let s :=
      if i != 0 && next i == ncci then
        { s with
          ncciRingList := Function.update s.ncciRingList p (if i = ncci then 0 else if ring = ncci then i else ring)
          a := { s.a with ncciNext := Function.update next i (next ncci) } }
      else s
    s.clearNext ncci

/-- One turn of `ncci_remove` for all NCCIs. -/
def removeTurn (p : Nat) (preserveNcci : Bool) (ncci : Nat) (s : NcciSt) : NcciSt :=
  if s.a.ncciPlci ncci == p then
    let s := (s.cleanupNcci ncci).unmap ncci
    if preserveNcci then s else (s.clearNcci ncci).clearNext ncci
  else s

def removeAll (s : NcciSt) (p : Nat) (preserveNcci : Bool) : NcciSt :=
  let s := forFrom 1 (maxNcci + 1) (removeTurn p preserveNcci) s
  if preserveNcci then s else { s with ncciRingList := Function.update s.ncciRingList p 0 }

def removeOne (s : NcciSt) (p ncci : Nat) (preserveNcci : Bool) : NcciSt :=
  if s.a.ncciPlci ncci != p then s.countBug
  else
    let s := (s.cleanupNcci ncci).unmap ncci
    if preserveNcci then s else (s.clearNcci ncci).ringRemove p ncci

def ncciRemove (s : NcciSt) (p ncci : Nat) (preserveNcci : Bool) : NcciSt :=
  if ncci != 0 then s.removeOne p ncci preserveNcci else s.removeAll p preserveNcci

end NcciSt

/-! ## Runs -/

inductive NcciEv where
  | get (plci : PlciId) (ch : UInt8) (forceNcci : NcciId)
  | remove (plci : PlciId) (ncci : NcciId) (preserveNcci : Bool)

namespace NcciSt

/-- After a loop that does not end nothing happens. -/
def step (s : NcciSt) (e : NcciEv) : NcciSt :=
  if s.hung then s
  else
    match e with
    | .get plci ch forceNcci => (s.getNcci plci.id ch.toNat forceNcci.ncci).2
    | .remove plci ncci preserveNcci => s.ncciRemove plci.id ncci.ncci preserveNcci

/-- No channel is mapped. -/
structure Init (s : NcciSt) : Prop where
  chNcci : ∀ ch, s.a.chNcci ch = 0
  ncciCh : ∀ n, s.a.ncciCh n = 0
  ncciPlci : ∀ n, s.a.ncciPlci n = 0
  ring : ∀ p, s.ncciRingList p = 0
  hung : s.hung = false

/-- The channel of a call of `get_ncci` is not claimed by an NCCI of a PLCI. A forced NCCI
    is not mapped, and if none is forced, one is free. -/
def Cond (s : NcciSt) : NcciEv → Prop
  | .get _ ch forceNcci =>
    ch.toNat ≠ 0 → s.a.chNcci ch.toNat = 0 →
      if forceNcci.ncci = 0 then
        (∃ n, n ≠ 0 ∧ n ≤ maxNcci ∧ s.a.ncciCh n = 0) ∧ ∀ n, s.a.ncciPlci n ≠ 0 → s.a.ncciCh n ≠ ch.toNat
      else
        (∀ c, s.a.chNcci c ≠ forceNcci.ncci) ∧
          (s.a.ncciPlci forceNcci.ncci ≠ 0 →
            ∀ n, n ≠ forceNcci.ncci → s.a.ncciPlci n ≠ 0 → s.a.ncciCh n ≠ ch.toNat)
  | .remove .. => True

end NcciSt

end Divas.Capi
