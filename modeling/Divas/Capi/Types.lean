/-
  Divas.Capi.Types — the records of the CAPI layer (`divacapi.h`, `capi20.h`): the
  fields of `PLCI`, `NCCI`, `APPL` and `DIVA_CAPI_ADAPTER` that the modelled functions
  read or write, and the message header.

  Pointers are numbers: `sizeof(void *)` is a parameter, four or eight bytes, and an
  application pointer is a number that fits in it (0 is NULL). A transmit buffer
  pointer is the buffer's index (`TransmitBufferSet` casts the index to a pointer).
  A message is the memory its pointer points to.
-/

import Divas.Lib.Bytes

namespace Divas.Capi

open Divas.Lib.Bytes

/-! ## Pointers -/

/-- `sizeof(void *)`. -/
inductive PtrSize where
  | four
  | eight
  deriving DecidableEq, Repr

def PtrSize.bytes : PtrSize → Nat
  | .four => 4
  | .eight => 8

/-- `APPL *`. -/
structure ApplPtr (P : PtrSize) where
  addr : Nat
  fits : addr < 256 ^ P.bytes
  deriving DecidableEq

def ApplPtr.null (P : PtrSize) : ApplPtr P := ⟨0, by cases P <;> decide⟩

def storePtr (P : PtrSize) (m : Mem) (k : Nat) (p : ApplPtr P) : Mem := store m k (leBytes P.bytes p.addr)

def loadPtr (P : PtrSize) (m : Mem) (k : Nat) : ApplPtr P :=
  ⟨leNat (load m k P.bytes), by have := leNat_lt (load m k P.bytes); simpa using this⟩

theorem loadPtr_storePtr (P : PtrSize) (m : Mem) (k : Nat) (p : ApplPtr P) : loadPtr P (storePtr P m k p) k = p := by
  have hl := load_store_self m k (leBytes P.bytes p.addr)
  rw [leBytes_length] at hl
  simp [loadPtr, storePtr, hl, leNat_leBytes p.fits]

theorem loadPtr_congr {P : PtrSize} {m m' : Mem} {k k' : Nat} (h : load m k P.bytes = load m' k' P.bytes) :
    loadPtr P m k = loadPtr P m' k' := by
  simp [loadPtr, h]

/-! ## Messages -/

def maxMsgSize : Nat := 256
def maxNcci : Nat := 127
def maxNlChannel : Nat := 255
def maxDataB3 : Nat := 8
def maxDataAck : Nat := maxDataB3

/-- `sizeof(msg->header)`. -/
def sizeofHeader : Nat := 12

def cmdDataB3R : Nat := 0x8086
def cmdDataB3IResponse : Nat := 0x8286 ||| 0x0100
def cmdDisconnectIResponse : Nat := 0x8204 ||| 0x0100
def cmdDisconnectB3IResponse : Nat := 0x8284 ||| 0x0100
def cmdManufacturerR : Nat := 0x80ff
def cmdManufacturerIResponse : Nat := 0x82ff ||| 0x0100

def headerLength (msg : Mem) : Nat := word msg 0
def headerCommand (msg : Mem) : Nat := word msg 4
def headerNumber (msg : Mem) : Nat := word msg 6
def headerController (msg : Mem) : Nat := (msg 8).toNat
def headerPlci (msg : Mem) : Nat := (msg 9).toNat
def headerNcci (msg : Mem) : Nat := word msg 10

/-- `info.data_b3_req`: `Data`, `Data_Length`, `Number` (the handle) and `Flags`. -/
def dataB3ReqData (msg : Mem) : Nat := dword msg 12
def dataB3ReqLength (msg : Mem) : Nat := word msg 16
def dataB3ReqHandle (msg : Mem) : Nat := word msg 18
def dataB3ReqFlags (msg : Mem) : Nat := word msg 20

/-- `info.data_b3_res.Number`. -/
def dataB3ResNumber (msg : Mem) : Nat := word msg 12

/-- `Flags & 0x0004`. -/
def flagged (flags : Nat) : Bool := flags &&& 0x0004 != 0

/-! ## Records -/

/-- `PLCI.State` and `ncci_state`. -/
inductive State where
  | idle
  | outgConPending
  | incConPending
  | incConAlert
  | incConAccept
  | incActPending
  | connected
  | outgDisPending
  | incDisPending
  | incResPending
  | outgResPending
  | other (n : Nat)
  deriving DecidableEq, Repr

structure Appl where
  maxBuffer : Nat
  dataNCCI : Nat → Nat
  dataFlags : Nat → Nat

structure DataB3Desc where
  handle : Nat
  number : Nat
  flags : Nat
  length : Nat
  p : Nat
  deriving DecidableEq, Repr

structure DataAckDesc where
  handle : Nat
  number : Nat
  deriving DecidableEq, Repr

structure Ncci where
  dataOut : Nat
  dataPending : Nat
  dataAckOut : Nat
  dataAckPending : Nat
  dBuffer : Nat → DataB3Desc
  dataAck : Nat → DataAckDesc

structure Adapter where
  id : Nat
  maxPlci : Nat
  adapterDisabled : Bool
  chNcci : Nat → Nat
  ncciCh : Nat → Nat
  ncciPlci : Nat → Nat
  ncciState : Nat → State
  ncciNext : Nat → Nat
  ncci : Nat → Ncci
  /-- `ch_flow_control[ch] & N_OK_FC_PENDING`. -/
  okFcPending : Nat → Bool

/-- The message queue of a `PLCI`. -/
structure MsgIn where
  msgInQueue : Mem
  msgInReadPos : Nat
  msgInWritePos : Nat
  msgInWrapPos : Nat

structure Plci (P : PtrSize) extends MsgIn where
  id : Nat
  state : State
  appl : ApplPtr P
  reqIn : Nat
  internalCommand : Nat
  command : Nat
  number : Nat
  nlReq : Bool
  nlReqCh : Nat
  dataSent : Bool
  dataSentPtr : Nat
  sendDisc : Nat
  ncciRingList : Nat

def Plci.withQueue {P : PtrSize} (p : Plci P) (q : MsgIn) : Plci P := { p with toMsgIn := q }

@[simp] theorem Plci.withQueue_toMsgIn {P : PtrSize} (p : Plci P) (q : MsgIn) : (p.withQueue q).toMsgIn = q := rfl

end Divas.Capi
