/-
  Divas.Capi.Sendf — messages to the application: `sendf` (capifunc.c), and `api_parse`
  (message.c), which takes the parameters of a message apart.

  `sendf` goes over the format twice, and each time over the arguments, with an `ap` of its
  own. The first pass counts the length, and writes numbers to `tmp_msg` as well, where the
  length of the data of a DATA_B3_I is read; a number for which `tmp_msg` has no room is
  counted, but `va_arg` is not called for it, so what is behind takes the argument of a
  place before its own. The second pass writes the message. Its open structures are a list
  inside the message: the length octet of each says how far back the length octet of the
  one around it is.

  What `va_arg` gives for an argument of another type is not defined, and a string taken
  from a number has no memory: there a pass has no result.

  Memory around `sendf`: the message buffer, the buffers of received data and the map of
  controllers are parameters. `allocated` and `freed` count message buffers.
-/

import Divas.Capi.Types

namespace Divas.Capi

open Divas.Lib.Bytes

/-- `_DATA_B3_I`. -/
def cmdDataB3I : Nat := 0x8286

/-- `sizeof(tmp_msg)`. -/
def sizeofTmpMsg : Nat := 212

/-- A character of a format. -/
inductive Fmt where
  | b
  | w
  | d
  | s
  | S
  | lpar
  | rpar
  deriving DecidableEq

/-- An argument: an `unsigned long` or a string, whose first byte is its length. -/
inductive Arg where
  | number (tmp : Nat)
  | string (string : Mem)

/-- `va_arg(ap, unsigned long)`. -/
def vaNumber : List Arg → Option (Nat × List Arg)
  | .number tmp :: ap => some (tmp, ap)
  | _ => none

/-- `va_arg(ap, byte*)`. -/
def vaString : List Arg → Option (Mem × List Arg)
  | .string string :: ap => some (string, ap)
  | _ => none

/-- `string[0] + 1`. -/
def stringSize (string : Mem) : Nat := (string 0).toNat + 1

/-! ## The first pass -/

/-- `length` is a word, `level` a byte. -/
structure Sizing where
  length : Nat
  write : Nat
  level : Nat
  tmpMsg : Mem

namespace Sizing

/-- A number of `n` bytes: its argument is taken only if it fits into `tmp_msg`. -/
def number (z : Sizing) (n : Nat) (ap : List Arg) : Option (Sizing × List Arg) :=
  let length := (z.length + n) % 65536
  if length ≤ sizeofTmpMsg then do
    let (tmp, ap) ← vaNumber ap
    pure ({ z with length, tmpMsg := store z.tmpMsg z.write (leBytes n tmp), write := z.write + n }, ap)
  else pure ({ z with length }, ap)

def string (z : Sizing) (ap : List Arg) : Option (Sizing × List Arg) := do
  let (string, ap) ← vaString ap
  pure ({ z with length := (z.length + stringSize string) % 65536, write := z.write + stringSize string }, ap)

def step (z : Sizing) (ap : List Arg) : Fmt → Option (Sizing × List Arg)
  | .b => z.number 1 ap
  | .w => z.number 2 ap
  | .d => z.number 4 ap
  | .s => z.string ap
  | .S => z.string ap
  | .lpar => pure ({ z with length := (z.length + 1) % 65536, write := z.write + 1, level := (z.level + 1) % 256 }, ap)
  | .rpar => pure ({ z with level := if z.level ≠ 0 then z.level - 1 else 0xff }, ap)

/-- `format[i] != 0 && level != 0xff`. -/
def pass (z : Sizing) (ap : List Arg) : List Fmt → Option Sizing
  | [] => some z
  | f :: fs => if z.level ≠ 0xff then (z.step ap f).bind fun r => r.1.pass r.2 fs else some z

end Sizing

/-! ## The second pass -/

structure Writing where
  mem : Mem
  write : Nat
  pLength : Option Nat
  level : Nat

namespace Writing

def number (z : Writing) (n : Nat) (ap : List Arg) : Option (Writing × List Arg) := do
  let (tmp, ap) ← vaNumber ap
  pure ({ z with mem := store z.mem z.write (leBytes n tmp), write := z.write + n }, ap)

def string (z : Writing) (ap : List Arg) : Option (Writing × List Arg) := do
  let (string, ap) ← vaString ap
  pure ({ z with mem := store z.mem z.write (load string 0 (stringSize string)), write := z.write + stringSize string }, ap)

/-- `(p_length != 0) ? write - p_length : 0`. -/
def link (z : Writing) : Nat :=
  match z.pLength with
  | some p => z.write - p
  | none => 0

def step (z : Writing) (ap : List Arg) : Fmt → Option (Writing × List Arg)
  | .b => z.number 1 ap
  | .w => z.number 2 ap
  | .d => z.number 4 ap
  | .s => z.string ap
  | .S => z.string ap
  | .lpar =>
    pure ({ z with mem := store z.mem z.write [UInt8.ofNat z.link], pLength := some z.write, write := z.write + 1 }, ap)
  | .rpar =>
    match z.pLength with
    | some p =>
      let level := (z.mem p).toNat
      pure ({ z with
        mem := store z.mem p [UInt8.ofNat (z.write - p - 1)]
        pLength := if level ≠ 0 then some (p - level) else none
        level := 0 }, ap)
    | none => pure ({ z with level := 0xff }, ap)

/-- `format[i] != 0 && level == 0`. -/
def pass (z : Writing) (ap : List Arg) : List Fmt → Option Writing
  | [] => some z
  | f :: fs => if z.level = 0 then (z.step ap f).bind fun r => r.1.pass r.2 fs else some z

end Writing

/-! ## sendf -/

/-- What `sendf` finds around it. -/
structure SendEnv where
  /-- `diva_os_alloc_message_buffer`. -/
  allocBuffer : Nat → Option Mem
  /-- `max_adapter` and `ControllerMap`. -/
  maxAdapter : Nat
  controllerMap : Nat → UInt8
  /-- `find_card_by_ctrl`. -/
  findCard : Nat → Bool
  /-- `ReceiveBufferGet`: the pointer and what it points to. -/
  receiveBuffer : Nat → Nat × Mem

def SendEnv.unMapController (env : SendEnv) (mapped : UInt8) : UInt8 :=
  let ctrl := mapped &&& 0x7f
  (if ctrl.toNat ≤ env.maxAdapter then env.controllerMap ctrl.toNat else 0) ||| (mapped &&& 0x80)

/-- The application, `tmp_msg`, and what became of the message buffers. -/
structure SendSt where
  applId : Nat
  number : Nat
  msgLost : Nat
  tmpMsg : Mem
  allocated : Nat
  freed : Nat
  /-- `capi_ctr_handle_message`: the size of the buffer and what is in it. -/
  delivered : List (Nat × Mem)

namespace SendSt

variable (P : PtrSize) (env : SendEnv)

/-- The header, but for its length. -/
def header (applId command number id : Nat) (m : Mem) : Mem :=
  let m := store m 2 (leBytes 2 applId)
  let m := store m 4 (leBytes 2 command)
  let m := store m 6 (leBytes 2 number)
  store m 8 (leBytes 4 id)

/-- The data of a DATA_B3_I, behind its pointer on a 64 bit system. -/
def copyData (length eLength dlength : Nat) (m : Mem) : Mem :=
  let data := env.receiveBuffer (word m 18)
  let m := if eLength ≠ 0 then store m length (leBytes 8 data.1) else m
  store m (length + eLength) (load data.2 0 dlength)

/-- The message goes to the card of its controller. -/
def deliver (s : SendSt) (size : Nat) (m : Mem) : SendSt :=
  if env.findCard (m 8 &&& 0x7f).toNat then { s with delivered := s.delivered ++ [(size, m)] }
  else { s with freed := s.freed + 1 }

/-- `e_length`: a pointer behind the parameters of a DATA_B3_I on a 64 bit system. -/
def eLength (command : Nat) : Nat := if command = cmdDataB3I ∧ 4 < P.bytes then P.bytes else 0

def sendf (s : SendSt) (command id number : Nat) (format : List Fmt) (args : List Arg) : Option SendSt := do
  let z ← Sizing.pass ⟨12, 12, 0, s.tmpMsg⟩ args format
  let length := z.length
  let s := { s with tmpMsg := z.tmpMsg }
  let dlength := if command = cmdDataB3I then word s.tmpMsg 16 else 0
  let eLength := eLength P command
  if z.level ≠ 0 then pure { s with msgLost := 2 }
  else
    match env.allocBuffer (length + dlength + eLength) with
    | none => pure { s with msgLost := 2 }
    | some m =>
      let s := { s with allocated := s.allocated + 1 }
      let indication := command / 256 % 256 = 0x82
      let number := if indication then s.number else number
      let s := if indication then { s with number := (s.number + 1) % 65536 } else s
      let z ← Writing.pass ⟨header s.applId command number id m, 12, none, 0⟩ args format
      if z.level ≠ 0 then pure { s with msgLost := 2, freed := s.freed + 1 }
      else
        let s := if eLength ≠ 0 then { s with tmpMsg := store s.tmpMsg 12 (leBytes 4 0) } else s
        let m := store z.mem 8 [env.unMapController (z.mem 8)]
        let m := store m 0 (leBytes 2 (length + eLength))
        let m := if command = cmdDataB3I then copyData env length eLength dlength m else m
        pure (s.deliver env (length + dlength + eLength) m)

end SendSt

/-! ## api_parse -/

inductive ParseFmt where
  | b
  | w
  | d
  | s
  | r
  deriving DecidableEq

/-- `API_PARSE`: `info` is counted from `msg`; `length` is written for `s` and `r`. -/
structure ApiParse where
  info : Nat
  length : Option Nat
  deriving DecidableEq

/-- One turn of `api_parse`: the entry and the position behind it, or `none` for `TRUE`. -/
def apiParseOne (msg : Mem) (length p : Nat) : ParseFmt → Option (ApiParse × Nat)
  | .b => some (⟨p, none⟩, (p + 1) % 65536)
  | .w => some (⟨p, none⟩, (p + 2) % 65536)
  | .d => some (⟨p, none⟩, (p + 4) % 65536)
  | .s =>
    if msg p = 0xff then
      if length < p + 2 then none
      else
        let n := word msg (p + 1)
        some (⟨p + 2, some n⟩, (p + n + 3) % 65536)
    else
      let n := (msg p).toNat
      some (⟨p, some n⟩, (p + n + 1) % 65536)
  | .r =>
    let n := (length + 65536 - p) % 65536
    some (⟨p, some n⟩, (p + n) % 65536)

/-- `api_parse` from position `p` on. -/
def apiParseFrom (msg : Mem) (length : Nat) : Nat → List ParseFmt → Option (List ApiParse)
  | _, [] => some []
  | p, f :: fs =>
    match apiParseOne msg length p f with
    | none => none
    | some (parm, p) => if length < p then none else (apiParseFrom msg length p fs).map (parm :: ·)

def apiParse (msg : Mem) (length : Nat) (format : List ParseFmt) : Option (List ApiParse) := apiParseFrom msg length 0 format

end Divas.Capi
