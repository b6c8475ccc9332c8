/-
  Divas.Capi.DtmfIndication — received digits and tones (`dtmf_indication`, message.c).

  The codes of an indication are translated in the buffer they came in, through a map of the
  digits and tones that are listened for. A tone that starts is two characters, so that the
  output can reach the code being read: then the rest of the buffer moves up by one.

  Proved: the application gets the translation of the codes, read once and in order, in a
  string with the right length, and nothing is written at twice the length of the indication or
  later, if and only if the translation has at most 255 characters (`dtmf_indication_translates`).
  The length of the string is one byte: of 256 digits nothing is left (`dtmf_indication_cuts`).
-/

import Divas.Lib.Bytes
import Mathlib.Logic.Function.Basic

namespace Divas.Capi

open Divas.Lib.Bytes

/-! ## The map -/

structure DtmfDigit where
  sendMask : UInt16
  listenMask : UInt16
  character : UInt8
  code : UInt8

/-- `dtmf_digit_map`, with the values of the codes. -/
def dtmfDigitMap : List DtmfDigit :=
  [
    ⟨0x11, 0x1b, 0x23, 0x0b⟩, ⟨0x11, 0x1b, 0x2a, 0x03⟩, ⟨0x11, 0x1b, 0x30, 0x07⟩, ⟨0x11, 0x1b, 0x31, 0x00⟩,
    ⟨0x11, 0x1b, 0x32, 0x04⟩, ⟨0x11, 0x1b, 0x33, 0x08⟩, ⟨0x11, 0x1b, 0x34, 0x01⟩, ⟨0x11, 0x1b, 0x35, 0x05⟩,
    ⟨0x11, 0x1b, 0x36, 0x09⟩, ⟨0x11, 0x1b, 0x37, 0x02⟩, ⟨0x11, 0x1b, 0x38, 0x06⟩, ⟨0x11, 0x1b, 0x39, 0x0a⟩,
    ⟨0x11, 0x1b, 0x41, 0x0c⟩, ⟨0x11, 0x1b, 0x42, 0x0d⟩, ⟨0x11, 0x1b, 0x43, 0x0e⟩, ⟨0x11, 0x1b, 0x44, 0x0f⟩,
    ⟨0x11, 0x00, 0x61, 0x0c⟩, ⟨0x11, 0x00, 0x62, 0x0d⟩, ⟨0x11, 0x00, 0x63, 0x0e⟩, ⟨0x11, 0x00, 0x64, 0x0f⟩,
    ⟨0x00, 0x0a, 0x7e, 0x7f⟩, ⟨0x20, 0x20, 0x80, 0x80⟩, ⟨0x00, 0x20, 0x81, 0x81⟩, ⟨0x20, 0x20, 0x82, 0x82⟩,
    ⟨0x20, 0x20, 0x83, 0x83⟩, ⟨0x20, 0x20, 0x84, 0x84⟩, ⟨0x20, 0x20, 0x85, 0x85⟩, ⟨0x20, 0x20, 0x86, 0x86⟩,
    ⟨0x20, 0x20, 0x87, 0x87⟩, ⟨0x20, 0x20, 0x88, 0x88⟩, ⟨0x20, 0x20, 0x89, 0x89⟩, ⟨0x20, 0x20, 0x8a, 0x8a⟩,
    ⟨0x20, 0x20, 0x8b, 0x8b⟩, ⟨0x20, 0x20, 0x8c, 0x8c⟩, ⟨0x20, 0x20, 0x8d, 0x8d⟩, ⟨0x20, 0x20, 0x8e, 0x8e⟩,
    ⟨0x20, 0x20, 0x8f, 0x8f⟩, ⟨0x20, 0x20, 0x90, 0x90⟩, ⟨0x20, 0x20, 0x91, 0x91⟩, ⟨0x20, 0x20, 0x92, 0x92⟩,
    ⟨0x20, 0x20, 0x93, 0x93⟩, ⟨0x20, 0x20, 0x94, 0x94⟩, ⟨0x20, 0x20, 0x95, 0x95⟩, ⟨0x20, 0x20, 0x96, 0x96⟩,
    ⟨0x20, 0x20, 0x97, 0x97⟩, ⟨0x20, 0x20, 0x98, 0x98⟩, ⟨0x20, 0x20, 0xa0, 0xa0⟩, ⟨0x20, 0x20, 0xa1, 0xa1⟩,
    ⟨0x20, 0x20, 0xa2, 0xa2⟩, ⟨0x20, 0x20, 0xa3, 0xa3⟩, ⟨0x20, 0x20, 0xa4, 0xa4⟩, ⟨0x20, 0x20, 0xa5, 0xa5⟩,
    ⟨0x20, 0x20, 0xa6, 0xa6⟩, ⟨0x20, 0x20, 0xa7, 0xa7⟩, ⟨0x20, 0x20, 0xbf, 0xbf⟩, ⟨0x20, 0x20, 0xc0, 0xc0⟩,
    ⟨0x20, 0x20, 0xc1, 0xc1⟩, ⟨0x20, 0x20, 0xc2, 0xc2⟩, ⟨0x20, 0x20, 0xc3, 0xc3⟩, ⟨0x20, 0x20, 0xc4, 0xc4⟩,
    ⟨0x20, 0x20, 0xc5, 0xc5⟩, ⟨0x20, 0x20, 0xc6, 0xc6⟩, ⟨0x20, 0x20, 0xc7, 0xc7⟩, ⟨0x20, 0x20, 0xc8, 0xc8⟩,
    ⟨0x00, 0x20, 0xc9, 0xc9⟩, ⟨0x20, 0x20, 0xca, 0xca⟩, ⟨0x20, 0x20, 0xcb, 0xcb⟩, ⟨0x00, 0x40, 0xe0, 0x40⟩,
    ⟨0x00, 0x40, 0xe1, 0x41⟩, ⟨0x00, 0x40, 0xe2, 0x42⟩, ⟨0x00, 0x40, 0xe3, 0x43⟩, ⟨0x00, 0x40, 0xe4, 0x44⟩,
    ⟨0x00, 0x40, 0xe5, 0x45⟩, ⟨0x00, 0x40, 0xe6, 0x46⟩, ⟨0x00, 0x40, 0xe7, 0x47⟩, ⟨0x00, 0x40, 0xe8, 0x48⟩,
    ⟨0x00, 0x40, 0xe9, 0x49⟩, ⟨0x00, 0x40, 0xea, 0x4a⟩, ⟨0x00, 0x40, 0xeb, 0x4b⟩, ⟨0x00, 0x40, 0xec, 0x4c⟩,
    ⟨0x00, 0x40, 0xed, 0x4d⟩, ⟨0x00, 0x40, 0xee, 0x4e⟩, ⟨0x00, 0x40, 0xef, 0x4f⟩, ⟨0x80, 0x80, 0xf0, 0x1f⟩,
    ⟨0x80, 0x80, 0xf1, 0x10⟩, ⟨0x80, 0x80, 0xf2, 0x11⟩, ⟨0x80, 0x80, 0xf3, 0x12⟩, ⟨0x80, 0x80, 0xf4, 0x13⟩,
    ⟨0x80, 0x80, 0xf5, 0x14⟩, ⟨0x80, 0x80, 0xf6, 0x15⟩, ⟨0x80, 0x80, 0xf7, 0x16⟩, ⟨0x80, 0x80, 0xf8, 0x17⟩,
    ⟨0x80, 0x80, 0xf9, 0x18⟩, ⟨0x80, 0x80, 0xfa, 0x19⟩, ⟨0x80, 0x80, 0xfb, 0x1a⟩, ⟨0x80, 0x80, 0xfc, 0x1b⟩,
    ⟨0x80, 0x80, 0xfd, 0x1c⟩, ⟨0x80, 0x80, 0xfe, 0x1d⟩, ⟨0x80, 0x80, 0xff, 0x1e⟩, ⟨0x04, 0x04, 0x10, 0xf0⟩,
    ⟨0x04, 0x04, 0x11, 0xf1⟩, ⟨0x04, 0x04, 0x12, 0xf2⟩, ⟨0x04, 0x04, 0x13, 0xf3⟩, ⟨0x04, 0x04, 0x14, 0xf4⟩,
    ⟨0x04, 0x04, 0x15, 0xf5⟩, ⟨0x04, 0x04, 0x16, 0xf6⟩, ⟨0x04, 0x04, 0x17, 0xf7⟩, ⟨0x04, 0x04, 0x18, 0xf8⟩,
    ⟨0x04, 0x04, 0x19, 0xf9⟩, ⟨0x04, 0x04, 0x1a, 0xfa⟩, ⟨0x04, 0x04, 0x1b, 0xfb⟩, ⟨0x04, 0x04, 0x1c, 0xfc⟩,
    ⟨0x04, 0x04, 0x1d, 0xfd⟩, ⟨0x04, 0x04, 0x1e, 0xfe⟩, ⟨0x04, 0x04, 0x1f, 0xff⟩, ⟨0x00, 0x1b, 0x23, 0x4b⟩,
    ⟨0x00, 0x1b, 0x2a, 0x4a⟩, ⟨0x00, 0x1b, 0x30, 0x49⟩, ⟨0x00, 0x1b, 0x31, 0x40⟩, ⟨0x00, 0x1b, 0x32, 0x41⟩,
    ⟨0x00, 0x1b, 0x33, 0x42⟩, ⟨0x00, 0x1b, 0x34, 0x43⟩, ⟨0x00, 0x1b, 0x35, 0x44⟩, ⟨0x00, 0x1b, 0x36, 0x45⟩,
    ⟨0x00, 0x1b, 0x37, 0x46⟩, ⟨0x00, 0x1b, 0x38, 0x47⟩, ⟨0x00, 0x1b, 0x39, 0x48⟩, ⟨0x00, 0x1b, 0x41, 0x4c⟩,
    ⟨0x00, 0x1b, 0x42, 0x4d⟩, ⟨0x00, 0x1b, 0x43, 0x4e⟩, ⟨0x00, 0x1b, 0x44, 0x4f⟩]

def dtmfToneListenActiveFlag : UInt16 := 0x0020
def dtmfDigitToneCodeNone : UInt8 := 0x7f
def dtmfMfDigitToneCode1 : UInt8 := 0x10
def dtmfMfDigitToneCodeNone : UInt8 := 0x1f
def dtmfSignalNoTone : UInt8 := 0x80
def dtmfSignalUnidentifiedTone : UInt8 := 0x81

/-- `INTERNAL_IND_BUFFER_SIZE`, the longest indication that the entity is offered a buffer for. -/
def internalIndBufferSize : Nat := 768

/-! ## The translation in the buffer -/

structure DtmfPlci where
  dtmfRecActive : UInt16
  dtmfPendingDtmfDigitCode : UInt8
  dtmfPendingMfDigitCode : UInt8
  toneLastIndicationCode : UInt8

namespace DtmfPlci

def noteDigit (p : DtmfPlci) (c : UInt8) : DtmfPlci :=
  { p with
    dtmfPendingDtmfDigitCode := if c < 0x10 ∨ c = dtmfDigitToneCodeNone then c else p.dtmfPendingDtmfDigitCode
    dtmfPendingMfDigitCode := if dtmfMfDigitToneCode1 ≤ c ∧ c ≤ dtmfMfDigitToneCodeNone then c else p.dtmfPendingMfDigitCode }

/-- The first entry of the map with the code that is listened for. -/
def entry (p : DtmfPlci) (c : UInt8) : Option DtmfDigit :=
  dtmfDigitMap.find? fun e => c == e.code && e.listenMask &&& p.dtmfRecActive != 0

/-- A tone other than `DTMF_SIGNAL_UNIDENTIFIED_TONE` after none. -/
def StartsTone (p : DtmfPlci) (e : DtmfDigit) : Prop :=
  e.listenMask &&& dtmfToneListenActiveFlag ≠ 0 ∧ p.toneLastIndicationCode = dtmfSignalNoTone ∧
    e.character ≠ dtmfSignalUnidentifiedTone

instance (p : DtmfPlci) (e : DtmfDigit) : Decidable (p.StartsTone e) := inferInstanceAs (Decidable (_ ∧ _ ∧ _))

end DtmfPlci

/-- `for (i = length; i > n + 1; i--) msg[i] = msg[i - 1]` from `i` on. -/
def shiftUp (n : Nat) : Nat → Mem → Mem
  | 0, msg => msg
  | i + 1, msg => if n + 1 < i + 1 then shiftUp n i (Function.update msg (i + 1) (msg i)) else msg

structure DtmfLoop where
  plci : DtmfPlci
  msg : Mem
  i : Nat
  n : Nat
  length : Nat

namespace DtmfLoop

/-- The rest of the buffer moves up if the output has reached the code being read; the inner
    loop ends at `n + 1`. -/
def makeRoom (s : DtmfLoop) : DtmfLoop :=
  if s.n + 1 = s.i then
    { s with msg := shiftUp s.n s.length s.msg, i := (s.n + 1 + 1) % 65536, length := (s.length + 1) % 65536 }
  else s

/-- `msg[++n] = character`. -/
def put (s : DtmfLoop) (character : UInt8) : DtmfLoop :=
  { s with msg := Function.update s.msg ((s.n + 1) % 65536) character, n := (s.n + 1) % 65536 }

/-- The characters of an entry. -/
def report (s : DtmfLoop) (e : DtmfDigit) : DtmfLoop :=
  let s := if s.plci.StartsTone e then s.makeRoom.put dtmfSignalUnidentifiedTone else s
  { s with plci := { s.plci with toneLastIndicationCode := e.character } }.put e.character

/-- A turn of the loop. -/
def turn (s : DtmfLoop) : DtmfLoop :=
  let c := s.msg s.i
  let s := { s with plci := s.plci.noteDigit c }
  let s := match s.plci.entry c with
    | none => s
    | some e => s.report e
  { s with i := (s.i + 1) % 65536 }

/-- At most `turns` turns. -/
def loop : Nat → DtmfLoop → Option DtmfLoop
  | 0, _ => none
  | turns + 1, s => if s.i < s.length then loop turns s.turn else some s

end DtmfLoop

/-- `dtmf_indication`: the PLCI, the buffer, and the string that the application gets. -/
def dtmfIndication (turns : Nat) (p : DtmfPlci) (msg : Mem) (length : Nat) : Option (DtmfPlci × Mem × Option (List UInt8)) :=
  (DtmfLoop.loop turns ⟨p, msg, 1, 0, length⟩).map fun s =>
    if s.n ≠ 0 then
      let msg := Function.update s.msg 0 (UInt8.ofNat s.n)
      (s.plci, msg, some (load msg 0 ((msg 0).toNat + 1)))
    else (s.plci, s.msg, none)

/-! ## The translation of the codes -/

namespace DtmfPlci

/-- The characters of a code. -/
def chars (p : DtmfPlci) (c : UInt8) : List UInt8 :=
  match p.entry c with
  | none => []
  | some e => if p.StartsTone e then [dtmfSignalUnidentifiedTone, e.character] else [e.character]

/-- The PLCI behind a code. -/
def after (p : DtmfPlci) (c : UInt8) : DtmfPlci :=
  match p.entry c with
  | none => p.noteDigit c
  | some e => { p.noteDigit c with toneLastIndicationCode := e.character }

def translate : DtmfPlci → List UInt8 → List UInt8
  | _, [] => []
  | p, c :: cs => p.chars c ++ translate (p.after c) cs

end DtmfPlci

/-- The application gets `out`, and nothing if it is empty. -/
def Reports (out : List UInt8) : Option (List UInt8) → Prop
  | none => out = []
  | some s => out ≠ [] ∧ ∃ length : UInt8, s = length :: out ∧ length.toNat = out.length

/-- The codes behind the first byte are translated, and nothing is written at twice the length or later. -/
def Translates (p : DtmfPlci) (msg : Mem) (length : Nat) : Prop :=
  ∃ turns p' msg' indication, dtmfIndication turns p msg length = some (p', msg', indication) ∧
    Reports (p.translate (load msg 1 (length - 1))) indication ∧
    p' = (load msg 1 (length - 1)).foldl DtmfPlci.after p ∧ ∀ q, 2 * length ≤ q → msg' q = msg q

section Loop

theorem shiftUp_eq (n i : Nat) (m : Mem) : shiftUp n i m = fun p => if n + 1 < p ∧ p ≤ i then m (p - 1) else m p := by
  induction i generalizing m with
  | zero =>
    funext p
    rw [if_neg (by omega)]
    rfl
  | succ i ih =>
    unfold shiftUp
    by_cases h : n + 1 < i + 1
    · rw [if_pos h, ih]
      funext p
      by_cases hp : p = i + 1
      · subst hp
        rw [if_neg (by omega), if_pos (by omega), Function.update_self, Nat.add_sub_cancel]
      · rw [Function.update_of_ne hp]
        by_cases hin : n + 1 < p ∧ p ≤ i
        · rw [if_pos hin, if_pos (by omega), Function.update_of_ne (by omega)]
        · rw [if_neg hin, if_neg (by omega)]
    · rw [if_neg h]
      funext p
      rw [if_neg (by omega)]

/-- What a turn reads is one code, and what it writes are `out` behind the output, in front of what is not read. -/
structure Turned (s t : DtmfLoop) (out : List UInt8) : Prop where
  n : t.n = s.n + out.length
  output : load t.msg 1 t.n = load s.msg 1 s.n ++ out
  behind : t.n + 1 ≤ t.i
  left : t.i + s.length = t.length + s.i + 1
  grows : t.length ≤ s.length + 1
  unread : ∀ k, s.i + 1 + k < s.length → t.msg (t.i + k) = s.msg (s.i + 1 + k)
  outside : ∀ q, s.length + 1 ≤ q → t.msg q = s.msg q

theorem load_snoc {m : Mem} {n : Nat} {c : UInt8} : load (Function.update m (n + 1) c) 1 (n + 1) = load m 1 n ++ [c] := by
  rw [load_add, load_one, Nat.add_comm 1 n, Function.update_self]
  congr 1
  apply load_congr
  intro k hk
  rw [Function.update_of_ne (by omega)]

namespace DtmfLoop

variable {s : DtmfLoop}

theorem put_eq {c : UInt8} (h : s.n + 1 < 65536) :
    s.put c = { s with msg := Function.update s.msg (s.n + 1) c, n := s.n + 1 } := by
  unfold put
  rw [Nat.mod_eq_of_lt h]

theorem put_two {b c : UInt8} {p : DtmfPlci} (h : s.n + 2 < 65536) :
    ({ s.put b with plci := p } : DtmfLoop).put c =
      { s with plci := p, msg := Function.update (Function.update s.msg (s.n + 1) b) (s.n + 1 + 1) c, n := s.n + 1 + 1 } := by
  rw [put_eq (s := s) (by omega), put_eq (by dsimp only; omega)]

theorem makeRoom_eq (h : s.n + 1 ≤ s.i) (hi : s.i < s.length) (hl : s.length + 1 < 65536) :
    (s.n + 1 < s.i ∧ s.makeRoom = s) ∨
      s.n + 1 = s.i ∧ s.makeRoom =
        { s with msg := fun p => if s.i < p ∧ p ≤ s.length then s.msg (p - 1)
          else s.msg p, i := s.i + 1, length := s.length + 1 } := by
  unfold makeRoom
  by_cases hn : s.n + 1 = s.i
  · refine Or.inr ⟨hn, ?_⟩
    rw [if_pos hn, shiftUp_eq, hn, Nat.mod_eq_of_lt (by omega), Nat.mod_eq_of_lt (by omega)]
  · refine Or.inl ⟨by omega, ?_⟩
    rw [if_neg hn]

end DtmfLoop

/-- A turn without a character. -/
theorem Turned.none {s : DtmfLoop} {p : DtmfPlci} (h : s.n + 1 ≤ s.i) : Turned s { s with plci := p, i := s.i + 1 } [] where
  n := rfl
  output := (List.append_nil _).symm
  behind := by dsimp only; omega
  left := by dsimp only; omega
  grows := by dsimp only; omega
  unread _ _ := rfl
  outside _ _ := rfl

/-- A turn with one character. -/
theorem Turned.one {s : DtmfLoop} {p : DtmfPlci} {c : UInt8} (h : s.n + 1 ≤ s.i) (hi : s.i < s.length) :
    Turned s { s with plci := p, msg := Function.update s.msg (s.n + 1) c, n := s.n + 1, i := s.i + 1 } [c] where
  n := rfl
  output := load_snoc
  behind := by dsimp only; omega
  left := by dsimp only; omega
  grows := by dsimp only; omega
  unread k _ := by
    dsimp only
    rw [Function.update_of_ne (by omega)]
  outside q hq := by
    dsimp only
    rw [Function.update_of_ne (by omega)]

/-- Two characters, with room for both. -/
theorem Turned.two {s : DtmfLoop} {p : DtmfPlci} {b c : UInt8} (h : s.n + 1 < s.i) (hi : s.i < s.length) :
    Turned s
      { s with
        plci := p
        msg := Function.update (Function.update s.msg (s.n + 1) b) (s.n + 1 + 1) c
        n := s.n + 1 + 1
        i := s.i + 1 }
      [b, c] where
  n := rfl
  output := by
    rw [load_snoc, load_snoc, List.append_assoc]
    rfl
  behind := by dsimp only; omega
  left := by dsimp only; omega
  grows := by dsimp only; omega
  unread k _ := by
    dsimp only
    rw [Function.update_of_ne (by omega), Function.update_of_ne (by omega)]
  outside q hq := by
    dsimp only
    rw [Function.update_of_ne (by omega), Function.update_of_ne (by omega)]

/-- Two characters, and the rest of the buffer has moved up. -/
theorem Turned.moved {s : DtmfLoop} {p : DtmfPlci} {b c : UInt8} (h : s.n + 1 = s.i) (hi : s.i < s.length) :
    Turned s
      ⟨p, Function.update (Function.update (fun p => if s.i < p ∧ p ≤ s.length then s.msg (p - 1) else s.msg p) (s.n + 1) b)
        (s.n + 1 + 1) c,
        s.i + 1 + 1, s.n + 1 + 1, s.length + 1⟩
      [b, c] where
  n := rfl
  output := by
    rw [load_snoc, load_snoc, List.append_assoc]
    congr 1
    apply load_congr
    intro k hk
    rw [if_neg (by omega)]
  behind := by dsimp only; omega
  left := by dsimp only; omega
  grows := by dsimp only; omega
  unread k hk := by
    dsimp only
    rw [Function.update_of_ne (by omega), Function.update_of_ne (by omega), if_pos (by omega)]
    congr 1
    omega
  outside q hq := by
    dsimp only
    rw [Function.update_of_ne (by omega), Function.update_of_ne (by omega), if_neg (by omega)]

/-- A turn translates the code that it reads. -/
theorem DtmfLoop.turn_spec {s : DtmfLoop} (h : s.n + 1 ≤ s.i) (hi : s.i < s.length) (hl : s.length + 2 < 65536) :
    Turned s s.turn (s.plci.chars (s.msg s.i)) ∧ s.turn.plci = s.plci.after (s.msg s.i) := by
  have hentry : ∀ c, (s.plci.noteDigit c).entry c = s.plci.entry c := fun _ => rfl
  unfold turn DtmfPlci.chars DtmfPlci.after
  dsimp only
  rw [hentry]
  cases he : s.plci.entry (s.msg s.i) with
  | none =>
    dsimp only
    rw [Nat.mod_eq_of_lt (by omega)]
    exact ⟨Turned.none h, rfl⟩
  | some e =>
    have hstarts : (s.plci.noteDigit (s.msg s.i)).StartsTone e ↔ s.plci.StartsTone e := Iff.rfl
    unfold report
    dsimp only
    by_cases hs : s.plci.StartsTone e
    · rw [if_pos (hstarts.mpr hs), if_pos hs]
      rcases makeRoom_eq (s := { s with plci := s.plci.noteDigit (s.msg s.i) }) h hi (by dsimp only; omega)
        with ⟨hroom, heq⟩ | ⟨hroom, heq⟩
      · rw [heq, put_two (by dsimp only; omega)]
        dsimp only
        rw [Nat.mod_eq_of_lt (by omega)]
        exact ⟨Turned.two hroom hi, rfl⟩
      · rw [heq, put_two (by dsimp only; omega)]
        dsimp only
        rw [Nat.mod_eq_of_lt (by omega)]
        exact ⟨Turned.moved hroom hi, rfl⟩
    · rw [if_neg (fun h => hs (hstarts.mp h)), if_neg hs, put_eq (by dsimp only; omega)]
      dsimp only
      rw [Nat.mod_eq_of_lt (by omega)]
      exact ⟨Turned.one h hi, rfl⟩

/-- The codes that are left are translated behind the output. -/
theorem DtmfLoop.loop_spec (cs : List UInt8) : ∀ (turns : Nat) {s : DtmfLoop}, s.n + 1 ≤ s.i → s.length - s.i = cs.length →
    load s.msg s.i cs.length = cs → s.length + cs.length + 1 < 65536 → cs.length < turns →
    ∃ t, loop turns s = some t ∧ t.plci = cs.foldl DtmfPlci.after s.plci ∧ t.n = s.n + (s.plci.translate cs).length ∧
      load t.msg 1 t.n = load s.msg 1 s.n ++ s.plci.translate cs ∧ ∀ q, s.length + cs.length ≤ q → t.msg q = s.msg q := by
  induction cs with
  | nil =>
    intro turns s h hi hcs hl ht
    obtain ⟨turns, rfl⟩ : ∃ k, turns = k + 1 := ⟨turns - 1, by omega⟩
    rw [List.length_nil] at hi
    refine ⟨s, ?_, rfl, rfl, (List.append_nil _).symm, fun _ _ => rfl⟩
    rw [loop, if_neg (by omega)]
  | cons c cs ih =>
    intro turns s h hi hcs hl ht
    rw [List.length_cons] at hi hcs hl ht
    obtain ⟨turns, rfl⟩ : ∃ k, turns = k + 1 := ⟨turns - 1, by omega⟩
    rw [load_succ, List.cons.injEq] at hcs
    obtain ⟨hc, hcs⟩ := hcs
    obtain ⟨hturn, hplci⟩ := turn_spec h (by omega) (by omega)
    rw [hc] at hturn hplci
    have hunread : load s.turn.msg s.turn.i cs.length = cs := by
      rw [← hcs]
      simp only [load_length]
      exact load_congr fun k hk => hturn.unread k (by omega)
    have hgrows := hturn.grows
    have hleft := hturn.left
    obtain ⟨t, hloop, hfinal, hn, hout, houtside⟩ := ih turns hturn.behind (by omega) hunread (by omega) (by omega)
    refine ⟨t, ?_, ?_, ?_, ?_, ?_⟩
    · rw [loop, if_pos (by omega), hloop]
    · rw [hfinal, hplci, List.foldl_cons]
    · rw [hn, hturn.n, hplci, DtmfPlci.translate, List.length_append, Nat.add_assoc]
    · rw [hout, hturn.output, hplci, DtmfPlci.translate, List.append_assoc]
    · intro q hq
      rw [List.length_cons] at hq
      rw [houtside q (by omega), hturn.outside q (by omega)]

/-- The end of the loop over an indication: the output is `out`. -/
theorem loop_indication (p : DtmfPlci) (msg : Mem) {length : Nat} (hl : length ≤ internalIndBufferSize) :
    ∃ t, DtmfLoop.loop (length + 1) ⟨p, msg, 1, 0, length⟩ = some t ∧ t.plci = (load msg 1 (length - 1)).foldl DtmfPlci.after p ∧
      t.n = (p.translate (load msg 1 (length - 1))).length ∧ load t.msg 1 t.n = p.translate (load msg 1 (length - 1)) ∧
      ∀ q, 2 * length ≤ q → t.msg q = msg q := by
  have hm : internalIndBufferSize = 768 := rfl
  have hcs : (load msg 1 (length - 1)).length = length - 1 := load_length ..
  obtain ⟨t, hloop, hplci, hn, hout, houtside⟩ :=
    DtmfLoop.loop_spec (load msg 1 (length - 1)) (length + 1) (s := ⟨p, msg, 1, 0, length⟩)
    (Nat.le_refl 1) hcs.symm (by rw [hcs]) (by dsimp only; omega) (by omega)
  refine ⟨t, hloop, hplci, ?_, hout, ?_⟩
  · rw [hn]
    exact Nat.zero_add _
  · intro q hq
    exact houtside q (by dsimp only; omega)

theorem translates_of_le {p : DtmfPlci} {msg : Mem} {length : Nat} (hl : length ≤ internalIndBufferSize)
    (h : (p.translate (load msg 1 (length - 1))).length ≤ 255) : Translates p msg length := by
  obtain ⟨t, hloop, hplci, hn, hout, houtside⟩ := loop_indication p msg hl
  have hpos : t.n ≠ 0 → 0 < length := by
    rw [hn]
    intro h
    apply Nat.pos_of_ne_zero
    rintro rfl
    exact h rfl
  unfold Translates dtmfIndication
  generalize p.translate (load msg 1 (length - 1)) = out at *
  by_cases h0 : t.n = 0
  · refine ⟨length + 1, t.plci, t.msg, none, ?_, ?_, hplci, houtside⟩
    · rw [hloop, Option.map_some, if_neg (not_not.mpr h0)]
    · exact List.eq_nil_of_length_eq_zero (by omega)
  · have hlen : (UInt8.ofNat t.n).toNat = out.length := by
      rw [UInt8.toNat_ofNat', hn]
      exact Nat.mod_eq_of_lt (by omega)
    have hstring : load (Function.update t.msg 0 (UInt8.ofNat t.n)) 0 ((UInt8.ofNat t.n).toNat + 1) = UInt8.ofNat t.n :: out := by
      rw [load_succ, Function.update_self, hlen, ← hn]
      congr 1
      refine Eq.trans ?_ hout
      apply load_congr
      intro k hk
      rw [Function.update_of_ne (by omega)]
    refine ⟨length + 1, t.plci, Function.update t.msg 0 (UInt8.ofNat t.n), some (UInt8.ofNat t.n :: out), ?_,
      ⟨?_, _, rfl, hlen⟩, hplci, ?_⟩
    · rw [hloop, Option.map_some, if_pos h0]
      dsimp only
      rw [Function.update_self, hstring]
    · exact List.ne_nil_of_length_pos (by omega)
    · intro q hq
      have := hpos h0
      rw [Function.update_of_ne (by omega), houtside q hq]

theorem le_of_translates {p : DtmfPlci} {msg : Mem} {length : Nat} (h : Translates p msg length) :
    (p.translate (load msg 1 (length - 1))).length ≤ 255 := by
  obtain ⟨-, -, -, indication, -, hreports, -, -⟩ := h
  cases indication with
  | none =>
    have hnil : p.translate (load msg 1 (length - 1)) = [] := hreports
    rw [hnil]
    exact Nat.zero_le _
  | some s =>
    obtain ⟨-, l, -, hlen⟩ := hreports
    have := l.toNat_lt
    omega

end Loop

/-- An indication is translated if and only if the translation has at most 255 characters. -/
theorem dtmf_indication_translates (p : DtmfPlci) (msg : Mem) (length : Nat) (hl : length ≤ internalIndBufferSize) :
    Translates p msg length ↔ (p.translate (load msg 1 (length - 1))).length ≤ 255 := by
  constructor
  · exact le_of_translates
  · exact translates_of_le hl

/-- A dial tone behind no tone, and a digit. -/
theorem dtmf_indication_translates_tone :
    Translates ⟨0x0021, 0, 0, dtmfSignalNoTone⟩ (fun i => [0, 0x82, 0x00].getD i 0) 3 :=
  (dtmf_indication_translates _ _ 3 (by decide)).mpr (by decide)

/-- 256 times the digit 1. -/
theorem dtmf_indication_cuts :
    ¬ (∀ (p : DtmfPlci) (msg : Mem) (length : Nat), length ≤ internalIndBufferSize → Translates p msg length) := by
  intro h
  have hle := le_of_translates (h ⟨0x0001, 0, 0, dtmfSignalNoTone⟩ (fun _ => 0) 257 (by decide))
  exact absurd hle (by decide +kernel)

end Divas.Capi
