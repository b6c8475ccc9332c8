/-
  Divas.Cfg.Response — the response buffer of the configuration library (cfglib.c).

  `diva_cfg_lib_write` allocates the buffer with the empty string in it,
  `add_string_to_response_buffer` appends to it. When the recorded capacity is reached the
  capacity is raised by one increment, whatever the length of the string, and a block of
  this size is allocated; the capacity stays raised if there is none. `block` is the size
  of the block that `return_data` points to, which the code does not keep.

  Proved: the buffer holds the strings whose calls returned 0 within its block, and a call
  that returns -1 changes nothing, exactly as long as every string has room, with the
  increment where the code takes it, and no allocation fails (`response_buffer`).
-/

import Divas.Lib.Bytes
import Divas.Lib.Run

namespace Divas.Cfg

open Divas.Lib.Bytes Divas.Lib.Run

def maxInitialResponseLength : Nat := 16 * 1024
def responseLengthIncrement : Nat := 4 * 1024

/-- The characters of a string, without the zero behind them. -/
structure CString where
  chars : List UInt8
  nonzero : 0 ∉ chars

structure ResponseBuffer where
  returnData : Mem
  block : Nat
  returnDataLength : Nat
  maxReturnDataLength : Nat

/-- The buffer of `diva_cfg_lib_write`. -/
def openResponse (block : Mem) : ResponseBuffer :=
  ⟨store block 0 [0], maxInitialResponseLength, 1, maxInitialResponseLength⟩

namespace ResponseBuffer

/-- The last two statements: the string with its zero, over the zero that ends the text. -/
def append (s : ResponseBuffer) (p : List UInt8) (length : Nat) : ResponseBuffer :=
  { s with
    returnData := store s.returnData (s.returnDataLength - 1) ((p ++ [0]).take length)
    returnDataLength := (s.returnDataLength + length - 1) % 4294967296 }

/-- The contents go to a larger block. -/
def grow (s : ResponseBuffer) (m : Mem) (capacity : Nat) : ResponseBuffer :=
  { s with
    returnData := store m 0 (load s.returnData 0 s.returnDataLength)
    block := capacity
    maxReturnDataLength := capacity }

/-- `add_string_to_response_buffer`. `malloc` is the block that is allocated, if it is.
    None: the number of bytes to copy, an `int`, is negative. -/
def addString (s : ResponseBuffer) (p : CString) (malloc : Option Mem) : Option (ResponseBuffer × Int) :=
  let length := (p.chars.length + 1) % 4294967296
  let capacity := (s.maxReturnDataLength + responseLengthIncrement) % 4294967296
  if s.maxReturnDataLength ≤ (length + s.returnDataLength) % 4294967296 then
    match malloc with
    | none => some ({ s with maxReturnDataLength := capacity }, -1)
    | some m =>
      if 2147483648 ≤ length then none else some ((s.grow m capacity).append p.chars length, 0)
  else if 2147483648 ≤ length then none
  else some (s.append p.chars length, 0)

/-- The buffer holds a text: with its zero, of the recorded length, and inside the block. -/
structure Holds (s : ResponseBuffer) (text : List UInt8) : Prop where
  content : load s.returnData 0 (text.length + 1) = text ++ [0]
  length : s.returnDataLength = text.length + 1
  inside : s.returnDataLength ≤ s.block

end ResponseBuffer

/-! ## Runs -/

/-- The buffer, and the strings together whose calls returned 0. -/
structure ResponseSt where
  buffer : ResponseBuffer
  text : List UInt8

/-- A call, and the block that is allocated in it, if it is. -/
structure AddCall where
  string : CString
  malloc : Option Mem

namespace ResponseSt

def start (block : Mem) : ResponseSt := ⟨openResponse block, []⟩

def step (s : ResponseSt) (c : AddCall) : ResponseSt :=
  match s.buffer.addString c.string c.malloc with
  | some (buffer, ret) => ⟨buffer, if ret = 0 then s.text ++ c.string.chars else s.text⟩
  | none => s

/-- The call returns, the buffer holds the strings whose calls returned 0, and nothing is
    changed if it returns -1. -/
def Appends (s : ResponseSt) (c : AddCall) : Prop :=
  ∃ buffer ret, s.buffer.addString c.string c.malloc = some (buffer, ret) ∧
    buffer.Holds (s.step c).text ∧ (ret = -1 → buffer = s.buffer)

/-- There is room for the string: in the recorded capacity, or, where this is raised, in
    the raised one, and a block is allocated. -/
def Room (s : ResponseSt) (c : AddCall) : Prop :=
  let max := s.buffer.maxReturnDataLength
  let needed := s.buffer.returnDataLength + c.string.chars.length
  c.string.chars.length + 1 < 2147483648 ∧
    if max ≤ (needed + 1) % 4294967296 then
      c.malloc.isSome = true ∧ needed ≤ (max + responseLengthIncrement) % 4294967296
    else needed ≤ max

/-- What the calls rely on: the recorded capacity is the size of the block. -/
structure Ready (s : ResponseSt) : Prop where
  holds : s.buffer.Holds s.text
  block : s.buffer.block = s.buffer.maxReturnDataLength
  small : s.buffer.maxReturnDataLength < 4294967296

variable {s : ResponseSt} {c : AddCall}

theorem ready_start (block : Mem) : Ready (start block) := by
  refine ⟨⟨?_, rfl, ?_⟩, rfl, ?_⟩
  · exact load_store_self block 0 [0]
  · show 1 ≤ maxInitialResponseLength
    decide
  · show maxInitialResponseLength < 4294967296
    decide

end ResponseSt

namespace ResponseBuffer

variable {s : ResponseBuffer} {text : List UInt8}

/-- The string goes behind the text, if it fits. -/
theorem Holds.append (h : s.Holds text) (p : List UInt8) (hfit : text.length + 1 + p.length ≤ s.block)
    (hblock : s.block < 4294967296) : (s.append p (p.length + 1)).Holds (text ++ p) := by
  have hlen := h.length
  have htake : (p ++ [0]).take (p.length + 1) = p ++ [0] := List.take_of_length_le (by simp)
  have hrest : s.returnDataLength - 1 = text.length := by omega
  have hfront : load s.returnData 0 text.length = text := by
    have hcontent := h.content
    rw [load_add] at hcontent
    exact (List.append_inj hcontent (by simp)).1
  have hnew : (s.returnDataLength + (p.length + 1) - 1) % 4294967296 = text.length + p.length + 1 := by
    rw [Nat.mod_eq_of_lt (by omega)]
    omega
  unfold ResponseBuffer.append
  rw [htake, hrest, hnew]
  refine ⟨?_, ?_, ?_⟩
  · have hback := load_store_self s.returnData text.length (p ++ [0])
    rw [List.length_append, List.length_singleton] at hback
    rw [List.length_append, Nat.add_assoc, load_add, Nat.zero_add, hback, load_store_disjoint _ (by omega), hfront,
      List.append_assoc]
  · simp
  · show text.length + p.length + 1 ≤ s.block
    omega

/-- The text is copied into another block that is large enough. -/
theorem Holds.grow (h : s.Holds text) (m : Mem) {capacity : Nat} (hsize : text.length + 1 ≤ capacity) :
    (s.grow m capacity).Holds text := by
  have hlen := h.length
  refine ⟨?_, hlen, by show s.returnDataLength ≤ capacity; omega⟩
  have hload := load_store_self m 0 (load s.returnData 0 s.returnDataLength)
  rw [load_length] at hload
  show load (store m 0 (load s.returnData 0 s.returnDataLength)) 0 (text.length + 1) = _
  rw [← hlen, hload, hlen]
  exact h.content

theorem addString_eq (s : ResponseBuffer) {p : CString} (malloc : Option Mem) (hint : p.chars.length + 1 < 2147483648) :
    s.addString p malloc =
      if s.maxReturnDataLength ≤ (s.returnDataLength + p.chars.length + 1) % 4294967296 then
        match malloc with
        | none =>
          some ({ s with maxReturnDataLength := (s.maxReturnDataLength + responseLengthIncrement) % 4294967296 }, -1)
        | some m =>
          some ((s.grow m ((s.maxReturnDataLength + responseLengthIncrement) % 4294967296)).append p.chars
            (p.chars.length + 1), 0)
      else some (s.append p.chars (p.chars.length + 1), 0) := by
  have hlength : (p.chars.length + 1) % 4294967296 = p.chars.length + 1 := Nat.mod_eq_of_lt (by omega)
  have hsum : p.chars.length + 1 + s.returnDataLength = s.returnDataLength + p.chars.length + 1 := by omega
  have hpos : ¬ 2147483648 ≤ p.chars.length + 1 := Nat.not_le_of_lt hint
  unfold addString
  simp only [hlength, hsum, hpos, if_false]

end ResponseBuffer

/-! ## A call -/

namespace ResponseSt

variable {s : ResponseSt} {c : AddCall}

theorem step_some {buffer : ResponseBuffer} {ret : Int} (h : s.buffer.addString c.string c.malloc = some (buffer, ret)) :
    s.step c = ⟨buffer, if ret = 0 then s.text ++ c.string.chars else s.text⟩ := by
  unfold step
  rw [h]

/-- The call returned 0 and appended the string. -/
theorem appends_of_holds {buffer : ResponseBuffer} (hadd : s.buffer.addString c.string c.malloc = some (buffer, 0))
    (h : buffer.Holds (s.text ++ c.string.chars)) (hblock : buffer.block = buffer.maxReturnDataLength)
    (hsmall : buffer.maxReturnDataLength < 4294967296) : Appends s c ∧ Ready (s.step c) := by
  have hstep := step_some hadd
  refine ⟨⟨buffer, 0, hadd, ?_, fun h0 => by cases h0⟩, ?_⟩
  · rw [hstep]
    exact h
  · rw [hstep]
    exact ⟨h, hblock, hsmall⟩

/-- With room the text grows by the string, and the block is as large as is recorded. -/
theorem Ready.room (h : Ready s) (hr : Room s c) : Appends s c ∧ Ready (s.step c) := by
  obtain ⟨hint, hroom⟩ := hr
  have hlen := h.holds.length
  have hblock := h.block
  have hsmall := h.small
  have hadd := s.buffer.addString_eq c.malloc hint
  by_cases htest : s.buffer.maxReturnDataLength ≤ (s.buffer.returnDataLength + c.string.chars.length + 1) % 4294967296
  · rw [if_pos htest] at hroom hadd
    obtain ⟨m, hm⟩ := Option.isSome_iff_exists.1 hroom.1
    simp only [hm] at hadd
    have hcap : (s.buffer.maxReturnDataLength + responseLengthIncrement) % 4294967296 < 4294967296 := Nat.mod_lt _ (by decide)
    have hnew := (h.holds.grow m (by omega)).append c.string.chars (by rw [← hlen]; exact hroom.2) hcap
    rw [← hm] at hadd
    exact appends_of_holds hadd hnew rfl hcap
  · rw [if_neg htest] at hroom hadd
    exact appends_of_holds hadd (h.holds.append c.string.chars (by omega) (by omega)) hblock hsmall

/-- The raised capacity differs from the one before. -/
theorem raised_ne {max : Nat} (_ : max < 4294967296) : (max + responseLengthIncrement) % 4294967296 ≠ max := by
  unfold responseLengthIncrement
  omega

/-- A call that does what it should had room. -/
theorem Ready.of_appends (h : Ready s) (ha : Appends s c) : Room s c := by
  obtain ⟨buffer, ret, hadd, hholds, hkept⟩ := ha
  have hlen := h.holds.length
  have hsmall := h.small
  have hblock := h.block
  rw [step_some hadd] at hholds
  have hcap : (s.buffer.maxReturnDataLength + responseLengthIncrement) % 4294967296 < 4294967296 := Nat.mod_lt _ (by decide)
  unfold ResponseBuffer.addString at hadd
  simp only at hadd
  -- A string of 2^32 bytes does not fit into any block, so the length of this one was not cut.
  have hcut : ∀ {b : ResponseBuffer} {n : Nat}, b.block = n → n < 4294967296 → b.Holds (s.text ++ c.string.chars) →
      s.buffer.returnDataLength + c.string.chars.length ≤ n ∧
      (c.string.chars.length + 1) % 4294967296 = c.string.chars.length + 1 := by
    intro b n hb hn hh
    have hl := hh.length
    have hi := hh.inside
    rw [List.length_append] at hl
    refine ⟨by omega, Nat.mod_eq_of_lt (by omega)⟩
  by_cases htest : s.buffer.maxReturnDataLength
    ≤ ((c.string.chars.length + 1) % 4294967296 + s.buffer.returnDataLength) % 4294967296
  · rw [if_pos htest] at hadd
    cases hm : c.malloc with
    | none =>
      simp only [hm, Option.some.injEq, Prod.mk.injEq] at hadd
      rw [hkept hadd.2.symm] at hadd
      have hsame := congrArg ResponseBuffer.maxReturnDataLength hadd.1
      simp only at hsame
      exact absurd hsame (raised_ne hsmall)
    | some m =>
      simp only [hm] at hadd
      split at hadd
      · cases hadd
      · rename_i hint
        rw [Option.some.injEq, Prod.mk.injEq] at hadd
        obtain ⟨rfl, rfl⟩ := hadd
        rw [if_pos rfl] at hholds
        obtain ⟨hfit, hlength⟩ := hcut (b := (s.buffer.grow m _).append _ _) rfl hcap hholds
        rw [hlength] at htest hint
        have hsum : c.string.chars.length + 1 + s.buffer.returnDataLength =
            s.buffer.returnDataLength + c.string.chars.length + 1 := by omega
        rw [hsum] at htest
        refine ⟨by omega, ?_⟩
        rw [if_pos htest]
        exact ⟨by rw [hm]; rfl, hfit⟩
  · rw [if_neg htest] at hadd
    split at hadd
    · cases hadd
    · rename_i hint
      rw [Option.some.injEq, Prod.mk.injEq] at hadd
      obtain ⟨rfl, rfl⟩ := hadd
      rw [if_pos rfl] at hholds
      obtain ⟨hfit, hlength⟩ := hcut (b := s.buffer.append _ _) hblock hsmall hholds
      rw [hlength] at htest hint
      have hsum : c.string.chars.length + 1 + s.buffer.returnDataLength =
          s.buffer.returnDataLength + c.string.chars.length + 1 := by omega
      rw [hsum] at htest
      refine ⟨by omega, ?_⟩
      rw [if_neg htest]
      exact hfit

/-- In every run from `diva_cfg_lib_write` on: every call does what it should if and only
    if every string has room and no allocation fails. -/
theorem response_buffer (block : Mem) (cs : List AddCall) :
    Along step Appends (start block) cs ↔ Along step Room (start block) cs := by
  have hrun : ∀ s : ResponseSt, Ready s → (Along step Appends s cs ↔ Along step Room s cs) := by
    induction cs with
    | nil => exact fun s _ => Iff.rfl
    | cons c cs ih =>
      intro s h
      constructor
      · intro hall
        have hroom := h.of_appends hall.1
        exact ⟨hroom, (ih _ (h.room hroom).2).1 hall.2⟩
      · intro hall
        have hnext := h.room hall.1
        exact ⟨hnext.1, (ih _ hnext.2).2 hall.2⟩
  exact hrun _ (ready_start block)

/-- A string of 20480 characters. -/
def longString : CString := ⟨List.replicate 20480 65, fun h => absurd (List.eq_of_mem_replicate h) (by decide)⟩

theorem longString_length : longString.chars.length = 20480 := List.length_replicate

/-- It does not fit into the block of 20480 bytes that is allocated for it, and without a
    block the capacity stays raised. -/
theorem response_buffer_grows : ¬ Appends (start fun _ => 0) ⟨longString, some fun _ => 0⟩ ∧
    ∃ buffer, (start fun _ => 0).buffer.addString longString none = some (buffer, -1) ∧ buffer.maxReturnDataLength = 20480 := by
  constructor
  · intro h
    have hroom : Room (start fun _ => 0) ⟨longString, some fun _ => 0⟩ := (ready_start fun _ => 0).of_appends h
    unfold Room at hroom
    simp only [longString_length] at hroom
    revert hroom
    decide
  · have hlen : longString.chars.length + 1 < 2147483648 := by
      rw [longString_length]
      decide
    rw [ResponseBuffer.addString_eq _ _ hlen, longString_length]
    exact ⟨_, rfl, rfl⟩

end ResponseSt

end Divas.Cfg
