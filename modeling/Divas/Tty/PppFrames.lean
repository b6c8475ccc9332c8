/-
  Divas.Tty.PppFrames — PPP frames over the buffers of `pppExplode` and the pieces of `pppImplode`.

  `wire` is what a frame becomes on the stream. Proved: `pppExplode` puts exactly that into its
  buffers when the checksum comes into the buffer in which the frame ends, and otherwise never
  leaves `EXP_CHECK` (`explode_finishes`); `pppImplode` delivers the frame once from every cut of
  it in which no piece ends in an escape, and reads behind the piece otherwise
  (`Before.delivers_flag`). Together: `framing_round_trip`.
-/

import Divas.Tty.Ppp

namespace Divas.Tty.Ppp

open Divas.Lib.Escapes

/-! ## The wire -/

/-- Bytes as `explode` puts them on the stream. -/
def stuffed (accm : UInt32) (bs : List UInt8) : List UInt8 := escaped 0x7d (fun c => c ^^^ 0x20) (mustEscape accm) bs

/-- A frame and its checksum between two flags. -/
def wire (accm : UInt32) (frame : List UInt8) : List UInt8 :=
  0x7e :: (stuffed accm (frame ++ checksumOf frame) ++ [0x7e])

def cost (accm : UInt32) (c : UInt8) : Nat := if mustEscape accm c then 2 else 1

theorem stuffed_append (accm : UInt32) (as bs : List UInt8) : stuffed accm (as ++ bs) = stuffed accm as ++ stuffed accm bs :=
  escaped_append as bs

@[simp] theorem stuffed_nil (accm : UInt32) : stuffed accm [] = [] := rfl

theorem stuffed_cons (accm : UInt32) (c : UInt8) (bs : List UInt8) :
    stuffed accm (c :: bs) = (if mustEscape accm c then [0x7d, c ^^^ 0x20] else [c]) ++ stuffed accm bs := rfl

theorem length_stuffed_cons (accm : UInt32) (c : UInt8) (bs : List UInt8) :
    (stuffed accm (c :: bs)).length = cost accm c + (stuffed accm bs).length := by
  unfold cost
  rw [stuffed_cons, List.length_append]
  split <;> rfl

theorem cost_le (accm : UInt32) (c : UInt8) : cost accm c ≤ 2 := by
  unfold cost
  split <;> omega

/-- What is escaped is special or a control character; its toggled form is neither. -/
theorem toggled_facts : ∀ n < 256, (special.contains (UInt8.ofNat n) || decide (UInt8.ofNat n < 0x20)) = true →
    (UInt8.ofNat n ^^^ 0x20) ≠ 0x7d ∧ (UInt8.ofNat n ^^^ 0x20) ≠ 0x7e ∧ ¬(UInt8.ofNat n ^^^ 0x20) < 0x20 := by
  decide +kernel

theorem toggled {accm : UInt32} {c : UInt8} (h : mustEscape accm c = true) :
    (c ^^^ 0x20) ≠ 0x7d ∧ (c ^^^ 0x20) ≠ 0x7e ∧ ¬(c ^^^ 0x20) < 0x20 := by
  have hc : (special.contains c || decide (c < 0x20)) = true := by
    unfold mustEscape mapped at h
    simp only [Bool.or_eq_true, Bool.and_eq_true, decide_eq_true_eq] at h ⊢
    rcases h with h | h
    · exact Or.inl h
    · exact Or.inr h.1
  have := toggled_facts c.toNat c.toNat_lt
  rw [UInt8.ofNat_toNat] at this
  exact this hc

theorem toggle_toggle (c : UInt8) : c ^^^ 0x20 ^^^ 0x20 = c := by
  rw [UInt8.xor_assoc, UInt8.xor_self, UInt8.xor_zero]

theorem mustEscape_escape (accm : UInt32) : mustEscape accm 0x7d = true := by
  unfold mustEscape
  rw [show special.contains 0x7d = true from by decide, Bool.true_or]

theorem mustEscape_flag (accm : UInt32) : mustEscape accm 0x7e = true := by
  unfold mustEscape
  rw [show special.contains 0x7e = true from by decide, Bool.true_or]

theorem not_flag {accm : UInt32} {c : UInt8} (h : mustEscape accm c = false) : c ≠ 0x7e ∧ c ≠ 0x7d := by
  constructor
  · intro hc
    rw [hc, mustEscape_flag] at h
    exact absurd h.symm Bool.false_ne_true
  · intro hc
    rw [hc, mustEscape_escape] at h
    exact absurd h.symm Bool.false_ne_true

theorem flag_not_mem (accm : UInt32) (bs : List UInt8) : 0x7e ∉ stuffed accm bs :=
  not_mem_escaped (mustEscape_flag accm) (by decide) (fun _ h => (toggled h).2.1) bs

/-! ### The checksum -/

/-- The low byte meets its complement, and the high byte does behind it. -/
theorem fcs_low (f : UInt16) : (f ^^^ (f ^^^ 0xffff).toUInt8.toUInt16) &&& 0xff = 0xff := by
  apply UInt16.toBitVec_inj.1
  apply BitVec.eq_of_getLsbD_eq
  intro i hi
  have h8 : (0xff : UInt16).toBitVec.getLsbD i = decide (i < 8) := by
    have : ∀ i < 16, (0xff : UInt16).toBitVec.getLsbD i = decide (i < 8) := by decide
    exact this i hi
  have hall : (0xffff : UInt16).toBitVec.getLsbD i = true := by
    have : ∀ i < 16, (0xffff : UInt16).toBitVec.getLsbD i = true := by decide
    exact this i hi
  simp only [UInt16.toBitVec_and, UInt16.toBitVec_xor, UInt8.toBitVec_toUInt16, UInt16.toBitVec_toUInt8,
    BitVec.getLsbD_and, BitVec.getLsbD_xor, BitVec.getLsbD_setWidth, h8, hall]
  by_cases h : i < 8
  · simp [h, hi]
  · simp [h]

theorem fcs_high (f t : UInt16) :
    (((f >>> 8) ^^^ t) ^^^ ((f ^^^ 0xffff) >>> 8).toUInt8.toUInt16) &&& 0xff = (t ^^^ 0xff) &&& 0xff := by
  apply UInt16.toBitVec_inj.1
  apply BitVec.eq_of_getLsbD_eq
  intro i hi
  have h8 : (0xff : UInt16).toBitVec.getLsbD i = decide (i < 8) := by
    have : ∀ i < 16, (0xff : UInt16).toBitVec.getLsbD i = decide (i < 8) := by decide
    exact this i hi
  have hall : i < 8 → (0xffff : UInt16).toBitVec.getLsbD (8 + i) = true := by
    have : ∀ i < 8, (0xffff : UInt16).toBitVec.getLsbD (8 + i) = true := by decide
    exact this i
  have hsh : ∀ x : UInt16, (x >>> 8).toBitVec.getLsbD i = x.toBitVec.getLsbD (8 + i) := by
    intro x
    have : (x >>> 8).toBitVec = x.toBitVec >>> 8 := by
      rw [UInt16.toBitVec_shiftRight]
      rfl
    rw [this, BitVec.getLsbD_ushiftRight]
  simp only [UInt16.toBitVec_and, UInt16.toBitVec_xor, UInt8.toBitVec_toUInt16, UInt16.toBitVec_toUInt8,
    BitVec.getLsbD_and, BitVec.getLsbD_xor, BitVec.getLsbD_setWidth, h8, hsh]
  by_cases h : i < 8
  · simp only [h, hi, hall h, decide_true, Bool.true_and, Bool.and_true]
    cases f.toBitVec.getLsbD (8 + i) <;> cases t.toBitVec.getLsbD i <;> rfl
  · simp [h]

theorem fcs_shift (f : UInt16) : (f >>> 8) >>> 8 = 0 := by
  apply UInt16.toNat_inj.1
  have hf := f.toNat_lt
  simp only [UInt16.toNat_shiftRight, Nat.shiftRight_eq_div_pow]
  have : (8 : UInt16).toNat % 16 = 8 := rfl
  rw [this]
  show _ = 0
  omega

/-- The checksum behind a frame brings the remainder of every frame to the same value. -/
theorem pppfcs16_checksum (frame : List UInt8) : pppfcs16 pppInitFcs16 (frame ++ checksumOf frame) = pppGoodFcs16 := by
  have hsplit : pppfcs16 pppInitFcs16 (frame ++ checksumOf frame) =
      pppfcs16 (pppfcs16 pppInitFcs16 frame) (checksumOf frame) := by
    unfold pppfcs16
    rw [List.foldl_append]
  rw [hsplit]
  generalize hf : pppfcs16 pppInitFcs16 frame = f
  have hsum : checksumOf frame = [(f ^^^ 0xffff).toUInt8, ((f ^^^ 0xffff) >>> 8).toUInt8] := by
    rw [← hf]
    rfl
  have htab : fcstab.getD (0xff : UInt16).toNat 0 = 0x0f78 := by decide +kernel
  have htab' : fcstab.getD (((0x0f78 : UInt16) ^^^ 0xff) &&& 0xff).toNat 0 = 0xf0b7 := by decide +kernel
  rw [hsum]
  unfold pppfcs16
  rw [List.foldl_cons, List.foldl_cons, List.foldl_nil, fcs_low, htab, fcs_high, htab', UInt16.shiftRight_xor, fcs_shift]
  decide

theorem length_checksumOf (frame : List UInt8) : (checksumOf frame).length = 2 := rfl

/-! ## Explode over its buffers -/

/-- Where the loop ends: at the end of the frame, or before a byte that has no room. -/
theorem explodeLoop_spec (accm : UInt32) (n : Nat) (frame stream : List UInt8) (h : stream.length + 1 ≤ n) :
    ∃ done rest, frame = done ++ rest ∧ explodeLoop accm n frame stream = (rest.isEmpty, rest, stream ++ stuffed accm done) ∧
      stream.length + (stuffed accm done).length + 1 ≤ n ∧
      ∀ c rest', rest = c :: rest' → n < stream.length + (stuffed accm done).length + cost accm c + 1 := by
  induction frame generalizing stream with
  | nil =>
    refine ⟨[], [], rfl, by simp [explodeLoop], h, fun c rest' hrest => ?_⟩
    exact absurd hrest (by simp)
  | cons c frame ih =>
    -- either there is room for the byte, and the loop goes on, or it stops before it
    have hgo : ∀ u : List UInt8, stuffed accm [c] = u → stream.length + u.length + 1 ≤ n →
        explodeLoop accm n (c :: frame) stream = explodeLoop accm n frame (stream ++ u) →
        ∃ done rest, c :: frame = done ++ rest ∧
          explodeLoop accm n (c :: frame) stream = (rest.isEmpty, rest, stream ++ stuffed accm done) ∧
          stream.length + (stuffed accm done).length + 1 ≤ n ∧
          ∀ d rest', rest = d :: rest' → n < stream.length + (stuffed accm done).length + cost accm d + 1 := by
      intro u hu hroom hnext
      obtain ⟨done, rest, hframe, hloop, hbound, hstop⟩ :=
        ih (stream ++ u) (by rw [List.length_append]; omega)
      have hdone : stuffed accm (c :: done) = u ++ stuffed accm done := by
        rw [← hu, ← stuffed_append]
        rfl
      have hlen : (stuffed accm (c :: done)).length = u.length + (stuffed accm done).length := by
        rw [hdone, List.length_append]
      rw [List.length_append] at hbound
      refine ⟨c :: done, rest, by rw [hframe, List.cons_append], ?_, by omega, fun d rest' hd => ?_⟩
      · rw [hnext, hloop, hdone, List.append_assoc]
      · have := hstop d rest' hd
        rw [List.length_append] at this
        omega
    have hstop : explodeLoop accm n (c :: frame) stream = (false, c :: frame, stream) →
        n < stream.length + cost accm c + 1 →
        ∃ done rest, c :: frame = done ++ rest ∧
          explodeLoop accm n (c :: frame) stream = (rest.isEmpty, rest, stream ++ stuffed accm done) ∧
          stream.length + (stuffed accm done).length + 1 ≤ n ∧
          ∀ d rest', rest = d :: rest' → n < stream.length + (stuffed accm done).length + cost accm d + 1 := by
      intro heq hfull
      refine ⟨[], c :: frame, rfl, by rw [heq]; simp, h, fun d rest' hd => ?_⟩
      rw [(List.cons.inj hd).1] at hfull
      simpa using hfull
    by_cases hmust : mustEscape accm c = true
    · have hcost : cost accm c = 2 := if_pos hmust
      by_cases hfull : (stream.length : Int) ≥ (n : Int) - 2
      · exact hstop (by rw [explodeLoop]; simp [hmust, hfull]) (by omega)
      · apply hgo [0x7d, c ^^^ 0x20]
        · rw [stuffed_cons, if_pos hmust, stuffed_nil, List.append_nil]
        · simp only [List.length_cons, List.length_nil]
          omega
        · rw [explodeLoop]
          simp [hmust, hfull]
    · have hcost : cost accm c = 1 := if_neg hmust
      by_cases hfull : (stream.length : Int) > (n : Int) - 2
      · exact hstop (by rw [explodeLoop]; simp [hmust, hfull]) (by omega)
      · apply hgo [c]
        · rw [stuffed_cons, if_neg hmust, stuffed_nil, List.append_nil]
        · simp only [List.length_singleton]
          omega
        · rw [explodeLoop]
          simp [hmust, hfull]

/-- Whether the checksum comes into the buffer in which the frame ends: `frame` is what is left of it in buffer `i`,
    where `room` bytes are left for it besides the last flag. -/
def ChecksumFits (accm : UInt32) (sizes : Nat → Nat) (checksum : List UInt8) : Nat → Nat → List UInt8 → Prop
  | _, room, [] => (stuffed accm checksum).length ≤ room
  | i, room, c :: frame =>
    if cost accm c ≤ room then ChecksumFits accm sizes checksum i (room - cost accm c) frame
    else ChecksumFits accm sizes checksum (i + 1) (sizes (i + 1) - 1 - cost accm c) frame

instance ChecksumFits.instDecidable (accm : UInt32) (sizes : Nat → Nat) (checksum : List UInt8) :
    ∀ (i room : Nat) (frame : List UInt8), Decidable (ChecksumFits accm sizes checksum i room frame)
  | _, room, [] => inferInstanceAs (Decidable ((stuffed accm checksum).length ≤ room))
  | i, room, c :: frame =>
    if h : cost accm c ≤ room then
      match ChecksumFits.instDecidable accm sizes checksum i (room - cost accm c) frame with
      | isTrue hf => isTrue (by rw [ChecksumFits, if_pos h]; exact hf)
      | isFalse hf => isFalse (by rw [ChecksumFits, if_pos h]; exact hf)
    else
      match ChecksumFits.instDecidable accm sizes checksum (i + 1) (sizes (i + 1) - 1 - cost accm c) frame with
      | isTrue hf => isTrue (by rw [ChecksumFits, if_neg h]; exact hf)
      | isFalse hf => isFalse (by rw [ChecksumFits, if_neg h]; exact hf)

section Fits

variable (accm : UInt32) (sizes : Nat → Nat) (checksum : List UInt8) (i room : Nat)

/-- Bytes that have room in the buffer come into it. -/
theorem checksumFits_append (done rest : List UInt8) (h : (stuffed accm done).length ≤ room) :
    ChecksumFits accm sizes checksum i room (done ++ rest) ↔
      ChecksumFits accm sizes checksum i (room - (stuffed accm done).length) rest := by
  induction done generalizing room with
  | nil => rfl
  | cons c done ih =>
    rw [length_stuffed_cons] at h ⊢
    rw [List.cons_append, ChecksumFits, if_pos (by omega), ih _ (by omega), Nat.sub_sub]

/-- A byte without room goes into the next buffer. -/
theorem checksumFits_next {rest : List UInt8} (hne : rest ≠ [])
    (hfull : ∀ c rest', rest = c :: rest' → room < cost accm c) (hsize : 3 ≤ sizes (i + 1)) :
    ChecksumFits accm sizes checksum i room rest ↔ ChecksumFits accm sizes checksum (i + 1) (sizes (i + 1) - 1) rest := by
  cases rest with
  | nil => exact absurd rfl hne
  | cons c rest =>
    have hcost := hfull c rest rfl
    have hle := cost_le accm c
    rw [ChecksumFits, if_neg (by omega), ChecksumFits, if_pos (by omega)]

end Fits

/-- The outcomes of a call for a frame that is not in its checksum yet. -/
theorem explodeOn_spec (accm : UInt32) {s : ExpStream} (hstate : s.state ≠ .check)
    (hroom : s.stream.length + 1 ≤ s.sizeStream) :
    (∃ done rest, s.frame = done ++ rest ∧ rest ≠ [] ∧
        explodeOn s accm = { s with state := .again, frame := rest, stream := s.stream ++ stuffed accm done } ∧
        s.stream.length + (stuffed accm done).length + 1 ≤ s.sizeStream ∧
        ∀ c rest', rest = c :: rest' → s.sizeStream < s.stream.length + (stuffed accm done).length + cost accm c + 1) ∨
      (s.stream.length + (stuffed accm (s.frame ++ s.checksum)).length + 1 ≤ s.sizeStream ∧
        (explodeOn s accm).state = .start ∧
        (explodeOn s accm).stream = s.stream ++ stuffed accm (s.frame ++ s.checksum) ++ [0x7e]) ∨
      (s.stream.length + (stuffed accm s.frame).length + 1 ≤ s.sizeStream ∧
        s.sizeStream < s.stream.length + (stuffed accm (s.frame ++ s.checksum)).length + 1 ∧
        (explodeOn s accm).state = .check) := by
  obtain ⟨done, rest, hframe, hloop, hbound, hstop⟩ := explodeLoop_spec accm s.sizeStream s.frame s.stream hroom
  cases rest with
  | cons c rest =>
    refine Or.inl ⟨done, c :: rest, hframe, by simp, ?_, hbound, hstop⟩
    unfold explodeOn explode
    rw [hloop]
    cases hs : s.state with
    | start => simp
    | again => simp
    | check => exact absurd hs hstate
  | nil =>
    rw [List.append_nil] at hframe
    rw [← hframe] at hloop hbound
    obtain ⟨done', rest', hsum, hloop', hbound', hstop'⟩ := explodeLoop_spec accm s.sizeStream s.checksum
      (s.stream ++ stuffed accm s.frame) (by rw [List.length_append]; omega)
    rw [List.length_append] at hbound' hstop'
    have hlen : (stuffed accm (s.frame ++ s.checksum)).length =
        (stuffed accm s.frame).length + (stuffed accm s.checksum).length := by
      rw [stuffed_append, List.length_append]
    right
    cases rest' with
    | nil =>
      rw [List.append_nil] at hsum
      rw [← hsum] at hloop' hbound'
      refine Or.inl ⟨by omega, ?_, ?_⟩
      · unfold explodeOn explode
        simp [hloop, hloop', hstate]
      · unfold explodeOn explode
        simp [hloop, hloop', hstate, stuffed_append]
    | cons c rest' =>
      have hfull := hstop' c rest' rfl
      have hsplit : (stuffed accm s.checksum).length = (stuffed accm done').length
          + (cost accm c + (stuffed accm rest').length) := by
        rw [hsum, stuffed_append, List.length_append, length_stuffed_cons]
      refine Or.inr ⟨hbound, by omega, ?_⟩
      unfold explodeOn explode
      simp [hloop, hloop', hstate]

/-- In the checksum the state stays as it is. -/
theorem pppExplode_check (accm : UInt32) {s : ExpStream} (h : s.state = .check) : (pppExplode s accm).state = .check := by
  unfold pppExplode
  rw [if_neg (by rw [h]; decide)]
  rcases hloop : explodeLoop accm s.sizeStream s.frame s.stream with ⟨complete, frame, stream⟩
  unfold explodeOn explode
  cases complete with
  | true => simp [hloop, h]
  | false => simp [hloop, h]

/-! ### Calls -/

section Calls

variable {accm : UInt32} {frame : List UInt8} {sizes : Nat → Nat}

/-- The stream parameters of call `k` behind the start of the frame, `rest` of which is left; `lead` is what goes
    before the next byte. -/
def callStream (accm : UInt32) (frame : List UInt8) (sizes : Nat → Nat) (k : Nat) (rest lead : List UInt8) : ExpStream where
  state := (explodeCalls accm frame sizes k).1.state
  checksum := checksumOf frame
  frame := rest
  stream := lead
  sizeStream := sizes k

@[simp] theorem callStream_checksum (k : Nat) (rest lead : List UInt8) :
    (callStream accm frame sizes k rest lead).checksum = checksumOf frame := rfl
@[simp] theorem callStream_frame (k : Nat) (rest lead : List UInt8) :
    (callStream accm frame sizes k rest lead).frame = rest := rfl
@[simp] theorem callStream_stream (k : Nat) (rest lead : List UInt8) :
    (callStream accm frame sizes k rest lead).stream = lead := rfl
@[simp] theorem callStream_sizeStream (k : Nat) (rest lead : List UInt8) :
    (callStream accm frame sizes k rest lead).sizeStream = sizes k := rfl

/-- Before call `k` the frame is not finished. -/
structure Running (accm : UInt32) (frame : List UInt8) (sizes : Nat → Nat) (k : Nat) (rest lead : List UInt8) : Prop where
  call : pppExplode { (explodeCalls accm frame sizes k).1 with stream := [], sizeStream := sizes k } accm =
    explodeOn (callStream accm frame sizes k rest lead) accm
  notCheck : (explodeCalls accm frame sizes k).1.state ≠ .check
  leads : lead = [] ∨ lead = [0x7e]
  sent : ∃ done, frame = done ++ rest ∧ (explodeCalls accm frame sizes k).2.flatten ++ lead = 0x7e :: stuffed accm done
  count : (explodeCalls accm frame sizes k).2.length = k
  within : ∀ i b, (explodeCalls accm frame sizes k).2[i]? = some b → b.length ≤ sizes i

/-- After call `k` the frame is on the stream. -/
structure Finished (accm : UInt32) (frame : List UInt8) (sizes : Nat → Nat) (k : Nat) : Prop where
  state : (explodeCalls accm frame sizes k).1.state = .start
  sent : (explodeCalls accm frame sizes k).2.flatten = wire accm frame
  within : ∀ i b, (explodeCalls accm frame sizes k).2[i]? = some b → b.length ≤ sizes i

theorem running_zero : Running accm frame sizes 0 frame [0x7e] where
  call := rfl
  notCheck := by
    intro h
    exact absurd h (by simp [explodeCalls])
  leads := Or.inr rfl
  sent := ⟨[], rfl, rfl⟩
  count := rfl
  within := by
    intro i b h
    exact absurd h (by simp [explodeCalls])

theorem Running.succ {k : Nat} {rest lead : List UInt8} (h : Running accm frame sizes k rest lead) :
    explodeCalls accm frame sizes (k + 1) =
      (explodeOn (callStream accm frame sizes k rest lead) accm,
        (explodeCalls accm frame sizes k).2 ++ [(explodeOn (callStream accm frame sizes k rest lead) accm).stream]) := by
  rw [explodeCalls]
  dsimp only
  rw [h.call]

theorem within_snoc {k : Nat} {bs : List (List UInt8)} {b : List UInt8} (hlen : bs.length = k)
    (h : ∀ i c, bs[i]? = some c → c.length ≤ sizes i) (hb : b.length ≤ sizes k) :
    ∀ i c, (bs ++ [b])[i]? = some c → c.length ≤ sizes i := by
  intro i c hc
  rw [List.getElem?_append] at hc
  split at hc
  · exact h i c hc
  · rename_i hi
    rw [List.getElem?_singleton] at hc
    split at hc
    · have hik : i = k := by omega
      rw [hik, ← Option.some.inj hc]
      exact hb
    · exact absurd hc (by simp)

/-- The next call goes on with the frame, or finishes it, or ends in the checksum. -/
theorem Running.step {k : Nat} {rest lead : List UInt8} (h : Running accm frame sizes k rest lead)
    (hsizes : ∀ i, 3 ≤ sizes i) :
    (∃ done rest', rest = done ++ rest' ∧ rest' ≠ [] ∧ (lead = [] → done ≠ []) ∧
        Running accm frame sizes (k + 1) rest' [] ∧ (explodeCalls accm frame sizes (k + 1)).1.state = .again ∧
        (ChecksumFits accm sizes (checksumOf frame) k (sizes k - 1 - lead.length) rest ↔
          ChecksumFits accm sizes (checksumOf frame) (k + 1) (sizes (k + 1) - 1) rest')) ∨
      (Finished accm frame sizes (k + 1) ∧ ChecksumFits accm sizes (checksumOf frame) k (sizes k - 1 - lead.length) rest) ∨
      ((explodeCalls accm frame sizes (k + 1)).1.state = .check ∧
        ¬ChecksumFits accm sizes (checksumOf frame) k (sizes k - 1 - lead.length) rest) := by
  have hsize := hsizes k
  have hlead : lead.length ≤ 1 := by
    rcases h.leads with hl | hl
    · rw [hl]
      decide
    · rw [hl]
      decide
  have hroom : (callStream accm frame sizes k rest lead).stream.length + 1
      ≤ (callStream accm frame sizes k rest lead).sizeStream := by
    show lead.length + 1 ≤ sizes k
    omega
  obtain ⟨before, hbefore, hstream⟩ := h.sent
  have hsucc := h.succ
  rcases explodeOn_spec accm (s := callStream accm frame sizes k rest lead) h.notCheck hroom with
    ⟨done, rest', hrest, hne, heq, hbound, hfull⟩ | ⟨hfit, hstart, hout⟩ | ⟨hframe, hfull, hcheck⟩
  · simp only [callStream_frame, callStream_stream, callStream_sizeStream] at hrest hbound hfull
    rw [heq, callStream_checksum, callStream_stream, callStream_sizeStream] at hsucc
    have hfits := checksumFits_append accm sizes (checksumOf frame) k (sizes k - 1 - lead.length) done rest'
      (by omega)
    have hnext := checksumFits_next accm sizes (checksumOf frame) k
      (sizes k - 1 - lead.length - (stuffed accm done).length) hne
      (fun c r hc => by have := hfull c r hc; omega) (hsizes (k + 1))
    refine Or.inl ⟨done, rest', hrest, hne, ?_, ?_, by rw [hsucc], ?_⟩
    · intro hnil hdone
      cases rest' with
      | nil => exact hne rfl
      | cons c rest' =>
        have hcost := cost_le accm c
        have hlast := hfull c rest' rfl
        rw [hnil, hdone] at hlast
        simp only [stuffed_nil, List.length_nil] at hlast
        omega
    · refine ⟨?_, ?_, Or.inl rfl, ⟨before ++ done, ?_, ?_⟩, ?_, ?_⟩
      · rw [hsucc]
        simp [pppExplode, callStream, hsucc]
      · rw [hsucc]
        simp
      · rw [hbefore, hrest, List.append_assoc]
      · rw [hsucc]
        simp only [List.flatten_append, List.flatten_singleton, List.append_nil]
        rw [← List.append_assoc, hstream, stuffed_append, List.cons_append]
      · rw [hsucc]
        simp only [List.length_append, List.length_singleton, h.count]
      · rw [hsucc]
        apply within_snoc h.count h.within
        rw [List.length_append]
        omega
    · rw [hrest, hfits, hnext]
  · simp only [callStream_frame, callStream_stream, callStream_sizeStream, callStream_checksum] at hfit hout
    rw [stuffed_append, List.length_append] at hfit
    refine Or.inr (Or.inl ⟨⟨by rw [hsucc]; exact hstart, ?_, ?_⟩, ?_⟩)
    · have hall : before ++ (rest ++ checksumOf frame) = frame ++ checksumOf frame := by
        rw [← List.append_assoc, ← hbefore]
      rw [hsucc]
      simp only [List.flatten_append, List.flatten_singleton, hout]
      rw [← List.append_assoc, ← List.append_assoc, hstream, List.cons_append, List.cons_append, ← stuffed_append, hall]
      rfl
    · rw [hsucc]
      apply within_snoc h.count h.within
      rw [hout, stuffed_append]
      simp only [List.length_append, List.length_singleton]
      omega
    · have hfits := checksumFits_append accm sizes (checksumOf frame) k (sizes k - 1 - lead.length) rest []
        (by omega)
      rw [List.append_nil] at hfits
      rw [hfits, ChecksumFits]
      omega
  · simp only [callStream_frame, callStream_stream, callStream_sizeStream, callStream_checksum] at hframe hfull
    rw [stuffed_append, List.length_append] at hfull
    refine Or.inr (Or.inr ⟨by rw [hsucc]; exact hcheck, ?_⟩)
    have hfits := checksumFits_append accm sizes (checksumOf frame) k (sizes k - 1 - lead.length) rest []
      (by omega)
    rw [List.append_nil] at hfits
    rw [hfits, ChecksumFits]
    omega

theorem explodeCalls_check {k : Nat} (h : (explodeCalls accm frame sizes k).1.state = .check) {j : Nat} (hj : k ≤ j) :
    (explodeCalls accm frame sizes j).1.state = .check := by
  induction hj with
  | refl => exact h
  | step _ ih => exact pppExplode_check accm ih

/-- The first call after call `k` that leaves `EXP_START`, and what it leaves. -/
def FinishesAfter (accm : UInt32) (frame : List UInt8) (sizes : Nat → Nat) (k n : Nat) : Prop :=
  k < n ∧ Finished accm frame sizes n ∧ ∀ j, k < j → j < n → (explodeCalls accm frame sizes j).1.state ≠ .start

/-- The calls from call `k` on finish the frame if and only if the checksum comes into the buffer where it ends. -/
theorem Running.finishes {k : Nat} {rest lead : List UInt8} (h : Running accm frame sizes k rest lead)
    (hlead : lead = [] → rest ≠ []) (hsizes : ∀ i, 3 ≤ sizes i) :
    (ChecksumFits accm sizes (checksumOf frame) k (sizes k - 1 - lead.length) rest →
        ∃ n, FinishesAfter accm frame sizes k n) ∧
      (¬ChecksumFits accm sizes (checksumOf frame) k (sizes k - 1 - lead.length) rest →
        ∀ j, k < j → (explodeCalls accm frame sizes j).1.state ≠ .start) := by
  -- on what is left of the frame; only the first call of all may take nothing from it
  induction hm : rest.length + lead.length using Nat.strongRecOn generalizing k rest lead with
  | ind m ih =>
    rcases h.step hsizes with ⟨done, rest', hrest, hne, hprogress, hrun, hagain, hiff⟩ | ⟨hfin, hfits⟩ | ⟨hcheck, hnot⟩
    · have hless : rest'.length + ([] : List UInt8).length < m := by
        have hlen : rest.length = done.length + rest'.length := by rw [hrest, List.length_append]
        simp only [List.length_nil, Nat.add_zero]
        rcases h.leads with hl | hl
        · have hdone := List.length_pos_iff.2 (hprogress hl)
          omega
        · have hone : lead.length = 1 := by rw [hl]; rfl
          omega
      obtain ⟨hyes, hno⟩ := ih _ hless hrun (fun _ => hne) rfl
      simp only [List.length_nil, Nat.sub_zero] at hyes hno
      -- the call itself leaves EXP_AGAIN
      have hfirst : ∀ j, k < j → ¬k + 1 < j → (explodeCalls accm frame sizes j).1.state ≠ .start := by
        intro j hj hj'
        obtain rfl : j = k + 1 := by omega
        rw [hagain]
        decide
      constructor
      · intro hfits
        obtain ⟨n, hn, hfin, hbefore⟩ := hyes (hiff.1 hfits)
        refine ⟨n, by omega, hfin, fun j hj hjn => ?_⟩
        by_cases hj' : k + 1 < j
        · exact hbefore j hj' hjn
        · exact hfirst j hj hj'
      · intro hnot j hj
        by_cases hj' : k + 1 < j
        · exact hno (fun hfits => hnot (hiff.2 hfits)) j hj'
        · exact hfirst j hj hj'
    · refine ⟨fun _ => ⟨k + 1, Nat.lt_succ_self k, hfin, fun j hj hj' => by omega⟩, fun hnot => absurd hfits hnot⟩
    · refine ⟨fun hfits => absurd hfits hnot, fun _ j hj => ?_⟩
      rw [explodeCalls_check hcheck hj]
      decide

/-- `pppExplode` over the buffers of a frame. -/
theorem explode_finishes (accm : UInt32) (frame : List UInt8) (hsizes : ∀ i, 3 ≤ sizes i) :
    (ChecksumFits accm sizes (checksumOf frame) 0 (sizes 0 - 2) frame → ∃ n, FinishesAfter accm frame sizes 0 n) ∧
      (¬ChecksumFits accm sizes (checksumOf frame) 0 (sizes 0 - 2) frame →
        ∀ j, 0 < j → (explodeCalls accm frame sizes j).1.state ≠ .start) :=
  running_zero.finishes (fun h => absurd h (by simp)) hsizes

end Calls

/-! ## Implode over its pieces -/

section Pieces

variable {accm accm' : UInt32}

theorem implodeFrom_nil {place : Place} (hplace : place ≠ .unescape) (s : ImpStream) :
    implodeFrom accm' place [] 0 s = some { s with stream := [], sizeStream := 0 } := by
  rw [implodeFrom, if_pos ⟨rfl, hplace⟩]

/-- A byte of a piece with which the loop goes on; the counter is that of the bytes from it on. -/
theorem implodeFrom_next {place place' : Place} {c : UInt8} {n k : Nat} {s s' : ImpStream} (l : List UInt8)
    (h : implodeByte accm' place c (n + 1) s = .next place' k s') :
    implodeFrom accm' place (c :: l) (n + 1) s = implodeFrom accm' place' l k s' := by
  rw [implodeFrom, if_neg (by omega), h]

/-- A byte of a piece that completes a frame. -/
theorem implodeFrom_done {place : Place} {c : UInt8} {n k : Nat} {s s' : ImpStream} (l : List UInt8)
    (h : implodeByte accm' place c (n + 1) s = .done k s') :
    implodeFrom accm' place (c :: l) (n + 1) s = some { s' with stream := l, sizeStream := k } := by
  rw [implodeFrom, if_neg (by omega), h]

/-- Stuffed bytes inside a frame go into the frame buffer. -/
theorem implodeFrom_stuffed (bs : List UInt8) (l : List UInt8) (n : Nat) {s : ImpStream}
    (hcover : ∀ c ∈ bs, mustEscape accm c = false → mapped accm' c = false)
    (hroom : s.frame.length + bs.length ≤ s.sizeFrame) :
    implodeFrom accm' (.inState .more) (stuffed accm bs ++ l) ((stuffed accm bs).length + n) s =
      implodeFrom accm' (.inState .more) l n { s with frame := s.frame ++ bs } := by
  induction bs generalizing s with
  | nil => simp
  | cons c bs ih =>
    simp only [List.length_cons] at hroom
    have hrest := ih (s := { s with frame := s.frame ++ [c] }) (fun d hd => hcover d (List.mem_cons_of_mem c hd))
      (by simp only [List.length_append, List.length_singleton]; omega)
    simp only [List.append_assoc, List.singleton_append] at hrest
    have hput : ∀ m, put c m s = .next (.inState .more) m { s with frame := s.frame ++ [c] } := by
      intro m
      unfold put
      rw [if_neg (by omega)]
    rw [length_stuffed_cons, stuffed_cons, List.append_assoc]
    cases hmust : mustEscape accm c with
    | true =>
      obtain ⟨-, hflag, hhigh⟩ := toggled hmust
      have hmapped : mapped accm' (c ^^^ 0x20) = false := by
        unfold mapped
        simp [hhigh]
      have hcount : cost accm c + (stuffed accm bs).length + n = (stuffed accm bs).length + n + 1 + 1 := by
        rw [cost, if_pos hmust]
        omega
      rw [hcount]
      simp only [if_true, List.cons_append, List.nil_append]
      have hescape : implodeByte accm' (.inState .more) 0x7d ((stuffed accm bs).length + n + 1 + 1) s =
          .next .unescape ((stuffed accm bs).length + n + 1) s := rfl
      have hbyte : implodeByte accm' .unescape (c ^^^ 0x20) ((stuffed accm bs).length + n + 1) s =
          .next (.inState .more) ((stuffed accm bs).length + n) { s with frame := s.frame ++ [c] } := by
        unfold implodeByte
        simp only [hmapped, hflag, if_false, Nat.add_one_ne_zero, Bool.false_eq_true, Nat.add_sub_cancel]
        rw [toggle_toggle]
        exact hput _
      rw [implodeFrom_next _ hescape, implodeFrom_next _ hbyte]
      exact hrest
    | false =>
      obtain ⟨hflag, hescape⟩ := not_flag hmust
      have hmapped := hcover c List.mem_cons_self hmust
      have hcount : cost accm c + (stuffed accm bs).length + n = (stuffed accm bs).length + n + 1 := by
        rw [cost, if_neg (by rw [hmust]; exact Bool.false_ne_true)]
        omega
      rw [hcount]
      simp only [Bool.false_eq_true, if_false, List.cons_append, List.nil_append]
      have hbyte : implodeByte accm' (.inState .more) c ((stuffed accm bs).length + n + 1) s =
          .next (.inState .more) ((stuffed accm bs).length + n) { s with frame := s.frame ++ [c] } := by
        unfold implodeByte moreByte
        simp only [hflag, hescape, hmapped, if_false, Bool.and_false, Bool.false_eq_true, Nat.add_sub_cancel]
        exact hput _
      rw [implodeFrom_next _ hbyte]
      exact hrest

/-- Behind an escape at the end of a piece the loop reads on. -/
theorem implodeFrom_escape (s : ImpStream) : implodeFrom accm' (.inState .more) [0x7d] 1 s = none := rfl

/-- The last flag completes the frame. -/
theorem implodeFrom_flag {frame : List UInt8} {s : ImpStream} (hframe : s.frame = frame ++ checksumOf frame)
    (hshort : 2 ≤ frame.length) (hlong : frame.length + 2 < 65536) :
    implodeFrom accm' (.inState .more) [0x7e] 1 s =
      some { s with frame := frame, state := .start, stream := [], sizeStream := 0 } := by
  have hlen : s.frame.length = frame.length + 2 := by rw [hframe, List.length_append, length_checksumOf]
  have hmod : s.frame.length % 65536 = frame.length + 2 := by
    rw [hlen]
    exact Nat.mod_eq_of_lt hlong
  have htake : s.frame.take (frame.length + 2) = s.frame := List.take_of_length_le (by omega)
  have hcut : s.frame.dropLast.dropLast = frame := by
    rw [hframe, List.dropLast_eq_take, List.dropLast_eq_take, List.take_take, List.length_append, List.length_take,
      List.length_append, length_checksumOf]
    exact List.take_left' (by omega)
  have hbyte : implodeByte accm' (.inState .more) 0x7e 1 s =
      .done 0 { s with frame := frame, state := .start } := by
    unfold implodeByte moreByte
    simp only [if_true, hmod, htake]
    rw [if_neg (by omega), hframe, pppfcs16_checksum]
    simp only [bne_self_eq_false, Bool.and_false, Bool.false_eq_true, if_false]
    rw [← hframe, hcut]
  exact implodeFrom_done [] hbyte

/-- Flags before a frame are skipped. -/
theorem implodeFrom_lead (l : List UInt8) (n : Nat) (s : ImpStream) :
    implodeFrom accm' (.inState .start) (0x7e :: l) (n + 1) s = implodeFrom accm' (.inState .start) l n s :=
  implodeFrom_next l rfl

/-- The first byte of a frame is one of the loop. -/
theorem implodeFrom_first {c : UInt8} (hc : c ≠ 0x7e) (l : List UInt8) (n : Nat) (s : ImpStream) :
    implodeFrom accm' (.inState .start) (c :: l) (n + 1) s =
      implodeFrom accm' (.inState .more) (c :: l) (n + 1) { s with state := .more } := by
  have hsame : implodeByte accm' (.inState .start) c (n + 1) s =
      implodeByte accm' (.inState .more) c (n + 1) { s with state := .more } := by
    unfold implodeByte
    rw [if_neg hc]
  cases hturn : implodeByte accm' (.inState .start) c (n + 1) s with
  | done k s' => rw [implodeFrom_done l hturn, implodeFrom_done l (hsame ▸ hturn)]
  | next place k s' => rw [implodeFrom_next l hturn, implodeFrom_next l (hsame ▸ hturn)]

/-- Before a piece, `s` is inside the frame and `bs` is left of it and its checksum. -/
structure Inside (accm accm' : UInt32) (frame bs : List UInt8) (s : ImpStream) : Prop where
  state : s.state = .more
  left : s.frame ++ bs = frame ++ checksumOf frame
  room : s.frame.length + bs.length ≤ s.sizeFrame
  cover : ∀ c ∈ bs, mustEscape accm c = false → mapped accm' c = false
  short : 2 ≤ frame.length
  long : frame.length + 2 < 65536

/-- What a piece `p` of a frame does, where `rest` comes behind it: it completes the frame, or it leaves what it has
    of it, or it is cut behind an escape. -/
theorem Inside.piece {frame bs p rest : List UInt8} {s : ImpStream} (h : Inside accm accm' frame bs s)
    (hp : p ++ rest = stuffed accm bs ++ [0x7e]) :
    (rest = [] ∧ p.getLast? ≠ some 0x7d ∧
        implodeFrom accm' (.inState .more) p p.length s =
          some { s with frame := frame, state := .start, stream := [], sizeStream := 0 }) ∨
      (p.getLast? ≠ some 0x7d ∧ ∃ bs₁ bs₂, bs = bs₁ ++ bs₂ ∧ rest = stuffed accm bs₂ ++ [0x7e] ∧
        implodeFrom accm' (.inState .more) p p.length s =
          some { s with frame := s.frame ++ bs₁, stream := [], sizeStream := 0 }) ∨
      (p.getLast? = some 0x7d ∧ implodeFrom accm' (.inState .more) p p.length s = none) := by
  rcases List.eq_nil_or_concat rest with hrest | ⟨q, b, hrest⟩
  · rw [hrest, List.append_nil] at hp
    refine Or.inl ⟨hrest, by rw [hp]; simp, ?_⟩
    rw [hp, List.length_append, implodeFrom_stuffed bs [0x7e] _ h.cover h.room]
    exact implodeFrom_flag h.left h.short h.long
  · rw [hrest, List.concat_eq_append, ← List.append_assoc] at hp
    obtain ⟨hpq, hb⟩ := List.append_inj' hp rfl
    obtain ⟨bs₁, bs₂, hbs, hcut⟩ := cut_escaped hpq
    have hlen : bs.length = bs₁.length + bs₂.length := by rw [hbs, List.length_append]
    have hroom := h.room
    have hcover : ∀ c ∈ bs₁, mustEscape accm c = false → mapped accm' c = false := by
      intro c hc
      exact h.cover c (by rw [hbs]; exact List.mem_append_left _ hc)
    rcases hcut with ⟨hpe, hqe⟩ | ⟨z, zs, hz, hmust, hpe, hqe⟩
    · refine Or.inr (Or.inl ⟨?_, bs₁, bs₂, hbs, ?_, ?_⟩)
      · rw [hpe]
        exact getLast?_escaped (mustEscape_escape accm) (fun _ hx => (toggled hx).1) bs₁
      · rw [hrest, hqe, (List.cons.inj hb).1, List.concat_eq_append]
        rfl
      · have hall := implodeFrom_stuffed bs₁ [] 0 hcover (s := s) (by omega)
        rw [List.append_nil, Nat.add_zero] at hall
        rw [hpe]
        exact hall.trans (implodeFrom_nil (by decide) _)
    · refine Or.inr (Or.inr ⟨by rw [hpe]; simp, ?_⟩)
      rw [hpe, List.length_append]
      exact (implodeFrom_stuffed bs₁ [0x7d] 1 hcover (by omega)).trans
        (implodeFrom_escape _)

/-- The frame is delivered once from the pieces if and only if none of them ends in an escape. -/
def Delivers (accm' : UInt32) (frame : List UInt8) (pieces : List (List UInt8)) (s : ImpStream) : Prop :=
  ((∀ p ∈ pieces, p.getLast? ≠ some 0x7d) → ∃ s', implodePieces accm' pieces s = some ([frame], s') ∧ s'.state = .start) ∧
    ((∃ p ∈ pieces, p.getLast? = some 0x7d) → implodePieces accm' pieces s = none)

theorem implodePiece_of_empty (fuel : Nat) {s s' : ImpStream} (h : pppImplode s accm' = some s') (hs : s'.sizeStream = 0) :
    implodePiece accm' (fuel + 1) s = some (deliver s') := by
  have hsize : (deliver s').2.sizeStream = 0 := by
    unfold deliver
    split
    · exact hs
    · exact hs
  rw [implodePiece, h]
  simp [hsize]

/-- A piece that stays inside the frame completes nothing. -/
theorem deliver_more {s : ImpStream} (h : s.state ≠ .start ∨ s.frame = []) : deliver s = ([], s) := by
  unfold deliver
  rw [if_neg]
  intro hboth
  rcases h with h | h
  · exact h hboth.2
  · rw [h] at hboth
    exact absurd hboth.1 (by decide)

theorem Delivers.cons_silent {frame p : List UInt8} {ps : List (List UInt8)} {s s' : ImpStream}
    (hp : p.getLast? ≠ some 0x7d)
    (he : pppImplode { s with stream := p, sizeStream := p.length } accm' = some s') (hsize : s'.sizeStream = 0)
    (hsilent : s'.state ≠ .start ∨ s'.frame = []) (h : Delivers accm' frame ps s') : Delivers accm' frame (p :: ps) s := by
  have hfirst := implodePiece_of_empty p.length he hsize
  rw [deliver_more hsilent] at hfirst
  constructor
  · intro hall
    obtain ⟨s₁, he₁, hs₁⟩ := h.1 (fun q hq => hall q (List.mem_cons_of_mem p hq))
    refine ⟨s₁, ?_, hs₁⟩
    rw [implodePieces, hfirst]
    simp [he₁]
  · intro hcut
    obtain ⟨q, hq, hlast⟩ := hcut
    rcases List.mem_cons.1 hq with rfl | hq
    · exact absurd hlast hp
    · rw [implodePieces, hfirst]
      simp [h.2 ⟨q, hq, hlast⟩]

/-- The last piece delivers the frame. -/
theorem Delivers.cons_last {frame p : List UInt8} {s : ImpStream} (hp : p.getLast? ≠ some 0x7d)
    (hshort : 2 ≤ frame.length) (hlong : frame.length + 2 < 65536)
    (he : pppImplode { s with stream := p, sizeStream := p.length } accm' =
      some { s with frame := frame, state := .start, stream := [], sizeStream := 0 }) : Delivers accm' frame [p] s := by
  have hfirst := implodePiece_of_empty p.length he rfl
  have hdeliver : deliver { s with frame := frame, state := .start, stream := [], sizeStream := 0 } =
      ([frame], { s with frame := [], state := .start, stream := [], sizeStream := 0 }) := by
    unfold deliver
    rw [if_pos ⟨by rw [Nat.mod_eq_of_lt] <;> dsimp only <;> omega, rfl⟩]
  rw [hdeliver] at hfirst
  constructor
  · intro _
    refine ⟨{ s with frame := [], state := .start, stream := [], sizeStream := 0 }, ?_, rfl⟩
    rw [implodePieces, hfirst]
    simp [implodePieces]
  · intro hcut
    obtain ⟨q, hq, hlast⟩ := hcut
    rw [List.mem_singleton.1 hq] at hlast
    exact absurd hlast hp

/-- A piece behind an escape reads on. -/
theorem Delivers.cons_escape {frame p : List UInt8} {ps : List (List UInt8)} {s : ImpStream}
    (hp : p.getLast? = some 0x7d) (he : pppImplode { s with stream := p, sizeStream := p.length } accm' = none) :
    Delivers accm' frame (p :: ps) s := by
  constructor
  · intro hall
    exact absurd hp (hall p List.mem_cons_self)
  · intro _
    rw [implodePieces, implodePiece, he]
    rfl

theorem pieces_eq_nil {ps : List (List UInt8)} (hne : ∀ q ∈ ps, q ≠ []) (h : ps.flatten = []) : ps = [] := by
  cases ps with
  | nil => rfl
  | cons q ps =>
    rw [List.flatten_cons, List.append_eq_nil_iff] at h
    exact absurd h.1 (hne q List.mem_cons_self)

/-- A piece `p` of which `p'` is inside the frame, and the pieces behind it. -/
theorem Inside.cons {frame bs p : List UInt8} {ps : List (List UInt8)} {s : ImpStream} (p' : List UInt8)
    (h : Inside accm accm' frame bs { s with state := .more, stream := p, sizeStream := p.length })
    (hp : p' ++ ps.flatten = stuffed accm bs ++ [0x7e]) (hps : ∀ q ∈ ps, q ≠ []) (hsame : p'.getLast? = p.getLast?)
    (hcall : pppImplode { s with stream := p, sizeStream := p.length } accm' =
      implodeFrom accm' (.inState .more) p' p'.length { s with state := .more, stream := p, sizeStream := p.length })
    (hrest : ∀ bs₂ s', Inside accm accm' frame bs₂ s' → ps.flatten = stuffed accm bs₂ ++ [0x7e] →
      Delivers accm' frame ps s') : Delivers accm' frame (p :: ps) s := by
  rcases h.piece hp with ⟨hend, hlast, he⟩ | ⟨hlast, bs₁, bs₂, hbs, hbehind, he⟩ | ⟨hlast, he⟩
  · rw [pieces_eq_nil hps hend]
    exact Delivers.cons_last (hsame ▸ hlast) h.short h.long (hcall.trans he)
  · have hlen : bs.length = bs₁.length + bs₂.length := by rw [hbs, List.length_append]
    have hroom := h.room
    have hleft := h.left
    apply Delivers.cons_silent (hsame ▸ hlast) (hcall.trans he) rfl (Or.inl (by simp))
    apply hrest bs₂ _ ⟨rfl, ?_, ?_, ?_, h.short, h.long⟩ hbehind
    · rw [hbs, ← List.append_assoc] at hleft
      exact hleft
    · simp only [List.length_append] at hroom ⊢
      omega
    · intro c hc
      exact h.cover c (by rw [hbs]; exact List.mem_append_right _ hc)
  · exact Delivers.cons_escape (hsame ▸ hlast) (hcall.trans he)

/-- The pieces of the rest of a frame. -/
theorem Inside.delivers {frame bs : List UInt8} {ps : List (List UInt8)} {s : ImpStream}
    (h : Inside accm accm' frame bs s) (hps : ∀ q ∈ ps, q ≠ []) (hflat : ps.flatten = stuffed accm bs ++ [0x7e]) :
    Delivers accm' frame ps s := by
  induction ps generalizing bs s with
  | nil => exact absurd hflat (by simp)
  | cons p ps ih =>
    have htail : ∀ q ∈ ps, q ≠ [] := fun q hq => hps q (List.mem_cons_of_mem p hq)
    apply Inside.cons p ⟨rfl, h.left, h.room, h.cover, h.short, h.long⟩
      (by rw [← hflat, List.flatten_cons]) htail rfl
    · unfold pppImplode
      dsimp only
      rw [h.state]
    · intro bs₂ s' h' hrest
      exact ih h' htail hrest

/-- Where the pieces begin: before the flag of a frame, or behind it. -/
structure Before (accm accm' : UInt32) (frame : List UInt8) (s : ImpStream) : Prop where
  state : s.state = .start
  empty : s.frame = []
  room : frame.length + 2 ≤ s.sizeFrame
  cover : ∀ c ∈ frame ++ checksumOf frame, mustEscape accm c = false → mapped accm' c = false
  short : 2 ≤ frame.length
  long : frame.length + 2 < 65536

theorem Before.inside {frame : List UInt8} {s : ImpStream} (h : Before accm accm' frame s) (p : List UInt8) :
    Inside accm accm' frame (frame ++ checksumOf frame) { s with state := .more, stream := p, sizeStream := p.length } where
  state := rfl
  left := by rw [h.empty, List.nil_append]
  room := by
    have hroom := h.room
    simp only [h.empty, List.length_nil, List.length_append, length_checksumOf]
    omega
  cover := h.cover
  short := h.short
  long := h.long

/-- The first byte behind the flag is none itself. -/
theorem first_ne_flag {accm : UInt32} {bs l : List UInt8} {c : UInt8} (hbs : bs ≠ []) {rest : List UInt8}
    (h : c :: l ++ rest = stuffed accm bs ++ [0x7e]) : c ≠ 0x7e := by
  intro hc
  cases hstuffed : stuffed accm bs with
  | nil => exact escaped_ne_nil hbs hstuffed
  | cons d u =>
    rw [hstuffed] at h
    have hd : c = d := (List.cons.inj h).1
    have hmem := flag_not_mem accm bs
    rw [hstuffed, ← hd, hc] at hmem
    exact hmem List.mem_cons_self

/-- The pieces of a frame behind its flag. -/
theorem Before.delivers {frame : List UInt8} {ps : List (List UInt8)} {s : ImpStream} (h : Before accm accm' frame s)
    (hps : ∀ q ∈ ps, q ≠ []) (hflat : ps.flatten = stuffed accm (frame ++ checksumOf frame) ++ [0x7e]) :
    Delivers accm' frame ps s := by
  cases ps with
  | nil => exact absurd hflat (by simp)
  | cons p ps =>
    have htail : ∀ q ∈ ps, q ≠ [] := fun q hq => hps q (List.mem_cons_of_mem p hq)
    rw [List.flatten_cons] at hflat
    cases p with
    | nil => exact absurd rfl (hps [] List.mem_cons_self)
    | cons c p =>
      have hc := first_ne_flag (by simp [checksumOf]) hflat
      apply Inside.cons (c :: p) (h.inside (c :: p)) hflat htail rfl
      · unfold pppImplode
        dsimp only
        rw [h.state, List.length_cons]
        exact implodeFrom_first hc p _ _
      · intro bs₂ s' h' hrest
        exact h'.delivers htail hrest

/-- The pieces of a frame with its flag. -/
theorem Before.delivers_flag {frame : List UInt8} {ps : List (List UInt8)} {s : ImpStream} (h : Before accm accm' frame s)
    (hps : ∀ q ∈ ps, q ≠ []) (hflat : ps.flatten = wire accm frame) : Delivers accm' frame ps s := by
  unfold wire at hflat
  cases ps with
  | nil => exact absurd hflat (by simp)
  | cons p ps =>
    have htail : ∀ q ∈ ps, q ≠ [] := fun q hq => hps q (List.mem_cons_of_mem p hq)
    rw [List.flatten_cons] at hflat
    cases p with
    | nil => exact absurd rfl (hps [] List.mem_cons_self)
    | cons c p =>
      rw [List.cons_append] at hflat
      obtain ⟨rfl, hbody⟩ := List.cons.inj hflat
      cases p with
      | nil =>
        have he : pppImplode { s with stream := [0x7e], sizeStream := [(0x7e : UInt8)].length } accm' =
            some { s with stream := [], sizeStream := 0 } := by
          unfold pppImplode
          dsimp only
          rw [h.state]
          exact (implodeFrom_lead [] 0 _).trans (implodeFrom_nil (by decide) _)
        apply Delivers.cons_silent (by simp) he rfl (Or.inr h.empty)
        exact Before.delivers ⟨h.state, h.empty, h.room, h.cover, h.short, h.long⟩ htail hbody
      | cons d p =>
        have hd := first_ne_flag (by simp [checksumOf]) hbody
        apply Inside.cons (d :: p) (h.inside (0x7e :: d :: p)) hbody htail (by simp)
        · unfold pppImplode
          dsimp only
          rw [h.state, List.length_cons, List.length_cons]
          exact (implodeFrom_lead _ _ _).trans (implodeFrom_first hd p _ _)
        · intro bs₂ s' h' hrest
          exact h'.delivers htail hrest

end Pieces

/-! ## Round trip -/

/-- `pppExplode` finishes, with one frame between two flags in the buffers, and `pppImplode` reads nothing outside the
    pieces and delivers the frame once. -/
def RoundTrip (accm accm' : UInt32) (frame : List UInt8) (sizes : Nat → Nat) (sizeFrame : Nat) (pieces : List (List UInt8)) :
    Prop :=
  ∃ n, 0 < n ∧ (explodeCalls accm frame sizes n).1.state = .start ∧
    (∀ j, 0 < j → j < n → (explodeCalls accm frame sizes j).1.state ≠ .start) ∧
    (∀ i b, (explodeCalls accm frame sizes n).2[i]? = some b → b.length ≤ sizes i) ∧
    (∃ body, (explodeCalls accm frame sizes n).2.flatten = 0x7e :: (body ++ [0x7e]) ∧ 0x7e ∉ body) ∧
    (explodeCalls accm frame sizes n).2.flatten = pieces.flatten ∧
    ∃ s, implodePieces accm' pieces (impInit sizeFrame) = some ([frame], s) ∧ s.state = .start

/-- A frame comes back if and only if its checksum comes into the buffer in which the frame ends and no piece ends in
    an escape. -/
theorem framing_round_trip (accm accm' : UInt32) (frame : List UInt8) (hshort : 2 ≤ frame.length) (sizes : Nat → Nat)
    (hsizes : ∀ i, 3 ≤ sizes i ∧ sizes i < 65536) (sizeFrame : Nat) (hsize : sizeFrame < 65536)
    (hroom : frame.length + 2 ≤ sizeFrame)
    (hcover : ∀ c ∈ frame ++ checksumOf frame, mustEscape accm c = false → mapped accm' c = false)
    (pieces : List (List UInt8)) (hpieces : ∀ p ∈ pieces, p ≠ [] ∧ p.length < 65536)
    (hcut : pieces.flatten = wire accm frame) :
    RoundTrip accm accm' frame sizes sizeFrame pieces ↔
      ChecksumFits accm sizes (checksumOf frame) 0 (sizes 0 - 2) frame ∧ ∀ p ∈ pieces, p.getLast? ≠ some 0x7d := by
  obtain ⟨hyes, hno⟩ := explode_finishes accm frame (fun i => (hsizes i).1)
  have hbefore : Before accm accm' frame (impInit sizeFrame) := ⟨rfl, rfl, hroom, hcover, hshort, by omega⟩
  obtain ⟨hdelivers, hescape⟩ := hbefore.delivers_flag (fun p hp => (hpieces p hp).1) hcut
  constructor
  · intro hround
    obtain ⟨n, hn, hstate, -, -, -, -, s, hs, -⟩ := hround
    constructor
    · apply Classical.byContradiction
      intro hfits
      exact hno hfits n hn hstate
    · intro p hp hlast
      rw [hescape ⟨p, hp, hlast⟩] at hs
      exact absurd hs (by simp)
  · intro hboth
    obtain ⟨hfits, hends⟩ := hboth
    obtain ⟨n, hn, hfin, hfirst⟩ := hyes hfits
    exact ⟨n, hn, hfin.state, hfirst, hfin.within, ⟨_, hfin.sent, flag_not_mem accm _⟩, hfin.sent.trans hcut.symm,
      hdelivers hends⟩

theorem framing_round_trip_two :
    [[0x7e, 0xff], [0x03, 0x1c, 0xc2, 0x7e]].flatten = wire 0 [0xff, 0x03] ∧
      RoundTrip 0 0 [0xff, 0x03] (fun _ => 6) 16 [[0x7e, 0xff], [0x03, 0x1c, 0xc2, 0x7e]] :=
  ⟨by decide,
    (framing_round_trip 0 0 [0xff, 0x03] (by decide) (fun _ => 6) (fun _ => by decide) 16 (by decide) (by decide)
      (fun c _ _ => by simp [mapped]) [[0x7e, 0xff], [0x03, 0x1c, 0xc2, 0x7e]] (by decide) (by decide)).2
      ⟨by decide, by decide⟩⟩

/-- A frame whose stream is cut behind an escape, and one whose checksum goes into a buffer of its own. -/
theorem framing_cut_and_checksum :
    [[0x7e, 0x7d], [0x5e, 0x00, 0x7d, 0xb3, 0x65, 0x7e]].flatten = wire 0 [0x7e, 0x00] ∧
      ¬RoundTrip 0 0 [0x7e, 0x00] (fun _ => 64) 16 [[0x7e, 0x7d], [0x5e, 0x00, 0x7d, 0xb3, 0x65, 0x7e]] ∧
      [wire 0 [0xff, 0x03]].flatten = wire 0 [0xff, 0x03] ∧
      ¬RoundTrip 0 0 [0xff, 0x03] (fun _ => 3) 16 [wire 0 [0xff, 0x03]] := by
  refine ⟨by decide, ?_, by decide, ?_⟩
  · intro hround
    obtain ⟨n, -, -, -, -, -, -, s, hs, -⟩ := hround
    have hnone : implodePieces 0 [[0x7e, 0x7d], [0x5e, 0x00, 0x7d, 0xb3, 0x65, 0x7e]] (impInit 16) = none := by decide
    rw [hnone] at hs
    exact absurd hs (by simp)
  · intro hround
    obtain ⟨n, hn, hstate, -⟩ := hround
    have hnot : ¬ChecksumFits 0 (fun _ => 3) (checksumOf [0xff, 0x03]) 0 1 [0xff, 0x03] := by decide
    exact (explode_finishes 0 [0xff, 0x03] (fun _ => Nat.le_refl 3)).2 hnot n hn hstate

end Divas.Tty.Ppp
