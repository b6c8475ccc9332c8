/-
  Divas.Tty.HdlcReturned — what the HDLC receiver returns for a line.

  A frame is returned with the byte that ends its closing flag. The flag is not used up, so
  that the frame is returned again with every byte behind it. So it is returned once just
  when no whole byte follows; a frame with a wrong checksum or an abort is never returned
  (`hdlc_frames`). A second frame is never returned, and the bits that are kept outgrow
  their word (`hdlc_second`).
-/

import Divas.Tty.HdlcFrames

namespace Divas.Tty

open Divas.Lib.Bits Divas.Lib.Stuffing SoftHdlc

/-- The frame is returned once, with the byte that has the last of `n` bits. -/
def ReturnsOnce (bs : List Byte) (payload : List Byte) (n : Nat) : Prop :=
  ∃ m, init.returned bs = List.replicate ((n + 7) / 8 - 1) none ++ some payload :: List.replicate m none

/-- A line with one frame. -/
structure OneFrame (bs : List Byte) (junk : List Bool) (n : Nat) (payload : List Byte) (v : BitVec 16) (tail : List Bool) :
    Prop where
  aligned : junk.length < 8
  leading : 2 ≤ n
  line : bits bs = junk ++ (flags n ++ (frameBits payload v ++ (flag ++ tail)))

theorem SoftHdlc.again (n : Nat) {h : SoftHdlc} {s : List Bool} {data : List Byte} (hs : s.length + 8 * n < 65536)
    (hf : (h.withBits s).rxTurn = .frame (h.withBits s) data) (bs : List Byte) (hbs : bs.length = n) :
    (h.withBits s).returned bs = List.replicate n (some data) ∧ ((h.withBits s).after bs).residBitCount = s.length + 8 * n := by
  induction n generalizing s bs with
  | zero =>
    rw [List.length_eq_zero_iff.1 hbs]
    exact ⟨rfl, rfl⟩
  | succ n ih =>
    match bs, hbs with
    | b :: bs, hbs =>
      obtain ⟨hfed, hf'⟩ := rxProcess_again (by omega) hf b
      have hlen : (s ++ bitsOf b).length = s.length + 8 := by simp
      obtain ⟨hret, haft⟩ := ih (by omega) hf' bs (by simpa using hbs)
      rw [returned, after, hfed]
      refine ⟨?_, ?_⟩
      · show some data :: (h.withBits (s ++ bitsOf b)).returned bs = _
        rw [hret]
        rfl
      · show ((h.withBits (s ++ bitsOf b)).after bs).residBitCount = _
        rw [haft, hlen]
        omega

theorem SoftHdlc.after_append (h : SoftHdlc) (as bs : List Byte) : h.after (as ++ bs) = (h.after as).after bs := by
  induction as generalizing h with
  | nil => rfl
  | cons a as ih => exact ih _

theorem SoftHdlc.returned_append (h : SoftHdlc) (as bs : List Byte) :
    h.returned (as ++ bs) = h.returned as ++ (h.after as).returned bs := by
  induction as generalizing h with
  | nil => rfl
  | cons a as ih => exact congrArg _ (ih _)

theorem flags_two {n : Nat} (hn : 2 ≤ n) : ∃ m, n = m + 2 := ⟨n - 2, by omega⟩

/-- The frame of a line is returned with the byte that ends its closing flag. -/
theorem OneFrame.first {bs : List Byte} {junk : List Bool} {n : Nat} {payload : List Byte} {tail : List Bool}
    (hl : OneFrame bs junk n payload (fcs payload) tail) (hpos : 1 ≤ payload.length)
      (hmax : payload.length ≤ maxHdlcFrameLength - 2) :
    ∃ (pre post : List Byte) (b : Byte) (k : SoftHdlc) (r : List Bool), bs = pre ++ b :: post ∧ post.length = tail.length / 8 ∧
      13 ≤ r.length ∧ r.length < 24 ∧ (k.withBits r).rxTurn = .frame (k.withBits r) payload ∧
      init.returned bs = List.replicate pre.length none ++ some payload :: (k.withBits r).returned post ∧
      init.after (pre ++ [b]) = k.withBits r := by
  obtain ⟨m, rfl⟩ := flags_two hl.leading
  obtain ⟨u, hu, hr⟩ := reads_sent hl.aligned m hpos hmax tail
  rw [← hl.line] at hr
  have hlen := congrArg List.length hl.line
  simp only [List.length_append, show flag.length = 8 from rfl] at hlen
  rw [← hu]
  exact returned_first (h := init) (s := []) bs (by decide) hr (by omega)

theorem OneFrame.place {bs pre post : List Byte} {b : Byte} {junk : List Bool} {n : Nat} {payload : List Byte}
    {v : BitVec 16} {tail : List Bool}
    (hl : OneFrame bs junk n payload v tail) (hbs : bs = pre ++ b :: post) (hpost : post.length = tail.length / 8) :
    pre.length = ((junk ++ (flags n ++ (frameBits payload v ++ flag))).length + 7) / 8 - 1 := by
  have hlen := congrArg List.length hl.line
  rw [length_bits, hbs] at hlen
  simp only [List.length_append, List.length_cons, show flag.length = 8 from rfl] at hlen ⊢
  omega

/-- A frame is returned when its closing flag is there, and once if no whole byte follows;
    what has a wrong checksum or an abort in it is never returned. -/
theorem hdlc_frames (bs : List Byte) (junk : List Bool) (n : Nat) :
    (∀ payload tail, OneFrame bs junk n payload (fcs payload) tail → 1 ≤ payload.length →
      payload.length ≤ maxHdlcFrameLength - 2 →
      (∃ rest, init.returned bs = List.replicate
        (((junk ++ (flags n ++ (frameBits payload (fcs payload) ++ flag))).length + 7) / 8 - 1) none
        ++ some payload :: rest) ∧
      (ReturnsOnce bs payload (junk ++ (flags n ++ (frameBits payload (fcs payload) ++ flag))).length ↔ tail.length < 8)) ∧
    (∀ payload v m y, OneFrame bs junk n payload v (flags m ++ y) → Cut y → v ≠ fcs payload →
      ∀ o, o ∈ init.returned bs → o = none) ∧
    (∀ c m y, junk.length < 8 → 2 ≤ n → HasAbort c →
      (∀ j, 0 < j → j < 8 + c.length → ¬ flag <+: (flag ++ (c ++ flag)).drop j) → Cut y →
      bits bs = junk ++ (flags n ++ (c ++ (flag ++ (flags m ++ y)))) → ∀ o, o ∈ init.returned bs → o = none) := by
  refine ⟨?_, ?_, ?_⟩
  · intro payload tail hl hpos hmax
    obtain ⟨pre, post, b, k, r, hbs, hpost, -, hr, hframe, hret, -⟩ := hl.first hpos hmax
    have hplace := hl.place hbs hpost
    unfold ReturnsOnce
    rw [hret, hplace]
    refine ⟨⟨_, rfl⟩, ?_, ?_⟩
    · intro honce
      obtain ⟨m, hm⟩ := honce
      have hrest := (List.cons.inj (List.append_cancel_left hm)).2
      by_contra htail
      cases post with
      | nil =>
        rw [List.length_nil] at hpost
        omega
      | cons c post =>
        have hagain := (rxProcess_again (by omega) hframe c).1
        rw [returned, hagain] at hrest
        cases m with
        | zero => cases hrest
        | succ m => cases (List.cons.inj hrest).1
    · intro htail
      rw [Nat.div_eq_of_lt htail] at hpost
      rw [List.length_eq_zero_iff.1 hpost]
      exact ⟨0, rfl⟩
  · intro payload v m y hl hy hv
    obtain ⟨n, rfl⟩ := flags_two hl.leading
    refine returned_none (h := init) (s := []) (by decide) bs fun data u => ?_
    rw [List.nil_append, hl.line]
    exact never_wrong hl.aligned n payload hv m hy data u
  · intro c m y hj hn habort hno hy hline
    obtain ⟨n, rfl⟩ := flags_two hn
    refine returned_none (h := init) (s := []) (by decide) bs fun data u => ?_
    rw [List.nil_append, hline]
    exact never_aborted hj n habort hno m hy data u

theorem countP_none (n : Nat) : (List.replicate n (none : Option (List Byte))).countP Option.isSome = 0 := by
  simp [List.countP_replicate]

/-- Two flags, the frame of one byte, and bits to fill the last byte. -/
def oneByte : List Byte := [0x7e, 0x7e, 0x41, 0xf5, 0x45, 0xfd, 0xfc]

theorem hdlc_frames_oneByte : ReturnsOnce oneByte [0x41] 49 := by
  have hl : OneFrame oneByte [] 2 [0x41] (fcs [0x41]) [false, true, true, true, true, true, true] :=
    ⟨by decide, by decide, by decide +kernel⟩
  exact ((hdlc_frames oneByte [] 2).1 [0x41] _ hl (by decide) (by decide)).2.2 (by decide)

/-- With one more flag behind it the same frame is returned twice. -/
theorem hdlc_returned_twice : ¬ ReturnsOnce (oneByte ++ [0xfc]) [0x41] 49 := by
  intro h
  obtain ⟨m, hm⟩ := h
  have htwo : (init.returned (oneByte ++ [0xfc])).countP Option.isSome = 2 := by decide +kernel
  rw [hm, List.countP_append, List.countP_cons, countP_none, countP_none] at htwo
  cases htwo

/-! ## A second frame -/

/-- A line with two frames and flags between them. -/
structure TwoFrames (bs : List Byte) (junk : List Bool) (n : Nat) (first : List Byte) (k : Nat) (second : List Byte)
    (tail : List Bool) :
    Prop where
  aligned : junk.length < 8
  leading : 2 ≤ n
  between : 1 ≤ k
  firstSize : 1 ≤ first.length ∧ first.length ≤ maxHdlcFrameLength - 2
  secondSize : 1 ≤ second.length ∧ second.length ≤ maxHdlcFrameLength - 2
  line : bits bs = junk
    ++ (flags n ++ (frameBits first (fcs first) ++ (flags k ++ (frameBits second (fcs second) ++ (flag ++ tail)))))

/-- The first frame is returned, and then the second, each once. -/
def ReturnsBoth (bs first second : List Byte) : Prop :=
  ∃ i j m, init.returned bs = List.replicate i none
    ++ some first :: (List.replicate j none ++ some second :: List.replicate m none)

/-- The bits that are kept fit. -/
def FewBits (bs : List Byte) : Prop := ∀ as, as <+: bs → (init.after as).residBitCount < 32

theorem hdlc_second : ∀ bs junk n first k second tail, TwoFrames bs junk n first k second tail →
    ¬ ReturnsBoth bs first second ∧ ¬ FewBits bs := by
  intro bs junk n first k second tail htwo
  obtain ⟨k', rfl⟩ : ∃ k', k = k' + 1 := ⟨k - 1, by have := htwo.between; omega⟩
  have hl : OneFrame bs junk n first (fcs first) (flags k' ++ (frameBits second (fcs second) ++ (flag ++ tail))) := by
    refine ⟨htwo.aligned, htwo.leading, ?_⟩
    rw [htwo.line, flags_succ, List.append_assoc]
  obtain ⟨pre, post, b, h, r, hbs, hpost, h13, hr, hframe, hret, haft⟩ := hl.first htwo.firstSize.1 htwo.firstSize.2
  -- a frame and a flag take four bytes at least
  have hmany : 4 ≤ post.length := by
    have hstuffed : 24 ≤ (frameBits second (fcs second)).length := by
      have hle := length_le_lag 0 (bits (second ++ fcsBytes (fcs second)))
      have hlen : (second ++ fcsBytes (fcs second)).length = second.length + 2 := by simp [fcsBytes]
      have hpos := htwo.secondSize.1
      unfold frameBits
      rw [stuff_zero, List.length_append]
      rw [length_bits, hlen] at hle
      omega
    simp only [List.length_append, show flag.length = 8 from rfl] at hpost
    omega
  obtain ⟨c, d, e, rest, hpost'⟩ : ∃ c d e rest, post = [c, d, e] ++ rest := by
    obtain ⟨c, post, rfl⟩ := List.exists_cons_of_length_pos (show 0 < post.length by omega)
    rw [List.length_cons] at hmany
    obtain ⟨d, post, rfl⟩ := List.exists_cons_of_length_pos (show 0 < post.length by omega)
    rw [List.length_cons] at hmany
    obtain ⟨e, post, rfl⟩ := List.exists_cons_of_length_pos (show 0 < post.length by omega)
    exact ⟨c, d, e, post, rfl⟩
  obtain ⟨hagain, hgrown⟩ := SoftHdlc.again 3 (by omega) hframe [c, d, e] rfl
  constructor
  · intro hboth
    obtain ⟨i, j, m, hm⟩ := hboth
    have htwo : (init.returned bs).countP Option.isSome = 2 := by
      rw [hm, List.countP_append, List.countP_cons, List.countP_append, List.countP_cons, countP_none, countP_none, countP_none]
      rfl
    rw [hret, hpost', returned_append, hagain, List.countP_append, List.countP_cons, List.countP_append, countP_none] at htwo
    simp at htwo
    omega
  · intro hfew
    have hkept := hfew (pre ++ [b] ++ [c, d, e]) ⟨rest, by rw [hbs, hpost']; simp⟩
    rw [after_append, haft, hgrown] at hkept
    omega

/-- Two frames of a byte each and a flag between them. -/
def twoBytes : List Byte := [0x7e, 0x7e, 0x41, 0xf5, 0x45, 0xfd, 0x84, 0xdc, 0x22, 0xfd, 0xfc]

theorem hdlc_second_bytes : ¬ ReturnsBoth twoBytes [0x41] [0x42] ∧ ¬ FewBits twoBytes :=
  hdlc_second _ [] 2 [0x41] 1 [0x42] [false, true, true, true, true, true, true]
    ⟨by decide, by decide, by decide, by decide, by decide, by decide +kernel⟩

/-- The first frame comes again and again, and with the third byte behind it 36 bits are kept. -/
theorem hdlc_stuck : ¬ (ReturnsBoth twoBytes [0x41] [0x42] ∧ FewBits twoBytes) := by
  intro h
  have hkept := h.2 (twoBytes.take 9) (List.take_prefix 9 twoBytes)
  exact absurd hkept (by decide +kernel)

end Divas.Tty
