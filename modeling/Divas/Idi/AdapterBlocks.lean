/-
  Divas.Idi.AdapterBlocks — the blocks of a request.

  `pr_out` copies at most 270 bytes of the buffers of an entity and remembers where it has
  stopped: in `XCurrent` the buffer, in `XOffset` the byte. `left` is the data from a place
  on. The copy stops when it has 270 bytes or behind the last buffer, so that an empty
  buffer behind full blocks needs a block of its own (`blocks`).

  `More` has the number of the blocks without a return code (XMOREC), and says that a block
  has more data behind it (XMOREP), that the last block is sent (XMOREF), and that the
  entity waits for the callback (XBUSY).
-/

import Mathlib.Data.List.GetD
import Mathlib.Algebra.Ring.Nat
import Divas.Idi.Adapter

namespace Divas.Idi

/-! ## The byte `More` -/

def counted (m : BitVec 8) : Nat := (m &&& xmorec).toNat

theorem counted_eq_zero (m : BitVec 8) : counted m = 0 ↔ m &&& xmorec = 0 := by
  simp [counted, BitVec.toNat_eq]

/-- Flags set and then flags cleared, under a mask. -/
theorem more_masked (m set keep mask : BitVec 8) :
    ((m ||| set) &&& keep) &&& mask = m &&& (keep &&& mask) ||| set &&& (keep &&& mask) := by
  rw [BitVec.and_assoc, BitVec.and_or_distrib_right]

theorem or_ne_zero {x y : BitVec 8} (h : x ≠ 0) : x ||| y ≠ 0 := fun hor => h (BitVec.or_eq_zero_iff.mp hor).1

theorem more_up : ∀ m : BitVec 8, counted m < 15 →
    (m + 1) &&& xbusy = m &&& xbusy ∧ (m + 1) &&& xmoref = m &&& xmoref ∧ counted (m + 1) = counted m + 1 := by decide +kernel

/-- A request of an entity whose blocks have all been answered. -/
theorem more_start (m : BitVec 8) (hpart : m &&& xmorep = 0) (hcount : counted m = 0) :
    ((m ||| xbusy) &&& ~~~xmoref) &&& xbusy ≠ 0 ∧ ((m ||| xbusy) &&& ~~~xmoref) &&& xmorep = 0 ∧
      ((m ||| xbusy) &&& ~~~xmoref) &&& xmoref = 0 ∧ counted ((m ||| xbusy) &&& ~~~xmoref) = 0 := by
  rw [counted_eq_zero] at hcount ⊢
  simp only [more_masked]
  refine ⟨?_, ?_, ?_, ?_⟩
  · rw [BitVec.or_comm]
    exact or_ne_zero (by decide)
  · rw [show ~~~xmoref &&& xmorep = xmorep from rfl, hpart]
    rfl
  · rw [show ~~~xmoref &&& xmoref = 0 from rfl]
    simp
  · rw [show ~~~xmoref &&& xmorec = xmorec from rfl, hcount]
    rfl

theorem more_next (m : BitVec 8) (hbusy : m &&& xbusy ≠ 0) (hsent : m &&& xmoref = 0) (hlt : counted m < 15) :
    ((m + 1) ||| xmorep) &&& xbusy ≠ 0 ∧ ((m + 1) ||| xmorep) &&& xmorep ≠ 0 ∧
      ((m + 1) ||| xmorep) &&& xmoref = 0 ∧ counted ((m + 1) ||| xmorep) = counted m + 1 := by
  obtain ⟨hb, hf, hc⟩ := more_up m hlt
  simp only [counted, BitVec.and_or_distrib_right] at hc ⊢
  refine ⟨?_, ?_, ?_, ?_⟩
  · rw [hb]
    exact or_ne_zero hbusy
  · rw [BitVec.or_comm]
    exact or_ne_zero (by decide)
  · rw [hf, hsent]
    rfl
  · rw [← hc, show xmorep &&& xmorec = 0 from rfl]
    simp

theorem more_assign (m : BitVec 8) (hbusy : m &&& xbusy ≠ 0) :
    ((m ||| xmoref) &&& ~~~xmorep) &&& xbusy ≠ 0 ∧ ((m ||| xmoref) &&& ~~~xmorep) &&& xmorep = 0 ∧
      ((m ||| xmoref) &&& ~~~xmorep) &&& xmoref ≠ 0 ∧ counted ((m ||| xmoref) &&& ~~~xmorep) = counted m := by
  simp only [counted, more_masked]
  refine ⟨?_, ?_, ?_, ?_⟩
  · rw [show ~~~xmorep &&& xbusy = xbusy from rfl]
    exact or_ne_zero hbusy
  · rw [show ~~~xmorep &&& xmorep = 0 from rfl]
    simp
  · rw [BitVec.or_comm]
    exact or_ne_zero (by decide)
  · rw [show ~~~xmorep &&& xmorec = xmorec from rfl, show xmoref &&& xmorec = 0 from rfl]
    simp

theorem more_last (m : BitVec 8) (hbusy : m &&& xbusy ≠ 0) (hlt : counted m < 15) :
    (((m + 1) ||| xmoref) &&& ~~~xmorep) &&& xbusy ≠ 0 ∧ (((m + 1) ||| xmoref) &&& ~~~xmorep) &&& xmorep = 0 ∧
      (((m + 1) ||| xmoref) &&& ~~~xmorep) &&& xmoref ≠ 0 ∧
      counted (((m + 1) ||| xmoref) &&& ~~~xmorep) = counted m + 1 := by
  obtain ⟨hb, -, hc⟩ := more_up m hlt
  obtain ⟨hbusy', hpart, hsent, hcount⟩ := more_assign (m + 1) (by rw [hb]; exact hbusy)
  exact ⟨hbusy', hpart, hsent, hcount.trans hc⟩

theorem more_down : ∀ m : BitVec 8, m &&& xmorec ≠ 0 →
    (m - 1) &&& xbusy = m &&& xbusy ∧ (m - 1) &&& xmorep = m &&& xmorep ∧ (m - 1) &&& xmoref = m &&& xmoref ∧
      counted (m - 1) + 1 = counted m := by decide +kernel

theorem more_done (m : BitVec 8) : (m &&& ~~~xbusy) &&& xbusy = 0 ∧ (m &&& ~~~xbusy) &&& xmorep = m &&& xmorep ∧
    counted (m &&& ~~~xbusy) = counted m := by
  have hbusy : ~~~xbusy &&& xbusy = 0 := rfl
  have hpart : ~~~xbusy &&& xmorep = xmorep := rfl
  have hcount : ~~~xbusy &&& xmorec = xmorec := rfl
  simp [counted, BitVec.and_assoc, hbusy, hpart, hcount]

theorem more_dropped (m : BitVec 8) : (m &&& ~~~(xbusy ||| xmorec)) &&& xmorep = m &&& xmorep ∧
    counted (m &&& ~~~(xbusy ||| xmorec)) = 0 := by
  have hpart : ~~~(xbusy ||| xmorec) &&& xmorep = xmorep := rfl
  have hcount : ~~~(xbusy ||| xmorec) &&& xmorec = 0 := rfl
  simp only [counted, BitVec.and_assoc, hpart, hcount]
  simp

/-- The callback is for an entity without blocks that wait for a return code. -/
theorem more_answered (m : BitVec 8) : m &&& (xmorec ||| xmorep) = 0 ↔ m &&& xmorep = 0 ∧ counted m = 0 := by
  have hor : m &&& xmorec ||| m &&& xmorep = 0 ↔ m &&& xmorec = 0 ∧ m &&& xmorep = 0 := BitVec.or_eq_zero_iff
  rw [counted_eq_zero, BitVec.and_or_distrib_left, hor, and_comm]

/-! ## Places in the buffers -/

/-- The data from byte `o` of buffer `i` on. -/
def left (x : List (List UInt8)) (i o : Nat) : List UInt8 := (x.drop i).flatten.drop o

/-- A place before a byte, or at the end of all buffers; buffers in between may be empty. -/
structure At (x : List (List UInt8)) (i o : Nat) : Prop where
  le : i ≤ x.length
  inside : o ≠ 0 → i < x.length ∧ o < (x.getD i []).length

theorem At.start (x : List (List UInt8)) : At x 0 0 := ⟨Nat.zero_le _, fun h => absurd rfl h⟩

@[simp] theorem left_start (x : List (List UInt8)) : left x 0 0 = x.flatten := rfl

section Places

variable {x : List (List UInt8)} {i o : Nat}

theorem left_end : left x x.length o = [] := by
  unfold left
  rw [List.drop_length]
  exact List.drop_nil

theorem drop_getD (h : i < x.length) : x.drop i = x.getD i [] :: x.drop (i + 1) := by
  rw [List.getD_eq_getElem x [] h]
  exact List.drop_eq_getElem_cons h

/-- The rest of a buffer, and the buffers behind it. -/
theorem left_eq (h : i < x.length) (ho : o ≤ (x.getD i []).length) : left x i o = (x.getD i []).drop o ++ left x (i + 1) 0 := by
  unfold left
  rw [drop_getD h, List.flatten_cons, List.drop_append_of_le_length ho, List.drop_zero]

/-- Where no data is left, the buffers are all empty. -/
theorem last_empty (hat : At x i o) (hlt : i < x.length) (hleft : left x i o = []) : x.getLast? = some [] := by
  by_cases ho : o = 0
  · subst ho
    unfold left at hleft
    rw [List.drop_zero, List.flatten_eq_nil_iff] at hleft
    have hlast : (x.drop i).getLast? = x.getLast? := by
      rw [List.getLast?_drop, if_neg (by omega)]
    rw [← hlast]
    cases hd : (x.drop i).getLast? with
    | none =>
      rw [List.getLast?_eq_none_iff, List.drop_eq_nil_iff] at hd
      omega
    | some y =>
      rw [hleft y (List.mem_of_getLast? hd)]
  · obtain ⟨-, hin⟩ := hat.inside ho
    rw [left_eq hlt (Nat.le_of_lt hin), List.append_eq_nil_iff, List.drop_eq_nil_iff] at hleft
    omega

end Places

/-! ## One block -/

/-- A copy from `i` and `o` on ends behind the bytes that it has copied. -/
structure Copied (x : List (List UInt8)) (i o : Nat) (data : List UInt8) (r : Nat × Nat × List UInt8) : Prop where
  same : r.2.2 ++ left x r.1 r.2.1 = data ++ left x i o
  small : r.2.2.length ≤ 270
  at_end : At x r.1 r.2.1
  full : r.1 < x.length → r.2.2.length = 270
  last : data.length < 270 → r.1 = x.length → r.2.2.length = 270 → x.getLast? ≠ some []

theorem fill_spec (x : List (List UInt8)) (n : Nat) : ∀ i o data, i + n = x.length → At x i o → data.length ≤ 270 →
    Copied x i o data (Adapter.fill x n i o data) := by
  induction n with
  | zero =>
    intro i o data hi hat hlen
    refine ⟨rfl, hlen, hat, ?_, ?_⟩
    · intro hlt
      change i < x.length at hlt
      omega
    · intro hlt _ hfull
      change data.length = 270 at hfull
      omega
  | succ n ih =>
    intro i o data hi hat hlen
    unfold Adapter.fill
    by_cases hroom : data.length < 270
    · rw [if_pos hroom]
      dsimp only
      have hlt : i < x.length := by omega
      have ho : o ≤ (x.getD i []).length := by
        by_cases hz : o = 0
        · omega
        · exact Nat.le_of_lt (hat.inside hz).2
      have hleft := left_eq hlt ho
      have hcopy : ((x.getD i []).drop o).length = (x.getD i []).length - o := List.length_drop
      by_cases hall : o + min (270 - data.length) ((x.getD i []).length - o) = (x.getD i []).length
      · rw [if_pos hall]
        have htake : ((x.getD i []).drop o).take (min (270 - data.length) ((x.getD i []).length - o)) = (x.getD i []).drop o := by
          apply List.take_of_length_le
          omega
        rw [htake]
        have hlen' : (data ++ (x.getD i []).drop o).length ≤ 270 := by
          rw [List.length_append]
          omega
        have hnext := ih (i + 1) 0 (data ++ (x.getD i []).drop o) (by omega) ⟨by omega, fun h => absurd rfl h⟩ hlen'
        refine ⟨?_, hnext.small, hnext.at_end, hnext.full, ?_⟩
        · rw [hnext.same, hleft, List.append_assoc]
        · intro _ hend hfull
          by_cases hroom' : (data ++ (x.getD i []).drop o).length < 270
          · exact hnext.last hroom' hend hfull
          · -- the block is full behind this buffer, which then is the last and not empty
            have hstop : Adapter.fill x n (i + 1) 0 (data ++ (x.getD i []).drop o)
                = (i + 1, 0, data ++ (x.getD i []).drop o) := by
              cases n with
              | zero => rfl
              | succ n =>
                unfold Adapter.fill
                rw [if_neg hroom']
            rw [hstop] at hend
            change i + 1 = x.length at hend
            rw [List.length_append] at hroom'
            rw [List.getLast?_eq_getElem?, show x.length - 1 = i by omega, List.getElem?_eq_getElem hlt]
            rw [List.getD_eq_getElem x [] hlt] at hcopy hroom'
            intro hnil
            rw [Option.some.injEq] at hnil
            rw [hnil] at hcopy hroom'
            simp only [List.length_nil] at hcopy
            omega
      · rw [if_neg hall]
        have hfull : (data ++ ((x.getD i []).drop o).take (min (270 - data.length) ((x.getD i []).length - o))).length = 270 := by
          rw [List.length_append, List.length_take]
          omega
        refine ⟨?_, Nat.le_of_eq hfull, ⟨hat.le, fun _ => ⟨hlt, ?_⟩⟩, fun _ => hfull, ?_⟩
        · show (data ++ ((x.getD i []).drop o).take _) ++ left x i (o + _) = data ++ left x i o
          rw [left_eq hlt (by omega), hleft, List.append_assoc, ← List.append_assoc (List.take _ _), ← List.drop_drop,
            List.take_append_drop]
        · show o + min (270 - data.length) ((x.getD i []).length - o) < (x.getD i []).length
          omega
        · intro _ hend
          change i = x.length at hend
          omega
    · rw [if_neg hroom]
      refine ⟨rfl, hlen, hat, ?_, ?_⟩
      · intro _
        show data.length = 270
        omega
      · intro hlt
        exact absurd hlt hroom

/-! ## The number of blocks -/

/-- As many as 270 bytes in each need, and one more for empty buffers behind full blocks. -/
def blocks (x : List (List UInt8)) : Nat :=
  let n := x.flatten.length
  if n = 0 then 1 else (n + 269) / 270 + if n % 270 = 0 ∧ x.getLast? = some [] then 1 else 0

/-- `k` full blocks have been taken, and behind them buffers are left. -/
structure Position (e : Entity) (k : Nat) : Prop where
  place : At e.x e.xCurrent e.xOffset
  taken : e.x.flatten.length = 270 * k + (left e.x e.xCurrent e.xOffset).length
  behind : 0 < k → e.xCurrent < e.x.length

section Position

variable {e : Entity} {k : Nat}

theorem Position.nextData (h : Position e k) : Copied e.x e.xCurrent e.xOffset [] (Adapter.nextData e) :=
  fill_spec e.x _ _ _ _ (by have := h.place.le; omega) h.place (Nat.zero_le _)

/-- A block is still to come. -/
theorem Position.lt_blocks (h : Position e k) : k < blocks e.x := by
  unfold blocks
  dsimp only
  have htaken := h.taken
  by_cases hnone : e.x.flatten.length = 0
  · rw [if_pos hnone]
    omega
  · rw [if_neg hnone]
    by_cases hleft : left e.x e.xCurrent e.xOffset = []
    · rw [hleft, List.length_nil] at htaken
      have hlast := last_empty h.place (h.behind (by omega)) hleft
      rw [if_pos ⟨by omega, hlast⟩]
      omega
    · have hpos := List.length_pos_iff.mpr hleft
      omega

/-- Behind a full block, with buffers left. -/
theorem Position.next (h : Position e k) (hmore : (Adapter.nextData e).1 < e.x.length) {e' : Entity} (hx : e'.x = e.x)
    (hcurrent : e'.xCurrent = (Adapter.nextData e).1) (hoffset : e'.xOffset = (Adapter.nextData e).2.1) :
      Position e' (k + 1) := by
  have hfill := h.nextData
  have htaken := h.taken
  have hlen := congrArg List.length hfill.same
  rw [List.nil_append, List.length_append, hfill.full hmore] at hlen
  refine ⟨?_, ?_, ?_⟩
  · rw [hx, hcurrent, hoffset]
    exact hfill.at_end
  · rw [hx, hcurrent, hoffset]
    omega
  · intro _
    rw [hx, hcurrent]
    exact hmore

/-- The last block takes what is left. -/
theorem Position.last (h : Position e k) (hend : ¬ (Adapter.nextData e).1 < e.x.length) :
    (Adapter.nextData e).2.2 = left e.x e.xCurrent e.xOffset ∧ blocks e.x = k + 1 := by
  have hfill := h.nextData
  have htaken := h.taken
  have hle := hfill.at_end.le
  have heq : (Adapter.nextData e).1 = e.x.length := by omega
  have hsame := hfill.same
  rw [heq, left_end, List.append_nil, List.nil_append] at hsame
  refine ⟨hsame, ?_⟩
  have hsmall := hfill.small
  rw [← hsame] at htaken
  unfold blocks
  dsimp only
  by_cases hnone : e.x.flatten.length = 0
  · rw [if_pos hnone]
    omega
  · rw [if_neg hnone]
    by_cases hdata : (Adapter.nextData e).2.2.length = 0
    · have hlast := last_empty h.place (h.behind (by omega)) (by rw [← hsame]; exact List.length_eq_zero_iff.mp hdata)
      rw [if_pos ⟨by omega, hlast⟩]
      omega
    · rw [if_neg]
      · omega
      · rintro ⟨hmod, hlast⟩
        exact hfill.last (Nat.zero_lt_succ _) heq (by omega) hlast

end Position

end Divas.Idi
