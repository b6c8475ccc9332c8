/-
  Divas.Tty.BtxBlocks — the blocks of a page, and how the client reads them.

  `frame page k` is what `btxWrite` presents as block `k` of a page. The client takes the DLE
  stuffing away (`unstuff`) and has the data, the end code and the checksum (`readBlock`).

  Proved: the checksum of the table is the remainder by `crcPoly` (`btxCRC16_eq`), a frame is
  read back (`readBlock_frame`), and the blocks together are the page (`presents_frames`).
-/

import Divas.Lib.Crc
import Divas.Tty.Btx

namespace Divas.Tty.Btx

open Divas.Lib.Bytes Divas.Lib.Crc

/-! ## Reading a block -/

structure Block where
  data : List UInt8
  endCC : UInt8
  checksum : BitVec 16

/-- The data up to an end code, the end code, and what is behind it. -/
def unstuff : List UInt8 → Option (List UInt8 × UInt8 × List UInt8)
  | a :: b :: rest =>
    if a = ascDle then
      if b = ascDle then (unstuff rest).map fun r => (ascDle :: r.1, r.2)
      else some ([], b, rest)
    else (unstuff (b :: rest)).map fun r => (a :: r.1, r.2)
  | _ => none

def readBlock : List UInt8 → Option Block
  | a :: b :: rest =>
    if a = ascDle ∧ b = ascStx then
      match unstuff rest with
      | some (data, endCC, [lo, hi]) => some ⟨data, endCC, hi.toBitVec ++ lo.toBitVec⟩
      | _ => none
    else none
  | _ => none

theorem unstuff_cons {a : UInt8} (ha : a ≠ ascDle) (bs : List UInt8) :
    unstuff (a :: bs) = (unstuff bs).map fun r => (a :: r.1, r.2) := by
  cases bs with
  | nil => rfl
  | cons b bs => rw [unstuff, if_neg ha]

theorem unstuff_doubled {e : UInt8} (he : e ≠ ascDle) (bs rest : List UInt8) :
    unstuff (doubled bs ++ ascDle :: e :: rest) = some (bs, e, rest) := by
  induction bs with
  | nil =>
    show unstuff (ascDle :: e :: rest) = _
    rw [unstuff, if_pos rfl, if_neg he]
  | cons b bs ih =>
    by_cases hb : b = ascDle
    · rw [doubled, if_pos hb, hb, List.cons_append, List.cons_append, unstuff, if_pos rfl, if_pos rfl, ih]
      rfl
    · rw [doubled, if_neg hb, List.cons_append, unstuff_cons hb, ih]
      rfl

theorem doubled_length_le (bs : List UInt8) : (doubled bs).length ≤ 2 * bs.length := by
  induction bs with
  | nil => exact Nat.le_refl _
  | cons b bs ih =>
    unfold doubled
    split <;> simp only [List.length_cons] <;> omega

/-! ## The checksum -/

def crcPoly : BitVec 16 := 0xa001

theorem crctab_eq : ∀ i, i < 256 → crctab.getD i 0 = shifts crcPoly 8 (BitVec.ofNat 16 i) := by
  have htable : crctab = (List.range 256).map fun i => shifts crcPoly 8 (BitVec.ofNat 16 i) := by decide +kernel
  intro i hi
  rw [htable]
  simp [List.getD_eq_getElem?_getD, hi]

/-- The remainder over some bytes. -/
def crcOf (bs : List UInt8) : BitVec 16 := bs.foldl (fun crc b => crcByte crcPoly crc b.toBitVec) 0

theorem btxCRC16_eq (bs : List UInt8) : btxCRC16 0 bs = crcOf bs := by
  unfold btxCRC16 crcOf
  congr 1
  funext crc b
  rw [table_crcByte crctab_eq]
  congr 1
  exact BitVec.eq_of_toNat_eq (by simp)

theorem checksum_bytes (c : BitVec 16) : (c >>> 8).setWidth 8 ++ c.setWidth 8 = c := by
  refine BitVec.eq_of_getLsbD_eq fun i hi => ?_
  rw [BitVec.getLsbD_append, BitVec.getLsbD_setWidth, BitVec.getLsbD_setWidth, BitVec.getLsbD_ushiftRight]
  by_cases h : i < 8
  · simp [h]
  · have hback : 8 + (i - 8) = i := by omega
    simp [h, hback, show i - 8 < 8 by omega]

/-! ## The blocks of a page -/

def chunk (page : List UInt8) (k : Nat) : List UInt8 := (page.drop (256 * k)).take 256

def endOf (page : List UInt8) (k : Nat) : UInt8 := if 256 * (k + 1) ≥ page.length then ascEtx else ascEtb

def frame (page : List UInt8) (k : Nat) : List UInt8 :=
  let checksum := crcOf (chunk page k ++ [endOf page k])
  [ascDle, ascStx] ++ doubled (chunk page k) ++
    [ascDle, endOf page k, UInt8.ofBitVec (checksum.setWidth 8), UInt8.ofBitVec ((checksum >>> 8).setWidth 8)]

def blocks (page : List UInt8) : Nat := (page.length + 255) / 256

def frames (page : List UInt8) : List (List UInt8) := (List.range (blocks page)).map (frame page)

theorem lt_blocks_iff (page : List UInt8) (k : Nat) : k < blocks page ↔ 256 * k < page.length := by
  unfold blocks
  omega

theorem length_chunk (page : List UInt8) (k : Nat) :
    (chunk page k).length = if page.length - 256 * k > 256 then 256 else page.length - 256 * k := by
  unfold chunk
  rw [List.length_take, List.length_drop]
  split <;> omega

theorem endOf_ne_dle (page : List UInt8) (k : Nat) : endOf page k ≠ ascDle := by
  unfold endOf
  split <;> decide

theorem frame_length_le (page : List UInt8) (k : Nat) : (frame page k).length ≤ isdnMaxFrame := by
  have hchunk : (chunk page k).length ≤ 256 := List.length_take_le ..
  have hdouble := doubled_length_le (chunk page k)
  unfold frame isdnMaxFrame
  simp only [List.length_append, List.length_cons, List.length_nil]
  omega

theorem readBlock_frame (page : List UInt8) (k : Nat) :
    readBlock (frame page k) = some ⟨chunk page k, endOf page k, crcOf (chunk page k ++ [endOf page k])⟩ := by
  unfold frame
  simp only [List.cons_append, List.nil_append]
  rw [readBlock, if_pos ⟨rfl, rfl⟩, unstuff_doubled (endOf_ne_dle page k)]
  simp only [checksum_bytes]

theorem chunks_flatten (page : List UInt8) (n : Nat) : ((List.range n).map (chunk page)).flatten = page.take (256 * n) := by
  induction n with
  | zero => rfl
  | succ n ih =>
    rw [List.range_succ, List.map_append, List.flatten_append, ih, Nat.mul_succ, List.take_add]
    simp [chunk]

/-- The blocks that the client reads are the page: all but the last end with an ETB. -/
def Presents (page : List UInt8) (fs : List (List UInt8)) : Prop :=
  ∃ bs : List Block, fs.map readBlock = bs.map some ∧ (bs.map Block.data).flatten = page ∧
    (∀ b ∈ bs, b.data ≠ [] ∧ b.data.length ≤ 256 ∧ b.checksum = crcOf (b.data ++ [b.endCC])) ∧
    ∀ k b, bs[k]? = some b → b.endCC = if k + 1 = bs.length then ascEtx else ascEtb

theorem presents_frames (page : List UInt8) : Presents page (frames page) := by
  refine ⟨(List.range (blocks page)).map fun k => ⟨chunk page k, endOf page k, crcOf (chunk page k ++ [endOf page k])⟩,
    ?_, ?_, ?_, ?_⟩
  · unfold frames
    simp only [List.map_map]
    exact List.map_congr_left fun k _ => readBlock_frame page k
  · rw [List.map_map, show Block.data ∘ _ = chunk page from rfl, chunks_flatten]
    refine List.take_of_length_le ?_
    unfold blocks
    omega
  · intro b hb
    obtain ⟨k, hk, rfl⟩ := List.mem_map.mp hb
    have hlt := (lt_blocks_iff page k).mp (List.mem_range.mp hk)
    have hlen := length_chunk page k
    refine ⟨fun hnil => ?_, List.length_take_le .., rfl⟩
    have hzero : (chunk page k).length = 0 := congrArg List.length hnil
    split at hlen <;> omega
  · intro k b hb
    rw [List.getElem?_map, Option.map_eq_some_iff] at hb
    obtain ⟨j, hj, rfl⟩ := hb
    obtain ⟨hk, rfl⟩ := List.getElem?_eq_some_iff.mp hj
    rw [List.length_range] at hk
    have hlast : 256 * (k + 1) ≥ page.length ↔ k + 1 = blocks page := by
      have := lt_blocks_iff page (k + 1)
      omega
    simp only [List.getElem_range, List.length_map, List.length_range, endOf]
    by_cases h : k + 1 = blocks page
    · rw [if_pos h, if_pos (hlast.mpr h)]
    · rw [if_neg h, if_neg (fun hge => h (hlast.mp hge))]

/-- There are no fewer blocks than the page has bytes for. -/
theorem Presents.length_le {page : List UInt8} {fs : List (List UInt8)} (h : Presents page fs) :
    page.length ≤ 256 * fs.length := by
  obtain ⟨bs, hread, hpage, hall, -⟩ := h
  have hcount : fs.length = bs.length := by
    have := congrArg List.length hread
    simpa using this
  have hsum : ∀ bs : List Block, (∀ b ∈ bs, b.data.length ≤ 256) → (bs.map Block.data).flatten.length ≤ 256 * bs.length := by
    intro bs
    induction bs with
    | nil => intro _; exact Nat.le_refl _
    | cons b bs ih =>
      intro hb
      have hfirst := hb b (List.mem_cons_self ..)
      have hrest := ih fun b' hb' => hb b' (List.mem_cons_of_mem _ hb')
      rw [List.map_cons, List.flatten_cons, List.length_append, List.length_cons]
      omega
  rw [hcount, ← hpage]
  exact hsum bs fun b hb => (hall b hb).2.1

end Divas.Tty.Btx
