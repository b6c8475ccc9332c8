/-
  Divas.Dsp.Bounds — a pass writes inside its buffers.

  One lemma for each function says what it leaves, by what the file has at the position. Proved:
  a pass stops with a fault just if it comes to something that does not fit its buffers, and then
  the fault is a write (`pass_ends`); a place of the layout is a state of the loop (`Stands`).
-/

import Divas.Dsp.Layout

namespace Divas.Dsp

open Divas.Lib.Bytes Divas.Lib.Checks

variable {file : File}

/-! ## Reads -/

theorem length_read (file : File) (position size : Nat) : (file.read position size).length = min size (file.size - position) := by
  unfold File.read File.size
  rw [List.length_take, List.length_drop]

theorem length_read_of_le {position size : Nat} (h : position + size ≤ file.size) : (file.read position size).length = size := by
  rw [length_read]
  omega

theorem load_mem {position size : Nat} (h : position + size ≤ file.size) :
    load file.mem position size = file.read position size := by
  unfold File.size at h
  unfold load File.read File.mem
  apply List.ext_getElem
  · simp only [List.length_map, List.length_range, List.length_take, List.length_drop]
    omega
  · intro i hi hi'
    rw [List.getElem_map, List.getElem_range, List.getElem_take, List.getElem_drop]
    exact (List.getElem_eq_getD 0).symm

theorem checked_bind {α β : Type} (x : Checked α) (f : α → Except Stop β) :
    (checked x >>= f) = match x with
      | .ok a => f a
      | .error e => .error (.fault e) := by
  cases x <;> rfl

/-- A read in one piece. -/
theorem dspRead_one {position size bufferSize room : Nat} (buffer : Mem) (hone : size ≤ bufferSize) (hpos : 0 < size) :
    dspRead file position size buffer bufferSize room = put room buffer 0 (file.read position size) >>= fun b =>
      .ok (if (file.read position size).length = size then ⟨true, position + size, b⟩
        else ⟨false, position + (file.read position size).length, b⟩) := by
  obtain ⟨n, rfl⟩ := Nat.exists_eq_succ_of_ne_zero (Nat.pos_iff_ne_zero.mp hpos)
  have hchunk : (if n + 1 ≥ bufferSize then bufferSize else n + 1) = n + 1 := by
    split <;> omega
  unfold dspRead
  rw [dspReadLoop, if_neg (Nat.succ_ne_zero n)]
  simp only [Nat.succ_eq_add_one, hchunk]
  congr 1
  funext b
  by_cases hall : (file.read position (n + 1)).length = n + 1
  · rw [if_neg (not_not.mpr hall), if_pos hall, Nat.sub_self]
    cases n <;> rfl
  · rw [if_pos hall, if_neg hall]
    rfl

theorem dspRead_whole {position size bufferSize room : Nat} (buffer : Mem) (hone : size ≤ bufferSize) (hroom : size ≤ room)
    (hin : position + size ≤ file.size) :
    dspRead file position size buffer bufferSize room
      = .ok ⟨true, position + size, store buffer 0 (file.read position size)⟩ := by
  have hlen := length_read_of_le hin
  by_cases hpos : 0 < size
  · rw [dspRead_one buffer hone hpos, put_of_le buffer (by omega), blit_eq_store, ok_bind_ok, if_pos hlen]
  · have hzero : size = 0 := by omega
    have hnil : file.read position size = [] := List.eq_nil_of_length_eq_zero (by omega)
    rw [hnil, store_nil, hzero]
    rfl

theorem dspRead_short {position size bufferSize room : Nat} (buffer : Mem) (hone : size ≤ bufferSize) (hle : position ≤ file.size)
    (hout : file.size < position + size) (hroom : file.size - position ≤ room) :
    ∃ b, dspRead file position size buffer bufferSize room = .ok ⟨false, file.size, b⟩ := by
  have hlen := length_read file position size
  have hput : put room buffer 0 (file.read position size) = .ok (blit buffer 0 (file.read position size)) :=
    put_of_le buffer (by omega)
  refine ⟨blit buffer 0 (file.read position size), ?_⟩
  rw [dspRead_one buffer hone (by omega), hput, ok_bind_ok, if_neg (by omega),
    show position + (file.read position size).length = file.size by omega]

/-- The buffer is too small. -/
theorem dspRead_over {position size bufferSize room : Nat} (buffer : Mem) (hone : size ≤ bufferSize) (hroom : room < size)
    (hin : position + room < file.size) : dspRead file position size buffer bufferSize room = .error .write := by
  have hlen := length_read file position size
  have hput : put room buffer 0 (file.read position size) = .error .write := if_neg (by omega)
  rw [dspRead_one buffer hone (by omega), hput]
  rfl

/-- A buffer that is as large as the pieces. -/
theorem dspReadLoop_pieces {n : Nat} (hn : 0 < n) {turns : Nat} (size position : Nat) (hturns : size ≤ turns)
    (hle : position ≤ file.size)
    (buffer : Mem) :
    ∃ b, dspReadLoop file n n turns size position buffer
      = .ok (if position + size ≤ file.size then ⟨true, position + size, b⟩ else ⟨false, file.size, b⟩) := by
  induction turns generalizing size position buffer with
  | zero =>
    have hzero : size = 0 := by omega
    refine ⟨buffer, ?_⟩
    rw [dspReadLoop, if_pos hzero, hzero, if_pos (by omega)]
    rfl
  | succ turns ih =>
    by_cases hzero : size = 0
    · refine ⟨buffer, ?_⟩
      rw [dspReadLoop, if_pos hzero, hzero, if_pos (by omega)]
      rfl
    · obtain ⟨chunk, hchunk⟩ : ∃ chunk, chunk = if size ≥ n then n else size := ⟨_, rfl⟩
      have hbounds : 0 < chunk ∧ chunk ≤ n ∧ chunk ≤ size := by
        rw [hchunk]
        split <;> omega
      have hlen := length_read file position chunk
      have hput : put n buffer 0 (file.read position chunk) = .ok (blit buffer 0 (file.read position chunk)) :=
        put_of_le buffer (by omega)
      rw [dspReadLoop, if_neg hzero]
      simp only [← hchunk, hput, ok_bind_ok]
      by_cases hall : (file.read position chunk).length = chunk
      · obtain ⟨b, hb⟩ := ih (size - chunk) (position + chunk) (by omega) (by omega) (blit buffer 0 (file.read position chunk))
        refine ⟨b, ?_⟩
        rw [if_neg (not_not.mpr hall), hb, show position + chunk + (size - chunk) = position + size by omega]
      · refine ⟨blit buffer 0 (file.read position chunk), ?_⟩
        rw [if_pos hall, if_neg (by omega), show position + (file.read position chunk).length = file.size by omega]
        rfl

/-! ## The log -/

theorem seek_of_le {position target : Nat} {offset : Int} (hfile : 0 < file.size) (h : offset + position = target)
    (hle : target ≤ file.size) :
    file.seek position offset = some target := by
  have hfits := file.fits
  unfold File.size at hfile hle
  have htarget : ((offset + position) % 4294967296).toNat = target := by omega
  unfold File.seek
  simp only [htarget]
  exact if_pos ⟨hfile, hle⟩

theorem dspLog_short {position length : Nat} (hle : position ≤ file.size) (hout : file.size < position + length) (rewind : Bool) :
    dspLog file position length rewind = .ok file.size := by
  obtain ⟨b, hb⟩ := dspReadLoop_pieces (n := logBuffer) (by decide) length position (Nat.le_refl length) hle (fun _ => 0)
  rw [if_neg (by omega)] at hb
  unfold dspLog dspRead
  rw [hb]
  rfl

theorem dspLog_whole {position length : Nat} (hin : position + length ≤ file.size) (hlen : length < logBuffer) (rewind : Bool) :
    dspLog file position length rewind = .ok (if rewind then position else position + length) := by
  obtain ⟨b, hb⟩ := dspReadLoop_pieces (n := logBuffer) (by decide) length position (Nat.le_refl length)
    (Nat.le_trans (Nat.le_add_right ..) hin) (fun _ => 0)
  rw [if_pos hin] at hb
  have hput : ∀ (m : Mem) (n : Nat), n ≤ length → put logBuffer m n [0] = .ok (blit m n [0]) := by
    intro m n hn
    exact put_of_le m (show n + [(0 : UInt8)].length ≤ logBuffer by simp only [List.length_singleton]; omega)
  have hback : (file.seek (position + length) (-length)).getD (position + length) = position := by
    by_cases hfile : 0 < file.size
    · have hseek : file.seek (position + length) (-length) = some position := seek_of_le hfile (by omega) (by omega)
      rw [hseek]
      rfl
    · unfold File.seek
      rw [if_neg (fun h => hfile h.1)]
      show position + length = position
      omega
  unfold dspLog dspRead
  rw [hb, ok_bind_ok]
  simp only [if_true, hback]
  cases hfind : (List.range length).find? fun n => decide ((b n).toInt8 < 0x20) with
  | none => simp only [hput b length (Nat.le_refl _), ok_bind_ok, pure_bind]; rfl
  | some n =>
    have hn : n < length := List.mem_range.mp (List.mem_of_find?_eq_some hfind)
    simp only [hput b n (Nat.le_of_lt hn), hput _ length (Nat.le_refl _), ok_bind_ok]
    rfl

/-- A byte is written behind the buffer. -/
theorem dspLog_over {position length : Nat} (hin : position + length ≤ file.size) (hlen : logBuffer ≤ length) (rewind : Bool) :
    dspLog file position length rewind = .error .write := by
  obtain ⟨b, hb⟩ := dspReadLoop_pieces (n := logBuffer) (by decide) length position (Nat.le_refl length)
    (Nat.le_trans (Nat.le_add_right ..) hin) (fun _ => 0)
  rw [if_pos hin] at hb
  have hput : ∀ (m : Mem) (n : Nat), put logBuffer m n [0] = if n < logBuffer then .ok (blit m n [0]) else .error .write := by
    intro m n
    unfold put
    by_cases hn : n < logBuffer
    · rw [if_pos hn, if_pos (Or.inr (by simp only [List.length_singleton]; omega))]
    · rw [if_neg hn, if_neg (by simp only [List.length_singleton]; omega)]
  unfold dspLog dspRead
  rw [hb, ok_bind_ok]
  simp only [if_true, hput, if_neg (Nat.not_lt.mpr hlen)]
  cases (List.range length).find? fun n => decide ((b n).toInt8 < 0x20) with
  | none => rfl
  | some n =>
    by_cases hn : n < logBuffer
    · simp only [if_pos hn]
      rfl
    · simp only [if_neg hn]
      rfl

/-! ## Headers -/

theorem load_point {m m' : Mem} {k k' n : Nat} (h : load m k n = load m' k' n) {i : Nat} (hi : i < n) :
    m (k + i) = m' (k' + i) := by
  have := congrArg (fun bs => bs[i]?) h
  simpa [load, hi] using this

theorem load_prefix {m m' : Mem} {k k' n j : Nat} (h : load m k n = load m' k' n) (hj : j ≤ n) : load m k j = load m' k' j :=
  load_congr fun _ hi => load_point h (Nat.lt_of_lt_of_le hi hj)

theorem combiHeader_congr {m m' : Mem} {k k' : Nat} (h : load m k combiHeaderSize = load m' k' combiHeaderSize) :
    CombiHeader.of m k = CombiHeader.of m' k' := by
  have hid := load_prefix (j := 48) h (by decide)
  have hword : ∀ j, j + 2 ≤ combiHeaderSize → word m (k + j) = word m' (k' + j) := fun j hj => word_of_load_eq h hj
  unfold CombiHeader.of
  rw [hid, hword 48 (by decide), hword 50 (by decide), hword 52 (by decide), hword 54 (by decide), hword 58 (by decide),
    hword 60 (by decide)]

theorem fileHeader_congr {m m' : Mem} {k k' : Nat} (h : load m k fileHeaderSize = load m' k' fileHeaderSize) :
    FileHeader.of m k = FileHeader.of m' k' := by
  have hid := load_prefix (j := 48) h (by decide)
  have hword : ∀ j, j + 2 ≤ fileHeaderSize → word m (k + j) = word m' (k' + j) := fun j hj => word_of_load_eq h hj
  unfold FileHeader.of
  rw [hid, hword 48 (by decide), hword 50 (by decide), hword 52 (by decide), hword 54 (by decide), hword 56 (by decide),
    hword 58 (by decide), hword 60 (by decide), hword 62 (by decide), hword 64 (by decide), hword 66 (by decide),
    hword 68 (by decide), hword 70 (by decide), hword 72 (by decide), hword 74 (by decide), hword 76 (by decide),
    hword 78 (by decide), hword 80 (by decide)]

/-- What is read is what the file has there. -/
theorem load_read {position size : Nat} (h : position + size ≤ file.size) (m : Mem) :
    load (store m 0 (file.read position size)) 0 size = load file.mem position size := by
  have := load_store_self m 0 (file.read position size)
  rw [length_read_of_le h] at this
  rw [this, load_mem h]

/-! ## The directory -/

theorem seek_of_gt {position : Nat} {offset : Int} (target : Nat) (h : offset + position = target) (hfits : target < 4294967296)
    (hgt : file.size < target) : file.seek position offset = none := by
  unfold File.size at hgt
  have htarget : ((offset + position) % 4294967296).toNat = target := by omega
  unfold File.seek
  simp only [htarget]
  exact if_neg fun hand => Nat.not_le.mpr hgt hand.2

/-- The entries from one on are looked at in their order. -/
theorem searchDirectory_spec (file : File) (cardTypeNumber dir entries turns j : Nat) (hj : j < max entries 1)
    (hturns : max entries 1 ≤ turns + j)
    (hsmall : dir + 4 * entries < 4294967296) (hin : dir + 4 * j ≤ file.size)
    {found : Option Nat} (hfound : (List.range' j (max entries 1 - j)).find?
      (fun k => decide (word file.mem (dir + 4 * k) = cardTypeNumber)) = found) :
    (∃ k, found = some k ∧ dir + 4 * (k + 1) ≤ file.size ∧ dir + 4 * entries ≤ file.size ∧
      searchDirectory file cardTypeNumber turns ((entries : Int) - j) (dir + 4 * j)
        = .ok (word file.mem (dir + 4 * k + 2), dir + 4 * entries)) ∨
    ((∀ k, found = some k → ¬ (dir + 4 * (k + 1) ≤ file.size ∧ dir + 4 * entries ≤ file.size)) ∧
      ∃ error, searchDirectory file cardTypeNumber turns ((entries : Int) - j) (dir + 4 * j) = .error (.text error)) := by
  induction turns generalizing j with
  | zero => omega
  | succ turns ih =>
    by_cases hentry : dir + 4 * j + 4 ≤ file.size
    · have hread := dspRead_whole (fun _ => 0) (Nat.le_refl 4) (show 4 ≤ 8 by decide) hentry
      have hback := load_read hentry (fun _ => 0)
      have hkey : word (store (fun _ => 0) 0 (file.read (dir + 4 * j) 4)) 0 = word file.mem (dir + 4 * j) :=
        word_of_load_eq (j := 0) hback (by decide)
      have hset : word (store (fun _ => 0) 0 (file.read (dir + 4 * j) 4)) 2 = word file.mem (dir + 4 * j + 2) :=
        word_of_load_eq (j := 2) hback (by decide)
      obtain ⟨n, hn⟩ : ∃ n, max entries 1 - j = n + 1 := ⟨max entries 1 - j - 1, by omega⟩
      rw [hn, List.range'_succ] at hfound
      rw [searchDirectory, hread]
      simp only [checked_bind, if_true, hkey, hset]
      by_cases hmatch : word file.mem (dir + 4 * j) = cardTypeNumber
      · rw [if_pos hmatch]
        rw [List.find?_cons_of_pos (by simpa using hmatch)] at hfound
        by_cases hall : dir + 4 * entries ≤ file.size
        · have hseek : file.seek (dir + 4 * j + 4) (((entries : Int) - j - 1) * 4) = some (dir + 4 * entries) :=
            seek_of_le (by omega) (by omega) hall
          rw [hseek]
          exact Or.inl ⟨j, hfound.symm, by omega, hall, rfl⟩
        · have hseek : file.seek (dir + 4 * j + 4) (((entries : Int) - j - 1) * 4) = none :=
            seek_of_gt _ (by omega) hsmall (by omega)
          rw [hseek]
          refine Or.inr ⟨fun k _ hk => hall hk.2, _, rfl⟩
      · rw [if_neg hmatch]
        rw [List.find?_cons_of_neg (by simpa using hmatch)] at hfound
        by_cases hend : (entries : Int) - j - 1 ≤ 0
        · rw [if_pos hend]
          have hzero : n = 0 := by omega
          rw [hzero] at hfound
          refine Or.inr ⟨fun k hk => ?_, _, rfl⟩
          rw [← hfound] at hk
          cases hk
        · rw [if_neg hend, show (entries : Int) - j - 1 = (entries : Int) - (j + 1 : Nat) by omega,
            show dir + 4 * j + 4 = dir + 4 * (j + 1) by omega]
          refine ih (j + 1) (by omega) (by omega) (by omega) ?_
          rw [show max entries 1 - (j + 1) = n by omega]
          exact hfound
    · obtain ⟨b, hread⟩ := dspRead_short (fun _ => 0) (Nat.le_refl 4) hin (by omega) (show file.size - (dir + 4 * j) ≤ 8 by omega)
      rw [searchDirectory, hread]
      refine Or.inr ⟨fun k hk => ?_, "file too short", rfl⟩
      rw [← hfound] at hk
      have hmem := List.mem_range'_1.mp (List.mem_of_find?_eq_some hk)
      omega

theorem header_lt (file : File) : file.header.headerSize < 65536 ∧ file.header.combifileDescriptionSize < 65536 ∧
    file.header.directoryEntries < 65536 :=
  ⟨word_lt _ _, word_lt _ _, word_lt _ _⟩

/-- At the end of the file no entry is found. -/
theorem searchDirectory_end (cardTypeNumber turns : Nat) (i : Int) :
    searchDirectory file cardTypeNumber (turns + 1) i file.size = .error (.text "file too short") := by
  obtain ⟨b, hread⟩ := dspRead_short (fun _ => 0) (Nat.le_refl 4) (Nat.le_refl file.size) (by omega)
    (show file.size - file.size ≤ 8 by omega)
  rw [searchDirectory, hread]
  rfl

theorem opened_of_not {cardTypeNumber : Nat} (h : ¬ file.Begins) : opened file cardTypeNumber = none := if_neg h

/-- What comes before the downloads is read as the layout has it. -/
theorem openCombifile_spec (file : File) (cardTypeNumber : Nat) (hshort : ¬ LongText file) :
    (∃ r, opened file cardTypeNumber = some r ∧ openCombifile file cardTypeNumber = .ok r ∧ r.2.2 ≤ file.size) ∨
      (opened file cardTypeNumber = none ∧ ∃ error, openCombifile file cardTypeNumber = .error (.text error)) := by
  have hlt := header_lt file
  have hfits := file.fits
  by_cases hsize : combiHeaderSize ≤ file.size
  · have hread := dspRead_whole (fun _ => 0) (Nat.le_refl combiHeaderSize) (Nat.le_refl combiHeaderSize)
      (show 0 + combiHeaderSize ≤ file.size by omega)
    have hheader : CombiHeader.of (store (fun _ => 0) 0 (file.read 0 combiHeaderSize)) 0 = file.header :=
      combiHeader_congr (load_read (by omega) _)
    unfold openCombifile
    rw [hread]
    simp only [checked_bind, if_true, hheader]
    cases hrefused : file.header.refused with
    | some error =>
      refine Or.inr ⟨opened_of_not fun h => ?_, error, rfl⟩
      rw [h.2.1] at hrefused
      cases hrefused
    | none =>
      by_cases hseek : file.header.headerSize ≤ file.size
      · have hto : file.seek (0 + combiHeaderSize) ((file.header.headerSize : Int) - combiHeaderSize)
          = some file.header.headerSize :=
          seek_of_le (by unfold combiHeaderSize at hsize; omega) (by omega) hseek
        simp only [hto]
        by_cases hdir : file.directory ≤ file.size
        · have hbegins : file.Begins := ⟨hsize, hrefused, hdir⟩
          have hlog : file.header.combifileDescriptionSize < logBuffer := Nat.lt_of_not_le fun h => hshort ⟨hbegins, h⟩
          rw [dspLog_whole hdir hlog]
          have hsearch := searchDirectory_spec file cardTypeNumber file.directory file.header.directoryEntries
            (file.header.directoryEntries + 1) 0 (by omega) (by omega) (by unfold File.directory; omega) (by omega) rfl
          rw [Nat.sub_zero, ← List.range_eq_range'] at hsearch
          unfold opened
          rw [if_pos hbegins]
          have hstart : ((file.header.directoryEntries : Int) - (0 : Nat)) = file.header.directoryEntries := by omega
          rw [hstart] at hsearch
          rcases hsearch with ⟨k, hk, h1, h2, hsearch⟩ | ⟨hno, error, hsearch⟩
          · rw [show file.entry cardTypeNumber = some k from hk]
            simp only [if_pos (And.intro h1 h2)]
            refine Or.inl ⟨_, rfl, ?_, h2⟩
            show searchDirectory file cardTypeNumber _ _ (file.directory + 4 * 0) >>= _ = _
            rw [hsearch]
            rfl
          · refine Or.inr ⟨?_, error, ?_⟩
            · cases hentry : file.entry cardTypeNumber with
              | none => rfl
              | some k =>
                have hout : ¬ (file.directory + 4 * (k + 1) ≤ file.size ∧
                    file.directory + 4 * file.header.directoryEntries ≤ file.size) :=
                  hno k hentry
                simp only [if_neg hout]
            · show searchDirectory file cardTypeNumber _ _ (file.directory + 4 * 0) >>= _ = _
              rw [hsearch]
              rfl
        · rw [dspLog_short hseek (by unfold File.directory at hdir; omega)]
          simp only [searchDirectory_end]
          exact Or.inr ⟨opened_of_not fun h => hdir h.2.2, _, rfl⟩
      · have hto : file.seek (0 + combiHeaderSize) ((file.header.headerSize : Int) - combiHeaderSize) = none :=
          seek_of_gt file.header.headerSize (by omega) (by omega) (by omega)
        simp only [hto]
        refine Or.inr ⟨opened_of_not fun h => ?_, _, rfl⟩
        have := h.2.2
        unfold File.directory at this
        omega
  · obtain ⟨b, hread⟩ := dspRead_short (fun _ => 0) (Nat.le_refl combiHeaderSize) (Nat.zero_le file.size) (by omega)
      (show file.size - 0 ≤ combiHeaderSize by omega)
    unfold openCombifile
    rw [hread]
    exact Or.inr ⟨opened_of_not fun h => hsize h.1, _, rfl⟩

theorem openCombifile_long (file : File) (cardTypeNumber : Nat) (hlong : LongText file) :
    openCombifile file cardTypeNumber = .error (.fault .write) := by
  obtain ⟨⟨hsize, hrefused, hdir⟩, hlen⟩ := hlong
  have hlt := header_lt file
  have hfits := file.fits
  have hread := dspRead_whole (fun _ => 0) (Nat.le_refl combiHeaderSize) (Nat.le_refl combiHeaderSize)
      (show 0 + combiHeaderSize ≤ file.size by omega)
  have hheader : CombiHeader.of (store (fun _ => 0) 0 (file.read 0 combiHeaderSize)) 0 = file.header :=
    combiHeader_congr (load_read (by omega) _)
  have hseek : file.seek (0 + combiHeaderSize) ((file.header.headerSize : Int) - combiHeaderSize) = some file.header.headerSize :=
    seek_of_le (by unfold combiHeaderSize at hsize; omega) (by omega) (by unfold File.directory at hdir; omega)
  unfold openCombifile
  rw [hread]
  simp only [checked_bind, if_true, hheader, hrefused, hseek]
  rw [dspLog_over hdir hlen]

/-! ## Sections -/

section Sections

variable {env : Env} {tables : Tables}

theorem loads_cons (position : Nat) (loaded : List Nat) (length : Nat) (rest : List Nat) :
    loads file env tables position loaded (length :: rest)
      = (loads file env tables position loaded [length]).bind fun r => loads file env tables r.1 r.2 rest := by
  simp only [loads]
  split
  case isTrue => rfl
  case isFalse =>
    split
    · split <;> rfl
    · rfl

/-- A section that the file does not have is not loaded. -/
theorem loads_out {position length : Nat} {loaded rest : List Nat} (hpos : 0 < length) (hout : file.size < position + length) :
    loads file env tables position loaded (length :: rest) = none := by
  simp only [loads]
  rw [if_neg (by omega)]
  split
  · exact if_neg fun h => Nat.not_le.mpr hout h.2
  · rfl

theorem loads_le {position : Nat} {loaded lengths : List Nat} {r : Nat × List Nat} (hle : position ≤ file.size)
    (h : loads file env tables position loaded lengths = some r) : r.1 ≤ file.size := by
  induction lengths generalizing position loaded with
  | nil =>
    cases h
    exact hle
  | cons length rest ih =>
    simp only [loads] at h
    split at h
    case isTrue => exact ih hle h
    case isFalse =>
      split at h
      · split at h
        case isTrue hin => exact ih hin.2 h
        case isFalse => cases h
      · cases h

theorem loadSection_spec (file : File) (env : Env) (tables : Tables) (s : Pass) (length : Nat) :
    (∃ r anchor, loads file env tables s.position s.loaded [length] = some r ∧
      loadSection file env tables s length = .ok ({ s with position := r.1, loaded := r.2 }, anchor)) ∨
    (loads file env tables s.position s.loaded [length] = none ∧
      loadSection file env tables s length = .error (.text "download failed")) := by
  simp only [loads, loadSection]
  by_cases hzero : length = 0
  · rw [if_pos hzero, if_pos hzero]
    exact Or.inl ⟨_, 0, rfl, rfl⟩
  · rw [if_neg hzero, if_neg hzero]
    cases tables with
    | reserve => exact Or.inr ⟨rfl, rfl⟩
    | native _ => exact Or.inr ⟨rfl, rfl⟩
    | portable _ =>
      cases hcard : env.cardLoad (s.loaded ++ [length]) with
      | none =>
        dsimp only
        rw [if_neg (fun h => Bool.false_ne_true h.1)]
        exact Or.inr ⟨rfl, rfl⟩
      | some anchor =>
        dsimp only
        by_cases hin : s.position + length ≤ file.size
        · rw [if_pos ⟨rfl, hin⟩, if_pos (length_read_of_le hin)]
          exact Or.inl ⟨_, anchor, rfl, rfl⟩
        · have hshort := length_read file s.position length
          rw [if_neg (fun h => hin h.2), if_neg (by omega)]
          exact Or.inr ⟨rfl, rfl⟩

theorem loadSections_spec (file : File) (env : Env) (tables : Tables) (s : Pass) (lengths : List Nat) :
    (∃ r anchors, loads file env tables s.position s.loaded lengths = some r ∧
      loadSections file env tables s lengths = .ok ({ s with position := r.1, loaded := r.2 }, anchors)) ∨
    (loads file env tables s.position s.loaded lengths = none ∧
      loadSections file env tables s lengths = .error (.text "download failed")) := by
  induction lengths generalizing s with
  | nil => exact Or.inl ⟨_, [], rfl, rfl⟩
  | cons length rest ih =>
    rw [loads_cons, loadSections]
    rcases loadSection_spec file env tables s length with ⟨r, anchor, hloads, hsection⟩ | ⟨hloads, hsection⟩
    · rw [hloads, hsection]
      rcases ih { s with position := r.1, loaded := r.2 } with ⟨r', anchors, hrest, hsections⟩ | ⟨hrest, hsections⟩
      · refine Or.inl ⟨r', anchor :: anchors, hrest, ?_⟩
        show loadSections file env tables _ rest >>= _ = _
        rw [hsections]
        rfl
      · refine Or.inr ⟨hrest, ?_⟩
        show loadSections file env tables _ rest >>= _ = _
        rw [hsections]
        rfl
    · rw [hloads, hsection]
      exact Or.inr ⟨rfl, rfl⟩

end Sections

/-! ## A download -/

section Download

variable {env : Env} {tables : Tables} {set : FileSet}

/-- The pass is at a place. -/
structure Stands (file : File) (env : Env) (set : FileSet) (s : Pass) (pl : Place) : Prop where
  position : s.position = pl.position
  requiredCount : s.requiredCount = pl.requiredCount
  loaded : s.loaded = pl.loaded
  inside : pl.position ≤ file.size
  /-- Only the usage mask is read into the buffer. -/
  stack : ∀ k, set.usageMaskSize ≤ k → s.buffer k = env.stack k

variable {s : Pass} {pl : Place}

theorem Sound.not_long (h : Sound file set pl.position) (hmask : ¬ LongMask file set pl) : set.usageMaskSize ≤ usageBuffer := by
  have := h.1
  unfold behind fileHeaderSize at this
  unfold LongMask usageBuffer at *
  omega

theorem readDownload_long (h : Stands file env set s pl) (hmask : LongMask file set pl) :
    readDownload file set s = .error (.fault .write) := by
  unfold readDownload
  rw [h.position, dspRead_over s.buffer (Nat.le_refl _) hmask.1 hmask.2]
  rfl

theorem readDownload_sound (h : Stands file env set s pl) (hmask : ¬ LongMask file set pl) (hsound : Sound file set pl.position) :
    ∃ b, readDownload file set s = .ok (required file env set pl.position, headerAt file set pl.position,
        { s with position := behind set pl.position, buffer := b }) ∧ ∀ k, set.usageMaskSize ≤ k → b k = env.stack k := by
  have hroom := hsound.not_long hmask
  have hend := hsound.1
  unfold behind at hend
  have hmaskin : pl.position + set.usageMaskSize ≤ file.size := by omega
  have hread := dspRead_whole s.buffer (Nat.le_refl set.usageMaskSize) hroom hmaskin
  have hheader := dspRead_whole (fun _ => 0) (Nat.le_refl fileHeaderSize) (Nat.le_refl fileHeaderSize) hend
  have hhdr : FileHeader.of (store (fun _ => 0) 0 (file.read (pl.position + set.usageMaskSize) fileHeaderSize)) 0
      = headerAt file set pl.position :=
    fileHeader_congr (load_read hend _)
  have hkeep : ∀ k, set.usageMaskSize ≤ k → store s.buffer 0 (file.read pl.position set.usageMaskSize) k = env.stack k := by
    intro k hk
    rw [store_outside s.buffer (Or.inr (by rw [length_read_of_le hmaskin]; omega)), h.stack k hk]
  have husage : store s.buffer 0 (file.read pl.position set.usageMaskSize) set.usageMaskOffset
      = usage file env set pl.position := by
    unfold usage
    by_cases hin : set.usageMaskOffset < set.usageMaskSize
    · rw [if_pos hin, ← load_point (load_read hmaskin s.buffer) hin, Nat.zero_add]
    · rw [if_neg hin]
      exact hkeep _ (Nat.le_of_not_lt hin)
  refine ⟨store s.buffer 0 (file.read pl.position set.usageMaskSize), ?_, hkeep⟩
  unfold readDownload
  rw [h.position, hread]
  simp only [checked_bind, if_true, hheader, hhdr, hsound.2, husage]
  rfl

theorem readDownload_refused (h : Stands file env set s pl) (hmask : ¬ LongMask file set pl)
    (hsound : ¬ Sound file set pl.position) :
    ∃ error, readDownload file set s = .error (.text error) := by
  unfold readDownload
  rw [h.position]
  by_cases hmaskin : pl.position + set.usageMaskSize ≤ file.size
  · have hroom : set.usageMaskSize ≤ usageBuffer := by
      unfold LongMask at hmask
      omega
    rw [dspRead_whole s.buffer (Nat.le_refl set.usageMaskSize) hroom hmaskin]
    simp only [checked_bind, if_true]
    by_cases hend : behind set pl.position ≤ file.size
    · have hheader := dspRead_whole (fun _ => 0) (Nat.le_refl fileHeaderSize) (Nat.le_refl fileHeaderSize) hend
      have hhdr : FileHeader.of (store (fun _ => 0) 0 (file.read (pl.position + set.usageMaskSize) fileHeaderSize)) 0
          = headerAt file set pl.position :=
        fileHeader_congr (load_read hend _)
      simp only [hheader, if_true, hhdr]
      cases hrefused : (headerAt file set pl.position).refused with
      | none => exact absurd ⟨hend, hrefused⟩ hsound
      | some error => exact ⟨error, rfl⟩
    · obtain ⟨b, hread⟩ := dspRead_short (fun _ => 0) (Nat.le_refl fileHeaderSize) hmaskin (by unfold behind at hend; omega)
        (show file.size - (pl.position + set.usageMaskSize) ≤ fileHeaderSize by unfold behind at hend; omega)
      rw [hread]
      exact ⟨_, rfl⟩
  · obtain ⟨b, hread⟩ := dspRead_short s.buffer (Nat.le_refl set.usageMaskSize) h.inside (by omega)
      (show file.size - pl.position ≤ usageBuffer by unfold LongMask at hmask; omega)
    rw [hread]
    exact ⟨_, rfl⟩

/-- The log of a download does not fit. -/
def LongLog (file : File) (env : Env) (tables : Tables) (position : Nat) (loaded : List Nat) (hdr : FileHeader) : Prop :=
  ∃ r, loads file env tables position loaded [excessSize hdr] = some r ∧ logBuffer ≤ hdr.downloadDescriptionSize ∧
    r.1 + hdr.downloadDescriptionSize ≤ file.size

/-- What loading a download comes to. -/
inductive Loading (file : File) (env : Env) (tables : Tables) (downloadCount : Nat) (hdr : FileHeader) (s : Pass) :
    Except Stop Pass → Prop
  | overflow : downloadCount ≤ s.requiredCount →
    Loading file env tables downloadCount hdr s (.error (.text "download table overflow"))
  | log : s.requiredCount < downloadCount → LongLog file env tables s.position s.loaded hdr →
      Loading file env tables downloadCount hdr s (.error (.fault .write))
  | failed : s.requiredCount < downloadCount → ¬ LongLog file env tables s.position s.loaded hdr →
      loads file env tables s.position s.loaded (excessSize hdr :: hdr.sections) = none →
      Loading file env tables downloadCount hdr s (.error (.text "download failed"))
  | stored {r : Nat × List Nat} {desc : Desc} : s.requiredCount < downloadCount →
    ¬ LongLog file env tables s.position s.loaded hdr →
      loads file env tables s.position s.loaded (excessSize hdr :: hdr.sections) = some r →
      Loading file env tables downloadCount hdr s (.ok { s with
        position := r.1, requiredCount := s.requiredCount + 1, table := s.table ++ [desc], loaded := r.2,
          ends := s.ends ++ [r.1] })

theorem loadDownload_spec (file : File) (env : Env) (tables : Tables) (s : Pass) (downloadCount : Nat) (hdr : FileHeader)
    (hle : s.position ≤ file.size) :
    Loading file env tables downloadCount hdr s (loadDownload file env tables downloadCount hdr s) := by
  by_cases hroom : downloadCount ≤ s.requiredCount
  · have hfull : loadDownload file env tables downloadCount hdr s = .error (.text "download table overflow") := if_pos hroom
    rw [hfull]
    exact .overflow hroom
  · have hlt : s.requiredCount < downloadCount := Nat.lt_of_not_le hroom
    unfold loadDownload
    rw [if_neg hroom]
    rcases loadSection_spec file env tables s (excessSize hdr) with ⟨r, anchor, hloads, hsection⟩ | ⟨hloads, hsection⟩
    · have hle' := loads_le hle hloads
      show Loading file env tables downloadCount hdr s (loadSection file env tables s (excessSize hdr) >>= _)
      rw [hsection]
      show Loading file env tables downloadCount hdr s (checked (dspLog file r.1 hdr.downloadDescriptionSize true) >>= _)
      by_cases hlog : LongLog file env tables s.position s.loaded hdr
      · obtain ⟨r', hr', hlong, hin⟩ := hlog
        have hsame : r' = r := Option.some.inj (hr'.symm.trans hloads)
        rw [hsame] at hin
        rw [dspLog_over hin hlong]
        exact .log hlt ⟨r, hloads, hlong, hin⟩
      · by_cases hin : r.1 + hdr.downloadDescriptionSize ≤ file.size
        · have hshort : hdr.downloadDescriptionSize < logBuffer := Nat.lt_of_not_le fun h => hlog ⟨r, hloads, h, hin⟩
          rw [dspLog_whole hin hshort, checked_bind]
          show Loading file env tables downloadCount hdr s
            (loadSections file env tables { s with position := r.1, loaded := r.2 } hdr.sections >>= _)
          rcases loadSections_spec file env tables { s with position := r.1, loaded := r.2 } hdr.sections with
            ⟨r', anchors, hrest, hsections⟩ | ⟨hrest, hsections⟩
          · rw [hsections]
            exact .stored hlt hlog (by rw [loads_cons, hloads]; exact hrest)
          · rw [hsections]
            exact .failed hlt hlog (by rw [loads_cons, hloads]; exact hrest)
        · -- the log ends at the end of the file, and so do the sections
          have hdesc : 0 < hdr.downloadDescriptionSize := by omega
          rw [dspLog_short hle' (Nat.lt_of_not_le hin), checked_bind]
          show Loading file env tables downloadCount hdr s
            (loadSections file env tables { s with position := file.size, loaded := r.2 } hdr.sections >>= _)
          rcases loadSections_spec file env tables { s with position := file.size, loaded := r.2 } hdr.sections with
            ⟨r', anchors, hrest, -⟩ | ⟨-, hsections⟩
          · have hnone : loads file env tables file.size r.2 hdr.sections = none := loads_out hdesc (by omega)
            cases hnone.symm.trans hrest
          · rw [hsections]
            refine .failed hlt hlog ?_
            rw [loads_cons, hloads]
            exact loads_out hdesc (Nat.lt_of_not_le hin)
    · show Loading file env tables downloadCount hdr s (loadSection file env tables s (excessSize hdr) >>= _)
      rw [hsection]
      refine .failed hlt ?_ ?_
      · rintro ⟨r, hr, -⟩
        rw [hloads] at hr
        cases hr
      · rw [loads_cons, hloads]
        rfl

theorem seek_le {position target : Nat} {offset : Int} (h : file.seek position offset = some target) : target ≤ file.size := by
  unfold File.seek at h
  simp only at h
  split at h
  case isTrue hin =>
    cases h
    exact hin.2
  case isFalse => cases h

/-- With a table a required download is loaded. -/
theorem download_load {hdr : FileHeader} {s' : Pass} (h : readDownload file set s = .ok (true, hdr, s')) {downloadCount : Nat}
    (hlimit : tables.limit = some downloadCount) : download file env tables set s
      = loadDownload file env tables downloadCount hdr s' := by
  unfold download
  rw [h]
  cases tables <;> cases hlimit <;> rfl

/-- Any other download is skipped. -/
theorem download_skip {b : Bool} {hdr : FileHeader} {s' : Pass} (h : readDownload file set s = .ok (b, hdr, s'))
    (hno : b = false ∨ tables.limit = none) : download file env tables set s = skipDownload file b hdr s' := by
  unfold download
  rw [h]
  rcases hno with rfl | hlimit
  · rfl
  · cases tables with
    | reserve => cases b <;> rfl
    | native _ => cases hlimit
    | portable _ => cases hlimit

theorem skipDownload_spec (b : Bool) (hdr : FileHeader) (s : Pass) :
    skipDownload file b hdr s = match file.seek s.position (behindHeader hdr) with
      | some position => .ok { s with
          position := position, reserved := if b then s.reserved ++ reservations hdr else s.reserved,
          requiredCount := if b then s.requiredCount + 1 else s.requiredCount, ends := s.ends ++ [position] }
      | none => .error (.text "file too short") := by
  unfold skipDownload
  cases b <;> rfl

theorem download_long (h : Stands file env set s pl) (hlong : LongMask file set pl ∨ LongDescription file env tables set pl) :
    download file env tables set s = .error (.fault .write) := by
  by_cases hmask : LongMask file set pl
  · unfold download
    rw [readDownload_long h hmask]
    rfl
  · obtain ⟨hsound, hrequired, downloadCount, hlimit, hlt, hlog⟩ := hlong.resolve_left hmask
    obtain ⟨b, hread, -⟩ := readDownload_sound h hmask hsound
    rw [hrequired] at hread
    rw [download_load hread hlimit]
    have hspec := loadDownload_spec file env tables { s with position := behind set pl.position, buffer := b } downloadCount
      (headerAt file set pl.position) hsound.1
    rw [← h.loaded] at hlog
    rw [← h.requiredCount] at hlt
    generalize loadDownload file env tables downloadCount _ _ = r at hspec
    cases hspec with
    | overflow hover => exact absurd hlt (Nat.not_lt.mpr hover)
    | log => rfl
    | failed _ hno => exact absurd hlog hno
    | stored _ hno => exact absurd hlog hno

theorem download_goes (h : Stands file env set s pl) (hmask : ¬ LongMask file set pl)
    (hdesc : ¬ LongDescription file env tables set pl) :
    (∃ s' pl', next file env tables set pl = some pl' ∧ download file env tables set s = .ok s' ∧ Stands file env set s' pl') ∨
      (next file env tables set pl = none ∧ ∃ error, download file env tables set s = .error (.text error)) := by
  by_cases hsound : Sound file set pl.position
  · obtain ⟨b, hread, hstack⟩ := readDownload_sound h hmask hsound
    unfold next
    rw [if_pos hsound]
    have hskip : ∀ n : Nat, (required file env set pl.position = false ∨ tables.limit = none) →
        n = (if required file env set pl.position then pl.requiredCount + 1 else pl.requiredCount) →
        (∃ s' pl', skips file set pl n = some pl' ∧ download file env tables set s = .ok s' ∧ Stands file env set s' pl') ∨
          (skips file set pl n = none ∧ ∃ error, download file env tables set s = .error (.text error)) := by
      intro n hno hn
      rw [download_skip hread hno, skipDownload_spec]
      unfold skips
      cases hseek : file.seek (behind set pl.position) (behindHeader (headerAt file set pl.position)) with
      | none => exact Or.inr ⟨rfl, _, rfl⟩
      | some position =>
        refine Or.inl ⟨_, _, rfl, rfl, rfl, ?_, h.loaded, seek_le hseek, hstack⟩
        rw [hn, ← h.requiredCount]
    cases hrequired : required file env set pl.position with
    | false =>
      simp only [Bool.false_eq_true, if_false]
      exact hskip _ (Or.inl hrequired) (by rw [hrequired]; rfl)
    | true =>
      simp only [if_true]
      cases hlimit : tables.limit with
      | none => exact hskip _ (Or.inr hlimit) (by rw [hrequired]; rfl)
      | some downloadCount =>
        dsimp only
        rw [hrequired] at hread
        rw [download_load hread hlimit]
        have hspec := loadDownload_spec file env tables { s with position := behind set pl.position, buffer := b } downloadCount
          (headerAt file set pl.position) hsound.1
        generalize loadDownload file env tables downloadCount _ _ = r at hspec
        cases hspec with
        | overflow hover =>
          rw [h.requiredCount] at hover
          rw [if_neg (Nat.not_lt.mpr hover)]
          exact Or.inr ⟨rfl, _, rfl⟩
        | log hlt hlog =>
          rw [h.loaded] at hlog
          rw [h.requiredCount] at hlt
          exact absurd ⟨hsound, hrequired, downloadCount, hlimit, hlt, hlog⟩ hdesc
        | failed hlt _ hloads =>
          rw [h.loaded] at hloads
          rw [h.requiredCount] at hlt
          rw [if_pos hlt, hloads]
          exact Or.inr ⟨rfl, _, rfl⟩
        | stored hlt _ hloads =>
          rw [h.loaded] at hloads
          rw [h.requiredCount] at hlt
          rw [if_pos hlt, hloads]
          exact Or.inl ⟨_, _, rfl, rfl, rfl, congrArg (· + 1) h.requiredCount, rfl, loads_le hsound.1 hloads, hstack⟩
  · refine Or.inr ⟨if_neg hsound, ?_⟩
    obtain ⟨error, herror⟩ := readDownload_refused h hmask hsound
    refine ⟨error, ?_⟩
    unfold download
    rw [herror]
    rfl

/-! ## A pass -/

/-- A pass stops in some way other than a fault. -/
def Ends (r : Except Stop Pass) : Prop := (∃ s, r = .ok s) ∨ ∃ error, r = .error (.text error)

theorem places_succ (position i : Nat) :
    places file env tables set position (i + 1) = (places file env tables set position i).bind (next file env tables set) := rfl

/-- The loop over the downloads from one place on. -/
theorem downloads_ends_iff (position n : Nat) {i : Nat} (h : Stands file env set s pl)
    (hpl : places file env tables set position i = some pl) :
    Ends (downloads file env tables set n s) ↔ ∀ j, i ≤ j → j < i + n → ∀ pl, places file env tables set position j = some pl →
      ¬ LongMask file set pl ∧ ¬ LongDescription file env tables set pl := by
  induction n generalizing i s pl with
  | zero => exact ⟨fun _ j h1 h2 => absurd h2 (by omega), fun _ => Or.inl ⟨s, rfl⟩⟩
  | succ n ih =>
    rw [downloads]
    by_cases hlong : LongMask file set pl ∨ LongDescription file env tables set pl
    · rw [download_long h hlong]
      constructor
      · rintro (⟨s', hs'⟩ | ⟨error, herror⟩)
        · cases hs'
        · cases herror
      · intro hall
        obtain ⟨hmask, hdesc⟩ := hall i (Nat.le_refl i) (by omega) pl hpl
        exact absurd hlong (not_or.mpr ⟨hmask, hdesc⟩)
    · obtain ⟨hmask, hdesc⟩ := not_or.mp hlong
      rcases download_goes h hmask hdesc with ⟨s', pl', hnext, hdown, hstands⟩ | ⟨hnext, error, hdown⟩
      · rw [hdown]
        have hpl' : places file env tables set position (i + 1) = some pl' := by
          rw [places_succ, hpl]
          exact hnext
        show Ends (downloads file env tables set n s') ↔ _
        rw [ih hstands hpl']
        constructor
        · intro hall j h1 h2 pl'' hpl''
          by_cases hj : j = i
          · rw [hj, hpl] at hpl''
            cases hpl''
            exact ⟨hmask, hdesc⟩
          · exact hall j (by omega) (by omega) pl'' hpl''
        · intro hall j h1 h2
          exact hall j (by omega) (by omega)
      · rw [hdown]
        refine ⟨fun _ j h1 h2 pl'' hpl'' => ?_, fun _ => Or.inr ⟨error, rfl⟩⟩
        have hnone : ∀ d, places file env tables set position (i + 1 + d) = none := by
          intro d
          induction d with
          | zero =>
            rw [Nat.add_zero, places_succ, hpl]
            exact hnext
          | succ d ihd =>
            rw [← Nat.add_assoc, places_succ, ihd]
            rfl
        by_cases hj : j = i
        · rw [hj, hpl] at hpl''
          cases hpl''
          exact ⟨hmask, hdesc⟩
        · have := hnone (j - (i + 1))
          rw [show i + 1 + (j - (i + 1)) = j by omega, hpl''] at this
          cases this

end Download

/-- A pass ends, and writes only inside its buffers, just if it comes to nothing that does not fit them. -/
theorem ends_iff_safe (file : File) (cardTypeNumber : Nat) (tables : Tables) (env : Env) :
    Ends (dspReadFile file cardTypeNumber tables env) ↔ Safe file cardTypeNumber tables env := by
  unfold dspReadFile
  by_cases hlong : LongText file
  · rw [openCombifile_long file cardTypeNumber hlong]
    refine ⟨?_, fun h => absurd hlong h.1⟩
    rintro (⟨s, hs⟩ | ⟨error, herror⟩)
    · cases hs
    · cases herror
  · rcases openCombifile_spec file cardTypeNumber hlong with ⟨⟨downloadCount, set, position⟩, hopened, hopen, hle⟩
      | ⟨hopened, error, hopen⟩
    · rw [hopen]
      show Ends (downloads file env tables set downloadCount ⟨position, env.stack, 0, [], [], [], []⟩) ↔ _
      have hstands : Stands file env set ⟨position, env.stack, 0, [], [], [], []⟩ ⟨position, 0, []⟩ :=
        ⟨rfl, rfl, rfl, hle, fun _ _ => rfl⟩
      rw [downloads_ends_iff position downloadCount (i := 0) hstands rfl]
      constructor
      · intro hall
        refine ⟨hlong, fun n set' position' hsome i hi pl hpl => ?_⟩
        rw [hopened] at hsome
        cases hsome
        exact hall i (Nat.zero_le i) (by omega) pl hpl
      · intro hsafe j _ hj pl hpl
        exact hsafe.2 downloadCount set position hopened j (by omega) pl hpl
    · rw [hopen]
      refine ⟨fun _ => ⟨hlong, fun n set position hsome => ?_⟩, fun _ => Or.inr ⟨error, rfl⟩⟩
      rw [hopened] at hsome
      cases hsome

end Divas.Dsp
