/-
  Divas.Dsp.DspFile — reading a combifile with DSP downloads (dsp_file.c).

  `dsp_read_file` runs in passes over one file: without a table it reserves space for the
  sections of the downloads that a card type requires, with a table it loads them.

  The file is in memory, read and sought as in pri.c. A local buffer is a memory from its first
  byte on, and what is written to it is checked against its size. A pass stops with a fault or
  with an error text (`Stop`). `sysCardLoad` reads a section from the file; whether there is
  room, and where, is up to the card (`Env`). `char` is signed and `size_t` has 64 bits.
-/

import Divas.Lib.Checks

namespace Divas.Dsp

open Divas.Lib.Bytes Divas.Lib.Checks

inductive Stop where
  | fault (f : Fault)
  | text (error : String)
  deriving DecidableEq, Repr

def checked {α : Type} : Checked α → Except Stop α
  | .ok a => .ok a
  | .error f => .error (.fault f)

/-! ## The file -/

structure File where
  bytes : List UInt8
  fits : bytes.length < 4294967296

def File.mem (file : File) : Mem := fun i => file.bytes.getD i 0

/-- `myFileRead`: what is there of the bytes. -/
def File.read (file : File) (position size : Nat) : List UInt8 := (file.bytes.drop position).take size

/-- `myFileSeek` with `OS_SEEK_CUR`: the position is narrowed to a dword. -/
def File.seek (file : File) (position : Nat) (offset : Int) : Option Nat :=
  let target := ((offset + position) % 4294967296).toNat
  if 0 < file.bytes.length ∧ target ≤ file.bytes.length then some target else none

/-! ## Reads into a buffer -/

structure Got where
  complete : Bool
  position : Nat
  buffer : Mem

/-- The loop of `dsp_read` for a buffer of `room` bytes. -/
def dspReadLoop (file : File) (bufferSize room : Nat) : Nat → Nat → Nat → Mem → Checked Got
  | 0, size, position, buffer => if size = 0 then pure ⟨true, position, buffer⟩ else .error .hang
  | turns + 1, size, position, buffer =>
    if size = 0 then pure ⟨true, position, buffer⟩
    else do
      let chunk := if size ≥ bufferSize then bufferSize else size
      let data := file.read position chunk
      let buffer ← put room buffer 0 data
      if data.length ≠ chunk then pure ⟨false, position + data.length, buffer⟩
      else dspReadLoop file bufferSize room turns (size - chunk) (position + chunk) buffer

def dspRead (file : File) (position size : Nat) (buffer : Mem) (bufferSize room : Nat) : Checked Got :=
  dspReadLoop file bufferSize room size size position buffer

def logBuffer : Nat := 256

/-- The position behind `dsp_log`. -/
def dspLog (file : File) (position length : Nat) (rewind : Bool) : Checked Nat := do
  let got ← dspRead file position length (fun _ => 0) logBuffer logBuffer
  if got.complete then do
    let control := (List.range length).find? fun n => decide ((got.buffer n).toInt8 < 0x20)
    let buffer ← match control with
      | some n => put logBuffer got.buffer n [0]
      | none => pure got.buffer
    let _ ← put logBuffer buffer length [0]
    pure (if rewind then (file.seek got.position (-length)).getD got.position else got.position)
  else pure got.position

/-! ## Headers -/

/-- Eicon.Diehl DSP Download Combifile -/
def dspCombifileMagic : List UInt8 :=
  [0x45, 0x69, 0x63, 0x6f, 0x6e, 0x2e, 0x44, 0x69, 0x65, 0x68, 0x6c, 0x20, 0x44, 0x53, 0x50, 0x20,
    0x44, 0x6f, 0x77, 0x6e, 0x6c, 0x6f, 0x61, 0x64, 0x20, 0x43, 0x6f, 0x6d, 0x62, 0x69, 0x66, 0x69,
    0x6c, 0x65, 0, 0, 0, 0, 0, 0, 0, 0, 0, 0, 0, 0, 0, 0]

/-- Eicon.Diehl DSP Download, a zero, and File -/
def dspFileMagic : List UInt8 :=
  [0x45, 0x69, 0x63, 0x6f, 0x6e, 0x2e, 0x44, 0x69, 0x65, 0x68, 0x6c, 0x20, 0x44, 0x53, 0x50, 0x20,
    0x44, 0x6f, 0x77, 0x6e, 0x6c, 0x6f, 0x61, 0x64, 0, 0x46, 0x69, 0x6c, 0x65, 0, 0, 0,
    0, 0, 0, 0, 0, 0, 0, 0, 0, 0, 0, 0, 0, 0, 0, 0]

def dspCombifileFormatVersionBcd : Nat := 0x0100
def dspFileFormatVersionBcd : Nat := 0x0100
def dspMemoryBlockCount : Nat := 16
def dspDownloadMaxSegments : Nat := 16

/-- `t_dsp_combifile_header`; `directory_size` is not used. -/
structure CombiHeader where
  formatIdentification : List UInt8
  formatVersionBcd : Nat
  headerSize : Nat
  combifileDescriptionSize : Nat
  directoryEntries : Nat
  downloadCount : Nat
  usageMaskSize : Nat

def combiHeaderSize : Nat := 62

def CombiHeader.of (m : Mem) (k : Nat) : CombiHeader :=
  ⟨load m k 48, word m (k + 48), word m (k + 50), word m (k + 52), word m (k + 54), word m (k + 58), word m (k + 60)⟩

/-- `t_dsp_file_header` -/
structure FileHeader where
  formatIdentification : List UInt8
  formatVersionBcd : Nat
  downloadId : Nat
  downloadFlags : Nat
  requiredProcessingPower : Nat
  interfaceChannelCount : Nat
  headerSize : Nat
  downloadDescriptionSize : Nat
  memoryBlockTableSize : Nat
  memoryBlockCount : Nat
  segmentTableSize : Nat
  segmentCount : Nat
  symbolTableSize : Nat
  symbolCount : Nat
  totalDataSizeDm : Nat
  dataBlockCountDm : Nat
  totalDataSizePm : Nat
  dataBlockCountPm : Nat

def fileHeaderSize : Nat := 82

def FileHeader.of (m : Mem) (k : Nat) : FileHeader :=
  ⟨load m k 48, word m (k + 48), word m (k + 50), word m (k + 52), word m (k + 54), word m (k + 56),
    word m (k + 58), word m (k + 60),
    word m (k + 62), word m (k + 64), word m (k + 66), word m (k + 68), word m (k + 70), word m (k + 72), word m (k + 74),
    word m (k + 76), word m (k + 78), word m (k + 80)⟩

/-- The checks of a header, in their order. -/
def CombiHeader.refused (h : CombiHeader) : Option String :=
  if h.formatIdentification ≠ dspCombifileMagic then some "invalid header format"
  else if h.formatVersionBcd ≠ dspCombifileFormatVersionBcd then some "unsupported header version"
  else none

def FileHeader.refused (h : FileHeader) : Option String :=
  if h.formatIdentification ≠ dspFileMagic then some "invalid file header format"
  else if h.formatVersionBcd ≠ dspFileFormatVersionBcd then some "unsupported file header version"
  else if h.memoryBlockCount ≠ 0 ∧ h.memoryBlockCount ≠ dspMemoryBlockCount then some "invalid memory block count"
  else if h.segmentCount > dspDownloadMaxSegments then some "too many segments"
  else none

/-- The sizes of the sections behind the excess header. -/
def FileHeader.sections (h : FileHeader) : List Nat :=
  [h.downloadDescriptionSize, h.memoryBlockTableSize, h.segmentTableSize, h.symbolTableSize, h.totalDataSizeDm, h.totalDataSizePm]

/-! ## A pass -/

/-- `t_dsp_desc` or `t_dsp_portable_desc`, with the addresses that the card gave. -/
structure Desc where
  downloadId : Nat
  downloadFlags : Nat
  requiredProcessingPower : Nat
  interfaceChannelCount : Nat
  excessHeaderSize : Nat
  memoryBlockCount : Nat
  segmentCount : Nat
  symbolCount : Nat
  dataBlockCountDm : Nat
  dataBlockCountPm : Nat
  pExcessHeaderData : UInt32
  /-- `p_download_description`, `p_memory_block_table`, `p_segment_table`, `p_symbol_table`,
      `p_data_blocks_dm`, `p_data_blocks_pm`. -/
  pSections : List UInt32

/-- The table, if there is one, and its `*p_download_count`. -/
inductive Tables where
  | reserve
  | native (downloadCount : Nat)
  | portable (downloadCount : Nat)

structure Env where
  /-- What is in `buffer` before anything is read; what lies behind its 16 bytes stays as it is during a pass. -/
  stack : Mem
  /-- Where a section is stored, by the lengths of those before it and its own. -/
  cardLoad : List Nat → Option UInt32

structure Pass where
  position : Nat
  buffer : Mem
  requiredCount : Nat
  table : List Desc
  /-- The arguments of `dsp_download_reserve_space`. -/
  reserved : List Nat
  /-- The lengths of the sections that were loaded. -/
  loaded : List Nat
  /-- The position behind each download. -/
  ends : List Nat

/-- What `usage_mask_offset` and `usage_mask_byte` are for a file set. -/
structure FileSet where
  usageMaskSize : Nat
  usageMaskOffset : Nat
  usageMaskByte : Nat
  deriving DecidableEq

def FileSet.of (usageMaskSize fileSetNumber : Nat) : FileSet := ⟨usageMaskSize, fileSetNumber >>> 3, 1 <<< (fileSetNumber &&& 7)⟩

def usageBuffer : Nat := 16

section Download

variable (file : File) (env : Env) (tables : Tables) (set : FileSet)

/-- `dsp_card_load_proc` for the native table, `dsp_card_load_portable` for the portable one. -/
def loadSection (s : Pass) (length : Nat) : Except Stop (Pass × UInt32) :=
  if length = 0 then pure (s, 0)
  else
    match tables with
    | .portable _ =>
      match env.cardLoad (s.loaded ++ [length]) with
      | some anchor =>
        if (file.read s.position length).length = length then
          pure ({ s with position := s.position + length, loaded := s.loaded ++ [length] }, anchor)
        else .error (.text "download failed")
      | none => .error (.text "download failed")
    | _ => .error (.text "download failed")

def loadSections : Pass → List Nat → Except Stop (Pass × List UInt32)
  | s, [] => pure (s, [])
  | s, length :: rest => do
    let (s, anchor) ← loadSection file env tables s length
    let (s, anchors) ← loadSections s rest
    pure (s, anchor :: anchors)

/-- The usage mask and the header of a download: whether it is required, its header, and the pass behind both. -/
def readDownload (s : Pass) : Except Stop (Bool × FileHeader × Pass) := do
  let got ← checked (dspRead file s.position set.usageMaskSize s.buffer set.usageMaskSize usageBuffer)
  if got.complete then
    let required := decide ((got.buffer set.usageMaskOffset).toNat &&& set.usageMaskByte ≠ 0)
    let s := { s with buffer := got.buffer }
    let got ← checked (dspRead file got.position fileHeaderSize (fun _ => 0) fileHeaderSize fileHeaderSize)
    if got.complete then
      let hdr := FileHeader.of got.buffer 0
      match hdr.refused with
      | some error => .error (.text error)
      | none => pure (required, hdr, { s with position := got.position })
    else .error (.text "file too short")
  else .error (.text "file too short")

/-- A required download is loaded, and gets its place in the table. -/
def loadDownload (downloadCount : Nat) (hdr : FileHeader) (s : Pass) : Except Stop Pass :=
  if s.requiredCount ≥ downloadCount then .error (.text "download table overflow")
  else do
    let excessHeaderSize := (hdr.headerSize + 65536 - fileHeaderSize) % 65536
    let (s, pExcess) ← loadSection file env tables s excessHeaderSize
    let position ← checked (dspLog file s.position hdr.downloadDescriptionSize true)
    let (s, pSections) ← loadSections file env tables { s with position := position } hdr.sections
    let desc : Desc :=
      ⟨hdr.downloadId, hdr.downloadFlags, hdr.requiredProcessingPower, hdr.interfaceChannelCount, excessHeaderSize,
      hdr.memoryBlockCount, hdr.segmentCount, hdr.symbolCount, hdr.dataBlockCountDm, hdr.dataBlockCountPm, pExcess, pSections⟩
    pure { s with requiredCount := s.requiredCount + 1, table := s.table ++ [desc], ends := s.ends ++ [s.position] }

/-- The arguments of `dsp_reserve` that are greater than zero; the first one is unsigned. -/
def reservations (hdr : FileHeader) : List Nat :=
  ((hdr.headerSize + 18446744073709551616 - fileHeaderSize) % 18446744073709551616 :: hdr.sections).filter (0 < ·)

/-- The length of what is behind a header, which can be negative. -/
def behindHeader (hdr : FileHeader) : Int := (hdr.headerSize : Int) - fileHeaderSize + hdr.sections.sum

/-- Space is reserved for a required download, and the download is skipped. -/
def skipDownload (required : Bool) (hdr : FileHeader) (s : Pass) : Except Stop Pass :=
  let s := if required then { s with reserved := s.reserved ++ reservations hdr, requiredCount := s.requiredCount + 1 } else s
  match file.seek s.position (behindHeader hdr) with
  | some position => pure { s with position := position, ends := s.ends ++ [position] }
  | none => .error (.text "file too short")

def download (s : Pass) : Except Stop Pass := do
  let (required, hdr, s) ← readDownload file set s
  match required, tables with
  | true, .native downloadCount => loadDownload file env tables downloadCount hdr s
  | true, .portable downloadCount => loadDownload file env tables downloadCount hdr s
  | _, _ => skipDownload file required hdr s

def downloads : Nat → Pass → Except Stop Pass
  | 0, s => pure s
  | n + 1, s => do
    let s ← download file env tables set s
    downloads n s

end Download

/-! ## The combifile -/

/-- The search of the directory: the file set of the card type, and the position behind the directory. -/
def searchDirectory (file : File) (cardTypeNumber : Nat) : Nat → Int → Nat → Except Stop (Nat × Nat)
  | 0, _, _ => .error (.fault .hang)
  | turns + 1, i, position => do
    let got ← checked (dspRead file position 4 (fun _ => 0) 4 8)
    if got.complete then
      if word got.buffer 0 = cardTypeNumber then
        match file.seek got.position ((i - 1) * 4) with
        | some position => pure (word got.buffer 2, position)
        | none => .error (.text "file too short")
      else if i - 1 ≤ 0 then .error (.text "card not supported")
      else searchDirectory file cardTypeNumber turns (i - 1) got.position
    else .error (.text "file too short")

/-- What comes before the downloads: how many there are, the file set, and where they start. -/
def openCombifile (file : File) (cardTypeNumber : Nat) : Except Stop (Nat × FileSet × Nat) := do
  let got ← checked (dspRead file 0 combiHeaderSize (fun _ => 0) combiHeaderSize combiHeaderSize)
  if got.complete then
    let hdr := CombiHeader.of got.buffer 0
    match hdr.refused with
    | some error => .error (.text error)
    | none =>
      match file.seek got.position ((hdr.headerSize : Int) - combiHeaderSize) with
      | none => .error (.text "file too short")
      | some position => do
        let position ← checked (dspLog file position hdr.combifileDescriptionSize false)
        let (fileSetNumber, position) ← searchDirectory file cardTypeNumber (hdr.directoryEntries + 1)
          hdr.directoryEntries position
        pure (hdr.downloadCount, FileSet.of hdr.usageMaskSize fileSetNumber, position)
  else .error (.text "file too short")

/-- `dsp_read_file`; `*p_download_count` becomes `requiredCount`. -/
def dspReadFile (file : File) (cardTypeNumber : Nat) (tables : Tables) (env : Env) : Except Stop Pass := do
  let (downloadCount, set, position) ← openCombifile file cardTypeNumber
  downloads file env tables set downloadCount ⟨position, env.stack, 0, [], [], [], []⟩

end Divas.Dsp
