/-
  Divas.Capi.LiTable — the tables of the line interconnect when cards come and go:
  `diva_add_card` and `clean_adapter` (capifunc.c).

  Every adapter owns a region of `li_config_table`, from `li_base` on; an adapter in
  `vscapi_mode` owns none. A row has a byte for every channel in `flag_table` and in
  `coef_table`. A new adapter gets a new table with its channels in between, an adapter
  that goes has its rows and columns moved over.

  What `diva_os_malloc` returns is a parameter: whether the PLCIs and the table are
  allocated, and what is in the new rows. An entry holds its rows, so the pointers
  `flag_table` and `coef_table` move with it. A table that is freed is not read again.
-/

import Mathlib.Logic.Function.Basic
import Divas.Lib.Bytes
import Divas.Lib.Loop
import Divas.Lib.Regions
import Divas.Lib.Run

namespace Divas.Capi

open Divas.Lib.Bytes Divas.Lib.Loop Divas.Lib.Regions

/-- `MIXER_TOTAL_CHANNELS_BRI`. -/
def mixerTotalChannelsBri : Nat := 8

/-- `MIXER_TOTAL_CHANNELS_PRI`. -/
def mixerTotalChannelsPri : Nat := 64

/-- The ids that `find_free_id` gives end here. -/
def maxCards : Nat := 100

/-- `DIVA_CAPI_ADAPTER`; `request` says that the slot is used. -/
structure LiAdapter where
  request : Bool
  vscapiMode : Bool
  liPri : Bool
  liChannels : Nat
  liBase : Nat
  deriving DecidableEq

/-- `memset (a, 0, sizeof (DIVA_CAPI_ADAPTER))`. -/
def LiAdapter.zero : LiAdapter := ⟨false, false, false, 0, 0⟩

def LiAdapter.withBase (a : LiAdapter) (liBase : Nat) : LiAdapter := { a with liBase }

/-- `LI_CONFIG`; `adapter` is the slot, the bytes are the channel's own. -/
structure LiConfig where
  adapter : Nat
  sourceInfoB : UInt8
  sourceInfoPc : UInt8
  channel : UInt8
  curchnl : UInt8
  chflags : UInt8
  flagTable : Mem
  coefTable : Mem

structure LiTableSt where
  adapter : Nat → LiAdapter
  maxAdapter : Nat
  liTotalChannels : Nat
  table : Nat → LiConfig

namespace LiTableSt

/-- `&adapter[slot]` is changed. -/
def setAdapter (s : LiTableSt) (slot : Nat) (a : LiAdapter) : LiTableSt :=
  { s with adapter := Function.update s.adapter slot a }

/-! ## diva_add_card -/

/-- `li_base` of a new adapter: behind the last present slot below it. -/
def baseOf (s : LiTableSt) (slot : Nat) : Nat :=
  forTo slot (fun i base =>
    if (s.adapter i).request then ((s.adapter i).liBase + (s.adapter i).liChannels) % 65536 else base) 0

/-- A row of an old channel in the new table. -/
def addRow (liBase liChannels k : Nat) (old fresh : Mem) : Mem :=
  let row := if liBase ≠ 0 then store fresh 0 (load old 0 liBase) else fresh
  let row := store row liBase (List.replicate liChannels 0)
  if liBase + liChannels < k then store row (liBase + liChannels) (load old liBase (k - (liBase + liChannels))) else row

/-- An entry of the new adapter. -/
def newConfig (slot k : Nat) (fresh : LiConfig) : LiConfig :=
  ⟨slot, 0, 0, 0, 0, 0, store fresh.flagTable 0 (List.replicate k 0), store fresh.coefTable 0 (List.replicate k 0)⟩

def oldConfig (liBase liChannels k : Nat) (old fresh : LiConfig) : LiConfig :=
  { old with
    flagTable := addRow liBase liChannels k old.flagTable fresh.flagTable
    coefTable := addRow liBase liChannels k old.coefTable fresh.coefTable }

/-- The loop that fills the new table; `j` counts the old entries. -/
def rebuild (s : LiTableSt) (slot liBase liChannels k : Nat) (fresh : Nat → LiConfig) : Nat × (Nat → LiConfig) :=
  forTo k (fun i t =>
    let (j, table) := t
    if liBase ≤ i ∧ i < liBase + liChannels then (j, Function.update table i (newConfig slot k (fresh i)))
    else (j + 1, Function.update table i (oldConfig liBase liChannels k (s.table j) (fresh i)))) (0, fresh)

/-- `if (a == &adapter[max_adapter]) max_adapter++`. -/
def countAdapter (s : LiTableSt) (slot : Nat) : LiTableSt :=
  if slot = s.maxAdapter then { s with maxAdapter := (s.maxAdapter + 1) % 256 } else s

def divaAddCard (s : LiTableSt) (slot : Nat) (vscapiMode pri plciOk tableOk : Bool) (fresh : Nat → LiConfig) : LiTableSt :=
  if !plciOk then s.setAdapter slot LiAdapter.zero
  else if vscapiMode then (s.setAdapter slot ⟨true, true, false, 0, 0⟩).countAdapter slot
  else
    let liChannels := if pri then mixerTotalChannelsPri else mixerTotalChannelsBri
    let liBase := s.baseOf slot
    let k := s.liTotalChannels + liChannels
    if !tableOk then s.setAdapter slot LiAdapter.zero
    else
      let s := { s with table := (s.rebuild slot liBase liChannels k fresh).2, liTotalChannels := k % 65536 }
      let s := s.setAdapter slot ⟨true, false, pri, liChannels, liBase⟩
      let s := { s with
        adapter := fun i =>
          if slot + 1 ≤ i ∧ i < s.maxAdapter ∧ (s.adapter i).request then
            (s.adapter i).withBase (((s.adapter i).liBase + liChannels) % 65536)
          else s.adapter i }
      s.countAdapter slot

/-! ## clean_adapter -/

/-- `memmove` of a row. -/
def cleanRow (liBase liChannels k : Nat) (row : Mem) : Mem := store row liBase (load row (liBase + liChannels) (k - liBase))

/-- The table without the region of an adapter. -/
def moveTable (table : Nat → LiConfig) (liBase liChannels k : Nat) : Nat → LiConfig :=
  let moved := fun i => if liBase ≤ i ∧ i < k then table (i + liChannels) else table i
  fun i =>
    let e := moved i
    if i < k then
      { e with
        flagTable := cleanRow liBase liChannels k e.flagTable
        coefTable := cleanRow liBase liChannels k e.coefTable }
    else e

/-- `while ((max_adapter != 0) && !adapter[max_adapter - 1].request) max_adapter--`. -/
def lastAdapter (adapter : Nat → LiAdapter) : Nat → Nat
  | 0 => 0
  | n + 1 => if !(adapter n).request then lastAdapter adapter n else n + 1

def cleanAdapter (s : LiTableSt) (id : Nat) : LiTableSt :=
  let a := s.adapter id
  let k := s.liTotalChannels - a.liChannels
  let s := if k ≠ 0 ∧ a.liBase < k then { s with table := moveTable s.table a.liBase a.liChannels k } else s
  let s := { s with liTotalChannels := k }
  let s := { s with
    adapter := fun i =>
      if id ≤ i ∧ i < s.maxAdapter ∧ (s.adapter i).request then
        (s.adapter i).withBase (((s.adapter i).liBase + 65536 - a.liChannels) % 65536)
      else s.adapter i }
  let s := s.setAdapter id LiAdapter.zero
  { s with maxAdapter := lastAdapter s.adapter s.maxAdapter }

end LiTableSt

/-! ## Runs -/

inductive LiTableEv where
  | add (slot : Nat) (vscapiMode pri plciOk tableOk : Bool) (fresh : Nat → LiConfig)
  | clean (id : Nat)

namespace LiTableSt

def step (s : LiTableSt) : LiTableEv → LiTableSt
  | .add slot vscapiMode pri plciOk tableOk fresh => s.divaAddCard slot vscapiMode pri plciOk tableOk fresh
  | .clean id => s.cleanAdapter id

/-- No card is there; `li_config_table` is NULL. -/
def start (table : Nat → LiConfig) : LiTableSt := ⟨fun _ => LiAdapter.zero, 0, 0, table⟩

/-- The number of channels of a slot. -/
def chan (s : LiTableSt) (i : Nat) : Nat := (s.adapter i).liChannels

/-- The last present slot below `slot`. -/
def LastBelow (s : LiTableSt) (slot l : Nat) : Prop :=
  l < slot ∧ (s.adapter l).request = true ∧ ∀ m, l < m → m < slot → (s.adapter m).request = false

/-- A card gets a free slot (`find_free_id`), a card that goes had one. When a normal
    adapter is added and the last present slot below it is one in `vscapi_mode`, that one
    has the `li_base` that an adapter with channels would have there. -/
def Cond (s : LiTableSt) : LiTableEv → Prop
  | .add slot vscapiMode _ _ _ _ =>
    (s.adapter slot).request = false ∧ slot ≤ s.maxAdapter ∧ slot < maxCards ∧
      (vscapiMode = false → ∀ l, s.LastBelow slot l → (s.adapter l).vscapiMode = true →
        (s.adapter l).liBase = startOf s.chan l)
  | .clean id => (s.adapter id).request = true

/-- Channel `x` lies in the region of slot `i`. -/
def Owns (s : LiTableSt) (i x : Nat) : Prop :=
  (s.adapter i).request = true ∧ (s.adapter i).liBase ≤ x ∧ x < (s.adapter i).liBase + (s.adapter i).liChannels

end LiTableSt

end Divas.Capi
