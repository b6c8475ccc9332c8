/-
  Divas.Capi.MixerAgree — the later phases of `mixer_calculate_coefs`, from the
  interconnections on.

  Proved: `Agree.routeOthers`, tables that agree on the channels below `N` agree after
  these phases, and `Still.routeOthers`, the phases change no flag and keep the address
  bits of `channel`.
-/

import Divas.Capi.Mixer

namespace Divas.Capi

open Divas.Lib.Loop Divas.Lib.Flags

namespace LiConfigTable

/-! ## Tables that agree

Two runs over tables that agree on the channels below `N` keep them so. -/

structure Agree (N : Nat) (s t : LiConfigTable) : Prop where
  channel : ∀ i, i < N → s.channel i = t.channel i
  chflags : ∀ i, i < N → s.chflags i = t.chflags i
  flags : ∀ i j, i < N → j < N → s.flagTable i j = t.flagTable i j
  coefs : ∀ i j, i < N → j < N → s.coefTable i j &&& liCoefAll = t.coefTable i j &&& liCoefAll

variable {N : Nat} {s t : LiConfigTable}

theorem Agree.orChannelIf (h : Agree N s t) {c c' : Bool} (hc : c = c') (i : Nat) (m : UInt8) :
    Agree N (s.orChannelIf c i m) (t.orChannelIf c' i m) := by
  subst hc
  cases c with
  | false => exact h
  | true =>
    refine { h with channel := fun k hk => ?_ }
    show Function.update s.channel i _ k = Function.update t.channel i _ k
    by_cases e : k = i
    · subst e
      rw [Function.update_self, Function.update_self, h.channel k hk]
    · rw [Function.update_of_ne e, Function.update_of_ne e, h.channel k hk]

theorem Agree.setCoef (h : Agree N s t) {i j : Nat} {b b' : UInt8} (hb : b &&& liCoefAll = b' &&& liCoefAll) :
    Agree N (s.setCoef i j b) (t.setCoef i j b') := by
  refine { h with coefs := fun k l hk hl => ?_ }
  show Function.update s.coefTable i _ k l &&& _ = Function.update t.coefTable i _ k l &&& _
  by_cases e : k = i
  · subst e
    rw [Function.update_self, Function.update_self]
    by_cases e' : l = j
    · subst e'
      rw [Function.update_self, Function.update_self, hb]
    · rw [Function.update_of_ne e', Function.update_of_ne e', h.coefs k l hk hl]
  · rw [Function.update_of_ne e, Function.update_of_ne e, h.coefs k l hk hl]

theorem Agree.orCoefIf (h : Agree N s t) {c c' : Bool} (hc : c = c') {i j : Nat} (hi : i < N) (hj : j < N) (m : UInt8) :
    Agree N (s.orCoefIf c i j m) (t.orCoefIf c' i j m) := by
  subst hc
  cases c with
  | false => exact h
  | true => exact h.setCoef (or_congr (h.coefs i j hi hj) m)

theorem Agree.andCoef (h : Agree N s t) {i j : Nat} (hi : i < N) (hj : j < N) (m : UInt8) :
    Agree N (s.andCoef i j m) (t.andCoef i j m) :=
  h.setCoef (and_congr (h.coefs i j hi hj) m)

theorem Agree.ite {c c' : Bool} (hc : c = c') {s' t' : LiConfigTable} (h1 : Agree N s t) (h2 : Agree N s' t') :
    Agree N (if c then s else s') (if c' then t else t') := by
  subst hc
  cases c with
  | false => exact h2
  | true => exact h1

theorem Agree.sendsX (h : Agree N s t) {i : Nat} (hi : i < N) : s.sendsX i = t.sendsX i := by
  unfold LiConfigTable.sendsX
  rw [h.chflags i hi]

theorem Agree.receivesX (h : Agree N s t) {i : Nat} (hi : i < N) : s.receivesX i = t.receivesX i := by
  unfold LiConfigTable.receivesX
  rw [h.chflags i hi]

theorem Agree.hasFlag (h : Agree N s t) {i j : Nat} (hi : i < N) (hj : j < N) (m : UInt8) :
    has (s.flagTable i j) m = has (t.flagTable i j) m := by
  rw [h.flags i j hi hj]

theorem Agree.hasChflag (h : Agree N s t) {i : Nat} (hi : i < N) (m : UInt8) :
    has (s.chflags i) m = has (t.chflags i) m := by
  rw [h.chflags i hi]

theorem Agree.hasChannel (h : Agree N s t) {i : Nat} (hi : i < N) (m : UInt8) :
    has (s.channel i) m = has (t.channel i) m := by
  rw [h.channel i hi]

theorem Agree.linkCoefs (h : Agree N s t) {i j : Nat} (hi : i < N) (hj : j < N) :
    Agree N (linkCoefs i j s) (linkCoefs i j t) := by
  unfold LiConfigTable.linkCoefs
  have f := fun m => h.hasFlag hi hj m
  apply Agree.orCoefIf _ (f _) hi hj
  apply Agree.orCoefIf _ (f _) hi hj
  apply Agree.orCoefIf _ (f _) hi hj
  apply Agree.orCoefIf _ (f _) hi hj
  apply Agree.orCoefIf h _ hi hj
  rw [f, h.sendsX hi, h.receivesX hj]

theorem Agree.monitorCoefs (h : Agree N s t) {i j : Nat} (hi : i < N) (hj : j < N) :
    Agree N (monitorCoefs i j s) (monitorCoefs i j t) := by
  unfold LiConfigTable.monitorCoefs
  refine Agree.ite (h.hasFlag hi hj _) ?_ h
  apply Agree.orCoefIf _ (h.hasChflag hj _) hi hj
  exact h.orCoefIf (h.receivesX hj) hi hj _

theorem Agree.mixCoefs (h : Agree N s t) {i j : Nat} (hi : i < N) (hj : j < N) :
    Agree N (mixCoefs i j s) (mixCoefs i j t) := by
  unfold LiConfigTable.mixCoefs
  apply h.orCoefIf _ hj hi
  rw [h.hasFlag hj hi, h.sendsX hj]

theorem Agree.loopCoefs (h : Agree N s t) {i j n : Nat} (hi : i < N) (hj : j < N) (hn : n < N) :
    Agree N (loopCoefs i j n s) (loopCoefs i j n t) := by
  unfold LiConfigTable.loopCoefs
  refine Agree.ite (h.hasFlag hn hi _) ?_ h
  rw [h.sendsX hn, h.receivesX hj, h.hasChflag hj, h.hasChflag hn]
  apply Agree.orCoefIf _ rfl hn hj
  apply Agree.orCoefIf _ rfl hn hj
  apply Agree.orCoefIf _ rfl hn hj
  exact h.orCoefIf rfl hn hj _

theorem Agree.interconnect (h : Agree N s t) {i : Nat} (hi : i < N) : Agree N (interconnect N i s) (interconnect N i t) := by
  unfold LiConfigTable.interconnect
  refine Agree.ite (h.hasChannel hi _) ?_ h
  have h1 : Agree N (forTo N (LiConfigTable.linkCoefs i) s) (forTo N (LiConfigTable.linkCoefs i) t) :=
    forTo_agree (n := N) (A := Agree N) h fun j u u' hj hu => hu.linkCoefs hi hj
  have h2 : Agree N (forTo N (LiConfigTable.monitorCoefs i) _) (forTo N (LiConfigTable.monitorCoefs i) _) :=
    forTo_agree h1 fun j u u' hj hu => hu.monitorCoefs hi hj
  have h2 := Agree.ite (h1.hasChflag hi liChflagMonitor) h2 h1
  have h3 : Agree N (forTo N (LiConfigTable.mixCoefs i) _) (forTo N (LiConfigTable.mixCoefs i) _) :=
    forTo_agree h2 fun j u u' hj hu => hu.mixCoefs hi hj
  have h3 := Agree.ite (h2.hasChflag hi liChflagMix) h3 h2
  refine Agree.ite (h3.hasChflag hi _) (forTo_agree (n := N) (A := Agree N) h3 fun j u u' hj hu => ?_) h3
  exact Agree.ite (hu.hasFlag hi hj _) (forTo_agree (n := N) (A := Agree N) hu fun n v v' hn hv => hv.loopCoefs hi hj hn) hu

theorem Agree.sourceData (h : Agree N s t) {i j : Nat} (hi : i < N) (hj : j < N) :
    Agree N (sourceData i j s) (sourceData i j t) :=
  h.orChannelIf (h.hasFlag hj hi _) i _

theorem Agree.dataChannels (h : Agree N s t) {i : Nat} (hi : i < N) : Agree N (dataChannels N i s) (dataChannels N i t) := by
  unfold LiConfigTable.dataChannels
  refine Agree.ite (h.hasChannel hi _) ?_ h
  have h1 := h.orChannelIf (h.hasChflag hi liChflagMonitor) i liChannelRxData
  have h2 := h1.orChannelIf (h1.hasChflag hi liChflagMix) i (liChannelTxData ||| liChannelUsedSourcePc)
  have h3 := forTo_agree (n := N) (A := Agree N) h2 fun j u u' hj hu =>
    Agree.orChannelIf hu (hu.hasFlag hi hj (liFlagPcconnect ||| liFlagMonitor)) i liChannelRxData
  have h4 : Agree N (forTo i (LiConfigTable.sourceData i) _) (forTo i (LiConfigTable.sourceData i) _) :=
    forTo_agree h3 fun j u u' hj hu => hu.sourceData hi (by omega)
  have h5 : Agree N (forFrom (i + 1) N (LiConfigTable.sourceData i) _) (forFrom (i + 1) N (LiConfigTable.sourceData i) _) :=
    forFrom_agree h4 fun j u u' _ hj hu => hu.sourceData hi hj
  exact h5.orChannelIf (h5.hasFlag hi hi _) i _

theorem Agree.announce (h : Agree N s t) {i : Nat} (hi : i < N) : Agree N (announce N i s) (announce N i t) := by
  unfold LiConfigTable.announce
  have ha : (List.range N).any (fun j => has (s.flagTable i j) liFlagAnnouncement)
      = (List.range N).any (fun j => has (t.flagTable i j) liFlagAnnouncement) := by
    rw [Bool.eq_iff_iff, List.any_eq_true, List.any_eq_true]
    constructor
    · intro hw
      rcases hw with ⟨j, hj, hf⟩
      exact ⟨j, hj, by rw [← h.hasFlag hi (List.mem_range.1 hj)]; exact hf⟩
    · intro hw
      rcases hw with ⟨j, hj, hf⟩
      exact ⟨j, hj, by rw [h.hasFlag hi (List.mem_range.1 hj)]; exact hf⟩
  refine Agree.ite (by rw [h.hasChannel hi, ha]) (forTo_agree (n := N) (A := Agree N) h fun j u u' hj hu => ?_) h
  exact (hu.andCoef hi hj _).orCoefIf (hu.hasFlag hi hj _) hi hj _

theorem Agree.involveOthers (h : Agree N s t) {i : Nat} (hi : i < N) : Agree N (involveOthers i s) (involveOthers i t) :=
  h.orChannelIf (by rw [h.hasFlag hi hi, h.hasFlag hi hi]) i _

theorem Agree.routeOthers (h : Agree N s t) : Agree N (routeOthers N s) (routeOthers N t) := by
  have h1 : Agree N (forTo N (LiConfigTable.interconnect N) s) (forTo N (LiConfigTable.interconnect N) t) :=
    forTo_agree h fun i u u' hi hu => hu.interconnect hi
  have h2 : Agree N (forTo N (LiConfigTable.dataChannels N) _) (forTo N (LiConfigTable.dataChannels N) _) :=
    forTo_agree h1 fun i u u' hi hu => hu.dataChannels hi
  have h3 : Agree N (forTo N (LiConfigTable.announce N) _) (forTo N (LiConfigTable.announce N) _) :=
    forTo_agree h2 fun i u u' hi hu => hu.announce hi
  exact forTo_agree h3 fun i u u' hi hu => Agree.involveOthers hu hi

/-! ## What the later phases leave -/

/-- The address bits of `channel`, which the computation keeps. -/
def liChannelKept : UInt8 := liChannelAddressesSet ||| liChannelNoAddresses

structure Still (s t : LiConfigTable) : Prop where
  channel : ∀ i, t.channel i &&& liChannelKept = s.channel i &&& liChannelKept
  chflags : t.chflags = s.chflags
  flags : t.flagTable = s.flagTable

theorem Still.refl (s : LiConfigTable) : Still s s := ⟨fun _ => rfl, rfl, rfl⟩

theorem Still.setCoef (h : Still s t) (i j : Nat) (b : UInt8) : Still s (t.setCoef i j b) := ⟨h.channel, h.chflags, h.flags⟩

theorem Still.orCoefIf (h : Still s t) (c : Bool) (i j : Nat) (m : UInt8) : Still s (t.orCoefIf c i j m) := by
  cases c with
  | false => exact h
  | true => exact h.setCoef i j _

theorem Still.orChannelIf (h : Still s t) (c : Bool) (i : Nat) {m : UInt8} (hm : m &&& liChannelKept = 0) :
    Still s (t.orChannelIf c i m) := by
  cases c with
  | false => exact h
  | true =>
    refine { h with channel := fun k => ?_ }
    show Function.update t.channel i _ k &&& _ = _
    by_cases e : k = i
    · subst e
      rw [Function.update_self, or_and, hm, UInt8.or_zero, h.channel]
    · rw [Function.update_of_ne e, h.channel]

theorem Still.ite {c : Bool} {t' : LiConfigTable} (h1 : Still s t) (h2 : Still s t') : Still s (if c then t else t') := by
  cases c with
  | false => exact h2
  | true => exact h1

theorem Still.linkCoefs (h : Still s t) (i j : Nat) : Still s (linkCoefs i j t) := by
  unfold LiConfigTable.linkCoefs
  apply Still.orCoefIf
  apply Still.orCoefIf
  apply Still.orCoefIf
  apply Still.orCoefIf
  exact h.orCoefIf _ i j _

theorem Still.monitorCoefs (h : Still s t) (i j : Nat) : Still s (monitorCoefs i j t) :=
  Still.ite ((h.orCoefIf _ i j _).orCoefIf _ i j _) h

theorem Still.mixCoefs (h : Still s t) (i j : Nat) : Still s (mixCoefs i j t) := h.orCoefIf _ j i _

theorem Still.loopCoefs (h : Still s t) (i j n : Nat) : Still s (loopCoefs i j n t) := by
  unfold LiConfigTable.loopCoefs
  refine Still.ite ?_ h
  apply Still.orCoefIf
  apply Still.orCoefIf
  apply Still.orCoefIf
  exact h.orCoefIf _ n j _

theorem Still.interconnect (h : Still s t) (i : Nat) : Still s (interconnect N i t) := by
  unfold LiConfigTable.interconnect
  refine Still.ite ?_ h
  have h1 : Still s (forTo N (LiConfigTable.linkCoefs i) t) := forTo_keep h fun j u hu => hu.linkCoefs i j
  have h2 : Still s (forTo N (LiConfigTable.monitorCoefs i) _) := forTo_keep h1 fun j u hu => hu.monitorCoefs i j
  have h2 := Still.ite (c := has ((forTo N (LiConfigTable.linkCoefs i) t).chflags i) liChflagMonitor) h2 h1
  have h3 : Still s (forTo N (LiConfigTable.mixCoefs i) _) := forTo_keep h2 fun j u hu => hu.mixCoefs i j
  refine Still.ite (forTo_keep (Still.ite h3 h2) fun j u hu => ?_) (Still.ite h3 h2)
  exact Still.ite (forTo_keep hu fun n v hv => hv.loopCoefs i j n) hu

theorem Still.sourceData (h : Still s t) (i j : Nat) : Still s (sourceData i j t) := h.orChannelIf _ i (by decide)

theorem Still.dataChannels (h : Still s t) (i : Nat) : Still s (dataChannels N i t) := by
  unfold LiConfigTable.dataChannels
  refine Still.ite ?_ h
  have h1 := h.orChannelIf (has (t.chflags i) liChflagMonitor) i (m := liChannelRxData) (by decide)
  apply Still.orChannelIf _ _ i (by decide)
  refine forTo_keep ?_ fun j u hu => hu.sourceData i (i + 1 + j)
  refine forTo_keep ?_ fun j u hu => hu.sourceData i j
  refine forTo_keep ?_ fun j u hu => hu.orChannelIf _ i (by decide)
  exact h1.orChannelIf _ i (by decide)

theorem Still.announce (h : Still s t) (i : Nat) : Still s (announce N i t) := by
  unfold LiConfigTable.announce
  refine Still.ite (forTo_keep h fun j u hu => ?_) h
  exact (hu.setCoef i j _).orCoefIf _ i j _

theorem Still.routeOthers (h : Still s t) : Still s (routeOthers N t) := by
  have h1 : Still s (forTo N (LiConfigTable.interconnect N) t) := forTo_keep h fun i u hu => hu.interconnect i
  have h2 : Still s (forTo N (LiConfigTable.dataChannels N) _) := forTo_keep h1 fun i u hu => hu.dataChannels i
  have h3 : Still s (forTo N (LiConfigTable.announce N) _) := forTo_keep h2 fun i u hu => hu.announce i
  exact forTo_keep h3 fun i u hu => hu.orChannelIf _ i (by decide)

end LiConfigTable

end Divas.Capi
