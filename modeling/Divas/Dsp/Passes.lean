/-
  Divas.Dsp.Passes — the reservation pass and the load pass of a combifile.

  `starts` are the starts of the downloads as the file has them. Proved: of a file for which the
  reservation pass returns a count, a load pass with a table of as many entries, whose card loads
  succeed, returns the same count, loads the sections that were reserved, and comes to the same
  places (`Agree`), just if both passes require the same downloads and each required download has a header that is
  not too small and a description that can be logged (`Alike`).

  A header that is too small makes the excess header negative: it is a large number for the
  reservation, another one for the load pass, and what it says for the position. And a usage
  mask that is too short for the file set leaves the usage to what was on the stack.
-/

import Divas.Dsp.Bounds

namespace Divas.Dsp

open Divas.Lib.Bytes Divas.Lib.Checks

/-- The load pass has done what the reservation pass has counted. -/
def Agree (reserved loaded : Pass) : Prop :=
  loaded.requiredCount = reserved.requiredCount ∧ loaded.loaded = reserved.reserved ∧ loaded.ends = reserved.ends

def nextStart (file : File) (set : FileSet) (position : Nat) : Nat :=
  ((behindHeader (headerAt file set position) + behind set position) % 4294967296).toNat

def starts (file : File) (set : FileSet) : Nat → Nat → List Nat
  | 0, _ => []
  | n + 1, position => position :: starts file set n (nextStart file set position)

/-- Both passes require a download or do not, and it can be logged and has a header of the least size if they do. -/
def AlikeAt (file : File) (set : FileSet) (env env' : Env) (position : Nat) : Prop :=
  required file env set position = required file env' set position ∧
    (required file env' set position = true →
      fileHeaderSize ≤ (headerAt file set position).headerSize ∧ (headerAt file set position).downloadDescriptionSize < logBuffer)

def Alike (file : File) (cardTypeNumber : Nat) (env env' : Env) : Prop :=
  ∀ downloadCount set position, opened file cardTypeNumber = some (downloadCount, set, position) →
    ∀ p ∈ starts file set downloadCount position, AlikeAt file set env env' p

section Step

variable {file : File} {env : Env} {tables : Tables} {set : FileSet} {s s' : Pass} {pl : Place}

theorem download_sound (h : Stands file env set s pl) (hok : download file env tables set s = .ok s') :
    ¬ LongMask file set pl ∧ Sound file set pl.position := by
  have hmask : ¬ LongMask file set pl := by
    intro hlong
    rw [download_long h (Or.inl hlong)] at hok
    cases hok
  refine ⟨hmask, Classical.byContradiction fun hsound => ?_⟩
  obtain ⟨error, herror⟩ := readDownload_refused h hmask hsound
  unfold download at hok
  rw [herror] at hok
  cases hok

theorem download_stands (h : Stands file env set s pl) (hok : download file env tables set s = .ok s') :
    ∃ pl', Stands file env set s' pl' := by
  have hdesc : ¬ LongDescription file env tables set pl := by
    intro hlong
    rw [download_long h (Or.inr hlong)] at hok
    cases hok
  rcases download_goes h (download_sound h hok).1 hdesc with ⟨s'', pl', -, hdown, hstands⟩ | ⟨-, error, hdown⟩
  · rw [hok] at hdown
    cases hdown
    exact ⟨pl', hstands⟩
  · rw [hok] at hdown
    cases hdown

theorem seek_eq {position target : Nat} {offset : Int} (h : file.seek position offset = some target) :
    target = ((offset + position) % 4294967296).toNat := by
  unfold File.seek at h
  simp only at h
  split at h
  case isTrue =>
    cases h
    rfl
  case isFalse => cases h

/-- A download that is skipped. -/
theorem skipped (h : Stands file env set s pl) (hok : download file env tables set s = .ok s')
    (hno : required file env set pl.position = false ∨ tables.limit = none) :
    s'.position = nextStart file set pl.position ∧ s'.loaded = s.loaded ∧ s'.ends = s.ends ++ [nextStart file set pl.position] ∧
      s'.reserved = (if required file env set pl.position then s.reserved ++ reservations (headerAt file set pl.position)
        else s.reserved) ∧
      s'.requiredCount = if required file env set pl.position then s.requiredCount + 1 else s.requiredCount := by
  obtain ⟨hmask, hsound⟩ := download_sound h hok
  obtain ⟨b, hread, -⟩ := readDownload_sound h hmask hsound
  rw [download_skip hread hno, skipDownload_spec] at hok
  cases hseek : file.seek (behind set pl.position) (behindHeader (headerAt file set pl.position)) with
  | none =>
    simp only [hseek] at hok
    cases hok
  | some position =>
    simp only [hseek] at hok
    cases hok
    have hpos : position = nextStart file set pl.position := seek_eq hseek
    rw [hpos]
    exact ⟨rfl, rfl, rfl, rfl, rfl⟩

theorem loads_eq {position : Nat} {loaded lengths : List Nat} {r : Nat × List Nat}
    (h : loads file env tables position loaded lengths = some r) :
    r.1 = position + lengths.sum ∧ r.2 = loaded ++ lengths.filter (0 < ·) := by
  induction lengths generalizing position loaded with
  | nil =>
    cases h
    simp
  | cons length rest ih =>
    simp only [loads] at h
    split at h
    case isTrue hzero =>
      obtain ⟨h1, h2⟩ := ih h
      rw [h1, h2, hzero]
      simp
    case isFalse hpos =>
      split at h
      · split at h
        case isTrue hin =>
          obtain ⟨h1, h2⟩ := ih h
          rw [h1, h2, List.sum_cons, List.filter_cons_of_pos (by simpa using Nat.pos_of_ne_zero hpos),
            Nat.add_assoc, List.append_assoc]
          exact ⟨rfl, rfl⟩
        case isFalse => cases h
      · cases h

theorem sections_lt (m : Mem) (k : Nat) : ∀ n ∈ (FileHeader.of m k).sections, n < 65536 := by
  intro n hn
  unfold FileHeader.sections FileHeader.of at hn
  simp only [List.mem_cons, List.not_mem_nil, or_false] at hn
  rcases hn with rfl | rfl | rfl | rfl | rfl | rfl <;> exact word_lt _ _

theorem download_loading (tables : Tables) (h : Stands file env set s pl) (hmask : ¬ LongMask file set pl)
    (hsound : Sound file set pl.position)
    (hrequired : required file env set pl.position = true) {downloadCount : Nat} (hlimit : tables.limit = some downloadCount) :
    ∃ b, Loading file env tables downloadCount (headerAt file set pl.position)
      { s with position := behind set pl.position, buffer := b }
      (download file env tables set s) := by
  obtain ⟨b, hread, -⟩ := readDownload_sound h hmask hsound
  rw [hrequired] at hread
  rw [download_load hread hlimit]
  exact ⟨b, loadDownload_spec file env tables { s with position := behind set pl.position, buffer := b } downloadCount _ hsound.1⟩

/-- Only words are loaded as lengths. -/
theorem small_step (h : Stands file env set s pl) (hok : download file env tables set s = .ok s')
    (hsmall : ∀ n ∈ s.loaded, n < 65536) :
    ∀ n ∈ s'.loaded, n < 65536 := by
  obtain ⟨hmask, hsound⟩ := download_sound h hok
  by_cases hno : required file env set pl.position = false ∨ tables.limit = none
  · rw [(skipped h hok hno).2.1]
    exact hsmall
  · rw [not_or, Bool.not_eq_false] at hno
    obtain ⟨downloadCount, hlimit⟩ := Option.ne_none_iff_exists'.mp hno.2
    obtain ⟨b, hloading⟩ := download_loading tables h hmask hsound hno.1 hlimit
    rw [hok] at hloading
    cases hloading with
    | stored _ _ hloads =>
      intro n hn
      dsimp only at hn
      rw [(loads_eq hloads).2, List.mem_append, List.mem_filter, List.mem_cons] at hn
      rcases hn with hn | ⟨hn | hn, -⟩
      · exact hsmall n hn
      · rw [hn]
        unfold excessSize
        omega
      · exact sections_lt _ _ n hn

end Step

/-! ## The rest of a pass -/

section Rest

variable {file : File} {env : Env} {tables : Tables} {set : FileSet}

theorem downloads_succ {n : Nat} {s u : Pass} (h : downloads file env tables set (n + 1) s = .ok u) :
    ∃ s', download file env tables set s = .ok s' ∧ downloads file env tables set n s' = .ok u := by
  rw [downloads] at h
  cases hdown : download file env tables set s with
  | error e =>
    rw [hdown] at h
    cases h
  | ok s' =>
    rw [hdown] at h
    exact ⟨s', rfl, h⟩

theorem downloads_step {n : Nat} {s s' : Pass} (h : download file env tables set s = .ok s') :
    downloads file env tables set (n + 1) s = downloads file env tables set n s' := by
  rw [downloads, h]
  rfl

theorem downloads_stop {n : Nat} {s : Pass} {e : Stop} (h : download file env tables set s = .error e) :
    downloads file env tables set (n + 1) s = .error e := by
  rw [downloads, h]
  rfl

/-- What every download keeps the pass keeps. -/
theorem downloads_keep {I : Pass → Prop} (hstep : ∀ s s' pl, Stands file env set s pl →
    download file env tables set s = .ok s' → I s → I s')
    {n : Nat} {s u : Pass} {pl : Place} (h : Stands file env set s pl) (hok : downloads file env tables set n s = .ok u)
      (hs : I s) : I u := by
  induction n generalizing s pl with
  | zero =>
    cases hok
    exact hs
  | succ n ih =>
    obtain ⟨s', hdown, hrest⟩ := downloads_succ hok
    obtain ⟨pl', h'⟩ := download_stands h hdown
    exact ih h' hrest (hstep s s' pl h hdown hs)

/-- The reservation pass only adds to what it counts. -/
theorem reserve_grows {n : Nat} {s u : Pass} {pl : Place} (h : Stands file env set s pl)
    (hok : downloads file env .reserve set n s = .ok u) : s.requiredCount ≤ u.requiredCount ∧ s.reserved <+: u.reserved := by
  refine downloads_keep (I := fun v => s.requiredCount ≤ v.requiredCount ∧ s.reserved <+: v.reserved) ?_ h hok
    ⟨Nat.le_refl _, List.prefix_rfl⟩
  intro v v' pl' hv hdown hI
  obtain ⟨-, -, -, hreserved, hcount⟩ := skipped hv hdown (Or.inr rfl)
  rw [hreserved, hcount]
  split
  · exact ⟨Nat.le_succ_of_le hI.1, hI.2.trans (List.prefix_append ..)⟩
  · exact hI

/-- If no download is required none is counted. -/
theorem none_required (hno : ∀ position, required file env set position = false) {n : Nat} {s u : Pass} {pl : Place}
    (h : Stands file env set s pl) (hok : downloads file env tables set n s = .ok u) : u.requiredCount = s.requiredCount := by
  refine downloads_keep (I := fun v => v.requiredCount = s.requiredCount) ?_ h hok rfl
  intro v v' pl' hv hdown hI
  obtain ⟨-, -, -, -, hcount⟩ := skipped hv hdown (Or.inl (hno _))
  rw [hcount, hno, if_neg Bool.false_ne_true]
  exact hI

theorem small_loaded {n : Nat} {s u : Pass} {pl : Place} (h : Stands file env set s pl)
    (hok : downloads file env tables set n s = .ok u)
    (hsmall : ∀ k ∈ s.loaded, k < 65536) : ∀ k ∈ u.loaded, k < 65536 :=
  downloads_keep (I := fun v => ∀ k ∈ v.loaded, k < 65536) (fun _ _ _ hv hdown hI => small_step hv hdown hI) h hok hsmall

/-- Usages that differ come from the stack, and are the same for all downloads of a pass. -/
theorem required_differ {env env' : Env} {position : Nat}
    (hne : required file env set position ≠ required file env' set position) (q : Nat) :
    required file env set q = required file env set position ∧ required file env' set q = required file env' set position := by
  by_cases hin : set.usageMaskOffset < set.usageMaskSize
  · refine absurd ?_ hne
    unfold required usage
    rw [if_pos hin, if_pos hin]
  · unfold required usage
    rw [if_neg hin, if_neg hin, if_neg hin, if_neg hin]
    exact ⟨rfl, rfl⟩

end Rest

/-! ## Both passes side by side -/

/-- The load pass is where the reservation pass is, and has loaded what was reserved. -/
structure Together (s s' : Pass) : Prop where
  position : s'.position = s.position
  requiredCount : s'.requiredCount = s.requiredCount
  loaded : s'.loaded = s.reserved
  ends : s'.ends = s.ends
  small : ∀ k ∈ s'.loaded, k < 65536

section Both

variable {file : File} {env env' : Env} {set : FileSet} {s s' t : Pass} {pl pl' : Place}

theorem skipped_seek {tables : Tables} (h : Stands file env set s pl) (hok : download file env tables set s = .ok t)
    (hno : required file env set pl.position = false ∨ tables.limit = none) :
    file.seek (behind set pl.position) (behindHeader (headerAt file set pl.position))
      = some (nextStart file set pl.position) := by
  obtain ⟨hmask, hsound⟩ := download_sound h hok
  obtain ⟨b, hread, -⟩ := readDownload_sound h hmask hsound
  rw [download_skip hread hno, skipDownload_spec] at hok
  cases hseek : file.seek (behind set pl.position) (behindHeader (headerAt file set pl.position)) with
  | none =>
    simp only [hseek] at hok
    cases hok
  | some position => rw [seek_eq hseek, nextStart]

theorem exists_skipped (tables : Tables) (h : Stands file env set s pl) (hmask : ¬ LongMask file set pl)
    (hsound : Sound file set pl.position)
    (hno : required file env set pl.position = false ∨ tables.limit = none) {q : Nat}
    (hseek : file.seek (behind set pl.position) (behindHeader (headerAt file set pl.position)) = some q) :
    ∃ u, download file env tables set s = .ok u := by
  obtain ⟨b, hread, -⟩ := readDownload_sound h hmask hsound
  rw [download_skip hread hno, skipDownload_spec, hseek]
  exact ⟨_, rfl⟩

/-- With a header of the least size the sections are those that were reserved, and the place is the same. -/
theorem stored_together {tables : Tables} {position : Nat} (hsize : fileHeaderSize ≤ (headerAt file set position).headerSize)
    (hbehind : behind set position ≤ file.size) {loaded : List Nat} {r : Nat × List Nat}
    (hloads : loads file env tables (behind set position) loaded
      (excessSize (headerAt file set position) :: (headerAt file set position).sections) = some r) :
    r.1 = nextStart file set position ∧ r.2 = loaded ++ reservations (headerAt file set position) := by
  have hlt : (headerAt file set position).headerSize < 65536 := word_lt _ _
  have hle := loads_le hbehind hloads
  have hfits := file.fits
  obtain ⟨h1, h2⟩ := loads_eq hloads
  have hexcess : excessSize (headerAt file set position) = (headerAt file set position).headerSize - fileHeaderSize := by
    unfold excessSize
    omega
  have hreserve : ((headerAt file set position).headerSize + 18446744073709551616 - fileHeaderSize) % 18446744073709551616
      = (headerAt file set position).headerSize - fileHeaderSize := by omega
  refine ⟨?_, ?_⟩
  · unfold nextStart behindHeader
    unfold File.size at hle
    rw [List.sum_cons, hexcess] at h1
    omega
  · rw [h2, hexcess]
    unfold reservations
    rw [hreserve]

/-- A description that was loaded, and not logged behind the buffer, is short. -/
theorem description_short {tables : Tables} {position : Nat} {loaded : List Nat} {hdr : FileHeader} {r : Nat × List Nat}
    (hloads : loads file env tables position loaded (excessSize hdr :: hdr.sections) = some r)
    (hno : ¬ LongLog file env tables position loaded hdr) : hdr.downloadDescriptionSize < logBuffer := by
  refine Nat.lt_of_not_le fun hlong => ?_
  rw [loads_cons, Option.bind_eq_some_iff] at hloads
  obtain ⟨r', hfirst, hrest⟩ := hloads
  refine hno ⟨r', hfirst, hlong, Nat.le_of_not_lt fun hout => ?_⟩
  have hpos : 0 < hdr.downloadDescriptionSize := Nat.lt_of_lt_of_le (by decide) hlong
  have hnone : loads file env tables r'.1 r'.2 hdr.sections = none := loads_out hpos hout
  rw [hnone] at hrest
  cases hrest

/-- The reservation of a header that is too small is no word. -/
theorem reservations_large {hdr : FileHeader} (hsmall : hdr.headerSize < fileHeaderSize) : ∃ k ∈ reservations hdr, 65536 ≤ k := by
  refine ⟨hdr.headerSize + 18446744073709551616 - fileHeaderSize, ?_, ?_⟩
  · unfold reservations
    unfold fileHeaderSize at *
    rw [Nat.mod_eq_of_lt (by omega), List.filter_cons_of_pos (by simp)]
    exact List.mem_cons_self ..
  · unfold fileHeaderSize at *
    omega

/-! ### One download in both passes -/

theorem Together.place (hboth : Together s s') (h : Stands file env set s pl) (h' : Stands file env' set s' pl') :
    pl'.position = pl.position := by
  rw [← h'.position, hboth.position, h.position]

theorem Together.sound (hboth : Together s s') (h : Stands file env set s pl) (h' : Stands file env' set s' pl')
    (hdown : download file env .reserve set s = .ok t) : ¬ LongMask file set pl' ∧ Sound file set pl'.position := by
  obtain ⟨hmask, hsound⟩ := download_sound h hdown
  unfold LongMask
  rw [hboth.place h h']
  exact ⟨hmask, hsound⟩

/-- A download that the load pass does not require is skipped in both passes. -/
theorem Together.skip (hboth : Together s s') (h : Stands file env set s pl) (h' : Stands file env' set s' pl')
    (hdown : download file env .reserve set s = .ok t) (limit : Nat) (hno : required file env' set pl.position = false) :
    ∃ t', download file env' (.portable limit) set s' = .ok t' ∧
      (required file env set pl.position = false → Together t t') := by
  have hsame := hboth.place h h'
  obtain ⟨hmask', hsound'⟩ := hboth.sound h h' hdown
  obtain ⟨htpos, -, htends, htreserved, htcount⟩ := skipped h hdown (Or.inr rfl)
  have hno' : required file env' set pl'.position = false := by rw [hsame, hno]
  have hseek := skipped_seek h hdown (Or.inr rfl)
  rw [← hsame] at hseek
  obtain ⟨t', hdown'⟩ := exists_skipped (.portable limit) h' hmask' hsound' (Or.inl hno') hseek
  obtain ⟨htpos', htloaded', htends', -, htcount'⟩ := skipped h' hdown' (Or.inl hno')
  rw [hno', if_neg Bool.false_ne_true, hboth.requiredCount] at htcount'
  refine ⟨t', hdown', fun hreq => ?_⟩
  rw [hreq, if_neg Bool.false_ne_true] at htreserved htcount
  refine ⟨?_, ?_, ?_, ?_, ?_⟩
  · rw [htpos', hsame, htpos]
  · rw [htcount', htcount]
  · rw [htloaded', hboth.loaded, htreserved]
  · rw [htends', hboth.ends, htends, hsame]
  · rw [htloaded']
    exact hboth.small

/-- Where only the reservation pass requires a download, it counts this one, and the load pass none. -/
theorem Together.skip_apart (hboth : Together s s') (h : Stands file env set s pl) (h' : Stands file env' set s' pl')
    (hdown : download file env .reserve set s = .ok t) {n limit : Nat} {reserved loaded : Pass}
    (hrest : downloads file env .reserve set n t = .ok reserved) (hyes : required file env set pl.position = true)
    (hno : required file env' set pl.position = false)
    (hok : downloads file env' (.portable limit) set (n + 1) s' = .ok loaded) : ¬ Agree reserved loaded := by
  intro hagree
  have hne : required file env set pl.position ≠ required file env' set pl.position := by
    rw [hyes, hno]
    decide
  obtain ⟨-, -, -, -, htcount⟩ := skipped h hdown (Or.inr rfl)
  rw [hyes, if_pos rfl] at htcount
  obtain ⟨plt, ht⟩ := download_stands h hdown
  have hgrows := (reserve_grows ht hrest).1
  have hnone := none_required (fun q => by rw [(required_differ hne q).2, hno]) h' hok
  have hsame := hboth.requiredCount
  have hcount := hagree.1
  omega

/-- Where only the load pass requires a download, the table has no entry for it. -/
theorem Together.overflow (hboth : Together s s') (h : Stands file env set s pl) (h' : Stands file env' set s' pl')
    (hdown : download file env .reserve set s = .ok t) {n : Nat} {reserved : Pass}
    (hreserved : downloads file env .reserve set (n + 1) s = .ok reserved) (hno : required file env set pl.position = false)
    (hyes : required file env' set pl.position = true) :
    ∃ e, download file env' (.portable reserved.requiredCount) set s' = .error e := by
  have hne : required file env set pl.position ≠ required file env' set pl.position := by
    rw [hyes, hno]
    decide
  have hcount := none_required (fun q => by rw [(required_differ hne q).1, hno]) h hreserved
  have hfull : ¬ s'.requiredCount < reserved.requiredCount := by
    rw [hboth.requiredCount, hcount]
    exact Nat.lt_irrefl _
  obtain ⟨hmask', hsound'⟩ := hboth.sound h h' hdown
  obtain ⟨b, hloading⟩ := download_loading (.portable reserved.requiredCount) h' hmask' hsound'
    (by rw [hboth.place h h', hyes]) rfl
  generalize download file env' (.portable reserved.requiredCount) set s' = r' at hloading ⊢
  cases hloading with
  | overflow => exact ⟨_, rfl⟩
  | log hlt => exact absurd hlt hfull
  | failed hlt => exact absurd hlt hfull
  | stored hlt => exact absurd hlt hfull

/-- A download that both passes require: the card fails, or the passes stay together, or the description is too long to be
    logged, or the header is too small. -/
theorem Together.load (hboth : Together s s') (h : Stands file env set s pl) (h' : Stands file env' set s' pl')
    (hdown : download file env .reserve set s = .ok t) {limit : Nat} (hyes : required file env set pl.position = true)
    (hyes' : required file env' set pl.position = true) (hroom : s'.requiredCount < limit) :
    download file env' (.portable limit) set s' = .error (.text "download failed") ∨
      (∃ t', download file env' (.portable limit) set s' = .ok t' ∧ Together t t' ∧
        fileHeaderSize ≤ (headerAt file set pl.position).headerSize ∧
          (headerAt file set pl.position).downloadDescriptionSize < logBuffer) ∨
      (∃ e, download file env' (.portable limit) set s' = .error e ∧
        logBuffer ≤ (headerAt file set pl.position).downloadDescriptionSize) ∨
      (headerAt file set pl.position).headerSize < fileHeaderSize := by
  have hsame := hboth.place h h'
  obtain ⟨-, hsound⟩ := download_sound h hdown
  obtain ⟨hmask', hsound'⟩ := hboth.sound h h' hdown
  obtain ⟨htpos, -, htends, htreserved, htcount⟩ := skipped h hdown (Or.inr rfl)
  rw [hyes, if_pos rfl] at htcount htreserved
  obtain ⟨b, hloading⟩ := download_loading (.portable limit) h' hmask' hsound' (by rw [hsame, hyes']) rfl
  rw [hsame] at hloading
  generalize hdown' : download file env' (.portable limit) set s' = r' at hloading
  cases hloading with
  | overflow hover => exact absurd hroom (Nat.not_lt.mpr hover)
  | log _ hlog =>
    obtain ⟨r, -, hlong, -⟩ := hlog
    exact Or.inr (Or.inr (Or.inl ⟨_, rfl, hlong⟩))
  | failed => exact Or.inl rfl
  | stored _ hno hloads =>
    dsimp only at hloads hno
    by_cases hsize : fileHeaderSize ≤ (headerAt file set pl.position).headerSize
    · obtain ⟨h1, h2⟩ := stored_together hsize hsound.1 hloads
      refine Or.inr (Or.inl ⟨_, rfl, ⟨?_, ?_, ?_, ?_, ?_⟩, hsize, description_short hloads hno⟩)
      · rw [htpos]
        exact h1
      · rw [htcount, ← hboth.requiredCount]
      · rw [htreserved, ← hboth.loaded]
        exact h2
      · rw [htends, ← hboth.ends, ← h1]
      · exact small_step h' hdown' hboth.small
    · exact Or.inr (Or.inr (Or.inr (Nat.lt_of_not_le hsize)))

/-- What is reserved for a header that is too small is larger than any section that is loaded. -/
theorem Together.header_apart (hboth : Together s s') (h : Stands file env set s pl) (h' : Stands file env' set s' pl')
    (hdown : download file env .reserve set s = .ok t) {n limit : Nat} {reserved loaded : Pass}
    (hrest : downloads file env .reserve set n t = .ok reserved) (hyes : required file env set pl.position = true)
    (hsmall : (headerAt file set pl.position).headerSize < fileHeaderSize)
    (hok : downloads file env' (.portable limit) set (n + 1) s' = .ok loaded) : ¬ Agree reserved loaded := by
  intro hagree
  obtain ⟨-, -, -, htreserved, -⟩ := skipped h hdown (Or.inr rfl)
  rw [hyes, if_pos rfl] at htreserved
  obtain ⟨plt, ht⟩ := download_stands h hdown
  obtain ⟨k, hk, hlarge⟩ := reservations_large hsmall
  have hmem : k ∈ reserved.reserved :=
    (reserve_grows ht hrest).2.subset (by rw [htreserved]; exact List.mem_append_right _ hk)
  rw [← hagree.2.1] at hmem
  have := small_loaded h' hok hboth.small k hmem
  omega

/-- A download that is alike keeps the passes together; behind one that is not, they do not agree in the end. -/
theorem Together.next (hboth : Together s s') (h : Stands file env set s pl) (h' : Stands file env' set s' pl')
    (hdown : download file env .reserve set s = .ok t) {n : Nat} {reserved : Pass}
    (hrest : downloads file env .reserve set n t = .ok reserved)
    (hload : downloads file env' (.portable reserved.requiredCount) set (n + 1) s' ≠ .error (.text "download failed")) :
    (∃ t', download file env' (.portable reserved.requiredCount) set s' = .ok t' ∧ Together t t' ∧
        AlikeAt file set env env' pl.position) ∨
      ¬ AlikeAt file set env env' pl.position ∧
        ∀ loaded, downloads file env' (.portable reserved.requiredCount) set (n + 1) s' = .ok loaded →
          ¬ Agree reserved loaded := by
  cases hreq : required file env set pl.position with
  | false =>
    cases hreq' : required file env' set pl.position with
    | false =>
      obtain ⟨t', hdown', htogether⟩ := hboth.skip h h' hdown reserved.requiredCount hreq'
      exact Or.inl ⟨t', hdown', htogether hreq, hreq.trans hreq'.symm,
        fun hyes => absurd (hreq'.symm.trans hyes) Bool.false_ne_true⟩
    | true =>
      obtain ⟨e, hdown'⟩ := hboth.overflow h h' hdown ((downloads_step hdown).trans hrest) hreq hreq'
      refine Or.inr ⟨fun halike => absurd (hreq.symm.trans (halike.1.trans hreq')) Bool.false_ne_true, fun loaded hok => ?_⟩
      rw [downloads_stop hdown'] at hok
      cases hok
  | true =>
    cases hreq' : required file env' set pl.position with
    | false =>
      exact Or.inr ⟨fun halike => absurd (hreq'.symm.trans (halike.1.symm.trans hreq)) Bool.false_ne_true,
        fun loaded hok => hboth.skip_apart h h' hdown hrest hreq hreq' hok⟩
    | true =>
      have hroom : s'.requiredCount < reserved.requiredCount := by
        obtain ⟨plt, ht⟩ := download_stands h hdown
        obtain ⟨-, -, -, -, htcount⟩ := skipped h hdown (Or.inr rfl)
        have hgrows := (reserve_grows ht hrest).1
        rw [hreq, if_pos rfl] at htcount
        rw [hboth.requiredCount]
        omega
      rcases hboth.load h h' hdown hreq hreq' hroom with hfailed | ⟨t', hdown', htogether, hfits⟩ | ⟨e, hdown', hlong⟩ | hsmall
      · exact absurd (downloads_stop hfailed) hload
      · exact Or.inl ⟨t', hdown', htogether, hreq.trans hreq'.symm, fun _ => hfits⟩
      · refine Or.inr ⟨fun halike => absurd (halike.2 hreq').2 (Nat.not_lt.mpr hlong), fun loaded hok => ?_⟩
        rw [downloads_stop hdown'] at hok
        cases hok
      · exact Or.inr ⟨fun halike => absurd (halike.2 hreq').1 (Nat.not_le.mpr hsmall),
          fun loaded hok => hboth.header_apart h h' hdown hrest hreq hsmall hok⟩

/-- The passes agree just if every download is alike. -/
theorem passes_iff (n : Nat) {reserved : Pass} (h : Stands file env set s pl) (h' : Stands file env' set s' pl')
    (hboth : Together s s')
    (hreserved : downloads file env .reserve set n s = .ok reserved)
    (hload : downloads file env' (.portable reserved.requiredCount) set n s' ≠ .error (.text "download failed")) :
    (∃ loaded, downloads file env' (.portable reserved.requiredCount) set n s' = .ok loaded ∧ Agree reserved loaded) ↔
      ∀ p ∈ starts file set n s.position, AlikeAt file set env env' p := by
  induction n generalizing s s' pl pl' with
  | zero =>
    cases hreserved
    exact ⟨fun _ p hp => (List.not_mem_nil hp).elim, fun _ => ⟨s', rfl, hboth.requiredCount, hboth.loaded, hboth.ends⟩⟩
  | succ n ih =>
    obtain ⟨t, hdown, hrest⟩ := downloads_succ hreserved
    obtain ⟨plt, ht⟩ := download_stands h hdown
    rw [starts, List.forall_mem_cons, h.position, ← (skipped h hdown (Or.inr rfl)).1]
    rcases hboth.next h h' hdown hrest hload with ⟨t', hdown', htogether, halike⟩ | ⟨hno, hapart⟩
    · obtain ⟨plt', ht'⟩ := download_stands h' hdown'
      rw [downloads_step hdown'] at hload ⊢
      rw [ih ht ht' htogether hrest hload]
      exact ⟨fun hall => ⟨halike, hall⟩, fun hand => hand.2⟩
    · exact iff_of_false (fun ⟨loaded, hok, hagree⟩ => hapart loaded hok hagree) fun hand => hno hand.1

end Both

/-! ## The passes of a file -/

/-- The load pass with a table of the size that was counted, when no card load fails, agrees with
    the reservation pass just if both are alike. -/
theorem agree_iff_alike {file : File} {cardTypeNumber : Nat} {env env' : Env} {reserved : Pass}
    (hreserved : dspReadFile file cardTypeNumber .reserve env = .ok reserved)
    (hload : dspReadFile file cardTypeNumber (.portable reserved.requiredCount) env' ≠ .error (.text "download failed")) :
    (∃ loaded, dspReadFile file cardTypeNumber (.portable reserved.requiredCount) env' = .ok loaded ∧ Agree reserved loaded) ↔
      Alike file cardTypeNumber env env' := by
  have hlong : ¬ LongText file := by
    intro hlong
    unfold dspReadFile at hreserved
    rw [openCombifile_long file cardTypeNumber hlong] at hreserved
    cases hreserved
  unfold dspReadFile at hreserved hload ⊢
  rcases openCombifile_spec file cardTypeNumber hlong with ⟨⟨downloadCount, set, position⟩, hopened, hopen, hle⟩
    | ⟨-, error, hopen⟩
  · rw [hopen] at hreserved hload ⊢
    have hstands : ∀ env : Env, Stands file env set ⟨position, env.stack, 0, [], [], [], []⟩ ⟨position, 0, []⟩ :=
      fun env => ⟨rfl, rfl, rfl, hle, fun _ _ => rfl⟩
    have hiff := passes_iff downloadCount (hstands env) (hstands env')
        ⟨rfl, rfl, rfl, rfl, fun k hk => (List.not_mem_nil hk).elim⟩ hreserved hload
    refine hiff.trans ⟨fun hall n set' position' hsome => ?_, fun halike => halike downloadCount set position hopened⟩
    rw [hopened] at hsome
    cases hsome
    exact hall
  · rw [hopen] at hreserved
    cases hreserved

/-- Every pass ends, and writes only inside its buffers, just if it is safe; and a load pass agrees
    with a reservation pass just if they are alike. -/
theorem combifile_passes (file : File) (cardTypeNumber : Nat) :
    (∀ tables env, Ends (dspReadFile file cardTypeNumber tables env) ↔ Safe file cardTypeNumber tables env) ∧
      ∀ env env' reserved, dspReadFile file cardTypeNumber .reserve env = .ok reserved →
        dspReadFile file cardTypeNumber (.portable reserved.requiredCount) env' ≠ .error (.text "download failed") →
        ((∃ loaded, dspReadFile file cardTypeNumber (.portable reserved.requiredCount) env' = .ok loaded ∧
          Agree reserved loaded) ↔
          Alike file cardTypeNumber env env') :=
  ⟨ends_iff_safe file cardTypeNumber, fun _ _ _ hreserved hload => agree_iff_alike hreserved hload⟩

/-! ## A file that is read as it should -/

/-- Nothing is left on the stack, or all bits are set. -/
def stackOf (b : UInt8) : Env := ⟨fun _ => b, fun _ => some 0⟩

def countOf : Except Stop Pass → Option Nat
  | .ok s => some s.requiredCount
  | .error _ => none

theorem exists_of_countOf {r : Except Stop Pass} {n : Nat} (h : countOf r = some n) : ∃ s, r = .ok s ∧ s.requiredCount = n := by
  cases r with
  | ok s => exact ⟨s, rfl, Option.some.inj h⟩
  | error _ => cases h

/-- A download with its usage mask, a description and data. -/
def downloadBytes (mask : UInt8) (description dataDm : List UInt8) : List UInt8 :=
  mask :: (dspFileMagic ++ [0x0100, 0, 0, 0, 0, 82, description.length, 0, 0, 0, 0, 0, 0, dataDm.length, 1, 0, 0].flatMap
    (leBytes 2) ++
    description ++ dataDm)

/-- Three downloads; the card type 0 requires the first and the last one. -/
def threeDownloads : File :=
  ⟨dspCombifileMagic ++ [0x0100, 62, 0, 1, 4, 3, 1].flatMap (leBytes 2) ++ [0, 0, 0, 0] ++
    downloadBytes 1 [0x41] [1, 2, 3] ++ downloadBytes 2 [0x42] [4] ++ downloadBytes 1 [0x43, 0x44] [5, 6], by decide +kernel⟩

theorem threeDownloads_alike : Alike threeDownloads 0 (stackOf 0) (stackOf 0xff) := by
  have hopened : opened threeDownloads 0 = some (3, FileSet.of 1 0, 66) := by decide +kernel
  have hall : ∀ p ∈ starts threeDownloads (FileSet.of 1 0) 3 66,
      AlikeAt threeDownloads (FileSet.of 1 0) (stackOf 0) (stackOf 0xff) p := by
    unfold AlikeAt
    decide +kernel
  intro downloadCount set position h
  rw [hopened] at h
  cases h
  exact hall

theorem combifile_passes_three :
    ∃ reserved loaded, dspReadFile threeDownloads 0 .reserve (stackOf 0) = .ok reserved ∧ reserved.requiredCount = 2 ∧
      dspReadFile threeDownloads 0 (.portable 2) (stackOf 0xff) = .ok loaded ∧ Agree reserved loaded := by
  obtain ⟨reserved, hreserved, hcount⟩ :=
    exists_of_countOf (n := 2) (r := dspReadFile threeDownloads 0 .reserve (stackOf 0)) (by decide +kernel)
  have hload : dspReadFile threeDownloads 0 (.portable reserved.requiredCount) (stackOf 0xff)
      ≠ .error (.text "download failed") := by
    intro herror
    have hloaded : countOf (dspReadFile threeDownloads 0 (.portable 2) (stackOf 0xff)) = some 2 := by decide +kernel
    rw [hcount] at herror
    rw [herror] at hloaded
    cases hloaded
  obtain ⟨loaded, hloaded, hagree⟩ :=
    ((combifile_passes threeDownloads 0).2 (stackOf 0) (stackOf 0xff) reserved hreserved hload).mpr
    threeDownloads_alike
  rw [hcount] at hloaded
  exact ⟨reserved, loaded, hreserved, hcount, hloaded, hagree⟩

/-! ## Files that are not read as they should -/

/-- A combifile with one directory entry, for card type 0 and file set 0, and one download. -/
def combifile (descriptionSize usageMaskSize : Nat) (rest : List UInt8) : List UInt8 :=
  dspCombifileMagic ++ [0x0100, 62, descriptionSize, 1, 4, 1, usageMaskSize].flatMap (leBytes 2) ++ rest

/-- A description of 256 bytes. -/
def longText : File := ⟨combifile 256 1 (List.replicate 256 0x41), by decide +kernel⟩

/-- A usage mask of 17 bytes. -/
def longMask : File := ⟨combifile 0 17 (List.replicate 21 0), by decide +kernel⟩

/-- No usage mask, and a download without sections. -/
def noMask : File :=
  ⟨combifile 0 0 ([0, 0, 0, 0] ++ dspFileMagic ++ [0x0100, 0, 0, 0, 0, 82, 0, 0, 0, 0, 0, 0, 0, 0, 0, 0, 0].flatMap
    (leBytes 2)), by decide +kernel⟩

def stopOf : Except Stop Pass → Option Stop
  | .ok _ => none
  | .error e => some e

theorem eq_of_stopOf {r : Except Stop Pass} {e : Stop} (h : stopOf r = some e) : r = .error e := by
  cases r with
  | ok _ => cases h
  | error e' => rw [Option.some.inj h]

theorem not_ends_of_fault {r : Except Stop Pass} {f : Fault} (h : stopOf r = some (.fault f)) : ¬ Ends r := by
  rw [eq_of_stopOf h]
  rintro (⟨s, hs⟩ | ⟨error, herror⟩)
  · cases hs
  · cases herror

/-- The reservation pass writes behind its buffers, and a load pass requires what was not counted. -/
theorem combifile_misread :
    ¬ Ends (dspReadFile longText 0 .reserve (stackOf 0)) ∧ ¬ Ends (dspReadFile longMask 0 .reserve (stackOf 0)) ∧
      ∃ reserved, dspReadFile noMask 0 .reserve (stackOf 0) = .ok reserved ∧
        dspReadFile noMask 0 (.portable reserved.requiredCount) (stackOf 0xff) = .error (.text "download table overflow") := by
  refine ⟨not_ends_of_fault (f := .write) (by decide +kernel), not_ends_of_fault (f := .write) (by decide +kernel), ?_⟩
  obtain ⟨reserved, hreserved, hcount⟩ :=
    exists_of_countOf (n := 0) (r := dspReadFile noMask 0 .reserve (stackOf 0)) (by decide +kernel)
  refine ⟨reserved, hreserved, eq_of_stopOf ?_⟩
  rw [hcount]
  decide +kernel

end Divas.Dsp
