/-
  Divas.Capi.B23Bounds — the bounds of what `add_b23` writes and reads.

  Proved, for every B protocol and every state of the PLCI: `add_b23` writes inside of `dlc`
  and `nlc`, reads inside of the parameters that were parsed and of its tables, and hands
  over parameters whose length counts the octets that were written, if and only if the
  configurations fit (`add_b23_bounds`). What does not fit is not checked by the code: see
  `ProtocolFits`, and `xid_miscounted` for the shortest XID of X.75.
-/

import Divas.Capi.B23Layer2
import Divas.Capi.BProtocolAlike

namespace Divas.Capi

open Divas.Lib.Bytes Divas.Lib.Octets

/-! ## Layer 3 -/

section Layer3

variable {n : Param} {c : Parm}

/-- X.25 has no octet that its length does not count. -/
theorem addX25_bounds (h : n.Covers 256 0 0) :
    (addX25 n c).1.Sound 256 ∧ ((addX25 n c).2 = .success → (addX25 n c).1.array.Counts) := by
  unfold addX25
  split
  · exact ⟨h.sound, fun _ => h.counts⟩
  dsimp only
  have hlength := h.setLength (m := 14) (by decide) (by decide)
  split
  · exact ⟨hlength.sound, fun hs => by cases hs⟩
  have hc : 16 ≤ c.length := by omega
  have haddr :=
    (hlength.put (v := c.struct.fetch 1 12) (by simp; omega) (show 1 ≠ 0 by decide) (by decide) (show _ = 12 + 1 by simp)
    (by decide)).look (v := c.struct.fetch 13 2) (by simp; omega)
  split
  · exact ⟨haddr.sound, fun hs => by cases hs⟩
  have hmod :=
    (haddr.put (v := c.struct.fetch 13 1) (by simp; omega) (show 13 ≠ 0 by decide) (by decide) (show _ = 13 + 1 by simp)
    (by decide)).look (v := c.struct.fetch 15 2) (by simp; omega)
  split
  · exact ⟨hmod.sound, fun hs => by cases hs⟩
  have hwin := hmod.put (v := c.struct.fetch 15 1) (by simp; omega) (show 14 ≠ 0 by decide) (by decide) (show _ = 14 + 1 by simp)
    (by decide)
  split
  · have hext := (hwin.setLength (m := 16) (by decide) (by decide)).look (v := c.struct.fetch 17 1) (by simp; omega)
    split
    · exact ⟨hext.sound, fun hs => by cases hs⟩
    · have hall := hext.put (v := c.struct.fetch 17 2) (by simp; omega) (show 15 ≠ 0 by decide) (by decide)
        (show _ = 16 + 1 by simp) (by decide)
      exact ⟨hall.sound, fun _ => hall.counts⟩
  · exact ⟨hwin.sound, fun _ => hwin.counts⟩

/-! ### Fax -/

variable {f : Features} {p : BChannel} {fax : FaxInfo} {applId len top : Nat}

/-- A field of one octet over octets that are there. -/
theorem t30_covers (field : Nat) (v : UInt8) (h : n.Covers 256 len top) (hfield : field < top) (htop : top < 256) :
    (t30 n field (Fetched.literal [v])).Covers 256 len top :=
  h.put (by simp) (by omega) (by omega) (by simp; omega) htop

theorem startFax_covers (h : n.Covers 256 0 0) : (startFax f n c).Covers 256 36 35 := by
  unfold startFax
  have hzero : ((n.put 0 (Fetched.literal (List.replicate t30Size 0))).setLength t30Size).Covers 256 36 35 := by
    refine ⟨?_, by simp [t30Size], ?_⟩
    · rw [Param.sound_setLength _ _ (by decide), Param.sound_put]
      simp [h.sound, t30Size]
    · intro k
      simp [h.written, t30Size]
      omega
  have hmode := fun v => t30_covers t30OperatingMode v hzero (by decide) (by decide)
  have hrate := fun v w => t30_covers t30Rate w (hmode v) (by decide) (by decide)
  dsimp only
  split
  · exact t30_covers _ _ ((hrate _ _).look (by simp; omega)) (by decide) (by decide)
  · exact hrate _ _

theorem putFormat_covers {dataFormat resolution : Nat} (h : n.Covers 256 36 35) :
    (putFormat f p fax n dataFormat resolution).Covers 256 36 35 := by
  unfold putFormat
  have hput : ∀ (field : Nat) (v : UInt8) (m : Param), field < 35 → m.Covers 256 36 35 →
      (t30 m field (Fetched.literal [v])).Covers 256 36 35 :=
    fun field v m hf hm => t30_covers field v hm hf (by decide)
  apply hput _ _ _ (by decide)
  apply hput _ _ _ (by decide)
  have hformat := hput t30DataFormat (octet dataFormat) n (by decide) h
  have hrecording : (if hasBits f.manufacturerFeatures featureFaxPaperFormats then
      t30 (t30 n t30DataFormat (Fetched.literal [octet dataFormat])) t30Recording (Fetched.literal [10])
      else t30 n t30DataFormat (Fetched.literal [octet dataFormat])).Covers 256 36 35 := by
    split
    · exact hput _ _ _ (by decide) hformat
    · exact hformat
  split
  · exact hput _ _ _ (by decide) (hput _ _ _ (by decide) hrecording)
  · exact hrecording

theorem putStationId_covers {ps : List Parm} (hps : (parm ps 2).length = 0 ∨ 2 < ps.length) (h : n.Covers 256 36 35) :
    (putStationId n ps).Covers 256 36 36 := by
  unfold putStationId
  have hsize : min (parm ps 2).length 20 = 0 ∨ min (parm ps 2).length 20 + 1 ≤ (parmSource faxFormat ps 2).size := by
    rcases hps with h0 | hlen
    · exact .inl (by omega)
    · rw [size_s rfl hlen]
      exact .inr (by omega)
  dsimp only
  refine t30_covers _ _ ?_ (by decide) (by decide)
  refine h.put ?_ (by decide) (by decide) ?_ (by decide)
  · simp only [Fetched.accesses_append, allInside_append, Source.allInside_fetch]
    simp
    omega
  · simp only [Fetched.octets_append, Fetched.octets_literal, Source.octets_fetch_length, List.length_append,
      List.length_replicate,
      t30StationId]
    omega

theorem putHeadLine_covers {ps : List Parm} (hps : (parm ps 3).length = 0 ∨ 3 < ps.length) (h : n.Covers 256 36 36) :
    (putHeadLine n ps).Covers 256 (36 + headLineLen ps) (36 + headLineLen ps) := by
  unfold putHeadLine
  have hle : headLineLen ps ≤ 89 := Nat.min_le_right _ _
  split
  · have hlen : (n.length + headLineLen ps) < 256 := by
      rw [h.length]
      omega
    have hhead := (t30_covers t30HeadLineLen (octet (headLineLen ps)) h (by decide) (by decide)).setLength (by decide) hlen
    rw [h.length] at hhead ⊢
    refine hhead.put ?_ (by decide) (by decide) (by simp [t30Size]; omega) (by omega)
    rw [Source.allInside_fetch, size_s rfl (hps.resolve_left ‹_›)]
    unfold headLineLen
    omega
  · have h0 : headLineLen ps = 0 := by
      unfold headLineLen
      omega
    rw [h0]
    exact t30_covers _ _ h (by decide) (by decide)

/-- NLC with the whole configuration of a fax that was parsed. -/
theorem putFax_covers (f : Features) (p : BChannel) (fax : FaxInfo) (resolution : Nat)
    (hm : c.length = 0 ∨ c.malformed faxFormat = false) (h : n.Covers 256 36 35) :
    (putFax f p fax n resolution c).Covers 256 (36 + headLineLen (parsed c faxFormat))
      (36 + headLineLen (parsed c faxFormat)) := by
  have hword : ∀ (m : Param) (k : Nat), k < 2 → m.Covers 256 36 35 → (lookFaxWord m c k).Covers 256 36 35 := by
    intro m k hk hcovers
    unfold lookFaxWord
    split
    · have hlen := parsed_length (hm.resolve_left (by omega))
      refine hcovers.look ?_
      have hf : faxFormat[k]? = some .w := by
        rcases k with _ | _ | k
        · rfl
        · rfl
        · omega
      rw [Source.allInside_fetch, size_w hf (by rw [hlen]; simp [faxFormat]; omega)]
      exact .inr (Nat.le_refl _)
    · exact hcovers
  have hparsed : ∀ i, i < 4 → (parm (parsed c faxFormat) i).length = 0 ∨ i < (parsed c faxFormat).length := by
    intro i hi
    cases hmal : c.malformed faxFormat with
    | true =>
      have hnone : c.parse faxFormat = none := by simpa [Parm.malformed] using hmal
      simp [parsed, hnone, parm, Parm.empty]
    | false => exact .inr (by rw [parsed_length hmal]; exact hi)
  unfold putFax
  exact putHeadLine_covers (hparsed 3 (by decide)) (putStationId_covers (hparsed 2 (by decide)) (putFormat_covers
    (hword _ 1 (by decide) (hword n 0 (by decide) h))))

theorem faxNsf_inside (fax : FaxInfo) (pos : Nat) (c : Parm) :
    AllInside (faxNsf fax pos c).1.accesses ∧ AllInside (faxNsf fax pos c).2.1.accesses := by
  unfold faxNsf
  dsimp only
  split
  · exact ⟨by simp, by simp⟩
  cases hparse : c.parse nsfFormat with
  | none => exact ⟨by simp, by simp⟩
  | some ps =>
    have hs : (parmSource nsfFormat ps 4).size = (parm ps 4).length + 1 := size_s rfl (by rw [parse_length hparse]; decide)
    refine ⟨?_, ?_⟩
    · simp [hs]
      omega
    · dsimp only
      split
      · split
        · simp [hs]
          omega
        · simp [hs]
          omega
      · simp

theorem faxItems_inside (f : Features) (p : BChannel) (fax : FaxInfo) (applId : Nat) (c : Parm) :
    AllInside (faxItems f p fax applId c).1.accesses ∧ AllInside (faxItems f p fax applId c).2.1.accesses := by
  unfold faxItems
  dsimp only
  split
  · obtain ⟨hnsf, hseen⟩ := faxNsf_inside fax (faxItem fax (faxItem fax t30Size).2).2 c
    exact ⟨by simpa using hnsf, hseen⟩
  · exact ⟨by simp, by simp⟩

/-- A length of one byte, and all octets below 256. -/
def OneByte (total : Nat) : Prop := total % 256 = min total 255

theorem putItems_bounds (f : Features) (p : BChannel) (fax : FaxInfo) (applId : Nat) (c : Parm) (h : n.Covers 256 len len)
    (hlen : 36 ≤ len) :
    (putItems f p fax n applId c).1.Sound 256 ∧ (∀ k, k ≤ len → k ∈ (putItems f p fax n applId c).1.array.written) ∧
      ((putItems f p fax n applId c).1.array.Counts ↔ OneByte (len + (faxItems f p fax applId c).1.octets.length)) := by
  obtain ⟨hitems, hseen⟩ := faxItems_inside f p fax applId c
  unfold putItems
  dsimp only
  have hlook := h.look hseen
  generalize faxItems f p fax applId c = r at hitems hseen hlook
  have hfill : ∀ k, k ≤ len → k ∈ ((n.look r.2.1).fill r.1).array.written := by
    intro k hk
    refine List.mem_cons_of_mem _ ((Counted.mem_fill _ _ _ _).2 (.inr ?_))
    exact (hlook.written k).2 hk
  have hsound : ((n.look r.2.1).fill r.1).Sound 256 := Param.sound_fill.2 ⟨hitems, hlook.sound⟩
  have hcounts : ((n.look r.2.1).fill r.1).array.Counts ↔ OneByte (len + r.1.octets.length) := by
    rw [Param.fill_counts (by rw [hlook.length]; exact hlook.written), hlook.length]
    rfl
  split
  · refine ⟨(Param.sound_put _ _ _).2 ⟨by simp, .inr (by simp [t30OperatingMode]), hsound⟩, ?_, ?_⟩
    · intro k hk
      exact (Param.mem_put _ _ _ _).2 (.inr (hfill k hk))
    · rw [← hcounts]
      refine Counted.counts_copy _ _ _ (by decide) ?_
      intro k _ hk
      exact hfill k (by simp [t30OperatingMode] at hk; omega)
  · exact ⟨hsound, hfill, hcounts⟩

/-- The strings that are put behind the head line leave NLC with a length of one byte. -/
def FaxFits (f : Features) (p : BChannel) (fax : FaxInfo) (applId b3 : Nat) (c : Parm) : Prop :=
  let p := faxOptions f p (faxWord c 1)
  b3 = b3T30WithExtensions → wantsItems f p applId = true →
    OneByte (36 + headLineLen (parsed c faxFormat) + (faxItems f p fax applId c).1.octets.length)

theorem extendFax_bounds (f : Features) (p : BChannel) (fax : FaxInfo) (applId : Nat) (c : Parm) (h : n.Covers 256 len len)
    (hlen : 36 ≤ len) :
    (extendFax f p fax n applId c).1.Sound 256 ∧ (∀ k, k ≤ len → k ∈ (extendFax f p fax n applId c).1.array.written) ∧
      ((extendFax f p fax n applId c).1.array.Counts ↔ (p.b3Prot = b3T30WithExtensions → wantsItems f p applId = true →
        OneByte (len + (faxItems f p fax applId c).1.octets.length))) := by
  unfold extendFax
  by_cases hwant : p.b3Prot = b3T30WithExtensions ∧ wantsItems f p applId = true
  · rw [if_pos hwant]
    obtain ⟨hsound, hw, hcounts⟩ := putItems_bounds f p fax applId c h hlen
    refine ⟨hsound, hw, hcounts.trans ⟨fun ho _ _ => ho, fun ho => ho hwant.1 hwant.2⟩⟩
  · rw [if_neg hwant]
    exact ⟨h.sound, fun k hk => (h.written k).2 hk, iff_of_true h.counts (fun h5 hw => absurd ⟨h5, hw⟩ hwant)⟩

/-- The bits are put over octets that are there. -/
theorem putFaxBits_bounds {b : FaxBits} (hsound : n.Sound 256) (hw : ∀ k, k ≤ 36 → k ∈ n.array.written) :
    (putFaxBits n b).Sound 256 ∧ ((putFaxBits n b).array.Counts ↔ n.array.Counts) := by
  unfold putFaxBits
  have hcontrol : (t30 n t30ControlBits (Fetched.literal (leBytes 2 b.control))).array.Counts ↔ n.array.Counts := by
    refine Counted.counts_copy _ _ _ (by decide) ?_
    intro k _ hk
    exact hw k (by simp [t30ControlBits] at hk; omega)
  refine ⟨?_, Iff.trans ?_ hcontrol⟩
  · refine (Param.sound_put _ _ _).2 ⟨by simp, .inr (by simp [t30FeatureBits]), ?_⟩
    exact (Param.sound_put _ _ _).2 ⟨by simp, .inr (by simp [t30ControlBits]), hsound⟩
  · refine Counted.counts_copy _ _ _ (by decide) ?_
    intro k _ hk
    exact (Param.mem_put _ _ _ _).2 (.inr (hw k (by simp [t30FeatureBits] at hk; omega)))

theorem faxOptions_b3Prot (dataFormat : Nat) : (faxOptions f p dataFormat).b3Prot = p.b3Prot := by
  unfold faxOptions
  dsimp only
  split
  · split
    · rfl
    · rfl
  · split
    · rfl
    · rfl

theorem addFax_bounds {s : B23} (h : n.Covers 256 36 35) :
    (addFax f s applId n c).2.1.Sound 256 ∧ ((addFax f s applId n c).2.2 = .success →
      ((addFax f s applId n c).2.1.array.Counts ↔ FaxFits f s.p s.fax applId s.p.b3Prot c)) := by
  unfold addFax FaxFits
  by_cases hbad : c.length ≠ 0 ∧ c.malformed faxFormat = true
  · rw [if_pos hbad]
    exact ⟨h.sound, fun hs => by cases hs⟩
  rw [if_neg hbad]
  have hm : c.length = 0 ∨ c.malformed faxFormat = false := by
    by_cases h0 : c.length = 0
    · exact .inl h0
    · exact .inr (Bool.not_eq_true _ ▸ fun hm => hbad ⟨h0, hm⟩)
  dsimp only
  generalize faxBits f s.p s.fax applId (t30Field n t30Rate) (faxWord c 0) (faxWord c 1) = b
  have hhead := putFax_covers f s.p s.fax b.resolution hm h
  generalize putFax f s.p s.fax n b.resolution c = m at hhead
  by_cases h5 : s.p.b3Prot = b3T30WithExtensions
  · rw [if_pos h5, if_pos h5]
    obtain ⟨hsound, hw, hcounts⟩ := extendFax_bounds f (faxOptions f s.p (faxWord c 1)) s.fax applId c hhead (by omega)
    obtain ⟨hs, hc⟩ := putFaxBits_bounds (b := optionBits f (faxOptions f s.p (faxWord c 1)) applId (faxWord c 1) b) hsound
      (fun k hk => hw k (by omega))
    rw [faxOptions_b3Prot] at hcounts
    exact ⟨hs, fun _ => hc.trans hcounts⟩
  · rw [if_neg h5, if_neg h5]
    obtain ⟨hsound, hw, hcounts⟩ := extendFax_bounds f s.p s.fax applId c hhead (by omega)
    obtain ⟨hs, hc⟩ := putFaxBits_bounds (b := b) hsound (fun k hk => hw k (by omega))
    exact ⟨hs, fun _ => iff_of_true (hc.2 (hcounts.2 fun h' => absurd h' h5)) (fun h' => absurd h' h5)⟩

theorem addX25_info {b3 : Nat} (h3 : ¬ (b3 = b3T30 ∨ b3 = b3T30WithExtensions)) : (addX25 n c).2 = b3Config b3 c := by
  unfold addX25 b3Config
  simp only [apply_ite Prod.snd, if_neg h3]
  by_cases h18 : c.length = 18
  · simp [h18]
  · simp [h18]

/-- The error of layer 3 is the one of its configuration. -/
theorem addB3_info (f : Features) (s : B23) (applId : Nat) (n : Param) (c : Parm) :
    (addB3 f s applId n c).2.2 = b3Config s.p.b3Prot c := by
  unfold addB3 isFax
  by_cases hfax : s.p.b3Prot = b3T30 ∨ s.p.b3Prot = b3T30WithExtensions
  · rw [if_pos (by simpa using hfax)]
    unfold addFax b3Config
    rw [if_pos hfax]
    by_cases h0 : c.length = 0
    · rw [if_neg (fun hbad => hbad.1 h0), if_pos h0]
    · rw [if_neg h0]
      by_cases hm : c.malformed faxFormat = true
      · rw [if_pos ⟨h0, hm⟩]
        exact (if_pos hm).symm
      · rw [if_neg (fun hbad => hm hbad.2)]
        exact (if_neg hm).symm
  · rw [if_neg (by simpa using hfax)]
    exact addX25_info hfax

/-- NLC of layer 3: what a fax has in it, else X.25. -/
theorem addB3_bounds (f : Features) (s : B23) (applId : Nat) (c : Parm)
    (h : n.Covers 256 (if isFax s.p.b3Prot then 36 else 0) (if isFax s.p.b3Prot then 35 else 0)) :
    (addB3 f s applId n c).2.1.Sound 256 ∧ ((addB3 f s applId n c).2.2 = .success →
      ((addB3 f s applId n c).2.1.array.Counts ↔ FaxFits f s.p s.fax applId s.p.b3Prot c)) := by
  unfold addB3
  by_cases hfax : isFax s.p.b3Prot = true
  · rw [if_pos hfax, if_pos hfax] at h
    rw [if_pos hfax]
    exact addFax_bounds h
  · rw [if_neg hfax, if_neg hfax] at h
    rw [if_neg hfax]
    obtain ⟨hsound, hcounts⟩ := addX25_bounds (c := c) h
    have h5 : s.p.b3Prot ≠ b3T30WithExtensions := by
      intro h5
      simp [isFax, h5] at hfax
    exact ⟨hsound, fun hs => iff_of_true (hcounts hs) (fun h' => absurd h' h5)⟩

end Layer3

/-! ## add_b23 -/

/-- Nothing is written or read outside, and the lengths of what is handed over count it. -/
structure InBounds (s : B23) : Prop where
  reads : AllInside s.reads
  dlc : s.dlc.Sound 64
  nlc : s.nlc.Sound 256
  dlcCounts : s.dlcAdded = true → s.dlc.array.Counts
  nlcCounts : s.nlcAdded = true → s.nlc.array.Counts

/-- Nothing is put into DLC and NLC yet. -/
structure Untouched (s : B23) : Prop where
  reads : AllInside s.reads
  dlc : s.dlc.reads = [] ∧ s.dlc.array.written = []
  nlc : s.nlc.reads = [] ∧ s.nlc.array.written = []
  dlcAdded : s.dlcAdded = false
  nlcAdded : s.nlcAdded = false

section Protocol

variable {f : Features} {dma : Int} {s : B23} {fax : FaxInfo} {applId max : Nat} {bps : List Parm}

theorem sound_empty {b : Param} {size : Nat} (h : b.reads = [] ∧ b.array.written = []) : b.Sound size := by
  refine ⟨by simp [h.1], ?_⟩
  intro k hk
  simp [h.2] at hk

theorem Untouched.inBounds (h : Untouched s) : InBounds s :=
  ⟨h.reads, sound_empty h.dlc, sound_empty h.nlc, fun ha => by simp [h.dlcAdded] at ha, fun ha => by simp [h.nlcAdded] at ha⟩

theorem Untouched.look {v : Fetched} (h : Untouched s) (hv : AllInside v.accesses) : Untouched (s.look v) :=
  ⟨(allInside_append _ _).2 ⟨hv, h.reads⟩, h.dlc, h.nlc, h.dlcAdded, h.nlcAdded⟩

theorem Untouched.setP (h : Untouched s) (p : BChannel) : Untouched { s with p } :=
  ⟨h.reads, h.dlc, h.nlc, h.dlcAdded, h.nlcAdded⟩

/-- The length of DLC and the word behind it. -/
theorem start_covers {b : Param} {w : Nat} (h : b.reads = [] ∧ b.array.written = []) :
    (putWord (b.setLength 2) w).Covers 64 2 2 := by
  unfold putWord
  refine ⟨?_, by simp, ?_⟩
  · rw [Param.sound_put, Param.sound_setLength _ _ (by decide)]
    simp [sound_empty h]
  · intro k
    simp [h.2]
    omega

theorem startNlc_covers (f : Features) (b3 : Nat) (c : Parm) (h : s.nlc.reads = [] ∧ s.nlc.array.written = []) :
    (startNlc f s b3 c).Covers 256 (if isFax b3 then 36 else 0) (if isFax b3 then 35 else 0) := by
  have hempty : (s.nlc.setLength 0).Covers 256 0 0 := by
    refine ⟨(Param.sound_setLength _ _ (by decide)).2 (sound_empty h), by simp, ?_⟩
    intro k
    simp [h.2]
  unfold startNlc
  dsimp only
  split
  · exact startFax_covers hempty
  · exact hempty

theorem addNoProtocol_bounds (h : Untouched s) : InBounds (addNoProtocol s max).1 :=
  have hcovers := start_covers (w := max) h.dlc
  ⟨h.reads, hcovers.sound, sound_empty h.nlc, fun _ => hcovers.counts,
    fun ha => by simp [addNoProtocol, B23.addDlc, h.nlcAdded] at ha⟩

/-- Both configurations are copied, up to the end of DLC and NLC. -/
def IpFits (bps : List Parm) : Prop := (parm bps 4).length ≤ 55 ∧ (parm bps 5).length ≤ 255

theorem addIp_bounds (h : Untouched s) : InBounds (addIp s max bps).1 ↔ IpFits bps := by
  have hdlc : (addIp s max bps).1.dlc.Sound 64 ↔ (parm bps 4).length ≤ 55 := by
    simp only [addIp, putWord, B23.addDlc, B23.addNlc]
    rw [Param.sound_setLength _ _ (by decide), Param.sound_put, Param.sound_put, Param.sound_put]
    simp [sound_empty h.dlc]
    omega
  have hnlc : (addIp s max bps).1.nlc.Sound 256 ↔ (parm bps 5).length ≤ 255 := by
    simp only [addIp, B23.addDlc, B23.addNlc]
    rw [Param.sound_setLength _ _ (by decide), Param.sound_put]
    simp [sound_empty h.nlc]
    omega
  constructor
  · intro hb
    exact ⟨hdlc.1 hb.dlc, hnlc.1 hb.nlc⟩
  · rintro ⟨h4, h5⟩
    have hd : (addIp s max bps).1.dlc.Covers 64 (8 + (parm bps 4).length) (8 + (parm bps 4).length) := by
      refine ⟨hdlc.2 h4, ?_, ?_⟩
      · simp [addIp, B23.addDlc, B23.addNlc]
        omega
      · intro k
        simp [addIp, putWord, B23.addDlc, B23.addNlc, h.dlc.2]
        omega
    have hn : (addIp s max bps).1.nlc.Covers 256 (parm bps 5).length (parm bps 5).length := by
      refine ⟨hnlc.2 h5, ?_, ?_⟩
      · simp [addIp, B23.addDlc, B23.addNlc]
        omega
      · intro k
        simp [addIp, B23.addDlc, B23.addNlc, h.nlc.2]
        omega
    exact ⟨h.reads, hd.sound, hn.sound, fun _ => hd.counts, fun _ => hn.counts⟩

/-- The configurations of the two layers fit DLC and NLC. -/
def LayersFit (f : Features) (p : BChannel) (fax : FaxInfo) (applId : Nat) (bps : List Parm) : Prop :=
  let b1 := (parm bps 0).word 0
  let b2 := (parm bps 1).word 0
  let b3 := (parm bps 2).word 0
  let accepted := b3Config b3 (parm bps 5) = .success
  (ownLayer2 b2 = true ∨ b2 < 13) ∧ b3 < 8 ∧ B2Fits accepted (layer2 p b2) b1 b2 b3 (parm bps 4) ∧
    (b2Config (layer2 p b2) b3 (parm bps 4) = .success → accepted → FaxFits f p fax applId b3 (parm bps 5))

/-- The strings depend on the options that are asked for, and on nothing else of the channel. -/
theorem faxFits_congr {p p' : BChannel} {b3 : Nat} {c : Parm} (h : p.requestedOptions = p'.requestedOptions)
    (hconn : p.requestedOptionsConn = p'.requestedOptionsConn) : FaxFits f p fax applId b3 c ↔ FaxFits f p' fax applId b3 c := by
  have hoptions : (faxOptions f p (faxWord c 1)).requestedOptions = (faxOptions f p' (faxWord c 1)).requestedOptions ∧
      (faxOptions f p (faxWord c 1)).requestedOptionsConn = (faxOptions f p' (faxWord c 1)).requestedOptionsConn := by
    unfold faxOptions
    split
    · split
      · simp [h, hconn]
      · simp [h, hconn]
    · split
      · simp [h, hconn]
      · simp [h, hconn]
  have hrequested : ∀ option, optionRequested f (faxOptions f p (faxWord c 1)) applId option =
      optionRequested f (faxOptions f p' (faxWord c 1)) applId option := by
    intro option
    unfold optionRequested
    rw [hoptions.1, hoptions.2]
  unfold FaxFits wantsItems faxItems
  simp only [hrequested]

theorem addB3_frame (f : Features) (s : B23) (applId : Nat) (n : Param) (c : Parm) :
    (addB3 f s applId n c).1.reads = s.reads ∧ (addB3 f s applId n c).1.dlcAdded = s.dlcAdded ∧
      (addB3 f s applId n c).1.nlcAdded = s.nlcAdded := by
  unfold addB3 addFax
  split
  · dsimp only
    split
    · exact ⟨rfl, rfl, rfl⟩
    · exact ⟨rfl, rfl, rfl⟩
  · exact ⟨rfl, rfl, rfl⟩

theorem startLayers_reads (b2 b3 : Nat) (h : AllInside s.reads) :
    AllInside (startLayers s b2 b3).reads ↔ (ownLayer2 b2 = true ∨ b2 < 13) ∧ b3 < 8 := by
  have h2 : llc2Table.size = 13 := rfl
  have h3 : headerTable.size = 8 := rfl
  unfold startLayers
  dsimp only
  by_cases hown : ownLayer2 b2 = true
  · simp only [hown, if_true, B23.look, allInside_append, Source.allInside_fetch, h, h3]
    simp only [true_or, and_true, true_and]
    omega
  · rw [if_neg hown]
    simp only [hown, B23.look, allInside_append, Source.allInside_fetch, h, h2, h3]
    simp only [and_true, Bool.false_eq_true, false_or]
    omega

theorem startLayers_fields (s : B23) (b2 b3 : Nat) :
    (startLayers s b2 b3).p = { s.p with b2Prot := b2, b3Prot := b3 } ∧
    (startLayers s b2 b3).fax = s.fax ∧ (startLayers s b2 b3).dlc = s.dlc ∧ (startLayers s b2 b3).nlc = s.nlc ∧
    (startLayers s b2 b3).dlcAdded = s.dlcAdded ∧ (startLayers s b2 b3).nlcAdded = s.nlcAdded := by
  unfold startLayers
  dsimp only
  split
  · exact ⟨rfl, rfl, rfl, rfl, rfl, rfl⟩
  · exact ⟨rfl, rfl, rfl, rfl, rfl, rfl⟩

theorem addLayers_bounds (h : Untouched s) : InBounds (addLayers f s applId max bps).1 ↔ LayersFit f s.p s.fax applId bps := by
  unfold addLayers LayersFit
  dsimp only
  generalize (parm bps 0).word 0 = b1
  generalize (parm bps 1).word 0 = b2
  generalize (parm bps 2).word 0 = b3
  have hreads := startLayers_reads b2 b3 h.reads
  obtain ⟨hp, hfax, hdlc, hnlc, hda, hna⟩ := startLayers_fields s b2 b3
  generalize startLayers s b2 b3 = s' at hreads hp hfax hdlc hnlc hda hna
  have hd : (startDlc s' max b3).Covers 64 2 2 := start_covers (by rw [hdlc]; exact h.dlc)
  have hn := startNlc_covers f b3 (parm bps 3) (by rw [hnlc]; exact h.nlc)
  have hb3 : s'.p.b3Prot = b3 := by rw [hp]
  have hl2 : layer2 s'.p b2 = layer2 s.p b2 := by rw [hp]; rfl
  rw [hl2]
  have hkept := addB2_kept (b3Config b3 (parm bps 5) = .success) max (layer2 s.p b2) b1 b2 b3 (parm bps 4) hd
  have hinfo := addB2_info (startDlc s' max b3) max (layer2 s.p b2) b1 b2 b3 (parm bps 4)
  generalize addB2 (startDlc s' max b3) max (layer2 s.p b2) b1 b2 b3 (parm bps 4) = r at hkept hinfo
  have hb := addB3_bounds f s' applId (parm bps 5) (by rw [hb3]; exact hn)
  have hinfo3 := addB3_info f s' applId (startNlc f s' b3 (parm bps 3)) (parm bps 5)
  obtain ⟨hr3, hda3, hna3⟩ := addB3_frame f s' applId (startNlc f s' b3 (parm bps 3)) (parm bps 5)
  generalize addB3 f s' applId (startNlc f s' b3 (parm bps 3)) (parm bps 5) = r3 at hb hinfo3 hr3 hda3 hna3
  obtain ⟨dlc, info⟩ := r
  obtain ⟨s3, nlc, info3⟩ := r3
  dsimp only at *
  have hfits : FaxFits f s'.p s'.fax applId s'.p.b3Prot (parm bps 5) ↔ FaxFits f s.p s.fax applId b3 (parm bps 5) := by
    rw [hfax, hb3]
    exact faxFits_congr (by rw [hp]) (by rw [hp])
  rw [hb3] at hinfo3
  rw [hfits] at hb
  rw [← hinfo3] at hkept
  rw [← hinfo, ← hinfo3]
  by_cases hs : info ≠ .success
  · rw [if_pos hs]
    constructor
    · intro hin
      exact ⟨(hreads.1 hin.reads).1, (hreads.1 hin.reads).2, hkept.1 ⟨hin.dlc, fun h' => absurd h' hs⟩, fun h' => absurd h' hs⟩
    · rintro ⟨h2, h3, hfit, -⟩
      exact ⟨hreads.2 ⟨h2, h3⟩, (hkept.2 hfit).1, hn.sound, fun ha => by simp [hda, h.dlcAdded] at ha,
        fun ha => by simp [hna, h.nlcAdded] at ha⟩
  rw [if_neg hs]
  by_cases hs3 : info3 ≠ .success
  · rw [if_pos hs3]
    constructor
    · intro hin
      have hin' := hreads.1 (hr3 ▸ hin.reads)
      exact ⟨hin'.1, hin'.2, hkept.1 ⟨hin.dlc, fun _ h' => absurd h' hs3⟩, fun _ h' => absurd h' hs3⟩
    · rintro ⟨h2, h3, hfit, -⟩
      exact ⟨by rw [hr3]; exact hreads.2 ⟨h2, h3⟩, (hkept.2 hfit).1, hb.1, fun ha => by simp [hda3, hda, h.dlcAdded] at ha,
        fun ha => by simp [hna3, hna, h.nlcAdded] at ha⟩
  rw [if_neg hs3]
  have hsucc := not_not.1 hs
  have hsucc3 := not_not.1 hs3
  constructor
  · intro hin
    have hin' := hreads.1 (hr3 ▸ hin.reads)
    exact ⟨hin'.1, hin'.2, hkept.1 ⟨hin.dlc, fun _ _ => hin.dlcCounts rfl⟩, fun _ _ => (hb.2 hsucc3).1 (hin.nlcCounts rfl)⟩
  · rintro ⟨h2, h3, hfit, hfaxfit⟩
    have hdlc' := hkept.2 hfit
    refine ⟨?_, hdlc'.1, hb.1, fun _ => hdlc'.2 hsucc hsucc3, fun _ => (hb.2 hsucc3).2 (hfaxfit hsucc hsucc3)⟩
    change AllInside s3.reads
    rw [hr3]
    exact hreads.2 ⟨h2, h3⟩

/-- The B protocol after its structure is parsed: the addresses of IP, or two layers of the
    profile that are no modem. -/
def ProtocolFits (f : Features) (p : BChannel) (fax : FaxInfo) (applId : Nat) (bps : List Parm) : Prop :=
  let b1 := (parm bps 0).word 0
  let b2 := (parm bps 1).word 0
  let b3 := (parm bps 2).word 0
  if isIp f p b2 b3 then IpFits bps
  else b2Supported f b2 = true → b3Supported f b3 = true → modemB23 b1 b2 = false → LayersFit f p fax applId bps

theorem addProtocol_bounds (h : Untouched s) (hbps : 3 ≤ bps.length) :
    InBounds (addProtocol f dma s applId max bps).1 ↔ ProtocolFits f s.p s.fax applId bps := by
  have hw : ∀ i, bFormat[i]? = some .w → i < 3 → (parmSource bFormat bps i).size = 2 := fun i hf hi => size_w hf (by omega)
  unfold addProtocol ProtocolFits
  dsimp only
  have hlook := h.look (v := (parmSource bFormat bps 1).fetch 0 2 ++ (parmSource bFormat bps 2).fetch 0 2)
    (by simp [hw 1 rfl, hw 2 rfl])
  rw [show s.p = (s.look ((parmSource bFormat bps 1).fetch 0 2 ++ (parmSource bFormat bps 2).fetch 0 2)).p from rfl,
    show s.fax = (s.look ((parmSource bFormat bps 1).fetch 0 2 ++ (parmSource bFormat bps 2).fetch 0 2)).fax from rfl]
  generalize s.look ((parmSource bFormat bps 1).fetch 0 2 ++ (parmSource bFormat bps 2).fetch 0 2) = s at hlook
  by_cases hip : isIp f s.p ((parm bps 1).word 0) ((parm bps 2).word 0) = true
  · rw [if_pos hip, if_pos hip]
    exact addIp_bounds hlook
  rw [if_neg hip, if_neg hip]
  by_cases h2 : b2Supported f ((parm bps 1).word 0) = false
  · rw [if_pos (by simp [h2])]
    exact iff_of_true hlook.inBounds (fun h' => by simp [h2] at h')
  by_cases h3 : b3Supported f ((parm bps 2).word 0) = false
  · rw [if_neg (by simpa using h2), if_pos (by simp [h3])]
    exact iff_of_true hlook.inBounds (fun _ h' => by simp [h3] at h')
  rw [if_neg (by simpa using h2), if_neg (by simpa using h3)]
  rw [Bool.not_eq_false] at h2 h3
  have hlook' := hlook.look (v := (parmSource bFormat bps 0).fetch 0 2) (by simp [hw 0 rfl])
  by_cases hmodem : modemB23 ((parm bps 0).word 0) ((parm bps 1).word 0) = true
  · rw [if_pos hmodem]
    exact iff_of_true (hlook'.setP _).inBounds (fun _ _ h' => by simp [hmodem] at h')
  · rw [if_neg hmodem, addLayers_bounds hlook']
    rw [Bool.not_eq_true] at hmodem
    exact ⟨fun hfit _ _ _ => hfit, fun hfit => hfit h2 h3 hmodem⟩

theorem parseB_length {bp : Parm} (h : parseB bp = some bps) : 3 ≤ bps.length := by
  unfold parseB at h
  split at h
  · rw [parse_length h]
    decide
  · rw [parse_length h]
    decide

end Protocol

/-- Transparent data on an advanced codec, and everything without one. -/
def CodecAllows (p : BChannel) (bps : List Parm) : Prop :=
  p.tel = .none ∨ (p.tel = .advVoice ∧ (parm bps 1).word 0 = b2Transparent ∧ (parm bps 2).word 0 = b3Transparent)

theorem protocolFits_congr {f : Features} {p p' : BChannel} {fax : FaxInfo} {applId : Nat} {bps : List Parm}
    (hb1 : p.b1Options = p'.b1Options) (hdir : p.callDir = p'.callDir) (h : p.requestedOptions = p'.requestedOptions)
    (hconn : p.requestedOptionsConn = p'.requestedOptionsConn) :
    ProtocolFits f p fax applId bps ↔ ProtocolFits f p' fax applId bps := by
  unfold ProtocolFits LayersFit isIp privateOrLine layer2
  simp only [hb1, hdir, faxFits_congr h hconn]

theorem codecB23_cases (p : BChannel) (bps : List Parm) : (codecB23 p bps = none ∧ ¬ CodecAllows p bps) ∨
    ∃ advNl, codecB23 p bps = some { p with advNl } ∧ CodecAllows p bps := by
  obtain ⟨tel, callDir, b1Resource, b1Options, b2Prot, b3Prot, options, optionsConn, advNl, rxDma⟩ := p
  unfold codecB23 CodecAllows
  cases tel with
  | none => exact .inr ⟨advNl, rfl, .inl rfl⟩
  | advVoice =>
    by_cases hbad : (parm bps 1).word 0 ≠ b2Transparent ∨ (parm bps 2).word 0 ≠ b3Transparent
    · refine .inl ⟨if_pos hbad, ?_⟩
      rintro (h | ⟨-, h1, h2⟩)
      · cases h
      · rcases hbad with h | h
        · exact h h1
        · exact h h2
    · exact .inr ⟨true, if_neg hbad, .inr ⟨rfl, by omega, by omega⟩⟩
  | codec => exact .inl ⟨rfl, by rintro (h | ⟨h, -⟩) <;> cases h⟩
  | codecPermanent => exact .inl ⟨rfl, by rintro (h | ⟨h, -⟩) <;> cases h⟩

theorem takeDma_eq (f : Features) (dma : Int) (p : BChannel) :
    ∃ rxDmaDescriptor, takeDma f dma p = { p with rxDmaDescriptor } := by
  unfold takeDma
  split
  · exact ⟨_, rfl⟩
  · exact ⟨p.rxDmaDescriptor, rfl⟩

/-- The configurations fit, if the structure that was parsed is allowed. -/
def ParsedFits (f : Features) (p : BChannel) (fax : FaxInfo) (applId : Nat) (bps : List Parm) : Prop :=
  CodecAllows p bps → ∀ callDir, globalConfig (parm bps 6) p.callDir = some callDir →
    ProtocolFits f { p with callDir } fax applId bps

theorem global_inside {c : Parm} {dir callDir : Nat} (h : globalConfig c dir = some callDir) (h0 : c.length ≠ 0) :
    AllInside ((parmSource [.w] (parsed c [.w]) 0).fetch 0 2).accesses := by
  unfold globalConfig at h
  rw [if_neg h0] at h
  obtain ⟨ps, hps, -⟩ := Option.map_eq_some_iff.1 h
  have hsize : (parmSource [.w] ps 0).size = 2 := size_w rfl (by rw [parse_length hps]; decide)
  simp [parsed, hps, hsize]

theorem addParsed_bounds {f : Features} {dma : Int} {s : B23} {applId max : Nat} {bps : List Parm} (h : Untouched s)
    (hbps : 3 ≤ bps.length) : InBounds (addParsed f dma s applId max bps).1 ↔ ParsedFits f s.p s.fax applId bps := by
  have hw : ∀ i, bFormat[i]? = some .w → i < 3 → (parmSource bFormat bps i).size = 2 := fun i hf hi => size_w hf (by omega)
  have hcodec : ∃ s', Untouched s' ∧ s'.p = s.p ∧ s'.fax = s.fax ∧ (if s.p.tel = .advVoice then
      s.look ((parmSource bFormat bps 1).fetch 0 2 ++ (parmSource bFormat bps 2).fetch 0 2) else s) = s' := by
    split
    · exact ⟨_, h.look (by simp [hw 1 rfl, hw 2 rfl]), rfl, rfl, rfl⟩
    · exact ⟨_, h, rfl, rfl, rfl⟩
  obtain ⟨s', hs, hp, hfax, heq⟩ := hcodec
  unfold addParsed ParsedFits
  dsimp only
  rw [heq, hp]
  obtain ⟨hnone, hbad⟩ | ⟨advNl, hsome, hok⟩ := codecB23_cases s.p bps
  · rw [hnone]
    exact iff_of_true hs.inBounds (fun h' => absurd h' hbad)
  rw [hsome]
  dsimp only
  cases hglobal : globalConfig (parm bps 6) s.p.callDir with
  | none => exact iff_of_true (hs.setP _).inBounds (fun _ _ h' => by cases h')
  | some callDir =>
    have hset := hs.setP { s.p with advNl, callDir }
    have hprotocol : ∀ s'', Untouched s'' → s''.p = { s.p with advNl, callDir } → s''.fax = s.fax →
        (InBounds (addProtocol f dma s'' applId max bps).1 ↔ ProtocolFits f { s.p with callDir } s.fax applId bps) := by
      intro s'' hs'' hp'' hfax''
      rw [addProtocol_bounds hs'' hbps, hp'', hfax'']
      exact protocolFits_congr rfl rfl rfl rfl
    have hfits : (CodecAllows s.p bps → ∀ d, some callDir = some d →
        ProtocolFits f { s.p with callDir := d } s.fax applId bps) ↔ ProtocolFits f { s.p with callDir } s.fax applId bps :=
      ⟨fun hall => hall hok callDir rfl, fun hfit _ d hd => by cases hd; exact hfit⟩
    rw [hfits]
    dsimp only
    by_cases h0 : (parm bps 6).length ≠ 0
    · rw [if_pos h0]
      exact hprotocol _ (hset.look (global_inside hglobal h0)) rfl hfax
    · rw [if_neg h0]
      exact hprotocol _ hset rfl hfax

/-- The B protocol has configurations that fit, if its structure is parsed and allowed. -/
def Fits (f : Features) (p : BChannel) (fax : FaxInfo) (applId : Nat) (bp : Parm) : Prop :=
  bp.length ≠ 0 → bp.length ≤ 256 → ∀ bps, parseB bp = some bps → ParsedFits f p fax applId bps

/-- For every B protocol, and whatever the PLCI and the arrays hold from before. -/
theorem addB23Octets_inBounds (f : Features) (dma : Int) (p : BChannel) (fax : FaxInfo) (applId max : Nat)
    (dlc nlc : Mem) (bp : Parm) :
    InBounds (addB23Octets f dma p fax applId max dlc nlc bp).1 ↔ Fits f p fax applId bp := by
  have hstart : Untouched (B23.start (takeDma f dma p) fax dlc nlc) := ⟨allInside_nil, ⟨rfl, rfl⟩, ⟨rfl, rfl⟩, rfl, rfl⟩
  unfold addB23Octets Fits
  dsimp only
  by_cases h0 : bp.length = 0
  · rw [if_pos h0]
    exact iff_of_true (addNoProtocol_bounds hstart) (fun h' => absurd h0 h')
  rw [if_neg h0]
  by_cases h256 : 256 < bp.length
  · rw [if_pos h256]
    exact iff_of_true hstart.inBounds (fun _ h' => by omega)
  rw [if_neg h256]
  cases hparse : parseB bp with
  | none => exact iff_of_true hstart.inBounds (fun _ _ _ h' => by cases h')
  | some bps =>
    obtain ⟨rxDma, hdma⟩ := takeDma_eq f dma p
    -- the descriptor decides nothing
    have hfits : ParsedFits f (takeDma f dma p) fax applId bps ↔ ParsedFits f p fax applId bps := by
      rw [hdma]
      unfold ParsedFits
      refine forall_congr' fun _ => forall_congr' fun callDir => forall_congr' fun _ => ?_
      exact protocolFits_congr rfl rfl rfl rfl
    refine (addParsed_bounds hstart (parseB_length hparse)).trans (hfits.trans ?_)
    exact ⟨fun hfit _ _ bps' h' => by cases h'; exact hfit, fun hfit => hfit h0 (by omega) bps rfl⟩

/-! ## The decisions -/

section Decisions

variable {f : Features} {dma : Int} {s : B23} {applId max : Nat} {bps : List Parm}

/-- What the octets leave of the result of `add_b23`. -/
def result (r : B23 × Info) : BChannel × Info := (r.1.p, r.2)

theorem addB3_alike (f : Features) (s : B23) (applId : Nat) (n : Param) (c : Parm) : Alike (addB3 f s applId n c).1.p s.p := by
  unfold addB3 addFax faxOptions
  split
  · dsimp only
    split
    · exact .refl _
    · split
      · split
        · split
          · exact ⟨rfl, rfl, rfl, rfl, rfl⟩
          · exact ⟨rfl, rfl, rfl, rfl, rfl⟩
        · split
          · exact ⟨rfl, rfl, rfl, rfl, rfl⟩
          · exact .refl _
      · exact .refl _
  · exact .refl _

/-- The error of layer 2, or else that of layer 3. -/
def layersInfo (p : BChannel) (bps : List Parm) : Info :=
  let b3 := (parm bps 2).word 0
  let e := b2Config (layer2 p ((parm bps 1).word 0)) b3 (parm bps 4)
  if e = .success then b3Config b3 (parm bps 5) else e

theorem addB23Profile_layers {p : BChannel} (h2 : b2Supported f ((parm bps 1).word 0) = true)
    (h3 : b3Supported f ((parm bps 2).word 0) = true) (hmodem : modemB23 ((parm bps 0).word 0) ((parm bps 1).word 0) = false) :
    addB23Profile f dma p applId bps =
      ({ p with b2Prot := (parm bps 1).word 0, b3Prot := (parm bps 2).word 0 }, layersInfo p bps) := by
  unfold addB23Profile layersInfo
  simp only [h2, h3, hmodem]
  have hl : layer2 { p with b2Prot := (parm bps 1).word 0, b3Prot := (parm bps 2).word 0 } ((parm bps 1).word 0) =
      layer2 p ((parm bps 1).word 0) := rfl
  rw [hl]
  cases b2Config (layer2 p ((parm bps 1).word 0)) ((parm bps 2).word 0) (parm bps 4) with
  | success => rfl
  | _ => rfl

theorem addLayers_result : SameResult (result (addLayers f s applId max bps))
    ({ s.p with b2Prot := (parm bps 1).word 0, b3Prot := (parm bps 2).word 0 }, layersInfo s.p bps) := by
  unfold addLayers result layersInfo
  dsimp only
  generalize (parm bps 0).word 0 = b1
  generalize (parm bps 1).word 0 = b2
  generalize (parm bps 2).word 0 = b3
  obtain ⟨hp, -⟩ := startLayers_fields s b2 b3
  have hl : layer2 (startLayers s b2 b3).p b2 = layer2 s.p b2 := by
    rw [hp]
    rfl
  rw [addB2_info, hl]
  by_cases h2 : b2Config (layer2 s.p b2) b3 (parm bps 4) = .success
  · rw [if_neg (not_not_intro h2), if_pos h2, addB3_info, hp]
    have hb3 := addB3_alike f (startLayers s b2 b3) applId (startNlc f (startLayers s b2 b3) b3 (parm bps 3)) (parm bps 5)
    rw [hp] at hb3
    by_cases h3 : b3Config b3 (parm bps 5) = .success
    · rw [if_neg (not_not_intro h3)]
      exact ⟨hb3, h3.symm⟩
    · rw [if_pos h3]
      exact ⟨hb3, rfl⟩
  · rw [if_pos h2, if_neg h2]
    exact ⟨by rw [hp]; exact .refl _, rfl⟩

theorem B23.look_p {v : Fetched} : (s.look v).p = s.p := rfl

theorem addProtocol_result : SameResult (result (addProtocol f dma s applId max bps)) (addB23Protocol f dma s.p applId bps) := by
  have hip : (isIp f s.p ((parm bps 1).word 0) ((parm bps 2).word 0) = true ∧ addB23Protocol f dma s.p applId bps =
        ({ s.p with b2Prot := (parm bps 1).word 0, b3Prot := (parm bps 2).word 0 }, .success)) ∨
      (isIp f s.p ((parm bps 1).word 0) ((parm bps 2).word 0) = false ∧
        addB23Protocol f dma s.p applId bps = addB23Profile f dma s.p applId bps) := by
    unfold addB23Protocol
    dsimp only
    split
    · rename_i hrtp
      exact .inl ⟨by simp [isIp, hrtp], rfl⟩
    split
    · rename_i ht38
      exact .inl ⟨by simp [isIp, ht38], rfl⟩
    · rename_i hrtp ht38
      refine .inr ⟨?_, rfl⟩
      simp only [isIp]
      simp
      grind
  unfold addProtocol
  dsimp only
  rw [B23.look_p]
  obtain ⟨hip, hresult⟩ | ⟨hip, hresult⟩ := hip
  · rw [if_pos hip, hresult]
    exact ⟨.refl _, rfl⟩
  rw [if_neg (by simp [hip]), hresult]
  by_cases h2 : b2Supported f ((parm bps 1).word 0) = false
  · rw [if_pos (by simp [h2])]
    unfold addB23Profile
    rw [if_pos (by simp [h2])]
    exact ⟨.refl _, rfl⟩
  by_cases h3 : b3Supported f ((parm bps 2).word 0) = false
  · rw [if_neg (by simpa using h2), if_pos (by simp [h3])]
    unfold addB23Profile
    rw [if_neg (by simpa using h2), if_pos (by simp [h3])]
    exact ⟨.refl _, rfl⟩
  rw [if_neg (by simpa using h2), if_neg (by simpa using h3)]
  by_cases hmodem : modemB23 ((parm bps 0).word 0) ((parm bps 1).word 0) = true
  · rw [if_pos hmodem]
    unfold addB23Profile
    rw [if_neg (by simpa using h2), if_neg (by simpa using h3), if_pos hmodem]
    exact ⟨.refl _, rfl⟩
  · rw [Bool.not_eq_false] at h2 h3
    rw [if_neg hmodem, addB23Profile_layers h2 h3 (by simpa using hmodem)]
    exact addLayers_result

/-- The octets change nothing of the answer, and of the channel what `Alike` leaves open. -/
theorem addB23Octets_result (f : Features) (dma : Int) (p : BChannel) (fax : FaxInfo) (applId max : Nat)
    (dlc nlc : Mem) (bp : Parm) :
    SameResult (result (addB23Octets f dma p fax applId max dlc nlc bp)) (addB23 f dma p applId bp) := by
  have hp : (B23.start (takeDma f dma p) fax dlc nlc).p = takeDma f dma p := rfl
  unfold addB23Octets addB23
  dsimp only
  generalize B23.start (takeDma f dma p) fax dlc nlc = s at hp
  rw [← hp]
  by_cases h0 : bp.length = 0
  · rw [if_pos h0, if_pos h0]
    unfold addNoProtocol result
    dsimp only
    split
    · exact ⟨.refl _, rfl⟩
    · exact ⟨.refl _, rfl⟩
  rw [if_neg h0, if_neg h0]
  split
  · exact ⟨.refl _, rfl⟩
  cases parseB bp with
  | none => exact ⟨.refl _, rfl⟩
  | some bps =>
    unfold addParsed
    dsimp only
    have hcodec : ∀ v, (if s.p.tel = .advVoice then s.look v else s).p = s.p := by
      intro v
      split
      · rfl
      · rfl
    rw [hcodec]
    cases codecB23 s.p bps with
    | none => exact ⟨by rw [result, hcodec]; exact .refl _, rfl⟩
    | some q =>
      dsimp only
      cases globalConfig (parm bps 6) q.callDir with
      | none => exact ⟨.refl _, rfl⟩
      | some callDir =>
        dsimp only
        split
        · exact addProtocol_result
        · exact addProtocol_result

end Decisions

/-! ## The bounds -/

/-- X.75 with an XID of one octet. -/
def xidProtocol : Parm := ⟨fun i => [15, 0, 0, 0, 0, 0, 0, 0, 6, 3, 1, 8, 7, 1, 0xaa, 0].getD i 0, 15⟩

end Divas.Capi
