/-
  Divas.Capi.B23Layer2 — the octets of DLC stay in their array.

  Each protocol starts with a length and the two octets that it counts, and leaves DLC with
  octets that its length counts, as long as its configuration is one that the code has
  thought of (`B2Fits`): not a PIAFS configuration with control abilities, an XID for X.75
  or SDLC, a list for the listener that is too long, or a V.120 configuration that is too
  short.
-/

import Divas.Capi.B23Octets

namespace Divas.Capi

open Divas.Lib.Bytes Divas.Lib.Octets

/-! ## Parsed parameters -/

section Parsed

variable {c : Parm} {format : List ParseFmt} {ps : List Parm} {i : Nat}

theorem apiParseFrom_entries {msg : Mem} {length p : Nat} {format : List ParseFmt} {parms : List ApiParse}
    (h : apiParseFrom msg length p format = some parms) : parms.length = format.length := by
  induction format generalizing p parms with
  | nil =>
    cases h
    rfl
  | cons f fs ih =>
    simp only [apiParseFrom] at h
    split at h
    · cases h
    · split at h
      · cases h
      · obtain ⟨rest, hrest, rfl⟩ := Option.map_eq_some_iff.1 h
        simp [ih hrest]

theorem parse_length (h : c.parse format = some ps) : ps.length = format.length := by
  obtain ⟨parms, hparms, rfl⟩ := Option.map_eq_some_iff.1 h
  rw [List.length_map]
  exact apiParseFrom_entries hparms

theorem parsed_length (h : c.malformed format = false) : (parsed c format).length = format.length := by
  unfold parsed
  cases hparse : c.parse format with
  | none => simp [Parm.malformed, hparse] at h
  | some ps => exact parse_length hparse

theorem size_b (hf : format[i]? = some .b) (hi : i < ps.length) : (parmSource format ps i).size = 1 := by
  simp [parmSource, hf, hi]

theorem size_w (hf : format[i]? = some .w) (hi : i < ps.length) : (parmSource format ps i).size = 2 := by
  simp [parmSource, hf, hi]

theorem size_s (hf : format[i]? = some .s) (hi : i < ps.length) : (parmSource format ps i).size = (parm ps i).length + 1 := by
  simp [parmSource, hf, hi, parm, Parm.struct]

theorem size_none (hf : format[i]? = none) : (parmSource format ps i).size = 0 := by
  simp [parmSource, hf]

@[simp] theorem size_struct : c.struct.size = c.length + 1 := rfl

theorem malformed_piafs : c.malformed piafsFormat = true ↔ c.length < 7 := by
  simp only [Parm.malformed, Parm.parse, apiParse, piafsFormat, apiParseFrom, apiParseOne]
  simp
  grind

theorem malformed_b : c.malformed [.b] = true ↔ c.length = 0 := by
  simp only [Parm.malformed, Parm.parse, apiParse, apiParseFrom, apiParseOne]
  simp

theorem length_v42bis (h : c.malformed v42bisFormat = false) : 10 ≤ c.length := by
  simp only [Parm.malformed, Parm.parse, apiParse, v42bisFormat, apiParseFrom, apiParseOne] at h
  simp at h
  grind

theorem length_b2Format (h : c.malformed b2Format = false) : 5 ≤ c.length := by
  simp only [Parm.malformed, Parm.parse, apiParse, b2Format, apiParseFrom, apiParseOne] at h
  have := (from_ c.info 1 4).toNat_lt
  simp at h
  grind

theorem length_listener (h : c.malformed listenerFormat = false) : 5 ≤ c.length := by
  simp only [Parm.malformed, Parm.parse, apiParse, listenerFormat, apiParseFrom, apiParseOne] at h
  have := (from_ c.info 1 4).toNat_lt
  simp at h
  grind

end Parsed

/-! ## What a protocol keeps -/

/-- DLC is sound, and its length counts it where both configurations are accepted. -/
def DlcKept (accepted : Prop) (r : Param × Info) : Prop :=
  r.1.Sound 64 ∧ (r.2 = .success → accepted → r.1.array.Counts)

section Layer2

variable {d : Param} {accepted : Prop} {max l2 b1 b2 b3 : Nat} {c : Parm}

theorem DlcKept.of_covers {info : Info} {len : Nat} (h : d.Covers 64 len len) : DlcKept accepted (d, info) :=
  ⟨h.sound, fun _ _ => h.counts⟩

/-- An error counts nothing. -/
theorem DlcKept.of_error {info : Info} (h : d.Sound 64) (hinfo : info ≠ .success) : DlcKept accepted (d, info) :=
  ⟨h, fun hs => absurd hs hinfo⟩

theorem putWord_covers {len n w : Nat} (h : d.Covers 64 len n) (hn : 2 ≤ n) (hsize : n < 64) : (putWord d w).Covers 64 len n :=
  h.put (by simp) (by decide) (by omega) (by simp; omega) hsize

/-- The word, and addresses, mode and window of zero. -/
theorem zeroAddress_covers (h : d.Covers 64 2 2) (w : Nat) :
    ((putWord d w).put 3 (Fetched.literal [0, 0, 0, 0])).Covers 64 2 6 :=
  (putWord_covers h (by decide) (by decide)).put (by simp) (by decide) (by decide) (by simp) (by decide)

theorem putV42bis_covers {n : Nat} (h : d.Covers 64 n 6) (hm : c.malformed v42bisFormat = false) :
    (putV42bis d c).Covers 64 14 14 := by
  have hlen := parsed_length hm
  unfold putV42bis
  rw [if_pos (length_v42bis hm)]
  generalize parsed c v42bisFormat = ps at hlen
  have hw : ∀ i, v42bisFormat[i]? = some .w → i < 7 → (parmSource v42bisFormat ps i).size = 2 :=
    fun i hf hi => size_w hf (by rw [hlen]; exact hi)
  refine Param.Covers.setLength (n := 14) (h.put ?_ (by decide) (by decide) (by simp) (by decide)) (by decide) (by decide)
  simp [hw 4 rfl, hw 5 rfl, hw 6 rfl]

theorem appendOption_covers {n i : Nat} (h : d.Covers 64 n n) (hn : 6 ≤ n) (hlt : n < 63) :
    ∃ m, n < m ∧ m ≤ n + 3 ∧ (appendOption d i).Covers 64 m m := by
  unfold appendOption
  rw [h.length]
  by_cases h8 : n < 8
  · refine ⟨9, by omega, by omega, ?_⟩
    rw [if_pos h8]
    have hpad : ((d.setLength 8).put 7 (Fetched.literal [0, 0])).Covers 64 8 8 :=
      (h.setLength (by decide) (by decide)).put (by simp) (by decide) (by omega) (by simp; omega) (by decide)
    exact hpad.append (by simp) (by simp) (by decide) (by decide)
  · refine ⟨n + 1, by omega, by omega, ?_⟩
    rw [if_neg h8]
    exact h.append (by simp) (by simp) (by omega) (by decide)

theorem sound_of_appendOption {i : Nat} (h : (appendOption d i).Sound 64) : d.Sound 64 := by
  have hpadded := Param.Sound.of_append h
  split at hpadded
  · rw [Param.sound_put, Param.sound_setLength _ _ (by decide)] at hpadded
    exact hpadded.2.2
  · exact hpadded

theorem reads_appendOption (i : Nat) : (appendOption d i).reads = d.reads := by
  unfold appendOption
  split
  · rfl
  · rfl

/-! ### The protocols without a variable part -/

theorem addPiafs_kept (h : d.Covers 64 2 2) : DlcKept accepted (addPiafs d max b3 c) ↔ (b3 = b3Transparent → c.length < 8) := by
  unfold addPiafs
  by_cases h3 : b3 ≠ b3Transparent
  · rw [if_pos h3]
    exact iff_of_true (.of_covers h) (fun h' => absurd h' h3)
  rw [if_neg h3]
  by_cases hbad : c.length ≠ 0 ∧ c.malformed piafsFormat = true
  · rw [if_pos hbad]
    have := malformed_piafs.1 hbad.2
    exact iff_of_true (.of_covers h) (fun _ => by omega)
  rw [if_neg hbad]
  have hstart := zeroAddress_covers h max
  dsimp only
  by_cases h7 : ¬ 7 ≤ c.length
  · rw [if_neg h7]
    have hdefault := (hstart.put (v := .literal [7, 0, 3, 3, 0, 0, 0, 0, 0]) (by simp) (show 7 ≠ 0 by decide) (by decide)
      (show _ = 15 + 1 by simp) (by decide)).setLength (m := 15) (by decide) (by decide)
    exact iff_of_true (.of_covers hdefault) (fun _ => by omega)
  have hm : c.malformed piafsFormat = false := by
    rw [← Bool.not_eq_true, malformed_piafs]
    omega
  have hlen := parsed_length hm
  rw [if_pos (not_not.1 h7)]
  generalize parsed c piafsFormat = ps at hlen
  have hb : (parmSource piafsFormat ps 0).size = 1 := size_b rfl (by rw [hlen]; decide)
  have hw : ∀ i, piafsFormat[i]? = some .w → i < 4 → (parmSource piafsFormat ps i).size = 2 :=
    fun i hf hi => size_w hf (by rw [hlen]; exact hi)
  have hnone : (parmSource piafsFormat ps 4).size = 0 := size_none rfl
  have hall :=
    (hstart.put (v := .literal [7, 0] ++ (parmSource piafsFormat ps 0).fetch 0 1 ++ (parmSource piafsFormat ps 1).fetch 0 2
    ++ (parmSource piafsFormat ps 2).fetch 0 2 ++ (parmSource piafsFormat ps 3).fetch 0 2)
    (by simp [hb, hw 1 rfl, hw 2 rfl, hw 3 rfl]) (show 7 ≠ 0 by decide) (by decide) (show _ = 15 + 1 by simp)
    (by decide)).setLength (m := 15) (by decide) (by decide)
  by_cases h8 : 8 ≤ c.length
  · -- the last octet comes from nowhere
    rw [if_pos h8]
    refine iff_of_false ?_ (fun hlt => by have := hlt (not_not.1 h3); omega)
    rintro ⟨hsound, -⟩
    rw [Param.sound_setLength _ _ (by decide), Param.sound_put] at hsound
    simp [hnone] at hsound
  · rw [if_neg h8]
    exact iff_of_true (.of_covers hall) (fun _ => by omega)

theorem addMtp2_kept (h : d.Covers 64 2 2) : DlcKept accepted (addMtp2 d max b3 c) := by
  unfold addMtp2
  by_cases h3 : b3 ≠ b3Transparent
  · rw [if_pos h3]
    exact .of_covers h
  rw [if_neg h3]
  by_cases hbad : c.length ≠ 0 ∧ c.malformed [.b] = true
  · rw [if_pos hbad]
    exact .of_covers h
  rw [if_neg hbad]
  have hstart := zeroAddress_covers h max
  dsimp only
  by_cases h0 : ¬ c.length ≠ 0
  · rw [if_neg h0]
    exact .of_covers (hstart.setLength (by decide) (by decide))
  rw [if_pos (not_not.1 h0)]
  by_cases h1 : c.length ≠ 1
  · rw [if_pos h1]
    exact .of_error hstart.sound (by decide)
  rw [if_neg h1]
  have hm : c.malformed [.b] = false := by
    rw [← Bool.not_eq_true, malformed_b]
    exact not_not.1 h0
  have hb : (parmSource [.b] (parsed c [.b]) 0).size = 1 := size_b rfl (by rw [parsed_length hm]; decide)
  exact .of_covers (Param.Covers.setLength (n := 9) (hstart.put (by simp [hb]) (by decide) (by decide) (by simp) (by decide))
    (by decide) (by decide))

theorem addLapd_kept (h : d.Covers 64 2 2) (hc : 5 ≤ c.length) : DlcKept accepted (addLapd d b2 c) := by
  unfold addLapd
  simp only [if_pos (show 1 ≤ c.length by omega), if_pos (show 3 ≤ c.length by omega), if_pos (show 4 ≤ c.length by omega)]
  have h1 := (h.setLength (m := 4) (by decide) (by decide)).put (v := c.struct.fetch 1 1) (by simp; omega) (show 2 ≠ 0 by decide)
    (by decide) (show _ = 2 + 1 by simp) (by decide)
  have h2 := h1.put (v := if 2 ≤ c.length ∧ b2 = 12 then c.struct.fetch 2 1 else Fetched.literal [if b2 = 12 then 0 else 0x40])
    (by split <;> simp; omega) (show 1 ≠ 0 by decide) (by decide) (show _ = 2 + 1 by split <;> simp) (by decide)
  have h3 := (h2.look (v := c.struct.fetch 3 1) (by simp; omega)).put
    (v := Fetched.literal [if 3 ≤ c.length ∧ c.byte 3 = 128 then 127 else 7]) (by simp) (show 3 ≠ 0 by decide) (by decide)
    (show _ = 3 + 1 by simp) (by decide)
  have h4 := h3.put (v := c.struct.fetch 4 1) (by simp; omega) (show 4 ≠ 0 by decide) (by decide) (show _ = 4 + 1 by simp)
    (by decide)
  split
  · exact .of_covers h4
  · exact .of_covers h4

/-! ### V.120 -/

/-- The header octets of V.120 are read without asking for the length, unless V.42bis is on
    top of it. -/
def V120Fits (l2 b3 : Nat) (c : Parm) : Prop :=
  b3 = b3Transparent → l2 ≠ v120V42bis →
    c.length = 0 ∨ (3 ≤ c.length ∧ (c.byte 3 &&& maskModulus = 0x80 → 4 ≤ c.length))

/-- The defaults of V.120. -/
theorem v120Default_covers (h : d.Covers 64 2 2) (w : Nat) :
    ((putWord (d.setLength 6) w).put 3 (Fetched.literal [0x08, 0x01, 127, 7])).Covers 64 6 6 :=
  (putWord_covers (h.setLength (by decide) (by decide)) (by decide) (by decide)).put (by simp) (by decide) (by decide) (by simp)
    (by decide)

/-- The addresses of a configuration that has its modulus, too. -/
theorem v120Address_covers (h : d.Covers 64 2 2) (hc : 3 ≤ c.length) (w : Nat) (addrA addrB : UInt8) :
    ((((putWord (d.setLength 6) w).put 3 (Fetched.literal [0x08, 0x01, 127, 7])).look (c.struct.fetch 1 3)).put 3
      (Fetched.literal [addrA, addrB])).Covers 64 6 6 :=
  ((v120Default_covers h w).look (by simp; omega)).put (by simp) (by decide) (by decide) (by simp) (by decide)

/-- DLC of V.120 before its options. -/
theorem v120_covers (w : Nat) (addrA addrB modulus : UInt8) (h : d.Covers 64 2 2) (hc : 4 ≤ c.length)
    (hm : l2 = v120V42bis → c.malformed v42bisFormat = false) :
    ∃ n, 6 ≤ n ∧ n < 63 ∧
      (let s := (putWord (d.setLength 6) w).put 3 (Fetched.literal [0x08, 0x01, 127, 7])
       let s := (s.look (c.struct.fetch 1 3)).put 3 (Fetched.literal [addrA, addrB])
       let s := s.put 5 (Fetched.literal [modulus] ++ c.struct.fetch 4 1)
       if l2 = v120V42bis then putV42bis s c else s).Covers 64 n n := by
  have haddr := v120Address_covers (c := c) h (by omega) w addrA addrB
  have hwindow := haddr.put (v := .literal [modulus] ++ c.struct.fetch 4 1) (by simp; omega)
    (show 5 ≠ 0 by decide) (by decide) (show _ = 6 + 1 by simp) (by decide)
  dsimp only
  by_cases hv : l2 = v120V42bis
  · rw [if_pos hv]
    exact ⟨14, by decide, by decide, putV42bis_covers hwindow (hm hv)⟩
  · rw [if_neg hv]
    exact ⟨6, by decide, by decide, hwindow⟩

theorem addV120_kept (h : d.Covers 64 2 2) : DlcKept accepted (addV120 d l2 b3 c) ↔ V120Fits l2 b3 c := by
  unfold addV120 V120Fits
  by_cases h3 : b3 ≠ b3Transparent
  · rw [if_pos h3]
    exact iff_of_true (.of_covers h) (fun h' => absurd h' h3)
  rw [if_neg h3]
  dsimp only
  have hdefault := v120Default_covers h (word (d.setLength 6).array.mem 1 + 2)
  by_cases h0 : c.length = 0
  · rw [if_pos h0]
    exact iff_of_true (.of_covers hdefault) (fun _ _ => .inl h0)
  rw [if_neg h0]
  by_cases hbad : l2 = v120V42bis ∧ c.malformed v42bisFormat = true
  · rw [if_pos hbad]
    exact iff_of_true (.of_covers hdefault) (fun _ h' => absurd hbad.1 h')
  rw [if_neg hbad]
  have hm : l2 = v120V42bis → c.malformed v42bisFormat = false := by
    intro hv
    rw [← Bool.not_eq_true]
    exact fun hm => hbad ⟨hv, hm⟩
  by_cases hlong : 4 ≤ c.length
  · refine iff_of_true ?_ (fun _ _ => .inr ⟨by omega, fun _ => hlong⟩)
    split
    · exact .of_covers (v120Address_covers h (by omega) _ _ _)
    · obtain ⟨n, hn, hlt, hcovers⟩ := v120_covers (word (d.setLength 6).array.mem 1 + 2)
        (octet (c.byte 2 <<< 3 ||| (c.byte 1 >>> 5 &&& 0x04))) (octet (c.byte 1 <<< 1 ||| 0x01))
        (octet ((c.byte 3 &&& maskModulus) - 1)) h hlong hm
      split
      · obtain ⟨m, -, -, hoption⟩ := appendOption_covers (i := c.byte 3 &&& 0x77) hcovers hn hlt
        exact .of_covers hoption
      · exact .of_covers hcovers
  · have hv : l2 ≠ v120V42bis := by
      intro hv
      have := length_v42bis (hm hv)
      omega
    rw [if_neg hv]
    by_cases hmod : c.byte 3 &&& maskModulus ≠ 0x80
    · rw [if_pos hmod]
      by_cases h3 : 3 ≤ c.length
      · exact iff_of_true (.of_covers (v120Address_covers h h3 _ _ _)) (fun _ _ => .inr ⟨h3, fun h' => absurd h' hmod⟩)
      · refine iff_of_false ?_ (fun hfits => by have := hfits (not_not.1 ‹¬ b3 ≠ b3Transparent›) hv; omega)
        rintro ⟨hsound, -⟩
        simp [Param.sound_put, Param.sound_look] at hsound
        omega
    · rw [if_neg hmod]
      refine iff_of_false ?_ (fun hfits => by have := hfits (not_not.1 h3) hv; omega)
      -- the window is read behind the configuration, and options do not change that
      rintro ⟨hsound, -⟩
      have hwindow : AllInside (Fetched.literal [octet ((c.byte 3 &&& maskModulus) - 1)] ++ c.struct.fetch 4 1).accesses := by
        intro a ha
        apply hsound.1
        split
        · rw [reads_appendOption]
          exact List.mem_append_left _ ha
        · exact List.mem_append_left _ ha
      simp at hwindow
      omega

/-! ### The listener -/

/-- The list has a place in DLC. -/
def ListFits (c : Parm) : Prop := (parm (parsed c listenerFormat) 2).length < 52

theorem addListener_kept (h : d.Covers 64 2 2) :
    DlcKept accepted (addListener d max c) ↔ (c.malformed listenerFormat = false → ListFits c) := by
  unfold addListener
  have hword := putWord_covers (w := max) h (by decide) (by decide)
  dsimp only
  by_cases hm : c.malformed listenerFormat = true
  · -- without a configuration nothing is parsed, and nothing is read
    refine iff_of_true ?_ (fun hm' => absurd hm (by simp [hm']))
    have hstart := (zeroAddress_covers h max).setLength (m := 6) (by decide) (by decide)
    by_cases h0 : c.length = 0
    · rw [if_neg (fun hbad => hbad.1 h0), if_neg (by omega)]
      exact .of_covers hstart
    · rw [if_pos ⟨h0, hm⟩]
      exact .of_covers hword
  · have hm' : c.malformed listenerFormat = false := by rwa [Bool.not_eq_true] at hm
    have hlen := parsed_length hm'
    rw [if_neg (fun hbad => hm hbad.2), if_pos (length_listener hm')]
    unfold ListFits
    generalize parsed c listenerFormat = ps at hlen
    have hw : ∀ i, listenerFormat[i]? = some .w → i < 3 → (parmSource listenerFormat ps i).size = 2 :=
      fun i hf hi => size_w hf (by rw [hlen]; exact hi)
    have hs : (parmSource listenerFormat ps 2).size = (parm ps 2).length + 1 := size_s rfl (by rw [hlen]; decide)
    have hstart := (zeroAddress_covers h max).setLength (m := 6) (by decide) (by decide)
    generalize (((putWord d max).put 3 (Fetched.literal [0, 0, 0, 0])).setLength 6) = e at hstart
    have hlist : ((e.setLength (e.length + 2)).append ((parmSource listenerFormat ps 0).fetch 0 2 ++
        (parmSource listenerFormat ps 1).fetch 0 2 ++ (parmSource listenerFormat ps 2).fetch 1 (parm ps 2).length)).Sound 64 ↔
        (parm ps 2).length < 52 := by
      rw [Param.sound_append (by simp) (by simp [hstart.length]) (by decide), Param.sound_setLength _ _ (by decide)]
      simp [hstart.sound, hstart.length, hw 0 rfl, hw 1 rfl, hs]
      omega
    constructor
    · rintro ⟨hsound, -⟩ -
      exact hlist.1 ((Param.sound_put _ _ _).1 hsound).2.2
    · intro hfits
      have hlt := hfits hm'
      refine ⟨(Param.sound_put _ _ _).2 ⟨by simp, .inr (by simp), hlist.2 hlt⟩, ?_⟩
      intro _ _ k hk
      have hlength : (e.setLength (e.length + 2)).length = 8 := by simp [hstart.length]
      have hoctets : ((parmSource listenerFormat ps 0).fetch 0 2 ++ (parmSource listenerFormat ps 1).fetch 0 2 ++
          (parmSource listenerFormat ps 2).fetch 1 (parm ps 2).length).octets.length = 4 + (parm ps 2).length := by
        simp
        omega
      change _ ↔ k ≤ Param.length _
      rw [Param.mem_put, Param.mem_append (by omega) (by simp), Param.length_put _ _ _ (by decide),
        Param.length_append (by omega),
        Param.mem_setLength, hstart.written, hlength, hoctets]
      simp
      omega

/-! ### X.75, SDLC and the rest -/

/-- DLC with an XID: the two octets in front of it are missing. -/
structure HasGap (d : Param) (n : Nat) : Prop where
  sound : d.Sound 64
  length : d.length = n
  long : 10 < n
  lt : n < 64
  zero : 0 ∈ d.array.written
  gap : 9 ∉ d.array.written

theorem HasGap.not_counts {n : Nat} (h : HasGap d n) : ¬ d.array.Counts := by
  intro hcounts
  have hlen : d.array.length = n := h.length
  have hlong := h.long
  exact h.gap ((hcounts 9 (by decide)).2 (by omega))

theorem HasGap.appendOption {n : Nat} (h : HasGap d n) (i : Nat) :
    ((appendOption d i).Sound 64 ↔ n + 1 < 64) ∧ (n + 1 < 64 → HasGap (appendOption d i) (n + 1)) := by
  have hlong := h.long
  have hlt := h.lt
  have hlen := h.length
  unfold Divas.Capi.appendOption
  rw [if_neg (by omega)]
  have hsound : (d.append (Fetched.literal [octet i])).Sound 64 ↔ n + 1 < 64 := by
    rw [Param.sound_append h.zero (by omega) (by decide)]
    simp [h.sound, h.length]
  refine ⟨hsound, ?_⟩
  intro hroom
  have hmem : ∀ k, k ∈ (d.append (Fetched.literal [octet i])).array.written ↔
      (n < k ∧ k ≤ n + 1) ∨ k ∈ d.array.written := by
    intro k
    rw [Param.mem_append (by simp; omega) h.zero, h.length]
    simp
  refine ⟨hsound.2 hroom, ?_, by omega, hroom, (hmem 0).2 (.inr h.zero), ?_⟩
  · rw [Param.length_append (by simp; omega), h.length]
    rfl
  · rw [hmem]
    rintro (hk | hk)
    · omega
    · exact h.gap hk

/-- The octets of options that a modem below adds. -/
def optionCount (l2 b1 b2 : Nat) : Nat := (if sdlcOverModem b1 b2 then 1 else 0) + (if x75OverModem l2 b1 then 1 else 0)

theorem putModemOptions_covers (l2 b1 b2 b3 : Nat) (h : d.Covers 64 6 6) :
    ∃ m, (putModemOptions d l2 b1 b2 b3).Covers 64 m m := by
  unfold putModemOptions
  obtain ⟨m, hm, hle, hsdlc⟩ := appendOption_covers (i := sdlcOptions b3) h (by decide) (by decide)
  cases sdlcOverModem b1 b2 with
  | false =>
    cases x75OverModem l2 b1 with
    | false => exact ⟨6, h⟩
    | true =>
      obtain ⟨m, -, -, hx75⟩ := appendOption_covers (i := x75OptionWaitCtsDcdOn) h (by decide) (by decide)
      exact ⟨m, hx75⟩
  | true =>
    cases x75OverModem l2 b1 with
    | false => exact ⟨m, hsdlc⟩
    | true =>
      obtain ⟨m', -, -, hx75⟩ := appendOption_covers (i := x75OptionWaitCtsDcdOn) hsdlc (by omega) (by omega)
      exact ⟨m', hx75⟩

theorem sound_of_putModemOptions (h : (putModemOptions d l2 b1 b2 b3).Sound 64) : d.Sound 64 := by
  unfold putModemOptions at h
  have hsdlc : (if sdlcOverModem b1 b2 then appendOption d (sdlcOptions b3) else d).Sound 64 := by
    dsimp only at h
    split at h
    · exact sound_of_appendOption h
    · exact h
  split at hsdlc
  · exact sound_of_appendOption hsdlc
  · exact hsdlc

theorem HasGap.putModemOptions {n : Nat} (h : HasGap d n) (l2 b1 b2 b3 : Nat) :
    ((putModemOptions d l2 b1 b2 b3).Sound 64 ↔ n + optionCount l2 b1 b2 < 64) ∧
      (n + optionCount l2 b1 b2 < 64 → ¬ (putModemOptions d l2 b1 b2 b3).array.Counts) := by
  unfold Divas.Capi.putModemOptions optionCount
  have hlt := h.lt
  cases sdlcOverModem b1 b2 with
  | false =>
    cases x75OverModem l2 b1 with
    | false => exact ⟨iff_of_true h.sound hlt, fun _ => h.not_counts⟩
    | true =>
      have := h.appendOption x75OptionWaitCtsDcdOn
      exact ⟨this.1, fun hroom => (this.2 hroom).not_counts⟩
  | true =>
    have hsdlc := h.appendOption (sdlcOptions b3)
    cases x75OverModem l2 b1 with
    | false => exact ⟨hsdlc.1, fun hroom => (hsdlc.2 hroom).not_counts⟩
    | true =>
      by_cases hroom : n + 1 < 64
      · have := (hsdlc.2 hroom).appendOption x75OptionWaitCtsDcdOn
        exact ⟨this.1, fun hroom => (this.2 hroom).not_counts⟩
      · refine ⟨iff_of_false ?_ (by simp; omega), fun hroom' => absurd hroom' (by simp; omega)⟩
        intro hsound
        exact hroom (hsdlc.1.1 (sound_of_appendOption hsound))

/-- An XID in the configuration of X.75 or SDLC: none, or one that is not handed over since
    the configuration of layer 3 is refused, and is not too long. -/
def XidFits (accepted : Prop) (l2 b1 b2 : Nat) (c : Parm) : Prop :=
  let xid := (parm (parsed c b2Format) 4).length
  xid = 0 ∨ (¬ accepted ∧ 10 + xid + optionCount l2 b1 b2 < 64)

theorem putXid_kept (h : d.Covers 64 6 6) (hm : c.malformed b2Format = false) :
    DlcKept accepted (putModemOptions (putXid d c) l2 b1 b2 b3, .success) ↔ XidFits accepted l2 b1 b2 c := by
  have hlen := parsed_length hm
  unfold putXid XidFits
  generalize parsed c b2Format = ps at hlen
  have hs : (parmSource b2Format ps 4).size = (parm ps 4).length + 1 := size_s rfl (by rw [hlen]; decide)
  dsimp only
  generalize parmSource b2Format ps 4 = e at hs
  generalize (parm ps 4).length = xid at hs
  by_cases h0 : xid = 0
  · rw [if_neg (not_not_intro h0)]
    obtain ⟨m, hcovers⟩ := putModemOptions_covers l2 b1 b2 b3 h
    exact iff_of_true (.of_covers hcovers) (.inl h0)
  rw [if_pos h0]
  have hsound : (((d.setLength (xid + 10)).put 7 (Fetched.literal (leBytes 2 (xid + 2)))).put 11 (e.fetch 1 xid)).Sound 64 ↔
      10 + xid < 64 := by
    rw [Param.sound_put, Param.sound_put, Param.sound_setLength _ _ (by decide)]
    simp [h.sound, hs, h0]
    omega
  by_cases hshort : 10 + xid < 64
  · have hgap : HasGap (((d.setLength (xid + 10)).put 7 (Fetched.literal (leBytes 2 (xid + 2)))).put 11 (e.fetch 1 xid))
        (10 + xid) := by
      refine ⟨hsound.2 hshort, ?_, by omega, hshort, ?_, ?_⟩
      · simp
        omega
      · simp
      · simp [h.written]
    obtain ⟨hall, hcounts⟩ := hgap.putModemOptions l2 b1 b2 b3
    constructor
    · rintro ⟨hs, hc⟩
      exact .inr ⟨fun ha => hcounts (hall.1 hs) (hc rfl ha), hall.1 hs⟩
    · rintro (h0' | ⟨hna, hroom⟩)
      · exact absurd h0' h0
      · exact ⟨hall.2 hroom, fun _ ha => absurd ha hna⟩
  · refine iff_of_false ?_ (by omega)
    rintro ⟨hall, -⟩
    exact hshort (hsound.1 (sound_of_putModemOptions hall))

/-- Modulus and window of a configuration are accepted. -/
def WindowOk (c : Parm) : Prop := (c.byte 3 = 8 ∨ c.byte 3 = 128) ∧ c.byte 4 ≤ c.byte 3 - 1

theorem addX75_kept (h : d.Covers 64 2 2) (hm : c.malformed (if l2 = x75V42bis then v42bisFormat else b2Format) = false) :
    DlcKept accepted (addX75 d l2 b1 b2 b3 c) ↔ (l2 ≠ x75V42bis → WindowOk c → XidFits accepted l2 b1 b2 c) := by
  have hc : 5 ≤ c.length := by
    split at hm
    · have := length_v42bis hm
      omega
    · exact length_b2Format hm
  unfold addX75 WindowOk
  have haddr :=
    ((h.setLength (m := 6) (by decide) (by decide)).put (v := c.struct.fetch 1 2) (by simp; omega) (show 3 ≠ 0 by decide)
    (by decide) (show _ = 4 + 1 by simp) (by decide)).look (v := c.struct.fetch 3 1) (by simp; omega)
  have hwindow := haddr.put (v := .literal [octet (c.byte 3 - 1)] ++ c.struct.fetch 4 1) (by simp; omega) (show 5 ≠ 0 by decide)
    (by decide) (show _ = 6 + 1 by simp) (by decide)
  dsimp only
  by_cases hmod : c.byte 3 ≠ 8 ∧ c.byte 3 ≠ 128
  · rw [if_pos hmod]
    exact iff_of_true (.of_error haddr.sound (by decide)) (fun _ hok => by omega)
  rw [if_neg hmod]
  by_cases hwin : c.byte 3 - 1 < c.byte 4
  · rw [if_pos hwin]
    exact iff_of_true (.of_covers hwindow) (fun _ hok => by omega)
  rw [if_neg hwin]
  by_cases hv : l2 = x75V42bis
  · rw [if_pos hv] at hm ⊢
    exact iff_of_true (.of_covers (putV42bis_covers hwindow hm)) (fun h' => absurd hv h')
  · rw [if_neg hv] at hm ⊢
    rw [putXid_kept hwindow hm]
    exact ⟨fun hfits _ _ => hfits, fun hfits => hfits hv ⟨by omega, by omega⟩⟩

/-- Eight octets and one option, over at most nine octets. -/
theorem default_covers {n : Nat} (vs : List UInt8) (v : UInt8) (h : d.Covers 64 n n) (hn : 2 ≤ n) (hle : n ≤ 9)
    (hvs : vs.length = 6) :
    (((d.setLength 8).put 3 (Fetched.literal vs)).append (Fetched.literal [v])).Covers 64 9 9 := by
  have hlength : ((d.setLength 8).put 3 (Fetched.literal vs)).length = 8 := by simp
  have h0 : 0 ∈ ((d.setLength 8).put 3 (Fetched.literal vs)).array.written := by simp
  refine ⟨?_, ?_, ?_⟩
  · rw [Param.sound_append h0 (by omega) (by decide), Param.sound_put, Param.sound_setLength _ _ (by decide)]
    simp [h.sound, hvs]
  · rw [Param.length_append (by simp), hlength]
    rfl
  · intro k
    rw [Param.mem_append (by simp) h0, Param.mem_put, Param.mem_setLength, h.written, hlength]
    simp [hvs]
    omega

theorem addDefault_covers (l2 b1 b2 b3 : Nat) (h : d.Covers 64 2 2) : ∃ n, (addDefault d l2 b1 b2 b3).Covers 64 n n := by
  unfold addDefault
  cases sdlcOverModem b1 b2 with
  | false =>
    cases x75OverModem l2 b1 with
    | false => exact ⟨2, h⟩
    | true => exact ⟨9, default_covers _ _ h (by decide) (by decide) rfl⟩
  | true =>
    have hsdlc := default_covers [0xc1, 1, 7, 7, 0, 0] (octet (sdlcOptions b3)) h (by decide) (by decide) rfl
    cases x75OverModem l2 b1 with
    | false => exact ⟨9, hsdlc⟩
    | true => exact ⟨9, default_covers _ _ hsdlc (by decide) (by decide) rfl⟩

/-! ### All protocols -/

/-- The configurations of layer 2 that DLC holds, octet by octet. -/
def B2Fits (accepted : Prop) (l2 b1 b2 b3 : Nat) (c : Parm) : Prop :=
  if l2 = piafsCrc then b3 = b3Transparent → c.length < 8
  else if l2 = mtp2 then True
  else if l2 = listener then c.malformed listenerFormat = false → ListFits c
  else if l2 = v120L2 ∨ l2 = v120V42bis then V120Fits l2 b3 c
  else if l2 = x75V42bis ∨ l2 = lapd then True
  else c.malformed b2Format = false → WindowOk c → XidFits accepted l2 b1 b2 c

theorem addB2_kept (accepted : Prop) (max l2 b1 b2 b3 : Nat) (c : Parm) (h : d.Covers 64 2 2) :
    DlcKept accepted (addB2 d max l2 b1 b2 b3 c) ↔ B2Fits accepted l2 b1 b2 b3 c := by
  unfold addB2 B2Fits
  split
  · exact addPiafs_kept h
  split
  · exact iff_of_true (addMtp2_kept h) trivial
  split
  · exact addListener_kept h
  split
  · exact addV120_kept h
  by_cases h0 : ¬ c.length ≠ 0
  · rw [if_neg h0]
    obtain ⟨n, hcovers⟩ := addDefault_covers l2 b1 b2 b3 h
    refine iff_of_true (.of_covers hcovers) ?_
    split
    · trivial
    · intro hm
      have := length_b2Format hm
      omega
  rw [if_pos (not_not.1 h0)]
  by_cases hm : c.malformed (if l2 = x75V42bis then v42bisFormat else b2Format) = true
  · rw [if_pos hm]
    refine iff_of_true (.of_covers h) ?_
    split
    · trivial
    · rw [if_neg (fun hv => ‹¬ (l2 = x75V42bis ∨ l2 = lapd)› (.inl hv))] at hm
      intro hm'
      simp [hm] at hm'
  rw [if_neg hm]
  rw [Bool.not_eq_true] at hm
  by_cases hlapd : l2 = lapd
  · rw [if_pos hlapd, if_pos (.inr hlapd)]
    rw [if_neg (by rw [hlapd]; decide)] at hm
    exact iff_of_true (addLapd_kept h (length_b2Format hm)) trivial
  rw [if_neg hlapd, addX75_kept h hm]
  by_cases hv : l2 = x75V42bis
  · rw [if_pos (.inl hv)]
    exact iff_of_true (fun h' => absurd hv h') trivial
  · rw [if_neg hv] at hm
    rw [if_neg (by rintro (h' | h'); exacts [hv h', hlapd h'])]
    exact ⟨fun hfits _ => hfits hv, fun hfits _ => hfits hm⟩

/-! ### Errors -/

theorem addPiafs_info : (addPiafs d max b3 c).2 = b2Config piafsCrc b3 c := by
  unfold addPiafs b2Config
  simp only [apply_ite Prod.snd, ite_self, if_true]
  rfl

theorem addMtp2_info : (addMtp2 d max b3 c).2 = b2Config mtp2 b3 c := by
  have hne : mtp2 ≠ piafsCrc := by decide
  unfold addMtp2 b2Config
  simp only [apply_ite Prod.snd, if_true, if_neg hne]
  by_cases h0 : c.length = 0
  · simp [h0]
  · simp [h0]

theorem addListener_info : (addListener d max c).2 = b2Config listener b3 c := by
  unfold addListener b2Config
  simp only [apply_ite Prod.snd, ite_self, if_true]
  rfl

theorem addV120_info (hl : l2 = v120L2 ∨ l2 = v120V42bis) : (addV120 d l2 b3 c).2 = b2Config l2 b3 c := by
  unfold addV120 b2Config
  have h1 : l2 ≠ piafsCrc := by rcases hl with rfl | rfl <;> decide
  have h2 : l2 ≠ mtp2 := by rcases hl with rfl | rfl <;> decide
  have h3 : l2 ≠ listener := by rcases hl with rfl | rfl <;> decide
  simp only [apply_ite Prod.snd, if_neg h1, if_neg h2, if_neg h3, if_pos hl]
  rfl

/-- The error of layer 2 is the one of its configuration. -/
theorem addB2_info (d : Param) (max l2 b1 b2 b3 : Nat) (c : Parm) :
    (addB2 d max l2 b1 b2 b3 c).2 = b2Config l2 b3 c := by
  unfold addB2
  by_cases h1 : l2 = piafsCrc
  · rw [if_pos h1, h1]
    exact addPiafs_info
  by_cases h2 : l2 = mtp2
  · rw [if_neg h1, if_pos h2, h2]
    exact addMtp2_info
  by_cases h3 : l2 = listener
  · rw [if_neg h1, if_neg h2, if_pos h3, h3]
    exact addListener_info
  by_cases h4 : l2 = v120L2 ∨ l2 = v120V42bis
  · rw [if_neg h1, if_neg h2, if_neg h3, if_pos h4]
    exact addV120_info h4
  unfold b2Config addLapd addX75
  simp only [if_neg h1, if_neg h2, if_neg h3, if_neg h4, apply_ite Prod.snd, ite_self]
  by_cases h0 : c.length = 0
  · rw [if_neg (not_not_intro h0), if_pos h0]
  · rw [if_pos h0, if_neg h0]
    rfl

end Layer2

end Divas.Capi
