/-
  Divas.Capi.MixerResult — the reply to a line interconnect request with participants
  (`mixer_process_request`).

  A request is answered as it should (`Answered`) when the participants are parsed in order
  and from bytes of their structure only, and the three nested lengths of the reply fit its
  entries, one for each participant that was treated. The lengths are single bytes, while
  the entries are counted by the room in `result_buffer`; a participant is parsed with the
  length of the whole parameter; and a refused request gets lengths that are one too long.

  Proved: a request ends, and it is answered as it should if and only if it is not refused
  and the structure is a list of at most 35 participants that end in it (`participants_answered`).
-/

import Divas.Capi.MixerRequest

namespace Divas.Capi

open Divas.Lib.Bytes Divas.Lib.Flags Divas.Lib.Ring

/-! ## What is parsed -/

/-- The bytes of the fields of a participant. -/
def LiForm.fieldBytes : LiForm → Nat
  | connect => 8
  | disconnect => 4

namespace Parts

/-- The offsets of the length of a participant, as far as they are read. -/
def lengthOctets (ps : Parts) (q : LiReq) (pos : Nat) : List Nat :=
  (apiParseReads (from_ ps.m pos) (q.rest pos) 0 .s).map (pos + ·)

/-- The offsets of the bytes that are parsed for the participant at `pos`. -/
def parsed (ps : Parts) (q : LiReq) (pos : Nat) : List Nat :=
  ps.lengthOctets q pos ++
    match ps.participantStruct q pos with
    | some c => List.range' c.1 c.2
    | none => []

/-- From `pos` on there are `n` participants that end in their structure. Only the last one
    may be malformed: shorter than its fields, or longer than the parameter. -/
inductive Participants (form : LiForm) (q : LiReq) (ps : Parts) : Nat → Nat → Prop
  | done {pos : Nat} : ps.length ≤ pos → Participants form q ps pos 0
  | malformed {pos : Nat} : pos < ps.length → (∀ i ∈ ps.lengthOctets q pos, i < ps.length) →
      (∀ c, ps.participantStruct q pos = some c → c.1 + c.2 ≤ ps.length ∧ c.2 < form.fieldBytes) → Participants form q ps pos 1
  | next {pos n : Nat} {c : Nat × Nat} : pos < ps.length → ps.participantStruct q pos = some c → c.1 + c.2 ≤ ps.length →
      form.fieldBytes ≤ c.2 → Participants form q ps (c.1 + c.2) n → Participants form q ps pos (n + 1)

end Parts

/-- The request is not refused. -/
def LiReqSt.accepts (s : LiReqSt) (q : LiReq) : Bool :=
  match q.plci with
  | none => false
  | some k => s.liCheckMainPlci q.plci == liGood
    && (q.operation == .precheck || !has (s.plci k).liChannelBits liChannelNoAddresses)

/-- The participants are parsed as they should be, and the reply in `result_buffer` has their
    entries and no others. -/
structure Answered (form : LiForm) (q : LiReq) (ps : Parts) (s : LiReqSt) (o : LiReply) : Prop where
  inside : ∀ x ∈ o.treated, ∀ i ∈ ps.parsed q x.pos, i < ps.length
  order : o.treated.Pairwise fun x y => x.pos < y.pos
  ids : ∀ x ∈ o.treated, ∀ c, ps.participantStruct q x.pos = some c → form.fieldBytes ≤ c.2 → x.plciBId = dword ps.m c.1 % 65536
  room : 7 + 7 * o.treated.length ≤ resultBufferSize
  frame : ∀ i, resultBufferSize ≤ i → o.st.result i = s.result i
  participants : (o.st.result 6).toNat = 7 * o.treated.length
  service : (o.st.result 3).toNat = 3 + (o.st.result 6).toNat
  reply : (o.st.result 0).toNat = 3 + (o.st.result 3).toNat
  entries : load o.st.result 7 (7 * o.treated.length) = o.treated.flatMap Treated.bytes

/-! ## A participant -/

section Participant

variable {form : LiForm} {q : LiReq} {ps : Parts} {pos n : Nat} {c : Nat × Nat}

/-- The contents stand right behind the octets of the length. -/
theorem Parts.struct_behind (h : ps.participantStruct q pos = some c) :
    c.1 - 1 ∈ ps.lengthOctets q pos ∧ (∀ i ∈ ps.lengthOctets q pos, i < c.1) ∧ pos < c.1 := by
  unfold Parts.participantStruct apiParse apiParseFrom apiParseOne at h
  unfold Parts.lengthOctets apiParseReads
  by_cases hff : from_ ps.m pos 0 = 0xff
  · by_cases hcut : q.rest pos < 2
    · simp [hff, hcut] at h
    · simp [hff, hcut, apiParseFrom] at h
      rw [← h.2]
      refine ⟨?_, ?_, ?_⟩
      · simp [hff, hcut]
      · intro i hi
        simp [hff, hcut] at hi
        dsimp only
        omega
      · dsimp only
        omega
  · simp [hff, apiParseFrom] at h
    rw [← h.2]
    simp [hff]

theorem Parts.parsed_inside : (∀ i ∈ ps.parsed q pos, i < ps.length) ↔
    (∀ i ∈ ps.lengthOctets q pos, i < ps.length) ∧ ∀ c, ps.participantStruct q pos = some c → c.1 + c.2 ≤ ps.length := by
  unfold Parts.parsed
  cases h : ps.participantStruct q pos with
  | none => simp
  | some c =>
    simp only [List.mem_append, or_imp, forall_and, Option.some.injEq, forall_eq']
    apply and_congr_right
    intro hoctets
    obtain ⟨hmem, _, hpos⟩ := Parts.struct_behind h
    have hlast := hoctets _ hmem
    constructor
    · intro hin
      by_cases h0 : c.2 = 0
      · omega
      · have := hin (c.1 + c.2 - 1) (by rw [List.mem_range'_1]; omega)
        omega
    · intro hle i hi
      rw [List.mem_range'_1] at hi
      omega

/-- `api_parse` of the fields. -/
theorem LiForm.fields_eq (m : Mem) (n : Nat) :
    (n < form.fieldBytes ∧ apiParse m n form.participantFormat = none) ∨
      (form.fieldBytes ≤ n ∧ ∃ parms, apiParse m n form.participantFormat = some parms ∧ (parms.getD 0 ⟨0, none⟩).info = 0) := by
  cases form with
  | connect =>
    simp only [LiForm.fieldBytes, LiForm.participantFormat, apiParse, apiParseFrom, apiParseOne]
    by_cases h4 : n < 4
    · left
      refine ⟨by omega, ?_⟩
      simp [h4]
    · by_cases h8 : n < 8
      · left
        simp [h4, h8]
      · right
        refine ⟨by omega, ?_⟩
        simp [h4, h8]
  | disconnect =>
    simp only [LiForm.fieldBytes, LiForm.participantFormat, apiParse, apiParseFrom, apiParseOne]
    by_cases h4 : n < 4
    · left
      simp [h4]
    · right
      refine ⟨by omega, ?_⟩
      simp [h4]

end Participant

/-! ## A turn -/

section Turn

variable {form : LiForm} {e : LiSystem} {q : LiReq} {ps : Parts} {own : Nat} {t : Treating}

@[simp] theorem Treated.bytes_length (x : Treated) : x.bytes.length = 7 := by simp [Treated.bytes]

@[simp] theorem Treating.accept_result (k : LiPlace) (plciBId liFlags : Nat) :
    (t.accept form e q k plciBId liFlags).st.result = t.st.result := by
  unfold Treating.accept
  cases form <;> dsimp only <;> split <;> split <;> try split
  all_goals rfl

@[simp] theorem Treating.accept_frame (k : LiPlace) (plciBId liFlags : Nat) :
    (t.accept form e q k plciBId liFlags).resultPos = t.resultPos ∧ (t.accept form e q k plciBId liFlags).treated = t.treated :=
      ⟨rfl, rfl⟩

/-- The participant at `pos`: as an entry it is right. -/
def Parts.EntryOf (form : LiForm) (q : LiReq) (ps : Parts) (pos : Nat) (x : Treated) : Prop :=
  x.pos = pos ∧ ∀ c, ps.participantStruct q pos = some c → form.fieldBytes ≤ c.2 → x.plciBId = dword ps.m c.1 % 65536

/-- What a turn does. -/
structure Treating.Turned (form : LiForm) (q : LiReq) (ps : Parts) (t : Treating) (x : Treated) (r : Treating × Bool) : Prop where
  entry : Parts.EntryOf form q ps t.pos x
  treated : r.1.treated = t.treated ++ [x]
  resultPos : r.1.resultPos = t.resultPos + 7
  result : r.1.st.result = store t.st.result t.resultPos x.bytes
  goes : r.2 = true → t.full = false ∧ ∃ c, ps.participantStruct q t.pos = some c ∧ form.fieldBytes ≤ c.2 ∧
    r.1.pos = (c.1 + c.2) % 65536
  breaks : r.2 = false → t.full = true ∨ ∀ c, ps.participantStruct q t.pos = some c → c.2 < form.fieldBytes

theorem Treating.turn_spec : ∃ x, Treating.Turned form q ps t x (t.turn form e q ps own) := by
  unfold Treating.turn
  cases hstruct : ps.participantStruct q t.pos with
  | none =>
    refine ⟨_, ⟨rfl, ?_⟩, rfl, rfl, rfl, by simp, ?_⟩
    · simp [hstruct]
    · simp [hstruct]
  | some c =>
    dsimp only
    rcases @LiForm.fields_eq form (from_ ps.m c.1) c.2 with ⟨hshort, hnone⟩ | ⟨hfields, parms, hsome, hinfo⟩
    · rw [hnone]
      refine ⟨_, ⟨rfl, ?_⟩, rfl, rfl, rfl, by simp, ?_⟩
      · simp only [hstruct, Option.some.injEq, forall_eq']
        omega
      · simp [hstruct, hshort]
    · rw [hsome]
      dsimp only
      rw [hinfo, Nat.add_zero]
      have hentry : ∀ result, Parts.EntryOf form q ps t.pos ⟨t.pos, dword ps.m c.1 % 65536, result⟩ := by
        intro result
        refine ⟨rfl, ?_⟩
        simp [hstruct]
      have hgoes : ∀ t' : Treating, t.full = false → t'.pos = (c.1 + c.2) % 65536 →
          t.full = false ∧ ∃ d, ps.participantStruct q t.pos = some d ∧ form.fieldBytes ≤ d.2 ∧ t'.pos = (d.1 + d.2) % 65536 :=
        fun t' hfull hpos => ⟨hfull, c, hstruct, hfields, hpos⟩
      cases hfull : t.full with
      | true =>
        rw [if_pos rfl]
        exact ⟨_, hentry _, rfl, rfl, rfl, by simp, fun _ => .inl hfull⟩
      | false =>
        rw [if_neg (by simp)]
        cases LiReqSt.li2CheckPlciB e t.st own (dword ps.m c.1 % 65536) t.writePos with
        | error result => exact ⟨_, hentry _, rfl, rfl, rfl, fun _ => hgoes _ hfull rfl, by simp⟩
        | ok k =>
          dsimp only
          split
          · exact ⟨_, hentry _, rfl, rfl, rfl, fun _ => hgoes _ hfull rfl, by simp⟩
          · refine ⟨_, hentry _, rfl, rfl, ?_, fun _ => hgoes _ hfull rfl, by simp⟩
            simp [Treating.behind, Treating.entry, LiReqSt.write]

end Turn

/-! ## The loop -/

/-- The entries of the participants from `pos` on, behind `k` others: the last one is of a
    malformed participant, or the fiftieth. -/
inductive Parts.Entries (form : LiForm) (q : LiReq) (ps : Parts) : Nat → Nat → List Treated → Prop
  | done {k pos : Nat} : ps.length ≤ pos → Entries form q ps k pos []
  | last {k pos : Nat} {x : Treated} : pos < ps.length → ps.EntryOf form q pos x →
      (49 ≤ k ∨ ∀ c, ps.participantStruct q pos = some c → c.2 < form.fieldBytes) → Entries form q ps k pos [x]
  | next {k pos : Nat} {c : Nat × Nat} {x : Treated} {xs : List Treated} : pos < ps.length → ps.EntryOf form q pos x →
      ps.participantStruct q pos = some c → form.fieldBytes ≤ c.2 →
      Entries form q ps (k + 1) ((c.1 + c.2) % 65536) xs → Entries form q ps k pos (x :: xs)

/-- `result_buffer` has the entries, from its seventh byte on. -/
structure Treating.Filled (r : Mem) (t : Treating) : Prop where
  result : t.st.result = store r 7 (t.treated.flatMap Treated.bytes)
  resultPos : t.resultPos = 7 + 7 * t.treated.length

theorem Treated.bytes_flatMap (xs : List Treated) : (xs.flatMap Treated.bytes).length = 7 * xs.length := by
  induction xs with
  | nil => rfl
  | cons x xs ih =>
    simp [ih]
    omega

section Loop

variable {form : LiForm} {e : LiSystem} {q : LiReq} {ps : Parts} {own : Nat} {t : Treating} {r : Mem}

theorem Treating.Filled.turn {x : Treated} {s : Treating × Bool} (h : t.Filled r) (hs : t.Turned form q ps x s) :
    s.1.Filled r := by
  refine ⟨?_, ?_⟩
  · have hpos : t.resultPos = 7 + (t.treated.flatMap Treated.bytes).length := by rw [h.resultPos, Treated.bytes_flatMap]
    rw [hs.result, hs.treated, h.result, hpos, store_store, List.flatMap_append]
    simp
  · rw [hs.resultPos, hs.treated, h.resultPos]
    simp
    omega

theorem Treating.Filled.full (h : t.Filled r) (hroom : t.treated.length < 50) : t.full = true ↔ 49 ≤ t.treated.length := by
  unfold Treating.full resultBufferSize
  rw [decide_eq_true_eq, h.resultPos]
  omega

/-- The loop ends, with an entry for each participant, in the order of the participants. -/
theorem Treating.loop_spec (n : Nat) : ∀ t : Treating, t.Filled r → t.treated.length < 50 → 50 ≤ t.treated.length + n →
    ∃ t' xs, Treating.loop form e q ps own n t = some t' ∧ t'.Filled r ∧ t'.treated = t.treated ++ xs ∧
      ps.Entries form q t.treated.length t.pos xs ∧ t'.treated.length ≤ 50 := by
  induction n with
  | zero => intro t _ hroom hn; omega
  | succ n ih =>
    intro t h hroom hn
    unfold Treating.loop
    by_cases hpos : t.pos < ps.length
    · rw [if_pos hpos]
      obtain ⟨x, hturn⟩ := @Treating.turn_spec form e q ps own t
      have hfilled := h.turn hturn
      have hlen : (t.turn form e q ps own).1.treated.length = t.treated.length + 1 := by simp [hturn.treated]
      cases hgo : (t.turn form e q ps own).2 with
      | true =>
        obtain ⟨hfull, c, hstruct, hfields, hnext⟩ := hturn.goes hgo
        have hmore : ¬ 49 ≤ t.treated.length := by
          rw [← h.full hroom, hfull]
          simp
        obtain ⟨t', xs, hloop, hfilled', htreated, hentries, hle⟩ := ih _ hfilled (by omega) (by omega)
        refine ⟨t', x :: xs, ?_, hfilled', ?_, ?_, hle⟩
        · rw [show t.turn form e q ps own = ((t.turn form e q ps own).1, true) from Prod.ext rfl hgo]
          exact hloop
        · rw [htreated, hturn.treated, List.append_assoc, List.singleton_append]
        · rw [hlen, hnext] at hentries
          exact .next hpos hturn.entry hstruct hfields hentries
      | false =>
        refine ⟨(t.turn form e q ps own).1, [x], ?_, hfilled, hturn.treated, ?_, by omega⟩
        · rw [show t.turn form e q ps own = ((t.turn form e q ps own).1, false) from Prod.ext rfl hgo]
        · exact .last hpos hturn.entry ((hturn.breaks hgo).imp_left (h.full hroom).mp)
    · rw [if_neg hpos]
      exact ⟨t, [], rfl, h, by simp, .done (Nat.le_of_not_lt hpos), by omega⟩

end Loop

/-! ## The list of the participants -/

section Entries

variable {form : LiForm} {q : LiReq} {ps : Parts} {pos k n : Nat} {xs : List Treated}

theorem Parts.Entries.ids (h : ps.Entries form q k pos xs) :
    ∀ x ∈ xs, ∀ c, ps.participantStruct q x.pos = some c → form.fieldBytes ≤ c.2 → x.plciBId = dword ps.m c.1 % 65536 := by
  induction h with
  | done _ => simp
  | last _ hx _ =>
    simp only [List.mem_singleton, forall_eq]
    rw [hx.1]
    exact hx.2
  | next _ hx _ _ _ ih =>
    simp only [List.mem_cons, forall_eq_or_imp]
    rw [hx.1]
    exact ⟨hx.2, ih⟩

/-- Entries of participants that are parsed inside of their structure make a list. -/
theorem Parts.Entries.participants (hlength : ps.length < 65536) (h : ps.Entries form q k pos xs)
    (hin : ∀ x ∈ xs, ∀ i ∈ ps.parsed q x.pos, i < ps.length) (hfew : k + xs.length < 50) :
      ps.Participants form q pos xs.length := by
  induction h with
  | done hpos => exact .done hpos
  | last hpos hx hbreak =>
    simp only [List.mem_singleton, forall_eq] at hin
    rw [hx.1, Parts.parsed_inside] at hin
    rw [List.length_singleton] at hfew
    have hshort := hbreak.resolve_left (by omega)
    exact .malformed hpos hin.1 fun c hc => ⟨hin.2 c hc, hshort c hc⟩
  | next hpos hx hstruct hfields _ ih =>
    simp only [List.mem_cons, forall_eq_or_imp] at hin
    rw [hx.1, Parts.parsed_inside] at hin
    have hend := hin.1.2 _ hstruct
    rw [List.length_cons] at hfew
    have hrest := ih hin.2 (by omega)
    rw [Nat.mod_eq_of_lt (by omega)] at hrest
    exact .next hpos hstruct hend hfields hrest

/-- A list of participants that is not too long gets its entries, one behind the other. -/
theorem Parts.Participants.entries (hlength : ps.length < 65536) (h : ps.Participants form q pos n)
    (hentries : ps.Entries form q k pos xs) (hfew : k + n < 50) :
    xs.length = n ∧ (∀ x ∈ xs, ∀ i ∈ ps.parsed q x.pos, i < ps.length) ∧ (∀ x ∈ xs, pos ≤ x.pos) ∧
      xs.Pairwise fun x y => x.pos < y.pos := by
  induction h generalizing k xs with
  | done hpos =>
    cases hentries with
    | done _ => simp
    | last hlt _ _ => omega
    | next hlt _ _ _ _ => omega
  | malformed hpos hoctets hstruct =>
    cases hentries with
    | done hle => omega
    | last _ hx _ =>
      simp only [List.length_singleton, List.mem_singleton, forall_eq, List.pairwise_singleton, and_true, true_and]
      rw [hx.1, Parts.parsed_inside]
      exact ⟨⟨hoctets, fun c hc => (hstruct c hc).1⟩, Nat.le_refl _⟩
    | next _ _ hc hfields _ =>
      have := (hstruct _ hc).2
      omega
  | @next pos n c hpos hstruct hend hfields _ ih =>
    cases hentries with
    | done hle => omega
    | last _ _ hbreak =>
      have := hbreak.resolve_left (by omega) c hstruct
      omega
    | next _ hx hc _ hrest =>
      cases hstruct.symm.trans hc
      rw [Nat.mod_eq_of_lt (by omega)] at hrest
      obtain ⟨_, hoctets, hbehind⟩ := Parts.struct_behind hstruct
      obtain ⟨hlen, hin, hfrom, hpairwise⟩ := ih hrest (by omega)
      refine ⟨by rw [List.length_cons, hlen], ?_, ?_, ?_⟩
      · simp only [List.mem_cons, forall_eq_or_imp]
        refine ⟨?_, hin⟩
        rw [hx.1, Parts.parsed_inside, hstruct]
        refine ⟨fun i hi => ?_, fun d hd => by cases hd; exact hend⟩
        have := hoctets i hi
        omega
      · simp only [List.mem_cons, forall_eq_or_imp]
        exact ⟨Nat.le_of_eq hx.1.symm, fun x hx' => by have := hfrom x hx'; omega⟩
      · rw [List.pairwise_cons]
        refine ⟨fun x hx' => ?_, hpairwise⟩
        have := hfrom x hx'
        rw [hx.1]
        omega

end Entries

/-! ## The reply -/

section Reply

variable {form : LiForm} {e : LiSystem} {q : LiReq} {ps : Parts} {s : LiReqSt}

theorem apiParseOne_length {msg : Mem} {length p : Nat} {f : ParseFmt} {r : ApiParse × Nat}
    (h : apiParseOne msg length p f = some r) :
    r.1.length.getD 0 < 65536 := by
  unfold apiParseOne at h
  cases f with
  | s =>
    dsimp only at h
    split at h
    · split at h
      · cases h
      · cases h
        exact word_lt msg (p + 1)
    · cases h
      have := (msg p).toNat_lt
      simp
      omega
  | r =>
    cases h
    exact Nat.mod_lt _ (by decide)
  | _ =>
    cases h
    simp

theorem apiParseFrom_length {msg : Mem} {length : Nat} {fs : List ParseFmt} {p : Nat} {parms : List ApiParse}
    (h : apiParseFrom msg length p fs = some parms) : ∀ x ∈ parms, x.length.getD 0 < 65536 := by
  induction fs generalizing p parms with
  | nil =>
    cases h
    simp
  | cons f fs ih =>
    unfold apiParseFrom at h
    cases hone : apiParseOne msg length p f with
    | none => simp [hone] at h
    | some r =>
      rw [hone] at h
      dsimp only at h
      split at h
      · cases h
      · obtain ⟨rest, hrest, rfl⟩ := Option.map_eq_some_iff.mp h
        simp only [List.mem_cons, forall_eq_or_imp]
        exact ⟨apiParseOne_length hone, ih hrest⟩

theorem LiReq.parts_length (h : q.parts form = some ps) : ps.length < 65536 := by
  unfold LiReq.parts at h
  obtain ⟨parms, hparms, rfl⟩ := Option.map_eq_some_iff.mp h
  dsimp only
  rw [List.getD_eq_getElem?_getD]
  cases hget : parms[form.participants]? with
  | none => simp
  | some x => exact apiParseFrom_length hparms x (List.mem_of_getElem? hget)

/-- `result_buffer` with its three lengths, for `n` entries. -/
def closed (m : Mem) (n : Nat) : Mem :=
  store (store (store m 0 [UInt8.ofNat (6 + 7 * n)]) 3 [UInt8.ofNat (3 + 7 * n)]) 6 [UInt8.ofNat (7 * n)]

theorem closed_participants (m : Mem) (n : Nat) : (closed m n 6).toNat = 7 * n % 256 := by
  simp [closed, store]

theorem closed_service (m : Mem) (n : Nat) : (closed m n 3).toNat = (3 + 7 * n) % 256 := by
  simp [closed, store]

theorem closed_reply (m : Mem) (n : Nat) : (closed m n 0).toNat = (6 + 7 * n) % 256 := by
  simp [closed, store]

theorem closed_above (m : Mem) (n : Nat) {i : Nat} (h : 7 ≤ i) : closed m n i = m i := by
  unfold closed
  rw [store_outside _ (by simp; omega), store_outside _ (by simp; omega), store_outside _ (by simp; omega)]

theorem Treating.finish_treated (t : Treating) : t.finish.treated = t.treated := by
  unfold Treating.finish
  dsimp only
  split <;> rfl

theorem Treating.Filled.finish {t : Treating} {r : Mem} (h : t.Filled r) :
    t.finish.st.result = closed (store r 7 (t.treated.flatMap Treated.bytes)) t.treated.length := by
  have h1 : t.resultPos - 1 = 6 + 7 * t.treated.length := by rw [h.resultPos]; omega
  have h4 : t.resultPos - 4 = 3 + 7 * t.treated.length := by rw [h.resultPos]; omega
  have h7 : t.resultPos - 7 = 7 * t.treated.length := by rw [h.resultPos]; omega
  unfold Treating.finish closed
  rw [h1, h4, h7, ← h.result]
  dsimp only
  split <;> rfl

theorem LiReqSt.begin_result (liFlags : Nat) (k : LiPlace) : (s.begin form q liFlags k).result = s.result := by
  unfold LiReqSt.begin
  dsimp only
  split <;> rfl

theorem Treating.reply_spec (t : Treating) : (t.reply q).treated = t.treated ∧ (t.reply q).st.result = t.st.result := by
  unfold Treating.reply
  split <;> exact ⟨rfl, rfl⟩

/-- What stands in `result_buffer` when the participants are treated. -/
theorem LiReqSt.treat_spec (liFlags : Nat) (k : LiPlace) : ∃ o, s.treat form e q ps liFlags k = some o ∧
    ps.Entries form q 0 0 o.treated ∧ o.treated.length ≤ 50 ∧
    o.st.result = closed (store s.result 7 (o.treated.flatMap Treated.bytes)) o.treated.length := by
  have hstart : (Treating.mk (s.begin form q liFlags k) 0 7 (s.begin form q liFlags k).writePos []).Filled s.result :=
    ⟨by simp [LiReqSt.begin_result], rfl⟩
  obtain ⟨t, xs, hloop, hfilled, htreated, hentries, hle⟩ := @Treating.loop_spec form e q ps k.1 s.result maxTurns _ hstart
    (Nat.zero_lt_succ 49) (Nat.le_add_left 50 1)
  have hxs : t.treated = xs := htreated
  rw [← hxs] at hentries
  obtain ⟨htreats, hreply⟩ := @Treating.reply_spec q t.finish
  rw [t.finish_treated] at htreats
  refine ⟨t.finish.reply q, ?_, ?_⟩
  · unfold LiReqSt.treat
    dsimp only
    rw [hloop]
    rfl
  · rw [htreats, hreply]
    exact ⟨hentries, hle, hfilled.finish⟩

/-- The lengths of a refused request do not fit each other. -/
theorem not_answered_refused {o : LiReply} {info : Nat} (h : o.st.result = (s.informed info).result) (s' : LiReqSt) :
    ¬ Answered form q ps s' o := by
  intro ha
  have h3 : o.st.result 3 = 4 := by rw [h]; rfl
  have h6 : o.st.result 6 = 0 := by rw [h]; rfl
  have := ha.service
  rw [h3, h6] at this
  exact absurd this (by decide)

/-- The lengths are bytes: they fit up to 35 entries. -/
theorem answered_iff {o : LiReply} {r : Mem} {s' : LiReqSt} (hlength : ps.length < 65536)
    (hentries : ps.Entries form q 0 0 o.treated)
    (hle : o.treated.length ≤ 50) (hresult : o.st.result = closed (store r 7 (o.treated.flatMap Treated.bytes)) o.treated.length)
    (hframe : ∀ i, resultBufferSize ≤ i → r i = s'.result i) :
    Answered form q ps s' o ↔ ∃ n ≤ 35, ps.Participants form q 0 n := by
  constructor
  · intro h
    have hreply := h.reply
    have hservice := h.service
    have hparticipants := h.participants
    rw [hresult, closed_participants] at hparticipants
    rw [hresult, closed_participants, closed_service] at hservice
    rw [hresult, closed_service, closed_reply] at hreply
    have hfew : o.treated.length ≤ 35 := by omega
    exact ⟨_, hfew, hentries.participants hlength h.inside (by omega)⟩
  · rintro ⟨n, hn, hlist⟩
    obtain ⟨hlen, hin, _, horder⟩ := hlist.entries hlength hentries (by omega)
    have hbytes := Treated.bytes_flatMap o.treated
    have h6 : 7 * o.treated.length % 256 = 7 * o.treated.length := Nat.mod_eq_of_lt (by omega)
    have h3 : (3 + 7 * o.treated.length) % 256 = 3 + 7 * o.treated.length := Nat.mod_eq_of_lt (by omega)
    have h0 : (6 + 7 * o.treated.length) % 256 = 6 + 7 * o.treated.length := Nat.mod_eq_of_lt (by omega)
    refine ⟨hin, horder, hentries.ids, ?_, ?_, ?_, ?_, ?_, ?_⟩
    · unfold resultBufferSize
      omega
    · intro i hi
      have hbig : 357 ≤ i := hi
      rw [hresult, closed_above _ _ (by omega), store_outside _ (by omega), hframe i hi]
    · rw [hresult, closed_participants, h6]
    · rw [hresult, closed_participants, closed_service, h6, h3]
    · rw [hresult, closed_service, closed_reply, h3, h0]
      omega
    · have hload : load o.st.result 7 (7 * o.treated.length) = load (store r 7 (o.treated.flatMap Treated.bytes)) 7
          (7 * o.treated.length) := by
        apply load_congr
        intro i _
        rw [hresult, closed_above _ _ (by omega)]
      rw [hload, ← hbytes, load_store_self]

theorem LiReqSt.informed_frame (info : Nat) {i : Nat} (hi : resultBufferSize ≤ i) :
    ((s.opened form).informed info).result i = s.result i := by
  have hbig : 357 ≤ i := hi
  unfold LiReqSt.informed LiReqSt.opened
  simp only [LiReqSt.write]
  iterate 5 rw [store_outside _ (by simp; omega)]

/-- What was written before the participants is not looked at. -/
theorem process_eq (hparts : q.parts form = some ps) : ∃ info, mixerProcessRequest form e q s =
    match q.plci with
    | none => some ⟨false, (s.opened form).informed info, some info, []⟩
    | some k =>
      if s.liCheckMainPlci q.plci ≠ liGood then some ⟨false, (s.opened form).informed info, some info, []⟩
      else if q.operation ≠ .precheck ∧ has (s.plci k).liChannelBits liChannelNoAddresses = true then
        some ⟨false, (s.opened form).informed info, some liWrongState, []⟩
      else ((s.opened form).informed info).treat form e q ps (dword q.m 0 &&& 0xfffffffc) k := by
  unfold mixerProcessRequest
  rw [hparts]
  exact ⟨_, rfl⟩

theorem process_refused (hparts : q.parts form = some ps) (h : s.accepts q = false) :
    ∃ info confirms, mixerProcessRequest form e q s = some ⟨false, (s.opened form).informed info, some confirms, []⟩ := by
  obtain ⟨info, heq⟩ := @process_eq form e q ps s hparts
  rw [heq]
  unfold LiReqSt.accepts at h
  cases hplci : q.plci with
  | none => exact ⟨_, _, rfl⟩
  | some k =>
    dsimp only
    rw [hplci] at h
    by_cases hok : s.liCheckMainPlci (some k) = liGood
    · rw [if_neg (not_not_intro hok)]
      have haddress : q.operation ≠ .precheck ∧ has (s.plci k).liChannelBits liChannelNoAddresses = true := by
        simpa [hok] using h
      rw [if_pos haddress]
      exact ⟨_, _, rfl⟩
    · rw [if_pos hok]
      exact ⟨_, _, rfl⟩

theorem process_accepted (hparts : q.parts form = some ps) (h : s.accepts q = true) :
    ∃ info k, mixerProcessRequest form e q s = ((s.opened form).informed info).treat form e q ps
      (dword q.m 0 &&& 0xfffffffc) k := by
  obtain ⟨info, heq⟩ := @process_eq form e q ps s hparts
  rw [heq]
  unfold LiReqSt.accepts at h
  cases hplci : q.plci with
  | none => simp [hplci] at h
  | some k =>
    rw [hplci] at h
    dsimp only at h ⊢
    rw [Bool.and_eq_true, beq_iff_eq] at h
    have haddress : ¬ (q.operation ≠ .precheck ∧ has (s.plci k).liChannelBits liChannelNoAddresses = true) := by
      rintro ⟨hop, hbits⟩
      simp [hop, hbits] at h
    rw [if_neg (not_not_intro h.1), if_neg haddress]
    exact ⟨info, k, rfl⟩

/-- A request with participants is answered as it should be if and only if it is not refused,
    and its participants are a list of at most 35 that end in their structure. -/
theorem participants_answered (form : LiForm) (e : LiSystem) (q : LiReq) (s : LiReqSt) (ps : Parts)
    (hparts : q.parts form = some ps) :
    (∃ o, mixerProcessRequest form e q s = some o ∧ Answered form q ps s o) ↔
      s.accepts q = true ∧ ∃ n ≤ 35, ps.Participants form q 0 n := by
  cases haccepts : s.accepts q with
  | false =>
    obtain ⟨info, confirms, heq⟩ := @process_refused form e q ps s hparts haccepts
    rw [heq]
    simp only [Option.some.injEq, exists_eq_left', Bool.false_eq_true, false_and, iff_false]
    exact not_answered_refused rfl s
  | true =>
    obtain ⟨info, k, heq⟩ := @process_accepted form e q ps s hparts haccepts
    obtain ⟨o, ho, hentries, hle, hresult⟩ := @LiReqSt.treat_spec form e q ps ((s.opened form).informed info)
      (dword q.m 0 &&& 0xfffffffc) k
    rw [heq, ho]
    simp only [Option.some.injEq, exists_eq_left', true_and]
    exact answered_iff (LiReq.parts_length hparts) hentries hle hresult fun i hi => LiReqSt.informed_frame info hi

end Reply

/-! ## Two requests -/

/-- One adapter with two PLCIs. -/
def oneCard : LiSystem := ⟨1, id, fun _ => ⟨true, 2, 1, false⟩⟩

/-- Both are connected. -/
def twoPlcis : LiReqSt :=
  ⟨fun k => ⟨true, 1, 0, if k = (0, 0) then 1 else 2, 0, true⟩, fun _ => 0, 0, 0, fun _ => 0, false, true, []⟩

/-- LI_REQ_CONNECT of PLCI 1 with PLCI 2, and with PLCI 3, which is not there. -/
def connectPair : LiReq :=
  ⟨0x101, some (0, 0), .update,
    messageOf ([0, 0, 0, 0] ++ (18 :: ([8, 1, 2, 0, 0, 3, 0, 0, 0] ++ [8, 1, 3, 0, 0, 3, 0, 0, 0]))), 23⟩

theorem participants_answered_two : ∃ ps o, connectPair.parts .connect = some ps ∧
    mixerProcessRequest .connect oneCard connectPair twoPlcis = some o ∧ Answered .connect connectPair ps twoPlcis o := by
  have hparts : connectPair.parts .connect = some ⟨from_ connectPair.m 5, 18⟩ := rfl
  obtain ⟨o, ho, hanswered⟩ := (participants_answered .connect oneCard connectPair twoPlcis _ hparts).2
    ⟨by decide, 2, by decide,
      .next (c := (1, 8)) (by decide) (by decide) (by decide) (by decide)
        (.next (c := (10, 8)) (by decide) (by decide) (by decide) (by decide) (.done (by decide)))⟩
  exact ⟨_, o, hparts, ho, hanswered⟩

/-- LI_REQ_DISCONNECT of PLCI 1 from 36 participants, a parameter of 181 bytes. -/
def disconnectMany : LiReq :=
  ⟨0x101, some (0, 0), .update, messageOf (180 :: (List.replicate 36 [4, 1, 2, 0, 0]).flatten), 181⟩

/-- The first length of the reply is 2, the second one is 255. -/
theorem participants_answered_many : ¬ ∀ (form : LiForm) (e : LiSystem) (q : LiReq) (s : LiReqSt) (ps : Parts),
    q.parts form = some ps → ∃ o, mixerProcessRequest form e q s = some o ∧ Answered form q ps s o := by
  intro h
  obtain ⟨o, ho, hanswered⟩ := h .disconnect oneCard disconnectMany twoPlcis ⟨from_ disconnectMany.m 1, 180⟩ rfl
  have hlengths : (mixerProcessRequest .disconnect oneCard disconnectMany twoPlcis).map (fun o => (o.st.result 0, o.st.result 3))
      = some (2, 255) := by decide +kernel
  rw [ho, Option.map_some, Option.some.injEq, Prod.mk.injEq] at hlengths
  have hreply := hanswered.reply
  rw [hlengths.1, hlengths.2] at hreply
  exact absurd hreply (by decide)

end Divas.Capi
