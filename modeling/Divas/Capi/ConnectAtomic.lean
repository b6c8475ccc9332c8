/-
  Divas.Capi.ConnectAtomic — what a CONNECT_REQ that is refused leaves behind.

  The exit that all errors share clears the identifier of the PLCI and nothing else. What was
  taken before the error stays: the codec, the null channel, the consultation link, the DMA
  descriptor. The next `get_plci_` gives the same number away with these references to it.

  Proved:
  - a refused request leaves no reference to its PLCI exactly when there was none before and
    it took nothing by then (`atomic_iff`);
  - in every run whose requests all do so, each entry of `null_plci_table` names a live PLCI
    that reserved that channel itself (`connect_req_atomic`).
-/

import Divas.Capi.Connect

namespace Divas.Capi

open Divas.Lib.Run

/-! ## Atomic requests -/

namespace ConnSt

/-- The PLCI that the request takes. -/
def taken (s : ConnSt) (r : ConnectReq) : Option PlciPtr :=
  match s.admits r with
  | none => none
  | some n => if (s.adapter n).adapterDisabled then none else (s.adapter n).freePlci.map fun i => ⟨n, i⟩

/-- Nothing shared refers to the PLCI, and nothing is reserved for it. -/
structure NoReference (s : ConnSt) (p : PlciPtr) : Prop where
  table : ∀ c, (s.adapter p.adapter).nullPlciTable c ≠ p.plci + 1
  consult : ∀ q, q ≠ p → (s.plci q).relatedConsultPLCI ≠ some p
  codec : (s.adapter p.adapter).advSignalPLCI ≠ some p.plci
  dma : (s.plci p).rxDmaDescriptor ≤ 0

/-- A non-zero `Info` leaves the PLCI free and without references. -/
def Atomic (s : ConnSt) (r : ConnectReq) : Prop :=
  ∀ info, (s.connectReq r).2 = .confirm info → info ≠ .success →
    ∀ p, s.taken r = some p → ((s.connectReq r).1.plci p).id = 0 ∧ (s.connectReq r).1.NoReference p

/-- The B protocol of the request passes on the PLCI. -/
def accepts (s : ConnSt) (r : ConnectReq) (p : PlciPtr) (info : Info) : Prop :=
  (r.bProtocol (s.adapter p.adapter).features (s.plci p) info).2 = .success

/-- `add_b23` is reached, and gets a DMA descriptor. -/
def takesDma (s : ConnSt) (r : ConnectReq) (p : PlciPtr) (info : Info) : Prop :=
  let f := (s.adapter p.adapter).features
  let (x, info) := r.layer1 f (r.directed (s.plci p)) info
  info = .success ∧ r.asksB23 x ∧ hasBits f.manufacturerFeatures featureXonOffFlowControl ∧ f.useCma ∧ 0 ≤ r.dma

/-- Behind the codec: no null channel, no other PLCI and no DMA descriptor is taken. -/
structure TakesNothing (s : ConnSt) (r : ConnectReq) (n i : Nat) (a : ConnAdapter) : Prop where
  null : r.takesNull a = none
  consult : ∀ q, (s.set n (r.takeChannel a i)).consultPlci r = some q → q = ⟨n, i⟩
  dma : ¬ (s.arrange r n i a).takesDma r ⟨n, i⟩ (r.channelInfo a)

/-- Either the codec is there and the request passes, or nothing refers to the PLCI behind
    the codec and the request takes nothing more. -/
def CleanBehind (s : ConnSt) (r : ConnectReq) (n i : Nat) (c : Info × ConnAdapter) : Prop :=
  (c.1 = .success ∧ (s.arrange r n i c.2).accepts r ⟨n, i⟩ (r.channelInfo c.2)) ∨
    ((s.set n c.2).NoReference ⟨n, i⟩ ∧ (c.1 = .success → s.TakesNothing r n i c.2))

/-- Where the request takes a PLCI, it is clean. -/
def Clean (s : ConnSt) (r : ConnectReq) : Prop :=
  ∀ n i a, s.admits r = some n → (s.adapter n).adapterDisabled = false → s.takePlci r n = some (i, a) →
    s.CleanBehind r n i (codec r a i)

/-- Every entry names a live PLCI that reserved the channel itself. -/
def NullTable (s : ConnSt) : Prop :=
  ∀ n c, (s.adapter n).nullPlciTable c ≠ 0 →
    ∃ i, i < (s.adapter n).maxPlci ∧ (s.adapter n).nullPlciTable c = i + 1 ∧ (s.plci ⟨n, i⟩).id = i + 1
      ∧ c ∈ (s.plci ⟨n, i⟩).reserved

/-- The requests of a run are clean. -/
def CleanEv (s : ConnSt) : ConnEv → Prop
  | .connectReq r => s.Clean r
  | _ => True

end ConnSt

/-! ## The DMA descriptor -/

section Dma

variable (f : Features) (dma : Int) (p : BChannel) (bps : List Parm)

theorem addB1Profile_dma (k : Nat) : (addB1Profile f p bps k).1.rxDmaDescriptor = p.rxDmaDescriptor := by
  unfold addB1Profile
  dsimp only
  repeat' split
  all_goals rfl

theorem addB1Protocol_dma (k : Nat) : (addB1Protocol f p bps k).1.rxDmaDescriptor = p.rxDmaDescriptor := by
  unfold addB1Protocol
  dsimp only
  repeat' split
  case isFalse => exact addB1Profile_dma f p bps k
  all_goals rfl

theorem addB1_dma (bp : Parm) (c k : Nat) : (addB1 f p bp c k).1.rxDmaDescriptor = p.rxDmaDescriptor := by
  unfold addB1
  dsimp only
  repeat' split
  all_goals first | rfl | exact addB1Protocol_dma f _ _ k

/-- Asking twice gets nothing more. -/
theorem takeDma_takeDma (q : BChannel) (h : q.rxDmaDescriptor = (takeDma f dma p).rxDmaDescriptor) :
    (takeDma f dma q).rxDmaDescriptor = (takeDma f dma p).rxDmaDescriptor := by
  unfold takeDma at *
  grind

theorem addModemB23_dma (applId : Nat) :
    (addModemB23 f dma p applId bps).1.rxDmaDescriptor = p.rxDmaDescriptor
      ∨ (addModemB23 f dma p applId bps).1.rxDmaDescriptor = (takeDma f dma p).rxDmaDescriptor := by
  unfold addModemB23 takeDma
  dsimp only
  repeat' split
  all_goals simp

theorem addB23Profile_dma (applId : Nat) :
    (addB23Profile f dma p applId bps).1.rxDmaDescriptor = p.rxDmaDescriptor
      ∨ (addB23Profile f dma p applId bps).1.rxDmaDescriptor = (takeDma f dma p).rxDmaDescriptor := by
  unfold addB23Profile
  dsimp only
  repeat' split
  all_goals first | exact Or.inl rfl | exact addModemB23_dma f dma p bps applId

theorem addB23Protocol_dma (applId : Nat) :
    (addB23Protocol f dma p applId bps).1.rxDmaDescriptor = p.rxDmaDescriptor
      ∨ (addB23Protocol f dma p applId bps).1.rxDmaDescriptor = (takeDma f dma p).rxDmaDescriptor := by
  unfold addB23Protocol
  dsimp only
  repeat' split
  all_goals first | exact Or.inl rfl | exact addB23Profile_dma f dma p bps applId

theorem addB23Protocol_taken (applId : Nat) (q : BChannel) (h : q.rxDmaDescriptor = (takeDma f dma p).rxDmaDescriptor) :
    (addB23Protocol f dma q applId bps).1.rxDmaDescriptor = (takeDma f dma p).rxDmaDescriptor := by
  rcases addB23Protocol_dma f dma q bps applId with h' | h'
  · rw [h', h]
  · rw [h', takeDma_takeDma f dma p q h]

theorem codecB23_dma {p q : BChannel} (h : codecB23 p bps = some q) : q.rxDmaDescriptor = p.rxDmaDescriptor := by
  unfold codecB23 at h
  repeat' split at h
  all_goals first | cases h; rfl | cases h

theorem addB23_dma (applId : Nat) (bp : Parm) :
    (addB23 f dma p applId bp).1.rxDmaDescriptor = (takeDma f dma p).rxDmaDescriptor := by
  unfold addB23
  dsimp only
  split
  · split <;> rfl
  split
  · rfl
  split
  · rfl
  split
  · rfl
  rename_i q hq
  have hd : q.rxDmaDescriptor = (takeDma f dma p).rxDmaDescriptor := codecB23_dma _ hq
  split
  · exact hd
  · exact addB23Protocol_taken f dma p _ applId _ hd

end Dma

namespace ConnectReq

variable (r : ConnectReq)

theorem directed_dma (p : ConnPlci) : (r.directed p).rxDmaDescriptor = p.rxDmaDescriptor := by
  unfold directed
  split <;> rfl

theorem layer1_dma (f : Features) (p : ConnPlci) (info : Info) :
    (r.layer1 f p info).1.rxDmaDescriptor = p.rxDmaDescriptor := by
  unfold layer1
  split
  · exact addB1_dma f p.toBChannel (r.parms 5) _ 0
  · split <;> rfl

/-- The descriptor is taken where `add_b23` is reached. -/
theorem layer23_dma (f : Features) (p : ConnPlci) (info : Info) :
    (r.layer23 f p info).1.rxDmaDescriptor =
      if info = .success ∧ r.asksB23 p then (takeDma f r.dma p.toBChannel).rxDmaDescriptor else p.rxDmaDescriptor := by
  unfold layer23
  split
  · exact addB23_dma f r.dma p.toBChannel r.appl.id (r.parms 5)
  · rfl

end ConnectReq

/-- After `takeDma` there is a descriptor if there was one, or one is asked for and given. -/
theorem takeDma_pos (f : Features) (dma : Int) (p : BChannel) :
    0 < (takeDma f dma p).rxDmaDescriptor ↔
      0 < p.rxDmaDescriptor ∨ (hasBits f.manufacturerFeatures featureXonOffFlowControl ∧ f.useCma ∧ 0 ≤ dma) := by
  unfold takeDma
  split
  · rename_i h
    simp only [Bool.and_eq_true, decide_eq_true_eq] at h
    obtain ⟨⟨h1, h2⟩, h3⟩ := h
    simp only [h1, h2, true_and]
    split <;> omega
  · rename_i h
    simp only [Bool.and_eq_true, decide_eq_true_eq, not_and] at h
    constructor
    · exact Or.inl
    · rintro (h' | ⟨h1, h2, -⟩)
      · exact h'
      · have := h ⟨h1, h2⟩
        omega

namespace ConnSt

/-! ## The PLCIs of a state -/

@[simp] theorem set_adapter_self (s : ConnSt) (n : Nat) (a : ConnAdapter) : (s.set n a).adapter n = a := by simp [set]

theorem set_adapter_ne (s : ConnSt) {n m : Nat} (a : ConnAdapter) (h : m ≠ n) : (s.set n a).adapter m = s.adapter m := by
  simp [set, h]

theorem plci_modify (s : ConnSt) (p q : PlciPtr) (f : ConnPlci → ConnPlci) :
    (s.modify p f).plci q = if q = p then f (s.plci p) else s.plci q := by
  obtain ⟨n, i⟩ := p
  obtain ⟨m, j⟩ := q
  by_cases h : m = n
  · subst h
    by_cases h' : j = i
    · subst h'; simp [modify, plci, ConnAdapter.modify]
    · simp [modify, plci, ConnAdapter.modify, h']
  · simp [modify, plci, set_adapter_ne, h]

/-- What `modify` leaves alone. -/
theorem modify_adapter (s : ConnSt) (p : PlciPtr) (f : ConnPlci → ConnPlci) (n : Nat) :
    ((s.modify p f).adapter n).nullPlciTable = (s.adapter n).nullPlciTable
      ∧ ((s.modify p f).adapter n).advSignalPLCI = (s.adapter n).advSignalPLCI
      ∧ ((s.modify p f).adapter n).features = (s.adapter n).features
      ∧ ((s.modify p f).adapter n).maxPlci = (s.adapter n).maxPlci
      ∧ ((s.modify p f).adapter n).nullPlciBase = (s.adapter n).nullPlciBase
      ∧ ((s.modify p f).adapter n).nullPlciChannels = (s.adapter n).nullPlciChannels := by
  by_cases h : n = p.adapter
  · subst h; simp [modify, ConnAdapter.modify]
  · simp [modify, set_adapter_ne, h]

/-! ## The stages of a request -/

/-- `takeChannel` writes one entry, for the PLCI. -/
theorem takeChannel_table (r : ConnectReq) (a : ConnAdapter) (i : Nat) :
    (r.takeChannel a i).nullPlciTable =
      match r.takesNull a with
      | some channel => Function.update a.nullPlciTable channel (a.plci i).id
      | none => a.nullPlciTable := by
  unfold ConnectReq.takeChannel
  cases r.takesNull a with
  | some channel => rfl
  | none =>
    dsimp only
    repeat' split
    all_goals rfl

theorem takeChannel_frame (r : ConnectReq) (a : ConnAdapter) (i : Nat) :
    (r.takeChannel a i).advSignalPLCI = a.advSignalPLCI ∧ (r.takeChannel a i).features = a.features
      ∧ (r.takeChannel a i).maxPlci = a.maxPlci ∧ (r.takeChannel a i).nullPlciBase = a.nullPlciBase
      ∧ (r.takeChannel a i).nullPlciChannels = a.nullPlciChannels := by
  unfold ConnectReq.takeChannel
  repeat' split
  all_goals exact ⟨rfl, rfl, rfl, rfl, rfl⟩

/-- The PLCIs keep their identifiers, links and descriptors. -/
theorem takeChannel_plci (r : ConnectReq) (a : ConnAdapter) (i j : Nat) :
    ((r.takeChannel a i).plci j).id = (a.plci j).id
      ∧ ((r.takeChannel a i).plci j).relatedConsultPLCI = (a.plci j).relatedConsultPLCI
      ∧ ((r.takeChannel a i).plci j).rxDmaDescriptor = (a.plci j).rxDmaDescriptor := by
  by_cases h : j = i
  · subst h
    unfold ConnectReq.takeChannel
    repeat' split
    all_goals simp [ConnAdapter.reserve, ConnAdapter.modify]
  · unfold ConnectReq.takeChannel
    repeat' split
    all_goals simp [ConnAdapter.reserve, ConnAdapter.modify, h]

theorem consult_adapter (s : ConnSt) (r : ConnectReq) (p : PlciPtr) (n : Nat) :
    ((s.consult r p).adapter n).nullPlciTable = (s.adapter n).nullPlciTable
      ∧ ((s.consult r p).adapter n).advSignalPLCI = (s.adapter n).advSignalPLCI
      ∧ ((s.consult r p).adapter n).features = (s.adapter n).features
      ∧ ((s.consult r p).adapter n).maxPlci = (s.adapter n).maxPlci
      ∧ ((s.consult r p).adapter n).nullPlciBase = (s.adapter n).nullPlciBase
      ∧ ((s.consult r p).adapter n).nullPlciChannels = (s.adapter n).nullPlciChannels := by
  unfold consult
  split
  · simp
  · simp only [modify_adapter, and_self]

/-- Two PLCIs get a link, and no other field changes. -/
theorem consult_plci (s : ConnSt) (r : ConnectReq) (p q : PlciPtr) :
    ∃ l, (s.consult r p).plci q = { s.plci q with relatedConsultPLCI := l } := by
  unfold consult
  split
  · exact ⟨_, rfl⟩
  · simp only [plci_modify]
    repeat' split
    all_goals first | exact ⟨_, rfl⟩ | (subst_vars; exact ⟨_, rfl⟩)

/-- Another PLCI is linked to `p` where it was before, or where it is the consultation call. -/
theorem consult_related (s : ConnSt) (r : ConnectReq) (p : PlciPtr) :
    (∀ q, q ≠ p → ((s.consult r p).plci q).relatedConsultPLCI ≠ some p) ↔
      (∀ q, q ≠ p → (s.plci q).relatedConsultPLCI ≠ some p) ∧ ∀ q, s.consultPlci r = some q → q = p := by
  unfold consult
  split
  · rename_i h
    simp [h]
  · rename_i t ht
    simp only [ht, Option.some.injEq, forall_eq', plci_modify]
    constructor
    · intro h
      have htp : t = p := by
        by_contra hne
        exact h t hne (by simp [hne])
      refine ⟨?_, htp⟩
      intro q hq
      have := h q hq
      simpa [hq, htp] using this
    · intro h q hq
      obtain ⟨h1, rfl⟩ := h
      simpa [hq] using h1 q hq

/-! ## The exit of a refused request -/

/-- The fields that a reference is made of decide. -/
theorem noReference_congr {s t : ConnSt} {p : PlciPtr}
    (ht : (s.adapter p.adapter).nullPlciTable = (t.adapter p.adapter).nullPlciTable)
    (hc : ∀ q, q ≠ p → (s.plci q).relatedConsultPLCI = (t.plci q).relatedConsultPLCI)
    (ha : (s.adapter p.adapter).advSignalPLCI = (t.adapter p.adapter).advSignalPLCI)
    (hd : (s.plci p).rxDmaDescriptor = (t.plci p).rxDmaDescriptor) : s.NoReference p ↔ t.NoReference p := by
  constructor
  · intro h
    exact ⟨ht ▸ h.table, fun q hq => hc q hq ▸ h.consult q hq, ha ▸ h.codec, hd ▸ h.dma⟩
  · intro h
    exact ⟨ht ▸ h.table, fun q hq => hc q hq ▸ h.consult q hq, ha ▸ h.codec, hd ▸ h.dma⟩

/-- Clearing the identifier takes no reference away. -/
theorem noReference_clear (s : ConnSt) (p : PlciPtr) :
    (s.modify p fun x => { x with id := 0 }).NoReference p ↔ s.NoReference p := by
  apply noReference_congr
  · exact (modify_adapter s p _ p.adapter).1
  · intro q hq
    simp [plci_modify, hq]
  · exact (modify_adapter s p _ p.adapter).2.1
  · simp [plci_modify]

/-- The descriptor behind the B protocol. -/
theorem bProtocol_dma (s : ConnSt) (r : ConnectReq) (p : PlciPtr) (info : Info) :
    (r.bProtocol (s.adapter p.adapter).features (s.plci p) info).1.rxDmaDescriptor ≤ 0 ↔
      (s.plci p).rxDmaDescriptor ≤ 0 ∧ ¬ s.takesDma r p info := by
  have h1 := r.layer1_dma (s.adapter p.adapter).features (r.directed (s.plci p)) info
  rw [r.directed_dma] at h1
  unfold ConnectReq.bProtocol takesDma
  dsimp only
  generalize r.layer1 (s.adapter p.adapter).features (r.directed (s.plci p)) info = l at h1
  obtain ⟨x, info⟩ := l
  dsimp only at h1 ⊢
  rw [r.layer23_dma]
  have hpos := takeDma_pos (s.adapter p.adapter).features r.dma x.toBChannel
  split
  · rename_i hr
    simp only [hr.1, hr.2, true_and, ← h1]
    rw [← Int.not_lt, hpos, not_or, Int.not_lt]
  · rename_i hr
    rw [h1]
    constructor
    · intro h
      refine ⟨h, ?_⟩
      intro ht
      exact hr ⟨ht.1, ht.2.1⟩
    · intro h
      exact h.1

variable (s : ConnSt) (r : ConnectReq) (n i : Nat) (a : ConnAdapter)

/-- The entries behind the channel: none names the PLCI if none did before and no null
    channel is taken. -/
theorem takeChannel_names (hid : (a.plci i).id = i + 1) :
    (∀ c, (r.takeChannel a i).nullPlciTable c ≠ i + 1) ↔ (∀ c, a.nullPlciTable c ≠ i + 1) ∧ r.takesNull a = none := by
  rw [takeChannel_table]
  cases h : r.takesNull a with
  | none => simp
  | some channel =>
    simp only [reduceCtorEq, and_false, iff_false, not_forall, not_not]
    exact ⟨channel, by simp [hid]⟩

theorem arrange_table : ((s.arrange r n i a).adapter n).nullPlciTable = (r.takeChannel a i).nullPlciTable := by
  simp [arrange, (consult_adapter _ r ⟨n, i⟩ n).1]

theorem arrange_advSignalPLCI : ((s.arrange r n i a).adapter n).advSignalPLCI = a.advSignalPLCI := by
  simp [arrange, (consult_adapter _ r ⟨n, i⟩ n).2.1, (takeChannel_frame r a i).1]

/-- The channel leaves the links and descriptors of all PLCIs alone. -/
theorem plci_takeChannel (q : PlciPtr) :
    ((s.set n (r.takeChannel a i)).plci q).relatedConsultPLCI = ((s.set n a).plci q).relatedConsultPLCI
      ∧ ((s.set n (r.takeChannel a i)).plci q).rxDmaDescriptor = ((s.set n a).plci q).rxDmaDescriptor := by
  by_cases h : q.adapter = n
  · subst h
    simp [plci, (takeChannel_plci r a i q.plci).2]
  · simp [plci, set_adapter_ne, h]

theorem arrange_consult :
    (∀ q, q ≠ ⟨n, i⟩ → ((s.arrange r n i a).plci q).relatedConsultPLCI ≠ some ⟨n, i⟩) ↔
      (∀ q, q ≠ ⟨n, i⟩ → ((s.set n a).plci q).relatedConsultPLCI ≠ some ⟨n, i⟩) ∧
        ∀ q, (s.set n (r.takeChannel a i)).consultPlci r = some q → q = ⟨n, i⟩ := by
  unfold arrange
  rw [consult_related]
  simp only [(plci_takeChannel s r n i a _).1]

theorem arrange_dma : ((s.arrange r n i a).plci ⟨n, i⟩).rxDmaDescriptor = ((s.set n a).plci ⟨n, i⟩).rxDmaDescriptor := by
  obtain ⟨l, hl⟩ := consult_plci (s.set n (r.takeChannel a i)) r ⟨n, i⟩ ⟨n, i⟩
  unfold arrange
  rw [hl]
  exact (plci_takeChannel s r n i a ⟨n, i⟩).2

/-- Behind the exit nothing refers to the PLCI if nothing did behind the codec, and nothing
    was taken since. -/
theorem noReference_exit (hid : (a.plci i).id = i + 1) (info : Info) :
    let t := s.arrange r n i a
    ((t.modify ⟨n, i⟩ fun _ => (r.bProtocol (t.adapter n).features (t.plci ⟨n, i⟩) info).1).NoReference ⟨n, i⟩ ↔
      (s.set n a).NoReference ⟨n, i⟩ ∧ r.takesNull a = none ∧
        (∀ q, (s.set n (r.takeChannel a i)).consultPlci r = some q → q = ⟨n, i⟩) ∧ ¬ t.takesDma r ⟨n, i⟩ info) := by
  intro t
  have hm := modify_adapter t ⟨n, i⟩ (fun _ => (r.bProtocol (t.adapter n).features (t.plci ⟨n, i⟩) info).1) n
  have hd := bProtocol_dma t r ⟨n, i⟩ info
  have hnames := takeChannel_names r i a hid
  have hcons := arrange_consult s r n i a
  constructor
  · intro h
    have ht : ∀ c, (r.takeChannel a i).nullPlciTable c ≠ i + 1 := by
      intro c
      rw [← arrange_table s r n i a, ← hm.1]
      exact h.table c
    have hc : ∀ q, q ≠ ⟨n, i⟩ → (t.plci q).relatedConsultPLCI ≠ some ⟨n, i⟩ := by
      intro q hq
      simpa [plci_modify, hq] using h.consult q hq
    have hdma := h.dma
    rw [plci_modify, if_pos rfl] at hdma
    obtain ⟨hdma, hno⟩ := hd.mp hdma
    refine ⟨⟨?_, (hcons.mp hc).1, ?_, ?_⟩, (hnames.mp ht).2, (hcons.mp hc).2, hno⟩
    · simpa using (hnames.mp ht).1
    · have := h.codec
      rw [hm.2.1, arrange_advSignalPLCI] at this
      simpa using this
    · rw [← arrange_dma s r n i a]
      exact hdma
  · intro h
    obtain ⟨h, hnull, hlink, hno⟩ := h
    have htab : ∀ c, a.nullPlciTable c ≠ i + 1 := by simpa using h.table
    refine ⟨?_, ?_, ?_, ?_⟩
    · intro c
      rw [hm.1, arrange_table]
      exact hnames.mpr ⟨htab, hnull⟩ c
    · intro q hq
      simpa [plci_modify, hq] using hcons.mpr ⟨h.consult, hlink⟩ q hq
    · have := h.codec
      rw [hm.2.1, arrange_advSignalPLCI]
      simpa using this
    · rw [plci_modify, if_pos rfl]
      refine hd.mpr ⟨?_, hno⟩
      rw [arrange_dma]
      exact h.dma

end ConnSt

/-! ## The adapter keeps its books -/

namespace ConnAdapter

variable {a b : ConnAdapter} {i : Nat}

@[simp] theorem modify_plci_self (a : ConnAdapter) (i : Nat) (f : ConnPlci → ConnPlci) :
    (a.modify i f).plci i = f (a.plci i) := by simp [modify]

theorem modify_plci_ne (a : ConnAdapter) {i j : Nat} (f : ConnPlci → ConnPlci) (h : j ≠ i) :
    (a.modify i f).plci j = a.plci j := by simp [modify, h]

theorem getPlci_spec (h : a.getPlci = some (i, b)) :
    i < a.maxPlci ∧ (a.plci i).id = 0 ∧ b = a.modify i (freshPlci i) := by
  unfold getPlci at h
  cases hf : a.freePlci with
  | none => simp [hf] at h
  | some j =>
    simp only [hf, Option.map_some, Option.some.injEq, Prod.mk.injEq] at h
    obtain ⟨rfl, rfl⟩ := h
    have hid := List.find?_some hf
    have hmem := List.mem_of_find?_eq_some hf
    simp only [beq_iff_eq] at hid
    exact ⟨List.mem_range.mp hmem, hid, rfl⟩

/-- The identifier is a byte, and `max_plci` fits in it. -/
theorem freshPlci_id (h : i < a.maxPlci) (p : ConnPlci) : (freshPlci i p).id = i + 1 := by
  have := a.maxPlci_le
  simp only [freshPlci]
  omega

structure Inv (a : ConnAdapter) : Prop where
  ids : ∀ i, (a.plci i).id = 0 ∨ (i < a.maxPlci ∧ (a.plci i).id = i + 1)
  table : ∀ c, a.nullPlciTable c ≠ 0 → c < a.nullPlciBase + a.nullPlciChannels
    ∧ ∃ i, a.nullPlciTable c = i + 1 ∧ (a.plci i).id = i + 1 ∧ c ∈ (a.plci i).reserved

/-- Fields besides the identifier and the reserved channels do not matter. -/
theorem Inv.modify (h : a.Inv) (f : ConnPlci → ConnPlci) (hid : (f (a.plci i)).id = (a.plci i).id)
    (hr : (f (a.plci i)).reserved = (a.plci i).reserved) : (a.modify i f).Inv := by
  have hplci : ∀ j, ((a.modify i f).plci j).id = (a.plci j).id
      ∧ ((a.modify i f).plci j).reserved = (a.plci j).reserved := by
    intro j
    by_cases hj : j = i
    · subst hj; simp [hid, hr]
    · simp [modify_plci_ne a f hj]
  constructor
  · intro j
    rw [(hplci j).1]
    exact h.ids j
  · intro c hc
    obtain ⟨hlt, j, h1, h2, h3⟩ := h.table c hc
    exact ⟨hlt, j, h1, (hplci j).1 ▸ h2, (hplci j).2 ▸ h3⟩

/-- A PLCI that is not in use has no entry. -/
theorem Inv.names_free (h : a.Inv) (hid : (a.plci i).id = 0) (c : Nat) : a.nullPlciTable c ≠ i + 1 := by
  intro hc
  obtain ⟨-, j, h1, h2, -⟩ := h.table c (by omega)
  have hj : j = i := by omega
  subst hj
  omega

/-- A PLCI that no entry names may change its identifier. -/
theorem Inv.rename (h : a.Inv) (f : ConnPlci → ConnPlci) (hno : ∀ c, a.nullPlciTable c ≠ i + 1)
    (hid : (f (a.plci i)).id = 0 ∨ (i < a.maxPlci ∧ (f (a.plci i)).id = i + 1)) : (a.modify i f).Inv := by
  constructor
  · intro j
    by_cases hj : j = i
    · subst hj
      rw [modify_plci_self]
      exact hid
    · rw [modify_plci_ne a f hj]
      exact h.ids j
  · intro c hc
    obtain ⟨hlt, j, h1, h2, h3⟩ := h.table c hc
    have hj : j ≠ i := by
      rintro rfl
      exact hno c h1
    refine ⟨hlt, j, h1, ?_, ?_⟩
    · rw [modify_plci_ne a f hj]; exact h2
    · rw [modify_plci_ne a f hj]; exact h3

theorem Inv.getPlci (h : a.Inv) (hg : a.getPlci = some (i, b)) :
    b.Inv ∧ (b.plci i).id = i + 1 ∧ ∀ c, b.nullPlciTable c ≠ i + 1 := by
  obtain ⟨hlt, hfree, rfl⟩ := getPlci_spec hg
  have hno := h.names_free hfree
  have hid : (freshPlci i (a.plci i)).id = i + 1 := freshPlci_id hlt _
  exact ⟨h.rename _ hno (Or.inr ⟨hlt, hid⟩), by simpa using hid, hno⟩

/-- The codec takes a PLCI of its own at most. -/
theorem Inv.advCodecSupport (h : a.Inv) (hid : (a.plci i).id ≠ 0) (applId : Nat) :
    (a.advCodecSupport i applId).2.Inv ∧ ((a.advCodecSupport i applId).2.plci i).id = (a.plci i).id
      ∧ (a.advCodecSupport i applId).2.nullPlciTable = a.nullPlciTable
      ∧ (a.advCodecSupport i applId).2.nullPlciBase = a.nullPlciBase
      ∧ (a.advCodecSupport i applId).2.nullPlciChannels = a.nullPlciChannels := by
  unfold ConnAdapter.advCodecSupport
  split
  · split
    · split
      · exact ⟨h, rfl, rfl, rfl, rfl⟩
      · have h1 := h.modify (i := i) (fun p => { p with tel := .advVoice }) rfl rfl
        exact ⟨⟨h1.ids, h1.table⟩, by simp, rfl, rfl, rfl⟩
    · cases hg : a.getPlci with
      | none => exact ⟨h, rfl, rfl, rfl, rfl⟩
      | some jb =>
        obtain ⟨j, b⟩ := jb
        have hb := (h.getPlci hg).1
        obtain ⟨-, hfree, rfl⟩ := getPlci_spec hg
        have hij : i ≠ j := by
          rintro rfl
          exact hid hfree
        have h1 := hb.modify (i := j) (fun p => { p with tel := .codecPermanent, state := .advancedVoiceNosig }) rfl rfl
        have h2 := h1.modify (i := i) (fun p => { p with tel := .advVoice }) rfl rfl
        refine ⟨⟨h2.ids, h2.table⟩, ?_, rfl, rfl, rfl⟩
        simp [modify_plci_ne _ _ hij]
  · split
    · have h1 := h.modify (i := i) (fun p => { p with tel := .codec }) rfl rfl
      dsimp only
      split
      · exact ⟨h1, by simp, rfl, rfl, rfl⟩
      · cases hg : (a.modify i fun p => { p with tel := .codec }).getPlci with
        | none => exact ⟨h1, by simp, rfl, rfl, rfl⟩
        | some jb =>
          obtain ⟨j, b⟩ := jb
          have hb := (h1.getPlci hg).1
          obtain ⟨-, hfree, rfl⟩ := getPlci_spec hg
          have hij : i ≠ j := by
            rintro rfl
            exact hid (by simpa using hfree)
          refine ⟨⟨hb.ids, hb.table⟩, ?_, rfl, rfl, rfl⟩
          simp [modify_plci_ne _ _ hij]
    · exact ⟨h, rfl, rfl, rfl, rfl⟩

theorem nullChannel_lt {c : Nat} (h : a.nullChannel = some c) : c < a.nullPlciBase + a.nullPlciChannels := by
  unfold nullChannel at h
  split at h
  · rename_i h0
    simp only [Option.some.injEq] at h
    omega
  · have hmem := List.mem_of_find?_eq_some h
    simp only [List.mem_map, List.mem_range] at hmem
    obtain ⟨k, hk, rfl⟩ := hmem
    omega

/-- A live PLCI reserves a channel. -/
theorem Inv.reserve (h : a.Inv) {c : Nat} (hid : (a.plci i).id = i + 1) (hc : c < a.nullPlciBase + a.nullPlciChannels) :
    (a.reserve i c).Inv := by
  have hplci : ∀ j, ((a.reserve i c).plci j).id = (a.plci j).id
      ∧ ∀ d, d ∈ (a.plci j).reserved → d ∈ ((a.reserve i c).plci j).reserved := by
    intro j
    by_cases hj : j = i
    · subst hj
      refine ⟨by simp [ConnAdapter.reserve, ConnAdapter.modify], ?_⟩
      intro d hd
      simp [ConnAdapter.reserve, ConnAdapter.modify, hd]
    · simp [ConnAdapter.reserve, ConnAdapter.modify, hj]
  constructor
  · intro j
    rw [(hplci j).1]
    exact h.ids j
  · intro d hd
    by_cases hdc : d = c
    · subst hdc
      refine ⟨hc, i, ?_, ?_, ?_⟩
      · simp [ConnAdapter.reserve, ConnAdapter.modify, hid]
      · rw [(hplci i).1, hid]
      · simp [ConnAdapter.reserve, ConnAdapter.modify]
    · have heq : (a.reserve i c).nullPlciTable d = a.nullPlciTable d := by
        simp [ConnAdapter.reserve, ConnAdapter.modify, hdc]
      rw [heq] at hd
      obtain ⟨hlt, j, h1, h2, h3⟩ := h.table d hd
      exact ⟨hlt, j, heq ▸ h1, (hplci j).1 ▸ h2, (hplci j).2 d h3⟩

/-- Removal takes the entries of the PLCI with it. -/
theorem Inv.removeComplete (h : a.Inv) (i : Nat) : (a.removeComplete i).Inv := by
  unfold ConnAdapter.removeComplete
  dsimp only
  split
  · exact h.modify _ rfl rfl
  · rename_i hid
    refine Inv.modify ?_ _ rfl rfl
    have hi : (a.plci i).id = i + 1 := by
      rcases h.ids i with h0 | h0
      · exact absurd h0 hid
      · exact h0.2
    constructor
    · intro j
      by_cases hj : j = i
      · subst hj; simp
      · dsimp only
        rw [modify_plci_ne _ _ hj]
        exact h.ids j
    · intro c hc
      dsimp only at hc ⊢
      split at hc
      · exact absurd rfl hc
      · rename_i hne
        obtain ⟨hlt, j, h1, h2, h3⟩ := h.table c hc
        have hj : j ≠ i := by
          rintro rfl
          exact hne ⟨hlt, by rw [h1, hi]⟩
        refine ⟨hlt, j, ?_, ?_, ?_⟩
        · rw [if_neg hne, h1]
        · rw [modify_plci_ne _ _ hj]; exact h2
        · rw [modify_plci_ne _ _ hj]; exact h3

theorem Inv.codecIdCheck (h : a.Inv) (i : Nat) : (a.codecIdCheck i).Inv := by
  unfold ConnAdapter.codecIdCheck
  split
  · exact h
  · split
    · exact ⟨h.ids, h.table⟩
    · rename_i j _
      split
      · dsimp only
        have hj : (if a.removable j then a.removeComplete j else a).Inv := by
          split
          · exact h.removeComplete j
          · exact h
        exact ⟨hj.ids, hj.table⟩
      · exact ⟨h.ids, h.table⟩

theorem Inv.plciRemoveCheck (h : a.Inv) (i : Nat) : (a.plciRemoveCheck i).Inv := by
  unfold ConnAdapter.plciRemoveCheck
  split
  · refine Inv.removeComplete ?_ i
    split
    · exact h
    · exact h.codecIdCheck i
  · exact h

theorem Inv.assignNull (h : a.Inv) (hid : (a.plci i).id = i + 1) (codec : Nat) : (a.assignNull i codec).Inv := by
  unfold ConnAdapter.assignNull
  split
  · exact h
  · rename_i c hc
    extract_lets feature
    split
    · exact h.reserve hid (nullChannel_lt hc)
    · exact h

theorem Inv.assignPlci (h : a.Inv) (applId codec : Nat) : (a.assignPlci applId codec).Inv := by
  unfold ConnAdapter.assignPlci
  cases hg : a.getPlci with
  | none => exact h
  | some ib =>
    obtain ⟨i, b⟩ := ib
    obtain ⟨hb, hid, -⟩ := h.getPlci hg
    have h1 := hb.modify (i := i) (fun p => { p with appl := some applId, state := .localConnect }) rfl rfl
    have hid1 : ((b.modify i fun p => { p with appl := some applId, state := .localConnect }).plci i).id = i + 1 := by
      simpa using hid
    dsimp only
    split
    · exact h1.assignNull hid1 codec
    · split
      · exact (h1.advCodecSupport (by omega) applId).1
      · exact h1

theorem Inv.resume (h : a.Inv) (r : Resume) : (a.resume r).Inv := by
  unfold ConnAdapter.resume
  cases hg : a.getPlci with
  | none => exact h
  | some ib =>
    obtain ⟨i, b⟩ := ib
    obtain ⟨hb, hid, hno⟩ := h.getPlci hg
    have h1 := hb.modify (i := i) (fun p => { p with appl := some r.applId }) rfl rfl
    have hid1 : ((b.modify i fun p => { p with appl := some r.applId }).plci i).id ≠ 0 := by
      simp [hid]
    obtain ⟨h2, hid2, htab, -⟩ := h1.advCodecSupport hid1 r.applId
    dsimp only
    generalize hl : (if r.ext = true then (b.modify i fun p => { p with appl := some r.applId }).advCodecSupport i r.applId
      else (.success, b.modify i fun p => { p with appl := some r.applId })) = l
    have hx : l.2.Inv ∧ l.2.nullPlciTable = b.nullPlciTable := by
      subst hl
      split
      · exact ⟨h2, htab⟩
      · exact ⟨h1, rfl⟩
    -- the PLCI is fresh, so that no entry names it when its identifier is cleared
    have hclear := hx.1.rename (i := i) (fun p => { p with id := 0 }) (hx.2 ▸ hno) (Or.inl rfl)
    split
    · split
      · exact hclear
      · exact hx.1.modify _ rfl rfl
    · exact hclear

theorem Inv.takeChannel (h : a.Inv) (hid : (a.plci i).id = i + 1) (r : ConnectReq) : (r.takeChannel a i).Inv := by
  unfold ConnectReq.takeChannel
  split
  · rename_i c hc
    refine (h.reserve hid ?_).modify _ rfl rfl
    unfold ConnectReq.takesNull at hc
    split at hc
    · exact nullChannel_lt hc
    · cases hc
  · split
    · exact h
    · split
      · exact h.modify _ rfl rfl
      · exact h

end ConnAdapter

/-- The B protocol keeps the identifier and the reserved channels. -/
theorem ConnectReq.bProtocol_frame (r : ConnectReq) (f : Features) (p : ConnPlci) (info : Info) :
    (r.bProtocol f p info).1.id = p.id ∧ (r.bProtocol f p info).1.reserved = p.reserved := by
  unfold bProtocol layer1 layer23 directed
  dsimp only
  repeat' split
  all_goals exact ⟨rfl, rfl⟩

namespace ConnSt

def Inv (s : ConnSt) : Prop := ∀ n, (s.adapter n).Inv

variable {s : ConnSt} {r : ConnectReq} {n i : Nat} {a : ConnAdapter}

theorem Init.inv (h : s.Init) : s.Inv := by
  intro n
  constructor
  · intro i
    exact Or.inl (h.id ⟨n, i⟩)
  · intro c hc
    exact absurd (h.table n c) hc

theorem Inv.set (h : s.Inv) (ha : a.Inv) : (s.set n a).Inv := by
  intro m
  by_cases hm : m = n
  · subst hm; simpa using ha
  · rw [set_adapter_ne _ _ hm]
    exact h m

theorem Inv.modify (h : s.Inv) {p : PlciPtr} (f : ConnPlci → ConnPlci) (hid : (f (s.plci p)).id = (s.plci p).id)
    (hr : (f (s.plci p)).reserved = (s.plci p).reserved) : (s.modify p f).Inv :=
  h.set ((h p.adapter).modify f hid hr)

theorem Inv.consult (h : s.Inv) (r : ConnectReq) (p : PlciPtr) : (s.consult r p).Inv := by
  unfold ConnSt.consult
  split
  · exact h
  · exact (h.modify _ rfl rfl).modify _ rfl rfl

/-- The PLCI behind `get_plci_` and the codec: it is live, and no entry names it. -/
theorem behind_codec (h : s.Inv) (ht : s.takePlci r n = some (i, a)) :
    (s.adapter n).freePlci = some i ∧ (codec r a i).2.Inv ∧ ((codec r a i).2.plci i).id = i + 1
      ∧ ∀ c, (codec r a i).2.nullPlciTable c ≠ i + 1 := by
  unfold takePlci at ht
  cases hg : (s.adapter n).getPlci with
  | none => simp [hg] at ht
  | some ib =>
    obtain ⟨j, b⟩ := ib
    simp only [hg, Option.map_some, Option.some.injEq, Prod.mk.injEq] at ht
    obtain ⟨rfl, rfl⟩ := ht
    obtain ⟨hb, hid, hno⟩ := (h n).getPlci hg
    have hfree : (s.adapter n).freePlci = some j := by
      unfold ConnAdapter.getPlci at hg
      cases hf : (s.adapter n).freePlci with
      | none => simp [hf] at hg
      | some k =>
        simp only [hf, Option.map_some, Option.some.injEq, Prod.mk.injEq] at hg
        rw [hg.1]
    refine ⟨hfree, ?_⟩
    have h1 := hb.modify (i := j)
      (fun p => { p with appl := some r.appl.id, callDir := callDirOut ||| callDirOriginate }) rfl rfl
    unfold codec
    split
    · obtain ⟨h2, hid2, htab, -⟩ := h1.advCodecSupport (i := j) (by simp [hid]) r.appl.id
      refine ⟨h2, ?_, ?_⟩
      · rw [hid2]; simpa using hid
      · rw [htab]; exact hno
    · exact ⟨h1, by simpa using hid, hno⟩

/-- A request that takes no PLCI changes nothing. -/
theorem connectReq_untaken (h : ∀ n i a, s.admits r = some n → (s.adapter n).adapterDisabled = false →
    s.takePlci r n ≠ some (i, a)) : (s.connectReq r).1 = s ∧ s.taken r = none := by
  unfold connectReq taken
  cases ha : s.admits r with
  | none => exact ⟨rfl, rfl⟩
  | some n =>
    cases hd : (s.adapter n).adapterDisabled with
    | true => simp [hd]
    | false =>
      cases ht : s.takePlci r n with
      | some ia => exact absurd ht (h n ia.1 ia.2 ha hd)
      | none =>
        have hf : (s.adapter n).freePlci = none := by
          simpa [takePlci, ConnAdapter.getPlci] using ht
        simp [hd, ht, hf]

theorem connectReq_taken (h : s.Inv) (ha : s.admits r = some n) (hd : (s.adapter n).adapterDisabled = false)
    (ht : s.takePlci r n = some (i, a)) : s.connectReq r = s.proceed r n i a ∧ s.taken r = some ⟨n, i⟩ := by
  have hf := (behind_codec h ht).1
  simp [connectReq, taken, ha, hd, ht, hf]

/-- The end of a request, by what the B protocol says. -/
theorem finish_spec (s : ConnSt) (r : ConnectReq) (p : PlciPtr) (info : Info) :
    let f := (s.adapter p.adapter).features
    let t := s.modify p fun _ => (r.bProtocol f (s.plci p) info).1
    (s.accepts r p info → s.finish r p info = (t, .pending)) ∧
      (¬ s.accepts r p info →
        s.finish r p info = (t.modify p fun x => { x with id := 0 }, .confirm (r.bProtocol f (s.plci p) info).2)) := by
  unfold accepts finish
  dsimp only
  constructor
  · intro h
    rw [if_pos h]
  · intro h
    rw [if_neg h]

/-- Where the request ends, and with what. -/
theorem proceed_spec (s : ConnSt) (r : ConnectReq) (n i : Nat) (a : ConnAdapter) :
    let c := codec r a i
    (c.1 = .success → s.proceed r n i a = (s.arrange r n i c.2).finish r ⟨n, i⟩ (r.channelInfo c.2)) ∧
      (c.1 ≠ .success → s.proceed r n i a = (s.set n (c.2.modify i fun p => { p with id := 0 }),
        .confirm (if r.ccbs then .notAllowed else .wrongIdentifier))) := by
  unfold proceed
  rcases codec r a i with ⟨info, a⟩
  cases info <;> simp

theorem set_modify (s : ConnSt) (n i : Nat) (a : ConnAdapter) (f : ConnPlci → ConnPlci) :
    s.set n (a.modify i f) = (s.set n a).modify ⟨n, i⟩ f := by
  simp [ConnSt.modify, ConnSt.set]

theorem clean_taken (ha : s.admits r = some n) (hd : (s.adapter n).adapterDisabled = false)
    (ht : s.takePlci r n = some (i, a)) : s.Clean r ↔ s.CleanBehind r n i (codec r a i) := by
  constructor
  · intro h
    exact h n i a ha hd ht
  · intro h m j b hm _ hj
    rw [ha, Option.some.injEq] at hm
    subst hm
    rw [ht, Option.some.injEq, Prod.mk.injEq] at hj
    rw [← hj.1, ← hj.2]
    exact h

/-- An answer with a state behind it, for a PLCI that is taken. -/
theorem atomic_taken {t : ConnSt} {info : Info} {p : PlciPtr} (hr : s.connectReq r = (t, .confirm info))
    (hne : info ≠ .success) (ht : s.taken r = some p) : s.Atomic r ↔ (t.plci p).id = 0 ∧ t.NoReference p := by
  unfold Atomic
  rw [hr]
  constructor
  · intro h
    exact h info rfl hne p ht
  · intro h info' _ _ q hq
    rw [ht, Option.some.injEq] at hq
    rw [← hq]
    exact h

/-- Behind the codec: the PLCI is clean if and only if the request is atomic. -/
theorem atomic_behind (h : s.Inv) (ha : s.admits r = some n) (hd : (s.adapter n).adapterDisabled = false)
    (ht : s.takePlci r n = some (i, a)) : s.Atomic r ↔ s.CleanBehind r n i (codec r a i) := by
  obtain ⟨hreq, htaken⟩ := connectReq_taken h ha hd ht
  obtain ⟨-, -, hid, -⟩ := behind_codec (r := r) h ht
  obtain ⟨hok, hrefused⟩ := proceed_spec s r n i a
  generalize codec r a i = c at hid hok hrefused ⊢
  by_cases hc : c.1 = .success
  · have hexit := noReference_exit s r n i c.2 hid (r.channelInfo c.2)
    obtain ⟨hpass, hfail⟩ := finish_spec (s.arrange r n i c.2) r ⟨n, i⟩ (r.channelInfo c.2)
    by_cases hacc : (s.arrange r n i c.2).accepts r ⟨n, i⟩ (r.channelInfo c.2)
    · have hpend : (s.connectReq r).2 = .pending := by rw [hreq, hok hc, hpass hacc]
      refine ⟨fun _ => Or.inl ⟨hc, hacc⟩, ?_⟩
      intro _ info hinfo
      rw [hpend] at hinfo
      cases hinfo
    · rw [atomic_taken (hreq.trans ((hok hc).trans (hfail hacc))) hacc htaken, noReference_clear]
      dsimp only at hexit
      rw [hexit]
      constructor
      · intro h
        exact Or.inr ⟨h.2.1, fun _ => ⟨h.2.2.1, h.2.2.2.1, h.2.2.2.2⟩⟩
      · intro h
        rcases h with h | h
        · exact absurd h.2 hacc
        · have := h.2 hc
          exact ⟨by simp [plci_modify], h.1, this.null, this.consult, this.dma⟩
  · rw [atomic_taken (hreq.trans (hrefused hc)) (by split <;> simp) htaken, set_modify, noReference_clear]
    constructor
    · intro h
      exact Or.inr ⟨h.2, fun h' => absurd h' hc⟩
    · intro h
      rcases h with h | h
      · exact absurd h.1 hc
      · exact ⟨by simp [plci_modify], h.1⟩

theorem atomic_iff (h : s.Inv) (r : ConnectReq) : s.Atomic r ↔ s.Clean r := by
  by_cases ht : ∃ n i a, s.admits r = some n ∧ (s.adapter n).adapterDisabled = false ∧ s.takePlci r n = some (i, a)
  · obtain ⟨n, i, a, ha, hd, ht⟩ := ht
    rw [clean_taken ha hd ht]
    exact atomic_behind h ha hd ht
  · have hno : ∀ n i a, s.admits r = some n → (s.adapter n).adapterDisabled = false → s.takePlci r n ≠ some (i, a) := by
      intro n i a ha hd hta
      exact ht ⟨n, i, a, ha, hd, hta⟩
    constructor
    · intro _ n i a ha hd hta
      exact absurd hta (hno n i a ha hd)
    · intro _ info _ _ p hp
      rw [(connectReq_untaken hno).2] at hp
      cases hp

/-! ## Runs -/

theorem Inv.arrange (h : s.Inv) (ha : a.Inv) (hid : (a.plci i).id = i + 1) (r : ConnectReq) :
    (s.arrange r n i a).Inv :=
  (h.set (ha.takeChannel hid r)).consult r _

/-- The B protocol, and the exit where no null channel is taken. -/
theorem Inv.finish (h : s.Inv) (p : PlciPtr) (info : Info)
    (hno : ¬ s.accepts r p info → ∀ c, (s.adapter p.adapter).nullPlciTable c ≠ p.plci + 1) :
    (s.finish r p info).1.Inv := by
  obtain ⟨hpass, hfail⟩ := finish_spec s r p info
  have hf := r.bProtocol_frame (s.adapter p.adapter).features (s.plci p) info
  have h1 := h.modify (p := p) (fun _ => (r.bProtocol (s.adapter p.adapter).features (s.plci p) info).1) hf.1 hf.2
  by_cases hacc : s.accepts r p info
  · rw [hpass hacc]
    exact h1
  · rw [hfail hacc]
    refine h1.set ((h1 p.adapter).rename _ ?_ (Or.inl rfl))
    intro c
    rw [(modify_adapter s p _ p.adapter).1]
    exact hno hacc c

theorem Inv.connectReq (h : s.Inv) (hc : s.Clean r) : (s.connectReq r).1.Inv := by
  by_cases ht : ∃ n i a, s.admits r = some n ∧ (s.adapter n).adapterDisabled = false ∧ s.takePlci r n = some (i, a)
  · obtain ⟨n, i, a, ha, hd, ht⟩ := ht
    rw [clean_taken ha hd ht] at hc
    obtain ⟨hreq, -⟩ := connectReq_taken h ha hd ht
    obtain ⟨-, hinv, hid, hno⟩ := behind_codec (r := r) h ht
    obtain ⟨hok, hrefused⟩ := proceed_spec s r n i a
    rw [hreq]
    generalize codec r a i = c at hc hinv hid hno hok hrefused
    by_cases hcs : c.1 = .success
    · rw [hok hcs]
      refine (h.arrange hinv hid r).finish ⟨n, i⟩ _ ?_
      intro hacc d
      rcases hc with hc | hc
      · exact absurd hc.2 hacc
      · rw [arrange_table]
        exact (takeChannel_names r i c.2 hid).mpr ⟨hno, (hc.2 hcs).null⟩ d
    · rw [hrefused hcs]
      exact h.set (hinv.rename _ hno (Or.inl rfl))
  · rw [(connectReq_untaken fun n i a ha hd hta => ht ⟨n, i, a, ha, hd, hta⟩).1]
    exact h

theorem Inv.step (h : s.Inv) (e : ConnEv) (hc : s.CleanEv e) : (s.step e).Inv := by
  cases e with
  | connectReq r => exact h.connectReq hc
  | assignPlci m => exact h.set ((h m.a).assignPlci m.applId m.codec)
  | resume r => exact h.set ((h r.a).resume r)
  | getPlci n =>
    refine h.set ?_
    cases hg : (s.adapter n).getPlci with
    | none => simpa [hg] using h n
    | some ib => simpa [hg] using ((h n).getPlci hg).1
  | plciRemoveCheck p => exact h.set ((h p.adapter).plciRemoveCheck p.plci)
  | plciFields p u => exact h.modify _ rfl rfl
  | adapterFields n u => exact h.set ⟨(h n).ids, (h n).table⟩

theorem Inv.nullTable (h : s.Inv) : s.NullTable := by
  intro n c hc
  obtain ⟨-, i, h1, h2, h3⟩ := (h n).table c hc
  have hlt : i < (s.adapter n).maxPlci := by
    rcases (h n).ids i with h0 | h0
    · omega
    · exact h0.1
  exact ⟨i, hlt, h1, h2, h3⟩

end ConnSt

/-- In every run whose requests are clean each entry of `null_plci_table` names a live PLCI
    that reserved the channel itself, and from there a request is atomic exactly when it is
    clean. -/
theorem connect_req_atomic {s : ConnSt} (h : s.Init) {es : List ConnEv} (hc : Along ConnSt.step ConnSt.CleanEv s es) :
    (run ConnSt.step s es).NullTable ∧
      ∀ r, (run ConnSt.step s es).Atomic r ↔ (run ConnSt.step s es).Clean r := by
  have hi : (run ConnSt.step s es).Inv := Along.invariant ConnSt.step (fun _ e hs he => hs.step e he) h.inv hc
  exact ⟨hi.nullTable, fun r => ConnSt.atomic_iff hi r⟩

/-! ## A null channel that stays -/

namespace ConnSt

/-- An adapter with null PLCIs and no B1 protocol. -/
def primary : ConnSt where
  adapter _ :=
    { maxPlci := 2
      maxPlci_le := by decide
      adapterDisabled := false
      vscapiMode := false
      features :=
        { globalOptions := 0, b1Protocols := 0, b2Protocols := 0, b3Protocols := 0, privateOptions := 0
          manufacturerFeatures := 0, manufacturerFeatures2 := manufacturerFeature2NullPlci, uLaw := false
          useCma := false, requestedOptionsTable := fun _ => 0 }
      nullPlciBase := 32
      nullPlciChannels := 32
      nullPlciTable := fun _ => 0
      plci := fun _ =>
        { tel := .none, callDir := 0, b1Resource := 0, b1Options := 0, b2Prot := 0, b3Prot := 0, requestedOptions := 0
          requestedOptionsConn := 0, advNl := false, rxDmaDescriptor := 0, id := 0, sigId := 0, nlId := 0, appl := none
          state := .idle, bChannel := 0, cIndMaskEmpty := true, relatedConsultPLCI := none, reserved := [] }
      advCodecFLAG := false
      advSignalAppl := none
      advSignalPLCI := none
      advCodecPLCI := none
      scomApplDisable := false }
  maxAdapter := 1
  controllerMap _ := 1

def parmOf (bs : List UInt8) : Parm := ⟨fun i => bs.getD i 0, (bs.getD 0 0).toNat⟩

/-- A call with an empty channel mask, and a B protocol. -/
def nullCall (bp : List UInt8) : ConnectReq where
  a := some 0
  ext := false
  appl := ⟨1, false⟩
  parms k :=
    match k with
    | 5 => parmOf bp
    | 9 => parmOf [11, 7, 3, 0, 0, 0, 0, 0, 0, 0, 0, 0]
    | _ => Parm.empty
  dma := -1

/-- B1 protocol 20, which no adapter has. -/
def unknownB1 : List UInt8 := [9, 20, 0, 0, 0, 0, 0, 0, 0, 0]

theorem primary_init : primary.Init := by
  constructor
  · intro p; rfl
  · intro n c; rfl

end ConnSt

open ConnSt

/-- The default B protocol: the PLCI has the null channel. -/
theorem connect_req_atomic_nullCall :
    (run step primary [.connectReq (nullCall [])]).NullTable ∧
      ∀ r, (run step primary [.connectReq (nullCall [])]).Atomic r ↔ (run step primary [.connectReq (nullCall [])]).Clean r := by
  refine connect_req_atomic primary_init ⟨?_, trivial⟩
  refine (atomic_iff primary_init.inv (nullCall [])).mp ?_
  intro info hinfo
  have hp : (primary.connectReq (nullCall [])).2 = .pending := by decide +kernel
  rw [hp] at hinfo
  cases hinfo

/-- An unknown B1 protocol: the PLCI is free and its number in the table, and the next PLCI
    of that number has a channel it never reserved. -/
theorem connect_req_leaks :
    primary.Init ∧ ¬ primary.Atomic (nullCall unknownB1) ∧
      ¬ (run step primary [.connectReq (nullCall unknownB1), .getPlci 0]).NullTable := by
  refine ⟨primary_init, ?_, ?_⟩
  · intro h
    have hr : (primary.connectReq (nullCall unknownB1)).2 = .confirm .b1NotSupported := by decide +kernel
    have ht : primary.taken (nullCall unknownB1) = some ⟨0, 0⟩ := by decide +kernel
    have hn := (h _ hr (by decide) _ ht).2.table 0
    exact hn (by decide +kernel)
  · intro h
    obtain ⟨i, -, h1, -, h3⟩ := h 0 0 (by decide +kernel)
    have hi : i = 0 := by
      have : ((run step primary [.connectReq (nullCall unknownB1), .getPlci 0]).adapter 0).nullPlciTable 0 = 1 := by
        decide +kernel
      omega
    subst hi
    have : ((run step primary [.connectReq (nullCall unknownB1), .getPlci 0]).plci ⟨0, 0⟩).reserved = [] := by
      decide +kernel
    rw [this] at h3
    cases h3

end Divas.Capi
