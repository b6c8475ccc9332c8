/-
  Divas.Capi.MixerClosure — what `mixer_calculate_coefs` computes.

  Proved, for every number of channels and every table:
  - `involve_channel`: the conference bit of a channel says that it has a conference
    link, and such a channel is involved.
  - `closeConferences_eq`: the conference flags become their transitive closure off the
    diagonal, and the coefficients `CH_CH` with them.
  - `conference_closure`: so it is after the whole computation, and computing again
    changes no flag, no computed coefficient and no state bit.
-/

import Divas.Lib.Closure
import Divas.Capi.MixerAgree

namespace Divas.Capi

open Divas.Lib.Loop Divas.Lib.Flags Divas.Lib.Closure

namespace LiConfigTable

variable {N : Nat}

/-- The conference links between the channels below `N`. -/
def confLink (N : Nat) (s : LiConfigTable) (i j : Nat) : Prop :=
  i < N ∧ j < N ∧ has (s.flagTable i j) liFlagConference = true

/-! ## Involved channels -/

/-- The test of a channel's own flags. -/
def ownInvolved (s : LiConfigTable) (i : Nat) : Bool :=
  let f := s.flagTable i i
  has (s.chflags i) (~~~liChflagNullPlci)
    || (has f (liFlagMonitor ||| liFlagMix ||| liFlagAnnouncement)
      && (!has f liFlagMonitor || !has f (liFlagMix ||| liFlagAnnouncement)))
    || has f (~~~(liFlagMonitor ||| liFlagMix ||| liFlagAnnouncement))

def ownChannel (s : LiConfigTable) (i : Nat) : UInt8 :=
  orIf (has (s.flagTable i i) liFlagConference)
    (orIf (ownInvolved s i) (s.channel i &&& liChannelKept) liChannelInvolved) liChannelConference

def linkedChannel (N : Nat) (s : LiConfigTable) (i : Nat) (c : UInt8) : UInt8 :=
  orIf (has (linkFlags N s i) liFlagConference) (orIf (linkFlags N s i != 0) c liChannelInvolved) liChannelConference

theorem orChannelIf_eq (c : Bool) (i : Nat) (m : UInt8) (s : LiConfigTable) :
    s.orChannelIf c i m = { s with channel := Function.update s.channel i (orIf c (s.channel i) m) } := by
  cases c with
  | false => simp [orChannelIf, orIf]
  | true => rfl

theorem involveOwn_eq (i : Nat) (s : LiConfigTable) :
    involveOwn i s = { s with channel := Function.update s.channel i (ownChannel s i) } := by
  simp [involveOwn, orChannelIf_eq, andChannel, ownChannel, ownInvolved, liChannelKept]

theorem involveLinked_eq (N i : Nat) (s : LiConfigTable) :
    involveLinked N i s = { s with channel := Function.update s.channel i (linkedChannel N s i (s.channel i)) } := by
  simp [involveLinked, orChannelIf_eq, linkedChannel]

/-- `channel` after the first two loops. -/
def involvedChannel (N : Nat) (s : LiConfigTable) (i : Nat) : UInt8 :=
  if i < N then linkedChannel N s i (ownChannel s i) else s.channel i

theorem involve_eq (N : Nat) (s : LiConfigTable) : involve N s = { s with channel := involvedChannel N s } := by
  have h1 : forTo N involveOwn s = { s with channel := fun i => if i < N then ownChannel s i else s.channel i } := by
    refine forTo_entries (w := fun c => { s with channel := c }) (t := s.channel) fun k _ => ?_
    rw [involveOwn_eq]
    simp [ownChannel, ownInvolved]
  have h2 := forTo_entries (n := N) (b := involveLinked N) (w := fun c => { s with channel := c })
    (t := fun i => if i < N then ownChannel s i else s.channel i) (f := fun i => linkedChannel N s i (ownChannel s i)) ?_
  · unfold involve
    rw [h1, h2]
    congr 1
    funext i
    by_cases hi : i < N <;> simp [involvedChannel, hi]
  · intro k hk
    rw [involveLinked_eq]
    simp [linkedChannel, linkFlags, hk]

theorem forTo_has_or {n : Nat} (f : Nat → UInt8) (b m : UInt8) :
    has (forTo n (fun j b => b ||| f j) b) m = true ↔ has b m = true ∨ ∃ j, j < n ∧ has (f j) m = true := by
  induction n with
  | zero => simp
  | succ n ih =>
    rw [forTo_succ, has_or, Bool.or_eq_true, ih]
    constructor
    · intro h
      rcases h with (h | ⟨j, hj, h⟩) | h
      · exact Or.inl h
      · exact Or.inr ⟨j, by omega, h⟩
      · exact Or.inr ⟨n, by omega, h⟩
    · intro h
      rcases h with h | ⟨j, hj, h⟩
      · exact Or.inl (Or.inl h)
      · by_cases e : j = n
        · exact Or.inr (e ▸ h)
        · exact Or.inl (Or.inr ⟨j, by omega, h⟩)

theorem has_linkFlags {s : LiConfigTable} {i : Nat} (hi : i < N) (m : UInt8) :
    has (linkFlags N s i) m = true ↔
      ∃ j, j < N ∧ j ≠ i ∧ (has (s.flagTable i j) m = true ∨ has (s.flagTable j i) m = true) := by
  unfold linkFlags forFrom
  rw [forTo_has_or (fun k => s.flagTable i (i + 1 + k) ||| s.flagTable (i + 1 + k) i),
    forTo_has_or (fun j => s.flagTable i j ||| s.flagTable j i)]
  simp only [has_or, Bool.or_eq_true, has_zero, Bool.false_eq_true, false_or]
  constructor
  · intro h
    rcases h with ⟨j, hj, h⟩ | ⟨k, hk, h⟩
    · exact ⟨j, by omega, by omega, h⟩
    · exact ⟨i + 1 + k, by omega, by omega, h⟩
  · intro hw
    rcases hw with ⟨j, hj, hne, h⟩
    by_cases hl : j < i
    · exact Or.inl ⟨j, hl, h⟩
    · refine Or.inr ⟨j - (i + 1), by omega, ?_⟩
      rwa [show i + 1 + (j - (i + 1)) = j by omega]

theorem bne_zero_eq_has (b : UInt8) : (b != 0) = has b 0xff := by
  have : b &&& 0xff = b := UInt8.and_neg_one
  rw [has, this]

/-- The conference bit says that the channel has a conference link, to itself or to
    another channel. -/
theorem involve_conference {s : LiConfigTable} {i : Nat} (hi : i < N) :
    has ((involve N s).channel i) liChannelConference = true ↔ ∃ j, confLink N s i j ∨ confLink N s j i := by
  rw [involve_eq]
  show has (involvedChannel N s i) _ = true ↔ _
  have hk : has (s.channel i &&& liChannelKept) liChannelConference = false := by
    rw [has_and, show liChannelKept &&& liChannelConference = 0 by decide]
    simp [has]
  have hm : has liChannelInvolved liChannelConference = false := by decide
  have hc : has liChannelConference liChannelConference = true := by decide
  simp only [involvedChannel, hi, if_true, linkedChannel, ownChannel, has_orIf, hk, hm, hc, Bool.and_false, Bool.or_false,
    Bool.and_true, Bool.false_or, Bool.or_eq_true, has_linkFlags hi]
  constructor
  · intro h
    rcases h with h | ⟨j, hj, -, h | h⟩
    · exact ⟨i, Or.inl ⟨hi, hi, h⟩⟩
    · exact ⟨j, Or.inl ⟨hi, hj, h⟩⟩
    · exact ⟨j, Or.inr ⟨hj, hi, h⟩⟩
  · intro hw
    rcases hw with ⟨j, h⟩
    by_cases e : j = i
    · subst e
      rcases h with h | h <;> exact Or.inl h.2.2
    · rcases h with ⟨-, hj, h⟩ | ⟨hj, -, h⟩
      · exact Or.inr ⟨j, hj, e, Or.inl h⟩
      · exact Or.inr ⟨j, hj, e, Or.inr h⟩

/-- A channel with a conference link is involved. -/
theorem involve_involved {s : LiConfigTable} {i : Nat} (hi : i < N)
    (h : has ((involve N s).channel i) liChannelConference = true) :
    has ((involve N s).channel i) liChannelInvolved = true := by
  rw [involve_conference hi] at h
  rw [involve_eq]
  show has (involvedChannel N s i) _ = true
  have hi' : has liChannelInvolved liChannelInvolved = true := by decide
  simp only [involvedChannel, hi, if_true, linkedChannel, ownChannel, has_orIf, hi', Bool.and_true, Bool.or_eq_true,
    bne_zero_eq_has, has_linkFlags hi]
  have all : liFlagConference = 0xff &&& liFlagConference := by decide
  have own : ∀ f, has f liFlagConference = true → has f (~~~(liFlagMonitor ||| liFlagMix ||| liFlagAnnouncement)) = true :=
    fun f hf => has_mono (by decide) hf
  rcases h with ⟨j, h⟩
  by_cases e : j = i
  · subst e
    have hf : has (s.flagTable j j) liFlagConference = true := by
      rcases h with h | h <;> exact h.2.2
    refine Or.inl (Or.inl (Or.inl (Or.inr ?_)))
    simp [ownInvolved, own _ hf]
  · refine Or.inl (Or.inr ?_)
    rcases h with ⟨-, hj, h⟩ | ⟨hj, -, h⟩
    · exact ⟨j, hj, e, Or.inl (has_mono all.symm h)⟩
    · exact ⟨j, hj, e, Or.inr (has_mono all.symm h)⟩

/-- `involve` reads the address bits, `chflags`, a channel's own flags and which flags
    its links have. -/
theorem involve_congr {s t : LiConfigTable} (hc : ∀ i, i < N → s.channel i &&& liChannelKept = t.channel i &&& liChannelKept)
    (hch : ∀ i, i < N → s.chflags i = t.chflags i) (ho : ∀ i, i < N → s.flagTable i i = t.flagTable i i)
    (hl : ∀ i m, i < N → m &&& liFlagConference = liFlagConference → has (linkFlags N s i) m = has (linkFlags N t i) m)
    {i : Nat} (hi : i < N) :
    (involve N s).channel i = (involve N t).channel i := by
  rw [involve_eq, involve_eq]
  show involvedChannel N s i = involvedChannel N t i
  simp only [involvedChannel, hi, if_true, linkedChannel, bne_zero_eq_has, hl i 0xff hi (by decide),
    hl i liFlagConference hi (by decide), ownChannel, ownInvolved, ho i hi, hch i hi, hc i hi]

/-! ## Rows of the coefficients -/

def withRow (s : LiConfigTable) (i : Nat) (r : Nat → UInt8) : LiConfigTable :=
  { s with coefTable := Function.update s.coefTable i r }

theorem withRow_self (s : LiConfigTable) (i : Nat) : s.withRow i (s.coefTable i) = s := by simp [withRow]

theorem withRow_row (s : LiConfigTable) (i : Nat) (r : Nat → UInt8) : (s.withRow i r).coefTable i = r := by simp [withRow]

theorem withRow_setCoef (s : LiConfigTable) (i j : Nat) (r : Nat → UInt8) (b : UInt8) :
    (s.withRow i r).setCoef i j b = s.withRow i (Function.update r j b) := by
  simp [withRow, setCoef]

/-- A loop over the entries of row `i`. -/
theorem forTo_row {b : Nat → LiConfigTable → LiConfigTable} {s : LiConfigTable} {i : Nat} {f : Nat → UInt8}
    (hb : ∀ k r, k < N → (r = fun j => if j < k then f j else s.coefTable i j) →
      b k (s.withRow i r) = (s.withRow i r).setCoef i k (f k)) :
    forTo N b s = s.withRow i fun j => if j < N then f j else s.coefTable i j := by
  have h := forTo_entries (n := N) (b := b) (w := s.withRow i) (f := f) (t := s.coefTable i) ?_
  · rwa [withRow_self] at h
  · intro k hk
    rw [hb k _ hk rfl, withRow_setCoef]

/-- A loop over the rows. -/
theorem forTo_rows {b : Nat → LiConfigTable → LiConfigTable} {s : LiConfigTable} {f : Nat → Nat → UInt8}
    (hb : ∀ k c, k < N → (c = fun i => if i < k then f i else s.coefTable i) →
      b k { s with coefTable := c } = withRow { s with coefTable := c } k (f k)) :
    forTo N b s = { s with coefTable := fun i => if i < N then f i else s.coefTable i } :=
  forTo_entries (w := fun c => { s with coefTable := c }) (t := s.coefTable) fun k hk => hb k _ hk rfl

theorem orCoefIf_eq (c : Bool) (i j : Nat) (m : UInt8) (s : LiConfigTable) :
    s.orCoefIf c i j m = s.setCoef i j (orIf c (s.coefTable i j) m) := by
  cases c with
  | false => simp [orCoefIf, orIf, setCoef]
  | true => rfl

def clearedRow (N : Nat) (s : LiConfigTable) (i j : Nat) : UInt8 :=
  if j < N then s.coefTable i j &&& ~~~liCoefAll else s.coefTable i j

theorem clearCoefs_eq (N i : Nat) (s : LiConfigTable) : clearCoefs N i s = s.withRow i (clearedRow N s i) := by
  refine forTo_row (f := fun j => s.coefTable i j &&& ~~~liCoefAll) fun k r hk hr => ?_
  rw [andCoef, withRow_row, hr]
  simp

def confRow (N : Nat) (s : LiConfigTable) (i j : Nat) : UInt8 :=
  if j < N then
    orIf (has (s.channel i) liChannelConference && has (s.flagTable i j) liFlagConference) (s.coefTable i j) liCoefChCh
  else s.coefTable i j

theorem conferenceRow_eq (N i : Nat) (s : LiConfigTable) : conferenceRow N i s = s.withRow i (confRow N s i) := by
  unfold conferenceRow
  cases hc : has (s.channel i) liChannelConference with
  | false =>
    have : confRow N s i = s.coefTable i := by
      funext j
      simp [confRow, hc, orIf]
    rw [this, withRow_self]
    rfl
  | true =>
    have h := forTo_row (N := N) (s := s) (i := i)
      (b := fun j s => s.orCoefIf (has (s.flagTable i j) liFlagConference) i j liCoefChCh)
      (f := fun j => orIf (has (s.flagTable i j) liFlagConference) (s.coefTable i j) liCoefChCh) ?_
    · simp only [if_true, h]
      congr 1
      funext j
      simp [confRow, hc]
    · intro k r hk hr
      rw [orCoefIf_eq, withRow_row, hr]
      simp [withRow]

def joinedRow (N n : Nat) (s : LiConfigTable) (i j : Nat) : UInt8 :=
  if j < N then s.coefTable i j ||| (s.coefTable i n &&& s.coefTable n j) else s.coefTable i j

/-- Joining a row with itself changes nothing, so a round reads row `n` as it was before. -/
theorem joinedRow_self (N n : Nat) (s : LiConfigTable) : joinedRow N n s n = s.coefTable n := by
  funext j
  unfold joinedRow
  rw [UInt8.and_comm, or_and_self, ite_self]

theorem joinRow_eq {n : Nat} (i : Nat) (s : LiConfigTable) : joinRow N n i s = s.withRow i (joinedRow N n s i) := by
  refine forTo_row (f := fun j => s.coefTable i j ||| (s.coefTable i n &&& s.coefTable n j)) fun k r hk hr => ?_
  -- The entry `n` of the row that is being written is the same before and after its turn.
  have hn : r n = s.coefTable i n := by
    rw [hr]
    by_cases h : n < k <;> simp [h, or_and_self]
  have hk' : r k = s.coefTable i k := by simp [hr]
  have hj : (s.withRow i r).coefTable n k = s.coefTable n k := by
    by_cases e : n = i
    · rw [e, withRow_row, hk']
    · simp [withRow, Function.update_of_ne e]
  rw [withRow_row, hj, hn, hk']

/-- A round makes this of row `i`. -/
def roundRow (N n : Nat) (s : LiConfigTable) (i : Nat) : Nat → UInt8 :=
  if has (s.channel n) liChannelConference && has (s.channel i) liChannelConference then joinedRow N n s i
  else s.coefTable i

theorem joinRound_eq (N n : Nat) (s : LiConfigTable) :
    joinRound N n s = { s with coefTable := fun i => if i < N then roundRow N n s i else s.coefTable i } := by
  unfold joinRound
  cases hn : has (s.channel n) liChannelConference with
  | false => simp [roundRow, hn]
  | true =>
    refine forTo_rows fun k c hk hc => ?_
    have hrow : c k = s.coefTable k := by simp [hc]
    have hcn : c n = s.coefTable n := by
      rw [hc]
      by_cases h : n < k
      · simp [h, roundRow, hn, joinedRow_self]
      · simp [h]
    simp only
    cases hk' : has (s.channel k) liChannelConference with
    | false =>
      have : roundRow N n s k = c k := by simp [roundRow, hk', hrow]
      rw [this]
      exact (withRow_self { s with coefTable := c } k).symm
    | true =>
      rw [if_pos rfl, joinRow_eq]
      congr 1
      funext j
      simp [roundRow, hn, hk', joinedRow, hrow, hcn]

/-! ## Warshall's algorithm -/

/-- The coefficients are the matrix of a relation. -/
def Matrix (N : Nat) (s : LiConfigTable) (R : Nat → Nat → Prop) : Prop :=
  ∀ i j, i < N → j < N → s.coefTable i j &&& liCoefAll = bit (R i j)

/-- The conference bit is on every channel with a conference link. -/
def Marked (N : Nat) (s : LiConfigTable) (R : Nat → Nat → Prop) : Prop :=
  ∀ i j, R i j → i < N ∧ j < N ∧ has (s.channel i) liChannelConference = true ∧ has (s.channel j) liChannelConference = true

theorem Marked.through {s : LiConfigTable} {R : Nat → Nat → Prop} (h : Marked N s R) (n : Nat) : Marked N s (through R n) := by
  intro i j hp
  have hp := through_sound hp
  obtain ⟨k, hk, -⟩ := Relation.TransGen.head'_iff.1 hp
  obtain ⟨l, -, hl⟩ := Relation.TransGen.tail'_iff.1 hp
  exact ⟨(h i k hk).1, (h l j hl).2.1, (h i k hk).2.2.1, (h l j hl).2.2.2⟩

theorem clearCoefs_rows (N : Nat) (s : LiConfigTable) :
    forTo N (clearCoefs N) s = { s with coefTable := fun i => if i < N then clearedRow N s i else s.coefTable i } := by
  refine forTo_rows fun k c hk hc => ?_
  have hrow : c k = s.coefTable k := by simp [hc]
  rw [clearCoefs_eq]
  congr 1
  funext j
  simp [clearedRow, hrow]

theorem conferenceRow_rows (N : Nat) (s : LiConfigTable) :
    forTo N (conferenceRow N) s = { s with coefTable := fun i => if i < N then confRow N s i else s.coefTable i } := by
  refine forTo_rows fun k c hk hc => ?_
  have hrow : c k = s.coefTable k := by simp [hc]
  rw [conferenceRow_eq]
  congr 1
  funext j
  simp [confRow, hrow]

theorem clear_matrix (N : Nat) (s : LiConfigTable) : Matrix N (forTo N (clearCoefs N) s) fun _ _ => False := by
  intro i j hi hj
  rw [clearCoefs_rows, bit_false (fun h => h)]
  show (if i < N then clearedRow N s i else s.coefTable i) j &&& liCoefAll = 0
  rw [if_pos hi, clearedRow, if_pos hj, UInt8.and_assoc, show ~~~liCoefAll &&& liCoefAll = 0 by decide, UInt8.and_zero]

theorem conference_matrix {s : LiConfigTable} (hm : Marked N s (confLink N s)) (h : Matrix N s fun _ _ => False) :
    Matrix N (forTo N (conferenceRow N) s) (confLink N s) := by
  intro i j hi hj
  rw [conferenceRow_rows]
  show (if i < N then confRow N s i else s.coefTable i) j &&& liCoefAll = _
  have h0 := h i j hi hj
  rw [bit_false (fun h => h)] at h0
  rw [if_pos hi, confRow, if_pos hj]
  by_cases hc : has (s.flagTable i j) liFlagConference = true
  · have hl : confLink N s i j := ⟨hi, hj, hc⟩
    rw [(hm i j hl).2.2.1, hc, Bool.and_self, bit_true hl]
    show (s.coefTable i j ||| liCoefChCh) &&& liCoefAll = 1
    rw [or_and, h0]
    decide
  · have hl : ¬ confLink N s i j := fun h => hc h.2.2
    rw [Bool.not_eq_true] at hc
    rw [hc, Bool.and_false, bit_false hl]
    exact h0

theorem round_matrix {s : LiConfigTable} {R : Nat → Nat → Prop} (hm : Marked N s R) {n : Nat} (hn : n < N)
    (h : Matrix N s (through R n)) : Matrix N (joinRound N n s) (through R (n + 1)) := by
  intro i j hi hj
  rw [joinRound_eq]
  show (if i < N then roundRow N n s i else s.coefTable i) j &&& liCoefAll
    = bit (through R n i j ∨ through R n i n ∧ through R n n j)
  rw [if_pos hi, roundRow]
  by_cases hc : has (s.channel n) liChannelConference = true ∧ has (s.channel i) liChannelConference = true
  · rw [hc.1, hc.2, Bool.and_self, if_pos rfl, joinedRow, if_pos hj, or_and, and_and_mask, h i j hi hj, h i n hi hn,
      h n j hn hj, bit_and, bit_or]
  · -- No path goes through a channel that has no conference link.
    have hp : ¬ (through R n i n ∧ through R n n j) := by
      intro hp
      have := hm.through n i n hp.1
      exact hc ⟨this.2.2.2, this.2.2.1⟩
    rw [if_neg (by simpa using hc), h i j hi hj]
    exact bit_congr (by simp [hp])

theorem rounds_matrix {s : LiConfigTable} {R : Nat → Nat → Prop} (hm : Marked N s R) (h : Matrix N s R) :
    ∃ c, forTo N (joinRound N) s = { s with coefTable := c } ∧ Matrix N { s with coefTable := c } (Relation.TransGen R) := by
  have hI : ∃ c, forTo N (joinRound N) s = { s with coefTable := c } ∧ Matrix N { s with coefTable := c } (through R N) := by
    refine forTo_invariant (I := fun n t => ∃ c, t = { s with coefTable := c } ∧ Matrix N { s with coefTable := c } (through R n))
      ⟨s.coefTable, rfl, h⟩ fun n t hn ht => ?_
    obtain ⟨c, rfl, hc⟩ := ht
    have hm' : Marked N { s with coefTable := c } R := hm
    have hr := round_matrix hm' hn hc
    rw [joinRound_eq] at hr ⊢
    exact ⟨_, rfl, hr⟩
  obtain ⟨c, h1, h2⟩ := hI
  refine ⟨c, h1, fun i j hi hj => ?_⟩
  rw [h2 i j hi hj]
  exact bit_congr (through_iff fun i j hR => ⟨(hm i j hR).1, (hm i j hR).2.1⟩)

/-! ## The flags of the closure -/

def closedFlags (N : Nat) (s : LiConfigTable) (i j : Nat) : UInt8 :=
  if j < N then
    orIf (has (s.channel i) liChannelInvolved && (j != i && has (s.coefTable i j) liCoefChCh)) (s.flagTable i j) liFlagConference
  else s.flagTable i j

def closedRow (s : LiConfigTable) (i : Nat) : Nat → UInt8 :=
  if has (s.channel i) liChannelInvolved then
    Function.update (s.coefTable i) i
      (orIf (has (s.flagTable i i) liFlagConference) (s.coefTable i i &&& ~~~liCoefChCh) liCoefChCh)
  else s.coefTable i

theorem orFlagIf_eq (c : Bool) (i j : Nat) (m : UInt8) (s : LiConfigTable) :
    s.orFlagIf c i j m = { s with
      flagTable := Function.update s.flagTable i (Function.update (s.flagTable i) j (orIf c (s.flagTable i j) m)) } := by
  cases c with
  | false => simp [orFlagIf, orIf]
  | true => rfl

theorem conferenceFlags_eq {i : Nat} (hi : i < N) (s : LiConfigTable) :
    conferenceFlags N i s = { s with
      flagTable := Function.update s.flagTable i (closedFlags N s i)
      coefTable := Function.update s.coefTable i (closedRow s i) } := by
  unfold conferenceFlags
  cases hc : has (s.channel i) liChannelInvolved with
  | false =>
    have : closedFlags N s i = s.flagTable i := by
      funext j
      simp [closedFlags, hc]
    simp [this, closedRow, hc]
  | true =>
    rw [if_pos rfl]
    have hd : has (s.coefTable i i &&& ~~~liCoefChCh) liCoefChCh = false := by
      rw [has_and, show ~~~liCoefChCh &&& liCoefChCh = 0 by decide]
      simp [has]
    have h1 := forTo_entries (n := N) (t := s.flagTable i) (f := closedFlags N s i)
      (b := fun j s => s.orFlagIf (has (s.coefTable i j) liCoefChCh) i j liFlagConference)
      (w := fun r => { s.andCoef i i (~~~liCoefChCh) with flagTable := Function.update s.flagTable i r }) ?_
    · have hself : { s.andCoef i i (~~~liCoefChCh) with flagTable := Function.update s.flagTable i (s.flagTable i) }
          = s.andCoef i i (~~~liCoefChCh) := by
        rw [Function.update_eq_self]
        rfl
      have hrow : (fun j => if j < N then closedFlags N s i j else s.flagTable i j) = closedFlags N s i := by
        funext j
        by_cases hj : j < N <;> simp [closedFlags, hj]
      have hii : closedFlags N s i i = s.flagTable i i := by simp [closedFlags]
      rw [hself, hrow] at h1
      simp only [h1, orCoefIf_eq]
      simp [andCoef, setCoef, hii, closedRow, hc]
    · intro k hk
      rw [orFlagIf_eq]
      have hck : closedFlags N s i k
          = orIf (has ((s.andCoef i i (~~~liCoefChCh)).coefTable i k) liCoefChCh) (s.flagTable i k) liFlagConference := by
        by_cases e : k = i
        · subst e
          simp [closedFlags, andCoef, setCoef, hd]
        · have e' : (k != i) = true := by simpa using e
          simp [closedFlags, hc, hk, e, e', andCoef, setCoef]
      simp [hck]

theorem conferenceFlags_rows (N : Nat) (s : LiConfigTable) :
    forTo N (conferenceFlags N) s = { s with
      flagTable := fun i => if i < N then closedFlags N s i else s.flagTable i
      coefTable := fun i => if i < N then closedRow s i else s.coefTable i } := by
  have h := forTo_entries (n := N) (b := conferenceFlags N) (t := fun i => (s.flagTable i, s.coefTable i))
    (f := fun i => (closedFlags N s i, closedRow s i))
    (w := fun p => { s with flagTable := fun i => (p i).1, coefTable := fun i => (p i).2 }) ?_
  · refine h.trans ?_
    congr 1
    · funext i
      by_cases hi : i < N <;> simp [hi]
    · funext i
      by_cases hi : i < N <;> simp [hi]
  · intro k hk
    rw [conferenceFlags_eq hk]
    congr 1
    · funext i
      by_cases e : i = k
      · subst e
        funext j
        simp [closedFlags]
      · simp [Function.update_of_ne e]
    · funext i
      by_cases e : i = k
      · subst e
        simp [closedRow]
      · simp [Function.update_of_ne e]

/-- `u` is `s` with its conferences closed. -/
structure Closed (N : Nat) (s u : LiConfigTable) : Prop where
  channel : u.channel = s.channel
  chflags : u.chflags = s.chflags
  joined : ∀ i j, i < N → j < N → i ≠ j → Relation.TransGen (confLink N s) i j →
    u.flagTable i j = s.flagTable i j ||| liFlagConference
  same : ∀ i j, i < N → j < N → ¬ (i ≠ j ∧ Relation.TransGen (confLink N s) i j) → u.flagTable i j = s.flagTable i j
  coefs : ∀ i j, i < N → j < N → u.coefTable i j &&& liCoefAll
    = bit (if i = j then has (s.flagTable i i) liFlagConference = true else Relation.TransGen (confLink N s) i j)

/-- A channel with a path to another one is involved. -/
theorem involved_of_path {s : LiConfigTable} (hm : Marked N s (confLink N s))
    (hv : ∀ i, i < N → has (s.channel i) liChannelConference = true → has (s.channel i) liChannelInvolved = true) {i j : Nat}
    (h : Relation.TransGen (confLink N s) i j) : has (s.channel i) liChannelInvolved = true := by
  obtain ⟨k, hk, -⟩ := Relation.TransGen.head'_iff.1 h
  exact hv i hk.1 (hm i k hk).2.2.1

/-- The first four loops of `closeConferences`. -/
theorem closeConferences_matrix {s : LiConfigTable} (hm : Marked N s (confLink N s)) :
    ∃ c, closeConferences N s = forTo N (conferenceFlags N) { s with coefTable := c } ∧
      ∀ i j, i < N → j < N → c i j &&& liCoefAll = bit (Relation.TransGen (confLink N s) i j) := by
  have h1 := clear_matrix N s
  have e1 := clearCoefs_rows N s
  have h2 := conference_matrix (s := forTo N (clearCoefs N) s) (by rw [e1]; exact hm) h1
  have e2 := conferenceRow_rows N (forTo N (clearCoefs N) s)
  have hm2 : Marked N (forTo N (conferenceRow N) (forTo N (clearCoefs N) s)) (confLink N (forTo N (clearCoefs N) s)) := by
    rw [e2, e1]
    exact hm
  obtain ⟨c, e3, h3⟩ := rounds_matrix hm2 h2
  refine ⟨c, ?_, fun i j hi hj => ?_⟩
  · unfold closeConferences
    simp only [e3]
    rw [e2, e1]
  · have h := h3 i j hi hj
    rw [e1] at h
    exact h

theorem closeConferences_closed {s : LiConfigTable} (hm : Marked N s (confLink N s))
    (hv : ∀ i, i < N → has (s.channel i) liChannelConference = true → has (s.channel i) liChannelInvolved = true) :
    Closed N s (closeConferences N s) := by
  obtain ⟨c, e, hc⟩ := closeConferences_matrix hm
  rw [e, conferenceFlags_rows]
  have hbit : ∀ i j, i < N → j < N → (has (c i j) liCoefChCh = true ↔ Relation.TransGen (confLink N s) i j) := by
    intro i j hi hj
    have hall : has (c i j) liCoefChCh = has (c i j &&& liCoefAll) liCoefChCh := by
      rw [has_and]
      rfl
    rw [hall, hc i j hi hj]
    exact has_bit _
  refine ⟨rfl, rfl, ?_, ?_, ?_⟩
  · intro i j hi hj hne hp
    have hji : (j != i) = true := by simpa using hne.symm
    simp [hi, hj, closedFlags, involved_of_path hm hv hp, (hbit i j hi hj).2 hp, hji]
  · intro i j hi hj hp
    have hn : (j != i && has (c i j) liCoefChCh) = false := by
      rw [Bool.and_eq_false_iff]
      by_cases hne : i = j
      · exact Or.inl (by simp [hne])
      · exact Or.inr (by rw [← Bool.not_eq_true, hbit i j hi hj]; exact fun h => hp ⟨hne, h⟩)
    simp [hi, hj, closedFlags, hn]
  · intro i j hi hj
    show (if i < N then closedRow { s with coefTable := c } i else c i) j &&& liCoefAll = _
    rw [if_pos hi, closedRow]
    by_cases hinv : has (s.channel i) liChannelInvolved = true
    · rw [if_pos hinv]
      by_cases hij : i = j
      · subst hij
        rw [Function.update_self, if_pos rfl]
        have h0 : c i i &&& ~~~liCoefChCh &&& liCoefAll = 0 := by
          rw [UInt8.and_assoc, UInt8.and_comm (~~~liCoefChCh), ← UInt8.and_assoc, hc i i hi hi]
          by_cases hp : Relation.TransGen (confLink N s) i i
          · rw [bit_true hp]
            decide
          · rw [bit_false hp]
            decide
        cases hf : has (s.flagTable i i) liFlagConference with
        | false => rw [orIf_false, h0, bit_false (by simp)]
        | true =>
          rw [orIf_true, or_and, h0, bit_true rfl]
          decide
      · rw [Function.update_of_ne (Ne.symm hij), if_neg hij]
        exact hc i j hi hj
    · -- No link leaves a channel that is not involved.
      have hout : ∀ k, ¬ Relation.TransGen (confLink N s) i k := fun k hp => hinv (involved_of_path hm hv hp)
      have hself : ¬ has (s.flagTable i i) liFlagConference = true := fun hf => hout i (Relation.TransGen.single ⟨hi, hi, hf⟩)
      rw [if_neg hinv]
      show c i j &&& liCoefAll = _
      rw [hc i j hi hj]
      apply bit_congr
      by_cases hij : i = j
      · simp [hij, hij ▸ hself, hij ▸ hout j]
      · simp [hij]

/-! ## The whole computation -/

theorem involve_marked (N : Nat) (s : LiConfigTable) : Marked N (involve N s) (confLink N s) := by
  intro i j h
  refine ⟨h.1, h.2.1, ?_, ?_⟩
  · exact (involve_conference h.1).2 ⟨j, Or.inl h⟩
  · exact (involve_conference h.2.1).2 ⟨i, Or.inr h⟩

theorem confLink_involve (N : Nat) (s : LiConfigTable) : confLink N (involve N s) = confLink N s := by
  rw [involve_eq]
  rfl

theorem closed_involve (N : Nat) (s : LiConfigTable) : Closed N (involve N s) (closeConferences N (involve N s)) :=
  closeConferences_closed (by rw [confLink_involve]; exact involve_marked N s) fun _ hi h => involve_involved hi h

/-- The flags of the closed table. -/
theorem closed_flags {s t : LiConfigTable} (h : Closed N s t) {i j : Nat} (hi : i < N) (hj : j < N) (m : UInt8) :
    has (t.flagTable i j) m = true ↔ has (s.flagTable i j) m = true ∨
      (i ≠ j ∧ Relation.TransGen (confLink N s) i j ∧ has liFlagConference m = true) := by
  by_cases hp : i ≠ j ∧ Relation.TransGen (confLink N s) i j
  · rw [h.joined i j hi hj hp.1 hp.2, has_or, Bool.or_eq_true]
    simp [hp.1, hp.2]
  · rw [h.same i j hi hj hp]
    constructor
    · exact Or.inl
    · intro hf
      rcases hf with hf | ⟨h1, h2, -⟩
      · exact hf
      · exact absurd ⟨h1, h2⟩ hp

theorem closed_confLink {s t : LiConfigTable} (h : Closed N s t) {i j : Nat} :
    Relation.TransGen (confLink N t) i j ↔ Relation.TransGen (confLink N s) i j := by
  apply closure_eq
  · intro i j hw
    rcases hw with ⟨hi, hj, hf⟩
    exact ⟨hi, hj, (closed_flags h hi hj _).2 (Or.inl hf)⟩
  · intro i j hw
    rcases hw with ⟨hi, hj, hf⟩
    rcases (closed_flags h hi hj _).1 hf with hf | ⟨-, hp, -⟩
    · exact Relation.TransGen.single ⟨hi, hj, hf⟩
    · exact hp

/-- Closing gives no channel a kind of link that it had not. -/
theorem closed_linkFlags {s t : LiConfigTable} (h : Closed N s t) {i : Nat} (hi : i < N) {m : UInt8}
    (hm : m &&& liFlagConference = liFlagConference) :
    has (linkFlags N t i) m = has (linkFlags N s i) m := by
  rw [Bool.eq_iff_iff, has_linkFlags hi, has_linkFlags hi]
  constructor
  · intro hw
    rcases hw with ⟨j, hj, hne, hf⟩
    rcases hf with hf | hf
    · rcases (closed_flags h hi hj m).1 hf with hf | ⟨hne', hp, -⟩
      · exact ⟨j, hj, hne, Or.inl hf⟩
      · obtain ⟨k, hk, hl⟩ := exists_out hp hne'
        exact ⟨k, hl.2.1, hk, Or.inl (has_mono hm hl.2.2)⟩
    · rcases (closed_flags h hj hi m).1 hf with hf | ⟨hne', hp, -⟩
      · exact ⟨j, hj, hne, Or.inr hf⟩
      · obtain ⟨k, hk, hl⟩ := exists_in hp hne'
        exact ⟨k, hl.1, hk, Or.inr (has_mono hm hl.2.2)⟩
  · intro hw
    rcases hw with ⟨j, hj, hne, hf⟩
    rcases hf with hf | hf
    · exact ⟨j, hj, hne, Or.inl ((closed_flags h hi hj m).2 (Or.inl hf))⟩
    · exact ⟨j, hj, hne, Or.inr ((closed_flags h hj hi m).2 (Or.inl hf))⟩

theorem involve_kept (N : Nat) (s : LiConfigTable) (i : Nat) :
    (involve N s).channel i &&& liChannelKept = s.channel i &&& liChannelKept := by
  rw [involve_eq]
  show involvedChannel N s i &&& _ = _
  unfold involvedChannel
  split
  · rw [linkedChannel, ownChannel, orIf_and (by decide), orIf_and (by decide), orIf_and (by decide), orIf_and (by decide),
      UInt8.and_assoc, UInt8.and_self]
  · rfl

theorem confLink_congr {s t : LiConfigTable} (h : s.flagTable = t.flagTable) : confLink N s = confLink N t := by
  unfold confLink
  rw [h]

theorem linkFlags_congr {s t : LiConfigTable} (h : s.flagTable = t.flagTable) (i : Nat) :
    linkFlags N s i = linkFlags N t i := by
  unfold linkFlags
  rw [h]

theorem involve_flags (N : Nat) (s : LiConfigTable) : (involve N s).flagTable = s.flagTable := by rw [involve_eq]

theorem involve_chflags (N : Nat) (s : LiConfigTable) : (involve N s).chflags = s.chflags := by rw [involve_eq]

/-- What the computation leaves of the closed table. -/
theorem calculate_still (N : Nat) (s : LiConfigTable) :
    Still (closeConferences N (involve N s)) (mixerCalculateCoefs N s) :=
  (Still.refl _).routeOthers

/-- The computation involves the same channels again. -/
theorem involve_again (N : Nat) (s : LiConfigTable) {i : Nat} (hi : i < N) :
    (involve N (mixerCalculateCoefs N s)).channel i = (involve N s).channel i := by
  have hs := closed_involve N s
  have hstill := calculate_still N s
  refine involve_congr (fun i hi => ?_) (fun i hi => ?_) (fun i hi => ?_) (fun i m hi hm => ?_) hi
  · rw [hstill.channel, hs.channel, involve_kept]
  · rw [hstill.chflags, hs.chflags, involve_chflags]
  · rw [hstill.flags, hs.same i i hi hi (fun h => h.1 rfl), involve_flags]
  · rw [linkFlags_congr hstill.flags, closed_linkFlags hs hi hm, linkFlags_congr (involve_flags N s)]

/-- After the computation nothing is left to close. -/
theorem closeConferences_again (N : Nat) (s : LiConfigTable) :
    Agree N (closeConferences N (involve N (mixerCalculateCoefs N s))) (closeConferences N (involve N s)) := by
  have hs := closed_involve N s
  have ht := closed_involve N (mixerCalculateCoefs N s)
  have hstill := calculate_still N s
  have hfl : (involve N (mixerCalculateCoefs N s)).flagTable = (closeConferences N (involve N s)).flagTable := by
    rw [involve_flags, hstill.flags]
  have hp : ∀ i j, Relation.TransGen (confLink N (involve N (mixerCalculateCoefs N s))) i j ↔
      Relation.TransGen (confLink N (involve N s)) i j := by
    intro i j
    rw [confLink_congr hfl]
    exact closed_confLink hs
  refine ⟨fun i hi => ?_, fun i hi => ?_, fun i j hi hj => ?_, fun i j hi hj => ?_⟩
  · rw [ht.channel, hs.channel, involve_again N s hi]
  · rw [ht.chflags, involve_chflags, hstill.chflags]
  · by_cases h : i ≠ j ∧ Relation.TransGen (confLink N (involve N s)) i j
    · rw [ht.joined i j hi hj h.1 ((hp i j).2 h.2), hfl, hs.joined i j hi hj h.1 h.2, UInt8.or_assoc, UInt8.or_self]
    · rw [ht.same i j hi hj (by rw [hp i j]; exact h), hfl]
  · rw [ht.coefs i j hi hj, hs.coefs i j hi hj]
    apply bit_congr
    by_cases hij : i = j
    · rw [if_pos hij, if_pos hij, hfl, hs.same i i hi hi (fun h => h.1 rfl)]
    · rw [if_neg hij, if_neg hij, hp i j]

theorem conference_closure (N : Nat) (s : LiConfigTable) :
    (∀ i j, i < N → j < N → i ≠ j →
      (has ((mixerCalculateCoefs N s).flagTable i j) liFlagConference = true ↔ Relation.TransGen (confLink N s) i j)) ∧
    (∀ i, i < N → (mixerCalculateCoefs N (mixerCalculateCoefs N s)).channel i = (mixerCalculateCoefs N s).channel i) ∧
    (∀ i j, i < N → j < N →
      (mixerCalculateCoefs N (mixerCalculateCoefs N s)).flagTable i j = (mixerCalculateCoefs N s).flagTable i j ∧
      (mixerCalculateCoefs N (mixerCalculateCoefs N s)).coefTable i j &&& liCoefAll
        = (mixerCalculateCoefs N s).coefTable i j &&& liCoefAll) := by
  have ha := (closeConferences_again N s).routeOthers
  refine ⟨fun i j hi hj hne => ?_, ha.channel, fun i j hi hj => ⟨ha.flags i j hi hj, ha.coefs i j hi hj⟩⟩
  have hs := closed_involve N s
  rw [(calculate_still N s).flags, closed_flags hs hi hj, confLink_involve, involve_flags]
  constructor
  · intro h
    rcases h with h | ⟨-, h, -⟩
    · exact Relation.TransGen.single ⟨hi, hj, h⟩
    · exact h
  · intro h
    exact Or.inr ⟨hne, h, by decide⟩

end LiConfigTable

end Divas.Capi
