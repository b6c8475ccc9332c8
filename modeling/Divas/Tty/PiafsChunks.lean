/-
  Divas.Tty.PiafsChunks — the detector for 32K on the pieces of a stream.

  A run of calls is compared with one call for the whole stream. Every call ends
  (`calls_terminate`); a run whose pieces all continue reads inside its pieces
  (`calls_inside`) and detects where the one call does (`calls_position`).

  `piafs_detector_process` copies its data to `buf` first and does not look at their length:
  it writes inside `buf` just if there are 4096 of them at most (`writesInside_iff`).
-/

import Divas.Lib.Loop
import Divas.Lib.Run
import Divas.Tty.PiafsFollow

namespace Divas.Tty.Piafs

open Divas.Lib.Turns Divas.Lib.Run Divas.Lib.Loop PiafsFrm

/-! ## The runs -/

/-- The state, the number of bytes given to it, and where in the stream a frame was detected. -/
structure Listener where
  s : PiafsFrm
  given : Nat
  detectedAt : Option Nat

/-- Turns that are enough for `n` bytes. -/
def enough (n : Nat) : Nat := 8 * n + 81

/-- The loop of the call for the piece. -/
def call (s : PiafsFrm) (piece : List Octet) : PiafsFrm × Cursor × Bool :=
  decodeLoop (fun i => piece.getD i 0) piece.length (enough piece.length) s ⟨0, piece.length, 0⟩

/-- The next piece, as long as nothing is detected. -/
def Listener.feed (l : Listener) (piece : List Octet) : Listener :=
  if l.detectedAt.isSome then l
  else
    let (s, _, detected) := fr2PiafsFramingDecode (enough piece.length) l.s (fun i => piece.getD i 0) piece.length
    ⟨s, l.given + piece.length, if detected then some (l.given + (call l.s piece).2.1.readIndex) else none⟩

/-- The pieces, from the initialization for 32K on. -/
def listening (pieces : List (List Octet)) : Listener := run Listener.feed ⟨initPiafsProcess true, 0, none⟩ pieces

/-- Every piece but the first one continues. -/
def AllContinue : List (List Octet) → Prop
  | [] => True
  | first :: rest => Along Listener.feed (fun l piece => l.detectedAt.isSome = true ∨ l.s.Continues piece)
    (listening [first]) rest

instance : (pieces : List (List Octet)) → Decidable (AllContinue pieces)
  | [] => inferInstanceAs (Decidable True)
  | _ :: _ => Along.decidable _ _ _

/-! ## The end of a piece -/

section Call

variable {D : Nat → Octet} {N o : Nat} {piece : List Octet} {s s' : PiafsFrm} {c c' : Cursor} {t : PiafsFrm × Cursor}

theorem PiafsFrm.Valid.wait (h : Valid s) (x : Octet) : Valid { s with bytePending := x, isThereABytePending := true } :=
  ⟨h.on, h.previous.imp_right fun hf => ⟨hf.state, hf.previous, hf.count⟩, h.outside, h.data, h.crc⟩

theorem loop_ends (hv : Valid s) (data : Nat → Octet) (n : Nat) :
    Ends (turn data n) (s, ⟨0, n, 0⟩) (decodeLoop data n (enough n) s ⟨0, n, 0⟩) := by
  refine decodeLoop_ends data n (enough n) hv (Nat.zero_add n) ?_
  have := weight_le hv
  show 8 * n + s.weight < enough n
  unfold enough
  omega

/-- All bytes are used, unless a frame is detected. -/
theorem loop_rest (hv : Valid s) (data : Nat → Octet) (n : Nat) (hd : (decodeLoop data n (enough n) s ⟨0, n, 0⟩).2.2 = false) :
    Valid (decodeLoop data n (enough n) s ⟨0, n, 0⟩).1 ∧ (decodeLoop data n (enough n) s ⟨0, n, 0⟩).2.1.nbBytes = 0 := by
  obtain ⟨u, hreach, hlast⟩ := (loop_ends hv data n).exists_last
  have hu : Valid u.1 ∧ u.2.readIndex + u.2.nbBytes = n :=
    hreach.invariant (I := fun u => Valid u.1 ∧ u.2.readIndex + u.2.nbBytes = n)
      (fun a b ht h => ⟨(turn_valid h.1 h.2 ht).1, (turn_valid h.1 h.2 ht).2.1⟩) ⟨hv, Nat.zero_add n⟩
  generalize decodeLoop data n (enough n) s ⟨0, n, 0⟩ = r at hd hlast ⊢
  obtain ⟨s', c', detected⟩ := r
  rcases turn_last hu.1.on hlast with ⟨hn, rfl, rfl, -⟩ | ⟨hn, rfl, rfl, -⟩ | ⟨-, -, rfl, -⟩
  · exact ⟨hu.1, hn⟩
  · refine ⟨hu.1.wait _, ?_⟩
    show u.2.nbBytes - 1 = 0
    omega
  · cases hd

theorem Follows.no_byte {u : PiafsFrm × Cursor} (h : Follows D N o piece u t) (hn : u.2.nbBytes = 1) :
    u.1.isThereABytePending = false := by
  rcases h.part with ha | hf | hover
  · exact ha.left
  · by_contra hp
    exact hf.left ⟨Bool.not_eq_false _ ▸ hp, hn⟩
  · exact hover.left

/-- The last turn of a call: a frame is detected in the call for the stream too, or the next piece follows. -/
theorem Follows.last {detected : Bool} (h : Follows D N o piece (s, c) t)
    (hdata : ∀ i < piece.length, D (o + i) = bytesOf piece i)
    (hle : o + piece.length ≤ N) (ht : PiafsFrm.turn (bytesOf piece) piece.length (s, c) = .inr (s', c', detected)) :
    (detected = true ∧ ∃ r, PiafsFrm.turn D N t = .inr r ∧ r.2.2 = true ∧ r.2.1.readIndex = o + c'.readIndex) ∨
      (detected = false ∧ Valid s' ∧ Kept D N (o + piece.length) s' t ∧
        (s'.Fresh → s'.isThereABytePending = false → t.2.preSyncIndex = o + piece.length)) := by
  have hv : Valid s := h.inside.valid
  have hsum : c.readIndex + c.nbBytes = piece.length := h.inside.sum
  have hkept : Kept D N (o + c.readIndex) s t := h.kept
  rcases turn_last hv.on ht with ⟨hn, rfl, rfl, rfl⟩ | ⟨hn, rfl, rfl, rfl⟩ | ⟨hn, hs, rfl, rfl, hd⟩
  · have hread : c'.readIndex = piece.length := by omega
    refine Or.inr ⟨rfl, hv, by rwa [hread] at hkept, ?_⟩
    intro hf _
    rcases h.part with ha | hfr | hover
    · obtain ⟨h1, -, -⟩ := ha.fresh hf
      rw [ha.place, h1, hread]
    · rcases hfr.state with hs | hs
      · cases hs.symm.trans hf.state
      · cases hs.symm.trans hf.state
    · cases hover.previous.symm.trans hf.previous
  · have hp : s.isThereABytePending = false := h.no_byte hn
    have hindex := hkept.index
    rw [waiting_none hp] at hindex
    refine Or.inr ⟨rfl, hv.wait _, ⟨hkept.state, ?_, hkept.sum, fun _ => ?_⟩, fun _ hf => nomatch hf⟩
    · show t.2.readIndex + 1 = o + piece.length
      have hindex : t.2.readIndex = o + c.readIndex := hindex
      omega
    · show bytesOf piece c.readIndex = D (o + piece.length - 1)
      rw [show o + piece.length - 1 = o + c.readIndex by omega]
      exact (hdata _ (by omega)).symm
  · left
    have hshift := hkept.shifted hdata hn hsum
    obtain ⟨hn', hread, -⟩ := hkept.advance hle hn hsum
    obtain ⟨t₁, t₂⟩ := t
    have hon : t₁.rateAdaptationEnable = true := by
      have := hkept.state
      dsimp only at this
      rw [this]
      exact hv.on
    rw [turn_some hon hn', hshift]
    have hrx : (s.shifted (bytesOf piece) c.readIndex).2.settled.rxState = .crc := hs
    rw [hrx]
    dsimp only
    rw [settled_crcTurn, hd, if_pos rfl]
    exact ⟨rfl, _, rfl, rfl, hread⟩

/-- The call for a piece, beside the turns of the call for the stream. -/
theorem call_spec (h : Follows D N o piece (s, ⟨0, piece.length, 0⟩) t) (hdata : ∀ i < piece.length, D (o + i) = bytesOf piece i)
    (hle : o + piece.length ≤ N) :
    ((call s piece).2.2 = true ∧ ∃ r, Ends (turn D N) t r ∧ r.2.2 = true ∧ r.2.1.readIndex = o + (call s piece).2.1.readIndex) ∨
      ((call s piece).2.2 = false ∧ Valid (call s piece).1 ∧ ∃ t', Reaches (turn D N) t t' ∧
        Kept D N (o + piece.length) (call s piece).1 t' ∧
        ((call s piece).1.Fresh → (call s piece).1.isThereABytePending = false → t'.2.preSyncIndex = o + piece.length)) := by
  have hends : Ends (turn (bytesOf piece) piece.length) (s, ⟨0, piece.length, 0⟩) (call s piece) :=
    loop_ends h.inside.valid (bytesOf piece) piece.length
  obtain ⟨u, hreach, hlast⟩ := hends.exists_last
  obtain ⟨t', hreach', hfollows⟩ := hreach.simulate (fun a b a' ht hR => hR.turn hdata hle ht) h
  generalize call s piece = r at hlast ⊢
  obtain ⟨s', c', detected⟩ := r
  rcases hfollows.last hdata hle hlast with ⟨hd, r, hr, hr2, hr3⟩ | ⟨hd, hv', hkept, hfresh⟩
  · exact Or.inl ⟨hd, r, hreach'.ends (.last hr), hr2, hr3⟩
  · exact Or.inr ⟨hd, hv', t', hreach', hkept, hfresh⟩

end Call

/-! ## The run -/

/-- The end of `Fr2PiafsFramingDecode`. -/
def afterCall (s : PiafsFrm) : PiafsFrm :=
  if s.rxState ≠ .data ∧ s.rxState ≠ .crc ∧ s.previousRxState = .preHunt then { s with rxState := .preHunt } else s

theorem feed_none {l : Listener} (hl : l.detectedAt = none) (piece : List Octet) :
    l.feed piece =
      if (call l.s piece).2.2 then ⟨(call l.s piece).1, l.given + piece.length, some (l.given + (call l.s piece).2.1.readIndex)⟩
      else ⟨afterCall (call l.s piece).1, l.given + piece.length, none⟩ := by
  unfold Listener.feed fr2PiafsFramingDecode
  rw [hl]
  change (if _ then _ else _) = _
  rw [if_neg (by simp)]
  have hcall : decodeLoop (fun i => piece.getD i 0) piece.length (enough piece.length) l.s ⟨0, piece.length, 0⟩
      = call l.s piece := rfl
  rw [hcall]
  generalize call l.s piece = r
  obtain ⟨s', c', detected⟩ := r
  cases detected with
  | true => rfl
  | false => rfl

theorem run_detected {l : Listener} (hl : l.detectedAt.isSome = true) (pieces : List (List Octet)) :
    run Listener.feed l pieces = l := by
  induction pieces with
  | nil => rfl
  | cons piece pieces ih =>
    have hfeed : l.feed piece = l := by
      unfold Listener.feed
      rw [if_pos hl]
    rw [run_cons, hfeed, ih]

section Run

variable {D : Nat → Octet} {N o : Nat} {piece : List Octet} {s : PiafsFrm} {t : PiafsFrm × Cursor}

theorem PiafsFrm.Valid.afterCall (h : Valid s) : Valid (afterCall s) := by
  unfold Piafs.afterCall
  split
  case isFalse => exact h
  case isTrue hs =>
    have h0 : s.idxInRxFrame = 0 := by
      refine h.outside ?_
      cases hx : s.rxState with
      | preHunt => exact Or.inl rfl
      | hunt => exact Or.inr rfl
      | data => exact absurd hx hs.1
      | crc => exact absurd hx hs.2.1
    exact ⟨h.on, Or.inl hs.2.2, fun _ => h0, nofun, nofun⟩

/-- A piece that continues does not come behind a reset. -/
theorem PiafsFrm.Continues.afterCall_eq (h : (afterCall s).Continues piece) : afterCall s = s := by
  unfold afterCall at h ⊢
  split
  case isFalse => rfl
  case isTrue hs =>
    rw [if_pos hs] at h
    rcases h with ⟨-, hp, -⟩ | ⟨hd | hd, -⟩
    · have hp : s.previousRxState = .hunt := hp
      rw [hs.2.2] at hp
      cases hp
    · cases hd
    · cases hd

theorem PiafsFrm.Continues.placed (h : s.Continues piece) : Placed s ⟨0, piece.length, 0⟩ := by
  refine ⟨?_, Or.inl (Nat.le_refl _)⟩
  intro hs
  rcases h with ⟨-, -, -, hp, -⟩ | ⟨hd | hd, -⟩
  · exact hp
  · cases hs.symm.trans hd
  · cases hs.symm.trans hd

/-- The first turn of a piece that continues. -/
theorem PiafsFrm.Continues.follows (h : s.Continues piece) (hv : Valid s) (hkept : Kept D N o s t)
    (hfresh : s.Fresh → s.isThereABytePending = false → t.2.preSyncIndex = o) :
      Follows D N o piece (s, ⟨0, piece.length, 0⟩) t := by
  refine ⟨⟨hv, Nat.zero_add _, h.placed⟩, hkept, ?_⟩
  rcases h with ⟨hs, hp, hc, hleft, hno⟩ | ⟨hs, hleft, hor⟩
  · refine Or.inl ⟨hleft, hfresh ⟨hs, hp, hc⟩ hleft, fun _ => ⟨rfl, rfl, Or.inr hno⟩, fun hp' => ?_⟩
    rw [hp] at hp'
    cases hp'
  · exact Or.inr (Or.inl ⟨hs, hleft, hor⟩)

theorem bytesOf_append (as bs : List Octet) (i : Nat) :
    (i < as.length → bytesOf (as ++ bs) i = bytesOf as i) ∧ bytesOf (as ++ bs) (as.length + i) = bytesOf bs i := by
  unfold bytesOf
  rw [List.getD_eq_getElem?_getD, List.getD_eq_getElem?_getD, List.getD_eq_getElem?_getD, List.getD_eq_getElem?_getD]
  refine ⟨fun h => by rw [List.getElem?_append_left h], ?_⟩
  rw [List.getElem?_append_right (Nat.le_add_right _ _), Nat.add_sub_cancel_left]

/-- All bytes are given: the call for the stream ends. -/
theorem Kept.ends (h : Kept D N N s t) (hv : Valid s) : ∃ r, Ends (PiafsFrm.turn D N) t r ∧ r.2.2 = false := by
  obtain ⟨t₁, t₂⟩ := t
  have hon : t₁.rateAdaptationEnable = true := by
    have := h.state
    dsimp only at this
    rw [this]
    exact hv.on
  have hindex := h.index
  have hsum := h.sum
  have htaken := waiting_taken s
  obtain ⟨hk, -⟩ := s.taken_bounds
  dsimp only at hindex hsum
  by_cases h0 : t₂.nbBytes = 0
  · refine ⟨(t₁, t₂, false), .last ?_, rfl⟩
    unfold PiafsFrm.turn
    rw [if_pos h0]
  · refine ⟨({ t₁ with bytePending := D t₂.readIndex, isThereABytePending := true }, t₂.advance 1, false), .last ?_, rfl⟩
    unfold PiafsFrm.turn
    dsimp only
    rw [if_neg h0, nextByte_none D hon (by omega)]

/-- The pieces behind a call: all that is left of the stream. -/
theorem run_spec (rest : List (List Octet)) {o : Nat} {s : PiafsFrm} {t : PiafsFrm × Cursor} (hv : Valid s)
    (hkept : Kept D N o s t)
    (hfresh : s.Fresh → s.isThereABytePending = false → t.2.preSyncIndex = o)
    (hdata : ∀ i < rest.flatten.length, D (o + i) = bytesOf rest.flatten i) (hN : o + rest.flatten.length = N)
    (h : Along Listener.feed (fun l piece => l.detectedAt.isSome = true ∨ l.s.Continues piece) ⟨afterCall s, o, none⟩ rest) :
    ∃ r, Ends (turn D N) t r ∧
      (run Listener.feed ⟨afterCall s, o, none⟩ rest).detectedAt = if r.2.2 then some r.2.1.readIndex else none := by
  induction rest generalizing o s t with
  | nil =>
    have hN : o = N := hN
    rw [hN] at hkept
    obtain ⟨r, hr, hno⟩ := hkept.ends hv
    refine ⟨r, hr, ?_⟩
    rw [hno]
    rfl
  | cons piece rest ih =>
    obtain ⟨hc, hrest⟩ := h
    have hc : (afterCall s).Continues piece := hc.resolve_left Bool.false_ne_true
    rw [run_cons]
    have hsame := hc.afterCall_eq
    rw [hsame] at hc hrest ⊢
    have hlen : (piece :: rest).flatten.length = piece.length + rest.flatten.length := by
      rw [List.flatten_cons, List.length_append]
    have hpiece : ∀ i < piece.length, D (o + i) = bytesOf piece i := by
      intro i hi
      rw [hdata i (by omega), List.flatten_cons]
      exact (bytesOf_append piece rest.flatten i).1 hi
    have hnext : ∀ i < rest.flatten.length, D (o + piece.length + i) = bytesOf rest.flatten i := by
      intro i hi
      rw [Nat.add_assoc, hdata _ (by omega), List.flatten_cons]
      exact (bytesOf_append piece rest.flatten i).2
    rw [feed_none rfl] at hrest ⊢
    dsimp only at hrest ⊢
    rcases call_spec (hc.follows hv hkept hfresh) hpiece (by omega) with ⟨hd, r, hr, hr2, hr3⟩
      | ⟨hd, hv', t', hreach, hkept', hfresh'⟩
    · refine ⟨r, hr, ?_⟩
      rw [hd, if_pos rfl, run_detected rfl, hr2, hr3]
      rfl
    · rw [hd, if_neg Bool.false_ne_true] at hrest ⊢
      obtain ⟨r, hr, heq⟩ := ih hv' hkept' hfresh' hnext (by omega) hrest
      exact ⟨r, hreach.ends hr, heq⟩

end Run

/-! ## The calls of a run -/

/-- A condition on every call of the run. -/
def Calls (P : PiafsFrm → List Octet → Prop) (pieces : List (List Octet)) : Prop :=
  Along Listener.feed (fun l piece => l.detectedAt.isSome = true ∨ P l.s piece) ⟨initPiafsProcess true, 0, none⟩ pieces

/-- The loop of the call is left. -/
def Terminates (s : PiafsFrm) (piece : List Octet) : Prop :=
  ∃ r, Ends (turn (bytesOf piece) piece.length) (s, ⟨0, piece.length, 0⟩) r

/-- No turn of the call reads behind the piece. -/
def ReadsInside (s : PiafsFrm) (piece : List Octet) : Prop :=
  ∀ u, Reaches (turn (bytesOf piece) piece.length) (s, ⟨0, piece.length, 0⟩) u → ∀ i ∈ turnReads u.1 u.2, i < piece.length

/-- The calls for the pieces do what one call for the stream does. -/
structure Independent (pieces : List (List Octet)) : Prop where
  terminates : Calls Terminates pieces
  inside : Calls ReadsInside pieces
  position : (listening pieces).detectedAt = (listening [pieces.flatten]).detectedAt

section Calls

variable {s : PiafsFrm} {piece : List Octet}

theorem call_ends (hv : Valid s) (piece : List Octet) :
    Ends (turn (bytesOf piece) piece.length) (s, ⟨0, piece.length, 0⟩) (call s piece) := loop_ends hv (bytesOf piece) piece.length

theorem call_valid (hv : Valid s) (hd : (call s piece).2.2 = false) : Valid (call s piece).1 :=
  (loop_rest hv (bytesOf piece) piece.length hd).1

/-- The state is one that a run can come to, or a frame is detected. -/
def Listener.Valid (l : Listener) : Prop := l.detectedAt.isSome = true ∨ l.detectedAt = none ∧ PiafsFrm.Valid l.s

theorem Listener.Valid.feed {l : Listener} (h : l.Valid) (piece : List Octet) : (l.feed piece).Valid := by
  rcases h with hd | ⟨hd, hv⟩
  · have hsame : l.feed piece = l := run_detected hd [piece]
    rw [hsame]
    exact Or.inl hd
  · rw [feed_none hd]
    cases hc : (call l.s piece).2.2 with
    | true => exact Or.inl rfl
    | false => exact Or.inr ⟨rfl, (call_valid hv hc).afterCall⟩

theorem calls_terminate (pieces : List (List Octet)) : Calls Terminates pieces := by
  refine (along_trivial Listener.feed _ pieces).of Listener.feed (I := Listener.Valid) ?_ (Or.inr ⟨rfl, valid_init⟩)
  intro l piece hl _
  refine ⟨?_, hl.feed piece⟩
  rcases hl with hd | ⟨-, hv⟩
  · exact Or.inl hd
  · exact Or.inr ⟨_, call_ends hv piece⟩

theorem readsInside_of_placed (hv : PiafsFrm.Valid s) (hp : Placed s ⟨0, piece.length, 0⟩) : ReadsInside s piece := by
  intro u hu
  have hin : Inside piece.length u := hu.invariant (fun a b ht h => h.turn ht) ⟨hv, Nat.zero_add _, hp⟩
  exact hin.placed.reads hin.sum

theorem calls_inside (pieces : List (List Octet)) (h : AllContinue pieces) : Calls ReadsInside pieces := by
  cases pieces with
  | nil => trivial
  | cons first rest =>
    refine ⟨Or.inr (readsInside_of_placed valid_init ⟨fun _ => rfl, Or.inl (Nat.le_refl _)⟩), ?_⟩
    refine Along.of Listener.feed (I := Listener.Valid) ?_ ?_ h
    · intro l piece hl hc
      refine ⟨?_, hl.feed piece⟩
      rcases hl with hd | ⟨-, hv⟩
      · exact Or.inl hd
      · exact hc.imp_right fun hc => readsInside_of_placed hv hc.placed
    · exact Listener.Valid.feed (Or.inr ⟨rfl, valid_init⟩) first

theorem calls_position (pieces : List (List Octet)) (h : AllContinue pieces) :
    (listening pieces).detectedAt = (listening [pieces.flatten]).detectedAt := by
  cases pieces with
  | nil => rfl
  | cons first rest =>
    have hkept : Kept (bytesOf (first :: rest).flatten) (first :: rest).flatten.length 0 (initPiafsProcess true)
        (initPiafsProcess true, ⟨0, (first :: rest).flatten.length, 0⟩) := ⟨rfl, rfl, Nat.zero_add _, nofun⟩
    have hfollows : Follows (bytesOf (first :: rest).flatten) (first :: rest).flatten.length 0 first
        (initPiafsProcess true, ⟨0, first.length, 0⟩) (initPiafsProcess true, ⟨0, (first :: rest).flatten.length, 0⟩) :=
      ⟨⟨valid_init, Nat.zero_add _, fun _ => rfl, Or.inl (Nat.le_refl _)⟩, hkept,
        Or.inl ⟨rfl, rfl, fun _ => ⟨rfl, rfl, Or.inl rfl⟩, nofun⟩⟩
    have hstream : Ends (turn (bytesOf (first :: rest).flatten) (first :: rest).flatten.length)
        (initPiafsProcess true, ⟨0, (first :: rest).flatten.length, 0⟩) (call (initPiafsProcess true) (first :: rest).flatten) :=
      call_ends valid_init _
    have hone : (listening [(first :: rest).flatten]).detectedAt =
        if (call (initPiafsProcess true) (first :: rest).flatten).2.2 then
          some (call (initPiafsProcess true) (first :: rest).flatten).2.1.readIndex else none := by
      unfold listening
      rw [run_cons, run_nil, feed_none rfl]
      simp only [Nat.zero_add]
      split
      · rfl
      · rfl
    have hlen : (first :: rest).flatten.length = first.length + rest.flatten.length := by
      rw [List.flatten_cons, List.length_append]
    have hpiece : ∀ i < first.length, bytesOf (first :: rest).flatten (0 + i) = bytesOf first i := by
      intro i hi
      rw [Nat.zero_add, List.flatten_cons]
      exact (bytesOf_append first rest.flatten i).1 hi
    have hnext : ∀ i < rest.flatten.length, bytesOf (first :: rest).flatten (0 + first.length + i) = bytesOf rest.flatten i := by
      intro i _
      rw [Nat.zero_add, List.flatten_cons]
      exact (bytesOf_append first rest.flatten i).2
    have hrest : Along Listener.feed (fun l piece => l.detectedAt.isSome = true ∨ l.s.Continues piece)
        (listening [first]) rest := h
    unfold listening at hrest hone ⊢
    rw [run_cons, run_nil] at hrest
    rw [hone, run_cons]
    rw [feed_none rfl] at hrest ⊢
    dsimp only at hrest ⊢
    rcases call_spec hfollows hpiece (by omega) with ⟨hd, r, hr, hr2, hr3⟩ | ⟨hd, hv', t', hreach, hkept', hfresh'⟩
    · rw [hd, if_pos rfl, run_detected rfl, ← hr.unique hstream, hr2, hr3]
      rfl
    · rw [hd, if_neg Bool.false_ne_true] at hrest ⊢
      obtain ⟨r, hr, heq⟩ := run_spec rest hv' hkept' hfresh' hnext (by omega) hrest
      rw [Nat.zero_add] at heq
      rw [Nat.zero_add, heq, (hreach.ends hr).unique hstream]

end Calls

/-! ## `piafs_detector_process` -/

/-- The bits of a byte the other way round. -/
def invertByteTable : List Octet :=
  [0x00, 0x80, 0x40, 0xc0, 0x20, 0xa0, 0x60, 0xe0, 0x10, 0x90, 0x50, 0xd0, 0x30, 0xb0, 0x70, 0xf0,
   0x08, 0x88, 0x48, 0xc8, 0x28, 0xa8, 0x68, 0xe8, 0x18, 0x98, 0x58, 0xd8, 0x38, 0xb8, 0x78, 0xf8,
   0x04, 0x84, 0x44, 0xc4, 0x24, 0xa4, 0x64, 0xe4, 0x14, 0x94, 0x54, 0xd4, 0x34, 0xb4, 0x74, 0xf4,
   0x0c, 0x8c, 0x4c, 0xcc, 0x2c, 0xac, 0x6c, 0xec, 0x1c, 0x9c, 0x5c, 0xdc, 0x3c, 0xbc, 0x7c, 0xfc,
   0x02, 0x82, 0x42, 0xc2, 0x22, 0xa2, 0x62, 0xe2, 0x12, 0x92, 0x52, 0xd2, 0x32, 0xb2, 0x72, 0xf2,
   0x0a, 0x8a, 0x4a, 0xca, 0x2a, 0xaa, 0x6a, 0xea, 0x1a, 0x9a, 0x5a, 0xda, 0x3a, 0xba, 0x7a, 0xfa,
   0x06, 0x86, 0x46, 0xc6, 0x26, 0xa6, 0x66, 0xe6, 0x16, 0x96, 0x56, 0xd6, 0x36, 0xb6, 0x76, 0xf6,
   0x0e, 0x8e, 0x4e, 0xce, 0x2e, 0xae, 0x6e, 0xee, 0x1e, 0x9e, 0x5e, 0xde, 0x3e, 0xbe, 0x7e, 0xfe,
   0x01, 0x81, 0x41, 0xc1, 0x21, 0xa1, 0x61, 0xe1, 0x11, 0x91, 0x51, 0xd1, 0x31, 0xb1, 0x71, 0xf1,
   0x09, 0x89, 0x49, 0xc9, 0x29, 0xa9, 0x69, 0xe9, 0x19, 0x99, 0x59, 0xd9, 0x39, 0xb9, 0x79, 0xf9,
   0x05, 0x85, 0x45, 0xc5, 0x25, 0xa5, 0x65, 0xe5, 0x15, 0x95, 0x55, 0xd5, 0x35, 0xb5, 0x75, 0xf5,
   0x0d, 0x8d, 0x4d, 0xcd, 0x2d, 0xad, 0x6d, 0xed, 0x1d, 0x9d, 0x5d, 0xdd, 0x3d, 0xbd, 0x7d, 0xfd,
   0x03, 0x83, 0x43, 0xc3, 0x23, 0xa3, 0x63, 0xe3, 0x13, 0x93, 0x53, 0xd3, 0x33, 0xb3, 0x73, 0xf3,
   0x0b, 0x8b, 0x4b, 0xcb, 0x2b, 0xab, 0x6b, 0xeb, 0x1b, 0x9b, 0x5b, 0xdb, 0x3b, 0xbb, 0x7b, 0xfb,
   0x07, 0x87, 0x47, 0xc7, 0x27, 0xa7, 0x67, 0xe7, 0x17, 0x97, 0x57, 0xd7, 0x37, 0xb7, 0x77, 0xf7,
   0x0f, 0x8f, 0x4f, 0xcf, 0x2f, 0xaf, 0x6f, 0xef, 0x1f, 0x9f, 0x5f, 0xdf, 0x3f, 0xbf, 0x7f, 0xff]

/-- `buf`, and the places of it that were written. -/
structure Buf where
  bytes : Nat → Octet
  written : List Nat

def Buf.put (b : Buf) (i : Nat) (x : Octet) : Buf := ⟨Function.update b.bytes i x, b.written ++ [i]⟩

def bufSize : Nat := 4096

/-- The protocol that is detected. -/
inductive Detected where
  | piafs64KVar
  | piafs32K
  deriving DecidableEq, Repr

/-- The detectors on what is left in `buf`. -/
def detectLoop : Nat → PiafsFrm → PiafsFrm → (Nat → Octet) → Nat → PiafsFrm × PiafsFrm × Option Detected
  | 0, d64, d32, _, _ => (d64, d32, none)
  | fuel + 1, d64, d32, p, length =>
    if length = 0 then (d64, d32, none)
    else
      let (d64, _, detected) := fr2PiafsFramingDecode (enough length) d64 p length
      if detected then (d64, d32, some .piafs64KVar)
      else
        let (d32, consumed, detected) := fr2PiafsFramingDecode (enough length) d32 p length
        if detected then (d64, d32, some .piafs32K)
        else detectLoop fuel d64 d32 (fun i => p (consumed + i)) (length - min length consumed)

/-- The bytes are copied to `buf`. -/
def copyInverted (b : Buf) (pData : Nat → Octet) (length : Nat) : Buf :=
  forTo length (fun i b => b.put i (invertByteTable.getD (pData i).toNat 0)) b

/-- The detectors, what is detected, and `buf`. -/
def piafsDetectorProcess (d64 d32 : PiafsFrm) (b : Buf) (pData : Nat → Octet) (length : Nat) :
    (PiafsFrm × PiafsFrm × Option Detected) × Buf :=
  let b := copyInverted b pData length
  (detectLoop length d64 d32 b.bytes length, b)

theorem consumed_all {s : PiafsFrm} (hv : PiafsFrm.Valid s) (data : Nat → Octet) (n : Nat)
    (hd : (fr2PiafsFramingDecode (enough n) s data n).2.2 = false) : (fr2PiafsFramingDecode (enough n) s data n).2.1 = n := by
  have hrest := loop_rest hv data n
  unfold fr2PiafsFramingDecode at hd ⊢
  generalize decodeLoop data n (enough n) s ⟨0, n, 0⟩ = r at hd hrest ⊢
  obtain ⟨s', c', detected⟩ := r
  cases detected with
  | true => cases hd
  | false =>
    show n - c'.nbBytes = n
    rw [(hrest rfl).2, Nat.sub_zero]

/-- All bytes are used in one pass. -/
theorem detectLoop_once (fuel : Nat) (d64 : PiafsFrm) {d32 : PiafsFrm} (hv : PiafsFrm.Valid d32)
    (p : Nat → Octet) (length : Nat) :
    detectLoop (fuel + 1) d64 d32 p length = detectLoop 1 d64 d32 p length := by
  have hused := consumed_all hv p length
  rw [detectLoop, detectLoop]
  generalize fr2PiafsFramingDecode (enough length) d64 p length = r64
  generalize fr2PiafsFramingDecode (enough length) d32 p length = r32 at hused ⊢
  obtain ⟨s64, -, found64⟩ := r64
  obtain ⟨s32, consumed, found32⟩ := r32
  dsimp only at hused ⊢
  cases found32 with
  | true => rfl
  | false =>
    have hzero : length - min length consumed = 0 := by
      rw [hused rfl, Nat.min_self, Nat.sub_self]
    rw [hzero]
    cases fuel with
    | zero => rfl
    | succ fuel => rfl

/-- Every call with this length writes inside `buf`. -/
def WritesInside (length : Nat) : Prop :=
  ∀ (d64 d32 : PiafsFrm) (bytes pData : Nat → Octet), ∀ i ∈ (piafsDetectorProcess d64 d32 ⟨bytes, []⟩ pData length).2.written,
    i < bufSize

theorem copyInverted_written (b : Buf) (pData : Nat → Octet) (length : Nat) :
    (copyInverted b pData length).written = b.written ++ List.range length := by
  unfold copyInverted
  induction length with
  | zero => simp
  | succ n ih =>
    rw [forTo_succ, List.range_succ, ← List.append_assoc, ← ih]
    rfl

/-- The length is not looked at. -/
theorem writesInside_iff (length : Nat) : WritesInside length ↔ length ≤ bufSize := by
  unfold WritesInside piafsDetectorProcess
  simp only [copyInverted_written, List.nil_append, List.mem_range]
  constructor
  · intro h
    by_contra hlt
    exact absurd (h (initPiafsProcess false) (initPiafsProcess true) (fun _ => 0) (fun _ => 0) bufSize (by omega)) (by omega)
  · intro hle _ _ _ _ i hi
    omega

/-! ## The detector and the pieces of a stream -/

/-- Every call ends, in the first turn of its loop. The calls for the pieces do what one call for the stream
    does if every piece but the first continues, and `buf` is not left if the length is at most its own. -/
theorem piafs_chunking (pieces : List (List Octet)) (length : Nat) :
    Calls Terminates pieces ∧ (AllContinue pieces → Independent pieces) ∧ (WritesInside length ↔ length ≤ bufSize) ∧
      ∀ (turns : Nat) (d64 d32 : PiafsFrm) (p : Nat → Octet) (n : Nat), PiafsFrm.Valid d32 →
        detectLoop (turns + 1) d64 d32 p n = detectLoop 1 d64 d32 p n :=
  ⟨calls_terminate pieces, fun h => ⟨calls_terminate pieces, calls_inside pieces h, calls_position pieces h⟩,
    writesInside_iff length,
    fun turns d64 _ p n hv => detectLoop_once turns d64 hv p n⟩

/-- A frame of zeros, four bits in a byte. -/
def zeroFrame32 : List Octet :=
  List.replicate 6 0x00 ++ [0x50, 0x00, 0xe0, 0xf0, 0x20, 0x90, 0x90, 0x30] ++ List.replicate 138 0x00 ++
    [0x00, 0x80, 0x50, 0xc0, 0x50, 0x60, 0xa0, 0xb0]

/-- Cut inside the frame, at an odd place, the frame is detected with its last byte. -/
theorem piafs_chunking_inside :
    (listening [zeroFrame32.take 31, zeroFrame32.drop 31]).detectedAt = some 160 ∧ WritesInside 160 := by
  have h := piafs_chunking [zeroFrame32.take 31, zeroFrame32.drop 31] 160
  have hcontinue : AllContinue [zeroFrame32.take 31, zeroFrame32.drop 31] := by decide +kernel
  have hflat : [zeroFrame32.take 31, zeroFrame32.drop 31].flatten = zeroFrame32 := by decide +kernel
  have hpos := (h.2.1 hcontinue).position
  rw [hflat] at hpos
  exact ⟨hpos.trans (by decide +kernel), h.2.2.1.mpr (by decide)⟩

/-- Cut between the pre-synchronisation and the pattern, the frame is not detected; and 4097 bytes do not fit in `buf`. -/
theorem piafs_cut_missed :
    (¬ ∀ pieces : List (List Octet), (∀ c ∈ pieces, 1 ≤ c.length ∧ c.length ≤ 4096) → Independent pieces) ∧
      ¬ ∀ length ≤ 0xffff, WritesInside length := by
  constructor
  · intro h
    have hpos := (h [zeroFrame32.take 10, zeroFrame32.drop 10] (by decide +kernel)).position
    have hmissed : (listening [zeroFrame32.take 10, zeroFrame32.drop 10]).detectedAt = none := by decide +kernel
    have hfound : (listening [[zeroFrame32.take 10, zeroFrame32.drop 10].flatten]).detectedAt = some 160 := by decide +kernel
    rw [hmissed, hfound] at hpos
    cases hpos
  · intro h
    have hle := (writesInside_iff 4097).mp (h 4097 (by decide))
    exact absurd hle (by decide)

end Divas.Tty.Piafs
