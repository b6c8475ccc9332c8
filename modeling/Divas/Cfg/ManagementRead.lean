/-
  Divas.Cfg.ManagementRead — the variables that are read (cfglib.c).

  `entries` is what the management information asks for from an offset on: the name, or the
  names of the entries of the script. `enumerated` is a name with the enumeration number in
  the place of every `@`. `sentName` is the name that is sent: only the first `@` is
  replaced, and only behind another character, and the length is one byte.

  Proved:
  - the name that is sent is the enumerated one if and only if there is no `@` that stays,
    and it has up to 255 bytes (`sentName_eq_iff`);
  - a read request is for the entry behind the offset, and keeps to its buffers
    (`createReadReq_entry`, `createReadReq_none`);
  - requests that are repeated visit the entries of a script, in their order, each once, if
    and only if every entry is sent as it is enumerated and has not 247 bytes
    (`visits_iff`): for 247 bytes the length that is returned is 0.
-/

import Mathlib.Data.List.TakeWhile
import Divas.Cfg.ManagementIfc
import Divas.Cfg.UpdateResultPrint

namespace Divas.Cfg

open Divas.Lib Bytes Checks Print

/-- A section with management information. -/
structure ManagedVariable where
  sec : Tlie
  info : List UInt8
  stored : sec.content.bytesOf Vie.managementInfo = some info
  short : info.length ≤ 255

/-! ## The entries -/

/-- The names of the entries, as long as they are well formed. -/
def scriptNames : List UInt8 → List (List UInt8)
  | c :: d :: kind :: rest =>
    let n := entryLength c d
    if 2 ≤ n ∧ n ≤ rest.length + 1 ∧ kind ∈ ascii "EW" then rest.take (n - 1) :: scriptNames (rest.drop (n - 1)) else []
  | _ => []
termination_by bs => bs.length
decreasing_by
  simp only [List.length_cons, List.length_drop]
  omega

/-- What the management information asks for from an offset on. -/
def entries (info : List UInt8) (offset : Nat) : List (List UInt8) :=
  if info.head? = some slashChar then scriptNames (info.drop (offset + 1)) else [info]

theorem scriptNames_short {bs : List UInt8} (h : bs.length ≤ 2) : scriptNames bs = [] := by
  rcases bs with - | ⟨c, - | ⟨d, - | ⟨kind, rest⟩⟩⟩
  · rw [scriptNames]; simp
  · rw [scriptNames]; simp
  · rw [scriptNames]; simp
  · simp at h

theorem scriptNames_length {bs name : List UInt8} {rest : List (List UInt8)} (h : scriptNames bs = name :: rest) :
    name.length ≤ bs.length := by
  rcases bs with - | ⟨c, - | ⟨d, - | ⟨kind, bs⟩⟩⟩
  · cases (scriptNames_short (by simp)).symm.trans h
  · cases (scriptNames_short (by simp)).symm.trans h
  · cases (scriptNames_short (by simp)).symm.trans h
  · rw [scriptNames] at h
    split at h
    · rw [← (List.cons.inj h).1, List.length_take]
      simp only [List.length_cons]
      omega
    · cases h

/-- An entry of the code is the next one of the script. -/
theorem scriptEntry_names (info more : List UInt8) (offset : Nat) :
    match scriptEntry (info ++ more) info.length offset with
    | .name name offset' => scriptNames (info.drop (offset + 1)) = name :: scriptNames (info.drop (offset' + 1)) ∧
        offset < offset' ∧ offset' < info.length
    | _ => scriptNames (info.drop (offset + 1)) = [] := by
  by_cases hend : info.length ≤ offset + 3
  · have hstop : scriptEntry (info ++ more) info.length offset = .stop := if_pos hend
    rw [hstop]
    exact scriptNames_short (by rw [List.length_drop]; omega)
  · obtain ⟨front, rest, hsplit, hfront⟩ : ∃ front rest, info = front ++ rest ∧ front.length = offset + 1 :=
      ⟨info.take (offset + 1), info.drop (offset + 1), (List.take_append_drop _ _).symm, by rw [List.length_take]; omega⟩
    have hlength : info.length = offset + 1 + rest.length := by rw [hsplit, List.length_append, hfront]
    rcases rest with - | ⟨c, - | ⟨d, - | ⟨kind, rest⟩⟩⟩
    · rw [List.length_nil] at hlength; omega
    · rw [List.length_singleton] at hlength; omega
    · simp only [List.length_cons, List.length_nil] at hlength; omega
    · simp only [List.length_cons] at hlength
      have hdrop : info.drop (offset + 1) = c :: d :: kind :: rest := by rw [hsplit, ← hfront, List.drop_left]
      have hat : ∀ i, (info ++ more).getD (offset + 1 + i) 0 = (c :: d :: kind :: (rest ++ more)).getD i 0 := by
        intro i
        rw [hsplit, List.append_assoc, List.getD_append_right _ _ _ _ (by omega), hfront, Nat.add_sub_cancel_left]
        rfl
      have hrest : (info ++ more).drop (offset + 4) = rest ++ more := by
        rw [hsplit, List.append_assoc, List.drop_append, List.drop_of_length_le (by omega), hfront,
          show offset + 4 - (offset + 1) = 3 by omega]
        rfl
      have hc := hat 0
      have hd := hat 1
      have hkind := hat 2
      simp only [List.getD_cons_zero, List.getD_cons_succ, Nat.add_zero, Nat.add_assoc, Nat.reduceAdd] at hc hd hkind
      rw [hdrop, scriptNames]
      unfold scriptEntry
      simp only [Nat.add_assoc, Nat.reduceAdd, if_neg hend, hc, hd, hkind, hrest]
      by_cases hbad : entryLength c d < 2 ∨ info.length < offset + (3 + entryLength c d)
      · rw [if_pos hbad, if_neg (by omega)]
      · rw [if_neg hbad]
        by_cases hk : kind ∈ ascii "EW"
        · rw [if_pos hk, if_pos ⟨by omega, by omega, hk⟩]
          have hnext : info.drop (offset + (4 + entryLength c d) - 2 + 1) = rest.drop (entryLength c d - 1) := by
            rw [show offset + (4 + entryLength c d) - 2 + 1 = offset + 1 + (3 + (entryLength c d - 1)) by omega,
              ← List.drop_drop, hdrop, ← List.drop_drop]
            rfl
          refine ⟨?_, by omega, by omega⟩
          rw [hnext, List.take_append_of_le_length (by omega)]
        · rw [if_neg hk, if_neg (fun h => hk h.2.2)]

/-! ## The names -/

/-- A name with the enumeration number in the place of every `@`. -/
def enumerated (nr : BitVec 32) (name : List UInt8) : List UInt8 :=
  if 0 < nr.toInt then name.flatMap fun c => if c = atChar then numeral 10 nr.toInt.toNat else [c] else name

/-- No `@` stays in the name: there is at most one, and not at the front. -/
def MarksOk (nr : BitVec 32) (name : List UInt8) : Prop :=
  0 < nr.toInt → name.count atChar ≤ 1 ∧ name.head? ≠ some atChar

/-- A name with its first `@` replaced, if it is not at the front. -/
def firstReplaced (nr : BitVec 32) (name : List UInt8) : List UInt8 :=
  let i := (name.takeWhile (· ≠ atChar)).length
  if 0 < nr.toInt ∧ 0 < i ∧ i < name.length then name.take i ++ numeral 10 nr.toInt.toNat ++ name.drop (i + 1) else name

/-- The name of the request. Its length is a byte. -/
def sentName (nr : BitVec 32) (name : List UInt8) : List UInt8 :=
  (firstReplaced nr name).take ((firstReplaced nr name).length % 256)

section Names

variable {nr : BitVec 32} {front back name : List UInt8}

theorem enumerated_none (h : ¬ 0 < nr.toInt) (name : List UInt8) : enumerated nr name = name := if_neg h

theorem enumerated_of_notMem (h : atChar ∉ name) : enumerated nr name = name := by
  unfold enumerated
  split
  · induction name with
    | nil => rfl
    | cons c name ih =>
      rw [List.mem_cons, not_or] at h
      rw [List.flatMap_cons, if_neg (Ne.symm h.1), ih h.2]
      rfl
  · rfl

theorem enumerated_append (front back : List UInt8) :
    enumerated nr (front ++ back) = enumerated nr front ++ enumerated nr back := by
  unfold enumerated
  split
  · rw [List.flatMap_append]
  · rfl

theorem enumerated_mark (hnr : 0 < nr.toInt) (back : List UInt8) :
    enumerated nr (atChar :: back) = numeral 10 nr.toInt.toNat ++ enumerated nr back := by
  unfold enumerated
  rw [if_pos hnr, if_pos hnr, List.flatMap_cons, if_pos rfl]

theorem length_le_enumerated (nr : BitVec 32) (name : List UInt8) : name.length ≤ (enumerated nr name).length := by
  unfold enumerated
  split
  · induction name with
    | nil => exact Nat.le_refl 0
    | cons c name ih =>
      have hpos := List.length_pos_iff.mpr (numeral_ne_nil 10 nr.toInt.toNat)
      rw [List.flatMap_cons, List.length_append, List.length_cons]
      split
      · omega
      · rw [List.length_singleton]
        omega
  · exact Nat.le_refl _

theorem notMem_enumerated (hnr : 0 < nr.toInt) (name : List UInt8) : atChar ∉ enumerated nr name := by
  unfold enumerated
  rw [if_pos hnr, List.mem_flatMap]
  rintro ⟨c, -, hc⟩
  split at hc
  · obtain ⟨d, hd, hat⟩ := digit_of_mem_numeral (by decide) (by decide) hc
    have hall : ∀ d < 16, atChar ≠ digitChar d := by decide
    exact hall d hd hat
  · rename_i hne
    exact hne (List.mem_singleton.mp hc).symm

theorem takeWhile_mark (h : atChar ∉ front) (back : List UInt8) : (front ++ atChar :: back).takeWhile (· ≠ atChar) = front := by
  rw [List.takeWhile_append_of_pos]
  · simp
  · intro c hc
    have hne : c ≠ atChar := fun heq => h (heq ▸ hc)
    simpa using hne

theorem firstReplaced_none (h : ¬ 0 < nr.toInt) (name : List UInt8) : firstReplaced nr name = name := if_neg fun hc => h hc.1

theorem firstReplaced_of_notMem (h : atChar ∉ name) : firstReplaced nr name = name := by
  have hall : name.takeWhile (· ≠ atChar) = name := by
    refine List.takeWhile_eq_self_iff.mpr fun c hc => ?_
    have hne : c ≠ atChar := fun heq => h (heq ▸ hc)
    simpa using hne
  unfold firstReplaced
  rw [hall]
  exact if_neg fun hc => Nat.lt_irrefl _ hc.2.2

theorem firstReplaced_front (nr : BitVec 32) (back : List UInt8) : firstReplaced nr (atChar :: back) = atChar :: back := by
  have hzero : (atChar :: back).takeWhile (· ≠ atChar) = [] := by simp
  unfold firstReplaced
  rw [hzero]
  exact if_neg fun hc => Nat.lt_irrefl 0 hc.2.1

theorem firstReplaced_mark (hnr : 0 < nr.toInt) (hfront : atChar ∉ front) (hne : front ≠ []) (back : List UInt8) :
    firstReplaced nr (front ++ atChar :: back) = front ++ numeral 10 nr.toInt.toNat ++ back := by
  have hpos := List.length_pos_iff.mpr hne
  have hdrop : (front ++ atChar :: back).drop (front.length + 1) = back := by
    rw [← List.drop_drop, List.drop_left]
    rfl
  unfold firstReplaced
  rw [takeWhile_mark hfront]
  dsimp only
  rw [if_pos ⟨hnr, hpos, by simp⟩, List.take_left, hdrop]

/-- A number replaces the first `@`, or there is none, or it stays at the front. -/
theorem name_cases (nr : BitVec 32) (name : List UInt8) :
    (¬ 0 < nr.toInt ∨ atChar ∉ name) ∨ 0 < nr.toInt ∧ ((∃ back, name = atChar :: back) ∨
      ∃ front back, name = front ++ atChar :: back ∧ atChar ∉ front ∧ front ≠ []) := by
  by_cases hnr : 0 < nr.toInt
  · by_cases hmem : atChar ∈ name
    · obtain ⟨front, back, rfl, hfront⟩ := List.eq_append_cons_of_mem hmem
      rcases front with - | ⟨c, front⟩
      · exact Or.inr ⟨hnr, Or.inl ⟨back, rfl⟩⟩
      · exact Or.inr ⟨hnr, Or.inr ⟨c :: front, back, rfl, hfront, List.cons_ne_nil _ _⟩⟩
    · exact Or.inl (Or.inr hmem)
  · exact Or.inl (Or.inl hnr)

theorem firstReplaced_le (nr : BitVec 32) (name : List UInt8) : (firstReplaced nr name).length ≤ (enumerated nr name).length := by
  rcases name_cases nr name with hnone | ⟨hnr, ⟨back, rfl⟩ | ⟨front, back, rfl, hfront, hne⟩⟩
  · have hsame : firstReplaced nr name = name := hnone.elim (firstReplaced_none · name) firstReplaced_of_notMem
    rw [hsame]
    exact length_le_enumerated nr name
  · rw [firstReplaced_front]
    exact length_le_enumerated nr _
  · have hback := length_le_enumerated nr back
    rw [firstReplaced_mark hnr hfront hne, enumerated_append, enumerated_mark hnr, enumerated_of_notMem hfront]
    simp only [List.length_append]
    omega

/-- The first `@` is the only one, or one of them stays. -/
theorem firstReplaced_eq_iff (nr : BitVec 32) (name : List UInt8) :
    firstReplaced nr name = enumerated nr name ↔ MarksOk nr name := by
  rcases name_cases nr name with hnone | ⟨hnr, ⟨back, rfl⟩ | ⟨front, back, rfl, hfront, hne⟩⟩
  · have hsame : firstReplaced nr name = name := hnone.elim (firstReplaced_none · name) firstReplaced_of_notMem
    have henum : enumerated nr name = name := hnone.elim (enumerated_none · name) enumerated_of_notMem
    rw [hsame, henum, eq_self_iff_true, true_iff]
    rintro hnr
    rcases hnone with hn | hmem
    · exact absurd hnr hn
    · refine ⟨by rw [List.count_eq_zero_of_not_mem hmem]; omega, fun hhead => hmem ?_⟩
      exact List.mem_of_mem_head? hhead
  · rw [firstReplaced_front]
    constructor
    · intro h
      exact absurd (h ▸ List.mem_cons_self) (notMem_enumerated hnr _)
    · intro h
      exact absurd rfl (h hnr).2
  · have hzero : front.count atChar = 0 := List.count_eq_zero_of_not_mem hfront
    have hhead : (front ++ atChar :: back).head? ≠ some atChar := by
      rcases front with - | ⟨c, front⟩
      · exact absurd rfl hne
      · exact fun h => hfront (Option.some.inj h ▸ List.mem_cons_self)
    have hcount : (front ++ atChar :: back).count atChar = back.count atChar + 1 := by
      rw [List.count_append, hzero, List.count_cons_self, Nat.zero_add]
    have hiff : MarksOk nr (front ++ atChar :: back) ↔ atChar ∉ back := by
      unfold MarksOk
      rw [hcount]
      constructor
      · intro h
        exact List.count_eq_zero.mp (by have := (h hnr).1; omega)
      · intro h _
        exact ⟨by rw [List.count_eq_zero_of_not_mem h], hhead⟩
    rw [hiff, firstReplaced_mark hnr hfront hne, enumerated_append, enumerated_mark hnr, enumerated_of_notMem hfront,
      List.append_assoc, List.append_right_inj, List.append_right_inj]
    constructor
    · intro h
      exact h ▸ notMem_enumerated hnr back
    · intro h
      exact (enumerated_of_notMem h).symm

theorem sentName_eq (h : (firstReplaced nr name).length ≤ 255) : sentName nr name = firstReplaced nr name := by
  unfold sentName
  rw [Nat.mod_eq_of_lt (by omega), List.take_length]

theorem length_sentName (nr : BitVec 32) (name : List UInt8) :
    (sentName nr name).length = (firstReplaced nr name).length % 256 := by
  unfold sentName
  rw [List.length_take]
  exact Nat.min_eq_left (Nat.mod_le _ _)

/-- When the name that is sent is the one that is asked for. -/
theorem sentName_eq_iff (nr : BitVec 32) (name : List UInt8) :
    sentName nr name = enumerated nr name ↔ MarksOk nr name ∧ (enumerated nr name).length ≤ 255 := by
  have hlength := length_sentName nr name
  have hle := firstReplaced_le nr name
  constructor
  · intro h
    have hshort : (enumerated nr name).length ≤ 255 := by rw [← h, hlength]; omega
    refine ⟨(firstReplaced_eq_iff nr name).mp ?_, hshort⟩
    rw [← h, sentName_eq (by omega)]
  · rintro ⟨hmarks, hshort⟩
    have hfirst := (firstReplaced_eq_iff nr name).mpr hmarks
    rw [sentName_eq (by rw [hfirst]; exact hshort), hfirst]

end Names

/-! ## The request -/

theorem length_numeral_le {k v : Nat} (hk : 0 < k) (h : v < 10 ^ k) : (numeral 10 v).length ≤ k := by
  induction k generalizing v with
  | zero => omega
  | succ k ih =>
    by_cases hlt : v < 10
    · rw [numeral_of_lt hlt, List.length_singleton]
      omega
    · have hdiv : v / 10 < 10 ^ k := Nat.div_lt_of_lt_mul (by rw [Nat.pow_succ] at h; omega)
      have hpos : 0 < k := by
        rcases Nat.eq_zero_or_pos k with rfl | hpos
        · rw [Nat.pow_zero] at hdiv
          omega
        · exact hpos
      have := ih hpos hdiv
      rw [numeral_of_ge (by decide) (by omega), List.length_append, List.length_singleton]
      omega

/-- Three pieces, the second with a zero that the third is written over. -/
theorem load_pieces (m : Mem) (front number back : List UInt8) :
    load (store (store (store m 0 front) front.length (number ++ [0])) (front.length + number.length) back) 0
      (front.length + number.length + back.length) = front ++ number ++ back := by
  have hnumber : load (store (store m 0 front) front.length (number ++ [0])) front.length number.length = number := by
    have h := load_store_self (store m 0 front) front.length (number ++ [0])
    rw [List.length_append, load_add] at h
    exact (List.append_inj h (load_length _ _ _)).1
  have hfront : load (store m 0 front) 0 front.length = front := load_store_self m 0 front
  rw [load_add, Nat.zero_add, load_store_self, load_store_disjoint _ (by omega), load_add, Nat.zero_add, hnumber,
    load_store_disjoint _ (by omega), hfront]

theorem take_load (m : Mem) (k : Nat) {j n : Nat} (h : j ≤ n) : (load m k n).take j = load m k j := by
  obtain ⟨d, rfl⟩ := Nat.exists_eq_add_of_le h
  rw [load_add, List.take_left' (load_length _ _ _)]

theorem applyEnumeration_eq (s : ManagementIfc) {name : List UInt8} (h : name.length ≤ 255) :
    ∃ m, applyEnumeration s name = .ok (m, sentName s.finalEnumNr name) := by
  have hle : (name.takeWhile (· ≠ atChar)).length ≤ name.length := (List.takeWhile_prefix _).length_le
  unfold applyEnumeration sentName firstReplaced
  dsimp only
  by_cases hc : 0 < s.finalEnumNr.toInt ∧ 0 < (name.takeWhile (· ≠ atChar)).length ∧
      (name.takeWhile (· ≠ atChar)).length < name.length
  · rw [if_pos hc, if_pos hc]
    generalize (name.takeWhile (· ≠ atChar)).length = i at hc hle ⊢
    have hfront : (name.take i).length = i := List.length_take_of_le hle
    have hback : (name.drop (i + 1)).length = name.length - (i + 1) := List.length_drop
    have hdigits : (numeral 10 s.finalEnumNr.toInt.toNat).length ≤ 10 := by
      refine length_numeral_le (by decide) ?_
      have := BitVec.toInt_lt (x := s.finalEnumNr)
      omega
    have hfirst : put varNameBufferSize s.varNameBuffer 0 (name.take i) = .ok (store s.varNameBuffer 0 (name.take i)) :=
      put_store _ (by rw [hfront, varNameBufferSize]; omega)
    have hrun : divaSnprintf.run ((varNameBufferSize : Int) - 20) (numeral 10 s.finalEnumNr.toInt.toNat)
        = (numeral 10 s.finalEnumNr.toInt.toNat ++ [0], (numeral 10 s.finalEnumNr.toInt.toNat).length) :=
      divaSnprintf.fits (by rw [varNameBufferSize]; omega)
    have hpieces := load_pieces s.varNameBuffer (name.take i) (numeral 10 s.finalEnumNr.toInt.toNat) (name.drop (i + 1))
    rw [hfirst, ok_bind_ok]
    unfold print
    rw [hrun]
    dsimp only
    rw [put_store _ (by rw [List.length_append, List.length_singleton, varNameBufferSize]; omega)]
    dsimp only [ok_bind_ok, pure, Except.pure, bind, Except.bind]
    rw [put_store _ (by rw [hback, varNameBufferSize]; omega)]
    dsimp only
    rw [hfront, hback] at hpieces
    rw [List.length_append, List.length_append, hfront, hback, ← hpieces, take_load _ _ (Nat.mod_le _ _)]
    exact ⟨_, rfl⟩
  · rw [if_neg hc, if_neg hc, Nat.mod_eq_of_lt (by omega), List.take_length]
    exact ⟨_, rfl⟩

/-- A read request in `xdata`. -/
structure ReadOctets (x : Mem) (name : List UInt8) : Prop where
  escape : x 0 = escChar
  octets : x 1 = UInt8.ofNat (name.length + 6)
  element : x 2 = 0x80
  valueLength : x 6 = 0
  pathLength : x 7 = UInt8.ofNat name.length
  path : load x 8 name.length = name
  ended : x (8 + name.length) = 0

theorem readReq_eq (s : ManagementIfc) {name : List UInt8} (h : name.length ≤ 255) :
    ∃ s', readReq s name = .ok (s', ((sentName s.finalEnumNr name).length + 9) % 256) ∧
      s'.writeVarName = sentName s.finalEnumNr name ∧ s'.scriptOffset = s.scriptOffset ∧ s'.finalEnumNr = s.finalEnumNr ∧
      ReadOctets s'.xdata (sentName s.finalEnumNr name) := by
  obtain ⟨m, hm⟩ := applyEnumeration_eq s h
  have hlength : (sentName s.finalEnumNr name).length ≤ 255 := by
    rw [length_sentName]
    omega
  unfold readReq
  rw [hm]
  dsimp only [bind, Except.bind]
  generalize sentName s.finalEnumNr name = sent at hlength ⊢
  have hescape : put xdataSize s.xdata 0 [escChar] = .ok (store s.xdata 0 [escChar]) := put_store _ (by rw [xdataSize]; decide)
  rw [hescape]
  dsimp only
  rw [put_store _ (by rw [xdataSize]; simp)]
  dsimp only
  rw [put_store _ (by rw [xdataSize]; omega)]
  dsimp only
  rw [put_store _ (by rw [xdataSize]; simp)]
  dsimp only
  rw [put_store _ (by rw [xdataSize, List.length_singleton]; omega)]
  refine ⟨_, rfl, rfl, rfl, rfl, ?_⟩
  dsimp only
  constructor
  · rw [store_outside _ (by omega), store_outside _ (by omega), store_outside _ (by omega), store_outside _ (by omega)]
    exact store_inside (k := 0) (i := 0) _ (by simp)
  · rw [store_outside _ (by omega)]
    exact store_inside (k := 1) (i := 0) _ (by simp)
  · rw [store_outside _ (by omega), store_outside _ (by simp), store_outside _ (by omega)]
    exact store_inside (k := 2) (i := 0) _ (by simp)
  · rw [store_outside _ (by omega), store_outside _ (by simp), store_outside _ (by omega)]
    exact store_inside (k := 2) (i := 4) _ (by simp)
  · rw [store_outside _ (by omega), store_outside _ (by simp), store_outside _ (by omega)]
    exact store_inside (k := 2) (i := 5) _ (by simp)
  · rw [load_store_disjoint _ (by omega), load_store_disjoint _ (by right; simp), load_store_self]
  · exact store_inside (i := 0) _ (by simp)

namespace ManagedVariable

variable (v : ManagedVariable)

/-- `pE->variable` or `pE->var`: the section, and what is behind it. -/
def src (behind : List UInt8) : List UInt8 := v.sec.encode ++ behind

/-- Where the management information is. -/
theorem element_info (behind : List UInt8) : ∃ offset more, getSectionElement (v.src behind) Vie.managementInfo = some offset ∧
    vleToDword (((v.src behind).drop offset).drop (vleToDword ((v.src behind).drop offset)).2)
      = (v.info.length, (Leb128.encode v.info.length).length) ∧
    (((v.src behind).drop offset).drop (vleToDword ((v.src behind).drop offset)).2).drop (Leb128.encode v.info.length).length
      = v.info ++ more := by
  rcases v.sec.ok.find_bytes (k := Vie.managementInfo) rfl with ⟨-, hnone⟩ | ⟨data, rest, hfind, hdata, hid, hlt⟩
  · exact absurd (hnone.symm.trans v.stored) nofun
  · cases hdata.symm.trans v.stored
    have hplace := (Elems.find_place hfind).1
    have hdrop : (v.src behind).drop (v.sec.offset (.bs Vie.managementInfo v.info rest))
        = Leb128.encode Vie.managementInfo ++ (Leb128.encode v.info.length ++ (v.info ++ (rest.encode ++ behind))) := by
      have h := Tlie.drop_offset hplace behind
      simpa only [Elems.encode, List.append_assoc, src] using h
    refine ⟨v.sec.offset (.bs Vie.managementInfo v.info rest), rest.encode ++ behind, ?_, ?_, ?_⟩
    · unfold src
      rw [Tlie.getSectionElement_encode, hfind]
      rfl
    · rw [hdrop, vleToDword_encode hid, List.drop_left, vleToDword_encode hlt]
    · rw [hdrop, vleToDword_encode hid, List.drop_left, List.drop_left]

/-- What `diva_cfg_create_read_req` does with the management information, which has other bytes
    behind it. -/
theorem createReadReq_eq (behind : List UInt8) (s : ManagementIfc) : ∃ more, createReadReq (v.src behind) s =
    (let s := { s with writeVarName := [], xdata := store s.xdata 0 [0] }
     if (v.info ++ more).head? = some slashChar then
       match scriptEntry (v.info ++ more) v.info.length s.scriptOffset with
       | .stop => .ok ({ s with scriptOffset := 0 }, 0)
       | .error => .ok ({ s with scriptOffset := 0, failed := true }, 0)
       | .name name offset => readReq { s with scriptOffset := offset } name
     else readReq { s with scriptOffset := 0 } v.info) := by
  obtain ⟨offset, more, helement, hlength, hdrop⟩ := v.element_info behind
  have hshort := v.short
  have hput : put xdataSize s.xdata 0 [0] = .ok (store s.xdata 0 [0]) := put_store _ (by rw [xdataSize]; decide)
  have hmod : v.info.length % 256 = v.info.length := Nat.mod_eq_of_lt (by omega)
  refine ⟨more, ?_⟩
  unfold createReadReq
  rw [helement]
  dsimp only
  rw [hlength]
  dsimp only
  rw [hdrop, hput, hmod, List.take_left]
  rfl

variable {v}

/-- A read request for the entry behind the offset. -/
theorem createReadReq_entry (behind : List UInt8) (s : ManagementIfc) {name : List UInt8} {rest : List (List UInt8)}
    (hinfo : v.info ≠ []) (h : entries v.info s.scriptOffset = name :: rest) :
    ∃ s', createReadReq (v.src behind) s = .ok (s', ((sentName s.finalEnumNr name).length + 9) % 256) ∧
      s'.writeVarName = sentName s.finalEnumNr name ∧ s'.finalEnumNr = s.finalEnumNr ∧
      ReadOctets s'.xdata (sentName s.finalEnumNr name) ∧
      if v.info.head? = some slashChar then
        s.scriptOffset < s'.scriptOffset ∧ s'.scriptOffset < v.info.length ∧ entries v.info s'.scriptOffset = rest
      else s'.scriptOffset = 0 := by
  have hshort := v.short
  obtain ⟨more, hreq⟩ := v.createReadReq_eq behind s
  have hhead : (v.info ++ more).head? = v.info.head? := by
    rcases hi : v.info with - | ⟨c, info⟩
    · exact absurd hi hinfo
    · rfl
  rw [hreq]
  dsimp only
  rw [hhead]
  unfold entries at h
  by_cases hslash : v.info.head? = some slashChar
  · rw [if_pos hslash] at h
    have hnames := scriptEntry_names v.info more s.scriptOffset
    rw [if_pos hslash]
    rcases hentry : scriptEntry (v.info ++ more) v.info.length s.scriptOffset with - | - | ⟨name', offset'⟩
    · rw [hentry] at hnames
      cases hnames.symm.trans h
    · rw [hentry] at hnames
      cases hnames.symm.trans h
    · rw [hentry] at hnames
      obtain ⟨hnext, hlow, hhigh⟩ := hnames
      obtain ⟨rfl, hrest⟩ := List.cons.inj (hnext.symm.trans h)
      have hle : name'.length ≤ 255 := by
        have hsub := scriptNames_length hnext
        rw [List.length_drop] at hsub
        omega
      obtain ⟨s', hs', hname, hoffset, hnr, hoctets⟩ :=
        readReq_eq { s with writeVarName := [], xdata := store s.xdata 0 [0], scriptOffset := offset' } hle
      refine ⟨s', hs', hname, hnr, hoctets, ?_⟩
      rw [if_pos hslash, hoffset]
      exact ⟨hlow, hhigh, by unfold entries; rw [if_pos hslash, hrest]⟩
  · rw [if_neg hslash] at h
    rw [if_neg hslash]
    obtain ⟨rfl, -⟩ := List.cons.inj h
    obtain ⟨s', hs', hname, hoffset, hnr, hoctets⟩ :=
      readReq_eq { s with writeVarName := [], xdata := store s.xdata 0 [0], scriptOffset := 0 } hshort
    refine ⟨s', hs', hname, hnr, hoctets, ?_⟩
    rw [if_neg hslash, hoffset]

/-- No entry is behind the offset. -/
theorem createReadReq_none (behind : List UInt8) (s : ManagementIfc) (h : entries v.info s.scriptOffset = []) :
    ∃ s', createReadReq (v.src behind) s = .ok (s', 0) ∧ s'.scriptOffset = 0 := by
  obtain ⟨more, hreq⟩ := v.createReadReq_eq behind s
  unfold entries at h
  split at h
  · rename_i hslash
    have hhead : (v.info ++ more).head? = some slashChar := by
      rw [List.head?_append, hslash]
      rfl
    have hnames := scriptEntry_names v.info more s.scriptOffset
    rw [hreq]
    dsimp only
    rw [if_pos hhead]
    rcases hentry : scriptEntry (v.info ++ more) v.info.length s.scriptOffset with - | - | ⟨name, offset⟩
    · exact ⟨_, rfl, rfl⟩
    · exact ⟨_, rfl, rfl⟩
    · rw [hentry] at hnames
      cases h.symm.trans hnames.1
  · cases h

/-- Without management information the first byte behind it is taken for it. -/
theorem createReadReq_empty (behind : List UInt8) (s : ManagementIfc) (h : v.info = []) :
    ∃ s' n, createReadReq (v.src behind) s = .ok (s', n) ∧ (n = 0 ∨ s'.writeVarName = []) := by
  obtain ⟨more, hreq⟩ := v.createReadReq_eq behind s
  rw [h] at hreq
  rw [hreq]
  dsimp only
  split
  · have hstop : scriptEntry ([] ++ more) 0 s.scriptOffset = .stop := by
      unfold scriptEntry
      exact if_pos (Nat.zero_le _)
    rw [List.length_nil, hstop]
    exact ⟨_, 0, rfl, Or.inl rfl⟩
  · have hnil : ([] : List UInt8).length ≤ 255 := Nat.zero_le _
    obtain ⟨s', hs', hname, -⟩ :=
      readReq_eq { s with writeVarName := [], xdata := store s.xdata 0 [0], scriptOffset := 0 } hnil
    refine ⟨s', _, hs', Or.inr ?_⟩
    rw [hname]
    exact List.eq_nil_of_length_eq_zero (by rw [length_sentName, firstReplaced_of_notMem List.not_mem_nil]; rfl)

end ManagedVariable

/-! ## Repeated requests -/

/-- The requests for one variable, until the offset is 0: the names of those that have a length. -/
def readReqs (src : List UInt8) : Nat → ManagementIfc → Checked (List (List UInt8) × ManagementIfc)
  | 0, _ => .error .hang
  | n + 1, s => do
    let (s, length) ← createReadReq src s
    let names := if length ≠ 0 then [s.writeVarName] else []
    if s.scriptOffset = 0 then pure (names, s)
    else do
      let (rest, s) ← readReqs src n s
      pure (names ++ rest, s)

/-- A list is the same with some of its elements left out and changed only if all of them stay. -/
theorem filter_map_eq_map {α β : Type} {p : α → Prop} [DecidablePred p] {f g : α → β} (l : List α) :
    (l.filter (fun a => p a)).map f = l.map g ↔ ∀ a ∈ l, p a ∧ f a = g a := by
  induction l with
  | nil => simp
  | cons a l ih =>
    rw [List.forall_mem_cons, ← ih]
    by_cases hp : p a
    · rw [List.filter_cons_of_pos (by simpa using hp)]
      simp [hp]
    · rw [List.filter_cons_of_neg (by simpa using hp)]
      constructor
      · intro h
        have hlength := congrArg List.length h
        have hle := List.length_filter_le (fun a => decide (p a)) l
        simp only [List.length_map, List.length_cons] at hlength
        omega
      · exact fun h => absurd h.1.1 hp

namespace ManagedVariable

variable {v : ManagedVariable}

/-- What the repeated requests ask for. -/
theorem readReqs_eq (behind : List UInt8) (hslash : v.info.head? = some slashChar) (nr : BitVec 32) {n : Nat} (s : ManagementIfc)
    (hnr : s.finalEnumNr = nr) (hle : s.scriptOffset ≤ v.info.length) (hn : v.info.length < s.scriptOffset + n) :
    ∃ s', readReqs (v.src behind) n s = .ok (((entries v.info s.scriptOffset).filter
      fun name => (sentName nr name).length ≠ 247).map (sentName nr), s') ∧ s'.scriptOffset = 0 := by
  induction n generalizing s with
  | zero => omega
  | succ n ih =>
    subst hnr
    have hinfo : v.info ≠ [] := by
      rintro h
      rw [h] at hslash
      cases hslash
    rcases hentries : entries v.info s.scriptOffset with - | ⟨name, rest⟩
    · obtain ⟨s', hreq, hoffset⟩ := createReadReq_none behind s hentries
      refine ⟨s', ?_, hoffset⟩
      rw [readReqs, hreq, ok_bind_ok]
      dsimp only
      rw [if_pos hoffset]
      rfl
    · obtain ⟨s', hreq, hname, hnr, -, hnext⟩ := createReadReq_entry behind s hinfo hentries
      rw [if_pos hslash] at hnext
      obtain ⟨hlow, hhigh, hrest⟩ := hnext
      obtain ⟨s'', hrun, hoffset⟩ := ih s' hnr (by omega) (by omega)
      have hsent : (sentName s.finalEnumNr name).length ≤ 255 := by
        rw [length_sentName]
        omega
      refine ⟨s'', ?_, hoffset⟩
      rw [readReqs, hreq, ok_bind_ok]
      dsimp only
      rw [if_neg (by omega), hrun, ok_bind_ok, hrest, hname]
      by_cases hskip : (sentName s.finalEnumNr name).length = 247
      · rw [if_neg (by omega), List.filter_cons_of_neg (by simpa using hskip)]
        rfl
      · rw [if_pos (by omega), List.filter_cons_of_pos (by simpa using hskip)]
        rfl

/-- From the start of a script its entries are asked for, in their order, each once. -/
def Visits (v : ManagedVariable) (behind : List UInt8) (s : ManagementIfc) : Prop :=
  v.info.head? = some slashChar → ∃ s', readReqs (v.src behind) 256 { s with scriptOffset := 0 }
    = .ok ((entries v.info 0).map (enumerated s.finalEnumNr), s') ∧ s'.scriptOffset = 0

/-- An entry is asked for under its name. -/
def Visited (nr : BitVec 32) (name : List UInt8) : Prop :=
  MarksOk nr name ∧ (enumerated nr name).length ≤ 255 ∧ (enumerated nr name).length ≠ 247

theorem visits_iff (behind : List UInt8) (s : ManagementIfc) :
    Visits v behind s ↔ (v.info.head? = some slashChar → ∀ name ∈ entries v.info 0, Visited s.finalEnumNr name) := by
  unfold Visits
  refine imp_congr_right fun hslash => ?_
  have hshort := v.short
  obtain ⟨s', hrun, hoffset⟩ := readReqs_eq behind hslash s.finalEnumNr (n := 256) { s with scriptOffset := 0 } rfl
    (Nat.zero_le _) (by dsimp only; omega)
  have hvisits : (∃ s', readReqs (v.src behind) 256 { s with scriptOffset := 0 }
        = .ok ((entries v.info 0).map (enumerated s.finalEnumNr), s') ∧ s'.scriptOffset = 0) ↔
      ((entries v.info 0).filter fun name => (sentName s.finalEnumNr name).length ≠ 247).map (sentName s.finalEnumNr)
        = (entries v.info 0).map (enumerated s.finalEnumNr) := by
    rw [hrun]
    constructor
    · rintro ⟨s'', heq, -⟩
      exact congrArg Prod.fst (Except.ok.inj heq)
    · exact fun heq => ⟨s', congrArg (fun names => Except.ok (names, s')) heq, hoffset⟩
  rw [hvisits, filter_map_eq_map (p := fun name => (sentName s.finalEnumNr name).length ≠ 247)]
  refine forall₂_congr fun name _ => ?_
  rw [sentName_eq_iff]
  unfold Visited
  constructor
  · rintro ⟨hlength, hmarks, hle⟩
    rw [(sentName_eq_iff _ _).mpr ⟨hmarks, hle⟩] at hlength
    exact ⟨hmarks, hle, hlength⟩
  · rintro ⟨hmarks, hle, hlength⟩
    rw [(sentName_eq_iff _ _).mpr ⟨hmarks, hle⟩]
    exact ⟨hlength, hmarks, hle⟩

end ManagedVariable

end Divas.Cfg
