/-
  Divas.Idi.AdapterAssign — the list of the ASSIGNs of an adapter.

  `assign_queue` puts the slot of an ASSIGN at the front of a list, and `get_assign` looks a
  reference up in it. Nothing takes a slot out of the list again, and the list has the links
  of the request queue: the next request of a slot cuts off what is behind it, a slot that
  is used again closes a circle, and the references of answered ASSIGNs are still found.

  Proved, for all runs whose steps meet `AssignOk`: each entity is sent once for each time
  it is queued, in this order; an ASSIGN return code is delivered to the entity of the
  outstanding ASSIGN with its reference, and to nobody else, and `get_assign` ends
  (`assign_answers`). `AssignOk` asks of a request that no ASSIGN is outstanding behind its
  slot in the list, and of a return code without an ASSIGN that the list ends without its
  reference. Without that an ASSIGN is lost (`assign_lost`).
-/

import Divas.Idi.AdapterChain

namespace Divas.Idi

open Divas.Lib.Links Divas.Lib.Run

/-! ## Outstanding ASSIGNs -/

/-- The entity of the slot has sent its ASSIGN and waits for the return code. -/
def Outstanding (a : Adapter) (x : Nat) : Prop :=
  ∃ p, (a.eTbl x).e = some p ∧ (a.ent p).id % 32 = 0 ∧ (a.ent p).more &&& xbusy ≠ 0 ∧ (a.ent p).more &&& xmoref ≠ 0

def links (a : Adapter) (i : Nat) : Nat := (a.eTbl i).next

/-- The slots `L` from `assign` on have all outstanding ASSIGNs, the last of them is one, and none is in the queue. -/
structure Assigns (a : Adapter) (Q L : List Nat) : Prop where
  path : ∃ c, Path (links a) (a.assign % 256) L c
  nodup : L.Nodup
  byte : ∀ x ∈ L, 0 < x ∧ x < 256
  apart : ∀ x ∈ L, x ∉ Q
  cover : ∀ x, Outstanding a x → x ∈ L
  last : ∀ x, L.getLast? = some x → Outstanding a x
  refs : ∀ front x rest, L = front ++ x :: rest → Outstanding a x → ∀ y ∈ front, (a.eTbl y).assignRef ≠ (a.eTbl x).assignRef

section Assigns

variable {a b : Adapter} {Q Q' L : List Nat} {i p ref : Nat}

/-- The slots of the list stay as they are. -/
structure SameLinks (a b : Adapter) (L : List Nat) : Prop where
  assign : b.assign = a.assign
  next : ∀ x ∈ L, (b.eTbl x).next = (a.eTbl x).next
  ref : ∀ x ∈ L, (b.eTbl x).assignRef = (a.eTbl x).assignRef

theorem Assigns.congr (h : Assigns a Q L) (hs : SameLinks a b L) (hout : ∀ x, Outstanding b x ↔ Outstanding a x)
    (hapart : ∀ x ∈ L, x ∉ Q') : Assigns b Q' L := by
  refine ⟨?_, h.nodup, h.byte, hapart, fun x hx => h.cover x ((hout x).mp hx), fun x hx => (hout x).mpr (h.last x hx), ?_⟩
  · obtain ⟨c, hc⟩ := h.path
    refine ⟨c, ?_⟩
    rw [hs.assign]
    exact (path_congr fun x hx => (hs.next x hx).symm).mp hc
  · intro front x rest hL hx y hy
    have hxL : x ∈ L := by
      rw [hL]
      exact List.mem_append_right front List.mem_cons_self
    have hyL : y ∈ L := by
      rw [hL]
      exact List.mem_append_left _ hy
    rw [hs.ref x hxL, hs.ref y hyL]
    exact h.refs front x rest hL ((hout x).mp hx) y hy

/-- The slot of a new ASSIGN comes to the front. -/
theorem Assigns.push (h : Assigns a Q L) (hi : i ∉ L) (hpos : 0 < i) (hbyte : i < 256) (hassign : b.assign = i)
    (hnext : (b.eTbl i).next = a.assign % 256)
      (hold : ∀ x ∈ L, (b.eTbl x).next = (a.eTbl x).next ∧ (b.eTbl x).assignRef = (a.eTbl x).assignRef)
    (hout : ∀ x, Outstanding b x ↔ x = i ∨ Outstanding a x) (hapart : ∀ x ∈ i :: L, x ∉ Q')
    (href : ∀ x, Outstanding a x → (a.eTbl x).assignRef ≠ (b.eTbl i).assignRef) : Assigns b Q' (i :: L) := by
  refine ⟨?_, List.nodup_cons.mpr ⟨hi, h.nodup⟩, ?_, hapart, ?_, ?_, ?_⟩
  · obtain ⟨c, hc⟩ := h.path
    refine ⟨c, ?_, ?_⟩
    · rw [hassign]
      exact Nat.mod_eq_of_lt hbyte
    · have hlink : links b i = a.assign % 256 := hnext
      rw [hlink]
      exact (path_congr fun x hx => (hold x hx).1.symm).mp hc
  · intro x hx
    rcases List.mem_cons.mp hx with rfl | hx
    · exact ⟨hpos, hbyte⟩
    · exact h.byte x hx
  · intro x hx
    rcases (hout x).mp hx with rfl | hx
    · exact List.mem_cons_self
    · exact List.mem_cons_of_mem i (h.cover x hx)
  · intro x hx
    rw [hout]
    cases L with
    | nil =>
      cases hx
      exact Or.inl rfl
    | cons y L => exact Or.inr (h.last x hx)
  · intro front x rest hL hx y hy
    cases front with
    | nil => cases hy
    | cons f front =>
      rw [List.cons_append, List.cons.injEq] at hL
      obtain ⟨rfl, hL⟩ := hL
      have hxL : x ∈ L := by
        rw [hL]
        exact List.mem_append_right front List.mem_cons_self
      have hxo : Outstanding a x := by
        refine ((hout x).mp hx).resolve_left ?_
        rintro rfl
        exact hi hxL
      rw [(hold x hxL).2]
      rcases List.mem_cons.mp hy with rfl | hy
      · exact (href x hxo).symm
      · have hyL : y ∈ L := by
          rw [hL]
          exact List.mem_append_left _ hy
        rw [(hold y hyL).2]
        exact h.refs front x rest hL hxo y hy

/-- An ASSIGN is answered: the list is as long as the last one that is not. -/
theorem Assigns.answered (h : Assigns a Q L) (hs : SameLinks a b L) (hout : ∀ x, Outstanding b x → Outstanding a x) :
    ∃ L', Assigns b Q L' := by
  obtain ⟨front, rest, hL, hrest, hlast⟩ := exists_trim (Outstanding b) L
  have hmem : ∀ x ∈ front, x ∈ L := by
    intro x hx
    rw [hL]
    exact List.mem_append_left rest hx
  refine ⟨front, ?_, ?_, fun x hx => h.byte x (hmem x hx), fun x hx => h.apart x (hmem x hx), ?_, hlast, ?_⟩
  · obtain ⟨c, hc⟩ := h.path
    rw [hL] at hc
    obtain ⟨d, hd, -⟩ := path_append.mp hc
    refine ⟨d, ?_⟩
    rw [hs.assign]
    exact (path_congr fun x hx => (hs.next x (hmem x hx)).symm).mp hd
  · have hnodup := h.nodup
    rw [hL] at hnodup
    exact (List.nodup_append.mp hnodup).1
  · intro x hx
    have hxL := h.cover x (hout x hx)
    rw [hL] at hxL
    rcases List.mem_append.mp hxL with hxf | hxr
    · exact hxf
    · exact absurd hx (hrest x hxr)
  · intro front' x rest' hf hx y hy
    have hxL : x ∈ L := by
      apply hmem
      rw [hf]
      exact List.mem_append_right front' List.mem_cons_self
    have hyL : y ∈ L := by
      apply hmem
      rw [hf]
      exact List.mem_append_left _ hy
    rw [hs.ref x hxL, hs.ref y hyL]
    refine h.refs front' x (rest' ++ rest) ?_ (hout x hx) y hy
    rw [hL, hf, List.append_assoc]
    rfl

/-! ## get_assign -/

/-- The loop stops at the first slot with the reference. -/
theorem getAssignLoop_found {x c : Nat} (front : List Nat) : ∀ (turns s : Nat), Path (links a) s (front ++ [x]) c →
    (∀ y ∈ front, y ≠ 0 ∧ (a.eTbl y).assignRef ≠ ref) → (a.eTbl x).assignRef = ref → front.length < turns →
    a.getAssignLoop ref turns s = some x := by
  induction front with
  | nil =>
    intro turns s hpath _ hx hlt
    obtain ⟨rfl, -⟩ := hpath
    cases turns with
    | zero => cases hlt
    | succ turns =>
      unfold Adapter.getAssignLoop
      rw [if_neg]
      rintro ⟨-, hne⟩
      exact hne hx
  | cons y front ih =>
    intro turns s hpath hne hx hlt
    obtain ⟨rfl, hpath⟩ := hpath
    cases turns with
    | zero => cases hlt
    | succ turns =>
      unfold Adapter.getAssignLoop
      rw [if_pos (hne s List.mem_cons_self)]
      exact ih turns (links a s) hpath (fun z hz => hne z (List.mem_cons_of_mem s hz)) hx (Nat.lt_of_succ_lt_succ hlt)

/-- The list ends, and no slot of it has the reference. -/
def EndsWithout (a : Adapter) (ref : Nat) : Prop :=
  ∃ front, front.length ≤ 256 ∧ Path (links a) (a.assign % 256) front 0 ∧ ∀ y ∈ front, (a.eTbl y).assignRef ≠ ref

theorem getAssignLoop_none (front : List Nat) : ∀ (turns s : Nat), Path (links a) s front 0 →
    (∀ y ∈ front, (a.eTbl y).assignRef ≠ ref) → front.length < turns → a.getAssignLoop ref turns s = some 0 := by
  induction front with
  | nil =>
    intro turns s hpath _ hlt
    cases hpath
    cases turns with
    | zero => cases hlt
    | succ turns =>
      unfold Adapter.getAssignLoop
      rw [if_neg]
      rintro ⟨hne, -⟩
      exact hne rfl
  | cons y front ih =>
    intro turns s hpath hne hlt
    obtain ⟨rfl, hpath⟩ := hpath
    cases turns with
    | zero => cases hlt
    | succ turns =>
      unfold Adapter.getAssignLoop
      by_cases hs : s = 0
      · rw [hs, if_neg]
        rintro ⟨hz, -⟩
        exact hz rfl
      · rw [if_pos ⟨hs, hne s List.mem_cons_self⟩]
        exact ih turns (links a s) hpath (fun z hz => hne z (List.mem_cons_of_mem s hz)) (Nat.lt_of_succ_lt_succ hlt)

theorem EndsWithout.getAssign (h : EndsWithout a ref) : a.getAssign ref = some 0 := by
  obtain ⟨front, hlen, hpath, hne⟩ := h
  exact getAssignLoop_none front 257 (a.assign % 256) hpath hne (by omega)

theorem Assigns.length_lt (h : Assigns a Q L) : L.length < 256 := by
  have hsub : 0 :: L ⊆ List.range 256 := by
    intro j hj
    rw [List.mem_range]
    rcases List.mem_cons.mp hj with rfl | hj
    · decide
    · exact (h.byte j hj).2
  have hnodup : (0 :: L).Nodup := List.nodup_cons.mpr ⟨fun hz => absurd (h.byte 0 hz).1 (Nat.lt_irrefl 0), h.nodup⟩
  have hle := hnodup.length_le_of_subset hsub
  rw [List.length_cons, List.length_range] at hle
  omega

/-- The reference of an outstanding ASSIGN leads to its slot. -/
theorem Assigns.getAssign {x : Nat} (h : Assigns a Q L) (hx : Outstanding a x) : a.getAssign (a.eTbl x).assignRef = some x := by
  obtain ⟨front, rest, hL⟩ := List.append_of_mem (h.cover x hx)
  have hlen := h.length_lt
  rw [hL, List.length_append] at hlen
  obtain ⟨c, hc⟩ := h.path
  rw [hL, show front ++ x :: rest = (front ++ [x]) ++ rest by simp] at hc
  obtain ⟨d, hd, -⟩ := path_append.mp hc
  refine getAssignLoop_found front 257 (a.assign % 256) hd ?_ rfl (by omega)
  intro y hy
  refine ⟨?_, h.refs front x rest hL hx y hy⟩
  have hyL : y ∈ L := by
    rw [hL]
    exact List.mem_append_left _ hy
  exact Nat.ne_of_gt (h.byte y hyL).1

end Assigns

/-! ## Steps -/

section Steps

variable {a b c : Adapter} {Q L : List Nat} {i j p q ref : Nat} {r : Adapter.ReturnCode}

/-- The other entities and slots. -/
def Others (p i : Nat) (a b : Adapter) : Prop := ∀ q j, q ≠ p → j ≠ i → b.ent q = a.ent q ∧ (b.eTbl j).e = (a.eTbl j).e

theorem Others.of_aside (h : ∀ q j, q ≠ p → j ≠ i → Aside q j (r.id + 1) a b) : Others p i a b :=
  fun q j hq hj => ⟨(h q j hq hj).ent, (h q j hq hj).slot⟩

theorem Others.outstanding (h : Others p i a b) (hp : ∀ j, (a.eTbl j).e = some p → j = i) {x : Nat} (hx : x ≠ i) :
    Outstanding b x ↔ Outstanding a x := by
  have hslot : (b.eTbl x).e = (a.eTbl x).e := (h (p + 1) x (Nat.succ_ne_self p) hx).2
  refine exists_congr fun q => ?_
  rw [hslot]
  by_cases hq : q = p
  · subst hq
    exact ⟨fun hc => absurd (hp x hc.1) hx, fun hc => absurd (hp x hc.1) hx⟩
  · rw [(h q x hq hx).1]

/-- What happens at a slot without an outstanding ASSIGN, before and behind. -/
theorem Others.same (h : Others p i a b) (hp : ∀ j, (a.eTbl j).e = some p → j = i) (ha : ¬ Outstanding a i)
    (hb : ¬ Outstanding b i) :
    ∀ x, Outstanding b x ↔ Outstanding a x := by
  intro x
  by_cases hx : x = i
  · subst hx
    exact ⟨fun hc => absurd hc hb, fun hc => absurd hc ha⟩
  · exact h.outstanding hp hx

theorem SameLinks.of_eq (htbl : ∀ x ∈ L, b.eTbl x = a.eTbl x) (hassign : b.assign = a.assign) : SameLinks a b L :=
  ⟨hassign, fun x hx => by rw [htbl x hx], fun x hx => by rw [htbl x hx]⟩

theorem SameLinks.trans (h : SameLinks a b L) (h' : SameLinks b c L) : SameLinks a c L :=
  ⟨h'.assign.trans h.assign, fun x hx => (h'.next x hx).trans (h.next x hx), fun x hx => (h'.ref x hx).trans (h.ref x hx)⟩

theorem SameLinks.setEnt (a : Adapter) (p : Nat) (e : Entity) : SameLinks a (a.setEnt p e) L :=
  SameLinks.of_eq (fun _ _ => rfl) rfl

theorem SameLinks.freeEntity (a : Adapter) (i : Nat) : SameLinks a (a.freeEntity i) L := by
  have hslot : ∀ x, ((a.freeEntity i).eTbl x).next = (a.eTbl x).next ∧
      ((a.freeEntity i).eTbl x).assignRef = (a.eTbl x).assignRef := by
    intro x
    show ((Function.update a.eTbl i { a.eTbl i with e := none }) x).next = _ ∧ _
    by_cases hx : x = i
    · subst hx
      refine ⟨?_, ?_⟩
      · rw [Function.update_self]
      · show ((Function.update a.eTbl x { a.eTbl x with e := none }) x).assignRef = _
        rw [Function.update_self]
    · refine ⟨?_, ?_⟩
      · rw [Function.update_of_ne hx]
      · show ((Function.update a.eTbl i { a.eTbl i with e := none }) x).assignRef = _
        rw [Function.update_of_ne hx]
  exact ⟨rfl, fun x _ => (hslot x).1, fun x _ => (hslot x).2⟩

theorem Linked.tail_mem (h : Linked a Q) (hhead : a.head ≠ 0) : a.tail ∈ Q := by
  have hne : Q ≠ [] := fun hQ => hhead (h.empty_iff.mpr hQ)
  have hlast := h.last
  rw [List.getLast?_eq_getLast_of_ne_nil hne] at hlast
  rw [hlast]
  exact List.getLast_mem hne

/-- The links of slots outside the queue do not change when one comes to it. -/
theorem SameLinks.reqQueue (h : Linked a Q) (hi : i ∉ L) (hapart : ∀ x ∈ L, x ∉ Q) : SameLinks a (a.reqQueue i) L := by
  have hne : ∀ x ∈ L, x ≠ i := by
    rintro x hx rfl
    exact hi hx
  unfold Adapter.reqQueue
  dsimp only
  split
  case isFalse hz => exact SameLinks.of_eq (fun x hx => Adapter.setSlot_of_ne a (hne x hx) _) rfl
  case isTrue hhead =>
    refine SameLinks.of_eq (fun x hx => ?_) rfl
    have htail : x ≠ a.tail := by
      rintro rfl
      exact hapart _ hx (h.tail_mem hhead)
    show (Function.update (Function.update a.eTbl i _) a.tail _) x = a.eTbl x
    rw [Function.update_of_ne htail, Function.update_of_ne (hne x hx)]

/-! ## Requests -/

/-- No ASSIGN is outstanding behind slot `i` in the list. -/
def BehindNone (a : Adapter) (i : Nat) : Prop :=
  ∀ x front, Outstanding a x → Path (links a) (a.assign % 256) front x → x ∉ front → i ∉ front

theorem Assigns.not_mem (h : Assigns a Q L) (hi : ¬ Outstanding a i) (hsafe : BehindNone a i) : i ∉ L := by
  intro hmem
  have hne : L ≠ [] := List.ne_nil_of_mem hmem
  have hlast : Outstanding a (L.getLast hne) := h.last _ (List.getLast?_eq_getLast_of_ne_nil hne)
  have hL := List.dropLast_append_getLast hne
  obtain ⟨c, hc⟩ := h.path
  rw [← hL] at hc hmem
  obtain ⟨d, hd, rfl, -⟩ := path_append.mp hc
  have hnodup := h.nodup
  rw [← hL, List.nodup_append] at hnodup
  have hfirst : L.getLast hne ∉ L.dropLast := fun hm => hnodup.2.2 _ hm _ List.mem_cons_self rfl
  rcases List.mem_append.mp hmem with hm | hm
  · exact hsafe _ _ hlast hd hfirst hm
  · rw [List.mem_singleton.mp hm] at hi
    exact hi hlast

/-- What waits in the queue has not been sent. -/
theorem Queued.not_outstanding (hq : Queued a Q) (hi : i ∈ Q) : ¬ Outstanding a i := by
  rintro ⟨q, hqs, -, -, hmoref⟩
  obtain ⟨q', m, hq', hw⟩ := hq.waiting i hi
  rw [hqs] at hq'
  cases hq'
  exact hmoref hw.unsent

/-- An ASSIGN gets a slot. -/
theorem ask_assign_eq {k : Ask} (hassign : k.id.getD (a.ent k.p).id % 32 = 0) (hroom : ¬ a.eMax ≤ a.eCount) :
    a.ask k = ((a.takeSlot a.newSlot k.p).setEnt k.p { Adapter.filledIn (a.ent k.p) k with
      no := a.newSlot % 256
      more := ((0 : BitVec 8) ||| xbusy) &&& ~~~xmoref
      xCurrent := 0
      xOffset := 0
      rCurrent := 0xff }).reqQueue a.newSlot := by
  have hassign' : (Adapter.filledIn (a.ent k.p) k).id % 32 = 0 := hassign
  have hroom' : ¬ (a.setEnt k.p (Adapter.filledIn (a.ent k.p) k)).eMax
      ≤ (a.setEnt k.p (Adapter.filledIn (a.ent k.p) k)).eCount := hroom
  have hfree : ¬ (0 : BitVec 8) &&& xbusy ≠ 0 := by decide
  unfold Adapter.ask Adapter.request
  rw [Adapter.setEnt_self]
  dsimp only
  rw [if_pos hassign', if_neg hroom']
  unfold Adapter.start
  dsimp only
  rw [Adapter.setEnt_self]
  dsimp only
  have hswap : (a.setEnt k.p (Adapter.filledIn (a.ent k.p) k)).takeSlot a.newSlot k.p =
      (a.takeSlot a.newSlot k.p).setEnt k.p (Adapter.filledIn (a.ent k.p) k) := rfl
  rw [if_neg hfree, setEnt_setEnt]
  show (((a.setEnt k.p (Adapter.filledIn (a.ent k.p) k)).takeSlot a.newSlot k.p).setEnt k.p _).reqQueue a.newSlot = _
  rw [hswap, setEnt_setEnt]
  rfl

/-- Behind a request: its slot is in the queue, and nothing else has changed. -/
theorem ask_frame {k : Ask} (ht : Tables a) (hq : Queued a Q) (hok : AskOk a k) (hL : a.slotOf k ∉ L) (hapart : ∀ x ∈ L, x ∉ Q) :
    SameLinks a (a.ask k) L ∧ Others k.p (a.slotOf k) a (a.ask k) := by
  have hother : ∀ (b : Adapter) (e : Entity) (i : Nat), Others k.p i a b → Others k.p i a ((b.setEnt k.p e).reqQueue i) := by
    intro b e i hb q j hqp hji
    obtain ⟨hent, -, -⟩ := reqQueue_rest (b.setEnt k.p e) i
    rw [hent, Adapter.setEnt_of_ne b hqp, (SameTables.reqQueue _ i).slots]
    exact hb q j hqp hji
  have hok' := hok
  unfold AskOk at hok
  dsimp only at hok
  by_cases hassign : k.id.getD (a.ent k.p).id % 32 = 0
  · rw [if_pos hassign] at hok
    obtain ⟨hreq, hout, hroom⟩ := hok
    have hi : a.slotOf k = a.newSlot := if_pos hassign
    rw [hi] at hL ⊢
    obtain ⟨hpos, hmax, hfree⟩ := ht.newSlot hroom
    have hiQ : a.newSlot ∉ Q := by
      intro hm
      obtain ⟨q, m, hq', -⟩ := hq.waiting _ hm
      rw [hfree] at hq'
      cases hq'
    rw [ask_assign_eq hassign (by omega)]
    refine ⟨?_, hother _ _ _ ?_⟩
    · have htake : SameLinks a (a.takeSlot a.newSlot k.p) L := by
        refine SameLinks.of_eq (fun x hx => Adapter.setSlot_of_ne a ?_ _) rfl
        rintro rfl
        exact hL hx
      have hlinked : Linked (a.takeSlot a.newSlot k.p) Q := hq.linked.setSlot hiQ { a.eTbl a.newSlot with e := some k.p }
      refine (htake.trans (SameLinks.setEnt _ k.p _)).trans (SameLinks.reqQueue ?_ hL hapart)
      exact hlinked
    · intro q j hqp hji
      refine ⟨rfl, ?_⟩
      show (Function.update a.eTbl a.newSlot _ j).e = _
      rw [Function.update_of_ne hji]
  · rw [if_neg hassign] at hok
    have hi : a.slotOf k = (a.ent k.p).no := if_neg hassign
    rw [hi] at hL ⊢
    rw [ask_eq hassign hok.2.2.1]
    refine ⟨?_, hother a _ _ fun q j _ _ => ⟨rfl, rfl⟩⟩
    refine (SameLinks.setEnt a k.p _).trans (SameLinks.reqQueue ?_ hL hapart)
    exact hq.linked

/-- Before its request an entity has no slot, or does not wait. -/
theorem AskOk.not_outstanding {k : Ask} (hok : AskOk a k) (ht : Tables a) :
    (∀ j, (a.eTbl j).e = some k.p → j = a.slotOf k) ∧ ¬ Outstanding a (a.slotOf k) := by
  unfold AskOk at hok
  dsimp only at hok
  unfold Adapter.slotOf
  by_cases hassign : k.id.getD (a.ent k.p).id % 32 = 0
  · rw [if_pos hassign] at hok ⊢
    obtain ⟨-, -, hfree⟩ := ht.newSlot hok.2.2
    refine ⟨fun j hj => absurd hj (hok.2.1 j), ?_⟩
    rintro ⟨q, hq, -⟩
    rw [hfree] at hq
    cases hq
  · rw [if_neg hassign] at hok ⊢
    obtain ⟨-, hslot, hidle, -⟩ := hok
    refine ⟨fun j hj => ht.slot_eq hslot hj, ?_⟩
    rintro ⟨q, hq, -, hbusy, -⟩
    rw [hslot] at hq
    cases hq
    exact hbusy hidle

theorem Assigns.ask {k : Ask} (ht : Tables a) (hq : Queued a Q) (h : Assigns a Q L) (hok : AskOk a k)
    (hsafe : BehindNone a (a.slotOf k)) :
    Assigns (a.ask k) (Q ++ [a.slotOf k]) L := by
  obtain ⟨hnext, hslot⟩ := hq.ask ht hok
  have ht' := ht.ask hok.tables
  obtain ⟨hown, hbefore⟩ := hok.not_outstanding ht
  have hbehind : ¬ Outstanding (a.ask k) (a.slotOf k) :=
    hnext.not_outstanding (List.mem_append_right Q List.mem_cons_self)
  have hL := h.not_mem hbefore hsafe
  obtain ⟨hlinks, hother⟩ := ask_frame ht hq hok hL h.apart
  refine h.congr hlinks (hother.same hown hbefore hbehind) ?_
  intro x hx
  rw [List.mem_append, not_or, List.mem_singleton]
  refine ⟨h.apart x hx, ?_⟩
  rintro rfl
  exact hL hx

/-! ## Passes -/

theorem nextReq_links (a : Adapter) : a.nextReq.eTbl = a.eTbl ∧ a.nextReq.assign = a.assign ∧ a.nextReq.ent = a.ent := by
  unfold Adapter.nextReq
  dsimp only
  split <;> exact ⟨rfl, rfl, rfl⟩

/-- The reference of a new ASSIGN is not that of an outstanding one. -/
def NewRef (a : Adapter) (ref : Nat) : Prop :=
  ∀ p, (a.eTbl a.head).e = some p → (a.ent p).id % 32 = 0 → ∀ x, Outstanding a x → (a.eTbl x).assignRef ≠ ref

theorem others_turn (a : Adapter) (i p ref : Nat) : Others p i a (a.nextReq.send i p ref) := by
  intro q j hqp hji
  have haside := (Aside.nextReq a).trans (@Aside.send q p j i 0 (Ne.symm hqp) (Ne.symm hji) a.nextReq ref)
  exact ⟨haside.ent, haside.slot⟩

/-- The turn of an ASSIGN puts its slot in front of the list. -/
theorem Assigns.turn_assign (ht : Tables a) (hq : Queued a (i :: Q)) (h : Assigns a (i :: Q) L)
    (hp : (a.eTbl i).e = some p) (href : NewRef a ref) (hspec : (a.ent p).id % 32 = 0) :
    Outstanding (a.nextReq.send i p ref) i ∧ Assigns (a.nextReq.send i p ref) Q (i :: L) := by
  obtain ⟨htbl, hassign, hent⟩ := nextReq_links a
  obtain ⟨hpos, hmax, hno⟩ := ht.slot i p hp
  have hsize := ht.size
  have hiL : i ∉ L := fun hi => h.apart i hi List.mem_cons_self
  have hown : ∀ j, (a.eTbl j).e = some p → j = i := fun j hj => ht.slot_eq hp hj
  have hother := others_turn a i p ref
  have hsame := (SameTables.nextReq a).trans (SameTables.send a.nextReq i p ref)
  have hslot : ((a.nextReq.send i p ref).eTbl i).e = some p := (hsame.slots i).trans hp
  have hid : ((a.nextReq.send i p ref).ent p).id = (a.ent p).id := (hsame.ent p).1
  have hrefs := href p (by rw [hq.head_eq]; exact hp) hspec
  obtain ⟨q, k, hqp, hw⟩ := hq.waiting i List.mem_cons_self
  rw [hp] at hqp
  cases hqp
  rw [← hent] at hspec hno hw
  have hself := Adapter.setEnt_self (a.nextReq.emit (blockOf p (a.nextReq.ent p) (a.nextReq.ent p).req ref)) p
    (assigned (a.nextReq.ent p))
  rw [send_assign hspec, hno] at hslot hid hother ⊢
  generalize hb : noteType ((a.nextReq.emit (blockOf p (a.nextReq.ent p) (a.nextReq.ent p).req ref)).setEnt p
    (assigned (a.nextReq.ent p))) i (a.nextReq.ent p).id = b at hslot hid hother ⊢
  have hbent : (b.ent p).more = ((a.nextReq.ent p).more ||| xmoref) &&& ~~~xmorep := by
    rw [← hb]
    exact congrArg Entity.more hself
  have hbtbl : b.eTbl = a.eTbl := by
    rw [← hb]
    exact htbl
  have hbassign : b.assign = a.assign := by
    rw [← hb]
    exact hassign
  obtain ⟨hbusy, -, hmoref, -⟩ := more_assign (a.nextReq.ent p).more hw.busy
  rw [← hbent] at hbusy hmoref
  have hnew : (b.assignQueue i ref).eTbl i = { b.eTbl i with assignRef := ref, next := b.assign % 256 } :=
    Adapter.setSlot_self b i _
  have hbehind : Outstanding (b.assignQueue i ref) i := ⟨p, hslot, by rw [hid, ← hent]; exact hspec, hbusy, hmoref⟩
  refine ⟨hbehind, h.push hiL hpos (by omega) rfl ?_ ?_ ?_ ?_ ?_⟩
  · rw [hnew, ← hbassign]
  · intro x hx
    have hxi : x ≠ i := by
      rintro rfl
      exact hiL hx
    have hold : (b.assignQueue i ref).eTbl x = b.eTbl x := Adapter.setSlot_of_ne b hxi _
    rw [hold, hbtbl]
    exact ⟨rfl, rfl⟩
  · intro x
    by_cases hxi : x = i
    · subst hxi
      exact ⟨fun _ => Or.inl rfl, fun _ => hbehind⟩
    · rw [hother.outstanding hown hxi]
      exact ⟨Or.inr, fun hx => hx.resolve_left hxi⟩
  · intro x hx
    rcases List.mem_cons.mp hx with rfl | hx
    · exact (List.nodup_cons.mp hq.linked.nodup).1
    · exact fun hxQ => h.apart x hx (List.mem_cons_of_mem i hxQ)
  · rw [hnew]
    exact hrefs

/-- The turn of another request leaves the links of the list. -/
theorem SameLinks.turn (hq : Queued a (i :: Q)) (hno : (a.ent p).no = i) (hspec : ¬ (a.ent p).id % 32 = 0) (hiL : i ∉ L)
    (hapart : ∀ x ∈ L, x ∉ Q) : SameLinks a (a.nextReq.send i p ref) L := by
  obtain ⟨htbl, hassign, hent⟩ := nextReq_links a
  have hfirst : SameLinks a a.nextReq L := SameLinks.of_eq (fun x _ => by rw [htbl]) hassign
  refine hfirst.trans ?_
  rw [← hent] at hspec hno
  by_cases hmore : (Adapter.nextData (a.nextReq.ent p)).1 < (a.nextReq.ent p).x.length ∧ (a.nextReq.ent p).mInd ≠ 0
  · rw [send_more hspec hmore, hno]
    refine SameLinks.trans (b := (a.nextReq.emit (blockOf p (a.nextReq.ent p) (a.nextReq.ent p).mInd ref)).setEnt p
      (movedOn (a.nextReq.ent p))) (SameLinks.of_eq (fun _ _ => rfl) rfl) (SameLinks.reqQueue (Q := Q) ?_ hiL hapart)
    exact hq.linked.nextReq
  · rw [send_last hspec hmore]
    exact SameLinks.of_eq (fun _ _ => rfl) rfl

theorem Assigns.turn (ht : Tables a) (hq : Queued a (i :: Q)) (h : Assigns a (i :: Q) L) (hp : (a.eTbl i).e = some p)
    (href : NewRef a ref) :
    (Queued (a.nextReq.send i p ref) Q ∧ ∃ L', Assigns (a.nextReq.send i p ref) Q L') ∨
      (Queued (a.nextReq.send i p ref) (Q ++ [i]) ∧ (a.ent p).req ≠ uremove ∧
        ∃ L', Assigns (a.nextReq.send i p ref) (Q ++ [i]) L') := by
  have hiL : i ∉ L := fun hi => h.apart i hi List.mem_cons_self
  have hapart : ∀ x ∈ L, x ∉ Q := fun x hx hxQ => h.apart x hx (List.mem_cons_of_mem i hxQ)
  have hturn := hq.turn ht hp ref
  by_cases hspec : (a.ent p).id % 32 = 0
  · obtain ⟨hbehind, hlist⟩ := h.turn_assign ht hq hp href hspec
    rcases hturn with ⟨hnext, -⟩ | ⟨hnext, -⟩
    · exact Or.inl ⟨hnext, _, hlist⟩
    · exact absurd hbehind (hnext.not_outstanding (List.mem_append_right Q List.mem_cons_self))
  · have hsame := (SameTables.nextReq a).trans (SameTables.send a.nextReq i p ref)
    have hslot : ((a.nextReq.send i p ref).eTbl i).e = some p := (hsame.slots i).trans hp
    have hbehind : ¬ Outstanding (a.nextReq.send i p ref) i := by
      rintro ⟨q, hqs, hqid, -⟩
      rw [hslot] at hqs
      cases hqs
      rw [(hsame.ent p).1] at hqid
      exact hspec hqid
    have hout := (others_turn a i p ref).same (fun j hj => ht.slot_eq hp hj) (hq.not_outstanding List.mem_cons_self) hbehind
    have hlinks : SameLinks a (a.nextReq.send i p ref) L := SameLinks.turn hq (ht.slot i p hp).2.2 hspec hiL hapart
    rcases hturn with ⟨hnext, -⟩ | ⟨hnext, hreq⟩
    · exact Or.inl ⟨hnext, L, h.congr hlinks hout hapart⟩
    · refine Or.inr ⟨hnext, hreq, L, h.congr hlinks hout fun x hx => ?_⟩
      rw [List.mem_append, not_or, List.mem_singleton]
      refine ⟨hapart x hx, ?_⟩
      rintro rfl
      exact hiL hx

/-- In a pass: as `Passing`, with the list of the ASSIGNs. -/
def Assigning (a : Adapter) (this : Option Nat) : Prop :=
  Tables a ∧ ∃ Q L, Queued a Q ∧ Assigns a Q L ∧ ∀ p, this = some p → ∃ i, (a.eTbl i).e = some p ∧
    ((a.ent p).req = uremove → i ∉ Q)

theorem Assigning.turn (a : Adapter) (this : Option Nat) (ref : Nat) (h : Assigning a this) (hhead : a.head ≠ 0)
    (href : NewRef a ref) :
    Assigning (a.turn ref).1 (a.turn ref).2 := by
  obtain ⟨ht, Q, L, hq, hl, -⟩ := h
  obtain ⟨i, p, Q, rfl, hp⟩ := hq.first hhead
  have hsame := SameTables.turn a ref
  have hturn := hl.turn ht hq hp href
  obtain ⟨hi, -⟩ := List.nodup_cons.mp hq.linked.nodup
  rw [turn_eq hq.head_eq hp] at hsame ⊢
  refine ⟨ht.congr hsame, ?_⟩
  rcases hturn with ⟨hnext, L', hl'⟩ | ⟨hnext, hreq, L', hl'⟩
  · refine ⟨Q, L', hnext, hl', ?_⟩
    intro q hqp
    cases hqp
    exact ⟨i, (hsame.slots i).trans hp, fun _ => hi⟩
  · refine ⟨Q ++ [i], L', hnext, hl', ?_⟩
    intro q hqp
    cases hqp
    refine ⟨i, (hsame.slots i).trans hp, ?_⟩
    intro hu
    exact absurd ((hsame.ent p).2.2.symm.trans hu) hreq

/-- A slot without an outstanding ASSIGN gets free. -/
theorem Assigns.leave (ht : Tables a) (h : Assigns a Q L) (hp : (a.eTbl i).e = some p) (hspec : (a.ent p).id % 32 ≠ 0)
    (id : Nat) (e : Entity) :
    Assigns (((a.freeEntity i).clearId id).setEnt p e) Q L := by
  have hbefore : ¬ Outstanding a i := by
    rintro ⟨q, hq, hid, -⟩
    rw [hp] at hq
    cases hq
    exact hspec hid
  have hbehind : ¬ Outstanding (((a.freeEntity i).clearId id).setEnt p e) i := by
    rintro ⟨q, hq, -⟩
    change ((a.freeEntity i).eTbl i).e = some q at hq
    rw [freeEntity_self] at hq
    cases hq
  have hother : Others p i a (((a.freeEntity i).clearId id).setEnt p e) := by
    intro q j hqp hji
    have haside := @Aside.leave q p j i 1 (Ne.symm hqp) (Ne.symm hji) (by decide) a id e
    exact ⟨haside.ent, haside.slot⟩
  have hlinks : SameLinks a (((a.freeEntity i).clearId id).setEnt p e) L := by
    have hfree := @SameLinks.freeEntity L a i
    exact ⟨hfree.assign, hfree.next, hfree.ref⟩
  exact h.congr hlinks (hother.same (fun j hj => ht.slot_eq hp hj) hbefore hbehind) h.apart

theorem Assigns.prOut (ht : Tables a) (hq : Queued a Q) (h : Assigns a Q L) {ready : Nat} {refs : Nat → Nat}
    (hrefs : PassAlong NewRef refs ready 0 a) :
    Tables (a.prOut ready refs) ∧ ∃ Q' L', Queued (a.prOut ready refs) Q' ∧ Assigns (a.prOut ready refs) Q' L' := by
  unfold Adapter.prOut
  by_cases hhead : a.head = 0
  · rw [if_pos hhead]
    exact ⟨ht, Q, L, hq, h⟩
  · rw [if_neg hhead]
    by_cases hready : ready = 0
    · rw [if_pos hready]
      refine ⟨ht.congr ⟨rfl, rfl, fun _ => rfl, rfl, rfl, fun _ => ⟨rfl, rfl, rfl⟩⟩, Q, L, hq.congr rfl rfl rfl rfl rfl rfl, ?_⟩
      exact h.congr (SameLinks.of_eq (fun _ _ => rfl) rfl) (fun _ => Iff.rfl) h.apart
    · rw [if_neg hready]
      obtain ⟨ht', Q', L', hq', hl', hthis⟩ :=
        loop_along refs Assigning.turn ready 0 a none ⟨ht, Q, L, hq, h, fun p hp => nomatch hp⟩ hrefs
      dsimp only
      generalize Adapter.prOutLoop refs ready 0 a none = s at ht' hq' hl' hthis
      cases hlast : s.2 with
      | none => exact ⟨ht', Q', L', hq', hl'⟩
      | some p =>
        obtain ⟨i, hp, hi⟩ := hthis p hlast
        refine ⟨(ht'.uremoved hp).1, Q', L', ?_⟩
        unfold Adapter.uremoved
        dsimp only
        split
        case isFalse hn => exact ⟨hq', hl'⟩
        case isTrue hu =>
          have hspec : (s.1.ent p).id % 32 ≠ 0 := fun hz => ht'.assigns i p hp hz hu.1
          rw [ht'.specific i p hp hspec]
          exact ⟨hq'.leave ht' hp (hi hu.1) _ _, hl'.leave ht' hp hspec _ _⟩

/-! ## Return codes -/

/-- A step that leaves the slots, the list and the Id of `p` as they are. -/
structure Kept (p : Nat) (a b : Adapter) : Prop where
  slots : b.eTbl = a.eTbl
  assign : b.assign = a.assign
  id : (b.ent p).id = (a.ent p).id

theorem Kept.trans (h : Kept p a b) (h' : Kept p b c) : Kept p a c :=
  ⟨h'.slots.trans h.slots, h'.assign.trans h.assign, h'.id.trans h.id⟩

theorem Kept.setEnt {e : Entity} (h : e.id = (a.ent p).id) : Kept p a (a.setEnt p e) := by
  refine ⟨rfl, rfl, ?_⟩
  rw [Adapter.setEnt_self]
  exact h

theorem Kept.called {e : Entity} (h : e.id = (a.ent p).id) : Kept p a ((a.setEnt p e).callback p) :=
  (Kept.setEnt h).trans ⟨rfl, rfl, rfl⟩

theorem Kept.links (h : Kept p a b) : SameLinks a b L := SameLinks.of_eq (fun x _ => by rw [h.slots]) h.assign

theorem Kept.answer (a : Adapter) (i p : Nat) (r : Adapter.ReturnCode) (rnr : Nat) (removeComplete : Bool) :
    Kept p a (a.answer i p r rnr removeComplete) := by
  unfold Adapter.answer
  split
  case isTrue hfc =>
    refine Kept.trans (b := a.answerOkFc p r) ?_ (Kept.setEnt rfl)
    refine Kept.trans (b := { a with
      flowControlIdTable := Function.update a.flowControlIdTable r.ch r.id
      flowControlSkipTable := Function.update a.flowControlSkipTable r.ch false }) ⟨rfl, rfl, rfl⟩ ?_
    exact Kept.called rfl
  case isFalse hfc =>
    dsimp only
    have hrest : ∀ b : Adapter, Kept p a b → Kept p a (if removeComplete then b else b.restoreRnr p rnr) := by
      intro b hb
      split
      · exact hb
      · exact hb.trans (Kept.setEnt rfl)
    apply hrest
    split
    · refine Kept.trans (b := { a with noRcCancelling := Function.update a.noRcCancelling i true }) ⟨rfl, rfl, rfl⟩ ?_
      exact Kept.called rfl
    · split
      · unfold Adapter.answerFlowControl
        dsimp only
        refine Kept.trans (b := { a with flowControlIdTable := Function.update a.flowControlIdTable r.ch 0 }) ⟨rfl, rfl, rfl⟩ ?_
        split
        · refine Kept.called ?_
          split <;> rfl
        · exact ⟨rfl, rfl, rfl⟩
      · unfold Adapter.answerBlock
        dsimp only
        refine Kept.trans (b := a.setEnt p (Adapter.countDown (a.ent p))) (Kept.setEnt ?_) ?_
        · unfold Adapter.countDown
          split <;> rfl
        · split
          · exact Kept.called rfl
          · exact ⟨rfl, rfl, rfl⟩

/-- The entity of a known Id keeps its slot and its Id, or leaves. -/
theorem rcKnown_frame (a : Adapter) (i p : Nat) (r : Adapter.ReturnCode) : SameLinks a (a.rcKnown i p r) L ∧
    (((a.rcKnown i p r).eTbl i).e = none ∨
      (((a.rcKnown i p r).eTbl i).e = (a.eTbl i).e ∧ ((a.rcKnown i p r).ent p).id = (a.ent p).id)) := by
  have hkept : ∀ b, Kept p a b → SameLinks a b L ∧
      ((b.eTbl i).e = none ∨ ((b.eTbl i).e = (a.eTbl i).e ∧ (b.ent p).id = (a.ent p).id)) := by
    intro b hb
    refine ⟨hb.links, Or.inr ⟨?_, hb.id⟩⟩
    rw [hb.slots]
  have hnoted : Kept p a (a.setEnt p { a.ent p with rnr := 0, rcCh := r.ch }) := Kept.setEnt rfl
  unfold Adapter.rcKnown
  dsimp only
  split
  · split
    · exact hkept _ (hnoted.trans (Kept.setEnt rfl))
    · have hext : Kept p a ((a.setEnt p { a.ent p with rnr := 0, rcCh := r.ch }).noteExtension i r) := by
        refine hnoted.trans ?_
        unfold Adapter.noteExtension
        split <;> exact ⟨rfl, rfl, rfl⟩
      generalize (a.setEnt p { a.ent p with rnr := 0, rcCh := r.ch }).noteExtension i r = c at hext
      have hanswer := Kept.answer (c.removed i p r.id) i p r (a.ent p).rnr true
      have hfree := @SameLinks.freeEntity L c i
      have hremoved : SameLinks c (c.removed i p r.id) L := ⟨hfree.assign, hfree.next, hfree.ref⟩
      refine ⟨(hext.links.trans hremoved).trans hanswer.links, Or.inl ?_⟩
      rw [hanswer.slots]
      exact freeEntity_self c i
  · exact hkept _ (hnoted.trans (Kept.answer _ i p r _ false))

/-- A return code to the slot of an entity that has an Id. -/
theorem Assigns.rcKnown (ht : Tables a) (h : Assigns a Q L) (hp : (a.eTbl i).e = some p) (hspec : (a.ent p).id % 32 ≠ 0) :
    Assigns (a.rcKnown i p r) Q L := by
  obtain ⟨hlinks, hslot⟩ := @rcKnown_frame L a i p r
  have hbefore : ¬ Outstanding a i := by
    rintro ⟨q, hq, hid, -⟩
    rw [hp] at hq
    cases hq
    exact hspec hid
  have hbehind : ¬ Outstanding (a.rcKnown i p r) i := by
    rintro ⟨q, hq, hid, -⟩
    rcases hslot with hnone | ⟨hsame, hpid⟩
    · rw [hnone] at hq
      cases hq
    · rw [hsame, hp] at hq
      cases hq
      rw [hpid] at hid
      exact hspec hid
  have hother : Others p i a (a.rcKnown i p r) := by
    refine Others.of_aside (r := r) ?_
    intro q j hqp hji
    exact Aside.rcKnown (Ne.symm hqp) (Ne.symm hji) (Nat.succ_ne_zero _) (Ne.symm (Nat.succ_ne_self _))
  exact h.congr hlinks (hother.same (fun j hj => ht.slot_eq hp hj) hbefore hbehind) h.apart

/-- A return code to an outstanding ASSIGN. -/
theorem Assigns.rcAssign (ht : Tables a) (h : Assigns a Q L) (hp : (a.eTbl i).e = some p) :
    ∃ L', Assigns (a.rcAssign i p r) Q L' := by
  have hother : Others p i a (a.rcAssign i p r) := by
    refine Others.of_aside (r := r) ?_
    intro q j hqp hji
    exact Aside.rcAssign (Ne.symm hqp) (Ne.symm hji) (Nat.succ_ne_zero _)
  have hself : ∀ e : Entity, ((a.setEnt p e).callback p).ent p = e := fun e => Adapter.setEnt_self a p e
  have hbehind : ¬ Outstanding (a.rcAssign i p r) i := by
    rintro ⟨q, hq, -, hbusy, -⟩
    unfold Adapter.rcAssign at hq hbusy
    dsimp only at hq hbusy
    split at hq
    case isTrue hok =>
      change (a.eTbl i).e = some q at hq
      rw [hp] at hq
      cases hq
      rw [if_pos hok] at hbusy
      change (((a.setEnt p _).callback p).ent p).more &&& xbusy ≠ 0 at hbusy
      rw [hself] at hbusy
      exact hbusy (more_done (a.ent p).more).1
    case isFalse hn =>
      change ((a.freeEntity i).eTbl i).e = some q at hq
      rw [freeEntity_self] at hq
      cases hq
  have hlinks : SameLinks a (a.rcAssign i p r) L := by
    unfold Adapter.rcAssign
    dsimp only
    have hfree := @SameLinks.freeEntity L a i
    split
    · exact SameLinks.of_eq (fun _ _ => rfl) rfl
    · exact ⟨hfree.assign, hfree.next, hfree.ref⟩
  refine h.answered hlinks ?_
  intro x hx
  by_cases hxi : x = i
  · subst hxi
    exact absurd hx hbehind
  · exact (hother.outstanding (fun j hj => ht.slot_eq hp hj) hxi).mp hx

end Steps

/-! ## Runs -/

/-- A return code that is not for an Id in use answers an ASSIGN. -/
def IsAssign (a : Adapter) (r : Adapter.ReturnCode) : Prop := a.idTable r.id = 0 ∧ r.rc / 16 * 16 = assignRc

/-- The ASSIGN with this reference is outstanding. -/
def RefOutstanding (a : Adapter) (ref : Nat) : Prop := ∃ x, Outstanding a x ∧ (a.eTbl x).assignRef = ref

/-- Clients wait for their callbacks, and the references of outstanding ASSIGNs differ. A request comes when no ASSIGN is
    outstanding behind its slot in the list; an ASSIGN return code has the reference of an outstanding ASSIGN, or one that is not
    in the list, and the list ends; the others are as the queue needs them. -/
def AssignOk (a : Adapter) : Adapter.Ev → Prop
  | .ask k => AskOk a k ∧ BehindNone a (a.slotOf k)
  | .prOut ready refs => PassAlong NewRef refs ready 0 a
  | .rc r =>
    if a.idTable r.id ≠ 0 then RcFits a r
    else r.rc / 16 * 16 = assignRc → (RefOutstanding a r.ref ∨ EndsWithout a r.ref) ∧ (r.rc = assignOk → r.id % 32 ≠ 0)

section Run

variable {a : Adapter} {Q L : List Nat} {r : Adapter.ReturnCode}

/-- What `get_assign` finds is an outstanding ASSIGN. -/
theorem Assigns.found (h : Assigns a Q L) (hr : RefOutstanding a r.ref ∨ EndsWithout a r.ref) {i : Nat}
    (hi : a.getAssign r.ref = some i) :
    i = 0 ∨ Outstanding a i := by
  rcases hr with ⟨x, hx, href⟩ | hends
  · rw [← href, h.getAssign hx] at hi
    cases hi
    exact Or.inr hx
  · rw [hends.getAssign] at hi
    cases hi
    exact Or.inl rfl

theorem AssignOk.fits (ht : Tables a) (h : Assigns a Q L) (hok : AssignOk a (.rc r)) : RcFits a r := by
  unfold AssignOk at hok
  dsimp only at hok
  by_cases hid : a.idTable r.id = 0
  · rw [if_neg (not_not.mpr hid)] at hok
    intro _
    rw [if_neg (not_not.mpr hid)]
    intro hassign
    obtain ⟨hr, hspec⟩ := hok hassign
    refine ⟨?_, hspec⟩
    intro i p hi hp
    rcases h.found hr hi with rfl | ⟨q, hq, hqid, -, hmoref⟩
    · exact absurd (ht.slot 0 p hp).1 (Nat.lt_irrefl 0)
    · rw [hp] at hq
      cases hq
      exact ⟨hqid, hmoref⟩
  · rw [if_pos hid] at hok
    exact hok

theorem Assigns.rc (ht : Tables a) (h : Assigns a Q L) (r : Adapter.ReturnCode) : ∃ L', Assigns (a.step (.rc r)) Q L' := by
  show ∃ L', Assigns ((a.isdnRc r).elim a (·.2)) Q L'
  unfold Adapter.isdnRc
  by_cases hready : r.rc = readyIntRc
  · rw [if_pos hready]
    split
    · exact ⟨L, h.congr (SameLinks.of_eq (fun _ _ => rfl) rfl) (fun _ => Iff.rfl) h.apart⟩
    · exact ⟨L, h⟩
  · rw [if_neg hready]
    dsimp only
    by_cases hid : a.idTable r.id = 0
    · rw [if_neg (not_not.mpr hid)]
      split
      case isFalse hn => exact ⟨L, h⟩
      case isTrue hassign =>
        cases hget : a.getAssign r.ref with
        | none => exact ⟨L, h⟩
        | some i =>
          rw [Option.bind_some]
          split
          case isFalse hn => exact ⟨L, h⟩
          case isTrue hi =>
            cases hp : (a.eTbl i).e with
            | none => exact ⟨L, h⟩
            | some p => exact h.rcAssign ht hp
    · rw [if_pos hid]
      obtain ⟨hspec, p, hp, hpid⟩ := ht.known r.id hid
      rw [hp]
      refine ⟨L, h.rcKnown ht hp ?_⟩
      rw [hpid]
      exact hspec

theorem step_assigns (a : Adapter) (ev : Adapter.Ev) (h : Tables a ∧ ∃ Q L, Queued a Q ∧ Assigns a Q L) (hok : AssignOk a ev) :
    Tables (a.step ev) ∧ ∃ Q L, Queued (a.step ev) Q ∧ Assigns (a.step ev) Q L := by
  obtain ⟨ht, Q, L, hq, hl⟩ := h
  cases ev with
  | ask k => exact ⟨ht.ask hok.1.tables, _, L, (hq.ask ht hok.1).1, hl.ask ht hq hok.1 hok.2⟩
  | prOut ready refs => exact hl.prOut ht hq hok
  | rc r =>
    have hfits := AssignOk.fits ht hl hok
    obtain ⟨L', hl'⟩ := hl.rc ht r
    exact ⟨(ht.rc hfits.tables).1, Q, L', hq.rc ht hfits, hl'⟩

theorem init_assigns (h : a.Init) : Assigns a [] [] := by
  refine ⟨⟨_, rfl⟩, List.nodup_nil, (fun x hx => nomatch hx), (fun x hx => nomatch hx), ?_, (fun x hx => nomatch hx), ?_⟩
  · rintro x ⟨p, hp, -⟩
    rw [h.slots x] at hp
    cases hp
  · intro front x rest hL
    exact absurd hL.symm (List.append_ne_nil_of_right_ne_nil front (List.cons_ne_nil x rest))

end Run

/-- What an ASSIGN return code does. -/
structure Answers (a : Adapter) (r : Adapter.ReturnCode) : Prop where
  outstanding : ∀ x p, Outstanding a x → (a.eTbl x).e = some p → (a.eTbl x).assignRef = r.ref →
    a.isdnRc r = some (1, a.rcAssign x p r) ∧ ∃ e, (a.step (.rc r)).calls = a.calls ++ [(p, e)]
  none : ¬ RefOutstanding a r.ref → a.isdnRc r = some (2, a)
  ends : (a.getAssign r.ref).isSome

/-- In every run whose steps meet the condition: what is queued is sent once and in order, and each ASSIGN return code goes to the
    entity of the outstanding ASSIGN with its reference, or to nobody. -/
theorem assign_answers (a : Adapter) (h : a.Init) (es : List Adapter.Ev) (hc : Along Adapter.step AssignOk a es) :
    (∃ Q, Queued (run Adapter.step a es) Q) ∧
      ∀ before r behind, es = before ++ .rc r :: behind → IsAssign (run Adapter.step a before) r →
        Answers (run Adapter.step a before) r := by
  have hrun : ∀ {es}, Along Adapter.step AssignOk a es → Tables (run Adapter.step a es) ∧
      ∃ Q L, Queued (run Adapter.step a es) Q ∧ Assigns (run Adapter.step a es) Q L :=
    fun hc => Along.invariant Adapter.step step_assigns ⟨init_tables h, [], [], init_queued h, init_assigns h⟩ hc
  refine ⟨?_, ?_⟩
  · obtain ⟨-, Q, -, hq, -⟩ := hrun hc
    exact ⟨Q, hq⟩
  · intro before r behind hes hassign
    rw [hes] at hc
    obtain ⟨hbefore, hok, -⟩ := (along_append Adapter.step).mp hc
    obtain ⟨ht, Q, L, -, hl⟩ := hrun hbefore
    generalize run Adapter.step a before = s at *
    obtain ⟨hid, hcode⟩ := hassign
    unfold AssignOk at hok
    dsimp only at hok
    rw [if_neg (not_not.mpr hid)] at hok
    obtain ⟨hr, -⟩ := hok hcode
    have hready : r.rc ≠ readyIntRc := by
      intro hrc
      rw [hrc] at hcode
      exact absurd hcode (by decide)
    have hrc : s.isdnRc r = (s.getAssign r.ref).bind fun i =>
        if i ≠ 0 then (s.eTbl i).e.map fun p => (1, s.rcAssign i p r) else some (2, s) := by
      unfold Adapter.isdnRc
      rw [if_neg hready]
      dsimp only
      rw [if_neg (not_not.mpr hid), if_pos hcode]
    refine ⟨?_, ?_, ?_⟩
    · intro x p hx hp href
      have hdeliver : s.isdnRc r = some (1, s.rcAssign x p r) := by
        have hpos := (ht.slot x p hp).1
        rw [hrc, ← href, hl.getAssign hx, Option.bind_some, if_pos (Nat.ne_of_gt hpos), hp]
        rfl
      refine ⟨hdeliver, ?_⟩
      show ∃ e, ((s.isdnRc r).elim s (·.2)).calls = _
      rw [hdeliver]
      show ∃ e, (s.rcAssign x p r).calls = _
      unfold Adapter.rcAssign
      dsimp only
      split
      · exact ⟨_, rfl⟩
      · exact ⟨_, rfl⟩
    · intro hnone
      rw [hrc, (hr.resolve_left hnone).getAssign]
      rfl
    · rcases hr with ⟨x, hx, href⟩ | hends
      · rw [← href, hl.getAssign hx]
        rfl
      · rw [hends.getAssign]
        rfl

theorem Outstanding.lt {a : Adapter} (ht : Tables a) {x : Nat} (h : Outstanding a x) : x < a.eMax := by
  obtain ⟨p, hp, -⟩ := h
  exact (ht.slot x p hp).2.1

theorem not_outstanding_of_unsent {a : Adapter} (ht : Tables a)
    (h : ∀ x < a.eMax, (a.eTbl x).e.all (fun p => decide ((a.ent p).more &&& xmoref = 0)) = true) (x : Nat) :
      ¬ Outstanding a x := by
  intro hx
  have hall := h x (hx.lt ht)
  obtain ⟨p, hp, -, -, hmoref⟩ := hx
  rw [hp, Option.all_some, decide_eq_true_iff] at hall
  exact hmoref hall

def firstAssign : Ask := ⟨0, some nlId, 1, 0, []⟩

def secondAssign : Ask := ⟨1, some nlId, 1, 0, []⟩

def oneAsked : Adapter := emptyAdapter.step (.ask firstAssign)

def twoAsked : Adapter := (emptyAdapter.step (.ask firstAssign)).step (.ask secondAssign)

theorem firstAssign_ok : AskOk emptyAdapter firstAssign := ⟨by decide, (fun i hi => nomatch hi), by decide⟩

theorem oneAsked_tables : Tables oneAsked := (init_tables emptyAdapter_init).ask firstAssign_ok.tables

theorem secondAssign_ok : AskOk oneAsked secondAssign := by
  refine ⟨by decide, ?_, by decide⟩
  intro i hi
  have hfree : ∀ i < 16, (oneAsked.eTbl i).e ≠ some 1 := by decide
  exact hfree i (oneAsked_tables.slot i 1 hi).2.1 hi

theorem twoAsked_tables : Tables twoAsked := oneAsked_tables.ask secondAssign_ok.tables

/-- The first ASSIGN is outstanding with the reference 0 when the second one gets 1. -/
theorem twoAsked_refs : PassAlong NewRef id 2 0 twoAsked := by
  have hturn := twoAsked_tables.congr (SameTables.turn twoAsked 0)
  refine fun _ => ⟨?_, fun _ => ⟨?_, trivial⟩⟩
  · intro p _ _ x hx
    exact absurd hx (not_outstanding_of_unsent twoAsked_tables (by decide) x)
  · intro p _ _ x hx
    have hslots : ∀ x < 16, ((twoAsked.turn 0).1.eTbl x).e ≠ none → x = 1 ∨ x = 2 := by decide
    have hlt := hx.lt hturn
    obtain ⟨q, hq, -, -, hmoref⟩ := hx
    change ((twoAsked.turn 0).1.eTbl x).e = some q at hq
    rcases hslots x hlt (by rw [hq]; exact Option.some_ne_none q) with rfl | rfl
    · decide
    · cases hq
      exact absurd (by decide) hmoref

/-- The ASSIGNs of two clients, and their return codes in the other order. -/
def bothAnswered : List Adapter.Ev :=
  [.ask firstAssign, .ask secondAssign, .prOut 2 id, .rc ⟨assignOk, 5, 0, 1, 0⟩, .rc ⟨assignOk, 6, 0, 0, 0⟩]

theorem assign_answers_two : ∃ e e', (run Adapter.step emptyAdapter bothAnswered).calls = [(1, e), (0, e')] := by
  have hnone : ∀ x, ¬ Outstanding oneAsked x := not_outstanding_of_unsent oneAsked_tables (by decide)
  have hsecond : Outstanding (run Adapter.step emptyAdapter (bothAnswered.take 3)) 2 := ⟨1, rfl, rfl, by decide, by decide⟩
  have hfirst : Outstanding (run Adapter.step emptyAdapter (bothAnswered.take 4)) 1 := ⟨0, rfl, rfl, by decide, by decide⟩
  have hc : Along Adapter.step AssignOk emptyAdapter bothAnswered := by
    refine ⟨⟨firstAssign_ok, ?_⟩, ⟨secondAssign_ok, fun x _ hx => absurd hx (hnone x)⟩, twoAsked_refs, ?_, ?_, trivial⟩
    · rintro x front ⟨p, hp, -⟩
      cases hp
    · exact fun _ => ⟨Or.inl ⟨2, hsecond, rfl⟩, fun _ => by decide⟩
    · exact fun _ => ⟨Or.inl ⟨1, hfirst, rfl⟩, fun _ => by decide⟩
  have hanswers := (assign_answers emptyAdapter emptyAdapter_init bothAnswered hc).2
  obtain ⟨-, e, he⟩ :=
    (hanswers (bothAnswered.take 3) ⟨assignOk, 5, 0, 1, 0⟩ [.rc ⟨assignOk, 6, 0, 0, 0⟩] rfl ⟨rfl, rfl⟩).outstanding
    2 1 hsecond rfl rfl
  obtain ⟨-, e', he'⟩ := (hanswers (bothAnswered.take 4) ⟨assignOk, 6, 0, 0, 0⟩ [] rfl ⟨rfl, rfl⟩).outstanding 1 0 hfirst rfl rfl
  exact ⟨e, e', he'.trans (congrArg (· ++ [(0, e')]) he)⟩

/-- What is asked of clients and of the card. -/
def AssignAssumed (a : Adapter) : Adapter.Ev → Prop
  | .ask k => AskOk a k
  | .prOut ready refs => PassAlong NewRef refs ready 0 a
  | .rc r => if a.idTable r.id ≠ 0 then RcFits a r else r.rc / 16 * 16 = assignRc → r.rc = assignOk → r.id % 32 ≠ 0

/-- The ASSIGNs of two clients, the return code to the second, and its next request. -/
def crossing : List Adapter.Ev :=
  [.ask firstAssign, .ask secondAssign, .prOut 2 id, .rc ⟨assignOk, 5, 0, 1, 0⟩, .ask ⟨1, none, 2, 0, []⟩]

/-- The request of the second client cuts off the ASSIGN of the first: its return code is not delivered. -/
theorem assign_lost : ¬ ∀ a : Adapter, a.Init → ∀ es r, Along Adapter.step AssignAssumed a (es ++ [.rc r]) →
    IsAssign (run Adapter.step a es) r → Answers (run Adapter.step a es) r := by
  intro h
  have hc : Along Adapter.step AssignAssumed emptyAdapter (crossing ++ [.rc ⟨assignOk, 6, 0, 0, 0⟩]) :=
    ⟨firstAssign_ok, secondAssign_ok, twoAsked_refs, fun _ _ => by decide, ⟨rfl, rfl, by decide, fun _ => by decide⟩,
      fun _ _ => by decide, trivial⟩
  have hanswers := h emptyAdapter emptyAdapter_init crossing ⟨assignOk, 6, 0, 0, 0⟩ hc ⟨rfl, rfl⟩
  have hlost := (hanswers.outstanding 1 0 ⟨0, rfl, rfl, by decide, by decide⟩ rfl rfl).1
  exact absurd (congrArg (fun o => o.map Prod.fst) hlost) (by decide)

end Divas.Idi
