/-
  Divas.Lib.Print — text that is printed piece by piece into a buffer.

  The caller keeps the position, and tells each time what is left of a limit. `Snprintf` is a
  function that writes as much of a text as this size lets it, with a zero behind it; it says
  nothing about a size of 0 or less.

  Proved: as long as the text together is shorter than the limit it is in the buffer
  (`print_room`); once it is not, the front of it stays there, whatever is printed behind
  (`Keeps.print`).
-/

import Divas.Lib.Checks

namespace Divas.Lib.Print

open Bytes Checks

/-- For a size and a text: the bytes that are written, and the number that is returned. -/
structure Snprintf where
  run : Int → List UInt8 → List UInt8 × Nat
  fits : ∀ {size : Int} {text : List UInt8}, text.length < size → run size text = (text ++ [0], text.length)
  cuts : ∀ {size : Int} {text : List UInt8}, 0 < size → size ≤ text.length →
    (run size text).1 = text.take (size.toNat - 1) ++ [0] ∧ size.toNat - 1 ≤ (run size text).2

/-- `snprintf` of the standard. Its size has no sign: a negative one is larger than any text. -/
def cSnprintf : Snprintf where
  run size text :=
    if size < 0 then (text ++ [0], text.length)
    else if size = 0 then ([], text.length)
    else (text.take (size.toNat - 1) ++ [0], text.length)
  fits h := by
    rename_i size text
    rw [if_neg (by omega), if_neg (by omega), List.take_of_length_le (by omega)]
  cuts hpos h := by
    rename_i size text
    rw [if_neg (by omega), if_neg (by omega)]
    exact ⟨rfl, by dsimp only; omega⟩

/-- A text goes to a place of a buffer of so many bytes. -/
def print (f : Snprintf) (capacity : Nat) (m : Mem) (place : Nat) (size : Int) (text : List UInt8) :
    Checked (Mem × Nat) := do
  let (bytes, written) := f.run size text
  let m ← put capacity m place bytes
  pure (m, written)

/-- The characters up to the first zero. -/
def cString (m : Mem) (capacity : Nat) : List UInt8 := (load m 0 capacity).takeWhile (· ≠ 0)

/-- The text is in the buffer, without a zero behind it. -/
structure Shown (m : Mem) (place : Nat) (text : List UInt8) : Prop where
  content : load m 0 text.length = text
  place : place = text.length

/-- What is in the buffer of the text that was printed. Before the first piece there is no zero. -/
inductive Keeps (limit : Nat) (m : Mem) (place : Nat) (text : List UInt8) : Prop where
  | room (short : text.length < limit) (shown : Shown m place text) (ended : text ≠ [] → m text.length = 0)
  | full (long : limit ≤ text.length) (content : load m 0 (limit - 1) = text.take (limit - 1)) (ended : m (limit - 1) = 0)
      (place : limit - 1 ≤ place)

variable {f : Snprintf} {capacity limit place : Nat} {m : Mem} {text piece : List UInt8}

theorem Keeps.nil (hpos : 0 < limit) (m : Mem) : Keeps limit m 0 [] := .room hpos ⟨rfl, rfl⟩ fun hne => absurd rfl hne

/-- Bytes behind the text. -/
theorem Shown.store (h : Shown m place text) (bytes : List UInt8) :
    load (store m place bytes) 0 (text.length + bytes.length) = text ++ bytes := by
  have hplace := h.place
  rw [load_add, load_store_disjoint _ (by omega), h.content, Nat.zero_add, ← hplace, load_store_self]

theorem store_last (m : Mem) (place : Nat) (bytes : List UInt8) (b : UInt8) :
    store m place (bytes ++ [b]) (place + bytes.length) = b := by
  rw [store_inside m (by simp)]
  simp

/-- While there is room the piece is printed, as much of it as has room. -/
theorem print_room (f : Snprintf) (h : Shown m place text) (hshort : text.length < limit) (hcap : limit ≤ capacity)
    (piece : List UInt8) : ∃ r, print f capacity m place (limit - place) piece = .ok r ∧
      Keeps limit r.1 (place + r.2) (text ++ piece) := by
  have hplace := h.place
  by_cases hfits : text.length + piece.length < limit
  · have hrun : f.run (limit - place) piece = (piece ++ [0], piece.length) := f.fits (by omega)
    have hput : put capacity m place (piece ++ [0]) = .ok (blit m place (piece ++ [0])) := put_of_le m (by simp; omega)
    refine ⟨(store m place (piece ++ [0]), piece.length), ?_, .room (by simpa using hfits) ⟨?_, ?_⟩ fun _ => ?_⟩
    · unfold print
      rw [hrun]
      dsimp only
      rw [hput, blit_eq_store]
      rfl
    · have hload := h.store (piece ++ [0])
      rw [List.length_append, List.length_singleton, ← Nat.add_assoc, load_add, ← List.append_assoc] at hload
      rw [List.length_append]
      exact (List.append_inj hload (by simp)).1
    · simp [hplace]
    · rw [List.length_append, ← hplace]
      exact store_last m place piece 0
  · have hcuts : (limit - place : Int) ≤ piece.length := by omega
    obtain ⟨hbytes, hret⟩ := f.cuts (by omega) hcuts
    have hn : (limit - place : Int).toNat - 1 = limit - 1 - place := by omega
    rw [hn] at hbytes hret
    have hlen : (piece.take (limit - 1 - place)).length = limit - 1 - place := by
      rw [List.length_take]
      omega
    have hroom : place + (piece.take (limit - 1 - place) ++ [0]).length ≤ capacity := by
      rw [List.length_append, hlen, List.length_singleton]
      omega
    have hput := put_of_le m hroom
    refine ⟨(store m place (piece.take (limit - 1 - place) ++ [0]), (f.run (limit - place) piece).2), ?_, .full ?_ ?_ ?_ ?_⟩
    · unfold print
      dsimp only
      rw [hbytes, hput, blit_eq_store]
      rfl
    · rw [List.length_append]
      omega
    · have hload := h.store (piece.take (limit - 1 - place) ++ [0])
      rw [List.length_append, hlen, List.length_singleton, ← Nat.add_assoc, load_add, ← List.append_assoc,
        show text.length + (limit - 1 - place) = limit - 1 by omega] at hload
      have hfront := (List.append_inj hload (by rw [load_length, List.length_append, hlen]; omega)).1
      have htext : text.take (limit - 1) = text := List.take_of_length_le (by omega)
      rw [hfront, List.take_append, htext, hplace]
    · have hlast := store_last m place (piece.take (limit - 1 - place)) 0
      rwa [hlen, show place + (limit - 1 - place) = limit - 1 by omega] at hlast
    · dsimp only
      omega

/-- The bytes in front of a place are not written. -/
theorem put_frame {m' : Mem} {bytes : List UInt8} (h : put capacity m place bytes = .ok m') :
    ∀ i, i < place → m' i = m i := by
  unfold put at h
  split at h
  · cases h
    intro i hi
    rw [blit_eq_store]
    exact store_outside m (Or.inl hi)
  · cases h

/-- Where there is no room nothing of the text is lost, whatever the piece is. -/
theorem print_full (h : load m 0 (limit - 1) = text.take (limit - 1)) (hended : m (limit - 1) = 0)
    (hlong : limit ≤ text.length) (hplace : limit - 1 ≤ place) (hpos : 0 < limit) {r : Mem × Nat}
    (hr : print f capacity m place (limit - place) piece = .ok r) : Keeps limit r.1 (place + r.2) (text ++ piece) := by
  unfold print at hr
  obtain ⟨m', hput, hret⟩ := bind_eq_ok.mp hr
  cases hret
  have hfront : ∀ i, i < limit - 1 → m' i = m i := fun i hi => put_frame hput i (by omega)
  have hzero : m' (limit - 1) = 0 := by
    by_cases hat : place = limit - 1
    -- The size is 1: only the zero is written.
    · have hbytes : (f.run (limit - place) piece).1 = [0] := by
        rcases piece with - | ⟨c, piece⟩
        · rw [f.fits (by simp; omega)]
          rfl
        · have hcuts : (limit - place : Int) ≤ (c :: piece).length := by
            rw [List.length_cons]
            omega
          rw [(f.cuts (by omega) hcuts).1, show (limit - place : Int).toNat - 1 = 0 by omega]
          rfl
      rw [hbytes] at hput
      unfold put at hput
      split at hput
      · cases hput
        rw [blit_eq_store, ← hat]
        simpa using store_last m place [] 0
      · cases hput
    · rw [put_frame hput _ (by omega)]
      exact hended
  refine .full (by rw [List.length_append]; omega) ?_ hzero (by dsimp only; omega)
  rw [List.take_append_of_le_length (by omega), ← h]
  exact load_congr fun i hi => by simpa using hfront i hi

/-- A piece behind the text. -/
theorem Keeps.print (h : Keeps limit m place text) (hpos : 0 < limit) (hcap : limit ≤ capacity) {r : Mem × Nat}
    (hr : print f capacity m place (limit - place) piece = .ok r) : Keeps limit r.1 (place + r.2) (text ++ piece) := by
  cases h with
  | room short shown ended =>
    obtain ⟨r', hr', hkeeps⟩ := print_room f shown short hcap piece
    rw [hr'] at hr
    cases hr
    exact hkeeps
  | full long content ended at_ => exact print_full content ended long at_ hpos hr

theorem Keeps.ok (f : Snprintf) (h : Keeps limit m place text) (hshort : text.length < limit) (hcap : limit ≤ capacity)
    (piece : List UInt8) : ∃ r, Print.print f capacity m place (limit - place) piece = .ok r := by
  cases h with
  | room short shown ended =>
    obtain ⟨r, hr, -⟩ := print_room f shown short hcap piece
    exact ⟨r, hr⟩
  | full long content ended at_ => omega

theorem Keeps.shown (h : Keeps limit m place text) (hshort : text.length < limit) : Shown m place text := by
  cases h with
  | room short shown ended => exact shown
  | full long content ended at_ => omega

/-! ## The string -/

theorem length_cString_le (m : Mem) (capacity : Nat) : (cString m capacity).length ≤ capacity := by
  unfold cString
  have hle := (List.takeWhile_prefix (p := fun c => decide (c ≠ 0)) (l := load m 0 capacity)).length_le
  rwa [load_length] at hle

theorem cString_eq {n : Nat} (hn : n < capacity) {text : List UInt8} (hload : load m 0 n = text) (hzero : m n = 0)
    (hclean : 0 ∉ text) : cString m capacity = text := by
  obtain ⟨k, rfl⟩ := Nat.exists_eq_add_of_lt hn
  have hsplit : load m 0 (n + k + 1) = text ++ 0 :: load m (n + 1) k := by
    rw [Nat.add_assoc, load_add, hload, Nat.add_comm k 1, load_add, load_one, Nat.zero_add, hzero]
    rfl
  unfold cString
  rw [hsplit, List.takeWhile_append_of_pos]
  · simp
  · intro c hc
    have hne : c ≠ 0 := fun h0 => hclean (h0 ▸ hc)
    simpa using hne

/-- What a reader of the buffer gets. -/
theorem Keeps.cString (h : Keeps limit m place text) (hpos : 0 < limit) (hcap : limit ≤ capacity) (hne : text ≠ [])
    (hclean : 0 ∉ text) : cString m capacity = text.take (limit - 1) := by
  cases h with
  | room short shown ended =>
    rw [List.take_of_length_le (by omega)]
    exact cString_eq (by omega) shown.content (ended hne) hclean
  | full long content ended at_ =>
    exact cString_eq (by omega) content ended fun h0 => hclean (List.mem_of_mem_take h0)

end Divas.Lib.Print
