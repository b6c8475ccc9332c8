/-
  Divas.Lib.Checks — code whose accesses are checked.

  A value of `Checked` is the result of some code, or the first thing it must not do: read
  outside the bytes it was given, write outside a buffer, or go on for ever.

  Proved: when an access is allowed, and that code is if all its parts are (`ok_bind`).
-/

import Divas.Lib.Bytes
import Mathlib.Logic.Function.Basic

namespace Divas.Lib.Checks

universe u

inductive Fault where
  /-- A loop does not come to its end. -/
  | hang
  | read
  | write
  deriving DecidableEq, Repr

abbrev Checked (α : Type u) := Except Fault α

variable {α β γ : Type u}

/-- Nothing is done that must not be done. -/
def Ok (x : Checked α) : Prop := ∃ a, x = .ok a

@[simp] theorem ok_ok (a : α) : Ok (.ok a : Checked α) := ⟨a, rfl⟩

@[simp] theorem ok_pure (a : α) : Ok (pure a : Checked α) := ⟨a, rfl⟩

@[simp] theorem not_ok_error (f : Fault) : ¬ Ok (.error f : Checked α) := nofun

theorem ok_bind {x : Checked α} {f : α → Checked β} : Ok (x >>= f) ↔ ∃ a, x = .ok a ∧ Ok (f a) := by
  cases x with
  | ok a => exact ⟨fun h => ⟨a, rfl, h⟩, fun ⟨_, hb, h⟩ => Except.ok.inj hb ▸ h⟩
  | error e => exact ⟨fun h => (not_ok_error e h).elim, fun ⟨_, hb, _⟩ => nomatch hb⟩

@[simp] theorem ok_bind_ok (a : α) (f : α → Checked β) : ((.ok a : Checked α) >>= f) = f a := rfl

theorem bind_eq_ok {x : Checked α} {f : α → Checked β} {b : β} : x >>= f = .ok b ↔ ∃ a, x = .ok a ∧ f a = .ok b := by
  cases x with
  | ok a => exact ⟨fun h => ⟨a, rfl, h⟩, fun ⟨_, hb, h⟩ => Except.ok.inj hb ▸ h⟩
  | error e => exact ⟨fun h => (nomatch h), fun ⟨_, hb, _⟩ => nomatch hb⟩

/-- A byte is read. -/
def readAt (bytes : List α) (i : Nat) : Checked α :=
  match bytes[i]? with
  | some b => .ok b
  | none => .error .read

/-- Some bytes are read. -/
def slice (bytes : List α) (i n : Nat) : Checked (List α) :=
  if n = 0 ∨ i + n ≤ bytes.length then .ok ((bytes.drop i).take n) else .error .read

/-- The buffer with some bytes from a place on. -/
def blit (buf : Nat → α) (i : Nat) (bytes : List α) : Nat → α := fun j => if i ≤ j then (bytes[j - i]?).getD (buf j) else buf j

/-- Some bytes are written to a buffer. -/
def put (size : Nat) (buf : Nat → α) (i : Nat) (bytes : List α) : Checked (Nat → α) :=
  if bytes.length = 0 ∨ i + bytes.length ≤ size then .ok (blit buf i bytes) else .error .write

theorem readAt_of_lt {bytes : List α} {i : Nat} (h : i < bytes.length) : readAt bytes i = .ok bytes[i] := by
  unfold readAt
  rw [List.getElem?_eq_getElem h]

theorem readAt_eq_ok {bytes : List α} {i : Nat} {b : α} : readAt bytes i = .ok b ↔ bytes[i]? = some b := by
  unfold readAt
  cases bytes[i]? with
  | none => simp
  | some a => simp

theorem slice_of_le {bytes : List α} {i n : Nat} (h : i + n ≤ bytes.length) : slice bytes i n = .ok ((bytes.drop i).take n) :=
  if_pos (Or.inr h)

theorem put_of_le {size : Nat} (buf : Nat → α) {i : Nat} {bytes : List α} (h : i + bytes.length ≤ size) :
    put size buf i bytes = .ok (blit buf i bytes) :=
  if_pos (Or.inr h)

theorem ok_put {size : Nat} (buf : Nat → α) {i : Nat} {bytes : List α} :
    Ok (put size buf i bytes) ↔ bytes.length = 0 ∨ i + bytes.length ≤ size := by
  unfold put
  split
  case isTrue h => exact ⟨fun _ => h, fun _ => ⟨_, rfl⟩⟩
  case isFalse h => exact ⟨fun hok => (not_ok_error _ hok).elim, fun hor => absurd hor h⟩

/-- On a memory of bytes this is a store. -/
theorem blit_eq_store (m : Bytes.Mem) (k : Nat) (bytes : List UInt8) : blit m k bytes = Bytes.store m k bytes := by
  funext i
  unfold blit Bytes.store
  by_cases hk : k ≤ i
  · by_cases hi : i < k + bytes.length
    · rw [if_pos hk, if_pos ⟨hk, hi⟩, List.getD_eq_getElem?_getD, List.getElem?_eq_getElem (by omega)]
      rfl
    · rw [if_pos hk, if_neg (by omega), List.getElem?_eq_none (by omega)]
      rfl
  · rw [if_neg hk, if_neg (by omega)]

theorem put_store {size : Nat} (m : Bytes.Mem) {k : Nat} {bytes : List UInt8} (h : k + bytes.length ≤ size) :
    put size m k bytes = .ok (Bytes.store m k bytes) := by
  rw [put_of_le m h, blit_eq_store]

theorem put_eq_ok {size : Nat} {m m' : Bytes.Mem} {k : Nat} {bytes : List UInt8} :
    put size m k bytes = .ok m' ↔ (bytes.length = 0 ∨ k + bytes.length ≤ size) ∧ Bytes.store m k bytes = m' := by
  unfold put
  rw [blit_eq_store]
  split
  · rename_i h
    exact ⟨fun hok => ⟨h, Except.ok.inj hok⟩, fun hs => congrArg Except.ok hs.2⟩
  · rename_i h
    exact ⟨nofun, fun hs => absurd hs.1 h⟩

/-- Bytes that are written one behind the other are written at once. -/
theorem put_put (size : Nat) (m : Bytes.Mem) (k : Nat) (as bs : List UInt8) :
    (put size m k as >>= fun m => put size m (k + as.length) bs) = put size m k (as ++ bs) := by
  by_cases h : as.length = 0 ∨ k + as.length ≤ size
  · have hfirst : put size m k as = .ok (Bytes.store m k as) := put_eq_ok.mpr ⟨h, rfl⟩
    rw [hfirst, ok_bind_ok]
    unfold put
    rw [blit_eq_store, blit_eq_store, Bytes.store_store, List.length_append]
    exact if_congr (by omega) rfl rfl
  · unfold put
    rw [if_neg h, if_neg (by rw [List.length_append]; omega)]
    rfl

end Divas.Lib.Checks
