/-
  Divas.Capi.InternalCommand — the internal commands of a PLCI (message.c).

  Actors. `start_internal_command` invokes a command at once if `internal_command` is 0, and else
  it puts it in the first free slot behind the head of the queue. A command sets
  `internal_command` to go on later, and other code calls the head of the queue again. Other code
  calls `next_internal_command` when the head has done its work: the commands that wait are
  invoked one after the other, until one sets `internal_command`. A command can do all of this
  while it is being invoked, so that the calls are nested: `stack` has those that have not
  returned. Commands are numbered in the order in which they are started.

  Proved (`internal_commands`): as long as at most three commands wait, no slot outside the queue
  is used, and each command that was started was first invoked once or waits; commands are first
  invoked in the order in which they were started, unless one is invoked at once while another
  one waits; and the head of the queue is the command that has set `internal_command`, unless a
  command is started at once or the next ones are invoked while one is being invoked. A command that
  starts another one before it sets `internal_command` breaks the order
  (`internal_commands_overtake`).
-/

import Divas.Lib.Run
import Mathlib.Logic.Function.Basic
import Mathlib.Data.List.Range

namespace Divas.Capi.Command

open Divas.Lib.Run

def maxInternalCommandLevels : Nat := 4

/-- The caller of a command. -/
inductive Caller where
  | start
  | next
  | other
  deriving DecidableEq

structure Frame where
  command : Nat
  caller : Caller

structure CmdSt where
  internalCommand : Nat
  /-- `internal_command_queue`: the number of the command, NULL is `none`. -/
  queue : Nat → Option Nat
  /-- The commands being invoked, the innermost first. -/
  stack : List Frame
  started : Nat
  /-- The commands in the order in which they were first invoked. -/
  invoked : List Nat
  /-- The command that was being invoked when `internal_command` was set. -/
  running : Option Nat
  /-- A slot behind the queue was used. -/
  outside : Bool

inductive Event where
  /-- `start_internal_command`. -/
  | start
  /-- `next_internal_command`. -/
  | next
  /-- The head of the queue is called with a return code. -/
  | call
  /-- `internal_command = v`. -/
  | set (v : Nat)
  /-- The command being invoked returns. -/
  | ret
  deriving DecidableEq

namespace CmdSt

def init : CmdSt := ⟨0, fun _ => none, [], 0, [], none, false⟩

def setSlot (s : CmdSt) (i : Nat) (c : Option Nat) : CmdSt := { s with queue := Function.update s.queue i c }

/-- `i = 1; while (internal_command_queue[i] != 0) i++`, in the queue. -/
def freeSlot (s : CmdSt) : Option Nat := (List.range' 1 (maxInternalCommandLevels - 1)).find? fun i => (s.queue i).isNone

/-- The head of the queue is invoked. -/
def invoke (s : CmdSt) (c : Nat) (caller : Caller) : CmdSt := { s with stack := ⟨c, caller⟩ :: s.stack }

def startInternalCommand (s : CmdSt) : CmdSt :=
  let c := s.started
  let s := { s with started := c + 1 }
  if s.internalCommand = 0 then { (s.setSlot 0 (some c)).invoke c .start with invoked := s.invoked ++ [c] }
  else
    match s.freeSlot with
    | some i => s.setSlot i (some c)
    | none => { s with outside := true }

/-- The queue moves up by one. -/
def shift (s : CmdSt) : CmdSt :=
  { s with
    queue := fun i =>
      if i < maxInternalCommandLevels - 1 then s.queue (i + 1) else if i = maxInternalCommandLevels - 1 then none else s.queue i }

/-- The loop of `next_internal_command`, up to where a command is invoked. -/
def nextLoop (s : CmdSt) : CmdSt :=
  match s.queue 1 with
  | none => s
  | some c => { s.shift.invoke c .next with invoked := s.invoked ++ [c] }

def nextInternalCommand (s : CmdSt) : CmdSt := ({ s with internalCommand := 0 }.setSlot 0 none).nextLoop

/-- The loop goes on behind a command that it has invoked. -/
def ret (s : CmdSt) : CmdSt :=
  match s.stack with
  | [] => s
  | ⟨_, .next⟩ :: stack =>
    if s.internalCommand ≠ 0 then { s with stack := stack } else ({ s with stack := stack }.setSlot 0 none).nextLoop
  | _ :: stack => { s with stack := stack }

def callHead (s : CmdSt) : CmdSt :=
  match s.queue 0 with
  | none => s
  | some c => s.invoke c .other

def setCommand (s : CmdSt) (v : Nat) : CmdSt := { s with internalCommand := v, running := s.stack.head?.map (·.command) }

/-- The commands that wait, in the order of the slots. -/
def waiting (s : CmdSt) : List Nat := (List.range' 1 (maxInternalCommandLevels - 1)).filterMap s.queue

end CmdSt

def step (s : CmdSt) : Event → CmdSt
  | .start => s.startInternalCommand
  | .next => s.nextInternalCommand
  | .call => s.callHead
  | .set v => s.setCommand v
  | .ret => s.ret

/-! ## Conditions on a run -/

/-- Not more than three commands wait. -/
def Room (s : CmdSt) (e : Event) : Prop :=
  e = .start → s.internalCommand ≠ 0 → s.waiting.length < maxInternalCommandLevels - 1

/-- No command is invoked at once while another one waits. -/
def InTurn (s : CmdSt) (e : Event) : Prop := e = .start → s.internalCommand = 0 → s.waiting = []

/-- While a command is being invoked, no other one is invoked at once, and the next ones are not invoked. -/
def OneByOne (s : CmdSt) (e : Event) : Prop := (e = .start ∧ s.internalCommand = 0 ∨ e = .next) → s.stack = []

instance (s : CmdSt) (e : Event) : Decidable (Room s e) := inferInstanceAs (Decidable (_ → _ → _))

instance (s : CmdSt) (e : Event) : Decidable (InTurn s e) := inferInstanceAs (Decidable (_ → _ → _))

instance (s : CmdSt) (e : Event) : Decidable (OneByOne s e) := inferInstanceAs (Decidable (_ → _))

/-! ## The queue -/

section Queue

variable {s : CmdSt} {c i : Nat}

namespace CmdSt

theorem setSlot_self (s : CmdSt) (i : Nat) (c : Option Nat) : (s.setSlot i c).queue i = c := by
  unfold setSlot
  simp

theorem waiting_eq (s : CmdSt) : s.waiting = (s.queue 1).toList ++ ((s.queue 2).toList ++ (s.queue 3).toList) := by
  show [1, 2, 3].filterMap s.queue = _
  cases h1 : s.queue 1 <;> cases h2 : s.queue 2 <;> cases h3 : s.queue 3 <;> simp [h1, h2, h3]

/-- No free slot in front of a command that waits. -/
def Packed (s : CmdSt) : Prop := (s.queue 1 = none → s.queue 2 = none) ∧ (s.queue 2 = none → s.queue 3 = none)

theorem freeSlot_cases (s : CmdSt) :
    (s.queue 1 = none ∧ s.freeSlot = some 1) ∨ (s.queue 1 ≠ none ∧ s.queue 2 = none ∧ s.freeSlot = some 2) ∨
      (s.queue 1 ≠ none ∧ s.queue 2 ≠ none ∧ s.queue 3 = none ∧ s.freeSlot = some 3) ∨
      (s.queue 1 ≠ none ∧ s.queue 2 ≠ none ∧ s.queue 3 ≠ none ∧ s.freeSlot = none) := by
  have hfree : s.freeSlot = [1, 2, 3].find? fun i => (s.queue i).isNone := rfl
  rw [hfree]
  cases h1 : s.queue 1 <;> cases h2 : s.queue 2 <;> cases h3 : s.queue 3 <;> simp [h1, h2, h3]

theorem freeSlot_pos (h : s.freeSlot = some i) : 0 < i := by
  rcases s.freeSlot_cases with ⟨-, hfree⟩ | ⟨-, -, hfree⟩ | ⟨-, -, -, hfree⟩ | ⟨-, -, -, hfree⟩
  · rw [h] at hfree
    cases hfree
    decide
  · rw [h] at hfree
    cases hfree
    decide
  · rw [h] at hfree
    cases hfree
    decide
  · rw [h] at hfree
    cases hfree

/-- With room there is a free slot, and what is put there is the last one that waits. -/
theorem enqueue_waiting (hroom : s.waiting.length < maxInternalCommandLevels - 1) (hp : s.Packed) :
    ∃ i, s.freeSlot = some i ∧ 1 ≤ i ∧ (s.setSlot i (some c)).waiting = s.waiting ++ [c] ∧ (s.setSlot i (some c)).Packed := by
  have hm : maxInternalCommandLevels - 1 = 3 := rfl
  unfold Packed at hp ⊢
  rw [waiting_eq, hm] at hroom
  rw [waiting_eq]
  rcases s.freeSlot_cases with ⟨h1, hfree⟩ | ⟨h1, h2, hfree⟩ | ⟨h1, h2, h3, hfree⟩ | ⟨h1, h2, h3, -⟩
  · have h2 := hp.1 h1
    have h3 := hp.2 h2
    refine ⟨1, hfree, by decide, ?_⟩
    rw [waiting_eq]
    simp [setSlot, h1, h2, h3]
  · have h3 := hp.2 h2
    refine ⟨2, hfree, by decide, ?_⟩
    rw [waiting_eq]
    simp [setSlot, h1, h2, h3]
  · refine ⟨3, hfree, by decide, ?_⟩
    rw [waiting_eq]
    simp [setSlot, h1, h2, h3]
  · rcases Option.ne_none_iff_exists'.mp h1 with ⟨a, ha⟩
    rcases Option.ne_none_iff_exists'.mp h2 with ⟨b, hb⟩
    rcases Option.ne_none_iff_exists'.mp h3 with ⟨d, hd⟩
    rw [ha, hb, hd] at hroom
    exact absurd hroom (by simp)

/-- The loop of `next_internal_command` invokes the first one that waits. -/
theorem nextLoop_cases (s : CmdSt) :
    (s.queue 1 = none ∧ s.nextLoop = s) ∨
      ∃ c, s.queue 1 = some c ∧ s.nextLoop = { s.shift.invoke c .next with invoked := s.invoked ++ [c] } := by
  unfold nextLoop
  cases h : s.queue 1 with
  | none => exact Or.inl ⟨rfl, rfl⟩
  | some c => exact Or.inr ⟨c, rfl, rfl⟩

theorem shift_waiting (s : CmdSt) : s.shift.waiting = (s.queue 2).toList ++ (s.queue 3).toList := by
  rw [waiting_eq]
  simp [shift, maxInternalCommandLevels]

theorem shift_packed (h : s.Packed) : s.shift.Packed := by
  unfold Packed at h ⊢
  simpa [shift, maxInternalCommandLevels] using h.2

end CmdSt

/-! ## The order -/

namespace CmdSt

/-- The commands that were first invoked, and those that wait. -/
def commands (s : CmdSt) : List Nat := s.invoked ++ s.waiting

/-- The same commands, in the same places behind the head. -/
structure Alike (s t : CmdSt) : Prop where
  queue : ∀ i, 1 ≤ i → t.queue i = s.queue i
  invoked : t.invoked = s.invoked
  started : t.started = s.started

theorem Alike.packed {t : CmdSt} (h : Alike s t) (hp : s.Packed) : t.Packed := by
  unfold Packed at hp ⊢
  rw [h.queue 1 (by decide), h.queue 2 (by decide), h.queue 3 (by decide)]
  exact hp

theorem Alike.commands {t : CmdSt} (h : Alike s t) : t.commands = s.commands := by
  unfold CmdSt.commands
  rw [h.invoked, waiting_eq, waiting_eq, h.queue 1 (by decide), h.queue 2 (by decide), h.queue 3 (by decide)]

theorem setSlot_zero (s : CmdSt) (c : Option Nat) (hi : 1 ≤ i) : (s.setSlot 0 c).queue i = s.queue i :=
  Function.update_of_ne (by omega) _ _

/-- The loop of `next_internal_command` takes a command from those that wait to those that were invoked. -/
theorem nextLoop_commands (hp : s.Packed) : s.nextLoop.Packed ∧ s.nextLoop.commands = s.commands ∧
    s.nextLoop.started = s.started := by
  rcases s.nextLoop_cases with ⟨-, heq⟩ | ⟨c, hc, heq⟩
  · rw [heq]
    exact ⟨hp, rfl, rfl⟩
  · rw [heq]
    refine ⟨shift_packed hp, ?_, rfl⟩
    show s.invoked ++ [c] ++ s.shift.waiting = s.invoked ++ s.waiting
    rw [shift_waiting, waiting_eq, hc]
    simp

end CmdSt

/-- What a step does with the commands: nothing, or a new one comes behind all others, or a new one is
    invoked at once. -/
theorem step_commands {e : Event} (hp : s.Packed) (hroom : Room s e) : (step s e).Packed ∧
    ((step s e).commands = s.commands ∧ (step s e).started = s.started ∨
      (step s e).commands = s.commands ++ [s.started] ∧ (step s e).started = s.started + 1 ∨
      e = .start ∧ s.internalCommand = 0 ∧ (step s e).commands = s.invoked ++ s.started :: s.waiting ∧
        (step s e).started = s.started + 1) := by
  -- Without a new command.
  have hsame : ∀ {t : CmdSt}, CmdSt.Alike s t → t.Packed ∧ (t.commands = s.commands ∧ t.started = s.started ∨
      t.commands = s.commands ++ [s.started] ∧ t.started = s.started + 1 ∨
      e = .start ∧ s.internalCommand = 0 ∧ t.commands = s.invoked ++ s.started :: s.waiting ∧ t.started = s.started + 1) :=
    fun h => ⟨h.packed hp, Or.inl ⟨h.commands, h.started⟩⟩
  have hloop : ∀ {t : CmdSt}, CmdSt.Alike s t → t.nextLoop.Packed ∧
      (t.nextLoop.commands = s.commands ∧ t.nextLoop.started = s.started ∨
      t.nextLoop.commands = s.commands ++ [s.started] ∧ t.nextLoop.started = s.started + 1 ∨
      e = .start ∧ s.internalCommand = 0 ∧ t.nextLoop.commands = s.invoked ++ s.started :: s.waiting ∧
        t.nextLoop.started = s.started + 1) := by
    intro t h
    obtain ⟨h1, h2, h3⟩ := CmdSt.nextLoop_commands (h.packed hp)
    exact ⟨h1, Or.inl ⟨h2.trans h.commands, h3.trans h.started⟩⟩
  have hzero : ∀ t : CmdSt, CmdSt.Alike s t → CmdSt.Alike s (t.setSlot 0 none) := fun t h =>
    ⟨fun i hi => (CmdSt.setSlot_zero t none hi).trans (h.queue i hi), h.invoked, h.started⟩
  cases e with
  | start =>
    show s.startInternalCommand.Packed ∧ _
    unfold step CmdSt.startInternalCommand
    dsimp only
    by_cases h0 : s.internalCommand = 0
    · rw [if_pos h0]
      have hwaiting : (({ s with started := s.started + 1 } : CmdSt).setSlot 0 (some s.started)).waiting = s.waiting := by
        rw [CmdSt.waiting_eq, CmdSt.waiting_eq]
        rfl
      refine ⟨hp, Or.inr (Or.inr ⟨rfl, h0, ?_, rfl⟩)⟩
      show s.invoked ++ [s.started] ++ (({ s with started := s.started + 1 } : CmdSt).setSlot 0 (some s.started)).waiting = _
      rw [hwaiting, List.append_assoc]
      rfl
    · rw [if_neg h0]
      obtain ⟨i, hfree, -, hwaiting, hpacked⟩ :=
        CmdSt.enqueue_waiting (s := { s with started := s.started + 1 }) (c := s.started) (hroom rfl h0) hp
      rw [hfree]
      refine ⟨hpacked, Or.inr (Or.inl ⟨?_, rfl⟩)⟩
      show s.invoked ++ (({ s with started := s.started + 1 } : CmdSt).setSlot i (some s.started)).waiting = _
      rw [hwaiting, ← List.append_assoc]
      rfl
  | next => exact hloop (hzero _ ⟨fun _ _ => rfl, rfl, rfl⟩)
  | call =>
    show s.callHead.Packed ∧ _
    unfold step CmdSt.callHead
    split
    · exact hsame ⟨fun _ _ => rfl, rfl, rfl⟩
    · exact hsame ⟨fun _ _ => rfl, rfl, rfl⟩
  | set v => exact hsame ⟨fun _ _ => rfl, rfl, rfl⟩
  | ret =>
    show s.ret.Packed ∧ _
    unfold step CmdSt.ret
    split
    · exact hsame ⟨fun _ _ => rfl, rfl, rfl⟩
    · split
      · exact hsame ⟨fun _ _ => rfl, rfl, rfl⟩
      · exact hloop (hzero _ ⟨fun _ _ => rfl, rfl, rfl⟩)
    · exact hsame ⟨fun _ _ => rfl, rfl, rfl⟩

/-- Each command that was started was first invoked once, or it waits. -/
structure Accounted (s : CmdSt) : Prop where
  packed : s.Packed
  once : s.commands.Perm (List.range s.started)

theorem Accounted.step {e : Event} (h : Accounted s) (hroom : Room s e) : Accounted (step s e) := by
  obtain ⟨hp, ⟨hc, hs⟩ | ⟨hc, hs⟩ | ⟨-, -, hc, hs⟩⟩ := step_commands h.packed hroom
  · exact ⟨hp, by rw [hc, hs]; exact h.once⟩
  · refine ⟨hp, ?_⟩
    rw [hc, hs, List.range_succ]
    exact h.once.append_right _
  · refine ⟨hp, ?_⟩
    rw [hc, hs, List.range_succ]
    calc (s.invoked ++ s.started :: s.waiting).Perm (s.started :: (s.invoked ++ s.waiting)) := List.perm_middle
      _ |>.Perm (s.invoked ++ s.waiting ++ [s.started]) := (List.perm_append_singleton _ _).symm
      _ |>.Perm (List.range s.started ++ [s.started]) := h.once.append_right _

/-- The commands are first invoked in order, and those that wait follow. -/
structure Ordered (s : CmdSt) : Prop where
  packed : s.Packed
  order : s.commands = List.range s.started

theorem Ordered.step {e : Event} (h : Ordered s) (hroom : Room s e) (hturn : InTurn s e) : Ordered (step s e) := by
  obtain ⟨hp, ⟨hc, hs⟩ | ⟨hc, hs⟩ | ⟨he, h0, hc, hs⟩⟩ := step_commands h.packed hroom
  · exact ⟨hp, by rw [hc, hs]; exact h.order⟩
  · exact ⟨hp, by rw [hc, hs, List.range_succ, h.order]⟩
  · refine ⟨hp, ?_⟩
    have horder := h.order
    unfold CmdSt.commands at horder
    rw [hturn he h0, List.append_nil] at horder
    rw [hc, hs, List.range_succ, hturn he h0, horder]

/-! ## The head -/

/-- The head of the queue is the command being invoked, and the one that has set `internal_command`. -/
structure Headed (s : CmdSt) : Prop where
  running : s.internalCommand ≠ 0 → ∀ c, s.running = some c → s.queue 0 = some c
  stack : ∀ f ∈ s.stack, s.queue 0 = some f.command
  /-- Only the first call is not by other code. -/
  calls : ∀ f ∈ s.stack.dropLast, f.caller = .other

theorem Headed.single {f : Frame} (h0 : s.internalCommand = 0) (hs : s.stack = [f]) (hq : s.queue 0 = some f.command) :
    Headed s where
  running h := absurd h0 h
  stack g hg := by
    rw [hs, List.mem_singleton] at hg
    rw [hg, hq]
  calls g hg := by
    rw [hs] at hg
    exact absurd hg List.not_mem_nil

theorem Headed.pop {f : Frame} {stack : List Frame} (h : Headed s) (hs : s.stack = f :: stack) :
    Headed { s with stack := stack } where
  running := h.running
  stack g hg := h.stack g (by rw [hs]; exact List.mem_cons_of_mem _ hg)
  calls g hg := by
    apply h.calls g
    rw [hs]
    cases stack with
    | nil => exact absurd hg List.not_mem_nil
    | cons f' stack => exact List.mem_cons_of_mem _ hg

theorem Headed.nextLoop (h0 : s.internalCommand = 0) (hs : s.stack = []) : Headed s.nextLoop := by
  rcases s.nextLoop_cases with ⟨-, heq⟩ | ⟨c, hc, heq⟩
  · rw [heq]
    refine ⟨fun h => absurd h0 h, ?_, ?_⟩
    · rw [hs]
      intro f hf
      exact absurd hf List.not_mem_nil
    · rw [hs]
      intro f hf
      exact absurd hf List.not_mem_nil
  · rw [heq]
    refine Headed.single (f := ⟨c, .next⟩) h0 ?_ ?_
    · show ⟨c, .next⟩ :: s.stack = _
      rw [hs]
    · exact hc

theorem Headed.step {e : Event} (h : Headed s) (hone : OneByOne s e) : Headed (step s e) := by
  cases e with
  | start =>
    show Headed s.startInternalCommand
    unfold CmdSt.startInternalCommand
    dsimp only
    by_cases h0 : s.internalCommand = 0
    · have hs := hone (Or.inl ⟨rfl, h0⟩)
      rw [if_pos h0]
      refine Headed.single (f := ⟨s.started, .start⟩) h0 ?_ ?_
      · show ⟨s.started, .start⟩ :: s.stack = _
        rw [hs]
      · exact CmdSt.setSlot_self s 0 (some s.started)
    · rw [if_neg h0]
      split
      case h_1 i hi =>
        have hi0 : 0 ≠ i := Nat.ne_of_lt (CmdSt.freeSlot_pos hi)
        have hq : Function.update s.queue i (some s.started) 0 = s.queue 0 := Function.update_of_ne hi0 _ _
        exact ⟨fun hn c hc => hq.trans (h.running hn c hc), fun f hf => hq.trans (h.stack f hf), h.calls⟩
      case h_2 => exact ⟨h.running, h.stack, h.calls⟩
  | next => exact Headed.nextLoop rfl (hone (Or.inr rfl))
  | call =>
    show Headed s.callHead
    unfold CmdSt.callHead
    split
    case h_1 => exact h
    case h_2 c hc =>
      refine ⟨h.running, ?_, ?_⟩
      · intro f hf
        rcases List.mem_cons.mp hf with rfl | hf
        · exact hc
        · exact h.stack f hf
      · intro f hf
        cases hs : s.stack with
        | nil =>
          simp [CmdSt.invoke, hs] at hf
        | cons g stack =>
          simp only [CmdSt.invoke, hs, List.dropLast_cons_cons, List.mem_cons] at hf
          rcases hf with rfl | hf
          · rfl
          · exact h.calls f (by rw [hs]; exact hf)
  | set v =>
    refine ⟨?_, h.stack, h.calls⟩
    intro _ c hc
    rcases Option.map_eq_some_iff.mp hc with ⟨f, hf, rfl⟩
    exact h.stack f (List.mem_of_mem_head? hf)
  | ret =>
    show Headed s.ret
    unfold CmdSt.ret
    split
    case h_1 => exact h
    case h_2 c stack hs =>
      split
      case isTrue => exact h.pop hs
      case isFalse h0 =>
        refine Headed.nextLoop (not_not.mp h0) ?_
        show stack = []
        cases stack with
        | nil => rfl
        | cons g stack =>
          have hcaller := h.calls ⟨c, .next⟩ (by rw [hs]; exact List.mem_cons_self)
          cases hcaller
    case h_3 f stack _ hs => exact h.pop hs

theorem freeSlot_isSome (h : s.waiting.length < maxInternalCommandLevels - 1) : s.freeSlot ≠ none := by
  rw [CmdSt.waiting_eq] at h
  rcases s.freeSlot_cases with ⟨-, hfree⟩ | ⟨-, -, hfree⟩ | ⟨-, -, -, hfree⟩ | ⟨h1, h2, h3, -⟩
  · simp [hfree]
  · simp [hfree]
  · simp [hfree]
  · rcases Option.ne_none_iff_exists'.mp h1 with ⟨a, ha⟩
    rcases Option.ne_none_iff_exists'.mp h2 with ⟨b, hb⟩
    rcases Option.ne_none_iff_exists'.mp h3 with ⟨d, hd⟩
    rw [ha, hb, hd] at h
    exact absurd h (by simp [maxInternalCommandLevels])

theorem nextLoop_outside (s : CmdSt) : s.nextLoop.outside = s.outside := by
  rcases s.nextLoop_cases with ⟨-, heq⟩ | ⟨c, -, heq⟩
  · rw [heq]
  · rw [heq]
    rfl

theorem step_outside {e : Event} (h : s.outside = false) (hroom : Room s e) : (step s e).outside = false := by
  cases e with
  | start =>
    show s.startInternalCommand.outside = false
    unfold CmdSt.startInternalCommand
    dsimp only
    by_cases h0 : s.internalCommand = 0
    · rw [if_pos h0]
      exact h
    · rw [if_neg h0]
      split
      case h_1 => exact h
      case h_2 hfree => exact absurd hfree (freeSlot_isSome (hroom rfl h0))
  | next => exact (nextLoop_outside _).trans h
  | call =>
    show s.callHead.outside = false
    unfold CmdSt.callHead
    split
    · exact h
    · exact h
  | set v => exact h
  | ret =>
    show s.ret.outside = false
    unfold CmdSt.ret
    split
    · exact h
    · split
      · exact h
      · exact (nextLoop_outside _).trans h
    · exact h

/-- A command is first invoked from the head of the queue. -/
theorem step_invoked {e : Event} {c : Nat} (h : (step s e).invoked = s.invoked ++ [c]) : (step s e).queue 0 = some c := by
  have hnone : ∀ {l : List Nat}, l ≠ l ++ [c] := by
    intro l hl
    have := congrArg List.length hl
    simp at this
  have hloop : ∀ {t : CmdSt}, t.nextLoop.invoked = t.invoked ++ [c] → t.nextLoop.queue 0 = some c := by
    intro t ht
    rcases t.nextLoop_cases with ⟨-, heq⟩ | ⟨d, hd, heq⟩
    · rw [heq] at ht
      exact absurd ht hnone
    · rw [heq] at ht ⊢
      have hcd : d = c := by simpa using ht
      rw [← hcd]
      exact hd
  cases e with
  | start =>
    revert h
    show s.startInternalCommand.invoked = s.invoked ++ [c] → s.startInternalCommand.queue 0 = some c
    unfold CmdSt.startInternalCommand
    dsimp only
    by_cases h0 : s.internalCommand = 0
    · rw [if_pos h0]
      intro h
      have hc : s.started = c := by simpa using h
      rw [← hc]
      exact CmdSt.setSlot_self s 0 (some s.started)
    · rw [if_neg h0]
      split
      · exact fun h => absurd h hnone
      · exact fun h => absurd h hnone
  | next => exact hloop h
  | call =>
    revert h
    show s.callHead.invoked = s.invoked ++ [c] → s.callHead.queue 0 = some c
    unfold CmdSt.callHead
    split
    · exact fun h => absurd h hnone
    · exact fun h => absurd h hnone
  | set v => exact absurd h hnone
  | ret =>
    revert h
    show s.ret.invoked = s.invoked ++ [c] → s.ret.queue 0 = some c
    unfold CmdSt.ret
    split
    · exact fun h => absurd h hnone
    · split
      · exact fun h => absurd h hnone
      · exact hloop
    · exact fun h => absurd h hnone

theorem init_ordered : Ordered CmdSt.init := ⟨⟨fun _ => rfl, fun _ => rfl⟩, rfl⟩

theorem init_accounted : Accounted CmdSt.init := ⟨⟨fun _ => rfl, fun _ => rfl⟩, .refl _⟩

theorem init_headed : Headed CmdSt.init :=
  ⟨fun h => absurd rfl h, fun _ h => absurd h List.not_mem_nil, fun _ h => absurd h List.not_mem_nil⟩

end Queue

/-- In every run in which at most three commands wait. -/
theorem internal_commands (es : List Event) (hroom : Along step Room CmdSt.init es) :
    (run step CmdSt.init es).outside = false ∧
    ((run step CmdSt.init es).invoked ++ (run step CmdSt.init es).waiting).Perm (List.range (run step CmdSt.init es).started) ∧
    (∀ e c, (step (run step CmdSt.init es) e).invoked = (run step CmdSt.init es).invoked ++ [c] →
      (step (run step CmdSt.init es) e).queue 0 = some c) ∧
    (Along step InTurn CmdSt.init es →
      (run step CmdSt.init es).invoked ++ (run step CmdSt.init es).waiting = List.range (run step CmdSt.init es).started) ∧
    (Along step OneByOne CmdSt.init es → (run step CmdSt.init es).internalCommand ≠ 0 →
      ∀ c, (run step CmdSt.init es).running = some c → (run step CmdSt.init es).queue 0 = some c) := by
  refine ⟨?_, ?_, fun e c h => step_invoked h, ?_, ?_⟩
  · exact hroom.invariant step (fun s e h hr => step_outside h hr) rfl
  · exact (hroom.invariant step (fun s e h hr => h.step hr) init_accounted).once
  · intro hturn
    have hboth : Along step (fun s e => Room s e ∧ InTurn s e) CmdSt.init es := (along_and step).mpr ⟨hroom, hturn⟩
    exact (hboth.invariant step (fun s e h hr => h.step hr.1 hr.2) init_ordered).order
  · intro hone
    exact (hone.invariant step (fun s e h hr => h.step hr) init_headed).running

/-- Three commands, the second and the third while the first one runs. -/
theorem internal_commands_three :
    let es : List Event := [.start, .set 1, .ret, .start, .start, .next, .set 2]
    (run step CmdSt.init es).invoked ++ (run step CmdSt.init es).waiting = [0, 1, 2] := by
  exact (internal_commands _ (by decide)).2.2.2.1 (by decide)

/-- Command 1 is invoked behind command 0, and starts command 3 at once, before command 2; and a command that
    has the next ones invoked is not the head when it goes on. -/
theorem internal_commands_overtake :
    ¬ (∀ es, Along step Room CmdSt.init es →
        (run step CmdSt.init es).invoked ++ (run step CmdSt.init es).waiting = List.range (run step CmdSt.init es).started) ∧
      ¬ (∀ es, Along step Room CmdSt.init es → (run step CmdSt.init es).internalCommand ≠ 0 →
        ∀ c, (run step CmdSt.init es).running = some c → (run step CmdSt.init es).queue 0 = some c) := by
  constructor
  · intro h
    have := h [.start, .set 1, .ret, .start, .start, .next, .start] (by decide)
    exact absurd this (by decide)
  · intro h
    have := h [.start, .set 1, .start, .next, .set 5, .ret, .set 7] (by decide) (by decide) 0 (by decide)
    exact absurd this (by decide)

end Divas.Capi.Command
