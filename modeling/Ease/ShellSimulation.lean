import Ease.ConsoleSimulation
import Ease.ShellSerial

/-! The shell on two consoles that go the same way: the same keys, the same lines, and the
same fault if there is one. -/

namespace Ease.Shell

open Exec (Lockstep)
open Console (Simulation)

variable {S T : Type} {R : Console S → Console T → Prop}

structure SameState (R : Console S → Console T → Prop) (state : State S) (other : State T) :
    Prop where
  editor : state.editor = other.editor
  console : R state.console other.console

structure SameMachine (R : Console S → Console T → Prop) (machine : Machine S)
    (other : Machine T) : Prop where
  keyboard : machine.keyboard = other.keyboard
  state : SameState R machine.state other.state

variable [Surface S] [Surface T] {font : Font}

theorem round_lockstep (simulation : Simulation font R) {state : State S} {other : State T}
    (same : SameState R state other) (input : KeyEvent × UInt32) :
    Lockstep (fun a b => SameState R a.1 b.1 ∧ a.2 = b.2) (round font state input)
      (round font other input) := by
  rcases input with ⟨event, tick⟩
  rw [round, round]
  dsimp only
  rw [same.editor]
  apply Lockstep.same
  intro processed _
  rcases processed with ⟨editor, line, action⟩
  apply (simulation.writeStrs same.console _).bind
  intro shown second related
  cases line with
  | none => exact .ok ⟨⟨rfl, related⟩, rfl⟩
  | some line =>
      apply Lockstep.same
      intro output _
      apply (simulation.writeStrs related _).bind
      intro printed third related
      exact .ok ⟨⟨rfl, related⟩, rfl⟩

theorem iterate_lockstep (simulation : Simulation font R) {machine : Machine S}
    {other : Machine T} (same : SameMachine R machine other) (tick : UInt32) :
    Lockstep (fun a b => SameMachine R a.1 b.1 ∧ a.2 = b.2) (iterate font machine tick)
      (iterate font other tick) := by
  rw [iterate, iterate, same.keyboard]
  apply Lockstep.same
  intro polled _
  rcases polled with ⟨keyboard, event⟩
  cases event with
  | none => exact .ok ⟨⟨rfl, same.state⟩, rfl⟩
  | some event =>
      apply (round_lockstep simulation same.state (event, tick)).bindSame
      intro state second line next
      exact .ok ⟨⟨rfl, next⟩, rfl⟩

theorem session_agrees {Q : Console S → Console T → Prop} (before : Simulation font Q)
    (after : Simulation font R) {fb : S} {screen : T}
    (attached : ∀ console other, Q console other →
      R (console.attachFb fb) (other.attachFb screen))
    (start : Q (Console.blank S) (Console.blank T)) (earlier later : List (List UInt8))
    (readings : List Reading) (ticks : List UInt32) :
    Runs.Agree (SameMachine R) (session font fb earlier later readings ticks)
      (session font screen earlier later readings ticks) := by
  apply (before.writeStrs start earlier).bindAgree
  intro first second related
  apply (after.writeStrs (attached first second related) later).bindAgree
  intro console other related
  apply Runs.run_agree
  · intro machine twin tick same
    exact (iterate_lockstep after same tick).agree
  · exact ⟨rfl, rfl, related⟩

end Ease.Shell
