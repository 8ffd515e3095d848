import Ease.Console
import Ease.Lockstep

/-! Two consoles that go the same way, each on its own surface. The methods that touch the
state themselves are compared one by one; then no byte tells the consoles apart. -/

namespace Ease.Console

open Exec (Lockstep)

variable {S T : Type}

structure Alike (console : Console S) (other : Console T) : Prop where
  attached : console.fb.isSome = other.fb.isSome
  cursor : console.cursor = other.cursor
  fg : console.fg = other.fg
  bg : console.bg = other.bg
  charAtCursor : console.charAtCursor = other.charAtCursor

/-- The cursor moves up only where the screen scrolls or is cleared. -/
structure Simulation [Surface S] [Surface T] (font : Font) (R : Console S → Console T → Prop) :
    Prop where
  alike : ∀ {console other}, R console other → Alike console other
  setVisible : ∀ {console other}, R console other → ∀ visible,
    R (console.setVisible visible) (other.setVisible visible)
  moveTo : ∀ {console other}, R console other → ∀ x {y}, console.cursor.y ≤ y →
    R (console.moveTo x y) (other.moveTo x y)
  storeAtCursor : ∀ {console other}, R console other → ∀ ch,
    Lockstep R (console.storeAtCursor ch) (other.storeAtCursor ch)
  paint : ∀ {console other}, R console other → ∀ ch fg bg,
    Lockstep R (console.paint font ch fg bg) (other.paint font ch fg bg)
  scroll : ∀ {console other}, R console other → Lockstep R console.scroll other.scroll
  clear : ∀ {console other}, R console other → R console.clear other.clear

namespace Simulation

variable [Surface S] [Surface T] {font : Font} {R : Console S → Console T → Prop}
  {console : Console S} {other : Console T}

theorem paintCursor (simulation : Simulation font R) (related : R console other)
    (fg bg : Colour) :
    Lockstep R (console.paintCursor font fg bg) (other.paintCursor font fg bg) := by
  have alike := simulation.alike related
  have attached := alike.attached
  rw [Console.paintCursor, Console.paintCursor, alike.charAtCursor]
  cases here : console.fb with
  | none =>
      cases there : other.fb with
      | none => exact .ok related
      | some fb => rw [here, there] at attached; cases attached
  | some fb =>
      cases there : other.fb with
      | none => rw [here, there] at attached; cases attached
      | some screen =>
          apply Lockstep.same
          intro ch _
          exact simulation.paint related ch fg bg

theorem drawChar (simulation : Simulation font R) (related : R console other) (ch : UInt8) :
    Lockstep R (console.drawChar font ch) (other.drawChar font ch) := by
  have alike := simulation.alike related
  rw [Console.drawChar, Console.drawChar, alike.fg, alike.bg]
  exact simulation.paint related ch other.fg other.bg

theorem hideCursor (simulation : Simulation font R) (related : R console other) :
    Lockstep R (console.hideCursor font) (other.hideCursor font) := by
  have alike := simulation.alike related
  rw [Console.hideCursor, Console.hideCursor, alike.cursor, alike.fg, alike.bg]
  apply Lockstep.ite
  · intro _
    apply (simulation.paintCursor related _ _).bind
    intro drawn second next
    exact .ok (simulation.setVisible next false)
  · intro _
    exact .ok related

theorem showCursor (simulation : Simulation font R) (related : R console other) :
    Lockstep R (console.showCursor font) (other.showCursor font) := by
  have alike := simulation.alike related
  rw [Console.showCursor, Console.showCursor, alike.cursor, alike.fg, alike.bg]
  apply Lockstep.ite
  · intro _
    apply (simulation.paintCursor related _ _).bind
    intro drawn second next
    exact .ok (simulation.setVisible next true)
  · intro _
    exact .ok related

theorem flash (simulation : Simulation font R) (related : R console other) (rounds : Nat) :
    Lockstep R (console.flash font rounds) (other.flash font rounds) := by
  induction rounds generalizing console other with
  | zero => exact .ok related
  | succ rounds ih =>
      rw [Console.flash, Console.flash]
      apply (simulation.drawChar related 0x2A).bind
      intro star second next
      apply (simulation.drawChar next 0x20).bind
      intro space third settled
      exact ih settled

theorem blankCells (simulation : Simulation font R) (related : R console other) (count : Nat) :
    Lockstep R (console.blankCells font count) (other.blankCells font count) := by
  induction count generalizing console other with
  | zero => exact .ok related
  | succ count ih =>
      rw [Console.blankCells, Console.blankCells]
      apply (simulation.storeAtCursor related 0x20).bind
      intro stored second next
      apply (simulation.drawChar next 0x20).bind
      intro drawn third settled
      rw [← (simulation.alike settled).cursor]
      exact ih (simulation.moveTo settled _ (Nat.le_refl _))

theorem advance (simulation : Simulation font R) (related : R console other) :
    Lockstep R console.advance other.advance := by
  have moved := simulation.moveTo related (console.cursor.x + 1) (Nat.le_refl _)
  rw [Console.advance, Console.advance, ← (simulation.alike related).cursor]
  apply Lockstep.ite
  · intro _
    have wrapped := simulation.moveTo moved 0 (Nat.le_succ _)
    apply Lockstep.ite
    · intro _
      exact simulation.scroll wrapped
    · intro _
      exact .ok wrapped
  · intro _
    exact .ok moved

theorem putBell (simulation : Simulation font R) (related : R console other) :
    Lockstep R (console.putBell font) (other.putBell font) := by
  rw [Console.putBell, Console.putBell, (simulation.alike related).charAtCursor]
  apply Lockstep.same
  intro current _
  apply (simulation.flash related 2).bind
  intro flashed second next
  apply (simulation.drawChar next current).bind
  intro drawn third settled
  exact .ok (simulation.setVisible settled false)

theorem putBack (simulation : Simulation font R) (related : R console other) :
    Lockstep R (console.putBack font) (other.putBack font) := by
  rw [Console.putBack, Console.putBack, (simulation.alike related).cursor]
  apply Lockstep.ite
  · intro _
    apply (simulation.hideCursor related).bind
    intro hid second next
    rw [← (simulation.alike next).cursor]
    exact .ok (simulation.moveTo next _ (Nat.le_refl _))
  · intro _
    exact .ok related

theorem putTab (simulation : Simulation font R) (related : R console other) :
    Lockstep R (console.putTab font) (other.putTab font) := by
  apply (simulation.hideCursor related).bind
  intro hid second next
  rw [(simulation.alike next).cursor]
  exact simulation.blankCells next _

theorem putCr (simulation : Simulation font R) (related : R console other) :
    Lockstep R (console.putCr font) (other.putCr font) := by
  apply (simulation.hideCursor related).bind
  intro hid second next
  rw [← (simulation.alike next).cursor]
  exact .ok (simulation.moveTo next 0 (Nat.le_refl _))

theorem putFf (simulation : Simulation font R) (related : R console other) :
    Lockstep R (console.putFf font) (other.putFf font) := by
  apply (simulation.hideCursor related).bind
  intro hid second next
  exact .ok (simulation.clear next)

theorem putLf (simulation : Simulation font R) (related : R console other) :
    Lockstep R (console.putLf font) (other.putLf font) := by
  apply (simulation.hideCursor related).bind
  intro hid second next
  rw [← (simulation.alike next).cursor]
  apply Lockstep.ite
  · intro _
    exact .ok (simulation.moveTo next 0 (Nat.le_succ _))
  · intro _
    exact simulation.scroll next

theorem putWriteable (simulation : Simulation font R) (related : R console other) (ch : UInt8) :
    Lockstep R (console.putWriteable font ch) (other.putWriteable font ch) := by
  apply (simulation.storeAtCursor related ch).bind
  intro stored second next
  apply (simulation.drawChar next ch).bind
  intro drawn third settled
  exact simulation.advance (simulation.setVisible settled false)

theorem putChar (simulation : Simulation font R) (related : R console other) (ch : UInt8) :
    Lockstep R (console.putChar font ch) (other.putChar font ch) := by
  unfold Console.putChar
  cases Control.of ch with
  | bell => exact simulation.putBell related
  | back => exact simulation.putBack related
  | tab => exact simulation.putTab related
  | cr => exact simulation.putCr related
  | ff => exact simulation.putFf related
  | lf => exact simulation.putLf related
  | writeable => exact simulation.putWriteable related ch

theorem writeStr (simulation : Simulation font R) (related : R console other)
    (bytes : List UInt8) :
    Lockstep R (console.writeStr font bytes) (other.writeStr font bytes) := by
  have put : Lockstep R (console.putChars font bytes) (other.putChars font bytes) :=
    Lockstep.foldlM (fun _ _ ch both => simulation.putChar both ch) related bytes
  apply put.bind
  intro written second next
  exact simulation.showCursor next

theorem writeStrs (simulation : Simulation font R) (related : R console other)
    (calls : List (List UInt8)) :
    Lockstep R (calls.foldlM (Console.writeStr font) console)
      (calls.foldlM (Console.writeStr font) other) :=
  Lockstep.foldlM (fun _ _ bytes both => simulation.writeStr both bytes) related calls

end Simulation

end Ease.Console
