import Ease.BareScreen
import Ease.ConsoleSimulation

/-! The console on the bytes of the frame buffer, in lockstep with the console on its
pixels. -/

namespace Ease

open Exec (Lockstep)

section Glyphs

variable {outer mem : Memory} {fb : FrameBuffer}

theorem Framed.drawRows (framed : Framed outer mem fb) {x : Nat} (y : Nat) (fg bg : Colour)
    (bytes : List UInt8) (fits : x + 8 < 2 ^ 32) :
    Lockstep (Framed outer) (Font.drawRows mem x y fg bg bytes)
      (Font.drawRows fb x y fg bg bytes) := by
  induction bytes generalizing mem fb y with
  | nil => exact .ok framed
  | cons byte bytes ih =>
      have room : x + (Font.glyphPixels fg bg byte).length < 2 ^ 32 := by
        rwa [Font.glyphPixels_length]
      rw [Font.drawRows, Font.drawRows]
      apply (framed.setPixels y room).bind
      intro row pixels drawn
      exact ih drawn (y + 1)

theorem Framed.drawChar (framed : Framed outer mem fb) (font : Font) (x y : Nat) (ch : UInt8)
    (fg bg : Colour) :
    Lockstep (Framed outer) (font.drawChar mem x y ch fg bg) (font.drawChar fb x y ch fg bg) := by
  rw [Font.drawChar, Font.drawChar]
  apply Lockstep.same
  intro right added
  apply Lockstep.ite
  · intro _
    have fits : x + 8 < 2 ^ 32 := (addWithin_eq added).symm.trans_lt (addWithin_lt added)
    apply Lockstep.same
    intro glyphData _
    exact framed.drawRows y fg bg glyphData fits
  · intro _
    exact .ok framed

end Glyphs

namespace Console

/-- The pixels of the console are in the memory that the other one draws on, if anything is
attached. -/
structure Stored (outer : Memory) (attached : Bool) (bare : Console Memory)
    (console : Console) : Prop where
  attached : console.fb.isSome = attached
  screen : Option.Rel (Framed outer) bare.fb console.fb
  buffer : bare.buffer = console.buffer
  cursor : bare.cursor = console.cursor
  fg : bare.fg = console.fg
  bg : bare.bg = console.bg

namespace Stored

variable {outer : Memory} {attached : Bool} {bare : Console Memory} {console : Console}

theorem alike (stored : Stored outer attached bare console) : Alike bare console := by
  rcases bare with ⟨memory, buffer, cursor, foreground, background⟩
  rcases console with ⟨fb, _, _, _, _⟩
  rcases stored with ⟨kept, screen, rfl, rfl, rfl, rfl⟩
  refine ⟨?_, rfl, rfl, rfl, rfl⟩
  cases screen with
  | none => rfl
  | some _ => rfl

theorem storeAtCursor (stored : Stored outer attached bare console) (ch : UInt8) :
    Lockstep (Stored outer attached) (bare.storeAtCursor ch) (console.storeAtCursor ch) := by
  rw [Console.storeAtCursor, Console.storeAtCursor, stored.buffer, stored.cursor]
  apply Lockstep.same
  intro line _
  apply Lockstep.same
  intro written _
  apply Lockstep.same
  intro buffer _
  exact .ok ⟨stored.attached, stored.screen, rfl, rfl, stored.fg, stored.bg⟩

theorem paint (font : Font) (stored : Stored outer attached bare console)
    (ch : UInt8) (fg bg : Colour) :
    Lockstep (Stored outer attached) (bare.paint font ch fg bg) (console.paint font ch fg bg) := by
  rcases bare with ⟨memory, buffer, cursor, foreground, background⟩
  rcases console with ⟨fb, _, _, _, _⟩
  rcases stored with ⟨kept, screen, rfl, rfl, rfl, rfl⟩
  cases screen with
  | none => exact .ok ⟨kept, .none, rfl, rfl, rfl, rfl⟩
  | some framed =>
      apply (framed.drawChar font (cursor.x * Font.width) (cursor.y * Font.height) ch fg bg).bind
      intro drawn pixels next
      exact .ok ⟨kept, .some next, rfl, rfl, rfl, rfl⟩

theorem scroll (stored : Stored outer attached bare console) :
    Lockstep (Stored outer attached) bare.scroll console.scroll := by
  rcases bare with ⟨memory, buffer, cursor, foreground, background⟩
  rcases console with ⟨fb, _, _, _, _⟩
  rcases stored with ⟨kept, screen, rfl, rfl, rfl, rfl⟩
  rw [Console.scroll, Console.scroll]
  apply Lockstep.same
  intro shifted _
  apply Lockstep.same
  intro cleared _
  cases screen with
  | none => exact .ok ⟨kept, .none, rfl, rfl, rfl, rfl⟩
  | some framed =>
      apply (framed.scroll background (by decide : Font.height * FrameBuffer.width < 2 ^ 32)).bind
      intro moved pixels next
      exact .ok ⟨kept, .some next, rfl, rfl, rfl, rfl⟩

theorem clear (stored : Stored outer attached bare console) :
    Stored outer attached bare.clear console.clear := by
  rcases bare with ⟨memory, buffer, cursor, foreground, background⟩
  rcases console with ⟨fb, _, _, _, _⟩
  rcases stored with ⟨kept, screen, rfl, rfl, rfl, rfl⟩
  cases screen with
  | none => exact ⟨kept, .none, rfl, rfl, rfl, rfl⟩
  | some framed => exact ⟨kept, .some (framed.fill background), rfl, rfl, rfl, rfl⟩

end Stored

theorem stored_simulation (font : Font) (outer : Memory) (attached : Bool) :
    Simulation font (Stored outer attached) where
  alike stored := stored.alike
  setVisible stored visible :=
    ⟨stored.attached, stored.screen, stored.buffer, by rw [setVisible, setVisible, stored.cursor],
      stored.fg, stored.bg⟩
  moveTo stored x y _ :=
    ⟨stored.attached, stored.screen, stored.buffer, by rw [moveTo, moveTo, stored.cursor],
      stored.fg, stored.bg⟩
  storeAtCursor stored := stored.storeAtCursor
  paint stored := stored.paint font
  scroll stored := stored.scroll
  clear stored := stored.clear

end Console

end Ease
