import Ease.ConsoleScreen

/-! The console over whole runs: its text is the end of an unbounded scrollback, and
its pixels are its text. -/

namespace Ease

open Scrollback

/-- With or without a frame buffer, every byte is handled, and the screen is the
window onto the last rows that the reference terminal has written. -/
theorem console_refines_scrollback (font : Font) (attached : Option FrameBuffer)
    (bytes : List UInt8) :
    ∃ console, { Console.new with fb := attached }.putChars font bytes = .ok console ∧
      let reference := bytes.foldl (Terminal.put Terminal.scrollback)
        (Terminal.start Terminal.scrollback)
      (console.cursor.x = reference.x.val ∧ console.cursor.x < 80) ∧
      (console.cursor.y = min reference.sheet.y 29 ∧ console.cursor.y < 30) ∧
      ∀ row : Fin 30,
        console.buffer row = reference.sheet.rows (reference.sheet.y - 29 + row.val) := by
  have start : Console.Displays { Console.new with fb := attached }
      (Terminal.start Terminal.screen) := ⟨rfl, rfl, rfl⟩
  rcases Console.putChars_follows font start bytes with ⟨console, written, so⟩
  have related := Terminal.screen_views_scrollback bytes
  refine ⟨console, written, ⟨?_, so.displays.inRow⟩, ⟨?_, so.displays.inScreen⟩, fun row => ?_⟩
  · rw [so.displays.x, related.x]
  · rw [so.displays.y, related.sheet.y_eq]
  · rw [so.displays.rows, related.sheet.rows_eq]

namespace Console

/-- Every cell of the first 79 columns is the glyph of its byte in the two colours,
with the colours exchanged under a visible cursor and nowhere else. -/
def FaithfulPixels (font : Font) (console : Console) (fg bg : Colour) : Prop :=
  ∃ fb, console.fb = some fb ∧ ∀ (row : Fin 30) (column : Fin 80), column.val ≤ 78 →
    fb.cell row column =
      if console.cursor.visible = true ∧ console.AtCursor row column then
        font.image (console.buffer row column) bg fg
      else font.image (console.buffer row column) fg bg

/-- Nothing written yet; the cursor is on the screen, where every method leaves it. -/
structure Fresh (console : Console) : Prop where
  buffer : console.buffer = fun _ => blankLine
  hidden : console.cursor.visible = false
  filled : ∃ fb, console.fb = some fb ∧ ∀ x y, fb.pixel x y = console.bg.asRaw
  inRow : console.cursor.x < 80
  inScreen : console.cursor.y < 30

variable {font : Font} {console : Console}

theorem Drawn.faithful (drawn : console.Drawn font) (attached : console.fb.isSome = true) :
    console.FaithfulPixels font console.fg console.bg := by
  rcases Option.isSome_iff_exists.mp attached with ⟨fb, present⟩
  refine ⟨fb, present, fun row column early => ?_⟩
  by_cases here : console.AtCursor row column
  · cases visible : console.cursor.visible with
    | true =>
        rw [if_pos ⟨rfl, here⟩]
        exact drawn.shown visible fb present row column (by omega) here
    | false =>
        rw [if_neg nofun]
        exact drawn.hidden visible fb present row column (by omega) here
  · rw [if_neg fun both => here both.2]
    exact drawn.elsewhere fb present row column (by omega) here

theorem Fresh.displays (fresh : console.Fresh) :
    console.Displays ⟨⟨fun _ => blankLine, ⟨console.cursor.y, fresh.inScreen⟩⟩,
      ⟨console.cursor.x, fresh.inRow⟩⟩ :=
  ⟨fresh.buffer, rfl, rfl⟩

theorem Fresh.drawn (fresh : console.Fresh) (blank : BlankSpace font) : console.Drawn font := by
  rcases fresh.filled with ⟨fb, present, filled⟩
  refine Plain.drawn (fun other attached row column _ => ?_) fresh.hidden
  obtain rfl := Option.some.inj (present.symm.trans attached)
  have space : console.buffer row column = 0x20 := by rw [fresh.buffer]; rfl
  rw [space, image_space blank]
  funext dy dx
  exact filled _ _

end Console

theorem write_str_draws_text (font : Font) (blank : Console.BlankSpace font) (console : Console)
    (fresh : console.Fresh) (calls : List (List UInt8)) :
    ∃ after, calls.foldlM (Console.writeStr font) console = .ok after ∧
      after.FaithfulPixels font console.fg console.bg := by
  rcases Console.writeStrs_follow font fresh.displays calls with ⟨after, written, so⟩
  have attached : after.fb.isSome = true := by
    rcases fresh.filled with ⟨fb, present, _⟩
    rw [so.keeps.attached, present]
    rfl
  refine ⟨after, written, ?_⟩
  rw [← so.keeps.fg, ← so.keeps.bg]
  exact (so.drawn blank (fresh.drawn blank)).faithful attached

def sampleFont : Font where
  data i :=
    if 0x41 * 16 ≤ i.val then
      [0x00, 0x00, 0x10, 0x38, 0x6C, 0xC6, 0xC6, 0xFE, 0xC6, 0xC6, 0xC6, 0xC6].getD
        (i.val - 0x41 * 16) 0
    else 0

theorem sampleFont_blankSpace : Console.BlankSpace sampleFont := by
  intro dy
  revert dy
  decide

theorem write_str_draws_letter :
    ∃ after, [[0x41, 0x41], [0x0A, 0x41, 0x08]].foldlM (Console.writeStr sampleFont)
        (Console.new.attachFb ⟨fun _ => 0⟩) = .ok after ∧
      after.FaithfulPixels sampleFont .white .black :=
  write_str_draws_text sampleFont sampleFont_blankSpace (Console.new.attachFb ⟨fun _ => 0⟩)
    ⟨rfl, rfl, ⟨_, rfl, fun _ _ => rfl⟩, by decide, by decide⟩ [[0x41, 0x41], [0x0A, 0x41, 0x08]]

end Ease
