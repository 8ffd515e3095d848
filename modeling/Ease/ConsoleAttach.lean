import Ease.ConsoleRuns
import Ease.ConsoleSimulation

/-! Attaching a frame buffer before and after writing. -/

namespace Ease

open Scrollback

theorem FrameBuffer.ext_cells {first second : FrameBuffer}
    (same : ∀ row column, first.cell row column = second.cell row column) : first = second := by
  rcases first with ⟨pixels⟩
  rcases second with ⟨others⟩
  congr 1
  funext place
  have inside : place.val < 640 * 480 := place.isLt
  have index : place.val = (place.val / 640 / 16 * 16 + place.val / 640 % 16) * 640 +
      (place.val % 640 / 8 * 8 + place.val % 640 % 8) := by omega
  have cell := congrFun (congrFun (same ⟨place.val / 640 / 16, by omega⟩
    ⟨place.val % 640 / 8, by omega⟩) ⟨place.val / 640 % 16, by omega⟩)
    ⟨place.val % 640 % 8, by omega⟩
  calc pixels place = pixels ⟨_, index ▸ inside⟩ := congrArg pixels (Fin.ext index)
    _ = others ⟨_, index ▸ inside⟩ := cell
    _ = others place := congrArg others (Fin.ext index.symm)

/-- No glyph reaches into the last column. -/
theorem Font.drawChar_lastColumn (font : Font) {fb after : FrameBuffer} {column row : Nat}
    {ch : UInt8} {fg bg : Colour}
    (drawn : font.drawChar fb (column * width) (row * height) ch fg bg = .ok after)
    (r : Fin 30) : after.cell r (Fin.last 79) = fb.cell r (Fin.last 79) := by
  have left : column * width = column * 8 := rfl
  have top : row * height = row * 16 := rfl
  have last : (Fin.last 79).val = 79 := rfl
  by_cases inside : column < 80 ∧ row < 30
  · rcases font.drawChar_cells fb ch fg bg inside.1 inside.2 with ⟨other, same, seen⟩
    rw [drawn] at same
    cases same
    rw [seen, if_neg (by omega)]
  · rw [left, top] at drawn
    by_cases fits : column * 8 + 8 < 2 ^ 32
    · rw [font.drawChar_outside fb ch fg bg fits (by omega)] at drawn
      cases drawn
      rfl
    · rw [font.drawChar_overflow fb ch fg bg (Nat.not_lt.mp fits)] at drawn
      cases drawn

namespace Console

open Exec (Preserves)

def LastColumnClear (colour : Colour) (console : Console) : Prop :=
  console.bg = colour ∧
    ∀ fb, console.fb = some fb → ∀ row, fb.cell row (Fin.last 79) = fun _ _ => colour.asRaw

section LastColumn

variable {colour : Colour} (font : Font)

theorem paint_keeps_column (ch : UInt8) (fg bg : Colour) :
    Preserves (LastColumnClear colour) fun console => console.paint font ch fg bg := by
  intro before after painted clear
  rcases clear with ⟨background, column⟩
  dsimp only at painted
  rw [paint] at painted
  split at painted
  · cases painted
    exact ⟨background, column⟩
  · next fb attached =>
      rcases Exec.bind_eq_ok.mp painted with ⟨screen, drawn, done⟩
      cases done
      refine ⟨background, fun _ present row => ?_⟩
      cases present
      rw [font.drawChar_lastColumn drawn]
      exact column fb attached row

theorem scroll_keeps_column : Preserves (LastColumnClear colour) scroll := by
  intro before after scrolled clear
  rcases clear with ⟨background, column⟩
  rcases Exec.bind_eq_ok.mp scrolled with ⟨shifted, _, scrolled⟩
  rcases Exec.bind_eq_ok.mp scrolled with ⟨buffer, _, scrolled⟩
  dsimp only [moveTo] at scrolled
  split at scrolled
  · cases scrolled
    exact ⟨background, column⟩
  · next fb attached =>
      rcases Exec.bind_eq_ok.mp scrolled with ⟨screen, moved, done⟩
      rcases fb.scroll_cells before.bg with ⟨other, same, seen⟩
      rw [FrameBuffer.surface_scroll, same] at moved
      cases moved
      cases done
      refine ⟨background, fun _ present row => ?_⟩
      cases present
      rw [seen]
      split
      · exact column fb attached _
      · rw [background]

theorem clear_keeps_column {console : Console} (clear : console.LastColumnClear colour) :
    console.clear.LastColumnClear colour := by
  refine ⟨clear.1, fun fb present row => ?_⟩
  rcases Option.map_eq_some_iff.mp present with ⟨old, _, rfl⟩
  rw [FrameBuffer.surface_fill, FrameBuffer.cell_fill, clear.1]

theorem storeAtCursor_keeps_column (ch : UInt8) :
    Preserves (LastColumnClear colour) fun console => console.storeAtCursor ch :=
  .read fun _ => .read fun _ => .read fun _ => .ok fun _ clear => clear

theorem lastColumn_simulation :
    Simulation font fun console other => console = other ∧ LastColumnClear colour console where
  alike := by
    rintro console other ⟨rfl, _⟩
    exact ⟨rfl, rfl, rfl, rfl, rfl⟩
  setVisible := by
    rintro console other ⟨rfl, clear⟩ visible
    exact ⟨rfl, clear⟩
  moveTo := by
    rintro console other ⟨rfl, clear⟩ x y _
    exact ⟨rfl, clear⟩
  storeAtCursor := by
    rintro console other ⟨rfl, clear⟩ ch
    exact (storeAtCursor_keeps_column ch).lockstep clear
  paint := by
    rintro console other ⟨rfl, clear⟩ ch fg bg
    exact (paint_keeps_column font ch fg bg).lockstep clear
  scroll := by
    rintro console other ⟨rfl, clear⟩
    exact scroll_keeps_column.lockstep clear
  clear := by
    rintro console other ⟨rfl, clear⟩
    exact ⟨rfl, clear_keeps_column clear⟩

theorem writeStrs_keep_column (calls : List (List UInt8)) :
    Preserves (LastColumnClear colour) fun console => calls.foldlM (writeStr font) console :=
  Exec.Lockstep.preserves fun _ clear => (lastColumn_simulation font).writeStrs ⟨rfl, clear⟩ calls

end LastColumn

end Console

namespace Font

def Blank (font : Font) (ch : UInt8) : Prop :=
  ∀ (dy : Fin 16) (dx : Fin 8), bitSet (font.glyph ch dy) dx.val = false

def Solid (font : Font) (ch : UInt8) : Prop :=
  ∀ (dy : Fin 16) (dx : Fin 8), bitSet (font.glyph ch dy) dx.val = true

variable {font : Font} {ch : UInt8} {fg bg : Colour}

theorem image_background_iff (distinct : fg.asRaw ≠ bg.asRaw) :
    (font.image ch fg bg = fun _ _ => bg.asRaw) ↔ font.Blank ch := by
  constructor
  · intro same dy dx
    have pixel := congrFun (congrFun same dy) dx
    rw [image, shade] at pixel
    split at pixel
    · exact absurd pixel distinct
    · next unset => exact Bool.eq_false_of_not_eq_true unset
  · intro blank
    funext dy dx
    rw [image, shade, blank dy dx, if_neg Bool.false_ne_true]

theorem image_inverted_iff (distinct : fg.asRaw ≠ bg.asRaw) :
    (font.image ch bg fg = fun _ _ => bg.asRaw) ↔ font.Solid ch := by
  constructor
  · intro same dy dx
    have pixel := congrFun (congrFun same dy) dx
    rw [image, shade] at pixel
    split at pixel
    · next set => exact set
    · exact absurd pixel distinct
  · intro solid
    funext dy dx
    rw [image, shade, solid dy dx, if_pos rfl]

theorem image_shown_iff (distinct : fg.asRaw ≠ bg.asRaw) {here : Prop} [Decidable here] :
    ((if here then font.image ch bg fg else font.image ch fg bg) = fun _ _ => bg.asRaw) ↔
      if here then font.Solid ch else font.Blank ch := by
  split
  · exact image_inverted_iff distinct
  · exact image_background_iff distinct

end Font

namespace Console

def attachThenWrite (font : Font) (fb : FrameBuffer) (calls : List (List UInt8)) : Exec Console :=
  calls.foldlM (writeStr font) (Console.new.attachFb fb)

def writeThenAttach (font : Font) (fb : FrameBuffer) (calls : List (List UInt8)) :
    Exec Console := do
  let console ← calls.foldlM (writeStr font) Console.new
  .ok (console.attachFb fb)

/-- Both orders return, with the same frame buffer. -/
def AttachCommutes (font : Font) (fb : FrameBuffer) (calls : List (List UInt8)) : Prop :=
  ∃ first second, attachThenWrite font fb calls = .ok first ∧
    writeThenAttach font fb calls = .ok second ∧ first.fb = second.fb

/-- Drawn with a visible cursor, the page is all background, as far as cells are drawn. -/
def ShowsNothing (font : Font) (page : Page) : Prop :=
  ∀ (row : Fin 30) (column : Fin 80), column.val < 79 →
    if row = page.sheet.y ∧ column = page.x then font.Solid (page.sheet.rows row column)
    else font.Blank (page.sheet.rows row column)

def pageAfter (calls : List (List UInt8)) : Page :=
  calls.foldl (fun page bytes => bytes.foldl (Terminal.put Terminal.screen) page)
    (Terminal.start Terminal.screen)

section Attach

variable {font : Font} {fb : FrameBuffer} {calls : List (List UInt8)}

theorem writeStrs_visible {console after : Console} {page : Page}
    (displays : console.Displays page) (some : calls ≠ [])
    (written : calls.foldlM (writeStr font) console = .ok after) : after.cursor.visible = true := by
  rcases (List.eq_nil_or_concat calls).resolve_left some with ⟨front, last, rfl⟩
  rw [List.concat_eq_append, List.foldlM_append] at written
  rcases writeStrs_follow font displays front with ⟨middle, start, so⟩
  rcases writeStr_follows font so.displays last with ⟨other, wrote, _, visible⟩
  rw [start, Exec.ok_bind, List.foldlM_cons, wrote, Exec.ok_bind] at written
  cases written
  exact visible

theorem writeThenAttach_fb (font : Font) (fb : FrameBuffer) (calls : List (List UInt8)) :
    ∃ after, writeThenAttach font fb calls = .ok after ∧ after.fb = some fb := by
  have start : Console.new.Displays (Terminal.start Terminal.screen) := ⟨rfl, rfl, rfl⟩
  rcases writeStrs_follow font start calls with ⟨middle, written, _⟩
  exact ⟨middle.attachFb fb, by rw [writeThenAttach, written, Exec.ok_bind], rfl⟩

theorem attachThenWrite_cells (blank : BlankSpace font)
    (filled : ∀ x y, fb.pixel x y = Colour.black.asRaw) (some : calls ≠ []) :
    ∃ after screen, attachThenWrite font fb calls = .ok after ∧ after.fb = .some screen ∧
      ∀ row column, screen.cell row column =
        if column.val < 79 then
          if row = (pageAfter calls).sheet.y ∧ column = (pageAfter calls).x then
            font.image ((pageAfter calls).sheet.rows row column) .black .white
          else font.image ((pageAfter calls).sheet.rows row column) .white .black
        else fun _ _ => Colour.black.asRaw := by
  have start : (Console.new.attachFb fb).Displays (Terminal.start Terminal.screen) :=
    ⟨rfl, rfl, rfl⟩
  have fresh : (Console.new.attachFb fb).Fresh :=
    ⟨rfl, rfl, ⟨fb, rfl, filled⟩, Nat.zero_lt_succ 79, Nat.zero_lt_succ 29⟩
  rcases writeStrs_follow font start calls with ⟨after, written, so⟩
  have attached : after.fb.isSome = true := so.keeps.attached
  rcases (so.drawn blank (fresh.drawn blank)).faithful attached with ⟨screen, present, cells⟩
  refine ⟨after, screen, written, present, fun row column => ?_⟩
  by_cases early : column.val < 79
  · have visible := writeStrs_visible start some written
    have here := so.displays.atCursor_iff row column
    rw [cells row column (by omega), if_pos early, so.keeps.fg, so.keeps.bg, so.displays.rows]
    simp only [visible, here, true_and]
    rfl
  · have last : column = Fin.last 79 := Fin.ext (by rw [Fin.val_last]; omega)
    have clear : LastColumnClear .black (Console.new.attachFb fb) := by
      refine ⟨rfl, fun other present row => ?_⟩
      cases present
      funext dy dx
      exact filled _ _
    rw [if_neg early, last]
    exact (writeStrs_keep_column font calls _ after written clear).2 screen present row

theorem attachCommutes_iff_showsNothing (blank : BlankSpace font)
    (filled : ∀ x y, fb.pixel x y = Colour.black.asRaw) (some : calls ≠ []) :
    AttachCommutes font fb calls ↔ ShowsNothing font (pageAfter calls) := by
  have distinct : Colour.white.asRaw ≠ Colour.black.asRaw := by decide
  have plain : ∀ row column, fb.cell row column = fun _ _ => Colour.black.asRaw := by
    intro row column
    funext dy dx
    exact filled _ _
  rcases attachThenWrite_cells blank filled some with ⟨first, screen, written, present, cells⟩
  rcases writeThenAttach_fb font fb calls with ⟨second, other, untouched⟩
  constructor
  · intro commutes row column early
    rcases commutes with ⟨_, _, left, right, same⟩
    obtain rfl := Except.ok.inj (written.symm.trans left)
    obtain rfl := Except.ok.inj (other.symm.trans right)
    obtain rfl := Option.some.inj (present.symm.trans (same.trans untouched))
    have cell := cells row column
    rw [plain, if_pos early] at cell
    exact (Font.image_shown_iff distinct).mp cell.symm
  · intro nothing
    have same : screen = fb := by
      apply FrameBuffer.ext_cells
      intro row column
      rw [cells, plain]
      split
      · next early => exact (Font.image_shown_iff distinct).mpr (nothing row column early)
      · rfl
    exact ⟨first, second, written, other, by rw [present, untouched, same]⟩

end Attach

end Console

/-- Whatever is attached after the text shows the text only if there is nothing to show. -/
theorem attach_commutes_iff (font : Font) (blank : Console.BlankSpace font) (fb : FrameBuffer)
    (filled : ∀ x y, fb.pixel x y = Console.new.bg.asRaw) (calls : List (List UInt8)) :
    Console.AttachCommutes font fb calls ↔
      calls = [] ∨ Console.ShowsNothing font (Console.pageAfter calls) := by
  by_cases none : calls = []
  · subst none
    exact ⟨fun _ => .inl rfl, fun _ => ⟨_, _, rfl, rfl, rfl⟩⟩
  · rw [Console.attachCommutes_iff_showsNothing blank filled none, or_iff_right none]

theorem attach_commutes_with_tabs :
    Console.AttachCommutes sampleFont ⟨fun _ => 0⟩ [List.replicate 10 0x09] := by
  have column : (Console.pageAfter [List.replicate 10 0x09]).x = Fin.last 79 := by decide +kernel
  have spaces : ∀ row column,
      (Console.pageAfter [List.replicate 10 0x09]).sheet.rows row column = 0x20 := by
    decide +kernel
  have unset : sampleFont.Blank 0x20 := fun dy dx => by
    rw [sampleFont_blankSpace]
    revert dx
    decide
  apply (attach_commutes_iff sampleFont sampleFont_blankSpace ⟨fun _ => 0⟩ (fun _ _ => rfl) _).mpr
  refine .inr fun row place early => ?_
  have apart : ¬ (row = (Console.pageAfter [List.replicate 10 0x09]).sheet.y ∧
      place = (Console.pageAfter [List.replicate 10 0x09]).x) := by
    rintro ⟨_, rfl⟩
    rw [column] at early
    exact absurd early (by decide)
  rw [if_neg apart, spaces]
  exact unset

/-- A letter in the buffer when the frame buffer comes is not drawn. -/
theorem attach_misses_letter :
    (∀ x y, FrameBuffer.pixel ⟨fun _ => 0⟩ x y = Console.new.bg.asRaw) ∧
      ¬ Console.AttachCommutes sampleFont ⟨fun _ => 0⟩ [[0x41]] := by
  refine ⟨fun _ _ => rfl, fun commutes => ?_⟩
  have nothing := (Console.attachCommutes_iff_showsNothing sampleFont_blankSpace (fun _ _ => rfl)
    (List.cons_ne_nil _ _)).mp commutes
  -- The third row of the letter, in the first cell of the screen.
  exact absurd (nothing 0 0 (by decide) 2 3) (by decide)

end Ease
