import Ease.Console

/-! The console writes the screen that the terminal on paper describes, and draws
every cell of it, for any bytes. -/

namespace Ease.Console

open Scrollback

abbrev Page := Terminal (Window Line 30)

structure Displays (console : Console) (page : Page) : Prop where
  rows : console.buffer = page.sheet.rows
  x : console.cursor.x = page.x.val
  y : console.cursor.y = page.sheet.y.val

def AtCursor (console : Console) (row : Fin 30) (column : Fin 80) : Prop :=
  row.val = console.cursor.y ∧ column.val = console.cursor.x

instance (console : Console) (row : Fin 30) (column : Fin 80) :
    Decidable (console.AtCursor row column) := inferInstanceAs (Decidable (_ ∧ _))

/-- The last column is never drawn, so it is left out. -/
def DrawnElsewhere (font : Font) (console : Console) : Prop :=
  ∀ fb, console.fb = some fb → ∀ row column, column.val < 79 → ¬ console.AtCursor row column →
    fb.cell row column = font.image (console.buffer row column) console.fg console.bg

def DrawnAtCursor (font : Font) (console : Console) (fg bg : Colour) : Prop :=
  ∀ fb, console.fb = some fb → ∀ row column, column.val < 79 → console.AtCursor row column →
    fb.cell row column = font.image (console.buffer row column) fg bg

def Plain (font : Font) (console : Console) : Prop :=
  ∀ fb, console.fb = some fb → ∀ row column, column.val < 79 →
    fb.cell row column = font.image (console.buffer row column) console.fg console.bg

/-- The cell under the cursor is inverted exactly while the cursor is visible. -/
structure Drawn (font : Font) (console : Console) : Prop where
  elsewhere : console.DrawnElsewhere font
  hidden : console.cursor.visible = false → console.DrawnAtCursor font console.fg console.bg
  shown : console.cursor.visible = true → console.DrawnAtCursor font console.bg console.fg

def BlankSpace (font : Font) : Prop := ∀ dy, font.glyph 0x20 dy = 0

structure Keeps (before after : Console) : Prop where
  attached : after.fb.isSome = before.fb.isSome
  fg : after.fg = before.fg
  bg : after.bg = before.bg

structure Follows (font : Font) (before after : Console) (page : Page) : Prop where
  displays : after.Displays page
  keeps : Keeps before after
  drawn : BlankSpace font → before.Drawn font → after.Drawn font

variable {font : Font} {console before after : Console} {page : Page}

theorem Keeps.refl (console : Console) : Keeps console console := ⟨rfl, rfl, rfl⟩

theorem Keeps.trans {middle : Console} (first : Keeps before middle) (second : Keeps middle after) :
    Keeps before after :=
  ⟨second.attached.trans first.attached, second.fg.trans first.fg, second.bg.trans first.bg⟩

theorem keeps_moveTo (console : Console) (x y : Nat) : Keeps console (console.moveTo x y) :=
  ⟨rfl, rfl, rfl⟩

theorem keeps_setVisible (console : Console) (visible : Bool) :
    Keeps console (console.setVisible visible) := ⟨rfl, rfl, rfl⟩

theorem Follows.refl (displays : console.Displays page) : Follows font console console page :=
  ⟨displays, Keeps.refl console, fun _ drawn => drawn⟩

theorem Follows.trans {middle : Console} {other : Page} (first : Follows font before middle other)
    (second : Follows font middle after page) : Follows font before after page :=
  ⟨second.displays, first.keeps.trans second.keeps,
    fun blank drawn => second.drawn blank (first.drawn blank drawn)⟩

namespace Displays

theorem inRow (displays : console.Displays page) : console.cursor.x < 80 := by
  rw [displays.x]
  exact page.x.isLt

theorem inScreen (displays : console.Displays page) : console.cursor.y < 30 := by
  rw [displays.y]
  exact page.sheet.y.isLt

theorem atCursor_iff (displays : console.Displays page) (row : Fin 30) (column : Fin 80) :
    console.AtCursor row column ↔ row = page.sheet.y ∧ column = page.x := by
  rw [AtCursor, displays.x, displays.y, Fin.val_inj, Fin.val_inj]

theorem charAtCursor_ok (displays : console.Displays page) :
    console.charAtCursor = .ok (page.sheet.current page.x) := by
  have row : (⟨console.cursor.y, displays.inScreen⟩ : Fin 30) = page.sheet.y := Fin.ext displays.y
  have column : (⟨console.cursor.x, displays.inRow⟩ : Fin 80) = page.x := Fin.ext displays.x
  rw [charAtCursor, Slots.read_ok _ displays.inScreen, Exec.ok_bind,
    Slots.read_ok _ displays.inRow, row, column, displays.rows]
  rfl

theorem storeAtCursor_ok (displays : console.Displays page) (ch : UInt8) :
    ∃ after, console.storeAtCursor ch = .ok after ∧ after.fb = console.fb ∧
      after.fg = console.fg ∧ after.bg = console.bg ∧ after.cursor = console.cursor ∧
      after.buffer =
        (page.sheet.modify fun line => Function.update line page.x ch).rows := by
  have row : (⟨console.cursor.y, displays.inScreen⟩ : Fin 30) = page.sheet.y := Fin.ext displays.y
  have column : (⟨console.cursor.x, displays.inRow⟩ : Fin 80) = page.x := Fin.ext displays.x
  rw [storeAtCursor, Slots.read_ok _ displays.inScreen, Exec.ok_bind,
    Slots.write_ok _ _ displays.inRow, Exec.ok_bind, Slots.write_ok _ _ displays.inScreen,
    Exec.ok_bind, row, column, displays.rows]
  exact ⟨_, rfl, rfl, rfl, rfl, rfl, rfl⟩

end Displays

theorem paint_ok (font : Font) {console : Console} (ch : UInt8) (fg bg : Colour)
    (inRow : console.cursor.x < 80) (inScreen : console.cursor.y < 30) :
    ∃ fb, console.paint font ch fg bg = .ok { console with fb := fb } ∧
      fb.isSome = console.fb.isSome ∧
      ∀ screen, fb = some screen → ∃ old, console.fb = some old ∧
        ∀ row column, column.val < 79 →
          (console.AtCursor row column → screen.cell row column = font.image ch fg bg) ∧
          (¬ console.AtCursor row column → screen.cell row column = old.cell row column) := by
  rcases console with ⟨attached, buffer, cursor, fgOwn, bgOwn⟩
  cases attached with
  | none => exact ⟨none, rfl, rfl, fun _ absent => by cases absent⟩
  | some old =>
      rcases font.drawChar_cells old ch fg bg inRow inScreen with ⟨screen, drawn, seen⟩
      refine ⟨some screen, by simp only [paint, drawn, Exec.ok_bind], rfl, ?_⟩
      intro _ same
      cases same
      refine ⟨old, rfl, fun row column early => ⟨?_, ?_⟩⟩
      · intro both
        rcases both with ⟨sameRow, sameColumn⟩
        rw [seen, if_pos ⟨sameRow, sameColumn, sameColumn ▸ early⟩]
      · intro away
        rw [seen, if_neg fun here => away ⟨here.1, here.2.1⟩]

theorem plain_of_atCursor (elsewhere : console.DrawnElsewhere font)
    (atCursor : console.DrawnAtCursor font console.fg console.bg) : console.Plain font := by
  intro fb attached row column early
  by_cases here : console.AtCursor row column
  · exact atCursor fb attached row column early here
  · exact elsewhere fb attached row column early here

theorem Drawn.plain (drawn : console.Drawn font) (hidden : console.cursor.visible = false) :
    console.Plain font :=
  plain_of_atCursor drawn.elsewhere (drawn.hidden hidden)

theorem Plain.drawn (plain : console.Plain font) (hidden : console.cursor.visible = false) :
    console.Drawn font where
  elsewhere fb attached row column early _ := plain fb attached row column early
  hidden _ fb attached row column early _ := plain fb attached row column early
  shown visible := by rw [hidden] at visible; cases visible

structure Paints (font : Font) (before after : Console) (page : Page) (ch : UInt8)
    (fg bg : Colour) : Prop where
  displays : after.Displays page
  keeps : Keeps before after
  cursor : after.cursor = before.cursor
  elsewhere : before.DrawnElsewhere font → after.DrawnElsewhere font
  atCursor : page.sheet.current page.x = ch → after.DrawnAtCursor font fg bg

theorem paint_paints (font : Font) (displays : console.Displays page) (ch : UInt8)
    (fg bg : Colour) :
    ∃ after, console.paint font ch fg bg = .ok after ∧ Paints font console after page ch fg bg := by
  rcases paint_ok font ch fg bg displays.inRow displays.inScreen with ⟨fb, painted, attached, cells⟩
  refine ⟨_, painted, ⟨displays.rows, displays.x, displays.y⟩, ⟨attached, rfl, rfl⟩, rfl, ?_, ?_⟩
  · intro elsewhere screen present row column early away
    rcases cells screen present with ⟨old, before, cell⟩
    rw [(cell row column early).2 away]
    exact elsewhere old before row column early away
  · intro under screen present row column early here
    rcases cells screen present with ⟨old, before, cell⟩
    rcases (displays.atCursor_iff row column).mp here with ⟨rfl, rfl⟩
    rw [(cell _ _ early).1 here, ← under]
    dsimp only
    rw [displays.rows]
    rfl

theorem paintCursor_paints (font : Font) (displays : console.Displays page) (fg bg : Colour) :
    ∃ after, console.paintCursor font fg bg = .ok after ∧
      Paints font console after page (page.sheet.current page.x) fg bg := by
  obtain ⟨after, painted, paints⟩ :=
    paint_paints font displays (page.sheet.current page.x) fg bg
  refine ⟨after, ?_, paints⟩
  rw [← painted, paintCursor]
  cases attached : console.fb with
  | none => simp only [paint, attached]
  | some fb => simp only [displays.charAtCursor_ok, Exec.ok_bind]

/-- A step that leaves the cursor hidden and every cell plain. -/
structure Settles (font : Font) (before after : Console) (page : Page) : Prop where
  displays : after.Displays page
  keeps : Keeps before after
  hidden : after.cursor.visible = false
  plain : BlankSpace font → before.Drawn font → after.Plain font

theorem Settles.follows (settles : Settles font before after page) :
    Follows font before after page :=
  ⟨settles.displays, settles.keeps,
    fun blank drawn => (settles.plain blank drawn).drawn settles.hidden⟩

theorem Paints.plain {ch : UInt8} (paints : Paints font before after page ch before.fg before.bg)
    (under : page.sheet.current page.x = ch) (elsewhere : before.DrawnElsewhere font) :
    after.Plain font := by
  have atCursor := paints.atCursor under
  rw [← paints.keeps.fg, ← paints.keeps.bg] at atCursor
  exact plain_of_atCursor (paints.elsewhere elsewhere) atCursor

theorem Paints.settles {ch : UInt8} (paints : Paints font before after page ch before.fg before.bg)
    (under : page.sheet.current page.x = ch) :
    Settles font before (after.setVisible false) page where
  displays := ⟨paints.displays.rows, paints.displays.x, paints.displays.y⟩
  keeps := paints.keeps.trans (keeps_setVisible _ _)
  hidden := rfl
  plain _ drawn := paints.plain under drawn.elsewhere

theorem hideCursor_settles (font : Font) (displays : console.Displays page) :
    ∃ after, console.hideCursor font = .ok after ∧ Settles font console after page := by
  rw [hideCursor]
  cases visible : console.cursor.visible with
  | false =>
      exact ⟨console, rfl, displays, Keeps.refl console, visible,
        fun _ drawn => drawn.plain visible⟩
  | true =>
      rcases paintCursor_paints font displays console.fg console.bg with ⟨after, painted, paints⟩
      exact ⟨after.setVisible false, by simp only [if_true, painted, Exec.ok_bind],
        paints.settles rfl⟩

theorem showCursor_follows (font : Font) (displays : console.Displays page) :
    ∃ after, console.showCursor font = .ok after ∧ Follows font console after page ∧
      after.cursor.visible = true := by
  rw [showCursor]
  cases visible : console.cursor.visible with
  | true => exact ⟨console, rfl, Follows.refl displays, visible⟩
  | false =>
      rcases paintCursor_paints font displays console.bg console.fg with ⟨after, painted, paints⟩
      refine ⟨after.setVisible true, by simp only [Bool.not_false, if_true, painted, Exec.ok_bind],
        ⟨⟨paints.displays.rows, paints.displays.x, paints.displays.y⟩,
          paints.keeps.trans (keeps_setVisible _ _), fun _ drawn => ?_⟩, rfl⟩
      have atCursor := paints.atCursor rfl
      rw [← paints.keeps.fg, ← paints.keeps.bg] at atCursor
      exact ⟨paints.elsewhere drawn.elsewhere, nofun, fun _ => atCursor⟩

theorem shiftRows_ok (buffer : Slots Line 30) {count : Nat} (inside : count < 30) :
    (List.range count).foldlM
      (fun (buffer : Slots Line 30) row => do
        let line ← buffer.read (row + 1)
        buffer.write row line) buffer =
      .ok fun row => if next : row.val < count then buffer ⟨row.val + 1, by omega⟩
        else buffer row := by
  induction count with
  | zero => simp
  | succ count ih =>
      rw [List.range_succ, List.foldlM_append, ih (by omega), Exec.ok_bind]
      simp only [List.foldlM_cons, List.foldlM_nil, Slots.read_ok _ inside, Exec.ok_bind,
        Slots.write_ok _ _ (Nat.lt_of_succ_lt inside), Exec.pure_eq]
      refine congrArg Except.ok (funext fun row => ?_)
      by_cases here : row = ⟨count, by omega⟩
      · subst here
        simp
      · have other : row.val ≠ count := fun equal => here (Fin.ext equal)
        rw [Function.update_of_ne here]
        by_cases above : row.val < count
        · rw [dif_pos above, dif_pos (by omega)]
        · rw [dif_neg above, dif_neg (by omega)]

def scrolledRows (rows : Slots Line 30) : Slots Line 30 := fun row =>
  if next : row.val + 1 < 30 then rows ⟨row.val + 1, next⟩ else blankLine

theorem scrolledRows_eq (rows : Slots Line 30) :
    (Function.update (fun row : Fin 30 =>
      if next : row.val < 29 then rows ⟨row.val + 1, by omega⟩ else rows row)
      ⟨29, by omega⟩ blankLine) = scrolledRows rows := by
  funext row
  rw [scrolledRows]
  by_cases last : row = ⟨29, by omega⟩
  · subst last
    simp
  · have above : row.val < 29 := by
      have bounded := row.isLt
      have other : row.val ≠ 29 := fun equal => last (Fin.ext equal)
      omega
    rw [Function.update_of_ne last, dif_pos above, dif_pos (by omega)]

theorem scroll_ok (font : Font) (console : Console) :
    ∃ after, console.scroll = .ok after ∧ Keeps console after ∧
      after.cursor = ⟨0, 29, console.cursor.visible⟩ ∧
      after.buffer = scrolledRows console.buffer ∧
      (BlankSpace font → console.Plain font → after.Plain font) := by
  have rows : rowCount - 1 = 29 := rfl
  rw [scroll, shiftRows, rows, shiftRows_ok console.buffer (by omega), Exec.ok_bind,
    Slots.write_ok _ _ (by omega), Exec.ok_bind, scrolledRows_eq]
  rcases console with ⟨attached, buffer, cursor, fg, bg⟩
  cases attached with
  | none => exact ⟨_, rfl, ⟨rfl, rfl, rfl⟩, rfl, rfl, fun _ _ _ absent => by cases absent⟩
  | some fb =>
      rcases fb.scroll_cells bg with ⟨screen, scrolled, cells⟩
      refine ⟨⟨some screen, scrolledRows buffer, ⟨0, 29, cursor.visible⟩, fg, bg⟩, ?_,
        ⟨rfl, rfl, rfl⟩, rfl, rfl, ?_⟩
      · simp only [moveTo, FrameBuffer.surface_scroll, scrolled, Exec.ok_bind]
      intro blank plain _ same row column early
      cases same
      dsimp only
      rw [cells, scrolledRows]
      by_cases below : row.val + 1 < 30
      · rw [dif_pos below, dif_pos below]
        exact plain fb rfl _ column early
      · rw [dif_neg below, dif_neg below]
        funext dy dx
        simp [Font.image, blankLine, blank dy, Font.shade, Font.bitSet]

theorem newLine_rows (sheet : Window Line 30) :
    (sheet.newLine blankLine).rows =
      if sheet.y.val + 1 < 30 then sheet.rows else scrolledRows sheet.rows := by
  rw [Window.newLine]
  by_cases inside : sheet.y.val + 1 < 30
  · rw [dif_pos inside, if_pos inside]
  · rw [dif_neg inside, if_neg inside]
    rfl

theorem newLine_y (sheet : Window Line 30) :
    (sheet.newLine blankLine).y.val = min (sheet.y.val + 1) 29 := by
  rw [Window.newLine]
  by_cases inside : sheet.y.val + 1 < 30
  · rw [dif_pos inside]
    exact (Nat.min_eq_left (by omega)).symm
  · rw [dif_neg inside]
    have bounded := sheet.y.isLt
    change sheet.y.val = _
    omega

/-- Going to the next row: a line feed and a full row do it in different ways. -/
theorem lineFeed_ok (font : Font) (displays : console.Displays page) :
    ∃ after, (if console.cursor.y < rowCount - 1 then .ok (console.moveTo 0 (console.cursor.y + 1))
        else console.scroll) = .ok after ∧
      after.Displays ⟨page.sheet.newLine blankLine, 0⟩ ∧ Keeps console after ∧
      after.cursor.visible = console.cursor.visible ∧
      (BlankSpace font → console.Plain font → after.Plain font) := by
  have last : rowCount - 1 = 29 := rfl
  have inScreen := displays.inScreen
  by_cases room : console.cursor.y < rowCount - 1
  · refine ⟨_, if_pos room, ⟨?_, rfl, ?_⟩, ⟨rfl, rfl, rfl⟩, rfl, fun _ plain => plain⟩
    · rw [newLine_rows, if_pos (by rw [← displays.y]; omega), ← displays.rows]
      rfl
    · rw [newLine_y, ← displays.y]
      change console.cursor.y + 1 = _
      omega
  · rcases scroll_ok font console with ⟨after, scrolled, keeps, cursor, rows, plain⟩
    refine ⟨after, by rw [if_neg room, scrolled], ⟨?_, by rw [cursor]; rfl, ?_⟩, keeps,
      by rw [cursor], plain⟩
    · rw [newLine_rows, if_neg (by rw [← displays.y]; omega), ← displays.rows, rows]
    · rw [newLine_y, ← displays.y, cursor]
      change 29 = _
      omega

theorem Settles.next {middle : Console} {other : Page} (settles : Settles font before middle page)
    (displays : after.Displays other) (keeps : Keeps middle after)
    (visible : after.cursor.visible = middle.cursor.visible)
    (plain : BlankSpace font → middle.Plain font → after.Plain font) :
    Settles font before after other :=
  ⟨displays, settles.keeps.trans keeps, visible.trans settles.hidden,
    fun blank drawn => plain blank (settles.plain blank drawn)⟩

theorem flash_ok (font : Font) (displays : console.Displays page) (rounds : Nat) :
    ∃ after, console.flash font rounds = .ok after ∧ after.Displays page ∧ Keeps console after ∧
      (console.DrawnElsewhere font → after.DrawnElsewhere font) := by
  induction rounds generalizing console with
  | zero => exact ⟨console, rfl, displays, Keeps.refl console, id⟩
  | succ rounds ih =>
      obtain ⟨star, drawnStar, paintsStar⟩ :=
        paint_paints font displays 0x2A console.fg console.bg
      obtain ⟨space, drawnSpace, paintsSpace⟩ :=
        paint_paints font paintsStar.displays 0x20 star.fg star.bg
      rcases ih paintsSpace.displays with ⟨after, flashed, shows, keeps, elsewhere⟩
      refine ⟨after, ?_, shows, (paintsStar.keeps.trans paintsSpace.keeps).trans keeps,
        fun drawn => elsewhere (paintsSpace.elsewhere (paintsStar.elsewhere drawn))⟩
      rw [flash, drawChar, drawnStar, Exec.ok_bind, drawChar, drawnSpace, Exec.ok_bind, flashed]

theorem putBell_follows (font : Font) (displays : console.Displays page) :
    ∃ after, console.putBell font = .ok after ∧ Follows font console after page := by
  rcases flash_ok font displays 2 with ⟨middle, flashed, shows, keeps, elsewhere⟩
  obtain ⟨after, drawn, paints⟩ :=
    paint_paints font shows (page.sheet.current page.x) middle.fg middle.bg
  refine ⟨after.setVisible false, ?_,
    ⟨⟨paints.displays.rows, paints.displays.x, paints.displays.y⟩,
      (keeps.trans paints.keeps).trans (keeps_setVisible _ _), fun _ before => ?_⟩⟩
  · rw [putBell, displays.charAtCursor_ok, Exec.ok_bind, flashed, Exec.ok_bind, drawChar, drawn,
      Exec.ok_bind]
  · have plain : (after.setVisible false).Plain font :=
      paints.plain rfl (elsewhere before.elsewhere)
    exact plain.drawn rfl

theorem putBack_follows (font : Font) (displays : console.Displays page) :
    ∃ after, console.putBack font = .ok after ∧
      Follows font console after { page with x := ⟨page.x.val - 1, by omega⟩ } := by
  rw [putBack]
  by_cases inside : 0 < console.cursor.x
  · rcases hideCursor_settles font displays with ⟨middle, hid, settles⟩
    have moved : (middle.moveTo (middle.cursor.x - 1) middle.cursor.y).Displays
        { page with x := ⟨page.x.val - 1, by omega⟩ } :=
      ⟨settles.displays.rows, congrArg (· - 1) settles.displays.x, settles.displays.y⟩
    exact ⟨_, by rw [if_pos inside, hid, Exec.ok_bind],
      (settles.next moved (keeps_moveTo _ _ _) rfl fun _ plain => plain).follows⟩
  · have first : page.x.val = 0 := by
      rw [← displays.x]
      omega
    refine ⟨console, if_neg inside, Follows.refl ⟨displays.rows, ?_, displays.y⟩⟩
    rw [displays.x]
    change page.x.val = page.x.val - 1
    omega

theorem putCr_follows (font : Font) (displays : console.Displays page) :
    ∃ after, console.putCr font = .ok after ∧ Follows font console after { page with x := 0 } := by
  rcases hideCursor_settles font displays with ⟨middle, hid, settles⟩
  have moved : (middle.moveTo 0 middle.cursor.y).Displays { page with x := 0 } :=
    ⟨settles.displays.rows, rfl, settles.displays.y⟩
  exact ⟨_, by rw [putCr, hid, Exec.ok_bind],
    (settles.next moved (keeps_moveTo _ _ _) rfl fun _ plain => plain).follows⟩

theorem putLf_follows (font : Font) (displays : console.Displays page) :
    ∃ after, console.putLf font = .ok after ∧
      Follows font console after ⟨page.sheet.newLine blankLine, 0⟩ := by
  rcases hideCursor_settles font displays with ⟨middle, hid, settles⟩
  rcases lineFeed_ok font settles.displays with ⟨after, fed, shows, keeps, visible, plain⟩
  exact ⟨after, by rw [putLf, hid, Exec.ok_bind, fed],
    (settles.next shows keeps visible plain).follows⟩

theorem image_space (blank : BlankSpace font) (fg bg : Colour) :
    font.image 0x20 fg bg = fun _ _ => bg.asRaw := by
  funext dy dx
  simp [Font.image, blank dy, Font.shade, Font.bitSet]

theorem putFf_follows (font : Font) (displays : console.Displays page) :
    ∃ after, console.putFf font = .ok after ∧
      Follows font console after (Terminal.start Terminal.screen) := by
  rcases hideCursor_settles font displays with ⟨middle, hid, settles⟩
  have cleared : middle.clear.Displays (Terminal.start Terminal.screen) := ⟨rfl, rfl, rfl⟩
  have keeps : Keeps middle middle.clear := ⟨Option.isSome_map, rfl, rfl⟩
  refine ⟨middle.clear, by rw [putFf, hid, Exec.ok_bind],
    (settles.next cleared keeps rfl ?_).follows⟩
  rintro blank _ fb attached row column _
  rcases Option.map_eq_some_iff.mp attached with ⟨old, _, rfl⟩
  rw [FrameBuffer.surface_fill, FrameBuffer.cell_fill]
  exact (image_space blank middle.fg middle.bg).symm

theorem writeCell_ok (font : Font) (displays : console.Displays page) (ch : UInt8) :
    ∃ stored after, console.storeAtCursor ch = .ok stored ∧ stored.drawChar font ch = .ok after ∧
      after.Displays
        ⟨page.sheet.modify fun line => Function.update line page.x ch, page.x⟩ ∧
      Keeps console after ∧ after.cursor = console.cursor ∧
      (console.DrawnElsewhere font → after.Plain font) := by
  rcases displays.storeAtCursor_ok ch with ⟨stored, storing, fb, fg, bg, cursor, rows⟩
  have shows : stored.Displays
      ⟨page.sheet.modify fun line => Function.update line page.x ch, page.x⟩ :=
    ⟨rows, by rw [cursor, displays.x], by rw [cursor, displays.y]; rfl⟩
  rcases paint_paints font shows ch stored.fg stored.bg with ⟨after, drawn, paints⟩
  refine ⟨stored, after, storing, drawn, paints.displays,
    ⟨by rw [paints.keeps.attached, fb], by rw [paints.keeps.fg, fg], by rw [paints.keeps.bg, bg]⟩,
    by rw [paints.cursor, cursor], fun elsewhere => paints.plain (by simp) ?_⟩
  -- The stored byte is the only one that differs, and it is under the cursor.
  intro screen attached row column early away
  have unchanged : stored.buffer row column = console.buffer row column := by
    rw [rows, displays.rows]
    by_cases sameRow : row = page.sheet.y
    · subst sameRow
      have other : column ≠ page.x := fun sameColumn =>
        away ((shows.atCursor_iff _ _).mpr ⟨rfl, sameColumn⟩)
      simp [Window.modify, Window.current, other]
    · rw [Window.modify_other _ _ sameRow]
  rw [unchanged, fg, bg]
  refine elsewhere screen (fb ▸ attached) row column early ?_
  rwa [AtCursor, ← cursor]

theorem blankCells_ok (font : Font) (displays : console.Displays page) (count : Nat)
    (room : page.x.val + count < 80) :
    ∃ after, console.blankCells font count = .ok after ∧
      after.Displays ⟨page.sheet.modify (Terminal.blankBetween page.x.val (page.x.val + count)),
        ⟨page.x.val + count, room⟩⟩ ∧
      Keeps console after ∧ after.cursor.visible = console.cursor.visible ∧
      (console.Plain font → after.Plain font) := by
  induction count generalizing console page with
  | zero =>
      refine ⟨console, rfl, ?_, Keeps.refl console, rfl, id⟩
      simp only [Nat.add_zero, Window.modify_unchanged _ (Terminal.blankBetween_empty _ _)]
      exact displays
  | succ count ih =>
      obtain ⟨stored, middle, storing, drawn, shows, keeps, cursor, plain⟩ :=
        writeCell_ok font displays 0x20
      have moved : (middle.moveTo (middle.cursor.x + 1) middle.cursor.y).Displays
          ⟨page.sheet.modify fun line => Function.update line page.x 0x20,
            ⟨page.x.val + 1, by omega⟩⟩ :=
        ⟨shows.rows, congrArg (· + 1) shows.x, shows.y⟩
      rcases ih moved (by dsimp only; omega) with ⟨after, finished, ends, kept, visible, plainAfter⟩
      refine ⟨after, ?_, ?_, (keeps.trans (keeps_moveTo _ _ _)).trans kept, ?_,
        fun before => plainAfter (plain ?_)⟩
      · rw [blankCells, storing, Exec.ok_bind, drawn, Exec.ok_bind, finished]
      · have next : page.x.val + 1 + count = page.x.val + (count + 1) := by omega
        simp only [Window.modify_modify, next,
          Terminal.blankBetween_step page.x
            (by omega : page.x.val < page.x.val + (count + 1))] at ends
        exact ends
      · rw [visible]
        change middle.cursor.visible = _
        rw [cursor]
      · intro fb attached row column early _
        exact before fb attached row column early

theorem putTab_follows (font : Font) (displays : console.Displays page) :
    ∃ after, console.putTab font = .ok after ∧
      Follows font console after
        ⟨page.sheet.modify (Terminal.blankBetween page.x.val (Terminal.nextTab page.x).val),
          Terminal.nextTab page.x⟩ := by
  rcases hideCursor_settles font displays with ⟨middle, hid, settles⟩
  have bounded := page.x.isLt
  have total : page.x.val + (min ((page.x.val / 8 + 1) * 8) 79 - page.x.val) =
      (Terminal.nextTab page.x).val := by
    rw [Terminal.nextTab]
    dsimp only
    omega
  obtain ⟨after, blanked, shows, keeps, visible, plain⟩ := blankCells_ok font settles.displays
    (min ((page.x.val / 8 + 1) * 8) 79 - page.x.val) (by omega)
  simp only [total] at shows
  refine ⟨after, ?_, (settles.next shows keeps visible fun _ => plain).follows⟩
  rw [putTab, hid, Exec.ok_bind, settles.displays.x]
  exact blanked

theorem advance_ok (font : Font) (displays : console.Displays page) :
    ∃ after, console.advance = .ok after ∧
      after.Displays (if inside : page.x.val + 1 < 80 then ⟨page.sheet, ⟨page.x.val + 1, inside⟩⟩
        else ⟨page.sheet.newLine blankLine, 0⟩) ∧
      Keeps console after ∧ after.cursor.visible = console.cursor.visible ∧
      (BlankSpace font → console.Plain font → after.Plain font) := by
  have columns : columnCount = 80 := rfl
  have rows : rowCount = 30 := rfl
  by_cases inside : page.x.val + 1 < 80
  · have stays : ¬ columnCount ≤ console.cursor.x + 1 := by
      rw [displays.x]
      omega
    rw [dif_pos inside]
    exact ⟨_, if_neg stays, ⟨displays.rows, congrArg (· + 1) displays.x, displays.y⟩,
      ⟨rfl, rfl, rfl⟩, rfl, fun _ plain => plain⟩
  · have wraps : columnCount ≤ console.cursor.x + 1 := by
      rw [displays.x]
      omega
    rcases lineFeed_ok font displays with ⟨after, fed, shows, keeps, visible, plain⟩
    rw [dif_neg inside]
    refine ⟨after, ?_, shows, keeps, visible, plain⟩
    rw [← fed]
    by_cases last : rowCount ≤ console.cursor.y + 1
    · rw [if_neg (by omega), advance]
      exact (if_pos wraps).trans (if_pos last)
    · rw [if_pos (by omega), advance]
      exact (if_pos wraps).trans (if_neg last)

theorem putWriteable_follows (font : Font) (displays : console.Displays page) (ch : UInt8) :
    ∃ after, console.putWriteable font ch = .ok after ∧
      Follows font console after
        (if inside : page.x.val + 1 < 80 then
          ⟨page.sheet.modify fun line => Function.update line page.x ch,
            ⟨page.x.val + 1, inside⟩⟩
        else
          ⟨(page.sheet.modify fun line => Function.update line page.x ch).newLine blankLine,
            0⟩) := by
  rcases writeCell_ok font displays ch with ⟨stored, middle, storing, drawn, shows, keeps, _, plain⟩
  have hidden : (middle.setVisible false).Displays
      ⟨page.sheet.modify fun line => Function.update line page.x ch, page.x⟩ :=
    ⟨shows.rows, shows.x, shows.y⟩
  have settles : Settles font console (middle.setVisible false)
      ⟨page.sheet.modify fun line => Function.update line page.x ch, page.x⟩ :=
    ⟨hidden, keeps.trans (keeps_setVisible _ _), rfl, fun _ before => plain before.elsewhere⟩
  rcases advance_ok font hidden with ⟨after, advanced, ends, kept, visible, plainAfter⟩
  refine ⟨after, ?_, (settles.next ends kept visible plainAfter).follows⟩
  rw [putWriteable, storing, Exec.ok_bind, drawn, Exec.ok_bind, advanced]

theorem putChar_follows (font : Font) (displays : console.Displays page) (ch : UInt8) :
    ∃ after, console.putChar font ch = .ok after ∧
      Follows font console after (Terminal.put Terminal.screen page ch) := by
  unfold putChar
  rw [Terminal.put_control]
  cases Control.of ch with
  | bell => exact putBell_follows font displays
  | back => exact putBack_follows font displays
  | tab => exact putTab_follows font displays
  | cr => exact putCr_follows font displays
  | ff => exact putFf_follows font displays
  | lf => exact putLf_follows font displays
  | writeable => exact putWriteable_follows font displays ch

theorem putChars_follows (font : Font) (displays : console.Displays page) (bytes : List UInt8) :
    ∃ after, console.putChars font bytes = .ok after ∧
      Follows font console after (bytes.foldl (Terminal.put Terminal.screen) page) := by
  refine Exec.foldlM_simulates (R := Follows font console) ?_ (Follows.refl displays) bytes
  intro middle other ch so
  rcases putChar_follows font so.displays ch with ⟨after, put, next⟩
  exact ⟨after, put, so.trans next⟩

theorem writeStr_follows (font : Font) (displays : console.Displays page) (bytes : List UInt8) :
    ∃ after, console.writeStr font bytes = .ok after ∧
      Follows font console after (bytes.foldl (Terminal.put Terminal.screen) page) ∧
      after.cursor.visible = true := by
  rcases putChars_follows font displays bytes with ⟨middle, written, so⟩
  rcases showCursor_follows font so.displays with ⟨after, shown, next, visible⟩
  exact ⟨after, by rw [writeStr, written, Exec.ok_bind, shown], so.trans next, visible⟩

theorem writeStrs_follow (font : Font) (displays : console.Displays page)
    (calls : List (List UInt8)) :
    ∃ after, calls.foldlM (writeStr font) console = .ok after ∧
      Follows font console after
        (calls.foldl (fun page bytes => bytes.foldl (Terminal.put Terminal.screen) page) page) := by
  refine Exec.foldlM_simulates (R := Follows font console) ?_ (Follows.refl displays) calls
  intro middle other bytes so
  rcases writeStr_follows font so.displays bytes with ⟨after, wrote, next, _⟩
  exact ⟨after, wrote, so.trans next⟩

end Ease.Console
