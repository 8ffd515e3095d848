import Ease.FrameBuffer

/-! The 8 by 16 font, and the screen as cells of one character each. -/

namespace Ease

/-- `data` is the font file, 16 bytes for each of the 256 byte values. -/
structure Font where
  data : Slots UInt8 4096

namespace Font

def bytesPerGlyph : Nat := 16

def width : Nat := 8

def height : Nat := 16

def index (font : Font) (charCode : UInt8) : Exec (List UInt8) :=
  let offset := charCode.toNat * bytesPerGlyph
  font.data.slice offset (offset + bytesPerGlyph)

def bitSet (byte : UInt8) (column : Nat) : Bool := (byte >>> (7 - column).toUInt8) &&& 1 != 0

def shade (fg bg : Colour) (byte : UInt8) (column : Nat) : UInt32 :=
  if bitSet byte column then fg.asRaw else bg.asRaw

def glyphPixels (fg bg : Colour) (byte : UInt8) : List UInt32 :=
  (List.range width).map (shade fg bg byte)

section

variable {S : Type} [Surface S]

def drawRows (fb : S) (x y : Nat) (fg bg : Colour) : List UInt8 → Exec S
  | [] => .ok fb
  | byte :: bytes => do
      let fb ← Surface.setPixels fb x y (glyphPixels fg bg byte)
      drawRows fb x (y + 1) fg bg bytes

def drawChar (font : Font) (fb : S) (x y : Nat) (ch : UInt8) (fg bg : Colour) : Exec S := do
  let right ← usizeAdd x width
  if right ≤ FrameBuffer.width ∧ y ≤ FrameBuffer.height - height then do
    let glyphData ← font.index ch
    drawRows fb x y fg bg glyphData
  else .ok fb

end

end Font

abbrev Cell := Fin 16 → Fin 8 → UInt32

namespace FrameBuffer

def cell (fb : FrameBuffer) (row : Fin 30) (column : Fin 80) : Cell := fun dy dx =>
  fb.pixel ⟨column.val * 8 + dx.val, by simp only [width]; omega⟩
    ⟨row.val * 16 + dy.val, by simp only [height]; omega⟩

theorem cell_fill (fb : FrameBuffer) (colour : Colour) (row : Fin 30) (column : Fin 80) :
    (fb.fill colour).cell row column = fun _ _ => colour.asRaw := rfl

theorem scroll_cells (fb : FrameBuffer) (bg : Colour) :
    ∃ after, fb.scroll Font.height bg = .ok after ∧
      ∀ row column, after.cell row column =
        if below : row.val + 1 < 30 then fb.cell ⟨row.val + 1, below⟩ column
        else fun _ _ => bg.asRaw := by
  rcases scroll_ok fb bg (by decide : Font.height ≤ height) with ⟨after, scrolled, seen⟩
  refine ⟨after, scrolled, fun row column => ?_⟩
  funext dy dx
  have tall : Font.height = 16 := rfl
  have screen : height = 480 := rfl
  rw [cell, seen]
  by_cases below : row.val + 1 < 30
  · rw [dif_pos (by dsimp only; omega), dif_pos below, cell]
    congr 2
    dsimp only
    omega
  · rw [dif_neg (by dsimp only; omega), dif_neg below]

end FrameBuffer

namespace Font

def glyph (font : Font) (ch : UInt8) (dy : Fin 16) : UInt8 :=
  font.data ⟨ch.toNat * 16 + dy.val, by have := ch.toNat_lt; omega⟩

def image (font : Font) (ch : UInt8) (fg bg : Colour) : Cell := fun dy dx =>
  shade fg bg (font.glyph ch dy) dx.val

theorem index_ok (font : Font) (ch : UInt8) : font.index ch = .ok (List.ofFn (font.glyph ch)) := by
  have small := ch.toNat_lt
  have offset : ch.toNat * bytesPerGlyph = ch.toNat * 16 := rfl
  have size : bytesPerGlyph = 16 := rfl
  rw [index, Slots.slice, dif_pos (by omega)]
  congr 1
  apply List.ext_getElem
  · simp [size]
  · intro dy inside _
    rw [List.getElem_ofFn, List.getElem_ofFn]
    rfl

theorem glyphPixels_getD (fg bg : Colour) (byte : UInt8) {column : Nat} (inside : column < 8) :
    (glyphPixels fg bg byte).getD column 0 = shade fg bg byte column := by
  rw [glyphPixels, List.getD_eq_getElem _ _ (by simpa [width] using inside)]
  simp

@[simp] theorem glyphPixels_length (fg bg : Colour) (byte : UInt8) :
    (glyphPixels fg bg byte).length = 8 := by
  simp [glyphPixels, width]

theorem drawRows_ok (fb : FrameBuffer) {x y : Nat} (fg bg : Colour) (bytes : List UInt8)
    (column : x + 8 < FrameBuffer.width) (rows : y + bytes.length ≤ FrameBuffer.height) :
    ∃ after, drawRows fb x y fg bg bytes = .ok after ∧
      ∀ px py, after.pixel px py =
        if (y ≤ py.val ∧ py.val - y < bytes.length) ∧ x ≤ px.val ∧ px.val - x < 8 then
          shade fg bg (bytes.getD (py.val - y) 0) (px.val - x)
        else fb.pixel px py := by
  induction bytes generalizing fb y with
  | nil => exact ⟨fb, rfl, fun px py => by simp⟩
  | cons byte bytes ih =>
      rw [List.length_cons] at rows
      have fits : x + (glyphPixels fg bg byte).length < FrameBuffer.width := by simpa using column
      rcases FrameBuffer.setPixels_ok fb (y := y) fits (by omega) with ⟨first, written, seenFirst⟩
      rcases ih first (y := y + 1) (by omega) with ⟨after, drawn, seen⟩
      refine ⟨after, by rw [drawRows, FrameBuffer.surface_setPixels, written, Exec.ok_bind, drawn],
        fun px py => ?_⟩
      rw [seen, seenFirst, glyphPixels_length, List.length_cons]
      by_cases inColumn : x ≤ px.val ∧ px.val - x < 8
      · rcases Nat.lt_trichotomy py.val y with above | rfl | below
        · rw [if_neg (by omega), if_neg (by omega), if_neg (by omega)]
        · rw [if_neg (by omega), if_pos (by omega), if_pos (by omega),
            glyphPixels_getD fg bg byte inColumn.2, Nat.sub_self]
          rfl
        · have next : py.val - y = py.val - (y + 1) + 1 := by omega
          by_cases inside : py.val - (y + 1) < bytes.length
          · rw [if_pos (by omega), if_pos (by omega), next, List.getD_cons_succ]
          · rw [if_neg (by omega), if_neg (by omega), if_neg (by omega)]
      · rw [if_neg (by omega), if_neg (by omega), if_neg (by omega)]

/-- In the last column the guard of `setPixels` refuses every row of a glyph. -/
theorem drawRows_outside (fb : FrameBuffer) {x y : Nat} (fg bg : Colour) (bytes : List UInt8)
    (outside : FrameBuffer.width ≤ x + 8) : drawRows fb x y fg bg bytes = .ok fb := by
  induction bytes generalizing y with
  | nil => rfl
  | cons byte bytes ih =>
      rw [drawRows, FrameBuffer.surface_setPixels,
        FrameBuffer.setPixels_outside fb (by simpa using outside), Exec.ok_bind, ih]

section DrawChar

variable (font : Font) (fb : FrameBuffer) {x y : Nat} (ch : UInt8) (fg bg : Colour)

theorem drawChar_overflow (wraps : 2 ^ 32 ≤ x + 8) :
    font.drawChar fb x y ch fg bg = .error .overflow := by
  rw [drawChar, usizeAdd, width, addWithin_overflow wraps, Exec.error_bind]

theorem drawChar_outside (fits : x + 8 < 2 ^ 32) (outside : ¬ (x + 8 ≤ 640 ∧ y + 16 ≤ 480)) :
    font.drawChar fb x y ch fg bg = .ok fb := by
  have tall : height = 16 := rfl
  have screenWide : FrameBuffer.width = 640 := rfl
  have screenTall : FrameBuffer.height = 480 := rfl
  rw [drawChar, width, usizeAdd_ok fits, Exec.ok_bind, if_neg (by omega)]

theorem drawChar_inside (inRow : x + 8 ≤ 640) (inScreen : y + 16 ≤ 480) :
    font.drawChar fb x y ch fg bg = drawRows fb x y fg bg (List.ofFn (font.glyph ch)) := by
  have tall : height = 16 := rfl
  have screenWide : FrameBuffer.width = 640 := rfl
  have screenTall : FrameBuffer.height = 480 := rfl
  rw [drawChar, width, usizeAdd_ok (by omega), Exec.ok_bind, if_pos (by omega), index_ok,
    Exec.ok_bind]

theorem drawChar_ok (inRow : x + 8 < 640) (inScreen : y + 16 ≤ 480) :
    ∃ after, font.drawChar fb x y ch fg bg = .ok after ∧
      ∀ px py, after.pixel px py =
        if box : (x ≤ px.val ∧ px.val < x + 8) ∧ y ≤ py.val ∧ py.val < y + 16 then
          shade fg bg (font.glyph ch ⟨py.val - y, by omega⟩) (px.val - x)
        else fb.pixel px py := by
  have screenWide : FrameBuffer.width = 640 := rfl
  have screenTall : FrameBuffer.height = 480 := rfl
  obtain ⟨after, drawn, seen⟩ := drawRows_ok fb (x := x) (y := y) fg bg
    (List.ofFn (font.glyph ch)) (by omega) (by rw [List.length_ofFn]; omega)
  refine ⟨after, by rw [drawChar_inside font fb ch fg bg (by omega) inScreen, drawn], ?_⟩
  intro px py
  rw [seen, List.length_ofFn]
  by_cases box : (x ≤ px.val ∧ px.val < x + 8) ∧ y ≤ py.val ∧ py.val < y + 16
  · have row : py.val - y < (List.ofFn (font.glyph ch)).length := by
      rw [List.length_ofFn]
      omega
    rw [dif_pos box, if_pos (by omega), List.getD_eq_getElem _ _ row, List.getElem_ofFn]
  · rw [dif_neg box, if_neg (by omega)]

theorem drawChar_last (last : x + 8 = 640) (inScreen : y + 16 ≤ 480) :
    font.drawChar fb x y ch fg bg = .ok fb := by
  rw [drawChar_inside font fb ch fg bg (by omega) inScreen]
  exact drawRows_outside fb fg bg _ (le_of_eq last.symm)

end DrawChar

/-- What a pixel is to be after a glyph is drawn: in a box that fits on the screen, bit
`7 - j` of byte `i` of the glyph chooses the colour. -/
def drawnPixel (font : Font) (fb : FrameBuffer) (x y : Nat) (ch : UInt8) (fg bg : Colour)
    (px : Fin FrameBuffer.width) (py : Fin FrameBuffer.height) : UInt32 :=
  if box : (x + 8 ≤ 640 ∧ y + 16 ≤ 480) ∧
      (x ≤ px.val ∧ px.val < x + 8) ∧ y ≤ py.val ∧ py.val < y + 16 then
    if (font.glyph ch ⟨py.val - y, by omega⟩).toNat.testBit (7 - (px.val - x)) then fg.asRaw
    else bg.asRaw
  else fb.pixel px py

def DrawsExactly (font : Font) (fb : FrameBuffer) (x y : Nat) (ch : UInt8) (fg bg : Colour) :
    Prop :=
  ∃ after, font.drawChar fb x y ch fg bg = .ok after ∧
    ∀ px py, after.pixel px py = font.drawnPixel fb x y ch fg bg px py

theorem bitSet_eq_testBit (byte : UInt8) {column : Nat} (inside : column < 8) :
    bitSet byte column = byte.toNat.testBit (7 - column) := by
  have amount : (7 - column).toUInt8.toNat % 8 = 7 - column := by
    have small : (7 - column).toUInt8.toNat = (7 - column) % 256 := rfl
    omega
  have masked : (byte >>> (7 - column).toUInt8 &&& 1).toNat =
      (byte.toNat >>> (7 - column)) &&& 1 := by
    rw [UInt8.toNat_and, UInt8.toNat_shiftRight, amount]
    rfl
  rw [bitSet, Nat.testBit, Nat.and_comm, ← masked, Bool.eq_iff_iff, bne_iff_ne, bne_iff_ne,
    Ne, Ne, ← UInt8.toNat_inj]
  rfl

theorem drawChar_box (font : Font) (fb : FrameBuffer) {x y : Nat} (ch : UInt8) (fg bg : Colour)
    (inRow : x + 8 < 640) (inScreen : y + 16 ≤ 480) : font.DrawsExactly fb x y ch fg bg := by
  rcases font.drawChar_ok fb ch fg bg inRow inScreen with ⟨after, drawn, seen⟩
  refine ⟨after, drawn, fun px py => ?_⟩
  rw [seen, drawnPixel]
  by_cases box : (x ≤ px.val ∧ px.val < x + 8) ∧ y ≤ py.val ∧ py.val < y + 16
  · rw [dif_pos box, dif_pos ⟨by omega, box⟩, shade, bitSet_eq_testBit _ (by omega)]
  · rw [dif_neg box, dif_neg (by omega)]

theorem drawnPixel_outside (font : Font) (fb : FrameBuffer) {x y : Nat} (ch : UInt8)
    (fg bg : Colour) (outside : ¬ (x + 8 ≤ 640 ∧ y + 16 ≤ 480)) (px : Fin FrameBuffer.width)
    (py : Fin FrameBuffer.height) : font.drawnPixel fb x y ch fg bg px py = fb.pixel px py :=
  dif_neg fun box => outside box.1

/-- In the last column nothing is drawn, so the glyph has to be there already. -/
theorem drawChar_exact_iff (font : Font) (fb : FrameBuffer) (x y : Nat) (ch : UInt8)
    (fg bg : Colour) :
    font.DrawsExactly fb x y ch fg bg ↔
      x + 8 < 2 ^ 32 ∧
        (x + 8 = 640 → ∀ px py, font.drawnPixel fb x y ch fg bg px py = fb.pixel px py) := by
  constructor
  · intro exact
    rcases exact with ⟨after, drawn, seen⟩
    have fits : x + 8 < 2 ^ 32 := by
      apply Nat.lt_of_not_le
      intro wraps
      rw [font.drawChar_overflow fb ch fg bg wraps] at drawn
      cases drawn
    refine ⟨fits, fun last px py => ?_⟩
    by_cases inScreen : y + 16 ≤ 480
    · rw [font.drawChar_last fb ch fg bg last inScreen] at drawn
      cases drawn
      exact (seen px py).symm
    · exact font.drawnPixel_outside fb ch fg bg (by omega) px py
  · intro condition
    rcases condition with ⟨fits, shown⟩
    by_cases inScreen : x + 8 ≤ 640 ∧ y + 16 ≤ 480
    · rcases Nat.lt_or_eq_of_le inScreen.1 with before | last
      · exact font.drawChar_box fb ch fg bg before inScreen.2
      · exact ⟨fb, font.drawChar_last fb ch fg bg last inScreen.2,
          fun px py => (shown last px py).symm⟩
    · exact ⟨fb, font.drawChar_outside fb ch fg bg fits inScreen,
        fun px py => (font.drawnPixel_outside fb ch fg bg inScreen px py).symm⟩

/-- The cursor, an inverted space, in the last column of the top row of a black screen.
The glyph of the space is blank, as in the font file. -/
theorem drawChar_cursor_last_column :
    ¬ (⟨fun _ => 0⟩ : Font).DrawsExactly ⟨fun _ => 0⟩ 632 0 0x20 Colour.black Colour.white := by
  intro exact
  rcases exact with ⟨after, drawn, seen⟩
  rw [drawChar_last _ _ _ _ _ rfl (by decide)] at drawn
  cases drawn
  have corner := seen ⟨632, by decide⟩ ⟨0, by decide⟩
  rw [drawnPixel, dif_pos (by decide), if_neg (by decide)] at corner
  cases corner

theorem drawChar_cells (font : Font) (fb : FrameBuffer) {column row : Nat} (ch : UInt8)
    (fg bg : Colour) (inColumn : column < 80) (inRow : row < 30) :
    ∃ after, font.drawChar fb (column * width) (row * height) ch fg bg = .ok after ∧
      ∀ r c, after.cell r c =
        if r.val = row ∧ c.val = column ∧ column < 79 then font.image ch fg bg
        else fb.cell r c := by
  have left : column * width = column * 8 := rfl
  have top : row * height = row * 16 := rfl
  rw [left, top]
  by_cases last : column < 79
  · obtain ⟨after, drawn, seen⟩ := font.drawChar_ok fb (x := column * 8) (y := row * 16) ch fg bg
      (by omega) (by omega)
    refine ⟨after, drawn, fun r c => ?_⟩
    funext dy dx
    rw [FrameBuffer.cell, seen]
    dsimp only
    by_cases here : r.val = row ∧ c.val = column ∧ column < 79
    · rcases here with ⟨rfl, rfl, _⟩
      have down : r.val * 16 + dy.val - r.val * 16 = dy.val := by omega
      have across : c.val * 8 + dx.val - c.val * 8 = dx.val := by omega
      rw [dif_pos (by omega), if_pos ⟨rfl, rfl, last⟩, across, image]
      congr 2
      exact Fin.ext down
    · rw [if_neg here, dif_neg (by omega)]
      rfl
  · refine ⟨fb, font.drawChar_last fb ch fg bg (by omega) (by omega), fun r c => ?_⟩
    rw [if_neg fun inside => last inside.2.2]

end Font

end Ease
