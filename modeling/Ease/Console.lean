import Ease.Font
import Ease.Terminal

/-! The console driver: a text buffer of 30 rows of 80 bytes, a cursor, and the frame
buffer that both are drawn on when one is attached. -/

namespace Ease

def rowCount : Nat := 30

def columnCount : Nat := 80

def tabSize : Nat := 8

structure Cursor where
  x : Nat
  y : Nat
  visible : Bool
  deriving DecidableEq, Repr

/-- The console on a surface; the driver has it on the frame buffer. -/
structure Console (S : Type := FrameBuffer) where
  fb : Option S
  buffer : Slots Line 30
  cursor : Cursor
  fg : Colour
  bg : Colour

namespace Console

variable {S : Type}

def blank (S : Type) : Console S where
  fb := none
  buffer := fun _ => blankLine
  cursor := ⟨0, 0, false⟩
  fg := .white
  bg := .black

def new : Console := blank FrameBuffer

def attachFb (console : Console S) (fb : S) : Console S := { console with fb := some fb }

def setVisible (console : Console S) (visible : Bool) : Console S :=
  { console with cursor := { console.cursor with visible := visible } }

def moveTo (console : Console S) (x y : Nat) : Console S :=
  { console with cursor := { console.cursor with x := x, y := y } }

-- A cursor that has passed an index check is below 80 and 30, so the sums and
-- products of this file stay far below `2 ^ 32` and are left unchecked.

def charAtCursor (console : Console S) : Exec UInt8 := do
  let line ← console.buffer.read console.cursor.y
  Slots.read line console.cursor.x

def storeAtCursor (console : Console S) (ch : UInt8) : Exec (Console S) := do
  let line ← console.buffer.read console.cursor.y
  let line ← Slots.write line console.cursor.x ch
  let buffer ← console.buffer.write console.cursor.y line
  .ok { console with buffer := buffer }

variable [Surface S]

def paint (font : Font) (console : Console S) (ch : UInt8) (fg bg : Colour) : Exec (Console S) :=
  match console.fb with
  | none => .ok console
  | some fb => do
      let fb ← font.drawChar fb (console.cursor.x * Font.width) (console.cursor.y * Font.height)
        ch fg bg
      .ok { console with fb := some fb }

/-- The character under the cursor, read and drawn only when there is a frame buffer. -/
def paintCursor (font : Font) (console : Console S) (fg bg : Colour) : Exec (Console S) :=
  match console.fb with
  | none => .ok console
  | some _ => do
      let ch ← console.charAtCursor
      console.paint font ch fg bg

def drawChar (font : Font) (console : Console S) (ch : UInt8) : Exec (Console S) :=
  console.paint font ch console.fg console.bg

def hideCursor (font : Font) (console : Console S) : Exec (Console S) :=
  if console.cursor.visible then do
    let console ← console.paintCursor font console.fg console.bg
    .ok (console.setVisible false)
  else .ok console

def showCursor (font : Font) (console : Console S) : Exec (Console S) :=
  if !console.cursor.visible then do
    let console ← console.paintCursor font console.bg console.fg
    .ok (console.setVisible true)
  else .ok console

def shiftRows (buffer : Slots Line 30) : Exec (Slots Line 30) :=
  (List.range (rowCount - 1)).foldlM
    (fun buffer row => do
      let line ← buffer.read (row + 1)
      buffer.write row line)
    buffer

def scroll (console : Console S) : Exec (Console S) := do
  let buffer ← shiftRows console.buffer
  let buffer ← buffer.write (rowCount - 1) blankLine
  let console := { console with buffer := buffer }.moveTo 0 (rowCount - 1)
  match console.fb with
  | none => .ok console
  | some fb => do
      let fb ← Surface.scroll fb Font.height console.bg
      .ok { console with fb := some fb }

def clear (console : Console S) : Console S :=
  { console with
    buffer := fun _ => blankLine
    fb := console.fb.map fun screen => Surface.fill screen console.bg }.moveTo 0 0

/-- The rounds of a bell; the waits between the drawings leave the state alone. -/
def flash (font : Font) (console : Console S) : Nat → Exec (Console S)
  | 0 => .ok console
  | rounds + 1 => do
      let console ← console.drawChar font 0x2A
      let console ← console.drawChar font 0x20
      console.flash font rounds

/-- The loop of a tab. Its body adds one to `x`, so it runs `next_tab - x` times. -/
def blankCells (font : Font) (console : Console S) : Nat → Exec (Console S)
  | 0 => .ok console
  | count + 1 => do
      let console ← console.storeAtCursor 0x20
      let console ← console.drawChar font 0x20
      (console.moveTo (console.cursor.x + 1) console.cursor.y).blankCells font count

def putBell (font : Font) (console : Console S) : Exec (Console S) := do
  let currentCh ← console.charAtCursor
  let console ← console.flash font 2
  let console ← console.drawChar font currentCh
  .ok (console.setVisible false)

def putBack (font : Font) (console : Console S) : Exec (Console S) :=
  if 0 < console.cursor.x then do
    let console ← console.hideCursor font
    .ok (console.moveTo (console.cursor.x - 1) console.cursor.y)
  else .ok console

def putTab (font : Font) (console : Console S) : Exec (Console S) := do
  let console ← console.hideCursor font
  let nextTab := (console.cursor.x / tabSize + 1) * tabSize
  let nextTab := min nextTab (columnCount - 1)
  console.blankCells font (nextTab - console.cursor.x)

def putCr (font : Font) (console : Console S) : Exec (Console S) := do
  let console ← console.hideCursor font
  .ok (console.moveTo 0 console.cursor.y)

def putFf (font : Font) (console : Console S) : Exec (Console S) := do
  let console ← console.hideCursor font
  .ok console.clear

def putLf (font : Font) (console : Console S) : Exec (Console S) := do
  let console ← console.hideCursor font
  if console.cursor.y < rowCount - 1 then .ok (console.moveTo 0 (console.cursor.y + 1))
  else console.scroll

def advance (console : Console S) : Exec (Console S) :=
  let console := console.moveTo (console.cursor.x + 1) console.cursor.y
  if columnCount ≤ console.cursor.x then
    let console := console.moveTo 0 (console.cursor.y + 1)
    if rowCount ≤ console.cursor.y then console.scroll
    else .ok console
  else .ok console

def putWriteable (font : Font) (console : Console S) (ch : UInt8) : Exec (Console S) := do
  let console ← console.storeAtCursor ch
  let console ← console.drawChar font ch
  -- The drawn character covers the cursor.
  (console.setVisible false).advance

def putChar (font : Font) (console : Console S) (ch : UInt8) : Exec (Console S) :=
  match Control.of ch with
  | .bell => console.putBell font
  | .back => console.putBack font
  | .tab => console.putTab font
  | .cr => console.putCr font
  | .ff => console.putFf font
  | .lf => console.putLf font
  | .writeable => console.putWriteable font ch

def putChars (font : Font) (console : Console S) (bytes : List UInt8) : Exec (Console S) :=
  bytes.foldlM (putChar font) console

def writeStr (font : Font) (console : Console S) (bytes : List UInt8) : Exec (Console S) := do
  let console ← console.putChars font bytes
  console.showCursor font

end Console

end Ease
