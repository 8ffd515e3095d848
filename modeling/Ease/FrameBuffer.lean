import Ease.Raster

/-! The RAM frame buffer: 640 by 480 pixels of 32 bits, row by row. -/

namespace Ease

structure Colour where
  raw : UInt32
  deriving DecidableEq, Repr

namespace Colour

def black : Colour := ⟨0x000000⟩

def white : Colour := ⟨0xFFFFFF⟩

def asRaw (colour : Colour) : UInt32 := colour.raw

end Colour

namespace FrameBuffer

def width : Nat := 640

def height : Nat := 480

end FrameBuffer

/-- `pixels` is the memory that `buffer` returns a slice of. -/
structure FrameBuffer where
  pixels : Slots UInt32 (FrameBuffer.width * FrameBuffer.height)

namespace FrameBuffer

-- Positions here are far below `2 ^ 32`, so `usize` sums and products are plain.
def setPixels (fb : FrameBuffer) (x y : Nat) (colours : List UInt32) : Exec FrameBuffer :=
  if x + colours.length < width ∧ y < height then do
    let pixels ← fb.pixels.copyFrom (y * width + x) (y * width + x + colours.length) colours
    .ok ⟨pixels⟩
  else .ok fb

def fillRows (fb : FrameBuffer) (startY rows : Nat) (colour : Colour) : Exec FrameBuffer :=
  if startY + rows ≤ height then do
    let pixels ← fb.pixels.fill (startY * width) ((startY + rows) * width) colour.asRaw
    .ok ⟨pixels⟩
  else .ok fb

def scroll (fb : FrameBuffer) (scrollHeight : Nat) (bg : Colour) : Exec FrameBuffer := do
  let pixels ← fb.pixels.copyWithin (scrollHeight * width) (width * height) 0
  let startY ← subChecked height scrollHeight
  fillRows ⟨pixels⟩ startY scrollHeight bg

def fill (_ : FrameBuffer) (colour : Colour) : FrameBuffer := ⟨fun _ => colour.asRaw⟩

def pixel (fb : FrameBuffer) (x : Fin width) (y : Fin height) : UInt32 := Raster.get fb.pixels x y

theorem setPixels_ok (fb : FrameBuffer) {x y : Nat} {colours : List UInt32}
    (fits : x + colours.length < width) (inside : y < height) :
    ∃ after, fb.setPixels x y colours = .ok after ∧
      ∀ px py, after.pixel px py =
        if py.val = y ∧ x ≤ px.val ∧ px.val - x < colours.length then colours.getD (px.val - x) 0
        else fb.pixel px py := by
  rcases Raster.copyFrom_row fb.pixels fits inside 0 with ⟨pixels, copied, seen⟩
  refine ⟨⟨pixels⟩, ?_, seen⟩
  rw [setPixels, if_pos ⟨fits, inside⟩, copied]
  rfl

theorem setPixels_outside (fb : FrameBuffer) {x y : Nat} {colours : List UInt32}
    (outside : width ≤ x + colours.length) : fb.setPixels x y colours = .ok fb :=
  if_neg fun inside => Nat.not_lt.mpr outside inside.1

theorem scroll_ok (fb : FrameBuffer) {scrollHeight : Nat} (bg : Colour)
    (fits : scrollHeight ≤ height) :
    ∃ after, fb.scroll scrollHeight bg = .ok after ∧
      ∀ px py, after.pixel px py =
        if below : py.val + scrollHeight < height then fb.pixel px ⟨py.val + scrollHeight, below⟩
        else bg.asRaw := by
  rcases Raster.copyWithin_up fb.pixels fits with ⟨moved, copied, seenMoved⟩
  have bottom : height - scrollHeight + scrollHeight = height := Nat.sub_add_cancel fits
  obtain ⟨filled, filling, seenFilled⟩ :=
    Raster.fill_rows moved bg.asRaw (Nat.sub_le height scrollHeight) (Nat.le_refl _)
  refine ⟨⟨filled⟩, ?_, fun px py => ?_⟩
  · rw [scroll, copied, Exec.ok_bind, subChecked_ok fits, Exec.ok_bind, fillRows, bottom,
      if_pos (Nat.le_refl _), filling]
    rfl
  · have row := py.isLt
    rw [pixel, seenFilled, seenMoved]
    by_cases below : py.val + scrollHeight < height
    · rw [if_neg (by omega), dif_pos below, dif_pos below]
      rfl
    · rw [if_pos (by omega), dif_neg below]

end FrameBuffer

/-- What the console draws on: the pixels as a value, or the memory that holds them. -/
class Surface (S : Type) where
  setPixels : S → Nat → Nat → List UInt32 → Exec S
  scroll : S → Nat → Colour → Exec S
  fill : S → Colour → S

@[default_instance]
instance : Surface FrameBuffer := ⟨FrameBuffer.setPixels, FrameBuffer.scroll, FrameBuffer.fill⟩

namespace FrameBuffer

@[simp] theorem surface_setPixels (fb : FrameBuffer) (x y : Nat) (colours : List UInt32) :
    Surface.setPixels fb x y colours = fb.setPixels x y colours := rfl

@[simp] theorem surface_scroll (fb : FrameBuffer) (scrollHeight : Nat) (bg : Colour) :
    Surface.scroll fb scrollHeight bg = fb.scroll scrollHeight bg := rfl

@[simp] theorem surface_fill (fb : FrameBuffer) (colour : Colour) :
    Surface.fill fb colour = fb.fill colour := rfl

end FrameBuffer

end Ease
