import Ease.ArrayMemory
import Ease.FrameBuffer

/-! The frame buffer as the memory that the device shows: the functions of `FrameBuffer` on
bytes, and what they make of the pixels. -/

namespace Ease

namespace FrameBuffer

def fbAddr : Nat := 0x80200000

/-- `y * w + x` is a pixel of the screen, so the sum does not wrap. -/
def setPixel (fb : FrameBuffer) (x y : Nat) (colour : Colour) : Exec FrameBuffer :=
  if x < width ∧ y < height then do
    let pixels ← fb.pixels.write (y * width + x) colour.asRaw
    .ok ⟨pixels⟩
  else .ok fb

def setRow (fb : FrameBuffer) (y : Nat) (colour : Colour) : Exec FrameBuffer :=
  if y < height then do
    let pixels ← fb.pixels.fill (y * width) ((y + 1) * width) colour.asRaw
    .ok ⟨pixels⟩
  else .ok fb

end FrameBuffer

namespace Bare

open FrameBuffer (width height)

def buffer : RawArray UInt32 := ⟨.word, FrameBuffer.fbAddr, width * height⟩

def setPixel (mem : Memory) (x y : Nat) (colour : Colour) : Exec Memory :=
  if x < width ∧ y < height then buffer.write mem (y * width + x) colour.asRaw else .ok mem

def setPixels (mem : Memory) (x y : Nat) (colours : List UInt32) : Exec Memory := do
  let right ← usizeAdd x colours.length
  if right < width ∧ y < height then
    buffer.copyFrom mem (y * width + x) (y * width + x + colours.length) colours
  else .ok mem

def setRow (mem : Memory) (y : Nat) (colour : Colour) : Exec Memory :=
  if y < height then buffer.fill mem (y * width) ((y + 1) * width) colour.asRaw else .ok mem

def fillRows (mem : Memory) (startY rows : Nat) (colour : Colour) : Exec Memory := do
  let stop ← usizeAdd startY rows
  if stop ≤ height then buffer.fill mem (startY * width) (stop * width) colour.asRaw else .ok mem

def scroll (mem : Memory) (scrollHeight : Nat) (bg : Colour) : Exec Memory := do
  let start ← usizeMul scrollHeight width
  let mem ← buffer.copyWithin mem start (width * height) 0
  let startY ← subChecked height scrollHeight
  fillRows mem startY scrollHeight bg

def fill (mem : Memory) (colour : Colour) : Memory := buffer.fillAll mem colour.asRaw

end Bare

instance : Surface Memory := ⟨Bare.setPixels, Bare.scroll, Bare.fill⟩

inductive ScreenOp where
  | setPixel (x y : Nat) (colour : Colour)
  | setPixels (x y : Nat) (colours : List UInt32)
  | setRow (y : Nat) (colour : Colour)
  | scroll (scrollHeight : Nat) (bg : Colour)
  | fillRows (startY rows : Nat) (colour : Colour)
  | fill (colour : Colour)

namespace ScreenOp

def store (mem : Memory) : ScreenOp → Exec Memory
  | setPixel x y colour => Bare.setPixel mem x y colour
  | setPixels x y colours => Bare.setPixels mem x y colours
  | setRow y colour => Bare.setRow mem y colour
  | scroll scrollHeight bg => Bare.scroll mem scrollHeight bg
  | fillRows startY rows colour => Bare.fillRows mem startY rows colour
  | fill colour => .ok (Bare.fill mem colour)

/-- The sums and products of the arguments are `usize`. -/
def Fits : ScreenOp → Prop
  | setPixels x _ colours => x + colours.length < 2 ^ 32
  | scroll scrollHeight _ => scrollHeight * FrameBuffer.width < 2 ^ 32
  | fillRows startY rows _ => startY + rows < 2 ^ 32
  | setPixel _ _ _ | setRow _ _ | fill _ => True

instance (op : ScreenOp) : Decidable op.Fits := by
  cases op <;> unfold Fits <;> infer_instance

/-- On the frame buffer, where positions are not bounded. -/
def paint (fb : FrameBuffer) : ScreenOp → Exec FrameBuffer
  | setPixel x y colour => fb.setPixel x y colour
  | setPixels x y colours => fb.setPixels x y colours
  | setRow y colour => fb.setRow y colour
  | scroll scrollHeight bg => fb.scroll scrollHeight bg
  | fillRows startY rows colour => fb.fillRows startY rows colour
  | fill colour => .ok (fb.fill colour)

def draw (fb : FrameBuffer) (op : ScreenOp) : Exec FrameBuffer :=
  if op.Fits then op.paint fb else .error .overflow

end ScreenOp

/-- The memory holds the pixels at `FB_ADDR`, and is `outer` elsewhere. -/
def Framed (outer mem : Memory) (fb : FrameBuffer) : Prop := Bare.buffer.Holds outer mem fb.pixels

section

open Exec (Lockstep)
open FrameBuffer (width height)

variable {outer mem : Memory} {fb : FrameBuffer}

theorem framed_pixels {first : Exec Memory} {second : Exec (Slots UInt32 (width * height))}
    (lockstep : Lockstep (Bare.buffer.Holds outer) first second) :
    Lockstep (Framed outer) first (second >>= fun pixels => .ok ⟨pixels⟩) := by
  cases lockstep with
  | ok holds => exact .ok holds
  | error fault => exact .error fault

theorem Framed.setPixel (framed : Framed outer mem fb) (x y : Nat) (colour : Colour) :
    Lockstep (Framed outer) (Bare.setPixel mem x y colour) (fb.setPixel x y colour) := by
  apply Lockstep.ite
  · exact fun _ => framed_pixels (RawArray.Holds.write framed _ _)
  · exact fun _ => .ok framed

theorem Framed.setPixels (framed : Framed outer mem fb) {x : Nat} (y : Nat) {colours : List UInt32}
    (fits : x + colours.length < 2 ^ 32) :
    Lockstep (Framed outer) (Bare.setPixels mem x y colours) (fb.setPixels x y colours) := by
  rw [Bare.setPixels, usizeAdd_ok fits, Exec.ok_bind]
  apply Lockstep.ite
  · exact fun _ => framed_pixels (RawArray.Holds.copyFrom framed _ _ _)
  · exact fun _ => .ok framed

theorem Framed.setRow (framed : Framed outer mem fb) (y : Nat) (colour : Colour) :
    Lockstep (Framed outer) (Bare.setRow mem y colour) (fb.setRow y colour) := by
  apply Lockstep.ite
  · exact fun _ => framed_pixels (RawArray.Holds.fill framed _ _ _)
  · exact fun _ => .ok framed

theorem Framed.fillRows (framed : Framed outer mem fb) {startY rows : Nat} (colour : Colour)
    (fits : startY + rows < 2 ^ 32) :
    Lockstep (Framed outer) (Bare.fillRows mem startY rows colour)
      (fb.fillRows startY rows colour) := by
  rw [Bare.fillRows, usizeAdd_ok fits, Exec.ok_bind]
  apply Lockstep.ite
  · exact fun _ => framed_pixels (RawArray.Holds.fill framed _ _ _)
  · exact fun _ => .ok framed

theorem Framed.scroll (framed : Framed outer mem fb) {scrollHeight : Nat} (bg : Colour)
    (fits : scrollHeight * width < 2 ^ 32) :
    Lockstep (Framed outer) (Bare.scroll mem scrollHeight bg) (fb.scroll scrollHeight bg) := by
  rw [Bare.scroll, usizeMul_ok fits, Exec.ok_bind, FrameBuffer.scroll]
  apply (RawArray.Holds.copyWithin framed (scrollHeight * width) (width * height) 0).bind
  intro moved pixels holds
  apply Lockstep.same
  intro startY below
  rw [subChecked] at below
  split at below
  · next inside =>
      have bottom : startY + scrollHeight = height := by
        rw [← Except.ok.inj below]
        exact Nat.sub_add_cancel inside
      apply Framed.fillRows holds bg
      rw [bottom]
      decide
  · cases below

theorem Framed.fill (framed : Framed outer mem fb) (colour : Colour) :
    Framed outer (Bare.fill mem colour) (fb.fill colour) :=
  RawArray.Holds.fillAll framed colour.asRaw

theorem Framed.store (framed : Framed outer mem fb) (op : ScreenOp) :
    Lockstep (Framed outer) (op.store mem) (op.draw fb) := by
  rw [ScreenOp.draw]
  by_cases fits : op.Fits
  · rw [if_pos fits]
    cases op with
    | setPixel x y colour => exact framed.setPixel x y colour
    | setPixels x y colours => exact framed.setPixels y fits
    | setRow y colour => exact framed.setRow y colour
    | scroll scrollHeight bg => exact framed.scroll bg fits
    | fillRows startY rows colour => exact framed.fillRows colour fits
    | fill colour => exact .ok (framed.fill colour)
  · rw [if_neg fits]
    cases op with
    | setPixels x y colours =>
        rw [ScreenOp.store, Bare.setPixels, usizeAdd, addWithin_overflow (Nat.not_lt.mp fits)]
        exact .error .overflow
    | scroll scrollHeight bg =>
        have wraps : usizeMul scrollHeight width = .error .overflow := if_neg fits
        rw [ScreenOp.store, Bare.scroll, wraps]
        exact .error .overflow
    | fillRows startY rows colour =>
        rw [ScreenOp.store, Bare.fillRows, usizeAdd, addWithin_overflow (Nat.not_lt.mp fits)]
        exact .error .overflow
    | setPixel | setRow | fill => exact absurd trivial fits

theorem Framed.stores (framed : Framed outer mem fb) (ops : List ScreenOp) :
    Lockstep (Framed outer) (ops.foldlM ScreenOp.store mem) (ops.foldlM ScreenOp.draw fb) :=
  Lockstep.foldlM (fun _ _ op framed => Framed.store framed op) framed ops

end

end Ease
