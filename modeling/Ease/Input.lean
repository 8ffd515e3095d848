import Mathlib.Data.UInt

/-! Bytes with a meaning on the console, and the key events of the keyboard. -/

namespace Ease

namespace ascii

def bell : UInt8 := 0x07
def bs : UInt8 := 0x08
def tab : UInt8 := 0x09
def lf : UInt8 := 0x0A
def ff : UInt8 := 0x0C
def cr : UInt8 := 0x0D
def del : UInt8 := 0x7F

end ascii

inductive Key where
  | backspace
  | enter
  | esc
  | arrowUp
  | arrowDown
  | arrowLeft
  | arrowRight
  deriving DecidableEq, Repr

inductive KeyEvent where
  | byte (ch : UInt8)
  | special (key : Key)
  deriving DecidableEq, Repr

end Ease
