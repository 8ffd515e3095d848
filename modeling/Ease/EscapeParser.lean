import Ease.Input

/-! The parser of escape sequences, and the keystrokes that a terminal encodes. -/

namespace Ease

inductive ParseResult where
  | byte (ch : UInt8)
  | special (key : Key)
  | pending
  | invalidSequence
  deriving DecidableEq, Repr

inductive EscapeState where
  | normal
  | gotEscape
  | gotBracket
  deriving DecidableEq, Repr

structure EscapeParser where
  state : EscapeState
  deriving DecidableEq, Repr

namespace EscapeParser

def new : EscapeParser := ⟨.normal⟩

def parseFinal (byte : UInt8) : ParseResult :=
  if byte = 0x41 then .special .arrowUp
  else if byte = 0x42 then .special .arrowDown
  else if byte = 0x43 then .special .arrowRight
  else if byte = 0x44 then .special .arrowLeft
  else .invalidSequence

def parse (parser : EscapeParser) (byte : UInt8) : ParseResult × EscapeParser :=
  match parser.state with
  | .gotBracket => (parseFinal byte, ⟨.normal⟩)
  | .gotEscape =>
      if byte = 0x5B then (.pending, ⟨.gotBracket⟩)
      else (.special .esc, ⟨.normal⟩)
  | .normal =>
      if byte = 0x1B then (.pending, ⟨.gotEscape⟩)
      else if byte = 0x0D then (.special .enter, ⟨.normal⟩)
      else if byte = 0x7F ∨ byte = 0x08 then (.special .backspace, ⟨.normal⟩)
      else (.byte byte, ⟨.normal⟩)

def reset (_ : EscapeParser) : EscapeParser := ⟨.normal⟩

end EscapeParser

def Plain (byte : UInt8) : Prop := byte ≠ 0x1B ∧ byte ≠ 0x0D ∧ byte ≠ 0x7F ∧ byte ≠ 0x08

instance : DecidablePred Plain := fun _ => inferInstanceAs (Decidable (_ ∧ _))

inductive Arrow where
  | up
  | down
  | left
  | right
  deriving DecidableEq, Repr

namespace Arrow

def final : Arrow → UInt8
  | up => 0x41
  | down => 0x42
  | right => 0x43
  | left => 0x44

def key : Arrow → Key
  | up => .arrowUp
  | down => .arrowDown
  | right => .arrowRight
  | left => .arrowLeft

end Arrow

/-- What the user presses. Terminals differ in the byte that they send for Backspace. -/
inductive Keystroke where
  | text (byte : UInt8) (plain : Plain byte)
  | enter
  | backspaceDel
  | backspaceBs
  | arrow (direction : Arrow)

namespace Keystroke

def encode : Keystroke → List UInt8
  | text byte _ => [byte]
  | enter => [0x0D]
  | backspaceDel => [0x7F]
  | backspaceBs => [0x08]
  | arrow direction => [0x1B, 0x5B, direction.final]

def event : Keystroke → KeyEvent
  | text byte _ => .byte byte
  | enter => .special .enter
  | backspaceDel => .special .backspace
  | backspaceBs => .special .backspace
  | arrow direction => .special direction.key

end Keystroke

def encodeKeys (keys : List Keystroke) : List UInt8 := keys.flatMap Keystroke.encode

theorem encodeKeys_cons (key : Keystroke) (keys : List Keystroke) :
    encodeKeys (key :: keys) = key.encode ++ encodeKeys keys := List.flatMap_cons ..

namespace EscapeParser

@[simp] theorem parse_escape : new.parse 0x1B = (.pending, ⟨.gotEscape⟩) := rfl

@[simp] theorem parse_bracket :
    (⟨.gotEscape⟩ : EscapeParser).parse 0x5B = (.pending, ⟨.gotBracket⟩) := rfl

@[simp] theorem parse_final (direction : Arrow) :
    (⟨.gotBracket⟩ : EscapeParser).parse direction.final = (.special direction.key, new) := by
  cases direction <;> rfl

def result : KeyEvent → ParseResult
  | .byte ch => .byte ch
  | .special key => .special key

theorem encode_cases (key : Keystroke) :
    (∃ byte, key.encode = [byte] ∧ byte ≠ 0x1B ∧ new.parse byte = (result key.event, new)) ∨
      ∃ direction, key = .arrow direction := by
  cases key with
  | text byte plain =>
      rcases plain with ⟨esc, enter, del, bs⟩
      refine .inl ⟨byte, rfl, esc, ?_⟩
      simp [parse, new, result, Keystroke.event, esc, enter, del, bs]
  | enter => exact .inl ⟨0x0D, rfl, by decide, rfl⟩
  | backspaceDel => exact .inl ⟨0x7F, rfl, by decide, rfl⟩
  | backspaceBs => exact .inl ⟨0x08, rfl, by decide, rfl⟩
  | arrow direction => exact .inr ⟨direction, rfl⟩

theorem final_ne_escape (direction : Arrow) : direction.final ≠ 0x1B := by
  cases direction <;> decide

end EscapeParser

end Ease
