import Ease.Collection
import Ease.Input
import Ease.Utf8

/-! The line editor of the shell. -/

namespace Ease

def lineLen : Nat := 256
def historySize : Nat := 30

/-- What the shell is told to show; a string is the bytes to print. -/
inductive LineDisplayAction where
  | none
  | backspace (s : String)
  | bell
  | echo (ch : UInt8)
  | enter
  | redraw (s : String) (n : Nat)
  | redrawLine (s : String) (n : Nat)
  | clearLine (n : Nat)
  | cursorLeft
  | cursorRight (ch : UInt8)
  deriving DecidableEq, Repr

structure LineEditor where
  line : Vec UInt8 lineLen
  savedLine : Vec UInt8 lineLen
  cursor : Nat
  historyIndex : Option Nat
  history : Vec (Vec UInt8 lineLen) historySize

abbrev KeyResult := Option String × LineDisplayAction

def sliceRange (bytes : List UInt8) (start stop : Nat) : Exec (List UInt8) :=
  if start ≤ stop ∧ stop ≤ bytes.length then .ok ((bytes.take stop).drop start)
  else .error .outOfBounds

namespace LineEditor

def new : LineEditor := ⟨Vec.new, Vec.new, 0, none, Vec.new⟩

def processByte (ed : LineEditor) (ch : UInt8) : Exec (LineEditor × KeyResult) :=
  if ch = ascii.tab then .ok (ed, none, .bell)
  else if ed.line.isFull then .ok (ed, none, .bell)
  else if ed.cursor = ed.line.len then do
    let (_, line) ← ed.line.push ch
    let cursor ← usizeAdd ed.cursor 1
    .ok ({ ed with line, cursor }, none, .echo ch)
  else do
    let (_, line) ← ed.line.insert ed.cursor ch
    let cursor ← usizeAdd ed.cursor 1
    let start ← subChecked cursor 1
    let suffix ← sliceRange (← line.asSlice) start line.len
    let s ← expectUtf8 "should be utf-8" suffix
    .ok ({ ed with line, cursor }, none, .redraw s 0)

def evict (ed : LineEditor) : Exec (Vec (Vec UInt8 lineLen) historySize) :=
  if ed.history.isFull then do
    let (_, history) ← ed.history.pop
    .ok history
  else .ok ed.history

def enter (ed : LineEditor) : Exec (LineEditor × KeyResult) := do
  let history ← ed.evict
  let (_, history) ← history.insert 0 ed.line
  let newest ← history.index 0
  let s ← expectUtf8 "should only have UTF-8-valid bytes" (← newest.asSlice)
  .ok ({ line := ed.line.clear, savedLine := ed.savedLine.clear, cursor := 0,
         historyIndex := none, history }, some s, .enter)

def backspace (ed : LineEditor) : Exec (LineEditor × KeyResult) :=
  if 0 < ed.cursor then do
    let cursor ← subChecked ed.cursor 1
    let (_, line) ← ed.line.remove cursor
    let suffix ← sliceRange (← line.asSlice) cursor line.len
    let s ← expectUtf8 "should be valid UTF-8" suffix
    .ok ({ ed with line, cursor }, none, .backspace s)
  else .ok (ed, none, .bell)

/-- Leaves `savedLine` as it was. -/
def esc (ed : LineEditor) : Exec (LineEditor × KeyResult) :=
  .ok ({ ed with line := ed.line.clear, cursor := 0, historyIndex := none }, none,
    .clearLine ed.line.len)

/-- `prev_len` of ArrowUp: while browsing it is the length of the history row, although
the line may have been edited since the row was recalled. -/
def recalledLen (ed : LineEditor) : Exec Nat :=
  match ed.historyIndex with
  | none => .ok ed.line.len
  | some i => do
      let row ← ed.history.index i
      .ok row.len

def olderIndex (ed : LineEditor) : Exec Nat :=
  match ed.historyIndex with
  | none => .ok 0
  | some i => usizeAdd i 1

def arrowUp (ed : LineEditor) : Exec (LineEditor × KeyResult) :=
  if ed.history.isEmpty then .ok (ed, none, .bell)
  else do
    let oldest ← subChecked ed.history.len 1
    if ed.historyIndex = some oldest then .ok (ed, none, .bell)
    else do
      let savedLine := if ed.historyIndex.isNone then ed.line else ed.savedLine
      let prevLen ← ed.recalledLen
      let index ← ed.olderIndex
      let line ← ed.history.index index
      let s ← expectUtf8 "should be UTF-8" (← line.asSlice)
      .ok ({ ed with line, savedLine, cursor := line.len, historyIndex := some index }, none,
        .redrawLine s prevLen)

def newerLine (ed : LineEditor) (index : Nat) : Exec (Option Nat × Vec UInt8 lineLen) :=
  if index = 0 then .ok (none, ed.savedLine)
  else do
    let previous ← subChecked index 1
    let line ← ed.history.index previous
    .ok (some previous, line)

def arrowDown (ed : LineEditor) : Exec (LineEditor × KeyResult) :=
  match ed.historyIndex with
  | none => .ok (ed, none, .bell)
  | some index =>
      if ed.history.isEmpty then .ok (ed, none, .bell)
      else do
        let prevLen := ed.line.len
        let (historyIndex, line) ← ed.newerLine index
        let s ← expectUtf8 "should be UTF-8" (← line.asSlice)
        .ok ({ ed with line, cursor := line.len, historyIndex }, none, .redrawLine s prevLen)

def arrowRight (ed : LineEditor) : Exec (LineEditor × KeyResult) :=
  if ed.cursor < ed.line.len then do
    let cursor ← usizeAdd ed.cursor 1
    let ch ← ed.line.index (← subChecked cursor 1)
    .ok ({ ed with cursor }, none, .cursorRight ch)
  else .ok (ed, none, .bell)

def arrowLeft (ed : LineEditor) : Exec (LineEditor × KeyResult) :=
  if 0 < ed.cursor then do
    let cursor ← subChecked ed.cursor 1
    .ok ({ ed with cursor }, none, .cursorLeft)
  else .ok (ed, none, .bell)

def process (ed : LineEditor) : KeyEvent → Exec (LineEditor × KeyResult)
  | .byte ch => ed.processByte ch
  | .special .enter => ed.enter
  | .special .backspace => ed.backspace
  | .special .esc => ed.esc
  | .special .arrowUp => ed.arrowUp
  | .special .arrowDown => ed.arrowDown
  | .special .arrowRight => ed.arrowRight
  | .special .arrowLeft => ed.arrowLeft

section Frames

variable {ed after : LineEditor} {result : KeyResult}

/-- An editing event writes the line and the cursor only, and nothing if it rings. -/
structure EditsLine (ed after : LineEditor) (result : KeyResult) : Prop where
  frame : after = { ed with line := after.line, cursor := after.cursor }
  silent : result.1 = none
  unchanged : result.2 = .bell → after = ed

theorem processByte_editsLine {ch : UInt8} (stepped : ed.processByte ch = .ok (after, result)) :
    EditsLine ed after result := by
  unfold processByte at stepped
  split at stepped
  · cases stepped
    exact ⟨rfl, rfl, fun _ => rfl⟩
  split at stepped
  · cases stepped
    exact ⟨rfl, rfl, fun _ => rfl⟩
  split at stepped
  · rcases Exec.bind_eq_ok.mp stepped with ⟨⟨_, line⟩, _, stepped⟩
    rcases Exec.bind_eq_ok.mp stepped with ⟨cursor, _, stepped⟩
    cases stepped
    exact ⟨rfl, rfl, nofun⟩
  · rcases Exec.bind_eq_ok.mp stepped with ⟨⟨_, line⟩, _, stepped⟩
    simp only [Exec.bind_eq_ok] at stepped
    rcases stepped with ⟨cursor, _, start, _, bytes, _, suffix, _, s, _, stepped⟩
    cases stepped
    exact ⟨rfl, rfl, nofun⟩

theorem backspace_editsLine (stepped : ed.backspace = .ok (after, result)) :
    EditsLine ed after result := by
  unfold backspace at stepped
  split at stepped
  · rcases Exec.bind_eq_ok.mp stepped with ⟨cursor, _, stepped⟩
    rcases Exec.bind_eq_ok.mp stepped with ⟨⟨_, line⟩, _, stepped⟩
    simp only [Exec.bind_eq_ok] at stepped
    rcases stepped with ⟨bytes, _, suffix, _, s, _, stepped⟩
    cases stepped
    exact ⟨rfl, rfl, nofun⟩
  · cases stepped
    exact ⟨rfl, rfl, fun _ => rfl⟩

theorem arrowRight_editsLine (stepped : ed.arrowRight = .ok (after, result)) :
    EditsLine ed after result := by
  unfold arrowRight at stepped
  split at stepped
  · simp only [Exec.bind_eq_ok] at stepped
    rcases stepped with ⟨cursor, _, index, _, ch, _, stepped⟩
    cases stepped
    exact ⟨rfl, rfl, nofun⟩
  · cases stepped
    exact ⟨rfl, rfl, fun _ => rfl⟩

theorem arrowLeft_editsLine (stepped : ed.arrowLeft = .ok (after, result)) :
    EditsLine ed after result := by
  unfold arrowLeft at stepped
  split at stepped
  · rcases Exec.bind_eq_ok.mp stepped with ⟨cursor, _, stepped⟩
    cases stepped
    exact ⟨rfl, rfl, nofun⟩
  · cases stepped
    exact ⟨rfl, rfl, fun _ => rfl⟩

theorem arrowUp_history (stepped : ed.arrowUp = .ok (after, result)) :
    after.history = ed.history ∧ result.1 = none := by
  unfold arrowUp at stepped
  split at stepped
  · cases stepped
    exact ⟨rfl, rfl⟩
  rcases Exec.bind_eq_ok.mp stepped with ⟨oldest, _, stepped⟩
  split at stepped
  · cases stepped
    exact ⟨rfl, rfl⟩
  · simp only [Exec.bind_eq_ok] at stepped
    rcases stepped with ⟨prevLen, _, index, _, line, _, bytes, _, s, _, stepped⟩
    cases stepped
    exact ⟨rfl, rfl⟩

theorem arrowDown_history (stepped : ed.arrowDown = .ok (after, result)) :
    after.history = ed.history ∧ result.1 = none := by
  unfold arrowDown at stepped
  split at stepped
  · cases stepped
    exact ⟨rfl, rfl⟩
  split at stepped
  · cases stepped
    exact ⟨rfl, rfl⟩
  · rcases Exec.bind_eq_ok.mp stepped with ⟨⟨historyIndex, line⟩, _, stepped⟩
    simp only [Exec.bind_eq_ok] at stepped
    rcases stepped with ⟨bytes, _, s, _, stepped⟩
    cases stepped
    exact ⟨rfl, rfl⟩

theorem process_history {event : KeyEvent} (stepped : ed.process event = .ok (after, result))
    (other : event ≠ .special .enter) : after.history = ed.history ∧ result.1 = none := by
  have edited : EditsLine ed after result → after.history = ed.history ∧ result.1 = none := by
    intro edits
    exact ⟨by rw [edits.frame], edits.silent⟩
  cases event with
  | byte ch => exact edited (processByte_editsLine stepped)
  | special key =>
      cases key with
      | backspace => exact edited (backspace_editsLine stepped)
      | enter => exact absurd rfl other
      | esc =>
          cases stepped
          exact ⟨rfl, rfl⟩
      | arrowUp => exact arrowUp_history stepped
      | arrowDown => exact arrowDown_history stepped
      | arrowLeft => exact edited (arrowLeft_editsLine stepped)
      | arrowRight => exact edited (arrowRight_editsLine stepped)

end Frames

end LineEditor

end Ease
