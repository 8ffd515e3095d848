import Ease.Shell
import Mathlib.Data.List.DropRight

/-! The `print!` statements of the shell: for display actions, for commands, and over a
whole run. -/

namespace Ease.Shell

/-- One `print!`: the strings that its format writes, one after the other. Only `time`
prints something that is not the same at every evaluation. -/
inductive Print where
  | text (pieces : List String)
  | time
  deriving DecidableEq, Repr

def println (pieces : List String) : Print := .text (pieces ++ ["\n"])

def clearLinePrints (n : Nat) : List Print :=
  [.text [charStr ascii.cr]] ++ List.replicate (n + (strBytes prompt).length) (.text [" "]) ++
    [.text [charStr ascii.cr, prompt]]

def displayPrints : LineDisplayAction → List Print
  | .none => []
  | .echo b => [.text [charStr b]]
  | .enter => [println []]
  | .bell => [.text [charStr ascii.bell]]
  | .backspace s =>
      [.text [charStr ascii.bs, s, " ", charStr ascii.bs]] ++
        List.replicate (strBytes s).length (.text [charStr ascii.bs])
  | .redraw s n =>
      let spaces := n - (strBytes s).length
      [.text [s]] ++ List.replicate spaces (.text [" "]) ++
        List.replicate ((strBytes s).length + spaces - 1) (.text [charStr ascii.bs])
  | .redrawLine s n => clearLinePrints n ++ [.text [s]]
  | .clearLine n => clearLinePrints n
  | .cursorLeft => [.text [charStr ascii.bs]]
  | .cursorRight ch => [.text [charStr ch]]

namespace Commands

def clear : List Print := [.text [charStr ascii.ff]]

def echo (args : String) : List Print := [println [args]]

def help : List Print :=
  [println ["Available commands:"],
    println ["  clear - Clear the screen"],
    println ["  echo  - Print arguments"],
    println ["  help  - Show this help"],
    println ["  time  - Show system ticks"]]

def time : List Print := [.time]

def unknown (cmd : String) : List Print := [println ["Unknown command: ", cmd]]

end Commands

/-- `char::is_whitespace`: the characters with the Unicode property White_Space. -/
def isWhiteSpace (c : Char) : Bool :=
  (0x09 ≤ c.toNat && c.toNat ≤ 0x0D) || c.toNat == 0x20 || c.toNat == 0x85 || c.toNat == 0xA0 ||
    c.toNat == 0x1680 || (0x2000 ≤ c.toNat && c.toNat ≤ 0x200A) || c.toNat == 0x2028 ||
    c.toNat == 0x2029 || c.toNat == 0x202F || c.toNat == 0x205F || c.toNat == 0x3000

def trim (text : List Char) : List Char :=
  (text.dropWhile isWhiteSpace).rdropWhile isWhiteSpace

def findChar (wanted : Char) : List Char → Option Nat
  | [] => none
  | c :: rest => if c = wanted then some 0 else (findChar wanted rest).map (c.utf8Size + ·)

/-- The text before and from a byte offset; a slice there panics unless a character
starts or the text ends at the offset. -/
def splitAtByte : Nat → List Char → Exec (List Char × List Char)
  | 0, rest => .ok ([], rest)
  | _ + 1, [] => .error .outOfBounds
  | pos + 1, c :: rest =>
      if c.utf8Size ≤ pos + 1 then do
        let (before, after) ← splitAtByte (pos + 1 - c.utf8Size) rest
        .ok (c :: before, after)
      else .error .outOfBounds

def parseCommand (line : String) : Exec (Option (String × String)) :=
  let line := trim line.toList
  if line = [] then .ok none
  else
    match findChar ' ' line with
    | some pos => do
        let (cmd, _) ← splitAtByte pos line
        -- An offset into a string is far below the largest `usize`.
        let (_, args) ← splitAtByte (pos + 1) line
        .ok (some (String.ofList cmd, String.ofList (trim args)))
    | none => .ok (some (String.ofList line, ""))

def dispatch (cmd args : String) : List Print :=
  if cmd = "help" then Commands.help
  else if cmd = "clear" then Commands.clear
  else if cmd = "echo" then Commands.echo args
  else if cmd = "time" then Commands.time
  else Commands.unknown cmd

def execute (line : String) : Exec (List Print) := do
  match ← parseCommand line with
  | none => .ok []
  | some (cmd, args) => .ok (dispatch cmd args)

/-- The panic handler; `info` is the text of the fault. -/
def panicPrint (info : Fault → String) (fault : Fault) : Print :=
  println ["⚠️ PANIC! ", info fault]

/-- The statements for the events that the keyboard delivers from here on. Nothing runs
after the panic handler. -/
def runFrom (info : Fault → String) (ed : LineEditor) : List KeyEvent → List Print
  | [] => []
  | event :: events =>
      match ed.process event with
      | .error fault => [panicPrint info fault]
      | .ok (ed, result, action) =>
          displayPrints action ++
            match result with
            | none => runFrom info ed events
            | some line =>
                match execute line with
                | .error fault => [panicPrint info fault]
                | .ok output => output ++ .text [prompt] :: runFrom info ed events

def run (info : Fault → String) (events : List KeyEvent) : List Print :=
  .text [prompt] :: runFrom info .new events

def Print.pieces (tick : UInt32) : Print → List String
  | .text pieces => pieces
  | .time => [tick.toNat.repr, " [ms]", "\n"]

theorem clearLinePrints_pieces (tick : UInt32) (n : Nat) :
    (clearLinePrints n).flatMap (Print.pieces tick) = clearLineParts n := by
  simp [clearLinePrints, clearLineParts, Print.pieces, List.flatMap_replicate]

theorem displayPrints_pieces (tick : UInt32) (action : LineDisplayAction) :
    (displayPrints action).flatMap (Print.pieces tick) = displayParts action := by
  cases action with
  | redrawLine s n =>
      rw [displayPrints, List.flatMap_append, clearLinePrints_pieces]
      rfl
  | clearLine n => exact clearLinePrints_pieces tick n
  | backspace s => simp [displayPrints, displayParts, Print.pieces, List.flatMap_replicate]
  | redraw s n => simp [displayPrints, displayParts, Print.pieces, List.flatMap_replicate]
  | _ => rfl

end Ease.Shell
