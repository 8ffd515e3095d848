import Ease.Console
import Ease.LineEditor

/-! What the shell prints on the console for a display action. -/

namespace Ease.Shell

def prompt : String := "ease> "

/-- The strings that `print!` hands to `write_str`, one for each piece of its format. -/
def clearLineParts (n : Nat) : List String :=
  [charStr ascii.cr] ++ List.replicate (n + (strBytes prompt).length) " " ++
    [charStr ascii.cr, prompt]

def displayParts : LineDisplayAction → List String
  | .none => []
  | .echo b => [charStr b]
  | .enter => ["\n"]
  | .bell => [charStr ascii.bell]
  | .backspace s =>
      [charStr ascii.bs, s, " ", charStr ascii.bs] ++
        List.replicate (strBytes s).length (charStr ascii.bs)
  | .redraw s n =>
      let spaces := n - (strBytes s).length
      [s] ++ List.replicate spaces " " ++
        List.replicate ((strBytes s).length + spaces - 1) (charStr ascii.bs)
  | .redrawLine s n => clearLineParts n ++ [s]
  | .clearLine n => clearLineParts n
  | .cursorLeft => [charStr ascii.bs]
  | .cursorRight ch => [charStr ch]

/-- The console's share of `handle_display`; the serial line gets the same strings. -/
def handleDisplay (font : Font) (console : Console) (action : LineDisplayAction) : Exec Console :=
  ((displayParts action).map strBytes).foldlM (Console.writeStr font) console

end Ease.Shell
