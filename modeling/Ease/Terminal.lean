import Ease.Scrollback
import Ease.Input

/-! What a byte does on a terminal of 80 columns, on any kind of paper: the screen of
30 rows and the unbounded scrollback are two kinds. -/

namespace Ease

abbrev Line := Fin 80 → UInt8

def blankLine : Line := fun _ => 0x20

/-- Paper with a current row; a new line may move the rows under it. -/
structure Paper (σ : Type) where
  blank : σ
  modify : σ → (Line → Line) → σ
  newLine : σ → σ

@[ext] structure Terminal (σ : Type) where
  sheet : σ
  x : Fin 80

namespace Terminal

variable {σ τ : Type}

def start (paper : Paper σ) : Terminal σ := ⟨paper.blank, 0⟩

def nextTab (x : Fin 80) : Fin 80 := ⟨min ((x.val / 8 + 1) * 8) 79, by omega⟩

def blankBetween (start stop : Nat) (line : Line) : Line := fun column =>
  if start ≤ column.val ∧ column.val < stop then 0x20 else line column

theorem blankBetween_empty (start : Nat) (line : Line) : blankBetween start start line = line := by
  funext column
  rw [blankBetween, if_neg (by omega)]

theorem blankBetween_step (start : Fin 80) {stop : Nat} (ordered : start.val < stop) (line : Line) :
    blankBetween (start.val + 1) stop (Function.update line start 0x20) =
      blankBetween start.val stop line := by
  funext column
  by_cases here : column = start
  · subst here
    rw [blankBetween, blankBetween, if_neg (by omega), if_pos (by omega), Function.update_self]
  · have other : column.val ≠ start.val := fun equal => here (Fin.ext equal)
    simp only [blankBetween, Function.update_of_ne here]
    by_cases inside : start.val + 1 ≤ column.val ∧ column.val < stop
    · rw [if_pos inside, if_pos (by omega)]
    · rw [if_neg inside, if_neg (by omega)]

/-- Bell; backspace and delete; tab; carriage return; form feed; line feed; and any other
byte, which is written. -/
def put (paper : Paper σ) (terminal : Terminal σ) (byte : UInt8) : Terminal σ :=
  if byte = 0x07 then terminal
  else if byte = 0x08 ∨ byte = 0x7F then { terminal with x := ⟨terminal.x.val - 1, by omega⟩ }
  else if byte = 0x09 then
    let stop := nextTab terminal.x
    ⟨paper.modify terminal.sheet (blankBetween terminal.x.val stop.val), stop⟩
  else if byte = 0x0D then { terminal with x := 0 }
  else if byte = 0x0C then start paper
  else if byte = 0x0A then ⟨paper.newLine terminal.sheet, 0⟩
  else
    let sheet := paper.modify terminal.sheet fun line => Function.update line terminal.x byte
    if inside : terminal.x.val + 1 < 80 then ⟨sheet, ⟨terminal.x.val + 1, inside⟩⟩
    else ⟨paper.newLine sheet, 0⟩

end Terminal

inductive Control where
  | bell
  | back
  | tab
  | cr
  | ff
  | lf
  | writeable
  deriving DecidableEq, Repr

def Control.of (byte : UInt8) : Control :=
  if byte = ascii.bell then .bell
  else if byte = ascii.bs ∨ byte = ascii.del then .back
  else if byte = ascii.tab then .tab
  else if byte = ascii.cr then .cr
  else if byte = ascii.ff then .ff
  else if byte = ascii.lf then .lf
  else .writeable

namespace Terminal

variable {σ τ : Type}

/-- The terminal does for each arm of `put_char` what its byte says. -/
theorem put_control (paper : Paper σ) (terminal : Terminal σ) (byte : UInt8) :
    put paper terminal byte =
      match Control.of byte with
      | .bell => terminal
      | .back => { terminal with x := ⟨terminal.x.val - 1, by omega⟩ }
      | .tab =>
          ⟨paper.modify terminal.sheet
            (blankBetween terminal.x.val (nextTab terminal.x).val), nextTab terminal.x⟩
      | .cr => { terminal with x := 0 }
      | .ff => start paper
      | .lf => ⟨paper.newLine terminal.sheet, 0⟩
      | .writeable =>
          if inside : terminal.x.val + 1 < 80 then
            ⟨paper.modify terminal.sheet fun line => Function.update line terminal.x byte,
              ⟨terminal.x.val + 1, inside⟩⟩
          else
            ⟨paper.newLine
              (paper.modify terminal.sheet fun line => Function.update line terminal.x byte),
            0⟩ := by
  unfold put Control.of ascii.bell ascii.bs ascii.del ascii.tab ascii.cr ascii.ff ascii.lf
  split
  · rfl
  split
  · rfl
  split
  · rfl
  split
  · rfl
  split
  · rfl
  split
  · rfl
  · rfl

structure Related (R : σ → τ → Prop) (first : Terminal σ) (second : Terminal τ) : Prop where
  sheet : R first.sheet second.sheet
  x : first.x = second.x

section

variable {R : σ → τ → Prop} {paper : Paper σ} {other : Paper τ}
  (blank : R paper.blank other.blank)
  (modify : ∀ s t edit, R s t → R (paper.modify s edit) (other.modify t edit))
  (newLine : ∀ s t, R s t → R (paper.newLine s) (other.newLine t))

include blank modify newLine

theorem put_related {first : Terminal σ} {second : Terminal τ} (related : Related R first second)
    (byte : UInt8) : Related R (put paper first byte) (put other second byte) := by
  rcases first with ⟨sheet, x⟩
  rcases second with ⟨sheet', x'⟩
  rcases related with ⟨same, rfl⟩
  rw [put_control, put_control]
  cases Control.of byte with
  | bell => exact ⟨same, rfl⟩
  | back => exact ⟨same, rfl⟩
  | tab => exact ⟨modify _ _ _ same, rfl⟩
  | cr => exact ⟨same, rfl⟩
  | ff => exact ⟨blank, rfl⟩
  | lf => exact ⟨newLine _ _ same, rfl⟩
  | writeable =>
      have written := modify _ _ (fun line => Function.update line x byte) same
      by_cases inside : x.val + 1 < 80
      · simp only [dif_pos inside]
        exact ⟨written, rfl⟩
      · simp only [dif_neg inside]
        exact ⟨newLine _ _ written, rfl⟩

theorem puts_related {first : Terminal σ} {second : Terminal τ} (related : Related R first second)
    (bytes : List UInt8) :
    Related R (bytes.foldl (put paper) first) (bytes.foldl (put other) second) := by
  induction bytes generalizing first second with
  | nil => exact related
  | cons byte bytes ih => exact ih (put_related blank modify newLine related byte)

end

open Scrollback in
def screen : Paper (Window Line 30) where
  blank := ⟨fun _ => blankLine, 0⟩
  modify := Window.modify
  newLine := Window.newLine blankLine

open Scrollback in
/-- The reference: rows without end, none of them ever lost. -/
def scrollback : Paper (Tape Line) where
  blank := ⟨fun _ => blankLine, 0⟩
  modify := Tape.modify
  newLine := Tape.newLine

open Scrollback in
theorem screen_views_scrollback (bytes : List UInt8) :
    Related (Views blankLine) (bytes.foldl (put screen) (start screen))
      (bytes.foldl (put scrollback) (start scrollback)) :=
  puts_related (R := Views blankLine) (views_blank blankLine 0 rfl)
    (fun _ _ edit views => views.modify edit) (fun _ _ views => views.newLine)
    ⟨views_blank blankLine 0 rfl, rfl⟩ bytes

end Terminal

end Ease
