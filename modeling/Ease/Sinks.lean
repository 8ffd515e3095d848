import Ease.Commands
import Ease.ConsoleScreen

/-! The two sinks of `print!`. Each gets an evaluation of the format of its own, and a
timer interrupt may come between the two. -/

namespace Ease

theorem append_separator_inj {α : Type} {separator : α} {first second back rest : List α}
    (notFirst : separator ∉ first) (notSecond : separator ∉ second)
    (same : first ++ separator :: back = second ++ separator :: rest) : first = second := by
  induction first generalizing second with
  | nil =>
      cases second with
      | nil => rfl
      | cons head second =>
          simp only [List.nil_append, List.cons_append, List.cons.injEq] at same
          exact absurd (same.1 ▸ List.mem_cons_self) notSecond
  | cons head first ih =>
      cases second with
      | nil =>
          simp only [List.nil_append, List.cons_append, List.cons.injEq] at same
          exact absurd (same.1 ▸ List.mem_cons_self) notFirst
      | cons other second =>
          simp only [List.cons_append, List.cons.injEq] at same
          rw [same.1, ih (List.not_mem_of_not_mem_cons notFirst)
            (List.not_mem_of_not_mem_cons notSecond) same.2]

theorem strBytes_ofList (text : List Char) :
    strBytes (String.ofList text) = text.flatMap String.utf8EncodeChar := by
  rw [strBytes, String.toByteArray_ofList, List.utf8Encode, List.data_toByteArray]

theorem repr_injective {first second : Nat} (same : first.repr = second.repr) : first = second := by
  have digits : Nat.toDigits 10 first = Nat.toDigits 10 second := by
    simpa only [Nat.repr, String.ofList_inj] using same
  rw [← @Nat.ofDigitChars_ten_toDigits first, digits, Nat.ofDigitChars_ten_toDigits]

theorem space_not_in_repr (n : Nat) : (0x20 : UInt8) ∉ strBytes n.repr := by
  rw [Nat.repr, strBytes_ofList, List.mem_flatMap]
  intro found
  rcases found with ⟨digit, member, space⟩
  have isDigit := Nat.isDigit_of_mem_toDigits (by decide) (by decide) member
  simp only [Char.isDigit, Bool.and_eq_true, decide_eq_true_eq, ge_iff_le,
    UInt32.le_iff_toNat_le] at isDigit
  have low : 48 ≤ digit.val.toNat := isDigit.1
  have high : digit.val.toNat ≤ 57 := isDigit.2
  have size : digit.utf8Size = 1 := by
    rw [Char.utf8Size_eq_one_iff, UInt32.le_iff_toNat_le]
    exact high.trans (by decide)
  rw [String.utf8EncodeChar_eq_singleton size, List.mem_singleton, ← UInt8.toNat_inj,
    UInt32.toNat_toUInt8] at space
  have value : (0x20 : UInt8).toNat = 32 := rfl
  omega

namespace Shell

/-- What the serial line and the console were sent, the console itself, and the number
of formats evaluated so far. -/
structure Output where
  uart : List UInt8
  putChars : List UInt8
  console : Console
  evaluations : Nat

namespace Output

def start (console : Console) : Output := ⟨[], [], console, 0⟩

/-- `print!`. `ticks` gives what `ticks_ms` returns at each evaluation; the strings go to
`write_str`, which puts their bytes one by one. -/
def print (font : Font) (ticks : Nat → UInt32) (output : Output) (statement : Print) :
    Exec Output := do
  let pieces := (statement.pieces (ticks output.evaluations)).map strBytes
  let output := { output with
    uart := output.uart ++ pieces.flatten
    evaluations := output.evaluations + 1 }
  let pieces := (statement.pieces (ticks output.evaluations)).map strBytes
  let console ← pieces.foldlM (Console.writeStr font) output.console
  .ok { output with
    putChars := output.putChars ++ pieces.flatten
    console
    evaluations := output.evaluations + 1 }

end Output

def Print.bytes (tick : UInt32) (statement : Print) : List UInt8 :=
  ((statement.pieces tick).map strBytes).flatten

def sinkBytes (ticks : Nat → UInt32) : Nat → List Print → List UInt8
  | _, [] => []
  | first, statement :: statements =>
      statement.bytes (ticks first) ++ sinkBytes ticks (first + 2) statements

theorem Print.bytes_time_injective {first second : UInt32} {back rest : List UInt8}
    (same : Print.time.bytes first ++ back = Print.time.bytes second ++ rest) : first = second := by
  have unit : strBytes " [ms]" = 0x20 :: strBytes "[ms]" := by decide
  simp only [bytes, pieces, List.map_cons, List.map_nil, List.flatten_cons, List.flatten_nil, unit,
    List.append_nil, List.append_assoc, List.cons_append] at same
  have digits := append_separator_inj (space_not_in_repr _) (space_not_in_repr _) same
  exact UInt32.toNat_inj.mp (repr_injective (strBytes_injective digits))

/-- The sinks agree exactly when every `time` sees one time. -/
theorem sinkBytes_eq_iff (ticks : Nat → UInt32) (first : Nat) (statements : List Print) :
    sinkBytes ticks first statements = sinkBytes ticks (first + 1) statements ↔
      ∀ k, statements[k]? = some .time → ticks (first + 2 * k) = ticks (first + 2 * k + 1) := by
  induction statements generalizing first with
  | nil => simp [sinkBytes]
  | cons statement statements ih =>
      have later : (∀ k, statements[k]? = some .time →
          ticks (first + 2 + 2 * k) = ticks (first + 2 + 2 * k + 1)) ↔
          ∀ k, (statement :: statements)[k + 1]? = some .time →
            ticks (first + 2 * (k + 1)) = ticks (first + 2 * (k + 1) + 1) := by
        have shift : ∀ k, first + 2 + 2 * k = first + 2 * (k + 1) := by
          intro k
          omega
        simp only [shift, List.getElem?_cons_succ]
      have split : (∀ k, (statement :: statements)[k]? = some .time →
          ticks (first + 2 * k) = ticks (first + 2 * k + 1)) ↔
          (statement = .time → ticks first = ticks (first + 1)) ∧
            ∀ k, statements[k]? = some .time →
              ticks (first + 2 + 2 * k) = ticks (first + 2 + 2 * k + 1) := by
        rw [later, ← Nat.and_forall_add_one, List.getElem?_cons_zero, Option.some.injEq,
          Nat.mul_zero, Nat.add_zero]
      rw [split, ← ih (first + 2)]
      change statement.bytes (ticks first) ++ sinkBytes ticks (first + 2) statements =
        statement.bytes (ticks (first + 1)) ++ sinkBytes ticks (first + 2 + 1) statements ↔ _
      cases statement with
      | text pieces =>
          rw [show (Print.text pieces).bytes (ticks first) =
            (Print.text pieces).bytes (ticks (first + 1)) from rfl, List.append_cancel_left_eq]
          exact ⟨fun same => ⟨nofun, same⟩, fun both => both.2⟩
      | time =>
          constructor
          · intro same
            have one := Print.bytes_time_injective same
            rw [one] at same
            exact ⟨fun _ => one, List.append_cancel_left same⟩
          · intro both
            rw [both.1 rfl, both.2]

theorem print_ok (font : Font) (ticks : Nat → UInt32) {output : Output} {page : Console.Page}
    (displays : output.console.Displays page) (statement : Print) :
    ∃ after page', output.print font ticks statement = .ok after ∧
      after.console.Displays page' ∧
      after.uart = output.uart ++ statement.bytes (ticks output.evaluations) ∧
      after.putChars = output.putChars ++ statement.bytes (ticks (output.evaluations + 1)) ∧
      after.evaluations = output.evaluations + 2 := by
  obtain ⟨console, written, follows⟩ := Console.writeStrs_follow font displays
    ((statement.pieces (ticks (output.evaluations + 1))).map strBytes)
  exact ⟨⟨output.uart ++ statement.bytes (ticks output.evaluations),
    output.putChars ++ statement.bytes (ticks (output.evaluations + 1)), console,
    output.evaluations + 2⟩, _, by rw [Output.print]; simp only [written, Exec.ok_bind]; rfl,
    follows.displays, rfl, rfl, rfl⟩

theorem prints_ok (font : Font) (ticks : Nat → UInt32) {output : Output} {page : Console.Page}
    (displays : output.console.Displays page) (statements : List Print) :
    ∃ last, statements.foldlM (Output.print font ticks) output = .ok last ∧
      last.uart = output.uart ++ sinkBytes ticks output.evaluations statements ∧
      last.putChars = output.putChars ++ sinkBytes ticks (output.evaluations + 1) statements := by
  induction statements generalizing output page with
  | nil => exact ⟨output, rfl, by simp [sinkBytes], by simp [sinkBytes]⟩
  | cons statement statements ih =>
      obtain ⟨next, _, printed, shown, uart, putChars, evaluations⟩ :=
        print_ok font ticks displays statement
      rcases ih shown with ⟨last, finished, uartLast, putCharsLast⟩
      refine ⟨last, by rw [List.foldlM_cons, printed, Exec.ok_bind, finished], ?_, ?_⟩
      · calc last.uart
            = output.uart ++ statement.bytes (ticks output.evaluations) ++
                sinkBytes ticks (output.evaluations + 2) statements := by
              rw [uartLast, uart, evaluations]
          _ = output.uart ++ sinkBytes ticks output.evaluations (statement :: statements) :=
              List.append_assoc ..
      · calc last.putChars
            = output.putChars ++ statement.bytes (ticks (output.evaluations + 1)) ++
                sinkBytes ticks (output.evaluations + 2 + 1) statements := by
              rw [putCharsLast, putChars, evaluations]
          _ = output.putChars ++
                sinkBytes ticks (output.evaluations + 1) (statement :: statements) :=
              List.append_assoc ..

/-- The bytes sent to the serial line and those put on the console, over a run of the
shell: any keys, and any clock. -/
theorem sinks_agree_iff (font : Font) (attached : Option FrameBuffer) (info : Fault → String)
    (events : List KeyEvent) (ticks : Nat → UInt32) :
    ∃ last,
      (run info events).foldlM (Output.print font ticks)
          (Output.start { Console.new with fb := attached }) = .ok last ∧
        (last.uart = last.putChars ↔ ∀ k, (run info events)[k]? = some .time →
          ticks (2 * k) = ticks (2 * k + 1)) := by
  have displays : Console.Displays { Console.new with fb := attached }
      (Terminal.start Terminal.screen) := ⟨rfl, rfl, rfl⟩
  obtain ⟨last, finished, uart, putChars⟩ := prints_ok font ticks
    (show (Output.start { Console.new with fb := attached }).console.Displays _ from displays)
    (run info events)
  refine ⟨last, finished, ?_⟩
  have agree := sinkBytes_eq_iff ticks 0 (run info events)
  simp only [Nat.zero_add] at agree
  rw [uart, putChars]
  exact agree

def timeKeys : List KeyEvent :=
  [.byte 0x74, .byte 0x69, .byte 0x6D, .byte 0x65, .special .enter]

theorem timeKeys_prints (info : Fault → String) : (run info timeKeys)[6]? = some .time := rfl

/-- A tick between the two evaluations that the command makes: the sinks get different
numbers. -/
theorem time_differs_between_sinks :
    ∃ last,
      (run (fun _ => "") timeKeys).foldlM
          (Output.print ⟨fun _ => 0⟩ fun evaluation => if evaluation < 13 then 0 else 1)
          (Output.start Console.new) = .ok last ∧
        last.uart ≠ last.putChars := by
  have displays : Console.Displays (Output.start Console.new).console
      (Terminal.start Terminal.screen) := ⟨rfl, rfl, rfl⟩
  obtain ⟨last, finished, uart, putChars⟩ := prints_ok ⟨fun _ => 0⟩
    (fun evaluation => if evaluation < 13 then 0 else 1) displays (run (fun _ => "") timeKeys)
  refine ⟨last, finished, ?_⟩
  intro same
  rw [uart, putChars] at same
  have equal := (sinkBytes_eq_iff _ 0 _).mp (List.append_cancel_left same) 6
    (timeKeys_prints _)
  exact absurd equal (by decide)

end Shell

end Ease
