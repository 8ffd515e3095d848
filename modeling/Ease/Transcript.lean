import Ease.Commands
import Ease.CommandWords
import Ease.EditorHistory
import Ease.ShellTyping
import Ease.Sinks

/-! A session at the shell, with its commands: the screen holds the transcript of the
session, whatever editing led to the lines. -/

namespace Ease

open Scrollback
open Terminal (put screen start)

namespace Terminal

variable {page : Terminal (Window Line 30)}

structure AtFreshRow (page : Terminal (Window Line 30)) : Prop where
  x : page.x = 0
  current : page.sheet.current = blankLine
  below : page.sheet.BlankBelow blankLine

theorem start_fresh : AtFreshRow (start screen) := ⟨rfl, rfl, fun _ _ => rfl⟩

theorem newLine_fresh (below : page.sheet.BlankBelow blankLine) :
    AtFreshRow ⟨page.sheet.newLine blankLine, 0⟩ :=
  ⟨rfl, below.newLine.2, below.newLine.1⟩

theorem put_blankBelow (below : page.sheet.BlankBelow blankLine) (byte : UInt8) :
    (put screen page byte).sheet.BlankBelow blankLine := by
  rw [put_control]
  cases Control.of byte with
  | bell => exact below
  | back => exact below
  | tab => exact below.modify _
  | cr => exact below
  | ff => exact start_fresh.below
  | lf => exact (newLine_fresh below).below
  | writeable =>
      have written := below.modify fun line => Function.update line page.x byte
      by_cases inside : page.x.val + 1 < 80
      · simp only [dif_pos inside]
        exact written
      · simp only [dif_neg inside]
        exact written.newLine.1

theorem puts_blankBelow (below : page.sheet.BlankBelow blankLine) (bytes : List UInt8) :
    (bytes.foldl (put screen) page).sheet.BlankBelow blankLine := by
  induction bytes generalizing page with
  | nil => exact below
  | cons byte bytes ih => exact ih (put_blankBelow below byte)

def EndsRow (bytes : List UInt8) : Prop :=
  ∃ front last, bytes = front ++ [last] ∧ (last = ascii.lf ∨ last = ascii.ff)

theorem EndsRow.fresh {bytes : List UInt8} (ends : EndsRow bytes)
    (below : page.sheet.BlankBelow blankLine) : AtFreshRow (bytes.foldl (put screen) page) := by
  rcases ends with ⟨front, last, rfl, lf | ff⟩
  · rw [List.foldl_append, lf]
    exact newLine_fresh (puts_blankBelow below front)
  · rw [List.foldl_append, ff]
    exact start_fresh

theorem EndsRow.append {bytes : List UInt8} (ends : EndsRow bytes) (front : List UInt8) :
    EndsRow (front ++ bytes) := by
  rcases ends with ⟨middle, last, rfl, stop⟩
  exact ⟨front ++ middle, last, (List.append_assoc ..).symm, stop⟩

end Terminal

namespace Shell

section

variable {S : Type} [Surface S]

def printAll (font : Font) (tick : UInt32) (console : Console S) (statements : List Print) :
    Exec (Console S) :=
  ((statements.flatMap (Print.pieces tick)).map strBytes).foldlM (Console.writeStr font) console

/-- A key in the loops of `run`. A finished line is executed, and the prompt printed again;
the line is returned with the time at which its command may have asked for it. -/
def round (font : Font) (state : State S) (input : KeyEvent × UInt32) :
    Exec (State S × Option (String × UInt32)) := do
  let (event, tick) := input
  let (editor, line, action) ← state.editor.process event
  let console ← printAll font tick state.console (displayPrints action)
  match line with
  | none => .ok (⟨editor, console⟩, none)
  | some line => do
      let output ← execute line
      let console ← printAll font tick console (output ++ [.text [prompt]])
      .ok (⟨editor, console⟩, some (line, tick))

end

def outputBytes (line : String) (tick : UInt32) : List UInt8 :=
  match execute line with
  | .ok statements => statements.flatMap (Print.bytes tick)
  | .error _ => []

/-- What a line adds to the transcript: itself, what its command prints, and the prompt. -/
def exchange (line : String) (tick : UInt32) : List UInt8 :=
  strBytes line ++ ascii.lf :: outputBytes line tick ++ strBytes prompt

/-- A session as it would be printed on paper, where nothing can be taken back. -/
def transcript (boot : List UInt8) (exchanges : List (String × UInt32)) (current : List UInt8) :
    List UInt8 :=
  boot ++ strBytes prompt ++ exchanges.flatMap (fun entry => exchange entry.1 entry.2) ++ current

/-- The screen is that of the transcript, with the cursor where the editor has it in the
current line. -/
structure ShowsTranscript (state : State) (boot : List UInt8)
    (exchanges : List (String × UInt32)) : Prop where
  rows : state.console.buffer =
    ((transcript boot exchanges state.editor.line.contents).foldl (put screen)
      (start screen)).sheet.rows
  y : state.console.cursor.y =
    ((transcript boot exchanges state.editor.line.contents).foldl (put screen)
      (start screen)).sheet.y.val
  x : state.console.cursor.x = 6 + state.editor.cursor

section Prints

variable {tick : UInt32}

theorem flatMap_bytes (tick : UInt32) (statements : List Print) :
    ((statements.flatMap (Print.pieces tick)).map strBytes).flatten =
      statements.flatMap (Print.bytes tick) := by
  induction statements with
  | nil => rfl
  | cons statement statements ih =>
      rw [List.flatMap_cons, List.map_append, List.flatten_append, ih, List.flatMap_cons]
      rfl

theorem printAll_follows (font : Font) (tick : UInt32) {console : Console} {page : Console.Page}
    (displays : console.Displays page) (statements : List Print) :
    ∃ after, printAll font tick console statements = .ok after ∧
      after.Displays ((statements.flatMap (Print.bytes tick)).foldl (put screen) page) := by
  rcases Console.writeStrs_follow font displays
    ((statements.flatMap (Print.pieces tick)).map strBytes) with ⟨after, printed, so⟩
  refine ⟨after, printed, ?_⟩
  rw [← flatMap_bytes, List.foldl_flatten]
  exact so.displays

theorem println_endsRow (pieces : List String) :
    Terminal.EndsRow ((println pieces).bytes tick) := by
  have lf : strBytes "\n" = [ascii.lf] := by decide
  refine ⟨(pieces.map strBytes).flatten, ascii.lf, ?_, .inl rfl⟩
  rw [println, Print.bytes, Print.pieces, List.map_append, List.flatten_append, List.map_singleton,
    lf, List.flatten_singleton]

theorem time_endsRow : Terminal.EndsRow (Print.time.bytes tick) := by
  have lf : strBytes "\n" = [ascii.lf] := by decide
  refine ⟨strBytes tick.toNat.repr ++ strBytes " [ms]", ascii.lf, ?_, .inl rfl⟩
  simp [Print.bytes, Print.pieces, lf]

theorem ff_endsRow : Terminal.EndsRow ((Print.text [charStr ascii.ff]).bytes tick) := by
  have ff : strBytes (charStr ascii.ff) = [ascii.ff] := charStr_ascii (by decide)
  refine ⟨[], ascii.ff, ?_, .inr rfl⟩
  simp [Print.bytes, Print.pieces, ff]

theorem dispatch_endsRow (cmd args : String) :
    ∀ statement ∈ dispatch cmd args, Terminal.EndsRow (statement.bytes tick) := by
  intro statement member
  unfold dispatch at member
  split at member
  · simp only [Commands.help, List.mem_cons, List.not_mem_nil, or_false] at member
    rcases member with rfl | rfl | rfl | rfl | rfl
    all_goals exact println_endsRow _
  · split at member
    · rw [List.mem_singleton.mp member]
      exact ff_endsRow
    · split at member
      · rw [List.mem_singleton.mp member]
        exact println_endsRow _
      · split at member
        · rw [List.mem_singleton.mp member]
          exact time_endsRow
        · rw [List.mem_singleton.mp member]
          exact println_endsRow _

theorem endsRow_flatMap {statements : List Print}
    (ends : ∀ statement ∈ statements, Terminal.EndsRow (statement.bytes tick)) (line : List UInt8) :
    Terminal.EndsRow (line ++ ascii.lf :: statements.flatMap (Print.bytes tick)) := by
  rcases List.eq_nil_or_concat statements with rfl | ⟨front, last, rfl⟩
  · exact ⟨line, ascii.lf, rfl, .inl rfl⟩
  · rw [List.concat_eq_append] at ends ⊢
    have final := (ends last (List.mem_append_right front List.mem_cons_self)).append
      (line ++ ascii.lf :: front.flatMap (Print.bytes tick))
    rw [List.flatMap_append, List.flatMap_singleton]
    rwa [List.append_assoc, List.cons_append] at final

theorem execute_endsRow (line : String) :
    ∃ output, execute line = .ok output ∧
      ∀ statement ∈ output, Terminal.EndsRow (statement.bytes tick) := by
  rcases parseCommand_completes line with ⟨parsed, complete⟩
  cases parsed with
  | none => exact ⟨[], by rw [execute, complete, Exec.ok_bind], nofun⟩
  | some words => exact ⟨_, execute_of_parse complete, dispatch_endsRow words.1 words.2⟩

end Prints

section Rows

variable {shown : List UInt8} {s t : Session} {page : Console.Page}

/-- The paper so far ends in a prompt on a fresh row; the screen has the line after it. -/
structure OnTranscript (shown : List UInt8) (s : Session) (page : Console.Page) : Prop where
  prompted : Terminal.OnRow (shown.foldl (put screen) (start screen)).sheet.rows
    (shown.foldl (put screen) (start screen)).sheet.y promptBytes 6
    (shown.foldl (put screen) (start screen))
  below : (shown.foldl (put screen) (start screen)).sheet.BlankBelow blankLine
  line : s.OnRow (shown.foldl (put screen) (start screen)).sheet.rows
    (shown.foldl (put screen) (start screen)).sheet.y page

theorem prompt_row (fresh : Terminal.AtFreshRow page) :
    Terminal.OnRow (promptBytes.foldl (put screen) page).sheet.rows
      (promptBytes.foldl (put screen) page).sheet.y promptBytes 6
      (promptBytes.foldl (put screen) page) := by
  have nothing : Terminal.OnRow page.sheet.rows page.sheet.y [] 0 page :=
    ⟨rfl, congrArg Fin.val fresh.x, fresh.current, fun _ _ => rfl⟩
  have blanks : [] ++ List.replicate 6 0x20 = [] ++ List.replicate 6 (0x20 : UInt8) ++ [] := rfl
  have covers : (List.replicate 6 (0x20 : UInt8)).length = promptBytes.length := rfl
  have written := (nothing.pad 6).put_over blanks rfl covers prompt_writeable (by decide)
  exact ⟨rfl, written.column, written.shown, fun _ _ => rfl⟩

theorem OnTranscript.sheet_eq (on : OnTranscript shown s page) (bytes : s.BytesIn Printable)
    (short : s.text.contents.length ≤ 73) :
    page.sheet = ((shown ++ s.text.contents).foldl (put screen) (start screen)).sheet := by
  have written := (on.prompted.pad s.text.contents.length).put_over
    (List.append_nil _).symm rfl List.length_replicate
    (Session.BytesIn.writeable bytes.text) (by omega)
  rw [List.append_nil] at written
  rw [List.foldl_append]
  exact on.line.sheet_eq written

theorem OnTranscript.edit {event : KeyEvent} {result : KeyResult} (on : OnTranscript shown s page)
    (acts : s.Acts event t result) (typed : TypesText event) (other : event ≠ .special .enter)
    (bytes : s.BytesIn Printable) (short : s.text.contents.length ≤ 73)
    (shortAfter : t.text.contents.length ≤ 73)
    (blanks : ∀ n, (result.2 = .clearLine n ∨ ∃ line, result.2 = .redrawLine line n) →
      n = s.text.contents.length) :
    OnTranscript shown t ((displayBytes result.2).foldl (put screen) page) :=
  ⟨on.prompted, on.below, acts.onRow typed other bytes short shortAfter blanks on.line⟩

/-- What was printed before, the line as typed, its output and the next prompt. -/
theorem OnTranscript.submit {line : String} (on : OnTranscript shown s page)
    (bytes : s.BytesIn Printable) (short : s.text.contents.length ≤ 73)
    (whole : strBytes line = s.text.contents) (cleared : t.text = .atEnd []) (tick : UInt32) :
    OnTranscript (shown ++ exchange line tick) t
      ((ascii.lf :: outputBytes line tick ++ strBytes prompt).foldl (put screen) page) := by
  obtain ⟨output, executed, ends⟩ := @execute_endsRow tick line
  have printed : outputBytes line tick = output.flatMap (Print.bytes tick) := by
    rw [outputBytes, executed]
  have finished := endsRow_flatMap ends []
  rw [List.nil_append, ← printed] at finished
  have same : (ascii.lf :: outputBytes line tick).foldl (put screen) page =
      (ascii.lf :: outputBytes line tick).foldl (put screen)
        ((shown ++ s.text.contents).foldl (put screen) (start screen)) := by
    have fed : put screen page ascii.lf = put screen
        ((shown ++ s.text.contents).foldl (put screen) (start screen)) ascii.lf :=
      congrArg (fun sheet => Terminal.mk (Window.newLine blankLine sheet) 0)
        (on.sheet_eq bytes short)
    rw [List.foldl_cons, fed]
    rfl
  have fresh : Terminal.AtFreshRow
      ((ascii.lf :: outputBytes line tick).foldl (put screen) page) := by
    rw [same]
    exact finished.fresh (Terminal.puts_blankBelow Terminal.start_fresh.below _)
  have paper : (shown ++ exchange line tick).foldl (put screen) (start screen) =
      promptBytes.foldl (put screen)
        ((ascii.lf :: outputBytes line tick).foldl (put screen) page) := by
    rw [same, exchange, whole, strBytes_prompt, ← List.foldl_append, ← List.foldl_append]
    simp only [List.append_assoc, List.cons_append]
  have row := prompt_row fresh
  rw [List.foldl_append, strBytes_prompt, ← paper]
  rw [← paper] at row
  refine ⟨row, ?_, ?_⟩
  · rw [paper]
    exact Terminal.puts_blankBelow fresh.below promptBytes
  · rw [Session.OnRow, cleared]
    exact row

end Rows

/-- What a run has to avoid: lines that reach the end of the row, and ArrowUp away from a
recalled row that was edited to another length. -/
def Calm (events : List KeyEvent) : Prop :=
  ∀ before event after result, Runs.Occurs LineEditor.process .new events
      before event after result →
    after.line.len ≤ 73 ∧ RecalledLengthKept before event

theorem Calm.front {front back : List KeyEvent} (calm : Calm (front ++ back)) : Calm front := by
  intro before event after result occurs
  apply calm before event after result
  rcases occurs with ⟨⟨first, rest, outputs, split, reached⟩, stepped⟩
  exact ⟨⟨first, rest ++ back, outputs, by rw [split]; simp, reached⟩, stepped⟩

theorem Calm.short {events : List KeyEvent} {ed : LineEditor} {outputs : List KeyResult}
    (calm : Calm events)
    (reached : Runs.run LineEditor.process .new events = .ok (ed, outputs)) : ed.line.len ≤ 73 := by
  rcases List.eq_nil_or_concat events with rfl | ⟨front, last, rfl⟩
  · cases reached
    exact Nat.zero_le 73
  · rw [List.concat_eq_append] at reached calm
    rcases (Runs.run_snoc_eq_ok _).mp reached with ⟨before, first, result, start, stepped, _⟩
    exact (calm before last ed result ⟨⟨front, [], first, rfl, start⟩, stepped⟩).1

section Rounds

variable {ed after : LineEditor} {console : Console} {page : Console.Page} {event : KeyEvent}
  {action : LineDisplayAction}

theorem displayPrints_bytes (tick : UInt32) (action : LineDisplayAction) :
    (displayPrints action).flatMap (Print.bytes tick) = displayBytes action := by
  rw [← flatMap_bytes, displayPrints_pieces]
  rfl

theorem round_edits (font : Font) (displays : console.Displays page) (tick : UInt32)
    (stepped : ed.process event = .ok (after, none, action)) :
    ∃ last, round font ⟨ed, console⟩ (event, tick) = .ok (⟨after, last⟩, none) ∧
      last.Displays ((displayBytes action).foldl (put screen) page) := by
  rcases printAll_follows font tick displays (displayPrints action) with ⟨last, printed, shown⟩
  refine ⟨last, ?_, ?_⟩
  · rw [round]
    dsimp only
    rw [stepped, Exec.ok_bind]
    dsimp only
    rw [printed, Exec.ok_bind]
  · rwa [displayPrints_bytes] at shown

theorem round_finishes (font : Font) (displays : console.Displays page) (tick : UInt32)
    {line : String} (stepped : ed.process event = .ok (after, some line, action)) :
    ∃ last, round font ⟨ed, console⟩ (event, tick) = .ok (⟨after, last⟩, some (line, tick)) ∧
      last.Displays ((displayBytes action ++ outputBytes line tick ++ strBytes prompt).foldl
        (put screen) page) := by
  obtain ⟨output, executed, _⟩ := @execute_endsRow tick line
  have printed : outputBytes line tick = output.flatMap (Print.bytes tick) := by
    rw [outputBytes, executed]
  have prompted : (Print.text [prompt]).bytes tick = strBytes prompt := List.append_nil _
  rcases printAll_follows font tick displays (displayPrints action) with ⟨middle, first, shown⟩
  rcases printAll_follows font tick shown (output ++ [.text [prompt]]) with ⟨last, second, ends⟩
  refine ⟨last, ?_, ?_⟩
  · rw [round]
    dsimp only
    rw [stepped, Exec.ok_bind]
    dsimp only
    rw [first, Exec.ok_bind, executed, Exec.ok_bind, second, Exec.ok_bind]
  · rw [displayPrints_bytes, List.flatMap_append, List.flatMap_singleton, ← printed, prompted,
      ← List.foldl_append] at ends
    rwa [List.append_assoc]

structure Follows (font : Font) (console : Console) (shown : List UInt8)
    (inputs : List (KeyEvent × UInt32)) (state : State)
    (results : List (Option (String × UInt32))) (s : Session) (page : Console.Page) : Prop where
  ran : Runs.run (round font) ⟨.new, console⟩ inputs = .ok (state, results)
  edited : ∃ outputs,
    Runs.run LineEditor.process .new (inputs.map Prod.fst) = .ok (state.editor, outputs)
  shows : Shows state.editor s
  bytes : s.BytesIn Printable
  displays : state.console.Displays page
  paper : OnTranscript
    (shown ++ (results.filterMap id).flatMap fun entry => exchange entry.1 entry.2) s page

theorem acts_line_none {s t : Session} {result : KeyResult} (acts : s.Acts event t result)
    (other : event ≠ .special .enter) : result.1 = none := by
  cases acts with
  | submitted => exact absurd rfl other
  | _ => rfl

variable {font : Font} {shown : List UInt8} {inputs : List (KeyEvent × UInt32)} {state : State}
  {results : List (Option (String × UInt32))} {s : Session}

theorem Follows.edited_snoc (follows : Follows font console shown inputs state results s page)
    {result : KeyResult} (stepped : state.editor.process event = .ok (after, result))
    (tick : UInt32) :
    ∃ outputs, Runs.run LineEditor.process .new ((inputs ++ [(event, tick)]).map Prod.fst) =
        .ok (after, outputs) ∧
      Runs.Occurs LineEditor.process .new ((inputs ++ [(event, tick)]).map Prod.fst) state.editor
        event after result := by
  rcases follows.edited with ⟨outputs, reached⟩
  rw [List.map_append]
  refine ⟨outputs ++ [result], ?_, ⟨inputs.map Prod.fst, [], outputs, rfl, reached⟩, stepped⟩
  exact (Runs.run_snoc_eq_ok _).mpr ⟨state.editor, outputs, result, reached, stepped, rfl⟩

theorem Follows.round (follows : Follows font console shown inputs state results s page)
    {tick : UInt32} (typed : TypesText event)
    (calm : Calm ((inputs ++ [(event, tick)]).map Prod.fst)) :
    ∃ last line t next,
      Follows font console shown (inputs ++ [(event, tick)]) last (results ++ [line]) t next := by
  rcases follows.bytes.completes follows.shows typed with ⟨⟨after, result⟩, stepped⟩
  rcases process_acts follows.shows stepped with ⟨t, acts, shows⟩
  rcases follows.edited_snoc stepped tick with ⟨outputs, edited, occurs⟩
  rcases follows.edited with ⟨earlier, reached⟩
  have step := calm _ _ _ _ occurs
  have short : s.text.contents.length ≤ 73 := by
    rw [List.map_append] at calm
    rw [← follows.shows.line.len_eq]
    exact calm.front.short reached
  have shortAfter : t.text.contents.length ≤ 73 := by
    rw [← shows.line.len_eq]
    exact step.1
  have bytes := acts.bytesIn typed follows.bytes
  by_cases enter : event = .special .enter
  · subst enter
    cases acts with
    | submitted row whole t text saved browse history =>
        rcases round_finishes font follows.displays tick stepped with ⟨last, ran, displays⟩
        have lf : displayBytes .enter = [ascii.lf] := by decide
        rw [lf] at displays
        refine ⟨_, _, t, _, (Runs.run_snoc_eq_ok _).mpr ⟨_, _, _, follows.ran, ran, rfl⟩,
          ⟨_, edited⟩, shows, bytes, displays, ?_⟩
        have paper := follows.paper.submit follows.bytes short whole text tick
        rw [List.filterMap_append, List.flatMap_append, ← List.append_assoc]
        simpa using paper
  · rcases result with ⟨line, action⟩
    obtain rfl : line = none := acts_line_none acts enter
    rcases round_edits font follows.displays tick stepped with ⟨last, ran, displays⟩
    have blanks := (process_blanks_iff reached stepped).mpr step.2
    rw [BlanksOldLine, follows.shows.line.len_eq] at blanks
    have paper := follows.paper.edit acts typed enter follows.bytes short shortAfter (by
      intro n blanked
      apply blanks n
      rcases blanked with clear | ⟨line, redraw⟩
      · rw [clear]
        rfl
      · rw [redraw]
        rfl)
    refine ⟨_, _, t, _, (Runs.run_snoc_eq_ok _).mpr ⟨_, _, _, follows.ran, ran, rfl⟩,
      ⟨_, edited⟩, shows, bytes, displays, ?_⟩
    rw [List.filterMap_append]
    simpa using paper

theorem rounds_follow (font : Font) (displays : console.Displays page)
    (prompted : OnTranscript shown .new page) (typed : ∀ input ∈ inputs, TypesText input.1)
    (calm : Calm (inputs.map Prod.fst)) :
    ∃ state results s next, Follows font console shown inputs state results s next := by
  induction inputs using List.reverseRecOn with
  | nil =>
      exact ⟨_, [], .new, page, rfl, ⟨[], rfl⟩, new_shows, ⟨by simp [Session.new],
        by simp [Session.new], by simp [Session.new]⟩, displays, by simpa using prompted⟩
  | append_singleton inputs input ih =>
      have front : Calm (inputs.map Prod.fst) := by
        rw [List.map_append] at calm
        exact calm.front
      rcases ih (fun other member => typed other (List.mem_append_left _ member)) front with
        ⟨state, results, s, next, follows⟩
      rcases follows.round (typed input (by simp)) calm with ⟨last, line, t, final, more⟩
      exact ⟨last, _, t, final, more⟩

end Rounds

theorem boot_fresh {boot : List UInt8} (ended : ∀ last ∈ boot.getLast?, last = ascii.lf) :
    Terminal.AtFreshRow (boot.foldl (put screen) (start screen)) := by
  rcases List.eq_nil_or_concat boot with rfl | ⟨front, last, rfl⟩
  · exact Terminal.start_fresh
  · rw [List.concat_eq_append] at ended ⊢
    have lf := ended last (by simp)
    exact Terminal.EndsRow.fresh ⟨front, last, rfl, .inl lf⟩ Terminal.start_fresh.below

theorem onTranscript_boot {boot : List UInt8} (ended : ∀ last ∈ boot.getLast?, last = ascii.lf) :
    OnTranscript (boot ++ strBytes prompt) .new
      ((boot ++ strBytes prompt).foldl (put screen) (start screen)) := by
  have fresh := boot_fresh ended
  have row := prompt_row fresh
  have empty : Session.new.text = .atEnd [] := rfl
  rw [← List.foldl_append] at row
  rw [strBytes_prompt]
  refine ⟨row, Terminal.puts_blankBelow Terminal.start_fresh.below _, ?_⟩
  rw [Session.OnRow, empty]
  exact row

theorem boot_displays (font : Font) (attached : Option FrameBuffer) (boot : List UInt8) :
    ∃ console,
      [boot, strBytes prompt].foldlM (Console.writeStr font) { Console.new with fb := attached } =
        .ok console ∧
      console.Displays ((boot ++ strBytes prompt).foldl (put screen) (start screen)) := by
  have blank : Console.Displays { Console.new with fb := attached } (start screen) :=
    ⟨rfl, rfl, rfl⟩
  rcases Console.writeStrs_follow font blank [boot, strBytes prompt] with ⟨console, booted, so⟩
  have displays := so.displays
  rw [List.foldl_cons, List.foldl_cons, List.foldl_nil, ← List.foldl_append] at displays
  exact ⟨console, booted, displays⟩

theorem Follows.showsTranscript {font : Font} {console : Console} {boot : List UInt8}
    {inputs : List (KeyEvent × UInt32)} {state : State}
    {results : List (Option (String × UInt32))} {s : Session} {page : Console.Page}
    (follows : Follows font console (boot ++ strBytes prompt) inputs state results s page)
    (calm : Calm (inputs.map Prod.fst)) : ShowsTranscript state boot (results.filterMap id) := by
  rcases follows.edited with ⟨outputs, reached⟩
  have short := calm.short reached
  rw [follows.shows.line.len_eq] at short
  have sheet := follows.paper.sheet_eq follows.bytes short
  rw [← follows.shows.line.contents_eq] at sheet
  have column := follows.paper.line.column
  rw [← follows.shows.cursor] at column
  refine ⟨?_, ?_, ?_⟩
  · rw [follows.displays.rows, sheet]
    rfl
  · rw [follows.displays.y, sheet]
    rfl
  · rw [follows.displays.x, column]

/-- However the lines of a session were edited, the screen is that of its transcript. -/
theorem screen_shows_transcript (font : Font) (attached : Option FrameBuffer) (boot : List UInt8)
    (ended : ∀ last ∈ boot.getLast?, last = ascii.lf) (inputs : List (KeyEvent × UInt32))
    (typed : ∀ input ∈ inputs, TypesText input.1) (calm : Calm (inputs.map Prod.fst)) :
    ∃ console state results,
      [boot, strBytes prompt].foldlM (Console.writeStr font) { Console.new with fb := attached } =
        .ok console ∧
      Runs.run (round font) ⟨.new, console⟩ inputs = .ok (state, results) ∧
      ShowsTranscript state boot (results.filterMap id) := by
  rcases boot_displays font attached boot with ⟨console, booted, displays⟩
  obtain ⟨state, results, s, page, follows⟩ :=
    rounds_follow font displays (onTranscript_boot ended) typed calm
  exact ⟨console, state, results, booted, follows.ran, follows.showsTranscript calm⟩

theorem hello_ends :
    ∀ last ∈ (strBytes "Hello from EASE!\n").getLast?, last = ascii.lf := by
  have final : (strBytes "Hello from EASE!\n").getLast? = some ascii.lf := by decide
  intro last member
  rw [final] at member
  exact (Option.some.inj member).symm

theorem recall_calm : Calm [.byte 0x78, .special .enter, .special .arrowUp] := by
  intro before event after result occurs
  rcases occurs with ⟨⟨front, back, outputs, split, reached⟩, stepped⟩
  rcases front with _ | ⟨first, _ | ⟨second, _ | ⟨third, front⟩⟩⟩
  · cases split
    cases reached
    cases stepped
    exact ⟨by decide, nofun⟩
  · cases split
    cases reached
    cases stepped
    exact ⟨by decide, nofun⟩
  · cases split
    cases reached
    cases stepped
    exact ⟨by decide, fun _ i shown => nomatch shown⟩
  · simp at split

theorem screen_shows_recalled_command :
    ∃ console state results,
      [strBytes "Hello from EASE!\n", strBytes prompt].foldlM (Console.writeStr ⟨fun _ => 0⟩)
        { Console.new with fb := none } = .ok console ∧
      Runs.run (round ⟨fun _ => 0⟩) ⟨.new, console⟩
        [(.byte 0x78, 5), (.special .enter, 6), (.special .arrowUp, 7)] = .ok (state, results) ∧
      ShowsTranscript state (strBytes "Hello from EASE!\n") (results.filterMap id) := by
  apply screen_shows_transcript
  · exact hello_ends
  · simp [TypesText, Printable]
  · exact recall_calm

end Shell

end Ease
