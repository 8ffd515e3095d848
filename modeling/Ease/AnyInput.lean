import Ease.EditorInvariant
import Ease.KeyChunks
import Ease.ShellSerial

/-! The shell on whatever the serial line brings: text, broken sequences and bytes of no
key at all, at any time. What it does with them, and what can stop it. -/

namespace Ease.Shell

/-- Between two iterations, when nothing but ASCII came or is to come. -/
structure Alive (sevenBit : Prop) (reader : List Reading) (state : State) : Prop where
  input : sevenBit → ∀ byte ∈ bytesOf reader, byte < 0x80
  session : ∃ s, Shows state.editor s ∧ (sevenBit → s.BytesIn fun ch => ch < 0x80)
  console : ∃ page, state.console.Displays page

section

variable {sevenBit : Prop} {reader rest used : List Reading} {state : State} {key : KeyEvent}
  {fault : Fault}

theorem poll_cases (reader : List Reading) :
    (∃ used rest event, reader = used ++ rest ∧
      (KeyboardInput.new reader).poll = .ok (KeyboardInput.new rest, event) ∧
      ∀ ch, event = some (.byte ch) → ch ∈ bytesOf used) ∨
    ∃ fault, (KeyboardInput.new reader).poll = .error fault := by
  cases reader with
  | nil => exact .inl ⟨[], [], none, rfl, rfl, fun ch same => by cases same⟩
  | cons reading later =>
      rcases takes_or_stops reading later with ⟨used, rest, event, split, takes⟩ | ⟨fault, stop⟩
      · refine .inl ⟨used, rest, event, split, ?_, ?_⟩
        · rw [split]
          exact KeyboardInput.poll_takes takes rest
        · intro ch same
          subst same
          exact takes.byte_mem
      · exact .inr ⟨fault, KeyboardInput.poll_stops stop⟩

theorem Alive.later (alive : Alive sevenBit (used ++ rest) state) :
    Alive sevenBit rest state where
  input holds byte member := by
    apply alive.input holds byte
    rw [bytesOf_append]
    exact List.mem_append_right _ member
  session := alive.session
  console := alive.console

theorem Alive.typed (alive : Alive sevenBit (used ++ rest) state) (holds : sevenBit)
    (typed : ∀ ch, key = .byte ch → ch ∈ bytesOf used) :
    ∀ ch, key = .byte ch → ch = ascii.tab ∨ ch < 0x80 := by
  intro ch same
  right
  apply alive.input holds ch
  rw [bytesOf_append]
  exact List.mem_append_left _ (typed ch same)

theorem round_alive (font : Font) (tick : UInt32) (alive : Alive sevenBit (used ++ rest) state)
    (typed : ∀ ch, key = .byte ch → ch ∈ bytesOf used) {after : LineEditor}
    {line : Option String} {action : LineDisplayAction}
    (stepped : state.editor.process key = .ok (after, line, action)) :
    ∃ last, round font state (key, tick) = .ok (⟨after, last⟩, line.map fun line => (line, tick)) ∧
      Alive sevenBit rest ⟨after, last⟩ := by
  rcases alive.session with ⟨s, shows, bytes⟩
  rcases alive.console with ⟨page, displays⟩
  rcases process_acts shows stepped with ⟨t, acts, shown⟩
  have kept : sevenBit → t.BytesIn fun ch => ch < 0x80 :=
    fun holds => acts.bytesIn (alive.typed holds typed) (bytes holds)
  cases line with
  | none =>
      rcases round_edits font displays tick stepped with ⟨last, rounded, shows⟩
      exact ⟨last, rounded, alive.later.input, ⟨t, shown, kept⟩, ⟨_, shows⟩⟩
  | some line =>
      rcases round_finishes font displays tick stepped with ⟨last, rounded, shows⟩
      exact ⟨last, rounded, alive.later.input, ⟨t, shown, kept⟩, ⟨_, shows⟩⟩

/-- A key at which the editor panics: the fault, and why. -/
theorem round_stops (font : Font) (tick : UInt32) (alive : Alive sevenBit (used ++ rest) state)
    (typed : ∀ ch, key = .byte ch → ch ∈ bytesOf used)
    (stopped : state.editor.process key = .error fault) :
    round font state (key, tick) = .error fault ∧ ¬ sevenBit ∧ UndecodedBytes fault := by
  rcases alive.session with ⟨s, shows, bytes⟩
  refine ⟨by rw [round]; dsimp only; rw [stopped, Exec.error_bind], ?_,
    shows.process_failsOnly key fault stopped⟩
  intro holds
  have whole : WholeCharacters state.editor key :=
    (bytes holds).wholeCharacters (fun _ small => small) shows (alive.typed holds typed)
  rcases (process_completes_iff shows key).mpr whole with ⟨result, completed⟩
  rw [stopped] at completed
  cases completed

/-- After so many iterations: the readings were cut into keys, the editor is that of these
keys, and the lines that it returned were executed. -/
structure Handles (reader : List Reading) (editor : LineEditor) (count : Nat) (machine : Machine)
    (results : List (Option (String × UInt32))) : Prop where
  session : ∃ events outputs,
    (KeyboardInput.new reader).polls count = .ok (machine.keyboard, events) ∧
    Runs.run LineEditor.process editor (events.filterMap id) = .ok (machine.state.editor, outputs) ∧
    (results.filterMap id).map Prod.fst = outputs.filterMap Prod.fst
  editor : RepInvariant machine.state.editor
  console : ∃ page, machine.state.console.Displays page

theorem Handles.cons {editor after : LineEditor} {line : Option String} {action : LineDisplayAction}
    {count : Nat} {machine : Machine} {results : List (Option (String × UInt32))}
    (polled : (KeyboardInput.new reader).poll = .ok (KeyboardInput.new rest, some key))
    (stepped : editor.process key = .ok (after, line, action))
    (handles : Handles rest after count machine results) (tick : UInt32) :
    Handles reader editor (count + 1) machine
      (line.map (fun line => (line, tick)) :: results) := by
  rcases handles with ⟨⟨events, outputs, polls, edited, executed⟩, editor, console⟩
  refine ⟨⟨some key :: events, (line, action) :: outputs, ?_, ?_, ?_⟩, editor, console⟩
  · rw [KeyboardInput.polls_cons polled, polls]
    rfl
  · exact (Runs.run_cons_eq_ok _).mpr ⟨_, _, _, stepped, edited, rfl⟩
  · cases line with
    | none => exact executed
    | some line => exact congrArg (List.cons line) executed

theorem Handles.idle {editor : LineEditor} {count : Nat} {machine : Machine}
    {results : List (Option (String × UInt32))}
    (polled : (KeyboardInput.new reader).poll = .ok (KeyboardInput.new rest, none))
    (handles : Handles rest editor count machine results) :
    Handles reader editor (count + 1) machine (none :: results) := by
  rcases handles with ⟨⟨events, outputs, polls, edited, executed⟩, editor, console⟩
  refine ⟨⟨none :: events, outputs, ?_, edited, executed⟩, editor, console⟩
  rw [KeyboardInput.polls_cons polled, polls]
  rfl

theorem iterations_handle (font : Font) (alive : Alive sevenBit reader state)
    (ticks : List UInt32) :
    (∃ machine results,
      Runs.run (iterate font) ⟨KeyboardInput.new reader, state⟩ ticks = .ok (machine, results) ∧
      Handles reader state.editor ticks.length machine results) ∨
    ∃ fault, Runs.run (iterate font) ⟨KeyboardInput.new reader, state⟩ ticks = .error fault ∧
      ((KeyboardInput.new reader).polls ticks.length = .error fault ∨
        ¬ sevenBit ∧ UndecodedBytes fault) := by
  induction ticks generalizing reader state with
  | nil =>
      rcases alive.session with ⟨s, shows, bytes⟩
      exact .inl ⟨_, [], rfl, ⟨[], [], rfl, rfl, rfl⟩, shows.repInvariant, alive.console⟩
  | cons tick ticks ih =>
      rcases poll_cases reader with ⟨used, rest, event, rfl, polled, typed⟩ | ⟨fault, stopped⟩
      · cases event with
        | none =>
          have idle : iterate font ⟨KeyboardInput.new (used ++ rest), state⟩ tick =
            .ok (⟨KeyboardInput.new rest, state⟩, none) := iterate_idle polled
          rw [Runs.run_cons_ok _ idle]
          rcases ih alive.later with ⟨machine, results, ran, handles⟩ | ⟨fault, ran, why⟩
          · exact .inl ⟨machine, none :: results, by rw [ran]; rfl, handles.idle polled⟩
          · refine .inr ⟨fault, by rw [ran]; rfl, why.imp_left fun stops => ?_⟩
            rw [List.length_cons, KeyboardInput.polls_cons polled, stops]
            rfl
        | some key =>
          have typedKey : ∀ ch, key = .byte ch → ch ∈ bytesOf used :=
            fun ch same => typed ch (congrArg some same)
          cases processed : state.editor.process key with
          | error fault =>
              rcases round_stops font tick alive typedKey processed with ⟨rounded, why⟩
              refine .inr ⟨fault, Runs.run_cons_error _ ?_ ticks, .inr why⟩
              rw [iterate, polled, Exec.ok_bind]
              dsimp only
              rw [rounded, Exec.error_bind]
          | ok result =>
              rcases result with ⟨after, line, action⟩
              rcases round_alive font tick alive typedKey processed with ⟨last, rounded, next⟩
              rw [Runs.run_cons_ok _ (iterate_key polled rounded)]
              rcases ih next with ⟨machine, results, ran, handles⟩ | ⟨fault, ran, why⟩
              · exact .inl ⟨machine, _ :: results, by rw [ran]; rfl,
                  handles.cons polled processed tick⟩
              · refine .inr ⟨fault, by rw [ran]; rfl, why.imp_left fun stops => ?_⟩
                rw [List.length_cons, KeyboardInput.polls_cons polled, stops]
                rfl
      · refine .inr ⟨fault, Runs.run_cons_error _ ?_ ticks,
          .inl (KeyboardInput.polls_stop stopped ticks.length)⟩
        rw [iterate, stopped, Exec.error_bind]

/-- Whatever comes and whenever, the shell deals with the keys that it makes, or stops at
one of three things: the deadline of an Esc wraps, the readings end inside a sequence, or
bytes beyond ASCII came and leave the editor without a character. -/
theorem any_input_handled (font : Font) (attached : Option FrameBuffer) (boot : List UInt8)
    (readings : List Reading) (ticks : List UInt32) :
    ∃ console,
      [boot, strBytes prompt].foldlM (Console.writeStr font) { Console.new with fb := attached } =
        .ok console ∧
      ((∃ machine results events outputs,
        Runs.run (iterate font) ⟨KeyboardInput.new readings, ⟨.new, console⟩⟩ ticks =
          .ok (machine, results) ∧
        Tokenises readings ticks.length (.ok (machine.keyboard, events)) ∧
        Runs.run LineEditor.process .new (events.filterMap id) =
          .ok (machine.state.editor, outputs) ∧
        (results.filterMap id).map Prod.fst = outputs.filterMap Prod.fst ∧
        RepInvariant machine.state.editor ∧ ∃ page, machine.state.console.Displays page) ∨
      ∃ fault,
        Runs.run (iterate font) ⟨KeyboardInput.new readings, ⟨.new, console⟩⟩ ticks =
          .error fault ∧
        (Tokenises readings ticks.length (.error fault) ∨
          (∃ byte ∈ bytesOf readings, 0x80 ≤ byte) ∧ UndecodedBytes fault)) := by
  rcases boot_displays font attached boot with ⟨console, booted, displays⟩
  have alive : Alive (∀ byte ∈ bytesOf readings, byte < 0x80) readings ⟨.new, console⟩ :=
    ⟨id, ⟨.new, new_shows, fun _ => ⟨by simp [Session.new], by simp [Session.new],
      by simp [Session.new]⟩⟩, ⟨_, displays⟩⟩
  refine ⟨console, booted, ?_⟩
  have tokens := KeyboardInput.polls_tokenise readings ticks.length
  rcases iterations_handle font alive ticks with
    ⟨machine, results, ran, ⟨events, outputs, polls, edited, executed⟩, editor, shown⟩ |
    ⟨fault, ran, stops | ⟨beyond, undecoded⟩⟩
  · rw [polls] at tokens
    exact .inl ⟨machine, results, events, outputs, ran, tokens, edited, executed, editor, shown⟩
  · rw [stops] at tokens
    exact .inr ⟨fault, ran, .inl tokens⟩
  · refine .inr ⟨fault, ran, .inr ⟨?_, undecoded⟩⟩
    by_contra small
    apply beyond
    intro byte member
    by_contra wide
    exact small ⟨byte, member, UInt8.not_lt.mp wide⟩

end

end Ease.Shell
