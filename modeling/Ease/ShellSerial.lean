import Ease.Keyboard
import Ease.Transcript

/-! The shell at the serial line: the loops of `Shell::run` poll the keyboard, and sleep
when there is no key. -/

namespace Ease

theorem Polled.shorter {keyboard after : KeyboardInput} {used : List Reading}
    {event : Option KeyEvent} {keys later : List Keystroke}
    (polled : Polled keyboard keys used after event later) :
    after.reader.length ≤ keyboard.reader.length - 1 := by
  have split := congrArg List.length polled.reader
  rw [List.length_append] at split
  rcases Nat.eq_zero_or_pos used.length with none | some
  · have nothing := congrArg List.length (polled.moves (List.length_eq_zero_iff.mp none))
    rw [List.length_nil] at nothing
    omega
  · omega

namespace Shell

structure Machine (S : Type := FrameBuffer) where
  keyboard : KeyboardInput
  state : State S

section

variable {S : Type} [Surface S]

/-- An iteration of the inner loop of `run`; `tick` is what `ticks_ms` returns in it. Without
a key the hart waits for an interrupt, which changes nothing here. -/
def iterate (font : Font) (machine : Machine S) (tick : UInt32) :
    Exec (Machine S × Option (String × UInt32)) := do
  let (keyboard, event) ← machine.keyboard.poll
  match event with
  | some event => do
      let (state, line) ← round font machine.state (event, tick)
      .ok (⟨keyboard, state⟩, line)
  | none => .ok (⟨keyboard, machine.state⟩, none)

/-- The messages before and after `attach_fb`, and the loops of `run` on a serial line. -/
def session (font : Font) (fb : S) (earlier later : List (List UInt8)) (readings : List Reading)
    (ticks : List UInt32) : Exec (Machine S × List (Option (String × UInt32))) := do
  let console ← earlier.foldlM (Console.writeStr font) (Console.blank S)
  let console ← later.foldlM (Console.writeStr font) (console.attachFb fb)
  Runs.run (iterate font) ⟨KeyboardInput.new readings, ⟨.new, console⟩⟩ ticks

end

/-- After so many iterations: the keys that came through were handled as rounds, and the
others are still on the line. -/
structure Serves (font : Font) (console : Console) (keys : List Keystroke)
    (readings : List Reading) (ticks : List UInt32) (machine : Machine)
    (results : List (Option (String × UInt32))) (inputs : List (KeyEvent × UInt32))
    (later : List Keystroke) : Prop where
  ran : Runs.run (iterate font) ⟨KeyboardInput.new readings, ⟨.new, console⟩⟩ ticks =
    .ok (machine, results)
  ready : AtKeys machine.keyboard later
  handled : keys.map Keystroke.event = inputs.map Prod.fst ++ later.map Keystroke.event
  rounds : ∃ lines, Runs.run (round font) ⟨.new, console⟩ inputs = .ok (machine.state, lines) ∧
    results.filterMap id = lines.filterMap id
  fits : ∀ reading ∈ machine.keyboard.reader, DeadlineFits reading
  taken : machine.keyboard.reader.length ≤ readings.length - ticks.length

section

variable {font : Font} {console : Console} {keys later : List Keystroke}
  {readings : List Reading} {ticks : List UInt32} {machine : Machine}
  {results : List (Option (String × UInt32))} {inputs : List (KeyEvent × UInt32)} {tick : UInt32}

theorem iterate_idle {keyboard : KeyboardInput}
    (polled : machine.keyboard.poll = .ok (keyboard, none)) :
    iterate font machine tick = .ok (⟨keyboard, machine.state⟩, none) := by
  rw [iterate, polled, Exec.ok_bind]

theorem iterate_key {keyboard : KeyboardInput} {event : KeyEvent} {state : State}
    {line : Option (String × UInt32)}
    (polled : machine.keyboard.poll = .ok (keyboard, some event))
    (handled : round font machine.state (event, tick) = .ok (state, line)) :
    iterate font machine tick = .ok (⟨keyboard, state⟩, line) := by
  rw [iterate, polled, Exec.ok_bind]
  dsimp only
  rw [handled, Exec.ok_bind]

theorem Serves.iterate
    (complete : ∀ inputs : List (KeyEvent × UInt32),
      inputs.map Prod.fst <+: keys.map Keystroke.event →
        ∃ result, Runs.run (round font) ⟨.new, console⟩ inputs = .ok result)
    (serves : Serves font console keys readings ticks machine results inputs later)
    (tick : UInt32) :
    ∃ after line handled rest,
      Serves font console keys readings (ticks ++ [tick]) after (results ++ [line])
        handled rest := by
  obtain ⟨used, keyboard, event, rest, polled, step⟩ := serves.ready.poll fun reading reader next =>
    serves.fits reading (by rw [next]; exact List.mem_cons_self)
  have fits : ∀ reading ∈ keyboard.reader, DeadlineFits reading := fun reading member =>
    serves.fits reading (by rw [step.reader]; exact List.mem_append_right _ member)
  have taken : keyboard.reader.length ≤ readings.length - (ticks ++ [tick]).length := by
    have before := serves.taken
    have after := step.shorter
    rw [List.length_append, List.length_singleton]
    omega
  rcases serves.rounds with ⟨lines, rounds, same⟩
  cases event with
  | none =>
      refine ⟨⟨keyboard, machine.state⟩, none, inputs, rest,
        (Runs.run_snoc_eq_ok _).mpr ⟨_, _, _, serves.ran, iterate_idle polled, rfl⟩,
        step.ready, ?_, ⟨lines, rounds, ?_⟩, fits, taken⟩
      · rw [serves.handled, step.delivered]
        rfl
      · rw [List.filterMap_append, same]
        exact List.append_nil _
  | some event =>
      have delivered : keys.map Keystroke.event =
          (inputs ++ [(event, tick)]).map Prod.fst ++ rest.map Keystroke.event := by
        rw [serves.handled, step.delivered, List.map_append, List.append_assoc]
        rfl
      rcases complete (inputs ++ [(event, tick)]) ⟨_, delivered.symm⟩ with ⟨⟨state, outputs⟩, whole⟩
      rcases (Runs.run_snoc_eq_ok _).mp whole with ⟨middle, first, line, start, head, rfl⟩
      rw [rounds] at start
      cases start
      refine ⟨⟨keyboard, state⟩, line, inputs ++ [(event, tick)], rest,
        (Runs.run_snoc_eq_ok _).mpr ⟨_, _, _, serves.ran, iterate_key polled head, rfl⟩,
        step.ready, delivered, ⟨lines ++ [line], whole, ?_⟩, fits, taken⟩
      rw [List.filterMap_append, List.filterMap_append, same]

theorem iterations_serve
    (complete : ∀ inputs : List (KeyEvent × UInt32),
      inputs.map Prod.fst <+: keys.map Keystroke.event →
        ∃ result, Runs.run (round font) ⟨.new, console⟩ inputs = .ok result)
    (bytes : bytesOf readings = encodeKeys keys) (inTime : InTime readings)
    (fits : ∀ reading ∈ readings, DeadlineFits reading) (ticks : List UInt32) :
    ∃ machine results inputs later,
      Serves font console keys readings ticks machine results inputs later := by
  induction ticks using List.reverseRecOn with
  | nil =>
      exact ⟨_, [], [], keys, rfl, ⟨rfl, bytes, inTime⟩, rfl, ⟨[], rfl, rfl⟩, fits, Nat.le_refl _⟩
  | append_singleton ticks tick ih =>
      rcases ih with ⟨machine, results, inputs, later, serves⟩
      rcases serves.iterate complete tick with ⟨after, line, handled, rest, more⟩
      exact ⟨after, _, handled, rest, more⟩

theorem round_edit {event : KeyEvent} {state after : State} {line : Option (String × UInt32)}
    (ran : round font state (event, tick) = .ok (after, line)) :
    ∃ result, state.editor.process event = .ok (after.editor, result) ∧
      line.map Prod.fst = result.1 := by
  rw [round, Exec.bind_eq_ok] at ran
  rcases ran with ⟨⟨editor, finished, action⟩, stepped, shown⟩
  rcases Exec.bind_eq_ok.mp shown with ⟨console, _, executed⟩
  cases finished with
  | none =>
      cases executed
      exact ⟨_, stepped, rfl⟩
  | some text =>
      rcases Exec.bind_eq_ok.mp executed with ⟨output, _, printed⟩
      rcases Exec.bind_eq_ok.mp printed with ⟨_, _, returned⟩
      cases returned
      exact ⟨_, stepped, rfl⟩

theorem rounds_edit {state after : State} {lines : List (Option (String × UInt32))}
    (ran : Runs.run (round font) state inputs = .ok (after, lines)) :
    ∃ outputs, Runs.run LineEditor.process state.editor (inputs.map Prod.fst) =
        .ok (after.editor, outputs) ∧
      (lines.filterMap id).map Prod.fst = outputs.filterMap Prod.fst := by
  induction inputs generalizing state lines with
  | nil =>
      cases ran
      exact ⟨[], rfl, rfl⟩
  | cons input inputs ih =>
      rcases (Runs.run_cons_eq_ok _).mp ran with ⟨next, line, rest, head, tail, rfl⟩
      rcases round_edit head with ⟨result, stepped, finished⟩
      rcases ih tail with ⟨outputs, edited, same⟩
      refine ⟨result :: outputs, (Runs.run_cons_eq_ok _).mpr ⟨_, _, _, stepped, edited, rfl⟩, ?_⟩
      rw [List.filterMap_cons, List.filterMap_cons, ← finished]
      cases line with
      | none => exact same
      | some entry => exact congrArg (entry.1 :: ·) same

theorem Serves.keys_taken
    (serves : Serves font console keys readings ticks machine results inputs later) :
    inputs.map Prod.fst = (keys.take inputs.length).map Keystroke.event := by
  rw [List.map_take, serves.handled]
  exact (List.take_left' (List.length_map ..)).symm

theorem Serves.all_taken
    (serves : Serves font console keys readings ticks machine results inputs later)
    (enough : readings.length ≤ ticks.length) : keys.take inputs.length = keys := by
  have taken := serves.taken
  have empty : machine.keyboard.reader = [] := by
    apply List.length_eq_zero_iff.mp
    omega
  have left := serves.ready.bytes
  rw [empty] at left
  have handled := congrArg List.length serves.handled
  rw [encodeKeys_eq_nil left.symm, List.map_nil, List.append_nil, List.length_map,
    List.length_map] at handled
  rw [← handled, List.take_length]

end

/-- The session that the bytes on the serial line spell out is on the screen: after any
number of iterations that of its first keys, and after enough of them that of all. -/
theorem serial_session_shows_transcript (font : Font) (attached : Option FrameBuffer)
    (boot : List UInt8) (ended : ∀ last ∈ boot.getLast?, last = ascii.lf)
    (keys : List Keystroke) (typed : ∀ key ∈ keys, TypesText key.event)
    (calm : Calm (keys.map Keystroke.event)) (readings : List Reading)
    (bytes : bytesOf readings = encodeKeys keys) (inTime : InTime readings)
    (fits : ∀ reading ∈ readings, DeadlineFits reading) (ticks : List UInt32) :
    ∃ console machine results count outputs,
      [boot, strBytes prompt].foldlM (Console.writeStr font) { Console.new with fb := attached } =
        .ok console ∧
      Runs.run (iterate font) ⟨KeyboardInput.new readings, ⟨.new, console⟩⟩ ticks =
        .ok (machine, results) ∧
      ShowsTranscript machine.state boot (results.filterMap id) ∧
      Runs.run LineEditor.process .new ((keys.take count).map Keystroke.event) =
        .ok (machine.state.editor, outputs) ∧
      (results.filterMap id).map Prod.fst = outputs.filterMap Prod.fst ∧
      (readings.length ≤ ticks.length → keys.take count = keys) := by
  rcases boot_displays font attached boot with ⟨console, booted, displays⟩
  have follow : ∀ inputs : List (KeyEvent × UInt32),
      inputs.map Prod.fst <+: keys.map Keystroke.event →
        Calm (inputs.map Prod.fst) ∧ ∃ state results s page,
          Follows font console (boot ++ strBytes prompt) inputs state results s page := by
    intro inputs front
    rcases front with ⟨later, split⟩
    rw [← split] at calm
    refine ⟨calm.front, rounds_follow font displays (onTranscript_boot ended) ?_ calm.front⟩
    intro input member
    have inside : input.1 ∈ keys.map Keystroke.event := by
      rw [← split]
      exact List.mem_append_left _ (List.mem_map_of_mem member)
    rcases List.mem_map.mp inside with ⟨key, inKeys, same⟩
    rw [← same]
    exact typed key inKeys
  obtain ⟨machine, results, inputs, later, serves⟩ := iterations_serve (by
    intro inputs front
    rcases follow inputs front with ⟨_, state, results, _, _, follows⟩
    exact ⟨_, follows.ran⟩) bytes inTime fits ticks
  rcases follow inputs ⟨_, serves.handled.symm⟩ with ⟨calmFirst, state, lines, s, page, follows⟩
  rcases serves.rounds with ⟨others, rounds, same⟩
  have ran := follows.ran
  rw [rounds] at ran
  cases ran
  rcases rounds_edit rounds with ⟨outputs, edited, executed⟩
  rw [serves.keys_taken] at edited
  refine ⟨console, machine, results, inputs.length, outputs, booted, serves.ran, ?_, edited, ?_,
    serves.all_taken⟩
  · rw [same]
    exact follows.showsTranscript calmFirst
  · rw [same, executed]

def recallKeys : List Keystroke := [.text 0x78 (by decide), .enter, .arrow .up]

def recallReadings : List Reading :=
  [⟨some 0x78, 5⟩, ⟨none, 6⟩, ⟨some 0x0D, 6⟩, ⟨some 0x1B, 7⟩, ⟨none, 8⟩, ⟨some 0x5B, 9⟩,
    ⟨some 0x41, 9⟩]

theorem serial_session_recalls_command :
    ∃ console machine results outputs,
      [strBytes "Hello from EASE!\n", strBytes prompt].foldlM (Console.writeStr ⟨fun _ => 0⟩)
        { Console.new with fb := none } = .ok console ∧
      Runs.run (iterate ⟨fun _ => 0⟩) ⟨KeyboardInput.new recallReadings, ⟨.new, console⟩⟩
        (List.replicate 7 8) = .ok (machine, results) ∧
      ShowsTranscript machine.state (strBytes "Hello from EASE!\n") (results.filterMap id) ∧
      Runs.run LineEditor.process .new (recallKeys.map Keystroke.event) =
        .ok (machine.state.editor, outputs) ∧
      (results.filterMap id).map Prod.fst = outputs.filterMap Prod.fst := by
  have typed : ∀ key ∈ recallKeys, TypesText key.event := by
    simp [recallKeys, Keystroke.event, TypesText, Printable]
  have fits : ∀ reading ∈ recallReadings, DeadlineFits reading := fun reading member _ =>
    (by decide : ∀ reading ∈ recallReadings, reading.ticks.toNat + 10 < 2 ^ 32) reading member
  obtain ⟨console, machine, results, count, outputs, booted, ran, shows, edited, executed, all⟩ :=
    serial_session_shows_transcript ⟨fun _ => 0⟩ none (strBytes "Hello from EASE!\n") hello_ends
      recallKeys typed recall_calm recallReadings rfl (inTime_of_close (by decide)) fits
      (List.replicate 7 8)
  rw [all (by decide)] at edited
  exact ⟨console, machine, results, outputs, booted, ran, shows, edited, executed⟩

end Shell

end Ease
