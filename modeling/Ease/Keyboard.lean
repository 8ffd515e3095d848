import Ease.Checked
import Ease.EscapeParser
import Ease.Runs

/-! The keyboard: bytes read one at a time, and the wait for the rest of an escape
sequence. -/

namespace Ease

/-- One call to `read_byte`, and what `ticks_ms` returns right after it. -/
structure Reading where
  byte : Option UInt8
  ticks : UInt32
  deriving DecidableEq, Repr

/-- The reads to come and the parser. After the last reading the reader has no bytes. -/
structure KeyboardInput where
  reader : List Reading
  parser : EscapeParser
  deriving DecidableEq, Repr

def bytesOf (readings : List Reading) : List UInt8 := readings.filterMap Reading.byte

namespace KeyboardInput

def new (reader : List Reading) : KeyboardInput := ⟨reader, .new⟩

/-- The loop of `poll`. What the clock does after the last reading is left open. -/
def waitLoop (deadline : Nat) (parser : EscapeParser) :
    List Reading → Exec (KeyboardInput × Option KeyEvent)
  | [] => .error .unmodelled
  | reading :: reader =>
      match reading.byte with
      | some next =>
          match parser.parse next with
          | (.byte ch, parser) => .ok (⟨reader, parser⟩, some (.byte ch))
          | (.special key, parser) => .ok (⟨reader, parser⟩, some (.special key))
          | (.invalidSequence, parser) => .ok (⟨reader, parser⟩, none)
          | (.pending, parser) => waitLoop deadline parser reader
      | none =>
          if deadline ≤ reading.ticks.toNat then
            .ok (⟨reader, parser.reset⟩, some (.special .esc))
          else waitLoop deadline parser reader

def poll (keyboard : KeyboardInput) : Exec (KeyboardInput × Option KeyEvent) :=
  match keyboard.reader with
  | [] => .ok (keyboard, none)
  | reading :: reader =>
      match reading.byte with
      | none => .ok (⟨reader, keyboard.parser⟩, none)
      | some byte =>
          match keyboard.parser.parse byte with
          | (.byte ch, parser) => .ok (⟨reader, parser⟩, some (.byte ch))
          | (.special key, parser) => .ok (⟨reader, parser⟩, some (.special key))
          | (.invalidSequence, parser) => .ok (⟨reader, parser⟩, none)
          | (.pending, parser) => do
              let deadline ← usizeAdd reading.ticks.toNat 10
              waitLoop deadline parser reader

def polls (keyboard : KeyboardInput) (count : Nat) :
    Exec (KeyboardInput × List (Option KeyEvent)) :=
  Runs.run (fun keyboard (_ : Unit) => keyboard.poll) keyboard (List.replicate count ())

end KeyboardInput

/-- No check of the deadline between an Esc and the second byte after it comes too late. -/
def InTime (readings : List Reading) : Prop :=
  ∀ front esc middle check back, readings = front ++ esc :: (middle ++ check :: back) →
    esc.byte = some 0x1B → check.byte = none → (bytesOf middle).length < 2 →
      check.ticks.toNat < esc.ticks.toNat + 10

def DeadlineFits (reading : Reading) : Prop :=
  reading.byte = some 0x1B → reading.ticks.toNat + 10 < 2 ^ 32

structure AtKeys (keyboard : KeyboardInput) (keys : List Keystroke) : Prop where
  parser : keyboard.parser = .new
  bytes : bytesOf keyboard.reader = encodeKeys keys
  inTime : InTime keyboard.reader

/-- Every call to `poll` returns, the keystrokes come out once and in order, and each
call takes at most three bytes. -/
structure Delivers (keys : List Keystroke) (readings : List Reading) : Prop where
  completes : ∀ count, ∃ result, (KeyboardInput.new readings).polls count = .ok result
  between : ∀ count keyboard events,
    (KeyboardInput.new readings).polls count = .ok (keyboard, events) →
      keyboard.parser.state = .normal ∧
        (∃ rest, keys.map Keystroke.event = events.filterMap id ++ rest) ∧
        (readings.length ≤ count → events.filterMap id = keys.map Keystroke.event) ∧
        ∀ after event, keyboard.poll = .ok (after, event) →
          (bytesOf keyboard.reader).length ≤ (bytesOf after.reader).length + 3

section

variable {deadline : Nat} {parser : EscapeParser} {front gap reader readings : List Reading}

@[simp] theorem bytesOf_append (front back : List Reading) :
    bytesOf (front ++ back) = bytesOf front ++ bytesOf back := List.filterMap_append ..

theorem InTime.drop (front : List Reading) {back : List Reading}
    (inTime : InTime (front ++ back)) : InTime back := by
  intro first esc middle check rest split
  exact inTime (front ++ first) esc middle check rest (by rw [split, List.append_assoc])

namespace KeyboardInput

/-- Empty reads before the deadline make no difference. -/
theorem waitLoop_gap
    (early : ∀ reading ∈ gap, reading.byte = none ∧ reading.ticks.toNat < deadline) :
    waitLoop deadline parser (gap ++ reader) = waitLoop deadline parser reader := by
  induction gap with
  | nil => rfl
  | cons reading gap ih =>
      rcases early reading List.mem_cons_self with ⟨empty, before⟩
      rw [List.cons_append, waitLoop, empty]
      dsimp only
      rw [if_neg (Nat.not_le.mpr before)]
      exact ih fun other member => early other (List.mem_cons_of_mem _ member)

end KeyboardInput

theorem bytesOf_eq_cons {byte : UInt8} {bytes : List UInt8}
    (next : bytesOf readings = byte :: bytes) :
    ∃ gap reading reader, readings = gap ++ reading :: reader ∧
      (∀ empty ∈ gap, empty.byte = none) ∧ reading.byte = some byte ∧ bytesOf reader = bytes :=
  List.filterMap_eq_cons_iff.mp next

theorem bytesOf_gap (empty : ∀ reading ∈ gap, reading.byte = none) : bytesOf gap = [] :=
  List.filterMap_eq_nil_iff.mpr empty

theorem InTime.early {esc : Reading} (middle back : List Reading)
    (inTime : InTime (esc :: (middle ++ (gap ++ back)))) (escape : esc.byte = some 0x1B)
    (inside : (bytesOf middle).length < 2) (empty : ∀ reading ∈ gap, reading.byte = none) :
    ∀ reading ∈ gap, reading.byte = none ∧ reading.ticks.toNat < esc.ticks.toNat + 10 := by
  intro reading member
  rcases List.append_of_mem member with ⟨before, after, rfl⟩
  have none := bytesOf_gap fun other earlier => empty other (List.mem_append_left _ earlier)
  refine ⟨empty reading member, ?_⟩
  apply inTime [] esc (middle ++ before) reading (after ++ back) (by simp) escape
    (empty reading member)
  rw [bytesOf_append, none, List.append_nil]
  exact inside

namespace KeyboardInput

theorem waitLoop_sequence {direction : Arrow} {pause : List Reading} {bracket last : Reading}
    (before : ∀ reading ∈ gap, reading.byte = none ∧ reading.ticks.toNat < deadline)
    (isBracket : bracket.byte = some 0x5B)
    (between : ∀ reading ∈ pause, reading.byte = none ∧ reading.ticks.toNat < deadline)
    (isFinal : last.byte = some direction.final) :
    waitLoop deadline ⟨.gotEscape⟩ (gap ++ bracket :: (pause ++ last :: reader)) =
      .ok (⟨reader, .new⟩, some (.special direction.key)) := by
  rw [waitLoop_gap before, waitLoop, isBracket]
  simp only [EscapeParser.parse_bracket]
  rw [waitLoop_gap between, waitLoop, isFinal]
  simp only [EscapeParser.parse_final]

theorem waitLoop_arrow {esc : Reading} {direction : Arrow} {bytes : List UInt8}
    (escape : esc.byte = some 0x1B) (inTime : InTime (esc :: readings))
    (sequence : bytesOf readings = 0x5B :: direction.final :: bytes) :
    ∃ used reader, readings = used ++ reader ∧ bytesOf used = [0x5B, direction.final] ∧
      bytesOf reader = bytes ∧
      waitLoop (esc.ticks.toNat + 10) ⟨.gotEscape⟩ readings =
        .ok (⟨reader, .new⟩, some (.special direction.key)) := by
  rcases bytesOf_eq_cons sequence with ⟨gap, bracket, later, rfl, empty, isBracket, final⟩
  rcases bytesOf_eq_cons final with ⟨pause, last, reader, rfl, empty', isFinal, rest⟩
  have early : ∀ reading ∈ gap,
      reading.byte = none ∧ reading.ticks.toNat < esc.ticks.toNat + 10 :=
    InTime.early [] (bracket :: (pause ++ last :: reader)) inTime escape (by decide) empty
  have second : ∀ reading ∈ pause,
      reading.byte = none ∧ reading.ticks.toNat < esc.ticks.toNat + 10 := by
    apply InTime.early (gap ++ [bracket]) (last :: reader) ?_ escape ?_ empty'
    · simpa using inTime
    · rw [bytesOf_append, bytesOf_gap empty]
      simp [bytesOf, isBracket]
  refine ⟨gap ++ bracket :: (pause ++ [last]), reader, by simp, ?_, rest,
    waitLoop_sequence early isBracket second isFinal⟩
  simp only [bytesOf_append, bytesOf_gap empty, List.nil_append]
  simp [bytesOf, isBracket, isFinal, List.filterMap_eq_nil_iff.mpr empty']

end KeyboardInput

structure Polled (keyboard : KeyboardInput) (keys : List Keystroke) (used : List Reading)
    (after : KeyboardInput) (event : Option KeyEvent) (later : List Keystroke) : Prop where
  ready : AtKeys after later
  delivered : keys.map Keystroke.event = event.toList ++ later.map Keystroke.event
  reader : keyboard.reader = used ++ after.reader
  few : (bytesOf used).length ≤ 3
  fits : ∀ reading ∈ used, DeadlineFits reading
  moves : used = [] → keyboard.reader = []

theorem bytesOf_cons_some {reading : Reading} {byte : UInt8} (present : reading.byte = some byte) :
    bytesOf (reading :: reader) = byte :: bytesOf reader :=
  List.filterMap_cons_some present

theorem bytesOf_cons_none {reading : Reading} (empty : reading.byte = none) :
    bytesOf (reading :: reader) = bytesOf reader :=
  List.filterMap_cons_none empty

theorem deadlineFits_of_ne {reading : Reading} (other : reading.byte ≠ some 0x1B) :
    DeadlineFits reading := fun escape => absurd escape other

section

variable {reading : Reading} {keys : List Keystroke} {byte : UInt8}

theorem AtKeys.poll_empty (ready : AtKeys ⟨reading :: reader, parser⟩ keys)
    (empty : reading.byte = none) :
    KeyboardInput.poll ⟨reading :: reader, parser⟩ = .ok (⟨reader, parser⟩, none) ∧
      Polled ⟨reading :: reader, parser⟩ keys [reading] ⟨reader, parser⟩ none keys := by
  have bytes := ready.bytes
  rw [bytesOf_cons_none empty] at bytes
  refine ⟨by simp only [KeyboardInput.poll, empty], ?_⟩
  exact {
    ready := ⟨ready.parser, bytes, InTime.drop [reading] ready.inTime⟩
    delivered := rfl
    reader := rfl
    few := by simp [bytesOf, empty]
    fits := by
      intro other member
      rw [List.mem_singleton.mp member]
      exact deadlineFits_of_ne (by simp [empty])
    moves := by simp }

theorem AtKeys.poll_byte {key : Keystroke}
    (ready : AtKeys ⟨reading :: reader, parser⟩ (key :: keys))
    (present : reading.byte = some byte) (single : key.encode = [byte]) (other : byte ≠ 0x1B)
    (parsed : EscapeParser.new.parse byte = (EscapeParser.result key.event, .new)) :
    KeyboardInput.poll ⟨reading :: reader, parser⟩ = .ok (⟨reader, .new⟩, some key.event) ∧
      Polled ⟨reading :: reader, parser⟩ (key :: keys) [reading] ⟨reader, .new⟩ (some key.event)
        keys := by
  have bytes := ready.bytes
  have start := ready.parser
  dsimp only at start
  subst start
  rw [bytesOf_cons_some present, encodeKeys_cons, single, List.singleton_append,
    List.cons.injEq] at bytes
  constructor
  · simp only [KeyboardInput.poll, present, parsed]
    cases key.event <;> rfl
  · exact {
      ready := ⟨rfl, bytes.2, InTime.drop [reading] ready.inTime⟩
      delivered := rfl
      reader := rfl
      few := by simp [bytesOf, present]
      fits := by
        intro other' member
        rw [List.mem_singleton.mp member]
        exact deadlineFits_of_ne (by simp [present, other])
      moves := by simp }

theorem AtKeys.poll_arrow {direction : Arrow}
    (ready : AtKeys ⟨reading :: reader, parser⟩ (.arrow direction :: keys))
    (escape : reading.byte = some 0x1B) (fits : reading.ticks.toNat + 10 < 2 ^ 32) :
    ∃ used rest,
      KeyboardInput.poll ⟨reading :: reader, parser⟩ =
          .ok (⟨rest, .new⟩, some (.special direction.key)) ∧
        Polled ⟨reading :: reader, parser⟩ (.arrow direction :: keys) (reading :: used)
          ⟨rest, .new⟩ (some (.special direction.key)) keys := by
  have bytes := ready.bytes
  have start := ready.parser
  dsimp only at start
  subst start
  rw [bytesOf_cons_some escape, encodeKeys_cons] at bytes
  obtain ⟨used, rest, rfl, taken, left, waited⟩ :=
    KeyboardInput.waitLoop_arrow escape ready.inTime (List.cons.inj bytes).2
  refine ⟨used, rest, ?_, ?_⟩
  · simp only [KeyboardInput.poll, escape, EscapeParser.parse_escape]
    rw [usizeAdd_ok fits, Exec.ok_bind, waited]
  · exact {
      ready := ⟨rfl, left, InTime.drop (reading :: used) ready.inTime⟩
      delivered := rfl
      reader := rfl
      few := by
        rw [bytesOf_cons_some escape, taken]
        exact Nat.le_refl 3
      fits := by
        intro other member
        rcases List.mem_cons.mp member with rfl | later
        · exact fun _ => fits
        · apply deadlineFits_of_ne
          intro again
          have inside : (0x1B : UInt8) ∈ bytesOf used :=
            List.mem_filterMap.mpr ⟨other, later, again⟩
          rw [taken] at inside
          have final := EscapeParser.final_ne_escape direction
          simp [Ne.symm final] at inside
      moves := by simp }

theorem KeyboardInput.polls_succ {keyboard last : KeyboardInput} {count : Nat}
    {events : List (Option KeyEvent)} :
    keyboard.polls (count + 1) = .ok (last, events) ↔
      ∃ after event rest, keyboard.poll = .ok (after, event) ∧
        after.polls count = .ok (last, rest) ∧ events = event :: rest := by
  rw [KeyboardInput.polls, List.replicate_succ, Runs.run_cons_eq_ok]
  rfl

/-- A poll between keystrokes takes what belongs to the next one, or an empty read. -/
theorem AtKeys.poll {keyboard : KeyboardInput} (ready : AtKeys keyboard keys)
    (fits : ∀ reading reader, keyboard.reader = reading :: reader → DeadlineFits reading) :
    ∃ used after event later, keyboard.poll = .ok (after, event) ∧
      Polled keyboard keys used after event later := by
  rcases keyboard with ⟨_ | ⟨reading, reader⟩, parser⟩
  · exact ⟨[], _, none, keys, rfl, ready, rfl, rfl, Nat.zero_le _, by simp, fun _ => rfl⟩
  · cases present : reading.byte with
    | none =>
        rcases ready.poll_empty present with ⟨polled, step⟩
        exact ⟨_, _, _, _, polled, step⟩
    | some byte =>
        have bytes := ready.bytes
        dsimp only at bytes
        rw [bytesOf_cons_some present] at bytes
        cases keys with
        | nil => cases bytes
        | cons key keys =>
            rcases EscapeParser.encode_cases key with
              ⟨only, single, other, parsed⟩ | ⟨direction, rfl⟩
            · rw [encodeKeys_cons, single] at bytes
              obtain rfl : byte = only := (List.cons.inj bytes).1
              rcases ready.poll_byte present single other parsed with ⟨polled, step⟩
              exact ⟨_, _, _, _, polled, step⟩
            · rw [encodeKeys_cons] at bytes
              obtain rfl : byte = 0x1B := (List.cons.inj bytes).1
              obtain ⟨used, rest, polled, step⟩ :=
                ready.poll_arrow present (fits reading reader rfl present)
              exact ⟨_, _, _, _, polled, step⟩

theorem AtKeys.poll_overflow {keyboard : KeyboardInput} (ready : AtKeys keyboard keys)
    (next : keyboard.reader = reading :: reader) (wraps : ¬ DeadlineFits reading) :
    keyboard.poll = .error .overflow := by
  rw [DeadlineFits, Classical.not_imp, Nat.not_lt] at wraps
  rw [KeyboardInput.poll, next]
  simp only [wraps.1, ready.parser, EscapeParser.parse_escape]
  rw [usizeAdd, addWithin_overflow wraps.2, Exec.error_bind]

theorem AtKeys.polls {keyboard : KeyboardInput} (ready : AtKeys keyboard keys)
    (fits : ∀ reading ∈ keyboard.reader, DeadlineFits reading) (count : Nat) :
    ∃ last events later, keyboard.polls count = .ok (last, events) ∧ AtKeys last later ∧
      keys.map Keystroke.event = events.filterMap id ++ later.map Keystroke.event ∧
      (∀ reading ∈ last.reader, DeadlineFits reading) ∧
      (keyboard.reader.length ≤ count → last.reader = []) := by
  induction count generalizing keyboard keys with
  | zero =>
      exact ⟨keyboard, [], keys, rfl, ready, rfl, fits,
        fun short => List.length_eq_zero_iff.mp (Nat.le_zero.mp short)⟩
  | succ count ih =>
      obtain ⟨used, after, event, later, polled, step⟩ := ready.poll fun reading reader next =>
        fits reading (by rw [next]; exact List.mem_cons_self)
      obtain ⟨last, events, rest, finished, settled, delivered, fitting, empties⟩ :=
        ih step.ready fun reading member =>
          fits reading (by rw [step.reader]; exact List.mem_append_right _ member)
      refine ⟨last, event :: events, rest, ?_, settled, ?_, fitting, ?_⟩
      · exact KeyboardInput.polls_succ.mpr ⟨after, event, events, polled, finished, rfl⟩
      · calc keys.map Keystroke.event
            = event.toList ++ (events.filterMap id ++ rest.map Keystroke.event) := by
              rw [step.delivered, delivered]
          _ = (event :: events).filterMap id ++ rest.map Keystroke.event := by
              cases event <;> simp
      · intro short
        apply empties
        have split := congrArg List.length step.reader
        rw [List.length_append] at split
        rcases Nat.eq_zero_or_pos used.length with none | some
        · have nothing := step.moves (List.length_eq_zero_iff.mp none)
          rw [nothing, List.length_nil] at split
          omega
        · omega

theorem AtKeys.fits_of_completes {keyboard : KeyboardInput} (ready : AtKeys keyboard keys)
    (completes : ∀ count, ∃ result, keyboard.polls count = .ok result) :
    ∀ reading ∈ keyboard.reader, DeadlineFits reading := by
  induction size : keyboard.reader.length using Nat.strong_induction_on
    generalizing keyboard keys with
  | _ size ih =>
      have first : ∀ reading reader, keyboard.reader = reading :: reader →
          DeadlineFits reading := by
        intro reading reader next
        apply Classical.byContradiction
        intro wraps
        rcases completes 1 with ⟨⟨last, events⟩, finished⟩
        rcases KeyboardInput.polls_succ.mp finished with ⟨after, event, rest, polled, _⟩
        rw [ready.poll_overflow next wraps] at polled
        cases polled
      rcases ready.poll first with ⟨used, after, event, later, polled, step⟩
      rcases List.eq_nil_or_concat used with rfl | ⟨_, _, rfl⟩
      · rw [step.moves rfl]
        simp
      · have split := congrArg List.length step.reader
        rw [List.concat_eq_append, List.length_append, List.length_append,
          List.length_singleton] at split
        have rest := ih after.reader.length (by omega) step.ready (by
          intro count
          rcases completes (count + 1) with ⟨⟨last, events⟩, finished⟩
          rcases KeyboardInput.polls_succ.mp finished with ⟨next, output, more, head, tail, _⟩
          rw [polled] at head
          cases head
          exact ⟨_, tail⟩) rfl
        intro reading member
        rw [step.reader] at member
        rcases List.mem_append.mp member with inUsed | inRest
        · exact step.fits reading inUsed
        · exact rest reading inRest

theorem encodeKeys_eq_nil (nothing : encodeKeys keys = []) : keys = [] := by
  cases keys with
  | nil => rfl
  | cons key keys =>
      rw [encodeKeys_cons] at nothing
      cases key <;> cases nothing

end

/-- Every keystroke comes out once, in order, exactly when no Esc is read in the last
ticks before the counter wraps. -/
theorem keyboard_delivers_iff (keys : List Keystroke) (readings : List Reading)
    (bytes : bytesOf readings = encodeKeys keys) (inTime : InTime readings) :
    Delivers keys readings ↔ ∀ reading ∈ readings, DeadlineFits reading := by
  have ready : AtKeys (KeyboardInput.new readings) keys := ⟨rfl, bytes, inTime⟩
  constructor
  · intro delivers
    exact ready.fits_of_completes delivers.completes
  · intro fits
    constructor
    · intro count
      rcases ready.polls fits count with ⟨last, events, _, finished, _⟩
      exact ⟨_, finished⟩
    · intro count keyboard events reached
      obtain ⟨last, outputs, later, finished, settled, delivered, fitting, empties⟩ :=
        ready.polls fits count
      rw [reached] at finished
      cases finished
      refine ⟨by rw [settled.parser]; rfl, ⟨_, delivered⟩, ?_, ?_⟩
      · intro enough
        have left := settled.bytes
        rw [empties enough] at left
        rw [delivered, encodeKeys_eq_nil left.symm, List.map_nil, List.append_nil]
      · intro after event polled
        obtain ⟨used, next, output, rest, same, step⟩ := settled.poll fun reading reader split =>
          fitting reading (by rw [split]; exact List.mem_cons_self)
        rw [polled] at same
        cases same
        have few := step.few
        rw [step.reader, bytesOf_append, List.length_append]
        omega

theorem inTime_of_close
    (close : ∀ first ∈ readings, ∀ second ∈ readings,
      second.ticks.toNat < first.ticks.toNat + 10) : InTime readings := by
  intro front esc middle check back split _ _ _
  apply close
  · simp [split]
  · simp [split]

end

def sampleReadings : List Reading :=
  [⟨some 0x61, 3⟩, ⟨some 0x1B, 4⟩, ⟨none, 4⟩, ⟨some 0x5B, 5⟩, ⟨none, 6⟩, ⟨some 0x41, 6⟩,
    ⟨none, 7⟩, ⟨some 0x0D, 7⟩]

theorem keyboard_delivers_sample :
    Delivers [.text 0x61 (by decide), .arrow .up, .enter] sampleReadings := by
  apply (keyboard_delivers_iff _ _ rfl (inTime_of_close (by decide))).mpr
  intro reading member _
  exact (by decide : ∀ reading ∈ sampleReadings, reading.ticks.toNat + 10 < 2 ^ 32) reading member

/-- An arrow key in the last tick before the counter wraps, all of it there at once. -/
def lastTickReadings : List Reading :=
  [⟨some 0x1B, 0xFFFFFFFF⟩, ⟨some 0x5B, 0xFFFFFFFF⟩, ⟨some 0x41, 0xFFFFFFFF⟩]

theorem keyboard_stops_before_wrap :
    bytesOf lastTickReadings = encodeKeys [.arrow .up] ∧ InTime lastTickReadings ∧
      ¬ Delivers [.arrow .up] lastTickReadings := by
  refine ⟨rfl, inTime_of_close (by decide), ?_⟩
  intro delivers
  rcases delivers.completes 1 with ⟨result, finished⟩
  have stopped : (KeyboardInput.new lastTickReadings).polls 1 = .error .overflow := rfl
  rw [stopped] at finished
  cases finished

end Ease
