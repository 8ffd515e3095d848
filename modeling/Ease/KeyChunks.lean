import Ease.Keyboard

/-! What each call to `poll` takes from the serial line, whatever bytes come and whenever:
the readings of one key, of a sequence that no key has, or an empty read. -/

namespace Ease

def singleEvent (byte : UInt8) : KeyEvent :=
  if byte = 0x0D then .special .enter
  else if byte = 0x7F ∨ byte = 0x08 then .special .backspace
  else .byte byte

def EarlyGap (deadline : Nat) (gap : List Reading) : Prop :=
  ∀ reading ∈ gap, reading.byte = none ∧ reading.ticks.toNat < deadline

structure TimesOut (deadline : Nat) (late : Reading) : Prop where
  empty : late.byte = none
  due : deadline ≤ late.ticks.toNat

/-- What follows an Esc, and the event that the wait for it returns. -/
inductive AfterEsc (deadline : Nat) : List Reading → Option KeyEvent → Prop where
  | bare {gap : List Reading} {late : Reading} (early : EarlyGap deadline gap)
      (timeout : TimesOut deadline late) : AfterEsc deadline (gap ++ [late]) (some (.special .esc))
  | other {gap : List Reading} {next : Reading} {byte : UInt8} (early : EarlyGap deadline gap)
      (present : next.byte = some byte) (notBracket : byte ≠ 0x5B) :
      AfterEsc deadline (gap ++ [next]) (some (.special .esc))
  | bracketOnly {gap pause : List Reading} {bracket late : Reading}
      (early : EarlyGap deadline gap) (isBracket : bracket.byte = some 0x5B)
      (between : EarlyGap deadline pause) (timeout : TimesOut deadline late) :
      AfterEsc deadline (gap ++ bracket :: (pause ++ [late])) (some (.special .esc))
  | arrow {gap pause : List Reading} {bracket last : Reading} {direction : Arrow}
      (early : EarlyGap deadline gap) (isBracket : bracket.byte = some 0x5B)
      (between : EarlyGap deadline pause) (isFinal : last.byte = some direction.final) :
      AfterEsc deadline (gap ++ bracket :: (pause ++ [last])) (some (.special direction.key))
  | unknown {gap pause : List Reading} {bracket last : Reading} {byte : UInt8}
      (early : EarlyGap deadline gap) (isBracket : bracket.byte = some 0x5B)
      (between : EarlyGap deadline pause) (present : last.byte = some byte)
      (noArrow : ∀ direction : Arrow, byte ≠ direction.final) :
      AfterEsc deadline (gap ++ bracket :: (pause ++ [last])) none

inductive Starves (deadline : Nat) : List Reading → Prop where
  | gap {gap : List Reading} (early : EarlyGap deadline gap) : Starves deadline gap
  | bracket {gap pause : List Reading} {bracket : Reading} (early : EarlyGap deadline gap)
      (isBracket : bracket.byte = some 0x5B) (between : EarlyGap deadline pause) :
      Starves deadline (gap ++ bracket :: pause)

inductive Takes : List Reading → Option KeyEvent → Prop where
  | idle {reading : Reading} (empty : reading.byte = none) : Takes [reading] none
  | single {reading : Reading} {byte : UInt8} (present : reading.byte = some byte)
      (notEsc : byte ≠ 0x1B) : Takes [reading] (some (singleEvent byte))
  | sequence {esc : Reading} {used : List Reading} {event : Option KeyEvent}
      (escape : esc.byte = some 0x1B) (fits : esc.ticks.toNat + 10 < 2 ^ 32)
      (rest : AfterEsc (esc.ticks.toNat + 10) used event) : Takes (esc :: used) event

inductive Stops : List Reading → Fault → Prop where
  | wraps {esc : Reading} {reader : List Reading} (escape : esc.byte = some 0x1B)
      (late : 2 ^ 32 ≤ esc.ticks.toNat + 10) : Stops (esc :: reader) .overflow
  | starves {esc : Reading} {reader : List Reading} (escape : esc.byte = some 0x1B)
      (fits : esc.ticks.toNat + 10 < 2 ^ 32) (waits : Starves (esc.ticks.toNat + 10) reader) :
      Stops (esc :: reader) .unmodelled

/-- So many polls: the readings are cut into what each poll takes, one after the other,
until they are all taken or a poll does not return. -/
inductive Tokenises (readings : List Reading) (count : Nat) :
    Exec (KeyboardInput × List (Option KeyEvent)) → Prop where
  | returns {chunks : List (List Reading)} {events : List (Option KeyEvent)}
      {rest : List Reading} (split : readings = chunks.flatten ++ rest)
      (taken : List.Forall₂ Takes chunks events) (few : events.length ≤ count)
      (enough : events.length < count → rest = []) :
      Tokenises readings count
        (.ok (.new rest, events ++ List.replicate (count - events.length) none))
  | stops {chunks : List (List Reading)} {events : List (Option KeyEvent)} {tail : List Reading}
      {fault : Fault} (split : readings = chunks.flatten ++ tail)
      (taken : List.Forall₂ Takes chunks events) (few : events.length < count)
      (stop : Stops tail fault) : Tokenises readings count (.error fault)

section

variable {deadline count : Nat} {readings reader used rest : List Reading} {reading : Reading}
  {event : Option KeyEvent} {fault : Fault}

namespace EscapeParser

theorem parse_single {byte : UInt8} (notEsc : byte ≠ 0x1B) :
    new.parse byte = (result (singleEvent byte), new) := by
  rw [parse, singleEvent, new]
  dsimp only
  rw [if_neg notEsc]
  by_cases enter : byte = 0x0D
  · rw [if_pos enter, if_pos enter]
    rfl
  · rw [if_neg enter, if_neg enter]
    by_cases backspace : byte = 0x7F ∨ byte = 0x08
    · rw [if_pos backspace, if_pos backspace]
      rfl
    · rw [if_neg backspace, if_neg backspace]
      rfl

theorem parse_other {byte : UInt8} (notBracket : byte ≠ 0x5B) :
    (⟨.gotEscape⟩ : EscapeParser).parse byte = (.special .esc, new) := by
  rw [parse]
  dsimp only
  rw [if_neg notBracket]
  rfl

theorem parse_unknown {byte : UInt8} (noArrow : ∀ direction : Arrow, byte ≠ direction.final) :
    (⟨.gotBracket⟩ : EscapeParser).parse byte = (.invalidSequence, new) := by
  have up : byte ≠ 0x41 := noArrow .up
  have down : byte ≠ 0x42 := noArrow .down
  have right : byte ≠ 0x43 := noArrow .right
  have left : byte ≠ 0x44 := noArrow .left
  rw [parse]
  dsimp only
  rw [parseFinal, if_neg up, if_neg down, if_neg right, if_neg left]
  rfl

end EscapeParser

namespace KeyboardInput

theorem waitLoop_late {parser : EscapeParser} {late : Reading} (timeout : TimesOut deadline late) :
    waitLoop deadline parser (late :: reader) = .ok (⟨reader, .new⟩, some (.special .esc)) := by
  rw [waitLoop, timeout.empty]
  exact if_pos timeout.due

theorem waitLoop_bracket {gap : List Reading} {bracket : Reading}
    (early : EarlyGap deadline gap) (isBracket : bracket.byte = some 0x5B) :
    waitLoop deadline ⟨.gotEscape⟩ (gap ++ bracket :: reader) =
      waitLoop deadline ⟨.gotBracket⟩ reader := by
  rw [waitLoop_gap early, waitLoop, isBracket]
  rfl

theorem waitLoop_afterEsc (after : AfterEsc deadline used event) (rest : List Reading) :
    waitLoop deadline ⟨.gotEscape⟩ (used ++ rest) = .ok (⟨rest, .new⟩, event) := by
  cases after with
  | bare early timeout =>
      rw [List.append_assoc, waitLoop_gap early]
      exact waitLoop_late timeout
  | other early present notBracket =>
      rw [List.append_assoc, waitLoop_gap early, List.singleton_append, waitLoop, present]
      simp only [EscapeParser.parse_other notBracket]
  | bracketOnly early isBracket between timeout =>
      rw [List.append_assoc, List.cons_append, waitLoop_bracket early isBracket,
        List.append_assoc, waitLoop_gap between]
      exact waitLoop_late timeout
  | arrow early isBracket between isFinal =>
      rw [List.append_assoc, List.cons_append, List.append_assoc]
      exact waitLoop_sequence early isBracket between isFinal
  | unknown early isBracket between present noArrow =>
      rw [List.append_assoc, List.cons_append, waitLoop_bracket early isBracket,
        List.append_assoc, waitLoop_gap between, List.singleton_append, waitLoop, present]
      simp only [EscapeParser.parse_unknown noArrow]

theorem waitLoop_starves (waits : Starves deadline reader) :
    waitLoop deadline ⟨.gotEscape⟩ reader = .error .unmodelled := by
  cases waits with
  | gap early =>
      rw [← List.append_nil reader, waitLoop_gap early]
      rfl
  | @bracket gap pause bracket early isBracket between =>
      rw [waitLoop_bracket early isBracket, ← List.append_nil pause, waitLoop_gap between]
      rfl

theorem poll_takes (takes : Takes used event) (rest : List Reading) :
    (new (used ++ rest)).poll = .ok (new rest, event) := by
  cases takes with
  | idle empty => simp only [new, List.singleton_append, poll, empty]
  | @single reading byte present notEsc =>
      simp only [new, List.singleton_append, poll, present, EscapeParser.parse_single notEsc]
      cases singleEvent byte <;> rfl
  | sequence escape fits after =>
      simp only [new, List.cons_append, poll, escape, EscapeParser.parse_escape]
      rw [usizeAdd_ok fits, Exec.ok_bind, waitLoop_afterEsc after]

theorem poll_stops (stop : Stops reader fault) : (new reader).poll = .error fault := by
  cases stop with
  | wraps escape late =>
      simp only [new, poll, escape, EscapeParser.parse_escape]
      rw [usizeAdd, addWithin_overflow late, Exec.error_bind]
  | starves escape fits waits =>
      simp only [new, poll, escape, EscapeParser.parse_escape]
      rw [usizeAdd_ok fits, Exec.ok_bind, waitLoop_starves waits]

end KeyboardInput

theorem singleEvent_byte {byte ch : UInt8} (same : singleEvent byte = .byte ch) : byte = ch := by
  rw [singleEvent] at same
  split at same
  · cases same
  · split at same
    · cases same
    · exact KeyEvent.byte.inj same

theorem Takes.byte_mem {ch : UInt8} (takes : Takes used (some (.byte ch))) : ch ∈ bytesOf used := by
  generalize same : (some (KeyEvent.byte ch)) = event at takes
  cases takes with
  | idle empty => cases same
  | single present notEsc =>
      have taken := singleEvent_byte (Option.some.inj same).symm
      rw [bytesOf_cons_some present, taken]
      exact List.mem_cons_self
  | sequence escape fits after =>
      cases after with
      | bare | other | bracketOnly | unknown => cases same
      | @arrow _ _ _ _ direction => cases direction <;> cases same

theorem earlyGap_split (deadline : Nat) (readings : List Reading) :
    EarlyGap deadline readings ∨ ∃ gap next rest, readings = gap ++ next :: rest ∧
      EarlyGap deadline gap ∧ (TimesOut deadline next ∨ ∃ byte, next.byte = some byte) := by
  induction readings with
  | nil => exact .inl (by simp [EarlyGap])
  | cons reading readings ih =>
      cases present : reading.byte with
      | some byte =>
          exact .inr ⟨[], reading, readings, rfl, by simp [EarlyGap], .inr ⟨byte, present⟩⟩
      | none =>
          rcases Nat.lt_or_ge reading.ticks.toNat deadline with before | due
          · have early : ∀ {gap}, EarlyGap deadline gap → EarlyGap deadline (reading :: gap) :=
              fun others => List.forall_mem_cons.mpr ⟨⟨present, before⟩, others⟩
            rcases ih with all | ⟨gap, next, rest, rfl, some, ends⟩
            · exact .inl (early all)
            · exact .inr ⟨reading :: gap, next, rest, rfl, early some, ends⟩
          · exact .inr ⟨[], reading, readings, rfl, by simp [EarlyGap], .inl ⟨present, due⟩⟩

theorem afterBracket_or_starves {gap : List Reading} {bracket : Reading}
    (early : EarlyGap deadline gap) (isBracket : bracket.byte = some 0x5B)
    (readings : List Reading) :
    (∃ used rest event, readings = used ++ rest ∧
      AfterEsc deadline (gap ++ bracket :: used) event) ∨
    Starves deadline (gap ++ bracket :: readings) := by
  rcases earlyGap_split deadline readings with all | ⟨pause, last, rest, rfl, between, ends⟩
  · exact .inr (.bracket early isBracket all)
  · left
    rcases ends with timeout | ⟨byte, present⟩
    · exact ⟨pause ++ [last], rest, _, by simp, .bracketOnly early isBracket between timeout⟩
    · by_cases final : ∃ direction : Arrow, byte = direction.final
      · rcases final with ⟨direction, rfl⟩
        exact ⟨pause ++ [last], rest, _, by simp, .arrow early isBracket between present⟩
      · exact ⟨pause ++ [last], rest, _, by simp,
          .unknown early isBracket between present (not_exists.mp final)⟩

theorem afterEsc_or_starves (deadline : Nat) (readings : List Reading) :
    (∃ used rest event, readings = used ++ rest ∧ AfterEsc deadline used event) ∨
      Starves deadline readings := by
  rcases earlyGap_split deadline readings with all | ⟨gap, next, rest, rfl, early, ends⟩
  · exact .inr (.gap all)
  · rcases ends with timeout | ⟨byte, present⟩
    · exact .inl ⟨gap ++ [next], rest, _, by simp, .bare early timeout⟩
    · by_cases isBracket : byte = 0x5B
      · subst isBracket
        rcases afterBracket_or_starves early present rest with
          ⟨used, later, event, rfl, after⟩ | waits
        · exact .inl ⟨gap ++ next :: used, later, event, by simp, after⟩
        · exact .inr waits
      · exact .inl ⟨gap ++ [next], rest, _, by simp, .other early present isBracket⟩

/-- Whatever there is to read, a poll takes a first part of it or does not return. -/
theorem takes_or_stops (reading : Reading) (reader : List Reading) :
    (∃ used rest event, reading :: reader = used ++ rest ∧ Takes used event) ∨
      ∃ fault, Stops (reading :: reader) fault := by
  cases present : reading.byte with
  | none => exact .inl ⟨[reading], reader, none, rfl, .idle present⟩
  | some byte =>
      by_cases escape : byte = 0x1B
      · subst escape
        rcases Nat.lt_or_ge (reading.ticks.toNat + 10) (2 ^ 32) with fits | late
        · rcases afterEsc_or_starves (reading.ticks.toNat + 10) reader with
            ⟨used, rest, event, rfl, after⟩ | waits
          · exact .inl ⟨reading :: used, rest, event, rfl, .sequence present fits after⟩
          · exact .inr ⟨_, .starves present fits waits⟩
        · exact .inr ⟨_, .wraps present late⟩
      · exact .inl ⟨[reading], reader, _, rfl, .single present escape⟩

namespace KeyboardInput

theorem polls_cons {keyboard after : KeyboardInput} (polled : keyboard.poll = .ok (after, event))
    (count : Nat) :
    keyboard.polls (count + 1) =
      (after.polls count).map fun result => (result.1, event :: result.2) :=
  Runs.run_cons_ok _ polled (List.replicate count ())

theorem polls_stop {keyboard : KeyboardInput} (stopped : keyboard.poll = .error fault)
    (count : Nat) : keyboard.polls (count + 1) = .error fault :=
  Runs.run_cons_error _ stopped (List.replicate count ())

theorem polls_exhausted (count : Nat) :
    (new []).polls count = .ok (new [], List.replicate count none) := by
  induction count with
  | zero => rfl
  | succ count ih =>
      rw [polls_cons (rfl : (new []).poll = .ok (new [], none)), ih]
      rfl

theorem polls_chunks {chunks : List (List Reading)} {events : List (Option KeyEvent)}
    (taken : List.Forall₂ Takes chunks events) (rest : List Reading) (more : Nat) :
    (new (chunks.flatten ++ rest)).polls (events.length + more) =
      ((new rest).polls more).map fun result => (result.1, events ++ result.2) := by
  induction taken with
  | nil =>
      rw [List.length_nil, Nat.zero_add]
      have unchanged : (new rest).polls more =
          ((new rest).polls more).map fun result => (result.1, [] ++ result.2) := by
        cases (new rest).polls more <;> rfl
      exact unchanged
  | @cons used event chunks events takes taken ih =>
      have next : events.length + 1 + more = events.length + more + 1 := by omega
      rw [List.length_cons, next, List.flatten_cons, List.append_assoc,
        polls_cons (poll_takes takes (chunks.flatten ++ rest)), ih]
      cases (new rest).polls more <;> rfl

end KeyboardInput

/-- There is one way to cut the readings, and the polls go that way. -/
theorem Tokenises.polls {outcome : Exec (KeyboardInput × List (Option KeyEvent))}
    (tokenises : Tokenises readings count outcome) :
    (KeyboardInput.new readings).polls count = outcome := by
  cases tokenises with
  | @returns chunks events rest split taken few enough =>
      have counted : count = events.length + (count - events.length) := by omega
      rw [split, counted, KeyboardInput.polls_chunks taken, Nat.add_sub_cancel_left]
      rcases Nat.eq_zero_or_pos (count - events.length) with none | some
      · rw [none]
        rfl
      · rw [enough (by omega), KeyboardInput.polls_exhausted]
        rfl
  | @stops chunks events tail fault split taken few stop =>
      have counted : count = events.length + (count - events.length - 1 + 1) := by omega
      rw [split, counted, KeyboardInput.polls_chunks taken,
        KeyboardInput.polls_stop (KeyboardInput.poll_stops stop)]
      rfl

theorem Tokenises.cons {outcome : Exec (KeyboardInput × List (Option KeyEvent))}
    (takes : Takes used event) (later : Tokenises reader count outcome) :
    ∃ whole, Tokenises (used ++ reader) (count + 1) whole := by
  cases later with
  | @returns chunks events rest split taken few enough =>
      refine ⟨_, .returns ?_ (.cons takes taken) (Nat.succ_le_succ few) fun short =>
        enough (Nat.lt_of_succ_lt_succ short)⟩
      rw [split, List.flatten_cons, List.append_assoc]
  | @stops chunks events tail fault split taken few stop =>
      refine ⟨_, .stops ?_ (.cons takes taken) (Nat.succ_lt_succ few) stop⟩
      rw [split, List.flatten_cons, List.append_assoc]

theorem tokenises_total (readings : List Reading) (count : Nat) :
    ∃ outcome, Tokenises readings count outcome := by
  induction count generalizing readings with
  | zero =>
      exact ⟨_, .returns (List.nil_append _).symm .nil (Nat.le_refl 0) fun short =>
        absurd short (Nat.lt_irrefl 0)⟩
  | succ count ih =>
      cases readings with
      | nil => exact ⟨_, .returns (List.append_nil _).symm .nil (Nat.zero_le _) fun _ => rfl⟩
      | cons reading reader =>
          rcases takes_or_stops reading reader with
            ⟨used, rest, event, split, takes⟩ | ⟨fault, stop⟩
          · rcases ih rest with ⟨outcome, later⟩
            rw [split]
            exact later.cons takes
          · exact ⟨_, .stops (List.nil_append _).symm .nil (Nat.succ_pos count) stop⟩

theorem KeyboardInput.polls_tokenise (readings : List Reading) (count : Nat) :
    Tokenises readings count ((new readings).polls count) := by
  rcases tokenises_total readings count with ⟨outcome, tokenises⟩
  rw [tokenises.polls]
  exact tokenises

/-- Any readings at all: the polls cut them into chunks, each reading in one chunk and each
chunk one event, and stop only where the deadline wraps or the readings end inside a
sequence. -/
theorem keyboard_tokenises (readings : List Reading) (count : Nat)
    (outcome : Exec (KeyboardInput × List (Option KeyEvent))) :
    (KeyboardInput.new readings).polls count = outcome ↔ Tokenises readings count outcome := by
  constructor
  · intro polled
    rw [← polled]
    exact KeyboardInput.polls_tokenise readings count
  · exact Tokenises.polls

end

end Ease
