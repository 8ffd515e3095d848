import Ease.Keyboard

/-! The wait after an Esc, on a tick counter that wraps. -/

namespace Ease

structure LaterRead where
  byte : Option UInt8
  elapsed : Nat

/-- The counter goes on from `start`, one tick after the other, and wraps. -/
def LaterRead.reading (start : UInt32) (read : LaterRead) : Reading :=
  ⟨read.byte, start + UInt32.ofNat read.elapsed⟩

def pollEscape (start : UInt32) (reads : List LaterRead) :
    Exec (KeyboardInput × Option KeyEvent) :=
  (KeyboardInput.new (⟨some 0x1B, start⟩ :: reads.map (LaterRead.reading start))).poll

/-- The deadline is computed, the time-out (the one way to return right after an empty
read) does not come before ten ticks, and an arrow within them is recognised. -/
structure WaitSafe (start : UInt32) (reads : List LaterRead) : Prop where
  computed : pollEscape start reads ≠ .error .overflow
  notEarly : ∀ used last rest parser event, reads = used ++ last :: rest → last.byte = none →
    pollEscape start reads = .ok (⟨rest.map (LaterRead.reading start), parser⟩, event) →
      10 ≤ last.elapsed
  recognised : ∀ used last rest (direction : Arrow), reads = used ++ last :: rest →
    used.filterMap LaterRead.byte = [0x5B] → last.byte = some direction.final →
    last.elapsed < 10 →
      pollEscape start reads =
        .ok (⟨rest.map (LaterRead.reading start), .new⟩, some (.special direction.key))

namespace KeyboardInput

variable {deadline : Nat} {parser : EscapeParser} {readings : List Reading}
  {after : KeyboardInput} {event : Option KeyEvent}

theorem waitLoop_cases (deadline : Nat) (parser : EscapeParser) (reading : Reading)
    (readings : List Reading) :
    (∃ last event, waitLoop deadline parser (reading :: readings) = .ok (⟨readings, last⟩, event) ∧
      (reading.byte = none → deadline ≤ reading.ticks.toNat)) ∨
    ∃ next, waitLoop deadline parser (reading :: readings) = waitLoop deadline next readings := by
  rw [waitLoop]
  cases present : reading.byte with
  | none =>
      by_cases due : deadline ≤ reading.ticks.toNat
      · exact .inl ⟨_, _, if_pos due, fun _ => due⟩
      · exact .inr ⟨parser, if_neg due⟩
  | some byte =>
      have filled : ∀ {due : Prop}, some byte = none → due :=
        fun empty => absurd empty (Option.some_ne_none byte)
      dsimp only
      rcases parser.parse byte with ⟨result, next⟩
      cases result with
      | byte ch => exact .inl ⟨_, _, rfl, filled⟩
      | special key => exact .inl ⟨_, _, rfl, filled⟩
      | invalidSequence => exact .inl ⟨_, _, rfl, filled⟩
      | pending => exact .inr ⟨_, rfl⟩

/-- The wait returns right after a byte, or after an empty read at its deadline. -/
theorem waitLoop_returns
    (returned : waitLoop deadline parser readings = .ok (after, event)) :
    ∃ used last, readings = used ++ last :: after.reader ∧
      (last.byte = none → deadline ≤ last.ticks.toNat) := by
  induction readings generalizing parser with
  | nil => cases returned
  | cons reading readings ih =>
      rcases waitLoop_cases deadline parser reading readings with ⟨_, _, ended, due⟩ | ⟨_, goes⟩
      · rw [ended] at returned
        cases returned
        exact ⟨[], reading, rfl, due⟩
      · rw [goes] at returned
        rcases ih returned with ⟨used, last, split, due⟩
        exact ⟨reading :: used, last, by rw [split]; rfl, due⟩

theorem waitLoop_fault {fault : Fault}
    (stopped : waitLoop deadline parser readings = .error fault) :
    fault = .unmodelled := by
  induction readings generalizing parser with
  | nil =>
      cases stopped
      rfl
  | cons reading readings ih =>
      rcases waitLoop_cases deadline parser reading readings with ⟨_, _, ended, _⟩ | ⟨_, goes⟩
      · rw [ended] at stopped
        cases stopped
      · rw [goes] at stopped
        exact ih stopped

end KeyboardInput

section

variable {start : UInt32} {reads : List LaterRead}

theorem pollEscape_overflow (wraps : 2 ^ 32 ≤ start.toNat + 10) :
    pollEscape start reads = .error .overflow := by
  rw [pollEscape, KeyboardInput.new, KeyboardInput.poll]
  simp only [EscapeParser.parse_escape]
  rw [usizeAdd, addWithin_overflow wraps, Exec.error_bind]

theorem pollEscape_waits (fits : start.toNat + 10 < 2 ^ 32) :
    pollEscape start reads =
      KeyboardInput.waitLoop (start.toNat + 10) ⟨.gotEscape⟩
        (reads.map (LaterRead.reading start)) := by
  rw [pollEscape, KeyboardInput.new, KeyboardInput.poll]
  simp only [EscapeParser.parse_escape]
  rw [usizeAdd_ok fits, Exec.ok_bind]

theorem ticks_reading (fits : start.toNat + 10 < 2 ^ 32) {read : LaterRead}
    (early : read.elapsed < 10) :
    (read.reading start).ticks.toNat = start.toNat + read.elapsed := by
  rw [LaterRead.reading, UInt32.toNat_add, UInt32.toNat_ofNat']
  omega

theorem early_readings (fits : start.toNat + 10 < 2 ^ 32)
    (early : ∀ read ∈ reads, read.byte = none ∧ read.elapsed < 10) :
    ∀ reading ∈ reads.map (LaterRead.reading start),
      reading.byte = none ∧ reading.ticks.toNat < start.toNat + 10 := by
  intro reading member
  rcases List.mem_map.mp member with ⟨read, inside, rfl⟩
  rcases early read inside with ⟨empty, before⟩
  refine ⟨empty, ?_⟩
  rw [ticks_reading fits before]
  omega

theorem waitSafe_of_fits (fits : start.toNat + 10 < 2 ^ 32)
    (ordered : reads.Pairwise fun first second => first.elapsed ≤ second.elapsed) :
    WaitSafe start reads := by
  constructor
  · intro stopped
    rw [pollEscape_waits fits] at stopped
    cases KeyboardInput.waitLoop_fault stopped
  · intro used last rest parser event split empty returned
    rw [pollEscape_waits fits] at returned
    rcases KeyboardInput.waitLoop_returns returned with ⟨used', last', split', due⟩
    rw [split, List.map_append, List.map_cons] at split'
    rcases List.append_inj' split' rfl with ⟨_, same⟩
    rcases List.cons.inj same with ⟨rfl, _⟩
    by_contra early
    have before := due empty
    rw [ticks_reading fits (Nat.not_le.mp early)] at before
    omega
  · intro used last rest direction split bracket final early
    obtain ⟨gap, opening, pause, rfl, noneBefore, isBracket, noneBetween⟩ :=
      List.filterMap_eq_cons_iff.mp bracket
    rw [List.filterMap_eq_nil_iff] at noneBetween
    have within : ∀ read ∈ gap ++ opening :: pause, read.elapsed < 10 := by
      intro read member
      rw [split, List.pairwise_append] at ordered
      have sooner := ordered.2.2 read member last List.mem_cons_self
      omega
    have before := early_readings fits fun read member =>
      ⟨noneBefore read member, within read (List.mem_append_left _ member)⟩
    have between := early_readings fits fun read member =>
      ⟨noneBetween read member,
        within read (List.mem_append_right _ (List.mem_cons_of_mem _ member))⟩
    rw [pollEscape_waits fits, split, List.append_assoc, List.cons_append]
    simp only [List.map_append, List.map_cons]
    exact KeyboardInput.waitLoop_sequence before isBracket between final

/-- The wait is safe on every later course of the counter, except from the last ten
ticks before it wraps. -/
theorem escape_wait_safe_iff (start : UInt32)
    (ordered : reads.Pairwise fun first second => first.elapsed ≤ second.elapsed) :
    WaitSafe start reads ↔ start.toNat + 10 < 2 ^ 32 := by
  constructor
  · intro safe
    by_contra wraps
    exact safe.computed (pollEscape_overflow (Nat.not_lt.mp wraps))
  · intro fits
    exact waitSafe_of_fits fits ordered

end

theorem escape_wait_safe_sample :
    WaitSafe 0xFFFFFFF5 [⟨none, 3⟩, ⟨some 0x5B, 7⟩, ⟨none, 7⟩, ⟨some 0x41, 7⟩, ⟨none, 12⟩] :=
  (escape_wait_safe_iff 0xFFFFFFF5 (by decide)).mpr (by decide)

/-- All of the arrow is there at once, in the last tick before the counter wraps. -/
theorem escape_wait_unsafe_at_wrap :
    pollEscape 0xFFFFFFFF [⟨some 0x5B, 0⟩, ⟨some 0x41, 0⟩] = .error .overflow ∧
      ¬ WaitSafe 0xFFFFFFFF [⟨some 0x5B, 0⟩, ⟨some 0x41, 0⟩] :=
  ⟨rfl, fun safe => safe.computed rfl⟩

end Ease
