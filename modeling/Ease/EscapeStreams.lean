import Ease.EscapeParser
import Mathlib.Algebra.Order.BigOperators.Group.List
import Mathlib.Algebra.Order.Group.Nat

/-! Streams of bytes through the parser of escape sequences: how many bytes its results
account for, keys after a bare Esc, and control sequences other than the arrows. -/

namespace Ease

namespace EscapeParser

def feed (parser : EscapeParser) : List UInt8 → List ParseResult × EscapeParser
  | [] => ([], parser)
  | byte :: bytes =>
      let (result, next) := parser.parse byte
      let (results, last) := next.feed bytes
      (result :: results, last)

theorem feed_cons (parser : EscapeParser) (byte : UInt8) (bytes : List UInt8) :
    parser.feed (byte :: bytes) =
      ((parser.parse byte).1 :: ((parser.parse byte).2.feed bytes).1,
        ((parser.parse byte).2.feed bytes).2) := rfl

theorem feed_append (parser : EscapeParser) (front back : List UInt8) :
    parser.feed (front ++ back) =
      ((parser.feed front).1 ++ ((parser.feed front).2.feed back).1,
        ((parser.feed front).2.feed back).2) := by
  induction front generalizing parser with
  | nil => rfl
  | cons byte front ih => rw [List.cons_append, feed_cons, feed_cons, ih, List.cons_append]

end EscapeParser

/-- How many bytes a result accounts for. A bare Esc is told from the byte after it. -/
def ParseResult.cost : ParseResult → Nat
  | .byte _ => 1
  | .special .backspace => 1
  | .special .enter => 1
  | .special .esc => 2
  | .special _ => 3
  | .pending => 0
  | .invalidSequence => 0

def totalCost (results : List ParseResult) : Nat := (results.map ParseResult.cost).sum

theorem totalCost_cons (result : ParseResult) (results : List ParseResult) :
    totalCost (result :: results) = result.cost + totalCost results := List.sum_cons

def EscapeState.held : EscapeState → Nat
  | .normal => 0
  | .gotEscape => 1
  | .gotBracket => 2

namespace EscapeParser

theorem parseFinal_cases (byte : UInt8) :
    (∃ direction : Arrow, parseFinal byte = .special direction.key) ∨
      parseFinal byte = .invalidSequence := by
  unfold parseFinal
  split
  · exact .inl ⟨.up, rfl⟩
  split
  · exact .inl ⟨.down, rfl⟩
  split
  · exact .inl ⟨.right, rfl⟩
  split
  · exact .inl ⟨.left, rfl⟩
  · exact .inr rfl

theorem cost_parseFinal (byte : UInt8) : (parseFinal byte).cost ≤ 3 := by
  rcases parseFinal_cases byte with ⟨direction, arrow⟩ | invalid
  · rw [arrow]
    cases direction <;> exact Nat.le_refl 3
  · rw [invalid]
    exact Nat.zero_le 3

theorem cost_parse (parser : EscapeParser) (byte : UInt8) :
    (parser.parse byte).1.cost + (parser.parse byte).2.state.held ≤ parser.state.held + 1 := by
  rcases parser with ⟨state⟩
  cases state with
  | gotBracket => exact cost_parseFinal byte
  | gotEscape =>
      simp only [parse]
      split
      · exact Nat.le_refl 2
      · exact Nat.le_refl 2
  | normal =>
      simp only [parse]
      split
      · exact Nat.le_refl 1
      split
      · exact Nat.le_refl 1
      split
      · exact Nat.le_refl 1
      · exact Nat.le_refl 1

theorem totalCost_feed (parser : EscapeParser) (bytes : List UInt8) :
    totalCost (parser.feed bytes).1 ≤ parser.state.held + bytes.length := by
  induction bytes generalizing parser with
  | nil => exact Nat.zero_le _
  | cons byte bytes ih =>
      have first := cost_parse parser byte
      have rest := ih (parser.parse byte).2
      rw [feed_cons, totalCost_cons, List.length_cons]
      omega

end EscapeParser

def dropPending (results : List ParseResult) : List ParseResult :=
  results.filter fun result => result ≠ .pending

theorem dropPending_append (front back : List ParseResult) :
    dropPending (front ++ back) = dropPending front ++ dropPending back := List.filter_append ..

theorem totalCost_dropPending (results : List ParseResult) :
    totalCost (dropPending results) = totalCost results := by
  induction results with
  | nil => rfl
  | cons result results ih =>
      rw [totalCost_cons, dropPending, List.filter_cons]
      by_cases pending : result = .pending
      · subst pending
        exact ih.trans (Nat.zero_add _).symm
      · rw [if_pos (by simpa using pending), totalCost_cons]
        exact congrArg (result.cost + ·) ih

inductive KeyPress where
  | stroke (key : Keystroke)
  | esc

namespace KeyPress

def encode : KeyPress → List UInt8
  | stroke key => key.encode
  | esc => [0x1B]

def event : KeyPress → KeyEvent
  | stroke key => key.event
  | esc => .special .esc

def results (keys : List KeyPress) : List ParseResult :=
  keys.map fun key => EscapeParser.result key.event

def bytes (keys : List KeyPress) : List UInt8 := keys.flatMap encode

theorem bytes_cons (key : KeyPress) (keys : List KeyPress) :
    bytes (key :: keys) = key.encode ++ bytes keys := List.flatMap_cons ..

theorem results_cons (key : KeyPress) (keys : List KeyPress) :
    results (key :: keys) = EscapeParser.result key.event :: results keys := List.map_cons

theorem cost_stroke (key : Keystroke) :
    (EscapeParser.result key.event).cost = key.encode.length := by
  cases key with
  | arrow direction => cases direction <;> rfl
  | text byte plain => rfl
  | enter => rfl
  | backspaceDel => rfl
  | backspaceBs => rfl

/-- Esc is one byte, and its result needs two. -/
theorem length_lt_cost {keys : List KeyPress} (pressed : .esc ∈ keys) :
    (bytes keys).length < totalCost (results keys) := by
  rw [bytes, List.length_flatMap, totalCost, results, List.map_map]
  apply List.sum_lt_sum
  · intro key _
    cases key with
    | stroke key => exact (cost_stroke key).ge
    | esc => exact Nat.le_succ 1
  · exact ⟨.esc, pressed, Nat.lt_succ_self 1⟩

end KeyPress

namespace EscapeParser

theorem feed_key (key : Keystroke) :
    dropPending (new.feed key.encode).1 = [result key.event] ∧ (new.feed key.encode).2 = new := by
  rcases encode_cases key with ⟨byte, single, _, parsed⟩ | ⟨direction, rfl⟩
  · rw [single, feed_cons, parsed]
    cases key.event <;> exact ⟨rfl, rfl⟩
  · cases direction <;> exact ⟨rfl, rfl⟩

theorem feed_keys {keys : List KeyPress} (noEsc : .esc ∉ keys) :
    dropPending (new.feed (KeyPress.bytes keys)).1 = KeyPress.results keys := by
  induction keys with
  | nil => rfl
  | cons key keys ih =>
      rcases List.ne_and_not_mem_of_not_mem_cons noEsc with ⟨notEsc, later⟩
      cases key with
      | esc => exact absurd rfl notEsc
      | stroke key =>
          rcases feed_key key with ⟨results, last⟩
          rw [KeyPress.bytes_cons, KeyPress.results_cons, KeyPress.encode, feed_append,
            dropPending_append, results, last, ih later]
          rfl

/-- No keystroke is swallowed exactly when the Esc key is not among them: the byte that
tells a bare Esc is never parsed itself. -/
theorem keys_delivered_iff (keys : List KeyPress) :
    dropPending (new.feed (KeyPress.bytes keys)).1 = KeyPress.results keys ↔ .esc ∉ keys := by
  constructor
  · intro delivered pressed
    have accounted := totalCost_feed new (KeyPress.bytes keys)
    have needed := KeyPress.length_lt_cost pressed
    rw [← totalCost_dropPending, delivered] at accounted
    exact absurd accounted (Nat.not_le.mpr (by simpa [new, EscapeState.held] using needed))
  · exact feed_keys

/-- Esc and then `x`: the `x` is swallowed. -/
theorem key_swallowed_after_esc :
    dropPending (new.feed (KeyPress.bytes [.esc, .stroke (.text 0x78 (by decide))])).1 =
        [.special .esc] ∧
      KeyPress.results [.esc, .stroke (.text 0x78 (by decide))] = [.special .esc, .byte 0x78] :=
  ⟨rfl, rfl⟩

end EscapeParser

/-- The parameter bytes, the intermediate bytes and the final byte of a control
sequence. -/
structure ControlSequence where
  params : List UInt8
  intermediates : List UInt8
  final : UInt8
  params_range : ∀ byte ∈ params, 0x30 ≤ byte ∧ byte ≤ 0x3F
  intermediates_range : ∀ byte ∈ intermediates, 0x20 ≤ byte ∧ byte ≤ 0x2F
  final_range : 0x40 ≤ final ∧ final ≤ 0x7E

namespace ControlSequence

def bytes (sequence : ControlSequence) : List UInt8 :=
  0x1B :: 0x5B :: (sequence.params ++ sequence.intermediates ++ [sequence.final])

theorem range (sequence : ControlSequence) :
    ∀ byte ∈ sequence.params ++ sequence.intermediates ++ [sequence.final],
      0x20 ≤ byte ∧ byte ≤ 0x7E := by
  intro byte member
  rcases List.mem_append.mp member with early | last
  · rcases List.mem_append.mp early with param | intermediate
    · rcases sequence.params_range byte param with ⟨low, high⟩
      exact ⟨UInt8.le_trans (by decide) low, UInt8.le_trans high (by decide)⟩
    · rcases sequence.intermediates_range byte intermediate with ⟨low, high⟩
      exact ⟨low, UInt8.le_trans high (by decide)⟩
  · rw [List.mem_singleton.mp last]
    exact ⟨UInt8.le_trans (by decide) sequence.final_range.1, sequence.final_range.2⟩

end ControlSequence

def ParseResult.completes : ParseResult → Bool
  | .special _ => true
  | .invalidSequence => true
  | .byte _ => false
  | .pending => false

namespace EscapeParser

/-- The bytes insert nothing, they give one result at most, and the parser is done with
them. -/
structure NeverText (bytes : List UInt8) : Prop where
  noByte : ∀ ch, .byte ch ∉ (new.feed bytes).1
  oneResult : (new.feed bytes).1.countP ParseResult.completes ≤ 1
  done : (new.feed bytes).2 = new

theorem parse_range {byte : UInt8} (low : 0x20 ≤ byte) (high : byte ≤ 0x7E) :
    new.parse byte = (.byte byte, new) := by
  have apart : ∀ other : UInt8, other < 0x20 ∨ 0x7E < other → byte ≠ other := by
    intro other outside same
    subst same
    rcases outside with below | above
    · exact UInt8.not_lt.mpr low below
    · exact UInt8.not_lt.mpr high above
  simp [parse, new, apart 0x1B (by decide), apart 0x0D (by decide), apart 0x7F (by decide),
    apart 0x08 (by decide)]

theorem feed_range {bytes : List UInt8} (range : ∀ byte ∈ bytes, 0x20 ≤ byte ∧ byte ≤ 0x7E) :
    new.feed bytes = (bytes.map .byte, new) := by
  induction bytes with
  | nil => rfl
  | cons byte bytes ih =>
      have first := range byte List.mem_cons_self
      rw [feed_cons, parse_range first.1 first.2,
        ih fun other member => range other (List.mem_cons_of_mem _ member)]
      rfl

/-- The byte after the bracket ends the sequence, whatever it is. -/
theorem feed_bracket (byte : UInt8) (bytes : List UInt8) :
    new.feed (0x1B :: 0x5B :: byte :: bytes) =
      (.pending :: .pending :: parseFinal byte :: (new.feed bytes).1, (new.feed bytes).2) := rfl

theorem parseFinal_ne_byte (byte ch : UInt8) : parseFinal byte ≠ .byte ch := by
  rcases parseFinal_cases byte with ⟨direction, arrow⟩ | invalid
  · rw [arrow]
    exact nofun
  · rw [invalid]
    exact nofun

/-- A control sequence stays out of the text exactly when nothing stands between the
bracket and its final byte. -/
theorem control_sequence_never_text_iff (sequence : ControlSequence) :
    NeverText sequence.bytes ↔ sequence.params = [] ∧ sequence.intermediates = [] := by
  have range := sequence.range
  rw [ControlSequence.bytes, ← List.append_eq_nil_iff]
  revert range
  generalize sequence.params ++ sequence.intermediates = body
  intro range
  cases body with
  | nil =>
      refine ⟨fun _ => rfl, fun _ => ?_⟩
      rw [List.nil_append]
      constructor
      · intro ch member
        rw [feed_bracket] at member
        simp [feed, (parseFinal_ne_byte sequence.final ch).symm] at member
      · calc (new.feed [0x1B, 0x5B, sequence.final]).1.countP ParseResult.completes
            = [parseFinal sequence.final].countP ParseResult.completes := rfl
          _ ≤ 1 := List.countP_le_length
      · rfl
  | cons byte body =>
      refine ⟨fun never => ?_, nofun⟩
      have rest : ∀ other ∈ body ++ [sequence.final], 0x20 ≤ other ∧ other ≤ 0x7E :=
        fun other member => range other (List.mem_cons_of_mem byte member)
      have text := feed_range rest
      apply absurd _ (never.noByte sequence.final)
      rw [List.cons_append, feed_bracket, text]
      simp

def deleteKey : ControlSequence where
  params := [0x33]
  intermediates := []
  final := 0x7E
  params_range := List.forall_mem_singleton.mpr (by decide)
  intermediates_range := List.forall_mem_nil _
  final_range := by decide

/-- The sequence ends at the `3`, and the `~` is typed. -/
theorem delete_key_types_tilde :
    new.feed deleteKey.bytes = ([.pending, .pending, .invalidSequence, .byte 0x7E], new) ∧
      ¬ NeverText deleteKey.bytes :=
  ⟨rfl, fun never => never.noByte 0x7E (by decide)⟩

end EscapeParser

end Ease
