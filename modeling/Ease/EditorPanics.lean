import Ease.LineEditorRefinement

/-! When the line editor panics: exactly when one of four events meets bytes that
are not whole characters. -/

namespace Ease

open Runs (Agree)

/-- What the event demands of the bytes that it decodes. ArrowUp, and ArrowDown within
the history, load rows that were decoded when they were submitted. -/
def WholeCharacters (ed : LineEditor) : KeyEvent → Prop
  | .byte ch => ch ≠ ascii.tab → ed.line.len < lineLen → ed.cursor < ed.line.len →
      ValidUtf8 (ch :: ed.line.contents.drop ed.cursor)
  | .special .enter => ValidUtf8 ed.line.contents
  | .special .backspace => 0 < ed.cursor → ValidUtf8 (ed.line.contents.drop ed.cursor)
  | .special .arrowDown => ed.historyIndex = some 0 → ValidUtf8 ed.savedLine.contents
  | .special .esc | .special .arrowUp | .special .arrowRight | .special .arrowLeft => True

namespace Session

variable (s : Session)

theorem typeByte_completes_iff (ch : UInt8) :
    (∃ result, s.typeByte ch = .ok result) ↔
      (ch ≠ ascii.tab → s.text.contents.length < lineLen → s.text.after ≠ [] →
        ValidUtf8 (ch :: s.text.after)) := by
  unfold typeByte
  by_cases tab : ch = ascii.tab
  · simp [tab]
  by_cases room : s.text.contents.length < lineLen
  · by_cases last : s.text.after = []
    · simp [tab, room, last]
    · simp only [tab, room, last, if_false, dif_pos, not_false_eq_true, forall_const, ne_eq]
      rw [← expectUtf8_completes "should be utf-8"]
      cases expectUtf8 "should be utf-8" (ch :: s.text.after) <;> simp
  · simp [tab, room]

theorem submit_completes_iff : (∃ result, s.submit = .ok result) ↔ ValidUtf8 s.text.contents := by
  unfold submit
  split
  · next invalid => simp [fromUtf8_eq_none.mp invalid]
  · next row decoded =>
      have valid : ValidUtf8 s.text.contents := by
        rw [← fromUtf8_eq_some.mp decoded]
        exact strBytes_valid row
      simp [valid]

theorem eraseByte_completes_iff :
    (∃ result, s.eraseByte = .ok result) ↔ (s.text.before ≠ [] → ValidUtf8 s.text.after) := by
  unfold eraseByte
  by_cases start : s.text.before = []
  · simp [start]
  · simp only [start, if_false, ne_eq, not_false_eq_true, forall_const]
    rw [← expectUtf8_completes "should be valid UTF-8"]
    cases expectUtf8 "should be valid UTF-8" s.text.after <;> simp

theorem recallOlder_completes : ∃ result, s.recallOlder = .ok result := by
  unfold recallOlder
  split <;> exact ⟨_, rfl⟩

theorem recallNewer_completes_iff :
    (∃ result, s.recallNewer = .ok result) ↔ (s.browse = some 0 → ValidUtf8 s.saved) := by
  unfold recallNewer
  split
  · next shown => simp [shown]
  · next shown =>
      rw [← expectUtf8_completes "should be UTF-8"]
      cases expectUtf8 "should be UTF-8" s.saved <;> simp [shown]
  · next i shown => simp [shown]

theorem moveRight_completes : ∃ result, s.moveRight = .ok result := by
  unfold moveRight
  split <;> exact ⟨_, rfl⟩

theorem moveLeft_completes : ∃ result, s.moveLeft = .ok result := by
  unfold moveLeft
  split <;> exact ⟨_, rfl⟩

end Session

theorem Shows.drop_cursor {ed : LineEditor} {s : Session} (shows : Shows ed s) :
    ed.line.contents.drop ed.cursor = s.text.after := by
  rw [shows.line.contents_eq, shows.cursor, TwoList.contents, List.drop_left]

theorem process_completes_iff {ed : LineEditor} {s : Session} (shows : Shows ed s)
    (event : KeyEvent) :
    (∃ result, ed.process event = .ok result) ↔ WholeCharacters ed event := by
  rw [(process_agree shows event).completes_iff]
  cases event with
  | byte ch =>
      have before_end : ed.cursor < ed.line.len ↔ s.text.after ≠ [] := by
        rw [shows.cursor, shows.line.len_eq, TwoList.length_contents, ← List.length_pos_iff]
        omega
      rw [WholeCharacters, shows.drop_cursor, before_end, shows.line.len_eq]
      exact s.typeByte_completes_iff ch
  | special key =>
      cases key with
      | enter =>
          rw [WholeCharacters, shows.line.contents_eq]
          exact s.submit_completes_iff
      | backspace =>
          have after_start : 0 < ed.cursor ↔ s.text.before ≠ [] := by
            rw [shows.cursor, List.length_pos_iff]
          rw [WholeCharacters, shows.drop_cursor, after_start]
          exact s.eraseByte_completes_iff
      | arrowDown =>
          rw [WholeCharacters, shows.saved.contents_eq, shows.index]
          exact s.recallNewer_completes_iff
      | esc => exact iff_of_true ⟨_, rfl⟩ trivial
      | arrowUp => exact iff_of_true s.recallOlder_completes trivial
      | arrowRight => exact iff_of_true s.moveRight_completes trivial
      | arrowLeft => exact iff_of_true s.moveLeft_completes trivial

/-- A run does not panic if and only if every event of it meets whole characters in the
state that it comes to. -/
theorem run_never_panics_iff (events : List KeyEvent) :
    (∃ result, Runs.run LineEditor.process .new events = .ok result) ↔
      ∀ front event back, events = front ++ event :: back →
        ∀ ed outputs, Runs.run LineEditor.process .new front = .ok (ed, outputs) →
          WholeCharacters ed event := by
  rw [Runs.run_completes_iff]
  have step_iff : ∀ front ed outputs event,
      Runs.run LineEditor.process .new front = .ok (ed, outputs) →
        ((∃ result, ed.process event = .ok result) ↔ WholeCharacters ed event) := by
    intro front ed outputs event finished
    rcases run_shows finished with ⟨s, _, shows⟩
    exact process_completes_iff shows event
  constructor
  · intro steps front event back split ed outputs finished
    exact (step_iff front ed outputs event finished).mp
      (steps front event back split ed outputs finished)
  · intro whole front event back split ed outputs finished
    exact (step_iff front ed outputs event finished).mpr
      (whole front event back split ed outputs finished)

/-- Typing `é`, erasing it and pressing Enter: one of its two bytes is left. -/
theorem half_character_panics :
    ¬ ∀ events, ∃ result, Runs.run LineEditor.process .new events = .ok result := by
  intro completes
  obtain ⟨result, finished⟩ :=
    completes [.byte 0xC3, .byte 0xA9, .special .backspace, .special .enter]
  have panics : Runs.run LineEditor.process .new
      [.byte 0xC3, .byte 0xA9, .special .backspace, .special .enter] =
        .error (.expectFailed "should only have UTF-8-valid bytes") := rfl
  rw [panics] at finished
  cases finished

end Ease
