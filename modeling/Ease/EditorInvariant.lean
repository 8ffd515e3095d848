import Ease.LineEditorRefinement

/-! The representation invariant of the line editor, and what it rules out. -/

namespace Ease

structure RepInvariant (ed : LineEditor) : Prop where
  cursor : ed.cursor ≤ ed.line.len
  line : ed.line.len ≤ lineLen
  history : ed.history.len ≤ historySize
  rows : ∀ i < ed.history.len, ∃ row, ed.history.index i = .ok row ∧ row.len ≤ lineLen
  saved : ed.savedLine.len ≤ lineLen
  index : ∀ i, ed.historyIndex = some i → i < ed.history.len

/-- The calls whose result `process` discards, under the conditions on which it makes
them. -/
structure DiscardedSucceed (ed : LineEditor) : Prop where
  push : ∀ ch, ed.line.isFull = false → ed.cursor = ed.line.len →
    ∃ line, ed.line.push ch = .ok (.ok (), line)
  insert : ∀ ch, ed.line.isFull = false → ed.cursor ≠ ed.line.len →
    ∃ line, ed.line.insert ed.cursor ch = .ok (.ok (), line)
  pop : ed.history.isFull = true → ∃ row history, ed.history.pop = .ok (some row, history)
  archive : ∃ history after, ed.evict = .ok history ∧
    history.insert 0 ed.line = .ok (.ok (), after)

section Shown

variable {ed : LineEditor} {s : Session}

theorem Shows.repInvariant (shows : Shows ed s) : RepInvariant ed where
  cursor := by
    rw [shows.cursor, shows.line.len_eq, TwoList.length_contents]
    exact Nat.le_add_right _ _
  line := shows.line.len_eq.trans_le s.textFits
  history := shows.history.len_eq.trans_le s.historyFits
  rows i below := by
    rw [shows.history.len_eq] at below
    rcases shows.history.index_ok below with ⟨row, found, holds⟩
    refine ⟨row, found, ?_⟩
    rw [holds.len_eq]
    exact s.rowsFit _ (List.getElem_mem below)
  saved := shows.saved.len_eq.trans_le s.savedFits
  index i shown := by
    rw [shows.index] at shown
    rw [shows.history.len_eq]
    exact s.browseBelow i shown

theorem Shows.room (shows : Shows ed s) (notFull : ed.line.isFull = false) :
    s.text.contents.length < lineLen := by
  have fits := s.textFits
  have other : s.text.contents.length ≠ lineLen := by
    intro full
    rw [shows.line.isFull_iff.mpr full] at notFull
    cases notFull
  omega

theorem Shows.discardedSucceed (shows : Shows ed s) : DiscardedSucceed ed where
  push ch notFull _ := by
    rcases shows.line.push_ok ch (shows.room notFull) with ⟨line, pushed, _⟩
    exact ⟨line, pushed⟩
  insert ch notFull _ := by
    have inside : ed.cursor ≤ s.text.contents.length := by
      rw [shows.cursor, TwoList.length_contents]
      exact Nat.le_add_right _ _
    rcases shows.line.insert_ok ch inside (shows.room notFull) with ⟨line, inserted, _⟩
    exact ⟨line, inserted⟩
  pop full := by
    rcases shows.history.pop_ok (shows.history.ne_nil full) with ⟨row, history, popped, _⟩
    exact ⟨row, history, popped⟩
  archive := by
    rcases shows.archive_ok with ⟨history, after, _, evicted, inserted, _⟩
    exact ⟨history, after, evicted, inserted⟩

end Shown

def UndecodedBytes (fault : Fault) : Prop := ∃ message, fault = .expectFailed message

theorem expectUtf8_failsOnly (message : String) (bytes : List UInt8) :
    Exec.FailsOnly UndecodedBytes (expectUtf8 message bytes) := by
  intro fault failed
  unfold expectUtf8 at failed
  split at failed
  · cases failed
  · cases failed
    exact ⟨message, rfl⟩

namespace Session

open Exec (FailsOnly)

variable (s : Session)

theorem typeByte_failsOnly (ch : UInt8) : FailsOnly UndecodedBytes (s.typeByte ch) := by
  unfold typeByte
  split
  · exact .ok _
  split
  · split
    · exact .ok _
    · exact .bind (expectUtf8_failsOnly _ _) fun _ => .ok _
  · exact .ok _

theorem submit_failsOnly : FailsOnly UndecodedBytes s.submit := by
  intro fault failed
  unfold submit at failed
  split at failed
  · cases failed
    exact ⟨_, rfl⟩
  · cases failed

theorem eraseByte_failsOnly : FailsOnly UndecodedBytes s.eraseByte := by
  unfold eraseByte
  split
  · exact .ok _
  · exact .bind (expectUtf8_failsOnly _ _) fun _ => .ok _

theorem recallOlder_failsOnly : FailsOnly UndecodedBytes s.recallOlder := by
  unfold recallOlder
  split
  · exact .ok _
  · exact .ok _

theorem recallNewer_failsOnly : FailsOnly UndecodedBytes s.recallNewer := by
  unfold recallNewer
  split
  · exact .ok _
  · exact .bind (expectUtf8_failsOnly _ _) fun _ => .ok _
  · exact .ok _

theorem moveRight_failsOnly : FailsOnly UndecodedBytes s.moveRight := by
  unfold moveRight
  split
  · exact .ok _
  · exact .ok _

theorem moveLeft_failsOnly : FailsOnly UndecodedBytes s.moveLeft := by
  unfold moveLeft
  split
  · exact .ok _
  · exact .ok _

theorem step_failsOnly (event : KeyEvent) : FailsOnly UndecodedBytes (s.step event) := by
  cases event with
  | byte ch => exact s.typeByte_failsOnly ch
  | special key =>
      cases key with
      | enter => exact s.submit_failsOnly
      | backspace => exact s.eraseByte_failsOnly
      | esc => exact .ok _
      | arrowUp => exact s.recallOlder_failsOnly
      | arrowDown => exact s.recallNewer_failsOnly
      | arrowRight => exact s.moveRight_failsOnly
      | arrowLeft => exact s.moveLeft_failsOnly

end Session

/-- No index, slice, addition or subtraction of `process` fails, and no byte is read that
was never written. -/
theorem Shows.process_failsOnly {ed : LineEditor} {s : Session} (shows : Shows ed s)
    (event : KeyEvent) : Exec.FailsOnly UndecodedBytes (ed.process event) := by
  intro fault failed
  have agree := process_agree shows event
  rw [failed] at agree
  exact s.step_failsOnly event fault agree.of_error

/-- In every state that is reached the invariant holds; hence the next event can only
fail to decode, the discarded results are successes, and a run can end in no other way. -/
theorem line_editor_invariant (events : List KeyEvent) :
    (∀ ed outputs, Runs.run LineEditor.process .new events = .ok (ed, outputs) →
      RepInvariant ed ∧ DiscardedSucceed ed ∧
        ∀ event, Exec.FailsOnly UndecodedBytes (ed.process event)) ∧
    Exec.FailsOnly UndecodedBytes (Runs.run LineEditor.process .new events) := by
  constructor
  · intro ed outputs reached
    rcases run_shows reached with ⟨s, _, shows⟩
    exact ⟨shows.repInvariant, shows.discardedSucceed, shows.process_failsOnly⟩
  · intro fault failed
    rcases Runs.run_eq_error _ failed with ⟨front, event, _, ed, outputs, _, reached, stopped⟩
    rcases run_shows reached with ⟨s, _, shows⟩
    exact shows.process_failsOnly event fault stopped

end Ease
