import Ease.LineEditorRefinement

/-! The history of the line editor over whole runs: what it holds, what browsing
loads and restores, and how many characters a redraw blanks. -/

namespace Ease

open Runs (Occurs run)

def LineDisplayAction.blanked : LineDisplayAction → Option Nat
  | .redrawLine _ n => some n
  | .clearLine n => some n
  | _ => Option.none

def BlanksOldLine (before : LineEditor) (action : LineDisplayAction) : Prop :=
  ∀ n, action.blanked = some n → n = before.line.len

/-- ArrowUp away from a recalled row that is not the oldest finds the line still as long
as that row. -/
def RecalledLengthKept (ed : LineEditor) (event : KeyEvent) : Prop :=
  event = .special .arrowUp → ∀ i, ed.historyIndex = some i → i + 1 < ed.history.len →
    ∀ row, ed.history.index i = .ok row → row.len = ed.line.len

theorem Session.Acts.blanked_iff {s t : Session} {event : KeyEvent} {result : KeyResult}
    (acts : s.Acts event t result) :
    (∀ n, result.2.blanked = some n → n = s.text.contents.length) ↔
      (event = .special .arrowUp → s.olderIndex < s.history.length →
        s.recalledLength = s.text.contents.length) := by
  cases acts with
  | noOlder oldest => simp [LineDisplayAction.blanked, Nat.not_lt.mpr oldest]
  | older row loaded =>
      have below : s.olderIndex < s.history.length := (List.getElem?_eq_some_iff.mp loaded).1
      simp [LineDisplayAction.blanked, below]
  | _ => simp [LineDisplayAction.blanked]

theorem Shows.recalled_iff {ed : LineEditor} {s : Session} (shows : Shows ed s)
    (event : KeyEvent) :
    RecalledLengthKept ed event ↔
      (event = .special .arrowUp → s.olderIndex < s.history.length →
        s.recalledLength = s.text.contents.length) := by
  unfold RecalledLengthKept
  rw [shows.index, shows.history.len_eq, shows.line.len_eq]
  apply imp_congr_right
  intro _
  unfold Session.recalledLength Session.olderIndex
  cases browse : s.browse with
  | none => simp
  | some i =>
      have below := s.browseBelow i browse
      rcases shows.history.index_ok below with ⟨row, found, holds⟩
      simp [found, holds.len_eq, List.getElem?_eq_getElem below]

theorem process_blanks_iff {events : List KeyEvent} {before after : LineEditor}
    {outputs : List KeyResult} {event : KeyEvent} {result : KeyResult}
    (finished : run LineEditor.process .new events = .ok (before, outputs))
    (stepped : before.process event = .ok (after, result)) :
    BlanksOldLine before result.2 ↔ RecalledLengthKept before event := by
  rcases run_shows finished with ⟨s, _, shows⟩
  rcases process_acts shows stepped with ⟨t, acts, _⟩
  rw [BlanksOldLine, shows.recalled_iff, shows.line.len_eq]
  exact acts.blanked_iff

/-- Every redraw of a run blanks the old line if and only if every ArrowUp of it leaves a
recalled row with the row's length. -/
theorem run_blanks_old_line_iff (events : List KeyEvent) :
    (∀ before event after result,
        Occurs LineEditor.process .new events before event after result →
          BlanksOldLine before result.2) ↔
      ∀ before event after result,
        Occurs LineEditor.process .new events before event after result →
          RecalledLengthKept before event := by
  have pointwise : ∀ before event after result,
      Occurs LineEditor.process .new events before event after result →
        (BlanksOldLine before result.2 ↔ RecalledLengthKept before event) := by
    intro before event after result occurs
    rcases occurs.reached with ⟨front, back, outputs, _, finished⟩
    exact process_blanks_iff finished occurs.stepped
  constructor
  · intro blanks before event after result occurs
    exact (pointwise _ _ _ _ occurs).mp (blanks _ _ _ _ occurs)
  · intro kept before event after result occurs
    exact (pointwise _ _ _ _ occurs).mpr (kept _ _ _ _ occurs)

/-- Submit `a`, then `b`; recall `b`, add `x`, and press ArrowUp: one character is
blanked of the two shown. -/
theorem edited_row_underblanked :
    ¬ ∀ events before event after result,
      Occurs LineEditor.process .new events before event after result →
        BlanksOldLine before result.2 := by
  intro blanks
  have occurs : ∃ before after result, Occurs LineEditor.process .new
      [.byte 0x61, .special .enter, .byte 0x62, .special .enter, .special .arrowUp,
        .byte 0x78, .special .arrowUp] before (.special .arrowUp) after result ∧
      result.2.blanked = some 1 ∧ before.line.len = 2 := by
    refine ⟨_, _, _, ⟨⟨[.byte 0x61, .special .enter, .byte 0x62, .special .enter,
      .special .arrowUp, .byte 0x78], [], _, rfl, rfl⟩, rfl⟩, rfl, rfl⟩
  rcases occurs with ⟨before, after, result, step, one, two⟩
  have same := blanks _ _ _ _ _ step 1 one
  rw [two] at same
  cases same

def submitted (outputs : List KeyResult) : List String := (outputs.filterMap Prod.fst).reverse

theorem submitted_snoc (outputs : List KeyResult) (result : KeyResult) :
    submitted (outputs ++ [result]) = result.1.toList ++ submitted outputs := by
  rcases result with ⟨line, action⟩
  cases line <;> simp [submitted]

namespace Session

theorem Acts.history_eq {s t : Session} {event : KeyEvent} {result : KeyResult}
    (acts : s.Acts event t result) :
    t.history = (result.1.toList ++ s.history).take historySize := by
  have whole := List.take_of_length_le s.historyFits
  cases acts with
  | submitted row bytes t text saved browse history => exact history
  | abandoned t text saved browse history => rw [history]; exact whole.symm
  | older row loaded t text saved browse history => rw [history]; exact whole.symm
  | restored first line bytes t text saved browse history => rw [history]; exact whole.symm
  | newer i later row loaded t text saved browse history => rw [history]; exact whole.symm
  | _ => exact whole.symm

/-- While browsing, either the browse goes on with the same line set aside, or this
ArrowUp started it and set the edited line aside. -/
theorem Acts.browsing {s t : Session} {event : KeyEvent} {result : KeyResult}
    (acts : s.Acts event t result) (browsing : t.browse ≠ none) :
    s.browse ≠ none ∧ t.saved = s.saved ∨
      s.browse = none ∧ event = .special .arrowUp ∧ t.saved = s.text.contents := by
  cases acts with
  | submitted row bytes t text saved browse history => exact absurd browse browsing
  | abandoned t text saved browse history => exact absurd browse browsing
  | restored first line bytes t text saved browse history => exact absurd browse browsing
  | older row loaded t text saved browse history =>
      cases before : s.browse with
      | none =>
          rw [before] at saved
          exact .inr ⟨rfl, rfl, saved⟩
      | some i =>
          rw [before] at saved
          exact .inl ⟨by simp, saved⟩
  | newer i later row loaded t text saved browse history =>
      exact .inl ⟨by rw [later]; simp, saved⟩
  | _ => exact .inl ⟨browsing, rfl⟩

theorem run_history {events : List KeyEvent} {s : Session} {outputs : List KeyResult}
    (finished : run step .new events = .ok (s, outputs)) :
    s.history = (submitted outputs).take historySize := by
  induction events using List.reverseRecOn generalizing s outputs with
  | nil => cases finished; rfl
  | append_singleton events event ih =>
      rcases (Runs.run_snoc_eq_ok step).mp finished with ⟨m, first, result, start, last, rfl⟩
      rw [(step_acts last).history_eq, ih start, submitted_snoc]
      cases result.1 with
      | none => simp
      | some row => simp [historySize, List.take_take]

def BrowseStart (events : List KeyEvent) (start : Session) : Prop :=
  ∃ front back outputs, events = front ++ .special .arrowUp :: back ∧
    run step .new front = .ok (start, outputs) ∧ start.browse = none ∧
    ∀ middle rest s outputs, back = middle ++ rest →
      run step .new (front ++ .special .arrowUp :: middle) = .ok (s, outputs) → s.browse ≠ none

theorem browseStart_snoc {events : List KeyEvent} {event : KeyEvent} {start s : Session}
    {outputs : List KeyResult} (begun : BrowseStart events start)
    (finished : run step .new (events ++ [event]) = .ok (s, outputs)) (browsing : s.browse ≠ none) :
    BrowseStart (events ++ [event]) start := by
  rcases begun with ⟨front, back, first, rfl, reached, none, since⟩
  refine ⟨front, back ++ [event], first, by simp, reached, none, ?_⟩
  intro middle rest m outs split other
  rcases List.eq_nil_or_concat rest with rfl | ⟨rest, last, rfl⟩
  · rw [List.append_nil] at split
    rw [← split, ← List.cons_append, ← List.append_assoc, finished] at other
    cases other
    exact browsing
  · rw [List.concat_eq_append, ← List.append_assoc] at split
    exact since middle rest m outs (List.append_inj_left' split rfl) other

theorem run_browse {events : List KeyEvent} {s : Session} {outputs : List KeyResult}
    (finished : run step .new events = .ok (s, outputs)) (browsing : s.browse ≠ none) :
    ∃ start, BrowseStart events start ∧ s.saved = start.text.contents := by
  induction events using List.reverseRecOn generalizing s outputs with
  | nil =>
      cases finished
      exact absurd rfl browsing
  | append_singleton events event ih =>
      rcases (Runs.run_snoc_eq_ok step).mp finished with ⟨m, first, result, reached, last, rfl⟩
      rcases (step_acts last).browsing browsing with ⟨before, saved⟩ | ⟨before, rfl, saved⟩
      · rcases ih reached before with ⟨start, begun, line⟩
        exact ⟨start, browseStart_snoc begun finished browsing, saved.trans line⟩
      · refine ⟨m, ⟨events, [], first, rfl, reached, before, ?_⟩, saved⟩
        intro middle rest other outs split again
        have empty : middle = [] := (List.append_eq_nil_iff.mp split.symm).1
        rw [empty, finished] at again
        cases again
        exact browsing

end Session

/-- The history holds the newest lines, each with its bytes as submitted. -/
def KeepsNewest (ed : LineEditor) (lines : List String) : Prop :=
  ∃ rows, ed.history.asSlice = .ok rows ∧
    rows.map Vec.asSlice = (lines.take historySize).map fun line => .ok (strBytes line)

def SubmitsOnEnter (ed : LineEditor) : Prop :=
  ∀ event after result, ed.process event = .ok (after, result) →
    (event ≠ .special .enter → after.history = ed.history ∧ result.1 = none) ∧
    (event = .special .enter → ∃ line, result.1 = some line ∧ ed.line.asSlice = .ok (strBytes line))

def LoadsOlder (ed : LineEditor) (lines : List String) : Prop :=
  ∀ after result, ed.process (.special .arrowUp) = .ok (after, result) → result.2 ≠ .bell →
    ∃ line, lines[(ed.historyIndex.elim 0 (· + 1))]? = some line ∧
      after.line.asSlice = .ok (strBytes line)

/-- The ArrowUp that started the present browse found the editor in the state `start`. -/
def BrowseStart (events : List KeyEvent) (start : LineEditor) : Prop :=
  ∃ front back outputs, events = front ++ .special .arrowUp :: back ∧
    run LineEditor.process .new front = .ok (start, outputs) ∧ start.historyIndex = none ∧
    ∀ middle rest ed outputs, back = middle ++ rest →
      run LineEditor.process .new (front ++ .special .arrowUp :: middle) = .ok (ed, outputs) →
        ed.historyIndex ≠ none

def RestoresLine (events : List KeyEvent) (ed : LineEditor) : Prop :=
  ed.historyIndex = some 0 →
    ∀ after result, ed.process (.special .arrowDown) = .ok (after, result) →
      after.historyIndex = none ∧ after.cursor = after.line.len ∧
        ∃ start bytes, BrowseStart events start ∧ start.line.asSlice = .ok bytes ∧
          after.line.asSlice = .ok bytes

theorem map_asSlice {vecs : List (Vec UInt8 lineLen)} {rows : List String}
    (inner : List.Forall₂ (fun vec row => vec.Holds (strBytes row)) vecs rows) :
    vecs.map Vec.asSlice = rows.map fun row => .ok (strBytes row) := by
  induction inner with
  | nil => rfl
  | cons row rows ih => rw [List.map_cons, List.map_cons, ih, row.asSlice_ok]

section

variable {ed : LineEditor} {s : Session}

theorem Shows.keepsNewest (shows : Shows ed s) {lines : List String}
    (newest : s.history = lines.take historySize) : KeepsNewest ed lines := by
  rcases shows.history with ⟨rows, outer, inner⟩
  refine ⟨rows, outer.asSlice_ok, ?_⟩
  rw [map_asSlice inner, newest]

theorem Shows.submitsOnEnter (shows : Shows ed s) : SubmitsOnEnter ed := by
  intro event after result stepped
  refine ⟨LineEditor.process_history stepped, ?_⟩
  intro same
  subst same
  rcases process_acts shows stepped with ⟨t, acts, _⟩
  cases acts with
  | submitted row bytes t text saved browse history =>
      exact ⟨row, rfl, by rw [bytes, shows.line.asSlice_ok]⟩

theorem Shows.loadsOlder (shows : Shows ed s) {lines : List String}
    (newest : s.history = lines.take historySize) : LoadsOlder ed lines := by
  intro after result stepped quiet
  rcases process_acts shows stepped with ⟨t, acts, shown⟩
  cases acts with
  | noOlder oldest => exact absurd rfl quiet
  | older row loaded t text saved browse history =>
      refine ⟨row, ?_, ?_⟩
      · have index : ed.historyIndex.elim 0 (· + 1) = s.olderIndex := by
          rw [shows.index, Session.olderIndex]
          cases s.browse <;> rfl
        rw [newest, List.getElem?_take] at loaded
        split at loaded
        · rw [index]
          exact loaded
        · cases loaded
      · rw [shown.line.asSlice_ok, text, TwoList.contents_atEnd]

theorem Session.BrowseStart.shown {events : List KeyEvent} {start : Session}
    (begun : Session.BrowseStart events start) :
    ∃ ed, Ease.BrowseStart events ed ∧ Shows ed start := by
  rcases begun with ⟨front, back, outputs, split, reached, none, since⟩
  rcases run_shown reached with ⟨ed, finished, shows⟩
  refine ⟨ed, ⟨front, back, outputs, split, finished, shows.index.trans none, ?_⟩, shows⟩
  intro middle rest other outs cut again
  rcases run_shows again with ⟨t, session, shown⟩
  rw [shown.index]
  exact since middle rest t outs cut session

theorem Shows.restoresLine (shows : Shows ed s) {events : List KeyEvent}
    {outputs : List KeyResult} (finished : run Session.step .new events = .ok (s, outputs)) :
    RestoresLine events ed := by
  intro first after result stepped
  rw [shows.index] at first
  rcases Session.run_browse finished (by rw [first]; simp) with ⟨start, begun, line⟩
  rcases begun.shown with ⟨before, started, shown⟩
  rcases process_acts shows stepped with ⟨t, acts, restored⟩
  cases acts with
  | notBrowsing browse => rw [browse] at first; cases first
  | newer i later row loaded t text saved browse history => rw [later] at first; cases first
  | restored _ decoded bytes t text saved browse history =>
      refine ⟨restored.index.trans browse, ?_, before, _, started, shown.line.asSlice_ok, ?_⟩
      · rw [restored.cursor, restored.line.len_eq, text]
        simp
      · rw [restored.line.asSlice_ok, text, TwoList.contents_atEnd, line]

end

/-- The history after any run, and what browsing it loads and restores. -/
theorem history_over_runs (events : List KeyEvent) (ed : LineEditor) (outputs : List KeyResult)
    (finished : run LineEditor.process .new events = .ok (ed, outputs)) :
    KeepsNewest ed (submitted outputs) ∧ SubmitsOnEnter ed ∧
      LoadsOlder ed (submitted outputs) ∧ RestoresLine events ed := by
  rcases run_shows finished with ⟨s, session, shows⟩
  have newest := Session.run_history session
  exact ⟨shows.keepsNewest newest, shows.submitsOnEnter, shows.loadsOlder newest,
    shows.restoresLine session⟩

theorem history_over_edited_browse :
    ∃ ed outputs, run LineEditor.process .new
        [.byte 0x61, .special .enter, .byte 0x62, .special .arrowUp, .byte 0x63] =
          .ok (ed, outputs) ∧
      KeepsNewest ed (submitted outputs) ∧ SubmitsOnEnter ed ∧
      LoadsOlder ed (submitted outputs) ∧
      RestoresLine [.byte 0x61, .special .enter, .byte 0x62, .special .arrowUp, .byte 0x63] ed :=
  ⟨_, _, rfl, history_over_runs _ _ _ rfl⟩

end Ease
