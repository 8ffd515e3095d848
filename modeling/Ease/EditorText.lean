import Ease.LineEditorRefinement

/-! The editing events act on the line as on a text with a cursor. -/

namespace Ease

open Runs (Occurs run)

def IsEdit : KeyEvent → Prop
  | .byte _ | .special .backspace | .special .arrowLeft | .special .arrowRight => True
  | .special .enter | .special .esc | .special .arrowUp | .special .arrowDown => False

/-- The line is `p ++ q` and the cursor stands between the two. -/
structure ShowsText (ed : LineEditor) (p q : List UInt8) : Prop where
  line : ed.line.asSlice = .ok (p ++ q)
  cursor : ed.cursor = p.length

def Rings (before after : LineEditor) (result : KeyResult) : Prop :=
  after = before ∧ result = (none, .bell)

def EditsText (before : LineEditor) (event : KeyEvent) (after : LineEditor) (result : KeyResult)
    (p q : List UInt8) : Prop :=
  match event with
  | .byte ch =>
      if ch = ascii.tab ∨ (p ++ q).length = lineLen then Rings before after result
      else ShowsText after (p ++ [ch]) q
  | .special .backspace =>
      if p = [] then Rings before after result
      else ∃ rest erased, p = rest ++ [erased] ∧ ShowsText after rest q
  | .special .arrowLeft =>
      if p = [] then Rings before after result
      else ∃ rest passed, p = rest ++ [passed] ∧ ShowsText after rest (passed :: q)
  | .special .arrowRight =>
      if q = [] then Rings before after result
      else ∃ passed rest, q = passed :: rest ∧ ShowsText after (p ++ [passed]) rest
  | .special .enter | .special .esc | .special .arrowUp | .special .arrowDown => True

def editText (text : TwoList UInt8) : KeyEvent → TwoList UInt8
  | .byte ch =>
      if ch = ascii.tab ∨ text.contents.length = lineLen then text else text.insert ch
  | .special .backspace => text.eraseBack
  | .special .arrowLeft => text.moveLeft
  | .special .arrowRight => text.moveRight
  | .special .enter | .special .esc | .special .arrowUp | .special .arrowDown => text

section

variable {ed after : LineEditor} {s t : Session} {event : KeyEvent} {result : KeyResult}

theorem process_editsLine (edit : IsEdit event) (stepped : ed.process event = .ok (after, result)) :
    LineEditor.EditsLine ed after result := by
  cases event with
  | byte ch => exact LineEditor.processByte_editsLine stepped
  | special key =>
      cases key with
      | backspace => exact LineEditor.backspace_editsLine stepped
      | arrowLeft => exact LineEditor.arrowLeft_editsLine stepped
      | arrowRight => exact LineEditor.arrowRight_editsLine stepped
      | enter => cases edit
      | esc => cases edit
      | arrowUp => cases edit
      | arrowDown => cases edit

theorem Shows.text (shows : Shows ed s) : ShowsText ed s.text.before s.text.after :=
  ⟨shows.line.asSlice_ok, shows.cursor⟩

theorem Shows.text_unique (shows : Shows ed s) {p q : List UInt8} (text : ShowsText ed p q) :
    s.text = ⟨p, q⟩ := by
  have contents : s.text.before ++ s.text.after = p ++ q := by
    have line := shows.line.asSlice_ok
    rw [text.line] at line
    exact (Except.ok.inj line).symm
  have split := List.append_inj contents (by rw [← shows.cursor, text.cursor])
  exact TwoList.ext split.1 split.2

theorem Session.Acts.editText (acts : s.Acts event t result) (edit : IsEdit event) :
    t.text = Ease.editText s.text event := by
  cases acts with
  | discarded => simp [Ease.editText]
  | full ch text length => simp [Ease.editText, length]
  | appended ch text room last fits =>
      simp [Ease.editText, text, Nat.ne_of_lt room, Session.withText]
  | inserted ch text room shown bytes more fits =>
      simp [Ease.editText, text, Nat.ne_of_lt room, Session.withText]
  | nothingToErase start =>
      cases parts : s.text
      simp_all [Ease.editText, TwoList.eraseBack]
  | erased start shown bytes fits => rfl
  | lineEnd last => simp [Ease.editText, TwoList.moveRight, last]
  | right ch rest more fits => rfl
  | lineStart start => simp [Ease.editText, TwoList.moveLeft, start]
  | left start fits => rfl
  | submitted => cases edit
  | abandoned => cases edit
  | noOlder => cases edit
  | older => cases edit
  | notBrowsing => cases edit
  | restored => cases edit
  | newer => cases edit

section

variable {p q : List UInt8} {ch : UInt8}

theorem editsText_refused (refused : ch = ascii.tab ∨ (p ++ q).length = lineLen)
    (rings : Rings ed after result) : EditsText ed (.byte ch) after result p q := by
  dsimp only [EditsText]
  rw [if_pos refused]
  exact rings

theorem editsText_typed (text : ch ≠ ascii.tab) (room : (p ++ q).length < lineLen)
    (shown : ShowsText after (editText ⟨p, q⟩ (.byte ch)).before
      (editText ⟨p, q⟩ (.byte ch)).after) :
    EditsText ed (.byte ch) after result p q := by
  have accepted : ¬ (ch = ascii.tab ∨ (p ++ q).length = lineLen) := by
    intro refused
    rcases refused with tab | full
    · exact text tab
    · exact Nat.ne_of_lt room full
  have next : editText ⟨p, q⟩ (.byte ch) = ⟨p ++ [ch], q⟩ := if_neg accepted
  rw [next] at shown
  dsimp only [EditsText]
  rw [if_neg accepted]
  exact shown

theorem editsText_erased (start : p ≠ [])
    (shown : ShowsText after (TwoList.mk p q).eraseBack.before (TwoList.mk p q).eraseBack.after) :
    EditsText ed (.special .backspace) after result p q := by
  dsimp only [EditsText]
  rw [if_neg start]
  exact ⟨p.dropLast, p.getLast start, (List.dropLast_append_getLast start).symm, shown⟩

theorem editsText_left (start : p ≠ [])
    (shown : ShowsText after (TwoList.mk p q).moveLeft.before (TwoList.mk p q).moveLeft.after) :
    EditsText ed (.special .arrowLeft) after result p q := by
  dsimp only [EditsText]
  rw [if_neg start]
  refine ⟨p.dropLast, p.getLast start, (List.dropLast_append_getLast start).symm, ?_⟩
  simpa only [TwoList.moveLeft, List.getLast?_eq_some_getLast start] using shown

theorem editsText_right {rest : List UInt8} (more : q = ch :: rest)
    (shown : ShowsText after (TwoList.mk p q).moveRight.before (TwoList.mk p q).moveRight.after) :
    EditsText ed (.special .arrowRight) after result p q := by
  subst more
  dsimp only [EditsText]
  rw [if_neg (List.cons_ne_nil ch rest)]
  exact ⟨ch, rest, rfl, shown⟩

end

theorem Session.Acts.ringsText (acts : s.Acts event t result) (bell : result.2 = .bell)
    (rings : Rings ed after result) {p q : List UInt8} (parts : s.text = ⟨p, q⟩) :
    EditsText ed event after result p q := by
  cases acts with
  | discarded => exact editsText_refused (.inl rfl) rings
  | full ch text length =>
      rw [parts] at length
      exact editsText_refused (.inr length) rings
  | nothingToErase start | lineStart start =>
      rw [parts] at start
      dsimp only [EditsText]
      rw [if_pos start]
      exact rings
  | lineEnd last =>
      rw [parts] at last
      dsimp only [EditsText]
      rw [if_pos last]
      exact rings
  | noOlder | notBrowsing => trivial
  | appended | inserted | erased | right | left | submitted | abandoned | older
  | restored | newer =>
      cases bell

theorem Shows.editsText (shows : Shows ed s) (edit : IsEdit event)
    (stepped : ed.process event = .ok (after, result)) {p q : List UInt8}
    (text : ShowsText ed p q) : EditsText ed event after result p q := by
  have parts := shows.text_unique text
  have edits := process_editsLine edit stepped
  rcases process_acts shows stepped with ⟨t, acts, shown⟩
  by_cases bell : result.2 = .bell
  · exact acts.ringsText bell ⟨edits.unchanged bell, Prod.ext edits.silent bell⟩ parts
  have next := acts.editText edit
  have shownText := shown.text
  rw [next, parts] at shownText
  cases acts with
  | discarded | full | nothingToErase | lineEnd | lineStart => exact absurd rfl bell
  | appended ch text room | inserted ch text room =>
      rw [parts] at room
      exact editsText_typed text room shownText
  | erased start =>
      rw [parts] at start
      exact editsText_erased start shownText
  | right ch rest more =>
      rw [parts] at more
      exact editsText_right more shownText
  | left start =>
      rw [parts] at start
      exact editsText_left start shownText
  | submitted | abandoned | noOlder | older | notBrowsing | restored | newer => cases edit

end

/-- From any reachable line `p ++ q` with the cursor after `p`, a run of editing events
does to it what the two-list model does, and leaves history, saved line and history
index alone. -/
theorem editing_refines_two_lists (front events : List KeyEvent) (ed last : LineEditor)
    (first outputs : List KeyResult)
    (reached : run LineEditor.process .new front = .ok (ed, first))
    (edits : ∀ event ∈ events, IsEdit event)
    (finished : run LineEditor.process ed events = .ok (last, outputs)) :
    (∀ before event after result, Occurs LineEditor.process ed events before event after result →
      after.history = before.history ∧ after.savedLine = before.savedLine ∧
        after.historyIndex = before.historyIndex ∧
        ∀ p q, ShowsText before p q → EditsText before event after result p q) ∧
    ∀ p q, ShowsText ed p q →
      ShowsText last (events.foldl editText ⟨p, q⟩).before
        (events.foldl editText ⟨p, q⟩).after := by
  rcases run_shows reached with ⟨s, session, shows⟩
  constructor
  · intro before event after result occurs
    rcases occurs.reached with ⟨start, back, outs, split, partly⟩
    obtain ⟨m, _, shown⟩ := run_shows ((Runs.run_append_eq_ok _).mpr
      ⟨ed, first, outs, reached, partly, rfl⟩)
    have edit : IsEdit event := edits event (by rw [split]; simp)
    have frame := (process_editsLine edit occurs.stepped).frame
    refine ⟨by rw [frame], by rw [frame], by rw [frame], ?_⟩
    intro p q text
    exact shown.editsText edit occurs.stepped text
  · intro p q text
    have parts := shows.text_unique text
    rw [← parts]
    clear parts text session reached
    induction events generalizing ed s outputs with
    | nil =>
        cases finished
        exact shows.text
    | cons event events ih =>
        rcases (Runs.run_cons_eq_ok _).mp finished with ⟨next, result, rest, head, tail, _⟩
        rcases process_acts shows head with ⟨t, acts, shown⟩
        have edit := edits event List.mem_cons_self
        rw [List.foldl_cons, ← acts.editText edit]
        exact ih next rest (fun other member => edits other (List.mem_cons_of_mem _ member)) tail t
          shown

theorem editing_refines_two_lists_insert :
    ∃ ed last outputs,
      run LineEditor.process .new [.byte 0x61, .byte 0x63] = .ok (ed, outputs) ∧
      ShowsText ed [0x61, 0x63] [] ∧ ShowsText last [0x61] [0x63] := by
  have typed : ∃ ed outputs, run LineEditor.process .new [.byte 0x61, .byte 0x63] =
      .ok (ed, outputs) ∧ ShowsText ed [0x61, 0x63] [] ∧
      ∃ last results, run LineEditor.process ed
        [.special .arrowLeft, .byte 0x62, .special .backspace] = .ok (last, results) :=
    ⟨_, _, rfl, ⟨rfl, rfl⟩, _, _, rfl⟩
  rcases typed with ⟨ed, outputs, reached, text, last, results, finished⟩
  refine ⟨ed, last, outputs, reached, text, ?_⟩
  exact (editing_refines_two_lists _ _ ed last outputs results reached
    (by simp [IsEdit]) finished).2 [0x61, 0x63] [] text

end Ease
