import Ease.Runs
import Ease.Session
import Mathlib.Data.List.GetD

/-! The line editor refines the session: on every event both fail with the same
message, or both go on in related states with the same result. -/

namespace Ease

open Runs (Agree)

def HoldsRows (history : Vec (Vec UInt8 lineLen) historySize) (rows : List String) : Prop :=
  ∃ vecs, history.Holds vecs ∧ List.Forall₂ (fun vec row => vec.Holds (strBytes row)) vecs rows

structure Shows (ed : LineEditor) (s : Session) : Prop where
  line : ed.line.Holds s.text.contents
  saved : ed.savedLine.Holds s.saved
  cursor : ed.cursor = s.text.before.length
  index : ed.historyIndex = s.browse
  history : HoldsRows ed.history s.history

section Rows

variable {history : Vec (Vec UInt8 lineLen) historySize} {rows : List String}

theorem HoldsRows.len_eq (holds : HoldsRows history rows) : history.len = rows.length := by
  rcases holds with ⟨vecs, outer, inner⟩
  rw [outer.len_eq, inner.length_eq]

theorem HoldsRows.isEmpty_iff (holds : HoldsRows history rows) :
    history.isEmpty = true ↔ rows = [] := by
  simp [Vec.isEmpty, holds.len_eq]

theorem HoldsRows.isFull_iff (holds : HoldsRows history rows) :
    history.isFull = true ↔ rows.length = historySize := by
  simp [Vec.isFull, holds.len_eq]

theorem HoldsRows.ne_nil (holds : HoldsRows history rows) (full : history.isFull = true) :
    rows ≠ [] := by
  intro empty
  have length := holds.isFull_iff.mp full
  rw [empty] at length
  cases length

theorem HoldsRows.index_ok (holds : HoldsRows history rows) {i : Nat} (below : i < rows.length) :
    ∃ vec, history.index i = .ok vec ∧ vec.Holds (strBytes rows[i]) := by
  rcases holds with ⟨vecs, outer, inner⟩
  have inside : i < vecs.length := by rw [inner.length_eq]; exact below
  exact ⟨vecs[i], outer.index_ok inside, inner.get inside below⟩

theorem HoldsRows.pop_ok (holds : HoldsRows history rows) (present : rows ≠ []) :
    ∃ popped after, history.pop = .ok (some popped, after) ∧ HoldsRows after rows.dropLast := by
  rcases holds with ⟨vecs, outer, inner⟩
  have some : vecs ≠ [] := by
    intro none
    subst none
    cases inner
    exact present rfl
  rcases outer.pop_ok some with ⟨after, popped, kept⟩
  refine ⟨_, after, popped, vecs.dropLast, kept, ?_⟩
  have shorter := List.forall₂_take (vecs.length - 1) inner
  rwa [List.dropLast_eq_take, List.dropLast_eq_take, ← inner.length_eq]

end Rows

theorem sliceRange_suffix (front back : List UInt8) {start stop : Nat}
    (startEq : start = front.length) (stopEq : stop = (front ++ back).length) :
    sliceRange (front ++ back) start stop = .ok back := by
  subst startEq stopEq
  have ordered : front.length ≤ (front ++ back).length := by simp
  rw [sliceRange, if_pos ⟨ordered, Nat.le_refl _⟩, List.take_length, List.drop_left]

section Arms

variable {ed : LineEditor} {s : Session}

theorem Shows.cursor_add_one (shows : Shows ed s) : usizeAdd ed.cursor 1 = .ok (ed.cursor + 1) := by
  apply usizeAdd_ok
  have fits := s.textFits
  rw [TwoList.length_contents] at fits
  have cursor := shows.cursor
  simp only [lineLen] at fits
  omega

theorem Shows.at_end_iff (shows : Shows ed s) : ed.cursor = ed.line.len ↔ s.text.after = [] := by
  rw [shows.cursor, shows.line.len_eq, TwoList.length_contents, ← List.length_eq_zero_iff]
  omega

theorem processByte_agree (shows : Shows ed s) (ch : UInt8) :
    Agree Shows (ed.processByte ch) (s.typeByte ch) := by
  unfold LineEditor.processByte Session.typeByte
  by_cases tab : ch = ascii.tab
  · rw [if_pos tab, if_pos tab]
    exact .ok _ shows
  rw [if_neg tab, if_neg tab]
  by_cases room : s.text.contents.length < lineLen
  · have notFull : ¬ ed.line.isFull = true := by
      rw [shows.line.isFull_iff]
      omega
    rw [if_neg notFull, dif_pos room]
    by_cases last : s.text.after = []
    · rcases shows.line.push_ok ch room with ⟨line, pushed, holds⟩
      rw [if_pos (shows.at_end_iff.mpr last), if_pos last]
      simp only [pushed, Exec.ok_bind, shows.cursor_add_one]
      refine .ok _ ⟨?_, shows.saved, ?_, shows.index, shows.history⟩
      · simpa [Session.withText, TwoList.contents, TwoList.insert, last] using holds
      · simp [Session.withText, TwoList.insert, shows.cursor]
    · have inside : ed.cursor ≤ s.text.contents.length := by
        rw [shows.cursor, TwoList.length_contents]
        omega
      rcases shows.line.insert_ok ch inside room with ⟨line, inserted, holds⟩
      have grown : line.Holds (s.text.insert ch).contents := by
        rwa [TwoList.contents_insert, ← shows.cursor]
      have suffix : sliceRange (s.text.insert ch).contents ed.cursor line.len =
          .ok (ch :: s.text.after) := by
        have split : (s.text.insert ch).contents = s.text.before ++ ch :: s.text.after := by
          simp [TwoList.contents, TwoList.insert]
        rw [grown.len_eq, split]
        exact sliceRange_suffix _ _ shows.cursor rfl
      rw [if_neg (mt shows.at_end_iff.mp last), if_neg last]
      simp only [inserted, Exec.ok_bind, shows.cursor_add_one, subChecked_ok (Nat.le_add_left 1 _),
        Nat.add_sub_cancel, grown.asSlice_ok, suffix]
      apply Agree.bind
      intro shown _
      refine .ok _ ⟨grown, shows.saved, ?_, shows.index, shows.history⟩
      simp [Session.withText, TwoList.insert, shows.cursor]
  · have full : ed.line.isFull = true := by
      rw [shows.line.isFull_iff]
      have fits := s.textFits
      omega
    rw [if_pos full, dif_neg room]
    exact .ok _ shows

theorem Shows.evict_ok (shows : Shows ed s) :
    ∃ history, ed.evict = .ok history ∧ HoldsRows history (s.history.take (historySize - 1)) := by
  unfold LineEditor.evict
  by_cases full : ed.history.isFull = true
  · have length := shows.history.isFull_iff.mp full
    rcases shows.history.pop_ok (shows.history.ne_nil full) with ⟨popped, history, result, holds⟩
    rw [List.dropLast_eq_take, length] at holds
    exact ⟨history, by simp [full, result], holds⟩
  · have fits := s.historyFits
    have length := mt shows.history.isFull_iff.mpr full
    rw [if_neg full, List.take_of_length_le (by omega)]
    exact ⟨ed.history, rfl, shows.history⟩

/-- The line goes into the history before it is decoded, valid or not. -/
theorem Shows.archive_ok (shows : Shows ed s) :
    ∃ history after vecs, ed.evict = .ok history ∧
      history.insert 0 ed.line = .ok (.ok (), after) ∧ after.Holds (ed.line :: vecs) ∧
      List.Forall₂ (fun vec row => vec.Holds (strBytes row)) vecs
        (s.history.take (historySize - 1)) := by
  rcases shows.evict_ok with ⟨history, evicted, vecs, outer, inner⟩
  have room : vecs.length < historySize := by
    rw [inner.length_eq, List.length_take]
    simp only [historySize]
    omega
  rcases outer.insert_ok ed.line (Nat.zero_le _) room with ⟨after, inserted, kept⟩
  rw [List.insertIdx_zero] at kept
  exact ⟨history, after, vecs, evicted, inserted, kept, inner⟩

theorem enter_agree (shows : Shows ed s) : Agree Shows ed.enter s.submit := by
  rcases shows.archive_ok with ⟨history, after, vecs, evicted, inserted, kept, inner⟩
  have newest := kept.index_ok (Nat.succ_pos _)
  unfold LineEditor.enter Session.submit
  simp only [evicted, Exec.ok_bind, inserted, newest, List.getElem_cons_zero,
    shows.line.asSlice_ok]
  split
  · next decoded =>
      rw [expectUtf8_fails (fromUtf8_eq_none.mp decoded)]
      exact .error _
  · next row decoded =>
      have bytes := fromUtf8_eq_some.mp decoded
      rw [expectUtf8_eq_ok.mpr bytes]
      refine .ok _ ⟨Vec.clear_holds _, Vec.clear_holds _, rfl, rfl, ?_⟩
      exact ⟨ed.line :: vecs, kept, .cons (by rw [bytes]; exact shows.line) inner⟩

theorem backspace_agree (shows : Shows ed s) : Agree Shows ed.backspace s.eraseByte := by
  unfold LineEditor.backspace Session.eraseByte
  by_cases start : s.text.before = []
  · have zero : ¬ 0 < ed.cursor := by rw [shows.cursor, start]; simp
    rw [if_neg zero, if_pos start]
    exact .ok _ shows
  · have positive : 0 < s.text.before.length := List.length_pos_iff.mpr start
    have cursor : ed.cursor - 1 = s.text.eraseBack.before.length := by
      simp [TwoList.eraseBack, shows.cursor]
    have inside : ed.cursor - 1 < s.text.contents.length := by
      rw [shows.cursor, TwoList.length_contents]
      omega
    rcases shows.line.remove_ok inside with ⟨line, removed, holds⟩
    have shrunk : line.Holds s.text.eraseBack.contents := by
      rwa [TwoList.contents_eraseBack _ start, ← shows.cursor]
    have suffix : sliceRange s.text.eraseBack.contents (ed.cursor - 1) line.len =
        .ok s.text.after := by
      rw [shrunk.len_eq]
      exact sliceRange_suffix _ _ cursor rfl
    rw [if_pos (by rw [shows.cursor]; exact positive), if_neg start,
      subChecked_ok (by rw [shows.cursor]; exact positive)]
    simp only [Exec.ok_bind, removed, shrunk.asSlice_ok, suffix]
    apply Agree.bind
    intro shown _
    exact .ok _ ⟨shrunk, shows.saved, cursor, shows.index, shows.history⟩

theorem esc_agree (shows : Shows ed s) : Agree Shows ed.esc s.abandon := by
  unfold LineEditor.esc Session.abandon
  rw [shows.line.len_eq]
  exact .ok _ ⟨Vec.clear_holds _, shows.saved, rfl, rfl, shows.history⟩

theorem Shows.olderIndex_ok (shows : Shows ed s) : ed.olderIndex = .ok s.olderIndex := by
  unfold LineEditor.olderIndex Session.olderIndex
  rw [shows.index]
  cases browse : s.browse with
  | none => rfl
  | some i =>
      have below := s.browseBelow i browse
      have fits := s.historyFits
      simp only [historySize] at fits
      exact usizeAdd_ok (by omega)

theorem Shows.recalledLen_ok (shows : Shows ed s) : ed.recalledLen = .ok s.recalledLength := by
  unfold LineEditor.recalledLen Session.recalledLength
  rw [shows.index]
  cases browse : s.browse with
  | none => rw [shows.line.len_eq]
  | some i =>
      have below := s.browseBelow i browse
      rcases shows.history.index_ok below with ⟨vec, found, row⟩
      simp only [found, Exec.ok_bind, row.len_eq, List.getD_eq_getElem _ _ below]

theorem Shows.oldest_iff (shows : Shows ed s) (present : s.history ≠ []) :
    ed.historyIndex = some (s.history.length - 1) ↔ ¬ s.olderIndex < s.history.length := by
  have positive : 0 < s.history.length := List.length_pos_iff.mpr present
  rw [shows.index, Session.olderIndex]
  cases browse : s.browse with
  | none => simp [positive]
  | some i =>
      have below := s.browseBelow i browse
      simp only [Option.some.injEq]
      omega

theorem arrowUp_agree (shows : Shows ed s) : Agree Shows ed.arrowUp s.recallOlder := by
  unfold LineEditor.arrowUp Session.recallOlder
  by_cases empty : s.history = []
  · have bell : ¬ s.olderIndex < s.history.length := by rw [empty]; simp
    rw [if_pos (shows.history.isEmpty_iff.mpr empty), dif_neg bell]
    exact .ok _ shows
  have oldest : subChecked ed.history.len 1 = .ok (s.history.length - 1) := by
    rw [shows.history.len_eq]
    exact subChecked_ok (List.length_pos_iff.mpr empty)
  rw [if_neg (mt shows.history.isEmpty_iff.mp empty)]
  simp only [oldest, Exec.ok_bind]
  by_cases below : s.olderIndex < s.history.length
  · rcases shows.history.index_ok below with ⟨vec, found, row⟩
    rw [if_neg (fun same => (shows.oldest_iff empty).mp same below), dif_pos below]
    simp only [shows.recalledLen_ok, shows.olderIndex_ok, Exec.ok_bind, found, row.asSlice_ok,
      expectUtf8_strBytes]
    refine .ok _ ⟨?_, ?_, row.len_eq, rfl, shows.history⟩
    · simpa using row
    · dsimp only
      rw [shows.index]
      by_cases fresh : s.browse.isNone = true
      · rw [if_pos fresh, if_pos fresh]
        exact shows.line
      · rw [if_neg fresh, if_neg fresh]
        exact shows.saved
  · rw [if_pos ((shows.oldest_iff empty).mpr below), dif_neg below]
    exact .ok _ shows

theorem Shows.not_empty (shows : Shows ed s) {i : Nat} (browse : s.browse = some i) :
    ¬ ed.history.isEmpty = true := by
  rw [shows.history.isEmpty_iff]
  intro empty
  have below := s.browseBelow i browse
  rw [empty] at below
  cases below

theorem arrowDown_agree (shows : Shows ed s) : Agree Shows ed.arrowDown s.recallNewer := by
  unfold Session.recallNewer
  split
  · next shown =>
      simp only [LineEditor.arrowDown, shows.index, shown]
      exact .ok _ shows
  · next shown =>
      simp only [LineEditor.arrowDown, shows.index, shown, if_neg (shows.not_empty shown),
        LineEditor.newerLine, if_true, Exec.ok_bind, shows.saved.asSlice_ok, shows.line.len_eq]
      apply Agree.bind
      intro line _
      refine .ok _ ⟨?_, shows.saved, shows.saved.len_eq, rfl, shows.history⟩
      simpa using shows.saved
  · next i shown =>
      have below := s.browseBelow _ shown
      rcases shows.history.index_ok (i := i) (by omega) with ⟨vec, found, row⟩
      simp only [LineEditor.arrowDown, shows.index, shown, if_neg (shows.not_empty shown),
        LineEditor.newerLine, Nat.succ_ne_zero, if_false, Exec.ok_bind,
        subChecked_ok (Nat.le_add_left 1 i), Nat.add_sub_cancel, found, row.asSlice_ok,
        expectUtf8_strBytes, shows.line.len_eq]
      refine .ok _ ⟨?_, shows.saved, row.len_eq, rfl, shows.history⟩
      simpa using row

theorem arrowRight_agree (shows : Shows ed s) : Agree Shows ed.arrowRight s.moveRight := by
  unfold Session.moveRight
  split
  · next last =>
      have stop : ¬ ed.cursor < ed.line.len := by
        rw [shows.at_end_iff.mpr last]
        exact Nat.lt_irrefl _
      rw [LineEditor.arrowRight, if_neg stop]
      exact .ok _ shows
  · next ch rest more =>
      have contents : s.text.contents = s.text.before ++ ch :: rest := by
        rw [TwoList.contents, more]
      have below : s.text.before.length < s.text.contents.length := by
        rw [contents]
        simp
      have under : ed.line.index ed.cursor = .ok ch := by
        rw [shows.cursor, shows.line.index_ok below]
        simp [contents]
      rw [LineEditor.arrowRight, if_pos (by rw [shows.cursor, shows.line.len_eq]; exact below)]
      simp only [shows.cursor_add_one, Exec.ok_bind, subChecked_ok (Nat.le_add_left 1 _),
        Nat.add_sub_cancel, under]
      refine .ok _ ⟨?_, shows.saved, ?_, shows.index, shows.history⟩
      · simpa [Session.withText, TwoList.contents_moveRight] using shows.line
      · have moved : s.text.moveRight.before.length = s.text.before.length + 1 :=
          TwoList.length_before_moveRight (by rw [more]; simp)
        simp [Session.withText, moved, shows.cursor]

theorem arrowLeft_agree (shows : Shows ed s) : Agree Shows ed.arrowLeft s.moveLeft := by
  unfold LineEditor.arrowLeft Session.moveLeft
  by_cases start : s.text.before = []
  · have zero : ¬ 0 < ed.cursor := by rw [shows.cursor, start]; simp
    rw [if_neg zero, if_pos start]
    exact .ok _ shows
  · have positive : 0 < ed.cursor := by
      rw [shows.cursor]
      exact List.length_pos_iff.mpr start
    rw [if_pos positive, if_neg start, subChecked_ok positive]
    refine .ok _ ⟨?_, shows.saved, ?_, shows.index, shows.history⟩
    · simpa [Session.withText, TwoList.contents_moveLeft] using shows.line
    · simp [Session.withText, TwoList.length_before_moveLeft, shows.cursor]

theorem process_agree (shows : Shows ed s) (event : KeyEvent) :
    Agree Shows (ed.process event) (s.step event) := by
  cases event with
  | byte ch => exact processByte_agree shows ch
  | special key =>
      cases key with
      | backspace => exact backspace_agree shows
      | enter => exact enter_agree shows
      | esc => exact esc_agree shows
      | arrowUp => exact arrowUp_agree shows
      | arrowDown => exact arrowDown_agree shows
      | arrowLeft => exact arrowLeft_agree shows
      | arrowRight => exact arrowRight_agree shows

end Arms

theorem new_shows : Shows LineEditor.new Session.new :=
  ⟨Vec.new_holds, Vec.new_holds, rfl, rfl, [], Vec.new_holds, .nil⟩

/-- Every run of the editor is the run of the session on the same events. -/
theorem run_agree (events : List KeyEvent) :
    Agree Shows (Runs.run LineEditor.process .new events) (Runs.run Session.step .new events) :=
  Runs.run_agree _ (fun _ _ event shows => process_agree shows event) new_shows events

theorem run_shows {events : List KeyEvent} {ed : LineEditor} {outputs : List KeyResult}
    (finished : Runs.run LineEditor.process .new events = .ok (ed, outputs)) :
    ∃ s, Runs.run Session.step .new events = .ok (s, outputs) ∧ Shows ed s := by
  have agree := run_agree events
  rw [finished] at agree
  exact agree.of_ok

theorem run_shown {events : List KeyEvent} {s : Session} {outputs : List KeyResult}
    (finished : Runs.run Session.step .new events = .ok (s, outputs)) :
    ∃ ed, Runs.run LineEditor.process .new events = .ok (ed, outputs) ∧ Shows ed s := by
  have agree := run_agree events
  rw [finished] at agree
  exact agree.of_ok_right

theorem process_acts {ed after : LineEditor} {s : Session} {event : KeyEvent}
    {result : KeyResult} (shows : Shows ed s) (stepped : ed.process event = .ok (after, result)) :
    ∃ t, s.Acts event t result ∧ Shows after t := by
  have agree := process_agree shows event
  rw [stepped] at agree
  rcases agree.of_ok with ⟨t, other, shown⟩
  exact ⟨t, Session.step_acts other, shown⟩

end Ease
