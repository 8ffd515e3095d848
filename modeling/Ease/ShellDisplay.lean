import Ease.ConsoleScreen
import Ease.EditorPanics
import Ease.Shell
import Ease.TerminalRow

/-! The display actions of the line editor, printed by the shell, keep the console
row of the prompt showing the line and the cursor. -/

namespace Ease

open Terminal (OnRow lineOf put screen)

def Printable (ch : UInt8) : Prop := 0x20 ≤ ch ∧ ch ≤ 0x7E

/-- Any key, and any byte that is printable ASCII or a tab. -/
def TypesText (event : KeyEvent) : Prop := ∀ ch, event = .byte ch → ch = ascii.tab ∨ Printable ch

theorem Printable.writeable {ch : UInt8} (printable : Printable ch) :
    Control.of ch = .writeable := by
  have apart : ∀ other : UInt8, other < 0x20 ∨ 0x7E < other → ch ≠ other := by
    intro other outside same
    subst same
    rcases outside with low | high
    · exact UInt8.not_lt.mpr printable.1 low
    · exact UInt8.not_lt.mpr printable.2 high
  have back : ¬ (ch = ascii.bs ∨ ch = ascii.del) :=
    not_or.mpr ⟨apart ascii.bs (by decide), apart ascii.del (by decide)⟩
  rw [Control.of, if_neg (apart ascii.bell (by decide)), if_neg back,
    if_neg (apart ascii.tab (by decide)), if_neg (apart ascii.cr (by decide)),
    if_neg (apart ascii.ff (by decide)), if_neg (apart ascii.lf (by decide))]

theorem Printable.ascii {ch : UInt8} (printable : Printable ch) : ch < 0x80 :=
  UInt8.lt_of_le_of_lt printable.2 (by decide)

structure Session.BytesIn (P : UInt8 → Prop) (s : Session) : Prop where
  text : ∀ ch ∈ s.text.contents, P ch
  saved : ∀ ch ∈ s.saved, P ch
  history : ∀ row ∈ s.history, ∀ ch ∈ strBytes row, P ch

namespace Session

variable {P : UInt8 → Prop} {s t : Session} {event : KeyEvent} {result : KeyResult}

theorem BytesIn.same_rows (bytes : s.BytesIn P) (text : ∀ ch ∈ t.text.contents, P ch)
    (saved : t.saved = s.saved) (history : t.history = s.history) : t.BytesIn P :=
  ⟨text, by rw [saved]; exact bytes.saved, by rw [history]; exact bytes.history⟩

theorem BytesIn.before (bytes : s.BytesIn P) : ∀ ch ∈ s.text.before, P ch :=
  fun ch member => bytes.text ch (List.mem_append_left _ member)

theorem BytesIn.after (bytes : s.BytesIn P) : ∀ ch ∈ s.text.after, P ch :=
  fun ch member => bytes.text ch (List.mem_append_right _ member)

theorem BytesIn.insert (bytes : s.BytesIn P) {ch : UInt8} (typed : P ch) :
    ∀ other ∈ (s.text.insert ch).contents, P other := by
  intro other member
  simp only [TwoList.contents, TwoList.insert, List.mem_append, List.mem_singleton] at member
  rcases member with (left | rfl) | right
  · exact bytes.before other left
  · exact typed
  · exact bytes.after other right

theorem BytesIn.row (bytes : s.BytesIn P) {i : Nat} {row : String}
    (loaded : s.history[i]? = some row) : ∀ ch ∈ strBytes row, P ch :=
  bytes.history row (List.mem_of_getElem? loaded)

theorem Acts.bytesIn (acts : s.Acts event t result)
    (typed : ∀ ch, event = .byte ch → ch = ascii.tab ∨ P ch) (bytes : s.BytesIn P) :
    t.BytesIn P := by
  have nothing : ∀ ch ∈ (TwoList.atEnd ([] : List UInt8)).contents, P ch := by simp
  cases acts with
  | discarded | full | nothingToErase | noOlder | notBrowsing | lineEnd | lineStart => exact bytes
  | appended ch text =>
      exact bytes.same_rows (bytes.insert ((typed ch rfl).resolve_left text)) rfl rfl
  | inserted ch text =>
      exact bytes.same_rows (bytes.insert ((typed ch rfl).resolve_left text)) rfl rfl
  | submitted row line text' text saved browse history =>
      refine ⟨by rw [text]; exact nothing, by rw [saved]; simp, fun other member => ?_⟩
      rw [history] at member
      rcases List.mem_cons.mp (List.mem_of_mem_take member) with rfl | older
      · rw [line]
        exact bytes.text
      · exact bytes.history other older
  | erased =>
      refine bytes.same_rows (fun ch member => ?_) rfl rfl
      rcases List.mem_append.mp member with left | right
      · exact bytes.before ch (List.mem_of_mem_dropLast left)
      · exact bytes.after ch right
  | abandoned _ text saved browse history =>
      exact bytes.same_rows (by rw [text]; exact nothing) saved history
  | older row loaded _ text saved browse history =>
      refine ⟨by rw [text, TwoList.contents_atEnd]; exact bytes.row loaded, ?_,
        by rw [history]; exact bytes.history⟩
      rw [saved]
      split
      · exact bytes.text
      · exact bytes.saved
  | restored _ line _ _ text saved browse history =>
      exact bytes.same_rows (by rw [text, TwoList.contents_atEnd]; exact bytes.saved) saved history
  | newer i _ row loaded _ text saved browse history =>
      exact bytes.same_rows (by rw [text, TwoList.contents_atEnd]; exact bytes.row loaded) saved
        history
  | right =>
      exact bytes.same_rows (by simpa [withText, TwoList.contents_moveRight] using bytes.text)
        rfl rfl
  | left =>
      exact bytes.same_rows (by simpa [withText, TwoList.contents_moveLeft] using bytes.text)
        rfl rfl

theorem run_bytesIn {events : List KeyEvent} {outputs : List KeyResult}
    (typed : ∀ event ∈ events, ∀ ch, event = .byte ch → ch = ascii.tab ∨ P ch)
    (finished : Runs.run step .new events = .ok (s, outputs)) : s.BytesIn P := by
  refine Runs.run_invariant step ?_ ⟨by simp [new], by simp [new], by simp [new]⟩ finished
  intro before event after result member bytes stepped
  exact (step_acts stepped).bytesIn (typed event member) bytes

end Session

namespace Shell

open LineDisplayAction

def promptBytes : List UInt8 := [0x65, 0x61, 0x73, 0x65, 0x3E, 0x20]

theorem strBytes_prompt : strBytes prompt = promptBytes := by decide

theorem strBytes_space : strBytes " " = [0x20] := by decide

def displayBytes (action : LineDisplayAction) : List UInt8 :=
  ((displayParts action).map strBytes).flatten

theorem displayBytes_char {ch : UInt8} (ascii : ch < 0x80) :
    ([charStr ch].map strBytes).flatten = [ch] := by
  simp [charStr_ascii ascii]

theorem displayBytes_clearLine (n : Nat) :
    displayBytes (clearLine n) =
      ascii.cr :: List.replicate (n + 6) 0x20 ++ ascii.cr :: promptBytes := by
  have size : promptBytes.length = 6 := rfl
  have cr : strBytes (charStr ascii.cr) = [ascii.cr] := charStr_ascii (by decide)
  simp [displayBytes, displayParts, clearLineParts, size, cr, strBytes_prompt, strBytes_space]

theorem displayBytes_redrawLine (s : String) (n : Nat) :
    displayBytes (redrawLine s n) = displayBytes (clearLine n) ++ strBytes s := by
  simp [displayBytes, displayParts]

theorem displayBytes_backspace (s : String) :
    displayBytes (backspace s) =
      ascii.bs :: (strBytes s ++ [0x20]) ++
        (ascii.bs :: List.replicate (strBytes s).length ascii.bs) := by
  have bs : strBytes (charStr ascii.bs) = [ascii.bs] := charStr_ascii (by decide)
  simp [displayBytes, displayParts, bs, strBytes_space]

theorem displayBytes_redraw (s : String) :
    displayBytes (redraw s 0) =
      strBytes s ++ List.replicate ((strBytes s).length - 1) ascii.bs := by
  have bs : strBytes (charStr ascii.bs) = [ascii.bs] := charStr_ascii (by decide)
  simp [displayBytes, displayParts, bs]

section Rows

open Scrollback

variable {others : Slots Line 30} {y : Fin 30} {page : Terminal (Window Line 30)} {x : Nat}

theorem space_writeable : Control.of 0x20 = .writeable := by decide

theorem spaces_writeable (count : Nat) :
    ∀ ch ∈ List.replicate count (0x20 : UInt8), Control.of ch = .writeable := by
  intro ch member
  rw [List.eq_of_mem_replicate member]
  exact space_writeable

theorem prompt_writeable : ∀ ch ∈ promptBytes, Control.of ch = .writeable := by
  have printable : ∀ ch ∈ promptBytes, Printable ch := by simp [promptBytes, Printable]
  exact fun ch member => (printable ch member).writeable

theorem after_prompt (bytes : List UInt8) : 6 + bytes.length = (promptBytes ++ bytes).length := by
  rw [List.length_append]
  rfl

theorem clearLine_row {bytes : List UInt8} (on : OnRow others y (promptBytes ++ bytes) x page)
    (short : bytes.length ≤ 73) :
    OnRow others y promptBytes 6
      ((displayBytes (clearLine bytes.length)).foldl (put screen) page) := by
  have whole : promptBytes ++ bytes = [] ++ (promptBytes ++ bytes) ++ [] := by simp
  have covers : (promptBytes ++ bytes).length =
      (List.replicate (bytes.length + 6) (0x20 : UInt8)).length := by
    rw [List.length_append, List.length_replicate, Nat.add_comm]
    rfl
  have blank := on.put_cr.put_over whole rfl covers (spaces_writeable (bytes.length + 6))
    (by rw [List.length_replicate]; omega)
  have shape : [] ++ List.replicate (bytes.length + 6) (0x20 : UInt8) ++ [] =
      [] ++ List.replicate 6 0x20 ++ List.replicate bytes.length 0x20 := by
    rw [List.nil_append, List.append_nil, List.nil_append, ← List.replicate_add, Nat.add_comm]
  have room : (List.replicate 6 (0x20 : UInt8)).length = promptBytes.length := rfl
  have prompted := blank.put_cr.put_over shape rfl room prompt_writeable (by decide)
  rw [displayBytes_clearLine, List.cons_append, List.foldl_cons, List.foldl_append, List.foldl_cons]
  exact prompted.trim

theorem redrawLine_row {bytes : List UInt8} {s : String}
    (on : OnRow others y (promptBytes ++ bytes) x page) (short : bytes.length ≤ 73)
    (shownShort : (strBytes s).length ≤ 73)
    (writeable : ∀ ch ∈ strBytes s, Control.of ch = .writeable) :
    OnRow others y (promptBytes ++ strBytes s) (6 + (strBytes s).length)
      ((displayBytes (redrawLine s bytes.length)).foldl (put screen) page) := by
  have written := ((clearLine_row on short).pad (strBytes s).length).put_over
    (List.append_nil _).symm rfl List.length_replicate writeable (by omega)
  rw [displayBytes_redrawLine, List.foldl_append]
  rwa [List.append_nil] at written

/-- The rest of the line is printed again one column to the right, and the cursor
goes back over it. -/
theorem redraw_row {before after : List UInt8} {s : String} {ch : UInt8}
    (on : OnRow others y (promptBytes ++ (before ++ after)) (6 + before.length) page)
    (bytes : strBytes s = ch :: after) (short : before.length + after.length + 1 ≤ 73)
    (writeable : ∀ other ∈ strBytes s, Control.of other = .writeable) :
    OnRow others y (promptBytes ++ (before ++ [ch] ++ after)) (6 + (before.length + 1))
      ((displayBytes (redraw s 0)).foldl (put screen) page) := by
  have length : (strBytes s).length = after.length + 1 := by rw [bytes, List.length_cons]
  have shape : promptBytes ++ (before ++ after) ++ List.replicate 1 0x20 =
      (promptBytes ++ before) ++ (after ++ [0x20]) ++ [] := by simp
  have covers : (after ++ [0x20]).length = (strBytes s).length := by simp [length]
  have written := (on.pad 1).put_over shape (after_prompt before) covers writeable (by omega)
  have back := written.put_backs ((strBytes s).length - 1)
  have column : 6 + before.length + (strBytes s).length - ((strBytes s).length - 1) =
      6 + (before.length + 1) := by omega
  rw [displayBytes_redraw, List.foldl_append]
  rw [column] at back
  simpa only [bytes, List.append_assoc, List.append_nil, List.cons_append,
    List.nil_append] using back

theorem backspace_row {before after : List UInt8} {s : String} {erased : UInt8}
    (on : OnRow others y (promptBytes ++ (before ++ [erased] ++ after))
      (6 + (before.length + 1)) page)
    (bytes : strBytes s = after) (short : before.length + after.length + 1 ≤ 73)
    (writeable : ∀ other ∈ strBytes s, Control.of other = .writeable) :
    OnRow others y (promptBytes ++ (before ++ after)) (6 + before.length)
      ((displayBytes (backspace s)).foldl (put screen) page) := by
  have length : (strBytes s).length = after.length := by rw [bytes]
  have shape : promptBytes ++ (before ++ [erased] ++ after) =
      (promptBytes ++ before) ++ ([erased] ++ after) ++ [] := by simp
  have position : 6 + (before.length + 1) - 1 = (promptBytes ++ before).length :=
    after_prompt before
  have covers : ([erased] ++ after).length = (strBytes s ++ [0x20]).length := by
    simp [length]
  have blanked : ∀ other ∈ strBytes s ++ [0x20], Control.of other = .writeable := by
    intro other member
    rcases List.mem_append.mp member with text | space
    · exact writeable other text
    · rw [List.mem_singleton.mp space]
      exact space_writeable
  have written := on.put_back.put_over shape position covers blanked
    (by rw [List.length_append, length, List.length_singleton]; omega)
  have back := written.put_back.put_backs (strBytes s).length
  have column : 6 + (before.length + 1) - 1 + (strBytes s ++ [0x20]).length - 1 -
      (strBytes s).length = 6 + before.length := by
    rw [List.length_append, List.length_singleton]
    omega
  have unpadded : (promptBytes ++ before) ++ (strBytes s ++ [0x20]) ++ [] =
      promptBytes ++ (before ++ after) ++ List.replicate 1 0x20 := by simp [bytes]
  rw [column, unpadded] at back
  rw [displayBytes_backspace, List.cons_append, List.foldl_cons, List.foldl_append, List.foldl_cons]
  exact back.trim

end Rows

end Shell

section

open Scrollback Shell

variable {s t : Session} {event : KeyEvent} {result : KeyResult} {others : Slots Line 30}
  {y : Fin 30} {page : Terminal (Window Line 30)}

def Session.OnRow (s : Session) (others : Slots Line 30) (y : Fin 30)
    (page : Terminal (Window Line 30)) : Prop :=
  Terminal.OnRow others y (promptBytes ++ s.text.contents) (6 + s.text.before.length) page

theorem Session.BytesIn.writeable {bytes : List UInt8} (printable : ∀ ch ∈ bytes, Printable ch) :
    ∀ ch ∈ bytes, Control.of ch = .writeable :=
  fun ch member => (printable ch member).writeable

theorem redrawLine_onRow {row : String} {n : Nat} (on : s.OnRow others y page)
    (short : s.text.contents.length ≤ 73) (blanks : n = s.text.contents.length)
    (text : t.text = .atEnd (strBytes row)) (printable : ∀ ch ∈ strBytes row, Printable ch)
    (shortAfter : t.text.contents.length ≤ 73) :
    t.OnRow others y ((displayBytes (.redrawLine row n)).foldl (put screen) page) := by
  rw [text, TwoList.contents_atEnd] at shortAfter
  rw [Session.OnRow, text, TwoList.contents_atEnd, TwoList.before_atEnd, blanks]
  exact redrawLine_row on short shortAfter (Session.BytesIn.writeable printable)

theorem bell_onRow (on : s.OnRow others y page) :
    s.OnRow others y ((displayBytes .bell).foldl (put screen) page) := by
  have single : displayBytes .bell = [ascii.bell] := displayBytes_char (by decide)
  rw [single]
  exact on.put_bell

theorem append_onRow {ch : UInt8} (on : s.OnRow others y page) (printable : Printable ch)
    (last : s.text.after = []) (fits : (s.text.insert ch).contents.length ≤ lineLen)
    (short : (s.text.insert ch).contents.length ≤ 73) :
    (s.withText (s.text.insert ch) fits).OnRow others y
      ((displayBytes (.echo ch)).foldl (put screen) page) := by
  have single : displayBytes (.echo ch) = [ch] := displayBytes_char printable.ascii
  have shape : promptBytes ++ s.text.contents ++ List.replicate 1 0x20 =
      (promptBytes ++ s.text.before) ++ [0x20] ++ [] := by simp [TwoList.contents, last]
  have covers : [(0x20 : UInt8)].length = [ch].length := rfl
  rw [TwoList.length_insert, TwoList.length_contents] at short
  have written := (on.pad 1).put_over shape (after_prompt _) covers
    (by simpa using printable.writeable) (by rw [List.length_singleton]; omega)
  rw [single]
  simpa [Session.OnRow, Session.withText, TwoList.contents, TwoList.insert, last, Nat.add_assoc]
    using written

theorem insert_onRow {ch : UInt8} {shown : String} (on : s.OnRow others y page)
    (printable : Printable ch) (bytes : s.BytesIn Printable)
    (rest : strBytes shown = ch :: s.text.after)
    (fits : (s.text.insert ch).contents.length ≤ lineLen)
    (short : (s.text.insert ch).contents.length ≤ 73) :
    (s.withText (s.text.insert ch) fits).OnRow others y
      ((displayBytes (.redraw shown 0)).foldl (put screen) page) := by
  rw [TwoList.length_insert, TwoList.length_contents] at short
  have all : ∀ other ∈ strBytes shown, Printable other := by
    rw [rest]
    exact List.forall_mem_cons.mpr ⟨printable, bytes.after⟩
  have written := redraw_row on rest short (Session.BytesIn.writeable all)
  simpa [Session.OnRow, Session.withText, TwoList.contents, TwoList.insert] using written

theorem erase_onRow {shown : String} (on : s.OnRow others y page) (bytes : s.BytesIn Printable)
    (start : s.text.before ≠ []) (rest : strBytes shown = s.text.after)
    (fits : s.text.eraseBack.contents.length ≤ lineLen) (short : s.text.contents.length ≤ 73) :
    (s.withText s.text.eraseBack fits).OnRow others y
      ((displayBytes (.backspace shown)).foldl (put screen) page) := by
  rcases List.eq_nil_or_concat s.text.before |>.resolve_left start with ⟨front, erased, split⟩
  rw [List.concat_eq_append] at split
  simp only [TwoList.length_contents, split, List.length_append, List.length_singleton] at short
  have whole : Terminal.OnRow others y
      (promptBytes ++ (front ++ [erased] ++ s.text.after)) (6 + (front.length + 1)) page := by
    simpa [Session.OnRow, TwoList.contents, split] using on
  have written := backspace_row whole rest (by omega) (by
    rw [rest]
    exact Session.BytesIn.writeable bytes.after)
  simpa [Session.OnRow, Session.withText, TwoList.contents, TwoList.eraseBack, split] using written

theorem abandon_onRow (on : s.OnRow others y page) (short : s.text.contents.length ≤ 73)
    (text : t.text = .atEnd []) :
    t.OnRow others y
      ((displayBytes (.clearLine s.text.contents.length)).foldl (put screen) page) := by
  have written := clearLine_row on short
  rw [Session.OnRow, text]
  simpa [TwoList.contents, TwoList.atEnd] using written

theorem right_onRow {ch : UInt8} {rest : List UInt8} (on : s.OnRow others y page)
    (bytes : s.BytesIn Printable) (more : s.text.after = ch :: rest)
    (fits : s.text.moveRight.contents.length ≤ lineLen) (short : s.text.contents.length ≤ 73) :
    (s.withText s.text.moveRight fits).OnRow others y
      ((displayBytes (.cursorRight ch)).foldl (put screen) page) := by
  have printable := bytes.after ch (by rw [more]; exact List.mem_cons_self)
  have single : displayBytes (.cursorRight ch) = [ch] := displayBytes_char printable.ascii
  have shape : promptBytes ++ s.text.contents =
      (promptBytes ++ s.text.before) ++ [ch] ++ rest := by simp [TwoList.contents, more]
  have covers : [ch].length = [ch].length := rfl
  rw [TwoList.length_contents, more, List.length_cons] at short
  have written := on.put_over shape (after_prompt _) covers
    (by simpa using printable.writeable) (by rw [List.length_singleton]; omega)
  rw [single]
  simpa [Session.OnRow, Session.withText, TwoList.contents, TwoList.moveRight, more, Nat.add_assoc]
    using written

theorem left_onRow (on : s.OnRow others y page) (start : s.text.before ≠ [])
    (fits : s.text.moveLeft.contents.length ≤ lineLen) :
    (s.withText s.text.moveLeft fits).OnRow others y
      ((displayBytes .cursorLeft).foldl (put screen) page) := by
  have single : displayBytes .cursorLeft = [ascii.bs] := displayBytes_char (by decide)
  have back := on.put_back
  have positive : 0 < s.text.before.length := List.length_pos_iff.mpr start
  have column : 6 + s.text.before.length - 1 = 6 + s.text.moveLeft.before.length := by
    rw [TwoList.length_before_moveLeft]
    omega
  rw [single]
  rw [column, ← TwoList.contents_moveLeft] at back
  exact back

theorem Session.Acts.onRow (acts : s.Acts event t result) (typed : TypesText event)
    (other : event ≠ .special .enter) (bytes : s.BytesIn Printable)
    (short : s.text.contents.length ≤ 73) (shortAfter : t.text.contents.length ≤ 73)
    (blanks : ∀ n, (result.2 = .clearLine n ∨ ∃ line, result.2 = .redrawLine line n) →
      n = s.text.contents.length)
    (on : s.OnRow others y page) :
    t.OnRow others y ((displayBytes result.2).foldl (put screen) page) := by
  cases acts with
  | discarded | full | nothingToErase | noOlder | notBrowsing | lineEnd | lineStart =>
      exact bell_onRow on
  | submitted => exact absurd rfl other
  | appended ch text room last fits =>
      exact append_onRow on ((typed ch rfl).resolve_left text) last fits shortAfter
  | inserted ch text room shown rest more fits =>
      exact insert_onRow on ((typed ch rfl).resolve_left text) bytes rest fits shortAfter
  | erased start shown rest fits => exact erase_onRow on bytes start rest fits short
  | abandoned _ text => exact abandon_onRow on short text
  | older row loaded _ text =>
      exact redrawLine_onRow on short (blanks _ (.inr ⟨row, rfl⟩)) text (bytes.row loaded)
        shortAfter
  | restored _ line loaded _ text =>
      rw [← loaded] at text
      exact redrawLine_onRow on short (blanks _ (.inr ⟨line, rfl⟩)) text
        (by rw [loaded]; exact bytes.saved) shortAfter
  | newer i _ row loaded _ text =>
      exact redrawLine_onRow on short (blanks _ (.inr ⟨row, rfl⟩)) text (bytes.row loaded)
        shortAfter
  | right ch rest more fits => exact right_onRow on bytes more fits short
  | left start fits => exact left_onRow on start fits

/-- The row of the console shows the prompt, the line and spaces, with the console
cursor at the editor's. -/
structure ShowsEditor (console : Console) (ed : LineEditor) (y : Fin 30) : Prop where
  row : console.buffer y = lineOf (strBytes prompt ++ ed.line.contents)
  x : console.cursor.x = 6 + ed.cursor
  y : console.cursor.y = y.val

theorem Session.BytesIn.wholeCharacters {P : UInt8 → Prop} {ed : LineEditor} (bytes : s.BytesIn P)
    (sevenBit : ∀ ch, P ch → ch < 0x80) (shows : Shows ed s)
    (typed : ∀ ch, event = .byte ch → ch = ascii.tab ∨ P ch) : WholeCharacters ed event := by
  have valid : ∀ {bytes : List UInt8}, (∀ ch ∈ bytes, P ch) → ValidUtf8 bytes :=
    fun all => validUtf8_ascii fun ch member => sevenBit ch (all ch member)
  have line : ∀ ch ∈ ed.line.contents, P ch := by
    rw [shows.line.contents_eq]
    exact bytes.text
  have rest : ∀ ch ∈ ed.line.contents.drop ed.cursor, P ch :=
    fun ch member => line ch (List.mem_of_mem_drop member)
  cases event with
  | byte ch =>
      intro text _ _
      refine valid fun other member => ?_
      rcases List.mem_cons.mp member with rfl | old
      · exact (typed other rfl).resolve_left text
      · exact rest other old
  | special key =>
      cases key with
      | enter => exact valid line
      | backspace => exact fun _ => valid rest
      | arrowDown =>
          intro _
          rw [shows.saved.contents_eq]
          exact valid bytes.saved
      | esc | arrowUp | arrowLeft | arrowRight => trivial

theorem Session.BytesIn.completes {ed : LineEditor} (bytes : s.BytesIn Printable)
    (shows : Shows ed s) (typed : TypesText event) : ∃ result, ed.process event = .ok result := by
  rw [process_completes_iff shows]
  exact bytes.wholeCharacters (fun _ printable => printable.ascii) shows typed

theorem handleDisplay_follows (font : Font) {console : Console}
    {page : Terminal (Window Line 30)} (displays : console.Displays page)
    (action : LineDisplayAction) :
    ∃ after, handleDisplay font console action = .ok after ∧
      after.Displays ((displayBytes action).foldl (put screen) page) := by
  obtain ⟨after, printed, so⟩ :=
    Console.writeStrs_follow font displays ((displayParts action).map strBytes)
  refine ⟨after, printed, ?_⟩
  rw [displayBytes, List.foldl_flatten]
  exact so.displays

/-- After any run on text, any further key but Enter keeps a row in step with the
editor, as long as neither line reaches the end of the row and the action tells the
length of the line that it blanks. -/
theorem handle_display_shows_editor (font : Font) {events : List KeyEvent} {ed : LineEditor}
    {outputs : List KeyResult} (typed : ∀ event ∈ events, TypesText event)
    (reached : Runs.run LineEditor.process .new events = .ok (ed, outputs))
    {event : KeyEvent} (typedNext : TypesText event) (other : event ≠ .special .enter) :
    ∃ after result, ed.process event = .ok (after, result) ∧
      (ed.line.len ≤ 73 → after.line.len ≤ 73 →
        (∀ n, (result.2 = .clearLine n ∨ ∃ line, result.2 = .redrawLine line n) →
          n = ed.line.len) →
        ∀ (console : Console) (y : Fin 30), ShowsEditor console ed y →
          ∃ printed, handleDisplay font console result.2 = .ok printed ∧
            ShowsEditor printed after y ∧ ∀ r, r ≠ y → printed.buffer r = console.buffer r) := by
  rcases run_shows reached with ⟨s, ran, shows⟩
  have bytes := Session.run_bytesIn typed ran
  rcases bytes.completes shows typedNext with ⟨⟨after, result⟩, stepped⟩
  refine ⟨after, result, stepped, fun short shortAfter blanks console y showsEditor => ?_⟩
  rcases process_acts shows stepped with ⟨t, acts, shown⟩
  rw [shows.line.len_eq] at short blanks
  rw [shown.line.len_eq] at shortAfter
  have prompted : strBytes prompt = promptBytes := strBytes_prompt
  have inRow : console.cursor.x < 80 := by
    have cursor := shows.cursor
    have place := showsEditor.x
    rw [TwoList.length_contents] at short
    omega
  have displays : console.Displays ⟨⟨console.buffer, y⟩, ⟨console.cursor.x, inRow⟩⟩ :=
    ⟨rfl, rfl, showsEditor.y⟩
  have on : s.OnRow console.buffer y ⟨⟨console.buffer, y⟩, ⟨console.cursor.x, inRow⟩⟩ := by
    refine ⟨rfl, ?_, ?_, fun _ _ => rfl⟩
    · rw [← shows.cursor]
      exact showsEditor.x
    · rw [← shows.line.contents_eq, ← prompted]
      exact showsEditor.row
  have next := acts.onRow typedNext other bytes short shortAfter blanks on
  rcases handleDisplay_follows font displays result.2 with ⟨printed, handled, ends⟩
  refine ⟨printed, handled, ⟨?_, ?_, ?_⟩, fun r elsewhere => ?_⟩
  · have current := next.shown
    rw [Window.current, next.sameRow] at current
    rw [ends.rows, current, shown.line.contents_eq, prompted]
  · rw [ends.x, next.column, shown.cursor]
  · rw [ends.y, next.sameRow]
  · rw [ends.rows, next.others r elsewhere]

end

theorem handle_display_shows_insert :
    ∃ ed outputs after result printed,
      Runs.run LineEditor.process .new [.byte 0x61, .byte 0x62, .special .arrowLeft] =
        .ok (ed, outputs) ∧
      ed.process (.byte 0x63) = .ok (after, result) ∧ after.line.contents = [0x61, 0x63, 0x62] ∧
      Shell.handleDisplay ⟨fun _ => 0⟩
        ⟨none, fun _ => lineOf [0x65, 0x61, 0x73, 0x65, 0x3E, 0x20, 0x61, 0x62], ⟨7, 4, true⟩,
          .white, .black⟩ result.2 = .ok printed ∧
      ShowsEditor printed after 4 := by
  have typed : ∃ ed outputs,
      Runs.run LineEditor.process .new [.byte 0x61, .byte 0x62, .special .arrowLeft] =
        .ok (ed, outputs) ∧ ed.line.len = 2 ∧ ed.cursor = 1 ∧ ed.line.contents = [0x61, 0x62] ∧
      ∃ after, ed.process (.byte 0x63) = .ok (after, none, .redraw "cb" 0) ∧ after.line.len = 3 ∧
        after.line.contents = [0x61, 0x63, 0x62] :=
    ⟨_, _, rfl, rfl, rfl, rfl, _, rfl, rfl, rfl⟩
  rcases typed with ⟨ed, outputs, reached, len, cursor, contents, next, inserted, longer, line⟩
  have texts : ∀ event ∈ [KeyEvent.byte 0x61, .byte 0x62, .special .arrowLeft],
      TypesText event := by
    simp [TypesText, Printable]
  have text : TypesText (.byte 0x63) := by simp [TypesText, Printable]
  obtain ⟨after, result, stepped, shows⟩ :=
    handle_display_shows_editor ⟨fun _ => 0⟩ texts reached text nofun
  rcases Prod.mk.inj (Except.ok.inj (inserted.symm.trans stepped)) with ⟨rfl, rfl⟩
  obtain ⟨printed, handled, shown, _⟩ := shows (by omega) (by omega) (by simp)
    ⟨none, fun _ => lineOf [0x65, 0x61, 0x73, 0x65, 0x3E, 0x20, 0x61, 0x62], ⟨7, 4, true⟩,
      .white, .black⟩ 4 ⟨by rw [contents]; rfl, by rw [cursor], rfl⟩
  exact ⟨ed, outputs, next, _, printed, reached, inserted, line, handled, shown⟩

end Ease
