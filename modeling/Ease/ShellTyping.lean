import Ease.ShellDisplay

/-! Typing at the end of the line: what the editor stores, what the echo prints, and
what pressing Backspace leaves on the screen. -/

namespace Ease

open Scrollback
open Terminal (put screen)

namespace Terminal

variable {page : Terminal (Window Line 30)} {ch : UInt8}

def erase (page : Terminal (Window Line 30)) : Terminal (Window Line 30) :=
  [ascii.bs, 0x20, ascii.bs].foldl (put screen) page

/-- The number of the cell under the cursor, counted along the rows from the top. -/
def place (page : Terminal (Window Line 30)) : Nat := 80 * page.sheet.y.val + page.x.val

theorem put_writeable_ok (page : Terminal (Window Line 30))
    (writeable : Control.of ch = .writeable) (room : page.x.val + 1 < 80) :
    put screen page ch =
      ⟨page.sheet.modify fun line => Function.update line page.x ch, ⟨page.x.val + 1, room⟩⟩ := by
  simp only [put_control, writeable]
  exact dif_pos room

theorem put_writeable_wraps (writeable : Control.of ch = .writeable) (last : 80 ≤ page.x.val + 1) :
    put screen page ch =
      ⟨(page.sheet.modify fun line => Function.update line page.x ch).newLine blankLine, 0⟩ := by
  simp only [put_control, writeable]
  exact dif_neg (Nat.not_lt.mpr last)

theorem put_bs : put screen page ascii.bs = { page with x := ⟨page.x.val - 1, by omega⟩ } := rfl

theorem erase_put (writeable : Control.of ch = .writeable) (room : page.x.val + 1 < 80)
    (blank : page.sheet.current page.x = 0x20) : erase (put screen page ch) = page := by
  have back : put screen (put screen page ch) ascii.bs =
      ⟨page.sheet.modify fun line => Function.update line page.x ch, page.x⟩ := by
    rw [put_writeable_ok page writeable room]
    rfl
  have covered : (page.sheet.modify fun line => Function.update line page.x ch).modify
      (fun line => Function.update line page.x 0x20) = page.sheet := by
    rw [Window.modify_modify]
    apply Window.modify_unchanged
    rw [Function.update_idem, ← blank, Function.update_eq_self]
  have spaced : ∀ sheet : Window Line 30, put screen ⟨sheet, page.x⟩ 0x20 =
      ⟨sheet.modify fun line => Function.update line page.x 0x20, ⟨page.x.val + 1, room⟩⟩ :=
    fun sheet => put_writeable_ok ⟨sheet, page.x⟩ Shell.space_writeable room
  rw [erase, List.foldl_cons, List.foldl_cons, back, spaced, covered]
  rfl

theorem erase_puts {bytes : List UInt8} (writeable : ∀ ch ∈ bytes, Control.of ch = .writeable)
    (room : page.x.val + bytes.length < 80)
    (blank : ∀ column : Fin 80, page.x.val ≤ column.val →
      column.val < page.x.val + bytes.length → page.sheet.current column = 0x20) :
    erase^[bytes.length] (bytes.foldl (put screen) page) = page := by
  induction bytes generalizing page with
  | nil => rfl
  | cons ch bytes ih =>
      rw [List.length_cons] at room blank ⊢
      have first := writeable ch List.mem_cons_self
      have inside : page.x.val + 1 < 80 := by omega
      have typed := put_writeable_ok page first inside
      have rest : erase^[bytes.length] (bytes.foldl (put screen) (put screen page ch)) =
          put screen page ch := by
        apply ih fun other member => writeable other (List.mem_cons_of_mem _ member)
        · rw [typed]
          dsimp only
          omega
        · rw [typed]
          intro column after before
          dsimp only at after before
          have apart : column ≠ page.x := fun same => by rw [same] at after; omega
          rw [Window.current_modify, Function.update_of_ne apart]
          exact blank column (by omega) (by omega)
      rw [List.foldl_cons, Function.iterate_succ_apply', rest]
      exact erase_put first inside (blank page.x (Nat.le_refl _) (by omega))

theorem place_put (writeable : Control.of ch = .writeable) (room : place page + 1 < 2400) :
    place (put screen page ch) = place page + 1 := by
  have column := page.x.isLt
  rcases Nat.lt_or_ge (page.x.val + 1) 80 with inside | last
  · rw [put_writeable_ok page writeable inside]
    rfl
  · rw [put_writeable_wraps writeable last]
    have below : page.sheet.y.val + 1 < 30 := by
      rw [place] at room
      omega
    have moved : ((page.sheet.modify fun line => Function.update line page.x ch).newLine
        blankLine).y.val = page.sheet.y.val + 1 := by
      rw [Window.newLine]
      exact congrArg (fun sheet : Window Line 30 => sheet.y.val) (dif_pos below)
    have atStart : (0 : Fin 80).val = 0 := rfl
    rw [place, place]
    dsimp only
    rw [moved]
    omega

theorem place_puts {bytes : List UInt8} (writeable : ∀ ch ∈ bytes, Control.of ch = .writeable)
    (room : place page + bytes.length < 2400) :
    place (bytes.foldl (put screen) page) = place page + bytes.length := by
  induction bytes generalizing page with
  | nil => rfl
  | cons ch bytes ih =>
      rw [List.length_cons] at room ⊢
      have first := place_put (writeable ch List.mem_cons_self) (by omega : place page + 1 < 2400)
      rw [List.foldl_cons, ih fun other member => writeable other (List.mem_cons_of_mem _ member)]
      · rw [first]
        omega
      · rw [first]
        omega

theorem erase_row (page : Terminal (Window Line 30)) : (erase page).sheet.y = page.sheet.y := by
  have column := page.x.isLt
  have inside : (put screen page ascii.bs).x.val + 1 < 80 := by
    rw [put_bs]
    dsimp only
    omega
  rw [erase, List.foldl_cons, List.foldl_cons, put_writeable_ok _ Shell.space_writeable inside]
  rfl

theorem erases_row (page : Terminal (Window Line 30)) (count : Nat) :
    (erase^[count] page).sheet.y = page.sheet.y := by
  induction count with
  | zero => rfl
  | succ count ih =>
      rw [Function.iterate_succ_apply', erase_row]
      exact ih

/-- Text that wraps is not undone: the cursor stays in the row that it has reached. -/
theorem erase_puts_wrapped {bytes : List UInt8}
    (writeable : ∀ ch ∈ bytes, Control.of ch = .writeable)
    (wraps : 80 ≤ page.x.val + bytes.length) (onScreen : place page + bytes.length < 2400) :
    erase^[bytes.length] (bytes.foldl (put screen) page) ≠ page := by
  intro same
  have typed := place_puts writeable onScreen
  have row := erases_row (bytes.foldl (put screen) page) bytes.length
  have column := (bytes.foldl (put screen) page).x.isLt
  rw [same] at row
  rw [place, place, ← row] at typed
  omega

end Terminal

def TypedLine (ed : LineEditor) (bytes : List UInt8) : Prop :=
  ∃ s, Shows ed s ∧ s.text = .atEnd bytes

namespace TypedLine

variable {ed : LineEditor} {bytes : List UInt8} {ch : UInt8}

theorem of_reached {events : List KeyEvent} {earlier : List KeyResult}
    (reached : Runs.run LineEditor.process .new events = .ok (ed, earlier))
    (last : ed.cursor = ed.line.len) : TypedLine ed ed.line.contents := by
  rcases run_shows reached with ⟨s, _, shows⟩
  refine ⟨s, shows, ?_⟩
  have nothing : s.text.after = [] := shows.at_end_iff.mp last
  have whole : s.text.before = ed.line.contents := by
    rw [shows.line.contents_eq, TwoList.contents, nothing, List.append_nil]
  exact TwoList.ext whole nothing

theorem contents (typed : TypedLine ed bytes) : ed.line.contents = bytes := by
  rcases typed with ⟨s, shows, text⟩
  rw [shows.line.contents_eq, text, TwoList.contents_atEnd]

theorem type (typed : TypedLine ed bytes) (text : ch ≠ ascii.tab) (room : bytes.length < lineLen) :
    ∃ after, ed.process (.byte ch) = .ok (after, none, .echo ch) ∧
      TypedLine after (bytes ++ [ch]) := by
  rcases typed with ⟨s, shows, whole⟩
  have fits : s.text.contents.length < lineLen := by rwa [whole, TwoList.contents_atEnd]
  have agree := process_agree shows (.byte ch)
  rw [Session.step, Session.typeByte, if_neg text, dif_pos fits,
    if_pos (by rw [whole]; rfl)] at agree
  rcases agree.of_ok_right with ⟨after, stepped, shown⟩
  refine ⟨after, stepped, _, shown, ?_⟩
  change s.text.insert ch = .atEnd (bytes ++ [ch])
  rw [whole]
  rfl

theorem erase (typed : TypedLine ed (bytes ++ [ch])) :
    ∃ after, ed.process (.special .backspace) = .ok (after, none, .backspace "") ∧
      TypedLine after bytes := by
  rcases typed with ⟨s, shows, whole⟩
  have some : s.text.before ≠ [] := by
    rw [whole]
    exact List.append_ne_nil_of_right_ne_nil _ (List.cons_ne_nil _ _)
  have nothing : s.text.after = strBytes "" := by
    rw [whole]
    rfl
  have agree := process_agree shows (.special .backspace)
  rw [Session.step, Session.eraseByte, if_neg some, nothing, expectUtf8_strBytes,
    Exec.ok_bind] at agree
  rcases agree.of_ok_right with ⟨after, stepped, shown⟩
  refine ⟨after, stepped, _, shown, ?_⟩
  change s.text.eraseBack = .atEnd bytes
  rw [whole, TwoList.eraseBack, TwoList.before_atEnd, List.dropLast_concat]
  rfl

theorem types (typed : TypedLine ed bytes) {text : List UInt8} (noTab : ascii.tab ∉ text)
    (room : bytes.length + text.length ≤ lineLen) :
    ∃ last, Runs.run LineEditor.process ed (text.map .byte) =
        .ok (last, text.map fun ch => (none, .echo ch)) ∧ TypedLine last (bytes ++ text) := by
  induction text generalizing ed bytes with
  | nil => exact ⟨ed, rfl, by rwa [List.append_nil]⟩
  | cons ch text ih =>
      rw [List.length_cons] at room
      rcases List.ne_and_not_mem_of_not_mem_cons noTab with ⟨notTab, noTab⟩
      rcases typed.type notTab.symm (by omega) with ⟨after, stepped, next⟩
      obtain ⟨last, finished, whole⟩ := ih next noTab (by
        rw [List.length_append, List.length_singleton]
        omega)
      refine ⟨last, ?_, ?_⟩
      · rw [List.map_cons, Runs.run_cons_eq_ok]
        exact ⟨after, _, _, stepped, finished, rfl⟩
      · rwa [List.append_assoc] at whole

theorem erases (typed : TypedLine ed bytes) :
    ∃ last, Runs.run LineEditor.process ed
        (List.replicate bytes.length (.special .backspace)) =
          .ok (last, List.replicate bytes.length (none, .backspace "")) ∧ TypedLine last [] := by
  induction bytes using List.reverseRecOn generalizing ed with
  | nil => exact ⟨ed, rfl, typed⟩
  | append_singleton bytes ch ih =>
      rcases typed.erase with ⟨after, stepped, next⟩
      rcases ih next with ⟨last, finished, nothing⟩
      refine ⟨last, ?_, nothing⟩
      rw [List.length_append, List.length_singleton, List.replicate_succ, List.replicate_succ,
        Runs.run_cons_eq_ok]
      exact ⟨after, _, _, stepped, finished, rfl⟩

end TypedLine

namespace Shell

theorem displayBytes_echo (ch : UInt8) : displayBytes (.echo ch) = strBytes (charStr ch) :=
  List.append_nil _

def shownBytes (outputs : List KeyResult) : List UInt8 :=
  (outputs.map fun output => displayBytes output.2).flatten

theorem shownBytes_cons (output : KeyResult) (outputs : List KeyResult) :
    shownBytes (output :: outputs) = displayBytes output.2 ++ shownBytes outputs := rfl

theorem shownBytes_append (front back : List KeyResult) :
    shownBytes (front ++ back) = shownBytes front ++ shownBytes back := by
  rw [shownBytes, List.map_append, List.flatten_append]
  rfl

theorem length_le_shownBytes (bytes : List UInt8) :
    bytes.length ≤ (shownBytes (bytes.map fun ch => (none, .echo ch))).length := by
  induction bytes with
  | nil => exact Nat.zero_le _
  | cons ch bytes ih =>
      have positive := length_charStr_pos ch
      rw [List.map_cons, shownBytes_cons, displayBytes_echo, List.length_append, List.length_cons]
      omega

/-- A byte above ASCII is echoed as more bytes than are stored, and nothing is echoed
as fewer. -/
theorem shownBytes_echo_iff (bytes : List UInt8) :
    shownBytes (bytes.map fun ch => (none, .echo ch)) = bytes ↔ ∀ ch ∈ bytes, ch < 0x80 := by
  induction bytes with
  | nil => exact ⟨fun _ => by simp, fun _ => rfl⟩
  | cons ch bytes ih =>
      rw [List.map_cons, shownBytes_cons, displayBytes_echo, List.forall_mem_cons]
      by_cases ascii : ch < 0x80
      · rw [charStr_ascii ascii, List.singleton_append, List.cons.injEq, ih]
        exact ⟨fun both => ⟨ascii, both.2⟩, fun both => ⟨rfl, both.2⟩⟩
      · constructor
        · intro same
          have wide := length_charStr_wide (UInt8.not_lt.mp ascii)
          have rest := length_le_shownBytes bytes
          have length := congrArg List.length same
          rw [List.length_append, List.length_cons] at length
          omega
        · intro both
          exact absurd both.1 ascii

end Shell

open Shell in
/-- The echo of bytes typed at the end of the line is what they add to the line exactly
when all of them are ASCII; the redrawn line is the line itself. -/
theorem echo_shows_stored_iff {events : List KeyEvent} {ed : LineEditor}
    {earlier : List KeyResult}
    (reached : Runs.run LineEditor.process .new events = .ok (ed, earlier))
    (last : ed.cursor = ed.line.len) {bytes : List UInt8} (noTab : ascii.tab ∉ bytes)
    (room : ed.line.len + bytes.length ≤ lineLen) :
    ∃ after outputs, Runs.run LineEditor.process ed (bytes.map .byte) = .ok (after, outputs) ∧
      (∀ output ∈ outputs, ∃ ch, output = (none, .echo ch)) ∧
      after.line.contents = ed.line.contents ++ bytes ∧
      (∀ s n, strBytes s = after.line.contents →
        displayBytes (.redrawLine s n) =
          displayBytes (.clearLine n) ++ (ed.line.contents ++ bytes)) ∧
      (shownBytes outputs = bytes ↔ ∀ ch ∈ bytes, ch < 0x80) := by
  have typed := TypedLine.of_reached reached last
  obtain ⟨after, finished, whole⟩ := typed.types noTab (by
    rcases typed with ⟨s, shows, _⟩
    rwa [shows.line.contents_eq, ← shows.line.len_eq])
  refine ⟨after, _, finished, ?_, whole.contents, ?_, shownBytes_echo_iff bytes⟩
  · intro output member
    rcases List.mem_map.mp member with ⟨ch, _, rfl⟩
    exact ⟨ch, rfl⟩
  · intro s n shown
    rw [displayBytes_redrawLine, shown, whole.contents]

theorem echo_shows_stored_ascii :
    ∃ after outputs, Runs.run LineEditor.process .new [.byte 0x68, .byte 0x69] =
        .ok (after, outputs) ∧ after.line.contents = [0x68, 0x69] ∧
      Shell.shownBytes outputs = [0x68, 0x69] := by
  obtain ⟨after, outputs, finished, _, whole, _, echo⟩ := echo_shows_stored_iff
    (rfl : Runs.run LineEditor.process .new [] = .ok (.new, [])) rfl
    (by decide : ascii.tab ∉ [(0x68 : UInt8), 0x69]) (by decide)
  have ascii : ∀ ch ∈ [(0x68 : UInt8), 0x69], ch < 0x80 :=
    List.forall_mem_cons.mpr ⟨by decide, List.forall_mem_singleton.mpr (by decide)⟩
  exact ⟨after, outputs, finished, whole, echo.mpr ascii⟩

/-- The two bytes of `é` are echoed as the four of two other characters. -/
theorem echo_of_two_byte_character :
    ∃ after outputs, Runs.run LineEditor.process .new [.byte 0xC3, .byte 0xA9] =
        .ok (after, outputs) ∧ after.line.contents = [0xC3, 0xA9] ∧
      Shell.shownBytes outputs = [0xC3, 0x83, 0xC2, 0xA9] :=
  ⟨_, _, rfl, by decide, by decide⟩

namespace Shell

structure State (S : Type := FrameBuffer) where
  editor : LineEditor
  console : Console S

/-- A key in the loop of `run`, up to the execution of a submitted line. -/
def takeKey (font : Font) (state : State) (event : KeyEvent) : Exec (State × KeyResult) := do
  let (editor, result) ← state.editor.process event
  let console ← handleDisplay font state.console result.2
  .ok (⟨editor, console⟩, result)

def typeAndErase (bytes : List UInt8) : List KeyEvent :=
  bytes.map .byte ++ List.replicate bytes.length (.special .backspace)

/-- Erasing undoes typing: the line is empty, and the screen is as it was. -/
def ErasesTyping (font : Font) (start : State) (bytes : List UInt8) : Prop :=
  ∃ last outputs, Runs.run (takeKey font) start (typeAndErase bytes) = .ok (last, outputs) ∧
    last.editor.line.contents = [] ∧
    last.console.buffer = start.console.buffer ∧
    last.console.cursor.x = start.console.cursor.x ∧
    last.console.cursor.y = start.console.cursor.y

theorem takeKeys_ok (font : Font) {events : List KeyEvent} {ed last : LineEditor}
    {results : List KeyResult} {console : Console} {page : Console.Page}
    (ran : Runs.run LineEditor.process ed events = .ok (last, results))
    (displays : console.Displays page) :
    ∃ after, Runs.run (takeKey font) ⟨ed, console⟩ events = .ok (⟨last, after⟩, results) ∧
      after.Displays ((shownBytes results).foldl (put screen) page) := by
  induction events generalizing ed console page results with
  | nil =>
      cases ran
      exact ⟨console, rfl, displays⟩
  | cons event events ih =>
      rcases (Runs.run_cons_eq_ok _).mp ran with ⟨next, result, rest, stepped, later, rfl⟩
      rcases handleDisplay_follows font displays result.2 with ⟨middle, printed, shown⟩
      rcases ih later shown with ⟨after, finished, follows⟩
      have taken : takeKey font ⟨ed, console⟩ event = .ok (⟨next, middle⟩, result) := by
        rw [takeKey, stepped, Exec.ok_bind]
        dsimp only
        rw [printed, Exec.ok_bind]
      refine ⟨after, ?_, ?_⟩
      · rw [Runs.run_cons_eq_ok]
        exact ⟨⟨next, middle⟩, result, rest, taken, finished, rfl⟩
      · rw [shownBytes_cons, List.foldl_append]
        exact follows

theorem shownBytes_erases (page : Console.Page) (count : Nat) :
    (shownBytes (List.replicate count (none, .backspace ""))).foldl (put screen) page =
      Terminal.erase^[count] page := by
  induction count generalizing page with
  | zero => rfl
  | succ count ih =>
      rw [List.replicate_succ, shownBytes_cons, List.foldl_append, ih, displayBytes_backspace,
        Function.iterate_succ_apply]
      rfl

theorem typeAndErase_ok (font : Font) {ed : LineEditor} {console : Console}
    {page : Console.Page} {bytes : List UInt8} (typed : TypedLine ed [])
    (displays : console.Displays page) (printable : ∀ ch ∈ bytes, Printable ch)
    (fits : bytes.length ≤ lineLen) :
    ∃ last outputs,
      Runs.run (takeKey font) ⟨ed, console⟩ (typeAndErase bytes) = .ok (last, outputs) ∧
      TypedLine last.editor [] ∧
      last.console.Displays
        (Terminal.erase^[bytes.length] (bytes.foldl (put screen) page)) := by
  have noTab : ascii.tab ∉ bytes := fun member => absurd (printable _ member).1 (by decide)
  have ascii := (shownBytes_echo_iff bytes).mpr fun ch member => (printable ch member).ascii
  rcases typed.types noTab (by simpa using fits) with ⟨middle, wrote, whole⟩
  rcases whole.erases with ⟨last, erased, nothing⟩
  have both := (Runs.run_append_eq_ok _).mpr ⟨middle, _, _, wrote, erased, rfl⟩
  rcases takeKeys_ok font both displays with ⟨after, finished, shown⟩
  rw [shownBytes_append, List.foldl_append, ascii, List.nil_append, shownBytes_erases] at shown
  exact ⟨⟨last, after⟩, _, finished, nothing, shown⟩

section Erasing

variable {events : List KeyEvent} {ed : LineEditor} {earlier : List KeyResult}
  {console : Console} {bytes : List UInt8}

theorem typedLine_of_reached
    (reached : Runs.run LineEditor.process .new events = .ok (ed, earlier))
    (empty : ed.line.len = 0) : TypedLine ed [] := by
  rcases run_shows reached with ⟨s, _, shows⟩
  have length := shows.line.len_eq
  have cursor := shows.cursor
  rw [TwoList.length_contents] at length
  have line := TypedLine.of_reached reached (by omega)
  have nothing : ed.line.contents = [] := by
    rw [shows.line.contents_eq, ← List.length_eq_zero_iff, ← shows.line.len_eq, empty]
  rwa [nothing] at line

theorem erasesTyping_iff (font : Font)
    (reached : Runs.run LineEditor.process .new events = .ok (ed, earlier))
    (empty : ed.line.len = 0) {page : Console.Page} (displays : console.Displays page)
    (printable : ∀ ch ∈ bytes, Printable ch) (fits : bytes.length ≤ lineLen) :
    ErasesTyping font ⟨ed, console⟩ bytes ↔
      Terminal.erase^[bytes.length] (bytes.foldl (put screen) page) = page := by
  obtain ⟨last, outputs, finished, line, shown⟩ :=
    typeAndErase_ok font (typedLine_of_reached reached empty) displays printable fits
  constructor
  · intro erases
    rcases erases with ⟨other, _, same, _, buffer, x, y⟩
    rw [finished] at same
    cases same
    dsimp only at buffer x y
    rw [shown.rows, displays.rows] at buffer
    rw [shown.x, displays.x] at x
    rw [shown.y, displays.y] at y
    exact Terminal.ext (congrArg₂ Window.mk buffer (Fin.ext y)) (Fin.ext x)
  · intro same
    rw [same] at shown
    refine ⟨last, outputs, finished, line.contents, ?_, ?_, ?_⟩
    · exact shown.rows.trans displays.rows.symm
    · exact shown.x.trans displays.x.symm
    · exact shown.y.trans displays.y.symm

def BlankCells (console : Console) (first count : Nat) : Prop :=
  ∀ (row : Fin 30) (column : Fin 80), first ≤ 80 * row.val + column.val →
    80 * row.val + column.val < first + count → console.buffer row column = 0x20

/-- Erasing goes back through one row only, so it undoes typing exactly when the text
stays in the row of the prompt. -/
theorem typing_erased_iff (font : Font)
    (reached : Runs.run LineEditor.process .new events = .ok (ed, earlier))
    (empty : ed.line.len = 0) (y : Fin 30) (row : console.cursor.y = y.val)
    (column : console.cursor.x = 6) (fits : bytes.length ≤ lineLen)
    (printable : ∀ ch ∈ bytes, Printable ch) (onScreen : y.val + (6 + bytes.length) / 80 < 30)
    (blank : BlankCells console (80 * y.val + 6) bytes.length) :
    ErasesTyping font ⟨ed, console⟩ bytes ↔ 6 + bytes.length < 80 := by
  have displays : console.Displays ⟨⟨console.buffer, y⟩, 6⟩ := ⟨rfl, column, row⟩
  have writeable : ∀ ch ∈ bytes, Control.of ch = .writeable :=
    fun ch member => (printable ch member).writeable
  rw [erasesTyping_iff font reached empty displays printable fits]
  constructor
  · intro same
    by_contra wraps
    refine Terminal.erase_puts_wrapped writeable (Nat.not_lt.mp wraps) ?_ same
    have start : Terminal.place ⟨⟨console.buffer, y⟩, 6⟩ = 80 * y.val + 6 := rfl
    rw [start]
    omega
  · intro inside
    apply Terminal.erase_puts writeable inside
    intro column after before
    exact blank y column (Nat.add_le_add_left after _) (by dsimp only at before; omega)

theorem typing_erased_letters :
    ErasesTyping ⟨fun _ => 0⟩ ⟨.new, ⟨none, fun _ => blankLine, ⟨6, 4, true⟩, .white, .black⟩⟩
      [0x61, 0x62] :=
  (typing_erased_iff _ (rfl : Runs.run LineEditor.process .new [] = .ok (.new, [])) rfl 4 rfl rfl
    (by decide) (by simp [Printable]) (by decide) fun _ _ _ _ => rfl).mpr (by decide)

/-- With 74 letters the cursor wraps to the next row, and Backspace stays there. -/
theorem typing_not_erased :
    ¬ ErasesTyping ⟨fun _ => 0⟩ ⟨.new, ⟨none, fun _ => blankLine, ⟨6, 4, true⟩, .white, .black⟩⟩
      (List.replicate 74 0x61) := by
  have displays : Console.Displays ⟨none, fun _ => blankLine, ⟨6, 4, true⟩, .white, .black⟩
      ⟨⟨fun _ => blankLine, 4⟩, 6⟩ := ⟨rfl, rfl, rfl⟩
  have printable : ∀ ch ∈ List.replicate 74 (0x61 : UInt8), Printable ch := by
    intro ch member
    rw [List.eq_of_mem_replicate member]
    simp [Printable]
  rw [erasesTyping_iff _ (rfl : Runs.run LineEditor.process .new [] = .ok (.new, [])) rfl displays
    printable (by decide)]
  exact Terminal.erase_puts_wrapped (fun ch member => (printable ch member).writeable) (by decide)
    (by decide)

end Erasing

end Shell

end Ease
