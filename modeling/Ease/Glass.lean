import Ease.ConsoleRuns
import Ease.ConsoleSimulation
import Ease.Transcript

/-! What the frame buffer shows when it is attached to a console that has been written on:
everything but the rows above the cursor, which nothing draws again. -/

namespace Ease

open Scrollback
open Exec (Lockstep)
open Terminal (put screen start)

namespace Console

def cover (rows : Nat) (console : Console) : Console :=
  { console with
    buffer := fun row => if row.val < rows then blankLine else console.buffer row }

/-- The second console is the first without some rows above the cursor, at most `limit`. -/
def Tracks (limit : Nat) (console covered : Console) : Prop :=
  ∃ rows ≤ limit, rows < 30 ∧ rows ≤ console.cursor.y ∧ covered = console.cover rows

section Tracks

variable {font : Font} {limit : Nat} {console covered : Console}

theorem Tracks.line (tracks : Tracks limit console covered) :
    covered.buffer.read console.cursor.y = console.buffer.read console.cursor.y := by
  rcases tracks with ⟨rows, _, _, above, rfl⟩
  by_cases inside : console.cursor.y < 30
  · have uncovered : (console.cover rows).buffer ⟨console.cursor.y, inside⟩ =
        console.buffer ⟨console.cursor.y, inside⟩ := if_neg (Nat.not_lt.mpr above)
    rw [Slots.read_ok _ inside, Slots.read_ok _ inside, uncovered]
  · rw [Slots.read, Slots.read, dif_neg inside, dif_neg inside]

theorem Tracks.alike (tracks : Tracks limit console covered) : Alike console covered := by
  have same := tracks.line
  rcases tracks with ⟨rows, _, _, _, rfl⟩
  refine ⟨rfl, rfl, rfl, rfl, ?_⟩
  rw [Console.charAtCursor, ← same]
  rfl

theorem Tracks.storeAtCursor (tracks : Tracks limit console covered) (ch : UInt8) :
    Lockstep (Tracks limit) (console.storeAtCursor ch) (covered.storeAtCursor ch) := by
  rw [Console.storeAtCursor, Console.storeAtCursor, ← tracks.alike.cursor, tracks.line]
  apply Lockstep.same
  intro line _
  apply Lockstep.same
  intro written _
  rcases tracks with ⟨rows, bounded, inside, above, rfl⟩
  by_cases inScreen : console.cursor.y < 30
  · rw [Slots.write_ok _ _ inScreen, Slots.write_ok _ _ inScreen]
    refine .ok ⟨rows, bounded, inside, above, ?_⟩
    simp only [cover, Console.mk.injEq, true_and, and_true]
    funext row
    by_cases here : row = ⟨console.cursor.y, inScreen⟩
    · subst here
      simp only [Function.update_self, Nat.not_lt.mpr above, if_false]
    · simp only [Function.update_of_ne here]
  · rw [Slots.write, Slots.write, dif_neg inScreen, dif_neg inScreen]
    exact .error _

theorem Tracks.paint (tracks : Tracks limit console covered) (ch : UInt8) (fg bg : Colour) :
    Lockstep (Tracks limit) (console.paint font ch fg bg) (covered.paint font ch fg bg) := by
  rcases tracks with ⟨rows, bounded, inside, above, rfl⟩
  rcases console with ⟨attached, buffer, cursor, _, _⟩
  cases attached with
  | none => exact .ok ⟨rows, bounded, inside, above, rfl⟩
  | some fb =>
      apply Lockstep.same
      intro drawn _
      exact .ok ⟨rows, bounded, inside, above, rfl⟩

theorem scrolledRows_cover (console : Console) {rows : Nat} (inside : rows < 30) :
    scrolledRows (console.cover rows).buffer =
      fun row => if row.val < rows - 1 then blankLine else scrolledRows console.buffer row := by
  funext row
  rw [scrolledRows, scrolledRows]
  by_cases next : row.val + 1 < 30
  · rw [dif_pos next, dif_pos next, cover]
    dsimp only
    by_cases covers : row.val + 1 < rows
    · rw [if_pos covers, if_pos (by omega)]
    · rw [if_neg covers, if_neg (by omega)]
  · rw [dif_neg next, dif_neg next, ite_self]

/-- Scrolling moves a covered row off the screen. -/
theorem Tracks.scroll (tracks : Tracks limit console covered) :
    Lockstep (Tracks limit) console.scroll covered.scroll := by
  have last : rowCount - 1 = 29 := rfl
  rcases tracks with ⟨rows, bounded, inside, above, rfl⟩
  have hidden := scrolledRows_cover console inside
  rw [Console.scroll, Console.scroll, shiftRows, shiftRows, last,
    shiftRows_ok console.buffer (by omega), shiftRows_ok (console.cover rows).buffer (by omega),
    Exec.ok_bind, Exec.ok_bind, Slots.write_ok _ _ (by omega), Slots.write_ok _ _ (by omega),
    Exec.ok_bind, Exec.ok_bind, scrolledRows_eq, scrolledRows_eq, hidden]
  rcases console with ⟨attached, buffer, cursor, fg, bg⟩
  cases attached with
  | none => exact .ok ⟨rows - 1, by omega, by omega, Nat.le_trans (by omega) last.ge, rfl⟩
  | some fb =>
      apply Lockstep.same
      intro scrolled _
      exact .ok ⟨rows - 1, by omega, by omega, Nat.le_trans (by omega) last.ge, rfl⟩

theorem tracks_simulation (font : Font) (limit : Nat) : Simulation font (Tracks limit) where
  alike tracks := tracks.alike
  setVisible := by
    rintro console covered ⟨rows, bounded, inside, above, rfl⟩ visible
    exact ⟨rows, bounded, inside, above, rfl⟩
  moveTo := by
    rintro console covered ⟨rows, bounded, inside, above, rfl⟩ x y down
    exact ⟨rows, bounded, inside, above.trans down, rfl⟩
  storeAtCursor tracks := tracks.storeAtCursor
  paint tracks := tracks.paint
  scroll tracks := tracks.scroll
  clear := by
    rintro console covered ⟨rows, _, _, _, rfl⟩
    exact ⟨0, Nat.zero_le _, by decide, Nat.zero_le _, rfl⟩

theorem putWriteable_setVisible (font : Font) (console : Console) (visible : Bool) (ch : UInt8) :
    (console.setVisible visible).putWriteable font ch = console.putWriteable font ch := by
  rcases console with ⟨attached, buffer, ⟨x, y, shown⟩, fg, bg⟩
  simp only [putWriteable, storeAtCursor, setVisible]
  cases buffer.read y with
  | error fault => rfl
  | ok line =>
      rw [Exec.ok_bind, Exec.ok_bind]
      cases Slots.write line x ch with
      | error fault => rfl
      | ok written =>
          rw [Exec.ok_bind, Exec.ok_bind]
          cases buffer.write y written with
          | error fault => rfl
          | ok stored =>
              cases attached with
              | none => rfl
              | some fb =>
                  simp only [Exec.ok_bind, drawChar, paint]
                  cases font.drawChar fb (x * Font.width) (y * Font.height) ch fg bg with
                  | error fault => rfl
                  | ok drawn => rfl
end Tracks

structure Lit (font : Font) (console : Console) : Prop where
  page : ∃ page, console.Displays page
  drawn : console.Drawn font
  attached : console.fb.isSome = true
  visible : console.cursor.visible = true

theorem Lit.writeStr {font : Font} {console : Console} (blank : BlankSpace font)
    (lit : console.Lit font) (bytes : List UInt8) :
    ∃ after, console.writeStr font bytes = .ok after ∧ after.Lit font := by
  rcases lit.page with ⟨page, displays⟩
  rcases writeStr_follows font displays bytes with ⟨after, wrote, so, visible⟩
  exact ⟨after, wrote, ⟨_, so.displays⟩, so.drawn blank lit.drawn,
    so.keeps.attached.trans lit.attached, visible⟩

/-- All is on the screen but some rows, at most `limit`. -/
def OnGlass (font : Font) (limit : Nat) (console : Console) : Prop :=
  ∃ covered, Tracks limit console covered ∧ covered.Lit font

theorem writeStr_onGlass {font : Font} (blank : BlankSpace font) (limit : Nat)
    (bytes : List UInt8) :
    Exec.Preserves (OnGlass font limit) fun console => console.writeStr font bytes := by
  intro before after returned glass
  rcases glass with ⟨covered, tracks, lit⟩
  have lockstep := (tracks_simulation font limit).writeStr tracks bytes
  dsimp only at returned
  rw [returned] at lockstep
  rcases lockstep.of_ok with ⟨other, wrote, next⟩
  rcases lit.writeStr blank bytes with ⟨same, again, still⟩
  rw [wrote] at again
  cases again
  exact ⟨other, next, still⟩

/-- The rows on the glass from some row on, and the background above it. -/
def ShowsFrom (font : Font) (console : Console) (limit : Nat) : Prop :=
  ∃ fb rows, console.fb = some fb ∧ rows ≤ limit ∧ rows ≤ console.cursor.y ∧
    ∀ (row : Fin 30) (column : Fin 80), column.val ≤ 78 → fb.cell row column =
      if row.val < rows then fun _ _ => console.bg.asRaw
      else if console.AtCursor row column then
        font.image (console.buffer row column) console.bg console.fg
      else font.image (console.buffer row column) console.fg console.bg

theorem OnGlass.showsFrom {font : Font} {limit : Nat} {console : Console}
    (blank : BlankSpace font) (glass : OnGlass font limit console) :
    console.ShowsFrom font limit := by
  rcases glass with ⟨covered, ⟨rows, bounded, inside, above, rfl⟩, lit⟩
  rcases lit.drawn.faithful lit.attached with ⟨fb, present, cells⟩
  refine ⟨fb, rows, present, bounded, above, ?_⟩
  intro row column early
  rw [cells row column early]
  have visible : (console.cover rows).cursor.visible = true := lit.visible
  simp only [visible, true_and]
  by_cases hidden : row.val < rows
  · have away : ¬ (console.cover rows).AtCursor row column := by
      intro here
      have at_row : row.val = console.cursor.y := here.1
      omega
    have space : (console.cover rows).buffer row column = 0x20 := by
      rw [cover]
      dsimp only
      rw [if_pos hidden]
      rfl
    rw [if_neg away, if_pos hidden, space, image_space blank]
    rfl
  · have same : (console.cover rows).buffer row column = console.buffer row column := by
      rw [cover]
      dsimp only
      rw [if_neg hidden]
    rw [if_neg hidden, same]
    rfl

end Console

namespace Shell

open Console (OnGlass BlankSpace)

variable {font : Font} {limit : Nat}

theorem printAll_onGlass (blank : BlankSpace font) (tick : UInt32) (statements : List Print) :
    Exec.Preserves (OnGlass font limit) fun console => printAll font tick console statements :=
  .foldlM (Console.writeStr_onGlass blank limit) _

theorem round_onGlass (blank : BlankSpace font) {state after : State} {input : KeyEvent × UInt32}
    {result : Option (String × UInt32)} (glass : OnGlass font limit state.console)
    (ran : round font state input = .ok (after, result)) : OnGlass font limit after.console := by
  rcases input with ⟨event, tick⟩
  simp only [round, Exec.bind_eq_ok] at ran
  rcases ran with ⟨⟨editor, line, action⟩, _, console, printed, ran⟩
  have shown := printAll_onGlass blank tick _ _ _ printed glass
  cases line with
  | none =>
      cases ran
      exact shown
  | some line =>
      rcases Exec.bind_eq_ok.mp ran with ⟨output, _, ran⟩
      rcases Exec.bind_eq_ok.mp ran with ⟨last, again, ran⟩
      cases ran
      exact printAll_onGlass blank tick _ _ _ again shown

theorem rounds_onGlass (blank : BlankSpace font) {state after : State}
    {inputs : List (KeyEvent × UInt32)} {results : List (Option (String × UInt32))}
    (glass : OnGlass font limit state.console)
    (ran : Runs.run (round font) state inputs = .ok (after, results)) :
    OnGlass font limit after.console :=
  @Runs.run_invariant _ _ _ _ (round font) (fun state => OnGlass font limit state.console) _ _ _ _
    (fun _ _ _ _ _ kept stepped => round_onGlass blank kept stepped) glass ran

end Shell

namespace Console

structure Printed (font : Font) (earlier : List (List UInt8)) (before : Console) : Prop where
  written : earlier.foldlM (writeStr font) Console.new = .ok before
  displays : before.Displays (earlier.flatten.foldl (put screen) (start screen))
  fresh : Terminal.AtFreshRow (earlier.flatten.foldl (put screen) (start screen))
  colours : before.fg = .white ∧ before.bg = .black

theorem printed (font : Font) {earlier : List (List UInt8)}
    (ended : ∀ last ∈ earlier.flatten.getLast?, last = ascii.lf) :
    ∃ before, Printed font earlier before := by
  have blank : Console.new.Displays (start screen) := ⟨rfl, rfl, rfl⟩
  rcases writeStrs_follow font blank earlier with ⟨before, written, so⟩
  have displays := so.displays
  rw [← List.foldl_flatten] at displays
  exact ⟨before, written, displays, Shell.boot_fresh ended, so.keeps.fg, so.keeps.bg⟩

variable {font : Font} {earlier : List (List UInt8)} {before : Console} {fb : FrameBuffer}

theorem Printed.covered_fresh (printed : Printed font earlier before)
    (filled : ∀ x y, fb.pixel x y = Colour.black.asRaw) :
    (((before.attachFb fb).setVisible false).cover before.cursor.y).Fresh := by
  have shown := printed.displays
  refine ⟨?_, rfl, ⟨fb, rfl, ?_⟩, shown.inRow, shown.inScreen⟩
  · funext row
    by_cases above : row.val < before.cursor.y
    · exact if_pos above
    · have uncovered : (((before.attachFb fb).setVisible false).cover before.cursor.y).buffer row =
          before.buffer row := if_neg above
      rw [uncovered, shown.rows]
      rw [shown.y, Nat.not_lt] at above
      rcases Nat.lt_or_eq_of_le above with under | here
      · exact printed.fresh.below row (Fin.lt_def.mpr under)
      · rw [← Fin.ext here]
        exact printed.fresh.current
  · intro x y
    rw [filled]
    exact congrArg Colour.asRaw printed.colours.2.symm

/-- The first text after the attaching draws over the cursor that was never drawn. -/
theorem Printed.attach (printed : Printed font earlier before) (blank : BlankSpace font)
    (filled : ∀ x y, fb.pixel x y = Colour.black.asRaw) {first : UInt8} {rest : List UInt8}
    (text : Control.of first = .writeable) {after : Console}
    (wrote : (before.attachFb fb).writeStr font (first :: rest) = .ok after) :
    OnGlass font before.cursor.y after := by
  have fresh := printed.covered_fresh filled
  have tracks : Tracks before.cursor.y ((before.attachFb fb).setVisible false)
      (((before.attachFb fb).setVisible false).cover before.cursor.y) :=
    ⟨before.cursor.y, Nat.le_refl _, printed.displays.inScreen, Nat.le_refl _, rfl⟩
  have same : (before.attachFb fb).writeStr font (first :: rest) =
      ((before.attachFb fb).setVisible false).writeStr font (first :: rest) := by
    simp only [writeStr, putChars, List.foldlM_cons, putChar, text, putWriteable_setVisible]
  have lockstep := (tracks_simulation font _).writeStr tracks (first :: rest)
  rw [← same, wrote] at lockstep
  rcases lockstep.of_ok with ⟨covered, written, next⟩
  rcases writeStr_follows font fresh.displays (first :: rest) with ⟨other, again, so, visible⟩
  rw [written] at again
  cases again
  exact ⟨covered, next, ⟨_, so.displays⟩, so.drawn blank (fresh.drawn blank), so.keeps.attached,
    visible⟩

end Console

namespace Shell

/-- A session on a frame buffer that is attached after the first messages: the console holds
the whole transcript, and the glass shows it but for the rows of those messages. -/
theorem glass_shows_session (font : Font) (blank : Console.BlankSpace font)
    {earlier : List (List UInt8)}
    (earlierEnded : ∀ last ∈ earlier.flatten.getLast?, last = ascii.lf) (fb : FrameBuffer)
    (filled : ∀ x y, fb.pixel x y = Colour.black.asRaw) {first : UInt8} {rest : List UInt8}
    (text : Control.of first = .writeable) {boot : List (List UInt8)}
    (ended : ∀ last ∈ ((first :: rest) :: boot).flatten.getLast?, last = ascii.lf)
    (inputs : List (KeyEvent × UInt32)) (typed : ∀ input ∈ inputs, TypesText input.1)
    (calm : Calm (inputs.map Prod.fst)) :
    ∃ before console state results,
      earlier.foldlM (Console.writeStr font) Console.new = .ok before ∧
      ((first :: rest) :: boot ++ [strBytes prompt]).foldlM (Console.writeStr font)
        (before.attachFb fb) = .ok console ∧
      Runs.run (round font) ⟨.new, console⟩ inputs = .ok (state, results) ∧
      ShowsTranscript state (earlier.flatten ++ ((first :: rest) :: boot).flatten)
        (results.filterMap id) ∧
      state.console.ShowsFrom font before.cursor.y := by
  rcases Console.printed font earlierEnded with ⟨before, printed⟩
  have attached : (before.attachFb fb).Displays
      (earlier.flatten.foldl (put screen) (start screen)) :=
    ⟨printed.displays.rows, printed.displays.x, printed.displays.y⟩
  rcases Console.writeStrs_follow font attached ((first :: rest) :: boot ++ [strBytes prompt]) with
    ⟨console, booted, so⟩
  have displays := so.displays
  rw [← List.foldl_flatten, ← List.foldl_append, List.flatten_append, List.flatten_singleton,
    ← List.append_assoc] at displays
  have whole : ∀ last ∈ (earlier.flatten ++ ((first :: rest) :: boot).flatten).getLast?,
      last = ascii.lf := by
    rw [List.getLast?_append_of_ne_nil _ (by simp)]
    exact ended
  obtain ⟨state, results, s, page, follows⟩ :=
    rounds_follow font displays (onTranscript_boot whole) typed calm
  refine ⟨before, console, state, results, printed.written, booted, follows.ran,
    follows.showsTranscript calm, ?_⟩
  apply Console.OnGlass.showsFrom blank
  apply rounds_onGlass blank _ follows.ran
  rw [List.cons_append, List.foldlM_cons] at booted
  rcases Exec.bind_eq_ok.mp booted with ⟨middle, opened, booted⟩
  have lit := printed.attach blank filled text opened
  exact Exec.Preserves.foldlM (Console.writeStr_onGlass blank _) _ _ _ booted lit

theorem glass_shows_recalled_command :
    ∃ before console state results,
      [[0x72, ascii.lf]].foldlM (Console.writeStr sampleFont) Console.new = .ok before ∧
      ([0x48, 0x69, ascii.lf] :: [] ++ [strBytes prompt]).foldlM (Console.writeStr sampleFont)
        (before.attachFb ⟨fun _ => 0⟩) = .ok console ∧
      Runs.run (round sampleFont) ⟨.new, console⟩
        [(.byte 0x78, 5), (.special .enter, 6), (.special .arrowUp, 7)] = .ok (state, results) ∧
      ShowsTranscript state ([[0x72, ascii.lf]].flatten ++ [[0x48, 0x69, ascii.lf]].flatten)
        (results.filterMap id) ∧
      state.console.ShowsFrom sampleFont before.cursor.y := by
  apply glass_shows_session sampleFont sampleFont_blankSpace
  · simp
  · exact fun _ _ => rfl
  · decide
  · simp
  · simp [TypesText, Printable]
  · exact recall_calm

end Shell

end Ease
