import Ease.LineEditor
import Ease.TwoList

/-! What the line editor is for: a text with a cursor, the lines submitted before,
newest first, and the line set aside while they are browsed. -/

namespace Ease

structure Session where
  text : TwoList UInt8
  saved : List UInt8
  browse : Option Nat
  history : List String
  textFits : text.contents.length ≤ lineLen
  savedFits : saved.length ≤ lineLen
  historyFits : history.length ≤ historySize
  rowsFit : ∀ row ∈ history, (strBytes row).length ≤ lineLen
  browseBelow : ∀ i, browse = some i → i < history.length

namespace Session

def new : Session where
  text := .atEnd []
  saved := []
  browse := none
  history := []
  textFits := by simp
  savedFits := Nat.zero_le _
  historyFits := Nat.zero_le _
  rowsFit := by simp
  browseBelow := by simp

def withText (s : Session) (text : TwoList UInt8) (fits : text.contents.length ≤ lineLen) :
    Session :=
  { s with text, textFits := fits }

/-- The history row that is shown, or the edited line when none is. -/
def recalledLength (s : Session) : Nat :=
  match s.browse with
  | none => s.text.contents.length
  | some i => (strBytes (s.history.getD i "")).length

def olderIndex (s : Session) : Nat :=
  match s.browse with
  | none => 0
  | some i => i + 1

def typeByte (s : Session) (ch : UInt8) : Exec (Session × KeyResult) :=
  if ch = ascii.tab then .ok (s, none, .bell)
  else if room : s.text.contents.length < lineLen then
    let next := s.withText (s.text.insert ch) (by rw [TwoList.length_insert]; exact room)
    if s.text.after = [] then .ok (next, none, .echo ch)
    else do
      let shown ← expectUtf8 "should be utf-8" (ch :: s.text.after)
      .ok (next, none, .redraw shown 0)
  else .ok (s, none, .bell)

def submit (s : Session) : Exec (Session × KeyResult) :=
  match decoded : fromUtf8 s.text.contents with
  | none => .error (.expectFailed "should only have UTF-8-valid bytes")
  | some row =>
      .ok ({ text := .atEnd [], saved := [], browse := none,
             history := (row :: s.history).take historySize,
             textFits := by simp, savedFits := Nat.zero_le _,
             historyFits := by rw [List.length_take]; exact Nat.min_le_left _ _,
             rowsFit := by
               intro other member
               rcases List.mem_cons.mp (List.mem_of_mem_take member) with rfl | older
               · rw [fromUtf8_eq_some.mp decoded]
                 exact s.textFits
               · exact s.rowsFit other older,
             browseBelow := by simp }, some row, .enter)

def eraseByte (s : Session) : Exec (Session × KeyResult) :=
  if s.text.before = [] then .ok (s, none, .bell)
  else do
    let shown ← expectUtf8 "should be valid UTF-8" s.text.after
    .ok (s.withText s.text.eraseBack (s.text.length_eraseBack_le.trans s.textFits), none,
      .backspace shown)

def abandon (s : Session) : Exec (Session × KeyResult) :=
  .ok ({ s with text := .atEnd [], browse := none, textFits := by simp, browseBelow := by simp },
    none, .clearLine s.text.contents.length)

def recallOlder (s : Session) : Exec (Session × KeyResult) :=
  if below : s.olderIndex < s.history.length then
    let row := s.history[s.olderIndex]
    .ok ({ s with
             text := .atEnd (strBytes row)
             saved := if s.browse.isNone then s.text.contents else s.saved
             browse := some s.olderIndex
             textFits := by rw [TwoList.contents_atEnd]; exact s.rowsFit _ (List.getElem_mem _)
             savedFits := by
               split
               · exact s.textFits
               · exact s.savedFits
             browseBelow := by rintro i ⟨rfl⟩; exact below },
      none, .redrawLine row s.recalledLength)
  else .ok (s, none, .bell)

def recallNewer (s : Session) : Exec (Session × KeyResult) :=
  match shown : s.browse with
  | none => .ok (s, none, .bell)
  | some 0 => do
      let line ← expectUtf8 "should be UTF-8" s.saved
      .ok ({ s with text := .atEnd s.saved, browse := none,
                    textFits := by rw [TwoList.contents_atEnd]; exact s.savedFits,
                    browseBelow := by simp },
        none, .redrawLine line s.text.contents.length)
  | some (i + 1) =>
      have below : i < s.history.length := by have := s.browseBelow _ shown; omega
      let row := s.history[i]
      .ok ({ s with text := .atEnd (strBytes row), browse := some i,
                    textFits := by
                      rw [TwoList.contents_atEnd]
                      exact s.rowsFit _ (List.getElem_mem _),
                    browseBelow := by rintro j ⟨rfl⟩; exact below },
        none, .redrawLine row s.text.contents.length)

def moveRight (s : Session) : Exec (Session × KeyResult) :=
  match s.text.after with
  | [] => .ok (s, none, .bell)
  | ch :: _ =>
      .ok (s.withText s.text.moveRight (by rw [TwoList.contents_moveRight]; exact s.textFits), none,
        .cursorRight ch)

def moveLeft (s : Session) : Exec (Session × KeyResult) :=
  if s.text.before = [] then .ok (s, none, .bell)
  else .ok (s.withText s.text.moveLeft (by rw [TwoList.contents_moveLeft]; exact s.textFits), none,
    .cursorLeft)

def step (s : Session) : KeyEvent → Exec (Session × KeyResult)
  | .byte ch => s.typeByte ch
  | .special .enter => s.submit
  | .special .backspace => s.eraseByte
  | .special .esc => s.abandon
  | .special .arrowUp => s.recallOlder
  | .special .arrowDown => s.recallNewer
  | .special .arrowRight => s.moveRight
  | .special .arrowLeft => s.moveLeft

/-- Everything that one event can do, with the guard under which it does it. -/
inductive Acts (s : Session) : KeyEvent → Session → KeyResult → Prop where
  | discarded : Acts s (.byte ascii.tab) s (none, .bell)
  | full (ch : UInt8) (text : ch ≠ ascii.tab) (length : s.text.contents.length = lineLen) :
      Acts s (.byte ch) s (none, .bell)
  | appended (ch : UInt8) (text : ch ≠ ascii.tab) (room : s.text.contents.length < lineLen)
      (last : s.text.after = []) (fits : (s.text.insert ch).contents.length ≤ lineLen) :
      Acts s (.byte ch) (s.withText (s.text.insert ch) fits) (none, .echo ch)
  | inserted (ch : UInt8) (text : ch ≠ ascii.tab) (room : s.text.contents.length < lineLen)
      (shown : String) (bytes : strBytes shown = ch :: s.text.after) (more : s.text.after ≠ [])
      (fits : (s.text.insert ch).contents.length ≤ lineLen) :
      Acts s (.byte ch) (s.withText (s.text.insert ch) fits) (none, .redraw shown 0)
  | submitted (row : String) (bytes : strBytes row = s.text.contents) (t : Session)
      (text : t.text = .atEnd []) (saved : t.saved = []) (browse : t.browse = none)
      (history : t.history = (row :: s.history).take historySize) :
      Acts s (.special .enter) t (some row, .enter)
  | nothingToErase (start : s.text.before = []) : Acts s (.special .backspace) s (none, .bell)
  | erased (start : s.text.before ≠ []) (shown : String) (bytes : strBytes shown = s.text.after)
      (fits : s.text.eraseBack.contents.length ≤ lineLen) :
      Acts s (.special .backspace) (s.withText s.text.eraseBack fits) (none, .backspace shown)
  | abandoned (t : Session) (text : t.text = .atEnd []) (saved : t.saved = s.saved)
      (browse : t.browse = none) (history : t.history = s.history) :
      Acts s (.special .esc) t (none, .clearLine s.text.contents.length)
  | noOlder (oldest : s.history.length ≤ s.olderIndex) : Acts s (.special .arrowUp) s (none, .bell)
  | older (row : String) (loaded : s.history[s.olderIndex]? = some row) (t : Session)
      (text : t.text = .atEnd (strBytes row))
      (saved : t.saved = if s.browse.isNone then s.text.contents else s.saved)
      (browse : t.browse = some s.olderIndex) (history : t.history = s.history) :
      Acts s (.special .arrowUp) t (none, .redrawLine row s.recalledLength)
  | notBrowsing (browse : s.browse = none) : Acts s (.special .arrowDown) s (none, .bell)
  | restored (first : s.browse = some 0) (line : String) (bytes : strBytes line = s.saved)
      (t : Session) (text : t.text = .atEnd s.saved) (saved : t.saved = s.saved)
      (browse : t.browse = none) (history : t.history = s.history) :
      Acts s (.special .arrowDown) t (none, .redrawLine line s.text.contents.length)
  | newer (i : Nat) (later : s.browse = some (i + 1)) (row : String)
      (loaded : s.history[i]? = some row) (t : Session) (text : t.text = .atEnd (strBytes row))
      (saved : t.saved = s.saved) (browse : t.browse = some i) (history : t.history = s.history) :
      Acts s (.special .arrowDown) t (none, .redrawLine row s.text.contents.length)
  | lineEnd (last : s.text.after = []) : Acts s (.special .arrowRight) s (none, .bell)
  | right (ch : UInt8) (rest : List UInt8) (more : s.text.after = ch :: rest)
      (fits : s.text.moveRight.contents.length ≤ lineLen) :
      Acts s (.special .arrowRight) (s.withText s.text.moveRight fits) (none, .cursorRight ch)
  | lineStart (start : s.text.before = []) : Acts s (.special .arrowLeft) s (none, .bell)
  | left (start : s.text.before ≠ []) (fits : s.text.moveLeft.contents.length ≤ lineLen) :
      Acts s (.special .arrowLeft) (s.withText s.text.moveLeft fits) (none, .cursorLeft)

theorem typeByte_acts {s t : Session} {ch : UInt8} {result : KeyResult}
    (typed : s.typeByte ch = .ok (t, result)) : Acts s (.byte ch) t result := by
  unfold typeByte at typed
  split at typed
  · next tab =>
      cases typed
      rw [tab]
      exact .discarded
  · next text =>
      split at typed
      · next room =>
          split at typed
          · next last =>
              cases typed
              exact .appended ch text room last _
          · next more =>
              rcases Exec.bind_eq_ok.mp typed with ⟨shown, decoded, typed⟩
              cases typed
              exact .inserted ch text room shown (expectUtf8_eq_ok.mp decoded) more _
      · next noRoom =>
          cases typed
          have fits := s.textFits
          exact .full ch text (by omega)

theorem submit_acts {s t : Session} {result : KeyResult}
    (submitted : s.submit = .ok (t, result)) : Acts s (.special .enter) t result := by
  unfold submit at submitted
  split at submitted
  · cases submitted
  · next row decoded =>
      cases submitted
      exact .submitted row (fromUtf8_eq_some.mp decoded) _ rfl rfl rfl rfl

theorem eraseByte_acts {s t : Session} {result : KeyResult}
    (erased : s.eraseByte = .ok (t, result)) : Acts s (.special .backspace) t result := by
  unfold eraseByte at erased
  split at erased
  · next start =>
      cases erased
      exact .nothingToErase start
  · next start =>
      rcases Exec.bind_eq_ok.mp erased with ⟨shown, decoded, erased⟩
      cases erased
      exact .erased start shown (expectUtf8_eq_ok.mp decoded) _

theorem recallOlder_acts {s t : Session} {result : KeyResult}
    (recalled : s.recallOlder = .ok (t, result)) : Acts s (.special .arrowUp) t result := by
  unfold recallOlder at recalled
  split at recalled
  · next below =>
      cases recalled
      exact .older _ (List.getElem?_eq_getElem below) _ rfl rfl rfl rfl
  · next oldest =>
      cases recalled
      exact .noOlder (Nat.not_lt.mp oldest)

theorem recallNewer_acts {s t : Session} {result : KeyResult}
    (recalled : s.recallNewer = .ok (t, result)) : Acts s (.special .arrowDown) t result := by
  unfold recallNewer at recalled
  split at recalled
  · next shown =>
      cases recalled
      exact .notBrowsing shown
  · next shown =>
      rcases Exec.bind_eq_ok.mp recalled with ⟨line, decoded, recalled⟩
      cases recalled
      exact .restored shown line (expectUtf8_eq_ok.mp decoded) _ rfl rfl rfl rfl
  · next i shown =>
      have below : i < s.history.length := by
        have bound := s.browseBelow _ shown
        omega
      cases recalled
      exact .newer i shown _ (List.getElem?_eq_getElem below) _ rfl rfl rfl rfl

theorem moveRight_acts {s t : Session} {result : KeyResult}
    (moved : s.moveRight = .ok (t, result)) : Acts s (.special .arrowRight) t result := by
  unfold moveRight at moved
  split at moved
  · next last =>
      cases moved
      exact .lineEnd last
  · next ch rest more =>
      cases moved
      exact .right ch rest more _

theorem moveLeft_acts {s t : Session} {result : KeyResult}
    (moved : s.moveLeft = .ok (t, result)) : Acts s (.special .arrowLeft) t result := by
  unfold moveLeft at moved
  split at moved
  · next start =>
      cases moved
      exact .lineStart start
  · next start =>
      cases moved
      exact .left start _

theorem step_acts {s t : Session} {event : KeyEvent} {result : KeyResult}
    (stepped : s.step event = .ok (t, result)) : Acts s event t result := by
  cases event with
  | byte ch => exact typeByte_acts stepped
  | special key =>
      cases key with
      | backspace => exact eraseByte_acts stepped
      | enter => exact submit_acts stepped
      | esc =>
          cases stepped
          exact .abandoned _ rfl rfl rfl rfl
      | arrowUp => exact recallOlder_acts stepped
      | arrowDown => exact recallNewer_acts stepped
      | arrowLeft => exact moveLeft_acts stepped
      | arrowRight => exact moveRight_acts stepped

end Session

end Ease
