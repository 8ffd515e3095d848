import Ease.Slots

/-! A window of fixed height onto an unbounded sequence of rows. Writing goes to the
current row; a new line below the last row of the window moves the window down. -/

namespace Ease.Scrollback

variable {ρ : Type} {height : Nat}

structure Window (ρ : Type) (height : Nat) where
  rows : Slots ρ height
  y : Fin height

structure Tape (ρ : Type) where
  rows : Nat → ρ
  y : Nat

namespace Window

def current (window : Window ρ height) : ρ := window.rows window.y

def modify (window : Window ρ height) (edit : ρ → ρ) : Window ρ height :=
  { window with rows := Function.update window.rows window.y (edit window.current) }

def newLine (blank : ρ) (window : Window ρ height) : Window ρ height :=
  if next : window.y.val + 1 < height then { window with y := ⟨window.y.val + 1, next⟩ }
  else { window with
    rows := fun row =>
      if next : row.val + 1 < height then window.rows ⟨row.val + 1, next⟩ else blank }

@[simp] theorem current_modify (window : Window ρ height) (edit : ρ → ρ) :
    (window.modify edit).current = edit window.current := by
  simp [current, modify]

theorem modify_modify (window : Window ρ height) (first second : ρ → ρ) :
    (window.modify first).modify second = window.modify fun row => second (first row) := by
  simp [modify, current]

theorem modify_unchanged (window : Window ρ height) {edit : ρ → ρ}
    (unchanged : edit window.current = window.current) : window.modify edit = window := by
  rw [modify, unchanged, current, Function.update_eq_self]

theorem modify_other (window : Window ρ height) (edit : ρ → ρ) {row : Fin height}
    (other : row ≠ window.y) : (window.modify edit).rows row = window.rows row :=
  Function.update_of_ne other _ _

def BlankBelow (blank : ρ) (window : Window ρ height) : Prop :=
  ∀ row, window.y < row → window.rows row = blank

theorem BlankBelow.modify {blank : ρ} {window : Window ρ height}
    (below : window.BlankBelow blank) (edit : ρ → ρ) : (window.modify edit).BlankBelow blank := by
  intro row under
  rw [modify_other window edit (Fin.ne_of_gt under)]
  exact below row under

theorem BlankBelow.newLine {blank : ρ} {window : Window ρ height}
    (below : window.BlankBelow blank) :
    (window.newLine blank).BlankBelow blank ∧ (window.newLine blank).current = blank := by
  rw [Window.newLine]
  split
  · next inside =>
      constructor
      · intro row under
        apply below row
        exact Fin.lt_def.mpr (Nat.lt_of_succ_lt (Fin.lt_def.mp under))
      · exact below _ (Fin.lt_def.mpr (Nat.lt_succ_self _))
  · next last =>
      constructor
      · intro row under
        have bottom := row.isLt
        have lower := Fin.lt_def.mp under
        dsimp only at lower
        omega
      · exact dif_neg last

end Window

namespace Tape

def modify (tape : Tape ρ) (edit : ρ → ρ) : Tape ρ :=
  { tape with rows := Function.update tape.rows tape.y (edit (tape.rows tape.y)) }

def newLine (tape : Tape ρ) : Tape ρ := { tape with y := tape.y + 1 }

end Tape

/-- The window shows the tape down to the current row, or its first rows; the rows
below the current one are blank. -/
structure Views (blank : ρ) (window : Window ρ height) (tape : Tape ρ) : Prop where
  y_eq : window.y.val = min tape.y (height - 1)
  rows_eq : ∀ row : Fin height, window.rows row = tape.rows (tape.y - (height - 1) + row.val)
  fresh : ∀ row, tape.y < row → tape.rows row = blank

theorem views_blank (blank : ρ) (top : Fin height) (atTop : top.val = 0) :
    Views blank ⟨fun _ => blank, top⟩ ⟨fun _ => blank, 0⟩ where
  y_eq := by simp [atTop]
  rows_eq _ := rfl
  fresh _ _ := rfl

theorem Views.modify {blank : ρ} {window : Window ρ height} {tape : Tape ρ}
    (views : Views blank window tape) (edit : ρ → ρ) :
    Views blank (window.modify edit) (tape.modify edit) := by
  have tall := window.y.isLt
  have position := views.y_eq
  refine ⟨position, fun row => ?_, fun row below => ?_⟩
  · have bounded := row.isLt
    by_cases here : row = window.y
    · subst here
      have same : tape.y - (height - 1) + window.y.val = tape.y := by omega
      have current := views.rows_eq window.y
      simp only [Window.modify, Window.current, Tape.modify, Function.update_self, same]
        at current ⊢
      rw [current]
    · have elsewhere : tape.y - (height - 1) + row.val ≠ tape.y := by
        intro equal
        apply here
        apply Fin.ext
        omega
      simp only [Window.modify, Tape.modify]
      rw [Function.update_of_ne here, Function.update_of_ne elsewhere, views.rows_eq]
  · change tape.y < row at below
    rw [Tape.modify]
    dsimp only
    rw [Function.update_of_ne (by omega), views.fresh row below]

theorem Views.newLine {blank : ρ} {window : Window ρ height} {tape : Tape ρ}
    (views : Views blank window tape) : Views blank (window.newLine blank) tape.newLine := by
  have tall := window.y.isLt
  have position := views.y_eq
  have fresh : ∀ row, tape.y + 1 < row → tape.rows row = blank := fun row below =>
    views.fresh row (by omega)
  rw [Window.newLine, Tape.newLine]
  split
  · next inside =>
      -- the window is not full yet: both sides only step down
      have top : tape.y - (height - 1) = 0 := by omega
      have stillTop : tape.y + 1 - (height - 1) = 0 := by omega
      refine ⟨by dsimp only; omega, fun row => ?_, fresh⟩
      dsimp only
      rw [views.rows_eq, top, stillTop]
  · next last =>
      refine ⟨by dsimp only; omega, fun row => ?_, fresh⟩
      have moved : tape.y + 1 - (height - 1) = tape.y - (height - 1) + 1 := by omega
      dsimp only
      rw [moved]
      split
      · next inside =>
          rw [views.rows_eq]
          congr 1
          dsimp only
          omega
      · next bottom =>
          rw [views.fresh _ (by omega)]

end Ease.Scrollback
