import Mathlib.Data.List.Basic

/-! Text with a cursor, as the list before the cursor and the list after it. -/

namespace Ease

@[ext] structure TwoList (α : Type) where
  before : List α
  after : List α

namespace TwoList

variable {α : Type}

def contents (text : TwoList α) : List α := text.before ++ text.after

def atEnd (elements : List α) : TwoList α := ⟨elements, []⟩

def insert (text : TwoList α) (element : α) : TwoList α := ⟨text.before ++ [element], text.after⟩

def eraseBack (text : TwoList α) : TwoList α := ⟨text.before.dropLast, text.after⟩

def moveRight (text : TwoList α) : TwoList α :=
  match text.after with
  | [] => text
  | element :: rest => ⟨text.before ++ [element], rest⟩

def moveLeft (text : TwoList α) : TwoList α :=
  match text.before.getLast? with
  | none => text
  | some element => ⟨text.before.dropLast, element :: text.after⟩

@[simp] theorem contents_atEnd (elements : List α) : (atEnd elements).contents = elements := by
  simp [contents, atEnd]

@[simp] theorem before_atEnd (elements : List α) : (atEnd elements).before = elements := rfl

theorem length_contents (text : TwoList α) :
    text.contents.length = text.before.length + text.after.length := List.length_append

theorem length_insert (text : TwoList α) (element : α) :
    (text.insert element).contents.length = text.contents.length + 1 := by
  simp [contents, insert]
  omega

theorem contents_insert (text : TwoList α) (element : α) :
    (text.insert element).contents = text.contents.insertIdx text.before.length element := by
  rcases text with ⟨before, after⟩
  simp only [contents, insert, List.append_assoc, List.singleton_append]
  induction before with
  | nil => rfl
  | cons first before ih =>
      simp only [List.cons_append, List.length_cons, List.insertIdx_succ_cons]
      rw [ih]

theorem contents_eraseBack (text : TwoList α) (positive : text.before ≠ []) :
    text.eraseBack.contents = text.contents.eraseIdx (text.before.length - 1) := by
  have below : text.before.length - 1 < text.before.length := by
    have := List.length_pos_iff.mpr positive
    omega
  rw [contents, contents, eraseBack, List.eraseIdx_append_of_lt_length below,
    ← List.dropLast_eq_eraseIdx]
  omega

theorem length_eraseBack_le (text : TwoList α) :
    text.eraseBack.contents.length ≤ text.contents.length := by
  simp [contents, eraseBack]

theorem contents_moveRight (text : TwoList α) : text.moveRight.contents = text.contents := by
  unfold moveRight
  split
  · rfl
  · next element rest split => simp [contents, split]

theorem contents_moveLeft (text : TwoList α) : text.moveLeft.contents = text.contents := by
  unfold moveLeft
  split
  · rfl
  · next element last =>
      have joined := List.dropLast_append_getLast? element last
      calc
        text.before.dropLast ++ element :: text.after =
            (text.before.dropLast ++ [element]) ++ text.after := by simp
        _ = text.contents := by rw [joined, contents]

theorem length_before_moveRight {text : TwoList α} (more : text.after ≠ []) :
    text.moveRight.before.length = text.before.length + 1 := by
  unfold moveRight
  split
  · contradiction
  · simp

theorem length_before_moveLeft (text : TwoList α) :
    text.moveLeft.before.length = text.before.length - 1 := by
  unfold moveLeft
  split
  · next nothing => simp [List.getLast?_eq_none_iff.mp nothing]
  · simp

end TwoList

end Ease
