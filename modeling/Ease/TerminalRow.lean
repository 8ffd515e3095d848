import Ease.Terminal
import Mathlib.Data.List.GetD

/-! Writing inside one row of the screen, in terms of the bytes that the row shows. -/

namespace Ease.Terminal

open Scrollback

def lineOf (bytes : List UInt8) : Line := fun column => bytes.getD column.val 0x20

/-- The screen with `bytes` on row `y` and the cursor at column `x` of it; the other
rows are those of `others`. -/
structure OnRow (others : Slots Line 30) (y : Fin 30) (bytes : List UInt8) (x : Nat)
    (page : Terminal (Window Line 30)) : Prop where
  sameRow : page.sheet.y = y
  column : page.x.val = x
  shown : page.sheet.current = lineOf bytes
  others : ∀ r, r ≠ y → page.sheet.rows r = others r

theorem lineOf_append_spaces (bytes : List UInt8) (count : Nat) :
    lineOf (bytes ++ List.replicate count 0x20) = lineOf bytes := by
  funext column
  rcases Nat.lt_or_ge column.val bytes.length with inside | beyond
  · rw [lineOf, lineOf, List.getD_append _ _ _ _ inside]
  · rw [lineOf, lineOf, List.getD_append_right _ _ _ _ beyond, List.getD_eq_default _ _ beyond]
    by_cases padded : column.val - bytes.length < count
    · rw [List.getD_replicate _ padded]
    · rw [List.getD_eq_default _ _ (by rw [List.length_replicate]; omega)]

theorem update_lineOf (front back : List UInt8) (old ch : UInt8) {x : Fin 80}
    (position : x.val = front.length) :
    Function.update (lineOf (front ++ old :: back)) x ch = lineOf (front ++ ch :: back) := by
  funext column
  by_cases here : column = x
  · subst here
    simp [lineOf, position]
  · have other : column.val ≠ front.length :=
      fun equal => here (Fin.ext (equal.trans position.symm))
    rw [Function.update_of_ne here, lineOf, lineOf]
    rcases Nat.lt_or_ge column.val front.length with left | right
    · rw [List.getD_append _ _ _ _ left, List.getD_append _ _ _ _ left]
    · obtain ⟨offset, later⟩ : ∃ offset, column.val - front.length = offset + 1 :=
        ⟨column.val - front.length - 1, by omega⟩
      rw [List.getD_append_right _ _ _ _ right, List.getD_append_right _ _ _ _ right, later,
        List.getD_cons_succ, List.getD_cons_succ]

namespace OnRow

variable {others : Slots Line 30} {y : Fin 30} {bytes : List UInt8} {x : Nat}
  {page : Terminal (Window Line 30)}

theorem congr {bytes' : List UInt8} (on : OnRow others y bytes x page)
    (same : lineOf bytes' = lineOf bytes) : OnRow others y bytes' x page :=
  { on with shown := on.shown.trans same.symm }

theorem sheet_eq {x' : Nat} {other : Terminal (Window Line 30)} (on : OnRow others y bytes x page)
    (same : OnRow others y bytes x' other) : page.sheet = other.sheet := by
  have rows : page.sheet.rows = other.sheet.rows := by
    funext row
    by_cases here : row = y
    · have first := on.shown
      have second := same.shown
      rw [Window.current, on.sameRow] at first
      rw [Window.current, same.sameRow] at second
      rw [here, first, second]
    · rw [on.others row here, same.others row here]
  exact congrArg₂ Window.mk rows (on.sameRow.trans same.sameRow.symm)

theorem pad (on : OnRow others y bytes x page) (count : Nat) :
    OnRow others y (bytes ++ List.replicate count 0x20) x page :=
  on.congr (lineOf_append_spaces bytes count)

theorem trim {count : Nat} (on : OnRow others y (bytes ++ List.replicate count 0x20) x page) :
    OnRow others y bytes x page :=
  on.congr (lineOf_append_spaces bytes count).symm

theorem put_writeable {front back : List UInt8} {old ch : UInt8}
    (on : OnRow others y (front ++ old :: back) front.length page)
    (writeable : Control.of ch = .writeable) (room : front.length + 1 < 80) :
    OnRow others y (front ++ ch :: back) (front.length + 1) (put screen page ch) := by
  have position := on.column
  have written : put screen page ch =
      ⟨page.sheet.modify fun line => Function.update line page.x ch,
        ⟨page.x.val + 1, by omega⟩⟩ := by
    simp only [put_control, writeable]
    rw [dif_pos (by omega)]
    rfl
  rw [written]
  refine ⟨on.sameRow, by rw [← position], ?_, fun row other => ?_⟩
  · rw [Window.current_modify, on.shown, update_lineOf _ _ _ _ position]
  · rw [Window.modify_other _ _ (on.sameRow ▸ other), on.others row other]

theorem put_text {text front covered back : List UInt8}
    (on : OnRow others y (front ++ covered ++ back) front.length page)
    (covers : covered.length = text.length) (writeable : ∀ ch ∈ text, Control.of ch = .writeable)
    (room : front.length + text.length < 80) :
    OnRow others y (front ++ text ++ back) (front.length + text.length)
      (text.foldl (put screen) page) := by
  induction text generalizing front covered page with
  | nil =>
      obtain rfl := List.eq_nil_of_length_eq_zero covers
      exact on
  | cons ch text ih =>
      rcases List.exists_cons_of_length_eq_add_one covers with ⟨old, covered, rfl⟩
      simp only [List.append_assoc, List.cons_append] at on
      have next := on.put_writeable (writeable ch List.mem_cons_self)
        (by simp only [List.length_cons] at room; omega)
      have shifted : OnRow others y ((front ++ [ch]) ++ covered ++ back) (front ++ [ch]).length
          (put screen page ch) := by
        simpa only [List.append_assoc, List.cons_append, List.nil_append, List.length_append,
          List.length_singleton] using next
      have rest := ih shifted (by simpa using covers)
        (fun other member => writeable other (List.mem_cons_of_mem _ member))
        (by simp only [List.length_cons] at room; simp; omega)
      have total : (front ++ [ch]).length + text.length = front.length + (ch :: text).length := by
        simp only [List.length_append, List.length_cons, List.length_nil]
        omega
      rw [total] at rest
      simpa only [List.foldl_cons, List.append_assoc, List.cons_append, List.nil_append] using rest

theorem put_over {text front covered back : List UInt8} (on : OnRow others y bytes x page)
    (shape : bytes = front ++ covered ++ back) (position : x = front.length)
    (covers : covered.length = text.length) (writeable : ∀ ch ∈ text, Control.of ch = .writeable)
    (room : x + text.length < 80) :
    OnRow others y (front ++ text ++ back) (x + text.length) (text.foldl (put screen) page) := by
  subst shape position
  exact on.put_text covers writeable room

theorem put_back (on : OnRow others y bytes x page) :
    OnRow others y bytes (x - 1) (put screen page ascii.bs) := by
  have moved : put screen page ascii.bs = { page with x := ⟨page.x.val - 1, by omega⟩ } := rfl
  rw [moved]
  exact ⟨on.sameRow, congrArg (· - 1) on.column, on.shown, on.others⟩

theorem put_backs (on : OnRow others y bytes x page) (count : Nat) :
    OnRow others y bytes (x - count) ((List.replicate count ascii.bs).foldl (put screen) page) := by
  induction count generalizing x page with
  | zero => exact on
  | succ count ih =>
      rw [List.replicate_succ, List.foldl_cons]
      have rest := ih on.put_back
      rwa [Nat.sub_sub, Nat.add_comm 1] at rest

theorem put_cr (on : OnRow others y bytes x page) :
    OnRow others y bytes 0 (put screen page ascii.cr) :=
  ⟨on.sameRow, rfl, on.shown, on.others⟩

theorem put_bell (on : OnRow others y bytes x page) :
    OnRow others y bytes x (put screen page ascii.bell) := on

end OnRow

end Ease.Terminal
