import Ease.Checked
import Mathlib.Logic.Function.Basic
import Mathlib.Data.Fin.Basic

/-! Fixed-size arrays with bounds-checked access, and the block operations on
subranges: copying within an array, filling and copying from a list. -/

namespace Ease

abbrev Slots (α : Type) (n : Nat) := Fin n → α

namespace Slots

variable {α : Type} {n : Nat}

def read (slots : Slots α n) (index : Nat) : Exec α :=
  if h : index < n then .ok (slots ⟨index, h⟩) else .error .outOfBounds

def write (slots : Slots α n) (index : Nat) (value : α) : Exec (Slots α n) :=
  if h : index < n then .ok (Function.update slots ⟨index, h⟩ value) else .error .outOfBounds

/-- Copies `[start, stop)` to `dest`, reading every slot before any is written. -/
def copyWithin (slots : Slots α n) (start stop dest : Nat) : Exec (Slots α n) :=
  if h : start ≤ stop ∧ stop ≤ n ∧ dest + (stop - start) ≤ n then
    .ok fun i =>
      if inside : dest ≤ i.val ∧ i.val < dest + (stop - start) then
        slots ⟨start + (i.val - dest), by omega⟩
      else slots i
  else .error .outOfBounds

def fill (slots : Slots α n) (start stop : Nat) (value : α) : Exec (Slots α n) :=
  if start ≤ stop ∧ stop ≤ n then
    .ok fun i => if start ≤ i.val ∧ i.val < stop then value else slots i
  else .error .outOfBounds

def copyFrom (slots : Slots α n) (start stop : Nat) (values : List α) : Exec (Slots α n) :=
  if start ≤ stop ∧ stop ≤ n ∧ values.length = stop - start then
    .ok fun i =>
      if inside : start ≤ i.val ∧ i.val - start < values.length then
        values.get ⟨i.val - start, inside.2⟩
      else slots i
  else .error .outOfBounds

def slice (slots : Slots α n) (start stop : Nat) : Exec (List α) :=
  if h : start ≤ stop ∧ stop ≤ n then
    .ok (List.ofFn fun i : Fin (stop - start) => slots ⟨start + i.val, by omega⟩)
  else .error .outOfBounds

theorem read_ok (slots : Slots α n) {index : Nat} (inside : index < n) :
    slots.read index = .ok (slots ⟨index, inside⟩) := dif_pos inside

theorem write_ok (slots : Slots α n) {index : Nat} (value : α) (inside : index < n) :
    slots.write index value = .ok (Function.update slots ⟨index, inside⟩ value) := dif_pos inside

theorem fill_ok (slots : Slots α n) {start stop : Nat} (value : α)
    (ordered : start ≤ stop) (inside : stop ≤ n) :
    slots.fill start stop value =
      .ok fun i => if start ≤ i.val ∧ i.val < stop then value else slots i :=
  if_pos ⟨ordered, inside⟩

end Slots

end Ease
