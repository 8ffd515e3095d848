import Ease.Slots
import Mathlib.Data.List.Basic

/-! The fixed-capacity `Vec<T, N>` of the kernel, and the bounded list it holds. -/

namespace Ease

/-- `buf` has `N` slots; `none` is a slot that was never written. -/
structure Vec (T : Type) (N : Nat) where
  len : Nat
  buf : Slots (Option T) N

namespace Vec

variable {T : Type} {N : Nat}

/-- `assume_init_read` on one slot: reading an unwritten slot is undefined. -/
def assumeInit (buf : Slots (Option T) N) (index : Nat) : Exec T := do
  match ← buf.read index with
  | some element => .ok element
  | none => .error .uninitialised

def initPrefix (buf : Slots (Option T) N) : Nat → Exec (List T)
  | 0 => .ok []
  | count + 1 => do
      let elements ← initPrefix buf count
      let element ← assumeInit buf count
      .ok (elements ++ [element])

def new : Vec T N := ⟨0, fun _ => none⟩

-- `len + 1` stays within `N`, itself a `usize`, in `push` and `insert`, so the
-- additions of this file cannot overflow and are left unchecked.
def push (vec : Vec T N) (element : T) : Exec (Except T Unit × Vec T N) :=
  if vec.len < N then do
    let buf ← vec.buf.write vec.len (some element)
    .ok (.ok (), ⟨vec.len + 1, buf⟩)
  else .ok (.error element, vec)

def pop (vec : Vec T N) : Exec (Option T × Vec T N) :=
  if 0 < vec.len then do
    let element ← assumeInit vec.buf (vec.len - 1)
    .ok (some element, ⟨vec.len - 1, vec.buf⟩)
  else .ok (none, vec)

def insert (vec : Vec T N) (index : Nat) (element : T) : Exec (Except T Unit × Vec T N) :=
  if vec.len < index then .ok (.error element, vec)
  else if vec.len < N then do
    let buf ← vec.buf.copyWithin index vec.len (index + 1)
    let buf ← buf.write index (some element)
    .ok (.ok (), ⟨vec.len + 1, buf⟩)
  else .ok (.error element, vec)

def remove (vec : Vec T N) (index : Nat) : Exec (Option T × Vec T N) :=
  if vec.len ≤ index then .ok (none, vec)
  else do
    let element ← assumeInit vec.buf index
    let buf ← vec.buf.copyWithin (index + 1) vec.len index
    .ok (some element, ⟨vec.len - 1, buf⟩)

def isFull (vec : Vec T N) : Bool := vec.len == N

def isEmpty (vec : Vec T N) : Bool := vec.len == 0

def clear (vec : Vec T N) : Vec T N := ⟨0, vec.buf⟩

def asSlice (vec : Vec T N) : Exec (List T) := initPrefix vec.buf vec.len

def index (vec : Vec T N) (index : Nat) : Exec T := do
  assertThat (index < vec.len) "index out of bounds"
  assumeInit vec.buf index

/-- `vec[index] = element`: the slot is borrowed as a `T`, so it must be written already. -/
def indexMut (vec : Vec T N) (index : Nat) (element : T) : Exec (Vec T N) := do
  assertThat (index < vec.len) "index out of bounds"
  let _ ← assumeInit vec.buf index
  let buf ← vec.buf.write index (some element)
  .ok ⟨vec.len, buf⟩

def contents (vec : Vec T N) : List T := vec.asSlice.toOption.getD []

/-- The vector holds the list: every slot below `len` is written, with its element. -/
structure Holds (vec : Vec T N) (elements : List T) : Prop where
  len_eq : vec.len = elements.length
  fits : elements.length ≤ N
  slots : ∀ i : Fin N, i.val < elements.length → vec.buf i = elements[i.val]?

theorem new_holds : (new : Vec T N).Holds [] := by
  refine ⟨rfl, Nat.zero_le N, ?_⟩
  intro i below
  simp at below

theorem clear_holds (vec : Vec T N) : vec.clear.Holds [] := by
  refine ⟨rfl, Nat.zero_le N, ?_⟩
  intro i below
  simp at below

section Holds

variable {vec : Vec T N} {elements : List T}

theorem Holds.isFull_iff (holds : vec.Holds elements) :
    vec.isFull = true ↔ elements.length = N := by
  simp [isFull, holds.len_eq]

theorem Holds.assumeInit_ok (holds : vec.Holds elements) {index : Nat}
    (below : index < elements.length) : assumeInit vec.buf index = .ok elements[index] := by
  have inside : index < N := Nat.lt_of_lt_of_le below holds.fits
  have slot := holds.slots ⟨index, inside⟩ below
  simp [assumeInit, Slots.read_ok _ inside, slot, List.getElem?_eq_getElem below]

theorem Holds.initPrefix_ok (holds : vec.Holds elements) {count : Nat}
    (below : count ≤ elements.length) : initPrefix vec.buf count = .ok (elements.take count) := by
  induction count with
  | zero => simp [initPrefix]
  | succ count ih =>
      simp only [initPrefix, ih (by omega),
        holds.assumeInit_ok (by omega : count < elements.length),
        Exec.ok_bind]
      rw [List.take_append_getElem (by omega)]

theorem Holds.asSlice_ok (holds : vec.Holds elements) : vec.asSlice = .ok elements := by
  rw [asSlice, holds.len_eq, holds.initPrefix_ok (Nat.le_refl _), List.take_length]

theorem Holds.contents_eq (holds : vec.Holds elements) : vec.contents = elements := by
  rw [contents, holds.asSlice_ok]
  rfl

theorem Holds.index_ok (holds : vec.Holds elements) {index : Nat}
    (below : index < elements.length) : vec.index index = .ok elements[index] := by
  simp [Vec.index, assertThat, holds.len_eq, below, holds.assumeInit_ok below]

theorem Holds.indexMut_ok (holds : vec.Holds elements) {index : Nat} (element : T)
    (below : index < elements.length) :
    ∃ after, vec.indexMut index element = .ok after ∧ after.Holds (elements.set index element) := by
  have inside : index < N := Nat.lt_of_lt_of_le below holds.fits
  refine ⟨⟨vec.len, Function.update vec.buf ⟨index, inside⟩ (some element)⟩, ?_, ?_⟩
  · simp [indexMut, assertThat, holds.len_eq, below, holds.assumeInit_ok below,
      Slots.write_ok _ _ inside]
  · refine ⟨by simp [holds.len_eq], by simpa using holds.fits, ?_⟩
    intro i within
    rw [List.length_set] at within
    by_cases here : i.val = index
    · have same : i = ⟨index, inside⟩ := Fin.ext here
      subst same
      simp [below]
    · have other : i ≠ ⟨index, inside⟩ := by
        intro same
        exact here (congrArg Fin.val same)
      rw [List.getElem?_set_ne (Ne.symm here)]
      simp [Function.update_of_ne other, holds.slots i within]

theorem Holds.indexMut_outside (holds : vec.Holds elements) {index : Nat} (element : T)
    (outside : elements.length ≤ index) :
    vec.indexMut index element = .error (.assertFailed "index out of bounds") := by
  simp [indexMut, assertThat, holds.len_eq, Nat.not_lt.mpr outside]

theorem Holds.push_ok (holds : vec.Holds elements) (element : T) (room : elements.length < N) :
    ∃ after, vec.push element = .ok (.ok (), after) ∧ after.Holds (elements ++ [element]) := by
  refine ⟨⟨vec.len + 1, Function.update vec.buf ⟨vec.len, by rw [holds.len_eq]; exact room⟩
    (some element)⟩, ?_, ?_⟩
  · have inside : vec.len < N := by rw [holds.len_eq]; exact room
    simp [push, Slots.write_ok _ _ inside, inside]
  · refine ⟨by simp [holds.len_eq], by simpa [Nat.succ_le_iff] using room, ?_⟩
    intro i below
    by_cases last : i.val = elements.length
    · have same : i = ⟨vec.len, by rw [holds.len_eq]; exact room⟩ :=
        Fin.ext (by simpa [holds.len_eq] using last)
      subst same
      simp [holds.len_eq]
    · have before : i.val < elements.length := by
        simp only [List.length_append, List.length_singleton] at below
        omega
      have other : i ≠ ⟨vec.len, by rw [holds.len_eq]; exact room⟩ := by
        intro same
        exact last (by simpa [holds.len_eq] using congrArg Fin.val same)
      simp [Function.update_of_ne other, holds.slots i before, List.getElem?_append_left before]

theorem Holds.push_full (holds : vec.Holds elements) (element : T) (full : elements.length = N) :
    vec.push element = .ok (.error element, vec) := by
  simp [push, holds.len_eq, full]

theorem Holds.pop_ok (holds : vec.Holds elements) (present : elements ≠ []) :
    ∃ after, vec.pop = .ok (some (elements.getLast present), after) ∧
      after.Holds elements.dropLast := by
  have positive : 0 < elements.length := List.length_pos_iff.mpr present
  refine ⟨⟨vec.len - 1, vec.buf⟩, ?_, ?_⟩
  · have last := holds.assumeInit_ok (by omega : elements.length - 1 < elements.length)
    simp [pop, holds.len_eq, positive, last, List.getLast_eq_getElem]
  · refine ⟨by simp [holds.len_eq], by have fits := holds.fits; simp; omega, ?_⟩
    intro i below
    rw [List.length_dropLast] at below
    rw [holds.slots i (by omega), List.getElem?_dropLast, if_pos below]

theorem Holds.insert_ok (holds : vec.Holds elements) {index : Nat} (element : T)
    (inside : index ≤ elements.length) (room : elements.length < N) :
    ∃ after, vec.insert index element = .ok (.ok (), after) ∧
      after.Holds (elements.insertIdx index element) := by
  have indexBound : index < N := by omega
  have shifts : index ≤ elements.length ∧ elements.length ≤ N ∧
      index + 1 + (elements.length - index) ≤ N := by omega
  simp only [insert, holds.len_eq, Nat.not_lt.mpr inside, if_false, room, if_true,
    Slots.copyWithin, dif_pos shifts, Exec.ok_bind, Slots.write_ok _ _ indexBound]
  refine ⟨_, rfl, ?_, ?_, ?_⟩
  · simp [List.length_insertIdx, inside]
  · simpa [List.length_insertIdx, inside, Nat.succ_le_iff] using room
  · intro i below
    rw [List.length_insertIdx, if_pos inside] at below
    rw [List.getElem?_insertIdx]
    dsimp only
    by_cases before : i.val < index
    · have other : i ≠ ⟨index, indexBound⟩ := by
        intro same; subst same; exact Nat.lt_irrefl _ before
      have outside : ¬ (index + 1 ≤ i.val ∧ i.val < index + 1 + (elements.length - index)) := by
        omega
      rw [Function.update_of_ne other]
      simp only [dif_neg outside, if_pos before]
      exact holds.slots i (by omega)
    · by_cases here : i.val = index
      · have same : i = ⟨index, indexBound⟩ := Fin.ext here
        subst same
        simp [inside]
      · have other : i ≠ ⟨index, indexBound⟩ := by
          intro same; subst same; exact here rfl
        have within : index + 1 ≤ i.val ∧ i.val < index + 1 + (elements.length - index) := by
          omega
        rw [Function.update_of_ne other]
        simp only [dif_pos within, if_neg before, if_neg here]
        have source : index + (i.val - (index + 1)) = i.val - 1 := by omega
        have slot := holds.slots ⟨i.val - 1, by omega⟩ (by simp; omega)
        simpa only [source] using slot

theorem Holds.insert_refused (holds : vec.Holds elements) {index : Nat} (element : T)
    (refused : elements.length < index ∨ elements.length = N) :
    vec.insert index element = .ok (.error element, vec) := by
  by_cases beyond : elements.length < index
  · simp [insert, holds.len_eq, beyond]
  · have full : elements.length = N := refused.resolve_left beyond
    simp [insert, holds.len_eq, full]

theorem Holds.remove_ok (holds : vec.Holds elements) {index : Nat}
    (inside : index < elements.length) :
    ∃ after, vec.remove index = .ok (some elements[index], after) ∧
      after.Holds (elements.eraseIdx index) := by
  have fits := holds.fits
  have shifts : index + 1 ≤ elements.length ∧ elements.length ≤ N ∧
      index + (elements.length - (index + 1)) ≤ N := by omega
  simp only [remove, holds.len_eq, Nat.not_le.mpr inside, if_false, holds.assumeInit_ok inside,
    Slots.copyWithin, dif_pos shifts, Exec.ok_bind]
  refine ⟨_, rfl, ?_, ?_, ?_⟩
  · simp [List.length_eraseIdx, inside]
  · simp only [List.length_eraseIdx, inside, if_true]
    omega
  · intro i below
    simp only [List.length_eraseIdx, inside, if_true] at below
    rw [List.getElem?_eraseIdx]
    by_cases before : i.val < index
    · have outside : ¬ (index ≤ i.val ∧ i.val < index + (elements.length - (index + 1))) := by
        omega
      simp only [dif_neg outside, if_pos before]
      exact holds.slots i (by omega)
    · have within : index ≤ i.val ∧ i.val < index + (elements.length - (index + 1)) := by omega
      simp only [dif_pos within, if_neg before]
      have source : index + 1 + (i.val - index) = i.val + 1 := by omega
      have slot := holds.slots ⟨i.val + 1, by omega⟩ (by simp; omega)
      simpa only [source] using slot

end Holds

end Vec

end Ease
