import Ease.Collection
import Ease.Runs

/-! Whole runs of the kernel's `Vec<T, N>`, refined to a bounded list. -/

namespace Ease

abbrev BoundedList (T : Type) (N : Nat) := {list : List T // list.length ≤ N}

inductive VecCall (T : Type) where
  | push (element : T)
  | pop
  | insert (index : Nat) (element : T)
  | remove (index : Nat)
  | clear
  | assign (index : Nat) (element : T)
  deriving DecidableEq, Repr

inductive VecResult (T : Type) where
  | stored (result : Except T Unit)
  | taken (element : Option T)
  | done

namespace BoundedList

variable {T : Type} {N : Nat}

def empty : BoundedList T N := ⟨[], Nat.zero_le N⟩

def insert (list : BoundedList T N) (index : Nat) (element : T) :
    Except T Unit × BoundedList T N :=
  if room : index ≤ list.val.length ∧ list.val.length < N then
    (.ok (), ⟨list.val.insertIdx index element, by
      rw [List.length_insertIdx, if_pos room.1]
      exact room.2⟩)
  else (.error element, list)

def push (list : BoundedList T N) (element : T) : Except T Unit × BoundedList T N :=
  list.insert list.val.length element

def remove (list : BoundedList T N) (index : Nat) : Option T × BoundedList T N :=
  if inside : index < list.val.length then
    (some list.val[index], ⟨list.val.eraseIdx index,
      le_trans (List.length_eraseIdx_le ..) list.prop⟩)
  else (none, list)

def pop (list : BoundedList T N) : Option T × BoundedList T N :=
  (list.val.getLast?, ⟨list.val.dropLast, by
    rw [List.length_dropLast]
    exact le_trans (Nat.sub_le ..) list.prop⟩)

def assign (list : BoundedList T N) (index : Nat) (element : T) : Exec (BoundedList T N) :=
  if index < list.val.length then
    .ok ⟨list.val.set index element, by
      rw [List.length_set]
      exact list.prop⟩
  else .error (.assertFailed "index out of bounds")

def call (list : BoundedList T N) : VecCall T → Exec (BoundedList T N × VecResult T)
  | .push element => .ok ((list.push element).2, .stored (list.push element).1)
  | .pop => .ok (list.pop.2, .taken list.pop.1)
  | .insert index element =>
      .ok ((list.insert index element).2, .stored (list.insert index element).1)
  | .remove index => .ok ((list.remove index).2, .taken (list.remove index).1)
  | .clear => .ok (empty, .done)
  | .assign index element => do
      let after ← list.assign index element
      .ok (after, .done)

end BoundedList

namespace Vec

variable {T : Type} {N : Nat}

def call (vec : Vec T N) : VecCall T → Exec (Vec T N × VecResult T)
  | .push element => do
      let (result, after) ← vec.push element
      .ok (after, .stored result)
  | .pop => do
      let (element, after) ← vec.pop
      .ok (after, .taken element)
  | .insert index element => do
      let (result, after) ← vec.insert index element
      .ok (after, .stored result)
  | .remove index => do
      let (element, after) ← vec.remove index
      .ok (after, .taken element)
  | .clear => .ok (vec.clear, .done)
  | .assign index element => do
      let after ← vec.indexMut index element
      .ok (after, .done)

def Refines (vec : Vec T N) (list : BoundedList T N) : Prop := vec.Holds list.val

section Refines

variable {vec : Vec T N} {list : BoundedList T N}

theorem Refines.insert (refines : vec.Refines list) (index : Nat) (element : T) :
    ∃ after, vec.insert index element = .ok ((list.insert index element).1, after) ∧
      after.Refines (list.insert index element).2 := by
  by_cases room : index ≤ list.val.length ∧ list.val.length < N
  · simp only [BoundedList.insert, dif_pos room]
    exact refines.insert_ok element room.1 room.2
  · simp only [BoundedList.insert, dif_neg room]
    have fits := refines.fits
    exact ⟨vec, refines.insert_refused element (by omega), refines⟩

theorem Refines.push (refines : vec.Refines list) (element : T) :
    ∃ after, vec.push element = .ok ((list.push element).1, after) ∧
      after.Refines (list.push element).2 := by
  by_cases room : list.val.length < N
  · simp only [BoundedList.push, BoundedList.insert, dif_pos (And.intro (le_refl _) room)]
    rcases refines.push_ok element room with ⟨after, pushed, holds⟩
    refine ⟨after, pushed, ?_⟩
    simpa [Refines, List.insertIdx_length_self] using holds
  · simp only [BoundedList.push, BoundedList.insert, dif_neg (not_and_of_not_right _ room)]
    have fits := refines.fits
    exact ⟨vec, refines.push_full element (by omega), refines⟩

theorem Refines.remove (refines : vec.Refines list) (index : Nat) :
    ∃ after, vec.remove index = .ok ((list.remove index).1, after) ∧
      after.Refines (list.remove index).2 := by
  by_cases inside : index < list.val.length
  · simp only [BoundedList.remove, dif_pos inside]
    exact refines.remove_ok inside
  · simp only [BoundedList.remove, dif_neg inside]
    exact ⟨vec, by simp [Vec.remove, refines.len_eq, Nat.le_of_not_lt inside], refines⟩

theorem Refines.pop (refines : vec.Refines list) :
    ∃ after, vec.pop = .ok (list.pop.1, after) ∧ after.Refines list.pop.2 := by
  by_cases empty : list.val = []
  · refine ⟨vec, by simp [Vec.pop, BoundedList.pop, refines.len_eq, empty], ?_⟩
    simpa [Refines, BoundedList.pop, empty] using refines
  · simp only [BoundedList.pop, List.getLast?_eq_some_getLast empty]
    exact refines.pop_ok empty

theorem Refines.assign (refines : vec.Refines list) (index : Nat) (element : T) :
    Runs.Agree Refines (vec.call (.assign index element)) (list.call (.assign index element)) := by
  by_cases inside : index < list.val.length
  · rcases refines.indexMut_ok element inside with ⟨after, assigned, holds⟩
    simp only [call, assigned, BoundedList.call, BoundedList.assign, if_pos inside, Exec.ok_bind]
    exact .ok _ holds
  · have refused := refines.indexMut_outside element (Nat.le_of_not_lt inside)
    simp only [call, refused, BoundedList.call, BoundedList.assign, if_neg inside,
      Exec.error_bind]
    exact .error _

/-- Every call does to the vector what it does to the list. -/
theorem Refines.call (refines : vec.Refines list) (input : VecCall T) :
    Runs.Agree Refines (vec.call input) (list.call input) := by
  cases input with
  | push element =>
      rcases refines.push element with ⟨after, pushed, kept⟩
      simp only [Vec.call, pushed, Exec.ok_bind]
      exact .ok _ kept
  | pop =>
      rcases refines.pop with ⟨after, popped, kept⟩
      simp only [Vec.call, popped, Exec.ok_bind]
      exact .ok _ kept
  | insert index element =>
      rcases refines.insert index element with ⟨after, inserted, kept⟩
      simp only [Vec.call, inserted, Exec.ok_bind]
      exact .ok _ kept
  | remove index =>
      rcases refines.remove index with ⟨after, removed, kept⟩
      simp only [Vec.call, removed, Exec.ok_bind]
      exact .ok _ kept
  | clear => exact .ok _ (clear_holds vec)
  | assign index element => exact refines.assign index element

theorem Refines.initialised (refines : vec.Refines list) (i : Fin N) (below : i.val < vec.len) :
    ∃ element, vec.buf i = some element := by
  rw [refines.len_eq] at below
  exact ⟨list.val[i.val], by rw [refines.slots i below, List.getElem?_eq_getElem below]⟩

theorem Refines.pop_push (refines : vec.Refines list) (element : T) (room : vec.len < N) :
    ∃ pushed popped, vec.push element = .ok (.ok (), pushed) ∧
      pushed.pop = .ok (some element, popped) ∧ popped.Refines list := by
  rw [refines.len_eq] at room
  rcases refines.push_ok element room with ⟨pushed, done, grown⟩
  rcases grown.pop_ok (List.append_ne_nil_of_right_ne_nil _ (by simp)) with ⟨popped, back, shrunk⟩
  refine ⟨pushed, popped, done, ?_, ?_⟩
  · rw [back, List.getLast_append_singleton]
  · rwa [List.dropLast_concat] at shrunk

end Refines

theorem run_refines (calls : List (VecCall T)) :
    Runs.Agree Refines (Runs.run call (new : Vec T N) calls)
      (Runs.run BoundedList.call BoundedList.empty calls) := by
  have initial : (new : Vec T N).Refines BoundedList.empty := new_holds
  exact Runs.run_agree call (fun _ _ input refines => Refines.call refines input) initial calls

theorem call_fails {vec : Vec T N} {list : BoundedList T N} (refines : vec.Refines list)
    {input : VecCall T} {fault : Fault} (failed : vec.call input = .error fault) :
    fault = .assertFailed "index out of bounds" := by
  have same := refines.call input
  rw [failed] at same
  generalize abstract : list.call input = result at same
  cases same
  cases input with
  | assign index element =>
      by_cases inside : index < list.val.length
      · simp [BoundedList.call, BoundedList.assign, inside] at abstract
      · simpa [BoundedList.call, BoundedList.assign, inside, eq_comm] using abstract
  | _ => simp [BoundedList.call] at abstract

theorem run_fails {calls : List (VecCall T)} {fault : Fault}
    (failed : Runs.run call (new : Vec T N) calls = .error fault) :
    fault = .assertFailed "index out of bounds" := by
  rcases Runs.run_eq_error call failed with ⟨front, input, _, vec, outputs, _, start, stopped⟩
  have agree := run_refines (N := N) front
  rw [start] at agree
  rcases agree.of_ok with ⟨list, _, refines⟩
  exact call_fails refines stopped

theorem vec_refines_bounded_list (calls : List (VecCall T)) :
    Runs.Agree
        (fun (vec : Vec T N) (list : BoundedList T N) =>
          vec.len ≤ N ∧ (∀ i : Fin N, i.val < vec.len → ∃ element, vec.buf i = some element) ∧
            vec.asSlice = .ok list.val ∧
            ∀ element, vec.len < N → ∃ pushed popped, vec.push element = .ok (.ok (), pushed) ∧
              pushed.pop = .ok (some element, popped) ∧ popped.asSlice = .ok list.val)
        (Runs.run call (new : Vec T N) calls) (Runs.run BoundedList.call BoundedList.empty calls) ∧
      ∀ fault, Runs.run call (new : Vec T N) calls = .error fault →
        fault = .assertFailed "index out of bounds" := by
  constructor
  · apply (run_refines calls).mono
    intro vec list refines
    refine ⟨?_, fun i below => refines.initialised i below, refines.asSlice_ok, ?_⟩
    · rw [refines.len_eq]
      exact refines.fits
    · intro element room
      rcases refines.pop_push element room with ⟨pushed, popped, done, back, kept⟩
      exact ⟨pushed, popped, done, back, kept.asSlice_ok⟩
  · intro fault failed
    exact run_fails failed

end Vec

end Ease
