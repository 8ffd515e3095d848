import Mathlib.Data.List.GetD
import Mathlib.Data.UInt

/-! A heap as its clients see it: objects with bytes of their own, some of them not written
yet. -/

namespace Ease.Objects

structure Object where
  size : Nat
  byte : Nat → Option UInt8

/-- The objects in the order in which they were made; what was freed is `none`. -/
abbrev Heap := List (Option Object)

inductive Op where
  | alloc (size : Nat)
  | allocZeroed (size : Nat)
  | realloc (object newSize : Nat)
  | dealloc (object : Nat)
  | store (object offset : Nat) (bytes : List UInt8)
  | load (object offset count : Nat)
  deriving DecidableEq, Repr

inductive Answer where
  | null
  | object (number : Nat)
  | done
  | bytes (values : List UInt8)
  deriving DecidableEq, Repr

namespace Object

def fresh (size : Nat) : Object := ⟨size, fun _ => none⟩

def zeroed (size : Nat) : Object := ⟨size, fun i => if i < size then some 0 else none⟩

def resize (object : Object) (size : Nat) : Object :=
  ⟨size, fun i => if i < size then object.byte i else none⟩

def write (object : Object) (offset : Nat) (bytes : List UInt8) : Object :=
  ⟨object.size, fun i =>
    if offset ≤ i ∧ i - offset < bytes.length then some (bytes.getD (i - offset) 0)
    else object.byte i⟩

theorem fresh_write_zeros (size : Nat) :
    (fresh size).write 0 (List.replicate size 0) = zeroed size := by
  rw [write, zeroed, List.length_replicate]
  refine congrArg (Object.mk size) (funext fun i => ?_)
  by_cases inside : i < size
  · rw [if_pos ⟨Nat.zero_le i, inside⟩, if_pos inside, Nat.sub_zero, List.getD_replicate _ inside]
  · rw [if_neg fun both => inside both.2, if_neg inside]
    rfl

end Object

/-- One operation, with what it answers. That an allocation succeeds is not promised. -/
inductive Step (heap : Heap) : Op → Answer → Heap → Prop where
  | refused (size : Nat) : Step heap (.alloc size) .null heap
  | allocated (size : Nat) :
      Step heap (.alloc size) (.object heap.length) (heap ++ [some (.fresh size)])
  | refusedZeroed (size : Nat) : Step heap (.allocZeroed size) .null heap
  | allocatedZeroed (size : Nat) :
      Step heap (.allocZeroed size) (.object heap.length) (heap ++ [some (.zeroed size)])
  | stays (k size : Nat) : Step heap (.realloc k size) .null heap
  | moved {k : Nat} {object : Object} (size : Nat) (live : heap[k]? = some (some object)) :
      Step heap (.realloc k size) (.object heap.length)
        ((heap ++ [some (object.resize size)]).set k none)
  | freed {k : Nat} {object : Object} (live : heap[k]? = some (some object)) :
      Step heap (.dealloc k) .done (heap.set k none)
  | stored {k : Nat} {object : Object} (offset : Nat) (bytes : List UInt8)
      (live : heap[k]? = some (some object)) :
      Step heap (.store k offset bytes) .done (heap.set k (some (object.write offset bytes)))
  | loaded {k offset count : Nat} {object : Object} {bytes : List UInt8}
      (live : heap[k]? = some (some object))
      (read : (List.range count).map (fun i => object.byte (offset + i)) = bytes.map some) :
      Step heap (.load k offset count) (.bytes bytes) heap

/-- What a client may do: use live objects, inside their bounds, and read what was written. -/
def Permits (heap : Heap) : Op → Prop
  | .alloc _ | .allocZeroed _ => True
  | .realloc k _ | .dealloc k => ∃ object, heap[k]? = some (some object)
  | .store k offset bytes =>
      ∃ object, heap[k]? = some (some object) ∧ offset + bytes.length ≤ object.size
  | .load k offset count =>
      ∃ object, heap[k]? = some (some object) ∧ offset + count ≤ object.size ∧
        ∀ i < count, (object.byte (offset + i)).isSome

inductive Replays : List (Op × Answer) → Heap → Prop where
  | start : Replays [] []
  | step {events : List (Op × Answer)} {heap next : Heap} {op : Op} {answer : Answer}
      (before : Replays events heap) (stepped : Step heap op answer next) :
      Replays (events ++ [(op, answer)]) next

theorem Replays.nil {heap : Heap} (replays : Replays [] heap) : heap = [] := by
  generalize whole : ([] : List (Op × Answer)) = all at replays
  cases replays with
  | start => rfl
  | step before stepped => simp at whole

theorem Replays.last {events : List (Op × Answer)} {next : Heap} {op : Op} {answer : Answer}
    (replays : Replays (events ++ [(op, answer)]) next) :
    ∃ heap, Replays events heap ∧ Step heap op answer next := by
  generalize whole : events ++ [(op, answer)] = all at replays
  cases replays with
  | start => simp at whole
  | step before stepped =>
      rcases List.append_inj' whole rfl with ⟨rfl, same⟩
      cases same
      exact ⟨_, before, stepped⟩

end Ease.Objects
