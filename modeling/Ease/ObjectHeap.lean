import Ease.BumpAllocator
import Ease.ByteMemory
import Ease.Objects

/-! The kernel heap in memory: blocks of the bump allocator hold the objects of its
clients. -/

namespace Ease

open Objects (Object Op Answer)
open Rounding (roundUp)

inductive HeapCall where
  | alloc (layout : Layout)
  | allocZeroed (layout : Layout)
  | realloc (block newSize : Nat)
  | dealloc (block : Nat)
  | store (block offset : Nat) (bytes : List UInt8)
  | load (block offset count : Nat)

def HeapCall.op : HeapCall → Op
  | alloc layout => .alloc layout.size
  | allocZeroed layout => .allocZeroed layout.size
  | realloc block newSize => .realloc block newSize
  | dealloc block => .dealloc block
  | store block offset bytes => .store block offset bytes
  | load block offset count => .load block offset count

/-- The allocator, the memory, and the pointers that its clients were given, each with its
layout. -/
structure KernelHeap where
  allocator : BumpAllocator
  mem : Memory
  grants : List Grant

namespace KernelHeap

def init (s e : Nat) (mem : Memory) : KernelHeap := ⟨BumpAllocator.new.init s e, mem, []⟩

def alloc (heap : KernelHeap) (layout : Layout) : Exec (KernelHeap × Nat) := do
  let (allocator, ptr) ← heap.allocator.alloc layout
  if ptr = 0 then .ok ({ heap with allocator }, ptr)
  else .ok ({ heap with allocator, grants := heap.grants ++ [⟨ptr, layout⟩] }, ptr)

def allocZeroed (heap : KernelHeap) (layout : Layout) : Exec (KernelHeap × Nat) := do
  let (heap, ptr) ← heap.alloc layout
  if ptr = 0 then .ok (heap, ptr)
  else .ok ({ heap with mem := heap.mem.store ptr (List.replicate layout.size 0) }, ptr)

/-- The default of `GlobalAlloc`: a new block of the same alignment, and if there is one, the
bytes copied and the old block freed. -/
def realloc (heap : KernelHeap) (block : Grant) (newSize : Nat) : Exec (KernelHeap × Nat) := do
  let (heap, ptr) ← heap.alloc ⟨newSize, block.layout.align, block.layout.powerOfTwo⟩
  if ptr = 0 then .ok (heap, ptr)
  else
    .ok ({ heap with
      allocator := heap.allocator.dealloc block.ptr block.layout
      mem := heap.mem.store ptr (heap.mem.load block.ptr (min block.layout.size newSize)) }, ptr)

def answer (heap : KernelHeap) (ptr : Nat) : Answer :=
  if ptr = 0 then .null else .object heap.grants.length

/-- A call by a client, who names the blocks by the order in which they were given out. -/
def step (heap : KernelHeap) : HeapCall → Exec (KernelHeap × Answer)
  | .alloc layout => do
      let (after, ptr) ← heap.alloc layout
      .ok (after, heap.answer ptr)
  | .allocZeroed layout => do
      let (after, ptr) ← heap.allocZeroed layout
      .ok (after, heap.answer ptr)
  | .realloc k newSize =>
      match heap.grants[k]? with
      | none => .error .unmodelled
      | some block => do
          let (after, ptr) ← heap.realloc block newSize
          .ok (after, heap.answer ptr)
  | .dealloc k =>
      match heap.grants[k]? with
      | none => .error .unmodelled
      | some block =>
          .ok ({ heap with allocator := heap.allocator.dealloc block.ptr block.layout }, .done)
  | .store k offset bytes =>
      match heap.grants[k]? with
      | none => .error .unmodelled
      | some block => .ok ({ heap with mem := heap.mem.store (block.ptr + offset) bytes }, .done)
  | .load k offset count =>
      match heap.grants[k]? with
      | none => .error .unmodelled
      | some block => .ok (heap, .bytes (heap.mem.load (block.ptr + offset) count))

end KernelHeap

structure HoldsObject (mem : Memory) (block : Grant) (object : Object) : Prop where
  size : object.size = block.layout.size
  bytes : ∀ i byte, object.byte i = some byte → i < object.size ∧ mem (block.ptr + i) = byte

/-- The blocks hold the live objects, and no block asks for more than this alignment. -/
structure Represents (s e maxAlign : Nat) (heap : KernelHeap) (objects : Objects.Heap) : Prop where
  laid : Laid s e heap.allocator heap.grants
  bounded : heap.allocator.next ≤ e
  count : heap.grants.length = objects.length
  holds : ∀ (k : Nat) (block : Grant) (object : Object), heap.grants[k]? = some block →
    objects[k]? = some (some object) → HoldsObject heap.mem block object
  aligns : ∀ block ∈ heap.grants, block.layout.align ≤ maxAlign

/-- Requests that cannot make a sum of the allocator wrap. -/
def Modest (e maxAlign : Nat) : HeapCall → Prop
  | .alloc layout | .allocZeroed layout =>
      layout.align ≤ maxAlign ∧ e + maxAlign + layout.size < 2 ^ 32
  | .realloc _ newSize => e + maxAlign + newSize < 2 ^ 32
  | _ => True

section

variable {s e maxAlign : Nat} {heap after : KernelHeap} {objects : Objects.Heap} {k : Nat}
  {block : Grant} {object : Object} {mem : Memory}

theorem HoldsObject.outside {addr : Nat} {bytes : List UInt8} (holds : HoldsObject mem block object)
    (apart : block.ptr + block.layout.size ≤ addr ∨ addr + bytes.length ≤ block.ptr) :
    HoldsObject (mem.store addr bytes) block object := by
  refine ⟨holds.size, fun i byte defined => ?_⟩
  rcases holds.bytes i byte defined with ⟨inside, same⟩
  have size := holds.size
  refine ⟨inside, ?_⟩
  rw [Memory.store, if_neg (by omega), same]

theorem HoldsObject.write {offset : Nat} {bytes : List UInt8} (holds : HoldsObject mem block object)
    (inside : offset + bytes.length ≤ object.size) :
    HoldsObject (mem.store (block.ptr + offset) bytes) block (object.write offset bytes) := by
  refine ⟨holds.size, fun i byte defined => ?_⟩
  rw [Object.write] at defined ⊢
  dsimp only at defined ⊢
  by_cases written : offset ≤ i ∧ i - offset < bytes.length
  · rw [if_pos written] at defined
    have index : block.ptr + i - (block.ptr + offset) = i - offset := by omega
    refine ⟨by omega, ?_⟩
    rw [Memory.store, if_pos (by omega), index]
    exact Option.some.inj defined
  · rw [if_neg written] at defined
    rcases holds.bytes i byte defined with ⟨below, same⟩
    refine ⟨below, ?_⟩
    rw [Memory.store, if_neg (by omega), same]

theorem HoldsObject.resize {addr newSize : Nat} {layout : Layout}
    (holds : HoldsObject mem block object)
    (size : layout.size = newSize) :
    HoldsObject (mem.store addr (mem.load block.ptr (min block.layout.size newSize)))
      ⟨addr, layout⟩ (object.resize newSize) := by
  refine ⟨size.symm, fun i byte defined => ?_⟩
  rw [Object.resize] at defined ⊢
  dsimp only at defined ⊢
  by_cases kept : i < newSize
  · rw [if_pos kept] at defined
    rcases holds.bytes i byte defined with ⟨inside, same⟩
    have both := holds.size
    refine ⟨kept, ?_⟩
    rw [Memory.store, Memory.load_length, if_pos (by omega), Nat.add_sub_cancel_left,
      List.getD_eq_getElem _ _ (by rw [Memory.load_length]; omega)]
    simpa [Memory.load] using same
  · rw [if_neg kept] at defined
    cases defined

theorem Laid.apart_of_ne {allocator : BumpAllocator} {granted : List Grant}
    (laid : Laid s e allocator granted) {first second : Nat} {one other : Grant}
    (differ : first ≠ second) (at_first : granted[first]? = some one)
    (at_second : granted[second]? = some other) : Apart one other := by
  rcases List.getElem?_eq_some_iff.mp at_first with ⟨inFirst, rfl⟩
  rcases List.getElem?_eq_some_iff.mp at_second with ⟨inSecond, rfl⟩
  rcases Nat.lt_or_gt_of_ne differ with before | behind
  · exact List.pairwise_iff_getElem.mp laid.apart first second inFirst inSecond before
  · exact (List.pairwise_iff_getElem.mp laid.apart second first inSecond inFirst behind).symm

theorem Represents.live (represents : Represents s e maxAlign heap objects)
    (live : objects[k]? = some (some object)) :
    ∃ block, heap.grants[k]? = some block ∧ HoldsObject heap.mem block object := by
  have inside : k < heap.grants.length := by
    rw [represents.count]
    exact (List.getElem?_eq_some_iff.mp live).1
  have here := List.getElem?_eq_getElem inside
  exact ⟨_, here, represents.holds k _ object here live⟩

theorem Represents.update (represents : Represents s e maxAlign heap objects)
    (here : heap.grants[k]? = some block) {addr : Nat} {bytes : List UInt8}
    (above : block.ptr ≤ addr) (below : addr + bytes.length ≤ block.ptr + block.layout.size)
    (holds : HoldsObject (heap.mem.store addr bytes) block object) :
    Represents s e maxAlign { heap with mem := heap.mem.store addr bytes }
      (objects.set k (some object)) := by
  refine ⟨represents.laid, represents.bounded, by rw [List.length_set]; exact represents.count, ?_,
    represents.aligns⟩
  intro j other content there holding
  by_cases same : k = j
  · subst same
    rw [here] at there
    cases there
    have within : k < objects.length := by
      rw [← represents.count]
      exact (List.getElem?_eq_some_iff.mp here).1
    rw [List.getElem?_set_self within] at holding
    cases holding
    exact holds
  · rw [List.getElem?_set_ne same] at holding
    apply (represents.holds j other content there holding).outside
    have apart := represents.laid.apart_of_ne same here there
    rw [Apart] at apart
    omega

theorem Represents.free (represents : Represents s e maxAlign heap objects) (k : Nat) :
    Represents s e maxAlign heap (objects.set k none) := by
  refine ⟨represents.laid, represents.bounded, by rw [List.length_set]; exact represents.count,
    ?_, represents.aligns⟩
  intro j block object here live
  rcases List.getElem?_eq_some_iff.mp live with ⟨inside, value⟩
  rw [List.getElem_set] at value
  split at value
  · cases value
  · apply represents.holds j block object here
    rw [List.length_set] at inside
    exact List.getElem?_eq_some_iff.mpr ⟨inside, value⟩

theorem Represents.append (represents : Represents s e maxAlign heap objects)
    {allocator : BumpAllocator} {ptr : Nat} {layout : Layout} (align : layout.align ≤ maxAlign)
    (laid : Laid s e allocator (heap.grants ++ [⟨ptr, layout⟩])) (bounded : allocator.next ≤ e) :
    Represents s e maxAlign { heap with allocator, grants := heap.grants ++ [⟨ptr, layout⟩] }
      (objects ++ [some (.fresh layout.size)]) := by
  refine ⟨laid, bounded, ?_, ?_, ?_⟩
  · rw [List.length_append, List.length_append, represents.count]
    rfl
  · intro k block object here live
    rcases Nat.lt_or_ge k objects.length with old | new
    · rw [List.getElem?_append_left old] at live
      rw [List.getElem?_append_left (represents.count ▸ old)] at here
      exact represents.holds k block object here live
    · rw [List.getElem?_append_right (represents.count ▸ new), List.getElem?_singleton] at here
      rw [List.getElem?_append_right new, List.getElem?_singleton] at live
      split at live
      · rw [represents.count, if_pos ‹_›] at here
        cases here
        cases live
        exact ⟨rfl, nofun⟩
      · cases live
  · intro block member
    rcases List.mem_append.mp member with old | new
    · exact represents.aligns block old
    · rw [List.mem_singleton.mp new]
      exact align

theorem Represents.alloc (represents : Represents s e maxAlign heap objects) (positive : 0 < s)
    {layout : Layout} (align : layout.align ≤ maxAlign)
    (fits : e + maxAlign + layout.size < 2 ^ 32) :
    (∃ after, heap.alloc layout = .ok (after, 0) ∧ Represents s e maxAlign after objects) ∨
      ∃ after ptr, heap.alloc layout = .ok (after, ptr) ∧ ptr ≠ 0 ∧ after.mem = heap.mem ∧
        after.grants = heap.grants ++ [⟨ptr, layout⟩] ∧
        Represents s e maxAlign after (objects ++ [some (.fresh layout.size)]) := by
  have near := Rounding.roundUp_lt heap.allocator.next layout.align_pos
  have above := Rounding.le_roundUp heap.allocator.next layout.align_pos
  have bounded := represents.bounded
  have started := represents.laid.started
  have sums : SumsFit heap.allocator (.alloc layout) := ⟨by omega, by omega⟩
  rw [KernelHeap.alloc, BumpAllocator.alloc_ok sums]
  by_cases past : heap.allocator.heapEnd < roundUp heap.allocator.next layout.align + layout.size
  · left
    rw [if_pos past, Exec.ok_bind]
    exact ⟨heap, rfl, represents⟩
  · right
    have valid : roundUp heap.allocator.next layout.align ≠ 0 := by omega
    have room : roundUp heap.allocator.next layout.align + layout.size ≤ e := by
      rw [← represents.laid.stop]
      exact Nat.not_lt.mp past
    rw [if_neg past, Exec.ok_bind]
    dsimp only
    rw [if_neg valid]
    exact ⟨_, _, rfl, valid, rfl, rfl, represents.append align (represents.laid.append room) room⟩

theorem Represents.fill {ptr : Nat} {layout : Layout} {grants : List Grant}
    {earlier : Option Object}
    (represents : Represents s e maxAlign heap (objects ++ [earlier]))
    (grown : heap.grants = grants ++ [⟨ptr, layout⟩]) {bytes : List UInt8}
    (fits : bytes.length ≤ layout.size)
    (holds : HoldsObject (heap.mem.store ptr bytes) ⟨ptr, layout⟩ object) :
    Represents s e maxAlign { heap with mem := heap.mem.store ptr bytes }
      (objects ++ [some object]) := by
  have count := represents.count
  rw [grown, List.length_append, List.length_append] at count
  have same : grants.length = objects.length := Nat.add_right_cancel count
  have here : heap.grants[objects.length]? = some ⟨ptr, layout⟩ := by
    rw [grown, ← same, List.getElem?_concat_length]
  have filled := represents.update here (Nat.le_refl ptr) (Nat.add_le_add_left fits ptr) holds
  rwa [List.set_append_right _ _ (Nat.le_refl _), Nat.sub_self] at filled

theorem Represents.answer (represents : Represents s e maxAlign heap objects) {ptr : Nat}
    (valid : ptr ≠ 0) : heap.answer ptr = .object objects.length := by
  rw [KernelHeap.answer, if_neg valid, represents.count]

def AnswersAs (s e maxAlign : Nat) (heap : KernelHeap) (objects : Objects.Heap)
    (call : HeapCall) : Prop :=
  ∃ after answer next, heap.step call = .ok (after, answer) ∧
    Objects.Step objects call.op answer next ∧ Represents s e maxAlign after next

theorem Represents.step_alloc (represents : Represents s e maxAlign heap objects) (positive : 0 < s)
    {layout : Layout} (modest : Modest e maxAlign (.alloc layout)) :
    AnswersAs s e maxAlign heap objects (.alloc layout) := by
  rcases represents.alloc positive modest.1 modest.2 with
    ⟨after, refused, same⟩ | ⟨after, ptr, given, valid, _, _, more⟩
  · refine ⟨after, _, _, ?_, .refused layout.size, same⟩
    rw [KernelHeap.step, refused, Exec.ok_bind]
    rfl
  · refine ⟨after, _, _, ?_, .allocated layout.size, more⟩
    rw [KernelHeap.step, given, Exec.ok_bind]
    dsimp only
    rw [represents.answer valid]

theorem holdsObject_zeroed (mem : Memory) (ptr : Nat) (layout : Layout) :
    HoldsObject (mem.store ptr (List.replicate layout.size 0)) ⟨ptr, layout⟩
      (.zeroed layout.size) := by
  have unwritten : HoldsObject mem ⟨ptr, layout⟩ (.fresh layout.size) := ⟨rfl, nofun⟩
  have written := @HoldsObject.write _ _ _ 0 (List.replicate layout.size 0) unwritten (by
    rw [List.length_replicate, Nat.zero_add]
    exact Nat.le_refl _)
  rwa [Object.fresh_write_zeros] at written

theorem Represents.step_allocZeroed (represents : Represents s e maxAlign heap objects)
    (positive : 0 < s) {layout : Layout} (modest : Modest e maxAlign (.allocZeroed layout)) :
    AnswersAs s e maxAlign heap objects (.allocZeroed layout) := by
  rcases represents.alloc positive modest.1 modest.2 with
    ⟨after, refused, same⟩ | ⟨after, ptr, given, valid, _, grown, more⟩
  · refine ⟨after, _, _, ?_, .refusedZeroed layout.size, same⟩
    rw [KernelHeap.step, KernelHeap.allocZeroed, refused]
    rfl
  · have filled := more.fill grown (by rw [List.length_replicate])
      (holdsObject_zeroed after.mem ptr layout)
    refine ⟨_, _, _, ?_, .allocatedZeroed layout.size, filled⟩
    rw [KernelHeap.step, KernelHeap.allocZeroed, given, Exec.ok_bind]
    dsimp only
    rw [if_neg valid, Exec.ok_bind]
    dsimp only
    rw [represents.answer valid]

theorem Represents.step_realloc (represents : Represents s e maxAlign heap objects)
    (positive : 0 < s) {newSize : Nat} (modest : Modest e maxAlign (.realloc k newSize))
    (live : objects[k]? = some (some object)) :
    AnswersAs s e maxAlign heap objects (.realloc k newSize) := by
  rcases represents.live live with ⟨block, here, holds⟩
  have align := represents.aligns block (List.mem_of_getElem? here)
  obtain ⟨after, refused, same⟩ | ⟨after, ptr, given, valid, unchanged, grown, more⟩ :=
    @Represents.alloc s e maxAlign heap objects represents positive
      ⟨newSize, block.layout.align, block.layout.powerOfTwo⟩ align modest
  · refine ⟨after, _, _, ?_, .stays k newSize, same⟩
    rw [KernelHeap.step, here]
    dsimp only
    rw [KernelHeap.realloc, refused]
    rfl
  · have copied := @HoldsObject.resize block object after.mem ptr newSize
      ⟨newSize, block.layout.align, block.layout.powerOfTwo⟩ (unchanged ▸ holds) rfl
    have filled := more.fill grown (by
      rw [Memory.load_length]
      exact Nat.min_le_right _ _) copied
    refine ⟨_, _, _, ?_, .moved newSize live, filled.free k⟩
    rw [KernelHeap.step, here]
    dsimp only
    rw [KernelHeap.realloc, given, Exec.ok_bind]
    dsimp only
    rw [if_neg valid, Exec.ok_bind]
    dsimp only
    rw [represents.answer valid]
    rfl

theorem Represents.step_dealloc (represents : Represents s e maxAlign heap objects)
    (live : objects[k]? = some (some object)) :
    AnswersAs s e maxAlign heap objects (.dealloc k) := by
  rcases represents.live live with ⟨block, here, _⟩
  refine ⟨heap, .done, _, ?_, .freed live, represents.free k⟩
  rw [KernelHeap.step, here]
  rfl

theorem Represents.step_store (represents : Represents s e maxAlign heap objects) {offset : Nat}
    {bytes : List UInt8} (live : objects[k]? = some (some object))
    (inside : offset + bytes.length ≤ object.size) :
    AnswersAs s e maxAlign heap objects (.store k offset bytes) := by
  rcases represents.live live with ⟨block, here, holds⟩
  have size := holds.size
  refine ⟨_, .done, _, ?_, .stored offset bytes live,
    represents.update here (Nat.le_add_right _ _) (by omega) (holds.write inside)⟩
  rw [KernelHeap.step, here]

theorem Represents.step_load (represents : Represents s e maxAlign heap objects)
    {offset count : Nat} (live : objects[k]? = some (some object))
    (written : ∀ i < count, (object.byte (offset + i)).isSome) :
    AnswersAs s e maxAlign heap objects (.load k offset count) := by
  rcases represents.live live with ⟨block, here, holds⟩
  refine ⟨heap, .bytes (heap.mem.load (block.ptr + offset) count), objects, ?_, .loaded live ?_,
    represents⟩
  · rw [KernelHeap.step, here]
  · rw [Memory.load, List.map_map]
    apply List.map_congr_left
    intro i member
    rcases Option.isSome_iff_exists.mp (written i (List.mem_range.mp member)) with ⟨byte, is⟩
    rw [is, Function.comp_apply, Nat.add_assoc, (holds.bytes _ byte is).2]

/-- A call that its client may make is answered as by the objects. -/
theorem Represents.step (represents : Represents s e maxAlign heap objects) (positive : 0 < s)
    {call : HeapCall} (modest : Modest e maxAlign call)
    (permits : Objects.Permits objects call.op) :
    AnswersAs s e maxAlign heap objects call := by
  cases call with
  | alloc layout => exact represents.step_alloc positive modest
  | allocZeroed layout => exact represents.step_allocZeroed positive modest
  | realloc k newSize =>
      rcases permits with ⟨object, live⟩
      exact represents.step_realloc positive modest live
  | dealloc k =>
      rcases permits with ⟨object, live⟩
      exact represents.step_dealloc live
  | store k offset bytes =>
      rcases permits with ⟨object, live, inside⟩
      exact represents.step_store live inside
  | load k offset count =>
      rcases permits with ⟨object, live, _, written⟩
      exact represents.step_load live written

/-- The clients of a run do what the objects permit, whatever was answered before. -/
def WellBehaved (s e : Nat) (mem : Memory) (calls : List HeapCall) : Prop :=
  ∀ front call back, calls = front ++ call :: back → ∀ heap answers objects,
    Runs.run KernelHeap.step (KernelHeap.init s e mem) front = .ok (heap, answers) →
      Objects.Replays ((front.map HeapCall.op).zip answers) objects →
        Objects.Permits objects call.op

theorem WellBehaved.front {front back : List HeapCall}
    (behaved : WellBehaved s e mem (front ++ back)) : WellBehaved s e mem front := by
  intro first call rest split
  subst split
  exact behaved first call (rest ++ back) (by simp)

/-- Clients that use their own live objects see objects: what is stored in one is what is
loaded from it, and nothing else changes it. -/
theorem bump_heap_refines_objects {s e maxAlign : Nat} (positive : 0 < s) (ordered : s ≤ e)
    (mem : Memory) (calls : List HeapCall) (modest : ∀ call ∈ calls, Modest e maxAlign call)
    (behaved : WellBehaved s e mem calls) :
    ∃ heap answers objects,
      Runs.run KernelHeap.step (KernelHeap.init s e mem) calls = .ok (heap, answers) ∧
      answers.length = calls.length ∧
      Objects.Replays ((calls.map HeapCall.op).zip answers) objects ∧
      Represents s e maxAlign heap objects := by
  induction calls using List.reverseRecOn with
  | nil =>
      exact ⟨KernelHeap.init s e mem, [], [], rfl, rfl, .start, laid_init s e, ordered, rfl, nofun,
        nofun⟩
  | append_singleton front call ih =>
      obtain ⟨heap, answers, objects, ran, length, replays, represents⟩ :=
        ih (fun other member => modest other (List.mem_append_left _ member)) behaved.front
      have permits := behaved front call [] rfl heap answers objects ran replays
      rcases represents.step positive (modest call (by simp)) permits with
        ⟨after, answer, next, stepped, step, more⟩
      refine ⟨after, answers ++ [answer], next,
        (Runs.run_snoc_eq_ok _).mpr ⟨heap, answers, answer, ran, stepped, rfl⟩, ?_, ?_, more⟩
      · rw [List.length_append, List.length_append, length]
        rfl
      · rw [List.map_append, List.zip_append (by rw [List.length_map, length])]
        exact replays.step step

end

theorem four_isPowerOfTwo : Nat.isPowerOfTwo 4 := ⟨2, rfl⟩

/-- A block, a byte stored in it, the block made larger, and the byte read where it is now. -/
def movedByteCalls : List HeapCall :=
  [.alloc ⟨4, 4, four_isPowerOfTwo⟩, .store 0 1 [7], .realloc 0 100, .load 1 1 1]

theorem movedByte_allocated {objects : Objects.Heap}
    (replays : Objects.Replays [(.alloc 4, .object 0)] objects) :
    objects = [some (.fresh 4)] := by
  rcases @Objects.Replays.last [] _ _ _ replays with ⟨heap, empty, stepped⟩
  rw [empty.nil] at stepped
  cases stepped
  rfl

theorem movedByte_stored {objects : Objects.Heap}
    (replays : Objects.Replays [(.alloc 4, .object 0), (.store 0 1 [7], .done)] objects) :
    objects = [some ((Object.fresh 4).write 1 [7])] := by
  rcases @Objects.Replays.last [_] _ _ _ replays with ⟨heap, before, stepped⟩
  rw [movedByte_allocated before] at stepped
  cases stepped with
  | stored offset bytes live =>
      cases live
      rfl

theorem movedByte_moved {objects : Objects.Heap}
    (replays : Objects.Replays [(.alloc 4, .object 0), (.store 0 1 [7], .done),
      (.realloc 0 100, .object 1)] objects) :
    objects = [none, some (((Object.fresh 4).write 1 [7]).resize 100)] := by
  rcases @Objects.Replays.last [_, _] _ _ _ replays with ⟨heap, before, stepped⟩
  rw [movedByte_stored before] at stepped
  cases stepped with
  | moved size live =>
      cases live
      rfl

theorem movedByteCalls_behaved :
    WellBehaved 0x80020004 0x80030000 (fun _ => 0xFF) movedByteCalls := by
  intro front call back split heap answers objects ran replays
  rcases front with _ | ⟨first, _ | ⟨second, _ | ⟨third, _ | ⟨fourth, front⟩⟩⟩⟩
  · cases split
    trivial
  · cases split
    have answered : answers = [.object 0] := by
      cases ran
      rfl
    rw [answered] at replays
    rw [movedByte_allocated replays]
    exact ⟨_, rfl, by decide⟩
  · cases split
    have answered : answers = [.object 0, .done] := by
      cases ran
      rfl
    rw [answered] at replays
    rw [movedByte_stored replays]
    exact ⟨_, rfl⟩
  · cases split
    have answered : answers = [.object 0, .done, .object 1] := by
      cases ran
      rfl
    rw [answered] at replays
    rw [movedByte_moved replays]
    exact ⟨_, rfl, by decide, by decide⟩
  · simp [movedByteCalls] at split

theorem bump_heap_moves_byte :
    ∃ heap answers objects,
      Runs.run KernelHeap.step (KernelHeap.init 0x80020004 0x80030000 fun _ => 0xFF)
        movedByteCalls = .ok (heap, answers) ∧
      answers.length = movedByteCalls.length ∧
      Objects.Replays ((movedByteCalls.map HeapCall.op).zip answers) objects ∧
      Represents 0x80020004 0x80030000 4 heap objects :=
  bump_heap_refines_objects (by decide) (by decide) _ movedByteCalls
    (by simp [movedByteCalls, Modest]) movedByteCalls_behaved

end Ease
