import Ease.Alignment
import Ease.Checked
import Ease.Runs
import Mathlib.Data.List.Induction

/-! The bump allocator of the kernel heap, and the blocks that it hands out over a
whole run. -/

namespace Ease

open Rounding (roundUp)

structure Layout where
  size : Nat
  align : Nat
  powerOfTwo : align.isPowerOfTwo

/-- Addresses are numbers, and the null pointer is `0`. -/
structure BumpAllocator where
  heapStart : Nat
  heapEnd : Nat
  next : Nat
  deriving DecidableEq, Repr

def usizeNot (x : Nat) : Nat := 2 ^ 32 - 1 - x

def alignUp (addr align : Nat) : Exec Nat := do
  assertThat (decide align.isPowerOfTwo) "assertion failed: align.is_power_of_two()"
  let sum ← usizeAdd addr align
  let sum ← subChecked sum 1
  let low ← subChecked align 1
  .ok (sum &&& usizeNot low)

namespace BumpAllocator

def new : BumpAllocator := ⟨0, 0, 0⟩

def init (_ : BumpAllocator) (heapStart heapEnd : Nat) : BumpAllocator :=
  ⟨heapStart, heapEnd, heapStart⟩

def alloc (allocator : BumpAllocator) (layout : Layout) : Exec (BumpAllocator × Nat) := do
  let start ← alignUp allocator.next layout.align
  let stop ← usizeAdd start layout.size
  if allocator.heapEnd < stop then .ok (allocator, 0)
  else .ok ({ allocator with next := stop }, start)

def dealloc (allocator : BumpAllocator) (_ : Nat) (_ : Layout) : BumpAllocator := allocator

end BumpAllocator

inductive AllocCall where
  | alloc (layout : Layout)
  | dealloc (ptr : Nat) (layout : Layout)

structure Grant where
  ptr : Nat
  layout : Layout

namespace BumpAllocator

def call (allocator : BumpAllocator) : AllocCall → Exec (BumpAllocator × Option Grant)
  | .alloc layout => do
      let (allocator, ptr) ← allocator.alloc layout
      .ok (allocator, some ⟨ptr, layout⟩)
  | .dealloc ptr layout => .ok (allocator.dealloc ptr layout, none)

end BumpAllocator

def blocks (grants : List (Option Grant)) : List Grant :=
  grants.filterMap fun grant => grant.filter fun granted => granted.ptr != 0

def lastEnd (heapStart : Nat) (granted : List Grant) : Nat :=
  match granted.getLast? with
  | none => heapStart
  | some block => block.ptr + block.layout.size

def Sized (calls : List AllocCall) : Prop := ∀ layout, .alloc layout ∈ calls → 0 < layout.size

/-- Neither sum of a call wraps. `align_up` adds before it takes one away, so its first
sum is `next + align`. -/
def SumsFit (allocator : BumpAllocator) : AllocCall → Prop
  | .alloc layout => allocator.next + layout.align < 2 ^ 32 ∧
      roundUp allocator.next layout.align + layout.size < 2 ^ 32
  | .dealloc _ _ => True

def RunFits (start : BumpAllocator) (calls : List AllocCall) : Prop :=
  ∀ front call back, calls = front ++ call :: back →
    ∀ allocator grants, Runs.run BumpAllocator.call start front = .ok (allocator, grants) →
      SumsFit allocator call

def Apart (first second : Grant) : Prop :=
  first.ptr + first.layout.size ≤ second.ptr ∨ second.ptr + second.layout.size ≤ first.ptr

structure InHeap (s e : Nat) (block : Grant) : Prop where
  aligned : block.layout.align ∣ block.ptr
  above : s ≤ block.ptr
  below : block.ptr + block.layout.size ≤ e

structure Places (s e : Nat) (earlier : List Grant) (before after : BumpAllocator)
    (layout : Layout) (ptr : Nat) : Prop where
  least : ∃ start, IsLeast {m | layout.align ∣ m ∧ lastEnd s earlier ≤ m} start ∧
    (ptr ≠ 0 → ptr = start) ∧ (ptr = 0 ↔ e < start + layout.size)
  unchanged : ptr = 0 → after = before

structure AllocatesApart (s e : Nat) (calls : List AllocCall) : Prop where
  completes : ∃ last grants,
    Runs.run BumpAllocator.call (BumpAllocator.new.init s e) calls = .ok (last, grants) ∧
      (∀ block ∈ blocks grants, InHeap s e block) ∧ (blocks grants).Pairwise Apart
  places : ∀ front layout back, calls = front ++ .alloc layout :: back →
    ∃ before grants after ptr,
      Runs.run BumpAllocator.call (BumpAllocator.new.init s e) front = .ok (before, grants) ∧
        before.alloc layout = .ok (after, ptr) ∧ Places s e (blocks grants) before after layout ptr

theorem Layout.align_pos (layout : Layout) : 0 < layout.align :=
  Nat.pos_of_isPowerOfTwo layout.powerOfTwo

theorem alignUp_ok (layout : Layout) {addr : Nat} (fits : addr + layout.align < 2 ^ 32) :
    alignUp addr layout.align = .ok (roundUp addr layout.align) := by
  have positive := layout.align_pos
  rcases layout.powerOfTwo with ⟨k, power⟩
  have checked : assertThat (decide layout.align.isPowerOfTwo)
      "assertion failed: align.is_power_of_two()" = .ok () := by
    rw [decide_eq_true layout.powerOfTwo]
    rfl
  have rounded := @Rounding.and_not_mask 32 k (addr + layout.align - 1) (by omega)
  rw [← power] at rounded
  rw [alignUp, checked, Exec.ok_bind, usizeAdd_ok fits, Exec.ok_bind,
    subChecked_ok (by omega), Exec.ok_bind, subChecked_ok positive, Exec.ok_bind, usizeNot, rounded,
    roundUp]

namespace BumpAllocator

variable {allocator after : BumpAllocator} {layout : Layout}

theorem alloc_ok (fits : SumsFit allocator (.alloc layout)) :
    allocator.alloc layout =
      if allocator.heapEnd < roundUp allocator.next layout.align + layout.size then
        .ok (allocator, 0)
      else .ok ({ allocator with next := roundUp allocator.next layout.align + layout.size },
        roundUp allocator.next layout.align) := by
  rw [alloc, alignUp_ok layout fits.1, Exec.ok_bind, usizeAdd_ok fits.2, Exec.ok_bind]

theorem call_completes {request : AllocCall} (fits : SumsFit allocator request) :
    ∃ result, allocator.call request = .ok result := by
  cases request with
  | dealloc ptr layout => exact ⟨_, rfl⟩
  | alloc layout =>
      rw [call, alloc_ok fits]
      split <;> exact ⟨_, rfl⟩

theorem run_completes {start : BumpAllocator} {calls : List AllocCall}
    (fits : RunFits start calls) :
    ∃ last grants, Runs.run call start calls = .ok (last, grants) := by
  obtain ⟨⟨last, grants⟩, finished⟩ := (Runs.run_completes_iff call start calls).mpr
    fun front request back split middle outputs reached =>
      call_completes (fits front request back split middle outputs reached)
  exact ⟨last, grants, finished⟩

end BumpAllocator

namespace BumpAllocator

theorem call_next_le {allocator after : BumpAllocator} {request : AllocCall}
    {grant : Option Grant} (called : allocator.call request = .ok (after, grant)) :
    after.heapEnd = allocator.heapEnd ∧ after.next ≤ max allocator.next allocator.heapEnd := by
  cases request with
  | dealloc ptr layout =>
      cases called
      exact ⟨rfl, Nat.le_max_left _ _⟩
  | alloc layout =>
      simp only [call, alloc, Exec.bind_eq_ok] at called
      rcases called with ⟨⟨changed, ptr⟩, ⟨start, _, stop, _, granted⟩, called⟩
      cases called
      split at granted
      · cases granted
        exact ⟨rfl, Nat.le_max_left _ _⟩
      · next room =>
          cases granted
          exact ⟨rfl, (Nat.not_lt.mp room).trans (Nat.le_max_right _ _)⟩

end BumpAllocator

def WithinHeap (start allocator : BumpAllocator) : Prop :=
  allocator.heapEnd = start.heapEnd ∧ allocator.next ≤ max start.next start.heapEnd

theorem run_withinHeap {start allocator : BumpAllocator} {calls : List AllocCall}
    {grants : List (Option Grant)}
    (reached : Runs.run BumpAllocator.call start calls = .ok (allocator, grants)) :
    WithinHeap start allocator := by
  refine Runs.run_invariant BumpAllocator.call ?_ ⟨rfl, Nat.le_max_left _ _⟩ reached
  intro before request after grant _ within called
  rcases within with ⟨stop, bounded⟩
  rcases BumpAllocator.call_next_le called with ⟨same, next⟩
  exact ⟨same.trans stop, next.trans (by rw [stop]; omega)⟩

theorem runFits_of_small {start : BumpAllocator} {calls : List AllocCall}
    (small : ∀ layout, .alloc layout ∈ calls →
      max start.next start.heapEnd + layout.align + layout.size < 2 ^ 32) :
    RunFits start calls := by
  intro front request back split allocator grants reached
  have within := run_withinHeap reached
  have bounded := within.2
  cases request with
  | dealloc ptr layout => trivial
  | alloc layout =>
      have room := small layout (by rw [split]; simp)
      have near := Rounding.roundUp_lt allocator.next layout.align_pos
      exact ⟨by omega, by omega⟩

theorem RunFits.front {start : BumpAllocator} {front back : List AllocCall}
    (fits : RunFits start (front ++ back)) : RunFits start front := by
  intro first call rest split
  subst split
  exact fits first call (rest ++ back) (by simp)

/-- Blocks laid out from `s` on, the last of them ending at `next`. -/
structure Laid (s e : Nat) (allocator : BumpAllocator) (granted : List Grant) : Prop where
  stop : allocator.heapEnd = e
  next : allocator.next = lastEnd s granted
  started : s ≤ allocator.next
  ended : ∀ block ∈ granted, block.ptr + block.layout.size ≤ allocator.next
  inHeap : ∀ block ∈ granted, InHeap s e block
  apart : granted.Pairwise Apart

section

variable {s e : Nat} {allocator after : BumpAllocator} {granted : List Grant} {layout : Layout}

theorem laid_init (s e : Nat) : Laid s e (BumpAllocator.new.init s e) [] :=
  ⟨rfl, rfl, Nat.le_refl _, by simp, by simp, .nil⟩

theorem blocks_valid {grant : Grant} (valid : grant.ptr ≠ 0) : blocks [some grant] = [grant] := by
  simp [blocks, Option.filter, valid]

theorem blocks_null (layout : Layout) : blocks [some ⟨0, layout⟩] = [] := by
  simp [blocks, Option.filter]

theorem lastEnd_append (s : Nat) (granted : List Grant) (block : Grant) :
    lastEnd s (granted ++ [block]) = block.ptr + block.layout.size := by
  simp [lastEnd]

theorem Laid.append (laid : Laid s e allocator granted)
    (room : roundUp allocator.next layout.align + layout.size ≤ e) :
    Laid s e { allocator with next := roundUp allocator.next layout.align + layout.size }
      (granted ++ [⟨roundUp allocator.next layout.align, layout⟩]) := by
  have above : allocator.next ≤ roundUp allocator.next layout.align :=
    Rounding.le_roundUp _ layout.align_pos
  have started := laid.started
  refine ⟨laid.stop, by rw [lastEnd_append], by dsimp only; omega, ?_, ?_, ?_⟩
  · intro block member
    dsimp only
    rcases List.mem_append.mp member with old | new
    · have ended := laid.ended block old
      omega
    · rw [List.mem_singleton.mp new]
  · intro block member
    rcases List.mem_append.mp member with old | new
    · exact laid.inHeap block old
    · rw [List.mem_singleton.mp new]
      exact ⟨Rounding.dvd_roundUp _ layout.align_pos, by dsimp only; omega, room⟩
  · rw [List.pairwise_append]
    refine ⟨laid.apart, List.pairwise_singleton _ _, fun old member block new => ?_⟩
    rw [List.mem_singleton.mp new]
    have ended := laid.ended old member
    exact .inl (by dsimp only; omega)

theorem Laid.places (laid : Laid s e allocator granted) (positive : 0 < s)
    (fits : SumsFit allocator (.alloc layout)) :
    ∃ after ptr, allocator.alloc layout = .ok (after, ptr) ∧
      Places s e granted allocator after layout ptr := by
  have least := Rounding.roundUp_isLeast allocator.next layout.align_pos
  have above : allocator.next ≤ roundUp allocator.next layout.align := least.1.2
  have started := laid.started
  rw [laid.next] at least
  rw [BumpAllocator.alloc_ok fits, laid.stop]
  by_cases past : e < roundUp allocator.next layout.align + layout.size
  · rw [if_pos past]
    rw [laid.next] at past
    exact ⟨_, _, rfl, ⟨_, least, fun valid => absurd rfl valid, iff_of_true rfl past⟩, fun _ => rfl⟩
  · rw [if_neg past]
    rw [laid.next] at past above started ⊢
    exact ⟨_, _, rfl, ⟨_, least, fun _ => rfl, iff_of_false (by omega) past⟩,
      fun null => absurd null (by omega)⟩

theorem Laid.call {request : AllocCall} {grant : Option Grant}
    (laid : Laid s e allocator granted) (positive : 0 < s) (fits : SumsFit allocator request)
    (called : allocator.call request = .ok (after, grant)) :
    Laid s e after (granted ++ blocks [grant]) := by
  cases request with
  | dealloc ptr layout =>
      cases called
      rw [BumpAllocator.dealloc, blocks, List.filterMap_cons_none rfl, List.filterMap_nil,
        List.append_nil]
      exact laid
  | alloc layout =>
      have above : allocator.next ≤ roundUp allocator.next layout.align :=
        Rounding.le_roundUp _ layout.align_pos
      have started := laid.started
      rw [BumpAllocator.call, BumpAllocator.alloc_ok fits] at called
      split at called
      · cases called
        rw [blocks_null, List.append_nil]
        exact laid
      · next room =>
          cases called
          have valid : roundUp allocator.next layout.align ≠ 0 := by omega
          rw [blocks_valid valid]
          exact laid.append (Nat.not_lt.mp (laid.stop ▸ room))

theorem run_laid (positive : 0 < s) {calls : List AllocCall} {grants : List (Option Grant)}
    (fits : RunFits (BumpAllocator.new.init s e) calls)
    (finished : Runs.run BumpAllocator.call (BumpAllocator.new.init s e) calls =
      .ok (allocator, grants)) : Laid s e allocator (blocks grants) := by
  induction calls using List.reverseRecOn generalizing allocator grants with
  | nil =>
      cases finished
      exact laid_init s e
  | append_singleton front request ih =>
      obtain ⟨middle, earlier, grant, reached, called, rfl⟩ :=
        (Runs.run_snoc_eq_ok BumpAllocator.call).mp finished
      have laid := ih fits.front reached
      have next := laid.call positive (fits front request [] rfl middle earlier reached) called
      rwa [blocks, List.filterMap_append]

end

theorem run_uninitialised {calls : List AllocCall} (sized : Sized calls)
    (fits : RunFits BumpAllocator.new calls) {last : BumpAllocator} {grants : List (Option Grant)}
    (finished : Runs.run BumpAllocator.call BumpAllocator.new calls = .ok (last, grants)) :
    last = BumpAllocator.new ∧ ∀ grant, some grant ∈ grants → grant.ptr = 0 := by
  induction calls using List.reverseRecOn generalizing last grants with
  | nil =>
      cases finished
      exact ⟨rfl, by simp⟩
  | append_singleton front request ih =>
      obtain ⟨middle, earlier, grant, reached, called, rfl⟩ :=
        (Runs.run_snoc_eq_ok BumpAllocator.call).mp finished
      obtain ⟨rfl, null⟩ := ih (fun layout member => sized layout (List.mem_append_left _ member))
        fits.front reached
      have sums := fits front request [] rfl _ earlier reached
      cases request with
      | dealloc ptr layout =>
          cases called
          exact ⟨rfl, fun grant member => null grant (by simpa using member)⟩
      | alloc layout =>
          have positive := sized layout (by simp)
          have start : roundUp BumpAllocator.new.next layout.align = 0 :=
            Rounding.roundUp_zero layout.align_pos
          have past : BumpAllocator.new.heapEnd < 0 + layout.size := by
            rw [Nat.zero_add]
            exact positive
          rw [BumpAllocator.call, BumpAllocator.alloc_ok sums, start, if_pos past] at called
          cases called
          refine ⟨rfl, fun grant member => ?_⟩
          rcases List.mem_append.mp member with old | new
          · exact null grant old
          · rw [Option.some.inj (List.mem_singleton.mp new)]

/-- Whole runs on a heap that does not start at the null address, and before `init`. -/
theorem bump_allocator_over_runs :
    (∀ (s e : Nat) (calls : List AllocCall), 0 < s → Sized calls →
      RunFits (BumpAllocator.new.init s e) calls → AllocatesApart s e calls) ∧
    ∀ calls : List AllocCall, Sized calls → RunFits BumpAllocator.new calls →
      ∃ last grants, Runs.run BumpAllocator.call BumpAllocator.new calls = .ok (last, grants) ∧
        ∀ grant, some grant ∈ grants → grant.ptr = 0 := by
  constructor
  · intro s e calls positive sized fits
    constructor
    · rcases BumpAllocator.run_completes fits with ⟨last, grants, finished⟩
      have laid := run_laid positive fits finished
      exact ⟨last, grants, finished, laid.inHeap, laid.apart⟩
    · intro front layout back split
      subst split
      rcases BumpAllocator.run_completes fits.front with ⟨before, grants, reached⟩
      have laid := run_laid positive fits.front reached
      obtain ⟨after, ptr, called, places⟩ :=
        laid.places positive (fits front _ back rfl before grants reached)
      exact ⟨before, grants, after, ptr, reached, called, places⟩
  · intro calls sized fits
    rcases BumpAllocator.run_completes fits with ⟨last, grants, finished⟩
    exact ⟨last, grants, finished, (run_uninitialised sized fits finished).2⟩

def sampleCalls : List AllocCall :=
  [.alloc ⟨6, 1, Nat.isPowerOfTwo_one⟩, .alloc ⟨8, 8, 3, rfl⟩,
    .dealloc 4112 ⟨8, 8, 3, rfl⟩, .alloc ⟨100, 4, 2, rfl⟩]

theorem bump_allocator_sample_run :
    (∃ last, Runs.run BumpAllocator.call (BumpAllocator.new.init 4099 4160) sampleCalls =
      .ok (last, [some ⟨4099, 6, 1, Nat.isPowerOfTwo_one⟩, some ⟨4112, 8, 8, 3, rfl⟩, none,
        some ⟨0, 100, 4, 2, rfl⟩])) ∧
    AllocatesApart 4099 4160 sampleCalls ∧
    ∃ last grants, Runs.run BumpAllocator.call BumpAllocator.new sampleCalls = .ok (last, grants) ∧
      ∀ grant, some grant ∈ grants → grant.ptr = 0 := by
  have sized : Sized sampleCalls := by simp [Sized, sampleCalls]
  have small : ∀ layout, .alloc layout ∈ sampleCalls → layout.align + layout.size ≤ 104 := by
    simp [sampleCalls]
  refine ⟨⟨_, rfl⟩, bump_allocator_over_runs.1 4099 4160 sampleCalls (by decide) sized
    (runFits_of_small fun layout member => ?_), bump_allocator_over_runs.2 sampleCalls sized
    (runFits_of_small fun layout member => ?_)⟩
  · have bounded := small layout member
    have top : max (BumpAllocator.new.init 4099 4160).next
        (BumpAllocator.new.init 4099 4160).heapEnd =
        4160 := rfl
    omega
  · have bounded := small layout member
    have top : max BumpAllocator.new.next BumpAllocator.new.heapEnd = 0 := rfl
    omega

/-- A heap that starts at address 0: the first block is the null pointer, although it
fits, and the allocator has moved on. -/
theorem heap_at_null_not_apart :
    Sized [.alloc ⟨8, 1, Nat.isPowerOfTwo_one⟩] ∧
    RunFits (BumpAllocator.new.init 0 16) [.alloc ⟨8, 1, Nat.isPowerOfTwo_one⟩] ∧
    ¬ AllocatesApart 0 16 [.alloc ⟨8, 1, Nat.isPowerOfTwo_one⟩] := by
  refine ⟨by simp [Sized], runFits_of_small fun layout member => ?_, fun apart => ?_⟩
  · obtain rfl : layout = ⟨8, 1, Nat.isPowerOfTwo_one⟩ := by simpa using member
    exact (by decide : 16 + 1 + 8 < 2 ^ 32)
  · rcases apart.places [] _ [] rfl with ⟨before, grants, after, ptr, reached, called, places⟩
    cases reached
    have moved : (BumpAllocator.new.init 0 16).alloc ⟨8, 1, Nat.isPowerOfTwo_one⟩ =
        .ok (⟨0, 16, 8⟩, 0) := rfl
    rw [moved] at called
    cases called
    have unchanged := places.unchanged rfl
    cases unchanged

end Ease
