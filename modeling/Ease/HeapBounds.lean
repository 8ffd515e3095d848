import Ease.BumpAllocator

/-! The sums of the allocator on the heap that the linker script places, against the
end of the 32-bit address space. -/

namespace Ease

open Rounding (roundUp)

structure HeapPlaced (s e : Nat) : Prop where
  bottom : 0x80000000 ≤ s
  size : e = s + 65536
  top : e ≤ 0x80100000

namespace Layout

/-- A layout that Rust lets a program build, for something that takes up space. -/
structure Valid (layout : Layout) : Prop where
  positive : 0 < layout.size
  small : roundUp layout.size layout.align ≤ 2 ^ 31 - 1

theorem Valid.align_le {layout : Layout} (valid : layout.Valid) : layout.align ≤ 2 ^ 30 := by
  rcases layout.powerOfTwo with ⟨k, power⟩
  have multiple := Rounding.dvd_roundUp layout.size layout.align_pos
  have above := Rounding.le_roundUp layout.size layout.align_pos
  have positive := valid.positive
  have within : layout.align ≤ 2 ^ 31 - 1 :=
    (Nat.le_of_dvd (by omega) multiple).trans valid.small
  rw [power] at within ⊢
  apply Nat.pow_le_pow_right Nat.two_pos
  apply Nat.le_of_lt_succ
  exact (Nat.pow_lt_pow_iff_right (by decide)).mp (by omega : 2 ^ k < 2 ^ 31)

end Layout

def ValidCalls (calls : List AllocCall) : Prop := ∀ layout, .alloc layout ∈ calls → layout.Valid

/-- A block for the layout somewhere above `next` ends inside the address space. -/
def HasRoom (allocator : BumpAllocator) (layout : Layout) : Prop :=
  ∃ start, layout.align ∣ start ∧ allocator.next ≤ start ∧ start + layout.size < 2 ^ 32

def TooLarge (allocator : BumpAllocator) (layout : Layout) : Prop :=
  ∀ start, layout.align ∣ start → allocator.next ≤ start → allocator.heapEnd < start + layout.size

structure AllocatesWithin (s e : Nat) (before : BumpAllocator) (layout : Layout) : Prop where
  inHeap : s ≤ before.next ∧ before.next ≤ e
  alignSum : before.next + layout.align - 1 < 2 ^ 32
  endSum : ∃ start, alignUp before.next layout.align = .ok start ∧ start + layout.size < 2 ^ 32
  returns : ∃ after ptr, before.alloc layout = .ok (after, ptr) ∧
    (s ≤ after.next ∧ after.next ≤ e) ∧ (TooLarge before layout → ptr = 0 ∧ after = before)

def Requests (P : BumpAllocator → Layout → Prop) (s e : Nat) (calls : List AllocCall) : Prop :=
  ∀ front layout back, calls = front ++ .alloc layout :: back →
    ∀ before grants, Runs.run BumpAllocator.call (BumpAllocator.new.init s e) front =
      .ok (before, grants) → P before layout

/-- The run goes through, and every request in it is served inside the heap. -/
def NeverOverflows (s e : Nat) (calls : List AllocCall) : Prop :=
  (∃ result, Runs.run BumpAllocator.call (BumpAllocator.new.init s e) calls = .ok result) ∧
    Requests (AllocatesWithin s e) s e calls

section

variable {s e : Nat} {allocator : BumpAllocator} {layout : Layout} {calls : List AllocCall}

/-- The least place above `next` decides, as every other one lies higher. -/
theorem hasRoom_iff :
    HasRoom allocator layout ↔ roundUp allocator.next layout.align + layout.size < 2 ^ 32 := by
  have least := Rounding.roundUp_isLeast allocator.next layout.align_pos
  constructor
  · intro room
    rcases room with ⟨start, multiple, above, ends⟩
    have lowest : roundUp allocator.next layout.align ≤ start := least.2 ⟨multiple, above⟩
    omega
  · intro ends
    exact ⟨_, least.1.1, least.1.2, ends⟩

theorem TooLarge.refused (large : TooLarge allocator layout) :
    allocator.heapEnd < roundUp allocator.next layout.align + layout.size :=
  large _ (Rounding.dvd_roundUp _ layout.align_pos) (Rounding.le_roundUp _ layout.align_pos)

theorem HeapPlaced.sumsFit_iff (placed : HeapPlaced s e) (valid : layout.Valid)
    (below : allocator.next ≤ e) :
    SumsFit allocator (.alloc layout) ↔ HasRoom allocator layout := by
  have align := valid.align_le
  have top := placed.top
  rw [hasRoom_iff]
  constructor
  · intro fits
    exact fits.2
  · intro ends
    exact ⟨by omega, ends⟩

theorem HeapPlaced.next_le (placed : HeapPlaced s e) {grants : List (Option Grant)}
    (reached : Runs.run BumpAllocator.call (BumpAllocator.new.init s e) calls =
      .ok (allocator, grants)) : allocator.heapEnd = e ∧ allocator.next ≤ e := by
  have size := placed.size
  have within := run_withinHeap reached
  refine ⟨within.1, ?_⟩
  calc allocator.next
      ≤ max (BumpAllocator.new.init s e).next (BumpAllocator.new.init s e).heapEnd := within.2
    _ = e := Nat.max_eq_right (by change s ≤ e; omega)

theorem AllocatesWithin.hasRoom (within : AllocatesWithin s e allocator layout)
    (placed : HeapPlaced s e) (valid : layout.Valid) : HasRoom allocator layout := by
  have align := valid.align_le
  have top := placed.top
  have below := within.inHeap.2
  rcases within.endSum with ⟨start, aligned, ends⟩
  rw [alignUp_ok layout (by omega)] at aligned
  cases aligned
  exact hasRoom_iff.mpr ends

theorem Requests.runFits (rooms : Requests HasRoom s e calls) (placed : HeapPlaced s e)
    (valid : ValidCalls calls) : RunFits (BumpAllocator.new.init s e) calls := by
  intro front request back split before grants reached
  cases request with
  | dealloc ptr layout => trivial
  | alloc layout =>
      have member : .alloc layout ∈ calls := by
        rw [split]
        exact List.mem_append_right _ List.mem_cons_self
      exact (placed.sumsFit_iff (valid layout member) (placed.next_le reached).2).mpr
        (rooms front layout back split before grants reached)

theorem Laid.allocatesWithin {granted : List Grant} (laid : Laid s e allocator granted)
    (placed : HeapPlaced s e) (valid : layout.Valid) (below : allocator.next ≤ e)
    (room : HasRoom allocator layout) : AllocatesWithin s e allocator layout := by
  have fits := (placed.sumsFit_iff valid below).mpr room
  have align := valid.align_le
  have top := placed.top
  have above : allocator.next ≤ roundUp allocator.next layout.align :=
    Rounding.le_roundUp _ layout.align_pos
  have started := laid.started
  refine ⟨⟨started, below⟩, by omega, ⟨_, alignUp_ok layout fits.1, fits.2⟩, ?_⟩
  by_cases past : allocator.heapEnd < roundUp allocator.next layout.align + layout.size
  · refine ⟨allocator, 0, ?_, ⟨started, below⟩, fun _ => ⟨rfl, rfl⟩⟩
    rw [BumpAllocator.alloc_ok fits, if_pos past]
  · refine ⟨_, _, by rw [BumpAllocator.alloc_ok fits, if_neg past], ⟨?_, ?_⟩, ?_⟩
    · dsimp only
      omega
    · have stop := laid.stop
      dsimp only
      omega
    · intro large
      exact absurd large.refused past

/-- For the heap of the linker script the sums are safe exactly when every request leaves
room below the end of the address space, whether or not the heap can serve it. -/
theorem heap_never_overflows_iff (s e : Nat) (calls : List AllocCall) (placed : HeapPlaced s e)
    (valid : ValidCalls calls) :
    NeverOverflows s e calls ↔ Requests HasRoom s e calls := by
  have positive : 0 < s := by
    have bottom := placed.bottom
    omega
  constructor
  · intro safe front layout back split before grants reached
    have member : .alloc layout ∈ calls := by
      rw [split]
      exact List.mem_append_right _ List.mem_cons_self
    exact (safe.2 front layout back split before grants reached).hasRoom placed
      (valid layout member)
  · intro rooms
    have fits := rooms.runFits placed valid
    rcases BumpAllocator.run_completes fits with ⟨last, grants, finished⟩
    refine ⟨⟨_, finished⟩, ?_⟩
    intro front layout back split before granted reached
    subst split
    have laid := run_laid positive fits.front reached
    exact laid.allocatesWithin placed (valid layout (by simp)) (placed.next_le reached).2
      (rooms front layout back rfl before granted reached)

theorem requests_room_of_small (placed : HeapPlaced s e)
    (small : ∀ layout, .alloc layout ∈ calls → layout.align + layout.size ≤ 0x7FF00000) :
    Requests HasRoom s e calls := by
  intro front layout back split before grants reached
  have below := (placed.next_le reached).2
  have top := placed.top
  have bounded := small layout (by rw [split]; simp)
  have near := Rounding.roundUp_lt before.next layout.align_pos
  exact hasRoom_iff.mpr (by omega)

end

def largestLayout : Layout := ⟨2 ^ 31 - 1, 1, Nat.isPowerOfTwo_one⟩

theorem largestLayout_valid : largestLayout.Valid := by
  refine ⟨by decide, ?_⟩
  simp [largestLayout, roundUp]

/-- It wraps the sum for the end of the block, and the request is not refused. -/
theorem heap_overflows_on_largest :
    HeapPlaced 0x80020000 0x80030000 ∧ ValidCalls [.alloc largestLayout] ∧
      ¬ NeverOverflows 0x80020000 0x80030000 [.alloc largestLayout] := by
  refine ⟨⟨by decide, by decide, by decide⟩, ?_, ?_⟩
  · intro layout member
    obtain rfl : layout = largestLayout := by simpa using member
    exact largestLayout_valid
  · intro safe
    rcases safe.1 with ⟨result, finished⟩
    have wraps : Runs.run BumpAllocator.call (BumpAllocator.new.init 0x80020000 0x80030000)
        [.alloc largestLayout] = .error .overflow := rfl
    rw [wraps] at finished
    cases finished

theorem heap_never_overflows_sample :
    NeverOverflows 0x80020000 0x80030000 [.alloc ⟨24, 8, 3, rfl⟩, .alloc ⟨100000, 4, 2, rfl⟩] := by
  have placed : HeapPlaced 0x80020000 0x80030000 := ⟨by decide, by decide, by decide⟩
  refine (heap_never_overflows_iff _ _ _ placed ?_).mpr (requests_room_of_small placed ?_)
  · intro layout member
    simp only [List.mem_cons, AllocCall.alloc.injEq, List.not_mem_nil, or_false] at member
    rcases member with rfl | rfl
    · exact ⟨by decide, by decide⟩
    · exact ⟨by decide, by decide⟩
  · intro layout member
    simp only [List.mem_cons, AllocCall.alloc.injEq, List.not_mem_nil, or_false] at member
    rcases member with rfl | rfl
    · decide
    · decide

end Ease
