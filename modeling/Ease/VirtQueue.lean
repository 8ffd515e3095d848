import Ease.Slots

/-! The virtqueue of the block device: descriptors, the available ring, and the
counters of requests made and completed. -/

namespace Ease

def virtqEntryNum : Nat := 16

def virtioBlkPaddr : Nat := 0x10001000

def virtioRegQueueNotify : Nat := 0x50

def virtqDescFNext : Nat := 1

def virtqDescFWrite : Nat := 2

structure VirtqDesc where
  addr : Nat
  len : Nat
  flags : Nat
  next : Nat
  deriving DecidableEq, Repr

structure VirtqAvail where
  index : Nat
  ring : Slots Nat 16

/-- The device counts completed requests here; the driver never reads its ring. -/
structure VirtqUsed where
  index : Nat

structure VirtioVirtq where
  descs : Slots VirtqDesc 16
  avail : VirtqAvail
  used : VirtqUsed
  queueIndex : Nat
  lastUsedIndex : Nat

namespace VirtioVirtq

def zeroed : VirtioVirtq where
  descs := fun _ => ⟨0, 0, 0, 0⟩
  avail := ⟨0, fun _ => 0⟩
  used := ⟨0⟩
  queueIndex := 0
  lastUsedIndex := 0

end VirtioVirtq

/-- The queue of `virtq_init`; what it writes to registers stays in the device. -/
def virtqInit (index : Nat) : VirtioVirtq :=
  { VirtioVirtq.zeroed with queueIndex := index % 2 ^ 16 }

/-- A register write, as far as the driver's own state goes. -/
def virtioRegWrite32 (offset _ : Nat) : Exec Unit :=
  assertThat (decide ((virtioBlkPaddr + offset) % 4 = 0))
    "assertion `left == right` failed"

/-- Both counters are `u16` and are increased with overflow checks. -/
def virtqKick (vq : VirtioVirtq) (descIndex : Nat) : Exec VirtioVirtq := do
  let index := vq.avail.index % virtqEntryNum
  let ring ← vq.avail.ring.write index descIndex
  let availIndex ← addWithin 16 vq.avail.index 1
  virtioRegWrite32 virtioRegQueueNotify vq.queueIndex
  let lastUsedIndex ← addWithin 16 vq.lastUsedIndex 1
  .ok { vq with avail := ⟨availIndex, ring⟩, lastUsedIndex }

def virtqIsBusy (vq : VirtioVirtq) : Bool := vq.lastUsedIndex != vq.used.index

def kicked (vq : VirtioVirtq) (head : Nat) : VirtioVirtq :=
  { vq with
    avail := ⟨vq.avail.index + 1,
      Function.update vq.avail.ring ⟨vq.avail.index % 16, Nat.mod_lt _ (by decide)⟩ head⟩
    lastUsedIndex := vq.lastUsedIndex + 1 }

@[simp] theorem kicked_avail_index (vq : VirtioVirtq) (head : Nat) :
    (kicked vq head).avail.index = vq.avail.index + 1 := rfl

@[simp] theorem kicked_lastUsedIndex (vq : VirtioVirtq) (head : Nat) :
    (kicked vq head).lastUsedIndex = vq.lastUsedIndex + 1 := rfl

theorem virtqKick_ok {vq : VirtioVirtq} (head : Nat) (avail : vq.avail.index + 1 < 2 ^ 16)
    (last : vq.lastUsedIndex + 1 < 2 ^ 16) : virtqKick vq head = .ok (kicked vq head) := by
  have inside : vq.avail.index % virtqEntryNum < 16 := Nat.mod_lt _ (by decide)
  have aligned : virtioRegWrite32 virtioRegQueueNotify vq.queueIndex = .ok () := rfl
  rw [virtqKick, Slots.write_ok _ _ inside, Exec.ok_bind, addWithin_ok avail, Exec.ok_bind, aligned,
    Exec.ok_bind, addWithin_ok last]
  rfl

theorem virtqKick_overflow {vq : VirtioVirtq} (head : Nat) (full : 2 ^ 16 ≤ vq.avail.index + 1) :
    virtqKick vq head = .error .overflow := by
  have inside : vq.avail.index % virtqEntryNum < 16 := Nat.mod_lt _ (by decide)
  rw [virtqKick, Slots.write_ok _ _ inside, Exec.ok_bind, addWithin_overflow full, Exec.error_bind]

def kicks (vq : VirtioVirtq) (heads : List Nat) : Exec VirtioVirtq := heads.foldlM virtqKick vq

theorem kicks_append (vq : VirtioVirtq) (front back : List Nat) :
    kicks vq (front ++ back) = kicks vq front >>= fun middle => kicks middle back :=
  List.foldlM_append

theorem kicks_ok {vq : VirtioVirtq} {heads : List Nat}
    (avail : vq.avail.index + heads.length < 2 ^ 16)
    (last : vq.lastUsedIndex + heads.length < 2 ^ 16) :
    ∃ after, kicks vq heads = .ok after ∧ after.avail.index = vq.avail.index + heads.length ∧
      after.lastUsedIndex = vq.lastUsedIndex + heads.length := by
  induction heads generalizing vq with
  | nil => exact ⟨vq, rfl, rfl, rfl⟩
  | cons head heads ih =>
      rw [List.length_cons] at avail last
      have first : virtqKick vq head = .ok (kicked vq head) :=
        virtqKick_ok head (by omega) (by omega)
      obtain ⟨after, rest, availAfter, lastAfter⟩ := @ih (kicked vq head)
        (by rw [kicked_avail_index]; omega) (by rw [kicked_lastUsedIndex]; omega)
      refine ⟨after, ?_, ?_, ?_⟩
      · rw [kicks, List.foldlM_cons, first, Exec.ok_bind]
        exact rest
      · rw [availAfter, kicked_avail_index, List.length_cons]
        omega
      · rw [lastAfter, kicked_lastUsedIndex, List.length_cons]
        omega

/-- From fresh counters, the kick number 65536 adds one to a counter at its limit. -/
theorem kicks_overflow (index : Nat) {heads : List Nat} (many : 2 ^ 16 ≤ heads.length) :
    kicks (virtqInit index) heads = .error .overflow := by
  have room : (heads.take (2 ^ 16 - 1)).length = 2 ^ 16 - 1 := by
    rw [List.length_take]
    omega
  obtain ⟨middle, reached, avail, _⟩ := @kicks_ok (virtqInit index) (heads.take (2 ^ 16 - 1))
    (by rw [room]; exact (by decide : 0 + (2 ^ 16 - 1) < 2 ^ 16))
    (by rw [room]; exact (by decide : 0 + (2 ^ 16 - 1) < 2 ^ 16))
  obtain ⟨head, rest, more⟩ : ∃ head rest, heads.drop (2 ^ 16 - 1) = head :: rest :=
    List.exists_cons_of_length_pos (by rw [List.length_drop]; omega)
  have full : 2 ^ 16 ≤ middle.avail.index + 1 := by
    rw [avail, room]
    exact (by decide : 2 ^ 16 ≤ 0 + (2 ^ 16 - 1) + 1)
  rw [← List.take_append_drop (2 ^ 16 - 1) heads, kicks_append, reached, Exec.ok_bind, more, kicks,
    List.foldlM_cons, virtqKick_overflow head full, Exec.error_bind]

structure CountsKicks (vq : VirtioVirtq) (heads : List Nat) : Prop where
  counted : ∃ after, kicks vq heads = .ok after ∧ after.avail.index = heads.length % 2 ^ 16 ∧
    after.lastUsedIndex = heads.length % 2 ^ 16
  stored : ∀ front head back, heads = front ++ head :: back →
    ∃ after, kicks vq (front ++ [head]) = .ok after ∧
      after.avail.ring ⟨front.length % 16, Nat.mod_lt _ (by decide)⟩ = head

/-- The counters do not wrap: the queue is good for 65535 requests. -/
theorem kicks_counted_iff (index : Nat) (heads : List Nat) :
    CountsKicks (virtqInit index) heads ↔ heads.length < 2 ^ 16 := by
  have start : (virtqInit index).avail.index = 0 := rfl
  have startLast : (virtqInit index).lastUsedIndex = 0 := rfl
  constructor
  · intro counted
    rcases counted with ⟨⟨after, finished, _⟩, _⟩
    by_contra many
    rw [kicks_overflow index (Nat.not_lt.mp many)] at finished
    cases finished
  · intro few
    constructor
    · obtain ⟨after, finished, avail, last⟩ := @kicks_ok (virtqInit index) heads
        (by rw [start]; omega) (by rw [startLast]; omega)
      rw [start, Nat.zero_add] at avail
      rw [startLast, Nat.zero_add] at last
      exact ⟨after, finished, by rw [avail, Nat.mod_eq_of_lt few],
        by rw [last, Nat.mod_eq_of_lt few]⟩
    · intro front head back split
      subst split
      rw [List.length_append, List.length_cons] at few
      obtain ⟨middle, reached, avail, last⟩ := @kicks_ok (virtqInit index) front
        (by rw [start]; omega) (by rw [startLast]; omega)
      rw [start, Nat.zero_add] at avail
      rw [startLast, Nat.zero_add] at last
      refine ⟨kicked middle head, ?_, ?_⟩
      · rw [kicks_append, reached, Exec.ok_bind, kicks, List.foldlM_cons,
          virtqKick_ok head (by omega) (by omega)]
        rfl
      · simp [kicked, avail]

theorem kick_65536_overflows : ¬ CountsKicks (virtqInit 0) (List.replicate 65536 0) := by
  have many : 2 ^ 16 ≤ (List.replicate 65536 0).length := by
    have size : (List.replicate 65536 0).length = 65536 := List.length_replicate
    omega
  intro counted
  rcases counted with ⟨⟨after, finished, _⟩, _⟩
  rw [kicks_overflow 0 many] at finished
  cases finished

end Ease
