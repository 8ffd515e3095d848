import Ease.Checked
import Ease.Runs
import Mathlib.Data.List.Nodup
import Mathlib.Data.UInt
import Mathlib.Logic.Function.Basic

/-! Spin locks on one hart, which mask interrupts while they are held. -/

namespace Ease

def mstatusMie : UInt32 := 8

def interruptsOn (mstatus : UInt32) : Bool := mstatus &&& mstatusMie != 0

/-- `csrrc` and `csrsi` with `MSTATUS_MIE`. -/
def clearMie (mstatus : UInt32) : UInt32 := mstatus &&& ~~~mstatusMie

def setMie (mstatus : UInt32) : UInt32 := mstatus ||| mstatusMie

section Bits

theorem mstatusMie_toBitVec : mstatusMie.toBitVec = BitVec.twoPow 32 3 := by decide

theorem interruptsOn_eq (mstatus : UInt32) :
    interruptsOn mstatus = mstatus.toBitVec.getLsbD 3 := by
  have single : (mstatus &&& mstatusMie).toBitVec =
      if mstatus.toBitVec.getLsbD 3 then BitVec.twoPow 32 3 else 0#32 := by
    rw [UInt32.toBitVec_and, mstatusMie_toBitVec, BitVec.and_twoPow]
  cases bit : mstatus.toBitVec.getLsbD 3 with
  | true =>
      rw [bit, if_pos rfl, ← mstatusMie_toBitVec] at single
      rw [interruptsOn, UInt32.toBitVec_inj.mp single]
      rfl
  | false =>
      have none : mstatus &&& mstatusMie = 0 := UInt32.toBitVec_inj.mp (by rw [single, bit]; rfl)
      rw [interruptsOn, none]
      rfl

@[simp] theorem interruptsOn_clearMie (mstatus : UInt32) :
    interruptsOn (clearMie mstatus) = false := by
  rw [interruptsOn_eq, clearMie, UInt32.toBitVec_and, UInt32.toBitVec_not, mstatusMie_toBitVec]
  simp

@[simp] theorem interruptsOn_setMie (mstatus : UInt32) : interruptsOn (setMie mstatus) = true := by
  rw [interruptsOn_eq, setMie, UInt32.toBitVec_or, mstatusMie_toBitVec]
  simp

theorem clearMie_of_off {mstatus : UInt32} (off : interruptsOn mstatus = false) :
    clearMie mstatus = mstatus := by
  rw [interruptsOn_eq] at off
  apply UInt32.toBitVec_inj.mp
  rw [clearMie, UInt32.toBitVec_and, UInt32.toBitVec_not, mstatusMie_toBitVec]
  apply BitVec.eq_of_getLsbD_eq
  intro i inside
  rw [BitVec.getLsbD_and, BitVec.getLsbD_not, BitVec.getLsbD_twoPow]
  by_cases here : 3 = i
  · subst here
    rw [off, Bool.false_and]
  · simp [here, inside]

theorem setMie_clearMie {mstatus : UInt32} (on : interruptsOn mstatus = true) :
    setMie (clearMie mstatus) = mstatus := by
  rw [interruptsOn_eq] at on
  apply UInt32.toBitVec_inj.mp
  rw [setMie, clearMie, UInt32.toBitVec_or, UInt32.toBitVec_and, UInt32.toBitVec_not,
    mstatusMie_toBitVec]
  apply BitVec.eq_of_getLsbD_eq
  intro i inside
  rw [BitVec.getLsbD_or, BitVec.getLsbD_and, BitVec.getLsbD_not, BitVec.getLsbD_twoPow]
  by_cases here : 3 = i
  · subst here
    rw [on]
    rfl
  · simp [here, inside]

end Bits

structure SpinLockGuard (ι : Type) where
  lock : ι
  prevInterruptStatus : UInt32
  deriving DecidableEq, Repr

/-- The hart's status register, the flag of every lock, and the guards that the program
holds, the oldest first. -/
structure Hart (ι : Type) where
  mstatus : UInt32
  locked : ι → Bool
  guards : List (SpinLockGuard ι)

namespace Hart

variable {ι : Type}

def start (mstatus : UInt32) : Hart ι := ⟨mstatus, fun _ => false, []⟩

def mie (hart : Hart ι) : Bool := interruptsOn hart.mstatus

def disableInterrupts (hart : Hart ι) : UInt32 × Hart ι :=
  (hart.mstatus, { hart with mstatus := clearMie hart.mstatus })

def restoreInterrupts (hart : Hart ι) (prev : UInt32) : Hart ι :=
  if interruptsOn prev then { hart with mstatus := setMie hart.mstatus } else hart

/-- A failed attempt puts the status back as it was. -/
theorem restore_disable (hart : Hart ι) :
    (hart.disableInterrupts.2).restoreInterrupts hart.disableInterrupts.1 = hart := by
  rcases hart with ⟨mstatus, locked, guards⟩
  cases on : interruptsOn mstatus with
  | true => simp only [disableInterrupts, restoreInterrupts, on, if_true, setMie_clearMie on]
  | false =>
      simp only [disableInterrupts, restoreInterrupts, on, Bool.false_eq_true, if_false,
        clearMie_of_off on]

variable [DecidableEq ι]

/-- `compare_exchange_weak(false, true)`, which may also fail on a flag that is clear. -/
def compareExchangeWeak (hart : Hart ι) (lock : ι) (spurious : Bool) : Bool × Hart ι :=
  if hart.locked lock || spurious then (false, hart)
  else (true, { hart with locked := Function.update hart.locked lock true })

/-- Masks interrupts and tries the flag once: the whole of `try_lock`, and what `lock`
repeats. -/
def tryLock (hart : Hart ι) (lock : ι) (spurious : Bool) : Bool × Hart ι :=
  let (prev, hart) := hart.disableInterrupts
  let (won, hart) := hart.compareExchangeWeak lock spurious
  if won then (true, { hart with guards := hart.guards ++ [⟨lock, prev⟩] })
  else (false, hart.restoreInterrupts prev)

/-- The listed attempts are those that the loop makes. On one hart nobody releases the
lock while it spins, and a loop that only fails goes on for ever. -/
def lock (hart : Hart ι) (lock : ι) : List Bool → Exec (Hart ι)
  | [] => .error .diverges
  | spurious :: later =>
      if hart.locked lock then .error .diverges
      else
        match hart.tryLock lock spurious with
        | (true, hart) => .ok hart
        | (false, hart) => hart.lock lock later

def dropGuard (hart : Hart ι) (index : Nat) : Exec (Hart ι) :=
  match hart.guards[index]? with
  | none => .error .unmodelled
  | some guard =>
      let hart := { hart with
        locked := Function.update hart.locked guard.lock false
        guards := hart.guards.eraseIdx index }
      .ok (hart.restoreInterrupts guard.prevInterruptStatus)

end Hart

inductive LockCall (ι : Type) where
  | lock (lock : ι) (attempts : List Bool)
  | tryLock (lock : ι) (spurious : Bool)
  | drop (index : Nat)
  deriving DecidableEq, Repr

def LockCall.wanted {ι : Type} : LockCall ι → Option ι
  | .lock name _ => some name
  | .tryLock name _ => some name
  | .drop _ => none

namespace Hart

variable {ι : Type} [DecidableEq ι]

/-- The output says whether a guard was returned. -/
def call (hart : Hart ι) : LockCall ι → Exec (Hart ι × Bool)
  | .lock lock attempts => do
      let hart ← hart.lock lock attempts
      .ok (hart, true)
  | .tryLock lock spurious =>
      let (won, hart) := hart.tryLock lock spurious
      .ok (hart, won)
  | .drop index => do
      let hart ← hart.dropGuard index
      .ok (hart, false)

def hold (hart : Hart ι) (lock : ι) : Hart ι :=
  ⟨clearMie hart.mstatus, Function.update hart.locked lock true,
    hart.guards ++ [⟨lock, hart.mstatus⟩]⟩

def release (hart : Hart ι) (guard : SpinLockGuard ι) (rest : List (SpinLockGuard ι)) : Hart ι :=
  ⟨if interruptsOn guard.prevInterruptStatus then setMie hart.mstatus else hart.mstatus,
    Function.update hart.locked guard.lock false, rest⟩

inductive Stepped (before : Hart ι) : LockCall ι → Hart ι → Prop where
  | held {call : LockCall ι} {lock : ι} (wanted : call.wanted = some lock)
      (free : before.locked lock = false) : Stepped before call (before.hold lock)
  | failed (lock : ι) (spurious : Bool) : Stepped before (.tryLock lock spurious) before
  | released {front back : List (SpinLockGuard ι)} {guard : SpinLockGuard ι}
      (present : before.guards = front ++ guard :: back) :
      Stepped before (.drop front.length) (before.release guard (front ++ back))

section Steps

variable {hart after : Hart ι}

theorem tryLock_eq (hart : Hart ι) (lock : ι) (spurious : Bool) :
    hart.tryLock lock spurious =
      if hart.locked lock || spurious then (false, hart) else (true, hart.hold lock) := by
  cases refused : hart.locked lock || spurious with
  | true =>
      have lost : hart.disableInterrupts.2.compareExchangeWeak lock spurious =
          (false, hart.disableInterrupts.2) := if_pos refused
      rw [if_pos rfl]
      calc hart.tryLock lock spurious
          = (false, hart.disableInterrupts.2.restoreInterrupts hart.disableInterrupts.1) := by
            simp only [tryLock, lost, Bool.false_eq_true, if_false]
        _ = (false, hart) := by rw [restore_disable]
  | false =>
      have won : hart.disableInterrupts.2.compareExchangeWeak lock spurious =
          (true, { hart.disableInterrupts.2 with
            locked := Function.update hart.locked lock true }) := by
        rw [compareExchangeWeak, if_neg (by simpa [disableInterrupts] using refused)]
        rfl
      simp only [tryLock, won, if_true, Bool.false_eq_true, if_false]
      rfl

theorem lock_eq_ok_iff {lock : ι} {attempts : List Bool} :
    hart.lock lock attempts = .ok after ↔
      hart.locked lock = false ∧ false ∈ attempts ∧ after = hart.hold lock := by
  induction attempts with
  | nil => simp [Hart.lock]
  | cons spurious later ih =>
      rw [Hart.lock, tryLock_eq]
      cases taken : hart.locked lock with
      | true => simp
      | false =>
          cases spurious with
          | true => simp [ih, taken]
          | false => simp [eq_comm]

theorem dropGuard_eq_ok {index : Nat} (dropped : hart.dropGuard index = .ok after) :
    ∃ front guard back, front.length = index ∧ hart.guards = front ++ guard :: back ∧
      after = hart.release guard (front ++ back) := by
  rw [dropGuard] at dropped
  split at dropped
  · cases dropped
  · next guard present =>
      rcases List.getElem?_eq_some_iff.mp present with ⟨inside, at_index⟩
      have split : hart.guards =
          hart.guards.take index ++ guard :: hart.guards.drop (index + 1) := by
        rw [← at_index, List.cons_getElem_drop_succ, List.take_append_drop]
      refine ⟨hart.guards.take index, guard, hart.guards.drop (index + 1), ?_, split, ?_⟩
      · rw [List.length_take]
        omega
      · cases dropped
        rw [← List.eraseIdx_eq_take_drop_succ, release, restoreInterrupts]
        split <;> rfl

theorem call_stepped {request : LockCall ι} {won : Bool}
    (called : hart.call request = .ok (after, won)) : Stepped hart request after := by
  cases request with
  | lock lock attempts =>
      simp only [call, Exec.bind_eq_ok] at called
      rcases called with ⟨taken, locked, same⟩
      cases same
      rcases lock_eq_ok_iff.mp locked with ⟨free, _, rfl⟩
      exact .held rfl free
  | tryLock lock spurious =>
      rw [call, tryLock_eq] at called
      cases refused : hart.locked lock || spurious with
      | true =>
          rw [refused, if_pos rfl] at called
          cases called
          exact .failed lock spurious
      | false =>
          rw [refused] at called
          cases called
          exact .held rfl (Bool.or_eq_false_iff.mp refused).1
  | drop index =>
      simp only [call, Exec.bind_eq_ok] at called
      rcases called with ⟨dropped, released, same⟩
      cases same
      rcases dropGuard_eq_ok released with ⟨front, guard, back, rfl, present, rfl⟩
      exact .released present

theorem hold_guards (hart : Hart ι) (lock : ι) :
    (hart.hold lock).guards = hart.guards ++ [⟨lock, hart.mstatus⟩] := rfl

theorem call_reports {request : LockCall ι} {won : Bool}
    (called : hart.call request = .ok (after, won)) :
    won = true ↔
      ∃ guard, after.guards = hart.guards ++ [guard] ∧ request.wanted = some guard.lock := by
  cases request with
  | lock lock attempts =>
      simp only [call, Exec.bind_eq_ok] at called
      rcases called with ⟨taken, locked, same⟩
      cases same
      rcases lock_eq_ok_iff.mp locked with ⟨_, _, rfl⟩
      exact ⟨fun _ => ⟨_, hold_guards hart lock, rfl⟩, fun _ => rfl⟩
  | tryLock lock spurious =>
      rw [call, tryLock_eq] at called
      cases refused : hart.locked lock || spurious with
      | true =>
          rw [refused, if_pos rfl] at called
          cases called
          simp
      | false =>
          rw [refused] at called
          cases called
          exact ⟨fun _ => ⟨_, hold_guards hart lock, rfl⟩, fun _ => rfl⟩
  | drop index =>
      simp only [call, Exec.bind_eq_ok] at called
      rcases called with ⟨dropped, released, same⟩
      cases same
      simp [LockCall.wanted]

end Steps

structure Exclusive (hart : Hart ι) : Prop where
  once : (hart.guards.map SpinLockGuard.lock).Nodup
  locked : ∀ lock, hart.locked lock = true ↔ ∃ guard ∈ hart.guards, guard.lock = lock

/-- Interrupts are enabled, or some live guard will enable them again. -/
def remembered (hart : Hart ι) : Bool :=
  hart.mie || hart.guards.any fun guard => interruptsOn guard.prevInterruptStatus

section Invariants

variable {before after : Hart ι} {request : LockCall ι}

omit [DecidableEq ι] in
theorem exclusive_start (mstatus : UInt32) : (start mstatus : Hart ι).Exclusive :=
  ⟨List.nodup_nil, by simp [start]⟩

theorem Exclusive.hold (exclusive : before.Exclusive) {lock : ι}
    (free : before.locked lock = false) : (before.hold lock).Exclusive := by
  have absent : ∀ guard ∈ before.guards, guard.lock ≠ lock := by
    intro guard live same
    have taken := (exclusive.locked lock).mpr ⟨guard, live, same⟩
    rw [free] at taken
    cases taken
  constructor
  · simp only [Hart.hold, List.map_append, List.map_cons, List.map_nil]
    rw [List.nodup_append]
    refine ⟨exclusive.once, List.nodup_singleton _, ?_⟩
    intro held member other single
    rcases List.mem_map.mp member with ⟨guard, live, rfl⟩
    rw [List.mem_singleton.mp single]
    exact absent guard live
  · intro other
    by_cases same : other = lock
    · subst same
      simp [Hart.hold]
    · simp only [Hart.hold, Function.update_of_ne same, exclusive.locked other, List.mem_append,
        List.mem_singleton]
      constructor
      · intro found
        rcases found with ⟨guard, live, held⟩
        exact ⟨guard, .inl live, held⟩
      · intro found
        rcases found with ⟨guard, live | rfl, held⟩
        · exact ⟨guard, live, held⟩
        · exact absurd held.symm same

theorem Exclusive.release (exclusive : before.Exclusive)
    {front back : List (SpinLockGuard ι)} {guard : SpinLockGuard ι}
    (present : before.guards = front ++ guard :: back) :
    (before.release guard (front ++ back)).Exclusive := by
  have once := exclusive.once
  rw [present, List.map_append, List.map_cons, List.nodup_middle, List.nodup_cons,
    ← List.map_append] at once
  rcases once with ⟨gone, others⟩
  refine ⟨others, ?_⟩
  intro other
  by_cases same : other = guard.lock
  · subst same
    simp only [Hart.release, Function.update_self, Bool.false_eq_true, false_iff]
    intro found
    rcases found with ⟨twin, live, held⟩
    exact gone (held ▸ List.mem_map_of_mem live)
  · simp only [Hart.release, Function.update_of_ne same, exclusive.locked other, present,
      List.mem_append, List.mem_cons]
    constructor
    · intro found
      rcases found with ⟨live, inFront | rfl | inBack, held⟩
      · exact ⟨live, .inl inFront, held⟩
      · exact absurd held.symm same
      · exact ⟨live, .inr inBack, held⟩
    · intro found
      rcases found with ⟨live, inFront | inBack, held⟩
      · exact ⟨live, .inl inFront, held⟩
      · exact ⟨live, .inr (.inr inBack), held⟩

theorem Stepped.exclusive (stepped : Stepped before request after)
    (exclusive : before.Exclusive) : after.Exclusive := by
  cases stepped with
  | held wanted free => exact exclusive.hold free
  | failed lock spurious => exact exclusive
  | released present => exact exclusive.release present

/-- Taking a lock moves what is remembered into the guard, dropping it moves it back. -/
theorem Stepped.remembered (stepped : Stepped before request after) :
    after.remembered = before.remembered := by
  cases stepped with
  | held wanted free =>
      simp only [Hart.remembered, Hart.hold, mie, interruptsOn_clearMie, List.any_append,
        List.any_cons, List.any_nil, Bool.or_false, Bool.false_or]
      exact Bool.or_comm _ _
  | failed lock spurious => rfl
  | @released front back guard present =>
      simp only [Hart.remembered, Hart.release, mie, present, List.any_append, List.any_cons]
      cases on : interruptsOn guard.prevInterruptStatus with
      | true => simp
      | false => simp

end Invariants

omit [DecidableEq ι] in
theorem remembered_of_free {hart : Hart ι} (free : hart.guards = []) :
    hart.remembered = hart.mie := by
  rw [remembered, free, List.any_nil, Bool.or_false]

theorem run_remembered {mstatus : UInt32} {calls : List (LockCall ι)} {last : Hart ι}
    {outputs : List Bool} (finished : Runs.run call (start mstatus) calls = .ok (last, outputs)) :
    last.remembered = interruptsOn mstatus := by
  calc last.remembered
      = (start mstatus : Hart ι).remembered :=
        Runs.run_conserves call (fun _ _ _ _ called => (call_stepped called).remembered) finished
    _ = interruptsOn mstatus := remembered_of_free rfl

/-- Mutual exclusion, and interrupts as they were whenever no lock is held. A call that
reports a guard is one that adds it. -/
theorem spin_lock_over_runs (mstatus : UInt32) (calls : List (LockCall ι)) (last : Hart ι)
    (outputs : List Bool) (finished : Runs.run call (start mstatus) calls = .ok (last, outputs)) :
    ((last.guards.map SpinLockGuard.lock).Nodup ∧
        ∀ lock, last.locked lock = true ↔ ∃ guard ∈ last.guards, guard.lock = lock) ∧
      (last.guards = [] → interruptsOn last.mstatus = interruptsOn mstatus) ∧
      (∀ lock spurious after, last.tryLock lock spurious = (false, after) → after = last) ∧
      ∀ request after won, last.call request = .ok (after, won) →
        (won = true ↔
          ∃ guard, after.guards = last.guards ++ [guard] ∧ request.wanted = some guard.lock) := by
  have exclusive : last.Exclusive := by
    refine Runs.run_invariant call ?_ (exclusive_start mstatus) finished
    intro before request after won _ exclusive called
    exact (call_stepped called).exclusive exclusive
  have kept := run_remembered finished
  refine ⟨⟨exclusive.once, exclusive.locked⟩, ?_, ?_, fun _ _ _ called => call_reports called⟩
  · intro free
    rw [remembered_of_free free] at kept
    exact kept
  · intro lock spurious after failed
    rw [tryLock_eq] at failed
    split at failed
    · exact (Prod.mk.inj failed).2.symm
    · cases failed

theorem spin_lock_out_of_order :
    ∃ last : Hart Bool,
      Runs.run call (start 8) [.lock false [true, false], .tryLock true false, .drop 0, .drop 0] =
        .ok (last, [true, true, false, false]) ∧
      (last.guards.map SpinLockGuard.lock).Nodup ∧ interruptsOn last.mstatus = true := by
  obtain ⟨⟨once, _⟩, restored, _⟩ := spin_lock_over_runs 8
    [.lock false [true, false], .tryLock true false, .drop 0, .drop 0] _ _ rfl
  exact ⟨_, rfl, once, restored rfl⟩

def MaskedWhileHeld (mstatus : UInt32) (calls : List (LockCall ι)) : Prop :=
  ∀ front back, calls = front ++ back → ∀ hart outputs,
    Runs.run call (start mstatus) front = .ok (hart, outputs) → hart.guards ≠ [] → hart.mie = false

/-- The oldest of the live guards is dropped only when it is the only one. -/
def OldestLast (mstatus : UInt32) (calls : List (LockCall ι)) : Prop :=
  ∀ front back, calls = front ++ .drop 0 :: back → ∀ hart outputs,
    Runs.run call (start mstatus) front = .ok (hart, outputs) → hart.guards.length ≤ 1

structure Nested (hart : Hart ι) : Prop where
  masked : hart.guards ≠ [] → hart.mie = false
  younger : ∀ guard ∈ hart.guards.tail, interruptsOn guard.prevInterruptStatus = false

section Masking

variable {before after hart : Hart ι} {request : LockCall ι} {mstatus : UInt32}
  {calls : List (LockCall ι)} {outputs : List Bool}

theorem Stepped.nested (stepped : Stepped before request after) (nested : before.Nested)
    (oldest : request = .drop 0 → before.guards.length ≤ 1) : after.Nested := by
  cases stepped with
  | held wanted free =>
      refine ⟨fun _ => interruptsOn_clearMie _, ?_⟩
      cases live : before.guards with
      | nil => simp [Hart.hold, live]
      | cons first rest =>
          have masked := nested.masked (by simp [live])
          have younger := nested.younger
          rw [live] at younger
          simp only [Hart.hold, live, List.cons_append, List.tail_cons, List.mem_append,
            List.mem_singleton]
          intro guard member
          rcases member with old | rfl
          · exact younger guard old
          · exact masked
  | failed lock spurious => exact nested
  | @released front back guard present =>
      have younger := nested.younger
      rw [present] at younger oldest
      cases front with
      | nil =>
          have alone : back = [] := by simpa using oldest rfl
          subst alone
          exact ⟨fun live => absurd rfl live, by simp [Hart.release]⟩
      | cons first rest =>
          have masked := nested.masked (by simp [present])
          have off := younger guard (by simp)
          refine ⟨?_, ?_⟩
          · intro _
            simpa [Hart.release, mie, off] using masked
          · intro other member
            apply younger other
            simp only [Hart.release, List.cons_append, List.tail_cons, List.mem_append] at member
            simp only [List.cons_append, List.tail_cons, List.mem_append, List.mem_cons]
            rcases member with inFront | inBack
            · exact .inl inFront
            · exact .inr (.inr inBack)

/-- Dropping the oldest guard under younger ones enables interrupts too early. -/
theorem Nested.drop_oldest (nested : before.Nested) (remembered : before.remembered = true)
    (more : 1 < before.guards.length) :
    ∃ after, before.call (.drop 0) = .ok (after, false) ∧ after.guards ≠ [] ∧ after.mie = true := by
  cases live : before.guards with
  | nil => simp [live] at more
  | cons first rest =>
      rw [live, List.length_cons] at more
      have younger := nested.younger
      have masked := nested.masked (by simp [live])
      rw [live, List.tail_cons] at younger
      have none : (rest.any fun guard => interruptsOn guard.prevInterruptStatus) = false := by
        rw [List.any_eq_false]
        intro guard member
        simp [younger guard member]
      have on : interruptsOn first.prevInterruptStatus = true := by
        simpa [Hart.remembered, live, masked, none] using remembered
      refine ⟨before.release first rest, ?_, ?_, ?_⟩
      · simp [call, dropGuard, live, restoreInterrupts, on, Hart.release]
      · apply List.ne_nil_of_length_pos
        exact Nat.lt_of_succ_lt_succ more
      · simp [Hart.release, mie, on]

theorem MaskedWhileHeld.front {front back : List (LockCall ι)}
    (masked : MaskedWhileHeld mstatus (front ++ back)) : MaskedWhileHeld mstatus front := by
  intro first rest split
  subst split
  exact masked first (rest ++ back) (List.append_assoc _ _ _)

theorem OldestLast.nested (oldest : OldestLast mstatus calls)
    (finished : Runs.run call (start mstatus) calls = .ok (hart, outputs)) : hart.Nested := by
  induction calls using List.reverseRecOn generalizing hart outputs with
  | nil =>
      cases finished
      exact ⟨fun live => absurd rfl live, by simp [start]⟩
  | append_singleton front request ih =>
      obtain ⟨middle, earlier, won, reached, called, rfl⟩ := (Runs.run_snoc_eq_ok call).mp finished
      have kept : OldestLast mstatus front := by
        intro first rest split
        subst split
        exact oldest first (rest ++ [request]) (by simp)
      apply (call_stepped called).nested (ih kept reached)
      intro drops
      subst drops
      exact oldest front [] rfl middle earlier reached

theorem MaskedWhileHeld.oldestLast (masked : MaskedWhileHeld mstatus calls)
    (on : interruptsOn mstatus = true) : OldestLast mstatus calls := by
  induction calls using List.reverseRecOn with
  | nil =>
      intro front back split
      simp at split
  | append_singleton earlier request ih =>
      have oldest := ih masked.front
      intro front back split hart outputs reached
      rcases List.eq_nil_or_concat back with rfl | ⟨rest, final, rfl⟩
      · rcases List.append_inj' split rfl with ⟨rfl, last⟩
        cases last
        have kept := run_remembered reached
        apply Nat.le_of_not_lt
        intro more
        obtain ⟨after, dropped, live, enabled⟩ :=
          (oldest.nested reached).drop_oldest (kept.trans on) more
        have off := masked _ [] (List.append_nil _).symm after (outputs ++ [false])
          ((Runs.run_snoc_eq_ok call).mpr ⟨hart, outputs, false, reached, dropped, rfl⟩) live
        rw [enabled] at off
        cases off
      · rw [List.concat_eq_append, ← List.cons_append, ← List.append_assoc] at split
        rcases List.append_inj' split rfl with ⟨same, _⟩
        exact oldest front rest same hart outputs reached

/-- Interrupts stay masked exactly when nothing depends on the order of the drops. -/
theorem masked_while_held_iff (mstatus : UInt32) (calls : List (LockCall ι)) :
    MaskedWhileHeld mstatus calls ↔ interruptsOn mstatus = false ∨ OldestLast mstatus calls := by
  constructor
  · intro masked
    cases on : interruptsOn mstatus with
    | false => exact .inl rfl
    | true => exact .inr (masked.oldestLast on)
  · intro condition front back split hart outputs reached live
    subst split
    rcases condition with off | oldest
    · have both := (run_remembered reached).trans off
      rw [remembered, Bool.or_eq_false_iff] at both
      exact both.1
    · have early : OldestLast mstatus front := by
        intro first rest split
        subst split
        exact oldest first (rest ++ back) (by simp)
      exact (early.nested reached).masked live

end Masking

/-- Two locks, the one taken first dropped first: the second is still held, with
interrupts enabled. -/
theorem unmasked_while_held :
    ¬ MaskedWhileHeld 8 [.lock false [false], .lock true [false], .drop 0] := by
  intro masked
  have off := masked [.lock false [false], .lock true [false], .drop 0] [] rfl _ _ rfl
    (List.cons_ne_nil _ _)
  cases off

end Hart

end Ease
