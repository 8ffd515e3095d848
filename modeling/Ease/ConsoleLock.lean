import Ease.SpinLock

/-! The lock of the console among the others of one hart, as the main code, `print!`, the
trap handler and the panic handler use it. -/

namespace Ease

/-- Code that was started and has not finished. A `print!` writes its format to the
serial line first, then takes the lock, and writes it to the console with the guard. -/
inductive Frame where
  | uart
  | console
  | attach
  | trap
  | panic
  deriving DecidableEq, Repr

def Frame.holds : Frame → Bool
  | uart => false
  | console => true
  | attach => true
  | trap => false
  | panic => false

/-- The frame evaluates the arguments of a format, which may print. -/
def Frame.formats : Frame → Bool
  | uart => true
  | console => true
  | attach => false
  | trap => false
  | panic => false

/-- The hart with its locks, of which `none` is `CONSOLE`; the saved interrupt enable
bit; and the frames on the stack, the innermost first. -/
structure Kernel (ι : Type) where
  hart : Hart (Option ι)
  mpie : Bool
  frames : List Frame

inductive KernelEvent (ι : Type) where
  | print
  | lockConsole (attempts : List Bool)
  | unlockConsole
  | attach (attempts : List Bool)
  | panic
  | trap (mcause : UInt32)
  | mret
  | other (call : LockCall (Option ι))

def isInterrupt (mcause : UInt32) : Bool := (mcause >>> 31) &&& 1 == 1

def isTimer (mcause : UInt32) : Bool := isInterrupt mcause && mcause &&& 0x7FFFFFFF == 7

/-- What `trap_handler` starts: nothing more for the timer, a `println!` for another
interrupt, and a panic for an exception. -/
def trapFrames (mcause : UInt32) : List Frame :=
  if isTimer mcause then [.trap]
  else if isInterrupt mcause then [.uart, .trap]
  else [.uart, .panic, .trap]

namespace KernelEvent

variable {ι : Type}

def prints : KernelEvent ι → Bool
  | print => true
  | lockConsole _ => false
  | unlockConsole => false
  | attach _ => false
  | panic => true
  | trap mcause => !isTimer mcause
  | mret => false
  | other _ => false

def guardAfter (live : Bool) : KernelEvent ι → Bool
  | print => live
  | lockConsole _ => true
  | unlockConsole => false
  | attach _ => true
  | panic => live
  | trap _ => live
  | mret => live
  | other _ => live

end KernelEvent

theorem KernelEvent.guardAfter_of_prints {ι : Type} {live : Bool} (event : KernelEvent ι)
    (prints : event.prints = true) : event.guardAfter live = live := by
  cases event with
  | print => rfl
  | panic => rfl
  | trap mcause => rfl
  | lockConsole attempts => cases prints
  | unlockConsole => cases prints
  | attach attempts => cases prints
  | mret => cases prints
  | other call => cases prints

/-- Between a lock of the console and the drop of its guard no `print!` is started: not
by the arguments of a format, not by a panic, an exception or an unknown interrupt. -/
def StartsClear {ι : Type} (events : List (KernelEvent ι)) : Prop :=
  ∀ front event back, events = front ++ event :: back → event.prints = true →
    front.foldl KernelEvent.guardAfter false = false

theorem startsClear_of_prefixes {ι : Type} {events : List (KernelEvent ι)}
    (clear : ∀ count, (inside : count < events.length) → events[count].prints = true →
      (events.take count).foldl KernelEvent.guardAfter false = false) : StartsClear events := by
  intro front event back split prints
  subst split
  have inside : front.length < (front ++ event :: back).length := by simp
  have before := clear front.length inside (by simpa using prints)
  rwa [List.take_left] at before

namespace Kernel

variable {ι : Type}

def start (mstatus : UInt32) : Kernel ι := ⟨Hart.start mstatus, false, []⟩

def formatting (kernel : Kernel ι) : Bool :=
  match kernel.frames with
  | [] => true
  | frame :: _ => frame.formats

def enterTrap (kernel : Kernel ι) (mcause : UInt32) : Kernel ι where
  hart := { kernel.hart with mstatus := clearMie kernel.hart.mstatus }
  mpie := kernel.hart.mie
  frames := trapFrames mcause ++ kernel.frames

def leaveTrap (kernel : Kernel ι) (frames : List Frame) : Kernel ι where
  hart := { kernel.hart with
    mstatus := if kernel.mpie then setMie kernel.hart.mstatus else clearMie kernel.hart.mstatus }
  mpie := true
  frames := frames

variable [DecidableEq ι]

/-- `CONSOLE.lock()`, after which `frames` is the stack. With the lock taken it spins for
ever, as no other code on the hart goes on. -/
def takeConsole (kernel : Kernel ι) (attempts : List Bool) (frames : List Frame) :
    Exec (Kernel ι × Unit) :=
  if kernel.hart.locked none then .error .diverges
  else
    match kernel.hart.lock none attempts with
    | .ok hart => .ok ({ kernel with hart, frames }, ())
    | .error _ => .error .unmodelled

def releaseConsole (kernel : Kernel ι) (frames : List Frame) : Exec (Kernel ι × Unit) := do
  let hart ← kernel.hart.dropGuard (kernel.hart.guards.findIdx fun guard => guard.lock = none)
  .ok ({ kernel with hart, frames }, ())

def concernsConsole (kernel : Kernel ι) : LockCall (Option ι) → Bool
  | .lock name _ => name.isNone
  | .tryLock name _ => name.isNone
  | .drop index => kernel.hart.guards[index]?.any fun guard => guard.lock.isNone

/-- One event; those that cannot occur in the state are not modelled. -/
def step (kernel : Kernel ι) : KernelEvent ι → Exec (Kernel ι × Unit)
  | .print =>
      if kernel.formatting then .ok ({ kernel with frames := .uart :: kernel.frames }, ())
      else .error .unmodelled
  | .lockConsole attempts =>
      if kernel.frames.head? = some .uart then
        kernel.takeConsole attempts (.console :: kernel.frames.tail)
      else .error .unmodelled
  | .unlockConsole =>
      if kernel.frames.head?.any Frame.holds then kernel.releaseConsole kernel.frames.tail
      else .error .unmodelled
  | .attach attempts =>
      if kernel.frames = [] then kernel.takeConsole attempts [.attach] else .error .unmodelled
  | .panic =>
      -- After its `println!` the panic handler only waits for interrupts.
      if kernel.frames.head? = some .panic then .error .unmodelled
      else .ok ({ kernel with frames := .uart :: .panic :: kernel.frames }, ())
  | .trap mcause =>
      if isInterrupt mcause && !kernel.hart.mie then .error .unmodelled
      else .ok (kernel.enterTrap mcause, ())
  | .mret =>
      if kernel.frames.head? = some .trap then .ok (kernel.leaveTrap kernel.frames.tail, ())
      else .error .unmodelled
  | .other call =>
      if kernel.concernsConsole call then .error .unmodelled
      else
        match kernel.hart.call call with
        | .ok (hart, _) => .ok ({ kernel with hart }, ())
        | .error _ => .error .unmodelled

def SameLocks (before after : Hart (Option ι)) : Prop :=
  after.locked = before.locked ∧ after.guards = before.guards

inductive Moved (before : Kernel ι) : KernelEvent ι → Kernel ι → Prop where
  | begins {event : KernelEvent ι} {after : Kernel ι} (pushed : List Frame)
      (prints : event.prints = true) (frames : after.frames = .uart :: (pushed ++ before.frames))
      (plain : ∀ frame ∈ pushed, frame.holds = false) (same : SameLocks before.hart after.hart) :
      Moved before event after
  | timer {mcause : UInt32} {after : Kernel ι} (timer : isTimer mcause = true)
      (frames : after.frames = .trap :: before.frames) (same : SameLocks before.hart after.hart) :
      Moved before (.trap mcause) after
  | locks {attempts : List Bool} {rest : List Frame} {after : Kernel ι}
      (top : before.frames = .uart :: rest) (free : before.hart.locked none = false)
      (hart : after.hart = before.hart.hold none) (frames : after.frames = .console :: rest) :
      Moved before (.lockConsole attempts) after
  | attaches {attempts : List Bool} {after : Kernel ι} (idle : before.frames = [])
      (free : before.hart.locked none = false) (hart : after.hart = before.hart.hold none)
      (frames : after.frames = [.attach]) : Moved before (.attach attempts) after
  | unlocks {holder : Frame} {rest : List Frame} {after : Kernel ι}
      {front back : List (SpinLockGuard (Option ι))} {guard : SpinLockGuard (Option ι)}
      (top : before.frames = holder :: rest) (holds : holder.holds = true)
      (present : before.hart.guards = front ++ guard :: back) (console : guard.lock = none)
      (hart : after.hart = before.hart.release guard (front ++ back))
      (frames : after.frames = rest) : Moved before .unlockConsole after
  | returns {rest : List Frame} {after : Kernel ι} (top : before.frames = .trap :: rest)
      (frames : after.frames = rest) (same : SameLocks before.hart after.hart) :
      Moved before .mret after
  | other {call : LockCall (Option ι)} {after : Kernel ι}
      (apart : before.concernsConsole call = false)
      (stepped : Hart.Stepped before.hart call after.hart)
      (frames : after.frames = before.frames) : Moved before (.other call) after

section Steps

variable {before after : Kernel ι} {event : KernelEvent ι} {frames : List Frame}
  {attempts : List Bool}

theorem takeConsole_eq_ok {done : Unit}
    (taken : before.takeConsole attempts frames = .ok (after, done)) :
    before.hart.locked none = false ∧ after.hart = before.hart.hold none ∧
      after.frames = frames := by
  rw [takeConsole] at taken
  split at taken
  · cases taken
  · split at taken
    · next locked =>
        cases taken
        rcases Hart.lock_eq_ok_iff.mp locked with ⟨free, _, held⟩
        exact ⟨free, held, rfl⟩
    · cases taken

theorem releaseConsole_eq_ok {done : Unit}
    (released : before.releaseConsole frames = .ok (after, done)) :
    ∃ front guard back, before.hart.guards = front ++ guard :: back ∧ guard.lock = none ∧
      after.hart = before.hart.release guard (front ++ back) ∧ after.frames = frames := by
  simp only [releaseConsole, Exec.bind_eq_ok] at released
  rcases released with ⟨hart, dropped, same⟩
  cases same
  rcases Hart.dropGuard_eq_ok dropped with ⟨front, guard, back, place, present, left⟩
  have inside : before.hart.guards.findIdx (fun guard => guard.lock = none) <
      before.hart.guards.length := by
    rw [← place, present, List.length_append, List.length_cons]
    omega
  have found := List.findIdx_getElem (w := inside)
  have at_place : before.hart.guards[before.hart.guards.findIdx fun guard => guard.lock = none]? =
      some guard := by
    rw [← place, present]
    simp
  rw [(List.getElem?_eq_some_iff.mp at_place).2] at found
  exact ⟨front, guard, back, present, of_decide_eq_true found, left, rfl⟩

theorem trapFrames_cases (mcause : UInt32) :
    (isTimer mcause = true ∧ trapFrames mcause = [.trap]) ∨
      (isTimer mcause = false ∧ ∃ pushed, trapFrames mcause = .uart :: pushed ∧
        ∀ frame ∈ pushed, frame.holds = false) := by
  rw [trapFrames]
  cases timer : isTimer mcause with
  | true => exact .inl ⟨rfl, rfl⟩
  | false =>
      refine .inr ⟨rfl, ?_⟩
      cases isInterrupt mcause with
      | true => exact ⟨[.trap], rfl, by decide⟩
      | false => exact ⟨[.panic, .trap], rfl, by decide⟩

theorem moved_print {done : Unit} (stepped : before.step .print = .ok (after, done)) :
    Moved before .print after := by
  rw [step] at stepped
  split at stepped
  · cases stepped
    exact .begins [] rfl rfl (by simp) ⟨rfl, rfl⟩
  · cases stepped

theorem moved_lockConsole {done : Unit}
    (stepped : before.step (.lockConsole attempts) = .ok (after, done)) :
    Moved before (.lockConsole attempts) after := by
  rw [step] at stepped
  split at stepped
  · next top =>
      rcases takeConsole_eq_ok stepped with ⟨free, hart, frames⟩
      exact .locks (List.eq_cons_of_mem_head? top) free hart frames
  · cases stepped

theorem moved_unlockConsole {done : Unit}
    (stepped : before.step .unlockConsole = .ok (after, done)) :
    Moved before .unlockConsole after := by
  rw [step] at stepped
  split at stepped
  · next top =>
      obtain ⟨front, guard, back, present, console, hart, frames⟩ := releaseConsole_eq_ok stepped
      cases stack : before.frames with
      | nil => simp [stack] at top
      | cons holder rest =>
          rw [stack] at top frames
          exact .unlocks stack (by simpa using top) present console hart frames
  · cases stepped

theorem moved_attach {done : Unit} (stepped : before.step (.attach attempts) = .ok (after, done)) :
    Moved before (.attach attempts) after := by
  rw [step] at stepped
  split at stepped
  · next idle =>
      rcases takeConsole_eq_ok stepped with ⟨free, hart, frames⟩
      exact .attaches idle free hart frames
  · cases stepped

theorem moved_panic {done : Unit} (stepped : before.step .panic = .ok (after, done)) :
    Moved before .panic after := by
  rw [step] at stepped
  split at stepped
  · cases stepped
  · cases stepped
    exact .begins [.panic] rfl rfl (by decide) ⟨rfl, rfl⟩

theorem moved_trap {mcause : UInt32} {done : Unit}
    (stepped : before.step (.trap mcause) = .ok (after, done)) :
    Moved before (.trap mcause) after := by
  rw [step] at stepped
  split at stepped
  · cases stepped
  · cases stepped
    rcases trapFrames_cases mcause with ⟨timer, frames⟩ | ⟨other, pushed, frames, plain⟩
    · exact .timer timer (by rw [enterTrap, frames]; rfl) ⟨rfl, rfl⟩
    · refine .begins pushed (by simp [KernelEvent.prints, other]) ?_ plain ⟨rfl, rfl⟩
      rw [enterTrap, frames]
      rfl

theorem moved_mret {done : Unit} (stepped : before.step .mret = .ok (after, done)) :
    Moved before .mret after := by
  rw [step] at stepped
  split at stepped
  · next top =>
      cases stepped
      exact .returns (List.eq_cons_of_mem_head? top) rfl ⟨rfl, rfl⟩
  · cases stepped

theorem moved_other {call : LockCall (Option ι)} {done : Unit}
    (stepped : before.step (.other call) = .ok (after, done)) :
    Moved before (.other call) after := by
  rw [step] at stepped
  split at stepped
  · cases stepped
  · next apart =>
      split at stepped
      · next called =>
          cases stepped
          exact .other (by simpa using apart) (Hart.call_stepped called) rfl
      · cases stepped

theorem step_moved {done : Unit} (stepped : before.step event = .ok (after, done)) :
    Moved before event after := by
  cases event with
  | print => exact moved_print stepped
  | lockConsole attempts => exact moved_lockConsole stepped
  | unlockConsole => exact moved_unlockConsole stepped
  | attach attempts => exact moved_attach stepped
  | panic => exact moved_panic stepped
  | trap mcause => exact moved_trap stepped
  | mret => exact moved_mret stepped
  | other call => exact moved_other stepped

end Steps

def Live (kernel : Kernel ι) : Prop := ∃ guard ∈ kernel.hart.guards, guard.lock = none

def LocksConsole (kernel : Kernel ι) : KernelEvent ι → Prop
  | .lockConsole _ => ∃ rest, kernel.frames = .uart :: rest
  | .attach _ => kernel.frames = []
  | .print => False
  | .unlockConsole => False
  | .panic => False
  | .trap _ => False
  | .mret => False
  | .other _ => False

def Reaches (mstatus : UInt32) (events : List (KernelEvent ι)) (kernel : Kernel ι) : Prop :=
  ∃ outputs, Runs.run step (start mstatus) events = .ok (kernel, outputs)

/-- The lock of the console is never taken twice, and whoever is about to take it goes
on, be it the panic handler. -/
structure NeverBlocks (mstatus : UInt32) (events : List (KernelEvent ι)) : Prop where
  once : ∀ front event back, events = front ++ event :: back →
    ∀ kernel, Reaches mstatus front kernel →
      (kernel.LocksConsole event → ¬ kernel.Live) ∧ kernel.step event ≠ .error .diverges
  proceeds : ∀ front back, events = front ++ back → ∀ kernel, Reaches mstatus front kernel →
    ∀ rest attempts, kernel.frames = .uart :: rest → false ∈ attempts →
      ∃ after, kernel.step (.lockConsole attempts) = .ok (after, ()) ∧
        after.frames = .console :: rest

/-- The guard of the console is with one frame, under traps only. -/
structure Guarded (kernel : Kernel ι) : Prop where
  exclusive : kernel.hart.Exclusive
  held : kernel.hart.locked none = true → ∃ traps holder rest,
    kernel.frames = traps ++ holder :: rest ∧ (∀ frame ∈ traps, frame = .trap) ∧
      holder.holds = true

structure Stuck (base : List Frame) (kernel : Kernel ι) : Prop where
  locked : kernel.hart.locked none = true
  above : ∃ upper, kernel.frames = upper ++ base ∧ ∀ frame ∈ upper, frame.holds = false

section Invariants

variable {before after kernel : Kernel ι} {event : KernelEvent ι} {base : List Frame}

omit [DecidableEq ι] in
theorem SameLocks.exclusive {first second : Hart (Option ι)} (same : SameLocks first second)
    (exclusive : first.Exclusive) : second.Exclusive :=
  ⟨by rw [same.2]; exact exclusive.once, by rw [same.1, same.2]; exact exclusive.locked⟩

omit [DecidableEq ι] in
theorem locked_iff_live (exclusive : kernel.hart.Exclusive) :
    kernel.hart.locked none = true ↔ kernel.Live := exclusive.locked none

theorem Moved.exclusive (moved : Moved before event after) (exclusive : before.hart.Exclusive) :
    after.hart.Exclusive := by
  cases moved with
  | begins pushed prints frames plain same => exact same.exclusive exclusive
  | timer timer frames same => exact same.exclusive exclusive
  | locks top free hart frames => exact hart ▸ exclusive.hold free
  | attaches idle free hart frames => exact hart ▸ exclusive.hold free
  | unlocks top holds present console hart frames => exact hart ▸ exclusive.release present
  | returns top frames same => exact same.exclusive exclusive
  | other apart stepped frames => exact stepped.exclusive exclusive

theorem other_locked {call : LockCall (Option ι)} {hart : Hart (Option ι)}
    (apart : before.concernsConsole call = false) (stepped : Hart.Stepped before.hart call hart) :
    hart.locked none = before.hart.locked none := by
  cases stepped with
  | @held _ lock wanted free =>
      have other : none ≠ lock := by
        intro same
        subst same
        cases call with
        | lock name attempts => cases wanted; cases apart
        | tryLock name spurious => cases wanted; cases apart
        | drop index => cases wanted
      exact Function.update_of_ne other _ _
  | failed lock spurious => rfl
  | @released front back guard present =>
      have other : none ≠ guard.lock := by
        intro same
        simp [concernsConsole, present, ← same] at apart
      exact Function.update_of_ne other _ _

theorem Moved.locked (moved : Moved before event after) :
    after.hart.locked none = event.guardAfter (before.hart.locked none) := by
  cases moved with
  | begins pushed prints frames plain same =>
      rw [same.1, event.guardAfter_of_prints prints]
  | timer timer frames same => exact congrFun same.1 none
  | locks top free hart frames => simp [hart, Hart.hold, KernelEvent.guardAfter]
  | attaches idle free hart frames => simp [hart, Hart.hold, KernelEvent.guardAfter]
  | unlocks top holds present console hart frames =>
      simp [hart, Hart.release, console, KernelEvent.guardAfter]
  | returns top frames same => exact congrFun same.1 none
  | other apart stepped frames => exact other_locked apart stepped

theorem Moved.guarded (moved : Moved before event after)
    (clear : event.prints = true → before.hart.locked none = false) (guarded : Guarded before) :
    Guarded after := by
  refine ⟨moved.exclusive guarded.exclusive, ?_⟩
  intro locked
  cases moved with
  | begins pushed prints frames plain same =>
      rw [same.1, clear prints] at locked
      cases locked
  | timer timer frames same =>
      rw [same.1] at locked
      rcases guarded.held locked with ⟨traps, holder, rest, stack, all, holds⟩
      exact ⟨.trap :: traps, holder, rest, by rw [frames, stack]; rfl,
        List.forall_mem_cons.mpr ⟨rfl, all⟩, holds⟩
  | locks top free hart frames => exact ⟨[], .console, _, frames, by simp, rfl⟩
  | attaches idle free hart frames => exact ⟨[], .attach, [], frames, by simp, rfl⟩
  | unlocks top holds present console hart frames =>
      rw [hart, Hart.release, console] at locked
      simp at locked
  | returns top frames same =>
      rw [same.1] at locked
      rcases guarded.held locked with ⟨traps, holder, rest, stack, all, holds⟩
      rw [top] at stack
      cases traps with
      | nil =>
          cases stack
          cases holds
      | cons first traps =>
          rcases List.cons.inj stack with ⟨_, below⟩
          exact ⟨traps, holder, rest, frames.trans below, (List.forall_mem_cons.mp all).2, holds⟩
  | other apart stepped frames =>
      rw [other_locked apart stepped] at locked
      rw [frames]
      exact guarded.held locked

/-- With the lock held, a `print!` that has started stays on the stack, and so does all
below it. -/
theorem Moved.stuck {below : List Frame} (moved : Moved before event after)
    (stuck : Stuck (.uart :: below) before) : Stuck (.uart :: below) after := by
  rcases stuck.above with ⟨upper, stack, plain⟩
  have locked := stuck.locked
  cases moved with
  | begins pushed prints frames plain' same =>
      have all := List.forall_mem_append.mpr ⟨plain', plain⟩
      refine ⟨by rw [same.1]; exact locked, .uart :: (pushed ++ upper), ?_,
        List.forall_mem_cons.mpr ⟨rfl, all⟩⟩
      rw [frames, stack]
      simp
  | timer timer frames same =>
      exact ⟨by rw [same.1]; exact locked, .trap :: upper, by rw [frames, stack]; rfl,
        List.forall_mem_cons.mpr ⟨rfl, plain⟩⟩
  | locks top free hart frames =>
      rw [locked] at free
      cases free
  | attaches idle free hart frames =>
      rw [locked] at free
      cases free
  | unlocks top holds present console hart frames =>
      rw [top] at stack
      cases upper with
      | nil =>
          cases stack
          cases holds
      | cons first upper =>
          rcases List.cons.inj stack with ⟨rfl, _⟩
          rw [plain _ List.mem_cons_self] at holds
          cases holds
  | returns top frames same =>
      rw [top] at stack
      cases upper with
      | nil => cases stack
      | cons first upper =>
          rcases List.cons.inj stack with ⟨_, rest⟩
          exact ⟨by rw [same.1]; exact locked, upper, frames.trans rest,
            (List.forall_mem_cons.mp plain).2⟩
  | other apart stepped frames =>
      exact ⟨by rw [other_locked apart stepped]; exact locked, upper, by rw [frames, stack], plain⟩

omit [DecidableEq ι] in
theorem Guarded.not_live_of_uart (guarded : Guarded kernel) {rest : List Frame}
    (top : kernel.frames = .uart :: rest) : kernel.hart.locked none = false := by
  cases locked : kernel.hart.locked none with
  | false => rfl
  | true =>
      rcases guarded.held locked with ⟨traps, holder, below, stack, all, holds⟩
      rw [top] at stack
      cases traps with
      | nil =>
          cases stack
          cases holds
      | cons first traps =>
          rcases List.cons.inj stack with ⟨rfl, _⟩
          cases all _ List.mem_cons_self

omit [DecidableEq ι] in
theorem Guarded.not_live_of_idle (guarded : Guarded kernel) (idle : kernel.frames = []) :
    kernel.hart.locked none = false := by
  cases locked : kernel.hart.locked none with
  | false => rfl
  | true =>
      rcases guarded.held locked with ⟨traps, holder, below, stack, _⟩
      rw [idle] at stack
      simp at stack

omit [DecidableEq ι] in
theorem Guarded.not_live_of_locks (guarded : Guarded kernel) (locks : kernel.LocksConsole event) :
    kernel.hart.locked none = false := by
  cases event with
  | lockConsole attempts =>
      rcases locks with ⟨rest, top⟩
      exact guarded.not_live_of_uart top
  | attach attempts => exact guarded.not_live_of_idle locks
  | print => exact locks.elim
  | unlockConsole => exact locks.elim
  | panic => exact locks.elim
  | trap mcause => exact locks.elim
  | mret => exact locks.elim
  | other call => exact locks.elim

theorem takeConsole_free {frames : List Frame} {attempts : List Bool}
    (free : kernel.hart.locked none = false) :
    kernel.takeConsole attempts frames ≠ .error .diverges := by
  rw [takeConsole, free]
  cases kernel.hart.lock none attempts <;> simp

theorem dropGuard_ne_diverges (hart : Hart (Option ι)) (index : Nat) :
    hart.dropGuard index ≠ .error .diverges := by
  rw [Hart.dropGuard]
  cases hart.guards[index]? <;> simp

theorem step_ne_diverges (free : kernel.LocksConsole event → kernel.hart.locked none = false) :
    kernel.step event ≠ .error .diverges := by
  cases event with
  | lockConsole attempts =>
      rw [step]
      split
      · next top =>
          exact takeConsole_free (free ⟨_, List.eq_cons_of_mem_head? top⟩)
      · simp
  | attach attempts =>
      rw [step]
      split
      · next idle => exact takeConsole_free (free idle)
      · simp
  | unlockConsole =>
      rw [step]
      split
      · rw [releaseConsole]
        cases dropped : kernel.hart.dropGuard _ with
        | ok hart => simp
        | error fault =>
            intro spins
            cases spins
            exact dropGuard_ne_diverges _ _ dropped
      · simp
  | other call =>
      rw [step]
      split
      · simp
      · cases kernel.hart.call call <;> simp
  | print =>
      rw [step]
      split <;> simp
  | panic =>
      rw [step]
      split <;> simp
  | trap mcause =>
      rw [step]
      split <;> simp
  | mret =>
      rw [step]
      split <;> simp

variable {mstatus : UInt32} {events : List (KernelEvent ι)}

omit [DecidableEq ι] in
theorem guarded_start (mstatus : UInt32) : (start mstatus : Kernel ι).Guarded := by
  refine ⟨Hart.exclusive_start mstatus, ?_⟩
  intro locked
  cases locked

theorem run_exclusive {outputs : List Unit} (exclusive : before.hart.Exclusive)
    (finished : Runs.run step before events = .ok (after, outputs)) : after.hart.Exclusive := by
  refine @Runs.run_invariant _ _ _ _ step (fun kernel : Kernel ι => kernel.hart.Exclusive) _ _ _ _
    ?_ exclusive finished
  intro before event after done _ exclusive stepped
  exact (step_moved stepped).exclusive exclusive

theorem Reaches.exclusive (reached : Reaches mstatus events kernel) : kernel.hart.Exclusive := by
  rcases reached with ⟨outputs, finished⟩
  exact run_exclusive (Hart.exclusive_start mstatus) finished

theorem Reaches.locked (reached : Reaches mstatus events kernel) :
    kernel.hart.locked none = events.foldl KernelEvent.guardAfter false := by
  rcases reached with ⟨outputs, finished⟩
  refine @Runs.run_follows _ _ _ _ _ step (fun (kernel : Kernel ι) live =>
    kernel.hart.locked none = live) KernelEvent.guardAfter _ _ _ _ _ ?_ rfl finished
  intro before live event after done same stepped
  calc after.hart.locked none
      = event.guardAfter (before.hart.locked none) := (step_moved stepped).locked
    _ = event.guardAfter live := by rw [same]

theorem Reaches.guarded (reached : Reaches mstatus events kernel)
    (clear : StartsClear events) : kernel.Guarded := by
  induction events using List.reverseRecOn generalizing kernel with
  | nil =>
      rcases reached with ⟨outputs, finished⟩
      cases finished
      exact guarded_start mstatus
  | append_singleton front event ih =>
      rcases reached with ⟨outputs, finished⟩
      rcases (Runs.run_snoc_eq_ok step).mp finished with ⟨before, earlier, done, start, stepped, _⟩
      have reached : Reaches mstatus front before := ⟨earlier, start⟩
      have guarded := ih reached (by
        intro first other back split
        subst split
        exact clear first other (back ++ [event]) (by simp))
      refine (step_moved stepped).guarded ?_ guarded
      intro prints
      rw [reached.locked]
      exact clear front event [] rfl prints

theorem guarded_of_clear (clear : StartsClear events) {front back : List (KernelEvent ι)}
    (split : events = front ++ back) (reached : Reaches mstatus front kernel) : kernel.Guarded := by
  subst split
  apply reached.guarded
  intro first event rest split
  subst split
  exact clear first event (rest ++ back) (by simp)

theorem neverBlocks_of_clear (clear : StartsClear events) : NeverBlocks mstatus events := by
  constructor
  · intro front event back split kernel reached
    have guarded := guarded_of_clear clear split reached
    constructor
    · intro locks live
      have free := guarded.not_live_of_locks locks
      rw [(locked_iff_live guarded.exclusive).mpr live] at free
      cases free
    · exact step_ne_diverges guarded.not_live_of_locks
  · intro front back split kernel reached rest attempts top lucky
    have free := (guarded_of_clear clear split reached).not_live_of_uart top
    have taken := Hart.lock_eq_ok_iff.mpr ⟨free, lucky, rfl⟩
    refine ⟨{ kernel with hart := kernel.hart.hold none, frames := .console :: rest }, ?_, rfl⟩
    simp [step, top, takeConsole, free, taken]

theorem Moved.starts_stuck (moved : Moved before event after) (prints : event.prints = true)
    (locked : before.hart.locked none = true) :
    ∃ below, after.frames = .uart :: below ∧ Stuck (.uart :: below) after := by
  cases moved with
  | begins pushed prints frames plain same =>
      exact ⟨_, frames, by rw [same.1]; exact locked, [], frames, by simp⟩
  | timer timer frames same =>
      rw [KernelEvent.prints, timer] at prints
      cases prints
  | locks top free hart frames => cases prints
  | attaches idle free hart frames => cases prints
  | unlocks top holds present console hart frames => cases prints
  | returns top frames same => cases prints
  | other apart stepped frames => cases prints

theorem run_stuck {below : List Frame} {outputs : List Unit} (stuck : Stuck (.uart :: below) before)
    (finished : Runs.run step before events = .ok (after, outputs)) :
    Stuck (.uart :: below) after := by
  apply @Runs.run_invariant _ _ _ _ step (Stuck (.uart :: below)) _ _ _ _ ?_ stuck finished
  intro before event after done _ stuck stepped
  exact (step_moved stepped).stuck stuck

/-- A print that starts under a guard comes to a lock that it does not get. -/
theorem startsClear_of_neverBlocks (reached : Reaches mstatus events kernel)
    (never : NeverBlocks mstatus events) : StartsClear events := by
  intro front event back split prints
  subst split
  rcases reached with ⟨outputs, finished⟩
  rcases (Runs.run_append_eq_ok step).mp finished with ⟨before, first, rest, start, later, _⟩
  obtain ⟨after, done, _, stepped, _, _⟩ := (Runs.run_cons_eq_ok step).mp later
  have opened : Reaches mstatus front before := ⟨first, start⟩
  rw [← opened.locked]
  cases locked : before.hart.locked none with
  | false => rfl
  | true =>
      rcases (step_moved stepped).starts_stuck prints locked with ⟨below, frames, stuck⟩
      have begun : Reaches mstatus (front ++ [event]) after :=
        ⟨_, (Runs.run_snoc_eq_ok step).mpr ⟨before, first, done, start, stepped, rfl⟩⟩
      have waits : after.step (.lockConsole [false]) = .error .diverges := by
        simp [step, frames, takeConsole, stuck.locked]
      obtain ⟨next, taken, _⟩ := never.proceeds (front ++ [event]) back (by simp) after begun below
        [false] frames (by simp)
      rw [waits] at taken
      cases taken

end Invariants

/-- A run whose prints start with the console free never blocks on it, and no other run that
happens does so. A print that starts under a guard does not get past the lock in any
continuation. -/
theorem console_lock_over_runs (mstatus : UInt32) (events : List (KernelEvent ι)) :
    (StartsClear events → NeverBlocks mstatus events) ∧
      (∀ last, Reaches mstatus events last →
        (NeverBlocks mstatus events ↔ StartsClear events)) ∧
      ∀ kernel, Reaches mstatus events kernel → kernel.Live →
        ∀ event after, event.prints = true → kernel.step event = .ok (after, ()) →
          ∀ more last outputs, Runs.run step after more = .ok (last, outputs) →
            last.Live ∧ ∃ upper, last.frames = upper ++ after.frames := by
  refine ⟨neverBlocks_of_clear, ?_, ?_⟩
  · intro last reached
    exact ⟨startsClear_of_neverBlocks reached, neverBlocks_of_clear⟩
  intro kernel reached live event after prints stepped more last outputs finished
  have moved := step_moved stepped
  obtain ⟨below, frames, stuck⟩ :=
    moved.starts_stuck prints ((locked_iff_live reached.exclusive).mpr live)
  have waits := run_stuck stuck finished
  have exclusive := run_exclusive (moved.exclusive reached.exclusive) finished
  rcases waits.above with ⟨upper, stack, _⟩
  rw [frames]
  exact ⟨(locked_iff_live exclusive).mp waits.locked, upper, stack⟩

/-- Two lines are printed, with a timer interrupt while the first is formatted; the second
is that of the handler of an unknown interrupt, after the first has reached the console. -/
theorem console_lock_free_in_handler :
    ∃ last : Kernel Unit,
      Reaches 8 [.print, .trap 0x80000007, .mret, .lockConsole [true, false], .unlockConsole,
        .trap 0x8000000B, .lockConsole [false], .unlockConsole, .mret] last ∧
      NeverBlocks 8 ([.print, .trap 0x80000007, .mret, .lockConsole [true, false],
        .unlockConsole, .trap 0x8000000B, .lockConsole [false], .unlockConsole, .mret] :
        List (KernelEvent Unit)) := by
  refine ⟨_, ⟨_, rfl⟩, ?_⟩
  apply (console_lock_over_runs 8 _).1
  apply startsClear_of_prefixes
  decide

/-- An exception while `print!` writes to the console: the handler's `println!` comes to
the lock with the guard live, and spins. -/
theorem console_lock_blocks_in_panic :
    ¬ NeverBlocks 8 ([.print, .lockConsole [false], .trap 2, .lockConsole [false]] :
      List (KernelEvent Unit)) := by
  intro never
  have safe := never.once [.print, .lockConsole [false], .trap 2] (.lockConsole [false]) [] rfl _
    ⟨_, rfl⟩
  exact safe.1 ⟨_, rfl⟩ ⟨_, List.mem_singleton_self _, rfl⟩

end Kernel

end Ease
