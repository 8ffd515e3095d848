import Ease.Checked
import Ease.Runs
import Mathlib.Data.UInt
import Mathlib.Data.List.Induction

/-! The millisecond timer: its compare register, its tick counter, and the interrupts
that advance it. -/

namespace Ease

def timerInterval : Nat := 10000

/-- `TICKS`, and the two words of `mtimecmp`. -/
structure Timer where
  ticks : UInt32
  mtimecmpLo : UInt32
  mtimecmpHi : UInt32
  deriving DecidableEq, Repr

inductive CompareWrite where
  | low (value : UInt32)
  | high (value : UInt32)
  deriving DecidableEq, Repr

/-- A moment at which the hart could take an interrupt: the time, whether interrupts are
enabled, and the time that the handler reads if it is called. -/
structure Moment where
  mtime : UInt64
  enabled : Bool
  read : UInt64
  ordered : mtime ≤ read

namespace Timer

def mtimecmp (timer : Timer) : Nat := timer.mtimecmpHi.toNat * 2 ^ 32 + timer.mtimecmpLo.toNat

def write (timer : Timer) : CompareWrite → Timer
  | .low value => { timer with mtimecmpLo := value }
  | .high value => { timer with mtimecmpHi := value }

def compareWrites (triggerTickCount : UInt64) : List CompareWrite :=
  [.low 0xFFFFFFFF, .high (triggerTickCount >>> 32).toUInt32, .low triggerTickCount.toUInt32]

def setMtimecmp (timer : Timer) (triggerTickCount : UInt64) : Timer :=
  (compareWrites triggerTickCount).foldl write timer

def init (timer : Timer) (read : UInt64) : Exec Timer := do
  let trigger ← addWithin 64 read.toNat timerInterval
  .ok (timer.setMtimecmp (UInt64.ofNat trigger))

def handleInterrupt (timer : Timer) (read : UInt64) : Exec Timer := do
  let timer := { timer with ticks := timer.ticks + 1 }
  let trigger ← addWithin 64 read.toNat timerInterval
  .ok (timer.setMtimecmp (UInt64.ofNat trigger))

def ticksMs (timer : Timer) : UInt32 := timer.ticks

/-- The interrupt is pending while `mtime` has reached `mtimecmp`. The output says
whether it was taken. -/
def step (timer : Timer) (moment : Moment) : Exec (Timer × Bool) :=
  if moment.enabled ∧ timer.mtimecmp ≤ moment.mtime.toNat then do
    let timer ← timer.handleInterrupt moment.read
    .ok (timer, true)
  else .ok (timer, false)

def boot (lo hi : UInt32) : Timer := ⟨0, lo, hi⟩

end Timer

/-- The pace of the timer by its schedule alone: when the next interrupt is due, how many
were taken, and by how much they were late in all. -/
structure Pace where
  due : Nat
  taken : Nat
  late : Nat

namespace Pace

def start (mtime : UInt64) : Pace := ⟨mtime.toNat + timerInterval, 0, 0⟩

def next (pace : Pace) (moment : Moment) : Pace :=
  if moment.enabled ∧ pace.due ≤ moment.mtime.toNat then
    ⟨moment.read.toNat + timerInterval, pace.taken + 1,
      pace.late + (moment.read.toNat - pace.due)⟩
  else pace

/-- The sum of the delays between the moment an interrupt is due and the time that its
handler reads. -/
def lateness (mtime : UInt64) (schedule : List Moment) : Nat :=
  (schedule.foldl next (start mtime)).late

end Pace

namespace Timer

def Reaches (lo hi : UInt32) (mtime : UInt64) (schedule : List Moment) (timer : Timer)
    (taken : List Bool) : Prop :=
  ∃ started, (boot lo hi).init mtime = .ok started ∧
    Runs.run step started schedule = .ok (timer, taken)

/-- Right after each interrupt the counter is the number of whole intervals since
`init`. -/
def CountsIntervals (lo hi : UInt32) (mtime : UInt64) (schedule : List Moment) : Prop :=
  ∀ front moment back, schedule = front ++ moment :: back → ∀ before taken after,
    Reaches lo hi mtime front before taken → before.step moment = .ok (after, true) →
      after.ticksMs.toNat = (moment.read.toNat - mtime.toNat) / timerInterval % 2 ^ 32

/-- The delays never add up to a whole interval, or only to `2 ^ 32` of them. -/
def OnTime (lo hi : UInt32) (mtime : UInt64) (schedule : List Moment) : Prop :=
  ∀ front back, schedule = front ++ back → ∀ timer taken, Reaches lo hi mtime front timer taken →
    Pace.lateness mtime front / timerInterval % 2 ^ 32 = 0

@[simp] theorem ticks_setMtimecmp (timer : Timer) (triggerTickCount : UInt64) :
    (timer.setMtimecmp triggerTickCount).ticks = timer.ticks := rfl

@[simp] theorem mtimecmp_setMtimecmp (timer : Timer) (triggerTickCount : UInt64) :
    (timer.setMtimecmp triggerTickCount).mtimecmp = triggerTickCount.toNat := by
  have bound := triggerTickCount.toNat_lt
  have high : (triggerTickCount >>> 32).toUInt32.toNat = triggerTickCount.toNat / 2 ^ 32 := by
    rw [UInt64.toNat_toUInt32, UInt64.toNat_shiftRight, Nat.shiftRight_eq_div_pow]
    exact Nat.mod_eq_of_lt (by simp; omega)
  have low : triggerTickCount.toUInt32.toNat = triggerTickCount.toNat % 2 ^ 32 :=
    UInt64.toNat_toUInt32 _
  calc (timer.setMtimecmp triggerTickCount).mtimecmp
      = (triggerTickCount >>> 32).toUInt32.toNat * 2 ^ 32 + triggerTickCount.toUInt32.toNat := rfl
    _ = triggerTickCount.toNat := by omega

structure Follows (mtime : UInt64) (timer : Timer) (pace : Pace) : Prop where
  compare : timer.mtimecmp = pace.due
  count : timer.ticks.toNat = pace.taken % 2 ^ 32
  clock : pace.due = mtime.toNat + (pace.taken + 1) * timerInterval + pace.late

section Follows

variable {lo hi : UInt32} {mtime : UInt64} {timer after : Timer} {pace : Pace}
  {schedule : List Moment} {taken : List Bool}

theorem trigger_eq {read : UInt64} {trigger : Nat}
    (added : addWithin 64 read.toNat timerInterval = .ok trigger) :
    (UInt64.ofNat trigger).toNat = read.toNat + timerInterval := by
  rw [addWithin] at added
  split at added
  · next fits =>
      cases added
      exact UInt64.toNat_ofNat_of_lt' fits
  · cases added

theorem init_follows (initialised : (boot lo hi).init mtime = .ok timer) :
    Follows mtime timer (Pace.start mtime) := by
  simp only [init, Exec.bind_eq_ok] at initialised
  rcases initialised with ⟨trigger, added, same⟩
  cases same
  refine ⟨?_, rfl, ?_⟩
  · rw [mtimecmp_setMtimecmp, trigger_eq added, Pace.start]
  · simp [Pace.start]

theorem step_follows {moment : Moment} {interrupted : Bool} (follows : Follows mtime timer pace)
    (stepped : timer.step moment = .ok (after, interrupted)) :
    Follows mtime after (pace.next moment) ∧
      (interrupted = true ↔ moment.enabled = true ∧ pace.due ≤ moment.mtime.toNat) := by
  rw [step, follows.compare] at stepped
  by_cases due : moment.enabled ∧ pace.due ≤ moment.mtime.toNat
  · simp only [if_pos due, handleInterrupt, Exec.bind_eq_ok] at stepped
    rcases stepped with ⟨handled, ⟨trigger, added, same⟩, finished⟩
    cases same
    cases finished
    have clock := follows.clock
    have count := follows.count
    have ordered : moment.mtime.toNat ≤ moment.read.toNat := moment.ordered
    rw [Pace.next, if_pos due]
    refine ⟨⟨?_, ?_, ?_⟩, by simpa using due⟩
    · rw [mtimecmp_setMtimecmp, trigger_eq added]
    · rw [ticks_setMtimecmp, UInt32.toNat_add, count]
      exact Nat.mod_add_mod _ _ _
    · dsimp only
      rw [Nat.succ_mul]
      omega
  · rw [if_neg due] at stepped
    cases stepped
    rw [Pace.next, if_neg due]
    exact ⟨follows, by simpa using due⟩

theorem Reaches.follows (reached : Reaches lo hi mtime schedule timer taken) :
    Follows mtime timer (schedule.foldl Pace.next (Pace.start mtime)) := by
  rcases reached with ⟨started, initialised, finished⟩
  exact Runs.run_follows step
    (fun _ _ _ _ _ follows stepped => (step_follows follows stepped).1)
    (init_follows initialised) finished

theorem elapsed_eq {moment : Moment} (follows : Follows mtime after (pace.next moment))
    (due : moment.enabled = true ∧ pace.due ≤ moment.mtime.toNat) :
    (moment.read.toNat - mtime.toNat) / timerInterval =
      (pace.next moment).taken + (pace.next moment).late / timerInterval := by
  have clock := follows.clock
  have interval : timerInterval = 10000 := rfl
  have read : (pace.next moment).due = moment.read.toNat + timerInterval := by
    rw [Pace.next, if_pos due]
  rw [read, Nat.succ_mul] at clock
  rw [interval] at clock ⊢
  omega

theorem counts_iff {moment : Moment} (follows : Follows mtime after (pace.next moment))
    (due : moment.enabled = true ∧ pace.due ≤ moment.mtime.toNat) :
    after.ticksMs.toNat = (moment.read.toNat - mtime.toNat) / timerInterval % 2 ^ 32 ↔
      (pace.next moment).late / timerInterval % 2 ^ 32 = 0 := by
  rw [elapsed_eq follows due, ticksMs, follows.count]
  omega

theorem lateness_snoc (front : List Moment) (moment : Moment) :
    Pace.lateness mtime (front ++ [moment]) =
      ((front.foldl Pace.next (Pace.start mtime)).next moment).late := by
  rw [Pace.lateness, List.foldl_append, List.foldl_cons, List.foldl_nil]

theorem CountsIntervals.front {front back : List Moment}
    (counts : CountsIntervals lo hi mtime (front ++ back)) : CountsIntervals lo hi mtime front := by
  intro first moment rest split
  subst split
  exact counts first moment (rest ++ back) (by simp)

theorem CountsIntervals.lateness (counts : CountsIntervals lo hi mtime schedule)
    (reached : Reaches lo hi mtime schedule timer taken) :
    Pace.lateness mtime schedule / timerInterval % 2 ^ 32 = 0 := by
  induction schedule using List.reverseRecOn generalizing timer taken with
  | nil => simp [Pace.lateness, Pace.start]
  | append_singleton front moment ih =>
      rcases reached with ⟨started, initialised, finished⟩
      obtain ⟨before, earlier, interrupted, reached, stepped, rfl⟩ :=
        (Runs.run_snoc_eq_ok step).mp finished
      have start : Reaches lo hi mtime front before earlier := ⟨started, initialised, reached⟩
      rcases step_follows start.follows stepped with ⟨follows, decided⟩
      rw [lateness_snoc]
      by_cases due : moment.enabled = true ∧
          (front.foldl Pace.next (Pace.start mtime)).due ≤ moment.mtime.toNat
      · apply (counts_iff follows due).mp
        apply counts front moment [] rfl before earlier _ start
        rw [stepped, decided.mpr due]
      · rw [Pace.next, if_neg due]
        exact ih counts.front start

/-- The counter tells the time exactly when the interrupts are on time in all. -/
theorem counts_intervals_iff (lo hi : UInt32) (mtime : UInt64) (schedule : List Moment) :
    CountsIntervals lo hi mtime schedule ↔ OnTime lo hi mtime schedule := by
  constructor
  · intro counts front back split timer taken reached
    subst split
    exact counts.front.lateness reached
  · intro onTime front moment back split before taken after start stepped
    subst split
    rcases step_follows start.follows stepped with ⟨follows, decided⟩
    apply (counts_iff follows (decided.mp rfl)).mpr
    rw [← lateness_snoc]
    rcases start with ⟨started, initialised, reached⟩
    exact onTime (front ++ [moment]) back (by simp) after (taken ++ [true])
      ⟨started, initialised, (Runs.run_snoc_eq_ok step).mpr ⟨_, _, _, reached, stepped, rfl⟩⟩

end Follows

/-- Interrupts are held off for one interval longer than the first one: a tick is lost. -/
theorem tick_lost_while_masked :
    ¬ CountsIntervals 0xFFFFFFFF 0xFFFFFFFF 0
      [⟨10000, false, 10000, by decide⟩, ⟨20000, true, 20000, by decide⟩] := by
  intro counts
  have lost := counts [⟨10000, false, 10000, by decide⟩] ⟨20000, true, 20000, by decide⟩ [] rfl
    ⟨0, 10000, 0⟩ [false] ⟨1, 30000, 0⟩ ⟨⟨0, 10000, 0⟩, by decide, by decide⟩ (by decide)
  exact absurd lost (by decide)

end Timer

end Ease
