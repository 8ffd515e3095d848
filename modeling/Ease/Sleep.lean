import Ease.TimerRegisters

/-! Waiting: `sleep_ms` by the ticks that are counted, and `busy_wait_ms` by the counter
that they are made from. -/

namespace Ease

namespace Timer

/-- The loop of `sleep_ms`: what passes between one read of the tick counter and the next, a
`wfi` or none, is a list of moments. -/
def sleepLoop (start ms : UInt32) (timer : Timer) : List (List Moment) →
    Exec (Timer × List (List Moment))
  | [] => .error .unmodelled
  | passed :: waits => do
      let (timer, _) ← Runs.run step timer passed
      if timer.ticksMs - start < ms then sleepLoop start ms timer waits else .ok (timer, waits)

def sleepMs (timer : Timer) (ms : UInt32) (waits : List (List Moment)) :
    Exec (Timer × List (List Moment)) :=
  sleepLoop timer.ticksMs ms timer waits

end Timer

namespace Pace

def after (pace : Pace) (moments : List Moment) : Pace := moments.foldl next pace

def takenIn (pace : Pace) (moments : List Moment) : Nat := (pace.after moments).taken - pace.taken

theorem next_le (pace : Pace) (moment : Moment) :
    pace.taken ≤ (pace.next moment).taken ∧ pace.late ≤ (pace.next moment).late := by
  rw [next]
  split
  · exact ⟨Nat.le_succ _, Nat.le_add_right _ _⟩
  · exact ⟨Nat.le_refl _, Nat.le_refl _⟩

theorem after_le (pace : Pace) (moments : List Moment) :
    pace.taken ≤ (pace.after moments).taken ∧ pace.late ≤ (pace.after moments).late := by
  induction moments generalizing pace with
  | nil => exact ⟨Nat.le_refl _, Nat.le_refl _⟩
  | cons moment moments ih =>
      have first := pace.next_le moment
      have rest := ih (pace.next moment)
      exact ⟨first.1.trans rest.1, first.2.trans rest.2⟩

theorem after_append (pace : Pace) (front back : List Moment) :
    pace.after (front ++ back) = (pace.after front).after back := List.foldl_append

end Pace

namespace Timer

section Sleep

variable {mtime : UInt64} {timer before after : Timer} {pace : Pace} {ms : UInt32}
  {waits rest : List (List Moment)}

theorem Follows.moments (follows : Follows mtime timer pace) {moments : List Moment}
    {taken : List Bool} (ran : Runs.run step timer moments = .ok (after, taken)) :
    Follows mtime after (pace.after moments) :=
  Runs.run_follows step (fun _ _ _ _ _ follows stepped => (step_follows follows stepped).1)
    follows ran

/-- The counter may wrap in between: the difference is that of the interrupts. -/
theorem Follows.elapsed (follows : Follows mtime timer pace) {moments : List Moment}
    (later : Follows mtime after (pace.after moments)) :
    (after.ticksMs - timer.ticksMs).toNat = pace.takenIn moments % 2 ^ 32 := by
  have first := follows.count
  have last := later.count
  have grows := (pace.after_le moments).1
  rw [UInt32.toNat_sub, ticksMs, ticksMs, first, last, Pace.takenIn]
  omega

theorem Follows.due_le (follows : Follows mtime timer pace) {moments : List Moment}
    (later : Follows mtime after (pace.after moments)) :
    pace.due + pace.takenIn moments * timerInterval ≤ (pace.after moments).due := by
  have first := follows.clock
  have last := later.clock
  have grows := pace.after_le moments
  have interval : timerInterval = 10000 := rfl
  rw [interval] at first last ⊢
  rw [Pace.takenIn]
  omega

theorem sleepLoop_test (follows : Follows mtime timer pace) {front passed : List Moment}
    (now : Follows mtime before (pace.after front)) {taken : List Bool}
    (ran : Runs.run step before passed = .ok (after, taken)) :
    Follows mtime after (pace.after (front ++ passed)) ∧
      sleepLoop timer.ticksMs ms before (passed :: waits) =
        if pace.takenIn (front ++ passed) % 2 ^ 32 < ms.toNat then
          sleepLoop timer.ticksMs ms after waits
        else .ok (after, waits) := by
  have later := now.moments ran
  rw [← Pace.after_append] at later
  refine ⟨later, ?_⟩
  rw [sleepLoop, ran, Exec.ok_bind, ← follows.elapsed later]
  rfl

theorem sleepLoop_returns (follows : Follows mtime timer pace) {front : List Moment}
    (now : Follows mtime before (pace.after front))
    (returned : sleepLoop timer.ticksMs ms before waits = .ok (after, rest)) :
    ∃ used, waits = used ++ rest ∧ Follows mtime after (pace.after (front ++ used.flatten)) ∧
      ms.toNat ≤ pace.takenIn (front ++ used.flatten) % 2 ^ 32 ∧
      ∀ early, early <+: used → early ≠ [] → early ≠ used →
        pace.takenIn (front ++ early.flatten) % 2 ^ 32 < ms.toNat := by
  induction waits generalizing before front with
  | nil => cases returned
  | cons passed waits ih =>
      have opened := returned
      rw [sleepLoop, Exec.bind_eq_ok] at opened
      rcases opened with ⟨⟨middle, taken⟩, ran, _⟩
      rcases @sleepLoop_test mtime timer before middle pace ms waits follows front passed now taken
        ran with ⟨later, tested⟩
      rw [tested] at returned
      by_cases short : pace.takenIn (front ++ passed) % 2 ^ 32 < ms.toNat
      · rw [if_pos short] at returned
        rcases ih later returned with ⟨used, split, final, enough, early⟩
        refine ⟨passed :: used, by rw [split]; rfl, ?_, ?_, ?_⟩
        · rwa [List.flatten_cons, ← List.append_assoc]
        · rwa [List.flatten_cons, ← List.append_assoc]
        · intro first inside some other
          rcases List.prefix_cons_iff.mp inside with none | ⟨more, rfl, shorter⟩
          · exact absurd none some
          · rw [List.flatten_cons, ← List.append_assoc]
            rcases List.eq_nil_or_concat more with rfl | ⟨_, _, rfl⟩
            · rwa [List.flatten_nil, List.append_nil]
            · exact early _ shorter (by simp) fun same => other (by rw [same])
      · rw [if_neg short] at returned
        cases returned
        refine ⟨[passed], rfl, by simpa using later, ?_, ?_⟩
        · rw [List.flatten_singleton]
          exact Nat.not_lt.mp short
        · intro first inside some other
          rcases List.prefix_cons_iff.mp inside with none | ⟨more, rfl, shorter⟩
          · exact absurd none some
          · rw [List.prefix_nil.mp shorter] at other
            exact absurd rfl other

/-- Every `wfi` brings one interrupt, as it does when only the timer wakes the hart and no
interrupt is late. -/
def OneEach (pace : Pace) (waits : List (List Moment)) : Prop :=
  ∀ front passed back, waits = front ++ passed :: back →
    (pace.after front.flatten).takenIn passed = 1

theorem OneEach.tail {passed : List Moment} (one : OneEach pace (passed :: waits)) :
    OneEach (pace.after passed) waits := by
  intro front other back split
  have whole := one (passed :: front) other back (by rw [split]; rfl)
  rwa [List.flatten_cons, Pace.after_append] at whole

theorem OneEach.head {passed : List Moment} (one : OneEach pace (passed :: waits)) :
    pace.takenIn passed = 1 := one [] passed waits rfl

/-- What passes before the test is not a wait, and may bring any number of interrupts. -/
theorem sleepLoop_on_time (follows : Follows mtime timer pace) {front passed : List Moment}
    (now : Follows mtime before (pace.after front))
    (one : OneEach (pace.after (front ++ passed)) waits)
    (enough : ms.toNat ≤ pace.takenIn (front ++ passed) % 2 ^ 32 + waits.length) {last : Timer}
    {taken : List Bool} (ran : Runs.run step before (passed ++ waits.flatten) = .ok (last, taken)) :
    ∃ after rest, sleepLoop timer.ticksMs ms before (passed :: waits) = .ok (after, rest) ∧
      rest.length + (ms.toNat - pace.takenIn (front ++ passed) % 2 ^ 32) = waits.length := by
  have bound := ms.toNat_lt
  induction waits generalizing before front passed taken with
  | nil =>
      rcases (Runs.run_append_eq_ok step).mp ran with ⟨middle, first, second, start, _, _⟩
      rw [List.length_nil] at enough ⊢
      rw [(sleepLoop_test follows now start).2, if_neg (by omega)]
      exact ⟨middle, [], rfl, by rw [List.length_nil]; omega⟩
  | cons next waits ih =>
      rcases (Runs.run_append_eq_ok step).mp ran with ⟨middle, first, second, start, finish, _⟩
      rcases @sleepLoop_test mtime timer before middle pace ms (next :: waits) follows front passed
        now first start with ⟨later, tested⟩
      rw [tested]
      by_cases short : pace.takenIn (front ++ passed) % 2 ^ 32 < ms.toNat
      · rw [if_pos short]
        have more : pace.takenIn (front ++ passed ++ next) =
            pace.takenIn (front ++ passed) + 1 := by
          have single := one.head
          have grows := (pace.after_le (front ++ passed)).1
          have ends := ((pace.after (front ++ passed)).after_le next).1
          rw [Pace.takenIn] at single
          rw [Pace.takenIn, Pace.takenIn, Pace.after_append]
          omega
        rw [List.length_cons] at enough ⊢
        rw [List.flatten_cons] at finish
        rcases ih later (by rw [Pace.after_append]; exact one.tail)
            (by rw [more]; omega) finish with
          ⟨after, rest, looped, left⟩
        rw [more] at left
        exact ⟨after, rest, looped, by omega⟩
      · rw [if_neg short]
        exact ⟨middle, next :: waits, rfl, by omega⟩

end Sleep

structure SleptFor (mtime : UInt64) (pace : Pace) (ms : UInt32) (used : List (List Moment))
    (after : Timer) : Prop where
  follows : Follows mtime after (pace.after used.flatten)
  interrupts : ms.toNat ≤ pace.takenIn used.flatten
  due : pace.due + ms.toNat * timerInterval ≤ (pace.after used.flatten).due
  notBefore : ∀ early, early <+: used → early ≠ [] → early ≠ used →
    pace.takenIn early.flatten % 2 ^ 32 < ms.toNat

/-- From any state that the timer can be in, wherever the tick counter stands: a call to
`sleep_ms` that returns has slept for that many interrupts, each a whole interval after the
one before it; and when each wait brings one interrupt, it waits as often as interrupts are
still missing at the first test. -/
theorem sleep_ms_counts_ticks {lo hi : UInt32} {mtime : UInt64} {schedule : List Moment}
    {timer : Timer} {taken : List Bool} (reached : Reaches lo hi mtime schedule timer taken)
    (ms : UInt32) :
    (∀ waits after rest, timer.sleepMs ms waits = .ok (after, rest) →
      ∃ used, waits = used ++ rest ∧
        SleptFor mtime ((Pace.start mtime).after schedule) ms used after) ∧
    ∀ opening waits, (∃ result, Runs.run step timer (opening ++ waits.flatten) = .ok result) →
      OneEach (((Pace.start mtime).after schedule).after opening) waits →
        ms.toNat ≤ ((Pace.start mtime).after schedule).takenIn opening % 2 ^ 32 + waits.length →
          ∃ after rest, timer.sleepMs ms (opening :: waits) = .ok (after, rest) ∧
            rest.length +
              (ms.toNat - ((Pace.start mtime).after schedule).takenIn opening % 2 ^ 32) =
                waits.length := by
  have follows : Follows mtime timer ((Pace.start mtime).after schedule) := reached.follows
  constructor
  · intro waits after rest returned
    obtain ⟨used, split, final, enough, early⟩ :=
      @sleepLoop_returns mtime timer timer after _ ms waits rest follows [] follows returned
    have interrupts := enough.trans (Nat.mod_le _ _)
    refine ⟨used, split, final, interrupts, ?_, early⟩
    exact (Nat.add_le_add_left (Nat.mul_le_mul_right _ interrupts) _).trans (follows.due_le final)
  · intro opening waits completes one enough
    rcases completes with ⟨⟨last, outputs⟩, ran⟩
    exact @sleepLoop_on_time mtime timer timer _ ms waits follows [] opening follows one enough last
      outputs ran

def twoWaits : List (List Moment) :=
  [[⟨10000, true, 10000, by decide⟩], [⟨20001, true, 20005, by decide⟩]]

theorem twoWaits_oneEach :
    OneEach (((Pace.start 0).after []).after [⟨9000, true, 9000, by decide⟩]) twoWaits := by
  intro front passed back split
  rcases front with _ | ⟨first, _ | ⟨second, front⟩⟩
  · cases split
    decide
  · cases split
    decide
  · simp [twoWaits] at split

/-- No interrupt is due at the first test, so there are two waits. -/
theorem sleep_two_ticks :
    ∃ after rest, sleepMs ⟨0, 10000, 0⟩ 2 ([⟨9000, true, 9000, by decide⟩] :: twoWaits) =
        .ok (after, rest) ∧ rest.length + 2 = twoWaits.length ∧
      ∃ used, [⟨9000, true, 9000, by decide⟩] :: twoWaits = used ++ rest ∧
        SleptFor 0 (Pace.start 0) 2 used after := by
  have reached : Reaches 0xFFFFFFFF 0xFFFFFFFF 0 [] ⟨0, 10000, 0⟩ [] :=
    ⟨⟨0, 10000, 0⟩, by decide, by decide⟩
  have ran : Runs.run step ⟨0, 10000, 0⟩
      ([⟨9000, true, 9000, by decide⟩] ++ twoWaits.flatten) =
        .ok (⟨2, 30005, 0⟩, [false, true, true]) := by decide
  obtain ⟨after, rest, returned, left⟩ := (sleep_ms_counts_ticks reached 2).2
    [⟨9000, true, 9000, by decide⟩] twoWaits ⟨_, ran⟩ twoWaits_oneEach (by decide)
  exact ⟨after, rest, returned, left, (sleep_ms_counts_ticks reached 2).1 _ _ _ returned⟩

end Timer

/-- The loop of `busy_wait_ms`; `calls` bounds the calls to `get_mtime`. -/
def busyWaitLoop (countStart : UInt64) (ms : UInt32) :
    Nat → List UInt64 → Exec (List UInt64 × UInt64)
  | 0, _ => .error .unmodelled
  | calls + 1, reads => do
      let (reads, now) ← getMtime reads
      let elapsed ← subChecked now.toNat countStart.toNat
      let limit ← mulWithin 64 ms.toNat timerInterval
      if elapsed < limit then busyWaitLoop countStart ms calls reads else .ok (reads, now)

/-- `busy_wait_ms`, with the counter at each read of one of its halves, and what its two
calls to `get_mtime` at the ends returned. There are not more calls than reads. -/
def busyWaitMs (ms : UInt32) (reads : List UInt64) : Exec (List UInt64 × UInt64 × UInt64) := do
  let (reads, countStart) ← getMtime reads
  let (reads, now) ← busyWaitLoop countStart ms reads.length reads
  .ok (reads, countStart, now)

section BusyWait

variable {reads rest : List UInt64} {value countStart now : UInt64} {ms : UInt32}

theorem ReadsAt.suffix (place : ReadsAt reads value rest) :
    ∃ used, reads = used ++ rest ∧ 3 ≤ used.length := by
  rcases place.place with ⟨retries, first, last, split, _, _⟩
  refine ⟨retries ++ [first, value, last], by rw [split]; simp, ?_⟩
  rw [List.length_append, List.length_cons, List.length_cons, List.length_singleton]
  omega

theorem getMtime_fails (reads : List UInt64) :
    Exec.FailsOnly (· = .unmodelled) (getMtime reads) := by
  induction reads using getMtime.induct with
  | case1 first second third reads hi1 hi2 same =>
      rw [getMtime, if_pos same]
      exact .ok _
  | case2 first second third reads hi1 hi2 differ ih =>
      rwa [getMtime, if_neg differ]
  | case3 reads short =>
      intro fault failed
      rw [getMtime] at failed
      · cases failed
        rfl
      · exact short

theorem limit_ok (ms : UInt32) :
    mulWithin 64 ms.toNat timerInterval = .ok (ms.toNat * timerInterval) := by
  have bound := ms.toNat_lt
  have interval : timerInterval = 10000 := rfl
  apply mulWithin_ok
  rw [interval]
  omega

theorem busyWaitLoop_fails {calls : Nat} (ordered : reads.Pairwise (· ≤ ·))
    (later : ∀ read ∈ reads, countStart ≤ read) :
    Exec.FailsOnly (· = .unmodelled) (busyWaitLoop countStart ms calls reads) := by
  induction calls generalizing reads with
  | zero =>
      intro fault failed
      cases failed
      rfl
  | succ calls ih =>
      intro fault failed
      rw [busyWaitLoop] at failed
      cases called : getMtime reads with
      | error stop =>
          rw [called, Exec.error_bind] at failed
          cases failed
          exact getMtime_fails reads _ called
      | ok result =>
          rcases result with ⟨rest, now⟩
          have place := getMtime_readsAt ordered called
          rcases place.suffix with ⟨used, split, _⟩
          have after : countStart.toNat ≤ now.toNat := by
            rcases place.place with ⟨retries, first, last, whole, _, _⟩
            exact later now (by rw [whole]; simp)
          rw [called, Exec.ok_bind] at failed
          dsimp only at failed
          rw [subChecked_ok after, Exec.ok_bind, limit_ok, Exec.ok_bind] at failed
          split at failed
          · refine ih (place.ordered ordered).1 (fun read member => later read ?_) fault failed
            rw [split]
            exact List.mem_append_right _ member
          · cases failed

theorem getMtimes_succ {count : Nat} {values : List UInt64} :
    getMtimes reads (count + 1) = .ok (rest, values) ↔
      ∃ middle value others, getMtime reads = .ok (middle, value) ∧
        getMtimes middle count = .ok (rest, others) ∧ values = value :: others := by
  rw [getMtimes, List.replicate_succ, Runs.run_cons_eq_ok]
  rfl

theorem busyWaitLoop_returns {calls : Nat}
    (returned : busyWaitLoop countStart ms calls reads = .ok (rest, now)) :
    countStart.toNat + ms.toNat * timerInterval ≤ now.toNat ∧
      ∃ values, getMtimes reads (values.length + 1) = .ok (rest, values ++ [now]) ∧
        ∀ value ∈ values, value.toNat < countStart.toNat + ms.toNat * timerInterval := by
  induction calls generalizing reads with
  | zero => cases returned
  | succ calls ih =>
      rw [busyWaitLoop, Exec.bind_eq_ok] at returned
      rcases returned with ⟨⟨middle, value⟩, called, returned⟩
      rcases Exec.bind_eq_ok.mp returned with ⟨elapsed, subtracted, tested⟩
      have difference : elapsed + countStart.toNat = value.toNat := by
        rw [subChecked] at subtracted
        split at subtracted
        · cases subtracted
          omega
        · cases subtracted
      rw [limit_ok, Exec.ok_bind] at tested
      split at tested
      · next short =>
          rcases ih tested with ⟨late, values, others, early⟩
          refine ⟨late, value :: values, ?_, ?_⟩
          · exact getMtimes_succ.mpr ⟨middle, value, _, called, others, rfl⟩
          · intro other member
            rcases List.mem_cons.mp member with rfl | inRest
            · omega
            · exact early other inRest
      · next long =>
          cases tested
          exact ⟨by omega, [], getMtimes_succ.mpr ⟨_, _, [], called, rfl, rfl⟩, nofun⟩

theorem busyWaitLoop_ends {calls count : Nat} {values : List UInt64}
    (ordered : reads.Pairwise (· ≤ ·)) (later : ∀ read ∈ reads, countStart ≤ read)
    (enough : reads.length ≤ calls) (called : getMtimes reads count = .ok (rest, values))
    (late : ∃ value ∈ values, countStart.toNat + ms.toNat * timerInterval ≤ value.toNat) :
    ∃ result, busyWaitLoop countStart ms calls reads = .ok result := by
  induction count generalizing reads calls values with
  | zero =>
      cases called
      rcases late with ⟨_, member, _⟩
      cases member
  | succ count ih =>
      rcases getMtimes_succ.mp called with ⟨middle, value, others, first, more, rfl⟩
      have place := getMtime_readsAt ordered first
      rcases place.suffix with ⟨used, split, three⟩
      have length := congrArg List.length split
      rw [List.length_append] at length
      cases calls with
      | zero => omega
      | succ calls =>
          have after : countStart.toNat ≤ value.toNat := by
            rcases place.place with ⟨retries, _, last, whole, _, _⟩
            exact later value (by rw [whole]; simp)
          rw [busyWaitLoop, first, Exec.ok_bind]
          dsimp only
          rw [subChecked_ok after, Exec.ok_bind, limit_ok, Exec.ok_bind]
          split
          · next short =>
              have rest_late : ∃ other ∈ others,
                  countStart.toNat + ms.toNat * timerInterval ≤ other.toNat := by
                rcases late with ⟨other, member, above⟩
                rcases List.mem_cons.mp member with rfl | inRest
                · omega
                · exact ⟨other, inRest, above⟩
              refine ih (place.ordered ordered).1 (fun read member => later read ?_) (by omega) more
                rest_late
              rw [split]
              exact List.mem_append_right _ member
          · exact ⟨_, rfl⟩

end BusyWait

/-- The counter never goes back; then `busy_wait_ms` stops at no fault, is never early, and
returns at the first of its calls to `get_mtime` that is late enough, if there is one. -/
theorem busy_wait_never_early (ms : UInt32) (reads : List UInt64)
    (ordered : reads.Pairwise (· ≤ ·)) :
    Exec.FailsOnly (· = .unmodelled) (busyWaitMs ms reads) ∧
    (∀ rest countStart now, busyWaitMs ms reads = .ok (rest, countStart, now) →
      countStart.toNat + ms.toNat * timerInterval ≤ now.toNat ∧
        ∃ values, getMtimes reads (values.length + 2) =
          .ok (rest, countStart :: (values ++ [now])) ∧
          ∀ value ∈ values, value.toNat < countStart.toNat + ms.toNat * timerInterval) ∧
    ∀ count rest countStart values,
      getMtimes reads (count + 1) = .ok (rest, countStart :: values) →
        (∃ value ∈ values, countStart.toNat + ms.toNat * timerInterval ≤ value.toNat) →
          ∃ result, busyWaitMs ms reads = .ok result := by
  refine ⟨?_, ?_, ?_⟩
  · intro fault failed
    rw [busyWaitMs] at failed
    cases called : getMtime reads with
    | error stop =>
        rw [called, Exec.error_bind] at failed
        cases failed
        exact getMtime_fails reads _ called
    | ok result =>
        rcases result with ⟨rest, countStart⟩
        rcases (getMtime_readsAt ordered called).ordered ordered with ⟨sorted, above⟩
        rw [called, Exec.ok_bind] at failed
        dsimp only at failed
        cases waited : busyWaitLoop countStart ms rest.length rest with
        | error stop =>
            rw [waited, Exec.error_bind] at failed
            cases failed
            exact busyWaitLoop_fails sorted above _ waited
        | ok last =>
            rw [waited, Exec.ok_bind] at failed
            cases failed
  · intro rest countStart now returned
    rw [busyWaitMs, Exec.bind_eq_ok] at returned
    rcases returned with ⟨⟨middle, first⟩, called, returned⟩
    rcases Exec.bind_eq_ok.mp returned with ⟨⟨left, last⟩, waited, same⟩
    cases same
    rcases busyWaitLoop_returns waited with ⟨late, values, others, early⟩
    exact ⟨late, values, getMtimes_succ.mpr ⟨middle, countStart, _, called, others, rfl⟩, early⟩
  · intro count rest countStart values called late
    rcases getMtimes_succ.mp called with ⟨middle, first, others, head, more, same⟩
    cases same
    rcases (getMtime_readsAt ordered head).ordered ordered with ⟨sorted, above⟩
    rcases busyWaitLoop_ends sorted above (Nat.le_refl _) more late with ⟨⟨left, now⟩, waited⟩
    refine ⟨(left, countStart, now), ?_⟩
    rw [busyWaitMs, head, Exec.ok_bind]
    dsimp only
    rw [waited, Exec.ok_bind]

theorem busy_wait_over_rollover :
    ∃ result, busyWaitMs 1 [0xFFFFFFF0, 0xFFFFFFF1, 0xFFFFFFF2, 0xFFFFFFFF, 0x100000000,
      0x100000001, 0x100000002, 0x100000003, 0x100000004, 0x100002701, 0x100002702,
      0x100002703] = .ok result := by
  have ordered : List.Pairwise (· ≤ ·) [(0xFFFFFFF0 : UInt64), 0xFFFFFFF1, 0xFFFFFFF2, 0xFFFFFFFF,
      0x100000000, 0x100000001, 0x100000002, 0x100000003, 0x100000004, 0x100002701, 0x100002702,
      0x100002703] := by decide
  apply (busy_wait_never_early 1 _ ordered).2.2 2 [] 0xFFFFFFF1 [0x100000003, 0x100002702] rfl
  exact ⟨0x100002702, by decide, by decide⟩

end Ease
