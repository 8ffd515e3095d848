import Ease.Timer

/-! The 64-bit registers of the timer, read and written in halves of 32 bits. -/

namespace Ease

def highHalf (value : UInt64) : UInt32 := (value >>> 32).toUInt32

def lowHalf (value : UInt64) : UInt32 := value.toUInt32

def joinHalves (hi lo : UInt32) : UInt64 := (hi.toUInt64 <<< 32) ||| lo.toUInt64

theorem toNat_highHalf (value : UInt64) : (highHalf value).toNat = value.toNat / 2 ^ 32 := by
  have bound := value.toNat_lt
  rw [highHalf, UInt64.toNat_toUInt32, UInt64.toNat_shiftRight, Nat.shiftRight_eq_div_pow]
  exact Nat.mod_eq_of_lt (by simp; omega)

theorem toNat_lowHalf (value : UInt64) : (lowHalf value).toNat = value.toNat % 2 ^ 32 :=
  UInt64.toNat_toUInt32 _

theorem toNat_joinHalves (hi lo : UInt32) :
    (joinHalves hi lo).toNat = hi.toNat * 2 ^ 32 + lo.toNat := by
  have top := hi.toNat_lt
  have bottom := lo.toNat_lt
  have shifted : (hi.toUInt64 <<< 32).toNat = hi.toNat <<< 32 := by
    rw [UInt64.toNat_shiftLeft, UInt32.toNat_toUInt64, Nat.shiftLeft_eq, Nat.shiftLeft_eq]
    exact Nat.mod_eq_of_lt (by simp; omega)
  calc (joinHalves hi lo).toNat
      = hi.toNat <<< 32 ||| lo.toNat := by
        rw [joinHalves, UInt64.toNat_or, shifted, UInt32.toNat_toUInt64]
    _ = hi.toNat <<< 32 + lo.toNat := (Nat.shiftLeft_add_eq_or_of_lt bottom _).symm
    _ = hi.toNat * 2 ^ 32 + lo.toNat := by rw [Nat.shiftLeft_eq]

theorem joinHalves_between {first value last : UInt64} (after : first ≤ value)
    (before : value ≤ last) (same : highHalf first = highHalf last) :
    joinHalves (highHalf first) (lowHalf value) = value := by
  have halves : first.toNat / 2 ^ 32 = last.toNat / 2 ^ 32 := by
    rw [← toNat_highHalf, ← toNat_highHalf, same]
  have lower : first.toNat ≤ value.toNat := after
  have upper : value.toNat ≤ last.toNat := before
  apply UInt64.toNat_inj.mp
  rw [toNat_joinHalves, toNat_highHalf, toNat_lowHalf]
  omega

/-- The counter at the reads of its halves, in the order in which they are made, and what
is left of them. -/
def getMtime : List UInt64 → Exec (List UInt64 × UInt64)
  | first :: second :: third :: reads =>
      let hi1 := highHalf first
      let lo := lowHalf second
      let hi2 := highHalf third
      if hi1 = hi2 then .ok (reads, joinHalves hi1 lo)
      else getMtime reads
  | _ => .error .unmodelled

def getMtimes (reads : List UInt64) (count : Nat) : Exec (List UInt64 × List UInt64) :=
  Runs.run (fun reads (_ : Unit) => getMtime reads) reads (List.replicate count ())

structure ReadsAt (reads : List UInt64) (value : UInt64) (rest : List UInt64) : Prop where
  place : ∃ retries first last, reads = retries ++ first :: value :: last :: rest ∧
    3 ∣ retries.length ∧ value ≤ last
  entry : ∀ first ∈ reads.head?, first ≤ value

section Reads

variable {reads rest : List UInt64} {value : UInt64}

theorem getMtime_readsAt (ordered : reads.Pairwise (· ≤ ·))
    (returned : getMtime reads = .ok (rest, value)) : ReadsAt reads value rest := by
  induction reads using getMtime.induct with
  | case1 first second third reads hi1 hi2 same =>
      simp only [List.pairwise_cons, List.mem_cons, forall_eq_or_imp] at ordered
      rw [getMtime, if_pos same] at returned
      have joined := joinHalves_between ordered.1.1 ordered.2.1.1 same
      rw [joined] at returned
      cases returned
      refine ⟨⟨[], first, third, rfl, Nat.dvd_zero 3, ordered.2.1.1⟩, ?_⟩
      intro entry head
      cases head
      exact ordered.1.1
  | case2 first second third reads hi1 hi2 differ ih =>
      rw [getMtime, if_neg differ] at returned
      simp only [List.pairwise_cons, List.mem_cons, forall_eq_or_imp] at ordered
      rcases ih ordered.2.2.2 returned with ⟨⟨retries, before, last, split, triples, below⟩, _⟩
      have member : value ∈ reads := by rw [split]; simp
      refine ⟨⟨first :: second :: third :: retries, before, last, by rw [split]; rfl,
        ?_, below⟩, ?_⟩
      · change 3 ∣ retries.length + 3
        exact Nat.dvd_add triples (Nat.dvd_refl 3)
      · intro entry head
        cases head
        exact ordered.1.2.2 value member
  | case3 reads short =>
      rw [getMtime] at returned
      · cases returned
      · exact short

theorem ReadsAt.ordered (at_read : ReadsAt reads value rest) (ordered : reads.Pairwise (· ≤ ·)) :
    rest.Pairwise (· ≤ ·) ∧ ∀ later ∈ rest, value ≤ later := by
  rcases at_read.place with ⟨retries, first, last, split, _, _⟩
  rw [split, List.pairwise_append] at ordered
  simp only [List.pairwise_cons, List.mem_cons, forall_eq_or_imp] at ordered
  exact ⟨ordered.2.1.2.2.2, ordered.2.1.2.1.2⟩

theorem getMtimes_ordered {count : Nat} {values : List UInt64} (ordered : reads.Pairwise (· ≤ ·))
    (returned : getMtimes reads count = .ok (rest, values)) :
    values.Pairwise (· ≤ ·) ∧ ∀ value ∈ values, value ∈ reads := by
  induction count generalizing reads values with
  | zero =>
      cases returned
      simp
  | succ count ih =>
      rw [getMtimes, List.replicate_succ, Runs.run_cons_eq_ok] at returned
      rcases returned with ⟨middle, value, later, first, others, rfl⟩
      have place := getMtime_readsAt ordered first
      rcases place.ordered ordered with ⟨sorted, above⟩
      rcases ih sorted others with ⟨pairs, members⟩
      rcases place.place with ⟨retries, before, last, split, _, _⟩
      constructor
      · exact List.pairwise_cons.mpr ⟨fun other member => above other (members other member), pairs⟩
      · intro other member
        rw [split]
        rcases List.mem_cons.mp member with rfl | inLater
        · simp
        · have inRest := members other inLater
          simp [inRest]

end Reads

/-- The counter never goes back; then every value that is returned is one that it had, and
later calls return later ones. -/
theorem get_mtime_not_torn (reads : List UInt64) (ordered : reads.Pairwise (· ≤ ·)) :
    (∀ rest value, getMtime reads = .ok (rest, value) → ReadsAt reads value rest) ∧
      ∀ count rest values, getMtimes reads count = .ok (rest, values) →
        values.Pairwise (· ≤ ·) := by
  constructor
  · intro rest value returned
    exact getMtime_readsAt ordered returned
  · intro count rest values returned
    exact (getMtimes_ordered ordered returned).1

theorem get_mtime_over_rollover :
    ReadsAt [0xFFFFFFFF, 0x100000000, 0x100000001, 0x100000002, 0x100000005, 0x100000005,
        0x100000009, 0x1FFFFFFFF, 0x1FFFFFFFF] 0x100000005
      [0x100000009, 0x1FFFFFFFF, 0x1FFFFFFFF] ∧
      List.Pairwise (· ≤ ·) [(0x100000005 : UInt64), 0x1FFFFFFFF] := by
  have ordered : List.Pairwise (· ≤ ·) [(0xFFFFFFFF : UInt64), 0x100000000, 0x100000001,
      0x100000002, 0x100000005, 0x100000005, 0x100000009, 0x1FFFFFFFF, 0x1FFFFFFFF] := by decide
  rcases get_mtime_not_torn _ ordered with ⟨single, calls⟩
  exact ⟨single _ _ rfl, calls 2 [] _ rfl⟩

namespace Timer

def afterWrites (timer : Timer) (triggerTickCount : UInt64) (count : Nat) : Timer :=
  ((compareWrites triggerTickCount).take count).foldl write timer

def Pending (timer : Timer) (mtime : UInt64) : Prop := timer.mtimecmp ≤ mtime.toNat

/-- Writing the halves in this order passes through nothing below both values. -/
theorem min_le_afterWrites (timer : Timer) (new : UInt64) (count : Nat) :
    min timer.mtimecmp new.toNat ≤ (timer.afterWrites new count).mtimecmp := by
  have bottom := timer.mtimecmpLo.toNat_lt
  have filler : (0xFFFFFFFF : UInt32).toNat = 2 ^ 32 - 1 := rfl
  match count with
  | 0 => exact Nat.min_le_left _ _
  | 1 =>
      apply le_trans (Nat.min_le_left _ _)
      simp only [afterWrites, compareWrites, List.take, List.foldl, write, mtimecmp, filler]
      omega
  | 2 =>
      apply le_trans (Nat.min_le_right _ _)
      have high := toNat_highHalf new
      rw [highHalf] at high
      simp only [afterWrites, compareWrites, List.take, List.foldl, write, mtimecmp, filler, high]
      omega
  | count + 3 =>
      have whole : timer.afterWrites new (count + 3) = timer.setMtimecmp new := by
        rw [afterWrites, List.take_of_length_le (by simp [compareWrites])]
        rfl
      rw [whole, mtimecmp_setMtimecmp]
      exact Nat.min_le_right _ _

/-- `mtime count` is the time after so many of the stores. -/
theorem set_mtimecmp_never_early (timer : Timer) (new : UInt64) :
    (∀ count, min timer.mtimecmp new.toNat ≤ (timer.afterWrites new count).mtimecmp) ∧
      timer.afterWrites new 3 = timer.setMtimecmp new ∧
      (timer.setMtimecmp new).mtimecmp = new.toNat ∧
      ∀ mtime : Nat → UInt64,
        (∀ count, (mtime count).toNat < timer.mtimecmp ∧ mtime count < new) →
        ∀ count, ¬ (timer.afterWrites new count).Pending (mtime count) := by
  refine ⟨timer.min_le_afterWrites new, rfl, mtimecmp_setMtimecmp timer new, ?_⟩
  intro mtime early count pending
  have least := timer.min_le_afterWrites new count
  have before := early count
  have belowNew : (mtime count).toNat < new.toNat := before.2
  rw [Pending] at pending
  omega

end Timer

end Ease
