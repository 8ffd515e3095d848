import Mathlib.Algebra.Group.Nat.Defs
import Mathlib.Data.Nat.Basic

/-! Overflow-checked and bounds-checked evaluation.

A computation either returns or stops at the first fault, as a build with
overflow checks does. Undefined behaviour is a fault of its own, so that its
absence is part of every proof that a computation returns. So is `unmodelled`,
for what the model of a device says nothing about. -/

namespace Ease

inductive Fault where
  | expectFailed (message : String)
  | assertFailed (message : String)
  | outOfBounds
  | overflow
  | uninitialised
  | diverges
  | unmodelled
  deriving DecidableEq, Repr

abbrev Exec := Except Fault

namespace Exec

@[simp] theorem ok_bind {α β : Type} (value : α) (next : α → Exec β) :
    (Except.ok value >>= next) = next value := rfl

@[simp] theorem error_bind {α β : Type} (fault : Fault) (next : α → Exec β) :
    (Except.error fault >>= next) = Except.error fault := rfl

@[simp] theorem pure_eq {α : Type} (value : α) : (pure value : Exec α) = Except.ok value := rfl

theorem bind_eq_ok {α β : Type} {first : Exec α} {next : α → Exec β} {result : β} :
    (first >>= next) = Except.ok result ↔
      ∃ value, first = Except.ok value ∧ next value = Except.ok result := by
  cases first with
  | error fault => simp
  | ok value => simp

theorem foldlM_simulates {σ τ ι : Type} {R : σ → τ → Prop} {body : σ → ι → Exec σ}
    {model : τ → ι → τ}
    (steps : ∀ s t input, R s t → ∃ next, body s input = .ok next ∧ R next (model t input))
    {s : σ} {t : τ} (related : R s t) (inputs : List ι) :
    ∃ last, inputs.foldlM body s = .ok last ∧ R last (inputs.foldl model t) := by
  induction inputs generalizing s t with
  | nil => exact ⟨s, rfl, related⟩
  | cons input inputs ih =>
      rcases steps s t input related with ⟨next, head, kept⟩
      rcases ih kept with ⟨last, tail, finished⟩
      exact ⟨last, by rw [List.foldlM_cons, head, ok_bind, tail], finished⟩

def FailsOnly {α : Type} (P : Fault → Prop) (computation : Exec α) : Prop :=
  ∀ fault, computation = .error fault → P fault

namespace FailsOnly

variable {α β : Type} {P : Fault → Prop}

theorem ok (value : α) : FailsOnly P (.ok value) := nofun

theorem bind {first : Exec α} {next : α → Exec β} (head : FailsOnly P first)
    (tail : ∀ value, FailsOnly P (next value)) : FailsOnly P (first >>= next) := by
  intro fault failed
  cases first with
  | error other =>
      rw [error_bind] at failed
      cases failed
      exact head _ rfl
  | ok value => exact tail value fault failed

end FailsOnly

def Preserves {σ : Type} (P : σ → Prop) (step : σ → Exec σ) : Prop :=
  ∀ before after, step before = .ok after → P before → P after

namespace Preserves

variable {σ : Type} {P : σ → Prop}

theorem ok {change : σ → σ} (kept : ∀ state, P state → P (change state)) :
    Preserves P fun state => .ok (change state) := by
  intro before after returned holds
  cases returned
  exact kept before holds

theorem read {α : Type} {look : σ → Exec α} {step : α → σ → Exec σ}
    (kept : ∀ value, Preserves P (step value)) :
    Preserves P fun state => look state >>= fun value => step value state := by
  intro before after returned holds
  rcases bind_eq_ok.mp returned with ⟨value, _, finish⟩
  exact kept value before after finish holds

theorem foldlM {ι : Type} {body : σ → ι → Exec σ}
    (kept : ∀ input, Preserves P fun state => body state input) (inputs : List ι) :
    Preserves P fun state => inputs.foldlM body state := by
  intro before after returned holds
  induction inputs generalizing before with
  | nil =>
      cases returned
      exact holds
  | cons input inputs ih =>
      dsimp only at returned
      rw [List.foldlM_cons] at returned
      rcases bind_eq_ok.mp returned with ⟨middle, start, finish⟩
      exact ih middle finish (kept input before middle start holds)

end Preserves

end Exec

def addWithin (width a b : Nat) : Exec Nat :=
  if a + b < 2 ^ width then .ok (a + b) else .error .overflow

def usizeAdd (a b : Nat) : Exec Nat := addWithin 32 a b

def usizeMul (a b : Nat) : Exec Nat :=
  if a * b < 2 ^ 32 then .ok (a * b) else .error .overflow

def mulWithin (width a b : Nat) : Exec Nat :=
  if a * b < 2 ^ width then .ok (a * b) else .error .overflow

def subChecked (a b : Nat) : Exec Nat :=
  if b ≤ a then .ok (a - b) else .error .overflow

def assertThat (condition : Bool) (message : String) : Exec Unit :=
  if condition then .ok () else .error (.assertFailed message)

def divCeil (a b : Nat) : Exec Nat := do
  assertThat (b != 0) "attempt to divide by zero"
  .ok (if 0 < a % b then a / b + 1 else a / b)

theorem addWithin_ok {width a b : Nat} (fits : a + b < 2 ^ width) :
    addWithin width a b = .ok (a + b) := if_pos fits

theorem usizeAdd_ok {a b : Nat} (fits : a + b < 2 ^ 32) : usizeAdd a b = .ok (a + b) :=
  addWithin_ok fits

theorem addWithin_eq {width a b sum : Nat} (added : addWithin width a b = .ok sum) :
    sum = a + b := by
  rw [addWithin] at added
  split at added
  · cases added
    rfl
  · cases added

theorem addWithin_lt {width a b sum : Nat} (added : addWithin width a b = .ok sum) :
    sum < 2 ^ width := by
  rw [addWithin] at added
  split at added
  · cases added
    assumption
  · cases added

theorem addWithin_overflow {width a b : Nat} (wraps : 2 ^ width ≤ a + b) :
    addWithin width a b = .error .overflow := if_neg (Nat.not_lt.mpr wraps)

theorem usizeMul_ok {a b : Nat} (fits : a * b < 2 ^ 32) : usizeMul a b = .ok (a * b) := if_pos fits

theorem mulWithin_ok {width a b : Nat} (fits : a * b < 2 ^ width) :
    mulWithin width a b = .ok (a * b) := if_pos fits

theorem mulWithin_overflow {width a b : Nat} (wraps : 2 ^ width ≤ a * b) :
    mulWithin width a b = .error .overflow := if_neg (Nat.not_lt.mpr wraps)

theorem subChecked_ok {a b : Nat} (below : b ≤ a) : subChecked a b = .ok (a - b) := if_pos below

theorem divCeil_ok (a : Nat) {b : Nat} (positive : 0 < b) :
    ∃ quotient, divCeil a b = .ok quotient ∧ a ≤ quotient * b ∧
      ∀ other, a ≤ other * b → quotient ≤ other := by
  have nonzero : (b != 0) = true := by simpa using Nat.ne_of_gt positive
  have whole := Nat.div_add_mod' a b
  have rest := Nat.mod_lt a positive
  refine ⟨_, by rw [divCeil, nonzero, assertThat, if_pos rfl, Exec.ok_bind], ?_⟩
  by_cases exact : 0 < a % b
  · rw [if_pos exact]
    constructor
    · rw [Nat.succ_mul]
      omega
    · intro other holds
      apply Nat.succ_le_of_lt
      apply Nat.lt_of_mul_lt_mul_right (a := b)
      omega
  · rw [if_neg exact]
    constructor
    · omega
    · intro other holds
      apply Nat.le_of_mul_le_mul_right _ positive
      omega

end Ease
