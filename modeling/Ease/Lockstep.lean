import Ease.Checked
import Ease.Runs

/-! Two computations in lockstep: both stop at the same fault, or both return and their
results are related. -/

namespace Ease.Exec

inductive Lockstep {α β : Type} (R : α → β → Prop) : Exec α → Exec β → Prop where
  | ok {a : α} {b : β} (related : R a b) : Lockstep R (.ok a) (.ok b)
  | error (fault : Fault) : Lockstep R (.error fault) (.error fault)

namespace Lockstep

variable {α β γ δ : Type} {R : α → β → Prop} {S : γ → δ → Prop}

theorem bind {first : Exec α} {second : Exec β} {next : α → Exec γ} {other : β → Exec δ}
    (head : Lockstep R first second) (tail : ∀ a b, R a b → Lockstep S (next a) (other b)) :
    Lockstep S (first >>= next) (second >>= other) := by
  cases head with
  | ok related => exact tail _ _ related
  | error fault => exact .error fault

theorem bindSame {σ τ ο : Type} {Q : σ → τ → Prop} {first : Exec (σ × ο)} {second : Exec (τ × ο)}
    {next : σ × ο → Exec γ} {other : τ × ο → Exec δ}
    (head : Lockstep (fun a b => Q a.1 b.1 ∧ a.2 = b.2) first second)
    (tail : ∀ s t output, Q s t → Lockstep S (next (s, output)) (other (t, output))) :
    Lockstep S (first >>= next) (second >>= other) := by
  apply head.bind
  intro a b both
  rcases a with ⟨s, output⟩
  rcases b with ⟨t, same⟩
  rcases both with ⟨related, rfl⟩
  exact tail s t output related

theorem same {ν : Type} (first : Exec ν) {next : ν → Exec γ} {other : ν → Exec δ}
    (tail : ∀ value, first = .ok value → Lockstep S (next value) (other value)) :
    Lockstep S (first >>= next) (first >>= other) := by
  cases first with
  | ok value => exact tail value rfl
  | error fault => exact .error fault

theorem mono {weaker : α → β → Prop} {first : Exec α} {second : Exec β}
    (lockstep : Lockstep R first second) (implied : ∀ a b, R a b → weaker a b) :
    Lockstep weaker first second := by
  cases lockstep with
  | ok related => exact .ok (implied _ _ related)
  | error fault => exact .error fault

theorem of_ok {a : α} {second : Exec β} (lockstep : Lockstep R (.ok a) second) :
    ∃ b, second = .ok b ∧ R a b := by
  cases lockstep with
  | ok related => exact ⟨_, rfl, related⟩

theorem ite {condition : Prop} [Decidable condition] {first yes : Exec α} {second no : Exec β}
    (holds : condition → Lockstep R first second) (fails : ¬ condition → Lockstep R yes no) :
    Lockstep R (if condition then first else yes) (if condition then second else no) := by
  by_cases decided : condition
  · rw [if_pos decided, if_pos decided]
    exact holds decided
  · rw [if_neg decided, if_neg decided]
    exact fails decided

theorem foldlM {ι : Type} {body : α → ι → Exec α} {other : β → ι → Exec β}
    (steps : ∀ a b input, R a b → Lockstep R (body a input) (other b input)) {a : α} {b : β}
    (related : R a b) (inputs : List ι) :
    Lockstep R (inputs.foldlM body a) (inputs.foldlM other b) := by
  induction inputs generalizing a b with
  | nil => exact .ok related
  | cons input inputs ih =>
      rw [List.foldlM_cons, List.foldlM_cons]
      apply (steps a b input related).bind
      intro next second both
      exact ih both

theorem preserves {P : α → Prop} {body : α → Exec α}
    (lockstep : ∀ a, P a → Lockstep (fun b c => b = c ∧ P b) (body a) (body a)) :
    Preserves P body := by
  intro before after returned holds
  have related := lockstep before holds
  rw [returned] at related
  rcases related.of_ok with ⟨_, _, _, kept⟩
  exact kept

theorem agree {σ τ ο : Type} {Q : σ → τ → Prop} {first : Exec (σ × ο)} {second : Exec (τ × ο)}
    (lockstep : Lockstep (fun a b => Q a.1 b.1 ∧ a.2 = b.2) first second) :
    Runs.Agree Q first second := by
  cases lockstep with
  | @ok a b related =>
      rcases a with ⟨state, output⟩
      rcases b with ⟨other, same⟩
      rcases related with ⟨states, rfl⟩
      exact .ok output states
  | error fault => exact .error fault

theorem bindAgree {σ τ ο : Type} {Q : σ → τ → Prop} {first : Exec α} {second : Exec β}
    {next : α → Exec (σ × ο)} {other : β → Exec (τ × ο)} (head : Lockstep R first second)
    (tail : ∀ a b, R a b → Runs.Agree Q (next a) (other b)) :
    Runs.Agree Q (first >>= next) (second >>= other) := by
  cases head with
  | ok related => exact tail _ _ related
  | error fault => exact .error fault

end Lockstep

theorem Preserves.lockstep {α : Type} {P : α → Prop} {body : α → Exec α}
    (kept : Preserves P body) {a : α} (holds : P a) :
    Lockstep (fun b c => b = c ∧ P b) (body a) (body a) := by
  cases returned : body a with
  | ok after => exact .ok ⟨rfl, kept a after returned holds⟩
  | error fault => exact .error fault

end Ease.Exec
