import Mathlib.Data.List.Basic

/-! Runs of a machine whose step may fail, the steps that occur in them, and the
rules by which a property of one step becomes a property of every run. -/

namespace Ease.Runs

variable {ε σ τ ι ο : Type}

/-- The last state and the outputs in order, or the first failure. -/
def run (step : σ → ι → Except ε (σ × ο)) : σ → List ι → Except ε (σ × List ο)
  | state, [] => .ok (state, [])
  | state, input :: inputs =>
      match step state input with
      | .error failure => .error failure
      | .ok (next, output) =>
          match run step next inputs with
          | .error failure => .error failure
          | .ok (last, outputs) => .ok (last, output :: outputs)

variable (step : σ → ι → Except ε (σ × ο))

@[simp] theorem run_nil (state : σ) : run step state [] = .ok (state, []) := rfl

theorem run_cons_eq_ok {state last : σ} {input : ι} {inputs : List ι} {outputs : List ο} :
    run step state (input :: inputs) = .ok (last, outputs) ↔
      ∃ next output rest, step state input = .ok (next, output) ∧
        run step next inputs = .ok (last, rest) ∧ outputs = output :: rest := by
  cases first : step state input with
  | error failure => simp [run, first]
  | ok result =>
      rcases result with ⟨next, output⟩
      cases tail : run step next inputs with
      | error failure => simp [run, first, tail]
      | ok final =>
          rcases final with ⟨final, rest⟩
          simp only [run, first, tail, Except.ok.injEq, Prod.mk.injEq]
          constructor
          · intro both
            rcases both with ⟨rfl, rfl⟩
            exact ⟨next, output, rest, ⟨rfl, rfl⟩, tail, rfl⟩
          · intro given
            rcases given with ⟨_, _, other, ⟨rfl, rfl⟩, same, rfl⟩
            rw [tail] at same
            cases same
            exact ⟨rfl, rfl⟩

theorem run_cons_ok {state next : σ} {input : ι} {output : ο}
    (head : step state input = .ok (next, output)) (inputs : List ι) :
    run step state (input :: inputs) =
      (run step next inputs).map fun result => (result.1, output :: result.2) := by
  rw [run, head]
  dsimp only
  cases run step next inputs <;> rfl

theorem run_cons_error {state : σ} {input : ι} {failure : ε}
    (head : step state input = .error failure) (inputs : List ι) :
    run step state (input :: inputs) = .error failure := by
  rw [run, head]

theorem run_append_eq_ok {state last : σ} {front back : List ι} {outputs : List ο} :
    run step state (front ++ back) = .ok (last, outputs) ↔
      ∃ middle first second, run step state front = .ok (middle, first) ∧
        run step middle back = .ok (last, second) ∧ outputs = first ++ second := by
  induction front generalizing state outputs with
  | nil =>
      constructor
      · intro whole
        exact ⟨state, [], outputs, rfl, whole, rfl⟩
      · intro given
        rcases given with ⟨middle, first, second, start, finish, rfl⟩
        cases start
        exact finish
  | cons input inputs ih =>
      simp only [List.cons_append, run_cons_eq_ok, ih]
      constructor
      · intro given
        rcases given with ⟨next, output, rest, head,
          ⟨middle, first, second, start, finish, rfl⟩, rfl⟩
        exact ⟨middle, output :: first, second, ⟨next, output, first, head, start, rfl⟩,
          finish, rfl⟩
      · intro given
        rcases given with ⟨middle, _, second, ⟨next, output, rest, head, start, rfl⟩, finish, rfl⟩
        exact ⟨next, output, rest ++ second, head, ⟨middle, rest, second, start, finish, rfl⟩, rfl⟩

theorem run_snoc_eq_ok {state last : σ} {front : List ι} {input : ι} {outputs : List ο} :
    run step state (front ++ [input]) = .ok (last, outputs) ↔
      ∃ middle first output, run step state front = .ok (middle, first) ∧
        step middle input = .ok (last, output) ∧ outputs = first ++ [output] := by
  simp only [run_append_eq_ok, run_cons_eq_ok, run_nil, Except.ok.injEq, Prod.mk.injEq]
  constructor
  · intro given
    rcases given with ⟨middle, first, _, start, ⟨next, output, _, head, ⟨rfl, rfl⟩, rfl⟩, rfl⟩
    exact ⟨middle, first, output, start, head, rfl⟩
  · intro given
    rcases given with ⟨middle, first, output, start, head, rfl⟩
    exact ⟨middle, first, [output], start, ⟨last, output, [], head, ⟨rfl, rfl⟩, rfl⟩, rfl⟩

/-- `before` steps to `after` on `input` somewhere in the run from `start`; the run
may fail later. -/
structure Occurs (start : σ) (inputs : List ι) (before : σ) (input : ι) (after : σ)
    (output : ο) : Prop where
  reached : ∃ front back outputs, inputs = front ++ input :: back ∧
    run step start front = .ok (before, outputs)
  stepped : step before input = .ok (after, output)

theorem run_invariant {Inv : σ → Prop} {state last : σ} {inputs : List ι} {outputs : List ο}
    (kept : ∀ state input next output, input ∈ inputs → Inv state →
      step state input = .ok (next, output) → Inv next)
    (initial : Inv state) (finished : run step state inputs = .ok (last, outputs)) : Inv last := by
  induction inputs generalizing state outputs with
  | nil => cases finished; exact initial
  | cons input inputs ih =>
      rcases (run_cons_eq_ok step).mp finished with ⟨next, output, rest, head, tail, _⟩
      exact ih (fun s i t o member => kept s i t o (List.mem_cons_of_mem _ member))
        (kept state input next output List.mem_cons_self initial head) tail

theorem run_follows {R : σ → τ → Prop} {model : τ → ι → τ} {state last : σ} {start : τ}
    {inputs : List ι} {outputs : List ο}
    (kept : ∀ s t input next output, R s t → step s input = .ok (next, output) →
      R next (model t input))
    (related : R state start) (finished : run step state inputs = .ok (last, outputs)) :
    R last (inputs.foldl model start) := by
  induction inputs generalizing state start outputs with
  | nil => cases finished; exact related
  | cons input inputs ih =>
      rcases (run_cons_eq_ok step).mp finished with ⟨next, output, rest, head, tail, _⟩
      exact ih (kept state start input next output related head) tail

theorem run_conserves {α : Type} {quantity : σ → α} {state last : σ} {inputs : List ι}
    {outputs : List ο}
    (kept : ∀ state input next output, step state input = .ok (next, output) →
      quantity next = quantity state)
    (finished : run step state inputs = .ok (last, outputs)) : quantity last = quantity state := by
  induction inputs generalizing state outputs with
  | nil => cases finished; rfl
  | cons input inputs ih =>
      rcases (run_cons_eq_ok step).mp finished with ⟨next, output, rest, head, tail, _⟩
      calc quantity last = quantity next := ih tail
        _ = quantity state := kept state input next output head

/-- A run goes through exactly when every step that it comes to does. -/
theorem run_completes_iff (state : σ) (inputs : List ι) :
    (∃ result, run step state inputs = .ok result) ↔
      ∀ front input back, inputs = front ++ input :: back →
        ∀ middle outputs, run step state front = .ok (middle, outputs) →
          ∃ result, step middle input = .ok result := by
  constructor
  · intro whole front input back split middle first start
    rcases whole with ⟨⟨last, outputs⟩, finished⟩
    subst split
    rcases (run_append_eq_ok step).mp finished with ⟨other, first', second, start', finish, _⟩
    rw [start] at start'
    cases start'
    rcases (run_cons_eq_ok step).mp finish with ⟨next, output, rest, head, _⟩
    exact ⟨_, head⟩
  · intro steps
    induction inputs generalizing state with
    | nil => exact ⟨_, rfl⟩
    | cons input inputs ih =>
        rcases steps [] input inputs rfl state [] rfl with ⟨⟨next, output⟩, head⟩
        obtain ⟨⟨last, rest⟩, tail⟩ := ih next (by
          intro front middle back split last outputs start
          apply steps (input :: front) middle back (by rw [split]; rfl) last (output :: outputs)
          exact (run_cons_eq_ok step).mpr ⟨next, output, outputs, head, start, rfl⟩)
        exact ⟨_, (run_cons_eq_ok step).mpr ⟨next, output, rest, head, tail, rfl⟩⟩

theorem run_eq_error {state : σ} {inputs : List ι} {failure : ε}
    (failed : run step state inputs = .error failure) :
    ∃ front input back middle outputs, inputs = front ++ input :: back ∧
      run step state front = .ok (middle, outputs) ∧ step middle input = .error failure := by
  induction inputs generalizing state with
  | nil => cases failed
  | cons input inputs ih =>
      cases head : step state input with
      | error first =>
          simp only [run, head, Except.error.injEq] at failed
          subst failed
          exact ⟨[], input, inputs, state, [], rfl, rfl, head⟩
      | ok result =>
          cases tail : run step result.1 inputs with
          | ok last => simp [run, head, tail] at failed
          | error later =>
              simp only [run, head, tail, Except.error.injEq] at failed
              subst failed
              rcases ih tail with ⟨front, stuck, back, middle, outputs, split, start, stop⟩
              exact ⟨input :: front, stuck, back, middle, result.2 :: outputs, by rw [split]; rfl,
                (run_cons_eq_ok step).mpr ⟨_, _, _, head, start, rfl⟩, stop⟩

/-- Two results agree: the same failure, or related states with the same output. -/
inductive Agree (R : σ → τ → Prop) : Except ε (σ × ο) → Except ε (τ × ο) → Prop where
  | ok {s : σ} {t : τ} (output : ο) (related : R s t) : Agree R (.ok (s, output)) (.ok (t, output))
  | error (failure : ε) : Agree R (.error failure) (.error failure)

theorem Agree.mono {R S : σ → τ → Prop} {first : Except ε (σ × ο)} {second : Except ε (τ × ο)}
    (agree : Agree R first second) (weaker : ∀ s t, R s t → S s t) : Agree S first second := by
  cases agree with
  | ok output related => exact .ok output (weaker _ _ related)
  | error failure => exact .error failure

theorem Agree.of_ok {R : σ → τ → Prop} {s : σ} {output : ο} {other : Except ε (τ × ο)}
    (agree : Agree R (.ok (s, output)) other) : ∃ t, other = .ok (t, output) ∧ R s t := by
  cases agree with
  | ok output related => exact ⟨_, rfl, related⟩

theorem Agree.of_ok_right {R : σ → τ → Prop} {t : τ} {output : ο} {other : Except ε (σ × ο)}
    (agree : Agree R other (.ok (t, output))) : ∃ s, other = .ok (s, output) ∧ R s t := by
  cases agree with
  | ok output related => exact ⟨_, rfl, related⟩

theorem Agree.of_error {R : σ → τ → Prop} {failure : ε} {other : Except ε (τ × ο)}
    (agree : Agree R (.error failure) other) : other = .error failure := by
  cases agree with
  | error failure => rfl

theorem Agree.completes_iff {R : σ → τ → Prop} {first : Except ε (σ × ο)}
    {second : Except ε (τ × ο)} (agree : Agree R first second) :
    (∃ result, first = .ok result) ↔ ∃ result, second = .ok result := by
  cases agree with
  | ok output related => simp
  | error failure => simp

theorem Agree.bind {R : σ → τ → Prop} {α : Type} (first : Except ε α)
    {left : α → Except ε (σ × ο)} {right : α → Except ε (τ × ο)}
    (agree : ∀ value, first = .ok value → Agree R (left value) (right value)) :
    Agree R (first >>= left) (first >>= right) := by
  cases first with
  | error failure => exact .error failure
  | ok value => exact agree value rfl

theorem run_agree {R : σ → τ → Prop} {other : τ → ι → Except ε (τ × ο)}
    (steps : ∀ s t input, R s t → Agree R (step s input) (other t input))
    {s : σ} {t : τ} (related : R s t) (inputs : List ι) :
    Agree R (run step s inputs) (run other t inputs) := by
  induction inputs generalizing s t with
  | nil => exact .ok [] related
  | cons input inputs ih =>
      have head := steps s t input related
      revert head
      generalize first : step s input = left
      generalize second : other t input = right
      intro agree
      rcases agree with ⟨output, next⟩ | failure
      · have tail := ih next
        simp only [run, first, second]
        revert tail
        generalize run step _ inputs = left
        generalize run other _ inputs = right
        intro agree
        rcases agree with ⟨outputs, final⟩ | failure
        · exact .ok (output :: outputs) final
        · exact .error failure
      · simp only [run, first, second]
        exact .error failure

theorem run_cons_agree {R S : σ → τ → Prop} {other : τ → ι → Except ε (τ × ο)} {s : σ} {t : τ}
    {input : ι} {inputs : List ι} (head : Agree R (step s input) (other t input))
    (tail : ∀ s t, R s t → Agree S (run step s inputs) (run other t inputs)) :
    Agree S (run step s (input :: inputs)) (run other t (input :: inputs)) := by
  revert head
  generalize first : step s input = left
  generalize second : other t input = right
  intro agree
  cases agree with
  | ok output related =>
      have rest := tail _ _ related
      simp only [run, first, second]
      revert rest
      generalize run step _ inputs = left
      generalize run other _ inputs = right
      intro agree
      cases agree with
      | ok outputs final => exact .ok (output :: outputs) final
      | error failure => exact .error failure
  | error failure =>
      simp only [run, first, second]
      exact .error failure

def total (cost : ι → Nat) : List ι → Nat
  | [] => 0
  | input :: inputs => cost input + total cost inputs

/-- Agreement of runs whose steps agree as long as what they cost is below a limit. -/
theorem run_agree_below {R : Nat → σ → τ → Prop} {Allowed : ι → Prop} {cost : ι → Nat} {limit : Nat}
    {other : τ → ι → Except ε (τ × ο)}
    (steps : ∀ spent s t input, R spent s t → Allowed input → spent + cost input < limit →
      Agree (R (spent + cost input)) (step s input) (other t input))
    {spent : Nat} {s : σ} {t : τ} (related : R spent s t) {inputs : List ι}
    (allowed : ∀ input ∈ inputs, Allowed input) (below : spent + total cost inputs < limit) :
    Agree (R (spent + total cost inputs)) (run step s inputs) (run other t inputs) := by
  induction inputs generalizing spent s t with
  | nil => exact .ok [] related
  | cons input inputs ih =>
      rw [total, ← Nat.add_assoc] at below ⊢
      apply run_cons_agree step (steps spent s t input related (allowed input List.mem_cons_self)
        (Nat.lt_of_le_of_lt (Nat.le_add_right _ _) below))
      intro next next' both
      exact ih both (fun i member => allowed i (List.mem_cons_of_mem _ member)) below

end Ease.Runs
