import Mathlib.Logic.Function.Basic

/-!
# Runs of a labelled transition function

A system is a partial step function on states and labels: a label that is not enabled in a
state gives `none`. A guard restricts the labels further and is checked in the state the
step leaves, so a theorem about the runs that meet a guard says nothing about other runs.
-/

namespace Transition

variable {σ ℓ : Type*}

/-- The states reached from `start` by enabled steps that all meet `guard`. -/
inductive Reach (step : σ → ℓ → Option σ) (guard : σ → ℓ → Prop) (start : σ) : σ → Prop
  /-- The empty run. -/
  | start : Reach step guard start start
  /-- One more step at the end of a run. -/
  | next {before after : σ} {label : ℓ} : Reach step guard start before → guard before label →
      step before label = some after → Reach step guard start after

namespace Reach

variable {step : σ → ℓ → Option σ} {guard : σ → ℓ → Prop} {start : σ}

/-- A property of the start that every guarded step keeps holds in every state reached. -/
theorem invariant {P : σ → Prop} (initial : P start)
    (kept : ∀ before after label, P before → guard before label →
      step before label = some after → P after) {state : σ}
    (run : Reach step guard start state) : P state := by
  induction run with
  | start => exact initial
  | next _ allowed stepped ih => exact kept _ _ _ ih allowed stepped

/-- A run that meets a guard meets every weaker guard. -/
theorem weaken {guard' : σ → ℓ → Prop} (weaker : ∀ state label, guard state label → guard' state label)
    {state : σ} (run : Reach step guard start state) : Reach step guard' start state := by
  induction run with
  | start => exact .start
  | next _ allowed stepped ih => exact .next ih (weaker _ _ allowed) stepped

end Reach

/-- Take the listed steps in order, checking the guard before each. -/
def exec (step : σ → ℓ → Option σ) (guard : σ → ℓ → Prop) [∀ state label, Decidable (guard state label)] :
    σ → List ℓ → Option σ
  | state, [] => some state
  | state, label :: rest =>
    if guard state label then (step state label).bind fun after => exec step guard after rest
    else none

/-- A listed run that executes reaches the state it returns. -/
theorem Reach.of_exec {step : σ → ℓ → Option σ} {guard : σ → ℓ → Prop}
    [∀ state label, Decidable (guard state label)] {start last : σ} {state : σ} {labels : List ℓ}
    (run : Reach step guard start state) (executed : exec step guard state labels = some last) :
    Reach step guard start last := by
  induction labels generalizing state with
  | nil =>
    obtain rfl := Option.some.inj executed
    exact run
  | cons label rest ih =>
    simp only [exec] at executed
    split at executed
    · rename_i allowed
      obtain ⟨after, stepped, remaining⟩ := Option.bind_eq_some_iff.mp executed
      exact ih (.next run allowed stepped) remaining
    · contradiction

/-- A run that goes on with listed steps to a state that passes a test. -/
theorem Reach.of_exec_any {step : σ → ℓ → Option σ} {guard : σ → ℓ → Prop}
    [∀ state label, Decidable (guard state label)] {start state : σ} {labels : List ℓ}
    {test : σ → Bool} (run : Reach step guard start state)
    (passed : (exec step guard state labels).any test = true) :
    ∃ last, Reach step guard start last ∧ test last = true := by
  obtain ⟨last, executed, tested⟩ := (Option.any_eq_true ..).mp passed
  exact ⟨last, run.of_exec executed, tested⟩

/-- A listed run whose last state passes a test reaches such a state. -/
theorem Reach.of_exec_test {step : σ → ℓ → Option σ} {guard : σ → ℓ → Prop}
    [∀ state label, Decidable (guard state label)] {start : σ} {labels : List ℓ} {test : σ → Bool}
    (passed : (exec step guard start labels).any test = true) :
    ∃ last, Reach step guard start last ∧ test last = true :=
  Reach.start.of_exec_any passed

end Transition
