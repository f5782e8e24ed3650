import RvKeyValue.Base.Run

/-!
# Simulation of one system by another

A system is simulated by another through a view of its states when every guarded step either leaves
the view as it is or is a guarded step of the other system. The steps may rely on an invariant.
-/

namespace Transition

variable {σ τ ℓ κ : Type*} {step : σ → ℓ → Option σ} {guard : σ → ℓ → Prop} {step' : τ → κ → Option τ}
  {guard' : τ → κ → Prop} {start state : σ}

/-- Two runs in a row. -/
theorem Reach.trans {middle : σ} (first : Reach step guard start middle)
    (second : Reach step guard middle state) : Reach step guard start state := by
  induction second with
  | start => exact first
  | next _ allowed stepped ih => exact .next ih allowed stepped

/-- What a step shows in a view: nothing, or one guarded step. -/
def Shows (step' : τ → κ → Option τ) (guard' : τ → κ → Prop) (before after : τ) : Prop :=
  after = before ∨ ∃ label, guard' before label ∧ step' before label = some after

/-- The view of a state that is reached is reached. -/
theorem Reach.simulate (view : σ → τ) {P : σ → Prop} (initial : P start)
    (matched : ∀ before after label, P before → guard before label → step before label = some after →
      P after ∧ Shows step' guard' (view before) (view after))
    (run : Reach step guard start state) : P state ∧ Reach step' guard' (view start) (view state) := by
  induction run with
  | start => exact ⟨initial, .start⟩
  | next _ allowed stepped ih =>
    obtain ⟨holds, reached⟩ := ih
    obtain ⟨kept, same | ⟨label, meets, moved⟩⟩ := matched _ _ _ holds allowed stepped
    · exact ⟨kept, same ▸ reached⟩
    · exact ⟨kept, .next reached meets moved⟩

/-- A run whose states keep an invariant meets a guard that follows from it. -/
theorem Reach.strengthen {stronger : σ → ℓ → Prop} {P : σ → Prop} (initial : P start)
    (kept : ∀ before after label, P before → guard before label → step before label = some after →
      P after)
    (meets : ∀ before label, P before → guard before label → stronger before label)
    (run : Reach step guard start state) : P state ∧ Reach step stronger start state := by
  refine run.simulate id initial fun before after label holds allowed stepped => ?_
  exact ⟨kept before after label holds allowed stepped,
    Or.inr ⟨label, meets before label holds allowed, stepped⟩⟩

end Transition
