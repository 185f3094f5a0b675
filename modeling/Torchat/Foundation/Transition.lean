import Mathlib.Data.Option.Basic

/-!
Contract: runs of a system that takes one step for each action.

Owns runs, conditions on the steps and on the states of a run, the rule that an
invariant of one step is an invariant of a run, and the rule for a property that
the states of a run have until the first step outside a condition.

Does not own any system: the step function is an argument.
-/

set_option autoImplicit false

namespace Torchat.Foundation

variable {σ α : Type}

/-- Actions one after the other; no step is taken where `step` is undefined. -/
def runActions (step : σ → α → Option σ) : σ → List α → Option σ
  | state, [] => some state
  | state, action :: rest => (step state action).bind fun after => runActions step after rest

/-- Every step of a run is taken under a condition on the state before it. -/
def EachStep (step : σ → α → Option σ) (condition : σ → α → Prop) : σ → List α → Prop
  | _, [] => True
  | state, action :: rest =>
      condition state action ∧
        match step state action with
        | some after => EachStep step condition after rest
        | none => True

/-- Every state of a run, the first and the last one included, has a property. -/
def EachState (step : σ → α → Option σ) (property : σ → Prop) : σ → List α → Prop
  | state, [] => property state
  | state, action :: rest =>
      property state ∧
        match step state action with
        | some after => EachState step property after rest
        | none => True

section Invariant

variable {step : σ → α → Option σ} {condition : σ → α → Prop} {invariant : σ → Prop}

/-- A condition that always holds is met by every step. -/
theorem eachStep_of_forall (always : ∀ state action, condition state action)
    {actions : List α} {state : σ} : EachStep step condition state actions := by
  induction actions generalizing state with
  | nil => trivial
  | cons action rest inductionHypothesis =>
      refine ⟨always state action, ?_⟩
      split
      · exact inductionHypothesis
      · trivial

/-- What each step keeps under the condition, a run under the condition keeps. -/
theorem invariant_of_run
    (kept : ∀ state action after, invariant state → condition state action →
      step state action = some after → invariant after)
    {actions : List α} {state last : σ} (holds : invariant state)
    (each : EachStep step condition state actions)
    (ran : runActions step state actions = some last) : invariant last := by
  induction actions generalizing state with
  | nil =>
      cases ran
      exact holds
  | cons action rest inductionHypothesis =>
      obtain ⟨after, stepped, ranRest⟩ := Option.bind_eq_some_iff.mp ran
      obtain ⟨allowed, eachRest⟩ := each
      rw [stepped] at eachRest
      exact inductionHypothesis (kept state action after holds allowed stepped) eachRest ranRest

/-- What each step keeps, a run keeps. -/
theorem invariant_of_steps
    (kept : ∀ state action after, invariant state → step state action = some after →
      invariant after)
    {actions : List α} {state last : σ} (holds : invariant state)
    (ran : runActions step state actions = some last) : invariant last := by
  have each : EachStep step (fun _ _ => True) state actions :=
    eachStep_of_forall fun _ _ => trivial
  exact invariant_of_run (fun state action after holds _ => kept state action after holds)
    holds each ran

theorem EachState.first {property : σ → Prop} {state : σ} {actions : List α}
    (each : EachState step property state actions) : property state := by
  cases actions with
  | nil => exact each
  | cons action rest => exact each.1

/-- An invariant under a condition that gives a property, where a step outside the
condition loses the property: the states of a run have it exactly where the steps
meet the condition. -/
theorem eachState_iff_eachStep {property : σ → Prop}
    (kept : ∀ state action after, invariant state → condition state action →
      step state action = some after → invariant after)
    (given : ∀ state, invariant state → property state)
    (lost : ∀ state action after, invariant state → ¬ condition state action →
      step state action = some after → ¬ property after)
    {actions : List α} {state last : σ} (holds : invariant state)
    (ran : runActions step state actions = some last) :
    EachState step property state actions ↔ EachStep step condition state actions := by
  induction actions generalizing state with
  | nil => exact iff_of_true (given state holds) trivial
  | cons action rest inductionHypothesis =>
      obtain ⟨after, stepped, ranRest⟩ := Option.bind_eq_some_iff.mp ran
      rw [EachState, EachStep, stepped, and_iff_right (given state holds)]
      by_cases allowed : condition state action
      · rw [and_iff_right allowed]
        exact inductionHypothesis (kept state action after holds allowed stepped) ranRest
      · apply iff_of_false
        · intro each
          exact lost state action after holds allowed stepped each.first
        · rintro ⟨met, _⟩
          exact allowed met

end Invariant

end Torchat.Foundation
