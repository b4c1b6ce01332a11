import Mathlib.Tactic.TypeStar

namespace RoundTrip

-- A round trip has its effect and answers, has its effect but loses its answer, or has none.
inductive Outcome where
  | answered
  | lost
  | failed
  deriving DecidableEq

def Outcome.takesEffect : Outcome → Bool
  | .answered | .lost => true
  | .failed => false

@[simp] theorem takesEffect_answered : Outcome.takesEffect .answered = true := rfl
@[simp] theorem takesEffect_lost : Outcome.takesEffect .lost = true := rfl
@[simp] theorem takesEffect_failed : Outcome.takesEffect .failed = false := rfl

theorem Outcome.takesEffect_eq_true {outcome : Outcome} :
    outcome.takesEffect = true ↔ outcome ≠ .failed := by
  cases outcome <;> simp

end RoundTrip
