import Mathlib.Algebra.Order.Ring.Int
import Mathlib.Data.List.Forall2

namespace Fallible

variable {Error A B : Type}

-- A fallible computation that succeeds succeeds in each of its steps.
theorem bind_eq_ok {x : Except Error A} {f : A → Except Error B} {b : B} :
    (x >>= f) = .ok b ↔ ∃ a, x = .ok a ∧ f a = .ok b := by
  cases x with
  | error error | ok a => simp [bind, Except.bind]

theorem map_eq_ok {x : Except Error A} {f : A → B} {b : B} :
    (f <$> x) = .ok b ↔ ∃ a, x = .ok a ∧ f a = b := by
  cases x with
  | error error | ok a => simp [Functor.map, Except.map]

theorem mapError_eq_ok {Error' : Type} {x : Except Error A} {f : Error → Error'} {a : A} :
    x.mapError f = .ok a ↔ x = .ok a := by
  cases x with
  | error error | ok a => simp [Except.mapError]

theorem pure_eq_ok {a b : A} : (pure a : Except Error A) = .ok b ↔ a = b := by
  simp [pure, Except.pure]

-- A check that refuses with an error.
def refuseIf (p : Prop) [Decidable p] (error : Error) : Except Error Unit :=
  if p then .error error else .ok ()

theorem refuseIf_eq_ok {p : Prop} [Decidable p] {error : Error} {done : Unit} :
    refuseIf p error = .ok done ↔ ¬ p := by
  by_cases h : p <;> simp [refuseIf, h]

-- The results of a fallible function on a list, or its first error.
def traverse (f : A → Except Error B) : List A → Except Error (List B)
  | [] => .ok []
  | a :: rest =>
    match f a with
    | .error error => .error error
    | .ok b =>
      match traverse f rest with
      | .error error => .error error
      | .ok results => .ok (b :: results)

theorem traverse_eq_ok {f : A → Except Error B} {list : List A} {results : List B}
    (h : traverse f list = .ok results) : List.Forall₂ (fun a b => f a = .ok b) list results := by
  induction list generalizing results with
  | nil =>
    simp only [traverse, Except.ok.injEq] at h
    exact h ▸ .nil
  | cons a rest ih =>
    simp only [traverse] at h
    split at h
    · cases h
    · rename_i b hb
      split at h
      · cases h
      · rename_i results' hr
        simp only [Except.ok.injEq] at h
        exact h ▸ .cons hb (ih hr)

end Fallible
