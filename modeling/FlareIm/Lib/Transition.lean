import Mathlib.Algebra.Order.Ring.Int
import Mathlib.Data.List.Basic

namespace Transition

variable {State Action : Type*}

-- A run takes its steps one action after the other.
-- `ok` is a condition on each action in the state it is taken in.
inductive Run (step : State → Action → Option State) (ok : State → Action → Prop) :
    State → List Action → State → Prop where
  | nil (state : State) : Run step ok state [] state
  | cons {state middle last : State} {action : Action} {rest : List Action}
      (hok : ok state action) (hstep : step state action = some middle)
      (hrest : Run step ok middle rest last) : Run step ok state (action :: rest) last

variable {step : State → Action → Option State} {ok : State → Action → Prop}

theorem Run.append {first middle last : State} {before after : List Action}
    (hb : Run step ok first before middle) (ha : Run step ok middle after last) :
    Run step ok first (before ++ after) last := by
  induction hb with
  | nil => exact ha
  | cons hok hs _ ih => exact .cons hok hs (ih ha)

theorem Run.snoc {first middle last : State} {before : List Action} {action : Action}
    (hb : Run step ok first before middle) (hok : ok middle action)
    (hs : step middle action = some last) : Run step ok first (before ++ [action]) last :=
  hb.append (.cons hok hs (.nil last))

-- What one step preserves, a whole run preserves.
theorem Run.preserves (Inv : State → Prop)
    (hp : ∀ state action next, Inv state → ok state action →
      step state action = some next → Inv next)
    {first last : State} {actions : List Action} (hr : Run step ok first actions last)
    (hf : Inv first) : Inv last := by
  induction hr with
  | nil => exact hf
  | cons hok hs _ ih => exact ih (hp _ _ _ hf hok hs)

-- A reflexive and transitive relation that every step respects relates the ends of a run.
theorem Run.relates {Inv : State → Prop} (rel : State → State → Prop)
    (hp : ∀ state action next, Inv state → ok state action →
      step state action = some next → Inv next) (hr : ∀ state, rel state state)
    (ht : ∀ a b c, rel a b → rel b c → rel a c)
    (hre : ∀ state action next, Inv state → ok state action →
      step state action = some next → rel state next)
    {first last : State} {actions : List Action} (hru : Run step ok first actions last)
    (hf : Inv first) : rel first last := by
  induction hru with
  | nil => exact hr _
  | cons hok hs _ ih =>
    exact ht _ _ _ (hre _ _ _ hf hok hs) (ih (hp _ _ _ hf hok hs))

-- What holds of every state that a run reaches.
def Always (step : State → Action → Option State) (ok : State → Action → Prop) (first : State)
    (holds : State → Prop) : Prop :=
  ∀ actions last, Run step ok first actions last → holds last

-- Weaker conditions allow more runs.
theorem Run.mono {ok' : State → Action → Prop} (hw : ∀ state action, ok state action →
    ok' state action) {first last : State} {actions : List Action}
    (hr : Run step ok first actions last) : Run step ok' first actions last := by
  induction hr with
  | nil => exact .nil _
  | cons hok hs _ ih => exact .cons (hw _ _ hok) hs ih

-- The condition every step meets.
def anyStep (_ : State) (_ : Action) : Prop := True

instance (state : State) (action : Action) : Decidable (anyStep state action) :=
  .isTrue trivial

-- Running a list of actions, refused as soon as one of them is.
def execute (step : State → Action → Option State) (ok : State → Action → Prop)
    [∀ state action, Decidable (ok state action)] : State → List Action → Option State
  | state, [] => some state
  | state, action :: rest =>
    if ok state action then (step state action).bind fun next => execute step ok next rest
    else none

theorem run_of_execute [∀ state action, Decidable (ok state action)] {actions : List Action}
    {first last : State} (h : execute step ok first actions = some last) :
    Run step ok first actions last := by
  induction actions generalizing first with
  | nil =>
    simp only [execute, Option.some.injEq] at h
    exact h ▸ .nil _
  | cons action rest ih =>
    simp only [execute] at h
    split at h
    · rename_i hok
      obtain ⟨next, hs, hr⟩ := Option.bind_eq_some_iff.mp h
      exact .cons hok hs (ih hr)
    · cases h

-- The form concrete runs are checked in: the last state is computed, not written down.
theorem run_of_isSome [∀ state action, Decidable (ok state action)] {actions : List Action}
    {first : State} (h : (execute step ok first actions).isSome) :
    Run step ok first actions ((execute step ok first actions).get h) :=
  run_of_execute (Option.some_get h).symm

end Transition
