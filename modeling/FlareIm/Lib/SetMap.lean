import Mathlib.Data.List.Basic
import Mathlib.Data.List.Nodup
import Mathlib.Logic.Function.Basic

-- A map to sets, in which no key keeps an empty set.
namespace SetMap

open Function (update update_of_ne update_self)

variable {Key Elem : Type*} [DecidableEq Key] [DecidableEq Elem]

abbrev Map (Key Elem : Type*) := Key → Option (List Elem)

def elems (map : Map Key Elem) (key : Key) : List Elem := (map key).getD []

def add (map : Map Key Elem) (key : Key) (elem : Elem) : Map Key Elem :=
  Function.update map key (some ((elems map key).insert elem))

-- A key whose set becomes empty goes away.
def discard (map : Map Key Elem) (key : Key) (elem : Elem) : Map Key Elem :=
  match map key with
  | none => map
  | some set =>
    let rest := set.filter (· ≠ elem)
    Function.update map key (if rest = [] then none else some rest)

structure WellFormed (map : Map Key Elem) : Prop where
  nonempty : ∀ key, map key ≠ some []
  nodup : ∀ key, (elems map key).Nodup

variable {map : Map Key Elem} {key other : Key} {elem entry : Elem}

@[simp] theorem elems_add_self : elems (add map key elem) key = (elems map key).insert elem := by
  simp [elems, add]

theorem elems_add_of_ne (h : other ≠ key) : elems (add map key elem) other = elems map other := by
  simp [elems, add, h]

theorem mem_elems_add : entry ∈ elems (add map key elem) other ↔
    (other = key ∧ entry = elem) ∨ entry ∈ elems map other := by
  by_cases hk : other = key
  · subst hk
    simp [List.mem_insert_iff]
  · simp [elems_add_of_ne hk, hk]

theorem elems_discard_self :
    elems (discard map key elem) key = (elems map key).filter (· ≠ elem) := by
  unfold discard elems
  cases hset : map key with
  | none => simp [hset]
  | some set =>
    by_cases hem : set.filter (· ≠ elem) = []
    · simp only [hem, if_true, update_self, Option.getD_none, Option.getD_some]
    · simp only [hem, if_false, update_self, Option.getD_some]

theorem discard_of_ne (h : other ≠ key) : discard map key elem other = map other := by
  unfold discard
  cases map key with
  | none => rfl
  | some set => exact update_of_ne h ..

theorem elems_discard_of_ne (h : other ≠ key) :
    elems (discard map key elem) other = elems map other := by
  rw [elems, discard_of_ne h]
  rfl

theorem mem_elems_discard : entry ∈ elems (discard map key elem) other ↔
    entry ∈ elems map other ∧ ¬ (other = key ∧ entry = elem) := by
  by_cases hk : other = key
  · subst hk
    simp [elems_discard_self]
  · simp [elems_discard_of_ne hk, hk]

theorem elems_foldl_discard (keys : List Key) :
    elems (keys.foldl (fun map key => discard map key elem) map) other =
      if other ∈ keys then (elems map other).filter (· ≠ elem) else elems map other := by
  induction keys generalizing map with
  | nil => simp
  | cons head rest ih =>
    rw [List.foldl_cons, ih]
    by_cases hh : other = head
    · subst hh
      simp [elems_discard_self, List.filter_filter]
    · simp [elems_discard_of_ne hh, hh]

omit [DecidableEq Key] [DecidableEq Elem] in
theorem wellFormed_empty : WellFormed (fun _ => none : Map Key Elem) where
  nonempty _ := by simp
  nodup _ := List.nodup_nil

theorem WellFormed.add (h : WellFormed map) : WellFormed (add map key elem) where
  nonempty other := by
    by_cases hk : other = key
    · subst hk
      simp only [SetMap.add, update_self, ne_eq, Option.some.injEq]
      intro hn
      have hm : elem ∈ (elems map other).insert elem := List.mem_insert_self
      rw [hn] at hm
      exact List.not_mem_nil hm
    · rw [SetMap.add, update_of_ne hk]
      exact h.nonempty other
  nodup other := by
    by_cases hk : other = key
    · subst hk
      rw [elems_add_self]
      exact (h.nodup other).insert
    · rw [elems_add_of_ne hk]
      exact h.nodup other

theorem WellFormed.discard (h : WellFormed map) : WellFormed (discard map key elem) where
  nonempty other := by
    by_cases hk : other = key
    · subst hk
      unfold SetMap.discard
      cases hset : map other with
      | none => simp [hset]
      | some set =>
        by_cases hem : set.filter (· ≠ elem) = []
        · simp only [hem, if_true, update_self]
          exact Option.some_ne_none [] ∘ Eq.symm
        · simp only [hem, if_false, update_self]
          exact fun heq => hem (Option.some.inj heq)
    · rw [discard_of_ne hk]
      exact h.nonempty other
  nodup other := by
    by_cases hk : other = key
    · subst hk
      rw [elems_discard_self]
      exact (h.nodup other).filter _
    · rw [elems_discard_of_ne hk]
      exact h.nodup other

theorem WellFormed.foldl_discard (h : WellFormed map) (keys : List Key) :
    WellFormed (keys.foldl (fun map key => SetMap.discard map key elem) map) := by
  induction keys generalizing map with
  | nil => exact h
  | cons head rest ih => exact ih h.discard

omit [DecidableEq Elem] in
theorem WellFormed.remove (h : WellFormed map) : WellFormed (update map key none) where
  nonempty other := by
    by_cases hk : other = key
    · subst hk
      simp
    · rw [update_of_ne hk]
      exact h.nonempty other
  nodup other := by
    by_cases hk : other = key
    · subst hk
      simp [elems]
    · rw [elems, update_of_ne hk]
      exact h.nodup other

end SetMap
