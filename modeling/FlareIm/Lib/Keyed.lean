import Mathlib.Logic.Function.Basic

namespace Keyed

variable {Key Value : Type*} [DecidableEq Key]

-- A value together with whether the store may drop it by itself.
structure Entry (Value : Type*) where
  value : Value
  volatile : Bool

-- A key-value store whose keys may carry a time to live.
abbrev Store (Key Value : Type*) := Key → Option (Entry Value)

def valueAt (store : Store Key Value) (key : Key) : Option Value :=
  (store key).map (·.value)

-- Writing a value in place keeps the time to live the key already has.
def write (store : Store Key Value) (key : Key) (value : Value) : Store Key Value :=
  Function.update store key
    (some ⟨value, match store key with | some entry => entry.volatile | none => false⟩)

-- Giving a key a time to live does nothing when the key is absent.
def setVolatile (store : Store Key Value) (key : Key) : Store Key Value :=
  Function.update store key ((store key).map fun entry => { entry with volatile := true })

def remove (store : Store Key Value) (key : Key) : Store Key Value :=
  Function.update store key none

section Lemmas

variable (store : Store Key Value) (key other : Key) (value : Value)

@[simp] theorem valueAt_write_self : valueAt (write store key value) key = some value := by
  simp [valueAt, write]

theorem write_of_ne (h : other ≠ key) : write store key value other = store other := by
  simp [write, h]

theorem setVolatile_of_ne (h : other ≠ key) : setVolatile store key other = store other := by
  simp [setVolatile, h]

theorem remove_of_ne (h : other ≠ key) : remove store key other = store other := by
  simp [remove, h]

theorem valueAt_write_of_ne (h : other ≠ key) :
    valueAt (write store key value) other = valueAt store other := by
  simp [valueAt, write_of_ne store key other value h]

@[simp] theorem valueAt_setVolatile :
    valueAt (setVolatile store key) other = valueAt store other := by
  by_cases h : other = key
  · subst h
    cases hs : store other <;> simp [valueAt, setVolatile, hs]
  · simp [valueAt, setVolatile_of_ne store key other h]

theorem valueAt_remove_of_ne (h : other ≠ key) :
    valueAt (remove store key) other = valueAt store other := by
  simp [valueAt, remove_of_ne store key other h]

@[simp] theorem valueAt_remove_self : valueAt (remove store key) key = none := by
  simp [valueAt, remove]

end Lemmas

end Keyed
