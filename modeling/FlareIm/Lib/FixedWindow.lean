import Mathlib.Data.List.Basic
import Mathlib.Data.List.Count
import Mathlib.Data.List.Find

-- Limits on what is granted under a key in one window of time. A call charges several keys, all of
-- them or none.
namespace FixedWindow

variable {Call Charge Key : Type*}

-- How calls are metered.
structure Meter (Call Charge Key : Type*) where
  window : Call → Nat
  charges : Call → List Charge
  key : Charge → Key
  limit : Charge → Nat

-- How much was granted in each window under each key.
abbrev Used (Key : Type*) := Nat → Key → Nat

namespace Meter

variable (meter : Meter Call Charge Key)

-- The first charge that finds its limit reached.
def refusal (used : Used Key) (call : Call) : Option Charge :=
  (meter.charges call).find? fun charge =>
    meter.limit charge ≤ used (meter.window call) (meter.key charge)

variable [DecidableEq Key]

def spend (used : Used Key) (call : Call) : Used Key := fun window key =>
  if window = meter.window call then
    used window key + (meter.charges call).countP (meter.key · = key)
  else used window key

def grant (used : Used Key) (call : Call) : Used Key :=
  match meter.refusal used call with
  | none => meter.spend used call
  | some _ => used

def answers : Used Key → List Call → List (Call × Option Charge)
  | _, [] => []
  | used, call :: rest => (call, meter.refusal used call) :: answers (meter.grant used call) rest

end Meter

section Refusals

variable {meter : Meter Call Charge Key} {used other : Used Key} {call : Call}

theorem lt_limit_of_granted (h : meter.refusal used call = none) {charge : Charge}
    (hm : charge ∈ meter.charges call) :
    used (meter.window call) (meter.key charge) < meter.limit charge := by
  have hp := List.find?_eq_none.mp h charge hm
  simpa using hp

theorem refusal_congr
    (h : ∀ charge ∈ meter.charges call,
      used (meter.window call) (meter.key charge) = other (meter.window call) (meter.key charge)) :
    meter.refusal used call = meter.refusal other call :=
  List.find?_congr fun charge hm => by rw [h charge hm]

end Refusals

section Grants

variable [DecidableEq Key] {meter : Meter Call Charge Key} {used other : Used Key} {call : Call}
  {key : Key} {window : Nat}

theorem grant_of_granted (h : meter.refusal used call = none) :
    meter.grant used call = meter.spend used call := by
  rw [Meter.grant, h]

theorem grant_of_refused {charge : Charge} (h : meter.refusal used call = some charge) :
    meter.grant used call = used := by
  rw [Meter.grant, h]

theorem spend_of_ne (h : window ≠ meter.window call) :
    meter.spend used call window key = used window key := if_neg h

theorem le_spend : used window key ≤ meter.spend used call window key := by
  unfold Meter.spend
  split
  · exact Nat.le_add_right _ _
  · exact Nat.le_refl _

theorem lt_spend_of_mem {charge : Charge} (hm : charge ∈ meter.charges call) :
    used (meter.window call) (meter.key charge) <
      meter.spend used call (meter.window call) (meter.key charge) := by
  have hp : 0 < (meter.charges call).countP (meter.key · = meter.key charge) :=
    List.countP_pos_iff.mpr ⟨charge, hm, by simp⟩
  rw [Meter.spend, if_pos rfl]
  omega

theorem le_grant : used window key ≤ meter.grant used call window key := by
  cases hr : meter.refusal used call with
  | none =>
    rw [grant_of_granted hr]
    exact le_spend
  | some charge => rw [grant_of_refused hr]

-- A key that a call does not charge is as it was.
theorem grant_of_not_mem (h : ∀ charge ∈ meter.charges call, meter.key charge ≠ key) :
    meter.grant used call window key = used window key := by
  have hn : (meter.charges call).countP (meter.key · = key) = 0 := by
    rw [List.countP_eq_zero]
    intro charge hm
    simpa using h charge hm
  cases hr : meter.refusal used call with
  | none => rw [grant_of_granted hr, Meter.spend, hn, Nat.add_zero, ite_self]
  | some charge => rw [grant_of_refused hr]

theorem grant_congr (hr : meter.refusal used call = meter.refusal other call)
    (h : used window key = other window key) :
    meter.grant used call window key = meter.grant other call window key := by
  cases hu : meter.refusal used call with
  | none =>
    rw [grant_of_granted hu, grant_of_granted (hr.symm.trans hu), Meter.spend, Meter.spend, h]
  | some charge =>
    rw [grant_of_refused hu, grant_of_refused (hr.symm.trans hu), h]

theorem grant_mono (hr : meter.refusal used call = meter.refusal other call)
    (h : used window key ≤ other window key) :
    meter.grant used call window key ≤ meter.grant other call window key := by
  cases hu : meter.refusal used call with
  | none =>
    rw [grant_of_granted hu, grant_of_granted (hr.symm.trans hu)]
    unfold Meter.spend
    split
    · exact Nat.add_le_add_right h _
    · exact h
  | some charge =>
    rw [grant_of_refused hu, grant_of_refused (hr.symm.trans hu)]
    exact h

-- Of the calls that charge a key, no more are granted in a window than the limit they charge it
-- with.
theorem granted_le {bound : Nat} (p : Call → Bool) (calls : List Call)
    (hc : ∀ call ∈ calls, p call →
      ∃ charge ∈ meter.charges call, meter.key charge = key ∧ meter.limit charge ≤ bound) :
    (meter.answers used calls).countP
        (fun answer => answer.2.isNone && decide (meter.window answer.1 = window) && p answer.1) ≤
      bound - used window key := by
  induction calls generalizing used with
  | nil => simp [Meter.answers]
  | cons call rest ih =>
    have hr := @ih (meter.grant used call) fun other hm => hc other (List.mem_cons_of_mem _ hm)
    have hle : used window key ≤ meter.grant used call window key := le_grant
    rw [Meter.answers, List.countP_cons]
    split
    · rename_i hco
      simp only [Bool.and_eq_true, Option.isNone_iff_eq_none, decide_eq_true_eq] at hco
      obtain ⟨⟨hg, rfl⟩, hp⟩ := hco
      obtain ⟨charge, hm, rfl, hb⟩ := hc call List.mem_cons_self hp
      have hl := lt_limit_of_granted hg hm
      have hs : used (meter.window call) (meter.key charge) <
          meter.grant used call (meter.window call) (meter.key charge) := by
        rw [grant_of_granted hg]
        exact lt_spend_of_mem hm
      omega
    · omega

end Grants

end FixedWindow
