import Mathlib.Data.List.Basic

namespace Firsts

open List (foldl_cons mem_cons mem_cons_of_mem mem_cons_self not_mem_nil)

variable {Elem Key State : Type*} [DecidableEq Key] (key : Elem → Key)

-- The first element of each key that has not been seen.
def firsts (seen : List Key) : List Elem → List Elem
  | [] => []
  | x :: xs => if key x ∈ seen then firsts seen xs else x :: firsts (key x :: seen) xs

variable {key} {seen : List Key} {xs : List Elem} {x : Elem}

theorem firsts_subset (h : x ∈ firsts key seen xs) : x ∈ xs ∧ key x ∉ seen := by
  induction xs generalizing seen with
  | nil => exact absurd h not_mem_nil
  | cons head rest ih =>
    rw [firsts] at h
    split at h
    · exact ⟨mem_cons_of_mem _ (ih h).1, (ih h).2⟩
    · rename_i hh
      rcases mem_cons.mp h with rfl | hr
      · exact ⟨mem_cons_self, hh⟩
      · obtain ⟨hm, hk⟩ := ih hr
        exact ⟨mem_cons_of_mem _ hm, fun hold => hk (mem_cons_of_mem _ hold)⟩

theorem find?_of_mem_firsts (h : x ∈ firsts key seen xs) :
    xs.find? (fun other => key other = key x) = some x := by
  induction xs generalizing seen with
  | nil => exact absurd h not_mem_nil
  | cons head rest ih =>
    rw [firsts] at h
    split at h
    · rename_i hh
      have hne : key head ≠ key x := fun hk => (firsts_subset h).2 (hk ▸ hh)
      rw [List.find?_cons_of_neg (by simpa using hne), ih h]
    · rcases mem_cons.mp h with rfl | hr
      · rw [List.find?_cons_of_pos (by simp)]
      · have hne : key head ≠ key x :=
          fun hk => (firsts_subset hr).2 (hk ▸ mem_cons_self)
        rw [List.find?_cons_of_neg (by simpa using hne), ih hr]

theorem mem_firsts (hs : key x ∉ seen)
    (h : xs.find? (fun other => key other = key x) = some x) : x ∈ firsts key seen xs := by
  induction xs generalizing seen with
  | nil => cases h
  | cons head rest ih =>
    rw [firsts]
    by_cases hk : key head = key x
    · rw [List.find?_cons_of_pos (by simpa using hk)] at h
      cases h
      rw [if_neg hs]
      exact mem_cons_self
    · rw [List.find?_cons_of_neg (by simpa using hk)] at h
      split
      · exact ih hs h
      · refine mem_cons_of_mem _ (ih ?_ h)
        rw [mem_cons, not_or]
        exact ⟨fun hsa => hk hsa.symm, hs⟩

theorem mem_firsts_iff :
    x ∈ firsts key [] xs ↔ xs.find? (fun other => key other = key x) = some x :=
  ⟨find?_of_mem_firsts, mem_firsts not_mem_nil⟩

theorem nodup_firsts : ((firsts key seen xs).map key).Nodup := by
  induction xs generalizing seen with
  | nil => exact List.nodup_nil
  | cons head rest ih =>
    rw [firsts]
    split
    · exact ih
    · rw [List.map_cons, List.nodup_cons]
      refine ⟨fun hm => ?_, ih⟩
      obtain ⟨x, hx, hk⟩ := List.mem_map.mp hm
      exact (firsts_subset hx).2 (hk ▸ mem_cons_self)

end Firsts
