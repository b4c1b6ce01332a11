import Mathlib.Algebra.Order.Ring.Int
import Mathlib.Data.List.Nodup

namespace Tally

open List (map_cons mem_cons nodup_cons not_mem_nil sum_cons)

variable {Key Value : Type*} [DecidableEq Key]

-- The value kept under a key, or the one a missing key stands for.
def valueAt (key : Key) (missing : Value) : List (Key × Value) → Value
  | [] => missing
  | (other, value) :: rest => if other = key then value else valueAt key missing rest

-- Changing the value under a key in place; a missing key is put at the end.
def modify (key : Key) (missing : Value) (change : Value → Value) :
    List (Key × Value) → List (Key × Value)
  | [] => [(key, change missing)]
  | (other, value) :: rest =>
    if other = key then (other, change value) :: rest
    else (other, value) :: modify key missing change rest

-- What the entries amount to together.
def total (size : Value → Nat) (entries : List (Key × Value)) : Nat :=
  (entries.map fun entry => size entry.2).sum

section Lookups

variable {key other : Key} {missing : Value} {change : Value → Value}
  {entries : List (Key × Value)}

theorem valueAt_modify_self :
    valueAt key missing (modify key missing change entries) =
      change (valueAt key missing entries) := by
  induction entries with
  | nil => simp [modify, valueAt]
  | cons entry rest ih =>
    simp only [modify, valueAt]
    split
    · rename_i heq
      simp [valueAt, heq]
    · rename_i hne
      simp only [valueAt, if_neg hne]
      exact ih

theorem valueAt_modify_of_ne (h : other ≠ key) (missing' : Value) :
    valueAt other missing' (modify key missing change entries) =
      valueAt other missing' entries := by
  induction entries with
  | nil => simp [modify, valueAt, Ne.symm h]
  | cons entry rest ih =>
    simp only [modify, valueAt]
    split
    · rename_i heq
      have hne : ¬entry.1 = other := fun ho => h (ho.symm.trans heq)
      simp only [valueAt, if_neg hne]
    · simp only [valueAt, ih]

theorem map_fst_modify (hm : key ∈ entries.map (·.1)) :
    (modify key missing change entries).map (·.1) = entries.map (·.1) := by
  induction entries with
  | nil => exact absurd hm not_mem_nil
  | cons entry rest ih =>
    simp only [modify]
    split
    · rfl
    · rename_i hne
      rw [map_cons, map_cons, ih]
      rcases mem_cons.mp hm with heq | hr
      · exact absurd heq.symm hne
      · exact hr

theorem map_fst_modify_of_not_mem (hm : key ∉ entries.map (·.1)) :
    (modify key missing change entries).map (·.1) = entries.map (·.1) ++ [key] := by
  induction entries with
  | nil => rfl
  | cons entry rest ih =>
    obtain ⟨hne, hr⟩ := not_or.mp (mem_cons.not.mp hm)
    simp only [modify, if_neg (Ne.symm hne), map_cons, ih hr, List.cons_append]

theorem nodup_modify (h : (entries.map (·.1)).Nodup) :
    ((modify key missing change entries).map (·.1)).Nodup := by
  by_cases hm : key ∈ entries.map (·.1)
  · rw [map_fst_modify hm]
    exact h
  · rw [map_fst_modify_of_not_mem hm]
    exact List.nodup_append.mpr ⟨h, List.nodup_singleton key, fun a ha b hb hab =>
      hm (List.mem_singleton.mp hb ▸ hab ▸ ha)⟩

theorem mem_map_fst_modify :
    other ∈ (modify key missing change entries).map (·.1) ↔
      other = key ∨ other ∈ entries.map (·.1) := by
  by_cases hm : key ∈ entries.map (·.1)
  · rw [map_fst_modify hm]
    constructor
    · exact Or.inr
    · rintro (rfl | h)
      · exact hm
      · exact h
  · rw [map_fst_modify_of_not_mem hm, List.mem_append, List.mem_singleton, or_comm]

theorem valueAt_of_not_mem (h : key ∉ entries.map (·.1)) : valueAt key missing entries = missing := by
  induction entries with
  | nil => rfl
  | cons entry rest ih =>
    obtain ⟨hne, hr⟩ := not_or.mp (mem_cons.not.mp h)
    simp only [valueAt, if_neg (Ne.symm hne)]
    exact ih hr

theorem valueAt_of_mem (hn : (entries.map (·.1)).Nodup) {value : Value}
    (hm : (key, value) ∈ entries) : valueAt key missing entries = value := by
  induction entries with
  | nil => exact absurd hm not_mem_nil
  | cons entry rest ih =>
    obtain ⟨hh, hr⟩ := nodup_cons.mp hn
    simp only [valueAt]
    rcases mem_cons.mp hm with rfl | ht
    · exact if_pos rfl
    · rw [if_neg]
      · exact ih hr ht
      · intro heq
        exact hh (List.mem_map.mpr ⟨(key, value), ht, heq.symm⟩)

theorem mem_of_mem_fst (h : key ∈ entries.map (·.1)) :
    (key, valueAt key missing entries) ∈ entries := by
  induction entries with
  | nil => exact absurd h not_mem_nil
  | cons entry rest ih =>
    simp only [valueAt]
    split
    · rename_i heq
      subst heq
      exact List.mem_cons_self
    · rename_i hne
      rcases mem_cons.mp h with heq | hr
      · exact absurd heq.symm hne
      · exact List.mem_cons_of_mem _ (ih hr)

-- An entry of the changed list is the changed one or an old one.
theorem mem_modify (hn : (entries.map (·.1)).Nodup) {value : Value} :
    (other, value) ∈ modify key missing change entries ↔
      if other = key then value = change (valueAt key missing entries)
      else (other, value) ∈ entries := by
  have hk : ((modify key missing change entries).map (·.1)).Nodup := nodup_modify hn
  -- under a key that a list has, it has the value it shows and no other
  have hs {list : List (Key × Value)} (hl : (list.map (·.1)).Nodup) (k : Key) :
      (k, value) ∈ list ↔ k ∈ list.map (·.1) ∧ valueAt k missing list = value := by
    constructor
    · exact fun hm => ⟨List.mem_map_of_mem hm, valueAt_of_mem hl hm⟩
    · rintro ⟨hm, rfl⟩
      exact mem_of_mem_fst hm
  rw [hs hk, mem_map_fst_modify]
  split
  · rename_i heq
    subst heq
    rw [valueAt_modify_self]
    simp [eq_comm]
  · rename_i hne
    rw [valueAt_modify_of_ne hne, hs hn]
    simp [hne]

theorem valueAt_perm {entries' : List (Key × Value)} (hp : entries.Perm entries')
    (hn : (entries.map (·.1)).Nodup) :
    valueAt key missing entries' = valueAt key missing entries := by
  have hk := hp.map (·.1)
  by_cases hm : key ∈ entries.map (·.1)
  · exact valueAt_of_mem (hk.nodup_iff.mp hn) (hp.mem_iff.mp (mem_of_mem_fst hm))
  · rw [valueAt_of_not_mem hm, valueAt_of_not_mem fun h => hm (hk.mem_iff.mpr h)]

theorem filter_fst_eq (hno : (entries.map (·.1)).Nodup) :
    entries.filter (fun entry => entry.1 = key) =
      if key ∈ entries.map (·.1) then [(key, valueAt key missing entries)] else [] := by
  induction entries with
  | nil => rfl
  | cons entry rest ih =>
    obtain ⟨hh, hr⟩ := nodup_cons.mp hno
    by_cases heq : entry.1 = key
    · subst heq
      have hn : rest.filter (fun other => other.1 = entry.1) = [] := by
        rw [ih hr, if_neg hh]
      simp [valueAt, hn]
    · have hs : key ∈ (entry :: rest).map (·.1) ↔ key ∈ rest.map (·.1) := by
        rw [map_cons, mem_cons]
        exact or_iff_right (Ne.symm heq)
      rw [List.filter_cons_of_neg (by simpa using heq), ih hr]
      simp only [hs, valueAt, if_neg heq]

-- What a list carries under a key, its entries put one after the other.
theorem flatMap_fst_eq {Elem : Type*} {entries : List (Key × List Elem)}
    (hn : (entries.map (·.1)).Nodup) :
    (entries.flatMap fun entry => if entry.1 = key then entry.2 else []) =
      valueAt key [] entries := by
  induction entries with
  | nil => rfl
  | cons entry rest ih =>
    obtain ⟨hh, hr⟩ := nodup_cons.mp hn
    rw [List.flatMap_cons, ih hr]
    by_cases heq : entry.1 = key
    · subst heq
      rw [valueAt_of_not_mem hh]
      simp [valueAt]
    · simp [valueAt, heq]

end Lookups

section Totals

variable {key : Key} {missing : Value} {change : Value → Value} {entries : List (Key × Value)}
  {size : Value → Nat}

theorem size_le_total (hm : size missing = 0) :
    size (valueAt key missing entries) ≤ total size entries := by
  induction entries with
  | nil => simp [valueAt, hm]
  | cons entry rest ih =>
    simp only [valueAt, total, map_cons, sum_cons]
    split
    · omega
    · have hr : size (valueAt key missing rest) ≤ total size rest := ih
      unfold total at hr
      omega

-- Changing one value changes the total by as much.
theorem total_modify (hm : size missing = 0) :
    total size (modify key missing change entries) + size (valueAt key missing entries) =
      total size entries + size (change (valueAt key missing entries)) := by
  induction entries with
  | nil => simp [modify, total, valueAt, hm]
  | cons entry rest ih =>
    simp only [modify, valueAt]
    split
    · simp only [total, map_cons, sum_cons]
      omega
    · simp only [total, map_cons, sum_cons] at ih ⊢
      omega

omit [DecidableEq Key] in
theorem total_filter (p : Key × Value → Bool) :
    total size (entries.filter p) + total size (entries.filter fun entry => !p entry) =
      total size entries := by
  induction entries with
  | nil => rfl
  | cons entry rest ih =>
    unfold total at ih ⊢
    cases hp : p entry with
    | true =>
      simp only [List.filter_cons, hp, if_true, Bool.not_true, Bool.false_eq_true, if_false,
        map_cons, sum_cons]
      omega
    | false =>
      simp only [List.filter_cons, hp, if_true, Bool.not_false, Bool.false_eq_true, if_false,
        map_cons, sum_cons]
      omega

end Totals

end Tally
