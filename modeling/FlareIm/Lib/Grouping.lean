import Mathlib.Data.List.Induction
import Mathlib.Data.List.Nodup

namespace Grouping

variable {Key Elem Group : Type*} [DecidableEq Key]
  (start : Elem → Group) (add : Group → Elem → Group)

-- Adding an element to the group of its key; a new key opens a group at the end.
def place (key : Key) (x : Elem) : List (Key × Group) → List (Key × Group)
  | [] => [(key, start x)]
  | (other, group) :: rest =>
    if other = key then (other, add group x) :: rest
    else (other, group) :: place key x rest

def collect (pairs : List (Key × Elem)) : List (Key × Group) :=
  pairs.foldl (fun groups pair => place start add pair.1 pair.2 groups) []

-- The elements put under a key, in their order.
def members (key : Key) (pairs : List (Key × Elem)) : List Elem :=
  (pairs.filter fun pair => pair.1 = key).map (·.2)

-- The group that a list of elements opens and fills.
def fill : List Elem → Option Group
  | [] => none
  | x :: rest => some (rest.foldl add (start x))

section Members

variable {key : Key} {pairs : List (Key × Elem)} {x : Elem}

theorem mem_members : x ∈ members key pairs ↔ (key, x) ∈ pairs := by
  rw [members, List.mem_map]
  constructor
  · rintro ⟨⟨other, y⟩, hm, rfl⟩
    obtain ⟨hp, hk⟩ := List.mem_filter.mp hm
    obtain rfl : other = key := of_decide_eq_true hk
    exact hp
  · intro h
    exact ⟨(key, x), List.mem_filter.mpr ⟨h, decide_eq_true rfl⟩, rfl⟩

theorem members_concat_self (pairs : List (Key × Elem)) :
    members key (pairs ++ [(key, x)]) = members key pairs ++ [x] := by
  simp [members]

theorem members_concat_of_ne {other : Key} (h : other ≠ key) (pairs : List (Key × Elem)) :
    members key (pairs ++ [(other, x)]) = members key pairs := by
  simp [members, h]

end Members

theorem fill_concat (xs : List Elem) (x : Elem) :
    fill start add (xs ++ [x]) =
      some (match fill start add xs with
        | none => start x
        | some group => add group x) := by
  cases xs with
  | nil => rfl
  | cons y rest => simp [fill, List.foldl_append]

section Place

variable {start add} {key other : Key} {x : Elem} {groups : List (Key × Group)} {group : Group}

theorem map_fst_place (h : key ∈ groups.map (·.1)) :
    (place start add key x groups).map (·.1) = groups.map (·.1) := by
  induction groups with
  | nil => exact absurd h List.not_mem_nil
  | cons entry rest ih =>
    rw [place]
    split
    · rfl
    · rename_i hne
      rw [List.map_cons, List.map_cons, ih]
      rcases List.mem_cons.mp h with heq | hr
      · exact absurd heq.symm hne
      · exact hr

theorem place_of_not_mem (h : key ∉ groups.map (·.1)) :
    place start add key x groups = groups ++ [(key, start x)] := by
  induction groups with
  | nil => rfl
  | cons entry rest ih =>
    obtain ⟨hne, hr⟩ := not_or.mp (List.mem_cons.not.mp h)
    rw [place, if_neg (Ne.symm hne), ih hr, List.cons_append]

theorem nodup_place (h : (groups.map (·.1)).Nodup) :
    ((place start add key x groups).map (·.1)).Nodup := by
  by_cases hm : key ∈ groups.map (·.1)
  · rw [map_fst_place hm]
    exact h
  · rw [place_of_not_mem hm, List.map_append]
    refine List.nodup_append.mpr ⟨h, List.nodup_singleton key, ?_⟩
    intro a ha b hb hab
    obtain rfl : b = key := List.mem_singleton.mp hb
    exact hm (hab ▸ ha)

theorem mem_place_of_ne (hne : other ≠ key) :
    (other, group) ∈ place start add key x groups ↔ (other, group) ∈ groups := by
  induction groups with
  | nil => simp [place, hne]
  | cons entry rest ih =>
    rw [place]
    split
    · rename_i heq
      have hen : entry.1 ≠ other := fun h => hne (h ▸ heq)
      simp only [List.mem_cons, Prod.ext_iff, hen.symm, false_and, false_or]
    · rw [List.mem_cons, List.mem_cons, ih]

theorem mem_place_self (hn : (groups.map (·.1)).Nodup) :
    (key, group) ∈ place start add key x groups ↔ (∃ old, (key, old) ∈ groups ∧ group = add old x) ∨
        key ∉ groups.map (·.1) ∧ group = start x := by
  induction groups with
  | nil => simp [place]
  | cons entry rest ih =>
    obtain ⟨hh, hr⟩ := List.nodup_cons.mp hn
    obtain ⟨first, old⟩ := entry
    rw [place]
    split
    · rename_i heq
      obtain rfl : first = key := heq
      have ha : ∀ value, (first, value) ∉ rest := fun value hm =>
        hh (List.mem_map.mpr ⟨(first, value), hm, rfl⟩)
      simp [ha]
    · rename_i hne
      have hne' : key ≠ first := Ne.symm hne
      rw [List.mem_cons, ih hr]
      simp [hne']

end Place

theorem collect_concat (pairs : List (Key × Elem)) (pair : Key × Elem) :
    collect start add (pairs ++ [pair]) =
      place start add pair.1 pair.2 (collect start add pairs) := by
  rw [collect, List.foldl_append]
  rfl

theorem nodup_collect (pairs : List (Key × Elem)) :
    ((collect start add pairs).map (·.1)).Nodup := by
  induction pairs using List.reverseRecOn with
  | nil => exact List.nodup_nil
  | append_singleton pairs pair ih =>
    rw [collect_concat]
    exact nodup_place ih

-- The group of a key is what its elements fill, in their order.
theorem mem_collect {pairs : List (Key × Elem)} {key : Key} {group : Group} :
    (key, group) ∈ collect start add pairs ↔ fill start add (members key pairs) = some group := by
  induction pairs using List.reverseRecOn generalizing group with
  | nil => simp [collect, members, fill]
  | append_singleton pairs pair ih =>
    obtain ⟨other, x⟩ := pair
    rw [collect_concat]
    by_cases h : other = key
    · subst h
      have hk : other ∉ (collect start add pairs).map (·.1) ↔
          fill start add (members other pairs) = none := by
        rw [Option.eq_none_iff_forall_ne_some]
        constructor
        · intro hno value hv
          exact hno (List.mem_map.mpr ⟨(other, value), ih.mpr hv, rfl⟩)
        · rintro hn hm
          obtain ⟨⟨_, value⟩, hv, rfl⟩ := List.mem_map.mp hm
          exact hn value (ih.mp hv)
      rw [mem_place_self (nodup_collect start add pairs), members_concat_self, fill_concat, hk]
      cases hf : fill start add (members other pairs) with
      | none =>
        have hn : ∀ old, (other, old) ∉ collect start add pairs := fun old hold => by
          rw [ih, hf] at hold
          cases hold
        simp [hn, eq_comm]
      | some old =>
        have hold : ∀ value, (other, value) ∈ collect start add pairs ↔ old = value := by
          intro value
          rw [ih, hf, Option.some_inj]
        simp [hold, eq_comm]
    · rw [mem_place_of_ne (Ne.symm h), members_concat_of_ne h, ih]

end Grouping
