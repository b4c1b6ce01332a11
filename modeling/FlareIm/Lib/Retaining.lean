import Mathlib.Data.List.AList

-- Sizes of a table, and what is left of it after an entry or a kind of entries goes.
namespace Retaining

variable {Key Value : Type*} [DecidableEq Key]

abbrev Table (Key Value : Type*) := AList (fun _ : Key => Value)

-- The number of entries whose value satisfies `p`.
def countWhere (p : Value → Bool) (table : Table Key Value) : Nat :=
  table.entries.countP fun entry => p entry.2

def size (table : Table Key Value) : Nat := table.entries.length

def retain (p : Value → Bool) (table : Table Key Value) : Table Key Value where
  entries := table.entries.filter fun entry => p entry.2
  nodupKeys := table.nodupKeys.sublist List.filter_sublist

-- Adds an entry for a key that has none.
def orInsert (table : Table Key Value) (key : Key) (value : Value) : Table Key Value :=
  if key ∈ table then table else table.insert key value

variable {p : Value → Bool} {table : Table Key Value} {key other : Key} {value : Value}

theorem lookup_retain : (retain p table).lookup key = (table.lookup key).filter p := by
  ext value
  rw [← Option.mem_def, ← Option.mem_def, AList.mem_lookup_iff, Option.mem_def,
    Option.filter_eq_some_iff, ← Option.mem_def, AList.mem_lookup_iff]
  simp [retain]

theorem lookup_orInsert_of_none (h : table.lookup key = none) :
    orInsert table key value = table.insert key value :=
  if_neg (AList.lookup_eq_none.mp h)

theorem orInsert_of_some (h : table.lookup key = some value) {fresh : Value} :
    orInsert table key fresh = table := by
  have hm : key ∈ table := AList.lookup_isSome.mp (by rw [h]; rfl)
  exact if_pos hm

-- Taking a key out lowers a count by what its entry gave.
theorem countWhere_erase (p : Value → Bool) (table : Table Key Value) (key : Key) :
    countWhere p table =
      countWhere p (table.erase key) + if (table.lookup key).any p then 1 else 0 := by
  by_cases hm : key ∈ table
  · obtain ⟨found, first, second, hf, hen, hr⟩ :=
      List.exists_of_kerase (AList.mem_keys.mp hm)
    have hl : table.lookup key = some found := by
      rw [← Option.mem_def, AList.mem_lookup_iff, hen]
      simp
    have hea : (table.erase key).entries = first ++ second := hr
    rw [countWhere, countWhere, hea, hen, hl]
    simp only [List.countP_append, List.countP_cons, Option.any_some]
    omega
  · have hl : table.lookup key = none := AList.lookup_eq_none.mpr hm
    have hea : (table.erase key).entries = table.entries :=
      List.kerase_of_notMem_keys hm
    rw [countWhere, countWhere, hea, hl]
    simp

theorem countWhere_insert :
    countWhere p (table.insert key value) =
      countWhere p (table.erase key) + if p value then 1 else 0 := by
  rw [countWhere, AList.entries_insert, List.countP_cons]
  rfl

omit [DecidableEq Key] in
theorem countWhere_retain_of_imp {q : Value → Bool} (h : ∀ value, q value → p value) :
    countWhere q (retain p table) = countWhere q table := by
  rw [countWhere, countWhere, retain, List.countP_filter]
  congr 1
  funext entry
  cases hq : q entry.2 with
  | false => simp
  | true => simp [h _ hq]

omit [DecidableEq Key] in
theorem size_eq_countWhere : size table = countWhere (fun _ => true) table := by
  simp [size, countWhere]

omit [DecidableEq Key] in
theorem size_retain_le : size (retain p table) ≤ size table := List.length_filter_le _ _

theorem size_erase_le : size (table.erase key) ≤ size table := by
  have hea := countWhere_erase (fun _ => true) table key
  rw [size_eq_countWhere, size_eq_countWhere]
  omega

theorem size_insert_of_mem (h : key ∈ table) : size (table.insert key value) = size table := by
  obtain ⟨found, hf⟩ := Option.isSome_iff_exists.mp (AList.lookup_isSome.mpr h)
  have hea := countWhere_erase (fun _ => true) table key
  rw [hf] at hea
  rw [size_eq_countWhere, size_eq_countWhere, countWhere_insert, hea]
  rfl

theorem size_insert_le : size (table.insert key value) ≤ size table + 1 := by
  rw [size_eq_countWhere, countWhere_insert, ← size_eq_countWhere]
  have hea := @size_erase_le Key Value _ table key
  simp only [if_true]
  omega

end Retaining
