import Mathlib.Data.List.Nodup
import Mathlib.Data.List.Perm.Subperm
import Mathlib.Logic.Function.Basic

-- A map of bounded size, which drops its oldest keys to make room.
structure FifoMap (Key Value : Type*) where
  entries : Key → Option Value
  order : List Key
  capacity : Nat

namespace FifoMap

variable {Key Value : Type*} [DecidableEq Key]

def empty (capacity : Nat) : FifoMap Key Value where
  entries _ := none
  order := []
  capacity := max capacity 1

def get (map : FifoMap Key Value) (key : Key) : Option Value := map.entries key

-- Drops the oldest keys until no more than `capacity` are left.
def evict (capacity : Nat) (entries : Key → Option Value) :
    List Key → (Key → Option Value) × List Key
  | [] => (entries, [])
  | oldest :: rest =>
    if capacity < (oldest :: rest).length then
      evict capacity (Function.update entries oldest none) rest
    else (entries, oldest :: rest)

-- A key that is there keeps its place, a new one comes last.
def insert (map : FifoMap Key Value) (key : Key) (value : Value) : FifoMap Key Value :=
  if (map.entries key).isSome then
    { map with entries := Function.update map.entries key (some value) }
  else
    let evicted := evict map.capacity map.entries (map.order ++ [key])
    { map with entries := Function.update evicted.1 key (some value), order := evicted.2 }

@[simp] theorem get_insert_self (map : FifoMap Key Value) (key : Key) (value : Value) :
    (map.insert key value).get key = some value := by
  unfold insert get
  split <;> simp

@[simp] theorem capacity_insert (map : FifoMap Key Value) (key : Key) (value : Value) :
    (map.insert key value).capacity = map.capacity := by
  unfold insert
  split <;> rfl

theorem evict_of_fits {capacity : Nat} {entries : Key → Option Value} {order : List Key}
    (h : order.length ≤ capacity) : evict capacity entries order = (entries, order) := by
  cases order with
  | nil => rfl
  | cons oldest rest =>
    rw [evict, if_neg]
    omega

-- The queue has the keys of the map, each once, and no more than fit.
structure WellFormed (map : FifoMap Key Value) : Prop where
  nodup : map.order.Nodup
  present : ∀ key, (map.entries key).isSome ↔ key ∈ map.order
  fits : map.order.length ≤ map.capacity
  positive : 0 < map.capacity

omit [DecidableEq Key] in
theorem wellFormed_empty (capacity : Nat) : WellFormed (empty capacity : FifoMap Key Value) where
  nodup := List.nodup_nil
  present _ := ⟨fun h => absurd h (by simp [empty]), fun h => absurd h List.not_mem_nil⟩
  fits := Nat.zero_le _
  positive := Nat.lt_of_lt_of_le Nat.zero_lt_one (Nat.le_max_right capacity 1)

theorem insert_of_present {map : FifoMap Key Value} {key : Key}
    (h : (map.entries key).isSome) (value : Value) : map.insert key value =
      { map with entries := Function.update map.entries key (some value) } := if_pos h

-- A new key takes a free place, or that of the oldest key.
theorem WellFormed.insert_of_new {map : FifoMap Key Value} (h : WellFormed map) {key : Key}
    (hn : key ∉ map.order) (value : Value) :
    (map.order.length < map.capacity ∧ map.insert key value =
        { map with
          entries := Function.update map.entries key (some value)
          order := map.order ++ [key] }) ∨
    ∃ oldest rest, map.order = oldest :: rest ∧ map.order.length = map.capacity ∧
      map.insert key value =
        { map with
          entries := Function.update (Function.update map.entries oldest none) key (some value)
          order := rest ++ [key] } := by
  have ha : ¬ (map.entries key).isSome := fun hpr => hn ((h.present key).mp hpr)
  rw [insert, if_neg ha]
  have hf := h.fits
  by_cases hr : map.order.length < map.capacity
  · left
    refine ⟨hr, ?_⟩
    rw [evict_of_fits (by simp; omega)]
  · right
    cases ho : map.order with
    | nil =>
      have hp := h.positive
      rw [ho, List.length_nil] at hr
      exact absurd hp hr
    | cons oldest rest =>
      rw [ho, List.length_cons] at hr hf
      refine ⟨oldest, rest, rfl, by simp; omega, ?_⟩
      rw [List.cons_append, evict, if_pos (by simp; omega), evict_of_fits (by simp; omega)]

theorem WellFormed.insert {map : FifoMap Key Value} (h : WellFormed map) (key : Key)
    (value : Value) : WellFormed (map.insert key value) := by
  by_cases hm : key ∈ map.order
  · have hp := (h.present key).mpr hm
    rw [insert_of_present hp]
    refine ⟨h.nodup, fun other => ?_, h.fits, h.positive⟩
    rw [← h.present other]
    by_cases hs : other = key
    · subst hs
      simp [hp]
    · simp [hs]
  · rcases h.insert_of_new hm value with ⟨hr, heq⟩ | ⟨oldest, rest, ho, hf, heq⟩
    · rw [heq]
      refine ⟨?_, fun other => ?_, by simp; omega, h.positive⟩
      · exact List.nodup_append'.mpr ⟨h.nodup, List.nodup_singleton key, by simpa using hm⟩
      · by_cases hs : other = key
        · subst hs
          simp
        · simp [hs, h.present]
    · have hn := h.nodup
      have hp := h.present
      rw [ho] at hm hf hn
      simp only [List.mem_cons, not_or] at hm
      rw [heq]
      refine ⟨?_, fun other => ?_, ?_, h.positive⟩
      · exact List.nodup_append'.mpr
          ⟨(List.nodup_cons.mp hn).2, List.nodup_singleton key, by simpa using hm.2⟩
      · by_cases hs : other = key
        · subst hs
          simp
        · by_cases hold : other = oldest
          · subst hold
            simp [hs, (List.nodup_cons.mp hn).1]
          · simp [hs, hold, hp, ho]
      · simp only [List.length_append, List.length_cons, List.length_nil] at hf ⊢
        omega

theorem WellFormed.get_of_insert {map : FifoMap Key Value} (h : WellFormed map) {key other : Key}
    (value : Value) (hne : other ≠ key) {found : Value}
    (hf : (map.insert key value).get other = some found) : map.get other = some found := by
  by_cases hm : key ∈ map.order
  · rw [insert_of_present ((h.present key).mpr hm), get] at hf
    simpa [get, hne] using hf
  · rcases h.insert_of_new hm value with ⟨-, heq⟩ | ⟨oldest, rest, -, -, heq⟩
    · rw [heq, get] at hf
      simpa [get, hne] using hf
    · rw [heq, get] at hf
      by_cases hold : other = oldest
      · subst hold
        simp [hne] at hf
      · simpa [get, hne, hold] using hf

-- The keys behind `key` in the queue.
def Behind (map : FifoMap Key Value) (key : Key) (younger : List Key) : Prop :=
  ∃ older, map.order = older ++ key :: younger

-- A key moves to the head of the queue, and from there only a full queue of younger keys
-- drives it out.
theorem Behind.insert_of_new {map : FifoMap Key Value} {key other : Key} {younger : List Key}
    (hb : Behind map key younger) (h : WellFormed map) (hn : other ∉ map.order) (value : Value) :
    Behind (map.insert other value) key (younger ++ [other]) ∨
      ((map.insert other value).order = younger ++ [other] ∧
        (younger ++ [other]).length = map.capacity) := by
  obtain ⟨older, ho⟩ := hb
  rcases h.insert_of_new hn value with ⟨-, heq⟩ | ⟨oldest, rest, hh, hf, heq⟩
  · left
    rw [heq]
    exact ⟨older, by simp [ho]⟩
  · rw [heq]
    cases older with
    | nil =>
      right
      rw [List.nil_append] at ho
      rw [ho] at hh hf
      simp only [List.cons.injEq] at hh
      rw [← hh.2]
      refine ⟨rfl, ?_⟩
      simpa using hf
    | cons first older =>
      left
      rw [hh, List.cons_append, List.cons.injEq] at ho
      exact ⟨older, by simp [ho.2]⟩

-- The keys of the map are among those that fit.
structure Within (keys : List Key) (map : FifoMap Key Value) : Prop where
  order : ∀ key ∈ map.order, key ∈ keys
  nodup : map.order.Nodup
  fits : keys.length ≤ map.capacity
  present : ∀ key, (map.entries key).isSome ↔ key ∈ map.order

omit [DecidableEq Key] in
theorem within_empty {keys : List Key} {capacity : Nat} (h : keys.length ≤ max capacity 1) :
    Within keys (empty capacity : FifoMap Key Value) where
  order _ h := absurd h List.not_mem_nil
  nodup := List.nodup_nil
  fits := h
  present _ := ⟨fun h => absurd h (by simp [empty]), fun h => absurd h List.not_mem_nil⟩

-- Where all keys fit, a new one drops none.
theorem Within.insert_order {keys : List Key} {map : FifoMap Key Value} (h : Within keys map)
    {key : Key} (hk : key ∈ keys) (value : Value) :
    (map.insert key value).entries = Function.update map.entries key (some value) ∧
      (map.insert key value).order = if (map.entries key).isSome then map.order
        else map.order ++ [key] := by
  unfold insert
  by_cases hp : (map.entries key).isSome
  · rw [if_pos hp, if_pos hp]
    exact ⟨rfl, rfl⟩
  · have hnw : key ∉ map.order := fun hm => hp ((h.present key).mpr hm)
    have hn : (map.order ++ [key]).Nodup :=
      List.nodup_append'.mpr ⟨h.nodup, List.nodup_singleton key, by simpa using hnw⟩
    have hsu : map.order ++ [key] ⊆ keys := by
      intro other hm
      rcases List.mem_append.mp hm with hold | hs
      · exact h.order other hold
      · exact List.mem_singleton.mp hs ▸ hk
    have hl : (map.order ++ [key]).length ≤ map.capacity := by
      have hc := (List.subperm_of_subset hn hsu).length_le
      have hf := h.fits
      omega
    rw [if_neg hp, if_neg hp, evict_of_fits hl]
    exact ⟨rfl, rfl⟩

theorem Within.insert {keys : List Key} {map : FifoMap Key Value} (h : Within keys map)
    {key : Key} (hk : key ∈ keys) (value : Value) : Within keys (map.insert key value) := by
  obtain ⟨hen, ho⟩ := h.insert_order hk value
  by_cases hp : (map.entries key).isSome
  · rw [if_pos hp] at ho
    refine ⟨ho ▸ h.order, ho ▸ h.nodup, by rw [capacity_insert]; exact h.fits, ?_⟩
    intro other
    rw [hen, ho, ← h.present other]
    by_cases hs : other = key
    · subst hs
      simp [hp]
    · rw [Function.update_of_ne hs]
  · rw [if_neg hp] at ho
    have hn : key ∉ map.order := fun hm => hp ((h.present key).mpr hm)
    refine ⟨?_, ?_, by rw [capacity_insert]; exact h.fits, ?_⟩
    · intro other hm
      rw [ho] at hm
      rcases List.mem_append.mp hm with hold | hse
      · exact h.order other hold
      · exact List.mem_singleton.mp hse ▸ hk
    · rw [ho]
      exact List.nodup_append'.mpr ⟨h.nodup, List.nodup_singleton key, by simpa using hn⟩
    · intro other
      rw [hen, ho, List.mem_append, ← h.present other, List.mem_singleton]
      by_cases hs : other = key
      · subst hs
        simp
      · simp [hs]

theorem Within.get_insert_of_ne {keys : List Key} {map : FifoMap Key Value}
    (h : Within keys map) {key other : Key} (hk : key ∈ keys) (hne : other ≠ key)
    (value : Value) : (map.insert key value).get other = map.get other := by
  rw [get, (h.insert_order hk value).1, Function.update_of_ne hne]
  rfl

end FifoMap
