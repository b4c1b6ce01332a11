import FlareIm.SyncCursor
import Mathlib.Data.Finset.Card

namespace FlareIm.CursorMap

open SyncCursor

abbrev CursorKey := String × String

-- The cursors a process remembers, by user and conversation.
abbrev BoundedCursorMap := FifoMap CursorKey MultiDeviceCursor

section Runs

inductive Operation where
  | insert (key : CursorKey) (cursor : MultiDeviceCursor)
  | get (key : CursorKey)

def step (map : BoundedCursorMap) : Operation → BoundedCursorMap
  | .insert key cursor => map.insert key cursor
  | .get _ => map

def run (capacity : Nat) (operations : List Operation) : BoundedCursorMap :=
  operations.foldl step (.empty capacity)

-- The key that an operation brings into the map.
def newKey (map : BoundedCursorMap) : Operation → Option CursorKey
  | .insert key _ => if (map.entries key).isSome then none else some key
  | .get _ => none

def newKeys (map : BoundedCursorMap) : List Operation → List CursorKey
  | [] => []
  | operation :: rest => (newKey map operation).toList ++ newKeys (step map operation) rest

def Operation.valueFor (key : CursorKey) : Operation → Option MultiDeviceCursor
  | .insert other cursor => if other = key then some cursor else none
  | .get _ => none

def lastInserted (key : CursorKey) (operations : List Operation) : Option MultiDeviceCursor :=
  (operations.filterMap (Operation.valueFor key)).getLast?

theorem run_append (capacity : Nat) (first second : List Operation) :
    run capacity (first ++ second) = second.foldl step (run capacity first) :=
  List.foldl_append

end Runs

section Invariant

variable {map : BoundedCursorMap} {key : CursorKey}

theorem wellFormed_step (h : map.WellFormed) (operation : Operation) :
    (step map operation).WellFormed := by
  cases operation with
  | insert key cursor => exact h.insert key cursor
  | get key => exact h

theorem wellFormed_foldl (h : map.WellFormed) (operations : List Operation) :
    (operations.foldl step map).WellFormed := by
  induction operations generalizing map with
  | nil => exact h
  | cons operation rest ih => exact ih (wellFormed_step h operation)

theorem wellFormed_run (capacity : Nat) (operations : List Operation) :
    (run capacity operations).WellFormed :=
  wellFormed_foldl (FifoMap.wellFormed_empty capacity) operations

theorem capacity_foldl (map : BoundedCursorMap) (operations : List Operation) :
    (operations.foldl step map).capacity = map.capacity := by
  induction operations generalizing map with
  | nil => rfl
  | cons operation rest ih =>
    rw [List.foldl_cons, ih]
    cases operation with
    | insert key cursor => exact FifoMap.capacity_insert map key cursor
    | get key => rfl

theorem capacity_run (capacity : Nat) (operations : List Operation) :
    (run capacity operations).capacity = max capacity 1 := by
  rw [run, capacity_foldl]
  rfl

theorem mem_order_iff (h : map.WellFormed) :
    key ∈ map.order ↔ ∃ cursor, map.get key = some cursor := by
  rw [← h.present key, Option.isSome_iff_exists]
  rfl

theorem newKey_insert (h : map.WellFormed) (other : CursorKey) (cursor : MultiDeviceCursor) :
    newKey map (.insert other cursor) = if other ∈ map.order then none else some other := by
  rw [newKey]
  by_cases hm : other ∈ map.order
  · rw [if_pos hm, if_pos ((h.present other).mpr hm)]
  · rw [if_neg hm, if_neg (fun hp => hm ((h.present other).mp hp))]

-- Where a key stands that entered before the new keys `since`: still in its place with these
-- behind it, or driven out by as many as the map holds.
def Entered (map : BoundedCursorMap) (key : CursorKey) (since : List CursorKey) : Prop :=
  map.Behind key since ∨
    (map.capacity ≤ (since.toFinset.erase key).card ∧ (key ∉ since → key ∉ map.order))

theorem Entered.step {since : List CursorKey} (hen : Entered map key since)
    (h : map.WellFormed) (operation : Operation) :
    Entered (step map operation) key (since ++ (newKey map operation).toList) := by
  cases operation with
  | get other =>
    simp only [newKey, Option.toList_none, List.append_nil]
    exact hen
  | insert other cursor =>
    rw [newKey_insert h]
    by_cases hm : other ∈ map.order
    · rw [if_pos hm, Option.toList_none, List.append_nil, CursorMap.step,
        FifoMap.insert_of_present ((h.present other).mpr hm)]
      exact hen
    · rw [if_neg hm, Option.toList_some, CursorMap.step]
      have hnx := h.insert other cursor
      rcases hen with hbe | ⟨hc, hou⟩
      · have hne : other ≠ key := by
          obtain ⟨older, hor⟩ := hbe
          rintro rfl
          exact hm (by simp [hor])
        rcases hbe.insert_of_new h hm cursor with hp | ⟨hor, hl⟩
        · exact .inl hp
        · right
          have hno := hnx.nodup
          have hk : key ∉ since := by
            obtain ⟨older, hold⟩ := hbe
            have hb := h.nodup
            rw [hold] at hb
            exact (List.nodup_cons.mp hb.of_append_right).1
          have hn : key ∉ since ++ [other] := by
            rw [List.mem_append, List.mem_singleton]
            rintro (hs | ho)
            · exact hk hs
            · exact hne ho.symm
          rw [hor] at hno
          refine ⟨?_, fun _ => hor ▸ hn⟩
          rw [FifoMap.capacity_insert, Finset.erase_eq_of_notMem (by rwa [List.mem_toFinset]),
            List.toFinset_card_of_nodup hno, hl]
      · right
        refine ⟨?_, ?_⟩
        · rw [FifoMap.capacity_insert]
          refine hc.trans (Finset.card_le_card (Finset.erase_subset_erase key ?_))
          intro entry het
          simp only [List.mem_toFinset, List.mem_append] at het ⊢
          exact .inl het
        · intro hn
          simp only [List.mem_append, List.mem_singleton, not_or] at hn
          have hold := hou hn.1
          rw [mem_order_iff hnx]
          rintro ⟨found, hf⟩
          exact hold ((mem_order_iff h).mpr ⟨found, h.get_of_insert cursor hn.2 hf⟩)

theorem entered_foldl {since : List CursorKey} (hen : Entered map key since)
    (h : map.WellFormed) (operations : List Operation) :
    Entered (operations.foldl step map) key (since ++ newKeys map operations) := by
  induction operations generalizing map since with
  | nil => simpa [newKeys] using hen
  | cons operation rest ih =>
    have hn := ih (hen.step h operation) (wellFormed_step h operation)
    rwa [List.append_assoc] at hn

theorem entered_insert (h : map.WellFormed) (hn : map.get key = none)
    (cursor : MultiDeviceCursor) : Entered (map.insert key cursor) key [] := by
  have hm : key ∉ map.order := by
    rw [mem_order_iff h, hn]
    simp
  left
  rcases h.insert_of_new hm cursor with ⟨-, heq⟩ | ⟨oldest, rest, -, -, heq⟩
  · rw [heq]
    exact ⟨map.order, rfl⟩
  · rw [heq]
    exact ⟨rest, rfl⟩

end Invariant

section Values

variable {key : CursorKey}

theorem lastInserted_concat (operations : List Operation) (operation : Operation) :
    lastInserted key (operations ++ [operation]) =
      (operation.valueFor key).or (lastInserted key operations) := by
  unfold lastInserted
  rw [List.filterMap_append]
  cases hv : operation.valueFor key with
  | none | some cursor => simp [hv]

-- What is found is what was inserted last, never an older value.
theorem lastInserted_of_get (capacity : Nat) (operations : List Operation)
    {found : MultiDeviceCursor} (h : (run capacity operations).get key = some found) :
    lastInserted key operations = some found := by
  induction operations using List.reverseRecOn generalizing found with
  | nil => cases h
  | append_singleton operations operation ih =>
    rw [lastInserted_concat]
    rw [run_append, List.foldl_cons, List.foldl_nil] at h
    cases operation with
    | get other => exact ih h
    | insert other cursor =>
      by_cases hs : other = key
      · subst hs
        rw [step, FifoMap.get_insert_self] at h
        simpa [Operation.valueFor] using h
      · have hb := (wellFormed_run capacity operations).get_of_insert cursor (Ne.symm hs) h
        simpa [Operation.valueFor, hs] using ih hb

theorem exists_entry (capacity : Nat) (operations : List Operation) {value : MultiDeviceCursor}
    (h : lastInserted key operations = some value) :
    ∃ before cursor after, operations = before ++ .insert key cursor :: after ∧
      (run capacity before).get key = none := by
  induction operations using List.reverseRecOn generalizing value with
  | nil => cases h
  | append_singleton operations operation ih =>
    by_cases hs : ∃ earlier, lastInserted key operations = some earlier
    · obtain ⟨earlier, hea⟩ := hs
      obtain ⟨before, cursor, after, hsp, ha⟩ := ih hea
      exact ⟨before, cursor, after ++ [operation], by simp [hsp], ha⟩
    · have hn : lastInserted key operations = none := by
        cases hl : lastInserted key operations with
        | none => rfl
        | some earlier => exact absurd ⟨earlier, hl⟩ hs
      rw [lastInserted_concat, hn, Option.or_none] at h
      cases operation with
      | get other => cases h
      | insert other cursor =>
        by_cases hsa : other = key
        · subst hsa
          refine ⟨operations, cursor, [], rfl, ?_⟩
          cases hf : (run capacity operations).get other with
          | none => rfl
          | some found =>
            have hl := lastInserted_of_get capacity operations hf
            rw [hn] at hl
            cases hl
        · simp [Operation.valueFor, hsa] at h

end Values

-- After any operations the queue has the keys of the map, each once, and no more than the
-- capacity. The value found is the last one inserted, and is missing only when at least
-- `capacity` other keys entered after this one.
theorem cursor_map_is_bounded (capacity : Nat) (operations : List Operation) :
    let map := run capacity operations
    (∀ key, (map.entries key).isSome ↔ key ∈ map.order) ∧
    map.order.Nodup ∧
    map.order.length ≤ map.capacity ∧ map.capacity = max capacity 1 ∧
    (∀ key found, map.get key = some found → lastInserted key operations = some found) ∧
    (∀ key value, lastInserted key operations = some value →
      ∃ before cursor after, operations = before ++ .insert key cursor :: after ∧
        (run capacity before).get key = none) ∧
    ∀ key before cursor after,
      operations = before ++ .insert key cursor :: after →
      (run capacity before).get key = none →
      let since := newKeys (run capacity (before ++ [.insert key cursor])) after
      ((since.toFinset.erase key).card < map.capacity →
        map.get key = lastInserted key operations) ∧
      (key ∉ since → map.capacity ≤ (since.toFinset.erase key).card → map.get key = none) := by
  intro map
  have hwell : map.WellFormed := wellFormed_run capacity operations
  refine ⟨hwell.present, hwell.nodup, hwell.fits, capacity_run capacity operations,
    fun key found h => lastInserted_of_get capacity operations h,
    fun key value h => exists_entry capacity operations h, ?_⟩
  intro key before cursor after hsplit habsent since
  have hbefore := wellFormed_run capacity before
  have hinserted : run capacity (before ++ [.insert key cursor]) =
      (run capacity before).insert key cursor := by
    rw [run_append]
    rfl
  have hmap : map = after.foldl step ((run capacity before).insert key cursor) := by
    rw [← hinserted, ← run_append, List.append_assoc, List.singleton_append, ← hsplit]
  have hentered : Entered map key since := by
    have hsince := entered_foldl (entered_insert hbefore habsent cursor)
      (hbefore.insert key cursor) after
    rw [List.nil_append, ← hinserted] at hsince
    rw [hmap, ← hinserted]
    exact hsince
  constructor
  · intro hfew
    rcases hentered with ⟨older, horder⟩ | ⟨hcount, -⟩
    · have hmem : key ∈ map.order := by simp [horder]
      obtain ⟨found, hfound⟩ := (mem_order_iff hwell).mp hmem
      rw [hfound]
      exact (lastInserted_of_get capacity operations hfound).symm
    · omega
  · intro hnot hmany
    have hout : key ∉ map.order := by
      rcases hentered with ⟨older, horder⟩ | ⟨-, hout⟩
      · have hnodup := hwell.nodup
        have hfits := hwell.fits
        rw [horder] at hnodup hfits
        have hsince : since.Nodup := (List.nodup_cons.mp hnodup.of_append_right).2
        rw [Finset.erase_eq_of_notMem (by simpa using hnot),
          List.toFinset_card_of_nodup hsince] at hmany
        rw [List.length_append, List.length_cons] at hfits
        omega
      · exact hout hnot
    cases hfound : map.get key with
    | none => rfl
    | some found => exact absurd ((mem_order_iff hwell).mpr ⟨found, hfound⟩) hout

end FlareIm.CursorMap
