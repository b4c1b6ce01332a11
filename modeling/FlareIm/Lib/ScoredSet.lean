import Mathlib.Data.Finset.Card
import Mathlib.Data.List.Sort
import Mathlib.Data.List.Nodup

-- Keys with a score, as a sorted set of Redis keeps them.
structure ScoredSet (Key : Type*) where
  entries : List (Key × Nat) := []
  nodup : (entries.map Prod.fst).Nodup := by simp

namespace ScoredSet

theorem nodup_nil {Key : Type*} : (([] : List (Key × Nat)).map Prod.fst).Nodup := List.nodup_nil

theorem nodup_filter {Key : Type*} {entries : List (Key × Nat)}
    (h : (entries.map Prod.fst).Nodup) (p : Key × Nat → Bool) :
    ((entries.filter p).map Prod.fst).Nodup :=
  h.sublist (List.filter_sublist.map Prod.fst)

variable {Key : Type*} [LinearOrder Key]

def score (set : ScoredSet Key) (key : Key) : Option Nat := set.entries.lookup key

def remove (set : ScoredSet Key) (key : Key) : ScoredSet Key where
  entries := set.entries.filter (·.1 ≠ key)
  nodup := nodup_filter set.nodup _

-- A key that is there already gets the new score.
def add (set : ScoredSet Key) (key : Key) (score : Nat) : ScoredSet Key where
  entries := (key, score) :: set.entries.filter (·.1 ≠ key)
  nodup := by
    refine List.nodup_cons.mpr ⟨?_, nodup_filter set.nodup _⟩
    intro hmem
    obtain ⟨entry, hentry, hkey⟩ := List.mem_map.mp hmem
    exact absurd hkey (by simpa using (List.mem_filter.mp hentry).2)

-- The order of a sorted set: by score, and by key among equal scores.
def before (a b : Key × Nat) : Prop := a.2 < b.2 ∨ (a.2 = b.2 ∧ a.1 ≤ b.1)

instance : DecidableRel (before : Key × Nat → Key × Nat → Prop) :=
  fun _ _ => inferInstanceAs (Decidable (_ ∨ _ ∧ _))

-- The first keys whose score is not above the given one.
def due (set : ScoredSet Key) (now limit : Nat) : List Key :=
  (((set.entries.filter (·.2 ≤ now)).insertionSort before).take limit).map Prod.fst

-- The keys that stand before a key with the score.
def ahead (set : ScoredSet Key) (key : Key) (score : Nat) : Finset Key :=
  ((set.entries.filter fun entry => before entry (key, score) ∧ entry.1 ≠ key).map
    Prod.fst).toFinset

section Scores

variable {set : ScoredSet Key} {key other : Key} {n : Nat}

theorem lookup_filter_of_ne {entries : List (Key × Nat)} (h : other ≠ key) :
    (entries.filter (·.1 ≠ key)).lookup other = entries.lookup other := by
  induction entries with
  | nil => rfl
  | cons entry rest ih =>
    obtain ⟨first, value⟩ := entry
    by_cases hf : first = key
    · have hne : (other == first) = false := by simp [hf, h]
      rw [List.filter_cons_of_neg (by simp [hf]), ih, List.lookup_cons, hne]
    · rw [List.filter_cons_of_pos (by simp [hf]), List.lookup_cons, List.lookup_cons, ih]

theorem lookup_filter_self {entries : List (Key × Nat)} :
    (entries.filter (·.1 ≠ key)).lookup key = none := by
  rw [List.lookup_eq_none_iff]
  intro entry hen
  have hne : entry.1 ≠ key := by simpa using (List.mem_filter.mp hen).2
  simpa using hne.symm

@[simp] theorem score_remove_self : (set.remove key).score key = none := lookup_filter_self

theorem score_remove_of_ne (h : other ≠ key) : (set.remove key).score other = set.score other :=
  lookup_filter_of_ne h

@[simp] theorem score_add_self : (set.add key n).score key = some n := by
  simp [score, add]

theorem score_add_of_ne (h : other ≠ key) : (set.add key n).score other = set.score other := by
  have hne : (other == key) = false := by simpa using h
  rw [score, add, List.lookup_cons, hne]
  exact lookup_filter_of_ne h

theorem mem_entries_iff : (key, n) ∈ set.entries ↔ set.score key = some n := by
  obtain ⟨entries, hno⟩ := set
  simp only [score]
  induction entries with
  | nil => simp
  | cons entry rest ih =>
    obtain ⟨first, value⟩ := entry
    obtain ⟨hf, hr⟩ := List.nodup_cons.mp hno
    rw [List.mem_cons, ih hr, List.lookup_cons]
    by_cases hk : key = first
    · subst hk
      have hn : rest.lookup key = none := by
        rw [List.lookup_eq_none_iff]
        intro entry hen
        have hne : key ≠ entry.1 := by
          rintro rfl
          exact hf (List.mem_map.mpr ⟨entry, hen, rfl⟩)
        simpa using hne
      simp [hn, eq_comm]
    · have hne : (key == first) = false := by simpa using hk
      simp [hne, hk]

theorem mem_ahead : other ∈ set.ahead key n ↔
    ∃ m, set.score other = some m ∧ before (other, m) (key, n) ∧ other ≠ key := by
  simp only [ahead, List.mem_toFinset, List.mem_map, List.mem_filter, decide_eq_true_eq]
  constructor
  · rintro ⟨⟨first, m⟩, ⟨hm, hb, hne⟩, rfl⟩
    exact ⟨m, mem_entries_iff.mp hm, hb, hne⟩
  · rintro ⟨m, hs, hb, hne⟩
    exact ⟨(other, m), ⟨mem_entries_iff.mpr hs, hb, hne⟩, rfl⟩

end Scores

section Due

variable {set : ScoredSet Key} {key other : Key} {n now limit : Nat}

theorem before_total (a b : Key × Nat) : before a b ∨ before b a := by
  unfold before
  rcases Nat.lt_trichotomy a.2 b.2 with h | h | h
  · exact .inl (.inl h)
  · rcases le_total a.1 b.1 with hle | hle
    · exact .inl (.inr ⟨h, hle⟩)
    · exact .inr (.inr ⟨h.symm, hle⟩)
  · exact .inr (.inl h)

theorem before_trans {a b c : Key × Nat} (hab : before a b) (hbc : before b c) : before a c := by
  rcases hab with hab | ⟨hab, hle⟩ <;> rcases hbc with hbc | ⟨hbc, hle'⟩
  · exact .inl (hab.trans hbc)
  · exact .inl (hbc ▸ hab)
  · exact .inl (hab ▸ hbc)
  · exact .inr ⟨hab.trans hbc, hle.trans hle'⟩

instance : Std.Total (before : Key × Nat → Key × Nat → Prop) := ⟨before_total⟩

instance : IsTrans (Key × Nat) before := ⟨fun _ _ _ => before_trans⟩

theorem score_of_mem_due (h : key ∈ set.due now limit) : ∃ m, set.score key = some m ∧ m ≤ now := by
  obtain ⟨⟨first, m⟩, ht, rfl⟩ := List.mem_map.mp h
  have hs := List.mem_of_mem_take ht
  rw [List.mem_insertionSort, List.mem_filter] at hs
  exact ⟨m, mem_entries_iff.mp hs.1, by simpa using hs.2⟩

-- A key whose turn it is and that is left out stands behind all that are taken.
theorem before_of_not_mem_due (hsc : set.score key = some n) (hn : n ≤ now)
    (ho : key ∉ set.due now limit) (hdu : other ∈ set.due now limit) :
    ∃ m, set.score other = some m ∧ before (other, m) (key, n) ∧ other ≠ key := by
  have hk : (key, n) ∈ (set.entries.filter (·.2 ≤ now)).insertionSort before := by
    rw [List.mem_insertionSort, List.mem_filter]
    exact ⟨mem_entries_iff.mpr hsc, by simpa using hn⟩
  have hdr : (key, n) ∈ ((set.entries.filter (·.2 ≤ now)).insertionSort before).drop limit := by
    rw [← List.take_append_drop limit (List.insertionSort _ _), List.mem_append] at hk
    rcases hk with ht | hdr
    · exact absurd (List.mem_map_of_mem (f := Prod.fst) ht) ho
    · exact hdr
  obtain ⟨⟨first, m⟩, ht, rfl⟩ := List.mem_map.mp hdu
  have hs : ((set.entries.filter (·.2 ≤ now)).insertionSort before).Pairwise before :=
    List.pairwise_insertionSort before _
  rw [← List.take_append_drop limit (List.insertionSort _ _), List.pairwise_append] at hs
  have hm := List.mem_of_mem_take ht
  rw [List.mem_insertionSort, List.mem_filter] at hm
  refine ⟨m, mem_entries_iff.mp hm.1, hs.2.2 _ ht _ hdr, ?_⟩
  rintro rfl
  exact ho hdu

-- When one key is due, some key is taken.
theorem due_ne_nil (hs : set.score key = some n) (hno : n ≤ now) (hl : 0 < limit) :
    set.due now limit ≠ [] := by
  intro hn
  have hk : (key, n) ∈ (set.entries.filter (·.2 ≤ now)).insertionSort before := by
    rw [List.mem_insertionSort, List.mem_filter]
    exact ⟨mem_entries_iff.mpr hs, by simpa using hno⟩
  unfold due at hn
  rw [List.map_eq_nil_iff, List.take_eq_nil_iff] at hn
  rcases hn with hz | hem
  · omega
  · rw [hem] at hk
    exact absurd hk List.not_mem_nil

-- A due key that is left out moves up when the keys that are taken are put behind it.
theorem card_ahead_lt {later : ScoredSet Key} (hs : set.score key = some n) (hn : n ≤ now)
    (hl : 0 < limit) (hou : key ∉ set.due now limit)
    (hsa : ∀ other ∉ set.due now limit, later.score other = set.score other)
    (hbe : ∀ other ∈ set.due now limit, ∀ m, later.score other = some m →
      ¬ before (other, m) (key, n)) : (later.ahead key n).card < (set.ahead key n).card := by
  refine Finset.card_lt_card ⟨?_, ?_⟩
  · intro other ho
    obtain ⟨m, hm, hb, hne⟩ := mem_ahead.mp ho
    by_cases hme : other ∈ set.due now limit
    · exact absurd hb (hbe other hme m hm)
    · rw [hsa other hme] at hm
      exact mem_ahead.mpr ⟨m, hm, hb, hne⟩
  · intro hsu
    obtain ⟨taken, ht⟩ := List.exists_mem_of_ne_nil _ (due_ne_nil hs hn hl)
    have ha : taken ∈ set.ahead key n :=
      mem_ahead.mpr (before_of_not_mem_due hs hn hou ht)
    obtain ⟨m, hm, hb, -⟩ := mem_ahead.mp (hsu ha)
    exact hbe taken ht m hm hb

end Due

end ScoredSet
