import FlareIm.Lib.Firsts
import Mathlib.Data.List.Destutter
import Mathlib.Data.List.Sort

namespace Sorted

section Count

variable {Elem : Type*} {p : Elem → Bool} {xs : List Elem}

-- What stands in front of a place in a list is counted by a test that nothing behind it passes.
theorem length_takeWhile (h : xs.Pairwise fun x y => p y = true → p x = true) :
    (xs.takeWhile p).length = xs.countP p := by
  induction xs with
  | nil => rfl
  | cons x xs ih =>
    obtain ⟨hh, hta⟩ := List.pairwise_cons.mp h
    cases hx : p x with
    | true => rw [List.takeWhile_cons_of_pos hx, List.length_cons, ih hta,
        List.countP_cons_of_pos hx]
    | false =>
      have hn : (x :: xs).countP p = 0 := by
        refine List.countP_eq_zero.mpr fun y hy ht => ?_
        rcases List.mem_cons.mp hy with rfl | hy
        · exact absurd (hx.symm.trans ht) (by decide)
        · exact absurd (hx.symm.trans (hh y hy ht)) (by decide)
      rw [List.takeWhile_cons_of_neg (by simp [hx]), hn, List.length_nil]

end Count

section Keys

variable {Elem Key : Type*} [LinearOrder Key] (key : Elem → Key)

-- Elements of one key stay as they stood.
def sortBy (xs : List Elem) : List Elem :=
  xs.insertionSort fun x y => key x ≤ key y

-- Of neighbours of one key the first stays.
def dedupBy (xs : List Elem) : List Elem :=
  xs.destutter fun x y => key x ≠ key y

variable {key} {xs : List Elem}

theorem pairwise_sortBy : (sortBy key xs).Pairwise fun x y => key x ≤ key y := by
  have ht : Std.Total fun x y : Elem => key x ≤ key y := ⟨fun x y => le_total (key x) (key y)⟩
  have htr : IsTrans Elem fun x y => key x ≤ key y := ⟨fun _ _ _ => le_trans⟩
  exact List.pairwise_insertionSort _ xs

theorem find?_orderedInsert (x : Elem) (h : xs.Pairwise fun x y => key x ≤ key y) (k : Key) :
    (xs.orderedInsert (fun x y => key x ≤ key y) x).find? (fun y => key y = k) =
      (x :: xs).find? fun y => key y = k := by
  induction xs with
  | nil => rfl
  | cons y xs ih =>
    obtain ⟨-, ht⟩ := List.pairwise_cons.mp h
    by_cases hle : key x ≤ key y
    · rw [List.orderedInsert_cons, if_pos hle]
    · -- the new element goes past one of a smaller key
      rw [List.orderedInsert_cons, if_neg hle, List.find?_cons, ih ht]
      by_cases hy : key y = k
      · have hx : key x ≠ k := fun hx => hle (hx.trans hy.symm).le
        simp [hx, hy]
      · simp [hy, List.find?_cons]

theorem find?_sortBy (k : Key) :
    (sortBy key xs).find? (fun x => key x = k) = xs.find? fun x => key x = k := by
  induction xs with
  | nil => rfl
  | cons x xs ih =>
    have hin := find?_orderedInsert x (@pairwise_sortBy _ _ _ key xs) k
    rw [sortBy] at ih hin ⊢
    rw [List.insertionSort_cons, hin, List.find?_cons, List.find?_cons, ih]

theorem filter_orderedInsert {p : Elem → Bool} (x : Elem)
    (h : xs.Pairwise fun x y => key x ≤ key y) :
    (xs.orderedInsert (fun x y => key x ≤ key y) x).filter p =
      if p x then (xs.filter p).orderedInsert (fun x y => key x ≤ key y) x else xs.filter p := by
  induction xs with
  | nil => cases hx : p x <;> simp [hx]
  | cons y xs ih =>
    obtain ⟨hy, ht⟩ := List.pairwise_cons.mp h
    by_cases hle : key x ≤ key y
    · rw [List.orderedInsert_cons, if_pos hle]
      cases hx : p x with
      | false => simp [hx]
      | true =>
        -- what is left of the list begins with no smaller key
        rw [List.filter_cons_of_pos hx, if_pos rfl]
        cases hr : (y :: xs).filter p with
        | nil => rfl
        | cons z rest =>
          have hz : z ∈ y :: xs := (List.mem_filter.mp (hr ▸ List.mem_cons_self)).1
          have hb : key x ≤ key z := by
            rcases List.mem_cons.mp hz with rfl | hz
            · exact hle
            · exact hle.trans (hy z hz)
          rw [List.orderedInsert_cons, if_pos hb]
    · rw [List.orderedInsert_cons, if_neg hle]
      cases hk : p y with
      | false =>
        rw [List.filter_cons_of_neg (by simp [hk]), ih ht, List.filter_cons_of_neg (by simp [hk])]
      | true =>
        rw [List.filter_cons_of_pos hk, ih ht, List.filter_cons_of_pos hk]
        cases hx : p x with
        | false => rfl
        | true => simp only [if_true, List.orderedInsert_cons, if_neg hle]

-- What is sorted and then picked is what is picked and then sorted.
theorem filter_sortBy (p : Elem → Bool) : (sortBy key xs).filter p = sortBy key (xs.filter p) := by
  induction xs with
  | nil => rfl
  | cons x xs ih =>
    have hin := @filter_orderedInsert _ _ _ key (sortBy key xs) p x pairwise_sortBy
    rw [sortBy] at ih hin ⊢
    rw [List.insertionSort_cons, hin, ih]
    cases hx : p x with
    | false => rw [List.filter_cons_of_neg (by simp [hx]), if_neg (by simp), sortBy]
    | true => rw [List.filter_cons_of_pos hx, if_pos rfl, sortBy, sortBy, List.insertionSort_cons]

theorem destutter'_eq_firsts {x : Elem} {seen : List Key}
    (h : (x :: xs).Pairwise fun x y => key x ≤ key y) (hs : ∀ k ∈ seen, k ≤ key x) :
    xs.destutter' (fun x y => key x ≠ key y) x = x :: Firsts.firsts key (key x :: seen) xs := by
  induction xs generalizing x seen with
  | nil => rfl
  | cons y xs ih =>
    obtain ⟨hx, ht⟩ := List.pairwise_cons.mp h
    obtain ⟨hy, hr⟩ := List.pairwise_cons.mp ht
    by_cases heq : key x = key y
    · have hc : (x :: xs).Pairwise fun x y => key x ≤ key y :=
        List.pairwise_cons.mpr ⟨fun z hz => hx z (List.mem_cons_of_mem _ hz), hr⟩
      rw [List.destutter'_cons_neg _ (not_not.mpr heq), ih hc hs, Firsts.firsts,
        if_pos (heq ▸ List.mem_cons_self)]
    · have hlt : key x < key y := lt_of_le_of_ne (hx y List.mem_cons_self) heq
      have hn : key y ∉ key x :: seen := by
        intro hm
        rcases List.mem_cons.mp hm with hsa | hold
        · exact heq hsa.symm
        · exact absurd (hs _ hold) (not_le.mpr hlt)
      have hs' : ∀ k ∈ key x :: seen, k ≤ key y := by
        intro k hk
        rcases List.mem_cons.mp hk with rfl | hold
        · exact hlt.le
        · exact (hs k hold).trans hlt.le
      rw [List.destutter'_cons_pos _ heq, ih ht hs', Firsts.firsts, if_neg hn]

theorem dedupBy_eq_firsts (h : xs.Pairwise fun x y => key x ≤ key y) :
    dedupBy key xs = Firsts.firsts key [] xs := by
  cases xs with
  | nil => rfl
  | cons x xs =>
    have hf := destutter'_eq_firsts h fun k (hold : k ∈ []) => absurd hold List.not_mem_nil
    rw [dedupBy, List.destutter_cons', hf, Firsts.firsts, if_neg List.not_mem_nil]

-- After sorting, the first element of each key is left, in the order of the keys.
theorem pairwise_dedupBy_sortBy :
    (dedupBy key (sortBy key xs)).Pairwise fun x y => key x < key y := by
  have hs : (sortBy key xs).Pairwise fun x y => key x ≤ key y := pairwise_sortBy
  have hle : (dedupBy key (sortBy key xs)).Pairwise fun x y => key x ≤ key y :=
    hs.sublist (List.destutter_sublist _ _)
  have hne : (dedupBy key (sortBy key xs)).Pairwise fun x y => key x ≠ key y := by
    rw [dedupBy_eq_firsts hs]
    exact List.pairwise_map.mp (Firsts.nodup_firsts)
  exact (hle.and hne).imp fun h => lt_of_le_of_ne h.1 h.2

theorem dedupBy_sortBy_perm : (dedupBy key (sortBy key xs)).Perm (Firsts.firsts key [] xs) := by
  rw [dedupBy_eq_firsts pairwise_sortBy]
  refine (List.perm_ext_iff_of_nodup (List.Nodup.of_map key Firsts.nodup_firsts)
    (List.Nodup.of_map key Firsts.nodup_firsts)).mpr fun x => ?_
  rw [Firsts.mem_firsts_iff, Firsts.mem_firsts_iff, find?_sortBy]

end Keys

end Sorted
