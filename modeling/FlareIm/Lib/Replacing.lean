import Mathlib.Algebra.Order.Ring.Int
import Mathlib.Data.List.Pairwise
import Mathlib.Data.List.Induction
import Mathlib.Data.List.Nodup

namespace Replacing

variable {Elem Key : Type*} [LinearOrder Key] (key : Elem → Key)

-- An element takes the place of the first one with its key.
def replaced (xs : List Elem) (x : Elem) : List Elem :=
  match xs.findIdx? fun y => key y == key x with
  | some index => xs.set index x
  | none => xs ++ [x]

def replace (xs : List Elem) (x : Elem) : List Elem :=
  (replaced key xs x).mergeSort fun a b => key a ≤ key b

variable {key} {xs : List Elem} {x y : Elem}

def Ordered (key : Elem → Key) (xs : List Elem) : Prop := xs.Pairwise fun a b => key a < key b

theorem Ordered.nodup (h : Ordered key xs) : (xs.map key).Nodup :=
  List.pairwise_map.mpr (h.imp fun hlt => ne_of_lt hlt)

theorem set_eq_map (hn : (xs.map key).Nodup) {index : Nat} (hin : index < xs.length)
    (hk : key xs[index] = key x) :
    xs.set index x = xs.map fun y => if key y = key x then x else y := by
  apply List.ext_getElem
  · simp
  · intro other ho hm
    have hl : other < xs.length := by simpa using hm
    rw [List.getElem_set, List.getElem_map]
    by_cases hs : index = other
    · subst hs
      rw [if_pos rfl, if_pos hk]
    · have hne : key xs[other] ≠ key x := by
        intro heu
        apply hs
        have hlf : index < (xs.map key).length := by simpa using hin
        have hr : other < (xs.map key).length := by simpa using hl
        have hv : (xs.map key)[index] = (xs.map key)[other] := by
          rw [List.getElem_map, List.getElem_map, hk, heu]
        exact hn.getElem_inj_iff.mp hv
      rw [if_neg hs, if_neg hne]

section Replaced

theorem mem_replaced (hn : (xs.map key).Nodup) :
    y ∈ replaced key xs x ↔ y = x ∨ (y ∈ xs ∧ key y ≠ key x) := by
  unfold replaced
  split
  · rename_i index hf
    obtain ⟨hin, hk, -⟩ := List.findIdx?_eq_some_iff_getElem.mp hf
    rw [set_eq_map hn hin (beq_iff_eq.mp hk), List.mem_map]
    constructor
    · rintro ⟨z, hz, hy⟩
      split at hy
      · exact Or.inl hy.symm
      · rename_i hne
        exact Or.inr (hy ▸ ⟨hz, hne⟩)
    · rintro (rfl | ⟨hy, hne⟩)
      · exact ⟨xs[index], List.getElem_mem hin, if_pos (beq_iff_eq.mp hk)⟩
      · exact ⟨y, hy, if_neg hne⟩
  · rename_i hf
    rw [List.mem_append, List.mem_singleton]
    constructor
    · rintro (hy | hy)
      · exact Or.inr ⟨hy, by simpa using List.findIdx?_eq_none_iff.mp hf y hy⟩
      · exact Or.inl hy
    · rintro (hy | ⟨hy, -⟩)
      · exact Or.inr hy
      · exact Or.inl hy

theorem nodup_replaced (hn : (xs.map key).Nodup) : ((replaced key xs x).map key).Nodup := by
  unfold replaced
  split
  · rename_i index hf
    obtain ⟨hin, hke, -⟩ := List.findIdx?_eq_some_iff_getElem.mp hf
    have hs : (xs.set index x).map key = xs.map key := by
      have hm : index < (xs.map key).length := by simpa using hin
      have hget : key x = (xs.map key)[index] := by
        rw [List.getElem_map, beq_iff_eq.mp hke]
      rw [List.map_set, hget, List.set_getElem_self]
    rw [hs]
    exact hn
  · rename_i hf
    rw [List.map_append, List.map_singleton]
    refine List.nodup_append.mpr ⟨hn, List.nodup_singleton _, ?_⟩
    rintro k hk _ hx rfl
    obtain ⟨y, hy, rfl⟩ := List.mem_map.mp hk
    have hne : key y ≠ key x := by simpa using List.findIdx?_eq_none_iff.mp hf y hy
    exact hne (List.mem_singleton.mp hx)

end Replaced

section Replace

theorem replace_perm : (replace key xs x).Perm (replaced key xs x) := List.mergeSort_perm _ _

theorem mem_replace (h : Ordered key xs) :
    y ∈ replace key xs x ↔ y = x ∨ (y ∈ xs ∧ key y ≠ key x) := by
  rw [replace_perm.mem_iff, mem_replaced h.nodup]

theorem ordered_replace (h : Ordered key xs) : Ordered key (replace key xs x) := by
  have hs : (replace key xs x).Pairwise fun a b => key a ≤ key b := by
    have hm := @List.pairwise_mergeSort _ (fun a b => decide (key a ≤ key b))
      (fun a b c hab hbc => by simpa using le_trans (of_decide_eq_true hab) (of_decide_eq_true hbc))
      (fun a b => by simpa using le_total (key a) (key b)) (replaced key xs x)
    exact hm.imp of_decide_eq_true
  have hn : ((replace key xs x).map key).Nodup :=
    (replace_perm.map key).nodup_iff.mpr (nodup_replaced h.nodup)
  exact (hs.and (List.pairwise_map.mp hn)).imp fun h => lt_of_le_of_ne h.1 h.2

theorem ordered_foldl (ys : List Elem) (h : Ordered key xs) :
    Ordered key (ys.foldl (replace key) xs) := by
  induction ys generalizing xs with
  | nil => exact h
  | cons y ys ih => exact ih (ordered_replace h)

-- Of each key the last element is left.
theorem mem_foldl_replace (xs : List Elem) :
    y ∈ xs.foldl (replace key) [] ↔ xs.reverse.find? (fun x => key x = key y) = some y := by
  induction xs using List.reverseRecOn with
  | nil => simp
  | append_singleton xs x ih =>
    have ho : Ordered key (xs.foldl (replace key) []) := ordered_foldl xs List.Pairwise.nil
    rw [List.foldl_append, List.foldl_cons, List.foldl_nil, mem_replace ho, ih,
      List.reverse_append, List.reverse_singleton, List.singleton_append, List.find?_cons]
    by_cases hk : key x = key y
    · simp [hk, eq_comm]
    · have hne : y ≠ x := fun hyx => hk (by rw [hyx])
      simp [hk, hne, Ne.symm hk]

end Replace

end Replacing
