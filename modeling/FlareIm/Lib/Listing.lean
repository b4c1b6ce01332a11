import Mathlib.Data.List.Defs
import Mathlib.Data.List.Forall2
import Mathlib.Data.List.Sort
import Mathlib.Data.List.Dedup
import Mathlib.Data.String.Basic

namespace Listing

open List (cons_eq_cons map_cons mem_cons mem_cons_of_mem mem_cons_self not_mem_nil pairwise_cons take_succ_cons toChunks)

variable {Key : Type*} [LinearOrder Key]

-- The elements of a list as an ordered set lists them: once each, in increasing order.
def distinct (keys : List Key) : List Key :=
  keys.dedup.insertionSort (· ≤ ·)

@[simp] theorem mem_distinct {key : Key} {keys : List Key} :
    key ∈ distinct keys ↔ key ∈ keys := by
  simp [distinct]

theorem nodup_distinct (keys : List Key) : (distinct keys).Nodup :=
  (List.perm_insertionSort (· ≤ ·) keys.dedup).nodup_iff.mpr (List.nodup_dedup keys)

theorem distinct_idem (keys : List Key) : distinct (distinct keys) = distinct keys := by
  have hs : (distinct keys).Pairwise (· ≤ ·) := List.pairwise_insertionSort (· ≤ ·) _
  conv_lhs => rw [distinct, List.dedup_eq_self.mpr (nodup_distinct keys)]
  exact hs.insertionSort_eq

theorem foldl_max_le {numbers : List Nat} {start bound : Nat} (hs : start ≤ bound)
    (hb : ∀ n ∈ numbers, n ≤ bound) : numbers.foldl max start ≤ bound := by
  induction numbers generalizing start with
  | nil => exact hs
  | cons n rest ih =>
    exact ih (Nat.max_le.mpr ⟨hs, hb n mem_cons_self⟩)
      fun m hm => hb m (mem_cons_of_mem _ hm)

section Chunks

variable {Elem : Type*}

private theorem toChunks_go_flatten (n : Nat) (xs : List Elem) (acc : Array Elem)
    (done : Array (List Elem)) :
    (toChunks.go n xs acc done).flatten = done.toList.flatten ++ acc.toList ++ xs := by
  induction xs generalizing acc done with
  | nil => simp [toChunks.go]
  | cons x xs ih =>
    unfold toChunks.go
    split <;> simp [ih]

theorem toChunks_flatten (n : Nat) (xs : List Elem) : (xs.toChunks n).flatten = xs := by
  cases xs with
  | nil => cases n <;> rfl
  | cons x xs =>
    cases n with
    | zero => simp [toChunks]
    | succ n => simpa [toChunks] using toChunks_go_flatten (n + 1) xs #[x] #[]

theorem mem_of_mem_toChunks {n : Nat} {xs chunk : List Elem} {x : Elem}
    (hc : chunk ∈ xs.toChunks n) (hx : x ∈ chunk) : x ∈ xs := by
  rw [← toChunks_flatten n xs]
  exact List.mem_flatten.mpr ⟨chunk, hc, hx⟩

end Chunks

section Keys

variable {Elem Index : Type*} {f : Elem → Option Index}

-- Elements with distinct keys are determined by them.
theorem eq_of_nodup_filterMap {elems : List Elem} (hn : (elems.filterMap f).Nodup)
    {a b : Elem} {index : Index} (ha : a ∈ elems) (hb : b ∈ elems) (hfa : f a = some index)
    (hfb : f b = some index) : a = b := by
  induction elems with
  | nil => exact absurd ha not_mem_nil
  | cons head rest ih =>
    have hr : (rest.filterMap f).Nodup :=
      hn.sublist ((List.sublist_cons_self head rest).filterMap f)
    have hh : ∀ {c}, f head = some index → c ∈ rest → f c = some index → False := by
      intro c hf hc hfc
      rw [List.filterMap_cons_some hf] at hn
      exact (List.nodup_cons.mp hn).1 (List.mem_filterMap.mpr ⟨c, hc, hfc⟩)
    rcases mem_cons.mp ha with rfl | ha'
    · rcases mem_cons.mp hb with rfl | hb'
      · rfl
      · exact (hh hfa hb' hfb).elim
    · rcases mem_cons.mp hb with rfl | hb'
      · exact (hh hfb ha' hfa).elim
      · exact ih hr ha' hb'

end Keys

section Related

variable {A B : Type*} {R : A → B → Prop} {as : List A} {bs : List B}

-- Each element of one of two related lists is related to an element of the other.
theorem exists_right_of_mem (h : List.Forall₂ R as bs) {a : A} (ha : a ∈ as) : ∃ b ∈ bs, R a b := by
  induction h with
  | nil => exact absurd ha not_mem_nil
  | @cons head b as bs hh _ ih =>
    rcases mem_cons.mp ha with rfl | hr
    · exact ⟨b, mem_cons_self, hh⟩
    · obtain ⟨b', hb, hre⟩ := ih hr
      exact ⟨b', mem_cons_of_mem _ hb, hre⟩

theorem exists_left_of_mem (h : List.Forall₂ R as bs) {b : B} (hb : b ∈ bs) :
    ∃ a ∈ as, R a b :=
  exists_right_of_mem (R := flip R) h.flip hb

end Related

theorem eq_of_map_eq {A B : Type*} {f : A → B} {xs ys : List A} (h : xs.map f = ys.map f)
    (hin : ∀ x ∈ xs, ∀ y ∈ ys, f x = f y → x = y) : xs = ys := by
  induction xs generalizing ys with
  | nil => exact (List.map_eq_nil_iff.mp h.symm).symm
  | cons x xs ih =>
    cases ys with
    | nil => cases h
    | cons y ys =>
      obtain ⟨hh, ht⟩ := List.cons.inj h
      rw [hin x mem_cons_self y mem_cons_self hh,
        ih ht fun x hx y hy => hin x (mem_cons_of_mem _ hx) y (mem_cons_of_mem _ hy)]

-- Some of the elements, with the keys of all of them, are all of them.
theorem perm_of_map_perm {A B : Type*} {f : A → B} {xs ys : List A} (hn : (ys.map f).Nodup)
    (hs : xs ⊆ ys) (h : (xs.map f).Perm (ys.map f)) : xs.Perm ys := by
  refine (List.perm_ext_iff_of_nodup (List.Nodup.of_map _ (h.nodup_iff.mpr hn))
    (List.Nodup.of_map _ hn)).mpr fun y => ⟨fun hy => hs hy, fun hy => ?_⟩
  obtain ⟨x, hx, hsa⟩ := List.mem_map.mp (h.mem_iff.mpr (List.mem_map_of_mem hy))
  exact List.inj_on_of_nodup_map hn (hs hx) hy hsa ▸ hx

section Ascending

variable {Elem : Type*} {number : Elem → Nat} {elems : List Elem}

-- With one number to an element at most, those up to `k` past the start are among the first `k`.
theorem mem_take_of_le_add
    (ha : elems.Pairwise fun elem other => number elem < number other) {start k : Nat}
    (hs : ∀ elem ∈ elems, start < number elem) {elem : Elem} (hm : elem ∈ elems)
    (hle : number elem ≤ start + k) : elem ∈ elems.take k := by
  induction elems generalizing start k with
  | nil => exact absurd hm not_mem_nil
  | cons head rest ih =>
    have hp := hs elem hm
    have hh := hs head mem_cons_self
    obtain ⟨hb, hr⟩ := pairwise_cons.mp ha
    obtain ⟨k, rfl⟩ : ∃ smaller, k = smaller + 1 := ⟨k - 1, by omega⟩
    rw [take_succ_cons]
    rcases mem_cons.mp hm with rfl | ht
    · exact mem_cons_self
    · apply mem_cons_of_mem
      apply ih hr hb ht
      omega

theorem length_le_of_ascending
    (ha : elems.Pairwise fun elem other => number elem < number other) {start k : Nat}
    (hs : ∀ elem ∈ elems, start < number elem) (hen : ∀ elem ∈ elems, number elem ≤ start + k) :
    elems.length ≤ k := by
  induction elems generalizing start k with
  | nil => exact Nat.zero_le k
  | cons head rest ih =>
    have hp := hs head mem_cons_self
    have hbo := hen head mem_cons_self
    obtain ⟨hb, hr⟩ := pairwise_cons.mp ha
    have hl := ih hr (k := start + k - number head) hb fun elem hm => by
      have h := hen elem (mem_cons_of_mem _ hm)
      omega
    simp only [List.length_cons]
    omega

theorem mem_take_of_le (ha : elems.Pairwise fun elem other => number elem < number other) {k : Nat}
    {elem last : Elem} (hm : elem ∈ elems) (hl : last ∈ elems.take k)
    (hle : number elem ≤ number last) : elem ∈ elems.take k := by
  induction elems generalizing k with
  | nil => exact absurd hm not_mem_nil
  | cons head rest ih =>
    obtain ⟨hb, hr⟩ := pairwise_cons.mp ha
    cases k with
    | zero => exact absurd hl not_mem_nil
    | succ k =>
      rw [take_succ_cons] at hl ⊢
      rcases mem_cons.mp hm with rfl | ht
      · exact mem_cons_self
      · rcases mem_cons.mp hl with rfl | hl
        · have hlt := hb elem ht
          omega
        · exact mem_cons_of_mem _ (ih hr ht hl)

theorem eq_of_number_eq (ha : elems.Pairwise fun elem other => number elem < number other)
    {elem other : Elem} (hm : elem ∈ elems) (ho : other ∈ elems)
    (h : number elem = number other) : elem = other := by
  induction elems with
  | nil => exact absurd hm not_mem_nil
  | cons head rest ih =>
    obtain ⟨hb, hr⟩ := pairwise_cons.mp ha
    rcases mem_cons.mp hm with rfl | ht
    · rcases mem_cons.mp ho with rfl | ho'
      · rfl
      · have hlt := hb other ho'
        omega
    · rcases mem_cons.mp ho with rfl | ho'
      · have hlt := hb elem ht
        omega
      · exact ih hr ht ho'

theorem filter_number_eq
    (ha : elems.Pairwise fun elem other => number elem < number other) {elem : Elem}
    (hm : elem ∈ elems) : elems.filter (fun other => number other == number elem) = [elem] := by
  induction elems with
  | nil => exact absurd hm not_mem_nil
  | cons head rest ih =>
    obtain ⟨hb, hr⟩ := pairwise_cons.mp ha
    rcases mem_cons.mp hm with rfl | ht
    · have hn : rest.filter (fun other => number other == number elem) = [] := by
        rw [List.filter_eq_nil_iff]
        intro other ho
        have hlt := hb other ho
        simp only [beq_iff_eq]
        omega
      rw [List.filter_cons, if_pos (beq_self_eq_true _), hn]
    · have hlt := hb elem ht
      rw [List.filter_cons_of_neg (by simp only [beq_iff_eq]; omega)]
      exact ih hr ht

-- The elements of a smaller number are those that stand before.
theorem filter_lt_eq_take
    (hac : elems.Pairwise fun elem other => number elem < number other) {k : Nat}
    {elem : Elem} {rest : List Elem} (hdr : elems.drop k = elem :: rest) :
    elems.filter (fun other => decide (number other < number elem)) = elems.take k := by
  have hs := List.take_append_drop k elems
  rw [hdr] at hs
  rw [← hs, List.pairwise_append] at hac
  obtain ⟨-, hr, hf⟩ := hac
  have hb : (elems.take k).filter (fun other => decide (number other < number elem)) =
      elems.take k :=
    List.filter_eq_self.mpr fun other hm =>
      decide_eq_true (hf other hm elem mem_cons_self)
  have ha : (elem :: rest).filter (fun other => decide (number other < number elem)) = [] := by
    rw [List.filter_eq_nil_iff]
    intro other hm
    rw [decide_eq_true_eq, Nat.not_lt]
    rcases mem_cons.mp hm with rfl | ht
    · exact Nat.le_refl _
    · exact (pairwise_cons.mp hr).1 other ht |>.le
  calc elems.filter (fun other => decide (number other < number elem))
      = (elems.take k ++ elem :: rest).filter
          (fun other => decide (number other < number elem)) := by rw [hs]
    _ = elems.take k := by rw [List.filter_append, hb, ha, List.append_nil]

-- The least number is the first.
theorem foldl_min_of_head {elem : Elem} {rest : List Elem} {start : Nat}
    (ha : (elem :: rest).Pairwise fun elem other => number elem < number other)
    (hs : number elem ≤ start) : ((elem :: rest).map number).foldl min start = number elem := by
  have hk : ∀ others : List Elem, (∀ other ∈ others, number elem < number other) →
      (others.map number).foldl min (number elem) = number elem := by
    intro others hoh
    induction others with
    | nil => rfl
    | cons other others ih =>
      have hlt := hoh other mem_cons_self
      rw [map_cons, List.foldl_cons, Nat.min_eq_left hlt.le]
      exact ih fun other ho => hoh other (mem_cons_of_mem _ ho)
  rw [map_cons, List.foldl_cons, Nat.min_eq_right hs]
  exact hk rest (pairwise_cons.mp ha).1

theorem find?_number_eq_some
    (hu : ∀ elem ∈ elems, ∀ other ∈ elems, number elem = number other → elem = other)
    {n : Nat} {elem : Elem} :
    elems.find? (fun other => number other == n) = some elem ↔ elem ∈ elems ∧ number elem = n := by
  constructor
  · intro h
    exact ⟨List.mem_of_find?_eq_some h, by simpa using List.find?_some h⟩
  · rintro ⟨hm, rfl⟩
    cases hf : elems.find? fun other => number other == number elem with
    | none => exact absurd (List.find?_eq_none.mp hf elem hm) (by simp)
    | some found =>
      have hn : number found = number elem := by simpa using List.find?_some hf
      rw [hu found (List.mem_of_find?_eq_some hf) elem hm hn]

-- Two elements stand in the order of their numbers.
theorem pair_sublist_of_lt (hac : elems.Pairwise fun elem other => number elem < number other)
    {elem other : Elem} (hm : elem ∈ elems) (ho : other ∈ elems)
    (hlt : number elem < number other) : [elem, other].Sublist elems := by
  induction elems with
  | nil => exact absurd hm not_mem_nil
  | cons head rest ih =>
    obtain ⟨hb, hr⟩ := pairwise_cons.mp hac
    rcases mem_cons.mp ho with rfl | ha
    · rcases mem_cons.mp hm with rfl | hm
      · exact absurd hlt (Nat.lt_irrefl _)
      · exact absurd (hb elem hm) (Nat.lt_asymm hlt)
    · rcases mem_cons.mp hm with rfl | hm
      · exact (List.singleton_sublist.mpr ha).cons_cons elem
      · exact (ih hr hm ha).cons head

end Ascending

section Pairs

variable {Elem : Type*} {elems : List Elem} {x y : Elem}

theorem pair_sublist_or (hne : x ≠ y) (hx : x ∈ elems) (hy : y ∈ elems) :
    [x, y].Sublist elems ∨ [y, x].Sublist elems := by
  induction elems with
  | nil => exact absurd hx not_mem_nil
  | cons head rest ih =>
    rcases mem_cons.mp hx with rfl | hxr
    · have hyr := (mem_cons.mp hy).resolve_left (Ne.symm hne)
      exact Or.inl ((List.singleton_sublist.mpr hyr).cons_cons x)
    · rcases mem_cons.mp hy with rfl | hyr
      · exact Or.inr ((List.singleton_sublist.mpr hxr).cons_cons y)
      · exact (ih hxr hyr).imp (·.cons head) (·.cons head)

theorem pair_sublist_asymm (hn : elems.Nodup) (h : [x, y].Sublist elems) :
    ¬[y, x].Sublist elems := by
  induction elems with
  | nil => exact fun _ => absurd (h.subset mem_cons_self) not_mem_nil
  | cons head rest ih =>
    obtain ⟨hh, hr⟩ := List.nodup_cons.mp hn
    intro hb
    rcases List.sublist_cons_iff.mp h with hin | ⟨tail, heq, ht⟩
    · rcases List.sublist_cons_iff.mp hb with hin' | ⟨tail', heq', ht'⟩
      · exact ih hr hin hin'
      · obtain ⟨rfl, rfl⟩ := cons_eq_cons.mp heq'
        exact hh (hin.subset (by simp))
    · obtain ⟨rfl, rfl⟩ := cons_eq_cons.mp heq
      rcases List.sublist_cons_iff.mp hb with hin' | ⟨tail', heq', ht'⟩
      · exact hh (hin'.subset (by simp))
      · obtain ⟨rfl, rfl⟩ := cons_eq_cons.mp heq'
        exact hh (ht.subset mem_cons_self)

end Pairs

section UpTo

variable {Elem : Type*} (stop : Elem → Bool)

-- The elements up to the first one that stops, with that one.
def upTo : List Elem → List Elem
  | [] => []
  | elem :: rest => elem :: if stop elem then [] else upTo rest

variable {elems : List Elem}

theorem upTo_initial : (upTo stop elems).IsPrefix elems := by
  induction elems with
  | nil => exact List.prefix_rfl
  | cons elem rest ih =>
    rw [upTo]
    split
    · exact List.prefix_append [elem] rest
    · exact List.prefix_cons_inj elem |>.mpr ih

variable {stop}

theorem mem_upTo {number : Elem → Nat}
    (ha : elems.Pairwise fun elem other => number elem < number other) {elem : Elem} :
    elem ∈ upTo stop elems ↔
      elem ∈ elems ∧ ∀ other ∈ elems, number other < number elem → stop other = false := by
  induction elems with
  | nil => simp [upTo]
  | cons head rest ih =>
    obtain ⟨hb, hr⟩ := pairwise_cons.mp ha
    rw [upTo, mem_cons, mem_cons]
    constructor
    · rintro (rfl | hm)
      · refine ⟨Or.inl rfl, fun other ho hlt => ?_⟩
        rcases mem_cons.mp ho with rfl | ho
        · exact absurd hlt (Nat.lt_irrefl _)
        · exact absurd (hb other ho) (Nat.lt_asymm hlt)
      · split at hm
        · exact absurd hm not_mem_nil
        · rename_i hs
          obtain ⟨hm, hf⟩ := (ih hr).mp hm
          refine ⟨Or.inr hm, fun other ho hlt => ?_⟩
          rcases mem_cons.mp ho with rfl | ho
          · exact Bool.eq_false_iff.mpr hs
          · exact hf other ho hlt
    · rintro ⟨rfl | hm, hf⟩
      · exact Or.inl rfl
      · right
        rw [hf head mem_cons_self (hb elem hm), if_neg Bool.false_ne_true]
        exact (ih hr).mpr ⟨hm, fun other ho => hf other (mem_cons_of_mem _ ho)⟩

end UpTo

end Listing
