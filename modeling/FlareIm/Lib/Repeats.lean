import Mathlib.Data.List.Sort
import Mathlib.Order.Basic

namespace Repeats

section Passes

variable {σ : Type*}

-- One pass over a list of updates, of which those that are marked take effect.
def passOver : List (σ → σ) → (Nat → Bool) → σ → σ
  | [], _, s => s
  | update :: updates, marks, s =>
    passOver updates (fun i => marks (i + 1)) (if marks 0 then update s else s)

structure Settled (updates : List (σ → σ)) : Prop where
  idempotent : ∀ update ∈ updates, ∀ s, update (update s) = update s
  commute : updates.Pairwise fun a b => ∀ s, a (b s) = b (a s)

theorem passOver_none (updates : List (σ → σ)) (s : σ) :
    passOver updates (fun _ => false) s = s := by
  induction updates generalizing s with
  | nil => rfl
  | cons update updates ih => exact ih s

theorem Settled.tail {update : σ → σ} {updates : List (σ → σ)}
    (hs : Settled (update :: updates)) : Settled updates where
  idempotent other ho := hs.idempotent other (List.mem_cons_of_mem update ho)
  commute := (List.pairwise_cons.mp hs.commute).2

-- An update that commutes with all the others can be made before or after them.
theorem passOver_comm {update : σ → σ} {updates : List (σ → σ)}
    (hc : ∀ other ∈ updates, ∀ s, update (other s) = other (update s))
    (marks : Nat → Bool) (s : σ) :
    update (passOver updates marks s) = passOver updates marks (update s) := by
  induction updates generalizing marks s with
  | nil => rfl
  | cons other updates ih =>
    have hr := ih fun another ha => hc another (List.mem_cons_of_mem other ha)
    rw [passOver, passOver, hr]
    cases marks 0 with
    | false => rfl
    | true =>
      simp only [if_true]
      rw [hc other List.mem_cons_self]

-- Two passes are one, with the updates that took effect in either.
theorem passOver_passOver {updates : List (σ → σ)} (hs : Settled updates)
    (first second : Nat → Bool) (s : σ) : passOver updates second (passOver updates first s) =
      passOver updates (fun i => first i || second i) s := by
  induction updates generalizing first second s with
  | nil => rfl
  | cons update updates ih =>
    have hc : ∀ other ∈ updates, ∀ s, update (other s) = other (update s) :=
      (List.pairwise_cons.mp hs.commute).1
    rw [passOver, passOver, passOver]
    cases second 0 with
    | false =>
      rw [Bool.or_false]
      exact ih hs.tail _ _ _
    | true =>
      simp only [if_true, Bool.or_true]
      rw [passOver_comm hc, ih hs.tail]
      cases first 0 with
      | false => rfl
      | true =>
        simp only [if_true]
        rw [hs.idempotent update List.mem_cons_self]

end Passes

section Ordered

variable {ι σ τ : Type*} {act : σ → ι → σ} {view : σ → τ}

-- What a view shows of the updates does not depend on what it does not show, and an update that
-- is made again at once shows nothing new.
structure Viewed (act : σ → ι → σ) (view : σ → τ) : Prop where
  congr : ∀ i s t, view s = view t → view (act s i) = view (act t i)
  idempotent : ∀ i s, view (act (act s i) i) = view (act s i)

theorem Viewed.foldl_congr (hv : Viewed act view) (log : List ι) {s t : σ}
    (hst : view s = view t) : view (log.foldl act s) = view (log.foldl act t) := by
  induction log generalizing s t with
  | nil => exact hst
  | cons i log ih => exact ih (hv.congr i s t hst)

-- The updates that the view does not show can be left out.
theorem Viewed.foldl_filter (hv : Viewed act view) {shown : ι → Bool}
    (hs : ∀ i s, shown i = false → view (act s i) = view s) (log : List ι) (s : σ) :
    view (log.foldl act s) = view ((log.filter shown).foldl act s) := by
  induction log generalizing s with
  | nil => rfl
  | cons i log ih =>
    cases hi : shown i with
    | false =>
      rw [List.filter_cons_of_neg (by simp [hi]), ← ih]
      exact hv.foldl_congr log (hs i s hi)
    | true =>
      rw [List.filter_cons_of_pos hi]
      exact ih (act s i)

-- Updates made in order, some of them several times, show what each of them made once shows.
theorem Viewed.foldl_sorted [LinearOrder ι] (hv : Viewed act view) {log once : List ι}
    (hl : log.Pairwise (· ≤ ·)) (ho : once.Pairwise (· < ·)) (hm : ∀ i, i ∈ log ↔ i ∈ once)
    (s : σ) : view (log.foldl act s) = view (once.foldl act s) := by
  induction log generalizing once s with
  | nil =>
    have hn : once = [] := List.eq_nil_iff_forall_not_mem.mpr fun i hi => by
      simpa using (hm i).mpr hi
    rw [hn]
  | cons a log ih =>
    obtain ⟨hle, hl⟩ := List.pairwise_cons.mp hl
    cases once with
    | nil => simpa using hm a
    | cons b once =>
      obtain ⟨hlt, ho'⟩ := List.pairwise_cons.mp ho
      -- both lists begin with their least member
      have hab : a = b := by
        apply le_antisymm
        · cases List.mem_cons.mp ((hm b).mpr List.mem_cons_self) with
          | inl heq => exact heq.ge
          | inr hb => exact hle b hb
        · cases List.mem_cons.mp ((hm a).mp List.mem_cons_self) with
          | inl heq => exact heq.ge
          | inr ha => exact (hlt a ha).le
      subst hab
      by_cases hag : a ∈ log
      · have hr : ∀ i, i ∈ log ↔ i ∈ a :: once := fun i => by
          rw [← hm i, List.mem_cons]
          exact ⟨Or.inr, fun hi => hi.elim (fun heq => heq ▸ hag) id⟩
        -- the second time comes at once or has already been made
        rw [List.foldl_cons, ih hl ho hr (act s a)]
        exact hv.foldl_congr once (hv.idempotent a s)
      · have hr : ∀ i, i ∈ log ↔ i ∈ once := fun i => by
          constructor
          · intro hi
            cases List.mem_cons.mp ((hm i).mp (List.mem_cons_of_mem a hi)) with
            | inl heq => exact absurd (heq ▸ hi) hag
            | inr hi => exact hi
          · intro hi
            cases List.mem_cons.mp ((hm i).mpr (List.mem_cons_of_mem a hi)) with
            | inl heq => exact absurd (hlt i hi) (by simp [heq])
            | inr hi => exact hi
        exact ih hl ho' hr (act s a)

end Ordered

end Repeats
