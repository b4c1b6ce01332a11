import Mathlib.Data.Finset.Card
import Mathlib.Order.Defs.Unbundled

-- The first elements of a finite set in an order, as many as wanted.
namespace Initial

variable {α : Type*} {before : α → α → Prop} {whole part other : Finset α} {a : α}

structure IsInitial (before : α → α → Prop) (whole part : Finset α) : Prop where
  subset : part ⊆ whole
  first : ∀ a ∈ part, ∀ b ∈ whole, b ∉ part → before a b

theorem isInitial_empty : IsInitial before whole ∅ where
  subset := Finset.empty_subset whole
  first _ h := absurd h (Finset.notMem_empty _)

-- The first of what is left joins an initial part.
theorem IsInitial.insert [DecidableEq α] (h : IsInitial before whole part) (hm : a ∈ whole)
    (hf : ∀ b ∈ whole, b ∉ part → b ≠ a → before a b) : IsInitial before whole (insert a part) where
  subset := Finset.insert_subset hm h.subset
  first b hb c hc ho := by
    rw [Finset.mem_insert, not_or] at ho
    rcases Finset.mem_insert.mp hb with rfl | hold
    · exact hf c hc ho.2 ho.1
    · exact h.first b hold c hc ho.2

-- There is one initial part of a size only.
theorem IsInitial.unique [Std.Asymm before] (h : IsInitial before whole part)
    (h' : IsInitial before whole other) (hc : part.card = other.card) : part = other := by
  by_contra hne
  have hl : ¬ part ⊆ other := fun hs => hne (Finset.eq_of_subset_of_card_le hs hc.ge)
  have hr : ¬ other ⊆ part :=
    fun hs => hne (Finset.eq_of_subset_of_card_le hs hc.le).symm
  obtain ⟨a, ha, ho⟩ := Finset.not_subset.mp hl
  obtain ⟨b, hb, ho'⟩ := Finset.not_subset.mp hr
  have hab := h.first a ha b (h'.subset hb) ho'
  have hba := h'.first b hb a (h.subset ha) ho
  exact Std.Asymm.asymm a b hab hba

end Initial
