import Mathlib.Logic.Function.Basic

-- Rows that several transactions change. A row has its committed version and at most one that is
-- not committed so far: whoever wrote it holds the row until it ends.
namespace Versions

variable {Key Row : Type*}

structure Store (Key Row : Type*) where
  committed : Key → Option Row
  uncommitted : Key → Option (Nat × Option Row)

variable (store : Store Key Row) (transaction : Nat)

-- What a transaction reads: its own version of a row, of the others only what they committed.
def Store.view (key : Key) : Option Row :=
  match store.uncommitted key with
  | some (holder, version) => if holder = transaction then version else store.committed key
  | none => store.committed key

def Store.free (key : Key) : Bool :=
  (store.uncommitted key).all fun held => held.1 = transaction

def Store.put [DecidableEq Key] (key : Key) (version : Option Row) : Store Key Row :=
  { store with
    uncommitted := Function.update store.uncommitted key (some (transaction, version)) }

def Store.release : Store Key Row :=
  { store with
    uncommitted := fun key =>
      (store.uncommitted key).filter fun held => !decide (held.1 = transaction) }

def Store.commit : Store Key Row :=
  { store.release transaction with committed := store.view transaction }

section Lemmas

variable {store : Store Key Row} {transaction : Nat} {key other : Key} {version : Option Row}

theorem view_of_held (h : store.uncommitted key = some (transaction, version)) :
    store.view transaction key = version := by
  simp [Store.view, h]

-- A row that nobody else holds is either the transaction's own or the committed one.
theorem view_of_free (hf : store.free transaction key = true) :
    store.uncommitted key = some (transaction, store.view transaction key) ∨
      (store.uncommitted key = none ∧ store.view transaction key = store.committed key) := by
  cases hh : store.uncommitted key with
  | none => exact .inr ⟨rfl, by simp [Store.view, hh]⟩
  | some held =>
    obtain ⟨holder, own⟩ := held
    have hho : holder = transaction := by simpa [Store.free, hh] using hf
    subst hho
    exact .inl (by rw [view_of_held hh])

@[simp] theorem put_uncommitted_self [DecidableEq Key] :
    (store.put transaction key version).uncommitted key = some (transaction, version) :=
  Function.update_self ..

theorem put_uncommitted_of_ne [DecidableEq Key] (h : other ≠ key) :
    (store.put transaction key version).uncommitted other = store.uncommitted other :=
  Function.update_of_ne h ..

theorem release_uncommitted {holder : Nat} :
    (store.release transaction).uncommitted key = some (holder, version) ↔
      store.uncommitted key = some (holder, version) ∧ holder ≠ transaction := by
  simp [Store.release, Option.filter_eq_some_iff]

theorem commit_uncommitted {holder : Nat} :
    (store.commit transaction).uncommitted key = some (holder, version) ↔
      store.uncommitted key = some (holder, version) ∧ holder ≠ transaction :=
  release_uncommitted

-- The two stores hold the same versions of a transaction.
def SameFor (transaction : Nat) (store next : Store Key Row) : Prop :=
  ∀ key version, next.uncommitted key = some (transaction, version) ↔
    store.uncommitted key = some (transaction, version)

theorem sameFor_refl (transaction : Nat) (store : Store Key Row) :
    SameFor transaction store store :=
  fun _ _ => Iff.rfl

theorem sameFor_put [DecidableEq Key] {holder : Nat} (hf : store.free transaction key = true)
    (hne : holder ≠ transaction) : SameFor holder store (store.put transaction key version) := by
  intro other held
  by_cases hs : other = key
  · subst hs
    have hn : (store.put transaction other version).uncommitted other ≠ some (holder, held) := by
      rw [put_uncommitted_self]
      exact fun heq => hne (Prod.mk.inj (Option.some.inj heq)).1.symm
    have hold : store.uncommitted other ≠ some (holder, held) := by
      intro heq
      apply hne
      simpa [Store.free, heq] using hf
    exact iff_of_false hn hold
  · rw [put_uncommitted_of_ne hs]

theorem sameFor_release {holder : Nat} (hne : holder ≠ transaction) :
    SameFor holder store (store.release transaction) :=
  fun _ _ => release_uncommitted.trans (and_iff_left hne)

theorem sameFor_commit {holder : Nat} (hne : holder ≠ transaction) :
    SameFor holder store (store.commit transaction) :=
  fun _ _ => commit_uncommitted.trans (and_iff_left hne)

end Lemmas

section Respects

variable (rel : Row → Row → Prop)

-- Whoever changes a row only moves it along the relation.
def Respects (store : Store Key Row) : Prop :=
  ∀ key holder old new, store.uncommitted key = some (holder, some new) →
    store.committed key = some old → rel old new

variable {rel} {store : Store Key Row} {transaction : Nat} {key : Key} {version : Option Row}

theorem Respects.put [DecidableEq Key] (ht : ∀ a b c, rel a b → rel b c → rel a c)
    (h : Respects rel store) (hf : store.free transaction key = true)
    (hm : ∀ old new, store.view transaction key = some old → version = some new → rel old new)
    (hk : version ≠ none → store.uncommitted key ≠ some (transaction, none)) :
    Respects rel (store.put transaction key version) := by
  intro other holder old new hh hold
  by_cases hs : other = key
  · subst hs
    rw [put_uncommitted_self] at hh
    obtain ⟨rfl, rfl⟩ := Prod.mk.inj (Option.some.inj hh)
    rcases view_of_free hf with ho | ⟨-, hvi⟩
    · cases hv : store.view transaction other with
      | none => exact absurd (hv ▸ ho) (hk (by simp))
      | some own =>
        rw [hv] at ho
        exact ht old own new (h other transaction old own ho hold) (hm own new hv rfl)
    · exact hm old new (hvi.trans hold) rfl
  · rw [put_uncommitted_of_ne hs] at hh
    exact h other holder old new hh hold

theorem Respects.release (h : Respects rel store) : Respects rel (store.release transaction) :=
  fun key holder old new hh hold =>
    h key holder old new (release_uncommitted.mp hh).1 hold

-- What a transaction commits moves every row that stays along the relation.
theorem Respects.commit_rel (h : Respects rel store) (hr : ∀ row, rel row row)
    {old new : Row} (hold : store.committed key = some old)
    (hn : (store.commit transaction).committed key = some new) : rel old new := by
  have hv : store.view transaction key = some new := hn
  unfold Store.view at hv
  split at hv
  · rename_i holder own hh
    split at hv
    · subst hv
      exact h key holder old new hh hold
    · cases (hold.symm.trans hv)
      exact hr old
  · cases (hold.symm.trans hv)
    exact hr old

theorem Respects.commit (h : Respects rel store) : Respects rel (store.commit transaction) := by
  intro key holder old new hk hold
  obtain ⟨hu, ho⟩ := commit_uncommitted.mp hk
  have hv : store.view transaction key = some old := hold
  have hc : store.committed key = some old := by
    simpa [Store.view, hu, ho] using hv
  exact h key holder old new hu hc

end Respects

end Versions
