import FlareIm.PluginState
import Mathlib.Data.List.Nodup

namespace FlareIm.PluginState

open Transition

section Holds

-- The claims of a flush that are neither sent nor handed back.
def FlushPhase.claims : FlushPhase → List ClaimedBinding
  | .sending _ claimed => claimed
  | .releasing _ binding claimed => binding :: claimed
  | .notStarted | .claiming _ | .finished => []

def FlushPhase.version : FlushPhase → Nat
  | .claiming version | .sending version _ | .releasing version _ _ => version
  | .notStarted | .finished => 0

structure Holds (state : State) (flush : Nat) (binding : ClaimedBinding) (version : Nat) :
    Prop where
  mem : binding ∈ (state.flushes flush).claims
  version_eq : (state.flushes flush).version = version

variable {state : State} {flush other version : Nat} {binding : ClaimedBinding}
  {phase : FlushPhase}

@[simp] theorem setFlush_self : (state.setFlush flush phase).flushes flush = phase :=
  Function.update_self _ _ _

theorem setFlush_of_ne (h : other ≠ flush) :
    (state.setFlush flush phase).flushes other = state.flushes other :=
  Function.update_of_ne h _ _

@[simp] theorem claims_nextSend (version : Nat) (claimed : List ClaimedBinding) :
    (nextSend version claimed).claims = claimed := by
  unfold nextSend
  split
  · rename_i hn
    rw [hn]
    rfl
  · rfl

theorem version_nextSend (h : binding ∈ (nextSend version claimed).claims) :
    (nextSend version claimed).version = version := by
  rw [claims_nextSend] at h
  unfold nextSend
  split
  · rename_i hn
    rw [hn] at h
    exact absurd h List.not_mem_nil
  · rfl

end Holds

section Nested

-- How the claims on a card stand to each other: they hold different versions, the later one was
-- made on top of the earlier one, and none is above what the card has published.
structure Nested (setup : Setup) (state : State) : Prop where
  nodup : ∀ flush, ((state.flushes flush).claims.map (·.card)).Nodup
  claim_le : ∀ flush binding version, Holds state flush binding version →
    setup.initialVersion binding.card ≤ binding.priorVersion ∧ binding.priorVersion < version ∧
      version ≤ state.published binding.card
  unique : ∀ flush binding other binding' version, Holds state flush binding version →
    Holds state other binding' version → binding.card = binding'.card →
      flush = other ∧ binding = binding'
  nested : ∀ flush binding version other binding' version', Holds state flush binding version →
    Holds state other binding' version' → binding.card = binding'.card → version < version' →
      version ≤ binding'.priorVersion
  initial_le : ∀ card, setup.initialVersion card ≤ state.published card
  sent_le : ∀ sent ∈ state.sent, setup.initialVersion sent.card < sent.version ∧
    sent.version ≤ state.published sent.card
  sent_nested : ∀ sent ∈ state.sent, ∀ flush binding version, Holds state flush binding version →
    binding.card = sent.card →
      sent.version ≠ version ∧ (sent.version < version → sent.version ≤ binding.priorVersion)
  sent_nodup : state.sent.Nodup

variable {setup : Setup} {state next : State} {flush : Nat}

theorem nested_initial (setup : Setup) : Nested setup (initial setup) where
  nodup _ := List.nodup_nil
  claim_le _ _ _ h := absurd h.mem List.not_mem_nil
  unique _ _ _ _ _ h := absurd h.mem List.not_mem_nil
  nested _ _ _ _ _ _ h := absurd h.mem List.not_mem_nil
  initial_le _ := Nat.le_refl _
  sent_le _ h := absurd h List.not_mem_nil
  sent_nested _ h := absurd h List.not_mem_nil
  sent_nodup := List.nodup_nil

theorem Nested.shrink (hin : Nested setup state)
    (hn : ∀ flush, ((next.flushes flush).claims.map (·.card)).Nodup)
    (hh : ∀ flush binding version, Holds next flush binding version →
      Holds state flush binding version)
    (hp : next.published = state.published) (hs : next.sent = state.sent) : Nested setup next where
  nodup := hn
  claim_le flush binding version h := by
    rw [hp]
    exact hin.claim_le flush binding version (hh _ _ _ h)
  unique flush binding other binding' version h h' :=
    hin.unique flush binding other binding' version (hh _ _ _ h) (hh _ _ _ h')
  nested flush binding version other binding' version' h h' :=
    hin.nested flush binding version other binding' version' (hh _ _ _ h) (hh _ _ _ h')
  initial_le := hp ▸ hin.initial_le
  sent_le := hp ▸ hs ▸ hin.sent_le
  sent_nested sent hm flush binding version h :=
    hin.sent_nested sent (hs ▸ hm) flush binding version (hh _ _ _ h)
  sent_nodup := hs ▸ hin.sent_nodup

theorem Nested.setFlush (hin : Nested setup state) {phase : FlushPhase}
    (hc : phase.claims.Sublist (state.flushes flush).claims)
    (hve : phase.claims ≠ [] → phase.version = (state.flushes flush).version) :
    Nested setup (state.setFlush flush phase) := by
  refine hin.shrink ?_ ?_ rfl rfl
  · intro other
    by_cases heq : other = flush
    · subst heq
      rw [setFlush_self]
      exact (hin.nodup other).sublist (hc.map _)
    · rw [setFlush_of_ne heq]
      exact hin.nodup other
  · intro other binding version h
    by_cases heq : other = flush
    · subst heq
      have hm := h.mem
      have hv := h.version_eq
      rw [setFlush_self] at hm hv
      exact ⟨hc.subset hm, by rw [← hve (List.ne_nil_of_mem hm), hv]⟩
    · have hm := h.mem
      have hv := h.version_eq
      rw [setFlush_of_ne heq] at hm hv
      exact ⟨hm, hv⟩

theorem Nested.same (hin : Nested setup state) (hf : next.flushes = state.flushes)
    (hp : next.published = state.published) (hs : next.sent = state.sent) : Nested setup next := by
  refine hin.shrink ?_ ?_ hp hs
  · intro other
    rw [hf]
    exact hin.nodup other
  · intro other binding version h
    have hm := h.mem
    have hv := h.version_eq
    rw [hf] at hm hv
    exact ⟨hm, hv⟩

end Nested

section Claim

variable {setup : Setup} {state next : State} {flush version : Nat}

theorem mem_claimable {card : Nat} :
    card ∈ claimable setup state version ↔
      card < setup.cards ∧ state.recalled card = false ∧ state.published card < version := by
  simp only [claimable, liveCards, List.mem_filter, List.mem_range, Bool.not_eq_true',
    decide_eq_true_eq, and_assoc]

theorem nodup_claimable : (claimable setup state version).Nodup :=
  (List.nodup_range.filter _).filter _

def claimed (setup : Setup) (state : State) (flush version : Nat) : State :=
  { state with
    published := fun card =>
      if card ∈ claimable setup state version then version else state.published card }.setFlush
    flush (nextSend version ((claimable setup state version).map fun card =>
      ⟨card, state.published card⟩))

theorem published_le_claimed (card : Nat) :
    state.published card ≤ (claimed setup state flush version).published card := by
  simp only [claimed, State.setFlush]
  split
  · rename_i hm
    exact Nat.le_of_lt (mem_claimable.mp hm).2.2
  · exact Nat.le_refl _

theorem holds_claimed {other found : Nat} {binding : ClaimedBinding}
    (hp : state.flushes flush = .claiming version)
    (h : Holds (claimed setup state flush version) other binding found) :
    (other = flush ∧ found = version ∧ binding.card ∈ claimable setup state version ∧
      binding.priorVersion = state.published binding.card) ∨
    (other ≠ flush ∧ Holds state other binding found) := by
  have hm := h.mem
  have hv := h.version_eq
  simp only [claimed] at hm hv
  by_cases heq : other = flush
  · subst heq
    rw [setFlush_self] at hm hv
    rw [version_nextSend hm] at hv
    rw [claims_nextSend] at hm
    obtain ⟨card, hc, rfl⟩ := List.mem_map.mp hm
    exact Or.inl ⟨rfl, hv.symm, hc, rfl⟩
  · rw [setFlush_of_ne heq] at hm hv
    exact Or.inr ⟨heq, hm, hv⟩

theorem nested_claimed (hin : Nested setup state) (hp : state.flushes flush = .claiming version) :
    Nested setup (claimed setup state flush version) where
  nodup other := by
    simp only [claimed]
    by_cases heq : other = flush
    · subst heq
      rw [setFlush_self, claims_nextSend, List.map_map]
      have hid : (claimable setup state version).map
          ((·.card) ∘ fun card => (⟨card, state.published card⟩ : ClaimedBinding)) =
            claimable setup state version := List.map_id' _
      rw [hid]
      exact nodup_claimable
    · rw [setFlush_of_ne heq]
      exact hin.nodup other
  claim_le other binding found h := by
    rcases holds_claimed hp h with ⟨rfl, rfl, hc, hpr⟩ | ⟨-, hold⟩
    · obtain ⟨-, -, hlt⟩ := mem_claimable.mp hc
      refine ⟨hpr ▸ hin.initial_le _, hpr ▸ hlt, ?_⟩
      simp only [claimed, State.setFlush, if_pos hc]
      exact Nat.le_refl _
    · obtain ⟨hii, hpr, hle⟩ := hin.claim_le other binding found hold
      exact ⟨hii, hpr, Nat.le_trans hle (published_le_claimed _)⟩
  unique other binding another binding' found h h' hs := by
    rcases holds_claimed hp h with ⟨rfl, rfl, hc, hpr⟩ | ⟨hne, hold⟩
    · rcases holds_claimed hp h' with ⟨rfl, -, -, hpr'⟩ | ⟨hne', hold'⟩
      · refine ⟨rfl, ?_⟩
        cases binding
        cases binding'
        simp only at hs hpr hpr'
        subst hs
        rw [hpr, hpr']
      · obtain ⟨-, -, hle⟩ := hin.claim_le _ _ _ hold'
        obtain ⟨-, -, hlt⟩ := mem_claimable.mp hc
        rw [hs] at hlt
        omega
    · rcases holds_claimed hp h' with ⟨rfl, rfl, hc', -⟩ | ⟨hne', hold'⟩
      · obtain ⟨-, -, hle⟩ := hin.claim_le _ _ _ hold
        obtain ⟨-, -, hlt⟩ := mem_claimable.mp hc'
        rw [← hs] at hlt
        omega
      · exact hin.unique _ _ _ _ _ hold hold' hs
  nested other binding found another binding' found' h h' hs hl := by
    rcases holds_claimed hp h with ⟨rfl, rfl, hc, hpr⟩ | ⟨hne, hold⟩
    · rcases holds_claimed hp h' with ⟨rfl, rfl, -, -⟩ | ⟨hne', hold'⟩
      · omega
      · obtain ⟨-, -, hle⟩ := hin.claim_le _ _ _ hold'
        obtain ⟨-, -, hlt⟩ := mem_claimable.mp hc
        rw [hs] at hlt
        omega
    · rcases holds_claimed hp h' with ⟨rfl, rfl, hc', hpr'⟩ | ⟨hne', hold'⟩
      · obtain ⟨-, -, hle⟩ := hin.claim_le _ _ _ hold
        rw [hpr', ← hs]
        exact hle
      · exact hin.nested _ _ _ _ _ _ hold hold' hs hl
  initial_le card := Nat.le_trans (hin.initial_le card) (published_le_claimed card)
  sent_le sent hse := by
    obtain ⟨hii, hle⟩ := hin.sent_le sent hse
    exact ⟨hii, Nat.le_trans hle (published_le_claimed _)⟩
  sent_nested sent hse other binding found h hs := by
    obtain ⟨-, hle⟩ := hin.sent_le sent hse
    rcases holds_claimed hp h with ⟨rfl, rfl, hc, hpr⟩ | ⟨-, hold⟩
    · obtain ⟨-, -, hlt⟩ := mem_claimable.mp hc
      rw [hs] at hlt hpr
      constructor
      · omega
      · intro _
        rw [hpr]
        exact hle
    · exact hin.sent_nested sent hse other binding found hold hs
  sent_nodup := hin.sent_nodup

end Claim

section Send

variable {setup : Setup} {state : State} {flush version : Nat} {binding : ClaimedBinding}
  {rest : List ClaimedBinding}

theorem holds_rest {other found : Nat} {binding' : ClaimedBinding} (hin : Nested setup state)
    (hc : (state.flushes flush).claims = binding :: rest)
    (hve : (state.flushes flush).version = version)
    (h : Holds (state.setFlush flush (nextSend version rest)) other binding' found) :
    Holds state other binding' found ∧ (other = flush → binding'.card ≠ binding.card) := by
  have hm := h.mem
  have hv := h.version_eq
  by_cases heq : other = flush
  · subst heq
    rw [setFlush_self] at hm hv
    rw [version_nextSend hm] at hv
    rw [claims_nextSend] at hm
    refine ⟨⟨by rw [hc]; exact List.mem_cons_of_mem _ hm, by rw [hve, hv]⟩, ?_⟩
    intro _ hs
    have hn := hin.nodup other
    rw [hc, List.map_cons, List.nodup_cons] at hn
    exact hn.1 (hs ▸ List.mem_map_of_mem hm)
  · rw [setFlush_of_ne heq] at hm hv
    exact ⟨⟨hm, hv⟩, fun h => absurd h heq⟩

theorem nodup_rest (hin : Nested setup state)
    (hc : (state.flushes flush).claims = binding :: rest) (other : Nat) :
    (((state.setFlush flush (nextSend version rest)).flushes other).claims.map (·.card)).Nodup := by
  by_cases heq : other = flush
  · subst heq
    rw [setFlush_self, claims_nextSend]
    have hn := hin.nodup other
    rw [hc, List.map_cons, List.nodup_cons] at hn
    exact hn.2
  · rw [setFlush_of_ne heq]
    exact hin.nodup other

theorem nested_sent (hin : Nested setup state)
    (hp : state.flushes flush = .sending version (binding :: rest)) :
    Nested setup ({ state with sent := ⟨binding.card, version⟩ :: state.sent }.setFlush flush
      (nextSend version rest)) := by
  have hc : (state.flushes flush).claims = binding :: rest := by rw [hp]; rfl
  have hv : (state.flushes flush).version = version := by rw [hp]; rfl
  have hon : Holds state flush binding version := ⟨hc ▸ List.mem_cons_self, hv⟩
  have hr : ∀ other binding' found,
      Holds (state.setFlush flush (nextSend version rest)) other binding' found →
        Holds state other binding' found ∧ (other = flush → binding'.card ≠ binding.card) :=
    fun _ _ _ h => holds_rest hin hc hv h
  have hn : ∀ other, (((state.setFlush flush (nextSend version rest)).flushes
      other).claims.map (·.card)).Nodup := nodup_rest hin hc
  obtain ⟨hii, hpr, hle⟩ := hin.claim_le flush binding version hon
  refine {
    nodup := hn
    claim_le := fun other binding' found h =>
      hin.claim_le other binding' found (hr _ _ _ ⟨h.mem, h.version_eq⟩).1
    unique := fun other binding' another binding'' found h h' =>
      hin.unique other binding' another binding'' found (hr _ _ _ ⟨h.mem, h.version_eq⟩).1
        (hr _ _ _ ⟨h'.mem, h'.version_eq⟩).1
    nested := fun other binding' found another binding'' found' h h' =>
      hin.nested other binding' found another binding'' found'
        (hr _ _ _ ⟨h.mem, h.version_eq⟩).1 (hr _ _ _ ⟨h'.mem, h'.version_eq⟩).1
    initial_le := hin.initial_le
    sent_le := ?_
    sent_nested := ?_
    sent_nodup := ?_ }
  · intro sent hse
    rcases List.mem_cons.mp hse with rfl | hold
    · exact ⟨by simp only; omega, hle⟩
    · exact hin.sent_le sent hold
  · intro sent hse other binding' found h hs
    obtain ⟨hh, ho⟩ := hr other binding' found ⟨h.mem, h.version_eq⟩
    rcases List.mem_cons.mp hse with rfl | hold
    · simp only at hs ⊢
      refine ⟨?_, fun hl => hin.nested _ _ _ _ _ _ hon hh hs.symm hl⟩
      rintro rfl
      obtain ⟨hf, -⟩ := hin.unique _ _ _ _ _ hh hon hs
      exact ho hf hs
    · exact hin.sent_nested sent hold other binding' found hh hs
  · refine List.nodup_cons.mpr ⟨?_, hin.sent_nodup⟩
    intro hm
    exact (hin.sent_nested _ hm flush binding version hon rfl).1 rfl

-- A version handed back leaves the card with what it had before, which is no less than the other
-- claims on it and what was sent.
theorem nested_released (hin : Nested setup state)
    (hp : state.flushes flush = .releasing version binding rest) :
    Nested setup ({ state with
      published :=
        if state.published binding.card = version then
          Function.update state.published binding.card binding.priorVersion
        else state.published }.setFlush flush (nextSend version rest)) := by
  have hcl : (state.flushes flush).claims = binding :: rest := by rw [hp]; rfl
  have hv : (state.flushes flush).version = version := by rw [hp]; rfl
  have hon : Holds state flush binding version := ⟨hcl ▸ List.mem_cons_self, hv⟩
  have hr : ∀ other binding' found,
      Holds (state.setFlush flush (nextSend version rest)) other binding' found →
        Holds state other binding' found ∧ (other = flush → binding'.card ≠ binding.card) :=
    fun _ _ _ h => holds_rest hin hcl hv h
  have hs : Nested setup (state.setFlush flush (nextSend version rest)) :=
    hin.shrink (nodup_rest hin hcl) (fun _ _ _ h => (hr _ _ _ h).1) rfl rfl
  by_cases hl : state.published binding.card = version
  · simp only [hl, if_true]
    obtain ⟨hii, hpr, -⟩ := hin.claim_le flush binding version hon
    have ha : ∀ card, card ≠ binding.card → Function.update state.published binding.card
        binding.priorVersion card = state.published card := fun card hne =>
      Function.update_of_ne hne _ _
    refine {
      nodup := hs.nodup
      claim_le := ?_
      unique := fun other binding' another binding'' found h h' =>
        hs.unique other binding' another binding'' found ⟨h.mem, h.version_eq⟩
          ⟨h'.mem, h'.version_eq⟩
      nested := fun other binding' found another binding'' found' h h' =>
        hs.nested other binding' found another binding'' found' ⟨h.mem, h.version_eq⟩
          ⟨h'.mem, h'.version_eq⟩
      initial_le := ?_
      sent_le := ?_
      sent_nested := fun sent hse other binding' found h =>
        hs.sent_nested sent hse other binding' found ⟨h.mem, h.version_eq⟩
      sent_nodup := hs.sent_nodup }
    · intro other binding' found h
      obtain ⟨hh, ho⟩ := hr other binding' found ⟨h.mem, h.version_eq⟩
      obtain ⟨hii', hpr', hle'⟩ := hin.claim_le other binding' found hh
      refine ⟨hii', hpr', ?_⟩
      simp only [State.setFlush]
      by_cases hc : binding'.card = binding.card
      · rw [hc, Function.update_self]
        have hne : found ≠ version := by
          rintro rfl
          obtain ⟨hf, -⟩ := hin.unique _ _ _ _ _ hh hon hc
          exact ho hf hc
        rw [hc, hl] at hle'
        exact hin.nested _ _ _ _ _ _ hh hon hc (by omega)
      · rw [ha _ hc]
        exact hle'
    · intro card
      simp only [State.setFlush]
      by_cases hc : card = binding.card
      · subst hc
        rw [Function.update_self]
        exact hii
      · rw [ha _ hc]
        exact hin.initial_le card
    · intro sent hse
      obtain ⟨hls, hle⟩ := hin.sent_le sent hse
      refine ⟨hls, ?_⟩
      simp only [State.setFlush]
      by_cases hc : sent.card = binding.card
      · obtain ⟨hne, hn⟩ := hin.sent_nested sent hse flush binding version hon hc.symm
        rw [hc, Function.update_self]
        rw [hc, hl] at hle
        exact hn (by omega)
      · rw [ha _ hc]
        exact hle
  · simp only [hl, if_false]
    exact hs

end Send

end FlareIm.PluginState
