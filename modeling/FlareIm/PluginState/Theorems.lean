import FlareIm.PluginState.Claims

namespace FlareIm.PluginState

open Transition
open Function (update update_of_ne update_self)

section Contract

-- A flush of at least a version is scheduled or about to claim.
def Waiting (state : State) (version : Nat) : Prop :=
  (∃ instance_, ∃ pending ∈ (state.slots instance_).pending, version ≤ pending) ∨
    ∃ flush pending, state.flushes flush = .claiming pending ∧ version ≤ pending

-- Every live card has at least a version, or a step under way will claim it.
def Covered (setup : Setup) (state : State) (version : Nat) : Prop :=
  ∀ card < setup.cards,
    state.recalled card = true ∨ version ≤ state.published card ∨ Waiting state version

def Quiescent (state : State) : Prop :=
  (∀ instance_, (state.slots instance_).scheduled = false) ∧
    ∀ flush, state.flushes flush = .notStarted ∨ state.flushes flush = .finished

-- What a card has published is what it started with, was sent, or is still being sent.
def Alive (setup : Setup) (state : State) (card version : Nat) : Prop :=
  version = setup.initialVersion card ∨ ⟨card, version⟩ ∈ state.sent ∨
    ∃ flush binding, Holds state flush binding version ∧ binding.card = card

structure Delivered (setup : Setup) (state : State) : Prop where
  sent_once : state.sent.Nodup
  highest_sent : Quiescent state → ∀ card,
    (⟨card, state.published card⟩ ∈ state.sent ∨
      (state.published card = setup.initialVersion card ∧ ∀ version, ⟨card, version⟩ ∉ state.sent)) ∧
    ∀ version, ⟨card, version⟩ ∈ state.sent → version ≤ state.published card
  refused_covered : ∀ version ∈ state.refused, Covered setup state version
  refused_published : Quiescent state → ∀ version ∈ state.refused, ∀ card < setup.cards,
    state.recalled card = true ∨ version ≤ state.published card

-- A submit is answered Stale or Duplicate only when each live card has its version or will, and a
-- failed send hands back a version whose own send did not fail and that no refused submit is above.
def InOrder (setup : Setup) (state : State) : Action → Prop
  | .compare submit =>
    ∀ stored, state.submits submit = .comparing stored →
      (setup.submit submit).version ≤
        max stored ((state.slots (setup.submit submit).instance_).pending.getD 0) →
      Covered setup state (setup.submit submit).version
  | .releaseVersion flush =>
    ∀ version binding claimed, state.flushes flush = .releasing version binding claimed →
      state.published binding.card = version →
        Alive setup state binding.card binding.priorVersion ∧
          ∀ refused ∈ state.refused, refused ≤ binding.priorVersion ∨ version < refused ∨
            state.recalled binding.card = true
  | _ => True

end Contract

section Invariant

structure Inv (setup : Setup) (state : State) : Prop where
  nested : Nested setup state
  alive : ∀ card, Alive setup state card (state.published card)
  covered : ∀ version ∈ state.refused, Covered setup state version
  scheduled : ∀ instance_, (state.slots instance_).pending.isSome →
    (state.slots instance_).scheduled = true

variable {setup : Setup} {state next : State}

theorem Alive.mono {card version : Nat} (h : Alive setup state card version)
    (hh : ∀ flush binding, Holds state flush binding version → binding.card = card →
      Holds next flush binding version) (hs : ∀ sent ∈ state.sent, sent ∈ next.sent) :
    Alive setup next card version := by
  rcases h with hin | hm | ⟨flush, binding, hcl, hc⟩
  · exact Or.inl hin
  · exact Or.inr (Or.inl (hs _ hm))
  · exact Or.inr (Or.inr ⟨flush, binding, hh flush binding hcl hc, hc⟩)

theorem Alive.same {card version : Nat} (h : Alive setup state card version)
    (hf : next.flushes = state.flushes) (hs : next.sent = state.sent) :
    Alive setup next card version :=
  h.mono (fun flush _ hc _ => ⟨by rw [hf]; exact hc.mem,
    by rw [hf]; exact hc.version_eq⟩) (fun _ hm => hs ▸ hm)

theorem inv_initial (setup : Setup) : Inv setup (initial setup) where
  nested := nested_initial setup
  alive card := Or.inl rfl
  covered version h := absurd h List.not_mem_nil
  scheduled instance_ h := absurd h (by simp [initial])

theorem Inv.delivered (hin : Inv setup state) : Delivered setup state where
  sent_once := hin.nested.sent_nodup
  highest_sent hq card := by
    refine ⟨?_, fun version h => (hin.nested.sent_le _ h).2⟩
    rcases hin.alive card with hii | hse | ⟨flush, binding, hh, -⟩
    · refine Or.inr ⟨hii, ?_⟩
      intro version hse
      obtain ⟨hlt, hle⟩ := hin.nested.sent_le _ hse
      simp only at hlt hle
      omega
    · exact Or.inl hse
    · have hm := hh.mem
      rcases hq.2 flush with hp | hp
      · rw [hp] at hm
        exact absurd hm List.not_mem_nil
      · rw [hp] at hm
        exact absurd hm List.not_mem_nil
  refused_covered := hin.covered
  refused_published hq version hre card hc := by
    rcases hin.covered version hre card hc with hr | hle | hw
    · exact Or.inl hr
    · exact Or.inr hle
    · rcases hw with ⟨instance_, pending, hpe, -⟩ | ⟨flush, pending, hp, -⟩
      · have hs := hin.scheduled instance_ (by rw [hpe]; rfl)
        rw [hq.1 instance_] at hs
        cases hs
      · rcases hq.2 flush with ho | ho
        · rw [hp] at ho
          cases ho
        · rw [hp] at ho
          cases ho

end Invariant

section Submits

variable {setup : Setup} {state next : State} {submit : Nat}

theorem keeps_readBindings {ok : Bool} (hin : Inv setup state)
    (h : readBindings setup state submit ok = some next) : Inv setup next := by
  unfold readBindings at h
  split at h
  · cases h
  · split at h
    · cases h
      exact ⟨hin.nested.same rfl rfl rfl, fun card => (hin.alive card).same rfl rfl, hin.covered, hin.scheduled⟩
    · cases h
      exact ⟨hin.nested.same rfl rfl rfl, fun card => (hin.alive card).same rfl rfl, hin.covered, hin.scheduled⟩

theorem le_known_of_refused {ordering : SharedStateOrdering} {version known : Nat}
    (h : ordering.orderAgainst version (if 0 < known then some known else none) ≠ .newer) :
    version ≤ known := by
  split at h
  · rw [ordering.order_some] at h
    split at h
    · omega
    · split at h
      · omega
      · exact absurd rfl h
  · exact absurd (ordering.order_none version) h

theorem le_offer {slot : Slot} {version pending : Nat} (h : pending ∈ slot.pending) :
    ∃ later ∈ (slot.offer version).pending, pending ≤ later := by
  rw [Option.mem_def] at h
  simp only [Slot.offer, h, Option.all_some, decide_eq_true_eq]
  split
  · rename_i hlt
    exact ⟨version, rfl, Nat.le_of_lt hlt⟩
  · exact ⟨pending, rfl, Nat.le_refl _⟩

theorem waiting_offer {instance_ version offered : Nat} {submits : Nat → SubmitPhase}
    (h : Waiting state version) :
    Waiting { state with
      submits := submits
      slots := update state.slots instance_ ((state.slots instance_).offer offered) }
      version := by
  rcases h with ⟨other, pending, hpe, hle⟩ | ⟨flush, pending, hp, hle⟩
  · left
    by_cases heq : other = instance_
    · subst heq
      obtain ⟨later, hl, hl'⟩ := @le_offer _ offered _ hpe
      refine ⟨other, later, ?_, Nat.le_trans hle hl'⟩
      simp only [update_self]
      exact hl
    · refine ⟨other, pending, ?_, hle⟩
      simp only [update_of_ne heq]
      exact hpe
  · exact Or.inr ⟨flush, pending, hp, hle⟩

theorem keeps_compare (hin : Inv setup state) (hok : InOrder setup state (.compare submit))
    (h : compare setup state submit = some next) : Inv setup next := by
  unfold compare at h
  split at h
  · rename_i stored hp
    have hr : setup.ordering.orderAgainst (setup.submit submit).version
        (if 0 < max stored ((state.slots (setup.submit submit).instance_).pending.getD 0) then
          some (max stored ((state.slots (setup.submit submit).instance_).pending.getD 0))
        else none) ≠ .newer →
        ∀ version ∈ (setup.submit submit).version :: state.refused,
          Covered setup state version := by
      intro hne version hm
      rcases List.mem_cons.mp hm with rfl | hold
      · exact hok stored hp (le_known_of_refused hne)
      · exact hin.covered version hold
    dsimp only at h
    split at h
    · rename_i ho
      cases h
      exact ⟨hin.nested.same rfl rfl rfl, fun card => (hin.alive card).same rfl rfl,
        hr (by rw [ho]; simp), hin.scheduled⟩
    · rename_i ho
      cases h
      exact ⟨hin.nested.same rfl rfl rfl, fun card => (hin.alive card).same rfl rfl,
        hr (by rw [ho]; simp), hin.scheduled⟩
    · cases h
      refine ⟨hin.nested.same rfl rfl rfl, fun card => (hin.alive card).same rfl rfl, ?_, ?_⟩
      · intro version hm card hc
        rcases hin.covered version hm card hc with hre | hle | hw
        · exact Or.inl hre
        · exact Or.inr (Or.inl hle)
        · exact Or.inr (Or.inr (waiting_offer hw))
      · intro other hpe
        by_cases heq : other = (setup.submit submit).instance_
        · subst heq
          simp only [update_self]
          rfl
        · simp only [update_of_ne heq] at hpe ⊢
          exact hin.scheduled other hpe
  · cases h

end Submits

section Flushes

variable {setup : Setup} {state next : State} {flush : Nat}

theorem keeps_take {instance_ : Nat} (hin : Inv setup state)
    (h : take state flush instance_ = some next) : Inv setup next := by
  unfold take at h
  split at h
  · cases h
  · rename_i hs
    rw [not_or, not_not, Bool.not_eq_false] at hs
    have hsc : ∀ other, ((update state.slots instance_ ⟨none, false⟩) other).pending.isSome →
        ((update state.slots instance_ ⟨none, false⟩) other).scheduled = true := by
      intro other hpe
      by_cases heq : other = instance_
      · subst heq
        rw [update_self] at hpe
        cases hpe
      · rw [update_of_ne heq] at hpe ⊢
        exact hin.scheduled other hpe
    have hn : (state.flushes flush).claims = [] := by
      rw [hs.1]
      rfl
    -- the new phase has no claims either
    have hk : ∀ phase : FlushPhase, phase.claims = [] →
        Nested setup ({ state with
          slots := update state.slots instance_ ⟨none, false⟩ }.setFlush flush phase) ∧
        ∀ card, Alive setup ({ state with
          slots := update state.slots instance_ ⟨none, false⟩ }.setFlush flush phase) card
            (state.published card) := by
      intro phase hc
      have hsa : Nested setup { state with
          slots := update state.slots instance_ ⟨none, false⟩ } :=
        hin.nested.same rfl rfl rfl
      refine ⟨hsa.setFlush (by rw [hc]; exact List.nil_sublist _) (fun hne => absurd hc hne), ?_⟩
      intro card
      refine (hin.alive card).mono ?_ fun _ hse => hse
      intro other binding hh _
      have hne : other ≠ flush := by
        rintro rfl
        have hm := hh.mem
        rw [hn] at hm
        exact absurd hm List.not_mem_nil
      exact ⟨by rw [setFlush_of_ne hne]; exact hh.mem,
        by rw [setFlush_of_ne hne]; exact hh.version_eq⟩
    split at h
    · rename_i hpe
      cases h
      obtain ⟨hns, ha⟩ := hk .finished rfl
      refine ⟨hns, ha, ?_, hsc⟩
      intro version hm card hca
      rcases hin.covered version hm card hca with hr | hle | hw
      · exact Or.inl hr
      · exact Or.inr (Or.inl hle)
      · refine Or.inr (Or.inr ?_)
        rcases hw with ⟨other, pending, ho, hle⟩ | ⟨other, pending, hp, hle⟩
        · left
          have hne : other ≠ instance_ := by
            rintro rfl
            rw [hpe] at ho
            cases ho
          refine ⟨other, pending, ?_, hle⟩
          simp only [State.setFlush, update_of_ne hne]
          exact ho
        · right
          have hne : other ≠ flush := by
            rintro rfl
            rw [hs.1] at hp
            cases hp
          exact ⟨other, pending, by rw [setFlush_of_ne hne]; exact hp, hle⟩
    · rename_i taken hpe
      cases h
      obtain ⟨hns, ha⟩ := hk (.claiming taken) rfl
      refine ⟨hns, ha, ?_, hsc⟩
      intro version hm card hca
      rcases hin.covered version hm card hca with hr | hle | hw
      · exact Or.inl hr
      · exact Or.inr (Or.inl hle)
      · refine Or.inr (Or.inr ?_)
        rcases hw with ⟨other, pending, ho, hle⟩ | ⟨other, pending, hp, hle⟩
        · by_cases heq : other = instance_
          · subst heq
            rw [hpe, Option.mem_some_iff] at ho
            subst ho
            exact Or.inr ⟨flush, _, setFlush_self, hle⟩
          · left
            refine ⟨other, pending, ?_, hle⟩
            simp only [State.setFlush, update_of_ne heq]
            exact ho
        · right
          have hne : other ≠ flush := by
            rintro rfl
            rw [hs.1] at hp
            cases hp
          exact ⟨other, pending, by rw [setFlush_of_ne hne]; exact hp, hle⟩

theorem le_claimed {version card : Nat} (hc : card < setup.cards)
    (hl : state.recalled card = false) :
    version ≤ (claimed setup state flush version).published card := by
  simp only [claimed, State.setFlush]
  split
  · exact Nat.le_refl _
  · rename_i hn
    by_contra hlt
    exact hn (mem_claimable.mpr ⟨hc, hl, by omega⟩)

theorem keeps_claimVersion (hiv : Inv setup state)
    (h : claimVersion setup state flush = some next) : Inv setup next := by
  unfold claimVersion at h
  split at h
  · rename_i version hp
    simp only [Option.some.injEq] at h
    have hnx : next = claimed setup state flush version := h.symm
    rw [hnx]
    have hn : (state.flushes flush).claims = [] := by
      rw [hp]
      rfl
    refine ⟨nested_claimed hiv.nested hp, ?_, ?_, hiv.scheduled⟩
    · intro card
      by_cases hm : card ∈ claimable setup state version
      · refine Or.inr (Or.inr ⟨flush, ⟨card, state.published card⟩, ?_, rfl⟩)
        have hin : (⟨card, state.published card⟩ : ClaimedBinding) ∈
            (nextSend version ((claimable setup state version).map fun card =>
              ⟨card, state.published card⟩)).claims := by
          rw [claims_nextSend]
          exact List.mem_map_of_mem (f := fun card => (⟨card, state.published card⟩ : ClaimedBinding))
            hm
        have hpu : (claimed setup state flush version).published card = version :=
          if_pos hm
        rw [hpu]
        exact ⟨by rw [claimed, setFlush_self]; exact hin,
          by rw [claimed, setFlush_self]; exact version_nextSend hin⟩
      · have hpu : (claimed setup state flush version).published card =
            state.published card := if_neg hm
        rw [hpu]
        refine (hiv.alive card).mono ?_ fun _ hs => hs
        intro other binding hh _
        have hne : other ≠ flush := by
          rintro rfl
          have hc := hh.mem
          rw [hn] at hc
          exact absurd hc List.not_mem_nil
        exact ⟨by rw [claimed, setFlush_of_ne hne]; exact hh.mem,
          by rw [claimed, setFlush_of_ne hne]; exact hh.version_eq⟩
    · intro refused hm card hca
      rcases hiv.covered refused hm card hca with hr | hle | hw
      · exact Or.inl hr
      · exact Or.inr (Or.inl (Nat.le_trans hle (published_le_claimed card)))
      · rcases hw with ⟨other, pending, ho, hle⟩ | ⟨other, pending, ho, hle⟩
        · exact Or.inr (Or.inr (Or.inl ⟨other, pending, ho, hle⟩))
        · by_cases heq : other = flush
          · subst heq
            rw [hp, FlushPhase.claiming.injEq] at ho
            subst ho
            cases hl : state.recalled card with
            | true => exact Or.inl hl
            | false => exact Or.inr (Or.inl (Nat.le_trans hle (le_claimed hca hl)))
          · refine Or.inr (Or.inr (Or.inr ⟨other, pending, ?_, hle⟩))
            rw [claimed, setFlush_of_ne heq]
            exact ho
  · cases h

theorem waiting_setFlush {phase : FlushPhase} {version : Nat}
    (hp : ∀ pending, state.flushes flush ≠ .claiming pending) (h : Waiting state version) :
    Waiting (state.setFlush flush phase) version := by
  rcases h with hs | ⟨other, pending, ho, hle⟩
  · exact Or.inl hs
  · refine Or.inr ⟨other, pending, ?_, hle⟩
    have hne : other ≠ flush := by
      rintro rfl
      exact hp pending ho
    rw [setFlush_of_ne hne]
    exact ho

theorem holds_setFlush_rest {other version found : Nat} {binding binding' : ClaimedBinding}
    {rest : List ClaimedBinding} (hc : (state.flushes flush).claims = binding :: rest)
    (hv : (state.flushes flush).version = version) (h : Holds state other binding' found)
    (hne : other = flush → binding' ≠ binding) :
    Holds (state.setFlush flush (nextSend version rest)) other binding' found := by
  by_cases heq : other = flush
  · subst heq
    have hm := h.mem
    rw [hc] at hm
    have hr : binding' ∈ rest := (List.mem_cons.mp hm).resolve_left (hne rfl)
    have hin : binding' ∈ (nextSend version rest).claims := by
      rw [claims_nextSend]
      exact hr
    exact ⟨by rw [setFlush_self]; exact hin,
      by rw [setFlush_self, version_nextSend hin, ← hv, h.version_eq]⟩
  · exact ⟨by rw [setFlush_of_ne heq]; exact h.mem, by rw [setFlush_of_ne heq]; exact h.version_eq⟩

theorem keeps_send {ok : Bool} (hin : Inv setup state)
    (h : send state flush ok = some next) : Inv setup next := by
  unfold send at h
  split at h
  · rename_i version binding rest hp
    have hcl : (state.flushes flush).claims = binding :: rest := by rw [hp]; rfl
    have hv : (state.flushes flush).version = version := by rw [hp]; rfl
    have hn : ∀ pending, state.flushes flush ≠ .claiming pending := by
      intro pending
      rw [hp]
      simp
    split at h
    · cases h
      refine ⟨nested_sent hin.nested hp, ?_, ?_, hin.scheduled⟩
      · intro card
        rcases hin.alive card with hii | hs | ⟨other, binding', hh, hc⟩
        · exact Or.inl hii
        · exact Or.inr (Or.inl (List.mem_cons_of_mem _ hs))
        · by_cases hsa : other = flush ∧ binding' = binding
          · obtain ⟨rfl, rfl⟩ := hsa
            right
            left
            have hf := hh.version_eq
            rw [hv] at hf
            simp only [State.setFlush] at hf ⊢
            rw [← hf, ← hc]
            exact List.mem_cons_self
          · have hre := holds_setFlush_rest hcl hv hh fun hfl heq => hsa ⟨hfl, heq⟩
            exact Or.inr (Or.inr ⟨other, binding', ⟨hre.mem, hre.version_eq⟩, hc⟩)
      · intro refused hm card hc
        rcases hin.covered refused hm card hc with hr | hle | hw
        · exact Or.inl hr
        · exact Or.inr (Or.inl hle)
        · exact Or.inr (Or.inr (waiting_setFlush hn hw))
    · cases h
      refine ⟨hin.nested.setFlush ?_ ?_, ?_, ?_, hin.scheduled⟩
      · rw [hcl]
        exact List.Sublist.refl _
      · intro _
        rw [hv]
        rfl
      · intro card
        refine (hin.alive card).mono ?_ fun _ hs => hs
        intro other binding' hh _
        by_cases heq : other = flush
        · subst heq
          have hm := hh.mem
          have hf := hh.version_eq
          rw [hcl] at hm
          rw [hv] at hf
          exact ⟨by rw [setFlush_self]; exact hm, by rw [setFlush_self]; exact hf⟩
        · exact ⟨by rw [setFlush_of_ne heq]; exact hh.mem,
            by rw [setFlush_of_ne heq]; exact hh.version_eq⟩
      · intro refused hm card hc
        rcases hin.covered refused hm card hc with hr | hle | hw
        · exact Or.inl hr
        · exact Or.inr (Or.inl hle)
        · exact Or.inr (Or.inr (waiting_setFlush hn hw))
  · cases h

theorem keeps_releaseVersion (hin : Inv setup state)
    (hok : InOrder setup state (.releaseVersion flush))
    (h : releaseVersion state flush = some next) : Inv setup next := by
  unfold releaseVersion at h
  split at h
  · rename_i version binding rest hp
    cases h
    have hcl : (state.flushes flush).claims = binding :: rest := by rw [hp]; rfl
    have hv : (state.flushes flush).version = version := by rw [hp]; rfl
    have ho : Holds state flush binding version := ⟨hcl ▸ List.mem_cons_self, hv⟩
    have hn : ∀ pending, state.flushes flush ≠ .claiming pending := by
      intro pending
      rw [hp]
      simp
    have hl := hok version binding rest hp
    -- what holds of the claim of another version holds without this one
    have ha : ∀ card found, Alive setup state card found → (card = binding.card → found ≠ version) →
          Alive setup (state.setFlush flush (nextSend version rest)) card found := by
      intro card found hf hne
      refine hf.mono ?_ fun _ hse => hse
      intro other binding' hh hc
      apply holds_setFlush_rest hcl hv hh
      rintro rfl rfl
      apply hne hc.symm
      rw [← hh.version_eq, hv]
    refine ⟨nested_released hin.nested hp, ?_, ?_, hin.scheduled⟩
    · intro card
      simp only [State.setFlush]
      by_cases hc : card = binding.card
      · subst hc
        by_cases heq : state.published binding.card = version
        · rw [if_pos heq, update_self]
          obtain ⟨-, hpr, -⟩ := hin.nested.claim_le flush binding version ho
          exact (ha _ _ (hl heq).1 fun _ => by omega).same rfl rfl
        · rw [if_neg heq]
          exact (ha _ _ (hin.alive _) fun _ => heq).same rfl rfl
      · have hs : (if state.published binding.card = version then
            update state.published binding.card binding.priorVersion
            else state.published) card = state.published card := by
          split
          · exact update_of_ne hc _ _
          · rfl
        rw [hs]
        exact (ha card _ (hin.alive card) fun h => absurd h hc).same rfl rfl
    · intro refused hm card hc
      rcases hin.covered refused hm card hc with hr | hle | hw
      · exact Or.inl hr
      · simp only [State.setFlush]
        by_cases hs : card = binding.card ∧ state.published binding.card = version
        · obtain ⟨rfl, heq⟩ := hs
          rw [if_pos heq, update_self]
          rcases (hl heq).2 refused hm with hpr | hlt | hr
          · exact Or.inr (Or.inl hpr)
          · omega
          · exact Or.inl hr
        · right
          left
          split
          · rename_i heq
            rw [update_of_ne (fun h => hs ⟨h, heq⟩)]
            exact hle
          · exact hle
      · exact Or.inr (Or.inr (waiting_setFlush hn hw))
  · cases h

end Flushes

section Runs

variable {setup : Setup}

theorem inv_step (state : State) (action : Action) (next : State) (hin : Inv setup state)
    (hok : InOrder setup state action) (h : step setup state action = some next) :
    Inv setup next := by
  cases action with
  | readBindings submit ok => exact keeps_readBindings hin h
  | compare submit => exact keeps_compare hin hok h
  | take flush instance_ => exact keeps_take hin h
  | claimVersion flush => exact keeps_claimVersion hin h
  | send flush ok => exact keeps_send hin h
  | releaseVersion flush => exact keeps_releaseVersion hin hok h
  | «recall» card =>
    cases h
    refine ⟨hin.nested.same rfl rfl rfl, fun card => (hin.alive card).same rfl rfl, ?_, hin.scheduled⟩
    intro version hm other ho
    rcases hin.covered version hm other ho with hr | hre
    · left
      by_cases heq : other = card
      · subst heq
        exact update_self _ _ _
      · simp only [update_of_ne heq]
        exact hr
    · exact Or.inr hre

end Runs

section Counterexample

end Counterexample

end FlareIm.PluginState
