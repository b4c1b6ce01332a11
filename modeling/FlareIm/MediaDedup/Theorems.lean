import FlareIm.MediaDedup

namespace FlareIm.MediaDedup

open RoundTrip Transition
open Function (update_of_ne update_self)

variable {phase : Phase} {bytes : Bytes} {asset changed : Asset} {outcome : Outcome}
  {other : FileKey} {next : State} {remembered : Bool}

section Statement

def Phase.copy : Phase → Option (FileKey × Asset)
  | .creatingReference key asset _ | .countingReferences key asset _ | .savingMetadata key asset _
  | .answering key asset | .deletingReference key asset => some (key, asset)
  | .notStarted | .puttingObject | .mergingParts | .completing | .deletingObject | .deletingRow
  | .deletingClaimed | .committing | .releasing | .finished => none

-- The file a store call has found and is about to return.
def Phase.reused : Phase → Option (FileKey × Asset)
  | .creatingReference key asset true | .countingReferences key asset true
  | .savingMetadata key asset .reused | .savingMetadata key asset (.referenced true)
  | .answering key asset => some (key, asset)
  | _ => none

-- The metadata is that of a row or of the cache, or a call holds it.
def Copied (state : State) (key : FileKey) (asset : Asset) : Prop :=
  state.rows key = some asset ∨ state.cache key = some asset ∨
    ∃ call, (state.phases call).copy = some (key, asset)

variable (setup : Setup)

-- The hash, if there is one, is that of no other content.
def NamesOnly (sha256 : Option String) (bytes : Bytes) : Prop :=
  ∀ hash, sha256 = some hash → ∀ payload, setup.sha256 payload = hash → payload = bytes

-- What is written to the object of a file is what the hash in every copy of its metadata names.
def WritesNamed (state : State) (key : FileKey) (bytes : Bytes) : Prop :=
  ∀ asset, Copied state key asset → NamesOnly setup asset.sha256 bytes

def NotReused (state : State) (key : FileKey) : Prop :=
  ∀ call asset, (state.phases call).reused ≠ some (key, asset)

def Regular (state : State) : Action → Prop
  | .putByClient call bytes => ∀ session, setup.call call = .completeDirectUpload session →
      WritesNamed setup state session.key bytes
  | .mergeParts call bytes outcome => ∀ session, setup.call call = .completeDirectUpload session →
      outcome.takesEffect = true → WritesNamed setup state session.key bytes
  | .putObject call outcome => ∀ key ownerId payload messageManaged,
      setup.call call = .storeMediaFile key ownerId payload messageManaged →
        outcome.takesEffect = true → WritesNamed setup state key payload
  | .persistDirectUpload call _ outcome => ∀ session,
      setup.call call = .completeDirectUpload session → outcome.takesEffect = true →
        ∀ bytes, state.objects session.key = some bytes →
          NamesOnly setup session.declaredSha256 bytes
  | .loadByHash call (some found) outcome => ∀ key ownerId payload messageManaged existing,
      setup.call call = .storeMediaFile key ownerId payload messageManaged →
        outcome = .answered → state.rows found = some existing →
          MediaReferences.canReuseHashMatch existing.lifecycle messageManaged = true →
            existing.ownerId = some ownerId → state.removal found = none
  | .deleteObject call outcome => ∀ key ownerId, setup.call call = .deleteMediaFile key ownerId →
      outcome.takesEffect = true → NotReused state key
  | .deleteClaimed call outcome => ∀ key, setup.call call = .cleanupOrphanedAssets key →
      outcome.takesEffect = true → NotReused state key
  | .release call outcome => ∀ session, setup.call call = .releaseUpload session →
      outcome.takesEffect = true → NotReused state session.key
  | _ => True

-- A store call that returns a file that was there returns one of its tenant and owner, which
-- has the payload for its object and was not removed by a cleanup.
def Answer.IsOfCaller (answer : Answer) : Prop :=
  ∃ key ownerId payload messageManaged,
    setup.call answer.call = .storeMediaFile key ownerId payload messageManaged ∧
      answer.object = some payload ∧ answer.key.tenantId = key.tenantId ∧
        answer.ownerId = some ownerId ∧ answer.removal ≠ some .cleanup

end Statement

variable {setup : Setup} {state : State} {call : Nat}

section Invariant

def Written (state : State) (key : FileKey) : Prop :=
  state.objects key ≠ none ∨ state.removal key ≠ none

-- The hash may stand in metadata of the file.
def Fits (setup : Setup) (state : State) (key : FileKey) (sha256 : Option String) : Prop :=
  (∀ bytes, state.objects key = some bytes → NamesOnly setup sha256 bytes) ∧ Written state key

structure Reuses (setup : Setup) (state : State) (call : Nat) (key : FileKey) (asset : Asset) :
    Prop where
  found : ∃ own ownerId payload messageManaged,
    setup.call call = .storeMediaFile own ownerId payload messageManaged ∧
      key.tenantId = own.tenantId ∧ asset.ownerId = some ownerId ∧
        asset.sha256 = some (setup.sha256 payload)
  present : state.removal key = none

structure Inv (setup : Setup) (state : State) : Prop where
  fits : ∀ key asset, Copied state key asset → Fits setup state key asset.sha256
  completing : ∀ call session, setup.call call = .completeDirectUpload session →
    state.phases call = .completing → Written state session.key
  reuses : ∀ call key asset, (state.phases call).reused = some (key, asset) →
    Reuses setup state call key asset
  answers : ∀ answer ∈ state.answers, answer.IsOfCaller setup

theorem inv_initial : Inv setup {} where
  fits key asset h := by
    rcases h with h | h | ⟨call, h⟩ <;> cases h
  completing call session _ h := by cases h
  reuses call key asset h := by cases h
  answers answer h := absurd h List.not_mem_nil

-- What a call that goes on to a phase has to bring along.
structure MayGoTo (setup : Setup) (state : State) (call : Nat) (phase : Phase) : Prop where
  copy : ∀ key asset, phase.copy = some (key, asset) → Fits setup state key asset.sha256
  completing : ∀ session, setup.call call = .completeDirectUpload session →
    phase = .completing → Written state session.key
  reused : ∀ key asset, phase.reused = some (key, asset) → Reuses setup state call key asset

theorem MayGoTo.plain (hc : phase.copy = none) (hr : phase.reused = none)
    (hp : phase ≠ .completing) : MayGoTo setup state call phase where
  copy key asset h := by rw [hc] at h; cases h
  completing session _ h := absurd h hp
  reused key asset h := by rw [hr] at h; cases h

theorem Inv.goTo (h : Inv setup state) (hp : MayGoTo setup state call phase) :
    Inv setup (state.goTo call phase) := by
  have hph : ∀ other, (state.goTo call phase).phases other =
      if other = call then phase else state.phases other := fun other => by
    simp [State.goTo, Function.update_apply]
  refine ⟨?_, ?_, ?_, h.answers⟩
  · rintro key asset (hr | hca | ⟨other, ho⟩)
    · exact h.fits key asset (Or.inl hr)
    · exact h.fits key asset (Or.inr (Or.inl hca))
    · rw [hph] at ho
      split at ho
      · exact hp.copy key asset ho
      · exact h.fits key asset (Or.inr (Or.inr ⟨other, ho⟩))
  · intro other session hs hc
    rw [hph] at hc
    split at hc
    · rename_i heq
      subst heq
      exact hp.completing session hs hc
    · exact h.completing other session hs hc
  · intro other key asset hre
    rw [hph] at hre
    split at hre
    · rename_i heq
      subst heq
      obtain ⟨hf, hpr⟩ := hp.reused key asset hre
      exact ⟨hf, hpr⟩
    · obtain ⟨hf, hpr⟩ := h.reuses other key asset hre
      exact ⟨hf, hpr⟩

theorem Inv.finish (h : Inv setup state) : Inv setup (state.goTo call .finished) :=
  h.goTo (.plain rfl rfl (by decide))

theorem written_writeObject (state : State) (key other : FileKey) (bytes : Bytes)
    (h : other = key ∨ Written state other) : Written (state.writeObject key bytes) other := by
  by_cases hk : other = key
  · subst hk
    simp [Written, State.writeObject]
  · have hold := h.resolve_left hk
    simpa [Written, State.writeObject, update_of_ne hk] using hold

theorem written_dropObject (state : State) (key other : FileKey) (remover : Remover)
    (h : Written state other) : Written (state.dropObject key remover) other := by
  by_cases hk : other = key
  · subst hk
    simp [Written, State.dropObject]
  · simpa [Written, State.dropObject, update_of_ne hk] using h

theorem Inv.writeObject (h : Inv setup state) {key : FileKey}
    (hn : WritesNamed setup state key bytes) : Inv setup (state.writeObject key bytes) := by
  refine ⟨?_, ?_, ?_, h.answers⟩
  · intro other asset hco
    have hco : Copied state other asset := hco
    obtain ⟨hfi, hw⟩ := h.fits other asset hco
    refine ⟨fun content hc => ?_, written_writeObject state key other bytes (Or.inr hw)⟩
    by_cases hk : other = key
    · subst hk
      simp only [State.writeObject, update_self, Option.some.injEq] at hc
      exact hc ▸ hn asset hco
    · simp only [State.writeObject, update_of_ne hk] at hc
      exact hfi content hc
  · intro other session hs hp
    have hw := h.completing other session hs hp
    exact written_writeObject state key _ bytes (Or.inr hw)
  · intro other key' asset hr
    obtain ⟨hf, hpr⟩ := h.reuses other key' asset hr
    refine ⟨hf, ?_⟩
    by_cases hk : key' = key
    · subst hk
      simp [State.writeObject]
    · simpa only [State.writeObject, update_of_ne hk] using hpr

theorem Inv.dropObject (h : Inv setup state) {key : FileKey} {remover : Remover}
    (hfr : NotReused state key) : Inv setup (state.dropObject key remover) := by
  refine ⟨?_, ?_, ?_, h.answers⟩
  · intro other asset hco
    have hco : Copied state other asset := hco
    obtain ⟨hfi, hw⟩ := h.fits other asset hco
    refine ⟨fun content hc => ?_, written_dropObject state key other remover hw⟩
    by_cases hk : other = key
    · subst hk
      simp [State.dropObject] at hc
    · simp only [State.dropObject, update_of_ne hk] at hc
      exact hfi content hc
  · intro other session hs hp
    exact written_dropObject state key _ remover (h.completing other session hs hp)
  · intro other key' asset hr
    obtain ⟨hf, hpr⟩ := h.reuses other key' asset hr
    refine ⟨hf, ?_⟩
    have hk : key' ≠ key := by
      rintro rfl
      exact hfr other asset hr
    simpa only [State.dropObject, update_of_ne hk] using hpr

theorem sha256_upserted (row : Option Asset) (asset : Asset) :
    (upserted row asset).sha256 = asset.sha256 := by
  cases row <;> rfl

theorem Inv.upsert (h : Inv setup state) {key : FileKey}
    (hfi : Fits setup state key asset.sha256) : Inv setup (state.upsert key asset) := by
  refine ⟨?_, h.completing, ?_, h.answers⟩
  · rintro other copy (hr | hc | hp)
    · by_cases hk : other = key
      · subst hk
        simp only [State.upsert, update_self, Option.some.injEq] at hr
        rw [← hr, sha256_upserted]
        exact hfi
      · simp only [State.upsert, update_of_ne hk] at hr
        exact h.fits other copy (Or.inl hr)
    · exact h.fits other copy (Or.inr (Or.inl hc))
    · exact h.fits other copy (Or.inr (Or.inr hp))
  · intro other key' copy hre
    obtain ⟨hf, hpr⟩ := h.reuses other key' copy hre
    exact ⟨hf, hpr⟩

theorem Inv.remember (h : Inv setup state) {key : FileKey}
    (hfi : Fits setup state key asset.sha256) : Inv setup (state.remember key asset) := by
  refine ⟨?_, h.completing, ?_, h.answers⟩
  · rintro other copy (hr | hc | hp)
    · exact h.fits other copy (Or.inl hr)
    · by_cases hk : other = key
      · subst hk
        simp only [State.remember, update_self, Option.some.injEq] at hc
        exact hc ▸ hfi
      · simp only [State.remember, update_of_ne hk] at hc
        exact h.fits other copy (Or.inr (Or.inl hc))
    · exact h.fits other copy (Or.inr (Or.inr hp))
  · intro other key' copy hre
    obtain ⟨hf, hpr⟩ := h.reuses other key' copy hre
    exact ⟨hf, hpr⟩

theorem Inv.dropRow (h : Inv setup state) (key : FileKey) : Inv setup (state.dropRow key) := by
  refine ⟨?_, h.completing, ?_, h.answers⟩
  · rintro other copy (hr | hc | hp)
    · by_cases hk : other = key
      · subst hk
        simp [State.dropRow] at hr
      · simp only [State.dropRow, update_of_ne hk] at hr
        exact h.fits other copy (Or.inl hr)
    · exact h.fits other copy (Or.inr (Or.inl hc))
    · exact h.fits other copy (Or.inr (Or.inr hp))
  · intro other key' copy hre
    obtain ⟨hf, hpr⟩ := h.reuses other key' copy hre
    exact ⟨hf, hpr⟩

theorem Inv.forget (h : Inv setup state) (key : FileKey) : Inv setup (forget state key) := by
  refine ⟨?_, h.completing, ?_, h.answers⟩
  · rintro other copy (hr | hc | hp)
    · exact h.fits other copy (Or.inl hr)
    · by_cases hk : other = key
      · subst hk
        simp [MediaDedup.forget] at hc
      · simp only [MediaDedup.forget, update_of_ne hk] at hc
        exact h.fits other copy (Or.inr (Or.inl hc))
    · exact h.fits other copy (Or.inr (Or.inr hp))
  · intro other key' copy hre
    obtain ⟨hf, hpr⟩ := h.reuses other key' copy hre
    exact ⟨hf, hpr⟩

theorem Inv.setClaimed (h : Inv setup state) (key : FileKey) (claimed : Bool) :
    Inv setup (state.setClaimed key claimed) :=
  ⟨h.fits, h.completing, fun other key' copy hr =>
    ⟨(h.reuses other key' copy hr).found, (h.reuses other key' copy hr).present⟩,
    h.answers⟩

theorem Inv.ifTakesEffect (h : Inv setup state) {changed : State}
    (hc : outcome.takesEffect = true → Inv setup changed) :
    Inv setup (if outcome.takesEffect then changed else state) := by
  split
  · rename_i hef
    exact hc hef
  · exact h

theorem Inv.ifRemembered (h : Inv setup state) {key : FileKey}
    (hf : Fits setup state key asset.sha256) (remembered : Bool) :
    Inv setup (if remembered then state.remember key asset else state) := by
  split
  · exact h.remember hf
  · exact h

end Invariant

section Store

theorem namesOnly_own (hin : Function.Injective setup.sha256) (payload : Bytes) :
    NamesOnly setup (some (setup.sha256 payload)) payload := by
  intro hash hh other ho
  exact hin (ho.trans (Option.some.inj hh).symm)

theorem findsByHash_some {tenantId sha256 : String} {found : FileKey}
    (hr : state.rows found = some asset)
    (hf : state.findsByHash tenantId sha256 (some found) = true) :
    found.tenantId = tenantId ∧ asset.sha256 = some sha256 := by
  simp only [State.findsByHash, hr, Bool.and_eq_true, beq_iff_eq, Asset.matchesHash] at hf
  exact ⟨hf.1.1, hf.1.2.1⟩

theorem copy_reuse {key : FileKey} {existing : Asset} {messageManaged : Bool}
    (h : (reuse key existing messageManaged).copy = some (other, asset)) :
    other = key ∧ asset.sha256 = existing.sha256 ∧ asset.ownerId = existing.ownerId := by
  unfold reuse at h
  split at h
  · cases h
    exact ⟨rfl, rfl, rfl⟩
  · split at h
    · cases h
      exact ⟨rfl, rfl, rfl⟩
    · cases h
      exact ⟨rfl, rfl, rfl⟩

theorem copy_of_reused {key : FileKey}
    (h : phase.reused = some (key, asset)) : phase.copy = some (key, asset) := by
  unfold Phase.reused at h
  split at h
  all_goals first
    | exact h
    | cases h

theorem inv_loadByHash {found : Option FileKey}
    (h : Inv setup state) (hrg : Regular setup state (.loadByHash call found outcome))
    (hs : loadByHash setup state call found outcome = some next) : Inv setup next := by
  unfold loadByHash at hs
  split at hs
  · rename_i key ownerId payload messageManaged hc hp
    split at hs
    · cases hs
      exact h.finish
    · rename_i ha
      split at hs
      · cases hs
      · rename_i hf
        have hpu : Inv setup (state.goTo call .puttingObject) :=
          h.goTo (.plain rfl rfl Phase.noConfusion)
        cases found with
        | none =>
          cases hs
          exact hpu
        | some other =>
          dsimp only at hs
          split at hs
          · cases hs
          · rename_i existing hr
            split at hs
            · rename_i hre
              cases hs
              have hm := findsByHash_some hr (Bool.not_eq_false _ ▸ hf)
              have hrm := hrg key ownerId payload messageManaged existing hc
                (not_not.mp ha) hr hre.1 hre.2
              refine h.goTo ⟨?_, fun session hse => ?_, ?_⟩
              · intro key' asset hco
                obtain ⟨rfl, hsh, -⟩ := copy_reuse hco
                exact hsh ▸ h.fits key' existing (Or.inl hr)
              · rw [hc] at hse
                cases hse
              · intro key' asset hru
                obtain ⟨rfl, hsh, ho⟩ := copy_reuse (copy_of_reused hru)
                exact ⟨⟨key, ownerId, payload, messageManaged, hc, hm.1,
                  ho.trans hre.2, hsh.trans hm.2⟩, hrm⟩
            · cases hs
              exact hpu
  · cases hs

theorem inv_putObject (hin : Function.Injective setup.sha256) (h : Inv setup state)
    (hr : Regular setup state (.putObject call outcome))
    (hs : putObject setup state call outcome = some next) : Inv setup next := by
  unfold putObject at hs
  split at hs
  · rename_i key ownerId payload messageManaged hc hp
    cases hs
    have hw := h.ifTakesEffect fun hef =>
      h.writeObject (hr key ownerId payload messageManaged hc hef)
    refine hw.goTo ?_
    by_cases ha : outcome = .answered
    · subst ha
      simp only [takesEffect_answered, if_true]
      refine ⟨?_, fun _ _ => Phase.noConfusion, fun _ _ => nofun⟩
      rintro key' asset ⟨⟩
      refine ⟨fun bytes hb => ?_, written_writeObject state key key payload (Or.inl rfl)⟩
      simp only [State.writeObject, update_self, Option.some.injEq] at hb
      exact hb ▸ namesOnly_own hin payload
    · rw [if_neg ha]
      exact .plain rfl rfl Phase.noConfusion
  · cases hs

theorem MayGoTo.withCopy (h : Inv setup state) {key : FileKey}
    (hco : (state.phases call).copy = some (key, asset)) (hp : phase.copy = some (key, changed))
    (hs : changed.sha256 = asset.sha256) (ho : changed.ownerId = asset.ownerId)
    (hr : phase.reused ≠ none → (state.phases call).reused = some (key, asset)) :
    MayGoTo setup state call phase where
  copy key' asset' hco' := by
    rw [hp] at hco'
    cases hco'
    exact hs ▸ h.fits key asset (Or.inr (Or.inr ⟨call, hco⟩))
  completing session _ hcm := by
    rw [hcm] at hp
    cases hp
  reused key' asset' hr' := by
    have hco' := copy_of_reused hr'
    rw [hp] at hco'
    cases hco'
    obtain ⟨⟨own, ownerId, payload, messageManaged, hc, ht, ha, hh⟩, hpr⟩ :=
      h.reuses call key asset (hr (by rw [hr']; nofun))
    exact ⟨⟨own, ownerId, payload, messageManaged, hc, ht, ho.trans ha, hs.trans hh⟩, hpr⟩

theorem inv_createReference {present : Bool} (h : Inv setup state)
    (hs : createReference setup state call present outcome = some next) : Inv setup next := by
  unfold createReference at hs
  split at hs
  · rename_i key asset existing hp
    have hc : (state.phases call).copy = some (key, asset) := by rw [hp]; rfl
    split at hs
    · cases hs
    · split at hs
      · cases hs
        exact h.finish
      · split at hs
        · cases hs
          refine h.goTo (.withCopy h hc rfl rfl rfl fun hr => ?_)
          cases existing with
          | false => exact absurd rfl hr
          | true => rw [hp]; rfl
        · cases hs
          refine h.goTo (.withCopy h hc rfl rfl rfl fun hr => ?_)
          cases existing with
          | false => exact absurd rfl hr
          | true => rw [hp]; rfl
  · cases hs

theorem inv_countReferences {count : Nat} (h : Inv setup state)
    (hs : countReferences setup state call count outcome = some next) : Inv setup next := by
  unfold countReferences at hs
  split at hs
  · rename_i key asset existing hp
    have hc : (state.phases call).copy = some (key, asset) := by rw [hp]; rfl
    split at hs
    · cases hs
      exact h.finish
    · cases hs
      refine h.goTo (.withCopy h hc rfl rfl rfl fun hr => ?_)
      cases existing with
      | false => exact absurd rfl hr
      | true => rw [hp]; rfl
  · cases hs

theorem copy_saved {key : FileKey} {save : Save}
    (h : (saved setup call key asset save).copy = some (other, changed)) :
    other = key ∧ changed = asset := by
  cases save with
  | registered =>
    simp only [saved] at h
    split at h
    · cases h
      exact ⟨rfl, rfl⟩
    · cases h
  | referenced existing =>
    cases existing with
    | true =>
      cases h
      exact ⟨rfl, rfl⟩
    | false => cases h
  | reused =>
    cases h
    exact ⟨rfl, rfl⟩
  | dereferenced => cases h

theorem saved_ne_completing (key : FileKey) (asset : Asset) (save : Save) :
    saved setup call key asset save ≠ .completing := by
  cases save with
  | registered =>
    simp only [saved]
    split <;> exact Phase.noConfusion
  | referenced existing => cases existing <;> exact Phase.noConfusion
  | reused | dereferenced => exact Phase.noConfusion

theorem reused_saved {key : FileKey} {save : Save}
    (h : (saved setup call key asset save).reused = some (other, changed)) :
    (Phase.savingMetadata key asset save).reused = some (other, changed) := by
  cases save with
  | registered =>
    simp only [saved] at h
    split at h <;> cases h
  | referenced existing =>
    cases existing with
    | true => exact h
    | false => cases h
  | reused => exact h
  | dereferenced => cases h

theorem MayGoTo.saved {key : FileKey} {save : Save} (hf : Fits setup state key asset.sha256)
    (hr : ∀ other changed, (Phase.savingMetadata key asset save).reused = some (other, changed) →
        Reuses setup state call other changed) :
    MayGoTo setup state call (saved setup call key asset save) where
  copy other changed hco := by
    obtain ⟨rfl, rfl⟩ := copy_saved hco
    exact hf
  completing session _ hc := absurd hc (saved_ne_completing key asset save)
  reused other changed hre := hr other changed (reused_saved hre)

theorem Inv.save (h : Inv setup state) {key : FileKey}
    (hf : Fits setup state key asset.sha256) (remembered : Bool)
    (hp : MayGoTo setup state call phase) :
    Inv setup ((if remembered then (state.upsert key asset).remember key asset
      else state.upsert key asset).goTo call phase) := by
  have hr : ∀ other changed, phase.reused = some (other, changed) →
      Reuses setup (state.upsert key asset) call other changed := fun other changed hr =>
    ⟨(hp.reused other changed hr).found, (hp.reused other changed hr).present⟩
  cases remembered with
  | true =>
    exact ((h.upsert hf).remember hf).goTo ⟨hp.copy, hp.completing,
      fun other changed ho => ⟨(hr other changed ho).found, (hr other changed ho).present⟩⟩
  | false => exact (h.upsert hf).goTo ⟨hp.copy, hp.completing, hr⟩

theorem inv_saveMetadata (h : Inv setup state)
    (hs : saveMetadata setup state call remembered outcome = some next) : Inv setup next := by
  unfold saveMetadata at hs
  split at hs
  · rename_i key asset save hp
    have hf : Fits setup state key asset.sha256 :=
      h.fits key asset (Or.inr (Or.inr ⟨call, by rw [hp]; rfl⟩))
    split at hs
    · cases hs
    · by_cases ha : outcome = .answered
      · subst ha
        cases hs
        exact h.save hf remembered (.saved hf fun other changed hr =>
          h.reuses call other changed (by rw [hp]; exact hr))
      · simp only [if_neg ha, Option.some.injEq] at hs
        subst hs
        exact (h.ifTakesEffect fun _ => h.upsert hf).finish
  · cases hs

theorem isOfCaller_of_answering (h : Inv setup state) {key : FileKey}
    (hp : state.phases call = .answering key asset) : Answer.IsOfCaller setup
      ⟨call, key, asset.ownerId, state.objects key, state.removal key⟩ := by
  obtain ⟨⟨own, ownerId, payload, messageManaged, hc, ht, ho, hh⟩, hpr⟩ :=
    h.reuses call key asset (by rw [hp]; rfl)
  obtain ⟨hco, hw⟩ := h.fits key asset (Or.inr (Or.inr ⟨call, by rw [hp]; rfl⟩))
  obtain ⟨bytes, hb⟩ := Option.ne_none_iff_exists'.mp (hw.resolve_right (not_not.mpr hpr))
  have hpa : payload = bytes := hco bytes hb _ hh payload rfl
  exact ⟨own, ownerId, payload, messageManaged, hc, hpa ▸ hb, ht, ho, by rw [hpr]; nofun⟩

theorem Inv.addAnswer (h : Inv setup state) {answer : Answer} (ha : answer.IsOfCaller setup) :
    Inv setup { state with answers := answer :: state.answers } where
  fits := h.fits
  completing := h.completing
  reuses call key asset hr :=
    ⟨(h.reuses call key asset hr).found, (h.reuses call key asset hr).present⟩
  answers other hm := by
    rcases List.mem_cons.mp hm with rfl | hm
    · exact ha
    · exact h.answers other hm

theorem inv_answer (h : Inv setup state)
    (hs : answer state call remembered = some next) : Inv setup next := by
  unfold answer at hs
  split at hs
  · rename_i key asset hp
    cases hs
    have hf : Fits setup state key asset.sha256 :=
      h.fits key asset (Or.inr (Or.inr ⟨call, by rw [hp]; rfl⟩))
    have ha := (h.ifRemembered hf remembered).addAnswer (isOfCaller_of_answering h hp)
    have han : (if remembered = true then state.remember key asset else state).answers =
        state.answers := by
      split <;> rfl
    rw [han] at ha
    exact ha.finish
  · cases hs

end Store

section DirectUploads

theorem inv_putByClient (h : Inv setup state) (hr : Regular setup state (.putByClient call bytes))
    (hs : putByClient setup state call bytes = some next) : Inv setup next := by
  unfold putByClient at hs
  split at hs
  · rename_i session hc
    cases hs
    exact h.writeObject (hr session hc)
  · cases hs

theorem inv_beginCompletion (h : Inv setup state)
    (hs : beginCompletion setup state call outcome = some next) : Inv setup next := by
  unfold beginCompletion at hs
  split at hs
  · rename_i session hc hp
    split at hs
    · cases hs
      exact h.finish
    · split at hs
      · cases hs
        exact h.goTo (.plain rfl rfl Phase.noConfusion)
      · split at hs
        · cases hs
          exact h.finish
        · rename_i ho
          cases hs
          refine h.goTo ⟨fun _ _ => nofun, fun session' hse _ => ?_, fun _ _ => nofun⟩
          rw [hc] at hse
          cases hse
          exact Or.inl ho
  · cases hs

theorem inv_mergeParts (h : Inv setup state)
    (hr : Regular setup state (.mergeParts call bytes outcome))
    (hs : mergeParts setup state call bytes outcome = some next) : Inv setup next := by
  unfold mergeParts at hs
  split at hs
  · rename_i session hc hp
    cases hs
    have hw := h.ifTakesEffect fun hef => h.writeObject (hr session hc hef)
    refine hw.goTo ?_
    by_cases ha : outcome = .answered
    · subst ha
      simp only [takesEffect_answered, if_true]
      refine ⟨fun _ _ => nofun, fun session' hse _ => ?_, fun _ _ => nofun⟩
      rw [hc] at hse
      cases hse
      exact written_writeObject state session.key session.key bytes (Or.inl rfl)
    · rw [if_neg ha]
      exact .plain rfl rfl Phase.noConfusion
  · cases hs

theorem inv_persistDirectUpload (h : Inv setup state)
    (hr : Regular setup state (.persistDirectUpload call remembered outcome))
    (hs : persistDirectUpload setup state call remembered outcome = some next) :
    Inv setup next := by
  unfold persistDirectUpload at hs
  split at hs
  · rename_i session hc hp
    split at hs
    · cases hs
    · have hf : outcome.takesEffect = true →
          Fits setup state session.key session.declaredSha256 := fun hef =>
        ⟨hr session hc hef, h.completing call session hc hp⟩
      by_cases ha : outcome = .answered
      · subst ha
        cases hs
        exact h.save (hf rfl) remembered (.saved (hf rfl) fun _ _ => nofun)
      · simp only [if_neg ha, Option.some.injEq] at hs
        subst hs
        exact (h.ifTakesEffect fun hef => h.upsert (hf hef)).finish
  · cases hs

theorem inv_loadUnregistered (h : Inv setup state)
    (hs : loadUnregistered setup state call outcome = some next) : Inv setup next := by
  unfold loadUnregistered at hs
  split at hs
  · cases hs
    split
    · exact h.goTo (.plain rfl rfl Phase.noConfusion)
    · exact h.finish
  · cases hs

theorem inv_release (h : Inv setup state) (hr : Regular setup state (.release call outcome))
    (hs : release setup state call outcome = some next) : Inv setup next := by
  unfold release at hs
  split at hs
  · rename_i session hc hp
    cases hs
    exact (h.ifTakesEffect fun hef => h.dropObject (hr session hc hef)).finish
  · cases hs

end DirectUploads

section Deletions

theorem inv_loadMetadata (h : Inv setup state)
    (hs : loadMetadata setup state call remembered outcome = some next) : Inv setup next := by
  unfold loadMetadata at hs
  split at hs
  · rename_i key ownerId hc hp
    split at hs
    · cases hs
      exact h.finish
    · split at hs
      · cases hs
        exact h.finish
      · rename_i asset ha
        have hcp : Copied state key asset := by
          rcases Option.or_eq_some_iff.mp ha with hca | ⟨-, hr⟩
          · exact Or.inr (Or.inl hca)
          · exact Or.inl hr
        have hf := h.fits key asset hcp
        cases hs
        refine (h.ifRemembered hf remembered).goTo ?_
        have hf : Fits setup (if remembered then state.remember key asset else state) key
            asset.sha256 := by
          cases remembered
          · exact hf
          · exact hf
        by_cases ho : asset.ownerId ≠ some ownerId
        · rw [if_pos ho]
          exact .plain rfl rfl Phase.noConfusion
        · rw [if_neg ho]
          by_cases hco : asset.lifecycle.referenceCount > 1
          · rw [if_pos hco]
            refine ⟨?_, fun _ _ => Phase.noConfusion, fun _ _ => nofun⟩
            rintro key' asset' ⟨⟩
            exact hf
          · rw [if_neg hco]
            exact .plain rfl rfl Phase.noConfusion
  · cases hs

theorem inv_deleteReference {count : Nat} (h : Inv setup state)
    (hs : deleteReference setup state call count = some next) : Inv setup next := by
  unfold deleteReference at hs
  split at hs
  · rename_i key asset hp
    cases hs
    have hc : (state.phases call).copy = some (key, asset) := by rw [hp]; rfl
    exact h.goTo (.withCopy h hc rfl rfl rfl fun hr => absurd rfl hr)
  · cases hs

theorem inv_deleteObject (h : Inv setup state)
    (hr : Regular setup state (.deleteObject call outcome))
    (hs : deleteObject setup state call outcome = some next) : Inv setup next := by
  unfold deleteObject at hs
  split at hs
  · rename_i key ownerId hc hp
    cases hs
    exact (h.ifTakesEffect fun hef => h.dropObject (hr key ownerId hc hef)).goTo
      (.plain rfl rfl Phase.noConfusion)
  · cases hs

theorem inv_deleteRow (h : Inv setup state)
    (hs : deleteRow setup state call outcome = some next) : Inv setup next := by
  unfold deleteRow at hs
  split at hs
  · rename_i key ownerId hc hp
    split at hs
    · cases hs
    · cases hs
      exact (h.ifTakesEffect fun _ => h.dropRow key).finish
  · cases hs

theorem inv_claim {before : Nat} (h : Inv setup state)
    (hs : claim setup state call before outcome = some next) : Inv setup next := by
  unfold claim at hs
  split at hs
  · rename_i key hc hp
    split at hs
    · cases hs
    · split at hs
      · cases hs
        exact (h.setClaimed key true).goTo (.plain rfl rfl Phase.noConfusion)
      · cases hs
        exact h.finish
  · cases hs

theorem inv_deleteClaimed (h : Inv setup state)
    (hr : Regular setup state (.deleteClaimed call outcome))
    (hs : deleteClaimed setup state call outcome = some next) : Inv setup next := by
  unfold deleteClaimed at hs
  split at hs
  · rename_i key hc hp
    have hde := h.ifTakesEffect fun hef =>
      @Inv.dropObject _ _ h key .cleanup (hr key hc hef)
    by_cases ha : outcome = .answered
    · simp only [if_pos ha, Option.some.injEq] at hs
      subst hs
      exact hde.goTo (.plain rfl rfl Phase.noConfusion)
    · simp only [if_neg ha, Option.some.injEq] at hs
      subst hs
      exact (hde.setClaimed key false).finish
  · cases hs

theorem inv_commit (h : Inv setup state)
    (hs : commit setup state call outcome = some next) : Inv setup next := by
  unfold commit at hs
  split at hs
  · rename_i key hc hp
    cases hs
    exact ((h.ifTakesEffect fun _ => h.dropRow key).setClaimed key false).finish
  · cases hs

end Deletions

section Runs

theorem inv_step (hin : Function.Injective setup.sha256) {action : Action}
    (h : Inv setup state) (hr : Regular setup state action)
    (hs : step setup state action = some next) : Inv setup next := by
  cases action with
  | tick =>
    cases hs
    exact ⟨h.fits, h.completing, fun other key asset hre =>
      ⟨(h.reuses other key asset hre).found, (h.reuses other key asset hre).present⟩,
      h.answers⟩
  | forget key =>
    cases hs
    exact h.forget key
  | putByClient call bytes => exact inv_putByClient h hr hs
  | loadByHash call found outcome => exact inv_loadByHash h hr hs
  | putObject call outcome => exact inv_putObject hin h hr hs
  | beginCompletion call outcome => exact inv_beginCompletion h hs
  | mergeParts call bytes outcome => exact inv_mergeParts h hr hs
  | persistDirectUpload call remembered outcome => exact inv_persistDirectUpload h hr hs
  | createReference call present outcome => exact inv_createReference h hs
  | countReferences call count outcome => exact inv_countReferences h hs
  | saveMetadata call remembered outcome => exact inv_saveMetadata h hs
  | answer call remembered => exact inv_answer h hs
  | loadMetadata call remembered outcome => exact inv_loadMetadata h hs
  | deleteReference call count => exact inv_deleteReference h hs
  | deleteObject call outcome => exact inv_deleteObject h hr hs
  | deleteRow call outcome => exact inv_deleteRow h hs
  | claim call before outcome => exact inv_claim h hs
  | deleteClaimed call outcome => exact inv_deleteClaimed h hr hs
  | commit call outcome => exact inv_commit h hs
  | loadUnregistered call outcome => exact inv_loadUnregistered h hs
  | release call outcome => exact inv_release h hr hs

-- While direct uploads keep to the hashes they declare and no file that is found is deleted before
-- it is returned, a store call that returns a file that was there returns the caller's content.
theorem answers_are_of_caller (setup : Setup) (hinjective : Function.Injective setup.sha256)
    {actions : List Action} {state : State}
    (hrun : Run (step setup) (Regular setup) {} actions state) :
    ∀ answer ∈ state.answers, answer.IsOfCaller setup := by
  have hinv : Inv setup state := hrun.preserves (Inv setup)
    (fun _ _ _ h hregular hstep => inv_step hinjective h hregular hstep) inv_initial
  exact hinv.answers

-- The hash of the one byte, and a hash without collisions.
def sampleSha256 (payload : Bytes) : String :=
  if payload = [1] then "4bf5122f344554c53bde2ebb8cd2b7e3d1600ad631c385a5d7cce23c7785459a"
  else String.ofList ('#' :: payload.map Char.ofUInt8)

theorem ofUInt8_injective : Function.Injective Char.ofUInt8 := by
  intro byte other h
  exact UInt8.toUInt32_inj.mp (congrArg Char.val h)

theorem sampleSha256_injective : Function.Injective sampleSha256 := by
  have ho : ∀ payload : Bytes, "4bf5122f344554c53bde2ebb8cd2b7e3d1600ad631c385a5d7cce23c7785459a" ≠
        String.ofList ('#' :: payload.map Char.ofUInt8) := by
    intro payload h
    have hl := congrArg String.toList h
    rw [String.toList_ofList, String.toList_ofList] at hl
    cases hl
  intro payload other h
  unfold sampleSha256 at h
  split at h
  · rename_i hp
    split at h
    · rename_i hs
      exact hp.trans hs.symm
    · exact absurd h (ho other)
  · split at h
    · exact absurd h.symm (ho payload)
    · have hl := String.ofList_injective h
      exact (List.map_injective_iff.mpr ofUInt8_injective) (List.cons.inj hl).2

def ownFile : FileKey := ⟨"acme", "first"⟩

def laterFile : FileKey := ⟨"acme", "second"⟩

-- The owner stores a file twice.
def storedTwice : Setup where
  sha256 := sampleSha256
  call index := .storeMediaFile (if index = 0 then ownFile else laterFile) "alice" [1] false
  orphanGraceSeconds := 3600

def secondReuses : List Action :=
  [.loadByHash 0 none .answered, .putObject 0 .answered, .saveMetadata 0 false .answered,
   .loadByHash 1 (some ownFile) .answered, .saveMetadata 1 false .answered, .answer 1 false]

theorem nothing_copied {call : Nat} (hp : phase.copy = none)
    (key : FileKey) (asset : Asset) : ¬Copied ((({} : State).goTo call phase)) key asset := by
  rintro (h | h | ⟨other, h⟩)
  · cases h
  · cases h
  · by_cases ho : other = call
    · subst ho
      simp [State.goTo, hp] at h
    · simp [State.goTo, update_of_ne ho, Phase.copy] at h

theorem second_reuse_is_of_owner : ∃ state,
    Run (step storedTwice) (Regular storedTwice) {} secondReuses state ∧
      state.answers = [⟨1, ownFile, some "alice", some [1], none⟩] ∧
        ∀ answer ∈ state.answers, answer.IsOfCaller storedTwice := by
  have hrun : ∃ state, Run (step storedTwice) (Regular storedTwice) {} secondReuses state ∧
      state.answers = [⟨1, ownFile, some "alice", some [1], none⟩] := by
    refine ⟨_, .cons trivial rfl (.cons ?_ rfl (.cons trivial rfl (.cons ?_ rfl (.cons trivial rfl
      (.cons trivial rfl (.nil _)))))), rfl⟩
    · intro key ownerId payload messageManaged _ _ asset hcopied
      exact absurd hcopied (nothing_copied rfl _ _)
    · intro key ownerId payload messageManaged existing _ _ _ _ _
      rfl
  obtain ⟨state, hrun, hanswers⟩ := hrun
  exact ⟨state, hrun, hanswers, answers_are_of_caller storedTwice sampleSha256_injective hrun⟩

-- The client uploads other bytes than it declares the hash of.
def declaredUpload : UploadSession :=
  ⟨ownFile, "alice", false, false, some (sampleSha256 [1]), none⟩

def uploadThenStore : Setup where
  sha256 := sampleSha256
  call index := if index = 0 then .completeDirectUpload declaredUpload
    else .storeMediaFile laterFile "alice" [1] false
  orphanGraceSeconds := 3600

def storeReturnsUpload : List Action :=
  [.putByClient 0 [2], .beginCompletion 0 .answered, .persistDirectUpload 0 false .answered,
   .loadByHash 1 (some ownFile) .answered, .saveMetadata 1 false .answered, .answer 1 false]

theorem run_storeReturnsUpload : ∃ state,
    Run (step uploadThenStore) anyStep {} storeReturnsUpload state ∧
      state.answers = [⟨1, ownFile, some "alice", some [2], none⟩] :=
  ⟨_, .cons trivial rfl (.cons trivial rfl (.cons trivial rfl (.cons trivial rfl
    (.cons trivial rfl (.cons trivial rfl (.nil _)))))), rfl⟩

theorem declared_hash_substitutes : ¬∀ setup : Setup, Function.Injective setup.sha256 →
    ∀ actions state, Run (step setup) anyStep {} actions state →
      ∀ answer ∈ state.answers, answer.IsOfCaller setup := by
  intro h
  obtain ⟨state, hrun, hanswers⟩ := run_storeReturnsUpload
  obtain ⟨key, ownerId, payload, messageManaged, hcall, hobject, -⟩ :=
    h uploadThenStore sampleSha256_injective _ state hrun _
      (hanswers ▸ List.mem_singleton.mpr rfl)
  cases hcall
  cases hobject

end Runs

end FlareIm.MediaDedup
