import FlareIm.MediaReferences

namespace FlareIm.MediaReferences

open RoundTrip Transition
open Function (update_of_ne update_self)

variable {phase : Phase} {call : Nat} {outcome : Outcome}

section Contract

-- The calls that remove a reference without saying which one.
def Call.takesAny : Call → Bool
  | .removeReference none | .deleteMediaFile => true
  | _ => false

def Deletion.Spares (deletion : Deletion) : Prop :=
  deletion.references ≤ if deletion.byCleanup then 0 else 1

-- The status and the grace time that go with a count.
structure MediaFileMetadata.Lifecycle (metadata : MediaFileMetadata) : Prop where
  status_eq : metadata.status =
    if metadata.referenceCount = 0 ∧ metadata.messageManaged then .pending else .active
  grace_iff : metadata.graceExpiresAt.isSome ↔
    metadata.referenceCount = 0 ∧ metadata.messageManaged = true

structure MediaFileMetadata.Agrees (metadata : MediaFileMetadata)
    (references : List MediaReference) : Prop where
  count_eq : metadata.referenceCount = references.length
  lifecycle : metadata.Lifecycle

def Quiescent (state : State) : Prop :=
  ∀ call, state.phases call = .notStarted ∨ state.phases call = .finished

variable (setup : Setup) (ok : State → Action → Prop)

def RemovesOne : Prop :=
  ∀ actions state, Run (step setup) ok initial actions state →
    ∀ removed ∈ state.anyRemovals, removed ≤ 1

def SparesReferenced : Prop :=
  ∀ actions state, Run (step setup) ok initial actions state →
    ∀ deletion ∈ state.deletions, deletion.Spares

def CountsAgree : Prop :=
  ∀ actions state, Run (step setup) ok initial actions state → Quiescent state →
    ∀ row ∈ state.row, row.Agrees state.references

def KeepsObject : Prop :=
  ∀ actions state, Run (step setup) ok initial actions state →
    ∀ row ∈ state.registered, state.object = true

end Contract

section Conditions

-- A call that will still bring the row in line with the references, or take it out of the table.
def Phase.willCount : Phase → Prop
  | .countingReferences _ | .deletingReferences | .deletingMetadataReferences
  | .deletingMetadataRow => True
  | _ => False

def Phase.owes (references : List MediaReference) : Phase → Prop
  | .savingMetadata metadata _ => metadata.referenceCount = references.length
  | phase => phase.willCount

def State.InLine (state : State) : Prop :=
  ∀ row ∈ state.row, row.referenceCount = state.references.length

def State.OwedByOther (state : State) (call : Nat) : Prop :=
  ∃ other ≠ call, (state.phases other).owes state.references

def State.CountedByOther (state : State) (call : Nat) : Prop :=
  ∃ other ≠ call, (state.phases other).willCount

variable (setup : Setup)

-- The call's reference is a new one.
def Inserts (state : State) (call : Nat) : Prop :=
  state.row ≠ none ∧ ∃ scope ∈ (setup.call call).scope,
    ∀ reference ∈ state.references, reference.referenceId ≠ setup.deterministicReferenceId scope

-- A removal without an id meets a file with one reference at most.
def OneReference : State → Action → Prop
  | state, .deleteReference call _ _ =>
    (setup.call call).takesAny = true → state.references.length ≤ 1
  | _, _ => True

-- A delete call that goes on to the object has read no count lower than the references there are,
-- and no second reference comes in before the object is gone.
def LooksCurrent : State → Action → Prop
  | state, .authorize call _ =>
    ∀ metadata, state.phases call = .authorizing metadata →
      authorized setup call metadata = .deletingObject → state.references.length ≤ 1
  | state, .createReference call _ =>
    Inserts setup state call →
      state.references = [] ∨ ∀ other, state.phases other ≠ .deletingObject
  | _, _ => True

-- A count is written back only while it is the number of references, and a call that changed the
-- references gets to write the count. Otherwise another call still has to.
def WritesCurrent : State → Action → Prop
  | state, .createReference call outcome =>
    outcome = .lost → Inserts setup state call → state.CountedByOther call
  | state, .deleteReference call _ outcome =>
    ∀ referenceId, setup.call call = .removeReference referenceId →
      outcome = .lost → kept referenceId state.references ≠ state.references →
        state.CountedByOther call
  | state, .countReferences call outcome =>
    outcome ≠ .answered → state.InLine ∨ state.OwedByOther call ∨
      ∀ metadata, state.phases call = .countingReferences metadata →
        setup.call call = .deleteMediaFile ∧
          metadata.referenceCount - 1 = state.references.length
  | state, .saveMetadata call outcome =>
    (∀ metadata first, state.phases call = .savingMetadata metadata first →
      outcome ≠ .failed ∧ metadata.referenceCount = state.references.length) ∨
      outcome = .failed ∧ state.InLine ∨ state.OwedByOther call
  | state, .deleteMetadataReferences call outcome =>
    (outcome = .lost → (∀ row ∈ state.row, row.referenceCount = 0) ∨
      state.CountedByOther call) ∧
    (outcome = .failed → state.InLine ∨ state.OwedByOther call)
  | state, .deleteMetadataRow call outcome =>
    outcome = .failed → state.InLine ∨ state.OwedByOther call
  | _, _ => True

-- The object is deleted after the row, the row is not written without the object, and a cleanup
-- that has deleted the object does not roll its claim back.
def RowFirst : State → Action → Prop
  | state, .deleteObject _ outcome => outcome = .failed ∨ state.registered = none
  | state, .saveMetadata _ outcome =>
    outcome = .failed ∨ state.row.isSome = true ∨ state.object = true
  | state, .deleteClaimed _ outcome => outcome ≠ .lost ∧ (outcome = .failed → state.object = true)
  | state, .commit _ outcome => outcome = .failed → state.object = true
  | _, _ => True

end Conditions

section Moves

-- The phases that hold the row, and those that owe it a count.
def Phase.holdsClaim : Phase → Bool
  | .deletingClaimed | .committing => true
  | _ => false

structure Phase.Sound (phase : Phase) : Prop where
  lifecycle : ∀ metadata first, phase = .savingMetadata metadata first → metadata.Lifecycle
  free : phase.holdsClaim = false

structure Same (state next : State) : Prop where
  row_eq : next.row = state.row
  references_eq : next.references = state.references
  claimed_eq : next.claimed = state.claimed
  anyRemovals_eq : next.anyRemovals = state.anyRemovals
  deletions_eq : next.deletions = state.deletions
  object : state.object = true → next.object = true

variable {setup : Setup} {state next : State}

-- What a step can do.
inductive Move (setup : Setup) (state : State) : Action → State → Prop where
  | idle {action : Action} {next : State} (hsame : Same state next)
      (hphases : next.phases = state.phases) : Move setup state action next
  | quiet {action : Action} {next : State} {call : Nat} {phase : Phase} (hsame : Same state next)
      (hphases : next.phases = Function.update state.phases call phase)
      (hfree : (state.phases call).holdsClaim = false)
      (howes : ∀ references, (state.phases call).owes references → phase.owes references)
      (hphase : phase.Sound)
      (hdelete : phase = .deletingObject → ∃ allowed metadata, action = .authorize call allowed ∧
        state.phases call = .authorizing metadata ∧
          authorized setup call metadata = .deletingObject) : Move setup state action next
  | insert {call : Nat} {outcome : Outcome} {metadata : MediaFileMetadata}
      {reference : MediaReference} {phase : Phase}
      (hbefore : state.phases call = .creatingReference metadata) (hclaimed : state.claimed = none)
      (hinserts : Inserts setup state call)
      (hphase : phase = .countingReferences metadata ∨ outcome = .lost ∧ phase = .finished) :
      Move setup state (.createReference call outcome)
        ({ state with references := reference :: state.references }.setCall call phase)
  | remove {call : Nat} {elsewhere : Bool} {outcome : Outcome} {metadata : MediaFileMetadata}
      {referenceId : Option String} {phase : Phase}
      (hbefore : state.phases call = .deletingReference metadata)
      (hany : referenceId = none → (setup.call call).takesAny = true)
      (hsound : phase.Sound) (hdelete : phase ≠ .deletingObject)
      (hphase : phase = .countingReferences metadata ∨
        kept referenceId state.references = state.references ∨
          outcome = .lost ∧ setup.call call = .removeReference referenceId) :
      Move setup state (.deleteReference call elsewhere outcome)
        ({ state with
          references := kept referenceId state.references
          anyRemovals := noted referenceId state.references state.anyRemovals }.setCall call phase)
  | count {call : Nat} {outcome : Outcome} {metadata : MediaFileMetadata} {phase : Phase}
      (hbefore : state.phases call = .countingReferences metadata) (hsound : phase.Sound)
      (hdelete : phase ≠ .deletingObject)
      (hphase : phase.owes state.references ∨ outcome ≠ .answered ∧
        (setup.call call = .deleteMediaFile →
          metadata.referenceCount - 1 = state.references.length → phase.owes state.references)) :
      Move setup state (.countReferences call outcome) (state.setCall call phase)
  | save {call : Nat} {outcome : Outcome} {metadata : MediaFileMetadata} {first : Bool}
      {phase : Phase} (hbefore : state.phases call = .savingMetadata metadata first)
      (hclaimed : state.claimed = none) (hsound : phase.Sound) (hdelete : phase ≠ .deletingObject) :
      Move setup state (.saveMetadata call outcome)
        ({ state with row := if outcome.takesEffect then some metadata else state.row }.setCall
          call phase)
  | deleteObject {call : Nat} {outcome : Outcome} (hbefore : state.phases call = .deletingObject) :
      Move setup state (.deleteObject call outcome)
        ((if outcome.takesEffect then state.dropObject false else state).setCall call
          .deletingReferences)
  | deleteAllReferences {call : Nat} {outcome : Outcome}
      (hbefore : state.phases call = .deletingReferences) :
      Move setup state (.deleteAllReferences call outcome)
        ({ state with references := if outcome.takesEffect then [] else state.references }.setCall
          call .deletingMetadataReferences)
  | deleteMetadataReferences {call : Nat} {outcome : Outcome} {phase : Phase}
      (hbefore : state.phases call = .deletingMetadataReferences)
      (hphase : phase = .deletingMetadataRow ∨ outcome ≠ .answered ∧ phase = .invalidating) :
      Move setup state (.deleteMetadataReferences call outcome)
        ({ state with references := if outcome.takesEffect then [] else state.references }.setCall
          call phase)
  | deleteMetadataRow {call : Nat} {outcome : Outcome}
      (hbefore : state.phases call = .deletingMetadataRow) (hclaimed : state.claimed = none) :
      Move setup state (.deleteMetadataRow call outcome)
        ((if outcome.takesEffect then { state with row := none, references := [] }
          else state).setCall call .invalidating)
  | claim {call before : Nat} {outcome : Outcome} (hbefore : state.phases call = .claiming before)
      (hclaimed : state.claimed = none) (hreferences : state.references = []) :
      Move setup state (.claim call outcome)
        ({ state with claimed := some call }.setCall call .deletingClaimed)
  | deleteClaimed {call : Nat} {outcome : Outcome}
      (hbefore : state.phases call = .deletingClaimed) :
      Move setup state (.deleteClaimed call outcome)
        (if outcome = .answered then (state.dropObject true).setCall call .committing
        else { (if outcome.takesEffect then state.dropObject true else state) with
          claimed := none }.setCall call .finished)
  | commit {call : Nat} {outcome : Outcome} {phase : Phase}
      (hbefore : state.phases call = .committing)
      (hphase : phase = .invalidating ∨ phase = .finished) :
      Move setup state (.commit call outcome)
        ((if outcome.takesEffect then { state with row := none, references := [], claimed := none }
          else { state with claimed := none }).setCall call phase)

theorem lifecycle_initial (messageManaged : Bool) (grace : Nat) :
    (initialLifecycleState messageManaged grace).Lifecycle := by
  unfold initialLifecycleState
  cases messageManaged
  · exact ⟨rfl, by simp⟩
  · exact ⟨rfl, by simp⟩

theorem lifecycle_apply (metadata : MediaFileMetadata) (grace : Nat) :
    (metadata.applyReferenceLifecycle grace).Lifecycle := by
  unfold MediaFileMetadata.applyReferenceLifecycle
  split
  · rename_i hp
    have hn : ¬metadata.referenceCount = 0 := Nat.pos_iff_ne_zero.mp hp
    exact ⟨by simp [hn], by simp [hn]⟩
  · rename_i hz
    have hz : metadata.referenceCount = 0 := by omega
    split
    · rename_i hm
      exact ⟨by simp [hz, hm], by simp [hz, hm]⟩
    · rename_i hn
      exact ⟨by simp [hn], by simp [hn]⟩

theorem lifecycle_prepared (call : Nat) (metadata : MediaFileMetadata) :
    (prepared setup state call metadata).Lifecycle := by
  unfold prepared
  split <;> exact lifecycle_apply _ _

theorem count_apply (metadata : MediaFileMetadata) (grace : Nat) :
    (metadata.applyReferenceLifecycle grace).referenceCount = metadata.referenceCount := by
  unfold MediaFileMetadata.applyReferenceLifecycle
  split
  · rfl
  · split <;> rfl

theorem count_prepared (call : Nat) (metadata : MediaFileMetadata) :
    (prepared setup state call metadata).referenceCount = metadata.referenceCount := by
  unfold prepared
  split <;> exact count_apply _ _

theorem Phase.sound_saving {metadata : MediaFileMetadata} (first : Bool)
    (h : metadata.Lifecycle) : (Phase.savingMetadata metadata first).Sound where
  lifecycle other first' heq := by
    cases heq
    exact h
  free := rfl

theorem Phase.sound_of_plain (hf : phase.holdsClaim = false)
    (hs : ∀ metadata first, phase ≠ .savingMetadata metadata first) : phase.Sound where
  lifecycle metadata first heq := absurd heq (hs metadata first)
  free := hf

theorem plain_finished : Phase.finished.Sound := Phase.sound_of_plain rfl (by simp)

theorem Move.goTo {action : Action} (hf : (state.phases call).holdsClaim = false)
    (ho : ∀ references, ¬(state.phases call).owes references) (hp : phase.Sound)
    (hde : phase ≠ .deletingObject) : Move setup state action (state.setCall call phase) :=
  .quiet ⟨rfl, rfl, rfl, rfl, rfl, id⟩ rfl hf (fun _ h => absurd h (ho _)) hp fun h => absurd h hde

theorem move_loadByHash {found sameOwner : Bool}
    (h : loadByHash setup state call found sameOwner outcome = some next) :
    Move setup state (.loadByHash call found sameOwner outcome) next := by
  have hs : (storeAnew setup call).Sound ∧ storeAnew setup call ≠ .deletingObject := by
    unfold storeAnew
    split
    · exact ⟨Phase.sound_of_plain rfl (by simp), by simp⟩
    · exact ⟨plain_finished, by simp⟩
  have hr : ∀ scope existing, (reuse scope existing).Sound ∧
      reuse scope existing ≠ .deletingObject := by
    intro scope existing
    unfold reuse
    split
    · exact ⟨Phase.sound_of_plain rfl (by simp), by simp⟩
    · split
      · exact ⟨Phase.sound_of_plain rfl (by simp), by simp⟩
      · rename_i hm
        exact ⟨Phase.sound_saving false ⟨by simp [hm], by simp [hm]⟩, by simp⟩
  unfold loadByHash at h
  split at h
  · rename_i scope hc hp
    have hgo : ∀ phase : Phase, phase.Sound ∧ phase ≠ .deletingObject →
        Move setup state (.loadByHash call found sameOwner outcome) (state.setCall call phase) := by
      intro phase hp'
      exact .goTo (by rw [hp]; rfl) (by rw [hp]; exact fun _ => id) hp'.1 hp'.2
    split at h
    · cases h
      exact hgo _ ⟨plain_finished, by simp⟩
    · split at h
      · split at h
        · cases h
          exact hgo _ (hr _ _)
        · cases h
          exact hgo _ hs
      · cases h
        exact hgo _ hs
  · cases h

theorem move_getCached (h : getCached setup state call outcome = some next) :
    Move setup state (.getCached call outcome) next := by
  unfold getCached at h
  split at h
  · rename_i hs
    have hgo : ∀ phase : Phase, phase.Sound → phase ≠ .deletingObject →
        Move setup state (.getCached call outcome) (state.setCall call phase) := by
      intro phase hso hde
      exact .goTo (by rw [hs.2]; rfl) (by rw [hs.2]; exact fun _ => id) hso hde
    split at h
    · cases h
      exact hgo _ plain_finished (by simp)
    · split at h
      · cases h
        exact hgo _ (Phase.sound_of_plain rfl (by simp)) (by simp)
      · cases h
        exact hgo _ (Phase.sound_of_plain rfl (by simp)) (by simp)
  · cases h

theorem move_putObject (h : putObject setup state call outcome = some next) :
    Move setup state (.putObject call outcome) next := by
  unfold putObject at h
  split at h
  · rename_i scope hc hp
    cases h
    refine .quiet ⟨rfl, rfl, rfl, rfl, rfl, ?_⟩ rfl (by rw [hp]; rfl)
      (fun references hoe => absurd hoe (by rw [hp]; exact id)) ?_ ?_
    · intro ho
      simp [State.setCall, ho]
    · split
      · exact Phase.sound_saving true (lifecycle_initial _ _)
      · exact plain_finished
    · intro hde
      split at hde <;> cases hde
  · cases h

theorem move_loadMetadata (h : loadMetadata state call outcome = some next) :
    Move setup state (.loadMetadata call outcome) next := by
  unfold loadMetadata at h
  split at h
  · rename_i hp
    have hgo : ∀ phase : Phase, phase.Sound → phase ≠ .deletingObject →
        Move setup state (.loadMetadata call outcome) (state.setCall call phase) := by
      intro phase hs hde
      exact .goTo (by rw [hp]; rfl) (by rw [hp]; exact fun _ => id) hs hde
    split at h
    · cases h
      split
      · exact hgo _ (Phase.sound_of_plain rfl (by simp)) (by simp)
      · exact hgo _ plain_finished (by simp)
    · cases h
      exact hgo _ plain_finished (by simp)
  · cases h

theorem move_cacheLoaded (h : cacheLoaded state call outcome = some next) :
    Move setup state (.cacheLoaded call outcome) next := by
  unfold cacheLoaded at h
  split at h
  · rename_i metadata hp
    cases h
    exact .quiet ⟨rfl, rfl, rfl, rfl, rfl, id⟩ rfl (by rw [hp]; rfl)
      (fun references ho => absurd ho (by rw [hp]; exact id))
      (Phase.sound_of_plain rfl (by simp)) (fun hde => absurd hde (by simp))
  · cases h

theorem sound_authorized (call : Nat) (metadata : MediaFileMetadata) :
    (authorized setup call metadata).Sound := by
  unfold authorized
  split
  · exact Phase.sound_of_plain rfl (by simp)
  · exact Phase.sound_of_plain rfl (by simp)
  · split <;> exact Phase.sound_of_plain rfl (by simp)
  · exact plain_finished
  · exact plain_finished

theorem move_authorize {allowed : Bool} (h : authorize setup state call allowed = some next) :
    Move setup state (.authorize call allowed) next := by
  unfold authorize at h
  split at h
  · rename_i metadata hp
    cases h
    refine .quiet ⟨rfl, rfl, rfl, rfl, rfl, id⟩ rfl (by rw [hp]; rfl)
      (fun references ho => absurd ho (by rw [hp]; exact id)) ?_ ?_
    · split
      · exact sound_authorized call metadata
      · exact plain_finished
    · intro hde
      split at hde
      · exact ⟨allowed, metadata, rfl, hp, hde⟩
      · cases hde
  · cases h

theorem move_checkReference (h : checkReference setup state call outcome = some next) :
    Move setup state (.checkReference call outcome) next := by
  unfold checkReference at h
  split at h
  · rename_i scope messageManaged metadata hc hp
    cases h
    apply Move.goTo (by rw [hp]; rfl) (by rw [hp]; exact fun _ => id)
    · split
      · exact plain_finished
      · exact Phase.sound_of_plain rfl (by simp)
    · split <;> simp
  · cases h

theorem move_createReference (h : createReference setup state call outcome = some next) :
    Move setup state (.createReference call outcome) next := by
  unfold createReference at h
  split at h
  · rename_i scope metadata hs hp
    have hgo : ∀ phase : Phase, phase.Sound → phase ≠ .deletingObject →
        Move setup state (.createReference call outcome) (state.setCall call phase) := by
      intro phase hso hde
      exact .goTo (by rw [hp]; rfl) (by rw [hp]; exact fun _ => id) hso hde
    simp only at h
    split at h
    · cases h
    · rename_i hc
      split at h
      · cases h
        exact hgo _ plain_finished (by simp)
      · rename_i hg
        obtain ⟨hef, hr⟩ := not_or.mp hg
        split at h
        · cases h
          split
          · exact hgo _ (Phase.sound_saving false (lifecycle_prepared _ _)) (by simp)
          · exact hgo _ plain_finished (by simp)
        · rename_i hn
          cases h
          apply Move.insert hp (by simpa using hc)
          · refine ⟨hr, scope, hs, ?_⟩
            intro reference hm hid
            exact hn (List.any_eq_true.mpr ⟨reference, hm, by simp [hid]⟩)
          · cases outcome with
            | answered => exact Or.inl rfl
            | lost => exact Or.inr ⟨rfl, rfl⟩
            | failed => exact absurd rfl hef
  · cases h

theorem move_deleteReference {elsewhere : Bool}
    (h : deleteReference setup state call elsewhere outcome = some next) :
    Move setup state (.deleteReference call elsewhere outcome) next := by
  unfold deleteReference at h
  split at h
  · rename_i referenceId metadata hc hp
    have ha : referenceId = none → (setup.call call).takesAny = true := by
      intro hn
      rw [hc, hn]
      rfl
    split at h
    · cases h
      exact .goTo (by rw [hp]; rfl) (by rw [hp]; exact fun _ => id) plain_finished (by simp)
    · cases h
      apply Move.remove hp ha
      · split
        · exact plain_finished
        · split
          · exact Phase.sound_of_plain rfl (by simp)
          · exact Phase.sound_saving false (lifecycle_prepared _ _)
      · split
        · simp
        · split <;> simp
      · split
        · rename_i hl
          exact Or.inr (Or.inr ⟨hl, hc⟩)
        · split
          · exact Or.inl rfl
          · rename_i hs
            exact Or.inr (Or.inl (not_not.mp (not_or.mp hs).1))
  · rename_i metadata hc hp
    split at h
    · cases h
      exact .goTo (by rw [hp]; rfl) (by rw [hp]; exact fun _ => id)
        (Phase.sound_of_plain rfl (by simp)) (by simp)
    · cases h
      exact .remove hp (fun _ => by rw [hc]; rfl) (Phase.sound_of_plain rfl (by simp))
        (by simp) (Or.inl rfl)
  · cases h

theorem move_countReferences (h : countReferences setup state call outcome = some next) :
    Move setup state (.countReferences call outcome) next := by
  unfold countReferences at h
  split at h
  · rename_i metadata hp
    split at h
    · cases h
      apply Move.count hp (Phase.sound_saving false (lifecycle_prepared _ _)) (by simp)
      left
      exact count_prepared _ _
    · rename_i hn
      split at h
      · cases h
        apply Move.count hp (Phase.sound_saving false (lifecycle_prepared _ _)) (by simp)
        right
        refine ⟨hn, fun _ hco => ?_⟩
        exact (count_prepared _ _).trans hco
      · rename_i hc
        cases h
        exact .count hp plain_finished (by simp) (Or.inr ⟨hn, fun hde =>
          absurd hde hc⟩)
  · cases h

theorem move_saveMetadata (h : saveMetadata state call outcome = some next) :
    Move setup state (.saveMetadata call outcome) next := by
  unfold saveMetadata at h
  split at h
  · rename_i metadata first hp
    split at h
    · cases h
    · rename_i hc
      cases h
      apply Move.save hp (by simpa using hc)
      · split
        · exact Phase.sound_of_plain rfl (by simp)
        · exact plain_finished
      · split <;> simp
  · cases h

theorem sound_cached (call : Nat) (metadata : MediaFileMetadata) (first : Bool) :
    (cached setup call metadata first).Sound ∧ cached setup call metadata first ≠ .deletingObject := by
  have hf : Phase.finished.Sound ∧ Phase.finished ≠ .deletingObject :=
    ⟨plain_finished, by simp⟩
  have hc : (Phase.creatingReference metadata).Sound ∧
      Phase.creatingReference metadata ≠ .deletingObject :=
    ⟨Phase.sound_of_plain rfl (by simp), by simp⟩
  unfold cached
  split
  · split
    · split
      · exact hc
      · exact hf
    · split
      · exact hf
      · exact ⟨Phase.sound_of_plain rfl (by simp), by simp⟩
  · exact hf

theorem move_cacheMetadata (h : cacheMetadata setup state call outcome = some next) :
    Move setup state (.cacheMetadata call outcome) next := by
  unfold cacheMetadata at h
  split at h
  · rename_i metadata first hp
    cases h
    obtain ⟨hs, hde⟩ := @sound_cached setup call metadata first
    exact .quiet ⟨rfl, rfl, rfl, rfl, rfl, id⟩ rfl (by rw [hp]; rfl)
      (fun references ho => absurd ho (by rw [hp]; exact id)) hs (fun h => absurd h hde)
  · rename_i metadata hp
    cases h
    exact .quiet ⟨rfl, rfl, rfl, rfl, rfl, id⟩ rfl (by rw [hp]; rfl)
      (fun references ho => absurd ho (by rw [hp]; exact id)) plain_finished
      (fun h => absurd h (by simp))
  · cases h

theorem move_deletion :
    (deleteObject state call outcome = some next →
      Move setup state (.deleteObject call outcome) next) ∧
    (deleteAllReferences state call outcome = some next →
      Move setup state (.deleteAllReferences call outcome) next) ∧
    (deleteMetadataReferences state call outcome = some next →
      Move setup state (.deleteMetadataReferences call outcome) next) ∧
    (deleteMetadataRow state call outcome = some next →
      Move setup state (.deleteMetadataRow call outcome) next) := by
  refine ⟨fun h => ?_, fun h => ?_, fun h => ?_, fun h => ?_⟩
  · unfold deleteObject at h
    split at h
    · rename_i hp
      cases h
      exact .deleteObject hp
    · cases h
  · unfold deleteAllReferences at h
    split at h
    · rename_i hp
      cases h
      exact .deleteAllReferences hp
    · cases h
  · unfold deleteMetadataReferences at h
    split at h
    · rename_i hp
      cases h
      apply Move.deleteMetadataReferences hp
      split
      · exact Or.inl rfl
      · rename_i hn
        exact Or.inr ⟨hn, rfl⟩
    · cases h
  · unfold deleteMetadataRow at h
    split at h
    · rename_i hp
      split at h
      · cases h
      · rename_i hc
        have hc : state.claimed = none := by simpa using hc
        split at h
        · rename_i hef
          cases h
          have hm := @Move.deleteMetadataRow setup state call outcome hp hc
          rw [if_pos hef] at hm
          exact hm
        · rename_i hef
          cases h
          have hm := @Move.deleteMetadataRow setup state call outcome hp hc
          rw [if_neg hef] at hm
          exact hm
    · cases h

theorem move_cleanup :
    (listOrphaned setup state call outcome = some next →
      Move setup state (.listOrphaned call outcome) next) ∧
    (claim state call outcome = some next → Move setup state (.claim call outcome) next) ∧
    (deleteClaimed state call outcome = some next →
      Move setup state (.deleteClaimed call outcome) next) ∧
    (commit state call outcome = some next → Move setup state (.commit call outcome) next) ∧
    (invalidate state call outcome = some next →
      Move setup state (.invalidate call outcome) next) := by
  refine ⟨fun h => ?_, fun h => ?_, fun h => ?_, fun h => ?_, fun h => ?_⟩
  · unfold listOrphaned at h
    split at h
    · rename_i hc hp
      cases h
      apply Move.goTo (by rw [hp]; rfl) (by rw [hp]; exact fun _ => id)
      · split
        · exact Phase.sound_of_plain rfl (by simp)
        · exact plain_finished
      · split <;> simp
    · cases h
  · unfold claim at h
    split at h
    · rename_i before hp
      split at h
      · cases h
      · rename_i hcl
        split at h
        · rename_i hf
          cases h
          exact .claim hp (by simpa using hcl) hf.2.2
        · cases h
          exact .goTo (by rw [hp]; rfl) (by rw [hp]; exact fun _ => id) plain_finished (by simp)
    · cases h
  · unfold deleteClaimed at h
    split at h
    · rename_i hp
      have hm := @Move.deleteClaimed setup state call outcome hp
      simp only at h
      split at h
      · rename_i ha
        cases h
        subst ha
        exact hm
      · rename_i ha
        cases h
        rw [if_neg ha] at hm
        exact hm
    · cases h
  · unfold commit at h
    split at h
    · rename_i hp
      split at h
      · rename_i hef
        cases h
        have hg : (if outcome = Outcome.answered then Phase.invalidating else .finished) =
            .invalidating ∨ (if outcome = Outcome.answered then Phase.invalidating else .finished) =
            .finished := by
          split <;> simp
        have hm := @Move.commit setup state call outcome _ hp hg
        rw [if_pos hef] at hm
        exact hm
      · rename_i hef
        cases h
        have hm := @Move.commit setup state call outcome _ hp (Or.inr rfl)
        rw [if_neg hef] at hm
        exact hm
    · cases h
  · unfold invalidate at h
    split at h
    · rename_i hp
      cases h
      exact .quiet ⟨rfl, rfl, rfl, rfl, rfl, id⟩ rfl (by rw [hp]; rfl)
        (fun references ho => absurd ho (by rw [hp]; exact id)) plain_finished
        (fun h => absurd h (by simp))
    · cases h

theorem move_of_step {action : Action} (h : step setup state action = some next) :
    Move setup state action next := by
  cases action with
  | tick | evict =>
    cases h
    exact .idle ⟨rfl, rfl, rfl, rfl, rfl, id⟩ rfl
  | loadByHash => exact move_loadByHash h
  | putObject => exact move_putObject h
  | getCached => exact move_getCached h
  | loadMetadata => exact move_loadMetadata h
  | cacheLoaded => exact move_cacheLoaded h
  | authorize => exact move_authorize h
  | checkReference => exact move_checkReference h
  | createReference => exact move_createReference h
  | deleteReference => exact move_deleteReference h
  | countReferences => exact move_countReferences h
  | saveMetadata => exact move_saveMetadata h
  | cacheMetadata => exact move_cacheMetadata h
  | deleteObject => exact move_deletion.1 h
  | deleteAllReferences => exact move_deletion.2.1 h
  | deleteMetadataReferences => exact move_deletion.2.2.1 h
  | deleteMetadataRow => exact move_deletion.2.2.2 h
  | listOrphaned => exact move_cleanup.1 h
  | claim => exact move_cleanup.2.1 h
  | deleteClaimed => exact move_cleanup.2.2.1 h
  | commit => exact move_cleanup.2.2.2.1 h
  | invalidate => exact move_cleanup.2.2.2.2 h

end Moves

section Invariant

variable {setup : Setup} {state next : State} {action : Action}

-- In every run: the status and the grace time fit the count, and a claimed row has no references.
structure Inv (state : State) : Prop where
  row_lifecycle : ∀ row ∈ state.row, row.Lifecycle
  saving_lifecycle : ∀ call metadata first,
    state.phases call = .savingMetadata metadata first → metadata.Lifecycle
  claimed_empty : state.claimed ≠ none → state.references = []
  holder : ∀ call, (state.phases call).holdsClaim = true → state.claimed = some call

theorem inv_initial : Inv initial where
  row_lifecycle row hr := absurd hr (by simp [initial])
  saving_lifecycle call metadata first hp := absurd hp (by simp [initial])
  claimed_empty _ := rfl
  holder call hh := absurd hh (by simp [initial, Phase.holdsClaim])

theorem Inv.saving_update (hin : Inv state)
    (hs : ∀ metadata first, phase = .savingMetadata metadata first → metadata.Lifecycle)
    (hp : next.phases = Function.update state.phases call phase) :
    ∀ other metadata first, next.phases other = .savingMetadata metadata first →
      metadata.Lifecycle := by
  intro other metadata first ho
  rw [hp] at ho
  by_cases heq : other = call
  · subst heq
    rw [update_self] at ho
    exact hs metadata first ho
  · rw [update_of_ne heq] at ho
    exact hin.saving_lifecycle other metadata first ho

theorem Inv.update (hin : Inv state) (hs : phase.Sound)
    (hp : next.phases = Function.update state.phases call phase)
    (hc : next.claimed = state.claimed) (hr : ∀ row ∈ next.row, row.Lifecycle)
    (hem : next.claimed ≠ none → next.references = []) : Inv next where
  row_lifecycle := hr
  saving_lifecycle := hin.saving_update hs.lifecycle hp
  claimed_empty := hem
  holder other hh := by
    rw [hp] at hh
    by_cases heq : other = call
    · subst heq
      rw [update_self, hs.free] at hh
      cases hh
    · rw [update_of_ne heq] at hh
      rw [hc]
      exact hin.holder other hh

theorem Inv.release (hin : Inv state) (hs : phase.Sound)
    (hh : (state.phases call).holdsClaim = true)
    (hp : next.phases = Function.update state.phases call phase)
    (hc : next.claimed = none) (hr : ∀ row ∈ next.row, row.Lifecycle) : Inv next where
  row_lifecycle := hr
  saving_lifecycle := hin.saving_update hs.lifecycle hp
  claimed_empty hso := absurd hc hso
  holder other hho := by
    rw [hp] at hho
    by_cases heq : other = call
    · subst heq
      rw [update_self, hs.free] at hho
      cases hho
    · rw [update_of_ne heq] at hho
      have hb := (hin.holder other hho).symm.trans (hin.holder call hh)
      exact absurd (Option.some.inj hb) heq

theorem Inv.hold (hin : Inv state) (hpl : ∀ metadata first, phase ≠ .savingMetadata metadata first)
    (hb : state.claimed = none ∨ state.claimed = some call)
    (hp : next.phases = Function.update state.phases call phase)
    (hc : next.claimed = some call) (hr : next.row = state.row)
    (hem : next.references = []) : Inv next where
  row_lifecycle := by
    rw [hr]
    exact hin.row_lifecycle
  saving_lifecycle := hin.saving_update (fun metadata first h => absurd h (hpl metadata first)) hp
  claimed_empty _ := hem
  holder other hh := by
    rw [hp] at hh
    by_cases heq : other = call
    · rw [heq]
      exact hc
    · rw [update_of_ne heq] at hh
      have ho := hin.holder other hh
      rcases hb with hn | hon
      · exact absurd (hn.symm.trans ho) (by simp)
      · exact absurd (Option.some.inj (hon.symm.trans ho)).symm heq

theorem kept_nil (referenceId : Option String) : kept referenceId [] = [] := by
  cases referenceId <;> rfl

theorem inv_move (hm : Move setup state action next) (hin : Inv state) : Inv next := by
  cases hm with
  | idle hsa hph =>
    constructor
    · rw [hsa.row_eq]
      exact hin.row_lifecycle
    · rw [hph]
      exact hin.saving_lifecycle
    · rw [hsa.claimed_eq, hsa.references_eq]
      exact hin.claimed_empty
    · rw [hph, hsa.claimed_eq]
      exact hin.holder
  | quiet hsa hph hf hoe hp hde =>
    apply hin.update hp hph hsa.claimed_eq
    · rw [hsa.row_eq]
      exact hin.row_lifecycle
    · rw [hsa.claimed_eq, hsa.references_eq]
      exact hin.claimed_empty
  | @insert _ _ _ _ phase hb hc hie hp =>
    have hs : phase.Sound := by
      rcases hp with rfl | ⟨-, rfl⟩
      · exact Phase.sound_of_plain rfl (by simp)
      · exact plain_finished
    exact hin.update hs rfl rfl hin.row_lifecycle fun hso => absurd hc hso
  | @remove _ _ _ _ referenceId _ hb ha hs hde hp =>
    refine hin.update hs rfl rfl hin.row_lifecycle ?_
    intro hso
    have hem := hin.claimed_empty hso
    simp only [State.setCall, hem]
    exact kept_nil referenceId
  | count hb hs hde hp =>
    exact hin.update hs rfl rfl hin.row_lifecycle hin.claimed_empty
  | @save call outcome metadata first _ hb hc hs hde =>
    refine hin.update hs rfl rfl ?_ hin.claimed_empty
    intro row hr
    split at hr
    · cases hr
      exact hin.saving_lifecycle call metadata first hb
    · exact hin.row_lifecycle row hr
  | deleteObject hb =>
    have hs : Phase.deletingReferences.Sound := Phase.sound_of_plain rfl (by simp)
    split <;> exact hin.update hs rfl rfl hin.row_lifecycle hin.claimed_empty
  | deleteAllReferences hb =>
    refine hin.update (Phase.sound_of_plain rfl (by simp)) rfl rfl hin.row_lifecycle ?_
    intro hso
    simp only [State.setCall, hin.claimed_empty hso, ite_self]
  | @deleteMetadataReferences _ _ phase hb hp =>
    have hs : phase.Sound := by
      rcases hp with rfl | ⟨-, rfl⟩ <;> exact Phase.sound_of_plain rfl (by simp)
    refine hin.update hs rfl rfl hin.row_lifecycle ?_
    intro hso
    simp only [State.setCall, hin.claimed_empty hso, ite_self]
  | deleteMetadataRow hb hc =>
    have hs : Phase.invalidating.Sound := Phase.sound_of_plain rfl (by simp)
    split
    · exact hin.update hs rfl rfl (by simp [State.setCall]) fun _ => rfl
    · exact hin.update hs rfl rfl hin.row_lifecycle hin.claimed_empty
  | claim hb hc hre =>
    exact hin.hold (by simp) (Or.inl hc) rfl rfl rfl hre
  | @deleteClaimed call outcome hb =>
    have hh : (state.phases call).holdsClaim = true := by
      rw [hb]
      rfl
    have ho := hin.holder call hh
    split
    · exact hin.hold (by simp) (Or.inr ho) rfl ho rfl (hin.claimed_empty (by simp [ho]))
    · split <;> exact hin.release plain_finished hh rfl rfl hin.row_lifecycle
  | @commit call outcome phase hb hp =>
    have hh : (state.phases call).holdsClaim = true := by
      rw [hb]
      rfl
    have hs : phase.Sound := by
      rcases hp with rfl | rfl
      · exact Phase.sound_of_plain rfl (by simp)
      · exact plain_finished
    split
    · exact hin.release hs hh rfl rfl (by simp [State.setCall])
    · exact hin.release hs hh rfl rfl hin.row_lifecycle

end Invariant

section Runs

variable {setup : Setup} {state next : State} {action : Action}

theorem removesOne_move (hmo : Move setup state action next)
    (hok : OneReference setup state action) (hin : ∀ removed ∈ state.anyRemovals, removed ≤ 1) :
    ∀ removed ∈ next.anyRemovals, removed ≤ 1 := by
  cases hmo with
  | idle hs hph | quiet hs hph hf ho hp hde =>
    rw [hs.anyRemovals_eq]
    exact hin
  | @remove _ _ _ _ referenceId _ hb ha hso hde hp =>
    cases referenceId with
    | some referenceId => exact hin
    | none =>
      intro removed hm
      rcases List.mem_cons.mp hm with rfl | hr
      · exact hok (ha rfl)
      · exact hin removed hr
  | insert _ _ _ _ | count _ _ _ _ | save _ _ _ _ | deleteAllReferences _
  | deleteMetadataReferences _ _ | claim _ _ _ => exact hin
  | deleteObject _ | deleteMetadataRow _ _ | commit _ _ =>
    split <;> exact hin
  | deleteClaimed _ =>
    split
    · exact hin
    · split <;> exact hin

-- A delete call that goes on to the object still meets at most one reference.
structure Spared (state : State) : Prop where
  inv : Inv state
  deletions : ∀ deletion ∈ state.deletions, deletion.Spares
  deleting : ∀ call, state.phases call = .deletingObject → state.references.length ≤ 1

theorem deleting_update (hp : next.phases = Function.update state.phases call phase)
    (hde : phase ≠ .deletingObject) (hf : ∀ other, state.phases other = .deletingObject →
      next.references.length ≤ 1) :
    ∀ other, next.phases other = .deletingObject → next.references.length ≤ 1 := by
  intro other ho
  rw [hp] at ho
  by_cases heq : other = call
  · subst heq
    rw [update_self] at ho
    exact absurd ho hde
  · rw [update_of_ne heq] at ho
    exact hf other ho

theorem length_kept_le (referenceId : Option String) (references : List MediaReference) :
    (kept referenceId references).length ≤ references.length := by
  cases referenceId with
  | none => exact Nat.zero_le _
  | some referenceId => exact List.length_filter_le _ _

theorem deletions_drop {byCleanup : Bool} (hin : ∀ deletion ∈ state.deletions, deletion.Spares)
    (hs : state.references.length ≤ if byCleanup then 0 else 1) :
    ∀ deletion ∈ (state.dropObject byCleanup).deletions, deletion.Spares := by
  intro deletion hm
  simp only [State.dropObject] at hm
  split at hm
  · rcases List.mem_cons.mp hm with rfl | hr
    · exact hs
    · exact hin deletion hr
  · exact hin deletion hm

theorem spared_move (hm : Move setup state action next)
    (hok : LooksCurrent setup state action) (hsp : Spared state) : Spared next := by
  obtain ⟨hin, hde, hdl⟩ := hsp
  refine ⟨inv_move hm hin, ?_, ?_⟩
  · cases hm with
    | idle hs hph | quiet hs hph hfr hoe hp hdt =>
      rw [hs.deletions_eq]
      exact hde
    | @deleteObject call _ hb =>
      split
      · exact deletions_drop hde (hdl call hb)
      · exact hde
    | @deleteClaimed call outcome hb =>
      have hon := hin.holder call (by rw [hb]; rfl)
      have hem := hin.claimed_empty (by simp [hon])
      have hdr : ∀ deletion ∈ (state.dropObject true).deletions, deletion.Spares :=
        deletions_drop hde (by simp [hem])
      split
      · exact hdr
      · split
        · exact hdr
        · exact hde
    | remove _ _ _ _ _ | insert _ _ _ _ | count _ _ _ _ | save _ _ _ _ | deleteAllReferences _
    | deleteMetadataReferences _ _ | claim _ _ _ => exact hde
    | deleteMetadataRow _ _ | commit _ _ =>
      split <;> exact hde
  · cases hm with
    | idle hs hph =>
      rw [hph, hs.references_eq]
      exact hdl
    | @quiet _ _ call phase hs hph hfr hoe hp hdt =>
      by_cases hnw : phase = .deletingObject
      · obtain ⟨allowed, metadata, rfl, hb, ha⟩ := hdt hnw
        intro _ _
        rw [hs.references_eq]
        exact hok metadata hb ha
      · apply deleting_update hph hnw
        rw [hs.references_eq]
        exact hdl
    | @insert call outcome metadata reference phase hb hc hie hp =>
      have hdt : phase ≠ .deletingObject := by
        rcases hp with rfl | ⟨-, rfl⟩ <;> simp
      refine deleting_update rfl hdt ?_
      intro other ho
      rcases hok hie with hn | hno
      · simp [State.setCall, hn]
      · exact absurd ho (hno other)
    | @remove _ _ _ _ referenceId _ hb han hso hdt hp =>
      refine deleting_update rfl hdt ?_
      intro other ho
      exact Nat.le_trans (length_kept_le referenceId _) (hdl other ho)
    | count hb hso hdt hp | save hb hc hso hdt => exact deleting_update rfl hdt hdl
    | deleteObject hb =>
      split <;> exact deleting_update rfl (by simp) hdl
    | deleteAllReferences hb =>
      refine deleting_update rfl (by simp) ?_
      intro other ho
      have hf := hdl other ho
      split
      · exact Nat.zero_le _
      · exact hf
    | deleteMetadataReferences hb hp =>
      refine deleting_update rfl (by rcases hp with rfl | ⟨-, rfl⟩ <;> simp) ?_
      intro other ho
      have hf := hdl other ho
      split
      · exact Nat.zero_le _
      · exact hf
    | deleteMetadataRow hb hc =>
      split
      · exact deleting_update rfl (by simp) fun _ _ => Nat.zero_le _
      · exact deleting_update rfl (by simp) hdl
    | claim hb hc hr => exact deleting_update rfl (by simp) hdl
    | deleteClaimed hb =>
      split
      · exact deleting_update rfl (by simp) hdl
      · split <;> exact deleting_update rfl (by simp) hdl
    | @commit _ _ phase hb hp =>
      have hdt : phase ≠ .deletingObject := by
        rcases hp with rfl | rfl <;> simp
      split
      · exact deleting_update rfl hdt fun _ _ => Nat.zero_le _
      · exact deleting_update rfl hdt hdl

-- A row out of line with the references is one some call still owes its count.
def Covered (state : State) : Prop :=
  state.InLine ∨ ∃ call, (state.phases call).owes state.references

theorem owes_of_willCount (h : phase.willCount)
    (references : List MediaReference) : phase.owes references := by
  cases phase with
  | countingReferences _ | deletingReferences | deletingMetadataReferences
  | deletingMetadataRow => trivial
  | _ => exact absurd h id

theorem covered_own (hp : next.phases = Function.update state.phases call phase)
    (ho : phase.owes next.references) : Covered next := by
  right
  refine ⟨call, ?_⟩
  rw [hp, update_self]
  exact ho

theorem covered_owed (hp : next.phases = Function.update state.phases call phase)
    (hr : next.references = state.references) (h : state.OwedByOther call) : Covered next := by
  obtain ⟨other, ho, hoe⟩ := h
  right
  refine ⟨other, ?_⟩
  rw [hp, update_of_ne ho, hr]
  exact hoe

theorem covered_counted (hp : next.phases = Function.update state.phases call phase)
    (h : state.CountedByOther call) : Covered next := by
  obtain ⟨other, ho, hc⟩ := h
  right
  refine ⟨other, ?_⟩
  rw [hp, update_of_ne ho]
  exact owes_of_willCount hc _

theorem inLine_same (hr : next.row = state.row)
    (hre : next.references = state.references) (h : state.InLine) : next.InLine := by
  unfold State.InLine
  rw [hr, hre]
  exact h

theorem covered_same (hc : Covered state)
    (hp : next.phases = Function.update state.phases call phase)
    (hr : next.row = state.row) (hre : next.references = state.references)
    (hoe : ∀ references, (state.phases call).owes references → phase.owes references) :
    Covered next := by
  rcases hc with hl | ⟨other, ho⟩
  · exact Or.inl (inLine_same hr hre hl)
  · by_cases heq : other = call
    · subst heq
      apply covered_own hp
      rw [hre]
      exact hoe _ ho
    · exact covered_owed hp hre ⟨other, heq, ho⟩

theorem inLine_none (hr : next.row = none) : next.InLine := by
  intro row hm
  rw [hr] at hm
  cases hm

theorem covered_settled (hp : next.phases = Function.update state.phases call phase)
    (hr : next.row = state.row) (hre : next.references = state.references)
    (h : state.InLine ∨ state.OwedByOther call) : Covered next := by
  rcases h with hl | ho
  · exact Or.inl (inLine_same hr hre hl)
  · exact covered_owed hp hre ho

theorem covered_move (hm : Move setup state action next)
    (hok : WritesCurrent setup state action) (hco : Covered state) : Covered next := by
  cases hm with
  | idle hs hph =>
    rcases hco with hl | ⟨call, ho⟩
    · exact Or.inl (inLine_same hs.row_eq hs.references_eq hl)
    · right
      refine ⟨call, ?_⟩
      rw [hph, hs.references_eq]
      exact ho
  | quiet hs hph hfr ho hp hde =>
    exact covered_same hco hph hs.row_eq hs.references_eq ho
  | insert hb hcl hin hp =>
    rcases hp with rfl | ⟨hlo, rfl⟩
    · exact covered_own rfl trivial
    · exact covered_counted rfl (hok hlo hin)
  | @remove call _ _ metadata referenceId phase hb ha hso hde hp =>
    have hs (hk : kept referenceId state.references = state.references) :
        Covered ({ state with
          references := kept referenceId state.references
          anyRemovals := noted referenceId state.references state.anyRemovals }.setCall
            call phase) :=
      covered_same hco rfl rfl hk fun references ho =>
        absurd ho (by rw [hb]; exact id)
    rcases hp with rfl | hk | ⟨hlo, hc⟩
    · exact covered_own rfl trivial
    · exact hs hk
    · by_cases hk : kept referenceId state.references = state.references
      · exact hs hk
      · exact covered_counted rfl (hok referenceId hc hlo hk)
  | @count call outcome metadata phase hb hso hde hp =>
    rcases hp with ho | ⟨hno, hfa⟩
    · exact covered_own rfl ho
    · rcases hok hno with hl | hoe | hba
      · exact covered_settled rfl rfl rfl (Or.inl hl)
      · exact covered_settled rfl rfl rfl (Or.inr hoe)
      · obtain ⟨hc, hcu⟩ := hba metadata hb
        exact covered_own rfl (hfa hc hcu)
  | @save call outcome metadata first phase hb hcl hso hde =>
    rcases hok with hcr | ⟨hf, hl⟩ | hoe
    · obtain ⟨hef, hcu⟩ := hcr metadata first hb
      left
      intro row hr
      simp only [State.setCall, Outcome.takesEffect_eq_true.mpr hef, if_true] at hr
      cases hr
      exact hcu
    · subst hf
      exact Or.inl (inLine_same rfl rfl hl)
    · exact covered_owed rfl rfl hoe
  | deleteObject hb =>
    split <;> exact covered_own rfl trivial
  | deleteAllReferences hb => exact covered_own rfl trivial
  | @deleteMetadataReferences call outcome phase hb hp =>
    rcases hp with rfl | ⟨hno, rfl⟩
    · exact covered_own rfl trivial
    · cases outcome with
      | answered => exact absurd rfl hno
      | lost =>
        rcases hok.1 rfl with hz | hcn
        · exact Or.inl hz
        · exact covered_counted rfl hcn
      | failed => exact covered_settled rfl rfl rfl (hok.2 rfl)
  | @deleteMetadataRow call outcome hb hcl =>
    split
    · exact Or.inl (inLine_none rfl)
    · rename_i hn
      have hf : outcome = .failed :=
        not_not.mp fun h => hn (Outcome.takesEffect_eq_true.mpr h)
      exact covered_settled rfl rfl rfl (hok hf)
  | claim hb hcl hre =>
    exact covered_same hco rfl rfl rfl fun references ho =>
      absurd ho (by rw [hb]; exact id)
  | deleteClaimed hb =>
    split
    · exact covered_same hco rfl rfl rfl fun references ho =>
        absurd ho (by rw [hb]; exact id)
    · split
      · exact covered_same hco rfl rfl rfl fun references ho =>
          absurd ho (by rw [hb]; exact id)
      · exact covered_same hco rfl rfl rfl fun references ho =>
          absurd ho (by rw [hb]; exact id)
  | commit hb hp =>
    split
    · exact Or.inl (inLine_none rfl)
    · exact covered_same hco rfl rfl rfl fun references ho =>
        absurd ho (by rw [hb]; exact id)

theorem inLine_of_quiescent (hc : Covered state) (hq : Quiescent state) : state.InLine := by
  rcases hc with hl | ⟨call, ho⟩
  · exact hl
  · rcases hq call with hp | hp
    · rw [hp] at ho
      exact absurd ho id
    · rw [hp] at ho
      exact absurd ho id

def HasObject (state : State) : Prop :=
  ∀ row ∈ state.registered, state.object = true

theorem hasObject_same (hr : next.row = state.row) (hc : next.claimed = state.claimed)
    (ho : state.object = true → next.object = true) (h : HasObject state) : HasObject next := by
  intro row hm
  unfold State.registered at hm
  rw [hc, hr] at hm
  exact ho (h row hm)

theorem hasObject_none (hn : next.registered = none) : HasObject next := by
  intro row hm
  rw [hn] at hm
  cases hm

theorem hasObject_move (hm : Move setup state action next) (hok : RowFirst state action)
    (hin : Inv state) (hk : HasObject state) : HasObject next := by
  cases hm with
  | idle hs hph => exact hasObject_same hs.row_eq hs.claimed_eq hs.object hk
  | quiet hs hph hfr hoe hp hde =>
    exact hasObject_same hs.row_eq hs.claimed_eq hs.object hk
  | insert _ _ _ _ | remove _ _ _ _ _ | count _ _ _ _ | deleteAllReferences _
  | deleteMetadataReferences _ _ => exact hasObject_same rfl rfl id hk
  | @save call outcome metadata first phase hb hc hso hde =>
    rcases hok with rfl | hr | ho
    · exact hasObject_same rfl rfl id hk
    · obtain ⟨row, hr⟩ := Option.isSome_iff_exists.mp hr
      have ho : state.object = true := hk row (by simp [State.registered, hc, hr])
      exact fun _ _ => ho
    · exact fun _ _ => ho
  | deleteObject hb =>
    rcases hok with rfl | hn
    · exact hasObject_same rfl rfl id hk
    · apply hasObject_none
      split <;> exact hn
  | deleteMetadataRow _ _ =>
    split
    · exact hasObject_none (ite_self none)
    · exact hasObject_same rfl rfl id hk
  | claim _ _ _ => exact hasObject_none (by simp [State.registered, State.setCall])
  | @deleteClaimed call outcome hb =>
    have hon := hin.holder call (by rw [hb]; rfl)
    split
    · exact hasObject_none (by simp [State.registered, State.setCall, State.dropObject, hon])
    · rename_i hno
      have hf : outcome = .failed := by
        cases outcome with
        | answered => exact absurd rfl hno
        | lost => exact absurd rfl hok.1
        | failed => rfl
      subst hf
      exact fun _ _ => hok.2 rfl
  | @commit call outcome phase hb hp =>
    split
    · exact hasObject_none (by simp [State.registered, State.setCall])
    · rename_i hn
      have hf : outcome = .failed :=
        not_not.mp fun h => hn (Outcome.takesEffect_eq_true.mpr h)
      exact fun _ _ => hok hf

theorem run_inv {ok : State → Action → Prop} {actions : List Action}
    (hr : Run (step setup) ok initial actions state) : Inv state :=
  hr.preserves Inv (fun _ _ _ hin _ hs => inv_move (move_of_step hs) hin) inv_initial

-- Each part of the contract holds in the runs whose steps keep to its own condition.
theorem references_protect_inOrder (setup : Setup) :
    RemovesOne setup (OneReference setup) ∧ SparesReferenced setup (LooksCurrent setup) ∧
      CountsAgree setup (WritesCurrent setup) ∧ KeepsObject setup RowFirst := by
  refine ⟨?_, ?_, ?_, ?_⟩
  · intro actions state hrun
    exact hrun.preserves (fun state => ∀ removed ∈ state.anyRemovals, removed ≤ 1)
      (fun _ _ _ hinv hok hstep => removesOne_move (move_of_step hstep) hok hinv)
      (fun _ hmem => absurd hmem List.not_mem_nil)
  · intro actions state hrun
    have hfirst : Spared initial :=
      ⟨inv_initial, fun _ hmem => absurd hmem List.not_mem_nil, fun _ _ => Nat.zero_le _⟩
    exact (hrun.preserves Spared
      (fun _ _ _ hinv hok hstep => spared_move (move_of_step hstep) hok hinv) hfirst).deletions
  · intro actions state hrun hquiet row hrow
    have hcovered : Covered state := hrun.preserves Covered
      (fun _ _ _ hinv hok hstep => covered_move (move_of_step hstep) hok hinv)
      (Or.inl (inLine_none rfl))
    exact ⟨inLine_of_quiescent hcovered hquiet row hrow, (run_inv hrun).row_lifecycle row hrow⟩
  · intro actions state hrun
    have hboth : Inv state ∧ HasObject state := hrun.preserves
      (fun state => Inv state ∧ HasObject state)
      (fun _ _ _ hinv hok hstep => ⟨inv_move (move_of_step hstep) hinv.1,
        hasObject_move (move_of_step hstep) hok hinv.1 hinv.2⟩)
      ⟨inv_initial, hasObject_none rfl⟩
    exact hboth.2

end Runs

section Counterexample

def ownScope : MediaReferenceScope := ⟨"message", "alice", some "message"⟩

def sharedScope : MediaReferenceScope := ⟨"message", "bob", some "message"⟩

def twoReferences : Setup where
  call
    | 0 => .storeMediaFile (some ownScope)
    | 1 => .addReference sharedScope true
    | _ => .removeReference none
  creator := 0
  orphanGraceSeconds := 86400
  deterministicReferenceId scope := scope.ownerId

-- The file is stored with one reference, gets a second one, and one is removed.
def storedSharedRemoved : List Action :=
  [.loadByHash 0 false true .answered, .putObject 0 .answered, .saveMetadata 0 .answered,
    .cacheMetadata 0 .answered, .createReference 0 .answered, .countReferences 0 .answered,
    .saveMetadata 0 .answered, .cacheMetadata 0 .answered,
    .getCached 1 .answered, .authorize 1 true, .checkReference 1 .answered,
    .createReference 1 .answered, .countReferences 1 .answered, .saveMetadata 1 .answered,
    .cacheMetadata 1 .answered,
    .getCached 2 .answered, .authorize 2 true, .deleteReference 2 false .answered]

theorem one_removal_takes_every_reference :
    ¬(RemovesOne twoReferences anyStep ∧ SparesReferenced twoReferences anyStep ∧
      CountsAgree twoReferences anyStep ∧ KeepsObject twoReferences anyStep) := by
  rintro ⟨hremoves, -⟩
  have htwo : (execute (step twoReferences) anyStep initial storedSharedRemoved).map
      (·.anyRemovals) = some [2] := by decide
  obtain ⟨state, hexecute, hremovals⟩ := Option.map_eq_some_iff.mp htwo
  have hle := hremoves storedSharedRemoved state (run_of_execute hexecute) 2 (by simp [hremovals])
  omega

end Counterexample

end FlareIm.MediaReferences
