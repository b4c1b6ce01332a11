import FlareIm.DirectUpload.Calls

namespace FlareIm.DirectUpload

open RoundTrip Transition
open Function (update)

variable {claim : DirectCompletionClaim} {session : UploadSession}

section Effects

variable {setup : Setup} {state next : State} {others : Nat → Prop} {shared after : Shared}

-- Nothing depends on the object: it may be replaced, or deleted.
def ObjectFree (setup : Setup) (state : State) : Prop :=
  Unused setup state ∨ (Settled state ∧ state.shared.file = none)

theorem ObjectFree.file (h : ObjectFree setup state) : state.shared.file = none := by
  rcases h with h | h
  · exact h.1
  · exact h.2

-- The file and what was counted stay as they are, and so does the object it depends on.
structure SameFile (setup : Setup) (state next : State) : Prop where
  now_le : state.shared.now ≤ next.shared.now
  file : next.shared.file = state.shared.file
  registrations : next.shared.registrations = state.shared.registrations
  stored : next.shared.stored = state.shared.stored
  object : next.shared.object = state.shared.object ∨ ObjectFree setup state

theorem sharedOk_sameFile (h : SharedOk setup state.shared) (hs : SameFile setup state next)
    (hr : ∀ session, next.shared.session = some session → RecordOk setup session next.shared.now)
    (hsc : ∀ session, next.shared.session = some session →
      ∃ score, next.shared.score = some score ∧ timestampMillis session.expiresAt ≤ score) :
    SharedOk setup next.shared where
  record := hr
  score := hsc
  file file hf := by
    rw [hs.file] at hf
    obtain ⟨hm, hob⟩ := h.file file hf
    rcases hs.object with ho | hfr
    · exact ⟨hm, ho.trans hob⟩
    · rw [hfr.file] at hf
      cases hf
  unregistered hf := by
    rw [hs.file] at hf
    rw [hs.registrations, hs.stored]
    exact h.unregistered hf
  once := by
    rw [hs.registrations, hs.stored]
    exact h.once

theorem taskOk_sameFile (hs : SameFile setup state next) {id : Nat}
    {task : Task} {renewal : Renewal}
    (hp : state.phases id = .working claim task renewal) (h : TaskOk setup state.shared task) :
    TaskOk setup next.shared task := by
  cases task with
  | saving =>
    refine ⟨hs.file.trans h.1, ?_⟩
    rcases hs.object with ho | hf | hf
    · exact ho.trans h.2
    · exact absurd (hf.2 id) (by rw [hp]; simp [Phase.reliesOnObject])
    · exact absurd (hf.1.idle id) (by rw [hp]; simp [Phase.isWorking])
  | marking attempt update =>
    exact ⟨⟨hs.file.trans h.1.1, h.1.2⟩, h.2.mono hs.now_le⟩
  | referencing | resaving =>
    intro hn
    exact h (hs.file.symm.trans hn)
  | merging | restating code | stating | discarding | dropping => exact ⟨hs.file.trans h.1, h.2⟩

theorem Follows.of_sameFile (hsa : SameFile setup state next)
    (hil : ∀ other, (next.phases other).isWorking = true →
      (state.phases other).isWorking = true ∨ ¬Settled state)
    (hde : Settled state → Dead next.shared)
    (hh : ∃ new, Extends state.shared next.shared new ∧
      ∀ other, others other → ∀ write ∈ new, write.writer ≠ other)
    (hho : ∀ other, others other → ∀ claim task renewal,
      state.phases other = .working claim task renewal → Holding state.shared other claim →
        Holding next.shared other claim) : Follows setup others state next := by
  have hs : Settled state → Settled next := fun h => by
    refine ⟨hde h, fun other => ?_⟩
    by_contra hw
    rw [Bool.not_eq_false] at hw
    rcases hil other hw with hwa | hno
    · exact absurd (h.idle other) (by simp [hwa])
    · exact hno h
  refine
    { now_le := hsa.now_le
      file := fun file hfi => hsa.file.trans hfi
      settled := hs
      unregistered := fun _ hn => hsa.file.trans hn
      claiming := fun hpu other _ hc hob => ?_
      history := hh
      working := fun other ho claim task renewal hp h ht =>
        ⟨hho other ho claim task renewal hp h, taskOk_sameFile hsa hp ht⟩ }
  obtain ⟨update, hp⟩ := hc
  rcases hob with hob | hwa
  · rcases hsa.object with hoj | hf | hf
    · exact Or.inl (hoj.trans hob)
    · exact absurd (hf.2 other) (by rw [hp]; simp [Phase.reliesOnObject, hpu])
    · exact Or.inr (hs hf.1)
  · exact Or.inr (hs hwa)

theorem Follows.of_alone (hn : state.shared.now ≤ next.shared.now)
    (hf : ∀ file, state.shared.file = some file → next.shared.file = some file)
    (hob : setup.transportKind = .singlePut → next.shared.object = state.shared.object)
    (hu : ¬Settled state) (ha : ∀ other, others other → (state.phases other).isWorking = false)
    (hh : ∃ new, Extends state.shared next.shared new ∧
      ∀ other, others other → ∀ write ∈ new, write.writer ≠ other) :
    Follows setup others state next where
  now_le := hn
  file := hf
  settled h := absurd h hu
  unregistered h := absurd h hu
  claiming hpu other _ _ h := by
    rcases h with h | h
    · exact Or.inl ((hob hpu).trans h)
    · exact absurd h hu
  history := hh
  working other ho claim task renewal hp :=
    absurd (ha other ho) (by rw [hp]; simp [Phase.isWorking])

theorem extends_same (hw : after.writes = shared.writes)
    (hs : after.session = shared.session ∨ after.session = none) : Extends shared after [] := by
  refine ⟨by simp [hw], ?_⟩
  rcases hs with h | h
  · exact Or.inl h
  · exact Or.inr (Or.inl h)

theorem extends_own_write (id : Nat) (session : UploadSession) :
    ∃ new, Extends shared (shared.write id session) new ∧
      ∀ other, other ≠ id → ∀ write ∈ new, write.writer ≠ other := by
  refine ⟨[⟨id, shared.session.map (·.expiresAt)⟩], ⟨rfl, Or.inr (Or.inr (by simp))⟩, ?_⟩
  intro other ho write hw
  rw [List.mem_singleton] at hw
  subst hw
  exact ho.symm

theorem dead_kept (h : Dead shared) (hno : shared.now ≤ after.now)
    (hs : after.session = shared.session ∨ after.session = none) : Dead after := by
  intro session hm hp
  rcases hs with hsa | hn
  · have := h session (hsa ▸ hm) hp
    omega
  · exact absurd hm (by simp [hn])

theorem holding_kept {id : Nat} (h : Holding shared id claim) (hno : shared.now ≤ after.now)
    (hs : after.session = shared.session ∨ after.session = none) : Holding after id claim := by
  have hl := h.lease
  refine ⟨by omega, fun session hm => ?_, fun session hm => ?_⟩
  · rcases hs with hsa | hn
    · exact h.held session (hsa ▸ hm)
    · exact absurd hm (by simp [hn])
  · rcases hs with hsa | hn
    · exact h.lasts session (hsa ▸ hm)
    · exact absurd hm (by simp [hn])

theorem dead_rewrite (h : Dead shared) {id : Nat}
    (hr : Rewrite setup id shared.now shared.session session) : Dead (shared.write id session) := by
  intro current hm hp
  cases hm
  change session.expiresAt + UPLOAD_SESSION_RECLAIM_GRACE < shared.now
  generalize hb : shared.session = before at hr
  cases hr with
  | ended hs _ _ => exact absurd hp hs
  | committed ht _ hl hs _ _ | released ht _ _ hs _ hep =>
    have := h _ hb hs.1
    omega

theorem holding_rewrite {id other : Nat}
    (h : Holding shared other claim) (ho : other ≠ id)
    (hr : Rewrite setup id shared.now shared.session session) :
    Holding (shared.write id session) other claim := by
  have hdu := durations setup
  have hl := h.lease
  refine ⟨hl, ?_, ?_⟩
  all_goals
    intro current hm
    cases hm
    generalize hb : shared.session = before at hr
  · intro hp
    cases hr with
    | ended hs _ _ => exact absurd hp hs
    | committed _ _ _ hs hc _ =>
      exact hc.trans (h.held _ hb hs.1)
    | released _ _ hh hs _ _ =>
      obtain ⟨leaseUntil, hc⟩ := heldBy_eq_true.mp hh
      have hcl := (h.held _ hb hs.1).symm.trans hc
      simp only [Option.some.injEq, CompletionClaim.mk.injEq] at hcl
      exact absurd hcl.1 ho
  · cases hr with
    | ended _ _ hep => omega
    | committed _ hre _ hs _ hep =>
      have := hre.lease (h.held _ hb hs.1)
      simp only at this
      omega
    | released _ _ hh hs _ _ =>
      obtain ⟨leaseUntil, hc⟩ := heldBy_eq_true.mp hh
      have hcl := (h.held _ hb hs.1).symm.trans hc
      simp only [Option.some.injEq, CompletionClaim.mk.injEq] at hcl
      exact absurd hcl.1 ho

end Effects

section Preservation

variable {setup : Setup} {state next : State} {id : Nat} {phase : Phase}

theorem others_idle (hin : Inv setup state) (hw : (state.phases id).isWorking = true)
    (other : Nat) (ho : other ≠ id) : (state.phases other).isWorking = false := by
  by_contra h
  rw [Bool.not_eq_false] at h
  exact ho (hin.one other id h hw)

theorem not_settled (hw : (state.phases id).isWorking = true) : ¬Settled state :=
  fun h => absurd (h.idle id) (by simp [hw])

theorem idle_update (hp : next.phases = update state.phases id phase)
    (hw : phase.isWorking = true → (state.phases id).isWorking = true) (other : Nat)
    (h : (next.phases other).isWorking = true) :
    (state.phases other).isWorking = true ∨ ¬Settled state := by
  left
  rw [hp] at h
  by_cases heq : other = id
  · rw [heq, Function.update_self] at h
    rw [heq]
    exact hw h
  · rwa [Function.update_of_ne heq] at h

theorem Inv.quiet (hin : Inv setup state)
    (hph : next.phases = update state.phases id phase) (hsa : SameFile setup state next)
    (hs : next.shared.session = state.shared.session ∨ next.shared.session = none)
    (hwr : next.shared.writes = state.shared.writes)
    (hsc : ∀ session, next.shared.session = some session →
      ∃ score, next.shared.score = some score ∧ timestampMillis session.expiresAt ≤ score)
    (hw : phase.isWorking = true → (state.phases id).isWorking = true)
    (hp : (Settled state → Settled next) → PhaseOk setup next id phase) : Inv setup next := by
  have hf : Follows setup (· ≠ id) state next :=
    .of_sameFile hsa (idle_update hph hw) (fun h => dead_kept h.dead hsa.now_le hs)
      ⟨[], extends_same hwr hs, by simp⟩ (fun _ _ _ _ _ _ h => holding_kept h hsa.now_le hs)
  refine hin.act hph (sharedOk_sameFile hin.shared hsa (fun session hm => ?_) hsc)
    hf (fun h => Or.inl (hw h)) (hp hf.settled)
  rcases hs with hk | hn
  · exact (hin.shared.record session (hk ▸ hm)).mono hsa.now_le
  · exact absurd hm (by simp [hn])

theorem Inv.stays (hin : Inv setup state)
    (hw : phase.isWorking = true → (state.phases id).isWorking = true)
    (hp : (Settled state → Settled ⟨state.shared, update state.phases id phase⟩) →
      PhaseOk setup ⟨state.shared, update state.phases id phase⟩ id phase) :
    Inv setup ⟨state.shared, update state.phases id phase⟩ :=
  hin.quiet rfl ⟨le_refl _, rfl, rfl, rfl, Or.inl rfl⟩ (Or.inl rfl) rfl hin.shared.score hw hp

theorem Inv.deletesSession (hin : Inv setup state) {outcome : Outcome}
    (hw : phase.isWorking = true → (state.phases id).isWorking = true)
    (hp : PhaseOk setup ⟨state.shared.when outcome Shared.deleteSession,
      update state.phases id phase⟩ id phase) :
    Inv setup ⟨state.shared.when outcome Shared.deleteSession,
      update state.phases id phase⟩ := by
  unfold Shared.when at hp ⊢
  split
  · rename_i hef
    rw [if_pos hef] at hp
    exact hin.quiet rfl ⟨le_refl _, rfl, rfl, rfl, Or.inl rfl⟩ (Or.inr rfl) rfl
      (fun session hm => absurd hm (by simp [Shared.deleteSession])) hw (fun _ => hp)
  · rename_i hef
    rw [if_neg hef] at hp
    exact hin.stays hw fun _ => hp

theorem Inv.deletesObject (hin : Inv setup state) {outcome : Outcome}
    (hf : outcome.takesEffect = true → ObjectFree setup state)
    (hw : phase.isWorking = true → (state.phases id).isWorking = true)
    (hp : PhaseOk setup ⟨state.shared.when outcome Shared.deleteObject,
      update state.phases id phase⟩ id phase) :
    Inv setup ⟨state.shared.when outcome Shared.deleteObject,
      update state.phases id phase⟩ := by
  unfold Shared.when at hp ⊢
  split
  · rename_i hef
    rw [if_pos hef] at hp
    exact hin.quiet rfl ⟨le_refl _, rfl, rfl, rfl, Or.inr (hf hef)⟩ (Or.inl rfl) rfl
      hin.shared.score hw (fun _ => hp)
  · rename_i hef
    rw [if_neg hef] at hp
    exact hin.stays hw fun _ => hp

theorem write_score (shared : Shared) (session : UploadSession) (current : UploadSession)
    (hm : (shared.write id session).session = some current) :
    ∃ score, (shared.write id session).score = some score ∧
      timestampMillis current.expiresAt ≤ score := by
  cases hm
  exact ⟨_, rfl, le_refl _⟩

theorem Inv.rewrites (hin : Inv setup state)
    (hr : Rewrite setup id state.shared.now state.shared.session session)
    (hw : phase.isWorking = true → (state.phases id).isWorking = true)
    (hp : PhaseOk setup ⟨state.shared.write id session,
      update state.phases id phase⟩ id phase) :
    Inv setup ⟨state.shared.write id session, update state.phases id phase⟩ := by
  have hs : SameFile setup state ⟨state.shared.write id session,
      update state.phases id phase⟩ := ⟨le_refl _, rfl, rfl, rfl, Or.inl rfl⟩
  refine hin.act rfl (sharedOk_sameFile hin.shared hs (fun current hm => ?_)
    (write_score _ session)) ?_ (fun h => Or.inl (hw h)) hp
  · cases hm
    exact hr.recordOk
  · refine .of_sameFile hs (idle_update rfl hw) (fun h => dead_rewrite h.dead hr)
      (extends_own_write id session) (fun other ho _ _ _ _ h => holding_rewrite h ho hr)

theorem Inv.takes (hin : Inv setup state)
    (hr : RecordOk setup session state.shared.now) (hu : ¬Settled state)
    (ha : ∀ other, other ≠ id → (state.phases other).isWorking = false)
    (hp : PhaseOk setup ⟨state.shared.write id session,
      update state.phases id phase⟩ id phase) :
    Inv setup ⟨state.shared.write id session, update state.phases id phase⟩ := by
  have hs : SameFile setup state ⟨state.shared.write id session,
      update state.phases id phase⟩ := ⟨le_refl _, rfl, rfl, rfl, Or.inl rfl⟩
  refine hin.act rfl (sharedOk_sameFile hin.shared hs (fun current hm => ?_)
    (write_score _ session)) (.of_alone (le_refl _) (fun _ h => h) (fun _ => rfl) hu ha
      (extends_own_write id session)) (fun _ => ?_) hp
  · cases hm
    exact hr
  · by_cases ho : (state.phases id).isWorking = true
    · exact Or.inl ho
    · right
      intro other
      by_cases heq : other = id
      · rw [heq]
        simpa using ho
      · exact ha other heq

theorem Inv.works (hin : Inv setup state) {after : Shared}
    (hw : (state.phases id).isWorking = true) (hno : after.now = state.shared.now)
    (hs : after.session = state.shared.session) (hsc : after.score = state.shared.score)
    (hwr : after.writes = state.shared.writes)
    (hk : ∀ file, state.shared.file = some file → after.file = some file)
    (hf : ∀ file, after.file = some file →
      file = setup.mediaFile ∧ after.object = some setup.totalSize)
    (hn : after.file = none → after.registrations = 0 ∧ after.stored = [])
    (hon : after.registrations ≤ 1 ∧ after.stored.length ≤ 1)
    (ho : setup.transportKind = .singlePut → after.object = state.shared.object)
    (hp : PhaseOk setup ⟨after, update state.phases id phase⟩ id phase) :
    Inv setup ⟨after, update state.phases id phase⟩ := by
  refine hin.act rfl ?_ (.of_alone hno.ge hk ho (not_settled hw)
    (others_idle hin hw) ⟨[], extends_same hwr (Or.inl hs), by simp⟩) (fun _ => Or.inl hw) hp
  refine ⟨fun session hm => ?_, fun session hm => ?_, hf, hn, hon⟩
  · change RecordOk setup session after.now
    rw [hno]
    exact hin.shared.record session (hs ▸ hm)
  · change ∃ score, after.score = some score ∧ timestampMillis session.expiresAt ≤ score
    rw [hsc]
    exact hin.shared.score session (hs ▸ hm)

end Preservation

section Updates

variable {setup : Setup} {shared after : Shared} {outcome : Outcome} {id : Nat}
  {update : SessionUpdate} {phase : UpdatePhase} {progress : Progress}

-- Why an update ends, or starts again, without having written.
def NotWritten (shared : Shared) (outcome : Outcome) (update : SessionUpdate) :
    UpdatePhase → Prop
  | .reading _ => outcome = .answered → ∀ current, shared.session = some current →
      ∀ changed, update shared.now current ≠ .ok (some changed)
  | .writing _ current _ _ => outcome.takesEffect = true → shared.session ≠ some current

-- What a round trip of an update can do.
inductive Stepped (setup : Setup) (shared : Shared) (outcome : Outcome) (id : Nat)
    (update : SessionUpdate) (phase : UpdatePhase) : Shared → Progress → Prop where
  | read {attempt : Nat} {current next : UploadSession} (hphase : phase = .reading attempt)
      (hsession : shared.session = some current)
      (hread : Read setup update shared.now current next shared.now) :
      Stepped setup shared outcome id update phase shared
        (.going (.writing attempt current next shared.now))
  | retried {attempt readAt : _} {current next : UploadSession}
      (hphase : phase = .writing attempt current next readAt)
      (hsession : shared.session ≠ some current) :
      Stepped setup shared outcome id update phase shared (.going (.reading (attempt + 1)))
  | gaveUp {result : Updated} (hwhy : NotWritten shared outcome update phase)
      (hresult : (∀ current next, result ≠ .written current next) ∧
        ∀ next, result ≠ .unanswered next) :
      Stepped setup shared outcome id update phase shared (.resolved result)
  | wrote {attempt : Nat} {readAt : Int} {current next : UploadSession} {result : Updated}
      (hphase : phase = .writing attempt current next readAt)
      (hread : Read setup update shared.now current next readAt)
      (hsession : shared.session = some current)
      (htime : shared.now ≤ readAt + UPLOAD_SESSION_RECLAIM_GRACE)
      (heffect : outcome.takesEffect = true)
      (hresult : result = .written current next ∨ result = .unanswered next) :
      Stepped setup shared outcome id update phase (shared.write id next) (.resolved result)

theorem updateStep_cases (hr : ∀ session, shared.session = some session →
      RecordOk setup session shared.now) (hok : UpdateOk setup update shared.now phase)
    (hs : updateStep shared outcome id update phase = some (after, progress)) :
    Stepped setup shared outcome id update phase after progress := by
  cases phase with
  | reading attempt =>
    simp only [updateStep, Option.some.injEq, Prod.mk.injEq] at hs
    obtain ⟨rfl, rfl⟩ := hs
    unfold readForUpdate
    split
    · rename_i hu
      exact .gaveUp (fun h => absurd h hu) (by simp)
    cases hse : shared.session with
    | none => exact .gaveUp (fun _ current h => absurd h (by simp [hse])) (by simp)
    | some current =>
      simp only
      split
      · rename_i code heo
        refine .gaveUp (fun _ other h changed => ?_) (by simp)
        rw [hse, Option.some.injEq] at h
        rw [← h, heo]
        simp
      · rename_i hn
        refine .gaveUp (fun _ other h changed => ?_) (by simp)
        rw [hse, Option.some.injEq] at h
        rw [← h, hn]
        simp
      · rename_i changed hc
        exact .read rfl hse ⟨le_refl _, hr current hse, changed, hc, rfl⟩
  | writing attempt current next readAt =>
    simp only [updateStep] at hs
    split at hs
    · cases hs
    rename_i ht
    simp only [Option.some.injEq] at hs
    unfold compareAndSet at hs
    split at hs
    · rename_i hf
      cases hs
      exact .gaveUp (fun h => absurd h (by simp [hf])) (by simp)
    rename_i hef
    split at hs
    · rename_i hse
      cases hs
      refine .wrote rfl hok hse (by omega) (Outcome.takesEffect_eq_true.mpr hef) ?_
      split
      · exact Or.inl rfl
      · exact Or.inr rfl
    rename_i hse
    split at hs
    · cases hs
      exact .gaveUp (fun _ => hse) (by simp)
    split at hs
    · cases hs
      exact .retried rfl hse
    · cases hs
      exact .gaveUp (fun _ => hse) (by simp)

end Updates

end FlareIm.DirectUpload
