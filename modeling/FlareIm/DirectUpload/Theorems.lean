import FlareIm.DirectUpload.Steps

namespace FlareIm.DirectUpload

open RoundTrip Transition

variable {reported : Bool} {phase : Phase} {startedAt : Int}

section Small

variable {setup : Setup} {shared : Shared} {id : Nat}

@[simp] theorem when_deleteObject_writes (outcome : Outcome) :
    (shared.when outcome Shared.deleteObject).writes = shared.writes := by
  unfold Shared.when
  split <;> rfl

@[simp] theorem when_deleteSession_file (outcome : Outcome) :
    (shared.when outcome Shared.deleteSession).file = shared.file := by
  unfold Shared.when
  split <;> rfl

theorem of_statObject (h : statObject shared setup reported = some true) :
    shared.object = some setup.totalSize := by
  unfold statObject ensureDeclaredSize at h
  obtain ⟨size, ho, hs⟩ := Option.map_eq_some_iff.mp h
  cases reported with
  | true =>
    simp only [if_true, beq_iff_eq, Option.some.injEq] at hs
    rw [ho, hs]
  | false => cases hs

theorem of_getSession {session : UploadSession} (h : shared.getSession = some session) :
    shared.session = some session := by
  unfold Shared.getSession at h
  rw [Option.filter_eq_some_iff] at h
  exact h.1

end Small

section Release

variable {setup : Setup} {state : State} {id : Nat} {releaser : Releaser} {session : UploadSession}

theorem verify_idle : (verify releaser session).isWorking = false := by
  unfold verify
  split
  · cases releaser <;> rfl
  · rfl

theorem phaseOk_verify (hs : releaser = .reclaim → Settled state)
    (hr : RecordOk setup session state.shared.now) :
    PhaseOk setup state id (verify releaser session) := by
  unfold verify
  split
  · cases releaser with
    | abort => exact hr
    | reclaim => trivial
  · exact ⟨fun h => ⟨hs h, fun hst => absurd hst (by simp)⟩, hr⟩

theorem released_idle {freed : Bool} : (released releaser session freed).isWorking = false := by
  unfold released
  cases releaser with
  | abort => rfl
  | reclaim => cases freed <;> rfl

theorem phaseOk_released {freed : Bool} (hr : RecordOk setup session state.shared.now) :
    PhaseOk setup state id (released releaser session freed) := by
  unfold released
  cases releaser with
  | abort => exact hr
  | reclaim => cases freed <;> trivial

theorem releaseUploadResources_idle :
    (releaseUploadResources setup releaser session).isWorking = false := by
  unfold releaseUploadResources
  split
  · rfl
  · exact verify_idle

theorem phaseOk_releaseUploadResources (hs : releaser = .reclaim → Settled state)
    (hr : RecordOk setup session state.shared.now) :
    PhaseOk setup state id (releaseUploadResources setup releaser session) := by
  unfold releaseUploadResources
  split
  · exact ⟨fun h => ⟨hs h, fun hst => absurd hst (by simp)⟩, hr⟩
  · exact phaseOk_verify hs hr

end Release

section Keeps

variable {setup : Setup} {state : State} {id : Nat} {outcome : Outcome}

-- What the invariant says of a call in its phase.
theorem Inv.own (hin : Inv setup state) (hp : state.phases id = phase) :
    PhaseOk setup state id phase :=
  hp ▸ hin.phases id

theorem isWorking_of {claim : DirectCompletionClaim} {task : Task} {renewal : Renewal}
    (hp : state.phases id = .working claim task renewal) : (state.phases id).isWorking = true := by
  rw [hp]
  rfl

theorem begin_idle (call : Call) : (begin setup state.shared outcome call).isWorking = false := by
  unfold begin
  split
  · rfl
  · repeat' split
    all_goals rfl
  · repeat' split
    all_goals rfl
  · split
    · rfl
    split
    · rfl
    split
    · rfl
    exact releaseUploadResources_idle

theorem keeps_begin (hin : Inv setup state) (hp : state.phases id = .waiting) :
    Inv setup ⟨state.shared, Function.update state.phases id
      (begin setup state.shared outcome (setup.call id))⟩ := by
  have hn : NeverWrote state.shared id := hin.own hp
  have hk : ExpiryKept state.shared id := Or.inl hn
  refine hin.stays (fun h => absurd h (by simp [begin_idle])) fun _ => ?_
  generalize Function.update state.phases id _ = phases
  unfold begin
  split
  · exact le_refl _
  · split
    · trivial
    split
    · trivial
    split
    · exact ⟨hn, trivial⟩
    · exact hk
  · split
    · trivial
    split
    · trivial
    split
    · trivial
    split
    · exact hk
    · exact hn
  · split
    · trivial
    split
    · trivial
    rename_i session hs
    split
    · trivial
    · exact phaseOk_releaseUploadResources (by simp) (hin.shared.record session (of_getSession hs))

theorem keeps_checking (hin : Inv setup state) {session : UploadSession}
    (hp : state.phases id = .checking session) :
    Inv setup ⟨state.shared, Function.update state.phases id
      (if outcome = .answered then checked setup state.shared session
        else refused .databaseError)⟩ := by
  have hn : NeverWrote state.shared id := hin.own hp
  have hk : ExpiryKept state.shared id := Or.inl hn
  split
  · unfold checked
    split
    · rename_i file hf
      have hme := (hin.shared.file file hf).1
      exact hin.stays (by simp [Phase.isWorking]) fun _ => ⟨⟨hme, hme ▸ hf⟩, trivial⟩
    split
    · exact hin.stays (by simp [Phase.isWorking]) fun _ => hn
    · rename_i hm
      split
      · refine hin.stays (by simp [Phase.isWorking]) fun _ => ⟨hn, trivial, fun hpu => ?_⟩
        exact absurd (hm.symm.trans hpu) (by simp)
      · exact hin.stays (by simp [Phase.isWorking, refused]) fun _ => hk
  · exact hin.stays (by simp [Phase.isWorking, refused]) fun _ => trivial

theorem keeps_stating (hin : Inv setup state) (hp : state.phases id = .stating) :
    Inv setup ⟨state.shared, Function.update state.phases id
      (stated (statObject state.shared setup reported))⟩ := by
  have hn : NeverWrote state.shared id := hin.own hp
  have hk : ExpiryKept state.shared id := Or.inl hn
  cases hs : statObject state.shared setup reported with
  | none => exact hin.stays (by simp [Phase.isWorking, stated, refused]) fun _ => hk
  | some valid =>
    cases valid with
    | false => exact hin.stays (by simp [Phase.isWorking, stated]) fun _ => hn
    | true =>
      exact hin.stays (by simp [Phase.isWorking, stated]) fun _ =>
        ⟨hn, trivial, fun _ => Or.inl (of_statObject hs)⟩

theorem keeps_refusing (hin : Inv setup state) (hp : state.phases id = .refusing)
    (hf : outcome.takesEffect = true → Unused setup state) :
    Inv setup ⟨state.shared.when outcome Shared.deleteObject,
      Function.update state.phases id (refused .invalidParameter)⟩ := by
  have hn : NeverWrote state.shared id := hin.own hp
  refine hin.deletesObject (fun h => Or.inl (hf h)) (by simp [Phase.isWorking, refused]) ?_
  apply Or.inl
  intro write hw
  exact hn write (by simpa using hw)

theorem keeps_rechecking (hin : Inv setup state) {code : ErrorCode}
    (hp : state.phases id = .rechecking code) :
    Inv setup ⟨state.shared, Function.update state.phases id
      (if outcome ≠ .answered then refused .databaseError
        else .answered ((state.shared.file.map .completed).getD (.refused code)))⟩ := by
  have hn : NeverWrote state.shared id := hin.own hp
  have hk : ExpiryKept state.shared id := Or.inl hn
  split
  · exact hin.stays (by simp [Phase.isWorking, refused]) fun _ => trivial
  · refine hin.stays (by simp [Phase.isWorking]) fun _ => ?_
    cases hf : state.shared.file with
    | none =>
      cases code with
      | invalidParameter => exact hk
      | _ => trivial
    | some file =>
      have hm := (hin.shared.file file hf).1
      exact ⟨hm, hm ▸ hf⟩

variable {after : Shared} {update : UpdatePhase} {progress : Progress}

theorem keeps_committing (hin : Inv setup state) {parts : List UploadedPartRecord}
    (hp : state.phases id = .committing parts update) {resolved : Updated → Phase}
    (hil : ∀ result, (resolved result).isWorking = false)
    (hk : ∀ next result, NeverWrote next.shared id → PhaseOk setup next id (resolved result))
    (hw : ∀ next current changed result,
      result = .written current changed ∨ result = .unanswered changed →
        PhaseOk setup next id (resolved result))
    (hs : Stepped setup state.shared outcome id (commitUpdate setup parts) update after progress) :
    Inv setup ⟨after, Function.update state.phases id
      (progress.continue (.committing parts) resolved)⟩ := by
  have ho := hin.own hp
  obtain ⟨hn, -⟩ := ho
  cases hs with
  | read _ _ hr =>
    exact hin.stays (by simp [Phase.isWorking, Progress.continue]) fun _ => ⟨hn, hr⟩
  | retried _ _ =>
    exact hin.stays (by simp [Phase.isWorking, Progress.continue]) fun _ => ⟨hn, trivial⟩
  | gaveUp _ _ => exact hin.stays (by simp [Progress.continue, hil]) fun _ => hk _ _ hn
  | wrote _ hr hse ht _ hre =>
    refine hin.rewrites ?_ (by simp [Progress.continue, hil]) (hw _ _ _ _ hre)
    rw [hse]
    exact rewrite_commit hr ht

theorem keeps_finishing (hin : Inv setup state) {file : MediaFile}
    (hp : state.phases id = .finishing file update)
    (hs : Stepped setup state.shared outcome id (endUpdate .completed) update after progress) :
    Inv setup ⟨after, Function.update state.phases id
      (progress.continue (.finishing file) fun _ => .ending file)⟩ := by
  have ho := hin.own hp
  obtain ⟨hr, -⟩ := ho
  cases hs with
  | read _ _ hre =>
    exact hin.stays (by simp [Phase.isWorking, Progress.continue]) fun _ =>
      ⟨hr, hre⟩
  | retried _ _ =>
    exact hin.stays (by simp [Phase.isWorking, Progress.continue]) fun _ =>
      ⟨hr, trivial⟩
  | gaveUp _ _ =>
    exact hin.stays (by simp [Phase.isWorking, Progress.continue]) fun _ => hr
  | wrote _ hre hse ht _ _ =>
    refine hin.rewrites ?_ (by simp [Phase.isWorking, Progress.continue]) hr
    rw [hse]
    exact rewrite_end (by simp) hre ht

theorem keeps_ending (hin : Inv setup state) {file : MediaFile}
    (hp : state.phases id = .ending file) :
    Inv setup ⟨state.shared.when outcome Shared.deleteSession,
      Function.update state.phases id (.answered (.completed file))⟩ := by
  have ho := hin.own hp
  refine hin.deletesSession (by simp [Phase.isWorking]) ⟨ho.1, ?_⟩
  simpa using ho.2

theorem keeps_claiming (hin : Inv setup state) (hp : state.phases id = .claiming update)
    (hok : TripInOrder setup state id outcome (.claiming update))
    (hs : Stepped setup state.shared outcome id (claimUpdate setup id) update after progress) :
    Inv setup ⟨after, Function.update state.phases id
      (progress.continue .claiming (claimed setup))⟩ := by
  have hdu := durations setup
  obtain ⟨hnv, -, hob⟩ := hin.own hp
  have hcl : ∀ next, (Settled state → Settled next) → setup.transportKind = .singlePut →
      state.shared.object = some setup.totalSize ∨ Settled next := by
    intro next hse hpu
    rcases hob hpu with h | h
    · exact Or.inl h
    · exact Or.inr (hse h)
  cases hs with
  | read _ _ hr =>
    exact hin.stays (by simp [Phase.isWorking, Progress.continue]) fun hse =>
      ⟨hnv, hr, hcl _ hse⟩
  | retried _ _ =>
    exact hin.stays (by simp [Phase.isWorking, Progress.continue]) fun hse =>
      ⟨hnv, trivial, hcl _ hse⟩
  | @gaveUp result _ hre =>
    cases result with
    | missing | unchanged =>
      exact hin.stays (by simp [Phase.isWorking, Progress.continue, claimed]) fun _ => hnv
    | written current next => exact absurd rfl (hre.1 current next)
    | unanswered next => exact absurd rfl (hre.2 next)
    | refused code =>
      cases code with
      | messageNotFound | invalidParameter =>
        exact hin.stays (by simp [Phase.isWorking, Progress.continue, claimed]) fun _ => hnv
      | _ =>
        exact hin.stays (by simp [Phase.isWorking, Progress.continue, claimed, refused])
          fun _ => trivial
  | @wrote attempt readAt current next result hup hr hss ht hef hre =>
    subst hup
    obtain ⟨hn, hl⟩ := hok hef hss
    obtain ⟨hli, hst, hf, hc, hep⟩ := of_claimUpdate hr
    have hu : ¬Settled state := fun h => by
      have := h.dead current hss hst.1
      omega
    have hil : ∀ other, (state.phases other).isWorking = false := by
      intro other
      cases ho : state.phases other with
      | working claim task renewal =>
        have hh := (hin.own ho).holding
        have hla := hf _ (hh.held current hss hst.1)
        have hke := hl other claim task renewal ho
        have hr := hr.time
        simp only at hla
        omega
      | _ => rfl
    refine hin.takes (recordOk_claim hr) hu (fun other _ => hil other) ?_
    rcases hre with rfl | rfl
    · have hls : leaseOf next = readAt + DIRECT_COMPLETION_LEASE := by
        simp [leaseOf, hc]
      have hr' := hr
      have hr := hr.time
      constructor
      · refine ⟨?_, fun session hm _ => ?_, fun session hm => ?_⟩
        · show leaseOf next ≤ state.shared.now + DIRECT_COMPLETION_LEASE
          omega
        · cases hm
          rw [hc, hls]
        · cases hm
          show leaseOf next ≤ next.expiresAt
          omega
      · unfold firstTask
        split
        · rename_i hmu
          exact ⟨hn, hmu⟩
        · rename_i hpu
          refine ⟨hn, ?_⟩
          have hsi : setup.transportKind = .singlePut := by
            cases hk : setup.transportKind with
            | singlePut => rfl
            | multipartPut => exact absurd hk hpu
          rcases hob hsi with h | h
          · exact h
          · exact absurd h hu
      · exact ⟨trivial, fun _ _ _ _ h => absurd h (by simp)⟩
      · show current.expiresAt ≤ next.expiresAt
        omega
      · show current.expiresAt ≤ state.shared.now + directSessionTtl setup
        have := hr'.record.ttl hst.1
        omega
      · apply since_first_write hnv hss
        exact ⟨hst.2, heldBy_eq_true.mpr ⟨_, hc⟩, fun _ => rfl⟩
    · trivial

theorem keeps_renewing (hin : Inv setup state) {claim : DirectCompletionClaim} {task : Task}
    (hp : state.phases id = .working claim task (.running update))
    (hs : Stepped setup state.shared outcome id (renewUpdate setup id) update after progress) :
    Inv setup ⟨after, Function.update state.phases id
      (progress.continue (fun update => .working claim task (.running update))
        (renewed claim task))⟩ := by
  have hdu := durations setup
  have ho : WorkOk setup state.shared id claim task (.running update) := hin.own hp
  have hw := isWorking_of hp
  obtain ⟨hho, ht, hrn, hb, htt, hsi⟩ := ho
  have hre : RenewalOk setup state.shared id claim.expiresBefore (.running (.reading 1)) :=
    ⟨trivial, fun _ _ _ _ h => absurd h (by simp)⟩
  cases hs with
  | read _ _ hra =>
    refine hin.stays (fun _ => hw) fun _ =>
      ⟨hho, ht, ⟨hra, fun _ _ _ _ h => ?_⟩, hb, htt, hsi⟩
    cases h
    exact htt
  | retried _ _ =>
    exact hin.stays (fun _ => hw) fun _ =>
      ⟨hho, ht, ⟨trivial, fun _ _ _ _ h => absurd h (by simp)⟩, hb, htt, hsi⟩
  | @gaveUp result _ hr =>
    cases result with
    | missing | unchanged =>
      exact hin.stays (fun _ => hw) fun _ =>
        ⟨hho, ht, trivial, hb, htt, hsi⟩
    | written current next => exact absurd rfl (hr.1 current next)
    | unanswered next => exact absurd rfl (hr.2 next)
    | refused code =>
      exact hin.stays (fun _ => hw) fun _ =>
        ⟨hho, ht, hre, hb, htt, hsi⟩
  | @wrote attempt readAt current next result hu hra hse hti hef hr =>
    obtain ⟨hh, hst, hc, hep⟩ := of_renewUpdate hra
    have ht' : TaskOk setup (state.shared.write id next) task := by
      cases task <;> exact ht
    have hl : leaseOf next = readAt + DIRECT_COMPLETION_LEASE := by
      simp [leaseOf, hc]
    have hti := hra.time
    refine hin.takes (recordOk_renew hra) (not_settled hw) (others_idle hin hw) ?_
    have hho' : ∀ claim : DirectCompletionClaim, claim.leaseUntil = leaseOf next →
        Holding (state.shared.write id next) id claim := by
      intro claim hcl
      refine ⟨?_, fun session hm _ => ?_, fun session hm => ?_⟩
      · show claim.leaseUntil ≤ state.shared.now + DIRECT_COMPLETION_LEASE
        omega
      · cases hm
        rw [hc, hcl, hl]
      · cases hm
        omega
    have hours : next.status = .pending ∧ next.heldBy id = true :=
      ⟨hst.2, heldBy_eq_true.mpr ⟨_, hc⟩⟩
    rcases hr with rfl | rfl
    · refine ⟨hho' _ rfl, ht', hre, ?_, htt, since_own_write hsi fun _ =>
        ⟨hours.1, hours.2, fun _ => rfl⟩⟩
      show claim.expiresBefore ≤ next.expiresAt
      have := hrn.2 _ _ _ _ hu
      omega
    · exact ⟨hho' _ rfl, ht', hre, hb, htt, since_own_write hsi fun _ =>
        ⟨hours.1, hours.2, fun h => absurd h (by simp)⟩⟩

end Keeps

section Work

variable {setup : Setup} {state next : State} {id : Nat} {outcome : Outcome} {shared after : Shared}
  {claim : DirectCompletionClaim} {task other : Task} {renewal : Renewal} {code : ErrorCode}

-- A step of the work that leaves the record and the clock.
structure SameRecord (shared after : Shared) : Prop where
  now : after.now = shared.now
  session : after.session = shared.session
  writes : after.writes = shared.writes
  score : after.score = shared.score

theorem workOk_next (other : Task) (h : WorkOk setup shared id claim task renewal)
    (hs : SameRecord shared after) (ht : TaskOk setup after other) :
    WorkOk setup after id claim other renewal := by
  refine ⟨holding_kept h.holding hs.now.ge (Or.inl hs.session), ht, ?_, h.before_le, ?_,
    since_extends h.since (extends_same hs.writes (Or.inl hs.session)) (by simp)⟩
  · cases renewal with
    | running update => exact ⟨UpdateOk.mono h.renewal.1 hs.now.ge, h.renewal.2⟩
    | stopped => trivial
  · rw [hs.now]
    exact h.before_ttl

theorem phaseOk_failed (h : WorkOk setup shared id claim task renewal)
    (hw : next.shared.writes = shared.writes)
    (hs : next.shared.session = shared.session ∨ next.shared.session = none) :
    PhaseOk setup next id (failed claim code) :=
  ⟨trivial, h.before_le, fun _ => since_extends h.since (extends_same hw hs) (by simp)⟩

theorem completeMultipartUpload_cases (shared : Shared) (outcome : Outcome) (merged : Option Int) :
    (completeMultipartUpload shared outcome merged).1 = shared ∨
      ∃ object, (completeMultipartUpload shared outcome merged).1 =
        { shared with object := object, multipartOpen := false } := by
  unfold completeMultipartUpload
  split
  · exact Or.inl rfl
  · split
    · rename_i size _ _
      exact Or.inr ⟨some size, rfl⟩
    · exact Or.inl rfl
  · exact Or.inl rfl

theorem keeps_merging (hin : Inv setup state)
    (hp : state.phases id = .working claim .merging renewal) {merged : Option Int}
    (hta : other = .stating ∨ ∃ code, other = .restating code) :
    Inv setup ⟨(completeMultipartUpload state.shared outcome merged).1,
      Function.update state.phases id (.working claim other renewal)⟩ := by
  have ho : WorkOk setup state.shared id claim .merging renewal := hin.own hp
  have hw := isWorking_of hp
  obtain ⟨hn, hm⟩ := ho.task
  have ht : ∀ after : Shared, after.file = none → TaskOk setup after other := by
    intro after ha
    rcases hta with rfl | ⟨code, rfl⟩ <;> exact ⟨ha, hm⟩
  rcases completeMultipartUpload_cases state.shared outcome merged with hs | ⟨object, hme⟩
  · rw [hs]
    exact hin.stays (fun _ => hw) fun _ =>
      workOk_next _ ho ⟨rfl, rfl, rfl, rfl⟩ (ht _ hn)
  · rw [hme]
    refine hin.works hw rfl rfl rfl rfl (fun _ h => h) (fun file hf => ?_)
      hin.shared.unregistered hin.shared.once (fun hpu => ?_)
      (workOk_next _ ho ⟨rfl, rfl, rfl, rfl⟩ (ht _ hn))
    · exact absurd (hn.symm.trans hf) (by simp)
    · exact absurd (hm.symm.trans hpu) (by simp)

theorem keeps_sized (hin : Inv setup state) (hp : state.phases id = .working claim task renewal)
    (ht : state.shared.file = none ∧ setup.transportKind = .multipartPut) :
    Inv setup ⟨state.shared, Function.update state.phases id
      (sized claim renewal code (statObject state.shared setup reported))⟩ := by
  have ho : WorkOk setup state.shared id claim task renewal := hin.own hp
  have hw := isWorking_of hp
  refine hin.stays (fun _ => hw) fun _ => ?_
  cases hs : statObject state.shared setup reported with
  | none => exact phaseOk_failed ho rfl (Or.inl rfl)
  | some valid =>
    cases valid with
    | false => exact workOk_next .discarding ho ⟨rfl, rfl, rfl, rfl⟩ ht
    | true =>
      exact workOk_next .saving ho ⟨rfl, rfl, rfl, rfl⟩ ⟨ht.1, of_statObject hs⟩

theorem keeps_failed (hin : Inv setup state) (hp : state.phases id = .working claim task renewal) :
    Inv setup ⟨state.shared, Function.update state.phases id (failed claim code)⟩ :=
  hin.stays (by simp [failed, Phase.isWorking]) fun _ =>
    phaseOk_failed (hin.own hp) rfl (Or.inl rfl)

theorem keeps_discarding (hin : Inv setup state)
    (hp : state.phases id = .working claim .discarding renewal) :
    Inv setup ⟨state.shared.when outcome Shared.deleteObject, Function.update state.phases id
      (.working claim (if outcome = .answered then .dropping else .marking 1 (.reading 1))
        renewal)⟩ := by
  have ho : WorkOk setup state.shared id claim .discarding renewal := hin.own hp
  have hw := isWorking_of hp
  obtain ⟨hn, hm⟩ := ho.task
  have ht : ∀ after : Shared, after.file = none → TaskOk setup after
      (if outcome = .answered then .dropping else .marking 1 (.reading 1)) := by
    intro after ha
    split
    · exact ⟨ha, hm⟩
    · exact ⟨⟨ha, hm⟩, trivial⟩
  unfold Shared.when
  split
  · refine hin.works hw rfl rfl rfl rfl (fun _ h => h) (fun file hf => ?_)
      hin.shared.unregistered hin.shared.once (fun hpu => ?_)
      (workOk_next _ ho ⟨rfl, rfl, rfl, rfl⟩ (ht _ hn))
    · exact absurd (hn.symm.trans hf) (by simp)
    · exact absurd (hm.symm.trans hpu) (by simp)
  · exact hin.stays (fun _ => hw) fun _ =>
      workOk_next _ ho ⟨rfl, rfl, rfl, rfl⟩ (ht _ hn)

theorem keeps_dropping (hin : Inv setup state)
    (hp : state.phases id = .working claim .dropping renewal) :
    Inv setup ⟨state.shared.when outcome Shared.deleteSession, Function.update state.phases id
      (failed claim .invalidParameter)⟩ := by
  apply hin.deletesSession (by simp [failed, Phase.isWorking])
  apply phaseOk_failed (hin.own hp)
  · simp only [Shared.when]
    split <;> rfl
  · simp only [Shared.when]
    split
    · exact Or.inr rfl
    · exact Or.inl rfl

theorem keeps_marking (hin : Inv setup state) {attempt : Nat} {update : UpdatePhase}
    {progress : Progress}
    (hp : state.phases id = .working claim (.marking attempt update) renewal)
    (hok : TripInOrder setup state id outcome (.working claim (.marking attempt update) renewal))
    (hs : Stepped setup state.shared outcome id (endUpdate .aborted) update after progress) :
    Inv setup ⟨after, Function.update state.phases id
      (progress.continue (fun update => .working claim (.marking attempt update) renewal)
        (marked claim renewal attempt))⟩ := by
  have ho : WorkOk setup state.shared id claim (.marking attempt update) renewal :=
    hin.own hp
  have hw := isWorking_of hp
  obtain ⟨hf, -⟩ := ho.task
  cases hs with
  | @read attempt' current next hu hse hre =>
    exact hin.stays (fun _ => hw) fun _ =>
      workOk_next (.marking attempt (.writing attempt' current next state.shared.now)) ho
        ⟨rfl, rfl, rfl, rfl⟩ ⟨hf, hre⟩
  | @retried attempt' _ _ _ hu hse =>
    exact hin.stays (fun _ => hw) fun _ =>
      workOk_next (.marking attempt (.reading (attempt' + 1))) ho ⟨rfl, rfl, rfl, rfl⟩ ⟨hf, trivial⟩
  | @gaveUp result _ hr =>
    refine hin.stays (fun _ => hw) fun _ => ?_
    cases result with
    | missing | unchanged => exact phaseOk_failed ho rfl (Or.inl rfl)
    | written current next => exact absurd rfl (hr.1 current next)
    | unanswered next => exact absurd rfl (hr.2 next)
    | refused code =>
      simp only [Progress.continue, marked]
      split
      · exact workOk_next (.marking (attempt + 1) (.reading 1)) ho
          ⟨rfl, rfl, rfl, rfl⟩ ⟨hf, trivial⟩
      · exact phaseOk_failed ho rfl (Or.inl rfl)
  | wrote hu _ hse _ hef _ =>
    subst hu
    exact absurd hse (hok hef)

theorem keeps_saving (hin : Inv setup state)
    (hp : state.phases id = .working claim .saving renewal) {after : Shared}
    (ha : after = state.shared.register setup ∨
      after = (state.shared.register setup).mediaStored setup)
    (hnx : PhaseOk setup ⟨after, Function.update state.phases id phase⟩ id phase) :
    Inv setup ⟨after, Function.update state.phases id phase⟩ := by
  have hon : WorkOk setup state.shared id claim .saving renewal := hin.own hp
  have hw := isWorking_of hp
  obtain ⟨hn, ho⟩ := hon.task
  obtain ⟨hr, hs⟩ := hin.shared.unregistered hn
  have hk : ∀ file, state.shared.file = some file → after.file = some file := by
    intro file hf
    exact absurd (hn.symm.trans hf) (by simp)
  rcases ha with rfl | rfl
  all_goals
    refine hin.works hw rfl rfl rfl rfl hk (fun file hf => ?_)
      (fun h => absurd h (by simp [Shared.register, Shared.mediaStored])) ?_ (fun _ => rfl) hnx
  · cases hf
    exact ⟨rfl, ho⟩
  · simp [Shared.register, hr, hs]
  · cases hf
    exact ⟨rfl, ho⟩
  · simp [Shared.register, Shared.mediaStored, hr, hs]

theorem keeps_resaving (hin : Inv setup state)
    (hp : state.phases id = .working claim .resaving renewal) :
    Inv setup ⟨state.shared.when outcome fun shared => { shared with file := some setup.mediaFile },
      Function.update state.phases id
        (if outcome = .answered then finish setup else failed claim .databaseError)⟩ := by
  have ho : WorkOk setup state.shared id claim .resaving renewal := hin.own hp
  have hw := isWorking_of hp
  have hf : state.shared.file = some setup.mediaFile := by
    obtain ⟨file, hf⟩ := Option.ne_none_iff_exists'.mp ho.task
    rw [hf, (hin.shared.file file hf).1]
  have hs : (state.shared.when outcome fun shared =>
      { shared with file := some setup.mediaFile }) = state.shared := by
    unfold Shared.when
    split
    · rw [← hf]
    · rfl
  rw [hs]
  refine hin.stays (fun _ => hw) fun _ => ?_
  split
  · exact ⟨⟨rfl, hf⟩, trivial⟩
  · exact phaseOk_failed ho rfl (Or.inl rfl)

theorem keeps_working (hin : Inv setup state)
    (hp : state.phases id = .working claim task renewal) {move : Move}
    (hok : ∀ outcome, move = .trip outcome →
      TripInOrder setup state id outcome (.working claim task renewal))
    (hs : workStep setup id state.shared claim renewal task move = some (after, phase)) :
    Inv setup ⟨after, Function.update state.phases id phase⟩ := by
  have ho : WorkOk setup state.shared id claim task renewal := hin.own hp
  have hw := isWorking_of hp
  unfold workStep at hs
  split at hs
  · cases hs
    apply keeps_merging hin hp
    split
    · exact Or.inl rfl
    · rename_i code _
      exact Or.inr ⟨code, rfl⟩
  · cases hs
    exact keeps_sized hin hp ho.task
  · cases hs
    exact keeps_failed hin hp
  · cases hs
    exact keeps_sized hin hp ho.task
  · cases hs
    exact keeps_failed hin hp
  · cases hs
    exact keeps_discarding hin hp
  · cases hs
    exact keeps_dropping hin hp
  · rename_i attempt update outcome
    obtain ⟨⟨middle, progress⟩, hu, hr⟩ := Option.map_eq_some_iff.mp hs
    cases hr
    exact keeps_marking hin hp (hok outcome rfl) (updateStep_cases hin.shared.record ho.task.2 hu)
  · split at hs
    · cases hs
      refine keeps_saving hin hp (Or.inr rfl) ?_
      split
      · exact workOk_next .referencing ho ⟨rfl, rfl, rfl, rfl⟩
          (by simp [TaskOk, Shared.register, Shared.mediaStored])
      · exact ⟨⟨rfl, rfl⟩, trivial⟩
    · cases hs
      unfold Shared.when
      split
      · exact keeps_saving hin hp (Or.inl rfl) (phaseOk_failed ho rfl (Or.inl rfl))
      · exact keeps_failed hin hp
  · rename_i outcome
    cases hs
    split
    · exact hin.stays (fun _ => hw) fun _ =>
        workOk_next .resaving ho ⟨rfl, rfl, rfl, rfl⟩ ho.task
    · exact keeps_failed hin hp
  · cases hs
    exact keeps_resaving hin hp
  · cases hs

end Work

section Ends

variable {setup : Setup} {state : State} {id : Nat} {outcome : Outcome} {after : Shared}
  {claim : DirectCompletionClaim} {code : ErrorCode} {update : UpdatePhase} {progress : Progress}

theorem expiryKept_of_notWritten (ho : ReleaseKept state.shared id claim update)
    (hok : TripInOrder setup state id outcome (.releasingCompletion claim .invalidParameter update))
    (hw : NotWritten state.shared outcome (releaseUpdate id true claim.expiresBefore
      claim.renewedUntil) update) : ExpiryKept state.shared id := by
  right
  refine ⟨claim.expiresBefore, ?_⟩
  cases update with
  | reading attempt =>
    apply Since.imp ho
    intro session hs hours
    have ha : outcome = .answered := hok ⟨session, hs, hours.held⟩
    obtain ⟨changed, hc⟩ : ∃ changed, releaseUpdate id true claim.expiresBefore
        claim.renewedUntil state.shared.now session = .ok (some changed) :=
      ⟨_, by rw [releaseUpdate, if_neg (by simp [hours.held])]⟩
    exact absurd hc (hw ha session hs changed)
  | writing attempt current next readAt =>
    apply Since.imp ho
    rintro session hs ⟨rfl, -⟩
    exact absurd hs (hw (hok hs).1)

theorem keeps_releasing (hin : Inv setup state)
    (hp : state.phases id = .releasingCompletion claim code update)
    (hok : TripInOrder setup state id outcome (.releasingCompletion claim code update))
    (hs : Stepped setup state.shared outcome id (releaseUpdate id (code == .invalidParameter)
      claim.expiresBefore claim.renewedUntil) update after progress) :
    Inv setup ⟨after, Function.update state.phases id
      (progress.continue (.releasingCompletion claim code) fun _ => refused code)⟩ := by
  have ho : ReleaseOk setup state.shared id claim code update := hin.own hp
  cases hs with
  | @read attempt current next hu hse hr =>
    subst hu
    refine hin.stays (by simp [Phase.isWorking, Progress.continue]) fun _ =>
      ⟨hr, ho.before_le, fun hc => ?_⟩
    apply Since.imp (ho.kept hc)
    intro session hm hours
    rw [hse] at hm
    cases hm
    exact ⟨rfl, hours⟩
  | retried hu hse =>
    subst hu
    refine hin.stays (by simp [Phase.isWorking, Progress.continue]) fun _ =>
      ⟨trivial, ho.before_le, fun hc => ?_⟩
    apply Since.imp (ho.kept hc)
    rintro session hm ⟨rfl, hours⟩
    exact hours
  | gaveUp hw _ =>
    refine hin.stays (by simp [Phase.isWorking, Progress.continue, refused]) fun _ => ?_
    cases code with
    | invalidParameter =>
      have hk : ExpiryKept state.shared id :=
        expiryKept_of_notWritten (ho.kept rfl) hok hw
      exact hk
    | _ => trivial
  | @wrote attempt readAt current next result hu hr hse ht hef _ =>
    subst hu
    refine hin.rewrites ?_ (by simp [Phase.isWorking, Progress.continue, refused]) ?_
    · rw [hse]
      exact rewrite_release ho.before_le hr ht
    · cases code with
      | invalidParameter =>
        right
        refine ⟨claim.expiresBefore, since_own_write (ho.kept rfl) fun hcu => ?_⟩
        have hours := (hcu current hse).2
        have hep := (of_releaseUpdate hr).2.2.2 hours.pending
        rw [hep, if_pos ⟨rfl, hours.expires (hok hse).2⟩]
      | _ => trivial

theorem claimScript_eq (shared : Shared) (startedAt : Int) :
    (∃ score, (claimScript shared startedAt).1 = { shared with score := score } ∧
      (shared.session.isSome → score = some (timestampMillis
        (startedAt + UPLOAD_SESSION_RECLAIM_LEASE)))) ∧ isExpired shared startedAt = true ∨
    (claimScript shared startedAt).1 = shared := by
  unfold claimScript
  split
  · rename_i hep
    left
    refine ⟨?_, hep⟩
    cases hs : shared.session with
    | none => exact ⟨none, by simp, by simp⟩
    | some session =>
      exact ⟨some (timestampMillis (startedAt + UPLOAD_SESSION_RECLAIM_LEASE)), by simp, by simp⟩
  · exact Or.inr rfl

theorem of_claimScript {shared : Shared} {session : UploadSession}
    (h : (claimScript shared startedAt).2 = some session) :
    isExpired shared startedAt = true ∧ shared.session = some session := by
  unfold claimScript at h
  split at h
  · rename_i hep
    cases hs : shared.session with
    | none => exact absurd h (by simp [hs])
    | some current =>
      simp only [hs, Option.some.injEq] at h
      exact ⟨hep, congrArg some h⟩
  · cases h

theorem of_isExpired (hin : Inv setup state)
    (h : isExpired state.shared startedAt = true) {session : UploadSession}
    (hs : state.shared.session = some session) :
    session.expiresAt < startedAt - UPLOAD_SESSION_RECLAIM_GRACE := by
  obtain ⟨score, hsc, hle⟩ := hin.shared.score session hs
  unfold isExpired at h
  rw [hsc] at h
  simp only [Option.any_some, decide_eq_true_eq] at h
  exact lt_of_timestampMillis_lt (lt_of_le_of_lt hle h)

theorem settled_of_expired (hin : Inv setup state)
    (hst : startedAt ≤ state.shared.now) (h : isExpired state.shared startedAt = true)
    (hs : state.shared.session.isSome) (hl : LeasesKept state) : Settled state := by
  have hdu := durations setup
  obtain ⟨session, hs⟩ := Option.isSome_iff_exists.mp hs
  have hep := of_isExpired hin h hs
  refine ⟨fun current hm _ => ?_, fun other => ?_⟩
  · rw [hs] at hm
    cases hm
    omega
  · cases ho : state.phases other with
    | working claim task renewal =>
      have hla := (hin.own ho).holding.lasts session hs
      have hk := hl other claim task renewal ho
      omega
    | _ => rfl

theorem keeps_claimingExpired (hin : Inv setup state)
    (hp : state.phases id = .claimingExpired startedAt)
    (hn : (match outcome, (claimScript state.shared startedAt).2 with
      | .answered, some session => .rereading startedAt session
      | _, _ => .answered .done) = phase)
    (hok : TripInOrder setup state id outcome (.claimingExpired startedAt)) :
    Inv setup
      ⟨if outcome.takesEffect then (claimScript state.shared startedAt).1 else state.shared,
        Function.update state.phases id phase⟩ := by
  have hdu := durations setup
  have hst : startedAt ≤ state.shared.now := hin.own hp
  have hil : phase.isWorking = false := by
    subst hn
    split <;> rfl
  have ho : ∀ next : State, next.shared.now = state.shared.now →
      (Settled state → Settled next) → PhaseOk setup next id phase := by
    intro next hno hse
    subst hn
    split
    · rename_i session hc
      obtain ⟨hep, hs⟩ := of_claimScript hc
      refine ⟨hse (settled_of_expired hin hst hep (by simp [hs]) (hok rfl hep)), ?_⟩
      rw [hno]
      exact hin.shared.record session hs
    · trivial
  split
  · rcases claimScript_eq state.shared startedAt with ⟨⟨score, hsc, hso⟩, hep⟩ | hsa
    · rw [hsc]
      refine hin.quiet rfl ⟨le_refl _, rfl, rfl, rfl, Or.inl rfl⟩ (Or.inl rfl) rfl
        (fun session hm => ?_) (fun h => absurd h (by simp [hil])) (ho _ rfl)
      refine ⟨_, hso (Option.isSome_iff_exists.mpr ⟨session, hm⟩), timestampMillis_mono ?_⟩
      have := of_isExpired hin hep hm
      simp only [UPLOAD_SESSION_RECLAIM_LEASE, UPLOAD_SESSION_RECLAIM_GRACE, seconds] at *
      omega
    · rw [hsa]
      exact hin.stays (fun h => absurd h (by simp [hil])) (ho _ rfl)
  · exact hin.stays (fun h => absurd h (by simp [hil])) (ho _ rfl)

theorem keeps_rereading (hin : Inv setup state) {claimed : UploadSession}
    (hp : state.phases id = .rereading startedAt claimed) :
    Inv setup ⟨state.shared, Function.update state.phases id
      (if outcome = .answered then reread setup state.shared startedAt claimed
        else .answered .done)⟩ := by
  obtain ⟨hs, hr⟩ := hin.own hp
  split
  · unfold reread
    split
    · exact hin.stays (by simp [Phase.isWorking]) fun _ => trivial
    · refine hin.stays (fun h => absurd h (by simp [releaseUploadResources_idle])) fun hk =>
        phaseOk_releaseUploadResources (fun _ => hk hs) ?_
      cases hse : state.shared.session with
      | none => exact hr
      | some session => exact hin.shared.record session hse
  · exact hin.stays (by simp [Phase.isWorking]) fun _ => trivial

theorem keeps_releasingResources (hin : Inv setup state) {releaser : Releaser}
    {session : UploadSession} {stage : ReleaseStage}
    (hp : state.phases id = .releasingResources releaser session stage)
    (hok : TripInOrder setup state id outcome (.releasingResources releaser session stage)) :
    Inv setup ⟨(releaseStep state.shared releaser session outcome stage).1,
      Function.update state.phases id
        (releaseStep state.shared releaser session outcome stage).2⟩ := by
  obtain ⟨hre, hrc⟩ := hin.own hp
  have hr : ∀ freed next, next.shared.now = state.shared.now →
      PhaseOk setup next id (released releaser session freed) := by
    intro freed next hno
    apply phaseOk_released
    rw [hno]
    exact hrc
  cases stage with
  | abortingMultipart =>
    simp only [releaseStep]
    generalize hnx : (if outcome = .answered then verify releaser session
      else released releaser session false) = phase
    have hil : phase.isWorking = false := by
      subst hnx
      split
      · exact verify_idle
      · exact released_idle
    have ho : ∀ next : State, next.shared.now = state.shared.now →
        (Settled state → Settled next) → PhaseOk setup next id phase := by
      intro next hno hs
      subst hnx
      split
      · exact phaseOk_verify (fun h => hs (hre h).1) (hno ▸ hrc)
      · exact hr _ _ hno
    unfold Shared.when
    split
    · exact hin.quiet rfl ⟨le_refl _, rfl, rfl, rfl, Or.inl rfl⟩ (Or.inl rfl) rfl
        hin.shared.score (fun h => absurd h (by simp [hil])) (ho _ rfl)
    · exact hin.stays (fun h => absurd h (by simp [hil])) (ho _ rfl)
  | verifying =>
    simp only [releaseStep]
    split
    · exact hin.stays (fun h => absurd h (by simp [released_idle])) fun _ => hr _ _ rfl
    split
    · exact hin.stays (fun h => absurd h (by simp [released_idle])) fun _ => hr _ _ rfl
    · rename_i hn
      refine hin.stays (by simp [Phase.isWorking]) fun hk =>
        ⟨fun h => ⟨hk (hre h).1, fun _ => ?_⟩, hrc⟩
      simpa using hn
  | deleting =>
    simp only [releaseStep]
    refine hin.deletesObject (fun hef => ?_) (fun h => absurd h (by simp [released_idle]))
      (hr _ _ ?_)
    · cases releaser with
      | abort => exact Or.inl (hok hef)
      | reclaim => exact Or.inr ⟨(hre rfl).1, (hre rfl).2 rfl⟩
    · simp only [Shared.when]
      split <;> rfl

theorem keeps_upserting (hin : Inv setup state) {session : UploadSession}
    (hp : state.phases id = .upserting session) :
    Inv setup ⟨state.shared.when outcome fun shared =>
        shared.write id (prepared shared.now { session with status := .aborted }),
      Function.update state.phases id .deletingSession⟩ := by
  have hr : RecordOk setup session state.shared.now := hin.own hp
  unfold Shared.when
  split
  · exact hin.rewrites (rewrite_upsert hr) (by simp [Phase.isWorking]) trivial
  · exact hin.stays (by simp [Phase.isWorking]) fun _ => trivial

end Ends

section System

variable {setup : Setup} {state next : State} {id : Nat}

theorem inv_call (hin : Inv setup state) {move : Move} {after : Shared}
    (hok : InOrder setup state (.call id move))
    (hs : callStep setup id state.shared (state.phases id) move = some (after, phase)) :
    Inv setup ⟨after, Function.update state.phases id phase⟩ := by
  have hre := hin.shared.record
  generalize hp : state.phases id = current at hs
  have ht : ∀ outcome, move = .trip outcome → TripInOrder setup state id outcome current := by
    intro outcome hm
    subst hm
    exact hp ▸ hok
  unfold callStep at hs
  split at hs
  · cases hs
    exact keeps_begin hin hp
  · obtain ⟨⟨middle, progress⟩, hu, hr⟩ := Option.map_eq_some_iff.mp hs
    cases hr
    refine keeps_committing hin hp (fun result => ?_) (fun next result hn => ?_)
      (fun next current changed result hr => ?_) (updateStep_cases hre (hin.own hp).2 hu)
    · cases result <;> rfl
    · cases result with
      | refused code =>
        cases code with
        | invalidParameter => exact Or.inl hn
        | _ => trivial
      | _ => trivial
    · rcases hr with rfl | rfl <;> trivial
  · cases hs
    exact keeps_checking hin hp
  · cases hs
    exact keeps_stating hin hp
  · cases hs
    exact hin.stays (by simp [Phase.isWorking, refused]) fun _ => trivial
  · cases hs
    exact keeps_refusing hin hp (ht _ rfl)
  · rename_i update outcome
    obtain ⟨⟨middle, progress⟩, hu, hr⟩ := Option.map_eq_some_iff.mp hs
    cases hr
    exact keeps_claiming hin hp (ht outcome rfl) (updateStep_cases hre (hin.own hp).2.1 hu)
  · cases hs
    exact keeps_rechecking hin hp
  · rename_i claim task renewal outcome
    unfold renewStep at hs
    split at hs
    · rename_i update
      obtain ⟨⟨middle, progress⟩, hu, hr⟩ := Option.map_eq_some_iff.mp hs
      cases hr
      exact keeps_renewing hin hp (updateStep_cases hre (hin.own hp).renewal.1 hu)
    · cases hs
  · exact keeps_working hin hp ht hs
  · obtain ⟨⟨middle, progress⟩, hu, hr⟩ := Option.map_eq_some_iff.mp hs
    cases hr
    exact keeps_finishing hin hp (updateStep_cases hre (hin.own hp).2 hu)
  · cases hs
    exact keeps_ending hin hp
  · rename_i claim code update outcome
    obtain ⟨⟨middle, progress⟩, hu, hr⟩ := Option.map_eq_some_iff.mp hs
    cases hr
    exact keeps_releasing hin hp (ht outcome rfl) (updateStep_cases hre (hin.own hp).writes hu)
  · rename_i startedAt outcome
    cases hs
    exact keeps_claimingExpired hin hp rfl (ht outcome rfl)
  · cases hs
    exact keeps_rereading hin hp
  · rename_i releaser session stage outcome
    have hk := keeps_releasingResources hin hp (ht outcome rfl)
    rw [Option.some.injEq] at hs
    rwa [hs] at hk
  · cases hs
    exact keeps_upserting hin hp
  · cases hs
    exact hin.deletesSession (by simp [Phase.isWorking]) trivial
  · cases hs

theorem inv_elsewhere (hin : Inv setup state) {after : Shared}
    (hsa : SameFile setup state ⟨after, state.phases⟩)
    (hs : after.session = state.shared.session ∨ after.session = none)
    (hw : after.writes = state.shared.writes) (hsc : after.score = state.shared.score) :
    Inv setup ⟨after, state.phases⟩ := by
  have hf : Follows setup (fun _ => True) state ⟨after, state.phases⟩ :=
    .of_sameFile hsa (fun _ h => Or.inl h) (fun h => dead_kept h.dead hsa.now_le hs)
      ⟨[], extends_same hw hs, by simp⟩ (fun _ _ _ _ _ _ h => holding_kept h hsa.now_le hs)
  refine ⟨sharedOk_sameFile hin.shared hsa (fun session hm => ?_) (fun session hm => ?_),
    hin.one, fun id => phaseOk_follows hf trivial (hin.phases id)⟩
  · rcases hs with hk | hn
    · exact (hin.shared.record session (hk ▸ hm)).mono hsa.now_le
    · exact absurd hm (by simp [hn])
  · rcases hs with hk | hn
    · change ∃ score, after.score = some score ∧ timestampMillis session.expiresAt ≤ score
      rw [hsc]
      exact hin.shared.score session (hk ▸ hm)
    · exact absurd hm (by simp [hn])

theorem inv_putDeclared (hin : Inv setup state) :
    Inv setup ⟨{ state.shared with object := some setup.totalSize }, state.phases⟩ := by
  have hs := hin.shared
  refine ⟨⟨hs.record, hs.score, fun file hfi => ⟨(hs.file file hfi).1, rfl⟩,
    hs.unregistered, hs.once⟩, hin.one, fun id => ?_⟩
  have hf : Follows setup (fun _ => True) state
      ⟨{ state.shared with object := some setup.totalSize }, state.phases⟩ :=
    { now_le := le_refl _
      file := fun _ h => h
      settled := fun h => ⟨h.dead, h.idle⟩
      unregistered := fun _ h => h
      claiming := fun _ _ _ _ _ => Or.inl rfl
      history := ⟨[], extends_same rfl (Or.inl rfl), by simp⟩
      working := fun other _ claim task renewal _ h ht => by
        refine ⟨holding_kept h (le_refl _) (Or.inl rfl), ?_⟩
        cases task with
        | saving => exact ⟨ht.1, rfl⟩
        | _ => exact ht }
  exact phaseOk_follows hf trivial (hin.phases id)

theorem inv_step (hin : Inv setup state) {action : Action} (hok : InOrder setup state action)
    (hs : step setup state action = some next) : Inv setup next := by
  cases action with
  | tick elapsed =>
    cases hs
    exact inv_elsewhere hin ⟨by simp, rfl, rfl, rfl, Or.inl rfl⟩ (Or.inl rfl) rfl rfl
  | put size =>
    simp only [step] at hs
    split at hs
    · cases hs
      by_cases hf : Unused setup state
      · exact inv_elsewhere hin ⟨le_refl _, rfl, rfl, rfl, Or.inr (Or.inl hf)⟩ (Or.inl rfl) rfl rfl
      · rcases hok with rfl | hu
        · exact inv_putDeclared hin
        · exact absurd hu hf
    · cases hs
  | expire =>
    cases hs
    exact inv_elsewhere hin ⟨le_refl _, rfl, rfl, rfl, Or.inl rfl⟩ (Or.inr rfl) rfl rfl
  | call id move =>
    obtain ⟨⟨after, phase⟩, hc, hn⟩ := Option.map_eq_some_iff.mp hs
    cases hn
    exact inv_call hin hok hc

theorem inv_initial : Inv setup (initial setup) where
  shared :=
    { record := fun session hm => by
        cases hm
        exact ⟨fun {claim} hc => absurd hc (by simp [createdSession]), fun _ => le_refl _⟩
      score := fun session hm => by
        cases hm
        exact ⟨_, rfl, le_refl _⟩
      file := fun file hf => absurd hf (by simp [initial])
      unregistered := fun _ => ⟨rfl, rfl⟩
      once := by simp [initial] }
  one a b ha := absurd ha (by simp [initial, Phase.isWorking])
  phases id := by
    intro write hw
    exact absurd hw (by simp [initial])

theorem kept_of_inv (hin : Inv setup state) : Kept setup state where
  answers id file ha := by
    obtain ⟨hm, hf⟩ := hin.own ha
    subst hm
    exact ⟨rfl, hf, rfl, (hin.shared.file _ hf).2⟩
  once := hin.shared.once
  expiry id ha := hin.own ha

end System

section Claims

-- The runs in which an object is deleted or replaced only while nothing depends on it, a session
-- is taken over only from completions that let their lease lapse and before the file is
-- registered, and the expiry is handed back.
theorem completes_safely_inOrder (setup : Setup) : CompletesSafely setup (InOrder setup) := by
  intro actions state hrun
  refine kept_of_inv (hrun.preserves (Inv setup) (fun _ _ _ hinv hok hstep => ?_) inv_initial)
  exact inv_step hinv hok hstep

-- An upload of one put, completed by call 0 and aborted by call 1.
def abortedSetup : Setup where
  transportKind := .singlePut
  tenantId := "tenant"
  userId := "user"
  fileId := "file"
  bucket := "media"
  objectKey := "uploads/file"
  totalSize := 4
  totalParts := 0
  createdAt := 0
  chunkTtlSeconds := 3600
  messageManaged := false
  call id := if id = 0 then .completeDirectUpload ⟨"tenant", "user"⟩
    else .abortDirectUpload ⟨"tenant", "user"⟩

-- The abort finds no file, then the completion registers it and answers, then the abort deletes
-- the object.
def abortedActions : List Action :=
  [.put 4,
    .call 1 (.trip .answered), .call 1 (.trip .answered),
    .call 0 (.trip .answered), .call 0 (.trip .answered), .call 0 (.stat true),
    .call 0 (.trip .answered), .call 0 (.trip .answered), .call 0 (.trip .answered),
    .call 0 (.trip .answered), .call 0 (.trip .answered), .call 0 (.trip .answered),
    .call 1 (.trip .answered)]

theorem abortedActions_isSome :
    (execute (step abortedSetup) anyStep (initial abortedSetup) abortedActions).isSome := by
  decide +kernel

theorem abort_deletes_completed : ¬CompletesSafely abortedSetup anyStep := by
  intro h
  have hkept := h abortedActions _ (run_of_isSome abortedActions_isSome)
  have hobject := (hkept.answers 0 abortedSetup.mediaFile (by decide +kernel)).2.2.2
  exact absurd hobject (by decide +kernel)

end Claims

end FlareIm.DirectUpload
