import FlareIm.DirectUpload.Invariant

namespace FlareIm.DirectUpload

open RoundTrip Transition

section Invariant

variable (setup : Setup)

structure SharedOk (shared : Shared) : Prop where
  record : ∀ session, shared.session = some session → RecordOk setup session shared.now
  score : ∀ session, shared.session = some session →
    ∃ score, shared.score = some score ∧ timestampMillis session.expiresAt ≤ score
  file : ∀ file, shared.file = some file →
    file = setup.mediaFile ∧ shared.object = some setup.totalSize
  unregistered : shared.file = none → shared.registrations = 0 ∧ shared.stored = []
  once : shared.registrations ≤ 1 ∧ shared.stored.length ≤ 1

def Phase.isWorking : Phase → Bool
  | .working _ _ _ => true
  | _ => false

-- Nobody can claim the session any more, or commit parts to it.
def Dead (shared : Shared) : Prop :=
  ∀ session, shared.session = some session → session.status = .pending →
    session.expiresAt + UPLOAD_SESSION_RECLAIM_GRACE < shared.now

structure Settled (state : State) : Prop where
  dead : Dead state.shared
  idle : ∀ id, (state.phases id).isWorking = false

-- The record as a completion has last written it.
structure OwnRecord (id : Nat) (claim : DirectCompletionClaim) (session : UploadSession) : Prop where
  pending : session.status = .pending
  held : session.heldBy id = true
  expires : claim.unanswered = false → session.expiresAt = claim.renewedUntil

structure Holding (shared : Shared) (id : Nat) (claim : DirectCompletionClaim) : Prop where
  lease : claim.leaseUntil ≤ shared.now + DIRECT_COMPLETION_LEASE
  held : ∀ session, shared.session = some session → session.status = .pending →
    session.completion = some ⟨id, claim.leaseUntil⟩
  lasts : ∀ session, shared.session = some session → claim.leaseUntil ≤ session.expiresAt

def TaskOk (shared : Shared) : Task → Prop
  | .saving => shared.file = none ∧ shared.object = some setup.totalSize
  | .referencing | .resaving => shared.file ≠ none
  | .marking _ update => (shared.file = none ∧ setup.transportKind = .multipartPut) ∧
      UpdateOk setup (endUpdate .aborted) shared.now update
  | _ => shared.file = none ∧ setup.transportKind = .multipartPut

-- A renewal never shortens the session below what it lasted before the completion.
def RenewalOk (shared : Shared) (id : Nat) (before : Int) : Renewal → Prop
  | .running update =>
    UpdateOk setup (renewUpdate setup id) shared.now update ∧
      ∀ attempt current next readAt, update = .writing attempt current next readAt →
        before ≤ readAt + directSessionTtl setup
  | .stopped => True

-- Unless another call wrote the record, it is as the release needs it to give the expiry back.
def ReleaseKept (shared : Shared) (id : Nat) (claim : DirectCompletionClaim) : UpdatePhase → Prop
  | .reading _ => Since shared id claim.expiresBefore (OwnRecord id claim)
  | .writing _ current _ _ =>
    Since shared id claim.expiresBefore fun session => session = current ∧
      OwnRecord id claim current

def Registered (shared : Shared) (file : MediaFile) : Prop :=
  file = setup.mediaFile ∧ shared.file = some setup.mediaFile

def AnswerOk (shared : Shared) (id : Nat) : Answer → Prop
  | .completed file => Registered setup shared file
  | .refused .invalidParameter => ExpiryKept shared id
  | _ => True

structure WorkOk (shared : Shared) (id : Nat) (claim : DirectCompletionClaim) (task : Task)
    (renewal : Renewal) : Prop where
  holding : Holding shared id claim
  task : TaskOk setup shared task
  renewal : RenewalOk setup shared id claim.expiresBefore renewal
  before_le : claim.expiresBefore ≤ claim.renewedUntil
  before_ttl : claim.expiresBefore ≤ shared.now + directSessionTtl setup
  since : Since shared id claim.expiresBefore (OwnRecord id claim)

structure ReleaseOk (shared : Shared) (id : Nat) (claim : DirectCompletionClaim)
    (code : ErrorCode) (update : UpdatePhase) : Prop where
  writes : UpdateOk setup (releaseUpdate id (code == .invalidParameter) claim.expiresBefore
    claim.renewedUntil) shared.now update
  before_le : claim.expiresBefore ≤ claim.renewedUntil
  kept : code = .invalidParameter → ReleaseKept shared id claim update

def PhaseOk (state : State) (id : Nat) : Phase → Prop
  | .waiting | .checking _ | .stating | .refusing | .rechecking _ => NeverWrote state.shared id
  | .committing parts update =>
    NeverWrote state.shared id ∧ UpdateOk setup (commitUpdate setup parts) state.shared.now update
  | .claiming update =>
    NeverWrote state.shared id ∧ UpdateOk setup (claimUpdate setup id) state.shared.now update ∧
      (setup.transportKind = .singlePut →
        state.shared.object = some setup.totalSize ∨ Settled state)
  | .working claim task renewal => WorkOk setup state.shared id claim task renewal
  | .finishing file update =>
    Registered setup state.shared file ∧
      UpdateOk setup (endUpdate .completed) state.shared.now update
  | .ending file => Registered setup state.shared file
  | .releasingCompletion claim code update => ReleaseOk setup state.shared id claim code update
  | .claimingExpired startedAt => startedAt ≤ state.shared.now
  | .rereading _ claimed => Settled state ∧ RecordOk setup claimed state.shared.now
  | .releasingResources releaser session stage =>
    (releaser = .reclaim → Settled state ∧
      (stage = .deleting → state.shared.file = none)) ∧ RecordOk setup session state.shared.now
  | .upserting session => RecordOk setup session state.shared.now
  | .deletingSession => True
  | .answered answer => AnswerOk setup state.shared id answer

structure Inv (state : State) : Prop where
  shared : SharedOk setup state.shared
  one : ∀ a b, (state.phases a).isWorking = true → (state.phases b).isWorking = true → a = b
  phases : ∀ id, PhaseOk setup state id (state.phases id)

end Invariant

section Histories

variable {shared next : Shared} {id : Nat} {before : Int} {holds : UploadSession → Prop}
  {new : List Write}

-- What the writes of other calls, and the loss of the record, leave of what a call knows.
structure Extends (shared next : Shared) (new : List Write) : Prop where
  writes_eq : next.writes = new ++ shared.writes
  session : next.session = shared.session ∨ next.session = none ∨ new ≠ []

theorem neverWrote_extends (h : NeverWrote shared id) (het : Extends shared next new)
    (hn : ∀ write ∈ new, write.writer ≠ id) : NeverWrote next id := by
  intro write hm
  rw [het.writes_eq] at hm
  rcases List.mem_append.mp hm with hl | hea
  · exact hn write hl
  · exact h write hea

theorem since_extends (h : Since shared id before holds) (het : Extends shared next new)
    (hnw : ∀ write ∈ new, write.writer ≠ id) : Since next id before holds := by
  obtain ⟨later, ⟨earlier, hw, hea⟩, hr⟩ := h
  refine ⟨new ++ later, ⟨earlier, ?_, hea⟩, ?_⟩
  · rw [het.writes_eq, hw, List.append_assoc]
  · rcases hr with ⟨write, hm, ho⟩ | hs
    · exact Or.inl ⟨write, List.mem_append_right _ hm, ho⟩
    · rcases het.session with hsa | hn | hso
      · right
        rw [hsa]
        exact hs
      · right
        intro session hm
        rw [hn] at hm
        cases hm
      · obtain ⟨write, hm⟩ := List.exists_mem_of_ne_nil new hso
        exact Or.inl ⟨write, List.mem_append_left _ hm, hnw write hm⟩

theorem expiryKept_extends (h : ExpiryKept shared id) (het : Extends shared next new)
    (hn : ∀ write ∈ new, write.writer ≠ id) : ExpiryKept next id := by
  rcases h with hnv | ⟨before, hs⟩
  · exact Or.inl (neverWrote_extends hnv het hn)
  · exact Or.inr ⟨before, since_extends hs het hn⟩

theorem Since.imp {holds' : UploadSession → Prop} (h : Since shared id before holds)
    (him : ∀ session, shared.session = some session → holds session → holds' session) :
    Since shared id before holds' := by
  obtain ⟨later, hf, hr⟩ := h
  refine ⟨later, hf, ?_⟩
  rcases hr with ho | hs
  · exact Or.inl ho
  · exact Or.inr fun session hm => him session hm (hs session hm)

theorem since_own_write (h : Since shared id before holds) {session : UploadSession}
    {holds' : UploadSession → Prop} (hh : (∀ current, shared.session = some current →
      holds current) → holds' session) :
    Since (shared.write id session) id before holds' := by
  obtain ⟨later, ⟨earlier, hw, hea⟩, hr⟩ := h
  refine ⟨⟨id, shared.session.map (·.expiresAt)⟩ :: later, ⟨earlier, ?_, hea⟩, ?_⟩
  · simp [Shared.write, hw]
  · rcases hr with ⟨write, hm, ho⟩ | hs
    · exact Or.inl ⟨write, List.mem_cons_of_mem _ hm, ho⟩
    · right
      intro current hc
      cases hc
      exact hh hs

theorem since_first_write (h : NeverWrote shared id) {current session : UploadSession}
    (hc : shared.session = some current) (hh : holds session) :
    Since (shared.write id session) id current.expiresAt holds := by
  refine ⟨[], ⟨shared.writes, ?_, h⟩, Or.inr fun other ho => ?_⟩
  · simp [Shared.write, hc]
  · cases ho
    exact hh

end Histories

section Follows

variable {setup : Setup} {state next : State} {others : Nat → Prop}

-- What a step leaves to the calls that did not take it.
structure Follows (setup : Setup) (others : Nat → Prop) (state next : State) : Prop where
  now_le : state.shared.now ≤ next.shared.now
  file : ∀ file, state.shared.file = some file → next.shared.file = some file
  settled : Settled state → Settled next
  unregistered : Settled state → state.shared.file = none → next.shared.file = none
  claiming : setup.transportKind = .singlePut → ∀ other, others other →
    (∃ update, state.phases other = .claiming update) →
      state.shared.object = some setup.totalSize ∨ Settled state →
        next.shared.object = some setup.totalSize ∨ Settled next
  history : ∃ new, Extends state.shared next.shared new ∧
    ∀ other, others other → ∀ write ∈ new, write.writer ≠ other
  working : ∀ other, others other → ∀ claim task renewal,
    state.phases other = .working claim task renewal →
      Holding state.shared other claim → TaskOk setup state.shared task →
        Holding next.shared other claim ∧ TaskOk setup next.shared task

theorem phaseOk_follows (hf : Follows setup others state next) {other : Nat}
    (ho : others other) (h : PhaseOk setup state other (state.phases other)) :
    PhaseOk setup next other (state.phases other) := by
  obtain ⟨new, het, hw⟩ := hf.history
  have hnw := hw other ho
  have hr : ∀ file, Registered setup state.shared file →
      Registered setup next.shared file := fun file hfi => ⟨hfi.1, hf.file _ hfi.2⟩
  cases hp : state.phases other with
  | waiting | checking session | stating | refusing | rechecking code =>
    rw [hp] at h
    exact neverWrote_extends h het hnw
  | committing parts update =>
    rw [hp] at h
    exact ⟨neverWrote_extends h.1 het hnw, h.2.mono hf.now_le⟩
  | claiming update =>
    rw [hp] at h
    exact ⟨neverWrote_extends h.1 het hnw, h.2.1.mono hf.now_le,
      fun hpu => hf.claiming hpu other ho ⟨update, hp⟩ (h.2.2 hpu)⟩
  | working claim task renewal =>
    rw [hp] at h
    obtain ⟨hh, ht⟩ := hf.working other ho claim task renewal hp h.holding h.task
    refine ⟨hh, ht, ?_, h.before_le, ?_, since_extends h.since het hnw⟩
    · cases renewal with
      | running update => exact ⟨UpdateOk.mono h.renewal.1 hf.now_le, h.renewal.2⟩
      | stopped => trivial
    · have hno := hf.now_le
      have hb := h.before_ttl
      omega
  | finishing file update =>
    rw [hp] at h
    exact ⟨hr file h.1, h.2.mono hf.now_le⟩
  | ending file =>
    rw [hp] at h
    exact hr file h
  | releasingCompletion claim code update =>
    rw [hp] at h
    refine ⟨h.writes.mono hf.now_le, h.before_le, fun hc => ?_⟩
    have hk := h.kept hc
    cases update with
    | reading attempt | writing attempt current next readAt => exact since_extends hk het hnw
  | claimingExpired startedAt =>
    rw [hp] at h
    exact h.trans hf.now_le
  | rereading startedAt claimed =>
    rw [hp] at h
    exact ⟨hf.settled h.1, h.2.mono hf.now_le⟩
  | releasingResources releaser session stage =>
    rw [hp] at h
    refine ⟨fun hre => ?_, h.2.mono hf.now_le⟩
    obtain ⟨hs, hn⟩ := h.1 hre
    exact ⟨hf.settled hs, fun hst =>
      hf.unregistered hs (hn hst)⟩
  | upserting session =>
    rw [hp] at h
    exact RecordOk.mono h hf.now_le
  | deletingSession => trivial
  | answered answer =>
    rw [hp] at h
    cases answer with
    | completed file => exact hr file h
    | done => trivial
    | refused code =>
      cases code with
      | invalidParameter => exact expiryKept_extends h het hnw
      | _ => trivial

-- A call's step keeps the invariant when it keeps its own part of it.
theorem Inv.act (hin : Inv setup state) {id : Nat} {phase : Phase}
    (hph : next.phases = Function.update state.phases id phase) (hsh : SharedOk setup next.shared)
    (hfo : Follows setup (· ≠ id) state next)
    (hw : phase.isWorking = true → (state.phases id).isWorking = true ∨
      ∀ other, (state.phases other).isWorking = false)
    (hp : PhaseOk setup next id phase) : Inv setup next where
  shared := hsh
  one a b ha hb := by
    rw [hph] at ha hb
    by_cases hf : a = id
    · by_cases hs : b = id
      · rw [hf, hs]
      · rw [hf, Function.update_self] at ha
        rw [Function.update_of_ne hs] at hb
        rcases hw ha with ho | hn
        · exact absurd (hin.one b id hb ho) hs
        · exact absurd hb (by rw [hn b]; simp)
    · rw [Function.update_of_ne hf] at ha
      by_cases hs : b = id
      · rw [hs, Function.update_self] at hb
        rcases hw hb with ho | hn
        · exact absurd (hin.one a id ha ho) hf
        · exact absurd ha (by rw [hn a]; simp)
      · rw [Function.update_of_ne hs] at hb
        exact hin.one a b ha hb
  phases other := by
    rw [hph]
    by_cases heq : other = id
    · rw [heq, Function.update_self]
      exact hp
    · rw [Function.update_of_ne heq]
      exact phaseOk_follows hfo heq (hin.phases other)

end Follows

end FlareIm.DirectUpload
