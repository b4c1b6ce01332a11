import FlareIm.DirectUpload
import Mathlib.Algebra.Order.Group.Int

namespace FlareIm.DirectUpload

open RoundTrip Transition

variable {session : UploadSession} {now' : Int} {update : SessionUpdate}

section Contract

variable (setup : Setup)

-- The call was the first time to write the record when its expiry was `before`. `later` has been
-- written since.
def FirstWrite (writes : List Write) (id : Nat) (before : Int) (later : List Write) : Prop :=
  ∃ earlier, writes = later ++ ⟨id, some before⟩ :: earlier ∧ ∀ write ∈ earlier, write.writer ≠ id

-- Since the call first wrote the record, another call has written it, or it is gone, or `holds`
-- of it.
def Since (shared : Shared) (id : Nat) (before : Int) (holds : UploadSession → Prop) : Prop :=
  ∃ later, FirstWrite shared.writes id before later ∧
    ((∃ write ∈ later, write.writer ≠ id) ∨
      ∀ session, shared.session = some session → holds session)

def NeverWrote (shared : Shared) (id : Nat) : Prop :=
  ∀ write ∈ shared.writes, write.writer ≠ id

-- The expiry of the session is what it was before the call, unless another call has renewed it.
def ExpiryKept (shared : Shared) (id : Nat) : Prop :=
  NeverWrote shared id ∨
    ∃ before, Since shared id before fun session => session.expiresAt = before

structure Kept (state : State) : Prop where
  answers (id : Nat) (file : MediaFile)
    (hanswered : state.phases id = .answered (.completed file)) :
    file.fileId = setup.fileId ∧ state.shared.file = some file ∧
      file.storagePath = setup.objectKey ∧ state.shared.object = some setup.totalSize
  once : state.shared.registrations ≤ 1 ∧ state.shared.stored.length ≤ 1
  expiry (id : Nat) (hanswered : state.phases id = .answered (.refused .invalidParameter)) :
    ExpiryKept state.shared id

-- In every state a run reaches, the object of a completed upload is there, it was registered and
-- counted once, and a completion that failed with a caller error has not kept the session alive.
def CompletesSafely (ok : State → Action → Prop) : Prop :=
  ∀ actions state, Run (step setup) ok (initial setup) actions state → Kept setup state

-- A completion that has found the object and goes by it.
def Phase.reliesOnObject : Phase → Bool
  | .claiming _ => setup.transportKind == .singlePut
  | .working _ .saving _ => true
  | _ => false

-- No file and no completion depends on the object.
def Unused (state : State) : Prop :=
  state.shared.file = none ∧ ∀ id, (state.phases id).reliesOnObject setup = false

-- Every completion at work has kept its lease.
def LeasesKept (state : State) : Prop :=
  ∀ id claim task renewal, state.phases id = .working claim task renewal →
    state.shared.now < claim.leaseUntil

-- The condition on a round trip of a call in a phase.
def TripInOrder (state : State) (id : Nat) (outcome : Outcome) : Phase → Prop
  -- `delete_object` reaches only an object that nothing depends on
  | .refusing => outcome.takesEffect = true → Unused setup state
  | .releasingResources .abort _ .deleting => outcome.takesEffect = true → Unused setup state
  -- a session is taken over only from completions that let their lease lapse after they ended
  | .claiming (.writing _ current _ _) =>
    outcome.takesEffect = true → state.shared.session = some current →
      state.shared.file = none ∧ LeasesKept state
  | .claimingExpired startedAt =>
    outcome.takesEffect = true → isExpired state.shared startedAt = true → LeasesKept state
  -- a session whose object could not be deleted is not marked
  | .working _ (.marking _ (.writing _ current _ _)) _ =>
    outcome.takesEffect = true → state.shared.session ≠ some current
  -- the expiry is handed back, and the expiry the completion knows is the one it last wrote
  | .releasingCompletion _ .invalidParameter (.reading _) =>
    (∃ session, state.shared.session = some session ∧ session.heldBy id = true) →
      outcome = .answered
  | .releasingCompletion claim .invalidParameter (.writing _ current _ _) =>
    state.shared.session = some current →
      outcome.takesEffect = true ∧ claim.unanswered = false
  | _ => True

def InOrder (state : State) : Action → Prop
  | .put size => size = setup.totalSize ∨ Unused setup state
  | .call id (.trip outcome) => TripInOrder setup state id outcome (state.phases id)
  | _ => True

end Contract

section Durations

variable (setup : Setup)

theorem durations : 0 ≤ UPLOAD_SESSION_RECLAIM_GRACE ∧ 0 < DIRECT_COMPLETION_LEASE ∧
    DIRECT_COMPLETION_LEASE ≤ directSessionTtl setup ∧
    UPLOAD_SESSION_RECLAIM_GRACE + DIRECT_COMPLETION_LEASE ≤ ENDED_SESSION_TTL := by
  have ht : 300 ≤ max setup.chunkTtlSeconds 300 := le_max_right _ _
  simp only [UPLOAD_SESSION_RECLAIM_GRACE, DIRECT_COMPLETION_LEASE, directSessionTtl,
    ENDED_SESSION_TTL, seconds]
  omega

theorem lt_of_timestampMillis_lt {first second : Int}
    (h : timestampMillis first < timestampMillis second) : first < second := by
  unfold timestampMillis at h
  omega

theorem timestampMillis_mono {first second : Int} (h : first ≤ second) :
    timestampMillis first ≤ timestampMillis second := by
  unfold timestampMillis
  omega

end Durations

section Records

variable (setup : Setup)

-- A record that was in the store at the time.
structure RecordOk (session : UploadSession) (now : Int) : Prop where
  lease {claim : CompletionClaim} (hclaim : session.completion = some claim) :
    claim.leaseUntil ≤ now + DIRECT_COMPLETION_LEASE
  ttl (hpending : session.status = .pending) : session.expiresAt ≤ now + directSessionTtl setup

-- What an update makes of a record it has read.
structure Read (update : SessionUpdate) (now : Int) (current next : UploadSession)
    (readAt : Int) : Prop where
  time : readAt ≤ now
  record : RecordOk setup current readAt
  result : ∃ changed, update readAt current = .ok (some changed) ∧ next = prepared readAt changed

def UpdateOk (update : SessionUpdate) (now : Int) : UpdatePhase → Prop
  | .reading _ => True
  | .writing _ current next readAt => Read setup update now current next readAt

-- What a write of a call makes of the record.
inductive Rewrite (id : Nat) (now : Int) : Option UploadSession → UploadSession → Prop where
  | ended {current : Option UploadSession} {next : UploadSession}
      (hstatus : next.status ≠ .pending) (hrecord : RecordOk setup next now)
      (hexpires : now + DIRECT_COMPLETION_LEASE ≤ next.expiresAt) :
      Rewrite id now current next
  | committed {current next : UploadSession} {readAt : Int}
      (htime : readAt ≤ now ∧ now ≤ readAt + UPLOAD_SESSION_RECLAIM_GRACE)
      (hrecord : RecordOk setup current readAt) (hlive : readAt ≤ current.expiresAt)
      (hstatus : current.status = .pending ∧ next.status = .pending)
      (hcompletion : next.completion = current.completion)
      (hexpires : next.expiresAt = readAt + directSessionTtl setup) :
      Rewrite id now (some current) next
  | released {current next : UploadSession} {readAt : Int}
      (htime : readAt ≤ now ∧ now ≤ readAt + UPLOAD_SESSION_RECLAIM_GRACE)
      (hrecord : RecordOk setup current readAt) (hheld : current.heldBy id = true)
      (hstatus : current.status = .pending ∧ next.status = .pending)
      (hcompletion : next.completion = none)
      (hexpires : next.expiresAt ≤ current.expiresAt) :
      Rewrite id now (some current) next

variable {setup}

theorem RecordOk.mono {now : Int}
    (h : RecordOk setup session now) (ht : now ≤ now') : RecordOk setup session now' where
  lease hc := by
    have := h.lease hc
    omega
  ttl hp := by
    have := h.ttl hp
    omega

theorem Read.mono {now readAt : Int} {current next : UploadSession}
    (h : Read setup update now current next readAt) (ht : now ≤ now') :
    Read setup update now' current next readAt :=
  ⟨h.time.trans ht, h.record, h.result⟩

theorem UpdateOk.mono {now : Int} {phase : UpdatePhase}
    (h : UpdateOk setup update now phase) (ht : now ≤ now') : UpdateOk setup update now' phase := by
  cases phase with
  | reading attempt => trivial
  | writing attempt current next readAt => exact Read.mono h ht

theorem heldBy_eq_true {id : Nat} :
    session.heldBy id = true ↔ ∃ leaseUntil, session.completion = some ⟨id, leaseUntil⟩ := by
  unfold UploadSession.heldBy
  constructor
  · intro h
    simp only [beq_iff_eq, Option.map_eq_some_iff] at h
    obtain ⟨claim, hc, rfl⟩ := h
    exact ⟨claim.leaseUntil, hc⟩
  · rintro ⟨leaseUntil, h⟩
    simp [h]

theorem prepared_of_ended {now : Int} (h : session.status ≠ .pending) : prepared now session =
      { session with updatedAt := now, expiresAt := now + ENDED_SESSION_TTL } := by
  simp [prepared, h]

theorem rewrite_ended {id : Nat} {now readAt : Int} {current : Option UploadSession}
    {changed : UploadSession} (ht : readAt ≤ now ∧ now ≤ readAt + UPLOAD_SESSION_RECLAIM_GRACE)
    (hs : changed.status ≠ .pending)
    (hl : ∀ claim, changed.completion = some claim →
      claim.leaseUntil ≤ readAt + DIRECT_COMPLETION_LEASE) :
    Rewrite setup id now current (prepared readAt changed) := by
  have hdu := durations setup
  rw [prepared_of_ended hs]
  apply Rewrite.ended
  · exact hs
  · refine ⟨fun {claim} hc => ?_, fun hp => absurd hp hs⟩
    have := hl claim hc
    omega
  · simp only
    omega

variable {id : Nat} {now readAt : Int} {current next : UploadSession}

theorem rewrite_commit {parts : List UploadedPartRecord}
    (hr : Read setup (commitUpdate setup parts) now current next readAt)
    (ht : now ≤ readAt + UPLOAD_SESSION_RECLAIM_GRACE) :
    Rewrite setup id now (some current) next := by
  obtain ⟨changed, hc, rfl⟩ := hr.result
  unfold commitUpdate at hc
  split at hc
  · cases hc
  rename_i hl
  cases hc
  by_cases hs : current.status = .pending
  · have hp : (prepared readAt { current with
        uploadedParts := parts.foldl mergeUploadedPart current.uploadedParts
        updatedAt := readAt
        expiresAt := readAt + directSessionTtl setup }).expiresAt =
          readAt + directSessionTtl setup := by
      simp [prepared, hs]
    exact .committed ⟨hr.time, ht⟩ hr.record (by omega) ⟨hs, hs⟩ rfl hp
  · exact rewrite_ended ⟨hr.time, ht⟩ hs fun claim hcl => hr.record.lease hcl

theorem recordOk_extended
    (hr : Read setup update now current next readAt) (hs : current.status = .pending)
    (hc : next.completion = some ⟨id, readAt + DIRECT_COMPLETION_LEASE⟩)
    (hep : next.expiresAt = max current.expiresAt (readAt + directSessionTtl setup)) :
    RecordOk setup next now := by
  have ht := hr.time
  refine ⟨fun {claim} hcl => ?_, fun _ => ?_⟩
  · rw [hc] at hcl
    cases hcl
    simp only
    omega
  · have := hr.record.ttl hs
    omega

theorem of_claimUpdate (hr : Read setup (claimUpdate setup id) now current next readAt) :
    readAt ≤ current.expiresAt ∧ (current.status = .pending ∧ next.status = .pending) ∧
      (∀ claim, current.completion = some claim → claim.leaseUntil ≤ readAt) ∧
      next.completion = some ⟨id, readAt + DIRECT_COMPLETION_LEASE⟩ ∧
      next.expiresAt = max current.expiresAt (readAt + directSessionTtl setup) := by
  obtain ⟨changed, hc, rfl⟩ := hr.result
  unfold claimUpdate at hc
  split at hc
  · cases hc
  rename_i hli
  split at hc
  · cases hc
  rename_i hs
  rw [not_not] at hs
  split at hc
  · cases hc
  rename_i hl
  split at hc
  · cases hc
  cases hc
  refine ⟨by omega, ⟨hs, hs⟩, fun claim hcl => ?_, rfl, ?_⟩
  · rw [hcl] at hl
    simpa using hl
  · simp [prepared, hs]

theorem recordOk_claim (hr : Read setup (claimUpdate setup id) now current next readAt) :
    RecordOk setup next now := by
  obtain ⟨-, hs, -, hc, hep⟩ := of_claimUpdate hr
  exact recordOk_extended hr hs.1 hc hep

theorem of_renewUpdate (hr : Read setup (renewUpdate setup id) now current next readAt) :
    current.heldBy id = true ∧ (current.status = .pending ∧ next.status = .pending) ∧
      next.completion = some ⟨id, readAt + DIRECT_COMPLETION_LEASE⟩ ∧
      next.expiresAt = max current.expiresAt (readAt + directSessionTtl setup) := by
  obtain ⟨changed, hc, rfl⟩ := hr.result
  unfold renewUpdate at hc
  split at hc
  · cases hc
  rename_i hours
  rw [not_or, not_not, Bool.not_eq_false] at hours
  cases hc
  refine ⟨hours.1, ⟨hours.2, hours.2⟩, rfl, ?_⟩
  simp [prepared, hours.2]

theorem recordOk_renew (hr : Read setup (renewUpdate setup id) now current next readAt) :
    RecordOk setup next now := by
  obtain ⟨-, hs, hc, hep⟩ := of_renewUpdate hr
  exact recordOk_extended hr hs.1 hc hep

theorem of_releaseUpdate {restore : Bool} {expiresBefore renewedUntil : Int}
    (hr : Read setup (releaseUpdate id restore expiresBefore renewedUntil) now current next
      readAt) : current.heldBy id = true ∧ next.status = current.status ∧ next.completion = none ∧
      (current.status = .pending → next.expiresAt =
        if restore = true ∧ current.expiresAt = renewedUntil then expiresBefore
        else current.expiresAt) := by
  obtain ⟨changed, hc, rfl⟩ := hr.result
  unfold releaseUpdate at hc
  split at hc
  · cases hc
  rename_i hours
  rw [Bool.not_eq_false] at hours
  cases hc
  refine ⟨hours, rfl, rfl, fun hp => ?_⟩
  simp [prepared, hp]

theorem rewrite_release {restore : Bool} {expiresBefore renewedUntil : Int}
    (hb : expiresBefore ≤ renewedUntil)
    (hr : Read setup (releaseUpdate id restore expiresBefore renewedUntil) now current next
      readAt) (ht : now ≤ readAt + UPLOAD_SESSION_RECLAIM_GRACE) :
    Rewrite setup id now (some current) next := by
  obtain ⟨hh, hs, hc, hep⟩ := of_releaseUpdate hr
  by_cases hp : current.status = .pending
  · have hle : next.expiresAt ≤ current.expiresAt := by
      rw [hep hp]
      split <;> omega
    exact .released ⟨hr.time, ht⟩ hr.record hh ⟨hp, hs.trans hp⟩ hc hle
  · obtain ⟨changed, hcn, rfl⟩ := hr.result
    have hch : changed.status = current.status := hs
    have hca : changed.completion = none := hc
    apply rewrite_ended ⟨hr.time, ht⟩ (hch ▸ hp)
    intro claim hcl
    exact absurd hcl (by simp [hca])

theorem rewrite_end {status : UploadSessionStatus} (hs : status ≠ .pending)
    (hr : Read setup (endUpdate status) now current next readAt)
    (ht : now ≤ readAt + UPLOAD_SESSION_RECLAIM_GRACE) :
    Rewrite setup id now (some current) next := by
  obtain ⟨changed, hc, rfl⟩ := hr.result
  cases hc
  apply rewrite_ended ⟨hr.time, ht⟩ hs
  intro claim hcl
  cases hcl

theorem rewrite_upsert {current : Option UploadSession} (hr : RecordOk setup session now) :
    Rewrite setup id now current (prepared now { session with status := .aborted }) := by
  have hdu := durations setup
  apply rewrite_ended ⟨le_refl now, by omega⟩ (by simp)
  intro claim hc
  exact hr.lease hc

theorem Rewrite.recordOk {current : Option UploadSession}
    (h : Rewrite setup id now current next) : RecordOk setup next now := by
  have hdu := durations setup
  cases h with
  | ended _ hr _ => exact hr
  | committed ht hr _ _ hc hep =>
    refine ⟨fun {claim} hcl => ?_, fun _ => by omega⟩
    have := hr.lease (hc ▸ hcl)
    omega
  | released ht hr _ hs hc hep =>
    refine ⟨fun {claim} hcl => absurd hcl (by simp [hc]), fun _ => ?_⟩
    have := hr.ttl hs.1
    omega

end Records

end FlareIm.DirectUpload
