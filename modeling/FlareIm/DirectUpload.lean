import FlareIm.Lib.RoundTrip
import FlareIm.Lib.Text
import FlareIm.Lib.Transition

namespace FlareIm.DirectUpload

open RoundTrip

section Times

-- Times and durations are in nanoseconds.
def seconds (count : Int) : Int := count * 1000000000

def timestampMillis (time : Int) : Int := time / 1000000

def UPLOAD_SESSION_RECLAIM_GRACE : Int := seconds 300
def UPLOAD_SESSION_RECLAIM_LEASE : Int := seconds 300
def DIRECT_COMPLETION_LEASE : Int := seconds 300
def ENDED_SESSION_TTL : Int := seconds 3600

def UPDATE_ATTEMPTS : Nat := 10
def ABORT_MARK_ATTEMPTS : Nat := 3

end Times

section Sessions

inductive ErrorCode where
  | messageNotFound
  | invalidParameter
  | serviceUnavailable
  | networkError
  | databaseError
  | internalError
  deriving DecidableEq

inductive DirectUploadTransportKind where
  | singlePut
  | multipartPut
  deriving DecidableEq

inductive UploadSessionStatus where
  | pending
  | completed
  | aborted
  deriving DecidableEq

structure UploadedPartRecord where
  partNumber : Nat
  etag : String
  size : Int
  sha256 : Option String := none
  deriving DecidableEq

-- The token of a completion is the number of its call.
structure CompletionClaim where
  token : Nat
  leaseUntil : Int
  deriving DecidableEq

-- What of a session changes after it is created; the rest is in `Setup`.
structure UploadSession where
  uploadedParts : List UploadedPartRecord
  status : UploadSessionStatus
  expiresAt : Int
  updatedAt : Int
  completion : Option CompletionClaim
  deriving DecidableEq

structure MediaFile where
  fileId : String
  storageBucket : String
  storagePath : String
  fileSize : Int
  deriving DecidableEq

structure Caller where
  tenantId : String
  userId : String

inductive Call where
  | commitDirectUploadParts (caller : Caller) (parts : List UploadedPartRecord)
  | completeDirectUpload (caller : Caller)
  | abortDirectUpload (caller : Caller)
  | reclaimExpiredUploadSessions

-- A session of a direct upload, and the calls on it.
structure Setup where
  transportKind : DirectUploadTransportKind
  tenantId : String
  userId : String
  fileId : String
  bucket : String
  objectKey : String
  totalSize : Int
  totalParts : Nat
  createdAt : Int
  chunkTtlSeconds : Int
  -- the file is referenced by messages, and references are stored
  messageManaged : Bool
  call : Nat → Call

def mergeUploadedPart (parts : List UploadedPartRecord) (part : UploadedPartRecord) :
    List UploadedPartRecord :=
  let merged := match parts.findIdx? fun item => item.partNumber == part.partNumber with
    | some index => parts.set index part
    | none => parts ++ [part]
  merged.mergeSort fun a b => a.partNumber ≤ b.partNumber

-- `ensure_session_defaults`, made of every record before it is written.
def prepared (now : Int) (session : UploadSession) : UploadSession :=
  { session with
    updatedAt := now
    expiresAt := if session.status = .pending then session.expiresAt else now + ENDED_SESSION_TTL }

variable (setup : Setup)

def directSessionTtl : Int := seconds (max setup.chunkTtlSeconds 300)

def createdSession : UploadSession where
  uploadedParts := []
  status := .pending
  expiresAt := setup.createdAt + directSessionTtl setup
  updatedAt := setup.createdAt
  completion := none

-- What a completion registers.
def Setup.mediaFile : MediaFile := ⟨setup.fileId, setup.bucket, setup.objectKey, setup.totalSize⟩

def authorizeUploadSession (caller : Caller) : Bool :=
  setup.tenantId ≠ "" && setup.tenantId == caller.tenantId && setup.userId == caller.userId

def ensureAllPartsCommitted (session : UploadSession) : Bool :=
  setup.totalParts ≠ 0 && session.uploadedParts.length == setup.totalParts

def partsValid (parts : List UploadedPartRecord) : Bool :=
  parts.all fun part =>
    part.partNumber ≠ 0 && part.partNumber ≤ setup.totalParts && Text.trim part.etag ≠ ""

end Sessions

section Updates

-- What `update_session` is given to change a record with: an error, nothing to write, or the
-- record to write.
abbrev SessionUpdate := Int → UploadSession → Except ErrorCode (Option UploadSession)

variable (setup : Setup)

def commitUpdate (parts : List UploadedPartRecord) : SessionUpdate := fun now current =>
  if current.expiresAt < now then .error .messageNotFound
  else
    .ok (some { current with
      uploadedParts := parts.foldl mergeUploadedPart current.uploadedParts
      updatedAt := now
      expiresAt := now + directSessionTtl setup })

def claimUpdate (id : Nat) : SessionUpdate := fun now current =>
  if current.expiresAt < now then .error .messageNotFound
  else if current.status ≠ .pending then .error .invalidParameter
  else if current.completion.any fun claim => decide (now < claim.leaseUntil) then
    .error .serviceUnavailable
  else if setup.transportKind = .multipartPut ∧ ensureAllPartsCommitted setup current = false then
    .error .invalidParameter
  else
    .ok (some { current with
      completion := some ⟨id, now + DIRECT_COMPLETION_LEASE⟩
      expiresAt := max current.expiresAt (now + directSessionTtl setup)
      updatedAt := now })

def UploadSession.heldBy (session : UploadSession) (id : Nat) : Bool :=
  session.completion.map (·.token) == some id

def renewUpdate (id : Nat) : SessionUpdate := fun now current =>
  if current.heldBy id = false ∨ current.status ≠ .pending then .ok none
  else
    .ok (some { current with
      completion := some ⟨id, now + DIRECT_COMPLETION_LEASE⟩
      expiresAt := max current.expiresAt (now + directSessionTtl setup)
      updatedAt := now })

def releaseUpdate (id : Nat) (restore : Bool) (expiresBefore renewedUntil : Int) :
    SessionUpdate := fun now current =>
  if current.heldBy id = false then .ok none
  else
    .ok (some { current with
      completion := none
      expiresAt :=
        if restore = true ∧ current.expiresAt = renewedUntil then expiresBefore
        else current.expiresAt
      updatedAt := now })

def endUpdate (status : UploadSessionStatus) : SessionUpdate := fun now current =>
  .ok (some { current with status := status, completion := none, updatedAt := now })

-- Where `update_session` stands: about to read the record, or about to write what it has made of
-- the record it read.
inductive UpdatePhase where
  | reading (attempt : Nat)
  | writing (attempt : Nat) (current next : UploadSession) (readAt : Int)
  deriving DecidableEq

-- How it ends. A write whose answer is lost is reported as an error.
inductive Updated where
  | missing
  | unchanged
  | written (current next : UploadSession)
  | unanswered (next : UploadSession)
  | refused (code : ErrorCode)

inductive Progress where
  | going (update : UpdatePhase)
  | resolved (result : Updated)

end Updates

section States

-- A write of the session record: the call it is part of, and the expiry before it.
structure Write where
  writer : Nat
  expiresBefore : Option Int

-- The Redis record of the session with its score in the reclaim index, the object and the
-- multipart upload in object storage, the file's row and what has been counted as stored. The
-- writes of the record are kept with the latest first.
structure Shared where
  now : Int
  session : Option UploadSession
  score : Option Int
  object : Option Int
  multipartOpen : Bool
  file : Option MediaFile
  registrations : Nat
  stored : List Int
  writes : List Write

-- A completion that has been claimed. The code keeps the two expiries; the lease is the one last
-- written, and a renewal is unanswered when it was written and its answer lost.
structure DirectCompletionClaim where
  expiresBefore : Int
  renewedUntil : Int
  leaseUntil : Int
  unanswered : Bool
  deriving DecidableEq

inductive Task where
  | merging
  | restating (code : ErrorCode)
  | stating
  | discarding
  | dropping
  | marking (attempt : Nat) (update : UpdatePhase)
  | saving
  | referencing
  | resaving
  deriving DecidableEq

inductive Renewal where
  | running (update : UpdatePhase)
  | stopped
  deriving DecidableEq

-- `release_upload_resources` is part of an abort and of a reclaim round.
inductive Releaser where
  | abort
  | reclaim
  deriving DecidableEq

inductive ReleaseStage where
  | abortingMultipart
  | verifying
  | deleting
  deriving DecidableEq

inductive Answer where
  | completed (file : MediaFile)
  | done
  | refused (code : ErrorCode)
  deriving DecidableEq

inductive Phase where
  | waiting
  | committing (parts : List UploadedPartRecord) (update : UpdatePhase)
  | checking (session : UploadSession)
  | stating
  | refusing
  | claiming (update : UpdatePhase)
  | rechecking (code : ErrorCode)
  | working (claim : DirectCompletionClaim) (task : Task) (renewal : Renewal)
  | finishing (file : MediaFile) (update : UpdatePhase)
  | ending (file : MediaFile)
  | releasingCompletion (claim : DirectCompletionClaim) (code : ErrorCode) (update : UpdatePhase)
  | claimingExpired (startedAt : Int)
  | rereading (startedAt : Int) (claimed : UploadSession)
  | releasingResources (releaser : Releaser) (session : UploadSession) (stage : ReleaseStage)
  | upserting (session : UploadSession)
  | deletingSession
  | answered (answer : Answer)
  deriving DecidableEq

structure State where
  shared : Shared
  phases : Nat → Phase

def initial (setup : Setup) : State where
  shared :=
    { now := setup.createdAt
      session := some (createdSession setup)
      score := some (timestampMillis (createdSession setup).expiresAt)
      object := none
      multipartOpen := setup.transportKind = .multipartPut
      file := none
      registrations := 0
      stored := []
      writes := [] }
  phases _ := .waiting

variable (shared : Shared)

-- A record and its score are written, and deleted, together.
def Shared.write (id : Nat) (session : UploadSession) : Shared :=
  { shared with
    session := some session
    score := some (timestampMillis session.expiresAt)
    writes := ⟨id, shared.session.map (·.expiresAt)⟩ :: shared.writes }

def Shared.deleteSession : Shared := { shared with session := none, score := none }

def Shared.deleteObject : Shared := { shared with object := none }

-- Expired sessions are not there for `get_session`.
def Shared.getSession : Option UploadSession :=
  shared.session.filter fun session => shared.now ≤ session.expiresAt

def Shared.when (outcome : Outcome) (effect : Shared → Shared) : Shared :=
  if outcome.takesEffect then effect shared else shared

end States

section Store

variable (shared : Shared) (outcome : Outcome)

-- `update_session` reads the record and changes what it has read.
def readForUpdate (update : SessionUpdate) (attempt : Nat) : Progress :=
  if outcome ≠ .answered then .resolved (.refused .networkError)
  else
    match shared.session with
    | none => .resolved .missing
    | some current =>
      match update shared.now current with
      | .error code => .resolved (.refused code)
      | .ok none => .resolved .unchanged
      | .ok (some changed) =>
        .going (.writing attempt current (prepared shared.now changed) shared.now)

-- `COMPARE_AND_SET_SCRIPT`.
def compareAndSet (id attempt : Nat) (current next : UploadSession) : Shared × Progress :=
  if outcome = .failed then (shared, .resolved (.refused .networkError))
  else if shared.session = some current then
    (shared.write id next,
      .resolved (if outcome = .answered then .written current next else .unanswered next))
  else if outcome = .lost then (shared, .resolved (.refused .networkError))
  else if attempt < UPDATE_ATTEMPTS then (shared, .going (.reading (attempt + 1)))
  else (shared, .resolved (.refused .serviceUnavailable))

-- One round trip of `update_session`. A call is not suspended longer than the grace period
-- between the two.
def updateStep (id : Nat) (update : SessionUpdate) : UpdatePhase → Option (Shared × Progress)
  | .reading attempt => some (shared, readForUpdate shared outcome update attempt)
  | .writing attempt current next readAt =>
    if readAt + UPLOAD_SESSION_RECLAIM_GRACE < shared.now then none
    else some (compareAndSet shared outcome id attempt current next)

def Progress.continue (going : UpdatePhase → Phase) (resolved : Updated → Phase) : Progress → Phase
  | .going update => going update
  | .resolved result => resolved result

def afterUpdate (going : UpdatePhase → Phase) (resolved : Updated → Phase)
    (result : Shared × Progress) : Shared × Phase :=
  (result.1, result.2.continue going resolved)

-- The record is due for a reclaim round that started at the time.
def isExpired (startedAt : Int) : Bool :=
  shared.score.any (fun score =>
    decide (score < timestampMillis (startedAt - UPLOAD_SESSION_RECLAIM_GRACE)))

-- `CLAIM_SCRIPT`.
def claimScript (startedAt : Int) : Shared × Option UploadSession :=
  if isExpired shared startedAt then
    match shared.session with
    | none => ({ shared with score := none }, none)
    | some session =>
      ({ shared with
          score := some (timestampMillis (startedAt + UPLOAD_SESSION_RECLAIM_LEASE)) },
        some session)
  else (shared, none)

-- The storage assembles the parts to an object of the size, or does not find them as committed.
def completeMultipartUpload (merged : Option Int) : Shared × Option ErrorCode :=
  match outcome, merged with
  | .failed, _ => (shared, some .networkError)
  | outcome, some size =>
    if shared.multipartOpen then
      ({ shared with object := some size, multipartOpen := false },
        if outcome = .answered then none else some .networkError)
    else
      (shared, some (if outcome = .answered then .invalidParameter else .networkError))
  | outcome, none =>
    (shared, some (if outcome = .answered then .invalidParameter else .networkError))

variable (setup : Setup)

def ensureDeclaredSize (size : Option Int) : Bool := size == some setup.totalSize

-- `stat_object` and whether the object has the declared size; the storage may not report it.
def statObject (reported : Bool) : Option Bool :=
  shared.object.map fun size => ensureDeclaredSize setup (if reported then some size else none)

def Shared.register : Shared :=
  { shared with file := some setup.mediaFile, registrations := shared.registrations + 1 }

def Shared.mediaStored : Shared := { shared with stored := setup.totalSize :: shared.stored }

end Store

section Completion

variable (setup : Setup) (id : Nat) (shared : Shared)

-- The next round trip of a call, with what a storage answers.
inductive Move where
  | trip (outcome : Outcome)
  | stat (reported : Bool)
  | merge (merged : Option Int) (outcome : Outcome)
  | renew (outcome : Outcome)

def refused (code : ErrorCode) : Phase := .answered (.refused code)

def firstTask : Task :=
  if setup.transportKind = .multipartPut then .merging else .saving

def leaseOf (session : UploadSession) : Int :=
  (session.completion.map (·.leaseUntil)).getD session.expiresAt

-- How `complete_direct_upload` goes on from `claim_direct_completion`.
def claimed : Updated → Phase
  | .missing => .rechecking .messageNotFound
  | .refused .messageNotFound => .rechecking .messageNotFound
  | .refused .invalidParameter => .rechecking .invalidParameter
  | .refused code => refused code
  -- a claim always has something to write
  | .unchanged => .rechecking .messageNotFound
  | .unanswered _ => refused .networkError
  | .written current next =>
    .working ⟨current.expiresAt, next.expiresAt, leaseOf next, false⟩ (firstTask setup)
      (.running (.reading 1))

-- `renew_direct_completion`, in the middle of the work.
def renewed (claim : DirectCompletionClaim) (task : Task) : Updated → Phase
  | .missing | .unchanged => .working claim task .stopped
  | .refused _ => .working claim task (.running (.reading 1))
  | .unanswered next =>
    .working { claim with leaseUntil := leaseOf next, unanswered := true } task
      (.running (.reading 1))
  | .written _ next =>
    .working ⟨claim.expiresBefore, next.expiresAt, leaseOf next, false⟩ task
      (.running (.reading 1))

def renewStep (claim : DirectCompletionClaim) (task : Task) (outcome : Outcome) :
    Renewal → Option (Shared × Phase)
  | .running update =>
    (updateStep shared outcome id (renewUpdate setup id) update).map
      (afterUpdate (fun update => .working claim task (.running update)) (renewed claim task))
  | .stopped => none

def failed (claim : DirectCompletionClaim) (code : ErrorCode) : Phase :=
  .releasingCompletion claim code (.reading 1)

-- `mark_session_aborted`.
def marked (claim : DirectCompletionClaim) (renewal : Renewal) (attempt : Nat) : Updated → Phase
  | .refused _ | .unanswered _ =>
    if attempt < ABORT_MARK_ATTEMPTS then
      .working claim (.marking (attempt + 1) (.reading 1)) renewal
    else failed claim .invalidParameter
  | _ => failed claim .invalidParameter

def finish : Phase := .finishing setup.mediaFile (.reading 1)

-- How the work goes on from the size of the merged object.
def sized (claim : DirectCompletionClaim) (renewal : Renewal) (missing : ErrorCode) :
    Option Bool → Phase
  | some true => .working claim .saving renewal
  | some false => .working claim .discarding renewal
  | none => failed claim missing

-- `merge_direct_parts` and `persist_direct_upload_metadata`.
def workStep (claim : DirectCompletionClaim) (renewal : Renewal) :
    Task → Move → Option (Shared × Phase)
  | .merging, .merge merged outcome =>
    let result := completeMultipartUpload shared outcome merged
    some (result.1, .working claim
      (match result.2 with
        | none => .stating
        | some code => .restating code) renewal)
  | .restating code, .stat reported =>
    some (shared, sized claim renewal code (statObject shared setup reported))
  | .restating code, .trip _ => some (shared, failed claim code)
  | .stating, .stat reported =>
    some (shared, sized claim renewal .internalError (statObject shared setup reported))
  | .stating, .trip _ => some (shared, failed claim .networkError)
  | .discarding, .trip outcome =>
    some (shared.when outcome Shared.deleteObject, .working claim
      (if outcome = .answered then .dropping else .marking 1 (.reading 1)) renewal)
  | .dropping, .trip outcome =>
    some (shared.when outcome Shared.deleteSession, failed claim .invalidParameter)
  | .marking attempt update, .trip outcome =>
    (updateStep shared outcome id (endUpdate .aborted) update).map
      (afterUpdate (fun update => .working claim (.marking attempt update) renewal)
        (marked claim renewal attempt))
  | .saving, .trip outcome =>
    if outcome = .answered then
      some ((shared.register setup).mediaStored setup,
        if setup.messageManaged then .working claim .referencing renewal else finish setup)
    else some (shared.when outcome (Shared.register · setup), failed claim .databaseError)
  | .referencing, .trip outcome =>
    some (shared,
      if outcome = .answered then .working claim .resaving renewal
      else failed claim .databaseError)
  | .resaving, .trip outcome =>
    some (shared.when outcome fun shared => { shared with file := some setup.mediaFile },
      if outcome = .answered then finish setup else failed claim .databaseError)
  | _, _ => none

end Completion

section Calls

variable (setup : Setup) (id : Nat) (shared : Shared)

def verify (releaser : Releaser) (session : UploadSession) : Phase :=
  if session.status = .completed then
    match releaser with
    | .abort => .upserting session
    | .reclaim => .deletingSession
  else .releasingResources releaser session .verifying

-- What follows `release_upload_resources`. An abort goes on when it failed.
def released (releaser : Releaser) (session : UploadSession) (freed : Bool) : Phase :=
  match releaser with
  | .abort => .upserting session
  | .reclaim => if freed then .deletingSession else .answered .done

def releaseUploadResources (releaser : Releaser) (session : UploadSession) : Phase :=
  match setup.transportKind with
  | .multipartPut => .releasingResources releaser session .abortingMultipart
  | .singlePut => verify releaser session

-- The first round trip of a call reads the session; a reclaim round reads the clock.
def begin (outcome : Outcome) : Call → Phase
  | .reclaimExpiredUploadSessions => .claimingExpired shared.now
  | .commitDirectUploadParts caller parts =>
    if outcome ≠ .answered then refused .networkError
    else if shared.getSession = none ∨ authorizeUploadSession setup caller = false then
      refused .messageNotFound
    else if partsValid setup parts then .committing parts (.reading 1)
    else refused .invalidParameter
  | .completeDirectUpload caller =>
    if outcome ≠ .answered then refused .networkError
    else
      match shared.getSession with
      | none => refused .messageNotFound
      | some session =>
        if authorizeUploadSession setup caller = false then refused .messageNotFound
        else if session.status = .aborted then refused .invalidParameter
        else .checking session
  | .abortDirectUpload caller =>
    if outcome ≠ .answered then refused .networkError
    else
      match shared.getSession with
      | none => .deletingSession
      | some session =>
        if authorizeUploadSession setup caller = false then refused .messageNotFound
        else releaseUploadResources setup .abort session

-- After `load_metadata` of a completion that has not claimed the session.
def checked (session : UploadSession) : Phase :=
  match shared.file with
  | some file => .finishing file (.reading 1)
  | none =>
    match setup.transportKind with
    | .singlePut => .stating
    | .multipartPut =>
      if ensureAllPartsCommitted setup session then .claiming (.reading 1)
      else refused .invalidParameter

def stated : Option Bool → Phase
  | none => refused .invalidParameter
  | some false => .refusing
  | some true => .claiming (.reading 1)

def reread (startedAt : Int) (claimed : UploadSession) : Phase :=
  if shared.session.any (fun session =>
      decide (startedAt - UPLOAD_SESSION_RECLAIM_GRACE ≤ session.expiresAt)) then
    .answered .done
  else releaseUploadResources setup .reclaim (shared.session.getD claimed)

def releaseStep (releaser : Releaser) (session : UploadSession) (outcome : Outcome) :
    ReleaseStage → Shared × Phase
  | .abortingMultipart =>
    (shared.when outcome fun shared => { shared with multipartOpen := false },
      if outcome = .answered then verify releaser session
      else released releaser session false)
  | .verifying =>
    (shared,
      if outcome ≠ .answered then released releaser session false
      else if shared.file.isSome then released releaser session true
      else .releasingResources releaser session .deleting)
  | .deleting =>
    (shared.when outcome Shared.deleteObject,
      released releaser session (outcome == .answered))

-- A call from one round trip to the next.
def callStep : Phase → Move → Option (Shared × Phase)
  | .waiting, .trip outcome => some (shared, begin setup shared outcome (setup.call id))
  | .committing parts update, .trip outcome =>
    (updateStep shared outcome id (commitUpdate setup parts) update).map
      (afterUpdate (.committing parts) fun
        | .missing => refused .messageNotFound
        | .refused code => refused code
        | .unanswered _ => refused .networkError
        | _ => .answered .done)
  | .checking session, .trip outcome =>
    some (shared,
      if outcome = .answered then checked setup shared session
      else refused .databaseError)
  | .stating, .stat reported => some (shared, stated (statObject shared setup reported))
  | .stating, .trip _ => some (shared, refused .networkError)
  | .refusing, .trip outcome =>
    some (shared.when outcome Shared.deleteObject, refused .invalidParameter)
  | .claiming update, .trip outcome =>
    (updateStep shared outcome id (claimUpdate setup id) update).map
      (afterUpdate .claiming (claimed setup))
  | .rechecking code, .trip outcome =>
    some (shared,
      if outcome ≠ .answered then refused .databaseError
      else .answered ((shared.file.map .completed).getD (.refused code)))
  | .working claim task renewal, .renew outcome =>
    renewStep setup id shared claim task outcome renewal
  | .working claim task renewal, move => workStep setup id shared claim renewal task move
  | .finishing file update, .trip outcome =>
    (updateStep shared outcome id (endUpdate .completed) update).map
      (afterUpdate (.finishing file) fun _ => .ending file)
  | .ending file, .trip outcome =>
    some (shared.when outcome Shared.deleteSession, .answered (.completed file))
  | .releasingCompletion claim code update, .trip outcome =>
    (updateStep shared outcome id (releaseUpdate id (code == .invalidParameter)
        claim.expiresBefore claim.renewedUntil) update).map
      (afterUpdate (.releasingCompletion claim code) fun _ => refused code)
  | .claimingExpired startedAt, .trip outcome =>
    some (if outcome.takesEffect then (claimScript shared startedAt).1 else shared,
      match outcome, (claimScript shared startedAt).2 with
      | .answered, some session => .rereading startedAt session
      | _, _ => .answered .done)
  | .rereading startedAt claimed, .trip outcome =>
    some (shared,
      if outcome = .answered then reread setup shared startedAt claimed else .answered .done)
  | .releasingResources releaser session stage, .trip outcome =>
    some (releaseStep shared releaser session outcome stage)
  | .upserting session, .trip outcome =>
    some (shared.when outcome fun shared =>
        shared.write id (prepared shared.now { session with status := .aborted }),
      .deletingSession)
  | .deletingSession, .trip outcome =>
    some (shared.when outcome Shared.deleteSession, .answered .done)
  | _, _ => none

end Calls

section System

variable (setup : Setup) (state : State)

inductive Action where
  | tick (elapsed : Nat)
  -- the client puts an object at the presigned address
  | put (size : Int)
  -- Redis drops the record
  | expire
  | call (id : Nat) (move : Move)

def step : Action → Option State
  | .tick elapsed =>
    some { state with shared := { state.shared with now := state.shared.now + elapsed } }
  | .put size =>
    if setup.transportKind = .singlePut then
      some { state with shared := { state.shared with object := some size } }
    else none
  | .expire => some { state with shared := { state.shared with session := none } }
  | .call id move =>
    (callStep setup id state.shared (state.phases id) move).map fun result =>
      ⟨result.1, Function.update state.phases id result.2⟩

end System

end FlareIm.DirectUpload
