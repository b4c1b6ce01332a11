import FlareIm.MediaReferences

namespace FlareIm.MediaDedup

open RoundTrip
open MediaReferences (MediaAssetStatus MediaFileMetadata canReuseHashMatch initialLifecycleState)

section Calls

abbrev Bytes := List UInt8

structure FileKey where
  tenantId : String
  fileId : String
  deriving DecidableEq

-- A row of media_assets, as far as the hash lookup and the deletions read and write it.
structure Asset where
  ownerId : Option String
  sha256 : Option String
  uploadedAt : Nat
  lifecycle : MediaFileMetadata
  deriving DecidableEq

-- A direct upload, with the hashes its client declared.
structure UploadSession where
  key : FileKey
  userId : String
  messageManaged : Bool
  multipart : Bool
  fullSha256 : Option String
  headTailSha256 : Option String

-- The tenant of a call is that of its file. A file id is new, or that of a multipart session which
-- is completed again. A message's upload has an owner, so it carries the scope of a reference.
inductive Call where
  | storeMediaFile (key : FileKey) (ownerId : String) (payload : Bytes) (messageManaged : Bool)
  | completeDirectUpload (session : UploadSession)
  | deleteMediaFile (key : FileKey) (ownerId : String)
  | cleanupOrphanedAssets (key : FileKey)
  | releaseUpload (session : UploadSession)

structure Setup where
  sha256 : Bytes → String
  call : Nat → Call
  orphanGraceSeconds : Nat

-- Which write of metadata a call is about to make: of a new file, of a file it reuses, of a file it
-- has made a reference to, or of a file that keeps some references.
inductive Save where
  | registered
  | reused
  | referenced (existing : Bool)
  | dereferenced
  deriving DecidableEq

-- Where a call stands, with its own copy of the metadata.
inductive Phase where
  | notStarted
  | puttingObject
  | mergingParts
  | completing
  | creatingReference (key : FileKey) (asset : Asset) (existing : Bool)
  | countingReferences (key : FileKey) (asset : Asset) (existing : Bool)
  | savingMetadata (key : FileKey) (asset : Asset) (save : Save)
  | answering (key : FileKey) (asset : Asset)
  | deletingReference (key : FileKey) (asset : Asset)
  | deletingObject
  | deletingRow
  | deletingClaimed
  | committing
  | releasing
  | finished
  deriving DecidableEq

inductive Remover where
  | deletion
  | cleanup
  | release

-- What a store call answers when it returns a file that was there, with what that file's object is.
structure Answer where
  call : Nat
  key : FileKey
  ownerId : Option String
  object : Option Bytes
  removal : Option Remover

-- `removal` tells who has deleted the object of a file since it was last written.
structure State where
  now : Nat := 0
  known : List FileKey := []
  rows : FileKey → Option Asset := fun _ => none
  cache : FileKey → Option Asset := fun _ => none
  claimed : FileKey → Bool := fun _ => false
  objects : FileKey → Option Bytes := fun _ => none
  removal : FileKey → Option Remover := fun _ => none
  phases : Nat → Phase := fun _ => .notStarted
  answers : List Answer := []

-- An entry of the cache may be dropped at any time, and is invalidated after a deletion.
inductive Action where
  | tick
  | forget (key : FileKey)
  -- the client's upload of bytes to the address it was given
  | putByClient (call : Nat) (bytes : Bytes)
  | loadByHash (call : Nat) (found : Option FileKey) (outcome : Outcome)
  | putObject (call : Nat) (outcome : Outcome)
  | beginCompletion (call : Nat) (outcome : Outcome)
  | mergeParts (call : Nat) (bytes : Bytes) (outcome : Outcome)
  | persistDirectUpload (call : Nat) (remembered : Bool) (outcome : Outcome)
  | createReference (call : Nat) (present : Bool) (outcome : Outcome)
  | countReferences (call : Nat) (count : Nat) (outcome : Outcome)
  | saveMetadata (call : Nat) (remembered : Bool) (outcome : Outcome)
  | answer (call : Nat) (remembered : Bool)
  | loadMetadata (call : Nat) (remembered : Bool) (outcome : Outcome)
  | deleteReference (call : Nat) (count : Nat)
  | deleteObject (call : Nat) (outcome : Outcome)
  | deleteRow (call : Nat) (outcome : Outcome)
  | claim (call : Nat) (before : Nat) (outcome : Outcome)
  | deleteClaimed (call : Nat) (outcome : Outcome)
  | commit (call : Nat) (outcome : Outcome)
  | loadUnregistered (call : Nat) (outcome : Outcome)
  | release (call : Nat) (outcome : Outcome)

end Calls

section Changes

def State.goTo (state : State) (call : Nat) (phase : Phase) : State :=
  { state with phases := Function.update state.phases call phase }

def State.writeObject (state : State) (key : FileKey) (bytes : Bytes) : State :=
  { state with
    objects := Function.update state.objects key (some bytes)
    removal := Function.update state.removal key none }

def State.dropObject (state : State) (key : FileKey) (remover : Remover) : State :=
  { state with
    objects := Function.update state.objects key none
    removal := Function.update state.removal key (some remover) }

-- The upsert leaves the owner of a row as it is.
def upserted (row : Option Asset) (asset : Asset) : Asset :=
  match row with
  | none => asset
  | some old => { asset with ownerId := old.ownerId }

def State.upsert (state : State) (key : FileKey) (asset : Asset) : State :=
  { state with
    known := key :: state.known
    rows := Function.update state.rows key (some (upserted (state.rows key) asset)) }

def State.remember (state : State) (key : FileKey) (asset : Asset) : State :=
  { state with cache := Function.update state.cache key (some asset) }

def State.dropRow (state : State) (key : FileKey) : State :=
  { state with rows := Function.update state.rows key none }

def State.setClaimed (state : State) (key : FileKey) (claimed : Bool) : State :=
  { state with claimed := Function.update state.claimed key claimed }

end Changes

variable (setup : Setup) (state : State) (call : Nat)

section Store

def State.graceEnd : Nat := state.now + setup.orphanGraceSeconds

-- What a store call saves of a file of its own.
def newAsset (ownerId : String) (sha256 : Option String) (messageManaged : Bool) : Asset :=
  ⟨some ownerId, sha256, state.now, initialLifecycleState messageManaged (state.graceEnd setup)⟩

def Asset.matchesHash (asset : Asset) (sha256 : String) : Bool :=
  asset.sha256 == some sha256 && asset.lifecycle.status != .softDeleted

-- Active files come first, then later ones.
def Asset.comesBefore (asset other : Asset) : Bool :=
  if asset.lifecycle.status = .active ∧ other.lifecycle.status ≠ .active then true
  else if asset.lifecycle.status ≠ .active ∧ other.lifecycle.status = .active then false
  else decide (other.uploadedAt < asset.uploadedAt)

-- The rows of the tenant with the hash, none of which comes before the one that is found.
def State.findsByHash (tenantId sha256 : String) (found : Option FileKey) : Bool :=
  match found with
  | none => state.known.all fun key =>
    !(key.tenantId == tenantId && (state.rows key).any (·.matchesHash sha256))
  | some found =>
    match state.rows found with
    | none => false
    | some asset => found.tenantId == tenantId && asset.matchesHash sha256 &&
        state.known.all fun key =>
          !(key.tenantId == tenantId && (state.rows key).any fun other =>
            other.matchesHash sha256 && other.comesBefore asset)

def reuse (key : FileKey) (existing : Asset) (messageManaged : Bool) : Phase :=
  if messageManaged then .creatingReference key existing true
  else if existing.lifecycle.messageManaged then .answering key existing
  else
    .savingMetadata key { existing with
      lifecycle := { existing.lifecycle with status := .active, graceExpiresAt := none } } .reused

def loadByHash (found : Option FileKey) (outcome : Outcome) : Option State :=
  match setup.call call, state.phases call with
  | .storeMediaFile key ownerId payload messageManaged, .notStarted =>
    if outcome ≠ .answered then some (state.goTo call .finished)
    else if state.findsByHash key.tenantId (setup.sha256 payload) found = false then none
    else
      match found with
      | none => some (state.goTo call .puttingObject)
      | some other =>
        match state.rows other with
        | none => none
        | some existing =>
          if canReuseHashMatch existing.lifecycle messageManaged ∧
              existing.ownerId = some ownerId then
            some (state.goTo call (reuse other existing messageManaged))
          else some (state.goTo call .puttingObject)
  | _, _ => none

def putObject (outcome : Outcome) : Option State :=
  match setup.call call, state.phases call with
  | .storeMediaFile key ownerId payload messageManaged, .puttingObject =>
    let written := if outcome.takesEffect then state.writeObject key payload else state
    some (written.goTo call
      (if outcome = Outcome.answered then
        .savingMetadata key
          (newAsset setup state ownerId (some (setup.sha256 payload)) messageManaged) .registered
      else .finished))
  | _, _ => none

-- The row is locked first, so a cleanup that has claimed it is waited for.
def createReference (present : Bool) (outcome : Outcome) : Option State :=
  match state.phases call with
  | .creatingReference key asset existing =>
    if state.claimed key then none
    else if outcome ≠ .answered ∨ state.rows key = none then some (state.goTo call .finished)
    else if present then
      some (state.goTo call (.savingMetadata key
        { asset with
          lifecycle := asset.lifecycle.applyReferenceLifecycle (state.graceEnd setup) }
        (.referenced existing)))
    else some (state.goTo call (.countingReferences key asset existing))
  | _ => none

def countReferences (count : Nat) (outcome : Outcome) : Option State :=
  match state.phases call with
  | .countingReferences key asset existing =>
    if outcome ≠ .answered then some (state.goTo call .finished)
    else
      some (state.goTo call (.savingMetadata key
        { asset with
          lifecycle := { asset.lifecycle with
            referenceCount := count }.applyReferenceLifecycle (state.graceEnd setup) }
        (.referenced existing)))
  | _ => none

def Call.messageManaged : Call → Bool
  | .storeMediaFile _ _ _ messageManaged => messageManaged
  | .completeDirectUpload session => session.messageManaged
  | .deleteMediaFile _ _ | .cleanupOrphanedAssets _ | .releaseUpload _ => false

-- What follows a write of metadata that was answered.
def saved (key : FileKey) (asset : Asset) : Save → Phase
  | .registered =>
    if (setup.call call).messageManaged then .creatingReference key asset false else .finished
  | .reused | .referenced true => .answering key asset
  | .referenced false | .dereferenced => .finished

-- The upsert waits for a cleanup that has claimed the row, and inserts the row if it is gone.
def saveMetadata (remembered : Bool) (outcome : Outcome) : Option State :=
  match state.phases call with
  | .savingMetadata key asset save =>
    if state.claimed key then none
    else
      let written := if outcome.takesEffect then state.upsert key asset else state
      if outcome = Outcome.answered then
        some ((if remembered then written.remember key asset else written).goTo call
          (saved setup call key asset save))
      else some (written.goTo call .finished)
  | _ => none

-- The file that was found is put into the cache and returned.
def answer (remembered : Bool) : Option State :=
  match state.phases call with
  | .answering key asset =>
    let cached := if remembered then state.remember key asset else state
    some ({ cached with
      answers := ⟨call, key, asset.ownerId, state.objects key, state.removal key⟩ ::
        state.answers }.goTo call .finished)
  | _ => none

end Store

section DirectUploads

-- The address stays good for uploads until it expires, before and after a completion.
def putByClient (bytes : Bytes) : Option State :=
  match setup.call call with
  | .completeDirectUpload session => some (state.writeObject session.key bytes)
  | _ => none

-- A registered file is answered as it is. The object of a single put has to be there.
def beginCompletion (outcome : Outcome) : Option State :=
  match setup.call call, state.phases call with
  | .completeDirectUpload session, .notStarted =>
    if outcome ≠ .answered ∨ state.rows session.key ≠ none then
      some (state.goTo call .finished)
    else if session.multipart then some (state.goTo call .mergingParts)
    else if state.objects session.key = none then some (state.goTo call .finished)
    else some (state.goTo call .completing)
  | _, _ => none

def mergeParts (bytes : Bytes) (outcome : Outcome) : Option State :=
  match setup.call call, state.phases call with
  | .completeDirectUpload session, .mergingParts =>
    let merged := if outcome.takesEffect then state.writeObject session.key bytes else state
    some (merged.goTo call (if outcome = Outcome.answered then .completing else .finished))
  | _, _ => none

-- The full hash that was declared, or else the partial one, is taken for the file's.
def UploadSession.declaredSha256 (session : UploadSession) : Option String :=
  session.fullSha256.or session.headTailSha256

def persistDirectUpload (remembered : Bool) (outcome : Outcome) : Option State :=
  match setup.call call, state.phases call with
  | .completeDirectUpload session, .completing =>
    if state.claimed session.key then none
    else
      let asset := newAsset setup state session.userId session.declaredSha256
        session.messageManaged
      let written := if outcome.takesEffect then state.upsert session.key asset else state
      if outcome = Outcome.answered then
        some ((if remembered then written.remember session.key asset else written).goTo call
          (saved setup call session.key asset .registered))
      else some (written.goTo call .finished)
  | _, _ => none

-- An aborted or expired upload is released unless its file is registered.
def loadUnregistered (outcome : Outcome) : Option State :=
  match setup.call call, state.phases call with
  | .releaseUpload session, .notStarted =>
    some (state.goTo call
      (if outcome = Outcome.answered ∧ state.rows session.key = none then .releasing
      else .finished))
  | _, _ => none

def release (outcome : Outcome) : Option State :=
  match setup.call call, state.phases call with
  | .releaseUpload session, .releasing =>
    some ((if outcome.takesEffect then state.dropObject session.key .release else state).goTo call
      .finished)
  | _, _ => none

end DirectUploads

section Deletions

-- `delete_media_file` starts with the metadata in the cache, or that of the row.
def loadMetadata (remembered : Bool) (outcome : Outcome) : Option State :=
  match setup.call call, state.phases call with
  | .deleteMediaFile key ownerId, .notStarted =>
    if outcome ≠ .answered then some (state.goTo call .finished)
    else
      match (state.cache key).or (state.rows key) with
      | none => some (state.goTo call .finished)
      | some asset =>
        let cached := if remembered then state.remember key asset else state
        some (cached.goTo call
          (if asset.ownerId ≠ some ownerId then .finished
          else if asset.lifecycle.referenceCount > 1 then .deletingReference key asset
          else .deletingObject))
  | _, _ => none

-- The references that are left are counted, or one is taken off the copy.
def deleteReference (count : Nat) : Option State :=
  match state.phases call with
  | .deletingReference key asset =>
    some (state.goTo call (.savingMetadata key
      { asset with
        lifecycle := { asset.lifecycle with
          referenceCount := count }.applyReferenceLifecycle (state.graceEnd setup) }
      .dereferenced))
  | _ => none

-- Every failure from here on is passed over.
def deleteObject (outcome : Outcome) : Option State :=
  match setup.call call, state.phases call with
  | .deleteMediaFile key _, .deletingObject =>
    some ((if outcome.takesEffect then state.dropObject key .deletion else state).goTo call
      .deletingRow)
  | _, _ => none

def deleteRow (outcome : Outcome) : Option State :=
  match setup.call call, state.phases call with
  | .deleteMediaFile key _, .deletingRow =>
    if state.claimed key then none
    else
      some ((if outcome.takesEffect then state.dropRow key else state).goTo call .finished)
  | _, _ => none

-- A cleanup claims an orphan in a transaction that stays open until the object is deleted.
def claim (before : Nat) (outcome : Outcome) : Option State :=
  match setup.call call, state.phases call with
  | .cleanupOrphanedAssets key, .notStarted =>
    if state.claimed key ∨ state.now < before then none
    else if outcome = .answered ∧ (state.rows key).any (·.lifecycle.isOrphaned before) then
      some ((state.setClaimed key true).goTo call .deletingClaimed)
    else some (state.goTo call .finished)
  | _, _ => none

-- An object that could not be deleted drops the claim.
def deleteClaimed (outcome : Outcome) : Option State :=
  match setup.call call, state.phases call with
  | .cleanupOrphanedAssets key, .deletingClaimed =>
    let deleted := if outcome.takesEffect then state.dropObject key .cleanup else state
    if outcome = Outcome.answered then some (deleted.goTo call .committing)
    else some ((deleted.setClaimed key false).goTo call .finished)
  | _, _ => none

def commit (outcome : Outcome) : Option State :=
  match setup.call call, state.phases call with
  | .cleanupOrphanedAssets key, .committing =>
    let committed := if outcome.takesEffect then state.dropRow key else state
    some ((committed.setClaimed key false).goTo call .finished)
  | _, _ => none

end Deletions

def forget (key : FileKey) : State :=
  { state with cache := Function.update state.cache key none }

def step (setup : Setup) (state : State) : Action → Option State
  | .tick => some { state with now := state.now + 1 }
  | .forget key => some (forget state key)
  | .putByClient call bytes => putByClient setup state call bytes
  | .loadByHash call found outcome => loadByHash setup state call found outcome
  | .putObject call outcome => putObject setup state call outcome
  | .beginCompletion call outcome => beginCompletion setup state call outcome
  | .mergeParts call bytes outcome => mergeParts setup state call bytes outcome
  | .persistDirectUpload call remembered outcome =>
    persistDirectUpload setup state call remembered outcome
  | .createReference call present outcome => createReference setup state call present outcome
  | .countReferences call count outcome => countReferences setup state call count outcome
  | .saveMetadata call remembered outcome => saveMetadata setup state call remembered outcome
  | .answer call remembered => answer state call remembered
  | .loadMetadata call remembered outcome => loadMetadata setup state call remembered outcome
  | .deleteReference call count => deleteReference setup state call count
  | .deleteObject call outcome => deleteObject setup state call outcome
  | .deleteRow call outcome => deleteRow setup state call outcome
  | .claim call before outcome => claim setup state call before outcome
  | .deleteClaimed call outcome => deleteClaimed setup state call outcome
  | .commit call outcome => commit setup state call outcome
  | .loadUnregistered call outcome => loadUnregistered setup state call outcome
  | .release call outcome => release setup state call outcome

end FlareIm.MediaDedup
