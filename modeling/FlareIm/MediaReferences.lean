import FlareIm.Lib.RoundTrip
import FlareIm.Lib.Transition
import Mathlib.Logic.Function.Basic

namespace FlareIm.MediaReferences

open RoundTrip Transition

section Assets

inductive MediaAssetStatus where
  | pending
  | active
  | softDeleted
  deriving DecidableEq

-- What the reference operations read and write of a file's metadata. `messageManaged` is what
-- `is_message_managed_asset` finds in the metadata keys; a stored file always has a lifecycle scope.
structure MediaFileMetadata where
  referenceCount : Nat
  status : MediaAssetStatus
  graceExpiresAt : Option Nat
  messageManaged : Bool
  deriving DecidableEq

structure MediaReferenceScope where
  namespace_ : String
  ownerId : String
  businessTag : Option String
  deriving DecidableEq

structure MediaReference where
  referenceId : String
  scope : MediaReferenceScope
  deriving DecidableEq

-- A scope that is not a message's sets a lifecycle scope only where there is none yet.
def MediaFileMetadata.stampLifecycleScope (metadata : MediaFileMetadata) (messageManaged : Bool) :
    MediaFileMetadata :=
  { metadata with messageManaged := metadata.messageManaged || messageManaged }

def initialLifecycleState (messageManaged : Bool) (graceExpiresAt : Nat) : MediaFileMetadata :=
  if messageManaged then ⟨0, .pending, some graceExpiresAt, messageManaged⟩
  else ⟨1, .active, none, messageManaged⟩

def MediaFileMetadata.applyReferenceLifecycle (metadata : MediaFileMetadata)
    (graceExpiresAt : Nat) : MediaFileMetadata :=
  if metadata.referenceCount > 0 then { metadata with status := .active, graceExpiresAt := none }
  else if metadata.messageManaged then
    { metadata with status := .pending, graceExpiresAt := some graceExpiresAt }
  else { metadata with status := .active, graceExpiresAt := none }

def canReuseHashMatch (existing : MediaFileMetadata) (messageManaged : Bool) : Bool :=
  messageManaged || !existing.messageManaged || existing.referenceCount > 0

-- The filter of the orphan listing and of the claim.
def MediaFileMetadata.isOrphaned (metadata : MediaFileMetadata) (before : Nat) : Bool :=
  metadata.referenceCount == 0 && metadata.status == .pending &&
    metadata.graceExpiresAt.any (· ≤ before)

end Assets

section Calls

-- A store call for a message carries the scope of the reference it makes.
inductive Call where
  | storeMediaFile (scope : Option MediaReferenceScope)
  | addReference (scope : MediaReferenceScope) (messageManaged : Bool)
  | removeReference (referenceId : Option String)
  | deleteMediaFile
  | cleanupOrphanedAssets
  deriving DecidableEq

-- The calls about one file. The file's id is made up by one of the store calls, its creator; the
-- others concern the file only where its row matches their hash.
structure Setup where
  call : Nat → Call
  creator : Nat
  orphanGraceSeconds : Nat
  deterministicReferenceId : MediaReferenceScope → String

-- Where a call stands, with its own copy of the metadata.
inductive Phase where
  | notStarted
  | loadingMetadata
  | cachingLoaded (metadata : MediaFileMetadata)
  | authorizing (metadata : MediaFileMetadata)
  | puttingObject
  | checkingReference (metadata : MediaFileMetadata)
  | creatingReference (metadata : MediaFileMetadata)
  | deletingReference (metadata : MediaFileMetadata)
  | countingReferences (metadata : MediaFileMetadata)
  | savingMetadata (metadata : MediaFileMetadata) (first : Bool)
  | cachingMetadata (metadata : MediaFileMetadata) (first : Bool)
  | cachingExisting (metadata : MediaFileMetadata)
  | deletingObject
  | deletingReferences
  | deletingMetadataReferences
  | deletingMetadataRow
  | claiming (before : Nat)
  | deletingClaimed
  | committing
  | invalidating
  | finished
  deriving DecidableEq

-- An object deleted by a cleanup or a delete call, with the references the file had then.
structure Deletion where
  byCleanup : Bool
  references : Nat

structure State where
  now : Nat
  row : Option MediaFileMetadata
  references : List MediaReference
  -- the cleanup whose open transaction has deleted the row
  claimed : Option Nat
  cache : Option MediaFileMetadata
  object : Bool
  phases : Nat → Phase
  -- how many references each removal without an id took, and the objects deleted
  anyRemovals : List Nat
  deletions : List Deletion

def initial : State where
  now := 0
  row := none
  references := []
  claimed := none
  cache := none
  object := false
  phases _ := .notStarted
  anyRemovals := []
  deletions := []

def State.setCall (state : State) (call : Nat) (phase : Phase) : State :=
  { state with phases := Function.update state.phases call phase }

-- A row an open transaction has deleted is on its way out.
def State.registered (state : State) : Option MediaFileMetadata :=
  if state.claimed.isSome then none else state.row

def State.graceEnd (setup : Setup) (state : State) : Nat :=
  state.now + setup.orphanGraceSeconds

inductive Action where
  | tick
  | evict
  | loadByHash (call : Nat) (found sameOwner : Bool) (outcome : Outcome)
  | putObject (call : Nat) (outcome : Outcome)
  | getCached (call : Nat) (outcome : Outcome)
  | loadMetadata (call : Nat) (outcome : Outcome)
  | cacheLoaded (call : Nat) (outcome : Outcome)
  | authorize (call : Nat) (allowed : Bool)
  | checkReference (call : Nat) (outcome : Outcome)
  | createReference (call : Nat) (outcome : Outcome)
  | deleteReference (call : Nat) (elsewhere : Bool) (outcome : Outcome)
  | countReferences (call : Nat) (outcome : Outcome)
  | saveMetadata (call : Nat) (outcome : Outcome)
  | cacheMetadata (call : Nat) (outcome : Outcome)
  | deleteObject (call : Nat) (outcome : Outcome)
  | deleteAllReferences (call : Nat) (outcome : Outcome)
  | deleteMetadataReferences (call : Nat) (outcome : Outcome)
  | deleteMetadataRow (call : Nat) (outcome : Outcome)
  | listOrphaned (call : Nat) (outcome : Outcome)
  | claim (call : Nat) (outcome : Outcome)
  | deleteClaimed (call : Nat) (outcome : Outcome)
  | commit (call : Nat) (outcome : Outcome)
  | invalidate (call : Nat) (outcome : Outcome)

end Calls

section Steps

variable (setup : Setup) (state : State) (call : Nat)

-- The metadata a call writes back once it has seen to the references.
def prepared (metadata : MediaFileMetadata) : MediaFileMetadata :=
  match setup.call call with
  | .addReference _ messageManaged =>
    (metadata.stampLifecycleScope messageManaged).applyReferenceLifecycle (state.graceEnd setup)
  | _ => metadata.applyReferenceLifecycle (state.graceEnd setup)

-- A store call looks for a file of the same hash. It may find another file, or none: then it
-- stores a file of its own, which is this one for the creator.
def storeAnew : Phase :=
  if call = setup.creator then .puttingObject else .finished

def reuse (scope : Option MediaReferenceScope) (existing : MediaFileMetadata) : Phase :=
  match scope with
  | some _ => .creatingReference existing
  | none =>
    if existing.messageManaged then .cachingExisting existing
    else .savingMetadata { existing with status := .active, graceExpiresAt := none } false

def loadByHash (found sameOwner : Bool) (outcome : Outcome) : Option State :=
  match setup.call call, state.phases call with
  | .storeMediaFile scope, .notStarted =>
    if outcome ≠ .answered then some (state.setCall call .finished)
    else
      match state.row with
      | some existing =>
        if found ∧ existing.status ≠ .softDeleted ∧ canReuseHashMatch existing scope.isSome ∧
            sameOwner then
          some (state.setCall call (reuse scope existing))
        else some (state.setCall call (storeAnew setup call))
      | none => some (state.setCall call (storeAnew setup call))
  | _, _ => none

def putObject (outcome : Outcome) : Option State :=
  match setup.call call, state.phases call with
  | .storeMediaFile scope, .puttingObject =>
    some ({ state with object := state.object || outcome.takesEffect }.setCall call
      (if outcome = Outcome.answered then
        .savingMetadata (initialLifecycleState scope.isSome (state.graceEnd setup)) true
      else .finished))
  | _, _ => none

-- The calls that start with `get_metadata`.
def Call.readsMetadata : Call → Bool
  | .addReference _ _ | .removeReference _ | .deleteMediaFile => true
  | .storeMediaFile _ | .cleanupOrphanedAssets => false

def getCached (outcome : Outcome) : Option State :=
  if (setup.call call).readsMetadata ∧ state.phases call = .notStarted then
    if outcome ≠ .answered then some (state.setCall call .finished)
    else
      match state.cache with
      | some metadata => some (state.setCall call (.authorizing metadata))
      | none => some (state.setCall call .loadingMetadata)
  else none

def loadMetadata (outcome : Outcome) : Option State :=
  match state.phases call with
  | .loadingMetadata =>
    match state.row with
    | some metadata =>
      some (state.setCall call
        (if outcome = Outcome.answered then .cachingLoaded metadata else .finished))
    | none => some (state.setCall call .finished)
  | _ => none

-- A cache that cannot be written is passed over.
def cacheLoaded (outcome : Outcome) : Option State :=
  match state.phases call with
  | .cachingLoaded metadata =>
    some ({ state with cache := if outcome.takesEffect then some metadata else state.cache }.setCall
      call (.authorizing metadata))
  | _ => none

def authorized (metadata : MediaFileMetadata) : Phase :=
  match setup.call call with
  | .addReference _ _ => .checkingReference metadata
  | .removeReference _ => .deletingReference metadata
  | .deleteMediaFile =>
    if metadata.referenceCount > 1 then .deletingReference metadata else .deletingObject
  | .storeMediaFile _ | .cleanupOrphanedAssets => .finished

def authorize (allowed : Bool) : Option State :=
  match state.phases call with
  | .authorizing metadata =>
    some (state.setCall call (if allowed then authorized setup call metadata else .finished))
  | _ => none

def checkReference (outcome : Outcome) : Option State :=
  match setup.call call, state.phases call with
  | .addReference scope _, .checkingReference metadata =>
    some (state.setCall call
      (if outcome ≠ .answered ∨ (state.references.any (·.scope = scope)) then .finished
      else .creatingReference metadata))
  | _, _ => none

def Call.scope : Call → Option MediaReferenceScope
  | .storeMediaFile scope => scope
  | .addReference scope _ => some scope
  | .removeReference _ | .deleteMediaFile | .cleanupOrphanedAssets => none

-- The row is locked first, so a cleanup that has claimed it is waited for.
def createReference (outcome : Outcome) : Option State :=
  match (setup.call call).scope, state.phases call with
  | some scope, .creatingReference metadata =>
    let reference : MediaReference := ⟨setup.deterministicReferenceId scope, scope⟩
    if state.claimed.isSome then none
    else if outcome = .failed ∨ state.row = none then some (state.setCall call .finished)
    else if state.references.any (·.referenceId = reference.referenceId) then
      some (state.setCall call (if outcome = Outcome.answered then
        .savingMetadata (prepared setup state call metadata) false else .finished))
    else
      some ({ state with references := reference :: state.references }.setCall call
        (if outcome = Outcome.answered then .countingReferences metadata else .finished))
  | _, _ => none

-- By its id the statement takes a reference of any file of the tenant; without one it takes every
-- reference of the file and answers the first.
def kept (referenceId : Option String) (references : List MediaReference) : List MediaReference :=
  match referenceId with
  | some referenceId => references.filter (·.referenceId ≠ referenceId)
  | none => []

def noted (referenceId : Option String) (references : List MediaReference) (removals : List Nat) :
    List Nat :=
  match referenceId with
  | some _ => removals
  | none => references.length :: removals

def deleteReference (elsewhere : Bool) (outcome : Outcome) : Option State :=
  match setup.call call, state.phases call with
  | .removeReference referenceId, .deletingReference metadata =>
    if outcome = .failed then some (state.setCall call .finished)
    else
      some ({ state with
        references := kept referenceId state.references
        anyRemovals := noted referenceId state.references state.anyRemovals }.setCall call
          (if outcome = Outcome.lost then .finished
          else if kept referenceId state.references ≠ state.references ∨
              referenceId.isSome ∧ elsewhere then .countingReferences metadata
          else .savingMetadata (prepared setup state call metadata) false))
  | .deleteMediaFile, .deletingReference metadata =>
    if outcome = .failed then some (state.setCall call (.countingReferences metadata))
    else
      some ({ state with
        references := kept none state.references
        anyRemovals := noted none state.references state.anyRemovals }.setCall call
          (.countingReferences metadata))
  | _, _ => none

-- A delete call that cannot count takes one off its own copy.
def countReferences (outcome : Outcome) : Option State :=
  match state.phases call with
  | .countingReferences metadata =>
    if outcome = .answered then
      some (state.setCall call (.savingMetadata (prepared setup state call
        { metadata with referenceCount := state.references.length }) false))
    else if setup.call call = .deleteMediaFile then
      some (state.setCall call (.savingMetadata (prepared setup state call
        { metadata with referenceCount := metadata.referenceCount - 1 }) false))
    else some (state.setCall call .finished)
  | _ => none

-- The upsert waits for a cleanup that has claimed the row, and inserts the row if it is gone.
def saveMetadata (outcome : Outcome) : Option State :=
  match state.phases call with
  | .savingMetadata metadata first =>
    if state.claimed.isSome then none
    else
      some ({ state with
        row := if outcome.takesEffect then some metadata else state.row }.setCall call
          (if outcome = Outcome.answered then .cachingMetadata metadata first else .finished))
  | _ => none

def cached (metadata : MediaFileMetadata) (first : Bool) : Phase :=
  match setup.call call with
  | .storeMediaFile scope =>
    if first then if scope.isSome then .creatingReference metadata else .finished
    else if call = setup.creator then .finished else .cachingExisting metadata
  | _ => .finished

def cacheMetadata (outcome : Outcome) : Option State :=
  match state.phases call with
  | .cachingMetadata metadata first =>
    some ({ state with cache := if outcome.takesEffect then some metadata else state.cache }.setCall
      call (cached setup call metadata first))
  | .cachingExisting metadata =>
    some ({ state with cache := if outcome.takesEffect then some metadata else state.cache }.setCall
      call .finished)
  | _ => none

end Steps

section Deletion

variable (setup : Setup) (state : State) (call : Nat)

def State.dropObject (byCleanup : Bool) : State :=
  { state with
    object := false
    deletions := if state.object then ⟨byCleanup, state.references.length⟩ :: state.deletions
      else state.deletions }

-- `delete_media_file` passes over every failure from here on.
def deleteObject (outcome : Outcome) : Option State :=
  match state.phases call with
  | .deletingObject =>
    some ((if outcome.takesEffect then state.dropObject false else state).setCall call
      .deletingReferences)
  | _ => none

def deleteAllReferences (outcome : Outcome) : Option State :=
  match state.phases call with
  | .deletingReferences =>
    some ({ state with
      references := if outcome.takesEffect then [] else state.references }.setCall call
        .deletingMetadataReferences)
  | _ => none

def deleteMetadataReferences (outcome : Outcome) : Option State :=
  match state.phases call with
  | .deletingMetadataReferences =>
    some ({ state with
      references := if outcome.takesEffect then [] else state.references }.setCall call
        (if outcome = Outcome.answered then .deletingMetadataRow else .invalidating))
  | _ => none

-- The references of a row go with it.
def deleteMetadataRow (outcome : Outcome) : Option State :=
  match state.phases call with
  | .deletingMetadataRow =>
    if state.claimed.isSome then none
    else if outcome.takesEffect then
      some ({ state with row := none, references := [] }.setCall call .invalidating)
    else some (state.setCall call .invalidating)
  | _ => none

def listOrphaned (outcome : Outcome) : Option State :=
  match setup.call call, state.phases call with
  | .cleanupOrphanedAssets, .notStarted =>
    some (state.setCall call
      (if outcome = Outcome.answered ∧
          state.row.any fun row => row.isOrphaned state.now && row.messageManaged then
        .claiming state.now
      else .finished))
  | _, _ => none

-- One transaction locks the row, looks at it again and deletes it unless it has references. It
-- stays open until the object is deleted.
def claim (outcome : Outcome) : Option State :=
  match state.phases call with
  | .claiming before =>
    if state.claimed.isSome then none
    else if outcome = .answered ∧ state.row.any (·.isOrphaned before) ∧ state.references = [] then
      some ({ state with claimed := some call }.setCall call .deletingClaimed)
    else some (state.setCall call .finished)
  | _ => none

-- An object that could not be deleted drops the claim.
def deleteClaimed (outcome : Outcome) : Option State :=
  match state.phases call with
  | .deletingClaimed =>
    let deleted := if outcome.takesEffect then state.dropObject true else state
    if outcome = Outcome.answered then some (deleted.setCall call .committing)
    else some ({ deleted with claimed := none }.setCall call .finished)
  | _ => none

def commit (outcome : Outcome) : Option State :=
  match state.phases call with
  | .committing =>
    if outcome.takesEffect then
      some ({ state with row := none, references := [], claimed := none }.setCall call
        (if outcome = Outcome.answered then .invalidating else .finished))
    else some ({ state with claimed := none }.setCall call .finished)
  | _ => none

def invalidate (outcome : Outcome) : Option State :=
  match state.phases call with
  | .invalidating =>
    some ({ state with cache := if outcome.takesEffect then none else state.cache }.setCall call
      .finished)
  | _ => none

end Deletion

def step (setup : Setup) (state : State) : Action → Option State
  | .tick => some { state with now := state.now + 1 }
  | .evict => some { state with cache := none }
  | .loadByHash call found sameOwner outcome => loadByHash setup state call found sameOwner outcome
  | .putObject call outcome => putObject setup state call outcome
  | .getCached call outcome => getCached setup state call outcome
  | .loadMetadata call outcome => loadMetadata state call outcome
  | .cacheLoaded call outcome => cacheLoaded state call outcome
  | .authorize call allowed => authorize setup state call allowed
  | .checkReference call outcome => checkReference setup state call outcome
  | .createReference call outcome => createReference setup state call outcome
  | .deleteReference call elsewhere outcome => deleteReference setup state call elsewhere outcome
  | .countReferences call outcome => countReferences setup state call outcome
  | .saveMetadata call outcome => saveMetadata state call outcome
  | .cacheMetadata call outcome => cacheMetadata setup state call outcome
  | .deleteObject call outcome => deleteObject state call outcome
  | .deleteAllReferences call outcome => deleteAllReferences state call outcome
  | .deleteMetadataReferences call outcome => deleteMetadataReferences state call outcome
  | .deleteMetadataRow call outcome => deleteMetadataRow state call outcome
  | .listOrphaned call outcome => listOrphaned setup state call outcome
  | .claim call outcome => claim state call outcome
  | .deleteClaimed call outcome => deleteClaimed state call outcome
  | .commit call outcome => commit state call outcome
  | .invalidate call outcome => invalidate state call outcome

end FlareIm.MediaReferences
