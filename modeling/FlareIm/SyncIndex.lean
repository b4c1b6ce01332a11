import FlareIm.Context
import FlareIm.Lib.Keyed
import FlareIm.Lib.Listing
import FlareIm.Lib.Transition

namespace FlareIm.SyncIndex

open Text Context Keyed

-- The hash both scripts write for a conversation.
structure ConversationState where
  conversationId : String
  maxConversationSeq : Nat
  version : Nat
  updatedAtMs : Int

inductive Value where
  | counter (n : Nat)
  | changes (members : List (Nat × String))
  | state (fields : ConversationState)

-- One executed HSET. The journal is kept by the model only, no function reads it.
structure Write where
  key : String
  fields : ConversationState

structure Index where
  db : Store String Value
  journal : List Write

def Index.empty : Index := ⟨fun _ => none, []⟩

-- Settings of the repository. A chunk is never empty, see parse_record_change_chunk.
structure Config where
  maxChangesPerUser : Nat
  changeTtlSeconds : Nat
  chunkSize : Nat
  chunkSize_pos : 0 < chunkSize

def parseRecordChangeChunk (raw : Option Nat) : Nat :=
  (raw.filter (0 < ·)).getD 500

def Config.new (maxChangesPerUser changeTtlSeconds : Nat) (rawChunk : Option Nat) : Config where
  maxChangesPerUser := max maxChangesPerUser 1
  changeTtlSeconds := changeTtlSeconds
  chunkSize := parseRecordChangeChunk rawChunk
  chunkSize_pos := by
    unfold parseRecordChangeChunk
    cases rawChunk with
    | none => decide
    | some size => by_cases h : 0 < size <;> simp [Option.filter, h]

def versionKey (tenantId userId : String) : String :=
  "sync:user:" ++ (tenantId ++ (":" ++ (userId ++ ":version")))

def changesKey (tenantId userId : String) : String :=
  "sync:user:" ++ (tenantId ++ (":" ++ (userId ++ ":changes")))

def conversationStateKey (tenantId userId conversationId : String) : String :=
  "sync:user:" ++ (tenantId ++ (":" ++ (userId ++ (":conversation:" ++ conversationId))))

def conversationVersionKey (tenantId conversationId : String) : String :=
  "sync:conversation:" ++ (tenantId ++ (":" ++ conversationId)) ++ ":version"

def conversationSyncStateKey (tenantId conversationId : String) : String :=
  "sync:conversation:" ++ (tenantId ++ (":" ++ conversationId)) ++ ":state"

def normalizedUserIds (userIds : List String) : List String :=
  Listing.distinct ((userIds.map trim).filter (· ≠ ""))

-- INCR answers an error on a value of another type and at the largest 64-bit integer.
def incr (index : Index) (key : String) : Option (Nat × Index) :=
  match valueAt index.db key with
  | none => some (1, { index with db := write index.db key (.counter 1) })
  | some (.counter n) =>
    if n < 2 ^ 63 - 1 then
      some (n + 1, { index with db := write index.db key (.counter (n + 1)) })
    else none
  | some _ => none

def hset (index : Index) (key : String) (fields : ConversationState) : Option Index :=
  let written : Index :=
    ⟨write index.db key (.state fields), index.journal ++ [⟨key, fields⟩]⟩
  match valueAt index.db key with
  | none => some written
  | some (.state _) => some written
  | some _ => none

-- ZADD of the newest version, then ZREMRANGEBYRANK of what exceeds the kept number.
def zadd (index : Index) (key : String) (version : Nat) (conversationId : String) :
    Option Index :=
  match valueAt index.db key with
  | none => some { index with db := write index.db key (.changes [(version, conversationId)]) }
  | some (.changes members) =>
    some { index with
      db := write index.db key (.changes (members ++ [(version, conversationId)])) }
  | some _ => none

def trimChanges (index : Index) (key : String) (maxChanges : Nat) : Index :=
  match valueAt index.db key with
  | some (.changes members) =>
    { index with
      db := write index.db key (.changes (members.drop (members.length - maxChanges))) }
  | _ => index

def expire (index : Index) (key : String) : Index :=
  { index with db := setVolatile index.db key }

-- RECORD_CONVERSATION_CHANGE_SCRIPT. A failing command stops the script where it is:
-- the effects of the commands before it stay.
def recordConversationChangeScript (config : Config) (index : Index)
    (tenantId userId conversationId : String) (maxConversationSeq : Nat) (occurredAtMs : Int) :
    Index × Option Nat :=
  match incr index (versionKey tenantId userId) with
  | none => (index, none)
  | some (version, index) =>
    match zadd index (changesKey tenantId userId) version conversationId with
    | none => (index, none)
    | some index =>
      match hset index (conversationStateKey tenantId userId conversationId)
          ⟨conversationId, maxConversationSeq, version, occurredAtMs⟩ with
      | none => (index, none)
      | some index =>
        let index :=
          if 0 < config.maxChangesPerUser then
            trimChanges index (changesKey tenantId userId) config.maxChangesPerUser
          else index
        let index :=
          if 0 < config.changeTtlSeconds then
            expire (expire index (changesKey tenantId userId))
              (conversationStateKey tenantId userId conversationId)
          else index
        (index, some version)

-- RECORD_CONVERSATION_VERSION_BUMP_SCRIPT. It also gives the version key a time to live.
def recordConversationVersionBumpScript (config : Config) (index : Index)
    (tenantId conversationId : String) (maxConversationSeq : Nat) (occurredAtMs : Int) :
    Index × Option Nat :=
  match incr index (conversationVersionKey tenantId conversationId) with
  | none => (index, none)
  | some (version, index) =>
    match hset index (conversationSyncStateKey tenantId conversationId)
        ⟨conversationId, maxConversationSeq, version, occurredAtMs⟩ with
    | none => (index, none)
    | some index =>
      let index :=
        if 0 < config.changeTtlSeconds then
          expire (expire index (conversationVersionKey tenantId conversationId))
            (conversationSyncStateKey tenantId conversationId)
        else index
      (index, some version)

-- All scripts of one chunk run, also after one of them has failed.
def recordChunk (config : Config) (tenantId conversationId : String) (maxConversationSeq : Nat)
    (occurredAtMs : Int) : Index → List String → Index × Bool
  | index, [] => (index, true)
  | index, userId :: rest =>
    let (index, version) := recordConversationChangeScript config index tenantId userId
      conversationId maxConversationSeq occurredAtMs
    let (index, ok) := recordChunk config tenantId conversationId maxConversationSeq
      occurredAtMs index rest
    (index, version.isSome && ok)

-- `delivered` counts the chunks that still reach Redis, without it all of them do.
def recordChunks (config : Config) (tenantId conversationId : String) (maxConversationSeq : Nat)
    (occurredAtMs : Int) : Index → List (List String) → Option Nat → Index × Bool
  | index, [], _ => (index, true)
  | index, _ :: _, some 0 => (index, false)
  | index, chunk :: rest, delivered =>
    let (index, ok) := recordChunk config tenantId conversationId maxConversationSeq
      occurredAtMs index chunk
    if ok then
      recordChunks config tenantId conversationId maxConversationSeq occurredAtMs index rest
        (delivered.map (· - 1))
    else (index, false)

def recordConversationChange (config : Config) (index : Index) (tenantId : Option String)
    (userIds : List String) (conversationId : String) (maxConversationSeq : Nat)
    (occurredAtMs : Int) (delivered : Option Nat) : Index × Bool :=
  let conversationId := trim conversationId
  if conversationId = "" then (index, true)
  else
    let userIds := normalizedUserIds userIds
    if userIds = [] then (index, true)
    else
      match normalizeOptionalTenantId tenantId with
      | none => (index, false)
      | some tenantId =>
        recordChunks config tenantId conversationId maxConversationSeq occurredAtMs index
          (userIds.toChunks config.chunkSize) delivered

-- How far a single script call gets: not to Redis, to Redis but not back, or both ways.
inductive Reach where
  | refused
  | unanswered
  | answered
  deriving DecidableEq

def recordConversationVersionBump (config : Config) (index : Index) (tenantId : Option String)
    (conversationId : String) (maxConversationSeq : Nat) (occurredAtMs : Int)
    (reach : Reach) : Index × Option Nat :=
  let conversationId := trim conversationId
  if conversationId = "" then (index, some 0)
  else
    match normalizeOptionalTenantId tenantId with
    | none => (index, none)
    | some tenantId =>
      let ran := recordConversationVersionBumpScript config index tenantId conversationId
        maxConversationSeq occurredAtMs
      match reach with
      | .refused => (index, none)
      | .unanswered => (ran.1, none)
      | .answered => ran

structure ConversationChange where
  conversationId : String
  version : Nat
  maxConversationSeq : Nat
  occurredAtMs : Int

-- The largest version given for each conversation, ordered by conversation.
def normalizedKnownConversationVersions (known : List (String × Nat)) : List (String × Nat) :=
  let conversations := Listing.distinct ((known.map fun entry => trim entry.1).filter (· ≠ ""))
  conversations.map fun conversationId =>
    (conversationId, ((known.filter fun entry => trim entry.1 = conversationId).map
      (·.2)).foldl max 0)

def conversationChangeFromState (conversationId : String) (knownVersion : Nat)
    (state : Option ConversationState) : Option ConversationChange :=
  match state with
  | none => none
  | some state =>
    if state.version ≤ knownVersion then none
    else
      let stored := trim state.conversationId
      some ⟨if stored = "" then conversationId else stored, state.version,
        state.maxConversationSeq, state.updatedAtMs⟩

def stateAt (index : Index) (key : String) : Option ConversationState :=
  match valueAt index.db key with
  | some (.state fields) => some fields
  | _ => none

-- Nothing is answered for conversations the client did not name.
def diffChangedConversations (index : Index) (tenantId : Option String)
    (known : List (String × Nat)) : Option (List ConversationChange) :=
  let known := normalizedKnownConversationVersions known
  if known = [] then some []
  else
    (normalizeOptionalTenantId tenantId).map fun tenantId =>
      known.filterMap fun entry =>
        conversationChangeFromState entry.1 entry.2
          (stateAt index (conversationSyncStateKey tenantId entry.1))

end FlareIm.SyncIndex
