import FlareIm.SyncIndex

namespace FlareIm.SyncCompensation

open Text Context SyncIndex

inductive UserSyncCompensationKind where
  | eagerUserChanges
  | conversationVersionBump
  deriving DecidableEq

structure UserSyncCompensationTask where
  taskId : String
  tenantId : String
  kind : UserSyncCompensationKind
  userIds : List String
  conversationId : String
  maxConversationSeq : Nat
  occurredAtMs : Int
  dueAtMs : Int
  attempts : Nat
  lastError : Option String
  deriving DecidableEq

def UserSyncCompensationKind.label : UserSyncCompensationKind → String
  | .eagerUserChanges => "eager"
  | .conversationVersionBump => "conversation_version"

def UserSyncCompensationTask.new (tenantId : String) (kind : UserSyncCompensationKind)
    (userIds : List String) (conversationId : String) (maxConversationSeq : Nat)
    (occurredAtMs dueAtMs : Int) : UserSyncCompensationTask where
  taskId := tenantId ++ ":" ++ kind.label ++ ":" ++ conversationId ++ ":" ++
    toString maxConversationSeq
  tenantId := tenantId
  kind := kind
  userIds := userIds
  conversationId := conversationId
  maxConversationSeq := maxConversationSeq
  occurredAtMs := occurredAtMs
  dueAtMs := dueAtMs
  attempts := 0
  lastError := none

def eagerUserChanges (tenantId : Option String) (userIds : List String) (conversationId : String)
    (maxConversationSeq : Nat) (occurredAtMs dueAtMs : Int) : Option UserSyncCompensationTask :=
  let conversationId := trim conversationId
  if conversationId = "" then none
  else
    let userIds := normalizedUserIds userIds
    if userIds = [] then none
    else
      (normalizeOptionalTenantId tenantId).map fun tenantId =>
        .new tenantId .eagerUserChanges userIds conversationId maxConversationSeq occurredAtMs
          dueAtMs

def conversationVersionBump (tenantId : Option String) (conversationId : String)
    (maxConversationSeq : Nat) (occurredAtMs dueAtMs : Int) : Option UserSyncCompensationTask :=
  let conversationId := trim conversationId
  if conversationId = "" then none
  else
    (normalizeOptionalTenantId tenantId).map fun tenantId =>
      .new tenantId .conversationVersionBump [] conversationId maxConversationSeq occurredAtMs
        dueAtMs

-- The pending tasks, stored under their identifiers: a task replaces one of the same name.
abbrev Queue := List UserSyncCompensationTask

def enqueue (queue : Queue) (task : UserSyncCompensationTask) : Queue :=
  queue.filter (·.taskId ≠ task.taskId) ++ [task]

-- How a call to the index fares: for one script, and for the chunks of many.
structure IndexFault where
  reach : Reach
  delivered : Option Nat

def replayTask (config : Config) (index : Index) (task : UserSyncCompensationTask)
    (fault : IndexFault) : Index × Bool :=
  match task.kind with
  | .eagerUserChanges =>
    recordConversationChange config index (some task.tenantId) task.userIds task.conversationId
      task.maxConversationSeq task.occurredAtMs fault.delivered
  | .conversationVersionBump =>
    let (index, version) := recordConversationVersionBump config index (some task.tenantId)
      task.conversationId task.maxConversationSeq task.occurredAtMs fault.reach
    (index, version.isSome)

-- The two fan-outs that update the index, with the fields they pass on.
inductive Fanout where
  | message (conversationId : String) (conversationSeq : Nat) (createdAt : Int)
      (recipientUserIds : List String) (largeConversation : Bool)
  | event (conversationId : String) (conversationSeq : Nat) (createdAt : Int)
      (recipientUserIds : List String)

-- The first byte is a one-byte character exactly when it is one of these digits.
def isMemberBasedConversation (conversationId : String) : Bool :=
  match (trim conversationId).toList.head? with
  | some c => c == '2' || c == '3' || c == '4' || c == '5' || c == '7' || c == '8'
  | none => false

def updateIndex (config : Config) (index : Index) (tenantId : Option String)
    (fault : IndexFault) : Fanout → Index × Bool
  | .message conversationId seq createdAt recipients largeConversation =>
    if largeConversation then
      let (index, version) := recordConversationVersionBump config index tenantId conversationId
        seq createdAt fault.reach
      (index, version.isSome)
    else
      recordConversationChange config index tenantId recipients conversationId seq createdAt
        fault.delivered
  | .event conversationId seq createdAt recipients =>
    if isMemberBasedConversation conversationId then
      let (index, version) := recordConversationVersionBump config index tenantId conversationId
        seq createdAt fault.reach
      (index, version.isSome)
    else
      recordConversationChange config index tenantId recipients conversationId seq createdAt
        fault.delivered

-- The event path knows only one kind of task.
def compensationTask (tenantId : Option String) (dueAtMs : Int) :
    Fanout → Option UserSyncCompensationTask
  | .message conversationId seq createdAt recipients largeConversation =>
    if largeConversation then
      conversationVersionBump tenantId conversationId seq createdAt dueAtMs
    else eagerUserChanges tenantId recipients conversationId seq createdAt dueAtMs
  | .event conversationId seq createdAt recipients =>
    eagerUserChanges tenantId recipients conversationId seq createdAt dueAtMs

-- What surrounds a fan-out: which repositories are there and which of their calls succeed.
structure Env where
  persisted : Bool
  indexed : Bool
  fault : IndexFault
  compensated : Bool
  enqueued : Bool
  pushed : Bool
  nowMs : Int

structure Outcome where
  index : Index
  indexFailed : Bool
  queue : Queue
  ok : Bool

-- persist_and_push_with_recipients. Publishing for storage needs a tenant in the context,
-- so the index is not reached without one.
def persistAndPushWithRecipients (config : Config) (env : Env) (tenantId : Option String)
    (index : Index) (queue : Queue) (fanout : Fanout) : Outcome :=
  if (normalizeOptionalTenantId tenantId).isNone || !env.persisted then ⟨index, false, queue, false⟩
  else if !env.indexed then ⟨index, false, queue, env.pushed⟩
  else
    let (index, ok) := updateIndex config index tenantId env.fault fanout
    if ok then ⟨index, false, queue, env.pushed⟩
    else
      let queue :=
        if env.compensated && env.enqueued then
          match compensationTask tenantId env.nowMs fanout with
          | some task => enqueue queue task
          | none => queue
        else queue
      ⟨index, true, queue, env.pushed⟩

end FlareIm.SyncCompensation
