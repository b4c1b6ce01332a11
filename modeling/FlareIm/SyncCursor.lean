import FlareIm.EventRow
import FlareIm.Lib.FifoMap

namespace FlareIm.SyncCursor

open Text EventRow

structure MultiDeviceCursor where
  deviceId : String := ""
  conversationId : String
  lastConversationSeq : Nat
  lastSyncAt : Int := 0
  lastReadSeq : Nat := 0
  lastMessageSeq : Nat := 0
  deriving DecidableEq

-- The summary of a conversation as the conversation service lists it for its reader.
structure ConversationSummary where
  maxConversationSeq : UInt64
  lastReadSeq : Nat := 0
  updatedAt : Int := 0

structure ConversationVersion where
  conversationId : String
  version : Nat
  maxConversationSeq : Nat := 0
  updatedAt : Int := 0
  deriving DecidableEq

structure GetSyncCursorSync where
  conversationId : String
  deviceId : String := ""
  knownConversationVersions : List ConversationVersion := []

structure UpdateSyncCursorSync where
  cursor : Option MultiDeviceCursor

section Policy

def mergeCursorMonotonic (previousLastSeq : Option Int) (newLastSeq : Int) : Int :=
  match previousLastSeq with
  | some previous => max newLastSeq previous
  | none => newLastSeq

-- The cursor an update writes to the store and to the cache.
def mergedCursor (previous : Option MultiDeviceCursor) (cursor : MultiDeviceCursor) :
    MultiDeviceCursor where
  deviceId := cursor.deviceId
  conversationId := cursor.conversationId
  lastConversationSeq := asU64 (mergeCursorMonotonic
    (previous.map fun previous => asI64 previous.lastConversationSeq)
    (asI64 cursor.lastConversationSeq))
  lastSyncAt := max cursor.lastSyncAt ((previous.map (·.lastSyncAt)).getD 0)
  lastReadSeq := max cursor.lastReadSeq ((previous.map (·.lastReadSeq)).getD 0)
  lastMessageSeq := max cursor.lastMessageSeq ((previous.map (·.lastMessageSeq)).getD 0)

-- The hints on conversations whose version the client does not know, when the index answers.
def conversationVersionHints (known : List ConversationVersion)
    (changes : Option (List ConversationVersion)) : Option (List ConversationVersion) :=
  if (known.filter fun version => !isBlank version.conversationId).isEmpty then none
  else changes.filter fun changes => !changes.isEmpty

end Policy

section Store

-- A row of user_sync_cursor.
structure CursorRow where
  lastSyncedSeq : Int
  lastSyncedTs : Int

def CONVERSATION_LIST : String := "__conversations__"

-- Tenant, user and conversation.
abbrev RowKey := String × String × String

abbrev Rows := RowKey → Option CursorRow

-- The cursor of the conversation list is a time, that of a conversation a sequence number.
def updatedRow (conversationId : String) (row : Option CursorRow) (syncSeq now : Int) : CursorRow :=
  if conversationId = CONVERSATION_LIST then
    { lastSyncedSeq := 0
      lastSyncedTs := match row with
        | none => syncSeq
        | some row => max row.lastSyncedTs syncSeq }
  else
    match row with
    | none => ⟨syncSeq, now⟩
    | some row => ⟨max row.lastSyncedSeq syncSeq, max row.lastSyncedTs now⟩

-- A time that is too small for one is a sequence number of an earlier format.
def syncCursor (conversationId : String) (row : CursorRow) : Int :=
  if conversationId = CONVERSATION_LIST then row.lastSyncedTs
  else max row.lastSyncedSeq (if row.lastSyncedTs < 10 ^ 12 then row.lastSyncedTs else 0)

-- The cursor a call finds in the conversation service: that of the row, or else the tail of the
-- conversation.
def bootstrapCursor (request : GetSyncCursorSync) (row : Option CursorRow)
    (summary : Option ConversationSummary) : Option MultiDeviceCursor :=
  let stored := row.map (syncCursor request.conversationId)
  let tail := summary.map fun summary => asI64 summary.maxConversationSeq.toNat
  ((stored.or tail).filter (0 < ·)).map fun seq =>
    { deviceId := request.deviceId
      conversationId := request.conversationId
      lastConversationSeq := seq.toNat
      lastSyncAt := (summary.map (·.updatedAt)).getD 0
      lastReadSeq := (summary.map (·.lastReadSeq)).getD 0 }

end Store

inductive Response where
  | got (cursor : Option MultiDeviceCursor) (hints : Option (List ConversationVersion))
  | updated (cursor : MultiDeviceCursor)
  | cursorRequired
  | conversationIdEmpty
  | unavailable
  deriving DecidableEq

-- A call between two of its accesses to the cache and the store, with the cursor it found in the
-- cache.
inductive Call where
  | asking (userId : String) (request : GetSyncCursorSync)
      (hints : Option (List ConversationVersion))
  | filling (userId : String) (cursor : MultiDeviceCursor)
      (hints : Option (List ConversationVersion))
  | writing (userId : String) (previous : Option MultiDeviceCursor) (merged : MultiDeviceCursor)
  | putting (userId : String) (previous : Option MultiDeviceCursor) (merged : MultiDeviceCursor)

-- A call has its tenant and a number.
abbrev CallId := String × Nat

-- The cache is that of one process, for all its tenants.
structure State where
  cache : FifoMap (String × String) MultiDeviceCursor
  rows : Rows
  calls : CallId → Option Call := fun _ => none
  responses : List (CallId × Response) := []

def start (capacity : Nat) (rows : Rows) : State where
  cache := .empty capacity
  rows

-- What becomes of a statement: it is applied and answered, its answer is lost, or it is refused.
inductive Outcome where
  | answered
  | lost
  | refused

inductive Action where
  | getSyncCursor (userId : String) (request : GetSyncCursorSync)
      (changes : Option (List ConversationVersion))
  | updateSyncCursor (userId : String) (request : UpdateSyncCursorSync)
  | bootstrap (summary : Option ConversationSummary) (answered : Bool)
  | write (now : Int) (outcome : Outcome)
  | put

def State.respond (state : State) (id : CallId) (response : Response) : State :=
  { state with
    calls := Function.update state.calls id none
    responses := (id, response) :: state.responses }

def State.proceed (state : State) (id : CallId) (call : Call) : State :=
  { state with calls := Function.update state.calls id (some call) }

-- One access of one call. A call begins with its read of the cache, and one that is over has
-- nothing left to do.
def step (state : State) (taken : CallId × Action) : Option State :=
  let id := taken.1
  match taken.2, state.calls id with
  | .getSyncCursor userId request changes, none =>
    if isBlank request.conversationId then some (state.respond id .conversationIdEmpty)
    else
      let hints := conversationVersionHints request.knownConversationVersions changes
      match state.cache.get (userId, request.conversationId) with
      | some cursor => some (state.respond id (.got (some cursor) hints))
      | none => some (state.proceed id (.asking userId request hints))
  | .updateSyncCursor userId request, none =>
    match request.cursor with
    | none => some (state.respond id .cursorRequired)
    | some cursor =>
      if isBlank cursor.conversationId then some (state.respond id .conversationIdEmpty)
      else
        let previous := state.cache.get (userId, cursor.conversationId)
        some (state.proceed id (.writing userId previous (mergedCursor previous cursor)))
  | .bootstrap summary answered, some (.asking userId request hints) =>
    if !answered then some (state.respond id .unavailable)
    else
      match bootstrapCursor request (state.rows (id.1, userId, request.conversationId))
        summary with
      | none => some (state.respond id (.got none hints))
      | some cursor => some (state.proceed id (.filling userId cursor hints))
  | .write now outcome, some (.writing userId previous merged) =>
    let key := (id.1, userId, merged.conversationId)
    let row := updatedRow merged.conversationId (state.rows key)
      (asI64 merged.lastConversationSeq) now
    let written := { state with rows := Function.update state.rows key (some row) }
    match outcome with
    | .answered => some (written.proceed id (.putting userId previous merged))
    | .lost => some (written.respond id .unavailable)
    | .refused => some (state.respond id .unavailable)
  | .put, some (.filling userId cursor hints) =>
    let cache := state.cache.insert (userId, cursor.conversationId) cursor
    some ({ state with cache }.respond id (.got (some cursor) hints))
  | .put, some (.putting userId _ merged) =>
    let cache := state.cache.insert (userId, merged.conversationId) merged
    some ({ state with cache }.respond id (.updated merged))
  | .getSyncCursor _ _ _, some _ | .updateSyncCursor _ _, some _ => none
  | .bootstrap _ _, _ | .write _ _, _ | .put, _ => some state

end FlareIm.SyncCursor
