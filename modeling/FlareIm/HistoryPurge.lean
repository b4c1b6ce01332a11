import FlareIm.ConversationTables
import FlareIm.Lib.Fallible
import FlareIm.Lib.Text

namespace FlareIm.HistoryPurge

open Text Fallible ConversationTables

def MAX_EPOCH_ATTRIBUTE_LEN : Nat := 128

-- Messages whose value of the named attribute is a number are cut by that number alone.
structure HistoryEpochFence where
  epochAttribute : String
  beforeEpoch : Int
  deriving DecidableEq

structure HistoryPurgeBoundary where
  before : Option Int
  epochFence : Option HistoryEpochFence
  deriving DecidableEq

structure ConversationHistoryPurge where
  purgedMessages : Nat
  maxPurgedSeq : Nat
  deriving DecidableEq

inductive PurgeError where
  | invalidParameter (message : String)
  | cacheInvalidation
  deriving DecidableEq

structure Tables where
  messages : List MessageRow := []
  events : List EventRow := []
  pinned : List MessageTag := []
  marked : List MessageTag := []
  participants : List ParticipantRow := []
  deriving DecidableEq

section Boundary

-- One to eighteen ASCII digits and nothing else.
def isEpochText (text : String) : Bool :=
  1 ≤ text.toList.length && text.toList.length ≤ 18 && text.toList.all Char.isDigit

def decimalValue (digits : List Char) : Int :=
  digits.foldl (fun value digit => 10 * value + (digit.toNat - '0'.toNat)) 0

def epochOf (fence : HistoryEpochFence) (row : MessageRow) : Option Int :=
  ((row.extra.lookup fence.epochAttribute).filter isEpochText).map fun text =>
    decimalValue text.toList

-- A missing time boundary is before nothing.
def isBefore (before : Option Int) (createdAt : Int) : Bool :=
  before.any fun time => createdAt < time

def messageIsPurged (boundary : HistoryPurgeBoundary) (row : MessageRow) : Bool :=
  match boundary.epochFence with
  | none => isBefore boundary.before row.createdAt
  | some fence =>
    match epochOf fence row with
    | some epoch => epoch < fence.beforeEpoch
    | none => isBefore boundary.before row.createdAt

end Boundary

section Repository

variable (tenantId conversationId : String) (boundary : HistoryPurgeBoundary)

def conversationMessages (rows : List MessageRow) : List MessageRow :=
  rows.filter (·.isIn tenantId conversationId)

def purgedMessages (rows : List MessageRow) : List MessageRow :=
  (conversationMessages tenantId conversationId rows).filter (messageIsPurged boundary)

def deleteMessages (rows : List MessageRow) : List MessageRow :=
  rows.filter fun row => ¬ (row.isIn tenantId conversationId ∧ messageIsPurged boundary row)

def deleteTags (purgedIds : List String) (rows : List MessageTag) : List MessageTag :=
  rows.filter fun row => ¬ (row.isIn tenantId conversationId ∧ row.messageId ∈ purgedIds)

def oldestSeq (rows : List MessageRow) : Int :=
  ((rows.map (·.seq)).min?).getD MAX_SEQ

-- Without a fence an event is cut by its own time. With one it goes with the message at its
-- sequence number, or, when it is no message, with everything below the oldest message left.
def eventIsPurged (purgedSeqs : List Int) (remaining : List MessageRow) (event : EventRow) : Bool :=
  match boundary.epochFence with
  | none => isBefore boundary.before event.createdAt
  | some _ =>
    event.seq ∈ purgedSeqs ||
      (event.eventType ≠ EVENT_MESSAGE &&
        event.seq < oldestSeq (conversationMessages tenantId conversationId remaining))

def deleteEvents (purgedSeqs : List Int) (remaining : List MessageRow) (rows : List EventRow) :
    List EventRow :=
  rows.filter fun row => ¬ (row.isIn tenantId conversationId ∧
    eventIsPurged tenantId conversationId boundary purgedSeqs remaining row)

-- The count of what is left unread, capped by the count before. The cleared positions are not
-- part of this floor.
def recomputedUnread (remaining : List MessageRow) (row : ParticipantRow) : Int :=
  let limit := max row.unreadCount 0
  let floor := max (max row.lastReadSeq row.visibleFromSeq) row.lastSyncSeq
  min limit (((conversationMessages row.tenantId row.conversationId remaining).countP
    (countsAsUnread floor row.userId) : Nat) : Int)

def recomputeUnread (remaining : List MessageRow) (rows : List ParticipantRow) :
    List ParticipantRow :=
  rows.map fun row =>
    if row.isIn tenantId conversationId ∧ ¬ row.isDeleted then
      { row with unreadCount := recomputedUnread remaining row }
    else row

def purgeRows (tables : Tables) : Tables :=
  let purged := purgedMessages tenantId conversationId boundary tables.messages
  let purgedIds := purged.map (·.serverId)
  let remaining := deleteMessages tenantId conversationId boundary tables.messages
  { messages := remaining
    events := deleteEvents tenantId conversationId boundary (purged.map (·.seq)) remaining
      tables.events
    pinned := deleteTags tenantId conversationId purgedIds tables.pinned
    marked := deleteTags tenantId conversationId purgedIds tables.marked
    participants :=
      if purgedIds = [] then tables.participants
      else recomputeUnread tenantId conversationId remaining tables.participants }

def purgeOutcome (tables : Tables) : ConversationHistoryPurge :=
  let purged := purgedMessages tenantId conversationId boundary tables.messages
  { purgedMessages := purged.length
    maxPurgedSeq := (purged.map (·.seq.toNat)).foldl max 0 }

def requiredTenant (tenant : Option String) : Except PurgeError String :=
  match tenant.filter (¬ isBlank ·) with
  | some tenantId => .ok tenantId
  | none => .error (.invalidParameter "tenant required for conversation storage")

-- `invalidate` is what the cache of the reader answers, when there is one. It is asked before
-- the commit: its failure rolls the purge back.
def repositoryPurgeHistory (invalidate : Option (String → String → List String → Bool))
    (tenant : Option String) (tables : Tables) :
    Except PurgeError (Tables × ConversationHistoryPurge) := do
  let tenantId ← requiredTenant tenant
  refuseIf (isBlank conversationId) (.invalidParameter "conversation_id is required")
  refuseIf (boundary.epochFence = none ∧ boundary.before = none)
    (.invalidParameter "a history purge needs a time boundary or an epoch fence")
  let purgedIds := (purgedMessages tenantId conversationId boundary tables.messages).map (·.serverId)
  refuseIf (purgedIds ≠ [] ∧
    invalidate.any fun invalidates => !invalidates tenantId conversationId purgedIds)
    .cacheInvalidation
  .ok (purgeRows tenantId conversationId boundary tables,
    purgeOutcome tenantId conversationId boundary tables)

end Repository

def epochFenceOf (beforeMs : Int) (name : String) (beforeEpoch : Int) :
    Except PurgeError (Option HistoryEpochFence) :=
  if beforeEpoch = 0 then do
    refuseIf (name ≠ "") (.invalidParameter "epoch_attribute requires a positive before_epoch")
    refuseIf (beforeMs ≤ 0)
      (.invalidParameter "before_ms must be a positive server timestamp in milliseconds")
    .ok none
  else do
    refuseIf (name = "" ∨ name.utf8ByteSize > MAX_EPOCH_ATTRIBUTE_LEN)
      (.invalidParameter "epoch_attribute is required with before_epoch and at most 128 bytes")
    refuseIf (beforeMs < 0) (.invalidParameter "before_ms must not be negative")
    .ok (some ⟨name, beforeEpoch⟩)

-- `timestampMillisOpt` is the time of a number of milliseconds, when it is in range.
def timeBoundaryOf (timestampMillisOpt : Int → Option Int) (beforeMs : Int) :
    Except PurgeError (Option Int) :=
  if beforeMs = 0 then .ok none
  else
    match timestampMillisOpt beforeMs with
    | some time => .ok (some time)
    | none => .error (.invalidParameter "before_ms is out of range")

def boundaryOf (timestampMillisOpt : Int → Option Int) (beforeMs : Int) (epochAttribute : String)
    (beforeEpoch : Int) : Except PurgeError HistoryPurgeBoundary := do
  refuseIf (beforeEpoch < 0) (.invalidParameter "before_epoch must not be negative")
  let epochFence ← epochFenceOf beforeMs (trim epochAttribute) beforeEpoch
  let before ← timeBoundaryOf timestampMillisOpt beforeMs
  .ok ⟨before, epochFence⟩

structure PurgeRequest where
  tenant : Option String
  conversationId : String
  beforeMs : Int
  epochAttribute : String := ""
  beforeEpoch : Int := 0

def purgeHistory (timestampMillisOpt : Int → Option Int)
    (invalidate : Option (String → String → List String → Bool)) (request : PurgeRequest)
    (tables : Tables) : Except PurgeError (Tables × ConversationHistoryPurge) := do
  let boundary ← boundaryOf timestampMillisOpt request.beforeMs request.epochAttribute
    request.beforeEpoch
  repositoryPurgeHistory request.conversationId boundary invalidate request.tenant tables

end FlareIm.HistoryPurge
