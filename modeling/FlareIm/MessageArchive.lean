import FlareIm.EventApplication
import FlareIm.Lib.Listing

namespace FlareIm.MessageArchive

open Text Context Proto EventRow EventApplication Fallible

-- The columns of the table of messages that identify a message, and its content.
structure ArchiveRow where
  tenantId : String
  serverId : String
  conversationId : String
  clientMsgId : Option String
  senderId : String
  seq : Int
  createdAt : Int
  messageType : Int
  status : MessageStatus
  content : Option MessageContent
  deriving DecidableEq

-- A key of the send idempotency ledger and the message that claims it.
structure LedgerClaim where
  tenantId : String
  senderId : String
  clientMsgId : String
  conversationId : String
  serverId : String
  seq : Int
  deriving DecidableEq

def LedgerClaim.key (claim : LedgerClaim) : String × String × String :=
  (claim.tenantId, claim.senderId, claim.clientMsgId)

-- A message without a client id cannot be told from a resend and stays out of the ledger.
def LedgerClaim.of (row : ArchiveRow) : Option LedgerClaim :=
  match row.clientMsgId with
  | none => none
  | some clientMsgId =>
    if isBlank clientMsgId then none
    else some {
      tenantId := row.tenantId
      senderId := row.senderId
      clientMsgId
      conversationId := row.conversationId
      serverId := row.serverId
      seq := row.seq }

-- The tables of the storage writer: the send idempotency ledger, the write ledger, the messages
-- and the event stream.
structure Tables where
  ledger : List LedgerClaim := []
  writeLedger : List (String × String) := []
  messages : List ArchiveRow := []
  events : List EventStreamInsertRow := []
  deriving DecidableEq

structure LedgerDuplicate where
  serverId : String
  originalServerId : String
  deriving DecidableEq

structure ArchiveOutcome where
  duplicates : List LedgerDuplicate := []
  reusedClientMsgIds : Nat := 0
  deriving DecidableEq

def ArchiveOutcome.isDuplicate (outcome : ArchiveOutcome) (serverId : String) : Bool :=
  outcome.duplicates.any fun duplicate => duplicate.serverId == serverId

def ArchiveOutcome.merge (outcome other : ArchiveOutcome) : ArchiveOutcome where
  duplicates := outcome.duplicates ++ other.duplicates
  reusedClientMsgIds := outcome.reusedClientMsgIds + other.reusedClientMsgIds

-- What decides whether a key is in the write ledger.
scoped instance lawfulWriteKey : LawfulBEq (String × String) := inferInstance

section Ledger

def occupant (ledger : List LedgerClaim) (claim : LedgerClaim) : Option LedgerClaim :=
  ledger.find? fun entry => entry.key == claim.key

-- `INSERT … ON CONFLICT DO NOTHING`: the ledger and the server ids of the claims that went in.
def insertClaims (ledger : List LedgerClaim) : List LedgerClaim → List LedgerClaim × List String
  | [] => (ledger, [])
  | claim :: rest =>
    match occupant ledger claim with
    | some _ => insertClaims ledger rest
    | none =>
      let inserted := insertClaims (claim :: ledger) rest
      (inserted.1, claim.serverId :: inserted.2)

-- The verdict on a claim that did not go in.
def judge (ledger : List LedgerClaim) (outcome : ArchiveOutcome) (claim : LedgerClaim) :
    ArchiveOutcome :=
  match occupant ledger claim with
  | none => outcome
  | some entry =>
    if entry.serverId = claim.serverId then outcome
    else if entry.conversationId ≠ claim.conversationId then
      { outcome with reusedClientMsgIds := outcome.reusedClientMsgIds + 1 }
    else
      { outcome with
        duplicates := outcome.duplicates ++ [⟨claim.serverId, entry.serverId⟩] }

def claimSendIdempotency (ledger : List LedgerClaim) (claims : List LedgerClaim) :
    List LedgerClaim × ArchiveOutcome :=
  let inserted := insertClaims ledger claims
  let unclaimed := claims.filter fun claim => claim.serverId ∉ inserted.2
  (inserted.1, unclaimed.foldl (judge inserted.1) {})

end Ledger

section Archive

variable (clock : Clock) (ctx : Ctx)

def getMessageTimestamp (message : Message) : Int :=
  if 0 < message.createdAt ∧ clock.represents message.createdAt then message.createdAt
  else clock.now

-- The tenant of the context, or the one in the attributes of the message.
def resolveTenantId (message : Message) : Except FlareError String :=
  match ctx.tenantId.filter (fun tenant => !isBlank tenant) with
  | some tenant => .ok (normalizeTenantId tenant)
  | none =>
    match (message.attributes.lookup "tenant_id").filter (fun tenant => !isBlank tenant) with
    | some tenant => .ok (normalizeTenantId tenant)
    | none => .error ⟨.internalError, "tenant_id is required for message " ++ message.serverId⟩

def archiveRow (message : Message) : Except FlareError ArchiveRow :=
  if 2 ^ 63 ≤ message.conversationSeq then
    .error ⟨.internalError, "invalid seq overflow for message " ++ message.serverId⟩
  else if message.conversationSeq = 0 then
    .error ⟨.internalError, "invalid seq=0, message must be assigned in orchestrator: " ++
      message.serverId⟩
  else
    match resolveTenantId ctx message with
    | .error error => .error error
    | .ok tenantId =>
      .ok {
        tenantId
        serverId := message.serverId
        conversationId := message.conversationId
        clientMsgId := if message.clientMsgId = "" then none else some message.clientMsgId
        senderId := message.senderId
        seq := message.conversationSeq
        createdAt := getMessageTimestamp clock message
        messageType := message.messageType
        status := message.status
        content := message.content }

-- `INSERT … ON CONFLICT DO NOTHING` into the write ledger, and the keys that went in.
def insertKeys (writeLedger : List (String × String)) :
    List (String × String) → List (String × String) × List (String × String)
  | [] => (writeLedger, [])
  | key :: rest =>
    if key ∈ writeLedger then insertKeys writeLedger rest
    else
      let inserted := insertKeys (key :: writeLedger) rest
      (inserted.1, key :: inserted.2)

def ArchiveRow.writeKey (row : ArchiveRow) : String × String := (row.tenantId, row.serverId)

def insertRow (messages : List ArchiveRow) (row : ArchiveRow) : List ArchiveRow :=
  if messages.any fun other => other.writeKey == row.writeKey && other.createdAt == row.createdAt
  then messages
  else row :: messages

-- The statements of one transaction that commits.
def archiveRows (tables : Tables) (rows : List ArchiveRow) : Tables × ArchiveOutcome :=
  let claimed := claimSendIdempotency tables.ledger (rows.filterMap LedgerClaim.of)
  let candidates := rows.filter fun row => !claimed.2.isDuplicate row.serverId
  let written := insertKeys tables.writeLedger (candidates.map ArchiveRow.writeKey)
  let rowsToInsert := candidates.filter fun row => row.writeKey ∈ written.2
  ({ tables with
      ledger := claimed.1
      writeLedger := written.1
      messages := rowsToInsert.foldl insertRow tables.messages }, claimed.2)

-- One transaction for the messages. `committed` tells whether one of its attempts gets through.
-- A single message takes the same statements, in a transaction with one attempt.
def storeArchiveBatchValues (tables : Tables) (committed : Bool) (messages : List Message) :
    Tables × Except FlareError ArchiveOutcome :=
  match Fallible.traverse (archiveRow clock ctx) messages with
  | .error error => (tables, .error error)
  | .ok rows =>
    if committed then
      let archived := archiveRows tables rows
      (archived.1, .ok archived.2)
    else (tables, .error ⟨.internalError, "Failed to batch insert messages"⟩)

def archiveGroups (outcome : ArchiveOutcome) (tables : Tables) :
    List Bool → List (List Message) → Tables × Except FlareError ArchiveOutcome
  | _, [] => (tables, .ok outcome)
  | answers, group :: rest =>
    match storeArchiveBatchValues clock ctx tables (answers.headD true) group with
    | (stored, .error error) => (stored, .error error)
    | (stored, .ok judged) => archiveGroups (outcome.merge judged) stored answers.tail rest

-- The size of a message decides how many go into one transaction.
def optimalBatchSize (size : Message → Nat) (messages : List Message) : Nat :=
  let average := (messages.map fun message => size message + 200).sum / messages.length
  if average < 1024 then 500 else if average < 10 * 1024 then 200 else 50

-- Up to ten messages are stored one by one. `answers` are those of the transactions.
def archiveMessages (size : Message → Nat) (tables : Tables) (answers : List Bool)
    (messages : List Message) : Tables × Except FlareError ArchiveOutcome :=
  archiveGroups clock ctx {} tables answers
    (if messages.length ≤ 10 then messages.map ([·])
     else messages.toChunks (optimalBatchSize size messages))

end Archive

section EventStream

variable (codec : Codec)

def eventKey (row : EventStreamInsertRow) : String × String × Int :=
  (row.tenantId, row.conversationId, row.seq)

def loadExistingEvent (events : List EventStreamInsertRow) (row : EventStreamInsertRow) :
    Existing :=
  (events.find? fun event => eventKey event == eventKey row).map fun event =>
    (event.eventType, event.payload)

def streamUnavailable : FlareError := ⟨.databaseError, "append event stream row"⟩

-- The table of events as it answers one appended row.
def eventTable (events : List EventStreamInsertRow) (answered : Bool) : Stream where
  loadExisting row := .ok (loadExistingEvent events row)
  insert row := if answered then .ok (loadExistingEvent events row) else .error streamUnavailable

def insertEvent (events : List EventStreamInsertRow) (row : EventStreamInsertRow) :
    List EventStreamInsertRow :=
  if (loadExistingEvent events row).isSome then events else row :: events

def appendEvent (clock : Clock) (tables : Tables) (answered : Bool) (event : EventRow.Event) :
    Tables × Except FlareError Unit :=
  match appendEventToStream codec clock (eventTable tables.events answered) event with
  | .error error => (tables, .error error)
  | .ok none => (tables, .ok ())
  | .ok (some row) => ({ tables with events := insertEvent tables.events row }, .ok ())

-- The first row of a batch that contradicts the last one before it at the same position.
def conflictingDuplicate (seen : List EventStreamInsertRow) :
    List EventStreamInsertRow → Option EventStreamInsertRow
  | [] => none
  | row :: rest =>
    match seen.find? fun previous => eventKey previous == eventKey row with
    | none => conflictingDuplicate (row :: seen) rest
    | some previous =>
      if matchExistingEvent codec previous.eventType previous.payload row false = .conflict then
        some row
      else conflictingDuplicate (row :: seen) rest

-- The rows whose position another event has, with the type of that event. An insert leaves
-- them out.
def conflictingEvents (events : List EventStreamInsertRow) (rows : List EventStreamInsertRow) :
    List (EventStreamInsertRow × TypeNumber) :=
  rows.filterMap fun row =>
    match loadExistingEvent events row with
    | some existing => if isConflict codec row existing then some (row, existing.1) else none
    | none => none

-- One statement. Its rows are there even when one of the others turns out to be in conflict.
def appendEventRows (events : List EventStreamInsertRow) (answered : Bool)
    (rows : List EventStreamInsertRow) : List EventStreamInsertRow × Except FlareError Unit :=
  if answered then
    (rows.foldl insertEvent events,
      match conflictingEvents codec events rows with
      | [] => .ok ()
      | (row, existingEventType) :: _ => .error (eventStreamConflict codec row existingEventType))
  else (events, .error streamUnavailable)

def appendChunks (events : List EventStreamInsertRow) :
    List Bool → List (List EventStreamInsertRow) →
      List EventStreamInsertRow × Except FlareError Unit
  | _, [] => (events, .ok ())
  | answers, chunk :: rest =>
    match appendEventRows codec events (answers.headD true) chunk with
    | (appended, .error error) => (appended, .error error)
    | (appended, .ok ()) => appendChunks appended answers.tail rest

def EVENT_STREAM_BATCH_SIZE : Nat := 500

def appendEventsToStream (clock : Clock) (tables : Tables) (answers : List Bool)
    (events : List EventRow.Event) : Tables × Except FlareError Unit :=
  let rows := events.filterMap (eventToInsertRow codec clock)
  match conflictingDuplicate codec [] rows with
  | some row =>
    (tables, .error ⟨.internalError,
      "event stream batch contains conflicting duplicate" ++ positionText row⟩)
  | none =>
    let appended := appendChunks codec tables.events answers
      (rows.toChunks EVENT_STREAM_BATCH_SIZE)
    ({ tables with events := appended.1 }, appended.2)

end EventStream

end FlareIm.MessageArchive
