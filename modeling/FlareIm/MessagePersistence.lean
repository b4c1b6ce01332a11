import FlareIm.Lib.Transition
import FlareIm.MessageArchive

namespace FlareIm.MessagePersistence

open Text Context Proto EventRow EventApplication MessageArchive Fallible

section Prepare

def EXTRA_KEY_SYNC : String := "__sync"
def EXTRA_KEY_TAGS : String := "__tags"

-- The attributes of a stored message, less those that are for the envelope.
def withoutEnvelope (message : Message) : Message :=
  { message with
    attributes := message.attributes.filter fun entry =>
      entry.1 ≠ EXTRA_KEY_SYNC ∧ entry.1 ≠ EXTRA_KEY_TAGS }

def insertAttribute (key value : String) (attributes : List (String × String)) :
    List (String × String) :=
  (key, value) :: attributes.filter fun entry => entry.1 ≠ key

-- A tenant that the sender put into the attributes gives way to the one of the header.
def pinMessageTenant (message : Message) (tenantId : String) : Message :=
  let pinned := insertAttribute "tenant_id" tenantId message.attributes
  { message with
    attributes :=
      if (pinned.lookup "x-tenant-id").isSome then insertAttribute "x-tenant-id" tenantId pinned
      else pinned }

def preparedTenantId (message : Message) : Option String :=
  normalizeOptionalTenantId (message.attributes.lookup "tenant_id")

def markSent (message : Message) : Message :=
  { message with
    status := if message.status = .other 0 ∨ message.status = .other 1 then .other 2
      else message.status }

def invalidRetention (policy : RetentionPolicy) : Bool :=
  !policy.noRetention && policy.expireAfterSeconds.any (· ≤ 0)

theorem preparedTenantId_pinMessageTenant {message : Message} {tenantId : String}
    (h : normalizeOptionalTenantId (some tenantId) = some tenantId) :
    preparedTenantId (markSent (pinMessageTenant message tenantId)) = some tenantId := by
  have hl : (markSent (pinMessageTenant message tenantId)).attributes.lookup "tenant_id" =
      some tenantId := by
    simp only [markSent, pinMessageTenant]
    split
    · rw [insertAttribute, List.lookup_cons, insertAttribute, List.filter_cons]
      simp
    · simp [insertAttribute]
  rw [preparedTenantId, hl, h]

-- A message that is ready to be stored. Its command was built from it, so that its conversation
-- is that of the command.
structure PreparedMessage where
  message : Message
  tenantId : String
  server_id_ne : message.serverId ≠ ""
  tenant_pinned : preparedTenantId message = some tenantId
  deriving DecidableEq

def PreparedMessage.messageId (prepared : PreparedMessage) : String := prepared.message.serverId

def PreparedMessage.conversationId (prepared : PreparedMessage) : String :=
  prepared.message.conversationId

def prepareMessage (tenant : Option String) (message : Message) :
    Except FlareError PreparedMessage :=
  match htenant : normalizeOptionalTenantId tenant with
  | none =>
    .error ⟨.invalidParameter, "stored message has no tenant from its envelope headers"⟩
  | some tenantId =>
    if hserver : message.serverId = "" then
      .error ⟨.invalidParameter, "Message server_id cannot be empty"⟩
    else if message.retentionPolicy.any invalidRetention then
      .error ⟨.invalidParameter,
        "expire_after_seconds must be positive when retention is enabled"⟩
    else
      .ok {
        message := markSent (pinMessageTenant (withoutEnvelope message) tenantId)
        tenantId
        server_id_ne := hserver
        tenant_pinned := preparedTenantId_pinMessageTenant
          (normalizeOptionalTenantId_of_normalized htenant) }

end Prepare

section Reservation

def isValidTenantId (tenantId : String) : Bool :=
  tenantId ≠ "" ∧ tenantId.utf8ByteSize ≤ 32 ∧
    tenantId.toList.all fun c => c.isAlphanum || c == '_' || c == '-'

def storageKey (tenantId id : String) : String :=
  "storage:idempotency:" ++ tenantId ++ ":" ++ id

def messageKey (ctx : Ctx) (messageId : String) : Except FlareError String :=
  match ctx.tenantId with
  | none => .error ⟨.internalError, "tenant required for idempotency key"⟩
  | some tenantId =>
    if !isValidTenantId tenantId ∨ normalizeTenantId tenantId ≠ tenantId then
      .error ⟨.internalError, "canonical tenant required for idempotency key"⟩
    else .ok (storageKey tenantId messageId)

def orZero (id : Option String) : String :=
  (id.filter fun id => !isBlank id).getD "0"

def scopedKey (tenantId clientMsgId : String) (senderId conversationId : Option String) :
    String :=
  "client:" ++ tenantId ++ ":" ++ orZero senderId ++ ":" ++ orZero conversationId ++ ":" ++
    clientMsgId

def scopedClientIdempotencyKey (ctx : Ctx) (clientMsgId : String)
    (senderId conversationId : Option String) : Except FlareError String :=
  match normalizeOptionalTenantId ctx.tenantId with
  | none =>
    .error ⟨.invalidParameter, "tenant required for client message idempotency key"⟩
  | some tenantId => .ok (scopedKey tenantId clientMsgId senderId conversationId)

-- What Redis and the publisher answer to the statements of one message: true is an answer.
structure Answers where
  clientSetNx : Bool := true
  clientExpire : Bool := true
  serverSetNx : Bool := true
  serverExpire : Bool := true
  ack : Bool := true
  deriving DecidableEq

structure Member where
  prepared : PreparedMessage
  answers : Answers
  deriving DecidableEq

def redisUnavailable : FlareError := ⟨.internalError, "redis"⟩

-- SETNX and then, on a key that was free, EXPIRE. A failed EXPIRE leaves the key behind.
def isNew (ttlSeconds : Nat) (ctx : Ctx) (keys : List String) (setNx expire : Bool)
    (messageId : String) : List String × Except FlareError Bool :=
  match messageKey ctx messageId with
  | .error error => (keys, .error error)
  | .ok key =>
    if !setNx then (keys, .error redisUnavailable)
    else if key ∈ keys then (keys, .ok false)
    else if 0 < ttlSeconds ∧ (2 ^ 63 ≤ ttlSeconds ∨ !expire) then
      (key :: keys, .error redisUnavailable)
    else (key :: keys, .ok true)

def isNewByClientMsgId (ttlSeconds : Nat) (ctx : Ctx) (keys : List String) (setNx expire : Bool)
    (clientMsgId : String) (senderId conversationId : Option String) :
    List String × Except FlareError Bool :=
  if clientMsgId = "" then (keys, .ok true)
  else
    match scopedClientIdempotencyKey ctx clientMsgId senderId conversationId with
    | .error error => (keys, .error error)
    | .ok scopedId => isNew ttlSeconds ctx keys setNx expire scopedId

inductive Reservation where
  | none
  | serverMessageId (messageId : String)
  | clientMessageId (clientMsgId : String) (senderId conversationId : Option String)

structure IdempotencyDecision where
  isNew : Bool
  reservation : Reservation

def nonEmpty (id : String) : Option String :=
  if id = "" then none else some id

def serverDecision (prepared : PreparedMessage) :
    Except FlareError Bool → Except FlareError IdempotencyDecision
  | .ok true => .ok ⟨true, .serverMessageId prepared.messageId⟩
  | .ok false => .ok ⟨false, .none⟩
  | .error _ => .error ⟨.databaseError, "Failed to check idempotency"⟩

def reserveIdempotency (ttlSeconds : Nat) (ctx : Ctx) (keys : List String) (member : Member) :
    List String × Except FlareError IdempotencyDecision :=
  let prepared := member.prepared
  let message := prepared.message
  let answers := member.answers
  if message.clientMsgId ≠ "" then
    match isNewByClientMsgId ttlSeconds ctx keys answers.clientSetNx answers.clientExpire
      message.clientMsgId (some message.senderId) (some prepared.conversationId) with
    | (keys, .ok true) =>
      (keys, .ok ⟨true, .clientMessageId message.clientMsgId (nonEmpty message.senderId)
        (nonEmpty prepared.conversationId)⟩)
    | (keys, .ok false) => (keys, .ok ⟨false, .none⟩)
    -- The key of the client id is given up for that of the server id.
    | (keys, .error _) =>
      let reserved := isNew ttlSeconds ctx keys answers.serverSetNx answers.serverExpire
        prepared.messageId
      (reserved.1, serverDecision prepared reserved.2)
  else
    let reserved := isNew ttlSeconds ctx keys answers.serverSetNx answers.serverExpire
      prepared.messageId
    (reserved.1, serverDecision prepared reserved.2)

-- The key a reservation is released by.
def releaseKey (ctx : Ctx) : Reservation → Option String
  | .none => none
  | .serverMessageId messageId =>
    if messageId = "" then none else (messageKey ctx messageId).toOption
  | .clientMessageId clientMsgId senderId conversationId =>
    if clientMsgId = "" then none
    else
      match scopedClientIdempotencyKey ctx clientMsgId senderId conversationId with
      | .error _ => none
      | .ok scopedId => (messageKey ctx scopedId).toOption

def releaseIdempotencyReservation (ctx : Ctx) (keys : List String) (reservation : Reservation) :
    List String :=
  match releaseKey ctx reservation with
  | none => keys
  | some key => keys.filter (· ≠ key)

end Reservation

structure PersistenceResult where
  messageId : String
  conversationId : String
  deduplicated : Bool

-- Redis, the database and the acknowledgements that were published.
structure Store where
  keys : List String := []
  tables : Tables := {}
  acks : List PersistenceResult := []

-- What a writer is built with: the life of its Redis keys, the sizes its messages have when they
-- are encoded and the wire formats.
structure Writer where
  ttlSeconds : Nat
  size : Message → Nat
  codec : Codec

def publishAck (store : Store) (answered : Bool) (result : PersistenceResult) :
    Store × Except FlareError Unit :=
  if answered then ({ store with acks := result :: store.acks }, .ok ())
  else (store, .error ⟨.internalError, "Failed to publish ACK"⟩)

def result (prepared : PreparedMessage) (deduplicated : Bool) : PersistenceResult :=
  ⟨prepared.messageId, prepared.conversationId, deduplicated⟩

def buildEventMessage (clock : Clock) (prepared : PreparedMessage) : EventRow.Event where
  tenantId := prepared.tenantId
  conversationId := prepared.message.conversationId
  seq := prepared.message.conversationSeq
  type := .message
  createdAt := millisToTimestamp clock.now
  payload := some (.message prepared.message)

-- The answers of the database during one delivery, in the order of its statements.
structure Database where
  clock : Clock
  archive : List Bool := []
  append : List Bool := []

section Persist

variable (writer : Writer) (ctx : Ctx) (database : Database)

def persistMessage (tables : Tables) (prepared : PreparedMessage) :
    Tables × Except FlareError ArchiveOutcome :=
  match archiveMessages database.clock ctx writer.size tables database.archive
    [prepared.message] with
  | (archived, .error _) => (archived, .error ⟨.databaseError, "Failed to store archive"⟩)
  | (archived, .ok outcome) =>
    if outcome.isDuplicate prepared.messageId then (archived, .ok outcome)
    else
      match appendEvent writer.codec database.clock archived (database.append.headD true)
        (buildEventMessage database.clock prepared) with
      | (appended, .error _) =>
        (appended, .error ⟨.databaseError,
          "Failed to append message event to durable event stream"⟩)
      | (appended, .ok ()) => (appended, .ok outcome)

def persistBatch (tables : Tables) (prepared : List PreparedMessage) :
    Tables × Except FlareError ArchiveOutcome :=
  match archiveMessages database.clock ctx writer.size tables database.archive
    (prepared.map (·.message)) with
  | (archived, .error _) => (archived, .error ⟨.databaseError, "Failed to store archive batch"⟩)
  | (archived, .ok outcome) =>
    let kept := prepared.filter fun message => !outcome.isDuplicate message.messageId
    match appendEventsToStream writer.codec database.clock archived database.append
      (kept.map (buildEventMessage database.clock)) with
    | (appended, .error _) =>
      (appended, .error ⟨.databaseError,
        "Failed to append message events to durable event stream"⟩)
    | (appended, .ok ()) => (appended, .ok outcome)

end Persist

section Ensure

variable (writer : Writer) (ctx : Ctx)

-- Idempotency, persistence and acknowledgement of one message. Cleaning the WAL never fails.
def ensureConsistency (database : Database) (store : Store) (member : Member) :
    Store × Except FlareError PersistenceResult :=
  let prepared := member.prepared
  match reserveIdempotency writer.ttlSeconds ctx store.keys member with
  | (keys, .error error) => ({ store with keys }, .error error)
  | (keys, .ok decision) =>
    if !decision.isNew then
      match publishAck { store with keys } member.answers.ack (result prepared true) with
      | (store, .error error) => (store, .error error)
      | (store, .ok ()) => (store, .ok (result prepared true))
    else
      match persistMessage writer ctx database store.tables prepared with
      | (tables, .error error) =>
        ({ store with
            keys := releaseIdempotencyReservation ctx keys decision.reservation
            tables }, .error error)
      | (tables, .ok outcome) =>
        let deduplicated := outcome.isDuplicate prepared.messageId
        match publishAck { store with keys, tables } member.answers.ack
          (result prepared deduplicated) with
        | (store, .error error) => (store, .error error)
        | (store, .ok ()) => (store, .ok (result prepared deduplicated))

abbrev Reserved := Member × Reservation

-- The reservations of a batch. The first failure returns at once.
def reserveLoop (store : Store) :
    List Member → Store × Except FlareError (List Reserved × List PersistenceResult)
  | [] => (store, .ok ([], []))
  | member :: rest =>
    match reserveIdempotency writer.ttlSeconds ctx store.keys member with
    | (keys, .error error) => ({ store with keys }, .error error)
    | (keys, .ok decision) =>
      if decision.isNew then
        match reserveLoop { store with keys } rest with
        | (store, .error error) => (store, .error error)
        | (store, .ok (reserved, results)) =>
          (store, .ok ((member, decision.reservation) :: reserved, results))
      else
        match publishAck { store with keys } member.answers.ack
          (result member.prepared true) with
        | (store, .error error) => (store, .error error)
        | (store, .ok ()) =>
          match reserveLoop store rest with
          | (store, .error error) => (store, .error error)
          | (store, .ok (reserved, results)) =>
            (store, .ok (reserved, result member.prepared true :: results))

def ackLoop (outcome : ArchiveOutcome) (store : Store) :
    List Reserved → Store × Except FlareError (List PersistenceResult)
  | [] => (store, .ok [])
  | (member, _) :: rest =>
    let acked := result member.prepared (outcome.isDuplicate member.prepared.messageId)
    match publishAck store member.answers.ack acked with
    | (store, .error error) => (store, .error error)
    | (store, .ok ()) =>
      match ackLoop outcome store rest with
      | (store, .error error) => (store, .error error)
      | (store, .ok results) => (store, .ok (acked :: results))

def ensureBatchConsistency (database : Database) (store : Store) (members : List Member) :
    Store × Except FlareError (List PersistenceResult) :=
  match reserveLoop writer ctx store members with
  | (store, .error error) => (store, .error error)
  | (store, .ok (reserved, results)) =>
    if reserved.isEmpty then (store, .ok results)
    else
      match persistBatch writer ctx database store.tables
        (reserved.map (·.1.prepared)) with
      | (tables, .error error) =>
        ({ store with
            keys := (reserved.map (·.2)).foldl (releaseIdempotencyReservation ctx) store.keys
            tables }, .error error)
      | (tables, .ok outcome) =>
        match ackLoop outcome { store with tables } reserved with
        | (store, .error error) => (store, .error error)
        | (store, .ok acked) => (store, .ok (results ++ acked))

end Ensure

-- A message as the queue delivers it, with the answers its statements will get.
structure Delivered where
  message : Message
  answers : Answers := {}

-- A delivery of one message, or of the messages of a tenant in one batch.
inductive Action where
  | single (ctx : Ctx) (database : Database) (delivered : Delivered)
  | batch (ctx : Ctx) (database : Database) (delivered : List Delivered)

def prepareMember (ctx : Ctx) (delivered : Delivered) : Except FlareError Member :=
  match prepareMessage ctx.tenantId delivered.message with
  | .error error => .error error
  | .ok prepared => .ok ⟨prepared, delivered.answers⟩

def Action.ctx : Action → Ctx
  | .single ctx _ _ | .batch ctx _ _ => ctx

-- What is left of a delivery once its messages are prepared.
def Action.members : Action → Except FlareError (List Member)
  | .single ctx _ delivered => Fallible.traverse (prepareMember ctx) [delivered]
  | .batch ctx _ delivered => Fallible.traverse (prepareMember ctx) delivered

-- `accepted` lists the messages whose delivery was answered with Ok.
structure State where
  store : Store := {}
  accepted : List PreparedMessage := []

-- A delivery that cannot be prepared leaves everything as it is.
def step (writer : Writer) (state : State) (action : Action) : Option State :=
  match action, action.members with
  | _, .error _ => some state
  | .single ctx database _, .ok (member :: _) =>
    match ensureConsistency writer ctx database state.store member with
    | (store, .error _) => some { state with store }
    | (store, .ok _) => some { store, accepted := member.prepared :: state.accepted }
  | .batch ctx database _, .ok members =>
    match ensureBatchConsistency writer ctx database state.store members with
    | (store, .error _) => some { state with store }
    | (store, .ok _) => some { store, accepted := members.map (·.prepared) ++ state.accepted }
  | .single _ _ _, .ok [] => none

end FlareIm.MessagePersistence
