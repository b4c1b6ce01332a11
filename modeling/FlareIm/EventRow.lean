import FlareIm.Context
import FlareIm.Lib.Wire
import FlareIm.Proto

namespace FlareIm.EventRow

open Text Context Proto Wire

-- The event types of the storage writer. Proto has neither typing nor presence.
inductive EventType where
  | unspecified
  | message
  | messageRecall
  | messageEdit
  | messageDelete
  | readReceipt
  | typing
  | conversationUpdate
  | conversationDelete
  | presence
  | reaction
  | pin
  | unpin
  | mark
  | unmark
  | messageBurnScheduled
  | messageBurned
  | messageHardDeleted
  | pluginState
  | custom
  deriving DecidableEq

-- The number an old writer stored for the type.
def EventType.discriminant : EventType → Int
  | .unspecified => 0
  | .message => 1
  | .messageRecall => 2
  | .messageEdit => 3
  | .messageDelete => 4
  | .readReceipt => 5
  | .typing => 6
  | .conversationUpdate => 7
  | .conversationDelete => 8
  | .presence => 9
  | .reaction => 11
  | .pin => 12
  | .unpin => 13
  | .mark => 14
  | .unmark => 15
  | .messageBurnScheduled => 16
  | .messageBurned => 17
  | .messageHardDeleted => 18
  | .pluginState => 19
  | .custom => 99

def eventTypeFromI32 (number : TypeNumber) : EventType :=
  match Proto.EventType.tryFrom number with
  | some .eventMessage => .message
  | some .eventMessageRecall => .messageRecall
  | some .eventMessageEdit => .messageEdit
  | some .eventMessageDelete => .messageDelete
  | some .eventReadReceipt => .readReceipt
  | some .eventConversationUpdate => .conversationUpdate
  | some .eventConversationDelete => .conversationDelete
  | some .eventReaction => .reaction
  | some .eventPin => .pin
  | some .eventUnpin => .unpin
  | some .eventMark => .mark
  | some .eventUnmark => .unmark
  | some .eventMessageRetentionScheduled => .messageBurnScheduled
  | some .eventMessageRetentionExpired => .messageBurned
  | some .eventMessageRetentionPurged => .messageHardDeleted
  | some .eventCustom => .custom
  | some .eventMessagePluginState => .pluginState
  | some .unspecified | none => .unspecified

def eventTypeToProtoI32 : EventType → TypeNumber
  | .message => .known .eventMessage
  | .messageRecall => .known .eventMessageRecall
  | .messageEdit => .known .eventMessageEdit
  | .messageDelete => .known .eventMessageDelete
  | .readReceipt => .known .eventReadReceipt
  | .conversationUpdate => .known .eventConversationUpdate
  | .conversationDelete => .known .eventConversationDelete
  | .reaction => .known .eventReaction
  | .pin => .known .eventPin
  | .unpin => .known .eventUnpin
  | .mark => .known .eventMark
  | .unmark => .known .eventUnmark
  | .messageBurnScheduled => .known .eventMessageRetentionScheduled
  | .messageBurned => .known .eventMessageRetentionExpired
  | .messageHardDeleted => .known .eventMessageRetentionPurged
  | .pluginState => .known .eventMessagePluginState
  | .custom => .known .eventCustom
  | .typing | .presence | .unspecified => .known .unspecified

theorem eventTypeToProtoI32_eventTypeFromI32 (type : Proto.EventType) :
    eventTypeToProtoI32 (eventTypeFromI32 (.known type)) = .known type := by
  cases type <;> rfl

structure Timestamp where
  seconds : Int
  nanos : Int

def timestampToMillis (ts : Timestamp) : Option Int :=
  if ts.seconds = 0 ∧ ts.nanos = 0 then none
  else some (ts.seconds * 1000 + ts.nanos.tdiv 1000000)

def millisToTimestamp (ms : Int) : Option Timestamp :=
  some ⟨ms.tdiv 1000, ms.tmod 1000 * 1000000⟩

theorem millisToTimestamp_bind_timestampToMillis (ms : Int) :
    (millisToTimestamp ms).bind timestampToMillis = if ms = 0 then none else some ms := by
  have hm := Int.mul_tdiv_add_tmod ms 1000
  have hn : (ms.tmod 1000 * 1000000).tdiv 1000000 = ms.tmod 1000 :=
    Int.mul_tdiv_cancel _ (by decide)
  by_cases hz : ms = 0
  · subst hz
    rfl
  · have hp : ¬ (ms.tdiv 1000 = 0 ∧ ms.tmod 1000 * 1000000 = 0) := by
      rintro ⟨hs, hmi⟩
      rw [hs] at hm
      omega
    simp only [millisToTimestamp, timestampToMillis, Option.bind_some, if_neg hp, hn, if_neg hz]
    congr 1
    omega

structure EditPayload where
  serverMsgId : String
  newContent : List UInt8
  reason : String
  showEditedMark : Bool

structure ReadPayload where
  conversationId : String
  readSeq : Nat
  userId : String
  messageIds : List String
  readAt : Option Timestamp
  burnAfterRead : Option Bool

structure PinPayload where
  serverMsgId : String
  pinnedBy : String
  reason : Option String
  expireAt : Option Timestamp
  scope : Int

structure BurnScheduledPayload where
  conversationId : String
  messageId : String
  readerId : Option String
  burnAt : Int
  eventTime : Int

structure BurnedPayload where
  conversationId : String
  messageId : String
  readerId : Option String
  burnAt : Int
  burnedAt : Int
  eventTime : Int

structure HardDeletedPayload where
  conversationId : String
  messageId : String
  readerId : Option String
  burnAt : Option Int
  burnedAt : Option Int
  eventTime : Int

-- The payloads of the writer. Those with the fields of the proto message reuse it.
inductive EventPayload where
  | «recall» («recall» : MessageRecallEvent)
  | edit (edit : EditPayload)
  | delete (delete : MessageDeleteEvent)
  | read (read : ReadPayload)
  | reaction (reaction : ReactionEvent)
  | pin (pin : PinPayload)
  | unpin (unpin : UnpinEvent)
  | mark (mark : MarkEvent)
  | unmark (unmark : UnmarkEvent)
  | burnScheduled (burn : BurnScheduledPayload)
  | burned (burned : BurnedPayload)
  | hardDeleted (deleted : HardDeletedPayload)
  | pluginState (state : PluginStateEvent)
  | message (message : Message)
  | custom (custom : CustomEvent)
  | other

structure Event where
  tenantId : String := ""
  conversationId : String := ""
  seq : Nat := 0
  type : EventType := .unspecified
  createdAt : Option Timestamp := none
  operatorId : String := ""
  eventSeq : Option Nat := none
  requestId : Option String := none
  payload : Option EventPayload := none

-- The wire formats of the proto library, one for each message, and its numbering of event types.
-- A conversation event has no data here: its format is that of no field.
structure Codec where
  message : Format Message
  «recall» : Format MessageRecallEvent
  edit : Format MessageEditEvent
  delete : Format MessageDeleteEvent
  read : Format ReadReceiptEvent
  reaction : Format ReactionEvent
  pin : Format PinEvent
  unpin : Format UnpinEvent
  mark : Format MarkEvent
  unmark : Format UnmarkEvent
  custom : Format CustomEvent
  pluginState : Format PluginStateEvent
  conversation : Format Unit
  conversationDelete : Format Unit
  retentionScheduled : Format MessageRetentionScheduledEvent
  retentionExpired : Format MessageRetentionExpiredEvent
  retentionPurged : Format MessageRetentionPurgedEvent
  content : Format MessageContent
  number : TypeNumber → Int

section Retention

-- The policy and the states the writer puts into the events it stores.
def retentionPolicyAt (expireAt : Int) : MessageRetentionPolicy where
  mode := .afterRead
  trigger := .afterRead
  expireAt := some expireAt
  visibilityAfterExpiration := .redacted

def retentionStateScheduled (readerId : Option String) (expireAt : Int) :
    MessageRetentionState where
  lifecycle := .scheduled
  contentVisibility := .available
  expireAt := some expireAt
  triggeredByUserId := readerId

def retentionStateExpired (readerId : Option String) (expireAt expiredAt : Int) :
    MessageRetentionState where
  lifecycle := .expired
  contentVisibility := .redacted
  expireAt := some expireAt
  expiredAt := some expiredAt
  triggeredByUserId := readerId

def retentionStatePurged (readerId : Option String) (expireAt expiredAt : Option Int)
    (purgedAt : Int) : MessageRetentionState where
  lifecycle := .purged
  contentVisibility := .purged
  expireAt := expireAt
  expiredAt := expiredAt
  purgedAt := some purgedAt
  triggeredByUserId := readerId

end Retention

section Conversion

variable (codec : Codec)

def eventPayloadFromProto : Payload → Option EventPayload
  | .recall «recall» => some (.recall «recall»)
  | .edit edit =>
    some (.edit {
      serverMsgId := edit.serverMsgId
      newContent := (edit.newContent.map codec.content.encode).getD []
      reason := edit.reason
      showEditedMark := edit.showEditedMark })
  | .delete delete => some (.delete delete)
  | .read read =>
    some (.read {
      conversationId := read.conversationId
      readSeq := read.readSeq
      userId := read.userId
      messageIds := read.messageIds
      readAt := read.readAt.bind millisToTimestamp
      burnAfterRead := none })
  | .reaction reaction => some (.reaction reaction)
  | .pin pin =>
    some (.pin {
      serverMsgId := pin.serverMsgId
      pinnedBy := pin.pinnedBy
      reason := pin.reason
      expireAt := pin.expireAt.map fun seconds => ⟨seconds, 0⟩
      scope := pin.scope })
  | .unpin unpin => some (.unpin unpin)
  | .mark mark => some (.mark mark)
  | .unmark unmark => some (.unmark unmark)
  | .retentionScheduled scheduled =>
    some (.burnScheduled {
      conversationId := scheduled.conversationId
      messageId := scheduled.serverMsgId
      readerId := scheduled.readerId
      burnAt := (scheduled.state.bind (·.expireAt)).getD 0
      eventTime := scheduled.scheduledAt })
  | .retentionExpired expired =>
    some (.burned {
      conversationId := expired.conversationId
      messageId := expired.serverMsgId
      readerId := expired.readerId
      burnAt := (expired.state.bind (·.expireAt)).getD 0
      burnedAt := expired.expiredAt
      eventTime := expired.expiredAt })
  | .retentionPurged purged =>
    some (.hardDeleted {
      conversationId := purged.conversationId
      messageId := purged.serverMsgId
      readerId := purged.readerId
      burnAt := purged.state.bind (·.expireAt)
      burnedAt := purged.state.bind (·.expiredAt)
      eventTime := purged.purgedAt })
  | .pluginState state => some (.pluginState state)
  | .message _ | .conversation | .conversationDelete | .custom _ => none

def eventPayloadToProto : EventPayload → Option Payload
  | .recall «recall» => some (.recall «recall»)
  | .edit edit =>
    some (.edit {
      serverMsgId := edit.serverMsgId
      newContent := codec.content.decode edit.newContent
      reason := edit.reason
      showEditedMark := edit.showEditedMark })
  | .delete delete => some (.delete delete)
  | .read read =>
    some (.read {
      conversationId := read.conversationId
      readSeq := read.readSeq
      userId := read.userId
      messageIds := read.messageIds
      readAt := read.readAt.bind timestampToMillis })
  | .reaction reaction => some (.reaction reaction)
  | .pin pin =>
    some (.pin {
      serverMsgId := pin.serverMsgId
      pinnedBy := pin.pinnedBy
      reason := pin.reason
      expireAt := pin.expireAt.map (·.seconds)
      scope := pin.scope })
  | .unpin unpin => some (.unpin unpin)
  | .mark mark => some (.mark mark)
  | .unmark unmark => some (.unmark unmark)
  | .burnScheduled burn =>
    some (.retentionScheduled {
      conversationId := burn.conversationId
      serverMsgId := burn.messageId
      readerId := burn.readerId
      policy := some (retentionPolicyAt burn.burnAt)
      state := some (retentionStateScheduled burn.readerId burn.burnAt)
      scheduledAt := burn.eventTime })
  | .burned burned =>
    some (.retentionExpired {
      conversationId := burned.conversationId
      serverMsgId := burned.messageId
      readerId := burned.readerId
      state := some (retentionStateExpired burned.readerId burned.burnAt burned.burnedAt)
      expiredAt := burned.burnedAt })
  | .hardDeleted deleted =>
    some (.retentionPurged {
      conversationId := deleted.conversationId
      serverMsgId := deleted.messageId
      readerId := deleted.readerId
      state := some (retentionStatePurged deleted.readerId deleted.burnAt deleted.burnedAt
        deleted.eventTime)
      purgedAt := deleted.eventTime })
  | .pluginState state => some (.pluginState state)
  | .message message => some (.message message)
  | .custom _ | .other => none

-- Tenant and operator are no proto fields: they come with the message header.
def eventFromProto (event : Proto.Event) : Event where
  conversationId := event.conversationId
  seq := event.conversationSeq
  type := eventTypeFromI32 event.type
  createdAt := if 0 < event.createdAt then millisToTimestamp event.createdAt else none
  requestId := event.requestId
  payload := event.payload.bind (eventPayloadFromProto codec)

def eventToProto (event : Event) : Proto.Event where
  conversationId := event.conversationId
  conversationSeq := event.seq
  type := eventTypeToProtoI32 event.type
  createdAt := (event.createdAt.bind timestampToMillis).getD 0
  eventId := event.conversationId ++ ":" ++ toString event.seq
  requestId := event.requestId
  payload := event.payload.bind (eventPayloadToProto codec)

end Conversion

def OPERATION_EVENT_WITHOUT_TENANT : String := "operation event without a tenant header"

def headerTenant (event : Event) (ctx : Ctx) : Option String :=
  if isBlank event.tenantId then normalizeOptionalTenantId ctx.tenantId else some event.tenantId

def headerOperator (event : Event) (ctx : Ctx) : String :=
  if event.operatorId = "" then ((ctx.userId.map trim).filter (· ≠ "")).getD ""
  else event.operatorId

def enrichOperationEventFromCtx (event : Event) (ctx : Ctx) : Except String Event :=
  match headerTenant event ctx with
  | some tenantId => .ok { event with tenantId, operatorId := headerOperator event ctx }
  | none => .error OPERATION_EVENT_WITHOUT_TENANT

-- A row of the table of events.
structure EventStreamInsertRow where
  tenantId : String
  conversationId : String
  seq : Int
  eventType : TypeNumber
  legacyEventType : Int
  createdAt : Int
  operatorId : String
  requestId : Option String
  eventSeq : Option Int
  payload : List UInt8
  deriving DecidableEq

-- The reinterpretation of 64 bits as a signed and as an unsigned number.
def asI64 (n : Nat) : Int :=
  if n < 2 ^ 63 then n else n - 2 ^ 64

def asU64 (n : Int) : Nat :=
  if 0 ≤ n then n.toNat else (n + 2 ^ 64).toNat

-- The clock, and the times in milliseconds that the date library has a date for.
structure Clock where
  now : Int
  represents : Int → Bool

section Row

variable (codec : Codec)

-- The inner message alone is encoded. Nothing tells its variant but the event type beside it.
def encodePayloadBytes : Payload → List UInt8
  | .message message => codec.message.encode message
  | .recall «recall» => codec.recall.encode «recall»
  | .edit edit => codec.edit.encode edit
  | .delete delete => codec.delete.encode delete
  | .read read => codec.read.encode read
  | .reaction reaction => codec.reaction.encode reaction
  | .pin pin => codec.pin.encode pin
  | .unpin unpin => codec.unpin.encode unpin
  | .mark mark => codec.mark.encode mark
  | .unmark unmark => codec.unmark.encode unmark
  | .retentionScheduled scheduled => codec.retentionScheduled.encode scheduled
  | .retentionExpired expired => codec.retentionExpired.encode expired
  | .retentionPurged purged => codec.retentionPurged.encode purged
  | .pluginState state => codec.pluginState.encode state
  | .conversation | .conversationDelete | .custom _ => []

def eventToInsertRow (clock : Clock) (event : Event) : Option EventStreamInsertRow :=
  let protoEvent := eventToProto codec event
  if protoEvent.conversationId = "" then none
  else some {
    tenantId := event.tenantId
    conversationId := protoEvent.conversationId
    seq := asI64 protoEvent.conversationSeq
    eventType := protoEvent.type
    legacyEventType := event.type.discriminant
    createdAt :=
      if 0 < protoEvent.createdAt ∧ clock.represents protoEvent.createdAt then protoEvent.createdAt
      else clock.now
    operatorId := event.operatorId
    requestId := protoEvent.requestId
    eventSeq := event.eventSeq.map asI64
    payload := (protoEvent.payload.map (encodePayloadBytes codec)).getD [] }

-- The table of inner messages by event type, for the writer's comparison and for the reader.
def decodeEventPayload (type : Proto.EventType) (payload : List UInt8) : Option Payload :=
  match type with
  | .eventMessage => (codec.message.decode payload).map .message
  | .eventMessageRecall => (codec.recall.decode payload).map .recall
  | .eventMessageEdit => (codec.edit.decode payload).map .edit
  | .eventMessageDelete => (codec.delete.decode payload).map .delete
  | .eventReadReceipt => (codec.read.decode payload).map .read
  | .eventConversationUpdate => (codec.conversation.decode payload).map fun _ => .conversation
  | .eventConversationDelete =>
    (codec.conversationDelete.decode payload).map fun _ => .conversationDelete
  | .eventReaction => (codec.reaction.decode payload).map .reaction
  | .eventPin => (codec.pin.decode payload).map .pin
  | .eventUnpin => (codec.unpin.decode payload).map .unpin
  | .eventMark => (codec.mark.decode payload).map .mark
  | .eventUnmark => (codec.unmark.decode payload).map .unmark
  | .eventMessageRetentionScheduled =>
    (codec.retentionScheduled.decode payload).map .retentionScheduled
  | .eventMessageRetentionExpired =>
    (codec.retentionExpired.decode payload).map .retentionExpired
  | .eventMessageRetentionPurged =>
    (codec.retentionPurged.decode payload).map .retentionPurged
  | .eventCustom => (codec.custom.decode payload).map .custom
  | .eventMessagePluginState => (codec.pluginState.decode payload).map .pluginState
  | .unspecified => none

-- The kind of message in the text of a decoding error.
def decodeKind : Proto.EventType → String
  | .eventMessage => "Message"
  | .eventMessageRecall => "Recall"
  | .eventMessageEdit => "Edit"
  | .eventMessageDelete => "Delete"
  | .eventReadReceipt => "Read"
  | .eventConversationUpdate => "ConversationUpdate"
  | .eventConversationDelete => "ConversationDelete"
  | .eventReaction => "Reaction"
  | .eventPin => "Pin"
  | .eventUnpin => "Unpin"
  | .eventMark => "Mark"
  | .eventUnmark => "Unmark"
  | .eventMessageRetentionScheduled => "RetentionScheduled"
  | .eventMessageRetentionExpired => "RetentionExpired"
  | .eventMessageRetentionPurged => "RetentionPurged"
  | .eventCustom => "Custom"
  | .eventMessagePluginState => "PluginState"
  | .unspecified => ""

def decodePayloadOneof (eventType : TypeNumber) (payload : List UInt8) :
    Except String (Option Payload) :=
  if payload = [] then .ok none
  else
    match Proto.EventType.tryFrom eventType with
    | none | some .unspecified => .ok none
    | some type =>
      match decodeEventPayload codec type payload with
      | some decoded => .ok (some decoded)
      | none => .error ("decode " ++ decodeKind type ++ " event payload")

def protoEventFromEventsRow (row : EventStreamInsertRow) : Except String Proto.Event := do
  let payload ← decodePayloadOneof codec row.eventType row.payload
  return {
    conversationId := row.conversationId
    conversationSeq := asU64 row.seq
    type := row.eventType
    createdAt := row.createdAt
    eventId := row.conversationId ++ ":" ++ toString row.seq
    requestId := row.requestId
    payload := payload }

end Row

end FlareIm.EventRow
