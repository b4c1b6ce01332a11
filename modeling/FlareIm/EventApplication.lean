import FlareIm.EventRow
import FlareIm.Lib.Fallible

namespace FlareIm.EventApplication

open Text Context Proto EventRow Fallible

inductive ErrorCode where
  | internalError
  | invalidParameter
  | databaseError
  | httpConflict
  deriving DecidableEq

structure FlareError where
  code : ErrorCode
  reason : String
  deriving DecidableEq

inductive ExistingEvent where
  | identical
  | sameContent
  | legacyTypeTag
  | sameMessage
  | conflict
  deriving DecidableEq

-- The redelivery of one message: its identity and its content, not its metadata.
def sameMessage (existing new : Message) : Bool :=
  new.serverId != "" && existing.serverId == new.serverId &&
    existing.clientMsgId == new.clientMsgId && existing.senderId == new.senderId &&
    existing.conversationId == new.conversationId &&
    existing.conversationSeq == new.conversationSeq &&
    existing.messageType == new.messageType && existing.content == new.content

section Stream

variable (codec : Codec)

def decodeStored (type : TypeNumber) (payload : List UInt8) : Option Payload :=
  (Proto.EventType.tryFrom type).bind fun type => decodeEventPayload codec type payload

def matchExistingEvent (existingEventType : TypeNumber) (existingPayload : List UInt8)
    (row : EventStreamInsertRow) (acceptLegacyTypeTag : Bool) : ExistingEvent :=
  if existingEventType = row.eventType ∧ existingPayload = row.payload then .identical
  else
    let legacyTypeTag := acceptLegacyTypeTag && row.payload != [] &&
      existingEventType != row.eventType && codec.number existingEventType == row.legacyEventType
    if existingEventType ≠ row.eventType ∧ !legacyTypeTag then .conflict
    else if existingPayload = row.payload then .legacyTypeTag
    else
      match decodeStored codec row.eventType existingPayload,
        decodeStored codec row.eventType row.payload with
      | some existing, some new =>
        if existing = new then if legacyTypeTag then .legacyTypeTag else .sameContent
        else
          match existing, new with
          | .message existing, .message new =>
            if !legacyTypeTag && sameMessage existing new then .sameMessage else .conflict
          | _, _ => .conflict
      | _, _ => .conflict

-- What stands at the position of a row: the type and payload of another row, or nothing.
abbrev Existing := Option (TypeNumber × List UInt8)

-- The answers of the table of events. An insert that finds its position taken answers with
-- the row that is there.
structure Stream where
  loadExisting : EventStreamInsertRow → Except FlareError Existing
  insert : EventStreamInsertRow → Except FlareError Existing

def positionText (row : EventStreamInsertRow) : String :=
  " tenant_id=" ++ row.tenantId ++ " conversation_id=" ++ row.conversationId ++ " seq=" ++
    toString row.seq

def eventStreamConflict (row : EventStreamInsertRow) (existingEventType : TypeNumber) :
    FlareError :=
  ⟨.httpConflict, "event stream conflict" ++ positionText row ++ " existing_type=" ++
    toString (codec.number existingEventType) ++ " new_type=" ++
    toString (codec.number row.eventType)⟩

def isConflict (row : EventStreamInsertRow) (existing : TypeNumber × List UInt8) : Bool :=
  matchExistingEvent codec existing.1 existing.2 row true == .conflict

-- The row of the appended event. An event without a conversation has none.
def appendEventToStream (clock : Clock) (stream : Stream) (event : EventRow.Event) :
    Except FlareError (Option EventStreamInsertRow) :=
  match eventToInsertRow codec clock event with
  | none => .ok none
  | some row =>
    match stream.insert row with
    | .error error => .error error
    | .ok none => .ok (some row)
    | .ok (some existing) =>
      if isConflict codec row existing then .error (eventStreamConflict codec row existing.1)
      else .ok (some row)

inductive StoredEventMatch where
  | absent
  | duplicate
  | conflict (row : EventStreamInsertRow) (existingEventType : TypeNumber)

def matchStoredEvent (clock : Clock) (stream : Stream) (event : EventRow.Event) :
    Except FlareError StoredEventMatch :=
  match eventToInsertRow codec clock event with
  | none => .ok .absent
  | some row =>
    match stream.loadExisting row with
    | .error error => .error error
    | .ok none => .ok .absent
    | .ok (some existing) =>
      if isConflict codec row existing then .ok (.conflict row existing.1)
      else .ok .duplicate

end Stream

-- The answers of the archive to the updates of one handler: the update of the message's own
-- tables, which tells whether it changed anything, and the line of the operation history.
structure Archive where
  update : EventPayload → Except FlareError Bool
  appendEvent : EventPayload → Except FlareError Unit
  sharedStateOk : PluginStateEvent → Bool

structure Writer where
  clock : Clock
  archive : Option Archive
  stream : Option Stream

def MARK_TYPES : List Int := [1, 2, 3, 4]

-- A failed append keeps a conflict and turns everything else into a database error.
def streamAppendFailure (error : FlareError) : FlareError :=
  if error.code = .httpConflict then error
  else ⟨.databaseError, "Failed to append operation event to durable event stream"⟩

section Handlers

variable (codec : Codec) (clock : Clock) (archive : Archive) (stream : Stream)

def appendEventAndStream (event : EventRow.Event) (payload : EventPayload) :
    Except FlareError (Option EventStreamInsertRow) := do
  archive.appendEvent payload
  (appendEventToStream codec clock stream event).mapError streamAppendFailure

def updateAndAppend (event : EventRow.Event) (payload : EventPayload) :
    Except FlareError (Option EventStreamInsertRow) := do
  let _ ← archive.update payload
  appendEventAndStream codec clock archive stream event payload

def applyBurn (event : EventRow.Event) (payload : EventPayload) :
    Except FlareError (Option EventStreamInsertRow) := do
  let changed ← archive.update payload
  if changed then appendEventAndStream codec clock archive stream event payload else .ok none

-- The row the event's handler appended. A recall or a delete without a message is acknowledged
-- and nothing else.
def dispatch (event : EventRow.Event) : Except FlareError (Option EventStreamInsertRow) :=
  match event.payload with
  | some (.recall «recall») =>
    if isBlank recall.serverMsgId then .ok none
    else updateAndAppend codec clock archive stream event (.recall «recall»)
  | some (.delete delete) =>
    if isBlank delete.serverMsgId then .ok none
    else updateAndAppend codec clock archive stream event (.delete delete)
  | some (.mark mark) =>
    if mark.markType ∈ MARK_TYPES then
      updateAndAppend codec clock archive stream event (.mark mark)
    else .error ⟨.invalidParameter, "Invalid mark_type"⟩
  | some (.unmark unmark) =>
    -- No type clears every mark, each as far as it goes.
    if unmark.markType ∈ MARK_TYPES then
      updateAndAppend codec clock archive stream event (.unmark unmark)
    else appendEventAndStream codec clock archive stream event (.unmark unmark)
  | some (.pluginState state) =>
    if state.serverMsgId = "" ∨ state.pluginId = "" ∨ archive.sharedStateOk state = false then
      .error ⟨.invalidParameter, "invalid plugin state event"⟩
    else updateAndAppend codec clock archive stream event (.pluginState state)
  | some (.burnScheduled burn) => applyBurn codec clock archive stream event (.burnScheduled burn)
  | some (.burned burned) => applyBurn codec clock archive stream event (.burned burned)
  | some (.hardDeleted deleted) =>
    applyBurn codec clock archive stream event (.hardDeleted deleted)
  | some (.edit edit) => updateAndAppend codec clock archive stream event (.edit edit)
  | some (.read read) => updateAndAppend codec clock archive stream event (.read read)
  | some (.reaction reaction) =>
    updateAndAppend codec clock archive stream event (.reaction reaction)
  | some (.pin pin) => updateAndAppend codec clock archive stream event (.pin pin)
  | some (.unpin unpin) => updateAndAppend codec clock archive stream event (.unpin unpin)
  | some (.message _) | some (.custom _) | some .other | none => .ok none

end Handlers

def operationEventConflict (codec : Codec) (row : EventStreamInsertRow)
    (existingEventType : TypeNumber) : FlareError :=
  ⟨.httpConflict, "operation event conflict" ++ positionText row ++ " existing_type=" ++
    toString (codec.number existingEventType)⟩

-- The row the event was appended as. An event that was already applied is skipped.
def processEvent (codec : Codec) (writer : Writer) (event : EventRow.Event) :
    Except FlareError (Option EventStreamInsertRow) :=
  match writer.archive with
  | none => .error ⟨.internalError, "Archive repository not configured"⟩
  | some archive =>
    if event.tenantId = "" then .error ⟨.invalidParameter, "Event.tenant_id is required"⟩
    else
      match writer.stream with
      | none => .error ⟨.internalError, "Event stream repository not configured"⟩
      | some stream =>
        match matchStoredEvent codec writer.clock stream event with
        | .error _ => .error ⟨.databaseError, "Failed to check stored event"⟩
        | .ok .absent => dispatch codec writer.clock archive stream event
        | .ok .duplicate => .ok none
        | .ok (.conflict row existing) => .error (operationEventConflict codec row existing)

-- An operation event from the queue, with the context of its header.
def consume (codec : Codec) (writer : Writer) (header : Ctx) (event : Proto.Event) :
    Except FlareError (Option EventStreamInsertRow) :=
  match enrichOperationEventFromCtx (eventFromProto codec event) header with
  | .error reason => .error ⟨.invalidParameter, reason⟩
  | .ok event => processEvent codec writer event

end FlareIm.EventApplication
