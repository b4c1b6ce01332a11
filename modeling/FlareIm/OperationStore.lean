import FlareIm.EventApplication.Deliveries

namespace FlareIm.OperationStore

open Text Proto EventRow RoundTrip

open EventApplication (FlareError Existing Position BurnRow rowPosition putRow MARK_TYPES
  operationEventConflict streamAppendFailure matchStoredEvent appendEventToStream)

section Tables

def MESSAGE_STATUS_CREATED : Int := 1
def MESSAGE_STATUS_SENT : Int := 2
def MESSAGE_STATUS_FAILED : Int := 4
def MESSAGE_STATUS_RECALLED : Int := 5
def MESSAGE_STATUS_DELETED : Int := 6

def MESSAGE_PIN_SCOPE_SELF : Int := 1
def VISIBILITY_HIDDEN : Int := 1
def REACTION_ACTION_ADD : Int := 1
def DELETE_TYPE_HARD : Int := 2
def DELETE_SCOPE_USER_PRIVATE : Int := 1
def DELETE_SCOPE_CONVERSATION_GLOBAL : Int := 2
def GLOBAL_SCOPE_USER_ID : String := ""

-- The columns the operations read and write. The times that a statement takes from the database's
-- clock are left out, of these and of the other tables. An `extra` that is no object is none.
structure MessageRow where
  tenantId : String
  serverId : String
  clientMsgId : Option String
  status : Int
  content : List UInt8
  extra : Option (List (String × String))
  burn : BurnRow
  burnAfterReadSeconds : Option Int
  firstReadAt : Option Int
  burnAt : Option Int
  offlinePushInfo : Option String
  extensions : List (String × String)

structure EditRow where
  tenantId : String
  messageId : String
  editVersion : Nat
  content : List UInt8
  editorId : String
  reason : Option String
  showEditedMark : Bool

structure MessageKey where
  tenantId : String
  messageId : String
  deriving DecidableEq

structure VisibilityKey extends MessageKey where
  userId : String
  scope : Int
  deriving DecidableEq

structure ReadKey extends MessageKey where
  userId : String
  deriving DecidableEq

structure ReactionKey extends MessageKey where
  emoji : String
  deriving DecidableEq

structure ReactionRow where
  userIds : List String
  count : Int

structure PinKey extends MessageKey where
  conversationId : String
  scope : Int
  ownerUserId : String
  deriving DecidableEq

structure PinRow where
  pinnedBy : String
  expireAt : Option Int
  reason : Option String

structure MarkKey extends MessageKey where
  userId : String
  markType : Int
  deriving DecidableEq

structure MarkRow where
  conversationId : String
  color : Option String

structure PluginStateRow where
  conversationId : String
  pluginId : String
  entity : String
  version : Nat
  valuesJson : String

structure PluginEntityBinding where
  tenantId : String
  pluginId : String
  entity : String
  serverMsgId : String
  conversationId : String
  contributionId : String
  recalled : Bool

structure LifecycleKey where
  tenantId : String
  pluginId : String
  entity : String
  reason : String
  deriving DecidableEq

structure LifecycleRow where
  contributionId : String
  serverMsgId : String

-- A read record carries the time its message was burned.
structure Tables where
  messages : List MessageRow
  editHistory : List EditRow
  visibility : VisibilityKey → Option Int
  reads : ReadKey → Option (Option Int)
  reactions : ReactionKey → Option ReactionRow
  pins : PinKey → Option PinRow
  marks : MarkKey → Option MarkRow
  pluginStates : MessageKey → Option PluginStateRow
  bindings : List PluginEntityBinding
  lifecycleOutbox : LifecycleKey → Option LifecycleRow

end Tables

section Updates

variable (tenantId messageId : String)

def fsmStateToStatusInt (fsmState : String) : Int :=
  match fsmState.toUpper with
  | "CREATED" | "INIT" => MESSAGE_STATUS_CREATED
  | "SENT" | "EDITED" | "DELIVERED" | "READ" => MESSAGE_STATUS_SENT
  | "FAILED" => MESSAGE_STATUS_FAILED
  | "RECALLED" => MESSAGE_STATUS_RECALLED
  | "DELETED_HARD" | "DELETED_SOFT" => MESSAGE_STATUS_DELETED
  | _ => MESSAGE_STATUS_SENT

def hasServerId (row : MessageRow) : Bool :=
  row.tenantId == tenantId && row.serverId == messageId

def hasClientMsgId (row : MessageRow) : Bool :=
  row.tenantId == tenantId && row.clientMsgId == some messageId && row.clientMsgId != some ""

def updateMessages (matching : MessageRow → Bool) (set : MessageRow → MessageRow)
    (tables : Tables) : Tables :=
  { tables with
    messages := tables.messages.map fun row => if matching row then set row else row }

def updateStatusByServerId (status : Int) : Tables → Tables :=
  updateMessages (hasServerId tenantId messageId) fun row => { row with status }

-- The client's id is tried when no row has the id as its server id.
def updateStatusByClientMsgId (status : Int) (tables : Tables) : Tables :=
  if tables.messages.any (hasServerId tenantId messageId) then tables
  else updateMessages (hasClientMsgId tenantId messageId) (fun row => { row with status }) tables

def isUnrecalledBinding (binding : PluginEntityBinding) : Bool :=
  binding.tenantId == tenantId && binding.serverMsgId == messageId && !binding.recalled

def lifecycleKey (binding : PluginEntityBinding) : LifecycleKey :=
  ⟨binding.tenantId, binding.pluginId, binding.entity, "recalled"⟩

-- One statement marks the bindings as recalled and notifies the plugins of those it marked.
def recallBindings (tables : Tables) : Tables :=
  let «recalled» := tables.bindings.filter (isUnrecalledBinding tenantId messageId)
  { tables with
    bindings := tables.bindings.map fun binding =>
      if isUnrecalledBinding tenantId messageId binding then { binding with recalled := true }
      else binding
    lifecycleOutbox := fun key => (tables.lifecycleOutbox key).orElse fun _ =>
      (recalled.find? fun binding => lifecycleKey binding == key).map fun binding =>
        ⟨binding.contributionId, binding.serverMsgId⟩ }

def findEdited (messages : List MessageRow) : Option MessageRow :=
  messages.find? fun row => row.tenantId == tenantId &&
    (row.serverId == messageId || row.clientMsgId == some messageId)

def nextEditVersion (history : List EditRow) : Nat :=
  ((history.filter fun edit => edit.tenantId == tenantId && edit.messageId == messageId).map
    (·.editVersion)).foldr max 0 + 1

def setKey (key value : String) (entries : List (String × String)) : List (String × String) :=
  (key, value) :: entries.filter (·.1 != key)

def editedExtra (contentText : Option String) (version : Nat)
    (extra : Option (List (String × String))) : List (String × String) :=
  let entries := extra.getD []
  let entries := (contentText.map fun text => setKey "contentText" text entries).getD entries
  setKey "currentEditVersion" (toString version) (setKey "messageFsmState" "EDITED" entries)

-- The transaction of an edit, which ends without a change when no message is found.
def updateMessageContent (newContent : List UInt8) (editorId : String) (reason : Option String)
    (contentText : Option String) (tables : Tables) : Tables :=
  match findEdited tenantId messageId tables.messages with
  | none => tables
  | some found =>
    let version := nextEditVersion tenantId found.serverId tables.editHistory
    { tables with
      messages := tables.messages.map fun row =>
        if hasServerId tenantId found.serverId row then
          { row with
            content := newContent
            extra := some (editedExtra contentText version found.extra) }
        else row
      editHistory := tables.editHistory ++
        [⟨tenantId, found.serverId, version, newContent, editorId, reason, true⟩] }

def updateMessageVisibility (key : VisibilityKey) (status : Int) (tables : Tables) : Tables :=
  { tables with visibility := Function.update tables.visibility key (some status) }

def recordMessageRead (key : ReadKey) (tables : Tables) : Tables :=
  { tables with reads := Function.update tables.reads key (some (tables.reads key).join) }

inductive ReactionChange where
  | unchanged
  | update (userIds : List String) (count : Int)
  | delete

def applyReactionChange (userIds : List String) (count : Int) (userId : String) (add : Bool) :
    ReactionChange :=
  let reacted := userIds.any (· == userId)
  if add then
    if reacted then .unchanged else .update (userIds ++ [userId]) (max count 0 + 1)
  else if !reacted then .unchanged
  else
    let remaining := userIds.filter (· != userId)
    let count := max (max count 0 - 1) remaining.length
    if 0 < count then .update remaining count else .delete

def reactionAfter (userId : String) (add : Bool) (row : Option ReactionRow) :
    Option ReactionRow :=
  match row with
  | some row =>
    match applyReactionChange row.userIds row.count userId add with
    | .unchanged => some row
    | .update userIds count => some ⟨userIds, count⟩
    | .delete => none
  | none => if add then some ⟨[userId], 1⟩ else none

def upsertMessageReaction (key : ReactionKey) (userId : String) (add : Bool) (tables : Tables) :
    Tables :=
  { tables with
    reactions := Function.update tables.reactions key
      (reactionAfter userId add (tables.reactions key)) }

-- A pin of the scope of its own user belongs to that user, any other to nobody.
def pinKey (conversationId userId : String) (scope : Int) : PinKey :=
  ⟨⟨tenantId, messageId⟩, conversationId, scope,
    if scope = MESSAGE_PIN_SCOPE_SELF then userId else ""⟩

def pinMessage (key : PinKey) (row : Option PinRow) (tables : Tables) : Tables :=
  { tables with pins := Function.update tables.pins key row }

-- A mark that is there already keeps its conversation.
def markMessage (key : MarkKey) (conversationId : String) (color : Option String)
    (tables : Tables) : Tables :=
  { tables with
    marks := Function.update tables.marks key
      (some ⟨((tables.marks key).map (·.conversationId)).getD conversationId, color⟩) }

def unmarkMessage (key : MarkKey) (tables : Tables) : Tables :=
  { tables with marks := Function.update tables.marks key none }

def isBound (conversationId : String) (state : PluginStateEvent) (tables : Tables) : Bool :=
  tables.bindings.any fun binding =>
    binding.tenantId == tenantId && binding.pluginId == state.pluginId &&
      binding.entity == state.entity && binding.serverMsgId == state.serverMsgId &&
      binding.conversationId == conversationId && !binding.recalled

-- A state of the same entity is overwritten by a higher version alone.
def pluginStateAfter (conversationId : String) (state : PluginStateEvent) :
    Option PluginStateRow → PluginStateRow
  | none => ⟨conversationId, state.pluginId, state.entity, state.version, state.valuesJson⟩
  | some row =>
    if row.version < state.version ∧ row.pluginId = state.pluginId ∧
        row.entity = state.entity then
      { row with version := state.version, valuesJson := state.valuesJson }
    else row

def upsertMessagePluginState (conversationId : String) (state : PluginStateEvent)
    (tables : Tables) : Tables :=
  if isBound tenantId conversationId state tables then
    { tables with
      pluginStates := Function.update tables.pluginStates ⟨tenantId, state.serverMsgId⟩
        (some (pluginStateAfter conversationId state
          (tables.pluginStates ⟨tenantId, state.serverMsgId⟩))) }
  else tables

end Updates

section Burns

variable (tenantId messageId : String)

-- The updates of a message's retention, which change a row or none.
def scheduleMessageBurn (firstReadAt burnAt : Int) (row : MessageRow) : Option MessageRow :=
  (EventApplication.scheduleMessageBurn row.burn).map fun burn =>
    { row with
      burn
      firstReadAt := some (row.firstReadAt.getD firstReadAt)
      burnAt := some (row.burnAt.getD burnAt) }

def scheduleMessageBurnAfterRead (firstReadAt : Int) (row : MessageRow) : Option MessageRow :=
  let seconds := row.burnAfterReadSeconds.getD 0
  if 0 < seconds then scheduleMessageBurn firstReadAt (firstReadAt + max seconds 1) row else none

def clearContent (row : MessageRow) : MessageRow :=
  { row with content := [], offlinePushInfo := none, extensions := [] }

def markMessageBurned (burnedAt : Int) (row : MessageRow) : Option MessageRow :=
  (EventApplication.markMessageBurned burnedAt row.burn).map fun burn =>
    clearContent { row with burn }

def markMessageHardDeleted (row : MessageRow) : Option MessageRow :=
  (EventApplication.markMessageHardDeleted row.burn).map fun burn => clearContent { row with burn }

def burnMatching (update : MessageRow → Option MessageRow) (row : MessageRow) : Bool :=
  hasServerId tenantId messageId row && (update row).isSome

def updateBurn (update : MessageRow → Option MessageRow) : Tables → Tables :=
  updateMessages (burnMatching tenantId messageId update) fun row => (update row).getD row

def burnChanges (update : MessageRow → Option MessageRow) (tables : Tables) : Bool :=
  tables.messages.any (burnMatching tenantId messageId update)

def recordsBurned (burnedAt : Int) (tables : Tables) : Tables :=
  { tables with
    reads := fun key =>
      if key.toMessageKey = ⟨tenantId, messageId⟩ then
        (tables.reads key).map fun burned => some (burned.getD burnedAt)
      else tables.reads key }

end Burns

-- What the writer is run with: the wire formats, the times the date library has a date for, and
-- the check of a plugin's shared state.
structure Setup where
  codec : Codec
  represents : Int → Bool
  sharedStateOk : PluginStateEvent → Bool

structure State where
  tables : Tables
  rows : Position → Existing

-- An update of the tables. One whose error is only logged does not end the delivery.
structure Statement where
  run : Tables → Tables
  swallowed : Bool := false

-- What the handler of an event does: it refuses it, acknowledges it without an effect, or makes
-- its updates and appends the event or not.
inductive Plan where
  | refuse (error : FlareError)
  | acknowledge
  | run (statements : List Statement) (appends : Bool)

section Handlers

variable (setup : Setup) (now : Int) (tables : Tables) (event : EventRow.Event)

def updateMessageFsmState (tenantId messageId fsmState : String) : List Statement :=
  let status := fsmStateToStatusInt fsmState
  if isBlank messageId then []
  else
    [⟨updateStatusByServerId tenantId messageId status, false⟩,
      ⟨updateStatusByClientMsgId tenantId messageId status, false⟩] ++
    if status = MESSAGE_STATUS_RECALLED then [⟨recallBindings tenantId messageId, false⟩] else []

def applyRecall («recall» : MessageRecallEvent) : Plan :=
  if isBlank recall.serverMsgId then .acknowledge
  else .run (updateMessageFsmState event.tenantId recall.serverMsgId "RECALLED") true

def visibilityUserId (delete : MessageDeleteEvent) (scope : Int) : String :=
  if scope = DELETE_SCOPE_CONVERSATION_GLOBAL then GLOBAL_SCOPE_USER_ID
  else (delete.targetUserId.filter (· ≠ "")).getD event.operatorId

def applyDelete (delete : MessageDeleteEvent) : Plan :=
  if isBlank delete.serverMsgId then .acknowledge
  else if delete.deleteType.getD 0 = DELETE_TYPE_HARD then
    .run (updateMessageFsmState event.tenantId delete.serverMsgId "DELETED_HARD") true
  else
    let scope := delete.scope.getD DELETE_SCOPE_USER_PRIVATE
    .run [⟨updateMessageVisibility
      ⟨⟨event.tenantId, delete.serverMsgId⟩, visibilityUserId event delete scope, scope⟩
      VISIBILITY_HIDDEN, false⟩] true

def contentBytesToText (bytes : List UInt8) : Option String :=
  match (setup.codec.content.decode bytes).bind (·.content) with
  | some (.text text) => some text
  | _ => none

def editStatement (edit : EditPayload) : Statement where
  run := updateMessageContent event.tenantId edit.serverMsgId edit.newContent event.operatorId
    (if edit.reason = "" then none else some edit.reason)
    (contentBytesToText setup edit.newContent)

def applyEdit (edit : EditPayload) : Plan :=
  if (findEdited event.tenantId edit.serverMsgId tables.messages).isSome then
    .run [editStatement setup event edit] true
  else .refuse EventApplication.failure

def readFirstReadAt (read : ReadPayload) : Int :=
  ((read.readAt.orElse fun _ => event.createdAt).map (·.seconds)).getD (now / 1000)

-- The read record that a burn after read writes is there already: the line before wrote it. A
-- line of the history that fails is an update that loses its answer.
def readStatements (read : ReadPayload) (messageId : String) : List Statement :=
  ⟨recordMessageRead ⟨⟨event.tenantId, messageId⟩, read.userId⟩, false⟩ ::
    if read.burnAfterRead.getD false then
      [⟨updateBurn event.tenantId messageId
        (scheduleMessageBurnAfterRead (readFirstReadAt now event read)), false⟩]
    else []

def applyRead (read : ReadPayload) : Plan :=
  .run (read.messageIds.flatMap (readStatements now event read)) true

def reactionKey (reaction : ReactionEvent) : ReactionKey :=
  ⟨⟨event.tenantId, reaction.serverMsgId⟩, reaction.emoji⟩

def reactionStatement (reaction : ReactionEvent) : Statement where
  run := upsertMessageReaction (reactionKey event reaction) reaction.userId
    (reaction.action == REACTION_ACTION_ADD)

def applyReaction (reaction : ReactionEvent) : Plan :=
  .run [reactionStatement event reaction] true

def timestampToDatetime (ts : Timestamp) : Option Int :=
  (timestampToMillis ts).filter setup.represents

def pinStatement (pin : PinPayload) : Statement where
  run := pinMessage
    (pinKey event.tenantId pin.serverMsgId event.conversationId pin.pinnedBy pin.scope)
    (some ⟨pin.pinnedBy, pin.expireAt.bind (timestampToDatetime setup),
      pin.reason.filter (· ≠ "")⟩)

def applyPin (pin : PinPayload) : Plan :=
  .run [pinStatement setup event pin] true

def unpinStatement (unpin : UnpinEvent) : Statement where
  run := pinMessage
    (pinKey event.tenantId unpin.serverMsgId event.conversationId unpin.unpinnedBy unpin.scope)
    none

def applyUnpin (unpin : UnpinEvent) : Plan :=
  .run [unpinStatement event unpin] true

def applyMark (mark : MarkEvent) : Plan :=
  if mark.markType ∈ MARK_TYPES then
    .run [⟨markMessage ⟨⟨event.tenantId, mark.serverMsgId⟩, mark.userId, mark.markType⟩
      event.conversationId (if mark.color = "" then none else some mark.color), false⟩] true
  else .refuse ⟨.invalidParameter, "Invalid mark_type"⟩

def applyUnmark (unmark : UnmarkEvent) : Plan :=
  let clear := fun markType =>
    unmarkMessage ⟨⟨event.tenantId, unmark.serverMsgId⟩, unmark.userId, markType⟩
  if unmark.markType ∈ MARK_TYPES then .run [⟨clear unmark.markType, false⟩] true
  else .run (MARK_TYPES.map fun markType => ⟨clear markType, true⟩) true

def applyPluginState (state : PluginStateEvent) : Plan :=
  if state.serverMsgId = "" ∨ state.pluginId = "" ∨ setup.sharedStateOk state = false then
    .refuse ⟨.invalidParameter, "invalid plugin state event"⟩
  else if state.version = 0 ∨ 2 ^ 63 ≤ state.version then .refuse EventApplication.failure
  else .run [⟨upsertMessagePluginState event.tenantId event.conversationId state, false⟩] true

-- The update of the message, and when it changes it, the update of its read records, of which an
-- error is only logged.
def applyBurn (messageId : String) (update : MessageRow → Option MessageRow)
    (records : List (Tables → Tables)) : Plan :=
  let changed := burnChanges event.tenantId messageId update tables
  .run (⟨updateBurn event.tenantId messageId update, false⟩ ::
    if changed then records.map fun record => ⟨record, true⟩ else []) changed

def applyBurnScheduled (burn : BurnScheduledPayload) : Plan :=
  applyBurn tables event burn.messageId (scheduleMessageBurn burn.eventTime burn.burnAt)
    (burn.readerId.toList.map fun readerId =>
      recordMessageRead ⟨⟨event.tenantId, burn.messageId⟩, readerId⟩)

def applyBurned (burned : BurnedPayload) : Plan :=
  let burnedAt := if setup.represents (burned.burnedAt * 1000) then burned.burnedAt * 1000 else now
  applyBurn tables event burned.messageId (markMessageBurned burned.burnedAt)
    [recordsBurned event.tenantId burned.messageId burnedAt]

def applyHardDeleted (deleted : HardDeletedPayload) : Plan :=
  applyBurn tables event deleted.messageId markMessageHardDeleted []

-- `dispatch`, up to its appends.
def plan : Plan :=
  match event.payload with
  | some (.recall «recall») => applyRecall event «recall»
  | some (.edit edit) => applyEdit setup tables event edit
  | some (.delete delete) => applyDelete event delete
  | some (.read read) => applyRead now event read
  | some (.reaction reaction) => applyReaction event reaction
  | some (.pin pin) => applyPin setup event pin
  | some (.unpin unpin) => applyUnpin event unpin
  | some (.mark mark) => applyMark event mark
  | some (.unmark unmark) => applyUnmark event unmark
  | some (.burnScheduled burn) => applyBurnScheduled tables event burn
  | some (.burned burned) => applyBurned setup now tables event burned
  | some (.hardDeleted deleted) => applyHardDeleted tables event deleted
  | some (.pluginState state) => applyPluginState setup event state
  | some (.message _) | some (.custom _) | some .other | none => .acknowledge

end Handlers

section Delivery

-- How the round trips of one delivery end, and its time.
structure Answers where
  now : Int := 0
  checked : Bool := true
  outcomes : Nat → Outcome := fun _ => .answered
  recorded : Bool := true
  inserted : Outcome := .answered

-- The tables after the updates, and whether the delivery goes on.
def runStatements : List Statement → (Nat → Outcome) → Tables → Tables × Bool
  | [], _, tables => (tables, true)
  | statement :: statements, outcomes, tables =>
    let after := if (outcomes 0).takesEffect then statement.run tables else tables
    if outcomes 0 = .answered ∨ statement.swallowed then
      runStatements statements (fun i => outcomes (i + 1)) after
    else (after, false)

variable (setup : Setup) (answers : Answers) (state : State) (event : EventRow.Event)

def clock : Clock := ⟨answers.now, setup.represents⟩

def stream : EventApplication.Stream where
  loadExisting row :=
    if answers.checked then .ok (state.rows (rowPosition row))
    else .error EventApplication.failure
  insert row :=
    if answers.inserted = .answered then .ok (state.rows (rowPosition row))
    else .error EventApplication.failure

def appendRow (rows : Position → Existing) : Position → Existing :=
  match eventToInsertRow setup.codec (clock setup answers) event with
  | some row =>
    if answers.inserted.takesEffect then
      putRow rows (rowPosition row) (some (row.eventType, row.payload))
    else rows
  | none => rows

-- `append_event_and_stream`: the line of the history, which is not modelled, and then the row.
def appendEventAndStream (tables : Tables) : State × Except FlareError Unit :=
  if !answers.recorded then ({ state with tables }, .error EventApplication.failure)
  else
    (⟨tables, appendRow setup answers event state.rows⟩,
      match appendEventToStream setup.codec (clock setup answers) (stream answers state) event with
      | .ok _ => .ok ()
      | .error error => .error (streamAppendFailure error))

def dispatch : State × Except FlareError Unit :=
  match plan setup answers.now state.tables event with
  | .refuse error => (state, .error error)
  | .acknowledge => (state, .ok ())
  | .run statements appends =>
    match runStatements statements answers.outcomes state.tables with
    | (tables, false) => ({ state with tables }, .error EventApplication.failure)
    | (tables, true) =>
      if appends then appendEventAndStream setup answers state event tables
      else ({ state with tables }, .ok ())

-- `process_event`, with the state it leaves.
def processEvent : State × Except FlareError Unit :=
  if event.tenantId = "" then
    (state, .error ⟨.invalidParameter, "Event.tenant_id is required"⟩)
  else
    match matchStoredEvent setup.codec (clock setup answers) (stream answers state) event with
    | .error _ => (state, .error ⟨.databaseError, "Failed to check stored event"⟩)
    | .ok .absent => dispatch setup answers state event
    | .ok .duplicate => (state, .ok ())
    | .ok (.conflict row existing) =>
      (state, .error (operationEventConflict setup.codec row existing))

end Delivery

end FlareIm.OperationStore
