import Mathlib.Algebra.Order.Ring.Int

namespace FlareIm.Proto

-- The content variants. Of their data only what some function reads is kept, a quote is split
-- by whether it has a current content.
inductive Content where
  | text (text : String)
  | richText (text : String)
  | image
  | video
  | audio
  | file
  | location
  | card
  | notification (persistent : Bool)
  | custom (type : String)
  | forward
  | thread
  | linkCard
  | appCard (cardType : String)
  | imageGroup
  | sticker
  | emoji
  | quoteEmpty
  | quote (current : Content)
  | placeholder
  | system (eventKind : String)
  deriving DecidableEq

structure MessageContent where
  content : Option Content := none
  deriving DecidableEq, Inhabited

-- The two statuses the code compares with, and any other number.
inductive MessageStatus where
  | recalled
  | deleted
  | other (code : Int)
  deriving DecidableEq

-- Of the mode of a policy only whether it is the mode without retention.
structure RetentionPolicy where
  noRetention : Bool := false
  expireAfterSeconds : Option Int := none
  deriving DecidableEq, Inhabited

structure Message where
  serverId : String := ""
  clientMsgId : String := ""
  conversationId : String := ""
  senderId : String := ""
  conversationSeq : Nat := 0
  createdAt : Int := 0
  messageType : Int := 0
  status : MessageStatus := .other 0
  content : Option MessageContent := none
  extensions : List (String × List UInt8) := []
  attributes : List (String × String) := []
  retentionPolicy : Option RetentionPolicy := none
  deriving DecidableEq

inductive EventType where
  | unspecified
  | eventMessage
  | eventMessageRecall
  | eventMessageEdit
  | eventMessageDelete
  | eventReadReceipt
  | eventConversationUpdate
  | eventConversationDelete
  | eventReaction
  | eventPin
  | eventUnpin
  | eventMark
  | eventUnmark
  | eventMessageRetentionScheduled
  | eventMessageRetentionExpired
  | eventMessageRetentionPurged
  | eventCustom
  | eventMessagePluginState
  deriving DecidableEq

-- The number in an event's type field: the number of an event type, or another one.
inductive TypeNumber where
  | known (type : EventType)
  | unknown (code : Int)
  deriving DecidableEq

def EventType.tryFrom : TypeNumber → Option EventType
  | .known type => some type
  | .unknown _ => none

structure MessageRecallEvent where
  serverMsgId : String := ""
  reason : String := ""
  timeLimitSeconds : Option Int := none
  allowAdminRecall : Option Bool := none
  deriving DecidableEq, Inhabited

structure MessageEditEvent where
  serverMsgId : String := ""
  newContent : Option MessageContent := none
  reason : String := ""
  showEditedMark : Bool := false
  deriving DecidableEq, Inhabited

structure MessageDeleteEvent where
  serverMsgId : String := ""
  deleteType : Option Int := none
  scope : Option Int := none
  targetUserId : Option String := none
  reason : Option String := none
  notifyOthers : Option Bool := none
  deriving DecidableEq, Inhabited

structure ReadReceiptEvent where
  conversationId : String := ""
  readSeq : Nat := 0
  userId : String := ""
  messageIds : List String := []
  readAt : Option Int := none
  deriving DecidableEq, Inhabited

structure ReactionEvent where
  serverMsgId : String := ""
  userId : String := ""
  emoji : String := ""
  action : Int := 0
  deriving DecidableEq, Inhabited

structure PinEvent where
  serverMsgId : String := ""
  pinnedBy : String := ""
  reason : Option String := none
  expireAt : Option Int := none
  scope : Int := 0
  deriving DecidableEq, Inhabited

structure UnpinEvent where
  serverMsgId : String := ""
  unpinnedBy : String := ""
  scope : Int := 0
  deriving DecidableEq, Inhabited

structure MarkEvent where
  serverMsgId : String := ""
  userId : String := ""
  markType : Int := 0
  color : String := ""
  deriving DecidableEq, Inhabited

structure UnmarkEvent where
  serverMsgId : String := ""
  userId : String := ""
  markType : Int := 0
  deriving DecidableEq, Inhabited

structure CustomEvent where
  namespace_ : String := ""
  name : String := ""
  version : String := ""
  payload : List UInt8 := []
  attributes : List (String × String) := []
  deriving DecidableEq, Inhabited

structure PluginStateEvent where
  serverMsgId : String := ""
  pluginId : String := ""
  entity : String := ""
  version : Nat := 0
  valuesJson : String := ""
  deriving DecidableEq, Inhabited

-- The modes, triggers, stages and visibilities a writer sets, and any other number.
inductive RetentionMode where
  | afterRead
  | other (code : Int)
  deriving DecidableEq

inductive RetentionTrigger where
  | afterRead
  | other (code : Int)
  deriving DecidableEq

inductive ContentVisibility where
  | available
  | redacted
  | purged
  | other (code : Int)
  deriving DecidableEq

inductive MessageRetentionLifecycle where
  | scheduled
  | expired
  | purged
  | other (code : Int)
  deriving DecidableEq

-- The policy as the event of a scheduled message carries it.
structure MessageRetentionPolicy where
  mode : RetentionMode := .other 0
  trigger : RetentionTrigger := .other 0
  expireAfterSeconds : Option Int := none
  expireAt : Option Int := none
  visibilityAfterExpiration : ContentVisibility := .other 0
  attributes : List (String × String) := []
  deriving DecidableEq, Inhabited

structure MessageRetentionState where
  lifecycle : MessageRetentionLifecycle := .other 0
  contentVisibility : ContentVisibility := .other 0
  firstTriggeredAt : Option Int := none
  expireAt : Option Int := none
  expiredAt : Option Int := none
  purgedAt : Option Int := none
  triggeredByUserId : Option String := none
  deriving DecidableEq, Inhabited

structure MessageRetentionScheduledEvent where
  conversationId : String := ""
  serverMsgId : String := ""
  readerId : Option String := none
  policy : Option MessageRetentionPolicy := none
  state : Option MessageRetentionState := none
  scheduledAt : Int := 0
  deriving DecidableEq, Inhabited

structure MessageRetentionExpiredEvent where
  conversationId : String := ""
  serverMsgId : String := ""
  readerId : Option String := none
  state : Option MessageRetentionState := none
  expiredAt : Int := 0
  deriving DecidableEq, Inhabited

structure MessageRetentionPurgedEvent where
  conversationId : String := ""
  serverMsgId : String := ""
  readerId : Option String := none
  state : Option MessageRetentionState := none
  purgedAt : Int := 0
  deriving DecidableEq, Inhabited

-- The data of conversation events is read by none of the modelled functions.
inductive Payload where
  | message (message : Message)
  | «recall» («recall» : MessageRecallEvent)
  | edit (edit : MessageEditEvent)
  | delete (delete : MessageDeleteEvent)
  | read (read : ReadReceiptEvent)
  | conversation
  | conversationDelete
  | reaction (reaction : ReactionEvent)
  | pin (pin : PinEvent)
  | unpin (unpin : UnpinEvent)
  | mark (mark : MarkEvent)
  | unmark (unmark : UnmarkEvent)
  | retentionScheduled (scheduled : MessageRetentionScheduledEvent)
  | retentionExpired (expired : MessageRetentionExpiredEvent)
  | retentionPurged (purged : MessageRetentionPurgedEvent)
  | custom (custom : CustomEvent)
  | pluginState (state : PluginStateEvent)
  deriving DecidableEq

structure Event where
  conversationId : String := ""
  conversationSeq : Nat := 0
  type : TypeNumber := .known .unspecified
  createdAt : Int := 0
  eventId : String := ""
  requestId : Option String := none
  payload : Option Payload := none
  deriving DecidableEq

-- The event type under which a payload is read back.
def Payload.eventType : Payload → EventType
  | .message _ => .eventMessage
  | .recall _ => .eventMessageRecall
  | .edit _ => .eventMessageEdit
  | .delete _ => .eventMessageDelete
  | .read _ => .eventReadReceipt
  | .conversation => .eventConversationUpdate
  | .conversationDelete => .eventConversationDelete
  | .reaction _ => .eventReaction
  | .pin _ => .eventPin
  | .unpin _ => .eventUnpin
  | .mark _ => .eventMark
  | .unmark _ => .eventUnmark
  | .retentionScheduled _ => .eventMessageRetentionScheduled
  | .retentionExpired _ => .eventMessageRetentionExpired
  | .retentionPurged _ => .eventMessageRetentionPurged
  | .custom _ => .eventCustom
  | .pluginState _ => .eventMessagePluginState

end FlareIm.Proto
