import FlareIm.Context
import FlareIm.Lib.Fallible
import FlareIm.Lib.Listing
import FlareIm.Proto

namespace FlareIm.OperationPolicy

open Text Context Proto Fallible

def RECALL_WINDOW_MS : Int := 24 * 3600 * 1000
def EDIT_WINDOW_MS : Int := 24 * 3600 * 1000
def TRUSTED_OPERATION_SERVICES : List String := ["flare-social-bridge"]
def MAX_RECEIPT_MESSAGE_IDS : Nat := 50

inductive ErrorCode where
  | permissionDenied
  | invalidParameter
  | serviceUnavailable
  | databaseError
  deriving DecidableEq

structure FlareError where
  code : ErrorCode
  reason : String
  details : String := ""
  deriving DecidableEq

namespace Reason

def NOT_SENDER : String := "MESSAGE_OPERATION_NOT_SENDER"
def CONVERSATION_MISMATCH : String := "MESSAGE_OPERATION_CONVERSATION_MISMATCH"
def WINDOW_EXPIRED : String := "MESSAGE_OPERATION_WINDOW_EXPIRED"
def NOT_EDITABLE : String := "MESSAGE_NOT_EDITABLE"
def PLUGIN_CARD_NOT_EDITABLE : String := "PLUGIN_CARD_NOT_EDITABLE"
def IDENTITY_MISMATCH : String := "MESSAGE_OPERATION_IDENTITY_MISMATCH"
def FORBIDDEN : String := "MESSAGE_OPERATION_FORBIDDEN"
def REASON_REQUIRED : String := "MESSAGE_OPERATION_REASON_REQUIRED"
def NOT_MEMBER : String := "MESSAGE_OPERATION_NOT_MEMBER"

end Reason

def denied (code details : String) : FlareError :=
  ⟨.permissionDenied, code, details⟩

def invalid (details : String) : FlareError :=
  ⟨.invalidParameter, "MESSAGE_OPERATION_INVALID", details⟩

inductive Operator where
  | user (id : String)
  | trusted (id : String)
  | statePublisher
  | none
  deriving DecidableEq

-- A signed context decides by its claims. An unsigned one is a user at most.
def Operator.of (ctx : Ctx) : Operator :=
  match ctx.claims with
  | some claims =>
    if isCardPostContext claims then
      if isPluginStatePublisher claims then .statePublisher else .none
    else
      match claims.actorType with
      | .user | .tenantAdmin => if claims.actorId ≠ "" then .user claims.actorId else .none
      | .system => if claims.actorId ≠ "" then .trusted claims.actorId else .none
      | .service =>
        if claims.actorId ∈ TRUSTED_OPERATION_SERVICES then .trusted claims.actorId else .none
      | .staff | .guest => .none
  | .none =>
    let named := ctx.userId.filter fun id => !isBlank id
    let acting := ((ctx.actor.filter (·.isUser)).map (·.actorId)).filter fun id => !isBlank id
    match named.or acting with
    | some id => .user id
    | .none => .none

def PLUGIN_CARD_TYPE : String := "flare.plugin.message.v1"

def toAsciiLower (c : Char) : Char :=
  if 'A' ≤ c ∧ c ≤ 'Z' then Char.ofNat (c.toNat + 32) else c

def isPluginCardType (value : String) : Bool :=
  (trim value).toList.map toAsciiLower == PLUGIN_CARD_TYPE.toList.map toAsciiLower

def claimsPluginCard (content : Option MessageContent) : Bool :=
  match content.bind (·.content) with
  | some (.appCard cardType) => isPluginCardType cardType
  | some (.custom type) => isPluginCardType type
  | _ => false

def messageClaimsPluginCard (message : Message) : Bool :=
  claimsPluginCard message.content

def editable (content : Option MessageContent) : Bool :=
  match content.bind (·.content) with
  | some (.text _) | some (.richText _) => true
  | some (.quote (.text _)) | some (.quote (.richText _)) => true
  | _ => false

inductive MembershipRead where
  | recent
  | current
  deriving DecidableEq

def membershipRead : Option Payload → MembershipRead
  | some (.read _) | some (.reaction _) => .recent
  | _ => .current

def bindUser (field : String) : Operator → Except FlareError String
  | .user user =>
    if field = "" then .ok user
    else if field = user then .ok field
    else .error (denied Reason.IDENTITY_MISMATCH "the event names another user than its operator")
  | .trusted _ =>
    if field ≠ "" then .ok field else .error (invalid "a trusted operation must name its user")
  | .statePublisher | .none =>
    .error (denied Reason.FORBIDDEN "this identity may not operate on messages")

-- The stored messages, as the repository answers for them.
structure Targets where
  message : String → String → Except FlareError (Option Message)
  conversationsOf : String → List String → Except FlareError (String → Option String)

-- The membership answers of the conversation service.
structure Members where
  isMember : String → String → String → MembershipRead → Except FlareError Bool

structure Policy where
  targets : Option Targets
  members : Option Members
  nowMs : Int

def messageNotStored (details : String) : FlareError :=
  ⟨.serviceUnavailable, "message not stored yet", details⟩

def authorizationUnavailable : FlareError :=
  ⟨.serviceUnavailable, "message operation authorization unavailable", ""⟩

-- The stored message an event names. It must belong to the event's conversation.
def target (policy : Policy) (tenantId conversationId serverMsgId : String) :
    Except FlareError Message :=
  if isBlank serverMsgId then .error (invalid "the event names no message")
  else
    match policy.targets with
    | none => .error authorizationUnavailable
    | some targets =>
      match targets.message tenantId serverMsgId with
      | .error error => .error error
      | .ok none => .error (messageNotStored "retry the operation shortly")
      | .ok (some message) =>
        if message.serverId ≠ serverMsgId then
          .error (denied Reason.CONVERSATION_MISMATCH
            "the event names no message of this conversation")
        else if message.conversationId ≠ conversationId then
          .error (denied Reason.CONVERSATION_MISMATCH
            "the message belongs to another conversation")
        else .ok message

def requireMember (policy : Policy) (tenantId conversationId user : String)
    (read : MembershipRead) : Except FlareError Unit :=
  match policy.members with
  | none => .error ⟨.serviceUnavailable, "conversation membership unavailable", ""⟩
  | some members =>
    match members.isMember tenantId conversationId user read with
    | .error error => .error error
    | .ok true => .ok ()
    | .ok false =>
      .error (denied Reason.NOT_MEMBER "the operator is not a member of this conversation")

def receiptTargets (policy : Policy) (tenantId conversationId : String)
    (messageIds : List String) : Except FlareError Unit :=
  if MAX_RECEIPT_MESSAGE_IDS < messageIds.length then
    .error (invalid ("a read receipt names at most " ++ toString MAX_RECEIPT_MESSAGE_IDS ++
      " messages"))
  else
    let distinct := Listing.distinct messageIds
    if distinct = [] then .ok ()
    else if distinct.any isBlank then .error (invalid "a read receipt names an empty message id")
    else
      match policy.targets with
      | none => .error authorizationUnavailable
      | some targets =>
        match targets.conversationsOf tenantId distinct with
        | .error error => .error error
        | .ok located =>
          let conversations := distinct.map located
          if conversations.any (fun found => found.any (· ≠ conversationId)) then
            .error (denied Reason.CONVERSATION_MISMATCH
              "the receipt names a message of another conversation")
          else if conversations.contains none then
            .error (messageNotStored "retry the receipt shortly")
          else .ok ()

-- Subtraction of 64-bit integers that stops at the bounds.
def saturatingSub (a b : Int) : Int :=
  max (min (a - b) (2 ^ 63 - 1)) (-2 ^ 63)

def senderWithin (policy : Policy) (message : Message) (windowMs : Int) :
    Operator → Except FlareError Unit
  | .trusted _ => .ok ()
  | .user user =>
    if user = message.senderId then
      if message.createdAt ≤ 0 ∨ windowMs < saturatingSub policy.nowMs message.createdAt then
        .error (denied Reason.WINDOW_EXPIRED "the operation window of this message has passed")
      else .ok ()
    else .error (denied Reason.NOT_SENDER "only the sender may do this to a message")
  | .statePublisher | .none =>
    .error (denied Reason.FORBIDDEN "this identity may not operate on messages")

def Operator.isTrusted : Operator → Bool
  | .trusted _ => true
  | _ => false

-- What the payload functions below share: the operator and the event they act for.
structure Request where
  policy : Policy
  tenantId : String
  conversationId : String
  operator : Operator

def Request.target (request : Request) (serverMsgId : String) : Except FlareError Message :=
  OperationPolicy.target request.policy request.tenantId request.conversationId serverMsgId

def Request.senderWithin (request : Request) (message : Message) (windowMs : Int) :
    Except FlareError Unit :=
  OperationPolicy.senderWithin request.policy message windowMs request.operator

def Request.bindUser (request : Request) (field : String) : Except FlareError String :=
  OperationPolicy.bindUser field request.operator

def authorizeRecall (request : Request) («recall» : MessageRecallEvent) :
    Except FlareError MessageRecallEvent := do
  let message ← request.target recall.serverMsgId
  request.senderWithin message RECALL_WINDOW_MS
  refuseIf (request.operator.isTrusted && isBlank recall.reason)
    (denied Reason.REASON_REQUIRED "a service recalling a message must say why")
  return { «recall» with timeLimitSeconds := none, allowAdminRecall := none }

def authorizeEdit (request : Request) (edit : MessageEditEvent) :
    Except FlareError MessageEditEvent := do
  refuseIf (claimsPluginCard edit.newContent)
    (denied Reason.PLUGIN_CARD_NOT_EDITABLE "an edit may not produce a plugin card")
  refuseIf (!editable edit.newContent)
    (denied Reason.NOT_EDITABLE "only text and rich text can be the content of an edit")
  let message ← request.target edit.serverMsgId
  refuseIf (messageClaimsPluginCard message)
    (denied Reason.PLUGIN_CARD_NOT_EDITABLE "a plugin card is never edited")
  refuseIf (!editable message.content || message.status == .recalled ||
      message.status == .deleted)
    (denied Reason.NOT_EDITABLE "only text and rich text messages can be edited")
  request.senderWithin message EDIT_WINDOW_MS
  return edit

def DELETE_TYPE_HARD : Int := 2
def DELETE_SCOPE_CONVERSATION_GLOBAL : Int := 2

def isHardDelete (delete : MessageDeleteEvent) : Bool :=
  delete.deleteType == some DELETE_TYPE_HARD

def isGlobalDelete (delete : MessageDeleteEvent) : Bool :=
  match delete.scope with
  | some scope => scope == DELETE_SCOPE_CONVERSATION_GLOBAL
  | none => isHardDelete delete

def authorizeDelete (request : Request) (delete : MessageDeleteEvent) :
    Except FlareError MessageDeleteEvent := do
  refuseIf (isHardDelete delete && !request.operator.isTrusted)
    (denied Reason.FORBIDDEN "a hard delete is a trusted service operation")
  let message ← request.target delete.serverMsgId
  if isGlobalDelete delete then
    request.senderWithin message RECALL_WINDOW_MS
    return delete
  else
    let target ← request.bindUser (delete.targetUserId.getD "")
    return { delete with targetUserId := some target }

def authorizeReaction (request : Request) (reaction : ReactionEvent) :
    Except FlareError ReactionEvent := do
  let user ← request.bindUser reaction.userId
  let _ ← request.target reaction.serverMsgId
  return { reaction with userId := user }

def authorizePin (request : Request) (pin : PinEvent) : Except FlareError PinEvent := do
  let user ← request.bindUser pin.pinnedBy
  let _ ← request.target pin.serverMsgId
  return { pin with pinnedBy := user }

def authorizeUnpin (request : Request) (unpin : UnpinEvent) : Except FlareError UnpinEvent := do
  let user ← request.bindUser unpin.unpinnedBy
  let _ ← request.target unpin.serverMsgId
  return { unpin with unpinnedBy := user }

def authorizeMark (request : Request) (mark : MarkEvent) : Except FlareError MarkEvent := do
  let user ← request.bindUser mark.userId
  let _ ← request.target mark.serverMsgId
  return { mark with userId := user }

def authorizeUnmark (request : Request) (unmark : UnmarkEvent) :
    Except FlareError UnmarkEvent := do
  let user ← request.bindUser unmark.userId
  let _ ← request.target unmark.serverMsgId
  return { unmark with userId := user }

def authorizeRead (request : Request) (read : ReadReceiptEvent) :
    Except FlareError ReadReceiptEvent := do
  let user ← request.bindUser read.userId
  refuseIf (read.conversationId ≠ "" ∧ read.conversationId ≠ request.conversationId)
    (denied Reason.CONVERSATION_MISMATCH "the receipt names another conversation")
  receiptTargets request.policy request.tenantId request.conversationId read.messageIds
  return { read with userId := user }

-- The attributes of a custom event that name a user.
def USER_ATTRIBUTES : List String :=
  ["user_id", "userId", "operator_id", "operatorId", "x-user-id"]

def authorizeCustom (request : Request) (custom : CustomEvent) :
    Except FlareError CustomEvent :=
  match request.operator with
  | .user user =>
    if USER_ATTRIBUTES.any fun key => (custom.attributes.lookup key).any (· ≠ user) then
      .error (denied Reason.IDENTITY_MISMATCH "the event names another user than its operator")
    else .ok custom
  | _ => .ok custom

-- The payloads only a trusted service may send, whatever they say.
def isServicePayload : Payload → Bool
  | .message _ | .conversation | .conversationDelete | .retentionScheduled _
  | .retentionExpired _ | .retentionPurged _ => true
  | _ => false

def authorizePayload (request : Request) : Payload → Except FlareError Payload
  | .recall «recall» => .recall <$> authorizeRecall request «recall»
  | .edit edit => .edit <$> authorizeEdit request edit
  | .delete delete => .delete <$> authorizeDelete request delete
  | .reaction reaction => .reaction <$> authorizeReaction request reaction
  | .pin pin => .pin <$> authorizePin request pin
  | .unpin unpin => .unpin <$> authorizeUnpin request unpin
  | .mark mark => .mark <$> authorizeMark request mark
  | .unmark unmark => .unmark <$> authorizeUnmark request unmark
  | .read read => .read <$> authorizeRead request read
  | .custom custom => .custom <$> authorizeCustom request custom
  | payload =>
    if isServicePayload payload && !request.operator.isTrusted then
      .error (denied Reason.FORBIDDEN "only a trusted service sends this event")
    else .ok payload

-- The payloads for which a user's membership is looked up.
def needsMembership : Option Payload → Bool
  | none => false
  | some (.pluginState _) => false
  | some payload => !isServicePayload payload

def checkMembership (policy : Policy) (tenantId : String) (event : Event) :
    Operator → Except FlareError Unit
  | .user user =>
    if needsMembership event.payload then
      requireMember policy tenantId event.conversationId user (membershipRead event.payload)
    else .ok ()
  | _ => .ok ()

-- A plugin state event is let through here: validation has its gate.
def authorize (policy : Policy) (ctx : Ctx) (tenantId : String) (event : Event) :
    Except FlareError Event :=
  let operator := Operator.of ctx
  if EventType.tryFrom event.type = some .eventMessagePluginState then .ok event
  else do
    refuseIf (operator = .statePublisher ∨ operator = .none)
      (denied Reason.FORBIDDEN "this identity may not send message events")
    checkMembership policy tenantId event operator
    match event.payload with
    | none => .error (invalid "the event carries no payload")
    | some payload =>
      let payload ← authorizePayload ⟨policy, tenantId, event.conversationId, operator⟩ payload
      return { event with payload := some payload }

end FlareIm.OperationPolicy
