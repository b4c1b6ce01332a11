import FlareIm.OnlinePush
import Mathlib.Data.List.Basic

namespace FlareIm.TargetedTasks

open Context Text
open OnlinePush (PushTaskPayloadKind ErrorCode Order)

structure FlareError where
  code : ErrorCode
  message : String
  details : Option String := none

section Payloads

structure Mention where
  type : Int
  userId : String
  userIds : List String

structure NotificationContent where
  title : String
  body : String
  showInList : Bool
  showBadge : Bool
  playSound : Bool

-- The content of a message. A content of a kind that is not set is `unset`.
inductive MessageContent where
  | unset
  | text (mentions : List Mention)
  | richText
  | quote (currentContent : Option MessageContent)
  | notification (notice : NotificationContent)
  | other (kind : String)

structure Message where
  content : Option MessageContent

-- An event, with its payload when that is a message.
structure Event where
  type : Int
  message : Option Message

structure PushMessageRequest where
  userIds : List String
  messages : List Message

structure PushEventRequest where
  userIds : List String
  events : List Event

structure PushTaskEnvelope where
  userId : String
  messageId : String
  conversationId : String
  tenantId : String
  priority : Int
  expireAt : Option Int
  pushPayload : List UInt8
  headers : List (String × String)
  payloadKind : Int

-- The generated code. Of the requests other than messages and events only the users are changed.
structure Codec where
  payloadKind : Int → Option PushTaskPayloadKind
  eventMessage : Int
  mentionAll : Int
  message : List UInt8 → Except String PushMessageRequest
  event : List UInt8 → Except String PushEventRequest
  encodeMessage : PushMessageRequest → List UInt8
  encodeEvent : PushEventRequest → List UInt8
  notificationFor : List String → List UInt8 → Except String (List UInt8)
  ackFor : List String → List UInt8 → Except String (List UInt8)
  customFor : List String → List UInt8 → Except String (List UInt8)
  capabilityFor : List String → List UInt8 → Except String (List UInt8)
  encodeTask : PushTaskEnvelope → List UInt8

end Payloads

variable (codec : Codec)

section Alerts

def messageHasMobileAlert (message : Message) : Bool :=
  match message.content with
  | some (.notification notice) =>
    !(isBlank notice.title && isBlank notice.body && !notice.showInList && !notice.showBadge &&
      !notice.playSound)
  | _ => true

def eventHasMobileAlert (event : Event) : Bool :=
  event.type == codec.eventMessage && event.message.any messageHasMobileAlert

def payloadHasMobileAlert (kind : Int) (payload : List UInt8) : Bool :=
  match codec.payloadKind kind with
  | some .message =>
    match codec.message payload with
    | .ok request => request.messages.any messageHasMobileAlert
    | .error _ => false
  | some .event =>
    match codec.event payload with
    | .ok request => request.events.any (eventHasMobileAlert codec)
    | .error _ => false
  | some .notification | some .custom => true
  | _ => false

end Alerts

section Mentions

structure MentionTargets where
  all : Bool := false
  users : List String := []
  unknown : Bool := false

def MentionTargets.unreadable : MentionTargets := { unknown := true }

def MentionTargets.mentions (targets : MentionTargets) (userId : String) : Bool :=
  targets.unknown || targets.all || decide (userId ∈ targets.users)

def addMention (out : MentionTargets) (mention : Mention) : MentionTargets :=
  { out with
    all := out.all || mention.type == codec.mentionAll
    users := out.users ++ (if mention.userId = "" then [] else [mention.userId]) ++
      mention.userIds }

def collectMentions : MessageContent → MentionTargets → MentionTargets
  | .text mentions, out => mentions.foldl (addMention codec) out
  | .richText, out => { out with unknown := true }
  | .quote (some inner), out => collectMentions inner out
  | .quote none, out => out
  | .unset, out => out
  | .notification _, out => out
  | .other _, out => out

def mentionTargets (payloadKind : Int) (pushPayload : List UInt8) : MentionTargets :=
  let message := match (codec.payloadKind payloadKind).getD .unspecified with
    | .message => (codec.message pushPayload).toOption.bind fun request => request.messages.head?
    | .event => (codec.event pushPayload).toOption.bind fun request =>
      request.events.findSome? Event.message
    | _ => none
  match message with
  | none => .unreadable
  | some message =>
    match message.content with
    | none => .unreadable
    | some content => collectMentions codec content {}

end Mentions

section Tasks

def ONLINE_FANOUT_CHUNK : Nat := 1000

-- Decoding a request and encoding it again for other users, with its name in the error.
def rewriteUserIds (name : String) (rewritten : Except String (List UInt8)) :
    Except FlareError (List UInt8) :=
  rewritten.mapError fun e => ⟨.invalidParameter, "decode " ++ name ++ " failed", some e⟩

def rewritePushPayloadUserIds (payloadKind : Int) (payload : List UInt8) (userIds : List String) :
    Except FlareError (List UInt8) :=
  match (codec.payloadKind payloadKind).getD .unspecified with
  | .message => rewriteUserIds "PushMessageRequest" ((codec.message payload).map fun request =>
    codec.encodeMessage { request with userIds := userIds })
  | .event => rewriteUserIds "PushEventRequest" ((codec.event payload).map fun request =>
    codec.encodeEvent { request with userIds := userIds })
  | .notification => rewriteUserIds "PushNotificationRequest" (codec.notificationFor userIds payload)
  | .ack => rewriteUserIds "PushAckRequest" (codec.ackFor userIds payload)
  | .custom => rewriteUserIds "PushCustomRequest" (codec.customFor userIds payload)
  | .capability => rewriteUserIds "PushCapabilityRequest" (codec.capabilityFor userIds payload)
  | .unspecified => .error ⟨.invalidParameter, "PushTaskPayloadKind unspecified", none⟩

structure NotifyPreference where
  muted : Bool := false
  mentionOnly : Bool := false
  deriving DecidableEq

structure PushTaskTemplate where
  messageId : String
  conversationId : String
  tenantId : String
  priority : Int
  expireAt : Option Int
  pushPayload : List UInt8
  headers : List (String × String)
  payloadKind : Int

-- The key of an online task is the conversation, that of an offline task the user.
structure PendingPushTask where
  userId : String
  payload : List UInt8
  online : Bool

def PushTaskTemplate.envelope (template : PushTaskTemplate) (userId : String)
    (pushPayload : List UInt8) : PushTaskEnvelope where
  userId := userId
  messageId := template.messageId
  conversationId := template.conversationId
  tenantId := template.tenantId
  priority := template.priority
  expireAt := template.expireAt
  pushPayload := pushPayload
  headers := template.headers
  payloadKind := template.payloadKind

-- The collaborators of the handler: who wants which notifications, and the queue.
structure Handler where
  notifyPolicy : Option (Ctx → String → List String →
    Except FlareError (String → Option NotifyPreference))
  publishOnlineTask : Ctx → String → List UInt8 → Except FlareError Unit
  publishOfflineTask : Ctx → String → List UInt8 → Except FlareError Unit
  mapInfraError : FlareError → ErrorCode → String → FlareError
  -- the order in which the publications come back
  finished : Order (Except FlareError Unit)

-- A failing lookup silences nobody.
def notifyPreferences (handler : Handler) (ctx : Ctx) (conversationId : String)
    (userIds : List String) : String → Option NotifyPreference :=
  match handler.notifyPolicy with
  | none => fun _ => none
  | some policy =>
    if userIds = [] ∨ isBlank conversationId then fun _ => none
    else
      match policy ctx conversationId userIds with
      | .ok preferences => preferences
      | .error _ => fun _ => none

def isOnline (onlineStatuses : String → Option Bool) (userId : String) : Bool :=
  (onlineStatuses userId).getD false

def preferenceOf (preferences : String → Option NotifyPreference) (userId : String) :
    NotifyPreference :=
  (preferences userId).getD {}

-- Whether a user who is offline gets a task of its own.
def alertsOffline (mentions : MentionTargets) (preference : NotifyPreference) (userId : String) :
    Bool :=
  !preference.muted && !(preference.mentionOnly && !mentions.mentions userId)

def offlineTask (template : PushTaskTemplate) (userId : String) :
    Except FlareError PendingPushTask :=
  (rewritePushPayloadUserIds codec template.payloadKind template.pushPayload [userId]).map
    fun pushPayload =>
      ⟨userId, codec.encodeTask (template.envelope userId pushPayload), false⟩

def onlineTask (template : PushTaskTemplate) (chunk : List String) :
    Except FlareError PendingPushTask :=
  (rewritePushPayloadUserIds codec template.payloadKind template.pushPayload chunk).map
    fun pushPayload =>
      ⟨template.conversationId, codec.encodeTask (template.envelope "" pushPayload), true⟩

-- The loop over the users, up to the first payload that cannot be rewritten.
def offlineTasks (template : PushTaskTemplate) (alerted : String → Bool) :
    List String → Except FlareError (List PendingPushTask)
  | [] => .ok []
  | userId :: rest =>
    if alerted userId then
      match offlineTask codec template userId with
      | .error e => .error e
      | .ok task => (offlineTasks template alerted rest).map (task :: ·)
    else offlineTasks template alerted rest

def onlineTasks (template : PushTaskTemplate) :
    List (List String) → Except FlareError (List PendingPushTask)
  | [] => .ok []
  | chunk :: rest =>
    match onlineTask codec template chunk with
    | .error e => .error e
    | .ok task => (onlineTasks template rest).map (task :: ·)

def publishTask (handler : Handler) (ctx : Ctx) (task : PendingPushTask) : Except FlareError Unit :=
  if task.online then
    (handler.publishOnlineTask ctx task.userId task.payload).mapError fun e =>
      handler.mapInfraError e .serviceUnavailable "Failed to publish online push task"
  else
    (handler.publishOfflineTask ctx task.userId task.payload).mapError fun e =>
      handler.mapInfraError e .serviceUnavailable "Failed to publish offline push task"

def firstFailure : List (Except FlareError Unit) → Except FlareError Unit
  | [] => .ok ()
  | .error e :: _ => .error e
  | .ok () :: rest => firstFailure rest

-- The tasks given to the publisher, and how the call ends.
structure Published where
  tasks : List PendingPushTask
  outcome : Except FlareError Unit

structure Call where
  ctx : Ctx
  userIds : List String
  onlineStatuses : String → Option Bool
  template : PushTaskTemplate
  onlineOnly : Bool
  deliverOnlineToAll : Bool
  prefetchedPreferences : Option (String → Option NotifyPreference)

-- Nobody gets an offline task for what makes no alert.
def Call.skipsOffline (call : Call) : Bool :=
  call.onlineOnly ||
    !payloadHasMobileAlert codec call.template.payloadKind call.template.pushPayload

def Call.preferences (handler : Handler) (call : Call) : String → Option NotifyPreference :=
  match call.prefetchedPreferences with
  | some preferences => preferences
  | none =>
    notifyPreferences handler call.ctx call.template.conversationId
      (if call.skipsOffline codec then []
      else call.userIds.filter fun userId => !isOnline call.onlineStatuses userId)

def Call.alerted (handler : Handler) (call : Call) (userId : String) : Bool :=
  !(isOnline call.onlineStatuses userId || call.skipsOffline codec) &&
    alertsOffline (mentionTargets codec call.template.payloadKind call.template.pushPayload)
      (preferenceOf (call.preferences codec handler) userId) userId

def publishTargetedTasksInner (handler : Handler) (call : Call) : Published :=
  let onlineUserIds := call.userIds.filter fun userId =>
    isOnline call.onlineStatuses userId || call.deliverOnlineToAll
  match offlineTasks codec call.template (call.alerted codec handler) call.userIds with
  | .error e => ⟨[], .error e⟩
  | .ok offline =>
    match onlineTasks codec call.template (onlineUserIds.toChunks ONLINE_FANOUT_CHUNK) with
    | .error e => ⟨[], .error e⟩
    | .ok online =>
      let tasks := online ++ offline
      ⟨tasks, firstFailure
        (handler.finished.arrange (tasks.map (publishTask handler call.ctx)))⟩

end Tasks

end FlareIm.TargetedTasks
