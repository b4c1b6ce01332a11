import FlareIm.Proto

namespace FlareIm.MessageProfile

open Proto

inductive MessageType where
  | unspecified
  | text
  | image
  | video
  | audio
  | file
  | location
  | card
  | custom
  | sticker
  | emoji
  | system
  | notification
  | forward
  | linkCard
  | appCard
  | richText
  | imageGroup
  | quote
  | placeholder
  deriving DecidableEq

inductive MessageCategory where
  | temporary
  | notification
  | operation
  | normal
  deriving DecidableEq

-- The text of an extension. Bytes that are no text, and the empty text, do not count.
def extensionString (message : Message) (key : String) : Option String :=
  ((message.extensions.lookup key).bind fun bytes => String.fromUTF8? ⟨bytes.toArray⟩).filter
    (· ≠ "")

def notificationPersistent (message : Message) : Option Bool :=
  match message.content.bind (·.content) with
  | some (.notification persistent) => some persistent
  | _ => none

def contentLabel : Content → String
  | .text _ => "text"
  | .image => "image"
  | .video => "video"
  | .audio => "audio"
  | .file => "file"
  | .location => "location"
  | .card => "card"
  | .notification _ => "notification"
  | .custom type => if type = "" then "custom" else type
  | .forward => "forward"
  | .thread => "thread"
  | .linkCard => "link_card"
  | .appCard _ => "app_card"
  | .richText _ => "rich_text"
  | .imageGroup => "image_group"
  | .sticker => "sticker"
  | .emoji => "emoji"
  | .quoteEmpty | .quote _ => "quote"
  | .placeholder => "placeholder"
  | .system _ => "custom"

def messageTypeLabel (message : Message) : String :=
  match extensionString message "message_type" with
  | some label => label
  | none => ((message.content.bind (·.content)).map contentLabel).getD "custom"

def messageTypeOf : String → MessageType
  | "text" | "text/plain" | "plain_text" => .text
  | "image" => .image
  | "video" => .video
  | "audio" => .audio
  | "file" => .file
  | "location" => .location
  | "card" => .card
  | "custom" | "json" | "command" | "event" => .custom
  | "sticker" => .sticker
  | "emoji" => .emoji
  | "system" => .system
  | "notification" => .notification
  | "forward" | "merge_forward" | "mergeforward" => .forward
  | "link_card" | "linkcard" => .linkCard
  | "app_card" | "appcard" => .appCard
  | "rich_text" | "richtext" => .richText
  | "image_group" | "imagegroup" => .imageGroup
  | "quote" => .quote
  | "placeholder" => .placeholder
  | _ => .unspecified

def determineCategory (messageType : MessageType) (label : String)
    (notificationType : Option String) : MessageCategory :=
  if label = "typing" ∨ label = "system_event" then .temporary
  else if label = "operation" ∨ label = "recall" ∨ label = "read" then .operation
  else if messageType = .notification then
    if notificationType = some "message_operation" then .operation else .notification
  else if label = "notification" then .notification
  else .normal

-- What the profile of a message says. Nothing else of the message is asked for it.
def category (message : Message) : MessageCategory :=
  determineCategory (messageTypeOf (messageTypeLabel message)) (messageTypeLabel message)
    (extensionString message "notification_type")

def isTemporary (message : Message) : Bool := category message = .temporary

def isNotification (message : Message) : Bool := category message = .notification

inductive PersistenceMode where
  | auto
  | forcePersistence
  | forcePushOnly

def PersistenceMode.shouldPushOnly (mode : PersistenceMode) (temporary : Bool) : Bool :=
  match mode with
  | .auto => temporary
  | .forcePersistence => false
  | .forcePushOnly => true

-- The mode a send chooses for its message.
def sendPersistenceMode (message : Message) : PersistenceMode :=
  if isTemporary message then .forcePushOnly
  else if isNotification message then
    match notificationPersistent message with
    | some false => .forcePushOnly
    | _ => .auto
  else .auto

-- The mode a replay chooses for the message it reads back.
def replayPersistenceMode (message : Message) : PersistenceMode :=
  if isTemporary message then .forcePushOnly
  else if isNotification message then
    match notificationPersistent message with
    | some false => .forcePushOnly
    | _ => .auto
  else .auto

def shouldWriteWal (message : Message) (mode : PersistenceMode) : Bool :=
  !mode.shouldPushOnly (isTemporary message)

inductive SendAckDurability where
  | unspecified
  | transientAccepted
  | walAccepted
  | brokerAccepted
  | persisted
  deriving DecidableEq

def sendAckDurability (message : Message) (mode : PersistenceMode) : SendAckDurability :=
  if mode.shouldPushOnly (isTemporary message) then .transientAccepted else .persisted

-- The durability a send of the message is acknowledged with.
def durability (message : Message) : SendAckDurability :=
  sendAckDurability message (sendPersistenceMode message)

section Agreement

variable (message : Message)

theorem shouldWriteWal_iff (mode : PersistenceMode) :
    shouldWriteWal message mode = true ↔
      sendAckDurability message mode ≠ .transientAccepted := by
  unfold shouldWriteWal sendAckDurability
  cases mode.shouldPushOnly (isTemporary message) <;> simp

theorem replay_keeps (h : shouldWriteWal message (sendPersistenceMode message) = true) :
    (replayPersistenceMode message).shouldPushOnly (isTemporary message) = false := by
  have hs : replayPersistenceMode message = sendPersistenceMode message := rfl
  rw [hs]
  simpa [shouldWriteWal] using h

end Agreement

end FlareIm.MessageProfile
