import FlareIm.Lib.Fallible
import FlareIm.Proto
import FlareIm.UnreadCount
import Mathlib.Data.List.MinMax
import Mathlib.Data.List.Sort

namespace FlareIm.ConversationList

open Text Fallible Proto ConversationTables UnreadCount

-- The scopes of a visibility row, and the statuses that hide a message.
def SCOPE_USER_PRIVATE : Int := 1
def SCOPE_CONVERSATION_GLOBAL : Int := 2
def HIDING_STATUSES : List Int := [1, 2]

structure Tables where
  conversations : List ConversationRow := []
  participants : List ParticipantRow := []
  messages : List MessageRow := []
  visibility : List VisibilityRow := []

def hides (row : MessageRow) (mark : VisibilityRow) : Bool :=
  mark.tenantId = row.tenantId && mark.messageId = row.serverId &&
    mark.visibilityStatus ∈ HIDING_STATUSES

def hiddenForEveryone (tables : Tables) (row : MessageRow) : Bool :=
  tables.visibility.any fun mark => hides row mark && mark.scope = SCOPE_CONVERSATION_GLOBAL

def hiddenFor (tables : Tables) (userId : String) (row : MessageRow) : Bool :=
  tables.visibility.any fun mark => hides row mark &&
    (mark.scope = SCOPE_CONVERSATION_GLOBAL ||
      (mark.scope = SCOPE_USER_PRIVATE && mark.userId = userId))

-- The decoder of a message's content is not part of the repository.
variable (decode : List UInt8 → Option MessageContent)

section Bootstrap

-- The text and the kind a conversation list shows for the last message.
def previewOf : Content → String × String
  | .text text => (text, "text")
  | .richText _ => ("[富文本]", "rich_text")
  | .image | .imageGroup => ("[图片]", "image")
  | .video => ("[视频]", "video")
  | .audio => ("[语音]", "audio")
  | .file => ("[文件]", "file")
  | .location => ("[位置]", "location")
  | .sticker | .emoji => ("[表情]", "sticker")
  | .card | .appCard _ | .linkCard => ("[卡片]", "card")
  | .quoteEmpty | .quote _ => ("[引用]", "quote")
  | .forward => ("[转发]", "forward")
  | .notification _ | .system _ => ("[系统消息]", "system")
  | .custom _ | .thread | .placeholder => ("[消息]", "other")

def lastMessagePreviewFromContent (bytes : List UInt8) : Option String × Option String :=
  if bytes = [] then (none, none)
  else
    match (decode bytes).bind (·.content) with
    | none => (none, none)
    | some content =>
      let (preview, kind) := previewOf content
      (if isBlank preview then none else some preview, some kind)

structure ConversationSummary where
  conversationId : String
  lastMessageId : Option String
  lastSenderId : Option String
  lastMessageType : Option Int
  lastContentType : Option String
  lastMessagePreview : Option String
  unreadCount : Int
  lastReadSeq : Int
  lastMessageSeq : Int
  visibleAfterSeq : Int
  deriving DecidableEq

-- Neither the place the member sees the history from nor the cleared positions may be passed.
def historyFloor (conversation : ConversationRow) (participant : ParticipantRow) : Int :=
  max participant.visibleFromSeq (clearedThroughSeq conversation participant)

def conversationMessages (tables : Tables) (conversation : ConversationRow) : List MessageRow :=
  tables.messages.filter (·.isIn conversation.tenantId conversation.conversationId)

def listableMessages (tables : Tables) (conversation : ConversationRow)
    (participant : ParticipantRow) : List MessageRow :=
  (conversationMessages tables conversation).filter fun row =>
    row.seq > historyFloor conversation participant && !hiddenForEveryone tables row

-- ORDER BY seq DESC LIMIT 1
def messageTail (tables : Tables) (conversation : ConversationRow)
    (participant : ParticipantRow) : Option MessageRow :=
  let _ : Preorder Int := Int.instLinearOrder.toPreorder
  (listableMessages tables conversation participant).argmax (·.seq)

def summaryOf (tables : Tables) (conversation : ConversationRow) (participant : ParticipantRow) :
    ConversationSummary :=
  let tail := messageTail tables conversation participant
  let preview := lastMessagePreviewFromContent decode ((tail.map (·.content)).getD [])
  { conversationId := conversation.conversationId
    lastMessageId := tail.map (·.serverId)
    lastSenderId := tail.map (·.senderId)
    lastMessageType := tail.map (·.messageType)
    lastContentType := preview.2
    lastMessagePreview := preview.1
    unreadCount := reportedUnread conversation participant
      (conversationMessages tables conversation) (hiddenForEveryone tables)
    lastReadSeq := max participant.lastReadSeq participant.lastSyncSeq
    lastMessageSeq := max conversation.lastMessageSeq ((tail.map (·.seq)).getD 0)
    visibleAfterSeq := max (clearedThroughSeq conversation participant) 0 }

-- The conversations of the user with the user's own rows in them.
def listedConversations (tables : Tables) (tenantId userId : String) :
    List (ConversationRow × ParticipantRow) :=
  tables.conversations.flatMap fun conversation =>
    (tables.participants.filter fun participant =>
      participant.isIn conversation.tenantId conversation.conversationId ∧
        conversation.tenantId = tenantId ∧ participant.userId = userId ∧
        ¬ conversation.deleted ∧ ¬ participant.isDeleted).map fun participant =>
          (conversation, participant)

inductive ListError where
  | invalidParameter (message : String)
  | userRequired
  deriving DecidableEq

-- `isUpdated` is the filter of an incremental load.
def loadBootstrap (isUpdated : ConversationRow → ParticipantRow → Bool) (tables : Tables)
    (tenantId userId : String) : Except ListError (List ConversationSummary) := do
  refuseIf (isBlank tenantId) (.invalidParameter "tenant required for conversation storage")
  refuseIf (userId = "") .userRequired
  .ok (((listedConversations tables tenantId userId).filter fun listed =>
    isUpdated listed.1 listed.2).map fun listed => summaryOf decode tables listed.1 listed.2)

end Bootstrap

section Timeline

inductive ContentVisibility where
  | available
  | hidden
  | redacted
  | purged

structure TimelineMessage where
  serverId : String
  senderId : String
  seq : Int
  messageType : Int
  content : Option MessageContent
  status : Int
  contentVisibility : ContentVisibility
  extra : List (String × String)

-- A user without a row in the conversation sees nothing of it, no user at all sees everything.
def visibleFromSeq (tables : Tables) (tenantId conversationId userId : String) : Int :=
  if userId = "" then 0
  else
    (((tables.participants.find? fun participant =>
        participant.isIn tenantId conversationId ∧ participant.userId = userId).bind fun participant =>
      (tables.conversations.find? (·.isIn tenantId conversationId)).map fun conversation =>
        historyFloor conversation participant)).getD MAX_SEQ

-- The columns of a message as its reader gets them. What is hidden from the reader is blanked.
-- The state of a message that burns after reading is no column of this projection.
def projectRow (tables : Tables) (userId : String) (row : MessageRow) : MessageRow :=
  if hiddenFor tables userId row then
    { row with
      senderId := "", messageType := 0, content := [],
      extra := [("__sync_skip", "visibility_filtered")], burnStatus := 0 }
  else { row with burnStatus := 0 }

def LEGACY_BURN_STATUS_BURNED : Int := 4
def LEGACY_BURN_STATUS_HARD_DELETED : Int := 5

def legacyRetentionVisibility (burnStatus : Int) : ContentVisibility :=
  if burnStatus = LEGACY_BURN_STATUS_HARD_DELETED then .purged
  else if burnStatus = LEGACY_BURN_STATUS_BURNED then .redacted
  else .available

def rowToMessage (row : MessageRow) : TimelineMessage where
  serverId := row.serverId
  senderId := row.senderId
  seq := row.seq
  messageType := row.messageType
  content := if row.content = [] then none else decode row.content
  status := row.status
  contentVisibility := legacyRetentionVisibility row.burnStatus
  extra :=
    if (row.extra.lookup "__sync_skip").isSome then row.extra.filter (·.1 = "__sync_skip")
    else row.extra

def applyBurnQueryVisibility (includePlaceholder : Bool) (message : TimelineMessage) :
    Option TimelineMessage :=
  match message.contentVisibility with
  | .available => some message
  | .hidden | .redacted | .purged =>
    if includePlaceholder then
      some { message with
        content := none
        extra := ("retention_placeholder", "该消息已不可见") ::
          message.extra.filter (·.1 ≠ "retention_placeholder") }
    else none

structure TimelineQuery where
  conversationId : String
  userId : String
  afterSeq : Int
  beforeSeq : Option Int := none
  limit : Int
  includeBurnedPlaceholder : Bool := false

def isBackfillTailPage (query : TimelineQuery) : Bool :=
  query.afterSeq = 0 && query.beforeSeq.isSome

-- The rows a query reaches, before the page is cut.
def inRange (tables : Tables) (tenantId : String) (query : TimelineQuery) (row : MessageRow) :
    Bool :=
  row.isIn tenantId query.conversationId &&
    row.seq > max query.afterSeq
      (visibleFromSeq tables tenantId query.conversationId query.userId) &&
    query.beforeSeq.all fun before => row.seq < before

def pageRows (tables : Tables) (tenantId : String) (query : TimelineQuery) : List MessageRow :=
  let reached := tables.messages.filter (inRange tables tenantId query)
  let ordered :=
    if isBackfillTailPage query then reached.insertionSort fun a b => a.seq ≥ b.seq
    else reached.insertionSort fun a b => a.seq ≤ b.seq
  ordered.take (min (max query.limit 1) 1000).toNat

-- What a reader gets for one row of a page.
def timelineMessage (tables : Tables) (userId : String) (includePlaceholder : Bool)
    (row : MessageRow) : Option TimelineMessage :=
  applyBurnQueryVisibility includePlaceholder (rowToMessage decode (projectRow tables userId row))

def queryMessagesBySeq (tables : Tables) (tenantId : String) (query : TimelineQuery) :
    List TimelineMessage :=
  let messages := (pageRows tables tenantId query).filterMap
    (timelineMessage decode tables query.userId query.includeBurnedPlaceholder)
  if isBackfillTailPage query then messages.reverse else messages

end Timeline

end FlareIm.ConversationList
