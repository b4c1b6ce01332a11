import FlareIm.ConversationTables
import FlareIm.Lib.Text
import FlareIm.Lib.Transition

namespace FlareIm.UnreadCount

open Text ConversationTables

def MAX_RECOMPUTED_UNREAD : Int := 1000

section Rows

-- The functions below work on the rows of one conversation: its own row, the row of one of its
-- members and its messages.
variable (conversation : ConversationRow) (participant : ParticipantRow) (rows : List MessageRow)

def clearedThroughSeq : Int :=
  max participant.historyClearedThroughSeq conversation.historyClearedThroughSeq

-- What the member has cleared or was never shown.
def listFloorSeq : Int :=
  max (max participant.lastSyncSeq participant.visibleFromSeq)
    (clearedThroughSeq conversation participant)

def unreadFloor : Int :=
  max participant.lastReadSeq (listFloorSeq conversation participant)

def tailSeq : Int :=
  ((rows.map (·.seq)).max?).getD 0

def unreadTruth : Int :=
  ((rows.countP (countsAsUnread (unreadFloor conversation participant) participant.userId) : Nat) :
    Int)

-- `hiddenForEveryone` tells the messages a row of the visibility table hides from everybody.
def recountedUnread (hiddenForEveryone : MessageRow → Bool) : Int :=
  min (((rows.filter (!hiddenForEveryone ·)).countP
    (countsAsUnread (unreadFloor conversation participant) participant.userId) : Nat) : Int)
    MAX_RECOMPUTED_UNREAD

def reportedUnread (hiddenForEveryone : MessageRow → Bool) : Int :=
  let recounted := recountedUnread conversation participant rows hiddenForEveryone
  if clearedThroughSeq conversation participant > 0 then recounted
  else max participant.unreadCount recounted

def markAsRead (seq : Int) : ParticipantRow :=
  let maxSeq := max (max conversation.lastMessageSeq (tailSeq rows)) seq
  let nextReadSeq := min (max participant.lastReadSeq seq) maxSeq
  let floor := max participant.lastReadSeq (listFloorSeq conversation participant)
  { participant with
    lastReadSeq := nextReadSeq
    unreadCount :=
      if nextReadSeq ≤ participant.lastReadSeq then max participant.unreadCount 0
      else if nextReadSeq ≥ maxSeq then 0
      else
        max (participant.unreadCount - ((rows.countP fun row =>
          countsAsUnread floor participant.userId row && row.seq ≤ nextReadSeq : Nat) : Int)) 0 }

-- Hiding the conversation moves the member's own list position to the tail, not what the others
-- see as read.
def softDelete : ParticipantRow :=
  { participant with
    isDeleted := true
    unreadCount := 0
    lastSyncSeq := max participant.lastSyncSeq (max conversation.lastMessageSeq (tailSeq rows)) }

-- Adding the member again brings the conversation back to the list.
def restore : ParticipantRow :=
  { participant with isDeleted := false }

def clearOwnHistory (throughSeq : Int) : ParticipantRow :=
  if participant.isDeleted then participant
  else
    { participant with
      historyClearedThroughSeq := max participant.historyClearedThroughSeq
        (min throughSeq (max (max conversation.lastMessageSeq (tailSeq rows)) 0)) }

def incrementUnread (senderId : String) (seq status : Int) : ParticipantRow :=
  if participant.isDeleted then participant
  else
    { participant with
      unreadCount :=
        if participant.userId = senderId then participant.unreadCount
        else if status ∈ UNREAD_EXCLUDED_STATUSES then participant.unreadCount
        else if unreadFloor conversation participant ≥ seq then participant.unreadCount
        else participant.unreadCount + 1 }

-- The member is touched only when the target may be among what it has not read. Where the member
-- sees the history from is not part of that test.
def retractUnread (target : MessageRow) : ParticipantRow :=
  let positions := max (max participant.lastReadSeq participant.lastSyncSeq)
    (clearedThroughSeq conversation participant)
  if participant.isDeleted ∨ participant.unreadCount ≤ 0 ∨ positions ≥ target.seq ∨
      participant.userId = target.senderId then participant
  else
    { participant with
      unreadCount := min participant.unreadCount ((rows.countP fun row =>
        countsAsUnread (unreadFloor conversation participant) participant.userId row &&
          row.serverId ≠ target.serverId : Nat) : Int) }

-- The count after everybody's history was cleared, `conversation` already holding the new cutoff.
def recountCleared : ParticipantRow :=
  if participant.unreadCount > 0 then
    { participant with
      unreadCount := min participant.unreadCount (unreadTruth conversation participant rows) }
  else participant

end Rows

-- A message or the recall of one, as the writer and the consumer both read them.
inductive FeedEvent where
  | message (row : MessageRow)
  | «recall» (serverMsgId : String)

structure Conversation where
  row : ConversationRow
  participants : List ParticipantRow
  messages : List MessageRow := []

section Writer

def recallMessage (serverMsgId : String) (row : MessageRow) : MessageRow :=
  if row.serverId = serverMsgId then { row with status := MESSAGE_STATUS_RECALLED } else row

def archiveEvent (messages : List MessageRow) : FeedEvent → List MessageRow
  | .message row => messages ++ [row]
  | .recall serverMsgId =>
    if isBlank serverMsgId then messages else messages.map (recallMessage serverMsgId)

end Writer

section Consumer

variable (threshold : Int) (conversation : Conversation)

def abovePreciseUnreadThreshold : Bool :=
  threshold > 0 && ((conversation.participants.countP (!·.isDeleted) : Nat) : Int) > threshold

def advanceLastMessageSeq (seq : Int) (conversation : Conversation) : Conversation :=
  { conversation with
    row := { conversation.row with lastMessageSeq := max conversation.row.lastMessageSeq seq } }

def applyMessageEvent (senderId : String) (seq status : Int) : Conversation :=
  let advanced := advanceLastMessageSeq seq conversation
  if abovePreciseUnreadThreshold threshold advanced then advanced
  else
    { advanced with
      participants := advanced.participants.map fun participant =>
        incrementUnread advanced.row participant senderId seq status }

def retractMessageUnread (serverMsgId : String) : Conversation :=
  if isBlank serverMsgId then conversation
  else if abovePreciseUnreadThreshold threshold conversation then conversation
  else
    match conversation.messages.find? (·.serverId = serverMsgId) with
    | none => conversation
    | some target =>
      { conversation with
        participants := conversation.participants.map fun participant =>
          retractUnread conversation.row participant conversation.messages target }

-- A message event without a sender or a sequence number is skipped.
def isSkipped (row : MessageRow) : Bool :=
  row.senderId = "" || row.seq ≤ 0

def consumeEvent : FeedEvent → Conversation
  | .message row =>
    if isSkipped row then conversation
    else applyMessageEvent threshold conversation row.senderId row.seq row.status
  | .recall serverMsgId => retractMessageUnread threshold conversation serverMsgId

end Consumer

section Members

def updateMember (userId : String) (update : ParticipantRow → ParticipantRow)
    (conversation : Conversation) : Conversation :=
  { conversation with
    participants := conversation.participants.map fun participant =>
      if participant.userId = userId then update participant else participant }

def clearHistoryForEveryone (conversation : Conversation) : Conversation :=
  let row := { conversation.row with
    historyClearedThroughSeq := max (max conversation.row.historyClearedThroughSeq
      conversation.row.lastMessageSeq) (tailSeq conversation.messages) }
  { conversation with
    row
    participants := conversation.participants.map fun participant =>
      recountCleared row participant conversation.messages }

end Members

-- A conversation within the threshold, before its first event. The recall of a message comes
-- after it, so the writer finds the message by the id the recall names.
structure SmallConversation where
  threshold : Int
  row : ConversationRow
  participants : List ParticipantRow
  feed : List FeedEvent
  small : threshold ≤ 0 ∨ (participants.length : Int) ≤ threshold
  fresh : ∀ participant ∈ participants, participant.unreadCount = 0
  cleared : 0 ≤ row.historyClearedThroughSeq ∧
    ∀ participant ∈ participants, 0 ≤ participant.historyClearedThroughSeq
  messageIds : (feed.filterMap fun
    | .message row => some row.serverId
    | .recall _ => none).Nodup
  recallsKnown : ∀ before after serverMsgId, feed = before ++ .recall serverMsgId :: after →
    ∃ row, .message row ∈ before ∧ row.serverId = serverMsgId

-- `advance` is the first of the two statements of a message event on its own: the calls of the
-- members may come between them. It is repeated by `consume`, which it does not change.
inductive Action where
  | archive
  | advance
  | consume
  | markAsRead (userId : String) (seq : Int)
  | hide (userId : String)
  | restore (userId : String)
  | clearHistory (userId : String) (throughSeq : Int)
  | clearHistoryForEveryone

-- The conversation, and how many events the writer and the consumer have processed.
structure State where
  conversation : Conversation
  archived : Nat := 0
  consumed : Nat := 0

section Machine

variable (setup : SmallConversation)

def initial : State where
  conversation := { row := setup.row, participants := setup.participants }

def step (state : State) : Action → Option State
  | .archive =>
    setup.feed[state.archived]?.map fun event =>
      { state with
        conversation := { state.conversation with
          messages := archiveEvent state.conversation.messages event }
        archived := state.archived + 1 }
  | .advance =>
    match setup.feed[state.consumed]? with
    | some (.message row) =>
      if isSkipped row then none
      else
        some { state with conversation := advanceLastMessageSeq row.seq state.conversation }
    | _ => none
  | .consume =>
    setup.feed[state.consumed]?.map fun event =>
      { state with
        conversation := consumeEvent setup.threshold state.conversation event
        consumed := state.consumed + 1 }
  | .markAsRead userId seq =>
    if seq ≤ 0 then none
    else
      some { state with
        conversation := updateMember userId (fun participant =>
          markAsRead state.conversation.row participant state.conversation.messages seq)
          state.conversation }
  | .hide userId =>
    some { state with
      conversation := updateMember userId (fun participant =>
        softDelete state.conversation.row participant state.conversation.messages)
        state.conversation }
  | .restore userId =>
    some { state with conversation := updateMember userId restore state.conversation }
  | .clearHistory userId throughSeq =>
    some { state with
      conversation := updateMember userId (fun participant =>
        clearOwnHistory state.conversation.row participant state.conversation.messages throughSeq)
        state.conversation }
  | .clearHistoryForEveryone =>
    if state.conversation.row.deleted then none
    else some { state with conversation := clearHistoryForEveryone state.conversation }

end Machine

end FlareIm.UnreadCount
