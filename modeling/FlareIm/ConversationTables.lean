import Mathlib.Algebra.Order.Ring.Int

namespace FlareIm.ConversationTables

-- The rows of the conversation tables. A column that may be missing holds what the statements
-- read in its place: zero for a number, the empty list for a byte string.

structure ConversationRow where
  tenantId : String
  conversationId : String
  lastMessageSeq : Int := 0
  historyClearedThroughSeq : Int := 0
  deleted : Bool := false

structure ParticipantRow where
  tenantId : String
  conversationId : String
  userId : String
  lastReadSeq : Int := 0
  lastSyncSeq : Int := 0
  visibleFromSeq : Int := 0
  historyClearedThroughSeq : Int := 0
  unreadCount : Int := 0
  isDeleted : Bool := false
  deriving DecidableEq

-- `extra` holds the text the operator ->> gives for a key, `createdAt` is in microseconds.
structure MessageRow where
  tenantId : String
  conversationId : String
  serverId : String
  senderId : String
  seq : Int
  createdAt : Int := 0
  messageType : Int := 0
  content : List UInt8 := []
  status : Int := 1
  burnStatus : Int := 0
  extra : List (String × String) := []
  deriving DecidableEq

-- Of the payload only the ids of the messages it names.
structure EventRow where
  tenantId : String
  conversationId : String
  seq : Int
  eventType : Int
  createdAt : Int := 0
  targets : List String := []
  deriving DecidableEq

-- A row of the pinned messages or of the marked messages.
structure MessageTag where
  tenantId : String
  conversationId : String
  messageId : String
  userId : String := ""
  deriving DecidableEq

structure VisibilityRow where
  tenantId : String
  messageId : String
  userId : String := ""
  scope : Int := 1
  visibilityStatus : Int := 0

def EVENT_MESSAGE : Int := 1
def MESSAGE_STATUS_RECALLED : Int := 5
def MESSAGE_STATUS_DELETED : Int := 6

def UNREAD_EXCLUDED_STATUSES : List Int := [MESSAGE_STATUS_RECALLED, MESSAGE_STATUS_DELETED]

-- The largest value of a sequence column.
def MAX_SEQ : Int := 9223372036854775807

-- A message of somebody else above the floor that is neither recalled nor deleted.
def countsAsUnread (floor : Int) (userId : String) (row : MessageRow) : Bool :=
  row.seq > floor && row.senderId ≠ userId && row.status ∉ UNREAD_EXCLUDED_STATUSES

section Conversation

variable (tenantId conversationId : String)

def MessageRow.isIn (row : MessageRow) : Prop :=
  row.tenantId = tenantId ∧ row.conversationId = conversationId

def EventRow.isIn (row : EventRow) : Prop :=
  row.tenantId = tenantId ∧ row.conversationId = conversationId

def MessageTag.isIn (row : MessageTag) : Prop :=
  row.tenantId = tenantId ∧ row.conversationId = conversationId

def ParticipantRow.isIn (row : ParticipantRow) : Prop :=
  row.tenantId = tenantId ∧ row.conversationId = conversationId

def ConversationRow.isIn (row : ConversationRow) : Prop :=
  row.tenantId = tenantId ∧ row.conversationId = conversationId

instance (row : MessageRow) : Decidable (row.isIn tenantId conversationId) :=
  inferInstanceAs (Decidable (_ ∧ _))

instance (row : EventRow) : Decidable (row.isIn tenantId conversationId) :=
  inferInstanceAs (Decidable (_ ∧ _))

instance (row : MessageTag) : Decidable (row.isIn tenantId conversationId) :=
  inferInstanceAs (Decidable (_ ∧ _))

instance (row : ParticipantRow) : Decidable (row.isIn tenantId conversationId) :=
  inferInstanceAs (Decidable (_ ∧ _))

instance (row : ConversationRow) : Decidable (row.isIn tenantId conversationId) :=
  inferInstanceAs (Decidable (_ ∧ _))

end Conversation

end FlareIm.ConversationTables
