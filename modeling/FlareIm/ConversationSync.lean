import FlareIm.Lib.Text
import FlareIm.Lib.Transition
import Mathlib.Data.List.Sort

namespace FlareIm.ConversationSync

section Storage

-- A message as sync reads it. The attribute is empty when it is not set.
structure Message where
  serverId : String
  conversationSeq : Nat
  createdAt : Int
  content : String
  syncSkip : String := ""
  deriving DecidableEq

-- A stored message, and whether reads on behalf of the user return it.
structure Row where
  message : Message
  visible : Bool
  deriving DecidableEq

def Row.seq (row : Row) : Nat := row.message.conversationSeq

-- The rows of a conversation in the order of their numbers, and the numbers of its stored events,
-- which come from the same counter. Both columns are 64-bit integers.
structure Conversation where
  rows : List Row
  events : List Nat
  ascending : rows.Pairwise fun row other => row.seq < other.seq
  positive : ∀ row ∈ rows, 0 < row.seq
  bounded : ∀ row ∈ rows, row.seq < 2 ^ 63
  events_bounded : ∀ seq ∈ events, seq < 2 ^ 63

theorem no_events_bounded : ∀ seq ∈ ([] : List Nat), seq < 2 ^ 63 := by simp

-- An unsigned 64-bit number as a signed one.
def asI64 (n : Nat) : Int := if n < 2 ^ 63 then n else n - 2 ^ 64

variable (conversation : Conversation)

def Conversation.visible : List Message :=
  (conversation.rows.filter (·.visible)).map (·.message)

-- `get_conversation_message_head`: the largest number of the conversation.
def Conversation.head : Nat :=
  (conversation.rows.map (·.seq) ++ conversation.events).foldl max 0

-- `query_messages_by_seq`: a page going back from the end is the last of the messages found, any
-- other page the first.
def queryMessagesBySeq (afterSeq : Int) (beforeSeq : Option Int) (limit : Nat) : List Message :=
  let found := conversation.visible.filter fun message =>
    decide (afterSeq < message.conversationSeq) &&
      beforeSeq.all fun before => decide ((message.conversationSeq : Int) < before)
  if afterSeq = 0 ∧ beforeSeq.isSome then found.drop (found.length - limit)
  else found.take limit

end Storage

section Pages

inductive SyncSlicePayload where
  | message (message : Message)
  | skip (reason : String)
  | tombstone (tombstoneId reason : String)
  deriving DecidableEq

structure SyncSliceItem where
  conversationSeq : Nat
  createdAt : Int
  payload : SyncSlicePayload
  deriving DecidableEq

structure SyncPage where
  items : List SyncSliceItem
  maxSeq : Nat
  nextCursor : String
  hasMore : Bool

def messageToSyncItem (message : Message) : SyncSliceItem where
  conversationSeq := message.conversationSeq
  createdAt := message.createdAt
  payload :=
    if Text.isBlank message.syncSkip then .message message else .skip message.syncSkip

def missingItem (conversationId : String) (seq : Nat) : SyncSliceItem where
  conversationSeq := seq
  createdAt := 0
  payload := .tombstone (conversationId ++ ":" ++ toString seq) "storage_missing_committed_seq"

def nextCursor (seq : Nat) (lastRealMessageId : String) : String :=
  if lastRealMessageId = "" then "seq:" ++ toString seq
  else "seq:" ++ toString seq ++ ":" ++ lastRealMessageId

def lastMessageId (messages : List Message) : String :=
  (messages.getLast?.map (·.serverId)).getD ""

def maxMessageSeq (messages : List Message) (start : Nat) : Nat :=
  ((messages.map (·.conversationSeq)).max?).getD start

def coldStartTailAfterSeq (requestedAfterSeq : Nat) (cursor : String) (remoteMaxSeq limit : Nat) :
    Option Nat :=
  if requestedAfterSeq ≠ 0 ∨ Text.isBlank cursor = false then none
  else if remoteMaxSeq ≤ limit then none
  else some (remoteMaxSeq - limit)

def buildBackfillSyncItems (messages : List Message) (hasMore : Bool) : SyncPage where
  items := messages.map messageToSyncItem
  maxSeq := 0
  nextCursor := ""
  hasMore := hasMore

def buildTailSyncItems (messages : List Message) (remoteMaxSeq : Nat) : SyncPage :=
  let maxSeq := max remoteMaxSeq (maxMessageSeq messages 0)
  { items := messages.map messageToSyncItem
    maxSeq := maxSeq
    nextCursor := if 0 < maxSeq then nextCursor maxSeq (lastMessageId messages) else ""
    hasMore := false }

-- The message of a number on the page; of several rows the last one counts.
def pageMessage (messages : List Message) (seq : Nat) : Option Message :=
  messages.reverse.find? fun message => message.conversationSeq == seq

def pageItem (conversationId : String) (messages : List Message) (seq : Nat) : SyncSliceItem :=
  match pageMessage messages seq with
  | some message => messageToSyncItem message
  | none => missingItem conversationId seq

def buildContiguousSyncItems (conversationId : String) (afterSeq limit : Nat)
    (messages : List Message) (remoteMaxSeq : Nat) : SyncPage :=
  let limit := max limit 1
  let authoritative := max (max remoteMaxSeq (maxMessageSeq messages afterSeq)) afterSeq
  if authoritative ≤ afterSeq then ⟨[], afterSeq, "", false⟩
  else
    let pageEnd := min authoritative (afterSeq + limit)
    let inPage := messages.filter fun message =>
      decide (afterSeq < message.conversationSeq) && decide (message.conversationSeq ≤ pageEnd)
    let seqs := List.range' (afterSeq + 1) (pageEnd - afterSeq)
    { items := seqs.map (pageItem conversationId inPage)
      maxSeq := pageEnd
      nextCursor := nextCursor pageEnd (lastMessageId (seqs.filterMap (pageMessage inPage)))
      hasMore := pageEnd < authoritative }

end Pages

section Requests

structure SingleConversationSync where
  conversationId : String
  afterConversationSeq : Nat
  beforeConversationSeq : Nat := 0
  cursor : String := ""
  limit : Int

def clampLimit (limit : Int) : Nat := (max 1 (min limit 500)).toNat

-- A head that cannot be read counts as the number the client asked from.
def conversationHeadMaxSeq (head : Option Nat) (fallbackSeq : Int) : Nat :=
  match head with
  | some head => (max (max (head : Int) fallbackSeq) 0).toNat
  | none => (max fallbackSeq 0).toNat

-- `single_conversation_sync`, given the head that was read and the conversation as it is when the
-- messages are read.
def singleConversationSync (req : SingleConversationSync) (head : Option Nat)
    (conversation : Conversation) : SyncPage :=
  let limit := clampLimit req.limit
  if 0 < req.beforeConversationSeq then
    let messages := queryMessagesBySeq conversation 0 (some (asI64 req.beforeConversationSeq))
      (limit + 1)
    buildBackfillSyncItems (messages.drop (messages.length - limit))
      (decide (limit < messages.length))
  else
    let headMaxSeq := conversationHeadMaxSeq head (asI64 req.afterConversationSeq)
    match coldStartTailAfterSeq req.afterConversationSeq req.cursor headMaxSeq limit with
    | some tailAfterSeq =>
      buildTailSyncItems (queryMessagesBySeq conversation (asI64 tailAfterSeq) none (limit + 1))
        headMaxSeq
    | none =>
      buildContiguousSyncItems req.conversationId req.afterConversationSeq limit
        (queryMessagesBySeq conversation (asI64 req.afterConversationSeq) none (limit + 1))
        headMaxSeq

-- A client that goes on from the number it was told for as long as there is more.
def syncPages (conversation : Conversation) :
    Nat → SingleConversationSync → Option (List SyncPage)
  | 0, _ => none
  | fuel + 1, req =>
    let page := singleConversationSync req (some conversation.head) conversation
    if page.hasMore then
      (syncPages conversation fuel
        { req with afterConversationSeq := page.maxSeq, cursor := page.nextCursor }).map
          (page :: ·)
    else some [page]

-- What one conversation of `multi_conversation_sync` is read with.
structure Target where
  conversationId : String
  lastConversationSeq : Nat
  deriving DecidableEq

-- The slice of a conversation, given the messages of its window and the head read after them. An
-- inbox that is not stored has no messages.
def conversationSlice (virtualInbox : Bool) (target : Target) (limit : Nat)
    (messages : List Message) (head : Option Nat) : SyncPage :=
  if virtualInbox then ⟨[], 0, "", false⟩
  else
    buildContiguousSyncItems target.conversationId target.lastConversationSeq limit messages
      (conversationHeadMaxSeq head (asI64 target.lastConversationSeq))

-- The window query takes no more than its own limit.
def messageWindow (conversation : Conversation) (target : Target) (limit : Nat) : List Message :=
  queryMessagesBySeq conversation (asI64 target.lastConversationSeq) none (min (limit + 1) 500)

-- `multi_conversation_sync`: the windows of all conversations are read at once, the heads one by
-- one after them.
def multiConversationSync (virtualInbox : String → Bool) (targets : List Target)
    (limitPerConversation : Int) (windowsAt : String → Conversation)
    (heads : String → Option Nat) : List (Target × SyncPage) :=
  let limit := clampLimit limitPerConversation
  (targets.filter fun target => Text.isBlank target.conversationId = false).map fun target =>
    (target, conversationSlice (virtualInbox target.conversationId) target limit
      (messageWindow (windowsAt target.conversationId) target limit)
      (heads target.conversationId))

end Requests

section Commits

inductive Commit where
  | message (row : Row)
  | event (seq : Nat)

def insertRow (conversation : Conversation) (row : Row)
    (h : (∀ other ∈ conversation.rows, other.seq < row.seq) ∧ 0 < row.seq ∧ row.seq < 2 ^ 63) :
    Conversation where
  rows := conversation.rows ++ [row]
  events := conversation.events
  ascending := by
    rw [List.pairwise_append]
    refine ⟨conversation.ascending, List.pairwise_singleton _ _, fun other hother last hlast => ?_⟩
    rw [List.mem_singleton] at hlast
    subst hlast
    exact h.1 other hother
  positive other hother := by
    rcases List.mem_append.mp hother with hold | hnew
    · exact conversation.positive other hold
    · rw [List.mem_singleton] at hnew
      subst hnew
      exact h.2.1
  bounded other hother := by
    rcases List.mem_append.mp hother with hold | hnew
    · exact conversation.bounded other hold
    · rw [List.mem_singleton] at hnew
      subst hnew
      exact h.2.2
  events_bounded := conversation.events_bounded

def insertEvent (conversation : Conversation) (seq : Nat) (h : seq < 2 ^ 63) : Conversation :=
  { conversation with
    events := seq :: conversation.events
    events_bounded := fun other hother => by
      rcases List.mem_cons.mp hother with rfl | hold
      · exact h
      · exact conversation.events_bounded other hold }

-- The messages of a conversation are committed in the order of their numbers.
def commit (conversation : Conversation) : Commit → Option Conversation
  | .message row =>
    if h : (∀ other ∈ conversation.rows, other.seq < row.seq) ∧ 0 < row.seq ∧
        row.seq < 2 ^ 63 then
      some (insertRow conversation row h)
    else none
  | .event seq => if h : seq < 2 ^ 63 then some (insertEvent conversation seq h) else none

-- What is committed between two reads.
def Grows (before after : Conversation) : Prop :=
  ∃ commits, Transition.Run commit Transition.anyStep before commits after

end Commits

end FlareIm.ConversationSync
