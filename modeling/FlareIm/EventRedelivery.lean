import FlareIm.UnreadCount

namespace FlareIm.EventRedelivery

open Text ConversationTables UnreadCount

section Events

inductive DeleteType where
  | soft
  | hard
  deriving DecidableEq

inductive DeleteScope where
  | conversationGlobal
  | own
  deriving DecidableEq

-- The sequence number of a message is the one its cast to `i64` gives. `other` stands for the
-- events that are not handled.
inductive MessageEvent where
  | message (senderId : String) (conversationSeq status : Int)
  | read (userId : String) (readSeq : Nat)
  | «recall» (serverMsgId : String)
  | delete (serverMsgId : String) (deleteType : Option DeleteType) (scope : Option DeleteScope)
  | other

def retractedMessage : MessageEvent → Option String
  | .recall serverMsgId => some serverMsgId
  | .delete serverMsgId deleteType scope =>
    let isGlobal : Bool := match scope with
      | some scope => scope == .conversationGlobal
      | none => deleteType == some .hard
    if isGlobal then some serverMsgId else none
  | .message _ _ _ | .read _ _ | .other => none

def readSeqForConversationCursor (readSeq : Nat) : Option Int :=
  if readSeq = 0 then none else some (min readSeq MAX_SEQ)

-- The sequence number a message event advances the conversation to.
def advancedSeq : MessageEvent → Option Int
  | .message senderId conversationSeq _ =>
    if senderId = "" ∨ conversationSeq ≤ 0 then none else some conversationSeq
  | .read _ _ | .recall _ | .delete _ _ _ | .other => none

-- The member and the position of a read event.
def readPosition : MessageEvent → Option (String × Int)
  | .read userId readSeq =>
    if userId = "" then none
    else (readSeqForConversationCursor readSeq).map fun seq => (userId, seq)
  | .message _ _ _ | .recall _ | .delete _ _ _ | .other => none

end Events

section Handler

variable (threshold : Int) (event : MessageEvent) (conversation : Conversation)

def handleMessageEvent : Conversation :=
  match event with
  | .message senderId conversationSeq status =>
    if senderId = "" ∨ conversationSeq ≤ 0 then conversation
    else applyMessageEvent threshold conversation senderId conversationSeq status
  | .read userId readSeq =>
    if userId = "" then conversation
    else
      match readSeqForConversationCursor readSeq with
      | none => conversation
      | some seq =>
        updateMember userId (fun participant =>
          markAsRead conversation.row participant conversation.messages seq) conversation
  | .recall _ | .delete _ _ _ =>
    match retractedMessage event with
    | none => conversation
    | some serverMsgId => retractMessageUnread threshold conversation serverMsgId
  | .other => conversation

-- A delivery of a message event that fails after the sequence update.
def failAfterSeqUpdate : Conversation :=
  match advancedSeq event with
  | none => conversation
  | some seq => advanceLastMessageSeq seq conversation

end Handler

section Deliveries

-- The events of one conversation, and the conversation before their first delivery.
structure Setup where
  threshold : Int
  conversation : Conversation
  event : Nat → MessageEvent

-- A delivery is processed, or it fails after the sequence update or before any.
inductive Delivery where
  | processed
  | failedAfterSeqUpdate
  | failed
  deriving DecidableEq

-- `processed` lists the events in the order of their first successful processing.
structure State where
  conversation : Conversation
  delivered : List Nat := []
  processed : List Nat := []

structure Action where
  event : Nat
  delivery : Delivery

variable (setup : Setup) (state : State)

def initial : State where
  conversation := setup.conversation

def deliver (event : Nat) : Delivery → Conversation
  | .processed => handleMessageEvent setup.threshold (setup.event event) state.conversation
  | .failedAfterSeqUpdate => failAfterSeqUpdate (setup.event event) state.conversation
  | .failed => state.conversation

def step (action : Action) : Option State :=
  some {
    conversation := deliver setup state action.event action.delivery
    delivered := action.event :: state.delivered
    processed :=
      if action.delivery = .processed ∧ action.event ∉ state.processed then
        state.processed ++ [action.event]
      else state.processed }

-- The conversation when each of some events is processed once.
def once (events : List Nat) : Conversation :=
  events.foldl (fun conversation event =>
    handleMessageEvent setup.threshold (setup.event event) conversation) setup.conversation

end Deliveries

end FlareIm.EventRedelivery
