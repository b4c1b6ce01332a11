import FlareIm.Lib.SetMap
import FlareIm.MessagePersistence

namespace FlareIm.ConversationSubscription

open Context MessagePersistence SetMap

structure ConversationKey where
  tenantId : String
  conversationId : String
  deriving DecidableEq

-- The subscriptions of one gateway node. A `HashSet` is a list without duplicates.
structure SubscriptionState where
  byConversation : Map ConversationKey String := fun _ => none
  byConnection : Map String ConversationKey := fun _ => none

def canonicalTenant (tenantId : String) : Bool :=
  isValidTenantId tenantId ∧ normalizeTenantId tenantId = tenantId

section Registry

variable (tenantId conversationId connectionId : String) (state : SubscriptionState)

def join : SubscriptionState :=
  if !canonicalTenant tenantId ∨ conversationId = "" ∨ connectionId = "" then state
  else
    let key : ConversationKey := ⟨tenantId, conversationId⟩
    { byConversation := add state.byConversation key connectionId
      byConnection := add state.byConnection connectionId key }

def leave : SubscriptionState :=
  if !canonicalTenant tenantId then state
  else
    let key : ConversationKey := ⟨tenantId, conversationId⟩
    { byConversation := discard state.byConversation key connectionId
      byConnection := discard state.byConnection connectionId key }

def removeConnection : SubscriptionState :=
  let conversations := elems state.byConnection connectionId
  let byConnection := Function.update state.byConnection connectionId none
  if conversations = [] then { state with byConnection }
  else
    { byConversation :=
        conversations.foldl (fun map cid => discard map cid connectionId) state.byConversation
      byConnection }

def localSubscribers : List String :=
  if !canonicalTenant tenantId then []
  else elems state.byConversation ⟨tenantId, conversationId⟩

def localSubscriberCount : Nat :=
  if !canonicalTenant tenantId then 0
  else ((state.byConversation ⟨tenantId, conversationId⟩).map List.length).getD 0

end Registry

section Runs

inductive Operation where
  | join (tenantId conversationId connectionId : String)
  | leave (tenantId conversationId connectionId : String)
  | removeConnection (connectionId : String)

def step (state : SubscriptionState) : Operation → SubscriptionState
  | .join tenantId conversationId connectionId =>
    join tenantId conversationId connectionId state
  | .leave tenantId conversationId connectionId =>
    leave tenantId conversationId connectionId state
  | .removeConnection connectionId => removeConnection connectionId state

def run (operations : List Operation) : SubscriptionState := operations.foldl step {}

-- Whether an operation decides the subscription of the connection to the conversation.
def effectiveOn (key : ConversationKey) (connection : String) : Operation → Bool
  | .join tenantId conversationId connectionId =>
    key = ⟨tenantId, conversationId⟩ ∧ connection = connectionId ∧
      canonicalTenant tenantId ∧ conversationId ≠ "" ∧ connectionId ≠ ""
  | .leave tenantId conversationId connectionId =>
    key = ⟨tenantId, conversationId⟩ ∧ connection = connectionId ∧ canonicalTenant tenantId
  | .removeConnection connectionId => connection = connectionId

def lastEffective (key : ConversationKey) (connection : String) (operations : List Operation) :
    Option Operation :=
  (operations.filter (effectiveOn key connection)).getLast?

def Operation.isJoin : Operation → Bool
  | .join .. => true
  | _ => false

end Runs

section Invariant

-- Both indices hold the same subscriptions.
structure Consistent (state : SubscriptionState) : Prop where
  inverse : ∀ key connection, connection ∈ elems state.byConversation key ↔
    key ∈ elems state.byConnection connection
  conversations : WellFormed state.byConversation
  connections : WellFormed state.byConnection

variable {tenantId conversationId connectionId connection : String} {key : ConversationKey}
  {state : SubscriptionState}

theorem consistent_empty : Consistent {} where
  inverse _ _ := by simp [elems]
  conversations := wellFormed_empty
  connections := wellFormed_empty

theorem join_of_ignored (h : !canonicalTenant tenantId ∨ conversationId = "" ∨ connectionId = "") :
    join tenantId conversationId connectionId state = state := if_pos h

theorem mem_join (h : ¬ (!canonicalTenant tenantId ∨ conversationId = "" ∨ connectionId = "")) :
    connection ∈ elems (join tenantId conversationId connectionId state).byConversation key ↔
      (key = ⟨tenantId, conversationId⟩ ∧ connection = connectionId) ∨
        connection ∈ elems state.byConversation key := by
  rw [join, if_neg h]
  exact mem_elems_add

theorem mem_leave (h : canonicalTenant tenantId) :
    connection ∈ elems (leave tenantId conversationId connectionId state).byConversation key ↔
      connection ∈ elems state.byConversation key ∧
        ¬ (key = ⟨tenantId, conversationId⟩ ∧ connection = connectionId) := by
  rw [leave, if_neg (by simp [h])]
  exact mem_elems_discard

-- The other index names every conversation of the connection, so none is missed.
theorem Consistent.elems_removeConnection (h : Consistent state) (key : ConversationKey) :
    elems (removeConnection connectionId state).byConversation key =
      (elems state.byConversation key).filter (· ≠ connectionId) := by
  have hk : key ∉ elems state.byConnection connectionId →
      (elems state.byConversation key).filter (· ≠ connectionId) =
        elems state.byConversation key := by
    intro hno
    rw [List.filter_eq_self]
    intro entry hen
    have hne : entry ≠ connectionId := by
      intro heq
      subst heq
      exact hno ((h.inverse key entry).mp hen)
    simpa using hne
  unfold removeConnection
  by_cases hn : elems state.byConnection connectionId = []
  · rw [if_pos hn, hk (by simp [hn])]
  · rw [if_neg hn]
    dsimp only
    rw [elems_foldl_discard]
    by_cases hm : key ∈ elems state.byConnection connectionId
    · rw [if_pos hm]
    · rw [if_neg hm, hk hm]

theorem byConnection_removeConnection : (removeConnection connectionId state).byConnection =
      Function.update state.byConnection connectionId none := by
  unfold removeConnection
  by_cases hn : elems state.byConnection connectionId = []
  · rw [if_pos hn]
  · rw [if_neg hn]

theorem Consistent.join (h : Consistent state) :
    Consistent (join tenantId conversationId connectionId state) := by
  by_cases hig : !canonicalTenant tenantId ∨ conversationId = "" ∨ connectionId = ""
  · rw [join_of_ignored hig]
    exact h
  · rw [ConversationSubscription.join, if_neg hig]
    refine ⟨fun key connection => ?_, h.conversations.add, h.connections.add⟩
    rw [mem_elems_add, mem_elems_add, h.inverse]
    tauto

theorem Consistent.leave (h : Consistent state) :
    Consistent (leave tenantId conversationId connectionId state) := by
  unfold ConversationSubscription.leave
  split
  · exact h
  · refine ⟨fun key connection => ?_, h.conversations.discard, h.connections.discard⟩
    rw [mem_elems_discard, mem_elems_discard, h.inverse]
    tauto

theorem Consistent.removeConnection (h : Consistent state) :
    Consistent (removeConnection connectionId state) := by
  refine ⟨fun key connection => ?_, ?_, ?_⟩
  · rw [h.elems_removeConnection, byConnection_removeConnection, List.mem_filter, h.inverse]
    by_cases hs : connection = connectionId
    · subst hs
      simp [elems]
    · simp [elems, hs]
  · unfold ConversationSubscription.removeConnection
    by_cases hn : elems state.byConnection connectionId = []
    · rw [if_pos hn]
      exact h.conversations
    · rw [if_neg hn]
      exact h.conversations.foldl_discard _
  · rw [byConnection_removeConnection]
    exact h.connections.remove

theorem Consistent.step (h : Consistent state) (operation : Operation) :
    Consistent (step state operation) := by
  cases operation with
  | join tenantId conversationId connectionId => exact h.join
  | leave tenantId conversationId connectionId => exact h.leave
  | removeConnection connectionId => exact h.removeConnection

theorem run_concat (operations : List Operation) (operation : Operation) :
    run (operations ++ [operation]) = step (run operations) operation := by
  rw [run, List.foldl_concat]
  rfl

theorem consistent_run (operations : List Operation) : Consistent (run operations) := by
  induction operations using List.reverseRecOn with
  | nil => exact consistent_empty
  | append_singleton operations operation ih =>
    rw [run_concat]
    exact ih.step operation

end Invariant

end FlareIm.ConversationSubscription
