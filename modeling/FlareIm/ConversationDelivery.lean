import FlareIm.MessagePersistence
import Mathlib.Data.List.Lattice

namespace FlareIm.ConversationDelivery

open Context

def canonicalTenant (tenantId : String) : Bool :=
  MessagePersistence.isValidTenantId tenantId && normalizeTenantId tenantId == tenantId

structure ConversationKey where
  tenantId : String
  conversationId : String
  deriving DecidableEq

section Registry

-- The subscriptions of the node, by conversation and by connection.
structure Registry where
  byConversation : ConversationKey → List String
  byConnection : String → List ConversationKey

def emptyRegistry : Registry where
  byConversation _ := []
  byConnection _ := []

def join (key : ConversationKey) (connectionId : String) (registry : Registry) : Registry :=
  if !canonicalTenant key.tenantId || key.conversationId == "" || connectionId == "" then registry
  else
    { byConversation := Function.update registry.byConversation key
        ((registry.byConversation key).insert connectionId)
      byConnection := Function.update registry.byConnection connectionId
        ((registry.byConnection connectionId).insert key) }

def leave (key : ConversationKey) (connectionId : String) (registry : Registry) : Registry :=
  if !canonicalTenant key.tenantId then registry
  else
    { byConversation := Function.update registry.byConversation key
        ((registry.byConversation key).filter (· ≠ connectionId))
      byConnection := Function.update registry.byConnection connectionId
        ((registry.byConnection connectionId).filter (· ≠ key)) }

def removeConnection (connectionId : String) (registry : Registry) : Registry where
  byConversation key :=
    if key ∈ registry.byConnection connectionId then
      (registry.byConversation key).filter (· ≠ connectionId)
    else registry.byConversation key
  byConnection := Function.update registry.byConnection connectionId []

def localSubscribers (key : ConversationKey) (registry : Registry) : List String :=
  if !canonicalTenant key.tenantId then [] else registry.byConversation key

end Registry

section Cache

-- The member lists resolved before, oldest conversation first.
structure ResolvedConversations where
  order : List ConversationKey
  participants : ConversationKey → Option (List String × Nat)
  capacity : Nat

def largeGroupThreshold : Nat := 2000

def getFresh (cache : ResolvedConversations) (key : ConversationKey)
    (now ttl largeGroupTtl : Nat) : Option (List String) :=
  (cache.participants key).bind fun resolved =>
    let limit := if largeGroupThreshold ≤ resolved.1.length then largeGroupTtl else ttl
    if now - resolved.2 < limit then some resolved.1 else none

def ResolvedConversations.insert (cache : ResolvedConversations) (key : ConversationKey)
    (participants : List String) (now : Nat) : ResolvedConversations :=
  let evicting :=
    if (cache.participants key).isNone then
      let order := cache.order ++ [key]
      let excess := order.length - cache.capacity
      { cache with
        order := order.drop excess
        participants := fun other =>
          if other ∈ order.take excess then none else cache.participants other }
    else cache
  { evicting with
    participants := Function.update evicting.participants key (some (participants, now)) }

-- The list that was read stands; a cached one is used only when it is the same.
def resolveParticipants (cache : ResolvedConversations) (key : ConversationKey)
    (current : List String) (now ttl largeGroupTtl : Nat) :
    List String × ResolvedConversations :=
  match getFresh cache key now ttl largeGroupTtl with
  | some participants =>
    if participants = current then (participants, cache)
    else (current, cache.insert key current now)
  | none => (current, cache.insert key current now)

end Cache

-- A conversation of a tenant that is no sync inbox, and how long resolved lists are kept.
structure Conversation where
  key : ConversationKey
  canonical : canonicalTenant key.tenantId = true
  named : key.conversationId ≠ ""
  participantsTtl : Nat
  largeGroupParticipantsTtl : Nat

def subscribeLookupConcurrency : Nat := 64

-- Where a call of `deliver_to_conversation` stands. The connections of a set are joined,
-- left and checked in any order.
inductive Phase where
  | waiting
  | resolved (participants : List String)
  | lookingUp (baseline chunk : List String) (rest : List (List String)) (failed : Bool)
      (found : List String)
  | reconciling (joins leaves authorized : List String)
  | checking (remaining live authorized : List String)
  | pruning (gone : String) (remaining live authorized : List String)
  | finished
  deriving DecidableEq

-- The node with the tenant's connections and the conversation's members. Next to them stands
-- what each call has read, looked up and pushed.
structure State where
  members : List String
  connections : List (String × String)
  closed : List String
  seen : List String
  registry : Registry
  cache : ResolvedConversations
  phase : Nat → Phase
  read : Nat → Option (List String)
  lookedUp : Nat → List (String × List String)
  failed : Nat → Bool
  pushed : Nat → Option (List String)

def initial (members : List String) (capacity : Nat) : State where
  members := members
  connections := []
  closed := []
  seen := []
  registry := emptyRegistry
  cache := { order := [], participants := fun _ => none, capacity := max capacity 1 }
  phase _ := .waiting
  read _ := none
  lookedUp _ := []
  failed _ := false
  pushed _ := none

def State.userConnectionIds (state : State) (userId : String) : List String :=
  (state.connections.filter fun connection => connection.2 == userId).map (·.1)

def State.connectionExists (state : State) (connectionId : String) : Bool :=
  state.connections.any fun connection => connection.1 == connectionId

inductive Action where
  -- a connection is made, its end is handled, and the connection table drops it
  | connect (connectionId userId : String)
  | disconnect (connectionId : String)
  | reap (connectionId : String)
  -- a subscription is made outside of a delivery
  | subscribe (key : ConversationKey) (connectionId : String)
  | changeMembers (members : List String)
  | readMembers (id : Nat) (ok : Bool) (now : Nat)
  | readBaseline (id : Nat)
  | lookUp (id : Nat) (userId : String) (ok : Bool)
  | joinOne (id : Nat) (connectionId : String)
  | leaveOne (id : Nat) (connectionId : String)
  | readSubscribers (id : Nat)
  | checkOne (id : Nat) (connectionId : String)
  | prune (id : Nat)
  | send (id : Nat)

section Delivery

variable (conversation : Conversation)

def State.move (state : State) (id : Nat) (phase : Phase) : State :=
  { state with phase := Function.update state.phase id phase }

def readMembers (state : State) (id now : Nat) : State :=
  let resolved := resolveParticipants state.cache conversation.key state.members now
    conversation.participantsTtl conversation.largeGroupParticipantsTtl
  { state.move id (.resolved resolved.1) with
    cache := resolved.2
    read := Function.update state.read id (some state.members) }

-- The next chunk of members, or the joins and leaves when all were looked up.
def nextLookups (baseline found : List String) : List (List String) → Phase
  | [] => .reconciling found (baseline.filter fun connectionId => !found.contains connectionId) found
  | chunk :: rest => .lookingUp baseline chunk rest false found

def readBaseline (state : State) (id : Nat) (participants : List String) : State :=
  state.move id (nextLookups (localSubscribers conversation.key state.registry) []
    (participants.toChunks subscribeLookupConcurrency))

-- One lookup of a chunk. A failed one stops the delivery once the chunk is through.
def lookUp (state : State) (id : Nat) (userId : String) (ok : Bool) (baseline chunk : List String)
    (rest : List (List String)) (failed : Bool) (found : List String) : State :=
  let connectionIds := if ok then state.userConnectionIds userId else []
  let found := found ∪ connectionIds
  let failed := failed || !ok
  let phase :=
    if chunk.erase userId ≠ [] then .lookingUp baseline (chunk.erase userId) rest failed found
    else if failed then .finished
    else nextLookups baseline found rest
  { state.move id phase with
    lookedUp := Function.update state.lookedUp id ((userId, connectionIds) :: state.lookedUp id)
    failed := Function.update state.failed id (state.failed id || !ok) }

def send (state : State) (id : Nat) (live authorized : List String) : State :=
  { state.move id .finished with
    pushed := Function.update state.pushed id
      (some (live.filter fun connectionId => authorized.contains connectionId)) }

def step (state : State) : Action → Option State
  | .connect connectionId userId =>
    if connectionId = "" ∨ connectionId ∈ state.seen then none
    else some { state with
      connections := (connectionId, userId) :: state.connections
      seen := connectionId :: state.seen }
  | .disconnect connectionId =>
    if connectionId ∈ state.seen then
      some { state with
        closed := connectionId :: state.closed
        registry := removeConnection connectionId state.registry }
    else none
  | .reap connectionId =>
    some { state with
      connections := state.connections.filter fun connection => connection.1 != connectionId }
  | .subscribe key connectionId =>
    if connectionId ∈ state.seen then
      some { state with registry := join key connectionId state.registry }
    else none
  | .changeMembers members => some { state with members := members }
  | .readMembers id ok now =>
    match state.phase id with
    | .waiting =>
      some (if ok then readMembers conversation state id now
        else { state.move id .finished with
          failed := Function.update state.failed id true })
    | _ => none
  | .readBaseline id =>
    match state.phase id with
    | .resolved participants => some (readBaseline conversation state id participants)
    | _ => none
  | .lookUp id userId ok =>
    match state.phase id with
    | .lookingUp baseline chunk rest failed found =>
      if userId ∈ chunk then some (lookUp state id userId ok baseline chunk rest failed found)
      else none
    | _ => none
  | .joinOne id connectionId =>
    match state.phase id with
    | .reconciling joins leaves authorized =>
      if connectionId ∈ joins then
        some { state.move id (.reconciling (joins.erase connectionId) leaves authorized) with
          registry := join conversation.key connectionId state.registry }
      else none
    | _ => none
  | .leaveOne id connectionId =>
    match state.phase id with
    | .reconciling [] leaves authorized =>
      if connectionId ∈ leaves then
        some { state.move id (.reconciling [] (leaves.erase connectionId) authorized) with
          registry := leave conversation.key connectionId state.registry }
      else none
    | _ => none
  | .readSubscribers id =>
    match state.phase id with
    | .reconciling [] [] authorized =>
      some (state.move id
        (.checking (localSubscribers conversation.key state.registry) [] authorized))
    | _ => none
  | .checkOne id connectionId =>
    match state.phase id with
    | .checking remaining live authorized =>
      if connectionId ∈ remaining then
        some (state.move id
          (if state.connectionExists connectionId then
            .checking (remaining.erase connectionId) (live ++ [connectionId]) authorized
          else .pruning connectionId (remaining.erase connectionId) live authorized))
      else none
    | _ => none
  | .prune id =>
    match state.phase id with
    | .pruning gone remaining live authorized =>
      some { state.move id (.checking remaining live authorized) with
        registry := leave conversation.key gone state.registry }
    | _ => none
  | .send id =>
    match state.phase id with
    | .checking [] live authorized => some (send state id live authorized)
    | _ => none

end Delivery

end FlareIm.ConversationDelivery
