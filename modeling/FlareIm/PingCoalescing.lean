import FlareIm.Lib.Text
import FlareIm.Lib.Transition
import Mathlib.Data.String.Basic

namespace FlareIm.PingCoalescing

variable {Key Event Options : Type} [DecidableEq Key]

structure PushEventRequest (Event Options : Type) where
  userIds : List String
  events : List Event
  options : Option Options
  conversationId : String
  maxConversationSeq : Nat
  deliveryMode : Int
  inlineEventsTruncated : Bool
  deriving DecidableEq

structure ConversationPingCoalesceKey where
  tenantId : String
  conversationId : String
  deriving DecidableEq

structure PingDebounceKey where
  tenantId : String
  userId : String
  conversationId : String
  deriving DecidableEq

inductive Decision where
  | sendNow
  | scheduleAfter (delay : Nat)
  | suppressed

-- Instants and durations are counted in nanoseconds.
structure Entry (Event Options : Type) where
  lastSent : Nat
  scheduled : Bool
  pending : Option (PushEventRequest Event Options)

structure Table (Key Event Options : Type) where
  entries : Key → Option (Entry Event Options)
  lastSweep : Nat

section Requests

-- The number the wire format gives the delivery mode of a ping.
variable (ping : Int)

def pureConversationPing (request : PushEventRequest Event Options) : Option (String × Nat) :=
  if !request.events.isEmpty then none
  else if Text.isBlank request.conversationId || request.maxConversationSeq == 0 then none
  else if request.deliveryMode = ping then
    some (request.conversationId, request.maxConversationSeq)
  else none

def pendingConversationPingRequest (request : PushEventRequest Event Options)
    (conversationId : String) (maxConversationSeq : Nat) : PushEventRequest Event Options where
  userIds := []
  events := []
  options := request.options
  conversationId := conversationId
  maxConversationSeq := maxConversationSeq
  deliveryMode := ping
  inlineEventsTruncated := true

def mergePendingConversationPing (existing incoming : PushEventRequest Event Options) :
    PushEventRequest Event Options where
  userIds := []
  events := []
  options := incoming.options.or existing.options
  conversationId := existing.conversationId
  maxConversationSeq := max existing.maxConversationSeq incoming.maxConversationSeq
  deliveryMode := ping
  inlineEventsTruncated := true

-- The worker keeps the users of both, each once.
def mergePendingPing (existing incoming : PushEventRequest Event Options) :
    PushEventRequest Event Options where
  userIds := incoming.userIds.foldl
    (fun users userId => if users.contains userId then users else users ++ [userId])
    existing.userIds
  events := []
  options := incoming.options.or existing.options
  conversationId := existing.conversationId
  maxConversationSeq := max existing.maxConversationSeq incoming.maxConversationSeq
  deliveryMode := ping
  inlineEventsTruncated := true

end Requests

-- What tells the two components apart: how a ping waits, how two of them are merged, how often
-- idle entries are dropped, which requests they are asked about and what of a waiting ping is
-- sent on.
structure Component (Key Event Options : Type) where
  window : Nat
  sweepInterval : Option Nat
  merge : PushEventRequest Event Options → PushEventRequest Event Options →
    PushEventRequest Event Options
  pendingOf : PushEventRequest Event Options → PushEventRequest Event Options
  sends : PushEventRequest Event Options → Option Nat
  asks : Key → PushEventRequest Event Options → Bool

def thirtySeconds : Nat := 30 * 10 ^ 9

-- The router asks about pure pings only, under the conversation they name, and checks a
-- waiting ping once more before it is sent.
def conversationPingCoalescer (ping : Int) (window : Nat) :
    Component ConversationPingCoalesceKey Event Options where
  window := window
  sweepInterval := some (max (window * 10) thirtySeconds)
  merge := mergePendingConversationPing ping
  pendingOf request :=
    pendingConversationPingRequest ping request request.conversationId request.maxConversationSeq
  sends pending := (pureConversationPing ping pending).map (·.2)
  asks key request :=
    (pureConversationPing ping request).isSome && request.conversationId == key.conversationId

-- The worker's debouncer drops no entry, and nothing stands between it and its caller.
def conversationPingDebouncer (ping : Int) (window : Nat) :
    Component PingDebounceKey Event Options where
  window := window
  sweepInterval := none
  merge := mergePendingPing ping
  pendingOf request := request
  sends pending := some pending.maxConversationSeq
  asks _ _ := true

def Entry.isIdle (entry : Entry Event Options) (now window : Nat) : Bool :=
  !entry.scheduled && entry.pending.isNone && decide (window ≤ now - entry.lastSent)

def Table.dropIdle (table : Table Key Event Options) (now window : Nat) :
    Table Key Event Options where
  entries key := (table.entries key).filter fun entry => !entry.isIdle now window
  lastSweep := now

section Component

variable (component : Component Key Event Options)

def sweep (table : Table Key Event Options) (now : Nat) : Table Key Event Options :=
  match component.sweepInterval with
  | none => table
  | some interval =>
    if interval ≤ now - table.lastSweep then table.dropIdle now component.window else table

def freshEntry (now : Nat) : Entry Event Options where
  lastSent := now
  scheduled := false
  pending := none

def Entry.hold (entry : Entry Event Options) (pending : PushEventRequest Event Options) :
    Entry Event Options :=
  { entry with
    scheduled := true
    pending := some (match entry.pending with
      | some existing => component.merge existing pending
      | none => pending) }

-- What `observe` makes of the entry of its key.
def observeEntry (now : Nat) (pending : PushEventRequest Event Options) :
    Option (Entry Event Options) → Entry Event Options × Decision
  | none => (freshEntry now, .sendNow)
  | some entry =>
    let elapsed := now - entry.lastSent
    if component.window ≤ elapsed then (freshEntry now, .sendNow)
    else (entry.hold component pending,
      if entry.scheduled then .suppressed else .scheduleAfter (component.window - elapsed))

def observe (table : Table Key Event Options) (now : Nat) (key : Key)
    (pending : PushEventRequest Event Options) : Table Key Event Options × Decision :=
  if component.window = 0 then (table, .sendNow)
  else
    let swept := sweep component table now
    let observed := observeEntry component now pending (swept.entries key)
    ({ swept with entries := Function.update swept.entries key (some observed.1) }, observed.2)

def Entry.take (entry : Entry Event Options) (now : Nat) : Entry Event Options where
  lastSent := if entry.pending.isSome then now else entry.lastSent
  scheduled := false
  pending := none

def takePending (table : Table Key Event Options) (now : Nat) (key : Key) :
    Table Key Event Options × Option (PushEventRequest Event Options) :=
  match table.entries key with
  | none => (table, none)
  | some entry =>
    ({ table with entries := Function.update table.entries key (some (entry.take now)) },
      entry.pending)

-- What a component answers: a decision, or the ping a timer takes.
inductive Answer (Event Options : Type) where
  | decided (decision : Decision)
  | taken (pending : Option (PushEventRequest Event Options))

-- The component with its timers outstanding, each with the time it sleeps until, and what was
-- observed, sent and answered so far.
structure State (Key Event Options : Type) where
  clock : Nat
  table : Table Key Event Options
  timers : List (Key × Nat) := []
  observed : List (Key × Nat) := []
  sent : List (Key × Nat) := []
  answers : List (Key × Answer Event Options) := []

def initial (start : Nat) : State Key Event Options where
  clock := start
  table := { entries := fun _ => none, lastSweep := start }

inductive Action (Key Event Options : Type) where
  | observe (key : Key) (request : PushEventRequest Event Options) (now : Nat)
  | takePending (key : Key) (due now : Nat)

def Action.key : Action Key Event Options → Key
  | .observe key _ _ => key
  | .takePending key _ _ => key

def Decision.timer (key : Key) (now : Nat) : Decision → List (Key × Nat)
  | .scheduleAfter delay => [(key, now + delay)]
  | _ => []

def Decision.sent (key : Key) (seq : Nat) : Decision → List (Key × Nat)
  | .sendNow => [(key, seq)]
  | _ => []

def dispatch (state : State Key Event Options) (key : Key)
    (request : PushEventRequest Event Options) (now : Nat) : State Key Event Options :=
  let observed := observe component state.table now key (component.pendingOf request)
  { clock := now
    table := observed.1
    timers := observed.2.timer key now ++ state.timers
    observed := (key, request.maxConversationSeq) :: state.observed
    sent := observed.2.sent key request.maxConversationSeq ++ state.sent
    answers := (key, .decided observed.2) :: state.answers }

def fire (state : State Key Event Options) (key : Key) (due now : Nat) :
    State Key Event Options :=
  let taken := takePending state.table now key
  { state with
    clock := now
    table := taken.1
    timers := state.timers.erase (key, due)
    sent := ((taken.2.bind component.sends).map fun seq => (key, seq)).toList ++ state.sent
    answers := (key, .taken taken.2) :: state.answers }

-- Time does not run backwards, and a timer fires at its time or later.
def step (state : State Key Event Options) :
    Action Key Event Options → Option (State Key Event Options)
  | .observe key request now =>
    if state.clock ≤ now ∧ component.asks key request then
      some (dispatch component state key request now)
    else none
  | .takePending key due now =>
    if state.clock ≤ now ∧ due ≤ now ∧ (key, due) ∈ state.timers then
      some (fire component state key due now)
    else none

end Component

end FlareIm.PingCoalescing
