import FlareIm.Lib.RoundTrip
import FlareIm.Lib.Transition
import Mathlib.Logic.Function.Basic

namespace FlareIm.PluginCard

open RoundTrip Transition

def MAX_POST_ATTEMPTS : Nat := 3

section Calls

-- A card `post_result` is called with, as far as its way goes by it: the key Ingest deduplicates
-- its posts by, whether its envelope is valid, names a conversation and keeps within the limit.
structure CardPostCall where
  clientMsgId : String
  valid : Bool
  hasConversation : Bool
  fits : Bool

-- The calls for one entity. Without a delivery every card is given up.
structure Setup where
  call : Nat → CardPostCall
  hasDelivery : Bool

-- `queue_post_failed` is on its way confirmed or not.
inductive CallPhase where
  | notStarted
  | readingBindings
  | checkingOutbox
  | routing (attempt : Nat) (sentUnanswered : Bool)
  | posting (attempt : Nat) (sentUnanswered : Bool)
  | givingUp (confirmed : Bool)
  | enqueuing (confirmed : Bool)
  | registering (serverMsgId : Nat)
  | inserting (serverMsgId : Nat)
  | finished
  deriving DecidableEq

def CallPhase.sending : CallPhase → Bool
  | .routing .. | .posting .. => true
  | _ => false

-- A card Ingest stored, with the call whose post it was.
structure Card where
  clientMsgId : String
  serverMsgId : Nat
  call : Nat
  deriving DecidableEq

structure Binding where
  serverMsgId : Nat
  recalled : Bool

end Calls

section Outbox

inductive Reason where
  | postFailed
  | recalled
  deriving DecidableEq

inductive LifecycleOutcome where
  | delivered
  | skipped
  | abandoned
  deriving DecidableEq

-- A row is pending as long as it has no outcome. An unconfirmed one is there for its call.
structure OutboxRow where
  call : Option Nat
  unconfirmed : Bool
  status : Option LifecycleOutcome
  due : Bool

inductive WorkerPhase where
  | idle
  | checking
  | calling (reason : Reason)
  | completing (reason : Reason) (outcome : LifecycleOutcome)
  | retrying (reason : Reason)
  deriving DecidableEq

structure State where
  stored : List Card
  -- the calls with a post that Ingest took without an answer and may still store
  inFlight : List Nat
  bindings : List Binding
  rows : Reason → Option OutboxRow
  calls : Nat → CallPhase
  workers : Nat → WorkerPhase
  -- the statements of Storage Writer that found the entity without a card
  binders : Nat → Option Nat
  -- what was called, answered and ended
  called : Bool
  answered : Reason → Bool
  ends : Reason → List LifecycleOutcome

def emptyState : State where
  stored := []
  inFlight := []
  bindings := []
  rows _ := none
  calls _ := .notStarted
  workers _ := .idle
  binders _ := none
  called := false
  answered _ := false
  ends _ := []

-- `enqueue`: a confirmed row takes the place of a pending unconfirmed one.
def enqueue : Option OutboxRow → OutboxRow
  | none => ⟨none, false, none, true⟩
  | some row =>
    if row.unconfirmed ∧ row.status = none then { row with unconfirmed := false, due := true }
    else row

def enqueueUnconfirmed (call : Nat) : Option OutboxRow → OutboxRow
  | none => ⟨some call, true, none, false⟩
  | some row => row

-- `post_failed`: an unconfirmed row counts once it has ended.
def postFailed : Option OutboxRow → Bool
  | none => false
  | some row => !row.unconfirmed || row.status.isSome

end Outbox

section Steps

inductive RouteAnswer where
  | ok
  | refused
  | unavailable

-- A post is stored and answered, stored without an answer, taken to be stored later, refused, or
-- does not arrive.
inductive PostAnswer where
  | posted
  | lost
  | accepted
  | refused
  | unavailable

-- How the delivery of a row goes: it is not called for (no operation declared or approved), cannot
-- be signed, the plugin is not available, the host refuses the ticket, the plugin answers, or the
-- answer is missing.
inductive PluginAnswer where
  | undeclared
  | unsigned
  | unavailable (expired : Bool)
  | credentialRefused
  | answered
  | unanswered (expired : Bool)

inductive Action where
  | start (call : Nat)
  | readBindings (call : Nat) (ok : Bool)
  | checkOutbox (call : Nat) (ok : Bool)
  | route (call : Nat) (answer : RouteAnswer)
  | post (call : Nat) (answer : PostAnswer)
  | land (call : Nat)
  | giveUp (call : Nat) (ok : Bool)
  | enqueue (call : Nat) (outcome : Outcome)
  | register (call : Nat) (ok : Bool)
  | insert (call : Nat) (ok : Bool)
  | writerRegister (binder : Nat) (card : Card)
  | writerInsert (binder : Nat)
  | «recall»
  | fallsDue (reason : Reason)
  | claim (worker : Nat) (reason : Reason)
  | checkBindings (worker : Nat) (ok expired : Bool)
  | deliver (worker : Nat) (answer : PluginAnswer)
  | complete (worker : Nat) (outcome : Outcome)
  | retryAfter (worker : Nat) (outcome : Outcome)

variable (setup : Setup) (state : State)

def State.setCall (call : Nat) (phase : CallPhase) : State :=
  { state with calls := Function.update state.calls call phase }

def State.setWorker (worker : Nat) (phase : WorkerPhase) : State :=
  { state with workers := Function.update state.workers worker phase }

def State.setRow (reason : Reason) (row : OutboxRow) : State :=
  { state with rows := Function.update state.rows reason (some row) }

-- An invalid envelope is given up with the entity that can be read from it.
def start (call : Nat) : Option State :=
  if state.calls call ≠ .notStarted then none
  else if (setup.call call).valid then some (state.setCall call .readingBindings)
  else some (state.setCall call (.givingUp true))

-- `bound_card`: a card answers the call, recalled or not.
def readBindings (call : Nat) (ok : Bool) : Option State :=
  if state.calls call ≠ .readingBindings then none
  else if ok = false ∨ state.bindings ≠ [] then some (state.setCall call .finished)
  else if (setup.call call).hasConversation then some (state.setCall call .checkingOutbox)
  else some (state.setCall call (.givingUp true))

def checkOutbox (call : Nat) (ok : Bool) : Option State :=
  if state.calls call ≠ .checkingOutbox then none
  else if ok = false ∨ postFailed (state.rows .postFailed) = true then
    some (state.setCall call .finished)
  else if (setup.call call).fits ∧ setup.hasDelivery then some (state.setCall call (.routing 0 false))
  else some (state.setCall call (.givingUp true))

def afterUnavailable (attempt : Nat) (sentUnanswered : Bool) : CallPhase :=
  if attempt + 1 < MAX_POST_ATTEMPTS then .routing (attempt + 1) sentUnanswered
  else .givingUp (!sentUnanswered)

def route (call : Nat) (answer : RouteAnswer) : Option State :=
  match state.calls call with
  | .routing attempt sentUnanswered =>
    match answer with
    | .ok => some (state.setCall call (.posting attempt sentUnanswered))
    | .refused => some (state.setCall call (.givingUp (!sentUnanswered)))
    | .unavailable => some (state.setCall call (afterUnavailable attempt sentUnanswered))
  | _ => none

-- Ingest stores a post once and answers a later one with the card it stored.
def State.storeCard (call : Nat) : State × Nat :=
  match state.stored.find? fun card => card.clientMsgId == (setup.call call).clientMsgId with
  | some card => (state, card.serverMsgId)
  | none =>
    let serverMsgId := state.stored.length
    ({ state with
        stored := ⟨(setup.call call).clientMsgId, serverMsgId, call⟩ :: state.stored }, serverMsgId)

def post (call : Nat) (answer : PostAnswer) : Option State :=
  match state.calls call with
  | .posting attempt sentUnanswered =>
    match answer with
    | .posted =>
      let (stored, serverMsgId) := state.storeCard setup call
      some (stored.setCall call (.registering serverMsgId))
    | .lost =>
      some ((state.storeCard setup call).1.setCall call (afterUnavailable attempt true))
    | .accepted =>
      some ({ state with inFlight := call :: state.inFlight }.setCall call
        (afterUnavailable attempt true))
    | .refused => some (state.setCall call (.givingUp (!sentUnanswered)))
    | .unavailable => some (state.setCall call (afterUnavailable attempt true))
  | _ => none

def land (call : Nat) : Option State :=
  if call ∈ state.inFlight then
    some { (state.storeCard setup call).1 with inFlight := state.inFlight.erase call }
  else none

-- `queue_post_failed`: bindings that cannot be read do not keep it from queueing.
def giveUp (call : Nat) (ok : Bool) : Option State :=
  match state.calls call with
  | .givingUp confirmed =>
    if ok = true ∧ state.bindings ≠ [] then some (state.setCall call .finished)
    else some (state.setCall call (.enqueuing confirmed))
  | _ => none

def enqueueRow (call : Nat) (outcome : Outcome) : Option State :=
  match state.calls call with
  | .enqueuing confirmed =>
    let row := state.rows .postFailed
    let queued := state.setRow .postFailed
      (if confirmed then enqueue row else enqueueUnconfirmed call row)
    some ((if outcome.takesEffect then queued else state).setCall call .finished)
  | _ => none

-- `register` looks for a card of the entity and inserts when there was none. Statements of other
-- sessions may commit in between.
def register (call : Nat) (ok : Bool) : Option State :=
  match state.calls call with
  | .registering serverMsgId =>
    if ok = true ∧ state.bindings = [] then some (state.setCall call (.inserting serverMsgId))
    else some (state.setCall call .finished)
  | _ => none

def State.bind (serverMsgId : Nat) : State :=
  if state.bindings.any fun binding => binding.serverMsgId == serverMsgId then state
  else { state with bindings := state.bindings ++ [⟨serverMsgId, false⟩] }

def insert (call : Nat) (ok : Bool) : Option State :=
  match state.calls call with
  | .inserting serverMsgId =>
    some ((if ok then state.bind serverMsgId else state).setCall call .finished)
  | _ => none

-- Storage Writer binds a card it stores with the same statement.
def writerRegister (binder : Nat) (card : Card) : Option State :=
  if card ∈ state.stored ∧ state.bindings = [] ∧ state.binders binder = none then
    some { state with
      binders := Function.update state.binders binder (some card.serverMsgId) }
  else none

def writerInsert (binder : Nat) : Option State :=
  match state.binders binder with
  | some serverMsgId =>
    some { state.bind serverMsgId with binders := Function.update state.binders binder none }
  | none => none

-- The recall of a bound card, with its row.
def «recall» : Option State :=
  if state.bindings = [] then none
  else
    let recalled := { state with
      bindings := state.bindings.map fun binding => { binding with recalled := true } }
    match state.rows .recalled with
    | some _ => some recalled
    | none => some (recalled.setRow .recalled ⟨none, false, none, true⟩)

-- Time makes a pending row due. What Ingest stored for the call of an unconfirmed one is bound by
-- then.
def fallsDue (reason : Reason) : Option State :=
  match state.rows reason with
  | some row =>
    if row.status = none ∧ (row.unconfirmed = true → ∀ call ∈ row.call,
        call ∉ state.inFlight ∧ ∀ card ∈ state.stored, card.call = call →
          ∃ binding ∈ state.bindings, binding.serverMsgId = card.serverMsgId) then
      some (state.setRow reason { row with due := true })
    else none
  | none => none

-- `claim_due`: the lease makes the row invisible until time makes it due again.
def claim (worker : Nat) (reason : Reason) : Option State :=
  match state.rows reason with
  | some row =>
    if state.workers worker = .idle ∧ row.status = none ∧ row.due then
      some ((state.setRow reason { row with due := false }).setWorker worker
        (if reason = .postFailed then .checking else .calling reason))
    else none
  | none => none

-- A row that was not delivered is tried again until it is too old.
def retry (worker : Nat) (reason : Reason) (expired : Bool) : State :=
  if expired then state.setWorker worker (.completing reason .abandoned)
  else state.setWorker worker (.retrying reason)

def checkBindings (worker : Nat) (ok expired : Bool) : Option State :=
  if state.workers worker ≠ .checking then none
  else if ok = false then some (retry state worker .postFailed expired)
  else if state.bindings ≠ [] then
    some (state.setWorker worker (.completing .postFailed .skipped))
  else some (state.setWorker worker (.calling .postFailed))

def State.callPlugin (reason : Reason) : State :=
  if reason = .postFailed then { state with called := true } else state

def deliver (worker : Nat) (answer : PluginAnswer) : Option State :=
  match state.workers worker with
  | .calling reason =>
    match answer with
    | .undeclared => some (state.setWorker worker (.completing reason .skipped))
    | .unsigned => some (state.setWorker worker (.completing reason .abandoned))
    | .unavailable expired => some (retry state worker reason expired)
    | .credentialRefused =>
      some ((state.callPlugin reason).setWorker worker (.completing reason .abandoned))
    | .answered =>
      some ({ state.callPlugin reason with
        answered := Function.update state.answered reason true }.setWorker worker
          (.completing reason .delivered))
    | .unanswered expired => some (retry (state.callPlugin reason) worker reason expired)
  | _ => none

-- `complete` ends a row that is still pending.
def complete (worker : Nat) (outcome : Outcome) : Option State :=
  match state.workers worker with
  | .completing reason ending =>
    let done := state.setWorker worker .idle
    match state.rows reason with
    | some row =>
      if outcome.takesEffect ∧ row.status = none then
        some { done.setRow reason { row with status := some ending } with
          ends := Function.update state.ends reason (ending :: state.ends reason) }
      else some done
    | none => some done
  | _ => none

def retryAfter (worker : Nat) (outcome : Outcome) : Option State :=
  match state.workers worker with
  | .retrying reason =>
    let done := state.setWorker worker .idle
    match state.rows reason with
    | some row =>
      if outcome.takesEffect ∧ row.status = none then
        some (done.setRow reason { row with due := false })
      else some done
    | none => some done
  | _ => none

def step : Action → Option State
  | .start call => start setup state call
  | .readBindings call ok => readBindings setup state call ok
  | .checkOutbox call ok => checkOutbox setup state call ok
  | .route call answer => route state call answer
  | .post call answer => post setup state call answer
  | .land call => land setup state call
  | .giveUp call ok => giveUp state call ok
  | .enqueue call outcome => enqueueRow state call outcome
  | .register call ok => register state call ok
  | .insert call ok => insert state call ok
  | .writerRegister binder card => writerRegister state binder card
  | .writerInsert binder => writerInsert state binder
  | .recall => «recall» state
  | .fallsDue reason => fallsDue state reason
  | .claim worker reason => claim state worker reason
  | .checkBindings worker ok expired => checkBindings state worker ok expired
  | .deliver worker answer => deliver state worker answer
  | .complete worker outcome => complete state worker outcome
  | .retryAfter worker outcome => retryAfter state worker outcome

end Steps

end FlareIm.PluginCard
