import FlareIm.Lib.RoundTrip
import FlareIm.Lib.Transition
import FlareIm.SessionStore

namespace FlareIm.KickCommands

open RoundTrip SessionStore

section Tables

structure Target where
  app : String
  user : String
  record : RedisConnectionRecord
  reason : String
  deriving DecidableEq

-- What the evidence says beside its request and its time is carried along unread.
structure Evidence where
  requestId : String
  atMs : Int
  effect : String

-- The columns of a command that are written once.
structure Command where
  target : Target
  evidence : Evidence

def Command.uniqueKey (command : Command) : String × String × String :=
  (command.target.app, command.evidence.requestId, command.target.record.connectionId)

structure Schedule where
  attempts : Nat
  nextAt : Nat

-- Both tables put a failed attempt off by the same expression.
def Schedule.postpone (schedule : Schedule) (now : Nat) : Schedule where
  attempts := min (schedule.attempts + 1) 1000000
  nextAt := now + 1000 * min 60 (2 ^ min schedule.attempts 6)

structure Progress where
  schedule : Schedule
  completedAt : Option Nat

structure AuditMessage where
  eventId : Nat
  appId : String
  payload : Evidence

structure OutboxRow where
  appId : String
  payload : Evidence
  schedule : Schedule
  deliveredAt : Option Nat

def OutboxRow.settle (row : OutboxRow) (now : Nat) (published : Outcome) : OutboxRow :=
  if published = .answered then { row with deliveredAt := some now }
  else { row with schedule := row.schedule.postpone now }

structure KickSignal where
  tenantId : String
  userId : String
  deviceId : String
  connectionId : String
  reason : String
  commandId : Nat
  targetGateway : String
  deriving DecidableEq

def signalOf (id : Nat) (target : Target) : KickSignal where
  tenantId := target.app
  userId := target.user
  deviceId := target.record.deviceId
  connectionId := target.record.connectionId
  reason := target.reason
  commandId := id
  targetGateway := target.record.gatewayId

-- What a gateway's connection manager knows of a connection.
structure ConnectionInfo where
  authenticated : Bool
  userId : Option String
  tenantId : Option String
  deviceId : Option String

def kickMatches (signal : KickSignal) (info : ConnectionInfo) : Bool :=
  info.authenticated && info.userId == some signal.userId &&
    info.tenantId == some signal.tenantId && info.deviceId == some signal.deviceId

end Tables

section System

-- Where a call of `advance_command` stands.
inductive Phase where
  | idle
  | publishing (id : Nat) (target : Target)
  | polling (id : Nat) (target : Target) (left : Nat)
  | removing (id : Nat) (target : Target)
  | completing (id : Nat) (target : Target) (completed : Bool)
  | finished (answer : Option Bool)
  deriving DecidableEq

structure State where
  now : Nat := 0
  commands : Nat → Option Command := fun _ => none
  uniqueIds : String × String × String → Option Nat := fun _ => none
  progress : Nat → Progress := fun _ => ⟨⟨0, 0⟩, none⟩
  outbox : Nat → Option OutboxRow := fun _ => none
  receipts : Nat → Option String := fun _ => none
  store : Store := emptyStore
  connections : String → String → Option ConnectionInfo := fun _ _ => none
  calls : Nat → Phase := fun _ => .idle
  -- the signal each task of a gateway has acted on and has yet to confirm
  tasks : Nat → Option KickSignal := fun _ => none
  -- what was published, what was confirmed by the gateway it names, the sessions removed with
  -- the command they were removed for, the evidence written and the evidence the broker has
  signals : List KickSignal := []
  confirmed : List KickSignal := []
  removed : List (Nat × RedisConnectionRecord) := []
  written : List AuditMessage := []
  audited : List AuditMessage := []

def State.goTo (state : State) (call : Nat) (phase : Phase) : State :=
  { state with calls := Function.update state.calls call phase }

-- The session store is also written by the calls of users; connections come and go by themselves.
inductive Action where
  | tick
  | rewriteStore (store : Store)
  | connect (gatewayId connectionId : String) (info : ConnectionInfo)
  | disconnect (gatewayId connectionId : String)
  | prepareCommand (id : Nat) (command : Command) (outcome : Outcome)
  | readCommand (call id : Nat) (outcome : Outcome)
  | publish (call : Nat) (outcome : Outcome)
  | poll (call : Nat) (outcome : Outcome)
  | giveUp (call : Nat)
  | remove (call : Nat) (outcome : Outcome)
  | complete (call : Nat) (atMs : Int) (outcome : Outcome)
  | kick (task : Nat) (signal : KickSignal) (closes : Bool)
  | confirm (task : Nat) (outcome : Outcome)
  | expireReceipt (id : Nat)
  | drainOne (eventId : Nat) (published : Outcome) (commits : Bool)
  | cleanup (eventId : Nat)

variable (state : State)

-- A request that names the physical connection again finds its command.
def prepareCommand (id : Nat) (command : Command) (outcome : Outcome) : State :=
  if outcome.takesEffect ∧ state.uniqueIds command.uniqueKey = none ∧ state.commands id = none then
    { state with
      commands := Function.update state.commands id (some command)
      uniqueIds := Function.update state.uniqueIds command.uniqueKey (some id)
      progress := Function.update state.progress id ⟨⟨0, state.now⟩, none⟩ }
  else state

def readCommand (call id : Nat) (outcome : Outcome) : Option State :=
  if state.calls call = .idle then
    match outcome, state.commands id with
    | .answered, some command =>
      some (state.goTo call
        (if (state.progress id).completedAt.isSome then .finished (some true)
        else .publishing id command.target))
    | _, _ => some (state.goTo call (.finished none))
  else none

def publish (call : Nat) (outcome : Outcome) : Option State :=
  match state.calls call with
  | .publishing id target =>
    some ({ state with
      signals := if outcome.takesEffect then signalOf id target :: state.signals
        else state.signals }.goTo call
          (if outcome = Outcome.answered then .polling id target 30
          else .completing id target false))
  | _ => none

def poll (call : Nat) (outcome : Outcome) : Option State :=
  match state.calls call with
  | .polling id target (left + 1) =>
    some (state.goTo call
      (if outcome ≠ .answered then .completing id target false
      else if state.receipts id = some target.record.connectionId then .removing id target
      else .polling id target left))
  | _ => none

-- The polls have run out, or the two seconds for delivery have.
def giveUp (call : Nat) : Option State :=
  match state.calls call with
  | .publishing id target | .polling id target _ | .removing id target =>
    some (state.goTo call (.completing id target false))
  | _ => none

def remove (call : Nat) (outcome : Outcome) : Option State :=
  match state.calls call with
  | .removing id target =>
    let key : SessionKey := ⟨target.app, target.user⟩
    let (store, reply) :=
      removeForKickScript key target.record.conversationId target.record state.store
    let after := match outcome.takesEffect, reply,
        hget state.store key target.record.conversationId with
      | true, .removed _, some record =>
        { state with store := store, removed := (id, record) :: state.removed }
      | _, _, _ => state
    some (after.goTo call (.completing id target
      (match outcome, reply with
      | .answered, .removed _ | .answered, .absent => true
      | _, _ => false)))
  | _ => none

-- The transaction reads the row again under its lock: another call may have completed it.
def complete (call : Nat) (atMs : Int) (outcome : Outcome) : Option State :=
  match state.calls call with
  | .completing id target completed =>
    match state.commands id with
    | none => some (state.goTo call (.finished none))
    | some command =>
      let answered (answer : Bool) : Phase :=
        .finished (if outcome = .answered then some answer else none)
      if outcome = .failed then some (state.goTo call (.finished none))
      else if (state.progress id).completedAt.isSome then some (state.goTo call (answered true))
      else if !completed then
        some ({ state with
          progress := Function.update state.progress id
            ⟨(state.progress id).schedule.postpone state.now, none⟩ }.goTo call (answered false))
      else if (state.outbox id).isSome ∨ target.app = "" ∨ target.app = "*" then
        some (state.goTo call (.finished none))
      else
        let payload := { command.evidence with atMs := atMs }
        some ({ state with
          outbox := Function.update state.outbox id
            (some ⟨target.app, payload, ⟨0, state.now⟩, none⟩)
          written := ⟨id, target.app, payload⟩ :: state.written
          progress := Function.update state.progress id
            ⟨(state.progress id).schedule, some state.now⟩ }.goTo call (answered true))
  | _ => none

def setConnection (gatewayId connectionId : String) (info : Option ConnectionInfo) : State :=
  { state with
    connections := Function.update state.connections gatewayId
      (Function.update (state.connections gatewayId) connectionId info) }

-- Only the gateway a command's signal names acts on it. It may leave the connection to another
-- signal that is already closing it.
def kick (task : Nat) (signal : KickSignal) (closes : Bool) : Option State :=
  if signal ∈ state.signals ∧ state.tasks task = none then
    let closed :=
      if closes ∧ (state.connections signal.targetGateway signal.connectionId).any
          (kickMatches signal) then
        setConnection state signal.targetGateway signal.connectionId none
      else state
    some { closed with tasks := Function.update closed.tasks task (some signal) }
  else none

def confirm (task : Nat) (outcome : Outcome) : Option State :=
  match state.tasks task with
  | none => none
  | some signal =>
    let after := { state with tasks := Function.update state.tasks task none }
    if outcome.takesEffect ∧
        state.connections signal.targetGateway signal.connectionId = none then
      some { after with
        receipts := Function.update state.receipts signal.commandId (some signal.connectionId)
        confirmed := signal :: state.confirmed }
    else some after

-- The row stays locked until the transaction ends, which a crash after the publish rolls back.
def drainOne (eventId : Nat) (published : Outcome) (commits : Bool) : Option State :=
  match state.outbox eventId with
  | some row =>
    if row.deliveredAt = none ∧ row.schedule.nextAt ≤ state.now then
      some { state with
        audited := if published.takesEffect then ⟨eventId, row.appId, row.payload⟩ :: state.audited
          else state.audited
        outbox := Function.update state.outbox eventId
          (some (if commits then row.settle state.now published else row)) }
    else none
  | none => none

def cleanup (eventId : Nat) : Option State :=
  match state.outbox eventId with
  | some row =>
    if row.deliveredAt.any (· + 30 * 24 * 3600 * 1000 < state.now) then
      some { state with outbox := Function.update state.outbox eventId none }
    else none
  | none => none

def step (state : State) : Action → Option State
  | .tick => some { state with now := state.now + 1 }
  | .rewriteStore store => some { state with store := store }
  | .connect gatewayId connectionId info =>
    some (setConnection state gatewayId connectionId (some info))
  | .disconnect gatewayId connectionId => some (setConnection state gatewayId connectionId none)
  | .prepareCommand id command outcome => some (prepareCommand state id command outcome)
  | .readCommand call id outcome => readCommand state call id outcome
  | .publish call outcome => publish state call outcome
  | .poll call outcome => poll state call outcome
  | .giveUp call => giveUp state call
  | .remove call outcome => remove state call outcome
  | .complete call atMs outcome => complete state call atMs outcome
  | .kick task signal closes => kick state task signal closes
  | .confirm task outcome => confirm state task outcome
  | .expireReceipt id =>
    some { state with receipts := Function.update state.receipts id none }
  | .drainOne eventId published commits => drainOne state eventId published commits
  | .cleanup eventId => cleanup state eventId

end System

end FlareIm.KickCommands
