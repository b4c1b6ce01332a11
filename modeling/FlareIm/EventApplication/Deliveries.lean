import FlareIm.EventApplication
import FlareIm.Lib.RoundTrip
import FlareIm.Lib.Transition
import Mathlib.Logic.Function.Basic

namespace FlareIm.EventApplication

open Context Proto EventRow RoundTrip Transition

section Tables

structure Position where
  tenantId : String
  conversationId : String
  seq : Int
  deriving DecidableEq

-- The columns of a message that its retention goes by, with the status in its stored numbers.
structure BurnRow where
  burnEnabled : Bool
  burnStatus : Nat
  burnedAt : Option Int

def BURN_STATUS_INIT : Nat := 1
def BURN_STATUS_READ : Nat := 2
def BURN_STATUS_BURN_PENDING : Nat := 3
def BURN_STATUS_BURNED : Nat := 4
def BURN_STATUS_HARD_DELETED : Nat := 5

-- The updates change a row or none.
def scheduleMessageBurn (row : BurnRow) : Option BurnRow :=
  if row.burnEnabled ∧ row.burnStatus ∈ [BURN_STATUS_INIT, BURN_STATUS_READ] ∧
      row.burnedAt = none then
    some { row with burnStatus := BURN_STATUS_BURN_PENDING }
  else none

def markMessageBurned (burnedAt : Int) (row : BurnRow) : Option BurnRow :=
  if row.burnEnabled ∧ row.burnStatus = BURN_STATUS_BURN_PENDING then
    some { row with
      burnStatus := BURN_STATUS_BURNED
      burnedAt := some (row.burnedAt.getD burnedAt) }
  else none

def markMessageHardDeleted (row : BurnRow) : Option BurnRow :=
  if row.burnEnabled ∧ row.burnStatus ∈ [BURN_STATUS_BURNED, BURN_STATUS_BURN_PENDING] then
    some { row with burnStatus := BURN_STATUS_HARD_DELETED }
  else none

-- The operation events, each under a number of its own.
structure Setup where
  codec : Codec
  clock : Clock
  sharedStateOk : PluginStateEvent → Bool
  event : Nat → EventRow.Event

structure State where
  rows : Position → Existing
  burns : String → String → Option BurnRow
  -- the events whose delivery returned Ok
  acked : List Nat

def emptyState : State where
  rows _ := none
  burns _ _ := none
  acked := []

end Tables

section Deliveries

-- How the round trips of one delivery end, and what another writer stores at the position of the
-- event between its check and its insert.
structure Answers where
  checked : Bool
  updated : Outcome
  recorded : Bool
  raced : Existing
  inserted : Outcome

inductive Action where
  | deliver (index : Nat) (answers : Answers)
  | storeRow (position : Position) (stored : TypeNumber × List UInt8)
  | setBurn (tenantId messageId : String) (row : Option BurnRow)

variable (setup : Setup) (state : State) (index : Nat) (answers : Answers)

def rowPosition (row : EventStreamInsertRow) : Position :=
  ⟨row.tenantId, row.conversationId, row.seq⟩

def Setup.position : Position :=
  ⟨(setup.event index).tenantId, (setup.event index).conversationId,
    EventRow.asI64 (setup.event index).seq⟩

-- The message a retention event is about.
def burnedMessage : EventPayload → String
  | .burnScheduled burn => burn.messageId
  | .burned burned => burned.messageId
  | .hardDeleted deleted => deleted.messageId
  | _ => ""

-- The row of the event's message after the update, or nothing when it changes none.
def burnUpdate : EventPayload → Option BurnRow
  | .burnScheduled burn =>
    (state.burns (setup.event index).tenantId burn.messageId).bind scheduleMessageBurn
  | .burned burned =>
    (state.burns (setup.event index).tenantId burned.messageId).bind
      (markMessageBurned burned.burnedAt)
  | .hardDeleted deleted =>
    (state.burns (setup.event index).tenantId deleted.messageId).bind markMessageHardDeleted
  | _ => none

def isBurn : EventPayload → Bool
  | .burnScheduled _ | .burned _ | .hardDeleted _ => true
  | _ => false

def failure : FlareError := ⟨.databaseError, "Database operation failed"⟩

-- The answers of the tables to one delivery.
def writerAt : Writer where
  clock := setup.clock
  archive := some {
    update := fun payload =>
      if answers.updated = .answered then
        .ok (!isBurn payload || (burnUpdate setup state index payload).isSome)
      else .error failure
    appendEvent := fun _ => if answers.recorded then .ok () else .error failure
    sharedStateOk := setup.sharedStateOk }
  stream := some {
    loadExisting := fun row =>
      if answers.checked then .ok (state.rows (rowPosition row)) else .error failure
    insert := fun row =>
      if answers.inserted = .answered then
        .ok ((state.rows (rowPosition row)).orElse fun _ => answers.raced)
      else .error failure }

-- The update of a retention event is reached when nothing stands at its position.
def burnsAfter : String → String → Option BurnRow :=
  let event := setup.event index
  let id := (event.payload.map burnedMessage).getD ""
  match event.payload.bind (burnUpdate setup state index) with
  | some row =>
    if event.tenantId ≠ "" ∧ answers.checked ∧ (state.rows (setup.position index)).isNone ∧
        answers.updated.takesEffect then
      Function.update state.burns event.tenantId
        (Function.update (state.burns event.tenantId) id (some row))
    else state.burns
  | none => state.burns

def putRow (rows : Position → Existing) (position : Position) (stored : Existing) :
    Position → Existing :=
  if (rows position).isSome then rows else Function.update rows position stored

-- The insert is reached when the delivery would append its row were the insert answered.
def rowsAfter : Position → Existing :=
  let raced := putRow state.rows (setup.position index) answers.raced
  match processEvent setup.codec (writerAt setup state index { answers with inserted := .answered })
      (setup.event index) with
  | .ok (some row) =>
    if answers.inserted.takesEffect then
      putRow raced (rowPosition row) (some (row.eventType, row.payload))
    else raced
  | _ => raced

-- One call of `process_event`.
def deliver : State :=
  { rows := rowsAfter setup state index answers
    burns := burnsAfter setup state index answers
    acked :=
      match processEvent setup.codec (writerAt setup state index answers) (setup.event index) with
      | .ok _ => index :: state.acked
      | .error _ => state.acked }

def step (state : State) : Action → Option State
  | .deliver index answers => some (deliver setup state index answers)
  | .storeRow position stored => some { state with rows := putRow state.rows position (some stored) }
  | .setBurn tenantId messageId row =>
    some { state with
      burns := Function.update state.burns tenantId
        (Function.update (state.burns tenantId) messageId row) }

end Deliveries

section Replay

structure EventReplayGap where
  expectedSeq : Nat
  observedSeq : Nat

def detectGapFrom (afterSeq : Nat) : Nat → List Nat → Option EventReplayGap
  | _, [] => none
  | expectedSeq, observedSeq :: rest =>
    if observedSeq ≤ afterSeq ∨ observedSeq < expectedSeq then
      detectGapFrom afterSeq expectedSeq rest
    else if expectedSeq < observedSeq then some ⟨expectedSeq, observedSeq⟩
    else detectGapFrom afterSeq (expectedSeq + 1) rest

-- `detect_event_replay_gap`, on the numbers of the events.
def detectEventReplayGap (afterSeq : Nat) (events : List Nat) : Option EventReplayGap :=
  detectGapFrom afterSeq (afterSeq + 1) events

-- The numbers after one and up to another that are stored of a conversation.
def storedSeqs (state : State) (tenantId conversationId : String) (afterSeq lastSeq : Nat) :
    List Nat :=
  (List.range' (afterSeq + 1) (lastSeq - afterSeq)).filter fun seq =>
    (state.rows ⟨tenantId, conversationId, seq⟩).isSome

end Replay

end FlareIm.EventApplication
