import FlareIm.Context
import FlareIm.Lib.ScoredSet
import FlareIm.Lib.Transition
import FlareIm.Lib.Wire
import FlareIm.MessageProfile
import Mathlib.Data.String.Basic

namespace FlareIm.WalReplay

open Text Context Proto MessageProfile

-- An entry of the WAL, under the server id of its message.
structure WalEntrySnapshot where
  writeProof : Option String
  messageId : String
  tenantId : String
  encoded : List UInt8
  persisted : Bool
  deriving DecidableEq

structure WalPendingMessage where
  writeProof : Option String
  messageId : String
  tenantId : String
  message : Message

-- What `ingest_send_inner` has made of a send when it turns to the WAL, and the proof of its
-- write, if the context has one.
structure Submission where
  message : Message
  tenantId : String
  proof : Option String := none

def Submission.messageId (submission : Submission) : String := submission.message.serverId

-- What the services are built with. Without a verifier nothing is recovered.
structure Ingest where
  codec : Wire.Format Message
  recover : String → String → Message → Bool := fun _ _ _ => false
  defaultTenantId : Option String := none
  walReplayClaimLeaseMs : Nat := 0

def requiresProof (message : Message) : Bool :=
  match message.content.bind (·.content) with
  | some (.system eventKind) => "platform.".toList.isPrefixOf eventKind.toList
  | _ => false

section Entry

variable (ingest : Ingest)

def replayClaimLeaseMs : Nat := max ingest.walReplayClaimLeaseMs 1000

def snapshotOf (submission : Submission) : WalEntrySnapshot where
  writeProof := submission.proof
  messageId := submission.messageId
  tenantId := submission.tenantId
  encoded := ingest.codec.encode submission.message
  persisted := false

inductive ReplayDecision where
  | skip
  | quarantine
  | refuse
  | publish

def withServerId (pending : WalPendingMessage) : Message :=
  if isBlank pending.message.serverId then
    { pending.message with serverId := pending.messageId }
  else pending.message

-- What `replay_once` does with an entry it has read.
def replayDecision (pending : WalPendingMessage) : ReplayDecision :=
  let message := withServerId pending
  if (replayPersistenceMode message).shouldPushOnly (isTemporary message) then .skip
  else
    match (normalizeOptionalTenantId (some pending.tenantId)).or
      (normalizeOptionalTenantId ingest.defaultTenantId) with
    | none => .quarantine
    | some tenantId =>
      if requiresProof message ∨ pending.writeProof.isSome then
        if pending.writeProof.any fun proof => ingest.recover proof tenantId message then .publish
        else .refuse
      else .publish

end Entry

-- How far a send is.
inductive Phase where
  | waiting
  | written
  | published
  | returned (durability : SendAckDurability)
  | failed
  deriving DecidableEq

-- How far a worker is with the entries it has claimed.
inductive WorkerPhase where
  | idle
  | claimed (ids : List String)
  | listing (rest : List (String × Option WalEntrySnapshot)) (listed : List WalPendingMessage)
  | replaying (rest : List WalPendingMessage)
  | removing (replayed : WalPendingMessage) (rest : List WalPendingMessage)

structure Worker where
  phase : WorkerPhase := .idle
  leaseUntil : Nat := 0

-- The hash and the index of the WAL, the clock, the sends and the workers. `written` lists the
-- sends whose append was executed, `published` the messages that the broker took and `acked`
-- those of them whose publish returned Ok.
structure State where
  now : Nat := 0
  wal : String → Option WalEntrySnapshot := fun _ => none
  pending : ScoredSet String := ⟨[], ScoredSet.nodup_nil⟩
  phase : Nat → Phase := fun _ => .waiting
  worker : Nat → Worker := fun _ => {}
  written : List Nat := []
  published : List String := []
  acked : List String := []

-- The answer to a statement: it returned, it failed, or its task was cancelled while it waited.
inductive Reply where
  | ok
  | error
  | cancelled

-- The steps of the sends, of the workers and of Redis. `executed` tells whether a statement took
-- effect, whatever became of its answer. `consumed` is the cleanup by the storage writer.
inductive Action where
  | append (call : Nat) (executed : Bool) (reply : Reply)
  | publish (call : Nat) (executed : Bool) (reply : Reply)
  | finish (call : Nat)
  | cleanup (call : Nat) (executed : Bool)
  | claim (worker limit : Nat) (executed : Bool) (reply : Reply)
  | read (worker : Nat) (reply : Reply)
  | list (worker : Nat) (executed : Bool) (reply : Reply)
  | replay (worker : Nat) (executed : Bool) (reply : Reply)
  | remove (worker : Nat) (executed : Bool) (reply : Reply)
  | quit (worker : Nat)
  | consumed (id : String)
  | tick
  | expireWal
  | expirePending

def State.goTo (state : State) (call : Nat) (phase : Phase) : State :=
  { state with phase := Function.update state.phase call phase }

def State.setWorker (state : State) (worker : Nat) (phase : WorkerPhase) : State :=
  { state with
    worker := Function.update state.worker worker { state.worker worker with phase } }

-- HDEL and ZREM, in one transaction.
def State.removeEntry (state : State) (id : String) : State :=
  { state with wal := Function.update state.wal id none, pending := state.pending.remove id }

-- HSET and ZADD, in one transaction.
def State.appendEntry (ingest : Ingest) (state : State) (call : Nat) (submission : Submission) :
    State :=
  { state with
    wal := Function.update state.wal submission.messageId (some (snapshotOf ingest submission))
    pending := state.pending.add submission.messageId state.now
    written := call :: state.written }

-- The script of a claim: an index entry without its message is dropped, the others are leased.
def claimPending (wal : String → Option WalEntrySnapshot) (leaseUntil : Nat) :
    List String → ScoredSet String → ScoredSet String × List String
  | [], pending => (pending, [])
  | id :: rest, pending =>
    if (wal id).isSome then
      let claimed := claimPending wal leaseUntil rest (pending.add id leaseUntil)
      (claimed.1, id :: claimed.2)
    else claimPending wal leaseUntil rest (pending.remove id)

section Step

variable (ingest : Ingest) (sends : Nat → Submission)

def appendStep (state : State) (call : Nat) (executed : Bool) (reply : Reply) : Option State :=
  let submission := sends call
  if requiresProof submission.message ∧ submission.proof = none then
    some (state.goTo call .failed)
  else
    let after := if executed then state.appendEntry ingest call submission else state
    match reply with
    | .ok => if executed then some (after.goTo call .written) else none
    | _ => some (after.goTo call .failed)

def publishStep (state : State) (call : Nat) (executed : Bool) (reply : Reply) : Option State :=
  let submission := sends call
  let after :=
    if executed then { state with published := submission.messageId :: state.published }
    else state
  match reply with
  | .ok =>
    if executed then
      some ({ after with acked := submission.messageId :: state.acked }.goTo call .published)
    else none
  | .error =>
    some (after.goTo call
      (if durability submission.message = .transientAccepted then .failed
        else .returned .walAccepted))
  | .cancelled => some (after.goTo call .failed)

def claimStep (state : State) (worker limit : Nat) (executed : Bool) (reply : Reply) :
    Option State :=
  let leaseUntil := state.now + replayClaimLeaseMs ingest
  let claimed := claimPending state.wal leaseUntil (state.pending.due state.now limit)
    state.pending
  let after := if executed then { state with pending := claimed.1 } else state
  match reply with
  | .ok =>
    if executed then
      some { after with
        worker := Function.update state.worker worker ⟨.claimed claimed.2, leaseUntil⟩ }
    else none
  | _ => some (after.setWorker worker .idle)

-- One round of the loop of `list_pending`.
def listStep (state : State) (worker : Nat) (id : String)
    (entry : Option WalEntrySnapshot) (rest : List (String × Option WalEntrySnapshot))
    (listed : List WalPendingMessage) (executed : Bool) (reply : Reply) : Option State :=
  match entry with
  | none =>
    let after := if executed then { state with pending := state.pending.remove id } else state
    match reply with
    | .ok => if executed then some (after.setWorker worker (.listing rest listed)) else none
    | _ => some (after.setWorker worker .idle)
  | some entry =>
    if entry.persisted then
      let after := if executed then state.removeEntry id else state
      match reply with
      | .ok => if executed then some (after.setWorker worker (.listing rest listed)) else none
      | _ => some (after.setWorker worker .idle)
    else
      match ingest.codec.decode entry.encoded with
      | none => some (state.setWorker worker (.listing rest listed))
      | some message =>
        some (state.setWorker worker (.listing rest
          (listed ++ [⟨entry.writeProof, id, entry.tenantId, message⟩])))

-- One round of the loop of `replay_once`, up to the answer of the broker.
def replayStep (state : State) (worker : Nat) (pending : WalPendingMessage)
    (rest : List WalPendingMessage) (executed : Bool) (reply : Reply) : Option State :=
  match replayDecision ingest pending with
  | .skip =>
    let after := if executed then state.removeEntry pending.messageId else state
    match reply with
    | .ok => if executed then some (after.setWorker worker (.replaying rest)) else none
    | _ => some (after.setWorker worker .idle)
  | .quarantine | .refuse => some (state.setWorker worker (.replaying rest))
  | .publish =>
    let after :=
      if executed then { state with published := pending.messageId :: state.published }
      else state
    match reply with
    | .ok =>
      if executed then
        some ({ after with acked := pending.messageId :: state.acked }.setWorker worker
          (.removing pending rest))
      else none
    | .error => some (after.setWorker worker (.replaying rest))
    | .cancelled => some (after.setWorker worker .idle)

def step (state : State) : Action → Option State
  | .append call executed reply =>
    let message := (sends call).message
    match state.phase call with
    | .waiting =>
      if shouldWriteWal message (sendPersistenceMode message) then
        appendStep ingest sends state call executed reply
      else none
    | _ => none
  | .publish call executed reply =>
    let message := (sends call).message
    match state.phase call with
    | .waiting =>
      if shouldWriteWal message (sendPersistenceMode message) then none
      else publishStep sends state call executed reply
    | .written => publishStep sends state call executed reply
    | _ => none
  | .finish call =>
    match state.phase call with
    | .published => some (state.goTo call (.returned (durability (sends call).message)))
    | _ => none
  -- by the send itself, or by a task it started, once a publish returned Ok
  | .cleanup call executed =>
    if (sends call).messageId ∈ state.acked ∧
      durability (sends call).message ≠ .transientAccepted then
      some (if executed then state.removeEntry (sends call).messageId else state)
    else none
  | .claim worker limit executed reply =>
    match (state.worker worker).phase with
    | .idle => if limit = 0 then some state else claimStep ingest state worker limit executed reply
    | _ => none
  | .read worker reply =>
    match (state.worker worker).phase, reply with
    | .claimed ids, .ok =>
      some (state.setWorker worker (.listing (ids.map fun id => (id, state.wal id)) []))
    | .claimed _, _ => some (state.setWorker worker .idle)
    | _, _ => none
  | .list worker executed reply =>
    match (state.worker worker).phase with
    | .listing [] listed => some (state.setWorker worker (.replaying listed))
    | .listing ((id, entry) :: rest) listed =>
      listStep ingest state worker id entry rest listed executed reply
    | _ => none
  | .replay worker executed reply =>
    match (state.worker worker).phase with
    | .replaying [] => some (state.setWorker worker .idle)
    | .replaying (pending :: rest) =>
      replayStep ingest state worker pending rest executed reply
    | _ => none
  | .remove worker executed reply =>
    match (state.worker worker).phase with
    | .removing replayed rest =>
      let after := if executed then state.removeEntry replayed.messageId else state
      match reply with
      | .ok => if executed then some (after.setWorker worker (.replaying rest)) else none
      | _ => some (after.setWorker worker .idle)
    | _ => none
  | .quit worker => some (state.setWorker worker .idle)
  | .consumed id =>
    if id ∈ state.published then some (state.removeEntry id) else none
  | .tick => some { state with now := state.now + 1 }
  | .expireWal => some { state with wal := fun _ => none }
  | .expirePending => some { state with pending := {} }

end Step

end FlareIm.WalReplay
