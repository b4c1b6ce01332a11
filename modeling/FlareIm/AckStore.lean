import FlareIm.Lib.Framed
import FlareIm.MessagePersistence

namespace FlareIm.AckStore

open Context
open MessagePersistence (isValidTenantId)

section Acks

inductive AckType where
  | transportAck
  | serverAck
  | deliveryAck
  | storageAck
  deriving DecidableEq

inductive AckStatus where
  | pending
  | received
  | processed
  | failed
  deriving DecidableEq

inductive ImportanceLevel where
  | low
  | medium
  | high
  deriving DecidableEq

structure AckStatusInfo where
  tenantId : String
  messageId : String
  userId : String
  ackType : Option AckType := none
  status : AckStatus
  timestamp : Nat
  importance : ImportanceLevel
  deriving DecidableEq

-- What an ack is kept under.
structure AckTriple where
  tenantId : String
  messageId : String
  userId : String
  deriving DecidableEq

def AckStatusInfo.triple (ack : AckStatusInfo) : AckTriple where
  tenantId := ack.tenantId
  messageId := ack.messageId
  userId := ack.userId

end Acks

section Keys

inductive RedisError where
  | typeError (message : String)

def AckTriple.valid (triple : AckTriple) : Prop :=
  isValidTenantId triple.tenantId = true ∧ normalizeTenantId triple.tenantId = triple.tenantId

instance (triple : AckTriple) : Decidable triple.valid := inferInstanceAs (Decidable (_ ∧ _))

def validateTenant (triple : AckTriple) : Except RedisError Unit :=
  if triple.valid then .ok () else .error (.typeError "canonical ACK tenant required")

-- The length is that of the message id in bytes.
def formatCacheKey (triple : AckTriple) : String :=
  triple.tenantId ++ ":" ++ toString triple.messageId.utf8ByteSize ++ ":" ++ triple.messageId ++
    ":" ++ triple.userId

def redisKey (triple : AckTriple) : String :=
  "ack:v2:" ++ triple.tenantId ++ ":" ++ toString triple.messageId.utf8ByteSize ++ ":" ++
    triple.messageId ++ ":" ++ triple.userId

def formatKey (triple : AckTriple) : Except RedisError String :=
  (validateTenant triple).map fun _ => redisKey triple

end Keys

section Batches

-- A value of Redis with the time it is kept for, in seconds.
structure Stored where
  ack : AckStatusInfo
  ttl : Nat

structure AckServiceConfig where
  redisTtl : Nat
  batchSize : Nat

variable (config : AckServiceConfig)

def AckServiceConfig.ttl : ImportanceLevel → Nat
  | .low => config.redisTtl / 4
  | .medium => config.redisTtl / 2
  | .high => config.redisTtl

-- The commands of the pipeline, none when a key cannot be made.
def batchStoreCommands (acks : List AckStatusInfo) :
    Except RedisError (List (String × Stored)) :=
  Fallible.traverse (fun ack =>
    (formatKey ack.triple).map fun key => (key, ⟨ack, config.ttl ack.importance⟩)) acks

-- The commands that took effect. Redis refuses a command without a time to keep the value.
def effective : List (String × Stored) → List Bool → List (String × Stored)
  | command :: rest, took :: others =>
    if took ∧ 0 < command.2.ttl then command :: effective rest others
    else effective rest others
  | _, _ => []

def setAll (redis : String → Option Stored) (commands : List (String × Stored)) :
    String → Option Stored :=
  commands.foldl (fun redis command => Function.update redis command.1 (some command.2)) redis

end Batches

section Service

structure CachedAckInfo where
  ackInfo : AckStatusInfo
  cachedAt : Nat

inductive Processor where
  | batch
  | highPriority
  deriving DecidableEq

-- A queue, and the acks its processor has taken out and not stored so far.
structure Lane where
  queue : List AckStatusInfo := []
  storing : List AckStatusInfo := []

-- What became of a deletion: it was answered, or failed with or without an effect.
inductive Deletion where
  | done
  | failed (executed : Bool)

-- The calls that counted.
inductive Event where
  | recorded (ack : AckStatusInfo)
  | deleted (triple : AckTriple)
  | deletionFailed (triple : AckTriple)

-- `log` and `written` hold, latest first, the calls so far and the acks that came to Redis.
structure State where
  lanes : Processor → Lane := fun _ => {}
  redis : String → Option Stored := fun _ => none
  cache : String → Option CachedAckInfo := fun _ => none
  log : List Event := []
  written : List AckStatusInfo := []

-- The calls, and what the processors do between two awaits. `took` tells which commands of the
-- pipeline Redis executed, whatever answer came back.
inductive Action where
  | recordAck (ack : AckStatusInfo) (now : Nat)
  | deleteAck (triple : AckTriple) (deletion : Deletion)
  | drain (processor : Processor)
  | store (processor : Processor) (took : List Bool)

def State.setLane (state : State) (processor : Processor) (lane : Lane) : State :=
  { state with lanes := Function.update state.lanes processor lane }

def enqueue (state : State) (processor : Processor) (ack : AckStatusInfo) : State :=
  let lane := state.lanes processor
  { state.setLane processor { lane with queue := lane.queue ++ [ack] } with
    log := .recorded ack :: state.log }

-- An ack of low importance stays in the cache only.
def recordAckInternal (state : State) (ack : AckStatusInfo) (now : Nat) : State :=
  match validateTenant ack.triple with
  | .error _ => state
  | .ok _ =>
    let queued := match ack.importance with
      | .high => enqueue state .highPriority ack
      | .medium => enqueue state .batch ack
      | .low => state
    { queued with
      cache := Function.update queued.cache (formatCacheKey ack.triple) (some ⟨ack, now⟩) }

def deleteAck (state : State) (triple : AckTriple) (deletion : Deletion) : State :=
  match validateTenant triple with
  | .error _ => state
  | .ok _ =>
    let uncached :=
      { state with cache := Function.update state.cache (formatCacheKey triple) none }
    let deleted := { uncached with redis := Function.update state.redis (redisKey triple) none }
    match deletion with
    | .done => { deleted with log := .deleted triple :: state.log }
    | .failed executed =>
      { (if executed then deleted else uncached) with
        log := .deletionFailed triple :: state.log }

variable (config : AckServiceConfig)

def drain (state : State) (processor : Processor) : Option State :=
  let lane := state.lanes processor
  if lane.queue = [] ∨ lane.storing ≠ [] then none
  else
    let count := min config.batchSize lane.queue.length
    some (state.setLane processor ⟨lane.queue.drop count, lane.queue.take count⟩)

-- A batch that is not stored is only logged.
def store (state : State) (processor : Processor) (took : List Bool) : Option State :=
  let lane := state.lanes processor
  if lane.storing = [] then none
  else
    let commands := match batchStoreCommands config lane.storing with
      | .ok commands => effective commands took
      | .error _ => []
    some { state.setLane processor { lane with storing := [] } with
      redis := setAll state.redis commands
      written := (commands.map fun command => command.2.ack).reverse ++ state.written }

def step (state : State) : Action → Option State
  | .recordAck ack now => some (recordAckInternal state ack now)
  | .deleteAck triple deletion => some (deleteAck state triple deletion)
  | .drain processor => drain config state processor
  | .store processor took => store config state processor took

end Service

end FlareIm.AckStore
