import FlareIm.IdempotencySlot
import FlareIm.OperationPolicy
import FlareIm.SequenceFloor

namespace FlareIm.MessageIngest

open Text Context Proto Fallible MessageProfile IdempotencySlot
open OperationPolicy (FlareError messageClaimsPluginCard)
open SequenceFloor (allocateSeq allocateSeqWithFloor)

-- A call of `handle_send_message`: the command and what its context was verified to say. The
-- fingerprint is the signed digest of a card post, a hexadecimal text behind a fixed word.
structure Request where
  tenantId : Option String := some "0"
  deviceId : Option String := none
  fingerprint : Option String := none
  message : Message
  burnEnabled : Bool := false
  burnAfterReadSeconds : Option Int := none
  fingerprint_plain : ∀ digest, fingerprint = some digest → '|' ∉ digest.toList := by decide

theorem no_fingerprint_plain :
    ∀ digest, (none : Option String) = some digest → '|' ∉ digest.toList := by decide

theorem s1_ne : "s1" ≠ "" := by decide

theorem s2_ne : "s2" ≠ "" := by decide

theorem s1_plain : '|' ∉ "s1".toList := by decide

theorem s2_plain : '|' ∉ "s2".toList := by decide

section Key

def cardPostIdempotencyKey (tenantId : String) (message : Message) : Option String :=
  let clientMsgId := trim message.clientMsgId
  if clientMsgId = "" then none
  else some ("idem-pcard:" ++ tenantId ++ ":" ++ trim message.senderId ++ ":" ++
    trim message.conversationId ++ ":" ++ clientMsgId)

def idempotencyKey (tenantId : String) (deviceId : Option String) (message : Message) :
    Option String :=
  let clientMsgId := trim message.clientMsgId
  if clientMsgId = "" then none
  else
    let conversationId := trim message.conversationId
    let senderId := trim message.senderId
    match (deviceId.map trim).filter (· ≠ "") with
    | some deviceId =>
      some ("idem:" ++ tenantId ++ ":" ++ senderId ++ ":device:" ++ deviceId ++ ":" ++
        conversationId ++ ":" ++ clientMsgId)
    | none =>
      some ("idem:" ++ tenantId ++ ":" ++ senderId ++ ":" ++ conversationId ++ ":" ++
        clientMsgId)

-- A missing tenant refuses the send: it never counts as the default tenant.
def Request.tenant (request : Request) : Option String :=
  request.tenantId.filter fun tenantId => !isBlank tenantId

def Request.key (request : Request) : Option String :=
  request.tenant.bind fun tenantId =>
    match request.fingerprint with
    | some _ => cardPostIdempotencyKey tenantId request.message
    | none => idempotencyKey tenantId (request.deviceId.filter (· ≠ "")) request.message

def Request.digest (request : Request) : String := request.fingerprint.getD ""

theorem Request.digest_plain (request : Request) : '|' ∉ request.digest.toList := by
  cases hdi : request.fingerprint with
  | none => simp [Request.digest, hdi]
  | some digest =>
    simpa [Request.digest, hdi] using request.fingerprint_plain digest hdi

end Key

section Submission

-- A send that burns is kept until some time after it was read. The command wins over the message.
def burn (request : Request) : Except FlareError Message :=
  let message := request.message
  if request.burnEnabled ∨ message.retentionPolicy.isSome then
    match ((request.burnAfterReadSeconds.or
      (message.retentionPolicy.bind (·.expireAfterSeconds))).filter fun seconds => 0 < seconds) with
    | none =>
      .error ⟨.invalidParameter,
        "burn_after_read_seconds must be positive when burn is enabled", ""⟩
    | some seconds =>
      .ok { message with
        retentionPolicy := some { noRetention := false, expireAfterSeconds := some seconds } }
  else .ok message

-- The draft a PreSend hook gives back. Whatever it holds, sender and client id are not in it.
structure Draft where
  content : Option MessageContent
  conversationId : Option String
  messageId : Option String
  attributes : List (String × String)
  messageType : Int

def applyDraftToRequest (message : Message) (draft : Draft) : Message :=
  { message with
    content := draft.content
    conversationId := draft.conversationId.getD message.conversationId
    serverId := draft.messageId.getD message.serverId
    attributes := draft.attributes
    messageType := draft.messageType }

def afterPreSend (hooked : Message) (cardPost : Option Message) (conversationId : String) :
    Except FlareError Message :=
  match cardPost with
  | some signed => .ok signed
  | none =>
    if hooked.conversationId ≠ conversationId then
      .error ⟨.permissionDenied,
        "a pre-send hook may not move a message to another conversation", ""⟩
    else if messageClaimsPluginCard hooked then
      .error ⟨.permissionDenied, "PLUGIN_CARD_PLATFORM_ONLY",
        "a pre-send hook may not turn a message into a plugin card"⟩
    else .ok hooked

def MESSAGE_TENANT_ATTRIBUTES : List String := ["tenant_id", "x-tenant-id"]

def ensureTenantAttributesMatch (message : Message) (tenantId : String) : Except FlareError Unit :=
  refuseIf (∃ key ∈ MESSAGE_TENANT_ATTRIBUTES,
      (message.attributes.lookup key).any (· ≠ tenantId))
    ⟨.permissionDenied, "message attributes declare another tenant", ""⟩

def SERVER_OWNED_ATTRIBUTES : List String :=
  ["pluginSharedStateJson", "pluginSharedStateVersion", "pluginSharedEntity", "pluginCardUnbound"]

def withoutServerOwned {Value : Type} (entries : List (String × Value)) : List (String × Value) :=
  entries.filter fun entry => entry.1 ∉ SERVER_OWNED_ATTRIBUTES

-- What a server gives a message: a new id, its own time and the number of the message's type.
-- The id is a uuid.
structure Stamp where
  serverId : String
  now : Int := 0
  messageType : Int := 0
  server_id_ne : serverId ≠ "" := by decide
  server_id_plain : '|' ∉ serverId.toList := by decide

-- Preparing a submission. Its number is still to be allocated, a hint of the client is dropped.
def prepare (message : Message) (stamp : Stamp) : Except FlareError Message :=
  if message.conversationId = "" then
    .error ⟨.invalidParameter, "Failed to prepare message", "conversation_id is required"⟩
  else if message.senderId = "" then
    .error ⟨.invalidParameter, "Failed to prepare message", "sender_id is required"⟩
  else
    let extensions :=
      if message.serverId = "" then message.extensions
      else ("original_server_id", message.serverId.toUTF8.toList) ::
        message.extensions.filter fun entry => entry.1 ≠ "original_server_id"
    .ok { message with
      serverId := stamp.serverId
      clientMsgId := if message.clientMsgId = "" then stamp.serverId else message.clientMsgId
      status := if message.status = .other 0 then .other 1 else message.status
      attributes := withoutServerOwned message.attributes
      extensions := withoutServerOwned extensions
      conversationSeq := 0
      messageType := stamp.messageType
      createdAt := stamp.now }

-- The submission of a call, up to its number. A hook that does not run changes nothing.
def submission (request : Request) (tenantId : String) (draft : Option Draft) (stamp : Stamp) :
    Except FlareError Message :=
  burn request >>= fun message =>
    afterPreSend ((draft.map (applyDraftToRequest message)).getD message)
        (request.fingerprint.map fun _ => message) message.conversationId >>= fun hooked =>
      ensureTenantAttributesMatch hooked tenantId >>= fun _ => prepare hooked stamp

end Submission

structure SendMessageOutcome where
  messageId : String
  conversationSeq : Nat
  durability : SendAckDurability
  deriving DecidableEq

def recordOf (outcome : SendMessageOutcome) (fingerprint : String) : IdempotentRecord where
  serverId := outcome.messageId
  conversationSeq := outcome.conversationSeq
  durability := outcome.durability
  fingerprint := fingerprint

def outcomeOf (record : IdempotentRecord) : SendMessageOutcome where
  messageId := record.serverId
  conversationSeq := record.conversationSeq
  durability := record.durability

def acceptedOutcome (message : Message) : SendMessageOutcome where
  messageId := message.serverId
  conversationSeq := message.conversationSeq
  durability := durability message

def recoverablePublishFailureOutcome (message : Message) : Option SendMessageOutcome :=
  if durability message = .transientAccepted then none
  else some { acceptedOutcome message with durability := .walAccepted }

-- A row of the send idempotency ledger, as the lookup reads it. The server id of a row was issued
-- by some ingest.
structure LedgerRecord where
  conversationId : String
  serverId : String
  conversationSeq : Nat
  durability : SendAckDurability
  server_id_ne : serverId ≠ "" := by decide
  server_id_plain : '|' ∉ serverId.toList := by decide
  seq_lt : conversationSeq < 2 ^ 64 := by decide
  deriving DecidableEq

-- What the lookup makes of the row. A row of another conversation is a client id used twice.
def replayFromLedger (message : Message) :
    Except FlareError (Option LedgerRecord) → Except FlareError (Option SendMessageOutcome)
  | .ok none => .ok none
  | .ok (some record) =>
    if record.conversationId = message.conversationId then
      .ok (some ⟨record.serverId, record.conversationSeq, record.durability⟩)
    else .ok none
  | .error _ =>
    .error ⟨.serviceUnavailable, "idempotency ledger unavailable; retry shortly", ""⟩

-- The guard of a reservation while it is not settled.
inductive ReservationState where
  | reserved
  | accepted (record : IdempotentRecord)
  deriving DecidableEq

-- How far a call is. An abandoned call was dropped, and its guard has started the cleanup.
inductive Phase where
  | waiting
  | reserved
  | admitted
  | allocated (message : Message)
  | walWritten (message : Message)
  | published (message : Message)
  | settling (result : Except FlareError SendMessageOutcome)
  | dropped (guard : ReservationState)
  | answered (result : Except FlareError SendMessageOutcome)
  | abandoned (guard : ReservationState)
  deriving DecidableEq

-- A key of Redis, with the call that set it.
structure Slot where
  owner : Nat
  text : String

-- The messages that were written to the WAL and those that the broker took, each with the call it
-- is from. `submissions` holds what each call prepared.
structure State where
  slots : String → Option Slot := fun _ => none
  counters : String × String → Nat := fun _ => 0
  phase : Nat → Phase := fun _ => .waiting
  submissions : Nat → Option Message := fun _ => none
  written : List (Nat × Message) := []
  published : List (Nat × Message) := []

-- The answer to a statement: it returned, it failed, or the call was cancelled while it waited.
inductive Reply where
  | ok
  | error (error : FlareError)
  | cancelled

-- The steps of the calls between two awaits, of the cleanups, of the replay of the WAL and of
-- Redis. `executed` tells whether a statement took effect, whatever became of its answer.
inductive Action where
  | refuse (call : Nat) (unreadable : Bool)
  | begin_ (call : Nat) (executed : Bool) (reply : Reply)
  | lookup (call : Nat) (found : Except FlareError (Option LedgerRecord))
  | limit (call : Nat) (error : FlareError)
  | fail (call : Nat) (error : FlareError)
  | allocate (call : Nat) (draft : Option Draft) (stamp : Stamp) (floor : Option Nat)
  | writeWal (call : Nat) (executed : Bool) (reply : Reply)
  | publish (call : Nat) (executed : Bool) (reply : Reply)
  | finish (call : Nat)
  | settle (call : Nat) (executed : Bool) (reply : Reply)
  | cancel (call : Nat)
  | cleanup (call : Nat) (executed : Bool)
  | replay (call : Nat) (message : Message)
  | expire (key : String)
  | loseCounter (tenantId conversationId : String)

def State.goTo (state : State) (call : Nat) (phase : Phase) : State :=
  { state with phase := Function.update state.phase call phase }

def State.setSlot (state : State) (key : Option String) (slot : Option Slot) : State :=
  match key with
  | none => state
  | some key => { state with slots := Function.update state.slots key slot }

-- What becomes of a reservation that is dropped in the phase.
def Phase.guard (digest : String) : Phase → Option ReservationState
  | .reserved | .admitted | .allocated _ => some .reserved
  | .walWritten message =>
    some (((recoverablePublishFailureOutcome message).map fun outcome =>
      ReservationState.accepted (recordOf outcome digest)).getD .reserved)
  | .published message => some (.accepted (recordOf (acceptedOutcome message) digest))
  | .settling (.ok outcome) => some (.accepted (recordOf outcome digest))
  | .settling (.error _) => some .reserved
  | _ => none

section Step

variable (numbering : Numbering)

-- The statement a guard settles its slot with: a record is committed, a bare reservation deleted.
def settleSlot (call : Nat) : ReservationState → Option Slot
  | .reserved => none
  | .accepted record => some ⟨call, encode numbering record⟩

-- The refusal of a tenant that is not let in, or whose standing cannot be read.
def tenantGate (unreadable : Bool) : FlareError :=
  if unreadable then ⟨.serviceUnavailable, "tenant runtime projection unavailable", ""⟩
  else ⟨.permissionDenied, "TENANT_UNAVAILABLE", ""⟩

-- What a call that found its key taken is answered.
def replayed (digest : String) : IdempotencyBegin → Except FlareError SendMessageOutcome
  | .replay record =>
    if record.fingerprint ≠ digest then
      .error ⟨.permissionDenied, "client message id already used by another send", ""⟩
    else .ok (outcomeOf record)
  | _ => .error ⟨.serviceUnavailable, "duplicate send in progress; retry shortly", ""⟩

-- `requests` gives the command of each call.
variable (requests : Nat → Request)

def beginStep (state : State) (call : Nat) (executed : Bool) (reply : Reply) : Option State :=
  let request := requests call
  match request.key, reply with
  | none, _ => some (state.goTo call .admitted)
  | some key, .ok =>
    if !executed then none
    else
      match state.slots key with
      | none =>
        some ((state.setSlot (some key) (some ⟨call, PENDING_MARKER⟩)).goTo call .reserved)
      | some slot =>
        some (state.goTo call
          (.answered (replayed request.digest (readSlot numbering (some slot.text)))))
  -- without an answer there is no guard, and what was reserved stays
  | some key, .error error =>
    let reserved :=
      if executed ∧ state.slots key = none then
        state.setSlot (some key) (some ⟨call, PENDING_MARKER⟩)
      else state
    some (reserved.goTo call (.answered (.error error)))
  | some key, .cancelled =>
    let reserved :=
      if executed ∧ state.slots key = none then
        state.setSlot (some key) (some ⟨call, PENDING_MARKER⟩)
      else state
    some (reserved.goTo call (.abandoned .reserved))

def allocateStep (state : State) (call : Nat) (draft : Option Draft) (stamp : Stamp)
    (floor : Option Nat) : Option State :=
  match (requests call).tenant with
  | none => none
  | some tenantId =>
    match submission (requests call) tenantId draft stamp with
    | .error error => some (state.goTo call (.settling (.error error)))
    | .ok prepared =>
      let counterKey := (tenantId, prepared.conversationId)
      let counter := state.counters counterKey
      match (match floor with
        | none => allocateSeq counter
        | some floor => allocateSeqWithFloor counter floor) with
      | none => none
      | some seq =>
        let message := { prepared with conversationSeq := seq }
        some ({ state with
          counters := Function.update state.counters counterKey seq
          submissions := Function.update state.submissions call (some message) }.goTo call
            (.allocated message))

def writeWalStep (state : State) (call : Nat) (message : Message) (executed : Bool) (reply : Reply) :
    Option State :=
  let after := if executed then { state with written := (call, message) :: state.written } else state
  match reply with
  | .ok => if executed then some (after.goTo call (.walWritten message)) else none
  | .error error => some (after.goTo call (.settling (.error error)))
  | .cancelled => some (after.goTo call (.dropped .reserved))

-- The message goes to the broker. Once it is in the WAL, no answer of the broker fails the send.
def publishStep (state : State) (call : Nat) (message : Message) (executed : Bool) (reply : Reply) :
    Option State :=
  let after :=
    if executed then { state with published := (call, message) :: state.published } else state
  match reply with
  | .ok => if executed then some (after.goTo call (.published message)) else none
  | .error error =>
    match recoverablePublishFailureOutcome message with
    | some outcome => some (after.goTo call (.settling (.ok outcome)))
    | none => some (after.goTo call (.settling (.error error)))
  | .cancelled =>
    match recoverablePublishFailureOutcome message with
    | some outcome =>
      some (after.goTo call
        (.dropped (.accepted (recordOf outcome (requests call).digest))))
    | none => some (after.goTo call (.dropped .reserved))

-- A commit that fails is only logged, a rollback that fails is not even that.
def settleStep (state : State) (call : Nat) (result : Except FlareError SendMessageOutcome)
    (executed : Bool) (reply : Reply) : Option State :=
  let request := requests call
  match (Phase.settling result).guard request.digest with
  | none => none
  | some guard =>
    let after := if executed then state.setSlot request.key (settleSlot numbering call guard)
      else state
    match reply with
    | .cancelled => some (after.goTo call (.dropped guard))
    | _ => some (after.goTo call (.answered result))

def step (state : State) : Action → Option State
  | .refuse call unreadable =>
    match state.phase call with
    | .waiting => some (state.goTo call (.answered (.error (tenantGate unreadable))))
    | _ => none
  | .begin_ call executed reply =>
    match state.phase call, (requests call).tenant with
    | .waiting, none =>
      some (state.goTo call
        (.answered (.error ⟨.invalidParameter, "tenant required to send a message", ""⟩)))
    | .waiting, some _ => beginStep numbering requests state call executed reply
    | _, _ => none
  -- the ledger does not know digests, so that a card post is not looked up
  | .lookup call found =>
    match state.phase call with
    | .reserved =>
      if (requests call).digest ≠ "" then some (state.goTo call .admitted)
      else
        match replayFromLedger (requests call).message found with
        | .ok none => some (state.goTo call .admitted)
        | .ok (some outcome) => some (state.goTo call (.settling (.ok outcome)))
        | .error error => some (state.goTo call (.settling (.error error)))
    | _ => none
  -- the guard of a limited call is not settled but dropped
  | .limit call error =>
    match state.phase call with
    | .admitted =>
      some (state.goTo call
        (if (requests call).key = none then .answered (.error error) else .dropped .reserved))
    | _ => none
  | .fail call error =>
    match state.phase call with
    | .admitted => some (state.goTo call (.settling (.error error)))
    | _ => none
  | .allocate call draft stamp floor =>
    match state.phase call with
    | .admitted => allocateStep requests state call draft stamp floor
    | _ => none
  | .writeWal call executed reply =>
    match state.phase call with
    | .allocated message =>
      if shouldWriteWal message (sendPersistenceMode message) then
        writeWalStep state call message executed reply
      else none
    | _ => none
  | .publish call executed reply =>
    match state.phase call with
    | .allocated message =>
      if shouldWriteWal message (sendPersistenceMode message) then none
      else publishStep requests state call message executed reply
    | .walWritten message => publishStep requests state call message executed reply
    | _ => none
  | .finish call =>
    match state.phase call with
    | .published message => some (state.goTo call (.settling (.ok (acceptedOutcome message))))
    | _ => none
  | .settle call executed reply =>
    match state.phase call with
    | .settling result => settleStep numbering requests state call result executed reply
    | _ => none
  | .cancel call =>
    ((state.phase call).guard (requests call).digest).map fun guard =>
      state.goTo call (.dropped guard)
  | .cleanup call executed =>
    match state.phase call with
    | .dropped guard =>
      let after :=
        if executed then state.setSlot (requests call).key (settleSlot numbering call guard)
        else state
      some (after.goTo call (.abandoned guard))
    | _ => none
  | .replay call message =>
    if (call, message) ∈ state.written then
      some { state with published := (call, message) :: state.published }
    else none
  | .expire key => some (state.setSlot (some key) none)
  | .loseCounter tenantId conversationId =>
    some { state with counters := Function.update state.counters (tenantId, conversationId) 0 }

end Step

end FlareIm.MessageIngest
