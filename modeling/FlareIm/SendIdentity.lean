import FlareIm.MessageIngest
import FlareIm.MessagePersistence

namespace FlareIm.SendIdentity

open Text Context Proto MessageProfile IdempotencySlot MessageArchive Transition
open MessageIngest (Request LedgerRecord)
open MessagePersistence (Writer Delivered)

-- The ingest service, the storage writer behind it and what both have stored.
structure State where
  ingest : MessageIngest.State := {}
  writer : MessagePersistence.State := {}

-- A step of a send, a delivery to the writer, or the end of the life of a key of the writer.
inductive Action where
  | ingest (action : MessageIngest.Action)
  | deliver (action : MessagePersistence.Action)
  | forget (key : String)

-- The row the lookup of a send reads from the ledger of the writer.
def ReadsLedger (ledger : List LedgerClaim) (request : Request) (record : LedgerRecord) : Prop :=
  ∃ claim ∈ ledger,
    claim.key = (normalizeTenantId (request.tenantId.getD ""), request.message.senderId,
      request.message.clientMsgId) ∧
    claim.conversationId = record.conversationId ∧ claim.serverId = record.serverId ∧
    claim.seq = record.conversationSeq ∧ record.durability = .persisted

instance (ledger : List LedgerClaim) (request : Request) (record : LedgerRecord) :
    Decidable (ReadsLedger ledger request record) :=
  inferInstanceAs (Decidable (∃ claim ∈ ledger, _ ∧ _))

def found : MessageIngest.Action → Option (Nat × LedgerRecord)
  | .lookup call (.ok (some record)) => some (call, record)
  | _ => none

-- A lookup that finds a row finds one of the writer's. It may also fail, or not be made at all.
def Consults (requests : Nat → Request) (ledger : List LedgerClaim)
    (action : MessageIngest.Action) : Prop :=
  ∀ read ∈ found action, ReadsLedger ledger (requests read.1) read.2

instance (requests : Nat → Request) (ledger : List LedgerClaim)
    (action : MessageIngest.Action) : Decidable (Consults requests ledger action) :=
  inferInstanceAs (Decidable (∀ read ∈ found action, ReadsLedger ledger (requests read.1) read.2))

def delivered : MessagePersistence.Action → List Delivered
  | .single _ _ one => [one]
  | .batch _ _ many => many

-- The queue delivers what the broker took to be stored, under the tenant of its header.
def Queued (requests : Nat → Request) (published : List (Nat × Message))
    (tenantId : Option String) (message : Message) : Prop :=
  durability message ≠ .transientAccepted ∧
    ∃ entry ∈ published, entry.2 = message ∧
      normalizeOptionalTenantId (requests entry.1).tenantId = normalizeOptionalTenantId tenantId

instance (requests : Nat → Request) (published : List (Nat × Message))
    (tenantId : Option String) (message : Message) :
    Decidable (Queued requests published tenantId message) :=
  inferInstanceAs (Decidable (_ ∧ ∃ entry ∈ published, _ ∧ _))

section Step

variable (numbering : Numbering) (requests : Nat → Request) (writer : Writer)

def step (state : State) : Action → Option State
  | .ingest action =>
    if Consults requests state.writer.store.tables.ledger action then
      (MessageIngest.step numbering requests state.ingest action).map fun ingest =>
        { state with ingest }
    else none
  | .deliver action =>
    if ∀ one ∈ delivered action,
      Queued requests state.ingest.published action.ctx.tenantId one.message then
      (MessagePersistence.step writer state.writer action).map fun writer =>
        { state with writer }
    else none
  | .forget key =>
    some { state with
      writer := { state.writer with
        store := { state.writer.store with
          keys := state.writer.store.keys.filter (· ≠ key) } } }

end Step

end FlareIm.SendIdentity
