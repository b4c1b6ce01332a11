import FlareIm.Lib.Versions
import FlareIm.MessageArchive
import FlareIm.MessageIngest

namespace FlareIm.JoinFloor

open Context Proto IdempotencySlot Versions
open EventRow (Clock)
open MessageArchive (ArchiveRow Tables storeArchiveBatchValues)

section Rows

-- A member as a request names it. A negative floor stands for what there is on joining.
structure ConversationParticipant where
  userId : String
  roles : List String := []
  muted : Bool := false
  pinned : Bool := false
  attributes : List (String × String) := []
  visibleFromSeq : Int := 0

-- A row of `conversation_participants`, of one conversation.
structure ParticipantRow where
  roles : List String
  muted : Bool
  pinned : Bool
  attributes : List (String × String)
  visibleFromSeq : Int
  isDeleted : Bool := false
  hasQuit : Bool := false
  isArchived : Bool := false
  draft : Option String := none
  unreadCount : Int := 0
  deriving DecidableEq

def ConversationParticipant.row (participant : ConversationParticipant) (visibleFromSeq : Int) :
    ParticipantRow where
  roles := participant.roles
  muted := participant.muted
  pinned := participant.pinned
  attributes := participant.attributes
  visibleFromSeq := visibleFromSeq

end Rows

section Requests

inductive Request where
  | manageParticipants (toAdd : List ConversationParticipant) (toRemove : List String)
      (roleUpdates : List (String × List String))
  | createConversation (participants : List ConversationParticipant)
  | deleteConversation (userId : String)

-- The statements about one member's row. An inserted member has those before it in the same
-- statement.
inductive Statement where
  | addParticipant (participant : ConversationParticipant)
  | insertParticipant (earlier : List String) (participant : ConversationParticipant)
  | removeParticipant (userId : String)
  | updateRoles (userId : String) (roles : List String)
  | softDelete (userId : String)

def Statement.userId : Statement → String
  | .addParticipant participant | .insertParticipant _ participant => participant.userId
  | .removeParticipant userId | .updateRoles userId _ | .softDelete userId => userId

def Statement.inserts : Statement → Bool
  | .addParticipant _ | .insertParticipant _ _ => true
  | _ => false

def PARTICIPANT_INSERT_CHUNK : Nat := 5000

def insertChunk (earlier : List String) : List ConversationParticipant → List Statement
  | [] => []
  | participant :: rest =>
    .insertParticipant earlier participant :: insertChunk (participant.userId :: earlier) rest

def Request.statements : Request → List Statement
  | .manageParticipants toAdd toRemove roleUpdates =>
    toAdd.map .addParticipant ++ toRemove.map .removeParticipant ++
      roleUpdates.map fun update => .updateRoles update.1 update.2
  | .createConversation participants =>
    (participants.toChunks PARTICIPANT_INSERT_CHUNK).flatMap (insertChunk [])
  | .deleteConversation userId => [.softDelete userId]

end Requests

-- The conversation, the sends of the ingest and the requests to the conversation service.
structure Setup where
  tenantId : String
  conversationId : String
  numbering : Numbering
  clock : Clock
  sends : Nat → MessageIngest.Request
  requests : Nat → Request

section Statements

variable (setup : Setup)

def Setup.owns (row : ArchiveRow) : Prop :=
  row.tenantId = setup.tenantId ∧ row.conversationId = setup.conversationId

instance (row : ArchiveRow) : Decidable (setup.owns row) := inferInstanceAs (Decidable (_ ∧ _))

def maxSeq (messages : List ArchiveRow) : Option Int :=
  ((messages.filter fun row => setup.owns row).map (·.seq)).max?

def resolveFloor (messages : List ArchiveRow) (visibleFromSeq : Int) : Int :=
  if visibleFromSeq < 0 then (maxSeq setup messages).getD 0 else visibleFromSeq

-- The row after a statement that found `row`, none when there is no row then.
def Statement.apply (messages : List ArchiveRow) (row : Option ParticipantRow) :
    Statement → Option ParticipantRow
  | .addParticipant participant =>
    let floor := resolveFloor setup messages participant.visibleFromSeq
    match row with
    | none => some (participant.row floor)
    | some row =>
      some { row with
        roles := participant.roles
        attributes := participant.attributes
        visibleFromSeq := max row.visibleFromSeq floor
        isDeleted := false
        hasQuit := false }
  -- the first members were there from the start: no floor for them
  | .insertParticipant _ participant =>
    let floor := max participant.visibleFromSeq 0
    match row with
    | none => some (participant.row floor)
    | some row =>
      some { row with
        roles := participant.roles
        attributes := participant.attributes
        isDeleted := false
        visibleFromSeq := max row.visibleFromSeq floor }
  | .removeParticipant _ => none
  | .updateRoles _ roles => row.map fun row => { row with roles }
  | .softDelete _ =>
    row.map fun row =>
      { row with isDeleted := true, isArchived := false, draft := none, unreadCount := 0 }

-- A statement inserts no member twice.
def Statement.refused : Statement → Bool
  | .insertParticipant earlier participant => participant.userId ∈ earlier
  | _ => false

end Statements

section System

-- What a statement sees from its start on.
structure Snapshot where
  messages : List ArchiveRow
  rows : String → Option ParticipantRow

-- A request that is under way. `startedIn` is the ingest when it came in.
structure Transaction where
  startedIn : MessageIngest.State
  executed : List Statement
  todo : List Statement
  snapshot : Option Snapshot

-- A request that is through has the rows as its commit left them.
inductive Call where
  | idle
  | running (transaction : Transaction)
  | committed (startedIn : MessageIngest.State) (rows : String → Option ParticipantRow)
  | failed

structure State where
  ingest : MessageIngest.State := {}
  tables : Tables := {}
  participants : Store String ParticipantRow := ⟨fun _ => none, fun _ => none⟩
  calls : Nat → Call := fun _ => .idle

-- The steps of the ingest, the transactions of the storage writer and the steps of the requests.
-- A statement other than an insert may find that another row took the place of the one it saw.
inductive Action where
  | ingest (action : MessageIngest.Action)
  | archive (ctx : Ctx) (committed : Bool) (messages : List Message)
  | begin_ (call : Nat)
  | read (call : Nat)
  | execute (call : Nat) (found : Bool)
  | commit (call : Nat)
  | rollback (call : Nat)

def State.goTo (state : State) (call : Nat) (next : Call) : State :=
  { state with calls := Function.update state.calls call next }

-- Only messages that were accepted for good reach the writer.
def State.accepted (state : State) (message : Message) : Prop :=
  message ∈ state.ingest.published.map Prod.snd ∧
    MessageProfile.durability message ≠ .transientAccepted

instance (state : State) (message : Message) : Decidable (state.accepted message) :=
  inferInstanceAs (Decidable (_ ∧ _))

variable (setup : Setup)

def Transaction.done (transaction : Transaction) (statement : Statement)
    (rest : List Statement) : Transaction :=
  { transaction with
    executed := transaction.executed ++ [statement]
    todo := rest
    snapshot := none }

def executeStep (state : State) (call : Nat) (found : Bool) (transaction : Transaction)
    (snapshot : Snapshot) (statement : Statement) (rest : List Statement) : Option State :=
  let userId := statement.userId
  let current := state.participants.view call userId
  let after := state.goTo call (.running (transaction.done statement rest))
  if statement.refused then none
  else if found then
    if state.participants.free call userId ∧
        (statement.inserts ∨ (snapshot.rows userId ≠ none ∧ current ≠ none)) then
      some { after with
        participants := state.participants.put call userId
          (statement.apply setup snapshot.messages current) }
    else none
  else if statement.inserts then none
  else if snapshot.rows userId = none ∨ current ≠ snapshot.rows userId then some after
  else none

def step (state : State) : Action → Option State
  | .ingest action =>
    (MessageIngest.step setup.numbering setup.sends state.ingest action).map fun ingest =>
      { state with ingest }
  | .archive ctx committed messages =>
    if ∀ message ∈ messages, state.accepted message then
      some { state with
        tables := (storeArchiveBatchValues setup.clock ctx state.tables committed messages).1 }
    else none
  | .begin_ call =>
    match state.calls call with
    | .idle =>
      some (state.goTo call (.running {
        startedIn := state.ingest
        executed := []
        todo := (setup.requests call).statements
        snapshot := none }))
    | _ => none
  | .read call =>
    match state.calls call with
    | .running transaction =>
      if transaction.snapshot.isNone then
        some (state.goTo call (.running { transaction with
          snapshot := some ⟨state.tables.messages, state.participants.view call⟩ }))
      else none
    | _ => none
  | .execute call found =>
    match state.calls call with
    | .running transaction =>
      match transaction.snapshot, transaction.todo with
      | some snapshot, statement :: rest =>
        executeStep setup state call found transaction snapshot statement rest
      | _, _ => none
    | _ => none
  | .commit call =>
    match state.calls call with
    | .running transaction =>
      if transaction.todo = [] then
        let participants := state.participants.commit call
        some { state.goTo call (.committed transaction.startedIn participants.committed) with
          participants }
      else none
    | _ => none
  | .rollback call =>
    match state.calls call with
    | .running _ =>
      some { state.goTo call .failed with participants := state.participants.release call }
    | _ => none

end System

end FlareIm.JoinFloor
