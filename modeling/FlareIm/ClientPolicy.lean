import FlareIm.Lib.LuaNumber
import FlareIm.Lib.Transition
import FlareIm.Lib.Versions

namespace FlareIm.ClientPolicy

open Versions

def ACCESS_TOPIC : String := "flare.access"

def RELEASE_TOPIC : String := "flare.release"

section Projection

structure ClientPolicyRecord where
  tenantId : String
  version : Nat
  accessSerial : Nat
  releaseGeneration : Nat
  buildPolicies : String := "\x7b\x7d"

structure ClientPolicyWatermarks where
  version : Nat
  accessSerial : Nat
  releaseGeneration : Nat

structure ClientPolicyNotice where
  topic : String
  version : Nat

def ClientPolicyRecord.noticesSince (record : ClientPolicyRecord)
    (previous : Option ClientPolicyWatermarks) : List ClientPolicyNotice :=
  let accessSerial := (previous.map (·.accessSerial)).getD 0
  let releaseGeneration := (previous.map (·.releaseGeneration)).getD 0
  (if accessSerial < record.accessSerial then [⟨ACCESS_TOPIC, record.accessSerial⟩] else []) ++
    if releaseGeneration < record.releaseGeneration then
      [⟨RELEASE_TOPIC, record.releaseGeneration⟩]
    else []

def bigint (value : Nat) : Nat := min value (2 ^ 63 - 1)

-- A row of `tenant_client_policy`.
structure PolicyRow where
  version : Nat
  accessSerial : Nat
  releaseGeneration : Nat
  buildPolicies : String
  deriving DecidableEq

def PolicyRow.watermarks (row : PolicyRow) : ClientPolicyWatermarks where
  version := row.version
  accessSerial := row.accessSerial
  releaseGeneration := row.releaseGeneration

def ClientPolicyRecord.row (record : ClientPolicyRecord) : PolicyRow where
  version := bigint record.version
  accessSerial := bigint record.accessSerial
  releaseGeneration := bigint record.releaseGeneration
  buildPolicies := record.buildPolicies

-- The row that the insert leaves, none when the version is not newer.
def ClientPolicyRecord.insert (record : ClientPolicyRecord) : Option PolicyRow → Option PolicyRow
  | none => some record.row
  | some row =>
    if row.version < record.row.version then
      some
        { record.row with
          accessSerial := max row.accessSerial record.row.accessSerial
          releaseGeneration := max row.releaseGeneration record.row.releaseGeneration }
    else none

end Projection

section Outbox

-- A row of `tenant_notice_outbox`.
structure OutboxRow where
  version : Nat
  attempts : Nat := 0
  nextAttemptAt : Nat
  lastError : Option String := none

-- A tenant and a topic.
abbrev NoticeKey := String × String

structure PendingTenantNotice where
  tenantId : String
  topic : String
  version : Nat
  attempts : Nat

def PendingTenantNotice.key (notice : PendingTenantNotice) : NoticeKey :=
  (notice.tenantId, notice.topic)

-- A newer version takes over a pending row and is due at once.
def enqueueRow (notice : ClientPolicyNotice) (now : Nat) : Option OutboxRow → OutboxRow
  | none => { version := bigint notice.version, nextAttemptAt := now }
  | some row => { version := max row.version (bigint notice.version), nextAttemptAt := now }

-- Durations in milliseconds.
def BATCH : Nat := 64

def LEASE : Nat := 30000

def FIRST_BACKOFF : Nat := 1000

def MAX_BACKOFF : Nat := 60000

def backoff (attempts : Nat) : Nat :=
  min (FIRST_BACKOFF * 2 ^ (min (max attempts 1) 20 - 1)) MAX_BACKOFF

def bounded (note : String) : String := String.ofList (note.toList.take 512)

def claimRow (now : Nat) (row : OutboxRow) : OutboxRow :=
  { row with attempts := row.attempts + 1, nextAttemptAt := now + LEASE }

def completeRow (notice : PendingTenantNotice) (row : OutboxRow) : Option OutboxRow :=
  if row.version = bigint notice.version then none else some row

def retryRow (notice : PendingTenantNotice) (now : Nat) (error : String) (row : OutboxRow) :
    OutboxRow :=
  if row.version = bigint notice.version then
    { row with
      nextAttemptAt := now + backoff notice.attempts
      lastError := some (bounded error) }
  else row

-- Whether the script takes the version for a newer one. It compares numbers of its own.
def newerThan (current : Option Nat) (version : Nat) : Bool :=
  current.all fun current => LuaNumber.ofNat current < LuaNumber.ofNat version

end Outbox

section System

-- A writer between two statements of its transaction.
inductive Writer where
  | selected (record : ClientPolicyRecord) (previous : Option ClientPolicyWatermarks)
  | inserted (record : ClientPolicyRecord) (notices : List ClientPolicyNotice)
  | ended

-- What the relay does next about the first notice of its round.
inductive Stage where
  | publishing
  | completing
  | retrying (error : String)

structure Round where
  pending : List PendingTenantNotice := []
  stage : Stage := .publishing

-- `last` is what Redis holds for a topic of a tenant, `recorded` all that the channel recorded.
structure State where
  policies : Store String PolicyRow := ⟨fun _ => none, fun _ => none⟩
  outbox : Store NoticeKey OutboxRow := ⟨fun _ => none, fun _ => none⟩
  writers : Nat → Option Writer := fun _ => none
  rounds : Nat → Round := fun _ => {}
  last : NoticeKey → Option Nat := fun _ => none
  recorded : NoticeKey → List Nat := fun _ => []

-- A request that is answered took effect. One whose answer is lost took effect too, and one that
-- is refused did not.
inductive Outcome where
  | answered
  | lost (error : String)
  | refused (error : String)

inductive Action where
  | select (writer : Nat) (record : ClientPolicyRecord)
  | insert (writer : Nat)
  | enqueue (writer : Nat) (now : Nat)
  | commit (writer : Nat)
  | fail (writer : Nat)
  | claim (replica : Nat) (now : Nat) (keys : List NoticeKey) (answered : Bool)
  | publish (replica : Nat) (outcome : Outcome)
  | settle (replica : Nat) (now : Nat) (applied : Bool)
  | crash (replica : Nat)
  | expire (key : NoticeKey)

def State.goTo (state : State) (writer : Nat) (next : Writer) : State :=
  { state with writers := Function.update state.writers writer (some next) }

def State.rollback (state : State) (writer : Nat) : State :=
  { state.goTo writer .ended with
    policies := state.policies.release writer
    outbox := state.outbox.release writer }

-- `SELECT .. FOR UPDATE` waits for whoever holds the row, and then holds it.
def State.select (state : State) (writer : Nat) (record : ClientPolicyRecord) : Option State :=
  match state.policies.committed record.tenantId with
  | none => some (state.goTo writer (.selected record none))
  | some row =>
    if state.policies.free writer record.tenantId then
      if record.version ≤ row.version then some (state.rollback writer)
      else
        some { state.goTo writer (.selected record (some row.watermarks)) with
          policies := state.policies.put writer record.tenantId (some row) }
    else none

def State.insert (state : State) (writer : Nat) (record : ClientPolicyRecord)
    (previous : Option ClientPolicyWatermarks) : Option State :=
  if state.policies.free writer record.tenantId then
    match record.insert (state.policies.view writer record.tenantId) with
    | none => some (state.rollback writer)
    | some row =>
      some { state.goTo writer (.inserted record (record.noticesSince previous)) with
        policies := state.policies.put writer record.tenantId (some row) }
  else none

def State.enqueue (state : State) (writer : Nat) (record : ClientPolicyRecord)
    (notice : ClientPolicyNotice) (rest : List ClientPolicyNotice) (now : Nat) : Option State :=
  let key := (record.tenantId, notice.topic)
  if state.outbox.free writer key then
    some { state.goTo writer (.inserted record rest) with
      outbox := state.outbox.put writer key
        (some (enqueueRow notice now (state.outbox.view writer key))) }
  else none

def State.commit (state : State) (writer : Nat) : State :=
  { state.goTo writer .ended with
    policies := state.policies.commit writer
    outbox := state.outbox.commit writer }

-- A statement on its own commits at once. It skips or waits for a row that is held.
def State.updateOutbox (state : State) (key : NoticeKey) (row : Option OutboxRow) : State :=
  { state with
    outbox := { state.outbox with
      committed := Function.update state.outbox.committed key row } }

def due (state : State) (now : Nat) (key : NoticeKey) : Bool :=
  (state.outbox.uncommitted key).isNone ∧
    (state.outbox.committed key).any fun row => row.nextAttemptAt ≤ now

def pendingNotice (key : NoticeKey) (row : OutboxRow) : PendingTenantNotice where
  tenantId := key.1
  topic := key.2
  version := row.version
  attempts := row.attempts

-- The rows of a claim one after the other. None is there twice.
def State.claimAll (state : State) (now : Nat) : List NoticeKey → State × List PendingTenantNotice
  | [] => (state, [])
  | key :: keys =>
    match state.outbox.committed key with
    | none => state.claimAll now keys
    | some row =>
      let claimed := (state.updateOutbox key (some (claimRow now row))).claimAll now keys
      (claimed.1, pendingNotice key (claimRow now row) :: claimed.2)

def State.setRound (state : State) (replica : Nat) (round : Round) : State :=
  { state with rounds := Function.update state.rounds replica round }

def State.runScript (state : State) (key : NoticeKey) (version : Nat) : State :=
  if newerThan (state.last key) version then
    { state with
      last := Function.update state.last key (some version)
      recorded := Function.update state.recorded key (version :: state.recorded key) }
  else state

def State.publish (state : State) (replica : Nat) (notice : PendingTenantNotice)
    (rest : List PendingTenantNotice) : Outcome → State
  | .answered => (state.runScript notice.key notice.version).setRound replica
      ⟨notice :: rest, .completing⟩
  | .lost error => (state.runScript notice.key notice.version).setRound replica
      ⟨notice :: rest, .retrying error⟩
  | .refused error => state.setRound replica ⟨notice :: rest, .retrying error⟩

def State.settle (state : State) (notice : PendingTenantNotice) (stage : Stage) (now : Nat)
    (applied : Bool) : Option State :=
  if !applied then some state
  else if (state.outbox.uncommitted notice.key).isSome then none
  else
    match state.outbox.committed notice.key, stage with
    | some row, .completing => some (state.updateOutbox notice.key (completeRow notice row))
    | some row, .retrying error =>
      some (state.updateOutbox notice.key (some (retryRow notice now error row)))
    | none, _ | _, .publishing => some state

def step (state : State) : Action → Option State
  | .select writer record =>
    match state.writers writer with
    | none => state.select writer record
    | _ => none
  | .insert writer =>
    match state.writers writer with
    | some (.selected record previous) => state.insert writer record previous
    | _ => none
  | .enqueue writer now =>
    match state.writers writer with
    | some (.inserted record (notice :: rest)) => state.enqueue writer record notice rest now
    | _ => none
  | .commit writer =>
    match state.writers writer with
    | some (.inserted _ []) => some (state.commit writer)
    | _ => none
  | .fail writer =>
    match state.writers writer with
    | some (.selected _ _) | some (.inserted _ _) => some (state.rollback writer)
    | _ => none
  | .claim replica now keys answered =>
    if (state.rounds replica).pending = [] ∧ keys.Nodup ∧ keys.length ≤ BATCH ∧
        ∀ key ∈ keys, due state now key then
      let claimed := state.claimAll now keys
      some (claimed.1.setRound replica ⟨if answered then claimed.2 else [], .publishing⟩)
    else none
  | .publish replica outcome =>
    match state.rounds replica with
    | ⟨notice :: rest, .publishing⟩ => some (state.publish replica notice rest outcome)
    | _ => none
  | .settle replica now applied =>
    match state.rounds replica with
    | ⟨_, .publishing⟩ | ⟨[], _⟩ => none
    | ⟨notice :: rest, stage⟩ =>
      (state.settle notice stage now applied).map fun state =>
        state.setRound replica ⟨rest, .publishing⟩
  | .crash replica => some (state.setRound replica {})
  | .expire key => some { state with last := Function.update state.last key none }

-- The watermarks of a record are exact as numbers of a script.
def Action.exact : Action → Prop
  | .select _ record => record.accessSerial < 2 ^ 53 ∧ record.releaseGeneration < 2 ^ 53
  | _ => True

def Action.expires : Action → Bool
  | .expire _ => true
  | _ => false

abbrev Run := Transition.Run step (fun _ action => action.exact)

end System

end FlareIm.ClientPolicy
