import FlareIm.Lib.RoundTrip
import FlareIm.MessagePersistence
import FlareIm.SessionRegistry

namespace FlareIm.GatewaySweep

open RoundTrip SessionStore
open SessionRegistry (Admission admitAttempts declareMore)

section Names

def ORPHAN_MARKER : String := "#orphan-"

-- What the connection set left by an earlier process of a gateway is renamed to.
def orphanGatewayId (gatewayId boot : String) : String :=
  gatewayId ++ ORPHAN_MARKER ++ boot

def baseGatewayId (knownId : String) : String :=
  ((Text.beforeLast ORPHAN_MARKER.toList knownId.toList).map String.ofList).getD knownId

structure ConnectionMember where
  tenantId : String
  userId : String
  sessionField : String

def parseFields (chars : List Char) : Option ConnectionMember :=
  (Framed.unframe chars).bind fun tenant =>
    (Framed.unframe tenant.2).bind fun user =>
      if tenant.1 ≠ [] ∧ user.1 ≠ [] ∧ user.2 ≠ [] then
        some ⟨String.ofList tenant.1, String.ofList user.1, String.ofList user.2⟩
      else none

-- Reads what `gatewayMember` writes.
def parseConnectionMember (member : String) : Option ConnectionMember :=
  match member.toList with
  | 'v' :: '1' :: ':' :: rest => parseFields rest
  | _ => none

end Names

section Parties

-- A process of a gateway. The id is the gateway's, and stays when the gateway is restarted; the
-- boot is drawn when the process starts.
structure GatewayProcess where
  gatewayId : String
  boot : String

-- A login that a process sends. The time its session is created at is read when it arrives.
structure Login where
  process : Nat
  admission : Admission

-- The processes, the logins they send and the sessions that are logged out otherwise. Boots are
-- hexadecimal, session ids are UUIDs drawn once, and a login has validated its tenant and user.
structure Setup where
  process : Nat → GatewayProcess
  login : Nat → Login
  disconnect : Nat → SessionKey × String
  parsesAsUuid : String → Bool
  confirmAfter : Nat
  boots_distinct : Function.Injective fun process' => (process process').boot
  boots_plain (process' : Nat) : '#' ∉ (process process').boot.toList
  gateway_own (id : Nat) :
    (login id).admission.session.gatewayId = (process (login id).process).gatewayId
  sessions_distinct : Function.Injective fun id => (login id).admission.session.id
  sessions_parse (id : Nat) : parsesAsUuid (login id).admission.session.id = true
  sessions_trimmed (id : Nat) :
    Text.trim (login id).admission.session.id = (login id).admission.session.id
  sessions_nonempty (id : Nat) : (login id).admission.session.id ≠ ""
  tenants_valid (id : Nat) :
    MessagePersistence.isValidTenantId (login id).admission.session.tenantId = true
  users_nonempty (id : Nat) : (login id).admission.session.userId ≠ ""
  users_short (id : Nat) : (login id).admission.session.userId.utf8ByteSize ≤ 128

variable (setup : Setup)

def Setup.gatewayId (process : Nat) : String := (setup.process process).gatewayId
def Setup.boot (process : Nat) : String := (setup.process process).boot
def Setup.orphan (process : Nat) : String :=
  orphanGatewayId (setup.gatewayId process) (setup.boot process)

def Setup.admission (id : Nat) : Admission := (setup.login id).admission
def Setup.key (id : Nat) : SessionKey := (setup.admission id).key
def Setup.sessionId (id : Nat) : String := (setup.admission id).session.id

-- The record a login stores, with the time it was created at.
def Setup.record (id : Nat) (createdAt : Int) : RedisConnectionRecord :=
  { (setup.admission id).record with createdAt := createdAt }

-- What the connection sets list a login's session as.
def Setup.member (id : Nat) : String :=
  gatewayMember (setup.key id).tenantId (setup.key id).userId (setup.sessionId id)

end Parties

section States

-- The value of `gw:lease:{gateway_id}`, with the step since which it has been that process's
-- without a gap.
structure Lease where
  boot : String
  since : Nat
  deriving DecidableEq

inductive ProcessPhase where
  | unstarted
  | adopting
  | renewing
  | serving
  -- it ended before it accepted a connection
  | aborted
  | stopped
  deriving DecidableEq

inductive LoginPhase where
  | waiting
  | admitting (attempts : Nat) (otherGateways : List String)
  | finished
  deriving DecidableEq

-- The clock at the start of a login, and the step of the run it started with.
structure Begun where
  createdAt : Int
  began : Nat

inductive DisconnectPhase where
  | waiting
  | removing (records : List RedisConnectionRecord)
  | finished

-- Where `retire_member` stands with one member of a batch.
inductive Task where
  | looking
  | forgetting
  | loading (key : SessionKey) (sessionId : String)
  | removing (key : SessionKey) (sessionId : String) (records : List RedisConnectionRecord)
  | removed
  | left
  | failed
  deriving DecidableEq

def Task.isDone : Task → Bool
  | .removed | .left | .failed => true
  | _ => false

-- One `sweep_gateway`. The code keeps the gateway, the cutoff and the batch; the rest tells what
-- the set listed when the sweep started, which of it has been there ever since, what the scan
-- returned, and whether a removal failed.
structure Sweep where
  gatewayId : String
  cutoffMs : Int
  began : Nat
  listed : Finset String
  steady : Finset String
  seen : Finset String := ∅
  batch : List (String × Task) := []
  lastPage : Bool := false
  failed : Bool := false
  deriving DecidableEq

inductive Stage where
  | locking
  | checking
  | scanning
  | settling
  | retiring
  deriving DecidableEq

inductive SweeperPhase where
  | idle
  | locking
  | listing
  | probing (known : List String) (present : List Bool)
  | choosing (dead : List String)
  | sweeping (dead : List String) (sweep : Sweep) (stage : Stage)
  deriving DecidableEq

-- A sweep that has started, with what the set listed then and whether the gateway was known.
structure Listing where
  gatewayId : String
  members : Finset String
  known : Bool

structure State where
  store : Store
  leases : String → Option Lease
  known : Finset String
  sweeperLock : Option Nat
  running : String → Option Nat
  processes : Nat → ProcessPhase
  logins : Nat → LoginPhase
  begun : Nat → Option Begun
  disconnects : Nat → DisconnectPhase
  sweepers : Nat → SweeperPhase
  suspects : Nat → String → Option Nat
  listings : List Listing
  steps : Nat

def initial : State where
  store := emptyStore
  leases _ := none
  known := ∅
  sweeperLock := none
  running _ := none
  processes _ := .unstarted
  logins _ := .waiting
  begun _ := none
  disconnects _ := .waiting
  sweepers _ := .idle
  suspects _ _ := none
  listings := []
  steps := 0

-- What a scan in progress still has to return, after a change of its set.
def SweeperPhase.observe (store : Store) : SweeperPhase → SweeperPhase
  | .sweeping dead sweep stage =>
    .sweeping dead
      { sweep with steady := sweep.steady ∩ store.gatewayConns sweep.gatewayId } stage
  | phase => phase

variable (state : State)

def State.setStore (store : Store) : State :=
  { state with store := store, sweepers := fun i => (state.sweepers i).observe store }

def State.moveProcess (process : Nat) (phase : ProcessPhase) : State :=
  { state with processes := Function.update state.processes process phase }

def State.moveLogin (id : Nat) (phase : LoginPhase) : State :=
  { state with logins := Function.update state.logins id phase }

def State.moveDisconnect (id : Nat) (phase : DisconnectPhase) : State :=
  { state with disconnects := Function.update state.disconnects id phase }

def State.moveSweeper (i : Nat) (phase : SweeperPhase) : State :=
  { state with sweepers := Function.update state.sweepers i phase }

end States

section Scripts

def renameGatewayConns (source target : String) (store : Store) : Store :=
  { store with
    gatewayConns :=
      Function.update (Function.update store.gatewayConns target (store.gatewayConns source))
        source ∅ }

def delGatewayConns (gatewayId : String) (store : Store) : Store :=
  { store with gatewayConns := Function.update store.gatewayConns gatewayId ∅ }

variable (setup : Setup) (state : State)

-- `ADOPT_SCRIPT`.
def adoptScript (process : Nat) : State :=
  if state.store.gatewayConns (setup.gatewayId process) = ∅ then state
  else
    { state.setStore (renameGatewayConns (setup.gatewayId process) (setup.orphan process)
        state.store) with
      known := insert (setup.orphan process) state.known }

-- `RENEW_SCRIPT`. A lease the process already holds goes on.
def renewScript (process : Nat) : State :=
  let since := match state.leases (setup.gatewayId process) with
    | some lease => if lease.boot = setup.boot process then lease.since else state.steps
    | none => state.steps
  { state with
    leases := Function.update state.leases (setup.gatewayId process)
      (some ⟨setup.boot process, since⟩)
    known := insert (setup.gatewayId process) state.known }

-- `RELEASE_SCRIPT`: only the process that wrote the lease deletes it.
def releaseScript (process : Nat) : State :=
  match state.leases (setup.gatewayId process) with
  | some lease =>
    if lease.boot = setup.boot process then
      { state with leases := Function.update state.leases (setup.gatewayId process) none }
    else state
  | none => state

-- `HOLD_LOCK_SCRIPT`.
def holdLockScript (i : Nat) : State × Bool :=
  if state.sweeperLock = some i ∨ state.sweeperLock = none then
    ({ state with sweeperLock := some i }, true)
  else (state, false)

-- `RETIRE_SCRIPT`.
def retireScript (gatewayId : String) : State × Bool :=
  if (state.leases gatewayId).isSome then (state, false)
  else
    ({ state.setStore (delGatewayConns gatewayId state.store) with
        known := state.known.erase gatewayId }, true)

end Scripts

section Sweeper

-- The gateways whose lease has been missing long enough, and when each was first missed.
def confirmedDead (confirmAfter : Nat) (suspects : String → Option Nat) (known : List String)
    (present : List Bool) (now : Nat) : (String → Option Nat) × List String :=
  let missing := ((known.zip present).filter fun gateway => !gateway.2).map (·.1)
  (fun gatewayId =>
      if gatewayId ∈ missing then some ((suspects gatewayId).getD now) else none,
    missing.filter fun gatewayId => confirmAfter ≤ now - (suspects gatewayId).getD now)

-- `retire_member` looks up the session of a member it can read, and forgets the others.
def startTask (member : String) : Task :=
  if (parseConnectionMember member).isSome then .looking else .forgetting

-- The checks of `logout`, which trims what it is given.
def logoutTask (parsesAsUuid : String → Bool) (member : ConnectionMember) : Task :=
  if MessagePersistence.isValidTenantId member.tenantId = true ∧
      Text.trim member.userId ≠ "" ∧ (Text.trim member.userId).utf8ByteSize ≤ 128 ∧
      Text.trim member.sessionField ≠ "" ∧
      parsesAsUuid (Text.trim member.sessionField) = true then
    .loading ⟨member.tenantId, Text.trim member.userId⟩ (Text.trim member.sessionField)
  else .failed

def lookTask (parsesAsUuid : String → Bool) (ownerId : String) (cutoffMs : Int) (store : Store)
    (member : ConnectionMember) : Task :=
  match hget store ⟨member.tenantId, member.userId⟩ member.sessionField with
  | none => .forgetting
  | some owner =>
    if owner.gatewayId ≠ ownerId ∨ owner.createdAt > cutoffMs then .left
    else logoutTask parsesAsUuid member

-- `load_user_records`.
def loadTask (store : Store) (key : SessionKey) (sessionId : String) : Task :=
  if (hvals store key).any fun record => record.tenantId != key.tenantId then .failed
  else .removing key sessionId (hvals store key)

-- The next round trip for one member, with what becomes of the store.
def taskStep (parsesAsUuid : String → Bool) (gatewayId : String) (cutoffMs : Int) (store : Store)
    (member : String) (outcome : Outcome) : Task → Option (Task × Store)
  | .looking =>
    if outcome = .answered then
      (parseConnectionMember member).map fun parsed =>
        (lookTask parsesAsUuid (baseGatewayId gatewayId) cutoffMs store parsed, store)
    else some (.failed, store)
  | .forgetting =>
    some (.removed,
      if outcome.takesEffect then removeGatewayConn store gatewayId member else store)
  | .loading key sessionId =>
    if outcome = .answered then some (loadTask store key sessionId, store)
    else some (.failed, store)
  | .removing key sessionId records =>
    some (if outcome = .answered then .removed else .failed,
      if outcome.takesEffect then removeConnection key sessionId records store else store)
  | _ => none

variable (setup : Setup)

-- What a sweeper does next, with what it reads from a clock or is given by a scan.
inductive Move where
  | sweepOnce
  | hold (outcome : Outcome)
  | knownGateways (known : List String)
  | leasePresent
  | confirmedDead (now : Nat)
  | sweepGateway (cutoffMs : Int)
  | scan (members : List String) (lastPage : Bool)
  | retireMember (index : Nat) (outcome : Outcome)
  | nextBatch
  | retireGateway (outcome : Outcome)
  -- the round trip fails and the round ends with its error, or the instance is killed
  | fail
  deriving DecidableEq

-- A page holds members of the set, and by the last page every member that was there throughout
-- has been returned.
def pageAllowed (sweep : Sweep) (store : Store) (members : List String) (lastPage : Bool) : Bool :=
  decide (∀ member ∈ members, member ∈ store.gatewayConns sweep.gatewayId) &&
    (!lastPage || decide (sweep.steady ⊆ sweep.seen ∪ members.toFinset))

def startSweep (state : State) (i : Nat) (gatewayId : String) (dead : List String)
    (cutoffMs : Int) : State :=
  let listed := state.store.gatewayConns gatewayId
  { state.moveSweeper i (.sweeping dead
      { gatewayId, cutoffMs, began := state.steps, listed, steady := listed } .locking) with
    listings := ⟨gatewayId, listed, decide (gatewayId ∈ state.known)⟩ :: state.listings }

def afterLock (outcome : Outcome) (held : Bool) (next : SweeperPhase) : SweeperPhase :=
  if outcome = .answered ∧ held then next else .idle

-- One task of the batch takes its step.
def settleMember (state : State) (i : Nat) (dead : List String) (sweep : Sweep) (index : Nat)
    (outcome : Outcome) : Option State :=
  sweep.batch[index]?.bind fun entry =>
    (taskStep setup.parsesAsUuid sweep.gatewayId sweep.cutoffMs state.store entry.1 outcome
      entry.2).map fun result =>
        (state.moveSweeper i (.sweeping dead
          { sweep with
            batch := sweep.batch.set index (entry.1, result.1)
            failed := sweep.failed || result.1 == .failed } .settling)).setStore result.2

-- `sweep_gateway` from one round trip to the next.
def sweepStep (state : State) (i : Nat) (dead : List String) (sweep : Sweep) :
    Stage → Move → Option State
  | .locking, .hold outcome =>
    if outcome.takesEffect then
      some ((holdLockScript state i).1.moveSweeper i
        (afterLock outcome (holdLockScript state i).2 (.sweeping dead sweep .checking)))
    else some (state.moveSweeper i .idle)
  | .checking, .leasePresent =>
    if (state.leases sweep.gatewayId).isSome then some (state.moveSweeper i (.choosing dead))
    else some (state.moveSweeper i (.sweeping dead sweep .scanning))
  | .scanning, .scan members lastPage =>
    if pageAllowed sweep state.store members lastPage then
      some (state.moveSweeper i (.sweeping dead
        { sweep with
          seen := sweep.seen ∪ members.toFinset
          batch := members.map fun member => (member, startTask member)
          lastPage := lastPage } .settling))
    else none
  | .settling, .retireMember index outcome => settleMember setup state i dead sweep index outcome
  | .settling, .nextBatch =>
    if sweep.batch.all fun entry => entry.2.isDone then
      some (state.moveSweeper i
        (.sweeping dead sweep (if sweep.lastPage then .retiring else .locking)))
    else none
  | .retiring, .retireGateway outcome =>
    if outcome.takesEffect then
      some ((retireScript state sweep.gatewayId).1.moveSweeper i
        (if outcome = .answered then .choosing dead else .idle))
    else some (state.moveSweeper i .idle)
  | _, .fail => some (state.moveSweeper i .idle)
  | _, _ => none

-- `sweep_once` from one round trip to the next.
def sweeperStep (state : State) (i : Nat) : SweeperPhase → Move → Option State
  | .idle, .sweepOnce => some (state.moveSweeper i .locking)
  | .locking, .hold outcome =>
    if outcome.takesEffect then
      some ((holdLockScript state i).1.moveSweeper i
        (afterLock outcome (holdLockScript state i).2 .listing))
    else some (state.moveSweeper i .idle)
  | .listing, .knownGateways known =>
    if known.Nodup ∧ known.toFinset = state.known then
      some (state.moveSweeper i (.probing known []))
    else none
  | .probing known present, .leasePresent =>
    known[present.length]?.map fun gatewayId =>
      state.moveSweeper i (.probing known (present ++ [(state.leases gatewayId).isSome]))
  | .probing known present, .confirmedDead now =>
    if present.length = known.length then
      let confirmed := confirmedDead setup.confirmAfter (state.suspects i) known present now
      some { state.moveSweeper i (.choosing confirmed.2) with
        suspects := Function.update state.suspects i confirmed.1 }
    else none
  | .choosing [], .sweepGateway _ => some (state.moveSweeper i .idle)
  | .choosing (gatewayId :: dead), .sweepGateway cutoffMs =>
    some (startSweep state i gatewayId dead cutoffMs)
  | .sweeping dead sweep stage, move => sweepStep setup state i dead sweep stage move
  | .idle, _ => none
  | .choosing _, _ => none
  | _, .fail => some (state.moveSweeper i .idle)
  | _, _ => none

end Sweeper

section System

variable (setup : Setup) (state : State)

inductive Action where
  | start (process : Nat)
  | adopt (process : Nat) (outcome : Outcome)
  | renew (process : Nat) (outcome : Outcome)
  | crash (process : Nat)
  | release (process : Nat) (outcome : Outcome)
  | expireLease (gatewayId : String)
  | expireLock
  | login (id : Nat) (createdAt : Int)
  | admission (id : Nat) (outcome : Outcome)
  | disconnect (id : Nat) (outcome : Outcome)
  | sweeper (i : Nat) (move : Move)

-- A gateway id has one process at a time.
def startProcess (process : Nat) : Option State :=
  if state.processes process = .unstarted ∧ state.running (setup.gatewayId process) = none then
    some { state.moveProcess process .adopting with
      running := Function.update state.running (setup.gatewayId process) (some process) }
  else none

def endProcess (process : Nat) (phase : ProcessPhase) : State :=
  { state.moveProcess process phase with
    running := Function.update state.running (setup.gatewayId process) none }

def crashProcess (process : Nat) : Option State :=
  match state.processes process with
  | .adopting | .renewing => some (endProcess setup state process .aborted)
  | .serving => some (endProcess setup state process .stopped)
  | _ => none

-- The process goes on when the set of its predecessor could not be handed over.
def adoptPrevious (process : Nat) (outcome : Outcome) : Option State :=
  if state.processes process = .adopting then
    some ((if outcome.takesEffect then adoptScript setup state process else state).moveProcess
      process .renewing)
  else none

def renewLease (process : Nat) (outcome : Outcome) : Option State :=
  let renewed := if outcome.takesEffect then renewScript setup state process else state
  match state.processes process with
  | .renewing => some (renewed.moveProcess process .serving)
  | .serving => some renewed
  | _ => none

def releaseLease (process : Nat) (outcome : Outcome) : Option State :=
  if state.processes process = .serving then
    some (endProcess setup
      (if outcome.takesEffect then releaseScript setup state process else state) process .stopped)
  else none

-- A login arrives. Its process may have ended in the meantime.
def beginLogin (id : Nat) (createdAt : Int) : Option State :=
  if (state.processes (setup.login id).process = .serving ∨
      state.processes (setup.login id).process = .stopped) ∧ state.logins id = .waiting then
    some { state.moveLogin id
        (if (setup.admission id).gatewayConnectionId = "" then .finished
          else .admitting admitAttempts []) with
      begun := Function.update state.begun id (some ⟨createdAt, state.steps⟩) }
  else none

-- One attempt of `admit_connection`.
def admitOnce (id : Nat) (begun : Begun) (attempts : Nat) (others : List String)
    (outcome : Outcome) : State :=
  let admission := setup.admission id
  let script := admitConnectionScript (setup.record id begun.createdAt)
    (admission.session.gatewayId :: others) admission.session.userId admission.strategy
    admission.maxDevices state.store
  match script.2 with
  | .failed _ => state.moveLogin id .finished
  | .retryWith gatewayIds =>
    if outcome = .answered then
      state.moveLogin id
        (.admitting attempts (declareMore admission.session.gatewayId others gatewayIds))
    else state.moveLogin id .finished
  | .evicted _ =>
    if outcome.takesEffect then (state.moveLogin id .finished).setStore script.1
    else state.moveLogin id .finished

def admissionStep (id : Nat) (outcome : Outcome) : Option State :=
  match state.logins id, state.begun id with
  | .admitting (attempts + 1) others, some begun =>
    some (admitOnce setup state id begun attempts others outcome)
  | .admitting 0 _, some _ => some (state.moveLogin id .finished)
  | _, _ => none

-- `remove_connection` for a session that is logged out otherwise.
def disconnectStep (id : Nat) (outcome : Outcome) : Option State :=
  let key := (setup.disconnect id).1
  match state.disconnects id with
  | .waiting =>
    if outcome = .answered ∧
        ((hvals state.store key).all fun record => record.tenantId == key.tenantId) then
      some (state.moveDisconnect id (.removing (hvals state.store key)))
    else some (state.moveDisconnect id .finished)
  | .removing records =>
    if outcome.takesEffect then
      some ((state.moveDisconnect id .finished).setStore
        (removeConnection key (setup.disconnect id).2 records state.store))
    else some (state.moveDisconnect id .finished)
  | .finished => none

def act : Action → Option State
  | .start process => startProcess setup state process
  | .adopt process outcome => adoptPrevious setup state process outcome
  | .renew process outcome => renewLease setup state process outcome
  | .crash process => crashProcess setup state process
  | .release process outcome => releaseLease setup state process outcome
  | .expireLease gatewayId =>
    some { state with leases := Function.update state.leases gatewayId none }
  | .expireLock => some { state with sweeperLock := none }
  | .login id createdAt => beginLogin setup state id createdAt
  | .admission id outcome => admissionStep setup state id outcome
  | .disconnect id outcome => disconnectStep setup state id outcome
  | .sweeper i move => sweeperStep setup state i (state.sweepers i) move

def step (action : Action) : Option State :=
  (act setup state action).map fun next => { next with steps := state.steps + 1 }

end System

end FlareIm.GatewaySweep
