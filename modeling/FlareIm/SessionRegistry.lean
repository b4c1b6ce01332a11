import FlareIm.Lib.Transition
import FlareIm.SessionStore

namespace FlareIm.SessionRegistry

open SessionStore

-- The aggregate a login creates, as far as it is stored.
structure Connection where
  id : String
  userId : String
  deviceId : String
  tenantId : String
  devicePlatform : String
  serverId : String
  gatewayId : String
  devicePriority : Int := 2
  tokenVersion : Int := 0
  createdAt : Int
  lastHeartbeatAt : Int

def Connection.key (session : Connection) : SessionKey := ⟨session.tenantId, session.userId⟩

def recordFromConnection (session : Connection) : RedisConnectionRecord where
  conversationId := session.id
  gatewayId := session.gatewayId
  serverId := session.serverId
  deviceId := session.deviceId
  devicePlatform := session.devicePlatform
  connectionId := session.id
  createdAt := session.createdAt
  lastSeen := session.lastHeartbeatAt
  devicePriority := session.devicePriority
  tokenVersion := session.tokenVersion
  tenantId := session.tenantId

structure Admission where
  session : Connection
  gatewayConnectionId : String
  strategy : DeviceConflictStrategy
  maxDevices : Nat

def Admission.key (admission : Admission) : SessionKey := admission.session.key

def Admission.record (admission : Admission) : RedisConnectionRecord :=
  { recordFromConnection admission.session with connectionId := admission.gatewayConnectionId }

inductive Call where
  | saveConnection (session : Connection)
  | admitConnection (admission : Admission)
  | touchConnection (key : SessionKey) (sessionId : String)
  | removeConnection (key : SessionKey) (sessionId : String)
  | removeConnectionForKick (key : SessionKey) (sessionId : String) (audited : Bool)
  | removeUserConnections (key : SessionKey) (deviceIds : Option (List String))

-- Where a call stands between its round trips, with what it has read.
inductive Phase where
  | waiting
  | admitting (attempts : Nat) (otherGateways : List String)
  | touching (record : RedisConnectionRecord)
  | removing (records : List RedisConnectionRecord)
  | kicking (record : RedisConnectionRecord)
  | published (record : RedisConnectionRecord)
  | commanded (record : RedisConnectionRecord)
  | finished

structure State where
  store : Store
  phase : Nat → Phase

def initial : State where
  store := emptyStore
  phase _ := .waiting

def State.move (state : State) (id : Nat) (phase : Phase) : State :=
  { state with phase := Function.update state.phase id phase }

def State.write (state : State) (id : Nat) (store : Store) : State where
  store := store
  phase := Function.update state.phase id .finished

def admitAttempts : Nat := 3

-- The gateways to declare on the next attempt.
def declareMore (ownGateway : String) (others reported : List String) : List String :=
  reported.foldl
    (fun others gatewayId =>
      if gatewayId ≠ ownGateway ∧ ¬ others.contains gatewayId then others ++ [gatewayId]
      else others)
    others

def admitStep (admission : Admission) (attempts : Nat) (others : List String) (state : State)
    (id : Nat) : State :=
  let script := admitConnectionScript admission.record
    (admission.session.gatewayId :: others) admission.session.userId admission.strategy
    admission.maxDevices state.store
  match script.2 with
  | .failed _ => state.move id .finished
  | .retryWith gatewayIds =>
    state.move id (.admitting attempts
      (declareMore admission.session.gatewayId others gatewayIds))
  | .evicted _ => state.write id script.1

def touchRead (key : SessionKey) (sessionId : String) (state : State) (id : Nat) : State :=
  match hget state.store key sessionId with
  | none => state.move id .finished
  | some record =>
    if record.tenantId ≠ key.tenantId then state.move id .finished
    else state.move id (.touching record)

def touchWrite (key : SessionKey) (sessionId : String) (record : RedisConnectionRecord)
    (now : Int) (state : State) (id : Nat) : State :=
  state.write id (hset state.store key sessionId { record with lastSeen := now })

-- `load_user_records`.
def loadUserRecords (key : SessionKey) (state : State) (id : Nat) : State :=
  let records := hvals state.store key
  if records.any fun record => record.tenantId != key.tenantId then state.move id .finished
  else state.move id (.removing records)

def kickRead (key : SessionKey) (sessionId : String) (state : State) (id : Nat) : State :=
  match hget state.store key sessionId with
  | none => state.move id .finished
  | some record =>
    if record.tenantId ≠ key.tenantId ∨ record.connectionId = "" then state.move id .finished
    else state.move id (.kicking record)

inductive Action where
  -- the next round trip of a call, and the seconds its clock shows
  | advance (id : Nat) (now : Int)
  -- the next round trip of a call fails
  | fail (id : Nat)
  -- a worker carries out a stored kick command
  | confirm (id : Nat)

def advance (state : State) (id : Nat) (now : Int) : Call → Phase → Option State
  | .saveConnection session, .waiting =>
    some (state.write id (writeConnection session.key (recordFromConnection session) state.store))
  | .admitConnection admission, .waiting =>
    if admission.gatewayConnectionId = "" then some (state.move id .finished)
    else some (admitStep admission (admitAttempts - 1) [] state id)
  | .admitConnection admission, .admitting (attempts + 1) others =>
    some (admitStep admission attempts others state id)
  | .admitConnection _, .admitting 0 _ => some (state.move id .finished)
  | .touchConnection key sessionId, .waiting => some (touchRead key sessionId state id)
  | .touchConnection key sessionId, .touching record =>
    some (touchWrite key sessionId record now state id)
  | .removeConnection key _, .waiting => some (loadUserRecords key state id)
  | .removeConnection key sessionId, .removing records =>
    some (state.write id (removeConnection key sessionId records state.store))
  | .removeConnectionForKick key sessionId _, .waiting => some (kickRead key sessionId state id)
  | .removeConnectionForKick _ _ audited, .kicking record =>
    some (state.move id (if audited then .commanded record else .published record))
  | .removeConnectionForKick key sessionId _, .published record =>
    some (state.write id (removeForKickScript key sessionId record state.store).1)
  | .removeUserConnections key _, .waiting => some (loadUserRecords key state id)
  | .removeUserConnections key deviceIds, .removing records =>
    some (state.write id (removeUserConnections key deviceIds records state.store))
  | _, _ => none

-- The command of an audited kick freezes its target, and any number of workers carry it out.
def confirm (state : State) : Call → Phase → Option State
  | .removeConnectionForKick key _ _, .commanded record =>
    some { state with
      store := (removeForKickScript key record.conversationId record state.store).1 }
  | _, _ => none

-- A round trip that fails ends its call, but a stored command stays; one whose answer is lost
-- has the effect of one that succeeds.
def step (calls : Nat → Call) (state : State) : Action → Option State
  | .advance id now => advance state id now (calls id) (state.phase id)
  | .fail id =>
    match state.phase id with
    | .commanded _ => none
    | _ => some (state.move id .finished)
  | .confirm id => confirm state (calls id) (state.phase id)

end FlareIm.SessionRegistry
