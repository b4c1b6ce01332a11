import FlareIm.Lib.Framed
import Mathlib.Data.Finset.Basic
import Mathlib.Data.Int.Order.Basic
import Mathlib.Data.List.AList
import Mathlib.Data.String.Basic

namespace FlareIm.SessionStore

open Framed

structure RedisConnectionRecord where
  conversationId : String
  gatewayId : String
  serverId : String
  deviceId : String
  devicePlatform : String
  connectionId : String
  createdAt : Int
  lastSeen : Int
  devicePriority : Int
  tokenVersion : Int
  tenantId : String
  deriving DecidableEq

-- The hash of a user's sessions is stored under the tenant and the user. A tenant id has no
-- colon, so the key tells the two apart.
@[ext] structure SessionKey where
  tenantId : String
  userId : String
  deriving DecidableEq

abbrev SessionHash := AList fun _ : String => RedisConnectionRecord

-- The keys of the session Redis: the hash of each user, the index of each tenant and the
-- connection set of each gateway.
structure Store where
  sessions : SessionKey → SessionHash
  tenantSessions : String → Finset String
  gatewayConns : String → Finset String

def emptyStore : Store where
  sessions _ := ∅
  tenantSessions _ := ∅
  gatewayConns _ := ∅

def tenantSessionMember (userId deviceId : String) : String :=
  String.ofList ("v2:".toList ++ frame userId.toList deviceId.toList)

def gatewayMember (tenantId userId sessionField : String) : String :=
  String.ofList ("v1:".toList ++ frame tenantId.toList (frame userId.toList sessionField.toList))

section Commands

variable (store : Store)

def hset (key : SessionKey) (field : String) (record : RedisConnectionRecord) : Store :=
  { store with
    sessions := Function.update store.sessions key ((store.sessions key).insert field record) }

def hdel (key : SessionKey) (field : String) : Store :=
  { store with sessions := Function.update store.sessions key ((store.sessions key).erase field) }

def del (key : SessionKey) : Store :=
  { store with sessions := Function.update store.sessions key ∅ }

def addTenantSession (tenantId member : String) : Store :=
  { store with
    tenantSessions :=
      Function.update store.tenantSessions tenantId (insert member (store.tenantSessions tenantId)) }

def removeTenantSession (tenantId member : String) : Store :=
  { store with
    tenantSessions :=
      Function.update store.tenantSessions tenantId ((store.tenantSessions tenantId).erase member) }

def addGatewayConn (gatewayId member : String) : Store :=
  { store with
    gatewayConns :=
      Function.update store.gatewayConns gatewayId (insert member (store.gatewayConns gatewayId)) }

def removeGatewayConn (gatewayId member : String) : Store :=
  { store with
    gatewayConns :=
      Function.update store.gatewayConns gatewayId ((store.gatewayConns gatewayId).erase member) }

def hget (key : SessionKey) (field : String) : Option RedisConnectionRecord :=
  (store.sessions key).lookup field

def hgetall (key : SessionKey) : List (String × RedisConnectionRecord) :=
  (store.sessions key).entries.map fun entry => (entry.1, entry.2)

def hvals (key : SessionKey) : List RedisConnectionRecord :=
  (hgetall store key).map (·.2)

end Commands

section Admission

inductive DeviceConflictStrategy where
  | exclusive
  | platformExclusive
  | coexist

inductive EvictionCause where
  | replaced
  | deviceConflict
  | deviceCap
  deriving DecidableEq

structure EvictedConnection where
  conversationId : String
  deviceId : String
  connectionId : String
  cause : EvictionCause
  deriving DecidableEq

inductive AdmissionReply where
  | failed (error : String)
  | retryWith (gatewayIds : List String)
  | evicted (connections : List EvictedConnection)
  deriving DecidableEq

variable (new : RedisConnectionRecord)

def existingError (record : RedisConnectionRecord) : Option String :=
  if record.tenantId ≠ new.tenantId ∨ record.connectionId = "" ∨ record.deviceId = "" then
    some "invalid existing tenant session"
  else if record.connectionId = new.connectionId then some "physical connection already admitted"
  else none

-- Each device with the earliest time one of its sessions was created, a millisecond timestamp
-- that the script's doubles hold exactly.
def noteDevice (devices : List (String × Int)) (record : RedisConnectionRecord) :
    List (String × Int) :=
  if devices.any (·.1 == record.deviceId) then
    devices.map fun device =>
      if device.1 = record.deviceId then (device.1, min device.2 record.createdAt) else device
  else devices ++ [(record.deviceId, record.createdAt)]

def devicesOf (records : List RedisConnectionRecord) : List (String × Int) :=
  records.foldl noteDevice []

def conflictCause (strategy : DeviceConflictStrategy) (record : RedisConnectionRecord) :
    Option EvictionCause :=
  if record.deviceId = new.deviceId then some .replaced
  else
    match strategy with
    | .exclusive => some .deviceConflict
    | .platformExclusive =>
      if record.devicePlatform = new.devicePlatform then some .deviceConflict else none
    | .coexist => none

-- The devices to remove, each with why; what is noted last stands.
abbrev RemovedDevices := List (String × EvictionCause)

def RemovedDevices.cause (removed : RemovedDevices) (deviceId : String) : Option EvictionCause :=
  List.lookup deviceId removed

def conflictingDevices (strategy : DeviceConflictStrategy)
    (records : List RedisConnectionRecord) : RemovedDevices :=
  records.foldl
    (fun removed record =>
      match conflictCause new strategy record with
      | some cause => (record.deviceId, cause) :: removed
      | none => removed)
    []

def isOlder (device other : String × Int) : Bool :=
  decide (device.2 < other.2) || (device.2 == other.2 && decide (device.1 < other.1))

def oldestDevice (devices : List (String × Int)) (removed : RemovedDevices) :
    Option (String × Int) :=
  (devices.filter fun device => (removed.cause device.1).isNone).foldl
    (fun oldest device =>
      match oldest with
      | none => some device
      | some other => if isOlder device other then some device else some other)
    none

-- While too many devices remain, the oldest of them goes.
def evictOverCap (devices : List (String × Int)) (cap : Nat) :
    Nat → RemovedDevices → RemovedDevices
  | 0, removed => removed
  | remaining + 1, removed =>
    if cap ≤ remaining + 1 then
      match oldestDevice devices removed with
      | none => removed
      | some device => evictOverCap devices cap remaining ((device.1, .deviceCap) :: removed)
    else removed

def removedDevices (strategy : DeviceConflictStrategy) (cap : Nat)
    (records : List RedisConnectionRecord) : RemovedDevices :=
  let devices := devicesOf records
  let removed := conflictingDevices new strategy records
  if 0 < cap then
    evictOverCap devices cap
      (devices.filter fun device => (removed.cause device.1).isNone).length removed
  else removed

-- A session of the hash that goes with its device.
structure Eviction where
  field : String
  record : RedisConnectionRecord
  cause : EvictionCause

def evictionsOf (removed : RemovedDevices) (current : List (String × RedisConnectionRecord)) :
    List Eviction :=
  current.filterMap fun item =>
    (removed.cause item.2.deviceId).map fun cause => ⟨item.1, item.2, cause⟩

def evict (key : SessionKey) (store : Store) (eviction : Eviction) : Store :=
  removeGatewayConn (hdel store key eviction.field) eviction.record.gatewayId
    (gatewayMember eviction.record.tenantId key.userId eviction.field)

-- A session is saved with its members in both indexes.
def writeConnection (key : SessionKey) (record : RedisConnectionRecord) (store : Store) : Store :=
  addGatewayConn
    (addTenantSession (hset store key record.conversationId record) record.tenantId
      (tenantSessionMember key.userId record.deviceId))
    record.gatewayId (gatewayMember record.tenantId key.userId record.conversationId)

-- `ADMIT_CONNECTION_SCRIPT`, with the gateways whose connection sets are declared.
def admitConnectionScript (declared : List String) (userId : String)
    (strategy : DeviceConflictStrategy) (cap : Nat) (store : Store) : Store × AdmissionReply :=
  let key : SessionKey := ⟨new.tenantId, userId⟩
  let current := hgetall store key
  match (current.map (·.2)).findSome? (existingError new) with
  | some error => (store, .failed error)
  | none =>
    let removed := removedDevices new strategy cap (current.map (·.2))
    let evictions := evictionsOf removed current
    let undeclared := (evictions.map (·.record.gatewayId)).filter fun gatewayId =>
      !declared.contains gatewayId
    if undeclared ≠ [] then (store, .retryWith undeclared)
    else
      let emptied := evictions.foldl (evict key) store
      let unindexed := removed.foldl
        (fun store device =>
          removeTenantSession store new.tenantId (tenantSessionMember userId device.1))
        emptied
      (writeConnection key new unindexed,
        .evicted (evictions.map fun eviction =>
          { conversationId := eviction.record.conversationId
            deviceId := eviction.record.deviceId
            connectionId := eviction.record.connectionId
            cause := eviction.cause }))

end Admission

section Removal

-- `unindex_if_last`: a member stays while another of the records read has its device.
def unindexIfLast (userId : String) (remaining : List RedisConnectionRecord)
    (removed : RedisConnectionRecord) (store : Store) : Store :=
  if remaining.any fun record =>
      record.deviceId == removed.deviceId && record.conversationId != removed.conversationId then
    store
  else
    removeTenantSession store removed.tenantId (tenantSessionMember userId removed.deviceId)

-- The transaction of `remove_connection`, built from the records it has read.
def removeConnection (key : SessionKey) (sessionId : String)
    (records : List RedisConnectionRecord) (store : Store) : Store :=
  match records.find? fun record => record.conversationId == sessionId with
  | none => hdel store key sessionId
  | some removed =>
    removeGatewayConn
      (unindexIfLast key.userId records removed (hdel store key sessionId))
      removed.gatewayId (gatewayMember key.tenantId key.userId sessionId)

-- What goes with one record in `remove_user_connections`.
def unindexRecord (key : SessionKey) (store : Store) (record : RedisConnectionRecord) : Store :=
  removeGatewayConn
    (removeTenantSession store record.tenantId (tenantSessionMember key.userId record.deviceId))
    record.gatewayId (gatewayMember key.tenantId key.userId record.conversationId)

def removeUserConnections (key : SessionKey) (deviceIds : Option (List String))
    (records : List RedisConnectionRecord) (store : Store) : Store :=
  match deviceIds with
  | some deviceIds =>
    (records.filter fun record => deviceIds.contains record.deviceId).foldl
      (fun store record => unindexRecord key (hdel store key record.conversationId) record) store
  | none => records.foldl (unindexRecord key) (del store key)

inductive KickReply where
  | failed (error : String)
  | absent
  | removed (connectionId : String)

-- `REMOVE_FOR_KICK` for a session, with its physical connection and gateway as read before.
def removeForKickScript (key : SessionKey) (sessionId : String) (target : RedisConnectionRecord)
    (store : Store) : Store × KickReply :=
  match hget store key sessionId with
  | none => (store, .absent)
  | some record =>
    if record.tenantId ≠ key.tenantId ∨ record.connectionId = "" then
      (store, .failed "invalid kick session")
    else if record.connectionId ≠ target.connectionId then (store, .absent)
    else
      let keep := (hvals store key).any fun other =>
        other.conversationId != record.conversationId && other.deviceId == record.deviceId
      let emptied := hdel store key sessionId
      let unindexed :=
        if keep then emptied
        else removeTenantSession emptied key.tenantId
          (tenantSessionMember key.userId record.deviceId)
      (removeGatewayConn unindexed target.gatewayId
        (gatewayMember key.tenantId key.userId sessionId),
        .removed record.connectionId)

end Removal

end FlareIm.SessionStore
