import FlareIm.Lib.Listing
import FlareIm.Lib.Tally
import FlareIm.Lib.Transition

namespace FlareIm.UsageReporter

open Tally Transition

section Meters

inductive Counter where
  | messagesAccepted (category : String)
  | messagesPersisted
  | pushAttempts (provider result : String)
  | mediaBytesStored (op : String)
  | mediaBytesEgress
  | apiCalls (routeGroup : String)
  deriving DecidableEq

def CONNECTIONS_PEAK : String := "connections.peak"
def CONNECTION_MINUTES : String := "connection.minutes"

def Counter.meter : Counter → String
  | .messagesAccepted _ => "messages.accepted"
  | .messagesPersisted => "messages.persisted"
  | .pushAttempts _ _ => "push.attempts"
  | .mediaBytesStored _ => "media.bytes_stored"
  | .mediaBytesEgress => "media.bytes_egress"
  | .apiCalls _ => "api.calls"

def Counter.dims : Counter → List (String × String)
  | .messagesAccepted category => [("category", category)]
  | .messagesPersisted | .mediaBytesEgress => []
  | .pushAttempts provider result => [("provider", provider), ("result", result)]
  | .mediaBytesStored op => [("op", op)]
  | .apiCalls routeGroup => [("route_group", routeGroup)]

-- The derived order: the constructor first, then its fields.
def Counter.rank : Counter → Nat × List String
  | .messagesAccepted category => (0, [category])
  | .messagesPersisted => (1, [])
  | .pushAttempts provider result => (2, [provider, result])
  | .mediaBytesStored op => (3, [op])
  | .mediaBytesEgress => (4, [])
  | .apiCalls routeGroup => (5, [routeGroup])

def Counter.le (a b : Counter) : Bool :=
  a.rank.1 < b.rank.1 || a.rank.1 == b.rank.1 && decide (a.rank.2 ≤ b.rank.2)

structure MeterReading where
  meter : String
  dims : List (String × String)
  value : Nat
  deriving DecidableEq

def Counter.reading (counter : Counter) (value : Nat) : MeterReading :=
  ⟨counter.meter, counter.dims, value⟩

-- The reading is of the counter's series.
def MeterReading.isOf (reading : MeterReading) (counter : Counter) : Bool :=
  reading.meter = counter.meter ∧ reading.dims = counter.dims

def U64_MAX : Nat := 2 ^ 64 - 1

def saturatingAdd (total : Nat) (value : UInt64) : Nat :=
  min (total + value.toNat) U64_MAX

end Meters

section Window

structure UsageLimits where
  maxCounterSeries : Nat
  maxTrackedActiveUsers : Nat
  maxPendingActiveUsers : Nat
  maxBacklogEvents : Nat
  maxBacklogBytes : Nat

structure ActiveUsers where
  day : Nat
  seen : List UInt64
  pending : List (Nat × List UInt64)

def noUsers : ActiveUsers := ⟨0, [], []⟩

structure WindowState where
  counters : List (String × List (Counter × Nat))
  counterSeries : Nat
  active : List (String × ActiveUsers)
  activeSeen : Nat
  activePending : Nat

def emptyWindow : WindowState := ⟨[], 0, [], 0, 0⟩

def pendingSize (users : ActiveUsers) : Nat :=
  total List.length users.pending

variable (window : WindowState) (tenant : String) (limits : UsageLimits)

-- A new series needs room; `false` when there is none.
def WindowState.add (counter : Counter) (value : UInt64) : WindowState × Bool :=
  let counters := modify tenant [] (modify counter 0 (saturatingAdd · value)) window.counters
  if counter ∈ (valueAt tenant [] window.counters).map (·.1) then
    ({ window with counters := counters }, true)
  else if window.counterSeries ≥ limits.maxCounterSeries then (window, false)
  else ({ window with counters := counters, counterSeries := window.counterSeries + 1 }, true)

-- A later day starts a new set of seen users.
def WindowState.turnDay (day : Nat) : WindowState :=
  let users := valueAt tenant noUsers window.active
  if day > users.day then
    { window with
      active := modify tenant noUsers (fun users => { users with day := day, seen := [] })
        window.active
      activeSeen := window.activeSeen - users.seen.length }
  else { window with active := modify tenant noUsers id window.active }

-- A record is remembered when it is for the tenant's day and there is room to track it.
def WindowState.remembers (day : Nat) : Bool :=
  day == (valueAt tenant noUsers window.active).day &&
    window.activeSeen < limits.maxTrackedActiveUsers

def ActiveUsers.push (users : ActiveUsers) (day : Nat) (hash : UInt64) (remembered : Bool) :
    ActiveUsers :=
  { users with
    pending := modify day [] (· ++ [hash]) users.pending
    seen := if remembered then hash :: users.seen else users.seen }

def WindowState.isKnown (day : Nat) (hash : UInt64) : Bool :=
  let users := valueAt tenant noUsers window.active
  day == users.day && users.seen.contains hash

def WindowState.queue (day : Nat) (hash : UInt64) : WindowState :=
  let remembered := window.remembers tenant limits day
  { window with
    active := modify tenant noUsers (fun users => users.push day hash remembered) window.active
    activePending := window.activePending + 1
    activeSeen := if remembered then window.activeSeen + 1 else window.activeSeen }

inductive Taken where
  | known
  | queued
  | refused

def WindowState.userActive (day : Nat) (hash : UInt64) : WindowState × Taken :=
  let turned := window.turnDay tenant day
  if turned.isKnown tenant day hash then (turned, .known)
  else if turned.activePending ≥ limits.maxPendingActiveUsers then (turned, .refused)
  else (turned.queue tenant limits day hash, .queued)

-- What a connection gauge adds to a window.
structure ConnectionReading where
  tenant : String
  peak : Nat
  minutes : Nat

def ConnectionReading.meters (reading : ConnectionReading) : List MeterReading :=
  (if reading.peak > 0 then [⟨CONNECTIONS_PEAK, [], reading.peak⟩] else []) ++
    if reading.minutes > 0 then [⟨CONNECTION_MINUTES, [], reading.minutes⟩] else []

structure TenantWindow where
  meters : List MeterReading
  activeUsers : List (Nat × List UInt64)

def TenantWindow.isEmpty (window : TenantWindow) : Bool :=
  window.meters.isEmpty && window.activeUsers.isEmpty

def meterReadings (series : List (Counter × Nat)) : List MeterReading :=
  (series.insertionSort fun a b => a.1.le b.1 = true).map fun entry => entry.1.reading entry.2

def WindowState.tenantWindow (connections : List ConnectionReading) : TenantWindow where
  meters := meterReadings (valueAt tenant [] window.counters) ++
    (connections.filter (·.tenant = tenant)).flatMap (·.meters)
  activeUsers := (valueAt tenant noUsers window.active).pending.insertionSort fun a b => a.1 ≤ b.1

-- The tenants of a window in order.
def WindowState.tenants (connections : List ConnectionReading) : List String :=
  Listing.distinct
    (window.counters.map (·.1) ++ connections.map (·.tenant) ++ window.active.map (·.1))

-- A tenant whose day is over keeps nothing.
def WindowState.takeWindow (connections : List ConnectionReading) (today : Nat) :
    WindowState × List (String × TenantWindow) :=
  let kept := window.active.filter fun entry => entry.2.day ≥ today
  let released := window.active.filter fun entry => ¬entry.2.day ≥ today
  ({ counters := []
     counterSeries := 0
     active := kept.map fun entry => (entry.1, { entry.2 with pending := [] })
     activeSeen := window.activeSeen - total (·.seen.length) released
     activePending := 0 },
    ((window.tenants connections).map fun tenant =>
      (tenant, window.tenantWindow tenant connections)).filter fun entry => !entry.2.isEmpty)

end Window

section Events

def MAX_USER_HASHES_PER_EVENT : Nat := 1000

-- The hashes stand for their sixteen hex digits.
structure ActiveUsersEntry where
  day : Nat
  userHashes : List UInt64
  deriving DecidableEq

structure UsageEvent where
  app : String
  windowStartMs : Int
  part : Nat
  meters : List MeterReading
  activeUsers : Option ActiveUsersEntry
  deriving DecidableEq

def batches (window : TenantWindow) : List ActiveUsersEntry :=
  window.activeUsers.flatMap fun entry =>
    (entry.2.toChunks MAX_USER_HASHES_PER_EVENT).map fun chunk => ⟨entry.1, chunk⟩

-- Part 0 carries the meters and the first batch of users, further parts a batch each.
def tenantEvents (windowStartMs : Int) (app : String) (window : TenantWindow) : List UsageEvent :=
  if window.meters ≠ [] ∨ batches window ≠ [] then
    ⟨app, windowStartMs, 0, window.meters, (batches window).head?⟩ ::
      (batches window).tail.mapIdx fun index batch =>
        ⟨app, windowStartMs, index + 1, [], some batch⟩
  else []

def UsageEvent.messageId (instance_ : String) (event : UsageEvent) : String :=
  instance_ ++ ":" ++ event.app ++ ":" ++ toString event.windowStartMs ++ ":" ++
    toString event.part

structure OutgoingEvent where
  messageId : String
  payload : List UInt8

end Events

section Publisher

-- One reporter. Encoding an event is the JSON library's.
structure Setup where
  instance_ : String
  limits : UsageLimits
  windowMs : Nat
  windowMs_pos : 0 < windowMs
  encode : UsageEvent → Option (List UInt8)

structure Backlog where
  events : List OutgoingEvent
  bytes : Nat
  eventsDropped : Nat
  -- the ids of the events that were dropped
  dropped : List String

variable (setup : Setup)

-- The oldest events go until the rest fits.
def trim (limits : UsageLimits) : List OutgoingEvent → Nat → List OutgoingEvent × Nat × List String
  | [], bytes => ([], bytes, [])
  | oldest :: rest, bytes =>
    if rest.length + 1 > limits.maxBacklogEvents ∨ bytes > limits.maxBacklogBytes then
      let trimmed := trim limits rest (bytes - oldest.payload.length)
      (trimmed.1, trimmed.2.1, oldest.messageId :: trimmed.2.2)
    else (oldest :: rest, bytes, [])

def Backlog.enqueue (backlog : Backlog) (event : OutgoingEvent) : Backlog :=
  let trimmed := trim setup.limits (backlog.events ++ [event])
    (backlog.bytes + event.payload.length)
  { events := trimmed.1
    bytes := trimmed.2.1
    eventsDropped := backlog.eventsDropped + trimmed.2.2.length
    dropped := trimmed.2.2 ++ backlog.dropped }

-- An event that cannot be encoded is dropped.
def Backlog.put (backlog : Backlog) (event : UsageEvent) : Backlog :=
  match setup.encode event with
  | some payload => backlog.enqueue setup ⟨event.messageId setup.instance_, payload⟩
  | none =>
    { backlog with
      eventsDropped := backlog.eventsDropped + 1
      dropped := event.messageId setup.instance_ :: backlog.dropped }

-- The answers of a round line up with the events.
def unacknowledged : List OutgoingEvent → List Bool → List OutgoingEvent
  | [], _ => []
  | event :: rest, answers =>
    if answers.headD false then unacknowledged rest answers.tail
    else event :: unacknowledged rest answers.tail

def acknowledged : List OutgoingEvent → List Bool → List OutgoingEvent
  | [], _ => []
  | event :: rest, answers =>
    if answers.headD false then event :: acknowledged rest answers.tail
    else acknowledged rest answers.tail

def sizeOf (events : List OutgoingEvent) : Nat :=
  (events.map (·.payload.length)).sum

-- A round that is over takes out what was acknowledged; a cancelled one changes nothing.
def Backlog.publish (backlog : Backlog) (answers : List Bool) (finished : Bool) : Backlog :=
  if finished then
    { backlog with
      events := unacknowledged backlog.events answers
      bytes := backlog.bytes - sizeOf (acknowledged backlog.events answers) }
  else backlog

-- What is left at shutdown counts as lost.
def Backlog.giveUp (backlog : Backlog) (answers : List Bool) : Backlog where
  events := []
  bytes := 0
  eventsDropped := backlog.eventsDropped +
    (backlog.events.length - (acknowledged backlog.events answers).length)
  dropped := (unacknowledged backlog.events answers).map (·.messageId) ++ backlog.dropped

end Publisher

section Runs

-- The records a window was given.
structure Increment where
  tenant : String
  counter : Counter
  value : UInt64

structure ActiveUser where
  tenant : String
  day : Nat
  hash : UInt64
  deriving DecidableEq

structure ClosedWindow where
  startMs : Int
  increments : List Increment
  queued : List ActiveUser
  events : List UsageEvent

structure State where
  window : WindowState
  backlog : Backlog
  lastWindowStartMs : Option Int
  shut : Bool
  -- the increments accepted and the users queued in the window in progress, and the windows closed
  increments : List Increment
  queued : List ActiveUser
  closed : List ClosedWindow
  -- every user accepted, and those a later record of which is taken for a new one
  accepted : List ActiveUser
  forgotten : List ActiveUser
  acknowledged : List String

def initial : State where
  window := emptyWindow
  backlog := ⟨[], 0, 0, []⟩
  lastWindowStartMs := none
  shut := false
  increments := []
  queued := []
  closed := []
  accepted := []
  forgotten := []
  acknowledged := []

inductive Action where
  | count (tenant : String) (counter : Counter) (value : UInt64)
  | userActive (tenant : String) (day : Nat) (hash : UInt64)
  | closeWindow (windowStartMs : Int) (connections : List ConnectionReading) (today : Nat)
  | publishBacklog (answers : List Bool) (finished : Bool)
  | shutdownFlush (windowStartMs : Int) (connections : List ConnectionReading) (today : Nat)
      (answers : List Bool)

variable (setup : Setup) (state : State)

def isValidTenantId (tenant : String) : Bool :=
  tenant ≠ "" && tenant.utf8ByteSize ≤ 32 &&
    tenant.toList.all fun c => c.isAlphanum || c == '_' || c == '-'

def count (tenant : String) (counter : Counter) (value : UInt64) : State :=
  if value = 0 ∨ isValidTenantId tenant = false then state
  else
    let added := state.window.add tenant setup.limits counter value
    { state with
      window := added.1
      increments := if added.2 then state.increments ++ [⟨tenant, counter, value⟩]
        else state.increments }

-- The users a tenant's new day, or its end, makes the recorder forget.
def forgottenOf (tenant : String) (users : ActiveUsers) : List ActiveUser :=
  users.seen.map fun hash => ⟨tenant, users.day, hash⟩

def State.turnDay (tenant : String) (day : Nat) : State :=
  let users := valueAt tenant noUsers state.window.active
  { state with
    window := state.window.turnDay tenant day
    forgotten := if day > users.day then forgottenOf tenant users ++ state.forgotten
      else state.forgotten }

def State.queueUser (tenant : String) (day : Nat) (hash : UInt64) : State :=
  { state with
    window := state.window.queue tenant setup.limits day hash
    queued := state.queued ++ [⟨tenant, day, hash⟩]
    accepted := ⟨tenant, day, hash⟩ :: state.accepted
    forgotten := if state.window.remembers tenant setup.limits day then state.forgotten
      else ⟨tenant, day, hash⟩ :: state.forgotten }

def userActive (tenant : String) (day : Nat) (hash : UInt64) : State :=
  if isValidTenantId tenant = false then state
  else
    let turned := state.turnDay tenant day
    match (state.window.userActive tenant setup.limits day hash).2 with
    | .known => { turned with accepted := ⟨tenant, day, hash⟩ :: turned.accepted }
    | .refused => turned
    | .queued => turned.queueUser setup tenant day hash

-- A label is never given twice.
def windowLabel (last : Option Int) (windowStartMs : Int) : Int :=
  match last with
  | some last => if windowStartMs ≤ last then last + setup.windowMs else windowStartMs
  | none => windowStartMs

def closeWindow (windowStartMs : Int) (connections : List ConnectionReading) (today : Nat) : State :=
  let label := windowLabel setup state.lastWindowStartMs windowStartMs
  let taken := state.window.takeWindow connections today
  let events := taken.2.flatMap fun entry => tenantEvents label entry.1 entry.2
  { state with
    window := taken.1
    backlog := events.foldl (fun backlog event => backlog.put setup event) state.backlog
    lastWindowStartMs := some label
    increments := []
    queued := []
    closed := state.closed ++ [⟨label, state.increments, state.queued, events⟩]
    forgotten := (state.window.active.filter fun entry => ¬entry.2.day ≥ today).flatMap
      (fun entry => forgottenOf entry.1 entry.2) ++ state.forgotten }

def publishBacklog (answers : List Bool) (finished : Bool) : State :=
  { state with
    backlog := state.backlog.publish answers finished
    acknowledged := (acknowledged state.backlog.events answers).map (·.messageId) ++
      state.acknowledged }

def shutdownFlush (windowStartMs : Int) (connections : List ConnectionReading) (today : Nat)
    (answers : List Bool) : State :=
  let flushed := closeWindow setup state windowStartMs connections today
  { flushed with
    backlog := flushed.backlog.giveUp answers
    acknowledged := (acknowledged flushed.backlog.events answers).map (·.messageId) ++
      flushed.acknowledged
    shut := true }

def step : Action → Option State
  | .count tenant counter value =>
    if state.shut then none else some (count setup state tenant counter value)
  | .userActive tenant day hash =>
    if state.shut then none else some (userActive setup state tenant day hash)
  | .closeWindow windowStartMs connections today =>
    if state.shut then none else some (closeWindow setup state windowStartMs connections today)
  | .publishBacklog answers finished =>
    if state.shut then none else some (publishBacklog state answers finished)
  | .shutdownFlush windowStartMs connections today answers =>
    if state.shut then none
    else some (shutdownFlush setup state windowStartMs connections today answers)

end Runs

end FlareIm.UsageReporter
