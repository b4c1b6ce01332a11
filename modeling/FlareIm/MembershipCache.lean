import FlareIm.OperationPolicy
import Mathlib.Logic.Function.Basic

namespace FlareIm.MembershipCache

open OperationPolicy

def MEMBER_CACHE_TTL : Nat := 30000

structure Key where
  tenantId : String
  conversationId : String
  userId : String
  deriving DecidableEq

-- What the conversation service makes of a lookup.
inductive Reply where
  | participants (userIds : List String)
  | invalidArgument
  | failed
  | timedOut

-- A lookup of an id that the service refuses finds nobody. Everything else but a list is an outage.
def memberOf (userId : String) : Reply → Option Bool
  | .participants userIds => some (userIds.any (· == userId))
  | .invalidArgument => some false
  | .failed | .timedOut => none

-- When a lookup started: after how many steps, and at which time.
structure Lookup where
  step : Nat
  startedMs : Nat

-- A member's entry in the cache, with the lookup it comes from.
structure Entry where
  lookup : Lookup
  writtenMs : Nat

-- How far a call of is_member is. `began` is the number of steps before it.
inductive Phase where
  | idle
  | begun (key : Key) (read : MembershipRead) (began : Nat)
  | missed (key : Key) (read : MembershipRead) (began : Nat)
  | looking (key : Key) (read : MembershipRead) (began : Nat) (lookup : Lookup)
  | found (key : Key) (read : MembershipRead) (began : Nat) (lookup : Lookup) (member : Bool)

-- What a call was answered, from which lookup and when.
structure Answer where
  key : Key
  read : MembershipRead
  began : Nat
  lookup : Lookup
  member : Bool
  step : Nat
  nowMs : Nat

structure State where
  steps : Nat := 0
  now : Nat := 0
  members : Key → Bool := fun _ => false
  cache : Key → Option Entry := fun _ => none
  phase : Nat → Phase := fun _ => .idle
  answers : List Answer := []

-- The steps of the calls between their awaits, of the members, of the cache, which may drop an
-- entry at any time, and of the clock. A call quits when its lookup fails or it is dropped.
inductive Action where
  | tick (ms : Nat)
  | change (key : Key) (member : Bool)
  | evict (key : Key)
  | begin (call : Nat) (key : Key) (read : MembershipRead)
  | consult (call : Nat)
  | lookUp (call : Nat)
  | answer (call : Nat) (fault : Option Reply)
  | write (call : Nat)
  | quit (call : Nat)

variable (ttl : Nat)

def Entry.isLive (entry : Entry) (now : Nat) : Bool := decide (now < entry.writtenMs + ttl)

-- The entry a read takes its answer from, if it does not ask the service.
def cached (state : State) (key : Key) : MembershipRead → Option Entry
  | .recent => (state.cache key).filter (·.isLive ttl state.now)
  | .current => none

def reply (state : State) (key : Key) : Reply :=
  .participants (if state.members key then [key.userId] else [])

def State.goTo (state : State) (call : Nat) (phase : Phase) : State :=
  { state with phase := Function.update state.phase call phase }

def State.respond (state : State) (key : Key) (read : MembershipRead) (began : Nat)
    (lookup : Lookup) (member : Bool) : State :=
  { state with answers := ⟨key, read, began, lookup, member, state.steps, state.now⟩ ::
      state.answers }

-- A member is inserted, with a new lifetime. Who is none is invalidated.
def State.remember (state : State) (key : Key) (lookup : Lookup) (member : Bool) : State :=
  { state with
    cache := Function.update state.cache key
      (if member then some ⟨lookup, state.now⟩ else none) }

def act (state : State) : Action → Option State
  | .tick ms => some { state with now := state.now + ms }
  | .change key member => some { state with members := Function.update state.members key member }
  | .evict key => some { state with cache := Function.update state.cache key none }
  | .begin call key read =>
    match state.phase call with
    | .idle => some (state.goTo call (.begun key read state.steps))
    | _ => none
  | .consult call =>
    match state.phase call with
    | .begun key read began =>
      match cached ttl state key read with
      | some entry => some ((state.respond key read began entry.lookup true).goTo call .idle)
      | none => some (state.goTo call (.missed key read began))
    | _ => none
  | .lookUp call =>
    match state.phase call with
    | .missed key read began =>
      some (state.goTo call (.looking key read began ⟨state.steps, state.now⟩))
    | _ => none
  | .answer call fault =>
    match state.phase call with
    | .looking key read began lookup =>
      match memberOf key.userId (fault.getD (reply state key)) with
      | some member => some (state.goTo call (.found key read began lookup member))
      | none => some (state.goTo call .idle)
    | _ => none
  | .write call =>
    match state.phase call with
    | .found key read began lookup member =>
      some (((state.remember key lookup member).respond key read began lookup member).goTo call
        .idle)
    | _ => none
  | .quit call => some (state.goTo call .idle)

def step (state : State) (action : Action) : Option State :=
  (act ttl state action).map fun next => { next with steps := state.steps + 1 }

end FlareIm.MembershipCache
