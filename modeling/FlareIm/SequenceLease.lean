import FlareIm.Lib.Transition
import Mathlib.Logic.Function.Basic

namespace FlareIm.SequenceLease

section Allocator

structure SequenceRange where
  next : Nat
  end_ : Nat

def SequenceRange.takeNext (range : SequenceRange) : Option (Nat × SequenceRange) :=
  if range.next > range.end_ then none
  else some (range.next, { range with next := range.next + 1 })

inductive LeaseOutcome where
  | granted (fencingToken start end_ : Nat)
  | notOwner
  deriving DecidableEq

structure ConvState where
  segment : SequenceRange
  fencingToken : Nat
  localValidUntil : Nat

-- A node, with what its allocators are made with. Times are in milliseconds.
structure Node where
  nodeId : String
  segmentSize : Nat
  leaseTtl : Nat
  localMargin : Nat

-- The sizes and times as the constructor keeps them.
def Node.segment (node : Node) : Nat := max node.segmentSize 1
def Node.ttl (node : Node) : Nat := max node.leaseTtl 1
def Node.margin (node : Node) : Nat := min node.localMargin (node.ttl - 1)

-- How long a lease is good for locally, from the clock value of the call that asked for it.
def Node.validFor (node : Node) : Nat := node.ttl - node.margin

-- What the leases, the fences and the counters of a conversation are stored under.
def convKey (tenantId conversationId : String) : String :=
  tenantId ++ ":" ++ conversationId

end Allocator

section System

inductive Call where
  | allocate (process : Nat) (tenantId conversationId : String)
  | allocateSeq (tenantId conversationId : String)
  | allocateSeqWithFloor (tenantId conversationId : String) (floor : Nat)
  | allocateBatch (tenantId conversationId : String)

def Call.tenantId : Call → String
  | .allocate _ tenantId _ | .allocateSeq tenantId _ | .allocateSeqWithFloor tenantId _ _
  | .allocateBatch tenantId _ => tenantId

def Call.conversationId : Call → String
  | .allocate _ _ conversationId | .allocateSeq _ conversationId
  | .allocateSeqWithFloor _ conversationId _ | .allocateBatch _ conversationId => conversationId

def Call.key (call : Call) : String := convKey call.tenantId call.conversationId

-- The nodes, the processes that are started on them one after the other, and the calls.
structure Setup where
  node : Nat → Node
  host : Nat → Nat
  call : Nat → Call
  batchSize : Nat
  ids_distinct : Function.Injective fun index => (node index).nodeId

-- `{node_id}:{token}`, with the time it expires at. The node is the one that wrote it.
structure Lease where
  node : Nat
  token : Nat
  expiresAt : Nat

inductive Status where
  | unstarted
  | running
  | crashed
  deriving DecidableEq

-- A script on its way is run even when the call that sent it is over.
inductive Phase where
  | waiting
  | locking (sampled : Nat)
  | refilling (sampled : Nat) (expected : Option Nat)
  | replied (sampled : Nat) (outcome : LeaseOutcome)
  | abandoned (expected : Option Nat)
  | finished
  deriving DecidableEq

-- A number that a call has returned, when it did, and the deadline of the lease the number came
-- with.
structure Handed where
  call : Nat
  tenantId : String
  conversationId : String
  seq : Nat
  time : Nat
  deadline : Option Nat
  deriving DecidableEq

def Handed.key (entry : Handed) : String := convKey entry.tenantId entry.conversationId

-- `running` is the process of a node, `began` what had been returned when a call started.
structure State where
  now : Nat
  counter : String → Nat
  fence : String → Nat
  lease : String → Option Lease
  status : Nat → Status
  running : Nat → Option Nat
  windows : Nat → String → Option ConvState
  lock : Nat → Option Nat
  phases : Nat → Phase
  handed : List Handed
  began : Nat → List Handed

def initial : State where
  now := 0
  counter _ := 0
  fence _ := 0
  lease _ := none
  status _ := .unstarted
  running _ := none
  windows _ _ := none
  lock _ := none
  phases _ := .waiting
  handed := []
  began _ := []

inductive Action where
  | tick (elapsed : Nat)
  | start (process : Nat)
  | crash (process : Nat)
  | expire (key : String)
  | begin_ (call : Nat)
  | lock (call : Nat)
  | script (call : Nat)
  | reply (call : Nat)
  -- the call ends with an error or is cancelled
  | fail (call : Nat)
  | direct (call : Nat) (answered : Bool)

variable (setup : Setup) (state : State)

def Setup.nodeOf (process : Nat) : Node := setup.node (setup.host process)

def State.move (call : Nat) (phase : Phase) : State :=
  { state with phases := Function.update state.phases call phase }

def State.unlock (process : Nat) : State :=
  { state with lock := Function.update state.lock process none }

def State.setWindow (process : Nat) (key : String) (window : Option ConvState) : State :=
  { state with
    windows := Function.update state.windows process
      (Function.update (state.windows process) key window) }

-- A call returns a number.
def State.handOut (call seq : Nat) (deadline : Option Nat) : State :=
  { state with
    handed := ⟨call, (setup.call call).tenantId, (setup.call call).conversationId, seq, state.now,
      deadline⟩ :: state.handed }

-- `INCRBY` and the like. Counters stay below the integers that a script can tell apart.
def State.setCounter (key : String) (value : Nat) : Option State :=
  if value < 2 ^ 53 then some { state with counter := Function.update state.counter key value }
  else none

-- The script takes the text before the first colon for the owner and the rest for the token.
def Lease.owner (lease : Lease) : List Char :=
  (setup.node lease.node).nodeId.toList.takeWhile (· ≠ ':')

def Lease.parsedToken (lease : Lease) : Option Nat :=
  if ':' ∈ (setup.node lease.node).nodeId.toList then none else some lease.token

def grant (token : Option Nat) (start end_ : Nat) : LeaseOutcome :=
  match token with
  | some token => .granted token start end_
  -- the answer ends before the token
  | none => .notOwner

-- `LEASE_REFILL_LUA`.
def leaseRefill (index : Nat) (key : String) (expected : Option Nat) :
    Option (State × LeaseOutcome) :=
  let node := setup.node index
  let end_ := state.counter key + node.segment
  match state.lease key with
  | some lease =>
    if lease.owner setup ≠ node.nodeId.toList then some (state, .notOwner)
    else if expected.any fun token => lease.parsedToken setup ≠ some token then
      some (state, .notOwner)
    else
      (state.setCounter key end_).map fun refilled =>
        ({ refilled with
            lease := Function.update state.lease key
              (some { lease with expiresAt := state.now + node.ttl }) },
          grant (lease.parsedToken setup) (end_ - node.segment + 1) end_)
  | none =>
    let token := state.fence key + 1
    (state.setCounter key end_).map fun refilled =>
      ({ refilled with
          fence := Function.update state.fence key token
          lease := Function.update state.lease key
            (some ⟨index, token, state.now + node.ttl⟩) },
        grant (some token) (end_ - node.segment + 1) end_)

def processOf : Call → Option Nat
  | .allocate process _ _ => some process
  | _ => none

-- A node has one process at a time.
def startProcess (process : Nat) : Option State :=
  if state.status process = .unstarted ∧ state.running (setup.host process) = none then
    some { state with
      status := Function.update state.status process .running
      running := Function.update state.running (setup.host process) (some process) }
  else none

def Phase.drop : Phase → Phase
  | .refilling _ expected => .abandoned expected
  | .waiting => .waiting
  | .abandoned expected => .abandoned expected
  | _ => .finished

def crashProcess (process : Nat) : Option State :=
  if state.status process = .running then
    some { state with
      status := Function.update state.status process .crashed
      running := Function.update state.running (setup.host process) none
      windows := Function.update state.windows process fun _ => none
      lock := Function.update state.lock process none
      phases := fun call =>
        if processOf (setup.call call) = some process then (state.phases call).drop
        else state.phases call }
  else none

-- The clock is read before the lock is waited for.
def beginAllocate (call process : Nat) : Option State :=
  if state.phases call = .waiting ∧ state.status process = .running then
    some { state.move call (.locking state.now) with
      began := Function.update state.began call state.handed }
  else none

-- The window and its next number, if the call may use it.
def fastPath (process : Nat) (key : String) (sampled : Nat) :
    Option (ConvState × Nat × SequenceRange) :=
  (state.windows process key).bind fun window =>
    if sampled < window.localValidUntil then
      window.segment.takeNext.map fun taken => (window, taken.1, taken.2)
    else none

def lockAllocate (call process : Nat) (key : String) : Option State :=
  match state.phases call, state.lock process with
  | .locking sampled, none =>
    match fastPath state process key sampled with
    | some (window, seq, segment) =>
      some ((((state.setWindow process key (some { window with segment })).handOut setup call
        seq (some window.localValidUntil))).move call .finished)
    | none =>
      some { state.move call
          (.refilling sampled ((state.windows process key).map (·.fencingToken))) with
        lock := Function.update state.lock process (some call) }
  | _, _ => none

def scriptAllocate (call process : Nat) (key : String) : Option State :=
  match state.phases call with
  | .refilling sampled expected =>
    (leaseRefill setup state (setup.host process) key expected).map fun result =>
      result.1.move call (.replied sampled result.2)
  | .abandoned expected =>
    (leaseRefill setup state (setup.host process) key expected).map fun result =>
      result.1.move call .finished
  | _ => none

def replyAllocate (call process : Nat) (key : String) : Option State :=
  match state.phases call with
  | .replied sampled (.granted token start end_) =>
    match (SequenceRange.mk start end_).takeNext with
    | some (seq, segment) =>
      let deadline := sampled + (setup.nodeOf process).validFor
      some ((((state.setWindow process key (some ⟨segment, token, deadline⟩)).handOut setup
        call seq (some deadline)).move call .finished).unlock process)
    | none => some (((state.setWindow process key none).move call .finished).unlock process)
  | .replied _ .notOwner =>
    some (((state.setWindow process key none).move call .finished).unlock process)
  | _ => none

def failAllocate (call process : Nat) : Option State :=
  match state.phases call with
  | .locking _ => some (state.move call .finished)
  | .refilling _ expected => some ((state.move call (.abandoned expected)).unlock process)
  | .replied _ _ => some ((state.move call .finished).unlock process)
  | _ => none

-- The numbers that an allocation without a lease takes, with the counter after it.
def directNumbers (key : String) : Call → Option (Nat × List Nat)
  | .allocate _ _ _ => none
  | .allocateSeq _ _ => some (state.counter key + 1, [state.counter key + 1])
  | .allocateSeqWithFloor _ _ floor =>
    some (max (state.counter key) floor + 1, [max (state.counter key) floor + 1])
  | .allocateBatch _ _ =>
    let size := max setup.batchSize 1
    let end_ := state.counter key + size
    some (end_, List.range' (end_ - size + 1) (end_ + 1 - (end_ - size + 1)))

def directAllocate (call : Nat) (answered : Bool) : Option State :=
  if state.phases call = .waiting then
    (directNumbers setup state (setup.call call).key (setup.call call)).bind fun numbers =>
      (state.setCounter (setup.call call).key numbers.1).map fun counted =>
        (if answered then
          numbers.2.foldl (fun state seq => state.handOut setup call seq none) counted
        else counted).move call .finished
  else none

def onAllocate (call : Nat) (act : Nat → String → Option State) : Option State :=
  match setup.call call with
  | .allocate process tenantId conversationId => act process (convKey tenantId conversationId)
  | _ => none

def step : Action → Option State
  | .tick elapsed => some { state with now := state.now + elapsed }
  | .start process => startProcess setup state process
  | .crash process => crashProcess setup state process
  | .expire key => some { state with lease := Function.update state.lease key none }
  | .begin_ call => onAllocate setup call fun process _ => beginAllocate state call process
  | .lock call => onAllocate setup call fun process key =>
    lockAllocate setup state call process key
  | .script call => onAllocate setup call fun process key =>
    scriptAllocate setup state call process key
  | .reply call => onAllocate setup call fun process key =>
    replyAllocate setup state call process key
  | .fail call => onAllocate setup call fun process _ => failAllocate state call process
  | .direct call answered => directAllocate setup state call answered

end System

end FlareIm.SequenceLease
