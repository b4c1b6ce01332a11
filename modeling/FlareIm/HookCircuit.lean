import FlareIm.Lib.Retaining
import FlareIm.Lib.Transition

namespace FlareIm.HookCircuit

open Retaining

section Outcomes

inductive HookExecutionOutcome where
  | allowed
  | rejected (reason : String)
  | failed (code : String)
  | timedOut
  | circuitOpen
  deriving DecidableEq

inductive HookExecutionClass where
  | sampled
  | always
  deriving DecidableEq

def HookExecutionOutcome.class : HookExecutionOutcome → HookExecutionClass
  | .allowed | .circuitOpen => .sampled
  | .rejected _ | .failed _ | .timedOut => .always

def HookExecutionOutcome.answered : HookExecutionOutcome → Bool
  | .allowed | .rejected _ => true
  | _ => false

end Outcomes

section Circuits

-- Instants and durations count nanoseconds.
def seconds (count : Nat) : Nat := count * 1000000000

def PROBE_RETRY_AFTER : Nat := seconds 1

def MAX_TRACKED_CIRCUITS : Nat := 100000

def maxU32 : Nat := 2 ^ 32 - 1

def saturatingIncrement (count : Nat) : Nat := min (count + 1) maxU32

structure HookCircuitPolicy where
  enabled : Bool := true
  failureThreshold : Nat := 5
  failureWindow : Nat := seconds 30
  openFor : Nat := seconds 20
  failureThreshold_le : failureThreshold ≤ maxU32 := by decide

structure HookCircuitKey where
  tenantId : String
  hookType : String
  hookName : String
  deriving DecidableEq

inductive HookCircuitTransition where
  | opened
  | reopened
  | closed
  deriving DecidableEq

inductive HookCircuitAdmission where
  | admitted (probe : Bool)
  | rejected (retryAfter : Nat)
  deriving DecidableEq

inductive HookCircuitResult where
  | healthy
  | unhealthy
  | neutral
  deriving DecidableEq

structure Circuit where
  consecutiveFailures : Nat
  streakStarted : Nat
  openUntil : Option Nat
  probing : Bool
  failedProbes : Nat

def Circuit.isOpen (circuit : Circuit) : Bool := circuit.openUntil.isSome

abbrev Circuits := Table HookCircuitKey Circuit

-- What the breakers are made with. Their circuits are the state.
structure HookCircuitBreakers where
  policy : HookCircuitPolicy
  maxTracked : Nat
  failureThreshold_pos : 0 < policy.failureThreshold
  maxTracked_pos : 0 < maxTracked

def HookCircuitBreakers.withCapacityLimit (policy : HookCircuitPolicy) (maxTracked : Nat) :
    HookCircuitBreakers where
  policy :=
    { policy with
      failureThreshold := max policy.failureThreshold 1
      failureThreshold_le := Nat.max_le.mpr ⟨policy.failureThreshold_le, by decide⟩ }
  maxTracked := max maxTracked 1
  failureThreshold_pos := Nat.lt_of_lt_of_le Nat.one_pos (Nat.le_max_right ..)
  maxTracked_pos := Nat.lt_of_lt_of_le Nat.one_pos (Nat.le_max_right ..)

def HookCircuitBreakers.new (policy : HookCircuitPolicy) : HookCircuitBreakers :=
  .withCapacityLimit policy MAX_TRACKED_CIRCUITS

variable (breakers : HookCircuitBreakers)

def admitAt (key : HookCircuitKey) (now : Nat) (circuits : Circuits) :
    HookCircuitAdmission × Circuits :=
  if !breakers.policy.enabled then (.admitted false, circuits)
  else
    match circuits.lookup key with
    | none => (.admitted false, circuits)
    | some circuit =>
      match circuit.openUntil with
      | none => (.admitted false, circuits)
      | some deadline =>
        if now < deadline then (.rejected (deadline - now), circuits)
        else if circuit.probing then (.rejected PROBE_RETRY_AFTER, circuits)
        else (.admitted true, circuits.insert key { circuit with probing := true })

-- The entries that a full table keeps: those that are open or whose failures still count.
def keeps (now : Nat) (circuit : Circuit) : Bool :=
  circuit.isOpen ∨ now - circuit.streakStarted ≤ breakers.policy.failureWindow

def makeRoom (now : Nat) (circuits : Circuits) : Bool × Circuits :=
  if size circuits < breakers.maxTracked then (true, circuits)
  else
    let retained := retain (keeps breakers now) circuits
    (size retained < breakers.maxTracked, retained)

def fresh (now : Nat) : Circuit where
  consecutiveFailures := 0
  streakStarted := now
  openUntil := none
  probing := false
  failedProbes := 0

-- One more failure of a circuit that is not open.
def countFailure (now : Nat) (circuit : Circuit) : Option HookCircuitTransition × Circuit :=
  let circuit :=
    if breakers.policy.failureWindow < now - circuit.streakStarted then
      { circuit with consecutiveFailures := 0, streakStarted := now }
    else circuit
  let failures := saturatingIncrement circuit.consecutiveFailures
  if failures < breakers.policy.failureThreshold then
    (none, { circuit with consecutiveFailures := failures })
  else
    (some .opened,
      { circuit with
        consecutiveFailures := 0
        failedProbes := 0
        openUntil := some (now + breakers.policy.openFor) })

def reopen (now : Nat) (circuit : Circuit) : Circuit :=
  { circuit with
    probing := false
    openUntil := some (now + breakers.policy.openFor)
    failedProbes := saturatingIncrement circuit.failedProbes }

def settleAt (key : HookCircuitKey) (probe : Bool) (result : HookCircuitResult) (now : Nat)
    (circuits : Circuits) : Option HookCircuitTransition × Circuits :=
  if !breakers.policy.enabled then (none, circuits)
  else
    match result with
    | .neutral =>
      match circuits.lookup key with
      | some circuit =>
        if probe then (none, circuits.insert key { circuit with probing := false })
        else (none, circuits)
      | none => (none, circuits)
    | .healthy =>
      match circuits.lookup key with
      | none => (none, circuits)
      | some circuit =>
        if probe then (some .closed, circuits.erase key)
        -- A call that went out before the opening does not close the circuit.
        else if circuit.openUntil.isNone then (none, circuits.erase key)
        else (none, circuits)
    | .unhealthy =>
      if probe then
        match circuits.lookup key with
        | none => (none, circuits)
        | some circuit => (some .reopened, circuits.insert key (reopen breakers now circuit))
      else
        let room := if key ∈ circuits then (true, circuits) else makeRoom breakers now circuits
        if !room.1 then (none, room.2)
        else
          let circuits := orInsert room.2 key (fresh now)
          match circuits.lookup key with
          | none => (none, circuits)
          | some circuit =>
            if circuit.isOpen then (none, circuits)
            else
              let counted := countFailure breakers now circuit
              (counted.1, circuits.insert key counted.2)

end Circuits

section Calls

-- A call is over once it is `settled` by its result or by being dropped.
structure HookCall where
  admission : HookCircuitAdmission
  settled : Bool

-- A result that speaks of the hook's health. `room` says whether the hook was tracked or there
-- was room to track it.
structure Settlement where
  now : Nat
  probe : Bool
  healthy : Bool
  room : Bool
  transition : Option HookCircuitTransition

-- Each key numbers its calls. The settlements of a key and all transitions are the history, with
-- the latest first.
structure State where
  circuits : Circuits := ∅
  calls : HookCircuitKey → Nat → Option HookCall := fun _ _ => none
  settlements : HookCircuitKey → List Settlement := fun _ => []
  transitions : List (HookCircuitKey × HookCircuitTransition) := []
  clock : Nat := 0

inductive Event where
  | begin
  | finish (outcome : HookExecutionOutcome)
  | drop

structure Action where
  key : HookCircuitKey
  call : Nat
  now : Nat
  event : Event

def putCall (calls : HookCircuitKey → Nat → Option HookCall) (action : Action) (call : HookCall) :
    HookCircuitKey → Nat → Option HookCall :=
  Function.update calls action.key
    (Function.update (calls action.key) action.call (some call))

variable (breakers : HookCircuitBreakers)

def roomFor (key : HookCircuitKey) (now : Nat) (circuits : Circuits) : Bool :=
  key ∈ circuits ∨ (makeRoom breakers now circuits).1

def State.begin (state : State) (action : Action) : State :=
  let answer := admitAt breakers action.key action.now state.circuits
  { state with
    circuits := answer.2
    calls := putCall state.calls action ⟨answer.1, false⟩
    clock := action.now }

def State.finish (state : State) (action : Action) (call : HookCall)
    (outcome : HookExecutionOutcome) : State :=
  let calls := putCall state.calls action { call with settled := true }
  match call.admission with
  | .admitted probe =>
    let result := if outcome.answered then .healthy else .unhealthy
    let answer := settleAt breakers action.key probe result action.now state.circuits
    let settlement : Settlement :=
      { now := action.now
        probe
        healthy := outcome.answered
        room := roomFor breakers action.key action.now state.circuits
        transition := answer.1 }
    { circuits := answer.2
      calls
      settlements := Function.update state.settlements action.key
        (settlement :: state.settlements action.key)
      transitions := answer.1.toList.map (action.key, ·) ++ state.transitions
      clock := action.now }
  | .rejected _ => { state with calls, clock := action.now }

def State.drop (state : State) (action : Action) (call : HookCall) : State :=
  let calls := putCall state.calls action { call with settled := true }
  if call.admission = .admitted true then
    let answer := settleAt breakers action.key true .neutral action.now state.circuits
    { state with circuits := answer.2, calls, clock := action.now }
  else { state with calls, clock := action.now }

-- A call begins once and is over once, and no clock goes back.
def step (state : State) (action : Action) : Option State :=
  if action.now < state.clock then none
  else
    match action.event, state.calls action.key action.call with
    | .begin, none => some (state.begin breakers action)
    | .finish outcome, some call =>
      if call.settled then none else some (state.finish breakers action call outcome)
    | .drop, some call =>
      if call.settled then none else some (state.drop breakers action call)
    | _, _ => none

abbrev Run := Transition.Run (step breakers) (fun _ _ => True)

def openCount (circuits : Circuits) : Nat := countWhere Circuit.isOpen circuits

end Calls

end FlareIm.HookCircuit
