import FlareIm.Lib.ScoredSet
import FlareIm.SyncCompensation
import Mathlib.Data.String.Basic

namespace FlareIm.CompensationQueue

open SyncCompensation

def CLAIM_VISIBILITY_MS : Nat := 30000
def DEFAULT_RETRY_DELAY_MS : Int := 5000
def MAX_ERROR_CHARS : Nat := 512
def U32_MAX : Nat := 2 ^ 32 - 1

-- What the payload of a task says to the one who decodes it. What a task was encoded to decodes to
-- the task again. A broken payload is another version's, or a damaged one.
inductive Payload where
  | task (task : UserSyncCompensationTask)
  | broken
  deriving DecidableEq

def decodeTask : Payload → Option UserSyncCompensationTask
  | .task task => some task
  | .broken => none

-- How far a worker is with a claim, and then with the tasks it got.
inductive WorkerPhase where
  | idle
  | ranged (taskIds : List String) (now : Nat)
  | loading (taskIds : List String) (loaded : List (String × Option Payload))
  | replaying (tasks : List UserSyncCompensationTask)
  | completing (task : UserSyncCompensationTask) (rest : List UserSyncCompensationTask)
  | failing (task : UserSyncCompensationTask) (error : String)
      (rest : List UserSyncCompensationTask)

-- The sorted set and the payloads, the clock and the workers. `enqueued` lists the tasks that
-- came in, `replayed` those whose replay succeeded, and `withheld` those that a claim has read
-- and leased and given to nobody.
structure State where
  now : Nat := 0
  pending : ScoredSet String := ⟨[], ScoredSet.nodup_nil⟩
  payloads : String → Option Payload := fun _ => none
  worker : Nat → WorkerPhase := fun _ => .idle
  enqueued : List UserSyncCompensationTask := []
  replayed : List UserSyncCompensationTask := []
  withheld : List UserSyncCompensationTask := []

-- The steps of the callers, of the workers between two awaits, and of the clock. `plant` is a task
-- of another version or a damaged one. `executed` tells whether a statement took effect, whatever
-- became of its answer. A worker quits when it is through, when a statement fails, and when its
-- process ends.
inductive Action where
  | tick (ms : Nat)
  | enqueue (task : UserSyncCompensationTask)
  | plant (taskId : String) (dueAtMs : Nat)
  | range (worker limit : Nat)
  | lease (worker : Nat) (executed answered : Bool)
  | load (worker : Nat)
  | decode (worker : Nat)
  | replay (worker : Nat) (error : Option String)
  | complete (worker : Nat) (executed : Bool)
  | fail (worker : Nat) (executed : Bool)
  | quit (worker : Nat)

def State.goTo (state : State) (worker : Nat) (phase : WorkerPhase) : State :=
  { state with worker := Function.update state.worker worker phase }

-- HSET and ZADD, in one transaction.
def State.store (state : State) (taskId : String) (payload : Payload) (dueAtMs : Nat) : State :=
  { state with
    payloads := Function.update state.payloads taskId (some payload)
    pending := state.pending.add taskId dueAtMs }

-- ZREM and DEL, in one transaction.
def State.markCompleted (state : State) (taskId : String) : State :=
  { state with
    payloads := Function.update state.payloads taskId none
    pending := state.pending.remove taskId }

-- The times of tasks are read off a clock and not below zero.
def State.enqueueTask (state : State) (task : UserSyncCompensationTask) : State :=
  state.store task.taskId (.task task) task.dueAtMs.toNat

def rescheduled (task : UserSyncCompensationTask) (error : String) (retryAfterMs now : Int) :
    UserSyncCompensationTask :=
  { task with
    attempts := min (task.attempts + 1) U32_MAX
    lastError := some (String.ofList (error.toList.take MAX_ERROR_CHARS))
    dueAtMs := now + max retryAfterMs 0 }

def State.markFailed (state : State) (task : UserSyncCompensationTask) (error : String)
    (retryAfterMs : Int) : State :=
  state.enqueueTask (rescheduled task error retryAfterMs state.now)

def leaseAll (taskIds : List String) (claimUntil : Nat) (pending : ScoredSet String) :
    ScoredSet String :=
  taskIds.foldl (fun pending taskId => pending.add taskId claimUntil) pending

-- A task without a payload is passed over. One that does not decode is an error of the claim.
def decodeTasks : List (String × Option Payload) → Option (List UserSyncCompensationTask)
  | [] => some []
  | (_, none) :: rest => decodeTasks rest
  | (_, some payload) :: rest =>
    match decodeTask payload with
    | none => none
    | some task => (decodeTasks rest).map (task :: ·)

-- The tasks among what was read.
def readable (loaded : List (String × Option Payload)) : List UserSyncCompensationTask :=
  loaded.filterMap fun entry => entry.2.bind decodeTask

def leaseStep (state : State) (worker : Nat) (taskIds : List String) (now : Nat)
    (executed answered : Bool) : Option State :=
  let after :=
    if executed then
      { state with pending := leaseAll taskIds (now + CLAIM_VISIBILITY_MS) state.pending }
    else state
  if !answered then some (after.goTo worker .idle)
  else if executed then some (after.goTo worker (.loading taskIds []))
  else none

def step (state : State) : Action → Option State
  | .tick ms => some { state with now := state.now + ms }
  | .enqueue task =>
    some { state.enqueueTask task with enqueued := task :: state.enqueued }
  | .plant taskId dueAtMs => some (state.store taskId .broken dueAtMs)
  | .range worker limit =>
    match state.worker worker with
    | .idle =>
      if limit = 0 then some state
      else
        match state.pending.due state.now limit with
        | [] => some state
        | taskIds => some (state.goTo worker (.ranged taskIds state.now))
    | _ => none
  | .lease worker executed answered =>
    match state.worker worker with
    | .ranged taskIds now => leaseStep state worker taskIds now executed answered
    | _ => none
  -- the payloads are read one after the other, outside of a transaction
  | .load worker =>
    match state.worker worker with
    | .loading (taskId :: rest) loaded =>
      some (state.goTo worker (.loading rest (loaded ++ [(taskId, state.payloads taskId)])))
    | _ => none
  | .decode worker =>
    match state.worker worker with
    | .loading [] loaded =>
      match decodeTasks loaded with
      | some tasks => some (state.goTo worker (.replaying tasks))
      | none =>
        some ({ state with withheld := readable loaded ++ state.withheld }.goTo worker .idle)
    | _ => none
  | .replay worker error =>
    match state.worker worker with
    | .replaying (task :: rest) =>
      match error with
      | none =>
        some ({ state with replayed := task :: state.replayed }.goTo worker
          (.completing task rest))
      | some error => some (state.goTo worker (.failing task error rest))
    | _ => none
  | .complete worker executed =>
    match state.worker worker with
    | .completing task rest =>
      let after := if executed then state.markCompleted task.taskId else state
      some (after.goTo worker (.replaying rest))
    | _ => none
  | .fail worker executed =>
    match state.worker worker with
    | .failing task error rest =>
      let after :=
        if executed then state.markFailed task error DEFAULT_RETRY_DELAY_MS else state
      some (after.goTo worker (.replaying rest))
    | _ => none
  | .quit worker => some (state.goTo worker .idle)

end FlareIm.CompensationQueue
