import FlareIm.HookCircuit

namespace FlareIm.ExecutionBuffer

open HookCircuit

section Buffer

structure HookExecutionRecord where
  executionId : String
  outcome : HookExecutionOutcome
  deriving DecidableEq

def HookExecutionRecord.class (record : HookExecutionRecord) : HookExecutionClass :=
  record.outcome.class

structure Pending where
  always : List HookExecutionRecord := []
  sampled : List HookExecutionRecord := []
  closed : Bool := false

def Pending.len (pending : Pending) : Nat := pending.always.length + pending.sampled.length

def Pending.records (pending : Pending) : List HookExecutionRecord :=
  pending.always ++ pending.sampled

structure HookExecutionBuffer where
  capacity : Nat
  batchSize : Nat
  capacity_pos : 0 < capacity
  batchSize_pos : 0 < batchSize
  batchSize_le : batchSize ≤ capacity

theorem max_one_pos (capacity : Nat) : 0 < max capacity 1 := by omega

def HookExecutionBuffer.new (capacity batchSize : Nat) : HookExecutionBuffer where
  capacity := max capacity 1
  batchSize := max 1 (min batchSize (max capacity 1))
  capacity_pos := max_one_pos capacity
  batchSize_pos := by omega
  batchSize_le := by omega

inductive DropReason where
  | bufferFull
  | writeFailed
  | shutdown
  deriving DecidableEq

structure HookExecutionMetrics where
  queued : Nat := 0
  written : Nat := 0
  buffered : Nat := 0
  flushesOk : Nat := 0
  flushesError : Nat := 0
  dropped : DropReason → HookExecutionClass → Nat := fun _ _ => 0

def HookExecutionMetrics.recordDropped (metrics : HookExecutionMetrics) (reason : DropReason)
    (class_ : HookExecutionClass) (count : Nat) : HookExecutionMetrics :=
  { metrics with
    dropped := fun otherReason otherClass =>
      metrics.dropped otherReason otherClass +
        if otherReason = reason ∧ otherClass = class_ then count else 0 }

variable (buffer : HookExecutionBuffer)

-- Moves records from the front of a queue to the batch until it is full.
def popInto (batchSize : Nat) (batch : List HookExecutionRecord) :
    List HookExecutionRecord → List HookExecutionRecord × List HookExecutionRecord
  | [] => (batch, [])
  | record :: queue =>
    if batch.length < batchSize then popInto batchSize (batch ++ [record]) queue
    else (batch, record :: queue)

def takeBatch (pending : Pending) : List HookExecutionRecord × Pending :=
  let always := popInto buffer.batchSize [] pending.always
  let sampled := popInto buffer.batchSize always.1 pending.sampled
  (sampled.1, { pending with always := always.2, sampled := sampled.2 })

def Pending.push (pending : Pending) (record : HookExecutionRecord) : Pending :=
  match record.class with
  | .always => { pending with always := pending.always ++ [record] }
  | .sampled => { pending with sampled := pending.sampled ++ [record] }

end Buffer

section Writer

def WRITE_TIMEOUT : Nat := seconds 10

def SHUTDOWN_FLUSH_TIMEOUT : Nat := seconds 5

-- Where the writing task stands. It is in the loop or on its way out, and in either it may have
-- a batch that is being written.
inductive Writer where
  | waiting
  | flushing
  | writing (batch : List HookExecutionRecord) (timeoutReason : DropReason) (stopping : Bool)
  | stopping
  | closing
  | stopped

def Writer.batch : Writer → List HookExecutionRecord
  | .writing batch _ _ => batch
  | _ => []

-- A store writes a batch whole or not at all. After a timeout the task does not know which.
inductive WriteResult where
  | written
  | failed
  | timedOut

-- `handed`, `written` and `dropped` are the history: the records handed over, those that the store
-- acknowledged and those that were dropped, with the reason.
structure State where
  pending : Pending := {}
  writer : Writer := .waiting
  metrics : HookExecutionMetrics := {}
  handed : List HookExecutionRecord := []
  written : List HookExecutionRecord := []
  dropped : List (DropReason × HookExecutionRecord) := []

variable (buffer : HookExecutionBuffer)

def State.drop (state : State) (reason : DropReason) (record : HookExecutionRecord) : State :=
  { state with
    metrics := state.metrics.recordDropped reason record.class 1
    dropped := state.dropped ++ [(reason, record)] }

def State.enqueue (state : State) (record : HookExecutionRecord) : State :=
  let pending := state.pending.push record
  { state with
    pending
    metrics :=
      { state.metrics with queued := state.metrics.queued + 1, buffered := pending.len } }

def State.record (state : State) (record : HookExecutionRecord) : State :=
  let state := { state with handed := state.handed ++ [record] }
  if state.pending.closed then state.drop .shutdown record
  else if buffer.capacity ≤ state.pending.len then
    match record.class, state.pending.sampled with
    -- A sampled record makes place for one that is always kept.
    | .always, oldest :: sampled =>
      let state := { state with pending := { state.pending with sampled } }
      (state.drop .bufferFull oldest).enqueue record
    | _, _ => state.drop .bufferFull record
  else state.enqueue record

def State.takeBatch (state : State) (timeoutReason : DropReason) (stopping : Bool)
    (whenEmpty : Writer) : State :=
  let taken := ExecutionBuffer.takeBatch buffer state.pending
  { state with
    pending := taken.2
    metrics := { state.metrics with buffered := taken.2.len }
    writer := if taken.1 = [] then whenEmpty else .writing taken.1 timeoutReason stopping }

def State.writeBatch (state : State) (batch : List HookExecutionRecord)
    (timeoutReason : DropReason) (result : WriteResult) : State :=
  let failed := { state with
    metrics := { state.metrics with flushesError := state.metrics.flushesError + 1 } }
  match result with
  | .written =>
    { state with
      metrics :=
        { state.metrics with
          written := state.metrics.written + batch.length
          flushesOk := state.metrics.flushesOk + 1 }
      written := state.written ++ batch }
  | .failed => batch.foldl (fun state record => state.drop .writeFailed record) failed
  | .timedOut => batch.foldl (fun state record => state.drop timeoutReason record) failed

-- After a write the loop goes on while the batches are full, and the way out until none is left.
def afterWrite (batch : List HookExecutionRecord) (stopping : Bool) : Writer :=
  if stopping then .stopping
  else if buffer.batchSize ≤ batch.length then .flushing
  else .waiting

def State.close (state : State) (reason : DropReason) : State :=
  let pending := state.pending
  { state with
    pending := { closed := true }
    metrics :=
      ({ state.metrics with buffered := 0 }.recordDropped reason .always
        pending.always.length).recordDropped reason .sampled pending.sampled.length
    dropped := state.dropped ++ pending.records.map (reason, ·)
    writer := .stopped }

-- `wake` is a full batch or a tick, `shutdown` the signal. `left` is what is left of the time to
-- stop in.
inductive Action where
  | record (record : HookExecutionRecord)
  | wake
  | shutdown
  | take (left : Nat)
  | result (result : WriteResult)
  | close

def step (state : State) (action : Action) : Option State :=
  match action, state.writer with
  | .record record, _ => some (state.record buffer record)
  | .wake, .waiting => some { state with writer := .flushing }
  | .shutdown, .waiting => some { state with writer := .stopping }
  | .take _, .flushing => some (state.takeBatch buffer .writeFailed false .waiting)
  | .take left, .stopping =>
    if left = 0 then some { state with writer := .closing }
    else
      let timeoutReason := if left < WRITE_TIMEOUT then .shutdown else .writeFailed
      some (state.takeBatch buffer timeoutReason true .closing)
  | .result result, .writing batch timeoutReason stopping =>
    some { state.writeBatch batch timeoutReason result with
      writer := afterWrite buffer batch stopping }
  | .close, .closing => some (state.close .shutdown)
  | _, _ => none

abbrev Run := Transition.Run (step buffer) (fun _ _ => True)

end Writer

end FlareIm.ExecutionBuffer
