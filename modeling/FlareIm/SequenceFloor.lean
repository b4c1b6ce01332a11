import FlareIm.Lib.LuaNumber
import FlareIm.Lib.Transition
import Mathlib.Logic.Function.Basic

namespace FlareIm.SequenceFloor

open Transition

-- What a process knows of the conversation. A failed check is not repeated for a while.
inductive SeqFloorState where
  | checked
  | failedAt
  deriving DecidableEq

inductive SeqAllocPlan where
  | plainIncr
  | firstTouchFloor

def planSeqAlloc (hasProvider alreadyChecked : Bool) : SeqAllocPlan :=
  if hasProvider && !alreadyChecked then .firstTouchFloor else .plainIncr

-- The counter of Redis is a 64-bit integer: beyond it there is no next number.
def allocateSeq (counter : Nat) : Option Nat :=
  if counter + 1 < 2 ^ 63 then some (counter + 1) else none

-- The script takes the larger of the counter and the floor, in its own numbers.
def allocateSeqWithFloor (counter floor : Nat) : Option Nat :=
  if floor = 0 then allocateSeq counter
  else LuaNumber.reply (LuaNumber.ofNat
    (max (LuaNumber.ofNat counter) (LuaNumber.ofNat floor) + 1))

-- How far a call of `allocate_conversation_seq` is.
inductive Phase where
  | idle
  | plain
  | drawn (seq : Nat)
  | looking
  | fallback
  | floored (floor : Nat)
  | done
  deriving DecidableEq

-- The calls of the ingest processes: the process each call runs in, and whether the process was
-- given a provider of floors.
structure Ingest where
  process : Nat → Nat
  hasProvider : Nat → Bool

-- One conversation: its counter (zero when the key is missing), the numbers of its stored
-- messages and events, and those that were returned to a caller and not stored so far.
-- `recovering` lasts from the loss of the counter to the next number that a floor was asked for.
structure State where
  counter : Nat
  messages : List Nat
  events : List Nat
  pending : List Nat
  cache : Nat → Option SeqFloorState
  phase : Nat → Phase
  lost : Bool
  recovering : Bool

-- The steps between two awaits of the calls, the allocations of the event path, and what becomes
-- of the numbers. `lookup` carries the storage's answer, if it came.
inductive Action where
  | begin_ (call : Nat) (inBackoff : Bool)
  | incr (call : Nat)
  | recheck (call : Nat)
  | lookup (call : Nat) (floor : Option Nat)
  | allocate (call : Nat)
  | event
  | storeMessage (seq : Nat)
  | storeEvent (seq : Nat)
  | giveUp (seq : Nat)
  | lose

def alreadyChecked (inBackoff : Bool) : Option SeqFloorState → Bool
  | some .checked => true
  | some .failedAt => inBackoff
  | none => false

-- An answer is a stored number and no stored message is above it. The head query of the storage
-- takes the events into account as well.
def State.answers (state : State) (floor : Nat) : Prop :=
  (∀ seq ∈ state.messages, seq ≤ floor) ∧
    (floor = 0 ∨ floor ∈ state.messages ∨ floor ∈ state.events)

instance (state : State) (floor : Nat) : Decidable (state.answers floor) :=
  inferInstanceAs (Decidable (_ ∧ _))

def State.goTo (state : State) (call : Nat) (phase : Phase) : State :=
  { state with phase := Function.update state.phase call phase }

-- A number goes to the caller.
def State.returned (state : State) (call seq : Nat) : State :=
  { state.goTo call .done with pending := seq :: state.pending }

-- Whether a number of the plain counter shows that the counter was lost.
def suspicious (ingest : Ingest) (state : State) (call seq : Nat) : Bool :=
  seq == 1 && state.cache (ingest.process call) == some .checked

-- The check of the floor, without a provider the plain counter.
def firstTouchPhase (ingest : Ingest) (call : Nat) : Phase :=
  if ingest.hasProvider (ingest.process call) then .looking else .fallback

def step (ingest : Ingest) (state : State) : Action → Option State
  | .begin_ call inBackoff =>
    match state.phase call with
    | .idle =>
      let process := ingest.process call
      match planSeqAlloc (ingest.hasProvider process)
        (alreadyChecked inBackoff (state.cache process)) with
      | .plainIncr => some (state.goTo call .plain)
      | .firstTouchFloor => some (state.goTo call (firstTouchPhase ingest call))
    | _ => none
  | .incr call =>
    match state.phase call, allocateSeq state.counter with
    | .plain, some seq => some { state.goTo call (.drawn seq) with counter := seq }
    | .fallback, some seq => some { state.returned call seq with counter := seq }
    | _, _ => none
  | .recheck call =>
    match state.phase call with
    | .drawn seq =>
      if suspicious ingest state call seq then
        some (state.goTo call (firstTouchPhase ingest call))
      else some (state.returned call seq)
    | _ => none
  | .lookup call floor =>
    match state.phase call, floor with
    | .looking, some floor =>
      if state.answers floor then some (state.goTo call (.floored floor)) else none
    | .looking, none =>
      some { state.goTo call .fallback with
        cache := Function.update state.cache (ingest.process call) (some .failedAt) }
    | _, _ => none
  | .allocate call =>
    match state.phase call with
    | .floored floor =>
      match allocateSeqWithFloor state.counter floor with
      | some seq =>
        some { state.returned call seq with
          counter := seq
          cache := Function.update state.cache (ingest.process call) (some .checked)
          recovering := false }
      | none => none
    | _ => none
  | .event =>
    match allocateSeq state.counter with
    | some seq => some { state with counter := seq, pending := seq :: state.pending }
    | none => none
  | .storeMessage seq =>
    if seq ∈ state.pending then
      some { state with
        messages := seq :: state.messages
        pending := state.pending.filter (· ≠ seq) }
    else none
  | .storeEvent seq =>
    if seq ∈ state.pending then
      some { state with
        events := seq :: state.events
        pending := state.pending.filter (· ≠ seq) }
    else none
  | .giveUp seq => some { state with pending := state.pending.filter (· ≠ seq) }
  | .lose =>
    if state.lost then none
    else some { state with
      counter := 0
      lost := true
      recovering := state.messages ++ state.events != [] }

end FlareIm.SequenceFloor
