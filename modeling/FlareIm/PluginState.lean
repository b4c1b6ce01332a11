import FlareIm.Lib.Transition
import Mathlib.Logic.Function.Basic

namespace FlareIm.PluginState

open Transition

section Publishes

inductive SharedStateOrder where
  | older
  | same
  | newer

-- `SharedState::order_against`: a state is compared with the version that is known, if one is.
structure SharedStateOrdering where
  orderAgainst : Nat → Option Nat → SharedStateOrder
  order_none : ∀ version, orderAgainst version none = .newer
  order_some : ∀ version known, orderAgainst version (some known) =
    if version < known then .older else if version = known then .same else .newer

-- Whether the credential binds the publish to a conversation.
inductive PublishScope where
  | conversation (id : String)
  | tenant

structure Submit where
  instance_ : Nat
  version : Nat
  valid : Bool
  scope : PublishScope

-- One entity with its bound cards, by their numbers, and the submits for it.
structure Setup where
  ordering : SharedStateOrdering
  cards : Nat
  conversationId : Nat → String
  initialVersion : Nat → Nat
  submit : Nat → Submit

structure ClaimedBinding where
  card : Nat
  priorVersion : Nat
  deriving DecidableEq

-- The entity's slot in the coalescer of an instance. When a window ends is left open.
structure Slot where
  pending : Option Nat
  scheduled : Bool

inductive SubmitPhase where
  | notStarted
  | comparing (stored : Nat)
  | finished
  deriving DecidableEq

inductive FlushPhase where
  | notStarted
  | claiming (version : Nat)
  | sending (version : Nat) (claimed : List ClaimedBinding)
  | releasing (version : Nat) (binding : ClaimedBinding) (claimed : List ClaimedBinding)
  | finished
  deriving DecidableEq

structure Sent where
  card : Nat
  version : Nat

structure State where
  published : Nat → Nat
  recalled : Nat → Bool
  slots : Nat → Slot
  submits : Nat → SubmitPhase
  flushes : Nat → FlushPhase
  -- the events that were sent, and the versions answered Stale or Duplicate
  sent : List Sent
  refused : List Nat

def initial (setup : Setup) : State where
  published := setup.initialVersion
  recalled _ := false
  slots _ := ⟨none, false⟩
  submits _ := .notStarted
  flushes _ := .notStarted
  sent := []
  refused := []

end Publishes

section Steps

inductive Action where
  | readBindings (submit : Nat) (ok : Bool)
  | compare (submit : Nat)
  | take (flush instance_ : Nat)
  | claimVersion (flush : Nat)
  | send (flush : Nat) (ok : Bool)
  | releaseVersion (flush : Nat)
  | «recall» (card : Nat)

variable (setup : Setup) (state : State)

def State.setSubmit (submit : Nat) (phase : SubmitPhase) : State :=
  { state with submits := Function.update state.submits submit phase }

def State.setFlush (flush : Nat) (phase : FlushPhase) : State :=
  { state with flushes := Function.update state.flushes flush phase }

def liveCards : List Nat :=
  (List.range setup.cards).filter fun card => !state.recalled card

def inScope : PublishScope → Bool
  | .conversation id =>
    (liveCards setup state).any fun card => setup.conversationId card == id
  | .tenant => liveCards setup state != []

-- What a submit is compared with is the highest version of the live cards.
def storedVersion : Nat :=
  ((liveCards setup state).map state.published).foldl max 0

def readBindings (submit : Nat) (ok : Bool) : Option State :=
  if state.submits submit ≠ .notStarted then none
  else if (setup.submit submit).valid = false ∨ ok = false ∨
      inScope setup state (setup.submit submit).scope = false then
    some (state.setSubmit submit .finished)
  else some (state.setSubmit submit (.comparing (storedVersion setup state)))

-- `Coalescer::offer`. A flush is spawned unless one is scheduled.
def Slot.offer (slot : Slot) (version : Nat) : Slot where
  pending :=
    if slot.pending.all fun pending => decide (pending < version) then some version
    else slot.pending
  scheduled := true

def compare (submit : Nat) : Option State :=
  match state.submits submit with
  | .comparing stored =>
    let request := setup.submit submit
    let known := max stored ((state.slots request.instance_).pending.getD 0)
    let answered := state.setSubmit submit .finished
    match setup.ordering.orderAgainst request.version
      (if 0 < known then some known else none) with
    | .older | .same => some { answered with refused := request.version :: state.refused }
    | .newer =>
      some { answered with
        slots := Function.update state.slots request.instance_
          ((state.slots request.instance_).offer request.version) }
  | _ => none

-- A spawned flush takes the pending state of its instance.
def take (flush instance_ : Nat) : Option State :=
  if state.flushes flush ≠ .notStarted ∨ (state.slots instance_).scheduled = false then none
  else
    let taken := { state with
      slots := Function.update state.slots instance_ ⟨none, false⟩ }
    match (state.slots instance_).pending with
    | none => some (taken.setFlush flush .finished)
    | some version => some (taken.setFlush flush (.claiming version))

def claimable (version : Nat) : List Nat :=
  (liveCards setup state).filter fun card => decide (state.published card < version)

def nextSend (version : Nat) (claimed : List ClaimedBinding) : FlushPhase :=
  if claimed = [] then .finished else .sending version claimed

def claimVersion (flush : Nat) : Option State :=
  match state.flushes flush with
  | .claiming version =>
    let cards := claimable setup state version
    some ({ state with
      published := fun card => if card ∈ cards then version else state.published card }.setFlush
        flush (nextSend version (cards.map fun card => ⟨card, state.published card⟩)))
  | _ => none

def send (flush : Nat) (ok : Bool) : Option State :=
  match state.flushes flush with
  | .sending version (binding :: claimed) =>
    if ok then
      some ({ state with sent := ⟨binding.card, version⟩ :: state.sent }.setFlush flush
        (nextSend version claimed))
    else some (state.setFlush flush (.releasing version binding claimed))
  | _ => none

-- `release_version` hands a version back unless another one was claimed since.
def releaseVersion (flush : Nat) : Option State :=
  match state.flushes flush with
  | .releasing version binding claimed =>
    some ({ state with
      published :=
        if state.published binding.card = version then
          Function.update state.published binding.card binding.priorVersion
        else state.published }.setFlush flush (nextSend version claimed))
  | _ => none

def step : Action → Option State
  | .readBindings submit ok => readBindings setup state submit ok
  | .compare submit => compare setup state submit
  | .take flush instance_ => take state flush instance_
  | .claimVersion flush => claimVersion setup state flush
  | .send flush ok => send state flush ok
  | .releaseVersion flush => releaseVersion state flush
  | .recall card => some { state with recalled := Function.update state.recalled card true }

end Steps

end FlareIm.PluginState
