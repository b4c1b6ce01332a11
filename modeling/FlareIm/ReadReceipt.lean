import FlareIm.Lib.LuaNumber
import FlareIm.Lib.Text
import FlareIm.Lib.Transition
import FlareIm.Proto

namespace FlareIm.ReadReceipt

open Text Proto Transition

-- The reader and the position of a receipt that moves a cursor.
def cursorReadReceipt (event : Event) : Option (String × Nat) :=
  if event.type ≠ .known .eventReadReceipt then none
  else
    match event.payload with
    | some (.read read) =>
      if trim read.userId = "" ∨ read.readSeq = 0 ∨ read.messageIds ≠ [] then none
      else some (trim read.userId, read.readSeq)
    | _ => none

def watermarkKey (tenantId conversationId userId : String) : String :=
  "read:watermark:" ++ tenantId ++ ":" ++ conversationId ++ ":" ++ userId

-- The positions Redis keeps, by key.
abbrev Watermarks := String → Option Nat

inductive ReadWatermarkAdvance where
  | advanced (previous : Nat)
  | notAdvanced (current : Nat)
  | failed

-- The script raises the watermark when the offered position is greater. Its answer is the number
-- it found, if that is an answer at all.
def advance (watermarks : Watermarks) (key : String) (readSeq : Nat) :
    Watermarks × ReadWatermarkAdvance :=
  let current := LuaNumber.ofNat ((watermarks key).getD 0)
  if LuaNumber.ofNat readSeq ≤ current then
    (watermarks, ((LuaNumber.reply current).map .notAdvanced).getD .failed)
  else
    (Function.update watermarks key (some readSeq),
      ((LuaNumber.reply current).map .advanced).getD .failed)

-- The script restores the previous watermark while the key holds what the claim wrote.
def rollback (watermarks : Watermarks) (key : String) (advancedTo previous : Nat) : Watermarks :=
  if watermarks key = some advancedTo then
    Function.update watermarks key (if previous = 0 then none else some previous)
  else watermarks

structure ReadWatermarkClaim where
  conversationId : String
  userId : String
  readSeq : Nat
  previous : Nat

inductive EventAdmission where
  | admitted (readClaim : Option ReadWatermarkClaim)
  | staleReadReceipt (readSeq watermark : Nat)

-- A watermark that cannot be asked admits the event.
def admitEvent (tenantId : String) (watermarks : Watermarks) (available : Bool) (event : Event) :
    Watermarks × EventAdmission :=
  match cursorReadReceipt event with
  | none => (watermarks, .admitted none)
  | some (userId, readSeq) =>
    if !available then (watermarks, .admitted none)
    else
      let key := watermarkKey tenantId event.conversationId userId
      match advance watermarks key readSeq with
      | (raised, .advanced previous) =>
        (raised, .admitted (some ⟨event.conversationId, userId, readSeq, previous⟩))
      | (raised, .notAdvanced current) => (raised, .staleReadReceipt readSeq current)
      | (raised, .failed) => (raised, .admitted none)

def releaseReadClaim (tenantId : String) (watermarks : Watermarks)
    (claim : ReadWatermarkClaim) : Watermarks :=
  rollback watermarks (watermarkKey tenantId claim.conversationId claim.userId) claim.readSeq
    claim.previous

inductive Outcome where
  | ok
  | error

-- How far a call of the handler is.
inductive Phase where
  | waiting
  | admitted (readClaim : Option ReadWatermarkClaim)
  | sequenced (readClaim : Option ReadWatermarkClaim) (seq : Nat)
  | failing (readClaim : ReadWatermarkClaim)
  | finished (outcome : Outcome)

-- The calls of the handler in one conversation of a tenant. Any number of them is under way.
structure Calls where
  tenantId : String
  conversationId : String
  event : Nat → Event
  same_conversation : ∀ id, (event id).conversationId = conversationId

-- `judged` lists the calls whose receipt was compared with its watermark, the last one first.
structure State where
  watermarks : Watermarks
  phase : Nat → Phase
  judged : List Nat
  sequenced : List (Nat × Nat)
  published : List Event

def State.initial : State where
  watermarks := fun _ => none
  phase := fun _ => .waiting
  judged := []
  sequenced := []
  published := []

-- The steps of the handler between two of its awaits, with the answers it gets there: whether
-- the event was refused, the number it was given if any, whether its publish was answered and
-- whether it got through. A key of Redis may run out at any time.
inductive Action where
  | refuse (id : Nat)
  | admitCall (id : Nat) (available : Bool)
  | allocate (id : Nat) (seq : Option Nat)
  | publish (id : Nat) (answered gotThrough : Bool)
  | release (id : Nat)
  | expire (userId : String)

def State.finish (state : State) (id : Nat) (outcome : Outcome) : State :=
  { state with phase := Function.update state.phase id (.finished outcome) }

-- A failed call hands its claim back in a step of its own.
def Phase.failed : Option ReadWatermarkClaim → Phase
  | some claim => .failing claim
  | none => .finished .error

def State.fail (state : State) (id : Nat) (readClaim : Option ReadWatermarkClaim) : State :=
  { state with phase := Function.update state.phase id (Phase.failed readClaim) }

def EventAdmission.phase : EventAdmission → Phase
  | .admitted readClaim => .admitted readClaim
  | .staleReadReceipt _ _ => .finished .ok

def isJudged (event : Event) (available : Bool) : Bool :=
  available && (cursorReadReceipt event).isSome

def admitCall (calls : Calls) (state : State) (id : Nat) (available : Bool) : State :=
  let event := calls.event id
  let admitted := admitEvent calls.tenantId state.watermarks available event
  { state with
    watermarks := admitted.1
    judged := if isJudged event available then id :: state.judged else state.judged
    phase := Function.update state.phase id admitted.2.phase }

def step (calls : Calls) (state : State) : Action → Option State
  | .refuse id =>
    match state.phase id with
    | .waiting => some (state.finish id .error)
    | _ => none
  | .admitCall id available =>
    match state.phase id with
    | .waiting => some (admitCall calls state id available)
    | _ => none
  | .allocate id seq =>
    match state.phase id, seq with
    | .admitted readClaim, some seq =>
      some { state with
        phase := Function.update state.phase id (.sequenced readClaim seq)
        sequenced := (id, seq) :: state.sequenced }
    | .admitted readClaim, none => some (state.fail id readClaim)
    | _, _ => none
  | .publish id answered gotThrough =>
    match state.phase id with
    | .sequenced readClaim seq =>
      let event := { calls.event id with conversationSeq := seq }
      let sent := { state with
        published := if answered || gotThrough then event :: state.published
          else state.published }
      some (if answered then sent.finish id .ok else sent.fail id readClaim)
    | _ => none
  | .release id =>
    match state.phase id with
    | .failing claim =>
      some ({ state with
        watermarks := releaseReadClaim calls.tenantId state.watermarks claim }.finish id .error)
    | _ => none
  | .expire userId =>
    some { state with
      watermarks := Function.update state.watermarks
        (watermarkKey calls.tenantId calls.conversationId userId) none }

end FlareIm.ReadReceipt
