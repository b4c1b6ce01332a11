import FlareIm.Lib.RoundTrip
import FlareIm.Lib.Transition
import Mathlib.Data.List.Sort
import Mathlib.Logic.Function.Basic

namespace FlareIm.MultipartUpload

open RoundTrip Transition

section Sessions

inductive UploadSessionStatus where
  | pending
  | completed
  | aborted
  deriving DecidableEq

structure UploadSession where
  uploadedChunks : List Nat
  uploadedSize : Nat
  totalSize : Option Nat
  status : UploadSessionStatus
  deriving DecidableEq

def UploadSession.hasChunk (session : UploadSession) (index : Nat) : Bool :=
  session.uploadedChunks.contains index

def UploadSession.addChunk (session : UploadSession) (index size : Nat) : UploadSession :=
  if session.hasChunk index then session
  else
    { session with
      uploadedChunks := session.uploadedChunks ++ [index]
      uploadedSize := session.uploadedSize + size }

-- The file of a chunk. A file created again after the directory was removed is another one, which
-- a writer of the first does not reach.
structure ChunkFile where
  inode : Nat
  content : List UInt8

-- A write at a place past the end leaves zeros before it.
def ChunkFile.writeAt (file : ChunkFile) (offset : Nat) (bytes : List UInt8) : ChunkFile :=
  { file with
    content := file.content.take offset ++ List.replicate (offset - file.content.length) 0 ++
      bytes ++ file.content.drop (offset + bytes.length) }

end Sessions

section Calls

structure Chunk where
  index : Nat
  bytes : List UInt8

-- The calls on one session and what they are given.
structure Setup where
  totalSize : Option Nat
  maxChunkSizeBytes : Nat
  chunk : Nat → Chunk

inductive UploadPhase where
  | notStarted
  | checking (session : UploadSession)
  | refreshing (session : UploadSession)
  | creating (session : UploadSession)
  | writing (session : UploadSession) (inode written : Nat)
  | saving (session : UploadSession)
  | finished
  deriving DecidableEq

-- The part of a chunk in a payload: what was read from its file, and what the last upload of the
-- chunk answered Ok had given.
structure Piece where
  index : Nat
  content : List UInt8
  uploaded : Option (List UInt8)
  deriving DecidableEq

-- What a completion assembles, with the chunks answered Ok before it started.
structure Assembly where
  answeredBefore : List Nat
  pieces : List Piece
  deriving DecidableEq

def Assembly.payload (assembly : Assembly) : List UInt8 :=
  (assembly.pieces.map (·.content)).flatten

inductive CompletionPhase where
  | notStarted
  | reading (session : UploadSession) (todo : List Nat) (assembly : Assembly)
  | storing (session : UploadSession) (assembly : Assembly)
  | marking (session : UploadSession) (assembly : Assembly) (fresh : Bool)
  | cleaning (assembly : Assembly) (fresh : Bool)
  | deleting (assembly : Assembly) (fresh : Bool)
  | finished
  deriving DecidableEq

structure State where
  record : Option UploadSession
  files : Nat → Option ChunkFile
  nextInode : Nat
  uploads : Nat → UploadPhase
  completions : Nat → CompletionPhase
  -- the bytes of the last upload of each chunk that was answered Ok, and the chunks that were
  -- written to since
  lastOk : Nat → Option (List UInt8)
  answered : List Nat
  unsettled : Nat → Bool
  -- the completions answered Ok whose payload was newly stored
  completed : List Assembly

def initial (setup : Setup) : State where
  record := some ⟨[], 0, setup.totalSize, .pending⟩
  files _ := none
  nextInode := 0
  uploads _ := .notStarted
  completions _ := .notStarted
  lastOk _ := none
  answered := []
  unsettled _ := false
  completed := []

end Calls

section Steps

inductive StoreOutcome where
  | stored
  | deduplicated
  | failed

inductive Action where
  | getSession (call : Nat) (found : Bool)
  | checkFile (call : Nat)
  | createFile (call : Nat)
  | write (call count : Nat)
  | flush (call : Nat)
  | giveUp (call : Nat)
  | saveSession (call : Nat) (outcome : Outcome)
  | completionGet (call : Nat) (found : Bool)
  | readChunk (call : Nat) (found : Bool)
  | storeFile (call : Nat) (outcome : StoreOutcome)
  | markCompleted (call : Nat) (outcome : Outcome)
  | cleanup (call : Nat) (complete : Bool) (left : List Nat)
  | deleteSession (call : Nat) (outcome : Outcome)
  | expireRecord

variable (setup : Setup) (state : State)

def State.setUpload (call : Nat) (phase : UploadPhase) : State :=
  { state with uploads := Function.update state.uploads call phase }

def State.setCompletion (call : Nat) (phase : CompletionPhase) : State :=
  { state with completions := Function.update state.completions call phase }

-- A session is not found when it is gone, has expired, or cannot be read.
def getSession (call : Nat) (found : Bool) : Option State :=
  if state.uploads call ≠ .notStarted then none
  else
    match (if found then state.record else none) with
    | none => some (state.setUpload call .finished)
    | some session =>
      let length := (setup.chunk call).bytes.length
      if session.status ≠ .pending ∨ length = 0 ∨ setup.maxChunkSizeBytes < length then
        some (state.setUpload call .finished)
      else some (state.setUpload call (.checking session))

-- A chunk whose file has the length of the payload counts as uploaded already.
def checkFile (call : Nat) : Option State :=
  match state.uploads call with
  | .checking session =>
    match state.files (setup.chunk call).index with
    | some file =>
      if file.content.length = (setup.chunk call).bytes.length then
        some (state.setUpload call (.refreshing session))
      else some (state.setUpload call (.creating session))
    | none => some (state.setUpload call (.creating session))
  | _ => none

def createFile (call : Nat) : Option State :=
  match state.uploads call with
  | .creating session =>
    let index := (setup.chunk call).index
    let inode := ((state.files index).map (·.inode)).getD state.nextInode
    some { state.setUpload call (.writing session inode 0) with
      files := Function.update state.files index (some ⟨inode, []⟩)
      nextInode := state.nextInode + 1
      unsettled := Function.update state.unsettled index true }
  | _ => none

-- The next bytes of the payload reach the file, when it is still there.
def write (call count : Nat) : Option State :=
  match state.uploads call with
  | .writing session inode written =>
    let chunk := setup.chunk call
    let part := (chunk.bytes.drop written).take count
    some { state.setUpload call (.writing session inode (written + part.length)) with
      files := Function.update state.files chunk.index
        ((state.files chunk.index).map fun file =>
          if file.inode = inode then file.writeAt written part else file)
      unsettled := Function.update state.unsettled chunk.index true }
  | _ => none

-- The result of the flush is dropped, and with it an error of a write still under way.
def flush (call : Nat) : Option State :=
  match state.uploads call with
  | .writing session _ _ =>
    let chunk := setup.chunk call
    some (state.setUpload call (.saving (session.addChunk chunk.index chunk.bytes.length)))
  | _ => none

-- The directory or the file cannot be made, or a write fails.
def giveUp (call : Nat) : Option State :=
  match state.uploads call with
  | .checking _ | .creating _ | .writing .. => some (state.setUpload call .finished)
  | _ => none

-- `upsert_session`: the record is written whatever it is by then.
def State.upsert (session : UploadSession) (outcome : Outcome) : State :=
  if outcome.takesEffect then { state with record := some session } else state

def State.answerOk (chunk : Chunk) : State :=
  { state with
    lastOk := Function.update state.lastOk chunk.index (some chunk.bytes)
    answered := chunk.index :: state.answered
    unsettled := Function.update state.unsettled chunk.index false }

def saveSession (call : Nat) (outcome : Outcome) : Option State :=
  match state.uploads call with
  | .refreshing session | .saving session =>
    let saved := (state.upsert session outcome).setUpload call .finished
    if outcome = .answered then some (saved.answerOk (setup.chunk call)) else some saved
  | _ => none

def completionGet (call : Nat) (found : Bool) : Option State :=
  if state.completions call ≠ .notStarted then none
  else
    match (if found then state.record else none) with
    | none => some (state.setCompletion call .finished)
    | some session =>
      if session.uploadedChunks = [] then some (state.setCompletion call .finished)
      else
        let sorted := session.uploadedChunks.insertionSort (· ≤ ·)
        some (state.setCompletion call
          (.reading { session with uploadedChunks := sorted } sorted ⟨state.answered, []⟩))

-- `assemble_payload`, one file at a time.
def readChunk (call : Nat) (found : Bool) : Option State :=
  match state.completions call with
  | .reading session (index :: todo) assembly =>
    match (if found then state.files index else none) with
    | none => some (state.setCompletion call .finished)
    | some file =>
      some (state.setCompletion call (.reading session todo
        { assembly with
          pieces := assembly.pieces ++ [⟨index, file.content, state.lastOk index⟩] }))
  | .reading session [] assembly => some (state.setCompletion call (.storing session assembly))
  | _ => none

def storeFile (call : Nat) (outcome : StoreOutcome) : Option State :=
  match state.completions call with
  | .storing session assembly =>
    match outcome with
    | .failed => some (state.setCompletion call .finished)
    | .stored => some (state.setCompletion call (.marking session assembly true))
    | .deduplicated => some (state.setCompletion call (.marking session assembly false))
  | _ => none

def markCompleted (call : Nat) (outcome : Outcome) : Option State :=
  match state.completions call with
  | .marking session assembly fresh =>
    let done := { session with
      totalSize := some assembly.payload.length
      status := .completed }
    some ((state.upsert done outcome).setCompletion call (.cleaning assembly fresh))
  | _ => none

-- `cleanup_chunks`: a removal that fails leaves some of the files.
def cleanup (call : Nat) (complete : Bool) (left : List Nat) : Option State :=
  match state.completions call with
  | .cleaning assembly fresh =>
    if complete then
      some { state.setCompletion call (.deleting assembly fresh) with files := fun _ => none }
    else
      some { state.setCompletion call .finished with
        files := fun index => if index ∈ left then state.files index else none }
  | _ => none

def deleteSession (call : Nat) (outcome : Outcome) : Option State :=
  match state.completions call with
  | .deleting assembly fresh =>
    let deleted := if outcome.takesEffect then { state with record := none } else state
    let answered := deleted.setCompletion call .finished
    some { answered with
      completed := if fresh then assembly :: answered.completed else answered.completed }
  | _ => none

def step : Action → Option State
  | .getSession call found => getSession setup state call found
  | .checkFile call => checkFile setup state call
  | .createFile call => createFile setup state call
  | .write call count => write setup state call count
  | .flush call => flush setup state call
  | .giveUp call => giveUp state call
  | .saveSession call outcome => saveSession setup state call outcome
  | .completionGet call found => completionGet state call found
  | .readChunk call found => readChunk state call found
  | .storeFile call outcome => storeFile state call outcome
  | .markCompleted call outcome => markCompleted state call outcome
  | .cleanup call complete left => cleanup state call complete left
  | .deleteSession call outcome => deleteSession state call outcome
  | .expireRecord => some { state with record := none }

end Steps

end FlareIm.MultipartUpload
