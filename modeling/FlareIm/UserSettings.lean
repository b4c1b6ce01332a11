import Mathlib.Algebra.Order.Ring.Int
import FlareIm.Lib.Listing

namespace FlareIm.UserSettings

section Rows

inductive LifecycleState where
  | unspecified
  | active
  | suspended
  | archived
  | deleted
  deriving DecidableEq

-- A member's row. A hidden one has no draft and is not archived.
structure MemberRow where
  userId : String
  muted : Bool
  pinned : Bool
  mentionOnly : Bool
  isArchived : Bool
  draft : Option String
  isDeleted : Bool
  hasQuit : Bool
  settingsVersion : Nat
  historyClearedThroughSeq : Int
  version_fits : settingsVersion < 2 ^ 63
  hidden_clear : isDeleted = true → isArchived = false ∧ draft = none

-- The row of a conversation with those of its members, if there is one.
structure ConversationRows where
  lifecycleState : LifecycleState
  members : List MemberRow

abbrev Tables := Option ConversationRows

def findMember (members : List MemberRow) (userId : String) : Option MemberRow :=
  members.find? fun row => row.userId = userId

def Tables.member (tables : Tables) (userId : String) : Option MemberRow :=
  tables.bind fun rows => findMember rows.members userId

def updateMember (members : List MemberRow) (userId : String) (change : MemberRow → MemberRow) :
    List MemberRow :=
  members.map fun row => if row.userId = userId then change row else row

end Rows

section Bootstrap

structure Settings where
  isMuted : Bool
  isPinned : Bool
  isMentionOnly : Bool
  isArchived : Bool
  draft : Option String
  deriving DecidableEq

def MemberRow.settings (row : MemberRow) (lifecycleState : LifecycleState) : Settings where
  isMuted := row.muted
  isPinned := row.pinned
  isMentionOnly := row.mentionOnly
  isArchived := lifecycleState == .archived || row.isArchived
  draft := row.draft

structure ReportedSettings where
  settings : Settings
  settingsVersion : Nat
  deriving DecidableEq

-- What the bootstrap of a user says of the conversation, if it lists it.
def loadBootstrap (tables : Tables) (userId : String) : Option ReportedSettings := do
  let rows ← tables
  let row ← findMember rows.members userId
  if rows.lifecycleState ≠ .deleted ∧ row.isDeleted = false then
    some ⟨row.settings rows.lifecycleState, row.settingsVersion⟩
  else none

end Bootstrap

section Calls

inductive SettingsError where
  | invalidParameter (message : String)
  | conflict (message : String)
  | notFound (message : String)
  | databaseError (message : String)

structure UpdateConversationUserSettingsPatch where
  isMentionOnly : Option Bool := none
  isPinned : Option Bool := none
  isMuted : Option Bool := none
  isArchived : Option Bool := none
  draft : Option String := none
  baseSettingsVersion : Nat := 0
  base_fits : baseSettingsVersion < 2 ^ 64 := by decide
  clearHistoryThroughSeq : Option Nat := none

-- An unsigned number of 64 bits as a signed one.
def asI64 (n : Nat) : Int := (n + 2 ^ 63) % 2 ^ 64 - 2 ^ 63

variable (tables : Tables) (userId : String) (patch : UpdateConversationUserSettingsPatch)

-- The row an update finds: not hidden, and of the version it starts from unless that is zero.
def updates (lifecycleState : LifecycleState) (row : MemberRow) : Bool :=
  !row.isDeleted &&
    (patch.clearHistoryThroughSeq.isNone || (!row.hasQuit && lifecycleState != .deleted)) &&
      (asI64 patch.baseSettingsVersion == 0 ||
        (row.settingsVersion : Int) == asI64 patch.baseSettingsVersion)

-- The new draft: none for an empty one.
def patchedDraft (draft : Option String) : Option String :=
  match patch.draft with
  | none => draft
  | some "" => none
  | some text => some text

def patchRow (lifecycleState : LifecycleState) (tailSeq : Int) (row : MemberRow)
    (hfits : row.settingsVersion + 1 < 2 ^ 63) (hshown : row.isDeleted = false) : MemberRow :=
  { row with
    pinned := patch.isPinned.getD row.pinned
    muted := patch.isMuted.getD row.muted
    mentionOnly := patch.isMentionOnly.getD row.mentionOnly
    isArchived :=
      if lifecycleState ≠ .archived then patch.isArchived.getD row.isArchived else row.isArchived
    draft := patchedDraft patch row.draft
    historyClearedThroughSeq :=
      match patch.clearHistoryThroughSeq with
      | none => row.historyClearedThroughSeq
      | some seq => max row.historyClearedThroughSeq (min (min seq (2 ^ 63 - 1)) (max tailSeq 0))
    settingsVersion := row.settingsVersion + 1
    version_fits := hfits
    hidden_clear := fun h => absurd (hshown.symm.trans h) (by decide) }

structure ConversationUserSettings where
  settings : Settings
  settingsVersion : Nat
  historyClearedThroughSeq : Int

-- `tailSeq` is the largest number of the conversation's messages.
def updateUserSettings (tailSeq : Int) :
    Except SettingsError (Tables × ConversationUserSettings) :=
  if patch.isPinned = none ∧ patch.isMentionOnly = none ∧ patch.isMuted = none ∧
      patch.isArchived = none ∧ patch.draft = none ∧ patch.clearHistoryThroughSeq = none then
    .error (.invalidParameter "at least one user setting field is required")
  else
    let missing : SettingsError :=
      if 0 < patch.baseSettingsVersion then
        .conflict "user settings version conflict or participant not found"
      else .notFound "conversation participant not found"
    match tables with
    | none => .error missing
    | some rows =>
      match findMember rows.members userId with
      | none => .error missing
      | some row =>
        if hupdates : updates patch rows.lifecycleState row = true then
          if hfits : row.settingsVersion + 1 < 2 ^ 63 then
            have hshown : row.isDeleted = false := by
              simp only [updates, Bool.and_eq_true, Bool.not_eq_true'] at hupdates
              exact hupdates.1.1
            let patched := patchRow patch rows.lifecycleState tailSeq row hfits hshown
            let members := updateMember rows.members userId fun _ => patched
            .ok (some { rows with members := members },
              ⟨patched.settings rows.lifecycleState, patched.settingsVersion,
                patched.historyClearedThroughSeq⟩)
          else .error (.databaseError "update user settings")
        else .error missing

-- The next version of a row, unless the row is hidden.
def bumped (row : MemberRow) : Option MemberRow :=
  if row.isDeleted then some row
  else if hfits : row.settingsVersion + 1 < 2 ^ 63 then
    some { row with settingsVersion := row.settingsVersion + 1, version_fits := hfits }
  else none

def updateConversation (lifecycleState : Option LifecycleState) : Except SettingsError Tables :=
  match tables with
  | none => .ok none
  | some rows =>
    let next := lifecycleState.getD rows.lifecycleState
    let archiveChanged := (rows.lifecycleState == .archived) != (next == .archived)
    if archiveChanged then
      match rows.members.mapM bumped with
      | some members => .ok (some ⟨next, members⟩)
      | none => .error (.databaseError "Failed to update conversation")
    else .ok (some ⟨next, rows.members⟩)

def hideRow (row : MemberRow) : MemberRow :=
  { row with
    isDeleted := true
    isArchived := false
    draft := none
    hidden_clear := fun _ => ⟨rfl, rfl⟩ }

-- The soft form of the deletion.
def deleteConversation : Tables :=
  tables.map fun rows => { rows with members := updateMember rows.members userId hideRow }

-- What a request to add a member gives of the settings.
structure ConversationParticipant where
  userId : String
  muted : Bool := false
  pinned : Bool := false

def newRow (participant : ConversationParticipant) : MemberRow where
  userId := participant.userId
  muted := participant.muted
  pinned := participant.pinned
  mentionOnly := false
  isArchived := false
  draft := none
  isDeleted := false
  hasQuit := false
  settingsVersion := 0
  historyClearedThroughSeq := 0
  version_fits := by decide
  hidden_clear := fun h => absurd h (by decide)

def showRow (row : MemberRow) : MemberRow :=
  { row with isDeleted := false, hidden_clear := fun h => absurd h (by decide) }

def seatRow (row : MemberRow) : MemberRow :=
  { showRow row with hasQuit := false }

-- INSERT … ON CONFLICT DO UPDATE
def upsert (conflict : MemberRow → MemberRow) (members : List MemberRow)
    (participant : ConversationParticipant) : List MemberRow :=
  if (findMember members participant.userId).isSome then
    updateMember members participant.userId conflict
  else members ++ [newRow participant]

def manageParticipants (toAdd : List ConversationParticipant) (toRemove : List String) :
    Except SettingsError Tables :=
  match tables with
  | none =>
    -- the foreign key to the conversation
    if toAdd = [] then .ok none else .error (.databaseError "Failed to add participant")
  | some rows =>
    let added := toAdd.foldl (upsert seatRow) rows.members
    .ok (some { rows with members := added.filter fun row => row.userId ∉ toRemove })

def PARTICIPANT_INSERT_CHUNK : Nat := 5000

-- One INSERT statement may not touch a row twice.
def insertChunk (members : List MemberRow) (chunk : List ConversationParticipant) :
    Option (List MemberRow) :=
  if (chunk.map (·.userId)).Nodup then some (chunk.foldl (upsert showRow) members) else none

def createConversation (lifecycleState : LifecycleState)
    (participants : List ConversationParticipant) : Except SettingsError Tables :=
  let rows := tables.getD ⟨lifecycleState, []⟩
  match (participants.toChunks PARTICIPANT_INSERT_CHUNK).foldlM insertChunk rows.members with
  | some members => .ok (some { rows with members := members })
  | none => .error (.databaseError "Failed to batch insert participants")

end Calls

section Runs

inductive Call where
  | updateUserSettings (userId : String) (patch : UpdateConversationUserSettingsPatch)
      (tailSeq : Int)
  | updateConversation (lifecycleState : Option LifecycleState)
  | deleteConversation (userId : String)
  | manageParticipants (toAdd : List ConversationParticipant) (toRemove : List String)
  | createConversation (lifecycleState : LifecycleState)
      (participants : List ConversationParticipant)

-- A call that fails leaves the tables as they are.
def step (tables : Tables) (call : Call) : Tables :=
  let result : Except SettingsError Tables :=
    match call with
    | .updateUserSettings userId patch tailSeq =>
      (updateUserSettings tables userId patch tailSeq).map (·.1)
    | .updateConversation lifecycleState => updateConversation tables lifecycleState
    | .deleteConversation userId => .ok (deleteConversation tables userId)
    | .manageParticipants toAdd toRemove => manageParticipants tables toAdd toRemove
    | .createConversation lifecycleState participants =>
      createConversation tables lifecycleState participants
  match result with
  | .ok next => next
  | .error _ => tables

def run (tables : Tables) (calls : List Call) : Tables :=
  calls.foldl step tables

end Runs

end FlareIm.UserSettings
