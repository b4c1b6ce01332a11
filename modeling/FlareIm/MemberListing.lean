import FlareIm.Lib.DecimalText
import FlareIm.Lib.Fallible
import FlareIm.Lib.Keyset
import FlareIm.Lib.Text

namespace FlareIm.MemberListing

open Text DecimalText Fallible

section Time

-- The first and the last microsecond of the calendar.
def MIN_UTC : Int := -8334601228800000000
def MAX_UTC : Int := 8210266876799999999

-- A time of the calendar, to the microsecond.
structure DateTime where
  timestampMicros : Int
  after_min : MIN_UTC ≤ timestampMicros
  before_max : timestampMicros ≤ MAX_UTC
  deriving DecidableEq

def fromTimestampMicros (micros : Int) : Option DateTime :=
  if h : MIN_UTC ≤ micros ∧ micros ≤ MAX_UTC then some ⟨micros, h.1, h.2⟩ else none

end Time

section Cursor

structure ParticipantPageCursor where
  keyset : Option (DateTime × String) := none
  legacyOffset : Int := 0
  carried : Option (Int × Int) := none

-- `splitn(4, ':')` behind the mark of a keyset cursor: three numbers, and whatever follows them.
def parseKeyset (rest : List Char) : Option ParticipantPageCursor := do
  let (micros, rest) ← splitOnce ':' rest
  let (total, rest) ← splitOnce ':' rest
  let (version, userId) ← splitOnce ':' rest
  let micros ← parseI64 micros
  let total ← parseI64 total
  let version ← parseI64 version
  let joinedAt ← fromTimestampMicros micros
  if userId = [] then none
  else some ⟨some (joinedAt, String.ofList userId), 0, some (total, version)⟩

def parseParticipantCursor (raw : Option String) : ParticipantPageCursor :=
  match (raw.map trim).filter (· ≠ "") with
  | none => {}
  | some raw =>
    match raw.toList with
    | 'k' :: ':' :: rest => (parseKeyset rest).getD {}
    | chars => { legacyOffset := max ((parseI64 chars).getD 0) 0 }

def encodeParticipantCursor (joinedAt : DateTime) (userId : String) (total version : Int) :
    String :=
  "k:" ++ toString joinedAt.timestampMicros ++ ":" ++ toString total ++ ":" ++ toString version ++
    ":" ++ userId

def MAX_PARTICIPANT_PAGE_LIMIT : Int := 5000

def clampParticipantPageLimit (limit : Int) : Nat :=
  (max 1 (min limit MAX_PARTICIPANT_PAGE_LIMIT)).toNat

end Cursor

section Table

-- How the database orders identifiers. White space at its end puts a text behind it.
structure Collation where
  before : String → String → Prop
  decidable : DecidableRel before
  strict : IsStrictTotalOrder String before
  blank : ∀ text, trimEnd text ≠ text → before (trimEnd text) text

attribute [instance] Collation.decidable Collation.strict

structure MemberRow where
  userId : String
  joinedAt : DateTime
  isDeleted : Bool
  hasQuit : Bool
  updatedAt : Int
  deriving DecidableEq

-- The members of one conversation, one row to a user. Columns are 64-bit integers.
structure MemberTable where
  rows : List MemberRow
  distinct : (rows.map (·.userId)).Nodup
  named : ∀ row ∈ rows, row.userId ≠ ""
  countable : rows.length < 2 ^ 63
  updated : ∀ row ∈ rows, -2 ^ 63 ≤ row.updatedAt ∧ row.updatedAt < 2 ^ 63

inductive ParticipantScope where
  | inSeat
  | members

def activeFilter (includeRemoved : Bool) (scope : ParticipantScope) (row : MemberRow) : Bool :=
  match includeRemoved, scope with
  | true, _ => true
  | false, .inSeat => !row.isDeleted && !row.hasQuit
  | false, .members => !row.hasQuit

variable (collation : Collation)

def MemberRow.key (row : MemberRow) : Int × String := (row.joinedAt.timestampMicros, row.userId)

-- The comparison of the row values (joined_at, user_id).
def Collation.keyBefore (key other : Int × String) : Prop :=
  key.1 < other.1 ∨ (key.1 = other.1 ∧ collation.before key.2 other.2)

instance : DecidableRel collation.keyBefore := fun _ _ => inferInstanceAs (Decidable (_ ∨ _ ∧ _))

variable (table : MemberTable)

-- The members in scope. ORDER BY joined_at ASC, user_id ASC
def MemberTable.listed (includeRemoved : Bool) (scope : ParticipantScope) : List MemberRow :=
  Keyset.inOrder collation.keyBefore MemberRow.key
    (table.rows.filter (activeFilter includeRemoved scope))

-- Microseconds as milliseconds, to the nearest and halves away from zero.
def roundToMillis (micros : Int) : Int :=
  if 0 ≤ micros then (micros + 500) / 1000 else -((500 - micros) / 1000)

def MemberTable.count (includeRemoved : Bool) (scope : ParticipantScope) : Int :=
  (table.rows.filter (activeFilter includeRemoved scope)).length

def MemberTable.version : Int :=
  match (table.rows.map (·.updatedAt)).max? with
  | none => 0
  | some micros => roundToMillis micros

end Table

section Read

-- Who reads: the tenant and the user of the context, and whether it is a service's or the system's.
structure Caller where
  tenantId : Option String
  userId : Option String
  isInternal : Bool

structure ListRequest where
  conversationId : String
  limit : Int
  includeRemoved : Bool
  skipMetadata : Bool
  scope : ParticipantScope

inductive ListError where
  | invalidParameter (message : String)
  | userRequired
  | messageNotFound (message : String)
  deriving DecidableEq

structure ConversationParticipantsPage where
  conversationId : String
  participants : List MemberRow
  nextCursor : Option String
  hasMore : Bool
  participantVersion : Nat
  memberCount : Int

-- A 64-bit integer as one of 32 bits.
def asI32 (n : Int) : Int := (n + 2 ^ 31) % 2 ^ 32 - 2 ^ 31

variable (collation : Collation) (table : MemberTable) (caller : Caller) (request : ListRequest)

def ensureCallerParticipant : Except ListError Unit :=
  match caller.userId with
  | none => .error .userRequired
  | some userId =>
    refuseIf (¬ table.rows.any fun row => row.userId == userId && !row.hasQuit)
      (.messageNotFound "conversation not found")

def checkCaller : Except ListError Unit := do
  refuseIf ((caller.tenantId.map isBlank).getD true)
    (.invalidParameter "tenant required for conversation storage")
  refuseIf (isBlank request.conversationId) (.invalidParameter "conversation_id is required")
  if caller.isInternal then .ok () else ensureCallerParticipant table caller

-- The total and the version, which a cursor carries on from the first page.
def pageMetadata (carried : Option (Int × Int)) : Int × Int :=
  match carried with
  | some carried => carried
  | none =>
    if request.skipMetadata || caller.isInternal then (0, 0)
    else (table.count request.includeRemoved request.scope, table.version)

-- One row more than a page has.
def fetchRows (cursor : ParticipantPageCursor) : List MemberRow :=
  let listed := table.listed collation request.includeRemoved request.scope
  let fetchLimit := clampParticipantPageLimit request.limit + 1
  match cursor.keyset with
  | some (joinedAt, lastUserId) =>
    (listed.filter fun row =>
      collation.keyBefore (joinedAt.timestampMicros, lastUserId) row.key).take fetchLimit
  | none => (listed.drop cursor.legacyOffset.toNat).take fetchLimit

def listConversationParticipants (cursor : Option String) :
    Except ListError ConversationParticipantsPage := do
  checkCaller table caller request
  let pageCursor := parseParticipantCursor cursor
  let limit := clampParticipantPageLimit request.limit
  let (total, version) := pageMetadata table caller request pageCursor.carried
  let rows := fetchRows collation table request pageCursor
  let hasMore := decide (limit < rows.length)
  let rows := if hasMore then rows.take limit else rows
  .ok {
    conversationId := trim request.conversationId
    participants := rows
    nextCursor :=
      if hasMore then
        rows.getLast?.map fun row => encodeParticipantCursor row.joinedAt row.userId total version
      else none
    hasMore := hasMore
    participantVersion := version.toNat
    memberCount := asI32 (max total 0) }

-- What a client gets of a page: the members, each with the total and the version of the page.
structure ListedMember where
  member : MemberRow
  memberCount : Int
  participantVersion : Nat

-- A member on a page of a listing that began with this total and version.
def MemberRow.shown (row : MemberRow) : ListedMember :=
  let (total, version) := pageMetadata table caller request none
  ⟨row, asI32 (max total 0), version.toNat⟩

-- A client that goes on with the cursor it got.
def memberPage (_ : Unit) (cursor : Option String) :
    Unit × Option (Keyset.Page (Option String) ListedMember) :=
  match listConversationParticipants collation table caller request cursor with
  | .error _ => ((), none)
  | .ok page =>
    ((), some
      { rows := page.participants.map (⟨·, page.memberCount, page.participantVersion⟩)
        next := page.nextCursor
        hasMore := page.hasMore })

end Read

end FlareIm.MemberListing
