import FlareIm.ConversationSync.Backfill
import Mathlib.Data.String.Basic

namespace FlareIm.ReaderCache

open ConversationSync (ContentVisibility isBackfillTailPage legacyRetentionState)

section Storage

-- A stored message, with the visibility that the message of the writer carried.
structure Row where
  serverId : String
  seq : Nat
  createdAt : Int
  content : String
  visibility : ContentVisibility := .available
  deriving DecidableEq

-- The messages of a conversation. Their numbers are scores of a sorted set, which are exact below
-- 2^53, and their times are milliseconds.
structure Content where
  rows : List Row
  ascending : rows.Pairwise fun row other => row.seq < other.seq
  positive : ∀ row ∈ rows, 0 < row.seq
  bounded : ∀ row ∈ rows, row.seq < 2 ^ 53
  distinct : (rows.map (·.serverId)).Nodup

-- A message as it is read. A burned one may come as a placeholder.
structure Message where
  serverId : String
  conversationSeq : Nat
  createdAt : Int
  content : String
  placeholder : Bool := false
  deriving DecidableEq

def Row.message (row : Row) : Message :=
  ⟨row.serverId, row.seq, row.createdAt, row.content, false⟩

def applyBurnQueryVisibility (includePlaceholder : Bool) (row : Row) :
    ContentVisibility → Option Message
  | .available => some row.message
  | .hidden | .redacted | .purged =>
    if includePlaceholder then some { row.message with content := "", placeholder := true }
    else none

-- The visibility of a message that was read from the table: no query selects the burn status.
def readVisibility : ContentVisibility := (legacyRetentionState 0).getD .available

def clampLimit (limit : Int) : Nat := (max 1 (min limit 1000)).toNat

def Row.between (row : Row) (afterSeq : Int) (beforeSeq : Option Int) : Bool :=
  decide (afterSeq < row.seq) && beforeSeq.all fun before => decide ((row.seq : Int) < before)

-- Times are in microseconds.
def Row.within (row : Row) (startTime endTime : Int) : Bool :=
  decide (startTime ≤ row.createdAt * 1000) && decide (row.createdAt * 1000 ≤ endTime)

def newerFirst (row other : Row) : Prop :=
  other.createdAt < row.createdAt ∨ (row.createdAt = other.createdAt ∧ other.seq ≤ row.seq)

instance : DecidableRel newerFirst := fun _ _ => inferInstanceAs (Decidable (_ ∨ _ ∧ _))

variable (content : Content)

def Content.window (afterSeq : Int) (beforeSeq : Option Int) : List Row :=
  content.rows.filter (·.between afterSeq beforeSeq)

-- `query_messages_by_seq` of the table.
def Content.bySeq (afterSeq : Int) (beforeSeq : Option Int) (limit : Int) : List Row :=
  let found := content.window afterSeq beforeSeq
  if isBackfillTailPage afterSeq beforeSeq then (found.reverse.take (clampLimit limit)).reverse
  else found.take (clampLimit limit)

-- `query_messages` of the table: the newest, oldest first.
def Content.byTime (startTime endTime limit : Int) : List Row :=
  (((content.rows.filter (·.within startTime endTime)).insertionSort newerFirst).take
    (clampLimit limit)).reverse

end Storage

section Redis

-- The entries of messages, the sorted set of the tail in the order of its scores, and those of
-- the ranges that were read, named by two seconds.
structure Cache where
  entry : String → Option ContentVisibility
  tail : List Row
  range : Int × Int → List Row

def emptyCache : Cache where
  entry _ := none
  tail := []
  range _ := []

def sessionQueryKey (startTime endTime : Int) : Int × Int :=
  (startTime / 1000000, endTime / 1000000)

-- The order of the members of a range.
def byScore (row other : Row) : Prop :=
  row.createdAt < other.createdAt ∨ (row.createdAt = other.createdAt ∧ row.serverId ≤ other.serverId)

instance : DecidableRel byScore := fun _ _ => inferInstanceAs (Decidable (_ ∨ _ ∧ _))

-- The commands of the writer and of earlier reads, and keys that expire.
inductive Command where
  | setHot (row : Row)
  | addTail (row : Row)
  | trimTail (tailLimit : Nat)
  | cacheMessages (startTime endTime limit : Int)
  | indexMessages (startTime endTime limit : Int)
  | expireMessage (serverId : String)
  | expireTail
  | expireRange (key : Int × Int)

-- What `store_hot` sends, one after the other.
def storeHot (tailLimit : Nat) (row : Row) : List Command :=
  [.setHot row, .addTail row, .trimTail (max tailLimit 1)]

def addMember (members : List Row) (row : Row) : List Row :=
  if row ∈ members then members else row :: members

-- The writer caches what is stored. A range takes the messages of the read with a time after 0.
def step (content : Content) (cache : Cache) : Command → Cache
  | .setHot row =>
    if row ∈ content.rows then
      { cache with entry := Function.update cache.entry row.serverId (some row.visibility) }
    else cache
  | .addTail row =>
    if row ∈ content.rows ∧ row ∉ cache.tail then
      { cache with tail := cache.tail.orderedInsert (fun row other => row.seq ≤ other.seq) row }
    else cache
  | .trimTail tailLimit => { cache with tail := cache.tail.drop (cache.tail.length - tailLimit) }
  | .cacheMessages startTime endTime limit =>
    { cache with
      entry := fun serverId =>
        if serverId ∈ (content.byTime startTime endTime limit).map (·.serverId) then
          some readVisibility
        else cache.entry serverId }
  | .indexMessages startTime endTime limit =>
    let key := sessionQueryKey startTime endTime
    let found := (content.byTime startTime endTime limit).filter fun row => 0 < row.createdAt
    { cache with range := Function.update cache.range key (found.foldl addMember (cache.range key)) }
  | .expireMessage serverId => { cache with entry := Function.update cache.entry serverId none }
  | .expireTail => { cache with tail := [] }
  | .expireRange key => { cache with range := Function.update cache.range key [] }

def run (content : Content) (commands : List Command) : Cache :=
  commands.foldl (step content) emptyCache

variable (cache : Cache)

-- The members of the tail that a read asks the entries of.
def Cache.tailWindow (afterSeq : Int) (beforeSeq : Option Int) (limit : Int) : List Row :=
  (cache.tail.filter (·.between afterSeq beforeSeq)).take (clampLimit limit)

def Cache.withEntries (rows : List Row) : List (Row × ContentVisibility) :=
  rows.filterMap fun row => (cache.entry row.serverId).map (row, ·)

def Cache.getTailMessagesBySeq (afterSeq : Int) (beforeSeq : Option Int) (limit : Int) :
    Option (List (Row × ContentVisibility)) :=
  match cache.tail with
  | [] => none
  | oldest :: _ =>
    if afterSeq < (oldest.seq : Int) - 1 then none
    else
      let rows := cache.tailWindow afterSeq beforeSeq limit
      if rows = [] then none
      else if (cache.withEntries rows).length ≠ rows.length then none
      else some (cache.withEntries rows)

-- The first members of a range.
def Cache.rangeMembers (startTime endTime limit : Int) : List Row :=
  ((cache.range (sessionQueryKey startTime endTime)).insertionSort byScore).take (clampLimit limit)

def Cache.getSessionMessages (startTime endTime limit : Int) :
    Option (List (Row × ContentVisibility)) :=
  let rows := cache.rangeMembers startTime endTime limit
  if rows = [] then none else some (cache.withEntries rows)

end Redis

-- An internal read.
inductive Read where
  | queryMessagesBySeq (afterSeq : Int) (beforeSeq : Option Int) (limit : Int)
      (includeBurnedPlaceholder : Bool)
  | queryMessages (startTime endTime limit : Int) (includeBurnedPlaceholder : Bool)

def visibleMessages (includePlaceholder : Bool) (found : List (Row × ContentVisibility)) :
    List Message :=
  found.filterMap fun entry => applyBurnQueryVisibility includePlaceholder entry.1 entry.2

def fromTable (rows : List Row) : List (Row × ContentVisibility) :=
  rows.map fun row => (row, readVisibility)

-- The answer of a read, with the cache or without one.
def answer (content : Content) (cache : Option Cache) : Read → List Message
  | .queryMessagesBySeq afterSeq beforeSeq limit placeholder =>
    visibleMessages placeholder
      ((cache.bind fun cache => cache.getTailMessagesBySeq afterSeq beforeSeq limit).getD
        (fromTable (content.bySeq afterSeq beforeSeq limit)))
  | .queryMessages startTime endTime limit placeholder =>
    visibleMessages placeholder
      ((cache.bind fun cache => cache.getSessionMessages startTime endTime limit).getD
        (fromTable (content.byTime startTime endTime limit)))

end FlareIm.ReaderCache
