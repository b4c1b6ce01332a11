import FlareIm.Lib.DecimalText
import FlareIm.Lib.Keyset
import FlareIm.Lib.Text
import Mathlib.Data.List.Sort
import Mathlib.Data.Prod.Lex
import Mathlib.Data.String.Basic

namespace FlareIm.SnapshotPaging

open Text DecimalText Keyset

def BOOTSTRAP_HARD_MAX_CONVERSATIONS : Nat := 5000
def SNAPSHOT_BOOTSTRAP_MAX_CONVERSATIONS : Int := 5000
def BOOTSTRAP_PAGE_CACHE_CAPACITY : Nat := 4096
def MIN_SNAPSHOT_PAGE_SIZE : Int := 1
def SYNC_INBOX_CONVERSATION_PREFIX : String := "sync:"

section Bootstrap

-- A conversation of a user's list in the database. Times are in microseconds; the tail is the
-- last message the user sees.
structure ConversationRow where
  conversationId : String
  updatedAt : Int
  joinedAt : Int
  participantUpdatedAt : Int
  messages : List Int
  tail : Option Int
  tail_mem : ∀ at', tail = some at' → at' ∈ messages
  lastMessageSeq : Int
  lastReadSeq : Int
  unreadCount : Int
  visibleAfterSeq : Int
  deriving DecidableEq

def ConversationRow.effectiveUpdatedAt (row : ConversationRow) : Int :=
  max (max row.updatedAt row.joinedAt)
    (max row.participantUpdatedAt (row.tail.getD row.updatedAt))

def timestampMillis (micros : Int) : Int := micros / 1000

-- The last millisecond of the calendar's years.
def MAX_UTC_MILLIS : Int := 8210266876799999

def fromTimestampMillis (millis : Int) : Option Int :=
  if millis ≤ MAX_UTC_MILLIS then some (millis * 1000) else none

def storageBoundary (updatedAfterMs : Int) : Option Int :=
  if 0 < updatedAfterMs then fromTimestampMillis updatedAfterMs else none

-- Any source of the effective time may lie behind the boundary.
def updatedSince (boundary : Option Int) (row : ConversationRow) : Bool :=
  match boundary with
  | none => true
  | some start => start < row.updatedAt || start < row.joinedAt ||
      start < row.participantUpdatedAt || row.messages.any (start < ·)

structure ConversationSummary where
  conversationId : String
  lastMessageTime : Option Int
  unreadCount : Int
  lastReadSeq : Int
  serverCursorTs : Option Int
  lastMessageSeq : Int
  visibleAfterSeq : Int

def summaryOf (row : ConversationRow) : ConversationSummary where
  conversationId := row.conversationId
  lastMessageTime := row.tail.map timestampMillis
  unreadCount := row.unreadCount
  lastReadSeq := row.lastReadSeq
  serverCursorTs := some (timestampMillis row.effectiveUpdatedAt)
  lastMessageSeq := row.lastMessageSeq
  visibleAfterSeq := max row.visibleAfterSeq 0

def loadBootstrap (rows : List ConversationRow) (updatedAfterMs : Int) :
    List ConversationSummary :=
  (rows.filter (updatedSince (storageBoundary updatedAfterMs))).map summaryOf

def validConversationSummaryId (conversationId : String) : Bool := !isBlank conversationId

-- Unread conversations come first, then those updated last.
def UnreadFirst (a b : ConversationSummary) : Prop :=
  b.unreadCount < a.unreadCount ∨
    b.unreadCount = a.unreadCount ∧ b.serverCursorTs.getD 0 ≤ a.serverCursorTs.getD 0

instance : DecidableRel UnreadFirst := fun _ _ => inferInstanceAs (Decidable (_ ∨ _))

def bootstrapConversation (maxBootstrapConversations : Nat) (rows : List ConversationRow)
    (updatedAfterMs maxConversations : Int) : List ConversationSummary :=
  let valid := (loadBootstrap rows updatedAfterMs).filter fun summary =>
    validConversationSummaryId summary.conversationId
  let cap := if 0 < maxConversations then
      min maxConversations.toNat BOOTSTRAP_HARD_MAX_CONVERSATIONS
    else maxBootstrapConversations
  (valid.insertionSort UnreadFirst).take cap

-- A row of the list as the conversation service sends it.
structure ProtoConversationSummary where
  conversationId : String
  unreadCount : Nat
  maxConversationSeq : Nat
  lastReadSeq : Nat
  visibleAfterConversationSeq : Nat
  updatedAt : Int

def laterOf (a b : Option Int) : Option Int :=
  match a, b with
  | some a, some b => some (max a b)
  | some a, none => some a
  | none, b => b

def protoSummary (summary : ConversationSummary) : ProtoConversationSummary where
  conversationId := summary.conversationId
  unreadCount := if 0 < max summary.visibleAfterSeq 0 ∧
      max summary.lastMessageSeq 0 ≤ max summary.visibleAfterSeq 0 then 0
    else (summary.unreadCount % 2 ^ 32).toNat
  maxConversationSeq := (max summary.lastMessageSeq 0).toNat
  lastReadSeq := max (max summary.lastReadSeq 0).toNat (max summary.visibleAfterSeq 0).toNat
  visibleAfterConversationSeq := (max summary.visibleAfterSeq 0).toNat
  updatedAt := (laterOf summary.lastMessageTime summary.serverCursorTs).getD 0

def conversationBootstrap (maxBootstrapConversations : Nat) (rows : List ConversationRow)
    (updatedAfterMs maxConversations : Int) : List ProtoConversationSummary :=
  (bootstrapConversation maxBootstrapConversations rows (max updatedAfterMs 0)
    (max maxConversations 0)).map protoSummary

end Bootstrap

section Cache

structure BootstrapCacheEntry where
  storedAt : Nat
  updatedAfterMs : Int
  resp : List ProtoConversationSummary

-- An entry for each tenant and user.
structure BootstrapPageCache where
  ttl : Nat
  inner : List ((String × String) × BootstrapCacheEntry) := []

def BootstrapCacheEntry.elapsed (entry : BootstrapCacheEntry) (now : Nat) : Nat :=
  now - entry.storedAt

def BootstrapPageCache.entry? (cache : BootstrapPageCache) (key : String × String) :
    Option BootstrapCacheEntry :=
  (cache.inner.find? (·.1 = key)).map (·.2)

def BootstrapPageCache.get (cache : BootstrapPageCache) (tenantId userId : String)
    (requestedUpdatedAfterMs : Int) (now : Nat) : Option (List ProtoConversationSummary) :=
  if cache.ttl = 0 then none
  else
    match cache.entry? (tenantId, userId) with
    | none => none
    | some entry =>
      if entry.elapsed now < cache.ttl ∧ entry.updatedAfterMs ≤ requestedUpdatedAfterMs then
        some entry.resp
      else none

-- A full cache drops what has expired, and everything where that is not enough.
def BootstrapPageCache.makeRoom (cache : BootstrapPageCache) (now : Nat) :
    List ((String × String) × BootstrapCacheEntry) :=
  if BOOTSTRAP_PAGE_CACHE_CAPACITY ≤ cache.inner.length then
    let live := cache.inner.filter fun (_, entry) => entry.elapsed now < cache.ttl
    if BOOTSTRAP_PAGE_CACHE_CAPACITY ≤ live.length then [] else live
  else cache.inner

def BootstrapPageCache.put (cache : BootstrapPageCache) (tenantId userId : String)
    (updatedAfterMs : Int) (resp : List ProtoConversationSummary) (now : Nat) :
    BootstrapPageCache :=
  if cache.ttl = 0 then cache
  else
    let room := { cache with inner := cache.makeRoom now }
    let fuller := match room.entry? (tenantId, userId) with
      | none => false
      | some existing => decide (existing.elapsed now < cache.ttl) &&
          decide (existing.updatedAfterMs < updatedAfterMs)
    if fuller then room
    else
      { room with
        inner := ((tenantId, userId), ⟨now, updatedAfterMs, resp⟩) ::
          room.inner.filter (·.1 ≠ (tenantId, userId)) }

end Cache

section Handler

def parseSnapshotCursor (cursor : String) : Option (Int × String) :=
  if cursor = "" then none
  else
    match splitOnce '|' cursor.toList with
    | some (ms, cid) => (parseI64 ms).map fun ms => (ms, String.ofList cid)
    | none => (parseI64 cursor.toList).map fun ms => (ms, "")

def buildSnapshotCursor (ms : Int) (conversationId : String) : String :=
  toString ms ++ "|" ++ conversationId

def validSyncConversationId (conversationId : String) : Bool :=
  let trimmed := trim conversationId
  trimmed != "" && !SYNC_INBOX_CONVERSATION_PREFIX.toList.isPrefixOf trimmed.toList

structure SyncSnapshotSync where
  conversationIds : List String := []
  messagesPerConversation : Int := 0
  snapshotCursor : String := ""
  newestFirst : Bool := false
  conversationPageLimit : Int := 0

structure SnapshotConversationRow where
  conversationId : String
  lastConversationSeq : Nat
  lastMessageAt : Int
  unreadCount : Nat
  lastReadSeq : Nat
  visibleAfterConversationSeq : Nat
  deriving DecidableEq

-- Only an ascending list may leave out what is older than its cursor.
def updatedAfter (req : SyncSnapshotSync) : Int :=
  if req.conversationIds = [] ∧ req.newestFirst = false then
    match parseSnapshotCursor req.snapshotCursor with
    | some (ms, _) => max (max (ms - 1) (-2 ^ 63)) 0
    | none => 0
  else 0

def snapshotRow (bootstrap : ProtoConversationSummary) : SnapshotConversationRow where
  conversationId := bootstrap.conversationId
  lastConversationSeq := if bootstrap.maxConversationSeq < 2 ^ 63 then
      bootstrap.maxConversationSeq else 0
  lastMessageAt := bootstrap.updatedAt
  unreadCount := if bootstrap.unreadCount < 2 ^ 31 then bootstrap.unreadCount else 0
  lastReadSeq := bootstrap.lastReadSeq
  visibleAfterConversationSeq := bootstrap.visibleAfterConversationSeq

-- Times first, then ids.
abbrev Key := Int ×ₗ String

def keyOf (bootstrap : ProtoConversationSummary) : Key :=
  toLex (bootstrap.updatedAt, bootstrap.conversationId)

def Before (newestFirst : Bool) (a b : Key) : Prop :=
  if newestFirst then b < a else a < b

instance (newestFirst : Bool) : DecidableRel (Before newestFirst) := fun a b =>
  inferInstanceAs (Decidable (if newestFirst = true then b < a else a < b))

-- The valid and wanted summaries; of two with one id the later one stays.
def candidateIndex (req : SyncSnapshotSync) (resp : List ProtoConversationSummary) :
    List ProtoConversationSummary :=
  (resp.filter fun bootstrap => validSyncConversationId bootstrap.conversationId &&
    (req.conversationIds = [] || bootstrap.conversationId ∈ req.conversationIds)).foldl
    (fun index bootstrap =>
      index.filter (·.conversationId ≠ bootstrap.conversationId) ++ [bootstrap]) []

def pageLimit (req : SyncSnapshotSync) : Nat :=
  (max (if 0 < req.conversationPageLimit then req.conversationPageLimit
    else max req.messagesPerConversation MIN_SNAPSHOT_PAGE_SIZE) MIN_SNAPSHOT_PAGE_SIZE).toNat

def snapshotPage (req : SyncSnapshotSync) (resp : List ProtoConversationSummary) :
    Page String SnapshotConversationRow :=
  let index := candidateIndex req resp
  let ordered := inOrder (Before req.newestFirst) id (index.map keyOf)
  let pageKeys := beyond (Before req.newestFirst) id
    ((parseSnapshotCursor req.snapshotCursor).map toLex) ordered
  let shown := pageKeys.take (pageLimit req)
  { rows := shown.filterMap fun key =>
      (index.find? (·.conversationId = (ofLex key).2)).map snapshotRow
    next := match shown.getLast? with
      | some key => buildSnapshotCursor (ofLex key).1 (ofLex key).2
      | none => ""
    hasMore := pageLimit req < pageKeys.length }

-- When the page cache is read, and when a fresh answer is put into it.
structure Clock where
  get : Nat
  put : Nat

-- A page behind the first is served from the cache when it can be. `fresh` is the answer of
-- the conversation service for a boundary, none when it does not answer.
def getSyncSnapshot (clock : Clock) (cache : BootstrapPageCache) (tenantId userId : String)
    (fresh : Int → Option (List ProtoConversationSummary)) (req : SyncSnapshotSync) :
    BootstrapPageCache × Option (Page String SnapshotConversationRow) :=
  let cached := if isBlank req.snapshotCursor then none
    else cache.get tenantId userId (updatedAfter req) clock.get
  match cached with
  | some resp => (cache, some (snapshotPage req resp))
  | none =>
    match fresh (updatedAfter req) with
    | none => (cache, none)
    | some resp => (cache.put tenantId userId (updatedAfter req) resp clock.put,
        some (snapshotPage req resp))

structure ConversationsSync where
  cursor : String := ""
  limit : Int := 0

def conversationsSync (clock : Clock) (cache : BootstrapPageCache) (tenantId userId : String)
    (fresh : Int → Option (List ProtoConversationSummary)) (req : ConversationsSync) :
    BootstrapPageCache × Option (Page String SnapshotConversationRow) :=
  let clientCursor := trim req.cursor
  let (cache, outcome) := getSyncSnapshot clock cache tenantId userId fresh
    { messagesPerConversation := 1
      snapshotCursor := clientCursor
      conversationPageLimit := max req.limit 1 }
  (cache, outcome.map fun response =>
    { rows := response.rows.filter fun row => validSyncConversationId row.conversationId
      next := if response.next ≠ "" then response.next else clientCursor
      hasMore := response.hasMore })

end Handler

end FlareIm.SnapshotPaging
