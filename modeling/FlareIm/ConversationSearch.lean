import FlareIm.Lib.Fallible
import FlareIm.Lib.SqlText
import FlareIm.Lib.Text
import Mathlib.Data.String.Basic

namespace FlareIm.ConversationSearch

open SqlText Text Fallible

section Request

inductive ConversationType where
  | unspecified | single | group | ai | system | customer | temp | channel | broadcast

def ConversationType.asInt : ConversationType → Int
  | .unspecified => 0
  | .single => 1
  | .group => 2
  | .ai => 3
  | .system => 4
  | .customer => 5
  | .temp => 6
  | .channel => 7
  | .broadcast => 8

inductive ConversationLifecycleState where
  | unspecified | active | suspended | archived | deleted

def ConversationLifecycleState.asStr : ConversationLifecycleState → String
  | .unspecified => "unspecified"
  | .active => "active"
  | .suspended => "suspended"
  | .archived => "archived"
  | .deleted => "deleted"

inductive ConversationVisibility where
  | unspecified | private_ | tenant | public_

def ConversationVisibility.asProto : ConversationVisibility → Int
  | .unspecified => 0
  | .private_ => 1
  | .tenant => 2
  | .public_ => 3

structure ConversationFilter where
  conversationType : Option ConversationType
  businessType : Option String
  lifecycleState : Option ConversationLifecycleState
  visibility : Option ConversationVisibility
  participantUserId : Option String

structure ConversationSort where
  field : String
  ascending : Bool

inductive Value where
  | text (value : String)
  | int (value : Int)

structure SearchRequest where
  tenantId : String
  userId : Option String
  filters : List ConversationFilter
  sort : List ConversationSort
  limit : Nat
  offset : Nat

end Request

section Query

def baseQuery (hasUser : Bool) : String :=
  if hasUser then "
            SELECT DISTINCT
                s.conversation_id,
                s.conversation_type,
                s.business_type,
                s.display_name,
                s.attributes,
                s.visibility,
                s.lifecycle_state,
                s.updated_at,
                COALESCE(s.channel_id, '') as channel_id,
                COALESCE(s.last_message_seq, 0) as last_message_seq,
                COALESCE(sp.unread_count, 0) as unread_count,
                -- 本人列表的已读位置（见 load_bootstrap）。
                GREATEST(COALESCE(sp.last_read_seq, 0), COALESCE(sp.last_sync_seq, 0)) as last_read_seq
            FROM conversations s
            "
  else "
            SELECT DISTINCT
                s.conversation_id,
                s.conversation_type,
                s.business_type,
                s.display_name,
                s.attributes,
                s.visibility,
                s.lifecycle_state,
                s.updated_at,
                COALESCE(s.channel_id, '') as channel_id,
                COALESCE(s.last_message_seq, 0) as last_message_seq,
                0 as unread_count,
                0 as last_read_seq
            FROM conversations s
            "

-- A condition of the WHERE clause, and the number of its placeholder if it has one.
inductive Condition where
  | equals (qualifier column : String) (bindIndex : Nat)
  | notHidden
  | notDeleted

def Condition.sql : Condition → String
  | .equals qualifier column bindIndex => qualifier ++ "." ++ column ++ " = $" ++ toString bindIndex
  | .notHidden => "NOT COALESCE(sp.is_deleted, false)"
  | .notDeleted => "s.lifecycle_state != 'deleted'"

def Condition.qualifier : Condition → String
  | .equals qualifier _ _ => qualifier
  | .notHidden => "sp"
  | .notDeleted => "s"

-- The text so far, with the aliases of its joins, the conditions and the next placeholder.
structure Builder where
  query : String
  joined : List String
  conditions : List Condition
  bindIndex : Nat

def Builder.join (builder : Builder) (qualifier : String) : Builder :=
  { builder with
    query := builder.query ++ ("INNER JOIN " ++ "conversation_participants" ++ (" " ++ qualifier ++
      " ON s.tenant_id = " ++ qualifier ++ ".tenant_id AND s.conversation_id = " ++ qualifier ++
      ".conversation_id\n"))
    joined := builder.joined ++ [qualifier] }

def Builder.compare (builder : Builder) (qualifier column : String) : Builder :=
  { builder with
    conditions := builder.conditions ++ [.equals qualifier column builder.bindIndex]
    bindIndex := builder.bindIndex + 1 }

def Builder.require (builder : Builder) (condition : Condition) : Builder :=
  { builder with conditions := builder.conditions ++ [condition] }

def namesParticipants (query : String) : Bool :=
  decide ("conversation_participants".toList <:+: query.toList)

def Builder.compareIf (builder : Builder) (wanted : Bool) (qualifier column : String) : Builder :=
  if wanted then builder.compare qualifier column else builder

def Builder.filter (builder : Builder) (filter : ConversationFilter) : Builder :=
  let builder := builder.compareIf filter.conversationType.isSome "s" "conversation_type"
  let builder := builder.compareIf filter.businessType.isSome "s" "business_type"
  let builder := builder.compareIf filter.lifecycleState.isSome "s" "lifecycle_state"
  let builder := builder.compareIf filter.visibility.isSome "s" "visibility"
  if filter.participantUserId.isSome then
    let builder := if namesParticipants builder.query then builder else builder.join "sp2"
    (builder.compare "sp2" "tenant_id").compare "sp2" "user_id"
  else builder

variable (request : SearchRequest)

def startBuilder : Builder :=
  let hasUser := request.userId.isSome
  let builder : Builder := ⟨baseQuery hasUser, [], [], 1⟩
  let builder := if hasUser then builder.join "sp" else builder
  let builder := builder.compare "s" "tenant_id"
  if hasUser then
    ((builder.compare "sp" "tenant_id").compare "sp" "user_id").require .notHidden
  else builder

def buildConditions : Builder :=
  (request.filters.foldl Builder.filter (startBuilder request)).require .notDeleted

def ConversationSort.column (sort : ConversationSort) : String :=
  if sort.field = "created_at" then "s.created_at"
  else if sort.field = "updated_at" then "s.updated_at"
  else if sort.field = "conversation_type" then "s.conversation_type"
  else if sort.field = "business_type" then "s.business_type"
  else "s.updated_at"

def ConversationSort.clause (sort : ConversationSort) : String :=
  sort.column ++ " " ++ (if sort.ascending then "ASC" else "DESC")

def orderClauses : List String :=
  if request.sort = [] then ["s.updated_at DESC"] else request.sort.map (·.clause)

def searchQuery : String :=
  let builder := buildConditions request
  builder.query ++ ("WHERE " ++ String.intercalate " AND " (builder.conditions.map (·.sql)) ++
    " ORDER BY " ++ String.intercalate ", " (orderClauses request) ++
      " LIMIT $" ++ toString builder.bindIndex ++ " OFFSET $" ++ toString (builder.bindIndex + 1))

-- The loop that binds the values of the filters.
def filterBinds (tenantId : String) (filter : ConversationFilter) : List Value :=
  (filter.conversationType.map fun kind => .int kind.asInt).toList ++
    (filter.businessType.map .text).toList ++
    (filter.lifecycleState.map fun state => .text state.asStr).toList ++
    (filter.visibility.map fun shown => .int shown.asProto).toList ++
    (match filter.participantUserId with
    | some userId => [.text tenantId, .text userId]
    | none => [])

def searchBinds : List Value :=
  [.text request.tenantId] ++
    (match request.userId with
    | some userId => [.text request.tenantId, .text userId]
    | none => []) ++ request.filters.flatMap (filterBinds request.tenantId)

-- An unsigned number of 64 bits as a signed one, and back.
def asI64 (n : Nat) : Int := (n + 2 ^ 63) % 2 ^ 64 - 2 ^ 63

def asUsize (n : Int) : Nat := (n % 2 ^ 64).toNat

def pageBinds : List Value :=
  searchBinds request ++ [.int (asI64 request.limit), .int (asI64 request.offset)]

def countQuery (query : String) : String :=
  String.ofList (beforeFirst "LIMIT".toList (replaceFrom "SELECT DISTINCT".toList
    "SELECT COUNT(DISTINCT s.conversation_id)".toList 0 query.toList))

end Query

section Search

-- What the database answers to a statement and its values: the rows of a list with what belongs to
-- them, and the number of a count.
structure Database (Row : Type) where
  rows : String → List Value → Option (List Row)
  scalar : String → List Value → Option Int

inductive SearchError where
  | invalidParameter (message : String)
  | databaseError (message : String)

variable {Row : Type} (database : Database Row) (request : SearchRequest)

-- A tenant that is not given is blank.
def searchConversations : Except SearchError (List Row × Nat) := do
  refuseIf (isBlank request.tenantId)
    (.invalidParameter "tenant required for conversation storage")
  match database.rows (searchQuery request) (pageBinds request) with
  | none => .error (.databaseError "Failed to search conversations")
  | some rows =>
    let total := database.scalar (countQuery (searchQuery request)) (searchBinds request)
    .ok (rows, asUsize (total.getD 0))

end Search

end FlareIm.ConversationSearch
