import FlareIm.ConversationSearch

namespace FlareIm.ConversationSearch

open SqlText Text Fallible

section Purpose

variable {Row : Type} (database : Database Row) (request : SearchRequest)

-- The aliases the text refers to, and those its FROM clause gives.
def aliasesUsed : List String :=
  (qualifiers (tokens (baseQuery request.userId.isSome).toList)).map String.ofList ++
    (buildConditions request).conditions.map (·.qualifier) ++
      (orderClauses request).flatMap fun clause =>
        (qualifiers (tokens clause.toList)).map String.ofList

def aliasesJoined : List String :=
  "s" :: (buildConditions request).joined

def AliasesJoined : Prop :=
  ∀ name ∈ aliasesUsed request, name ∈ aliasesJoined request

-- What a filter compares, and with which value.
def filterComparisons (tenantId : String) (filter : ConversationFilter) :
    List ((String × String) × Value) :=
  (filter.conversationType.map fun kind => (("s", "conversation_type"), .int kind.asInt)).toList ++
    (filter.businessType.map fun kind => (("s", "business_type"), .text kind)).toList ++
    (filter.lifecycleState.map fun state => (("s", "lifecycle_state"), .text state.asStr)).toList ++
    (filter.visibility.map fun shown => (("s", "visibility"), .int shown.asProto)).toList ++
    (match filter.participantUserId with
    | some userId => [(("sp2", "tenant_id"), .text tenantId), (("sp2", "user_id"), .text userId)]
    | none => [])

def comparisons : List ((String × String) × Value) :=
  [(("s", "tenant_id"), .text request.tenantId)] ++
    (match request.userId with
    | some userId =>
      [(("sp", "tenant_id"), .text request.tenantId), (("sp", "user_id"), .text userId)]
    | none => []) ++ request.filters.flatMap (filterComparisons request.tenantId)

-- What a condition of the text compares with the value bound to its placeholder.
def Condition.bound (binds : List Value) : Condition → Option ((String × String) × Option Value)
  | .equals qualifier column bindIndex => some ((qualifier, column), binds[bindIndex - 1]?)
  | _ => none

def PlaceholdersBound : Prop :=
  let builder := buildConditions request
  builder.conditions.filterMap (·.bound (pageBinds request)) =
      (comparisons request).map (fun wanted => (wanted.1, some wanted.2)) ∧
    (pageBinds request)[builder.bindIndex - 1]? = some (.int (asI64 request.limit)) ∧
    (pageBinds request)[builder.bindIndex]? = some (.int (asI64 request.offset))

def CountQueryValid : Prop :=
  (database.scalar (countQuery (searchQuery request)) (searchBinds request)).isSome

structure StoredConversation where
  tenantId : String
  conversationId : String
  conversationType : Int
  businessType : String
  lifecycleState : String
  visibility : Int

structure StoredParticipant where
  tenantId : String
  conversationId : String
  userId : String
  isDeleted : Bool

structure Tables where
  conversations : List StoredConversation
  participants : List StoredParticipant

def StoredConversation.has (tables : Tables) (conversation : StoredConversation) (userId : String)
    (hiddenToo : Bool) : Bool :=
  tables.participants.any fun participant =>
    participant.tenantId == conversation.tenantId &&
      participant.conversationId == conversation.conversationId && participant.userId == userId &&
        (hiddenToo || !participant.isDeleted)

def StoredConversation.passes (tables : Tables) (conversation : StoredConversation)
    (filter : ConversationFilter) : Bool :=
  (filter.conversationType.all fun kind => conversation.conversationType == kind.asInt) &&
    (filter.businessType.all fun kind => conversation.businessType == kind) &&
    (filter.lifecycleState.all fun state => conversation.lifecycleState == state.asStr) &&
    (filter.visibility.all fun visibility => conversation.visibility == visibility.asProto) &&
    (filter.participantUserId.all fun userId => conversation.has tables userId true)

-- The conversations of the tenant, and of the caller if there is one, that pass all filters.
def Tables.matching (tables : Tables) : List StoredConversation :=
  tables.conversations.filter fun conversation =>
    conversation.tenantId == request.tenantId && conversation.lifecycleState != "deleted" &&
      (request.userId.all fun userId => conversation.has tables userId false) &&
        request.filters.all (conversation.passes tables)

def TotalExact (tables : Tables) : Prop :=
  ∀ rows total, searchConversations database request = .ok (rows, total) →
    total = (tables.matching request).length

def SearchSound (tables : Tables) : Prop :=
  AliasesJoined request ∧ PlaceholdersBound request ∧ CountQueryValid database request ∧
    TotalExact database request tables

-- PostgreSQL answers a statement that begins like SELECT f(a.b) c.d with a syntax error.
def RefusesColumnAfterCall : Prop :=
  ∀ text binds, columnAfterCall (tokens text.toList) = true → database.scalar text binds = none

end Purpose

section Placeholders

variable {request : SearchRequest} {builder : Builder} {wanted : List ((String × String) × Value)}

-- The conditions compare what is wanted, with placeholders that count from one.
structure Aligned (builder : Builder) (wanted : List ((String × String) × Value)) : Prop where
  next : builder.bindIndex = wanted.length + 1
  bound : ∀ later, builder.conditions.filterMap (·.bound (wanted.map (·.2) ++ later)) =
    wanted.map fun comparison => (comparison.1, some comparison.2)

theorem Aligned.compare (h : Aligned builder wanted) (qualifier column : String) (value : Value) :
    Aligned (builder.compare qualifier column) (wanted ++ [((qualifier, column), value)]) where
  next := by
    rw [Builder.compare, List.length_append, List.length_singleton, h.next]
  bound later := by
    have hb := h.bound (value :: later)
    have hbi : (wanted ++ [((qualifier, column), value)]).map (·.2) ++ later =
        wanted.map (·.2) ++ value :: later := by simp
    rw [hbi, Builder.compare, List.filterMap_append, hb, List.map_append]
    simp [Condition.bound, h.next]

theorem Aligned.require (h : Aligned builder wanted) {condition : Condition}
    (hf : ∀ binds, condition.bound binds = none) : Aligned (builder.require condition) wanted where
  next := h.next
  bound later := by
    rw [Builder.require, List.filterMap_append, h.bound later]
    simp [hf]

theorem Aligned.compareIf (h : Aligned builder wanted) {Kind : Type} (asked : Option Kind)
    (qualifier column : String) (value : Kind → Value) :
    Aligned (builder.compareIf asked.isSome qualifier column)
      (wanted ++ (asked.map fun kind => ((qualifier, column), value kind)).toList) := by
  cases asked with
  | none => simpa [Builder.compareIf] using h
  | some kind => exact h.compare qualifier column (value kind)

theorem Aligned.join (h : Aligned builder wanted) (qualifier : String) :
    Aligned (builder.join qualifier) wanted :=
  ⟨h.next, h.bound⟩

theorem Aligned.filter (h : Aligned builder wanted) (tenantId : String)
    (filter : ConversationFilter) :
    Aligned (builder.filter filter) (wanted ++ filterComparisons tenantId filter) := by
  have hf := (((h.compareIf filter.conversationType "s" "conversation_type"
    (.int ·.asInt)).compareIf filter.businessType "s" "business_type" .text).compareIf
      filter.lifecycleState "s" "lifecycle_state" (.text ·.asStr)).compareIf filter.visibility
        "s" "visibility" (.int ·.asProto)
  rw [filterComparisons, Builder.filter]
  simp only [← List.append_assoc]
  cases filter.participantUserId with
  | none => simpa using hf
  | some userId =>
    simp only [Option.isSome_some, if_true]
    rw [List.append_cons]
    refine (Aligned.compare ?_ "sp2" "tenant_id" (.text tenantId)).compare "sp2" "user_id"
      (.text userId)
    split
    · exact hf
    · exact hf.join "sp2"

theorem aligned_foldl (h : Aligned builder wanted) (tenantId : String)
    (filters : List ConversationFilter) : Aligned (filters.foldl Builder.filter builder)
      (wanted ++ filters.flatMap (filterComparisons tenantId)) := by
  induction filters generalizing builder wanted with
  | nil => simpa using h
  | cons filter filters ih =>
    rw [List.foldl_cons, List.flatMap_cons, ← List.append_assoc]
    exact ih (h.filter tenantId filter)

theorem aligned_buildConditions : Aligned (buildConditions request) (comparisons request) := by
  have hem (query : String) : Aligned ⟨query, [], [], 1⟩ [] := ⟨rfl, fun _ => rfl⟩
  refine Aligned.require (aligned_foldl ?_ request.tenantId request.filters) fun _ => rfl
  rw [startBuilder]
  cases request.userId with
  | none => exact (hem _).compare "s" "tenant_id" _
  | some userId =>
    refine Aligned.require ?_ fun _ => rfl
    exact ((((hem _).join "sp").compare "s" "tenant_id" _).compare "sp" "tenant_id" _).compare
      "sp" "user_id" _

theorem filterBinds_eq (tenantId : String) (filter : ConversationFilter) :
    filterBinds tenantId filter = (filterComparisons tenantId filter).map (·.2) := by
  rcases filter with ⟨_ | _, _ | _, _ | _, _ | _, _ | _⟩ <;> rfl

theorem searchBinds_eq : searchBinds request = (comparisons request).map (·.2) := by
  have hf : filterBinds request.tenantId =
      fun filter => (filterComparisons request.tenantId filter).map (·.2) :=
    funext (filterBinds_eq request.tenantId)
  rw [searchBinds, comparisons, List.map_append, List.map_append, List.map_flatMap, hf]
  cases request.userId <;> rfl

theorem placeholdersBound (request : SearchRequest) : PlaceholdersBound request := by
  obtain ⟨hn, hbo⟩ := @aligned_buildConditions request
  have hb : pageBinds request = (comparisons request).map (·.2) ++
      [.int (asI64 request.limit), .int (asI64 request.offset)] := by
    rw [pageBinds, searchBinds_eq]
  have hl : ((comparisons request).map (·.2)).length = (comparisons request).length :=
    List.length_map _
  refine ⟨?_, ?_, ?_⟩
  · rw [hb]
    exact hbo _
  · rw [hb, hn, Nat.add_sub_cancel, List.getElem?_append_right hl.le, hl, Nat.sub_self]
    rfl
  · rw [hb, hn, List.getElem?_append_right (by omega), hl, Nat.add_sub_cancel_left]
    rfl

end Placeholders

section Aliases

variable {request : SearchRequest} {builder : Builder} {filter : ConversationFilter}

theorem namesParticipants_join (builder : Builder) (qualifier : String) :
    namesParticipants (builder.join qualifier).query = true := by
  refine decide_eq_true ?_
  simp only [Builder.join, String.toList_append]
  exact ((List.suffix_append _ _).isInfix.trans (List.prefix_append _ _).isInfix).trans
    (List.suffix_append _ _).isInfix

@[simp] theorem query_compareIf (builder : Builder) (wanted : Bool) (qualifier column : String) :
    (builder.compareIf wanted qualifier column).query = builder.query := by
  unfold Builder.compareIf
  split <;> rfl

@[simp] theorem joined_compareIf (builder : Builder) (wanted : Bool) (qualifier column : String) :
    (builder.compareIf wanted qualifier column).joined = builder.joined := by
  unfold Builder.compareIf
  split <;> rfl

theorem filter_joins (builder : Builder) (filter : ConversationFilter) :
    let joined :=
      if filter.participantUserId.isSome && !namesParticipants builder.query then builder.join "sp2"
      else builder
    (builder.filter filter).query = joined.query ∧
      (builder.filter filter).joined = joined.joined := by
  simp only [Builder.filter]
  cases filter.participantUserId with
  | none => simp
  | some userId =>
    simp only [query_compareIf]
    cases namesParticipants builder.query with
    | true => simp [Builder.compare]
    | false => simp [Builder.compare, Builder.join]

theorem filter_named (h : namesParticipants builder.query = true) :
    namesParticipants (builder.filter filter).query = true ∧
      (builder.filter filter).joined = builder.joined := by
  obtain ⟨hq, hj⟩ := filter_joins builder filter
  simp only [h, Bool.not_true, Bool.and_false, Bool.false_eq_true, if_false] at hq hj
  exact ⟨(congrArg namesParticipants hq).trans h, hj⟩

theorem foldl_named (h : namesParticipants builder.query = true)
    (filters : List ConversationFilter) :
    (filters.foldl Builder.filter builder).joined = builder.joined := by
  induction filters generalizing builder with
  | nil => rfl
  | cons filter filters ih =>
    obtain ⟨hn, hj⟩ := @filter_named builder filter h
    rw [List.foldl_cons, ih hn, hj]

theorem foldl_unnamed (h : namesParticipants builder.query = false)
    (filters : List ConversationFilter) : (filters.foldl Builder.filter builder).joined =
      if filters.any (·.participantUserId.isSome) then builder.joined ++ ["sp2"]
      else builder.joined := by
  induction filters generalizing builder with
  | nil => rfl
  | cons filter filters ih =>
    obtain ⟨hq, hj⟩ := filter_joins builder filter
    rw [List.foldl_cons, List.any_cons]
    cases ha : filter.participantUserId.isSome with
    | true =>
      simp only [ha, h, Bool.not_false, Bool.and_true, if_true] at hq hj
      have hn : namesParticipants (builder.filter filter).query = true :=
        (congrArg namesParticipants hq).trans (namesParticipants_join builder "sp2")
      rw [foldl_named hn, hj]
      rfl
    | false =>
      simp only [ha, Bool.false_and, Bool.false_eq_true, if_false] at hq hj
      have hu : namesParticipants (builder.filter filter).query = false :=
        (congrArg namesParticipants hq).trans h
      rw [ih hu, hj, Bool.false_or]

theorem baseQuery_unnamed : namesParticipants (baseQuery false) = false := by
  refine decide_eq_false ?_
  rw [baseQuery, if_neg (by decide), String.toList_ofList, String.toList_ofList]
  decide +kernel

theorem joined_buildConditions : (buildConditions request).joined =
    if request.userId.isSome then ["sp"]
    else if request.filters.any (·.participantUserId.isSome) then ["sp2"] else [] := by
  change (request.filters.foldl Builder.filter (startBuilder request)).joined = _
  cases hu : request.userId with
  | none =>
    have hs : (startBuilder request).query = baseQuery false ∧
        (startBuilder request).joined = [] := by
      simp [startBuilder, hu, Builder.compare]
    have hun := (congrArg namesParticipants hs.1).trans baseQuery_unnamed
    rw [foldl_unnamed hun, hs.2]
    rfl
  | some userId =>
    have hs : (startBuilder request).query =
          ((⟨baseQuery true, [], [], 1⟩ : Builder).join "sp").query ∧
        (startBuilder request).joined = ["sp"] := by
      simp [startBuilder, hu, Builder.compare, Builder.require, Builder.join]
    have hn := (congrArg namesParticipants hs.1).trans (namesParticipants_join _ "sp")
    rw [foldl_named hn, hs.2]
    rfl

-- The aliases of the conditions that a filter adds.
def filterQualifiers (filter : ConversationFilter) : List String :=
  (if filter.conversationType.isSome then ["s"] else []) ++
    (if filter.businessType.isSome then ["s"] else []) ++
    (if filter.lifecycleState.isSome then ["s"] else []) ++
    (if filter.visibility.isSome then ["s"] else []) ++
    (if filter.participantUserId.isSome then ["sp2", "sp2"] else [])

theorem qualifiers_compareIf (builder : Builder) (wanted : Bool) (qualifier column : String) :
    (builder.compareIf wanted qualifier column).conditions.map (·.qualifier) =
      builder.conditions.map (·.qualifier) ++ if wanted then [qualifier] else [] := by
  cases wanted <;> simp [Builder.compareIf, Builder.compare, Condition.qualifier]

theorem qualifiers_filter (builder : Builder) (filter : ConversationFilter) :
    (builder.filter filter).conditions.map (·.qualifier) =
      builder.conditions.map (·.qualifier) ++ filterQualifiers filter := by
  have hj {builder' : Builder} :
      (if namesParticipants builder'.query then builder' else builder'.join "sp2").conditions =
        builder'.conditions := by
    split <;> rfl
  rw [Builder.filter, filterQualifiers]
  cases filter.participantUserId with
  | none => simp [qualifiers_compareIf]
  | some userId =>
    simp only [Option.isSome_some, if_true, Builder.compare, List.map_append, hj,
      qualifiers_compareIf, List.append_assoc]
    rfl

theorem qualifiers_foldl (builder : Builder) (filters : List ConversationFilter) :
    (filters.foldl Builder.filter builder).conditions.map (·.qualifier) =
      builder.conditions.map (·.qualifier) ++ filters.flatMap filterQualifiers := by
  induction filters generalizing builder with
  | nil => simp
  | cons filter filters ih =>
    rw [List.foldl_cons, ih, qualifiers_filter, List.flatMap_cons, List.append_assoc]

theorem qualifiers_buildConditions : (buildConditions request).conditions.map (·.qualifier) =
      ["s"] ++ (if request.userId.isSome then ["sp", "sp", "sp"] else []) ++
        request.filters.flatMap filterQualifiers ++ ["s"] := by
  rw [buildConditions, Builder.require, List.map_append, qualifiers_foldl]
  congr 2
  rw [startBuilder]
  cases request.userId <;> rfl

theorem mem_filterQualifiers {name : String} (h : name ∈ filterQualifiers filter) :
    name = "s" ∨ (name = "sp2" ∧ filter.participantUserId.isSome) := by
  simp only [filterQualifiers, List.mem_append] at h
  rcases h with (((h | h) | h) | h) | h
  · exact Or.inl (by simp_all)
  · exact Or.inl (by simp_all)
  · exact Or.inl (by simp_all)
  · exact Or.inl (by simp_all)
  · exact Or.inr (by simp_all)

theorem mem_baseQualifiers {ha : Bool} {name : List Char}
    (h : name ∈ qualifiers (tokens (baseQuery ha).toList)) :
    name = "s".toList ∨ (name = "sp".toList ∧ ha) := by
  cases ha with
  | false =>
    have hal : ∀ name ∈ qualifiers (tokens (baseQuery false).toList), name = ['s'] := by
      rw [baseQuery, if_neg (by decide), String.toList_ofList]
      decide +kernel
    exact Or.inl (hal name h)
  | true =>
    have hal : ∀ name ∈ qualifiers (tokens (baseQuery true).toList),
        name = ['s'] ∨ name = ['s', 'p'] := by
      rw [baseQuery, if_pos rfl, String.toList_ofList]
      decide +kernel
    exact (hal name h).imp_right fun hn => ⟨hn, rfl⟩

theorem qualifiers_orderClauses {clause : String} (h : clause ∈ orderClauses request) :
    qualifiers (tokens clause.toList) = [['s']] := by
  unfold orderClauses at h
  split at h
  · obtain rfl := List.mem_singleton.mp h
    decide +kernel
  · obtain ⟨sort, -, rfl⟩ := List.mem_map.mp h
    unfold ConversationSort.clause ConversationSort.column
    split_ifs <;> decide +kernel

theorem mem_aliasesUsed {name : String} (h : name ∈ aliasesUsed request) :
    name = "s" ∨ (name = "sp" ∧ request.userId.isSome) ∨
      (name = "sp2" ∧ ∃ filter ∈ request.filters, filter.participantUserId.isSome) := by
  simp only [aliasesUsed, qualifiers_buildConditions, List.mem_append] at h
  rcases h with (hb | ((hs | hc) | hf) | hs) | ho
  · obtain ⟨chars, hch, rfl⟩ := List.mem_map.mp hb
    rcases mem_baseQualifiers hch with rfl | ⟨rfl, hu⟩
    · exact Or.inl rfl
    · exact Or.inr (Or.inl ⟨rfl, hu⟩)
  · exact Or.inl (List.mem_singleton.mp hs)
  · refine Or.inr (Or.inl ?_)
    split at hc
    · rename_i hu
      exact ⟨by simpa using hc, hu⟩
    · exact absurd hc List.not_mem_nil
  · obtain ⟨filter, hm, hn⟩ := List.mem_flatMap.mp hf
    rcases mem_filterQualifiers hn with hs | ⟨hsp, ha⟩
    · exact Or.inl hs
    · exact Or.inr (Or.inr ⟨hsp, filter, hm, ha⟩)
  · exact Or.inl (List.mem_singleton.mp hs)
  · obtain ⟨clause, hcl, hn⟩ := List.mem_flatMap.mp ho
    rw [qualifiers_orderClauses hcl] at hn
    exact Or.inl (List.mem_singleton.mp hn)

theorem sp2_mem_aliasesUsed (hm : filter ∈ request.filters)
    (ha : filter.participantUserId.isSome) : "sp2" ∈ aliasesUsed request := by
  have hn : "sp2" ∈ filterQualifiers filter := by simp [filterQualifiers, ha]
  simp only [aliasesUsed, qualifiers_buildConditions, List.mem_append]
  exact Or.inl (Or.inr (Or.inl (Or.inr (List.mem_flatMap.mpr ⟨filter, hm, hn⟩))))

theorem aliasesJoined_iff : AliasesJoined request ↔
    ¬ (request.userId.isSome ∧ ∃ filter ∈ request.filters, filter.participantUserId.isSome) := by
  constructor
  · rintro h ⟨hu, filter, hm, ha⟩
    have hj := h "sp2" (sp2_mem_aliasesUsed hm ha)
    rw [aliasesJoined, joined_buildConditions, if_pos hu] at hj
    exact absurd hj (by decide)
  · intro h name hn
    rw [aliasesJoined, joined_buildConditions]
    rcases mem_aliasesUsed hn with rfl | ⟨rfl, hu⟩ | ⟨rfl, ha⟩
    · exact List.mem_cons_self
    · rw [if_pos hu]
      decide
    · have hu : ¬ request.userId.isSome = true := fun hu => h ⟨hu, ha⟩
      rw [if_neg hu, if_pos (List.any_eq_true.mpr ha)]
      decide

end Aliases

section Count

variable {Row : Type} {database : Database Row} {request : SearchRequest}

-- How both texts begin, up to the second column.
def queryHead : String := "
            SELECT DISTINCT
                s.conversation_id,
"

theorem baseQuery_starts (ha : Bool) : queryHead.toList <+: (baseQuery ha).toList := by
  cases ha with
  | false =>
    rw [queryHead, baseQuery, if_neg (by decide), String.toList_ofList, String.toList_ofList]
    decide +kernel
  | true =>
    rw [queryHead, baseQuery, if_pos rfl, String.toList_ofList, String.toList_ofList]
    decide +kernel

theorem columnAfterCall_countQuery {query : String} (h : queryHead.toList <+: query.toList) :
    columnAfterCall (tokens (countQuery query).toList) = true := by
  obtain ⟨rest, hr⟩ := h
  rw [countQuery, String.toList_ofList, ← hr, queryHead, String.toList_ofList,
    String.toList_ofList, String.toList_ofList, String.toList_ofList]
  rfl

theorem filter_extends (builder : Builder) (filter : ConversationFilter) :
    builder.query.toList <+: (builder.filter filter).query.toList := by
  rw [(filter_joins builder filter).1]
  split
  · rw [Builder.join, String.toList_append]
    exact List.prefix_append _ _
  · exact List.prefix_refl _

theorem foldl_extends (builder : Builder) (filters : List ConversationFilter) :
    builder.query.toList <+: (filters.foldl Builder.filter builder).query.toList := by
  induction filters generalizing builder with
  | nil => exact List.prefix_refl _
  | cons filter filters ih => exact (filter_extends builder filter).trans (ih _)

theorem queryHead_searchQuery : queryHead.toList <+: (searchQuery request).toList := by
  have hs : (baseQuery request.userId.isSome).toList <+: (startBuilder request).query.toList := by
    rw [startBuilder]
    cases request.userId with
    | none => exact List.prefix_refl _
    | some userId =>
      simp only [Option.isSome_some, if_true, Builder.require, Builder.compare, Builder.join,
        String.toList_append]
      exact List.prefix_append _ _
  have hb := foldl_extends (startBuilder request) request.filters
  refine (baseQuery_starts _).trans ((hs.trans hb).trans ?_)
  rw [searchQuery, String.toList_append]
  exact List.prefix_append _ _

variable (hgrammar : RefusesColumnAfterCall database)

include hgrammar

theorem scalar_countQuery (binds : List Value) :
    database.scalar (countQuery (searchQuery request)) binds = none :=
  hgrammar _ _ (columnAfterCall_countQuery queryHead_searchQuery)

theorem totalExact_iff {tables : Tables} : TotalExact database request tables ↔
    (∀ result, searchConversations database request ≠ .ok result) ∨
      tables.matching request = [] := by
  constructor
  · intro h
    by_cases hok : ∃ result, searchConversations database request = .ok result
    · obtain ⟨⟨rows, total⟩, hr⟩ := hok
      right
      have ht := h rows total hr
      obtain ⟨-, -, hs⟩ := bind_eq_ok.mp hr
      split at hs
      · cases hs
      · cases hs
        rw [scalar_countQuery hgrammar] at ht
        exact List.length_eq_zero_iff.mp ht.symm
    · exact Or.inl fun result hr => hok ⟨result, hr⟩
  · rintro (hn | hem) rows total hr
    · exact absurd hr (hn _)
    · obtain ⟨-, -, hs⟩ := bind_eq_ok.mp hr
      split at hs
      · cases hs
      · cases hs
        rw [scalar_countQuery hgrammar, hem]
        rfl

theorem not_countQueryValid : ¬ CountQueryValid database request := by
  rw [CountQueryValid, scalar_countQuery hgrammar]
  decide

end Count

section Search

-- The values stand where the conditions want them, but the count is refused for every request, so
-- that the total is zero; and the filter for a participant is not joined when there is a caller.
theorem search_never_sound {Row : Type} (database : Database Row) (request : SearchRequest)
    (tables : Tables) (hgrammar : RefusesColumnAfterCall database) :
    PlaceholdersBound request ∧
    (AliasesJoined request ↔ ¬ (request.userId.isSome ∧
      ∃ filter ∈ request.filters, filter.participantUserId.isSome)) ∧
    ¬ CountQueryValid database request ∧
    (TotalExact database request tables ↔
      (∀ result, searchConversations database request ≠ .ok result) ∨
        tables.matching request = []) ∧
    ¬ SearchSound database request tables :=
  ⟨placeholdersBound request, aliasesJoined_iff, not_countQueryValid hgrammar,
    totalExact_iff hgrammar, fun h => not_countQueryValid hgrammar h.2.2.1⟩

def allConversations : SearchRequest := ⟨"acme", none, [], [], 20, 0⟩

def groupTable : Tables :=
  ⟨[⟨"acme", "2-team", 2, "im", "active", 1⟩], []⟩

-- A database that finds one row and counts one, and refuses what PostgreSQL refuses.
def groupDatabase : Database Unit where
  rows _ _ := some [()]
  scalar text _ := if columnAfterCall (tokens text.toList) then none else some 1

theorem groupDatabase_refuses : RefusesColumnAfterCall groupDatabase :=
  fun _ _ h => if_pos h

theorem group_search_not_sound :
    AliasesJoined allConversations ∧ ¬ SearchSound groupDatabase allConversations groupTable := by
  obtain ⟨-, haliases, -, -, hsound⟩ :=
    search_never_sound groupDatabase allConversations groupTable groupDatabase_refuses
  exact ⟨haliases.mpr fun h => absurd h.1 (by decide), hsound⟩

-- One conversation matches and is listed, and the total says none.
theorem one_conversation_counts_zero :
    searchConversations groupDatabase allConversations = .ok ([()], 0) ∧
      ¬ TotalExact groupDatabase allConversations groupTable ∧
        ¬ SearchSound groupDatabase allConversations groupTable := by
  have hnone := @scalar_countQuery _ _ allConversations groupDatabase_refuses
    (searchBinds allConversations)
  have hsearch : searchConversations groupDatabase allConversations = .ok ([()], 0) := by
    rw [searchConversations, hnone]
    rfl
  have htotal : ¬ TotalExact groupDatabase allConversations groupTable := fun h =>
    absurd (h _ _ hsearch) (by decide)
  exact ⟨hsearch, htotal, fun h => htotal h.2.2.2⟩

end Search

end FlareIm.ConversationSearch
