import FlareIm.ConversationList

namespace FlareIm.ConversationList

open Text Fallible Proto ConversationTables UnreadCount

-- The primary keys of the tables. The write ledger keeps the message ids of a tenant apart.
structure Keyed (tables : Tables) : Prop where
  conversations : (tables.conversations.map fun row => (row.tenantId, row.conversationId)).Nodup
  participants : (tables.participants.map fun row =>
    (row.tenantId, row.conversationId, row.userId)).Nodup
  messages : (tables.messages.map fun row => (row.tenantId, row.serverId)).Nodup

section Rows

variable {tables : Tables} {tenantId userId : String} {conversation : ConversationRow}
  {participant : ParticipantRow} {row : MessageRow}

theorem eq_of_nodup_map {Row Key : Type} {key : Row → Key} {rows : List Row}
    (hn : (rows.map key).Nodup) {a b : Row} (ha : a ∈ rows) (hb : b ∈ rows)
    (hk : key a = key b) : a = b :=
  List.inj_on_of_nodup_map hn ha hb hk

theorem find?_eq_some_of_unique {Row : Type} {rows : List Row} {p : Row → Bool} {found : Row}
    (hm : found ∈ rows) (hf : p found = true) (hu : ∀ other ∈ rows, p other → other = found) :
    rows.find? p = some found := by
  cases hfi : rows.find? p with
  | none => exact absurd hf (List.find?_eq_none.mp hfi found hm)
  | some other =>
    rw [hu other (List.mem_of_find?_eq_some hfi) (List.find?_some hfi)]

theorem mem_listedConversations :
    (conversation, participant) ∈ listedConversations tables tenantId userId ↔
      conversation ∈ tables.conversations ∧ participant ∈ tables.participants ∧
        participant.isIn tenantId conversation.conversationId ∧ conversation.tenantId = tenantId ∧
        participant.userId = userId ∧ ¬ conversation.deleted ∧ ¬ participant.isDeleted := by
  simp only [listedConversations, List.mem_flatMap, List.mem_map, List.mem_filter,
    decide_eq_true_iff, Prod.mk.injEq]
  constructor
  · rintro ⟨row, hr, member, ⟨hm, hin, rfl, hre⟩, rfl, rfl⟩
    exact ⟨hr, hm, hin, rfl, hre⟩
  · rintro ⟨hr, hm, hin, rfl, hre⟩
    exact ⟨conversation, hr, participant, ⟨hm, hin, rfl, hre⟩, rfl, rfl⟩

theorem visibleFromSeq_eq_historyFloor (hk : Keyed tables) (hu : userId ≠ "")
    (hl : (conversation, participant) ∈ listedConversations tables tenantId userId) :
    visibleFromSeq tables tenantId conversation.conversationId userId =
      historyFloor conversation participant := by
  obtain ⟨hc, hp, hin, ht, hme, -, -⟩ :=
    mem_listedConversations.mp hl
  have hfi : tables.participants.find? (fun other =>
      other.isIn tenantId conversation.conversationId ∧ other.userId = userId) =
      some participant := by
    refine find?_eq_some_of_unique hp (decide_eq_true ⟨hin, hme⟩) ?_
    intro other ho hm
    obtain ⟨⟨ht', hid'⟩, hu'⟩ := of_decide_eq_true hm
    refine eq_of_nodup_map hk.participants ho hp ?_
    rw [ht', hid', hu', hin.1, hin.2, hme]
  have hf : tables.conversations.find?
      (·.isIn tenantId conversation.conversationId) = some conversation := by
    refine find?_eq_some_of_unique hc (decide_eq_true ⟨ht, rfl⟩) ?_
    intro other ho hm
    obtain ⟨ht', hid'⟩ := of_decide_eq_true hm
    refine eq_of_nodup_map hk.conversations ho hc ?_
    rw [ht', hid', ht]
  rw [visibleFromSeq, if_neg hu, hfi, Option.bind_some, hf]
  rfl

def hiddenPrivately (tables : Tables) (userId : String) (row : MessageRow) : Bool :=
  tables.visibility.any fun mark => hides row mark && mark.scope = SCOPE_USER_PRIVATE &&
    mark.userId = userId

theorem hiddenFor_eq (tables : Tables) (userId : String) (row : MessageRow) :
    hiddenFor tables userId row =
      (hiddenForEveryone tables row || hiddenPrivately tables userId row) := by
  unfold hiddenFor hiddenForEveryone hiddenPrivately
  induction tables.visibility with
  | nil => rfl
  | cons mark rest ih =>
    simp only [List.any_cons, ih]
    cases hides row mark <;> cases decide (mark.scope = SCOPE_CONVERSATION_GLOBAL) <;>
      cases decide (mark.scope = SCOPE_USER_PRIVATE) <;>
      cases decide (mark.userId = userId) <;> simp

end Rows

section Timeline

variable {decode : List UInt8 → Option MessageContent} {tables : Tables} {tenantId : String}
  {query : TimelineQuery}

theorem timelineMessage_content (userId : String) (includePlaceholder : Bool) (row : MessageRow) :
    (∃ message, timelineMessage decode tables userId includePlaceholder row = some message ∧
        message.content.isSome) ↔
      hiddenFor tables userId row = false ∧ row.content ≠ [] ∧ (decode row.content).isSome := by
  have ha : timelineMessage decode tables userId includePlaceholder row =
      some (rowToMessage decode (projectRow tables userId row)) := by
    unfold timelineMessage projectRow
    split <;> rfl
  rw [ha]
  by_cases hh : hiddenFor tables userId row
  · simp [rowToMessage, projectRow, hh]
  · by_cases hem : row.content = [] <;> simp [rowToMessage, projectRow, hh, hem]

end Timeline

section Agreement

variable {decode : List UInt8 → Option MessageContent}
  {isUpdated : ConversationRow → ParticipantRow → Bool} {tables : Tables}
  {tenantId userId : String} {summaries : List ConversationSummary}

-- Some query of the user reaches the message and gets it with its content.
def Shown (decode : List UInt8 → Option MessageContent) (tables : Tables)
    (tenantId conversationId userId : String) (row : MessageRow) : Prop :=
  ∃ query : TimelineQuery, query.conversationId = conversationId ∧ query.userId = userId ∧
    inRange tables tenantId query row ∧
    ∃ message, timelineMessage decode tables userId query.includeBurnedPlaceholder row =
      some message ∧ message.content.isSome

-- The last messages of the list are messages the timeline shows.
def ListWithinTimeline (decode : List UInt8 → Option MessageContent) (tables : Tables)
    (tenantId userId : String) (summaries : List ConversationSummary) : Prop :=
  ∀ summary ∈ summaries, ∀ row ∈ tables.messages, row.isIn tenantId summary.conversationId →
    summary.lastMessageId = some row.serverId →
      Shown decode tables tenantId summary.conversationId userId row

-- The newest message above the member's floor that is not hidden from everybody. Of several with
-- one sequence number it is the one that comes first.
def Newest (tables : Tables) (conversation : ConversationRow) (participant : ParticipantRow)
    (row : MessageRow) : Prop :=
  row ∈ listableMessages tables conversation participant ∧
    (∀ other ∈ listableMessages tables conversation participant, other.seq ≤ row.seq) ∧
    ∀ other ∈ listableMessages tables conversation participant, row.seq ≤ other.seq →
      (listableMessages tables conversation participant).idxOf row ≤
        (listableMessages tables conversation participant).idxOf other

theorem messageTail_eq_some {conversation : ConversationRow} {participant : ParticipantRow}
    {row : MessageRow} : messageTail tables conversation participant = some row ↔
      Newest tables conversation participant row :=
  List.argmax_eq_some_iff

-- The newest message of each conversation of the list is not hidden from this user alone, and
-- its content is still there.
def NewestReadable (decode : List UInt8 → Option MessageContent)
    (isUpdated : ConversationRow → ParticipantRow → Bool) (tables : Tables)
    (tenantId userId : String) : Prop :=
  ∀ conversation participant,
    (conversation, participant) ∈ listedConversations tables tenantId userId →
    isUpdated conversation participant → ∀ row, Newest tables conversation participant row →
      hiddenPrivately tables userId row = false ∧ row.content ≠ [] ∧
        (decode row.content).isSome

theorem loadBootstrap_eq_ok
    (hok : loadBootstrap decode isUpdated tables tenantId userId = .ok summaries) :
    userId ≠ "" ∧ ∀ summary, summary ∈ summaries ↔ ∃ conversation participant,
      (conversation, participant) ∈ listedConversations tables tenantId userId ∧
        isUpdated conversation participant ∧
        summaryOf decode tables conversation participant = summary := by
  unfold loadBootstrap at hok
  obtain ⟨-, -, hok⟩ := bind_eq_ok.mp hok
  obtain ⟨_, hu, hok⟩ := bind_eq_ok.mp hok
  cases hok
  refine ⟨refuseIf_eq_ok.mp hu, fun summary => ?_⟩
  simp only [List.mem_map, List.mem_filter, Prod.exists, and_assoc]

theorem listable_facts {conversation : ConversationRow} {participant : ParticipantRow}
    {row : MessageRow} (hr : row ∈ listableMessages tables conversation participant) :
    row ∈ tables.messages ∧ row.isIn conversation.tenantId conversation.conversationId ∧
      historyFloor conversation participant < row.seq ∧ hiddenForEveryone tables row = false := by
  obtain ⟨hm, hl⟩ := List.mem_filter.mp hr
  obtain ⟨hs, hin⟩ := List.mem_filter.mp hm
  obtain ⟨hf, hv⟩ := Bool.and_eq_true_iff.mp hl
  exact ⟨hs, of_decide_eq_true hin, of_decide_eq_true hf, by simpa using hv⟩

-- The list shows nothing the timeline hides just when each newest message is readable.
theorem list_within_timeline_iff (hkeyed : Keyed tables)
    (hok : loadBootstrap decode isUpdated tables tenantId userId = .ok summaries) :
    ListWithinTimeline decode tables tenantId userId summaries ↔
      NewestReadable decode isUpdated tables tenantId userId := by
  obtain ⟨huser, hsummaries⟩ := loadBootstrap_eq_ok hok
  constructor
  · intro hwithin conversation participant hlisted hupdated row hnewest
    obtain ⟨hstored, hin, -, hvisible⟩ := listable_facts hnewest.1
    obtain ⟨-, -, -, htenant, -⟩ := mem_listedConversations.mp hlisted
    have hlast : (summaryOf decode tables conversation participant).lastMessageId =
        some row.serverId := by
      simp only [summaryOf, messageTail_eq_some.mpr hnewest, Option.map_some]
    obtain ⟨query, -, -, -, hcontent⟩ := hwithin _
      ((hsummaries _).mpr ⟨conversation, participant, hlisted, hupdated, rfl⟩) row hstored
      (htenant ▸ hin) hlast
    obtain ⟨hhidden, hrest⟩ := (timelineMessage_content _ _ _).mp hcontent
    rw [hiddenFor_eq, hvisible, Bool.false_or] at hhidden
    exact ⟨hhidden, hrest⟩
  · intro hreadable summary hsummary row hstored hin hlast
    obtain ⟨conversation, participant, hlisted, hupdated, rfl⟩ := (hsummaries summary).mp hsummary
    obtain ⟨newest, htail, hid⟩ : ∃ newest, messageTail tables conversation participant =
        some newest ∧ newest.serverId = row.serverId := Option.map_eq_some_iff.mp hlast
    have hnewest := messageTail_eq_some.mp htail
    obtain ⟨hstored', hin', hfloor, hvisible⟩ := listable_facts hnewest.1
    obtain ⟨-, -, -, htenant, -⟩ := mem_listedConversations.mp hlisted
    have heq : newest = row := by
      refine eq_of_nodup_map hkeyed.messages hstored' hstored ?_
      rw [hin'.1, htenant, hin.1, hid]
    subst heq
    obtain ⟨hprivate, hrest⟩ := hreadable conversation participant hlisted hupdated newest hnewest
    -- the page that starts just below the message
    refine ⟨{ conversationId := conversation.conversationId, userId := userId,
              afterSeq := newest.seq - 1, limit := 1 }, rfl, rfl, ?_, ?_⟩
    · simp only [inRange, Option.all_none, Bool.and_true, Bool.and_eq_true, decide_eq_true_iff,
        visibleFromSeq_eq_historyFloor hkeyed huser hlisted]
      exact ⟨hin, by omega⟩
    · refine (timelineMessage_content _ _ _).mpr ⟨?_, hrest⟩
      rw [hiddenFor_eq, hvisible, hprivate, Bool.false_or]

end Agreement

section Example

def decodeSecret (bytes : List UInt8) : Option MessageContent :=
  if bytes = [] then none else some ⟨some (.text "secret")⟩

-- Bob has deleted the newest message of the conversation for himself only.
def privatelyDeleted : Tables where
  conversations := [{ tenantId := "t", conversationId := "c" }]
  participants := [{ tenantId := "t", conversationId := "c", userId := "bob" }]
  messages := [{ tenantId := "t", conversationId := "c", serverId := "m1", senderId := "alice",
                 seq := 1, content := [1] }]
  visibility := [{ tenantId := "t", messageId := "m1", userId := "bob",
                   scope := SCOPE_USER_PRIVATE, visibilityStatus := 2 }]

def secretSummary : ConversationSummary where
  conversationId := "c"
  lastMessageId := some "m1"
  lastSenderId := some "alice"
  lastMessageType := some 0
  lastContentType := some "text"
  lastMessagePreview := some "secret"
  unreadCount := 1
  lastReadSeq := 0
  lastMessageSeq := 1
  visibleAfterSeq := 0

theorem list_within_timeline_iff_privatelyDeleted :
    ListWithinTimeline decodeSecret privatelyDeleted "t" "bob" [secretSummary] ↔
      NewestReadable decodeSecret (fun _ _ => true) privatelyDeleted "t" "bob" := by
  have hkeyed : Keyed privatelyDeleted := ⟨by decide, by decide, by decide⟩
  have hok : loadBootstrap decodeSecret (fun _ _ => true) privatelyDeleted "t" "bob" =
      .ok [secretSummary] := by decide
  exact list_within_timeline_iff hkeyed hok

-- The list still shows its sender and its text.
theorem list_shows_a_privately_deleted_message :
    Keyed privatelyDeleted ∧
    loadBootstrap decodeSecret (fun _ _ => true) privatelyDeleted "t" "bob" =
      .ok [secretSummary] ∧
    ¬ ListWithinTimeline decodeSecret privatelyDeleted "t" "bob" [secretSummary] := by
  refine ⟨⟨by decide, by decide, by decide⟩, by decide, fun hwithin => ?_⟩
  obtain ⟨query, -, -, -, hcontent⟩ := hwithin secretSummary (List.mem_singleton_self _) _
    (List.mem_singleton_self _) ⟨rfl, rfl⟩ rfl
  obtain ⟨hvisible, -⟩ := (timelineMessage_content _ _ _).mp hcontent
  exact absurd hvisible (by decide)

end Example

end FlareIm.ConversationList
