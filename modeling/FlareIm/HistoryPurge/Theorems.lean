import FlareIm.HistoryPurge
import Mathlib.Data.List.MinMax

namespace FlareIm.HistoryPurge

open Text Fallible ConversationTables

section Rows

variable {tenantId conversationId : String} {boundary : HistoryPurgeBoundary} {tables : Tables}

-- The messages of the conversation inside the boundary, and those outside it.
def Purged (tenantId conversationId : String) (boundary : HistoryPurgeBoundary) (tables : Tables)
    (row : MessageRow) : Prop :=
  row ∈ tables.messages ∧ row.isIn tenantId conversationId ∧ messageIsPurged boundary row = true

def Kept (tenantId conversationId : String) (boundary : HistoryPurgeBoundary) (tables : Tables)
    (row : MessageRow) : Prop :=
  row ∈ tables.messages ∧ row.isIn tenantId conversationId ∧ messageIsPurged boundary row = false

theorem mem_purgedMessages {row : MessageRow} :
    row ∈ purgedMessages tenantId conversationId boundary tables.messages ↔
      Purged tenantId conversationId boundary tables row := by
  simp [purgedMessages, conversationMessages, Purged, and_comm]

theorem mem_deleteMessages {row : MessageRow} (hin : row.isIn tenantId conversationId) :
    row ∈ deleteMessages tenantId conversationId boundary tables.messages ↔
      Kept tenantId conversationId boundary tables row := by
  simp [deleteMessages, Kept, hin]

theorem mem_conversationMessages_deleteMessages {row : MessageRow} :
    row ∈ conversationMessages tenantId conversationId
        (deleteMessages tenantId conversationId boundary tables.messages) ↔
      Kept tenantId conversationId boundary tables row := by
  rw [conversationMessages, List.mem_filter, decide_eq_true_iff]
  constructor
  · rintro ⟨hm, hin⟩
    exact (mem_deleteMessages hin).mp hm
  · intro hk
    exact ⟨(mem_deleteMessages hk.2.1).mpr hk, hk.2.1⟩

theorem mem_deleteTags {tag : MessageTag} {rows : List MessageTag} {purgedIds : List String}
    (hin : tag.isIn tenantId conversationId) :
    tag ∈ deleteTags tenantId conversationId purgedIds rows ↔
      tag ∈ rows ∧ tag.messageId ∉ purgedIds := by
  simp [deleteTags, hin]

theorem lt_oldestSeq {rows : List MessageRow} {seq : Int} :
    seq < oldestSeq rows ↔ (rows = [] → seq < MAX_SEQ) ∧ ∀ row ∈ rows, seq < row.seq := by
  unfold oldestSeq
  cases hmi : (rows.map (·.seq)).min? with
  | none =>
    have hem : rows = [] := by simpa using List.min?_eq_none_iff.mp hmi
    simp [hem]
  | some least =>
    obtain ⟨hm, hl⟩ := List.min?_eq_some_iff.mp hmi
    obtain ⟨oldest, ho, rfl⟩ := List.mem_map.mp hm
    have hro : rows ≠ [] := List.ne_nil_of_mem ho
    simp only [Option.getD_some, hro, false_implies, true_and]
    constructor
    · intro hlt row hr
      exact lt_of_lt_of_le hlt (hl row.seq (List.mem_map_of_mem hr))
    · intro ha
      exact ha oldest ho

-- What lies behind the boundary among the events, by the stored rows alone. Without a fence the
-- time of the event decides. With one, the events at the sequence number of a message inside the
-- boundary lie behind it, and those that are no messages and older than every message outside.
def EventBehind (tenantId conversationId : String) (boundary : HistoryPurgeBoundary)
    (tables : Tables) (event : EventRow) : Prop :=
  match boundary.epochFence with
  | none => isBefore boundary.before event.createdAt = true
  | some _ =>
    (∃ row, Purged tenantId conversationId boundary tables row ∧ row.seq = event.seq) ∨
      (event.eventType ≠ EVENT_MESSAGE ∧
        ((∀ row, ¬ Kept tenantId conversationId boundary tables row) → event.seq < MAX_SEQ) ∧
        ∀ row, Kept tenantId conversationId boundary tables row → event.seq < row.seq)

theorem eventIsPurged_iff {event : EventRow} :
    eventIsPurged tenantId conversationId boundary
        ((purgedMessages tenantId conversationId boundary tables.messages).map (·.seq))
        (deleteMessages tenantId conversationId boundary tables.messages) event = true ↔
      EventBehind tenantId conversationId boundary tables event := by
  unfold eventIsPurged EventBehind
  cases boundary.epochFence with
  | none => rfl
  | some fence =>
    have hn : conversationMessages tenantId conversationId
          (deleteMessages tenantId conversationId boundary tables.messages) = [] ↔
        ∀ row, ¬ Kept tenantId conversationId boundary tables row := by
      rw [List.eq_nil_iff_forall_not_mem]
      simp only [mem_conversationMessages_deleteMessages]
    simp [lt_oldestSeq, hn, mem_purgedMessages, mem_conversationMessages_deleteMessages]

theorem mem_events_purgeRows {event : EventRow} (hin : event.isIn tenantId conversationId) :
    event ∈ (purgeRows tenantId conversationId boundary tables).events ↔
      event ∈ tables.events ∧ ¬ EventBehind tenantId conversationId boundary tables event := by
  rw [← eventIsPurged_iff]
  simp [purgeRows, deleteEvents, hin]

end Rows

section Neighbours

variable (tenantId conversationId : String) (boundary : HistoryPurgeBoundary) (tables : Tables)

end Neighbours

-- After a purge nothing of a purged message is left, and nothing of another one is lost.
structure PurgeExact (tenantId conversationId : String) (boundary : HistoryPurgeBoundary)
    (tables after : Tables) : Prop where
  noMessage : ∀ {purged row}, Purged tenantId conversationId boundary tables purged →
    row ∈ after.messages → row.isIn tenantId conversationId → row.serverId ≠ purged.serverId
  noPin : ∀ {purged tag}, Purged tenantId conversationId boundary tables purged →
    tag ∈ after.pinned → tag.isIn tenantId conversationId → tag.messageId ≠ purged.serverId
  noMark : ∀ {purged tag}, Purged tenantId conversationId boundary tables purged →
    tag ∈ after.marked → tag.isIn tenantId conversationId → tag.messageId ≠ purged.serverId
  noEvent : ∀ {purged event}, Purged tenantId conversationId boundary tables purged →
    event ∈ after.events → event.isIn tenantId conversationId →
    event.seq ≠ purged.seq ∧ purged.serverId ∉ event.targets
  keepsMessage : ∀ {kept}, Kept tenantId conversationId boundary tables kept →
    kept ∈ after.messages
  keepsEvents : ∀ {kept event}, Kept tenantId conversationId boundary tables kept →
    event ∈ tables.events → event.isIn tenantId conversationId →
    (event.eventType = EVENT_MESSAGE ∧ event.seq = kept.seq) ∨ kept.serverId ∈ event.targets →
    event ∈ after.events

-- The boundary does not run between the rows of one message, nor between a message and the
-- events that belong to it.
structure Separated (tenantId conversationId : String) (boundary : HistoryPurgeBoundary)
    (tables : Tables) : Prop where
  messages : ∀ {purged kept}, Purged tenantId conversationId boundary tables purged →
    Kept tenantId conversationId boundary tables kept → kept.serverId ≠ purged.serverId
  behind : ∀ {purged event}, Purged tenantId conversationId boundary tables purged →
    event ∈ tables.events → event.isIn tenantId conversationId →
    event.seq = purged.seq ∨ purged.serverId ∈ event.targets →
    EventBehind tenantId conversationId boundary tables event
  ahead : ∀ {kept event}, Kept tenantId conversationId boundary tables kept →
    event ∈ tables.events → event.isIn tenantId conversationId →
    (event.eventType = EVENT_MESSAGE ∧ event.seq = kept.seq) ∨ kept.serverId ∈ event.targets →
    ¬ EventBehind tenantId conversationId boundary tables event

section Exactness

variable {tenantId conversationId : String} {boundary : HistoryPurgeBoundary} {tables : Tables}

theorem noTag_purgeRows {purged : MessageRow} {tag : MessageTag} {rows : List MessageTag}
    (hp : Purged tenantId conversationId boundary tables purged)
    (ht : tag ∈ deleteTags tenantId conversationId
      ((purgedMessages tenantId conversationId boundary tables.messages).map (·.serverId)) rows)
    (hin : tag.isIn tenantId conversationId) : tag.messageId ≠ purged.serverId := by
  intro heq
  apply ((mem_deleteTags hin).mp ht).2
  rw [heq]
  exact List.mem_map_of_mem (mem_purgedMessages.mpr hp)

theorem purgeExact_of_separated (hs : Separated tenantId conversationId boundary tables) :
    PurgeExact tenantId conversationId boundary tables
      (purgeRows tenantId conversationId boundary tables) where
  noMessage hp hr hin :=
    hs.messages hp ((mem_deleteMessages hin).mp hr)
  noPin hp ht hin := noTag_purgeRows hp ht hin
  noMark hp ht hin := noTag_purgeRows hp ht hin
  noEvent hp hev hin := by
    obtain ⟨hm, ha⟩ := (mem_events_purgeRows hin).mp hev
    constructor
    · intro hse
      exact ha (hs.behind hp hm hin (.inl hse))
    · intro hta
      exact ha (hs.behind hp hm hin (.inr hta))
  keepsMessage hk := (mem_deleteMessages hk.2.1).mpr hk
  keepsEvents hk hev hin hb :=
    (mem_events_purgeRows hin).mpr ⟨hev, hs.ahead hk hev hin hb⟩

theorem separated_of_purgeExact (hea : PurgeExact tenantId conversationId boundary tables
    (purgeRows tenantId conversationId boundary tables)) :
    Separated tenantId conversationId boundary tables where
  messages hp hk := hea.noMessage hp (hea.keepsMessage hk) hk.2.1
  behind hp hev hin hb := by
    by_contra ha
    obtain ⟨hs, ht⟩ :=
      hea.noEvent hp ((mem_events_purgeRows hin).mpr ⟨hev, ha⟩) hin
    exact hb.elim hs ht
  ahead hk hev hin hb :=
    ((mem_events_purgeRows hin).mp (hea.keepsEvents hk hev hin hb)).2

end Exactness

section Request

variable {timestampMillisOpt : Int → Option Int}
  {invalidate : Option (String → String → List String → Bool)} {request : PurgeRequest}
  {tables after : Tables} {outcome : ConversationHistoryPurge}

theorem repositoryPurgeHistory_eq_ok {conversationId : String} {boundary : HistoryPurgeBoundary}
    {tenant : Option String}
    (hok : repositoryPurgeHistory conversationId boundary invalidate tenant tables =
      .ok (after, outcome)) :
    ∃ tenantId, tenant = some tenantId ∧
      after = purgeRows tenantId conversationId boundary tables := by
  unfold repositoryPurgeHistory at hok
  obtain ⟨tenantId, ht, hok⟩ := bind_eq_ok.mp hok
  obtain ⟨-, -, hok⟩ := bind_eq_ok.mp hok
  obtain ⟨-, -, hok⟩ := bind_eq_ok.mp hok
  obtain ⟨-, -, hok⟩ := bind_eq_ok.mp hok
  refine ⟨tenantId, ?_, ?_⟩
  · unfold requiredTenant at ht
    split at ht
    · rename_i tenant' hf
      cases ht
      exact (Option.filter_eq_some_iff.mp hf).1
    · cases ht
  · cases hok
    rfl

-- A successful purge is complete and exact just when the boundary separates what is stored.
theorem purge_exact_iff_separated {boundary : HistoryPurgeBoundary} {tenantId : String}
    (htenant : request.tenant = some tenantId)
    (hboundary : boundaryOf timestampMillisOpt request.beforeMs request.epochAttribute
      request.beforeEpoch = .ok boundary)
    (hok : purgeHistory timestampMillisOpt invalidate request tables = .ok (after, outcome)) :
    PurgeExact tenantId request.conversationId boundary tables after ↔
      Separated tenantId request.conversationId boundary tables := by
  unfold purgeHistory at hok
  obtain ⟨boundary', hboundary', hok⟩ := bind_eq_ok.mp hok
  obtain ⟨tenantId', htenant', rfl⟩ := repositoryPurgeHistory_eq_ok hok
  cases hboundary.symm.trans hboundary'
  cases htenant.symm.trans htenant'
  exact ⟨separated_of_purgeExact, purgeExact_of_separated⟩

end Request

section Examples

def millisecondTime (ms : Int) : Option Int := some (1000 * ms)

-- A message ingested just before the boundary, and its event, written just after it.
def straddlingMessage : MessageRow where
  tenantId := "t"
  conversationId := "c"
  serverId := "m1"
  senderId := "alice"
  seq := 1
  createdAt := 9999

def straddlingEvent : EventRow where
  tenantId := "t"
  conversationId := "c"
  seq := 1
  eventType := EVENT_MESSAGE
  createdAt := 10001
  targets := ["m1"]

def straddlingTables : Tables := { messages := [straddlingMessage], events := [straddlingEvent] }

def timePurge : PurgeRequest := { tenant := some "t", conversationId := "c", beforeMs := 10 }

theorem purge_exact_iff_separated_straddling :
    purgeHistory millisecondTime none timePurge straddlingTables =
        .ok ({ events := [straddlingEvent] }, ⟨1, 1⟩) ∧
      (PurgeExact "t" "c" ⟨some 10000, none⟩ straddlingTables { events := [straddlingEvent] } ↔
        Separated "t" "c" ⟨some 10000, none⟩ straddlingTables) := by
  have htenant : timePurge.tenant = some "t" := rfl
  have hboundary : boundaryOf millisecondTime timePurge.beforeMs timePurge.epochAttribute
      timePurge.beforeEpoch = .ok ⟨some 10000, none⟩ := by decide
  have hok : purgeHistory millisecondTime none timePurge straddlingTables =
      .ok ({ events := [straddlingEvent] }, ⟨1, 1⟩) := by decide
  exact ⟨hok, purge_exact_iff_separated htenant hboundary hok⟩

-- Two messages of different epochs, and an edit of the older one after the newer one.
def oldEpochMessage : MessageRow := { straddlingMessage with extra := [("epoch", "1")] }

def newEpochMessage : MessageRow :=
  { straddlingMessage with serverId := "m2", seq := 2, extra := [("epoch", "2")] }

def lateEdit : EventRow := { straddlingEvent with seq := 3, eventType := 3 }

def fencedTables : Tables :=
  { messages := [oldEpochMessage, newEpochMessage], events := [straddlingEvent, lateEdit] }

def fencedPurge : PurgeRequest :=
  { tenant := some "t", conversationId := "c", beforeMs := 0, epochAttribute := "epoch",
    beforeEpoch := 2 }

-- Cut by time, the event of a purged message stays when it was written after the boundary. Cut
-- by the epoch, an event that edits a purged message stays when it follows a message that stays.
theorem purge_leaves_events_of_purged_messages :
    (purgeHistory millisecondTime none timePurge straddlingTables =
        .ok ({ events := [straddlingEvent] }, ⟨1, 1⟩) ∧
      ¬ PurgeExact "t" "c" ⟨some 10000, none⟩ straddlingTables { events := [straddlingEvent] }) ∧
    (purgeHistory millisecondTime none fencedPurge fencedTables =
        .ok ({ messages := [newEpochMessage], events := [lateEdit] }, ⟨1, 1⟩) ∧
      ¬ PurgeExact "t" "c" ⟨none, some ⟨"epoch", 2⟩⟩ fencedTables
        { messages := [newEpochMessage], events := [lateEdit] }) := by
  refine ⟨⟨by decide, fun hexact => ?_⟩, ⟨by decide, fun hexact => ?_⟩⟩
  · have hpurged : Purged "t" "c" ⟨some 10000, none⟩ straddlingTables straddlingMessage := by
      refine ⟨List.mem_singleton_self _, ⟨rfl, rfl⟩, by decide⟩
    exact (hexact.noEvent hpurged (List.mem_singleton_self _) ⟨rfl, rfl⟩).1 rfl
  · have hpurged : Purged "t" "c" ⟨none, some ⟨"epoch", 2⟩⟩ fencedTables oldEpochMessage := by
      refine ⟨List.mem_cons_self, ⟨rfl, rfl⟩, by decide⟩
    exact (hexact.noEvent hpurged (List.mem_singleton_self _) ⟨rfl, rfl⟩).2
      (List.mem_singleton_self _)

end Examples

end FlareIm.HistoryPurge
