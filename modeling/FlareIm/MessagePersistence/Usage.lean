import FlareIm.MessageArchive.Copies
import FlareIm.MessagePersistence.Reservations

namespace FlareIm.MessagePersistence

open Text Context Proto EventRow EventApplication MessageArchive Fallible Transition
open List (any_eq_true forall_mem_map forall_mem_singleton map_map mem_cons_self mem_filter mem_filterMap mem_map mem_map_of_mem mem_singleton not_mem_nil)

variable {row : ArchiveRow} {prepared : PreparedMessage} {outcome : ArchiveOutcome}
  {new reported : List PreparedMessage} {succeeded : Bool} {members : List Member}

section Reports

variable (writer : Writer) (ctx : Ctx)

-- The messages one delivery reports to `usage.messages_persisted`, one each: those that it has
-- stored and that are no resends. A failing acknowledgement comes after it.
def reportedBy (database : Database) (store : Store) (member : Member) : List PreparedMessage :=
  match reserveIdempotency writer.ttlSeconds ctx store.keys member with
  | (_, .error _) => []
  | (_, .ok decision) =>
    if !decision.isNew then []
    else
      match persistMessage writer ctx database store.tables member.prepared with
      | (_, .error _) => []
      | (_, .ok outcome) =>
        if outcome.isDuplicate member.prepared.messageId then [] else [member.prepared]

def batchReportedBy (database : Database) (store : Store) (members : List Member) :
    List PreparedMessage :=
  match reserveLoop writer ctx store members with
  | (_, .error _) => []
  | (entered, .ok (reserved, _)) =>
    if reserved.isEmpty then []
    else
      match persistBatch writer ctx database entered.tables (reserved.map (·.1.prepared)) with
      | (_, .error _) => []
      | (_, .ok outcome) =>
        (reserved.map (·.1.prepared)).filter fun prepared =>
          !outcome.isDuplicate prepared.messageId

end Reports

-- The usage reported so far, and the messages whose last delivery was answered with Err.
structure Metered where
  store : Store := {}
  reported : List PreparedMessage := []
  failing : List PreparedMessage := []

-- Redis drops a key whenever it expires.
inductive Traffic where
  | deliver (action : Action)
  | expire (key : String)

def Metered.answered (metered : Metered) (messages reported : List PreparedMessage)
    (after : Store) (succeeded : Bool) : Metered where
  store := after
  reported := reported ++ metered.reported
  failing :=
    if succeeded then metered.failing.filter (· ∉ messages) else messages ++ metered.failing

def meter (writer : Writer) (metered : Metered) : Traffic → Option Metered
  | .expire key =>
    let keys := metered.store.keys.filter (· ≠ key)
    some { metered with store := { metered.store with keys } }
  | .deliver action =>
    match action, action.members with
    | _, .error _ => some metered
    | .single ctx database _, .ok (member :: _) =>
      let ensured := ensureConsistency writer ctx database metered.store member
      some (metered.answered [member.prepared]
        (reportedBy writer ctx database metered.store member) ensured.1 ensured.2.isOk)
    | .batch ctx database _, .ok members =>
      let ensured := ensureBatchConsistency writer ctx database metered.store members
      some (metered.answered (members.map (·.prepared))
        (batchReportedBy writer ctx database metered.store members) ensured.1 ensured.2.isOk)
    | .single _ _ _, .ok [] => none

def PreparedMessage.key (prepared : PreparedMessage) : String × String :=
  (prepared.tenantId, prepared.messageId)

-- The event stream has the Message event of the row at its position.
def inStream (codec : Codec) (events : List EventStreamInsertRow) (row : ArchiveRow) : Bool :=
  events.any fun event =>
    eventKey event == (row.tenantId, row.conversationId, row.seq) &&
      event.eventType == .known .eventMessage &&
      (codec.message.decode event.payload).any fun message => message.serverId == row.serverId

def IsStored (codec : Codec) (tables : Tables) (prepared : PreparedMessage) : Prop :=
  ∃ row ∈ tables.messages, row.writeKey = prepared.key ∧ inStream codec tables.events row

-- The messages that senders send: each in a conversation, with a server id of its own, and as
-- the proto library reads it back.
structure Mail (codec : Codec) where
  sent : PreparedMessage → Prop
  in_conversation : ∀ prepared, sent prepared → prepared.conversationId ≠ ""
  one_message : ∀ a b, sent a → sent b → a.key = b.key → a.message = b.message
  reads_back : ∀ prepared, sent prepared →
    codec.message.decode (codec.message.encode prepared.message) = some prepared.message

-- When all checks of a delivery are answered, those it finds new were not counted and are
-- different messages, and those it finds delivered before were counted if they are stored.
structure Unexpired (writer : Writer) (metered : Metered) (ctx : Ctx) (members : List Member) :
    Prop where
  apart : ((newMembers (members.zip (footprints writer.ttlSeconds ctx metered.store.keys
    members))).map (·.prepared.key)).Nodup
  uncounted : ∀ one ∈ members.zip (footprints writer.ttlSeconds ctx metered.store.keys members),
    one.2.taken ≠ [] → one.1.prepared.key ∉ metered.reported.map PreparedMessage.key
  counted : ∀ one ∈ members.zip (footprints writer.ttlSeconds ctx metered.store.keys members),
    one.2.taken = [] → IsStored writer.codec metered.store.tables one.1.prepared →
    one.1.prepared.key ∈ metered.reported.map PreparedMessage.key

-- Keys may expire at any time, but not that of a counted message that is delivered again.
def Remembered (writer : Writer) (mail : Mail writer.codec) (metered : Metered) :
    Traffic → Prop
  | .expire _ => True
  | .deliver action => ∀ members, action.members = .ok members →
      (∀ member ∈ members, mail.sent member.prepared) ∧
        ((∀ one ∈ footprints writer.ttlSeconds action.ctx metered.store.keys members,
          one.stops = false) → Unexpired writer metered action.ctx members)

section Persisting

variable {writer : Writer} {codec : Codec} {mail : Mail codec} {clock : Clock} {ctx : Ctx}
  {before middle : Tables} {messages : List PreparedMessage}

-- The tables of a writer that was sent no other messages.
structure Filed (mail : Mail codec) (tables : Tables) : Prop where
  oneCopy : OneCopy tables
  issued : ∀ row ∈ tables.messages, ∃ prepared, mail.sent prepared ∧
    row.identity = prepared.identity
  events : ∀ event ∈ tables.events, MessageRow event

-- The messages of one delivery that are to be stored.
structure Posted (mail : Mail codec) (ctx : Ctx) (messages : List PreparedMessage) : Prop where
  delivers : ∀ prepared ∈ messages, Ctx.Delivers ctx prepared
  sent : ∀ prepared ∈ messages, mail.sent prepared
  apart : (messages.map PreparedMessage.key).Nodup

theorem Posted.messageIds (h : Posted mail ctx messages) :
    ((messages.map (·.message)).map (·.serverId)).Nodup := by
  rw [map_map]
  refine List.Nodup.map_on ?_ (List.Nodup.of_map _ h.apart)
  intro a ha b hb hs
  have ht : a.tenantId = b.tenantId :=
    Option.some.inj ((h.delivers a ha).symm.trans (h.delivers b hb))
  exact List.inj_on_of_nodup_map h.apart ha hb (Prod.ext ht hs)

theorem PreparedMessage.writeKey_of_identity
    (h : row.identity = prepared.identity) : row.writeKey = prepared.key := by
  obtain ⟨ht, hs, -⟩ := RowIdentity.mk.inj h
  exact Prod.ext ht hs

theorem Filed.identity_eq (h : Filed mail middle) (hr : row ∈ middle.messages)
    (hse : mail.sent prepared) (hk : row.writeKey = prepared.key) :
    row.identity = prepared.identity := by
  obtain ⟨other, ho, hie⟩ := h.issued row hr
  have hs : other.key = prepared.key :=
    (PreparedMessage.writeKey_of_identity hie).symm.trans hk
  rw [hie]
  exact PreparedMessage.identity_eq (Prod.mk.inj hs).1 (mail.one_message _ _ ho hse hs)

theorem inStream_of_eventOf {events : List EventStreamInsertRow}
    (hie : row.identity = prepared.identity)
    (h : ∃ event ∈ events, EventOf codec prepared.identity event) : inStream codec events row := by
  obtain ⟨event, hm, hk, ht, message, hde, hs, -⟩ := h
  rw [← hie] at hk hs
  refine any_eq_true.mpr ⟨event, hm, ?_⟩
  have ht' : event.eventType = .known .eventMessage := ht
  have hs' : message.serverId = row.serverId := hs
  have hk' : eventKey event = (row.tenantId, row.conversationId, row.seq) := hk
  simp [hk', ht', hde, hs']

theorem inStream_mono {events events' : List EventStreamInsertRow}
    (hk : ∀ event ∈ events, event ∈ events') (h : inStream codec events row) :
    inStream codec events' row := by
  obtain ⟨event, hm, hev⟩ := any_eq_true.mp h
  exact any_eq_true.mpr ⟨event, hk event hm, hev⟩

theorem IsStored.mono {tables tables' : Tables}
    (h : IsStored codec tables prepared) (hro : ∀ row ∈ tables.messages, row ∈ tables'.messages)
    (hev : ∀ event ∈ tables.events, event ∈ tables'.events) : IsStored codec tables' prepared := by
  obtain ⟨row, hr, hk, hs⟩ := h
  exact ⟨row, hro row hr, hk, inStream_mono hev hs⟩

-- What storing some messages does, with its failures.
structure Storing (mail : Mail codec) (before after : Tables) (messages : List PreparedMessage)
    (answer : Except FlareError ArchiveOutcome) : Prop where
  filed : Filed mail after
  rows : ∀ row ∈ before.messages, row ∈ after.messages
  events : ∀ event ∈ before.events, event ∈ after.events
  only : ∀ row ∈ after.messages, inStream codec after.events row →
    row ∈ before.messages ∧ inStream codec before.events row ∨
      ∃ prepared ∈ messages, prepared.key = row.writeKey
  stored : ∀ outcome, answer = .ok outcome → ∀ prepared ∈ messages,
    outcome.isDuplicate prepared.messageId = false → IsStored codec after prepared
  resend : ∀ outcome, answer = .ok outcome → ∀ prepared ∈ messages,
    outcome.isDuplicate prepared.messageId = true → ¬ IsStored codec after prepared

theorem Filed.of_judges {answer : Except FlareError ArchiveOutcome} (h : Filed mail before)
    (hpo : Posted mail ctx messages) (hj : Judges clock ctx before middle
      (messages.map (·.message)) answer fun _ => False) : Filed mail middle where
  oneCopy := hj.oneCopy
  issued row hr := by
    rcases hj.rows row hr with hold | ⟨message, hm, ha⟩
    · exact h.issued row hold
    · obtain ⟨prepared, hp, rfl⟩ := mem_map.mp hm
      exact ⟨prepared, hpo.sent prepared hp, (archiveRow_eq_ok (hpo.delivers prepared hp) ha).1⟩
  events := hj.events ▸ h.events

theorem Posted.eq_of_messageId (h : Posted mail ctx messages) {a b : PreparedMessage}
    (ha : a ∈ messages) (hb : b ∈ messages) (hs : a.messageId = b.messageId) : a = b := by
  have ht : a.tenantId = b.tenantId :=
    Option.some.inj ((h.delivers a ha).symm.trans (h.delivers b hb))
  exact List.inj_on_of_nodup_map h.apart ha hb (Prod.ext ht hs)

-- A resend has no row: the first claim of its key would be its own, or of another conversation.
theorem not_archived_of_resend (hmi : Filed mail middle) (hp : Posted mail ctx messages)
    (ha : Answered clock ctx before middle (messages.map (·.message)) outcome
      fun _ => False) (hm : prepared ∈ messages)
    (hdu : outcome.isDuplicate prepared.messageId = true) :
    ∀ row ∈ middle.messages, row.writeKey ≠ prepared.key := by
  intro row hr hk
  obtain ⟨claim, hcl, hs, entry, hen, ho, hc⟩ :=
    ((ha.judged _).mp hdu).resolve_left id
  obtain ⟨message, hme, hof⟩ := mem_filterMap.mp hcl
  obtain ⟨sender, hse, rfl⟩ := mem_map.mp hme
  obtain rfl : sender = prepared :=
    hp.eq_of_messageId hse hm ((messageClaim_serverId hof).symm.trans hs)
  have hro : LedgerClaim.of row = some claim := by
    unfold messageClaim at hof
    split at hof
    · cases hof
    · rename_i archived har
      have hie := (archiveRow_eq_ok (hp.delivers sender hm) har).1
      have hsa := hmi.identity_eq hr (hp.sent sender hm) hk
      rw [← hof]
      exact LedgerClaim.of_congr (hsa.trans hie.symm)
  obtain ⟨first, hfi, hf, hj⟩ := hmi.oneCopy.judged row hr claim hro
  have hoc := hmi.oneCopy.unique.occupant_eq hfi hf
  rw [ha.ledger, hen] at hoc
  obtain rfl : entry = first := Option.some.inj hoc
  rcases hj with hon | hel
  · exact ho hon
  · exact hel hc

-- The message of an event that a delivery appends.
def EventFrom (codec : Codec) (messages : List PreparedMessage) (event : EventStreamInsertRow) :
    Prop :=
  MessageRow event ∧ ∃ prepared ∈ messages,
    eventKey event = (prepared.tenantId, prepared.conversationId,
      asI64 prepared.message.conversationSeq) ∧
    event.payload = codec.message.encode prepared.message

theorem Storing.of_appended {answer : Except FlareError ArchiveOutcome}
    {appended rows : List EventStreamInsertRow} (hf : Filed mail before)
    (hpo : Posted mail ctx messages)
    (hj : Judges clock ctx before middle (messages.map (·.message)) (.ok outcome) fun _ => False)
    (ha : Appended middle.events appended rows)
    (hrw : ∀ event ∈ rows, EventFrom codec messages event)
    (haw : ∀ result, answer = .ok result → result = outcome)
    (hre : ∀ result, answer = .ok result → ∀ prepared ∈ messages,
      outcome.isDuplicate prepared.messageId = false →
      ∃ event ∈ appended, EventOf codec prepared.identity event) :
    Storing mail before { middle with events := appended } messages answer := by
  have hmi : Filed mail middle := hf.of_judges hpo hj
  have han := hj.answered outcome rfl
  have hke : ∀ event ∈ before.events, event ∈ appended :=
    fun event hm => ha.kept event (hj.events ▸ hm)
  have hee : ∀ event ∈ appended, MessageRow event :=
    ha.messageRows hmi.events fun event hm => (hrw event hm).1
  have hc := hmi.oneCopy
  refine ⟨⟨⟨hc.unique, hc.once, hc.written, hc.keyed, hc.judged, hc.stored⟩,
    hmi.issued, hee⟩, hj.kept, hke, ?_, ?_, ?_⟩
  · intro row hr hst
    rcases hj.rows row hr with hold | ⟨message, hm, har⟩
    · obtain ⟨event, hm, hev⟩ := any_eq_true.mp hst
      rcases ha.only event hm with hsa | hn
      · refine .inl ⟨hold, any_eq_true.mpr ⟨event, ?_, hev⟩⟩
        exact hj.events ▸ hsa
      · obtain ⟨-, prepared, hp, hk, hpa⟩ := hrw event hn
        have hde := mail.reads_back prepared (hpo.sent prepared hp)
        rw [← hpa] at hde
        simp only [hk, hde, Option.any_some, Bool.and_eq_true, beq_iff_eq, Prod.mk.injEq] at hev
        exact .inr ⟨prepared, hp, Prod.ext hev.1.1.1 hev.2⟩
    · obtain ⟨prepared, hp, rfl⟩ := mem_map.mp hm
      have hie := (archiveRow_eq_ok (hpo.delivers prepared hp) har).1
      exact .inr ⟨prepared, hp, (PreparedMessage.writeKey_of_identity hie).symm⟩
  · intro result hok prepared hm hdu
    rw [haw result hok] at hdu
    obtain ⟨row, har, hw⟩ := han.written prepared.message (mem_map_of_mem hm) hdu
    have hro := PreparedMessage.writeKey_of_identity
      (archiveRow_eq_ok (hpo.delivers prepared hm) har).1
    obtain ⟨stored, hs, hk⟩ := hc.keyed _ hw
    have hsm := hmi.identity_eq hs (hpo.sent prepared hm) (hk.trans hro)
    exact ⟨stored, hs, hk.trans hro, inStream_of_eventOf hsm (hre result hok prepared hm hdu)⟩
  · intro result hok prepared hm hdu
    rintro ⟨row, hr, hk, -⟩
    rw [haw result hok] at hdu
    exact not_archived_of_resend hmi hpo han hm hdu row hr hk

theorem Storing.of_failed {error error' : FlareError} (hf : Filed mail before)
    (hpo : Posted mail ctx messages)
    (hj : Judges clock ctx before middle (messages.map (·.message)) (.error error)
      fun _ => False) : Storing mail before middle messages (.error error') := by
  have hmi : Filed mail middle := hf.of_judges hpo hj
  refine ⟨hmi, hj.kept, fun event hm => hj.events ▸ hm, ?_, ?_, ?_⟩
  · intro row hr hs
    rcases hj.rows row hr with hold | ⟨message, hm, ha⟩
    · exact .inl ⟨hold, hj.events ▸ hs⟩
    · obtain ⟨prepared, hp, rfl⟩ := mem_map.mp hm
      have hie := (archiveRow_eq_ok (hpo.delivers prepared hp) ha).1
      exact .inr ⟨prepared, hp, (PreparedMessage.writeKey_of_identity hie).symm⟩
  · exact fun result hok => absurd hok (by simp)
  · exact fun result hok => absurd hok (by simp)

end Persisting

section Deliveries

variable {writer : Writer} {mail : Mail writer.codec} {ctx : Ctx} {database : Database}
  {before after : Tables} {messages : List PreparedMessage}
  {answer : Except FlareError ArchiveOutcome}

theorem archiveMessages_judges {middle : Tables} {archived : Except FlareError ArchiveOutcome}
    (hf : Filed mail before) (hp : Posted mail ctx messages)
    (h : archiveMessages database.clock ctx writer.size before database.archive
      (messages.map (·.message)) = (middle, archived)) :
    Judges database.clock ctx before middle (messages.map (·.message)) archived fun _ => False := by
  let call : Call := ⟨database.clock, ctx, writer.size, database.archive, messages.map (·.message)⟩
  have hids : call.idsOnce := fun _ => hp.messageIds
  exact call.archive_judges hf.oneCopy hids h

theorem eventFrom_of_built {row : EventStreamInsertRow}
    (hpo : Posted mail ctx messages) (hm : prepared ∈ messages)
    (hin : eventToInsertRow writer.codec database.clock
      (buildEventMessage database.clock prepared) = some row) :
    EventFrom writer.codec messages row := by
  obtain ⟨built, hb, hr, hk, hp⟩ := eventToInsertRow_buildEventMessage writer.codec
    database.clock (mail.in_conversation prepared (hpo.sent prepared hm))
  obtain rfl : built = row := Option.some.inj (hb.symm.trans hin)
  exact ⟨hr, prepared, hm, hk, hp⟩

theorem seq_lt_of_answered {middle : Tables} (hp : Posted mail ctx messages)
    (ha : Answered database.clock ctx before middle (messages.map (·.message)) outcome
      fun _ => False) (hm : prepared ∈ messages)
    (hdu : outcome.isDuplicate prepared.messageId = false) :
    prepared.message.conversationSeq < 2 ^ 63 := by
  obtain ⟨row, har, -⟩ := ha.written prepared.message (mem_map_of_mem hm) hdu
  exact (archiveRow_eq_ok (hp.delivers prepared hm) har).2

theorem persistMessage_storing (hf : Filed mail before) (hp : Posted mail ctx [prepared])
    (h : persistMessage writer ctx database before prepared = (after, answer)) :
    Storing mail before after [prepared] answer := by
  have hm : prepared ∈ [prepared] := mem_cons_self
  have hs := hp.sent prepared hm
  simp only [persistMessage] at h
  split at h
  · rename_i archived error har
    cases h
    exact .of_failed hf hp (archiveMessages_judges hf hp har)
  · rename_i archived outcome har
    have hj := archiveMessages_judges hf hp har
    have hmi : Filed mail archived := hf.of_judges hp hj
    split at h
    · rename_i hdu
      obtain ⟨rfl, rfl⟩ := Prod.mk.inj h
      have hn : Appended archived.events archived.events [] :=
        ⟨fun _ hm => hm, fun _ hm => .inl hm⟩
      refine Storing.of_appended hf hp hj hn
        (fun _ hm => absurd hm not_mem_nil) (fun _ hok => (Except.ok.inj hok).symm) ?_
      intro _ _ other ho hno
      obtain rfl := mem_singleton.mp ho
      exact absurd hdu (by simp [hno])
    · obtain ⟨row, hin, hr, hk, hpa⟩ := eventToInsertRow_buildEventMessage
        writer.codec database.clock (mail.in_conversation prepared hs)
      have hfr : ∀ event ∈ [row], EventFrom writer.codec [prepared] event :=
        forall_mem_singleton.mpr (eventFrom_of_built hp hm hin)
      split at h
      · rename_i error hap
        cases h
        obtain ⟨appended, rfl, ha, -⟩ := appendEvent_spec hmi.events hin hr hap
        exact .of_appended hf hp hj ha hfr
          (fun _ hok => absurd hok (by simp)) fun _ hok => absurd hok (by simp)
      · rename_i hap
        cases h
        obtain ⟨appended, rfl, ha, hre⟩ := appendEvent_spec hmi.events hin hr hap
        refine .of_appended hf hp hj ha hfr (fun _ hok => (Except.ok.inj hok).symm) ?_
        intro _ _ other ho hdu
        obtain rfl := mem_singleton.mp ho
        have hse := seq_lt_of_answered hp (hj.answered outcome rfl) hm hdu
        exact eventOf_of_recorded (mail.reads_back other hs) hse hk hpa (hre rfl)

theorem persistBatch_storing (hf : Filed mail before) (hp : Posted mail ctx messages)
    (h : persistBatch writer ctx database before messages = (after, answer)) :
    Storing mail before after messages answer := by
  simp only [persistBatch] at h
  split at h
  · rename_i archived error har
    cases h
    exact .of_failed hf hp (archiveMessages_judges hf hp har)
  · rename_i archived outcome har
    have hj := archiveMessages_judges hf hp har
    have hmi : Filed mail archived := hf.of_judges hp hj
    let kept := messages.filter fun message => !outcome.isDuplicate message.messageId
    have hfr : ∀ event ∈ (kept.map (buildEventMessage database.clock)).filterMap
        (eventToInsertRow writer.codec database.clock), EventFrom writer.codec messages event := by
      intro row hr
      obtain ⟨event, hev, hin⟩ := mem_filterMap.mp hr
      obtain ⟨prepared, hpr, rfl⟩ := mem_map.mp hev
      exact eventFrom_of_built hp (List.mem_of_mem_filter hpr) hin
    have hb : ∀ event ∈ kept.map (buildEventMessage database.clock), ∀ row,
        eventToInsertRow writer.codec database.clock event = some row → MessageRow row := by
      intro event hev row hin
      exact (hfr row (mem_filterMap.mpr ⟨event, hev, hin⟩)).1
    split at h
    · rename_i error hap
      cases h
      obtain ⟨appended, rfl, ha, -⟩ := appendEventsToStream_spec hmi.events hb hap
      exact .of_appended hf hp hj ha hfr
        (fun _ hok => absurd hok (by simp)) fun _ hok => absurd hok (by simp)
    · rename_i hap
      cases h
      obtain ⟨appended, rfl, ha, hre⟩ := appendEventsToStream_spec hmi.events hb hap
      refine .of_appended hf hp hj ha hfr (fun _ hok => (Except.ok.inj hok).symm) ?_
      intro _ _ prepared hm hdu
      have hs := hp.sent prepared hm
      obtain ⟨row, hin, -, hk, hpa⟩ := eventToInsertRow_buildEventMessage writer.codec
        database.clock (mail.in_conversation prepared hs)
      have hke : prepared ∈ kept := mem_filter.mpr ⟨hm, by simp [hdu]⟩
      have hr : row ∈ (kept.map (buildEventMessage database.clock)).filterMap
          (eventToInsertRow writer.codec database.clock) :=
        mem_filterMap.mpr ⟨_, mem_map_of_mem hke, hin⟩
      have hse := seq_lt_of_answered hp (hj.answered outcome rfl) hm hdu
      exact eventOf_of_recorded (mail.reads_back prepared hs) hse hk hpa (hre rfl row hr)

end Deliveries

section Metering

variable {writer : Writer} {mail : Mail writer.codec} {metered next : Metered}

-- The usage is that of stored messages, each counted once. A stored message that is not counted
-- has yet to be delivered with Ok.
structure Metering (writer : Writer) (mail : Mail writer.codec) (metered : Metered) : Prop where
  filed : Filed mail metered.store.tables
  reported : ∀ prepared ∈ metered.reported, IsStored writer.codec metered.store.tables prepared
  once : (metered.reported.map PreparedMessage.key).Nodup
  missing : ∀ row ∈ metered.store.tables.messages,
    inStream writer.codec metered.store.tables.events row →
    row.writeKey ∈ metered.reported.map PreparedMessage.key ∨
      ∃ prepared ∈ metered.failing, prepared.key = row.writeKey

-- What a delivery reports of the messages it finds new.
def Reports (new reported : List PreparedMessage) (succeeded : Bool)
    (answer : Except FlareError ArchiveOutcome) : Prop :=
  (reported = [] ∧ succeeded = false) ∨ ∃ outcome, answer = .ok outcome ∧
    reported = new.filter fun prepared => !outcome.isDuplicate prepared.messageId

theorem Reports.sublist
    {answer : Except FlareError ArchiveOutcome} (h : Reports new reported succeeded answer) :
    reported.Sublist new := by
  rcases h with ⟨rfl, -⟩ | ⟨outcome, -, rfl⟩
  · exact List.nil_sublist _
  · exact List.filter_sublist

theorem Reports.stored
    {answer : Except FlareError ArchiveOutcome} {before after : Tables}
    (h : Reports new reported succeeded answer) (hs : Storing mail before after new answer)
    (hm : prepared ∈ reported) :
    IsStored writer.codec after prepared := by
  rcases h with ⟨rfl, -⟩ | ⟨outcome, ha, rfl⟩
  · exact absurd hm not_mem_nil
  · obtain ⟨hn, hdu⟩ := mem_filter.mp hm
    exact hs.stored outcome ha prepared hn ((Bool.not_eq_true' _).mp hdu)

-- A new message that is stored at the end is reported, unless the delivery fails.
theorem Reports.mem_of_stored
    {answer : Except FlareError ArchiveOutcome} {before after : Tables}
    (h : Reports new reported succeeded answer) (hs : Storing mail before after new answer)
    (hm : prepared ∈ new)
    (hst : IsStored writer.codec after prepared) (hok : succeeded = true) :
    prepared ∈ reported := by
  rcases h with ⟨-, hf⟩ | ⟨outcome, ha, rfl⟩
  · exact absurd hok (by simp [hf])
  · refine mem_filter.mpr ⟨hm, ?_⟩
    cases hdu : outcome.isDuplicate prepared.messageId with
    | false => rfl
    | true => exact absurd hst (hs.resend outcome ha prepared hm hdu)

theorem Metering.answered {messages : List PreparedMessage} {after : Store}
    {answer : Except FlareError ArchiveOutcome}
    (h : Metering writer mail metered)
    (hs : Storing mail metered.store.tables after.tables new answer)
    (hn : ∀ prepared ∈ new, prepared ∈ messages)
    (ha : (new.map PreparedMessage.key).Nodup)
    (hu : ∀ prepared ∈ new, prepared.key ∉ metered.reported.map PreparedMessage.key)
    (hc : succeeded = true → ∀ prepared ∈ messages, prepared ∉ new →
      IsStored writer.codec metered.store.tables prepared →
      prepared.key ∈ metered.reported.map PreparedMessage.key)
    (hre : Reports new reported succeeded answer) :
    Metering writer mail (metered.answered messages reported after succeeded) := by
  refine ⟨hs.filed, ?_, ?_, ?_⟩
  · intro prepared hm
    rcases List.mem_append.mp hm with hrp | hold
    · exact hre.stored hs hrp
    · exact (h.reported prepared hold).mono hs.rows hs.events
  · have hj : (metered.answered messages reported after succeeded).reported.map
        PreparedMessage.key = reported.map PreparedMessage.key ++
          metered.reported.map PreparedMessage.key := List.map_append
    rw [hj]
    refine List.nodup_append'.mpr ⟨(hre.sublist.map _).nodup ha, h.once, ?_⟩
    intro key hk hold
    obtain ⟨prepared, hm, rfl⟩ := mem_map.mp hk
    exact hu prepared (hre.sublist.subset hm) hold
  · intro row hr hst
    have hsa {prepared : PreparedMessage} (hk : prepared.key = row.writeKey) :
        IsStored writer.codec after.tables prepared := ⟨row, hr, hk.symm, hst⟩
    have hrp {prepared : PreparedMessage} (hm : prepared ∈ reported)
        (hk : prepared.key = row.writeKey) :
        row.writeKey ∈ (reported ++ metered.reported).map PreparedMessage.key :=
      mem_map.mpr ⟨prepared, List.mem_append_left _ hm, hk⟩
    have hea (hold : row.writeKey ∈ metered.reported.map PreparedMessage.key) :
        row.writeKey ∈ (reported ++ metered.reported).map PreparedMessage.key := by
      rw [List.map_append]
      exact List.mem_append_right _ hold
    have hf {prepared : PreparedMessage} (hfa : succeeded = false)
        (hm : prepared ∈ messages ++ metered.failing) :
        prepared ∈ (metered.answered messages reported after succeeded).failing := by
      rw [Metered.answered, if_neg (by simp [hfa])]
      exact hm
    rcases hs.only row hr hst with ⟨hol, ho⟩ | ⟨prepared, hm, hk⟩
    · rcases h.missing row hol ho with hold | ⟨prepared, hm, hk⟩
      · exact .inl (hea hold)
      · cases hok : succeeded with
        | false => exact .inr ⟨prepared, hok ▸ hf hok (List.mem_append_right _ hm), hk⟩
        | true =>
          by_cases hde : prepared ∈ messages
          · by_cases hfr : prepared ∈ new
            · have hm' := hre.mem_of_stored hs hfr (hsa hk) hok
              exact .inl (hrp hm' hk)
            · have hb : IsStored writer.codec metered.store.tables prepared :=
                ⟨row, hol, hk.symm, ho⟩
              exact .inl (hea (hk ▸ hc hok prepared hde hfr hb))
          · refine .inr ⟨prepared, ?_, hk⟩
            rw [Metered.answered, if_pos rfl]
            exact mem_filter.mpr ⟨hm, by simpa using hde⟩
    · cases hok : succeeded with
      | false =>
        exact .inr ⟨prepared, hok ▸ hf hok (List.mem_append_left _ (hn prepared hm)), hk⟩
      | true =>
        exact .inl (hrp (hre.mem_of_stored hs hm (hsa hk) hok) hk)

theorem Storing.nothing {tables : Tables} (hf : Filed mail tables) :
    Storing mail tables tables [] (.ok {}) where
  filed := hf
  rows _ h := h
  events _ h := h
  only _ hr hs := .inl ⟨hr, hs⟩
  stored _ _ _ h := absurd h not_mem_nil
  resend _ _ _ h := absurd h not_mem_nil

theorem Metering.kept {messages : List PreparedMessage} {after : Store}
    (h : Metering writer mail metered) (ht : after.tables = metered.store.tables)
    (hc : succeeded = true → ∀ prepared ∈ messages,
      IsStored writer.codec metered.store.tables prepared →
      prepared.key ∈ metered.reported.map PreparedMessage.key) :
    Metering writer mail (metered.answered messages [] after succeeded) := by
  have hs : Storing mail metered.store.tables after.tables [] (.ok {}) := by
    rw [ht]
    exact .nothing h.filed
  refine h.answered hs (fun _ hm => absurd hm not_mem_nil) List.nodup_nil
    (fun _ hm => absurd hm not_mem_nil) ?_ (.inr ⟨{}, rfl, rfl⟩)
  exact fun hok prepared hm _ => hc hok prepared hm

theorem Metering.single {ctx : Ctx} {database : Database} {member : Member}
    (h : Metering writer mail metered) (hde : Ctx.Delivers ctx member.prepared)
    (hse : mail.sent member.prepared)
    (hu : (∀ one ∈ footprints writer.ttlSeconds ctx metered.store.keys [member],
      one.stops = false) → Unexpired writer metered ctx [member]) :
    let ensured := ensureConsistency writer ctx database metered.store member
    Metering writer mail (metered.answered [member.prepared]
      (reportedBy writer ctx database metered.store member) ensured.1 ensured.2.isOk) := by
  intro ensured
  have hw := @footprint_walks writer.ttlSeconds ctx metered.store.keys member
  have hu' : (footprint writer.ttlSeconds ctx metered.store.keys member).stops = false →
      ((footprint writer.ttlSeconds ctx metered.store.keys member).taken ≠ [] →
        member.prepared.key ∉ metered.reported.map PreparedMessage.key) ∧
      ((footprint writer.ttlSeconds ctx metered.store.keys member).taken = [] →
        IsStored writer.codec metered.store.tables member.prepared →
        member.prepared.key ∈ metered.reported.map PreparedMessage.key) := by
    intro hg
    obtain ⟨-, hun, hc⟩ := hu (by simpa [footprints] using hg)
    simp only [footprints, hg, Bool.false_eq_true, if_false, List.zip_cons_cons,
      List.zip_nil_left, mem_singleton, forall_eq] at hun hc
    exact ⟨hun, hc⟩
  unfold ensured ensureConsistency reportedBy
  generalize footprint writer.ttlSeconds ctx metered.store.keys member = first at hw hu'
  generalize reserveIdempotency writer.ttlSeconds ctx metered.store.keys member = reserved at hw ⊢
  obtain ⟨keys, answer⟩ := reserved
  cases answer with
  | error error => exact h.kept rfl fun hok => absurd hok (by simp [Except.isOk, Except.toBool])
  | ok decision =>
    simp only
    by_cases hn : decision.isNew
    · obtain ⟨hg, key, ht, -⟩ := hw.isNew decision rfl hn
      have hun := (hu' hg).1 (by simp [ht])
      have hp : Posted mail ctx [member.prepared] :=
        ⟨forall_mem_singleton.mpr hde, forall_mem_singleton.mpr hse,
          List.nodup_singleton _⟩
      have hme {after : Store} {reported : List PreparedMessage} {succeeded : Bool}
          {answer : Except FlareError ArchiveOutcome}
          (hs : Storing mail metered.store.tables after.tables [member.prepared] answer)
          (hr : Reports [member.prepared] reported succeeded answer) :
          Metering writer mail (metered.answered [member.prepared] reported after succeeded) :=
        h.answered hs (fun _ hm => hm) hp.apart
          (forall_mem_singleton.mpr hun) (fun _ _ hm hno => absurd hm hno) hr
      rw [if_neg (by simpa using hn), if_neg (by simpa using hn)]
      cases hpe : persistMessage writer ctx database metered.store.tables
          member.prepared with
      | mk tables persisted =>
        have hs := persistMessage_storing h.filed hp hpe
        cases persisted with
        | error error => exact hme hs (.inl ⟨rfl, rfl⟩)
        | ok outcome =>
          have hr (succeeded : Bool) : Reports [member.prepared]
              (if outcome.isDuplicate member.prepared.messageId then []
                else [member.prepared]) succeeded (.ok outcome) := by
            refine .inr ⟨outcome, rfl, ?_⟩
            cases hdu : outcome.isDuplicate member.prepared.messageId with
            | false | true => simp [hdu]
          cases hac : member.answers.ack with
          | false | true => exact hme hs (hr _)
    · obtain ⟨hac, ht⟩ := hw.held decision rfl (by simpa using hn)
      rw [if_pos (by simpa using hn), if_pos (by simpa using hn)]
      cases ha : member.answers.ack with
      | false =>
        exact h.kept rfl fun hok => absurd hok (by simp [publishAck, Except.isOk, Except.toBool])
      | true =>
        have hc := (hu' (by simp [hac, ha])).2 ht
        exact h.kept rfl fun _ => forall_mem_singleton.mpr hc

theorem footprints_length {ctx : Ctx} {keys : List String}
    (h : ∀ one ∈ footprints writer.ttlSeconds ctx keys members, one.stops = false) :
    (footprints writer.ttlSeconds ctx keys members).length = members.length := by
  induction members generalizing keys with
  | nil => rfl
  | cons member rest ih =>
    rw [footprints] at h ⊢
    obtain ⟨hf, hr⟩ := List.forall_mem_cons.mp h
    rw [if_neg (by simp [hf])] at hr ⊢
    rw [List.length_cons, List.length_cons, ih hr]

-- The members the loop reserved are those whose check took a key.
theorem taken_of_reserved {walked : List Footprint}
    {reserved : List Reserved} (hn : reserved.map (·.1) = newMembers (members.zip walked))
    {entry : Reserved} (hen : entry ∈ reserved) :
    ∃ one ∈ members.zip walked, one.2.taken ≠ [] ∧ one.1 = entry.1 := by
  have hm : entry.1 ∈ newMembers (members.zip walked) := hn ▸ mem_map_of_mem hen
  obtain ⟨one, ho, hs⟩ := mem_map.mp hm
  obtain ⟨hz, ht⟩ := mem_filter.mp ho
  exact ⟨one, hz, by simpa using ht, hs⟩

theorem taken_of_not_reserved {walked : List Footprint}
    {reserved : List Reserved} (hn : reserved.map (·.1) = newMembers (members.zip walked))
    {one : Member × Footprint} (ho : one ∈ members.zip walked)
    (hno : one.1.prepared ∉ reserved.map (·.1.prepared)) : one.2.taken = [] := by
  by_contra ht
  have hf : one.1 ∈ reserved.map (·.1) := by
    rw [hn]
    exact mem_map_of_mem (mem_filter.mpr ⟨ho, by simpa using ht⟩)
  obtain ⟨entry, hen, hs⟩ := mem_map.mp hf
  exact hno (mem_map.mpr ⟨entry, hen, by rw [hs]⟩)

theorem Metering.batch {ctx : Ctx} {database : Database} (h : Metering writer mail metered)
    (hde : ∀ member ∈ members, Ctx.Delivers ctx member.prepared)
    (hse : ∀ member ∈ members, mail.sent member.prepared)
    (hun : (∀ one ∈ footprints writer.ttlSeconds ctx metered.store.keys members,
      one.stops = false) → Unexpired writer metered ctx members) :
    let ensured := ensureBatchConsistency writer ctx database metered.store members
    Metering writer mail (metered.answered (members.map (·.prepared))
      (batchReportedBy writer ctx database metered.store members) ensured.1 ensured.2.isOk) := by
  intro ensured
  have hw := @reserveLoop_walks writer ctx metered.store members
  unfold ensured ensureBatchConsistency batchReportedBy
  cases hlo : reserveLoop writer ctx metered.store members with
  | mk entered looped =>
    rw [hlo] at hw
    cases looped with
    | error error =>
      exact h.kept hw.tables fun hok => absurd hok (by simp [Except.isOk, Except.toBool])
    | ok walk =>
      obtain ⟨reserved, results⟩ := walk
      obtain ⟨hg, -, -, hn⟩ := hw.ok reserved results rfl
      obtain ⟨ha, hu, hc⟩ := hun hg
      have hl := footprints_length hg
      generalize footprints writer.ttlSeconds ctx metered.store.keys members = walked
        at hw hg hn ha hu hc hl
      rw [← hn] at ha
      have hme (entry : Reserved) (hen : entry ∈ reserved) : entry.1 ∈ members := by
        obtain ⟨one, ho, -, hsa⟩ := taken_of_reserved hn hen
        exact hsa ▸ (List.of_mem_zip ho).1
      have hp : Posted mail ctx (reserved.map (·.1.prepared)) := by
        refine ⟨?_, ?_, ?_⟩
        · exact forall_mem_map.mpr fun entry hen => hde _ (hme entry hen)
        · exact forall_mem_map.mpr fun entry hen => hse _ (hme entry hen)
        · rw [map_map] at ha ⊢
          exact ha
      have hu' : ∀ prepared ∈ reserved.map (·.1.prepared),
          prepared.key ∉ metered.reported.map PreparedMessage.key := by
        refine forall_mem_map.mpr fun entry hen => ?_
        obtain ⟨one, ho, ht, hsa⟩ := taken_of_reserved hn hen
        exact hsa ▸ hu one ho ht
      have hc' : ∀ prepared ∈ members.map (·.prepared), prepared ∉ reserved.map (·.1.prepared) →
          IsStored writer.codec metered.store.tables prepared →
          prepared.key ∈ metered.reported.map PreparedMessage.key := by
        refine forall_mem_map.mpr fun member hm hno hst => ?_
        have hf : (members.zip walked).map Prod.fst = members :=
          List.map_fst_zip (by omega)
        rw [← hf] at hm
        obtain ⟨one, ho, rfl⟩ := mem_map.mp hm
        exact hc one ho (taken_of_not_reserved hn ho hno) hst
      have hmt {after : Store} {reported : List PreparedMessage} {succeeded : Bool}
          {answer : Except FlareError ArchiveOutcome}
          (hs : Storing mail metered.store.tables after.tables (reserved.map (·.1.prepared)) answer)
          (hr : Reports (reserved.map (·.1.prepared)) reported succeeded answer) :
          Metering writer mail
            (metered.answered (members.map (·.prepared)) reported after succeeded) := by
        refine h.answered hs ?_ hp.apart hu' (fun _ => hc') hr
        refine forall_mem_map.mpr fun entry hen => ?_
        exact mem_map_of_mem (hme entry hen)
      simp only
      split
      · rename_i hem
        refine h.kept hw.tables fun _ prepared hm => hc' prepared hm ?_
        rw [List.isEmpty_iff.mp hem]
        exact not_mem_nil
      · cases hpe : persistBatch writer ctx database entered.tables
            (reserved.map (·.1.prepared)) with
        | mk tables persisted =>
          have hs := persistBatch_storing (hw.tables ▸ h.filed) hp hpe
          rw [hw.tables] at hs
          cases persisted with
          | error error => exact hmt hs (.inl ⟨rfl, rfl⟩)
          | ok outcome =>
            simp only
            cases hac : ackLoop outcome { entered with tables } reserved with
            | mk acked answer =>
              obtain ⟨-, hsa⟩ := ackLoop_same hac
              have hs' : Storing mail metered.store.tables acked.tables
                  (reserved.map (·.1.prepared)) (.ok outcome) := hsa ▸ hs
              cases answer with
              | error error | ok results => exact hmt hs' (.inr ⟨outcome, rfl, rfl⟩)

theorem Metering.step {traffic : Traffic} (h : Metering writer mail metered)
    (hr : Remembered writer mail metered traffic)
    (hs : meter writer metered traffic = some next) : Metering writer mail next := by
  cases traffic with
  | expire key =>
    cases hs
    exact ⟨h.filed, h.reported, h.once, h.missing⟩
  | deliver action =>
    cases hm : action.members with
    | error error =>
      simp only [meter, hm, Option.some.injEq] at hs
      exact hs ▸ h
    | ok members =>
      have hde := members_delivers hm
      obtain ⟨hse, hu⟩ := hr members hm
      cases action with
      | single ctx database delivered =>
        obtain ⟨member, rfl⟩ : ∃ member, members = [member] := by
          have hl := (traverse_eq_ok hm).length_eq
          exact List.length_eq_one_iff.mp hl.symm
        simp only [meter, hm, Option.some.injEq] at hs
        rw [← hs]
        exact h.single (hde member mem_cons_self) (hse member mem_cons_self) hu
      | batch ctx database delivered =>
        simp only [meter, hm, Option.some.injEq] at hs
        rw [← hs]
        exact h.batch hde hse hu

end Metering

section Counts

variable {writer : Writer} {mail : Mail writer.codec} {metered : Metered}

end Counts

end FlareIm.MessagePersistence
