import FlareIm.EventApplication.Theorems

namespace FlareIm.EventApplication

open Text Context Proto EventRow Fallible Wire

section Format

variable (codec : Codec) (clock : Clock) (tenantId operatorId : String)

-- What the reader makes of the row the writer stores for a proto event.
def readBack (event : Proto.Event) : Option (Except String Proto.Event) :=
  (eventToInsertRow codec clock
    { eventFromProto codec event with tenantId, operatorId }).map (protoEventFromEventsRow codec)

structure SameEvent (event read : Proto.Event) : Prop where
  type : read.type = event.type
  conversationId : read.conversationId = event.conversationId
  conversationSeq : read.conversationSeq = event.conversationSeq
  requestId : read.requestId = event.requestId
  createdAt : read.createdAt = event.createdAt
  payload : read.payload = event.payload

-- Writer and reader agree on the event.
def RowAgrees (event : Proto.Event) : Prop :=
  ∃ read, readBack codec clock tenantId operatorId event = some (.ok read) ∧ SameEvent event read

-- The payloads the writer has a format for, with the data it does not make up.
def KeepsData : Payload → Prop
  | .recall _ | .delete _ | .reaction _ | .pin _ | .unpin _ | .mark _ | .unmark _ => True
  | .pluginState _ => True
  | .edit edit => edit.newContent = none → codec.content.decode [] = none
  | .read read => read.readAt ≠ some 0
  | .retentionScheduled scheduled =>
    let burnAt := (scheduled.state.bind (·.expireAt)).getD 0
    scheduled.policy = some (retentionPolicyAt burnAt) ∧
      scheduled.state = some (retentionStateScheduled scheduled.readerId burnAt)
  | .retentionExpired expired =>
    let burnAt := (expired.state.bind (·.expireAt)).getD 0
    expired.state = some (retentionStateExpired expired.readerId burnAt expired.expiredAt)
  | .retentionPurged purged =>
    purged.state = some (retentionStatePurged purged.readerId
      (purged.state.bind (·.expireAt)) (purged.state.bind (·.expiredAt)) purged.purgedAt)
  | .message _ | .conversation | .conversationDelete | .custom _ => False

-- A time that the date library has a date for, or that of the writer's clock.
def KeepsTime (createdAt : Int) : Prop :=
  0 < createdAt ∧ clock.represents createdAt ∨ createdAt = clock.now

-- What is relied on of the proto library: it reads back what it wrote for the payload.
structure ReadsBack (payload : Payload) : Prop where
  content : ∀ edit content, payload = .edit edit → edit.newContent = some content →
    codec.content.decode (codec.content.encode content) = some content
  inner : ∀ stored, storedPayload codec payload = some stored →
    decodeEventPayload codec stored.eventType (encodePayloadBytes codec stored) = some stored

end Format

section Agreement

variable {codec : Codec} {clock : Clock} {tenantId operatorId : String} {event : Proto.Event}
  {payload : Payload}

theorem storedPayload_eq_iff (hco : ReadsBack codec payload) :
    storedPayload codec payload = some payload ↔ KeepsData codec payload := by
  cases payload with
  | edit edit =>
    obtain ⟨serverMsgId, newContent, reason, showEditedMark⟩ := edit
    cases newContent with
    | none => simp [storedPayload, eventPayloadFromProto, eventPayloadToProto, KeepsData]
    | some content =>
      have hc := hco.content _ content rfl rfl
      simp [storedPayload, eventPayloadFromProto, eventPayloadToProto, KeepsData, hc]
  | read read =>
    obtain ⟨conversationId, readSeq, userId, messageIds, readAt⟩ := read
    cases readAt with
    | none => simp [storedPayload, eventPayloadFromProto, eventPayloadToProto, KeepsData]
    | some ms =>
      have hms := millisToTimestamp_bind_timestampToMillis ms
      by_cases hz : ms = 0
      · subst hz
        rw [if_pos rfl] at hms
        simp [storedPayload, eventPayloadFromProto, eventPayloadToProto, KeepsData, hms]
      · simp [storedPayload, eventPayloadFromProto, eventPayloadToProto, KeepsData, hms, hz]
  | pin pin =>
    obtain ⟨serverMsgId, pinnedBy, reason, expireAt, scope⟩ := pin
    cases expireAt <;> simp [storedPayload, eventPayloadFromProto, eventPayloadToProto, KeepsData]
  | retentionScheduled scheduled =>
    obtain ⟨conversationId, serverMsgId, readerId, policy, state, scheduledAt⟩ := scheduled
    simp [storedPayload, eventPayloadFromProto, eventPayloadToProto, KeepsData,
      eq_comm (b := policy), eq_comm (b := state)]
  | retentionExpired expired =>
    obtain ⟨conversationId, serverMsgId, readerId, state, expiredAt⟩ := expired
    simp [storedPayload, eventPayloadFromProto, eventPayloadToProto, KeepsData,
      eq_comm (b := state)]
  | retentionPurged purged =>
    obtain ⟨conversationId, serverMsgId, readerId, state, purgedAt⟩ := purged
    simp [storedPayload, eventPayloadFromProto, eventPayloadToProto, KeepsData,
      eq_comm (b := state)]
  | message _ | conversation | conversationDelete | custom _ =>
    simp [storedPayload, eventPayloadFromProto, KeepsData]
  | «recall» _ | delete _ | reaction _ | unpin _ | mark _ | unmark _ | pluginState _ =>
    simp [storedPayload, eventPayloadFromProto, eventPayloadToProto, KeepsData]

theorem asU64_asI64 {n : Nat} (h : n < 2 ^ 64) : asU64 (asI64 n) = n := by
  unfold asI64 asU64
  split_ifs <;> omega

-- The bytes of the stored payload, or none where the writer keeps no payload.
def storedBytes (codec : Codec) (payload : Payload) : List UInt8 :=
  ((storedPayload codec payload).map (encodePayloadBytes codec)).getD []

theorem decode_storedBytes_iff (hc : ReadsBack codec payload) :
    decodePayloadOneof codec (.known payload.eventType) (storedBytes codec payload) =
        .ok (some payload) ↔ KeepsData codec payload ∧ encodePayloadBytes codec payload ≠ [] := by
  rw [← storedPayload_eq_iff hc]
  constructor
  · intro h
    obtain ⟨hb, hde⟩ := decodePayloadOneof_eq_some h
    cases hs : storedPayload codec payload with
    | none => simp [storedBytes, hs] at hb
    | some stored =>
      have hin := hc.inner stored hs
      simp only [storedBytes, hs, Option.map_some, Option.getD_some] at hb hde
      have ht : stored.eventType = payload.eventType := by
        cases payload <;> cases hs <;> rfl
      rw [ht, hde] at hin
      cases hin
      exact ⟨rfl, hb⟩
  · rintro ⟨hs, hb⟩
    have hin := hc.inner payload hs
    rw [storedBytes, hs, Option.map_some, Option.getD_some]
    exact decodePayloadOneof_of_decoded hb hin

def storedTime (clock : Clock) (createdAt : Int) : Int :=
  if 0 < createdAt ∧ clock.represents createdAt then createdAt else clock.now

theorem storedTime_eq_iff {createdAt : Int} :
    storedTime clock createdAt = createdAt ↔ KeepsTime clock createdAt := by
  unfold storedTime KeepsTime
  split_ifs with h
  · exact ⟨fun _ => Or.inl h, fun _ => rfl⟩
  · exact ⟨fun heq => Or.inr heq.symm, fun hk => (hk.resolve_left h).symm⟩

theorem createdAt_roundTrip (createdAt : Int) :
    ((if 0 < createdAt then millisToTimestamp createdAt else none).bind timestampToMillis).getD 0 =
      max createdAt 0 := by
  split_ifs with h
  · have hne : createdAt ≠ 0 := by omega
    rw [millisToTimestamp_bind_timestampToMillis, if_neg hne, Option.getD_some]
    omega
  · rw [Option.bind_none, Option.getD_none]
    omega

theorem readBack_eq (hpa : event.payload = some payload)
    (ht : event.type = .known payload.eventType) (hne : event.conversationId ≠ "") :
    readBack codec clock tenantId operatorId event = some
      ((decodePayloadOneof codec (.known payload.eventType) (storedBytes codec payload)).map
        fun decoded => {
          conversationId := event.conversationId
          conversationSeq := asU64 (asI64 event.conversationSeq)
          type := .known payload.eventType
          createdAt := storedTime clock event.createdAt
          eventId := event.conversationId ++ ":" ++ toString (asI64 event.conversationSeq)
          requestId := event.requestId
          payload := decoded }) := by
  have hr : eventToInsertRow codec clock
      { eventFromProto codec event with tenantId, operatorId } = some {
        tenantId := tenantId
        conversationId := event.conversationId
        seq := asI64 event.conversationSeq
        eventType := .known payload.eventType
        legacyEventType := (eventTypeFromI32 event.type).discriminant
        createdAt := storedTime clock event.createdAt
        operatorId := operatorId
        requestId := event.requestId
        eventSeq := none
        payload := storedBytes codec payload } := by
    have hti := createdAt_roundTrip event.createdAt
    have hs : storedTime clock event.createdAt =
        if 0 < max event.createdAt 0 ∧ clock.represents (max event.createdAt 0) = true then
          max event.createdAt 0 else clock.now := by
      unfold storedTime
      by_cases hp : 0 < event.createdAt
      · rw [max_eq_left (by omega)]
      · rw [if_neg (fun h => hp h.1), max_eq_right (by omega),
          if_neg (fun h => absurd h.1 (by omega))]
    unfold eventToInsertRow
    simp only [eventToProto, eventFromProto, hpa, ht,
      eventTypeToProtoI32_eventTypeFromI32, hti, if_neg hne, hs, Option.map_none]
    rfl
  rw [readBack, hr, Option.map_some]
  simp only [protoEventFromEventsRow]
  cases decodePayloadOneof codec (.known payload.eventType) (storedBytes codec payload) <;> rfl

-- Writer and reader agree on an event exactly when it names a conversation, its time is kept and
-- its payload is one that keeps its data and has bytes.
theorem rowAgrees_iff (hpayload : event.payload = some payload)
    (htype : event.type = .known payload.eventType) (hseq : event.conversationSeq < 2 ^ 64)
    (hcodec : ReadsBack codec payload) :
    RowAgrees codec clock tenantId operatorId event ↔
      event.conversationId ≠ "" ∧ KeepsTime clock event.createdAt ∧
        KeepsData codec payload ∧ encodePayloadBytes codec payload ≠ [] := by
  rw [← decode_storedBytes_iff hcodec, ← storedTime_eq_iff]
  constructor
  · rintro ⟨read, hread, hsame⟩
    have hne : event.conversationId ≠ "" := by
      intro hempty
      have hnone : readBack codec clock tenantId operatorId event = none := by
        simp [readBack, eventToInsertRow, eventToProto, eventFromProto, hempty]
      rw [hnone] at hread
      cases hread
    rw [readBack_eq hpayload htype hne] at hread
    have hread := Option.some.inj hread
    cases hdecoded : decodePayloadOneof codec (.known payload.eventType)
        (storedBytes codec payload) with
    | error reason =>
      rw [hdecoded] at hread
      cases hread
    | ok decoded =>
      rw [hdecoded] at hread
      cases hread
      have hsamePayload : decoded = event.payload := hsame.payload
      exact ⟨hne, hsame.createdAt, by rw [hsamePayload, hpayload]⟩
  · rintro ⟨hne, htime, hdecoded⟩
    have hread : readBack codec clock tenantId operatorId event = _ :=
      readBack_eq hpayload htype hne
    rw [hdecoded] at hread
    exact ⟨_, hread, htype.symm, rfl, asU64_asI64 hseq, rfl, htime, hpayload.symm⟩

end Agreement

section Sample

def sampleClock : Clock := ⟨0, fun _ => true⟩

theorem rowAgrees_unpin :
    RowAgrees sampleCodec sampleClock "acme" "alice"
      { unpinEvent .eventUnpin with createdAt := 1000 } := by
  have hcodec : ReadsBack sampleCodec (.unpin aliceUnpin) := by
    constructor
    · intro edit content hedit
      cases hedit
    · intro stored hstored
      cases hstored
      decide
  exact (rowAgrees_iff rfl rfl (by decide) hcodec).mpr
    ⟨by decide, Or.inl ⟨by decide, rfl⟩, trivial, by decide⟩

def customEvent : Proto.Event :=
  { conversationId := "2-team", conversationSeq := 7, type := .known .eventCustom,
    createdAt := 1000, payload := some (.custom { namespace_ := "app", name := "vote" }) }

-- The writer's conversion forgets the payload of a custom event, so that none is stored.
theorem custom_event_read_back_empty :
    ¬ ∃ codec, RowAgrees codec sampleClock "acme" "alice" customEvent := by
  rintro ⟨codec, read, hread, hsame⟩
  rw [readBack_eq rfl rfl (by decide)] at hread
  cases hread
  cases hsame.payload

end Sample

end FlareIm.EventApplication
