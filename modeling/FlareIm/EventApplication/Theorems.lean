import FlareIm.EventApplication
import FlareIm.OperationPolicy.Theorems

namespace FlareIm.EventApplication

open Text Context Proto EventValidation OperationPolicy EventRow Fallible Wire

section Stored

variable {codec : Codec} {clock : Clock} {archive : Archive} {stream : Stream}
  {event : EventRow.Event} {row : EventStreamInsertRow}

theorem appendEventToStream_eq_some
    (h : appendEventToStream codec clock stream event = .ok (some row)) :
    eventToInsertRow codec clock event = some row := by
  unfold appendEventToStream at h
  split at h
  · cases h
  rename_i own ho
  split at h
  · cases h
  · cases h
    exact ho
  · split at h
    · cases h
    · cases h
      exact ho

theorem appendEventAndStream_eq_some {payload : EventPayload}
    (h : appendEventAndStream codec clock archive stream event payload = .ok (some row)) :
    eventToInsertRow codec clock event = some row := by
  simp only [appendEventAndStream, bind_eq_ok] at h
  obtain ⟨-, -, ha⟩ := h
  cases hr : appendEventToStream codec clock stream event with
  | error error =>
    rw [hr] at ha
    cases ha
  | ok stored =>
    rw [hr] at ha
    cases ha
    exact appendEventToStream_eq_some hr

theorem updateAndAppend_eq_some {payload : EventPayload}
    (h : updateAndAppend codec clock archive stream event payload = .ok (some row)) :
    eventToInsertRow codec clock event = some row := by
  simp only [updateAndAppend, bind_eq_ok] at h
  obtain ⟨-, -, ha⟩ := h
  exact appendEventAndStream_eq_some ha

theorem applyBurn_eq_some {payload : EventPayload}
    (h : applyBurn codec clock archive stream event payload = .ok (some row)) :
    eventToInsertRow codec clock event = some row := by
  simp only [applyBurn, bind_eq_ok] at h
  obtain ⟨changed, -, ha⟩ := h
  split at ha
  · exact appendEventAndStream_eq_some ha
  · cases ha

theorem dispatch_eq_some (h : dispatch codec clock archive stream event = .ok (some row)) :
    eventToInsertRow codec clock event = some row := by
  unfold dispatch at h
  split at h
  case h_1 | h_2 | h_3 =>
    split at h <;> first | cases h | exact updateAndAppend_eq_some h
  case h_4 =>
    split at h
    · exact updateAndAppend_eq_some h
    · exact appendEventAndStream_eq_some h
  case h_5 =>
    split at h
    · cases h
    · exact updateAndAppend_eq_some h
  case h_6 | h_7 | h_8 => exact applyBurn_eq_some h
  case h_9 | h_10 | h_11 | h_12 | h_13 => exact updateAndAppend_eq_some h
  all_goals cases h

theorem processEvent_eq_some {writer : Writer}
    (h : processEvent codec writer event = .ok (some row)) :
    ∃ archive stream, dispatch codec writer.clock archive stream event = .ok (some row) := by
  unfold processEvent at h
  split at h
  · cases h
  split at h
  · cases h
  split at h
  · cases h
  split at h
  · cases h
  · exact ⟨_, _, h⟩
  · cases h
  · cases h

end Stored

-- The payload the writer encodes for a proto payload.
def storedPayload (codec : Codec) (payload : Payload) : Option Payload :=
  (eventPayloadFromProto codec payload).bind (eventPayloadToProto codec)

theorem enrichOperationEventFromCtx_eq_ok {event event' : EventRow.Event} {header : Ctx}
    (h : enrichOperationEventFromCtx event header = .ok event') :
    ∃ tenantId operatorId, event' = { event with tenantId, operatorId } := by
  unfold enrichOperationEventFromCtx at h
  split at h
  · cases h
    exact ⟨_, _, rfl⟩
  · cases h

-- Only the storable payloads are appended. The others are acknowledged or refused.
def storable : Payload → Bool
  | .recall «recall» => !isBlank recall.serverMsgId
  | .delete delete => !isBlank delete.serverMsgId
  | .mark mark => mark.markType ∈ MARK_TYPES
  | .edit _ | .read _ | .reaction _ | .pin _ | .unpin _ | .unmark _ => true
  | .retentionScheduled _ | .retentionExpired _ | .retentionPurged _ => true
  | .pluginState state => state.serverMsgId ≠ "" ∧ state.pluginId ≠ ""
  | .message _ | .conversation | .conversationDelete | .custom _ => false

theorem dispatch_storable {codec : Codec} {clock : Clock} {archive : Archive} {stream : Stream}
    {event : EventRow.Event} {payload : Payload} {row : EventStreamInsertRow}
    (hp : event.payload = eventPayloadFromProto codec payload)
    (h : dispatch codec clock archive stream event = .ok (some row)) :
    storable payload = true := by
  unfold dispatch at h
  rw [hp] at h
  cases payload with
  | «recall» «recall» | delete delete =>
    dsimp only [eventPayloadFromProto] at h
    split at h
    · cases h
    · rename_i hb
      simp [storable, Bool.eq_false_iff.mpr hb]
  | mark mark =>
    dsimp only [eventPayloadFromProto] at h
    split at h
    · simpa [storable]
    · cases h
  | pluginState state =>
    dsimp only [eventPayloadFromProto] at h
    split at h
    · cases h
    · rename_i hs
      rw [not_or, not_or] at hs
      simp [storable, hs.1, hs.2.1]
  | message _ | conversation | conversationDelete | custom _ => cases h
  | _ => rfl

theorem consume_eq_some {codec : Codec} {writer : Writer} {header : Ctx} {event : Proto.Event}
    {payload : Payload} {row : EventStreamInsertRow} (hp : event.payload = some payload)
    (h : consume codec writer header event = .ok (some row)) :
    storable payload = true ∧ row.eventType = eventTypeToProtoI32 (eventTypeFromI32 event.type) ∧
      row.payload = ((storedPayload codec payload).map (encodePayloadBytes codec)).getD [] := by
  unfold consume at h
  split at h
  · cases h
  rename_i enriched hen
  obtain ⟨tenantId, operatorId, rfl⟩ := enrichOperationEventFromCtx_eq_ok hen
  obtain ⟨archive, stream, hdi⟩ := processEvent_eq_some h
  have hs : storable payload = true :=
    dispatch_storable (by simp [eventFromProto, hp]) hdi
  have hr := dispatch_eq_some hdi
  simp only [eventToInsertRow, eventToProto, eventFromProto, hp] at hr
  split at hr
  · cases hr
  · cases hr
    exact ⟨hs, rfl, rfl⟩

theorem decodeEventPayload_eventType {codec : Codec} {type : Proto.EventType}
    {bytes : List UInt8} {payload : Payload}
    (h : decodeEventPayload codec type bytes = some payload) : payload.eventType = type := by
  cases type with
  | unspecified => cases h
  | _ =>
    obtain ⟨decoded, -, rfl⟩ := Option.map_eq_some_iff.mp h
    rfl

theorem decodePayloadOneof_eq_some {codec : Codec} {type : Proto.EventType}
    {bytes : List UInt8} {payload : Payload}
    (h : decodePayloadOneof codec (.known type) bytes = .ok (some payload)) :
    bytes ≠ [] ∧ decodeEventPayload codec type bytes = some payload := by
  unfold decodePayloadOneof at h
  split at h
  · cases h
  rename_i hb
  simp only [Proto.EventType.tryFrom] at h
  split at h
  · cases h
  · cases h
  · rename_i known hk hs
    cases hs
    split at h
    · rename_i hde
      cases h
      exact ⟨hb, hde⟩
    · cases h

theorem decodePayloadOneof_of_decoded {codec : Codec} {type : Proto.EventType}
    {bytes : List UInt8} {payload : Payload} (hb : bytes ≠ [])
    (h : decodeEventPayload codec type bytes = some payload) :
    decodePayloadOneof codec (.known type) bytes = .ok (some payload) := by
  have hs : type ≠ .unspecified := by
    rintro rfl
    cases h
  unfold decodePayloadOneof
  rw [if_neg hb]
  cases type with
  | unspecified => exact absurd rfl hs
  | _ => simp [Proto.EventType.tryFrom, h]

-- The codec reads back what it wrote of the inner message of an operation.
def EncodesFaithfully (codec : Codec) : Payload → Prop
  | .recall «recall» => codec.recall.Faithful «recall»
  | .edit edit => codec.edit.Faithful edit
  | .delete delete => codec.delete.Faithful delete
  | .read read => codec.read.Faithful read
  | .reaction reaction => codec.reaction.Faithful reaction
  | .pin pin => codec.pin.Faithful pin
  | .unpin unpin => codec.unpin.Faithful unpin
  | .mark mark => codec.mark.Faithful mark
  | .unmark unmark => codec.unmark.Faithful unmark
  | _ => True

-- What is relied on of the proto library for one payload: that it reads back the messages the
-- writer encodes for it.
structure FaithfulFor (codec : Codec) (payload : Payload) : Prop where
  content : ∀ edit content, payload = .edit edit → edit.newContent = some content →
    codec.content.Faithful content
  inner : ∀ stored, storedPayload codec payload = some stored → EncodesFaithfully codec stored

-- A read receipt at the epoch loses its time in the writer's conversion.
def losesReadTime : Payload → Bool
  | .read read => read.readAt == some 0
  | _ => false

-- An operation a user was authorised for.
structure UserOperation (policy : Policy) (tenantId conversationId user : String)
    (payload : Payload) : Prop where
  permitted : Permitted policy tenantId conversationId user payload
  bound : ∀ id ∈ boundUserIds payload, id = user
  named : user ≠ ""

section Operation

variable {codec : Codec} {policy : Policy} {tenantId conversationId user : String}
  {payload : Payload}

theorem UserOperation.storedPayload_eq
    (hop : UserOperation policy tenantId conversationId user payload)
    (hco : FaithfulFor codec payload) (ht : losesReadTime payload = false)
    (hs : storable payload = true) : storedPayload codec payload = some payload := by
  cases payload with
  | edit edit =>
    obtain ⟨serverMsgId, newContent, reason, showEditedMark⟩ := edit
    obtain ⟨-, hed, -⟩ := hop.permitted
    cases newContent with
    | none => simp [editable] at hed
    | some content =>
      have hc := (hco.content _ content rfl rfl).decode_encode
      simp [storedPayload, eventPayloadFromProto, eventPayloadToProto, hc]
  | read read =>
    obtain ⟨conversation, readSeq, userId, messageIds, readAt⟩ := read
    have hr : (readAt.bind millisToTimestamp).bind timestampToMillis = readAt := by
      cases readAt with
      | none => rfl
      | some ms =>
        have hms : ms ≠ 0 := by
          rintro rfl
          cases ht
        rw [Option.bind_some, millisToTimestamp_bind_timestampToMillis, if_neg hms]
    simp only [storedPayload, eventPayloadFromProto, eventPayloadToProto, Option.bind_some, hr]
  | pin pin =>
    obtain ⟨serverMsgId, pinnedBy, reason, expireAt, scope⟩ := pin
    simp [storedPayload, eventPayloadFromProto, eventPayloadToProto, Function.comp_def]
  | «recall» _ | delete _ | reaction _ | unpin _ | mark _ | unmark _ => rfl
  | custom _ => cases hs
  | _ => exact False.elim hop.permitted

-- An authorised operation is no default message, so its bytes are read and read back.
theorem UserOperation.decode_encode
    (hop : UserOperation policy tenantId conversationId user payload)
    (hf : EncodesFaithfully codec payload) (hs : storable payload = true) :
    encodePayloadBytes codec payload ≠ [] ∧
      decodeEventPayload codec payload.eventType (encodePayloadBytes codec payload) =
        some payload := by
  have hb := hop.bound
  cases payload with
  | «recall» «recall» =>
    have hid := OwnTarget.serverMsgId_ne_empty hop.permitted
    have hde : «recall» ≠ default := by
      rintro rfl
      exact hid rfl
    exact ⟨hf.encode_ne_nil hde, hf.map_decode_encode _⟩
  | edit edit =>
    obtain ⟨-, -, message, ht, -⟩ := hop.permitted
    have hde : edit ≠ default := by
      rintro rfl
      exact ht.serverMsgId_ne_empty rfl
    exact ⟨hf.encode_ne_nil hde, hf.map_decode_encode _⟩
  | delete delete =>
    have hde : delete ≠ default := by
      rintro rfl
      revert hs
      decide
    exact ⟨hf.encode_ne_nil hde, hf.map_decode_encode _⟩
  -- The others name their user, which is not empty.
  | read named | reaction named | pin named | unpin named | mark named | unmark named =>
    have hde : named ≠ default := by
      rintro rfl
      exact hop.named (hb "" (by decide)).symm
    exact ⟨hf.encode_ne_nil hde, hf.map_decode_encode _⟩
  | custom _ => cases hs
  | _ => exact False.elim hop.permitted

end Operation

-- A writer whose tables take everything: what it does not store, no writer does.
def openArchive : Archive := ⟨fun _ => .ok true, fun _ => .ok (), fun _ => true⟩

def openStream : Stream := ⟨fun _ => .ok none, fun _ => .ok none⟩

def openWriter : Writer where
  clock := ⟨0, fun _ => true⟩
  archive := some openArchive
  stream := some openStream

def openHeader : Ctx := { tenantId := some "acme" }

theorem dispatch_open {codec : Codec} {clock : Clock} {event : EventRow.Event}
    {payload : Payload} {row : EventStreamInsertRow}
    (hr : eventToInsertRow codec clock event = some row)
    (hp : event.payload = eventPayloadFromProto codec payload)
    (hs : storable payload = true) :
    dispatch codec clock openArchive openStream event = .ok (some row) := by
  have hst : appendEventToStream codec clock openStream event = .ok (some row) := by
    simp [appendEventToStream, hr, openStream]
  have hb : ∀ stored, appendEventAndStream codec clock openArchive openStream event stored =
      .ok (some row) := by
    intro stored
    simp [appendEventAndStream, openArchive, hst, Except.mapError, bind, Except.bind]
  have ha : ∀ stored, updateAndAppend codec clock openArchive openStream event stored =
      .ok (some row) := by
    intro stored
    simp only [updateAndAppend, hb]
    rfl
  unfold dispatch
  rw [hp]
  cases payload with
  | «recall» «recall» =>
    have hid : isBlank recall.serverMsgId = false := by simpa [storable] using hs
    simp [eventPayloadFromProto, hid, ha]
  | delete delete =>
    have hid : isBlank delete.serverMsgId = false := by simpa [storable] using hs
    simp [eventPayloadFromProto, hid, ha]
  | mark mark =>
    have ht : mark.markType ∈ MARK_TYPES := by simpa [storable] using hs
    simp [eventPayloadFromProto, ht, ha]
  | unmark unmark => simp [eventPayloadFromProto, ha, hb]
  | pluginState state =>
    have hids : state.serverMsgId ≠ "" ∧ state.pluginId ≠ "" := by
      simpa [storable] using hs
    have hsh : openArchive.sharedStateOk state = true := rfl
    simp [eventPayloadFromProto, hids.1, hids.2, ha, hsh]
  | retentionScheduled _ | retentionExpired _ | retentionPurged _ =>
    simp only [eventPayloadFromProto, applyBurn, hb]
    rfl
  | edit _ | read _ | reaction _ | pin _ | unpin _ => simp [eventPayloadFromProto, ha]
  | message _ | conversation | conversationDelete | custom _ => cases hs

theorem consume_open {codec : Codec} {event : Proto.Event} {payload : Payload}
    (hc : event.conversationId ≠ "") (hp : event.payload = some payload)
    (hs : storable payload = true) :
    ∃ row, consume codec openWriter openHeader event = .ok (some row) := by
  have ht : headerTenant (eventFromProto codec event) openHeader = some "acme" := by
    have hb : isBlank (eventFromProto codec event).tenantId = true := by
      show isBlank "" = true
      decide
    rw [headerTenant, if_pos hb]
    decide
  generalize hen : ({ eventFromProto codec event with
    tenantId := "acme"
    operatorId := headerOperator (eventFromProto codec event) openHeader } : EventRow.Event) =
    enriched
  have hei : enrichOperationEventFromCtx (eventFromProto codec event) openHeader =
      .ok enriched := by
    rw [enrichOperationEventFromCtx, ht, ← hen]
  have hr : ∃ row, eventToInsertRow codec openWriter.clock enriched = some row := by
    subst hen
    simp [eventToInsertRow, eventToProto, eventFromProto, hc]
  obtain ⟨row, hr⟩ := hr
  have hdi : dispatch codec openWriter.clock openArchive openStream enriched =
      .ok (some row) :=
    dispatch_open hr (by simp [← hen, eventFromProto, hp]) hs
  have ha : matchStoredEvent codec openWriter.clock openStream enriched = .ok .absent := by
    simp [matchStoredEvent, hr, openStream]
  have hte : enriched.tenantId ≠ "" := by
    rw [← hen]
    show "acme" ≠ ""
    decide
  refine ⟨row, ?_⟩
  rw [consume, hei]
  show processEvent codec openWriter enriched = .ok (some row)
  rw [processEvent]
  simp only [openWriter] at ha hdi ⊢
  rw [if_neg hte]
  simp only [ha, hdi]

-- Whatever writer takes the authorised event, and whatever number it was given, a reader gets
-- the payload that was authorised.
def ReplayedAsAuthorized (codec : Codec) (authorized : Proto.Event) : Prop :=
  ∀ writer header seq row,
    consume codec writer header { authorized with conversationSeq := seq } = .ok (some row) →
      ∃ replayed, protoEventFromEventsRow codec row = .ok replayed ∧
        replayed.payload = authorized.payload

theorem protoEventFromEventsRow_payload {codec : Codec} {row : EventStreamInsertRow}
    {payload : Option Payload} :
    (∃ replayed, protoEventFromEventsRow codec row = .ok replayed ∧ replayed.payload = payload) ↔
      decodePayloadOneof codec row.eventType row.payload = .ok payload := by
  constructor
  · rintro ⟨replayed, hr, rfl⟩
    simp only [protoEventFromEventsRow, bind_eq_ok, pure_eq_ok] at hr
    obtain ⟨decoded, hde, rfl⟩ := hr
    exact hde
  · intro hde
    rw [protoEventFromEventsRow, hde]
    exact ⟨_, rfl, rfl⟩

section Replay

variable {codec : Codec} {policy : Policy} {tenantId conversationId user : String}
  {payload : Payload} {authorized : Proto.Event} {type : Proto.EventType}

theorem replayed_of_matching_type (hop : UserOperation policy tenantId conversationId user payload)
    (hc : FaithfulFor codec payload) (hs : storable payload = true)
    (hp : authorized.payload = some payload) (ht : authorized.type = .known payload.eventType)
    (hti : losesReadTime payload = false) : ReplayedAsAuthorized codec authorized := by
  intro writer header seq row hr
  have hn : { authorized with conversationSeq := seq }.payload = some payload := hp
  obtain ⟨-, hrw, hro⟩ := consume_eq_some hn hr
  have hst := hop.storedPayload_eq hc hti hs
  obtain ⟨hb, hde⟩ := hop.decode_encode (hc.inner payload hst) hs
  rw [protoEventFromEventsRow_payload, hrw, hro, hp, hst]
  simp only [ht, eventTypeToProtoI32_eventTypeFromI32, Option.map_some, Option.getD_some]
  exact decodePayloadOneof_of_decoded hb hde

-- What is stored is decoded by its type: only the payload's own type gives it back.
theorem matching_type_of_replayed (hre : ReplayedAsAuthorized codec authorized)
    (hst : storable payload = true) (hc : authorized.conversationId ≠ "")
    (hp : authorized.payload = some payload) (ht : authorized.type = .known type) :
    type = payload.eventType ∧ ∃ stored, storedPayload codec payload = some stored ∧
        decodeEventPayload codec type (encodePayloadBytes codec stored) = some payload := by
  have ho : ∃ row, consume codec openWriter openHeader authorized = .ok (some row) :=
    consume_open hc hp hst
  obtain ⟨row, hr⟩ := ho
  obtain ⟨-, hrw, hro⟩ := consume_eq_some hp hr
  have hra := hre openWriter openHeader authorized.conversationSeq row hr
  rw [protoEventFromEventsRow_payload, hrw, hro, ht,
    eventTypeToProtoI32_eventTypeFromI32, hp] at hra
  obtain ⟨hb, hde⟩ := decodePayloadOneof_eq_some hra
  refine ⟨(decodeEventPayload_eventType hde).symm, ?_⟩
  cases hs : storedPayload codec payload with
  | none =>
    rw [hs] at hb
    exact absurd rfl hb
  | some stored =>
    rw [hs] at hde
    exact ⟨stored, rfl, hde⟩

theorem keeps_read_time_of_decoded {stored : Payload} (hc : FaithfulFor codec payload)
    (hs : storedPayload codec payload = some stored)
    (hde : decodeEventPayload codec payload.eventType (encodePayloadBytes codec stored) =
      some payload) : losesReadTime payload = false := by
  cases payload with
  | read read =>
    by_contra hlo
    have hr : read.readAt = some 0 := by simpa [losesReadTime] using hlo
    have hin := hc.inner stored hs
    cases hs
    have heq := hde.symm.trans (hin.map_decode_encode Payload.read)
    have hl := congrArg ReadReceiptEvent.readAt (Payload.read.inj (Option.some.inj heq))
    rw [hr] at hl
    cases hl
  | _ => rfl

end Replay

theorem authorizePayload_keeps {request : Request} {payload checked : Payload}
    (h : authorizePayload request payload = .ok checked) :
    checked.eventType = payload.eventType ∧ storable checked = storable payload ∧
      losesReadTime checked = losesReadTime payload := by
  cases payload with
  | «recall» «recall» =>
    obtain ⟨recall', hr, rfl⟩ := map_eq_ok.mp h
    simp only [authorizeRecall, bind_eq_ok, pure_eq_ok] at hr
    obtain ⟨-, -, -, -, -, -, rfl⟩ := hr
    exact ⟨rfl, rfl, rfl⟩
  | edit edit =>
    obtain ⟨edit', hed, rfl⟩ := map_eq_ok.mp h
    exact ⟨rfl, rfl, rfl⟩
  | delete delete =>
    obtain ⟨delete', hde, rfl⟩ := map_eq_ok.mp h
    simp only [authorizeDelete, bind_eq_ok] at hde
    obtain ⟨-, -, message, -, hde⟩ := hde
    split at hde
    · simp only [bind_eq_ok, pure_eq_ok] at hde
      obtain ⟨-, -, rfl⟩ := hde
      exact ⟨rfl, rfl, rfl⟩
    · simp only [bind_eq_ok, pure_eq_ok] at hde
      obtain ⟨-, -, rfl⟩ := hde
      exact ⟨rfl, rfl, rfl⟩
  | read read =>
    obtain ⟨read', hre, rfl⟩ := map_eq_ok.mp h
    simp only [authorizeRead, bind_eq_ok, pure_eq_ok] at hre
    obtain ⟨-, -, -, -, -, -, rfl⟩ := hre
    exact ⟨rfl, rfl, rfl⟩
  | mark mark =>
    obtain ⟨mark', hm, rfl⟩ := map_eq_ok.mp h
    simp only [authorizeMark, bind_eq_ok, pure_eq_ok] at hm
    obtain ⟨-, -, -, -, rfl⟩ := hm
    exact ⟨rfl, rfl, rfl⟩
  | reaction _ | pin _ | unpin _ | unmark _ | custom _ =>
    obtain ⟨-, -, rfl⟩ := map_eq_ok.mp h
    exact ⟨rfl, rfl, rfl⟩
  | message _ | conversation | conversationDelete | retentionScheduled _ | retentionExpired _
  | retentionPurged _ | pluginState _ =>
    simp only [authorizePayload] at h
    split at h
    · cases h
    · cases h
      exact ⟨rfl, rfl, rfl⟩

-- A user's event that was validated and authorised is replayed as it was authorised exactly when
-- its type is that of its payload and no read time is lost, or nothing of it is stored.
theorem replayed_as_authorized_iff {codec : Codec} {policy : Policy} {ctx : Ctx}
    {tenantId user : String} {event authorized : Proto.Event} {payload : Payload}
    (huser : Operator.of ctx = .user user) (hvalid : validateEvent ctx event = [])
    (hauthorized : authorize policy ctx tenantId event = .ok authorized)
    (hpayload : event.payload = some payload)
    (hcodec : ∀ checked, authorized.payload = some checked → FaithfulFor codec checked) :
    ReplayedAsAuthorized codec authorized ↔
      (storable payload = true →
        event.type = .known payload.eventType ∧ losesReadTime payload = false) := by
  obtain ⟨hnoState, hnoPayload⟩ := user_event_is_no_plugin_state hvalid huser
  obtain ⟨-, given, checked, hgiven, hchecked, rfl⟩ := authorize_eq_ok hnoState hauthorized
  rw [huser] at hchecked
  obtain rfl : given = payload := Option.some.inj (hgiven.symm.trans hpayload)
  obtain ⟨hpermitted, hbound, -⟩ := authorizePayload_user (hnoPayload given hgiven) hchecked
  obtain ⟨heventType, hstore, hlose⟩ := authorizePayload_keeps hchecked
  have hfaithful := hcodec checked rfl
  rw [← heventType, ← hstore, ← hlose]
  have hop : UserOperation policy tenantId event.conversationId user checked :=
    ⟨hpermitted, hbound, Operator.of_user_ne_empty huser⟩
  obtain ⟨type, htype, hconversation⟩ := validateEvent_known hvalid
  constructor
  · intro hreplayed hstorable
    obtain ⟨heq, stored, hstored, hdecoded⟩ :=
      matching_type_of_replayed hreplayed hstorable hconversation rfl htype
    subst heq
    exact ⟨htype, keeps_read_time_of_decoded hfaithful hstored hdecoded⟩
  · intro hholds
    cases hstorable : storable checked with
    | true =>
      obtain ⟨hmatch, htime⟩ := hholds hstorable
      exact replayed_of_matching_type hop hfaithful hstorable rfl hmatch htime
    | false =>
      intro writer header seq row hrow
      have hnumbered : { event with payload := some checked, conversationSeq := seq }.payload =
        some checked := rfl
      obtain ⟨hstored, -⟩ := consume_eq_some hnumbered hrow
      rw [hstorable] at hstored
      cases hstored

section Sample

def aliceUnpin : UnpinEvent := { serverMsgId := "m1", unpinnedBy := "alice" }

def unpinEvent (type : Proto.EventType) : Proto.Event :=
  { conversationId := "2-team", type := .known type, eventId := "e4",
    payload := some (.unpin aliceUnpin) }

-- The bytes of alice's unpin: two texts, as fields 1 and 2.
def unpinBytes : List UInt8 :=
  [0x0a, 2, 0x6d, 0x31, 0x12, 5, 0x61, 0x6c, 0x69, 0x63, 0x65]

-- A codec that knows alice's unpin and the empty messages.
def noFormat {α : Type} : Format α := ⟨fun _ => [], fun _ => none⟩

def unpinFormat : Format UnpinEvent where
  encode unpin := if unpin = aliceUnpin then unpinBytes else []
  decode bytes :=
    if bytes = unpinBytes then some aliceUnpin else if bytes = [] then some default else none

def sampleCodec : Codec where
  message := noFormat
  «recall» := noFormat
  edit := noFormat
  delete := noFormat
  read := noFormat
  reaction := noFormat
  pin := noFormat
  unpin := unpinFormat
  mark := noFormat
  unmark := noFormat
  custom := noFormat
  pluginState := noFormat
  conversation := noFormat
  conversationDelete := noFormat
  retentionScheduled := noFormat
  retentionExpired := noFormat
  retentionPurged := noFormat
  content := noFormat
  number := fun _ => 0

theorem replayed_as_authorized_unpin :
    ReplayedAsAuthorized sampleCodec (unpinEvent .eventUnpin) := by
  have hauthorized : authorize samplePolicy aliceCtx "acme" (unpinEvent .eventUnpin) =
      .ok (unpinEvent .eventUnpin) := by
    decide
  have hcodec : FaithfulFor sampleCodec (.unpin aliceUnpin) := by
    constructor
    · intro edit content hedit
      cases hedit
    · intro stored hstored
      cases hstored
      exact ⟨by decide, by decide⟩
  have huser : Operator.of aliceCtx = .user "alice" := by decide
  have hchecked : ∀ checked, (unpinEvent .eventUnpin).payload = some checked →
      FaithfulFor sampleCodec checked := by
    intro checked hchecked
    cases hchecked
    exact hcodec
  have hiff := replayed_as_authorized_iff huser (by decide) hauthorized rfl hchecked
  exact hiff.mpr fun _ => ⟨rfl, rfl⟩

-- Alice may take back her pin. Sent under the type of a recall, her event is authorised all the
-- same, and no codec gives its readers the unpin.
theorem unpin_replayed_as_recall :
    Operator.of aliceCtx = .user "alice" ∧
      validateEvent aliceCtx (unpinEvent .eventMessageRecall) = [] ∧
      authorize samplePolicy aliceCtx "acme" (unpinEvent .eventMessageRecall) =
        .ok (unpinEvent .eventMessageRecall) ∧
      ¬ ∃ codec, ReplayedAsAuthorized codec (unpinEvent .eventMessageRecall) := by
  refine ⟨by decide, by decide, by decide, ?_⟩
  rintro ⟨codec, hreplayed⟩
  obtain ⟨heq, -⟩ := matching_type_of_replayed hreplayed rfl (by decide) rfl rfl
  cases heq

end Sample

end FlareIm.EventApplication
