import FlareIm.EventApplication.Theorems

namespace FlareIm.EventApplication

open Text Context Proto EventRow Fallible Wire

instance : Inhabited Message := ⟨{}⟩

section Meaning

variable (codec : Codec)

-- The proto event type of a type of the writer.
def protoType (type : EventRow.EventType) : Proto.EventType :=
  ((Proto.EventType.tryFrom (eventTypeToProtoI32 type))).getD .unspecified

-- The payload an event states. The writer encodes nothing for a custom one.
def statedPayload : EventPayload → Option Payload
  | .custom custom => some (.custom custom)
  | payload => eventPayloadToProto codec payload

-- The inner message of a type in which every field has its default.
def defaultPayload : Proto.EventType → Option Payload
  | .unspecified => none
  | .eventMessage => some (.message default)
  | .eventMessageRecall => some (.recall default)
  | .eventMessageEdit => some (.edit default)
  | .eventMessageDelete => some (.delete default)
  | .eventReadReceipt => some (.read default)
  | .eventConversationUpdate => some .conversation
  | .eventConversationDelete => some .conversationDelete
  | .eventReaction => some (.reaction default)
  | .eventPin => some (.pin default)
  | .eventUnpin => some (.unpin default)
  | .eventMark => some (.mark default)
  | .eventUnmark => some (.unmark default)
  | .eventMessageRetentionScheduled => some (.retentionScheduled default)
  | .eventMessageRetentionExpired => some (.retentionExpired default)
  | .eventMessageRetentionPurged => some (.retentionPurged default)
  | .eventCustom => some (.custom default)
  | .eventMessagePluginState => some (.pluginState default)

-- The payload of an event. An absent one is that of the defaults.
def payloadOf (event : EventRow.Event) : Option Payload :=
  match event.payload.bind (statedPayload codec) with
  | some payload => some payload
  | none => defaultPayload (protoType event.type)

-- The type of the event is that of its payload.
def WellTyped (event : EventRow.Event) : Prop :=
  ∀ payload, event.payload.bind (statedPayload codec) = some payload →
    payload.eventType = protoType event.type

-- One event, or two events of one message.
def SameEvents (stored incoming : EventRow.Event) : Prop :=
  (stored.type = incoming.type ∧ payloadOf codec stored = payloadOf codec incoming) ∨
    ∃ existing new, payloadOf codec stored = some (.message existing) ∧
      payloadOf codec incoming = some (.message new) ∧ sameMessage existing new = true

-- The bytes of the row of an event.
def payloadBytes (event : EventRow.Event) : List UInt8 :=
  ((event.payload.bind (eventPayloadToProto codec)).map (encodePayloadBytes codec)).getD []

-- What is relied on of the proto library for an event: it reads back what it wrote of the payload.
def ReadsPayload (event : EventRow.Event) : Prop :=
  ∀ payload, event.payload.bind (eventPayloadToProto codec) = some payload →
    decodeEventPayload codec payload.eventType (encodePayloadBytes codec payload) = some payload

-- No bytes are the defaults.
def ReadsDefaults : Prop :=
  ∀ type, decodeEventPayload codec type [] = defaultPayload type

end Meaning

-- Two writers that may write a message in two ways, as a map has no order, and read alike.
structure SameReader (codec codec' : Codec) : Prop where
  payloads : decodeEventPayload codec' = decodeEventPayload codec
  content : codec'.content.decode = codec.content.decode

-- The row of the stored event has the number an old writer gave the type of the incoming event,
-- and its bytes read as the payload of the incoming event.
def LegacyReading (writer codec : Codec) (stored incoming : EventRow.Event) : Prop :=
  protoType stored.type ≠ protoType incoming.type ∧
    codec.number (.known (protoType stored.type)) = incoming.type.discriminant ∧
    payloadBytes codec incoming ≠ [] ∧
    decodeEventPayload codec (protoType incoming.type) (payloadBytes writer stored) =
      payloadOf codec incoming

-- Two types that no row tells apart.
def Untyped (stored incoming : EventRow.Event) : Prop :=
  stored.type ≠ incoming.type ∧ protoType stored.type = .unspecified ∧
    protoType incoming.type = .unspecified

-- Two custom events, of which no row keeps the data.
def CustomApart (codec : Codec) (stored incoming : EventRow.Event) : Prop :=
  stored.type = .custom ∧ incoming.type = .custom ∧
    payloadOf codec stored ≠ payloadOf codec incoming

section Types

theorem eventTypeToProtoI32_eq (type : EventRow.EventType) :
    eventTypeToProtoI32 type = .known (protoType type) := by
  cases type <;> rfl

theorem protoType_injective {a b : EventRow.EventType} (h : protoType a = protoType b)
    (hk : protoType a ≠ .unspecified) : a = b := by
  have hb (type : EventRow.EventType) (h : protoType type ≠ .unspecified) :
      eventTypeFromI32 (.known (protoType type)) = type := by
    cases type <;> first | rfl | exact absurd rfl h
  rw [← hb a hk, h, hb b (h ▸ hk)]

theorem defaultPayload_eventType {type : Proto.EventType} {payload : Payload}
    (h : defaultPayload type = some payload) : payload.eventType = type := by
  cases type <;> cases h <;> rfl

variable {codec : Codec} {event : EventRow.Event}

theorem statedPayload_eq (payload : EventPayload) :
    eventPayloadToProto codec payload = statedPayload codec payload ∨
      ∃ custom, payload = .custom custom := by
  cases payload with
  | custom custom => exact .inr ⟨custom, rfl⟩
  | _ => exact .inl rfl

theorem eventType_eventPayloadToProto {payload : EventPayload} {proto : Payload}
    (h : eventPayloadToProto codec payload = some proto) :
    proto.eventType ≠ .unspecified ∧ proto.eventType ≠ .eventCustom := by
  cases payload <;> cases h <;> exact ⟨by simp [Payload.eventType], by simp [Payload.eventType]⟩

theorem WellTyped.payloadOf_eventType (hw : WellTyped codec event) {payload : Payload}
    (h : payloadOf codec event = some payload) : payload.eventType = protoType event.type := by
  unfold payloadOf at h
  cases hs : event.payload.bind (statedPayload codec) with
  | none =>
    rw [hs] at h
    exact defaultPayload_eventType h
  | some stated =>
    rw [hs] at h
    obtain rfl := Option.some.inj h
    exact hw stated hs

theorem stated_of_encoded {payload : Payload}
    (h : event.payload.bind (eventPayloadToProto codec) = some payload) :
    event.payload.bind (statedPayload codec) = some payload := by
  obtain ⟨inner, hin, hp⟩ := Option.bind_eq_some_iff.mp h
  rcases @statedPayload_eq codec inner with hs | ⟨custom, rfl⟩
  · exact Option.bind_eq_some_iff.mpr ⟨inner, hin, hs ▸ hp⟩
  · exact absurd hp (by simp [eventPayloadToProto])

theorem encoded_of_stated {payload : Payload}
    (h : event.payload.bind (statedPayload codec) = some payload)
    (hc : payload.eventType ≠ .eventCustom) :
    event.payload.bind (eventPayloadToProto codec) = some payload := by
  obtain ⟨inner, hin, hs⟩ := Option.bind_eq_some_iff.mp h
  rcases @statedPayload_eq codec inner with hsa | ⟨custom, rfl⟩
  · exact Option.bind_eq_some_iff.mpr ⟨inner, hin, hsa ▸ hs⟩
  · cases hs
    exact absurd rfl hc

theorem payloadBytes_of_none (h : event.payload.bind (eventPayloadToProto codec) = none) :
    payloadBytes codec event = [] := by
  rw [payloadBytes, h]
  rfl

theorem payloadBytes_eq_nil (hw : WellTyped codec event)
    (ht : protoType event.type = .unspecified ∨ protoType event.type = .eventCustom) :
    payloadBytes codec event = [] := by
  cases hen : event.payload.bind (eventPayloadToProto codec) with
  | none => exact payloadBytes_of_none hen
  | some payload =>
    have hs := hw payload (stated_of_encoded hen)
    obtain ⟨inner, -, hp⟩ := Option.bind_eq_some_iff.mp hen
    have hne := eventType_eventPayloadToProto hp
    rw [hs] at hne
    rcases ht with hu | hc
    · exact absurd hu hne.1
    · exact absurd hc hne.2

theorem decode_payloadBytes (hde : ReadsDefaults codec) (hr : ReadsPayload codec event)
    (hw : WellTyped codec event) (hc : protoType event.type ≠ .eventCustom) :
    decodeEventPayload codec (protoType event.type) (payloadBytes codec event) =
      payloadOf codec event := by
  unfold payloadOf
  cases hs : event.payload.bind (statedPayload codec) with
  | none =>
    have hen : event.payload.bind (eventPayloadToProto codec) = none := by
      by_contra hso
      obtain ⟨payload, hp⟩ := Option.ne_none_iff_exists'.mp hso
      rw [stated_of_encoded hp] at hs
      cases hs
    rw [payloadBytes_of_none hen]
    exact hde _
  | some payload =>
    have ht := hw payload hs
    have hen := encoded_of_stated hs (by rwa [ht])
    rw [payloadBytes, hen, Option.map_some, Option.getD_some, ← ht]
    exact hr payload hen

end Types

section Matching

variable {codec : Codec} {row : EventStreamInsertRow} {type type' : Proto.EventType}
  {bytes : List UInt8}

theorem decodeStored_known :
    decodeStored codec (.known type) bytes = decodeEventPayload codec type bytes :=
  rfl

-- Two decoded payloads are one event, or two events of one message.
def Passes (existing new : Payload) : Prop :=
  existing = new ∨ ∃ first second, existing = .message first ∧ new = .message second ∧
    sameMessage first second = true

theorem match_same_type (hr : row.eventType = .known type) :
    matchExistingEvent codec (.known type) bytes row true ≠ .conflict ↔
      bytes = row.payload ∨ ∃ existing new, decodeEventPayload codec type bytes = some existing ∧
        decodeEventPayload codec type row.payload = some new ∧ Passes existing new := by
  by_cases hb : bytes = row.payload
  · simp [matchExistingEvent, hr, hb]
  · simp only [matchExistingEvent, hr, hb, decodeStored_known, and_false, if_false,
      bne_self_eq_false, Bool.and_false, Bool.false_and, ne_eq, not_true_eq_false, false_and,
      false_or, Bool.not_false, Bool.true_and, Bool.false_eq_true]
    cases decodeEventPayload codec type bytes with
    | none => simp
    | some existing =>
      cases decodeEventPayload codec type row.payload with
      | none => simp
      | some new =>
        have hp : (∃ existing' new', some existing = some existing' ∧
            some new = some new' ∧ Passes existing' new') ↔ Passes existing new := by
          simp
        rw [hp, Passes]
        by_cases hs : existing = new
        · simp [hs]
        · simp only [hs, if_false, false_or]
          split
          · rename_i first second
            by_cases hm : sameMessage first second = true <;> simp [hm]
          · rename_i ho
            simp only [not_true_eq_false, false_iff, not_exists, not_and]
            intro first second hf hse
            exact absurd hse (ho first second hf)

theorem match_other_type (hr : row.eventType = .known type') (ht : type ≠ type') :
    matchExistingEvent codec (.known type) bytes row true ≠ .conflict ↔
      row.payload ≠ [] ∧ codec.number (.known type) = row.legacyEventType ∧
        (bytes = row.payload ∨ ∃ payload, decodeEventPayload codec type' bytes = some payload ∧
          decodeEventPayload codec type' row.payload = some payload) := by
  have hne : TypeNumber.known type ≠ .known type' := fun h => ht (TypeNumber.known.inj h)
  have hf : (true && row.payload != [] && TypeNumber.known type != .known type' &&
      codec.number (.known type) == row.legacyEventType) = true ↔
      row.payload ≠ [] ∧ codec.number (.known type) = row.legacyEventType := by
    simp [ht]
  unfold matchExistingEvent
  simp only [hr, hne, false_and, if_false, decodeStored_known, ne_eq, not_false_eq_true, true_and]
  rw [← and_assoc, ← ne_eq row.payload, ← hf]
  generalize (true && row.payload != [] && TypeNumber.known type != .known type' &&
    codec.number (.known type) == row.legacyEventType) = legacy
  cases legacy with
  | false => simp
  | true =>
    by_cases hb : bytes = row.payload
    · simp [hb]
    · simp only [hb, Bool.not_true, Bool.false_eq_true, if_false, true_and, false_or]
      cases decodeEventPayload codec type' bytes with
      | none => simp
      | some existing =>
        cases decodeEventPayload codec type' row.payload with
        | none => simp
        | some new =>
          by_cases hs : existing = new
          · simp [hs]
          · have ha : new ≠ existing := fun h => hs h.symm
            simp only [hs, if_false, Option.some.injEq, Bool.false_and]
            split <;> simp [ha]

end Matching

section Exact

variable {writer codec : Codec} {clock clock' : Clock} {stored incoming : EventRow.Event}
  {storedRow row : EventStreamInsertRow}

theorem row_of_event {event : EventRow.Event} (h : eventToInsertRow codec clock event = some row) :
    row.eventType = .known (protoType event.type) ∧
      row.legacyEventType = event.type.discriminant ∧ row.payload = payloadBytes codec event := by
  simp only [eventToInsertRow] at h
  split at h
  · cases h
  · cases h
    exact ⟨eventTypeToProtoI32_eq event.type, rfl, rfl⟩

theorem SameReader.statedPayload_eq (hs : SameReader codec writer) :
    statedPayload writer = statedPayload codec := by
  funext payload
  cases payload with
  | edit edit => simp only [statedPayload, eventPayloadToProto, hs.content]
  | _ => rfl

theorem SameReader.payloadOf_eq (hs : SameReader codec writer) (event : EventRow.Event) :
    payloadOf writer event = payloadOf codec event := by
  rw [payloadOf, payloadOf, hs.statedPayload_eq]

-- The events of one type pass when their payloads do, unless the type has no format.
theorem passes_iff_sameEvents (ht : stored.type = incoming.type) :
    (∃ existing new, payloadOf codec stored = some existing ∧
        payloadOf codec incoming = some new ∧ Passes existing new) ↔
      SameEvents codec stored incoming ∧ (payloadOf codec stored).isSome := by
  constructor
  · rintro ⟨existing, new, hei, hn, rfl | ⟨first, second, rfl, rfl, hm⟩⟩
    · exact ⟨.inl ⟨ht, hei.trans hn.symm⟩, by rw [hei]; rfl⟩
    · exact ⟨.inr ⟨first, second, hei, hn, hm⟩, by rw [hei]; rfl⟩
  · rintro ⟨⟨-, hp⟩ | ⟨first, second, hf, hse, hm⟩, hso⟩
    · obtain ⟨payload, hs⟩ := Option.isSome_iff_exists.mp hso
      exact ⟨payload, payload, hs, hp ▸ hs, .inl rfl⟩
    · exact ⟨_, _, hf, hse, .inr ⟨first, second, rfl, rfl, hm⟩⟩

theorem payloadOf_isSome {event : EventRow.Event} (h : protoType event.type ≠ .unspecified) :
    (payloadOf codec event).isSome := by
  unfold payloadOf
  split
  · rfl
  · revert h
    cases protoType event.type <;> simp [defaultPayload]

theorem payloadOf_eq_none {event : EventRow.Event} (hw : WellTyped codec event)
    (h : protoType event.type = .unspecified) : payloadOf codec event = none := by
  by_contra hs
  obtain ⟨payload, hp⟩ := Option.ne_none_iff_exists'.mp hs
  have ht := hw.payloadOf_eventType hp
  rw [h] at ht
  cases payload <;> cases ht

-- Events of two proto types are never the same.
theorem sameEvents_protoType (hs : WellTyped codec stored)
    (hin : WellTyped codec incoming) (h : SameEvents codec stored incoming) :
    protoType stored.type = protoType incoming.type := by
  rcases h with ⟨ht, -⟩ | ⟨existing, new, hei, hn, -⟩
  · rw [ht]
  · rw [← hs.payloadOf_eventType hei, ← hin.payloadOf_eventType hn]
    rfl

theorem passes_iff_of_format (hsa : SameReader codec writer) (hde : ReadsDefaults codec)
    (hst : WellTyped writer stored) (hic : WellTyped codec incoming)
    (hw : ReadsPayload writer stored) (hr : ReadsPayload codec incoming)
    (ht : stored.type = incoming.type) (hsp : protoType incoming.type ≠ .unspecified)
    (hc : protoType incoming.type ≠ .eventCustom) :
    (payloadBytes writer stored = payloadBytes codec incoming ∨ ∃ existing new,
        decodeEventPayload codec (protoType incoming.type) (payloadBytes writer stored) =
          some existing ∧
        decodeEventPayload codec (protoType incoming.type) (payloadBytes codec incoming) =
          some new ∧ Passes existing new) ↔ SameEvents codec stored incoming := by
  have hs : decodeEventPayload codec (protoType incoming.type)
      (payloadBytes writer stored) = payloadOf codec stored := by
    have hde' : ReadsDefaults writer := fun type => by rw [hsa.payloads, hde type]
    rw [← ht, ← hsa.payloads, ← hsa.payloadOf_eq]
    exact decode_payloadBytes hde' hw hst (by rwa [ht])
  have hin := decode_payloadBytes hde hr hic hc
  have hso : (payloadOf codec stored).isSome := payloadOf_isSome (by rwa [ht])
  rw [hs, hin, passes_iff_sameEvents ht, and_iff_left hso]
  refine ⟨fun h => h.elim (fun hb => .inl ⟨ht, ?_⟩) id, .inr⟩
  rw [← hs, hb, hin]

-- Two events without bytes are the same unless their types or their custom data tell them apart.
theorem sameEvents_iff_of_plain (hst : WellTyped codec stored)
    (hic : WellTyped codec incoming) (ht : protoType stored.type = protoType incoming.type)
    (hp : protoType incoming.type = .unspecified ∨ protoType incoming.type = .eventCustom) :
    SameEvents codec stored incoming ↔
      ¬ (LegacyReading writer codec stored incoming ∨ Untyped stored incoming ∨
        CustomApart codec stored incoming) := by
  have hno : ¬ LegacyReading writer codec stored incoming := fun h => h.1 ht
  rcases hp with hu | hc
  · have hn := payloadOf_eq_none hic hu
    have hn' := payloadOf_eq_none hst (ht.trans hu)
    have hnt : incoming.type ≠ .custom := by
      intro h
      rw [h] at hu
      cases hu
    simp [SameEvents, Untyped, CustomApart, hno, hn, hn', hu, ht, hnt]
  · have hs : stored.type = .custom :=
      protoType_injective (ht.trans hc) (by rw [ht, hc]; simp)
    have hin : incoming.type = .custom :=
      protoType_injective hc (by rw [hc]; simp)
    have hnM : ¬ ∃ existing new, payloadOf codec stored = some (.message existing) ∧
        payloadOf codec incoming = some (.message new) ∧ sameMessage existing new = true := by
      rintro ⟨existing, new, -, hnw, -⟩
      have hm := hic.payloadOf_eventType hnw
      rw [hc] at hm
      cases hm
    have hev : SameEvents codec stored incoming ↔
        payloadOf codec stored = payloadOf codec incoming := by
      rw [SameEvents, or_iff_left hnM, hs, hin]
      simp
    simp [hev, Untyped, CustomApart, hno, hs, hin]

theorem legacyReading_iff (hde : ReadsDefaults codec) (hic : WellTyped codec incoming)
    (hre : ReadsPayload codec incoming) (ht : protoType stored.type ≠ protoType incoming.type) :
    (payloadBytes codec incoming ≠ [] ∧
      codec.number (.known (protoType stored.type)) = incoming.type.discriminant ∧
        (payloadBytes writer stored = payloadBytes codec incoming ∨ ∃ payload,
          decodeEventPayload codec (protoType incoming.type) (payloadBytes writer stored) =
            some payload ∧
          decodeEventPayload codec (protoType incoming.type) (payloadBytes codec incoming) =
            some payload)) ↔ LegacyReading writer codec stored incoming := by
  have hin (hne : payloadBytes codec incoming ≠ []) :
      decodeEventPayload codec (protoType incoming.type) (payloadBytes codec incoming) =
        payloadOf codec incoming :=
    decode_payloadBytes hde hre hic fun h => hne (payloadBytes_eq_nil hic (.inr h))
  constructor
  · rintro ⟨hne, hn, hr⟩
    refine ⟨ht, hn, hne, ?_⟩
    rw [← hin hne]
    rcases hr with hs | ⟨payload, hp, hp'⟩
    · rw [hs]
    · rw [hp, hp']
  · rintro ⟨-, hn, hne, hr⟩
    have hsp : protoType incoming.type ≠ .unspecified :=
      fun h => hne (payloadBytes_eq_nil hic (.inl h))
    obtain ⟨payload, hp⟩ := Option.isSome_iff_exists.mp (@payloadOf_isSome codec incoming hsp)
    exact ⟨hne, hn, .inr ⟨payload, hr.trans hp, (hin hne).trans hp⟩⟩

-- The stored row passes for the incoming event exactly when the two are the same, unless an old
-- number lets it pass for another operation or neither row keeps what tells the two apart.
theorem match_exact_iff (hsame : SameReader codec writer) (hdefaults : ReadsDefaults codec)
    (hstored : WellTyped writer stored) (hincoming : WellTyped codec incoming)
    (hwritten : ReadsPayload writer stored) (hread : ReadsPayload codec incoming)
    (hstoredRow : eventToInsertRow writer clock stored = some storedRow)
    (hrow : eventToInsertRow codec clock' incoming = some row) :
    (matchExistingEvent codec storedRow.eventType storedRow.payload row true ≠ .conflict ↔
        SameEvents codec stored incoming) ↔
      ¬ (LegacyReading writer codec stored incoming ∨ Untyped stored incoming ∨
        CustomApart codec stored incoming) := by
  obtain ⟨hstoredType, -, hstoredBytes⟩ := row_of_event hstoredRow
  obtain ⟨htype, hlegacy, hbytes⟩ := row_of_event hrow
  have hstored' : WellTyped codec stored := by
    intro payload hpayload
    rw [← hsame.statedPayload_eq] at hpayload
    exact hstored payload hpayload
  rw [hstoredType, hstoredBytes]
  by_cases htypes : protoType stored.type = protoType incoming.type
  · have hnoLegacy : ¬ LegacyReading writer codec stored incoming := fun h => h.1 htypes
    rw [htypes, match_same_type htype, hbytes]
    by_cases hplain : protoType incoming.type = .unspecified ∨
        protoType incoming.type = .eventCustom
    · -- neither row has bytes
      have hnil : payloadBytes writer stored = payloadBytes codec incoming := by
        rw [payloadBytes_eq_nil hstored (by rwa [htypes]), payloadBytes_eq_nil hincoming hplain]
      rw [iff_true_left (Or.inl hnil)]
      exact sameEvents_iff_of_plain hstored' hincoming htypes hplain
    · rw [not_or] at hplain
      have hevents : stored.type = incoming.type :=
        protoType_injective htypes (by rw [htypes]; exact hplain.1)
      have hnotCustom : incoming.type ≠ .custom := fun h => hplain.2 (by rw [h]; rfl)
      rw [passes_iff_of_format hsame hdefaults hstored hincoming hwritten hread hevents hplain.1
        hplain.2]
      simp [hnoLegacy, Untyped, CustomApart, hevents, hnotCustom]
  · have hnotSame : ¬ SameEvents codec stored incoming :=
      fun h => htypes (sameEvents_protoType hstored' hincoming h)
    have hnotUntyped : ¬ Untyped stored incoming :=
      fun h => htypes (h.2.1.trans h.2.2.symm)
    have hnotCustom : ¬ CustomApart codec stored incoming :=
      fun h => htypes (by rw [h.1, h.2.1])
    rw [match_other_type htype htypes, hlegacy, hbytes]
    simp only [hnotSame, hnotUntyped, hnotCustom, or_false, iff_false]
    exact not_congr (legacyReading_iff hdefaults hincoming hread htypes)

end Exact

section Sample

-- Alice takes back all her marks of a message, and pins it.
def aliceUnmark : UnmarkEvent := { serverMsgId := "m1", userId := "alice" }

def alicePin : PinEvent := { serverMsgId := "m1", pinnedBy := "alice" }

def unmarkAll : EventRow.Event where
  tenantId := "acme"
  conversationId := "2-team"
  seq := 4
  type := .unmark
  payload := some (.unmark aliceUnmark)

def pinMessage : EventRow.Event where
  tenantId := "acme"
  conversationId := "2-team"
  seq := 4
  type := .pin
  payload := some (.pin ⟨"m1", "alice", none, none, 0⟩)

-- A format that knows one value besides the defaults.
def oneFormat {α : Type} [Inhabited α] [DecidableEq α] (value : α) : Format α where
  encode message := if message = value then unpinBytes else []
  decode bytes :=
    if bytes = unpinBytes then some value else if bytes = [] then some default else none

-- Both messages are two texts, as fields 1 and 2.
def markCodec : Codec where
  message := oneFormat default
  «recall» := oneFormat default
  edit := oneFormat default
  delete := oneFormat default
  read := oneFormat default
  reaction := oneFormat default
  pin := oneFormat alicePin
  unpin := oneFormat aliceUnpin
  mark := oneFormat default
  unmark := oneFormat aliceUnmark
  custom := oneFormat default
  pluginState := oneFormat default
  conversation := oneFormat ()
  conversationDelete := oneFormat ()
  retentionScheduled := oneFormat default
  retentionExpired := oneFormat default
  retentionPurged := oneFormat default
  content := oneFormat default
  number
    | .known .eventMark => 11
    | .known .eventUnmark => 12
    | _ => 0

def someClock : Clock := ⟨1000, fun _ => true⟩

-- The number of an unmark is the one an old writer gave a pin.
theorem unmark_passes_for_pin : ∃ storedRow row,
    eventToInsertRow markCodec someClock unmarkAll = some storedRow ∧
      eventToInsertRow markCodec someClock pinMessage = some row ∧
      (storedRow.tenantId, storedRow.conversationId, storedRow.seq) =
        (row.tenantId, row.conversationId, row.seq) ∧
      matchExistingEvent markCodec storedRow.eventType storedRow.payload row true =
        .legacyTypeTag ∧
      WellTyped markCodec unmarkAll ∧ WellTyped markCodec pinMessage ∧
      ¬ SameEvents markCodec unmarkAll pinMessage := by
  refine ⟨_, _, rfl, rfl, rfl, by decide, ?_, ?_, ?_⟩
  · rintro payload h
    cases h
    rfl
  · rintro payload h
    cases h
    rfl
  · rintro (⟨htype, -⟩ | ⟨existing, new, hexisting, -, -⟩)
    · cases htype
    · cases hexisting

theorem unmark_passes_for_itself : ∃ row,
    eventToInsertRow markCodec someClock unmarkAll = some row ∧
      (matchExistingEvent markCodec row.eventType row.payload row true ≠ .conflict ↔
        SameEvents markCodec unmarkAll unmarkAll) := by
  have hwell : WellTyped markCodec unmarkAll := by
    rintro payload h
    cases h
    rfl
  have hreads : ReadsPayload markCodec unmarkAll := by
    rintro payload h
    cases h
    decide
  have hdefaults : ReadsDefaults markCodec := by
    intro type
    cases type <;> decide
  refine ⟨_, rfl, ?_⟩
  refine (match_exact_iff ⟨rfl, rfl⟩ hdefaults hwell hwell hreads hreads rfl rfl).mpr ?_
  rintro (hlegacy | huntyped | hcustom)
  · exact hlegacy.1 rfl
  · exact huntyped.1 rfl
  · exact hcustom.2.2 rfl

end Sample

end FlareIm.EventApplication
