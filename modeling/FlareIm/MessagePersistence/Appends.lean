import FlareIm.MessagePersistence.Theorems

namespace FlareIm.MessagePersistence

open Text Context Proto EventRow EventApplication MessageArchive

section InOrder

variable (codec : Codec) (clock : Clock)

-- The events of a batch appended one after the other, with the answer to each.
def appendInOrder (tables : Tables) :
    List Bool → List EventRow.Event → Tables × List (Except FlareError Unit)
  | _, [] => (tables, [])
  | answers, event :: rest =>
    let appended := appendEvent codec clock tables (answers.headD true) event
    let others := appendInOrder appended.1 answers.tail rest
    (others.1, appended.2 :: others.2)

end InOrder

section Core

variable {codec : Codec} {row : EventStreamInsertRow} {payload : List UInt8}

-- The part of a message that a redelivery has to repeat.
def messageCore (message : Message) :
    String × String × String × String × Nat × Int × Option MessageContent :=
  (message.serverId, message.clientMsgId, message.senderId, message.conversationId,
    message.conversationSeq, message.messageType, message.content)

def storedCore (codec : Codec) (payload : List UInt8) :
    Option (String × String × String × String × Nat × Int × Option MessageContent) :=
  (codec.message.decode payload).map messageCore

theorem sameMessage_iff {existing new : Message} :
    sameMessage existing new = true ↔
      new.serverId ≠ "" ∧ messageCore existing = messageCore new := by
  simp [sameMessage, messageCore, and_assoc]

-- The row of a message event: its bytes read back as a message with a server id.
def SentRow (codec : Codec) (row : EventStreamInsertRow) : Prop :=
  MessageRow row ∧
    ∃ message, codec.message.decode row.payload = some message ∧ message.serverId ≠ ""

theorem decodeStored_sentRow (hr : SentRow codec row) :
    decodeStored codec row.eventType payload = (codec.message.decode payload).map .message := by
  rw [hr.1]
  rfl

theorem storedCore_of_match {existingType : TypeNumber} {acceptLegacy : Bool}
    (hr : SentRow codec row)
    (h : matchExistingEvent codec existingType payload row acceptLegacy ≠ .conflict) :
    storedCore codec payload = storedCore codec row.payload := by
  by_cases hs : payload = row.payload
  · rw [hs]
  · rw [matchExistingEvent, if_neg (fun hb => hs hb.2)] at h
    simp only [decodeStored_sentRow hr, if_neg hs] at h
    split at h
    · exact absurd rfl h
    · split at h
      · rename_i existing new hei hn
        obtain ⟨stored, hst, rfl⟩ := Option.map_eq_some_iff.mp hei
        obtain ⟨sent, hse, rfl⟩ := Option.map_eq_some_iff.mp hn
        rw [storedCore, storedCore, hst, hse]
        by_cases heq : stored = sent
        · rw [heq]
        · simp only [Payload.message.injEq, if_neg heq] at h
          split at h
          · rename_i hm
            rw [Bool.and_eq_true] at hm
            exact congrArg some (sameMessage_iff.mp hm.2).2
          · exact absurd rfl h
      · exact absurd rfl h

theorem match_of_storedCore {acceptLegacy : Bool} (hr : SentRow codec row)
    (h : storedCore codec payload = storedCore codec row.payload) :
    matchExistingEvent codec (.known .eventMessage) payload row acceptLegacy ≠ .conflict := by
  have ht : row.eventType = .known .eventMessage := hr.1
  obtain ⟨sent, hs, hse⟩ := hr.2
  rw [storedCore, storedCore, hs] at h
  obtain ⟨stored, hst, hc⟩ := Option.map_eq_some_iff.mp h
  have hm : sameMessage stored sent = true := sameMessage_iff.mpr ⟨hse, hc⟩
  unfold matchExistingEvent
  simp only [decodeStored_sentRow hr, hst, hs, Option.map_some, hm]
  by_cases hsa : payload = row.payload
  · simp [hsa, ht]
  · by_cases heq : stored = sent <;> simp [hsa, heq, ht]

end Core

section Rows

variable {codec : Codec} {events rows : List EventStreamInsertRow}
  {row other : EventStreamInsertRow}

-- No row stands where the stream has another event.
def Uncontested (codec : Codec) (events rows : List EventStreamInsertRow) : Prop :=
  ∀ row ∈ rows, ∀ existing, loadExistingEvent events row = some existing →
    isConflict codec row existing = false

-- Rows at one position are about one message with one content.
def Concordant (codec : Codec) (rows : List EventStreamInsertRow) : Prop :=
  ∀ a ∈ rows, ∀ b ∈ rows, eventKey a = eventKey b →
    storedCore codec a.payload = storedCore codec b.payload

theorem Concordant.mono {rows' : List EventStreamInsertRow} (h : Concordant codec rows)
    (hs : ∀ row ∈ rows', row ∈ rows) : Concordant codec rows' :=
  fun a ha b hb => h a (hs a ha) b (hs b hb)

theorem concordant_cons : Concordant codec (row :: rows) ↔ Concordant codec rows ∧
    ∀ other ∈ rows, eventKey other = eventKey row →
      storedCore codec other.payload = storedCore codec row.payload := by
  constructor
  · intro h
    exact ⟨h.mono fun _ hm => List.mem_cons_of_mem _ hm, fun other hm =>
      h other (List.mem_cons_of_mem _ hm) row List.mem_cons_self⟩
  · rintro ⟨hro, hr⟩ a ha b hb hk
    rcases List.mem_cons.mp ha with rfl | hold
    · rcases List.mem_cons.mp hb with rfl | hold
      · rfl
      · exact (hr b hold hk.symm).symm
    · rcases List.mem_cons.mp hb with rfl | hold'
      · exact hr a hold hk
      · exact hro a hold b hold' hk

theorem loadExistingEvent_congr (h : eventKey row = eventKey other) :
    loadExistingEvent events row = loadExistingEvent events other := by
  simp only [loadExistingEvent, h]

theorem loadExistingEvent_cons : loadExistingEvent (other :: events) row =
    if eventKey other = eventKey row then some (other.eventType, other.payload)
    else loadExistingEvent events row := by
  by_cases hk : eventKey other = eventKey row <;> simp [loadExistingEvent, hk]

theorem loadExistingEvent_insertEvent {existing : TypeNumber × List UInt8}
    (h : loadExistingEvent events row = some existing) :
    loadExistingEvent (insertEvent events other) row = some existing := by
  unfold insertEvent
  split
  · exact h
  · rename_i hf
    rw [loadExistingEvent_cons, if_neg, h]
    intro hk
    rw [loadExistingEvent_congr hk, h] at hf
    exact hf rfl

theorem insertEvent_of_some {existing : TypeNumber × List UInt8}
    (h : loadExistingEvent events row = some existing) : insertEvent events row = events := by
  rw [insertEvent, h, if_pos Option.isSome_some]

theorem insertEvent_of_none (h : loadExistingEvent events row = none) :
    insertEvent events row = row :: events := by
  simp [insertEvent, h]

theorem suffix_insertEvent (events : List EventStreamInsertRow) (row : EventStreamInsertRow) :
    events <:+ insertEvent events row := by
  unfold insertEvent
  split
  · exact List.suffix_rfl
  · exact List.suffix_cons row events

theorem suffix_foldl_insertEvent (events rows : List EventStreamInsertRow) :
    events <:+ rows.foldl insertEvent events := by
  induction rows generalizing events with
  | nil => exact List.suffix_rfl
  | cons head rest ih => exact (suffix_insertEvent events head).trans (ih _)

-- What holds after a row went in: it is the first at its position or it matches what is there.
theorem uncontested_cons (hs : ∀ other ∈ row :: rows, SentRow codec other) :
    Uncontested codec events (row :: rows) ∧ Concordant codec (row :: rows) ↔
      (∀ existing, loadExistingEvent events row = some existing →
        isConflict codec row existing = false) ∧
      Uncontested codec (insertEvent events row) rows ∧ Concordant codec rows := by
  have hr : SentRow codec row := hs row List.mem_cons_self
  rw [concordant_cons]
  constructor
  · rintro ⟨hu, hc, hh⟩
    refine ⟨hu row List.mem_cons_self, fun other hm existing hl => ?_, hc⟩
    cases hfr : loadExistingEvent events row with
    | some found =>
      rw [insertEvent_of_some hfr] at hl
      exact hu other (List.mem_cons_of_mem _ hm) existing hl
    | none =>
      rw [insertEvent_of_none hfr, loadExistingEvent_cons] at hl
      split at hl
      · rename_i hk
        cases hl
        have ho : SentRow codec other := hs other (List.mem_cons_of_mem _ hm)
        have hma := @match_of_storedCore _ _ _ true ho (hh other hm hk.symm).symm
        simpa [isConflict, show row.eventType = .known .eventMessage from hr.1] using hma
      · exact hu other (List.mem_cons_of_mem _ hm) existing hl
  · rintro ⟨hf, hu, hc⟩
    have hre : ∀ other ∈ rows, ∀ existing, loadExistingEvent events other = some existing →
        isConflict codec other existing = false := fun other hm existing hl =>
      hu other hm existing (loadExistingEvent_insertEvent hl)
    refine ⟨List.forall_mem_cons.mpr ⟨hf, hre⟩, hc, fun other hm hk => ?_⟩
    have ho : SentRow codec other := hs other (List.mem_cons_of_mem _ hm)
    cases hl : loadExistingEvent events row with
    | some found =>
      -- both match what the stream had
      have hmi := hf found hl
      have ht := hre other hm found (by rw [loadExistingEvent_congr hk, hl])
      simp only [isConflict, beq_eq_false_iff_ne] at hmi ht
      exact (storedCore_of_match ho ht).symm.trans (storedCore_of_match hr hmi)
    | none =>
      have hth : loadExistingEvent (insertEvent events row) other =
          some (row.eventType, row.payload) := by
        rw [insertEvent_of_none hl, loadExistingEvent_cons, if_pos hk.symm]
      have hma := hu other hm _ hth
      simp only [isConflict, beq_eq_false_iff_ne] at hma
      exact (storedCore_of_match ho hma).symm

end Rows

section Streams

variable {codec : Codec} {clock : Clock} {rows : List EventStreamInsertRow}

theorem conflictingDuplicate_eq_none {seen : List EventStreamInsertRow}
    (hs : Concordant codec seen) (hse : ∀ row ∈ seen, SentRow codec row)
    (hro : ∀ row ∈ rows, SentRow codec row) :
    conflictingDuplicate codec seen rows = none ↔ Concordant codec (rows.reverse ++ seen) := by
  induction rows generalizing seen with
  | nil => exact ⟨fun _ => hs, fun _ => rfl⟩
  | cons row rest ih =>
    have hr : SentRow codec row := hro row List.mem_cons_self
    have ha : ∀ other ∈ row :: seen, SentRow codec other :=
      List.forall_mem_cons.mpr ⟨hr, hse⟩
    have hre : ∀ other ∈ rest, SentRow codec other :=
      fun other hm => hro other (List.mem_cons_of_mem _ hm)
    rw [List.reverse_cons, List.append_assoc, List.singleton_append, conflictingDuplicate]
    cases hf : seen.find? fun previous => eventKey previous == eventKey row with
    | none =>
      have hn : Concordant codec (row :: seen) := by
        refine concordant_cons.mpr ⟨hs, fun other hm hk => ?_⟩
        exact absurd hk (by simpa using List.find?_eq_none.mp hf other hm)
      exact ih hn ha hre
    | some previous =>
      have hp : previous ∈ seen := List.mem_of_find?_eq_some hf
      have hk : eventKey previous = eventKey row := by simpa using List.find?_some hf
      have ht : previous.eventType = .known .eventMessage := (hse previous hp).1
      simp only [ht]
      split
      · rename_i hco
        refine ⟨fun h => absurd h (by simp), fun hc => ?_⟩
        have hcr := hc previous (List.mem_append_right _ (List.mem_cons_of_mem _ hp)) row
          (List.mem_append_right _ List.mem_cons_self) hk
        exact absurd hco (match_of_storedCore hr hcr)
      · rename_i hma
        have hn : Concordant codec (row :: seen) := by
          -- what was seen at the position agrees with the last of it
          refine concordant_cons.mpr ⟨hs, fun other hm ho => ?_⟩
          exact (hs other hm previous hp (ho.trans hk.symm)).trans (storedCore_of_match hr hma)
        exact ih hn ha hre

theorem conflictingEvents_eq_nil {events : List EventStreamInsertRow} :
    conflictingEvents codec events rows = [] ↔ Uncontested codec events rows := by
  rw [conflictingEvents, List.filterMap_eq_nil_iff]
  constructor
  · intro h row hr existing hl
    have hn := h row hr
    rw [hl] at hn
    by_contra hc
    simp [hc] at hn
  · intro h row hr
    cases hl : loadExistingEvent events row with
    | none => rfl
    | some existing => simp [h row hr existing hl]

theorem appendEventRows_answered {events : List EventStreamInsertRow} :
    (appendEventRows codec events true rows).1 = rows.foldl insertEvent events ∧
      ((appendEventRows codec events true rows).2 = .ok () ↔ Uncontested codec events rows) := by
  refine ⟨rfl, ?_⟩
  rw [← conflictingEvents_eq_nil, appendEventRows, if_pos rfl]
  cases conflictingEvents codec events rows with
  | nil => simp
  | cons first others => simp

theorem uncontested_foldl_insertEvent {events rows' : List EventStreamInsertRow}
    (hs : ∀ row ∈ rows ++ rows', SentRow codec row) :
    Uncontested codec events (rows ++ rows') ∧ Concordant codec (rows ++ rows') ↔
      Uncontested codec events rows ∧ Concordant codec rows ∧
      Uncontested codec (rows.foldl insertEvent events) rows' ∧ Concordant codec rows' := by
  induction rows generalizing events with
  | nil => simp [Uncontested, Concordant]
  | cons row rest ih =>
    rw [List.cons_append] at hs
    have hr : ∀ other ∈ rest ++ rows', SentRow codec other :=
      fun other hm => hs other (List.mem_cons_of_mem _ hm)
    have hf : ∀ other ∈ row :: rest, SentRow codec other :=
      fun other hm => hs other (List.mem_append_left rows' hm)
    rw [List.cons_append, uncontested_cons hs, ih hr, List.foldl_cons,
      ← and_assoc (a := Uncontested codec events (row :: rest)), uncontested_cons hf]
    tauto

theorem appendChunks_answered {events : List EventStreamInsertRow}
    {chunks : List (List EventStreamInsertRow)} (hc : Concordant codec chunks.flatten)
    (hse : ∀ row ∈ chunks.flatten, SentRow codec row) :
    ((appendChunks codec events [] chunks).2 = .ok () ↔ Uncontested codec events chunks.flatten) ∧
      ((appendChunks codec events [] chunks).2 = .ok () →
        (appendChunks codec events [] chunks).1 = chunks.flatten.foldl insertEvent events) := by
  induction chunks generalizing events with
  | nil => simp [appendChunks, Uncontested]
  | cons chunk rest ih =>
    rw [List.flatten_cons] at hc hse ⊢
    have hch : Concordant codec chunk :=
      hc.mono fun _ hm => List.mem_append_left _ hm
    have hre : Concordant codec rest.flatten :=
      hc.mono fun _ hm => List.mem_append_right _ hm
    have hr : ∀ row ∈ rest.flatten, SentRow codec row :=
      fun row hm => hse row (List.mem_append_right _ hm)
    have hsp : Uncontested codec events (chunk ++ rest.flatten) ↔ Uncontested codec events chunk ∧
          Uncontested codec (chunk.foldl insertEvent events) rest.flatten := by
      have hb := @uncontested_foldl_insertEvent _ _ events _ hse
      tauto
    obtain ⟨hs, hok⟩ := @appendEventRows_answered codec chunk events
    obtain ⟨ha, hro⟩ := @ih (chunk.foldl insertEvent events) hre hr
    rw [hsp, List.foldl_append]
    simp only [appendChunks, List.headD_nil, List.tail_nil]
    cases hap : appendEventRows codec events true chunk with
    | mk appended answer =>
      rw [hap] at hs hok
      obtain rfl : appended = chunk.foldl insertEvent events := hs
      cases answer with
      | error error =>
        have hco : ¬ Uncontested codec events chunk := by simp [← hok]
        simp [hco]
      | ok _ =>
        have hu : Uncontested codec events chunk := hok.mp rfl
        simp only [hu, true_and]
        exact ⟨ha, hro⟩

end Streams

section Events

variable {codec : Codec} {clock : Clock} {tables : Tables} {batch : List EventRow.Event}

theorem appendEvent_of_none {answered : Bool} {event : EventRow.Event}
    (h : eventToInsertRow codec clock event = none) :
    appendEvent codec clock tables answered event = (tables, .ok ()) := by
  simp [appendEvent, appendEventToStream, h]

theorem appendEvent_answered {event : EventRow.Event} {row : EventStreamInsertRow}
    (h : eventToInsertRow codec clock event = some row) :
    (appendEvent codec clock tables true event).1 =
        { tables with events := insertEvent tables.events row } ∧
      ((appendEvent codec clock tables true event).2 = .ok () ↔
        ∀ existing, loadExistingEvent tables.events row = some existing →
          isConflict codec row existing = false) := by
  simp only [appendEvent, appendEventToStream, h, eventTable, if_true]
  cases hl : loadExistingEvent tables.events row with
  | none => simp
  | some existing =>
    have hs : insertEvent tables.events row = tables.events := insertEvent_of_some hl
    cases hc : isConflict codec row existing <;> simp [hc, hs]

theorem suffix_appendEvent (tables : Tables) (answered : Bool) (event : EventRow.Event) :
    tables.events <:+ (appendEvent codec clock tables answered event).1.events := by
  unfold appendEvent
  split
  · exact List.suffix_rfl
  · exact List.suffix_rfl
  · exact suffix_insertEvent _ _

theorem suffix_appendInOrder (answers : List Bool) :
    tables.events <:+ (appendInOrder codec clock tables answers batch).1.events := by
  induction batch generalizing tables answers with
  | nil => exact List.suffix_rfl
  | cons event rest ih => exact (suffix_appendEvent _ _ event).trans (ih _)

theorem suffix_appendChunks {events : List EventStreamInsertRow} (answers : List Bool)
    (chunks : List (List EventStreamInsertRow)) :
    events <:+ (appendChunks codec events answers chunks).1 := by
  induction chunks generalizing events answers with
  | nil => exact List.suffix_rfl
  | cons chunk rest ih =>
    have hc : events <:+ (appendEventRows codec events (answers.headD true) chunk).1 := by
      unfold appendEventRows
      split
      · exact suffix_foldl_insertEvent events chunk
      · exact List.suffix_rfl
    rw [appendChunks]
    split
    · rename_i ha
      rwa [ha] at hc
    · rename_i ha
      rw [ha] at hc
      exact hc.trans (ih _)

theorem suffix_appendEventsToStream (answers : List Bool) :
    tables.events <:+ (appendEventsToStream codec clock tables answers batch).1.events := by
  simp only [appendEventsToStream]
  split
  · exact List.suffix_rfl
  · exact suffix_appendChunks answers _

theorem appendInOrder_answered
    (hs : ∀ row ∈ batch.filterMap (eventToInsertRow codec clock), SentRow codec row) :
    (appendInOrder codec clock tables [] batch).1 =
        { tables with
          events := (batch.filterMap (eventToInsertRow codec clock)).foldl insertEvent
            tables.events } ∧
      ((∀ answer ∈ (appendInOrder codec clock tables [] batch).2, answer = .ok ()) ↔
        Uncontested codec tables.events (batch.filterMap (eventToInsertRow codec clock)) ∧
          Concordant codec (batch.filterMap (eventToInsertRow codec clock))) := by
  induction batch generalizing tables with
  | nil => simp [appendInOrder, Uncontested, Concordant]
  | cons event rest ih =>
    simp only [appendInOrder, List.headD_nil, List.tail_nil, List.forall_mem_cons]
    cases hin : eventToInsertRow codec clock event with
    | none =>
      rw [List.filterMap_cons_none hin] at hs ⊢
      rw [appendEvent_of_none hin]
      simpa using ih hs
    | some row =>
      rw [List.filterMap_cons_some hin] at hs ⊢
      obtain ⟨ht, hok⟩ := @appendEvent_answered codec clock tables event row hin
      obtain ⟨hr, ha⟩ :=
        @ih (appendEvent codec clock tables true event).1 fun other hm =>
          hs other (List.mem_cons_of_mem _ hm)
      rw [ht] at hr ha
      rw [ht, hok, ha, uncontested_cons hs]
      exact ⟨hr, Iff.rfl⟩

theorem appendEventsToStream_answered
    (hs : ∀ row ∈ batch.filterMap (eventToInsertRow codec clock), SentRow codec row) :
    ((appendEventsToStream codec clock tables [] batch).2 = .ok () ↔
        Uncontested codec tables.events (batch.filterMap (eventToInsertRow codec clock)) ∧
          Concordant codec (batch.filterMap (eventToInsertRow codec clock))) ∧
      ((appendEventsToStream codec clock tables [] batch).2 = .ok () →
        (appendEventsToStream codec clock tables [] batch).1 =
          { tables with
            events := (batch.filterMap (eventToInsertRow codec clock)).foldl insertEvent
              tables.events }) := by
  generalize hr : batch.filterMap (eventToInsertRow codec clock) = rows at hs ⊢
  have hdu := conflictingDuplicate_eq_none
    (fun a ha => absurd ha List.not_mem_nil) (fun a ha => absurd ha List.not_mem_nil) hs
  rw [List.append_nil] at hdu
  simp only [appendEventsToStream, hr]
  cases hf : conflictingDuplicate codec [] rows with
  | some row =>
    have hdi : ¬ Concordant codec rows := by
      intro hc
      have hn := hdu.mpr (hc.mono fun _ hm => List.mem_reverse.mp hm)
      rw [hf] at hn
      cases hn
    simp [hdi]
  | none =>
    have hc : Concordant codec rows :=
      (hdu.mp hf).mono fun _ hm => List.mem_reverse.mpr hm
    have hfl := Listing.toChunks_flatten EVENT_STREAM_BATCH_SIZE rows
    have hch := @appendChunks_answered codec tables.events
      (rows.toChunks EVENT_STREAM_BATCH_SIZE) (by rwa [hfl]) (by rwa [hfl])
    rw [hfl] at hch
    simp only [hc, and_true]
    exact ⟨hch.1, fun hok => by rw [hch.2 hok]⟩

end Events

section Batches

variable {codec : Codec} {clock : Clock} {messages : List PreparedMessage}

theorem sentRow_buildEventMessage
    (hco : ∀ prepared ∈ messages,
      codec.message.decode (codec.message.encode prepared.message) = some prepared.message)
    {row : EventStreamInsertRow}
    (h : row ∈ (messages.map (buildEventMessage clock)).filterMap
      (eventToInsertRow codec clock)) : SentRow codec row := by
  obtain ⟨event, hev, hin⟩ := List.mem_filterMap.mp h
  obtain ⟨prepared, hm, rfl⟩ := List.mem_map.mp hev
  have hc : prepared.conversationId ≠ "" := by
    intro hem
    have hn : eventToInsertRow codec clock (buildEventMessage clock prepared) = none :=
      if_pos hem
    rw [hn] at hin
    cases hin
  obtain ⟨built, hb, hme, -, hp⟩ :=
    eventToInsertRow_buildEventMessage codec clock hc
  cases (hin.symm.trans hb)
  exact ⟨hme, prepared.message, by rw [hp, hco prepared hm], prepared.server_id_ne⟩

-- A batch of message events is appended exactly when its members are, one after the other, and
-- leaves the same rows. Whatever the database answers, no stored row is touched.
theorem append_batch_as_in_order (codec : Codec) (clock : Clock) (tables : Tables)
    (messages : List PreparedMessage)
    (hcodec : ∀ prepared ∈ messages,
      codec.message.decode (codec.message.encode prepared.message) = some prepared.message) :
    let batch := messages.map (buildEventMessage clock)
    ((appendEventsToStream codec clock tables [] batch).2 = .ok () ↔
        ∀ answer ∈ (appendInOrder codec clock tables [] batch).2, answer = .ok ()) ∧
      ((appendEventsToStream codec clock tables [] batch).2 = .ok () →
        (appendEventsToStream codec clock tables [] batch).1 =
          (appendInOrder codec clock tables [] batch).1) ∧
      ∀ answers : List Bool,
        tables.events <:+ (appendEventsToStream codec clock tables answers batch).1.events ∧
          tables.events <:+ (appendInOrder codec clock tables answers batch).1.events := by
  intro batch
  have hsent : ∀ row ∈ batch.filterMap (eventToInsertRow codec clock), SentRow codec row :=
    fun row hmem => sentRow_buildEventMessage hcodec hmem
  obtain ⟨htogether, hrows⟩ := @appendEventsToStream_answered codec clock tables batch hsent
  obtain ⟨hinOrder, hanswers⟩ := @appendInOrder_answered codec clock tables batch hsent
  refine ⟨htogether.trans hanswers.symm, fun hok => (hrows hok).trans hinOrder.symm, ?_⟩
  exact fun answers =>
    ⟨suffix_appendEventsToStream answers, suffix_appendInOrder answers⟩

-- The first message again after the second, as the queue redelivers it within a batch.
theorem append_repeated_batch :
    let batch := [preparedFirst, preparedSecond, preparedFirst].map
      (buildEventMessage healthyDatabase.clock)
    (appendEventsToStream smallWriter.codec healthyDatabase.clock {} [] batch).1 =
        (appendInOrder smallWriter.codec healthyDatabase.clock {} [] batch).1 ∧
      (appendInOrder smallWriter.codec healthyDatabase.clock {} [] batch).1.events.length = 2 := by
  have hagree := append_batch_as_in_order smallWriter.codec healthyDatabase.clock {}
    [preparedFirst, preparedSecond, preparedFirst] (by decide)
  exact ⟨hagree.2.1 (by decide), by decide⟩

end Batches

end FlareIm.MessagePersistence
