import FlareIm.Lib.Repeats
import FlareIm.OperationStore

namespace FlareIm.OperationStore

open Proto EventRow RoundTrip Repeats

open EventApplication (FlareError Existing Position rowPosition putRow isConflict
  matchExistingEvent matchStoredEvent appendEventToStream)

variable {statements : List Statement}

section Position

variable {codec : Codec} {clock : Clock} {event : EventRow.Event}

def eventPosition (event : EventRow.Event) : Position :=
  ⟨event.tenantId, event.conversationId, asI64 event.seq⟩

-- The type and the payload an event is stored with.
def storedAs (codec : Codec) (event : EventRow.Event) : TypeNumber × List UInt8 :=
  (eventTypeToProtoI32 event.type,
    ((event.payload.bind (eventPayloadToProto codec)).map (encodePayloadBytes codec)).getD [])

-- What stands at the position of the event. An event without a conversation has none.
def stored (state : State) (event : EventRow.Event) : Existing :=
  if event.conversationId = "" then none else state.rows (eventPosition event)

-- The event is one the writer takes for new.
def Fresh (state : State) (event : EventRow.Event) : Prop :=
  event.tenantId ≠ "" ∧ stored state event = none

theorem eventToInsertRow_of_blank (hc : event.conversationId = "") :
    eventToInsertRow codec clock event = none := by
  simp [eventToInsertRow, eventToProto, hc]

variable (codec clock) in
theorem eventToInsertRow_of_conversation (hc : event.conversationId ≠ "") :
    ∃ row, eventToInsertRow codec clock event = some row ∧
      rowPosition row = eventPosition event ∧ (row.eventType, row.payload) = storedAs codec event := by
  rw [eventToInsertRow]
  refine ⟨_, if_neg hc, rfl, rfl⟩

end Position

section Marks

-- The updates that take effect: none after one whose error ends the delivery.
def taken : List Statement → (Nat → Outcome) → Nat → Bool
  | [], _, _ => false
  | _ :: _, outcomes, 0 => (outcomes 0).takesEffect
  | statement :: statements, outcomes, i + 1 =>
    if outcomes 0 = .answered ∨ statement.swallowed then
      taken statements (fun i => outcomes (i + 1)) i
    else false

-- Every update took effect whose error is not only logged.
def Complete : List Statement → (Nat → Bool) → Prop
  | [], _ => True
  | statement :: statements, marks =>
    (statement.swallowed = false → marks 0 = true) ∧ Complete statements fun i => marks (i + 1)

def passed (statements : List Statement) (marks : Nat → Bool) (tables : Tables) : Tables :=
  passOver (statements.map (·.run)) marks tables

theorem passed_singleton (statement : Statement) (marks : Nat → Bool) (tables : Tables) :
    passed [statement] marks tables = if marks 0 then statement.run tables else tables :=
  rfl

theorem runStatements_fst (statements : List Statement) (outcomes : Nat → Outcome)
    (tables : Tables) : (runStatements statements outcomes tables).1 =
      passed statements (taken statements outcomes) tables := by
  induction statements generalizing outcomes tables with
  | nil => rfl
  | cons statement statements ih =>
    rw [runStatements, passed, List.map_cons, passOver]
    by_cases hg : outcomes 0 = .answered ∨ statement.swallowed
    · simp only [if_pos hg, ih, passed]
      congr 1
      funext i
      rw [taken, if_pos hg]
    · simp only [if_neg hg, taken]
      exact (passOver_none _ _).symm

theorem complete_of_runStatements {outcomes : Nat → Outcome}
    {tables : Tables} (hen : (runStatements statements outcomes tables).2 = true) :
    Complete statements (taken statements outcomes) := by
  induction statements generalizing outcomes tables with
  | nil => trivial
  | cons statement statements ih =>
    rw [runStatements] at hen
    by_cases hg : outcomes 0 = .answered ∨ statement.swallowed
    · simp only [if_pos hg] at hen
      refine ⟨fun hk => ?_, ?_⟩
      · have ha : outcomes 0 = .answered := by simpa [hk] using hg
        simp [taken, ha]
      · simp only [taken, if_pos hg]
        exact ih hen
    · simp only [if_neg hg] at hen
      cases hen

-- The answers under which the marked updates take effect and the others do not.
def outcomesOf (marks : Nat → Bool) (i : Nat) : Outcome :=
  if marks i then .answered else .failed

theorem runStatements_outcomesOf {marks : Nat → Bool}
    (hc : Complete statements marks) (tables : Tables) :
    runStatements statements (outcomesOf marks) tables = (passed statements marks tables, true) := by
  induction statements generalizing marks tables with
  | nil => rfl
  | cons statement statements ih =>
    obtain ⟨hf, hr⟩ := hc
    have hg : outcomesOf marks 0 = .answered ∨ statement.swallowed = true := by
      cases hs : statement.swallowed with
      | false => exact Or.inl (by simp [outcomesOf, hf hs])
      | true => exact Or.inr rfl
    have hef : (outcomesOf marks 0).takesEffect = marks 0 := by
      cases hm : marks 0 with
      | false | true => simp [outcomesOf, hm]
    rw [runStatements, if_pos hg, hef, passed, List.map_cons, passOver]
    exact ih hr _

theorem Complete.mono {marks more : Nat → Bool}
    (hc : Complete statements marks) (hm : ∀ i, marks i = true → more i = true) :
    Complete statements more := by
  induction statements generalizing marks more with
  | nil => trivial
  | cons statement statements ih =>
    exact ⟨fun hk => hm 0 (hc.1 hk), ih hc.2 fun i hi => hm (i + 1) hi⟩

theorem complete_of_swallowed
    (hs : ∀ statement ∈ statements, statement.swallowed = true) (marks : Nat → Bool) :
    Complete statements marks := by
  induction statements generalizing marks with
  | nil => trivial
  | cons statement statements ih =>
    refine ⟨fun hk => ?_, ih (fun other ho => hs other (by simp [ho])) _⟩
    rw [hs statement List.mem_cons_self] at hk
    cases hk

theorem complete_true (statements : List Statement) : Complete statements fun _ => true := by
  induction statements with
  | nil => trivial
  | cons statement statements ih => exact ⟨fun _ => rfl, ih⟩

end Marks

section Delivery

variable {setup : Setup} {answers : Answers} {state : State} {event : EventRow.Event}

theorem appendRow_eq (rows : Position → Existing) :
    appendRow setup answers event rows =
      if event.conversationId ≠ "" ∧ answers.inserted.takesEffect then
        putRow rows (eventPosition event) (some (storedAs setup.codec event))
      else rows := by
  by_cases hc : event.conversationId = ""
  · simp [appendRow, eventToInsertRow_of_blank hc, hc]
  · obtain ⟨row, hr, hp, hs⟩ :=
      eventToInsertRow_of_conversation setup.codec (clock setup answers) hc
    simp [appendRow, hr, hc, hp, hs]

variable (setup answers) in
theorem stored_appendRow (hf : Fresh state event) (tables : Tables) :
    stored ⟨tables, appendRow setup answers event state.rows⟩ event =
      if event.conversationId ≠ "" ∧ answers.inserted.takesEffect then
        some (storedAs setup.codec event)
      else none := by
  have hn := hf.2
  rw [stored, appendRow_eq]
  by_cases hc : event.conversationId = ""
  · simp [hc]
  · rw [stored, if_neg hc] at hn
    rw [if_neg hc]
    split
    · simp [putRow, hn]
    · exact hn

-- An event whose position is taken changes nothing.
theorem processEvent_of_not_fresh (hst : ¬ Fresh state event) :
    (processEvent setup answers state event).1 = state := by
  rw [processEvent]
  split
  · rfl
  · rename_i ht
    have hs : stored state event ≠ none := fun hn => hst ⟨ht, hn⟩
    have hc : event.conversationId ≠ "" := fun hb => hs (if_pos hb)
    obtain ⟨existing, hei⟩ := Option.ne_none_iff_exists'.mp hs
    rw [stored, if_neg hc] at hei
    obtain ⟨row, hr, hp, -⟩ :=
      eventToInsertRow_of_conversation setup.codec (clock setup answers) hc
    cases hch : answers.checked with
    | false => simp [matchStoredEvent, hr, stream, hch]
    | true =>
      simp only [matchStoredEvent, hr, stream, hch, hp, hei, if_true]
      cases isConflict setup.codec row existing with
      | false | true => rfl

variable (setup) in
theorem processEvent_of_fresh (hf : Fresh state event)
    (hre : answers.checked = true ∨ event.conversationId = "") :
    processEvent setup answers state event = dispatch setup answers state event := by
  obtain ⟨ht, hn⟩ := hf
  by_cases hc : event.conversationId = ""
  · simp [processEvent, ht, matchStoredEvent, eventToInsertRow_of_blank hc]
  · have hch : answers.checked = true := hre.resolve_right hc
    rw [stored, if_neg hc] at hn
    obtain ⟨row, hr, hp, -⟩ :=
      eventToInsertRow_of_conversation setup.codec (clock setup answers) hc
    simp [processEvent, ht, matchStoredEvent, hr, stream, hch, hp, hn]

variable (setup state) in
theorem processEvent_of_unchecked (hre : ¬ (answers.checked = true ∨ event.conversationId = "")) :
    ∃ error, processEvent setup answers state event = (state, .error error) := by
  rw [not_or] at hre
  have hu : answers.checked = false := by simpa using hre.1
  obtain ⟨row, hr, -, -⟩ :=
    eventToInsertRow_of_conversation setup.codec (clock setup answers) hre.2
  rw [processEvent]
  split
  · exact ⟨_, rfl⟩
  · simp only [matchStoredEvent, hr, stream, hu]
    exact ⟨_, rfl⟩

theorem dispatch_of_run {appends : Bool}
    (hp : plan setup answers.now state.tables event = .run statements appends) :
    dispatch setup answers state event =
      let tables := passed statements (taken statements answers.outcomes) state.tables
      if (runStatements statements answers.outcomes state.tables).2 then
        if appends then appendEventAndStream setup answers state event tables
        else ({ state with tables }, .ok ())
      else ({ state with tables }, .error EventApplication.failure) := by
  rw [dispatch, hp]
  simp only [← runStatements_fst]
  cases runStatements statements answers.outcomes state.tables with
  | mk tables ends =>
    cases ends with
    | false | true => rfl

variable (setup) in
theorem appendEventAndStream_of_fresh (hf : Fresh state event)
    (hre : answers.recorded = true) (tables : Tables) :
    (appendEventAndStream setup answers state event tables).1 =
        ⟨tables, appendRow setup answers event state.rows⟩ ∧
      ((appendEventAndStream setup answers state event tables).2 = .ok () ↔
        event.conversationId = "" ∨ answers.inserted = .answered) := by
  have hn := hf.2
  rw [appendEventAndStream, hre]
  refine ⟨rfl, ?_⟩
  by_cases hc : event.conversationId = ""
  · simp [appendEventToStream, eventToInsertRow_of_blank hc, hc]
  · rw [stored, if_neg hc] at hn
    obtain ⟨row, hr, hp, -⟩ :=
      eventToInsertRow_of_conversation setup.codec (clock setup answers) hc
    by_cases hin : answers.inserted = .answered
    · simp [appendEventToStream, hr, stream, hin, hp, hn]
    · simp [appendEventToStream, hr, stream, hin, hc]

theorem appendEventAndStream_of_blank (hc : event.conversationId = "")
    (tables : Tables) :
    (appendEventAndStream setup answers state event tables).1 = ⟨tables, state.rows⟩ := by
  have hr : appendRow setup answers event state.rows = state.rows := by
    rw [appendRow_eq, if_neg fun ha => ha.1 hc]
  rw [appendEventAndStream, hr]
  split <;> rfl

end Delivery

end FlareIm.OperationStore
