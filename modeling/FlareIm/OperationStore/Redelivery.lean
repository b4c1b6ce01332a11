import FlareIm.EventApplication.Theorems
import FlareIm.OperationStore.Delivery
import FlareIm.OperationStore.Updates

namespace FlareIm.OperationStore

open Proto EventRow RoundTrip Repeats

open EventApplication (FlareError)

variable {answers : Answers} {statements : List Statement} {appends : Bool} {marks : Nat → Bool}
  {tables : Tables}

section Statement

variable (setup : Setup) (event : EventRow.Event)

-- One call of `process_event` that returned Ok leads from the one state to the other.
def Successful (start state : State) : Prop :=
  ∃ answers, processEvent setup answers start event = (state, .ok ())

-- A further delivery, and whether one so far returned Ok.
def redeliver (delivered : State × Bool) (answers : Answers) : State × Bool :=
  match processEvent setup answers delivered.1 event with
  | (state, .ok ()) => (state, true)
  | (state, .error _) => (state, delivered.2)

def redeliverAll (start : State) (deliveries : List Answers) : State × Bool :=
  deliveries.foldl (redeliver setup event) (start, false)

-- However often the event is delivered and however its deliveries end, once one has returned Ok
-- the tables and the stream are as one successful delivery leaves them.
def IdempotentUnderRedelivery (start : State) : Prop :=
  ∀ deliveries, (redeliverAll setup event start deliveries).2 = true →
    Successful setup event start (redeliverAll setup event start deliveries).1

-- An operation event as the consumer receives it, with the tenant and the operator of its header.
def received (codec : Codec) (event : Proto.Event) (tenantId operatorId : String) :
    EventRow.Event :=
  { eventFromProto codec event with tenantId, operatorId }

def editsMessage (tables : Tables) : Bool :=
  match event.payload with
  | some (.edit edit) => (findEdited event.tenantId edit.serverMsgId tables.messages).isSome
  | _ => false

def burnsMessage (tables : Tables) : Bool :=
  match event.payload with
  | some (.burnScheduled burn) =>
    burnChanges event.tenantId burn.messageId (scheduleMessageBurn burn.eventTime burn.burnAt)
      tables
  | some (.burned burned) =>
    burnChanges event.tenantId burned.messageId (markMessageBurned burned.burnedAt) tables
  | some (.hardDeleted deleted) =>
    burnChanges event.tenantId deleted.messageId markMessageHardDeleted tables
  | _ => false

end Statement

section Steady

variable {setup : Setup} {event : EventRow.Event}

-- An event whose handler does the same whatever the tables hold, and whose updates are settled.
def Steady (setup : Setup) (event : EventRow.Event) : Prop :=
  (∃ error, ∀ now tables, plan setup now tables event = .refuse error) ∨
    (∀ now tables, plan setup now tables event = .acknowledge) ∨
    ∃ statements, (∀ now tables, plan setup now tables event = .run statements true) ∧
      Settled (statements.map (·.run))

theorem steady_of_refuse {error : FlareError}
    (hp : ∀ now tables, plan setup now tables event = .refuse error) : Steady setup event :=
  Or.inl ⟨error, hp⟩

theorem steady_of_acknowledge (hp : ∀ now tables, plan setup now tables event = .acknowledge) :
    Steady setup event :=
  Or.inr (Or.inl hp)

theorem steady_of_run (statements : List Statement)
    (hp : ∀ now tables, plan setup now tables event = .run statements true)
    (hs : Settled (statements.map (·.run))) : Steady setup event :=
  Or.inr (Or.inr ⟨statements, hp, hs⟩)

theorem steady_of_single (update : Tables → Tables)
    (hp : ∀ now tables, plan setup now tables event = .run [⟨update, false⟩] true)
    (hie : ∀ tables, update (update tables) = update tables) : Steady setup event :=
  steady_of_run [⟨update, false⟩] hp (settled_singleton hie)

theorem steady_recall {«recall» : MessageRecallEvent}
    (hp : event.payload = some (.recall «recall»)) : Steady setup event := by
  by_cases hb : Text.isBlank recall.serverMsgId = true
  · exact steady_of_acknowledge fun now tables => by simp [plan, hp, applyRecall, hb]
  · exact steady_of_run (updateMessageFsmState event.tenantId recall.serverMsgId "RECALLED")
      (fun now tables => by simp [plan, hp, applyRecall, hb])
      (settled_updateMessageFsmState _ _ _)

theorem steady_delete {delete : MessageDeleteEvent}
    (hp : event.payload = some (.delete delete)) : Steady setup event := by
  by_cases hb : Text.isBlank delete.serverMsgId = true
  · exact steady_of_acknowledge fun now tables => by simp [plan, hp, applyDelete, hb]
  · by_cases hh : delete.deleteType.getD 0 = DELETE_TYPE_HARD
    · exact steady_of_run (updateMessageFsmState event.tenantId delete.serverMsgId "DELETED_HARD")
        (fun now tables => by simp [plan, hp, applyDelete, hb, hh])
        (settled_updateMessageFsmState _ _ _)
    · let scope := delete.scope.getD DELETE_SCOPE_USER_PRIVATE
      refine steady_of_single (updateMessageVisibility
        ⟨⟨event.tenantId, delete.serverMsgId⟩, visibilityUserId event delete scope, scope⟩
        VISIBILITY_HIDDEN) (fun now tables => ?_) fun tables => ?_
      · simp only [plan, hp, applyDelete, if_neg hb, if_neg hh]
        rfl
      · simp [updateMessageVisibility]

theorem steady_read {read : ReadPayload} (hp : event.payload = some (.read read))
    (hb : read.burnAfterRead = none) : Steady setup event := by
  let record := fun messageId => recordMessageRead ⟨⟨event.tenantId, messageId⟩, read.userId⟩
  have hs : ∀ now, read.messageIds.flatMap (readStatements now event read) =
      read.messageIds.map fun messageId => ⟨record messageId, false⟩ := by
    intro now
    induction read.messageIds with
    | nil => rfl
    | cons messageId messageIds ih =>
      rw [List.flatMap_cons, ih, List.map_cons]
      simp [readStatements, hb, record]
  refine steady_of_run (read.messageIds.map fun messageId => ⟨record messageId, false⟩)
    (fun now tables => ?_) ?_
  · simp only [plan, hp, applyRead, hs now]
  · rw [List.map_map]
    exact settled_map (fun _ => recordMessageRead_recordMessageRead _)
      (fun _ _ => recordMessageRead_comm _ _) _

theorem steady_reaction {reaction : ReactionEvent}
    (hp : event.payload = some (.reaction reaction)) : Steady setup event := by
  refine steady_of_single (reactionStatement event reaction).run (fun now tables => ?_)
    fun tables => ?_
  · simp only [plan, hp, applyReaction]
    rfl
  · simp only [reactionStatement, upsertMessageReaction]
    rw [update_update_self (reactionAfter_reactionAfter _ _)]

theorem steady_pin {pin : PinPayload} (hp : event.payload = some (.pin pin)) :
    Steady setup event := by
  refine steady_of_single (pinStatement setup event pin).run (fun now tables => ?_) fun tables => ?_
  · simp only [plan, hp, applyPin]
    rfl
  · simp [pinStatement, pinMessage]

theorem steady_unpin {unpin : UnpinEvent} (hp : event.payload = some (.unpin unpin)) :
    Steady setup event := by
  refine steady_of_single (unpinStatement event unpin).run (fun now tables => ?_) fun tables => ?_
  · simp only [plan, hp, applyUnpin]
    rfl
  · simp [unpinStatement, pinMessage]

theorem steady_mark {mark : MarkEvent} (hp : event.payload = some (.mark mark)) :
    Steady setup event := by
  by_cases ht : mark.markType ∈ EventApplication.MARK_TYPES
  · refine steady_of_single
      (markMessage ⟨⟨event.tenantId, mark.serverMsgId⟩, mark.userId, mark.markType⟩
        event.conversationId (if mark.color = "" then none else some mark.color))
      (fun now tables => ?_) fun tables => ?_
    · simp only [plan, hp, applyMark, if_pos ht]
    · simp [markMessage]
  · exact steady_of_refuse fun now tables => by
      simp only [plan, hp, applyMark, if_neg ht]
      rfl

theorem steady_unmark {unmark : UnmarkEvent} (hp : event.payload = some (.unmark unmark)) :
    Steady setup event := by
  have hie : ∀ key tables,
      unmarkMessage key (unmarkMessage key tables) = unmarkMessage key tables := by
    intro key tables
    simp [unmarkMessage]
  let clear := fun markType =>
    unmarkMessage ⟨⟨event.tenantId, unmark.serverMsgId⟩, unmark.userId, markType⟩
  by_cases ht : unmark.markType ∈ EventApplication.MARK_TYPES
  · refine steady_of_single (clear unmark.markType) (fun now tables => ?_) fun tables => ?_
    · simp only [plan, hp, applyUnmark, if_pos ht]
      rfl
    · exact hie _ tables
  · refine steady_of_run (EventApplication.MARK_TYPES.map fun markType => ⟨clear markType, true⟩)
      (fun now tables => ?_) ?_
    · simp only [plan, hp, applyUnmark, if_neg ht]
      rfl
    · rw [List.map_map]
      exact settled_map (fun _ => hie _) (fun _ _ => unmarkMessage_comm _ _) _

theorem steady_pluginState {state : PluginStateEvent}
    (hp : event.payload = some (.pluginState state)) : Steady setup event := by
  by_cases hin : state.serverMsgId = "" ∨ state.pluginId = "" ∨
      setup.sharedStateOk state = false
  · exact steady_of_refuse fun now tables => by
      simp only [plan, hp, applyPluginState, if_pos hin]
      rfl
  · by_cases hv : state.version = 0 ∨ 2 ^ 63 ≤ state.version
    · exact steady_of_refuse fun now tables => by
        simp only [plan, hp, applyPluginState, if_neg hin, if_pos hv]
        rfl
    · refine steady_of_single (upsertMessagePluginState event.tenantId event.conversationId state)
        (fun now tables => ?_) fun tables => ?_
      · simp only [plan, hp, applyPluginState, if_neg hin, if_neg hv]
      · exact upsertMessagePluginState_idempotent _ _ state tables

theorem steady_of_received {codec : Codec} {proto : Proto.Event} {tenantId operatorId : String}
    (hr : event = received codec proto tenantId operatorId)
    (hed : ∀ edit, event.payload ≠ some (.edit edit))
    (hbu : ∀ payload, event.payload = some payload → EventApplication.isBurn payload = false) :
    Steady setup event := by
  cases hp : event.payload with
  | none => exact steady_of_acknowledge fun now tables => by simp only [plan, hp]
  | some payload =>
    have hb := hbu payload hp
    cases payload with
    | «recall» _ => exact steady_recall hp
    | edit edit => exact absurd hp (hed edit)
    | delete _ => exact steady_delete hp
    | read read =>
      refine steady_read hp ?_
      rw [hr] at hp
      obtain ⟨source, -, hs⟩ := Option.bind_eq_some_iff.mp hp
      cases source with
      | read _ =>
        cases hs
        rfl
      | _ => cases hs
    | reaction _ => exact steady_reaction hp
    | pin _ => exact steady_pin hp
    | unpin _ => exact steady_unpin hp
    | mark _ => exact steady_mark hp
    | unmark _ => exact steady_unmark hp
    | pluginState _ => exact steady_pluginState hp
    | message _ | custom _
    | other => exact steady_of_acknowledge fun now tables => by simp only [plan, hp]
    | burnScheduled _ | burned _ | hardDeleted _ => cases hb

end Steady

section Redeliveries

variable {setup : Setup} {event : EventRow.Event} {start : State}

theorem processEvent_fst_of_plan (hf : Fresh start event)
    (hdi : (dispatch setup answers start event).1 = start) :
    (processEvent setup answers start event).1 = start := by
  by_cases hr : answers.checked = true ∨ event.conversationId = ""
  · rw [processEvent_of_fresh setup hf hr, hdi]
  · obtain ⟨error, hp⟩ := processEvent_of_unchecked setup start hr
    rw [hp]

theorem redeliver_fst (delivered : State × Bool) (answers : Answers) :
    (redeliver setup event delivered answers).1 =
      (processEvent setup answers delivered.1 event).1 := by
  rw [redeliver]
  split <;> simp_all

theorem redeliver_snd {delivered : State × Bool}
    (ha : (redeliver setup event delivered answers).2 = true) :
    delivered.2 = true ∨ (processEvent setup answers delivered.1 event).2 = .ok () := by
  rw [redeliver] at ha
  split at ha
  · rename_i heq
    exact Or.inr (by rw [heq])
  · exact Or.inl ha

theorem redeliverAll_induction {P : State × Bool → Prop} (hst : P (start, false))
    (hs : ∀ delivered answers, P delivered → P (redeliver setup event delivered answers))
    (deliveries : List Answers) : P (redeliverAll setup event start deliveries) := by
  have hr : ∀ delivered, P delivered → P (deliveries.foldl (redeliver setup event) delivered) := by
    induction deliveries with
    | nil => exact fun _ hde => hde
    | cons answers deliveries ih =>
      exact fun delivered hde => ih _ (hs delivered answers hde)
  exact hr _ hst

-- The answers of the one delivery whose updates take effect as marked.
def answersOf (now : Int) (marks : Nat → Bool) : Answers :=
  { now, outcomes := outcomesOf marks }

theorem processEvent_answersOf {now : Int} (hf : Fresh start event)
    (hp : plan setup now start.tables event = .run statements appends)
    (hc : Complete statements marks) : processEvent setup (answersOf now marks) start event =
      (⟨passed statements marks start.tables,
        if appends then appendRow setup (answersOf now marks) event start.rows else start.rows⟩,
        .ok ()) := by
  rw [processEvent_of_fresh setup hf (Or.inl rfl), dispatch, answersOf, hp]
  simp only [runStatements_outcomesOf hc]
  cases appends with
  | false => rfl
  | true =>
    obtain ⟨hs, hr⟩ := @appendEventAndStream_of_fresh setup
      (answersOf now marks) start event hf rfl (passed statements marks start.tables)
    exact Prod.ext hs (hr.mpr (Or.inr rfl))

variable (setup event start) in
-- Where deliveries of a steady event lead: before its row is there some of its updates have been
-- made, and then it is as one delivery left it.
def Delivered (statements : List Statement) (delivered : State × Bool) : Prop :=
  (∃ marks, delivered.1 = ⟨passed statements marks start.tables, start.rows⟩ ∧
      (delivered.2 = true → Complete statements marks ∧ event.conversationId = "")) ∨
    (Successful setup event start delivered.1 ∧ ¬ Fresh delivered.1 event)

theorem fresh_of_rows {state : State} (hf : Fresh start event)
    (hr : state.rows = start.rows) : Fresh state event := by
  obtain ⟨ht, hn⟩ := hf
  exact ⟨ht, by rwa [stored, hr]⟩

-- A delivery whose updates went through appends the row, or leaves the stream as it was.
theorem delivered_appended (hf : Fresh start event)
    (hp : ∀ now tables, plan setup now tables event = .run statements true) {state : State}
    (hf' : Fresh state event) (hro : state.rows = start.rows)
    (hco : Complete statements marks) (answers : Answers) {acked : Bool}
    (hac : acked = true → event.conversationId = "") {after : State × Bool}
    (hs : after.1 =
      (appendEventAndStream setup answers state event (passed statements marks start.tables)).1)
    (hr : after.2 = true → acked = true ∨
      (appendEventAndStream setup answers state event (passed statements marks start.tables)).2 =
        .ok ()) : Delivered setup event start statements after := by
  cases hre : answers.recorded with
  | false =>
    simp only [appendEventAndStream, hre, Bool.not_false, if_true] at hs hr
    left
    refine ⟨marks, by rw [hs, hro], fun h => ⟨hco, ?_⟩⟩
    cases hr h with
    | inl h => exact hac h
    | inr hok => cases hok
  | true =>
    obtain ⟨ha, hok⟩ := appendEventAndStream_of_fresh setup hf' hre
      (passed statements marks start.tables)
    rw [ha] at hs
    rw [hok] at hr
    by_cases hap : event.conversationId ≠ "" ∧ answers.inserted.takesEffect = true
    · right
      constructor
      · have ho := processEvent_answersOf hf (hp 0 _) hco
        rw [if_pos rfl, appendRow_eq, if_pos ⟨hap.1, rfl⟩] at ho
        rw [hs, appendRow_eq, if_pos hap, hro]
        exact ⟨_, ho⟩
      · intro hag
        have hso := stored_appendRow setup answers hf' (passed statements marks start.tables)
        rw [← hs, hag.2, if_pos hap] at hso
        cases hso
    · rw [appendRow_eq, if_neg hap, hro] at hs
      left
      refine ⟨marks, hs, fun h => ⟨hco, ?_⟩⟩
      by_contra hc
      rcases hr h with h | hb | han
      · exact hc (hac h)
      · exact hc hb
      · exact hap ⟨hc, by rw [han]; rfl⟩

-- A delivery that reaches the updates makes some of them once more, and those made so far are as
-- if made in one pass.
theorem delivered_of_reaches (hf : Fresh start event)
    (hpl : ∀ now tables, plan setup now tables event = .run statements true)
    (hse : Settled (statements.map (·.run))) {delivered : State × Bool}
    (hs : delivered.1 = ⟨passed statements marks start.tables, start.rows⟩)
    (ha : delivered.2 = true → Complete statements marks ∧ event.conversationId = "")
    (hr : answers.checked = true ∨ event.conversationId = "") :
    Delivered setup event start statements (redeliver setup event delivered answers) := by
  have hf' : Fresh delivered.1 event := fresh_of_rows hf (by rw [hs])
  have hp := processEvent_of_fresh setup hf' hr
  rw [dispatch_of_run (hpl _ _)] at hp
  have hpa : passed statements (taken statements answers.outcomes) delivered.1.tables =
      passed statements (fun i => marks i || taken statements answers.outcomes i) start.tables := by
    rw [hs]
    exact passOver_passOver hse _ _ _
  simp only [hpa] at hp
  generalize hm : (fun i => marks i || taken statements answers.outcomes i) = more at hp
  have hk : delivered.2 = true → Complete statements more ∧ event.conversationId = "" :=
    fun h => ⟨(ha h).1.mono fun i hi => by simp [← hm, hi], (ha h).2⟩
  cases hen : (runStatements statements answers.outcomes delivered.1.tables).2 with
  | false =>
    rw [hen] at hp
    left
    refine ⟨more, ?_, fun h => hk ((redeliver_snd h).resolve_right ?_)⟩
    · rw [redeliver_fst, hp]
      simp [hs]
    · rw [hp]
      simp
  | true =>
    have hc : Complete statements more :=
      (complete_of_runStatements hen).mono fun i hi => by simp [← hm, hi]
    rw [hen] at hp
    refine delivered_appended hf hpl hf' (by rw [hs]) hc answers (fun h => (ha h).2) ?_ fun h => ?_
    · rw [redeliver_fst, hp]
      rfl
    · refine (redeliver_snd h).imp_right fun hok => ?_
      rw [hp] at hok
      exact hok

theorem delivered_redeliver (hf : Fresh start event)
    (hpl : ∀ now tables, plan setup now tables event = .run statements true)
    (hse : Settled (statements.map (·.run))) (delivered : State × Bool) (answers : Answers)
    (hde : Delivered setup event start statements delivered) :
    Delivered setup event start statements (redeliver setup event delivered answers) := by
  cases hde with
  | inr hdo =>
    obtain ⟨hs, hst⟩ := hdo
    right
    rw [redeliver_fst, processEvent_of_not_fresh hst]
    exact ⟨hs, hst⟩
  | inl ho =>
    obtain ⟨marks, hsa, ha⟩ := ho
    by_cases hr : answers.checked = true ∨ event.conversationId = ""
    · exact delivered_of_reaches hf hpl hse hsa ha hr
    · obtain ⟨error, hp⟩ := processEvent_of_unchecked setup delivered.1 hr
      left
      refine ⟨marks, ?_, fun h => ha ((redeliver_snd h).resolve_right ?_)⟩
      · rw [redeliver_fst, hp, hsa]
      · rw [hp]
        simp

theorem idempotent_of_run (hf : Fresh start event)
    (hp : ∀ now tables, plan setup now tables event = .run statements true)
    (hs : Settled (statements.map (·.run))) : IdempotentUnderRedelivery setup event start := by
  intro deliveries ha
  have hst : Delivered setup event start statements (start, false) := by
    left
    refine ⟨fun _ => false, ?_, fun h => by cases h⟩
    rw [passed, passOver_none]
  have hde := redeliverAll_induction hst (delivered_redeliver hf hp hs) deliveries
  cases hde with
  | inr hdo => exact hdo.1
  | inl hoe =>
    obtain ⟨marks, hsa, hen⟩ := hoe
    obtain ⟨hco, hc⟩ := hen ha
    have ho := processEvent_answersOf hf (hp 0 _) hco
    rw [if_pos rfl, appendRow_eq, if_neg (fun h => h.1 hc)] at ho
    rw [hsa]
    exact ⟨_, ho⟩

theorem idempotent_of_unchanged
    (hu : ∀ answers, (processEvent setup answers start event).1 = start) :
    IdempotentUnderRedelivery setup event start := by
  intro deliveries ha
  have hde := redeliverAll_induction (P := fun delivered => delivered.1 = start ∧
      (delivered.2 = true → Successful setup event start start)) ⟨rfl, fun h => by cases h⟩
    (fun delivered answers h => by
      obtain ⟨hst, hs⟩ := h
      refine ⟨by rw [redeliver_fst, hst, hu], fun h => ?_⟩
      cases redeliver_snd h with
      | inl h => exact hs h
      | inr hok =>
        rw [hst] at hok
        exact ⟨answers, Prod.ext (hu answers) hok⟩)
    deliveries
  rw [hde.1]
  exact hde.2 ha

theorem idempotent_of_steady (hst : Steady setup event) :
    IdempotentUnderRedelivery setup event start := by
  by_cases hf : Fresh start event
  · rcases hst with ⟨error, hp⟩ | hp | ⟨statements, hp, hs⟩
    · exact idempotent_of_unchanged fun answers => processEvent_fst_of_plan hf (by
        simp [dispatch, hp])
    · exact idempotent_of_unchanged fun answers => processEvent_fst_of_plan hf (by
        simp [dispatch, hp])
    · exact idempotent_of_run hf hp hs
  · exact idempotent_of_unchanged fun answers => processEvent_of_not_fresh hf

end Redeliveries

section Edit

variable {setup : Setup} {event : EventRow.Event} {start : State}

theorem processEvent_tables (hf : Fresh start event)
    (hpl : plan setup answers.now start.tables event = .run statements appends) :
    ∃ marks, (processEvent setup answers start event).1.tables =
      passed statements marks start.tables := by
  by_cases hr : answers.checked = true ∨ event.conversationId = ""
  · refine ⟨taken statements answers.outcomes, ?_⟩
    rw [processEvent_of_fresh setup hf hr, dispatch_of_run hpl]
    simp only
    split
    · split
      · rw [appendEventAndStream]
        split <;> rfl
      · rfl
    · rfl
  · obtain ⟨error, hp⟩ := processEvent_of_unchecked setup start hr
    refine ⟨fun _ => false, ?_⟩
    rw [hp, passed, passOver_none]

-- The delivery that makes its updates and is then interrupted.
def interrupted : Answers :=
  { answersOf 0 fun _ => true with recorded := false }

theorem processEvent_interrupted (hf : Fresh start event)
    (hp : plan setup 0 start.tables event = .run statements true) :
    processEvent setup interrupted start event =
      (⟨passed statements (fun _ => true) start.tables, start.rows⟩,
        .error EventApplication.failure) := by
  rw [processEvent_of_fresh setup hf (Or.inl rfl), dispatch, interrupted, answersOf, hp]
  simp only [runStatements_outcomesOf (complete_true statements)]
  rfl

theorem redeliverAll_interrupted {again : List Statement} (hf : Fresh start event)
    (hp : plan setup 0 start.tables event = .run statements true)
    (ha : plan setup 0 (passed statements (fun _ => true) start.tables) event =
      .run again appends) :
    redeliverAll setup event start [interrupted, answersOf 0 fun _ => true] =
      (⟨passed again (fun _ => true) (passed statements (fun _ => true) start.tables),
        if appends then appendRow setup (answersOf 0 fun _ => true) event start.rows
        else start.rows⟩, true) := by
  have hf' : Fresh ⟨passed statements (fun _ => true) start.tables, start.rows⟩ event :=
    fresh_of_rows hf rfl
  have hs := processEvent_answersOf hf' ha (complete_true again)
  simp only [redeliverAll, List.foldl_cons, List.foldl_nil, redeliver,
    processEvent_interrupted hf hp, hs]

theorem not_idempotent_edit {edit : EditPayload} (hfr : Fresh start event)
    (hpa : event.payload = some (.edit edit))
    (hf : (findEdited event.tenantId edit.serverMsgId start.tables.messages).isSome = true) :
    ¬ IdempotentUnderRedelivery setup event start := by
  have hp : ∀ now tables,
      (findEdited event.tenantId edit.serverMsgId tables.messages).isSome = true →
      plan setup now tables event = .run [editStatement setup event edit] true := by
    intro now tables ht
    simp only [plan, hpa, applyEdit, ht, if_true]
  have hln : ∀ tables : Tables,
      (findEdited event.tenantId edit.serverMsgId tables.messages).isSome = true →
      ((editStatement setup event edit).run tables).editHistory.length =
        tables.editHistory.length + 1 := by
    intro tables ht
    simp only [editStatement, editHistory_length_updateMessageContent, ht, if_true]
  have hfo : (findEdited event.tenantId edit.serverMsgId
      ((editStatement setup event edit).run start.tables).messages).isSome = true :=
    findEdited_updateMessageContent.trans hf
  have htw := redeliverAll_interrupted hfr (hp 0 _ hf) (hp 0 _ hfo)
  intro hie
  obtain ⟨answers, ho⟩ := hie _ (congrArg Prod.snd htw)
  obtain ⟨marks, ht⟩ := processEvent_tables hfr (hp answers.now _ hf)
  rw [ho, htw, passed_singleton, passed_singleton, passed_singleton] at ht
  -- one delivery writes one line of the edit history, and the two have written two
  have hl := congrArg (fun tables : Tables => tables.editHistory.length) ht
  simp only [if_true] at hl
  rw [hln _ hfo, hln _ hf] at hl
  split at hl
  · rw [hln _ hf] at hl
    omega
  · omega

end Edit

section Burn

variable {setup : Setup} {event : EventRow.Event} {start : State}

-- A retention event: its update of a message goes forward, and what it records of the readers
-- leaves the messages as they are.
structure Burning (setup : Setup) (event : EventRow.Event) (messageId : String)
    (update : MessageRow → Option MessageRow) (records : Int → List (Tables → Tables)) : Prop where
  plan_eq : ∀ now tables,
    plan setup now tables event = applyBurn tables event messageId update (records now)
  burns_eq : ∀ tables, burnsMessage event tables = burnChanges event.tenantId messageId update tables
  forward : ∀ row row', update row = some row' → update row' = none
  keeps : ∀ now, ∀ record ∈ records now, ∀ tables, (record tables).messages = tables.messages

variable (setup) in
theorem exists_burning {payload : EventPayload} (hp : event.payload = some payload)
    (hb : EventApplication.isBurn payload = true) :
    ∃ messageId update records, Burning setup event messageId update records := by
  cases payload with
  | burnScheduled burn =>
    refine ⟨burn.messageId, scheduleMessageBurn burn.eventTime burn.burnAt,
      fun _ => burn.readerId.toList.map fun readerId =>
        recordMessageRead ⟨⟨event.tenantId, burn.messageId⟩, readerId⟩,
      fun _ _ => by simp only [plan, hp, applyBurnScheduled],
      fun _ => by simp only [burnsMessage, hp], scheduleMessageBurn_forward, ?_⟩
    intro _ record hr tables
    obtain ⟨readerId, -, rfl⟩ := List.mem_map.mp hr
    rfl
  | burned burned =>
    let burnedAt := fun now =>
      if setup.represents (burned.burnedAt * 1000) then burned.burnedAt * 1000 else now
    refine ⟨burned.messageId, markMessageBurned burned.burnedAt,
      fun now => [recordsBurned event.tenantId burned.messageId (burnedAt now)],
      fun _ _ => by simp only [plan, hp, applyBurned, burnedAt],
      fun _ => by simp only [burnsMessage, hp], markMessageBurned_forward, ?_⟩
    intro now record hr tables
    rw [List.mem_singleton.mp hr]
    rfl
  | hardDeleted deleted =>
    refine ⟨deleted.messageId, markMessageHardDeleted, fun _ => [],
      fun _ _ => by simp only [plan, hp, applyHardDeleted],
      fun _ => by simp only [burnsMessage, hp], markMessageHardDeleted_forward, ?_⟩
    intro _ record hr
    cases hr
  | _ => cases hb

theorem payload_of_burnsMessage (hb : burnsMessage event tables = true) :
    ∃ payload, event.payload = some payload ∧ EventApplication.isBurn payload = true := by
  rw [burnsMessage] at hb
  split at hb
  case h_4 => cases hb
  all_goals exact ⟨_, ‹_›, rfl⟩

variable {messageId : String} {update : MessageRow → Option MessageRow}
  {records : Int → List (Tables → Tables)}

def burnStatements (event : EventRow.Event) (messageId : String)
    (update : MessageRow → Option MessageRow) (records : List (Tables → Tables)) : List Statement :=
  ⟨updateBurn event.tenantId messageId update, false⟩ :: records.map fun record => ⟨record, true⟩

theorem Burning.plan_of_burns (hb : Burning setup event messageId update records)
    (hbu : burnsMessage event tables = true) (now : Int) : plan setup now tables event =
      .run (burnStatements event messageId update (records now)) true := by
  rw [hb.burns_eq] at hbu
  rw [hb.plan_eq, applyBurn, hbu]
  rfl

theorem Burning.plan_of_idle (hb : Burning setup event messageId update records)
    (hil : burnsMessage event tables = false) (now : Int) : plan setup now tables event =
      .run [⟨updateBurn event.tenantId messageId update, false⟩] false := by
  rw [hb.burns_eq] at hil
  rw [hb.plan_eq, applyBurn, hil]
  rfl

theorem Burning.processEvent_of_idle (hb : Burning setup event messageId update records)
    (hil : burnsMessage event start.tables = false) (answers : Answers) :
    (processEvent setup answers start event).1 = start := by
  by_cases hf : Fresh start event
  · apply processEvent_fst_of_plan hf
    rw [dispatch_of_run (hb.plan_of_idle hil _), passed_singleton]
    rw [hb.burns_eq] at hil
    simp only [updateBurn_of_unchanged hil, ite_self, Bool.false_eq_true, if_false]
    split <;> rfl
  · exact processEvent_of_not_fresh hf

theorem messages_passOver {updates : List (Tables → Tables)}
    (hk : ∀ update ∈ updates, ∀ tables, (update tables).messages = tables.messages)
    (marks : Nat → Bool) (tables : Tables) :
    (passOver updates marks tables).messages = tables.messages := by
  induction updates generalizing marks tables with
  | nil => rfl
  | cons update updates ih =>
    rw [passOver, ih fun other ho => hk other (List.mem_cons_of_mem update ho)]
    split
    · exact hk update List.mem_cons_self tables
    · rfl

theorem Burning.idle_passed (hb : Burning setup event messageId update records) (now : Int)
    (marks : Nat → Bool) (hm : marks 0 = true) (tables : Tables) : burnsMessage event
      (passed (burnStatements event messageId update (records now)) marks tables) = false := by
  rw [hb.burns_eq, burnChanges, passed, burnStatements, List.map_cons, passOver, hm, if_pos rfl,
    List.map_map, messages_passOver]
  · exact burnChanges_updateBurn hb.forward
  · intro record hr tables
    obtain ⟨source, hs, rfl⟩ := List.mem_map.mp hr
    exact hb.keeps now source hs tables

theorem complete_burnStatements (hm : marks 0 = true) (records : List (Tables → Tables)) :
    Complete (burnStatements event messageId update records) marks := by
  refine ⟨fun _ => hm, complete_of_swallowed (fun statement hs => ?_) _⟩
  obtain ⟨record, -, rfl⟩ := List.mem_map.mp hs
  rfl

theorem Burning.not_idempotent (hb : Burning setup event messageId update records)
    (hf : Fresh start event) (hbu : burnsMessage event start.tables = true)
    (hc : event.conversationId ≠ "") : ¬ IdempotentUnderRedelivery setup event start := by
  have hil := hb.idle_passed 0 (fun _ => true) rfl start.tables
  have ht := redeliverAll_interrupted hf (hb.plan_of_burns hbu 0) (hb.plan_of_idle hil 0)
  simp only [Bool.false_eq_true, if_false] at ht
  intro hie
  obtain ⟨answers, ho⟩ := hie _ (congrArg Prod.snd ht)
  rw [ht] at ho
  by_cases hre : answers.checked = true ∨ event.conversationId = ""
  · rw [processEvent_of_fresh setup hf hre,
      dispatch_of_run (hb.plan_of_burns hbu answers.now)] at ho
    simp only [if_true] at ho
    generalize passed _ (taken _ answers.outcomes) start.tables = tables at ho
    split at ho
    · cases hr : answers.recorded with
      | false => simp [appendEventAndStream, hr] at ho
      | true =>
        obtain ⟨hst, hrs⟩ := appendEventAndStream_of_fresh setup hf hr tables
        have hin := (hrs.mp (congrArg Prod.snd ho)).resolve_left hc
        have hs := stored_appendRow setup answers hf tables
        rw [← hst, ho, if_pos ⟨hc, by rw [hin]; rfl⟩] at hs
        -- the stream is that of the start, in which nothing stands at the position
        have hn : stored start event = _ := hs
        rw [hf.2] at hn
        cases hn
    · simp at ho
  · obtain ⟨error, hp⟩ := processEvent_of_unchecked setup start hre
    rw [hp] at ho
    simp at ho

-- Without a conversation there is no row to miss: the deliveries leave what the first that
-- updated the message left.
theorem Burning.idempotent_of_blank (hb : Burning setup event messageId update records)
    (hf : Fresh start event) (hbu : burnsMessage event start.tables = true)
    (hc : event.conversationId = "") : IdempotentUnderRedelivery setup event start := by
  intro deliveries ha
  let P := fun delivered : State × Bool => delivered = (start, false) ∨
    ∃ now marks, marks 0 = true ∧ delivered.1 =
      ⟨passed (burnStatements event messageId update (records now)) marks start.tables, start.rows⟩
  have hs : ∀ delivered answers, P delivered → P (redeliver setup event delivered answers) := by
    rintro delivered answers (rfl | ⟨now, marks, hm, hst⟩)
    · have hp : processEvent setup answers start event = dispatch setup answers start event :=
        processEvent_of_fresh setup hf (Or.inr hc)
      by_cases hm : (answers.outcomes 0).takesEffect = true
      · right
        refine ⟨answers.now, taken (burnStatements event messageId update (records answers.now))
          answers.outcomes, hm, ?_⟩
        rw [redeliver_fst, hp, dispatch_of_run (hb.plan_of_burns hbu _)]
        simp only [if_true]
        split
        · exact appendEventAndStream_of_blank hc _
        · rfl
      · left
        have hfa : answers.outcomes 0 = .failed := by
          cases hou : answers.outcomes 0 <;> simp_all
        rw [redeliver, hp, dispatch, hb.plan_of_burns hbu]
        simp [burnStatements, runStatements, hfa]
    · right
      refine ⟨now, marks, hm, ?_⟩
      have hil := hb.idle_passed now marks hm start.tables
      rw [redeliver_fst, hb.processEvent_of_idle (by rw [hst]; exact hil), hst]
  have hde := redeliverAll_induction (P := P) (Or.inl rfl) hs deliveries
  cases hde with
  | inl hsa =>
    rw [hsa] at ha
    cases ha
  | inr hbr =>
    obtain ⟨now, marks, hm, hst⟩ := hbr
    have ho := processEvent_answersOf hf (hb.plan_of_burns hbu now)
      (complete_burnStatements hm (records now))
    rw [if_pos rfl, appendRow_eq, if_neg (fun h => h.1 hc)] at ho
    rw [hst]
    exact ⟨_, ho⟩

end Burn

section Claim

variable (setup : Setup) (proto : Proto.Event) (tenantId operatorId : String) (start : State)

theorem idempotentUnderRedelivery_iff :
    IdempotentUnderRedelivery setup (received setup.codec proto tenantId operatorId) start ↔
      ¬ (Fresh start (received setup.codec proto tenantId operatorId) ∧
        (editsMessage (received setup.codec proto tenantId operatorId) start.tables = true ∨
          (proto.conversationId ≠ "" ∧
            burnsMessage (received setup.codec proto tenantId operatorId) start.tables = true))) := by
  generalize hevent : received setup.codec proto tenantId operatorId = event
  have hconversation : proto.conversationId = event.conversationId := by
    rw [← hevent]
    rfl
  rw [hconversation]
  constructor
  · rintro hidempotent ⟨hfresh, hedits | ⟨hconversation, hburns⟩⟩
    · rw [editsMessage] at hedits
      split at hedits
      · rename_i edit hpayload
        exact not_idempotent_edit hfresh hpayload hedits hidempotent
      · cases hedits
    · obtain ⟨payload, hpayload, hburn⟩ := payload_of_burnsMessage hburns
      obtain ⟨messageId, update, records, hburning⟩ := exists_burning setup hpayload hburn
      exact hburning.not_idempotent hfresh hburns hconversation hidempotent
  · intro hexcept
    by_cases hfresh : Fresh start event
    · by_cases hedit : ∃ edit, event.payload = some (.edit edit)
      · obtain ⟨edit, hpayload⟩ := hedit
        refine idempotent_of_unchanged fun answers => processEvent_fst_of_plan hfresh ?_
        have hmissing : ¬ (findEdited event.tenantId edit.serverMsgId
            start.tables.messages).isSome = true := fun hfound =>
          hexcept ⟨hfresh, Or.inl (by rw [editsMessage, hpayload]; exact hfound)⟩
        simp only [dispatch, plan, hpayload, applyEdit, if_neg hmissing]
      · by_cases hburn : ∃ payload, event.payload = some payload ∧
            EventApplication.isBurn payload = true
        · obtain ⟨payload, hpayload, hburn⟩ := hburn
          obtain ⟨messageId, update, records, hburning⟩ := exists_burning setup hpayload hburn
          cases hburns : burnsMessage event start.tables with
          | false => exact idempotent_of_unchanged (hburning.processEvent_of_idle hburns)
          | true =>
            refine hburning.idempotent_of_blank hfresh hburns ?_
            by_contra hconversation
            exact hexcept ⟨hfresh, Or.inr ⟨hconversation, hburns⟩⟩
        · refine idempotent_of_steady (steady_of_received hevent.symm
            (fun edit hpayload => hedit ⟨edit, hpayload⟩) fun payload hpayload => ?_)
          by_contra hisBurn
          exact hburn ⟨payload, hpayload, by simpa using hisBurn⟩
    · exact idempotent_of_unchanged fun answers => processEvent_of_not_fresh hfresh

end Claim

section Sample

-- Two texts with their bytes.
def sampleContents : List (MessageContent × List UInt8) :=
  [({ content := some (.text "hi") }, [0x0a, 4, 0x0a, 2, 0x68, 0x69]),
    ({ content := some (.text "ho") }, [0x0a, 4, 0x0a, 2, 0x68, 0x6f])]

def sampleSetup : Setup where
  codec := { EventApplication.sampleCodec with
    content := {
      encode := fun content => ((sampleContents.find? (·.1 = content)).map (·.2)).getD []
      decode := fun bytes => (sampleContents.find? (·.2 = bytes)).map (·.1) } }
  represents _ := true
  sharedStateOk _ := true

def sampleMessage : MessageRow where
  tenantId := "acme"
  serverId := "m1"
  clientMsgId := some "c1"
  status := MESSAGE_STATUS_SENT
  content := [0x0a, 4, 0x0a, 2, 0x68, 0x65]
  extra := some []
  burn := ⟨false, 0, none⟩
  burnAfterReadSeconds := none
  firstReadAt := none
  burnAt := none
  offlinePushInfo := none
  extensions := []

def sampleState : State where
  tables := {
    messages := [sampleMessage]
    editHistory := []
    visibility := fun _ => none
    reads := fun _ => none
    reactions := fun _ => none
    pins := fun _ => none
    marks := fun _ => none
    pluginStates := fun _ => none
    bindings := []
    lifecycleOutbox := fun _ => none }
  rows _ := none

def aliceEdit : Proto.Event where
  conversationId := "2-team"
  conversationSeq := 7
  type := .known .eventMessageEdit
  eventId := "e7"
  payload := some (.edit { serverMsgId := "m1", newContent := some { content := some (.text "hi") } })

-- Alice's edit fails after it is made and is delivered again: two lines of the edit history.
theorem interrupted_edit_made_twice :
    ¬ IdempotentUnderRedelivery sampleSetup (received sampleSetup.codec aliceEdit "acme" "alice")
      sampleState :=
  not_idempotent_edit ⟨by decide, rfl⟩ rfl (by decide)

end Sample

end FlareIm.OperationStore
