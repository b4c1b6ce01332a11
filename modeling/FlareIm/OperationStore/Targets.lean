import FlareIm.OperationStore.LateDelivery

namespace FlareIm.OperationStore

open Proto EventRow RoundTrip Repeats

section Reach

variable {tenantId messageId : String}

-- The rows an update of the status may be for: that of the server id, and when there is none,
-- those of the client id.
def IsTarget (tenantId messageId : String) (messages : List MessageRow) (row : MessageRow) : Prop :=
  row.tenantId = tenantId ∧ (row.serverId = messageId ∨
    (row.clientMsgId = some messageId ∧
      ∀ other ∈ messages, other.tenantId = tenantId → other.serverId ≠ messageId))

-- Row by row, the tables differ in the status of targets alone.
def Spares (tenantId messageId : String) (start after : List MessageRow) : Prop :=
  List.Forall₂ (fun row row' => ∃ status, row' = { row with status } ∧
    (IsTarget tenantId messageId start row ∨ status = row.status)) start after

theorem spares_self (messages : List MessageRow) : Spares tenantId messageId messages messages :=
  List.forall₂_same.mpr fun row _ => ⟨row.status, rfl, .inr rfl⟩

theorem Spares.any_hasServerId {start after : List MessageRow}
    (hs : Spares tenantId messageId start after) :
    after.any (hasServerId tenantId messageId) = start.any (hasServerId tenantId messageId) := by
  have hids : after.map (hasServerId tenantId messageId) =
      start.map (hasServerId tenantId messageId) := by
    unfold Spares at hs
    generalize hst : IsTarget tenantId messageId start = target at hs
    clear hst
    induction hs with
    | nil => rfl
    | cons hr _ ih =>
      obtain ⟨status, rfl, -⟩ := hr
      rw [List.map_cons, List.map_cons, ih]
      rfl
  have ha := congrArg (·.any id) hids
  simpa only [List.any_map, Function.id_comp] using ha

theorem Spares.updateMessages {start : List MessageRow} {tables : Tables}
    (hs : Spares tenantId messageId start tables.messages) {matching : MessageRow → Bool}
    {status : Int} (hm : ∀ row before,
      matching { row with status := before } = true → IsTarget tenantId messageId start row) :
    Spares tenantId messageId start
      (updateMessages matching (fun row => { row with status }) tables).messages := by
  rw [OperationStore.updateMessages, Spares, List.forall₂_map_right_iff]
  refine hs.imp fun row row' hr => ?_
  obtain ⟨before, rfl, hb⟩ := hr
  cases hma : matching { row with status := before } with
  | true => exact ⟨status, by simp, .inl (hm row before hma)⟩
  | false => exact ⟨before, by simp, hb⟩

theorem Spares.byServerId {start : List MessageRow} {tables : Tables} (status : Int)
    (hs : Spares tenantId messageId start tables.messages) : Spares tenantId messageId start
      (updateStatusByServerId tenantId messageId status tables).messages := by
  refine hs.updateMessages fun row before hm => ?_
  rw [hasServerId, Bool.and_eq_true, beq_iff_eq, beq_iff_eq] at hm
  exact ⟨hm.1, .inl hm.2⟩

theorem Spares.byClientMsgId {start : List MessageRow} {tables : Tables} (status : Int)
    (hs : Spares tenantId messageId start tables.messages) : Spares tenantId messageId start
      (updateStatusByClientMsgId tenantId messageId status tables).messages := by
  rw [updateStatusByClientMsgId, hs.any_hasServerId]
  split
  · exact hs
  · rename_i hn
    refine hs.updateMessages fun row before hm => ?_
    rw [hasClientMsgId] at hm
    simp only [Bool.and_eq_true, beq_iff_eq] at hm
    refine ⟨hm.1.1, .inr ⟨hm.1.2, fun other ho ht hse => hn ?_⟩⟩
    exact List.any_eq_true.mpr ⟨other, ho, by simp [hasServerId, ht, hse]⟩

end Reach

section Events

variable {setup : Setup} {event : EventRow.Event} {start : State} {messageId : String}

-- The message a recall or a delete is about.
def targetMessage : EventPayload → Option String
  | .recall «recall» => some recall.serverMsgId
  | .delete delete => some delete.serverMsgId
  | _ => none

theorem spares_passed {statements : List Statement} {marks : Nat → Bool} {tenantId : String}
    {messages : List MessageRow}
    (hk : ∀ statement ∈ statements, ∀ tables, Spares tenantId messageId messages tables.messages →
        Spares tenantId messageId messages (statement.run tables).messages)
    {tables : Tables} (hs : Spares tenantId messageId messages tables.messages) :
    Spares tenantId messageId messages (passed statements marks tables).messages := by
  induction statements generalizing marks tables with
  | nil => exact hs
  | cons statement statements ih =>
    rw [passed, List.map_cons, passOver]
    apply ih fun other ho => hk other (List.mem_cons_of_mem statement ho)
    cases marks 0 with
    | false => exact hs
    | true => exact hk statement List.mem_cons_self tables hs

theorem updateMessageFsmState_spares {tenantId fsmState : String} {messages : List MessageRow} :
    ∀ statement ∈ updateMessageFsmState tenantId messageId fsmState, ∀ tables,
      Spares tenantId messageId messages tables.messages →
        Spares tenantId messageId messages (statement.run tables).messages := by
  intro statement hs tables hsp
  rw [updateMessageFsmState] at hs
  split at hs
  · exact absurd hs List.not_mem_nil
  · rw [List.mem_append, List.mem_cons, List.mem_singleton] at hs
    rcases hs with (rfl | rfl) | hr
    · exact hsp.byServerId _
    · exact hsp.byClientMsgId _
    · split at hr
      · rw [List.mem_singleton.mp hr]
        exact hsp
      · exact absurd hr List.not_mem_nil

theorem plan_spares (now : Int) (tables : Tables) {payload : EventPayload}
    (hp : event.payload = some payload) (ht : targetMessage payload = some messageId) :
    plan setup now tables event = .acknowledge ∨
      ∃ statements, plan setup now tables event = .run statements true ∧
        ∀ statement ∈ statements, ∀ tables,
          Spares event.tenantId messageId start.tables.messages tables.messages →
            Spares event.tenantId messageId start.tables.messages
              (statement.run tables).messages := by
  cases payload with
  | «recall» «recall» =>
    cases ht
    simp only [plan, hp, applyRecall]
    split
    · exact .inl rfl
    · exact .inr ⟨_, rfl, updateMessageFsmState_spares⟩
  | delete delete =>
    cases ht
    simp only [plan, hp, applyDelete]
    split
    · exact .inl rfl
    · split
      · exact .inr ⟨_, rfl, updateMessageFsmState_spares⟩
      · refine .inr ⟨_, rfl, fun statement hs tables hsp => ?_⟩
        rw [List.mem_singleton.mp hs]
        exact hsp
  | _ => cases ht

-- A recall and a delete, however far they get, leave every row as it was but that of the message
-- or, where no row has the id as its server id, those that have it as their client id. Of these
-- they change the status alone.
theorem operation_spares_others (setup : Setup) (answers : Answers) (start : State)
    (event : EventRow.Event) {payload : EventPayload} (hpayload : event.payload = some payload)
    (htarget : targetMessage payload = some messageId) :
    Spares event.tenantId messageId start.tables.messages
      (processEvent setup answers start event).1.tables.messages := by
  have hself : Spares event.tenantId messageId start.tables.messages start.tables.messages :=
    spares_self start.tables.messages
  by_cases hfresh : Fresh start event
  · by_cases hreaches : answers.checked = true ∨ event.conversationId = ""
    · rw [processEvent_of_fresh setup hfresh hreaches]
      rcases @plan_spares setup event start messageId answers.now start.tables _ hpayload htarget
        with hplan | ⟨statements, hplan, hkeeps⟩
      · rw [dispatch, hplan]
        exact hself
      · have hpassed : Spares event.tenantId messageId start.tables.messages
            (passed statements (taken statements answers.outcomes) start.tables).messages :=
          spares_passed hkeeps hself
        rw [dispatch_of_run hplan]
        simp only
        split
        · rw [if_pos trivial, appendEventAndStream]
          split
          · exact hpassed
          · exact hpassed
        · exact hpassed
    · obtain ⟨error, hprocess⟩ := processEvent_of_unchecked setup start hreaches
      rw [hprocess]
      exact hself
  · rw [processEvent_of_not_fresh hfresh]
    exact hself

end Events

section Sample

def recallOf (messageId : String) : EventRow.Event where
  tenantId := "acme"
  conversationId := "2-team"
  seq := 9
  type := .messageRecall
  operatorId := "alice"
  payload := some (.recall { serverMsgId := messageId })

theorem recall_spares_others : Spares "acme" "m1" sampleState.tables.messages
    (processEvent sampleSetup {} sampleState (recallOf "m1")).1.tables.messages :=
  operation_spares_others sampleSetup {} sampleState (recallOf "m1") rfl rfl

def sampleMessages : State :=
  { sampleState with
    tables := { sampleState.tables with
      messages := [sampleMessage, { sampleMessage with serverId := "m2" }] } }

-- Two messages with one client id: a recall under that id recalls both.
theorem recall_by_client_id_touches_others :
    let after := (processEvent sampleSetup {} sampleMessages (recallOf "c1")).1
    (∀ row ∈ sampleMessages.tables.messages, row.serverId ≠ "c1") ∧
      after.tables.messages.map (fun row => (row.serverId, row.status)) =
        [("m1", MESSAGE_STATUS_RECALLED), ("m2", MESSAGE_STATUS_RECALLED)] := by
  decide +kernel

end Sample

end FlareIm.OperationStore
