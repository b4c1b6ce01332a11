import FlareIm.OperationStore.Redelivery
import Mathlib.Data.List.FinRange

namespace FlareIm.OperationStore

open Proto EventRow RoundTrip Repeats

open EventApplication (Position putRow)

section Runs

-- The payload is an edit, a reaction, a pin or an unpin of the message.
def OperatesOn (messageId : String) : Option EventPayload → Prop
  | some (.edit edit) => edit.serverMsgId = messageId
  | some (.reaction reaction) => reaction.serverMsgId = messageId
  | some (.pin pin) => pin.serverMsgId = messageId
  | some (.unpin unpin) => unpin.serverMsgId = messageId
  | _ => False

-- The operations on one message, in the order of their sequence numbers.
structure MessageOperations where
  tenantId : String
  conversationId : String
  messageId : String
  events : List EventRow.Event
  distinct : events.Pairwise (·.seq < ·.seq)
  bounded : ∀ event ∈ events, event.seq < 2 ^ 64
  tenant : ∀ event ∈ events, event.tenantId = tenantId
  conversation : ∀ event ∈ events, event.conversationId = conversationId
  operates : ∀ event ∈ events, OperatesOn messageId event.payload

variable (setup : Setup) (operations : MessageOperations)

abbrev Index := Fin operations.events.length

variable {operations} in
def eventAt (index : Index operations) : EventRow.Event :=
  operations.events.get index

-- The update of an operation. An edit of a message that is not there makes none.
def operationStatement (event : EventRow.Event) : Statement :=
  match event.payload with
  | some (.edit edit) => editStatement setup event edit
  | some (.reaction reaction) => reactionStatement event reaction
  | some (.pin pin) => pinStatement setup event pin
  | some (.unpin unpin) => unpinStatement event unpin
  | _ => ⟨id, false⟩

-- The row an operation writes: that of the message, a reaction's or a pin's.
inductive Target where
  | content
  | reaction (key : ReactionKey)
  | pin (key : PinKey)
  deriving DecidableEq

def target (event : EventRow.Event) : Target :=
  match event.payload with
  | some (.reaction reaction) => .reaction (reactionKey event reaction)
  | some (.pin pin) => .pin
      (pinKey event.tenantId pin.serverMsgId event.conversationId pin.pinnedBy pin.scope)
  | some (.unpin unpin) => .pin
      (pinKey event.tenantId unpin.serverMsgId event.conversationId unpin.unpinnedBy unpin.scope)
  | _ => .content

-- The delivery makes the update of its event.
def executes (answers : Answers) (state : State) (event : EventRow.Event) : Bool :=
  decide (event.tenantId ≠ "" ∧ stored state event = none) &&
    (answers.checked || event.conversationId == "") && (answers.outcomes 0).takesEffect

-- A state with the operations that were executed so far, the last of them last, and those whose
-- delivery returned Ok.
structure Run where
  state : State
  executed : List (Index operations)
  acked : List (Index operations)

def Run.begin (start : State) : Run operations :=
  ⟨start, [], []⟩

structure Delivery where
  index : Index operations
  answers : Answers := {}

variable {operations}

def Run.deliver (run : Run operations) (delivery : Delivery operations) : Run operations :=
  let event := eventAt delivery.index
  let result := processEvent setup delivery.answers run.state event
  { state := result.1
    executed :=
      if executes delivery.answers run.state event then run.executed ++ [delivery.index]
      else run.executed
    acked :=
      match result.2 with
      | .ok () => delivery.index :: run.acked
      | .error _ => run.acked }

def Run.deliverAll (run : Run operations) (deliveries : List (Delivery operations)) :
    Run operations :=
  deliveries.foldl (Run.deliver setup) run

-- No operation is executed after one of a later sequence number that writes the same row.
def InOrder (run : Run operations) : List (Delivery operations) → Prop
  | [] => True
  | delivery :: deliveries =>
    (executes delivery.answers run.state (eventAt delivery.index) = true →
      ∀ earlier ∈ run.executed,
        target (eventAt earlier) = target (eventAt delivery.index) →
          earlier ≤ delivery.index) ∧
    InOrder (run.deliver setup delivery) deliveries

variable (operations)

-- Every operation once, in the order of the sequence numbers.
def inSequence (start : State) : Run operations :=
  (Run.begin operations start).deliverAll setup ((List.finRange _).map fun index => ⟨index, {}⟩)

-- The contents of the messages, and the reactions and the pins, are the same.
def SameRows (tables other : Tables) : Prop :=
  tables.messages.map (·.content) = other.messages.map (·.content) ∧
    tables.reactions = other.reactions ∧ tables.pins = other.pins

end Runs

section Delivery

variable {setup : Setup} {answers : Answers} {state : State} {event : EventRow.Event}
  {messageId : String}

variable (setup) in
theorem plan_operation (ho : OperatesOn messageId event.payload) (now : Int) (tables : Tables) :
    plan setup now tables event = .run [operationStatement setup event] true ∨
      ((∃ error, plan setup now tables event = .refuse error) ∧
        (operationStatement setup event).run tables = tables) := by
  cases hp : event.payload with
  | none =>
    rw [hp] at ho
    cases ho
  | some payload =>
    rw [hp] at ho
    cases payload with
    | edit edit =>
      cases hf : findEdited event.tenantId edit.serverMsgId tables.messages with
      | some found =>
        left
        simp [plan, hp, applyEdit, operationStatement, hf]
      | none =>
        right
        simp [plan, hp, applyEdit, operationStatement, hf, editStatement, updateMessageContent]
    | reaction reaction =>
      left
      simp [plan, hp, applyReaction, operationStatement]
    | pin pin =>
      left
      simp [plan, hp, applyPin, operationStatement]
    | unpin unpin =>
      left
      simp [plan, hp, applyUnpin, operationStatement]
    | _ => cases ho

theorem operationStatement_kept (event : EventRow.Event) :
    (operationStatement setup event).swallowed = false := by
  rw [operationStatement]
  split <;> rfl

theorem fresh_of_executes (hee : executes answers state event = true) :
    Fresh state event ∧ (answers.checked = true ∨ event.conversationId = "") ∧
      (answers.outcomes 0).takesEffect = true := by
  simp only [executes, Bool.and_eq_true, decide_eq_true_eq, Bool.or_eq_true, beq_iff_eq] at hee
  exact ⟨hee.1.1, hee.1.2, hee.2⟩

theorem executes_of_fresh (hf : Fresh state event)
    (hr : answers.checked = true ∨ event.conversationId = "")
    (hef : (answers.outcomes 0).takesEffect = true) : executes answers state event = true := by
  simp only [executes, Bool.and_eq_true, decide_eq_true_eq, Bool.or_eq_true, beq_iff_eq]
  exact ⟨⟨hf, hr⟩, hef⟩

variable (setup) in
theorem processEvent_of_executes (ho : OperatesOn messageId event.payload)
    (hee : executes answers state event = true) :
    (processEvent setup answers state event).1.tables =
        (operationStatement setup event).run state.tables ∧
      ((processEvent setup answers state event).1.rows = state.rows ∨
        (processEvent setup answers state event).1.rows =
          putRow state.rows (eventPosition event) (some (storedAs setup.codec event))) := by
  obtain ⟨hf, hr, hef⟩ := fresh_of_executes hee
  rw [processEvent_of_fresh setup hf hr]
  rcases plan_operation setup ho answers.now state.tables with
    hp | ⟨⟨error, hp⟩, hs⟩
  · rw [dispatch_of_run hp, passed_singleton, taken, hef, if_pos rfl]
    simp only [if_true]
    split
    · rw [appendEventAndStream, appendRow_eq]
      split
      · exact ⟨rfl, Or.inl rfl⟩
      · split
        · exact ⟨rfl, Or.inr rfl⟩
        · exact ⟨rfl, Or.inl rfl⟩
    · exact ⟨rfl, Or.inl rfl⟩
  · rw [dispatch, hp]
    exact ⟨hs.symm, Or.inl rfl⟩

variable (setup) in
theorem processEvent_of_not_executes (ho : OperatesOn messageId event.payload)
    (hee : executes answers state event = false) :
    (processEvent setup answers state event).1 = state ∧
      ((processEvent setup answers state event).2 = .ok () → stored state event ≠ none) := by
  by_cases hf : Fresh state event
  · by_cases hr : answers.checked = true ∨ event.conversationId = ""
    · have hfa : answers.outcomes 0 = .failed := by
        by_contra hfa
        rw [executes_of_fresh hf hr (Outcome.takesEffect_eq_true.mpr hfa)] at hee
        cases hee
      rw [processEvent_of_fresh setup hf hr]
      rcases plan_operation setup ho answers.now state.tables with
        hp | ⟨⟨error, hp⟩, -⟩
      · rw [dispatch, hp]
        simp [runStatements, hfa, operationStatement_kept]
      · rw [dispatch, hp]
        simp
    · obtain ⟨error, hpr⟩ := processEvent_of_unchecked setup state hr
      rw [hpr]
      simp
  · refine ⟨processEvent_of_not_fresh hf, fun hok hn => ?_⟩
    have ht : event.tenantId = "" := by
      by_contra ht
      exact hf ⟨ht, hn⟩
    simp [processEvent, ht] at hok

end Delivery

section Views

variable {setup : Setup}

-- The ids an edit finds its message by, and what it overwrites.
structure Ids where
  tenantId : String
  serverId : String
  clientMsgId : Option String

def MessageRow.ids (row : MessageRow) : Ids :=
  ⟨row.tenantId, row.serverId, row.clientMsgId⟩

def contents (tables : Tables) : List (Ids × List UInt8) :=
  tables.messages.map fun row => (row.ids, row.content)

def editContents (tenantId messageId : String) (newContent : List UInt8)
    (rows : List (Ids × List UInt8)) : List (Ids × List UInt8) :=
  let found := (rows.map Prod.fst).find? fun ids =>
    ids.tenantId == tenantId && (ids.serverId == messageId || ids.clientMsgId == some messageId)
  match found with
  | none => rows
  | some found => rows.map fun row =>
    if row.1.tenantId == tenantId && row.1.serverId == found.serverId then (row.1, newContent)
    else row

theorem contents_updateMessageContent (tenantId messageId : String) (newContent : List UInt8)
    (editorId : String) (reason contentText : Option String) (tables : Tables) :
    contents (updateMessageContent tenantId messageId newContent editorId reason contentText tables) =
      editContents tenantId messageId newContent (contents tables) := by
  have hf : ((contents tables).map Prod.fst).find? (fun ids =>
      ids.tenantId == tenantId && (ids.serverId == messageId || ids.clientMsgId == some messageId)) =
      (findEdited tenantId messageId tables.messages).map MessageRow.ids := by
    rw [contents, List.map_map, show Prod.fst ∘ _ = MessageRow.ids from rfl, List.find?_map]
    rfl
  rw [editContents, hf, updateMessageContent]
  cases findEdited tenantId messageId tables.messages with
  | none => rfl
  | some found =>
    simp only [contents, List.map_map, Option.map_some]
    apply List.map_congr_left
    intro row _
    simp only [Function.comp_apply]
    by_cases hm : hasServerId tenantId found.serverId row = true
    · rw [if_pos hm]
      exact (if_pos hm).symm
    · rw [if_neg hm]
      exact (if_neg hm).symm

theorem map_fst_editContents (tenantId messageId : String) (newContent : List UInt8)
    (rows : List (Ids × List UInt8)) :
    (editContents tenantId messageId newContent rows).map Prod.fst = rows.map Prod.fst := by
  simp only [editContents]
  split
  · rfl
  · rw [List.map_map]
    apply List.map_congr_left
    intro row _
    simp only [Function.comp_apply]
    split <;> rfl

theorem editContents_editContents (tenantId messageId : String) (newContent : List UInt8)
    (rows : List (Ids × List UInt8)) :
    editContents tenantId messageId newContent (editContents tenantId messageId newContent rows) =
      editContents tenantId messageId newContent rows := by
  have hfs := map_fst_editContents tenantId messageId newContent rows
  rw [editContents, hfs]
  simp only [editContents]
  cases hf : (rows.map Prod.fst).find? fun ids =>
      ids.tenantId == tenantId && (ids.serverId == messageId || ids.clientMsgId == some messageId) with
  | none => rfl
  | some found =>
    simp only [List.map_map]
    apply List.map_congr_left
    intro row _
    simp only [Function.comp_apply]
    split <;> rfl

variable (setup) in
-- The view shows one target: the operations that write it settle it, and no other shows there.
def Shows {τ : Type} (view : Tables → τ) (shown : Target) : Prop :=
  ∀ event,
    (target event = shown ∧ ∃ after : τ → τ, (∀ rows, after (after rows) = after rows) ∧
      ∀ tables, view ((operationStatement setup event).run tables) = after (view tables)) ∨
    ∀ tables, view ((operationStatement setup event).run tables) = view tables

variable (setup) in
theorem shows_contents : Shows setup contents .content := by
  intro event
  cases hp : event.payload with
  | none => exact Or.inr fun tables => by simp [operationStatement, hp]
  | some payload =>
    cases payload with
    | edit edit =>
      refine Or.inl ⟨by simp only [target, hp], _,
        editContents_editContents event.tenantId edit.serverMsgId edit.newContent, fun tables => ?_⟩
      simp only [operationStatement, hp]
      exact contents_updateMessageContent _ _ _ _ _ _ tables
    | _ =>
      right
      intro tables
      simp only [operationStatement, hp]
      rfl

theorem reactions_updateMessageContent (tenantId messageId : String) (newContent : List UInt8)
    (editorId : String) (reason contentText : Option String) (tables : Tables) :
    (updateMessageContent tenantId messageId newContent editorId reason contentText
        tables).reactions = tables.reactions ∧
      (updateMessageContent tenantId messageId newContent editorId reason contentText tables).pins =
        tables.pins := by
  rw [updateMessageContent]
  split <;> exact ⟨rfl, rfl⟩

theorem shows_reaction (key : ReactionKey) :
    Shows setup (fun tables => tables.reactions key) (.reaction key) := by
  intro event
  cases hp : event.payload with
  | none => exact Or.inr fun tables => by simp [operationStatement, hp]
  | some payload =>
    cases payload with
    | reaction reaction =>
      by_cases hk : reactionKey event reaction = key
      · refine Or.inl ⟨by simp only [target, hp, hk], _,
          reactionAfter_reactionAfter reaction.userId (reaction.action == REACTION_ACTION_ADD),
          fun tables => ?_⟩
        simp [operationStatement, hp, reactionStatement, upsertMessageReaction, hk]
      · right
        intro tables
        simp [operationStatement, hp, reactionStatement, upsertMessageReaction,
          Function.update_of_ne (Ne.symm hk)]
    | edit edit =>
      right
      intro tables
      simp only [operationStatement, hp]
      exact congrFun (reactions_updateMessageContent _ _ _ _ _ _ tables).1 key
    | _ =>
      right
      intro tables
      simp only [operationStatement, hp]
      rfl

theorem pins_pinMessage (key other : PinKey) (row : Option PinRow) (tables : Tables) :
    (pinMessage key row tables).pins other = if key = other then row else tables.pins other := by
  by_cases hk : key = other
  · simp [pinMessage, hk]
  · simp [pinMessage, hk, Function.update_of_ne (Ne.symm hk)]

theorem shows_pin (key : PinKey) : Shows setup (fun tables => tables.pins key) (.pin key) := by
  intro event
  -- a pin and an unpin write the row whatever it was
  have hw : ∀ (written : PinKey) (row : Option PinRow), target event = .pin written →
      (operationStatement setup event).run = pinMessage written row →
      (target event = .pin key ∧ ∃ after : Option PinRow → Option PinRow,
        (∀ rows, after (after rows) = after rows) ∧
        ∀ tables, ((operationStatement setup event).run tables).pins key = after (tables.pins key)) ∨
      ∀ tables, ((operationStatement setup event).run tables).pins key = tables.pins key := by
    intro written row ht hr
    by_cases hk : written = key
    · refine Or.inl ⟨by rw [ht, hk], fun _ => row, fun _ => rfl, fun tables => ?_⟩
      rw [hr, pins_pinMessage, if_pos hk]
    · refine Or.inr fun tables => ?_
      rw [hr, pins_pinMessage, if_neg hk]
  cases hp : event.payload with
  | none => exact Or.inr fun tables => by simp [operationStatement, hp]
  | some payload =>
    cases payload with
    | pin pin =>
      refine hw (pinKey event.tenantId pin.serverMsgId event.conversationId pin.pinnedBy pin.scope)
        (some ⟨pin.pinnedBy, pin.expireAt.bind (timestampToDatetime setup),
          pin.reason.filter (· ≠ "")⟩)
        (by simp only [target, hp]) ?_
      simp only [operationStatement, hp]
      rfl
    | unpin unpin =>
      refine hw
        (pinKey event.tenantId unpin.serverMsgId event.conversationId unpin.unpinnedBy unpin.scope)
        none (by simp only [target, hp]) ?_
      simp only [operationStatement, hp]
      rfl
    | edit edit =>
      right
      intro tables
      simp only [operationStatement, hp]
      exact congrFun (reactions_updateMessageContent _ _ _ _ _ _ tables).2 key
    | _ =>
      right
      intro tables
      simp only [operationStatement, hp]
      rfl

variable (setup) in
def act (operations : MessageOperations) (tables : Tables) (index : Index operations) : Tables :=
  (operationStatement setup (eventAt index)).run tables

variable {operations : MessageOperations} {τ : Type} {view : Tables → τ} {shown : Target}

theorem viewed_of_shows (hs : Shows setup view shown) : Viewed (act setup operations) view where
  congr index tables other hsa := by
    rcases hs (eventAt index) with ⟨-, after, -, hv⟩ | hv <;> rw [act, act, hv, hv, hsa]
  idempotent index tables := by
    rcases hs (eventAt index) with ⟨-, after, ha, hv⟩ | hv
    · rw [act, act, hv, hv, ha]
    · rw [act, hv]

theorem view_act_of_other (hs : Shows setup view shown) {index : Index operations}
    (ho : target (eventAt index) ≠ shown) (tables : Tables) :
    view (act setup operations tables index) = view tables := by
  rcases hs (eventAt index) with ⟨ht, -⟩ | hv
  · exact absurd ht ho
  · exact hv tables

-- Two logs with the same operations show the same, the one with repetitions and in order for each
-- target, the other in order.
theorem view_foldl_act (hs : Shows setup view shown) {log once : List (Index operations)}
    (hl : log.Pairwise fun a b => target (eventAt a) = target (eventAt b) → a ≤ b)
    (hon : once.Pairwise (· < ·)) (hm : ∀ index, index ∈ log ↔ index ∈ once) (tables : Tables) :
    view (log.foldl (act setup operations) tables) =
      view (once.foldl (act setup operations) tables) := by
  let writes := fun index : Index operations => decide (target (eventAt index) = shown)
  have hv := @viewed_of_shows setup operations τ view shown hs
  have ho : ∀ index tables, writes index = false →
      view (act setup operations tables index) = view tables := fun index tables hw =>
    view_act_of_other hs (of_decide_eq_false hw) tables
  rw [hv.foldl_filter ho log, hv.foldl_filter ho once]
  apply hv.foldl_sorted
  · rw [List.pairwise_filter]
    exact hl.imp fun hle ha hb =>
      hle ((of_decide_eq_true ha).trans (of_decide_eq_true hb).symm)
  · exact hon.filter _
  · intro index
    rw [List.mem_filter, List.mem_filter, hm]

end Views

section Trace

variable {setup : Setup} {operations : MessageOperations} {start : State}

instance (state : State) (event : EventRow.Event) : Decidable (Fresh state event) :=
  inferInstanceAs (Decidable (_ ∧ _))

theorem asI64_injective {m n : Nat} (hm : m < 2 ^ 64) (hn : n < 2 ^ 64)
    (heq : asI64 m = asI64 n) : m = n := by
  simp only [asI64] at heq
  split at heq <;> split at heq <;> omega

theorem eventPosition_injective {index other : Index operations}
    (heq : eventPosition (eventAt index) = eventPosition (eventAt other)) : index = other := by
  have hs : (eventAt index).seq = (eventAt other).seq :=
    asI64_injective (operations.bounded _ (List.get_mem _ _))
      (operations.bounded _ (List.get_mem _ _)) (congrArg Position.seq heq)
  have hdi := List.pairwise_iff_get.mp operations.distinct
  rcases lt_trichotomy index other with hlt | heq | hlt
  · exact absurd hs (Nat.ne_of_lt (hdi index other hlt))
  · exact heq
  · exact absurd hs.symm (Nat.ne_of_lt (hdi other index hlt))

theorem operates_eventAt (index : Index operations) :
    OperatesOn operations.messageId (eventAt index).payload :=
  operations.operates _ (List.get_mem _ _)

theorem stored_of_rows {state after : State} {event : EventRow.Event}
    {stored' : TypeNumber × List UInt8} {position : Position} (ho : eventPosition event ≠ position)
    (hr : after.rows = state.rows ∨ after.rows = putRow state.rows position (some stored')) :
    stored after event = stored state event := by
  rw [stored, stored]
  cases hr with
  | inl hr => rw [hr]
  | inr hr =>
    rw [hr, putRow]
    split
    · rfl
    · split
      · rfl
      · rw [Function.update_of_ne ho]

variable (setup start) in
-- What the deliveries so far have come to: the tables are those of the start with the executed
-- operations made in turn, and all that is stored besides was stored at the start.
structure Traced (run : Run operations) : Prop where
  tables : run.state.tables = run.executed.foldl (act setup operations) start.tables
  fresh : ∀ index ∈ run.executed, Fresh start (eventAt index)
  stored : ∀ index, index ∉ run.executed →
    OperationStore.stored run.state (eventAt index) = OperationStore.stored start (eventAt index)
  acked : ∀ index ∈ run.acked,
    index ∈ run.executed ∨ OperationStore.stored start (eventAt index) ≠ none

theorem stored_deliver (run : Run operations) (delivery : Delivery operations)
    {index : Index operations} (ho : index ≠ delivery.index) :
    stored (run.deliver setup delivery).state (eventAt index) = stored run.state (eventAt index) := by
  cases hee : executes delivery.answers run.state (eventAt delivery.index) with
  | true =>
    have hr := (processEvent_of_executes setup (operates_eventAt delivery.index) hee).2
    exact stored_of_rows (fun heq => ho (eventPosition_injective heq)) hr
  | false =>
    have hs := (processEvent_of_not_executes setup (operates_eventAt delivery.index) hee).1
    rw [Run.deliver, hs]

theorem traced_of_executes {run : Run operations} (htr : Traced setup start run)
    {delivery : Delivery operations}
    (hec : executes delivery.answers run.state (eventAt delivery.index) = true) :
    Traced setup start (run.deliver setup delivery) := by
  obtain ⟨hta, hf, hs, ha⟩ := htr
  have hee : (run.deliver setup delivery).executed = run.executed ++ [delivery.index] := by
    simp only [Run.deliver, hec, if_true]
  constructor
  · rw [hee, List.foldl_append, ← hta]
    exact (processEvent_of_executes setup (operates_eventAt delivery.index) hec).1
  · intro index hin
    rw [hee, List.mem_append, List.mem_singleton] at hin
    cases hin with
    | inl hb => exact hf index hb
    | inr hnw =>
      subst hnw
      by_cases hb : delivery.index ∈ run.executed
      · exact hf _ hb
      · obtain ⟨ht, hn⟩ := (fresh_of_executes hec).1
        exact ⟨ht, hs _ hb ▸ hn⟩
  · intro index hin
    rw [hee, List.mem_append, List.mem_singleton, not_or] at hin
    rw [stored_deliver run delivery hin.2, hs index hin.1]
  · intro index hin
    rw [hee, List.mem_append, List.mem_singleton]
    rw [Run.deliver] at hin
    simp only at hin
    split at hin
    · cases List.mem_cons.mp hin with
      | inl hnw => exact Or.inl (Or.inr hnw)
      | inr hb => exact (ha index hb).imp_left Or.inl
    · exact (ha index hin).imp_left Or.inl

theorem traced_of_not_executes {run : Run operations} (ht : Traced setup start run)
    {delivery : Delivery operations}
    (hec : executes delivery.answers run.state (eventAt delivery.index) = false) :
    Traced setup start (run.deliver setup delivery) := by
  obtain ⟨hta, hf, hst, ha⟩ := ht
  obtain ⟨hsa, hok⟩ := processEvent_of_not_executes setup (operates_eventAt delivery.index) hec
  have hee : (run.deliver setup delivery).executed = run.executed := by
    simp only [Run.deliver, hec, Bool.false_eq_true, if_false]
  have hs : (run.deliver setup delivery).state = run.state := hsa
  constructor
  · rw [hee, hs, hta]
  · rwa [hee]
  · rwa [hee, hs]
  · intro index hin
    rw [hee]
    rw [Run.deliver] at hin
    simp only at hin
    split at hin
    · rename_i hr
      cases List.mem_cons.mp hin with
      | inl hn =>
        subst hn
        by_cases hb : delivery.index ∈ run.executed
        · exact Or.inl hb
        · exact Or.inr (hst _ hb ▸ hok hr)
      | inr hb => exact ha index hb
    · exact ha index hin

theorem traced_deliver {run : Run operations} (ht : Traced setup start run)
    (delivery : Delivery operations) : Traced setup start (run.deliver setup delivery) := by
  cases hee : executes delivery.answers run.state (eventAt delivery.index) with
  | true => exact traced_of_executes ht hee
  | false => exact traced_of_not_executes ht hee

theorem traced_begin : Traced setup start (Run.begin operations start) where
  tables := rfl
  fresh _ hin := absurd hin List.not_mem_nil
  stored _ _ := rfl
  acked _ hin := absurd hin List.not_mem_nil

theorem traced_deliverAll {run : Run operations} (ht : Traced setup start run)
    (deliveries : List (Delivery operations)) :
    Traced setup start (run.deliverAll setup deliveries) := by
  induction deliveries generalizing run with
  | nil => exact ht
  | cons delivery deliveries ih => exact ih (traced_deliver ht delivery)

theorem ordered_deliverAll {run : Run operations}
    (hr : run.executed.Pairwise fun a b => target (eventAt a) = target (eventAt b) → a ≤ b)
    {deliveries : List (Delivery operations)} (ho : InOrder setup run deliveries) :
    (run.deliverAll setup deliveries).executed.Pairwise
      fun a b => target (eventAt a) = target (eventAt b) → a ≤ b := by
  induction deliveries generalizing run with
  | nil => exact hr
  | cons delivery deliveries ih =>
    obtain ⟨hl, hre⟩ := ho
    refine ih ?_ hre
    simp only [Run.deliver]
    split
    · rename_i hee
      rw [List.pairwise_append]
      refine ⟨hr, List.pairwise_singleton _ _, fun earlier hea index hin => ?_⟩
      rw [List.mem_singleton.mp hin]
      exact hl hee earlier hea
    · exact hr

theorem executed_deliverAll_once {run : Run operations} {indices : List (Index operations)}
    (hn : indices.Nodup)
    (hs : ∀ index ∈ indices, stored run.state (eventAt index) = stored start (eventAt index)) :
    (run.deliverAll setup (indices.map fun index => ⟨index, {}⟩)).executed =
      run.executed ++ indices.filter fun index => decide (Fresh start (eventAt index)) := by
  induction indices generalizing run with
  | nil => simp [Run.deliverAll]
  | cons index indices ih =>
    obtain ⟨hnw, hn⟩ := List.nodup_cons.mp hn
    have hee : executes {} run.state (eventAt index) =
        decide (Fresh start (eventAt index)) := by
      rw [Bool.eq_iff_iff]
      rw [decide_eq_true_eq]
      simp [executes, Fresh, hs index List.mem_cons_self]
    have hoh : ∀ other ∈ indices, stored (run.deliver setup ⟨index, {}⟩).state (eventAt other) =
          stored start (eventAt other) := by
      intro other ho
      have hne : other ≠ index := fun heq => hnw (heq ▸ ho)
      rw [stored_deliver run ⟨index, {}⟩ hne]
      exact hs other (List.mem_cons_of_mem index ho)
    have hr := ih hn hoh
    rw [List.map_cons, Run.deliverAll, List.foldl_cons]
    rw [Run.deliverAll] at hr
    rw [hr, Run.deliver, hee]
    by_cases hf : Fresh start (eventAt index) <;> simp [hf]

theorem executed_inSequence : (inSequence setup operations start).executed =
      (List.finRange _).filter fun index => decide (Fresh start (eventAt index)) := by
  rw [inSequence, executed_deliverAll_once (List.nodup_finRange _) fun _ _ => rfl]
  rfl

end Trace

section Claim

variable (setup : Setup) (operations : MessageOperations) (start : State)
  (deliveries : List (Delivery operations))

theorem sameRows_of_inOrder
    (horder : InOrder setup (Run.begin operations start) deliveries)
    (hacked : ∀ index,
      index ∈ ((Run.begin operations start).deliverAll setup deliveries).acked) :
    SameRows ((Run.begin operations start).deliverAll setup deliveries).state.tables
      (inSequence setup operations start).state.tables := by
  have htraced : Traced setup start ((Run.begin operations start).deliverAll setup deliveries) :=
    traced_deliverAll traced_begin deliveries
  have hreference : Traced setup start (inSequence setup operations start) :=
    traced_deliverAll traced_begin _
  have hbegin : (Run.begin operations start).executed.Pairwise
      fun a b => target (eventAt a) = target (eventAt b) → a ≤ b := List.Pairwise.nil
  have hlog := ordered_deliverAll hbegin horder
  -- what was executed is what was new at the start, in both
  have hmem : ∀ index,
      index ∈ ((Run.begin operations start).deliverAll setup deliveries).executed ↔
        index ∈ (inSequence setup operations start).executed := by
    intro index
    rw [executed_inSequence, List.mem_filter, decide_eq_true_eq]
    constructor
    · exact fun hindex => ⟨List.mem_finRange index, htraced.fresh index hindex⟩
    · rintro ⟨-, hfresh⟩
      exact (htraced.acked index (hacked index)).resolve_right fun hstored => hstored hfresh.2
  have honce : (inSequence setup operations start).executed.Pairwise (· < ·) := by
    rw [executed_inSequence]
    exact (List.pairwise_lt_finRange _).filter _
  rw [htraced.tables, hreference.tables]
  refine ⟨?_, ?_, ?_⟩
  · have hcontents := view_foldl_act (shows_contents setup) hlog honce hmem start.tables
    have hsnd := congrArg (List.map Prod.snd) hcontents
    simpa [contents, Function.comp_def] using hsnd
  · funext key
    exact view_foldl_act (shows_reaction key) hlog honce hmem start.tables
  · funext key
    exact view_foldl_act (shows_pin key) hlog honce hmem start.tables

end Claim

section Sample

def instDecidableInOrder (setup : Setup) {operations : MessageOperations} :
    (run : Run operations) → (deliveries : List (Delivery operations)) →
      Decidable (InOrder setup run deliveries)
  | _, [] => inferInstanceAs (Decidable True)
  | run, delivery :: deliveries =>
    @instDecidableAnd _ _ inferInstance
      (instDecidableInOrder setup (run.deliver setup delivery) deliveries)

instance (setup : Setup) {operations : MessageOperations} (run : Run operations)
    (deliveries : List (Delivery operations)) : Decidable (InOrder setup run deliveries) :=
  instDecidableInOrder setup run deliveries

def sampleEvent (seq : Nat) (type : EventRow.EventType) (payload : EventPayload) :
    EventRow.Event where
  tenantId := "acme"
  conversationId := "2-team"
  seq := seq
  type := type
  operatorId := "alice"
  payload := some payload

-- Two edits of a message, a reaction to it and a pin.
def sampleOperations : MessageOperations where
  tenantId := "acme"
  conversationId := "2-team"
  messageId := "m1"
  events := [
    sampleEvent 7 .messageEdit (.edit ⟨"m1", [0x0a, 4, 0x0a, 2, 0x68, 0x69], "", true⟩),
    sampleEvent 8 .messageEdit (.edit ⟨"m1", [0x0a, 4, 0x0a, 2, 0x68, 0x6f], "", true⟩),
    sampleEvent 9 .reaction (.reaction ⟨"m1", "alice", "+1", REACTION_ACTION_ADD⟩),
    sampleEvent 10 .pin (.pin ⟨"m1", "alice", none, none, MESSAGE_PIN_SCOPE_SELF⟩)]
  distinct := by decide
  bounded := by decide
  tenant := by decide
  conversation := by decide
  operates event hevent := by
    simp only [List.mem_cons, List.not_mem_nil, or_false] at hevent
    rcases hevent with rfl | rfl | rfl | rfl <;> rfl

def firstEdit : Index sampleOperations := ⟨0, by decide⟩
def secondEdit : Index sampleOperations := ⟨1, by decide⟩
def thumbsUp : Index sampleOperations := ⟨2, by decide⟩
def pinned : Index sampleOperations := ⟨3, by decide⟩

-- The first edit fails after it is made and is made again when the reaction has been.
theorem sameRows_redelivered_edit :
    SameRows
      ((Run.begin sampleOperations sampleState).deliverAll sampleSetup
        [⟨firstEdit, { recorded := false }⟩, ⟨thumbsUp, {}⟩, ⟨firstEdit, {}⟩, ⟨secondEdit, {}⟩,
          ⟨pinned, {}⟩]).state.tables
      (inSequence sampleSetup sampleOperations sampleState).state.tables :=
  sameRows_of_inOrder sampleSetup sampleOperations sampleState _ (by decide +kernel)
    (by decide +kernel)

-- The first edit is refused its look at the stream, the others are made, and then the first is:
-- the message has its content.
theorem late_edit_rolls_back :
    (∀ index, index ∈ ((Run.begin sampleOperations sampleState).deliverAll sampleSetup
      [⟨firstEdit, { checked := false }⟩, ⟨secondEdit, {}⟩, ⟨thumbsUp, {}⟩, ⟨pinned, {}⟩,
        ⟨firstEdit, {}⟩]).acked) ∧
    ¬ SameRows
      ((Run.begin sampleOperations sampleState).deliverAll sampleSetup
        [⟨firstEdit, { checked := false }⟩, ⟨secondEdit, {}⟩, ⟨thumbsUp, {}⟩, ⟨pinned, {}⟩,
          ⟨firstEdit, {}⟩]).state.tables
      (inSequence sampleSetup sampleOperations sampleState).state.tables := by
  refine ⟨by decide +kernel, fun hsame => ?_⟩
  have hcontents := hsame.1
  revert hcontents
  decide +kernel

end Sample

end FlareIm.OperationStore
