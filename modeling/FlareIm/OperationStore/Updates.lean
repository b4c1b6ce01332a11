import FlareIm.Lib.Repeats
import FlareIm.OperationStore

namespace FlareIm.OperationStore

open Proto EventRow Repeats

variable {userIds : List String} {userId : String} {matching : MessageRow → Bool}

theorem settled_nil : Settled ([] : List (Tables → Tables)) where
  idempotent _ hu := absurd hu List.not_mem_nil
  commute := List.Pairwise.nil

theorem settled_singleton {update : Tables → Tables}
    (hie : ∀ tables, update (update tables) = update tables) : Settled [update] where
  idempotent other ho := by
    rw [List.mem_singleton.mp ho]
    exact hie
  commute := List.pairwise_singleton _ _

theorem update_update_self {Key Row : Type*} [DecidableEq Key] {after : Row → Row}
    (ha : ∀ row, after (after row) = after row) (rows : Key → Row) (key : Key) :
    Function.update (Function.update rows key (after (rows key))) key
        (after (Function.update rows key (after (rows key)) key)) =
      Function.update rows key (after (rows key)) := by
  rw [Function.update_self, ha, Function.update_idem]

theorem applyReactionChange_of_absent (count : Int) (ha : userId ∉ userIds) :
    applyReactionChange userIds count userId false = .unchanged := by
  have hr : userIds.any (· == userId) = false := by
    rw [List.any_eq_false]
    intro other ho heu
    exact ha (beq_iff_eq.mp heu ▸ ho)
  simp [applyReactionChange, hr]

theorem applyReactionChange_of_present (count : Int) (hp : userId ∈ userIds) :
    applyReactionChange userIds count userId true = .unchanged := by
  have hr : userIds.any (· == userId) = true :=
    List.any_eq_true.mpr ⟨userId, hp, beq_self_eq_true userId⟩
  simp only [applyReactionChange, hr, if_true]

-- Who has reacted after the change: the user does or does not.
theorem applyReactionChange_update {userIds' : List String} {count count' : Int}
    {add : Bool}
    (hc : applyReactionChange userIds count userId add = .update userIds' count') :
    userId ∈ userIds' ↔ add = true := by
  rw [applyReactionChange] at hc
  cases add with
  | true =>
    simp only [if_true] at hc
    split at hc
    · cases hc
    · obtain ⟨rfl, -⟩ := ReactionChange.update.inj hc
      simp
  | false =>
    simp only [Bool.false_eq_true, if_false] at hc
    split at hc
    · cases hc
    · split at hc
      · obtain ⟨rfl, -⟩ := ReactionChange.update.inj hc
        simp
      · cases hc

theorem applyReactionChange_unchanged {add : Bool}
    (count : Int) (hr : userId ∈ userIds ↔ add = true) :
    applyReactionChange userIds count userId add = .unchanged := by
  cases add with
  | true => exact applyReactionChange_of_present count (hr.mpr rfl)
  | false => exact applyReactionChange_of_absent count fun hm => by simpa using hr.mp hm

theorem reactionAfter_reactionAfter (userId : String) (add : Bool) (row : Option ReactionRow) :
    reactionAfter userId add (reactionAfter userId add row) = reactionAfter userId add row := by
  cases row with
  | none =>
    cases add with
    | true =>
      simp [reactionAfter, applyReactionChange_of_present 1 (List.mem_singleton.mpr rfl)]
    | false => rfl
  | some row =>
    cases hc : applyReactionChange row.userIds row.count userId add with
    | unchanged => simp only [reactionAfter, hc]
    | update userIds count =>
      simp only [reactionAfter, hc]
      rw [applyReactionChange_unchanged count (applyReactionChange_update hc)]
    | delete =>
      -- nothing is deleted by an addition
      have hr : add = false := by
        cases add with
        | false => rfl
        | true =>
          rw [applyReactionChange] at hc
          simp only [if_true] at hc
          split at hc <;> cases hc
      subst hr
      simp only [reactionAfter, hc, Bool.false_eq_true, if_false]

theorem pluginStateAfter_pluginStateAfter (conversationId : String) (state : PluginStateEvent)
    (row : Option PluginStateRow) :
    pluginStateAfter conversationId state (some (pluginStateAfter conversationId state row)) =
      pluginStateAfter conversationId state row := by
  cases row with
  | none => simp [pluginStateAfter]
  | some row =>
    by_cases hh : row.version < state.version ∧ row.pluginId = state.pluginId ∧
        row.entity = state.entity
    · simp [pluginStateAfter, hh]
    · simp only [pluginStateAfter, if_neg hh]

theorem upsertMessagePluginState_idempotent (tenantId conversationId : String)
    (state : PluginStateEvent) (tables : Tables) :
    upsertMessagePluginState tenantId conversationId state
        (upsertMessagePluginState tenantId conversationId state tables) =
      upsertMessagePluginState tenantId conversationId state tables := by
  by_cases hb : isBound tenantId conversationId state tables = true
  · -- the bindings are only read
    have ha : isBound tenantId conversationId state
        (upsertMessagePluginState tenantId conversationId state tables) = true := by
      rw [upsertMessagePluginState, if_pos hb]
      exact hb
    rw [upsertMessagePluginState, if_pos ha, upsertMessagePluginState, if_pos hb]
    simp [pluginStateAfter_pluginStateAfter]
  · simp only [upsertMessagePluginState, if_neg hb]

theorem recordMessageRead_recordMessageRead (key : ReadKey) (tables : Tables) :
    recordMessageRead key (recordMessageRead key tables) = recordMessageRead key tables := by
  simp [recordMessageRead]

theorem recordMessageRead_comm (key other : ReadKey) (tables : Tables) :
    recordMessageRead key (recordMessageRead other tables) =
      recordMessageRead other (recordMessageRead key tables) := by
  by_cases hk : key = other
  · rw [hk]
  · simp only [recordMessageRead, Function.update_of_ne hk, Function.update_of_ne (Ne.symm hk)]
    rw [Function.update_comm hk]

theorem settled_map {ι : Type*} {update : ι → Tables → Tables}
    (hie : ∀ i tables, update i (update i tables) = update i tables)
    (hc : ∀ i j tables, update i (update j tables) = update j (update i tables))
    (list : List ι) : Settled (list.map update) where
  idempotent other ho := by
    obtain ⟨i, -, rfl⟩ := List.mem_map.mp ho
    exact hie i
  commute := List.pairwise_map.mpr (List.pairwise_of_forall fun i j => hc i j)

theorem unmarkMessage_comm (key other : MarkKey) (tables : Tables) :
    unmarkMessage key (unmarkMessage other tables) =
      unmarkMessage other (unmarkMessage key tables) := by
  by_cases hk : key = other
  · rw [hk]
  · simp only [unmarkMessage]
    rw [Function.update_comm hk]

section Status

variable (tenantId messageId : String) (status : Int) (tables : Tables)

theorem updateMessages_of_none (set : MessageRow → MessageRow)
    (hn : tables.messages.any matching = false) : updateMessages matching set tables = tables := by
  rw [List.any_eq_false] at hn
  have hm : tables.messages.map (fun row => if matching row then set row else row) =
      tables.messages := by
    rw [List.map_congr_left fun row hr => if_neg (hn row hr), List.map_id']
  rw [updateMessages, hm]

theorem updateMessages_updateMessages
    {set : MessageRow → MessageRow} (hset : ∀ row, set (set row) = set row) :
    updateMessages matching set (updateMessages matching set tables) =
      updateMessages matching set tables := by
  simp only [updateMessages, List.map_map]
  congr 1
  apply List.map_congr_left
  intro row _
  by_cases hm : matching row = true
  · by_cases ha : matching (set row) = true
    · simp [hm, ha, hset]
    · simp [hm, ha]
  · simp [hm]

theorem any_updateMessages {other : MessageRow → Bool} {set : MessageRow → MessageRow}
    (hk : ∀ row, other (set row) = other row) :
    (updateMessages matching set tables).messages.any other = tables.messages.any other := by
  simp only [updateMessages, List.any_map]
  congr 1
  funext row
  by_cases hm : matching row = true
  · simp [hm, hk]
  · simp [hm]

theorem updateStatusByServerId_idempotent :
    updateStatusByServerId tenantId messageId status
        (updateStatusByServerId tenantId messageId status tables) =
      updateStatusByServerId tenantId messageId status tables :=
  updateMessages_updateMessages tables fun _ => rfl

theorem any_hasServerId_updateMessages :
    (updateMessages matching (fun row => { row with status }) tables).messages.any
        (hasServerId tenantId messageId) =
      tables.messages.any (hasServerId tenantId messageId) :=
  any_updateMessages tables fun _ => rfl

theorem updateStatusByClientMsgId_idempotent :
    updateStatusByClientMsgId tenantId messageId status
        (updateStatusByClientMsgId tenantId messageId status tables) =
      updateStatusByClientMsgId tenantId messageId status tables := by
  by_cases hs : tables.messages.any (hasServerId tenantId messageId) = true
  · simp only [updateStatusByClientMsgId, if_pos hs]
  · simp only [updateStatusByClientMsgId, if_neg hs]
    rw [any_hasServerId_updateMessages, if_neg hs]
    exact updateMessages_updateMessages tables fun _ => rfl

theorem updateStatus_comm :
    updateStatusByServerId tenantId messageId status
        (updateStatusByClientMsgId tenantId messageId status tables) =
      updateStatusByClientMsgId tenantId messageId status
        (updateStatusByServerId tenantId messageId status tables) := by
  by_cases hs : tables.messages.any (hasServerId tenantId messageId) = true
  · simp only [updateStatusByClientMsgId, updateStatusByServerId, any_hasServerId_updateMessages,
      if_pos hs]
  · have hn : tables.messages.any (hasServerId tenantId messageId) = false := by
      simpa using hs
    simp only [updateStatusByClientMsgId, updateStatusByServerId, any_hasServerId_updateMessages,
      if_neg hs]
    rw [updateMessages_of_none tables _ hn, updateMessages_of_none _ _]
    rw [any_hasServerId_updateMessages, hn]

theorem recallBindings_idempotent :
    recallBindings tenantId messageId (recallBindings tenantId messageId tables) =
      recallBindings tenantId messageId tables := by
  have hr : ∀ binding : PluginEntityBinding, isUnrecalledBinding tenantId messageId
        (if isUnrecalledBinding tenantId messageId binding then { binding with recalled := true }
          else binding) = false := by
    intro binding
    by_cases hu : isUnrecalledBinding tenantId messageId binding = true
    · rw [if_pos hu]
      simp [isUnrecalledBinding]
    · rw [if_neg hu]
      simpa using hu
  have hn : (tables.bindings.map fun binding =>
      if isUnrecalledBinding tenantId messageId binding then { binding with recalled := true }
      else binding).filter (isUnrecalledBinding tenantId messageId) = [] := by
    rw [List.filter_eq_nil_iff]
    intro binding hb
    obtain ⟨before, -, rfl⟩ := List.mem_map.mp hb
    simp [hr before]
  simp only [recallBindings, hn, List.find?_nil, Option.map_none, List.map_map]
  congr 1
  · apply List.map_congr_left
    intro binding _
    simp [hr binding]
  · funext key
    simp

theorem updateStatusByClientMsgId_recallBindings :
    updateStatusByClientMsgId tenantId messageId status (recallBindings tenantId messageId tables) =
      recallBindings tenantId messageId
        (updateStatusByClientMsgId tenantId messageId status tables) := by
  by_cases hs : tables.messages.any (hasServerId tenantId messageId) = true
  · rw [updateStatusByClientMsgId, updateStatusByClientMsgId, if_pos hs]
    exact if_pos hs
  · rw [updateStatusByClientMsgId, updateStatusByClientMsgId, if_neg hs]
    exact if_neg hs

theorem settled_updateMessageFsmState (fsmState : String) :
    Settled ((updateMessageFsmState tenantId messageId fsmState).map (·.run)) := by
  rw [updateMessageFsmState]
  split
  · exact settled_nil
  · split
    · simp only [List.map_cons, List.map_nil, List.cons_append, List.nil_append]
      constructor
      · simp only [List.mem_cons, List.not_mem_nil, or_false]
        rintro update (rfl | rfl | rfl) tables
        · exact updateStatusByServerId_idempotent tenantId messageId _ tables
        · exact updateStatusByClientMsgId_idempotent tenantId messageId _ tables
        · exact recallBindings_idempotent tenantId messageId tables
      · simp only [List.pairwise_cons, List.mem_cons, List.not_mem_nil, or_false]
        refine ⟨?_, ?_, by simp, List.Pairwise.nil⟩
        · rintro update (rfl | rfl) tables
          · exact updateStatus_comm tenantId messageId _ tables
          · rfl
        · rintro update rfl tables
          exact updateStatusByClientMsgId_recallBindings tenantId messageId _ tables
    · simp only [List.append_nil, List.map_cons, List.map_nil]
      constructor
      · simp only [List.mem_cons, List.not_mem_nil, or_false]
        rintro update (rfl | rfl) tables
        · exact updateStatusByServerId_idempotent tenantId messageId _ tables
        · exact updateStatusByClientMsgId_idempotent tenantId messageId _ tables
      · simp only [List.pairwise_cons, List.mem_cons, List.not_mem_nil, or_false]
        refine ⟨?_, by simp, List.Pairwise.nil⟩
        rintro update rfl tables
        exact updateStatus_comm tenantId messageId _ tables

end Status

section Content

variable {tenantId messageId : String} {newContent : List UInt8} {editorId : String}
  {reason contentText : Option String} {tables : Tables}

theorem findEdited_isSome {messages : List MessageRow} :
    (findEdited tenantId messageId messages).isSome = messages.any fun row =>
      row.tenantId == tenantId && (row.serverId == messageId || row.clientMsgId == some messageId) := by
  rw [findEdited, List.isSome_find?]

theorem findEdited_updateMessageContent :
    (findEdited tenantId messageId (updateMessageContent tenantId messageId newContent editorId reason
      contentText tables).messages).isSome =
      (findEdited tenantId messageId tables.messages).isSome := by
  rw [updateMessageContent]
  split
  · rfl
  · simp only [findEdited_isSome, List.any_map]
    congr 1
    funext row
    simp only [Function.comp_apply]
    split <;> rfl

theorem editHistory_length_updateMessageContent :
    (updateMessageContent tenantId messageId newContent editorId reason contentText
      tables).editHistory.length = tables.editHistory.length +
        if (findEdited tenantId messageId tables.messages).isSome then 1 else 0 := by
  rw [updateMessageContent]
  split
  · rename_i hf
    simp [hf]
  · rename_i hf
    simp [hf]

end Content

section Burn

variable {tenantId messageId : String} {update : MessageRow → Option MessageRow} {tables : Tables}

theorem updateBurn_of_unchanged (hu : burnChanges tenantId messageId update tables = false) :
    updateBurn tenantId messageId update tables = tables :=
  updateMessages_of_none tables _ hu

-- A retention goes forward: the message it was updated for is not updated so again.
theorem burnChanges_updateBurn (hf : ∀ row row', update row = some row' → update row' = none) :
    burnChanges tenantId messageId update (updateBurn tenantId messageId update tables) = false := by
  rw [burnChanges, List.any_eq_false]
  intro row hr
  obtain ⟨before, -, rfl⟩ := List.mem_map.mp hr
  by_cases hm : burnMatching tenantId messageId update before = true
  · rw [if_pos hm]
    have hs : (update before).isSome = true := by
      rw [burnMatching, Bool.and_eq_true] at hm
      exact hm.2
    obtain ⟨after, ha⟩ := Option.isSome_iff_exists.mp hs
    simp [burnMatching, ha, hf before after ha]
  · rw [if_neg hm]
    exact hm

theorem scheduleMessageBurn_forward {firstReadAt burnAt : Int} (row row' : MessageRow)
    (hr : scheduleMessageBurn firstReadAt burnAt row = some row') :
    scheduleMessageBurn firstReadAt burnAt row' = none := by
  obtain ⟨burn, hb, rfl⟩ := Option.map_eq_some_iff.mp hr
  rw [EventApplication.scheduleMessageBurn] at hb
  split at hb
  · cases hb
    simp [scheduleMessageBurn, EventApplication.scheduleMessageBurn,
      EventApplication.BURN_STATUS_INIT, EventApplication.BURN_STATUS_READ,
      EventApplication.BURN_STATUS_BURN_PENDING]
  · cases hb

theorem markMessageBurned_forward {burnedAt : Int} (row row' : MessageRow)
    (hr : markMessageBurned burnedAt row = some row') : markMessageBurned burnedAt row' = none := by
  obtain ⟨burn, hb, rfl⟩ := Option.map_eq_some_iff.mp hr
  rw [EventApplication.markMessageBurned] at hb
  split at hb
  · cases hb
    simp [markMessageBurned, clearContent, EventApplication.markMessageBurned,
      EventApplication.BURN_STATUS_BURNED, EventApplication.BURN_STATUS_BURN_PENDING]
  · cases hb

theorem markMessageHardDeleted_forward (row row' : MessageRow)
    (hr : markMessageHardDeleted row = some row') : markMessageHardDeleted row' = none := by
  obtain ⟨burn, hb, rfl⟩ := Option.map_eq_some_iff.mp hr
  rw [EventApplication.markMessageHardDeleted] at hb
  split at hb
  · cases hb
    simp [markMessageHardDeleted, clearContent, EventApplication.markMessageHardDeleted,
      EventApplication.BURN_STATUS_BURNED, EventApplication.BURN_STATUS_BURN_PENDING,
      EventApplication.BURN_STATUS_HARD_DELETED]
  · cases hb

end Burn

end FlareIm.OperationStore
