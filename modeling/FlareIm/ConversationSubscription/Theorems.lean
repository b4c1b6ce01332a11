import FlareIm.ConversationSubscription

namespace FlareIm.ConversationSubscription

open SetMap

variable {tenantId conversationId connectionId connection : String} {key : ConversationKey}
  {state : SubscriptionState}

theorem mem_step (h : Consistent state) (operation : Operation) :
    connection ∈ elems (step state operation).byConversation key ↔
      if effectiveOn key connection operation then operation.isJoin = true
      else connection ∈ elems state.byConversation key := by
  cases operation with
  | join tenantId conversationId connectionId =>
    by_cases hig : !canonicalTenant tenantId ∨ conversationId = "" ∨ connectionId = ""
    · have hn : effectiveOn key connection (.join tenantId conversationId connectionId) =
          false := by
        simp only [effectiveOn, decide_eq_false_iff_not]
        rintro ⟨-, -, hc, hco, hcn⟩
        simp [hc, hco, hcn] at hig
      rw [step, join_of_ignored hig, hn]
      simp
    · rw [step, mem_join hig]
      simp only [not_or, Bool.not_eq_true', Bool.not_eq_false] at hig
      simp only [effectiveOn, hig, Operation.isJoin, decide_eq_true_eq]
      by_cases hp : key = ⟨tenantId, conversationId⟩ ∧ connection = connectionId
      · simp [hp, hig]
      · simp only [hp, false_or]
        rw [if_neg (fun ha => hp ⟨ha.1, ha.2.1⟩)]
  | leave tenantId conversationId connectionId =>
    by_cases hc : canonicalTenant tenantId
    · rw [step, mem_leave hc]
      by_cases hp : key = ⟨tenantId, conversationId⟩ ∧ connection = connectionId
      · simp [effectiveOn, hp, hc, Operation.isJoin]
      · have hn : effectiveOn key connection (.leave tenantId conversationId connectionId) =
            false := by
          simp only [effectiveOn, decide_eq_false_iff_not]
          exact fun ha => hp ⟨ha.1, ha.2.1⟩
        rw [hn]
        simp [hp]
    · have hs : leave tenantId conversationId connectionId state = state :=
        if_pos (by simpa using hc)
      simp [step, hs, effectiveOn, hc]
  | removeConnection connectionId =>
    rw [step, h.elems_removeConnection, List.mem_filter]
    by_cases hs : connection = connectionId
    · simp [effectiveOn, hs, Operation.isJoin]
    · simp [effectiveOn, hs]

theorem lastEffective_concat (operations : List Operation) (operation : Operation) :
    lastEffective key connection (operations ++ [operation]) =
      if effectiveOn key connection operation then some operation
      else lastEffective key connection operations := by
  unfold lastEffective
  rw [List.filter_append]
  by_cases hef : effectiveOn key connection operation <;> simp [hef]

theorem mem_run (operations : List Operation) :
    connection ∈ elems (run operations).byConversation key ↔
      ∃ operation, lastEffective key connection operations = some operation ∧ operation.isJoin := by
  induction operations using List.reverseRecOn with
  | nil => simp [run, elems, lastEffective]
  | append_singleton operations operation ih =>
    rw [run_concat, mem_step (consistent_run operations), lastEffective_concat]
    by_cases hef : effectiveOn key connection operation
    · simp [hef]
    · simp [hef, ih]

theorem not_mem_run_of_not_canonical (operations : List Operation)
    (h : ¬ canonicalTenant key.tenantId) :
    connection ∉ elems (run operations).byConversation key := by
  rw [mem_run]
  rintro ⟨operation, hl, hj⟩
  have hm := List.mem_of_getLast? hl
  have hef := (List.mem_filter.mp hm).2
  cases operation with
  | join tenantId conversationId connectionId =>
    simp only [effectiveOn, decide_eq_true_eq] at hef
    obtain ⟨hk, -, hc, -⟩ := hef
    subst hk
    exact h hc
  | leave tenantId conversationId connectionId | removeConnection connectionId => cases hj

theorem localSubscribers_run (operations : List Operation) :
    localSubscribers tenantId conversationId (run operations) =
      elems (run operations).byConversation ⟨tenantId, conversationId⟩ := by
  unfold localSubscribers
  by_cases hc : canonicalTenant tenantId
  · simp [hc]
  · have hn : elems (run operations).byConversation ⟨tenantId, conversationId⟩ = [] := by
      rw [List.eq_nil_iff_forall_not_mem]
      intro entry
      exact not_mem_run_of_not_canonical operations hc
    simp [hc, hn]

theorem localSubscriberCount_eq :
    localSubscriberCount tenantId conversationId state =
      (localSubscribers tenantId conversationId state).length := by
  unfold localSubscriberCount localSubscribers elems
  by_cases hc : canonicalTenant tenantId
  · cases state.byConversation ⟨tenantId, conversationId⟩ with
    | none | some set => simp [hc]
  · simp [hc]

-- After any operations the two indices are inverse relations without empty sets, a
-- connection is listed exactly when its last effective operation was a join, and a removed
-- one is listed nowhere.
theorem registry_stays_consistent (operations : List Operation) :
    (∀ key connection, connection ∈ elems (run operations).byConversation key ↔
      key ∈ elems (run operations).byConnection connection) ∧
    (∀ key, (run operations).byConversation key ≠ some []) ∧
    (∀ connection, (run operations).byConnection connection ≠ some []) ∧
    (∀ tenantId conversationId,
      (localSubscribers tenantId conversationId (run operations)).Nodup ∧
        localSubscriberCount tenantId conversationId (run operations) =
          (localSubscribers tenantId conversationId (run operations)).length) ∧
    (∀ tenantId conversationId connection,
      connection ∈ localSubscribers tenantId conversationId (run operations) ↔
        ∃ operation, lastEffective ⟨tenantId, conversationId⟩ connection operations =
          some operation ∧ operation.isJoin) ∧
    ∀ connection,
      let removed := run (operations ++ [.removeConnection connection])
      (∀ key, connection ∉ elems removed.byConversation key) ∧
        removed.byConnection connection = none ∧
        (∀ tenantId conversationId,
          localSubscribers tenantId conversationId removed =
            (localSubscribers tenantId conversationId (run operations)).filter
              (· ≠ connection)) ∧
        ∀ other ≠ connection,
          removed.byConnection other = (run operations).byConnection other := by
  have hconsistent := consistent_run operations
  refine ⟨hconsistent.inverse, hconsistent.conversations.nonempty,
    hconsistent.connections.nonempty, ?_, ?_, ?_⟩
  · intro tenantId conversationId
    rw [localSubscriberCount_eq, localSubscribers_run]
    exact ⟨hconsistent.conversations.nodup _, rfl⟩
  · intro tenantId conversationId connection
    rw [localSubscribers_run]
    exact mem_run operations
  · intro connection
    have hremoved (key : ConversationKey) :
        elems (removeConnection connection (run operations)).byConversation key =
          (elems (run operations).byConversation key).filter (· ≠ connection) :=
      hconsistent.elems_removeConnection key
    refine ⟨fun key => ?_, ?_, fun tenantId conversationId => ?_, fun other hother => ?_⟩
    · rw [run_concat, step, hremoved]
      simp
    · rw [run_concat, step, byConnection_removeConnection, Function.update_self]
    · rw [localSubscribers_run, localSubscribers_run, run_concat, step, hremoved]
    · rw [run_concat, step, byConnection_removeConnection, Function.update_of_ne hother]

end FlareIm.ConversationSubscription
