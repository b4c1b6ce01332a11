import FlareIm.SyncCompensation
import FlareIm.SyncIndex.Theorems

namespace FlareIm.SyncCompensation

open Text Context Keyed SyncIndex

variable {tenantId : Option String} {tenant : String} {seq : Nat} {at_ : Int} {fanout : Fanout}
  {recipients : List String}

theorem normalizedUserIds_idem (userIds : List String) :
    normalizedUserIds (normalizedUserIds userIds) = normalizedUserIds userIds := by
  have hm : ∀ user ∈ normalizedUserIds userIds, trim user = user ∧ user ≠ "" := by
    intro user hu
    obtain ⟨hma, hne⟩ := List.mem_filter.mp (Listing.mem_distinct.mp hu)
    obtain ⟨raw, -, rfl⟩ := List.mem_map.mp hma
    exact ⟨trim_trim raw, by simpa using hne⟩
  have hma : (normalizedUserIds userIds).map trim = normalizedUserIds userIds :=
    (List.map_congr_left fun user hu => (hm user hu).1).trans (List.map_id' _)
  have hf : (normalizedUserIds userIds).filter (· ≠ "") = normalizedUserIds userIds :=
    List.filter_eq_self.mpr fun user hu => by simpa using (hm user hu).2
  conv_lhs => rw [normalizedUserIds, hma, hf]
  exact Listing.distinct_idem _

-- A call with a stored tenant, trimmed conversation and normalised users is the call that
-- was first made.
theorem recordConversationChange_normalized (config : Config) (index : Index)
    (userIds : List String) (conversationId : String)
    (seq : Nat) (at_ : Int) (delivered : Option Nat)
    (ht : normalizeOptionalTenantId tenantId = some tenant) :
    recordConversationChange config index (some tenant) (normalizedUserIds userIds)
        (trim conversationId) seq at_ delivered =
      recordConversationChange config index tenantId userIds conversationId seq at_ delivered := by
  simp only [recordConversationChange, trim_trim, normalizedUserIds_idem, ht,
    normalizeOptionalTenantId_of_normalized ht]

theorem recordConversationVersionBump_normalized (config : Config) (index : Index)
    (conversationId : String) (seq : Nat) (at_ : Int)
    (reach : Reach) (ht : normalizeOptionalTenantId tenantId = some tenant) :
    recordConversationVersionBump config index (some tenant) (trim conversationId) seq at_ reach =
      recordConversationVersionBump config index tenantId conversationId seq at_ reach := by
  simp only [recordConversationVersionBump, trim_trim, ht,
    normalizeOptionalTenantId_of_normalized ht]

theorem recordConversationChange_failed {config : Config} {index : Index}
    {userIds : List String} {conversationId : String}
    {delivered : Option Nat}
    (h : (recordConversationChange config index tenantId userIds conversationId seq at_
      delivered).2 = false) : trim conversationId ≠ "" ∧ normalizedUserIds userIds ≠ [] := by
  unfold recordConversationChange at h
  dsimp only at h
  split at h
  · cases h
  · rename_i hc
    split at h
    · cases h
    · rename_i hu
      exact ⟨hc, hu⟩

theorem recordConversationVersionBump_failed {config : Config} {index : Index}
    {conversationId : String} {reach : Reach}
    (h : (recordConversationVersionBump config index tenantId conversationId seq at_
      reach).2.isSome = false) : trim conversationId ≠ "" := by
  intro hb
  simp [recordConversationVersionBump, hb] at h

def Fanout.conversationId : Fanout → String
  | .message conversationId _ _ _ _ => conversationId
  | .event conversationId _ _ _ => conversationId

def Fanout.conversationSeq : Fanout → Nat
  | .message _ seq _ _ _ => seq
  | .event _ seq _ _ => seq

-- The event fan-outs that bump a conversation version.
def Fanout.isMemberBasedEvent : Fanout → Bool
  | .message _ _ _ _ _ => false
  | .event conversationId _ _ _ => isMemberBasedConversation conversationId

-- Replaying the task is the same update, for the same conversation and sequence number, on
-- the same users and in whatever state the index is by then.
structure Compensates (config : Config) (tenantId : Option String) (fanout : Fanout)
    (task : UserSyncCompensationTask) : Prop where
  conversation : task.conversationId = trim fanout.conversationId
  seq : task.maxConversationSeq = fanout.conversationSeq
  replay : ∀ index fault,
    replayTask config index task fault = updateIndex config index tenantId fault fanout

theorem eagerUserChanges_compensates (config : Config)
    {userIds : List String} {conversationId : String}
    (dueAtMs : Int) (ht : normalizeOptionalTenantId tenantId = some tenant)
    (hc : fanout.conversationId = conversationId)
    (hs : fanout.conversationSeq = seq)
    (hu : ∀ index fault, updateIndex config index tenantId fault fanout =
      recordConversationChange config index tenantId userIds conversationId seq at_ fault.delivered)
    (hfa : ∃ index fault, (updateIndex config index tenantId fault fanout).2 = false) :
    ∃ task, eagerUserChanges tenantId userIds conversationId seq at_ dueAtMs = some task ∧
      Compensates config tenantId fanout task := by
  obtain ⟨index, fault, hf⟩ := hfa
  rw [hu] at hf
  obtain ⟨hne, hus⟩ := recordConversationChange_failed hf
  refine ⟨.new tenant .eagerUserChanges (normalizedUserIds userIds) (trim conversationId) seq at_
    dueAtMs, ?_, ?_, ?_, ?_⟩
  · simp only [eagerUserChanges, if_neg hne, if_neg hus, ht, Option.map_some]
  · simp only [UserSyncCompensationTask.new, hc]
  · simp only [UserSyncCompensationTask.new, hs]
  · intro index fault
    simp only [hu, replayTask, UserSyncCompensationTask.new,
      recordConversationChange_normalized config index userIds conversationId seq at_
        fault.delivered ht]

theorem conversationVersionBump_compensates (config : Config)
    {conversationId : String}
    (dueAtMs : Int)
    (ht : normalizeOptionalTenantId tenantId = some tenant)
    (hne : trim conversationId ≠ "") :
    ∃ task, conversationVersionBump tenantId conversationId seq at_ dueAtMs = some task ∧
      Compensates config tenantId (.message conversationId seq at_ recipients true) task := by
  refine ⟨.new tenant .conversationVersionBump [] (trim conversationId) seq at_ dueAtMs, ?_, ?_,
    ?_, ?_⟩
  · simp only [conversationVersionBump, if_neg hne, ht, Option.map_some]
  · simp only [UserSyncCompensationTask.new, Fanout.conversationId]
  · simp only [UserSyncCompensationTask.new, Fanout.conversationSeq]
  · intro index fault
    simp only [replayTask, UserSyncCompensationTask.new, updateIndex, if_true,
      recordConversationVersionBump_normalized config index conversationId seq at_ fault.reach ht]

theorem compensationTask_compensates (config : Config) (dueAtMs : Int)
    (ht : normalizeOptionalTenantId tenantId = some tenant) (hk : fanout.isMemberBasedEvent = false)
    (hf : ∃ index fault, (updateIndex config index tenantId fault fanout).2 = false) :
    ∃ task, compensationTask tenantId dueAtMs fanout = some task ∧
      Compensates config tenantId fanout task := by
  cases fanout with
  | message conversationId seq createdAt recipients large =>
    cases large with
    | true =>
      obtain ⟨index, fault, hfa⟩ := hf
      simp only [updateIndex, if_true] at hfa
      have hne := recordConversationVersionBump_failed hfa
      simp only [compensationTask, if_true]
      exact conversationVersionBump_compensates config dueAtMs ht hne
    | false =>
      simp only [compensationTask, Bool.false_eq_true, if_false]
      refine eagerUserChanges_compensates config dueAtMs ht ?_ ?_ ?_ hf
      · simp only [Fanout.conversationId]
      · simp only [Fanout.conversationSeq]
      · intro index fault
        simp only [updateIndex, Bool.false_eq_true, if_false]
  | event conversationId seq createdAt recipients =>
    have hk' : isMemberBasedConversation conversationId = false := hk
    simp only [compensationTask]
    refine eagerUserChanges_compensates config dueAtMs ht ?_ ?_ ?_ hf
    · simp only [Fanout.conversationId]
    · simp only [Fanout.conversationSeq]
    · intro index fault
      simp only [updateIndex, hk', Bool.false_eq_true, if_false]

theorem mem_enqueue (queue : Queue) (task : UserSyncCompensationTask) :
    task ∈ enqueue queue task := by
  simp [enqueue]

theorem eagerUserChanges_not_compensates (config : Config)
    {conversationId : String} {dueAtMs : Int}
    {task : UserSyncCompensationTask}
    (ht : normalizeOptionalTenantId tenantId = some tenant)
    (hm : isMemberBasedConversation conversationId = true)
    (hne : trim conversationId ≠ "")
    (hta : eagerUserChanges tenantId recipients conversationId seq at_ dueAtMs = some task) :
    ¬ Compensates config tenantId (.event conversationId seq at_ recipients) task := by
  intro hco
  have hk : task.kind = .eagerUserChanges := by
    unfold eagerUserChanges at hta
    dsimp only at hta
    split at hta
    · cases hta
    · split at hta
      · cases hta
      · rw [ht] at hta
        cases hta
        rfl
  -- on an empty index the bump creates the version key, the per-user update does not
  have hr := congrArg (fun result => result.1.db (conversationVersionKey tenant
    (trim conversationId))) (hco.replay Index.empty ⟨.answered, none⟩)
  have hch : (replayTask config Index.empty task ⟨.answered, none⟩).1.db
      (conversationVersionKey tenant (trim conversationId)) = none := by
    simp only [replayTask, hk, recordConversationChange]
    split
    · rfl
    split
    · rfl
    split
    · rfl
    · rename_i tenant' ht'
      have hs := recordChunks_spec config inv_empty.recorded tenant' (trim task.conversationId)
        task.maxConversationSeq task.occurredAtMs
        ((normalizedUserIds task.userIds).toChunks config.chunkSize) none (by
          intro _ _ _ _ entry hen
          exact absurd hen List.not_mem_nil)
      exact hs.1.frame _ (isConversationKey_version _ _)
  have hbu : (updateIndex config Index.empty tenantId ⟨.answered, none⟩
      (.event conversationId seq at_ recipients)).1.db
        (conversationVersionKey tenant (trim conversationId)) ≠ none := by
    simp only [updateIndex, hm, if_true]
    rcases recordConversationVersionBump_cases config inv_empty tenantId conversationId seq at_
      .answered with ⟨-, hn⟩ | ⟨tenant', version, ht', -, hb, -⟩
    · have hra := hn hne (by decide)
      simp [recordConversationVersionBump, hne, ht, recordConversationVersionBumpScript, incr,
        hset, Index.empty, valueAt, write, (versionKey_ne_stateKey _ _ _ _).symm] at hra
    · rw [ht] at ht'
      cases ht'
      have hc := hb.counter
      intro hdb
      simp [valueAt, hdb] at hc
  exact hbu (hr ▸ hch)

theorem trim_ne_empty_of_isMemberBased {conversationId : String}
    (h : isMemberBasedConversation conversationId = true) : trim conversationId ≠ "" := by
  intro hb
  simp [isMemberBasedConversation, hb] at h

-- Whenever the index update fails and a task can be enqueued, one that repeats it is.
def FailureCompensated (tenantId : Option String) (fanout : Fanout) : Prop :=
  ∀ config env index queue,
    let outcome := persistAndPushWithRecipients config env tenantId index queue fanout
    outcome.indexFailed = true → env.compensated = true → env.enqueued = true →
      ∃ task ∈ outcome.queue, Compensates config tenantId fanout task

theorem failureCompensated_of_not_memberBasedEvent
    (hco : normalizeOptionalTenantId tenantId = none ∨ fanout.isMemberBasedEvent = false) :
    FailureCompensated tenantId fanout := by
  intro config env index queue
  simp only [persistAndPushWithRecipients]
  rcases ht : normalizeOptionalTenantId tenantId with _ | tenant
  · simp
  have hk : fanout.isMemberBasedEvent = false := by simpa [ht] using hco
  split
  · simp
  split
  · simp
  split
  · simp
  rename_i hf
  intro _ hc hen
  obtain ⟨task, hta, hcm⟩ := compensationTask_compensates config env.nowMs ht hk
    ⟨index, env.fault, by simpa using hf⟩
  simp only [hc, hen, hta, Bool.and_self, if_true]
  exact ⟨task, mem_enqueue queue task, hcm⟩

theorem not_failureCompensated_of_memberBasedEvent
    {conversationId : String} {createdAt : Int}
    (ht : normalizeOptionalTenantId tenantId = some tenant)
    (hme : isMemberBasedConversation conversationId = true) :
    ¬ FailureCompensated tenantId (.event conversationId seq createdAt recipients) := by
  intro h
  have hne := trim_ne_empty_of_isMemberBased hme
  let config := Config.new 1 1 none
  let env : Env := ⟨true, true, ⟨.refused, none⟩, true, true, true, 0⟩
  have hf : persistAndPushWithRecipients config env tenantId Index.empty []
      (.event conversationId seq createdAt recipients) = ⟨Index.empty, true,
        (eagerUserChanges tenantId recipients conversationId seq createdAt 0).toList, true⟩ := by
    simp only [persistAndPushWithRecipients, env, ht, updateIndex, hme,
      recordConversationVersionBump, hne, compensationTask]
    cases eagerUserChanges tenantId recipients conversationId seq createdAt 0 <;> rfl
  have hta := h config env Index.empty []
  rw [hf] at hta
  obtain ⟨task, hm, hc⟩ := hta rfl rfl rfl
  exact eagerUserChanges_not_compensates config ht hme hne (Option.mem_toList.mp hm) hc

-- A failed index update gets a task that repeats it, unless the fan-out is that of an event in
-- a member based conversation. Without a tenant no fan-out reaches the index.
theorem compensation_repeats_failed_update_iff (tenantId : Option String) (fanout : Fanout) :
    FailureCompensated tenantId fanout ↔
      normalizeOptionalTenantId tenantId = none ∨ fanout.isMemberBasedEvent = false := by
  constructor
  · intro h
    by_contra hcond
    rw [not_or] at hcond
    obtain ⟨tenant, htenant⟩ := Option.ne_none_iff_exists'.mp hcond.1
    cases fanout with
    | message => exact hcond.2 rfl
    | event conversationId seq createdAt recipients =>
      have hmember : isMemberBasedConversation conversationId = true := by
        simpa [Fanout.isMemberBasedEvent] using hcond.2
      exact not_failureCompensated_of_memberBasedEvent htenant hmember h
  · exact failureCompensated_of_not_memberBasedEvent

-- A recall in a group whose bump fails: what is queued updates two users, not the group.
theorem group_event_not_compensated :
    ¬ FailureCompensated (some "acme") (.event "2-team" 7 1000 ["alice", "bob"]) :=
  not_failureCompensated_of_memberBasedEvent (by decide : _ = some "acme") (by decide)

end FlareIm.SyncCompensation
