import FlareIm.ConversationSync.Theorems

namespace FlareIm.ConversationSync

section Growth

variable {before after : Conversation} {row : Row}

theorem commit_prefix {conversation next : Conversation} {action : Commit}
    (h : commit conversation action = some next) : conversation.rows <+: next.rows := by
  cases action with
  | message row =>
    simp only [commit] at h
    split at h
    · cases h
      exact List.prefix_append _ _
    · cases h
  | event seq =>
    simp only [commit] at h
    split at h
    · cases h
      exact List.prefix_rfl
    · cases h

theorem Grows.prefix_rows (h : Grows before after) : before.rows <+: after.rows := by
  obtain ⟨commits, hr⟩ := h
  exact hr.relates (fun state next => state.rows <+: next.rows)
    (fun _ _ _ (_ : True) _ _ => trivial) (fun _ => List.prefix_rfl) (fun _ _ _ => List.IsPrefix.trans)
    (fun _ _ _ _ _ hs => commit_prefix hs) trivial

theorem Grows.trans {last : Conversation} (h : Grows before after) (h' : Grows after last) :
    Grows before last := by
  obtain ⟨commits, hr⟩ := h
  obtain ⟨others, hr'⟩ := h'
  exact ⟨commits ++ others, hr.append hr'⟩

theorem Grows.lt_of_new {old : Row} (h : Grows before after) (hold : old ∈ before.rows)
    (hr : row ∈ after.rows) (hn : row ∉ before.rows) : old.seq < row.seq := by
  obtain ⟨added, had⟩ := h.prefix_rows
  have ha := after.ascending
  rw [← had] at ha hr
  rcases List.mem_append.mp hr with hin | hin
  · exact absurd hin hn
  · exact (List.pairwise_append.mp ha).2.2 old hold row hin

theorem not_stored_of_new (h : Grows before after) (hr : row ∈ after.rows)
    (hn : row ∉ before.rows) : before.stored row.seq = none := by
  rw [← Option.not_isSome_iff_eq_none, stored_isSome]
  rintro ⟨old, hold, -, hs⟩
  have hlt := h.lt_of_new hold hr hn
  omega

theorem lt_of_new_of_window {start size : Nat} {message : Message} (h : Grows before after)
    (hr : row ∈ after.rows) (hn : row ∉ before.rows)
    (hm : message ∈ queryMessagesBySeq before (asI64 start) none size) :
    message.conversationSeq < row.seq := by
  obtain ⟨old, hold, -, rfl⟩ := mem_visible.mp (mem_window hm)
  exact h.lt_of_new hold hr hn

theorem maxMessageSeq_lt_of_new {start size base : Nat} (h : Grows before after)
    (hr : row ∈ after.rows) (hn : row ∉ before.rows) (hb : base < row.seq) :
    maxMessageSeq (queryMessagesBySeq before (asI64 start) none size) base < row.seq := by
  have hle : maxMessageSeq (queryMessagesBySeq before (asI64 start) none size) base ≤
      row.seq - 1 := by
    apply maxMessageSeq_le (by omega)
    intro message hm
    have hlt := lt_of_new_of_window h hr hn hm
    omega
  omega

end Growth

section Slices

def SyncSliceItem.isTombstone (item : SyncSliceItem) : Bool :=
  match item.payload with
  | .tombstone .. => true
  | .message _ | .skip _ => false

-- The page shows no stored message as missing and goes past none of those from its start on.
structure Right (start : Nat) (page : SyncPage) (built : Conversation) : Prop where
  not_missing : ∀ item ∈ page.items, item.isTombstone = true →
    built.stored item.conversationSeq = none
  not_passed : ∀ n, start < n → n ≤ page.maxSeq → (built.stored n).isSome →
    ∃ item ∈ page.items, item.conversationSeq = n

-- A visible message committed after the page was read whose number the page is about: it is no
-- more than `limit` above the start, and the head that was read covers it.
def Overtaken (read built : Conversation) (start limit headMaxSeq : Nat) : Prop :=
  ∃ row ∈ built.rows, row.visible = true ∧ row ∉ read.rows ∧ start < row.seq ∧
    row.seq ≤ headMaxSeq ∧ row.seq ≤ start + limit

variable {read built : Conversation} {conversationId : String} {after limit size headMaxSeq : Nat}

@[simp] theorem messageToSyncItem_seq (message : Message) :
    (messageToSyncItem message).conversationSeq = message.conversationSeq := rfl

@[simp] theorem messageToSyncItem_isTombstone (message : Message) :
    (messageToSyncItem message).isTombstone = false := by
  unfold messageToSyncItem SyncSliceItem.isTombstone
  cases Text.isBlank message.syncSkip <;> rfl

theorem item_seq (n : Nat) : (read.item conversationId n).conversationSeq = n := by
  unfold Conversation.item
  cases hs : read.stored n with
  | none => rfl
  | some message => exact (stored_eq_some.mp hs).2

theorem item_isTombstone (n : Nat) :
    (read.item conversationId n).isTombstone = true ↔ read.stored n = none := by
  unfold Conversation.item
  cases hs : read.stored n with
  | none => exact ⟨fun _ => rfl, fun _ => rfl⟩
  | some message => simp

theorem contiguous_right_iff (hg : Grows read built) (hl : max limit 1 ≤ size)
    (hp : 1 ≤ limit) (hh : headMaxSeq < 2 ^ 63 ∨ headMaxSeq ≤ after) :
    Right after (pageOf read conversationId after limit size headMaxSeq) built ↔
      ¬Overtaken read built after limit headMaxSeq := by
  have hb : reach read after size headMaxSeq < 2 ^ 63 ∨
      reach read after size headMaxSeq = after := by
    have hme := @maxMessageSeq_window_lt read after size
    unfold reach
    omega
  have him := @contiguous_items _ conversationId _ _ _ _ hl hb
  have hma := @contiguous_maxSeq read conversationId after limit size headMaxSeq
  constructor
  · rintro hri ⟨row, hr, hv, hnw, ha, hle, hle'⟩
    have hre : headMaxSeq ≤ reach read after size headMaxSeq :=
      (Nat.le_max_left _ _).trans (Nat.le_max_left _ _)
    have hie : read.item conversationId row.seq ∈
        (pageOf read conversationId after limit size headMaxSeq).items := by
      rw [him]
      apply List.mem_map_of_mem
      rw [List.mem_range'_1]
      omega
    have hm := hri.not_missing _ hie ((item_isTombstone _).mpr (not_stored_of_new hg hr hnw))
    rw [item_seq, ← Option.not_isSome_iff_eq_none, stored_isSome] at hm
    exact hm ⟨row, hr, hv, rfl⟩
  · intro hno
    refine ⟨?_, ?_⟩
    · intro item hie ht
      rw [him] at hie
      obtain ⟨n, hn, rfl⟩ := List.mem_map.mp hie
      rw [List.mem_range'_1] at hn
      rw [item_isTombstone] at ht
      rw [item_seq, ← Option.not_isSome_iff_eq_none, stored_isSome]
      rintro ⟨row, hr, hv, rfl⟩
      have hnw : row ∉ read.rows := by
        intro hold
        rw [← Option.not_isSome_iff_eq_none, stored_isSome] at ht
        exact ht ⟨row, hold, hv, rfl⟩
      have hlt := @maxMessageSeq_lt_of_new _ _ _ after size after hg hr hnw (by omega)
      apply hno
      refine ⟨row, hr, hv, hnw, by omega, ?_, by omega⟩
      unfold reach at hn
      omega
    · intro n hs hen _
      rw [hma] at hen
      refine ⟨read.item conversationId n, ?_, item_seq n⟩
      rw [him]
      apply List.mem_map_of_mem
      rw [List.mem_range'_1]
      omega

theorem tail_right_iff (hg : Grows read built) (hsm : after < 2 ^ 63)
    (hh : headMaxSeq = after + limit) :
    Right after (buildTailSyncItems (queryMessagesBySeq read (asI64 after) none (limit + 1))
        headMaxSeq) built ↔ ¬Overtaken read built after limit headMaxSeq := by
  constructor
  · rintro hri ⟨row, hr, hv, hnw, ha, hle, hle'⟩
    obtain ⟨item, hie, hse⟩ := hri.not_passed row.seq ha
      (hle.trans (Nat.le_max_left _ _)) (stored_isSome.mpr ⟨row, hr, hv, rfl⟩)
    obtain ⟨message, hm, rfl⟩ := List.mem_map.mp hie
    have hlt := lt_of_new_of_window hg hr hnw hm
    rw [messageToSyncItem_seq] at hse
    omega
  · intro hn
    refine ⟨?_, ?_⟩
    · intro item hie ht
      obtain ⟨message, -, rfl⟩ := List.mem_map.mp hie
      rw [messageToSyncItem_isTombstone] at ht
      cases ht
    · intro n hs hen hst
      obtain ⟨row, hr, hv, rfl⟩ := stored_isSome.mp hst
      have hm : row.message ∈ queryMessagesBySeq read (asI64 after) none (limit + 1) := by
        by_cases hold : row ∈ read.rows
        · have hin : row.message ∈ read.visible := mem_visible.mpr ⟨row, hold, hv, rfl⟩
          by_cases hle : row.seq ≤ headMaxSeq
          · exact mem_window_of_le hsm hin hs (show row.seq ≤ _ by omega)
          · simp only [buildTailSyncItems] at hen
            obtain ⟨last, hl, hse⟩ := @exists_maxMessageSeq
              (queryMessagesBySeq read (asI64 after) none (limit + 1)) 0 (by omega)
            exact mem_window_of_le_mem hsm hin hs hl (show row.seq ≤ last.conversationSeq by omega)
        · have hlt := @maxMessageSeq_lt_of_new _ _ _ after (limit + 1) 0 hg hr hold (by omega)
          simp only [buildTailSyncItems] at hen
          exact absurd ⟨row, hr, hv, hold, hs, by omega, by omega⟩ hn
      exact ⟨messageToSyncItem row.message, List.mem_map_of_mem hm, rfl⟩

theorem headMaxSeq_bound {head : Option Nat} (hh : ∀ seq ∈ head, seq < 2 ^ 63) :
    conversationHeadMaxSeq head (asI64 after) < 2 ^ 63 ∨
      conversationHeadMaxSeq head (asI64 after) ≤ after := by
  have hle := asI64_le after
  cases head with
  | none =>
    simp only [conversationHeadMaxSeq]
    omega
  | some seq =>
    have hlt := hh seq rfl
    simp only [conversationHeadMaxSeq]
    omega

end Slices

section Single

-- The states of the conversation at the two reads of a call and at its answer.
structure SingleReads where
  headAt : Conversation
  pageAt : Conversation
  builtAt : Conversation
  headFails : Bool
  grows_page : Grows headAt pageAt
  grows_built : Grows pageAt builtAt

variable (reads : SingleReads) (req : SingleConversationSync)

def SingleReads.head : Option Nat := if reads.headFails then none else some reads.headAt.head

def SingleReads.headMaxSeq : Nat :=
  conversationHeadMaxSeq reads.head (asI64 req.afterConversationSeq)

-- Where the page of a call starts; that of a cold start is a tail.
def SingleReads.start : Nat :=
  (coldStartTailAfterSeq req.afterConversationSeq req.cursor (reads.headMaxSeq req)
    (clampLimit req.limit)).getD req.afterConversationSeq

variable {reads req}

theorem SingleReads.head_lt : ∀ seq ∈ reads.head, seq < 2 ^ 63 := by
  intro seq hs
  unfold SingleReads.head at hs
  split at hs
  · cases hs
  · rw [Option.mem_some_iff] at hs
    subst hs
    exact ConversationSync.head_lt

theorem cold_start_some {requested remote limit tail : Nat} {cursor : String}
    (h : coldStartTailAfterSeq requested cursor remote limit = some tail) :
    requested = 0 ∧ limit < remote ∧ tail = remote - limit := by
  unfold coldStartTailAfterSeq at h
  split at h
  · cases h
  · rename_i hf
    split at h
    · cases h
    · simp only [Option.some.injEq] at h
      exact ⟨by omega, by omega, h.symm⟩

theorem single_right_iff :
    Right (reads.start req) (singleConversationSync req reads.head reads.pageAt) reads.builtAt ↔
      ¬(req.beforeConversationSeq = 0 ∧ Overtaken reads.pageAt reads.builtAt (reads.start req)
        (clampLimit req.limit) (reads.headMaxSeq req)) := by
  have hp := clampLimit_pos req.limit
  by_cases hb : 0 < req.beforeConversationSeq
  · constructor
    · rintro - ⟨hz, -⟩
      omega
    · intro _
      simp only [singleConversationSync, hb, if_true]
      refine ⟨?_, ?_⟩
      · intro item hie ht
        obtain ⟨message, -, rfl⟩ := List.mem_map.mp hie
        rw [messageToSyncItem_isTombstone] at ht
        cases ht
      · intro n hs hen
        simp only [buildBackfillSyncItems] at hen
        omega
  · have hbo := @headMaxSeq_bound req.afterConversationSeq _ reads.head_lt
    have hz : req.beforeConversationSeq = 0 := by omega
    simp only [singleConversationSync, hz, Nat.lt_irrefl, if_false, true_and]
    rw [← SingleReads.headMaxSeq] at hbo ⊢
    unfold SingleReads.start
    cases hc : coldStartTailAfterSeq req.afterConversationSeq req.cursor (reads.headMaxSeq req)
        (clampLimit req.limit) with
    | some tail =>
      obtain ⟨hf, hl, rfl⟩ := cold_start_some hc
      simp only [Option.getD_some]
      exact tail_right_iff reads.grows_built (by omega) (by omega)
    | none =>
      simp only [Option.getD_none]
      exact contiguous_right_iff reads.grows_built (by omega) hp hbo

end Single

section Multi

-- The states of each conversation when its window and its head are read, and at the answer.
structure MultiReads where
  windowsAt : String → Conversation
  headsAt : String → Conversation
  builtAt : String → Conversation
  headFails : String → Bool
  grows_heads : ∀ id, Grows (windowsAt id) (headsAt id)
  grows_built : ∀ id, Grows (headsAt id) (builtAt id)

variable (reads : MultiReads)

def MultiReads.heads (id : String) : Option Nat :=
  if reads.headFails id then none else some (reads.headsAt id).head

def MultiReads.headMaxSeq (target : Target) : Nat :=
  conversationHeadMaxSeq (reads.heads target.conversationId) (asI64 target.lastConversationSeq)

variable {reads}

theorem MultiReads.heads_lt {id : String} : ∀ seq ∈ reads.heads id, seq < 2 ^ 63 := by
  intro seq hs
  unfold MultiReads.heads at hs
  split at hs
  · cases hs
  · rw [Option.mem_some_iff] at hs
    subst hs
    exact head_lt

theorem slice_right_iff {virtualInbox : Bool} {target : Target} {limit : Int} :
    Right target.lastConversationSeq
        (conversationSlice virtualInbox target (clampLimit limit)
          (messageWindow (reads.windowsAt target.conversationId) target (clampLimit limit))
          (reads.heads target.conversationId)) (reads.builtAt target.conversationId) ↔
      (virtualInbox = false → ¬Overtaken (reads.windowsAt target.conversationId)
        (reads.builtAt target.conversationId) target.lastConversationSeq (clampLimit limit)
        (reads.headMaxSeq target)) := by
  have hp := clampLimit_pos limit
  have hle := clampLimit_le limit
  cases virtualInbox with
  | true =>
    simp only [conversationSlice, if_true, Bool.true_eq_false, false_implies, iff_true]
    refine ⟨fun item hie => absurd hie List.not_mem_nil, fun n hs hen => ?_⟩
    simp only at hen
    omega
  | false =>
    simp only [conversationSlice, Bool.false_eq_true, if_false, true_implies]
    exact contiguous_right_iff ((reads.grows_heads _).trans (reads.grows_built _)) (by omega) hp
      (headMaxSeq_bound reads.heads_lt)

theorem multi_right_iff {virtualInbox : String → Bool} {targets : List Target} {limit : Int} :
    (∀ entry ∈ multiConversationSync virtualInbox targets limit reads.windowsAt reads.heads,
        Right entry.1.lastConversationSeq entry.2 (reads.builtAt entry.1.conversationId)) ↔
      ∀ target ∈ targets, Text.isBlank target.conversationId = false →
        virtualInbox target.conversationId = false →
          ¬Overtaken (reads.windowsAt target.conversationId) (reads.builtAt target.conversationId)
            target.lastConversationSeq (clampLimit limit) (reads.headMaxSeq target) := by
  simp only [multiConversationSync, List.mem_map, List.mem_filter, decide_eq_true_eq]
  constructor
  · intro h target hm hid
    exact slice_right_iff.mp (h _ ⟨target, ⟨hm, hid⟩, rfl⟩)
  · rintro h _ ⟨target, ⟨hm, hid⟩, rfl⟩
    exact slice_right_iff.mpr (h target hm hid)

-- A call answers right exactly when no visible message that its head already covers is committed
-- only after its messages were read.
theorem sync_is_right_iff_not_overtaken (virtualInbox : String → Bool) (limit : Int) :
    (∀ (reads : SingleReads) (req : SingleConversationSync),
      Right (reads.start req) (singleConversationSync req reads.head reads.pageAt)
          reads.builtAt ↔
        ¬(req.beforeConversationSeq = 0 ∧ Overtaken reads.pageAt reads.builtAt (reads.start req)
          (clampLimit req.limit) (reads.headMaxSeq req))) ∧
    ∀ (reads : MultiReads) (targets : List Target),
      (∀ entry ∈ multiConversationSync virtualInbox targets limit reads.windowsAt reads.heads,
        Right entry.1.lastConversationSeq entry.2 (reads.builtAt entry.1.conversationId)) ↔
      ∀ target ∈ targets, Text.isBlank target.conversationId = false →
        virtualInbox target.conversationId = false →
          ¬Overtaken (reads.windowsAt target.conversationId) (reads.builtAt target.conversationId)
            target.lastConversationSeq (clampLimit limit) (reads.headMaxSeq target) :=
  ⟨fun _ _ => single_right_iff, fun _ _ => multi_right_iff⟩

end Multi

section Counterexample

def noMessages : Conversation where
  rows := []
  events := []
  ascending := by decide
  positive := by decide
  bounded := by decide
  events_bounded := no_events_bounded

def firstRow : Row := ⟨⟨"first", 1, 0, "hello", ""⟩, true⟩

def firstCommitted : Conversation := insertRow noMessages firstRow (by decide)

-- The first message is committed after the windows are read and before the heads are.
def racedReads : MultiReads where
  windowsAt _ := noMessages
  headsAt _ := firstCommitted
  builtAt _ := firstCommitted
  headFails _ := false
  grows_heads _ := ⟨[.message firstRow], .cons trivial (by rw [commit, dif_pos]; rfl) (.nil _)⟩
  grows_built _ := ⟨[], .nil _⟩

theorem a_stored_message_is_marked_missing :
    ¬∀ (reads : MultiReads) (targets : List Target),
      ∀ entry ∈ multiConversationSync (fun _ => false) targets 10 reads.windowsAt reads.heads,
        Right entry.1.lastConversationSeq entry.2
          (reads.builtAt entry.1.conversationId) := by
  intro h
  have hright := h racedReads [⟨"c", 0⟩] (⟨"c", 0⟩, _) (List.mem_map_of_mem (by decide))
  have hmissing := hright.not_missing (missingItem "c" 1) (by decide) (by decide)
  exact absurd hmissing (by decide)

end Counterexample

end FlareIm.ConversationSync
