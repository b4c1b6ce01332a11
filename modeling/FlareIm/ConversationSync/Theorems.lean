import FlareIm.ConversationSync.Pages

namespace FlareIm.ConversationSync

variable {conversation : Conversation} {conversationId cursor : String} {after : Nat} {limit : Int}

theorem clampLimit_pos (limit : Int) : 1 ≤ clampLimit limit := by
  unfold clampLimit
  omega

theorem clampLimit_le (limit : Int) : clampLimit limit ≤ 500 := by
  unfold clampLimit
  omega

-- A first request of a conversation that does not fit on one page.
def ColdStart (conversation : Conversation) (after : Nat) (cursor : String) (limit : Int) : Prop :=
  after = 0 ∧ Text.isBlank cursor = true ∧ clampLimit limit < conversation.head

instance : Decidable (ColdStart conversation after cursor limit) :=
  inferInstanceAs (Decidable (_ ∧ _ ∧ _))

theorem headMaxSeq_of_head :
    conversation.head ≤ conversationHeadMaxSeq (some conversation.head) (asI64 after) ∧
      conversationHeadMaxSeq (some conversation.head) (asI64 after) ≤
        max conversation.head after := by
  have hle := asI64_le after
  simp only [conversationHeadMaxSeq]
  omega

theorem reach_of_head {size : Nat} :
    reach conversation after size (conversationHeadMaxSeq (some conversation.head) (asI64 after)) =
      max conversation.head after := by
  have hh := @headMaxSeq_of_head conversation after
  have hme : maxMessageSeq (queryMessagesBySeq conversation (asI64 after) none size) after ≤
        max conversation.head after := by
    apply maxMessageSeq_le (Nat.le_max_right _ _)
    intro message hm
    obtain ⟨row, hr, -, rfl⟩ := mem_visible.mp (mem_window hm)
    exact (seq_le_head hr).trans (Nat.le_max_left _ _)
  unfold reach
  omega

section Page

theorem single_of_warm (hw : ¬ColdStart conversation after cursor limit) :
    singleConversationSync ⟨conversationId, after, 0, cursor, limit⟩ (some conversation.head)
        conversation =
      pageOf conversation conversationId after (clampLimit limit) (clampLimit limit + 1)
        (conversationHeadMaxSeq (some conversation.head) (asI64 after)) := by
  have hn : coldStartTailAfterSeq after cursor
      (conversationHeadMaxSeq (some conversation.head) (asI64 after)) (clampLimit limit) = none := by
    unfold coldStartTailAfterSeq
    split
    · rfl
    · rename_i hf
      rw [not_or, not_not, Bool.not_eq_false] at hf
      obtain ⟨rfl, hb⟩ := hf
      have hfi : ¬clampLimit limit < conversation.head := fun h => hw ⟨rfl, hb, h⟩
      have hh := @headMaxSeq_of_head conversation 0
      rw [if_pos (by omega)]
  simp only [singleConversationSync, Nat.lt_irrefl, if_false, hn]
  rfl

theorem warm_page (hw : ¬ColdStart conversation after cursor limit) :
    let page := singleConversationSync ⟨conversationId, after, 0, cursor, limit⟩
      (some conversation.head) conversation
    page.items = (List.range' (after + 1)
        (min conversation.head (after + clampLimit limit) - after)).map
          (conversation.item conversationId) ∧
      page.maxSeq = max after (min conversation.head (after + clampLimit limit)) ∧
      page.hasMore = decide (after + clampLimit limit < conversation.head) := by
  have hl := clampLimit_pos limit
  have hh := @head_lt conversation
  rw [single_of_warm hw]
  refine ⟨?_, ?_, ?_⟩
  · rw [contiguous_items (by omega) (by rw [reach_of_head]; omega), reach_of_head]
    congr 2
    omega
  · rw [contiguous_maxSeq, reach_of_head]
    omega
  · rw [contiguous_hasMore, reach_of_head, decide_eq_decide]
    omega

-- The tail page of a cold start: the messages stored under the last `limit` numbers.
theorem cold_page (hc : ColdStart conversation after cursor limit) :
    let page := singleConversationSync ⟨conversationId, after, 0, cursor, limit⟩
      (some conversation.head) conversation
    page.hasMore = false ∧
      page.items.length ≤ clampLimit limit ∧
      ∀ item, item ∈ page.items ↔ ∃ message ∈ conversation.visible,
        conversation.head - clampLimit limit < message.conversationSeq ∧
          item = messageToSyncItem message := by
  obtain ⟨rfl, hbl, hl⟩ := hc
  have hma : conversationHeadMaxSeq (some conversation.head) (asI64 0) = conversation.head := by
    have h := @headMaxSeq_of_head conversation 0
    omega
  have ht : coldStartTailAfterSeq 0 cursor conversation.head (clampLimit limit) =
      some (conversation.head - clampLimit limit) := by
    unfold coldStartTailAfterSeq
    rw [if_neg (by simp [hbl]), if_neg (by omega)]
  have hp : singleConversationSync ⟨conversationId, 0, 0, cursor, limit⟩
      (some conversation.head) conversation =
        buildTailSyncItems (queryMessagesBySeq conversation
          (asI64 ((conversation.head - clampLimit limit : Nat) : Nat)) none (clampLimit limit + 1))
          conversation.head := by
    simp only [singleConversationSync, Nat.lt_irrefl, if_false, hma, ht]
  have hs : conversation.head - clampLimit limit < 2 ^ 63 := by
    have h := @head_lt conversation
    omega
  have hb : ∀ message ∈ conversation.visible, message.conversationSeq ≤ conversation.head := by
    intro message hm
    obtain ⟨row, hr, -, rfl⟩ := mem_visible.mp hm
    exact seq_le_head hr
  rw [hp]
  refine ⟨rfl, ?_, ?_⟩
  · simp only [buildTailSyncItems, List.length_map]
    apply @Listing.length_le_of_ascending _ _ _ window_pairwise (conversation.head - clampLimit limit)
    · intro message hm
      exact lt_of_mem_window hs hm
    · intro message hm
      have h := hb message (mem_window hm)
      omega
  · intro item
    simp only [buildTailSyncItems, List.mem_map]
    constructor
    · rintro ⟨message, hm, rfl⟩
      exact ⟨message, mem_window hm, lt_of_mem_window hs hm, rfl⟩
    · rintro ⟨message, hv, ha, rfl⟩
      refine ⟨message, mem_window_of_le hs hv ha ?_, rfl⟩
      have h := hb message hv
      omega

end Page

section Pages

theorem page_length (hw : ¬ColdStart conversation after cursor limit) :
    (singleConversationSync ⟨conversationId, after, 0, cursor, limit⟩
      (some conversation.head) conversation).items.length ≤ clampLimit limit := by
  obtain ⟨hie, -, -⟩ := @warm_page _ conversationId _ _ _ hw
  rw [hie, List.length_map, List.length_range']
  omega

theorem syncPages_stop {req : SingleConversationSync} (fuel : Nat)
    (hm : (singleConversationSync req (some conversation.head) conversation).hasMore = false) :
    syncPages conversation (fuel + 1) req =
      some [singleConversationSync req (some conversation.head) conversation] := by
  simp only [syncPages, hm, Bool.false_eq_true, if_false]

theorem syncPages_last (fuel : Nat) (hw : ¬ColdStart conversation after cursor limit)
    (hl : conversation.head ≤ after + clampLimit limit) :
    ∃ pages, syncPages conversation (fuel + 1) ⟨conversationId, after, 0, cursor, limit⟩ =
        some pages ∧
      pages.flatMap (·.items) = (List.range' (after + 1) (conversation.head - after)).map
        (conversation.item conversationId) ∧
      ∀ page ∈ pages, page.items.length ≤ clampLimit limit := by
  obtain ⟨hie, -, hm⟩ := @warm_page _ conversationId _ _ _ hw
  rw [decide_eq_false (by omega)] at hm
  refine ⟨_, syncPages_stop fuel hm, ?_, ?_⟩
  · rw [List.flatMap_singleton, hie, min_eq_left hl]
  · intro page hp
    rw [List.mem_singleton.mp hp]
    exact page_length hw

-- By induction on what is left above the number asked from.
theorem syncPages_of_warm {left : Nat} (hlf : conversation.head - after ≤ left)
    (hw : ¬ColdStart conversation after cursor limit) :
    ∃ pages, syncPages conversation (left + 1) ⟨conversationId, after, 0, cursor, limit⟩ =
        some pages ∧
      pages.flatMap (·.items) = (List.range' (after + 1) (conversation.head - after)).map
        (conversation.item conversationId) ∧
      ∀ page ∈ pages, page.items.length ≤ clampLimit limit := by
  have hpo := clampLimit_pos limit
  induction left generalizing after cursor with
  | zero => exact syncPages_last 0 hw (by omega)
  | succ left ih =>
    by_cases hl : conversation.head ≤ after + clampLimit limit
    · exact syncPages_last (left + 1) hw hl
    · obtain ⟨hie, hm, hmo⟩ := @warm_page _ conversationId _ _ _ hw
      rw [decide_eq_true (by omega)] at hmo
      rw [show min conversation.head (after + clampLimit limit) = after + clampLimit limit by
        omega] at hie hm
      rw [show max after (after + clampLimit limit) = after + clampLimit limit by omega] at hm
      generalize hp : singleConversationSync ⟨conversationId, after, 0, cursor, limit⟩
        (some conversation.head) conversation = page at hie hm hmo
      have hwa : ¬ColdStart conversation (after + clampLimit limit) page.nextCursor
          limit := by
        intro hc
        have h := hc.1
        omega
      obtain ⟨pages, hpa, ha, hln⟩ := ih (by omega) hwa
      refine ⟨page :: pages, ?_, ?_, ?_⟩
      · rw [syncPages]
        simp only [hp, hmo, if_true, hm, hpa, Option.map_some]
      · rw [List.flatMap_cons, hie, ha, ← List.map_append,
          show after + clampLimit limit - after = clampLimit limit by omega,
          show after + clampLimit limit + 1 = after + 1 + clampLimit limit by omega,
          List.range'_append_1,
          show clampLimit limit + (conversation.head - (after + clampLimit limit)) =
            conversation.head - after by omega]
      · intro other ho
        rcases List.mem_cons.mp ho with rfl | hr
        · rw [← hp]
          exact page_length hw
        · exact hln other hr

-- A sync that is not a cold start shows every number above the one it starts from once, in order;
-- a cold start shows what is stored under the last `limit` numbers.
theorem incremental_sync_is_complete (conversation : Conversation) (conversationId cursor : String)
    (after : Nat) (limit : Int) :
    if ColdStart conversation after cursor limit then
      ∃ page, syncPages conversation 1 ⟨conversationId, after, 0, cursor, limit⟩ = some [page] ∧
        page.items.length ≤ clampLimit limit ∧
        ∀ item, item ∈ page.items ↔ ∃ message ∈ conversation.visible,
          conversation.head - clampLimit limit < message.conversationSeq ∧
            item = messageToSyncItem message
    else
      ∃ fuel pages,
        syncPages conversation fuel ⟨conversationId, after, 0, cursor, limit⟩ = some pages ∧
        pages.flatMap (·.items) = (List.range' (after + 1) (conversation.head - after)).map
          (conversation.item conversationId) ∧
        ∀ page ∈ pages, page.items.length ≤ clampLimit limit := by
  split
  · rename_i hcold
    obtain ⟨hmore, hlength, hitems⟩ := @cold_page _ conversationId _ _ _ hcold
    exact ⟨_, syncPages_stop 0 hmore, hlength, hitems⟩
  · rename_i hwarm
    obtain ⟨pages, hpages⟩ := @syncPages_of_warm _ conversationId _ _ _ _
      (Nat.le_refl _) hwarm
    exact ⟨_, pages, hpages⟩

end Pages

section Counterexample

def twoMessages : Conversation where
  rows := [⟨⟨"first", 1, 0, "", ""⟩, true⟩, ⟨⟨"second", 2, 0, "", ""⟩, true⟩]
  events := []
  ascending := by decide
  positive := by decide
  bounded := by decide
  events_bounded := by decide

-- A cold start with a limit of one leaves the first message out; a limit of zero brings a message.
theorem cold_start_leaves_numbers_out :
    ((syncPages twoMessages 3 ⟨"c", 0, 0, "", 1⟩).map fun pages =>
        decide ((pages.flatMap (·.items)).map (·.conversationSeq) =
          List.range' 1 twoMessages.head)) = some false ∧
      ((syncPages twoMessages 3 ⟨"c", 1, 0, "", 0⟩).map fun pages =>
        decide (∀ page ∈ pages, (page.items.length : Int) ≤ 0)) = some false := by
  decide

end Counterexample

end FlareIm.ConversationSync
