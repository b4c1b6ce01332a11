import FlareIm.ConversationSync
import FlareIm.Lib.Listing

namespace FlareIm.ConversationSync

section Stored

variable (conversation : Conversation)

-- The visible message of a number.
def Conversation.stored (n : Nat) : Option Message :=
  conversation.visible.find? fun message => message.conversationSeq == n

-- What a page that holds a number is to show for it.
def Conversation.item (conversationId : String) (n : Nat) : SyncSliceItem :=
  match conversation.stored n with
  | some message => messageToSyncItem message
  | none => missingItem conversationId n

variable {conversation}

theorem mem_visible {message : Message} :
    message ∈ conversation.visible ↔
      ∃ row ∈ conversation.rows, row.visible = true ∧ row.message = message := by
  simp only [Conversation.visible, List.mem_map, List.mem_filter]
  constructor
  · rintro ⟨row, ⟨hm, hv⟩, rfl⟩
    exact ⟨row, hm, hv, rfl⟩
  · rintro ⟨row, hm, hv, rfl⟩
    exact ⟨row, ⟨hm, hv⟩, rfl⟩

theorem visible_ascending :
    conversation.visible.Pairwise fun message other =>
      message.conversationSeq < other.conversationSeq := by
  rw [Conversation.visible, List.pairwise_map]
  exact conversation.ascending.filter _

theorem stored_eq_some {n : Nat} {message : Message} :
    conversation.stored n = some message ↔
      message ∈ conversation.visible ∧ message.conversationSeq = n :=
  Listing.find?_number_eq_some fun _ hm _ ho =>
    Listing.eq_of_number_eq visible_ascending hm ho

theorem stored_isSome {n : Nat} : (conversation.stored n).isSome ↔
      ∃ row ∈ conversation.rows, row.visible = true ∧ row.seq = n := by
  rw [Option.isSome_iff_exists]
  constructor
  · rintro ⟨message, hst⟩
    obtain ⟨hm, hs⟩ := stored_eq_some.mp hst
    obtain ⟨row, hr, hv, rfl⟩ := mem_visible.mp hm
    exact ⟨row, hr, hv, hs⟩
  · rintro ⟨row, hr, hv, hs⟩
    exact ⟨row.message, stored_eq_some.mpr ⟨mem_visible.mpr ⟨row, hr, hv, rfl⟩, hs⟩⟩

theorem foldl_max_start_le (numbers : List Nat) (start : Nat) :
    start ≤ numbers.foldl max start := by
  induction numbers generalizing start with
  | nil => exact Nat.le_refl start
  | cons n rest ih =>
    have h := ih (max start n)
    simp only [List.foldl_cons]
    omega

theorem le_foldl_max {numbers : List Nat} {start n : Nat} (hm : n ∈ numbers) :
    n ≤ numbers.foldl max start := by
  induction numbers generalizing start with
  | nil => exact absurd hm List.not_mem_nil
  | cons m rest ih =>
    rcases List.mem_cons.mp hm with rfl | hr
    · have h := foldl_max_start_le rest (max start n)
      simp only [List.foldl_cons]
      omega
    · exact ih hr

theorem seq_le_head {row : Row} (hr : row ∈ conversation.rows) :
    row.seq ≤ conversation.head :=
  le_foldl_max (List.mem_append_left _ (List.mem_map_of_mem hr))

theorem head_lt : conversation.head < 2 ^ 63 := by
  have hle : conversation.head ≤ 2 ^ 63 - 1 := by
    apply Listing.foldl_max_le (by omega)
    intro n hn
    rcases List.mem_append.mp hn with hr | hev
    · obtain ⟨row, hm, rfl⟩ := List.mem_map.mp hr
      have hlt := conversation.bounded row hm
      omega
    · have hlt := conversation.events_bounded n hev
      omega
  omega

end Stored

section Windows

variable {conversation : Conversation} {after limit size n : Nat} {message : Message}

theorem asI64_le (n : Nat) : asI64 n ≤ n := by
  unfold asI64
  split <;> omega

theorem mem_window (h : message ∈ queryMessagesBySeq conversation (asI64 after) none size) :
    message ∈ conversation.visible := by
  simp only [queryMessagesBySeq, Option.isSome_none, Bool.false_eq_true, and_false, if_false] at h
  exact (List.mem_filter.mp (List.mem_of_mem_take h)).1

theorem asI64_of_lt (h : after < 2 ^ 63) : asI64 after = after := if_pos h

theorem lt_of_mem_window (hs : after < 2 ^ 63)
    (h : message ∈ queryMessagesBySeq conversation (asI64 after) none size) :
    after < message.conversationSeq := by
  simp only [queryMessagesBySeq, Option.isSome_none, Bool.false_eq_true, and_false, if_false,
    asI64_of_lt hs, Option.all_none, Bool.and_true] at h
  simpa using (List.mem_filter.mp (List.mem_of_mem_take h)).2

theorem mem_window_of_le (hs : after < 2 ^ 63) (hv : message ∈ conversation.visible)
    (ha : after < message.conversationSeq) (hle : message.conversationSeq ≤ after + size) :
    message ∈ queryMessagesBySeq conversation (asI64 after) none size := by
  simp only [queryMessagesBySeq, Option.isSome_none, Bool.false_eq_true, and_false, if_false,
    asI64_of_lt hs, Option.all_none, Bool.and_true]
  apply Listing.mem_take_of_le_add (visible_ascending.filter _) ?_
    (List.mem_filter.mpr ⟨hv, by simpa using ha⟩) hle
  intro other ho
  simpa using (List.mem_filter.mp ho).2

theorem mem_window_of_le_mem {last : Message} (hs : after < 2 ^ 63)
    (hv : message ∈ conversation.visible) (ha : after < message.conversationSeq)
    (hl : last ∈ queryMessagesBySeq conversation (asI64 after) none size)
    (hle : message.conversationSeq ≤ last.conversationSeq) :
    message ∈ queryMessagesBySeq conversation (asI64 after) none size := by
  simp only [queryMessagesBySeq, Option.isSome_none, Bool.false_eq_true, and_false, if_false,
    asI64_of_lt hs, Option.all_none, Bool.and_true] at hl ⊢
  exact Listing.mem_take_of_le (visible_ascending.filter _)
    (List.mem_filter.mpr ⟨hv, by simpa using ha⟩) hl hle

theorem maxMessageSeq_le {messages : List Message} {start bound : Nat} (hs : start ≤ bound)
    (h : ∀ message ∈ messages, message.conversationSeq ≤ bound) :
    maxMessageSeq messages start ≤ bound := by
  unfold maxMessageSeq
  cases hma : (messages.map (·.conversationSeq)).max? with
  | none => exact hs
  | some largest =>
    obtain ⟨message, hm, rfl⟩ := List.mem_map.mp (List.max?_mem hma)
    exact h message hm

theorem exists_maxMessageSeq {messages : List Message} {start : Nat}
    (h : start < maxMessageSeq messages start) :
    ∃ message ∈ messages, message.conversationSeq = maxMessageSeq messages start := by
  unfold maxMessageSeq at h ⊢
  cases hma : (messages.map (·.conversationSeq)).max? with
  | none =>
    rw [hma] at h
    exact absurd h (Nat.lt_irrefl start)
  | some largest =>
    obtain ⟨message, hm, hs⟩ := List.mem_map.mp (List.max?_mem hma)
    exact ⟨message, hm, hs⟩

theorem maxMessageSeq_window_lt :
    maxMessageSeq (queryMessagesBySeq conversation (asI64 after) none size) after < 2 ^ 63 ∨
      maxMessageSeq (queryMessagesBySeq conversation (asI64 after) none size) after ≤ after := by
  by_cases h : after < maxMessageSeq (queryMessagesBySeq conversation (asI64 after) none size) after
  · obtain ⟨message, hm, hs⟩ := exists_maxMessageSeq h
    obtain ⟨row, hr, -, rfl⟩ := mem_visible.mp (mem_window hm)
    have hlt := conversation.bounded row hr
    have hro : row.seq = _ := hs
    omega
  · exact Or.inr (Nat.le_of_not_lt h)

theorem window_pairwise :
    (queryMessagesBySeq conversation (asI64 after) none size).Pairwise fun message other =>
      message.conversationSeq < other.conversationSeq := by
  simp only [queryMessagesBySeq, Option.isSome_none, Bool.false_eq_true, and_false, if_false]
  exact (visible_ascending.filter _).sublist (List.take_sublist _ _)

theorem pageMessage_eq_some {messages : List Message}
    (hv : ∀ message ∈ messages, message ∈ conversation.visible) :
    pageMessage messages n = some message ↔ message ∈ messages ∧ message.conversationSeq = n := by
  rw [← List.mem_reverse]
  apply Listing.find?_number_eq_some
  intro message hm other ho hs
  exact Listing.eq_of_number_eq visible_ascending (hv _ (List.mem_reverse.mp hm))
    (hv _ (List.mem_reverse.mp ho)) hs

theorem pageItem_window {conversationId : String} {pageEnd : Nat} (hsm : after < 2 ^ 63)
    (ha : after < n) (hen : n ≤ pageEnd) (hsi : pageEnd ≤ after + size) : pageItem conversationId
      ((queryMessagesBySeq conversation (asI64 after) none size).filter fun message =>
        decide (after < message.conversationSeq) && decide (message.conversationSeq ≤ pageEnd)) n =
      conversation.item conversationId n := by
  have hl : ∀ message, pageMessage
      ((queryMessagesBySeq conversation (asI64 after) none size).filter fun message =>
        decide (after < message.conversationSeq) && decide (message.conversationSeq ≤ pageEnd)) n =
        some message ↔ conversation.stored n = some message := by
    intro message
    rw [pageMessage_eq_some fun _ hm => mem_window (List.mem_filter.mp hm).1, stored_eq_some,
      List.mem_filter]
    constructor
    · rintro ⟨⟨hw, -⟩, hse⟩
      exact ⟨mem_window hw, hse⟩
    · rintro ⟨hv, rfl⟩
      exact ⟨⟨mem_window_of_le hsm hv ha (hen.trans hsi), by simp [ha, hen]⟩, rfl⟩
  have hsa := Option.ext hl
  cases hs : conversation.stored n with
  | none | some message => simp only [pageItem, Conversation.item, hsa, hs]

end Windows

section Contiguous

variable {conversation : Conversation} {conversationId : String} {after limit size headMaxSeq : Nat}

-- How far the numbers known to a page reach.
def reach (conversation : Conversation) (after size headMaxSeq : Nat) : Nat :=
  max (max headMaxSeq
    (maxMessageSeq (queryMessagesBySeq conversation (asI64 after) none size) after)) after

def pageOf (conversation : Conversation) (conversationId : String) (after limit size : Nat)
    (headMaxSeq : Nat) : SyncPage :=
  buildContiguousSyncItems conversationId after limit
    (queryMessagesBySeq conversation (asI64 after) none size) headMaxSeq

theorem contiguous_maxSeq :
    (pageOf conversation conversationId after limit size headMaxSeq).maxSeq =
      min (reach conversation after size headMaxSeq) (after + max limit 1) := by
  simp only [pageOf, buildContiguousSyncItems]
  rw [← reach]
  have hr : after ≤ reach conversation after size headMaxSeq := Nat.le_max_right _ _
  split
  · simp only
    omega
  · rfl

theorem contiguous_hasMore :
    (pageOf conversation conversationId after limit size headMaxSeq).hasMore =
      decide (after + max limit 1 < reach conversation after size headMaxSeq) := by
  simp only [pageOf, buildContiguousSyncItems]
  rw [← reach]
  split
  · symm
    simp only [decide_eq_false_iff_not]
    omega
  · rw [decide_eq_decide]
    omega

theorem contiguous_items (hl : max limit 1 ≤ size)
    (hb : reach conversation after size headMaxSeq < 2 ^ 63 ∨
      reach conversation after size headMaxSeq = after) :
    (pageOf conversation conversationId after limit size headMaxSeq).items =
      (List.range' (after + 1)
        (min (reach conversation after size headMaxSeq) (after + max limit 1) - after)).map
          (conversation.item conversationId) := by
  simp only [pageOf, buildContiguousSyncItems]
  rw [← reach]
  have hr : after ≤ reach conversation after size headMaxSeq := Nat.le_max_right _ _
  split
  · rw [show min (reach conversation after size headMaxSeq) (after + max limit 1) - after = 0 by
      omega]
    rfl
  · apply List.map_congr_left
    intro n hn
    rw [List.mem_range'_1] at hn
    apply pageItem_window (by omega) (by omega) (by omega)
    omega

end Contiguous

end FlareIm.ConversationSync
