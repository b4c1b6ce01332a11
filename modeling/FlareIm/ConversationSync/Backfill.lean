import FlareIm.ConversationSync.Theorems
import FlareIm.Lib.Keyset

namespace FlareIm.ConversationSync

section Reader

-- An entry of `message_visibility`.
structure VisibilityEntry where
  status : Int
  scope : Int
  userId : String

-- A row of `messages` with its entries. The attribute of the message is the one it is stored with.
structure StoredMessage where
  message : Message
  burnStatus : Int
  visibility : List VisibilityEntry

def StoredMessage.seq (row : StoredMessage) : Nat := row.message.conversationSeq

structure Participant where
  visibleFromSeq : Nat
  historyClearedThroughSeq : Nat

structure StoredConversation where
  messages : List StoredMessage
  participant : String → Option Participant
  historyClearedThroughSeq : Nat
  ascending : messages.Pairwise fun row other => row.seq < other.seq
  positive : ∀ row ∈ messages, 0 < row.seq
  bounded : ∀ row ∈ messages, row.seq < 2 ^ 63

inductive ContentVisibility where
  | available
  | hidden
  | redacted
  | purged
  deriving DecidableEq

def LEGACY_BURN_STATUS_BURN_PENDING : Int := 3
def LEGACY_BURN_STATUS_BURNED : Int := 4
def LEGACY_BURN_STATUS_HARD_DELETED : Int := 5

def legacyRetentionState (burnStatus : Int) : Option ContentVisibility :=
  if burnStatus = LEGACY_BURN_STATUS_BURN_PENDING then some .available
  else if burnStatus = LEGACY_BURN_STATUS_BURNED then some .redacted
  else if burnStatus = LEGACY_BURN_STATUS_HARD_DELETED then some .purged
  else none

-- `visible_from_seq_sql`: who is no participant sees nothing.
def StoredConversation.visibleFromSeq (conversation : StoredConversation) (userId : String) : Nat :=
  match conversation.participant userId with
  | some participant =>
    max (max participant.visibleFromSeq participant.historyClearedThroughSeq)
      conversation.historyClearedThroughSeq
  | none => 2 ^ 63 - 1

def StoredMessage.hiddenFrom (row : StoredMessage) (userId : String) : Bool :=
  row.visibility.any fun entry =>
    (entry.status == 1 || entry.status == 2) &&
      (entry.scope == 2 || (entry.scope == 1 && entry.userId == userId))

-- The columns a query returns. No query selects the one of the burn status.
structure MessageRow where
  message : Message
  burnStatus : Option Int

def messageRowProjection (userId : String) (row : StoredMessage) : MessageRow where
  message :=
    if row.hiddenFrom userId then
      { row.message with content := "", syncSkip := "visibility_filtered" }
    else row.message
  burnStatus := none

-- A message with its retention state.
structure RetainedMessage where
  message : Message
  retentionState : Option ContentVisibility

def rowToMessage (row : MessageRow) : RetainedMessage where
  message := row.message
  retentionState := legacyRetentionState (row.burnStatus.getD 0)

def contentVisibility (message : RetainedMessage) : ContentVisibility :=
  message.retentionState.getD .available

-- What becomes of a burned message: it is left out, or its content is.
def applyBurnQueryVisibility (includePlaceholder : Bool) (message : RetainedMessage) :
    Option Message :=
  match contentVisibility message with
  | .hidden | .redacted | .purged =>
    if includePlaceholder then some { message.message with content := "" } else none
  | .available => some message.message

def isBackfillTailPage (afterSeq : Int) (beforeSeq : Option Int) : Bool :=
  afterSeq == 0 && beforeSeq.isSome

-- The rows of the query in ascending order.
def rowsBetween (conversation : StoredConversation) (userId : String) (afterSeq : Int)
    (beforeSeq : Option Int) : List StoredMessage :=
  conversation.messages.filter fun row =>
    decide (max afterSeq (conversation.visibleFromSeq userId) < row.seq) &&
      beforeSeq.all fun before => decide ((row.seq : Int) < before)

def storageQueryMessagesBySeq (conversation : StoredConversation) (userId : String)
    (afterSeq : Int) (beforeSeq : Option Int) (limit : Int) (includeBurnedPlaceholder : Bool) :
    List Message :=
  let limit := (max 1 (min limit 1000)).toNat
  let found := rowsBetween conversation userId afterSeq beforeSeq
  let rows :=
    if isBackfillTailPage afterSeq beforeSeq then found.reverse.take limit else found.take limit
  let messages := (rows.map (messageRowProjection userId)).filterMap fun row =>
    applyBurnQueryVisibility includeBurnedPlaceholder (rowToMessage row)
  if isBackfillTailPage afterSeq beforeSeq then messages.reverse else messages

-- The answer of the reader, which asks for one message more than it was asked for.
def readerQueryMessagesBySeq (conversation : StoredConversation) (userId : String)
    (afterSeq beforeSeq limit : Int) : List Message :=
  let requestedLimit := max limit 1
  let before := if beforeSeq = 0 then none else some beforeSeq
  let messages := storageQueryMessagesBySeq conversation userId afterSeq before
    (requestedLimit + 1) false
  if requestedLimit < messages.length then
    if isBackfillTailPage afterSeq before then
      messages.drop (messages.length - requestedLimit.toNat)
    else messages.take requestedLimit.toNat
  else messages

-- A sync of what is before a number. The number is sent on as a signed one.
def backfillSync (conversation : StoredConversation) (userId : String) (before : Nat)
    (limit : Int) : SyncPage :=
  let limit := clampLimit limit
  let messages := readerQueryMessagesBySeq conversation userId 0 (asI64 before) (limit + 1)
  buildBackfillSyncItems (messages.drop (messages.length - limit))
    (decide (limit < messages.length))

-- A page of a client that goes on before the smallest number returned so far, newest item first.
def backfillPage (conversation : StoredConversation) (userId : String) (limit : Int) (_ : Unit)
    (before : Nat) : Unit × Option (Keyset.Page Nat SyncSliceItem) :=
  let page := backfillSync conversation userId before limit
  ((), some
    { rows := page.items.reverse
      next := (page.items.map (·.conversationSeq)).foldl min before
      hasMore := page.hasMore })

end Reader

section Purpose

variable (conversation : StoredConversation) (userId : String) (start : Nat) (limit : Int)

def StoredMessage.burned (row : StoredMessage) : Bool :=
  (legacyRetentionState row.burnStatus).getD .available != .available

-- The messages of the conversation a user is to see.
def StoredConversation.visibleTo : List Message :=
  (conversation.messages.filter fun row =>
    decide (conversation.visibleFromSeq userId < row.seq) && !row.hiddenFrom userId &&
      !row.burned).map StoredMessage.message

def ordinaryItem (message : Message) : SyncSliceItem :=
  ⟨message.conversationSeq, message.createdAt, .message message⟩

-- A client that begins at a number gets every visible message before it, each once, and is told
-- that there is no more only when there is none.
structure BackfillComplete : Prop where
  returned : ∃ items,
    Keyset.drain (backfillPage conversation userId limit) (conversation.messages.length + 1) ()
      start = some items ∧
    ∀ message ∈ conversation.visibleTo userId, message.conversationSeq < start →
      items.filter (fun item => item.conversationSeq == message.conversationSeq) =
        [ordinaryItem message]
  ended : ∀ before, 0 < before → before ≤ start →
    (backfillSync conversation userId before limit).hasMore = false →
      ∀ message ∈ conversation.visibleTo userId, message.conversationSeq < before →
        message.conversationSeq ∈
          (backfillSync conversation userId before limit).items.map (·.conversationSeq)

end Purpose

section Window

variable {conversation : StoredConversation} {userId : String} {before start : Nat} {limit : Int}
  {row : StoredMessage} {message : Message}

-- The conversation as the user reads it.
def StoredConversation.readBy (conversation : StoredConversation) (userId : String) :
    Conversation where
  rows := conversation.messages.map fun row =>
    ⟨(messageRowProjection userId row).message,
      decide (conversation.visibleFromSeq userId < row.seq)⟩
  events := []
  ascending := by
    rw [List.pairwise_map]
    refine conversation.ascending.imp fun {row other} h => ?_
    simp only [Row.seq, messageRowProjection, StoredMessage.seq] at h ⊢
    split <;> split <;> exact h
  positive := by
    intro read hread
    obtain ⟨row, hrow, rfl⟩ := List.mem_map.mp hread
    have h := conversation.positive row hrow
    simp only [Row.seq, messageRowProjection, StoredMessage.seq] at h ⊢
    split <;> exact h
  bounded := by
    intro read hread
    obtain ⟨row, hrow, rfl⟩ := List.mem_map.mp hread
    have h := conversation.bounded row hrow
    simp only [Row.seq, messageRowProjection, StoredMessage.seq] at h ⊢
    split <;> exact h
  events_bounded := by simp

@[simp] theorem projection_seq :
    (messageRowProjection userId row).message.conversationSeq = row.seq := by
  simp only [messageRowProjection, StoredMessage.seq]
  split <;> rfl

theorem applyBurn_projection (includePlaceholder : Bool) :
    applyBurnQueryVisibility includePlaceholder (rowToMessage (messageRowProjection userId row)) =
      some (messageRowProjection userId row).message := rfl

theorem readBy_visible : (conversation.readBy userId).visible =
      (conversation.messages.filter fun row =>
        decide (conversation.visibleFromSeq userId < row.seq)).map
          fun row => (messageRowProjection userId row).message := by
  simp only [Conversation.visible, StoredConversation.readBy, List.filter_map, List.map_map]
  rfl

theorem rowsBetween_projected (before : Int) : (rowsBetween conversation userId 0 (some before)).map
        (fun row => (messageRowProjection userId row).message) =
      (conversation.readBy userId).visible.filter fun message =>
        decide ((0 : Int) < message.conversationSeq) &&
          (some before).all fun before => decide ((message.conversationSeq : Int) < before) := by
  rw [readBy_visible, List.filter_map, List.filter_filter, rowsBetween]
  congr 1
  refine List.filter_congr fun row hr => ?_
  have hp := conversation.positive row hr
  simp only [Function.comp_apply, projection_seq, Option.all_some]
  rw [Bool.eq_iff_iff]
  simp only [Bool.and_eq_true, decide_eq_true_eq]
  omega

theorem reader_eq_query {before limit : Int} (hb : before ≠ 0) (hl : 1 ≤ limit)
    (hma : limit < 1000) : readerQueryMessagesBySeq conversation userId 0 before limit =
      queryMessagesBySeq (conversation.readBy userId) 0 (some before) limit.toNat := by
  have hf := @rowsBetween_projected conversation userId before
  have hs : storageQueryMessagesBySeq conversation userId 0 (some before) (limit + 1) false =
      ((rowsBetween conversation userId 0 (some before)).map
        fun row => (messageRowProjection userId row).message).drop
          ((rowsBetween conversation userId 0 (some before)).length - (limit.toNat + 1)) := by
    have hsi : (max 1 (min (limit + 1) 1000)).toNat = limit.toNat + 1 := by omega
    simp only [storageQueryMessagesBySeq, isBackfillTailPage, hsi, List.filterMap_map]
    have hr : ((fun row => applyBurnQueryVisibility false (rowToMessage row)) ∘
        messageRowProjection userId) =
          some ∘ fun row => (messageRowProjection userId row).message :=
      funext fun row => applyBurn_projection false
    simp only [hr, List.filterMap_eq_map, beq_self_eq_true, Option.isSome_some, Bool.and_self,
      if_true, List.take_reverse, List.map_reverse, List.reverse_reverse, List.map_drop]
  have hm : max limit 1 = limit := by omega
  rw [readerQueryMessagesBySeq, queryMessagesBySeq, ← hf]
  simp only [hm, if_neg hb, hs, isBackfillTailPage, beq_self_eq_true,
    Option.isSome_some, Bool.and_self, if_true, List.length_drop, List.length_map,
    List.drop_drop, and_self]
  split
  · congr 1
    omega
  · congr 1
    omega

theorem backfillSync_eq (conversationId cursor : String) (head : Option Nat)
    (hp : 0 < before) (hb : before < 2 ^ 64) : backfillSync conversation userId before limit =
      singleConversationSync ⟨conversationId, 0, before, cursor, limit⟩ head
        (conversation.readBy userId) := by
  have hne : asI64 before ≠ 0 := by
    unfold asI64
    split <;> omega
  have hl := clampLimit_pos limit
  have hm := clampLimit_le limit
  rw [backfillSync, singleConversationSync, if_pos hp]
  rw [reader_eq_query hne (by omega) (by omega)]
  rfl

-- What is before a number, oldest first.
def before_ (conversation : StoredConversation) (userId : String) (before : Nat) : List Message :=
  (conversation.readBy userId).visible.filter fun message =>
    decide (message.conversationSeq < before)

theorem backfillSync_of_small (hpo : 0 < before) (hs : before < 2 ^ 63) :
    backfillSync conversation userId before limit = buildBackfillSyncItems
        ((before_ conversation userId before).drop
          ((before_ conversation userId before).length - clampLimit limit))
        (decide (clampLimit limit < (before_ conversation userId before).length)) := by
  have hf : (conversation.readBy userId).visible.filter (fun message =>
        decide ((0 : Int) < message.conversationSeq) &&
          (some (before : Int)).all fun before =>
            decide ((message.conversationSeq : Int) < before)) =
      before_ conversation userId before := by
    refine List.filter_congr fun message hm => ?_
    obtain ⟨row, hr, -, rfl⟩ := mem_visible.mp hm
    have hp := (conversation.readBy userId).positive row hr
    simp only [Row.seq] at hp
    simp only [Option.all_some]
    rw [Bool.eq_iff_iff]
    simp only [Bool.and_eq_true, decide_eq_true_eq]
    omega
  rw [backfillSync_eq "" "" none hpo (by omega), singleConversationSync, if_pos hpo,
    queryMessagesBySeq, asI64_of_lt hs]
  simp only [hf, Option.isSome_some, and_self, if_true, List.length_drop, List.drop_drop]
  congr 1
  · congr 1
    omega
  · congr 1
    rw [eq_iff_iff]
    omega

theorem backfillSync_of_large (hl : 2 ^ 63 ≤ before) (hb : before < 2 ^ 64) :
    backfillSync conversation userId before limit = buildBackfillSyncItems [] false := by
  have hng : asI64 before < 0 := by
    unfold asI64
    rw [if_neg (by omega)]
    omega
  have hn : (conversation.readBy userId).visible.filter (fun message =>
        decide ((0 : Int) < message.conversationSeq) &&
          (some (asI64 before)).all fun before =>
            decide ((message.conversationSeq : Int) < before)) = [] := by
    rw [List.filter_eq_nil_iff]
    intro message _
    simp only [Option.all_some, Bool.and_eq_true, decide_eq_true_eq]
    omega
  have hp : 0 < before := by omega
  rw [backfillSync_eq "" "" none hp hb, singleConversationSync, if_pos hp,
    queryMessagesBySeq]
  simp only [hn, List.length_nil, List.drop_nil, ite_self, List.take_nil]
  rfl

end Window

section Pages

variable {conversation : StoredConversation} {userId : String} {before start : Nat} {limit : Int}
  {message : Message}

theorem before_ascending :
    (before_ conversation userId before).Pairwise fun message other =>
      message.conversationSeq < other.conversationSeq :=
  visible_ascending.filter _

theorem mem_before : message ∈ before_ conversation userId before ↔
    message ∈ (conversation.readBy userId).visible ∧ message.conversationSeq < before := by
  simp [before_]

theorem before_of_drop {k : Nat} {rest : List Message}
    (hdr : (before_ conversation userId before).drop k = message :: rest) :
    before_ conversation userId message.conversationSeq =
      (before_ conversation userId before).take k := by
  rw [← Listing.filter_lt_eq_take before_ascending hdr]
  have hm : message ∈ before_ conversation userId before :=
    List.mem_of_mem_drop (hdr ▸ List.mem_cons_self)
  have hlt := (mem_before.mp hm).2
  rw [before_, before_, List.filter_filter]
  refine List.filter_congr fun other _ => ?_
  rw [Bool.eq_iff_iff]
  simp only [Bool.and_eq_true, decide_eq_true_eq]
  omega

theorem backfillPage_serves (hp : 0 < before) (hs : before < 2 ^ 63) :
    ∃ page, backfillPage conversation userId limit () before = ((), some page) ∧ Keyset.Serves
        (fun next rest => 0 < next ∧ next < 2 ^ 63 ∧
          rest = ((before_ conversation userId next).map messageToSyncItem).reverse)
        (clampLimit limit)
        ((before_ conversation userId before).map messageToSyncItem).reverse page := by
  refine ⟨_, rfl, ?_, ?_, ?_⟩
  · simp only [backfillSync_of_small hp hs, buildBackfillSyncItems, List.take_reverse,
      List.length_map, List.map_drop]
  · simp only [backfillSync_of_small hp hs, buildBackfillSyncItems, List.length_reverse,
      List.length_map]
  · simp only [List.length_reverse, List.length_map]
    intro hmo
    have hl := clampLimit_pos limit
    obtain ⟨message, rest, hdr⟩ : ∃ message rest, (before_ conversation userId before).drop
        ((before_ conversation userId before).length - clampLimit limit) = message :: rest := by
      refine List.exists_cons_of_ne_nil fun hni => ?_
      rw [List.drop_eq_nil_iff] at hni
      omega
    have hm : message ∈ before_ conversation userId before :=
      List.mem_of_mem_drop (hdr ▸ List.mem_cons_self)
    obtain ⟨hv, hlt⟩ := mem_before.mp hm
    have hme : 0 < message.conversationSeq := by
      obtain ⟨row, hr, -, rfl⟩ := mem_visible.mp hv
      exact (conversation.readBy userId).positive row hr
    have hn : ((backfillSync conversation userId before limit).items.map
        (·.conversationSeq)).foldl min before = message.conversationSeq := by
      rw [backfillSync_of_small hp hs, buildBackfillSyncItems, hdr, List.map_map]
      exact Listing.foldl_min_of_head
        (hdr ▸ before_ascending.sublist (List.drop_sublist _ _)) hlt.le
    rw [hn, before_of_drop hdr]
    refine ⟨hme, by omega, ?_⟩
    rw [List.drop_reverse, List.length_map, List.map_take]

theorem drain_backfill (hpo : 0 < start) (hsm : start < 2 ^ 63) :
    Keyset.drain (backfillPage conversation userId limit) (conversation.messages.length + 1) ()
        start =
      some ((before_ conversation userId start).map messageToSyncItem).reverse := by
  refine Keyset.drain_eq_some (fun _ => True)
    (fun next rest => 0 < next ∧ next < 2 ^ 63 ∧
      rest = ((before_ conversation userId next).map messageToSyncItem).reverse)
    (clampLimit_pos limit) ?_ trivial ⟨hpo, hsm, rfl⟩ ?_
  · rintro - next rest - ⟨hn, hb, rfl⟩
    obtain ⟨page, hp, hs⟩ :=
      @backfillPage_serves conversation userId next limit hn hb
    exact ⟨(), page, hp, trivial, hs⟩
  · have hf : (before_ conversation userId start).length ≤
        (conversation.readBy userId).visible.length := List.length_filter_le _ _
    have hr : (conversation.readBy userId).visible.length ≤ conversation.messages.length := by
      rw [readBy_visible, List.length_map]
      exact List.length_filter_le _ _
    rw [List.length_reverse, List.length_map]
    omega

theorem mem_readBy_of_visible (h : message ∈ conversation.visibleTo userId) :
    message ∈ (conversation.readBy userId).visible := by
  obtain ⟨row, hr, rfl⟩ := List.mem_map.mp h
  obtain ⟨hm, hv⟩ := List.mem_filter.mp hr
  simp only [Bool.and_eq_true, Bool.not_eq_true', decide_eq_true_eq] at hv
  obtain ⟨⟨hf, hs⟩, -⟩ := hv
  rw [readBy_visible]
  refine List.mem_map.mpr ⟨row, List.mem_filter.mpr ⟨hm, decide_eq_true hf⟩, ?_⟩
  simp [messageRowProjection, hs]

theorem messageToSyncItem_eq_ordinary :
    messageToSyncItem message = ordinaryItem message ↔ Text.isBlank message.syncSkip = true := by
  unfold messageToSyncItem ordinaryItem
  split
  · rename_i hb
    simp [hb]
  · rename_i hm
    simp [hm]

theorem returned_items (hm : message ∈ before_ conversation userId start) :
    ((before_ conversation userId start).map messageToSyncItem).reverse.filter
        (fun item => item.conversationSeq == message.conversationSeq) =
      [messageToSyncItem message] := by
  rw [List.filter_reverse, List.filter_map]
  have ho := Listing.filter_number_eq before_ascending hm
  have hs : ((fun item : SyncSliceItem => item.conversationSeq == message.conversationSeq) ∘
      messageToSyncItem) = fun other => other.conversationSeq == message.conversationSeq := rfl
  rw [hs, ho]
  rfl

theorem mem_of_ended (hp : 0 < before) (hs : before < 2 ^ 63)
    (hen : (backfillSync conversation userId before limit).hasMore = false)
    (hm : message ∈ before_ conversation userId before) : message.conversationSeq ∈
      (backfillSync conversation userId before limit).items.map (·.conversationSeq) := by
  rw [backfillSync_of_small hp hs] at hen ⊢
  simp only [buildBackfillSyncItems, decide_eq_false_iff_not, Nat.not_lt] at hen
  rw [buildBackfillSyncItems, Nat.sub_eq_zero_of_le hen, List.drop_zero, List.map_map]
  exact List.mem_map_of_mem hm

-- Backward paging returns every message a user is to see exactly when it begins below 2^63 and
-- none of them is stored with the mark of a skipped one, or there is none.
theorem backfill_complete_iff (conversation : StoredConversation) (userId : String) (start : Nat)
    (limit : Int) (hpos : 0 < start) (hstart : start < 2 ^ 64) :
    BackfillComplete conversation userId start limit ↔
      ∀ message ∈ conversation.visibleTo userId, message.conversationSeq < start →
        start < 2 ^ 63 ∧ Text.isBlank message.syncSkip = true := by
  by_cases hsmall : start < 2 ^ 63
  · have hdrain := @drain_backfill conversation userId start limit hpos hsmall
    constructor
    · rintro ⟨⟨items, hitems, hreturned⟩, -⟩ message hmem hlt
      have hbefore := mem_before.mpr ⟨mem_readBy_of_visible hmem, hlt⟩
      have hitem := hreturned message hmem hlt
      rw [Option.some.inj (hitems.symm.trans hdrain), returned_items hbefore] at hitem
      exact ⟨hsmall, messageToSyncItem_eq_ordinary.mp (List.singleton_inj.mp hitem)⟩
    · intro h
      refine ⟨⟨_, hdrain, fun message hmem hlt => ?_⟩, ?_⟩
      · have hbefore := mem_before.mpr ⟨mem_readBy_of_visible hmem, hlt⟩
        rw [returned_items hbefore, messageToSyncItem_eq_ordinary.mpr (h message hmem hlt).2]
      · intro before hbefore hle hended message hmem hlt
        exact mem_of_ended hbefore (by omega) hended
          (mem_before.mpr ⟨mem_readBy_of_visible hmem, hlt⟩)
  · have hpage := @backfillSync_of_large conversation userId start limit (by omega) hstart
    constructor
    · intro h message hmem hlt
      have hshown := h.ended start hpos (Nat.le_refl _) (by rw [hpage]; rfl) message hmem hlt
      rw [hpage] at hshown
      exact absurd hshown List.not_mem_nil
    · intro h
      have hnone : ∀ message ∈ conversation.visibleTo userId, ¬ message.conversationSeq < start :=
        fun message hmem hlt => hsmall (h message hmem hlt).1
      refine ⟨⟨[], ?_, fun message hmem hlt => absurd hlt (hnone message hmem)⟩, ?_⟩
      · rw [Keyset.drain, backfillPage, hpage]
        rfl
      · intro before _ hle _ message hmem hlt
        exact absurd (Nat.lt_of_lt_of_le hlt hle) (hnone message hmem)

-- A message, a burned one, one that is hidden from bob, and another message.
def mixedConversation : StoredConversation where
  messages :=
    [⟨⟨"m1", 1, 10, "first", ""⟩, 0, []⟩, ⟨⟨"m2", 2, 20, "", ""⟩, 4, []⟩,
      ⟨⟨"m3", 3, 30, "third", ""⟩, 0, [⟨1, 1, "bob"⟩]⟩, ⟨⟨"m4", 4, 40, "fourth", ""⟩, 0, []⟩]
  participant userId := if userId = "bob" then some ⟨0, 0⟩ else none
  historyClearedThroughSeq := 0
  ascending := by decide
  positive := by decide
  bounded := by decide

theorem mixed_backfill_complete : BackfillComplete mixedConversation "bob" 5 1 :=
  (backfill_complete_iff mixedConversation "bob" 5 1 (by decide) (by decide)).mpr
    (by decide +kernel)

-- From 2^63 on a client is told that there is nothing.
theorem large_start_returns_nothing :
    (backfillSync mixedConversation "bob" (2 ^ 63) 20).items = [] ∧
      (backfillSync mixedConversation "bob" (2 ^ 63) 20).hasMore = false ∧
      ¬ BackfillComplete mixedConversation "bob" (2 ^ 63) 20 := by
  have hitems : (backfillSync mixedConversation "bob" (2 ^ 63) 20).items = [] := by decide +kernel
  have hended : (backfillSync mixedConversation "bob" (2 ^ 63) 20).hasMore = false := by
    decide +kernel
  refine ⟨hitems, hended, fun h => ?_⟩
  have hshown := h.ended (2 ^ 63) (by decide) (Nat.le_refl _) hended ⟨"m1", 1, 10, "first", ""⟩
    (by decide +kernel) (by decide)
  rw [hitems] at hshown
  exact absurd hshown List.not_mem_nil

end Pages

end FlareIm.ConversationSync
