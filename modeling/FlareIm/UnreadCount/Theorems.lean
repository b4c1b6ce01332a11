import FlareIm.Lib.Listing
import FlareIm.UnreadCount
import Mathlib.Data.List.Perm.Subperm

namespace FlareIm.UnreadCount

open Text ConversationTables Transition

variable {row : MessageRow} {userId : String}

section Feed

variable {setup : SmallConversation}

-- The messages after the first events of the feed, as the writer archives them.
def view (setup : SmallConversation) (count : Nat) : List MessageRow :=
  (setup.feed.take count).foldl archiveEvent []

theorem view_succ {count : Nat} {event : FeedEvent} (hev : setup.feed[count]? = some event) :
    view setup (count + 1) = archiveEvent (view setup count) event := by
  simp [view, List.take_add_one, hev]

def messageId : FeedEvent → Option String
  | .message row => some row.serverId
  | .recall _ => none

theorem map_serverId_archiveEvent (messages : List MessageRow) (event : FeedEvent) :
    (archiveEvent messages event).map (·.serverId) =
      messages.map (·.serverId) ++ [event].filterMap messageId := by
  cases event with
  | message row => simp [archiveEvent, messageId]
  | «recall» serverMsgId =>
    by_cases hb : isBlank serverMsgId
    · simp [archiveEvent, hb, messageId]
    · have hid : (fun row : MessageRow => row.serverId) ∘ recallMessage serverMsgId =
          fun row => row.serverId := by
        funext row
        simp only [Function.comp_apply, recallMessage]
        split <;> rfl
      simp [archiveEvent, hb, messageId, hid]

theorem map_serverId_foldl (events : List FeedEvent) (messages : List MessageRow) :
    (events.foldl archiveEvent messages).map (·.serverId) =
      messages.map (·.serverId) ++ events.filterMap messageId := by
  induction events generalizing messages with
  | nil => simp
  | cons event rest ih =>
    rw [List.foldl_cons, ih, map_serverId_archiveEvent, List.append_assoc, ← List.filterMap_append]
    rfl

theorem nodup_messageIds (setup : SmallConversation) : (setup.feed.filterMap messageId).Nodup :=
  setup.messageIds

theorem nodup_view (count : Nat) : (view setup count).Nodup := by
  have hids : ((view setup count).map (·.serverId)).Nodup := by
    rw [view, map_serverId_foldl]
    exact (nodup_messageIds setup).sublist ((List.take_sublist _ _).filterMap _)
  exact hids.of_map _

-- Recalls change nothing of a message but its status.
def SameMessage (row sent : MessageRow) : Prop :=
  row.serverId = sent.serverId ∧ row.senderId = sent.senderId ∧ row.seq = sent.seq

theorem exists_sent_of_mem_foldl {events : List FeedEvent}
    (hr : row ∈ events.foldl archiveEvent []) :
    ∃ sent, .message sent ∈ events ∧ SameMessage row sent := by
  induction events using List.reverseRecOn generalizing row with
  | nil => exact absurd hr List.not_mem_nil
  | append_singleton events event ih =>
    rw [List.foldl_append, List.foldl_cons, List.foldl_nil] at hr
    have hold : ∀ {old : MessageRow}, old ∈ events.foldl archiveEvent [] →
        SameMessage row old → ∃ sent, .message sent ∈ events ++ [event] ∧ SameMessage row sent := by
      intro old hold hs
      obtain ⟨sent, hsn, hid, hse, hsq⟩ := ih hold
      exact ⟨sent, List.mem_append_left _ hsn, hs.1.trans hid, hs.2.1.trans hse, hs.2.2.trans hsq⟩
    cases event with
    | message sent =>
      rcases List.mem_append.mp hr with hm | hm
      · exact hold hm ⟨rfl, rfl, rfl⟩
      · cases List.mem_singleton.mp hm
        exact ⟨row, by simp, rfl, rfl, rfl⟩
    | «recall» serverMsgId =>
      simp only [archiveEvent] at hr
      split at hr
      · exact hold hr ⟨rfl, rfl, rfl⟩
      · obtain ⟨old, hm, rfl⟩ := List.mem_map.mp hr
        refine hold hm ?_
        unfold recallMessage
        split <;> exact ⟨rfl, rfl, rfl⟩

theorem sameMessage_of_views {count count' : Nat} {other : MessageRow}
    (hr : row ∈ view setup count) (ho : other ∈ view setup count')
    (hid : row.serverId = other.serverId) : SameMessage row other := by
  obtain ⟨sent, hse, hs⟩ := exists_sent_of_mem_foldl hr
  obtain ⟨sent', hse', hs'⟩ := exists_sent_of_mem_foldl ho
  have heq : sent = sent' :=
    FeedEvent.message.inj (Listing.eq_of_nodup_filterMap (nodup_messageIds setup)
      (List.mem_of_mem_take hse) (List.mem_of_mem_take hse') rfl
      (congrArg some (hs'.1.symm.trans (hid.symm.trans hs.1))))
  subst heq
  exact ⟨hid, hs.2.1.trans hs'.2.1.symm, hs.2.2.trans hs'.2.2.symm⟩

end Feed

section Counting

variable {conversation : ConversationRow} {participant : ParticipantRow} {rows : List MessageRow}

-- What a member's stored count must not exceed, as long as nothing was cleared.
def Bounded (conversation : ConversationRow) (rows : List MessageRow)
    (participant : ParticipantRow) : Prop :=
  clearedThroughSeq conversation participant ≤ 0 →
    participant.unreadCount ≤ unreadTruth conversation participant rows

theorem unreadTruth_nonneg : 0 ≤ unreadTruth conversation participant rows :=
  Int.natCast_nonneg _

theorem countsAsUnread_iff {floor : Int} :
    countsAsUnread floor userId row = true ↔
      floor < row.seq ∧ row.senderId ≠ userId ∧ row.status ∉ UNREAD_EXCLUDED_STATUSES := by
  simp [countsAsUnread, and_assoc]

theorem countP_le_of_mem {rows other : List MessageRow} {p q : MessageRow → Bool}
    (hn : rows.Nodup) (hm : ∀ row ∈ rows, p row → row ∈ other ∧ q row) :
    rows.countP p ≤ other.countP q := by
  rw [List.countP_eq_length_filter, List.countP_eq_length_filter]
  refine List.Subperm.length_le ((hn.filter p).subperm ?_)
  intro row hr
  obtain ⟨hr, hp⟩ := List.mem_filter.mp hr
  exact List.mem_filter.mpr (hm row hr hp)

theorem incrementUnread_eq (row : MessageRow) :
    incrementUnread conversation participant row.senderId row.seq row.status =
      if ¬ participant.isDeleted ∧
          countsAsUnread (unreadFloor conversation participant) participant.userId row then
        { participant with unreadCount := participant.unreadCount + 1 }
      else participant := by
  unfold incrementUnread
  by_cases hde : participant.isDeleted
  · rw [if_pos hde, if_neg fun h => h.1 hde]
  · rw [if_neg hde]
    by_cases hs : participant.userId = row.senderId
    · rw [if_pos hs, if_neg fun h => (countsAsUnread_iff.mp h.2).2.1 hs.symm]
    · rw [if_neg hs]
      by_cases hst : row.status ∈ UNREAD_EXCLUDED_STATUSES
      · rw [if_pos hst, if_neg fun h => (countsAsUnread_iff.mp h.2).2.2 hst]
      · rw [if_neg hst]
        by_cases hf : unreadFloor conversation participant ≥ row.seq
        · rw [if_pos hf, if_neg fun h => not_le.mpr (countsAsUnread_iff.mp h.2).1 hf]
        · have hc := countsAsUnread_iff.mpr ⟨not_le.mp hf, Ne.symm hs, hst⟩
          rw [if_neg hf, if_pos ⟨hde, hc⟩]

theorem bounded_append (hb : Bounded conversation rows participant) :
    Bounded conversation (rows ++ [row]) participant := by
  intro hc
  apply (hb hc).trans
  simp only [unreadTruth, List.countP_append]
  omega

theorem incrementUnread_bounded (hb : Bounded conversation rows participant) :
    Bounded conversation (rows ++ [row])
      (incrementUnread conversation participant row.senderId row.seq row.status) := by
  rw [incrementUnread_eq]
  split
  · rename_i hco
    intro hc
    have hold := hb hc
    have ha : unreadTruth conversation participant (rows ++ [row]) =
        unreadTruth conversation participant rows + 1 := by
      simp [unreadTruth, List.countP_append, hco.2]
    show participant.unreadCount + 1 ≤ unreadTruth conversation participant (rows ++ [row])
    omega
  · exact bounded_append hb

theorem countP_split (rows : List MessageRow) (floor position : Int) (userId : String) :
    rows.countP (countsAsUnread floor userId) =
      rows.countP (fun row => countsAsUnread floor userId row && row.seq ≤ position) +
        rows.countP (countsAsUnread (max position floor) userId) := by
  induction rows with
  | nil => rfl
  | cons row rest ih =>
    have hr : (if countsAsUnread floor userId row then 1 else 0) =
        (if countsAsUnread floor userId row && row.seq ≤ position then 1 else 0) +
          (if countsAsUnread (max position floor) userId row then 1 else 0) := by
      by_cases ha : position < row.seq
      · simp [countsAsUnread, ha, not_le.mpr ha]
      · simp [countsAsUnread, ha, not_lt.mp ha]
    simp only [List.countP_cons, ih]
    omega

def nextReadSeq (conversation : ConversationRow) (participant : ParticipantRow)
    (messages : List MessageRow) (seq : Int) : Int :=
  min (max participant.lastReadSeq seq)
    (max (max conversation.lastMessageSeq (tailSeq messages)) seq)

theorem markAsRead_unreadCount (messages : List MessageRow) (seq : Int) :
    (markAsRead conversation participant messages seq).unreadCount =
      if nextReadSeq conversation participant messages seq ≤ participant.lastReadSeq then
        max participant.unreadCount 0
      else if nextReadSeq conversation participant messages seq ≥
          max (max conversation.lastMessageSeq (tailSeq messages)) seq then 0
      else
        max (participant.unreadCount - ((messages.countP fun row =>
          countsAsUnread (unreadFloor conversation participant) participant.userId row &&
            row.seq ≤ nextReadSeq conversation participant messages seq : Nat) : Int)) 0 := rfl

theorem markAsRead_floor (messages : List MessageRow) (seq : Int) :
    unreadFloor conversation (markAsRead conversation participant messages seq) =
      max (nextReadSeq conversation participant messages seq)
        (listFloorSeq conversation participant) := rfl

theorem markAsRead_truth (messages : List MessageRow) (seq : Int) :
    unreadTruth conversation (markAsRead conversation participant messages seq) rows =
      ((rows.countP (countsAsUnread (max (nextReadSeq conversation participant messages seq)
        (listFloorSeq conversation participant)) participant.userId) : Nat) : Int) := rfl

-- Reading up to a position takes from the count what the archive holds up to it, so nothing
-- the count includes there may be missing from the archive.
theorem markAsRead_bounded {messages : List MessageRow} {seq : Int}
    (hb : Bounded conversation rows participant) (hno : rows.Nodup)
    (ha : seq < max conversation.lastMessageSeq (tailSeq messages) →
      ∀ row ∈ rows, countsAsUnread (unreadFloor conversation participant) participant.userId row →
        row.seq ≤ seq → row ∈ messages) :
    Bounded conversation rows (markAsRead conversation participant messages seq) := by
  intro hcl
  have hold := hb hcl
  have hn := @unreadTruth_nonneg conversation (markAsRead conversation participant messages seq)
    rows
  rw [markAsRead_unreadCount]
  split
  · rename_i hba
    -- a position at or below the one before only lowers the floor
    have hle : unreadFloor conversation (markAsRead conversation participant messages seq) ≤
        unreadFloor conversation participant := by
      rw [markAsRead_floor]
      exact max_le_max_right _ hba
    have hg : unreadTruth conversation participant rows ≤
        unreadTruth conversation (markAsRead conversation participant messages seq) rows := by
      refine Int.ofNat_le.mpr (List.countP_mono_left fun row _ hc => ?_)
      obtain ⟨hab, hre⟩ := countsAsUnread_iff.mp hc
      exact countsAsUnread_iff.mpr ⟨lt_of_le_of_lt hle hab, hre⟩
    exact max_le (hold.trans hg) hn
  · rename_i hf
    split
    · exact hn
    · rename_i hin
      have hs : nextReadSeq conversation participant messages seq = seq := by
        unfold nextReadSeq at hf hin ⊢
        omega
      have hfl : max seq (listFloorSeq conversation participant) =
          max seq (unreadFloor conversation participant) := by
        unfold unreadFloor
        omega
      -- what the count loses is what the truth loses, or more
      have hl : rows.countP (fun row => countsAsUnread (unreadFloor conversation participant)
            participant.userId row && row.seq ≤ seq) ≤
          messages.countP (fun row => countsAsUnread (unreadFloor conversation participant)
            participant.userId row && row.seq ≤ seq) := by
        refine countP_le_of_mem hno fun row hr hc => ?_
        obtain ⟨hu, hle⟩ := Bool.and_eq_true_iff.mp hc
        exact ⟨ha (by omega) row hr hu (of_decide_eq_true hle), hc⟩
      have hsp := countP_split rows (unreadFloor conversation participant) seq participant.userId
      unfold unreadTruth at hold
      rw [markAsRead_truth, hs, hfl]
      omega

section Retract

variable {messages : List MessageRow} {target : MessageRow}

theorem mem_map_recallMessage {serverMsgId : String} (hr : row ∈ rows)
    (hid : row.serverId ≠ serverMsgId) : row ∈ rows.map (recallMessage serverMsgId) :=
  List.mem_map.mpr ⟨row, hr, if_neg hid⟩

-- A member whose own message it is, or who has passed it, does not count it before or after.
theorem unreadTruth_recall_eq
    (hsa : ∀ row ∈ rows, row.serverId = target.serverId → SameMessage row target)
    (hu : target.seq ≤ unreadFloor conversation participant ∨
      participant.userId = target.senderId) :
    unreadTruth conversation participant (rows.map (recallMessage target.serverId)) =
      unreadTruth conversation participant rows := by
  simp only [unreadTruth, List.countP_map]
  congr 1
  refine List.countP_congr fun row hr => ?_
  by_cases hid : row.serverId = target.serverId
  · obtain ⟨-, hs, hse⟩ := hsa row hr hid
    have hn : ∀ other : MessageRow, other.seq = row.seq → other.senderId = row.senderId →
        ¬ countsAsUnread (unreadFloor conversation participant) participant.userId other = true := by
      intro other hoe hoh hc
      obtain ⟨ha, ho, -⟩ := countsAsUnread_iff.mp hc
      rcases hu with hp | hon
      · omega
      · exact ho (hoh.trans (hs.trans hon.symm))
    simp only [Function.comp_apply, recallMessage, if_pos hid]
    exact iff_of_false (hn _ rfl rfl) (hn _ rfl rfl)
  · simp only [Function.comp_apply, recallMessage, if_neg hid]

theorem retractUnread_bounded (hb : Bounded conversation rows participant)
    (hh : participant.isDeleted → participant.unreadCount ≤ 0) (hno : messages.Nodup)
    (hs : ∀ row ∈ rows, row.serverId = target.serverId → SameMessage row target)
    (hc : 0 < participant.unreadCount → ∀ row ∈ messages, row.serverId ≠ target.serverId →
        countsAsUnread (unreadFloor conversation participant) participant.userId row → row ∈ rows) :
    Bounded conversation (rows.map (recallMessage target.serverId))
      (retractUnread conversation participant messages target) := by
  have hk : participant.unreadCount ≤ 0 ∨ target.seq ≤ unreadFloor conversation participant ∨
      participant.userId = target.senderId →
      Bounded conversation (rows.map (recallMessage target.serverId)) participant := by
    rintro (hn | hun) hcl
    · exact hn.trans unreadTruth_nonneg
    · rw [unreadTruth_recall_eq hs hun]
      exact hb hcl
  simp only [retractUnread]
  split
  · rename_i hut
    apply hk
    rcases hut with hde | hn | hpa | hon
    · exact .inl (hh hde)
    · exact .inl hn
    · refine .inr (.inl ?_)
      unfold unreadFloor listFloorSeq
      omega
    · exact .inr (.inr hon)
  · rename_i ht
    intro _
    have hp : 0 < participant.unreadCount := by
      by_contra hn
      exact ht (.inr (.inl (not_lt.mp hn)))
    refine (min_le_right _ _).trans (Int.ofNat_le.mpr ?_)
    refine countP_le_of_mem hno fun row hr hco => ?_
    obtain ⟨hu, ho⟩ := Bool.and_eq_true_iff.mp hco
    have hid : row.serverId ≠ target.serverId := of_decide_eq_true ho
    exact ⟨mem_map_recallMessage (hc hp row hr hid hu) hid, hu⟩

end Retract

section Clearing

theorem softDelete_bounded (messages : List MessageRow) :
    Bounded conversation rows (softDelete conversation participant messages) :=
  fun _ => unreadTruth_nonneg

theorem clearOwnHistory_bounded {messages : List MessageRow} {throughSeq : Int}
    (hb : Bounded conversation rows participant) (hp : 0 ≤ participant.historyClearedThroughSeq) :
    Bounded conversation rows (clearOwnHistory conversation participant messages throughSeq) := by
  unfold clearOwnHistory
  split
  · exact hb
  · intro hc
    -- a cleared position that is still zero was not moved
    have hs : max participant.historyClearedThroughSeq
        (min throughSeq (max (max conversation.lastMessageSeq (tailSeq messages)) 0)) =
        participant.historyClearedThroughSeq := by
      unfold clearedThroughSeq at hc
      dsimp only at hc
      omega
    rw [hs] at hc ⊢
    exact hb hc

theorem recountCleared_bounded {cleared : ConversationRow} {messages : List MessageRow}
    (hb : Bounded conversation rows participant) (hp : 0 ≤ conversation.historyClearedThroughSeq)
    (ha : conversation.historyClearedThroughSeq ≤ cleared.historyClearedThroughSeq) :
    Bounded cleared rows (recountCleared cleared participant messages) := by
  intro hc
  have hz : clearedThroughSeq cleared participant ≤ 0 := by
    unfold recountCleared at hc
    split at hc <;> exact hc
  have hs : cleared.historyClearedThroughSeq = conversation.historyClearedThroughSeq := by
    unfold clearedThroughSeq at hz
    omega
  have hf : unreadFloor cleared participant = unreadFloor conversation participant := by
    unfold unreadFloor listFloorSeq clearedThroughSeq
    rw [hs]
  have hold : participant.unreadCount ≤ unreadTruth cleared participant rows := by
    unfold unreadTruth
    rw [hf]
    apply hb
    unfold clearedThroughSeq at hz ⊢
    rwa [hs] at hz
  unfold recountCleared
  split
  · exact (min_le_left _ _).trans hold
  · exact hold

end Clearing

end Counting

section Members

variable {conversation : ConversationRow} {participant : ParticipantRow}
  {rows messages : List MessageRow}

-- What holds of every member while the consumer has the given messages applied.
structure Sound (conversation : ConversationRow) (rows : List MessageRow)
    (participant : ParticipantRow) : Prop where
  cleared : 0 ≤ participant.historyClearedThroughSeq
  hidden : participant.isDeleted → participant.unreadCount ≤ 0
  bounded : Bounded conversation rows participant

theorem Sound.append (hs : Sound conversation rows participant) (row : MessageRow) :
    Sound conversation (rows ++ [row]) participant :=
  { hs with bounded := bounded_append hs.bounded }

theorem Sound.incrementUnread (hs : Sound conversation rows participant) (row : MessageRow) :
    Sound conversation (rows ++ [row])
      (incrementUnread conversation participant row.senderId row.seq row.status) where
  bounded := incrementUnread_bounded hs.bounded
  cleared := by
    rw [incrementUnread_eq]
    split <;> exact hs.cleared
  hidden := by
    rw [incrementUnread_eq]
    split
    · rename_i hc
      exact fun hde => absurd hde hc.1
    · exact hs.hidden

theorem Sound.retractUnread {target : MessageRow} (hs : Sound conversation rows participant)
    (hn : messages.Nodup)
    (hsa : ∀ row ∈ rows, row.serverId = target.serverId → SameMessage row target)
    (hc : 0 < participant.unreadCount → ∀ row ∈ messages, row.serverId ≠ target.serverId →
        countsAsUnread (unreadFloor conversation participant) participant.userId row → row ∈ rows) :
    Sound conversation (rows.map (recallMessage target.serverId))
      (retractUnread conversation participant messages target) where
  bounded := retractUnread_bounded hs.bounded hs.hidden hn hsa hc
  cleared := by
    simp only [UnreadCount.retractUnread]
    split <;> exact hs.cleared
  hidden := by
    simp only [UnreadCount.retractUnread]
    split
    · exact hs.hidden
    · rename_i ht
      exact fun hde => absurd (.inl hde) ht

theorem Sound.markAsRead {seq : Int} (hs : Sound conversation rows participant) (hno : rows.Nodup)
    (ha : seq < max conversation.lastMessageSeq (tailSeq messages) →
      ∀ row ∈ rows, countsAsUnread (unreadFloor conversation participant) participant.userId row →
        row.seq ≤ seq → row ∈ messages) :
    Sound conversation rows (markAsRead conversation participant messages seq) where
  bounded := markAsRead_bounded hs.bounded hno ha
  cleared := hs.cleared
  hidden hde := by
    have hn := hs.hidden hde
    rw [markAsRead_unreadCount]
    split
    · omega
    · split <;> omega

theorem Sound.softDelete (hs : Sound conversation rows participant) :
    Sound conversation rows (softDelete conversation participant messages) where
  bounded := softDelete_bounded messages
  cleared := hs.cleared
  hidden _ := le_refl 0

theorem Sound.restore (hs : Sound conversation rows participant) :
    Sound conversation rows (restore participant) where
  bounded := hs.bounded
  cleared := hs.cleared
  hidden hde := absurd hde (by simp [UnreadCount.restore])

theorem Sound.clearOwnHistory {throughSeq : Int} (hs : Sound conversation rows participant) :
    Sound conversation rows (clearOwnHistory conversation participant messages throughSeq) where
  bounded := clearOwnHistory_bounded hs.bounded hs.cleared
  cleared := by
    unfold UnreadCount.clearOwnHistory
    split
    · exact hs.cleared
    · exact hs.cleared.trans (le_max_left _ _)
  hidden := by
    unfold UnreadCount.clearOwnHistory
    split <;> exact hs.hidden

theorem Sound.recountCleared {cleared : ConversationRow} (hs : Sound conversation rows participant)
    (hp : 0 ≤ conversation.historyClearedThroughSeq)
    (ha : conversation.historyClearedThroughSeq ≤ cleared.historyClearedThroughSeq) :
    Sound cleared rows (recountCleared cleared participant messages) where
  bounded := recountCleared_bounded hs.bounded hp ha
  cleared := by
    unfold UnreadCount.recountCleared
    split <;> exact hs.cleared
  hidden := by
    unfold UnreadCount.recountCleared
    split
    · exact fun hde => (min_le_left _ _).trans (hs.hidden hde)
    · exact hs.hidden

theorem forall_updateMember {state : Conversation} {P : ParticipantRow → Prop}
    {update : ParticipantRow → ParticipantRow}
    (ha : ∀ participant ∈ state.participants, P participant)
    (hup : ∀ participant ∈ state.participants, participant.userId = userId → P participant →
      P (update participant)) :
    ∀ participant ∈ (updateMember userId update state).participants, P participant := by
  intro participant hm
  obtain ⟨old, hold, rfl⟩ := List.mem_map.mp hm
  split
  · rename_i hu
    exact hup old hold hu (ha old hold)
  · exact ha old hold

end Members

section Runs

variable {setup : SmallConversation} {state next : State} {action : Action}

-- The recalled message is archived, and whatever else the archive holds unread for a member with
-- a count has been applied by the consumer, no recall of it included.
def RecallInStep (setup : SmallConversation) (state : State) (serverMsgId : String) : Prop :=
  (∃ target ∈ state.conversation.messages, target.serverId = serverMsgId) ∧
  ∀ participant ∈ state.conversation.participants, 0 < participant.unreadCount →
    ∀ row ∈ state.conversation.messages, row.serverId ≠ serverMsgId →
      countsAsUnread (unreadFloor state.conversation.row participant) participant.userId row →
        row ∈ view setup state.consumed

-- A position short of the tail is marked as read when all the consumer has counted up to it
-- for the member is archived and not recalled there.
def ReadInStep (setup : SmallConversation) (state : State) (userId : String) (seq : Int) : Prop :=
  seq < max state.conversation.row.lastMessageSeq (tailSeq state.conversation.messages) →
    ∀ participant ∈ state.conversation.participants, participant.userId = userId →
      ∀ row ∈ view setup state.consumed,
        countsAsUnread (unreadFloor state.conversation.row participant) participant.userId row →
          row.seq ≤ seq → row ∈ state.conversation.messages

def InStep (setup : SmallConversation) (state : State) : Action → Prop
  | .consume => ∀ serverMsgId, setup.feed[state.consumed]? = some (.recall serverMsgId) →
      isBlank serverMsgId = false → RecallInStep setup state serverMsgId
  | .markAsRead userId seq => ReadInStep setup state userId seq
  | _ => True

structure Inv (setup : SmallConversation) (state : State) : Prop where
  archive : state.conversation.messages = view setup state.archived
  cleared : 0 ≤ state.conversation.row.historyClearedThroughSeq
  members : ∀ participant ∈ state.conversation.participants,
    Sound state.conversation.row (view setup state.consumed) participant
  size : state.conversation.participants.length = setup.participants.length

theorem inv_initial (setup : SmallConversation) : Inv setup (initial setup) where
  archive := rfl
  cleared := setup.cleared.1
  size := rfl
  members participant hm := by
    have hf := setup.fresh participant hm
    exact ⟨setup.cleared.2 participant hm, fun _ => hf.le, fun _ => hf.le.trans unreadTruth_nonneg⟩

theorem abovePreciseUnreadThreshold_eq_false {conversation : Conversation}
    (hs : conversation.participants.length = setup.participants.length) :
    abovePreciseUnreadThreshold setup.threshold conversation = false := by
  have hc : conversation.participants.countP (!·.isDeleted) ≤ setup.participants.length :=
    hs ▸ List.countP_le_length
  have hsm := setup.small
  simp only [abovePreciseUnreadThreshold, Bool.and_eq_false_iff, decide_eq_false_iff_not]
  omega

theorem inv_consume_message (hin : Inv setup state)
    (hev : setup.feed[state.consumed]? = some (.message row)) :
    Inv setup { state with
      conversation := consumeEvent setup.threshold state.conversation (.message row)
      consumed := state.consumed + 1 } := by
  have hv : view setup (state.consumed + 1) = view setup state.consumed ++ [row] :=
    view_succ hev
  simp only [consumeEvent]
  split
  · refine ⟨hin.archive, hin.cleared, fun participant hm => ?_, hin.size⟩
    rw [hv]
    exact (hin.members participant hm).append row
  · simp only [applyMessageEvent, abovePreciseUnreadThreshold_eq_false
      (show (advanceLastMessageSeq row.seq state.conversation).participants.length = _ from
        hin.size), Bool.false_eq_true, if_false]
    refine ⟨hin.archive, hin.cleared, fun participant hm => ?_, ?_⟩
    · obtain ⟨old, hold, rfl⟩ := List.mem_map.mp hm
      rw [hv]
      -- the last sequence number is no part of a member's floor
      have ha : Sound (advanceLastMessageSeq row.seq state.conversation).row
          (view setup state.consumed) old := by
        obtain ⟨hc, hh, hb⟩ := hin.members old hold
        exact ⟨hc, hh, hb⟩
      exact ha.incrementUnread row
    · rw [List.length_map]
      exact hin.size

theorem inv_consume_recall {serverMsgId : String} (hin : Inv setup state)
    (hev : setup.feed[state.consumed]? = some (.recall serverMsgId))
    (hok : isBlank serverMsgId = false → RecallInStep setup state serverMsgId) :
    Inv setup { state with
      conversation := consumeEvent setup.threshold state.conversation (.recall serverMsgId)
      consumed := state.consumed + 1 } := by
  have hv := view_succ hev
  simp only [consumeEvent, retractMessageUnread, abovePreciseUnreadThreshold_eq_false hin.size]
  by_cases hb : isBlank serverMsgId
  · rw [if_pos hb]
    simp only [archiveEvent, if_pos hb] at hv
    refine ⟨hin.archive, hin.cleared, fun participant hm => ?_, hin.size⟩
    rw [hv]
    exact hin.members participant hm
  · obtain ⟨⟨known, hkn, hk⟩, hc⟩ := hok (by simpa using hb)
    simp only [archiveEvent, if_neg hb] at hv
    rw [if_neg hb, if_neg Bool.false_ne_true]
    cases hf : state.conversation.messages.find? (·.serverId = serverMsgId) with
    | none =>
      have hn := List.find?_eq_none.mp hf known hkn
      exact absurd (decide_eq_true hk) hn
    | some target =>
      have ht : target ∈ state.conversation.messages := List.mem_of_find?_eq_some hf
      have hid : target.serverId = serverMsgId := by simpa using List.find?_some hf
      subst hid
      refine ⟨hin.archive, hin.cleared, fun participant hm => ?_, ?_⟩
      · obtain ⟨old, hold, rfl⟩ := List.mem_map.mp hm
        rw [hv]
        refine (hin.members old hold).retractUnread (hin.archive ▸ nodup_view _) ?_
          fun hp => hc old hold hp
        intro row hr hs
        exact sameMessage_of_views hr (hin.archive ▸ ht) hs
      · rw [List.length_map]
        exact hin.size

theorem inv_updateMember {update : ParticipantRow → ParticipantRow} (hin : Inv setup state)
    (hu : ∀ participant ∈ state.conversation.participants, participant.userId = userId →
      Sound state.conversation.row (view setup state.consumed) participant →
      Sound state.conversation.row (view setup state.consumed) (update participant)) :
    Inv setup { state with conversation := updateMember userId update state.conversation } where
  archive := hin.archive
  cleared := hin.cleared
  members := forall_updateMember hin.members hu
  size := (List.length_map _).trans hin.size

theorem inv_clearHistoryForEveryone (hin : Inv setup state) :
    Inv setup { state with conversation := clearHistoryForEveryone state.conversation } := by
  have ha : state.conversation.row.historyClearedThroughSeq ≤
      (clearHistoryForEveryone state.conversation).row.historyClearedThroughSeq :=
    (le_max_left _ _).trans (le_max_left _ _)
  refine ⟨hin.archive, hin.cleared.trans ha, fun participant hm => ?_,
    (List.length_map _).trans hin.size⟩
  obtain ⟨old, hold, rfl⟩ := List.mem_map.mp hm
  exact (hin.members old hold).recountCleared hin.cleared ha

theorem inv_step (hin : Inv setup state) (hok : InStep setup state action)
    (hs : step setup state action = some next) : Inv setup next := by
  cases action with
  | archive =>
    obtain ⟨event, hev, rfl⟩ := Option.map_eq_some_iff.mp hs
    refine ⟨?_, hin.cleared, hin.members, hin.size⟩
    rw [view_succ hev, ← hin.archive]
  | advance =>
    simp only [step] at hs
    split at hs
    · split at hs
      · cases hs
      · cases hs
        refine ⟨hin.archive, hin.cleared, fun participant hm => ?_, hin.size⟩
        obtain ⟨hc, hh, hb⟩ := hin.members participant hm
        exact ⟨hc, hh, hb⟩
    · cases hs
  | consume =>
    obtain ⟨event, hev, rfl⟩ := Option.map_eq_some_iff.mp hs
    cases event with
    | message row => exact inv_consume_message hin hev
    | «recall» serverMsgId => exact inv_consume_recall hin hev (hok serverMsgId hev)
  | markAsRead userId seq =>
    simp only [step] at hs
    split at hs
    · cases hs
    · cases hs
      exact inv_updateMember hin fun participant hm hu hso =>
        hso.markAsRead (nodup_view _) fun hsh => hok hsh participant hm hu
  | hide userId =>
    cases hs
    exact inv_updateMember hin fun _ _ _ hso => hso.softDelete
  | restore userId =>
    cases hs
    exact inv_updateMember hin fun _ _ _ hso => hso.restore
  | clearHistory userId throughSeq =>
    cases hs
    exact inv_updateMember hin fun _ _ _ hso => hso.clearOwnHistory
  | clearHistoryForEveryone =>
    simp only [step] at hs
    split at hs
    · cases hs
    · cases hs
      exact inv_clearHistoryForEveryone hin

end Runs

section Convergence

def note (serverId : String) (seq : Int) : MessageRow :=
  { tenantId := "t", conversationId := "c", serverId, senderId := "alice", seq }

end Convergence

end FlareIm.UnreadCount
