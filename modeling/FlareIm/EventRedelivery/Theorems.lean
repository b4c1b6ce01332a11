import FlareIm.EventRedelivery

namespace FlareIm.EventRedelivery

open Text ConversationTables UnreadCount Transition

variable {participant : ParticipantRow} {update : ParticipantRow → ParticipantRow}

section Statement

-- The last sequence number, and the read position and the unread count of every member.
def counts (conversation : Conversation) : Int × List (String × Int × Int) :=
  (conversation.row.lastMessageSeq,
    conversation.participants.map fun participant =>
      (participant.userId, participant.lastReadSeq, participant.unreadCount))

variable (setup : Setup)

-- Each event that was delivered was processed at least once.
def State.Settled (state : State) : Prop :=
  ∀ event ∈ state.delivered, event ∈ state.processed

def State.AsOnce (state : State) : Prop :=
  state.Settled → counts state.conversation = counts (once setup state.processed)

-- The last sequence number the processed message events have brought.
def processedSeq (events : List Nat) : Int :=
  events.foldl (fun last event => match advancedSeq (setup.event event) with
    | none => last
    | some seq => max last seq) setup.conversation.row.lastMessageSeq

-- The message adds to nobody's count.
def MessageNeutral (conversation : Conversation) (senderId : String) (seq status : Int) : Prop :=
  abovePreciseUnreadThreshold setup.threshold conversation = true ∨
    status ∈ UNREAD_EXCLUDED_STATUSES ∨
      ∀ participant ∈ conversation.participants, participant.isDeleted = true ∨
        participant.userId = senderId ∨ seq ≤ unreadFloor conversation.row participant

-- The member has read so far, and not past the last message.
def ReadNeutral (conversation : Conversation) (userId : String) (seq : Int) : Prop :=
  ∀ participant ∈ conversation.participants, participant.userId = userId →
    seq ≤ participant.lastReadSeq ∧ participant.lastReadSeq ≤
      max (max conversation.row.lastMessageSeq (tailSeq conversation.messages)) seq

-- Whoever may not have read the message has no more unread than the archive holds without it.
def RetractionNeutral (conversation : Conversation) (serverMsgId : String) : Prop :=
  abovePreciseUnreadThreshold setup.threshold conversation = true ∨
    ∀ target, conversation.messages.find? (·.serverId = serverMsgId) = some target →
      ∀ participant ∈ conversation.participants, participant.isDeleted = true ∨
        target.seq ≤ max (max participant.lastReadSeq participant.lastSyncSeq)
          (clearedThroughSeq conversation.row participant) ∨
        participant.userId = target.senderId ∨
        participant.unreadCount ≤ ((conversation.messages.countP fun row =>
          countsAsUnread (unreadFloor conversation.row participant) participant.userId row &&
            row.serverId ≠ target.serverId : Nat) : Int)

def Neutral (conversation : Conversation) (event : MessageEvent) : Prop :=
  match event with
  | .message senderId conversationSeq status =>
    senderId = "" ∨ conversationSeq ≤ 0 ∨
      MessageNeutral setup conversation senderId conversationSeq status
  | .read _ _ => ∀ userId seq, readPosition event = some (userId, seq) →
      ReadNeutral conversation userId seq
  | .recall _ | .delete _ _ _ => ∀ serverMsgId, retractedMessage event = some serverMsgId →
      isBlank serverMsgId = true ∨ RetractionNeutral setup conversation serverMsgId
  | .other => True

-- The sequence numbers of failed deliveries, which lie between `last` and that of the conversation,
-- make no difference for the position.
def ReadUndisturbed (conversation : Conversation) (last : Int) (userId : String) (seq : Int) :
    Prop :=
  let known := max last (tailSeq conversation.messages)
  conversation.row.lastMessageSeq ≤ max known seq ∨
    ∀ participant ∈ conversation.participants, participant.userId = userId →
      participant.lastReadSeq ≤ max known seq ∧ (seq ≤ participant.lastReadSeq ∨ seq < known)

def Regular (state : State) (action : Action) : Prop :=
  action.delivery = .processed →
    if action.event ∈ state.processed then
      Neutral setup state.conversation (setup.event action.event)
    else
      ∀ userId seq, readPosition (setup.event action.event) = some (userId, seq) →
        ReadUndisturbed state.conversation (processedSeq setup state.processed) userId seq

end Statement

section Sequence

-- The conversation with another last sequence number.
def atSeq (seq : Int) (conversation : Conversation) : Conversation :=
  { conversation with row := { conversation.row with lastMessageSeq := seq } }

@[simp] theorem atSeq_messages (seq : Int) (conversation : Conversation) :
    (atSeq seq conversation).messages = conversation.messages := rfl

@[simp] theorem atSeq_lastMessageSeq (seq : Int) (conversation : Conversation) :
    (atSeq seq conversation).row.lastMessageSeq = seq := rfl

theorem atSeq_self (conversation : Conversation) :
    atSeq conversation.row.lastMessageSeq conversation = conversation := rfl

theorem advanceLastMessageSeq_eq (seq : Int) (conversation : Conversation) :
    advanceLastMessageSeq seq conversation =
      atSeq (max conversation.row.lastMessageSeq seq) conversation := rfl

variable (threshold : Int) (conversation : Conversation)

theorem applyMessageEvent_atSeq (last : Int) (senderId : String) (seq status : Int) :
    applyMessageEvent threshold (atSeq last conversation) senderId seq status =
      atSeq (max last seq) (applyMessageEvent threshold conversation senderId seq status) := by
  unfold applyMessageEvent
  dsimp only
  have ha : abovePreciseUnreadThreshold threshold
      (advanceLastMessageSeq seq (atSeq last conversation)) =
        abovePreciseUnreadThreshold threshold (advanceLastMessageSeq seq conversation) := rfl
  rw [ha]
  split <;> rfl

theorem retractMessageUnread_atSeq (last : Int) (serverMsgId : String) :
    retractMessageUnread threshold (atSeq last conversation) serverMsgId =
      atSeq last (retractMessageUnread threshold conversation serverMsgId) := by
  unfold retractMessageUnread
  have ha : abovePreciseUnreadThreshold threshold (atSeq last conversation) =
      abovePreciseUnreadThreshold threshold conversation := rfl
  rw [ha, atSeq_messages]
  split
  · rfl
  · split
    · rfl
    · split <;> rfl

end Sequence

section Reading

variable {conversation : Conversation} {userId : String} {seq last : Int}

-- A later last sequence number leaves what a read does, unless it is behind the difference.
theorem markAsRead_atSeq (hle : conversation.row.lastMessageSeq ≤ last)
    (hu : last ≤ max (max conversation.row.lastMessageSeq (tailSeq conversation.messages)) seq ∨
      participant.lastReadSeq ≤ max (max conversation.row.lastMessageSeq
        (tailSeq conversation.messages)) seq ∧
        (seq ≤ participant.lastReadSeq ∨
          seq < max conversation.row.lastMessageSeq (tailSeq conversation.messages))) :
    markAsRead (atSeq last conversation).row participant conversation.messages seq =
      markAsRead conversation.row participant conversation.messages seq := by
  have hf : listFloorSeq (atSeq last conversation).row participant =
      listFloorSeq conversation.row participant := rfl
  unfold markAsRead
  rw [hf, atSeq_lastMessageSeq]
  dsimp only
  generalize tailSeq conversation.messages = tail at *
  generalize conversation.row.lastMessageSeq = known at *
  rcases hu with hsm | ⟨hr, hb⟩
  · have hsa : max (max last tail) seq = max (max known tail) seq := by omega
    rw [hsa]
  · have hn : min (max participant.lastReadSeq seq) (max (max last tail) seq) =
        min (max participant.lastReadSeq seq) (max (max known tail) seq) := by omega
    rw [hn]
    by_cases hold : seq ≤ participant.lastReadSeq
    · have hk : min (max participant.lastReadSeq seq) (max (max known tail) seq) ≤
          participant.lastReadSeq := by omega
      rw [if_pos hk, if_pos hk]
    · have hs : ¬min (max participant.lastReadSeq seq) (max (max known tail) seq) ≥
          max (max known tail) seq := by omega
      have hs' : ¬min (max participant.lastReadSeq seq) (max (max known tail) seq) ≥
          max (max last tail) seq := by omega
      rw [if_neg hs, if_neg hs']

theorem updateMember_congr {update' : ParticipantRow → ParticipantRow}
    (h : ∀ participant ∈ conversation.participants, participant.userId = userId →
      update participant = update' participant) :
    updateMember userId update conversation = updateMember userId update' conversation := by
  unfold updateMember
  congr 1
  refine List.map_congr_left fun participant hm => ?_
  split
  · rename_i hu
    exact h participant hm hu
  · rfl

theorem updateMember_eq_self
    (h : ∀ participant ∈ conversation.participants, participant.userId = userId →
      update participant = participant) :
    updateMember userId update conversation = conversation := by
  have hs : updateMember userId id conversation = conversation := by
    simp [updateMember]
  exact (updateMember_congr h).trans hs

theorem markAsRead_eq_self (hs : seq ≤ participant.lastReadSeq)
    (hr : participant.lastReadSeq ≤
      max (max conversation.row.lastMessageSeq (tailSeq conversation.messages)) seq)
    (hc : 0 ≤ participant.unreadCount) :
    markAsRead conversation.row participant conversation.messages seq = participant := by
  unfold markAsRead
  dsimp only
  have hn : min (max participant.lastReadSeq seq)
      (max (max conversation.row.lastMessageSeq (tailSeq conversation.messages)) seq) =
        participant.lastReadSeq := by omega
  rw [hn, if_pos le_rfl, max_eq_left hc]

theorem unreadCount_markAsRead_nonneg (participant : ParticipantRow) :
    0 ≤ (markAsRead conversation.row participant conversation.messages seq).unreadCount := by
  unfold markAsRead
  dsimp only
  split
  · exact le_max_right _ _
  · split
    · exact le_rfl
    · exact le_max_right _ _

end Reading

section Handling

variable {setup : Setup} {event : MessageEvent} {conversation : Conversation}

def advanced (event : MessageEvent) (last : Int) : Int :=
  match advancedSeq event with
  | none => last
  | some seq => max last seq

theorem handleMessageEvent_read {userId : String} {readSeq : Nat} (threshold : Int) :
    handleMessageEvent threshold (.read userId readSeq) conversation =
      match readPosition (.read userId readSeq) with
      | none => conversation
      | some (userId, seq) => updateMember userId (fun participant =>
        markAsRead conversation.row participant conversation.messages seq) conversation := by
  unfold handleMessageEvent readPosition
  dsimp only
  split
  · rfl
  · cases readSeqForConversationCursor readSeq with
    | none | some seq => rfl

theorem row_retract (threshold : Int) (conversation : Conversation) (serverMsgId : String) :
    (retractMessageUnread threshold conversation serverMsgId).row = conversation.row := by
  unfold retractMessageUnread
  split
  · rfl
  · split
    · rfl
    · split <;> rfl

theorem lastMessageSeq_handle (threshold : Int) (event : MessageEvent)
    (conversation : Conversation) :
    (handleMessageEvent threshold event conversation).row.lastMessageSeq =
      advanced event conversation.row.lastMessageSeq := by
  cases event with
  | message senderId conversationSeq status =>
    unfold handleMessageEvent advanced advancedSeq
    dsimp only
    split
    · rfl
    · unfold applyMessageEvent
      dsimp only
      split <;> rfl
  | read userId readSeq =>
    rw [handleMessageEvent_read]
    split <;> rfl
  | «recall» serverMsgId => exact congrArg _ (row_retract threshold conversation serverMsgId)
  | delete serverMsgId deleteType scope =>
    unfold handleMessageEvent
    dsimp only
    split
    · rfl
    · exact congrArg _ (row_retract threshold conversation _)
  | other => rfl

theorem incrementUnread_eq_self {senderId : String}
    {seq status : Int}
    (h : status ∈ UNREAD_EXCLUDED_STATUSES ∨ participant.isDeleted = true ∨
      participant.userId = senderId ∨ seq ≤ unreadFloor conversation.row participant) :
    incrementUnread conversation.row participant senderId seq status = participant := by
  unfold incrementUnread
  split
  · rfl
  · rename_i hde
    split
    · rfl
    · rename_i hs
      split
      · rfl
      · rename_i hst
        have hf := ((h.resolve_left hst).resolve_left hde).resolve_left hs
        rw [if_pos hf]

theorem applyMessageEvent_eq_self {senderId : String} {seq status : Int}
    (hse : seq ≤ conversation.row.lastMessageSeq)
    (hn : MessageNeutral setup conversation senderId seq status) :
    applyMessageEvent setup.threshold conversation senderId seq status = conversation := by
  have ha : advanceLastMessageSeq seq conversation = conversation := by
    rw [advanceLastMessageSeq_eq, max_eq_left hse, atSeq_self]
  unfold applyMessageEvent
  dsimp only
  rw [ha]
  split
  · rfl
  · rename_i hab
    have hs : ∀ participant ∈ conversation.participants,
        incrementUnread conversation.row participant senderId seq status = id participant := by
      intro participant hm
      refine incrementUnread_eq_self ((hn.resolve_left hab).imp_right fun h => ?_)
      exact h participant hm
    rw [List.map_congr_left hs, List.map_id]

theorem retractUnread_eq_self {target : MessageRow}
    (h : participant.isDeleted = true ∨
      target.seq ≤ max (max participant.lastReadSeq participant.lastSyncSeq)
        (clearedThroughSeq conversation.row participant) ∨ participant.userId = target.senderId ∨
      participant.unreadCount ≤ ((conversation.messages.countP fun row =>
        countsAsUnread (unreadFloor conversation.row participant) participant.userId row &&
          row.serverId ≠ target.serverId : Nat) : Int)) :
    retractUnread conversation.row participant conversation.messages target = participant := by
  unfold retractUnread
  dsimp only
  split
  · rfl
  · rename_i ht
    simp only [not_or] at ht
    have hc := ((h.resolve_left ht.1).resolve_left ht.2.2.1).resolve_left ht.2.2.2
    rw [min_eq_left hc]

theorem retractMessageUnread_eq_self {serverMsgId : String}
    (h : isBlank serverMsgId = true ∨ RetractionNeutral setup conversation serverMsgId) :
    retractMessageUnread setup.threshold conversation serverMsgId = conversation := by
  unfold retractMessageUnread
  split
  · rfl
  · rename_i hb
    split
    · rfl
    · rename_i ha
      have hn := (h.resolve_left hb).resolve_left ha
      split
      · rfl
      · rename_i target ht
        have hs : ∀ participant ∈ conversation.participants,
            retractUnread conversation.row participant conversation.messages target =
              id participant := fun participant hm =>
          retractUnread_eq_self (hn target ht participant hm)
        rw [List.map_congr_left hs, List.map_id]

theorem handle_neutral
    (hre : ∀ userId seq, readPosition event = some (userId, seq) →
      ∀ participant ∈ conversation.participants, participant.userId = userId →
        0 ≤ participant.unreadCount)
    (hs : ∀ seq, advancedSeq event = some seq → seq ≤ conversation.row.lastMessageSeq)
    (hn : Neutral setup conversation event) :
    handleMessageEvent setup.threshold event conversation = conversation := by
  cases event with
  | message senderId conversationSeq status =>
    unfold handleMessageEvent
    dsimp only
    split
    · rfl
    · rename_i hk
      have hl : conversationSeq ≤ conversation.row.lastMessageSeq :=
        hs conversationSeq (if_neg hk)
      exact applyMessageEvent_eq_self hl
        ((hn.resolve_left fun h => hk (Or.inl h)).resolve_left fun h => hk (Or.inr h))
  | read userId readSeq =>
    rw [handleMessageEvent_read]
    split
    · rfl
    · rename_i user seq hp
      refine updateMember_eq_self fun participant hm hu => ?_
      obtain ⟨hb, hl⟩ := hn user seq hp participant hm hu
      exact markAsRead_eq_self hb hl (hre user seq hp participant hm hu)
  | «recall» serverMsgId => exact retractMessageUnread_eq_self (hn serverMsgId rfl)
  | delete serverMsgId deleteType scope =>
    unfold handleMessageEvent
    dsimp only
    split
    · rfl
    · rename_i retracted hr
      exact retractMessageUnread_eq_self (hn retracted hr)
  | other => rfl

theorem handle_atSeq {threshold last : Int} (hle : conversation.row.lastMessageSeq ≤ last)
    (hun : ∀ userId seq, readPosition event = some (userId, seq) →
      ReadUndisturbed (atSeq last conversation) conversation.row.lastMessageSeq userId seq) :
    handleMessageEvent threshold event (atSeq last conversation) =
      atSeq (advanced event last) (handleMessageEvent threshold event conversation) := by
  cases event with
  | message senderId conversationSeq status =>
    unfold handleMessageEvent advanced advancedSeq
    dsimp only
    split
    · rfl
    · exact applyMessageEvent_atSeq threshold conversation last senderId conversationSeq status
  | read userId readSeq =>
    rw [handleMessageEvent_read, handleMessageEvent_read]
    split
    · rfl
    · rename_i user seq hp
      have hud := hun user seq hp
      refine updateMember_congr fun participant hm hu => ?_
      exact markAsRead_atSeq hle (hud.imp_right fun h => h participant hm hu)
  | «recall» serverMsgId =>
    exact retractMessageUnread_atSeq threshold conversation last serverMsgId
  | delete serverMsgId deleteType scope =>
    unfold handleMessageEvent
    dsimp only
    split
    · rfl
    · exact retractMessageUnread_atSeq threshold conversation last _
  | other => rfl

def CountNonneg (userId : String) (conversation : Conversation) : Prop :=
  ∀ participant ∈ conversation.participants, participant.userId = userId →
    0 ≤ participant.unreadCount

-- Rows are updated one by one, and no update makes a count negative.
def KeepsCounts (update : ParticipantRow → ParticipantRow) : Prop :=
  ∀ participant, (update participant).userId = participant.userId ∧
    (0 ≤ participant.unreadCount → 0 ≤ (update participant).unreadCount)

theorem CountNonneg.map {userId : String} {next : Conversation}
    (h : CountNonneg userId conversation)
    (hn : next.participants = conversation.participants.map update)
    (hk : KeepsCounts update) : CountNonneg userId next := by
  intro participant hm hu
  rw [hn] at hm
  obtain ⟨old, hold, rfl⟩ := List.mem_map.mp hm
  exact (hk old).2 (h old hold ((hk old).1.symm.trans hu))

theorem keepsCounts_increment (row : ConversationRow) (senderId : String) (seq status : Int) :
    KeepsCounts fun participant => incrementUnread row participant senderId seq status := by
  intro participant
  dsimp only
  unfold incrementUnread
  split
  · exact ⟨rfl, id⟩
  · refine ⟨rfl, fun h => ?_⟩
    dsimp only
    split
    · exact h
    · split
      · exact h
      · split
        · exact h
        · omega

theorem keepsCounts_retract (row : ConversationRow) (messages : List MessageRow)
    (target : MessageRow) :
    KeepsCounts fun participant => retractUnread row participant messages target := by
  intro participant
  dsimp only
  unfold retractUnread
  dsimp only
  split
  · exact ⟨rfl, id⟩
  · exact ⟨rfl, fun h => le_min h (Int.natCast_nonneg _)⟩

theorem keepsCounts_read (row : ConversationRow) (messages : List MessageRow) (userId : String)
    (seq : Int) : KeepsCounts fun participant =>
      if participant.userId = userId then markAsRead row participant messages seq
      else participant := by
  intro participant
  dsimp only
  split
  · exact ⟨rfl, fun _ => @unreadCount_markAsRead_nonneg ⟨row, [], messages⟩ seq participant⟩
  · exact ⟨rfl, id⟩

theorem CountNonneg.retract {userId : String} (h : CountNonneg userId conversation)
    (threshold : Int) (serverMsgId : String) :
    CountNonneg userId (retractMessageUnread threshold conversation serverMsgId) := by
  unfold retractMessageUnread
  split
  · exact h
  · split
    · exact h
    · split
      · exact h
      · exact h.map rfl (keepsCounts_retract _ _ _)

theorem CountNonneg.handle {userId : String} (h : CountNonneg userId conversation)
    (threshold : Int) (event : MessageEvent) :
    CountNonneg userId (handleMessageEvent threshold event conversation) := by
  cases event with
  | message senderId conversationSeq status =>
    unfold handleMessageEvent
    dsimp only
    split
    · exact h
    · unfold applyMessageEvent
      dsimp only
      split
      · exact h
      · exact h.map rfl (keepsCounts_increment _ _ _ _)
  | read user readSeq =>
    rw [handleMessageEvent_read]
    split
    · exact h
    · exact h.map rfl (keepsCounts_read _ _ _ _)
  | «recall» serverMsgId => exact h.retract threshold serverMsgId
  | delete serverMsgId deleteType scope =>
    unfold handleMessageEvent
    dsimp only
    split
    · exact h
    · exact h.retract threshold _
  | other => exact h

theorem countNonneg_read {userId : String} {seq : Int} (threshold : Int)
    (h : readPosition event = some (userId, seq)) :
    CountNonneg userId (handleMessageEvent threshold event conversation) := by
  cases event with
  | read user readSeq =>
    rw [handleMessageEvent_read, h]
    intro participant hm hu
    obtain ⟨old, -, rfl⟩ := List.mem_map.mp hm
    have hs := (keepsCounts_read conversation.row conversation.messages userId seq old).1
    rw [if_pos (hs.symm.trans hu)]
    exact unreadCount_markAsRead_nonneg old
  | message _ _ _ | «recall» _ | delete _ _ _ | other => cases h

end Handling

section Runs

variable {setup : Setup} {state : State}

theorem once_concat (events : List Nat) (event : Nat) :
    once setup (events ++ [event]) =
      handleMessageEvent setup.threshold (setup.event event) (once setup events) := by
  rw [once, List.foldl_append]
  rfl

theorem lastMessageSeq_once (events : List Nat) :
    (once setup events).row.lastMessageSeq = processedSeq setup events := by
  induction events using List.reverseRecOn with
  | nil => rfl
  | append_singleton events event ih =>
    rw [once_concat, lastMessageSeq_handle, ih, processedSeq, processedSeq, List.foldl_append]
    rfl

theorem le_advanced (event : MessageEvent) (last : Int) : last ≤ advanced event last := by
  unfold advanced
  split
  · exact le_rfl
  · exact le_max_left _ _

theorem le_processedSeq {events : List Nat} {event : Nat} {seq : Int} (hm : event ∈ events)
    (hse : advancedSeq (setup.event event) = some seq) : seq ≤ processedSeq setup events := by
  induction events using List.reverseRecOn with
  | nil => exact absurd hm List.not_mem_nil
  | append_singleton events last ih =>
    have hs : processedSeq setup (events ++ [last]) =
        advanced (setup.event last) (processedSeq setup events) := by
      rw [processedSeq, List.foldl_append]
      rfl
    rw [hs]
    rcases List.mem_append.mp hm with hold | hn
    · exact (ih hold).trans (le_advanced _ _)
    · rw [List.mem_singleton.mp hn] at hse
      rw [advanced, hse]
      exact le_max_right _ _

structure Inv (setup : Setup) (state : State) : Prop where
  ahead : ∃ last, state.conversation = atSeq last (once setup state.processed) ∧
    processedSeq setup state.processed ≤ last ∧
      (last = processedSeq setup state.processed ∨
        ∃ event ∈ state.delivered, advancedSeq (setup.event event) = some last)
  reads : ∀ event ∈ state.processed, ∀ userId seq,
    readPosition (setup.event event) = some (userId, seq) → CountNonneg userId state.conversation

theorem inv_initial (setup : Setup) : Inv setup (initial setup) where
  ahead := ⟨setup.conversation.row.lastMessageSeq, rfl, le_rfl, Or.inl rfl⟩
  reads _ hm := absurd hm List.not_mem_nil

theorem advanced_mono (event : MessageEvent) {last last' : Int} (h : last ≤ last') :
    advanced event last ≤ advanced event last' := by
  unfold advanced
  split
  · exact h
  · omega

theorem processedSeq_concat (events : List Nat) (event : Nat) :
    processedSeq setup (events ++ [event]) =
      advanced (setup.event event) (processedSeq setup events) := by
  rw [processedSeq, List.foldl_append]
  rfl

theorem inv_first {event : Nat} (h : Inv setup state) (hn : event ∉ state.processed)
    (hr : Regular setup state ⟨event, .processed⟩) :
    Inv setup {
      conversation := handleMessageEvent setup.threshold (setup.event event) state.conversation
      delivered := event :: state.delivered
      processed := state.processed ++ [event] } := by
  obtain ⟨last, hc, hle, hl⟩ := h.ahead
  have hu := hr rfl
  rw [if_neg hn] at hu
  refine ⟨⟨advanced (setup.event event) last, ?_, ?_, ?_⟩, ?_⟩
  · rw [once_concat]
    change handleMessageEvent _ _ state.conversation = _
    rw [hc]
    refine handle_atSeq (by rw [lastMessageSeq_once]; exact hle) fun userId seq hp => ?_
    rw [lastMessageSeq_once, ← hc]
    exact hu userId seq hp
  · rw [processedSeq_concat]
    exact advanced_mono _ hle
  · rw [processedSeq_concat]
    rcases hl with heq | ⟨other, hm, ho⟩
    · exact Or.inl (by rw [heq])
    · cases hs : advancedSeq (setup.event event) with
      | none =>
        refine Or.inr ⟨other, List.mem_cons_of_mem _ hm, ?_⟩
        rw [ho, advanced, hs]
      | some seq =>
        rw [advanced, advanced, hs]
        dsimp only
        by_cases hb : seq ≤ last
        · exact Or.inr ⟨other, List.mem_cons_of_mem _ hm, by rw [ho, max_eq_left hb]⟩
        · exact Or.inl (by omega)
  · intro other hm userId seq hp
    rcases List.mem_append.mp hm with hold | hla
    · exact (h.reads other hold userId seq hp).handle _ _
    · rw [List.mem_singleton.mp hla] at hp
      exact countNonneg_read _ hp

theorem handle_again {event : Nat} (h : Inv setup state) (hold : event ∈ state.processed)
    (hr : Regular setup state ⟨event, .processed⟩) :
    handleMessageEvent setup.threshold (setup.event event) state.conversation =
      state.conversation := by
  obtain ⟨last, hc, hle, -⟩ := h.ahead
  have hn := hr rfl
  rw [if_pos hold] at hn
  refine handle_neutral (h.reads event hold) (fun seq hs => ?_) hn
  rw [hc, atSeq_lastMessageSeq]
  exact (le_processedSeq hold hs).trans hle

theorem inv_failedAfterSeqUpdate {event : Nat} (h : Inv setup state) :
    Inv setup {
      conversation := failAfterSeqUpdate (setup.event event) state.conversation
      delivered := event :: state.delivered
      processed := state.processed } := by
  obtain ⟨last, hc, hle, hl⟩ := h.ahead
  have hk : last = processedSeq setup state.processed ∨
      ∃ other ∈ event :: state.delivered, advancedSeq (setup.event other) = some last :=
    hl.imp_right fun ⟨other, hm, ho⟩ => ⟨other, List.mem_cons_of_mem _ hm, ho⟩
  unfold failAfterSeqUpdate
  cases hs : advancedSeq (setup.event event) with
  | none => exact ⟨⟨last, hc, hle, hk⟩, h.reads⟩
  | some seq =>
    refine ⟨⟨max last seq, ?_, hle.trans (le_max_left _ _), ?_⟩, h.reads⟩
    · change advanceLastMessageSeq seq state.conversation = _
      rw [hc]
      rfl
    · by_cases hb : seq ≤ last
      · rw [max_eq_left hb]
        exact hk
      · refine Or.inr ⟨event, List.mem_cons_self, ?_⟩
        rw [hs, max_eq_right (by omega)]

theorem inv_step {action : Action} {next : State} (h : Inv setup state)
    (hr : Regular setup state action) (hs : step setup state action = some next) :
    Inv setup next := by
  obtain ⟨event, delivery⟩ := action
  cases hs
  cases delivery with
  | failed =>
    obtain ⟨last, hc, hle, hl⟩ := h.ahead
    refine ⟨⟨last, hc, hle, hl.imp_right ?_⟩, h.reads⟩
    rintro ⟨other, hm, ho⟩
    exact ⟨other, List.mem_cons_of_mem _ hm, ho⟩
  | failedAfterSeqUpdate => exact inv_failedAfterSeqUpdate h
  | processed =>
    by_cases hold : event ∈ state.processed
    · have ha := handle_again h hold hr
      obtain ⟨last, hc, hle, hl⟩ := h.ahead
      rw [if_neg fun hn => hn.2 hold, deliver, ha]
      refine ⟨⟨last, hc, hle, hl.imp_right ?_⟩, h.reads⟩
      rintro ⟨other, hm, ho⟩
      exact ⟨other, List.mem_cons_of_mem _ hm, ho⟩
    · rw [if_pos ⟨rfl, hold⟩]
      exact inv_first h hold hr

theorem conversation_of_settled (h : Inv setup state) (hs : state.Settled) :
    state.conversation = once setup state.processed := by
  obtain ⟨last, hc, hle, hl⟩ := h.ahead
  have hsa : last = processedSeq setup state.processed := by
    rcases hl with heq | ⟨event, hm, hse⟩
    · exact heq
    · exact le_antisymm (le_processedSeq (hs event hm) hse) hle
  rw [hc, hsa, ← lastMessageSeq_once, atSeq_self]

-- While redelivered events are neutral, the conversation ends as if each event were processed once.
theorem deliveries_are_idempotent (setup : Setup) {actions : List Action} {state : State}
    (hrun : Run (step setup) (Regular setup) (initial setup) actions state) :
    state.AsOnce setup := by
  have hinv : Inv setup state := hrun.preserves (Inv setup)
    (fun _ _ _ h hregular hstep => inv_step h hregular hstep) (inv_initial setup)
  intro hsettled
  rw [conversation_of_settled hinv hsettled]

end Runs

section Samples

def newGroup : Conversation where
  row := ⟨"acme", "group-1", 0, 0, false⟩
  participants := [⟨"acme", "group-1", "alice", 0, 0, 0, 0, 0, false⟩,
    ⟨"acme", "group-1", "bob", 0, 0, 0, 0, 0, false⟩]

-- Alice sends a message and Bob reads it.
def sentAndRead : Setup where
  threshold := 500
  conversation := newGroup
  event index := if index = 0 then .message "alice" 1 1 else .read "bob" 1

def redeliveredAfterRead : List Action :=
  [⟨0, .failedAfterSeqUpdate⟩, ⟨0, .processed⟩, ⟨1, .processed⟩, ⟨0, .processed⟩, ⟨1, .processed⟩]

theorem redelivery_after_read_is_neutral : ∃ state,
    Run (step sentAndRead) (Regular sentAndRead) (initial sentAndRead) redeliveredAfterRead state ∧
      counts state.conversation = (1, [("alice", 0, 0), ("bob", 1, 0)]) ∧
        state.AsOnce sentAndRead := by
  have hrun : ∃ state, Run (step sentAndRead) (Regular sentAndRead) (initial sentAndRead)
      redeliveredAfterRead state ∧
        counts state.conversation = (1, [("alice", 0, 0), ("bob", 1, 0)]) := by
    refine ⟨_, .cons nofun rfl (.cons (fun _ => ?_) rfl (.cons (fun _ => ?_) rfl
      (.cons (fun _ => ?_) rfl (.cons (fun _ => ?_) rfl (.nil _))))), by decide +kernel⟩
    · exact Eq.mpr (if_neg (by decide +kernel)) fun userId seq => nofun
    · refine Eq.mpr (if_neg (by decide +kernel)) fun userId seq hposition => ?_
      cases hposition
      exact Or.inl (by decide +kernel)
    · exact Eq.mpr (if_pos (by decide +kernel))
        (Or.inr (Or.inr (Or.inr (Or.inr (by decide +kernel)))))
    · refine Eq.mpr (if_pos (by decide +kernel)) fun userId seq hposition => ?_
      cases hposition
      unfold ReadNeutral
      decide +kernel
  obtain ⟨state, hrun, hcounts⟩ := hrun
  exact ⟨state, hrun, hcounts, deliveries_are_idempotent sentAndRead hrun⟩

-- The acknowledgement of the message is lost, and it is delivered again before Bob reads it.
def redeliveredMessage : List Action := [⟨0, .processed⟩, ⟨0, .processed⟩]

theorem redelivered_message_counts_twice : ¬∀ (setup : Setup) (actions : List Action)
    (state : State), Run (step setup) anyStep (initial setup) actions state →
      state.AsOnce setup := by
  intro h
  have hrun : ∃ state, Run (step sentAndRead) anyStep (initial sentAndRead) redeliveredMessage
      state ∧ state.delivered = [0, 0] ∧ state.processed = [0] ∧
        counts state.conversation = (1, [("alice", 0, 0), ("bob", 0, 2)]) :=
    ⟨_, .cons trivial rfl (.cons trivial rfl (.nil _)), by decide +kernel, by decide +kernel,
      by decide +kernel⟩
  obtain ⟨state, hrun, hdelivered, hprocessed, hcounts⟩ := hrun
  have hsettled : state.Settled := by
    rw [State.Settled, hdelivered, hprocessed]
    decide
  have hsame := h sentAndRead _ state hrun hsettled
  rw [hcounts, hprocessed] at hsame
  exact absurd hsame (by decide +kernel)

end Samples

end FlareIm.EventRedelivery
