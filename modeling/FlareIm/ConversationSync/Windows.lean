import FlareIm.ConversationSync.Backfill
import Mathlib.Logic.Function.Basic

namespace FlareIm.ConversationSync

open Text
open List (map_cons mem_cons mem_filter mem_map)

variable {ids : List String} {target : String × Int} {newestWindow : Bool}

section Pins

def MESSAGE_PIN_SCOPE_CONVERSATION : Int := 0
def MESSAGE_PIN_SCOPE_SELF : Int := 1

structure PinnedMessage where
  conversationId : String
  messageId : String
  scope : Int
  ownerUserId : String
  expireAt : Option Int

-- A message with the mark of a pinned one.
structure MarkedMessage where
  message : Message
  pinned : Bool
  deriving DecidableEq

-- What the messages of a tenant are read from, and the time of the read and who asks for it.
structure Archive where
  conversation : String → StoredConversation
  pins : List PinnedMessage
  now : Int
  reader : String
  named : ∀ id, ∀ row ∈ (conversation id).messages, isBlank row.message.serverId = false

variable (archive : Archive)

def PinnedMessage.live (pin : PinnedMessage) (now : Int) : Bool :=
  pin.expireAt.all fun expireAt => decide (now < expireAt)

-- Whether a pin holds for the reader.
def Archive.applies (pin : PinnedMessage) : Bool :=
  (pin.scope == MESSAGE_PIN_SCOPE_CONVERSATION ||
      (pin.scope == MESSAGE_PIN_SCOPE_SELF && pin.ownerUserId == archive.reader)) &&
    pin.live archive.now

def messageIds (messages : List MarkedMessage) : List String :=
  (messages.map fun marked => trim marked.message.serverId).filter (· ≠ "")

-- The messages that the pins of the conversations name.
def Archive.pinnedIds (conversationIds messageIds : List String) : List String :=
  (archive.pins.filter fun pin =>
    decide (pin.conversationId ∈ conversationIds) && decide (pin.messageId ∈ messageIds) &&
      archive.applies pin).map (·.messageId)

def markPinned (pinned : List String) (marked : MarkedMessage) : MarkedMessage :=
  { marked with pinned := decide (marked.message.serverId ∈ pinned) }

-- `apply_pin_flags` of one of the messages: the mark goes by the id of the message alone.
def Archive.applyPinFlags (conversationIds : List String) (messages : List MarkedMessage)
    (marked : MarkedMessage) : MarkedMessage :=
  if messageIds messages = [] then marked
  else markPinned (archive.pinnedIds conversationIds (messageIds messages)) marked

end Pins

section Windows

variable (archive : Archive) (userId : String)

def MAX_WINDOW_CONVERSATIONS : Nat := 200

-- Who asks without an id is not kept from anything.
def visibleFromSeqSql (conversation : StoredConversation) (userId : String) : Nat :=
  if userId = "" then 0 else conversation.visibleFromSeq userId

-- A row as a message. The mark of a skipped one stands alone.
def Archive.rowToMarked (conversationId : String) (row : StoredMessage) : RetainedMessage × Bool :=
  let message := rowToMessage (messageRowProjection userId row)
  (message, message.message.syncSkip == "" && archive.pins.any fun pin =>
    pin.conversationId == conversationId && pin.messageId == row.message.serverId &&
      pin.live archive.now)

-- What is read of the rows of a conversation.
def Archive.shown (includeBurnedPlaceholder : Bool) (conversationId : String)
    (rows : List StoredMessage) : List MarkedMessage :=
  rows.filterMap fun row =>
    let (message, pinned) := archive.rowToMarked userId conversationId row
    (applyBurnQueryVisibility includeBurnedPlaceholder message).map (⟨·, pinned⟩)

def StoredConversation.rowsAbove (conversation : StoredConversation) (floor : Int)
    (beforeSeq : Option Int) : List StoredMessage :=
  conversation.messages.filter fun row =>
    decide (floor < row.seq) && beforeSeq.all fun before => decide ((row.seq : Int) < before)

-- `query_messages_by_seq` of a user.
def Archive.queryMessagesBySeq (conversationId : String) (afterSeq : Int) (beforeSeq : Option Int)
    (limit : Int) (includeBurnedPlaceholder : Bool) : List MarkedMessage :=
  let limit := (max 1 (min limit 1000)).toNat
  let conversation := archive.conversation conversationId
  let found := conversation.rowsAbove (max afterSeq (visibleFromSeqSql conversation userId)) beforeSeq
  let rows :=
    if isBackfillTailPage afterSeq beforeSeq then found.reverse.take limit else found.take limit
  let messages := archive.shown userId includeBurnedPlaceholder conversationId rows
  let messages := if isBackfillTailPage afterSeq beforeSeq then messages.reverse else messages
  messages.map (archive.applyPinFlags [conversationId] messages)

-- The rows of a target. A newest window leaves out where the target wants to begin.
def Archive.windowRows (limit : Nat) (newestWindow : Bool) (target : String × Int) :
    List StoredMessage :=
  let conversation := archive.conversation target.1
  let floor : Int := visibleFromSeqSql conversation userId
  if newestWindow then (conversation.rowsAbove floor none).reverse.take limit
  else (conversation.rowsAbove (max target.2 floor) none).take limit

abbrev Groups := String → List MarkedMessage

def addToGroup (grouped : Groups) (row : String × MarkedMessage) : Groups :=
  Function.update grouped row.1 (grouped row.1 ++ [row.2])

def groupRows (rows : List (String × MarkedMessage)) : Groups :=
  rows.foldl addToGroup fun _ => []

-- The entries of the answer: each takes what the messages of its id are, and leaves nothing.
def takeGroups (grouped : Groups) :
    List String → List (String × List MarkedMessage)
  | [] => []
  | id :: ids => (id, grouped id) :: takeGroups (Function.update grouped id []) ids

def windowTargets (targets : List (String × Int)) : List (String × Int) :=
  (targets.filter fun target => !isBlank target.1).take MAX_WINDOW_CONVERSATIONS

def Archive.queryConversationsMessageWindows (targets : List (String × Int))
    (perConversationLimit : Int) (newestWindow includeBurnedPlaceholder : Bool) :
    List (String × List MarkedMessage) :=
  let limit := (max 1 (min perConversationLimit 500)).toNat
  let targets := windowTargets targets
  let ids := targets.map Prod.fst
  -- the rows come target by target
  let rows := targets.flatMap fun target =>
    (archive.shown userId includeBurnedPlaceholder target.1
      (archive.windowRows userId limit newestWindow target)).map (target.1, ·)
  let grouped := fun id =>
    if newestWindow then (groupRows rows id).reverse else groupRows rows id
  let messages := rows.map Prod.snd
  takeGroups (fun id => (grouped id).map (archive.applyPinFlags ids messages)) ids

end Windows

section Groups

variable {rows : List (String × MarkedMessage)} {id : String}

theorem groupRows_eq : groupRows rows id = (rows.filter (·.1 == id)).map Prod.snd := by
  suffices h : ∀ grouped : Groups, rows.foldl addToGroup grouped id =
      grouped id ++ (rows.filter (·.1 == id)).map Prod.snd by
    rw [groupRows, h, List.nil_append]
  induction rows with
  | nil => simp
  | cons row rest ih =>
    intro grouped
    rw [List.foldl_cons, ih]
    by_cases hid : row.1 = id
    · subst hid
      simp [addToGroup]
    · simp [addToGroup, Function.update_of_ne (Ne.symm hid), hid]

theorem takeGroups_fst (grouped : Groups) (ids : List String) :
    (takeGroups grouped ids).map Prod.fst = ids := by
  induction ids generalizing grouped with
  | nil => rfl
  | cons id ids ih => rw [takeGroups, map_cons, ih]

theorem mem_takeGroups {grouped : Groups}
    {messages : List MarkedMessage} (h : (id, messages) ∈ takeGroups grouped ids)
    (ho : ids.count id = 1) : messages = grouped id := by
  induction ids generalizing grouped with
  | nil => exact absurd h List.not_mem_nil
  | cons first ids ih =>
    by_cases hf : first = id
    · subst hf
      rw [List.count_cons_self] at ho
      rcases mem_cons.mp h with heq | hl
      · exact congrArg Prod.snd heq
      · have ha : first ∈ ids := by
          rw [← takeGroups_fst (Function.update grouped first []) ids]
          exact mem_map.mpr ⟨_, hl, rfl⟩
        have hc := List.count_pos_iff.mpr ha
        omega
    · rw [List.count_cons_of_ne hf] at ho
      rcases mem_cons.mp h with heq | hl
      · exact absurd (congrArg Prod.fst heq).symm hf
      · rw [ih hl ho, Function.update_of_ne (Ne.symm hf)]

-- The rows of a target whose id is there once are all that are grouped under its id.
theorem groupRows_flatMap {found : String × Int → List MarkedMessage}
    {targets : List (String × Int)} (hm : target ∈ targets)
    (hon : (targets.map Prod.fst).count target.1 = 1) :
    groupRows (targets.flatMap fun target => (found target).map (target.1, ·)) target.1 =
      found target := by
  have hk : ∀ other : String × Int, ((found other).map (other.1, ·)).filter
      (·.1 == target.1) = if other.1 = target.1 then (found other).map (other.1, ·) else [] := by
    intro other
    rw [List.filter_map]
    by_cases hid : other.1 = target.1 <;> simp [hid, Function.comp_def]
  rw [groupRows_eq, List.filter_flatMap]
  simp only [hk]
  induction targets with
  | nil => exact absurd hm List.not_mem_nil
  | cons first targets ih =>
    rw [List.flatMap_cons, List.map_append]
    rw [map_cons] at hon
    by_cases hf : first.1 = target.1
    · rw [hf, List.count_cons_self] at hon
      have hn : target.1 ∉ targets.map Prod.fst := List.count_eq_zero.mp (by omega)
      have hr : (targets.flatMap fun other =>
          if other.1 = target.1 then (found other).map (other.1, ·) else []) = [] := by
        refine List.flatMap_eq_nil_iff.mpr fun other ho => ?_
        rw [if_neg fun hid => hn (mem_map.mpr ⟨other, ho, hid⟩)]
      obtain rfl : target = first := by
        rcases mem_cons.mp hm with heq | hl
        · exact heq
        · exact absurd (List.mem_map_of_mem hl) hn
      rw [if_pos rfl, hr]
      simp [Function.comp_def]
    · rw [List.count_cons_of_ne hf] at hon
      have hl : target ∈ targets := by
        rcases mem_cons.mp hm with heq | hl
        · exact absurd (congrArg Prod.fst heq).symm hf
        · exact hl
      rw [if_neg hf, ih hl hon, List.map_nil, List.nil_append]

end Groups

section Agreement

variable {archive : Archive} {userId : String} {placeholder : Bool} {id : String}
  {rows : List StoredMessage} {messages all : List MarkedMessage} {marked : MarkedMessage}

theorem mem_shown (h : marked ∈ archive.shown userId placeholder id rows) :
    ∃ row ∈ rows, marked.message.serverId = row.message.serverId := by
  obtain ⟨row, hr, hs⟩ := List.mem_filterMap.mp h
  obtain ⟨message, hm, rfl⟩ := Option.map_eq_some_iff.mp hs
  refine ⟨row, hr, ?_⟩
  have hre := @applyBurn_projection userId row placeholder
  simp only [hre, Option.some.injEq] at hm
  rw [← hm, messageRowProjection]
  split <;> rfl

-- No pin of another of the conversations names a message of this one.
def Archive.PinnedAtHome (archive : Archive) (ids : List String) (id : String) : Prop :=
  ∀ pin ∈ archive.pins, archive.applies pin = true → pin.conversationId ∈ ids →
    ∀ row ∈ (archive.conversation id).messages, row.message.serverId = pin.messageId →
      pin.conversationId = id

theorem applyPinFlags_eq (hid : id ∈ ids) (hsu : messages ⊆ all)
    (hst : ∀ marked ∈ messages, ∃ row ∈ (archive.conversation id).messages,
      marked.message.serverId = row.message.serverId)
    (hho : archive.PinnedAtHome ids id) (hma : marked ∈ messages) :
    archive.applyPinFlags ids all marked = archive.applyPinFlags [id] messages marked := by
  obtain ⟨row, hr, hs⟩ := hst marked hma
  have hnm : trim marked.message.serverId ≠ "" := by
    rw [hs]
    exact (isBlank_eq_false _).mp (archive.named id row hr)
  have hl : ∀ {list : List MarkedMessage}, marked ∈ list →
      trim marked.message.serverId ∈ messageIds list := fun hm =>
    mem_filter.mpr ⟨List.mem_map_of_mem hm, by simpa using hnm⟩
  have ho := hl hma
  have hal := hl (hsu hma)
  rw [Archive.applyPinFlags, Archive.applyPinFlags, if_neg (List.ne_nil_of_mem hal),
    if_neg (List.ne_nil_of_mem ho), markPinned, markPinned]
  congr 1
  rw [decide_eq_decide]
  constructor
  · intro hp
    obtain ⟨pin, hpi, heq⟩ := mem_map.mp hp
    obtain ⟨hm, hk⟩ := mem_filter.mp hpi
    simp only [Bool.and_eq_true, decide_eq_true_eq] at hk
    obtain ⟨⟨hc, hids⟩, ha⟩ := hk
    have hh := hho pin hm ha hc row hr (hs.symm.trans heq.symm)
    -- what a batch asks for are trimmed ids
    have ht : trim marked.message.serverId = marked.message.serverId := by
      obtain ⟨named, -, hn⟩ := mem_map.mp (mem_filter.mp hids).1
      rw [← heq, ← hn, trim_trim]
    refine mem_map.mpr ⟨pin, mem_filter.mpr ⟨hm, ?_⟩, heq⟩
    rw [ht] at ho
    simp [hh, ha, heq, ho]
  · intro hp
    obtain ⟨pin, hpi, heq⟩ := mem_map.mp hp
    obtain ⟨hm, hk⟩ := mem_filter.mp hpi
    simp only [Bool.and_eq_true, decide_eq_true_eq, List.mem_singleton] at hk
    obtain ⟨⟨hc, hids⟩, ha⟩ := hk
    have hiA : pin.messageId ∈ messageIds all := by
      obtain ⟨hn, hne⟩ := mem_filter.mp hids
      obtain ⟨named, hna, hn⟩ := mem_map.mp hn
      exact mem_filter.mpr ⟨mem_map.mpr ⟨named, hsu hna, hn⟩, hne⟩
    refine mem_map.mpr ⟨pin, mem_filter.mpr ⟨hm, ?_⟩, heq⟩
    simp [hc, hid, hiA, ha]

@[simp] theorem applyPinFlags_message :
    (archive.applyPinFlags ids all marked).message = marked.message := by
  unfold Archive.applyPinFlags
  split <;> rfl

-- A single read that answers for a target: what is after its number, or the newest messages.
def Archive.SingleRead (archive : Archive) (userId : String) (target : String × Int) (limit : Int)
    (newestWindow placeholder : Bool) (page : List MarkedMessage) : Prop :=
  if newestWindow then
    ∃ before : Int, (∀ row ∈ (archive.conversation target.1).messages, (row.seq : Int) < before) ∧
      page = archive.queryMessagesBySeq userId target.1 0 (some before) limit placeholder
  else page = archive.queryMessagesBySeq userId target.1 target.2 none limit placeholder

-- The messages of a window, before they are marked.
def Archive.windowMessages (archive : Archive) (userId : String) (limit : Nat)
    (newestWindow placeholder : Bool) (target : String × Int) : List MarkedMessage :=
  let messages := archive.shown userId placeholder target.1
    (archive.windowRows userId limit newestWindow target)
  if newestWindow then messages.reverse else messages

theorem rowsAbove_of_beyond {conversation : StoredConversation} {before : Int} (floor : Nat)
    (hb : ∀ row ∈ conversation.messages, (row.seq : Int) < before) :
    conversation.rowsAbove (max 0 (floor : Int)) (some before) =
      conversation.rowsAbove floor none := by
  refine List.filter_congr fun row hr => ?_
  have hlt := hb row hr
  simp only [Option.all_some, Option.all_none, Bool.and_true]
  rw [Bool.eq_iff_iff]
  simp only [Bool.and_eq_true, decide_eq_true_eq]
  omega

theorem singleRead_eq {limit : Int}
    {page : List MarkedMessage}
    (h : archive.SingleRead userId target (min limit 500) newestWindow placeholder page) :
    page = (archive.windowMessages userId (max 1 (min limit 500)).toNat newestWindow placeholder
      target).map (archive.applyPinFlags [target.1]
        (archive.windowMessages userId (max 1 (min limit 500)).toNat newestWindow placeholder
          target)) := by
  have hl : (max 1 (min (min limit 500) 1000)).toNat = (max 1 (min limit 500)).toNat := by
    omega
  cases newestWindow with
  | true =>
    obtain ⟨before, hb, rfl⟩ := h
    simp only [Archive.queryMessagesBySeq, Archive.windowMessages, Archive.windowRows,
      isBackfillTailPage, Option.isSome_some, beq_self_eq_true, Bool.and_self, if_true, hl,
      rowsAbove_of_beyond _ hb]
  | false =>
    subst h
    simp only [Archive.queryMessagesBySeq, Archive.windowMessages, Archive.windowRows,
      isBackfillTailPage, Option.isSome_none, Bool.and_false, Bool.false_eq_true, if_false, hl]

theorem mem_windowMessages {limit : Nat} :
    marked ∈ archive.windowMessages userId limit newestWindow placeholder target ↔
      marked ∈ archive.shown userId placeholder target.1
        (archive.windowRows userId limit newestWindow target) := by
  unfold Archive.windowMessages
  split
  · exact List.mem_reverse
  · exact Iff.rfl

theorem windowRows_subset {limit : Nat} :
    archive.windowRows userId limit newestWindow target ⊆
      (archive.conversation target.1).messages := by
  intro row hr
  unfold Archive.windowRows at hr
  simp only at hr
  split at hr
  · exact (mem_filter.mp (List.mem_reverse.mp (List.mem_of_mem_take hr))).1
  · exact (mem_filter.mp (List.mem_of_mem_take hr)).1

-- The batch has an entry for each of the first two hundred ids that are not blank, in their order.
-- An id that is there once has the messages that a single read of it returns, and their marks,
-- unless a pin of another conversation of the batch names one of them.
theorem windows_agree (archive : Archive) (userId : String) (targets : List (String × Int))
    (limit : Int) (newestWindow placeholder : Bool) :
    (archive.queryConversationsMessageWindows userId targets limit newestWindow
        placeholder).map Prod.fst = (windowTargets targets).map Prod.fst ∧
      ∀ target ∈ windowTargets targets,
        ((windowTargets targets).map Prod.fst).count target.1 = 1 →
        ∀ messages, (target.1, messages) ∈ archive.queryConversationsMessageWindows userId targets
          limit newestWindow placeholder →
        ∀ page, archive.SingleRead userId target (min limit 500) newestWindow placeholder page →
          messages.map (·.message) = page.map (·.message) ∧
            (archive.PinnedAtHome ((windowTargets targets).map Prod.fst) target.1 →
              messages = page) := by
  refine ⟨takeGroups_fst _ _, fun target htarget hone messages hwindow page hpage => ?_⟩
  have hgroup := mem_takeGroups hwindow hone
  simp only [groupRows_flatMap htarget hone] at hgroup
  change messages = (archive.windowMessages userId _ newestWindow placeholder target).map _
    at hgroup
  rw [singleRead_eq hpage, hgroup]
  constructor
  · simp [Function.comp_def]
  · intro hhome
    refine List.map_congr_left fun marked hmarked => ?_
    have hid : target.1 ∈ (windowTargets targets).map Prod.fst := List.mem_map_of_mem htarget
    refine applyPinFlags_eq hid ?_ ?_ hhome hmarked
    · intro other hother
      refine List.mem_map.mpr ⟨(target.1, other), List.mem_flatMap.mpr ⟨target, htarget, ?_⟩, rfl⟩
      exact List.mem_map_of_mem (mem_windowMessages.mp hother)
    · intro other hother
      obtain ⟨row, hrow, hserver⟩ := mem_shown (mem_windowMessages.mp hother)
      exact ⟨row, windowRows_subset hrow, hserver⟩

def emptyConversation : StoredConversation where
  messages := []
  participant _ := none
  historyClearedThroughSeq := 0
  ascending := List.Pairwise.nil
  positive := by simp
  bounded := by simp

-- One conversation has messages. A pin of the reader's own is on the first of them.
def teamArchive : Archive where
  conversation id := if id = "2-team" then mixedConversation else emptyConversation
  pins := [⟨"2-team", "m1", 1, "bob", none⟩]
  now := 0
  reader := "bob"
  named := by
    intro id row hrow
    split at hrow
    · revert row
      decide
    · exact absurd hrow List.not_mem_nil

theorem team_window_agrees :
    [⟨⟨"m1", 1, 10, "first", ""⟩, true⟩, ⟨⟨"m2", 2, 20, "", ""⟩, false⟩] =
      teamArchive.queryMessagesBySeq "bob" "2-team" 0 none 2 false :=
  ((windows_agree teamArchive "bob" [("2-team", 0), (" ", 0), ("3-other", 5)] 2 false false).2
    ("2-team", 0) (by decide) (by decide) _ (by decide +kernel) _ rfl).2
      (by unfold Archive.PinnedAtHome; decide)

def numberedTargets : List (String × Int) := (List.range 201).map fun n => (toString n, 0)

-- Of two hundred and one conversations the last gets no entry.
theorem windows_are_capped :
    (numberedTargets.filter fun target => !isBlank target.1).length = 201 ∧
      (teamArchive.queryConversationsMessageWindows "bob" numberedTargets 20 false false).length =
        200 := by
  have hnamed : (numberedTargets.filter fun target => !isBlank target.1).length = 201 := by
    decide +kernel
  refine ⟨hnamed, ?_⟩
  rw [← List.length_map (f := Prod.fst), Archive.queryConversationsMessageWindows, takeGroups_fst,
    List.length_map, windowTargets, List.length_take, hnamed]
  rfl

end Agreement

end FlareIm.ConversationSync
