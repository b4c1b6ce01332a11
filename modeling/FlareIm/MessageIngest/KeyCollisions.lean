import FlareIm.Lib.Delimited
import FlareIm.MessageIngest

namespace FlareIm.MessageIngest

open Text Proto

-- A send as its key is made: the tenant, the device if the context has one, and the message.
structure KeyedSend where
  tenantId : String
  deviceId : Option String
  message : Message

def KeyedSend.device (send : KeyedSend) : Option String :=
  (send.deviceId.map trim).filter (· ≠ "")

def KeyedSend.key (send : KeyedSend) : Option String :=
  idempotencyKey send.tenantId send.deviceId send.message

-- A card post has no device in its key.
def KeyedSend.cardKey (send : KeyedSend) : Option String :=
  cardPostIdempotencyKey send.tenantId send.message

structure SameIds (a b : KeyedSend) : Prop where
  tenant : trim a.tenantId = trim b.tenantId
  sender : trim a.message.senderId = trim b.message.senderId
  conversation : trim a.message.conversationId = trim b.message.conversationId
  client : trim a.message.clientMsgId = trim b.message.clientMsgId

-- Two sends with one key are one send, or one resent.
def SendsApart (a b : KeyedSend) : Prop :=
  ∀ key, a.key = some key → b.key = some key → SameIds a b ∧ a.device = b.device

def CardsApart (a b : KeyedSend) : Prop :=
  ∀ key, a.cardKey = some key → b.cardKey = some key → SameIds a b

section Parts

-- What stands between the colons the key is joined with.
def KeyedSend.cardParts (send : KeyedSend) : List (List Char) :=
  [send.tenantId.toList, (trim send.message.senderId).toList,
    (trim send.message.conversationId).toList, (trim send.message.clientMsgId).toList]

def KeyedSend.parts (send : KeyedSend) : List (List Char) :=
  match send.device with
  | none => send.cardParts
  | some deviceId =>
    [send.tenantId.toList, (trim send.message.senderId).toList, "device".toList,
      deviceId.toList, (trim send.message.conversationId).toList,
      (trim send.message.clientMsgId).toList]

def KeyedSend.named (send : KeyedSend) : Prop :=
  trim send.message.clientMsgId ≠ ""

-- The parts read the same one after the other and are cut at other places.
def CutApart (parts others : List (List Char)) : Prop :=
  Delimited.words ':' parts = Delimited.words ':' others ∧
    Delimited.shape ':' parts ≠ Delimited.shape ':' others

variable {a b send : KeyedSend} {key : String}

theorem toList_cardKey (h : send.cardKey = some key) : send.named ∧
    key.toList = Delimited.joined ':' "idem-pcard".toList send.cardParts := by
  unfold KeyedSend.cardKey cardPostIdempotencyKey at h
  simp only at h
  split at h
  · cases h
  · rename_i hn
    cases h
    have ht : ("idem-pcard:" : String) = "idem-pcard" ++ ":" := rfl
    have hc : (":" : String).toList = [':'] := rfl
    refine ⟨hn, ?_⟩
    rw [ht]
    generalize "idem-pcard" = tag
    simp [Delimited.joined, KeyedSend.cardParts, String.toList_append, hc]

theorem toList_key (h : send.key = some key) : send.named ∧
    key.toList = Delimited.joined ':' "idem".toList send.parts := by
  unfold KeyedSend.key idempotencyKey at h
  simp only at h
  split at h
  · cases h
  · rename_i hn
    have ht : ("idem:" : String) = "idem" ++ ":" := rfl
    have hde : (":device:" : String) = ":" ++ "device" ++ ":" := rfl
    have hco : (":" : String).toList = [':'] := rfl
    rw [ht, hde] at h
    refine ⟨hn, ?_⟩
    rw [KeyedSend.parts, KeyedSend.device]
    split at h
    all_goals
      rename_i hc
      cases h
      rw [hc]
      generalize "idem" = tag
      generalize "device" = word
      simp [Delimited.joined, KeyedSend.cardParts, String.toList_append, hco]

theorem exists_cardKey (h : send.named) : ∃ key, send.cardKey = some key := by
  simp [KeyedSend.cardKey, cardPostIdempotencyKey, show trim send.message.clientMsgId ≠ "" from h]

theorem exists_key (h : send.named) : ∃ key, send.key = some key := by
  simp only [KeyedSend.key, idempotencyKey,
    if_neg (show ¬ trim send.message.clientMsgId = "" from h)]
  split <;> exact ⟨_, rfl⟩

theorem cardKey_eq_iff (ha : a.named) (hb : b.named) :
    a.cardKey = b.cardKey ↔ Delimited.words ':' a.cardParts = Delimited.words ':' b.cardParts := by
  obtain ⟨key, hk⟩ := exists_cardKey ha
  obtain ⟨key', hk'⟩ := exists_cardKey hb
  rw [hk, hk', Option.some_inj, ← String.toList_inj, (toList_cardKey hk).2,
    (toList_cardKey hk').2, Delimited.joined_eq_iff]

theorem key_eq_iff (ha : a.named) (hb : b.named) :
    a.key = b.key ↔ Delimited.words ':' a.parts = Delimited.words ':' b.parts := by
  obtain ⟨key, hk⟩ := exists_key ha
  obtain ⟨key', hk'⟩ := exists_key hb
  rw [hk, hk', Option.some_inj, ← String.toList_inj, (toList_key hk).2,
    (toList_key hk').2, Delimited.joined_eq_iff]

theorem sameIds_of_cardParts (h : a.cardParts = b.cardParts) : SameIds a b := by
  simp only [KeyedSend.cardParts, List.cons.injEq, String.toList_inj, and_true] at h
  obtain ⟨ht, hs, hc, hcl⟩ := h
  exact ⟨by rw [ht], hs, hc, hcl⟩

theorem sameIds_of_parts (h : a.parts = b.parts) : SameIds a b ∧ a.device = b.device := by
  unfold KeyedSend.parts at h
  cases ha : a.device with
  | none =>
    cases hb : b.device with
    | none =>
      rw [ha, hb] at h
      exact ⟨sameIds_of_cardParts h, rfl⟩
    | some deviceId =>
      rw [ha, hb] at h
      exact absurd (congrArg List.length h) (by simp [KeyedSend.cardParts])
  | some deviceId =>
    cases hb : b.device with
    | none =>
      rw [ha, hb] at h
      exact absurd (congrArg List.length h) (by simp [KeyedSend.cardParts])
    | some deviceId' =>
      rw [ha, hb] at h
      simp only [List.cons.injEq, String.toList_inj, and_true, true_and] at h
      obtain ⟨ht, hs, hde, hc, hcl⟩ := h
      exact ⟨⟨by rw [ht], hs, hc, hcl⟩, by rw [hde]⟩

theorem shape_of_cardWords (h : SameIds a b)
    (hw : Delimited.words ':' a.cardParts = Delimited.words ':' b.cardParts) :
    Delimited.shape ':' a.cardParts = Delimited.shape ':' b.cardParts := by
  have hl := congrArg List.length hw
  simp only [Delimited.words, Delimited.shape, KeyedSend.cardParts, h.sender, h.conversation,
    h.client, List.flatMap_cons, List.length_append, List.map_cons] at hl ⊢
  rw [Nat.add_right_cancel hl]

theorem shape_of_words (h : SameIds a b) (hde : a.device = b.device)
    (hw : Delimited.words ':' a.parts = Delimited.words ':' b.parts) :
    Delimited.shape ':' a.parts = Delimited.shape ':' b.parts := by
  unfold KeyedSend.parts at hw ⊢
  rw [hde] at hw ⊢
  cases hb : b.device with
  | none =>
    rw [hb] at hw
    exact shape_of_cardWords h hw
  | some deviceId =>
    rw [hb] at hw
    have hl := congrArg List.length hw
    simp only [Delimited.words, Delimited.shape, h.sender, h.conversation, h.client,
      List.flatMap_cons, List.length_append, List.map_cons] at hl ⊢
    rw [Nat.add_right_cancel hl]

end Parts

section Collisions

variable {a b : KeyedSend}

theorem sendsApart_iff : SendsApart a b ↔ ¬ (a.named ∧ b.named ∧ CutApart a.parts b.parts) := by
  constructor
  · rintro hap ⟨ha, hb, hw, hs⟩
    obtain ⟨key, hk⟩ := exists_key ha
    obtain ⟨hsa, hde⟩ := hap key hk (((key_eq_iff ha hb).mpr hw).symm.trans hk)
    exact hs (shape_of_words hsa hde hw)
  · intro hn key ha hb
    have hna := (toList_key ha).1
    have hnb := (toList_key hb).1
    have hw := (key_eq_iff hna hnb).mp (ha.trans hb.symm)
    by_contra hdi
    refine hn ⟨hna, hnb, hw, fun hs => ?_⟩
    exact hdi (sameIds_of_parts (Delimited.eq_of_words_shape hw hs))

theorem cardsApart_iff :
    CardsApart a b ↔ ¬ (a.named ∧ b.named ∧ CutApart a.cardParts b.cardParts) := by
  constructor
  · rintro hap ⟨ha, hb, hw, hs⟩
    obtain ⟨key, hk⟩ := exists_cardKey ha
    have hsa := hap key hk (((cardKey_eq_iff ha hb).mpr hw).symm.trans hk)
    exact hs (shape_of_cardWords hsa hw)
  · intro hn key ha hb
    have hna := (toList_cardKey ha).1
    have hnb := (toList_cardKey hb).1
    have hw := (cardKey_eq_iff hna hnb).mp (ha.trans hb.symm)
    by_contra hdi
    refine hn ⟨hna, hnb, hw, fun hs => ?_⟩
    exact hdi (sameIds_of_cardParts (Delimited.eq_of_words_shape hw hs))

theorem key_ne_cardKey {key : String} (ha : a.key = some key) : b.cardKey ≠ some key := by
  intro hb
  have hl := (toList_key ha).2.symm.trans (toList_cardKey hb).2
  have hs : "idem".toList = ['i', 'd', 'e', 'm'] := rfl
  have hc : "idem-pcard".toList = ['i', 'd', 'e', 'm', '-', 'p', 'c', 'a', 'r', 'd'] := rfl
  rw [hs, hc, Delimited.joined, Delimited.joined] at hl
  have hp : ∃ part rest, a.parts = part :: rest := by
    unfold KeyedSend.parts
    split <;> exact ⟨_, _, rfl⟩
  obtain ⟨part, rest, hp⟩ := hp
  rw [hp] at hl
  simp at hl

-- Two sends, or two card posts, share a key they should not share exactly when both have a client
-- id and their parts read the same but are cut at other colons. A send never takes a card's key.
theorem idempotency_keys_apart_iff (a b : KeyedSend) :
    (SendsApart a b ↔ ¬ (a.named ∧ b.named ∧ CutApart a.parts b.parts)) ∧
    (CardsApart a b ↔ ¬ (a.named ∧ b.named ∧ CutApart a.cardParts b.cardParts)) ∧
    ∀ key, a.key = some key → b.cardKey ≠ some key :=
  ⟨sendsApart_iff, cardsApart_iff, fun _ => key_ne_cardKey⟩

def toTeam : KeyedSend :=
  ⟨"acme", none, { senderId := "alice", conversationId := "c1:team", clientMsgId := "k1" }⟩

def toFirst : KeyedSend :=
  ⟨"acme", none, { senderId := "alice", conversationId := "c1", clientMsgId := "team:k1" }⟩

-- A send to one conversation takes the key of a send to another.
theorem colon_takes_key : toTeam.key = toFirst.key ∧ ¬ SendsApart toTeam toFirst := by
  have hshared : toTeam.key = toFirst.key := by decide
  have hkey : toTeam.key = some "idem:acme:alice:c1:team:k1" := by decide
  refine ⟨hshared, fun hapart => ?_⟩
  exact absurd (hapart _ hkey (hshared.symm.trans hkey)).1.conversation (by decide)

end Collisions

end FlareIm.MessageIngest
