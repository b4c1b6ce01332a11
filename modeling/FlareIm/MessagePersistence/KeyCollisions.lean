import FlareIm.Lib.Delimited
import FlareIm.MessagePersistence.Theorems

namespace FlareIm.MessagePersistence

open Text Context Proto EventApplication

inductive KeyedBy where
  | clientMessageId
  | serverMessageId
  deriving DecidableEq

-- A message at the idempotency check, and the id its key is made of.
structure Keyed where
  ctx : Ctx
  prepared : PreparedMessage
  keyedBy : KeyedBy
  client_id_ne : keyedBy = .clientMessageId → prepared.message.clientMsgId ≠ ""

def Keyed.key (keyed : Keyed) : Except FlareError String :=
  match keyed.keyedBy with
  | .serverMessageId => messageKey keyed.ctx keyed.prepared.messageId
  | .clientMessageId =>
    match scopedClientIdempotencyKey keyed.ctx keyed.prepared.message.clientMsgId
      (some keyed.prepared.message.senderId) (some keyed.prepared.conversationId) with
    | .error error => .error error
    | .ok scopedId => messageKey keyed.ctx scopedId

def canonicalTenant (ctx : Ctx) : Option String :=
  ctx.tenantId.filter fun tenantId =>
    isValidTenantId tenantId ∧ normalizeTenantId tenantId = tenantId

-- What stands between the colons of an id.
def idWords (id : String) : List (List Char) :=
  id.toList.splitOn ':'

-- The words of the ids of a send. A blank sender or conversation is the word 0.
def sendWords (prepared : PreparedMessage) : List (List Char) :=
  idWords (orZero (some prepared.message.senderId)) ++
    (idWords (orZero (some prepared.conversationId)) ++ idWords prepared.message.clientMsgId)

def OneSend (a b : PreparedMessage) : Prop :=
  a.message.senderId = b.message.senderId ∧ a.conversationId = b.conversationId ∧
    a.message.clientMsgId = b.message.clientMsgId

-- Two messages with one key belong together.
def NoCollision (a b : Keyed) : Prop :=
  ∀ key, a.key = .ok key → b.key = .ok key → a.ctx.tenantId = b.ctx.tenantId ∧
    (OneSend a.prepared b.prepared ∨
      a.keyedBy = .serverMessageId ∧ b.keyedBy = .serverMessageId ∧
        a.prepared.messageId = b.prepared.messageId)

-- Both ids stand for no id, and are written in two ways.
def NamelessApart (a b : String) : Prop :=
  orZero (some a) = "0" ∧ orZero (some b) = "0" ∧ a ≠ b

-- The words are cut into ids at other places, or an id is left out in another way.
def CutApart (a b : PreparedMessage) : Prop :=
  (idWords (orZero (some a.message.senderId))).length ≠
      (idWords (orZero (some b.message.senderId))).length ∨
    (idWords (orZero (some a.conversationId))).length ≠
      (idWords (orZero (some b.conversationId))).length ∨
    NamelessApart a.message.senderId b.message.senderId ∨
    NamelessApart a.conversationId b.conversationId

-- The server id of one message reads like the scoped client id of another send.
def ReadsAsClientId (tenantId : String) (server client : PreparedMessage) : Prop :=
  idWords server.messageId = idWords "client" ++ [tenantId.toList] ++ sendWords client ∧
    ¬ OneSend server client

-- The same words stand for two messages.
def Misread (tenantId : String) (a b : Keyed) : Prop :=
  match a.keyedBy, b.keyedBy with
  | .clientMessageId, .clientMessageId =>
    sendWords a.prepared = sendWords b.prepared ∧ CutApart a.prepared b.prepared
  | .serverMessageId, .clientMessageId => ReadsAsClientId tenantId a.prepared b.prepared
  | .clientMessageId, .serverMessageId => ReadsAsClientId tenantId b.prepared a.prepared
  | .serverMessageId, .serverMessageId => False

section Keys

variable {ctx : Ctx} {messageId key tenantId : String} {keyed : Keyed}

theorem isValidTenantId_colon (h : isValidTenantId tenantId = true) : ':' ∉ tenantId.toList := by
  simp only [isValidTenantId, Bool.decide_and, Bool.and_eq_true, decide_eq_true_eq] at h
  intro hm
  have hc := List.all_eq_true.mp h.2.2 ':' hm
  exact absurd hc (by decide)

theorem canonicalTenant_eq_some (h : canonicalTenant ctx = some tenantId) :
    ctx.tenantId = some tenantId ∧ isValidTenantId tenantId = true ∧
      normalizeTenantId tenantId = tenantId := by
  obtain ⟨ht, hc⟩ := Option.filter_eq_some_iff.mp h
  exact ⟨ht, by simpa using hc⟩

theorem messageKey_eq_ok_iff : messageKey ctx messageId = .ok key ↔
    ∃ tenantId, canonicalTenant ctx = some tenantId ∧ key = storageKey tenantId messageId := by
  unfold messageKey canonicalTenant
  cases ht : ctx.tenantId with
  | none => simp
  | some tenantId =>
    by_cases hc : isValidTenantId tenantId ∧ normalizeTenantId tenantId = tenantId
    · simp [Option.filter, hc, eq_comm]
    · have hr : isValidTenantId tenantId = false ∨ ¬ normalizeTenantId tenantId = tenantId := by
        rw [← Bool.not_eq_true, ← not_and_or]
        exact hc
      simp [Option.filter, hc, hr]

theorem normalizeOptionalTenantId_canonical (h : canonicalTenant ctx = some tenantId) :
    normalizeOptionalTenantId ctx.tenantId = some tenantId := by
  obtain ⟨ht, -, hn⟩ := canonicalTenant_eq_some h
  have htr : trim tenantId ≠ "" := by
    intro hb
    rw [normalizeTenantId, if_pos (.inl hb)] at hn
    rw [← hn] at hb
    exact absurd hb (by decide)
  have hs : normalizeTenantId (trim tenantId) = tenantId := by
    rw [normalizeTenantId, trim_trim]
    exact hn
  simp [ht, normalizeOptionalTenantId, Option.filter, htr, hs]

theorem toList_append_colon (front back : String) :
    (front ++ ":" ++ back).toList = front.toList ++ ':' :: back.toList := by
  rw [String.toList_append, String.toList_append, List.append_assoc]
  rfl

theorem toList_tagged (tag front back : String) : (tag ++ front ++ ":" ++ back).toList =
    tag.toList ++ (front.toList ++ ':' :: back.toList) := by
  rw [toList_append_colon, String.toList_append, List.append_assoc]

theorem storageKey_inj {tenantId' messageId' : String} (h : isValidTenantId tenantId = true)
    (h' : isValidTenantId tenantId' = true) :
    storageKey tenantId messageId = storageKey tenantId' messageId' ↔
      tenantId = tenantId' ∧ messageId = messageId' := by
  constructor
  · intro heq
    unfold storageKey at heq
    generalize "storage:idempotency:" = tag at heq
    have hl := congrArg String.toList heq
    rw [toList_tagged, toList_tagged, List.append_cancel_left_eq,
      Delimited.append_mark_eq_iff] at hl
    have ht : (tenantId.toList.splitOn ':').length = (tenantId'.toList.splitOn ':').length := by
      rw [List.splitOn_eq_singleton (isValidTenantId_colon h),
        List.splitOn_eq_singleton (isValidTenantId_colon h')]
      rfl
    obtain ⟨ht, hid⟩ := Delimited.eq_of_words_eq hl ht
    exact ⟨String.toList_inj.mp ht, String.toList_inj.mp hid⟩
  · rintro ⟨rfl, rfl⟩
    rfl

theorem idWords_append_colon (front back : String) :
    idWords (front ++ ":" ++ back) = idWords front ++ idWords back := by
  rw [idWords, toList_append_colon, List.splitOn_append_cons_self]
  rfl

theorem idWords_scopedKey (prepared : PreparedMessage) (h : isValidTenantId tenantId = true) :
    idWords (scopedKey tenantId prepared.message.clientMsgId (some prepared.message.senderId)
      (some prepared.conversationId)) =
      idWords "client" ++ [tenantId.toList] ++ sendWords prepared := by
  have hc : "client:" = "client" ++ ":" := rfl
  have ht : idWords tenantId = [tenantId.toList] :=
    List.splitOn_eq_singleton (isValidTenantId_colon h)
  unfold scopedKey sendWords
  rw [hc]
  generalize "client" = tag
  rw [idWords_append_colon, idWords_append_colon, idWords_append_colon, idWords_append_colon,
    ht, List.append_assoc, List.append_assoc, List.append_assoc]

theorem idWords_inj {messageId' : String} :
    idWords messageId = idWords messageId' ↔ messageId = messageId' :=
  ((Delimited.splitOn_injective ':').eq_iff).trans String.toList_inj

-- The id a key is made of.
def Keyed.id (tenantId : String) (keyed : Keyed) : String :=
  match keyed.keyedBy with
  | .serverMessageId => keyed.prepared.messageId
  | .clientMessageId =>
    scopedKey tenantId keyed.prepared.message.clientMsgId
      (some keyed.prepared.message.senderId) (some keyed.prepared.conversationId)

theorem Keyed.key_eq_ok_iff : keyed.key = .ok key ↔ ∃ tenantId,
    canonicalTenant keyed.ctx = some tenantId ∧ key = storageKey tenantId (keyed.id tenantId) := by
  unfold Keyed.key Keyed.id
  cases keyed.keyedBy with
  | serverMessageId => exact messageKey_eq_ok_iff
  | clientMessageId =>
    simp only [scopedClientIdempotencyKey]
    cases hs : normalizeOptionalTenantId keyed.ctx.tenantId with
    | none =>
      have hn : canonicalTenant keyed.ctx = none := by
        by_contra hso
        obtain ⟨tenantId, ht⟩ := Option.ne_none_iff_exists'.mp hso
        rw [normalizeOptionalTenantId_canonical ht] at hs
        cases hs
      simp [hn]
    | some normal =>
      simp only [messageKey_eq_ok_iff]
      refine exists_congr fun tenantId => and_congr_right fun ht => ?_
      have hsa := normalizeOptionalTenantId_canonical ht
      rw [hs] at hsa
      rw [Option.some.inj hsa]

end Keys

section Collisions

variable {tenantId : String} {a b : PreparedMessage}

theorem orZero_some (id : String) : orZero (some id) = if isBlank id then "0" else id := by
  cases hb : isBlank id <;> simp [orZero, Option.filter, hb]

theorem orZero_eq_iff {id id' : String} :
    orZero (some id) = orZero (some id') ↔ id = id' ∨ NamelessApart id id' := by
  constructor
  · intro h
    by_cases hs : id = id'
    · exact .inl hs
    · refine .inr ?_
      have hz : orZero (some id) = "0" := by
        rw [orZero_some, orZero_some] at h
        rw [orZero_some]
        split
        · rfl
        · rename_i hid
          rw [if_neg hid] at h
          split at h
          · exact h
          · exact absurd h hs
      exact ⟨hz, h ▸ hz, hs⟩
  · rintro (rfl | ⟨hid, hid', -⟩)
    · rfl
    · rw [hid, hid']

-- The same words are one send, unless they are cut in another way.
theorem not_oneSend_iff (h : sendWords a = sendWords b) : ¬ OneSend a b ↔ CutApart a b := by
  constructor
  · intro ha
    by_contra hcu
    simp only [CutApart, not_or, not_not] at hcu
    obtain ⟨hse, hco, hs, hc⟩ := hcu
    obtain ⟨hsa, hr⟩ := List.append_inj h hse
    obtain ⟨hsa', hcl⟩ := List.append_inj hr hco
    refine ha ⟨?_, ?_, idWords_inj.mp hcl⟩
    · exact (orZero_eq_iff.mp (idWords_inj.mp hsa)).resolve_right hs
    · exact (orZero_eq_iff.mp (idWords_inj.mp hsa')).resolve_right hc
  · rintro hcu ⟨hs, hc, -⟩
    rcases hcu with hl | hl | hn | hn
    · exact hl (by rw [hs])
    · exact hl (by rw [hc])
    · exact hn.2.2 hs
    · exact hn.2.2 hc

theorem OneSend.symm (h : OneSend a b) : OneSend b a :=
  ⟨h.1.symm, h.2.1.symm, h.2.2.symm⟩

theorem scopedKey_eq_iff (h : isValidTenantId tenantId = true) :
    scopedKey tenantId a.message.clientMsgId (some a.message.senderId) (some a.conversationId) =
        scopedKey tenantId b.message.clientMsgId (some b.message.senderId) (some b.conversationId) ↔
      sendWords a = sendWords b := by
  rw [← idWords_inj, idWords_scopedKey a h, idWords_scopedKey b h, List.append_cancel_left_eq]

theorem eq_scopedKey_iff {messageId : String} (h : isValidTenantId tenantId = true) :
    messageId = scopedKey tenantId a.message.clientMsgId (some a.message.senderId)
        (some a.conversationId) ↔
      idWords messageId = idWords "client" ++ [tenantId.toList] ++ sendWords a := by
  rw [← idWords_inj, idWords_scopedKey a h]

theorem misread_iff {a b : Keyed} (h : isValidTenantId tenantId = true) :
    Misread tenantId a b ↔ a.id tenantId = b.id tenantId ∧
      ¬ (OneSend a.prepared b.prepared ∨ a.keyedBy = .serverMessageId ∧
        b.keyedBy = .serverMessageId ∧ a.prepared.messageId = b.prepared.messageId) := by
  unfold Misread Keyed.id ReadsAsClientId
  cases ha : a.keyedBy with
  | clientMessageId =>
    cases hb : b.keyedBy with
    | clientMessageId =>
      simp only [scopedKey_eq_iff h, reduceCtorEq, false_and, and_false, or_false]
      exact and_congr_right fun hw => (not_oneSend_iff hw).symm
    | serverMessageId =>
      simp only [reduceCtorEq, false_and, or_false]
      rw [eq_comm (b := b.prepared.messageId), eq_scopedKey_iff h]
      exact and_congr_right fun _ => not_congr ⟨OneSend.symm, OneSend.symm⟩
  | serverMessageId =>
    cases hb : b.keyedBy with
    | clientMessageId =>
      simp only [reduceCtorEq, false_and, and_false, or_false]
      rw [eq_scopedKey_iff h]
    | serverMessageId =>
      simp only [true_and, not_or, false_iff, not_and, not_not]
      exact fun hs _ => hs

-- Two messages share a key they should not share exactly when they are of one tenant and the
-- words of their ids, cut at the colons, are misread.
theorem no_collision_iff (a b : Keyed) :
    NoCollision a b ↔ ∀ tenantId, canonicalTenant a.ctx = some tenantId →
      canonicalTenant b.ctx = some tenantId → ¬ Misread tenantId a b := by
  constructor
  · intro hapart tenantId ha hb hmisread
    obtain ⟨htenant, hvalid, -⟩ := canonicalTenant_eq_some ha
    obtain ⟨hid, hnot⟩ := (misread_iff hvalid).mp hmisread
    have hkey : b.key = .ok (storageKey tenantId (a.id tenantId)) :=
      Keyed.key_eq_ok_iff.mpr ⟨tenantId, hb, by rw [hid]⟩
    exact hnot (hapart _ (Keyed.key_eq_ok_iff.mpr ⟨tenantId, ha, rfl⟩) hkey).2
  · intro hclear key ha hb
    obtain ⟨tenantId, hfirst, rfl⟩ := Keyed.key_eq_ok_iff.mp ha
    obtain ⟨tenantId', hsecond, hkey⟩ := Keyed.key_eq_ok_iff.mp hb
    obtain ⟨htenant, hvalid, -⟩ := canonicalTenant_eq_some hfirst
    obtain ⟨htenant', hvalid', -⟩ := canonicalTenant_eq_some hsecond
    obtain ⟨rfl, hid⟩ := (storageKey_inj hvalid hvalid').mp hkey
    refine ⟨htenant.trans htenant'.symm, ?_⟩
    by_contra hnot
    exact hclear tenantId hfirst hsecond ((misread_iff hvalid).mpr ⟨hid, hnot⟩)

def colonConversation : Message where
  serverId := "s1"
  clientMsgId := "k1"
  conversationId := "c1:team"
  senderId := "alice"
  conversationSeq := 1

def colonClientId : Message where
  serverId := "s2"
  clientMsgId := "team:k1"
  conversationId := "c1"
  senderId := "alice"
  conversationSeq := 1

def keyedConversation : Keyed where
  ctx := acme
  prepared := {
    message := markSent (pinMessageTenant colonConversation "acme")
    tenantId := "acme"
    server_id_ne := by decide
    tenant_pinned := by decide }
  keyedBy := .clientMessageId
  client_id_ne := by decide

def keyedClientId : Keyed where
  ctx := acme
  prepared := {
    message := markSent (pinMessageTenant colonClientId "acme")
    tenantId := "acme"
    server_id_ne := by decide
    tenant_pinned := by decide }
  keyedBy := .clientMessageId
  client_id_ne := by decide

-- A message to one conversation takes the key of a message to another one.
theorem colon_shares_key :
    (∃ key, keyedConversation.key = .ok key ∧ keyedClientId.key = .ok key) ∧
      ¬ NoCollision keyedConversation keyedClientId := by
  have hshared : keyedConversation.key = keyedClientId.key := by decide
  have hkey : keyedConversation.key =
      .ok "storage:idempotency:acme:client:acme:alice:c1:team:k1" := by decide
  refine ⟨⟨_, hkey, hshared ▸ hkey⟩, fun hapart => ?_⟩
  obtain ⟨-, hsend | hserver⟩ := hapart _ hkey (hshared ▸ hkey)
  · exact absurd hsend.2.1 (by decide)
  · exact absurd hserver.1 (by decide)

end Collisions

end FlareIm.MessagePersistence
