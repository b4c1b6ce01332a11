import FlareIm.EventApplication.Theorems
import FlareIm.MessageArchive.Theorems
import FlareIm.MessagePersistence

namespace FlareIm.MessagePersistence

open Text Context Proto EventRow EventApplication MessageArchive Fallible Transition
open List (forall_mem_singleton mem_append mem_cons mem_cons_of_mem mem_cons_self mem_map mem_map_of_mem not_mem_nil)

variable {id key : String} {error : FlareError} {reservation : Reservation}

section Keys

variable {ctx : Ctx} {prepared : PreparedMessage} {keys : List String}

-- The id the key of a client id is made of.
def scopedId (prepared : PreparedMessage) : String :=
  scopedKey prepared.tenantId prepared.message.clientMsgId (some prepared.message.senderId)
    (some prepared.conversationId)

def clientKey (prepared : PreparedMessage) : String :=
  storageKey prepared.tenantId (scopedId prepared)

def serverKey (prepared : PreparedMessage) : String :=
  storageKey prepared.tenantId prepared.messageId

-- The keys a message may be reserved under.
def keysOf (prepared : PreparedMessage) : List String :=
  if prepared.message.clientMsgId = "" then [serverKey prepared]
  else [serverKey prepared, clientKey prepared]

-- The context of a delivery is that of the message's header.
def Ctx.Delivers (ctx : Ctx) (prepared : PreparedMessage) : Prop :=
  normalizeOptionalTenantId ctx.tenantId = some prepared.tenantId

theorem normalizeOptionalTenantId_some {tenant tenantId : String}
    (h : normalizeOptionalTenantId (some tenant) = some tenantId) :
    trim tenant ≠ "" ∧ normalizeTenantId tenant = tenantId := by
  obtain ⟨trimmed, ht, hn⟩ := Option.map_eq_some_iff.mp h
  obtain ⟨htr, hne⟩ := Option.filter_eq_some_iff.mp ht
  obtain rfl : trim tenant = trimmed := Option.some.inj htr
  refine ⟨by simpa using hne, ?_⟩
  rw [← hn, normalizeTenantId, normalizeTenantId, trim_trim]

theorem messageKey_eq_ok (hct : Ctx.Delivers ctx prepared)
    (h : messageKey ctx id = .ok key) : key = storageKey prepared.tenantId id := by
  unfold messageKey at h
  split at h
  · cases h
  · rename_i tenantId ht
    split at h
    · cases h
    · rename_i hc
      have hs : normalizeTenantId tenantId = tenantId := by
        by_contra hno
        exact hc (.inr hno)
      rw [Ctx.Delivers, ht] at hct
      rw [← Except.ok.inj h, ← (normalizeOptionalTenantId_some hct).2, hs]

theorem messageKey_eq_error {id' : String}
    (h : messageKey ctx id = .error error) : messageKey ctx id' = .error error := by
  unfold messageKey at h ⊢
  split
  · rename_i hn
    simpa only [hn] using h
  · rename_i tenantId ht
    simp only [ht] at h
    split at h
    · rename_i hc
      rw [if_pos hc]
      exact h
    · cases h

theorem messageKey_of_ok (hc : Ctx.Delivers ctx prepared)
    (h : messageKey ctx id = .ok key) (id' : String) :
    messageKey ctx id' = .ok (storageKey prepared.tenantId id') := by
  cases h' : messageKey ctx id' with
  | error error =>
    rw [messageKey_eq_error h'] at h
    cases h
  | ok key' => rw [messageKey_eq_ok hc h']

theorem orZero_nonEmpty (id : String) : orZero (nonEmpty id) = orZero (some id) := by
  by_cases h : id = ""
  · subst h
    decide
  · rw [nonEmpty, if_neg h]

theorem nonEmpty_eq_some {id' : String} (h : nonEmpty id = some id') : id ≠ "" ∧ id = id' := by
  unfold nonEmpty at h
  split at h
  · cases h
  · exact ⟨‹_›, Option.some.inj h⟩

end Keys

section Reserve

variable {writer : Writer} {ctx : Ctx} {keys keys' : List String} {member : Member}

-- EXPIRE is answered, or there is nothing for it to do.
def ExpireAnswered (writer : Writer) (member : Member) : Prop :=
  writer.ttlSeconds = 0 ∨
    writer.ttlSeconds < 2 ^ 63 ∧ member.answers.clientExpire ∧ member.answers.serverExpire

-- The key SETNX is asked for: that of the client id while it is answered.
def reserveKey (member : Member) : String :=
  if member.prepared.message.clientMsgId ≠ "" ∧ member.answers.clientSetNx then
    clientKey member.prepared
  else serverKey member.prepared

theorem reserveKey_mem (member : Member) : reserveKey member ∈ keysOf member.prepared := by
  by_cases hc : member.prepared.message.clientMsgId = ""
  · have hk : reserveKey member = serverKey member.prepared := if_neg fun h => h.1 hc
    rw [hk, keysOf, if_pos hc]
    exact mem_cons_self
  · rw [keysOf, if_neg hc]
    unfold reserveKey
    split
    · exact mem_cons_of_mem _ mem_cons_self
    · exact mem_cons_self

def ReserveFails (member : Member) : Prop :=
  member.answers.serverSetNx = false ∧
    (member.prepared.message.clientMsgId = "" ∨ member.answers.clientSetNx = false)

-- The outcomes of asking for one key.
inductive Asked (keys : List String) (key : String) :
    List String × Except FlareError Bool → Prop where
  | held (h : key ∈ keys) : Asked keys key (keys, .ok false)
  | free (h : key ∉ keys) : Asked keys key (key :: keys, .ok true)

theorem isNew_answered {ttlSeconds : Nat} {expire : Bool}
    (hep : ttlSeconds = 0 ∨ ttlSeconds < 2 ^ 63 ∧ expire = true)
    (hk : messageKey ctx id = .ok key) :
    Asked keys key (isNew ttlSeconds ctx keys true expire id) := by
  have hno : ¬ (0 < ttlSeconds ∧ (2 ^ 63 ≤ ttlSeconds ∨ (!expire) = true)) := by
    rintro ⟨hp, hl | hf⟩
    · omega
    · rcases hep with hz | ⟨-, ha⟩
      · omega
      · simp [ha] at hf
  simp only [isNew, hk, Bool.not_true, Bool.false_eq_true, if_false, if_neg hno]
  split
  · exact .held ‹_›
  · exact .free ‹_›

theorem isNew_unanswered {ttlSeconds : Nat} {expire : Bool} :
    ∃ error, isNew ttlSeconds ctx keys false expire id = (keys, .error error) := by
  unfold isNew
  split <;> exact ⟨_, rfl⟩

-- The outcomes of a reservation whose EXPIREs are answered.
inductive Reserves (ctx : Ctx) (keys : List String) (member : Member) :
    List String × Except FlareError IdempotencyDecision → Prop where
  | fails (error : FlareError)
      (h : (∃ error, messageKey ctx "" = .error error) ∨ ReserveFails member) :
      Reserves ctx keys member (keys, .error error)
  | held (h : reserveKey member ∈ keys) : Reserves ctx keys member (keys, .ok ⟨false, .none⟩)
  | free (reservation : Reservation) (h : reserveKey member ∉ keys)
      (hrelease : releaseKey ctx reservation = some (reserveKey member)) :
      Reserves ctx keys member (reserveKey member :: keys, .ok ⟨true, reservation⟩)

theorem reserves_server (hep : ExpireAnswered writer member)
    (hk : reserveKey member = serverKey member.prepared)
    (hm : messageKey ctx member.prepared.messageId = .ok (serverKey member.prepared))
    (hf : member.answers.serverSetNx = false → ReserveFails member) :
    let reserved := isNew writer.ttlSeconds ctx keys member.answers.serverSetNx
      member.answers.serverExpire member.prepared.messageId
    Reserves ctx keys member (reserved.1, serverDecision member.prepared reserved.2) := by
  intro reserved
  cases hset : member.answers.serverSetNx with
  | false =>
    obtain ⟨error, hr⟩ : ∃ error, reserved = (keys, .error error) := by
      simp only [reserved, hset]
      exact isNew_unanswered
    rw [hr]
    exact .fails _ (.inr (hf hset))
  | true =>
    have ha : Asked keys (serverKey member.prepared) reserved := by
      simp only [reserved, hset]
      exact isNew_answered (hep.imp_right fun h => ⟨h.1, h.2.2⟩) hm
    generalize reserved = reserved at ha ⊢
    rw [← hk] at ha
    cases ha with
    | held h => exact .held h
    | free h =>
      refine .free (.serverMessageId member.prepared.messageId) h ?_
      have hne : member.prepared.messageId ≠ "" := member.prepared.server_id_ne
      simp [releaseKey, hne, hm, hk, Except.toOption]

theorem scopedClientIdempotencyKey_eq {prepared : PreparedMessage}
    (hc : Ctx.Delivers ctx prepared) :
    scopedClientIdempotencyKey ctx prepared.message.clientMsgId (some prepared.message.senderId)
      (some prepared.conversationId) = .ok (scopedId prepared) := by
  rw [scopedClientIdempotencyKey, hc]
  rfl

theorem scopedClientIdempotencyKey_nonEmpty (clientMsgId senderId conversationId : String) :
    scopedClientIdempotencyKey ctx clientMsgId (nonEmpty senderId) (nonEmpty conversationId) =
      scopedClientIdempotencyKey ctx clientMsgId (some senderId) (some conversationId) := by
  simp only [scopedClientIdempotencyKey, scopedKey, orZero_nonEmpty]

theorem releaseKey_client {prepared : PreparedMessage} (hct : Ctx.Delivers ctx prepared)
    (hc : prepared.message.clientMsgId ≠ "") :
    releaseKey ctx (.clientMessageId prepared.message.clientMsgId
      (nonEmpty prepared.message.senderId) (nonEmpty prepared.conversationId)) =
      (messageKey ctx (scopedId prepared)).toOption := by
  rw [releaseKey, if_neg hc, scopedClientIdempotencyKey_nonEmpty, scopedClientIdempotencyKey_eq hct]

theorem reserveIdempotency_reserves (hct : Ctx.Delivers ctx member.prepared)
    (hep : ExpireAnswered writer member) :
    Reserves ctx keys member (reserveIdempotency writer.ttlSeconds ctx keys member) := by
  cases hm : messageKey ctx member.prepared.messageId with
  | error error =>
    -- without a canonical tenant nothing is asked for
    have ha (id : String) : messageKey ctx id = .error error := messageKey_eq_error hm
    have hsc := scopedClientIdempotencyKey_eq hct
    simp only [reserveIdempotency, isNewByClientMsgId, isNew, ha, hsc, serverDecision]
    by_cases hc : member.prepared.message.clientMsgId = ""
    · rw [if_neg (not_not.mpr hc)]
      exact .fails _ (.inl ⟨error, ha _⟩)
    · simp only [hc, ne_eq, not_false_eq_true, if_true, if_false]
      exact .fails _ (.inl ⟨error, ha _⟩)
  | ok key =>
    have ha := messageKey_of_ok hct hm
    have hs : messageKey ctx member.prepared.messageId = .ok (serverKey member.prepared) := ha _
    by_cases hc : member.prepared.message.clientMsgId = ""
    · have hk : reserveKey member = serverKey member.prepared := if_neg fun h => h.1 hc
      rw [reserveIdempotency, if_neg (not_not.mpr hc)]
      exact reserves_server hep hk hs fun h => ⟨h, .inl hc⟩
    · have hcl (setNx expire : Bool) : isNewByClientMsgId writer.ttlSeconds ctx keys setNx expire
            member.prepared.message.clientMsgId (some member.prepared.message.senderId)
            (some member.prepared.conversationId) =
          isNew writer.ttlSeconds ctx keys setNx expire (scopedId member.prepared) := by
        rw [isNewByClientMsgId, if_neg hc, scopedClientIdempotencyKey_eq hct]
      rw [reserveIdempotency, if_pos hc, hcl]
      cases hset : member.answers.clientSetNx with
      | false =>
        have hk : reserveKey member = serverKey member.prepared :=
          if_neg fun h => absurd h.2 (by simp [hset])
        obtain ⟨error, hu⟩ : ∃ error, isNew writer.ttlSeconds ctx keys false
          member.answers.clientExpire (scopedId member.prepared) = (keys, .error error) :=
          isNew_unanswered
        rw [hu]
        exact reserves_server hep hk hs fun h => ⟨h, .inr hset⟩
      | true =>
        have hk : reserveKey member = clientKey member.prepared := if_pos ⟨hc, hset⟩
        have hak : Asked keys (reserveKey member) (isNew writer.ttlSeconds ctx keys true
            member.answers.clientExpire (scopedId member.prepared)) :=
          isNew_answered (hep.imp_right fun h => ⟨h.1, h.2.1⟩) (hk ▸ ha _)
        generalize isNew writer.ttlSeconds ctx keys true member.answers.clientExpire
          (scopedId member.prepared) = asked at hak ⊢
        cases hak with
        | held h => exact .held h
        | free h =>
          refine .free _ h ?_
          rw [releaseKey_client hct hc, ha, hk]
          rfl

end Reserve

section Stored

def PreparedMessage.identity (prepared : PreparedMessage) : RowIdentity where
  tenantId := prepared.tenantId
  serverId := prepared.messageId
  conversationId := prepared.conversationId
  clientMsgId := nonEmpty prepared.message.clientMsgId
  senderId := prepared.message.senderId
  seq := prepared.message.conversationSeq

-- The event is the Message event of the row with the identity.
def EventOf (codec : Codec) (identity : RowIdentity) (event : EventStreamInsertRow) : Prop :=
  eventKey event = (identity.tenantId, identity.conversationId, identity.seq) ∧
    MessageRow event ∧
    ∃ message, codec.message.decode event.payload = some message ∧
      message.serverId = identity.serverId ∧
      nonEmpty message.clientMsgId = identity.clientMsgId ∧
      message.senderId = identity.senderId ∧ message.conversationId = identity.conversationId

-- The row stands for the send of the message: it has its tenant, sender, conversation and client
-- id or, without a client id, its server id.
def StandsFor (identity : RowIdentity) (prepared : PreparedMessage) : Prop :=
  identity.tenantId = prepared.tenantId ∧
    if prepared.message.clientMsgId = "" then identity.serverId = prepared.messageId
    else identity.senderId = prepared.message.senderId ∧
      identity.conversationId = prepared.conversationId ∧
      identity.clientMsgId = some prepared.message.clientMsgId

-- The archive has a row for the send of the message, the event stream the event of that row.
def Stored (codec : Codec) (tables : Tables) (prepared : PreparedMessage) : Prop :=
  ∃ row ∈ tables.messages, StandsFor row.identity prepared ∧
    ∃ event ∈ tables.events, EventOf codec row.identity event

-- The two messages are one message, or two messages of one send.
def SameSend (a b : PreparedMessage) : Prop :=
  a.tenantId = b.tenantId ∧
    (a.message = b.message ∨
      a.message.clientMsgId ≠ "" ∧ a.message.clientMsgId = b.message.clientMsgId ∧
        a.message.senderId = b.message.senderId ∧ a.conversationId = b.conversationId)

-- The messages of a run. Each has a conversation, a server id of its own, and shares its keys
-- with messages of its own send only.
structure Sends where
  sent : PreparedMessage → Prop
  in_conversation : ∀ prepared, sent prepared → prepared.conversationId ≠ ""
  one_message : ∀ a b, sent a → sent b → a.tenantId = b.tenantId → a.messageId = b.messageId →
    a.message = b.message
  one_send : ∀ a b, sent a → sent b → ∀ key ∈ keysOf a, key ∈ keysOf b → SameSend a b

variable {codec : Codec} {tables tables' : Tables} {a b prepared : PreparedMessage}

theorem Stored.mono (h : Stored codec tables prepared)
    (hm : ∀ row ∈ tables.messages, row ∈ tables'.messages)
    (hev : ∀ event ∈ tables.events, event ∈ tables'.events) : Stored codec tables' prepared := by
  obtain ⟨row, hr, hs, event, hee, hof⟩ := h
  exact ⟨row, hm row hr, hs, event, hev event hee, hof⟩

theorem StandsFor.of_sameSend {identity : RowIdentity} (h : StandsFor identity a)
    (hsa : SameSend a b) : StandsFor identity b := by
  obtain ⟨ht, hsa⟩ := hsa
  refine ⟨h.1.trans ht, ?_⟩
  rcases hsa with hm | ⟨hne, hcl, hs, hc⟩
  · have hr := h.2
    simp only [PreparedMessage.messageId, PreparedMessage.conversationId, hm] at hr ⊢
    exact hr
  · obtain ⟨hs', hc', hcl'⟩ := (if_neg hne).mp h.2
    rw [if_neg (hcl ▸ hne)]
    exact ⟨hs'.trans hs, hc'.trans hc, hcl ▸ hcl'⟩

theorem Stored.of_sameSend (h : Stored codec tables a) (hsa : SameSend a b) :
    Stored codec tables b := by
  obtain ⟨row, hr, hs, hev⟩ := h
  exact ⟨row, hr, hs.of_sameSend hsa, hev⟩

theorem PreparedMessage.standsFor (prepared : PreparedMessage) :
    StandsFor prepared.identity prepared := by
  refine ⟨rfl, ?_⟩
  split
  · rfl
  · rename_i hc
    exact ⟨rfl, rfl, if_neg hc⟩

theorem PreparedMessage.identity_eq (ht : a.tenantId = b.tenantId)
    (hm : a.message = b.message) : a.identity = b.identity := by
  simp only [identity, messageId, conversationId, ht, hm]

-- What the archive may hold during the run.
def Sends.issue (sends : Sends) : Issue where
  row row := ∃ prepared, sends.sent prepared ∧ row.identity = prepared.identity
  one_message := by
    rintro a b ⟨first, hfirst, ha⟩ ⟨second, hsecond, hb⟩ hkey
    obtain ⟨htenant, hserver⟩ := Prod.mk.inj hkey
    have htenant' : first.tenantId = second.tenantId := by
      rw [show first.tenantId = first.identity.tenantId from rfl, ← ha,
        show second.tenantId = second.identity.tenantId from rfl, ← hb]
      exact htenant
    have hserver' : first.messageId = second.messageId := by
      rw [show first.messageId = first.identity.serverId from rfl, ← ha,
        show second.messageId = second.identity.serverId from rfl, ← hb]
      exact hserver
    rw [ha, hb]
    exact PreparedMessage.identity_eq htenant'
      (sends.one_message _ _ hfirst hsecond htenant' hserver')

end Stored

section Rows

variable {clock : Clock} {ctx : Ctx} {prepared : PreparedMessage} {codec : Codec}

theorem resolveTenantId_eq (hc : Ctx.Delivers ctx prepared) (message : Message) :
    resolveTenantId ctx message = .ok prepared.tenantId := by
  cases ht : ctx.tenantId with
  | none =>
    rw [Ctx.Delivers, ht] at hc
    exact absurd hc (by simp [normalizeOptionalTenantId])
  | some tenant =>
    rw [Ctx.Delivers, ht] at hc
    obtain ⟨hne, hn⟩ := normalizeOptionalTenantId_some hc
    have hb : isBlank tenant = false := (isBlank_eq_false tenant).mpr hne
    simp [resolveTenantId, ht, Option.filter, hb, hn]

theorem archiveRow_eq_ok (hc : Ctx.Delivers ctx prepared) {row : ArchiveRow}
    (h : archiveRow clock ctx prepared.message = .ok row) :
    row.identity = prepared.identity ∧ prepared.message.conversationSeq < 2 ^ 63 := by
  unfold archiveRow at h
  split at h
  · cases h
  · rename_i hs
    split at h
    · cases h
    · rw [resolveTenantId_eq hc] at h
      simp only [Except.ok.injEq] at h
      subst h
      exact ⟨rfl, by omega⟩

theorem eventToInsertRow_buildEventMessage (codec : Codec) (clock : Clock)
    (hc : prepared.conversationId ≠ "") :
    ∃ row, eventToInsertRow codec clock (buildEventMessage clock prepared) = some row ∧
      MessageRow row ∧
      eventKey row = (prepared.tenantId, prepared.conversationId,
        asI64 prepared.message.conversationSeq) ∧
      row.payload = codec.message.encode prepared.message := by
  have hne : ¬ (eventToProto codec (buildEventMessage clock prepared)).conversationId = "" :=
    hc
  exact ⟨_, if_neg hne, rfl, rfl, rfl⟩

theorem eventOf_of_recorded {events : List EventStreamInsertRow} {row : EventStreamInsertRow}
    (hco : codec.message.decode (codec.message.encode prepared.message) =
      some prepared.message) (hsq : prepared.message.conversationSeq < 2 ^ 63)
    (hk : eventKey row = (prepared.tenantId, prepared.conversationId,
      asI64 prepared.message.conversationSeq))
    (hpa : row.payload = codec.message.encode prepared.message)
    (h : Recorded codec events row) : ∃ event ∈ events, EventOf codec prepared.identity event := by
  obtain ⟨event, hm, hp, ht, hie⟩ := h
  have hde : eventIdentity codec row.payload = some (messageIdentity prepared.message) := by
    rw [eventIdentity, hpa, hco, Option.map_some]
  rw [hde] at hie
  obtain ⟨message, hme, hs⟩ := Option.map_eq_some_iff.mp hie
  simp only [messageIdentity, Prod.mk.injEq] at hs
  obtain ⟨hse, hcl, hsn, hc, -⟩ := hs
  refine ⟨event, hm, ?_, ht, message, hme, hse, ?_, hsn, hc⟩
  · rw [hp, hk, asI64, if_pos hsq]
    rfl
  · rw [hcl]
    rfl

end Rows

section Persist

-- Whatever message of the same send and conversation the ledger has, its event is in the stream.
def Settled (codec : Codec) (tables : Tables) (prepared : PreparedMessage) : Prop :=
  ∀ entry ∈ tables.ledger,
    entry.key = (prepared.tenantId, prepared.message.senderId, prepared.message.clientMsgId) →
    entry.conversationId = prepared.conversationId → entry.serverId ≠ prepared.messageId →
    ∃ event ∈ tables.events, EventOf codec entry.identity event

variable {writer : Writer} {codec : Codec} {clock : Clock} {ctx : Ctx} {sends : Sends}
  {before middle : Tables} {messages : List PreparedMessage} {outcome : ArchiveOutcome}
  {appended : List EventStreamInsertRow}

-- The messages of one delivery.
structure Delivery (sends : Sends) (ctx : Ctx) (codec : Codec) (tables : Tables)
    (messages : List PreparedMessage) : Prop where
  delivers : ∀ prepared ∈ messages, Ctx.Delivers ctx prepared
  sent : ∀ prepared ∈ messages, sends.sent prepared
  settled : ∀ prepared ∈ messages, Settled codec tables prepared

theorem Delivery.issue (h : Delivery sends ctx codec before messages) :
    sends.issue.messages clock ctx (messages.map (·.message)) := by
  intro message hm row hr
  obtain ⟨prepared, hp, rfl⟩ := mem_map.mp hm
  exact ⟨prepared, h.sent prepared hp, (archiveRow_eq_ok (h.delivers prepared hp) hr).1⟩

theorem Delivery.same_message (h : Delivery sends ctx codec before messages)
    {a b : PreparedMessage} (ha : a ∈ messages) (hb : b ∈ messages)
    (hs : a.messageId = b.messageId) : a.identity = b.identity := by
  have ht : a.tenantId = b.tenantId := by
    have hbo := (h.delivers a ha).symm.trans (h.delivers b hb)
    exact Option.some.inj hbo
  exact PreparedMessage.identity_eq ht (sends.one_message a b (h.sent a ha) (h.sent b hb) ht hs)

-- Once the events of the messages that are no duplicates are in the stream, all are stored. A
-- duplicate is, through the message that has its key: that one is of this delivery and no
-- duplicate itself, or it was there before.
theorem stored_of_archived (h : Delivery sends ctx codec before messages)
    (hst : Stores clock ctx sends.issue before (messages.map (·.message)) middle outcome)
    (hke : ∀ event ∈ before.events, event ∈ appended)
    (hre : ∀ prepared ∈ messages, outcome.isDuplicate prepared.messageId = false →
      ∃ event ∈ appended, EventOf codec prepared.identity event) :
    ∀ prepared ∈ messages, Stored codec { middle with events := appended } prepared := by
  obtain ⟨rows, hro, ha⟩ := hst.archived
  have hrow_of (prepared : PreparedMessage) (hm : prepared ∈ messages) :
      ∃ row ∈ rows, row.identity = prepared.identity := by
    obtain ⟨row, hr, hok⟩ :=
      Listing.exists_right_of_mem hro (mem_map_of_mem hm)
    exact ⟨row, hr, (archiveRow_eq_ok (h.delivers prepared hm) hok).1⟩
  have hof_row (row : ArchiveRow) (hr : row ∈ rows) :
      ∃ prepared ∈ messages, row.identity = prepared.identity := by
    obtain ⟨message, hme, hok⟩ := Listing.exists_left_of_mem hro hr
    obtain ⟨prepared, hm, rfl⟩ := mem_map.mp hme
    exact ⟨prepared, hm, (archiveRow_eq_ok (h.delivers prepared hm) hok).1⟩
  intro prepared hm
  obtain ⟨row, hr, hie⟩ := hrow_of prepared hm
  cases hdu : outcome.isDuplicate prepared.messageId with
  | false =>
    have hs : row.serverId = prepared.messageId := congrArg RowIdentity.serverId hie
    obtain ⟨stored, hso, hsa⟩ := ha.stored row hr (hs ▸ hdu)
    obtain ⟨event, hev, hof⟩ := hre prepared hm hdu
    rw [← hie, ← hsa] at hof
    refine ⟨stored, hso, ?_, event, hev, hof⟩
    rw [hsa, hie]
    exact prepared.standsFor
  | true =>
    obtain ⟨row', hr', hs, claim, hca, entry, hen, hk, ho, hc⟩ :=
      ha.duplicate prepared.messageId hdu
    obtain ⟨other, hoe, hoh⟩ := hof_row row' hr'
    have hsa : claim.identity = prepared.identity := by
      rw [← LedgerClaim.identity_of hca, hoh]
      exact h.same_message hoe hm ((congrArg RowIdentity.serverId hoh).symm.trans hs)
    obtain ⟨ht, hs', hc', hcl, hsn, -⟩ := RowIdentity.mk.inj hsa
    obtain ⟨hne, hcl⟩ := nonEmpty_eq_some hcl.symm
    obtain ⟨hkt, hks, hkc⟩ : entry.tenantId = prepared.tenantId ∧
        entry.senderId = prepared.message.senderId ∧
        entry.clientMsgId = prepared.message.clientMsgId := by
      simp only [LedgerClaim.key, Prod.mk.injEq] at hk
      exact ⟨hk.1.trans ht, hk.2.1.trans hsn, hk.2.2.trans hcl.symm⟩
    obtain ⟨stored, hso, hoy⟩ := hst.consistent.claimed entry hen
    have hid := LedgerClaim.identity_of hoy
    refine ⟨stored, hso, ?_, ?_⟩
    · rw [hid]
      refine ⟨hkt, ?_⟩
      rw [if_neg hne]
      exact ⟨hks, hc.trans hc', congrArg some hkc⟩
    · rw [hid]
      rcases ha.claimed entry hen with hold | ⟨newest, hn, hnw⟩
      · obtain ⟨event, hev, hof⟩ := h.settled prepared hm entry hold
          (by rw [LedgerClaim.key, hkt, hks, hkc]) (hc.trans hc') (by rw [← hs']; exact ho)
        exact ⟨event, hke event hev, hof⟩
      · obtain ⟨owner, hon, hoi⟩ := hof_row newest hn
        have het : entry.identity = owner.identity :=
          (LedgerClaim.identity_of hnw).symm.trans hoi
        have hno : outcome.isDuplicate owner.messageId = false := by
          rw [Bool.eq_false_iff]
          intro hor
          obtain ⟨again, haa, hag, claim', hca', entry', hen', hk', hne',
            -⟩ := ha.duplicate owner.messageId hor
          obtain ⟨same, hse, hsm⟩ := hof_row again haa
          -- the claim of the owner is the entry, which has its key alone
          have hci : claim'.identity = entry.identity := by
            rw [← LedgerClaim.identity_of hca', hsm, het]
            exact h.same_message hse hon ((congrArg RowIdentity.serverId hsm).symm.trans hag)
          have hcm : claim' = entry := LedgerClaim.identity_injective hci
          rw [hcm] at hk' hne'
          exact hne' (congrArg LedgerClaim.serverId
            (hst.consistent.unique entry' hen' entry hen hk'))
        obtain ⟨event, hev, hof⟩ := hre owner hon hno
        exact ⟨event, hev, het ▸ hof⟩

structure Sound (sends : Sends) (tables : Tables) : Prop where
  consistent : Consistent sends.issue tables
  events : ∀ event ∈ tables.events, MessageRow event

-- What persisting some messages does, with its failures.
structure Persists (sends : Sends) (codec : Codec) (before : Tables)
    (messages : List PreparedMessage) (after : Tables)
    (answer : Except FlareError ArchiveOutcome) : Prop where
  sound : Sound sends after
  rows : ∀ row ∈ before.messages, row ∈ after.messages
  events : ∀ event ∈ before.events, event ∈ after.events
  stored : ∀ outcome, answer = .ok outcome → ∀ prepared ∈ messages, Stored codec after prepared

-- The proto library reads back the messages it has written.
def ReadsBack (codec : Codec) (sends : Sends) : Prop :=
  ∀ prepared, sends.sent prepared →
    codec.message.decode (codec.message.encode prepared.message) = some prepared.message

variable {database : Database} {after : Tables} {answer : Except FlareError ArchiveOutcome}

theorem Persists.of_failed {archived : Tables}
    (hs : Sound sends before) (hk : Keeps sends.issue before archived) :
    Persists sends codec before messages archived (.error error) where
  sound := ⟨hk.consistent, hk.events ▸ hs.events⟩
  rows := hk.messages
  events event h := hk.events ▸ h
  stored outcome hok := absurd hok (by simp)

theorem Persists.of_appended (hso : Sound sends before)
    (hde : Delivery sends ctx codec before messages)
    (hs : Stores clock ctx sends.issue before (messages.map (·.message)) middle outcome)
    {rows : List EventStreamInsertRow} (ha : Appended middle.events appended rows)
    (hro : ∀ event ∈ rows, MessageRow event)
    (hr : ∀ result, answer = .ok result → ∀ prepared ∈ messages,
      outcome.isDuplicate prepared.messageId = false →
      ∃ event ∈ appended, EventOf codec prepared.identity event) :
    Persists sends codec before messages { middle with events := appended } answer := by
  obtain ⟨archivedRows, -, har⟩ := hs.archived
  have hsa := har.events
  have hc := hs.consistent
  have hk : ∀ event ∈ before.events, event ∈ appended :=
    fun event hm => ha.kept event (hsa ▸ hm)
  have hev : ∀ event ∈ appended, MessageRow event :=
    ha.messageRows (hsa ▸ hso.events) hro
  exact ⟨⟨⟨hc.issued, hc.unique, hc.claimed, hc.written⟩, hev⟩,
    har.messages, hk, fun result hok =>
      stored_of_archived hde hs hk (hr result hok)⟩

theorem seq_lt_of_stores (hde : Delivery sends ctx codec before messages)
    (hs : Stores clock ctx sends.issue before (messages.map (·.message)) middle outcome)
    {prepared : PreparedMessage} (hm : prepared ∈ messages) :
    prepared.message.conversationSeq < 2 ^ 63 := by
  obtain ⟨rows, hr, -⟩ := hs.archived
  obtain ⟨row, -, hok⟩ := Listing.exists_right_of_mem hr (mem_map_of_mem hm)
  exact (archiveRow_eq_ok (hde.delivers prepared hm) hok).2

theorem archiveMessages_of_ok (hso : Sound sends before)
    (hde : Delivery sends ctx codec before messages) {size : Message → Nat}
    {answers : List Bool}
    (h : archiveMessages clock ctx size before answers (messages.map (·.message)) =
      (middle, .ok outcome)) :
    Stores clock ctx sends.issue before (messages.map (·.message)) middle outcome := by
  rcases archiveMessages_spec hso.consistent hde.issue h with
    ⟨_, heo, -⟩ | ⟨_, hok, hs⟩
  · cases heo
  · exact Except.ok.inj hok ▸ hs

theorem archiveMessages_of_error (hs : Sound sends before)
    (hde : Delivery sends ctx codec before messages) {size : Message → Nat}
    {answers : List Bool}
    (h : archiveMessages clock ctx size before answers (messages.map (·.message)) =
      (middle, .error error)) : Keeps sends.issue before middle := by
  rcases archiveMessages_spec hs.consistent hde.issue h with
    ⟨_, -, hk⟩ | ⟨_, hok, -⟩
  · exact hk
  · cases hok

theorem persistMessage_persists {prepared : PreparedMessage}
    (hc : ReadsBack writer.codec sends) (hs : Sound sends before)
    (hde : Delivery sends ctx writer.codec before [prepared])
    (h : persistMessage writer ctx database before prepared = (after, answer)) :
    Persists sends writer.codec before [prepared] after answer := by
  have hse := hde.sent prepared mem_cons_self
  simp only [persistMessage] at h
  split at h
  · rename_i archived error har
    cases h
    exact .of_failed hs (archiveMessages_of_error hs hde har)
  · rename_i archived outcome har
    have hst := archiveMessages_of_ok hs hde har
    obtain ⟨rows, -, hac⟩ := hst.archived
    split at h
    · rename_i hdu
      obtain ⟨rfl, rfl⟩ := Prod.mk.inj h
      have hn : Appended archived.events archived.events [] :=
        ⟨fun _ hm => hm, fun _ hm => .inl hm⟩
      refine Persists.of_appended hs hde hst hn (by simp) ?_
      intro result hok other hm hno
      obtain rfl : other = prepared := List.mem_singleton.mp hm
      exact absurd hdu (by simp [hno])
    · obtain ⟨row, hin, hr, hk, hp⟩ := eventToInsertRow_buildEventMessage
        writer.codec database.clock (sends.in_conversation prepared hse)
      have hev : ∀ event ∈ archived.events, MessageRow event :=
        hac.events ▸ hs.events
      split at h
      · rename_i error hap
        cases h
        obtain ⟨appended, rfl, ha, -⟩ := appendEvent_spec hev hin hr hap
        exact .of_appended hs hde hst ha
          (forall_mem_singleton.mpr hr) fun _ hok => absurd hok (by simp)
      · rename_i hap
        cases h
        obtain ⟨appended, rfl, ha, hre⟩ := appendEvent_spec hev hin hr hap
        refine .of_appended hs hde hst ha (forall_mem_singleton.mpr hr) ?_
        intro _ _ other hm _
        obtain rfl : other = prepared := List.mem_singleton.mp hm
        exact eventOf_of_recorded (hc other hse) (seq_lt_of_stores hde hst hm) hk hp (hre rfl)

theorem persistBatch_persists (hc : ReadsBack writer.codec sends) (hs : Sound sends before)
    (hde : Delivery sends ctx writer.codec before messages)
    (h : persistBatch writer ctx database before messages = (after, answer)) :
    Persists sends writer.codec before messages after answer := by
  simp only [persistBatch] at h
  split at h
  · rename_i archived error har
    cases h
    exact .of_failed hs (archiveMessages_of_error hs hde har)
  · rename_i archived outcome har
    have hst := archiveMessages_of_ok hs hde har
    obtain ⟨rows, -, hac⟩ := hst.archived
    have hee : ∀ event ∈ archived.events, MessageRow event :=
      hac.events ▸ hs.events
    let kept := messages.filter fun message => !outcome.isDuplicate message.messageId
    have hbu (prepared : PreparedMessage) (hm : prepared ∈ messages) :=
      eventToInsertRow_buildEventMessage writer.codec database.clock
        (sends.in_conversation prepared (hde.sent prepared hm))
    have hb : ∀ event ∈ kept.map (buildEventMessage database.clock), ∀ row,
        eventToInsertRow writer.codec database.clock event = some row → MessageRow row := by
      intro event hev row hin
      obtain ⟨prepared, hp, rfl⟩ := mem_map.mp hev
      obtain ⟨row', hin', hr, -⟩ := hbu prepared (List.mem_of_mem_filter hp)
      obtain rfl : row' = row := Option.some.inj (hin'.symm.trans hin)
      exact hr
    have hro : ∀ row ∈ (kept.map (buildEventMessage database.clock)).filterMap
        (eventToInsertRow writer.codec database.clock), MessageRow row := by
      intro row hm
      obtain ⟨event, hev, hin⟩ := List.mem_filterMap.mp hm
      exact hb event hev row hin
    split at h
    · rename_i error hap
      cases h
      obtain ⟨appended, rfl, ha, -⟩ := appendEventsToStream_spec hee hb hap
      exact .of_appended hs hde hst ha hro fun _ hok => absurd hok (by simp)
    · rename_i hap
      cases h
      obtain ⟨appended, rfl, ha, hre⟩ := appendEventsToStream_spec hee hb hap
      refine .of_appended hs hde hst ha hro ?_
      intro _ _ prepared hm hno
      obtain ⟨row, hin, -, hk, hpa⟩ := hbu prepared hm
      have hke : prepared ∈ kept := List.mem_filter.mpr ⟨hm, by simp [hno]⟩
      have hme : row ∈ (kept.map (buildEventMessage database.clock)).filterMap
          (eventToInsertRow writer.codec database.clock) :=
        List.mem_filterMap.mpr ⟨_, mem_map_of_mem hke, hin⟩
      exact eventOf_of_recorded (hc prepared (hde.sent prepared hm))
        (seq_lt_of_stores hde hst hm) hk hpa (hre rfl row hme)

end Persist

section Loop

variable {writer : Writer} {ctx : Ctx} {store store' : Store} {members : List Member}

-- The reservation loop of a batch returns at this member: its key cannot be asked for, or the
-- key is taken and its acknowledgement fails.
def LoopFails (keys : List String) (before : List Member) (member : Member) : Prop :=
  ReserveFails member ∨
    member.answers.ack = false ∧ reserveKey member ∈ keys ++ before.map reserveKey

-- Where the loop returns, no member before it took a key that was free.
def LoopLeavesNothing (keys : List String) (members : List Member) : Prop :=
  ∀ before member after, members = before ++ member :: after → LoopFails keys before member →
    ∀ earlier ∈ before, reserveKey earlier ∈ keys

-- The outcomes of the reservation loop.
inductive LoopEnds (ctx : Ctx) (keys : List String) (members : List Member) (keys' : List String) :
    Except FlareError (List Reserved × List PersistenceResult) → Prop where
  | refused (error : FlareError) (hrefused : ∃ error, messageKey ctx "" = .error error)
      (hkeys : keys' = keys) : LoopEnds ctx keys members keys' (.error error)
  | returned (error : FlareError) (before : List Member) (member : Member) (after : List Member)
      (hsplit : members = before ++ member :: after) (hfails : LoopFails keys before member)
      (hkeys : ∀ key ∈ keys', key ∈ keys ∨ ∃ earlier ∈ before, reserveKey earlier = key) :
      LoopEnds ctx keys members keys' (.error error)
  | through (reserved : List Reserved) (results : List PersistenceResult)
      (hkeys : ∀ key ∈ keys', key ∈ keys ∨ ∃ entry ∈ reserved, reserveKey entry.1 = key)
      (hreserved : ∀ entry ∈ reserved, entry.1 ∈ members ∧
        releaseKey ctx entry.2 = some (reserveKey entry.1))
      (hmembers : ∀ member ∈ members, reserveKey member ∈ keys ∨
        ∃ entry ∈ reserved, reserveKey entry.1 = reserveKey member) :
      LoopEnds ctx keys members keys' (.ok (reserved, results))

theorem messageKey_of_releaseKey
    (h : releaseKey ctx reservation = some key) : ∃ id, messageKey ctx id = .ok key := by
  have ht {id : String} (h : (messageKey ctx id).toOption = some key) :
      messageKey ctx id = .ok key := by
    cases hm : messageKey ctx id with
    | error error => simp [hm, Except.toOption] at h
    | ok found =>
      simp only [hm, Except.toOption, Option.some.injEq] at h
      rw [h]
  cases reservation with
  | none => exact absurd h (by simp [releaseKey])
  | serverMessageId messageId =>
    rw [releaseKey] at h
    split at h
    · cases h
    · exact ⟨messageId, ht h⟩
  | clientMessageId clientMsgId senderId conversationId =>
    rw [releaseKey] at h
    split at h
    · cases h
    · split at h
      · cases h
      · exact ⟨_, ht h⟩

variable {keys keys' : List String} {member : Member}
  {answer : Except FlareError (List Reserved × List PersistenceResult)}

theorem LoopFails.cons {before : List Member} {later : Member}
    (h : LoopFails keys before later) : LoopFails keys (member :: before) later := by
  refine h.imp_right fun ha => ⟨ha.1, ?_⟩
  rcases mem_append.mp ha.2 with hk | hb
  · exact List.mem_append_left _ hk
  · exact List.mem_append_right _ (mem_cons_of_mem _ hb)

theorem LoopEnds.reserve (hrl : releaseKey ctx reservation = some (reserveKey member))
    (h : LoopEnds ctx (reserveKey member :: keys) members keys' answer) :
    LoopEnds ctx keys (member :: members) keys'
      (answer.map fun done => ((member, reservation) :: done.1, done.2)) := by
  cases h with
  | refused error hr hke =>
    obtain ⟨error, hr⟩ := hr
    obtain ⟨id, hk⟩ := messageKey_of_releaseKey hrl
    rw [messageKey_eq_error hr] at hk
    cases hk
  | returned error before later after hs hf hke =>
    refine .returned error (member :: before) later after (by rw [hs]; rfl) ?_ ?_
    · refine hf.imp_right fun ha => ⟨ha.1, ?_⟩
      have hm := ha.2
      simp only [List.cons_append, mem_cons, mem_append, List.map_cons] at hm ⊢
      tauto
    · intro key hk
      rcases hke key hk with hold | ⟨earlier, hea, rfl⟩
      · rcases mem_cons.mp hold with rfl | hold
        · exact .inr ⟨member, mem_cons_self, rfl⟩
        · exact .inl hold
      · exact .inr ⟨earlier, mem_cons_of_mem _ hea, rfl⟩
  | through reserved results hke hre hme =>
    refine .through ((member, reservation) :: reserved) results ?_ ?_ ?_
    · intro key hk
      rcases hke key hk with hold | ⟨entry, hen, rfl⟩
      · rcases mem_cons.mp hold with rfl | hold
        · exact .inr ⟨(member, reservation), mem_cons_self, rfl⟩
        · exact .inl hold
      · exact .inr ⟨entry, mem_cons_of_mem _ hen, rfl⟩
    · intro entry hen
      rcases mem_cons.mp hen with rfl | hen
      · exact ⟨mem_cons_self, hrl⟩
      · exact ⟨mem_cons_of_mem _ (hre entry hen).1, (hre entry hen).2⟩
    · intro other ho
      rcases mem_cons.mp ho with rfl | ho
      · exact .inr ⟨(other, reservation), mem_cons_self, rfl⟩
      · rcases hme other ho with hold | ⟨entry, hen, hk⟩
        · rcases mem_cons.mp hold with hsa | hold
          · exact .inr ⟨(member, reservation), mem_cons_self, hsa.symm⟩
          · exact .inl hold
        · exact .inr ⟨entry, mem_cons_of_mem _ hen, hk⟩

-- The loop after a member whose key was taken.
theorem LoopEnds.skip (acked : PersistenceResult) (hh : reserveKey member ∈ keys)
    (h : LoopEnds ctx keys members keys' answer) : LoopEnds ctx keys (member :: members) keys'
      (answer.map fun done => (done.1, acked :: done.2)) := by
  cases h with
  | refused error hre hke => exact .refused error hre hke
  | returned error before later after hs hf hke =>
    refine .returned error (member :: before) later after (by rw [hs]; rfl) hf.cons ?_
    intro key hk
    rcases hke key hk with hold | ⟨earlier, hea, rfl⟩
    · exact .inl hold
    · exact .inr ⟨earlier, mem_cons_of_mem _ hea, rfl⟩
  | through reserved results hke hr hm =>
    refine .through reserved (acked :: results) hke ?_ ?_
    · intro entry hen
      exact ⟨mem_cons_of_mem _ (hr entry hen).1, (hr entry hen).2⟩
    · intro other ho
      rcases mem_cons.mp ho with rfl | ho
      · exact .inl hh
      · exact hm other ho

theorem reserveLoop_ends (hc : ∀ member ∈ members, Ctx.Delivers ctx member.prepared)
    (hep : ∀ member ∈ members, ExpireAnswered writer member)
    (h : reserveLoop writer ctx store members = (store', answer)) :
    store'.tables = store.tables ∧ LoopEnds ctx store.keys members store'.keys answer := by
  induction members generalizing store store' answer with
  | nil =>
    cases h
    exact ⟨rfl, .through [] [] (fun key hk => .inl hk)
      (fun entry het => absurd het not_mem_nil) (fun member hm => absurd hm not_mem_nil)⟩
  | cons member rest ih =>
    have hre (store store' : Store) {answer} :=
      @ih store store' answer (fun other ho => hc other (mem_cons_of_mem _ ho))
        (fun other ho => hep other (mem_cons_of_mem _ ho))
    have hr : Reserves ctx store.keys member
        (reserveIdempotency writer.ttlSeconds ctx store.keys member) :=
      reserveIdempotency_reserves (hc member mem_cons_self) (hep member mem_cons_self)
    simp only [reserveLoop] at h
    generalize reserveIdempotency writer.ttlSeconds ctx store.keys member = decided at h hr
    cases hr with
    | fails error hf =>
      cases h
      refine ⟨rfl, ?_⟩
      rcases hf with hrf | hf
      · exact .refused error hrf rfl
      · exact .returned error [] member rest rfl (.inl hf) fun key hk => .inl hk
    | held hh =>
      simp only [Bool.false_eq_true, if_false, publishAck] at h
      cases ha : member.answers.ack with
      | false =>
        simp only [ha, Bool.false_eq_true, if_false] at h
        cases h
        exact ⟨rfl, .returned _ [] member rest rfl
          (.inr ⟨ha, List.mem_append_left _ hh⟩) fun key hk => .inl hk⟩
      | true =>
        simp only [ha, if_true] at h
        split at h
        · rename_i hl
          cases h
          obtain ⟨ht, hen⟩ := hre _ _ hl
          exact ⟨ht, hen.skip (result member.prepared true) hh⟩
        · rename_i hl
          cases h
          obtain ⟨ht, hen⟩ := hre _ _ hl
          exact ⟨ht, hen.skip (result member.prepared true) hh⟩
    | free reservation hfr hrl =>
      simp only [if_true] at h
      split at h
      · rename_i hl
        cases h
        obtain ⟨ht, hen⟩ := hre _ _ hl
        exact ⟨ht, hen.reserve hrl⟩
      · rename_i hl
        cases h
        obtain ⟨ht, hen⟩ := hre _ _ hl
        exact ⟨ht, hen.reserve hrl⟩

end Loop

section Ensure

-- Every key that is held is that of a stored message.
structure Backed (sends : Sends) (codec : Codec) (store : Store) : Prop where
  sound : Sound sends store.tables
  keys : ∀ key ∈ store.keys, ∃ prepared, sends.sent prepared ∧ key ∈ keysOf prepared ∧
    Stored codec store.tables prepared

-- What a delivery does to the store.
structure Ensured (sends : Sends) (codec : Codec) (before after : Store)
    (messages : List PreparedMessage) (succeeded : Prop) : Prop where
  backed : Backed sends codec after
  rows : ∀ row ∈ before.tables.messages, row ∈ after.tables.messages
  events : ∀ event ∈ before.tables.events, event ∈ after.tables.events
  stored : succeeded → ∀ prepared ∈ messages, Stored codec after.tables prepared

variable {writer : Writer} {ctx : Ctx} {database : Database} {sends : Sends} {codec : Codec}
  {before after : Store} {messages : List PreparedMessage} {succeeded : Prop}

theorem Backed.stored_of_held (h : Backed sends codec before) {prepared : PreparedMessage}
    (hse : sends.sent prepared) (hk : key ∈ keysOf prepared)
    (hh : key ∈ before.keys) : Stored codec before.tables prepared := by
  obtain ⟨holder, hho, hk', hs⟩ := h.keys key hh
  exact hs.of_sameSend (sends.one_send holder prepared hho hse key hk' hk)

theorem Ensured.of_same_tables (h : Backed sends codec before)
    (ht : after.tables = before.tables) (hke : ∀ key ∈ after.keys, key ∈ before.keys)
    (hst : succeeded → ∀ prepared ∈ messages, Stored codec before.tables prepared) :
    Ensured sends codec before after messages succeeded where
  backed := ⟨ht ▸ h.sound, fun key hk => ht ▸ h.keys key (hke key hk)⟩
  rows _ hr := ht ▸ hr
  events _ hev := ht ▸ hev
  stored hs := ht ▸ hst hs

theorem Ensured.of_persists {answer : Except FlareError ArchiveOutcome}
    (h : Backed sends codec before)
    {persisted : List PreparedMessage}
    (hp : Persists sends codec before.tables persisted after.tables answer)
    (hky : ∀ key ∈ after.keys, key ∈ before.keys ∨ ∃ outcome, answer = .ok outcome ∧
      ∃ prepared ∈ persisted, sends.sent prepared ∧ key ∈ keysOf prepared)
    (hs : succeeded → ∀ prepared ∈ messages, Stored codec after.tables prepared) :
    Ensured sends codec before after messages succeeded where
  backed := by
    refine ⟨hp.sound, fun key hk => ?_⟩
    rcases hky key hk with hold | ⟨outcome, hok, prepared, hm, hse, hke⟩
    · obtain ⟨holder, hh, hke, hs⟩ := h.keys key hold
      exact ⟨holder, hh, hke, hs.mono hp.rows hp.events⟩
    · exact ⟨prepared, hse, hke, hp.stored outcome hok prepared hm⟩
  rows := hp.rows
  events := hp.events
  stored := hs

theorem mem_release {keys : List String} :
    key ∈ releaseIdempotencyReservation ctx keys reservation ↔
      key ∈ keys ∧ releaseKey ctx reservation ≠ some key := by
  unfold releaseIdempotencyReservation
  split
  · rename_i hn
    simp [hn]
  · rename_i released hs
    rw [List.mem_filter, hs, decide_eq_true_eq, Option.some_inj.ne, ne_comm]

theorem mem_foldl_release {keys : List String} {reservations : List Reservation} :
    key ∈ reservations.foldl (releaseIdempotencyReservation ctx) keys ↔
      key ∈ keys ∧ ∀ reservation ∈ reservations, releaseKey ctx reservation ≠ some key := by
  induction reservations generalizing keys with
  | nil => simp
  | cons head rest ih =>
    rw [List.foldl_cons, ih, mem_release, List.forall_mem_cons, and_assoc]

theorem ensureConsistency_ensured {member : Member} {answer : Except FlareError PersistenceResult}
    (hc : ReadsBack writer.codec sends) (hb : Backed sends writer.codec before)
    (hde : Delivery sends ctx writer.codec before.tables [member.prepared])
    (hep : ExpireAnswered writer member)
    (h : ensureConsistency writer ctx database before member = (after, answer)) :
    Ensured sends writer.codec before after [member.prepared] (∃ result, answer = .ok result) := by
  have hct := hde.delivers member.prepared mem_cons_self
  have hse := hde.sent member.prepared mem_cons_self
  have hr : Reserves ctx before.keys member
      (reserveIdempotency writer.ttlSeconds ctx before.keys member) :=
    reserveIdempotency_reserves hct hep
  simp only [ensureConsistency] at h
  generalize reserveIdempotency writer.ttlSeconds ctx before.keys member = decided at h hr
  cases hr with
  | fails error hf =>
    cases h
    exact .of_same_tables hb rfl (fun _ hk => hk) fun ⟨_, hok⟩ => absurd hok (by simp)
  | held hh =>
    have hs : ∀ prepared ∈ [member.prepared],
        Stored writer.codec before.tables prepared :=
      forall_mem_singleton.mpr (hb.stored_of_held hse (reserveKey_mem member) hh)
    simp only [Bool.not_false, if_true, publishAck] at h
    cases ha : member.answers.ack with
    | false =>
      simp only [ha, Bool.false_eq_true, if_false] at h
      cases h
      exact .of_same_tables hb rfl (fun _ hk => hk) fun _ => hs
    | true =>
      simp only [ha, if_true] at h
      cases h
      exact .of_same_tables hb rfl (fun _ hk => hk) fun _ => hs
  | free reservation hfr hre =>
    simp only [Bool.not_true, Bool.false_eq_true, if_false] at h
    split at h
    · rename_i tables error hpe
      cases h
      have hp := persistMessage_persists hc hb.sound hde hpe
      refine .of_persists hb hp ?_ fun ⟨_, hok⟩ => absurd hok (by simp)
      intro key hk
      obtain ⟨hm, hne⟩ := mem_release.mp hk
      rcases mem_cons.mp hm with rfl | hold
      · exact absurd hre hne
      · exact .inl hold
    · rename_i tables outcome hpe
      have hp := persistMessage_persists hc hb.sound hde hpe
      have hke : ∀ key ∈ reserveKey member :: before.keys, key ∈ before.keys ∨
          ∃ outcome', (.ok outcome : Except FlareError ArchiveOutcome) = .ok outcome' ∧
            ∃ prepared ∈ [member.prepared], sends.sent prepared ∧ key ∈ keysOf prepared := by
        intro key hk
        rcases mem_cons.mp hk with rfl | hold
        · exact .inr ⟨outcome, rfl, member.prepared, mem_cons_self, hse, reserveKey_mem member⟩
        · exact .inl hold
      simp only [publishAck] at h
      cases ha : member.answers.ack with
      | false =>
        simp only [ha, Bool.false_eq_true, if_false] at h
        cases h
        exact .of_persists hb hp hke fun _ => hp.stored outcome rfl
      | true =>
        simp only [ha, if_true] at h
        cases h
        exact .of_persists hb hp hke fun _ => hp.stored outcome rfl

theorem ackLoop_same {outcome : ArchiveOutcome} {reserved : List Reserved}
    {answer : Except FlareError (List PersistenceResult)}
    (h : ackLoop outcome before reserved = (after, answer)) :
    after.keys = before.keys ∧ after.tables = before.tables := by
  induction reserved generalizing before after answer with
  | nil =>
    cases h
    exact ⟨rfl, rfl⟩
  | cons entry rest ih =>
    obtain ⟨member, reservation⟩ := entry
    simp only [ackLoop, publishAck] at h
    cases ha : member.answers.ack with
    | false =>
      simp only [ha, Bool.false_eq_true, if_false] at h
      cases h
      exact ⟨rfl, rfl⟩
    | true =>
      simp only [ha, if_true] at h
      split at h
      · rename_i hl
        cases h
        have hs := ih hl
        exact hs
      · rename_i hl
        cases h
        have hs := ih hl
        exact hs

theorem ensureBatchConsistency_ensured {members : List Member}
    {answer : Except FlareError (List PersistenceResult)}
    (hc : ReadsBack writer.codec sends) (hb : Backed sends writer.codec before)
    (hde : Delivery sends ctx writer.codec before.tables (members.map (·.prepared)))
    (hep : ∀ member ∈ members, ExpireAnswered writer member)
    (hla : LoopLeavesNothing before.keys members)
    (h : ensureBatchConsistency writer ctx database before members = (after, answer)) :
    Ensured sends writer.codec before after (members.map (·.prepared))
      (∃ results, answer = .ok results) := by
  have hct : ∀ member ∈ members, Ctx.Delivers ctx member.prepared :=
    fun member hm => hde.delivers _ (mem_map_of_mem hm)
  have hse : ∀ member ∈ members, sends.sent member.prepared :=
    fun member hm => hde.sent _ (mem_map_of_mem hm)
  simp only [ensureBatchConsistency] at h
  split at h
  · rename_i store error hl
    cases h
    obtain ⟨ht, hed⟩ := reserveLoop_ends hct hep hl
    refine .of_same_tables hb ht ?_ fun ⟨_, hok⟩ => absurd hok (by simp)
    cases hed with
    | refused _ _ hke => exact fun key hk => hke ▸ hk
    | returned _ earlier member later hsp hf hke =>
      intro key hk
      rcases hke key hk with hold | ⟨holder, hho, rfl⟩
      · exact hold
      · exact hla earlier member later hsp hf holder hho
  · rename_i store reserved results hl
    obtain ⟨ht, hed⟩ := reserveLoop_ends hct hep hl
    cases hed with
    | through _ _ hke hre hme =>
    -- each member has a key that was held before, or the key of a reserved member
    have hal {tables : Tables}
        (hh : ∀ prepared, Stored writer.codec before.tables prepared →
          Stored writer.codec tables prepared)
        (hn : ∀ entry ∈ reserved, Stored writer.codec tables entry.1.prepared) :
        ∀ prepared ∈ members.map (·.prepared), Stored writer.codec tables prepared := by
      intro prepared hpr
      obtain ⟨member, hm, rfl⟩ := mem_map.mp hpr
      rcases hme member hm with hold | ⟨entry, hen, hk⟩
      · exact hh _ (hb.stored_of_held (hse member hm) (reserveKey_mem member) hold)
      · exact (hn entry hen).of_sameSend (sends.one_send _ _
          (hse _ (hre entry hen).1) (hse member hm) _ (reserveKey_mem entry.1)
          (hk ▸ reserveKey_mem member))
    have hsu : ∀ prepared ∈ reserved.map (·.1.prepared),
        prepared ∈ members.map (·.prepared) := by
      intro prepared hpr
      obtain ⟨entry, hen, rfl⟩ := mem_map.mp hpr
      exact mem_map_of_mem (hre entry hen).1
    split at h
    · rename_i hem
      cases h
      have hni : reserved = [] := List.isEmpty_iff.mp hem
      subst hni
      refine .of_same_tables hb ht ?_ fun _ => hal (fun _ hs => hs)
        fun entry hen => absurd hen not_mem_nil
      intro key hk
      rcases hke key hk with hold | ⟨entry, hen, -⟩
      · exact hold
      · exact absurd hen not_mem_nil
    · rw [ht] at h
      have hr : Delivery sends ctx writer.codec before.tables
          (reserved.map (·.1.prepared)) :=
        ⟨fun prepared hm => hde.delivers prepared (hsu prepared hm),
          fun prepared hm => hde.sent prepared (hsu prepared hm),
          fun prepared hm => hde.settled prepared (hsu prepared hm)⟩
      split at h
      · rename_i tables error hpe
        cases h
        have hp := persistBatch_persists hc hb.sound hr hpe
        refine .of_persists hb hp ?_ fun ⟨_, hok⟩ => absurd hok (by simp)
        intro key hk
        obtain ⟨hm, hne⟩ := mem_foldl_release.mp hk
        rcases hke key hm with hold | ⟨entry, hen, rfl⟩
        · exact .inl hold
        · exact absurd (hre entry hen).2 (hne entry.2 (mem_map_of_mem hen))
      · rename_i tables outcome hpe
        have hp := persistBatch_persists hc hb.sound hr hpe
        have hs : ∀ prepared ∈ members.map (·.prepared),
            Stored writer.codec tables prepared :=
          hal (fun _ hs => hs.mono hp.rows hp.events)
            fun entry hen => hp.stored outcome rfl _ (mem_map_of_mem hen)
        have hke' : ∀ key ∈ store.keys, key ∈ before.keys ∨
            ∃ outcome', (.ok outcome : Except FlareError ArchiveOutcome) = .ok outcome' ∧
              ∃ prepared ∈ reserved.map (·.1.prepared), sends.sent prepared ∧
                key ∈ keysOf prepared := by
          intro key hk
          rcases hke key hk with hold | ⟨entry, hen, rfl⟩
          · exact .inl hold
          · exact .inr ⟨outcome, rfl, entry.1.prepared, mem_map_of_mem hen,
              hse _ (hre entry hen).1, reserveKey_mem entry.1⟩
        -- a failed acknowledgement keeps what was stored
        have hac {acked : Store} {answer : Except FlareError (List PersistenceResult)}
            {succeeded : Prop} (ha : ackLoop outcome { store with tables } reserved =
              (acked, answer)) :
            Ensured sends writer.codec before acked (members.map (·.prepared)) succeeded := by
          obtain ⟨hsm, hsa⟩ := ackLoop_same ha
          exact .of_persists hb (hsa ▸ hp) (hsm ▸ hke') fun _ => hsa ▸ hs
        split at h
        · rename_i ha
          cases h
          exact hac ha
        · rename_i ha
          cases h
          exact hac ha

end Ensure

section Runs

variable {writer : Writer} {sends : Sends} {state next last : State} {action : Action}

theorem prepareMessage_delivers {ctx : Ctx} {message : Message} {prepared : PreparedMessage}
    (h : prepareMessage ctx.tenantId message = .ok prepared) : Ctx.Delivers ctx prepared := by
  unfold prepareMessage at h
  split at h
  · cases h
  · rename_i tenantId ht
    split at h
    · cases h
    · split at h
      · cases h
      · rw [← Except.ok.inj h]
        exact ht

theorem members_delivers {members : List Member} (h : action.members = .ok members) :
    ∀ member ∈ members, Ctx.Delivers action.ctx member.prepared := by
  have hme {ctx : Ctx} {delivered : List Delivered}
      (h : Fallible.traverse (prepareMember ctx) delivered = .ok members) :
      ∀ member ∈ members, Ctx.Delivers ctx member.prepared := by
    intro member hm
    obtain ⟨one, -, hp⟩ := Listing.exists_left_of_mem (traverse_eq_ok h) hm
    unfold prepareMember at hp
    split at hp
    · cases hp
    · rename_i prepared hpr
      rw [← Except.ok.inj hp]
      exact prepareMessage_delivers hpr
  cases action with
  | single ctx database delivered | batch ctx database delivered => exact hme h

-- A delivery under which no accepted message is lost.
structure Careful (writer : Writer) (sends : Sends) (state : State) (action : Action) : Prop where
  sent : ∀ members, action.members = .ok members → ∀ member ∈ members, sends.sent member.prepared
  expires : ∀ members, action.members = .ok members → ∀ member ∈ members,
    ExpireAnswered writer member
  settled : ∀ members, action.members = .ok members → ∀ member ∈ members,
    Settled writer.codec state.store.tables member.prepared
  leaves : ∀ members, action.members = .ok members →
    LoopLeavesNothing state.store.keys members

structure Safe (writer : Writer) (sends : Sends) (state : State) : Prop where
  backed : Backed sends writer.codec state.store
  accepted : ∀ prepared ∈ state.accepted, Stored writer.codec state.store.tables prepared

theorem Safe.of_ensured {messages : List PreparedMessage} {store : Store}
    {accepted : List PreparedMessage} {succeeded : Prop} (h : Safe writer sends state)
    (hen : Ensured sends writer.codec state.store store messages succeeded)
    (ha : ∀ prepared ∈ accepted, prepared ∈ state.accepted ∨
      succeeded ∧ prepared ∈ messages) : Safe writer sends ⟨store, accepted⟩ where
  backed := hen.backed
  accepted prepared hm := by
    rcases ha prepared hm with hold | ⟨hs, hn⟩
    · exact (h.accepted prepared hold).mono hen.rows hen.events
    · exact hen.stored hs prepared hn

theorem step_ensured (hco : ReadsBack writer.codec sends) (hs : Safe writer sends state)
    (hc : Careful writer sends state action) (h : step writer state action = some next) :
    ∃ messages succeeded, Ensured sends writer.codec state.store next.store messages succeeded ∧
      ∀ prepared ∈ next.accepted, prepared ∈ state.accepted ∨
        succeeded ∧ prepared ∈ messages := by
  cases hme : action.members with
  | error error =>
    simp only [step, hme, Option.some.injEq] at h
    refine ⟨[], False, ?_, fun _ hold => .inl (h ▸ hold)⟩
    exact h ▸ ⟨hs.backed, fun _ hr => hr, fun _ hev => hev, False.elim⟩
  | ok members =>
    have hde : Delivery sends action.ctx writer.codec state.store.tables
        (members.map (·.prepared)) := by
      refine ⟨?_, ?_, ?_⟩
      · exact List.forall_mem_map.mpr (members_delivers hme)
      · exact List.forall_mem_map.mpr (hc.sent members hme)
      · exact List.forall_mem_map.mpr (hc.settled members hme)
    have hep := hc.expires members hme
    cases action with
    | single ctx database delivered =>
      obtain ⟨member, rfl⟩ : ∃ member, members = [member] := by
        have hl := (traverse_eq_ok hme).length_eq
        exact List.length_eq_one_iff.mp hl.symm
      simp only [step, hme] at h
      split at h
      · rename_i store error hes
        have hen := ensureConsistency_ensured hco hs.backed hde (hep member mem_cons_self) hes
        rw [← Option.some.inj h]
        exact ⟨_, _, hen, fun _ hold => .inl hold⟩
      · rename_i store result hes
        have hen := ensureConsistency_ensured hco hs.backed hde (hep member mem_cons_self) hes
        rw [← Option.some.inj h]
        refine ⟨_, _, hen, fun prepared hm => ?_⟩
        rcases mem_cons.mp hm with rfl | hold
        · exact .inr ⟨⟨result, rfl⟩, mem_cons_self⟩
        · exact .inl hold
    | batch ctx database delivered =>
      simp only [step, hme] at h
      split at h
      · rename_i store error hes
        have hen := ensureBatchConsistency_ensured hco hs.backed hde hep (hc.leaves members hme) hes
        rw [← Option.some.inj h]
        exact ⟨_, _, hen, fun _ hold => .inl hold⟩
      · rename_i store results hes
        have hen := ensureBatchConsistency_ensured hco hs.backed hde hep (hc.leaves members hme) hes
        rw [← Option.some.inj h]
        refine ⟨_, _, hen, fun prepared hm => ?_⟩
        rcases mem_append.mp hm with hn | hold
        · exact .inr ⟨⟨results, rfl⟩, hn⟩
        · exact .inl hold

theorem step_safe (hco : ReadsBack writer.codec sends) (hs : Safe writer sends state)
    (hc : Careful writer sends state action) (h : step writer state action = some next) :
    Safe writer sends next := by
  obtain ⟨messages, succeeded, hen, ha⟩ := step_ensured hco hs hc h
  exact hs.of_ensured hen ha

theorem safe_initial : Safe writer sends {} where
  backed :=
    { sound :=
        { consistent :=
            { issued := fun _ h => absurd h not_mem_nil
              unique := fun _ h => absurd h not_mem_nil
              claimed := fun _ h => absurd h not_mem_nil
              written := fun _ h => absurd h not_mem_nil }
          events := fun _ h => absurd h not_mem_nil }
      keys := fun _ h => absurd h not_mem_nil }
  accepted := fun _ h => absurd h not_mem_nil

-- In every state that a run of deliveries reaches, each message whose delivery was answered with
-- Ok has its row and the event of that row.
def NoneLost (writer : Writer) (ok : State → Action → Prop) : Prop :=
  ∀ actions last, Run (step writer) ok {} actions last →
    ∀ prepared ∈ last.accepted, Stored writer.codec last.store.tables prepared

theorem none_lost_careful (hcodec : ReadsBack writer.codec sends) :
    NoneLost writer (Careful writer sends) := by
  intro actions last hrun
  have hsafe : Safe writer sends last := hrun.preserves _
    (fun state action next hsafe hcareful hstep => step_safe hcodec hsafe hcareful hstep)
    safe_initial
  exact hsafe.accepted

end Runs

section Sample

def aliceFirst : Message where
  serverId := "s1"
  clientMsgId := "k1"
  conversationId := "c1"
  senderId := "alice"
  conversationSeq := 1

def aliceSecond : Message where
  serverId := "s2"
  clientMsgId := "k2"
  conversationId := "c1"
  senderId := "alice"
  conversationSeq := 2

def preparedFirst : PreparedMessage where
  message := markSent (pinMessageTenant aliceFirst "acme")
  tenantId := "acme"
  server_id_ne := by decide
  tenant_pinned := by decide

def preparedSecond : PreparedMessage where
  message := markSent (pinMessageTenant aliceSecond "acme")
  tenantId := "acme"
  server_id_ne := by decide
  tenant_pinned := by decide

-- A format that knows the two messages.
def aliceFormat : Wire.Format Message where
  encode message :=
    if message = preparedFirst.message then [1]
    else if message = preparedSecond.message then [2] else []
  decode bytes :=
    if bytes = [1] then some preparedFirst.message
    else if bytes = [2] then some preparedSecond.message else none

def smallWriter : Writer where
  ttlSeconds := 3600
  size := fun _ => 0
  codec := { sampleCodec with message := aliceFormat }

def acme : Ctx := { tenantId := some "acme" }

def healthyDatabase : Database := { clock := ⟨0, fun _ => true⟩ }

def aliceSends : Sends where
  sent prepared := prepared = preparedFirst ∨ prepared = preparedSecond
  in_conversation := by
    rintro _ (rfl | rfl) <;> decide
  one_message := by
    rintro _ _ (rfl | rfl) (rfl | rfl) - hserver
    · rfl
    · exact absurd hserver (by decide)
    · exact absurd hserver (by decide)
    · rfl
  one_send := by
    have hother : ∀ key ∈ keysOf preparedFirst, key ∉ keysOf preparedSecond := by decide
    rintro _ _ (rfl | rfl) (rfl | rfl) key hkey hkey'
    · exact ⟨rfl, .inl rfl⟩
    · exact absurd hkey' (hother key hkey)
    · exact absurd hkey (hother key hkey')
    · exact ⟨rfl, .inl rfl⟩

def batchOfTwo : List Delivered := [{ message := aliceFirst }, { message := aliceSecond }]

-- The event stream fails the batch after its messages are archived.
def unappendedBatch : Action :=
  .batch acme { healthyDatabase with append := [false] } batchOfTwo

def redeliveredBatch : Action := .batch acme healthyDatabase batchOfTwo

theorem careful_batchOfTwo {state : State} {action : Action}
    (hme : action.members = .ok [⟨preparedFirst, {}⟩, ⟨preparedSecond, {}⟩])
    (hl : ∀ entry ∈ state.store.tables.ledger,
      (entry.key = ("acme", "alice", "k1") → entry.serverId = "s1") ∧
        (entry.key = ("acme", "alice", "k2") → entry.serverId = "s2")) :
    Careful smallWriter aliceSends state action := by
  constructor
  all_goals
    intro members h
    rw [hme] at h
    obtain rfl := Except.ok.inj h
  · exact List.forall_mem_cons.mpr ⟨.inl rfl, forall_mem_singleton.mpr (.inr rfl)⟩
  · exact fun member hm => .inr ⟨by decide, by revert member; decide⟩
  · refine List.forall_mem_cons.mpr ⟨?_, forall_mem_singleton.mpr ?_⟩
    · intro entry hm hk _ hne
      exact absurd ((hl entry hm).1 hk) hne
    · intro entry hm hk _ hne
      exact absurd ((hl entry hm).2 hk) hne
  · intro before member after hs hf
    have hm : member ∈ [(⟨preparedFirst, {}⟩ : Member), ⟨preparedSecond, {}⟩] :=
      hs ▸ List.mem_append_right _ mem_cons_self
    have ha : member.answers = {} := by
      simp only [mem_cons, not_mem_nil, or_false] at hm
      rcases hm with rfl | rfl <;> rfl
    rcases hf with ⟨hset, -⟩ | ⟨hac, -⟩
    · exact absurd hset (by simp [ha])
    · exact absurd hac (by simp [ha])

-- The batch is archived and fails. Delivered again, it is answered with Ok, and its messages
-- are stored.
theorem none_lost_redelivered : ∃ last,
    Run (step smallWriter) (Careful smallWriter aliceSends) {}
      [unappendedBatch, redeliveredBatch] last ∧
    last.accepted = [preparedFirst, preparedSecond] ∧
    ∀ prepared ∈ last.accepted, Stored smallWriter.codec last.store.tables prepared := by
  obtain ⟨middle, hfirst, hledger, last, hsecond, haccepted⟩ : ∃ middle,
      step smallWriter {} unappendedBatch = some middle ∧
      (∀ entry ∈ middle.store.tables.ledger,
        (entry.key = ("acme", "alice", "k1") → entry.serverId = "s1") ∧
          (entry.key = ("acme", "alice", "k2") → entry.serverId = "s2")) ∧
      ∃ last, step smallWriter middle redeliveredBatch = some last ∧
        last.accepted = [preparedFirst, preparedSecond] := by
    decide
  have hrun : Run (step smallWriter) (Careful smallWriter aliceSends) {}
      [unappendedBatch, redeliveredBatch] last :=
    .cons (careful_batchOfTwo (by decide) fun _ h => absurd h List.not_mem_nil) hfirst
      (.cons (careful_batchOfTwo (by decide) hledger) hsecond (.nil last))
  have hcodec : ReadsBack smallWriter.codec aliceSends := by
    rintro _ (rfl | rfl) <;> decide
  exact ⟨last, hrun, haccepted, none_lost_careful hcodec _ last hrun⟩

-- The second message of the batch finds Redis out of reach.
def interruptedBatch : Action :=
  .batch acme healthyDatabase
    [{ message := aliceFirst },
      { message := aliceSecond, answers := { clientSetNx := false, serverSetNx := false } }]

def redelivery : Action := .single acme healthyDatabase { message := aliceFirst }

-- The batch fails and leaves the key of its first message behind. The redelivery of that
-- message finds the key taken and is answered with Ok.
theorem interrupted_batch_loses_a_message : ¬ NoneLost smallWriter anyStep := by
  intro hnone
  have hrun : ∃ last, execute (step smallWriter) anyStep {} [interruptedBatch, redelivery] =
      some last ∧ last.accepted = [preparedFirst] ∧ last.store.tables.messages = [] := by
    decide
  obtain ⟨last, hexecute, haccepted, hmessages⟩ := hrun
  obtain ⟨row, hrow, -⟩ := hnone _ last (run_of_execute hexecute) preparedFirst
    (haccepted ▸ List.mem_cons_self)
  rw [hmessages] at hrow
  exact absurd hrow List.not_mem_nil

end Sample

end FlareIm.MessagePersistence
