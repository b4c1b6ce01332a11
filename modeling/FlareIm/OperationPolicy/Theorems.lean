import FlareIm.EventValidation
import FlareIm.OperationPolicy

namespace FlareIm.OperationPolicy

open Text Context Proto EventValidation Fallible

variable {serverMsgId : String} {message : Message} {ctx : Ctx} {event : Event}

-- The event names a message, which is stored in the event's conversation.
structure StoredTarget (policy : Policy) (tenantId conversationId serverMsgId : String)
    (message : Message) : Prop where
  named : isBlank serverMsgId = false
  found : ∃ targets, policy.targets = some targets ∧
    targets.message tenantId serverMsgId = .ok (some message)
  server : message.serverId = serverMsgId
  conversation : message.conversationId = conversationId

theorem target_eq_ok {policy : Policy} {tenantId conversationId : String}
    (h : target policy tenantId conversationId serverMsgId = .ok message) :
    StoredTarget policy tenantId conversationId serverMsgId message := by
  unfold target at h
  split at h
  · cases h
  rename_i hb
  split at h
  · cases h
  rename_i targets ht
  split at h
  · cases h
  · cases h
  rename_i found hf
  split at h
  · cases h
  rename_i hs
  split at h
  · cases h
  rename_i hc
  cases h
  exact ⟨by simpa using hb, ⟨targets, ht, hf⟩, by simpa using hs, by simpa using hc⟩

-- The user sent the message, not longer ago than the window.
structure SentWithin (policy : Policy) (user : String) (windowMs : Int) (message : Message) :
    Prop where
  sender : message.senderId = user
  dated : 0 < message.createdAt
  recent : saturatingSub policy.nowMs message.createdAt ≤ windowMs

theorem senderWithin_user_eq_ok {policy : Policy} {windowMs : Int}
    {user : String} {done : Unit}
    (h : senderWithin policy message windowMs (.user user) = .ok done) :
    SentWithin policy user windowMs message := by
  unfold senderWithin at h
  dsimp only at h
  split at h
  · rename_i hs
    split at h
    · cases h
    · rename_i hw
      rw [not_or] at hw
      exact ⟨hs.symm, by omega, by omega⟩
  · cases h

theorem bindUser_user_eq_ok {field bound user : String}
    (h : bindUser field (.user user) = .ok bound) : bound = user := by
  unfold bindUser at h
  dsimp only at h
  split at h
  · cases h
    rfl
  · split at h
    · rename_i heq
      cases h
      exact heq
    · cases h

-- What is allowed to happen to a message: the user's own, stored, within the window.
def OwnTarget (policy : Policy) (tenantId conversationId user serverMsgId : String)
    (windowMs : Int) : Prop :=
  ∃ message, StoredTarget policy tenantId conversationId serverMsgId message ∧
    SentWithin policy user windowMs message

section Payloads

variable {policy : Policy} {tenantId conversationId user : String}

theorem StoredTarget.serverMsgId_ne_empty
    (h : StoredTarget policy tenantId conversationId serverMsgId message) : serverMsgId ≠ "" := by
  rintro rfl
  have hn := h.named
  revert hn
  decide

theorem OwnTarget.serverMsgId_ne_empty {windowMs : Int}
    (h : OwnTarget policy tenantId conversationId user serverMsgId windowMs) :
    serverMsgId ≠ "" := by
  obtain ⟨message, ht, -⟩ := h
  exact ht.serverMsgId_ne_empty

theorem authorizeRecall_user {«recall» recall' : MessageRecallEvent}
    (h : authorizeRecall ⟨policy, tenantId, conversationId, .user user⟩ «recall» = .ok recall') :
    OwnTarget policy tenantId conversationId user recall'.serverMsgId RECALL_WINDOW_MS := by
  simp only [authorizeRecall, bind_eq_ok, pure_eq_ok] at h
  obtain ⟨message, ht, done, hs, -, -, rfl⟩ := h
  exact ⟨message, target_eq_ok ht, senderWithin_user_eq_ok hs⟩

theorem authorizeEdit_user {edit edit' : MessageEditEvent}
    (h : authorizeEdit ⟨policy, tenantId, conversationId, .user user⟩ edit = .ok edit') :
    edit' = edit ∧ claimsPluginCard edit.newContent = false ∧ editable edit.newContent = true ∧
      ∃ message, StoredTarget policy tenantId conversationId edit.serverMsgId message ∧
        SentWithin policy user EDIT_WINDOW_MS message ∧
        messageClaimsPluginCard message = false := by
  simp only [authorizeEdit, bind_eq_ok, refuseIf_eq_ok, pure_eq_ok] at h
  obtain ⟨-, hc, -, hed, message, ht, -, hm, -, -, done, hs, rfl⟩ := h
  exact ⟨rfl, by simpa using hc, by simpa using hed, message, target_eq_ok ht,
    senderWithin_user_eq_ok hs, by simpa using hm⟩

theorem authorizeDelete_user {delete delete' : MessageDeleteEvent}
    (h : authorizeDelete ⟨policy, tenantId, conversationId, .user user⟩ delete = .ok delete') :
    isHardDelete delete' = false ∧
      (isGlobalDelete delete' = true →
        OwnTarget policy tenantId conversationId user delete'.serverMsgId RECALL_WINDOW_MS) ∧
      (isGlobalDelete delete' = false → delete'.targetUserId = some user) := by
  simp only [authorizeDelete, bind_eq_ok, refuseIf_eq_ok] at h
  obtain ⟨-, hh, message, ht, h⟩ := h
  have hs : isHardDelete delete = false := by simpa [Operator.isTrusted] using hh
  split at h
  · rename_i hg
    simp only [bind_eq_ok, pure_eq_ok] at h
    obtain ⟨done, hse, rfl⟩ := h
    refine ⟨hs, fun _ => ?_, fun hp => ?_⟩
    · exact ⟨message, target_eq_ok ht, senderWithin_user_eq_ok hse⟩
    · rw [hp] at hg
      cases hg
  · rename_i hp
    simp only [bind_eq_ok, pure_eq_ok] at h
    obtain ⟨bound, hb, rfl⟩ := h
    refine ⟨hs, fun hg => absurd hg hp, fun _ => ?_⟩
    rw [bindUser_user_eq_ok hb]

theorem bound_of_targeted {Event : Type} {userId serverMsgId : String} {named : String → Event}
    {event : Event}
    (h : (do
      let bound ← Request.bindUser ⟨policy, tenantId, conversationId, .user user⟩ userId
      let _ ← Request.target ⟨policy, tenantId, conversationId, .user user⟩ serverMsgId
      return named bound) = .ok event) : event = named user := by
  simp only [bind_eq_ok, pure_eq_ok] at h
  obtain ⟨bound, hb, -, -, rfl⟩ := h
  rw [bindUser_user_eq_ok hb]

theorem authorizeRead_user {read read' : ReadReceiptEvent}
    (h : authorizeRead ⟨policy, tenantId, conversationId, .user user⟩ read = .ok read') :
    read'.userId = user := by
  simp only [authorizeRead, bind_eq_ok, pure_eq_ok] at h
  obtain ⟨bound, hb, -, -, -, -, rfl⟩ := h
  exact bindUser_user_eq_ok hb

theorem authorizeCustom_user {custom custom' : CustomEvent}
    (h : authorizeCustom ⟨policy, tenantId, conversationId, .user user⟩ custom = .ok custom') :
    custom' = custom ∧ ∀ key ∈ USER_ATTRIBUTES, ∀ named,
      custom.attributes.lookup key = some named → named = user := by
  unfold authorizeCustom at h
  dsimp only at h
  split at h
  · cases h
  · rename_i ha
    cases h
    refine ⟨rfl, fun key hk named hn => ?_⟩
    by_contra hne
    apply ha
    rw [List.any_eq_true]
    exact ⟨key, hk, by simpa [hn] using hne⟩

end Payloads

-- The user ids a payload names.
def userIds : Payload → List String
  | .delete delete => delete.targetUserId.toList
  | .reaction reaction => [reaction.userId]
  | .pin pin => [pin.pinnedBy]
  | .unpin unpin => [unpin.unpinnedBy]
  | .mark mark => [mark.userId]
  | .unmark unmark => [unmark.userId]
  | .read read => [read.userId]
  | .custom custom => USER_ATTRIBUTES.filterMap fun key => custom.attributes.lookup key
  | _ => []

-- A conversation-wide delete has no target user: the one it names is not looked at.
def boundUserIds : Payload → List String
  | .delete delete => if isGlobalDelete delete then [] else delete.targetUserId.toList
  | payload => userIds payload

-- What a user may do with a message of the conversation.
def Permitted (policy : Policy) (tenantId conversationId user : String) : Payload → Prop
  | .recall «recall» =>
    OwnTarget policy tenantId conversationId user recall.serverMsgId RECALL_WINDOW_MS
  | .edit edit =>
    claimsPluginCard edit.newContent = false ∧ editable edit.newContent = true ∧
      ∃ message, StoredTarget policy tenantId conversationId edit.serverMsgId message ∧
        SentWithin policy user EDIT_WINDOW_MS message ∧
        messageClaimsPluginCard message = false
  | .delete delete =>
    isHardDelete delete = false ∧
      (isGlobalDelete delete = true →
        OwnTarget policy tenantId conversationId user delete.serverMsgId RECALL_WINDOW_MS)
  | .reaction _ | .pin _ | .unpin _ | .mark _ | .unmark _ | .read _ | .custom _ => True
  | .message _ | .conversation | .conversationDelete | .retentionScheduled _
  | .retentionExpired _ | .retentionPurged _ | .pluginState _ => False

structure MemberOf (policy : Policy) (tenantId conversationId user : String) : Prop where
  answered : ∃ members read, policy.members = some members ∧
    members.isMember tenantId conversationId user read = .ok true

theorem requireMember_eq_ok {policy : Policy} {tenantId conversationId user : String}
    {read : MembershipRead} {done : Unit}
    (h : requireMember policy tenantId conversationId user read = .ok done) :
    MemberOf policy tenantId conversationId user := by
  unfold requireMember at h
  split at h
  · cases h
  rename_i members hm
  split at h
  · cases h
  · rename_i hme
    exact ⟨members, read, hm, hme⟩
  · cases h

def isPluginState : Payload → Bool
  | .pluginState _ => true
  | _ => false

theorem authorizePayload_user {policy : Policy} {tenantId conversationId user : String}
    {payload payload' : Payload} (hs : isPluginState payload = false)
    (h : authorizePayload ⟨policy, tenantId, conversationId, .user user⟩ payload = .ok payload') :
    Permitted policy tenantId conversationId user payload' ∧
      (∀ id ∈ boundUserIds payload', id = user) ∧ isServicePayload payload = false := by
  cases payload with
  | «recall» «recall» =>
    obtain ⟨recall', hre, rfl⟩ := map_eq_ok.mp h
    exact ⟨authorizeRecall_user hre, by simp [boundUserIds, userIds], rfl⟩
  | edit edit =>
    obtain ⟨edit', hed, rfl⟩ := map_eq_ok.mp h
    obtain ⟨rfl, hc⟩ := authorizeEdit_user hed
    exact ⟨hc, by simp [boundUserIds, userIds], rfl⟩
  | delete delete =>
    obtain ⟨delete', hde, rfl⟩ := map_eq_ok.mp h
    obtain ⟨hso, hg, hp⟩ := authorizeDelete_user hde
    refine ⟨⟨hso, hg⟩, fun id hid => ?_, rfl⟩
    rw [boundUserIds] at hid
    split at hid
    · cases hid
    · rename_i hsc
      rw [hp (by simpa using hsc)] at hid
      simpa using hid
  | reaction reaction =>
    obtain ⟨reaction', hr, rfl⟩ := map_eq_ok.mp h
    obtain rfl := bound_of_targeted hr
    exact ⟨trivial, by simp [boundUserIds, userIds], rfl⟩
  | pin pin =>
    obtain ⟨pin', hpi, rfl⟩ := map_eq_ok.mp h
    obtain rfl := bound_of_targeted hpi
    exact ⟨trivial, by simp [boundUserIds, userIds], rfl⟩
  | unpin unpin =>
    obtain ⟨unpin', hup, rfl⟩ := map_eq_ok.mp h
    obtain rfl := bound_of_targeted hup
    exact ⟨trivial, by simp [boundUserIds, userIds], rfl⟩
  | mark mark =>
    obtain ⟨mark', hm, rfl⟩ := map_eq_ok.mp h
    obtain rfl := bound_of_targeted hm
    exact ⟨trivial, by simp [boundUserIds, userIds], rfl⟩
  | unmark unmark =>
    obtain ⟨unmark', hun, rfl⟩ := map_eq_ok.mp h
    obtain rfl := bound_of_targeted hun
    exact ⟨trivial, by simp [boundUserIds, userIds], rfl⟩
  | read read =>
    obtain ⟨read', hra, rfl⟩ := map_eq_ok.mp h
    have hu := authorizeRead_user hra
    exact ⟨trivial, by simpa [boundUserIds, userIds] using hu, rfl⟩
  | custom custom =>
    obtain ⟨custom', hcu, rfl⟩ := map_eq_ok.mp h
    obtain ⟨rfl, ha⟩ := authorizeCustom_user hcu
    refine ⟨trivial, fun id hid => ?_, rfl⟩
    obtain ⟨key, hk, hn⟩ := List.mem_filterMap.mp hid
    exact ha key hk id hn
  | pluginState state => cases hs
  | _ => cases h

theorem Operator.of_user_ne_empty {user : String}
    (h : Operator.of ctx = .user user) : user ≠ "" := by
  unfold Operator.of at h
  split at h
  · split at h
    · split at h <;> cases h
    · split at h
      case h_5 | h_6 => cases h
      all_goals split at h <;> cases h
      all_goals assumption
  · dsimp only at h
    split at h
    · rename_i id hid
      cases h
      have hb : isBlank user = false := by
        rcases Option.or_eq_some_iff.mp hid with hn | ⟨-, ha⟩
        · simpa using (Option.filter_eq_some_iff.mp hn).2
        · simpa using (Option.filter_eq_some_iff.mp ha).2
      rintro rfl
      revert hb
      decide
    · cases h

-- A user's event that passed validation is no plugin state: that has its own gate there.
theorem user_event_is_no_plugin_state {user : String}
    (hv : validateEvent ctx event = []) (hu : Operator.of ctx = .user user) :
    event.type ≠ .known .eventMessagePluginState ∧
      ∀ payload, event.payload = some payload → isPluginState payload = false := by
  obtain ⟨-, -, hpl⟩ := validateEvent_eq_nil.mp hv
  obtain ⟨hif, hpu⟩ := pluginStateStrategy_eq_nil hpl
  have ht : event.type ≠ .known .eventMessagePluginState := by
    intro ht
    obtain ⟨claims, hc, hp⟩ := hpu ht
    have hca : isCardPostContext claims = true := by
      simp only [isPluginStatePublisher, Bool.and_eq_true] at hp
      exact hp.1.1.1.1
    simp [Operator.of, hc, hca, hp] at hu
  refine ⟨ht, fun payload hpa => ?_⟩
  cases payload with
  | pluginState state => exact absurd (hif.mpr ⟨state, hpa⟩) ht
  | _ => rfl

-- What an authorised event of a user is good for.
structure Sound (policy : Policy) (tenantId user : String) (event : Event) : Prop where
  member : MemberOf policy tenantId event.conversationId user
  permitted : ∃ payload, event.payload = some payload ∧
    Permitted policy tenantId event.conversationId user payload ∧
    ∀ id ∈ boundUserIds payload, id = user

-- What an authorised event went through, unless its type is that of plugin state.
theorem authorize_eq_ok {policy : Policy} {tenantId : String}
    {event' : Event} (ht : event.type ≠ .known .eventMessagePluginState)
    (h : authorize policy ctx tenantId event = .ok event') :
    checkMembership policy tenantId event (Operator.of ctx) = .ok () ∧
      ∃ payload payload', event.payload = some payload ∧
        authorizePayload ⟨policy, tenantId, event.conversationId, Operator.of ctx⟩ payload =
          .ok payload' ∧ event' = { event with payload := some payload' } := by
  unfold authorize at h
  dsimp only at h
  have hc : EventType.tryFrom event.type ≠ some .eventMessagePluginState := by
    cases hn : event.type with
    | known type =>
      intro heq
      apply ht
      rw [hn, Option.some.inj heq]
    | unknown code => simp [EventType.tryFrom]
  rw [if_neg hc] at h
  simp only [bind_eq_ok, refuseIf_eq_ok] at h
  obtain ⟨-, -, done, hm, h⟩ := h
  split at h
  · cases h
  rename_i payload hs
  simp only [bind_eq_ok, pure_eq_ok] at h
  obtain ⟨payload', ha, rfl⟩ := h
  exact ⟨hm, payload, payload', hs, ha, rfl⟩

theorem authorize_sound_of_no_plugin_state {policy : Policy}
    {tenantId user : String} {event' : Event} (hu : Operator.of ctx = .user user)
    (ht : event.type ≠ .known .eventMessagePluginState)
    (hpa : ∀ payload, event.payload = some payload → isPluginState payload = false)
    (h : authorize policy ctx tenantId event = .ok event') :
    Sound policy tenantId user event' := by
  obtain ⟨hm, payload, payload', hs, ha, rfl⟩ := authorize_eq_ok ht h
  rw [hu] at hm ha
  have hno := hpa payload hs
  obtain ⟨hp, hb, hse⟩ := authorizePayload_user hno ha
  refine ⟨?_, payload', rfl, hp, hb⟩
  have hn : needsMembership event.payload = true := by
    rw [hs]
    cases payload with
    | pluginState state => cases hno
    | _ => simp_all [needsMembership]
  rw [checkMembership, if_pos hn] at hm
  exact requireMember_eq_ok hm

-- A user's event that is authorised after validation, or is no plugin state at all, comes from a
-- member, does what the user may do, and names nobody else.
theorem authorize_sound {policy : Policy} {ctx : Ctx} {tenantId user : String}
    {event event' : Event} (huser : Operator.of ctx = .user user)
    (hgate : validateEvent ctx event = [] ∨
      (event.type ≠ .known .eventMessagePluginState ∧
        ∀ payload, event.payload = some payload → isPluginState payload = false))
    (h : authorize policy ctx tenantId event = .ok event') :
    Sound policy tenantId user event' := by
  rcases hgate with hvalid | ⟨htype, hpayload⟩
  · obtain ⟨htype, hpayload⟩ := user_event_is_no_plugin_state hvalid huser
    exact authorize_sound_of_no_plugin_state huser htype hpayload h
  · exact authorize_sound_of_no_plugin_state huser htype hpayload h

section Sample

def aliceCtx : Ctx := { tenantId := some "acme", userId := some "alice" }

def aliceMessage : Message :=
  { serverId := "m1", conversationId := "2-team", senderId := "alice", createdAt := 1000,
    content := some ⟨some (.text "hello")⟩ }

-- One stored message, and alice the only member.
def samplePolicy : Policy where
  targets := some
    { message := fun _ id => .ok (if id = "m1" then some aliceMessage else none)
      conversationsOf := fun _ _ => .ok fun id => if id = "m1" then some "2-team" else none }
  members := some { isMember := fun _ _ user _ => .ok (user == "alice") }
  nowMs := 2000

def aliceRecall : Event :=
  { conversationId := "2-team", type := .known .eventMessageRecall, eventId := "e1",
    payload := some (.recall { serverMsgId := "m1", allowAdminRecall := some true }) }

def aliceRecallAuthorized : Event :=
  { aliceRecall with payload := some (.recall { serverMsgId := "m1" }) }

theorem authorize_sound_alice_recall :
    Sound samplePolicy "acme" "alice" aliceRecallAuthorized := by
  have hauthorized :
      authorize samplePolicy aliceCtx "acme" aliceRecall = .ok aliceRecallAuthorized := by
    simp only [authorize, aliceRecall]
    decide
  exact authorize_sound (by decide) (.inl (by decide)) hauthorized

-- The policy alone lets every event of the plugin state type through, also one of a user who is
-- no member that deletes the conversation.
def malloryCtx : Ctx := { tenantId := some "acme", userId := some "mallory" }

def disguisedDelete : Event :=
  { conversationId := "2-team", type := .known .eventMessagePluginState, eventId := "e2",
    payload := some .conversationDelete }

-- A conversation-wide delete of alice's own message may name bob.
def globalDeleteOfBob : MessageDeleteEvent where
  serverMsgId := "m1"
  deleteType := some 1
  scope := some DELETE_SCOPE_CONVERSATION_GLOBAL
  targetUserId := some "bob"

def deleteNamingBob : Event :=
  { conversationId := "2-team", type := .known .eventMessageDelete, eventId := "e3",
    payload := some (.delete globalDeleteOfBob) }

theorem authorize_passes_plugin_state_and_foreign_target :
    (Operator.of malloryCtx = .user "mallory" ∧
      authorize samplePolicy malloryCtx "acme" disguisedDelete = .ok disguisedDelete ∧
      disguisedDelete.payload = some .conversationDelete ∧
      ¬ MemberOf samplePolicy "acme" disguisedDelete.conversationId "mallory") ∧
    (Operator.of aliceCtx = .user "alice" ∧ validateEvent aliceCtx deleteNamingBob = [] ∧
      authorize samplePolicy aliceCtx "acme" deleteNamingBob = .ok deleteNamingBob ∧
      ∃ payload, deleteNamingBob.payload = some payload ∧ "bob" ∈ userIds payload ∧
        "bob" ≠ "alice") := by
  refine ⟨⟨by decide, rfl, rfl, ?_⟩, by decide, by decide, by decide, _, rfl, ?_, by decide⟩
  · rintro ⟨members, read, hmembers, hanswer⟩
    cases Option.some.inj hmembers
    simp at hanswer
  · decide

end Sample

end FlareIm.OperationPolicy
