import FlareIm.TargetedTasks

namespace FlareIm.TargetedTasks

open OnlinePush (PushTaskPayloadKind)

section Statement

variable (codec : Codec)

def payloadMessages (kind : Int) (payload : List UInt8) : List Message :=
  match (codec.payloadKind kind).getD .unspecified with
  | .message => ((codec.message payload).map (·.messages)).toOption.getD []
  | .event => ((codec.event payload).map (·.events.filterMap Event.message)).toOption.getD []
  | _ => []

-- What a quote says of its own, through all quotes.
def innermost : MessageContent → MessageContent
  | .quote (some inner) => innermost inner
  | .quote none => .quote none
  | .unset => .unset
  | .text mentions => .text mentions
  | .richText => .richText
  | .notification notice => .notification notice
  | .other kind => .other kind

-- The mentions of a message can be read when it is a text.
def readMentions (message : Message) : Option (List Mention) :=
  match message.content.map innermost with
  | some (.text mentions) => some mentions
  | _ => none

-- A mention of everybody, or of the user.
def Names (userId : String) (mention : Mention) : Prop :=
  mention.type = codec.mentionAll ∨ (mention.userId = userId ∧ userId ≠ "") ∨
    userId ∈ mention.userIds

def ReadWithout (userId : String) (message : Message) : Prop :=
  ∃ mentions, readMentions message = some mentions ∧
    ∀ mention ∈ mentions, ¬Names codec userId mention

-- Who gets an offline task of an alert only when called.
def Call.MentionOnly (handler : Handler) (call : Call) (userId : String) : Prop :=
  call.skipsOffline codec = false ∧ isOnline call.onlineStatuses userId = false ∧
    preferenceOf (call.preferences codec handler) userId = ⟨false, true⟩

-- The user's task is published, or every message could be read and none calls the user.
def NeverSilenced (handler : Handler) (call : Call) : Prop :=
  ∀ userId ∈ call.userIds, call.MentionOnly codec handler userId →
    (∃ task, offlineTask codec call.template userId = .ok task ∧
      task ∈ (publishTargetedTasksInner codec handler call).tasks) ∨
    ∀ message ∈ payloadMessages codec call.template.payloadKind call.template.pushPayload,
      ReadWithout codec userId message

-- The message has a content, which is no rich text and calls nobody by a text.
def PassedOver (userId : String) (message : Message) : Prop :=
  match message.content.map innermost with
  | none => False
  | some .richText => False
  | some (.text mentions) => ∀ mention ∈ mentions, ¬Names codec userId mention
  | some _ => True

-- When the first message is passed over, it and all others have to be texts without the user.
def FirstSpeaksForAll (userId : String) : List Message → Prop
  | [] => True
  | first :: later => PassedOver codec userId first →
      (readMentions first).isSome ∧ ∀ message ∈ later, ReadWithout codec userId message

end Statement

variable {codec : Codec} {handler : Handler} {call : Call} {userId : String}

section Mentions

theorem collectMentions_innermost :
    ∀ (content : MessageContent) (out : MentionTargets),
      collectMentions codec content out = collectMentions codec (innermost content) out
  | .quote (some inner), out => by
      rw [collectMentions, innermost]
      exact collectMentions_innermost inner out
  | .quote none, _ => rfl
  | .unset, _ => rfl
  | .text _, _ => rfl
  | .richText, _ => rfl
  | .notification _, _ => rfl
  | .other _, _ => rfl

theorem innermost_ne_quote :
    ∀ (content inner : MessageContent), innermost content ≠ .quote (some inner)
  | .quote (some content), inner => by
      rw [innermost]
      exact innermost_ne_quote content inner
  | .quote none, _ => nofun
  | .unset, _ => nofun
  | .text _, _ => nofun
  | .richText, _ => nofun
  | .notification _, _ => nofun
  | .other _, _ => nofun

theorem mentions_addMention (out : MentionTargets) (mention : Mention) :
    (addMention codec out mention).mentions userId = true ↔
      out.mentions userId = true ∨ Names codec userId mention := by
  simp only [MentionTargets.mentions, addMention, Names, Bool.or_eq_true, decide_eq_true_iff,
    beq_iff_eq, List.mem_append]
  have hu : userId ∈ (if mention.userId = "" then [] else [mention.userId]) ↔
      mention.userId = userId ∧ userId ≠ "" := by
    split
    · rename_i hem
      rw [hem]
      constructor
      · exact fun hm => absurd hm List.not_mem_nil
      · rintro ⟨rfl, hne⟩
        exact absurd rfl hne
    · rename_i hne
      rw [List.mem_singleton]
      constructor
      · rintro rfl
        exact ⟨rfl, hne⟩
      · rintro ⟨rfl, -⟩
        rfl
  rw [hu]
  tauto

theorem mentions_foldl (mentions : List Mention) (out : MentionTargets) :
    (mentions.foldl (addMention codec) out).mentions userId = true ↔
      out.mentions userId = true ∨ ∃ mention ∈ mentions, Names codec userId mention := by
  induction mentions generalizing out with
  | nil => simp
  | cons mention rest ih =>
    rw [List.foldl_cons, ih, mentions_addMention]
    simp [or_assoc]

theorem passedOver_iff {message : Message} {content : MessageContent}
    (hc : message.content = some content) : PassedOver codec userId message ↔
      (collectMentions codec content {}).mentions userId = false := by
  rw [collectMentions_innermost, PassedOver, hc, Option.map_some, ← Bool.not_eq_true]
  have hq := innermost_ne_quote content
  generalize innermost content = inside at hq ⊢
  cases inside with
  | text mentions =>
    rw [collectMentions, mentions_foldl]
    simp [MentionTargets.mentions]
  | richText | unset | notification notice
  | other kind => simp [collectMentions, MentionTargets.mentions]
  | quote inner =>
    cases inner with
    | none => simp [collectMentions, MentionTargets.mentions]
    | some inner => exact absurd rfl (hq inner)

theorem mentionTargets_eq (kind : Int) (payload : List UInt8) :
    mentionTargets codec kind payload =
      match (payloadMessages codec kind payload).head?.bind (·.content) with
      | none => .unreadable
      | some content => collectMentions codec content {} := by
  unfold mentionTargets payloadMessages
  cases (codec.payloadKind kind).getD .unspecified with
  | message =>
    cases codec.message payload with
    | error e => rfl
    | ok request =>
      simp only [Except.toOption, Except.map, Option.bind_some, Option.getD_some]
      cases request.messages <;> rfl
  | event =>
    cases codec.event payload with
    | error e => rfl
    | ok request =>
      simp only [Except.toOption, Except.map, Option.bind_some, Option.getD_some,
        List.head?_filterMap]
      cases request.events.findSome? Event.message <;> rfl
  | _ => rfl

theorem not_mentions_iff (kind : Int) (payload : List UInt8) :
    (mentionTargets codec kind payload).mentions userId = false ↔
      ∃ first later, payloadMessages codec kind payload = first :: later ∧
        PassedOver codec userId first := by
  rw [mentionTargets_eq]
  cases hm : payloadMessages codec kind payload with
  | nil => simp [MentionTargets.unreadable, MentionTargets.mentions]
  | cons first later =>
    rw [List.head?_cons, Option.bind_some]
    cases hc : first.content with
    | none =>
      simp [MentionTargets.unreadable, MentionTargets.mentions, PassedOver, hc]
    | some content =>
      simp only [List.cons.injEq]
      constructor
      · intro h
        exact ⟨first, later, ⟨rfl, rfl⟩, (passedOver_iff hc).mpr h⟩
      · rintro ⟨_, _, ⟨rfl, rfl⟩, hp⟩
        exact (passedOver_iff hc).mp hp

end Mentions

section Tasks

variable {template : PushTaskTemplate}

theorem rewritePushPayloadUserIds_ok {kind : Int} {payload : List UInt8}
    (h : payloadMessages codec kind payload ≠ []) (userIds : List String) :
    ∃ rewritten, rewritePushPayloadUserIds codec kind payload userIds = .ok rewritten := by
  unfold payloadMessages at h
  unfold rewritePushPayloadUserIds
  cases hk : (codec.payloadKind kind).getD .unspecified with
  | message =>
    cases hde : codec.message payload with
    | error e => simp [hk, hde, Except.map, Except.toOption] at h
    | ok request => exact ⟨_, rfl⟩
  | event =>
    cases hde : codec.event payload with
    | error e => simp [hk, hde, Except.map, Except.toOption] at h
    | ok request => exact ⟨_, rfl⟩
  | _ => simp [hk] at h

theorem offlineTask_spec {task : PendingPushTask}
    (h : offlineTask codec template userId = .ok task) :
    task.userId = userId ∧ task.online = false := by
  unfold offlineTask at h
  cases hr : rewritePushPayloadUserIds codec template.payloadKind template.pushPayload
      [userId] with
  | error e => simp [hr, Except.map] at h
  | ok payload =>
    rw [hr] at h
    cases h
    exact ⟨rfl, rfl⟩

theorem onlineTask_spec {chunk : List String} {task : PendingPushTask}
    (h : onlineTask codec template chunk = .ok task) : task.online = true := by
  unfold onlineTask at h
  cases hr : rewritePushPayloadUserIds codec template.payloadKind template.pushPayload
      chunk with
  | error e => simp [hr, Except.map] at h
  | ok payload =>
    rw [hr] at h
    cases h
    rfl

theorem offlineTasks_ok (alerted : String → Bool) {userIds : List String}
    (h : ∀ userId ∈ userIds, ∃ task, offlineTask codec template userId = .ok task) :
    ∃ tasks, offlineTasks codec template alerted userIds = .ok tasks ∧ ∀ task, task ∈ tasks ↔
        ∃ userId ∈ userIds, alerted userId = true ∧ offlineTask codec template userId = .ok task := by
  induction userIds with
  | nil => exact ⟨[], rfl, by simp⟩
  | cons userId rest ih =>
    obtain ⟨tasks, ht, hm⟩ := ih fun other ho => h other (List.mem_cons_of_mem _ ho)
    obtain ⟨first, hf⟩ := h userId List.mem_cons_self
    rw [offlineTasks, hf, ht]
    cases ha : alerted userId with
    | false =>
      refine ⟨tasks, rfl, fun task => ?_⟩
      simp [hm, ha]
    | true =>
      refine ⟨first :: tasks, rfl, fun task => ?_⟩
      rw [List.mem_cons, hm]
      constructor
      · rintro (rfl | ⟨other, ho, hr⟩)
        · exact ⟨userId, List.mem_cons_self, ha, hf⟩
        · exact ⟨other, List.mem_cons_of_mem _ ho, hr⟩
      · rintro ⟨other, ho, hr⟩
        rcases List.mem_cons.mp ho with rfl | ho
        · exact Or.inl (Except.ok.inj (hr.2.symm.trans hf))
        · exact Or.inr ⟨other, ho, hr⟩

theorem onlineTasks_ok (chunks : List (List String))
    (h : ∀ chunk, ∃ task, onlineTask codec template chunk = .ok task) :
    ∃ tasks, onlineTasks codec template chunks = .ok tasks ∧
      ∀ task ∈ tasks, task.online = true := by
  induction chunks with
  | nil => exact ⟨[], rfl, by simp⟩
  | cons chunk rest ih =>
    obtain ⟨tasks, ht, ho⟩ := ih
    obtain ⟨first, hf⟩ := h chunk
    rw [onlineTasks, hf, ht]
    refine ⟨first :: tasks, rfl, fun task hm => ?_⟩
    rcases List.mem_cons.mp hm with rfl | hr
    · exact onlineTask_spec hf
    · exact ho task hr

theorem published_iff
    (hme : payloadMessages codec call.template.payloadKind call.template.pushPayload ≠ []) :
    (∃ task, offlineTask codec call.template userId = .ok task ∧
        task ∈ (publishTargetedTasksInner codec handler call).tasks) ↔
      userId ∈ call.userIds ∧ call.alerted codec handler userId = true := by
  have hof : ∀ other, ∃ task, offlineTask codec call.template other = .ok task := by
    intro other
    obtain ⟨payload, hp⟩ := rewritePushPayloadUserIds_ok hme [other]
    exact ⟨_, by rw [offlineTask, hp]; rfl⟩
  have hon : ∀ chunk, ∃ task, onlineTask codec call.template chunk = .ok task := by
    intro chunk
    obtain ⟨payload, hp⟩ := rewritePushPayloadUserIds_ok hme chunk
    exact ⟨_, by rw [onlineTask, hp]; rfl⟩
  obtain ⟨offline, heO, hm⟩ := offlineTasks_ok (call.alerted codec handler)
    fun (other : String) (_ : other ∈ call.userIds) => hof other
  obtain ⟨online, hen, hs⟩ := onlineTasks_ok
    ((call.userIds.filter fun userId =>
      isOnline call.onlineStatuses userId || call.deliverOnlineToAll).toChunks
        ONLINE_FANOUT_CHUNK) hon
  unfold publishTargetedTasksInner
  simp only [heO, hen, List.mem_append]
  constructor
  · rintro ⟨task, ht, hin | hin⟩
    · have hoff := (offlineTask_spec ht).2
      rw [hs task hin] at hoff
      cases hoff
    · obtain ⟨other, ho, ha, hsa⟩ := (hm task).mp hin
      obtain rfl : userId = other := by
        rw [← (offlineTask_spec ht).1, (offlineTask_spec hsa).1]
      exact ⟨ho, ha⟩
  · rintro ⟨hu, ha⟩
    obtain ⟨task, ht⟩ := hof userId
    exact ⟨task, ht, Or.inr ((hm task).mpr ⟨userId, hu, ha, ht⟩)⟩

theorem alerted_of_mentionOnly (h : call.MentionOnly codec handler userId) :
    call.alerted codec handler userId =
      (mentionTargets codec call.template.payloadKind call.template.pushPayload).mentions
        userId := by
  obtain ⟨hs, ho, hp⟩ := h
  simp [Call.alerted, hs, ho, alertsOffline, hp]

end Tasks

section Silence

theorem readWithout_iff {message : Message} :
    ReadWithout codec userId message ↔
      PassedOver codec userId message ∧ (readMentions message).isSome := by
  unfold ReadWithout PassedOver readMentions
  cases message.content.map innermost with
  | none => simp
  | some content => cases content <;> simp

-- A mention is never silenced exactly when a first message that is passed over speaks for all.
theorem never_silenced_iff (handler : Handler) (call : Call) :
    NeverSilenced codec handler call ↔
      ∀ userId ∈ call.userIds, call.MentionOnly codec handler userId →
        FirstSpeaksForAll codec userId
          (payloadMessages codec call.template.payloadKind call.template.pushPayload) := by
  unfold NeverSilenced
  refine forall_congr' fun userId => forall_congr' fun huser => forall_congr' fun hmention => ?_
  cases hmessages : payloadMessages codec call.template.payloadKind call.template.pushPayload with
  | nil => simp [FirstSpeaksForAll]
  | cons first later =>
    have hnonempty : payloadMessages codec call.template.payloadKind
        call.template.pushPayload ≠ [] := by simp [hmessages]
    have hsilent : call.alerted codec handler userId = false ↔
        PassedOver codec userId first := by
      rw [alerted_of_mentionOnly hmention, not_mentions_iff, hmessages]
      constructor
      · rintro ⟨_, _, heq, hpassed⟩
        cases heq
        exact hpassed
      · intro hpassed
        exact ⟨first, later, rfl, hpassed⟩
    rw [published_iff hnonempty, FirstSpeaksForAll, ← hsilent, List.forall_mem_cons,
      readWithout_iff, ← hsilent]
    cases call.alerted codec handler userId with
    | true => simp [huser]
    | false => simp

end Silence

section Failures

def greeting : Message := ⟨some (.text [])⟩

def callForAlice : Message := ⟨some (.text [⟨1, "alice", []⟩])⟩

-- A payload of two messages, of which the second calls alice.
def sampleCodec : Codec where
  payloadKind kind := if kind = 1 then some .message else none
  eventMessage := 1
  mentionAll := 2
  message _ := .ok ⟨["alice"], [greeting, callForAlice]⟩
  event _ := .error "failed to decode Protobuf message: buffer underflow"
  encodeMessage _ := []
  encodeEvent _ := []
  notificationFor _ := .ok
  ackFor _ := .ok
  customFor _ := .ok
  capabilityFor _ := .ok
  encodeTask _ := []

def sampleHandler : Handler where
  notifyPolicy := some fun _ _ _ => .ok fun _ => some { mentionOnly := true }
  publishOnlineTask _ _ _ := .ok ()
  publishOfflineTask _ _ _ := .ok ()
  mapInfraError e _ _ := e
  finished := .kept _

def sampleCall : Call where
  ctx := { tenantId := some "tenant-1" }
  userIds := ["alice"]
  onlineStatuses _ := some false
  template :=
    { messageId := "m1", conversationId := "group-1", tenantId := "tenant-1", priority := 5,
      expireAt := none, pushPayload := [1], headers := [], payloadKind := 1 }
  onlineOnly := false
  deliverOnlineToAll := false
  prefetchedPreferences := none

-- The second message calls alice, the first is all that is asked.
theorem later_mention_is_silenced : ¬NeverSilenced sampleCodec sampleHandler sampleCall := by
  intro h
  have hmention : sampleCall.MentionOnly sampleCodec sampleHandler "alice" := by
    refine ⟨by decide, by decide, ?_⟩
    decide +kernel
  rcases h "alice" (by decide) hmention with ⟨task, -, hin⟩ | hread
  · have hnone : (publishTargetedTasksInner sampleCodec sampleHandler sampleCall).tasks = [] := by
      decide +kernel
    rw [hnone] at hin
    cases hin
  · obtain ⟨mentions, hmentions, hnot⟩ := hread callForAlice
      (List.mem_cons_of_mem _ List.mem_cons_self)
    obtain rfl : [⟨1, "alice", []⟩] = mentions := Option.some.inj hmentions
    exact hnot ⟨1, "alice", []⟩ List.mem_cons_self (Or.inr (Or.inl ⟨rfl, by decide⟩))

end Failures

end FlareIm.TargetedTasks
