import FlareIm.OnlinePush.Runs
import Mathlib.Data.List.Flatten

namespace FlareIm.OnlinePush

open Context Text
open List (mem_append mem_cons mem_map mem_singleton singleton_sublist)

variable {Options Request : Type}

section Statement

variable (codec : Codec Options Request) (isRetryable : FlareError → Bool)
  (answers : Nat → Answers Options Request)

-- The entry is the task of the message at its index.
def IsMember (messages : List Message) (entry : BatchEntry) : Prop :=
  messages[entry.index]? = some entry.message ∧
    decodeTaskEnvelope codec entry.message = .ok entry.envelope

def Dispatched.pushesMessages (push : Dispatched Options Request) : Bool :=
  match push.call with
  | some (.message _ _ _ _) => true
  | _ => false

-- The tasks whose messages are handed to the port, in the order of the calls.
def Run.handed (run : Run Options Request) : List BatchEntry :=
  (run.dispatched.filter Dispatched.pushesMessages).flatMap (·.entries)

def Run.verdict (run : Run Options Request) (i : Nat) : Option MessageResult :=
  match run.outcome with
  | .ok results => results[i]?
  | .error _ => none

-- The users that a call of the port names.
def requestedFor (targetUserId : String) (request : PushMessageRequest Options) : List String :=
  if isBlank targetUserId then request.userIds else [targetUserId]

-- A batch does to its messages what handling them one by one does.
structure OneByOne (messages : List Message) (run : Run Options Request) : Prop where
  once : ∀ entry, IsMember codec messages entry → carried codec entry ≠ [] →
    run.handed.count entry = 1
  whole : ∀ push ∈ run.dispatched, ∀ ctx target strategy request,
    push.call = some (.message ctx target strategy request) →
      request.messages = push.entries.flatMap (carried codec) ∧
        ∀ entry ∈ push.entries, IsMember codec messages entry ∧ (carried codec entry ≠ [] →
          requestedFor target request = recipients codec entry ∧
            ctx.tenantId = some entry.envelope.tenantId)
  inOrder : ∀ entry other, IsMember codec messages entry → IsMember codec messages other →
    entry.index < other.index → carried codec entry ≠ [] → carried codec other ≠ [] →
      entry.envelope.conversationId = other.envelope.conversationId →
      (∃ userId ∈ recipients codec entry, userId ∈ recipients codec other) →
        [entry, other].Sublist run.handed
  acknowledged : ∀ results, run.outcome = .ok results → ∀ i : Nat, results[i]? = some .ack →
    ∃ push ∈ run.dispatched, ∃ entry ∈ push.entries, IsMember codec messages entry ∧
      entry.index = i ∧
        (push.answer = .ok () ∨ dlqRecord entry.message entry.envelope ∈ push.published)
  undecodable : ∀ (i : Nat) message, messages[i]? = some message →
    (∃ e, decodeTaskEnvelope codec message = .error e) →
      ∀ (j : Nat) other, j ≠ i → messages[j]? = some other →
        run.verdict j = (handle codec isRetryable (answers j) other).toOption

-- The batches of decodable envelopes in which nothing gets into the way of a message.
structure Undisturbed (entries : List BatchEntry) : Prop where
  groups : ∀ key group, (key, group) ∈ (buildMessageGroups codec entries).1 →
    ∀ entry ∈ group.entries, carried codec entry ≠ [] →
      group.first.message.ctx.tenantId = some entry.envelope.tenantId
  alone : ∀ entry ∈ entries, batchKey codec entry = none → carried codec entry ≠ [] →
    entry.message.ctx.tenantId = some entry.envelope.tenantId ∧
      (isBlank entry.envelope.userId = true →
        ∀ userId ∈ requestedUserIds codec entry, isBlank userId = false) ∧
      Reached codec isRetryable answers entries entry
  together : ∀ entry ∈ entries, ∀ other ∈ entries, entry.index < other.index →
    carried codec entry ≠ [] → carried codec other ≠ [] →
      entry.envelope.conversationId = other.envelope.conversationId →
      (∃ userId ∈ recipients codec entry, userId ∈ recipients codec other) →
        batchKey codec other = none ∨ batchKey codec entry = batchKey codec other

-- With an undecodable member, what the others ask for has to be lost anyway.
def NothingAtStake (messages : List Message) : Prop :=
  ∀ entry, IsMember codec messages entry →
    carried codec entry = [] ∧ EntryLost codec isRetryable answers entry

end Statement

variable {codec : Codec Options Request} {isRetryable : FlareError → Bool}
  {answers : Nat → Answers Options Request}

section Decoding

variable {messages : List Message} {entries : List BatchEntry} {entry : BatchEntry} {start : Nat}

theorem decodeEntries_cons {message : Message} {rest : List Message}
    (h : decodeEntries codec start (message :: rest) = .ok entries) :
    ∃ envelope later, decodeTaskEnvelope codec message = .ok envelope ∧
      decodeEntries codec (start + 1) rest = .ok later ∧
      entries = ⟨start, message, envelope⟩ :: later := by
  rw [decodeEntries] at h
  split at h
  · cases h
  · rename_i envelope hen
    split at h
    · cases h
    · rename_i later hl
      cases h
      exact ⟨envelope, later, hen, hl, rfl⟩

theorem mem_of_decodeEntries (h : decodeEntries codec start messages = .ok entries) :
    entry ∈ entries ↔ ∃ i, entry.index = start + i ∧ messages[i]? = some entry.message ∧
      decodeTaskEnvelope codec entry.message = .ok entry.envelope := by
  induction messages generalizing start entries with
  | nil =>
    cases h
    simp
  | cons message rest ih =>
    obtain ⟨envelope, later, hen, hl, rfl⟩ := decodeEntries_cons h
    rw [mem_cons, ih hl]
    constructor
    · rintro (rfl | ⟨i, hin, hm, hde⟩)
      · exact ⟨0, by simp, rfl, hen⟩
      · exact ⟨i + 1, by omega, hm, hde⟩
    · rintro ⟨i, hin, hm, hde⟩
      cases i with
      | zero =>
        left
        obtain ⟨index, message', envelope'⟩ := entry
        obtain rfl : message = message' := Option.some.inj hm
        obtain rfl : index = start := hin
        rw [hen] at hde
        cases hde
        rfl
      | succ i => exact Or.inr ⟨i, by omega, hm, hde⟩

theorem decodeTaskEnvelope_of_decodeEntries
    (h : decodeEntries codec start messages = .ok entries) {message : Message}
    (hm : message ∈ messages) : ∃ envelope, decodeTaskEnvelope codec message = .ok envelope := by
  induction messages generalizing start entries with
  | nil => exact absurd hm List.not_mem_nil
  | cons head rest ih =>
    obtain ⟨envelope, later, hen, hl, rfl⟩ := decodeEntries_cons h
    rcases mem_cons.mp hm with rfl | hr
    · exact ⟨envelope, hen⟩
    · exact ih hl hr

theorem ascending_of_decodeEntries (h : decodeEntries codec start messages = .ok entries) :
    entries.Pairwise fun entry other => entry.index < other.index := by
  induction messages generalizing start entries with
  | nil =>
    cases h
    exact List.Pairwise.nil
  | cons message rest ih =>
    obtain ⟨envelope, later, hen, hl, rfl⟩ := decodeEntries_cons h
    refine List.pairwise_cons.mpr ⟨fun other ho => ?_, ih hl⟩
    obtain ⟨i, hin, -⟩ := (mem_of_decodeEntries hl).mp ho
    simp only
    omega

theorem mem_decodeEntries (h : decodeEntries codec 0 messages = .ok entries) :
    entry ∈ entries ↔ IsMember codec messages entry := by
  rw [mem_of_decodeEntries h, IsMember]
  constructor
  · rintro ⟨i, hin, hm, hde⟩
    rw [show entry.index = i by omega]
    exact ⟨hm, hde⟩
  · rintro ⟨hm, hde⟩
    exact ⟨entry.index, by omega, hm, hde⟩

theorem exists_undecodable {e : ConsumerError} (h : decodeEntries codec start messages = .error e) :
    ∃ (i : Nat) (message : Message), messages[i]? = some message ∧
      ∃ e, decodeTaskEnvelope codec message = .error e := by
  induction messages generalizing start e with
  | nil => cases h
  | cons message rest ih =>
    rw [decodeEntries] at h
    split at h
    · rename_i e' hf
      exact ⟨0, message, rfl, e', hf⟩
    · split at h
      · rename_i e' hl
        obtain ⟨i, other, ho, hf⟩ := ih hl
        exact ⟨i + 1, other, ho, hf⟩
      · cases h

end Decoding

section Calls

variable {entry : BatchEntry}

variable (isRetryable answers) in
theorem pushCall_of_carried (h : carried codec entry ≠ []) :
    ∃ request, decodePushMessageRequest codec entry.envelope = .ok request ∧
      (dispatchEntry codec isRetryable answers entry).call =
        some (.message entry.message.ctx entry.envelope.userId .allDevices request) := by
  obtain ⟨request, hr⟩ := request_of_carried h
  refine ⟨request, hr, ?_⟩
  simp only [dispatchEntry, pushCall, kind_of_carried h, hr]
  rfl

theorem toOption_map_ne {Decoded : Type} {result : Except FlareError Decoded}
    {call : Decoded → PushCall Options Request} {expected : PushCall Options Request}
    (h : ∀ request, call request ≠ expected) : (result.map call).toOption ≠ some expected := by
  cases result with
  | error e => exact nofun
  | ok request => exact fun heq => h request (Option.some.inj heq)

theorem call_dispatchEntry {ctx : Ctx} {target : String} {strategy : PushStrategy}
    {request : PushMessageRequest Options}
    (h : (dispatchEntry codec isRetryable answers entry).call =
      some (.message ctx target strategy request)) :
    ctx = entry.message.ctx ∧ target = entry.envelope.userId ∧
      payloadKind codec entry.envelope = .message ∧
      decodePushMessageRequest codec entry.envelope = .ok request := by
  simp only [dispatchEntry, pushCall] at h
  cases hk : payloadKind codec entry.envelope with
  | message =>
    rw [hk] at h
    cases hr : decodePushMessageRequest codec entry.envelope with
    | error e =>
      rw [hr] at h
      cases h
    | ok decoded =>
      rw [hr] at h
      cases h
      exact ⟨rfl, rfl, rfl, rfl⟩
  | unspecified =>
    rw [hk] at h
    cases h
  | event | notification | ack | custom | capability =>
    rw [hk] at h
    exact absurd h (toOption_map_ne fun _ => nofun)

theorem requestedFor_eq_recipients {request : PushMessageRequest Options}
    (hr : decodePushMessageRequest codec entry.envelope = .ok request) :
    requestedFor entry.envelope.userId request = recipients codec entry ↔
      (isBlank entry.envelope.userId = true →
        ∀ userId ∈ requestedUserIds codec entry, isBlank userId = false) := by
  simp only [requestedFor, recipients, requestedUserIds, hr, taskUserIds]
  split
  · rename_i hb
    simp only [hb, true_implies]
    rw [eq_comm, List.filter_eq_self]
    simp only [Bool.not_eq_true']
  · rename_i hb
    simp [hb]

theorem recipients_of_user {key : MessageBatchKey} (hk : batchKey codec entry = some key)
    (hb : ¬isBlank entry.envelope.userId = true) :
    recipients codec entry = [entry.envelope.userId] := by
  obtain ⟨request, hr⟩ := request_of_batchKey hk
  simp only [recipients, hr, taskUserIds, if_neg hb]

theorem requestedFor_group {entries : List BatchEntry} {key : MessageBatchKey}
    {group : MessageBatchGroup Options} (h : (key, group) ∈ messageGroups codec entries)
    (hm : entry ∈ group.entries) :
    requestedFor group.first.envelope.userId group.request = recipients codec entry := by
  have hu : ∀ other ∈ group.entries, key.userIds = recipients codec other := by
    intro other ho
    obtain ⟨request, hr⟩ := batchKey_eq_some.mp ((mem_group_entries h).mp ho).2
    exact (batchRequest_spec hr).2.2.1
  have hf : group.first ∈ group.entries := List.mem_cons_self
  rw [← hu entry hm, requestedFor]
  split
  · exact (group_spec h).2.2
  · rename_i hb
    rw [hu group.first hf]
    exact (recipients_of_user ((mem_group_entries h).mp hf).2 hb).symm

end Calls

section Handed

variable {schedule : Schedule Options Request} {messages : List Message}
  {entries alone : List BatchEntry} {entry : BatchEntry}

theorem handed_eq
    (h : (handleEntries codec isRetryable answers schedule entries).dispatched =
      groupsDone codec isRetryable answers schedule entries ++
        alone.map (dispatchEntry codec isRetryable answers)) :
    (handleEntries codec isRetryable answers schedule entries).handed =
      (schedule.groups.arrange ((messageGroups codec entries).map (·.2))).flatMap (·.entries) ++
        alone.filter fun entry =>
          (dispatchEntry codec isRetryable answers entry).pushesMessages := by
  rw [Run.handed, h, List.filter_append, List.flatMap_append]
  congr 1
  · rw [groupsDone, List.filter_eq_self.mpr, List.flatMap_map]
    · rfl
    · intro push hp
      obtain ⟨group, -, rfl⟩ := mem_map.mp hp
      rfl
  · rw [List.filter_map, flatMap_dispatchEntry]
    rfl

theorem mem_groups_flatMap :
    entry ∈ (schedule.groups.arrange ((messageGroups codec entries).map (·.2))).flatMap
        (·.entries) ↔ entry ∈ entries ∧ (batchKey codec entry).isSome := by
  rw [((schedule.groups.perm _).flatMap_right _).mem_iff, List.mem_flatMap]
  constructor
  · rintro ⟨group, hg, hen⟩
    obtain ⟨⟨key, _⟩, hm, rfl⟩ := mem_map.mp hg
    obtain ⟨hin, hk⟩ := (mem_group_entries hm).mp hen
    exact ⟨hin, by rw [hk]; rfl⟩
  · rintro ⟨hin, hs⟩
    obtain ⟨key, hk⟩ := Option.isSome_iff_exists.mp hs
    obtain ⟨group, hg⟩ := exists_group hin hk
    exact ⟨group, mem_map.mpr ⟨_, hg, rfl⟩, (mem_group_entries hg).mpr ⟨hin, hk⟩⟩

theorem pushesMessages_of_carried (h : carried codec entry ≠ []) :
    (dispatchEntry codec isRetryable answers entry).pushesMessages = true := by
  obtain ⟨request, -, hc⟩ := pushCall_of_carried isRetryable answers h
  rw [Dispatched.pushesMessages, hc]

theorem nodup_handed (ha : entries.Pairwise fun entry other => entry.index < other.index) :
    (handleEntries codec isRetryable answers schedule entries).handed.Nodup := by
  obtain ⟨alone, hal, hdi⟩ := handleEntries_dispatched codec isRetryable answers schedule ha
  have hn : entries.Nodup := ha.imp fun hlt heq => hlt.ne (congrArg _ heq)
  rw [handed_eq hdi]
  refine List.nodup_append.mpr ⟨?_, hal.nodup.filter _, ?_⟩
  · exact ((schedule.groups.perm _).flatMap_right _).nodup_iff.mpr (nodup_group_entries hn)
  · rintro entry hg other ho rfl
    have hs := (mem_groups_flatMap.mp hg).2
    rw [(hal.ungrouped entry (List.mem_of_mem_filter ho)).2] at hs
    cases hs

theorem mem_handed (hac : entries.Pairwise fun entry other => entry.index < other.index)
    (hm : entry ∈ entries) (hc : carried codec entry ≠ []) :
    entry ∈ (handleEntries codec isRetryable answers schedule entries).handed ↔
      (batchKey codec entry).isSome ∨ Reached codec isRetryable answers entries entry := by
  obtain ⟨alone, ha, hdi⟩ := handleEntries_dispatched codec isRetryable answers schedule hac
  have hki : payloadKind codec entry.envelope ≠ .ack := by
    rw [kind_of_carried hc]
    decide
  rw [handed_eq hdi, mem_append, mem_groups_flatMap, List.mem_filter]
  constructor
  · rintro (⟨-, hs⟩ | ⟨hin, -⟩)
    · exact Or.inl hs
    · exact Or.inr ((ha.reached entry hm (ha.ungrouped entry hin).2 hki).mp hin)
  · intro h
    cases hk : batchKey codec entry with
    | some key => exact Or.inl ⟨hm, rfl⟩
    | none =>
      rw [hk] at h
      have hr := h.resolve_left (by simp)
      exact Or.inr ⟨(ha.reached entry hm hk hki).mpr hr, pushesMessages_of_carried hc⟩

end Handed

section Pushes

variable {schedule : Schedule Options Request} {messages : List Message}
  {entries alone : List BatchEntry}

theorem mem_dispatched {push : Dispatched Options Request}
    (ha : Alone codec isRetryable answers entries alone)
    (hdi : (handleEntries codec isRetryable answers schedule entries).dispatched =
      groupsDone codec isRetryable answers schedule entries ++
        alone.map (dispatchEntry codec isRetryable answers))
    (h : push ∈ (handleEntries codec isRetryable answers schedule entries).dispatched) :
    (∃ key group, (key, group) ∈ messageGroups codec entries ∧
        push = dispatchGroup isRetryable answers group) ∨
      ∃ entry ∈ entries, batchKey codec entry = none ∧
        (payloadKind codec entry.envelope ≠ .ack →
          Reached codec isRetryable answers entries entry) ∧
        push = dispatchEntry codec isRetryable answers entry := by
  rw [hdi] at h
  rcases mem_append.mp h with hg | ha'
  · obtain ⟨group, hm, rfl⟩ := mem_map.mp hg
    obtain ⟨⟨key, _⟩, hin, rfl⟩ := mem_map.mp ((schedule.groups.perm _).mem_iff.mp hm)
    exact Or.inl ⟨key, _, hin, rfl⟩
  · obtain ⟨entry, hm, rfl⟩ := mem_map.mp ha'
    obtain ⟨hin, hk⟩ := ha.ungrouped entry hm
    exact Or.inr ⟨entry, hin, hk, fun hki => (ha.reached entry hin hk hki).mp hm, rfl⟩

theorem acknowledged_handleEntries (hde : decodeEntries codec 0 messages = .ok entries)
    {results : List MessageResult} {i : Nat}
    (ho : (handleEntries codec isRetryable answers schedule entries).outcome = .ok results)
    (hac : results[i]? = some .ack) :
    ∃ push ∈ (handleEntries codec isRetryable answers schedule entries).dispatched,
      ∃ entry ∈ push.entries, IsMember codec messages entry ∧ entry.index = i ∧
        (push.answer = .ok () ∨ dlqRecord entry.message entry.envelope ∈ push.published) := by
  obtain ⟨alone, ha, hdi⟩ := handleEntries_dispatched codec isRetryable answers schedule
    (ascending_of_decodeEntries hde)
  obtain ⟨push, hpu, hv, entry, hen, hie⟩ := handleEntries_acked ho hac
  have hs : entry ∈ entries ∧ Accounted push := by
    rcases mem_dispatched ha hdi hpu with
      ⟨key, group, hin, rfl⟩ | ⟨other, hin, -, -, rfl⟩
    · exact ⟨((mem_group_entries hin).mp hen).1, accounted_dispatchGroup⟩
    · obtain rfl : entry = other := mem_singleton.mp hen
      exact ⟨hin, accounted_dispatchEntry⟩
  refine ⟨push, hpu, entry, hen, (mem_decodeEntries hde).mp hs.1, hie, ?_⟩
  exact (hs.2 hv).imp_right fun hp => hp entry hen

theorem whole_handleEntries (hde : decodeEntries codec 0 messages = .ok entries)
    (h : Undisturbed codec isRetryable answers entries) {push : Dispatched Options Request}
    (hp : push ∈ (handleEntries codec isRetryable answers schedule entries).dispatched)
    {ctx : Ctx} {target : String} {strategy : PushStrategy} {request : PushMessageRequest Options}
    (hc : push.call = some (.message ctx target strategy request)) :
    request.messages = push.entries.flatMap (carried codec) ∧
      ∀ entry ∈ push.entries, IsMember codec messages entry ∧ (carried codec entry ≠ [] →
        requestedFor target request = recipients codec entry ∧
          ctx.tenantId = some entry.envelope.tenantId) := by
  obtain ⟨alone, ha, hdi⟩ := handleEntries_dispatched codec isRetryable answers schedule
    (ascending_of_decodeEntries hde)
  rcases mem_dispatched ha hdi hp with
    ⟨key, group, hin, rfl⟩ | ⟨other, hin, hk, -, rfl⟩
  · cases hc
    refine ⟨(group_spec hin).2.1, fun entry hen => ⟨?_, fun hca => ⟨?_, ?_⟩⟩⟩
    · exact (mem_decodeEntries hde).mp ((mem_group_entries hin).mp hen).1
    · exact requestedFor_group hin hen
    · refine h.groups key group ?_ entry hen hca
      rw [buildMessageGroups_eq]
      exact hin
  · obtain ⟨rfl, rfl, hki, hr⟩ := call_dispatchEntry hc
    have hm := carried_eq hki hr
    refine ⟨?_, fun entry hen => ?_⟩
    · simp [dispatchEntry, hm]
    · obtain rfl : entry = other := mem_singleton.mp hen
      refine ⟨(mem_decodeEntries hde).mp hin, fun hca => ?_⟩
      obtain ⟨ht, hu, -⟩ := h.alone entry hin hk hca
      exact ⟨(requestedFor_eq_recipients hr).mpr hu, ht⟩

-- Tasks of one group are handed over in their order, and so is one of no group after the others.
theorem inOrder_handleEntries (ha : entries.Pairwise fun entry other => entry.index < other.index)
    {entry other : BatchEntry} (hen : entry ∈ entries) (ho : other ∈ entries)
    (hlt : entry.index < other.index) (hc : carried codec entry ≠ [])
    (hc' : carried codec other ≠ [])
    (hke : batchKey codec other = none ∨ batchKey codec entry = batchKey codec other)
    (hh : entry ∈ (handleEntries codec isRetryable answers schedule entries).handed)
    (hh' : other ∈ (handleEntries codec isRetryable answers schedule entries).handed) :
    [entry, other].Sublist (handleEntries codec isRetryable answers schedule entries).handed := by
  obtain ⟨alone, hal, hdi⟩ := handleEntries_dispatched codec isRetryable answers schedule ha
  rw [handed_eq hdi] at hh hh' ⊢
  cases hk' : batchKey codec other with
  | none =>
    have hl : other ∈ alone.filter fun entry =>
        (dispatchEntry codec isRetryable answers entry).pushesMessages := by
      refine (mem_append.mp hh').resolve_left fun hg => ?_
      have hs := (mem_groups_flatMap.mp hg).2
      rw [hk'] at hs
      cases hs
    rcases mem_append.mp hh with hg | hfi
    · exact (singleton_sublist.mpr hg).append (singleton_sublist.mpr hl)
    · have hki : ∀ task : BatchEntry, carried codec task ≠ [] →
          payloadKind codec task.envelope ≠ .ack := by
        intro task ht
        rw [kind_of_carried ht]
        decide
      have hp := hal.inOrder entry (List.mem_of_mem_filter hfi) other
        (List.mem_of_mem_filter hl) (hki entry hc) (hki other hc') hlt
      have hf := hp.filter fun entry =>
        (dispatchEntry codec isRetryable answers entry).pushesMessages
      rw [List.filter_eq_self.mpr] at hf
      · exact hf.trans (List.sublist_append_right _ _)
      · intro task ht
        rcases mem_cons.mp ht with rfl | ht
        · exact pushesMessages_of_carried hc
        · obtain rfl := mem_singleton.mp ht
          exact pushesMessages_of_carried hc'
  | some key =>
    have hk : batchKey codec entry = some key := by
      rw [← hk']
      exact hke.resolve_left (by simp [hk'])
    obtain ⟨group, hgr⟩ := exists_group ho hk'
    have hp : [entry, other].Sublist group.entries := by
      have hso : (group.entries).Pairwise fun entry other => entry.index < other.index := by
        rw [(group_spec hgr).1]
        exact ha.sublist List.filter_sublist
      exact Listing.pair_sublist_of_lt hso ((mem_group_entries hgr).mpr ⟨hen, hk⟩)
        ((mem_group_entries hgr).mpr ⟨ho, hk'⟩) hlt
    have hm : group ∈ schedule.groups.arrange ((messageGroups codec entries).map (·.2)) :=
      (schedule.groups.perm _).mem_iff.mpr (mem_map.mpr ⟨_, hgr, rfl⟩)
    have hin := (singleton_sublist.mpr hm).flatMap MessageBatchGroup.entries
    rw [List.flatMap_singleton] at hin
    exact (hp.trans hin).trans (List.sublist_append_left _ _)

end Pushes

section Agreement

variable {messages : List Message} {entries : List BatchEntry}

theorem handed_once {schedule : Schedule Options Request}
    (ha : entries.Pairwise fun entry other => entry.index < other.index)
    (h : Undisturbed codec isRetryable answers entries) {entry : BatchEntry}
    (hm : entry ∈ entries) (hc : carried codec entry ≠ []) :
    entry ∈ (handleEntries codec isRetryable answers schedule entries).handed := by
  rw [mem_handed ha hm hc]
  cases hk : batchKey codec entry with
  | some key => exact Or.inl rfl
  | none => exact Or.inr (h.alone entry hm hk hc).2.2

theorem oneByOne_of_undisturbed (hde : decodeEntries codec 0 messages = .ok entries)
    (h : Undisturbed codec isRetryable answers entries) (schedule : Schedule Options Request) :
    OneByOne codec isRetryable answers messages
      (handleEntries codec isRetryable answers schedule entries) := by
  have ha := ascending_of_decodeEntries hde
  refine ⟨?_, ?_, ?_, ?_, ?_⟩
  · intro entry hme hca
    have hm := (mem_decodeEntries hde).mpr hme
    exact List.count_eq_one_of_mem (nodup_handed ha) (handed_once ha h hm hca)
  · intro push hp ctx target strategy request hc
    exact whole_handleEntries hde h hp hc
  · intro entry other hme hme' hlt hca hca' hco hs
    have hm := (mem_decodeEntries hde).mpr hme
    have hm' := (mem_decodeEntries hde).mpr hme'
    exact inOrder_handleEntries ha hm hm' hlt hca hca'
      (h.together entry hm other hm' hlt hca hca' hco hs)
      (handed_once ha h hm hca) (handed_once ha h hm' hca')
  · intro results ho i hac
    exact acknowledged_handleEntries hde ho hac
  · rintro i message hms ⟨e, hf⟩ j other - -
    obtain ⟨envelope, hen⟩ :=
      decodeTaskEnvelope_of_decodeEntries hde (List.mem_of_getElem? hms)
    rw [hf] at hen
    cases hen

def Schedule.kept : Schedule Options Request := ⟨.kept _, .kept _, .kept _⟩

def Schedule.groupsReversed : Schedule Options Request := ⟨.reversed _, .kept _, .kept _⟩

theorem key_eq_of_inOrder (ha : entries.Pairwise fun entry other => entry.index < other.index)
    {entry other : BatchEntry} {key key' : MessageBatchKey} (hen : entry ∈ entries)
    (ho : other ∈ entries) (hk : batchKey codec entry = some key)
    (hk' : batchKey codec other = some key')
    (h : ∀ schedule : Schedule Options Request, [entry, other].Sublist
      (handleEntries codec isRetryable answers schedule entries).handed) : key = key' := by
  by_contra hne
  obtain ⟨group, hg⟩ := exists_group hen hk
  obtain ⟨group', hg'⟩ := exists_group ho hk'
  have hin := (mem_group_entries hg).mpr ⟨hen, hk⟩
  have hin' := (mem_group_entries hg').mpr ⟨ho, hk'⟩
  have hgr : group ≠ group' := by
    rintro rfl
    exact hne (Option.some.inj (hk.symm.trans ((mem_group_entries hg').mp hin).2))
  -- an order in which the second group comes first
  have hw : ∀ schedule : Schedule Options Request, ¬[group', group].Sublist
        (schedule.groups.arrange ((messageGroups codec entries).map (·.2))) := by
    intro schedule hfi
    obtain ⟨alone, hal, hdi⟩ := handleEntries_dispatched codec isRetryable answers schedule ha
    refine Listing.pair_sublist_asymm (nodup_handed ha) (h schedule) ?_
    rw [handed_eq hdi]
    have hf := hfi.flatMap MessageBatchGroup.entries
    rw [List.flatMap_cons, List.flatMap_singleton] at hf
    have hp : [other, entry].Sublist (group'.entries ++ group.entries) :=
      (singleton_sublist.mpr hin').append (singleton_sublist.mpr hin)
    exact (hp.trans hf).trans (List.sublist_append_left _ _)
  have hm : group ∈ (messageGroups codec entries).map (·.2) :=
    mem_map.mpr ⟨_, hg, rfl⟩
  have hm' : group' ∈ (messageGroups codec entries).map (·.2) :=
    mem_map.mpr ⟨_, hg', rfl⟩
  rcases Listing.pair_sublist_or hgr hm hm' with hp | hp
  · exact hw .groupsReversed hp.reverse
  · exact hw .kept hp

theorem undisturbed_of_oneByOne (hde : decodeEntries codec 0 messages = .ok entries)
    (h : ∀ schedule : Schedule Options Request, OneByOne codec isRetryable answers messages
      (handleEntries codec isRetryable answers schedule entries)) :
    Undisturbed codec isRetryable answers entries := by
  have ha := ascending_of_decodeEntries hde
  have hme : ∀ entry ∈ entries, IsMember codec messages entry := fun entry hm =>
    (mem_decodeEntries hde).mp hm
  have hke := h .kept
  have hh : ∀ entry ∈ entries, carried codec entry ≠ [] →
      entry ∈ (handleEntries codec isRetryable answers .kept entries).handed := by
    intro entry hm hca
    have hcu := hke.once entry (hme entry hm) hca
    exact List.count_pos_iff.mp (hcu ▸ Nat.one_pos)
  obtain ⟨alone, hal, hdi⟩ := handleEntries_dispatched codec isRetryable answers .kept ha
  refine ⟨?_, ?_, ?_⟩
  · intro key group hg entry hen hca
    rw [buildMessageGroups_eq] at hg
    have hp : dispatchGroup isRetryable answers group ∈
        (handleEntries codec isRetryable answers .kept entries).dispatched := by
      rw [hdi]
      refine List.mem_append_left _ (List.mem_map_of_mem ?_)
      exact mem_map.mpr ⟨_, hg, rfl⟩
    have hw := hke.whole _ hp _ _ _ _ rfl
    exact ((hw.2 entry hen).2 hca).2
  · intro entry hm hk hca
    have hki : payloadKind codec entry.envelope ≠ .ack := by
      rw [kind_of_carried hca]
      decide
    have hr : Reached codec isRetryable answers entries entry := by
      have hin := (mem_handed ha hm hca).mp (hh entry hm hca)
      exact hin.resolve_left (by simp [hk])
    obtain ⟨request, hre, hc⟩ := pushCall_of_carried isRetryable answers hca
    have hp : dispatchEntry codec isRetryable answers entry ∈
        (handleEntries codec isRetryable answers .kept entries).dispatched := by
      rw [hdi]
      exact List.mem_append_right _ (List.mem_map_of_mem ((hal.reached entry hm hk hki).mpr hr))
    have hw := hke.whole _ hp _ _ _ _ hc
    obtain ⟨hu, ht⟩ := (hw.2 entry List.mem_cons_self).2 hca
    exact ⟨ht, (requestedFor_eq_recipients hre).mp hu, hr⟩
  · intro entry hm other hm' hlt hca hca' hco hsh
    have ho : ∀ schedule : Schedule Options Request, [entry, other].Sublist
        (handleEntries codec isRetryable answers schedule entries).handed := fun schedule =>
      (h schedule).inOrder entry other (hme entry hm) (hme other hm') hlt hca hca' hco hsh
    cases hk' : batchKey codec other with
    | none => exact Or.inl rfl
    | some key' =>
      right
      cases hk : batchKey codec entry with
      | some key =>
        rw [key_eq_of_inOrder ha hm hm' hk hk' ho]
      | none =>
        -- every group comes before an entry of no group
        exfalso
        refine Listing.pair_sublist_asymm (nodup_handed ha) (ho .kept) ?_
        have hf := hh entry hm hca
        rw [handed_eq hdi] at hf ⊢
        have hl : entry ∈ alone.filter fun entry =>
            (dispatchEntry codec isRetryable answers entry).pushesMessages := by
          refine (mem_append.mp hf).resolve_left fun hgr => ?_
          have hs := (mem_groups_flatMap.mp hgr).2
          rw [hk] at hs
          cases hs
        refine (singleton_sublist.mpr ?_).append (singleton_sublist.mpr hl)
        exact mem_groups_flatMap.mpr ⟨hm', by rw [hk']; rfl⟩

theorem handle_lost {entry : BatchEntry} (hen : decodeTaskEnvelope codec entry.message =
    .ok entry.envelope) :
    (handle codec isRetryable (answers entry.index) entry.message).toOption = none ↔
      EntryLost codec isRetryable answers entry := by
  rw [← dispatchEntry_error, handle, hen]
  simp only [dispatchEntry]
  cases (applyRouteResult isRetryable (answers entry.index) entry.message entry.envelope
    (routeByPayloadKind codec (answers entry.index) entry.message.ctx entry.envelope
      entry.envelope.userId .allDevices)).2 <;> simp [Except.toOption]

theorem oneByOne_iff_of_undecodable {e : ConsumerError}
    (hf : decodeEntries codec 0 messages = .error e) :
    OneByOne codec isRetryable answers messages ⟨[], .error e⟩ ↔
      NothingAtStake codec isRetryable answers messages := by
  constructor
  · intro h entry hm
    obtain ⟨i, message, hme, hu⟩ := exists_undecodable hf
    have ho : entry.index ≠ i := by
      rintro rfl
      obtain ⟨e', he'⟩ := hu
      rw [hm.1] at hme
      cases hme
      rw [hm.2] at he'
      cases he'
    constructor
    · by_contra hc
      exact absurd (h.once entry hm hc) (by simp [Run.handed])
    · rw [← handle_lost hm.2]
      exact (h.undecodable i message hme hu entry.index entry.message ho hm.1).symm
  · intro h
    refine ⟨?_, ?_, ?_, ?_, ?_⟩
    · intro entry hm hc
      exact absurd (h entry hm).1 hc
    · intro push hp
      exact absurd hp List.not_mem_nil
    · intro entry other hm _ _ hc
      exact absurd (h entry hm).1 hc
    · intro results hou
      cases hou
    · intro i message _ _ j other _ ho
      cases hde : decodeTaskEnvelope codec other with
      | error e' => simp [Run.verdict, handle, hde, Except.toOption]
      | ok envelope =>
        have hl := (h ⟨j, other, envelope⟩ ⟨ho, hde⟩).2
        have hn := (handle_lost hde).mpr hl
        exact hn.symm

-- A batch agrees with handling its messages one by one when it is undisturbed, or when an
-- undecodable member costs the others nothing.
theorem batch_agrees_iff (messages : List Message) :
    (∀ schedule : Schedule Options Request, OneByOne codec isRetryable answers messages
      (handleBatch codec isRetryable answers schedule messages)) ↔
      match decodeEntries codec 0 messages with
      | .ok entries => Undisturbed codec isRetryable answers entries
      | .error _ => NothingAtStake codec isRetryable answers messages := by
  unfold handleBatch
  cases hdecoded : decodeEntries codec 0 messages with
  | ok entries =>
    exact ⟨undisturbed_of_oneByOne hdecoded, oneByOne_of_undisturbed hdecoded⟩
  | error e =>
    simp only
    rw [← oneByOne_iff_of_undecodable hdecoded]
    exact ⟨fun h => h .kept, fun h _ => h⟩

end Agreement

section Failures

def sampleMessage (serverId : String) : ProtoMessage := ⟨serverId, "group-1"⟩

def sampleTask (payload : UInt8) : PushTaskEnvelope := ⟨"", "group-1", "tenant-1", [payload], 1⟩

-- Two tasks of one conversation, for lists of users that overlap. Other payloads are truncated.
def sampleCodec : Codec Unit Unit where
  envelope
    | [1] => .ok (sampleTask 1)
    | [2] => .ok (sampleTask 2)
    | _ => .error "failed to decode Protobuf message: invalid varint"
  payloadKind kind := if kind = 1 then some .message else none
  message
    | [1] => .ok ⟨["alice", "bob"], [sampleMessage "m1"], none⟩
    | _ => .ok ⟨["bob", "carol"], [sampleMessage "m2"], none⟩
  event _ := .ok ()
  notification _ := .ok ()
  ack _ := .ok ()
  custom _ := .ok ()
  capability _ := .ok ()
  encodeOptions _ := []

def sampleCtx : Ctx := { tenantId := some "tenant-1" }

def willing (_ : Nat) : Answers Unit Unit := ⟨fun _ => .ok (), fun _ => .ok ()⟩

-- The second task may be handed over first, and beside an undecodable message none is handed over.
theorem batch_differs :
    (¬∀ schedule, OneByOne sampleCodec (fun _ => false) willing
      [⟨sampleCtx, [1]⟩, ⟨sampleCtx, [2]⟩]
      (handleBatch sampleCodec (fun _ => false) willing schedule
        [⟨sampleCtx, [1]⟩, ⟨sampleCtx, [2]⟩])) ∧
    ¬∀ schedule, OneByOne sampleCodec (fun _ => false) willing
      [⟨sampleCtx, [1]⟩, ⟨sampleCtx, [255]⟩]
      (handleBatch sampleCodec (fun _ => false) willing schedule
        [⟨sampleCtx, [1]⟩, ⟨sampleCtx, [255]⟩]) := by
  constructor
  · intro h
    have hordered := (h .groupsReversed).inOrder ⟨0, ⟨sampleCtx, [1]⟩, sampleTask 1⟩
      ⟨1, ⟨sampleCtx, [2]⟩, sampleTask 2⟩ ⟨rfl, rfl⟩ ⟨rfl, rfl⟩ (by decide) (by decide) (by decide)
      rfl ⟨"bob", by decide +kernel, by decide +kernel⟩
    revert hordered
    decide +kernel
  · intro h
    have hverdict := (h .kept).undecodable 1 ⟨sampleCtx, [255]⟩ rfl ⟨_, rfl⟩ 0 ⟨sampleCtx, [1]⟩
      (by decide) rfl
    revert hverdict
    decide +kernel

end Failures

end FlareIm.OnlinePush
