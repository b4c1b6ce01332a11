import FlareIm.OnlinePush

namespace FlareIm.OnlinePush

open Context Text

variable {Options Request : Type} (codec : Codec Options Request)

section Tasks

-- The messages of a task, none when it is no message task or does not decode.
def carried (entry : BatchEntry) : List ProtoMessage :=
  match payloadKind codec entry.envelope, decodePushMessageRequest codec entry.envelope with
  | .message, .ok request => request.messages
  | _, _ => []

def requestedUserIds (entry : BatchEntry) : List String :=
  match decodePushMessageRequest codec entry.envelope with
  | .ok request => request.userIds
  | .error _ => []

def recipients (entry : BatchEntry) : List String :=
  match decodePushMessageRequest codec entry.envelope with
  | .ok request => taskUserIds entry.envelope request
  | .error _ => []

def batchKey (entry : BatchEntry) : Option MessageBatchKey :=
  (batchRequest codec entry).map (·.1)

variable {codec} {entry : BatchEntry} {key : MessageBatchKey}

theorem kind_of_carried (h : carried codec entry ≠ []) :
    payloadKind codec entry.envelope = .message := by
  cases hk : payloadKind codec entry.envelope with
  | message => rfl
  | _ => exact absurd (by simp [carried, hk]) h

theorem request_of_carried (h : carried codec entry ≠ []) :
    ∃ request, decodePushMessageRequest codec entry.envelope = .ok request := by
  cases hr : decodePushMessageRequest codec entry.envelope with
  | ok request => exact ⟨request, rfl⟩
  | error e => exact absurd (by simp [carried, hr]) h

theorem carried_eq {request : PushMessageRequest Options}
    (hk : payloadKind codec entry.envelope = .message)
    (hr : decodePushMessageRequest codec entry.envelope = .ok request) :
    carried codec entry = request.messages := by
  simp only [carried, hk, hr]

theorem batchRequest_spec {request : PushMessageRequest Options}
    (h : batchRequest codec entry = some (key, request)) :
    payloadKind codec entry.envelope = .message ∧ key.tenantId = entry.envelope.tenantId ∧
      key.userIds = recipients codec entry ∧ request.userIds = key.userIds ∧
      request.messages = carried codec entry := by
  unfold batchRequest at h
  split at h
  · cases h
  · rename_i hk
    have hk := not_not.mp hk
    split at h
    · cases h
    · split at h
      · cases h
      · rename_i request' hr
        simp only at h
        split at h
        · cases h
        · cases h
          refine ⟨hk, rfl, ?_, rfl, ?_⟩
          · simp only [recipients, hr]
          · rw [carried_eq hk hr]

theorem batchKey_eq_some :
    batchKey codec entry = some key ↔
      ∃ request, batchRequest codec entry = some (key, request) := by
  rw [batchKey, Option.map_eq_some_iff]
  constructor
  · rintro ⟨⟨_, request⟩, hr, rfl⟩
    exact ⟨request, hr⟩
  · rintro ⟨request, hr⟩
    exact ⟨_, hr, rfl⟩

theorem request_of_batchKey (h : batchKey codec entry = some key) :
    ∃ request, decodePushMessageRequest codec entry.envelope = .ok request := by
  cases hr : decodePushMessageRequest codec entry.envelope with
  | ok request => exact ⟨request, rfl⟩
  | error e =>
    obtain ⟨_, hb⟩ := batchKey_eq_some.mp h
    simp [batchRequest, hr] at hb

end Tasks

section Groups

-- What the entries bring into groups, with the keys.
def batchPairs (entries : List BatchEntry) :
    List (MessageBatchKey × BatchEntry × PushMessageRequest Options) :=
  entries.filterMap fun entry =>
    (batchRequest codec entry).map fun pair => (pair.1, entry, pair.2)

def messageGroups (entries : List BatchEntry) : List (MessageBatchKey × MessageBatchGroup Options) :=
  Grouping.collect openGroup joinGroup (batchPairs codec entries)

def groupedIndices (entries : List BatchEntry) : List Nat :=
  (entries.filter fun entry => (batchKey codec entry).isSome).map (·.index)

variable {codec} {entry : BatchEntry} {key : MessageBatchKey} {entries : List BatchEntry}
  {group : MessageBatchGroup Options}

theorem batchPairs_concat (entries : List BatchEntry) (entry : BatchEntry) :
    batchPairs codec (entries ++ [entry]) = batchPairs codec entries ++
        ((batchRequest codec entry).map fun pair => (pair.1, entry, pair.2)).toList := by
  rw [batchPairs, List.filterMap_append]
  cases h : batchRequest codec entry <;> simp [batchPairs, h]

theorem buildMessageGroups_eq (entries : List BatchEntry) :
    buildMessageGroups codec entries =
      (messageGroups codec entries, groupedIndices codec entries) := by
  induction entries using List.reverseRecOn with
  | nil => rfl
  | append_singleton entries entry ih =>
    unfold buildMessageGroups at ih ⊢
    rw [List.foldl_append, ih]
    simp only [List.foldl_cons, List.foldl_nil, messageGroups, groupedIndices,
      batchPairs_concat, List.filter_append, List.map_append]
    cases h : batchRequest codec entry with
    | none => simp [batchKey, h]
    | some pair =>
      rw [Option.map_some, Option.toList_some, Grouping.collect_concat]
      simp [batchKey, h]

theorem fill_spec {pushed : List (BatchEntry × PushMessageRequest Options)}
    (h : Grouping.fill openGroup joinGroup pushed = some group) : group.entries = pushed.map (·.1) ∧
      group.request.messages = pushed.flatMap (·.2.messages) ∧
      ∃ first ∈ pushed, group.first = first.1 ∧ group.request.userIds = first.2.userIds := by
  induction pushed using List.reverseRecOn generalizing group with
  | nil => cases h
  | append_singleton pushed last ih =>
    rw [Grouping.fill_concat, Option.some_inj] at h
    cases hf : Grouping.fill openGroup joinGroup pushed with
    | none =>
      have hn : pushed = [] := by
        cases pushed with
        | nil => rfl
        | cons head rest => cases hf
      subst hn
      rw [hf] at h
      subst h
      exact ⟨rfl, by simp [openGroup], last, by simp, rfl, rfl⟩
    | some old =>
      rw [hf] at h
      obtain ⟨hen, hm, first, hfi, ho, hu⟩ := ih hf
      subst h
      refine ⟨?_, ?_, first, List.mem_append_left _ hfi, ho, hu⟩
      · rw [List.map_append, ← hen]
        rfl
      · rw [List.flatMap_append, ← hm]
        simp [joinGroup]

theorem members_batchPairs (key : MessageBatchKey) (entries : List BatchEntry) :
    (Grouping.members key (batchPairs codec entries)).map (·.1) =
      entries.filter fun entry => batchKey codec entry = some key := by
  induction entries using List.reverseRecOn with
  | nil => rfl
  | append_singleton entries entry ih =>
    rw [batchPairs_concat, List.filter_append, ← ih]
    cases h : batchRequest codec entry with
    | none => simp [batchKey, h]
    | some pair =>
      rw [Option.map_some, Option.toList_some]
      by_cases hk : pair.1 = key
      · subst hk
        rw [Grouping.members_concat_self]
        simp [batchKey, h]
      · rw [Grouping.members_concat_of_ne hk]
        simp [batchKey, h, hk]

theorem mem_members_batchPairs {pushed : BatchEntry × PushMessageRequest Options}
    (h : pushed ∈ Grouping.members key (batchPairs codec entries)) :
    batchRequest codec pushed.1 = some (key, pushed.2) := by
  obtain ⟨entry, _, hen⟩ := List.mem_filterMap.mp (Grouping.mem_members.mp h)
  obtain ⟨pair, hpa, hp⟩ := Option.map_eq_some_iff.mp hen
  cases hp
  exact hpa

-- A group is made of the entries with its key, in their order. Its request carries their messages
-- to the users of the key.
theorem group_spec (h : (key, group) ∈ messageGroups codec entries) :
    group.entries = entries.filter (fun entry => batchKey codec entry = some key) ∧
      group.request.messages = group.entries.flatMap (carried codec) ∧
      group.request.userIds = key.userIds := by
  have hfi := (Grouping.mem_collect openGroup joinGroup).mp h
  obtain ⟨hen, hm, first, hf, _, hu⟩ := fill_spec hfi
  refine ⟨by rw [hen, members_batchPairs], ?_, ?_⟩
  · rw [hm, hen, List.flatMap_map]
    refine List.flatMap_congr fun pushed hp => ?_
    exact (batchRequest_spec (mem_members_batchPairs hp)).2.2.2.2
  · rw [hu]
    exact (batchRequest_spec (mem_members_batchPairs hf)).2.2.2.1

theorem mem_group_entries (h : (key, group) ∈ messageGroups codec entries) :
    entry ∈ group.entries ↔ entry ∈ entries ∧ batchKey codec entry = some key := by
  rw [(group_spec h).1, List.mem_filter, decide_eq_true_iff]

theorem exists_group (hm : entry ∈ entries) (hk : batchKey codec entry = some key) :
    ∃ group, (key, group) ∈ messageGroups codec entries := by
  obtain ⟨request, hr⟩ := batchKey_eq_some.mp hk
  have hp : (entry, request) ∈ Grouping.members key (batchPairs codec entries) := by
    rw [Grouping.mem_members]
    exact List.mem_filterMap.mpr ⟨entry, hm, by rw [hr]; rfl⟩
  cases hme : Grouping.members key (batchPairs codec entries) with
  | nil =>
    rw [hme] at hp
    cases hp
  | cons first rest =>
    refine ⟨rest.foldl joinGroup (openGroup first), ?_⟩
    rw [messageGroups, Grouping.mem_collect, hme]
    rfl

theorem mem_groupedIndices {index : Nat} :
    index ∈ groupedIndices codec entries ↔
      ∃ entry ∈ entries, (batchKey codec entry).isSome ∧ entry.index = index := by
  simp only [groupedIndices, List.mem_map, List.mem_filter]
  constructor
  · rintro ⟨entry, ⟨hm, hk⟩, rfl⟩
    exact ⟨entry, hm, hk, rfl⟩
  · rintro ⟨entry, hm, hk, rfl⟩
    exact ⟨entry, ⟨hm, hk⟩, rfl⟩

theorem nodup_group_entries (hn : entries.Nodup) :
    (((messageGroups codec entries).map (·.2)).flatMap (·.entries)).Nodup := by
  rw [List.nodup_flatMap, List.pairwise_map]
  constructor
  · intro group hg
    obtain ⟨⟨key, _⟩, hm, rfl⟩ := List.mem_map.mp hg
    rw [(group_spec hm).1]
    exact hn.filter _
  · have hke := Grouping.nodup_collect openGroup joinGroup (batchPairs codec entries)
    refine (List.pairwise_map.mp hke).imp_of_mem ?_
    rintro ⟨key, group⟩ ⟨key', group'⟩ hm hm' hne entry hen hen'
    have hk := ((mem_group_entries hm).mp hen).2
    have hk' := ((mem_group_entries hm').mp hen').2
    exact hne (Option.some.inj (hk.symm.trans hk'))

end Groups

end FlareIm.OnlinePush
