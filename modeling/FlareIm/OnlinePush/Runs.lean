import FlareIm.Lib.Listing
import FlareIm.OnlinePush.Groups

namespace FlareIm.OnlinePush

open Context

variable {Options Request : Type} {codec : Codec Options Request}
  {isRetryable : FlareError → Bool}

section Verdicts

variable (codec isRetryable)

-- A push whose failure no redelivery mends.
def RefusedForGood (result : Except FlareError Unit) : Prop :=
  ∃ e, result = .error e ∧ isRetryable e = false

variable (answers : Nat → Answers Options Request)

def Unpublished (entry : BatchEntry) : Prop :=
  ∃ dlqErr, (answers entry.index).publish (dlqRecord entry.message entry.envelope) = .error dlqErr

-- A push that is refused for good while the dead-letter queue does not take the payload.
def EntryLost (entry : BatchEntry) : Prop :=
  RefusedForGood isRetryable (routeByPayloadKind codec (answers entry.index) entry.message.ctx
    entry.envelope entry.envelope.userId .allDevices) ∧ Unpublished answers entry

def GroupLost (group : MessageBatchGroup Options) : Prop :=
  RefusedForGood isRetryable ((answers group.first.index).push (groupCall group)) ∧
    ∃ entry ∈ group.entries, Unpublished answers entry

variable {codec isRetryable answers} {entry : BatchEntry} {group : MessageBatchGroup Options}

theorem applyRouteResult_error {answer : Except FlareError Unit} :
    (∃ e, (applyRouteResult isRetryable (answers entry.index) entry.message entry.envelope
        answer).2 = .error e) ↔ RefusedForGood isRetryable answer ∧ Unpublished answers entry := by
  unfold RefusedForGood Unpublished applyRouteResult
  cases answer with
  | ok done => simp
  | error e =>
    cases hr : isRetryable e with
    | true => simp [hr]
    | false =>
      cases hp : (answers entry.index).publish
          (dlqRecord entry.message entry.envelope) with
      | ok done | error dlqErr => simp [hr]

theorem dispatchEntry_error :
    (∃ e, (dispatchEntry codec isRetryable answers entry).verdict = .error e) ↔
      EntryLost codec isRetryable answers entry :=
  applyRouteResult_error

theorem publishEntries_error {entries : List BatchEntry} :
    (∃ e, (publishEntries answers entries).2 = .error e) ↔
      ∃ entry ∈ entries, Unpublished answers entry := by
  induction entries with
  | nil => simp [publishEntries]
  | cons entry rest ih =>
    unfold publishEntries
    cases hp : (answers entry.index).publish
        (dlqRecord entry.message entry.envelope) with
    | error dlqErr => simp [Unpublished, hp]
    | ok done =>
      simp only [ih, List.mem_cons, exists_eq_or_imp]
      simp [Unpublished, hp]

theorem dispatchGroup_error : (∃ e, (dispatchGroup isRetryable answers group).verdict = .error e) ↔
      GroupLost isRetryable answers group := by
  unfold GroupLost RefusedForGood dispatchGroup applyGroupRouteResult
  cases (answers group.first.index).push (groupCall group) with
  | ok done => simp
  | error e =>
    cases hr : isRetryable e with
    | true => simp [hr]
    | false => simp [hr, publishEntries_error]

-- An entry is acknowledged for its push or for its place on the dead-letter queue.
def Accounted (done : Dispatched Options Request) : Prop :=
  done.verdict = .ok .ack → done.answer = .ok () ∨
    ∀ entry ∈ done.entries, dlqRecord entry.message entry.envelope ∈ done.published

theorem accounted_dispatchEntry : Accounted (dispatchEntry codec isRetryable answers entry) := by
  unfold Accounted dispatchEntry applyRouteResult
  cases routeByPayloadKind codec (answers entry.index) entry.message.ctx entry.envelope
      entry.envelope.userId .allDevices with
  | ok done => simp
  | error e =>
    cases hr : isRetryable e with
    | true => simp [hr]
    | false =>
      cases hp : (answers entry.index).publish
          (dlqRecord entry.message entry.envelope) with
      | ok done | error dlqErr => simp [hr]

theorem publishEntries_ok {entries : List BatchEntry} {verdict : MessageResult}
    (h : (publishEntries answers entries).2 = .ok verdict) : ∀ entry ∈ entries,
      dlqRecord entry.message entry.envelope ∈ (publishEntries answers entries).1 := by
  induction entries with
  | nil => simp
  | cons entry rest ih =>
    unfold publishEntries at h ⊢
    split at h
    · cases h
    · intro other ho
      rcases List.mem_cons.mp ho with rfl | ho
      · exact List.mem_cons_self
      · exact List.mem_cons_of_mem _ (ih h other ho)

theorem accounted_dispatchGroup : Accounted (dispatchGroup isRetryable answers group) := by
  intro ha
  unfold dispatchGroup applyGroupRouteResult at ha ⊢
  cases hp : (answers group.first.index).push (groupCall group) with
  | ok done => exact Or.inl rfl
  | error e =>
    right
    simp only [hp] at ha ⊢
    cases hr : isRetryable e with
    | true => simp [hr] at ha
    | false =>
      simp only [hr, Bool.false_eq_true, if_false] at ha ⊢
      exact publishEntries_ok ha

end Verdicts

section Settle

variable {results settled : List MessageResult} {done : List (Dispatched Options Request)}

theorem getElem?_setResults {entries : List BatchEntry} {verdict result : MessageResult} {i : Nat}
    (h : (setResults results entries verdict)[i]? = some result) :
    results[i]? = some result ∨ result = verdict ∧ ∃ entry ∈ entries, entry.index = i := by
  unfold setResults at h
  induction entries generalizing results with
  | nil => exact Or.inl h
  | cons entry rest ih =>
    rw [List.foldl_cons] at h
    rcases ih h with hset | ⟨hv, other, ho, hin⟩
    · rw [List.getElem?_set] at hset
      split at hset
      · rename_i hin
        right
        split at hset
        · exact ⟨(Option.some.inj hset).symm, entry, List.mem_cons_self, hin⟩
        · cases hset
      · exact Or.inl hset
    · exact Or.inr ⟨hv, other, List.mem_cons_of_mem _ ho, hin⟩

theorem getElem?_settle (h : settle results done = .ok settled) {result : MessageResult} {i : Nat}
    (hr : settled[i]? = some result) : results[i]? = some result ∨
      ∃ push ∈ done, push.verdict = .ok result ∧ ∃ entry ∈ push.entries, entry.index = i := by
  induction done generalizing results with
  | nil =>
    cases h
    exact Or.inl hr
  | cons push rest ih =>
    rw [settle] at h
    split at h
    · cases h
    · rename_i verdict hv
      rcases ih h with hset | ⟨other, ho, hre⟩
      · rcases getElem?_setResults hset with hold | ⟨rfl, hen⟩
        · exact Or.inl hold
        · exact Or.inr ⟨push, List.mem_cons_self, hv, hen⟩
      · exact Or.inr ⟨other, List.mem_cons_of_mem _ ho, hre⟩

theorem settle_error :
    (∃ e, settle results done = .error e) ↔ ∃ push ∈ done, ∃ e, push.verdict = .error e := by
  induction done generalizing results with
  | nil => simp [settle]
  | cons push rest ih =>
    rw [settle]
    cases hv : push.verdict with
    | error e => simp [hv]
    | ok verdict => simp [hv, ih]

end Settle

section Remaining

variable {answers : Nat → Answers Options Request} {results settled : List MessageResult}
  {remaining : List BatchEntry}

def stops (codec : Codec Options Request) (isRetryable : FlareError → Bool)
    (answers : Nat → Answers Options Request) (entry : BatchEntry) : Bool :=
  !(dispatchEntry codec isRetryable answers entry).verdict.isOk

theorem stops_eq_false {entry : BatchEntry} :
    stops codec isRetryable answers entry = false ↔ ¬EntryLost codec isRetryable answers entry := by
  rw [← dispatchEntry_error, stops]
  cases (dispatchEntry codec isRetryable answers entry).verdict <;>
    simp [Except.isOk, Except.toBool]

theorem routeRemaining_dispatched : (routeRemaining codec isRetryable answers results remaining).1 =
      (Listing.upTo (stops codec isRetryable answers) remaining).map
        (dispatchEntry codec isRetryable answers) := by
  induction remaining generalizing results with
  | nil => rfl
  | cons entry rest ih =>
    rw [routeRemaining, Listing.upTo]
    cases hv : (dispatchEntry codec isRetryable answers entry).verdict with
    | error e => simp [stops, hv, Except.isOk, Except.toBool]
    | ok verdict => simp [stops, hv, Except.isOk, Except.toBool, ih]

theorem getElem?_routeRemaining
    (h : (routeRemaining codec isRetryable answers results remaining).2 = .ok settled)
    {result : MessageResult} {i : Nat} (hr : settled[i]? = some result) :
    results[i]? = some result ∨
      ∃ push ∈ (routeRemaining codec isRetryable answers results remaining).1,
        push.verdict = .ok result ∧ ∃ entry ∈ push.entries, entry.index = i := by
  induction remaining generalizing results with
  | nil =>
    cases h
    exact Or.inl hr
  | cons entry rest ih =>
    rw [routeRemaining] at h ⊢
    cases hv : (dispatchEntry codec isRetryable answers entry).verdict with
    | error e => simp [hv] at h
    | ok verdict =>
      simp only [hv] at h ⊢
      rcases ih h with hset | ⟨other, ho, hre⟩
      · rw [List.getElem?_set] at hset
        split at hset
        · rename_i hin
          split at hset
          · cases hset
            exact Or.inr ⟨_, List.mem_cons_self, hv, entry, List.mem_singleton.mpr rfl, hin⟩
          · cases hset
        · exact Or.inl hset
      · exact Or.inr ⟨other, List.mem_cons_of_mem _ ho, hre⟩

end Remaining

section Batch

variable (codec isRetryable)
variable (answers : Nat → Answers Options Request)

def GroupsKept (entries : List BatchEntry) : Prop :=
  ∀ key group, (key, group) ∈ messageGroups codec entries → ¬GroupLost isRetryable answers group

def AcksKept (entries : List BatchEntry) : Prop :=
  ∀ entry ∈ entries, batchKey codec entry = none → payloadKind codec entry.envelope = .ack →
    ¬EntryLost codec isRetryable answers entry

-- Nothing that a batch pushes before an entry of no group, which is no ack, ends the batch.
structure Reached (entries : List BatchEntry) (entry : BatchEntry) : Prop where
  groups : GroupsKept codec isRetryable answers entries
  acks : AcksKept codec isRetryable answers entries
  earlier : ∀ other ∈ entries, batchKey codec other = none →
    payloadKind codec other.envelope ≠ .ack → other.index < entry.index →
      ¬EntryLost codec isRetryable answers other

def groupsDone (schedule : Schedule Options Request) (entries : List BatchEntry) :
    List (Dispatched Options Request) :=
  (schedule.groups.arrange ((messageGroups codec entries).map (·.2))).map
    (dispatchGroup isRetryable answers)

-- The entries of no group that a run pushes, one at a time.
structure Alone (entries alone : List BatchEntry) : Prop where
  nodup : alone.Nodup
  ungrouped : ∀ entry ∈ alone, entry ∈ entries ∧ batchKey codec entry = none
  reached : ∀ entry ∈ entries, batchKey codec entry = none →
    payloadKind codec entry.envelope ≠ .ack →
      (entry ∈ alone ↔ Reached codec isRetryable answers entries entry)
  inOrder : ∀ entry ∈ alone, ∀ other ∈ alone, payloadKind codec entry.envelope ≠ .ack →
    payloadKind codec other.envelope ≠ .ack → entry.index < other.index →
      [entry, other].Sublist alone

variable {codec isRetryable answers} {schedule : Schedule Options Request}
  {entries : List BatchEntry} {entry : BatchEntry}

theorem mem_groupedIndices_index
    (ha : entries.Pairwise fun entry other => entry.index < other.index) (hm : entry ∈ entries) :
    entry.index ∈ groupedIndices codec entries ↔ (batchKey codec entry).isSome := by
  rw [mem_groupedIndices]
  constructor
  · rintro ⟨other, ho, hk, hin⟩
    obtain rfl := Listing.eq_of_number_eq ha ho hm hin
    exact hk
  · intro hk
    exact ⟨entry, hm, hk, rfl⟩

theorem mem_ackEntries (ha : entries.Pairwise fun entry other => entry.index < other.index) :
    entry ∈ ackEntries codec (groupedIndices codec entries) entries ↔
      entry ∈ entries ∧ batchKey codec entry = none ∧ payloadKind codec entry.envelope = .ack := by
  rw [ackEntries, List.mem_filter, decide_eq_true_iff]
  constructor
  · rintro ⟨hm, hn, hki⟩
    rw [mem_groupedIndices_index ha hm, Option.not_isSome_iff_eq_none] at hn
    exact ⟨hm, hn, hki⟩
  · rintro ⟨hm, hk, hki⟩
    refine ⟨hm, ?_, hki⟩
    rw [mem_groupedIndices_index ha hm, hk]
    simp

-- What is left when the acks are done.
def leftEntries (codec : Codec Options Request) (entries : List BatchEntry) : List BatchEntry :=
  entries.filter fun entry =>
    batchKey codec entry = none ∧ payloadKind codec entry.envelope ≠ .ack

theorem mem_leftEntries :
    entry ∈ leftEntries codec entries ↔
      entry ∈ entries ∧ batchKey codec entry = none ∧ payloadKind codec entry.envelope ≠ .ack := by
  rw [leftEntries, List.mem_filter, decide_eq_true_iff]

def acksDone (codec : Codec Options Request) (isRetryable : FlareError → Bool)
    (answers : Nat → Answers Options Request) (schedule : Schedule Options Request)
    (entries : List BatchEntry) : List (Dispatched Options Request) :=
  (schedule.acks.arrange (ackEntries codec (groupedIndices codec entries) entries)).map
    (dispatchEntry codec isRetryable answers)

theorem flatMap_dispatchEntry (list : List BatchEntry) :
    (list.map (dispatchEntry codec isRetryable answers)).flatMap (·.entries) = list := by
  rw [List.flatMap_map]
  exact List.flatMap_pure_eq_map id list |>.trans (List.map_id list)

theorem remainingEntries_eq (ha : entries.Pairwise fun entry other => entry.index < other.index) :
    remainingEntries (groupedIndices codec entries)
      (acksDone codec isRetryable answers schedule entries) entries =
        leftEntries codec entries := by
  unfold remainingEntries leftEntries acksDone
  rw [flatMap_dispatchEntry]
  refine List.filter_congr fun entry hm => ?_
  have hak : entry.index ∈ (schedule.acks.arrange
      (ackEntries codec (groupedIndices codec entries) entries)).map (·.index) ↔
      batchKey codec entry = none ∧ payloadKind codec entry.envelope = .ack := by
    rw [List.mem_map]
    constructor
    · rintro ⟨other, ho, hin⟩
      have hac := (mem_ackEntries ha).mp ((schedule.acks.perm _).mem_iff.mp ho)
      obtain rfl := Listing.eq_of_number_eq ha hac.1 hm hin
      exact hac.2
    · intro hac
      exact ⟨entry, (schedule.acks.perm _).mem_iff.mpr ((mem_ackEntries ha).mpr ⟨hm, hac⟩), rfl⟩
  rw [decide_eq_decide, hak, mem_groupedIndices_index ha hm, Option.not_isSome_iff_eq_none]
  constructor
  · rintro ⟨hk, hn⟩
    exact ⟨hk, fun hki => hn ⟨hk, hki⟩⟩
  · rintro ⟨hk, hki⟩
    exact ⟨hk, fun hac => hki hac.2⟩

theorem settle_groups_error {results : List MessageResult} :
    (∃ e, settle results (schedule.finished.arrange
        (groupsDone codec isRetryable answers schedule entries)) = .error e) ↔
      ¬GroupsKept codec isRetryable answers entries := by
  rw [settle_error, GroupsKept]
  push Not
  constructor
  · rintro ⟨push, hp, hf⟩
    obtain ⟨group, hg, rfl⟩ := List.mem_map.mp ((schedule.finished.perm _).mem_iff.mp hp)
    obtain ⟨⟨key, _⟩, hm, rfl⟩ :=
      List.mem_map.mp ((schedule.groups.perm _).mem_iff.mp hg)
    exact ⟨key, _, hm, dispatchGroup_error.mp hf⟩
  · rintro ⟨key, group, hm, hl⟩
    refine ⟨dispatchGroup isRetryable answers group, ?_, dispatchGroup_error.mpr hl⟩
    rw [(schedule.finished.perm _).mem_iff]
    refine List.mem_map_of_mem ((schedule.groups.perm _).mem_iff.mpr ?_)
    exact List.mem_map.mpr ⟨(key, group), hm, rfl⟩

theorem settle_acks_error (ha : entries.Pairwise fun entry other => entry.index < other.index)
    {results : List MessageResult} :
    (∃ e, settle results (schedule.finished.arrange
        (acksDone codec isRetryable answers schedule entries)) = .error e) ↔
      ¬AcksKept codec isRetryable answers entries := by
  rw [settle_error, AcksKept]
  push Not
  constructor
  · rintro ⟨push, hp, hf⟩
    obtain ⟨entry, hen, rfl⟩ := List.mem_map.mp ((schedule.finished.perm _).mem_iff.mp hp)
    obtain ⟨hm, hk, hki⟩ :=
      (mem_ackEntries ha).mp ((schedule.acks.perm _).mem_iff.mp hen)
    exact ⟨entry, hm, hk, hki, dispatchEntry_error.mp hf⟩
  · rintro ⟨entry, hm, hk, hki, hl⟩
    refine ⟨dispatchEntry codec isRetryable answers entry, ?_, dispatchEntry_error.mpr hl⟩
    rw [(schedule.finished.perm _).mem_iff]
    refine List.mem_map_of_mem ((schedule.acks.perm _).mem_iff.mpr ?_)
    exact (mem_ackEntries ha).mpr ⟨hm, hk, hki⟩

theorem alone_nil (h : ¬GroupsKept codec isRetryable answers entries) :
    Alone codec isRetryable answers entries [] where
  nodup := List.nodup_nil
  ungrouped _ hm := absurd hm List.not_mem_nil
  reached _ _ _ _ :=
    ⟨fun hm => absurd hm List.not_mem_nil, fun hr => absurd hr.groups h⟩
  inOrder _ hm := absurd hm List.not_mem_nil

theorem alone_append (ha : entries.Pairwise fun entry other => entry.index < other.index)
    {acks left : List BatchEntry}
    (hak : acks.Perm (ackEntries codec (groupedIndices codec entries) entries))
    (hl : left.Sublist (leftEntries codec entries))
    (hre : ∀ entry ∈ leftEntries codec entries,
      (entry ∈ left ↔ Reached codec isRetryable answers entries entry)) :
    Alone codec isRetryable answers entries (acks ++ left) := by
  have hac : ∀ entry ∈ acks, entry ∈ entries ∧ batchKey codec entry = none ∧
      payloadKind codec entry.envelope = .ack :=
    fun entry hm => (mem_ackEntries ha).mp (hak.mem_iff.mp hm)
  have hr : ∀ entry ∈ left, entry ∈ entries ∧ batchKey codec entry = none ∧
      payloadKind codec entry.envelope ≠ .ack :=
    fun entry hm => mem_leftEntries.mp (hl.subset hm)
  have hno : entries.Nodup := ha.imp fun hlt heq => hlt.ne (congrArg _ heq)
  have hn : ∀ entry ∈ acks ++ left, payloadKind codec entry.envelope ≠ .ack →
      entry ∈ left := by
    intro entry hm hki
    rcases List.mem_append.mp hm with hm | hm
    · exact absurd (hac entry hm).2.2 hki
    · exact hm
  refine ⟨?_, ?_, ?_, ?_⟩
  · refine List.nodup_append.mpr ⟨hak.nodup_iff.mpr (hno.filter _), (hno.filter _).sublist hl, ?_⟩
    rintro entry hm other ho rfl
    exact (hr entry ho).2.2 (hac entry hm).2.2
  · intro entry hm
    rcases List.mem_append.mp hm with hm | hm
    · exact ⟨(hac entry hm).1, (hac entry hm).2.1⟩
    · exact ⟨(hr entry hm).1, (hr entry hm).2.1⟩
  · intro entry hm hk hki
    rw [← hre entry (mem_leftEntries.mpr ⟨hm, hk, hki⟩)]
    exact ⟨fun hin => hn entry hin hki, List.mem_append_right _⟩
  · intro entry hm other ho hki hki' hlt
    have hs := (ha.sublist List.filter_sublist).sublist hl
    have hp := Listing.pair_sublist_of_lt hs (hn entry hm hki) (hn other ho hki') hlt
    exact hp.trans (List.sublist_append_right acks left)

variable (codec isRetryable answers schedule) in
-- What a run pushes: every group, then entries of no group.
theorem handleEntries_dispatched
    (ha : entries.Pairwise fun entry other => entry.index < other.index) :
    ∃ alone, Alone codec isRetryable answers entries alone ∧
      (handleEntries codec isRetryable answers schedule entries).dispatched =
        groupsDone codec isRetryable answers schedule entries ++
          alone.map (dispatchEntry codec isRetryable answers) := by
  unfold handleEntries
  rw [buildMessageGroups_eq]
  simp only
  rw [← groupsDone, ← acksDone]
  split
  · rename_i e hg
    exact ⟨[], alone_nil (settle_groups_error.mp ⟨e, hg⟩), by simp⟩
  · rename_i results hg
    have hke : GroupsKept codec isRetryable answers entries := by
      by_contra hl
      obtain ⟨e, he⟩ := settle_groups_error.mpr hl
      rw [hg] at he
      cases he
    split
    · rename_i e hac
      have hl := (settle_acks_error ha).mp ⟨e, hac⟩
      refine ⟨_, alone_append ha (schedule.acks.perm _) (List.nil_sublist _) ?_, ?_⟩
      · intro entry _
        exact ⟨fun hm => absurd hm List.not_mem_nil, fun h => absurd h.acks hl⟩
      · rw [List.append_nil]
        rfl
    · rename_i results' hac
      have hak : AcksKept codec isRetryable answers entries := by
        by_contra hl
        obtain ⟨e, he⟩ := (settle_acks_error ha).mpr hl
        rw [hac] at he
        cases he
      refine ⟨_, alone_append ha (schedule.acks.perm _)
        (Listing.upTo_initial (stops codec isRetryable answers)).sublist ?_, ?_⟩
      · intro entry hm
        have hs : (leftEntries codec entries).Pairwise fun entry other =>
            entry.index < other.index := ha.sublist List.filter_sublist
        rw [Listing.mem_upTo hs]
        constructor
        · rintro ⟨_, hf⟩
          refine ⟨hke, hak, fun other ho hk hki hlt => ?_⟩
          exact stops_eq_false.mp (hf other (mem_leftEntries.mpr ⟨ho, hk, hki⟩) hlt)
        · intro hr
          refine ⟨hm, fun other ho hlt => stops_eq_false.mpr ?_⟩
          obtain ⟨ho, hk, hki⟩ := mem_leftEntries.mp ho
          exact hr.earlier other ho hk hki hlt
      · simp only [routeRemaining_dispatched, remainingEntries_eq ha]
        rw [List.map_append, List.append_assoc]
        rfl

theorem handleEntries_acked {settled : List MessageResult} {i : Nat}
    (h : (handleEntries codec isRetryable answers schedule entries).outcome = .ok settled)
    (hac : settled[i]? = some .ack) :
    ∃ push ∈ (handleEntries codec isRetryable answers schedule entries).dispatched,
      push.verdict = .ok .ack ∧ ∃ entry ∈ push.entries, entry.index = i := by
  unfold handleEntries at h ⊢
  simp only at h ⊢
  split at h
  · cases h
  · rename_i results hg
    split at h
    · cases h
    · rename_i results' ha
      rcases getElem?_routeRemaining h hac with hset | ⟨push, hp, hr⟩
      · rcases getElem?_settle ha hset with hset | ⟨push, hp, hr⟩
        · rcases getElem?_settle hg hset with hset | ⟨push, hp, hr⟩
          · rw [List.getElem?_replicate] at hset
            split at hset <;> cases hset
          · have hp := (schedule.finished.perm _).mem_iff.mp hp
            exact ⟨push, List.mem_append_left _ (List.mem_append_left _ hp), hr⟩
        · have hp := (schedule.finished.perm _).mem_iff.mp hp
          exact ⟨push, List.mem_append_left _ (List.mem_append_right _ hp), hr⟩
      · exact ⟨push, List.mem_append_right _ hp, hr⟩

end Batch

end FlareIm.OnlinePush
