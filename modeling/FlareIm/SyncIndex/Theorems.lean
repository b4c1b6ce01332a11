import FlareIm.SyncIndex
import Mathlib.Order.Bounds.Basic

namespace FlareIm.SyncIndex

open Text Context Keyed Transition

variable {index next a b : Index} {key conversationId : String} {version seq : Nat}
  {fields : ConversationState} {value : Value}

-- What can happen to the index: the two calls, first hand or as compensation replays,
-- each cut off anywhere, and a key with a time to live running out.
inductive Action where
  | bump (tenantId : Option String) (conversationId : String) (maxConversationSeq : Nat)
      (occurredAtMs : Int) (reach : Reach)
  | change (tenantId : Option String) (userIds : List String) (conversationId : String)
      (maxConversationSeq : Nat) (occurredAtMs : Int) (delivered : Option Nat)
  | expire (key : String)

def step (config : Config) (index : Index) : Action → Option Index
  | .bump tenantId conversationId seq at_ reach =>
    some (recordConversationVersionBump config index tenantId conversationId seq at_ reach).1
  | .change tenantId userIds conversationId seq at_ delivered =>
    some (recordConversationChange config index tenantId userIds conversationId seq at_
      delivered).1
  | .expire key =>
    match index.db key with
    | some ⟨_, true⟩ => some { index with db := remove index.db key }
    | _ => none

-- The keys of the per-conversation version and state.
def isConversationKey (key : String) : Prop :=
  "sync:conversation:".toList <+: key.toList

instance (key : String) : Decidable (isConversationKey key) :=
  inferInstanceAs (Decidable ("sync:conversation:".toList <+: key.toList))

-- No write recorded under the key so far is above `seq`.
def inOrder (index : Index) (key : String) (seq : Nat) : Prop :=
  ∀ entry ∈ index.journal, entry.key = key → entry.fields.maxConversationSeq ≤ seq

instance (index : Index) (key : String) (seq : Nat) : Decidable (inOrder index key seq) :=
  inferInstanceAs (Decidable (∀ entry ∈ index.journal, _))

-- No other conversation was recorded under the key so far.
def ownKey (index : Index) (key conversationId : String) : Prop :=
  ∀ entry ∈ index.journal, entry.key = key → entry.fields.conversationId = conversationId

instance (index : Index) (key conversationId : String) : Decidable (ownKey index key conversationId) :=
  inferInstanceAs (Decidable (∀ entry ∈ index.journal, _))

-- The steps under which the index keeps its promises: conversation keys do not run out, and
-- what is recorded for a conversation is never below what was recorded for it before.
def keepsOrder (index : Index) : Action → Prop
  | .bump tenantId conversationId seq _ _ =>
    ∀ tenant ∈ normalizeOptionalTenantId tenantId,
      inOrder index (conversationSyncStateKey tenant (trim conversationId)) seq ∧
        ownKey index (conversationSyncStateKey tenant (trim conversationId)) (trim conversationId)
  | .change tenantId userIds conversationId seq _ _ =>
    ∀ tenant ∈ normalizeOptionalTenantId tenantId, ∀ user ∈ normalizedUserIds userIds,
      inOrder index (conversationStateKey tenant user (trim conversationId)) seq
  | .expire key => ¬ isConversationKey key

instance (index : Index) (action : Action) : Decidable (keepsOrder index action) := by
  cases action <;> unfold keepsOrder <;> infer_instance

def counterAt (index : Index) (key : String) : Nat :=
  match valueAt index.db key with
  | some (.counter n) => n
  | _ => 0

-- Keys

theorem isConversationKey_version (tenantId conversationId : String) :
    isConversationKey (conversationVersionKey tenantId conversationId) := by
  unfold isConversationKey conversationVersionKey
  rw [String.toList_append, String.toList_append, List.append_assoc]
  exact List.prefix_append _ _

theorem isConversationKey_state (tenantId conversationId : String) :
    isConversationKey (conversationSyncStateKey tenantId conversationId) := by
  unfold isConversationKey conversationSyncStateKey
  rw [String.toList_append, String.toList_append, List.append_assoc]
  exact List.prefix_append _ _

private theorem not_isConversationKey_user (rest : String) :
    ¬ isConversationKey ("sync:user:" ++ rest) := by
  rintro ⟨tail, ht⟩
  -- the sixth characters differ
  have hc := congrArg (fun chars => chars[5]?) ht
  rw [String.toList_append, List.getElem?_append_left (by decide), List.getElem?_append_left (by decide)] at hc
  exact absurd hc (by decide)

theorem versionKey_not_conversation (tenantId userId : String) :
    ¬ isConversationKey (versionKey tenantId userId) :=
  not_isConversationKey_user _

theorem changesKey_not_conversation (tenantId userId : String) :
    ¬ isConversationKey (changesKey tenantId userId) :=
  not_isConversationKey_user _

theorem conversationStateKey_not_conversation (tenantId userId conversationId : String) :
    ¬ isConversationKey (conversationStateKey tenantId userId conversationId) :=
  not_isConversationKey_user _

private theorem getLast?_toList_append (first last : String) (hl : last.toList ≠ []) :
    (first ++ last).toList.getLast? = last.toList.getLast? := by
  rw [String.toList_append, List.getLast?_append, List.getLast?_eq_some_getLast hl]
  rfl

theorem versionKey_ne_stateKey (tenantId conversationId tenantId' conversationId' : String) :
    conversationVersionKey tenantId conversationId ≠
      conversationSyncStateKey tenantId' conversationId' := by
  intro h
  have hl := congrArg (fun key => key.toList.getLast?) h
  dsimp only [conversationVersionKey, conversationSyncStateKey] at hl
  rw [getLast?_toList_append _ _ (by decide), getLast?_toList_append _ _ (by decide)] at hl
  exact absurd hl (by decide)

theorem versionKey_eq_iff_stateKey_eq (tenantId conversationId tenantId' conversationId' : String) :
    conversationVersionKey tenantId conversationId =
        conversationVersionKey tenantId' conversationId' ↔
      conversationSyncStateKey tenantId conversationId =
        conversationSyncStateKey tenantId' conversationId' := by
  unfold conversationVersionKey conversationSyncStateKey
  rw [String.append_left_inj, String.append_left_inj]

-- What each command does when it does not fail

theorem incr_cases (h : incr index key = some (version, next)) : version = counterAt index key + 1 ∧
      next = { index with db := write index.db key (.counter version) } ∧
      (valueAt index.db key = none ∨ ∃ n, valueAt index.db key = some (.counter n)) := by
  unfold incr at h
  split at h
  · rename_i hv
    cases h
    exact ⟨by simp [counterAt, hv], rfl, .inl hv⟩
  · rename_i n hv
    split at h
    · cases h
      exact ⟨by simp [counterAt, hv], rfl, .inr ⟨n, hv⟩⟩
    · cases h
  · cases h

theorem zadd_cases (h : zadd index key version conversationId = some next) :
    (∃ members, next = { index with db := write index.db key (.changes members) }) ∧
      (valueAt index.db key = none ∨ ∃ members, valueAt index.db key = some (.changes members)) := by
  unfold zadd at h
  split at h
  · rename_i hv
    cases h
    exact ⟨⟨_, rfl⟩, .inl hv⟩
  · rename_i members hv
    cases h
    exact ⟨⟨_, rfl⟩, .inr ⟨members, hv⟩⟩
  · cases h

theorem hset_cases (h : hset index key fields = some next) :
    next = ⟨write index.db key (.state fields), index.journal ++ [⟨key, fields⟩]⟩ ∧
      (valueAt index.db key = none ∨ ∃ old, valueAt index.db key = some (.state old)) := by
  unfold hset at h
  split at h
  · rename_i hv
    cases h
    exact ⟨rfl, .inl hv⟩
  · rename_i old hv
    cases h
    exact ⟨rfl, .inr ⟨old, hv⟩⟩
  · cases h

-- The part of the invariant that speaks about each key alone. A stored state is the largest
-- of the journal, and only conversation keys hold a counter that may run out.
structure Recorded (index : Index) : Prop where
  stored : ∀ key fields, stateAt index key = some fields →
    (∃ entry ∈ index.journal, entry.key = key ∧ entry.fields = fields) ∧
      inOrder index key fields.maxConversationSeq
  lasting : ∀ key n, index.db key = some ⟨.counter n, true⟩ → isConversationKey key

theorem Recorded.write (h : Recorded index) (hs : ∀ fields, value ≠ .state fields)
    (hl : ∀ n, value = .counter n →
      valueAt index.db key = none ∨ ∃ m, valueAt index.db key = some (.counter m)) :
    Recorded { index with db := write index.db key value } := by
  refine ⟨?_, ?_⟩
  · intro other fields hf
    by_cases hk : other = key
    · subst hk
      simp only [stateAt, valueAt_write_self] at hf
      split at hf
      · rename_i old hold
        exact absurd (Option.some.inj hold) (hs old)
      · cases hf
    · simp only [stateAt, valueAt_write_of_ne _ _ _ _ hk] at hf
      exact h.stored other fields hf
  · intro other n ho
    by_cases hk : other = key
    · subst hk
      simp only [Keyed.write, Function.update_self, Option.some.injEq, Entry.mk.injEq] at ho
      obtain ⟨hva, hv⟩ := ho
      cases hen : index.db other with
      | none => simp [hen] at hv
      | some entry =>
        obtain ⟨old, volatile⟩ := entry
        simp only [hen] at hv
        subst hv
        rcases hl n hva with hn | ⟨m, hm⟩
        · simp [valueAt, hen] at hn
        · simp only [valueAt, hen, Option.map_some, Option.some.injEq] at hm
          exact h.lasting other m (hm ▸ hen)
    · simp only [write_of_ne _ _ _ _ hk] at ho
      exact h.lasting other n ho

theorem Recorded.incr (h : Recorded index)
    (hn : incr index key = some (version, next)) : Recorded next := by
  obtain ⟨-, rfl, hv⟩ := incr_cases hn
  exact h.write (by simp) fun _ _ => hv

theorem Recorded.zadd (h : Recorded index)
    (hn : zadd index key version conversationId = some next) : Recorded next := by
  obtain ⟨⟨members, rfl⟩, -⟩ := zadd_cases hn
  exact h.write (by simp) (by simp)

theorem Recorded.hset (h : Recorded index) (hor : inOrder index key fields.maxConversationSeq)
    (hnx : hset index key fields = some next) : Recorded next := by
  obtain ⟨rfl, -⟩ := hset_cases hnx
  refine ⟨?_, ?_⟩
  · intro other found hf
    by_cases hk : other = key
    · subst hk
      simp only [stateAt, valueAt_write_self, Option.some.injEq] at hf
      subst hf
      refine ⟨⟨⟨other, fields⟩, by simp, rfl, rfl⟩, ?_⟩
      intro entry hen ho
      rcases List.mem_append.mp hen with hold | hn
      · exact hor entry hold ho
      · rw [List.mem_singleton.mp hn]
    · simp only [stateAt, valueAt_write_of_ne _ _ _ _ hk] at hf
      obtain ⟨⟨entry, hm, hen⟩, hma⟩ := h.stored other found hf
      refine ⟨⟨entry, List.mem_append_left _ hm, hen⟩, ?_⟩
      intro entry hen ho
      rcases List.mem_append.mp hen with hold | hn
      · exact hma entry hold ho
      · rw [List.mem_singleton.mp hn] at ho
        exact absurd ho.symm hk
  · intro other n ho
    by_cases hk : other = key
    · subst hk
      simp [Keyed.write] at ho
    · exact h.lasting other n (by rw [← ho]; exact (write_of_ne _ _ _ _ hk).symm)

theorem Recorded.expire (h : Recorded index)
    (hk : ∀ n, valueAt index.db key = some (.counter n) → isConversationKey key) :
    Recorded (expire index key) := by
  refine ⟨?_, ?_⟩
  · intro other fields hf
    simp only [SyncIndex.expire, stateAt, valueAt_setVolatile] at hf
    exact h.stored other fields hf
  · intro other n ho
    by_cases heq : other = key
    · subst heq
      have hv := valueAt_setVolatile index.db other other
      simp only [SyncIndex.expire] at ho
      rw [valueAt, ho] at hv
      exact hk n hv.symm
    · simp only [SyncIndex.expire, setVolatile_of_ne _ _ _ heq] at ho
      exact h.lasting other n ho

theorem Recorded.remove (h : Recorded index) (key : String) :
    Recorded { index with db := remove index.db key } := by
  refine ⟨?_, ?_⟩
  · intro other fields hf
    by_cases heq : other = key
    · subst heq
      simp [stateAt] at hf
    · simp only [stateAt, valueAt_remove_of_ne _ _ _ heq] at hf
      exact h.stored other fields hf
  · intro other n ho
    by_cases heq : other = key
    · subst heq
      simp [Keyed.remove] at ho
    · simp only [remove_of_ne _ _ _ heq] at ho
      exact h.lasting other n ho

-- What a per-user update may do: it stays away from the conversation keys, lowers no counter
-- and only journals the sequence number it was called with.
structure UserUpdate (seq : Nat) (index next : Index) : Prop where
  frame : ∀ key, isConversationKey key → next.db key = index.db key
  counters : ∀ key, counterAt index key ≤ counterAt next key
  journal : ∃ added, next.journal = index.journal ++ added ∧
    ∀ entry ∈ added, entry.fields.maxConversationSeq = seq ∧ ¬ isConversationKey entry.key

theorem UserUpdate.refl (seq : Nat) (index : Index) : UserUpdate seq index index :=
  ⟨fun _ _ => rfl, fun _ => le_rfl, [], by simp, by simp⟩

theorem UserUpdate.trans {c : Index} (hab : UserUpdate seq a b)
    (hbc : UserUpdate seq b c) : UserUpdate seq a c := by
  obtain ⟨first, hf, hf'⟩ := hab.journal
  obtain ⟨second, hs, hs'⟩ := hbc.journal
  refine ⟨fun key hk => (hbc.frame key hk).trans (hab.frame key hk),
    fun key => (hab.counters key).trans (hbc.counters key), first ++ second, ?_, ?_⟩
  · rw [hs, hf, List.append_assoc]
  · intro entry hen
    rcases List.mem_append.mp hen with h | h
    · exact hf' entry h
    · exact hs' entry h

theorem UserUpdate.inOrder (h : UserUpdate seq index next)
    (ho : inOrder index key seq) : inOrder next key seq := by
  obtain ⟨added, ha, hs⟩ := h.journal
  intro entry hen hk
  rw [ha] at hen
  rcases List.mem_append.mp hen with hold | hn
  · exact ho entry hold hk
  · exact (hs entry hn).1.le

theorem UserUpdate.write (hk : ¬ isConversationKey key)
    (hc : ∀ n, valueAt index.db key = some (.counter n) → ∃ m, value = .counter m ∧ n ≤ m) :
    UserUpdate seq index { index with db := write index.db key value } := by
  refine ⟨?_, ?_, [], by simp, by simp⟩
  · intro other ho
    exact write_of_ne _ _ _ _ fun heq => hk (heq ▸ ho)
  · intro other
    by_cases heq : other = key
    · subst heq
      unfold counterAt
      rw [valueAt_write_self]
      split
      · rename_i n hn
        obtain ⟨m, rfl, hm⟩ := hc n hn
        exact hm
      · exact Nat.zero_le _
    · simp only [counterAt, valueAt_write_of_ne _ _ _ _ heq, le_refl]

theorem UserUpdate.incr
    (hk : ¬ isConversationKey key) (hnx : incr index key = some (version, next)) :
    UserUpdate seq index next := by
  obtain ⟨hv, rfl, -⟩ := incr_cases hnx
  refine .write hk fun n hn => ⟨version, rfl, ?_⟩
  simp only [counterAt, hn] at hv
  omega

theorem UserUpdate.zadd (hk : ¬ isConversationKey key)
    (hnx : zadd index key version conversationId = some next) : UserUpdate seq index next := by
  obtain ⟨⟨members, rfl⟩, hki⟩ := zadd_cases hnx
  refine .write hk fun n hn => ?_
  rcases hki with hno | ⟨old, hold⟩
  · simp [hn] at hno
  · simp [hn] at hold

theorem UserUpdate.expire
    (hk : ¬ isConversationKey key) : UserUpdate seq index (expire index key) := by
  refine ⟨?_, ?_, [], by simp [SyncIndex.expire], by simp⟩
  · intro other ho
    exact setVolatile_of_ne _ _ _ fun heq => hk (heq ▸ ho)
  · intro other
    simp [counterAt, SyncIndex.expire]

theorem UserUpdate.hset (hk : ¬ isConversationKey key) (hnx : hset index key fields = some next) :
    UserUpdate fields.maxConversationSeq index next := by
  obtain ⟨rfl, hv⟩ := hset_cases hnx
  have hc : ∀ n, valueAt index.db key = some (.counter n) →
      ∃ m, Value.state fields = .counter m ∧ n ≤ m := by
    intro n hn
    rcases hv with hno | ⟨old, hold⟩
    · simp [hn] at hno
    · simp [hn] at hold
  have hw : UserUpdate fields.maxConversationSeq index
      { index with db := Keyed.write index.db key (.state fields) } := .write hk hc
  exact ⟨hw.frame, hw.counters, [⟨key, fields⟩], rfl, by simp [hk]⟩

theorem trimChanges_cases (index : Index) (key : String) (maxChanges : Nat) :
    trimChanges index key maxChanges = index ∨
      ∃ members kept, valueAt index.db key = some (.changes members) ∧
        trimChanges index key maxChanges =
          { index with db := write index.db key (.changes kept) } := by
  unfold trimChanges
  split
  · rename_i members hm
    exact .inr ⟨members, _, hm, rfl⟩
  · exact .inl rfl

private theorem no_counter_write {db : Store String Value} {other : String}
    (hv : ∀ n, value ≠ .counter n) (h : other = key ∨ ∀ n, valueAt db other ≠ some (.counter n)) :
    ∀ n, valueAt (write db key value) other ≠ some (.counter n) := by
  intro n hn
  by_cases heq : other = key
  · subst heq
    rw [valueAt_write_self] at hn
    exact hv n (Option.some.inj hn)
  · rw [valueAt_write_of_ne _ _ _ _ heq] at hn
    exact h.elim heq (fun ho => ho n hn)

private theorem no_counter_zadd (hn : zadd index key version conversationId = some next) :
    ∀ n, valueAt next.db key ≠ some (.counter n) := by
  obtain ⟨⟨members, rfl⟩, -⟩ := zadd_cases hn
  simp

private theorem no_counter_hset {other : String} (hn : hset index key fields = some next)
    (h : other = key ∨ ∀ n, valueAt index.db other ≠ some (.counter n)) :
    ∀ n, valueAt next.db other ≠ some (.counter n) := by
  obtain ⟨rfl, -⟩ := hset_cases hn
  exact no_counter_write (by simp) h

-- The last part of the user script, on an index whose keys hold changes and a state.
private theorem closeChange_spec (config : Config) (seq : Nat)
    {changes state : String} (h : Recorded index)
    (hch : ¬ isConversationKey changes) (hst : ¬ isConversationKey state)
    (hc : ∀ n, valueAt index.db changes ≠ some (.counter n))
    (hs : ∀ n, valueAt index.db state ≠ some (.counter n)) :
    let trimmed :=
      if 0 < config.maxChangesPerUser then trimChanges index changes config.maxChangesPerUser
      else index
    let closed :=
      if 0 < config.changeTtlSeconds then expire (expire trimmed changes) state else trimmed
    UserUpdate seq index closed ∧ Recorded closed := by
  intro trimmed closed
  have ht : UserUpdate seq index trimmed ∧ Recorded trimmed ∧
      (∀ n, valueAt trimmed.db changes ≠ some (.counter n)) ∧
      ∀ n, valueAt trimmed.db state ≠ some (.counter n) := by
    simp only [trimmed]
    split
    · rcases trimChanges_cases index changes config.maxChangesPerUser with
        heq | ⟨members, kept, hm, heq⟩
      · rw [heq]
        exact ⟨.refl _ _, h, hc, hs⟩
      · rw [heq]
        refine ⟨.write hch fun n hn => absurd hn (hc n), h.write (by simp) (by simp), ?_, ?_⟩
        · exact no_counter_write (by simp) (.inl rfl)
        · exact no_counter_write (by simp) (.inr hs)
    · exact ⟨.refl _ _, h, hc, hs⟩
  obtain ⟨hu, hr, hc', hs'⟩ := ht
  simp only [closed]
  split
  · refine ⟨hu.trans ((UserUpdate.expire hch).trans (.expire hst)), ?_⟩
    refine (hr.expire fun n hn => absurd hn (hc' n)).expire ?_
    intro n hn
    simp only [expire, valueAt_setVolatile] at hn
    exact absurd hn (hs' n)
  · exact ⟨hu, hr⟩

theorem recordConversationChangeScript_spec (config : Config)
    (h : Recorded index) (tenantId userId conversationId : String) (seq : Nat) (at_ : Int)
    (ho : inOrder index (conversationStateKey tenantId userId conversationId) seq) :
    let next := (recordConversationChangeScript config index tenantId userId conversationId seq
      at_).1
    UserUpdate seq index next ∧ Recorded next := by
  unfold recordConversationChangeScript
  split
  · exact ⟨.refl _ _, h⟩
  rename_i version first hf
  have hup : UserUpdate seq index first := .incr (versionKey_not_conversation _ _) hf
  have hr := h.incr hf
  split
  · exact ⟨hup, hr⟩
  rename_i second hs
  have hu := hup.trans (.zadd (changesKey_not_conversation _ _) hs)
  have hre := hr.zadd hs
  split
  · exact ⟨hu, hre⟩
  rename_i third ht
  have hu3 := hu.trans (.hset (conversationStateKey_not_conversation _ _ _) ht)
  have hrc := hre.hset (hu.inOrder ho) ht
  -- the changes key holds changes, or the state if the two keys coincide
  have hch := no_counter_hset ht (.inr (no_counter_zadd hs))
  have hst := no_counter_hset ht (.inl rfl)
  have hc := closeChange_spec config seq hrc (changesKey_not_conversation tenantId userId)
    (conversationStateKey_not_conversation tenantId userId conversationId) hch hst
  exact ⟨hu3.trans hc.1, hc.2⟩

theorem recordChunk_spec (config : Config) (h : Recorded index)
    (tenantId conversationId : String) (seq : Nat) (at_ : Int) (chunk : List String)
    (hor : ∀ userId ∈ chunk,
      inOrder index (conversationStateKey tenantId userId conversationId) seq) :
    let next := (recordChunk config tenantId conversationId seq at_ index chunk).1
    UserUpdate seq index next ∧ Recorded next := by
  induction chunk generalizing index with
  | nil => exact ⟨.refl _ _, h⟩
  | cons userId rest ih =>
    obtain ⟨hup, hre⟩ := recordConversationChangeScript_spec config h tenantId userId
      conversationId seq at_ (hor userId List.mem_cons_self)
    have hr := ih hre fun other ho =>
      hup.inOrder (hor other (List.mem_cons_of_mem _ ho))
    exact ⟨hup.trans hr.1, hr.2⟩

private theorem recordChunks_cons (config : Config) (tenantId conversationId : String) (seq : Nat)
    (at_ : Int) (index : Index) (chunk : List String) (rest : List (List String))
    {delivered : Option Nat} (hc : delivered ≠ some 0) :
    recordChunks config tenantId conversationId seq at_ index (chunk :: rest) delivered =
      let done := recordChunk config tenantId conversationId seq at_ index chunk
      if done.2 then
        recordChunks config tenantId conversationId seq at_ done.1 rest (delivered.map (· - 1))
      else (done.1, false) := by
  rcases delivered with _ | _ | n
  · rfl
  · exact absurd rfl hc
  · rfl

theorem recordChunks_spec (config : Config) (h : Recorded index)
    (tenantId conversationId : String) (seq : Nat) (at_ : Int) (chunks : List (List String))
    (delivered : Option Nat) (hor : ∀ chunk ∈ chunks, ∀ userId ∈ chunk,
      inOrder index (conversationStateKey tenantId userId conversationId) seq) :
    let next := (recordChunks config tenantId conversationId seq at_ index chunks delivered).1
    UserUpdate seq index next ∧ Recorded next := by
  induction chunks generalizing index delivered with
  | nil => exact ⟨.refl _ _, h⟩
  | cons chunk rest ih =>
    by_cases hc : delivered = some 0
    · subst hc
      exact ⟨.refl _ _, h⟩
    · rw [recordChunks_cons config tenantId conversationId seq at_ index chunk rest hc]
      obtain ⟨hup, hre⟩ := recordChunk_spec config h tenantId conversationId seq at_
        chunk (hor chunk List.mem_cons_self)
      dsimp only
      split
      · have hr := ih hre (delivered.map (· - 1)) fun other ho userId hu =>
          hup.inOrder (hor other (List.mem_cons_of_mem _ ho) userId hu)
        exact ⟨hup.trans hr.1, hr.2⟩
      · exact ⟨hup, hre⟩

-- The part of the invariant about the conversation keys: the state carries the current
-- version, and what was written for a conversation is still there.
structure Tracked (index : Index) : Prop where
  counters : ∀ tenantId conversationId,
    valueAt index.db (conversationVersionKey tenantId conversationId) = none ∨
      ∃ n, valueAt index.db (conversationVersionKey tenantId conversationId) = some (.counter n)
  states : ∀ tenantId conversationId,
    valueAt index.db (conversationSyncStateKey tenantId conversationId) = none ∨
      ∃ fields, valueAt index.db (conversationSyncStateKey tenantId conversationId) =
          some (.state fields) ∧
        fields.version = counterAt index (conversationVersionKey tenantId conversationId)
  kept : ∀ entry ∈ index.journal, isConversationKey entry.key →
    ∃ fields, stateAt index entry.key = some fields ∧
      fields.conversationId = entry.fields.conversationId

structure Inv (index : Index) : Prop where
  recorded : Recorded index
  tracked : Tracked index

theorem inv_empty : Inv Index.empty := by
  refine ⟨⟨?_, ?_⟩, ⟨?_, ?_, ?_⟩⟩ <;> simp [Index.empty, stateAt, valueAt]

private theorem stateAt_congr
    (h : valueAt a.db key = valueAt b.db key) : stateAt a key = stateAt b key := by
  simp [stateAt, h]

private theorem counterAt_congr
    (h : valueAt a.db key = valueAt b.db key) : counterAt a key = counterAt b key := by
  simp [counterAt, h]

theorem Tracked.of_frame (h : Tracked index)
    (hs : ∀ key, isConversationKey key → valueAt next.db key = valueAt index.db key)
    (hj : ∀ entry ∈ next.journal, isConversationKey entry.key → entry ∈ index.journal) :
    Tracked next := by
  refine ⟨?_, ?_, ?_⟩
  · intro tenantId conversationId
    rw [hs _ (isConversationKey_version _ _)]
    exact h.counters tenantId conversationId
  · intro tenantId conversationId
    rw [hs _ (isConversationKey_state _ _),
      counterAt_congr (hs _ (isConversationKey_version tenantId conversationId))]
    exact h.states tenantId conversationId
  · intro entry hen hk
    rw [stateAt_congr (hs _ hk)]
    exact h.kept entry (hj entry hen hk) hk

theorem Tracked.userUpdate (h : Tracked index)
    (hup : UserUpdate seq index next) : Tracked next := by
  obtain ⟨added, ha, ha'⟩ := hup.journal
  refine h.of_frame (fun key hk => by simp [valueAt, hup.frame key hk]) ?_
  intro entry hen hk
  rw [ha] at hen
  rcases List.mem_append.mp hen with hold | hn
  · exact hold
  · exact absurd hk (ha' entry hn).2

-- A bump changes the two keys of its conversation and nothing else.
structure Bumped (index next : Index) (tenantId conversationId : String)
    (fields : ConversationState) : Prop where
  counter : valueAt next.db (conversationVersionKey tenantId conversationId) =
    some (.counter fields.version)
  state : valueAt next.db (conversationSyncStateKey tenantId conversationId) =
    some (.state fields)
  frame : ∀ key, key ≠ conversationVersionKey tenantId conversationId →
    key ≠ conversationSyncStateKey tenantId conversationId →
    valueAt next.db key = valueAt index.db key
  journal : next.journal =
    index.journal ++ [⟨conversationSyncStateKey tenantId conversationId, fields⟩]

theorem Tracked.bumped {tenantId : String} (h : Tracked index)
    (hb : Bumped index next tenantId conversationId fields)
    (ho : ownKey index (conversationSyncStateKey tenantId conversationId)
      fields.conversationId) : Tracked next := by
  refine ⟨?_, ?_, ?_⟩
  · intro tenant conversation
    by_cases heq : conversationVersionKey tenant conversation =
        conversationVersionKey tenantId conversationId
    · exact .inr ⟨fields.version, heq ▸ hb.counter⟩
    · rw [hb.frame _ heq (versionKey_ne_stateKey _ _ _ _)]
      exact h.counters tenant conversation
  · intro tenant conversation
    by_cases heq : conversationVersionKey tenant conversation =
        conversationVersionKey tenantId conversationId
    · have hs := (versionKey_eq_iff_stateKey_eq _ _ _ _).mp heq
      refine .inr ⟨fields, hs ▸ hb.state, ?_⟩
      simp [counterAt, heq, hb.counter]
    · have hs := mt (versionKey_eq_iff_stateKey_eq _ _ _ _).mpr heq
      rw [hb.frame _ (versionKey_ne_stateKey _ _ _ _).symm hs,
        counterAt_congr (hb.frame _ heq (versionKey_ne_stateKey _ _ _ _))]
      exact h.states tenant conversation
  · intro entry hen hk
    by_cases heq : entry.key = conversationSyncStateKey tenantId conversationId
    · refine ⟨fields, by simp [stateAt, heq, hb.state], ?_⟩
      rw [hb.journal] at hen
      rcases List.mem_append.mp hen with hold | hnw
      · exact (ho entry hold heq).symm
      · rw [List.mem_singleton.mp hnw]
    · rw [hb.journal] at hen
      rcases List.mem_append.mp hen with hold | hnw
      · obtain ⟨found, hf, hsa⟩ := h.kept entry hold hk
        -- a version key holds a counter, so the entry is not about one
        have hv : entry.key ≠ conversationVersionKey tenantId conversationId := by
          intro hke
          rw [hke, stateAt] at hf
          rcases h.counters tenantId conversationId with hno | ⟨n, hn⟩
          · simp [hno] at hf
          · simp [hn] at hf
        exact ⟨found, by rw [stateAt_congr (hb.frame _ hv heq)]; exact hf, hsa⟩
      · rw [List.mem_singleton.mp hnw] at heq
        exact absurd rfl heq

theorem recordConversationVersionBumpScript_cases (config : Config) (h : Inv index)
    (tenantId conversationId : String) (seq : Nat) (at_ : Int) :
    let result := recordConversationVersionBumpScript config index tenantId conversationId seq at_
    let version := counterAt index (conversationVersionKey tenantId conversationId) + 1
    result = (index, none) ∨
      (result.2 = some version ∧
        Bumped index result.1 tenantId conversationId ⟨conversationId, seq, version, at_⟩ ∧
        (inOrder index (conversationSyncStateKey tenantId conversationId) seq →
          Recorded result.1)) := by
  intro result version
  simp only [result, recordConversationVersionBumpScript]
  split
  · exact .inl rfl
  rename_i version' first hf
  have hr := h.recorded.incr hf
  obtain ⟨rfl, rfl, -⟩ := incr_cases hf
  -- the state key holds a state or nothing, so HSET does not fail
  have hset : ∃ second, hset ⟨write index.db (conversationVersionKey tenantId conversationId)
      (.counter version), index.journal⟩ (conversationSyncStateKey tenantId conversationId)
      ⟨conversationId, seq, version, at_⟩ = some second := by
    have hne := (versionKey_ne_stateKey tenantId conversationId tenantId conversationId).symm
    unfold SyncIndex.hset
    simp only [valueAt_write_of_ne _ _ _ _ hne]
    rcases h.tracked.states tenantId conversationId with hn | ⟨fields, hfi, -⟩
    · exact ⟨_, by rw [hn]⟩
    · exact ⟨_, by rw [hfi]⟩
  obtain ⟨second, hs⟩ := hset
  rw [hs]
  obtain ⟨hs', -⟩ := hset_cases hs
  have hne := versionKey_ne_stateKey tenantId conversationId tenantId conversationId
  have hb : Bumped index second tenantId conversationId ⟨conversationId, seq, version, at_⟩ := by
    subst hs'
    refine ⟨?_, by simp, ?_, rfl⟩
    · simp only [valueAt_write_of_ne _ _ _ _ hne, valueAt_write_self]
    · intro key hv hst
      simp only [valueAt_write_of_ne _ _ _ _ hv, valueAt_write_of_ne _ _ _ _ hst]
  refine .inr ?_
  dsimp only
  split
  · refine ⟨rfl, ⟨?_, ?_, ?_, hb.journal⟩, fun ho => ?_⟩
    · simpa [expire] using hb.counter
    · simpa [expire] using hb.state
    · simpa [expire] using hb.frame
    · refine ((hr.hset ?_ hs).expire fun _ _ => isConversationKey_version _ _).expire
        fun _ _ => isConversationKey_state _ _
      exact ho
  · refine ⟨rfl, hb, fun ho => hr.hset ?_ hs⟩
    exact ho

theorem Bumped.counters {tenantId : String} (h : Bumped index next tenantId conversationId fields)
    (hve : fields.version = counterAt index (conversationVersionKey tenantId conversationId) + 1)
    (ht : Tracked index) (key : String) : counterAt index key ≤ counterAt next key := by
  by_cases hv : key = conversationVersionKey tenantId conversationId
  · subst hv
    have hnx : counterAt next (conversationVersionKey tenantId conversationId) =
        fields.version := by simp [counterAt, h.counter]
    omega
  · by_cases hs : key = conversationSyncStateKey tenantId conversationId
    · subst hs
      have hz : counterAt index (conversationSyncStateKey tenantId conversationId) = 0 := by
        rcases ht.states tenantId conversationId with hn | ⟨old, hold, -⟩
        · simp [counterAt, hn]
        · simp [counterAt, hold]
      omega
    · exact (counterAt_congr (h.frame key hv hs)).ge

-- No counter is lowered and no journaled write is forgotten.
structure Advances (index next : Index) : Prop where
  counters : ∀ key, counterAt index key ≤ counterAt next key
  journal : index.journal ⊆ next.journal

theorem Advances.refl (index : Index) : Advances index index :=
  ⟨fun _ => le_rfl, fun _ => id⟩

theorem Advances.trans {c : Index} (hab : Advances a b) (hbc : Advances b c) :
    Advances a c :=
  ⟨fun key => (hab.counters key).trans (hbc.counters key),
    fun _ hen => hbc.journal (hab.journal hen)⟩

theorem UserUpdate.advances (h : UserUpdate seq index next) : Advances index next := by
  obtain ⟨added, ha, -⟩ := h.journal
  exact ⟨h.counters, fun entry hen => ha ▸ List.mem_append_left added hen⟩

theorem recordConversationVersionBump_cases (config : Config) (h : Inv index)
    (tenantId : Option String) (conversationId : String) (seq : Nat) (at_ : Int) (reach : Reach) :
    let next := (recordConversationVersionBump config index tenantId conversationId seq at_
      reach).1
    let answer := (recordConversationVersionBump config index tenantId conversationId seq at_
      .answered).2
    (next = index ∧ (trim conversationId ≠ "" → reach ≠ .refused → answer = none)) ∨
      ∃ tenant version, normalizeOptionalTenantId tenantId = some tenant ∧
        version = counterAt index (conversationVersionKey tenant (trim conversationId)) + 1 ∧
        Bumped index next tenant (trim conversationId) ⟨trim conversationId, seq, version, at_⟩ ∧
        (inOrder index (conversationSyncStateKey tenant (trim conversationId)) seq →
          Recorded next) := by
  intro next answer
  simp only [next, answer, recordConversationVersionBump]
  split
  · rename_i hbl
    exact .inl ⟨rfl, fun hne => absurd hbl hne⟩
  split
  · exact .inl ⟨rfl, fun _ _ => rfl⟩
  rename_i tenant ht
  have hs := recordConversationVersionBumpScript_cases config h tenant (trim conversationId)
    seq at_
  cases reach with
  | refused => exact .inl ⟨rfl, fun _ hr => absurd rfl hr⟩
  | unanswered | answered =>
    rcases hs with heq | ⟨-, hb⟩
    · exact .inl ⟨congrArg Prod.fst heq, fun _ _ => congrArg Prod.snd heq⟩
    · exact .inr ⟨tenant, _, ht, rfl, hb⟩

theorem step_bump (config : Config) (h : Inv index) (tenantId : Option String)
    (conversationId : String) (seq : Nat) (at_ : Int) (reach : Reach)
    (hok : keepsOrder index (.bump tenantId conversationId seq at_ reach)) :
    let next := (recordConversationVersionBump config index tenantId conversationId seq at_
      reach).1
    Inv next ∧ Advances index next := by
  intro next
  rcases recordConversationVersionBump_cases config h tenantId conversationId seq at_ reach with
    ⟨hs, -⟩ | ⟨tenant, version, ht, hv, hb, hr⟩
  · simp only [next, hs]
    exact ⟨h, .refl index⟩
  · obtain ⟨ho, hon⟩ := hok tenant ht
    refine ⟨⟨hr ho, h.tracked.bumped hb hon⟩,
      hb.counters hv h.tracked, ?_⟩
    intro entry hen
    rw [hb.journal]
    exact List.mem_append_left _ hen

theorem step_change (config : Config) (h : Inv index) (tenantId : Option String)
    (userIds : List String) (conversationId : String) (seq : Nat) (at_ : Int)
    (delivered : Option Nat)
    (hok : keepsOrder index (.change tenantId userIds conversationId seq at_ delivered)) :
    let next := (recordConversationChange config index tenantId userIds conversationId seq at_
      delivered).1
    Inv next ∧ Advances index next := by
  unfold recordConversationChange
  dsimp only
  split
  · exact ⟨h, .refl index⟩
  split
  · exact ⟨h, .refl index⟩
  split
  · exact ⟨h, .refl index⟩
  rename_i tenant ht
  obtain ⟨hup, hr⟩ := recordChunks_spec config h.recorded tenant (trim conversationId)
    seq at_ ((normalizedUserIds userIds).toChunks config.chunkSize) delivered
    fun chunk hc user hu => hok tenant ht user
      (Listing.mem_of_mem_toChunks hc hu)
  exact ⟨⟨hr, h.tracked.userUpdate hup⟩, hup.advances⟩

theorem step_expire (h : Inv index)
    (hk : ¬ isConversationKey key) (hv : index.db key = some ⟨value, true⟩) :
    let next : Index := { index with db := remove index.db key }
    Inv next ∧ Advances index next := by
  intro next
  refine ⟨⟨h.recorded.remove key, h.tracked.of_frame ?_ fun _ hen _ => hen⟩, ?_, fun _ => id⟩
  · intro other ho
    exact valueAt_remove_of_ne _ _ _ fun heq => hk (heq ▸ ho)
  · intro other
    by_cases heq : other = key
    · subst heq
      -- the counters that may run out are those of conversations
      have hz : counterAt index other = 0 := by
        unfold counterAt
        split
        · rename_i n hn
          simp only [valueAt, hv, Option.map_some, Option.some.injEq] at hn
          exact absurd (h.recorded.lasting other n (hn ▸ hv)) hk
        · rfl
      omega
    · simp only [next, counterAt, valueAt_remove_of_ne _ _ _ heq, le_refl]

-- One step keeps the invariant, lowers no counter and forgets no write.
theorem step_inv (config : Config) {action : Action} (h : Inv index)
    (hok : keepsOrder index action) (hs : step config index action = some next) :
    Inv next ∧ Advances index next := by
  cases action with
  | bump tenantId conversationId seq at_ reach =>
    cases hs
    exact step_bump config h tenantId conversationId seq at_ reach hok
  | change tenantId userIds conversationId seq at_ delivered =>
    cases hs
    exact step_change config h tenantId userIds conversationId seq at_ delivered hok
  | expire key =>
    simp only [step] at hs
    split at hs
    · rename_i value hv
      cases hs
      exact step_expire h hok hv
    · cases hs

theorem run_inv (config : Config) {actions : List Action} (h : Inv index)
    (hr : Run (step config) keepsOrder index actions next) : Inv next :=
  hr.preserves _ (fun _ _ _ hin hok hs => (step_inv config hin hok hs).1) h

theorem run_advances (config : Config) {actions : List Action}
    (h : Inv index) (hr : Run (step config) keepsOrder index actions next) :
    Advances index next :=
  hr.relates Advances (fun _ _ _ hin hok hs => (step_inv config hin hok hs).1)
    Advances.refl (fun _ _ _ => Advances.trans)
    (fun _ _ _ hin hok hs => (step_inv config hin hok hs).2) h

-- What a client reads as the version of a conversation, zero before the first bump.
def conversationVersion (index : Index) (tenantId conversationId : String) : Nat :=
  match stateAt index (conversationSyncStateKey tenantId conversationId) with
  | some fields => fields.version
  | none => 0

theorem Inv.conversationVersion_le (h : Inv index)
    (tenantId conversationId : String) : conversationVersion index tenantId conversationId ≤
      counterAt index (conversationVersionKey tenantId conversationId) := by
  unfold conversationVersion stateAt
  rcases h.tracked.states tenantId conversationId with hn | ⟨fields, hf, hv⟩
  · simp [hn]
  · simp [hf, hv]

-- The promises of the index over the runs whose steps meet `ok`.
structure ReportsEveryChange (config : Config) (ok : Index → Action → Prop) : Prop where
  versions : ∀ {before after : List Action} {first last : Index},
    Run (step config) ok Index.empty before first → Run (step config) ok first after last →
    ∀ tenantId id, counterAt first (versionKey tenantId id) ≤ counterAt last (versionKey tenantId id) ∧
      counterAt first (conversationVersionKey tenantId id) ≤
        counterAt last (conversationVersionKey tenantId id)
  maxima : ∀ {actions : List Action} {index : Index},
    Run (step config) ok Index.empty actions index → ∀ key fields,
    stateAt index key = some fields →
      IsGreatest {seq | ∃ entry ∈ index.journal, entry.key = key ∧
        entry.fields.maxConversationSeq = seq} fields.maxConversationSeq
  -- the client obtained its versions in `obtained` or before, and the bump in `middle` ran
  reports : ∀ (tenantId : Option String) (conversationId : String) (seq : Nat) (at_ : Int)
    (reach : Reach) (known : List (String × Nat)) {before between after : List Action}
    {obtained middle next last : Index},
    Run (step config) ok Index.empty before obtained →
    Run (step config) ok obtained between middle →
    ok middle (.bump tenantId conversationId seq at_ reach) →
    step config middle (.bump tenantId conversationId seq at_ reach) = some next →
    reach ≠ .refused →
    (recordConversationVersionBump config middle tenantId conversationId seq at_ .answered).2 ≠
      none →
    Run (step config) ok next after last →
    trim conversationId ≠ "" →
    (∃ entry ∈ known, trim entry.1 = trim conversationId) →
    (∀ entry ∈ known, trim entry.1 = trim conversationId →
      ∀ tenant ∈ normalizeOptionalTenantId tenantId,
        entry.2 ≤ conversationVersion obtained tenant (trim conversationId)) →
    ∃ changes, diffChangedConversations last tenantId known = some changes ∧
      ∃ change ∈ changes, change.conversationId = trim conversationId

theorem mem_normalizedKnownConversationVersions {known : List (String × Nat)}
    {bound : Nat} (hne : conversationId ≠ "")
    (hm : ∃ entry ∈ known, trim entry.1 = conversationId)
    (hb : ∀ entry ∈ known, trim entry.1 = conversationId → entry.2 ≤ bound) :
    ∃ version ≤ bound, (conversationId, version) ∈ normalizedKnownConversationVersions known := by
  refine ⟨((known.filter fun entry => trim entry.1 = conversationId).map (·.2)).foldl max 0,
    Listing.foldl_max_le (Nat.zero_le _) ?_, ?_⟩
  · intro n hn
    obtain ⟨entry, hen, rfl⟩ := List.mem_map.mp hn
    obtain ⟨hk, heq⟩ := List.mem_filter.mp hen
    exact hb entry hk (by simpa using heq)
  · obtain ⟨entry, hen, heq⟩ := hm
    refine List.mem_map.mpr ⟨conversationId, ?_, rfl⟩
    rw [Listing.mem_distinct, List.mem_filter]
    exact ⟨List.mem_map.mpr ⟨entry, hen, heq⟩, by simpa using hne⟩

theorem diffChangedConversations_reports {tenantId : Option String}
    {tenant : String} {known : List (String × Nat)}
    (ht : normalizeOptionalTenantId tenantId = some tenant)
    (hk : (conversationId, version) ∈ normalizedKnownConversationVersions known)
    (hs : stateAt index (conversationSyncStateKey tenant conversationId) = some fields)
    (hid : trim fields.conversationId = conversationId) (hne : conversationId ≠ "")
    (hv : version < fields.version) :
    ∃ changes, diffChangedConversations index tenantId known = some changes ∧
      ∃ change ∈ changes, change.conversationId = conversationId := by
  have hso : normalizedKnownConversationVersions known ≠ [] := List.ne_nil_of_mem hk
  simp only [diffChangedConversations, if_neg hso, ht, Option.map_some, Option.some.injEq,
    exists_eq_left']
  refine ⟨⟨conversationId, fields.version, fields.maxConversationSeq, fields.updatedAtMs⟩, ?_, rfl⟩
  refine List.mem_filterMap.mpr ⟨(conversationId, version), hk, ?_⟩
  simp only [hs, conversationChangeFromState, if_neg (Nat.not_le.mpr hv), hid, if_neg hne]

-- While conversation keys do not run out and recorded numbers do not go back, versions only
-- grow, the recorded number is the largest one, and every bump shows in the next diff.
theorem index_reports_every_change_in_order (config : Config) :
    ReportsEveryChange config keepsOrder := by
  refine ⟨?_, ?_, ?_⟩
  · intro before after first last hbefore hafter tenantId id
    have hadv := run_advances config (run_inv config inv_empty hbefore) hafter
    exact ⟨hadv.counters _, hadv.counters _⟩
  · intro actions index hrun key fields hfields
    obtain ⟨⟨entry, hentry, hkey, hsame⟩, horder⟩ :=
      (run_inv config inv_empty hrun).recorded.stored key fields hfields
    refine ⟨⟨entry, hentry, hkey, by rw [hsame]⟩, ?_⟩
    rintro seq ⟨other, hother, hotherkey, rfl⟩
    exact horder other hother hotherkey
  · intro tenantId conversationId seq at_ reach known before between after obtained middle next
      last hbefore hbetween hok hbump hreach hran hafter hne hmem hbound
    have hobtained := run_inv config inv_empty hbefore
    have hmiddle := run_inv config hobtained hbetween
    have hstep := step_inv config hmiddle hok hbump
    simp only [step, Option.some.injEq] at hbump
    rcases recordConversationVersionBump_cases config hmiddle tenantId conversationId seq at_
      reach with ⟨-, hnone⟩ | ⟨tenant, version', htenant, hversion, hbumped, -⟩
    · exact absurd (hnone hne hreach) hran
    rw [hbump] at hbumped
    have hlast := run_inv config hstep.1 hafter
    have hadv := run_advances config hstep.1 hafter
    -- the state written by the bump is still there, with a version of its own or a later one
    have hentry : (⟨conversationSyncStateKey tenant (trim conversationId),
        ⟨trim conversationId, seq, version', at_⟩⟩ : Write) ∈ last.journal :=
      hadv.journal (by rw [hbumped.journal]; simp)
    obtain ⟨fields, hfields, hid⟩ := hlast.tracked.kept _ hentry (isConversationKey_state _ _)
    have hgrown : conversationVersion obtained tenant (trim conversationId) < fields.version := by
      have hstart := hobtained.conversationVersion_le tenant (trim conversationId)
      have hfirst := (run_advances config hobtained hbetween).counters
        (conversationVersionKey tenant (trim conversationId))
      have hnext : counterAt next (conversationVersionKey tenant (trim conversationId)) =
          version' := by simp [counterAt, hbumped.counter]
      have hthen := hadv.counters (conversationVersionKey tenant (trim conversationId))
      have hcurrent : fields.version =
          counterAt last (conversationVersionKey tenant (trim conversationId)) := by
        rcases hlast.tracked.states tenant (trim conversationId) with hnone | ⟨found, hfound, hv⟩
        · simp [stateAt, hnone] at hfields
        · simp only [stateAt, hfound, Option.some.injEq] at hfields
          exact hfields ▸ hv
      omega
    obtain ⟨known', hle, hknown⟩ := mem_normalizedKnownConversationVersions hne hmem
      fun entry hentry heq => hbound entry hentry heq tenant htenant
    exact diffChangedConversations_reports htenant hknown hfields (by rw [hid]; simp) hne
      (by omega)

private def sampleConfig : Config := Config.new 1000 604800 none

private def sampleBump (seq : Nat) : Action := .bump (some "acme") "2-team" seq 0 .answered

private def sampleExpiry : List Action :=
  [.expire (conversationVersionKey "acme" "2-team"),
    .expire (conversationSyncStateKey "acme" "2-team")]

-- A client that has seen version 2 is told nothing about a bump made after the keys of the
-- conversation ran out, because its version starts again at 1.
theorem expired_version_hides_a_bump :
    ¬ ∀ config : Config, ReportsEveryChange config anyStep := by
  intro h
  have hobtained : Run (step sampleConfig) anyStep Index.empty [sampleBump 1, sampleBump 2] _ :=
    run_of_isSome (by decide)
  have hreported := (h sampleConfig).reports (some "acme") "2-team" 3 0 .answered [("2-team", 2)]
    hobtained (run_of_isSome (by decide) : Run _ _ _ sampleExpiry _) trivial rfl (by decide)
    (by decide) (.nil _) (by decide) (by decide) (by decide)
  revert hreported
  decide

end FlareIm.SyncIndex
