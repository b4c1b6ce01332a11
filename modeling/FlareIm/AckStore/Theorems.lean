import FlareIm.AckStore
import FlareIm.MessagePersistence.KeyCollisions
import Mathlib.Data.List.Count

namespace FlareIm.AckStore

open Framed Transition

section Keys

variable {first second triple : AckTriple} {key : String}

theorem toList_formatCacheKey (triple : AckTriple) : (formatCacheKey triple).toList =
    triple.tenantId.toList ++ ':' :: frame triple.messageId.toList triple.userId.toList := by
  have hl : (toString triple.messageId.utf8ByteSize).toList =
      Nat.toDigits 10 (byteLength triple.messageId.toList) := by
    rw [byteLength_toList]
    simp [Nat.repr]
  simp only [formatCacheKey, String.toList_append, hl, frame, List.append_assoc]
  rfl

theorem redisKey_eq (triple : AckTriple) :
    redisKey triple = "ack:v2:" ++ formatCacheKey triple := by
  simp only [redisKey, formatCacheKey, String.append_assoc]

theorem formatCacheKey_inj (hf : first.valid) (hs : second.valid)
    (h : formatCacheKey first = formatCacheKey second) : first = second := by
  have hl := congrArg (fun key => DecimalText.splitOnce ':' key.toList) h
  simp only [toList_formatCacheKey] at hl
  rw [DecimalText.splitOnce_append (MessagePersistence.isValidTenantId_colon hf.1),
    DecimalText.splitOnce_append (MessagePersistence.isValidTenantId_colon hs.1)] at hl
  obtain ⟨ht, hfr⟩ := Prod.mk.inj (Option.some.inj hl)
  obtain ⟨hm, hu⟩ := frame_inj.mp hfr
  cases first
  cases second
  simp only [AckTriple.mk.injEq]
  exact ⟨String.toList_inj.mp ht, String.toList_inj.mp hm, String.toList_inj.mp hu⟩

theorem redisKey_inj (hf : first.valid) (hs : second.valid)
    (h : redisKey first = redisKey second) : first = second := by
  apply formatCacheKey_inj hf hs
  have hl := congrArg String.toList h
  rw [redisKey_eq, redisKey_eq, String.toList_append, String.toList_append,
    List.append_cancel_left_eq, String.toList_inj] at hl
  exact hl

theorem formatKey_eq_ok : formatKey triple = .ok key ↔ triple.valid ∧ redisKey triple = key := by
  unfold formatKey validateTenant
  by_cases hv : triple.valid <;> simp [hv, Except.map]

end Keys

section Batches

variable {config : AckServiceConfig} {redis : String → Option Stored}
  {acks : List AckStatusInfo} {ack : AckStatusInfo} {triple : AckTriple}

def command (config : AckServiceConfig) (ack : AckStatusInfo) : String × Stored :=
  (redisKey ack.triple, ⟨ack, config.ttl ack.importance⟩)

-- The last ack of a batch for a triple.
def lastFor (acks : List AckStatusInfo) (triple : AckTriple) : Option AckStatusInfo :=
  (acks.filter fun ack => ack.triple = triple).getLast?

theorem lastFor_cons : lastFor (ack :: acks) triple =
    (lastFor acks triple).or (if ack.triple = triple then some ack else none) := by
  unfold lastFor
  by_cases hs : ack.triple = triple
  · rw [List.filter_cons_of_pos (by simpa using hs), if_pos hs, List.getLast?_cons]
    cases (acks.filter fun ack => ack.triple = triple).getLast? <;> rfl
  · rw [List.filter_cons_of_neg (by simpa using hs), if_neg hs, Option.or_none]

theorem mem_of_lastFor (h : lastFor acks triple = some ack) : ack ∈ acks ∧ ack.triple = triple := by
  have hm := List.mem_of_getLast? h
  simpa using hm

theorem triple_notMem_of_lastFor (h : lastFor acks triple = none) (hm : ack ∈ acks) :
    ack.triple ≠ triple := by
  intro hs
  have hn := List.getLast?_eq_none_iff.mp h
  have hin : ack ∈ acks.filter fun ack => ack.triple = triple :=
    List.mem_filter.mpr ⟨hm, decide_eq_true hs⟩
  rw [hn] at hin
  exact absurd hin List.not_mem_nil

-- A queue holds only acks of valid tenants, so that every batch makes its commands.
theorem batchStoreCommands_eq (hv : ∀ ack ∈ acks, ack.triple.valid) :
    batchStoreCommands config acks = .ok (acks.map (command config)) := by
  unfold batchStoreCommands
  induction acks with
  | nil => rfl
  | cons ack rest ih =>
    have hk : formatKey ack.triple = .ok (redisKey ack.triple) :=
      formatKey_eq_ok.mpr ⟨hv ack List.mem_cons_self, rfl⟩
    have hc : (formatKey ack.triple).map
        (fun key => (key, Stored.mk ack (config.ttl ack.importance))) =
          .ok (command config ack) := by
      rw [hk]
      rfl
    simp only [Fallible.traverse, hc,
      ih fun other hm => hv other (List.mem_cons_of_mem _ hm), List.map_cons]

theorem setAll_lastFor (hv : ∀ ack ∈ acks, ack.triple.valid) (ht : triple.valid) :
    setAll redis (acks.map (command config)) (redisKey triple) =
      match lastFor acks triple with
      | some ack => some ⟨ack, config.ttl ack.importance⟩
      | none => redis (redisKey triple) := by
  induction acks generalizing redis with
  | nil => rfl
  | cons ack rest ih =>
    have hr : ∀ other ∈ rest, other.triple.valid :=
      fun other hm => hv other (List.mem_cons_of_mem _ hm)
    have hs := @ih (Function.update redis (redisKey ack.triple)
      (some ⟨ack, config.ttl ack.importance⟩)) hr
    refine hs.trans ?_
    rw [lastFor_cons]
    cases hl : lastFor rest triple with
    | some last => rfl
    | none =>
      by_cases hsa : ack.triple = triple
      · subst hsa
        simp
      · have hk : redisKey triple ≠ redisKey ack.triple := fun heq =>
          hsa (redisKey_inj ht (hv ack List.mem_cons_self) heq).symm
        simp [hsa, Function.update_of_ne hk]

end Batches

section Lanes

variable {state : State} {processor : Processor} {lane : Lane} {ack : AckStatusInfo}

def Lane.acks (lane : Lane) : List AckStatusInfo := lane.storing ++ lane.queue

-- What was recorded and has not come to Redis so far.
def State.waiting (state : State) : List AckStatusInfo :=
  (state.lanes .highPriority).acks ++ (state.lanes .batch).acks

theorem mem_waiting : ack ∈ state.waiting ↔ ∃ processor, ack ∈ (state.lanes processor).acks := by
  constructor
  · intro h
    rcases List.mem_append.mp h with hh | hb
    · exact ⟨_, hh⟩
    · exact ⟨_, hb⟩
  · rintro ⟨processor, h⟩
    cases processor with
    | highPriority => exact List.mem_append_left _ h
    | batch => exact List.mem_append_right _ h

@[simp] theorem setLane_lanes_self : (state.setLane processor lane).lanes processor = lane :=
  Function.update_self ..

theorem setLane_lanes_of_ne {other : Processor} (h : other ≠ processor) :
    (state.setLane processor lane).lanes other = state.lanes other :=
  Function.update_of_ne h ..

theorem count_waiting_setLane :
    (state.setLane processor lane).waiting.count ack + (state.lanes processor).acks.count ack =
      state.waiting.count ack + lane.acks.count ack := by
  cases processor with
  | highPriority =>
    simp only [State.waiting, setLane_lanes_self, List.count_append,
      setLane_lanes_of_ne (show Processor.batch ≠ .highPriority by decide)]
    omega
  | batch =>
    simp only [State.waiting, setLane_lanes_self, List.count_append,
      setLane_lanes_of_ne (show Processor.highPriority ≠ .batch by decide)]
    omega

theorem mem_waiting_setLane (h : ack ∈ (state.setLane processor lane).waiting) :
    ack ∈ lane.acks ∨ ack ∈ state.waiting := by
  obtain ⟨other, hm⟩ := mem_waiting.mp h
  by_cases hs : other = processor
  · subst hs
    rw [setLane_lanes_self] at hm
    exact .inl hm
  · rw [setLane_lanes_of_ne hs] at hm
    exact .inr (mem_waiting.mpr ⟨other, hm⟩)

theorem mem_waiting_setLane_of (h : ack ∈ state.waiting)
    (hk : ack ∈ (state.lanes processor).acks → ack ∈ lane.acks) :
    ack ∈ (state.setLane processor lane).waiting := by
  obtain ⟨other, hm⟩ := mem_waiting.mp h
  refine mem_waiting.mpr ⟨other, ?_⟩
  by_cases hs : other = processor
  · subst hs
    rw [setLane_lanes_self]
    exact hk hm
  · rw [setLane_lanes_of_ne hs]
    exact hm

end Lanes

section Conditions

def Event.acks : Event → List AckStatusInfo
  | .recorded ack => [ack]
  | _ => []

-- What a reader may find for a triple after the calls: the ack recorded last, nothing when it was
-- deleted since, either of the two when a deletion failed.
def Expected (before : Option AckStatusInfo) (triple : AckTriple) :
    List Event → Option AckStatusInfo → Prop
  | [], value => value = before
  | .recorded ack :: rest, value =>
    if ack.triple = triple then value = some ack else Expected before triple rest value
  | .deleted other :: rest, value =>
    if other = triple then value = none else Expected before triple rest value
  | .deletionFailed other :: rest, value =>
    Expected before triple rest value ∨ (other = triple ∧ value = none)

def State.value (state : State) (triple : AckTriple) : Option AckStatusInfo :=
  (state.redis (redisKey triple)).map (·.ack)

variable (config : AckServiceConfig) (before : AckTriple → Option AckStatusInfo)

-- Both queues are empty and no store is under way.
def Quiet (state : State) : Prop :=
  ∀ processor, (state.lanes processor).queue = [] ∧ (state.lanes processor).storing = []

def Converged (state : State) : Prop :=
  ∀ triple, triple.valid → Expected (before triple) triple state.log (state.value triple)

-- Every recorded ack is waiting or came to Redis, as often as it was recorded.
def NothingDropped (state : State) : Prop :=
  ∀ ack, (state.log.flatMap Event.acks).count ack =
    state.written.count ack + state.waiting.count ack

-- The newest ack of a triple is in Redis or on its way.
def Tracked (state : State) (triple : AckTriple) : Prop :=
  Expected (before triple) triple state.log (state.value triple) ∨
    ∃ ack ∈ state.waiting, ack.triple = triple ∧
      Expected (before triple) triple state.log (some ack)

-- Only acks of high and medium importance are recorded.
def HighOrMedium (_ : State) : Action → Prop
  | .recordAck ack _ => ack.importance ≠ .low
  | _ => True

-- A store writes its whole batch, and no triple gets an ack that a later call made out of date
-- unless a newer one is still waiting.
def Timely (state : State) : Action → Prop
  | .recordAck ack _ => ack.importance ≠ .low
  | .store processor took =>
    let lane := state.lanes processor
    (∀ commands, batchStoreCommands config lane.storing = .ok commands →
      effective commands took = commands) ∧
    ∀ triple ack, lastFor lane.storing triple = some ack →
      Expected (before triple) triple state.log (some ack) ∨
        ∃ later ∈ (state.setLane processor { lane with storing := [] }).waiting,
          later.triple = triple ∧ Expected (before triple) triple state.log (some later)
  | _ => True

-- Redis may hold anything at first, but nothing was recorded so far.
def Fresh (state : State) : Prop :=
  Quiet state ∧ state.log = [] ∧ state.written = []

end Conditions

section Invariant

variable {config : AckServiceConfig} {before : AckTriple → Option AckStatusInfo}
  {state next : State} {processor : Processor} {ack : AckStatusInfo} {triple : AckTriple}

structure Inv (before : AckTriple → Option AckStatusInfo) (state : State) : Prop where
  valid : ∀ ack ∈ state.waiting, ack.triple.valid
  conserved : NothingDropped state
  tracked : ∀ triple, triple.valid → Tracked before state triple

theorem inv_of_fresh (h : Fresh state) : Inv state.value state := by
  obtain ⟨hq, hl, hwr⟩ := h
  have hw : state.waiting = [] := by
    simp [State.waiting, Lane.acks, (hq _).1, (hq _).2]
  refine ⟨?_, ?_, ?_⟩
  · simp [hw]
  · intro ack
    simp [hl, hwr, hw]
  · intro triple _
    left
    rw [hl]
    rfl

theorem Inv.cached (h : Inv before state) (cache : String → Option CachedAckInfo) :
    Inv before { state with cache } :=
  ⟨h.valid, h.conserved, h.tracked⟩

theorem Inv.enqueue (h : Inv before state) (ha : ack.triple.valid) :
    Inv before (enqueue state processor ack) := by
  have hm : ack ∈ (AckStore.enqueue state processor ack).waiting := by
    apply mem_waiting.mpr
    refine ⟨processor, ?_⟩
    show ack ∈ ((state.setLane processor _).lanes processor).acks
    rw [setLane_lanes_self]
    simp [Lane.acks]
  refine ⟨?_, ?_, ?_⟩
  · intro other ho
    rcases mem_waiting_setLane ho with hl | hw
    · rcases List.mem_append.mp hl with hs | hq
      · exact h.valid other (mem_waiting.mpr ⟨processor, List.mem_append_left _ hs⟩)
      · rcases List.mem_append.mp hq with hold | hn
        · exact h.valid other (mem_waiting.mpr ⟨processor, List.mem_append_right _ hold⟩)
        · exact List.mem_singleton.mp hn ▸ ha
    · exact h.valid other hw
  · intro other
    have hold := h.conserved other
    have hc := @count_waiting_setLane state processor
      { state.lanes processor with queue := (state.lanes processor).queue ++ [ack] } other
    have hlo : ((Event.recorded ack :: state.log).flatMap Event.acks).count other =
        [ack].count other + (state.log.flatMap Event.acks).count other := by
      rw [List.flatMap_cons, List.count_append]
      rfl
    simp only [Lane.acks, List.count_append] at hc
    show ((Event.recorded ack :: state.log).flatMap Event.acks).count other =
      state.written.count other + (state.setLane processor _).waiting.count other
    omega
  · intro triple htr
    by_cases hsa : ack.triple = triple
    · exact .inr ⟨ack, hm, hsa, by simp [AckStore.enqueue, Expected, hsa]⟩
    · have hlo (value : Option AckStatusInfo) :
          Expected (before triple) triple (AckStore.enqueue state processor ack).log value ↔
            Expected (before triple) triple state.log value := by
        simp [AckStore.enqueue, Expected, hsa]
      rcases h.tracked triple htr with hv | ⟨newest, hw, ht, hep⟩
      · exact .inl ((hlo _).mpr hv)
      · refine .inr ⟨newest, ?_, ht, (hlo _).mpr hep⟩
        apply mem_waiting_setLane_of hw
        intro hl
        rcases List.mem_append.mp hl with hs | hq
        · exact List.mem_append_left _ hs
        · exact List.mem_append_right _ (List.mem_append_left _ hq)

theorem Inv.recordAck (h : Inv before state) (now : Nat) :
    Inv before (recordAckInternal state ack now) := by
  unfold recordAckInternal validateTenant
  by_cases hv : ack.triple.valid
  · rw [if_pos hv]
    cases ack.importance with
    | low => exact h.cached _
    | medium | high => exact (h.enqueue hv).cached _
  · rw [if_neg hv]
    exact h

theorem value_deleted (ht : triple.valid) {other : AckTriple} (ho : other.valid) :
    State.value { state with redis := Function.update state.redis (redisKey triple) none } other =
      if other = triple then none else state.value other := by
  unfold State.value
  by_cases hs : other = triple
  · subst hs
    simp
  · have hk : redisKey other ≠ redisKey triple :=
      fun heq => hs (redisKey_inj ho ht heq)
    simp [hs, Function.update_of_ne hk]

theorem Inv.deleteAck (h : Inv before state) (deletion : Deletion) :
    Inv before (deleteAck state triple deletion) := by
  unfold AckStore.deleteAck validateTenant
  by_cases hva : triple.valid
  · rw [if_pos hva]
    cases deletion with
    | done =>
      refine ⟨h.valid, h.conserved, fun other ho => ?_⟩
      have hv := @value_deleted state _ hva _ ho
      by_cases hs : other = triple
      · left
        rw [if_pos hs] at hv
        show Expected (before other) other (.deleted triple :: state.log) (State.value _ other)
        rw [Expected, if_pos hs.symm]
        exact hv
      · have hne : triple ≠ other := fun heq => hs heq.symm
        rw [if_neg hs] at hv
        rcases h.tracked other ho with hold | ⟨newest, hw, ht, hep⟩
        · left
          show Expected (before other) other (.deleted triple :: state.log) (State.value _ other)
          rw [Expected, if_neg hne]
          exact hv.symm ▸ hold
        · exact .inr ⟨newest, hw, ht, by
            show Expected (before other) other (.deleted triple :: state.log) (some newest)
            rw [Expected, if_neg hne]
            exact hep⟩
    | failed executed =>
      cases executed with
      | false =>
        refine ⟨h.valid, h.conserved, fun other ho => ?_⟩
        rcases h.tracked other ho with hold | ⟨newest, hw, ht, hep⟩
        · exact .inl (.inl hold)
        · exact .inr ⟨newest, hw, ht, .inl hep⟩
      | true =>
        refine ⟨h.valid, h.conserved, fun other ho => ?_⟩
        have hv := @value_deleted state _ hva _ ho
        by_cases hs : other = triple
        · rw [if_pos hs] at hv
          exact .inl (.inr ⟨hs.symm, hv⟩)
        · rw [if_neg hs] at hv
          rcases h.tracked other ho with hold | ⟨newest, hw, ht, hep⟩
          · exact .inl (.inl (hv.symm ▸ hold))
          · exact .inr ⟨newest, hw, ht, .inl hep⟩
  · rw [if_neg hva]
    exact h

theorem drain_acks (h : drain config state processor = some next) :
    ∃ lane, next = state.setLane processor lane ∧ lane.acks = (state.lanes processor).acks := by
  unfold drain at h
  dsimp only at h
  split at h
  · cases h
  · rename_i hr
    have hil : (state.lanes processor).storing = [] := by
      by_contra hb
      exact hr (.inr hb)
    cases h
    exact ⟨_, rfl, by simp [Lane.acks, hil]⟩

theorem Inv.drain (h : Inv before state) (hs : drain config state processor = some next) :
    Inv before next := by
  obtain ⟨lane, rfl, ha⟩ := drain_acks hs
  refine ⟨?_, ?_, ?_⟩
  · intro ack hm
    rcases mem_waiting_setLane hm with hl | hw
    · exact h.valid ack (mem_waiting.mpr ⟨processor, ha ▸ hl⟩)
    · exact h.valid ack hw
  · intro ack
    have hold := h.conserved ack
    have hc := @count_waiting_setLane state processor lane ack
    rw [ha] at hc
    show (state.log.flatMap Event.acks).count ack =
      state.written.count ack + (state.setLane processor lane).waiting.count ack
    omega
  · intro triple htr
    rcases h.tracked triple htr with hold | ⟨newest, hw, ht, hep⟩
    · exact .inl hold
    · exact .inr ⟨newest, mem_waiting_setLane_of hw fun hl => ha.symm ▸ hl, ht, hep⟩

theorem Inv.storing_valid (h : Inv before state) (processor : Processor) :
    ∀ ack ∈ (state.lanes processor).storing, ack.triple.valid :=
  fun ack hm => h.valid ack (mem_waiting.mpr ⟨processor, List.mem_append_left _ hm⟩)

theorem Inv.store {took : List Bool} (h : Inv before state)
    (hti : Timely config before state (.store processor took))
    (hs : store config state processor took = some next) : Inv before next := by
  have hst := h.storing_valid processor
  have hc := @batchStoreCommands_eq config _ hst
  obtain ⟨hwh, hn⟩ := hti
  have hto := hwh _ hc
  unfold AckStore.store at hs
  dsimp only at hs
  rw [hc] at hs
  simp only [hto] at hs
  split at hs
  · cases hs
  · cases hs
    have ha : ((state.lanes processor).storing.map (command config)).map
        (fun command => command.2.ack) = (state.lanes processor).storing := by
      rw [List.map_map]
      exact List.map_id _
    refine ⟨?_, ?_, ?_⟩
    · intro ack hm
      rcases mem_waiting_setLane hm with hla | hw
      · exact h.valid ack (mem_waiting.mpr ⟨processor, List.mem_append_right _ hla⟩)
      · exact h.valid ack hw
    · intro ack
      have hold := h.conserved ack
      have hco := @count_waiting_setLane state processor ⟨(state.lanes processor).queue, []⟩ ack
      simp only [Lane.acks, List.count_append, List.count_nil] at hco
      show (state.log.flatMap Event.acks).count ack =
        ((((state.lanes processor).storing.map (command config)).map
          (fun command => command.2.ack)).reverse ++ state.written).count ack +
        (state.setLane processor ⟨(state.lanes processor).queue, []⟩).waiting.count ack
      rw [ha, List.count_append, List.count_reverse]
      omega
    · intro triple htr
      have hset := @setAll_lastFor config state.redis _ _ hst htr
      cases hl : lastFor (state.lanes processor).storing triple with
      | some ack =>
        rw [hl] at hset
        rcases hn triple ack hl with hcu | hlr
        · left
          show Expected _ _ state.log (Option.map (·.ack) (setAll state.redis _ _))
          rw [hset]
          exact hcu
        · exact .inr hlr
      | none =>
        rw [hl] at hset
        rcases h.tracked triple htr with hold | ⟨newest, hw, ht, hep⟩
        · left
          show Expected _ _ state.log (Option.map (·.ack) (setAll state.redis _ _))
          rw [hset]
          exact hold
        · refine .inr ⟨newest, mem_waiting_setLane_of hw fun hla => ?_, ht, hep⟩
          rcases List.mem_append.mp hla with hin | hq
          · exact absurd ht (triple_notMem_of_lastFor hl hin)
          · exact List.mem_append_right _ hq

theorem step_inv {action : Action} (h : Inv before state)
    (ht : Timely config before state action) (hs : step config state action = some next) :
    Inv before next := by
  cases action with
  | recordAck ack now => exact Option.some.inj hs ▸ h.recordAck now
  | deleteAck triple deletion => exact Option.some.inj hs ▸ h.deleteAck deletion
  | drain processor => exact h.drain hs
  | store processor took => exact h.store ht hs

theorem Inv.converged (h : Inv before state) (hq : Quiet state) : Converged before state := by
  intro triple ht
  rcases h.tracked triple ht with hv | ⟨newest, hw, -, -⟩
  · exact hv
  · obtain ⟨processor, hm⟩ := mem_waiting.mp hw
    rw [Lane.acks, (hq processor).1, (hq processor).2] at hm
    exact absurd hm List.not_mem_nil

def Action.byProcessor : Action → Bool
  | .drain _ | .store _ _ => true
  | _ => false

end Invariant

section Runs

-- Where every store writes its whole batch and none brings back what a later call made out of
-- date, the store ends with what was recorded last. No two triples share a key.
theorem acks_converge (config : AckServiceConfig) {initial last : State} {actions : List Action}
    (hfresh : Fresh initial)
    (hrun : Run (step config) (Timely config initial.value) initial actions last) :
    (Quiet last → Converged initial.value last) ∧ NothingDropped last ∧
      ∀ first second : AckTriple, first.valid → second.valid →
        (formatKey first = formatKey second ∨ formatCacheKey first = formatCacheKey second) →
        first = second := by
  have hinv : Inv initial.value last := hrun.preserves _
    (fun _ _ _ hinv htimely hstep => step_inv hinv htimely hstep) (inv_of_fresh hfresh)
  refine ⟨hinv.converged, hinv.conserved, fun first second hfirst hsecond hsame => ?_⟩
  rcases hsame with hkey | hcache
  · have hsecondKey := formatKey_eq_ok.mpr ⟨hsecond, rfl⟩
    exact redisKey_inj hfirst hsecond (formatKey_eq_ok.mp (hkey.trans hsecondKey)).2
  · exact formatCacheKey_inj hfirst hsecond hcache

def hourly : AckServiceConfig := ⟨3600, 100⟩

def delivered : AckStatusInfo where
  tenantId := "acme"
  messageId := "m1"
  userId := "bob"
  status := .received
  timestamp := 1
  importance := .medium

def processed : AckStatusInfo :=
  { delivered with status := .processed, timestamp := 2, importance := .high }

-- Bob's message is delivered and then processed.
def orderly : List Action :=
  [.recordAck delivered 1, .drain .batch, .store .batch [true], .recordAck processed 2,
    .drain .highPriority, .store .highPriority [true]]

theorem timely_of_single {before : AckTriple → Option AckStatusInfo} {state : State}
    {processor : Processor} {ack : AckStatusInfo} {rest : List Event}
    (hs : (state.lanes processor).storing = [ack]) (hlo : state.log = .recorded ack :: rest)
    (hv : ack.triple.valid) (htt : 0 < hourly.ttl ack.importance) :
    Timely hourly before state (.store processor [true]) := by
  constructor
  · intro commands hc
    rw [hs, batchStoreCommands_eq (by simpa using hv)] at hc
    obtain rfl := Except.ok.inj hc
    simp [effective, command, htt]
  · intro triple newest hl
    rw [hs] at hl
    obtain ⟨hm, ht⟩ := mem_of_lastFor hl
    obtain rfl := List.mem_singleton.mp hm
    left
    rw [hlo, Expected, if_pos ht]

theorem processed_ack_is_kept : ∃ last,
    Run (step hourly) (Timely hourly (State.value {})) {} orderly last ∧
    Quiet last ∧ Converged (State.value {}) last ∧
    last.value processed.triple = some processed := by
  have hrun : ∃ last, Run (step hourly) (Timely hourly (State.value {})) {} orderly last ∧
      Quiet last ∧ last.value processed.triple = some processed := by
    have hmedium : delivered.importance ≠ .low := by decide
    have hhigh : processed.importance ≠ .low := by decide
    refine ⟨_, .cons hmedium rfl (.cons trivial rfl (.cons ?_ rfl (.cons hhigh rfl
      (.cons trivial rfl (.cons ?_ rfl (.nil _)))))), ?_, by decide +kernel⟩
    · exact timely_of_single rfl rfl (by decide +kernel) (by decide)
    · exact timely_of_single rfl rfl (by decide +kernel) (by decide)
    · intro processor
      cases processor <;> exact ⟨rfl, rfl⟩
  obtain ⟨last, hrun, hquiet, hvalue⟩ := hrun
  have hfresh : Fresh {} := ⟨fun _ => ⟨rfl, rfl⟩, rfl, rfl⟩
  exact ⟨last, hrun, hquiet, (acks_converge hourly hfresh hrun).1 hquiet, hvalue⟩

-- The connection is lost while the batch is stored.
theorem failed_store_drops_ack : ∃ last,
    Run (step hourly) HighOrMedium {}
      [.recordAck processed 1, .drain .highPriority, .store .highPriority []] last ∧
    Quiet last ∧ ¬ Converged (State.value {}) last ∧ ¬ NothingDropped last := by
  have hhigh : processed.importance ≠ .low := by decide
  refine ⟨_, .cons hhigh rfl (.cons trivial rfl (.cons trivial rfl (.nil _))), ?_, ?_, ?_⟩
  · intro processor
    cases processor <;> exact ⟨rfl, rfl⟩
  · intro hconverged
    have hexpected := hconverged processed.triple (by decide +kernel)
    exact absurd hexpected nofun
  · intro hkept
    exact absurd (hkept processed) (by decide +kernel)

end Runs

end FlareIm.AckStore
