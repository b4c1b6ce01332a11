import FlareIm.ExecutionBuffer
import Mathlib.Data.List.Perm.Basic
import Mathlib.Order.Basic

namespace FlareIm.ExecutionBuffer

open HookCircuit
open List (append_nil count count_append count_nil map_append map_cons map_id map_map map_nil mem_singleton not_mem_nil)

variable {buffer : HookExecutionBuffer} {state next : State} {action : Action}

section Queues

theorem popInto_append (batchSize : Nat) (batch queue : List HookExecutionRecord) :
    (popInto batchSize batch queue).1 ++ (popInto batchSize batch queue).2 = batch ++ queue := by
  induction queue generalizing batch with
  | nil => rfl
  | cons record queue ih =>
    unfold popInto
    split
    · rw [ih, List.append_assoc]
      rfl
    · rfl

theorem length_popInto_le (batchSize : Nat) (batch queue : List HookExecutionRecord) :
    (popInto batchSize batch queue).2.length ≤ queue.length := by
  induction queue generalizing batch with
  | nil => exact Nat.le_refl 0
  | cons record queue ih =>
    unfold popInto
    split
    · exact Nat.le_trans (ih _) (Nat.le_succ _)
    · exact Nat.le_refl _

theorem mem_of_mem_popInto {batchSize : Nat} {batch queue : List HookExecutionRecord}
    {record : HookExecutionRecord} (h : record ∈ (popInto batchSize batch queue).2) :
    record ∈ queue := by
  induction queue generalizing batch with
  | nil => exact absurd h not_mem_nil
  | cons first queue ih =>
    unfold popInto at h
    split at h
    · exact List.mem_cons_of_mem first (ih h)
    · exact h

theorem count_takeBatch (pending : Pending) (record : HookExecutionRecord) :
    (takeBatch buffer pending).1.count record + (takeBatch buffer pending).2.records.count record =
      pending.records.count record := by
  have ha := congrArg (count record) (popInto_append buffer.batchSize [] pending.always)
  have hs := congrArg (count record)
    (popInto_append buffer.batchSize (popInto buffer.batchSize [] pending.always).1 pending.sampled)
  simp only [count_append, count_nil] at ha hs
  simp only [takeBatch, Pending.records, count_append]
  omega

theorem len_takeBatch_le (pending : Pending) : (takeBatch buffer pending).2.len ≤ pending.len :=
  Nat.add_le_add (length_popInto_le _ _ _) (length_popInto_le _ _ _)

theorem count_push (pending : Pending) (record other : HookExecutionRecord) :
    (pending.push record).records.count other =
      pending.records.count other + [record].count other := by
  unfold Pending.push Pending.records
  cases record.class with
  | always | sampled =>
    simp only [count_append]
    omega

theorem len_push (pending : Pending) (record : HookExecutionRecord) :
    (pending.push record).len = pending.len + 1 := by
  unfold Pending.push Pending.len
  cases record.class with
  | always | sampled =>
    simp only [List.length_append, List.length_singleton]
    omega

end Queues

section Places

-- No batch is being written.
def Writer.Idle (writer : Writer) : Prop :=
  ∀ batch timeoutReason stopping, writer ≠ .writing batch timeoutReason stopping

theorem Writer.Idle.batch {writer : Writer} (h : writer.Idle) : writer.batch = [] := by
  cases writer with
  | writing batch timeoutReason stopping => exact absurd rfl (h batch timeoutReason stopping)
  | _ => rfl

def State.places (state : State) : List HookExecutionRecord :=
  state.pending.records ++ state.writer.batch ++ state.written ++ state.dropped.map (·.2)

def droppedAs (reason : DropReason) (class_ : HookExecutionClass)
    (entry : DropReason × HookExecutionRecord) : Bool :=
  reason = entry.1 ∧ class_ = entry.2.class

-- Each record handed over has one place, but for those that a call still holds, and each drop is
-- counted under its reason and class.
structure Conserved (buffer : HookExecutionBuffer) (held : List HookExecutionRecord)
    (state : State) : Prop where
  placed : ∀ record, state.handed.count record = state.places.count record + held.count record
  counted : ∀ reason class_, state.metrics.dropped reason class_ =
    state.dropped.countP (droppedAs reason class_)
  always : ∀ record ∈ state.pending.always, record.class = .always
  sampled : ∀ record ∈ state.pending.sampled, record.class = .sampled
  bounded : state.pending.len ≤ buffer.capacity
  closed : state.pending.closed = true ↔ state.writer = .stopped
  empty : state.pending.closed = true → state.pending.records = []
  acknowledged : state.metrics.written = state.written.length

theorem count_places (state : State) (record : HookExecutionRecord) :
    state.places.count record = state.pending.records.count record +
      state.writer.batch.count record + state.written.count record +
      (state.dropped.map (·.2)).count record := by
  simp only [State.places, count_append]

theorem countP_single (reason other : DropReason) (class_ : HookExecutionClass)
    (record : HookExecutionRecord) : [(reason, record)].countP (droppedAs other class_) =
      if other = reason ∧ class_ = record.class then 1 else 0 := by
  simp [droppedAs, List.countP_singleton]

theorem drop_spec (state : State) (reason : DropReason) (record : HookExecutionRecord) :
    (state.drop reason record).pending = state.pending ∧
    (state.drop reason record).writer = state.writer ∧
    (state.drop reason record).handed = state.handed ∧
    (state.drop reason record).written = state.written ∧
    (state.drop reason record).metrics.written = state.metrics.written ∧
    (state.drop reason record).dropped = state.dropped ++ [(reason, record)] :=
  ⟨rfl, rfl, rfl, rfl, rfl, rfl⟩

theorem drop_counted {reason : DropReason} {record : HookExecutionRecord}
    (h : ∀ reason class_, state.metrics.dropped reason class_ =
      state.dropped.countP (droppedAs reason class_)) (other : DropReason)
    (class_ : HookExecutionClass) : (state.drop reason record).metrics.dropped other class_ =
      (state.drop reason record).dropped.countP (droppedAs other class_) := by
  simp only [State.drop, HookExecutionMetrics.recordDropped, List.countP_append, countP_single, h]

theorem foldl_drop_spec (reason : DropReason) (batch : List HookExecutionRecord) (state : State)
    (h : ∀ reason class_, state.metrics.dropped reason class_ =
      state.dropped.countP (droppedAs reason class_)) :
    let dropped := batch.foldl (fun state record => state.drop reason record) state
    dropped.pending = state.pending ∧ dropped.writer = state.writer ∧
      dropped.handed = state.handed ∧ dropped.written = state.written ∧
      dropped.metrics.written = state.metrics.written ∧
      dropped.dropped = state.dropped ++ batch.map (reason, ·) ∧
      ∀ reason class_, dropped.metrics.dropped reason class_ =
        dropped.dropped.countP (droppedAs reason class_) := by
  induction batch generalizing state with
  | nil => exact ⟨rfl, rfl, rfl, rfl, rfl, (append_nil _).symm, h⟩
  | cons record batch ih =>
    obtain ⟨hp, hw, hh, hwr, hm, hdr, hc⟩ :=
      ih (state.drop reason record) (drop_counted h)
    refine ⟨hp, hw, hh, hwr, hm, ?_, hc⟩
    rw [List.foldl_cons, hdr, (drop_spec state reason record).2.2.2.2.2]
    simp

theorem conserved_start (buffer : HookExecutionBuffer) : Conserved buffer [] {} where
  placed _ := rfl
  counted _ _ := rfl
  always _ h := absurd h not_mem_nil
  sampled _ h := absurd h not_mem_nil
  bounded := Nat.zero_le _
  closed := ⟨(fun h => nomatch h), (fun h => nomatch h)⟩
  empty _ := rfl
  acknowledged := rfl

theorem mem_push_always {pending : Pending} {record other : HookExecutionRecord}
    (h : other ∈ (pending.push record).always) :
    other ∈ pending.always ∨ (other = record ∧ record.class = .always) := by
  unfold Pending.push at h
  cases hc : record.class with
  | always => simpa [hc] using h
  | sampled => exact .inl (by simpa [hc] using h)

theorem mem_push_sampled {pending : Pending} {record other : HookExecutionRecord}
    (h : other ∈ (pending.push record).sampled) :
    other ∈ pending.sampled ∨ (other = record ∧ record.class = .sampled) := by
  unfold Pending.push at h
  cases hc : record.class with
  | always => exact .inl (by simpa [hc] using h)
  | sampled => simpa [hc] using h

theorem closed_push (pending : Pending) (record : HookExecutionRecord) :
    (pending.push record).closed = pending.closed := by
  unfold Pending.push
  cases record.class <;> rfl

theorem Conserved.enqueue {record : HookExecutionRecord} (h : Conserved buffer [record] state)
    (hoe : state.pending.closed = false) (hr : state.pending.len < buffer.capacity) :
    Conserved buffer [] (state.enqueue record) where
  placed other := by
    have hp := h.placed other
    rw [count_places] at hp ⊢
    simp only [State.enqueue, count_push, count_nil] at hp ⊢
    omega
  counted := h.counted
  always other ho := by
    rcases mem_push_always ho with hold | ⟨rfl, hc⟩
    · exact h.always other hold
    · exact hc
  sampled other ho := by
    rcases mem_push_sampled ho with hold | ⟨rfl, hc⟩
    · exact h.sampled other hold
    · exact hc
  bounded := by
    show (state.pending.push record).len ≤ buffer.capacity
    rw [len_push]
    exact hr
  closed := by
    show (state.pending.push record).closed = true ↔ _
    rw [closed_push]
    exact h.closed
  empty hcl := by
    have hpu : (state.pending.push record).closed = true := hcl
    rw [closed_push, hoe] at hpu
    cases hpu
  acknowledged := h.acknowledged

theorem Conserved.drop {record : HookExecutionRecord} (h : Conserved buffer [record] state)
    (reason : DropReason) : Conserved buffer [] (state.drop reason record) where
  placed other := by
    have hp := h.placed other
    rw [count_places] at hp ⊢
    simp only [State.drop, count_append, map_append, map_cons, map_nil,
      count_nil] at hp ⊢
    omega
  counted := drop_counted h.counted
  always := h.always
  sampled := h.sampled
  bounded := h.bounded
  closed := h.closed
  empty := h.empty
  acknowledged := h.acknowledged

theorem Conserved.evict {held : List HookExecutionRecord} (h : Conserved buffer held state)
    {oldest : HookExecutionRecord} {sampled : List HookExecutionRecord}
    (hs : state.pending.sampled = oldest :: sampled)
    (hoe : state.pending.closed = false) :
    Conserved buffer held
        ({ state with pending := { state.pending with sampled } }.drop .bufferFull oldest) ∧
      { state.pending with sampled }.len < buffer.capacity := by
  have hl : { state.pending with sampled }.len + 1 = state.pending.len := by
    simp only [Pending.len, hs, List.length_cons]
    omega
  have hb := h.bounded
  refine ⟨?_, by omega⟩
  constructor
  · intro other
    have hp := h.placed other
    rw [count_places] at hp ⊢
    simp only [State.drop, Pending.records, hs, count_append, map_append,
      map_cons, map_nil] at hp ⊢
    have hco := @count_append _ _ other [oldest] sampled
    rw [List.singleton_append] at hco
    omega
  · exact drop_counted h.counted
  · exact h.always
  · intro other ho
    exact h.sampled other (hs ▸ List.mem_cons_of_mem oldest ho)
  · show { state.pending with sampled }.len ≤ buffer.capacity
    omega
  · exact h.closed
  · intro hc
    have hst : state.pending.closed = true := hc
    rw [hoe] at hst
    cases hst
  · exact h.acknowledged

theorem Conserved.hand (h : Conserved buffer [] state) (record : HookExecutionRecord) :
    Conserved buffer [record] { state with handed := state.handed ++ [record] } where
  placed other := by
    have hp := h.placed other
    rw [count_places] at hp ⊢
    simp only [count_append, count_nil] at hp ⊢
    omega
  counted := h.counted
  always := h.always
  sampled := h.sampled
  bounded := h.bounded
  closed := h.closed
  empty := h.empty
  acknowledged := h.acknowledged

theorem Conserved.record (h : Conserved buffer [] state) (record : HookExecutionRecord) :
    Conserved buffer [] (state.record buffer record) := by
  have hh := h.hand record
  unfold State.record
  dsimp only
  cases hc : state.pending.closed with
  | true =>
    rw [if_pos rfl]
    exact hh.drop .shutdown
  | false =>
    rw [if_neg (by simp)]
    by_cases hf : buffer.capacity ≤ state.pending.len
    · rw [if_pos hf]
      cases hcl : record.class with
      | sampled => exact hh.drop .bufferFull
      | always =>
        cases hs : state.pending.sampled with
        | nil => exact hh.drop .bufferFull
        | cons oldest sampled =>
          obtain ⟨hev, hr⟩ := hh.evict hs hc
          rw [← hc]
          exact hev.enqueue hc hr
    · rw [if_neg hf]
      exact hh.enqueue hc (Nat.lt_of_not_le hf)

theorem Conserved.takeBatch (h : Conserved buffer [] state) (hil : state.writer.Idle)
    (hoe : state.writer ≠ .stopped) {timeoutReason : DropReason} {stopping : Bool}
    {whenEmpty : Writer} (hem : whenEmpty.Idle) (hg : whenEmpty ≠ .stopped) :
    Conserved buffer [] (state.takeBatch buffer timeoutReason stopping whenEmpty) := by
  have hn : state.pending.closed = false := by
    by_contra hc
    exact hoe (h.closed.mp (by simpa using hc))
  have hw : (state.takeBatch buffer timeoutReason stopping whenEmpty).writer.batch =
      (ExecutionBuffer.takeBatch buffer state.pending).1 ∧
      (state.takeBatch buffer timeoutReason stopping whenEmpty).writer ≠ .stopped := by
    unfold State.takeBatch
    by_cases hni : (ExecutionBuffer.takeBatch buffer state.pending).1 = []
    · simp [hni, hem.batch, hg]
    · simp [hni, Writer.batch]
  have hl := @len_takeBatch_le buffer state.pending
  have hb := h.bounded
  constructor
  · intro other
    have hp := h.placed other
    have hco := @count_takeBatch buffer state.pending other
    rw [count_places] at hp ⊢
    rw [hw.1]
    rw [hil.batch] at hp
    simp only [State.takeBatch, count_nil] at hp ⊢
    omega
  · exact h.counted
  · exact fun other ho => h.always other (mem_of_mem_popInto ho)
  · exact fun other ho => h.sampled other (mem_of_mem_popInto ho)
  · exact hl.trans hb
  · refine ⟨fun hc => ?_, fun hst => absurd hst hw.2⟩
    have hs : state.pending.closed = true := hc
    rw [hn] at hs
    cases hs
  · intro hc
    have hs : state.pending.closed = true := hc
    rw [hn] at hs
    cases hs
  · exact h.acknowledged

theorem afterWrite_spec (batch : List HookExecutionRecord) (stopping : Bool) :
    (afterWrite buffer batch stopping).Idle ∧ afterWrite buffer batch stopping ≠ .stopped := by
  unfold afterWrite
  split
  · exact ⟨nofun, nofun⟩
  · split <;> exact ⟨nofun, nofun⟩

theorem Conserved.writeBatch (h : Conserved buffer [] state) {batch : List HookExecutionRecord}
    {timeoutReason : DropReason} {stopping : Bool}
    (hw : state.writer = .writing batch timeoutReason stopping) (result : WriteResult) :
    Conserved buffer [] { state.writeBatch batch timeoutReason result with
      writer := afterWrite buffer batch stopping } := by
  obtain ⟨hil, hg⟩ := @afterWrite_spec buffer batch stopping
  have hn : state.pending.closed = false := by
    by_contra hcl
    have hs := h.closed.mp (by simpa using hcl)
    rw [hw] at hs
    cases hs
  have hwr : state.writer.batch = batch := by
    rw [hw]
    rfl
  -- A batch that is dropped for `reason`.
  have hdr : ∀ reason, Conserved buffer []
      { batch.foldl (fun state record => state.drop reason record)
          { state with
            metrics := { state.metrics with flushesError := state.metrics.flushesError + 1 } } with
        writer := afterWrite buffer batch stopping } := by
    intro reason
    have hsp := foldl_drop_spec reason batch
      { state with
        metrics := { state.metrics with flushesError := state.metrics.flushesError + 1 } }
      h.counted
    generalize batch.foldl (fun state record => state.drop reason record)
      { state with
        metrics := { state.metrics with flushesError := state.metrics.flushesError + 1 } } =
      after at hsp ⊢
    obtain ⟨hp, -, hh, hwi, hm, hen, hc⟩ := hsp
    have hsa : batch.map ((·.2) ∘ fun record => (reason, record)) = batch := map_id batch
    refine ⟨fun other => ?_, hc, ?_, ?_, ?_, ?_, ?_, ?_⟩
    · have hpl := h.placed other
      rw [count_places, hwr] at hpl
      rw [count_places, hil.batch]
      simp only [hp, hh, hwi, hen, map_append, map_map, hsa,
        count_append, count_nil] at hpl ⊢
      omega
    · rw [hp]
      exact h.always
    · rw [hp]
      exact h.sampled
    · rw [hp]
      exact h.bounded
    · rw [hp]
      simp [hn, hg]
    · rw [hp]
      simp [hn]
    · rw [hm, hwi]
      exact h.acknowledged
  cases result with
  | failed => exact hdr .writeFailed
  | timedOut => exact hdr timeoutReason
  | written =>
    refine ⟨fun other => ?_, h.counted, h.always, h.sampled, h.bounded, ?_, ?_, ?_⟩
    · have hpl := h.placed other
      rw [count_places, hwr] at hpl
      rw [count_places, hil.batch]
      simp only [State.writeBatch, count_append, count_nil] at hpl ⊢
      omega
    · simp [State.writeBatch, hn, hg]
    · simp [State.writeBatch, hn]
    · simp [State.writeBatch, h.acknowledged]

theorem countP_queue {queue : List HookExecutionRecord} {kind : HookExecutionClass}
    (h : ∀ record ∈ queue, record.class = kind) (reason other : DropReason)
    (class_ : HookExecutionClass) : (queue.map (reason, ·)).countP (droppedAs other class_) =
      if other = reason ∧ class_ = kind then queue.length else 0 := by
  induction queue with
  | nil => simp
  | cons record queue ih =>
    have hr := ih fun entry hen => h entry (List.mem_cons_of_mem record hen)
    have hk := h record List.mem_cons_self
    rw [map_cons, List.countP_cons, hr]
    by_cases hm : other = reason ∧ class_ = kind <;> simp [droppedAs, hk, hm]

theorem Conserved.close (h : Conserved buffer [] state) (hw : state.writer = .closing)
    (reason : DropReason) : Conserved buffer [] (state.close reason) where
  placed other := by
    have hp := h.placed other
    have hb : state.writer.batch = [] := by
      rw [hw]
      rfl
    have hsa : state.pending.records.map ((·.2) ∘ fun record => (reason, record)) =
        state.pending.records := map_id _
    rw [count_places, hb] at hp
    rw [count_places]
    simp only [State.close, Writer.batch, map_append, map_map, hsa, count_append,
      count_nil] at hp ⊢
    simp only [Pending.records, append_nil, count_nil] at hp ⊢
    omega
  counted other class_ := by
    have ha := countP_queue h.always reason other class_
    have hs := countP_queue h.sampled reason other class_
    have hc := h.counted other class_
    simp only [State.close, HookExecutionMetrics.recordDropped, Pending.records, map_append,
      List.countP_append, ha, hs, hc]
    omega
  always _ ho := absurd ho not_mem_nil
  sampled _ ho := absurd ho not_mem_nil
  bounded := Nat.zero_le _
  closed := ⟨fun _ => rfl, fun _ => rfl⟩
  empty _ := rfl
  acknowledged := h.acknowledged

theorem Conserved.goTo (h : Conserved buffer [] state) {writer : Writer}
    (hil : state.writer.Idle) (ha : writer.Idle)
    (hg : state.writer ≠ .stopped) (hst : writer ≠ .stopped) :
    Conserved buffer [] { state with writer } where
  placed other := by
    have hp := h.placed other
    rw [count_places, hil.batch] at hp
    rw [count_places, ha.batch]
    exact hp
  counted := h.counted
  always := h.always
  sampled := h.sampled
  bounded := h.bounded
  closed := ⟨fun hc => absurd (h.closed.mp hc) hg, fun hs => absurd hs hst⟩
  empty := h.empty
  acknowledged := h.acknowledged

end Places

section Runs

theorem step_cases (hs : step buffer state action = some next) :
    (∃ record, action = .record record ∧ next = state.record buffer record) ∨
    (∃ writer, state.writer.Idle ∧ writer.Idle ∧ state.writer ≠ .stopped ∧
      writer ≠ .stopped ∧ next = { state with writer }) ∨
    (∃ timeoutReason stopping whenEmpty, state.writer.Idle ∧ state.writer ≠ .stopped ∧
      whenEmpty.Idle ∧ whenEmpty ≠ .stopped ∧ timeoutReason ≠ .bufferFull ∧
      next = state.takeBatch buffer timeoutReason stopping whenEmpty) ∨
    (∃ batch timeoutReason stopping result, state.writer = .writing batch timeoutReason stopping ∧
      next = { state.writeBatch batch timeoutReason result with
        writer := afterWrite buffer batch stopping }) ∨
    (state.writer = .closing ∧ next = state.close .shutdown) := by
  cases action with
  | record record =>
    simp only [step, Option.some.injEq] at hs
    exact .inl ⟨record, rfl, hs.symm⟩
  | wake =>
    cases hw : state.writer with
    | waiting =>
      simp only [step, hw, Option.some.injEq] at hs
      exact .inr (.inl ⟨.flushing, nofun, nofun, nofun, nofun, hs.symm⟩)
    | _ => simp [step, hw] at hs
  | shutdown =>
    cases hw : state.writer with
    | waiting =>
      simp only [step, hw, Option.some.injEq] at hs
      exact .inr (.inl ⟨.stopping, nofun, nofun, nofun, nofun, hs.symm⟩)
    | _ => simp [step, hw] at hs
  | take left =>
    cases hw : state.writer with
    | flushing =>
      simp only [step, hw, Option.some.injEq] at hs
      exact .inr (.inr (.inl ⟨.writeFailed, false, .waiting, nofun, nofun, nofun, nofun, nofun,
        hs.symm⟩))
    | stopping =>
      simp only [step, hw] at hs
      by_cases hl : left = 0
      · rw [if_pos hl, Option.some.injEq] at hs
        exact .inr (.inl ⟨.closing, nofun, nofun, nofun, nofun, hs.symm⟩)
      · rw [if_neg hl, Option.some.injEq] at hs
        refine .inr (.inr (.inl ⟨_, true, .closing, nofun, nofun, nofun, nofun, ?_, hs.symm⟩))
        split <;> exact nofun
    | _ => simp [step, hw] at hs
  | result result =>
    cases hw : state.writer with
    | writing batch timeoutReason stopping =>
      simp only [step, hw, Option.some.injEq] at hs
      exact .inr (.inr (.inr (.inl ⟨batch, timeoutReason, stopping, result, rfl, hs.symm⟩)))
    | _ => simp [step, hw] at hs
  | close =>
    cases hw : state.writer with
    | closing =>
      simp only [step, hw, Option.some.injEq] at hs
      exact .inr (.inr (.inr (.inr ⟨rfl, hs.symm⟩)))
    | _ => simp [step, hw] at hs

theorem Conserved.step (h : Conserved buffer [] state)
    (hs : step buffer state action = some next) : Conserved buffer [] next := by
  rcases step_cases hs with ⟨record, -, rfl⟩ | ⟨writer, hb, ha, hg, hst, rfl⟩ |
    ⟨timeoutReason, stopping, whenEmpty, hb, hg, hem, hst, -, rfl⟩ |
    ⟨batch, timeoutReason, stopping, result, hw, rfl⟩ | ⟨hw, rfl⟩
  · exact h.record record
  · exact h.goTo hb ha hg hst
  · exact h.takeBatch hb hg hem hst
  · exact h.writeBatch hw result
  · exact h.close hw .shutdown

theorem conserved_run {actions : List Action} (hr : Run buffer {} actions state) :
    Conserved buffer [] state :=
  hr.preserves (Conserved buffer []) (fun _ _ _ h _ hs => h.step hs) (conserved_start buffer)

-- A write that is cut off is not taken for a lack of room.
def Timed (state : State) : Prop :=
  ∀ batch timeoutReason stopping, state.writer = .writing batch timeoutReason stopping →
    timeoutReason ≠ .bufferFull

theorem record_writer (state : State) (record : HookExecutionRecord) :
    (state.record buffer record).writer = state.writer := by
  unfold State.record
  dsimp only
  split
  · rfl
  · split
    · split <;> rfl
    · rfl

theorem Timed.step (h : Timed state) (hs : step buffer state action = some next) : Timed next := by
  rcases step_cases hs with ⟨record, -, rfl⟩ | ⟨writer, -, ha, -, -, rfl⟩ |
    ⟨timeoutReason, stopping, whenEmpty, -, -, hem, -, hr, rfl⟩ |
    ⟨batch, timeoutReason, stopping, result, -, rfl⟩ | ⟨-, rfl⟩
  · intro batch reason stopping hw
    rw [record_writer] at hw
    exact h batch reason stopping hw
  · intro batch reason stopping hw
    exact absurd hw (ha batch reason stopping)
  · intro batch reason other hw
    unfold State.takeBatch at hw
    dsimp only at hw
    split at hw
    · exact absurd hw (hem batch reason other)
    · simp only [Writer.writing.injEq] at hw
      rw [← hw.2.1]
      exact hr
  · intro other reason third hw
    exact absurd hw ((@afterWrite_spec buffer batch stopping).1 other reason third)
  · exact fun _ _ _ hw => nomatch hw

theorem timed_run {actions : List Action} (hr : Run buffer {} actions state) : Timed state :=
  hr.preserves Timed (fun _ _ _ h _ hs => h.step hs) (fun _ _ _ h => nomatch h)

theorem dropped_foldl (reason : DropReason) (batch : List HookExecutionRecord) (state : State) :
    (batch.foldl (fun state record => state.drop reason record) state).dropped =
      state.dropped ++ batch.map (reason, ·) := by
  induction batch generalizing state with
  | nil => exact (append_nil _).symm
  | cons record batch ih =>
    rw [List.foldl_cons, ih, State.drop]
    simp

-- For lack of room a record that is always kept goes only when no sampled one is buffered.
def Justified (buffer : HookExecutionBuffer) (state : State)
    (entry : DropReason × HookExecutionRecord) : Prop :=
  entry.1 = .bufferFull → buffer.capacity ≤ state.pending.len ∧
    (entry.2.class = .always → state.pending.sampled = [])

theorem dropped_record (h : Conserved buffer [] state) (record : HookExecutionRecord) :
    ∃ more, (state.record buffer record).dropped = state.dropped ++ more ∧
      ∀ entry ∈ more, Justified buffer state entry := by
  unfold State.record
  dsimp only
  by_cases hc : state.pending.closed = true
  · rw [if_pos hc]
    refine ⟨[(.shutdown, record)], rfl, ?_⟩
    intro entry hen hf
    rw [mem_singleton] at hen
    rw [hen] at hf
    cases hf
  · rw [if_neg hc]
    by_cases hf : buffer.capacity ≤ state.pending.len
    · rw [if_pos hf]
      cases hcl : record.class with
      | sampled =>
        refine ⟨[(.bufferFull, record)], rfl, ?_⟩
        intro entry hen _
        rw [mem_singleton] at hen
        subst hen
        refine ⟨hf, fun ha => ?_⟩
        rw [hcl] at ha
        cases ha
      | always =>
        cases hs : state.pending.sampled with
        | nil =>
          refine ⟨[(.bufferFull, record)], rfl, ?_⟩
          intro entry _ _
          exact ⟨hf, fun _ => hs⟩
        | cons oldest sampled =>
          refine ⟨[(.bufferFull, oldest)], rfl, ?_⟩
          intro entry hen _
          rw [mem_singleton] at hen
          subst hen
          refine ⟨hf, fun ha => ?_⟩
          have hk := h.sampled oldest (by rw [hs]; exact List.mem_cons_self)
          rw [hk] at ha
          cases ha
    · rw [if_neg hf]
      exact ⟨[], (append_nil _).symm, fun _ hen => absurd hen not_mem_nil⟩

theorem dropped_step (h : Conserved buffer [] state) (ht : Timed state)
    (hs : step buffer state action = some next) : ∃ more, next.dropped = state.dropped ++ more ∧
      ∀ entry ∈ more, Justified buffer state entry := by
  -- No other step drops a record for lack of room.
  have ho : ∀ (reason : DropReason) (records : List HookExecutionRecord),
      reason ≠ .bufferFull → ∀ entry ∈ records.map (reason, ·), Justified buffer state entry := by
    intro reason records hr entry hen hf
    obtain ⟨record, -, rfl⟩ := List.mem_map.mp hen
    exact absurd hf hr
  rcases step_cases hs with ⟨record, -, rfl⟩ | ⟨writer, -, -, -, -, rfl⟩ |
    ⟨timeoutReason, stopping, whenEmpty, -, -, -, -, -, rfl⟩ |
    ⟨batch, timeoutReason, stopping, result, hw, rfl⟩ | ⟨-, rfl⟩
  · exact dropped_record h record
  · exact ⟨[], (append_nil _).symm, fun _ hen => absurd hen not_mem_nil⟩
  · exact ⟨[], (append_nil _).symm, fun _ hen => absurd hen not_mem_nil⟩
  · cases result with
    | written =>
      exact ⟨[], (append_nil _).symm, fun _ hen => absurd hen not_mem_nil⟩
    | failed =>
      exact ⟨batch.map (.writeFailed, ·), dropped_foldl _ _ _, ho .writeFailed batch nofun⟩
    | timedOut =>
      exact ⟨batch.map (timeoutReason, ·), dropped_foldl _ _ _,
        ho timeoutReason batch (ht batch timeoutReason stopping hw)⟩
  · exact ⟨state.pending.records.map (.shutdown, ·), rfl, ho .shutdown _ nofun⟩

theorem stopped_step (h : state.writer = .stopped)
    (hs : step buffer state action = some next) : next.writer = .stopped := by
  rcases step_cases hs with ⟨record, -, rfl⟩ | ⟨writer, -, -, hg, -⟩ |
    ⟨timeoutReason, stopping, whenEmpty, -, hg, -⟩ |
    ⟨batch, timeoutReason, stopping, result, hw, -⟩ | ⟨hw, -⟩
  · rw [record_writer]
    exact h
  · exact absurd h hg
  · exact absurd h hg
  · rw [h] at hw
    cases hw
  · rw [h] at hw
    cases hw

-- Whatever the interleaving, each record handed over is buffered, in the one batch that is being
-- written, acknowledged, or counted once as dropped under its own class. The buffer never has
-- more than its capacity, a record that is always kept makes way only for its own kind, and
-- nothing is buffered once the buffer is closed.
theorem executions_are_conserved (buffer : HookExecutionBuffer) :
    (∀ actions state, Run buffer {} actions state →
      state.handed.Perm (state.pending.records ++ state.writer.batch ++ state.written ++
        state.dropped.map (·.2)) ∧
      (∀ reason class_, state.metrics.dropped reason class_ = state.dropped.countP
        fun entry => reason = entry.1 ∧ class_ = entry.2.class) ∧
      state.metrics.written = state.written.length ∧
      state.pending.len ≤ buffer.capacity) ∧
    (∀ actions state action next, Run buffer {} actions state →
      step buffer state action = some next →
      ∃ more, next.dropped = state.dropped ++ more ∧
        ∀ entry ∈ more, entry.1 = .bufferFull → entry.2.class = .always →
          state.pending.sampled = []) ∧
    ∀ actions state closed later last, Run buffer {} actions state →
      step buffer state .close = some closed → Run buffer closed later last →
      last.pending.records = [] := by
  refine ⟨?_, ?_, ?_⟩
  · intro actions state hrun
    have h := conserved_run hrun
    refine ⟨?_, h.counted, h.acknowledged, h.bounded⟩
    rw [List.perm_iff_count]
    intro record
    have hplaced := h.placed record
    rw [List.count_nil] at hplaced
    exact hplaced
  · intro actions state action next hrun hstep
    obtain ⟨more, hmore, hall⟩ := dropped_step (conserved_run hrun) (timed_run hrun) hstep
    exact ⟨more, hmore, fun entry hentry hfull => (hall entry hentry hfull).2⟩
  · intro actions state closed later last hrun hclose hlater
    have hstopped : closed.writer = .stopped := by
      cases hwriter : state.writer with
      | closing =>
        simp only [step, hwriter, Option.some.injEq] at hclose
        rw [← hclose]
        rfl
      | _ => simp [step, hwriter] at hclose
    have hlast : last.writer = .stopped :=
      hlater.preserves (fun state => state.writer = .stopped)
        (fun _ _ _ h _ hstep => stopped_step h hstep) hstopped
    have hconserved := conserved_run ((hrun.snoc trivial hclose).append hlater)
    exact hconserved.empty (hconserved.closed.mpr hlast)

end Runs

end FlareIm.ExecutionBuffer
