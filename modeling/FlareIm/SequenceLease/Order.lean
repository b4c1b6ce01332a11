import FlareIm.SequenceLease.Theorems

namespace FlareIm.SequenceLease

open Transition
open Function (update update_of_ne update_self)

variable {setup : Setup} {state next : State} {key : String} {phase : Phase} {action : Action}

variable {other deadline call process' token : Nat} {range : SequenceRange}
  {tenantId conversationId key' : String} {refilled : State}

section Contract

variable (setup : Setup) (state : State)

-- A number is larger than those that had been returned when its call started, and is returned
-- before the deadline of its lease.
structure InSequence : Prop where
  order {entry : Handed} (hentry : entry ∈ state.handed) {earlier : Handed}
    (hearlier : earlier ∈ state.began entry.call) (hkey : earlier.key = entry.key) :
    earlier.seq < entry.seq
  deadline {entry : Handed} (hentry : entry ∈ state.handed) {deadline : Nat}
    (hdeadline : entry.deadline = some deadline) : entry.time < deadline

def HandsOutInSequence (ok : State → Action → Prop) : Prop :=
  ∀ actions state, Run (step setup) ok initial actions state → InSequence state

-- Only leased allocators draw on the counters, and a lease lasts for as long as it was taken.
def LeasesLast : Action → Prop
  | .direct _ _ => False
  | .expire key => ∀ lease, state.lease key = some lease → lease.expiresAt < state.now
  | _ => True

-- A script takes a lease for its own node's only if it is.
def NamesApart : Action → Prop
  | .script call => ∀ process tenantId conversationId,
      setup.call call = .allocate process tenantId conversationId → ∀ lease,
        state.lease (convKey tenantId conversationId) = some lease →
          lease.owner setup = (setup.nodeOf process).nodeId.toList →
            lease.node = setup.host process
  | _ => True

-- A call that has read the clock before a deadline does not wait past it, neither for the lock
-- nor for the answer to the script.
def InTime : Action → Prop
  | .lock call => ∀ process tenantId conversationId sampled window,
      setup.call call = .allocate process tenantId conversationId →
        state.phases call = .locking sampled →
          state.windows process (convKey tenantId conversationId) = some window →
            sampled < window.localValidUntil → state.now < window.localValidUntil
  | .reply call => ∀ process tenantId conversationId sampled outcome,
      setup.call call = .allocate process tenantId conversationId →
        state.phases call = .replied sampled outcome →
          state.now < sampled + (setup.nodeOf process).validFor
  | _ => True

end Contract

section Holdings

def Phase.sampled : Phase → Option Nat
  | .locking sampled | .refilling sampled _ | .replied sampled _ => some sampled
  | _ => none

def Phase.isLocking : Phase → Bool
  | .refilling _ _ | .replied _ _ => true
  | _ => false

-- What a process may hand out under a lease, and until when: its window, or the answer to its
-- call.
inductive Held (setup : Setup) (state : State) (process : Nat) (key : String) :
    SequenceRange → Nat → Prop where
  | window {window : ConvState} (hwindow : state.windows process key = some window) :
      Held setup state process key window.segment window.localValidUntil
  | reply {call sampled token start end_ : Nat} {tenantId conversationId : String}
      (hcall : setup.call call = .allocate process tenantId conversationId)
      (hkey : convKey tenantId conversationId = key)
      (hphase : state.phases call = .replied sampled (.granted token start end_)) :
      Held setup state process key ⟨start, end_⟩ (sampled + (setup.nodeOf process).validFor)

-- Whoever holds numbers above another's holds them since the other's deadline.
structure Ordered (setup : Setup) (state : State) : Prop where
  running {process : Nat} (h : state.status process = .running) :
    state.running (setup.host process) = some process
  calling {call process : Nat} {tenantId conversationId : String}
    (hcall : setup.call call = .allocate process tenantId conversationId)
    (hphase : (state.phases call).sampled ≠ none) : state.status process = .running
  windowed {process : Nat} {key : String} (h : state.windows process key ≠ none) :
    state.status process = .running
  locked {call process : Nat} {tenantId conversationId : String}
    (hcall : setup.call call = .allocate process tenantId conversationId)
    (hphase : (state.phases call).isLocking = true) : state.lock process = some call
  counted {process : Nat} {key : String} {range : SequenceRange} {deadline : Nat}
    (h : Held setup state process key range deadline) : range.end_ ≤ state.counter key
  lasting {process : Nat} {key : String} {range : SequenceRange} {deadline : Nat}
    (h : Held setup state process key range deadline) :
    deadline ≤ state.now + (setup.nodeOf process).ttl
  leased {process : Nat} {key : String} {range : SequenceRange} {deadline : Nat}
    (h : Held setup state process key range deadline) (hvalid : state.now < deadline) :
    ∃ lease, state.lease key = some lease ∧ lease.node = setup.host process ∧
      deadline ≤ lease.expiresAt
  passed {process : Nat} {key : String} {range : SequenceRange} {deadline : Nat}
    (h : Held setup state process key range deadline) {entry : Handed}
    (hentry : entry ∈ state.handed) (hkey : entry.key = key) (hle : range.next ≤ entry.seq) :
    deadline ≤ entry.time
  overtaken {process other : Nat} {key : String} {range range' : SequenceRange}
    {deadline deadline' : Nat} (h : Held setup state process key range deadline)
    (hother : Held setup state other key range' deadline') (hne : process ≠ other)
    (hle : range.next ≤ range'.end_) : deadline ≤ state.now
  sampled {call sampled : Nat} (hphase : (state.phases call).sampled = some sampled) :
    sampled ≤ state.now ∧ ∀ entry ∈ state.began call, entry.time ≤ sampled
  behind {call sampled token start end_ : Nat}
    (hphase : state.phases call = .replied sampled (.granted token start end_)) {entry : Handed}
    (hentry : entry ∈ state.began call) (hkey : entry.key = (setup.call call).key) :
    entry.seq < start
  timed {entry : Handed} (hentry : entry ∈ state.handed) : entry.time ≤ state.now
  began (call : Nat) : state.began call ⊆ state.handed
  finished {entry : Handed} (hentry : entry ∈ state.handed) :
    state.phases entry.call = .finished
  order {entry : Handed} (hentry : entry ∈ state.handed) {earlier : Handed}
    (hearlier : earlier ∈ state.began entry.call) (hkey : earlier.key = entry.key) :
    earlier.seq < entry.seq

theorem ordered_initial : Ordered setup initial where
  running h := absurd h (by simp [initial])
  calling _ hp := absurd rfl hp
  windowed h := absurd rfl h
  locked _ hp := absurd hp (by simp [initial, Phase.isLocking])
  counted h := by cases h <;> simp [initial] at *
  lasting h := by cases h <;> simp [initial] at *
  leased h := by cases h <;> simp [initial] at *
  passed _ _ hen := absurd hen List.not_mem_nil
  overtaken h := by cases h <;> simp [initial] at *
  sampled hp := absurd hp (by simp [initial, Phase.sampled])
  behind hp := absurd hp (by simp [initial])
  timed hen := absurd hen List.not_mem_nil
  began _ := List.nil_subset _
  finished hen := absurd hen List.not_mem_nil
  order hen := absurd hen List.not_mem_nil

theorem Ordered.same_process (h : Ordered setup state) {process : Nat}
    (hr : state.status process = .running) (ho : state.status other = .running)
    (hh : setup.host process = setup.host other) : process = other := by
  have hf := h.running hr
  rw [hh, h.running ho, Option.some.injEq] at hf
  exact hf.symm

theorem Ordered.holder (h : Ordered setup state) {process : Nat}
    (hh : Held setup state process key range deadline) : state.status process = .running := by
  cases hh with
  | window hw =>
    have hs : state.windows process key ≠ none := by simp [hw]
    exact h.windowed hs
  | reply hc hk hp => exact h.calling hc (by simp [hp, Phase.sampled])

-- The parts about processes and calls, which most steps leave as they are.
structure Settled (setup : Setup) (state next : State) : Prop where
  handed : next.handed = state.handed
  began : next.began = state.began
  now : state.now ≤ next.now
  counter (key : String) : state.counter key ≤ next.counter key
  running {process : Nat} (h : next.status process = .running) :
    next.running (setup.host process) = some process
  calling {call process : Nat} {tenantId conversationId : String}
    (hcall : setup.call call = .allocate process tenantId conversationId)
    (hphase : (next.phases call).sampled ≠ none) : next.status process = .running
  windowed {process : Nat} {key : String} (h : next.windows process key ≠ none) :
    next.status process = .running
  locked {call process : Nat} {tenantId conversationId : String}
    (hcall : setup.call call = .allocate process tenantId conversationId)
    (hphase : (next.phases call).isLocking = true) : next.lock process = some call
  sampled {call sampled : Nat} (hphase : (next.phases call).sampled = some sampled) :
    (state.phases call).sampled = some sampled
  finished {call : Nat} (hphase : state.phases call = .finished) : next.phases call = .finished

theorem Ordered.settle (h : Ordered setup state) (hs : Settled setup state next)
    (hh : ∀ {process key range deadline}, Held setup next process key range deadline →
      Held setup state process key range deadline)
    (hl : ∀ {process key range deadline}, Held setup state process key range deadline →
      next.now < deadline → ∃ lease, next.lease key = some lease ∧
        lease.node = setup.host process ∧ deadline ≤ lease.expiresAt)
    (hr : ∀ {call sampled token start end_},
      next.phases call = .replied sampled (.granted token start end_) →
        state.phases call = .replied sampled (.granted token start end_)) : Ordered setup next where
  running := hs.running
  calling := hs.calling
  windowed := hs.windowed
  locked := hs.locked
  counted hn := Nat.le_trans (h.counted (hh hn)) (hs.counter _)
  lasting hn := by
    have hla := h.lasting (hh hn)
    have hno := hs.now
    omega
  leased hn hv := hl (hh hn) hv
  passed {_ _ _ _} hn {_} hen := h.passed (hh hn) (hs.handed ▸ hen)
  overtaken hn ho hne hle :=
    Nat.le_trans (h.overtaken (hh hn) (hh ho) hne hle) hs.now
  sampled hp := by
    rw [hs.began]
    obtain ⟨hno, hb⟩ := h.sampled (hs.sampled hp)
    exact ⟨Nat.le_trans hno hs.now, hb⟩
  behind {_ _ _ _ _} hp {_} hen := h.behind (hr hp) (hs.began ▸ hen)
  timed hen := Nat.le_trans (h.timed (hs.handed ▸ hen)) hs.now
  began call := by
    rw [hs.began, hs.handed]
    exact h.began call
  finished hen := hs.finished (h.finished (hs.handed ▸ hen))
  order {_} hen {_} hea :=
    h.order (hs.handed ▸ hen) (hs.began ▸ hea)

theorem Ordered.move (h : Ordered setup state) (call : Nat) (phase : Phase)
    (hold : state.phases call ≠ .finished)
    (hsa : ∀ sampled, phase.sampled = some sampled → (state.phases call).sampled = some sampled)
    (hr : ∀ sampled token start end_, phase ≠ .replied sampled (.granted token start end_))
    (hn : next.phases = update state.phases call phase)
    (hha : next.handed = state.handed) (hb : next.began = state.began)
    (hno : next.now = state.now) (hco : ∀ key, state.counter key ≤ next.counter key)
    (hs : next.status = state.status) (hru : next.running = state.running)
    (hwi : ∀ process key window, next.windows process key = some window →
      state.windows process key = some window)
    (hl : ∀ {other process tenantId conversationId},
      setup.call other = .allocate process tenantId conversationId →
        (next.phases other).isLocking = true → next.lock process = some other)
    (hla : ∀ {process key range deadline}, Held setup state process key range deadline →
      next.now < deadline → ∃ lease, next.lease key = some lease ∧
        lease.node = setup.host process ∧ deadline ≤ lease.expiresAt) : Ordered setup next := by
  have hsu : ∀ {other sampled}, (next.phases other).sampled = some sampled →
      (state.phases other).sampled = some sampled := by
    intro other sampled hp
    rw [hn] at hp
    by_cases ho : other = call
    · subst ho
      rw [update_self] at hp
      exact hsa _ hp
    · rwa [update_of_ne ho] at hp
  have hg : ∀ {other sampled token start end_},
      next.phases other = .replied sampled (.granted token start end_) →
        state.phases other = .replied sampled (.granted token start end_) := by
    intro other sampled token start end_ hp
    rw [hn] at hp
    by_cases ho : other = call
    · subst ho
      rw [update_self] at hp
      exact absurd hp (hr _ _ _ _)
    · rwa [update_of_ne ho] at hp
  refine h.settle ?_ ?_ hla hg
  · exact
      { handed := hha
        began := hb
        now := Nat.le_of_eq hno.symm
        counter := hco
        running := fun hrn => by
          rw [hru]
          exact h.running (hs ▸ hrn)
        calling := fun hc hp => by
          obtain ⟨sampled, hso⟩ := Option.ne_none_iff_exists'.mp hp
          rw [hs]
          exact h.calling hc (by simp [hsu hso])
        windowed := fun hw => by
          obtain ⟨window, hso⟩ := Option.ne_none_iff_exists'.mp hw
          rw [hs]
          have hst := hwi _ _ _ hso
          exact h.windowed (Option.ne_none_iff_exists'.mpr ⟨window, hst⟩)
        locked := hl
        sampled := hsu
        finished := fun {other} hp => by
          rw [hn]
          have ho : other ≠ call := by
            rintro rfl
            exact hold hp
          rw [update_of_ne ho]
          exact hp }
  · intro process key range deadline hh
    cases hh with
    | window hw => exact .window (hwi _ _ _ hw)
    | reply hc hk hp => exact .reply hc hk (hg hp)

end Holdings

section Steps

theorem Ordered.handOut (h : Ordered setup state) {process seq : Nat}
    (hk : (setup.call call).key = key) (hh : Held setup state process key range deadline)
    (hra : range.next ≤ seq ∧ seq ≤ range.end_)
    (hbe : ∀ entry ∈ state.began call, entry.key = key → entry.seq < seq)
    (hp : (state.phases call).sampled ≠ none)
    (hnx : next.phases = update state.phases call .finished)
    (hha : next.handed = ⟨call, (setup.call call).tenantId, (setup.call call).conversationId,
      seq, state.now, some deadline⟩ :: state.handed)
    (hb : next.began = state.began) (hno : next.now = state.now)
    (hco : next.counter = state.counter) (hst : next.status = state.status)
    (hru : next.running = state.running) (hla : next.lease = state.lease)
    (hw : ∀ process' key', next.windows process' key' ≠ none → next.status process' = .running)
    (hl : ∀ {other process tenantId conversationId},
      setup.call other = .allocate process tenantId conversationId →
        (next.phases other).isLocking = true → next.lock process = some other)
    (hho : ∀ {process' key' range' deadline'}, Held setup next process' key' range' deadline' →
        (process' = process ∧ key' = key ∧ range' = ⟨seq + 1, range.end_⟩ ∧ deadline' = deadline) ∨
        (Held setup state process' key' range' deadline' ∧ (key' = key → process' ≠ process))) :
    Ordered setup next := by
  have het : ∀ {entry : Handed}, entry = ⟨call, (setup.call call).tenantId,
      (setup.call call).conversationId, seq, state.now, some deadline⟩ → entry.key = key := by
    rintro entry rfl
    exact hk
  have ho : ∀ {other}, other ≠ call → next.phases other = state.phases other := by
    intro other hne
    rw [hnx, update_of_ne hne]
  have hse : next.phases call = .finished := by
    rw [hnx, update_self]
  exact
    { running := fun hrn => by
        rw [hru]
        exact h.running (hst ▸ hrn)
      calling := fun {other _ _ _} hc hs => by
        have hne : other ≠ call := by
          rintro rfl
          exact hs (by simp [hse, Phase.sampled])
        rw [ho hne] at hs
        rw [hst]
        exact h.calling hc hs
      windowed := fun hwi => hw _ _ hwi
      locked := hl
      counted := fun hn => by
        rw [hco]
        rcases hho hn with ⟨rfl, rfl, rfl, rfl⟩ | hold
        · have hcu := h.counted hh
          exact hcu
        · exact h.counted hold.1
      lasting := fun hn => by
        rw [hno]
        rcases hho hn with ⟨rfl, rfl, rfl, rfl⟩ | hold
        · exact h.lasting hh
        · exact h.lasting hold.1
      leased := fun hn hv => by
        rw [hno] at hv
        rw [hla]
        rcases hho hn with ⟨rfl, rfl, rfl, rfl⟩ | hold
        · exact h.leased hh hv
        · exact h.leased hold.1 hv
      passed := fun {process' key' range' deadline'} hn {entry} hen hsa hle => by
        rw [hha, List.mem_cons] at hen
        rcases hho hn with ⟨rfl, rfl, rfl, rfl⟩ | hold <;> rcases hen with rfl | hen
        · simp only at hle
          omega
        · exact h.passed hh hen hsa (by simp only at hle; omega)
        · -- the other process holds numbers below the one that went out
          have hke : key' = key := hsa.symm.trans (het rfl)
          subst hke
          simp only at hle
          exact h.overtaken hold.1 hh (hold.2 rfl) (by omega)
        · exact h.passed hold.1 hen hsa hle
      overtaken := fun {process' other key' range' range'' _ _} hn hn' hne hle => by
        rw [hno]
        rcases hho hn with ⟨rfl, rfl, rfl, rfl⟩ | hold <;>
          rcases hho hn' with ⟨rfl, hke, rfl, rfl⟩ | hold'
        · exact absurd rfl hne
        · exact h.overtaken hh hold'.1 hne (by simp only at hle; omega)
        · subst hke
          exact h.overtaken hold.1 hh hne (by simp only at hle; omega)
        · exact h.overtaken hold.1 hold'.1 hne hle
      sampled := fun {other sampled} hs => by
        have hne : other ≠ call := by
          rintro rfl
          simp [hse, Phase.sampled] at hs
        rw [ho hne] at hs
        rw [hno, hb]
        exact h.sampled hs
      behind := fun {other _ _ _ _} hr {entry} hen hsa => by
        have hne : other ≠ call := by
          rintro rfl
          simp [hse] at hr
        rw [ho hne] at hr
        exact h.behind hr (hb ▸ hen) hsa
      timed := fun hen => by
        rw [hha, List.mem_cons] at hen
        rw [hno]
        rcases hen with rfl | hen
        · exact Nat.le_refl _
        · exact h.timed hen
      began := fun other => by
        rw [hb, hha]
        exact List.subset_cons_of_subset _ (h.began other)
      finished := fun {entry} hen => by
        rw [hha, List.mem_cons] at hen
        rcases hen with rfl | hen
        · exact hse
        · have hf := h.finished hen
          have hne : entry.call ≠ call := by
            intro hsa
            rw [hsa] at hf
            exact hp (by simp [hf, Phase.sampled])
          rw [ho hne, hf]
      order := fun {entry} hen {earlier} hea hsa => by
        rw [hha, List.mem_cons] at hen
        rw [hb] at hea
        rcases hen with rfl | hen
        · exact hbe earlier hea (hsa.trans (het rfl))
        · exact h.order hen hea hsa }

theorem Ordered.locked_leaving (h : Ordered setup state)
    (hp : phase.isLocking = false) {process : Nat}
    (ho : setup.call other = .allocate process tenantId conversationId)
    (hb : (update state.phases call phase other).isLocking = true) :
    state.lock process = some other := by
  by_cases hs : other = call
  · subst hs
    rw [update_self, hp] at hb
    cases hb
  · rw [update_of_ne hs] at hb
    exact h.locked ho hb

theorem Ordered.locked_unlocking (h : Ordered setup state) {process : Nat}
    (hc : setup.call call = .allocate process tenantId conversationId)
    (hlo : (state.phases call).isLocking = true)
    (hp : phase.isLocking = false) {tenantId' conversationId' : String}
    (ho : setup.call other = .allocate process' tenantId' conversationId')
    (hb : (update state.phases call phase other).isLocking = true) :
    update state.lock process none process' = some other := by
  have hl := h.locked_leaving hp ho hb
  have hne : process' ≠ process := by
    rintro rfl
    rw [h.locked hc hlo] at hl
    cases hl
    rw [update_self, hp] at hb
    cases hb
  rw [update_of_ne hne]
  exact hl

theorem setWindow_cases {process : Nat} {window found : ConvState}
    (h : (state.setWindow process key (some window)).windows process' key' = some found) :
    (process' = process ∧ key' = key ∧ found = window) ∨
      (state.windows process' key' = some found ∧ (key' = key → process' ≠ process)) := by
  simp only [State.setWindow] at h
  by_cases hp : process' = process
  · subst hp
    rw [update_self] at h
    by_cases hk : key' = key
    · subst hk
      rw [update_self, Option.some.injEq] at h
      exact .inl ⟨rfl, rfl, h.symm⟩
    · rw [update_of_ne hk] at h
      exact .inr ⟨h, fun hs => absurd hs hk⟩
  · rw [update_of_ne hp] at h
    exact .inr ⟨h, fun _ => hp⟩

theorem Ordered.windowed_setWindow (h : Ordered setup state) {process : Nat}
    {window : Option ConvState} (hr : state.status process = .running)
    (hs : (state.setWindow process key window).windows process' key' ≠ none) :
    state.status process' = .running := by
  simp only [State.setWindow] at hs
  by_cases hp : process' = process
  · rw [hp]
    exact hr
  · rw [update_of_ne hp] at hs
    exact h.windowed hs

-- What is held after a call has left with a number from the window, when no other call of its
-- process holds the lock.
theorem held_handOut {process until_ : Nat}
    {rest : SequenceRange} (hn : Held setup next process' key' range deadline)
    (hp : next.phases = update state.phases call .finished)
    (hw : next.windows = (state.setWindow process key (some ⟨rest, token, until_⟩)).windows)
    (ha : ∀ {other tenantId conversationId}, other ≠ call →
      setup.call other = .allocate process tenantId conversationId →
        (state.phases other).isLocking = false) :
    (process' = process ∧ key' = key ∧ range = rest ∧ deadline = until_) ∨
      (Held setup state process' key' range deadline ∧ (key' = key → process' ≠ process)) := by
  cases hn with
  | @window found hf =>
    rw [hw] at hf
    rcases setWindow_cases hf with ⟨rfl, rfl, rfl⟩ | ⟨hold, hne⟩
    · exact .inl ⟨rfl, rfl, rfl, rfl⟩
    · exact .inr ⟨.window hold, hne⟩
  | @reply other sampled token start end_ tenantId conversationId ho hk hr =>
    rw [hp] at hr
    by_cases hs : other = call
    · subst hs
      rw [update_self] at hr
      cases hr
    · rw [update_of_ne hs] at hr
      refine .inr ⟨.reply ho hk hr, ?_⟩
      rintro - rfl
      have hl := ha hs ho
      simp [hr, Phase.isLocking] at hl

theorem ordered_lock (h : Ordered setup state) {process : Nat}
    (hc : setup.call call = .allocate process tenantId conversationId)
    (hs : lockAllocate setup state call process (convKey tenantId conversationId) =
      some next) : Ordered setup next := by
  unfold lockAllocate at hs
  split at hs
  · rename_i sampled hp hlo
    have hsa : (state.phases call).sampled = some sampled := by
      rw [hp]
      rfl
    have hil : ∀ {other tenantId' conversationId'},
        setup.call other = .allocate process tenantId' conversationId' →
          (state.phases other).isLocking = false := by
      intro other tenantId' conversationId' ho
      rw [Bool.eq_false_iff]
      intro hl
      have := h.locked ho hl
      rw [hlo] at this
      exact absurd this (by simp)
    split at hs
    · rename_i window seq segment hf
      obtain ⟨hw, hv, hle, rfl, rfl⟩ := fastPath_eq_some hf
      cases hs
      have hh : Held setup state process (convKey tenantId conversationId) window.segment
          window.localValidUntil := .window hw
      refine h.handOut (key_of_allocate hc) hh ⟨Nat.le_refl _, hle⟩ ?_ (by simp [hsa])
        rfl rfl rfl rfl rfl rfl rfl rfl ?_ ?_ ?_
      · intro entry hen hk
        by_contra hge
        have hpa := h.passed hh (h.began call hen) hk (by omega)
        have hb := (h.sampled hsa).2 entry hen
        omega
      · intro process' key' hso
        exact h.windowed_setWindow (h.holder hh) hso
      · intro other process' tenantId' conversationId' ho hl
        exact h.locked_leaving rfl ho hl
      · intro process' key' range' deadline' hn
        exact held_handOut hn rfl rfl fun _ ho => hil ho
    · cases hs
      refine h.move call (.refilling sampled ((state.windows process
        (convKey tenantId conversationId)).map (·.fencingToken))) (by simp [hp]) ?_ (by simp)
        rfl rfl rfl rfl (fun _ => Nat.le_refl _) rfl rfl (fun _ _ _ hw => hw) ?_
        (fun hh hv => h.leased hh hv)
      · intro sampled' hso
        rw [hsa]
        exact hso
      · intro other process' tenantId' conversationId' ho hl
        simp only [State.move] at hl ⊢
        by_cases hsm : other = call
        · subst hsm
          rw [hc, Call.allocate.injEq] at ho
          obtain ⟨rfl, -, -⟩ := ho
          rw [update_self]
        · rw [update_of_ne hsm] at hl
          have hne : process' ≠ process := by
            rintro rfl
            rw [hil ho] at hl
            cases hl
          rw [update_of_ne hne]
          exact h.locked ho hl
  · cases hs

-- The script leaves the leases of others alone until they are over.
theorem Ordered.refill_leased (h : Ordered setup state) {index : Nat}
    {outcome : LeaseOutcome} (hr : Refill setup state index key next outcome)
    (hna : ∀ lease, state.lease key = some lease →
      lease.owner setup = (setup.node index).nodeId.toList → lease.node = index)
    {process : Nat}
    (hh : Held setup state process key' range deadline) (hv : state.now < deadline) :
    ∃ lease, next.lease key' = some lease ∧ lease.node = setup.host process ∧
      deadline ≤ lease.expiresAt := by
  have hla := h.leased hh hv
  have hls := h.lasting hh
  cases hr with
  | refused hn _ =>
    subst hn
    exact hla
  | extended lease hl ho hn _ =>
    subst hn
    simp only
    by_cases hk : key' = key
    · subst hk
      obtain ⟨lease', hl', hno, hep⟩ := hla
      rw [hl] at hl'
      cases hl'
      have hin : setup.host process = index := hno.symm.trans (hna lease hl ho)
      rw [update_self]
      refine ⟨_, rfl, hno, ?_⟩
      rw [← hin]
      exact hls
    · rw [update_of_ne hk]
      exact hla
  | taken hl token hn _ =>
    subst hn
    simp only
    by_cases hk : key' = key
    · subst hk
      obtain ⟨lease', hl', -⟩ := hla
      rw [hl] at hl'
      cases hl'
    · rw [update_of_ne hk]
      exact hla

theorem Ordered.refill_alone (h : Ordered setup state) {caller : Nat}
    {outcome : LeaseOutcome}
    (hre : Refill setup state (setup.host caller) key next outcome)
    (hg : outcome ≠ .notOwner)
    (hn : ∀ lease, state.lease key = some lease →
      lease.owner setup = (setup.node (setup.host caller)).nodeId.toList →
        lease.node = setup.host caller)
    (hr : state.status caller = .running) {process : Nat}
    (hh : Held setup state process key range deadline)
    (hne : process ≠ caller) : deadline ≤ state.now := by
  by_contra hv
  obtain ⟨lease', hl', hno, -⟩ := h.leased hh (by omega)
  cases hre with
  | refused _ ho => exact hg ho
  | extended lease hl hon _ _ =>
    rw [hl, Option.some.injEq] at hl'
    subst hl'
    have hho : setup.host process = setup.host caller :=
      hno.symm.trans (hn lease hl hon)
    exact hne (h.same_process (h.holder hh) hr hho)
  | taken hl _ _ _ =>
    rw [hl] at hl'
    cases hl'

theorem held_granted (h : Ordered setup state) {process sampled : Nat}
    (hc : setup.call call = .allocate process tenantId conversationId)
    (hw : refilled.windows = state.windows) (hp : refilled.phases = state.phases)
    (hn : Held setup (refilled.move call (.replied sampled (.granted token
      (state.counter (convKey tenantId conversationId) + 1)
      (refilled.counter (convKey tenantId conversationId))))) process' key' range deadline) :
    (process' = process ∧ key' = convKey tenantId conversationId ∧
        range = ⟨state.counter (convKey tenantId conversationId) + 1,
          refilled.counter (convKey tenantId conversationId)⟩ ∧
        deadline = sampled + (setup.nodeOf process).validFor) ∨
      (Held setup state process' key' range deadline ∧ range.end_ ≤ state.counter key') := by
  cases hn with
  | @window found hf =>
    simp only [State.move, hw] at hf
    exact .inr ⟨.window hf, h.counted (.window hf)⟩
  | @reply other sampled' token' start end_ tenantId' conversationId' ho hk hr =>
    simp only [State.move, hp] at hr
    by_cases hs : other = call
    · subst hs
      rw [update_self] at hr
      rw [hc, Call.allocate.injEq] at ho
      obtain ⟨rfl, rfl, rfl⟩ := ho
      obtain ⟨rfl, -, rfl, rfl⟩ := hr
      exact .inl ⟨rfl, hk.symm, rfl, rfl⟩
    · rw [update_of_ne hs] at hr
      exact .inr ⟨.reply ho hk hr, h.counted (.reply ho hk hr)⟩

-- The lock stays with the call whose script has run.
theorem locked_script (h : Ordered setup state) {process : Nat}
    (hc : setup.call call = .allocate process tenantId conversationId)
    (hl : state.lock process = some call) (hlo : refilled.lock = state.lock)
    (hp : refilled.phases = state.phases)
    {tenantId' conversationId' : String}
    (ho : setup.call other = .allocate process' tenantId' conversationId')
    (hb : ((refilled.move call phase).phases other).isLocking = true) :
    (refilled.move call phase).lock process' = some other := by
  simp only [State.move, hlo, hp] at hb ⊢
  by_cases hs : other = call
  · subst hs
    rw [hc, Call.allocate.injEq] at ho
    obtain ⟨rfl, -, -⟩ := ho
    exact hl
  · rw [update_of_ne hs] at hb
    exact h.locked ho hb

theorem ordered_granted (hse : Separate setup state) (h : Ordered setup state)
    {process sampled : Nat}
    {expected : Option Nat}
    (hc : setup.call call = .allocate process tenantId conversationId)
    (hp : state.phases call = .refilling sampled expected)
    (hna : ∀ lease, state.lease (convKey tenantId conversationId) = some lease →
      lease.owner setup = (setup.node (setup.host process)).nodeId.toList →
        lease.node = setup.host process)
    (hre : Refill setup state (setup.host process) (convKey tenantId conversationId) refilled
      (.granted token (state.counter (convKey tenantId conversationId) + 1)
        (refilled.counter (convKey tenantId conversationId)))) :
    Ordered setup (refilled.move call (.replied sampled (.granted token
      (state.counter (convKey tenantId conversationId) + 1)
      (refilled.counter (convKey tenantId conversationId))))) := by
  obtain ⟨hha, hb, hno, hst, hru, hw, hlc, hph, hco, -⟩ :=
    hre.unchanged
  have hsa : (state.phases call).sampled = some sampled := by
    rw [hp]
    rfl
  have hca := h.calling hc (by simp [hsa])
  have hlo : state.lock process = some call := by
    apply h.locked hc
    rw [hp]
    rfl
  have hv := (setup.nodeOf process).validFor_le
  have ht := (h.sampled hsa).1
  have hmv : (refilled.move call (.replied sampled (.granted token
      (state.counter (convKey tenantId conversationId) + 1)
      (refilled.counter (convKey tenantId conversationId))))).now = state.now := hno
  have hm : (refilled.move call (.replied sampled (.granted token
      (state.counter (convKey tenantId conversationId) + 1)
      (refilled.counter (convKey tenantId conversationId))))).handed = state.handed := hha
  have hmo : (refilled.move call (.replied sampled (.granted token
      (state.counter (convKey tenantId conversationId) + 1)
      (refilled.counter (convKey tenantId conversationId))))).began = state.began := hb
  exact
    { running := fun hrn => by
        simp only [State.move, hru, hst] at hrn ⊢
        exact h.running hrn
      calling := fun {other _ _ _} ho hn => by
        simp only [State.move, hph, hst] at hn ⊢
        by_cases hs : other = call
        · subst hs
          rw [hc, Call.allocate.injEq] at ho
          obtain ⟨rfl, -, -⟩ := ho
          exact hca
        · rw [update_of_ne hs] at hn
          exact h.calling ho hn
      windowed := fun hn => by
        simp only [State.move, hw, hst] at hn ⊢
        exact h.windowed hn
      locked := locked_script h hc hlo hlc hph
      counted := fun hnw => by
        rcases held_granted h hc hw hph hnw with ⟨rfl, rfl, rfl, rfl⟩ | hold
        · exact Nat.le_refl _
        · exact Nat.le_trans hold.2 (hco _)
      lasting := fun hnw => by
        rw [hmv]
        rcases held_granted h hc hw hph hnw with ⟨rfl, rfl, rfl, rfl⟩ | hold
        · omega
        · exact h.lasting hold.1
      leased := fun hnw hva => by
        rcases held_granted h hc hw hph hnw with ⟨rfl, rfl, rfl, rfl⟩ | hold
        · cases hre with
          | refused _ hou => cases hou
          | extended lease hl hon hnx _ =>
            subst hnx
            simp only [State.move, update_self]
            refine ⟨_, rfl, hna lease hl hon, ?_⟩
            simp only [Setup.nodeOf] at hv ⊢
            omega
          | taken hl token' hnx _ =>
            subst hnx
            simp only [State.move, update_self]
            refine ⟨_, rfl, rfl, ?_⟩
            simp only [Setup.nodeOf] at hv ⊢
            omega
        · exact h.refill_leased hre hna hold.1 (hno ▸ hva)
      passed := fun {_ _ _ _} hnw {entry} hen hs hle => by
        rw [hm] at hen
        rcases held_granted h hc hw hph hnw with ⟨rfl, rfl, rfl, rfl⟩ | hold
        · have hh := hse.handed hen
          rw [hs] at hh
          simp only at hle
          omega
        · exact h.passed hold.1 hen hs hle
      overtaken := fun {process' other key' range' range'' deadline' deadline''} hnw hnw'
          hne hle => by
        rw [hmv]
        rcases held_granted h hc hw hph hnw with ⟨rfl, rfl, rfl, rfl⟩ | hold <;>
          rcases held_granted h hc hw hph hnw' with ⟨rfl, hk, rfl, rfl⟩ | hold'
        · exact absurd rfl hne
        · simp only at hle
          omega
        · subst hk
          exact h.refill_alone hre (by simp) hna hca hold.1 hne
        · exact h.overtaken hold.1 hold'.1 hne hle
      sampled := fun {other sampled'} hso => by
        rw [hmv, hmo]
        simp only [State.move, hph] at hso
        by_cases hs : other = call
        · subst hs
          rw [update_self] at hso
          cases hso
          exact h.sampled hsa
        · rw [update_of_ne hs] at hso
          exact h.sampled hso
      behind := fun {other sampled' token' start end_} hr {entry} hen hs => by
        rw [hmo] at hen
        simp only [State.move, hph] at hr
        by_cases hoh : other = call
        · subst hoh
          rw [update_self] at hr
          obtain ⟨-, -, rfl, -⟩ := hr
          have hh := hse.handed (h.began other hen)
          rw [hs, key_of_allocate hc] at hh
          omega
        · rw [update_of_ne hoh] at hr
          exact h.behind hr hen hs
      timed := fun hen => by
        rw [hm] at hen
        rw [hmv]
        exact h.timed hen
      began := fun other => by
        rw [hmo, hm]
        exact h.began other
      finished := fun {entry} hen => by
        rw [hm] at hen
        have hf := h.finished hen
        have hne : entry.call ≠ call := by
          intro hs
          rw [hs, hp] at hf
          cases hf
        simp only [State.move, hph, update_of_ne hne]
        exact hf
      order := fun {entry} hen {earlier} hea hs => by
        rw [hm] at hen
        rw [hmo] at hea
        exact h.order hen hea hs }

theorem ordered_script (hse : Separate setup state) (h : Ordered setup state)
    {process : Nat}
    (hc : setup.call call = .allocate process tenantId conversationId)
    (hn : ∀ lease, state.lease (convKey tenantId conversationId) = some lease →
      lease.owner setup = (setup.node (setup.host process)).nodeId.toList →
        lease.node = setup.host process)
    (hs : scriptAllocate setup state call process (convKey tenantId conversationId) =
      some next) : Ordered setup next := by
  unfold scriptAllocate at hs
  split at hs
  · rename_i sampled expected hp
    obtain ⟨⟨refilled, outcome⟩, hre, rfl⟩ := Option.map_eq_some_iff.mp hs
    have hr := leaseRefill_cases hre
    obtain ⟨hha, hb, hno, hst, hru, hw, hl, hph, hco, hou⟩ := hr.unchanged
    have hsa : (state.phases call).sampled = some sampled := by
      rw [hp]
      rfl
    have hlo : state.lock process = some call := by
      apply h.locked hc
      rw [hp]
      rfl
    have hla : ∀ {process' key' range deadline}, Held setup state process' key' range deadline →
          (refilled.move call (.replied sampled outcome)).now < deadline →
            ∃ lease, (refilled.move call (.replied sampled outcome)).lease key' = some lease ∧
              lease.node = setup.host process' ∧ deadline ≤ lease.expiresAt := by
      intro process' key' range deadline hh hv
      simp only [State.move, hno] at hv
      exact h.refill_leased hr hn hh hv
    by_cases hg : outcome = .notOwner
    · subst hg
      refine h.move call (.replied sampled .notOwner) (by simp [hp]) ?_ (by simp)
        (by simp [State.move, hph]) hha hb hno hco hst hru ?_ (locked_script h hc hlo hl hph) hla
      · intro sampled' hso
        rw [hsa]
        exact hso
      · intro process' key' window hwi
        rw [← hw]
        exact hwi
    · obtain ⟨token, rfl⟩ := hou.resolve_left hg
      exact ordered_granted hse h hc hp hn hr
  · rename_i expected hp
    obtain ⟨⟨refilled, outcome⟩, hre, rfl⟩ := Option.map_eq_some_iff.mp hs
    have hr := leaseRefill_cases hre
    obtain ⟨hha, hb, hno, hst, hru, hw, hl, hph, hco, -⟩ :=
      hr.unchanged
    refine h.move call .finished (by simp [hp]) (by simp [Phase.sampled]) (by simp)
      (by simp [State.move, hph]) hha hb hno hco hst hru ?_ ?_ ?_
    · intro process' key' window hwi
      rw [← hw]
      exact hwi
    · intro other process' tenantId' conversationId' ho hbu
      simp only [State.move, hl, hph] at hbu ⊢
      exact h.locked_leaving rfl ho hbu
    · intro process' key' range deadline hh hv
      simp only [State.move, hno] at hv
      exact h.refill_leased hr hn hh hv
  · cases hs

theorem ordered_reply (h : Ordered setup state) {process : Nat}
    (hc : setup.call call = .allocate process tenantId conversationId)
    (hs : replyAllocate setup state call process (convKey tenantId conversationId) =
      some next) : Ordered setup next := by
  have hoh : ∀ {sampled outcome other process' tenantId' conversationId'},
      state.phases call = .replied sampled outcome →
      setup.call other = .allocate process' tenantId' conversationId' →
        (update state.phases call .finished other).isLocking = true →
          update state.lock process none process' = some other := by
    intro sampled outcome other process' tenantId' conversationId' hp ho hb
    exact h.locked_unlocking hc (by rw [hp]; rfl) rfl ho hb
  have hdr : ∀ {sampled outcome}, state.phases call = .replied sampled outcome →
      Ordered setup (((state.setWindow process (convKey tenantId conversationId) none).move call
        .finished).unlock process) := by
    intro sampled outcome hp
    refine h.move call .finished (by simp [hp]) (by simp [Phase.sampled]) (by simp) rfl rfl
      rfl rfl (fun _ => Nat.le_refl _) rfl rfl ?_ (hoh hp) (fun hh hv => h.leased hh hv)
    intro process' key' window hw
    simp only [State.unlock, State.move, State.setWindow] at hw
    by_cases hpr : process' = process
    · subst hpr
      rw [update_self] at hw
      by_cases hk : key' = convKey tenantId conversationId
      · subst hk
        rw [update_self] at hw
        cases hw
      · rwa [update_of_ne hk] at hw
    · rwa [update_of_ne hpr] at hw
  unfold replyAllocate at hs
  split at hs
  · rename_i sampled token start end_ hp
    split at hs
    · rename_i seq segment ht
      obtain ⟨hle, hse, hr⟩ := takeNext_eq_some.mp ht
      subst hse hr
      cases hs
      have hh : Held setup state process (convKey tenantId conversationId) ⟨seq, end_⟩
          (sampled + (setup.nodeOf process).validFor) := .reply hc rfl hp
      refine h.handOut (key_of_allocate hc) hh ⟨Nat.le_refl _, hle⟩ ?_
        (by simp [hp, Phase.sampled]) rfl rfl rfl rfl rfl rfl rfl rfl ?_ (hoh hp) ?_
      · intro entry hen hk
        exact h.behind hp hen (hk.trans (key_of_allocate hc).symm)
      · intro process' key' hso
        exact h.windowed_setWindow (h.holder hh) hso
      · intro process' key' range' deadline' hn
        refine held_handOut hn rfl rfl fun hne ho => ?_
        -- the lock is the call's, so no other call of the process is answered
        rw [Bool.eq_false_iff]
        intro hb
        have hl := hoh hp ho (by rwa [update_of_ne hne])
        rw [update_self] at hl
        cases hl
    · cases hs
      exact hdr hp
  · rename_i sampled hp
    cases hs
    exact hdr hp
  · cases hs

theorem ordered_fail (h : Ordered setup state) {process : Nat}
    (hc : setup.call call = .allocate process tenantId conversationId)
    (hs : failAllocate state call process = some next) : Ordered setup next := by
  unfold failAllocate at hs
  split at hs
  · rename_i sampled hp
    cases hs
    refine h.move call .finished (by simp [hp]) (by simp [Phase.sampled]) (by simp) rfl rfl
      rfl rfl (fun _ => Nat.le_refl _) rfl rfl (fun _ _ _ hw => hw) ?_ (fun hh hv => h.leased hh hv)
    intro other process' tenantId' conversationId' ho hb
    exact h.locked_leaving rfl ho hb
  · rename_i sampled expected hp
    cases hs
    exact h.move call (.abandoned expected) (by simp [hp]) (by simp [Phase.sampled]) (by simp)
      rfl rfl rfl rfl (fun _ => Nat.le_refl _) rfl rfl (fun _ _ _ hw => hw)
      (h.locked_unlocking hc (by rw [hp]; rfl) rfl) (fun hh hv => h.leased hh hv)
  · rename_i sampled outcome hp
    cases hs
    exact h.move call .finished (by simp [hp]) (by simp [Phase.sampled]) (by simp)
      rfl rfl rfl rfl (fun _ => Nat.le_refl _) rfl rfl (fun _ _ _ hw => hw)
      (h.locked_unlocking hc (by rw [hp]; rfl) rfl) (fun hh hv => h.leased hh hv)
  · cases hs

theorem drop_sampled (phase : Phase) : phase.drop.sampled = none := by
  cases phase <;> rfl

theorem ordered_crash (h : Ordered setup state) {process : Nat}
    (hs : crashProcess setup state process = some next) : Ordered setup next := by
  unfold crashProcess at hs
  split at hs
  · rename_i hsu
    cases hs
    -- what is left is a phase of a call of another process
    have hph : ∀ {call sampled}, ((if processOf (setup.call call) = some process then
        (state.phases call).drop else state.phases call).sampled) = some sampled →
        processOf (setup.call call) ≠ some process ∧
          (state.phases call).sampled = some sampled := by
      intro call sampled hsa
      split at hsa
      · rw [drop_sampled] at hsa
        cases hsa
      · rename_i ho
        exact ⟨ho, hsa⟩
    have hwi : ∀ {other key window},
        update state.windows process (fun _ => none) other key = some window →
          other ≠ process ∧ state.windows other key = some window := by
      intro other key window hw
      by_cases ho : other = process
      · subst ho
        simp at hw
      · rw [update_of_ne ho] at hw
        exact ⟨ho, hw⟩
    have hke : ∀ {call sampled}, ((if processOf (setup.call call) = some process then
        (state.phases call).drop else state.phases call).sampled) = some sampled →
        (if processOf (setup.call call) = some process then (state.phases call).drop
          else state.phases call) = state.phases call := by
      intro call sampled hsa
      rw [if_neg (hph hsa).1]
    refine h.settle ?_ ?_ (fun hh hv => h.leased hh hv) ?_
    · exact
        { handed := rfl
          began := rfl
          now := Nat.le_refl _
          counter := fun _ => Nat.le_refl _
          running := fun {other} hr => by
            simp only at hr ⊢
            have ho : other ≠ process := by
              rintro rfl
              simp at hr
            rw [update_of_ne ho] at hr
            have hho : setup.host other ≠ setup.host process := fun hsm =>
              ho (h.same_process hr hsu hsm)
            rw [update_of_ne hho]
            exact h.running hr
          calling := fun {call other _ _} hc hn => by
            obtain ⟨sampled, hsa⟩ := Option.ne_none_iff_exists'.mp hn
            obtain ⟨hpr, hst⟩ := hph hsa
            have ho : other ≠ process := by
              rintro rfl
              exact hpr (by simp [hc, processOf])
            simp only [update_of_ne ho]
            exact h.calling hc (by simp [hst])
          windowed := fun {other key} hn => by
            obtain ⟨window, hw⟩ := Option.ne_none_iff_exists'.mp hn
            obtain ⟨ho, hst⟩ := hwi hw
            have hso : state.windows other key ≠ none := by simp [hst]
            simp only [update_of_ne ho]
            exact h.windowed hso
          locked := fun {call other _ _} hc hl => by
            simp only at hl ⊢
            split at hl
            · cases hp : state.phases call <;> simp [hp, Phase.drop, Phase.isLocking] at hl
            · rename_i hpr
              have ho : other ≠ process := by
                rintro rfl
                exact hpr (by simp [hc, processOf])
              rw [update_of_ne ho]
              exact h.locked hc hl
          sampled := fun hsa => (hph hsa).2
          finished := fun hf => by
            simp only [hf]
            split <;> rfl }
    · intro other key range deadline hh
      cases hh with
      | window hw => exact .window (hwi hw).2
      | reply hc hk hp =>
        simp only at hp
        have hsm := hke (by rw [hp]; rfl)
        exact .reply hc hk (hsm.symm.trans hp)
    · intro call sampled token start end_ hp
      simp only at hp
      have hsm := hke (by rw [hp]; rfl)
      exact hsm.symm.trans hp
  · cases hs

theorem ordered_begin (h : Ordered setup state) {process : Nat}
    (hc : setup.call call = .allocate process tenantId conversationId)
    (hs : beginAllocate state call process = some next) : Ordered setup next := by
  unfold beginAllocate at hs
  split at hs
  · rename_i hw
    cases hs
    have hh : ∀ {other key range deadline},
        Held setup { state.move call (.locking state.now) with
          began := update state.began call state.handed } other key range deadline →
        Held setup state other key range deadline := by
      intro other key range deadline hn
      cases hn with
      | window hwi => exact .window hwi
      | @reply caller _ _ _ _ _ _ hca hk hp =>
        simp only [State.move] at hp
        have hne : caller ≠ call := by
          rintro rfl
          simp at hp
        rw [update_of_ne hne] at hp
        exact .reply hca hk hp
    exact
      { running := fun hr => h.running hr
        calling := fun {other _ _ _} ho hsm => by
          by_cases hsa : other = call
          · subst hsa
            rw [hc, Call.allocate.injEq] at ho
            obtain ⟨rfl, -, -⟩ := ho
            exact hw.2
          · simp only [State.move, update_of_ne hsa] at hsm
            exact h.calling ho hsm
        windowed := fun hwi => h.windowed hwi
        locked := fun ho hl => h.locked_leaving rfl ho hl
        counted := fun hn => h.counted (hh hn)
        lasting := fun hn => h.lasting (hh hn)
        leased := fun hn hv => h.leased (hh hn) hv
        passed := fun {_ _ _ _} hn {_} hen => h.passed (hh hn) hen
        overtaken := fun hn hn' hne hle => h.overtaken (hh hn) (hh hn') hne hle
        sampled := fun {other sampled} hsm => by
          by_cases hsa : other = call
          · subst hsa
            simp only [State.move, update_self, Phase.sampled, Option.some.injEq] at hsm
            subst hsm
            simp only [update_self]
            exact ⟨Nat.le_refl _, fun entry hen => h.timed hen⟩
          · simp only [State.move, update_of_ne hsa] at hsm ⊢
            exact h.sampled hsm
        behind := fun {other _ _ _ _} hp {entry} hen hk => by
          have hne : other ≠ call := by
            rintro rfl
            simp [State.move] at hp
          simp only [State.move, update_of_ne hne] at hp hen
          exact h.behind hp hen hk
        timed := fun hen => h.timed hen
        began := fun other => by
          by_cases hsa : other = call
          · subst hsa
            simp [State.move]
          · simp only [update_of_ne hsa]
            exact h.began other
        finished := fun {entry} hen => by
          have hf := h.finished hen
          have hne : entry.call ≠ call := by
            intro hsa
            rw [hsa, hw.1] at hf
            cases hf
          simp only [State.move, update_of_ne hne]
          exact hf
        order := fun {entry} hen {earlier} hea hk => by
          have hf := h.finished hen
          have hne : entry.call ≠ call := by
            intro hsa
            rw [hsa, hw.1] at hf
            cases hf
          simp only [update_of_ne hne] at hea
          exact h.order hen hea hk }
  · cases hs

theorem ordered_step (hse : Separate setup state) (h : Ordered setup state)
    (hl : LeasesLast state action) (hn : NamesApart setup state action)
    (hs : step setup state action = some next) : Ordered setup next := by
  have hq : ∀ {other : State}, other.handed = state.handed → other.began = state.began →
      state.now ≤ other.now → other.counter = state.counter → other.windows = state.windows →
      other.lock = state.lock → other.phases = state.phases →
      (∀ {process}, other.status process = .running →
        other.running (setup.host process) = some process) →
      (∀ {process}, state.status process = .running → other.status process = .running) →
      (∀ {process key range deadline}, Held setup state process key range deadline →
        other.now < deadline → ∃ lease, other.lease key = some lease ∧
          lease.node = setup.host process ∧ deadline ≤ lease.expiresAt) → Ordered setup other := by
    intro other hha hb hnw hco hwi hlo hph hru hst hls
    refine h.settle ?_ ?_ hls (fun hp => hph ▸ hp)
    · exact
        { handed := hha
          began := hb
          now := hnw
          counter := fun key => Nat.le_of_eq (by rw [hco])
          running := hru
          calling := fun hc hp => hst (h.calling hc (hph ▸ hp))
          windowed := fun hw => hst (h.windowed (hwi ▸ hw))
          locked := fun hc hp => by
            rw [hlo]
            exact h.locked hc (hph ▸ hp)
          sampled := fun hp => hph ▸ hp
          finished := fun hp => by rw [hph, hp] }
    · intro process key range deadline hh
      cases hh with
      | window hw => exact .window (hwi ▸ hw)
      | reply hc hk hp => exact .reply hc hk (hph ▸ hp)
  cases action with
  | tick elapsed =>
    cases hs
    refine hq rfl rfl (Nat.le_add_right _ _) rfl rfl rfl rfl h.running (fun hr => hr) ?_
    intro process key range deadline hh hv
    simp only at hv
    exact h.leased hh (by omega)
  | start process =>
    simp only [step, startProcess] at hs
    split at hs
    · rename_i hsa
      cases hs
      refine hq rfl rfl (Nat.le_refl _) rfl rfl rfl rfl ?_ ?_ (fun hh hv => h.leased hh hv)
      · intro other hr
        simp only at hr ⊢
        by_cases ho : other = process
        · subst ho
          rw [update_self]
        · rw [update_of_ne ho] at hr
          have hho : setup.host other ≠ setup.host process := by
            intro hsm
            have hru := h.running hr
            rw [hsm, hsa.2] at hru
            cases hru
          rw [update_of_ne hho]
          exact h.running hr
      · intro other hr
        simp only
        by_cases ho : other = process
        · subst ho
          rw [update_self]
        · rw [update_of_ne ho]
          exact hr
    · cases hs
  | crash process => exact ordered_crash h hs
  | expire key =>
    cases hs
    refine hq rfl rfl (Nat.le_refl _) rfl rfl rfl rfl h.running (fun hr => hr) ?_
    intro process key' range deadline hh hv
    obtain ⟨lease, hla, hno, hep⟩ := h.leased hh hv
    have hne : key' ≠ key := by
      rintro rfl
      have hov := hl lease hla
      simp only at hv
      omega
    simp only [update_of_ne hne]
    exact ⟨lease, hla, hno, hep⟩
  | begin_ call =>
    simp only [step] at hs
    obtain ⟨process, tenantId, conversationId, hc, hbe⟩ := onAllocate_eq_some hs
    exact ordered_begin h hc hbe
  | lock call =>
    obtain ⟨process, tenantId, conversationId, hc, hlo⟩ := onAllocate_eq_some hs
    exact ordered_lock h hc hlo
  | script call =>
    obtain ⟨process, tenantId, conversationId, hc, hsc⟩ := onAllocate_eq_some hs
    exact ordered_script hse h hc (hn process tenantId conversationId hc) hsc
  | reply call =>
    obtain ⟨process, tenantId, conversationId, hc, hre⟩ := onAllocate_eq_some hs
    exact ordered_reply h hc hre
  | fail call =>
    simp only [step] at hs
    obtain ⟨process, tenantId, conversationId, hc, hf⟩ := onAllocate_eq_some hs
    exact ordered_fail h hc hf
  | direct call answered => exact absurd hl (by simp [LeasesLast])

end Steps

section Deadlines

def InDeadline (state : State) : Prop :=
  ∀ entry ∈ state.handed, ∀ deadline, entry.deadline = some deadline → entry.time < deadline

theorem inDeadline_step (h : InDeadline state) (hl : LeasesLast state action)
    (ht : InTime setup state action) (hs : step setup state action = some next) :
    InDeadline next := by
  have hk : ∀ {other : State}, other.handed = state.handed → InDeadline other := by
    intro other hh entry hen
    exact h entry (hh ▸ hen)
  have hm : ∀ {other : State} {entry : Handed} {deadline : Nat},
      other.handed = entry :: state.handed → entry.deadline = some deadline →
        entry.time < deadline → InDeadline other := by
    intro other entry deadline hh hde hb found hf deadline' hde'
    rw [hh, List.mem_cons] at hf
    rcases hf with rfl | hf
    · rw [hde, Option.some.injEq] at hde'
      omega
    · exact h found hf deadline' hde'
  cases action with
  | tick elapsed | expire key =>
    cases hs
    exact hk rfl
  | start process =>
    simp only [step, startProcess] at hs
    split at hs
    · cases hs
      exact hk rfl
    · cases hs
  | crash process =>
    simp only [step, crashProcess] at hs
    split at hs
    · cases hs
      exact hk rfl
    · cases hs
  | begin_ call =>
    simp only [step] at hs
    obtain ⟨process, tenantId, conversationId, -, hbe⟩ := onAllocate_eq_some hs
    unfold beginAllocate at hbe
    split at hbe
    · cases hbe
      exact hk rfl
    · cases hbe
  | lock call =>
    obtain ⟨process, tenantId, conversationId, hc, hlo⟩ := onAllocate_eq_some hs
    unfold lockAllocate at hlo
    split at hlo
    · rename_i sampled hp hfr
      split at hlo
      · rename_i window seq segment hfs
        obtain ⟨hw, hv, -, -, -⟩ := fastPath_eq_some hfs
        cases hlo
        exact hm rfl rfl (ht process tenantId conversationId sampled window hc hp hw hv)
      · cases hlo
        exact hk rfl
    · cases hlo
  | script call =>
    obtain ⟨process, tenantId, conversationId, -, hsc⟩ := onAllocate_eq_some hs
    unfold scriptAllocate at hsc
    split at hsc
    · obtain ⟨⟨refilled, outcome⟩, hre, rfl⟩ := Option.map_eq_some_iff.mp hsc
      exact hk (leaseRefill_cases hre).unchanged.1
    · obtain ⟨⟨refilled, outcome⟩, hre, rfl⟩ := Option.map_eq_some_iff.mp hsc
      exact hk (leaseRefill_cases hre).unchanged.1
    · cases hsc
  | reply call =>
    obtain ⟨process, tenantId, conversationId, hc, hr⟩ := onAllocate_eq_some hs
    unfold replyAllocate at hr
    split at hr
    · rename_i sampled token start end_ hp
      split at hr
      · cases hr
        exact hm rfl rfl (ht process tenantId conversationId sampled _ hc hp)
      · cases hr
        exact hk rfl
    · cases hr
      exact hk rfl
    · cases hr
  | fail call =>
    simp only [step] at hs
    obtain ⟨process, tenantId, conversationId, -, hfa⟩ := onAllocate_eq_some hs
    unfold failAllocate at hfa
    split at hfa
    · cases hfa
      exact hk rfl
    · cases hfa
      exact hk rfl
    · cases hfa
      exact hk rfl
    · cases hfa
  | direct call answered => exact absurd hl (by simp [LeasesLast])

end Deadlines

section Results

theorem order_kept {actions : List Action}
    (hr : Run (step setup) (fun state action => LeasesLast state action ∧
      NamesApart setup state action) initial actions state) : Ordered setup state := by
  have hb : Separate setup state ∧ Ordered setup state := by
    refine hr.preserves (fun state => Separate setup state ∧ Ordered setup state) ?_
      ⟨separate_initial, ordered_initial⟩
    intro state action next hin hok hs
    exact ⟨separate_step hin.1 hs, ordered_step hin.1 hin.2 hok.1 hok.2 hs⟩
  exact hb.2

theorem hands_out_in_sequence_inTime (setup : Setup) :
    HandsOutInSequence setup fun state action =>
      LeasesLast state action ∧ NamesApart setup state action ∧ InTime setup state action := by
  intro actions state hrun
  have hordered : Ordered setup state :=
    order_kept (hrun.mono fun _ _ hok => ⟨hok.1, hok.2.1⟩)
  have hdeadline : InDeadline state := by
    refine hrun.preserves InDeadline ?_ (fun entry hentry => absurd hentry List.not_mem_nil)
    intro state action next hinv hok hstep
    exact inDeadline_step hinv hok.1 hok.2.2 hstep
  exact ⟨hordered.order, fun hentry _ hsome => hdeadline _ hentry _ hsome⟩

-- A node whose leases last ten milliseconds, four of them for the margin, and two of its calls.
def sampleSetup : Setup where
  node index := ⟨String.ofList (List.replicate index 'n'), 100, 10, 4⟩
  host process := process
  call _ := .allocate 0 "t" "c"
  batchSize := 1
  ids_distinct := by
    intro first second h
    have hlength := congrArg (fun name => name.toList.length) h
    simpa using hlength

def Action.keepsLeases : Action → Bool
  | .direct _ _ | .expire _ => false
  | _ => true

theorem leasesLast_of_keepsLeases (state : State)
    (h : action.keepsLeases = true) : LeasesLast state action := by
  cases action with
  | direct call answered | expire key => exact absurd h (by simp [Action.keepsLeases])
  | _ => trivial

-- The second call reads the clock in time, waits for the lock, and goes by what it has read.
theorem a_number_is_handed_out_late :
    ¬ HandsOutInSequence sampleSetup fun state action => LeasesLast state action := by
  have hrun : (execute (step sampleSetup) (fun _ action => action.keepsLeases = true) initial
      [.start 0, .begin_ 0, .lock 0, .script 0, .reply 0, .begin_ 1, .tick 20, .lock 1]).map
        (fun last => last.handed) = some
          [⟨1, "t", "c", 2, 20, some 6⟩, ⟨0, "t", "c", 1, 0, some 6⟩] := by
    decide
  obtain ⟨last, hexecute, hhanded⟩ := Option.map_eq_some_iff.mp hrun
  intro hclaim
  have hlate := hclaim _ last ((run_of_execute hexecute).mono fun state _ h =>
    leasesLast_of_keepsLeases state h)
  have hmem : (⟨1, "t", "c", 2, 20, some 6⟩ : Handed) ∈ last.handed := by
    rw [hhanded]
    exact List.mem_cons_self
  have hbefore := hlate.deadline hmem rfl
  simp only at hbefore
  omega

end Results

end FlareIm.SequenceLease
