import FlareIm.CompensationQueue

namespace FlareIm.CompensationQueue

open SyncCompensation Transition

-- What a replay does of a task: its due time and the story of its failures do not count.
def work (task : UserSyncCompensationTask) : UserSyncCompensationTask :=
  { task with dueAtMs := 0, attempts := 0, lastError := none }

@[simp] theorem work_rescheduled (task : UserSyncCompensationTask) (error : String)
    (retryAfterMs now : Int) : work (rescheduled task error retryAfterMs now) = work task := rfl

-- The task is there to be claimed, or another one with the same work under its name.
def Queued (state : State) (task : UserSyncCompensationTask) : Prop :=
  (state.pending.score task.taskId).isSome ∧
    ∃ stored, state.payloads task.taskId = some (.task stored) ∧ work stored = work task

def Replayed (state : State) (task : UserSyncCompensationTask) : Prop :=
  ∃ done ∈ state.replayed, work done = work task

-- No task has left the queue without a replay that succeeded.
def NoneLost (state : State) : Prop :=
  ∀ task ∈ state.enqueued, Queued state task ∨ Replayed state task

-- The queue holds no task with other work under the name.
def Agrees (state : State) (task : UserSyncCompensationTask) : Prop :=
  ∀ stored ∈ (state.payloads task.taskId).bind decodeTask, work stored = work task

def WorkerPhase.loaded : WorkerPhase → List (String × Option Payload)
  | .loading _ loaded => loaded
  | _ => []

def WorkerPhase.replayed : WorkerPhase → Option UserSyncCompensationTask
  | .completing task _ | .failing task _ _ => some task
  | _ => none

-- What is written or deleted under a name is the work the queue holds there, and no worker reads a
-- task together with a payload that does not decode.
def Regular (state : State) : Action → Prop
  | .enqueue task => Agrees state task
  | .plant taskId _ => (state.payloads taskId).bind decodeTask = none
  | .decode worker =>
    (∀ entry ∈ (state.worker worker).loaded, entry.2 ≠ some .broken) ∨
      readable (state.worker worker).loaded = []
  | .complete worker executed | .fail worker executed =>
    executed = true → ∀ task ∈ (state.worker worker).replayed, Agrees state task
  | _ => True

instance (state : State) (task : UserSyncCompensationTask) : Decidable (Agrees state task) :=
  inferInstanceAs (Decidable (∀ stored ∈ _, _))

instance (state : State) : ∀ action, Decidable (Regular state action)
  | .enqueue _ => inferInstanceAs (Decidable (Agrees _ _))
  | .plant _ _ => inferInstanceAs (Decidable (_ = _))
  | .decode _ => inferInstanceAs (Decidable (_ ∨ _))
  | .complete _ _ | .fail _ _ => inferInstanceAs (Decidable (_ → _))
  | .tick _ | .range _ _ | .lease _ _ _ | .load _ | .replay _ _ | .quit _ => .isTrue trivial

-- A task whose replay succeeded is completed next.
structure Inv (state : State) : Prop where
  kept : NoneLost state
  done : ∀ worker task rest, state.worker worker = .completing task rest → Replayed state task
  given : state.withheld = []

section Steps

variable {state next : State} {worker : Nat} {task : UserSyncCompensationTask}

theorem inv_initial : Inv {} where
  kept _ h := absurd h List.not_mem_nil
  done _ _ _ h := absurd h (by simp)
  given := rfl

theorem Inv.goTo {phase : WorkerPhase} (h : Inv state)
    (hdo : ∀ task rest, phase = .completing task rest → Replayed state task) :
    Inv (state.goTo worker phase) where
  kept := h.kept
  done other task rest hp := by
    by_cases heq : other = worker
    · subst heq
      simp only [State.goTo, Function.update_self] at hp
      exact hdo task rest hp
    · simp only [State.goTo, Function.update_of_ne heq] at hp
      exact h.done other task rest hp
  given := h.given

theorem Inv.goTo_plain {phase : WorkerPhase} (h : Inv state)
    (hpl : ∀ task rest, phase ≠ .completing task rest) : Inv (state.goTo worker phase) :=
  h.goTo fun task rest hp => absurd hp (hpl task rest)

theorem Queued.store {taskId : String} {payload : Payload} {dueAtMs : Nat}
    (h : Queued state task) (hne : task.taskId ≠ taskId) :
    Queued (state.store taskId payload dueAtMs) task := by
  obtain ⟨hsc, stored, hs, hw⟩ := h
  refine ⟨?_, stored, ?_, hw⟩
  · simpa [State.store, ScoredSet.score_add_of_ne hne] using hsc
  · simpa [State.store, hne] using hs

theorem Inv.store {taskId : String} {payload : Payload} {dueAtMs : Nat} (h : Inv state)
    (hsa : ∀ stored ∈ (state.payloads taskId).bind decodeTask,
      ∃ written, payload = .task written ∧ work stored = work written) :
    Inv (state.store taskId payload dueAtMs) where
  kept task hm := by
    rcases h.kept task hm with hq | hr
    · by_cases heq : task.taskId = taskId
      · obtain ⟨-, stored, hs, hwo⟩ := hq
        obtain ⟨written, rfl, hw⟩ := hsa stored (by simp [← heq, hs, decodeTask])
        refine .inl ⟨?_, written, ?_, hw.symm.trans hwo⟩
        · simp [State.store, heq]
        · simp [State.store, heq]
      · exact .inl (hq.store heq)
    · exact .inr hr
  done := h.done
  given := h.given

theorem Inv.enqueueTask (h : Inv state) (ha : Agrees state task) :
    Inv (state.enqueueTask task) :=
  h.store fun stored hs => ⟨task, rfl, ha stored hs⟩

theorem queued_enqueueTask : Queued (state.enqueueTask task) task := by
  refine ⟨?_, task, ?_, rfl⟩
  · simp [State.enqueueTask, State.store]
  · simp [State.enqueueTask, State.store]

theorem Inv.markFailed {error : String} {retryAfterMs : Int} (h : Inv state)
    (ha : Agrees state task) : Inv (state.markFailed task error retryAfterMs) := by
  refine h.enqueueTask fun stored hs => ?_
  rw [work_rescheduled]
  exact ha stored hs

-- A task whose work was replayed goes.
theorem Inv.markCompleted (h : Inv state) (ha : Agrees state task)
    (hr : Replayed state task) : Inv (state.markCompleted task.taskId) where
  kept other hm := by
    rcases h.kept other hm with ⟨hsc, stored, hs, hw⟩ | hold
    · by_cases heq : other.taskId = task.taskId
      · obtain ⟨done, hdo, hsa⟩ := hr
        have hst : work stored = work task :=
          ha stored (by simp [← heq, hs, decodeTask])
        have ho : work task = work other := hst.symm.trans hw
        exact .inr ⟨done, hdo, hsa.trans ho⟩
      · refine .inl ⟨?_, stored, ?_, hw⟩
        · simpa [State.markCompleted, ScoredSet.score_remove_of_ne heq] using hsc
        · simpa [State.markCompleted, heq] using hs
    · exact .inr hold
  done := h.done
  given := h.given

theorem score_leaseAll (taskIds : List String) (claimUntil : Nat) (pending : ScoredSet String)
    (taskId : String) : (leaseAll taskIds claimUntil pending).score taskId =
      if taskId ∈ taskIds then some claimUntil else pending.score taskId := by
  induction taskIds generalizing pending with
  | nil => simp [leaseAll]
  | cons first rest ih =>
    have hfo : leaseAll (first :: rest) claimUntil pending =
        leaseAll rest claimUntil (pending.add first claimUntil) := rfl
    rw [hfo, ih]
    by_cases hr : taskId ∈ rest
    · simp [hr]
    · by_cases hf : taskId = first
      · simp [hf]
      · simp [hr, hf, ScoredSet.score_add_of_ne hf]

theorem Inv.leased {taskIds : List String} {claimUntil : Nat} (h : Inv state) :
    Inv { state with pending := leaseAll taskIds claimUntil state.pending } where
  kept task hm := by
    rcases h.kept task hm with ⟨hsc, hs⟩ | hr
    · refine .inl ⟨?_, hs⟩
      rw [score_leaseAll]
      split
      · rfl
      · exact hsc
    · exact .inr hr
  done := h.done
  given := h.given

theorem leaseStep_inv {taskIds : List String} {now : Nat} {executed answered : Bool}
    (h : Inv state) (hs : leaseStep state worker taskIds now executed answered = some next) :
    Inv next := by
  simp only [leaseStep] at hs
  split at hs
  · cases hs
    refine Inv.goTo_plain ?_ (by simp)
    split
    · exact h.leased
    · exact h
  · split at hs
    · cases hs
      exact h.leased.goTo_plain (by simp)
    · cases hs

theorem decodeTasks_eq_none {loaded : List (String × Option Payload)}
    (h : decodeTasks loaded = none) : ∃ entry ∈ loaded, entry.2 = some .broken := by
  induction loaded with
  | nil => exact absurd h (by simp [decodeTasks])
  | cons entry rest ih =>
    obtain ⟨taskId, payload⟩ := entry
    cases payload with
    | none =>
      obtain ⟨entry, hm, hb⟩ := ih (by simpa [decodeTasks] using h)
      exact ⟨entry, List.mem_cons_of_mem _ hm, hb⟩
    | some payload =>
      cases payload with
      | broken => exact ⟨(taskId, some .broken), List.mem_cons_self, rfl⟩
      | task task =>
        have hr : decodeTasks rest = none := by
          simpa [decodeTasks, decodeTask] using h
        obtain ⟨entry, hm, hb⟩ := ih hr
        exact ⟨entry, List.mem_cons_of_mem _ hm, hb⟩

theorem decodeTasks_eq_some {loaded : List (String × Option Payload)}
    {tasks : List UserSyncCompensationTask} (h : decodeTasks loaded = some tasks) :
    tasks = readable loaded := by
  induction loaded generalizing tasks with
  | nil => simpa [decodeTasks, readable] using h.symm
  | cons entry rest ih =>
    obtain ⟨taskId, payload⟩ := entry
    cases payload with
    | none => simpa [readable] using ih (by simpa [decodeTasks] using h)
    | some payload =>
      cases payload with
      | broken => exact absurd h (by simp [decodeTasks, decodeTask])
      | task task =>
        simp only [decodeTasks, decodeTask, Option.map_eq_some_iff] at h
        obtain ⟨others, ho, rfl⟩ := h
        simp [readable, decodeTask, ih ho]

theorem Inv.enqueued (h : Inv state) (ha : Agrees state task) :
    Inv { state.enqueueTask task with enqueued := task :: state.enqueued } where
  kept other hm := by
    rcases List.mem_cons.mp hm with rfl | hm
    · exact .inl queued_enqueueTask
    · exact (h.enqueueTask ha).kept other hm
  done := h.done
  given := h.given

theorem Inv.decoded {loaded : List (String × Option Payload)} (h : Inv state)
    (hp : state.worker worker = .loading [] loaded) (hok : Regular state (.decode worker))
    (hs : step state (.decode worker) = some next) : Inv next := by
  simp only [step, hp] at hs
  simp only [Regular, hp, WorkerPhase.loaded] at hok
  split at hs
  · cases hs
    exact h.goTo_plain (by simp)
  · rename_i hn
    cases hs
    obtain ⟨entry, hm, hb⟩ := decodeTasks_eq_none hn
    have hr : readable loaded = [] :=
      hok.resolve_left fun hw => hw entry hm hb
    refine Inv.goTo_plain ?_ (by simp)
    exact ⟨h.kept, h.done, by simp [hr, h.given]⟩

theorem Inv.replay {rest : List UserSyncCompensationTask} (h : Inv state) :
    Inv ({ state with replayed := task :: state.replayed }.goTo worker
      (.completing task rest)) := by
  have hmo {other : UserSyncCompensationTask} (ho : Replayed state other) :
      Replayed { state with replayed := task :: state.replayed } other := by
    obtain ⟨done, hdo, hw⟩ := ho
    exact ⟨done, List.mem_cons_of_mem _ hdo, hw⟩
  refine Inv.goTo ⟨?_, ?_, h.given⟩ ?_
  · intro other hm
    exact (h.kept other hm).imp id hmo
  · intro other done rest hp
    exact hmo (h.done other done rest hp)
  · intro done rest hp
    obtain ⟨rfl, -⟩ := WorkerPhase.completing.inj hp
    exact ⟨task, List.mem_cons_self, rfl⟩

theorem step_inv {action : Action} (h : Inv state) (hok : Regular state action)
    (hs : step state action = some next) : Inv next := by
  cases action with
  | tick ms =>
    cases hs
    exact ⟨h.kept, h.done, h.given⟩
  | enqueue task =>
    cases hs
    exact h.enqueued hok
  | plant taskId dueAtMs =>
    cases hs
    have hf : (state.payloads taskId).bind decodeTask = none := hok
    exact h.store fun stored hst => absurd hst (by simp [hf])
  | range worker limit =>
    simp only [step] at hs
    split at hs
    · split at hs
      · exact Option.some.inj hs ▸ h
      · split at hs
        · exact Option.some.inj hs ▸ h
        · cases hs
          exact h.goTo_plain (by simp)
    · cases hs
  | lease worker executed answered =>
    simp only [step] at hs
    split at hs
    · exact leaseStep_inv h hs
    · cases hs
  | load worker =>
    simp only [step] at hs
    split at hs
    · cases hs
      exact h.goTo_plain (by simp)
    · cases hs
  | decode worker =>
    have hp : ∃ loaded, state.worker worker = .loading [] loaded := by
      simp only [step] at hs
      split at hs
      · rename_i loaded hp
        exact ⟨loaded, hp⟩
      · cases hs
    obtain ⟨loaded, hp⟩ := hp
    exact h.decoded hp hok hs
  | replay worker error =>
    simp only [step] at hs
    split at hs
    · split at hs
      · cases hs
        exact h.replay
      · cases hs
        exact h.goTo_plain (by simp)
    · cases hs
  | complete worker executed =>
    simp only [step] at hs
    split at hs
    · rename_i task rest hp
      cases hs
      refine Inv.goTo_plain ?_ (by simp)
      split
      · rename_i hee
        have ha : Agrees state task :=
          hok hee task (by simp [hp, WorkerPhase.replayed])
        exact h.markCompleted ha (h.done worker task rest hp)
      · exact h
    · cases hs
  | fail worker executed =>
    simp only [step] at hs
    split at hs
    · rename_i task error rest hp
      cases hs
      refine Inv.goTo_plain ?_ (by simp)
      split
      · rename_i hee
        exact h.markFailed (hok hee task (by simp [hp, WorkerPhase.replayed]))
      · exact h
    · cases hs
  | quit worker =>
    cases hs
    exact h.goTo_plain (by simp)

-- The identifiers a worker has leased and the payloads of which it is about to read.
def Leased (state : State) (worker : Nat) (taskId : String) : Prop :=
  ∃ taskIds, state.worker worker = .loading taskIds [] ∧ taskId ∈ taskIds

-- A name whose turn has come is leased, or fewer names stand before it than did: whatever their
-- payloads are, those that were taken are behind it now.
theorem claim_advances {limit score : Nat} {taskId : String} {ranged leased : State}
    (hl : 0 < limit) (hr : step state (.range worker limit) = some ranged)
    (hla : step ranged (.lease worker true true) = some leased)
    (hs : state.pending.score taskId = some score) (hn : score ≤ state.now) :
    Leased leased worker taskId ∨ leased.pending.score taskId = some score ∧
        (leased.pending.ahead taskId score).card < (state.pending.ahead taskId score).card := by
  have hra : ranged =
      state.goTo worker (.ranged (state.pending.due state.now limit) state.now) := by
    have hdu := ScoredSet.due_ne_nil hs hn hl
    simp only [step] at hr
    split at hr
    · rw [if_neg hl.ne'] at hr
      exact (Option.some.inj hr).symm
    · cases hr
  subst hra
  simp only [step, State.goTo, Function.update_self, leaseStep] at hla
  cases hla
  by_cases hme : taskId ∈ state.pending.due state.now limit
  · exact .inl ⟨_, Function.update_self .., hme⟩
  · refine .inr ⟨?_, ScoredSet.card_ahead_lt hs hn hl hme ?_ ?_⟩
    · simpa [score_leaseAll, hme] using hs
    · intro other ho
      simp [score_leaseAll, ho]
    · intro other ho m hm hb
      simp only [score_leaseAll, ho, if_true, Option.some.injEq] at hm
      unfold ScoredSet.before at hb
      simp only [CLAIM_VISIBILITY_MS] at hm
      omega

end Steps

-- What the queue is for. `ok` is the condition on the steps, the next one included.
structure Dependable (ok : State → Action → Prop) (state : State) : Prop where
  kept : NoneLost state
  given : state.withheld = []
  handed : ∀ worker loaded next, state.worker worker = .loading [] loaded →
    ok state (.decode worker) → step state (.decode worker) = some next →
      readable loaded = [] ∨ next.worker worker = .replaying (readable loaded)
  advances : ∀ worker limit taskId score ranged leased, 0 < limit →
    step state (.range worker limit) = some ranged →
    step ranged (.lease worker true true) = some leased →
    state.pending.score taskId = some score → score ≤ state.now →
      Leased leased worker taskId ∨
        leased.pending.score taskId = some score ∧
          (leased.pending.ahead taskId score).card < (state.pending.ahead taskId score).card

theorem handed_over {state next : State} {worker : Nat} {loaded : List (String × Option Payload)}
    (hp : state.worker worker = .loading [] loaded) (hok : Regular state (.decode worker))
    (hs : step state (.decode worker) = some next) :
    readable loaded = [] ∨ next.worker worker = .replaying (readable loaded) := by
  simp only [step, hp] at hs
  simp only [Regular, hp, WorkerPhase.loaded] at hok
  split at hs
  · rename_i tasks hso
    cases hs
    rw [← decodeTasks_eq_some hso]
    exact .inr (Function.update_self ..)
  · rename_i hn
    obtain ⟨entry, hm, hb⟩ := decodeTasks_eq_none hn
    exact .inl (hok.resolve_left fun hw => hw entry hm hb)

theorem compensation_keeps_tasks {actions : List Action} {state : State}
    (hrun : Run step Regular {} actions state) : Dependable Regular state := by
  have hinv : Inv state :=
    hrun.preserves Inv (fun _ _ _ h hok hstep => step_inv h hok hstep) inv_initial
  exact {
    kept := hinv.kept
    given := hinv.given
    handed := fun worker loaded next => handed_over
    advances := fun worker limit taskId score ranged leased => claim_advances }

-- The update of one message of c1, and the one of an event with the same number.
def updateOf (userId : String) : UserSyncCompensationTask :=
  .new "acme" .eagerUserChanges [userId] "c1" 5 100 100

-- A replay fails, and another worker repeats it, while a broken payload waits by itself.
def repeatedReplay : List Action :=
  [.tick 100, .enqueue (updateOf "bob"), .range 0 64, .lease 0 true true, .load 0, .decode 0,
    .replay 0 (some "timeout"), .plant "other" 100, .fail 0 true, .range 1 64, .lease 1 true true,
    .load 1, .decode 1, .tick 5000, .range 1 64, .lease 1 true true, .load 1, .decode 1,
    .replay 1 none, .complete 1 true]

theorem failed_task_is_replayed_again :
    ∃ state, Run step Regular {} repeatedReplay state ∧ Dependable Regular state ∧
      state.replayed.map work = [work (updateOf "bob")] := by
  have hexecute : (execute step Regular {} repeatedReplay).map (·.replayed.map work) =
      some [work (updateOf "bob")] := by
    decide +kernel
  obtain ⟨last, hlast, hreplayed⟩ := Option.map_eq_some_iff.mp hexecute
  have hrun := run_of_execute hlast
  exact ⟨last, hrun, compensation_keeps_tasks hrun, hreplayed⟩

-- A broken payload is due before a task. Each claim leases both, for the same time, and fails.
def brokenHead : List Action :=
  [.tick 100, .enqueue (updateOf "bob"), .plant "other" 90,
    .range 0 64, .lease 0 true true, .load 0, .load 0, .decode 0, .tick 30000,
    .range 0 64, .lease 0 true true, .load 0, .load 0, .decode 0]

-- The broken payload keeps the task from the workers. And of two tasks with one name, the second
-- takes the place of the first.
theorem broken_head_withholds_a_task :
    (∃ state, Run step anyStep {} brokenHead state ∧ ¬ Dependable anyStep state) ∧
      ∃ state, Run step anyStep {} [.enqueue (updateOf "bob"), .enqueue (updateOf "carol")] state ∧
        ¬ NoneLost state := by
  constructor
  · have hexecute : (execute step anyStep {} brokenHead).map (·.withheld) =
        some [updateOf "bob", updateOf "bob"] := by
      decide +kernel
    obtain ⟨last, hrun, hlast⟩ := Option.map_eq_some_iff.mp hexecute
    refine ⟨last, run_of_execute hrun, fun h => ?_⟩
    have hgiven := h.given
    rw [hlast] at hgiven
    exact absurd hgiven (by simp)
  · have hexecute : (execute step anyStep {}
        [.enqueue (updateOf "bob"), .enqueue (updateOf "carol")]).map (fun last =>
          (last.replayed, last.payloads (updateOf "bob").taskId, last.enqueued)) =
        some ([], some (.task (updateOf "carol")), [updateOf "carol", updateOf "bob"]) := by
      decide +kernel
    obtain ⟨last, hrun, hlast⟩ := Option.map_eq_some_iff.mp hexecute
    obtain ⟨hreplayed, hrest⟩ := Prod.mk.inj hlast
    obtain ⟨hpayload, henqueued⟩ := Prod.mk.inj hrest
    refine ⟨last, run_of_execute hrun, fun hkept => ?_⟩
    rcases hkept (updateOf "bob") (by simp [henqueued]) with ⟨-, stored, hstored, hwork⟩ | hdone
    · rw [hpayload] at hstored
      obtain rfl := Payload.task.inj (Option.some.inj hstored)
      exact absurd hwork (by decide +kernel)
    · obtain ⟨done, hmem, -⟩ := hdone
      rw [hreplayed] at hmem
      exact absurd hmem List.not_mem_nil

end FlareIm.CompensationQueue
