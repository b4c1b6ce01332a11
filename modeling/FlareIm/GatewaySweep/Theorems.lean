import FlareIm.GatewaySweep.Invariant

namespace FlareIm.GatewaySweep

open RoundTrip SessionStore Transition
open Function (update update_self)

variable {phase : SweeperPhase} {action : Action} {i id index : Nat} {mid next : State}
  {sweep : Sweep} {stage : Stage} {begun : Begun} {gatewayId member field : String}
  {dead : List String} {task task' : Task} {outcome : Outcome} {move : Move} {key : SessionKey}

section Sweeper

variable {setup : Setup} {state : State}

theorem keeps_sweeper (hin : Inv setup state) (hev : Evolves setup state (mid.counted state))
    (hp : mid.processes = state.processes) (hr : mid.running = state.running)
    (hlo : mid.logins = state.logins) (hb : mid.begun = state.begun)
    (ho : ∀ j, j ≠ i → mid.sweepers j = state.sweepers j ∨
      mid.sweepers j = (state.sweepers j).observe mid.store)
    (hn : ∀ name ∈ (mid.sweepers i).names, Named setup state name)
    (hs : ∀ dead sweep stage, mid.sweepers i = .sweeping dead sweep stage →
      SweepOk setup (mid.counted state) sweep stage)
    (hl : ∀ listing ∈ mid.listings, listing ∈ state.listings ∨
      ∀ member ∈ listing.members, Found (mid.counted state) listing member ∧
        ∃ id, member = setup.member id ∧ Ended (mid.counted state) id) : Keeps setup state mid := by
  refine ⟨hev, ?_⟩
  exact
    { toHosts := hosts_same hin.toHosts hp hr
      begun := fun h => begun_same hin hev hb (fun id hid => by rw [hlo]; exact hid) h
      stored := fun h => stored_next hin hev h
      members := fun h => members_next hin hev h
      known := fun h => known_next hin hev h
      names := fun j name h => by
        by_cases hj : j = i
        · subst hj
          exact (hn name h).mono setup hev.rank
        · exact names_follow hin hev (ho j hj) h
      sweeps := fun {j dead sweep stage} h => by
        by_cases hj : j = i
        · subst hj
          exact hs dead sweep stage h
        · exact sweeps_follow hin hev (ho j hj) h
      listings := fun {listing} h {member} hm => by
        rcases hl listing h with hold | hnw
        · exact found_next hin hev hold hm
        · exact hnw member hm }

theorem evolves_quiet (hs : mid.store = state.store)
    (hp : mid.processes = state.processes) (hlo : mid.logins = state.logins)
    (hb : mid.begun = state.begun) (hla : mid.leases = state.leases)
    (hk : mid.known = state.known) (hl : state.listings ⊆ mid.listings) :
    Evolves setup state (mid.counted state) where
  toAdvances := advances_same rfl hp hlo hb hla (Finset.Subset.antisymm_iff.mp hk).1 hl
  toRewrites := rewrites_same hs (Finset.Subset.antisymm_iff.mp hk).2

theorem keeps_quiet (hin : Inv setup state)
    (hs : mid.sweepers = update state.sweepers i phase)
    (hst : mid.store = state.store) (hp : mid.processes = state.processes)
    (hr : mid.running = state.running) (hlo : mid.logins = state.logins)
    (hb : mid.begun = state.begun) (hla : mid.leases = state.leases)
    (hk : mid.known = state.known) (hl : mid.listings = state.listings)
    (hn : ∀ name ∈ phase.names, Named setup state name)
    (hsw : ∀ dead sweep stage, phase = .sweeping dead sweep stage →
      SweepOk setup (mid.counted state) sweep stage) : Keeps setup state mid := by
  apply keeps_sweeper (i := i) hin (evolves_quiet hst hp hlo hb hla hk (by rw [hl]; simp))
    hp hr hlo hb
  · intro j hj
    left
    rw [hs, Function.update_of_ne hj]
  · rw [hs, update_self]
    exact hn
  · intro dead sweep stage h
    rw [hs, update_self] at h
    exact hsw dead sweep stage h
  · intro listing h
    exact .inl (hl ▸ h)

theorem holdLock_cases (i : Nat) : (holdLockScript state i).1 = state ∨
    (holdLockScript state i).1 = { state with sweeperLock := some i } := by
  unfold holdLockScript
  split
  · exact .inr rfl
  · exact .inl rfl

theorem SweepOk.restage {stage' : Stage} (h : SweepOk setup state sweep stage)
    (hl : stage' = .scanning ∨ stage' = .settling → ∀ lease,
      state.leases sweep.gatewayId = some lease → sweep.began < lease.since)
    (hdo : stage' ≠ .settling → ∀ member task, (member, task) ∈ sweep.batch → task.isDone = true)
    (hr : stage' = .retiring → sweep.lastPage = true) :
    SweepOk setup state sweep stage' :=
  { h with
    lease := fun hs _ hf => hl hs _ hf
    done := fun hs _ _ hm => hdo hs _ _ hm
    retiring := hr }

theorem record_of_stored (hin : Inv setup state)
    (hb : state.begun id = some begun) {record : RedisConnectionRecord}
    (h : hget state.store (setup.key id) (setup.sessionId id) = some record) :
    record = setup.record id begun.createdAt := by
  obtain ⟨other, begun', -, hs, hr, hb', -⟩ := hin.stored h
  obtain rfl := sessionId_inj setup hs
  rw [hb] at hb'
  rw [hr, Option.some.inj hb']

theorem base_of_home (hin : Inv setup state) {name : String}
    (hb : state.begun id = some begun) (hh : Home setup state name id) :
    baseGatewayId name = setup.gatewayId (setup.login id).process := by
  obtain ⟨-, hr, -, -⟩ := hin.begun hb
  rcases hh with hg | ⟨process, hn, hs, -, -⟩
  · rw [hg]
    exact hin.plain (by omega)
  · rw [hn, base_orphan, hs]

theorem keeps_startSweep (hin : Inv setup state)
    {cutoffMs : Int}
    (hp : state.sweepers i = .choosing (gatewayId :: dead))
    (hcl : ∀ key field record, hget state.store key field = some record →
      record.createdAt ≤ cutoffMs) :
    Keeps setup state (startSweep state i gatewayId dead cutoffMs) := by
  have hna : ∀ name ∈ gatewayId :: dead, Named setup state name := by
    intro name hn
    exact hin.names i (by rw [hp]; exact hn)
  have hev : Evolves setup state ((startSweep state i gatewayId dead cutoffMs).counted state) :=
    evolves_quiet rfl rfl rfl rfl rfl rfl (List.subset_cons_self _ _)
  have hli : ∀ member ∈ state.store.gatewayConns gatewayId, ∃ id begun,
      member = setup.member id ∧ state.logins id = .finished ∧ state.begun id = some begun ∧
        Home setup state gatewayId id ∧ (Gone state.store member ∨ begun.createdAt ≤ cutoffMs) := by
    intro member hm
    obtain ⟨id, begun, rfl, hbe, hf, hh⟩ := hin.members hm
    refine ⟨id, begun, rfl, hf, hbe, hh, ?_⟩
    rw [gone_iff]
    by_cases hg : hget state.store (setup.key id) (setup.sessionId id) = none
    · exact .inl hg
    · obtain ⟨record, hr⟩ := Option.ne_none_iff_exists'.mp hg
      have hc := hcl _ _ _ hr
      rw [record_of_stored hin hbe hr] at hc
      exact .inr hc
  have hsw : SweepOk setup ((startSweep state i gatewayId dead cutoffMs).counted state)
      { gatewayId, cutoffMs, began := state.steps
        listed := state.store.gatewayConns gatewayId
        steady := state.store.gatewayConns gatewayId } .locking :=
    { named := (hna gatewayId List.mem_cons_self).mono setup hev.rank
      began := Nat.lt_succ_self _
      lease := fun hs => by simp at hs
      cutoff := fun hbe ha => by
        have hb := (hin.begun hbe).1
        simp only at ha
        omega
      listed := fun hm => hli _ hm
      recorded := ⟨_, List.mem_cons_self⟩
      steady := fun hm _ => hm
      seen := fun hse => absurd hse (Finset.notMem_empty _)
      tasks := fun hm => absurd hm List.not_mem_nil
      done := fun _ _ _ hm => absurd hm List.not_mem_nil
      last := fun hl => absurd hl (by simp)
      retiring := fun hs => absurd hs (by simp) }
  apply keeps_sweeper (i := i) hin hev rfl rfl rfl rfl
  · intro j hj
    left
    simp [startSweep, State.moveSweeper, hj]
  · intro name hn
    simp only [startSweep, State.moveSweeper, update_self] at hn
    exact hna name (List.mem_cons_of_mem _ hn)
  · intro dead' sweep stage h
    simp only [startSweep, State.moveSweeper, update_self,
      SweeperPhase.sweeping.injEq] at h
    obtain ⟨-, rfl, rfl⟩ := h
    exact hsw
  · intro listing h
    rcases List.mem_cons.mp h with rfl | hold
    · refine .inr fun member hm => ?_
      obtain ⟨id, begun, rfl, hf, hbe, -, -⟩ := hli member hm
      refine ⟨.inr (.inl ⟨hm, fun hk => ?_⟩), id, rfl, hf, begun, hbe⟩
      exact of_decide_eq_true hk
    · exact .inl hold

theorem startTask_member (id : Nat) : startTask (setup.member id) = .looking := by
  simp [startTask, parse_member]

theorem keeps_scan (hin : Inv setup state)
    {members : List String} {lastPage : Bool}
    (hp : state.sweepers i = .sweeping dead sweep .scanning)
    (hpg : pageAllowed sweep state.store members lastPage = true) :
    Keeps setup state (state.moveSweeper i (.sweeping dead
      { sweep with
        seen := sweep.seen ∪ members.toFinset
        batch := members.map fun member => (member, startTask member)
        lastPage := lastPage } .settling)) := by
  have hev : Evolves setup state ((state.moveSweeper i (.sweeping dead
      { sweep with
        seen := sweep.seen ∪ members.toFinset
        batch := members.map fun member => (member, startTask member)
        lastPage := lastPage } .settling)).counted state) :=
    evolves_quiet rfl rfl rfl rfl rfl rfl (fun _ h => h)
  have hs := (hin.sweeps hp).mono hev hp fun _ h => hin.plain h
  simp only [pageAllowed, Bool.and_eq_true, decide_eq_true_eq, Bool.or_eq_true,
    Bool.not_eq_true'] at hpg
  obtain ⟨hme, hl⟩ := hpg
  have hpa : ∀ member ∈ members, ∃ id begun, member = setup.member id ∧
      state.begun id = some begun ∧ state.logins id = .finished ∧
      Home setup state sweep.gatewayId id := fun member hm =>
    hin.members (hme member hm)
  refine keeps_quiet hin rfl rfl rfl rfl rfl rfl rfl rfl rfl (fun name hn => ?_)
    fun dead' sweep' stage' h => ?_
  · exact hin.names i (by rw [hp]; exact hn)
  · simp only [SweeperPhase.sweeping.injEq] at h
    obtain ⟨-, rfl, rfl⟩ := h
    exact
      { hs with
        lease := fun _ _ hls => hs.lease (.inl rfl) hls
        seen := fun {member} hse hli => by
          rcases Finset.mem_union.mp hse with hold | hnw
          · rcases hs.seen hold hli with hg | hfa | ⟨task, ht, hdo⟩
            · exact .inl hg
            · exact .inr (.inl hfa)
            · rw [hs.done (by simp) ht] at hdo
              cases hdo
          · have hm := List.mem_toFinset.mp hnw
            obtain ⟨id, -, rfl, -, -, -⟩ := hpa member hm
            refine .inr (.inr ⟨.looking, List.mem_map.mpr ⟨_, hm, ?_⟩, rfl⟩)
            rw [startTask_member]
        tasks := fun {member task} hm => by
          obtain ⟨member', hm', heq⟩ := List.mem_map.mp hm
          obtain ⟨rfl, rfl⟩ := Prod.mk.inj heq
          obtain ⟨id, begun, rfl, hb, hf, hh⟩ := hpa member' hm'
          rw [startTask_member]
          exact ⟨id, rfl, ⟨hf, begun, hb⟩, hh, trivial⟩
        done := fun hst => absurd rfl hst
        last := fun hla => by
          rcases hl with hno | hsu
          · rw [hno] at hla
            cases hla
          · exact hsu
        retiring := fun hst => absurd hst (by simp) }

-- A sweep after one of its tasks has moved.
def Sweep.settled (sweep : Sweep) (store : Store) (batch : List (String × Task)) (task : Task) :
    Sweep :=
  { sweep with
    steady := sweep.steady ∩ store.gatewayConns sweep.gatewayId
    batch := batch
    failed := sweep.failed || task == .failed }

theorem Settled.of_same {store : Store}
    {batch : List (String × Task)} {moved : Task}
    (h : Settled setup next sweep id task) :
    Settled setup next (sweep.settled store batch moved) id task := by
  cases task with
  | failed =>
    have hf : sweep.failed = true := h
    simp [Settled, Sweep.settled, hf]
  | looking | forgetting | loading | removing | removed | left => exact h

-- What `retire_member` decides on the session it finds.
theorem settled_look (hin : Inv setup state) {sweep' : Sweep} (hbe : state.begun id = some begun)
    (hh : Home setup state sweep.gatewayId id)
    (hl : setup.member id ∈ sweep.listed →
      Gone state.store (setup.member id) ∨ begun.createdAt ≤ sweep.cutoffMs)
    (hst : next.store = state.store) (hbe' : next.begun = state.begun)
    (hsa : sweep'.cutoffMs = sweep.cutoffMs ∧ sweep'.listed = sweep.listed)
    (hfa : lookTask setup.parsesAsUuid (baseGatewayId sweep.gatewayId) sweep.cutoffMs
        state.store ⟨(setup.key id).tenantId, (setup.key id).userId, setup.sessionId id⟩ =
          .failed → sweep'.failed = true) : Settled setup next sweep' id
      (lookTask setup.parsesAsUuid (baseGatewayId sweep.gatewayId) sweep.cutoffMs state.store
        ⟨(setup.key id).tenantId, (setup.key id).userId, setup.sessionId id⟩) := by
  obtain ⟨-, -, ht, -⟩ := hin.begun hbe
  have hs : Text.trim (setup.sessionId id) = setup.sessionId id := setup.sessions_trimmed id
  have hba := base_of_home hin hbe hh
  unfold lookTask at hfa ⊢
  dsimp only at hfa ⊢
  cases hf : hget state.store ⟨(setup.key id).tenantId, (setup.key id).userId⟩
      (setup.sessionId id) with
  | none =>
    have hg : Gone next.store (setup.member id) := by
      rw [gone_iff, hst]
      exact hf
    exact hg
  | some owner =>
    simp only [hf] at hfa ⊢
    have hon := record_of_stored hin hbe hf
    have hga : owner.gatewayId = baseGatewayId sweep.gatewayId := by
      rw [hba, hon]
      exact setup.gateway_own id
    have hc : owner.createdAt = begun.createdAt := by rw [hon]; rfl
    split
    · -- the session is left alone: it is of another gateway, or newer than the sweep
      rename_i hlf
      have hn : sweep.cutoffMs < begun.createdAt := by
        rcases hlf with ho | hn
        · exact absurd hga ho
        · rwa [hc] at hn
      intro hm
      rw [hsa.2] at hm
      rcases hl hm with hg | hb
      · rw [gone_iff] at hg
        exact absurd (hg.symm.trans hf) (by simp)
      · omega
    · rename_i hours
      rw [if_neg hours] at hfa
      have hb : begun.createdAt ≤ sweep.cutoffMs := by
        have hno := (not_or.mp hours).2
        rw [hc] at hno
        omega
      unfold logoutTask at hfa ⊢
      split
      · simp only [ht, hs]
        exact ⟨rfl, rfl, begun, by rw [hbe', hbe], by rw [hsa.1]; exact hb⟩
      · rename_i hiv
        rw [if_neg hiv] at hfa
        exact hfa rfl

-- One round trip of `retire_member`.
theorem settled_step (hin : Inv setup state) (hbe : state.begun id = some begun)
    (hh : Home setup state sweep.gatewayId id)
    (hl : setup.member id ∈ sweep.listed →
      Gone state.store (setup.member id) ∨ begun.createdAt ≤ sweep.cutoffMs)
    (hse : Settled setup state sweep id task)
    {store' : Store} {batch : List (String × Task)}
    (hs : taskStep setup.parsesAsUuid sweep.gatewayId sweep.cutoffMs state.store
      (setup.member id) outcome task = some (task', store'))
    (hst : next.store = store') (hkn : next.known = state.known)
    (hbe' : next.begun = state.begun) :
    Rewrites setup state next ∧ Settled setup next (sweep.settled store' batch task') id task' := by
  have hf : Settled setup next (sweep.settled store' batch .failed) id .failed := by
    simp [Settled, Sweep.settled]
  have hq : next.store = state.store → Rewrites setup state next := fun hsa =>
    rewrites_same hsa (Finset.Subset.antisymm_iff.mp hkn).2
  cases task with
  | looking =>
    simp only [taskStep] at hs
    split at hs
    · rw [parse_member, Option.map_some, Option.some.injEq, Prod.mk.injEq] at hs
      obtain ⟨rfl, rfl⟩ := hs
      refine ⟨hq hst, settled_look hin hbe hh hl hst hbe' ⟨rfl, rfl⟩ ?_⟩
      intro hfa
      simp [Sweep.settled, hfa]
    · simp only [Option.some.injEq, Prod.mk.injEq] at hs
      obtain ⟨rfl, rfl⟩ := hs
      exact ⟨hq hst, hf⟩
  | forgetting =>
    simp only [taskStep, Option.some.injEq, Prod.mk.injEq] at hs
    obtain ⟨rfl, rfl⟩ := hs
    have hg : Gone state.store (setup.member id) := hse
    split at hst
    · refine ⟨rewrites_forgotten hg hst hkn, ?_⟩
      have hsi : Gone next.store (setup.member id) := by
        rw [gone_iff] at hg ⊢
        rwa [hst, hget_removeGatewayConn]
      exact hsi
    · refine ⟨hq hst, ?_⟩
      have hsi : Gone next.store (setup.member id) := by rwa [hst]
      exact hsi
  | loading key sessionId =>
    simp only [taskStep] at hs
    split at hs
    · simp only [Option.some.injEq, Prod.mk.injEq] at hs
      obtain ⟨rfl, rfl⟩ := hs
      refine ⟨hq hst, ?_⟩
      obtain ⟨hk, hss, begun', hbe'', hb⟩ := hse
      unfold loadTask
      split
      · exact hf
      · exact ⟨hk, hss, begun', by rw [hbe', hbe''], hb⟩
    · simp only [Option.some.injEq, Prod.mk.injEq] at hs
      obtain ⟨rfl, rfl⟩ := hs
      exact ⟨hq hst, hf⟩
  | removing key sessionId records =>
    simp only [taskStep, Option.some.injEq, Prod.mk.injEq] at hs
    obtain ⟨rfl, rfl⟩ := hs
    obtain ⟨rfl, rfl, -⟩ := hse
    cases outcome with
    | answered =>
      have hr : next.store =
          removeConnection (setup.key id) (setup.sessionId id) records state.store := hst
      have hg : Gone next.store (setup.member id) := by
        rw [gone_iff, hr, hget_removeConnection, if_pos ⟨rfl, rfl⟩]
      exact ⟨rewrites_removed hr hkn, hg⟩
    | lost => exact ⟨rewrites_removed hst hkn, hf⟩
    | failed => exact ⟨hq hst, hf⟩
  | removed | left | failed => simp [taskStep] at hs

theorem mem_set_of_mem {entries : List (String × Task)} {old new entry : String × Task}
    (hold : entries[index]? = some old) (h : entry ∈ entries) :
    entry ∈ entries.set index new ∨ entry = old := by
  obtain ⟨at', hat⟩ := List.getElem?_of_mem h
  by_cases hs : at' = index
  · subst hs
    rw [hold] at hat
    exact .inr (Option.some.inj hat).symm
  · left
    apply List.mem_of_getElem? (i := at')
    rw [List.getElem?_set_ne (Ne.symm hs)]
    exact hat

theorem sweepOk_settled (hin : Inv setup state) (hev : Evolves setup state next)
    (hp : state.sweepers i = .sweeping dead sweep .settling)
    (het : sweep.batch[index]? = some (member, task)) (hm : member = setup.member id)
    (hen : Ended state id) (hh : Home setup state sweep.gatewayId id)
    (hs : Settled setup next
      (sweep.settled next.store (sweep.batch.set index (member, task')) task') id task')
    (hu : task'.isDone = false ∨ task' = .removed ∨ task' = .left ∨ task' = .failed) :
    SweepOk setup next
      (sweep.settled next.store (sweep.batch.set index (member, task')) task') .settling := by
  have hb := ((hin.sweeps hp).mono hev hp fun _ h => hin.plain h).observe
  have hie : index < sweep.batch.length := (List.getElem?_eq_some_iff.mp het).1
  exact
    { named := hb.named
      began := hb.began
      lease := hb.lease
      cutoff := hb.cutoff
      listed := hb.listed
      recorded := hb.recorded
      steady := hb.steady
      seen := fun {other} hse hl => by
        rcases hb.seen hse hl with hg | hf | ⟨waiting, hw, hdo⟩
        · exact .inl hg
        · have hst : sweep.failed = true := hf
          exact .inr (.inl (by simp [Sweep.settled, hst]))
        · rcases @mem_set_of_mem _ _ _ (member, task') _ het hw with hst | hmo
          · exact .inr (.inr ⟨waiting, hst, hdo⟩)
          · cases hmo
            rcases hu with hli | rfl | rfl | rfl
            · exact .inr (.inr ⟨task', List.mem_set hie _, hli⟩)
            · exact .inl (hm ▸ hs)
            · exact absurd (hm ▸ hl) hs
            · exact .inr (.inl hs)
      tasks := fun {other waiting} hw => by
        rcases List.mem_or_eq_of_mem_set hw with hold | hn
        · obtain ⟨other', ho, hen', hh', hs'⟩ := hb.tasks hold
          refine ⟨other', ho, hen', hh', ?_⟩
          have hmn : Settled setup next sweep other' waiting := by
            cases waiting <;> exact hs'
          exact hmn.of_same
        · cases hn
          exact ⟨id, hm, hen.mono hev, hh.mono setup hev.rank, hs⟩
      done := fun hsa => absurd rfl hsa
      last := hb.last
      retiring := fun hsa => absurd hsa (by simp) }

theorem Task.isDone_cases (task : Task) :
    task.isDone = false ∨ task = .removed ∨ task = .left ∨ task = .failed := by
  cases task <;> simp [Task.isDone]

theorem keeps_settle (hin : Inv setup state)
    (hp : state.sweepers i = .sweeping dead sweep .settling)
    (h : settleMember setup state i dead sweep index outcome = some mid) :
    Keeps setup state mid := by
  unfold settleMember at h
  obtain ⟨⟨member, task⟩, hen, h⟩ := Option.bind_eq_some_iff.mp h
  obtain ⟨⟨task', store'⟩, hs, rfl⟩ := Option.map_eq_some_iff.mp h
  have hok := hin.sweeps hp
  obtain ⟨id, rfl, hed, hh, hse⟩ := hok.tasks (List.mem_of_getElem? hen)
  obtain ⟨hf, begun, hb⟩ := hed
  have hli : setup.member id ∈ sweep.listed →
      Gone state.store (setup.member id) ∨ begun.createdAt ≤ sweep.cutoffMs := by
    intro hme
    obtain ⟨other, begun', ho, -, hb', -, hv⟩ := hok.listed hme
    obtain rfl := member_inj setup ho
    rw [hb] at hb'
    rw [Option.some.inj hb']
    exact hv
  let next : State := ((state.moveSweeper i (.sweeping dead
    { sweep with
      batch := sweep.batch.set index (setup.member id, task')
      failed := sweep.failed || task' == .failed } .settling)).setStore store').counted state
  have hm := @settled_step id next sweep begun task task' outcome setup state hin hb hh hli
    hse store' (sweep.batch.set index (setup.member id, task')) hs rfl rfl rfl
  have hev : Evolves setup state next :=
    { toAdvances := advances_same rfl rfl rfl rfl rfl (Finset.Subset.refl _) (fun _ h => h)
      toRewrites := hm.1 }
  have hsw := sweepOk_settled hin hev hp hen rfl ⟨hf, begun, hb⟩ hh hm.2 (Task.isDone_cases task')
  apply keeps_sweeper (i := i) hin hev rfl rfl rfl rfl
  · intro j hj
    right
    simp [State.setStore, State.moveSweeper, hj]
  · intro name hn
    simp only [State.setStore, State.moveSweeper, update_self, names_observe] at hn
    exact hin.names i (by rw [hp]; exact hn)
  · intro dead' sweep' stage' h
    simp only [State.setStore, State.moveSweeper, update_self, SweeperPhase.observe,
      SweeperPhase.sweeping.injEq] at h
    obtain ⟨-, rfl, rfl⟩ := h
    exact hsw
  · intro listing hl
    exact .inl hl

-- By the time it is retired, a set lists no session its sweep has listed, unless it is gone or
-- a removal has failed.
theorem gone_of_retiring (hin : Inv setup state)
    (hp : state.sweepers i = .sweeping dead sweep .retiring) (hf : sweep.failed = false)
    (hm : member ∈ state.store.gatewayConns sweep.gatewayId)
    (hl : member ∈ sweep.listed) : Gone state.store member := by
  have hok := hin.sweeps hp
  have hs := hok.steady hl hm
  have hse := hok.last (hok.retiring rfl) hs
  rcases hok.seen hse hl with hg | hf' | ⟨task, ht, hdo⟩
  · exact hg
  · rw [hf] at hf'
    cases hf'
  · rw [hok.done (by simp) ht] at hdo
    cases hdo

theorem keeps_retire (hin : Inv setup state)
    (hp : state.sweepers i = .sweeping dead sweep .retiring)
    (hok : state.leases sweep.gatewayId = none → sweep.failed = false ∧
      ∀ listing ∈ state.listings, ∀ member ∈ listing.members,
        member ∈ state.store.gatewayConns sweep.gatewayId → member ∈ sweep.listed)
    (hn : ∀ name ∈ phase.names, Named setup state name)
    (hno : ∀ dead' sweep' stage', phase ≠ .sweeping dead' sweep' stage') :
    Keeps setup state ((retireScript state sweep.gatewayId).1.moveSweeper i phase) := by
  unfold retireScript
  split
  · exact keeps_quiet hin rfl rfl rfl rfl rfl rfl rfl rfl rfl hn
      fun dead' sweep' stage' h => absurd h (hno dead' sweep' stage')
  · rename_i hmi
    obtain ⟨hf, ho⟩ := hok (by simpa using hmi)
    have hg : ∀ member ∈ state.store.gatewayConns sweep.gatewayId,
        (∃ listing ∈ state.listings, member ∈ listing.members) → Gone state.store member := by
      intro member hm hl
      obtain ⟨listing, hl, hli⟩ := hl
      exact gone_of_retiring hin hp hf hm (ho listing hl member hli hm)
    have hev : Evolves setup state
        ((State.moveSweeper
          { state.setStore (delGatewayConns sweep.gatewayId state.store) with
            known := state.known.erase sweep.gatewayId } i phase).counted state) :=
      { toAdvances := advances_same rfl rfl rfl rfl rfl (Finset.erase_subset _ _) (fun _ h => h)
        toRewrites := rewrites_retired hg rfl rfl }
    apply keeps_sweeper (i := i) hin hev rfl rfl rfl rfl
    · intro j hj
      right
      simp [State.setStore, State.moveSweeper, hj]
    · intro name hna
      simp only [State.moveSweeper, update_self] at hna
      exact hn name hna
    · intro dead' sweep' stage' h
      simp only [State.moveSweeper, update_self] at h
      exact absurd h (hno dead' sweep' stage')
    · intro listing hl
      exact .inl hl

theorem mem_confirmedDead {confirmAfter : Nat} {suspects : String → Option Nat}
    {known : List String} {present : List Bool} {now : Nat} {name : String}
    (h : name ∈ (confirmedDead confirmAfter suspects known present now).2) : name ∈ known := by
  unfold confirmedDead at h
  obtain ⟨⟨gatewayId, alive⟩, hm, rfl⟩ := List.mem_map.mp (List.mem_filter.mp h).1
  exact (List.of_mem_zip (List.mem_filter.mp hm).1).1

theorem keeps_leave (hin : Inv setup state)
    (hs : mid.sweepers = update state.sweepers i phase)
    (hst : mid.store = state.store) (hp : mid.processes = state.processes)
    (hr : mid.running = state.running) (hlo : mid.logins = state.logins)
    (hb : mid.begun = state.begun) (hla : mid.leases = state.leases)
    (hk : mid.known = state.known) (hl : mid.listings = state.listings)
    (hn : ∀ name ∈ phase.names, Named setup state name)
    (hno : ∀ dead sweep stage, phase ≠ .sweeping dead sweep stage) : Keeps setup state mid :=
  keeps_quiet hin hs hst hp hr hlo hb hla hk hl
    hn fun dead sweep stage h => absurd h (hno dead sweep stage)

theorem keeps_idle (hin : Inv setup state)
    (hm : mid = state.moveSweeper i phase ∨
      ∃ lock, mid = State.moveSweeper { state with sweeperLock := lock } i phase)
    (hn : ∀ name ∈ phase.names, Named setup state name)
    (hno : ∀ dead sweep stage, phase ≠ .sweeping dead sweep stage) : Keeps setup state mid := by
  rcases hm with rfl | ⟨lock, rfl⟩ <;>
    exact keeps_leave hin rfl rfl rfl rfl rfl rfl rfl rfl rfl hn hno

theorem holdLock_moved (i : Nat) (phase : SweeperPhase) :
    (holdLockScript state i).1.moveSweeper i phase = state.moveSweeper i phase ∨
      ∃ lock, (holdLockScript state i).1.moveSweeper i phase =
        State.moveSweeper { state with sweeperLock := lock } i phase := by
  rcases @holdLock_cases state i with hs | ht
  · left
    rw [hs]
  · right
    exact ⟨some i, by rw [ht]⟩

theorem keeps_stage (hin : Inv setup state)
    {stage' : Stage}
    (hp : state.sweepers i = .sweeping dead sweep stage)
    (hm : mid = state.moveSweeper i (.sweeping dead sweep stage') ∨ ∃ lock, mid =
        State.moveSweeper { state with sweeperLock := lock } i (.sweeping dead sweep stage'))
    (hl : stage' = .scanning ∨ stage' = .settling → ∀ lease,
      state.leases sweep.gatewayId = some lease → sweep.began < lease.since)
    (hdo : stage' ≠ .settling → ∀ member task, (member, task) ∈ sweep.batch → task.isDone = true)
    (hr : stage' = .retiring → sweep.lastPage = true) : Keeps setup state mid := by
  have hn : ∀ name ∈ dead, Named setup state name := by
    intro name hna
    exact hin.names i (by rw [hp]; exact hna)
  have hk : ∀ lock, Keeps setup state
      (State.moveSweeper { state with sweeperLock := lock } i (.sweeping dead sweep stage')) := by
    intro lock
    refine keeps_quiet hin rfl rfl rfl rfl rfl rfl rfl rfl rfl hn fun dead' sweep' stage'' h => ?_
    simp only [SweeperPhase.sweeping.injEq] at h
    obtain ⟨-, rfl, rfl⟩ := h
    have hev : Evolves setup state
        ((State.moveSweeper { state with sweeperLock := lock } i
          (.sweeping dead sweep stage')).counted state) :=
      evolves_quiet rfl rfl rfl rfl rfl rfl (fun _ h => h)
    exact ((hin.sweeps hp).mono hev hp fun _ h => hin.plain h).restage hl hdo hr
  rcases hm with rfl | ⟨lock, rfl⟩
  · exact hk state.sweeperLock
  · exact hk lock

theorem keeps_sweepStep (hin : Inv setup state) (hp : state.sweepers i = .sweeping dead sweep stage)
    (hok : InOrder setup state (.sweeper i move))
    (hs : sweepStep setup state i dead sweep stage move = some mid) : Keeps setup state mid := by
  have hna : ∀ name ∈ dead, Named setup state name := by
    intro name hnm
    exact hin.names i (by rw [hp]; exact hnm)
  have hb := hin.sweeps hp
  have hn : ∀ name ∈ SweeperPhase.idle.names, Named setup state name := by
    simp [SweeperPhase.names]
  unfold sweepStep at hs
  split at hs
  · rename_i outcome
    split at hs
    · cases hs
      unfold afterLock
      split
      · exact keeps_stage hin hp (holdLock_moved i _) (by simp)
          (fun _ member task h => hb.done (by simp) h) (by simp)
      · exact keeps_idle hin (holdLock_moved i _) hn (by simp)
    · exact keeps_idle hin (.inl (Option.some.inj hs).symm) hn (by simp)
  · split at hs
    · exact keeps_idle hin (.inl (Option.some.inj hs).symm) hna (by simp)
    · rename_i hm
      refine keeps_stage hin hp (.inl (Option.some.inj hs).symm) ?_
        (fun _ member task h => hb.done (by simp) h) (by simp)
      intro _ lease hl
      simp [hl] at hm
  · split at hs
    · rename_i hpa
      exact Option.some.inj hs ▸ keeps_scan hin hp hpa
    · cases hs
  · exact keeps_settle hin hp hs
  · split at hs
    · rename_i ha
      have hdo : ∀ member task, (member, task) ∈ sweep.batch → task.isDone = true :=
        fun member task hme => List.all_eq_true.mp ha (member, task) hme
      refine keeps_stage hin hp (.inl (Option.some.inj hs).symm) ?_ (fun _ => hdo) ?_
      · intro hst
        split at hst <;> simp at hst
      · intro hst
        split at hst
        · assumption
        · simp at hst
    · cases hs
  · rename_i outcome
    have hr := hok dead sweep hp
    split at hs
    · cases hs
      split
      · exact keeps_retire hin hp hr hna (by simp)
      · exact keeps_retire hin hp hr hn (by simp)
    · exact keeps_idle hin (.inl (Option.some.inj hs).symm) hn (by simp)
  · exact keeps_idle hin (.inl (Option.some.inj hs).symm) hn (by simp)
  · cases hs

theorem keeps_sweeperStep (hin : Inv setup state) (hok : InOrder setup state (.sweeper i move))
    (hs : sweeperStep setup state i (state.sweepers i) move = some mid) :
    Keeps setup state mid := by
  have hn : ∀ phase : SweeperPhase, phase.names = [] →
      ∀ name ∈ phase.names, Named setup state name := by
    intro phase hem name hna
    rw [hem] at hna
    exact absurd hna List.not_mem_nil
  cases hp : state.sweepers i with
  | idle =>
    rw [hp] at hs
    cases move <;> simp only [sweeperStep, reduceCtorEq, Option.some.injEq] at hs
    exact keeps_idle hin (.inl hs.symm) (hn _ rfl) (by simp)
  | locking =>
    rw [hp] at hs
    cases move <;> simp only [sweeperStep, reduceCtorEq] at hs
    · split at hs
      · cases hs
        unfold afterLock
        split <;> exact keeps_idle hin (holdLock_moved i _) (hn _ rfl) (by simp)
      · exact keeps_idle hin (.inl (Option.some.inj hs).symm) (hn _ rfl) (by simp)
    · exact keeps_idle hin (.inl (Option.some.inj hs).symm) (hn _ rfl) (by simp)
  | listing =>
    rw [hp] at hs
    cases move <;> simp only [sweeperStep, reduceCtorEq] at hs
    · rename_i known
      split at hs
      · rename_i ha
        refine keeps_idle hin (.inl (Option.some.inj hs).symm) (fun name hna => ?_) (by simp)
        apply hin.known
        rw [← ha.2]
        exact List.mem_toFinset.mpr hna
      · cases hs
    · exact keeps_idle hin (.inl (Option.some.inj hs).symm) (hn _ rfl) (by simp)
  | probing known present =>
    have hnm : ∀ name ∈ known, Named setup state name := by
      intro name hna
      exact hin.names i (by rw [hp]; exact hna)
    rw [hp] at hs
    cases move <;> simp only [sweeperStep, reduceCtorEq] at hs
    · obtain ⟨gatewayId, -, rfl⟩ := Option.map_eq_some_iff.mp hs
      exact keeps_idle hin (.inl rfl) hnm (by simp)
    · split at hs
      · cases hs
        exact keeps_leave hin rfl rfl rfl rfl rfl rfl rfl rfl rfl
          (fun name hna => hnm name (mem_confirmedDead hna)) (by simp)
      · cases hs
    · exact keeps_idle hin (.inl (Option.some.inj hs).symm) (hn _ rfl) (by simp)
  | choosing dead =>
    rw [hp] at hs
    cases dead with
    | nil =>
      cases move <;> simp only [sweeperStep, reduceCtorEq, Option.some.injEq] at hs
      exact keeps_idle hin (.inl hs.symm) (hn _ rfl) (by simp)
    | cons gatewayId dead =>
      cases move <;> simp only [sweeperStep, reduceCtorEq, Option.some.injEq] at hs
      exact hs ▸ keeps_startSweep hin hp hok
  | sweeping dead sweep stage =>
    rw [hp] at hs
    simp only [sweeperStep] at hs
    exact keeps_sweepStep hin hp hok hs

theorem keeps_act (hin : Inv setup state)
    (hok : InOrder setup state action) (ha : act setup state action = some mid) :
    Keeps setup state mid := by
  cases action with
  | start process => exact keeps_start hin hok ha
  | adopt process outcome => exact keeps_adopt hin ha
  | renew process outcome => exact keeps_renew hin ha
  | crash process => exact keeps_crash hin ha
  | release process outcome => exact keeps_release hin ha
  | expireLease gatewayId => exact Option.some.inj ha ▸ keeps_expireLease hin gatewayId
  | expireLock => exact Option.some.inj ha ▸ keeps_expireLock hin
  | login id createdAt => exact keeps_login hin hok.1 hok.2 ha
  | admission id outcome => exact keeps_admission hin ha
  | disconnect id outcome => exact keeps_disconnect hin ha
  | sweeper i move => exact keeps_sweeperStep hin hok ha

theorem inv_step (hin : Inv setup state)
    (hok : InOrder setup state action) (hs : step setup state action = some next) :
    Inv setup next := by
  obtain ⟨mid, ha, rfl⟩ := Option.map_eq_some_iff.mp hs
  exact (keeps_act hin hok ha).2

theorem inv_initial : Inv setup initial where
  plain h := by simp [rankOf, initial, ProcessPhase.rank] at h
  running h := by simp [initial] at h
  live h := by simp [initial, ProcessPhase.isLive] at h
  begun h := by simp [initial] at h
  stored h := by simp [initial, hget, emptyStore] at h
  members h := by simp [initial, emptyStore] at h
  known h := by simp [initial] at h
  names i _ h := by simp [initial, SweeperPhase.names] at h
  sweeps h := by simp [initial] at h
  listings h := by simp [initial] at h

end Sweeper

section Results

variable {setup : Setup} {state : State}

theorem taskStep_removes {parsesAsUuid : String → Bool}
    {cutoffMs : Int} {store store' : Store}
    (h : taskStep parsesAsUuid gatewayId cutoffMs store member outcome task = some (task', store'))
    (hs : hget store key field ≠ none)
    (hr : hget store' key field = none) : ∃ records, task = .removing key field records := by
  have hq : store' = store → False := by
    rintro rfl
    exact hs hr
  cases task with
  | looking =>
    simp only [taskStep] at h
    split at h
    · obtain ⟨parsed, -, heq⟩ := Option.map_eq_some_iff.mp h
      exact (hq (Prod.mk.inj heq).2.symm).elim
    · exact (hq (Prod.mk.inj (Option.some.inj h)).2.symm).elim
  | forgetting =>
    simp only [taskStep, Option.some.injEq, Prod.mk.injEq] at h
    obtain ⟨-, rfl⟩ := h
    split at hr <;> exact absurd hr hs
  | loading key' sessionId =>
    simp only [taskStep] at h
    split at h <;> exact (hq (Prod.mk.inj (Option.some.inj h)).2.symm).elim
  | removing key' sessionId records =>
    simp only [taskStep, Option.some.injEq, Prod.mk.injEq] at h
    obtain ⟨-, rfl⟩ := h
    split at hr
    · rw [hget_removeConnection] at hr
      split at hr
      · rename_i hsa
        obtain ⟨rfl, rfl⟩ := hsa
        exact ⟨records, rfl⟩
      · exact absurd hr hs
    · exact absurd hr hs
  | removed | left | failed => simp [taskStep] at h

theorem hget_holdLock :
    hget (holdLockScript state i).1.store key field = hget state.store key field := by
  rcases @holdLock_cases state i with hs | ht
  · rw [hs]
  · rw [ht]

theorem hget_retire :
    hget (retireScript state gatewayId).1.store key field = hget state.store key field := by
  unfold retireScript
  split <;> rfl

theorem sweeper_removes (hs : sweeperStep setup state i (state.sweepers i) move = some mid)
    (hst : hget state.store key field ≠ none) (hr : hget mid.store key field = none) :
    ∃ dead sweep member records, state.sweepers i = .sweeping dead sweep .settling ∧
      (member, Task.removing key field records) ∈ sweep.batch := by
  have hq : hget mid.store key field = hget state.store key field → False := by
    intro hsa
    exact hst (hsa ▸ hr)
  cases hp : state.sweepers i with
  | idle =>
    rw [hp] at hs
    cases move <;> simp only [sweeperStep, reduceCtorEq, Option.some.injEq] at hs
    exact (hq (hs ▸ rfl)).elim
  | locking =>
    rw [hp] at hs
    cases move <;> simp only [sweeperStep, reduceCtorEq] at hs
    · split at hs
      · exact (hq (Option.some.inj hs ▸ hget_holdLock (i := i))).elim
      · exact (hq (Option.some.inj hs ▸ rfl)).elim
    · exact (hq (Option.some.inj hs ▸ rfl)).elim
  | listing =>
    rw [hp] at hs
    cases move <;> simp only [sweeperStep, reduceCtorEq] at hs
    · split at hs
      · exact (hq (Option.some.inj hs ▸ rfl)).elim
      · cases hs
    · exact (hq (Option.some.inj hs ▸ rfl)).elim
  | probing known present =>
    rw [hp] at hs
    cases move <;> simp only [sweeperStep, reduceCtorEq] at hs
    · obtain ⟨gatewayId, -, rfl⟩ := Option.map_eq_some_iff.mp hs
      exact (hq rfl).elim
    · split at hs
      · exact (hq (Option.some.inj hs ▸ rfl)).elim
      · cases hs
    · exact (hq (Option.some.inj hs ▸ rfl)).elim
  | choosing dead =>
    rw [hp] at hs
    cases dead <;> cases move <;> simp only [sweeperStep, reduceCtorEq, Option.some.injEq] at hs
    · exact (hq (hs ▸ rfl)).elim
    · exact (hq (hs ▸ rfl)).elim
  | sweeping dead sweep stage =>
    rw [hp] at hs
    simp only [sweeperStep] at hs
    unfold sweepStep at hs
    split at hs
    · split at hs
      · exact (hq (Option.some.inj hs ▸ hget_holdLock (i := i))).elim
      · exact (hq (Option.some.inj hs ▸ rfl)).elim
    · split at hs <;> exact (hq (Option.some.inj hs ▸ rfl)).elim
    · split at hs
      · exact (hq (Option.some.inj hs ▸ rfl)).elim
      · cases hs
    · unfold settleMember at hs
      obtain ⟨⟨member, task⟩, hen, hs⟩ := Option.bind_eq_some_iff.mp hs
      obtain ⟨⟨task', store'⟩, ht, rfl⟩ := Option.map_eq_some_iff.mp hs
      obtain ⟨records, rfl⟩ := taskStep_removes ht hst hr
      exact ⟨dead, sweep, member, records, rfl, List.mem_of_getElem? hen⟩
    · split at hs
      · exact (hq (Option.some.inj hs ▸ rfl)).elim
      · cases hs
    · split at hs
      · exact (hq (Option.some.inj hs ▸ @hget_retire sweep.gatewayId _ _ _)).elim
      · exact (hq (Option.some.inj hs ▸ rfl)).elim
    · exact (hq (Option.some.inj hs ▸ rfl)).elim
    · cases hs

-- A sweeper that removes a session has seen the lease of its gateway missing after the sweep
-- had started, so a process that has held the lease ever since admitted the session later.
theorem sweeper_spares (hin : Inv setup state)
    (hs : sweeperStep setup state i (state.sweepers i) move = some mid)
    (hso : hget state.store (setup.key id) (setup.sessionId id) ≠ none)
    (hr : hget mid.store (setup.key id) (setup.sessionId id) = none) :
    ¬ StillHolds setup state id := by
  rintro ⟨begun, lease, hbe, hru, hl, -, hsi⟩
  obtain ⟨dead, sweep, member, records, hp, ht⟩ := sweeper_removes hs hso hr
  have hok := hin.sweeps hp
  obtain ⟨other, -, -, hh, -, hse, begun', hbe', hb⟩ := hok.tasks ht
  obtain rfl := sessionId_inj setup hse
  cases (hbe.symm.trans hbe')
  rcases hh with hg | ⟨process, -, -, -, hst⟩
  · have ha := hok.lease (.inr rfl) (hg ▸ hl)
    have hn := hok.cutoff hbe (by omega)
    omega
  · have hno := (hin.running hru).2
    unfold rankOf at hst
    cases hp' : state.processes (setup.login id).process <;> simp_all [ProcessPhase.rank]

theorem stepContract_of_inv (hin : Inv setup state)
    (hok : InOrder setup state action) (hs : step setup state action = some next) :
    StepContract setup state action next := by
  have hn := inv_step hin hok hs
  obtain ⟨mid, hac, hmi⟩ := Option.map_eq_some_iff.mp hs
  constructor
  · intro i move ha id hst hre
    subst ha hmi
    exact sweeper_spares hin hac hst hre
  · intro i dead sweep outcome ha hr hef hm member hli
    obtain ⟨known, hl⟩ := (hin.sweeps hr).recorded
    subst ha
    have hsa : mid = (retireScript state sweep.gatewayId).1.moveSweeper i
        (if outcome = .answered then .choosing dead else .idle) := by
      simp only [act, hr, sweeperStep, sweepStep, hef, if_true] at hac
      exact (Option.some.inj hac).symm
    have hrt : (retireScript state sweep.gatewayId).1 =
        { state.setStore (delGatewayConns sweep.gatewayId state.store) with
          known := state.known.erase sweep.gatewayId } := by
      unfold retireScript
      rw [if_neg (by simp [hm])]
    rw [hrt] at hsa
    subst hsa hmi
    rcases (@hn.listings ⟨sweep.gatewayId, sweep.listed, known⟩ hl _ hli).1 with hg | ⟨hsy, -⟩ | hh
    · exact .inl hg
    · exact absurd hsy (by simp [State.moveSweeper, State.setStore, mem_delGatewayConns])
    · exact .inr hh

-- The dead-gateway sweep is safe and complete in every run whose steps are in order.
theorem sweeps_safely_in_order (setup : Setup) : SweepsSafely setup (InOrder setup) := by
  intro actions state hrun
  have hinv := hrun.preserves (Inv setup) (fun _ _ _ hinv hok hstep => inv_step hinv hok hstep)
    inv_initial
  refine ⟨fun listing hlisting member hmember => (hinv.listings hlisting hmember).1, ?_⟩
  intro action next hok hstep
  exact stepContract_of_inv hinv hok hstep

-- One gateway, with one login that is ever sent. Names are told apart by their length.
def named (stem : String) (n : Nat) : String := stem ++ String.ofList (List.replicate n 'a')

theorem toList_named (stem : String) (n : Nat) :
    (named stem n).toList = stem.toList ++ List.replicate n 'a' := by
  simp [named]

theorem named_injective (stem : String) : Function.Injective (named stem) := by
  intro n m h
  have hl := congrArg (fun name => name.toList.length) h
  simpa [toList_named] using hl

def sweptSession : String := "6f1c1d7e-3b0a-4c56-9a53-0d6f3a1b2c3d"

def deadGateway : Setup where
  process n := ⟨"gw", named "a1b2c3d4e5f6" n⟩
  login n :=
    { process := 0
      admission :=
        { session :=
            { id := named sweptSession n, userId := "alice", deviceId := "phone",
              tenantId := "acme", devicePlatform := "ios", serverId := "online-1",
              gatewayId := "gw", createdAt := 0, lastHeartbeatAt := 0 }
          gatewayConnectionId := "p1", strategy := .coexist, maxDevices := 0 } }
  disconnect _ := (⟨"acme", "alice"⟩, sweptSession)
  parsesAsUuid _ := true
  confirmAfter := 6
  boots_distinct := named_injective _
  boots_plain n := by
    rw [toList_named, List.mem_append, not_or, List.mem_replicate]
    exact ⟨by decide, by simp⟩
  gateway_own _ := rfl
  sessions_distinct := named_injective _
  sessions_parse _ := rfl
  sessions_trimmed n := by
    apply Text.trim_eq_self
    have hplain : (sweptSession.toList.all fun c => !Text.isWhitespace c) = true := by decide
    intro c hc
    rw [toList_named, List.mem_append, List.mem_replicate] at hc
    rcases hc with hc | ⟨-, rfl⟩
    · simpa using List.all_eq_true.mp hplain c hc
    · decide
  sessions_nonempty n h := by
    have hlength := congrArg (fun name => name.toList.length) h
    simp [toList_named, sweptSession] at hlength
  tenants_valid _ := show MessagePersistence.isValidTenantId "acme" = true by decide
  users_nonempty _ := show "alice" ≠ "" by decide
  users_short _ := show "alice".utf8ByteSize ≤ 128 by decide

-- The gateway dies, the lookup of its one session fails, and the set that lists the session is
-- deleted all the same.
theorem a_failed_removal_is_forgotten : ¬ ∀ setup, SweepsSafely setup anyStep := by
  intro h
  have hrun : (execute (step deadGateway) anyStep initial
      [.start 0, .adopt 0 .answered, .renew 0 .answered, .login 0 1000, .admission 0 .answered,
        .crash 0, .expireLease "gw",
        .sweeper 0 .sweepOnce, .sweeper 0 (.hold .answered), .sweeper 0 (.knownGateways ["gw"]),
        .sweeper 0 .leasePresent, .sweeper 0 (.confirmedDead 0), .sweeper 0 (.sweepGateway 0),
        .sweeper 0 .sweepOnce, .sweeper 0 (.hold .answered), .sweeper 0 (.knownGateways ["gw"]),
        .sweeper 0 .leasePresent, .sweeper 0 (.confirmedDead 6), .sweeper 0 (.sweepGateway 2000),
        .sweeper 0 (.hold .answered), .sweeper 0 .leasePresent,
        .sweeper 0 (.scan [deadGateway.member 0] true), .sweeper 0 (.retireMember 0 .failed),
        .sweeper 0 .nextBatch]).map (fun last => (last.sweepers 0, last.leases "gw",
          ((step deadGateway last (.sweeper 0 (.retireGateway .answered))).map fun next =>
            ((hget next.store ⟨"acme", "alice"⟩ sweptSession).isSome, next.known)))) =
      some (.sweeping []
        { gatewayId := "gw", cutoffMs := 2000, began := 18, listed := {deadGateway.member 0},
          steady := {deadGateway.member 0}, seen := {deadGateway.member 0},
          batch := [(deadGateway.member 0, .failed)], lastPage := true, failed := true }
        .retiring, none, some (true, ∅)) := by
    decide
  obtain ⟨last, hexecute, hlast⟩ := Option.map_eq_some_iff.mp hrun
  obtain ⟨hsweeping, hlease, hnext⟩ : _ ∧ _ ∧ _ := by simpa only [Prod.mk.injEq] using hlast
  obtain ⟨next, hstep, hafter⟩ := Option.map_eq_some_iff.mp hnext
  obtain ⟨hstored, hknown⟩ := Prod.mk.inj hafter
  have hcontract := (h deadGateway _ last (run_of_execute hexecute)).2 _ next trivial hstep
  rcases hcontract.retires 0 _ _ _ rfl hsweeping rfl hlease (deadGateway.member 0) (by decide) with
    hgone | ⟨orphan, horphan, -⟩
  · rw [hgone "acme" "alice" sweptSession (by decide)] at hstored
    exact absurd hstored (by simp)
  · rw [hknown] at horphan
    exact absurd horphan (Finset.notMem_empty _)

end Results

end FlareIm.GatewaySweep
