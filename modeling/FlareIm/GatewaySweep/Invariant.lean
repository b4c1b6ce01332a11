import FlareIm.GatewaySweep
import FlareIm.SessionStore.Theorems

namespace FlareIm.GatewaySweep

open RoundTrip SessionStore Transition
open SessionRegistry (Admission admitAttempts declareMore)
open Function (update update_of_ne update_self)

variable {gatewayId name member : String} {process other id i : Nat} {store : Store} {sweep : Sweep}
  {stage : Stage} {begun : Begun} {phase : ProcessPhase} {mid : State} {outcome : Outcome}

section Names

theorem baseGatewayId_orphan {boot : String} (hb : '#' ∉ boot.toList) :
    baseGatewayId (orphanGatewayId gatewayId boot) = gatewayId := by
  have hf : Text.beforeLast ORPHAN_MARKER.toList
      (orphanGatewayId gatewayId boot).toList = some gatewayId.toList := by
    simp only [orphanGatewayId, String.toList_append, List.append_assoc]
    exact Text.beforeLast_append (by decide) hb
  simp [baseGatewayId, hf]

theorem orphan_ne_gateway {boot : String} :
    orphanGatewayId gatewayId boot ≠ gatewayId := by
  intro h
  have hl := congrArg (fun name => name.toList.length) h
  simp only [orphanGatewayId, String.toList_append, List.length_append] at hl
  have hm : ORPHAN_MARKER.toList.length = 8 := by decide
  omega

theorem parseConnectionMember_gatewayMember {tenantId userId field : String}
    (ht : tenantId ≠ "") (hu : userId ≠ "") (hf : field ≠ "")
    (hte : tenantId.utf8ByteSize < 2 ^ 64) (hus : userId.utf8ByteSize < 2 ^ 64) :
    parseConnectionMember (gatewayMember tenantId userId field) =
      some ⟨tenantId, userId, field⟩ := by
  have hc : (gatewayMember tenantId userId field).toList =
      'v' :: '1' :: ':' :: Framed.frame tenantId.toList
        (Framed.frame userId.toList field.toList) := by
    simp [gatewayMember]
  have hn : ∀ {name : String}, name ≠ "" → name.toList ≠ [] := by
    intro name hna hni
    exact hna (String.toList_eq_nil_iff.mp hni)
  have hv : tenantId.toList ≠ [] ∧ userId.toList ≠ [] ∧ field.toList ≠ [] :=
    ⟨hn ht, hn hu, hn hf⟩
  rw [← Framed.byteLength_toList] at hte hus
  unfold parseConnectionMember
  rw [hc]
  simp only [parseFields, Framed.unframe_frame hte, Option.bind_some,
    Framed.unframe_frame hus, if_pos hv, String.ofList_toList]

variable (setup : Setup)

@[simp] theorem base_orphan (process : Nat) :
    baseGatewayId (setup.orphan process) = setup.gatewayId process :=
  baseGatewayId_orphan (setup.boots_plain process)

theorem orphan_ne (process : Nat) : setup.orphan process ≠ setup.gatewayId process :=
  orphan_ne_gateway

theorem orphan_inj (h : setup.orphan process = setup.orphan other) : process = other := by
  have hg : setup.gatewayId process = setup.gatewayId other := by
    rw [← base_orphan, ← base_orphan, h]
  apply setup.boots_distinct
  have hc := congrArg String.toList h
  simp only [Setup.orphan, orphanGatewayId, String.toList_append, hg, List.append_assoc,
    List.append_cancel_left_eq] at hc
  exact String.toList_inj.mp hc

theorem tenantId_ne (id : Nat) : (setup.key id).tenantId ≠ "" ∧
    (setup.key id).tenantId.utf8ByteSize < 2 ^ 64 := by
  have hv := setup.tenants_valid id
  simp only [MessagePersistence.isValidTenantId, decide_eq_true_eq] at hv
  refine ⟨hv.1, ?_⟩
  have hl : (setup.key id).tenantId.utf8ByteSize ≤ 32 := hv.2.1
  omega

theorem parse_member (id : Nat) : parseConnectionMember (setup.member id) =
    some ⟨(setup.key id).tenantId, (setup.key id).userId, setup.sessionId id⟩ := by
  obtain ⟨ht, hl⟩ := tenantId_ne setup id
  have hs : (setup.key id).userId.utf8ByteSize ≤ 128 := setup.users_short id
  exact parseConnectionMember_gatewayMember ht (setup.users_nonempty id)
    (setup.sessions_nonempty id) hl (by omega)

theorem sessionId_inj (h : setup.sessionId id = setup.sessionId other) :
    id = other :=
  setup.sessions_distinct h

theorem member_inj (h : setup.member id = setup.member other) : id = other := by
  unfold Setup.member at h
  rw [gatewayMember_inj] at h
  exact sessionId_inj setup h.2.2

end Names

section Contract

variable (setup : Setup)

-- The session a connection set lists is gone from its user's hash.
def Gone (store : Store) (member : String) : Prop :=
  ∀ tenantId userId field, member = gatewayMember tenantId userId field →
    hget store ⟨tenantId, userId⟩ field = none

-- The process that sent a login runs, and has held its lease without a gap since the login
-- arrived.
def StillHolds (state : State) (id : Nat) : Prop :=
  ∃ begun lease, state.begun id = some begun ∧
    state.running (setup.gatewayId (setup.login id).process) = some (setup.login id).process ∧
    state.leases (setup.gatewayId (setup.login id).process) = some lease ∧
    lease.boot = setup.boot (setup.login id).process ∧ lease.since ≤ begun.began

-- A restart has handed the session over: a known orphan of the gateway lists it.
def HandedOver (state : State) (gatewayId member : String) : Prop :=
  ∃ orphan ∈ state.known, baseGatewayId orphan ≠ orphan ∧
    baseGatewayId orphan = baseGatewayId gatewayId ∧
    member ∈ state.store.gatewayConns orphan

-- What holds of one step: a sweeper leaves the sessions of a process that still holds its lease,
-- and deletes a connection set only when every session the set listed at the start of the sweep
-- is gone from its user's hash or handed over.
structure StepContract (state : State) (action : Action) (next : State) : Prop where
  spares (i : Nat) (move : Move) (haction : action = .sweeper i move) (id : Nat)
    (hstored : hget state.store (setup.key id) (setup.sessionId id) ≠ none)
    (hremoved : hget next.store (setup.key id) (setup.sessionId id) = none) :
    ¬ StillHolds setup state id
  retires (i : Nat) (dead : List String) (sweep : Sweep) (outcome : Outcome)
    (haction : action = .sweeper i (.retireGateway outcome))
    (hretiring : state.sweepers i = .sweeping dead sweep .retiring)
    (heffect : outcome.takesEffect = true) (hmissing : state.leases sweep.gatewayId = none)
    (member : String) (hlisted : member ∈ sweep.listed) :
    Gone next.store member ∨ HandedOver next sweep.gatewayId member

-- What a sweep has listed of a known gateway and could not remove, a later sweep finds.
def Found (state : State) (listing : Listing) (member : String) : Prop :=
  Gone state.store member ∨
    (member ∈ state.store.gatewayConns listing.gatewayId ∧
      (listing.known = true → listing.gatewayId ∈ state.known)) ∨
    HandedOver state listing.gatewayId member

def SweepsSafely (ok : State → Action → Prop) : Prop :=
  ∀ actions state, Run (step setup) ok initial actions state →
    (∀ listing ∈ state.listings, ∀ member ∈ listing.members, Found state listing member) ∧
    ∀ action next, ok state action → step setup state action = some next →
      StepContract setup state action next

-- No gateway is named like an orphan, the user ids of logins have no white space around them,
-- clocks agree on what came before the start of a sweep and what after, and a gateway is retired
-- by a sweep in which no removal failed and that has listed what other sweeps have.
def InOrder (state : State) : Action → Prop
  | .start process => baseGatewayId (setup.gatewayId process) = setup.gatewayId process
  | .login id createdAt =>
    Text.trim (setup.key id).userId = (setup.key id).userId ∧
      ∀ i dead sweep stage, state.sweepers i = .sweeping dead sweep stage →
        sweep.cutoffMs < createdAt
  | .sweeper _ (.sweepGateway cutoffMs) =>
    ∀ key field record, hget state.store key field = some record → record.createdAt ≤ cutoffMs
  | .sweeper i (.retireGateway _) =>
    ∀ dead sweep, state.sweepers i = .sweeping dead sweep .retiring →
      state.leases sweep.gatewayId = none →
      sweep.failed = false ∧ ∀ listing ∈ state.listings, ∀ member ∈ listing.members,
        member ∈ state.store.gatewayConns sweep.gatewayId → member ∈ sweep.listed
  | _ => True

end Contract

section Invariant

variable (setup : Setup)

-- How far a process has come. The set of its predecessor is handed over from the second rank on.
def ProcessPhase.rank : ProcessPhase → Nat
  | .unstarted => 0
  | .adopting => 1
  | .renewing => 2
  | .aborted => 3
  | .serving => 4
  | .stopped => 5

def rankOf (state : State) (process : Nat) : Nat := (state.processes process).rank

-- The names that connection sets can have.
def Named (state : State) (name : String) : Prop :=
  ∃ process, (name = setup.gatewayId process ∧ 1 ≤ rankOf state process) ∨
    (name = setup.orphan process ∧ 2 ≤ rankOf state process)

-- A login that has ended.
def Ended (state : State) (id : Nat) : Prop :=
  state.logins id = .finished ∧ ∃ begun, state.begun id = some begun

-- Where the session of a login may be listed: by its gateway, or by an orphan of it once the
-- process that sent the login has stopped.
def Home (state : State) (name : String) (id : Nat) : Prop :=
  name = setup.gatewayId (setup.login id).process ∨
    ∃ process, name = setup.orphan process ∧
      setup.gatewayId process = setup.gatewayId (setup.login id).process ∧
      2 ≤ rankOf state process ∧ rankOf state (setup.login id).process = 5

-- What a step does to the parties.
structure Advances (state next : State) : Prop where
  steps : next.steps = state.steps + 1
  rank (process : Nat) : rankOf state process ≤ rankOf next process
  finished {id : Nat} (h : state.logins id = .finished) : next.logins id = .finished
  begun {id : Nat} {begun : Begun} (h : state.begun id = some begun) : next.begun id = some begun
  arrived {id : Nat} {begun : Begun} (h : next.begun id = some begun) :
    state.begun id = some begun ∨
      ∀ i dead sweep stage, state.sweepers i = .sweeping dead sweep stage →
        sweep.cutoffMs < begun.createdAt
  lease {gatewayId : String} {lease : Lease} (h : next.leases gatewayId = some lease) :
    state.leases gatewayId = some lease ∨ state.steps ≤ lease.since
  known {name : String} (h : name ∈ next.known) : name ∈ state.known ∨ Named setup next name
  listings {listing : Listing} (h : listing ∈ state.listings) : listing ∈ next.listings

-- What a step does to the sessions and the connection sets.
structure Rewrites (state next : State) : Prop where
  stored {key : SessionKey} {field : String} {record : RedisConnectionRecord}
    (h : hget next.store key field = some record) :
    hget state.store key field = some record ∨
      ∃ id begun, key = setup.key id ∧ field = setup.sessionId id ∧
        record = setup.record id begun.createdAt ∧ next.begun id = some begun ∧
        state.logins id ≠ .finished ∧ next.logins id = .finished
  listed {name member : String} (h : member ∈ next.store.gatewayConns name) :
    member ∈ state.store.gatewayConns name ∨
      (∃ id begun, member = setup.member id ∧
        name = setup.gatewayId (setup.login id).process ∧ next.begun id = some begun ∧
        state.logins id ≠ .finished ∧ next.logins id = .finished) ∨
      ∃ process, name = setup.orphan process ∧ state.processes process = .adopting ∧
        2 ≤ rankOf next process ∧ member ∈ state.store.gatewayConns (setup.gatewayId process)
  unlisted {name member : String} (h : member ∈ state.store.gatewayConns name)
    (hlisting : ∃ listing ∈ state.listings, member ∈ listing.members) :
    member ∈ next.store.gatewayConns name ∨ Gone next.store member ∨
      ∃ process, name = setup.gatewayId process ∧ setup.orphan process ∈ next.known ∧
        state.processes process = .adopting ∧
        member ∈ next.store.gatewayConns (setup.orphan process)
  forgotten {name : String} (h : name ∈ state.known) (hgone : name ∉ next.known) :
    next.store.gatewayConns name = ∅

structure Evolves (state next : State) : Prop extends
  Advances setup state next, Rewrites setup state next

variable {state next : State}

theorem Named.mono (hr : ∀ process, rankOf state process ≤ rankOf next process)
    (h : Named setup state name) : Named setup next name := by
  obtain ⟨process, ⟨hn, hs⟩ | ⟨hn, hs⟩⟩ := h
  · have hle := hr process
    exact ⟨process, .inl ⟨hn, by omega⟩⟩
  · have hle := hr process
    exact ⟨process, .inr ⟨hn, by omega⟩⟩

theorem rankOf_le (process : Nat) : rankOf state process ≤ 5 := by
  unfold rankOf
  cases state.processes process <;> simp [ProcessPhase.rank]

theorem Home.mono
    (hr : ∀ process, rankOf state process ≤ rankOf next process) (h : Home setup state name id) :
    Home setup next name id := by
  rcases h with hg | ⟨process, hn, hs, ha, hst⟩
  · exact .inl hg
  · have hle := hr process
    have hl := hr (setup.login id).process
    have hb := @rankOf_le next (setup.login id).process
    exact .inr ⟨process, hn, hs, by omega, by omega⟩

variable {setup}

theorem Ended.mono (hev : Evolves setup state next) (h : Ended state id) : Ended next id := by
  obtain ⟨hf, begun, hb⟩ := h
  exact ⟨hev.finished hf, begun, hev.begun hb⟩

theorem gone_iff :
    Gone store (setup.member id) ↔ hget store (setup.key id) (setup.sessionId id) = none := by
  constructor
  · intro h
    exact h _ _ _ rfl
  · intro h tenantId userId field hm
    unfold Setup.member at hm
    obtain ⟨rfl, rfl, rfl⟩ := gatewayMember_inj.mp hm
    exact h

-- A session that is gone does not come back: no login stores its session twice.
theorem Gone.stays (hev : Evolves setup state next)
    (hen : state.logins id = .finished) (h : Gone state.store (setup.member id)) :
    Gone next.store (setup.member id) := by
  rw [gone_iff] at h ⊢
  by_contra hst
  obtain ⟨record, hr⟩ := Option.ne_none_iff_exists'.mp hst
  rcases hev.stored hr with hold | ⟨other, begun, -, hs, -, -, hl, -⟩
  · rw [h] at hold
    cases hold
  · obtain rfl := sessionId_inj setup hs
    exact hl hen

-- What is known of a member of a batch, by where its task stands.
def Settled (setup : Setup) (state : State) (sweep : Sweep) (id : Nat) : Task → Prop
  | .looking => True
  | .forgetting | .removed => Gone state.store (setup.member id)
  | .loading key sessionId | .removing key sessionId _ =>
    key = setup.key id ∧ sessionId = setup.sessionId id ∧
      ∃ begun, state.begun id = some begun ∧ begun.createdAt ≤ sweep.cutoffMs
  | .left => setup.member id ∉ sweep.listed
  | .failed => sweep.failed = true

structure SweepOk (setup : Setup) (state : State) (sweep : Sweep) (stage : Stage) : Prop where
  named : Named setup state sweep.gatewayId
  began : sweep.began < state.steps
  lease (hstage : stage = .scanning ∨ stage = .settling) {lease : Lease}
    (h : state.leases sweep.gatewayId = some lease) : sweep.began < lease.since
  cutoff {id : Nat} {begun : Begun} (h : state.begun id = some begun)
    (hafter : sweep.began < begun.began) : sweep.cutoffMs < begun.createdAt
  listed {member : String} (h : member ∈ sweep.listed) :
    ∃ id begun, member = setup.member id ∧ state.logins id = .finished ∧
      state.begun id = some begun ∧ Home setup state sweep.gatewayId id ∧
      (Gone state.store member ∨ begun.createdAt ≤ sweep.cutoffMs)
  recorded : ∃ known, ⟨sweep.gatewayId, sweep.listed, known⟩ ∈ state.listings
  steady {member : String} (h : member ∈ sweep.listed)
    (hstays : member ∈ state.store.gatewayConns sweep.gatewayId) : member ∈ sweep.steady
  seen {member : String} (h : member ∈ sweep.seen) (hlisted : member ∈ sweep.listed) :
    Gone state.store member ∨ sweep.failed = true ∨
      ∃ task, (member, task) ∈ sweep.batch ∧ task.isDone = false
  tasks {member : String} {task : Task} (h : (member, task) ∈ sweep.batch) :
    ∃ id, member = setup.member id ∧ Ended state id ∧ Home setup state sweep.gatewayId id ∧
      Settled setup state sweep id task
  done (hstage : stage ≠ .settling) {member : String} {task : Task}
    (h : (member, task) ∈ sweep.batch) : task.isDone = true
  last (h : sweep.lastPage = true) : sweep.steady ⊆ sweep.seen
  retiring (h : stage = .retiring) : sweep.lastPage = true

theorem Settled.mono (hev : Evolves setup state next)
    {task : Task} (hen : state.logins id = .finished) (h : Settled setup state sweep id task) :
    Settled setup next sweep id task := by
  cases task with
  | looking => exact trivial
  | forgetting | removed => exact Gone.stays hev hen h
  | loading key sessionId | removing key sessionId records =>
    obtain ⟨hk, hs, begun, hb, hc⟩ := h
    exact ⟨hk, hs, begun, hev.begun hb, hc⟩
  | left | failed => exact h

theorem listed_before (hev : Evolves setup state next) (hen : state.logins id = .finished)
    (h : setup.member id ∈ next.store.gatewayConns name) :
    setup.member id ∈ state.store.gatewayConns name ∨
      ∃ process, name = setup.orphan process ∧ state.processes process = .adopting := by
  rcases hev.listed h with hold | ⟨other, begun, hm, -, -, hl, -⟩ | ⟨process, hn, ha, -, -⟩
  · exact .inl hold
  · obtain rfl := member_inj setup hm
    exact absurd hen hl
  · exact .inr ⟨process, hn, ha⟩

-- No set has the name of an orphan whose process has not handed it over.
theorem not_named_orphan (hp : ∀ process, 1 ≤ rankOf state process →
      baseGatewayId (setup.gatewayId process) = setup.gatewayId process)
    (ha : state.processes process = .adopting) : ¬ Named setup state (setup.orphan process) := by
  rintro ⟨other, ⟨hn, hs⟩ | ⟨hn, had⟩⟩
  · have hb := hp other hs
    rw [← hn, base_orphan] at hb
    exact orphan_ne_gateway hb.symm
  · obtain rfl := orphan_inj setup hn
    simp [rankOf, ha, ProcessPhase.rank] at had

theorem SweepOk.mono (hev : Evolves setup state next) {dead : List String}
    (hin : state.sweepers i = .sweeping dead sweep stage)
    (hp : ∀ process, 1 ≤ rankOf state process →
      baseGatewayId (setup.gatewayId process) = setup.gatewayId process)
    (h : SweepOk setup state sweep stage) : SweepOk setup next sweep stage where
  named := h.named.mono setup hev.rank
  began := by
    have hbe := h.began
    rw [hev.steps]
    omega
  lease hst lease hla := by
    rcases hev.lease hla with hold | hn
    · exact h.lease hst hold
    · have hbe := h.began
      omega
  cutoff hb ha := by
    rcases hev.arrived hb with hold | hn
    · exact h.cutoff hold ha
    · exact hn i dead sweep stage hin
  listed hm := by
    obtain ⟨id, begun, rfl, hf, hb, hh, hg⟩ := h.listed hm
    refine ⟨id, begun, rfl, hev.finished hf, hev.begun hb, hh.mono setup hev.rank, ?_⟩
    rcases hg with hg | hc
    · exact .inl (hg.stays hev hf)
    · exact .inr hc
  recorded := by
    obtain ⟨known, hl⟩ := h.recorded
    exact ⟨known, hev.listings hl⟩
  steady hm hsa := by
    obtain ⟨id, begun, rfl, hf, -⟩ := h.listed hm
    rcases listed_before hev hf hsa with hold | ⟨process, hna, had⟩
    · exact h.steady hm hold
    · exact absurd (hna ▸ h.named) (not_named_orphan hp had)
  seen hse hm := by
    obtain ⟨id, begun, rfl, hf, -⟩ := h.listed hm
    rcases h.seen hse hm with hg | hr
    · exact .inl (hg.stays hev hf)
    · exact .inr hr
  tasks hm := by
    obtain ⟨id, rfl, hen, hh, hs⟩ := h.tasks hm
    exact ⟨id, rfl, hen.mono hev, hh.mono setup hev.rank, hs.mono hev hen.1⟩
  done := h.done
  last := h.last
  retiring := h.retiring

theorem SweepOk.observe (h : SweepOk setup next sweep stage) :
    SweepOk setup next
      { sweep with steady := sweep.steady ∩ next.store.gatewayConns sweep.gatewayId } stage :=
  { h with
    steady := fun hm hs => Finset.mem_inter.mpr ⟨h.steady hm hs, hs⟩
    tasks := fun hm => by
      obtain ⟨id, hid, hen, hh, hse⟩ := h.tasks hm
      exact ⟨id, hid, hen, hh, by cases ‹Task› <;> exact hse⟩
    last := fun hl => Finset.inter_subset_left.trans (h.last hl) }

-- The names a sweeper is about to probe or to sweep.
def SweeperPhase.names : SweeperPhase → List String
  | .probing known _ => known
  | .choosing dead => dead
  | .sweeping dead _ _ => dead
  | _ => []

def ProcessPhase.isLive : ProcessPhase → Bool
  | .adopting | .renewing | .serving => true
  | _ => false

-- A gateway runs one process, and none that has stopped.
structure Hosts (setup : Setup) (state : State) : Prop where
  plain {process : Nat} (h : 1 ≤ rankOf state process) :
    baseGatewayId (setup.gatewayId process) = setup.gatewayId process
  running {gatewayId : String} {process : Nat} (h : state.running gatewayId = some process) :
    setup.gatewayId process = gatewayId ∧ state.processes process ≠ .stopped
  live {process : Nat} (h : (state.processes process).isLive = true) :
    state.running (setup.gatewayId process) = some process

structure Inv (setup : Setup) (state : State) : Prop extends Hosts setup state where
  begun {id : Nat} {begun : Begun} (h : state.begun id = some begun) :
    begun.began < state.steps ∧ 4 ≤ rankOf state (setup.login id).process ∧
      Text.trim (setup.key id).userId = (setup.key id).userId ∧ state.logins id ≠ .waiting
  stored {key : SessionKey} {field : String} {record : RedisConnectionRecord}
    (h : hget state.store key field = some record) :
    ∃ id begun, key = setup.key id ∧ field = setup.sessionId id ∧
      record = setup.record id begun.createdAt ∧ state.begun id = some begun ∧
      state.logins id = .finished
  members {name member : String} (h : member ∈ state.store.gatewayConns name) :
    ∃ id begun, member = setup.member id ∧ state.begun id = some begun ∧
      state.logins id = .finished ∧ Home setup state name id
  known {name : String} (h : name ∈ state.known) : Named setup state name
  names (i : Nat) {name : String} (h : name ∈ (state.sweepers i).names) :
    Named setup state name
  sweeps {i : Nat} {dead : List String} {sweep : Sweep} {stage : Stage}
    (h : state.sweepers i = .sweeping dead sweep stage) : SweepOk setup state sweep stage
  listings {listing : Listing} (h : listing ∈ state.listings) {member : String}
    (hmember : member ∈ listing.members) :
    Found state listing member ∧ ∃ id, member = setup.member id ∧ Ended state id

end Invariant

section Steps

variable {setup : Setup} {state next : State}

theorem stored_next (hin : Inv setup state) (hev : Evolves setup state next)
    {key : SessionKey} {field : String} {record : RedisConnectionRecord}
    (h : hget next.store key field = some record) :
    ∃ id begun, key = setup.key id ∧ field = setup.sessionId id ∧
      record = setup.record id begun.createdAt ∧ next.begun id = some begun ∧
      next.logins id = .finished := by
  rcases hev.stored h with hold | ⟨id, begun, hk, hfi, hr, hb, -, hf⟩
  · obtain ⟨id, begun, hk, hfi, hr, hb, hf⟩ := hin.stored hold
    exact ⟨id, begun, hk, hfi, hr, hev.begun hb, hev.finished hf⟩
  · exact ⟨id, begun, hk, hfi, hr, hb, hf⟩

theorem stopped_of_adopting (hin : Inv setup state)
    (ha : state.processes process = .adopting) (hbe : state.begun id = some begun)
    (hh : Home setup state (setup.gatewayId process) id) :
    setup.gatewayId process = setup.gatewayId (setup.login id).process ∧
      rankOf state (setup.login id).process = 5 := by
  obtain ⟨-, hr, -, -⟩ := hin.begun hbe
  rcases hh with hsa | ⟨other, hn, -, -, hso⟩
  · refine ⟨hsa, ?_⟩
    by_contra hne
    have hbo := @rankOf_le state (setup.login id).process
    have hs : state.processes (setup.login id).process = .serving := by
      unfold rankOf at hr hne
      cases hp : state.processes (setup.login id).process <;> simp_all [ProcessPhase.rank]
    have hon := hin.live (show (state.processes process).isLive = true by rw [ha]; rfl)
    have ho := hin.live
      (show (state.processes (setup.login id).process).isLive = true by rw [hs]; rfl)
    rw [hsa, ho] at hon
    rw [Option.some.inj hon, ha] at hs
    cases hs
  · have hst : 1 ≤ rankOf state process := by simp [rankOf, ha, ProcessPhase.rank]
    have hb := hin.plain hst
    rw [hn, base_orphan] at hb
    exact absurd hb.symm orphan_ne_gateway

theorem members_next (hin : Inv setup state) (hev : Evolves setup state next)
    (h : member ∈ next.store.gatewayConns name) :
    ∃ id begun, member = setup.member id ∧ next.begun id = some begun ∧
      next.logins id = .finished ∧ Home setup next name id := by
  rcases hev.listed h with hold | ⟨id, begun, hm, hn, hb, -, hf⟩ | ⟨process, hn, ha, had, hold⟩
  · obtain ⟨id, begun, hm, hb, hf, hh⟩ := hin.members hold
    exact ⟨id, begun, hm, hev.begun hb, hev.finished hf, hh.mono setup hev.rank⟩
  · exact ⟨id, begun, hm, hb, hf, .inl hn⟩
  · obtain ⟨id, begun, hm, hb, hf, hh⟩ := hin.members hold
    obtain ⟨hs, hst⟩ := stopped_of_adopting hin ha hb hh
    have hle := hev.rank (setup.login id).process
    have hbo := @rankOf_le next (setup.login id).process
    exact ⟨id, begun, hm, hev.begun hb, hev.finished hf, .inr ⟨process, hn, hs, had, by omega⟩⟩

theorem known_next (hin : Inv setup state) (hev : Evolves setup state next)
    (h : name ∈ next.known) : Named setup next name := by
  rcases hev.known h with hold | hn
  · exact (hin.known hold).mono setup hev.rank
  · exact hn

theorem handedOver_next (hin : Inv setup state) (hev : Evolves setup state next)
    (hl : ∃ listing ∈ state.listings, member ∈ listing.members) (h : HandedOver state name member) :
    Gone next.store member ∨ HandedOver next name member := by
  obtain ⟨orphan, hk, ho, hb, hm⟩ := h
  rcases hev.unlisted hm hl with hs | hg | ⟨process, hn, -, ha, -⟩
  · right
    refine ⟨orphan, ?_, ho, hb, hs⟩
    by_contra hf
    rw [hev.forgotten hk hf] at hs
    exact absurd hs (Finset.notMem_empty _)
  · exact .inl hg
  · have hst : 1 ≤ rankOf state process := by simp [rankOf, ha, ProcessPhase.rank]
    rw [hn, hin.plain hst] at ho
    exact absurd rfl ho

theorem found_next (hin : Inv setup state) (hev : Evolves setup state next)
    {listing : Listing} (hl : listing ∈ state.listings)
    (hm : member ∈ listing.members) :
    Found next listing member ∧ ∃ id, member = setup.member id ∧ Ended next id := by
  obtain ⟨hf, id, rfl, hen⟩ := hin.listings hl hm
  refine ⟨?_, id, rfl, hen.mono hev⟩
  rcases hf with hg | ⟨hli, hk⟩ | hh
  · exact .inl (hg.stays hev hen.1)
  · rcases hev.unlisted hli ⟨listing, hl, hm⟩ with hs | hg | ⟨process, hn, hk', ha, ho⟩
    · refine .inr (.inl ⟨hs, fun hw => ?_⟩)
      by_contra hfo
      rw [hev.forgotten (hk hw) hfo] at hs
      exact absurd hs (Finset.notMem_empty _)
    · exact .inl hg
    · have hst : 1 ≤ rankOf state process := by
        simp [rankOf, ha, ProcessPhase.rank]
      have hb : baseGatewayId (setup.orphan process) = baseGatewayId listing.gatewayId := by
        rw [base_orphan, hn, hin.plain hst]
      refine .inr (.inr ⟨setup.orphan process, hk', ?_, hb, ho⟩)
      rw [base_orphan]
      exact orphan_ne_gateway.symm
  · rcases handedOver_next hin hev ⟨listing, hl, hm⟩ hh with hg | hs
    · exact .inl hg
    · exact .inr (.inr hs)

theorem rewrites_same (hs : next.store = state.store) (hk : state.known ⊆ next.known) :
    Rewrites setup state next where
  stored h := .inl (hs ▸ h)
  listed h := .inl (hs ▸ h)
  unlisted h _ := .inl (by rw [hs]; exact h)
  forgotten h hg := absurd (hk h) hg

theorem advances_same (hs : next.steps = state.steps + 1)
    (hp : next.processes = state.processes) (hlo : next.logins = state.logins)
    (hb : next.begun = state.begun) (hla : next.leases = state.leases)
    (hk : next.known ⊆ state.known) (hl : state.listings ⊆ next.listings) :
    Advances setup state next where
  steps := hs
  rank process := by simp [rankOf, hp]
  finished h := by rw [hlo]; exact h
  begun h := by rw [hb]; exact h
  arrived h := .inl (hb ▸ h)
  lease h := .inl (hla ▸ h)
  known h := .inl (hk h)
  listings h := hl h

theorem advances_process (hs : next.steps = state.steps + 1)
    (hp : next.processes = update state.processes process phase)
    (hr : rankOf state process ≤ phase.rank) (hlo : next.logins = state.logins)
    (hb : next.begun = state.begun) (hl : next.listings = state.listings)
    (hla : ∀ gatewayId lease, next.leases gatewayId = some lease →
      state.leases gatewayId = some lease ∨ state.steps ≤ lease.since)
    (hk : ∀ name ∈ next.known, name ∈ state.known ∨ Named setup next name) :
    Advances setup state next where
  steps := hs
  rank other := by
    by_cases h : other = process
    · subst h
      simpa [rankOf, hp] using hr
    · simp [rankOf, hp, h]
  finished h := by rw [hlo]; exact h
  begun h := by rw [hb]; exact h
  arrived h := .inl (hb ▸ h)
  lease h := hla _ _ h
  known h := hk _ h
  listings h := by rw [hl]; exact h

theorem mem_renameGatewayConns {source target : String} (hne : target ≠ source) :
    member ∈ (renameGatewayConns source target store).gatewayConns name ↔
      (name = target ∧ member ∈ store.gatewayConns source) ∨
        (name ≠ target ∧ name ≠ source ∧ member ∈ store.gatewayConns name) := by
  unfold renameGatewayConns
  by_cases hs : name = source
  · subst hs
    simp [hne.symm]
  · by_cases ht : name = target
    · subst ht
      simp [hs]
    · simp [hs, ht]

theorem mem_delGatewayConns :
    member ∈ (delGatewayConns gatewayId store).gatewayConns name ↔
      name ≠ gatewayId ∧ member ∈ store.gatewayConns name := by
  unfold delGatewayConns
  by_cases h : name = gatewayId
  · subst h
    simp
  · simp [h]

theorem rewrites_adopt (hin : Inv setup state) (ha : state.processes process = .adopting)
    (hs : next.store = renameGatewayConns (setup.gatewayId process) (setup.orphan process)
      state.store) (hk : next.known = insert (setup.orphan process) state.known)
    (had : 2 ≤ rankOf next process) : Rewrites setup state next where
  stored h := .inl (by rw [hs] at h; exact h)
  listed h := by
    rw [hs, mem_renameGatewayConns (orphan_ne setup _)] at h
    rcases h with ⟨hna, hm⟩ | ⟨-, -, hm⟩
    · exact .inr (.inr ⟨process, hna, ha, had, hm⟩)
    · exact .inl hm
  unlisted {name member} h _ := by
    simp only [hs, mem_renameGatewayConns (orphan_ne setup _)]
    by_cases hg : name = setup.gatewayId process
    · subst hg
      refine .inr (.inr ⟨process, rfl, ?_, ha, .inl ⟨rfl, h⟩⟩)
      rw [hk]
      exact Finset.mem_insert_self _ _
    · by_cases hor : name = setup.orphan process
      · obtain ⟨id, begun, -, hb, -, hh⟩ := hin.members h
        have hn : Named setup state name := by
          obtain ⟨-, hr, -, -⟩ := hin.begun hb
          rcases hh with hsa | ⟨other, ho, -, had', -⟩
          · exact ⟨_, .inl ⟨hsa, by omega⟩⟩
          · exact ⟨other, .inr ⟨ho, had'⟩⟩
        exact absurd (hor ▸ hn) (not_named_orphan (fun _ h => hin.plain h) ha)
      · exact .inl (.inr ⟨hor, hg, h⟩)
  forgotten h hgo := by
    rw [hk] at hgo
    exact absurd (Finset.mem_insert_of_mem h) hgo

theorem rewrites_admitted (hin : Inv setup state)
    (hb : state.begun id = some begun) (hl : state.logins id ≠ .finished)
    (hs : next.store = admitted (setup.record id begun.createdAt)
      (setup.admission id).session.userId (setup.admission id).strategy
      (setup.admission id).maxDevices state.store)
    (hb' : next.begun = state.begun) (hfi : next.logins id = .finished)
    (hkn : next.known = state.known) : Rewrites setup state next where
  stored {key field record} h := by
    rw [hs] at h
    rcases (hget_admitted _ _ _ _ _).mp h with ⟨hk, hfe, hr⟩ | ⟨-, hold, -⟩
    · exact .inr ⟨id, begun, hk, hfe, hr, by rw [hb', hb], hl, hfi⟩
    · exact .inl hold
  listed {name member} h := by
    rw [hs] at h
    rcases (mem_gatewayConns_admitted _ _ _ _ _).mp h with ⟨hn, hm⟩ | ⟨hold, -⟩
    · refine .inr (.inl ⟨id, begun, hm, ?_, by rw [hb', hb], hl, hfi⟩)
      exact hn.trans (setup.gateway_own id)
    · exact .inl hold
  unlisted {name member} h _ := by
    rw [hs, mem_gatewayConns_admitted]
    by_cases hei : ∃ eviction ∈ evictionsOf
        (scriptRemoves (setup.record id begun.createdAt) (setup.admission id).session.userId
          (setup.admission id).strategy (setup.admission id).maxDevices state.store)
        (hgetall state.store ⟨(setup.record id begun.createdAt).tenantId,
          (setup.admission id).session.userId⟩), name = eviction.record.gatewayId ∧
          member = gatewayMember eviction.record.tenantId (setup.admission id).session.userId
            eviction.field
    · obtain ⟨eviction, hev, -, rfl⟩ := hei
      obtain ⟨hc, hre⟩ := mem_evictionsOf hev
      have hf := (mem_hgetall state.store _).mp hc
      obtain ⟨other, begun', hk, hfe, hr, -, hen⟩ := hin.stored hf
      have ht : eviction.record.tenantId = (setup.record id begun.createdAt).tenantId := by
        rw [hr]
        exact (congrArg SessionKey.tenantId hk).symm
      refine .inr (.inl fun tenantId userId field hm => ?_)
      obtain ⟨rfl, rfl, rfl⟩ := gatewayMember_inj.mp hm
      rw [ht]
      by_contra hst
      obtain ⟨record, hr'⟩ := Option.ne_none_iff_exists'.mp hst
      rcases (hget_admitted _ _ _ _ _).mp hr' with ⟨-, hnw, -⟩ | ⟨-, hold, hsa⟩
      · -- the session of another login has another id
        obtain rfl := sessionId_inj setup (hfe.symm.trans hnw)
        exact hl hen
      · cases (hf.symm.trans hold)
        exact hsa rfl hre
    · refine .inl (.inr ⟨h, fun eviction hev hsm => ?_⟩)
      exact hei ⟨eviction, hev, hsm⟩
  forgotten h hg := absurd (hkn ▸ h) hg

theorem rewrites_removed {key : SessionKey} {sessionId : String}
    {records : List RedisConnectionRecord}
    (hs : next.store = removeConnection key sessionId records state.store)
    (hk : next.known = state.known) : Rewrites setup state next where
  stored h := by
    rw [hs, hget_removeConnection] at h
    split at h
    · cases h
    · exact .inl h
  listed h := by
    rw [hs] at h
    exact .inl (mem_gatewayConns_of_removeConnection h)
  unlisted {name member} h _ := by
    rw [hs]
    by_cases hsa : member = gatewayMember key.tenantId key.userId sessionId
    · refine .inr (.inl fun tenantId userId field hm => ?_)
      obtain ⟨rfl, rfl, rfl⟩ := gatewayMember_inj.mp (hsa.symm.trans hm)
      rw [hget_removeConnection, if_pos ⟨rfl, rfl⟩]
    · exact .inl (mem_gatewayConns_removeConnection h hsa)
  forgotten h hg := absurd (hk ▸ h) hg

theorem rewrites_forgotten (hg : Gone state.store member)
    (hs : next.store = removeGatewayConn state.store name member)
    (hk : next.known = state.known) : Rewrites setup state next where
  stored h := .inl (by rw [hs] at h; exact h)
  listed h := by
    rw [hs, mem_removeGatewayConn] at h
    exact .inl h.2
  unlisted {other member'} h _ := by
    rw [hs]
    by_cases hsa : other = name ∧ member' = member
    · obtain ⟨-, rfl⟩ := hsa
      exact .inr (.inl hg)
    · exact .inl ((mem_removeGatewayConn _ _ _).mpr ⟨hsa, h⟩)
  forgotten h hf := absurd (hk ▸ h) hf

theorem rewrites_retired
    (hg : ∀ member ∈ state.store.gatewayConns gatewayId,
      (∃ listing ∈ state.listings, member ∈ listing.members) → Gone state.store member)
    (hs : next.store = delGatewayConns gatewayId state.store)
    (hk : next.known = state.known.erase gatewayId) : Rewrites setup state next where
  stored h := .inl (by rw [hs] at h; exact h)
  listed h := by
    rw [hs, mem_delGatewayConns] at h
    exact .inl h.2
  unlisted {name member} h hl := by
    rw [hs]
    by_cases hsa : name = gatewayId
    · subst hsa
      exact .inr (.inl (hg member h hl))
    · exact .inl (mem_delGatewayConns.mpr ⟨hsa, h⟩)
  forgotten {name} h hf := by
    have hn : name = gatewayId := by
      by_contra hne
      rw [hk] at hf
      exact hf (Finset.mem_erase.mpr ⟨hne, h⟩)
    rw [hs, hn]
    simp [delGatewayConns]

theorem hosts_same (hh : Hosts setup state) (hp : next.processes = state.processes)
    (hr : next.running = state.running) : Hosts setup next where
  plain h := hh.plain (by simpa [rankOf, hp] using h)
  running h := by
    rw [hp]
    exact hh.running (hr ▸ h)
  live h := by
    rw [hr]
    exact hh.live (hp ▸ h)

theorem hosts_start (hh : Hosts setup state)
    (hpl : baseGatewayId (setup.gatewayId process) = setup.gatewayId process)
    (hf : state.running (setup.gatewayId process) = none)
    (hpr : next.processes = update state.processes process .adopting)
    (hr : next.running = update state.running (setup.gatewayId process) (some process)) :
    Hosts setup next where
  plain {other} h := by
    by_cases hs : other = process
    · rw [hs, hpl]
    · exact hh.plain (by simpa [rankOf, hpr, hs] using h)
  running {gatewayId other} h := by
    rw [hr] at h
    by_cases hg : gatewayId = setup.gatewayId process
    · subst hg
      rw [update_self] at h
      cases h
      exact ⟨rfl, by simp [hpr]⟩
    · rw [update_of_ne hg] at h
      obtain ⟨hn, hp⟩ := hh.running h
      have ho : other ≠ process := by
        rintro rfl
        exact hg hn.symm
      exact ⟨hn, by rw [hpr, update_of_ne ho]; exact hp⟩
  live {other} h := by
    rw [hr]
    by_cases hs : other = process
    · subst hs
      rw [update_self]
    · rw [hpr, update_of_ne hs] at h
      have ho := hh.live h
      have hg : setup.gatewayId other ≠ setup.gatewayId process := by
        intro heq
        rw [heq, hf] at ho
        cases ho
      rw [update_of_ne hg]
      exact ho

theorem one_le_rank_of_isLive (h : phase.isLive = true) : 1 ≤ phase.rank := by
  cases phase with
  | unstarted | stopped => cases h
  | adopting | renewing | aborted | serving => decide

theorem Hosts.plain_of_live (hh : Hosts setup state) (hl : (state.processes process).isLive = true)
    (hp : next.processes = update state.processes process phase)
    (h : 1 ≤ rankOf next other) :
    baseGatewayId (setup.gatewayId other) = setup.gatewayId other := by
  by_cases hs : other = process
  · rw [hs]
    exact hh.plain (one_le_rank_of_isLive hl)
  · exact hh.plain (by simpa [rankOf, hp, hs] using h)

theorem hosts_move (hh : Hosts setup state)
    (hl : (state.processes process).isLive = true) (hp : phase ≠ .stopped)
    (hpr : next.processes = update state.processes process phase)
    (hr : next.running = state.running) : Hosts setup next where
  plain {other} h := hh.plain_of_live hl hpr h
  running {gatewayId other} h := by
    obtain ⟨hn, hb⟩ := hh.running (hr ▸ h)
    refine ⟨hn, ?_⟩
    by_cases hs : other = process
    · subst hs
      simpa [hpr] using hp
    · rw [hpr, update_of_ne hs]
      exact hb
  live {other} h := by
    rw [hr]
    by_cases hs : other = process
    · rw [hs]
      exact hh.live hl
    · rw [hpr, update_of_ne hs] at h
      exact hh.live h

theorem hosts_end (hh : Hosts setup state)
    (hl : (state.processes process).isLive = true) (hp : phase.isLive = false)
    (hpr : next.processes = update state.processes process phase)
    (hr : next.running =
      update state.running (setup.gatewayId process) none) : Hosts setup next where
  plain {other} h := hh.plain_of_live hl hpr h
  running {gatewayId other} h := by
    rw [hr] at h
    by_cases hg : gatewayId = setup.gatewayId process
    · subst hg
      rw [update_self] at h
      cases h
    · rw [update_of_ne hg] at h
      obtain ⟨hn, hb⟩ := hh.running h
      have ho : other ≠ process := by
        rintro rfl
        exact hg hn.symm
      exact ⟨hn, by rw [hpr, update_of_ne ho]; exact hb⟩
  live {other} h := by
    rw [hr]
    have ho : other ≠ process := by
      rintro rfl
      rw [hpr, update_self, hp] at h
      cases h
    rw [hpr, update_of_ne ho] at h
    have hb := hh.live h
    have hg : setup.gatewayId other ≠ setup.gatewayId process := by
      intro heq
      rw [heq, hh.live hl] at hb
      exact ho (Option.some.inj hb).symm
    rw [update_of_ne hg]
    exact hb

theorem begun_same (hin : Inv setup state) (hev : Evolves setup state next)
    (hb : next.begun = state.begun)
    (hl : ∀ id, state.logins id ≠ .waiting → next.logins id ≠ .waiting)
    (h : next.begun id = some begun) :
    begun.began < next.steps ∧ 4 ≤ rankOf next (setup.login id).process ∧
      Text.trim (setup.key id).userId = (setup.key id).userId ∧ next.logins id ≠ .waiting := by
  obtain ⟨hbe, hr, ht, hp⟩ := hin.begun (hb ▸ h)
  have hs := hev.steps
  have hle := hev.rank (setup.login id).process
  exact ⟨by omega, by omega, ht, hl id hp⟩

theorem names_observe (store : Store) (phase : SweeperPhase) :
    (phase.observe store).names = phase.names := by
  cases phase <;> rfl

-- The sweepers whose turn it is not go on as they were.
theorem sweeps_follow (hin : Inv setup state) (hev : Evolves setup state next)
    (hf : next.sweepers i = state.sweepers i ∨
      next.sweepers i = (state.sweepers i).observe next.store)
    {dead : List String}
    (h : next.sweepers i = .sweeping dead sweep stage) : SweepOk setup next sweep stage := by
  rcases hf with hs | ho
  · rw [hs] at h
    exact (hin.sweeps h).mono hev h fun _ h => hin.plain h
  · rw [ho] at h
    cases hp : state.sweepers i with
    | sweeping dead' sweep' stage' =>
      rw [hp, SweeperPhase.observe] at h
      simp only [SweeperPhase.sweeping.injEq] at h
      obtain ⟨-, rfl, rfl⟩ := h
      exact ((hin.sweeps hp).mono hev hp fun _ h => hin.plain h).observe
    | idle | locking | listing | probing | choosing =>
      rw [hp] at h
      simp [SweeperPhase.observe] at h

theorem names_follow (hin : Inv setup state) (hev : Evolves setup state next)
    (hf : next.sweepers i = state.sweepers i ∨
      next.sweepers i = (state.sweepers i).observe next.store)
    (h : name ∈ (next.sweepers i).names) : Named setup next name := by
  have hold : name ∈ (state.sweepers i).names := by
    rcases hf with hs | ho
    · rwa [hs] at h
    · rwa [ho, names_observe] at h
  exact (hin.names i hold).mono setup hev.rank

theorem inv_of_parties (hin : Inv setup state) (hev : Evolves setup state next)
    (hh : Hosts setup next)
    (hb : ∀ id begun, next.begun id = some begun → begun.began < next.steps ∧
      4 ≤ rankOf next (setup.login id).process ∧
      Text.trim (setup.key id).userId = (setup.key id).userId ∧ next.logins id ≠ .waiting)
    (hf : ∀ i, next.sweepers i = state.sweepers i ∨
      next.sweepers i = (state.sweepers i).observe next.store)
    (hl : next.listings = state.listings) : Inv setup next where
  toHosts := hh
  begun h := hb _ _ h
  stored h := stored_next hin hev h
  members h := members_next hin hev h
  known h := known_next hin hev h
  names i _ h := names_follow hin hev (hf i) h
  sweeps h := sweeps_follow hin hev (hf _) h
  listings h _ hm := found_next hin hev (hl ▸ h) hm

-- The state after a step is counted.
abbrev State.counted (mid state : State) : State := { mid with steps := state.steps + 1 }

-- What a step comes to.
def Keeps (setup : Setup) (state mid : State) : Prop :=
  Evolves setup state (mid.counted state) ∧ Inv setup (mid.counted state)

theorem keeps_process (hin : Inv setup state) (hev : Evolves setup state (mid.counted state))
    (hh : Hosts setup (mid.counted state))
    (hlo : mid.logins = state.logins) (hb : mid.begun = state.begun)
    (hf : ∀ i, mid.sweepers i = state.sweepers i ∨
      mid.sweepers i = (state.sweepers i).observe mid.store)
    (hl : mid.listings = state.listings) : Keeps setup state mid := by
  refine ⟨hev, inv_of_parties hin hev hh ?_ hf hl⟩
  intro id begun h
  exact begun_same hin hev hb (fun id hid => by rw [hlo]; exact hid) h

theorem keeps_start (hin : Inv setup state)
    (hp : baseGatewayId (setup.gatewayId process) = setup.gatewayId process)
    (h : startProcess setup state process = some mid) : Keeps setup state mid := by
  unfold startProcess at h
  split at h
  · rename_i hf
    cases h
    have hev : Evolves setup state
        { { state.moveProcess process .adopting with
            running := update state.running (setup.gatewayId process) (some process) }
          with steps := state.steps + 1 } :=
      { toAdvances := advances_process rfl rfl (by simp [rankOf, hf.1, ProcessPhase.rank])
          rfl rfl rfl (fun _ _ h => .inl h) (fun _ h => .inl h)
        toRewrites := rewrites_same rfl (Finset.Subset.refl _) }
    exact keeps_process hin hev
      (hosts_start hin.toHosts hp hf.2 rfl rfl) rfl rfl (fun _ => .inl rfl) rfl
  · cases h

theorem keeps_end (hin : Inv setup state) {before : State}
    (hli : (state.processes process).isLive = true) (hp : phase.isLive = false)
    (hra : rankOf state process ≤ phase.rank)
    (hpr : before.processes = state.processes) (hr : before.running = state.running)
    (hlo : before.logins = state.logins) (hb : before.begun = state.begun)
    (hl : before.listings = state.listings) (hs : before.sweepers = state.sweepers)
    (hst : before.store = state.store) (hk : before.known = state.known)
    (hla : ∀ gatewayId lease, before.leases gatewayId = some lease →
      state.leases gatewayId = some lease) :
    Keeps setup state (endProcess setup before process phase) := by
  have hu : (endProcess setup before process phase).processes =
      update state.processes process phase := by
    simp [endProcess, State.moveProcess, hpr]
  have hso : (endProcess setup before process phase).running =
      update state.running (setup.gatewayId process) none := by
    simp [endProcess, hr]
  have hev : Evolves setup state
      { endProcess setup before process phase with steps := state.steps + 1 } :=
    { toAdvances := advances_process rfl hu hra hlo hb hl
        (fun _ _ h => .inl (hla _ _ h)) (fun name h => .inl (hk ▸ h))
      toRewrites := rewrites_same hst (Finset.Subset.antisymm_iff.mp hk).2 }
  exact keeps_process hin hev (hosts_end hin.toHosts hli hp hu hso) hlo
    hb (fun i => .inl (congrFun hs i)) hl

theorem keeps_crash (hin : Inv setup state)
    (h : crashProcess setup state process = some mid) : Keeps setup state mid := by
  unfold crashProcess at h
  split at h
  · rename_i hp
    cases h
    exact keeps_end hin (by rw [hp]; rfl) rfl
      (by simp [rankOf, hp, ProcessPhase.rank]) rfl rfl rfl rfl rfl rfl rfl rfl (fun _ _ h => h)
  · rename_i hp
    cases h
    exact keeps_end hin (by rw [hp]; rfl) rfl
      (by simp [rankOf, hp, ProcessPhase.rank]) rfl rfl rfl rfl rfl rfl rfl rfl (fun _ _ h => h)
  · rename_i hp
    cases h
    exact keeps_end hin (by rw [hp]; rfl) rfl (rankOf_le process) rfl rfl rfl rfl rfl rfl rfl
      rfl (fun _ _ h => h)
  · cases h

theorem lease_of_update_none {other : String} {lease : Lease}
    (h : update state.leases gatewayId none other = some lease) :
    state.leases other = some lease := by
  by_cases hs : other = gatewayId
  · rw [hs, update_self] at h
    cases h
  · rwa [update_of_ne hs] at h

theorem keeps_release (hin : Inv setup state)
    (h : releaseLease setup state process outcome = some mid) : Keeps setup state mid := by
  unfold releaseLease at h
  split at h
  · rename_i hs
    cases h
    have hl : (state.processes process).isLive = true := by
      rw [hs]
      rfl
    split
    · unfold releaseScript
      split
      · split
        · exact keeps_end hin hl rfl (rankOf_le process) rfl rfl rfl rfl rfl rfl rfl rfl
            (fun _ _ h => lease_of_update_none h)
        · exact keeps_end hin hl rfl (rankOf_le process) rfl rfl rfl rfl rfl rfl rfl rfl
            (fun _ _ h => h)
      · exact keeps_end hin hl rfl (rankOf_le process) rfl rfl rfl rfl rfl rfl rfl rfl
          (fun _ _ h => h)
    · exact keeps_end hin hl rfl (rankOf_le process) rfl rfl rfl rfl rfl rfl rfl rfl
        (fun _ _ h => h)
  · cases h

theorem keeps_adopt (hin : Inv setup state)
    (h : adoptPrevious setup state process outcome = some mid) : Keeps setup state mid := by
  unfold adoptPrevious at h
  split at h
  · rename_i ha
    cases h
    have hl : (state.processes process).isLive = true := by
      rw [ha]
      rfl
    have hr : rankOf state process ≤ ProcessPhase.renewing.rank := by
      simp [rankOf, ha, ProcessPhase.rank]
    have hq : Keeps setup state (state.moveProcess process .renewing) :=
      keeps_process hin
        { toAdvances := advances_process rfl rfl hr rfl rfl rfl (fun _ _ h => .inl h)
            (fun _ h => .inl h)
          toRewrites := rewrites_same rfl (Finset.Subset.refl _) }
        (hosts_move hin.toHosts hl (by simp) rfl rfl) rfl rfl (fun _ => .inl rfl) rfl
    split
    · unfold adoptScript
      split
      · exact hq
      · refine keeps_process hin
          { toAdvances := advances_process rfl rfl hr rfl rfl rfl (fun _ _ h => .inl h) ?_
            toRewrites := rewrites_adopt hin ha rfl rfl ?_ }
          (hosts_move hin.toHosts hl (by simp) rfl rfl) rfl rfl (fun _ => .inr rfl) rfl
        · intro name hn
          rcases Finset.mem_insert.mp hn with rfl | hold
          · refine .inr ⟨process, .inr ⟨rfl, ?_⟩⟩
            simp [rankOf, State.moveProcess, ProcessPhase.rank]
          · exact .inl hold
        · simp [rankOf, State.moveProcess, ProcessPhase.rank]
    · exact hq
  · cases h

theorem lease_of_renewScript {lease : Lease}
    (h : (renewScript setup state process).leases gatewayId = some lease) :
    state.leases gatewayId = some lease ∨ state.steps ≤ lease.since := by
  by_cases hs : gatewayId = setup.gatewayId process
  · subst hs
    simp only [renewScript, update_self, Option.some.injEq] at h
    subst h
    cases hl : state.leases (setup.gatewayId process) with
    | none => exact .inr (Nat.le_refl _)
    | some old =>
      by_cases hb : old.boot = setup.boot process
      · left
        cases old
        simp_all
      · right
        simp [hb]
  · left
    simpa [renewScript, hs] using h

theorem keeps_renew (hin : Inv setup state)
    (h : renewLease setup state process outcome = some mid) : Keeps setup state mid := by
  have hm : ∀ renewed : State, renewed = renewScript setup state process ∨ renewed = state →
      (state.processes process = .renewing ∨ state.processes process = .serving) →
      Keeps setup state (renewed.moveProcess process .serving) := by
    intro renewed hr hp
    have hl : (state.processes process).isLive = true := by
      rcases hp with hp | hp <;> rw [hp] <;> rfl
    have hra : rankOf state process ≤ ProcessPhase.serving.rank := by
      rcases hp with hp | hp <;> simp [rankOf, hp, ProcessPhase.rank]
    rcases hr with rfl | rfl
    · refine keeps_process hin
        { toAdvances := advances_process rfl rfl hra rfl rfl rfl
            (fun _ _ h => lease_of_renewScript h) ?_
          toRewrites := rewrites_same rfl (Finset.subset_insert _ _) }
        (hosts_move hin.toHosts hl (by simp) rfl rfl) rfl rfl (fun _ => .inl rfl) rfl
      intro name hn
      rcases Finset.mem_insert.mp hn with rfl | hold
      · refine .inr ⟨process, .inl ⟨rfl, ?_⟩⟩
        simp [rankOf, State.moveProcess, ProcessPhase.rank]
      · exact .inl hold
    · exact keeps_process hin
        { toAdvances := advances_process rfl rfl hra rfl rfl rfl (fun _ _ h => .inl h)
            (fun _ h => .inl h)
          toRewrites := rewrites_same rfl (Finset.Subset.refl _) }
        (hosts_move hin.toHosts hl (by simp) rfl rfl) rfl rfl (fun _ => .inl rfl) rfl
  have hc : ∀ renewed : State,
      renewed = (if outcome.takesEffect then renewScript setup state process else state) →
      renewed = renewScript setup state process ∨ renewed = state := by
    intro renewed hr
    split at hr
    · exact .inl hr
    · exact .inr hr
  unfold renewLease at h
  dsimp only at h
  split at h
  · rename_i hp
    cases h
    exact hm _ (hc _ rfl) (.inl hp)
  · rename_i hp
    -- a process that serves keeps serving
    have hs : ∀ renewed : State, renewed.processes = state.processes →
        renewed.moveProcess process .serving = renewed := by
      intro renewed hpr
      unfold State.moveProcess
      rw [hpr, ← hp, Function.update_eq_self, ← hpr]
    have hsa := Option.some.inj h
    rcases hc _ rfl with hr | hr
    · have hk := hm _ (.inl rfl) (.inr hp)
      rw [hs (renewScript setup state process) rfl] at hk
      rwa [← hsa, hr]
    · have hk := hm state (.inr rfl) (.inr hp)
      rw [hs state rfl] at hk
      rwa [← hsa, hr]
  · cases h

theorem keeps_expireLease (hin : Inv setup state) (gatewayId : String) :
    Keeps setup state
      { state with leases := update state.leases gatewayId none } := by
  have hev : Evolves setup state
      { { state with leases := update state.leases gatewayId none } with
        steps := state.steps + 1 } :=
    { toAdvances :=
        { steps := rfl
          rank := fun _ => Nat.le_refl _
          finished := fun h => h
          begun := fun h => h
          arrived := fun h => .inl h
          lease := fun h => .inl (lease_of_update_none h)
          known := fun h => .inl h
          listings := fun h => h }
      toRewrites := rewrites_same rfl (Finset.Subset.refl _) }
  exact keeps_process hin hev (hosts_same hin.toHosts rfl rfl) rfl rfl (fun _ => .inl rfl) rfl

theorem keeps_expireLock (hin : Inv setup state) :
    Keeps setup state { state with sweeperLock := none } :=
  keeps_process hin
    { toAdvances := advances_same rfl rfl rfl rfl rfl (Finset.Subset.refl _) (fun _ h => h)
      toRewrites := rewrites_same rfl (Finset.Subset.refl _) }
    (hosts_same hin.toHosts rfl rfl) rfl rfl (fun _ => .inl rfl) rfl

theorem keeps_login (hin : Inv setup state) {createdAt : Int}
    (htr : Text.trim (setup.key id).userId = (setup.key id).userId)
    (hc : ∀ i dead sweep stage, state.sweepers i = .sweeping dead sweep stage →
      sweep.cutoffMs < createdAt)
    (hs : beginLogin setup state id createdAt = some mid) : Keeps setup state mid := by
  unfold beginLogin at hs
  split at hs
  · rename_i hf
    obtain ⟨hse, hw⟩ := hf
    cases hs
    have hn : state.begun id = none := by
      by_contra hb
      obtain ⟨begun, hb⟩ := Option.ne_none_iff_exists'.mp hb
      exact (hin.begun hb).2.2.2 hw
    have hr : 4 ≤ rankOf state (setup.login id).process := by
      rcases hse with hp | hp <;> simp [rankOf, hp, ProcessPhase.rank]
    have ha : Advances setup state
        { { state.moveLogin id
              (if (setup.admission id).gatewayConnectionId = "" then .finished
                else .admitting admitAttempts []) with
            begun := update state.begun id (some ⟨createdAt, state.steps⟩) } with
          steps := state.steps + 1 } :=
      { steps := rfl
        rank := fun _ => Nat.le_refl _
        finished := fun {other} h => by
          have ho : other ≠ id := by
            rintro rfl
            rw [hw] at h
            cases h
          simp only [State.moveLogin, update_of_ne ho]
          exact h
        begun := fun {other begun} h => by
          have ho : other ≠ id := by
            rintro rfl
            rw [hn] at h
            cases h
          simp only [update_of_ne ho]
          exact h
        arrived := fun {other begun} h => by
          by_cases hsa : other = id
          · subst hsa
            simp only [update_self, Option.some.injEq] at h
            subst h
            exact .inr hc
          · simp only [update_of_ne hsa] at h
            exact .inl h
        lease := fun h => .inl h
        known := fun h => .inl h
        listings := fun h => h }
    have hev := Evolves.mk ha (rewrites_same rfl (Finset.Subset.refl _))
    refine ⟨hev, inv_of_parties hin hev (hosts_same hin.toHosts rfl rfl) ?_ (fun _ => .inl rfl) rfl⟩
    intro other begun hb
    by_cases hsa : other = id
    · subst hsa
      simp only [update_self, Option.some.injEq] at hb
      subst hb
      refine ⟨Nat.lt_succ_self _, hr, htr, ?_⟩
      simp only [State.moveLogin, update_self]
      split <;> simp
    · simp only [update_of_ne hsa] at hb
      obtain ⟨hbe, hsr, ht, hp⟩ := hin.begun hb
      refine ⟨Nat.lt_succ_of_lt hbe, hsr, ht, ?_⟩
      simp only [State.moveLogin, update_of_ne hsa]
      exact hp
  · cases hs

theorem advances_login (hli : state.logins id ≠ .finished) {phase : LoginPhase}
    (hs : next.steps = state.steps + 1) (hp : next.processes = state.processes)
    (hlo : next.logins = update state.logins id phase)
    (hb : next.begun = state.begun) (hla : next.leases = state.leases)
    (hk : next.known = state.known) (hl : next.listings = state.listings) :
    Advances setup state next where
  steps := hs
  rank process := by simp [rankOf, hp]
  finished {other} h := by
    have ho : other ≠ id := by
      rintro rfl
      exact hli h
    rw [hlo, update_of_ne ho]
    exact h
  begun h := by rw [hb]; exact h
  arrived h := .inl (hb ▸ h)
  lease h := .inl (hla ▸ h)
  known h := .inl (hk ▸ h)
  listings h := by rw [hl]; exact h

theorem keeps_moveLogin (hin : Inv setup state) {phase : LoginPhase}
    (hlv : state.logins id ≠ .finished) (hp : phase ≠ .waiting)
    (hl : mid.logins = update state.logins id phase)
    (hpr : mid.processes = state.processes) (hru : mid.running = state.running)
    (hb : mid.begun = state.begun) (hla : mid.leases = state.leases)
    (hk : mid.known = state.known) (hli : mid.listings = state.listings)
    (hf : ∀ i, mid.sweepers i = state.sweepers i ∨
      mid.sweepers i = (state.sweepers i).observe mid.store)
    (hr : Rewrites setup state (mid.counted state)) : Keeps setup state mid := by
  have hev : Evolves setup state (mid.counted state) :=
    { toAdvances := advances_login hlv rfl hpr hl hb hla hk hli
      toRewrites := hr }
  refine ⟨hev, inv_of_parties hin hev (hosts_same hin.toHosts hpr hru) ?_ hf hli⟩
  intro other begun h
  refine begun_same hin hev hb (fun other ho => ?_) h
  by_cases hs : other = id
  · subst hs
    simpa [hl] using hp
  · simpa [hl, hs] using ho

theorem keeps_admission (hin : Inv setup state)
    (h : admissionStep setup state id outcome = some mid) : Keeps setup state mid := by
  have hq : ∀ phase : LoginPhase, state.logins id ≠ .finished → phase ≠ .waiting →
      Keeps setup state (state.moveLogin id phase) := by
    intro phase hl hp
    exact keeps_moveLogin hin hl hp rfl rfl rfl rfl rfl rfl rfl (fun _ => .inl rfl)
      (rewrites_same rfl (Finset.Subset.refl _))
  unfold admissionStep at h
  split at h
  · rename_i attempts others begun hp hb
    cases h
    have hl : state.logins id ≠ .finished := by simp [hp]
    unfold admitOnce
    dsimp only
    rcases admit_cases (setup.record id begun.createdAt) (setup.admission id).session.userId
      (setup.admission id).strategy (setup.admission id).maxDevices state.store
      ((setup.admission id).session.gatewayId :: others) with
      ⟨evicted, hs, -⟩ | ⟨reply, hs, hr⟩
    · simp only [hs]
      split
      · exact keeps_moveLogin hin hl (by simp) rfl rfl rfl rfl rfl rfl rfl (fun _ => .inr rfl)
          (rewrites_admitted hin hb hl rfl rfl (by simp [State.setStore, State.moveLogin]) rfl)
      · exact hq _ hl (by simp)
    · simp only [hs]
      cases reply with
      | failed error => exact hq _ hl (by simp)
      | retryWith gatewayIds =>
        dsimp only
        split <;> exact hq _ hl (by simp)
      | evicted connections => exact absurd rfl (hr connections)
  · rename_i others begun hp hb
    cases h
    exact hq _ (by simp [hp]) (by simp)
  · cases h

theorem keeps_disconnect (hin : Inv setup state)
    (h : disconnectStep setup state id outcome = some mid) : Keeps setup state mid := by
  have hq : ∀ phase, Keeps setup state (state.moveDisconnect id phase) := fun phase =>
    keeps_process hin
      { toAdvances := advances_same rfl rfl rfl rfl rfl (Finset.Subset.refl _) (fun _ h => h)
        toRewrites := rewrites_same rfl (Finset.Subset.refl _) }
      (hosts_same hin.toHosts rfl rfl) rfl rfl (fun _ => .inl rfl) rfl
  unfold disconnectStep at h
  dsimp only at h
  split at h
  · split at h <;> exact Option.some.inj h ▸ hq _
  · split at h
    · cases h
      exact keeps_process hin
        { toAdvances := advances_same rfl rfl rfl rfl rfl (Finset.Subset.refl _) (fun _ h => h)
          toRewrites := rewrites_removed rfl rfl }
        (hosts_same hin.toHosts rfl rfl) rfl rfl (fun _ => .inr rfl) rfl
    · exact Option.some.inj h ▸ hq _
  · cases h

end Steps

end FlareIm.GatewaySweep
