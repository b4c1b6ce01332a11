import FlareIm.SessionRegistry
import FlareIm.SessionStore.Eviction

namespace FlareIm.SessionRegistry

open SessionStore

section Outcome

variable (new : RedisConnectionRecord) (userId : String) (strategy : DeviceConflictStrategy)
  (cap : Nat) (store next : Store) (overCap : Finset String)

def sessionRecords : List RedisConnectionRecord := hvals store ⟨new.tenantId, userId⟩

-- The records are what the service writes, with times that doubles hold, and the id of the new
-- session is its own.
structure WellFormed : Prop where
  record : ∀ field record, hget store ⟨new.tenantId, userId⟩ field = some record →
    record.conversationId = field ∧ record.tenantId = new.tenantId ∧ record.connectionId ≠ "" ∧
      record.deviceId ≠ "" ∧ record.createdAt.natAbs ≤ 2 ^ 53
  fresh : hget store ⟨new.tenantId, userId⟩ new.conversationId = none

def AlreadyAdmitted : Prop :=
  ∃ record ∈ sessionRecords new userId store, record.connectionId = new.connectionId

def causeOf (deviceId : String) : Option EvictionCause :=
  verdict new strategy (sessionRecords new userId store) overCap deviceId

-- The sessions that go, each with its cause.
def evictions : List Eviction :=
  (hgetall store ⟨new.tenantId, userId⟩).filterMap fun item =>
    (causeOf new userId strategy store overCap item.2.deviceId).map fun cause =>
      ⟨item.1, item.2, cause⟩

def reports : List EvictedConnection :=
  (evictions new userId strategy store overCap).map fun eviction =>
    { conversationId := eviction.record.conversationId
      deviceId := eviction.record.deviceId
      connectionId := eviction.record.connectionId
      cause := eviction.cause }

def missingGateways (declared : List String) : List String :=
  ((evictions new userId strategy store overCap).map (·.record.gatewayId)).filter fun gatewayId =>
    !declared.contains gatewayId

-- What an admission leaves of the three keys, and of all others.
structure Leaves : Prop where
  own : hget next ⟨new.tenantId, userId⟩ new.conversationId = some new
  kept : ∀ field ≠ new.conversationId, hget next ⟨new.tenantId, userId⟩ field =
    (hget store ⟨new.tenantId, userId⟩ field).filter fun record =>
      (causeOf new userId strategy store overCap record.deviceId).isNone
  elsewhere : ∀ key ≠ ⟨new.tenantId, userId⟩, ∀ field, hget next key field = hget store key field
  tenant : ∀ tenantId member, member ∈ next.tenantSessions tenantId ↔
    (tenantId = new.tenantId ∧ member = tenantSessionMember userId new.deviceId) ∨
      (member ∈ store.tenantSessions tenantId ∧ ¬ (tenantId = new.tenantId ∧
        ∃ deviceId ∈ deviceIds (sessionRecords new userId store),
          (causeOf new userId strategy store overCap deviceId).isSome ∧
            member = tenantSessionMember userId deviceId))
  gateway : ∀ gatewayId member, member ∈ next.gatewayConns gatewayId ↔
    (gatewayId = new.gatewayId ∧ member = gatewayMember new.tenantId userId new.conversationId) ∨
      (member ∈ store.gatewayConns gatewayId ∧
        ¬ ∃ eviction ∈ evictions new userId strategy store overCap,
          gatewayId = eviction.record.gatewayId ∧
            member = gatewayMember new.tenantId userId eviction.field)

end Outcome

section Script

variable {new : RedisConnectionRecord} {userId : String} {strategy : DeviceConflictStrategy}
  {cap : Nat} {store : Store} {overCap : Finset String}

theorem mem_sessionRecords {record : RedisConnectionRecord} :
    record ∈ sessionRecords new userId store ↔
      ∃ field, hget store ⟨new.tenantId, userId⟩ field = some record :=
  mem_hvals _ _

theorem existingError_of_wellFormed (hfo : WellFormed new userId store)
    {record : RedisConnectionRecord} (hm : record ∈ sessionRecords new userId store) :
    existingError new record =
      if record.connectionId = new.connectionId then some "physical connection already admitted"
      else none := by
  obtain ⟨field, hf⟩ := mem_sessionRecords.mp hm
  obtain ⟨-, ht, hc, hde, -⟩ := hfo.record field record hf
  rw [existingError, if_neg]
  simp [ht, hc, hde]

theorem evictionsOf_eq (hev : Evicting new strategy (sessionRecords new userId store)
    (scriptRemoves new userId strategy cap store) overCap) :
    evictionsOf (scriptRemoves new userId strategy cap store)
        (hgetall store ⟨new.tenantId, userId⟩) =
      evictions new userId strategy store overCap := by
  unfold evictionsOf evictions
  apply List.filterMap_congr
  rintro ⟨field, record⟩ hm
  have hl : record.deviceId ∈ deviceIds (sessionRecords new userId store) :=
    mem_deviceIds.mpr ⟨record, List.mem_map.mpr ⟨_, hm, rfl⟩, rfl⟩
  rw [hev.cause _ hl]
  rfl

theorem has_scriptRemoves (hev : Evicting new strategy (sessionRecords new userId store)
    (scriptRemoves new userId strategy cap store) overCap) (deviceId : String) :
    (scriptRemoves new userId strategy cap store).Has deviceId ↔
      deviceId ∈ deviceIds (sessionRecords new userId store) ∧
        (causeOf new userId strategy store overCap deviceId).isSome := by
  constructor
  · intro hh
    have hl := hev.listed deviceId hh
    refine ⟨hl, ?_⟩
    rw [causeOf, ← hev.cause deviceId hl]
    exact hh
  · rintro ⟨hl, hs⟩
    rw [RemovedDevices.Has, hev.cause deviceId hl]
    exact hs

theorem evictions_tenant (hf : WellFormed new userId store) {eviction : Eviction}
    (hm : eviction ∈ evictions new userId strategy store overCap) :
    eviction.record.tenantId = new.tenantId := by
  obtain ⟨⟨field, record⟩, hl, hs⟩ := List.mem_filterMap.mp hm
  obtain ⟨cause, -, rfl⟩ := Option.map_eq_some_iff.mp hs
  exact (hf.record field record ((mem_hgetall _ _).mp hl)).2.1

theorem admitted_leaves (hf : WellFormed new userId store)
    (hev : Evicting new strategy (sessionRecords new userId store)
      (scriptRemoves new userId strategy cap store) overCap) :
    Leaves new userId strategy store (admitted new userId strategy cap store) overCap where
  own := (hget_admitted new userId strategy cap store).mpr (.inl ⟨rfl, rfl, rfl⟩)
  kept field hne := by
    ext record
    rw [hget_admitted, Option.filter_eq_some_iff]
    constructor
    · rintro (⟨-, hsa, -⟩ | ⟨-, hget, hst⟩)
      · exact absurd hsa hne
      · refine ⟨hget, ?_⟩
        have hl : record.deviceId ∈ deviceIds (sessionRecords new userId store) :=
          mem_deviceIds.mpr ⟨record, mem_sessionRecords.mpr ⟨field, hget⟩, rfl⟩
        have hno := hst rfl
        rw [has_scriptRemoves hev] at hno
        simpa [hl] using hno
    · rintro ⟨hget, hst⟩
      refine .inr ⟨fun h => hne h.2, hget, fun _ hh => ?_⟩
      have hs := ((has_scriptRemoves hev _).mp hh).2
      simp [Option.isNone_iff_eq_none.mp hst] at hs
  elsewhere key hne field := by
    ext record
    rw [hget_admitted]
    simp [hne]
  tenant tenantId member := by
    have hr : (∃ device ∈ scriptRemoves new userId strategy cap store,
          tenantId = new.tenantId ∧ member = tenantSessionMember userId device.1) ↔
        tenantId = new.tenantId ∧ ∃ deviceId ∈ deviceIds (sessionRecords new userId store),
          (causeOf new userId strategy store overCap deviceId).isSome ∧
            member = tenantSessionMember userId deviceId := by
      constructor
      · rintro ⟨device, hde, ht, hme⟩
        obtain ⟨hl, hs⟩ := (has_scriptRemoves hev device.1).mp
          ((has_iff_mem _ _).mpr ⟨device, hde, rfl⟩)
        exact ⟨ht, device.1, hl, hs, hme⟩
      · rintro ⟨ht, deviceId, hl, hs, hme⟩
        obtain ⟨device, hde, rfl⟩ := (has_iff_mem _ _).mp
          ((has_scriptRemoves hev deviceId).mpr ⟨hl, hs⟩)
        exact ⟨device, hde, ht, hme⟩
    simp only [admitted, writeConnection, addGatewayConn, mem_addTenantSession]
    rw [← hr]
    simp only [tenantSessions_hset, mem_unindexDevices, tenantSessions_evictAll, not_exists,
      not_and]
  gateway gatewayId member := by
    rw [mem_gatewayConns_admitted, evictionsOf_eq hev]
    refine or_congr_right (and_congr_right fun _ => ⟨?_, ?_⟩)
    · rintro hn ⟨eviction, hm, hg, hme⟩
      rw [← evictions_tenant hf hm] at hme
      exact hn eviction hm ⟨hg, hme⟩
    · intro hn eviction hm hsa
      refine hn ⟨eviction, hm, hsa.1, ?_⟩
      rw [← evictions_tenant hf hm]
      exact hsa.2

theorem script_outcome (hf : WellFormed new userId store) (ha : ¬ AlreadyAdmitted new userId store)
    (hev : Evicting new strategy (sessionRecords new userId store)
      (scriptRemoves new userId strategy cap store) overCap) (declared : List String) :
    (missingGateways new userId strategy store overCap declared ≠ [] ∧
      admitConnectionScript new declared userId strategy cap store =
        (store, .retryWith (missingGateways new userId strategy store overCap declared))) ∨
    (missingGateways new userId strategy store overCap declared = [] ∧
      ∃ next, admitConnectionScript new declared userId strategy cap store =
          (next, .evicted (reports new userId strategy store overCap)) ∧
        Leaves new userId strategy store next overCap) := by
  have hv : (sessionRecords new userId store).findSome? (existingError new) = none := by
    rw [List.findSome?_eq_none_iff]
    intro record hm
    rw [existingError_of_wellFormed hf hm, if_neg]
    exact fun hsa => ha ⟨record, hm, hsa⟩
  have hei := evictionsOf_eq hev
  have hs : admitConnectionScript new declared userId strategy cap store =
      if missingGateways new userId strategy store overCap declared ≠ [] then
        (store, .retryWith (missingGateways new userId strategy store overCap declared))
      else (admitted new userId strategy cap store,
        .evicted (reports new userId strategy store overCap)) := by
    unfold missingGateways reports
    rw [← hei]
    unfold admitConnectionScript
    simp only [sessionRecords, hvals] at hv
    dsimp only
    rw [hv]
    rfl
  by_cases hmi : missingGateways new userId strategy store overCap declared = []
  · refine .inr ⟨hmi, admitted new userId strategy cap store, ?_, ?_⟩
    · rw [hs, if_neg (not_not.mpr hmi)]
    · exact admitted_leaves hf hev
  · refine .inl ⟨hmi, ?_⟩
    rw [hs, if_pos hmi]

theorem script_refuses (hfo : WellFormed new userId store)
    (ha : AlreadyAdmitted new userId store) (declared : List String) :
    admitConnectionScript new declared userId strategy cap store =
      (store, .failed "physical connection already admitted") := by
  obtain ⟨record, hm, hs⟩ := ha
  have hf : (sessionRecords new userId store).findSome? (existingError new) =
      some "physical connection already admitted" := by
    cases hr : (sessionRecords new userId store).findSome? (existingError new) with
    | none =>
      have hv := List.findSome?_eq_none_iff.mp hr record hm
      rw [existingError_of_wellFormed hfo hm, if_pos hs] at hv
      cases hv
    | some error =>
      obtain ⟨other, ho, heo⟩ := List.exists_of_findSome?_eq_some hr
      rw [existingError_of_wellFormed hfo ho] at heo
      split at heo
      · exact heo.symm
      · cases heo
  unfold admitConnectionScript
  simp only [sessionRecords, hvals] at hf
  dsimp only
  rw [hf]

end Script

section Listing

-- The same keys, with the fields of the hashes in any order.
structure SameContent (store other : Store) : Prop where
  sessions : ∀ key, (hgetall store key).Perm (hgetall other key)
  tenantSessions : store.tenantSessions = other.tenantSessions
  gatewayConns : store.gatewayConns = other.gatewayConns

def SameReply : AdmissionReply → AdmissionReply → Prop
  | .failed error, .failed error' => error = error'
  | .retryWith gatewayIds, .retryWith gatewayIds' => gatewayIds.Perm gatewayIds'
  | .evicted connections, .evicted connections' => connections.Perm connections'
  | _, _ => False

variable {new : RedisConnectionRecord} {userId : String} {strategy : DeviceConflictStrategy}
  {cap : Nat} {store other next next' : Store} {overCap : Finset String}

theorem SameContent.hget_eq (h : SameContent store other) (key : SessionKey) (field : String) :
    hget store key field = hget other key field := by
  ext record
  rw [← mem_hgetall, ← mem_hgetall]
  exact (h.sessions key).mem_iff

theorem nodup_hgetall (store : Store) (key : SessionKey) : (hgetall store key).Nodup := by
  have hk : ((hgetall store key).map Prod.fst).Nodup := by
    have hn : (store.sessions key).keys.Nodup := AList.keys_nodup _
    unfold hgetall
    rw [List.map_map]
    exact hn
  exact List.Nodup.of_map _ hk

theorem sameContent_of_hget (hget_eq : ∀ key field, hget store key field = hget other key field)
    (ht : store.tenantSessions = other.tenantSessions)
    (hg : store.gatewayConns = other.gatewayConns) : SameContent store other where
  sessions key := by
    rw [List.perm_ext_iff_of_nodup (nodup_hgetall _ _) (nodup_hgetall _ _)]
    rintro ⟨field, record⟩
    rw [mem_hgetall, mem_hgetall, hget_eq]
  tenantSessions := ht
  gatewayConns := hg

theorem SameContent.mem_sessionRecords (h : SameContent store other)
    (record : RedisConnectionRecord) : record ∈ sessionRecords new userId store ↔
      record ∈ sessionRecords new userId other :=
  ((h.sessions _).map _).mem_iff

theorem SameContent.wellFormed (h : SameContent store other)
    (hf : WellFormed new userId store) : WellFormed new userId other where
  record field record hget := hf.record field record ((h.hget_eq _ _).trans hget)
  fresh := (h.hget_eq _ _).symm.trans hf.fresh

theorem SameContent.causeOf_eq (h : SameContent store other) :
    causeOf new userId strategy store = causeOf new userId strategy other := by
  funext overCap deviceId
  simp only [causeOf, verdict_congr h.mem_sessionRecords]

theorem SameContent.evictions_perm (h : SameContent store other) :
    (evictions new userId strategy store overCap).Perm
      (evictions new userId strategy other overCap) := by
  unfold evictions
  rw [h.causeOf_eq]
  exact (h.sessions _).filterMap _

theorem SameContent.leaves (h : SameContent store other)
    (hl : Leaves new userId strategy store next overCap)
    (hl' : Leaves new userId strategy other next' overCap) : SameContent next next' := by
  refine sameContent_of_hget ?_ ?_ ?_
  · intro key field
    by_cases hk : key = ⟨new.tenantId, userId⟩
    · subst hk
      by_cases hf : field = new.conversationId
      · subst hf
        rw [hl.own, hl'.own]
      · rw [hl.kept field hf, hl'.kept field hf, h.hget_eq, h.causeOf_eq]
    · rw [hl.elsewhere key hk, hl'.elsewhere key hk, h.hget_eq]
  · funext tenantId
    ext member
    rw [hl.tenant, hl'.tenant, h.tenantSessions, h.causeOf_eq, deviceIds_congr h.mem_sessionRecords]
  · funext gatewayId
    ext member
    rw [hl.gateway, hl'.gateway, h.gatewayConns]
    simp only [h.evictions_perm.mem_iff]

theorem script_listing (h : SameContent store other) (hf : WellFormed new userId store)
    (declared : List String) :
    SameReply (admitConnectionScript new declared userId strategy cap store).2
        (admitConnectionScript new declared userId strategy cap other).2 ∧
      SameContent (admitConnectionScript new declared userId strategy cap store).1
        (admitConnectionScript new declared userId strategy cap other).1 := by
  have hf' := h.wellFormed hf
  have had : AlreadyAdmitted new userId store ↔ AlreadyAdmitted new userId other := by
    simp only [AlreadyAdmitted, h.mem_sessionRecords]
  by_cases ha : AlreadyAdmitted new userId store
  · rw [script_refuses hf ha, script_refuses hf' (had.mp ha)]
    exact ⟨rfl, h⟩
  · obtain ⟨overCap, ho, hev⟩ :=
      removedDevices_spec new strategy cap (sessionRecords new userId store)
    obtain ⟨overCap', ho', hev'⟩ :=
      removedDevices_spec new strategy cap (sessionRecords new userId other)
    have hs := script_outcome hf ha hev declared
    have hs' := script_outcome hf' (mt had.mpr ha) hev' declared
    obtain rfl := (ho.congr h.mem_sessionRecords).unique ho'
    have hm : (missingGateways new userId strategy store overCap declared).Perm
        (missingGateways new userId strategy other overCap declared) :=
      (h.evictions_perm.map _).filter _
    rcases hs with ⟨hso, hs⟩ | ⟨hn, next, hs, hl⟩
    · rcases hs' with ⟨-, hs'⟩ | ⟨hn', -⟩
      · rw [hs, hs']
        exact ⟨hm, h⟩
      · exact absurd (List.perm_nil.mp (hn' ▸ hm)) hso
    · rcases hs' with ⟨hso', -⟩ | ⟨-, next', hs', hl'⟩
      · exact absurd (List.nil_perm.mp (hn ▸ hm)) hso'
      · rw [hs, hs']
        exact ⟨h.evictions_perm.map _, h.leaves hl hl'⟩

end Listing

section Attempts

variable {calls : Nat → Call} {admission : Admission} {state : State} {id : Nat}

theorem mem_declareMore {ownGateway gatewayId : String} {reported : List String} :
    ∀ {others : List String}, (gatewayId ∈ others ∨ gatewayId ∈ reported) →
      gatewayId = ownGateway ∨ gatewayId ∈ declareMore ownGateway others reported := by
  induction reported with
  | nil =>
    intro others h
    exact .inr (h.resolve_right List.not_mem_nil)
  | cons first rest ih =>
    intro others h
    unfold declareMore at ih ⊢
    rw [List.foldl_cons]
    by_cases ho : gatewayId = ownGateway
    · exact .inl ho
    · refine ih ?_
      rcases h with hold | hm
      · left
        split
        · exact List.mem_append_left _ hold
        · exact hold
      · rcases List.mem_cons.mp hm with rfl | ht
        · left
          split
          · exact List.mem_append_right _ (List.mem_singleton_self _)
          · rename_i hn
            simpa [ho] using hn
        · exact .inr ht

-- `ADMIT_CONNECTION_SCRIPT` as `admit_connection` calls it.
def Admission.script (admission : Admission) (declared : List String) (store : Store) :
    Store × AdmissionReply :=
  admitConnectionScript admission.record declared admission.session.userId admission.strategy
    admission.maxDevices store

-- What a call of the script comes to: it asks for the gateways that are not declared, or it lets
-- the rules decide who goes.
def Admission.Outcome (admission : Admission) (store : Store) (overCap : Finset String)
    (declared : List String) : Prop :=
  let missing := missingGateways admission.record admission.session.userId admission.strategy
    store overCap declared
  (missing ≠ [] ∧ admission.script declared store = (store, .retryWith missing)) ∨
    (missing = [] ∧ ∃ next, admission.script declared store =
        (next, .evicted (reports admission.record admission.session.userId admission.strategy
          store overCap)) ∧
      Leaves admission.record admission.session.userId admission.strategy store next overCap)

-- The call succeeds on its first attempt or on its second.
def Admission.Succeeds (admission : Admission) (calls : Nat → Call) (state : State) (id : Nat)
    (overCap : Finset String) : Prop :=
  ∃ next, Leaves admission.record admission.session.userId admission.strategy state.store next
      overCap ∧
    ∀ now now', step calls state (.advance id now) = some (state.write id next) ∨
      ∃ others, step calls state (.advance id now) = some (state.move id (.admitting 2 others)) ∧
        step calls (state.move id (.admitting 2 others)) (.advance id now') =
          some ((state.move id (.admitting 2 others)).write id next)

theorem missingGateways_declared {overCap : Finset String} {store : Store}
    {missing : List String} (hmi : missing = missingGateways admission.record
      admission.session.userId admission.strategy store overCap [admission.session.gatewayId]) :
    missingGateways admission.record admission.session.userId admission.strategy store overCap
      (admission.session.gatewayId :: declareMore admission.session.gatewayId [] missing) = [] := by
  unfold missingGateways
  rw [List.filter_eq_nil_iff]
  intro gatewayId hm hu
  have hn : gatewayId ≠ admission.session.gatewayId ∧
      gatewayId ∉ declareMore admission.session.gatewayId [] missing := by
    simpa using hu
  have hr : gatewayId ∈ missing := by
    rw [hmi]
    exact List.mem_filter.mpr ⟨hm, by simpa using hn.1⟩
  rcases mem_declareMore (.inr hr) with ho | hde
  · exact hn.1 ho
  · exact hn.2 hde

theorem Admission.Outcome.succeeds {overCap : Finset String}
    (h : ∀ declared, admission.Outcome state.store overCap declared)
    (hc : calls id = .admitConnection admission)
    (hco : admission.gatewayConnectionId ≠ "") (hp : state.phase id = .waiting) :
    admission.Succeeds calls state id overCap := by
  have hf (now : Int) : step calls state (.advance id now) =
      some (admitStep admission 2 [] state id) := by
    simp only [step, hc, hp, advance, if_neg hco]
    rfl
  rcases h [admission.session.gatewayId] with ⟨hmi, hsc⟩ | ⟨-, next, hsc, hl⟩
  · have hs : admitStep admission 2 [] state id = state.move id (.admitting 2
        (declareMore admission.session.gatewayId [] (missingGateways admission.record
          admission.session.userId admission.strategy state.store overCap
            [admission.session.gatewayId]))) := by
      unfold Admission.script at hsc
      simp only [admitStep, hsc]
    have hde := @missingGateways_declared admission overCap state.store _ rfl
    rcases h (admission.session.gatewayId :: declareMore admission.session.gatewayId []
        (missingGateways admission.record admission.session.userId admission.strategy state.store
          overCap [admission.session.gatewayId])) with ⟨hm, -⟩ | ⟨-, next, hsc', hl⟩
    · exact absurd hde hm
    · refine ⟨next, hl, fun now now' => .inr ⟨_, (hf now).trans (congrArg some hs), ?_⟩⟩
      unfold Admission.script at hsc'
      simp only [step, hc, State.move, Function.update_self, advance, admitStep, hsc']
  · refine ⟨next, hl, fun now _ => .inl ?_⟩
    unfold Admission.script at hsc
    rw [hf]
    simp only [admitStep, hsc]

end Attempts

theorem admission_evicts_exactly (admission : Admission) (store : Store)
    (hform : WellFormed admission.record admission.session.userId store) :
    (AlreadyAdmitted admission.record admission.session.userId store → ∀ declared,
      admission.script declared store =
        (store, .failed "physical connection already admitted")) ∧
    (¬ AlreadyAdmitted admission.record admission.session.userId store → ∃ overCap,
      Overflow admission.record admission.strategy
        (sessionRecords admission.record admission.session.userId store) admission.maxDevices
          overCap ∧
        (∀ declared, admission.Outcome store overCap declared) ∧
        ∀ calls state id, state.store = store → calls id = .admitConnection admission →
          admission.gatewayConnectionId ≠ "" → state.phase id = .waiting →
            admission.Succeeds calls state id overCap) ∧
    ∀ other, SameContent store other → ∀ declared,
      SameReply (admission.script declared store).2 (admission.script declared other).2 ∧
        SameContent (admission.script declared store).1 (admission.script declared other).1 := by
  refine ⟨fun hadmitted declared => script_refuses hform hadmitted declared, fun hapart => ?_,
    fun other hsame declared => script_listing hsame hform declared⟩
  obtain ⟨overCap, hoverflow, hevicting⟩ := removedDevices_spec admission.record admission.strategy
    admission.maxDevices (sessionRecords admission.record admission.session.userId store)
  have houtcome (declared : List String) : admission.Outcome store overCap declared :=
    script_outcome hform hapart hevicting declared
  refine ⟨overCap, hoverflow, houtcome, ?_⟩
  rintro calls state id rfl hcall hconnection hphase
  exact Admission.Outcome.succeeds houtcome hcall hconnection hphase

def sessionOf (id deviceId : String) (createdAt : Int) : Connection :=
  { id := id, userId := "alice", deviceId := deviceId, tenantId := "acme", devicePlatform := "ios",
    serverId := "s1", gatewayId := "g1", createdAt := createdAt, lastHeartbeatAt := createdAt }

-- Alice's two sessions, each of a device of its own.
def twoSessions : Store :=
  [sessionOf "a" "laptop" 100, sessionOf "b" "phone" 200].foldl
    (fun store session => writeConnection session.key (recordFromConnection session) store) emptyStore

def loginOf (gatewayConnectionId : String) : Admission where
  session := sessionOf "c" "tablet" 300
  gatewayConnectionId := gatewayConnectionId
  strategy := .coexist
  maxDevices := 2

theorem hget_twoSessions (field : String) : hget twoSessions ⟨"acme", "alice"⟩ field =
    if field = "b" then some (recordFromConnection (sessionOf "b" "phone" 200))
    else if field = "a" then some (recordFromConnection (sessionOf "a" "laptop" 100))
    else none := by
  have hk (id deviceId : String) (createdAt : Int) :
      (sessionOf id deviceId createdAt).key = ⟨"acme", "alice"⟩ := rfl
  simp only [twoSessions, List.foldl_cons, List.foldl_nil, writeConnection, hget_addGatewayConn,
    hget_addTenantSession, hget_hset, hk, true_and]
  rfl

theorem twoSessions_wellFormed (gatewayConnectionId : String) :
    WellFormed (loginOf gatewayConnectionId).record "alice" twoSessions where
  record field record h := by
    have hget := (hget_twoSessions field).symm.trans h
    split at hget
    · rename_i hf
      cases hget
      subst hf
      exact ⟨rfl, rfl, by decide, by decide, by decide⟩
    · split at hget
      · rename_i hf
        cases hget
        subst hf
        exact ⟨rfl, rfl, by decide, by decide, by decide⟩
      · cases hget
  fresh := (hget_twoSessions "c").trans (by decide)

-- A third device takes the place of the one that came first.
theorem third_device_is_admitted :
    (∃ overCap, Overflow (loginOf "p").record .coexist
        (sessionRecords (loginOf "p").record "alice" twoSessions) 2 overCap ∧
      ∀ declared, (loginOf "p").Outcome twoSessions overCap declared) ∧
    ((loginOf "p").script ["g1"] twoSessions).2 =
      .evicted [⟨"a", "laptop", "a", .deviceCap⟩] := by
  have hapart : ¬ AlreadyAdmitted (loginOf "p").record "alice" twoSessions := by
    unfold AlreadyAdmitted
    decide
  constructor
  · obtain ⟨overCap, hoverflow, houtcome, -⟩ :=
      (admission_evicts_exactly (loginOf "p") twoSessions (twoSessions_wellFormed "p")).2.1 hapart
    exact ⟨overCap, hoverflow, houtcome⟩
  · decide +kernel

-- A connection that has a session already is admitted neither at once nor with more gateways.
theorem second_session_is_refused :
    WellFormed (loginOf "a").record "alice" twoSessions ∧
      ((loginOf "a").script ["g1"] twoSessions).2 =
        .failed "physical connection already admitted" := by
  refine ⟨twoSessions_wellFormed "a", ?_⟩
  decide +kernel

end FlareIm.SessionRegistry
