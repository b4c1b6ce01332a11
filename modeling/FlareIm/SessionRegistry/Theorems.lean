import FlareIm.SessionRegistry
import FlareIm.SessionStore.Theorems

namespace FlareIm.SessionRegistry

open SessionStore Transition

variable {calls : Nat → Call} {state next : State} {action : Action} {now : Int}
  {other : SessionKey} {field sessionId : String} {record : RedisConnectionRecord} {last : State}
  {actions : List Action}

-- How a step can change the store.
inductive StoreMove (calls : Nat → Call) (state : State) : Action → Store → Prop where
  | save {id : Nat} {now : Int} {session : Connection}
      (hcall : calls id = .saveConnection session) :
      StoreMove calls state (.advance id now)
        (writeConnection session.key (recordFromConnection session) state.store)
  | admitted {id : Nat} {now : Int} {admission : Admission}
      (hcall : calls id = .admitConnection admission) (hphase : state.phase id ≠ .finished) :
      StoreMove calls state (.advance id now)
        (admitted admission.record admission.session.userId admission.strategy
          admission.maxDevices state.store)
  | touch {id : Nat} {now : Int} {key : SessionKey} {sessionId : String}
      {record : RedisConnectionRecord} (hcall : calls id = .touchConnection key sessionId)
      (hphase : state.phase id = .touching record) :
      StoreMove calls state (.advance id now)
        (hset state.store key sessionId { record with lastSeen := now })
  | remove {id : Nat} {now : Int} {key : SessionKey} {sessionId : String}
      {records : List RedisConnectionRecord} (hcall : calls id = .removeConnection key sessionId)
      (hphase : state.phase id = .removing records) :
      StoreMove calls state (.advance id now)
        (removeConnection key sessionId records state.store)
  | kick {id : Nat} {now : Int} {key : SessionKey} {sessionId : String}
      {record : RedisConnectionRecord} :
      StoreMove calls state (.advance id now)
        (removeForKickScript key sessionId record state.store).1
  | command {id : Nat} {key : SessionKey} {sessionId : String}
      {record : RedisConnectionRecord} :
      StoreMove calls state (.confirm id)
        (removeForKickScript key sessionId record state.store).1
  | removeUser {id : Nat} {now : Int} {key : SessionKey} {deviceIds : Option (List String)}
      {records : List RedisConnectionRecord}
      (hcall : calls id = .removeUserConnections key deviceIds)
      (hphase : state.phase id = .removing records) :
      StoreMove calls state (.advance id now)
        (removeUserConnections key deviceIds records state.store)

-- What a call has read, where it is going to write it back.
def Read (call : Call) (store : Store) : Phase → Prop
  | .touching record => ∀ key sessionId, call = .touchConnection key sessionId →
      hget store key sessionId = some record ∧ record.tenantId = key.tenantId
  | .removing records => ∀ key, ((∃ sessionId, call = .removeConnection key sessionId) ∨
      ∃ deviceIds, call = .removeUserConnections key deviceIds) →
      ∀ record ∈ records, record.tenantId = key.tenantId
  | _ => True

def Action.id : Action → Nat
  | .advance id _ => id
  | .fail id => id
  | .confirm id => id

-- A step changes the phase of its own call only, to one that follows from what it reads.
structure Moved (calls : Nat → Call) (state : State) (action : Action) (next : State) : Prop where
  store : next.store = state.store ∨
    (StoreMove calls state action next.store ∧
      (next.phase action.id = .finished ∨ action = .confirm action.id))
  others {id : Nat} (h : id ≠ action.id) : next.phase id = state.phase id
  own : next.phase action.id = state.phase action.id ∨
    (state.phase action.id ≠ .finished ∧
      Read (calls action.id) state.store (next.phase action.id)) ∨
    next.phase action.id = .finished

theorem moved_move {id : Nat} {phase : Phase} (ha : action.id = id)
    (hl : state.phase id ≠ .finished) (hr : Read (calls id) state.store phase) :
    Moved calls state action (state.move id phase) where
  store := .inl rfl
  others h := by simp [State.move, ha ▸ h]
  own := .inr (.inl (by simpa [State.move, ha] using ⟨hl, hr⟩))

theorem moved_finish {id : Nat} (ha : action.id = id) :
    Moved calls state action (state.move id .finished) where
  store := .inl rfl
  others h := by simp [State.move, ha ▸ h]
  own := .inr (.inr (by simp [State.move, ha]))

theorem moved_write {id : Nat} {store : Store} (ha : action.id = id)
    (hs : StoreMove calls state action store) :
    Moved calls state action (state.write id store) where
  store := .inr ⟨hs, .inl (by simp [State.write, ha])⟩
  others h := by simp [State.write, ha ▸ h]
  own := .inr (.inr (by simp [State.write, ha]))

theorem moved_admit {id : Nat} {admission : Admission} (attempts : Nat)
    (others : List String) (hc : calls id = .admitConnection admission)
    (hl : state.phase id ≠ .finished) :
    Moved calls state (.advance id now) (admitStep admission attempts others state id) := by
  unfold admitStep
  rcases admit_cases admission.record admission.session.userId admission.strategy
    admission.maxDevices state.store (admission.session.gatewayId :: others) with
    ⟨evicted, hs, -⟩ | ⟨reply, hs, hr⟩
  · simp only [hs]
    exact moved_write rfl (.admitted hc hl)
  · simp only [hs]
    cases reply with
    | failed error => exact moved_finish rfl
    | retryWith gatewayIds => exact moved_move rfl hl trivial
    | evicted connections => exact absurd rfl (hr connections)

theorem moved_load {id : Nat} {key : SessionKey} (hl : state.phase id ≠ .finished)
    (hc : (∃ sessionId, calls id = .removeConnection key sessionId) ∨
      ∃ deviceIds, calls id = .removeUserConnections key deviceIds) :
    Moved calls state (.advance id now) (loadUserRecords key state id) := by
  unfold loadUserRecords
  dsimp only
  split
  · exact moved_finish rfl
  · rename_i ht
    refine moved_move rfl hl ?_
    intro other ho record hm
    have hk : other = key := by
      rcases hc with ⟨sessionId, hc⟩ | ⟨deviceIds, hc⟩ <;>
        rcases ho with ⟨sessionId', ho⟩ | ⟨deviceIds', ho⟩ <;> simp_all
    subst hk
    by_contra hne
    exact ht (List.any_eq_true.mpr ⟨record, hm, by simpa using hne⟩)

theorem step_moved (hs : step calls state action = some next) : Moved calls state action next := by
  cases action with
  | fail id =>
    simp only [step] at hs
    split at hs
    · cases hs
    · exact Option.some.inj hs ▸ moved_finish rfl
  | confirm id =>
    simp only [step, confirm] at hs
    split at hs
    · cases hs
      exact ⟨.inr ⟨.command, .inr rfl⟩, fun _ => rfl, .inl rfl⟩
    · cases hs
  | advance id now =>
    simp only [step] at hs
    unfold advance at hs
    split at hs
    all_goals try rename_i hc hp
    all_goals try rw [Option.some.injEq] at hs
    · exact hs ▸ moved_write rfl (.save hc)
    · split at hs
      · exact Option.some.inj hs ▸ moved_finish rfl
      · exact Option.some.inj hs ▸ moved_admit _ _ hc (by simp [hp])
    · exact hs ▸ moved_admit _ _ hc (by simp [hp])
    · exact hs ▸ moved_finish rfl
    · subst hs
      unfold touchRead
      split
      · exact moved_finish rfl
      · split
        · exact moved_finish rfl
        · rename_i record hf ht
          refine moved_move rfl (by simp [hp]) ?_
          intro key sessionId hsa
          rw [hc] at hsa
          cases hsa
          exact ⟨hf, by simpa using ht⟩
    · exact hs ▸ moved_write rfl (.touch hc hp)
    · exact hs ▸ moved_load (by simp [hp]) (.inl ⟨_, hc⟩)
    · exact hs ▸ moved_write rfl (.remove hc hp)
    · subst hs
      unfold kickRead
      split
      · exact moved_finish rfl
      · split
        · exact moved_finish rfl
        · exact moved_move rfl (by simp [hp]) trivial
    · subst hs
      split <;> exact moved_move rfl (by simp [hp]) trivial
    · exact hs ▸ moved_write rfl .kick
    · exact hs ▸ moved_load (by simp [hp]) (.inr ⟨_, hc⟩)
    · exact hs ▸ moved_write rfl (.removeUser hc hp)
    · cases hs

theorem step_finished (hs : step calls state action = some next) {id : Nat}
    (h : state.phase id = .finished) : next.phase id = .finished := by
  have hm := step_moved hs
  by_cases ho : id = action.id
  · subst ho
    rcases hm.own with hsa | ⟨hl, -⟩ | hen
    · rw [hsa, h]
    · exact absurd h hl
    · exact hen
  · rw [hm.others ho, h]

section Indexes

-- The records that calls hold are of their tenant.
structure Keyed (calls : Nat → Call) (state : State) : Prop where
  store : WellKeyed state.store
  touching {id : Nat} {key : SessionKey} {sessionId : String} {record : RedisConnectionRecord}
    (hcall : calls id = .touchConnection key sessionId)
    (hphase : state.phase id = .touching record) :
    record.conversationId = sessionId ∧ record.tenantId = key.tenantId
  removing {id : Nat} {key : SessionKey} {records : List RedisConnectionRecord}
    (hcall : (∃ sessionId, calls id = .removeConnection key sessionId) ∨
      ∃ deviceIds, calls id = .removeUserConnections key deviceIds)
    (hphase : state.phase id = .removing records) :
    ∀ record ∈ records, record.tenantId = key.tenantId

-- No write comes from a view of the user's sessions that a login has made stale: a heartbeat
-- finds its session as it read it, and a device is unindexed only when no other session is
-- on it now.
def UpToDate (calls : Nat → Call) (state : State) : Action → Prop
  | .advance id _ =>
    (∀ key sessionId record, calls id = .touchConnection key sessionId →
      state.phase id = .touching record →
      ∃ current, hget state.store key sessionId = some current ∧
        current.deviceId = record.deviceId ∧ current.gatewayId = record.gatewayId) ∧
    (∀ key sessionId records, calls id = .removeConnection key sessionId →
      state.phase id = .removing records →
      ∀ removed, Unindexes sessionId records removed → ∀ field record,
        hget state.store key field = some record → record.deviceId = removed.deviceId →
        field = sessionId) ∧
    (∀ key deviceIds records, calls id = .removeUserConnections key (some deviceIds) →
      state.phase id = .removing records →
      ∀ field record, hget state.store key field = some record →
        record.deviceId ∈ deviceIds → (∃ known ∈ records, known.deviceId = record.deviceId) →
        ∃ known ∈ records, known.deviceId ∈ deviceIds ∧ known.conversationId = field)
  | _ => True

theorem hget_removeUserConnections {key : SessionKey} {deviceIds : Option (List String)}
    {records : List RedisConnectionRecord} {store : Store}
    (h : hget (removeUserConnections key deviceIds records store) other field = some record) :
    hget store other field = some record := by
  unfold removeUserConnections at h
  split at h
  · change hget (removeRecords key _ store) other field = some record at h
    rw [hget_removeRecords] at h
    split at h
    · cases h
    · exact h
  · rw [hget_unindexRecords, hget_del] at h
    split at h
    · cases h
    · exact h

theorem hget_of_removeForKick {key : SessionKey}
    {target : RedisConnectionRecord} {store : Store}
    (h : hget (removeForKickScript key sessionId target store).1 other field = some record) :
    hget store other field = some record := by
  rcases hget_removeForKick target other field with hn | hs
  · exact absurd (hn.symm.trans h) (by simp)
  · exact hs.symm.trans h

theorem hget_of_removeConnection {key : SessionKey}
    {records : List RedisConnectionRecord} {store : Store}
    (h : hget (removeConnection key sessionId records store) other field = some record) :
    hget store other field = some record := by
  rw [hget_removeConnection] at h
  split at h
  · cases h
  · exact h

theorem keyed_store (h : Keyed calls state) {store : Store}
    (hm : StoreMove calls state action store) : WellKeyed store := by
  cases hm with
  | save _ => exact wellKeyed_writeConnection h.store rfl
  | admitted _ _ => exact wellKeyed_admitted h.store _ _ _ _
  | touch hc hp =>
    obtain ⟨hfi, ht⟩ := h.touching hc hp
    intro other field found hf
    rw [hget_hset] at hf
    split at hf
    · rename_i hs
      cases hf
      exact ⟨hfi.trans hs.2.symm, hs.1 ▸ ht⟩
    · exact h.store other field found hf
  | remove _ _ => exact h.store.of_sub fun _ _ _ hget => hget_of_removeConnection hget
  | kick | command => exact h.store.of_sub fun _ _ _ hget => hget_of_removeForKick hget
  | removeUser _ _ => exact h.store.of_sub fun _ _ _ hget => hget_removeUserConnections hget

theorem step_keyed (h : Keyed calls state) (hs : step calls state action = some next) :
    Keyed calls next := by
  have hm := step_moved hs
  refine ⟨?_, ?_, ?_⟩
  · rcases hm.store with hsa | ⟨hmo, -⟩
    · rw [hsa]
      exact h.store
    · exact keyed_store h hmo
  · intro id key sessionId record hc hp
    by_cases ho : id = action.id
    · subst ho
      rcases hm.own with hsa | ⟨-, hr⟩ | hen
      · exact h.touching hc (hsa ▸ hp)
      · rw [hp] at hr
        obtain ⟨hf, ht⟩ := hr key sessionId hc
        exact ⟨(h.store key sessionId record hf).1, ht⟩
      · exact absurd (hen.symm.trans hp) (by simp)
    · exact h.touching hc ((hm.others ho).symm.trans hp)
  · intro id key records hc hp
    by_cases ho : id = action.id
    · subst ho
      rcases hm.own with hsa | ⟨-, hr⟩ | hen
      · exact h.removing hc (hsa ▸ hp)
      · rw [hp] at hr
        exact hr key hc
      · exact absurd (hen.symm.trans hp) (by simp)
    · exact h.removing hc ((hm.others ho).symm.trans hp)

theorem keyed_initial : Keyed calls initial where
  store := wellKeyed_empty
  touching _ hp := by simp [initial] at hp
  removing _ hp := by simp [initial] at hp

theorem indexed_touch {key : SessionKey} {store : Store}
    {current : RedisConnectionRecord} (h : Indexed store)
    (hc : hget store key sessionId = some current)
    (hde : current.deviceId = record.deviceId)
    (hg : current.gatewayId = record.gatewayId) :
    Indexed (hset store key sessionId { record with lastSeen := now }) := by
  intro other field found hf
  rw [hget_hset] at hf
  rw [tenantSessions_hset, gatewayConns_hset]
  split at hf
  · rename_i hs
    cases hf
    obtain ⟨rfl, rfl⟩ := hs
    have hm := h other field current hc
    rw [hde, hg] at hm
    exact hm
  · exact h other field found hf

theorem indexed_store (hk : Keyed calls state) (h : Indexed state.store) {store : Store}
    (hok : UpToDate calls state action) (hmo : StoreMove calls state action store) :
    Indexed store := by
  cases hmo with
  | save _ => exact indexed_writeConnection h rfl
  | admitted _ _ => exact indexed_admitted hk.store h _ _ _ _
  | touch hc hp =>
    obtain ⟨current, hcu, hde, hg⟩ := hok.1 _ _ _ hc hp
    exact indexed_touch h hcu hde hg
  | remove hc hp =>
    exact indexed_removeConnection h (hk.removing (.inl ⟨_, hc⟩) hp) (hok.2.1 _ _ _ hc hp)
  | kick | command => exact indexed_removeForKick hk.store h _
  | @removeUser id now key deviceIds records hc hp =>
    have ht := hk.removing (.inr ⟨_, hc⟩) hp
    cases deviceIds with
    | none => exact indexed_removeAll h ht
    | some deviceIds =>
      apply indexed_removeRecords h
      · exact fun record hm => ht record (List.mem_filter.mp hm).1
      · intro removed hr field record hre hde
        obtain ⟨hm, hs⟩ := List.mem_filter.mp hr
        have hl : record.deviceId ∈ deviceIds := by
          rw [hde]
          simpa using hs
        obtain ⟨known, hko, hkn, hf⟩ :=
          hok.2.2 key deviceIds records hc hp field record hre hl ⟨removed, hm, hde.symm⟩
        exact ⟨known, List.mem_filter.mpr ⟨hko, by simpa using hkn⟩, hf⟩

theorem step_indexed (hk : Keyed calls state) (h : Indexed state.store)
    (hok : UpToDate calls state action) (hs : step calls state action = some next) :
    Indexed next.store := by
  rcases (step_moved hs).store with hsa | ⟨hm, -⟩
  · rw [hsa]
    exact h
  · exact indexed_store hk h hok hm

-- In every state of every run whose steps meet `ok`, each session is found through the index of
-- its tenant and through the set of its gateway.
def IndexesComplete (calls : Nat → Call) (ok : State → Action → Prop) : Prop :=
  ∀ actions last, Run (step calls) ok initial actions last → Indexed last.store

theorem indexes_complete_upToDate (calls : Nat → Call) :
    IndexesComplete calls (UpToDate calls) := by
  intro actions last hrun
  have hboth : Keyed calls last ∧ Indexed last.store :=
    hrun.preserves (fun state => Keyed calls state ∧ Indexed state.store)
      (fun _ _ _ h hok hstep => ⟨step_keyed h.1 hstep, step_indexed h.1 h.2 hok hstep⟩)
      ⟨keyed_initial, indexed_empty⟩
  exact hboth.2

-- A phone logs out and in again: the logout has read its sessions, the login comes before its
-- transaction, which then takes the member of the new session out of the index.
def phoneLogin (id connectionId : String) : Admission where
  session :=
    { id := id, userId := "alice", deviceId := "phone", tenantId := "acme",
      devicePlatform := "ios", serverId := "online-1", gatewayId := "gw-1",
      createdAt := 1, lastHeartbeatAt := 1 }
  gatewayConnectionId := connectionId
  strategy := .coexist
  maxDevices := 5

def relogin : Nat → Call
  | 0 => .admitConnection (phoneLogin "s1" "p1")
  | 1 => .removeConnection ⟨"acme", "alice"⟩ "s1"
  | _ => .admitConnection (phoneLogin "s2" "p2")

theorem late_logout_unindexes_the_new_session : ¬ IndexesComplete relogin anyStep := by
  intro h
  have hrun : (execute (step relogin) anyStep initial
      [.advance 0 1, .advance 1 1, .advance 2 1, .advance 1 1]).map (fun last =>
        ((hget last.store ⟨"acme", "alice"⟩ "s2").map (·.deviceId),
          decide (tenantSessionMember "alice" "phone" ∈ last.store.tenantSessions "acme"))) =
      some (some "phone", false) := by
    decide
  obtain ⟨last, hexecute, hlast⟩ := Option.map_eq_some_iff.mp hrun
  obtain ⟨hfound, hmissing⟩ := Prod.mk.inj hlast
  obtain ⟨record, hrecord, hdevice⟩ := Option.map_eq_some_iff.mp hfound
  have hmember := (h _ last (run_of_execute hexecute) _ _ record hrecord).1
  rw [hdevice] at hmember
  exact of_decide_eq_false hmissing hmember

end Indexes

section StaysOut

-- The logins of a deployment: sessions are created by logins only, and each has an id of its own.
structure Logins where
  calls : Nat → Call
  noSave (id : Nat) (session : Connection) : calls id ≠ .saveConnection session
  fresh {id id' : Nat} {admission admission' : Admission}
    (hcall : calls id = .admitConnection admission)
    (hcall' : calls id' = .admitConnection admission')
    (h : admission.session.id = admission'.session.id) : id = id'

variable {logins : Logins}

-- The record of a login that went through, apart from the time of the last heartbeat.
def Logged (logins : Logins) (state : State) (key : SessionKey) (sessionId : String)
    (record : RedisConnectionRecord) : Prop :=
  ∃ id admission, logins.calls id = .admitConnection admission ∧ admission.key = key ∧
    admission.session.id = sessionId ∧ state.phase id = .finished ∧
    record = { admission.record with lastSeen := record.lastSeen }

structure Originates (logins : Logins) (state : State) : Prop where
  stored {key : SessionKey} {sessionId : String} {record : RedisConnectionRecord}
    (h : hget state.store key sessionId = some record) : Logged logins state key sessionId record
  touching {id : Nat} {key : SessionKey} {sessionId : String} {record : RedisConnectionRecord}
    (hcall : logins.calls id = .touchConnection key sessionId)
    (hphase : state.phase id = .touching record) : Logged logins state key sessionId record

-- A heartbeat writes its session back while the session is still there.
def SessionPresent (logins : Logins) (state : State) : Action → Prop
  | .advance id _ => ∀ key sessionId record, logins.calls id = .touchConnection key sessionId →
      state.phase id = .touching record → hget state.store key sessionId ≠ none
  | _ => True

theorem Logged.step {key : SessionKey} (h : Logged logins state key sessionId record)
    (hs : step logins.calls state action = some next) :
    Logged logins next key sessionId record := by
  obtain ⟨id, admission, hc, hk, hse, hp, hr⟩ := h
  exact ⟨id, admission, hc, hk, hse, step_finished hs hp, hr⟩

theorem Logged.same {key : SessionKey}
    {other : RedisConnectionRecord} (h : Logged logins state key sessionId record)
    (h' : Logged logins state key sessionId other) :
    record = { other with lastSeen := record.lastSeen } := by
  obtain ⟨id, admission, hc, -, hs, -, hr⟩ := h
  obtain ⟨id', admission', hc', -, hs', -, hr'⟩ := h'
  obtain rfl := logins.fresh hc hc' (hs.trans hs'.symm)
  obtain rfl : admission = admission' := by
    rw [hc] at hc'
    exact Call.admitConnection.inj hc'
  rw [hr, hr']

-- Where a stored record comes from: it was there, a login wrote it, or a heartbeat did.
theorem hget_next (hs : step logins.calls state action = some next) {key : SessionKey}
    (h : hget next.store key sessionId = some record) :
    hget state.store key sessionId = some record ∨
    (∃ id admission, logins.calls id = .admitConnection admission ∧ admission.key = key ∧
      admission.session.id = sessionId ∧ record = admission.record ∧
      state.phase id ≠ .finished ∧ next.phase id = .finished) ∨
    (∃ id now read, action = .advance id now ∧
      logins.calls id = .touchConnection key sessionId ∧ state.phase id = .touching read ∧
      record = { read with lastSeen := now }) := by
  have hmo := step_moved hs
  rcases hmo.store with hsa | ⟨hm, hen⟩
  · rw [hsa] at h
    exact .inl h
  · generalize next.store = store at hm h
    cases hm with
    | save hc => exact absurd hc (logins.noSave _ _)
    | @admitted id now admission hc hp =>
      rcases (hget_admitted _ _ _ _ _).mp h with ⟨hk, hse, hr⟩ | ⟨-, hold, -⟩
      · refine .inr (.inl ⟨id, admission, hc, hk.symm, hse.symm, hr, hp, ?_⟩)
        rcases hen with hen | hco
        · exact hen
        · cases hco
      · exact .inl hold
    | @touch id now key' sessionId' read hc hp =>
      rw [hget_hset] at h
      split at h
      · rename_i hsa
        obtain ⟨rfl, rfl⟩ := hsa
        exact .inr (.inr ⟨id, now, read, rfl, hc, hp, (Option.some.inj h).symm⟩)
      · exact .inl h
    | remove _ _ => exact .inl (hget_of_removeConnection h)
    | kick | command => exact .inl (hget_of_removeForKick h)
    | removeUser _ _ => exact .inl (hget_removeUserConnections h)

theorem step_originates (h : Originates logins state)
    (hs : step logins.calls state action = some next) : Originates logins next := by
  have hm := step_moved hs
  constructor
  · intro key sessionId record hre
    rcases hget_next hs hre with hold | ⟨id, admission, hc, hk, hse, rfl, -, hen⟩ |
      ⟨id, now, read, -, hc, hp, rfl⟩
    · exact (h.stored hold).step hs
    · exact ⟨id, admission, hc, hk, hse, hen, rfl⟩
    · obtain ⟨id', admission, hc', hk, hse, hf, hr⟩ := h.touching hc hp
      refine ⟨id', admission, hc', hk, hse, step_finished hs hf, ?_⟩
      rw [hr]
  · intro id key sessionId record hc hp
    by_cases ho : id = action.id
    · subst ho
      rcases hm.own with hsa | ⟨-, hr⟩ | hen
      · exact (h.touching hc (hsa ▸ hp)).step hs
      · rw [hp] at hr
        exact (h.stored (hr key sessionId hc).1).step hs
      · exact absurd (hen.symm.trans hp) (by simp)
    · exact (h.touching hc ((hm.others ho).symm.trans hp)).step hs

theorem originates_initial : Originates logins initial where
  stored h := by simp [hget, initial, emptyStore] at h
  touching _ hp := by simp [initial] at hp

-- The session has been logged in, and is no longer stored.
def Gone (logins : Logins) (key : SessionKey) (sessionId : String) (state : State) : Prop :=
  hget state.store key sessionId = none ∧
    ∃ id admission, logins.calls id = .admitConnection admission ∧
      admission.session.id = sessionId ∧ state.phase id = .finished

theorem step_gone {key : SessionKey} (h : Gone logins key sessionId state)
    (hok : SessionPresent logins state action)
    (hs : step logins.calls state action = some next) : Gone logins key sessionId next := by
  obtain ⟨hn, id, admission, hc, hse, hp⟩ := h
  refine ⟨?_, id, admission, hc, hse, step_finished hs hp⟩
  cases hr : hget next.store key sessionId with
  | none => rfl
  | some record =>
    rcases hget_next hs hr with hold | ⟨id', admission', hc', -, hse', -, hl, -⟩ |
      ⟨id', now, read, rfl, hc', hre, -⟩
    · exact absurd (hn.symm.trans hold) (by simp)
    -- the login of the session is over
    · obtain rfl := logins.fresh hc hc' (hse.trans hse'.symm)
      exact absurd hp hl
    · exact absurd hn (hok key sessionId read hc' hre)

theorem run_gone {first : State} {key : SessionKey}
    (hr : Run (step logins.calls) (SessionPresent logins) first actions last)
    (h : Gone logins key sessionId first) : Gone logins key sessionId last :=
  hr.preserves _ (fun _ _ _ h hok hs => step_gone h hok hs) h

theorem run_finished {first : State}
    {ok : State → Action → Prop} {id : Nat}
    (hr : Run (step logins.calls) ok first actions last) (h : first.phase id = .finished) :
    last.phase id = .finished :=
  hr.preserves (fun state => state.phase id = .finished) (fun _ _ _ h _ hs => step_finished hs h) h

theorem run_originates {ok : State → Action → Prop}
    (hr : Run (step logins.calls) ok initial actions last) : Originates logins last :=
  hr.preserves _ (fun _ _ _ h _ hs => step_originates h hs) originates_initial

end StaysOut

section Caps

variable {logins : Logins} {key : SessionKey} {strategy : DeviceConflictStrategy} {cap : Nat}

-- What the conflict strategy and the cap promise about the sessions of a user.
structure WithinCap (store : Store) (key : SessionKey) (strategy : DeviceConflictStrategy)
    (cap : Nat) : Prop where
  devices : ((hvals store key).map (·.deviceId)).toFinset.card ≤ cap
  oneSession {field field' : String} {record record' : RedisConnectionRecord}
    (h : hget store key field = some record) (h' : hget store key field' = some record')
    (hdevice : record.deviceId = record'.deviceId) : field = field'
  exclusive (hstrategy : strategy = .exclusive) {field field' : String}
    {record record' : RedisConnectionRecord} (h : hget store key field = some record)
    (h' : hget store key field' = some record') : record.deviceId = record'.deviceId
  platform (hstrategy : strategy = .platformExclusive) {field field' : String}
    {record record' : RedisConnectionRecord} (h : hget store key field = some record)
    (h' : hget store key field' = some record')
    (hplatform : record.devicePlatform = record'.devicePlatform) :
    record.deviceId = record'.deviceId

-- Every login of the user is made with this strategy and this cap.
def AdmitsWith (logins : Logins) (key : SessionKey) (strategy : DeviceConflictStrategy)
    (cap : Nat) : Prop :=
  ∀ id admission, logins.calls id = .admitConnection admission → admission.key = key →
    admission.strategy = strategy ∧ admission.maxDevices = cap

theorem WithinCap.of_sub {store next : Store} (h : WithinCap store key strategy cap)
    (hsu : ∀ field record, hget next key field = some record →
      ∃ before, hget store key field = some before ∧ before.deviceId = record.deviceId ∧
        before.devicePlatform = record.devicePlatform) : WithinCap next key strategy cap where
  devices := by
    refine le_trans (Finset.card_le_card ?_) h.devices
    intro deviceId hm
    obtain ⟨record, hr, rfl⟩ := List.mem_map.mp (List.mem_toFinset.mp hm)
    obtain ⟨field, hf⟩ := (mem_hvals next key).mp hr
    obtain ⟨before, hb, hde, -⟩ := hsu field record hf
    exact List.mem_toFinset.mpr (List.mem_map.mpr
      ⟨before, (mem_hvals store key).mpr ⟨field, hb⟩, hde⟩)
  oneSession {field field' record record'} hr hr' hde := by
    obtain ⟨before, hb, heq, -⟩ := hsu field record hr
    obtain ⟨before', hb', heq', -⟩ := hsu field' record' hr'
    exact h.oneSession hb hb' (heq.trans (hde.trans heq'.symm))
  exclusive hs {field field' record record'} hr hr' := by
    obtain ⟨before, hb, heq, -⟩ := hsu field record hr
    obtain ⟨before', hb', heq', -⟩ := hsu field' record' hr'
    exact heq.symm.trans ((h.exclusive hs hb hb').trans heq')
  platform hs {field field' record record'} hr hr' hp := by
    obtain ⟨before, hb, heq, hsa⟩ := hsu field record hr
    obtain ⟨before', hb', heq', hsa'⟩ := hsu field' record' hr'
    exact heq.symm.trans ((h.platform hs hb hb' (hsa.trans (hp.trans hsa'.symm))).trans heq')

section Login

variable {store : Store} (new : RedisConnectionRecord) (userId : String)

theorem stays_apart (h : hget store ⟨new.tenantId, userId⟩ field = some record)
    (hs : ¬ (scriptRemoves new userId strategy cap store).Has record.deviceId) :
    conflictCause new strategy record = none := by
  by_contra hc
  refine hs (has_removedDevices new strategy ?_ (Option.isSome_iff_ne_none.mpr hc))
  exact (mem_hvals store _).mpr ⟨field, h⟩

theorem conflictCause_eq_none (h : conflictCause new strategy record = none) :
    record.deviceId ≠ new.deviceId ∧ strategy ≠ .exclusive ∧
      (strategy = .platformExclusive → record.devicePlatform ≠ new.devicePlatform) := by
  unfold conflictCause at h
  split at h
  · cases h
  · rename_i hde
    cases strategy with
    | exclusive => simp at h
    | platformExclusive => exact ⟨hde, by simp, by simpa using h⟩
    | coexist => exact ⟨hde, by simp, by simp⟩

theorem within_admitted (hca : 0 < cap) (h : WithinCap store ⟨new.tenantId, userId⟩ strategy cap) :
    WithinCap (admitted new userId strategy cap store) ⟨new.tenantId, userId⟩ strategy cap := by
  -- a session afterwards is the new one, or stays and does not conflict with it
  have hc : ∀ {field record},
      hget (admitted new userId strategy cap store) ⟨new.tenantId, userId⟩ field = some record →
      (field = new.conversationId ∧ record = new) ∨
      (hget store ⟨new.tenantId, userId⟩ field = some record ∧
        ¬ (scriptRemoves new userId strategy cap store).Has record.deviceId ∧
        conflictCause new strategy record = none) := by
    intro field record hr
    rcases (hget_admitted new userId strategy cap store).mp hr with
      ⟨-, hf, heq⟩ | ⟨-, hold, hst⟩
    · exact .inl ⟨hf, heq⟩
    · exact .inr ⟨hold, hst rfl, stays_apart new userId hold (hst rfl)⟩
  constructor
  · have hfe := card_remaining_lt new strategy hca (hvals store ⟨new.tenantId, userId⟩)
    refine le_trans (Finset.card_le_card (t := insert new.deviceId _) ?_)
      (le_trans (Finset.card_insert_le _ _) hfe)
    intro deviceId hm
    obtain ⟨record, hr, rfl⟩ := List.mem_map.mp (List.mem_toFinset.mp hm)
    obtain ⟨field, hf⟩ := (mem_hvals _ _).mp hr
    rcases hc hf with ⟨-, rfl⟩ | ⟨hold, hst, -⟩
    · exact Finset.mem_insert_self _ _
    · refine Finset.mem_insert_of_mem (List.mem_toFinset.mpr (List.mem_map.mpr
        ⟨record, List.mem_filter.mpr ⟨(mem_hvals store _).mpr ⟨field, hold⟩, ?_⟩, rfl⟩))
      exact Option.isNone_iff_eq_none.mpr (Option.not_isSome_iff_eq_none.mp hst)
  · intro field field' record record' hr hr' hde
    rcases hc hr with ⟨rfl, rfl⟩ | ⟨hold, -, hn⟩
    · rcases hc hr' with ⟨rfl, -⟩ | ⟨-, -, hn'⟩
      · rfl
      · exact absurd hde.symm (conflictCause_eq_none _ hn').1
    · rcases hc hr' with ⟨rfl, rfl⟩ | ⟨hold', -, -⟩
      · exact absurd hde (conflictCause_eq_none _ hn).1
      · exact h.oneSession hold hold' hde
  · intro hs field field' record record' hr hr'
    rcases hc hr with ⟨-, rfl⟩ | ⟨-, -, hn⟩
    · rcases hc hr' with ⟨-, rfl⟩ | ⟨-, -, hn'⟩
      · rfl
      · exact absurd hs (conflictCause_eq_none _ hn').2.1
    · exact absurd hs (conflictCause_eq_none _ hn).2.1
  · intro hs field field' record record' hr hr' hp
    rcases hc hr with ⟨-, rfl⟩ | ⟨hold, -, hn⟩
    · rcases hc hr' with ⟨-, rfl⟩ | ⟨-, -, hn'⟩
      · rfl
      · exact absurd hp.symm ((conflictCause_eq_none _ hn').2.2 hs)
    · rcases hc hr' with ⟨-, rfl⟩ | ⟨hold', -, -⟩
      · exact absurd hp ((conflictCause_eq_none _ hn).2.2 hs)
      · exact h.platform hs hold hold' hp

end Login

theorem withinCap_empty : WithinCap emptyStore key strategy cap where
  devices := by simp [hvals, hgetall, emptyStore]
  oneSession h := by simp [hget, emptyStore] at h
  exclusive _ _ _ _ _ h := by simp [hget, emptyStore] at h
  platform _ _ _ _ _ h := by simp [hget, emptyStore] at h

theorem step_withinCap (ho : Originates logins state) (hca : 0 < cap)
    (ha : AdmitsWith logins key strategy cap)
    (h : WithinCap state.store key strategy cap) (hok : SessionPresent logins state action)
    (hs : step logins.calls state action = some next) : WithinCap next.store key strategy cap := by
  rcases (step_moved hs).store with hsa | ⟨hm, -⟩
  · rw [hsa]
    exact h
  · generalize next.store = store at hm
    cases hm with
    | save hc => exact absurd hc (logins.noSave _ _)
    | @admitted id now admission hc _ =>
      by_cases hk : admission.key = key
      · obtain ⟨rfl, rfl⟩ := ha id admission hc hk
        subst hk
        exact within_admitted admission.record admission.session.userId hca h
      · apply h.of_sub
        intro field record hr
        rcases (hget_admitted _ _ _ _ _).mp hr with ⟨hsa, -, -⟩ | ⟨-, hold, -⟩
        · exact absurd hsa.symm hk
        · exact ⟨record, hold, rfl, rfl⟩
    | @touch id now key' sessionId read hc hp =>
      apply h.of_sub
      intro field record hr
      rw [hget_hset] at hr
      split at hr
      · rename_i hsa
        obtain ⟨rfl, rfl⟩ := hsa
        cases hr
        obtain ⟨current, hcu⟩ :=
          Option.ne_none_iff_exists'.mp (hok _ _ read hc hp)
        have hre := (ho.stored hcu).same (ho.touching hc hp)
        exact ⟨current, hcu, by rw [hre], by rw [hre]⟩
      · exact ⟨record, hr, rfl, rfl⟩
    | remove _ _ =>
      exact h.of_sub fun field record hr =>
        ⟨record, hget_of_removeConnection hr, rfl, rfl⟩
    | kick | command =>
      exact h.of_sub fun field record hr =>
        ⟨record, hget_of_removeForKick hr, rfl, rfl⟩
    | removeUser _ _ =>
      exact h.of_sub fun field record hr =>
        ⟨record, hget_removeUserConnections hr, rfl, rfl⟩

-- A session that was stored and is gone does not come back, and the strategy and the cap hold.
structure SessionsStayOut (logins : Logins) (ok : State → Action → Prop) : Prop where
  stayOut {first second last : State} {before between after : List Action} {key : SessionKey}
    {sessionId : String} (hfirst : Run (step logins.calls) ok initial before first)
    (hstored : hget first.store key sessionId ≠ none)
    (hsecond : Run (step logins.calls) ok first between second)
    (hgone : hget second.store key sessionId = none)
    (hlast : Run (step logins.calls) ok second after last) :
    hget last.store key sessionId = none
  withinCap {last : State} {actions : List Action} {key : SessionKey}
    {strategy : DeviceConflictStrategy} {cap : Nat}
    (hrun : Run (step logins.calls) ok initial actions last) (hcap : 0 < cap)
    (hadmits : AdmitsWith logins key strategy cap) : WithinCap last.store key strategy cap

theorem sessions_stay_out_present (logins : Logins) :
    SessionsStayOut logins (SessionPresent logins) where
  stayOut {first second last _ _ _ key sessionId} hfirst hstored hsecond hgone hlast := by
    obtain ⟨record, hrecord⟩ := Option.ne_none_iff_exists'.mp hstored
    obtain ⟨id, admission, hcall, -, hsession, hphase, -⟩ := (run_originates hfirst).stored hrecord
    exact (run_gone hlast
      ⟨hgone, id, admission, hcall, hsession, run_finished hsecond hphase⟩).1
  withinCap {last _ key strategy cap} hrun hcap hadmits := by
    have hboth : Originates logins last ∧ WithinCap last.store key strategy cap :=
      hrun.preserves (fun state => Originates logins state ∧
          WithinCap state.store key strategy cap)
        (fun _ _ _ h hok hstep => ⟨step_originates h.1 hstep,
          step_withinCap h.1 hcap hadmits h.2 hok hstep⟩)
        ⟨originates_initial, withinCap_empty⟩
    exact hboth.2

-- One device at a time: the tablet's login evicts the phone while a heartbeat of the phone is
-- between its two round trips.
def oneDevice (id deviceId connectionId : String) : Admission where
  session :=
    { id := id, userId := "alice", deviceId := deviceId, tenantId := "acme",
      devicePlatform := "ios", serverId := "online-1", gatewayId := "gw-1",
      createdAt := 1, lastHeartbeatAt := 1 }
  gatewayConnectionId := connectionId
  strategy := .coexist
  maxDevices := 1

def lateHeartbeat : Logins where
  calls
    | 0 => .admitConnection (oneDevice "s1" "phone" "p1")
    | 2 => .admitConnection (oneDevice "s2" "tablet" "p2")
    | _ => .touchConnection ⟨"acme", "alice"⟩ "s1"
  noSave id session := by split <;> simp
  fresh {id id' admission admission'} hcall hcall' h := by
    split at hcall <;> split at hcall' <;> cases hcall <;> cases hcall'
    · rfl
    · exact absurd h (by decide)
    · exact absurd h (by decide)
    · rfl

theorem late_heartbeat_revives_a_session :
    ¬ SessionsStayOut lateHeartbeat anyStep := by
  intro h
  have hrun : (execute (step lateHeartbeat.calls) anyStep initial
      [.advance 0 1, .advance 1 1, .advance 2 1, .advance 1 2]).map (fun last =>
        ((hvals last.store ⟨"acme", "alice"⟩).map (·.deviceId)).toFinset.card) = some 2 := by
    decide
  obtain ⟨last, hexecute, hcard⟩ := Option.map_eq_some_iff.mp hrun
  have hadmits : AdmitsWith lateHeartbeat ⟨"acme", "alice"⟩ .coexist 1 := by
    intro id admission hcall _
    simp only [lateHeartbeat] at hcall
    split at hcall
    · cases hcall
      exact ⟨rfl, rfl⟩
    · cases hcall
      exact ⟨rfl, rfl⟩
    · cases hcall
  have hwithin := (h.withinCap (run_of_execute hexecute) (by decide) hadmits).devices
  omega

end Caps

end FlareIm.SessionRegistry
