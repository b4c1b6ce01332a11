import FlareIm.SessionStore
import Mathlib.Data.Finset.Card
import Mathlib.Data.Finset.Dedup
import Mathlib.Tactic.Common

namespace FlareIm.SessionStore

open Framed
open List (any_eq_true foldl_cons forall_mem_cons mem_cons mem_cons_self mem_map)

variable {tenantId' member' : String} {device : String × Int} {devices : List (String × Int)}
  {removed : RemovedDevices}

@[simp] theorem tenantSessionMember_inj {userId deviceId userId' deviceId' : String} :
    tenantSessionMember userId deviceId = tenantSessionMember userId' deviceId' ↔
      userId = userId' ∧ deviceId = deviceId' := by
  unfold tenantSessionMember
  rw [String.ofList_inj, List.append_cancel_left_eq, frame_inj, String.toList_inj,
    String.toList_inj]

@[simp] theorem gatewayMember_inj {tenantId userId field userId' field' : String} :
    gatewayMember tenantId userId field = gatewayMember tenantId' userId' field' ↔
      tenantId = tenantId' ∧ userId = userId' ∧ field = field' := by
  unfold gatewayMember
  rw [String.ofList_inj, List.append_cancel_left_eq, frame_inj, frame_inj,
    String.toList_inj, String.toList_inj, String.toList_inj]

section Commands

variable (store : Store) (key other : SessionKey) (field : String)
  (record : RedisConnectionRecord) (tenantId gatewayId member : String)

theorem hget_hset (field' : String) :
    hget (hset store key field record) other field' =
      if other = key ∧ field' = field then some record else hget store other field' := by
  unfold hget hset
  by_cases hk : other = key
  · subst hk
    by_cases hf : field' = field
    · subst hf
      simp
    · simp [hf, AList.lookup_insert_ne hf]
  · simp [hk]

theorem hget_hdel (field' : String) :
    hget (hdel store key field) other field' =
      if other = key ∧ field' = field then none else hget store other field' := by
  unfold hget hdel
  by_cases hk : other = key
  · subst hk
    by_cases hf : field' = field
    · subst hf
      simp
    · simp [hf, AList.lookup_erase_ne hf]
  · simp [hk]

theorem hget_del :
    hget (del store key) other field = if other = key then none else hget store other field := by
  unfold hget del
  by_cases hk : other = key
  · subst hk
    simp
  · simp [hk]

@[simp] theorem hget_addTenantSession :
    hget (addTenantSession store tenantId member) key field = hget store key field := rfl

@[simp] theorem hget_removeTenantSession :
    hget (removeTenantSession store tenantId member) key field = hget store key field := rfl

@[simp] theorem hget_addGatewayConn :
    hget (addGatewayConn store gatewayId member) key field = hget store key field := rfl

@[simp] theorem hget_removeGatewayConn :
    hget (removeGatewayConn store gatewayId member) key field = hget store key field := rfl

@[simp] theorem tenantSessions_hset :
    (hset store key field record).tenantSessions = store.tenantSessions := rfl

@[simp] theorem tenantSessions_hdel :
    (hdel store key field).tenantSessions = store.tenantSessions := rfl

@[simp] theorem tenantSessions_del : (del store key).tenantSessions = store.tenantSessions := rfl

@[simp] theorem tenantSessions_addGatewayConn :
    (addGatewayConn store gatewayId member).tenantSessions = store.tenantSessions := rfl

@[simp] theorem tenantSessions_removeGatewayConn :
    (removeGatewayConn store gatewayId member).tenantSessions = store.tenantSessions := rfl

@[simp] theorem gatewayConns_hset :
    (hset store key field record).gatewayConns = store.gatewayConns := rfl

@[simp] theorem gatewayConns_hdel : (hdel store key field).gatewayConns = store.gatewayConns := rfl

@[simp] theorem gatewayConns_del : (del store key).gatewayConns = store.gatewayConns := rfl

@[simp] theorem gatewayConns_addTenantSession :
    (addTenantSession store tenantId member).gatewayConns = store.gatewayConns := rfl

@[simp] theorem gatewayConns_removeTenantSession :
    (removeTenantSession store tenantId member).gatewayConns = store.gatewayConns := rfl

theorem mem_addTenantSession :
    member' ∈ (addTenantSession store tenantId member).tenantSessions tenantId' ↔
      (tenantId' = tenantId ∧ member' = member) ∨ member' ∈ store.tenantSessions tenantId' := by
  unfold addTenantSession
  by_cases h : tenantId' = tenantId
  · subst h
    simp
  · simp [h]

theorem mem_removeTenantSession :
    member' ∈ (removeTenantSession store tenantId member).tenantSessions tenantId' ↔
      ¬ (tenantId' = tenantId ∧ member' = member) ∧ member' ∈ store.tenantSessions tenantId' := by
  unfold removeTenantSession
  by_cases h : tenantId' = tenantId
  · subst h
    simp
  · simp [h]

theorem mem_addGatewayConn {gatewayId' : String} :
    member' ∈ (addGatewayConn store gatewayId member).gatewayConns gatewayId' ↔
      (gatewayId' = gatewayId ∧ member' = member) ∨ member' ∈ store.gatewayConns gatewayId' := by
  unfold addGatewayConn
  by_cases h : gatewayId' = gatewayId
  · subst h
    simp
  · simp [h]

theorem mem_removeGatewayConn {gatewayId' : String} :
    member' ∈ (removeGatewayConn store gatewayId member).gatewayConns gatewayId' ↔
      ¬ (gatewayId' = gatewayId ∧ member' = member) ∧ member' ∈ store.gatewayConns gatewayId' := by
  unfold removeGatewayConn
  by_cases h : gatewayId' = gatewayId
  · subst h
    simp
  · simp [h]

theorem mem_hgetall {field : String} {record : RedisConnectionRecord} :
    (field, record) ∈ hgetall store key ↔ hget store key field = some record := by
  have hen := AList.mem_lookup_iff (a := field) (b := record) (s := store.sessions key)
  unfold hgetall hget
  rw [mem_map]
  constructor
  · rintro ⟨entry, het, heq⟩
    cases heq
    exact AList.mem_lookup_iff.mpr het
  · intro h
    exact ⟨⟨field, record⟩, hen.mp h, rfl⟩

theorem mem_hvals {record : RedisConnectionRecord} :
    record ∈ hvals store key ↔ ∃ field, hget store key field = some record := by
  unfold hvals
  constructor
  · intro h
    obtain ⟨⟨field, found⟩, hm, rfl⟩ := mem_map.mp h
    exact ⟨field, (mem_hgetall store key).mp hm⟩
  · rintro ⟨field, h⟩
    exact mem_map.mpr ⟨(field, record), (mem_hgetall store key).mpr h, rfl⟩

end Commands

section RemovedDevices

variable (new : RedisConnectionRecord) (strategy : DeviceConflictStrategy)

-- The device goes.
def RemovedDevices.Has (removed : RemovedDevices) (deviceId : String) : Prop :=
  (removed.cause deviceId).isSome = true

theorem has_cons (removed : RemovedDevices) (device : String × EvictionCause) (deviceId : String) :
    RemovedDevices.Has (device :: removed) deviceId ↔
      deviceId = device.1 ∨ removed.Has deviceId := by
  unfold RemovedDevices.Has RemovedDevices.cause
  by_cases h : deviceId = device.1 <;> simp [h]

theorem has_iff_mem (removed : RemovedDevices) (deviceId : String) :
    removed.Has deviceId ↔ ∃ device ∈ removed, device.1 = deviceId := by
  induction removed with
  | nil => simp [RemovedDevices.Has, RemovedDevices.cause]
  | cons device removed ih =>
    rw [has_cons, ih]
    simp [eq_comm]

theorem has_foldl {note : RemovedDevices → RedisConnectionRecord → RemovedDevices}
    {record : RedisConnectionRecord} {deviceId : String}
    (hk : ∀ removed other, RemovedDevices.Has removed deviceId → (note removed other).Has deviceId)
    (hn : ∀ removed, (note removed record).Has deviceId) :
    ∀ (records : List RedisConnectionRecord) (removed : RemovedDevices),
      (removed.Has deviceId ∨ record ∈ records) → (records.foldl note removed).Has deviceId := by
  intro records
  induction records with
  | nil =>
    intro removed h
    rcases h with h | h
    · exact h
    · exact absurd h List.not_mem_nil
  | cons head rest ih =>
    intro removed h
    rw [foldl_cons]
    apply ih
    rcases h with h | h
    · exact .inl (hk _ _ h)
    · rcases mem_cons.mp h with rfl | ht
      · exact .inl (hn _)
      · exact .inr ht

theorem has_conflicting {records : List RedisConnectionRecord} {record : RedisConnectionRecord}
    (hm : record ∈ records) (hc : (conflictCause new strategy record).isSome = true) :
    (conflictingDevices new strategy records).Has record.deviceId := by
  unfold conflictingDevices
  refine has_foldl ?_ ?_ records [] (.inr hm)
  · intro removed other h
    cases conflictCause new strategy other with
    | none => exact h
    | some cause => exact (has_cons _ _ _).mpr (.inr h)
  · intro removed
    obtain ⟨cause, hs⟩ := Option.isSome_iff_exists.mp hc
    rw [hs]
    exact (has_cons _ _ _).mpr (.inl rfl)

theorem oldest_mem :
    ∀ (devices : List (String × Int)) (start : Option (String × Int)),
      devices.foldl (fun oldest device =>
        match oldest with
        | none => some device
        | some other => if isOlder device other then some device else some other) start =
        some device →
      start = some device ∨ device ∈ devices := by
  intro devices
  induction devices with
  | nil =>
    intro start h
    exact .inl h
  | cons head rest ih =>
    intro start h
    rw [foldl_cons] at h
    rcases ih _ h with hs | hr
    · cases start with
      | none =>
        cases hs
        exact .inr mem_cons_self
      | some other =>
        simp only at hs
        split at hs
        · cases hs
          exact .inr mem_cons_self
        · exact .inl hs
    · exact .inr (List.mem_cons_of_mem _ hr)

theorem oldest_none :
    ∀ (start : Option (String × Int)),
      devices.foldl (fun oldest device =>
        match oldest with
        | none => some device
        | some other => if isOlder device other then some device else some other) start = none →
      devices = [] := by
  induction devices with
  | nil =>
    intro _ _
    rfl
  | cons head rest ih =>
    intro start h
    rw [foldl_cons] at h
    have hr := ih _ h
    subst hr
    cases start with
    | none => simp at h
    | some other =>
      simp only [List.foldl_nil] at h
      split at h <;> simp at h

-- The devices that stay.
def remainingDevices (devices : List (String × Int)) (removed : RemovedDevices) :
    List (String × Int) :=
  devices.filter fun device => (removed.cause device.1).isNone

theorem mem_remainingDevices :
    device ∈ remainingDevices devices removed ↔ device ∈ devices ∧ ¬ removed.Has device.1 := by
  simp [remainingDevices, RemovedDevices.Has]

theorem remaining_lt_of_removed (hm : device ∈ remainingDevices devices removed)
    (cause : EvictionCause) : (remainingDevices devices ((device.1, cause) :: removed)).length <
      (remainingDevices devices removed).length := by
  have hf : remainingDevices devices ((device.1, cause) :: removed) =
      (remainingDevices devices removed).filter fun other => decide (other.1 ≠ device.1) := by
    unfold remainingDevices
    rw [List.filter_filter]
    apply List.filter_congr
    intro other _
    unfold RemovedDevices.cause
    by_cases hs : other.1 = device.1
    · simp [hs]
    · have hne : (other.1 == device.1) = false := by simpa using hs
      simp [List.lookup_cons, hs, hne]
  rw [hf]
  exact List.length_filter_lt_length_iff_exists.mpr ⟨device, hm, by simp⟩

theorem has_evictOverCap {cap : Nat} {deviceId : String} :
    ∀ (remaining : Nat) (removed : RemovedDevices), removed.Has deviceId →
      (evictOverCap devices cap remaining removed).Has deviceId := by
  intro remaining
  induction remaining with
  | zero =>
    intro removed h
    exact h
  | succ remaining ih =>
    intro removed h
    unfold evictOverCap
    split
    · split
      · exact h
      · exact ih _ ((has_cons _ _ _).mpr (.inr h))
    · exact h

theorem remaining_evictOverCap {cap : Nat} (hc : 0 < cap) :
    ∀ (remaining : Nat) (removed : RemovedDevices),
      (remainingDevices devices removed).length ≤ remaining →
      (remainingDevices devices (evictOverCap devices cap remaining removed)).length < cap := by
  intro remaining
  induction remaining with
  | zero =>
    intro removed h
    simp only [evictOverCap]
    omega
  | succ remaining ih =>
    intro removed h
    unfold evictOverCap
    split
    · split
      · rename_i hn
        have hem : remainingDevices devices removed = [] := oldest_none none hn
        simp [hem, hc]
      · rename_i device hso
        have hm : device ∈ remainingDevices devices removed := by
          rcases oldest_mem _ none hso with hs | hm
          · cases hs
          · exact hm
        have hlt := remaining_lt_of_removed hm .deviceCap
        exact ih _ (by omega)
    · omega

theorem has_removedDevices {cap : Nat} {records : List RedisConnectionRecord}
    {record : RedisConnectionRecord} (hm : record ∈ records)
    (hca : (conflictCause new strategy record).isSome = true) :
    (removedDevices new strategy cap records).Has record.deviceId := by
  have hc := has_conflicting new strategy hm hca
  unfold removedDevices
  dsimp only
  split
  · exact has_evictOverCap _ _ hc
  · exact hc

theorem mem_noteDevice (devices : List (String × Int)) (record : RedisConnectionRecord)
    (deviceId : String) : (∃ device ∈ noteDevice devices record, device.1 = deviceId) ↔
      (∃ device ∈ devices, device.1 = deviceId) ∨ record.deviceId = deviceId := by
  unfold noteDevice
  split
  · rename_i ha
    obtain ⟨known, hk, heq⟩ := any_eq_true.mp ha
    have hs : known.1 = record.deviceId := by simpa using heq
    constructor
    · rintro ⟨device, hm, rfl⟩
      obtain ⟨before, hb, rfl⟩ := mem_map.mp hm
      left
      refine ⟨before, hb, ?_⟩
      split <;> rfl
    · rintro (⟨device, hm, rfl⟩ | rfl)
      · refine ⟨_, mem_map.mpr ⟨device, hm, rfl⟩, ?_⟩
        split <;> rfl
      · refine ⟨_, mem_map.mpr ⟨known, hk, rfl⟩, ?_⟩
        split <;> exact hs
  · constructor
    · rintro ⟨device, hm, rfl⟩
      rcases List.mem_append.mp hm with hold | hn
      · exact .inl ⟨device, hold, rfl⟩
      · obtain rfl := List.mem_singleton.mp hn
        exact .inr rfl
    · rintro (⟨device, hm, rfl⟩ | rfl)
      · exact ⟨device, List.mem_append_left _ hm, rfl⟩
      · exact ⟨_, List.mem_append_right _ mem_cons_self, rfl⟩

theorem exists_device {records : List RedisConnectionRecord} {record : RedisConnectionRecord}
    (hm : record ∈ records) : ∃ device ∈ devicesOf records, device.1 = record.deviceId := by
  have hn : ∀ (records : List RedisConnectionRecord) (devices : List (String × Int)),
      ((∃ device ∈ devices, device.1 = record.deviceId) ∨ record ∈ records) →
      ∃ device ∈ records.foldl noteDevice devices, device.1 = record.deviceId := by
    intro records
    induction records with
    | nil =>
      intro devices h
      exact h.resolve_right List.not_mem_nil
    | cons head rest ih =>
      intro devices h
      rw [foldl_cons]
      apply ih
      rw [mem_noteDevice]
      rcases h with h | h
      · exact .inl (.inl h)
      · rcases mem_cons.mp h with rfl | ht
        · exact .inl (.inr rfl)
        · exact .inr ht
  exact hn records [] (.inr hm)

theorem card_remaining_lt {cap : Nat} (hc : 0 < cap) (records : List RedisConnectionRecord) :
    ((records.filter fun record =>
        ((removedDevices new strategy cap records).cause record.deviceId).isNone).map
      (·.deviceId)).toFinset.card < cap := by
  have hf : (remainingDevices (devicesOf records)
      (removedDevices new strategy cap records)).length < cap := by
    unfold removedDevices
    rw [if_pos hc]
    exact remaining_evictOverCap hc _ _ le_rfl
  refine lt_of_le_of_lt ?_ hf
  calc _ ≤ ((remainingDevices (devicesOf records)
        (removedDevices new strategy cap records)).map Prod.fst).toFinset.card := by
        apply Finset.card_le_card
        intro deviceId hm
        obtain ⟨record, hre, rfl⟩ := mem_map.mp (List.mem_toFinset.mp hm)
        obtain ⟨hr, hs⟩ := List.mem_filter.mp hre
        obtain ⟨device, hde, heq⟩ := exists_device hr
        refine List.mem_toFinset.mpr (mem_map.mpr ⟨device, ?_, heq⟩)
        rw [mem_remainingDevices, heq]
        refine ⟨hde, fun hg => ?_⟩
        unfold RemovedDevices.Has at hg
        simp [Option.isNone_iff_eq_none.mp hs] at hg
    _ ≤ _ := by
        refine le_trans (List.toFinset_card_le _) ?_
        rw [List.length_map]

end RemovedDevices

section Admission

variable (new : RedisConnectionRecord) (userId : String) (strategy : DeviceConflictStrategy)
  (cap : Nat) (store : Store)

theorem hget_evictAll (key other : SessionKey) (field : String) (evictions : List Eviction) :
    hget (evictions.foldl (evict key) store) other field =
      if other = key ∧ ∃ eviction ∈ evictions, eviction.field = field then none
      else hget store other field := by
  induction evictions generalizing store with
  | nil => simp
  | cons eviction rest ih =>
    rw [foldl_cons, ih]
    simp only [evict, hget_removeGatewayConn, hget_hdel]
    by_cases hk : other = key
    · by_cases hf : field = eviction.field
      · simp [hk, hf]
      · simp [hk, hf, Ne.symm hf]
    · simp [hk]

theorem tenantSessions_evictAll (key : SessionKey) (evictions : List Eviction) :
    (evictions.foldl (evict key) store).tenantSessions = store.tenantSessions := by
  induction evictions generalizing store with
  | nil => rfl
  | cons eviction rest ih =>
    rw [foldl_cons, ih]
    rfl

theorem mem_gatewayConns_evictAll (key : SessionKey) (evictions : List Eviction)
    (gatewayId member : String) :
    member ∈ (evictions.foldl (evict key) store).gatewayConns gatewayId ↔
      member ∈ store.gatewayConns gatewayId ∧ ∀ eviction ∈ evictions,
        ¬ (gatewayId = eviction.record.gatewayId ∧
          member = gatewayMember eviction.record.tenantId key.userId eviction.field) := by
  induction evictions generalizing store with
  | nil => simp
  | cons eviction rest ih =>
    rw [foldl_cons, ih]
    simp only [evict, mem_removeGatewayConn, gatewayConns_hdel, forall_mem_cons]
    tauto

-- The index without the members of the devices that go.
def unindexDevices (tenantId : String) (removed : RemovedDevices) : Store :=
  removed.foldl
    (fun store device => removeTenantSession store tenantId (tenantSessionMember userId device.1))
    store

theorem hget_unindexDevices (tenantId : String) (removed : RemovedDevices) (key : SessionKey)
    (field : String) :
    hget (unindexDevices userId store tenantId removed) key field = hget store key field := by
  unfold unindexDevices
  induction removed generalizing store with
  | nil => rfl
  | cons device rest ih =>
    rw [foldl_cons, ih]
    rfl

theorem gatewayConns_unindexDevices (tenantId : String) (removed : RemovedDevices) :
    (unindexDevices userId store tenantId removed).gatewayConns = store.gatewayConns := by
  unfold unindexDevices
  induction removed generalizing store with
  | nil => rfl
  | cons device rest ih =>
    rw [foldl_cons, ih]
    rfl

theorem mem_unindexDevices (tenantId : String) (removed : RemovedDevices)
    (tenantId' member : String) :
    member ∈ (unindexDevices userId store tenantId removed).tenantSessions tenantId' ↔
      member ∈ store.tenantSessions tenantId' ∧ ∀ device ∈ removed,
        ¬ (tenantId' = tenantId ∧ member = tenantSessionMember userId device.1) := by
  unfold unindexDevices
  induction removed generalizing store with
  | nil => simp
  | cons device rest ih =>
    rw [foldl_cons, ih]
    simp only [mem_removeTenantSession, forall_mem_cons]
    tauto

-- The devices the script removes for a login.
def scriptRemoves : RemovedDevices :=
  removedDevices new strategy cap (hvals store ⟨new.tenantId, userId⟩)

-- The store after a login: without the sessions of the removed devices, with the new one.
def admitted : Store :=
  let key : SessionKey := ⟨new.tenantId, userId⟩
  let removed := scriptRemoves new userId strategy cap store
  writeConnection key new
    (unindexDevices userId
      ((evictionsOf removed (hgetall store key)).foldl (evict key) store) new.tenantId removed)

theorem admit_cases (declared : List String) :
    (∃ evicted, admitConnectionScript new declared userId strategy cap store =
        (admitted new userId strategy cap store, .evicted evicted) ∧
        ∀ record ∈ hvals store ⟨new.tenantId, userId⟩, existingError new record = none) ∨
    (∃ reply, admitConnectionScript new declared userId strategy cap store = (store, reply) ∧
      ∀ evicted, reply ≠ .evicted evicted) := by
  unfold admitConnectionScript
  dsimp only
  split
  · exact .inr ⟨_, rfl, by simp⟩
  · rename_i hv
    split
    · exact .inr ⟨_, rfl, by simp⟩
    · refine .inl ⟨_, rfl, ?_⟩
      intro record hm
      exact List.findSome?_eq_none_iff.mp hv record hm

theorem mem_evictionsOf
    {current : List (String × RedisConnectionRecord)} {eviction : Eviction}
    (h : eviction ∈ evictionsOf removed current) :
    (eviction.field, eviction.record) ∈ current ∧ removed.Has eviction.record.deviceId := by
  obtain ⟨⟨field, record⟩, hm, hs⟩ := List.mem_filterMap.mp h
  obtain ⟨cause, hc, rfl⟩ := Option.map_eq_some_iff.mp hs
  exact ⟨hm, by simp [RemovedDevices.Has, hc]⟩

theorem exists_eviction
    {current : List (String × RedisConnectionRecord)} {field : String}
    {record : RedisConnectionRecord} (hm : (field, record) ∈ current)
    (hg : removed.Has record.deviceId) :
    ∃ eviction ∈ evictionsOf removed current, eviction.field = field := by
  obtain ⟨cause, hc⟩ := Option.isSome_iff_exists.mp hg
  refine ⟨⟨field, record, cause⟩, List.mem_filterMap.mpr ⟨(field, record), hm, ?_⟩, rfl⟩
  simp [hc]

theorem mem_gatewayConns_admitted {gatewayId member : String} :
    member ∈ (admitted new userId strategy cap store).gatewayConns gatewayId ↔
      (gatewayId = new.gatewayId ∧ member = gatewayMember new.tenantId userId new.conversationId) ∨
      (member ∈ store.gatewayConns gatewayId ∧
        ∀ eviction ∈ evictionsOf (scriptRemoves new userId strategy cap store)
            (hgetall store ⟨new.tenantId, userId⟩),
          ¬ (gatewayId = eviction.record.gatewayId ∧
            member = gatewayMember eviction.record.tenantId userId eviction.field)) := by
  simp only [admitted, writeConnection, mem_addGatewayConn, gatewayConns_addTenantSession,
    gatewayConns_hset, gatewayConns_unindexDevices, mem_gatewayConns_evictAll]

theorem hget_admitted {key : SessionKey} {field : String} {record : RedisConnectionRecord} :
    hget (admitted new userId strategy cap store) key field = some record ↔
      (key = ⟨new.tenantId, userId⟩ ∧ field = new.conversationId ∧ record = new) ∨
      (¬ (key = ⟨new.tenantId, userId⟩ ∧ field = new.conversationId) ∧
        hget store key field = some record ∧
        (key = ⟨new.tenantId, userId⟩ →
          ¬ (scriptRemoves new userId strategy cap store).Has record.deviceId)) := by
  simp only [admitted, writeConnection, hget_addGatewayConn, hget_addTenantSession, hget_hset,
    hget_unindexDevices, hget_evictAll]
  by_cases hk : key = ⟨new.tenantId, userId⟩
  · subst hk
    by_cases hfi : field = new.conversationId
    · simp [hfi, eq_comm]
    · simp only [hfi, and_false, if_false, true_and, false_or, not_false_eq_true, false_and,
        forall_const]
      split
      · rename_i hev
        obtain ⟨eviction, hm, rfl⟩ := hev
        obtain ⟨hc, hg⟩ := mem_evictionsOf hm
        have hf := (mem_hgetall store _).mp hc
        constructor
        · simp
        · rintro ⟨hs, hst⟩
          cases (hf.symm.trans hs)
          exact absurd hg hst
      · rename_i hke
        constructor
        · intro hs
          refine ⟨hs, fun hg => hke ?_⟩
          exact exists_eviction ((mem_hgetall store _).mpr hs) hg
        · exact fun h => h.1
  · simp [hk]

end Admission

section Invariants

-- A record is stored under its own session and its own tenant.
def WellKeyed (store : Store) : Prop :=
  ∀ key field record, hget store key field = some record →
    record.conversationId = field ∧ record.tenantId = key.tenantId

-- Every session has its member in the index of its tenant and in the set of its gateway.
def Indexed (store : Store) : Prop :=
  ∀ key field record, hget store key field = some record →
    tenantSessionMember key.userId record.deviceId ∈ store.tenantSessions key.tenantId ∧
      gatewayMember key.tenantId key.userId field ∈ store.gatewayConns record.gatewayId

variable {store : Store}

theorem wellKeyed_empty : WellKeyed emptyStore := by
  intro key field record h
  simp [hget, emptyStore] at h

theorem indexed_empty : Indexed emptyStore := by
  intro key field record h
  simp [hget, emptyStore] at h

theorem WellKeyed.of_sub {next : Store} (h : WellKeyed store)
    (hs : ∀ key field record, hget next key field = some record →
      hget store key field = some record) : WellKeyed next :=
  fun key field record hr => h key field record (hs key field record hr)

theorem wellKeyed_writeConnection (h : WellKeyed store) {key : SessionKey}
    {record : RedisConnectionRecord} (ht : record.tenantId = key.tenantId) :
    WellKeyed (writeConnection key record store) := by
  intro other field found hf
  simp only [writeConnection, hget_addGatewayConn, hget_addTenantSession, hget_hset] at hf
  split at hf
  · rename_i hs
    cases hf
    exact ⟨hs.2.symm, hs.1 ▸ ht⟩
  · exact h other field found hf

theorem indexed_writeConnection (h : Indexed store) {key : SessionKey}
    {record : RedisConnectionRecord} (ht : record.tenantId = key.tenantId) :
    Indexed (writeConnection key record store) := by
  intro other field found hf
  simp only [writeConnection, hget_addGatewayConn, hget_addTenantSession, hget_hset] at hf
  simp only [writeConnection, tenantSessions_addGatewayConn, mem_addTenantSession,
    tenantSessions_hset, mem_addGatewayConn, gatewayConns_addTenantSession, gatewayConns_hset, ht]
  split at hf
  · rename_i hs
    cases hf
    obtain ⟨rfl, rfl⟩ := hs
    exact ⟨.inl ⟨rfl, rfl⟩, .inl ⟨rfl, rfl⟩⟩
  · obtain ⟨hte, hg⟩ := h other field found hf
    exact ⟨.inr hte, .inr hg⟩

theorem wellKeyed_admitted (h : WellKeyed store) (new : RedisConnectionRecord)
    (userId : String) (strategy : DeviceConflictStrategy) (cap : Nat) :
    WellKeyed (admitted new userId strategy cap store) := by
  intro key field record hr
  rcases (hget_admitted new userId strategy cap store).mp hr with
    ⟨rfl, rfl, rfl⟩ | ⟨-, hold, -⟩
  · exact ⟨rfl, rfl⟩
  · exact h key field record hold

-- A device goes with all its sessions, so no session that stays loses its member.
theorem indexed_admitted (hke : WellKeyed store) (h : Indexed store)
    (new : RedisConnectionRecord) (userId : String) (strategy : DeviceConflictStrategy)
    (cap : Nat) : Indexed (admitted new userId strategy cap store) := by
  intro key field record hr
  simp only [admitted, writeConnection, tenantSessions_addGatewayConn, mem_addTenantSession,
    tenantSessions_hset, mem_unindexDevices, tenantSessions_evictAll, mem_addGatewayConn,
    gatewayConns_addTenantSession, gatewayConns_hset, gatewayConns_unindexDevices,
    mem_gatewayConns_evictAll]
  rcases (hget_admitted new userId strategy cap store).mp hr with
    ⟨rfl, rfl, rfl⟩ | ⟨ho, hold, hst⟩
  · exact ⟨.inl ⟨rfl, rfl⟩, .inl ⟨rfl, rfl⟩⟩
  · obtain ⟨hte, hg⟩ := h key field record hold
    constructor
    · right
      refine ⟨hte, fun device hde hs => ?_⟩
      rw [tenantSessionMember_inj] at hs
      obtain ⟨ht, hu, heq⟩ := hs
      have hk : key = ⟨new.tenantId, userId⟩ := SessionKey.ext ht hu
      exact hst hk ((has_iff_mem _ _).mpr ⟨device, hde, heq.symm⟩)
    · right
      refine ⟨hg, fun eviction hev hs => ?_⟩
      obtain ⟨hc, hgo⟩ := mem_evictionsOf hev
      have hf := (mem_hgetall store _).mp hc
      rw [gatewayMember_inj] at hs
      obtain ⟨-, ht, hu, rfl⟩ := hs
      have hk : key = ⟨new.tenantId, userId⟩ :=
        SessionKey.ext (ht.trans (hke _ _ _ hf).2) hu
      subst hk
      cases (hf.symm.trans hold)
      exact hst rfl hgo

end Invariants

section Removal

variable {store : Store} {key : SessionKey} {sessionId : String}
  {records : List RedisConnectionRecord}

theorem hget_unindexIfLast (userId : String) (removed : RedisConnectionRecord)
    (other : SessionKey) (field : String) :
    hget (unindexIfLast userId records removed store) other field = hget store other field := by
  unfold unindexIfLast
  split <;> rfl

theorem hget_removeConnection (other : SessionKey) (field : String) :
    hget (removeConnection key sessionId records store) other field =
      if other = key ∧ field = sessionId then none else hget store other field := by
  unfold removeConnection
  split
  · exact hget_hdel store key other sessionId field
  · rw [hget_removeGatewayConn, hget_unindexIfLast, hget_hdel]

-- The record the transaction unindexes: the one it read for its session, when no other record
-- it read has the same device.
def Unindexes (sessionId : String) (records : List RedisConnectionRecord)
    (removed : RedisConnectionRecord) : Prop :=
  records.find? (fun record => record.conversationId == sessionId) = some removed ∧
    ∀ record ∈ records, record.deviceId = removed.deviceId →
      record.conversationId = removed.conversationId

theorem mem_tenantSessions_removeConnection (key : SessionKey) (sessionId : String)
    (records : List RedisConnectionRecord) {tenantId member : String}
    (h : member ∈ store.tenantSessions tenantId) :
    member ∈ (removeConnection key sessionId records store).tenantSessions tenantId ∨
      ∃ removed, Unindexes sessionId records removed ∧ tenantId = removed.tenantId ∧
        member = tenantSessionMember key.userId removed.deviceId := by
  unfold removeConnection
  split
  · exact .inl h
  · rename_i removed hf
    simp only [tenantSessions_removeGatewayConn, unindexIfLast]
    split
    · exact .inl h
    · rename_i hl
      by_cases hs : tenantId = removed.tenantId ∧
          member = tenantSessionMember key.userId removed.deviceId
      · refine .inr ⟨removed, ⟨hf, fun record hm hde => ?_⟩, hs⟩
        by_contra hne
        exact hl (any_eq_true.mpr ⟨record, hm, by simp [hde, hne]⟩)
      · exact .inl ((mem_removeTenantSession _ _ _).mpr ⟨hs, h⟩)

theorem mem_gatewayConns_removeConnection {gatewayId member : String}
    (h : member ∈ store.gatewayConns gatewayId)
    (ho : member ≠ gatewayMember key.tenantId key.userId sessionId) :
    member ∈ (removeConnection key sessionId records store).gatewayConns gatewayId := by
  have hu : ∀ removed before, (unindexIfLast key.userId records removed before).gatewayConns =
      before.gatewayConns := by
    intro removed before
    unfold unindexIfLast
    split <;> rfl
  unfold removeConnection
  split
  · exact h
  · rw [mem_removeGatewayConn, hu]
    exact ⟨fun hs => ho hs.2, h⟩

theorem mem_gatewayConns_of_removeConnection {gatewayId member : String}
    (h : member ∈ (removeConnection key sessionId records store).gatewayConns gatewayId) :
    member ∈ store.gatewayConns gatewayId := by
  unfold removeConnection at h
  split at h
  · exact h
  · rw [mem_removeGatewayConn] at h
    have hm := h.2
    unfold unindexIfLast at hm
    split at hm <;> exact hm

theorem indexed_removeConnection (h : Indexed store)
    (htn : ∀ record ∈ records, record.tenantId = key.tenantId)
    (hf : ∀ removed, Unindexes sessionId records removed → ∀ field record,
      hget store key field = some record → record.deviceId = removed.deviceId → field = sessionId) :
    Indexed (removeConnection key sessionId records store) := by
  intro other field record hr
  rw [hget_removeConnection] at hr
  split at hr
  · cases hr
  · rename_i hst
    obtain ⟨hte, hg⟩ := h other field record hr
    constructor
    · rcases mem_tenantSessions_removeConnection key sessionId records hte with
        hke | ⟨removed, hun, ht, hs⟩
      · exact hke
      · rw [tenantSessionMember_inj] at hs
        obtain ⟨hu, hde⟩ := hs
        have hre := htn removed (List.mem_of_find?_eq_some hun.1)
        have hk : other = key := SessionKey.ext (ht.trans hre) hu
        subst hk
        exact absurd ⟨rfl, hf removed hun field record hr hde⟩ hst
    · apply mem_gatewayConns_removeConnection hg
      intro hs
      rw [gatewayMember_inj] at hs
      obtain ⟨ht, hu, rfl⟩ := hs
      exact hst ⟨SessionKey.ext ht hu, rfl⟩

-- The kick script removes the session it was given, if it still is that physical connection,
-- or changes nothing.
theorem kick_cases (key : SessionKey) (sessionId : String) (target : RedisConnectionRecord)
    (store : Store) :
    (∃ record, hget store key sessionId = some record ∧
      record.connectionId = target.connectionId ∧ record.tenantId = key.tenantId ∧
      record.connectionId ≠ "" ∧
      (removeForKickScript key sessionId target store).2 = .removed record.connectionId ∧
      (removeForKickScript key sessionId target store).1 = removeGatewayConn
          (if (hvals store key).any fun other =>
              other.conversationId != record.conversationId && other.deviceId == record.deviceId
            then hdel store key sessionId
            else removeTenantSession (hdel store key sessionId) key.tenantId
              (tenantSessionMember key.userId record.deviceId))
          target.gatewayId (gatewayMember key.tenantId key.userId sessionId)) ∨
    ((removeForKickScript key sessionId target store).1 = store ∧
      (∀ connectionId, (removeForKickScript key sessionId target store).2 ≠ .removed connectionId) ∧
      ((removeForKickScript key sessionId target store).2 = .absent →
        ∀ record, hget store key sessionId = some record →
          record.connectionId ≠ target.connectionId)) := by
  unfold removeForKickScript
  cases hf : hget store key sessionId with
  | none => simp
  | some record =>
    by_cases hin : record.tenantId ≠ key.tenantId ∨ record.connectionId = ""
    · simp [hin]
    · by_cases hp : record.connectionId = target.connectionId
      · left
        push Not at hin
        refine ⟨record, rfl, hp, hin.1, hin.2, ?_, ?_⟩
        · simp [hin.1, hp, hp ▸ hin.2]
        · simp [hin.1, hp, hp ▸ hin.2]
      · right
        simp [hin, hp]

theorem hget_removeForKick (target : RedisConnectionRecord) (other : SessionKey) (field : String) :
    hget (removeForKickScript key sessionId target store).1 other field = none ∨
      hget (removeForKickScript key sessionId target store).1 other field =
        hget store other field := by
  rcases kick_cases key sessionId target store with
    ⟨record, -, -, -, -, -, hn⟩ | ⟨hn, -⟩
  · have hem : hget (removeForKickScript key sessionId target store).1 other field =
        hget (hdel store key sessionId) other field := by
      rw [hn, hget_removeGatewayConn]
      split <;> rfl
    rw [hem, hget_hdel]
    split
    · exact .inl rfl
    · exact .inr rfl
  · exact .inr (by rw [hn])

theorem indexed_removeForKick (hke : WellKeyed store) (h : Indexed store)
    (target : RedisConnectionRecord) :
    Indexed (removeForKickScript key sessionId target store).1 := by
  rcases kick_cases key sessionId target store with
    ⟨kicked, hkc, -, -, -, -, hn⟩ | ⟨hn, -⟩
  · rw [hn]
    intro other field record hr
    have hf : hget (hdel store key sessionId) other field = some record := by
      rw [hget_removeGatewayConn] at hr
      split at hr <;> exact hr
    rw [hget_hdel] at hf
    split at hf
    · cases hf
    · rename_i hst
      obtain ⟨hte, hg⟩ := h other field record hf
      constructor
      · rw [tenantSessions_removeGatewayConn]
        split
        · exact hte
        · rename_i hl
          rw [mem_removeTenantSession]
          refine ⟨fun hs => hl ?_, hte⟩
          rw [tenantSessionMember_inj] at hs
          obtain ⟨ht, hu, hde⟩ := hs
          have hk : other = key := SessionKey.ext ht hu
          subst hk
          refine any_eq_true.mpr ⟨record, (mem_hvals store other).mpr ⟨field, hf⟩, ?_⟩
          have hfi := (hke other field record hf).1
          have hki := (hke other sessionId kicked hkc).1
          have hne : field ≠ sessionId := fun heq => hst ⟨rfl, heq⟩
          simp [hde, hfi, hki, hne]
      · rw [mem_removeGatewayConn]
        refine ⟨fun hs => ?_, ?_⟩
        · obtain ⟨-, hm⟩ := hs
          rw [gatewayMember_inj] at hm
          obtain ⟨ht, hu, rfl⟩ := hm
          exact hst ⟨SessionKey.ext ht hu, rfl⟩
        · split <;> exact hg
  · rw [hn]
    exact h

theorem hget_unindexRecords (other : SessionKey) (field : String) :
    hget (records.foldl (unindexRecord key) store) other field = hget store other field := by
  induction records generalizing store with
  | nil => rfl
  | cons record rest ih =>
    rw [foldl_cons, ih]
    rfl

-- The selected records of `remove_user_connections`, taken out one by one.
def removeRecords (key : SessionKey) (records : List RedisConnectionRecord) (store : Store) :
    Store :=
  records.foldl
    (fun store record => unindexRecord key (hdel store key record.conversationId) record) store

theorem hget_removeRecords (other : SessionKey) (field : String) :
    hget (removeRecords key records store) other field =
      if other = key ∧ ∃ record ∈ records, record.conversationId = field then none
      else hget store other field := by
  unfold removeRecords
  induction records generalizing store with
  | nil => simp
  | cons record rest ih =>
    rw [foldl_cons, ih]
    simp only [unindexRecord, hget_removeGatewayConn, hget_removeTenantSession, hget_hdel]
    by_cases hk : other = key
    · by_cases hf : field = record.conversationId
      · simp [hk, hf]
      · simp [hk, hf, Ne.symm hf]
    · simp [hk]

theorem mem_tenantSessions_removeRecords {tenantId member : String} :
    member ∈ (removeRecords key records store).tenantSessions tenantId ↔
      member ∈ store.tenantSessions tenantId ∧ ∀ record ∈ records,
        ¬ (tenantId = record.tenantId ∧
          member = tenantSessionMember key.userId record.deviceId) := by
  unfold removeRecords
  induction records generalizing store with
  | nil => simp
  | cons record rest ih =>
    rw [foldl_cons, ih]
    simp only [unindexRecord, tenantSessions_removeGatewayConn, mem_removeTenantSession,
      tenantSessions_hdel, forall_mem_cons]
    tauto

theorem mem_gatewayConns_removeRecords {gatewayId member : String} :
    member ∈ (removeRecords key records store).gatewayConns gatewayId ↔
      member ∈ store.gatewayConns gatewayId ∧ ∀ record ∈ records,
        ¬ (gatewayId = record.gatewayId ∧
          member = gatewayMember key.tenantId key.userId record.conversationId) := by
  unfold removeRecords
  induction records generalizing store with
  | nil => simp
  | cons record rest ih =>
    rw [foldl_cons, ih]
    simp only [unindexRecord, mem_removeGatewayConn, gatewayConns_removeTenantSession,
      gatewayConns_hdel, forall_mem_cons]
    tauto

theorem indexed_removeRecords (h : Indexed store)
    (htn : ∀ record ∈ records, record.tenantId = key.tenantId)
    (hf : ∀ removed ∈ records, ∀ field record, hget store key field = some record →
      record.deviceId = removed.deviceId → ∃ known ∈ records, known.conversationId = field) :
    Indexed (removeRecords key records store) := by
  intro other field record hr
  rw [hget_removeRecords] at hr
  split at hr
  · cases hr
  · rename_i hst
    obtain ⟨hte, hg⟩ := h other field record hr
    constructor
    · rw [mem_tenantSessions_removeRecords]
      refine ⟨hte, fun removed hre hs => ?_⟩
      rw [tenantSessionMember_inj] at hs
      obtain ⟨ht, hu, hde⟩ := hs
      have hk : other = key := SessionKey.ext (ht.trans (htn removed hre)) hu
      subst hk
      exact hst ⟨rfl, hf removed hre field record hr hde⟩
    · rw [mem_gatewayConns_removeRecords]
      refine ⟨hg, fun removed hre hs => ?_⟩
      rw [gatewayMember_inj] at hs
      obtain ⟨-, ht, hu, rfl⟩ := hs
      exact hst ⟨SessionKey.ext ht hu, removed, hre, rfl⟩

theorem mem_tenantSessions_unindexRecords {tenantId member : String} :
    member ∈ (records.foldl (unindexRecord key) store).tenantSessions tenantId ↔
      member ∈ store.tenantSessions tenantId ∧ ∀ record ∈ records,
        ¬ (tenantId = record.tenantId ∧
          member = tenantSessionMember key.userId record.deviceId) := by
  induction records generalizing store with
  | nil => simp
  | cons record rest ih =>
    rw [foldl_cons, ih]
    simp only [unindexRecord, tenantSessions_removeGatewayConn, mem_removeTenantSession,
      forall_mem_cons]
    tauto

theorem mem_gatewayConns_unindexRecords {gatewayId member : String} :
    member ∈ (records.foldl (unindexRecord key) store).gatewayConns gatewayId ↔
      member ∈ store.gatewayConns gatewayId ∧ ∀ record ∈ records,
        ¬ (gatewayId = record.gatewayId ∧
          member = gatewayMember key.tenantId key.userId record.conversationId) := by
  induction records generalizing store with
  | nil => simp
  | cons record rest ih =>
    rw [foldl_cons, ih]
    simp only [unindexRecord, mem_removeGatewayConn, gatewayConns_removeTenantSession,
      forall_mem_cons]
    tauto

-- The whole hash goes, so nothing is left to find.
theorem indexed_removeAll (h : Indexed store)
    (htn : ∀ record ∈ records, record.tenantId = key.tenantId) :
    Indexed (records.foldl (unindexRecord key) (del store key)) := by
  intro other field record hr
  rw [hget_unindexRecords, hget_del] at hr
  split at hr
  · cases hr
  · rename_i ho
    obtain ⟨hte, hg⟩ := h other field record hr
    constructor
    · rw [mem_tenantSessions_unindexRecords]
      refine ⟨hte, fun removed hre hs => ?_⟩
      rw [tenantSessionMember_inj] at hs
      obtain ⟨ht, hu, -⟩ := hs
      exact ho (SessionKey.ext (ht.trans (htn removed hre)) hu)
    · rw [mem_gatewayConns_unindexRecords]
      refine ⟨hg, fun removed hre hs => ?_⟩
      rw [gatewayMember_inj] at hs
      obtain ⟨-, ht, hu, -⟩ := hs
      exact ho (SessionKey.ext ht hu)

end Removal

end FlareIm.SessionStore
