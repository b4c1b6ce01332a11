import FlareIm.UsageReporter

namespace FlareIm.UsageReporter

open Tally

section Contract

def valuesOf (increments : List Increment) (tenant : String) (counter : Counter) : List UInt64 :=
  (increments.filter fun increment =>
    increment.tenant = tenant ∧ increment.counter = counter).map (·.value)

-- What the increments of a series come to, as far as a u64 holds it.
def countedOf (increments : List Increment) (tenant : String) (counter : Counter) : Nat :=
  min ((valuesOf increments tenant counter).map (·.toNat)).sum U64_MAX

def readingsOf (increments : List Increment) (tenant : String) (counter : Counter) :
    List MeterReading :=
  if valuesOf increments tenant counter = [] then []
  else [counter.reading (countedOf increments tenant counter)]

def hashesOf (queued : List ActiveUser) (tenant : String) (day : Nat) : List UInt64 :=
  (queued.filter fun user => user.tenant = tenant ∧ user.day = day).map (·.hash)

def ClosedWindow.metersOf (window : ClosedWindow) (tenant : String) : List MeterReading :=
  (window.events.filter (·.app = tenant)).flatMap (·.meters)

def ClosedWindow.usersOf (window : ClosedWindow) (tenant : String) (day : Nat) : List UInt64 :=
  ((window.events.filter (·.app = tenant)).filterMap (·.activeUsers)).flatMap fun entry =>
    if entry.day = day then entry.userHashes else []

-- All the events of a window together carry each series once, with what its increments come to,
-- and the users queued for each day as often as they were queued.
structure ClosedWindow.Conserves (window : ClosedWindow) : Prop where
  counted : ∀ tenant counter, (window.metersOf tenant).filter (·.isOf counter) =
    readingsOf window.increments tenant counter
  reported : ∀ tenant day, window.usersOf tenant day = hashesOf window.queued tenant day

-- The window in progress holds the same, and its size counters are right.
structure WindowState.Holds (window : WindowState) (increments : List Increment)
    (queued : List ActiveUser) : Prop where
  tenants_nodup : (window.counters.map (·.1)).Nodup
  series_nodup : ∀ tenant, ((valueAt tenant [] window.counters).map (·.1)).Nodup
  value_eq : ∀ tenant counter, valueAt counter 0 (valueAt tenant [] window.counters) =
    countedOf increments tenant counter
  mem_series : ∀ tenant counter, counter ∈ (valueAt tenant [] window.counters).map (·.1) ↔
    valuesOf increments tenant counter ≠ []
  active_nodup : (window.active.map (·.1)).Nodup
  days_nodup : ∀ tenant, ((valueAt tenant noUsers window.active).pending.map (·.1)).Nodup
  pending_eq : ∀ tenant day, valueAt day [] (valueAt tenant noUsers window.active).pending =
    hashesOf queued tenant day
  counterSeries_eq : window.counterSeries = total List.length window.counters
  activeSeen_eq : window.activeSeen = total (·.seen.length) window.active
  activePending_eq : window.activePending = total pendingSize window.active

end Contract

section Events

variable {windowStartMs : Int} {app : String} {window : TenantWindow}

def noWindow : TenantWindow := ⟨[], []⟩

theorem tenantEvents_noWindow : tenantEvents windowStartMs app noWindow = [] := rfl

theorem tenantEvents_app {event : UsageEvent} (h : event ∈ tenantEvents windowStartMs app window) :
    event.app = app ∧ event.windowStartMs = windowStartMs := by
  unfold tenantEvents at h
  split at h
  · rcases List.mem_cons.mp h with rfl | hr
    · exact ⟨rfl, rfl⟩
    · obtain ⟨index, hin, rfl⟩ := List.mem_mapIdx.mp hr
      exact ⟨rfl, rfl⟩
  · exact absurd h List.not_mem_nil

theorem getElem?_part {event : UsageEvent} (h : event ∈ tenantEvents windowStartMs app window) :
    (tenantEvents windowStartMs app window)[event.part]? = some event := by
  unfold tenantEvents at h ⊢
  split at h
  · rename_i ha
    rw [if_pos ha]
    rcases List.mem_cons.mp h with rfl | hr
    · rfl
    · obtain ⟨index, hin, rfl⟩ := List.mem_mapIdx.mp hr
      rw [List.getElem?_cons_succ, List.getElem?_mapIdx, List.getElem?_eq_getElem hin]
      rfl
  · exact absurd h List.not_mem_nil

theorem flatMap_meters :
    (tenantEvents windowStartMs app window).flatMap (·.meters) = window.meters := by
  unfold tenantEvents
  split
  · rw [List.flatMap_cons]
    have hr : ((batches window).tail.mapIdx fun index batch =>
        (⟨app, windowStartMs, index + 1, [], some batch⟩ : UsageEvent)).flatMap (·.meters) = [] := by
      rw [List.flatMap_eq_nil_iff]
      intro event hm
      obtain ⟨index, hin, rfl⟩ := List.mem_mapIdx.mp hm
      rfl
    rw [hr, List.append_nil]
  · rename_i hn
    exact (not_not.mp (not_or.mp hn).1).symm

theorem filterMap_mapIdx {make : Nat → ActiveUsersEntry → UsageEvent}
    (hm : ∀ index batch, (make index batch).activeUsers = some batch)
    (list : List ActiveUsersEntry) : (list.mapIdx make).filterMap (·.activeUsers) = list := by
  induction list generalizing make with
  | nil => rfl
  | cons batch rest ih =>
    rw [List.mapIdx_cons, List.filterMap_cons, hm]
    simp only
    rw [ih fun index batch => hm (index + 1) batch]

theorem filterMap_activeUsers :
    (tenantEvents windowStartMs app window).filterMap (·.activeUsers) = batches window := by
  unfold tenantEvents
  split
  · have hr := filterMap_mapIdx
      (fun index batch => (rfl : (⟨app, windowStartMs, index + 1, [], some batch⟩ :
        UsageEvent).activeUsers = some batch)) (batches window).tail
    cases hb : batches window with
    | nil => simp
    | cons batch rest =>
      rw [hb] at hr
      rw [List.filterMap_cons]
      simp only [List.head?_cons]
      rw [hr, List.tail_cons]
  · rename_i hn
    exact (not_not.mp (not_or.mp hn).2).symm

theorem flatMap_batches (day : Nat) :
    ((batches window).flatMap fun entry => if entry.day = day then entry.userHashes else []) =
      window.activeUsers.flatMap fun entry => if entry.1 = day then entry.2 else [] := by
  unfold batches
  rw [List.flatMap_assoc]
  apply List.flatMap_congr
  intro entry _
  rw [List.flatMap_map]
  split
  · change (entry.2.toChunks MAX_USER_HASHES_PER_EVENT).flatMap id = entry.2
    rw [List.flatMap_id]
    exact Listing.toChunks_flatten _ _
  · simp

theorem filter_app {entries : List (String × TenantWindow)} (tenant : String)
    (hn : (entries.map (·.1)).Nodup) :
    (entries.flatMap fun entry => tenantEvents windowStartMs entry.1 entry.2).filter
      (·.app = tenant) = tenantEvents windowStartMs tenant (valueAt tenant noWindow entries) := by
  induction entries with
  | nil => rfl
  | cons entry rest ih =>
    obtain ⟨hh, hr⟩ := List.nodup_cons.mp hn
    rw [List.flatMap_cons, List.filter_append, ih hr]
    by_cases heq : entry.1 = tenant
    · subst heq
      rw [List.filter_eq_self.mpr fun event hm => by simp [(tenantEvents_app hm).1],
        valueAt_of_not_mem hh, tenantEvents_noWindow, List.append_nil]
      simp [valueAt]
    · rw [List.filter_eq_nil_iff.mpr fun event hm => by
        simp [(tenantEvents_app hm).1, heq]]
      simp [valueAt, heq]

end Events

section Readings

theorem isOf_reading {counter other : Counter} {value : Nat} :
    (other.reading value).isOf counter = decide (other = counter) := by
  cases counter <;> cases other <;>
    simp [MeterReading.isOf, Counter.reading, Counter.meter, Counter.dims]

theorem isOf_connection {reading : MeterReading} {connection : ConnectionReading}
    (h : reading ∈ connection.meters) (counter : Counter) : reading.isOf counter = false := by
  unfold ConnectionReading.meters at h
  rcases List.mem_append.mp h with hp | hm
  · split at hp
    · rw [List.mem_singleton.mp hp]
      cases counter <;> simp [MeterReading.isOf, Counter.meter, CONNECTIONS_PEAK]
    · exact absurd hp List.not_mem_nil
  · split at hm
    · rw [List.mem_singleton.mp hm]
      cases counter <;> simp [MeterReading.isOf, Counter.meter, CONNECTION_MINUTES]
    · exact absurd hm List.not_mem_nil

theorem filter_meterReadings {series : List (Counter × Nat)} (counter : Counter)
    (hn : (series.map (·.1)).Nodup) : (meterReadings series).filter (·.isOf counter) =
      if counter ∈ series.map (·.1) then [counter.reading (valueAt counter 0 series)] else [] := by
  unfold meterReadings
  have hp : (series.insertionSort fun a b => a.1.le b.1 = true).Perm series :=
    List.perm_insertionSort _ _
  have hs := (hp.map (·.1)).nodup_iff.mpr hn
  have hof : ∀ entry : Counter × Nat, (entry.1.reading entry.2).isOf counter =
      decide (entry.1 = counter) := fun _ => isOf_reading
  rw [List.filter_map]
  have hf := @filter_fst_eq _ _ _ counter 0 _ hs
  simp only [Function.comp_def, hof]
  rw [hf, valueAt_perm hp.symm hn]
  simp only [(hp.map (·.1)).mem_iff]
  split <;> rfl

end Readings

end FlareIm.UsageReporter
