import FlareIm.UsageReporter.Windows

namespace FlareIm.UsageReporter

open Tally
open List (length length_map map_map mem_map nodup_nil)

section Counting

variable {window : WindowState} {increments : List Increment} {queued : List ActiveUser}

theorem holds_empty : emptyWindow.Holds [] [] where
  tenants_nodup := nodup_nil
  series_nodup _ := nodup_nil
  value_eq _ _ := rfl
  mem_series tenant counter := by simp [emptyWindow, valueAt, valuesOf]
  active_nodup := nodup_nil
  days_nodup _ := nodup_nil
  pending_eq _ _ := rfl
  counterSeries_eq := rfl
  activeSeen_eq := rfl
  activePending_eq := rfl

theorem valuesOf_append_self (tenant : String) (counter : Counter) (value : UInt64) :
    valuesOf (increments ++ [⟨tenant, counter, value⟩]) tenant counter =
      valuesOf increments tenant counter ++ [value] := by
  simp [valuesOf]

theorem valuesOf_append_of_ne {tenant other : String} {counter counter' : Counter}
    (h : ¬(other = tenant ∧ counter' = counter)) (value : UInt64) :
    valuesOf (increments ++ [⟨other, counter', value⟩]) tenant counter =
      valuesOf increments tenant counter := by
  simp [valuesOf, h]

theorem countedOf_append (tenant : String) (counter : Counter) (value : UInt64) :
    countedOf (increments ++ [⟨tenant, counter, value⟩]) tenant counter =
      saturatingAdd (countedOf increments tenant counter) value := by
  unfold countedOf saturatingAdd
  rw [valuesOf_append_self, List.map_append, List.sum_append]
  simp only [List.map_cons, List.map_nil, List.sum_cons, List.sum_nil]
  omega

theorem holds_counted (h : window.Holds increments queued) (tenant : String) (counter : Counter)
    (value : UInt64) {series : Nat}
    (hse : series = if counter ∈ (valueAt tenant [] window.counters).map (·.1)
      then window.counterSeries else window.counterSeries + 1) :
    ({ window with
      counters := modify tenant [] (modify counter 0 (saturatingAdd · value)) window.counters
      counterSeries := series } : WindowState).Holds
        (increments ++ [⟨tenant, counter, value⟩]) queued where
  tenants_nodup := nodup_modify h.tenants_nodup
  series_nodup other := by
    by_cases heq : other = tenant
    · subst heq
      rw [valueAt_modify_self]
      exact nodup_modify (h.series_nodup other)
    · rw [valueAt_modify_of_ne heq]
      exact h.series_nodup other
  value_eq other counter' := by
    by_cases heq : other = tenant
    · subst heq
      rw [valueAt_modify_self]
      by_cases hs : counter' = counter
      · subst hs
        rw [valueAt_modify_self, h.value_eq, countedOf_append]
      · rw [valueAt_modify_of_ne hs, h.value_eq]
        unfold countedOf
        rw [valuesOf_append_of_ne fun hb => hs hb.2.symm]
    · rw [valueAt_modify_of_ne heq, h.value_eq]
      unfold countedOf
      rw [valuesOf_append_of_ne fun hb => heq hb.1.symm]
  mem_series other counter' := by
    by_cases heq : other = tenant
    · subst heq
      rw [valueAt_modify_self, mem_map_fst_modify, h.mem_series]
      by_cases hs : counter' = counter
      · subst hs
        simp [valuesOf_append_self]
      · rw [valuesOf_append_of_ne fun hb => hs hb.2.symm]
        exact or_iff_right hs
    · rw [valueAt_modify_of_ne heq, h.mem_series, valuesOf_append_of_ne fun hb => heq hb.1.symm]
  active_nodup := h.active_nodup
  days_nodup := h.days_nodup
  pending_eq := h.pending_eq
  counterSeries_eq := by
    have ht := @total_modify _ _ _ tenant [] (modify counter 0 (saturatingAdd · value))
      window.counters length rfl
    have hl : ((valueAt tenant [] window.counters).map (·.1)).length =
        (valueAt tenant [] window.counters).length := length_map _
    have hc := h.counterSeries_eq
    by_cases hm : counter ∈ (valueAt tenant [] window.counters).map (·.1)
    · have hk := congrArg length (@map_fst_modify _ _ _ counter 0 (saturatingAdd · value) _ hm)
      rw [length_map, length_map] at hk
      rw [if_pos hm] at hse
      simp only
      omega
    · have hk := congrArg length
        (@map_fst_modify_of_not_mem _ _ _ counter 0 (saturatingAdd · value) _ hm)
      rw [length_map, List.length_append, length_map] at hk
      rw [if_neg hm] at hse
      simp only [List.length_singleton] at hk ⊢
      omega
  activeSeen_eq := h.activeSeen_eq
  activePending_eq := h.activePending_eq

theorem holds_add (h : window.Holds increments queued) (tenant : String) (limits : UsageLimits)
    (counter : Counter) (value : UInt64) : (window.add tenant limits counter value).1.Holds
      (if (window.add tenant limits counter value).2 then increments ++ [⟨tenant, counter, value⟩]
        else increments) queued := by
  unfold WindowState.add
  simp only
  split
  · rename_i hm
    exact holds_counted h tenant counter value (if_pos hm).symm
  · rename_i hm
    split
    · exact h
    · exact holds_counted h tenant counter value (if_neg hm).symm

end Counting

section Users

variable {window : WindowState} {increments : List Increment} {queued : List ActiveUser}
  {tenant : String}

theorem hashesOf_append_self (tenant : String) (day : Nat) (hash : UInt64) :
    hashesOf (queued ++ [⟨tenant, day, hash⟩]) tenant day = hashesOf queued tenant day ++ [hash] := by
  simp [hashesOf]

theorem hashesOf_append_of_ne {other : String} {day day' : Nat}
    (h : ¬(other = tenant ∧ day' = day)) (hash : UInt64) :
    hashesOf (queued ++ [⟨other, day', hash⟩]) tenant day = hashesOf queued tenant day := by
  simp [hashesOf, h]

theorem holds_seen (h : window.Holds increments queued) (tenant : String)
    {change : ActiveUsers → ActiveUsers} (hp : ∀ users, (change users).pending = users.pending)
    {seen : Nat} (hs : seen + (valueAt tenant noUsers window.active).seen.length =
      window.activeSeen + (change (valueAt tenant noUsers window.active)).seen.length) :
    ({ window with
      active := modify tenant noUsers change window.active
      activeSeen := seen } : WindowState).Holds increments queued where
  tenants_nodup := h.tenants_nodup
  series_nodup := h.series_nodup
  value_eq := h.value_eq
  mem_series := h.mem_series
  active_nodup := nodup_modify h.active_nodup
  days_nodup other := by
    by_cases heq : other = tenant
    · subst heq
      rw [valueAt_modify_self, hp]
      exact h.days_nodup other
    · rw [valueAt_modify_of_ne heq]
      exact h.days_nodup other
  pending_eq other day := by
    by_cases heq : other = tenant
    · subst heq
      rw [valueAt_modify_self, hp]
      exact h.pending_eq other day
    · rw [valueAt_modify_of_ne heq]
      exact h.pending_eq other day
  counterSeries_eq := h.counterSeries_eq
  activeSeen_eq := by
    have ht := @total_modify _ _ _ tenant noUsers change window.active (·.seen.length) rfl
    have hb := h.activeSeen_eq
    simp only at ht ⊢
    omega
  activePending_eq := by
    have ht := @total_modify _ _ _ tenant noUsers change window.active pendingSize rfl
    have hsa : pendingSize (change (valueAt tenant noUsers window.active)) =
        pendingSize (valueAt tenant noUsers window.active) := by
      unfold pendingSize
      rw [hp]
    have hb := h.activePending_eq
    simp only
    omega

theorem seen_le (h : window.Holds increments queued) (tenant : String) :
    (valueAt tenant noUsers window.active).seen.length ≤ window.activeSeen := by
  rw [h.activeSeen_eq]
  exact @size_le_total _ _ _ tenant noUsers window.active (·.seen.length) rfl

theorem holds_turnDay (h : window.Holds increments queued) (tenant : String) (day : Nat) :
    (window.turnDay tenant day).Holds increments queued := by
  unfold WindowState.turnDay
  simp only
  split
  · have hle := seen_le h tenant
    refine @holds_seen _ _ _ h tenant (fun users => { users with day := day, seen := [] })
      (fun _ => rfl) _ ?_
    simp only [List.length_nil]
    omega
  · exact @holds_seen _ _ _ h tenant id (fun _ => rfl) window.activeSeen rfl

theorem pendingSize_push (users : ActiveUsers) (day : Nat) (hash : UInt64) (remembered : Bool) :
    pendingSize (users.push day hash remembered) = pendingSize users + 1 := by
  have ht := @total_modify _ _ _ day [] (· ++ [hash]) users.pending length rfl
  simp only [List.length_append, List.length_singleton] at ht
  unfold pendingSize ActiveUsers.push
  simp only
  omega

theorem holds_queue (h : window.Holds increments queued) (tenant : String) (limits : UsageLimits)
    (day : Nat) (hash : UInt64) : (window.queue tenant limits day hash).Holds increments
      (queued ++ [⟨tenant, day, hash⟩]) where
  tenants_nodup := h.tenants_nodup
  series_nodup := h.series_nodup
  value_eq := h.value_eq
  mem_series := h.mem_series
  active_nodup := nodup_modify h.active_nodup
  days_nodup other := by
    simp only [WindowState.queue]
    by_cases heq : other = tenant
    · subst heq
      rw [valueAt_modify_self]
      exact nodup_modify (h.days_nodup other)
    · rw [valueAt_modify_of_ne heq]
      exact h.days_nodup other
  pending_eq other day' := by
    simp only [WindowState.queue]
    by_cases heq : other = tenant
    · subst heq
      rw [valueAt_modify_self]
      by_cases hs : day' = day
      · subst hs
        rw [hashesOf_append_self, ← h.pending_eq]
        exact valueAt_modify_self
      · rw [hashesOf_append_of_ne fun hbo => hs hbo.2.symm, ← h.pending_eq]
        exact valueAt_modify_of_ne hs _
    · rw [valueAt_modify_of_ne heq, hashesOf_append_of_ne fun hbo => heq hbo.1.symm]
      exact h.pending_eq other day'
  counterSeries_eq := h.counterSeries_eq
  activeSeen_eq := by
    simp only [WindowState.queue]
    have ht := @total_modify _ _ _ tenant noUsers
      (fun users => users.push day hash (window.remembers tenant limits day)) window.active
      (·.seen.length) rfl
    have hb := h.activeSeen_eq
    cases hr : window.remembers tenant limits day with
    | true =>
      have hse : ((valueAt tenant noUsers window.active).push day hash true).seen.length =
        (valueAt tenant noUsers window.active).seen.length + 1 := rfl
      simp only [hr, if_true] at ht ⊢
      omega
    | false =>
      have hse : ((valueAt tenant noUsers window.active).push day hash false).seen.length =
        (valueAt tenant noUsers window.active).seen.length := rfl
      simp only [hr, Bool.false_eq_true, if_false] at ht ⊢
      omega
  activePending_eq := by
    have ht := @total_modify _ _ _ tenant noUsers
      (fun users => users.push day hash (window.remembers tenant limits day)) window.active
      pendingSize rfl
    have hb := h.activePending_eq
    rw [pendingSize_push] at ht
    simp only [WindowState.queue]
    omega

end Users

section Taking

variable {window : WindowState} {increments : List Increment} {queued : List ActiveUser}
  (connections : List ConnectionReading)

theorem tenantWindow_of_not_mem {tenant : String} (h : tenant ∉ window.tenants connections) :
    window.tenantWindow tenant connections = noWindow := by
  unfold WindowState.tenants at h
  rw [Listing.mem_distinct, List.mem_append, List.mem_append, not_or, not_or] at h
  obtain ⟨⟨hco, hc⟩, ha⟩ := h
  have hn : connections.filter (·.tenant = tenant) = [] := by
    rw [List.filter_eq_nil_iff]
    intro connection hm ht
    exact hc (mem_map.mpr ⟨connection, hm, by simpa using ht⟩)
  simp only [WindowState.tenantWindow, valueAt_of_not_mem hco, valueAt_of_not_mem ha, hn]
  simp [meterReadings, noUsers, noWindow]

theorem eq_noWindow {window : TenantWindow} (h : window.isEmpty = true) : window = noWindow := by
  obtain ⟨meters, users⟩ := window
  simp only [TenantWindow.isEmpty, Bool.and_eq_true, List.isEmpty_iff] at h
  obtain ⟨rfl, rfl⟩ := h
  rfl

variable (today : Nat)

theorem nodup_taken : ((window.takeWindow connections today).2.map (·.1)).Nodup := by
  have hk : ((window.tenants connections).map fun tenant =>
      (tenant, window.tenantWindow tenant connections)).map (·.1) =
      window.tenants connections := by
    simp [map_map, Function.comp_def]
  have hs : ((window.takeWindow connections today).2.map (·.1)).Sublist
      (window.tenants connections) := by
    have h := (List.filter_sublist (p := fun entry : String × TenantWindow => !entry.2.isEmpty)
      (l := (window.tenants connections).map fun tenant =>
        (tenant, window.tenantWindow tenant connections))).map (·.1)
    rw [hk] at h
    exact h
  exact (Listing.nodup_distinct _).sublist hs

theorem valueAt_taken (tenant : String) :
    valueAt tenant noWindow (window.takeWindow connections today).2 =
      window.tenantWindow tenant connections := by
  cases hem : (window.tenantWindow tenant connections).isEmpty with
  | true =>
    rw [eq_noWindow hem]
    apply valueAt_of_not_mem
    intro hm
    obtain ⟨entry, hen, hf⟩ := mem_map.mp hm
    obtain ⟨hma, hn⟩ := List.mem_filter.mp hen
    obtain ⟨other, ho, rfl⟩ := mem_map.mp hma
    simp only at hf hn
    rw [hf, hem] at hn
    cases hn
  | false =>
    have hm : tenant ∈ window.tenants connections := by
      by_contra hno
      rw [tenantWindow_of_not_mem connections hno] at hem
      exact absurd hem (by decide)
    apply valueAt_of_mem (nodup_taken connections today)
    exact List.mem_filter.mpr ⟨mem_map.mpr ⟨tenant, hm, rfl⟩, by simp [hem]⟩

theorem conserves_taken (h : window.Holds increments queued) (label : Int) :
    (⟨label, increments, queued, (window.takeWindow connections today).2.flatMap fun entry =>
      tenantEvents label entry.1 entry.2⟩ : ClosedWindow).Conserves where
  counted tenant counter := by
    unfold ClosedWindow.metersOf
    simp only
    rw [filter_app tenant (nodup_taken connections today), valueAt_taken, flatMap_meters]
    simp only [WindowState.tenantWindow, List.filter_append]
    have hc : ((connections.filter (·.tenant = tenant)).flatMap (·.meters)).filter
        (·.isOf counter) = [] := by
      rw [List.filter_eq_nil_iff]
      intro reading hm
      obtain ⟨connection, -, hr⟩ := List.mem_flatMap.mp hm
      simp [isOf_connection hr counter]
    rw [hc, List.append_nil, filter_meterReadings counter (h.series_nodup tenant), h.value_eq]
    simp only [h.mem_series]
    unfold readingsOf
    by_cases hv : valuesOf increments tenant counter = [] <;> simp [hv]
  reported tenant day := by
    unfold ClosedWindow.usersOf
    simp only
    rw [filter_app tenant (nodup_taken connections today), valueAt_taken, filterMap_activeUsers,
      flatMap_batches]
    have hp : (window.tenantWindow tenant connections).activeUsers.Perm
        (valueAt tenant noUsers window.active).pending := List.perm_insertionSort _ _
    have hda := (hp.map (·.1)).nodup_iff.mpr (h.days_nodup tenant)
    rw [flatMap_fst_eq hda, valueAt_perm hp.symm (h.days_nodup tenant)]
    exact h.pending_eq tenant day

theorem holds_taken (h : window.Holds increments queued) :
    (window.takeWindow connections today).1.Holds [] [] := by
  have hp : ∀ tenant, (valueAt tenant noUsers
      (window.takeWindow connections today).1.active).pending = [] := by
    intro tenant
    by_cases hm : tenant ∈ (window.takeWindow connections today).1.active.map (·.1)
    · obtain ⟨entry, -, heq⟩ := mem_map.mp (@mem_of_mem_fst _ _ _ tenant noUsers _ hm)
      exact (congrArg (·.2.pending) heq).symm
    · rw [valueAt_of_not_mem hm]
      rfl
  have ht := @total_filter String ActiveUsers window.active (·.seen.length) fun entry =>
    decide (entry.2.day ≥ today)
  refine ⟨nodup_nil, fun _ => nodup_nil, fun _ _ => rfl, fun _ _ => ?_, ?_, ?_, ?_, rfl,
    ?_, ?_⟩
  · simp [WindowState.takeWindow, valueAt, valuesOf]
  · have hs := ((window.active.filter_sublist (p := fun entry =>
      decide (entry.2.day ≥ today))).map (·.1))
    simp only [WindowState.takeWindow, map_map, Function.comp_def]
    exact h.active_nodup.sublist hs
  · intro tenant
    rw [hp]
    exact nodup_nil
  · intro tenant day
    rw [hp]
    rfl
  · have hse := h.activeSeen_eq
    simp only [WindowState.takeWindow, total, map_map, Function.comp_def, decide_not]
      at ht hse ⊢
    omega
  · simp [WindowState.takeWindow, total, pendingSize, Function.comp_def]

end Taking

end FlareIm.UsageReporter
