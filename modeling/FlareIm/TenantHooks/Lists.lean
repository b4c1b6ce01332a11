import FlareIm.TenantHooks.Watcher

namespace FlareIm.TenantHooks

variable {config other reserved : HookConfig} {configs : List HookConfig} {type : HookType}
  {hook : HookConfigItem}

section Lists

@[simp] theorem HookConfig.list_ofLists (lists : HookType → List HookConfigItem)
    (type : HookType) : (HookConfig.ofLists lists).list type = lists type := by
  cases type <;> rfl

@[simp] theorem HookConfig.list_empty (type : HookType) : ({} : HookConfig).list type = [] := by
  cases type <;> rfl

theorem HookConfig.ext_list (h : ∀ type, config.list type = other.list type) : config = other := by
  cases config
  cases other
  have hl := And.intro (h .preSend) (And.intro (h .postSend) (And.intro (h .delivery)
    (And.intro (h .recall) (And.intro (h .sessionCreate) (And.intro (h .sessionUpdate)
    (And.intro (h .sessionDelete) (And.intro (h .userLogin) (And.intro (h .userLogout)
    (And.intro (h .userOnline) (And.intro (h .userOffline) (And.intro (h .pushPreSend)
    (And.intro (h .pushPostSend) (And.intro (h .pushDelivery)
    (h .getConversationParticipants))))))))))))))
  simpa [HookConfig.list] using hl

theorem mem_HOOK_TYPES (type : HookType) : type ∈ HOOK_TYPES := by
  cases type <;> decide

theorem HookConfig.isEmpty_iff : config.isEmpty = true ↔ config = {} := by
  constructor
  · intro h
    apply HookConfig.ext_list
    intro type
    rw [HookConfig.list_empty]
    have hc : config.hookCount = 0 := by simpa [HookConfig.isEmpty] using h
    have hl := List.sum_eq_zero_iff_forall_eq_nat.mp hc
    exact List.length_eq_zero_iff.mp (hl _ (List.mem_map_of_mem (mem_HOOK_TYPES type)))
  · rintro rfl
    decide

end Lists

section Merging

theorem mem_replaced {list : List HookConfigItem} {new : HookConfigItem}
    (h : hook ∈ Replacing.replaced (·.name) list new) : hook = new ∨ hook ∈ list := by
  unfold Replacing.replaced at h
  split at h
  · exact (List.mem_or_eq_of_mem_set h).symm
  · rcases List.mem_append.mp h with hold | hn
    · exact .inr hold
    · exact .inl (List.mem_singleton.mp hn)

theorem mem_foldl_replaced {list extra : List HookConfigItem}
    (h : hook ∈ extra.foldl (Replacing.replaced (·.name)) list) : hook ∈ list ∨ hook ∈ extra := by
  induction extra generalizing list with
  | nil => exact .inl h
  | cons new extra ih =>
    rcases ih h with hr | het
    · rcases mem_replaced hr with rfl | hl
      · exact .inr List.mem_cons_self
      · exact .inl hl
    · exact .inr (List.mem_cons_of_mem new het)

theorem mem_mergeOverriding (h : hook ∈ (config.mergeOverriding other).list type) :
    hook ∈ config.list type ∨ hook ∈ other.list type := by
  rw [HookConfig.mergeOverriding, HookConfig.list_ofLists] at h
  exact mem_foldl_replaced h

@[simp] theorem mergeOverriding_empty (config : HookConfig) : config.mergeOverriding {} = config := by
  apply HookConfig.ext_list
  intro type
  simp [HookConfig.mergeOverriding]

theorem mem_foldl_mergeOverriding
    (h : hook ∈ (configs.foldl HookConfig.mergeOverriding config).list type) :
    hook ∈ config.list type ∨ ∃ source ∈ configs, hook ∈ source.list type := by
  induction configs generalizing config with
  | nil => exact .inl h
  | cons source configs ih =>
    rcases ih h with hm | ⟨found, hf, hh⟩
    · rcases mem_mergeOverriding hm with hc | hs
      · exact .inl hc
      · exact .inr ⟨source, List.mem_cons_self, hs⟩
    · exact .inr ⟨found, List.mem_cons_of_mem source hf, hh⟩

theorem mem_merge (h : hook ∈ (merge configs).list type) :
    ∃ source ∈ configs, hook ∈ source.list type := by
  rcases mem_foldl_mergeOverriding h with hem | hs
  · simp at hem
  · exact hs

theorem merge_of_empty (h : ∀ source ∈ configs, source = {}) : merge configs = {} := by
  unfold merge
  induction configs with
  | nil => rfl
  | cons source configs ih =>
    rw [List.foldl_cons, h source List.mem_cons_self, mergeOverriding_empty]
    exact ih fun other ho => h other (List.mem_cons_of_mem source ho)

theorem foldl_mergeOverriding_filterMap (loaded : List (Option HookConfig)) (start : HookConfig) :
    (loaded.filterMap id).foldl HookConfig.mergeOverriding start =
      (loaded.map (·.getD {})).foldl HookConfig.mergeOverriding start := by
  induction loaded generalizing start with
  | nil => rfl
  | cons slot loaded ih =>
    cases slot with
    | none =>
      rw [List.filterMap_cons_none (by rfl), List.map_cons, List.foldl_cons, Option.getD_none,
        mergeOverriding_empty]
      exact ih start
    | some config => exact ih (start.mergeOverriding config)

theorem merge_filterMap (loaded : List (Option HookConfig)) :
    merge (loaded.filterMap id) = merge (loaded.map (·.getD {})) :=
  foldl_mergeOverriding_filterMap loaded {}

end Merging

section Names

theorem mem_removeReserved : hook ∈ (config.removeReserved reserved).list type ↔
    hook ∈ config.list type ∧ ∀ kept ∈ reserved.list type, kept.name ≠ hook.name := by
  simp [HookConfig.removeReserved]

theorem removeReserved_removeReserved :
    (config.removeReserved reserved).removeReserved reserved = config.removeReserved reserved := by
  apply HookConfig.ext_list
  intro type
  simp [HookConfig.removeReserved]

theorem unreserved_eq_some (h : unreserved reserved config = some other) :
    other = config.removeReserved reserved ∧ unreserved reserved other = some other := by
  unfold unreserved at h
  by_cases hem : (config.removeReserved reserved).isEmpty = true
  · simp [hem] at h
  · rw [if_neg hem] at h
    cases h
    refine ⟨rfl, ?_⟩
    simp [unreserved, removeReserved_removeReserved, hem]

theorem extendKeepingExisting_list (config other : HookConfig) (type : HookType) :
    ∃ added, (config.extendKeepingExisting other).list type = config.list type ++ added ∧
      ∀ hook ∈ added, hook ∈ other.list type ∧
        ∀ kept ∈ config.list type, kept.name ≠ hook.name := by
  rw [HookConfig.extendKeepingExisting, HookConfig.list_ofLists]
  generalize other.list type = extra
  generalize config.list type = list
  induction extra generalizing list with
  | nil => exact ⟨[], by simp, fun _ h => absurd h List.not_mem_nil⟩
  | cons new extra ih =>
    rw [List.foldl_cons]
    by_cases hna : (list.any fun kept => kept.name == new.name) = true
    · obtain ⟨added, ha, hn⟩ := ih list
      rw [if_pos hna]
      refine ⟨added, ha, fun hook hh => ?_⟩
      obtain ⟨het, hf⟩ := hn hook hh
      exact ⟨List.mem_cons_of_mem new het, hf⟩
    · obtain ⟨added, ha, hn⟩ := ih (list ++ [new])
      rw [if_neg hna]
      refine ⟨new :: added, by rw [ha, List.append_assoc, List.singleton_append], ?_⟩
      intro hook hh
      rcases List.mem_cons.mp hh with rfl | hh
      · refine ⟨List.mem_cons_self, fun kept hk hs => hna ?_⟩
        exact List.any_eq_true.mpr ⟨kept, hk, beq_iff_eq.mpr hs⟩
      · obtain ⟨het, hf⟩ := hn hook hh
        exact ⟨List.mem_cons_of_mem new het, fun kept hk => hf kept (List.mem_append_left _ hk)⟩

-- A tenant's configuration: all the global hooks that are for it, then hooks of its own.
theorem forTenant_list (snapshot : HookConfigSnapshot) (tenantId : String) (type : HookType) :
    ∃ own, (snapshot.forTenant tenantId).list type =
        (snapshot.global.list type).filter (fun hook => hook.selector.matchesTenant tenantId) ++
          own ∧ ∀ hook ∈ own, (∀ kept ∈ snapshot.global.list type, kept.name ≠ hook.name) ∧
        ∃ bucket, snapshot.tenants tenantId = some bucket ∧ hook ∈ bucket.list type := by
  unfold HookConfigSnapshot.forTenant
  cases hb : snapshot.tenants tenantId with
  | none => exact ⟨[], by simp [HookConfig.retainTenant], fun _ h => absurd h List.not_mem_nil⟩
  | some bucket =>
    obtain ⟨added, ha, hn⟩ := extendKeepingExisting_list snapshot.global bucket type
    refine ⟨added.filter fun hook => hook.selector.matchesTenant tenantId, ?_, ?_⟩
    · simp [HookConfig.retainTenant, ha]
    · intro hook hh
      obtain ⟨ho, hf⟩ := hn hook (List.mem_filter.mp hh).1
      exact ⟨hf, bucket, rfl, ho⟩

end Names

end FlareIm.TenantHooks
