import FlareIm.TenantHooks.Tenancy

namespace FlareIm.TenantHooks

open List (any_cons filterMap_map map_cons map_map)

section Simulation

variable {Value : Type} {decoders : Decoders Value} {sources : Sources Value} {tenant : String}
  {slots after : List Slot}

def Slot.view (slot : Slot) (tenant : String) : SlotView where
  loader := slot.loader
  global := (slot.loaded.map (·.global)).getD {}
  own := slot.loaded.bind fun loaded => loaded.tenants tenant

def WatcherState.view (state : WatcherState) (tenant : String) : Tenancy where
  slots := state.slots.map fun slot => slot.view tenant
  global := state.current.global
  installed := state.current.tenants tenant

def LoadedHookConfig.seen (loaded : LoadedHookConfig) (tenant : String) : Seen where
  global := loaded.global
  own := if tenant ∈ loaded.failedTenants then none else some (loaded.tenants tenant)

-- What a tenant sees of a load of a source.
def ConfigLoaderItem.see (decoders : Decoders Value) (sources : Sources Value) (tenant : String)
    (loader : ConfigLoaderItem) : Except ConfigError Seen :=
  (loader.load decoders sources).map fun loaded => loaded.seen tenant

theorem foldl_update (failed : List String) (tenants value : String → Option HookConfig) :
    failed.foldl (fun tenants tenant => Function.update tenants tenant (value tenant)) tenants
        tenant =
      if tenant ∈ failed then value tenant else tenants tenant := by
  induction failed generalizing tenants with
  | nil => rfl
  | cons other failed ih =>
    rw [List.foldl_cons, ih]
    by_cases hm : tenant ∈ failed
    · rw [if_pos hm, if_pos (List.mem_cons_of_mem other hm)]
    · by_cases hs : tenant = other
      · subst hs
        rw [if_neg hm, if_pos List.mem_cons_self, Function.update_self]
      · rw [if_neg hm, if_neg (by simp [hs, hm]), Function.update_of_ne hs]

theorem inheritFailedTenants_view (slot : Slot) (fresh : LoadedHookConfig) :
    ({ slot with loaded := some (fresh.inheritFailedTenants slot.loaded) } : Slot).view tenant =
      { slot.view tenant with
        global := (fresh.seen tenant).global
        own := (fresh.seen tenant).own.getD (slot.view tenant).own } := by
  have ho : (fresh.inheritFailedTenants slot.loaded).tenants tenant =
      (fresh.seen tenant).own.getD (slot.view tenant).own := by
    unfold LoadedHookConfig.inheritFailedTenants LoadedHookConfig.seen
    dsimp only
    rw [foldl_update]
    split <;> rfl
  simp only [Slot.view, Option.map_some, Option.getD_some, Option.bind_some] at ho ⊢
  rw [ho]
  rfl

theorem loadSlots_view (phase : LoadPhase) : (loadSlots decoders sources phase slots).map
        (fun loaded => loaded.1.map fun slot => slot.view tenant) =
      seeSlots (ConfigLoaderItem.see decoders sources tenant) phase
        (slots.map fun slot => slot.view tenant) := by
  induction slots with
  | nil => rfl
  | cons slot slots ih =>
    have hl : (slot.view tenant).loader = slot.loader := rfl
    rw [loadSlots, map_cons, seeSlots, ← ih, hl, ConfigLoaderItem.see]
    cases hlo : slot.loader.load decoders sources with
    | ok fresh =>
      cases hr : loadSlots decoders sources phase slots with
      | error error => rfl
      | ok rest =>
        simp only [Except.map, map_cons, inheritFailedTenants_view, hl]
    | error error =>
      by_cases hf : phase = .startup ∧ slot.loader.requiredAtStartup = true
      · simp only [Except.map, if_pos hf]
      · cases hr : loadSlots decoders sources phase slots with
        | error error => simp only [Except.map, if_neg hf]
        | ok rest => simp only [Except.map, if_neg hf, map_cons]

theorem setTenant_view (slot : Slot) (config : HookConfig) (other : String) :
    ({ slot with loaded := some ((slot.loaded.getD {}).setTenant other config) } : Slot).view
        tenant =
      { slot.view tenant with
        own := if tenant = other then (if config.isEmpty then none else some config)
          else (slot.view tenant).own } := by
  have hg : ((slot.loaded.getD {}).setTenant other config).global = (slot.view tenant).global := by
    cases hl : slot.loaded <;> simp [LoadedHookConfig.setTenant, Slot.view, hl]
  have ho : ((slot.loaded.getD {}).setTenant other config).tenants tenant =
      if tenant = other then (if config.isEmpty then none else some config)
        else (slot.view tenant).own := by
    by_cases hs : tenant = other
    · subst hs
      simp [LoadedHookConfig.setTenant]
    · cases hl : slot.loaded <;> simp [LoadedHookConfig.setTenant, Slot.view, hl, hs]
  show SlotView.mk slot.loader ((slot.loaded.getD {}).setTenant other config).global
    (((slot.loaded.getD {}).setTenant other config).tenants tenant) = _
  rw [hg, ho]
  rfl

theorem loadTenantSlots_own : (loadTenantSlots decoders sources tenant slots).map
        (fun loaded => loaded.1.map fun slot => slot.view tenant) =
      seeOwnSlots (ConfigLoaderItem.loadTenant decoders sources tenant)
        (slots.map fun slot => slot.view tenant) := by
  induction slots with
  | nil => rfl
  | cons slot slots ih =>
    have hl : (slot.view tenant).loader = slot.loader := rfl
    rw [loadTenantSlots, map_cons, seeOwnSlots, ← ih, hl]
    cases hlo : slot.loader.loadTenant decoders sources tenant with
    | none =>
      cases hr : loadTenantSlots decoders sources tenant slots with
      | error error => rfl
      | ok rest => simp only [Except.map, map_cons]
    | some result =>
      cases result with
      | error error => rfl
      | ok config =>
        cases hv : validate config with
        | error error => simp only [hv, Except.map]
        | ok done =>
          cases hr : loadTenantSlots decoders sources tenant slots with
          | error error => simp only [hv, Except.map]
          | ok rest =>
            simp only [hv, Except.map, map_cons, setTenant_view, if_true, hl]

theorem loadTenantSlots_other {other : String} (hne : tenant ≠ other) {apart : Bool}
    (h : loadTenantSlots decoders sources other slots = .ok (after, apart)) :
    (after.map fun slot => slot.view tenant) = slots.map fun slot => slot.view tenant := by
  induction slots generalizing after apart with
  | nil =>
    simp only [loadTenantSlots, Except.ok.injEq, Prod.mk.injEq] at h
    rw [← h.1]
  | cons slot slots ih =>
    unfold loadTenantSlots at h
    cases hl : slot.loader.loadTenant decoders sources other with
    | none =>
      cases hr : loadTenantSlots decoders sources other slots with
      | error error => simp [hl, hr] at h
      | ok rest =>
        simp only [hl, hr, Except.ok.injEq, Prod.mk.injEq] at h
        rw [← h.1, map_cons, map_cons, ih hr]
    | some result =>
      cases result with
      | error error => simp [hl] at h
      | ok config =>
        cases hv : validate config with
        | error error => simp [hl, hv] at h
        | ok done =>
          cases hr : loadTenantSlots decoders sources other slots with
          | error error => simp [hl, hv, hr] at h
          | ok rest =>
            simp only [hl, hv, hr, Except.ok.injEq, Prod.mk.injEq] at h
            rw [← h.1, map_cons, map_cons, ih hr, setTenant_view, if_neg hne]

def bucketsByTenant (slots : List Slot) : Bool := slots.any fun slot => slot.loader.bucketsByTenant

theorem loadTenant_isSome (loader : ConfigLoaderItem) :
    (loader.loadTenant decoders sources tenant).isSome = loader.bucketsByTenant := by
  cases loader with
  | file path => rfl
  | configCenter endpoint tenantId => rfl
  | database url tenantId => cases tenantId <;> rfl

theorem loadTenantSlots_apart {apart : Bool}
    (h : loadTenantSlots decoders sources tenant slots = .ok (after, apart)) :
    apart = bucketsByTenant slots := by
  induction slots generalizing after apart with
  | nil =>
    simp only [loadTenantSlots, Except.ok.injEq, Prod.mk.injEq] at h
    rw [← h.2]
    rfl
  | cons slot slots ih =>
    have hs := @loadTenant_isSome _ decoders sources tenant slot.loader
    unfold loadTenantSlots at h
    rw [bucketsByTenant, any_cons, ← hs]
    cases hl : slot.loader.loadTenant decoders sources tenant with
    | none =>
      cases hr : loadTenantSlots decoders sources tenant slots with
      | error error => simp [hl, hr] at h
      | ok rest =>
        simp only [hl, hr, Except.ok.injEq, Prod.mk.injEq] at h
        rw [← h.2, ih hr]
        rfl
    | some result =>
      cases result with
      | error error => simp [hl] at h
      | ok config =>
        cases hv : validate config with
        | error error => simp [hl, hv] at h
        | ok done =>
          cases hr : loadTenantSlots decoders sources tenant slots with
          | error error => simp [hl, hv, hr] at h
          | ok rest =>
            simp only [hl, hv, hr, Except.ok.injEq, Prod.mk.injEq] at h
            rw [← h.2]
            rfl

theorem loadTenantSlots_unbucketed (h : bucketsByTenant slots = false) :
    loadTenantSlots decoders sources tenant slots = .ok (slots, false) := by
  induction slots with
  | nil => rfl
  | cons slot slots ih =>
    rw [bucketsByTenant, any_cons, Bool.or_eq_false_iff] at h
    have hs := @loadTenant_isSome _ decoders sources tenant slot.loader
    rw [h.1, Option.isSome_eq_false_iff, Option.isNone_iff_eq_none] at hs
    rw [loadTenantSlots, hs, ih h.2]

end Simulation

section Steps

variable {Value : Type} {decoders : Decoders Value} {sources : Sources Value} {tenant : String}
  {state next : WatcherState} {slots : List Slot}

theorem filterMap_global (slots : List Slot) (tenant : String) :
    merge (((slots.map (·.loaded)).filterMap id).map (·.global)) =
      merge ((slots.map fun slot => slot.view tenant).map (·.global)) := by
  have hl : ((slots.map (·.loaded)).filterMap id).map (·.global) =
      (slots.map fun slot => slot.loaded.map (·.global)).filterMap id := by
    rw [List.map_filterMap, filterMap_map, filterMap_map]
    rfl
  rw [hl, merge_filterMap, map_map, map_map]
  rfl

theorem layers_view (slots : List Slot) (tenant : String) :
    layers (slots.map (·.loaded)) tenant =
      (slots.map fun slot => slot.view tenant).filterMap (·.own) := by
  rw [layers, List.filterMap_filterMap, filterMap_map, filterMap_map]
  rfl

theorem publish_view (current : HookConfigSnapshot) :
    (publish current slots).map (fun state => state.view tenant) =
      Tenancy.publish (current.tenants tenant) (slots.map fun slot => slot.view tenant) := by
  unfold publish HookConfigSnapshot.build Tenancy.publish
  dsimp only
  rw [filterMap_global slots tenant]
  cases validate (merge ((slots.map fun slot => slot.view tenant).map (·.global))) with
  | error error => rfl
  | ok done =>
    have hl := layers_view slots tenant
    simp only [Except.map, WatcherState.view, HookConfigSnapshot.new, install, accept]
    rewrite [hl]
    rfl

variable (decoders sources tenant) in
-- A reload as one tenant sees it. One of another tenant's rows is none.
def Tenancy.reload (tenancy : Tenancy) : Reload → Except ConfigError Tenancy
  | .all phase => tenancy.reloadAll (ConfigLoaderItem.see decoders sources tenant) phase
  | .tenant other =>
    if tenancy.slots.any (·.loader.bucketsByTenant) then
      if tenant = other then
        tenancy.reloadOwn (ConfigLoaderItem.loadTenant decoders sources tenant)
      else .ok tenancy
    else tenancy.reloadAll (ConfigLoaderItem.see decoders sources tenant) .refresh

variable (decoders sources tenant) in
def Tenancy.after (tenancy : Tenancy) (reload : Reload) : Tenancy :=
  match tenancy.reload decoders sources tenant reload with
  | .error _ => tenancy
  | .ok tenancy => tenancy

theorem reloadAll_view (state : WatcherState) (phase : LoadPhase) :
    ((state.reloadAll decoders sources phase).map Prod.fst).map (fun next => next.view tenant) =
      (state.view tenant).reloadAll (ConfigLoaderItem.see decoders sources tenant) phase := by
  have hs := @loadSlots_view _ decoders sources tenant state.slots phase
  have hv : (state.view tenant).slots = state.slots.map fun slot => slot.view tenant := rfl
  rw [WatcherState.reloadAll, Tenancy.reloadAll, hv, ← hs]
  cases hl : loadSlots decoders sources phase state.slots with
  | error error => rfl
  | ok loaded =>
    have hp := @publish_view tenant loaded.1 state.current
    dsimp only
    cases hn : publish state.current loaded.1 with
    | error error | ok next => exact (congrArg _ hn).symm.trans hp

theorem reloadTenant_own_view (state : WatcherState) (h : bucketsByTenant state.slots = true) :
    (state.reloadTenant decoders sources tenant).map (fun next => next.view tenant) =
      (state.view tenant).reloadOwn (ConfigLoaderItem.loadTenant decoders sources tenant) := by
  have hs := @loadTenantSlots_own _ decoders sources tenant state.slots
  have hv : (state.view tenant).slots = state.slots.map fun slot => slot.view tenant := rfl
  rw [WatcherState.reloadTenant, Tenancy.reloadOwn, hv, ← hs]
  cases hl : loadTenantSlots decoders sources tenant state.slots with
  | error error => rfl
  | ok loaded =>
    obtain ⟨after, apart⟩ := loaded
    have ha := loadTenantSlots_apart hl
    rw [h] at ha
    subst ha
    exact publish_view state.current

theorem reload_settled {reload : Reload}
    (h : state.reload decoders sources reload = .ok next) : (next.view tenant).Settled := by
  have hp : ∃ slots, publish state.current slots = .ok next := by
    have ha (phase : LoadPhase)
        (h : (state.reloadAll decoders sources phase).map Prod.fst = .ok next) :
        ∃ slots, publish state.current slots = .ok next := by
      rw [WatcherState.reloadAll] at h
      cases hl : loadSlots decoders sources phase state.slots with
      | error error => simp [hl, Except.map] at h
      | ok loaded =>
        cases hn : publish state.current loaded.1 with
        | error error => simp [hl, hn, Except.map] at h
        | ok found =>
          simp only [hl, hn, Except.map, Except.ok.injEq] at h
          exact ⟨loaded.1, hn.trans (by rw [h])⟩
    cases reload with
    | all phase => exact ha phase h
    | tenant other =>
      rw [WatcherState.reload, WatcherState.reloadTenant] at h
      cases hl : loadTenantSlots decoders sources other state.slots with
      | error error => simp [hl] at h
      | ok loaded =>
        obtain ⟨after, apart⟩ := loaded
        rw [hl] at h
        cases apart with
        | true => exact ⟨after, h⟩
        | false => exact ha .refresh h
  obtain ⟨slots, hs⟩ := hp
  have hv := @publish_view tenant slots state.current
  rw [hs] at hv
  exact Tenancy.settled_of_publish hv.symm

theorem reloadTenant_other_view {other : String} (hne : tenant ≠ other)
    (hb : bucketsByTenant state.slots = true) (hs : (state.view tenant).Settled)
    (h : state.reloadTenant decoders sources other = .ok next) :
    next.view tenant = state.view tenant := by
  rw [WatcherState.reloadTenant] at h
  cases hl : loadTenantSlots decoders sources other state.slots with
  | error error => simp [hl] at h
  | ok loaded =>
    obtain ⟨after, apart⟩ := loaded
    have ha := loadTenantSlots_apart hl
    rw [hb] at ha
    subst ha
    rw [hl] at h
    have hp := @publish_view tenant after state.current
    rw [loadTenantSlots_other hne hl] at hp
    have hsa : publish state.current after = .ok next := h
    rw [hsa] at hp
    exact Except.ok.inj (hp.trans hs)

theorem after_view (hse : (state.view tenant).Settled) (reload : Reload) :
    (state.after decoders sources reload).view tenant =
      (state.view tenant).after decoders sources tenant reload := by
  have hof {reload : Reload} {result : Except ConfigError Tenancy}
      (h : (state.reload decoders sources reload).map (fun next => next.view tenant) = result)
      (hr : (state.view tenant).reload decoders sources tenant reload = result) :
      (state.after decoders sources reload).view tenant =
        (state.view tenant).after decoders sources tenant reload := by
    rw [WatcherState.after, Tenancy.after, hr, ← h]
    cases state.reload decoders sources reload with
    | error error | ok next => rfl
  cases reload with
  | all phase => exact hof (reloadAll_view state phase) rfl
  | tenant other =>
    have ha : (state.view tenant).slots.any (·.loader.bucketsByTenant) =
        bucketsByTenant state.slots := by
      simp only [WatcherState.view, List.any_map, bucketsByTenant]
      rfl
    by_cases hb : bucketsByTenant state.slots = true
    · by_cases hs : tenant = other
      · subst hs
        refine hof (reloadTenant_own_view state hb) ?_
        rw [Tenancy.reload, ha, if_pos hb, if_pos rfl]
      · have hk : (state.view tenant).after decoders sources tenant (.tenant other) =
            state.view tenant := by
          rw [Tenancy.after, Tenancy.reload, ha, if_pos hb, if_neg hs]
        rw [hk, WatcherState.after]
        cases hn : state.reload decoders sources (.tenant other) with
        | error error => rfl
        | ok next => exact reloadTenant_other_view hs hb hse hn
    · rw [Bool.not_eq_true] at hb
      have hal : state.reload decoders sources (.tenant other) =
          (state.reloadAll decoders sources .refresh).map Prod.fst := by
        rw [WatcherState.reload, WatcherState.reloadTenant, loadTenantSlots_unbucketed hb]
      refine hof (hal ▸ reloadAll_view state .refresh) ?_
      rw [Tenancy.reload, ha, hb]
      rfl

theorem after_settled (hs : (state.view tenant).Settled) (reload : Reload) :
    ((state.after decoders sources reload).view tenant).Settled := by
  rw [WatcherState.after]
  cases hn : state.reload decoders sources reload with
  | error error => exact hs
  | ok next => exact reload_settled hn

theorem start_view (loaders : List ConfigLoaderItem) (tenant : String) :
    (WatcherState.new loaders).view tenant =
      ⟨loaders.map fun loader => ⟨loader, {}, none⟩, {}, none⟩ := by
  simp only [WatcherState.view, WatcherState.new, map_map]
  rfl

theorem start_settled (loaders : List ConfigLoaderItem) (tenant : String) :
    ((WatcherState.new loaders).view tenant).Settled := by
  have hm : merge ((loaders.map fun loader => (⟨loader, {}, none⟩ : SlotView)).map
      (·.global)) = {} := by
    apply merge_of_empty
    intro config hc
    rw [map_map] at hc
    obtain ⟨loader, -, rfl⟩ := List.mem_map.mp hc
    rfl
  have hv : validate {} = .ok () := rfl
  have hn : (loaders.map fun loader => (⟨loader, {}, none⟩ : SlotView)).filterMap (·.own) = [] := by
    simp
  rw [start_view]
  unfold Tenancy.Settled Tenancy.publish
  simp only [hm, hv, hn]
  rfl

end Steps

end FlareIm.TenantHooks
