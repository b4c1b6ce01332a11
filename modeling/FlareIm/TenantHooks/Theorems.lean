import FlareIm.TenantHooks.Registered

namespace FlareIm.TenantHooks

variable {Value : Type} {decoders : Decoders Value} {sources others : Sources Value}
  {tenant : String} {loader : ConfigLoaderItem}

section Alike

-- The sources hold the same, but for the rows of other tenants. They fail in the same way.
def Sources.SameFor (tenant : String) (sources others : Sources Value) : Prop :=
  sources.file = others.file ∧ sources.configCenter = others.configCenter ∧
    ∀ url, (sources.database url).map (fun table => table.filter (·.concerns tenant)) =
      (others.database url).map (fun table => table.filter (·.concerns tenant))

theorem Sources.SameFor.database (h : sources.SameFor tenant others) (url : String) :
    (∃ error, sources.database url = .error error ∧ others.database url = .error error) ∨
      ∃ table table', sources.database url = .ok table ∧ others.database url = .ok table' ∧
        table.filter (·.concerns tenant) = table'.filter (·.concerns tenant) := by
  have hm := h.2.2 url
  cases hl : sources.database url with
  | error error =>
    cases hr : others.database url with
    | error other =>
      rw [hl, hr] at hm
      exact .inl ⟨error, rfl, congrArg _ (Except.error.inj hm).symm⟩
    | ok table =>
      rw [hl, hr] at hm
      cases hm
  | ok table =>
    cases hr : others.database url with
    | error other =>
      rw [hl, hr] at hm
      cases hm
    | ok table' =>
      rw [hl, hr] at hm
      exact .inr ⟨table, table', rfl, rfl, Except.ok.inj hm⟩

theorem loadTenant_eq (h : sources.SameFor tenant others) :
    loader.loadTenant decoders sources tenant = loader.loadTenant decoders others tenant := by
  cases loader with
  | file path => rfl
  | configCenter endpoint tenantId => rfl
  | database url tenantId =>
    cases tenantId with
    | some fixed => rfl
    | none =>
      unfold ConfigLoaderItem.loadTenant TenantHooks.loadTenant
      rcases h.database url with ⟨error, hl, hr⟩ | ⟨table, table', hl, hr, hro⟩
      · simp only [hl, hr]
      · have ho := @fetchRows_isOf _ tenant _ _ hro (some tenant) (.inr rfl)
        rw [fetchRows_filter, fetchRows_filter] at ho
        simp only [hl, hr, Answer.fetch]
        exact congrArg (fun rows => some (pushRows decoders {} rows)) ho

theorem loadByTenant_seen {table table' : List (HookConfigRow Value)}
    (h : table.filter (·.concerns tenant) = table'.filter (·.concerns tenant)) :
    (TenantHookRows.addAll decoders {} (fetchRows table)).map (fun rows =>
        (rows.global, if tenant ∈ rows.failedTenants then none else some (rows.tenants tenant))) =
      (TenantHookRows.addAll decoders {} (fetchRows table')).map (fun rows =>
        (rows.global,
          if tenant ∈ rows.failedTenants then none else some (rows.tenants tenant))) := by
  have hg : (TenantHookRows.addAll decoders {} (fetchRows table)).map (·.global) =
      (TenantHookRows.addAll decoders {} (fetchRows table')).map (·.global) := by
    rw [addAll_global, addAll_global, fetchRows_isOf h (.inl rfl)]
  cases hl : TenantHookRows.addAll decoders {} (fetchRows table) with
  | error error =>
    cases hr : TenantHookRows.addAll decoders {} (fetchRows table') with
    | error other =>
      rw [hl, hr] at hg
      simp only [Except.map] at hg ⊢
      rw [Except.error.inj hg]
    | ok rows =>
      rw [hl, hr] at hg
      cases hg
  | ok rows =>
    cases hr : TenantHookRows.addAll decoders {} (fetchRows table') with
    | error other =>
      rw [hl, hr] at hg
      cases hg
    | ok rows' =>
      rw [hl, hr] at hg
      have hf := (@addAll_tenant _ _ tenant _ _ _ hl).2 List.not_mem_nil
      have hs := (@addAll_tenant _ _ tenant _ _ _ hr).2 List.not_mem_nil
      rw [fetchRows_isOf h (.inr rfl)] at hf
      simp only [Except.map] at hg ⊢
      rw [Except.ok.inj hg]
      cases hre : pushRows decoders (Option.getD none {})
          ((fetchRows table').filter (·.isOf (some tenant))) with
      | error error =>
        rw [hre] at hf hs
        rw [if_pos hf, if_pos hs]
      | ok config =>
        rw [hre] at hf hs
        rw [if_neg hf.1, if_neg hs.1, hf.2, hs.2]

theorem see_eq (h : sources.SameFor tenant others)
    (hm : ∀ url fixed, loader ≠ .database url (some fixed)) :
    loader.see decoders sources tenant = loader.see decoders others tenant := by
  cases loader with
  | file path => simp only [ConfigLoaderItem.see, ConfigLoaderItem.load, h.1]
  | configCenter endpoint tenantId =>
    simp only [ConfigLoaderItem.see, ConfigLoaderItem.load, h.2.1]
  | database url tenantId =>
    cases tenantId with
    | some fixed => exact absurd rfl (hm url fixed)
    | none =>
      unfold ConfigLoaderItem.see ConfigLoaderItem.load loadByTenant
      rcases h.database url with ⟨error, hl, hr⟩ | ⟨table, table', hl, hr, hro⟩
      · simp only [hl, hr]
      · have hs := @loadByTenant_seen _ decoders tenant _ _ hro
        have hv := congrArg (fun result => result.map fun seen : HookConfig × _ =>
          Seen.mk seen.1 seen.2) hs
        simp only [hl, hr, Answer.fetch]
        have hma (result : Except ConfigError TenantHookRows) :
            (result.map fun rows => LoadedHookConfig.mk rows.global rows.tenants
              rows.failedTenants).map (fun loaded => loaded.seen tenant) =
            (result.map fun rows => (rows.global,
              if tenant ∈ rows.failedTenants then none else some (rows.tenants tenant))).map
                fun seen => Seen.mk seen.1 seen.2 := by
          cases result with
          | error error | ok rows => rfl
        rw [hma, hma]
        exact hv

end Alike

section Runs

variable {state other : WatcherState}

theorem seeSlots_congr {see see' : ConfigLoaderItem → Except ConfigError Seen}
    {slots : List SlotView} {phase : LoadPhase}
    (h : ∀ slot ∈ slots, see slot.loader = see' slot.loader) :
    seeSlots see phase slots = seeSlots see' phase slots := by
  induction slots with
  | nil => rfl
  | cons slot slots ih =>
    rw [seeSlots, seeSlots, h slot List.mem_cons_self,
      ih fun other ho => h other (List.mem_cons_of_mem slot ho)]

theorem tenancyAfter_eq (h : sources.SameFor tenant others) {tenancy : Tenancy}
    (hm : ∀ slot ∈ tenancy.slots, ∀ url fixed, slot.loader ≠ .database url (some fixed))
    (reload : Reload) :
    tenancy.after decoders sources tenant reload = tenancy.after decoders others tenant reload := by
  have ha (phase : LoadPhase) :
      tenancy.reloadAll (ConfigLoaderItem.see decoders sources tenant) phase =
        tenancy.reloadAll (ConfigLoaderItem.see decoders others tenant) phase := by
    rw [Tenancy.reloadAll, Tenancy.reloadAll, seeSlots_congr fun slot hs => see_eq h (hm slot hs)]
  have ho : ConfigLoaderItem.loadTenant decoders sources tenant =
      ConfigLoaderItem.loadTenant decoders others tenant :=
    funext fun loader => loadTenant_eq h
  rw [Tenancy.after, Tenancy.after]
  cases reload with
  | all phase => rw [Tenancy.reload, Tenancy.reload, ha]
  | tenant other => rw [Tenancy.reload, Tenancy.reload, ha, ho]

theorem registered_loaders {registered : Registered} (state : WatcherState)
    (reloads : Reloads Value) : (registered.run decoders tenant state reloads).read.map Prod.fst =
      registered.read.map Prod.fst := by
  induction reloads generalizing state registered with
  | nil => rfl
  | cons reload reloads ih =>
    rw [Registered.run, ih, Registered.after]
    cases state.reload decoders reload.2 reload.1 with
    | error error => rfl
    | ok next =>
      dsimp only
      rw [List.map_map]
      rfl

theorem run_settled (hs : (state.view tenant).Settled) (reloads : Reloads Value) :
    ((state.run decoders reloads).view tenant).Settled := by
  induction reloads generalizing state with
  | nil => exact hs
  | cons reload reloads ih => exact ih (after_settled hs reload.1)

theorem provenance_run (loaders : List ConfigLoaderItem) (reloads : Reloads Value) :
    Provenance (((WatcherState.new loaders).run decoders reloads).view tenant)
      ((Registered.new loaders).run decoders tenant (WatcherState.new loaders) reloads) :=
  (provenance_start loaders).run (start_settled loaders tenant) reloads

theorem run_loader {loaders : List ConfigLoaderItem} {reloads : Reloads Value} {slot : SlotView}
    (hs : slot ∈ (((WatcherState.new loaders).run decoders reloads).view tenant).slots) :
    slot.loader ∈ loaders := by
  have hr := List.mem_map_of_mem (f := SlotView.read) hs
  rw [(provenance_run loaders reloads).read] at hr
  have hl := List.mem_map_of_mem (f := Prod.fst) hr
  rw [registered_loaders, Registered.new, List.map_map] at hl
  obtain ⟨loader, hl, hsa⟩ := List.mem_map.mp hl
  have hf : loader = slot.loader := hsa
  rw [← hf]
  exact hl

-- The reloads of one run do what those of the other do, and find the same but for other tenants.
abbrev SameReloads (tenant : String) (reloads others : Reloads Value) : Prop :=
  List.Forall₂ (fun reload other => reload.1 = other.1 ∧ reload.2.SameFor tenant other.2)
    reloads others

theorem run_append (state : WatcherState) (reloads more : Reloads Value) :
    state.run decoders (reloads ++ more) = (state.run decoders reloads).run decoders more :=
  List.foldl_append ..

theorem run_view_eq {loaders : List ConfigLoaderItem}
    (hm : ∀ loader ∈ loaders, ∀ url fixed, loader ≠ .database url (some fixed))
    {reloads others : Reloads Value} (h : SameReloads tenant reloads others) (n : Nat) :
    ((WatcherState.new loaders).run decoders (reloads.take n)).view tenant =
      ((WatcherState.new loaders).run decoders (others.take n)).view tenant := by
  obtain ⟨hl, hget⟩ := List.forall₂_iff_get.mp h
  induction n with
  | zero => rfl
  | succ n ih =>
    by_cases hn : n < reloads.length
    · have ho : n < others.length := hl ▸ hn
      obtain ⟨hk, hs⟩ := hget n hn ho
      rw [List.take_succ_eq_append_getElem hn, List.take_succ_eq_append_getElem ho,
        run_append, run_append]
      have hst := @start_settled loaders tenant
      show WatcherState.view (WatcherState.after ..) tenant =
        WatcherState.view (WatcherState.after ..) tenant
      rw [after_view (run_settled hst _), after_view (run_settled hst _), ih]
      simp only [List.get_eq_getElem] at hk hs
      rw [hk]
      refine tenancyAfter_eq hs (fun slot hsl => ?_) _
      exact hm slot.loader (run_loader hsl)
    · rw [List.take_of_length_le (by omega), List.take_of_length_le (by omega)]
      rw [List.take_of_length_le (by omega), List.take_of_length_le (by omega)] at ih
      exact ih

end Runs

section Isolation

variable (decoders tenant) in
def lastAccepted (loaders : List ConfigLoaderItem) (reloads : Reloads Value) : HookConfig :=
  ((Registered.new loaders).run decoders tenant (WatcherState.new loaders) reloads).accepted

theorem HookSources.loaders_multi {config : HookSources} (h : config.tenantId = none) :
    ∀ loader ∈ config.loaders, ∀ url fixed,
      loader ≠ ConfigLoaderItem.database url (some fixed) := by
  intro loader hl url fixed heq
  subst heq
  simp [HookSources.loaders, h] at hl

theorem tenant_hooks_are_isolated (decoders : Decoders Value) (config : HookSources)
    (hmulti : config.tenantId = none) (tenant : String) :
    (∀ reloads type,
      let current := ((WatcherState.new config.loaders).run decoders reloads).current
      ∃ own, (current.forTenant tenant).list type =
          (current.global.list type).filter (fun hook => hook.selector.matchesTenant tenant) ++
            own ∧
        ∀ hook ∈ own, (∀ kept ∈ current.global.list type, kept.name ≠ hook.name) ∧
          hook ∈ (lastAccepted decoders tenant config.loaders reloads).list type ∧
          RegisteredBy decoders tenant reloads type hook) ∧
    ∀ reloads others, SameReloads tenant reloads others → ∀ n,
      let current := ((WatcherState.new config.loaders).run decoders (reloads.take n)).current
      let other := ((WatcherState.new config.loaders).run decoders (others.take n)).current
      current.forTenant tenant = other.forTenant tenant ∧ current.global = other.global := by
  constructor
  · intro reloads type current
    obtain ⟨own, hown, hhooks⟩ := forTenant_list current tenant type
    refine ⟨own, hown, fun hook hhook => ?_⟩
    obtain ⟨hnames, bucket, hbucket, hmem⟩ := hhooks hook hhook
    have haccepted := (provenance_run config.loaders reloads).installed bucket hbucket type hook
      hmem
    have hall : (Registered.run decoders tenant (Registered.new config.loaders)
        (WatcherState.new config.loaders) reloads).All (RegisteredBy decoders tenant reloads) :=
      (all_new config.loaders).run fun _ => id
    exact ⟨hnames, haccepted, hall.2 type hook haccepted⟩
  · intro reloads others hsame n
    have hview := @run_view_eq _ decoders tenant config.loaders (config.loaders_multi hmulti)
      reloads others hsame n
    have hglobal := congrArg Tenancy.global hview
    have hinstalled := congrArg Tenancy.installed hview
    simp only [WatcherState.view] at hglobal hinstalled
    refine ⟨?_, hglobal⟩
    simp only [HookConfigSnapshot.forTenant, hglobal, hinstalled]

-- Two tenants have a hook each beside the one of the platform. The second has a row whose selector
-- may not be readable.
def textDecoders : Decoders String where
  selector text := if text = "\x7b\x7d" then some {} else none
  transport text := if text = "\x7b\"type\":\"local\",\"target\":\"noop\"\x7d" then
    some (.plugin "noop") else none
  metadata text := if text = "\x7b\x7d" then some [] else none

def preSendRow (id : Int64) (tenantId : Option String) (name selectorConfig : String) :
    HookConfigRow String where
  id := id
  tenantId := tenantId
  hookType := "pre_send"
  name := name
  selectorConfig := selectorConfig
  transportConfig := "\x7b\"type\":\"local\",\"target\":\"noop\"\x7d"

def refreshWith (selectorConfig : String) : Reloads String :=
  [(.all .startup,
    { file _ := .ok none
      configCenter _ _ := .error "no config center"
      database _ := .ok
        [preSendRow 1 none "audit" "\x7b\x7d", preSendRow 2 (some "a") "filter" "\x7b\x7d",
          preSendRow 3 (some "b") "translate" selectorConfig,
          preSendRow 4 (some "b") "audit" "\x7b\x7d"] })]

def multiTenant : HookSources where
  configFile := none
  configCenterEndpoint := none
  databaseUrl := some "postgres://flare"
  tenantId := none

def namesFor (selectorConfig tenant : String) : List String :=
  ((((WatcherState.new multiTenant.loaders).run textDecoders
    (refreshWith selectorConfig)).current.forTenant tenant).list .preSend).map (·.name)

example : namesFor "\x7b\x7d" "b" = ["audit", "translate"] := by decide +kernel

example : namesFor "[]" "b" = ["audit"] := by decide +kernel

theorem unreadable_rows_are_isolated :
    ((WatcherState.new multiTenant.loaders).run textDecoders
        (refreshWith "[]")).current.forTenant "a" =
      ((WatcherState.new multiTenant.loaders).run textDecoders
        (refreshWith "\x7b\x7d")).current.forTenant "a" ∧
      namesFor "[]" "a" = ["audit", "filter"] := by
  have hsame : SameReloads "a" (refreshWith "[]") (refreshWith "\x7b\x7d") :=
    .cons ⟨rfl, rfl, rfl, fun _ => rfl⟩ .nil
  exact ⟨((tenant_hooks_are_isolated textDecoders multiTenant rfl "a").2 _ _ hsame 1).1,
    by decide +kernel⟩

end Isolation

end FlareIm.TenantHooks
