import FlareIm.TenantHooks.Simulation

namespace FlareIm.TenantHooks

open List (forall_mem_cons map_cons map_map mem_cons_of_mem mem_cons_self mem_map)

variable {Value : Type} {decoders : Decoders Value} {sources : Sources Value} {tenant : String}
  {loader : ConfigLoaderItem} {fresh : Seen}

section Reading

theorem toOption_eq_some {Error A : Type} {result : Except Error A} {a : A}
    (h : result.toOption = some a) : result = .ok a := by
  cases result with
  | error error => cases h
  | ok found => exact congrArg _ (Option.some.inj h)

theorem see_own (h : loader.see decoders sources tenant = .ok fresh) :
    match loader.loadTenant decoders sources tenant with
    | none => fresh.own = some none
    | some (.ok config) => ∃ own, fresh.own = some own ∧ own.getD {} = config
    | some (.error _) => fresh.own = none := by
  have hp {config : Except ConfigError HookConfig}
      (h : (config.map fun global => ({ global } : LoadedHookConfig)).map
        (fun loaded => loaded.seen tenant) = .ok fresh) : fresh.own = some none := by
    cases config with
    | error error => cases h
    | ok global =>
      simp only [Except.map, Except.ok.injEq] at h
      rw [← h]
      rfl
  cases loader with
  | file path => exact hp h
  | configCenter endpoint tenantId =>
    unfold ConfigLoaderItem.see ConfigLoaderItem.load at h
    cases hf : sources.configCenter endpoint (configKey tenantId) with
    | error reason => simp [hf, Except.map] at h
    | ok global =>
      simp only [hf, Except.map, Except.ok.injEq] at h
      rw [← h]
      rfl
  | database url tenantId =>
    cases tenantId with
    | some fixed => exact hp h
    | none =>
      unfold ConfigLoaderItem.see ConfigLoaderItem.load loadByTenant at h
      unfold ConfigLoaderItem.loadTenant TenantHooks.loadTenant
      cases hta : sources.database url with
      | error error => simp [hta, Answer.fetch, Except.map] at h
      | ok table =>
        simp only [hta, Answer.fetch] at h ⊢
        cases hro : TenantHookRows.addAll decoders {} (fetchRows table) with
        | error error => simp [hro, Except.map] at h
        | ok rows =>
          simp only [hro, Except.map, Except.ok.injEq] at h
          subst h
          have ht := (@addAll_tenant _ _ tenant _ _ _ hro).2 List.not_mem_nil
          have hm : (fetchRows table).filter (·.isOf (some tenant)) =
              fetchRows (table.filter fun row => row.tenantId = some tenant) :=
            fetchRows_filter _
          rw [hm, Option.getD_none] at ht
          cases hr : pushRows decoders {}
              (fetchRows (table.filter fun row => row.tenantId = some tenant)) with
          | error error =>
            rw [hr] at ht
            exact if_pos ht
          | ok config =>
            rw [hr] at ht
            refine ⟨rows.tenants tenant, if_neg ht.1, ?_⟩
            rw [ht.2]
            split
            · rename_i hn
              rw [hn, pushRows, Except.ok.injEq] at hr
              exact hr
            · rfl

variable (decoders tenant) in
-- The rows of a tenant that a reload reads of a source.
def ConfigLoaderItem.ownRows (loader : ConfigLoaderItem) (reload : Reload × Sources Value) :
    Option HookConfig :=
  let rows := (loader.loadTenant decoders reload.2 tenant).bind Except.toOption
  match reload.1 with
  | .all _ => if (loader.load decoders reload.2).toOption.isSome then rows else none
  | .tenant other => if tenant = other then rows else none

def SlotView.read (slot : SlotView) : ConfigLoaderItem × HookConfig :=
  (slot.loader, slot.own.getD {})

-- A source that has no rows apart has none of a tenant.
def SlotView.Plain (slot : SlotView) : Prop :=
  slot.loader.bucketsByTenant = false → slot.own = none

theorem ownRows_of_plain (h : loader.bucketsByTenant = false) (reload : Reload × Sources Value) :
    loader.ownRows decoders tenant reload = none := by
  have hs := @loadTenant_isSome _ decoders reload.2 tenant loader
  rw [h, Option.isSome_eq_false_iff, Option.isNone_iff_eq_none] at hs
  unfold ConfigLoaderItem.ownRows
  rw [hs]
  cases reload.1 with
  | all phase => simp
  | tenant other => simp

theorem seen_read {slot : SlotView} (hp : slot.Plain) {phase : LoadPhase}
    (hse : slot.loader.see decoders sources tenant = .ok fresh) :
    let after : SlotView := { slot with global := fresh.global, own := fresh.own.getD slot.own }
    after.read = (slot.loader,
      (slot.loader.ownRows decoders tenant (.all phase, sources)).getD slot.read.2) ∧
      after.Plain := by
  have ho := see_own hse
  have hl : (slot.loader.load decoders sources).toOption.isSome = true := by
    unfold ConfigLoaderItem.see at hse
    cases hlo : slot.loader.load decoders sources with
    | error error => simp [hlo, Except.map] at hse
    | ok loaded => rfl
  have hs := @loadTenant_isSome _ decoders sources tenant slot.loader
  unfold ConfigLoaderItem.ownRows SlotView.read SlotView.Plain
  simp only [hl, if_true]
  cases hr : slot.loader.loadTenant decoders sources tenant with
  | none =>
    rw [hr] at ho hs
    simp [ho, hp hs.symm]
  | some result =>
    rw [hr] at ho hs
    cases result with
    | error error =>
      rw [ho]
      exact ⟨rfl, hp⟩
    | ok config =>
      obtain ⟨own, hf, hc⟩ := ho
      rw [hf]
      refine ⟨congrArg _ hc, fun hb => ?_⟩
      rw [hb] at hs
      cases hs

end Reading

section Slots

variable {slots after : List SlotView}

theorem seeSlots_read {phase shown : LoadPhase} (hp : ∀ slot ∈ slots, slot.Plain)
    (h : seeSlots (ConfigLoaderItem.see decoders sources tenant) phase slots = .ok after) :
    after.map SlotView.read = slots.map (fun slot => (slot.loader,
      (slot.loader.ownRows decoders tenant (.all shown, sources)).getD slot.read.2)) ∧
      ∀ slot ∈ after, slot.Plain := by
  induction slots generalizing after with
  | nil =>
    obtain rfl := Except.ok.inj h
    exact ⟨rfl, hp⟩
  | cons slot slots ih =>
    have hre := fun slot hsl => hp slot (mem_cons_of_mem _ hsl)
    have hsl := hp slot mem_cons_self
    unfold seeSlots at h
    cases hse : slot.loader.see decoders sources tenant with
    | ok fresh =>
      cases hs : seeSlots (ConfigLoaderItem.see decoders sources tenant) phase slots with
      | error error => simp [hse, hs, Except.map] at h
      | ok rest =>
        simp only [hse, hs, Except.map, Except.ok.injEq] at h
        subst h
        obtain ⟨hr, hk⟩ := ih hre hs
        obtain ⟨hfi, hpl⟩ := @seen_read _ decoders sources tenant fresh slot hsl shown hse
        refine ⟨?_, forall_mem_cons.mpr ⟨hpl, hk⟩⟩
        rw [map_cons, map_cons, hr, hfi]
    | error error =>
      have hn : slot.loader.ownRows decoders tenant (.all shown, sources) = none := by
        unfold ConfigLoaderItem.see at hse
        cases hl : slot.loader.load decoders sources with
        | ok loaded => simp [hl, Except.map] at hse
        | error error => simp [ConfigLoaderItem.ownRows, hl, Except.toOption]
      by_cases hf : phase = .startup ∧ slot.loader.requiredAtStartup = true
      · simp [hse, hf] at h
      · cases hs : seeSlots (ConfigLoaderItem.see decoders sources tenant) phase slots with
        | error error => simp [hse, hf, hs, Except.map] at h
        | ok rest =>
          simp only [hse, if_neg hf, hs, Except.map, Except.ok.injEq] at h
          subst h
          obtain ⟨hr, hk⟩ := ih hre hs
          refine ⟨?_, forall_mem_cons.mpr ⟨hsl, hk⟩⟩
          rw [map_cons, map_cons, hr, hn]
          rfl

theorem seeOwnSlots_read (hp : ∀ slot ∈ slots, slot.Plain)
    (h : seeOwnSlots (ConfigLoaderItem.loadTenant decoders sources tenant) slots = .ok after) :
    after.map SlotView.read = slots.map (fun slot => (slot.loader,
      (slot.loader.ownRows decoders tenant (.tenant tenant, sources)).getD slot.read.2)) ∧
      ∀ slot ∈ after, slot.Plain := by
  induction slots generalizing after with
  | nil =>
    obtain rfl := Except.ok.inj h
    exact ⟨rfl, hp⟩
  | cons slot slots ih =>
    have hre := fun slot hsl => hp slot (mem_cons_of_mem _ hsl)
    have hsl := hp slot mem_cons_self
    have hso := @loadTenant_isSome _ decoders sources tenant slot.loader
    unfold seeOwnSlots at h
    cases hl : slot.loader.loadTenant decoders sources tenant with
    | none =>
      cases hs : seeOwnSlots (ConfigLoaderItem.loadTenant decoders sources tenant) slots with
      | error error => simp [hl, hs, Except.map] at h
      | ok rest =>
        simp only [hl, hs, Except.map, Except.ok.injEq] at h
        subst h
        obtain ⟨hr, hk⟩ := ih hre hs
        refine ⟨?_, forall_mem_cons.mpr ⟨hsl, hk⟩⟩
        rw [map_cons, map_cons, hr]
        simp [ConfigLoaderItem.ownRows, hl, SlotView.read]
    | some result =>
      cases result with
      | error error => simp [hl] at h
      | ok config =>
        cases hv : validate config with
        | error error => simp [hl, hv] at h
        | ok done =>
          cases hs : seeOwnSlots (ConfigLoaderItem.loadTenant decoders sources tenant)
              slots with
          | error error => simp [hl, hv, hs, Except.map] at h
          | ok rest =>
            simp only [hl, hv, hs, Except.map, Except.ok.injEq] at h
            subst h
            obtain ⟨hr, hk⟩ := ih hre hs
            refine ⟨?_, forall_mem_cons.mpr ⟨fun hb => ?_, hk⟩⟩
            · have hc : (if config.isEmpty then none else some config).getD {} =
                  config := by
                by_cases hem : config.isEmpty = true
                · rw [if_pos hem, HookConfig.isEmpty_iff.mp hem]
                  rfl
                · rw [if_neg hem]
                  rfl
              rw [map_cons, map_cons, hr]
              simp [ConfigLoaderItem.ownRows, hl, SlotView.read, hc, Except.toOption]
            · rw [hl] at hso
              rw [← hso] at hb
              cases hb

end Slots

section Registering

-- What a tenant registered: its rows as they were last read of each source, and as they were last
-- taken.
structure Registered where
  read : List (ConfigLoaderItem × HookConfig)
  accepted : HookConfig := {}

def Registered.new (loaders : List ConfigLoaderItem) : Registered where
  read := loaders.map fun loader => (loader, {})

variable (decoders tenant) in
-- A reload that fails reads nothing. Rows are taken when what they merge to is valid.
def Registered.after (registered : Registered) (state : WatcherState)
    (reload : Reload × Sources Value) : Registered :=
  match state.reload decoders reload.2 reload.1 with
  | .error _ => registered
  | .ok _ =>
    let read := registered.read.map fun source =>
      (source.1, (source.1.ownRows decoders tenant reload).getD source.2)
    { read
      accepted :=
        match validate (merge (read.map Prod.snd)) with
        | .ok _ => merge (read.map Prod.snd)
        | .error _ => registered.accepted }

variable (decoders tenant) in
def Registered.run : Registered → WatcherState → Reloads Value → Registered
  | registered, _, [] => registered
  | registered, state, reload :: reloads =>
    (registered.after decoders tenant state reload).run
      (state.after decoders reload.2 reload.1) reloads

-- What the process holds of a tenant is what the tenant registered.
structure Provenance (tenancy : Tenancy) (registered : Registered) : Prop where
  read : tenancy.slots.map SlotView.read = registered.read
  plain : ∀ slot ∈ tenancy.slots, slot.Plain
  accepted : ∀ done, validate (merge (registered.read.map Prod.snd)) = .ok done →
    registered.accepted = merge (registered.read.map Prod.snd)
  installed : ∀ bucket, tenancy.installed = some bucket → ∀ type, ∀ hook ∈ bucket.list type,
    hook ∈ registered.accepted.list type

theorem provenance_start (loaders : List ConfigLoaderItem) :
    Provenance ((WatcherState.new loaders).view tenant) (Registered.new loaders) := by
  rw [start_view]
  refine ⟨?_, ?_, ?_, nofun⟩
  · rw [map_map]
    rfl
  · intro slot hs
    obtain ⟨loader, -, rfl⟩ := mem_map.mp hs
    exact fun _ => rfl
  · intro done _
    symm
    apply merge_of_empty
    intro config hc
    rw [Registered.new, map_map] at hc
    obtain ⟨loader, -, rfl⟩ := mem_map.mp hc
    rfl

theorem merge_own (slots : List SlotView) :
    merge (slots.filterMap (·.own)) = merge ((slots.map SlotView.read).map Prod.snd) := by
  have ho : slots.filterMap (·.own) = (slots.map (·.own)).filterMap id := by
    rw [List.filterMap_map]
    rfl
  rw [ho, merge_filterMap, map_map, map_map]
  rfl

variable {tenancy next : Tenancy} {registered : Registered}

theorem Provenance.publish (h : Provenance tenancy registered) {slots : List SlotView}
    (hp : Tenancy.publish tenancy.installed slots = .ok next) (hpl : ∀ slot ∈ slots, slot.Plain) :
    Provenance next
      { read := slots.map SlotView.read
        accepted :=
          match validate (merge ((slots.map SlotView.read).map Prod.snd)) with
          | .ok _ => merge ((slots.map SlotView.read).map Prod.snd)
          | .error _ => registered.accepted } := by
  unfold Tenancy.publish at hp
  cases hg : validate (merge (slots.map (·.global))) with
  | error error => simp [hg] at hp
  | ok done =>
    simp only [hg, Except.ok.injEq] at hp
    subst hp
    refine ⟨rfl, hpl, fun done hv => by simp only [hv], ?_⟩
    intro bucket hb type hook hh
    obtain ⟨taken, ht, hr⟩ := Option.bind_eq_some_iff.mp hb
    obtain ⟨rfl, -⟩ := unreserved_eq_some hr
    have hk := (mem_removeReserved.mp hh).1
    unfold accept at ht
    cases hc : slots.filterMap (·.own) with
    | nil => simp [hc] at ht
    | cons config configs =>
      simp only [hc] at ht
      rw [← hc, merge_own] at ht
      cases hv : validate (merge ((slots.map SlotView.read).map Prod.snd)) with
      | ok done =>
        simp only [hv, Option.some.injEq] at ht ⊢
        rw [ht]
        exact hk
      | error error =>
        simp only [hv] at ht ⊢
        exact h.installed taken ht type hook hk

end Registering

section Steps

variable {state next : WatcherState} {registered : Registered}

theorem Provenance.reread (h : Provenance (state.view tenant) registered)
    {reload : Reload × Sources Value}
    (hr : state.reload decoders reload.2 reload.1 = .ok next) {slots : List SlotView}
    (hpu : Tenancy.publish (state.view tenant).installed slots = .ok (next.view tenant))
    (hpl : ∀ slot ∈ slots, slot.Plain)
    (hre : slots.map SlotView.read = (state.view tenant).slots.map fun slot =>
      (slot.loader, (slot.loader.ownRows decoders tenant reload).getD slot.read.2)) :
    Provenance (next.view tenant) (registered.after decoders tenant state reload) := by
  have hp := h.publish hpu hpl
  have hs : registered.read.map (fun source =>
      (source.1, (source.1.ownRows decoders tenant reload).getD source.2)) =
      slots.map SlotView.read := by
    rw [hre, ← h.read, map_map]
    rfl
  rw [Registered.after, hr]
  rw [hs]
  exact hp

theorem Provenance.reloadAll (h : Provenance (state.view tenant) registered)
    {reload : Reload × Sources Value} {phase : LoadPhase}
    (hr : state.reload decoders reload.2 reload.1 = .ok next)
    (ha : state.reload decoders reload.2 reload.1 =
      (state.reloadAll decoders reload.2 phase).map Prod.fst)
    (hro : ∀ slot ∈ (state.view tenant).slots, slot.loader.ownRows decoders tenant reload =
      slot.loader.ownRows decoders tenant (.all phase, reload.2)) :
    Provenance (next.view tenant) (registered.after decoders tenant state reload) := by
  have hv := @reloadAll_view _ decoders reload.2 tenant state phase
  rw [← ha, hr] at hv
  unfold Tenancy.reloadAll at hv
  cases hs : seeSlots (ConfigLoaderItem.see decoders reload.2 tenant) phase
      (state.view tenant).slots with
  | error error => simp [hs, Except.map] at hv
  | ok slots =>
    rw [hs] at hv
    obtain ⟨hre, hp⟩ := @seeSlots_read _ _ _ _ _ _ phase phase h.plain hs
    refine h.reread hr hv.symm hp (hre.trans ?_)
    apply List.map_congr_left
    intro slot hsl
    rw [hro slot hsl]

theorem Provenance.after (h : Provenance (state.view tenant) registered)
    (hse : (state.view tenant).Settled) (reload : Reload × Sources Value) :
    Provenance ((state.after decoders reload.2 reload.1).view tenant)
      (registered.after decoders tenant state reload) := by
  obtain ⟨reload, sources⟩ := reload
  rw [WatcherState.after]
  cases hr : state.reload decoders sources reload with
  | error error =>
    rw [Registered.after, hr]
    exact h
  | ok next =>
    cases reload with
    | all phase =>
      exact @Provenance.reloadAll _ decoders tenant state next registered h (_, sources) phase
        hr rfl fun _ _ => rfl
    | tenant other =>
      by_cases hb : bucketsByTenant state.slots = true
      · by_cases hsa : tenant = other
        · subst hsa
          have hv := @reloadTenant_own_view _ decoders sources tenant state hb
          have ho : state.reloadTenant decoders sources tenant = .ok next := hr
          rw [ho] at hv
          unfold Tenancy.reloadOwn at hv
          cases hsl : seeOwnSlots (ConfigLoaderItem.loadTenant decoders sources tenant)
              (state.view tenant).slots with
          | error error => simp [hsl, Except.map] at hv
          | ok slots =>
            rw [hsl] at hv
            obtain ⟨hre, hpl⟩ := seeOwnSlots_read h.plain hsl
            exact @Provenance.reread _ decoders tenant state next registered h (_, sources)
              hr slots hv.symm hpl hre
        · -- nothing of the tenant is read, and nothing of it changes
          have hv := reloadTenant_other_view hsa hb hse hr
          have hre : registered.read.map (fun source =>
              (source.1, (source.1.ownRows decoders tenant (.tenant other, sources)).getD
                source.2)) = registered.read := by
            simp [ConfigLoaderItem.ownRows, hsa]
          have hk : registered.after decoders tenant state (.tenant other, sources) =
              registered := by
            rw [Registered.after, hr]
            dsimp only
            rw [hre]
            cases hva : validate (merge (registered.read.map Prod.snd)) with
            | error error => rfl
            | ok done =>
              rw [← h.accepted done hva]
          rw [hv, hk]
          exact h
      · have hp : ∀ slot ∈ (state.view tenant).slots, slot.loader.bucketsByTenant = false := by
          intro slot hs
          obtain ⟨found, hf, rfl⟩ := mem_map.mp hs
          rw [Bool.not_eq_true, bucketsByTenant, List.any_eq_false] at hb
          exact Bool.eq_false_of_not_eq_true (hb found hf)
        rw [Bool.not_eq_true] at hb
        refine @Provenance.reloadAll _ decoders tenant state next registered h (_, sources)
          .refresh hr ?_ fun slot hs => ?_
        · rw [WatcherState.reload, WatcherState.reloadTenant, loadTenantSlots_unbucketed hb]
        · rw [ownRows_of_plain (hp slot hs), ownRows_of_plain (hp slot hs)]

theorem Provenance.run (h : Provenance (state.view tenant) registered)
    (hs : (state.view tenant).Settled) (reloads : Reloads Value) :
    Provenance ((state.run decoders reloads).view tenant)
      (registered.run decoders tenant state reloads) := by
  induction reloads generalizing state registered with
  | nil => exact h
  | cons reload reloads ih =>
    exact ih (h.after hs reload) (after_settled hs reload.1)

end Steps

section Origins

-- A hook that a row of the tenant registers, in one of the reloads.
def RegisteredBy (decoders : Decoders Value) (tenant : String) (reloads : Reloads Value)
    (type : HookType) (hook : HookConfigItem) : Prop :=
  ∃ reload ∈ reloads, ∃ url table, reload.2.database url = .ok table ∧
    ∃ row ∈ table, row.tenantId = some tenant ∧ row.enabled = true ∧ row.hookType = type.name ∧
      row.item decoders = .ok hook

variable {config pushed : HookConfig} {type : HookType} {hook : HookConfigItem}

theorem mem_pushRow {row : HookConfigRow Value} (h : pushRow decoders config row = .ok pushed)
    (hh : hook ∈ pushed.list type) :
    hook ∈ config.list type ∨ (row.hookType = type.name ∧ row.item decoders = .ok hook) := by
  unfold pushRow at h
  cases hie : row.item decoders with
  | error error => simp [hie] at h
  | ok item =>
    simp only [hie, Except.ok.injEq] at h
    subst h
    unfold HookConfig.push at hh
    cases hf : HOOK_TYPES.find? fun type => type.name == row.hookType with
    | none =>
      rw [hf] at hh
      exact .inl hh
    | some found =>
      rw [hf, Option.map_some, Option.getD_some, HookConfig.list_ofLists] at hh
      by_cases hs : type = found
      · subst hs
        rw [if_pos rfl] at hh
        rcases List.mem_append.mp hh with hold | hnw
        · exact .inl hold
        · have hn := List.find?_some hf
          exact .inr ⟨(beq_iff_eq.mp hn).symm, by rw [List.mem_singleton.mp hnw]⟩
      · rw [if_neg hs] at hh
        exact .inl hh

theorem mem_pushRows {rows : List (HookConfigRow Value)}
    (h : pushRows decoders config rows = .ok pushed) (hh : hook ∈ pushed.list type) :
    hook ∈ config.list type ∨
      ∃ row ∈ rows, row.hookType = type.name ∧ row.item decoders = .ok hook := by
  induction rows generalizing config with
  | nil =>
    obtain rfl := Except.ok.inj h
    exact .inl hh
  | cons row rows ih =>
    unfold pushRows at h
    cases hp : pushRow decoders config row with
    | error error => simp [hp] at h
    | ok middle =>
      simp only [hp] at h
      rcases ih h with hm | ⟨found, hf, hr⟩
      · rcases mem_pushRow hp hm with hold | hn
        · exact .inl hold
        · exact .inr ⟨row, mem_cons_self, hn⟩
      · exact .inr ⟨found, mem_cons_of_mem row hf, hr⟩

theorem mem_ownRows {reloads : Reloads Value} {reload : Reload × Sources Value}
    (hre : reload ∈ reloads) (h : loader.ownRows decoders tenant reload = some config)
    (hh : hook ∈ config.list type) : RegisteredBy decoders tenant reloads type hook := by
  have hro : (loader.loadTenant decoders reload.2 tenant).bind Except.toOption =
      some config := by
    unfold ConfigLoaderItem.ownRows at h
    split at h
    · split at h
      · exact h
      · cases h
    · split at h
      · exact h
      · cases h
  obtain ⟨result, hl, hrs⟩ := Option.bind_eq_some_iff.mp hro
  have hc := toOption_eq_some hrs
  cases loader with
  | file path | configCenter endpoint tenantId => cases hl
  | database url tenantId =>
    cases tenantId with
    | some fixed => cases hl
    | none =>
      cases hl
      unfold TenantHooks.loadTenant at hc
      cases hta : reload.2.database url with
      | error error => simp [hta, Answer.fetch] at hc
      | ok table =>
        simp only [hta, Answer.fetch] at hc
        rcases mem_pushRows hc hh with hem | ⟨row, hr, hty, hie⟩
        · simp at hem
        · have hf : row ∈ (table.filter fun row => row.tenantId = some tenant).filter
              (·.enabled) := (List.mem_insertionSort _).mp hr
          obtain ⟨hmi, hen⟩ := List.mem_filter.mp hf
          obtain ⟨hm, ht⟩ := List.mem_filter.mp hmi
          exact ⟨reload, hre, url, table, hta, row, hm, of_decide_eq_true ht, hen, hty, hie⟩

-- Every hook of what a tenant registered has a property.
def Registered.All (p : HookType → HookConfigItem → Prop) (registered : Registered) : Prop :=
  (∀ source ∈ registered.read, ∀ type, ∀ hook ∈ source.2.list type, p type hook) ∧
    ∀ type, ∀ hook ∈ registered.accepted.list type, p type hook

variable {state : WatcherState} {registered : Registered}
  {p : HookType → HookConfigItem → Prop}

theorem Registered.All.after (h : registered.All p) (reload : Reload × Sources Value)
    (hro : ∀ loader config type hook,
      ConfigLoaderItem.ownRows decoders tenant loader reload = some config →
      hook ∈ config.list type → p type hook) :
    (registered.after decoders tenant state reload).All p := by
  unfold Registered.after
  cases state.reload decoders reload.2 reload.1 with
  | error error => exact h
  | ok next =>
    have hr : ∀ source ∈ registered.read.map (fun source =>
        (source.1, (source.1.ownRows decoders tenant reload).getD source.2)),
        ∀ type, ∀ hook ∈ source.2.list type, p type hook := by
      intro source hs type hook hh
      obtain ⟨before, hb, rfl⟩ := mem_map.mp hs
      cases ho : before.1.ownRows decoders tenant reload with
      | none =>
        rw [ho] at hh
        exact h.1 before hb type hook hh
      | some config =>
        rw [ho] at hh
        exact hro before.1 config type hook ho hh
    refine ⟨hr, fun type hook hh => ?_⟩
    dsimp only at hh
    split at hh
    · obtain ⟨config, hc, hm⟩ := mem_merge hh
      obtain ⟨source, hs, rfl⟩ := mem_map.mp hc
      exact hr source hs type hook hm
    · exact h.2 type hook hh

theorem Registered.All.run {reloads all : Reloads Value}
    (h : registered.All (RegisteredBy decoders tenant all)) (hs : ∀ reload ∈ reloads,
      reload ∈ all) : (registered.run decoders tenant state reloads).All
        (RegisteredBy decoders tenant all) := by
  induction reloads generalizing state registered with
  | nil => exact h
  | cons reload reloads ih =>
    refine ih (h.after reload fun loader config type hook hon hh => ?_)
      fun other ho => hs other (mem_cons_of_mem reload ho)
    exact mem_ownRows (hs reload mem_cons_self) hon hh

theorem all_new (loaders : List ConfigLoaderItem) : (Registered.new loaders).All p := by
  refine ⟨fun source hs type hook hh => ?_, fun type hook hh => ?_⟩
  · obtain ⟨loader, -, rfl⟩ := mem_map.mp hs
    simp at hh
  · simp [Registered.new] at hh

end Origins

end FlareIm.TenantHooks
