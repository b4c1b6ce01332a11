import FlareIm.TenantHooks.Rows

namespace FlareIm.TenantHooks

section Tenancies

-- A source as one tenant sees it.
structure SlotView where
  loader : ConfigLoaderItem
  global : HookConfig
  own : Option HookConfig

-- The process as one tenant sees it.
structure Tenancy where
  slots : List SlotView
  global : HookConfig
  installed : Option HookConfig

-- What one tenant sees of a load. Its own rows are none when they cannot be read.
structure Seen where
  global : HookConfig
  own : Option (Option HookConfig)

variable (see : ConfigLoaderItem → Except ConfigError Seen)
  (seeOwn : ConfigLoaderItem → Option (Except ConfigError HookConfig))

def seeSlots (phase : LoadPhase) : List SlotView → Except ConfigError (List SlotView)
  | [] => .ok []
  | slot :: slots =>
    match see slot.loader with
    | .ok fresh => (seeSlots phase slots).map fun slots =>
      { slot with global := fresh.global, own := fresh.own.getD slot.own } :: slots
    | .error error =>
      if phase = .startup ∧ slot.loader.requiredAtStartup = true then .error error
      else (seeSlots phase slots).map fun slots => slot :: slots

def seeOwnSlots : List SlotView → Except ConfigError (List SlotView)
  | [] => .ok []
  | slot :: slots =>
    match seeOwn slot.loader with
    | none => (seeOwnSlots slots).map fun slots => slot :: slots
    | some (.error error) => .error error
    | some (.ok config) =>
      match validate config with
      | .error error => .error error
      | .ok _ => (seeOwnSlots slots).map fun slots =>
        { slot with own := if config.isEmpty then none else some config } :: slots

-- What is taken of the rows of a tenant, or of what was installed before.
def accept (configs : List HookConfig) (previous : Option HookConfig) : Option HookConfig :=
  match configs with
  | [] => none
  | configs =>
    match validate (merge configs) with
    | .ok _ => some (merge configs)
    | .error _ => previous

def install (global : HookConfig) (configs : List HookConfig) (previous : Option HookConfig) :
    Option HookConfig :=
  (accept configs previous).bind (unreserved global)

def Tenancy.publish (installed : Option HookConfig) (slots : List SlotView) :
    Except ConfigError Tenancy :=
  let global := merge (slots.map (·.global))
  match validate global with
  | .error error => .error error
  | .ok _ => .ok ⟨slots, global, install global (slots.filterMap (·.own)) installed⟩

def Tenancy.reloadAll (tenancy : Tenancy) (phase : LoadPhase) : Except ConfigError Tenancy :=
  match seeSlots see phase tenancy.slots with
  | .error error => .error error
  | .ok slots => publish tenancy.installed slots

def Tenancy.reloadOwn (tenancy : Tenancy) : Except ConfigError Tenancy :=
  match seeOwnSlots seeOwn tenancy.slots with
  | .error error => .error error
  | .ok slots => publish tenancy.installed slots

def ConfigLoaderItem.bucketsByTenant : ConfigLoaderItem → Bool
  | .database _ none => true
  | _ => false

-- What is published already does not change when it is published again.
def Tenancy.Settled (tenancy : Tenancy) : Prop :=
  Tenancy.publish tenancy.installed tenancy.slots = .ok tenancy

-- Either the rows are taken whatever was there before, or nothing changes.
theorem accept_cases (configs : List HookConfig) :
    (∃ taken, ∀ previous, accept configs previous = taken) ∨
      ∀ previous, accept configs previous = previous := by
  unfold accept
  cases configs with
  | nil => exact .inl ⟨none, fun _ => rfl⟩
  | cons config configs =>
    cases hv : validate (merge (config :: configs)) with
    | ok done => exact .inl ⟨some (merge (config :: configs)), fun _ => by simp only [hv]⟩
    | error error => exact .inr fun _ => by simp only [hv]

theorem install_install (global : HookConfig) (configs : List HookConfig)
    (previous : Option HookConfig) :
    install global configs (install global configs previous) = install global configs previous := by
  unfold install
  rcases accept_cases configs with ⟨taken, ht⟩ | hk
  · rw [ht, ht]
  · rw [hk, hk]
    cases previous with
    | none => rfl
    | some previous =>
      rw [Option.bind_some]
      cases hk : unreserved global previous with
      | none => rfl
      | some kept =>
        rw [Option.bind_some]
        exact (unreserved_eq_some hk).2

theorem Tenancy.settled_of_publish {installed : Option HookConfig} {slots : List SlotView}
    {tenancy : Tenancy} (h : Tenancy.publish installed slots = .ok tenancy) :
    tenancy.Settled := by
  unfold Tenancy.publish at h
  cases hv : validate (merge (slots.map (·.global))) with
  | error error => simp [hv] at h
  | ok done =>
    simp only [hv, Except.ok.injEq] at h
    subst h
    simp only [Tenancy.Settled, Tenancy.publish, hv, install_install]

end Tenancies

end FlareIm.TenantHooks
