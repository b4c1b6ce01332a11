import FlareIm.Lib.Sorted
import FlareIm.TenantHooks
import Mathlib.Data.Prod.Lex
import Mathlib.Logic.Function.Basic

namespace FlareIm.TenantHooks

variable {Value : Type}

section Rows

-- A row of `hook_configs`.
structure HookConfigRow (Value : Type) where
  id : Int64
  tenantId : Option String
  hookType : String
  name : String
  version : Option String := none
  description : Option String := none
  enabled : Bool := true
  priority : Int32 := 100
  groupName : Option String := none
  timeoutMs : Int64 := 1000
  maxRetries : Int32 := 0
  errorPolicy : String := "fail_fast"
  requireSuccess : Bool := true
  selectorConfig : Value
  transportConfig : Value
  metadata : Option Value := none

-- How the columns of JSON are read.
structure Decoders (Value : Type) where
  selector : Value → Option HookSelectorConfig
  transport : Value → Option HookTransportConfig
  metadata : Value → Option (List (String × String))

variable (decoders : Decoders Value)

def expect {A : Type} (reason : String) : Option A → Except ConfigError A
  | none => .error { reason }
  | some value => .ok value

def HookConfigRow.item (row : HookConfigRow Value) : Except ConfigError HookConfigItem := do
  let selector ← expect "failed to deserialize selector config"
    (decoders.selector row.selectorConfig)
  let transport ← expect "failed to deserialize transport config"
    (decoders.transport row.transportConfig)
  let metadata ← match row.metadata with
    | some value => expect "failed to deserialize metadata" (decoders.metadata value)
    | none => .ok []
  .ok
    { name := row.name
      version := row.version
      description := row.description
      enabled := row.enabled
      priority := row.priority
      group := row.groupName
      timeoutMs := row.timeoutMs.toUInt64
      maxRetries := row.maxRetries.toUInt32
      errorPolicy := row.errorPolicy
      requireSuccess := row.requireSuccess
      selector, transport, metadata }

-- A row of an unknown type is left out.
def pushRow (config : HookConfig) (row : HookConfigRow Value) : Except ConfigError HookConfig :=
  match row.item decoders with
  | .error error => .error error
  | .ok hook => .ok ((config.push row.hookType hook).getD config)

def pushRows : HookConfig → List (HookConfigRow Value) → Except ConfigError HookConfig
  | config, [] => .ok config
  | config, row :: rows =>
    match pushRow decoders config row with
    | .error error => .error error
    | .ok config => pushRows config rows

structure TenantHookRows where
  global : HookConfig := {}
  tenants : String → Option HookConfig := fun _ => none
  failedTenants : List String := []

def TenantHookRows.add (loaded : TenantHookRows) (row : HookConfigRow Value) :
    Except ConfigError TenantHookRows :=
  match row.tenantId with
  | none =>
    match pushRow decoders loaded.global row with
    | .error error => .error error
    | .ok global => .ok { loaded with global }
  | some tenant =>
    if tenant ∈ loaded.failedTenants then .ok loaded
    else
      match pushRow decoders ((loaded.tenants tenant).getD {}) row with
      | .ok bucket =>
        .ok { loaded with tenants := Function.update loaded.tenants tenant (some bucket) }
      | .error _ =>
        .ok { loaded with
          tenants := Function.update loaded.tenants tenant none
          failedTenants := tenant :: loaded.failedTenants }

def TenantHookRows.addAll : TenantHookRows → List (HookConfigRow Value) →
    Except ConfigError TenantHookRows
  | loaded, [] => .ok loaded
  | loaded, row :: rows =>
    match loaded.add decoders row with
    | .error error => .error error
    | .ok loaded => loaded.addAll rows

-- `WHERE enabled = true .. ORDER BY hook_type, priority ASC, id ASC`.
def fetchRows (table : List (HookConfigRow Value)) : List (HookConfigRow Value) :=
  Sorted.sortBy (fun row => toLex (row.hookType, toLex (row.priority.toInt, row.id.toInt)))
    (table.filter (·.enabled))

-- What the table holds when it is read, or why it cannot be read.
abbrev Answer (Value : Type) := Except String (List (HookConfigRow Value))

def Answer.fetch (answer : Answer Value) (what : String) :
    Except ConfigError (List (HookConfigRow Value)) :=
  match answer with
  | .error error => .error { reason := "failed to fetch " ++ what ++ ": " ++ error }
  | .ok table => .ok table

-- The rows of every tenant, or the one of a tenant of its own. Those of one priority come in any
-- order; here in the one of the table.
def loadAll (tenantId : String) (answer : Answer Value) : Except ConfigError HookConfig :=
  match answer.fetch "hook configs" with
  | .error error => .error error
  | .ok table => pushRows decoders {}
      (Sorted.sortBy (fun row => toLex (row.hookType, row.priority.toInt))
        (table.filter fun row =>
          row.enabled && (row.tenantId = none || row.tenantId = some tenantId)))

def loadByTenant (answer : Answer Value) : Except ConfigError TenantHookRows :=
  match answer.fetch "hook configs" with
  | .error error => .error error
  | .ok table => TenantHookRows.addAll decoders {} (fetchRows table)

def loadTenant (tenantId : String) (answer : Answer Value) : Except ConfigError HookConfig :=
  match answer.fetch "tenant hook configs" with
  | .error error => .error error
  | .ok table => pushRows decoders {}
      (fetchRows (table.filter fun row => row.tenantId = some tenantId))

end Rows

section Loaders

structure LoadedHookConfig where
  global : HookConfig := {}
  tenants : String → Option HookConfig := fun _ => none
  failedTenants : List String := []

-- Each tenant that failed keeps what the source loaded before.
def LoadedHookConfig.inheritFailedTenants (loaded : LoadedHookConfig)
    (previous : Option LoadedHookConfig) : LoadedHookConfig where
  global := loaded.global
  tenants := loaded.failedTenants.foldl
    (fun tenants tenant =>
      Function.update tenants tenant (previous.bind fun previous => previous.tenants tenant))
    loaded.tenants

inductive ConfigLoaderItem where
  | file (path : String)
  | database (url : String) (tenantId : Option String)
  | configCenter (endpoint : String) (tenantId : Option String)

-- What each source holds at a reload. A file that is not there is none.
structure Sources (Value : Type) where
  file : String → Except String (Option HookConfig)
  configCenter : String → String → Except String HookConfig
  database : String → Answer Value

def configKey : Option String → String
  | some tenant => "/flare/hooks/" ++ tenant ++ "/config"
  | none => "/flare/hooks/config"

def fileError (path reason : String) : ConfigError where
  reason := "Hook config file " ++ path ++ " " ++ reason

def reasonWithDetails (error : ConfigError) : String :=
  match error.details with
  | some details => error.reason ++ " (" ++ details ++ ")"
  | none => error.reason

def readFile (path : String) (found : Except String (Option HookConfig)) :
    Except ConfigError HookConfig :=
  match found with
  | .error reason => .error (fileError path reason)
  | .ok none => .ok {}
  | .ok (some config) =>
    match validate config with
    | .error error => .error (fileError path ("is invalid: " ++ reasonWithDetails error))
    | .ok _ => .ok config

variable (decoders : Decoders Value) (sources : Sources Value)

def ConfigLoaderItem.load : ConfigLoaderItem → Except ConfigError LoadedHookConfig
  | .file path => (readFile path (sources.file path)).map fun global => { global }
  | .configCenter endpoint tenantId =>
    match sources.configCenter endpoint (configKey tenantId) with
    | .error reason => .error { reason }
    | .ok global => .ok { global }
  | .database url (some tenantId) =>
    (loadAll decoders tenantId (sources.database url)).map fun global => { global }
  | .database url none =>
    (loadByTenant decoders (sources.database url)).map fun rows =>
      ⟨rows.global, rows.tenants, rows.failedTenants⟩

def ConfigLoaderItem.loadTenant (tenantId : String) :
    ConfigLoaderItem → Option (Except ConfigError HookConfig)
  | .database url none => some (TenantHooks.loadTenant decoders tenantId (sources.database url))
  | _ => none

def ConfigLoaderItem.requiredAtStartup : ConfigLoaderItem → Bool
  | .file _ => true
  | _ => false

-- The sources a process is set up with, in the order of their priority.
structure HookSources where
  configFile : Option String
  configCenterEndpoint : Option String
  databaseUrl : Option String
  tenantId : Option String

def HookSources.loaders (config : HookSources) : List ConfigLoaderItem :=
  (config.configFile.map .file).toList ++
    (config.configCenterEndpoint.map fun endpoint =>
      ConfigLoaderItem.configCenter endpoint config.tenantId).toList ++
    (config.databaseUrl.map fun url => ConfigLoaderItem.database url config.tenantId).toList

end Loaders

section Snapshot

structure HookConfigSnapshot where
  global : HookConfig := {}
  tenants : String → Option HookConfig := fun _ => none

-- A bucket without the names that are reserved. An empty one is none.
def unreserved (global config : HookConfig) : Option HookConfig :=
  let config := config.removeReserved global
  if config.isEmpty then none else some config

def HookConfigSnapshot.new (global : HookConfig) (tenants : String → Option HookConfig) :
    HookConfigSnapshot where
  global := global
  tenants tenant := (tenants tenant).bind (unreserved global)

def HookConfigSnapshot.forTenant (snapshot : HookConfigSnapshot) (tenantId : String) :
    HookConfig :=
  let merged :=
    match snapshot.tenants tenantId with
    | some own => snapshot.global.extendKeepingExisting own
    | none => snapshot.global
  merged.retainTenant tenantId

-- What each source loaded for a tenant.
def layers (loaded : List (Option LoadedHookConfig)) (tenantId : String) : List HookConfig :=
  (loaded.filterMap id).filterMap fun source => source.tenants tenantId

def HookConfigSnapshot.build (loaded : List (Option LoadedHookConfig))
    (previous : HookConfigSnapshot) : Except ConfigError HookConfigSnapshot :=
  let global := merge ((loaded.filterMap id).map (·.global))
  match validate global with
  | .error error => .error error
  | .ok _ => .ok (.new global fun tenant =>
    match layers loaded tenant with
    | [] => none
    | configs =>
      match validate (merge configs) with
      | .ok _ => some (merge configs)
      | .error _ => previous.tenants tenant)

end Snapshot

section Watcher

-- A source, with what it loaded last.
structure Slot where
  loader : ConfigLoaderItem
  loaded : Option LoadedHookConfig := none

structure WatcherState where
  slots : List Slot
  current : HookConfigSnapshot := {}

def WatcherState.new (loaders : List ConfigLoaderItem) : WatcherState where
  slots := loaders.map fun loader => { loader }

inductive LoadPhase where
  | startup
  | refresh
  deriving DecidableEq

inductive Reload where
  | all (phase : LoadPhase)
  | tenant (tenantId : String)

def publish (current : HookConfigSnapshot) (slots : List Slot) :
    Except ConfigError WatcherState :=
  match HookConfigSnapshot.build (slots.map (·.loaded)) current with
  | .error error => .error error
  | .ok current => .ok { slots, current }

variable (decoders : Decoders Value) (sources : Sources Value)

-- The slots after a full load, with the number of the sources that failed.
def loadSlots (phase : LoadPhase) : List Slot → Except ConfigError (List Slot × Nat)
  | [] => .ok ([], 0)
  | slot :: slots =>
    match slot.loader.load decoders sources with
    | .ok fresh =>
      match loadSlots phase slots with
      | .error error => .error error
      | .ok (slots, failed) => .ok
          ({ slot with loaded := some (fresh.inheritFailedTenants slot.loaded) } :: slots,
            failed)
    | .error error =>
      if phase = .startup ∧ slot.loader.requiredAtStartup = true then .error error
      else
        match loadSlots phase slots with
        | .error error => .error error
        | .ok (slots, failed) => .ok (slot :: slots, failed + 1)

def WatcherState.reloadAll (state : WatcherState) (phase : LoadPhase) :
    Except ConfigError (WatcherState × Nat) :=
  match loadSlots decoders sources phase state.slots with
  | .error error => .error error
  | .ok (slots, failed) =>
    match publish state.current slots with
    | .error error => .error error
    | .ok state => .ok (state, failed)

def LoadedHookConfig.setTenant (loaded : LoadedHookConfig) (tenantId : String)
    (config : HookConfig) : LoadedHookConfig :=
  { loaded with
    tenants := Function.update loaded.tenants tenantId
      (if config.isEmpty then none else some config)
    failedTenants := loaded.failedTenants.filter (· ≠ tenantId) }

-- The slots after one tenant's rows are loaded, and whether any source has its rows apart.
def loadTenantSlots (tenantId : String) : List Slot → Except ConfigError (List Slot × Bool)
  | [] => .ok ([], false)
  | slot :: slots =>
    match slot.loader.loadTenant decoders sources tenantId with
    | none =>
      match loadTenantSlots tenantId slots with
      | .error error => .error error
      | .ok (slots, apart) => .ok (slot :: slots, apart)
    | some (.error error) => .error error
    | some (.ok config) =>
      match validate config with
      | .error error => .error error
      | .ok _ =>
        match loadTenantSlots tenantId slots with
        | .error error => .error error
        | .ok (slots, _) => .ok
            ({ slot with
              loaded := some ((slot.loaded.getD {}).setTenant tenantId config) } :: slots,
              true)

def WatcherState.reloadTenant (state : WatcherState) (tenantId : String) :
    Except ConfigError WatcherState :=
  match loadTenantSlots decoders sources tenantId state.slots with
  | .error error => .error error
  | .ok (slots, true) => publish state.current slots
  | .ok (_, false) => (state.reloadAll decoders sources .refresh).map Prod.fst

def WatcherState.reload (state : WatcherState) : Reload → Except ConfigError WatcherState
  | .all phase => (state.reloadAll decoders sources phase).map Prod.fst
  | .tenant tenantId => state.reloadTenant decoders sources tenantId

-- A reload that fails leaves everything as it was.
def WatcherState.after (state : WatcherState) (reload : Reload) : WatcherState :=
  match state.reload decoders sources reload with
  | .error _ => state
  | .ok state => state

-- The reloads of a run, each with what the sources hold then.
abbrev Reloads (Value : Type) := List (Reload × Sources Value)

def WatcherState.run (state : WatcherState) (reloads : Reloads Value) : WatcherState :=
  reloads.foldl (fun state reload => state.after decoders reload.2 reload.1) state

end Watcher

end FlareIm.TenantHooks
