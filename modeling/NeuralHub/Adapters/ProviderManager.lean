/-
NeuralHub.Adapters.ProviderManager — the providers of language models:
`provider_manager.py`, `provider_manager_support.py`, `provider_routing.py`
and the store under them.

The database is the authority, and the manager holds a table of the same
configurations, the adapters that were built from them, and the resilient
adapters that were put together from several of those. An adapter is the
configuration it was built from.

`Failing` says which of an operation's calls of the store raise; a call
that raises has no effect. Columns with JSON are read back as they were
written, so a row is a configuration. A change by `update` is any function,
of whose result the id is ignored.
-/
import NeuralHub.Lib.Json
import NeuralHub.Lib.Machine
import NeuralHub.Lib.Table

namespace NeuralHub.Adapters.ProviderManager

open NeuralHub.Lib

/-! ## Configurations and adapters -/

inductive ProviderType
  | openaiCompat
  | anthropic
  | ollama
  | claudeCode
  deriving DecidableEq, Repr

structure ProviderConfig where
  id : String
  name : String
  providerType : ProviderType
  baseUrl : String
  apiKey : String := ""
  defaultModel : String
  availableModels : List String := []
  isDefault : Bool := false
  extraHeaders : List (String × String) := []
  enablePromptCache : Bool := false
  promptCacheRetention : Option String := none
  extraBody : Members := .nil
  enabled : Bool := true
  roles : String := ""
  deriving DecidableEq, Repr

abbrev Providers := Table ProviderConfig.id

/-- `model_copy(update=kwargs)`. -/
def ProviderConfig.copyWith (config : ProviderConfig) (kwargs : ProviderConfig → ProviderConfig) :
    ProviderConfig :=
  { kwargs config with id := config.id }

/-- An adapter together with the id and the model it is called with. -/
structure LLMCandidate where
  providerId : String
  model : String
  adapter : ProviderConfig
  deriving DecidableEq, Repr

inductive LLMAdapter
  | base (config : ProviderConfig)
  | resilient (primary : LLMCandidate) (fallbacks : List LLMCandidate)
  deriving DecidableEq, Repr

/-- An entry of `_routed_adapters`. -/
structure RoutedAdapter where
  key : String
  primary : LLMCandidate
  fallbacks : List LLMCandidate
  deriving DecidableEq, Repr

structure Manager where
  store : Providers
  providers : Providers := .empty
  adapters : Providers := .empty
  routed : Table RoutedAdapter.key := .empty
  initialized : Bool := false

/-- The settings and the file that are read: the ids in
`llm_fallback_provider_ids`, the providers to start with, and from which
configurations `AdapterFactory.create` builds an adapter. -/
structure ProviderSettings where
  fallbackProviderIds : List String := []
  seeds : List ProviderConfig := []
  builds : ProviderConfig → Bool := fun _ => true

/-- The calls of the store that raise: those of the initialization, the
one that adds, updates or removes, and the one that sets the default. -/
structure Failing where
  listAll : Bool := false
  importFromJson : Bool := false
  initDefault : Bool := false
  write : Bool := false
  setDefault : Bool := false
  deriving DecidableEq, Repr

inductive Outcome
  | provider (config : ProviderConfig)
  | removed (found : Bool)
  | done
  | adapter (adapter : LLMAdapter)
  | error (code : String)
  deriving DecidableEq, Repr

/-! ## The default -/

/-- `is_default` becomes true for this id and false for every other. -/
def onlyDefault (t : Providers) (id : String) : Providers :=
  t.mapRows (fun config => { config with isDefault := config.id = id }) fun _ => rfl

/-- `ProviderStore.set_default`. -/
def storeSetDefault (raises : Bool) (store : Providers) (id : String) : Option Providers :=
  if raises ∨ store.find id = none then none else some (onlyDefault store id)

def firstDefault (t : Providers) : Option ProviderConfig := t.entries.find? (·.isDefault)

/-- `normalize_defaults`. -/
def normalizeDefaults (t : Providers) : Providers :=
  match firstDefault t, t.entries.head? with
  | none, some first => t.put { first with isDefault := true }
  | _, _ => t

/-- Whether `set_default_locked` leaves a configuration as it is. -/
def keepsFlag (id : String) (config : ProviderConfig) : Bool :=
  config.isDefault == decide (config.id = id)

/-- `set_default_locked`: the code of the error, if there is one. -/
def setDefaultLocked (raises : Bool) (m : Manager) (id : String) : Option String × Manager :=
  if m.providers.find id = none then (some "PROVIDER_NOT_FOUND", m)
  else
    match storeSetDefault raises m.store id with
    | none => (some "PROVIDER_SET_DEFAULT_ERROR", m)
    | some store =>
      (none, { m with
        store
        providers := onlyDefault m.providers id
        adapters := m.adapters.keep fun config =>
          (m.providers.find config.id).all (keepsFlag id)
        routed := if m.providers.entries.all (keepsFlag id) then m.routed else .empty })

/-! ## `_ensure_initialized` -/

/-- The configurations that are listed or imported, and the store behind that. -/
def loadConfigs (s : ProviderSettings) (f : Failing) (m : Manager) :
    Option (List ProviderConfig × Providers) :=
  if f.listAll then none
  else if m.store.entries ≠ [] then
    some (m.store.entries.insertionSort fun x y => x.id ≤ y.id, m.store)
  else if s.seeds = [] then some ([], m.store)
  else if f.importFromJson then none
  else (m.store.insertAll s.seeds).map fun store => (s.seeds, store)

/-- Whether the manager is initialized now. -/
def ensureInitialized (s : ProviderSettings) (f : Failing) (m : Manager) : Bool × Manager :=
  if m.initialized then (true, m)
  else
    match loadConfigs s f m with
    | none => (false, m)
    | some (configs, store) =>
      let providers := normalizeDefaults (Table.putAll .empty configs)
      match firstDefault providers with
      | none => (true, { m with store, providers, initialized := true })
      | some default =>
        match storeSetDefault f.initDefault store default.id with
        | none => (false, { m with store, providers })
        | some store =>
          (true, { m with
            store, providers := onlyDefault providers default.id, initialized := true })

/-! ## Operations of an initialized manager -/

/-- `self._providers[id]`, behind a call of `_set_default_locked`. -/
def returned (id code : String) : Option String × Manager → Outcome × Manager
  | (some error, m) => (.error error, m)
  | (none, m) =>
    match m.providers.find id with
    | some config => (.provider config, m)
    | none => (.error code, m)

/-- The default is set where the new configuration asks for it or there is none. -/
def defaultFor (raises : Bool) (m : Manager) (config : ProviderConfig) : Option String × Manager :=
  if config.isDefault || !m.providers.entries.any (·.isDefault) then
    setDefaultLocked raises m config.id
  else (none, m)

def add (f : Failing) (config : ProviderConfig) (m : Manager) : Outcome × Manager :=
  if m.providers.find config.id ≠ none then (.error "PROVIDER_EXISTS", m)
  else if f.write ∨ m.store.find config.id ≠ none then (.error "PROVIDER_ADD_ERROR", m)
  else
    let m := { m with store := m.store.put config, providers := m.providers.put config }
    returned config.id "PROVIDER_ADD_ERROR" (defaultFor f.setDefault m config)

def update (f : Failing) (id : String) (kwargs : ProviderConfig → ProviderConfig) (m : Manager) :
    Outcome × Manager :=
  if m.providers.find id = none then (.error "PROVIDER_NOT_FOUND", m)
  else if f.write then (.error "PROVIDER_UPDATE_ERROR", m)
  else
    match m.store.find id with
    | none => (.error "PROVIDER_NOT_FOUND", m)
    | some row =>
      let updated := row.copyWith kwargs
      let m := { m with
        store := m.store.put updated
        providers := m.providers.put updated
        adapters := m.adapters.erase id
        routed := .empty }
      returned id "PROVIDER_UPDATE_ERROR" (defaultFor f.setDefault m updated)

def remove (f : Failing) (id : String) (m : Manager) : Outcome × Manager :=
  let rest := { m with
    providers := m.providers.erase id, adapters := m.adapters.erase id, routed := .empty }
  match m.providers.find id with
  | none => (.removed false, rest)
  | some removed =>
    if f.write then (.error "PROVIDER_REMOVE_ERROR", rest)
    else
      let rest := { rest with store := m.store.erase id }
      match rest.providers.entries with
      | first :: _ =>
        if removed.isDefault then
          match setDefaultLocked f.setDefault rest first.id with
          | (some code, m) => (.error code, m)
          | (none, m) => (.removed true, m)
        else (.removed true, rest)
      | [] => (.removed true, rest)

def setDefault (f : Failing) (id : String) (m : Manager) : Outcome × Manager :=
  match setDefaultLocked f.setDefault m id with
  | (some code, m) => (.error code, m)
  | (none, m) => (.done, m)

/-! ## `get_adapter` -/

/-- The provider that is asked for, or else the default. -/
def Manager.targetId (m : Manager) (providerId : Option String) : Option String :=
  match providerId with
  | some id => if id ≠ "" then some id else (firstDefault m.providers).map (·.id)
  | none => (firstDefault m.providers).map (·.id)

/-- `get_base_adapter`; `none` is an error of the constructor. -/
def getBaseAdapter (s : ProviderSettings) (adapters : Providers) (config : ProviderConfig) :
    Option ProviderConfig × Providers :=
  match adapters.find config.id with
  | some adapter => (some adapter, adapters)
  | none => if s.builds config then (some config, adapters.put config) else (none, adapters)

def candidate (s : ProviderSettings) (adapters : Providers) (config : ProviderConfig) :
    Option LLMCandidate × Providers :=
  match getBaseAdapter s adapters config with
  | (some adapter, adapters) => (some ⟨config.id, config.defaultModel, adapter⟩, adapters)
  | (none, adapters) => (none, adapters)

/-- The candidates, up to the first that is not built. -/
def candidates (s : ProviderSettings) : List ProviderConfig → Providers →
    Option (List LLMCandidate) × Providers
  | [], adapters => (some [], adapters)
  | config :: configs, adapters =>
    match candidate s adapters config with
    | (none, adapters) => (none, adapters)
    | (some first, adapters) =>
      match candidates s configs adapters with
      | (none, adapters) => (none, adapters)
      | (some rest, adapters) => (some (first :: rest), adapters)

/-- `_fallback_provider_ids`. -/
def fallbackIds (s : ProviderSettings) (primaryId : String) (providers : Providers) :
    List String :=
  s.fallbackProviderIds.filter fun id => id ≠ primaryId ∧ providers.find id ≠ none

def routeKey (s : ProviderSettings) (primaryId : String) (providers : Providers) : String :=
  primaryId ++ ":" ++ ",".intercalate (fallbackIds s primaryId providers)

/-- The fallbacks that are enabled. -/
def fallbackConfigs (s : ProviderSettings) (primaryId : String) (providers : Providers) :
    List ProviderConfig :=
  ((fallbackIds s primaryId providers).filterMap providers.find).filter (·.enabled)

/-- `get_adapter`, with `get_resilient_adapter` in it. -/
def getAdapter (s : ProviderSettings) (providerId : Option String) (m : Manager) :
    Outcome × Manager :=
  match m.targetId providerId with
  | none => (.error "DEFAULT_PROVIDER_MISSING", m)
  | some id =>
    match m.providers.find id with
    | none => (.error "PROVIDER_NOT_FOUND", m)
    | some config =>
      if fallbackIds s id m.providers = [] then baseAdapter config
      else
        match m.routed.find (routeKey s id m.providers) with
        | some routed => (.adapter (.resilient routed.primary routed.fallbacks), m)
        | none =>
          if fallbackConfigs s id m.providers = [] then baseAdapter config
          else
            match candidates s (fallbackConfigs s id m.providers) m.adapters with
            | (none, adapters) => (.error "PROVIDER_ADAPTER_ERROR", { m with adapters })
            | (some fallbacks, adapters) =>
              match candidate s adapters config with
              | (none, adapters) => (.error "PROVIDER_ADAPTER_ERROR", { m with adapters })
              | (some primary, adapters) =>
                (.adapter (.resilient primary fallbacks), { m with
                  adapters
                  routed := m.routed.put ⟨routeKey s id m.providers, primary, fallbacks⟩ })
where
  /-- `base_adapter`. -/
  baseAdapter (config : ProviderConfig) : Outcome × Manager :=
    match getBaseAdapter s m.adapters config with
    | (some adapter, adapters) => (.adapter (.base adapter), { m with adapters })
    | (none, adapters) => (.error "PROVIDER_ADAPTER_ERROR", { m with adapters })

/-! ## Runs -/

inductive Operation
  | add (config : ProviderConfig)
  | update (id : String) (kwargs : ProviderConfig → ProviderConfig)
  | remove (id : String)
  | setDefault (id : String)
  | getAdapter (providerId : Option String)

def perform (s : ProviderSettings) (f : Failing) : Operation → Manager → Outcome × Manager
  | .add config => add f config
  | .update id kwargs => update f id kwargs
  | .remove id => remove f id
  | .setDefault id => setDefault f id
  | .getAdapter providerId => getAdapter s providerId

/-- An operation, which initializes the manager first. -/
def operate (s : ProviderSettings) (m : Manager) (step : Operation × Failing) : Outcome × Manager :=
  match ensureInitialized s step.2 m with
  | (true, m) => perform s step.2 step.1 m
  | (false, m) => (.error "PROVIDER_INIT_ERROR", m)

/-- The manager behind an operation, and what the operation was and returned. -/
structure ManagerState where
  manager : Manager
  last : Option (Operation × Outcome) := none

def managerMachine (s : ProviderSettings) : Machine ManagerState (Operation × Failing) where
  step state step :=
    let served := operate s state.manager step
    some { manager := served.2, last := some (step.1, served.1) }

/-- A new process, with these providers in the database. -/
def started (store : Providers) : ManagerState := { manager := { store } }

end NeuralHub.Adapters.ProviderManager
