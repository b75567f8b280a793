/-
NeuralHub.Adapters.ProviderConsistency — when the table of providers, the
database and the adapters agree.

A call of the store that raises does no harm where it is the first one of
an operation that adds, updates or sets the default. Behind a first effect
it does: `remove` takes the provider out of the table before it asks the
database, and `add`, `update` and `remove` have changed both when the
default is set. `StepOk` says which failures are harmless, and
`always_good_iff` that it says so exactly.
-/
import NeuralHub.Adapters.ProviderManager

namespace NeuralHub.Adapters.ProviderManager

open NeuralHub.Lib

variable {s : ProviderSettings} {f : Failing} {m : Manager} {t u : Providers} {id : String}

/-! ## What is to hold -/

/-- This provider is the default, and no other. -/
def HasDefault (t : Providers) (id : String) : Prop :=
  t.find id ≠ none ∧ ∀ k config, t.find k = some config → (config.isDefault = true ↔ k = id)

/-- There is one default, or no provider. -/
def OneDefault (t : Providers) : Prop := (∀ k, t.find k = none) ∨ ∃ id, HasDefault t id

/-- The table holds what the database holds. -/
structure Consistent (m : Manager) : Prop where
  same : ∀ k, m.providers.find k = m.store.find k
  default : OneDefault m.providers

/-- A candidate of the current configuration of its provider. -/
def Current (t : Providers) (c : LLMCandidate) : Prop :=
  t.find c.providerId = some c.adapter ∧ c.model = c.adapter.defaultModel

/-- An adapter for the provider that is asked for, built from the current configurations. -/
def BuiltFor (m : Manager) (providerId : Option String) (adapter : LLMAdapter) : Prop :=
  ∃ id config, m.targetId providerId = some id ∧ m.providers.find id = some config ∧
    match adapter with
    | .base built => built = config
    | .resilient primary fallbacks => primary.providerId = id ∧ Current m.providers primary ∧
        ∀ c ∈ fallbacks, Current m.providers c

/-- What is to hold behind an operation. -/
structure Good (state : ManagerState) : Prop where
  consistent : ∀ last, state.last = some last → Consistent state.manager
  adapter : ∀ providerId adapter, state.last = some (.getAdapter providerId, .adapter adapter) →
    BuiltFor state.manager providerId adapter

/-! ## Harmless failures -/

/-- The initialization fails only where the table and the default are right already. -/
def InitOk (s : ProviderSettings) (f : Failing) (m : Manager) : Prop :=
  m.initialized = true ∨ ((f.listAll = true → Consistent m) ∧
    ∀ configs store, loadConfigs s f m = some (configs, store) → f.initDefault = true →
      OneDefault store)

/-- Where the default cannot be set it is right already, and what is removed
is removed from the database. An adapter that is cached for a provider is
not under the key of another one. -/
def OperationOk (s : ProviderSettings) (f : Failing) (m : Manager) : Operation → Prop
  | .add config => m.providers.find config.id = none → f.write = false → f.setDefault = true →
      (config.isDefault = true ↔ ∀ k, m.providers.find k = none)
  | .update id kwargs => ∀ config, m.providers.find id = some config → f.write = false →
      f.setDefault = true → (config.copyWith kwargs).isDefault = config.isDefault
  | .remove id => ∀ config, m.providers.find id = some config → f.write = false ∧
      (f.setDefault = true → config.isDefault = true → ∀ k, k ≠ id → m.providers.find k = none)
  | .setDefault _ => True
  | .getAdapter providerId => ∀ id config, m.targetId providerId = some id →
      m.providers.find id = some config → fallbackIds s id m.providers ≠ [] →
      ∀ routed, m.routed.find (routeKey s id m.providers) = some routed →
        routed.primary.providerId = id

def StepOk (s : ProviderSettings) (state : ManagerState) (step : Operation × Failing) : Prop :=
  InitOk s step.2 state.manager ∧
    ∀ m, ensureInitialized s step.2 state.manager = (true, m) → OperationOk s step.2 m step.1

/-! ## Defaults -/

theorem find_onlyDefault (t : Providers) (id k : String) :
    (onlyDefault t id).find k =
      (t.find k).map fun config => { config with isDefault := config.id = id } :=
  t.find_mapRows _ k

theorem hasDefault_onlyDefault (h : t.find id ≠ none) : HasDefault (onlyDefault t id) id := by
  refine ⟨?_, fun k config hk => ?_⟩
  · rw [find_onlyDefault]
    simpa using h
  · have hkey := Table.key_of_find hk
    rw [find_onlyDefault, Option.map_eq_some_iff] at hk
    obtain ⟨before, hbefore, rfl⟩ := hk
    simp [← hkey]

theorem HasDefault.congr (h : ∀ k, t.find k = u.find k) (ht : HasDefault t id) :
    HasDefault u id := by
  simpa only [HasDefault, h] using ht

theorem OneDefault.congr (h : ∀ k, t.find k = u.find k) (ht : OneDefault t) : OneDefault u := by
  simpa only [OneDefault, HasDefault, h] using ht

theorem oneDefault_onlyDefault (h : t.find id ≠ none) : OneDefault (onlyDefault t id) :=
  .inr ⟨id, hasDefault_onlyDefault h⟩

/-- Where a provider has the flag it is the default one. -/
theorem HasDefault.eq_of_isDefault {k : String} {config : ProviderConfig} (h : HasDefault t id)
    (hk : t.find k = some config) (hflag : config.isDefault = true) : k = id :=
  (h.2 k config hk).mp hflag

theorem HasDefault.exists_config (h : HasDefault t id) :
    ∃ config, t.find id = some config ∧ config.isDefault = true := by
  obtain ⟨config, hconfig⟩ := Option.ne_none_iff_exists'.mp h.1
  exact ⟨config, hconfig, (h.2 id config hconfig).mpr rfl⟩

theorem any_isDefault_iff (t : Providers) : t.entries.any (·.isDefault) = true ↔
    ∃ k config, t.find k = some config ∧ config.isDefault = true := by
  rw [List.any_eq_true]
  constructor
  · rintro ⟨config, hmem, hflag⟩
    exact ⟨config.id, config, Table.find_of_mem hmem, hflag⟩
  · rintro ⟨k, config, hfind, hflag⟩
    exact ⟨config, Table.mem_of_find hfind, hflag⟩

theorem firstDefault_eq_none_iff (t : Providers) : firstDefault t = none ↔
    t.entries.any (·.isDefault) = false := by
  rw [firstDefault, List.find?_eq_none, List.any_eq_false]

theorem find_of_firstDefault {config : ProviderConfig} (h : firstDefault t = some config) :
    t.find config.id = some config :=
  Table.find_of_mem (List.mem_of_find?_eq_some h)

theorem entries_eq_nil_iff (t : Providers) : t.entries = [] ↔ ∀ k, t.find k = none := by
  constructor
  · intro h k
    rw [Table.find, h]
    rfl
  · intro h
    rw [List.eq_nil_iff_forall_not_mem]
    intro config hmem
    have hnone := h config.id
    rw [Table.find_of_mem hmem] at hnone
    cases hnone

/-! ## Setting the default -/

/-- What is cached was built from the current configurations. -/
structure Fresh (m : Manager) : Prop where
  adapters : ∀ k config, m.adapters.find k = some config → m.providers.find k = some config
  routed : ∀ k routed, m.routed.find k = some routed →
    Current m.providers routed.primary ∧ ∀ c ∈ routed.fallbacks, Current m.providers c

theorem keepsFlag_eq {config : ProviderConfig} (h : keepsFlag id config = true) :
    { config with isDefault := config.id = id } = config := by
  rw [keepsFlag, beq_iff_eq] at h
  rw [← h]

theorem setDefaultLocked_of_notFound {raises : Bool} (h : m.providers.find id = none) :
    setDefaultLocked raises m id = (some "PROVIDER_NOT_FOUND", m) := by
  rw [setDefaultLocked, if_pos h]

/-- The database refuses and nothing has changed, or the default is set in both. -/
theorem setDefaultLocked_cases (hsame : ∀ k, m.providers.find k = m.store.find k)
    (hid : m.providers.find id ≠ none) (raises : Bool) :
    (raises = true ∧ setDefaultLocked raises m id = (some "PROVIDER_SET_DEFAULT_ERROR", m)) ∨
      (raises = false ∧ ∃ m', setDefaultLocked raises m id = (none, m') ∧ Consistent m' ∧
        m'.initialized = m.initialized ∧ (Fresh m → Fresh m')) := by
  rw [setDefaultLocked, if_neg hid]
  cases raises with
  | true => exact .inl ⟨rfl, by simp [storeSetDefault]⟩
  | false =>
    have hstore : storeSetDefault false m.store id = some (onlyDefault m.store id) := by
      rw [storeSetDefault, if_neg]
      simpa [← hsame] using hid
    rw [hstore]
    refine .inr ⟨rfl, _, rfl, ⟨fun k => ?_, oneDefault_onlyDefault hid⟩, rfl, fun hfresh => ?_⟩
    · show (onlyDefault m.providers id).find k = (onlyDefault m.store id).find k
      rw [find_onlyDefault, find_onlyDefault, hsame]
    refine ⟨?_, ?_⟩
    · intro k config hk
      obtain ⟨hcached, hkeep⟩ := Table.find_keep_eq_some_iff.mp hk
      have hfind := hfresh.adapters k config hcached
      rw [Table.key_of_find hfind, hfind] at hkeep
      show (onlyDefault m.providers id).find k = some config
      rw [find_onlyDefault, hfind, Option.map_some, keepsFlag_eq hkeep]
    · intro k routed hk
      by_cases hall : m.providers.entries.all (keepsFlag id) = true
      · simp only [hall, if_true] at hk
        have hfind : ∀ k, (onlyDefault m.providers id).find k = m.providers.find k := by
          intro k
          rw [find_onlyDefault]
          cases hk : m.providers.find k with
          | none => rfl
          | some config =>
            rw [Option.map_some, keepsFlag_eq (List.all_eq_true.mp hall _ (Table.mem_of_find hk))]
        simpa only [Current, hfind] using hfresh.routed k routed hk
      · simp only [hall] at hk
        cases hk

@[simp] theorem returned_snd (code : String) (result : Option String × Manager) :
    (returned id code result).2 = result.2 := by
  obtain ⟨error, m⟩ := result
  cases error with
  | some error => rfl
  | none =>
    rw [returned]
    cases m.providers.find id <;> rfl

/-- Another provider is marked as the default. -/
def OtherDefault (t : Providers) (id : String) : Prop :=
  ∃ k config, k ≠ id ∧ t.find k = some config ∧ config.isDefault = true

theorem oneDefault_put (ht : OneDefault t) (config : ProviderConfig) :
    OneDefault (t.put config) ↔ (config.isDefault = true ↔ ¬OtherDefault t config.id) := by
  have hself : (t.put config).find config.id = some config := Table.find_put_self t config
  have hother : ∀ {k}, k ≠ config.id → (t.put config).find k = t.find k :=
    fun hk => t.find_put_of_ne hk
  constructor
  · rintro (hempty | ⟨id, hid⟩)
    · rw [hempty] at hself
      cases hself
    · rw [hid.2 _ _ hself]
      constructor
      · rintro rfl ⟨k, c, hk, hfind, hflag⟩
        exact hk (hid.eq_of_isDefault ((hother hk).trans hfind) hflag)
      · intro hnot
        by_contra hne
        obtain ⟨c, hfind, hflag⟩ := hid.exists_config
        exact hnot ⟨id, c, Ne.symm hne, (hother (Ne.symm hne)).symm.trans hfind, hflag⟩
  · intro hiff
    by_cases hflag : config.isDefault = true
    · refine .inr ⟨config.id, by simp [hself], fun k c hk => ?_⟩
      by_cases hne : k = config.id
      · subst hne
        rw [hself] at hk
        cases hk
        exact iff_of_true hflag rfl
      · rw [hother hne] at hk
        exact iff_of_false (fun hc => hiff.mp hflag ⟨k, c, hne, hk, hc⟩) hne
    · obtain ⟨k, c, hne, hk, hc⟩ : OtherDefault t config.id := by
        by_contra hnot
        exact hflag (hiff.mpr hnot)
      rcases ht with hempty | ⟨id, hid⟩
      · rw [hempty] at hk
        cases hk
      · obtain rfl := hid.eq_of_isDefault hk hc
        refine .inr ⟨k, by simp [hother hne, hk], fun l d hl => ?_⟩
        by_cases hle : l = config.id
        · subst hle
          rw [hself] at hl
          cases hl
          exact iff_of_false hflag (Ne.symm hne)
        · rw [hother hle] at hl
          exact hid.2 l d hl

theorem any_isDefault_put (t : Providers) (config : ProviderConfig) :
    (t.put config).entries.any (·.isDefault) = true ↔
      config.isDefault = true ∨ OtherDefault t config.id := by
  rw [any_isDefault_iff]
  constructor
  · rintro ⟨k, c, hk, hflag⟩
    rw [Table.find_put] at hk
    split at hk
    · cases hk
      exact .inl hflag
    · rename_i hne
      exact .inr ⟨k, c, hne, hk, hflag⟩
  · rintro (hflag | ⟨k, c, hne, hk, hflag⟩)
    · exact ⟨_, _, Table.find_put_self t config, hflag⟩
    · exact ⟨k, c, by rw [t.find_put_of_ne hne, hk], hflag⟩

/-- A configuration is written into the table and the database, and the
default set where it has to be: this fails only where it is right already. -/
theorem write_spec {before : Manager} {config : ProviderConfig} (hbefore : Consistent before)
    (hproviders : m.providers = before.providers.put config)
    (hstore : m.store = before.store.put config) (hfresh : Fresh m) (raises : Bool) :
    Fresh (defaultFor raises m config).2 ∧
      (defaultFor raises m config).2.initialized = m.initialized ∧
      (Consistent (defaultFor raises m config).2 ↔ (raises = true →
        (config.isDefault = true ↔ ¬OtherDefault before.providers config.id))) := by
  have hsame : ∀ k, m.providers.find k = m.store.find k := by
    intro k
    rw [hproviders, hstore, Table.find_put, Table.find_put, hbefore.same]
  have hid : m.providers.find config.id ≠ none := by
    rw [hproviders, Table.find_put_self]
    exact Option.some_ne_none _
  have hunchanged : Consistent m ↔
      (config.isDefault = true ↔ ¬OtherDefault before.providers config.id) := by
    rw [← oneDefault_put hbefore.default, ← hproviders]
    exact ⟨fun h => h.default, fun h => ⟨hsame, h⟩⟩
  have hany := any_isDefault_put before.providers config
  rw [← hproviders] at hany
  unfold defaultFor
  by_cases hcall : (config.isDefault || !m.providers.entries.any (·.isDefault)) = true
  · rw [if_pos hcall]
    rcases setDefaultLocked_cases hsame hid raises with
      ⟨rfl, heq⟩ | ⟨rfl, m', heq, hconsistent, hinit, hnext⟩
    · rw [heq]
      exact ⟨hfresh, rfl, by simpa using hunchanged⟩
    · rw [heq]
      exact ⟨hnext hfresh, hinit, iff_of_true hconsistent (by simp)⟩
  · rw [if_neg hcall]
    simp only [Bool.or_eq_true, Bool.not_eq_true', not_or, Bool.not_eq_false, hany] at hcall
    obtain ⟨hflag, hflag' | hother⟩ := hcall
    · exact absurd hflag' hflag
    · have hright : config.isDefault = true ↔ ¬OtherDefault before.providers config.id :=
        iff_of_false hflag (not_not_intro hother)
      exact ⟨hfresh, rfl, iff_of_true (hunchanged.mpr hright) fun _ => hright⟩

/-! ## `add`, `update`, `remove` and `set_default` -/

theorem Current.put {config : ProviderConfig} {c : LLMCandidate}
    (hnew : t.find config.id = none) (h : Current t c) : Current (t.put config) c := by
  refine ⟨?_, h.2⟩
  rw [t.find_put_of_ne, h.1]
  rintro heq
  rw [← heq, h.1] at hnew
  cases hnew

theorem add_spec (hm : Consistent m) (hfresh : Fresh m) (config : ProviderConfig) :
    Fresh (add f config m).2 ∧ (add f config m).2.initialized = m.initialized ∧
      (Consistent (add f config m).2 ↔ OperationOk s f m (.add config)) := by
  unfold add
  by_cases hfound : m.providers.find config.id ≠ none
  · rw [if_pos hfound]
    exact ⟨hfresh, rfl, iff_of_true hm fun hnone => absurd hnone hfound⟩
  rw [if_neg hfound]
  rw [not_not] at hfound
  have hstore : m.store.find config.id = none := (hm.same _).symm.trans hfound
  cases hwrite : f.write with
  | true => exact ⟨hfresh, rfl, iff_of_true hm fun _ hnot => by simp [hwrite] at hnot⟩
  | false =>
    rw [if_neg (by simp [hstore])]
    dsimp only
    rw [returned_snd]
    have hnext : Fresh { m with
        store := m.store.put config, providers := m.providers.put config } := by
      refine ⟨fun k c hk => ?_, fun k routed hk => ?_⟩
      · have hfind := hfresh.adapters k c hk
        show (m.providers.put config).find k = some c
        rw [Table.find_put_of_ne, hfind]
        rintro rfl
        rw [hfound] at hfind
        cases hfind
      · obtain ⟨hprimary, hfallbacks⟩ := hfresh.routed k routed hk
        exact ⟨hprimary.put hfound, fun c hc => (hfallbacks c hc).put hfound⟩
    obtain ⟨hfresh', hinit, hiff⟩ := write_spec hm rfl rfl hnext f.setDefault
    refine ⟨hfresh', hinit, hiff.trans ?_⟩
    have hother : ¬OtherDefault m.providers config.id ↔ ∀ k, m.providers.find k = none := by
      constructor
      · intro hnot
        rcases hm.default with hempty | ⟨id, hid⟩
        · exact hempty
        · obtain ⟨c, hc, hflag⟩ := hid.exists_config
          refine absurd ⟨id, c, ?_, hc, hflag⟩ hnot
          rintro rfl
          rw [hfound] at hc
          cases hc
      · rintro hempty ⟨k, c, -, hk, -⟩
        rw [hempty] at hk
        cases hk
    rw [hother]
    exact ⟨fun h _ _ => h, fun h => h hfound hwrite⟩

theorem update_spec (hm : Consistent m) (hfresh : Fresh m) (id : String)
    (kwargs : ProviderConfig → ProviderConfig) :
    Fresh (update f id kwargs m).2 ∧ (update f id kwargs m).2.initialized = m.initialized ∧
      (Consistent (update f id kwargs m).2 ↔ OperationOk s f m (.update id kwargs)) := by
  unfold update
  cases hfound : m.providers.find id with
  | none =>
    rw [if_pos rfl]
    exact ⟨hfresh, rfl, iff_of_true hm fun config hconfig => by simp [hfound] at hconfig⟩
  | some current =>
    rw [if_neg (Option.some_ne_none current)]
    cases hwrite : f.write with
    | true => exact ⟨hfresh, rfl, iff_of_true hm fun _ _ hnot => by simp [hwrite] at hnot⟩
    | false =>
      have hstore : m.store.find id = some current := (hm.same id).symm.trans hfound
      have hid : (current.copyWith kwargs).id = id := (Table.key_of_find hfound : current.id = id)
      rw [hstore]
      simp only [Bool.false_eq_true, if_false]
      rw [returned_snd]
      have hnext : Fresh { m with
          store := m.store.put (current.copyWith kwargs)
          providers := m.providers.put (current.copyWith kwargs)
          adapters := m.adapters.erase id
          routed := .empty } := by
        refine ⟨fun k c hk => ?_, fun k routed hk => by cases hk⟩
        change (m.adapters.erase id).find k = some c at hk
        rw [Table.find_erase] at hk
        split at hk
        · cases hk
        · rename_i hne
          show (m.providers.put _).find k = some c
          rw [Table.find_put_of_ne _ (hid ▸ hne)]
          exact hfresh.adapters k c hk
      obtain ⟨hfresh', hinit, hiff⟩ := write_spec hm rfl rfl hnext f.setDefault
      refine ⟨hfresh', hinit, hiff.trans ?_⟩
      have hother : ¬OtherDefault m.providers (current.copyWith kwargs).id ↔
          current.isDefault = true := by
        rw [hid]
        rcases hm.default with hempty | ⟨d, hd⟩
        · rw [hempty] at hfound
          cases hfound
        · rw [hd.2 id current hfound]
          constructor
          · intro hnot
            by_contra hne
            obtain ⟨c, hc, hflag⟩ := hd.exists_config
            exact hnot ⟨d, c, Ne.symm hne, hc, hflag⟩
          · rintro rfl ⟨k, c, hne, hk, hflag⟩
            exact hne (hd.eq_of_isDefault hk hflag)
      rw [hother, ← Bool.eq_iff_iff]
      constructor
      · intro h config hconfig _ hraises
        rw [hfound] at hconfig
        cases hconfig
        exact h hraises
      · exact fun h => h current hfound hwrite

/-- Without a provider, another one is the default still, or there is none. -/
theorem consistent_erase (hm : Consistent m) {rest : Manager}
    (hproviders : rest.providers = m.providers.erase id) (hstore : rest.store = m.store.erase id)
    (h : OneDefault (m.providers.erase id)) : Consistent rest := by
  refine ⟨fun k => ?_, hproviders ▸ h⟩
  rw [hproviders, hstore, Table.find_erase, Table.find_erase, hm.same]

theorem fresh_erase (hfresh : Fresh m) {rest : Manager}
    (hproviders : rest.providers = m.providers.erase id)
    (hadapters : rest.adapters = m.adapters.erase id) (hrouted : rest.routed = .empty) :
    Fresh rest := by
  refine ⟨fun k config hk => ?_, fun k routed hk => ?_⟩
  · rw [hadapters, Table.find_erase] at hk
    rw [hproviders, Table.find_erase]
    split at hk
    · cases hk
    · rename_i hne
      rw [if_neg hne]
      exact hfresh.adapters k config hk
  · rw [hrouted] at hk
    cases hk

theorem oneDefault_erase_iff {config : ProviderConfig} (h : OneDefault t)
    (hfound : t.find id = some config) : OneDefault (t.erase id) ↔
      (config.isDefault = true → ∀ k, k ≠ id → t.find k = none) := by
  have hother : ∀ {k}, k ≠ id → (t.erase id).find k = t.find k := by
    intro k hk
    rw [Table.find_erase, if_neg hk]
  rcases h with hempty | ⟨d, hd⟩
  · rw [hempty] at hfound
    cases hfound
  · constructor
    · rintro (hempty | ⟨e, he⟩) hflag k hk
      · rw [← hother hk, hempty]
      · obtain rfl := hd.eq_of_isDefault hfound hflag
        obtain ⟨c, hc, hcflag⟩ := he.exists_config
        rw [Table.find_erase] at hc
        split at hc
        · cases hc
        · rename_i hne
          exact absurd (hd.eq_of_isDefault hc hcflag) hne
    · intro hiff
      by_cases hflag : config.isDefault = true
      · refine .inl fun k => ?_
        rw [Table.find_erase]
        split
        · rfl
        · rename_i hne
          exact hiff hflag k hne
      · have hne : d ≠ id := by
          rintro rfl
          exact hflag ((hd.2 d config hfound).mpr rfl)
        refine .inr ⟨d, by rw [hother hne]; exact hd.1, fun k c hk => ?_⟩
        rw [Table.find_erase] at hk
        split at hk
        · cases hk
        · exact hd.2 k c hk

theorem remove_spec (hm : Consistent m) (hfresh : Fresh m) (id : String) :
    Fresh (remove f id m).2 ∧ (remove f id m).2.initialized = m.initialized ∧
      (Consistent (remove f id m).2 ↔ OperationOk s f m (.remove id)) := by
  unfold remove
  cases hfound : m.providers.find id with
  | none =>
    dsimp only
    refine ⟨fresh_erase hfresh rfl rfl rfl, rfl, iff_of_true ⟨fun k => ?_, ?_⟩ ?_⟩
    · show (m.providers.erase id).find k = m.store.find k
      rw [Table.find_erase, ← hm.same]
      split
      · rename_i heq
        rw [heq, hfound]
      · rfl
    · refine hm.default.congr fun k => ?_
      show m.providers.find k = (m.providers.erase id).find k
      rw [Table.find_erase]
      split
      · rename_i heq
        rw [heq, hfound]
      · rfl
    · intro config hconfig
      rw [hfound] at hconfig
      cases hconfig
  | some removed =>
    dsimp only
    have hok : OperationOk s f m (.remove id) ↔ f.write = false ∧ (f.setDefault = true →
        removed.isDefault = true → ∀ k, k ≠ id → m.providers.find k = none) := by
      constructor
      · exact fun h => h removed hfound
      · intro h config hconfig
        rw [hfound] at hconfig
        cases hconfig
        exact h
    rw [hok]
    cases hwrite : f.write with
    | true =>
      refine ⟨fresh_erase hfresh rfl rfl rfl, rfl, iff_of_false (fun h => ?_) (by simp)⟩
      have hsame : (m.providers.erase id).find id = m.store.find id := h.same id
      rw [Table.find_erase, if_pos rfl, ← hm.same, hfound] at hsame
      cases hsame
    | false =>
      have hiff := oneDefault_erase_iff hm.default hfound
      have hrest : ∀ rest : Manager, rest.providers = m.providers.erase id →
          rest.store = m.store.erase id → (Consistent rest ↔ (removed.isDefault = true →
            ∀ k, k ≠ id → m.providers.find k = none)) := by
        intro rest hproviders hstore
        rw [← hiff]
        exact ⟨fun h => hproviders ▸ h.default, consistent_erase hm hproviders hstore⟩
      simp only [Bool.false_eq_true, if_false, true_and]
      cases hentries : (m.providers.erase id).entries with
      | nil =>
        dsimp only
        refine ⟨fresh_erase hfresh rfl rfl rfl, rfl, (hrest _ rfl rfl).trans ?_⟩
        have hnone : ∀ k, k ≠ id → m.providers.find k = none := by
          intro k hk
          have hfind := (entries_eq_nil_iff _).mp hentries k
          rwa [Table.find_erase, if_neg hk] at hfind
        exact iff_of_true (fun _ => hnone) fun _ _ => hnone
      | cons first others =>
        dsimp only
        by_cases hflag : removed.isDefault = true
        · rw [if_pos hflag]
          have hfirst : (m.providers.erase id).find first.id = some first :=
            Table.find_of_mem (hentries ▸ List.mem_cons_self)
          have hsome : ¬∀ k, k ≠ id → m.providers.find k = none := by
            intro hnone
            rw [Table.find_erase] at hfirst
            split at hfirst
            · cases hfirst
            · rename_i hne
              rw [hnone _ hne] at hfirst
              cases hfirst
          generalize hr : ({ m with
            store := m.store.erase id
            providers := m.providers.erase id
            adapters := m.adapters.erase id
            routed := .empty } : Manager) = rest
          have hrestFresh : Fresh rest := by
            subst hr
            exact fresh_erase hfresh rfl rfl rfl
          have hproviders : rest.providers = m.providers.erase id := by rw [← hr]
          have hsame : ∀ k, rest.providers.find k = rest.store.find k := by
            intro k
            rw [← hr]
            show (m.providers.erase id).find k = (m.store.erase id).find k
            rw [Table.find_erase, Table.find_erase, hm.same]
          have hid : rest.providers.find first.id ≠ none := by
            rw [hproviders, hfirst]
            exact Option.some_ne_none _
          have hinitRest : rest.initialized = m.initialized := by rw [← hr]
          rcases setDefaultLocked_cases hsame hid f.setDefault with
            ⟨hraises, heq⟩ | ⟨hraises, m', heq, hconsistent, hinit, hnext⟩
          · rw [heq]
            refine ⟨hrestFresh, hinitRest, ?_⟩
            rw [hrest rest hproviders (by rw [← hr])]
            simp [hraises]
          · rw [heq]
            exact ⟨hnext hrestFresh, hinit.trans hinitRest,
              iff_of_true hconsistent (by simp [hraises])⟩
        · rw [if_neg hflag]
          exact ⟨fresh_erase hfresh rfl rfl rfl, rfl, (hrest _ rfl rfl).trans
            (iff_of_true (fun h => absurd h hflag) fun _ h => absurd h hflag)⟩

theorem setDefault_spec (hm : Consistent m) (hfresh : Fresh m) (id : String) :
    Fresh (setDefault f id m).2 ∧ (setDefault f id m).2.initialized = m.initialized ∧
      Consistent (setDefault f id m).2 := by
  unfold setDefault
  by_cases hid : m.providers.find id = none
  · rw [setDefaultLocked_of_notFound hid]
    exact ⟨hfresh, rfl, hm⟩
  · rcases setDefaultLocked_cases hm.same hid f.setDefault with
      ⟨-, heq⟩ | ⟨-, m', heq, hconsistent, hinit, hnext⟩
    · rw [heq]
      exact ⟨hfresh, rfl, hm⟩
    · rw [heq]
      exact ⟨hnext hfresh, hinit, hconsistent⟩

/-! ## `get_adapter` -/

variable {adapters : Providers} {config : ProviderConfig}

/-- A cache of adapters that were built from the current configurations. -/
def Built (t adapters : Providers) : Prop :=
  ∀ k config, adapters.find k = some config → t.find k = some config

theorem getBaseAdapter_spec (h : Built t adapters) (hconfig : t.find config.id = some config) :
    Built t (getBaseAdapter s adapters config).2 ∧
      ∀ adapter, (getBaseAdapter s adapters config).1 = some adapter → adapter = config := by
  unfold getBaseAdapter
  cases hfind : adapters.find config.id with
  | some cached =>
    have hcached := h _ _ hfind
    rw [hconfig] at hcached
    cases hcached
    exact ⟨h, fun adapter heq => by cases heq; rfl⟩
  | none =>
    dsimp only
    split
    · refine ⟨fun k c hk => ?_, fun adapter heq => by cases heq; rfl⟩
      rw [Table.find_put] at hk
      split at hk
      · rename_i heq
        cases hk
        rw [heq, hconfig]
      · exact h k c hk
    · exact ⟨h, fun adapter heq => by cases heq⟩

theorem candidate_spec (h : Built t adapters) (hconfig : t.find config.id = some config) :
    Built t (candidate s adapters config).2 ∧
      ∀ c, (candidate s adapters config).1 = some c → c.providerId = config.id ∧ Current t c := by
  obtain ⟨hbuilt, hadapter⟩ := getBaseAdapter_spec (s := s) h hconfig
  unfold candidate
  generalize getBaseAdapter s adapters config = result at hbuilt hadapter
  obtain ⟨built, adapters'⟩ := result
  cases built with
  | none => exact ⟨hbuilt, fun c hc => by cases hc⟩
  | some adapter =>
    obtain rfl := hadapter adapter rfl
    refine ⟨hbuilt, fun c hc => ?_⟩
    cases hc
    exact ⟨rfl, hconfig, rfl⟩

theorem candidates_spec {configs : List ProviderConfig} (h : Built t adapters)
    (hconfigs : ∀ config ∈ configs, t.find config.id = some config) :
    Built t (candidates s configs adapters).2 ∧
      ∀ cs, (candidates s configs adapters).1 = some cs → ∀ c ∈ cs, Current t c := by
  induction configs generalizing adapters with
  | nil => exact ⟨h, fun cs hcs => by cases hcs; exact List.forall_mem_nil _⟩
  | cons config configs ih =>
    obtain ⟨hconfig, hrest⟩ := List.forall_mem_cons.mp hconfigs
    obtain ⟨hbuilt, hcandidate⟩ := candidate_spec (s := s) h hconfig
    rw [candidates]
    generalize candidate s adapters config = result at hbuilt hcandidate
    obtain ⟨first, adapters'⟩ := result
    cases first with
    | none => exact ⟨hbuilt, fun cs hcs => by cases hcs⟩
    | some first =>
      obtain ⟨hbuilt', hall⟩ := ih hbuilt hrest
      dsimp only
      generalize candidates s configs adapters' = result at hbuilt' hall
      obtain ⟨others, adapters''⟩ := result
      cases others with
      | none => exact ⟨hbuilt', fun cs hcs => by cases hcs⟩
      | some others =>
        refine ⟨hbuilt', fun cs hcs => ?_⟩
        cases hcs
        exact List.forall_mem_cons.mpr ⟨(hcandidate first rfl).2, hall others rfl⟩

theorem find_of_mem_fallbackConfigs (h : config ∈ fallbackConfigs s id t) :
    t.find config.id = some config :=
  Table.find_of_mem_filterMap_find (List.mem_filter.mp h).1

theorem getAdapter_spec (hm : Consistent m) (hfresh : Fresh m) (providerId : Option String) :
    Fresh (getAdapter s providerId m).2 ∧
      (getAdapter s providerId m).2.initialized = m.initialized ∧
      Consistent (getAdapter s providerId m).2 ∧
      ((∀ adapter, (getAdapter s providerId m).1 = .adapter adapter →
          BuiltFor (getAdapter s providerId m).2 providerId adapter) ↔
        OperationOk s f m (.getAdapter providerId)) := by
  have hbase : ∀ {id config}, m.targetId providerId = some id →
      m.providers.find id = some config →
      Fresh (getAdapter.baseAdapter s m config).2 ∧
        (getAdapter.baseAdapter s m config).2.initialized = m.initialized ∧
        Consistent (getAdapter.baseAdapter s m config).2 ∧
        ∀ adapter, (getAdapter.baseAdapter s m config).1 = .adapter adapter →
          BuiltFor (getAdapter.baseAdapter s m config).2 providerId adapter := by
    intro id config htarget hfind
    have hconfig : m.providers.find config.id = some config := by
      rw [Table.key_of_find hfind, hfind]
    obtain ⟨hbuilt, hadapter⟩ := getBaseAdapter_spec (s := s) hfresh.adapters hconfig
    unfold getAdapter.baseAdapter
    generalize getBaseAdapter s m.adapters config = result at hbuilt hadapter
    obtain ⟨built, adapters⟩ := result
    cases built with
    | none =>
      exact ⟨⟨hbuilt, hfresh.routed⟩, rfl, ⟨hm.same, hm.default⟩, fun adapter h => by cases h⟩
    | some built =>
      refine ⟨⟨hbuilt, hfresh.routed⟩, rfl, ⟨hm.same, hm.default⟩, fun adapter h => ?_⟩
      cases h
      exact ⟨id, config, htarget, hfind, hadapter built rfl⟩
  unfold getAdapter
  cases htarget : m.targetId providerId with
  | none =>
    refine ⟨hfresh, rfl, hm, iff_of_true (fun adapter h => by cases h) ?_⟩
    intro id config htarget'
    rw [htarget] at htarget'
    cases htarget'
  | some id =>
    dsimp only
    have hok : OperationOk s f m (.getAdapter providerId) ↔
        ∀ config, m.providers.find id = some config → fallbackIds s id m.providers ≠ [] →
          ∀ routed, m.routed.find (routeKey s id m.providers) = some routed →
            routed.primary.providerId = id := by
      constructor
      · exact fun h config => h id config htarget
      · intro h id' config htarget'
        rw [htarget] at htarget'
        cases htarget'
        exact h config
    rw [hok]
    cases hfind : m.providers.find id with
    | none => exact ⟨hfresh, rfl, hm, iff_of_true (fun adapter h => by cases h) (by simp)⟩
    | some config =>
      dsimp only
      obtain ⟨hbaseFresh, hbaseInit, hbaseConsistent, hbaseBuilt⟩ := hbase htarget hfind
      by_cases hfallback : fallbackIds s id m.providers = []
      · rw [if_pos hfallback]
        exact ⟨hbaseFresh, hbaseInit, hbaseConsistent,
          iff_of_true hbaseBuilt fun _ _ hne => absurd hfallback hne⟩
      rw [if_neg hfallback]
      cases hrouted : m.routed.find (routeKey s id m.providers) with
      | some routed =>
        obtain ⟨hprimary, hfallbacks⟩ := hfresh.routed _ _ hrouted
        refine ⟨hfresh, rfl, hm, ?_⟩
        constructor
        · intro h _ _ _ routed' hrouted'
          cases hrouted'
          obtain ⟨id', config', htarget', -, hid, -⟩ := h _ rfl
          rw [htarget] at htarget'
          cases htarget'
          exact hid
        · intro h adapter hadapter
          cases hadapter
          exact ⟨id, config, htarget, hfind, h config rfl hfallback routed rfl, hprimary,
            hfallbacks⟩
      | none =>
        dsimp only
        have hvacuous : ∀ c, some config = some c → fallbackIds s id m.providers ≠ [] →
            ∀ routed, (none : Option RoutedAdapter) = some routed →
              routed.primary.providerId = id := by
          intro _ _ _ routed h
          cases h
        by_cases hconfigs : fallbackConfigs s id m.providers = []
        · rw [if_pos hconfigs]
          exact ⟨hbaseFresh, hbaseInit, hbaseConsistent, iff_of_true hbaseBuilt hvacuous⟩
        rw [if_neg hconfigs]
        obtain ⟨hbuilt, hcurrent⟩ := candidates_spec (s := s) hfresh.adapters
          fun config hmem => find_of_mem_fallbackConfigs (s := s) hmem
        generalize candidates s (fallbackConfigs s id m.providers) m.adapters = result
          at hbuilt hcurrent
        obtain ⟨fallbacks, adapters⟩ := result
        cases fallbacks with
        | none =>
          exact ⟨⟨hbuilt, hfresh.routed⟩, rfl, ⟨hm.same, hm.default⟩,
            iff_of_true (fun adapter h => by cases h) hvacuous⟩
        | some fallbacks =>
          dsimp only
          have hconfig : m.providers.find config.id = some config := by
            rw [Table.key_of_find hfind, hfind]
          obtain ⟨hbuilt', hprimary⟩ := candidate_spec (s := s) hbuilt hconfig
          generalize candidate s adapters config = result at hbuilt' hprimary
          obtain ⟨primary, adapters'⟩ := result
          cases primary with
          | none =>
            exact ⟨⟨hbuilt', hfresh.routed⟩, rfl, ⟨hm.same, hm.default⟩,
              iff_of_true (fun adapter h => by cases h) hvacuous⟩
          | some primary =>
            obtain ⟨hid, hprimaryCurrent⟩ := hprimary primary rfl
            have hfallbacks := hcurrent fallbacks rfl
            refine ⟨⟨hbuilt', fun k routed hk => ?_⟩, rfl, ⟨hm.same, hm.default⟩,
              iff_of_true (fun adapter h => ?_) hvacuous⟩
            · change (m.routed.put _).find k = some routed at hk
              rw [Table.find_put] at hk
              split at hk
              · cases hk
                exact ⟨hprimaryCurrent, hfallbacks⟩
              · exact hfresh.routed k routed hk
            · cases h
              exact ⟨id, config, htarget, hfind, hid.trans (Table.key_of_find hfind),
                hprimaryCurrent, hfallbacks⟩

/-! ## Initialization -/

theorem find_loaded {configs : List ProviderConfig} {store : Providers}
    (h : loadConfigs s f m = some (configs, store)) (k : String) :
    (Table.putAll .empty configs : Providers).find k = store.find k := by
  have hperm : configs.Perm store.entries := by
    unfold loadConfigs at h
    split_ifs at h with hlist hentries hseeds himport
    · cases h
      exact List.perm_insertionSort _ _
    · cases h
      rw [ne_eq, not_not] at hentries
      rw [hentries]
    · rw [Option.map_eq_some_iff] at h
      obtain ⟨after, hafter, heq⟩ := h
      cases heq
      rw [ne_eq, not_not] at hentries
      rw [(Table.insertAll_eq_some_iff.mp hafter).2.2, hentries]
      rfl
  have hnodup : (configs.map (·.id)).Nodup := (hperm.map _).nodup_iff.mpr store.nodup
  by_cases hmem : k ∈ configs.map (·.id)
  · obtain ⟨config, hconfig, rfl⟩ := List.mem_map.mp hmem
    rw [Table.find_putAll_of_mem hnodup _ hconfig, Table.find_of_mem (hperm.mem_iff.mp hconfig)]
  · rw [Table.find_putAll_of_notMem configs _ hmem, Table.find_empty, eq_comm,
      Table.find_eq_none_iff]
    rwa [← (hperm.map _).mem_iff]

theorem listAll_of_loaded {loaded : List ProviderConfig × Providers}
    (h : loadConfigs s f m = some loaded) : f.listAll = false := by
  unfold loadConfigs at h
  split at h
  · cases h
  · rename_i hlist
    simpa using hlist

/-- Nothing is loaded where the providers cannot be listed or there are none. -/
theorem store_of_loadConfigs_eq_none (h : loadConfigs s f m = none) (hlist : f.listAll = false) :
    ∀ k, m.store.find k = none := by
  by_cases hentries : m.store.entries = []
  · exact (entries_eq_nil_iff _).mp hentries
  · simp [loadConfigs, hlist, hentries] at h

theorem normalizeDefaults_cases (t : Providers) :
    (normalizeDefaults t = t ∧ (t.entries.any (·.isDefault) = true ∨ ∀ k, t.find k = none)) ∨
      ∃ first, t.find first.id = some first ∧ t.entries.any (·.isDefault) = false ∧
        normalizeDefaults t = t.put { first with isDefault := true } := by
  unfold normalizeDefaults
  cases hdefault : firstDefault t with
  | some config =>
    refine .inl ⟨rfl, .inl ?_⟩
    rw [any_isDefault_iff]
    exact ⟨_, config, find_of_firstDefault hdefault, by simpa using List.find?_some hdefault⟩
  | none =>
    cases hentries : t.entries with
    | nil => exact .inl ⟨rfl, .inr ((entries_eq_nil_iff t).mp hentries)⟩
    | cons first others =>
      refine .inr ⟨first, Table.find_of_mem (hentries ▸ List.mem_cons_self), ?_, rfl⟩
      rw [← hentries]
      exact (firstDefault_eq_none_iff t).mp hdefault

/-- Which provider is the default makes no difference to what is set then. -/
theorem find_onlyDefault_normalizeDefaults (t : Providers) (id k : String) :
    (onlyDefault (normalizeDefaults t) id).find k = (onlyDefault t id).find k := by
  rcases normalizeDefaults_cases t with ⟨heq, -⟩ | ⟨first, hfirst, -, heq⟩
  · rw [heq]
  · rw [heq, find_onlyDefault, find_onlyDefault, Table.find_put]
    split
    · rename_i hk
      change k = first.id at hk
      rw [hk, hfirst]
      rfl
    · rfl

/-- The table has the providers that were there, and a default where there is one. -/
theorem firstDefault_normalizeDefaults (t : Providers) :
    (firstDefault (normalizeDefaults t) = none → ∀ k, t.find k = none) ∧
      ∀ config, firstDefault (normalizeDefaults t) = some config → t.find config.id ≠ none := by
  rcases normalizeDefaults_cases t with ⟨heq, hcases⟩ | ⟨first, hfirst, -, heq⟩
  · rw [heq]
    refine ⟨fun hnone => ?_, fun config hconfig => ?_⟩
    · rw [firstDefault_eq_none_iff] at hnone
      rcases hcases with hany | hempty
      · rw [hnone] at hany
        cases hany
      · exact hempty
    · rw [find_of_firstDefault hconfig]
      exact Option.some_ne_none _
  · rw [heq]
    refine ⟨fun hnone => ?_, fun config hconfig => ?_⟩
    · rw [firstDefault_eq_none_iff, Bool.eq_false_iff] at hnone
      exact absurd ((any_isDefault_put t _).mpr (.inl rfl)) hnone
    · have hfind := find_of_firstDefault hconfig
      rw [Table.find_put] at hfind
      split at hfind
      · rename_i hk
        change config.id = first.id at hk
        rw [hk, hfirst]
        exact Option.some_ne_none _
      · rw [hfind]
        exact Option.some_ne_none _

/-- What holds of a manager at any time. -/
structure Inv (m : Manager) : Prop where
  ready : m.initialized = true → Consistent m ∧ Fresh m
  early : m.initialized = false → (∀ k, m.adapters.find k = none) ∧ (∀ k, m.routed.find k = none) ∧
    ((∀ k, m.providers.find k = none) ∨ Consistent m)

theorem fresh_of_empty (hadapters : ∀ k, m.adapters.find k = none)
    (hrouted : ∀ k, m.routed.find k = none) : Fresh m where
  adapters k config hk := by
    rw [hadapters] at hk
    cases hk
  routed k routed hk := by
    rw [hrouted] at hk
    cases hk

theorem ensureInitialized_cases (h : Inv m) :
    (∃ m', ensureInitialized s f m = (true, m') ∧ m'.initialized = true ∧ Consistent m' ∧
        Fresh m' ∧ InitOk s f m) ∨
      ∃ m', ensureInitialized s f m = (false, m') ∧ (Consistent m' ↔ InitOk s f m) ∧
        (Consistent m' → Inv m') := by
  cases hinit : m.initialized with
  | true =>
    obtain ⟨hconsistent, hfresh⟩ := h.ready hinit
    exact .inl ⟨m, by rw [ensureInitialized, if_pos hinit], hinit, hconsistent, hfresh, .inl hinit⟩
  | false =>
    obtain ⟨hadapters, hrouted, hproviders⟩ := h.early hinit
    have hnot : ¬m.initialized = true := by simp [hinit]
    have hearly : ∀ m' : Manager, m'.initialized = false → m'.adapters = m.adapters →
        m'.routed = m.routed → Consistent m' → Inv m' := by
      intro m' hinit' hadapters' hrouted' hconsistent
      refine ⟨fun htrue => by simp [hinit'] at htrue, fun _ => ⟨?_, ?_, .inr hconsistent⟩⟩
      · rw [hadapters']
        exact hadapters
      · rw [hrouted']
        exact hrouted
    rw [ensureInitialized, if_neg hnot]
    cases hload : loadConfigs s f m with
    | none =>
      refine .inr ⟨m, rfl, ?_, hearly m hinit rfl rfl⟩
      constructor
      · exact fun hconsistent => .inr ⟨fun _ => hconsistent, by simp [hload]⟩
      · rintro (htrue | ⟨hlist, -⟩)
        · exact absurd htrue hnot
        · cases hall : f.listAll with
          | true => exact hlist hall
          | false =>
            have hstore := store_of_loadConfigs_eq_none hload hall
            rcases hproviders with hempty | hconsistent
            · exact ⟨fun k => by rw [hempty, hstore], .inl hempty⟩
            · exact hconsistent
    | some loaded =>
      obtain ⟨configs, store⟩ := loaded
      have hlist := listAll_of_loaded hload
      have hfind := find_loaded hload
      obtain ⟨hnone, hsome⟩ := firstDefault_normalizeDefaults (Table.putAll .empty configs)
      have hinitOk : InitOk s f m ↔ (f.initDefault = true → OneDefault store) := by
        rw [InitOk, or_iff_right hnot]
        constructor
        · exact fun hok => hok.2 configs store hload
        · intro hok
          refine ⟨by simp [hlist], fun configs' store' hload' => ?_⟩
          rw [hload] at hload'
          cases hload'
          exact hok
      rw [hinitOk]
      dsimp only
      cases hdefault : firstDefault (normalizeDefaults (Table.putAll .empty configs)) with
      | none =>
        have hempty := hnone hdefault
        have hstore : ∀ k, store.find k = none := fun k => (hfind k).symm.trans (hempty k)
        have hnormal : ∀ k, (normalizeDefaults (Table.putAll .empty configs)).find k = none := by
          rcases normalizeDefaults_cases (Table.putAll .empty configs) with
            ⟨heq, -⟩ | ⟨first, hfirst, -, -⟩
          · rw [heq]
            exact hempty
          · rw [hempty] at hfirst
            cases hfirst
        refine .inl ⟨_, rfl, rfl, ⟨fun k => ?_, .inl hnormal⟩, fresh_of_empty hadapters hrouted,
          fun _ => .inl hstore⟩
        exact (hnormal k).trans (hstore k).symm
      | some config =>
        have hid : store.find config.id ≠ none := by
          rw [← hfind]
          exact hsome config hdefault
        cases hraises : f.initDefault with
        | true =>
          have hset : storeSetDefault true store config.id = none := by
            rw [storeSetDefault, if_pos (.inl rfl)]
          dsimp only
          rw [hset]
          refine .inr ⟨_, rfl, ?_, hearly _ hinit rfl rfl⟩
          constructor
          · exact fun hconsistent _ => hconsistent.default.congr hconsistent.same
          · intro hok
            have hone := hok rfl
            rcases normalizeDefaults_cases (Table.putAll .empty configs) with
              ⟨heq, -⟩ | ⟨first, hfirst, hany, -⟩
            · refine ⟨fun k => ?_, ?_⟩
              · show (normalizeDefaults _).find k = store.find k
                rw [heq, hfind]
              · show OneDefault (normalizeDefaults _)
                rw [heq]
                exact hone.congr fun k => (hfind k).symm
            · rcases hone with hempty | ⟨d, hd⟩
              · exact absurd (hempty _) hid
              · obtain ⟨c, hc, hflag⟩ := hd.exists_config
                rw [← hfind] at hc
                rw [Bool.eq_false_iff] at hany
                exact absurd ((any_isDefault_iff _).mpr ⟨d, c, hc, hflag⟩) hany
        | false =>
          have hset : storeSetDefault false store config.id =
              some (onlyDefault store config.id) := by
            rw [storeSetDefault, if_neg (by simpa using hid)]
          dsimp only
          rw [hset]
          refine .inl ⟨_, rfl, rfl, ⟨fun k => ?_, oneDefault_onlyDefault ?_⟩,
            fresh_of_empty hadapters hrouted, by simp⟩
          · show (onlyDefault (normalizeDefaults _) config.id).find k =
              (onlyDefault store config.id).find k
            rw [find_onlyDefault_normalizeDefaults, find_onlyDefault, find_onlyDefault, hfind]
          · rw [find_of_firstDefault hdefault]
            exact Option.some_ne_none _

/-! ## Runs -/

theorem perform_spec (hm : Consistent m) (hfresh : Fresh m) (op : Operation) :
    Fresh (perform s f op m).2 ∧ (perform s f op m).2.initialized = m.initialized ∧
      (Good ⟨(perform s f op m).2, some (op, (perform s f op m).1)⟩ ↔ OperationOk s f m op) := by
  have hgood : ∀ {op : Operation} {outcome : Outcome} {m' : Manager},
      (∀ providerId, op ≠ .getAdapter providerId) →
      (Good ⟨m', some (op, outcome)⟩ ↔ Consistent m') := by
    intro op outcome m' hop
    constructor
    · exact fun h => h.consistent _ rfl
    · refine fun h => ⟨fun _ _ => h, fun providerId adapter heq => ?_⟩
      cases heq
      exact absurd rfl (hop providerId)
  cases op with
  | add config =>
    obtain ⟨hnext, hinit, hiff⟩ := add_spec (s := s) (f := f) hm hfresh config
    exact ⟨hnext, hinit, (hgood (by simp)).trans hiff⟩
  | update id kwargs =>
    obtain ⟨hnext, hinit, hiff⟩ := update_spec (s := s) (f := f) hm hfresh id kwargs
    exact ⟨hnext, hinit, (hgood (by simp)).trans hiff⟩
  | remove id =>
    obtain ⟨hnext, hinit, hiff⟩ := remove_spec (s := s) (f := f) hm hfresh id
    exact ⟨hnext, hinit, (hgood (by simp)).trans hiff⟩
  | setDefault id =>
    obtain ⟨hnext, hinit, hconsistent⟩ := setDefault_spec (f := f) hm hfresh id
    exact ⟨hnext, hinit, (hgood (by simp)).trans (iff_of_true hconsistent trivial)⟩
  | getAdapter providerId =>
    obtain ⟨hnext, hinit, hconsistent, hiff⟩ :=
      getAdapter_spec (s := s) (f := f) hm hfresh providerId
    refine ⟨hnext, hinit, ?_⟩
    rw [← hiff]
    constructor
    · exact fun h adapter heq => h.adapter providerId adapter (by rw [← heq]; rfl)
    · refine fun h => ⟨fun _ _ => hconsistent, fun providerId' adapter heq => ?_⟩
      simp only [Option.some.injEq, Prod.mk.injEq, Operation.getAdapter.injEq] at heq
      obtain ⟨rfl, heq⟩ := heq
      exact h adapter heq

/-- **One operation**: what is to hold holds behind it exactly when its failures are harmless. -/
theorem operate_spec {state : ManagerState} (h : Inv state.manager)
    (step : Operation × Failing) :
    (Good ⟨(operate s state.manager step).2, some (step.1, (operate s state.manager step).1)⟩ ↔
        StepOk s state step) ∧
      (StepOk s state step → Inv (operate s state.manager step).2) := by
  obtain ⟨op, f⟩ := step
  rcases ensureInitialized_cases (s := s) (f := f) h with
    ⟨m, heq, hinit, hconsistent, hfresh, hok⟩ | ⟨m, heq, hiff, hinv⟩
  · obtain ⟨hnext, hkeeps, hgood⟩ := perform_spec (s := s) (f := f) hconsistent hfresh op
    have hstep : StepOk s state (op, f) ↔ OperationOk s f m op := by
      constructor
      · exact fun hstep => hstep.2 m heq
      · refine fun hop => ⟨hok, fun m' hm' => ?_⟩
        rw [heq] at hm'
        cases hm'
        exact hop
    rw [operate, heq, hstep]
    refine ⟨hgood, fun hop => ⟨fun _ => ⟨(hgood.mpr hop).consistent _ rfl, hnext⟩, fun hnot => ?_⟩⟩
    rw [hkeeps, hinit] at hnot
    cases hnot
  · have hstep : StepOk s state (op, f) ↔ Consistent m := by
      rw [hiff]
      constructor
      · exact fun hstep => hstep.1
      · refine fun hok => ⟨hok, fun m' hm' => ?_⟩
        rw [heq] at hm'
        cases hm'
    rw [operate, heq, hstep]
    refine ⟨⟨fun hgood => hgood.consistent _ rfl, fun hm => ⟨fun _ _ => hm, ?_⟩⟩, hinv⟩
    intro providerId adapter hlast
    cases hlast

/-- **The table, the database and the adapters agree behind every operation
of a run exactly when the failures of all its operations are harmless.** -/
theorem always_good_iff (s : ProviderSettings) (store : Providers)
    (steps : List (Operation × Failing)) :
    (managerMachine s).Always Good (started store) steps ↔
      (managerMachine s).Meets (StepOk s) (started store) steps := by
  have hrun : ∀ (steps : List (Operation × Failing)) (state : ManagerState),
      ∃ last, (managerMachine s).run state steps = some last := by
    intro steps
    induction steps with
    | nil => exact fun state => ⟨state, rfl⟩
    | cons step steps ih =>
      intro state
      obtain ⟨last, hlast⟩ := ih ⟨(operate s state.manager step).2,
        some (step.1, (operate s state.manager step).1)⟩
      exact ⟨last, hlast⟩
  obtain ⟨last, hlast⟩ := hrun steps (started store)
  refine (managerMachine s).always_iff_meets (I := fun state => Inv state.manager ∧ Good state)
    (fun _ h => h.2) ?_ ?_ ?_ hlast
  · intro state step next hstate hok hnext
    cases hnext
    obtain ⟨hgood, hinv⟩ := operate_spec (s := s) hstate.1 step
    exact ⟨hinv hok, hgood.mpr hok⟩
  · intro state step next hstate hnot hnext hgood
    cases hnext
    exact hnot ((operate_spec (s := s) hstate.1 step).1.mp hgood)
  · have hinv : Inv (started store).manager := by
      refine ⟨fun hinit => ?_, fun _ => ⟨fun _ => rfl, fun _ => rfl, .inl fun _ => rfl⟩⟩
      cases hinit
    refine ⟨hinv, fun _ hlast => ?_, fun _ _ hlast => ?_⟩
    · cases hlast
    · cases hlast

def onlyProvider : ProviderConfig where
  id := "p1"
  name := "first"
  providerType := .anthropic
  baseUrl := ""
  defaultModel := "m1"
  isDefault := true

/-- The database refuses to remove a provider that the table has lost. -/
theorem not_always_good : ¬ ∀ (s : ProviderSettings) (store : Providers)
    (steps : List (Operation × Failing)),
      (managerMachine s).Always Good (started store) steps := by
  intro hall
  have hgood := hall {} ⟨[onlyProvider], by decide⟩ [(.remove "p1", { write := true })]
    [(.remove "p1", { write := true })] _ (List.prefix_refl _) rfl
  have hsame := (hgood.consistent _ rfl).same "p1"
  revert hsame
  decide

end NeuralHub.Adapters.ProviderManager
