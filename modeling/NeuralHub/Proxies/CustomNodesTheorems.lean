/-
NeuralHub.Proxies.CustomNodesTheorems — what merging the saved form of the
overlay makes of a configuration.

`Reproduces` is what a refresh of the subscription relies on: merging the
saved form into the base configuration gives the exit nodes and the chain
proxies that are live, as sets of records.

`Synced` relates the two files so that this holds: the exit nodes are the
same records, the ordinary proxies are those of the base, and the live
chain proxies are the ones that the saved setting makes (`ChainsSaved`).
The setting is applied to other proxies than it once was; the choice of
transits depends on the ordinary ones only (`selectTransits_congr`).
-/
import NeuralHub.Proxies.CustomNodes
import NeuralHub.Proxies.OverlayRuns

namespace NeuralHub.Proxies

open NeuralHub.Lib

/-! ## Choosing transits -/

namespace Texts

variable (py : Texts)

/-- Neither an exit node nor a chain proxy. -/
def isPlain (proxy : Proxy) : Bool := !py.isExit proxy && !py.isChainProxy proxy

/-- What the choice of transits reads of a proxy. -/
def key (proxy : Proxy) : String × String := (py.name proxy, py.field proxy "type")

def plainKeys (proxies : List Proxy) : List (String × String) :=
  (proxies.filter fun proxy => py.isPlain proxy).map py.key

def isCandidateKey (exitName : String) (key : String × String) : Bool :=
  key.1 ≠ "" && key.1 ≠ exitName && !skipProxyTypes.contains (py.lower key.2)

theorem isTransitCandidate_some (proxy : Proxy) (exitName : String) :
    py.isTransitCandidate (some proxy) exitName =
      (py.isPlain proxy && py.isCandidateKey exitName (py.key proxy)) := by
  unfold isTransitCandidate isPlain isCandidateKey key
  simp only
  generalize decide (py.name proxy ≠ "") = a
  generalize decide (py.name proxy ≠ exitName) = b
  cases a <;> cases b <;> cases py.isExit proxy <;> cases py.isChainProxy proxy <;> rfl

end Texts

variable {py : Texts} {proxies : List Proxy}

theorem isTransitCandidate_find (hnd : (proxies.map py.name).Nodup) (name exitName : String) :
    py.isTransitCandidate (py.findProxy proxies name) exitName =
      (py.plainKeys proxies).any fun key => key.1 = name && py.isCandidateKey exitName key := by
  rw [Bool.eq_iff_iff, List.any_eq_true]
  constructor
  · intro hcandidate
    cases hfind : py.findProxy proxies name with
    | none =>
      rw [hfind] at hcandidate
      cases hcandidate
    | some proxy =>
      obtain ⟨hmem, hname⟩ := findProxy_eq_some hfind
      rw [hfind, py.isTransitCandidate_some, Bool.and_eq_true] at hcandidate
      refine ⟨py.key proxy, List.mem_map_of_mem (List.mem_filter.mpr ⟨hmem, hcandidate.1⟩), ?_⟩
      rw [Bool.and_eq_true]
      exact ⟨decide_eq_true hname, hcandidate.2⟩
  · rintro ⟨key, hkey, hcandidate⟩
    obtain ⟨proxy, hproxy, rfl⟩ := List.mem_map.mp hkey
    obtain ⟨hmem, hplain⟩ := List.mem_filter.mp hproxy
    rw [Bool.and_eq_true, decide_eq_true_eq] at hcandidate
    cases hfind : py.findProxy proxies name with
    | none => exact absurd (hcandidate.1 ▸ List.mem_map_of_mem hmem) (findProxy_eq_none hfind)
    | some found =>
      obtain ⟨hfoundMem, hfound⟩ := findProxy_eq_some hfind
      obtain rfl := eq_of_name hnd hfoundMem hmem (hfound.trans hcandidate.1.symm)
      rw [py.isTransitCandidate_some, Bool.and_eq_true]
      exact ⟨hplain, hcandidate.2⟩

theorem map_name_filter_candidates (py : Texts) (p : String → Bool) (exitName : String)
    (proxies : List Proxy) :
    (proxies.filter fun proxy => py.isTransitCandidate (some proxy) exitName &&
        p (py.name proxy)).map py.name =
      ((py.plainKeys proxies).filter fun key => py.isCandidateKey exitName key &&
        p key.1).map Prod.fst := by
  unfold Texts.plainKeys
  rw [List.filter_map, List.filter_filter, List.map_map]
  congr 1
  refine List.filter_congr fun proxy _ => ?_
  rw [py.isTransitCandidate_some, Bool.and_assoc, Bool.and_comm]
  rfl

/-- The choice depends on the names and types of the ordinary proxies only. -/
theorem selectTransits_congr {old new : List Proxy} (hold : (old.map py.name).Nodup)
    (hnew : (new.map py.name).Nodup) (h : py.plainKeys old = py.plainKeys new)
    (exitName : String) (transitNodes : Option (List String)) (transitPattern : Option String) :
    py.selectTransits old exitName transitNodes transitPattern =
      py.selectTransits new exitName transitNodes transitPattern := by
  unfold Texts.selectTransits
  simp only [isTransitCandidate_find hold, isTransitCandidate_find hnew, h]
  by_cases hnodes : transitNodes.getD [] ≠ []
  · rw [if_pos hnodes, if_pos hnodes]
  · rw [if_neg hnodes, if_neg hnodes]
    have hmatch := map_name_filter_candidates py
      (fun n => decide (py.lower (uniqueText transitPattern) = "") ||
        contains (py.lower (uniqueText transitPattern)) (py.lower n)) exitName
    rw [hmatch old, hmatch new, h]

/-! ## What is to be reproduced -/

/-- The same set of records. Two dictionaries are equal when they have the same items. -/
def SameRecords (xs ys : List Proxy) : Prop :=
  (∀ x ∈ xs, ∃ y ∈ ys, Dict.Agree [] x y) ∧ ∀ y ∈ ys, ∃ x ∈ xs, Dict.Agree [] x y

instance (xs ys : List Proxy) : Decidable (SameRecords xs ys) := by
  unfold SameRecords
  infer_instance

def Texts.exits (py : Texts) (proxies : List Proxy) : List Proxy :=
  proxies.filter fun proxy => py.isExit proxy

def Texts.chains (py : Texts) (proxies : List Proxy) : List Proxy :=
  proxies.filter fun proxy => py.isChainProxy proxy

/-- Merging the saved form into the base gives the live overlay. -/
def Reproduces (py : Texts) (base : Config) (files : Files) : Prop :=
  ∃ merged, py.mergeIntoConfig files.saved base = .ok merged ∧
    SameRecords (py.exits merged.proxies) (py.exits files.live.proxies) ∧
    SameRecords (py.chains merged.proxies) (py.chains files.live.proxies)

instance (base : Config) (files : Files) : Decidable (Reproduces py base files) :=
  match h : py.mergeIntoConfig files.saved base with
  | .ok merged => decidable_of_iff
      (SameRecords (py.exits merged.proxies) (py.exits files.live.proxies) ∧
        SameRecords (py.chains merged.proxies) (py.chains files.live.proxies))
      ⟨fun hsame => ⟨merged, h, hsame⟩, fun ⟨_, hok, hsame⟩ => by
        cases h.symm.trans hok
        exact hsame⟩
  | .error _ => isFalse fun ⟨_, hok, _⟩ => by cases h.symm.trans hok

theorem SameRecords.refl (xs : List Proxy) : SameRecords xs xs :=
  ⟨fun x hx => ⟨x, hx, Dict.Agree.refl [] x⟩, fun x hx => ⟨x, hx, Dict.Agree.refl [] x⟩⟩

/-- Equal records have equal names and equal exits. -/
theorem name_of_agree {p q : Proxy} (h : Dict.Agree [] p q) : py.name p = py.name q :=
  py.field_congr (h "name" List.not_mem_nil)

theorem chainExit_of_agree {p q : Proxy} (h : Dict.Agree [] p q) :
    py.chainExit p = py.chainExit q := by
  unfold Texts.chainExit
  rw [name_of_agree h, py.field_congr (h "dialer-proxy" List.not_mem_nil)]

/-! ## Merging -/

/-- Saved exit nodes as the tool leaves them. -/
structure SavedOk (py : Texts) (nodes : List Proxy) : Prop where
  names : (nodes.map py.name).Nodup
  exits : ∀ node ∈ nodes, py.isExit node = true
  direct : ∀ node ∈ nodes, node.get "dialer-proxy" = none

theorem proxies_mergeNodes {nodes : List Proxy} : ∀ {config : Config},
    ((config.proxies ++ nodes).map py.name).Nodup →
    (nodes.foldl py.mergeNode config).proxies = config.proxies ++ nodes := by
  induction nodes with
  | nil => exact fun _ => (List.append_nil _).symm
  | cons node rest ih =>
    intro config hnd
    have hnew : py.name node ∉ config.proxies.map py.name := by
      rw [List.map_append, List.map_cons] at hnd
      exact fun hmem => (List.nodup_append.mp hnd).2.2 _ hmem _ List.mem_cons_self rfl
    have hfind : py.findProxy config.proxies (py.name node) = none := by
      cases h : py.findProxy config.proxies (py.name node) with
      | none => rfl
      | some found =>
        obtain ⟨hmem, hname⟩ := findProxy_eq_some h
        exact absurd (hname ▸ List.mem_map_of_mem hmem) hnew
    have hstep : (py.mergeNode config node).proxies = config.proxies ++ [node] := by
      unfold Texts.mergeNode
      simp only [hfind, Option.isNone_none, if_true]
    rw [List.foldl_cons, ih, hstep, List.append_assoc, List.singleton_append]
    rw [hstep, List.append_assoc, List.singleton_append]
    exact hnd

section

variable {base : Config} {saved : CustomNodesState}

theorem not_plain_of_isExit {proxy : Proxy} (h : py.isExit proxy = true) :
    py.isPlain proxy = false := by
  unfold Texts.isPlain
  rw [h]
  rfl

theorem not_plain_of_isChain {proxy : Proxy} (h : py.isChainProxy proxy = true) :
    py.isPlain proxy = false := by
  unfold Texts.isPlain
  rw [h]
  exact Bool.and_false _

theorem proxiesOk_base_append (hbase : Start py base) {nodes : List Proxy}
    (hnodes : SavedOk py nodes) : ProxiesOk py (base.proxies ++ nodes) where
  names := by
    rw [List.map_append]
    refine List.nodup_append.mpr ⟨hbase.names, hnodes.names, ?_⟩
    rintro _ hold _ hnew rfl
    obtain ⟨proxy, hproxy, hname⟩ := List.mem_map.mp hold
    obtain ⟨node, hnode, hnodeName⟩ := List.mem_map.mp hnew
    have hexit := isExit_congr (hname.trans hnodeName.symm)
    rw [(hbase.ordinary proxy hproxy).1, hnodes.exits node hnode] at hexit
    cases hexit
  plain proxy hproxy hnexit _ := by
    rcases List.mem_append.mp hproxy with hold | hnew
    · exact (hbase.ordinary proxy hold).2.2
    · rw [hnodes.exits proxy hnew] at hnexit
      cases hnexit
  exits proxy hproxy hexit := by
    rcases List.mem_append.mp hproxy with hold | hnew
    · rw [(hbase.ordinary proxy hold).1] at hexit
      cases hexit
    · exact hnodes.direct proxy hnew
  chains proxy hproxy hchain := by
    rcases List.mem_append.mp hproxy with hold | hnew
    · rw [(hbase.ordinary proxy hold).2.1] at hchain
      cases hchain
    · rw [not_chain_of_isExit (hnodes.exits proxy hnew)] at hchain
      cases hchain

theorem proxies_merged (hbase : Start py base) (hnodes : SavedOk py saved.exitNodes) :
    (saved.exitNodes.foldl py.mergeNode base).proxies = base.proxies ++ saved.exitNodes :=
  proxies_mergeNodes (proxiesOk_base_append hbase hnodes).names

/-- There is no chain proxy to remove before the saved setting is applied. -/
theorem removeChainOf_merged (hbase : Start py base) (hnodes : SavedOk py saved.exitNodes)
    (target : Option String) :
    (py.removeChainOf (saved.exitNodes.foldl py.mergeNode base) target).1.proxies =
      base.proxies ++ saved.exitNodes := by
  rw [removeChainOf_proxies (by
    rw [proxies_merged hbase hnodes]
    exact (proxiesOk_base_append hbase hnodes).names), proxies_merged hbase hnodes]
  refine List.filter_eq_self.mpr fun proxy hproxy => ?_
  unfold Texts.isTarget
  rcases List.mem_append.mp hproxy with hold | hnew
  · rw [(hbase.ordinary proxy hold).2.1]
    rfl
  · rw [not_chain_of_isExit (hnodes.exits proxy hnew)]
    rfl

theorem plainKeys_append_exits {nodes : List Proxy}
    (hnodes : ∀ node ∈ nodes, py.isExit node = true) (proxies : List Proxy) :
    py.plainKeys (proxies ++ nodes) = py.plainKeys proxies := by
  have hnone : nodes.filter (fun proxy => py.isPlain proxy) = [] := by
    refine List.filter_eq_nil_iff.mpr fun node hnode => ?_
    rw [not_plain_of_isExit (hnodes node hnode)]
    exact Bool.false_ne_true
  unfold Texts.plainKeys
  rw [List.filter_append, hnone, List.append_nil]

theorem selectTransits_merged (hbase : Start py base) (hnodes : SavedOk py saved.exitNodes)
    (exitName : String) (transitNodes : Option (List String)) (transitPattern : Option String) :
    py.selectTransits (base.proxies ++ saved.exitNodes) exitName transitNodes transitPattern =
      py.selectTransits base.proxies exitName transitNodes transitPattern :=
  selectTransits_congr (proxiesOk_base_append hbase hnodes).names hbase.names
    (plainKeys_append_exits hnodes.exits base.proxies) exitName transitNodes transitPattern

theorem exits_merged (hbase : Start py base) {nodes : List Proxy} (hnodes : SavedOk py nodes)
    (exitProxy : Proxy) (transits : List String) (exitName : String) :
    py.exits (base.proxies ++ nodes ++ transits.map fun transit =>
      virtualProxy exitProxy transit exitName) = nodes := by
  have hbaseNone : (base.proxies.filter fun proxy => py.isExit proxy) = [] := by
    refine List.filter_eq_nil_iff.mpr fun proxy hproxy => ?_
    rw [(hbase.ordinary proxy hproxy).1]
    exact Bool.false_ne_true
  have hchainsNone : ((transits.map fun transit => virtualProxy exitProxy transit exitName).filter
      fun proxy => py.isExit proxy) = [] := by
    refine List.filter_eq_nil_iff.mpr fun proxy hproxy hexit => ?_
    obtain ⟨transit, -, rfl⟩ := List.mem_map.mp hproxy
    have hchain := py.isChainProxy_virtualProxy exitProxy transit exitName
    rw [not_chain_of_isExit hexit] at hchain
    cases hchain
  unfold Texts.exits
  rw [List.filter_append, List.filter_append, hbaseNone, hchainsNone,
    List.filter_eq_self.mpr hnodes.exits, List.nil_append, List.append_nil]

theorem chains_merged (hbase : Start py base) {nodes : List Proxy} (hnodes : SavedOk py nodes)
    (exitProxy : Proxy) (transits : List String) (exitName : String) :
    py.chains (base.proxies ++ nodes ++ transits.map fun transit =>
        virtualProxy exitProxy transit exitName) =
      transits.map fun transit => virtualProxy exitProxy transit exitName := by
  have hmergedNone : ((base.proxies ++ nodes).filter fun proxy => py.isChainProxy proxy) = [] := by
    refine List.filter_eq_nil_iff.mpr fun proxy hproxy => ?_
    rcases List.mem_append.mp hproxy with hold | hnew
    · rw [(hbase.ordinary proxy hold).2.1]
      exact Bool.false_ne_true
    · rw [not_chain_of_isExit (hnodes.exits proxy hnew)]
      exact Bool.false_ne_true
  unfold Texts.chains
  rw [List.filter_append, hmergedNone, List.nil_append]
  refine List.filter_eq_self.mpr fun proxy hproxy => ?_
  obtain ⟨transit, -, rfl⟩ := List.mem_map.mp hproxy
  exact py.isChainProxy_virtualProxy exitProxy transit exitName

/-- Without a saved setting the exit nodes are merged and nothing else. -/
theorem merge_unchained (hbase : Start py base) (hnodes : SavedOk py saved.exitNodes)
    (h : saved.chainConfig.exitNode = "") :
    ∃ merged, py.mergeIntoConfig saved base = .ok merged ∧
      py.exits merged.proxies = saved.exitNodes ∧ py.chains merged.proxies = [] := by
  unfold Texts.mergeIntoConfig
  rw [if_neg (not_not.mpr h)]
  refine ⟨_, rfl, ?_, ?_⟩
  · rw [proxies_merged hbase hnodes]
    simpa using exits_merged hbase hnodes Dict.nil [] ""
  · rw [proxies_merged hbase hnodes]
    simpa using chains_merged hbase hnodes Dict.nil [] ""

theorem proxiesOk_merged (hbase : Start py base) (hnodes : SavedOk py saved.exitNodes) :
    ProxiesOk py (saved.exitNodes.foldl py.mergeNode base).proxies := by
  rw [proxies_merged hbase hnodes]
  exact proxiesOk_base_append hbase hnodes

/-- What merging with a saved setting makes, if it succeeds. -/
theorem merge_chained (hbase : Start py base) (hnodes : SavedOk py saved.exitNodes)
    (h : saved.chainConfig.exitNode ≠ "") {merged : Config}
    (hok : py.mergeIntoConfig saved base = .ok merged) :
    ∃ exitProxy ∈ saved.exitNodes, ∃ transits : List String,
      normalizeExitName (some saved.chainConfig.exitNode) = .ok (py.name exitProxy) ∧
      (∀ transit ∈ transits, contains chainSeparator transit = false) ∧
      py.chains merged.proxies =
        transits.map fun transit => virtualProxy exitProxy transit (py.name exitProxy) := by
  unfold Texts.mergeIntoConfig at hok
  rw [if_pos h] at hok
  split at hok
  · next result hset =>
    cases hok
    obtain ⟨exitName, exitProxy, transits, hname, hmem, rfl, -, hselect, hproxies, -⟩ :=
      setChain_eq_ok (proxiesOk_merged hbase hnodes) hset
    rw [removeChainOf_merged hbase hnodes] at hmem hselect hproxies
    have hexit : py.isExit exitProxy = true := startsWith_of_normalize hname
    rcases List.mem_append.mp hmem with hold | hnew
    · rw [(hbase.ordinary exitProxy hold).1] at hexit
      cases hexit
    · refine ⟨exitProxy, hnew, transits, hname, fun transit htransit => ?_, ?_⟩
      · rw [selectTransits_merged hbase hnodes] at hselect
        obtain ⟨proxy, hproxy, rfl, -, -⟩ :=
          (selectTransits_eq_ok hbase.names hselect).2 transit htransit
        exact (hbase.ordinary proxy hproxy).2.2
      · rw [hproxies]
        exact chains_merged hbase hnodes exitProxy transits _
  · cases hok

theorem getD_orNone {α : Type} [DecidableEq α] (empty value : α) :
    (orNone empty value).getD empty = value := by
  unfold orNone
  split
  · next h => exact h.symm
  · rfl

/-- The saved setting makes these chain proxies. -/
def ChainsSaved (py : Texts) (base : Config) (saved : CustomNodesState) (chains : List Proxy) :
    Prop :=
  saved.chainConfig.exitNode = "" ∧ chains = [] ∨
    ∃ exitProxy ∈ saved.exitNodes, ∃ transits : List String,
      py.name exitProxy = saved.chainConfig.exitNode ∧
      normalizeExitName (some saved.chainConfig.exitNode) = .ok saved.chainConfig.exitNode ∧
      ¬ (saved.chainConfig.transitNodes ≠ [] ∧ saved.chainConfig.transitPattern ≠ "") ∧
      py.selectTransits base.proxies saved.chainConfig.exitNode
        (orNone [] saved.chainConfig.transitNodes) (orNone "" saved.chainConfig.transitPattern) =
          .ok transits ∧
      transits ≠ [] ∧
      SameRecords (transits.map fun transit =>
        virtualProxy exitProxy transit saved.chainConfig.exitNode) chains

/-- Merging succeeds with a setting that has once made the chain proxies, and makes them
again. -/
theorem merge_of_chainsSaved (hbase : Start py base) (hnodes : SavedOk py saved.exitNodes)
    {chains : List Proxy} (h : ChainsSaved py base saved chains) :
    ∃ merged, py.mergeIntoConfig saved base = .ok merged ∧
      py.exits merged.proxies = saved.exitNodes ∧
      SameRecords (py.chains merged.proxies) chains := by
  rcases h with ⟨hnone, rfl⟩ | ⟨exitProxy, hmem, transits, hexitName, hname, hexclusive, hselect,
    hne, hsame⟩
  · obtain ⟨merged, hok, hexits, hchains⟩ := merge_unchained hbase hnodes hnone
    exact ⟨merged, hok, hexits, hchains ▸ SameRecords.refl []⟩
  · have hset : ∃ result, py.setChain (saved.exitNodes.foldl py.mergeNode base)
        saved.chainConfig.exitNode (orNone [] saved.chainConfig.transitNodes)
        (orNone "" saved.chainConfig.transitPattern) = .ok result ∧
        result.1.proxies = (py.removeChainOf (saved.exitNodes.foldl py.mergeNode base)
          (some (py.name exitProxy))).1.proxies ++ transits.map fun transit =>
            virtualProxy exitProxy transit (py.name exitProxy) := by
      refine setChain_of_select (proxiesOk_merged hbase hnodes) ?_ ?_ ?_ ?_ hne
      · rw [hexitName, hname]
      · rwa [getD_orNone, getD_orNone]
      · rw [removeChainOf_merged hbase hnodes]
        exact List.mem_append_right _ hmem
      · rw [removeChainOf_merged hbase hnodes, selectTransits_merged hbase hnodes, hexitName]
        exact hselect
    obtain ⟨result, hresult, hproxies⟩ := hset
    rw [removeChainOf_merged hbase hnodes, hexitName] at hproxies
    have hchained : saved.chainConfig.exitNode ≠ "" :=
      ne_empty_of_exit (startsWith_of_normalize hname)
    refine ⟨result.1, ?_, ?_, ?_⟩
    · unfold Texts.mergeIntoConfig
      rw [if_pos hchained, hresult]
    · rw [hproxies]
      exact exits_merged hbase hnodes exitProxy transits _
    · rw [hproxies, chains_merged hbase hnodes exitProxy transits]
      exact hsame

end

/-! ## The two files -/

structure Synced (py : Texts) (base : Config) (files : Files) : Prop where
  proxies : ProxiesOk py files.live.proxies
  plain : py.plainKeys files.live.proxies = py.plainKeys base.proxies
  exits : py.exits files.live.proxies = files.saved.exitNodes
  chains : ChainsSaved py base files.saved (py.chains files.live.proxies)

variable {base : Config} {files : Files}

theorem savedOk_exits (h : ProxiesOk py proxies) : SavedOk py (py.exits proxies) where
  names := h.names.sublist (List.filter_sublist.map py.name)
  exits _ hproxy := (List.mem_filter.mp hproxy).2
  direct proxy hproxy := h.exits proxy (List.mem_filter.mp hproxy).1 (List.mem_filter.mp hproxy).2

theorem Synced.savedOk (h : Synced py base files) : SavedOk py files.saved.exitNodes :=
  h.exits ▸ savedOk_exits h.proxies

theorem Synced.reproduces (hbase : Start py base) (h : Synced py base files) :
    Reproduces py base files := by
  obtain ⟨merged, hok, hexits, hchains⟩ := merge_of_chainsSaved hbase h.savedOk h.chains
  refine ⟨merged, hok, ?_, hchains⟩
  rw [hexits, h.exits]
  exact SameRecords.refl _

end NeuralHub.Proxies
