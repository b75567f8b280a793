/-
NeuralHub.Proxies.Overlay — the invariant of the chain overlay and what
each operation does to it.

`Overlay` says of a configuration that the proxy names are distinct, that
a proxy is an ordinary one, an exit node that dials directly, or the copy
of an exit node (`CopiesExit`), and that the groups fit (`GroupsOk`).

* `removeChainOf_proxies` and `removeChainOf_groups` say what `remove_chain`
  computes, `setChain_eq_ok` what a `set_chain` that succeeds has computed.
  The proxies have their own part of the invariant (`ProxiesOk`), which does
  not depend on the groups.
* `overlay_removeChain`, `overlay_removeExit` and `overlay_setChain` need
  no condition. `overlay_addExit` needs `KeepsCopies`: the node goes under
  the name it was added by, and an exit node with chain proxies gets no
  new data, for `add_exit_node` does not touch the copies.
* `set_remove_chain` — chaining an exit and unchaining it again is
  unchaining it, in everything but the group `GLOBAL`.
-/
import NeuralHub.Proxies.OverlayGroups

namespace NeuralHub.Proxies

open NeuralHub.Lib

/-! ## The invariant -/

/-- The chain proxy is a copy of the exit node in its name, and the transit that it dials
through is an ordinary proxy. -/
def CopiesExit (py : Texts) (proxies : List Proxy) (chain : Proxy) : Prop :=
  ∃ exitProxy ∈ proxies, ∃ transit ∈ proxies,
    py.isExit exitProxy = true ∧ py.isExit transit = false ∧ py.isChainProxy transit = false ∧
    py.name chain = buildChainName (py.name transit) (py.name exitProxy) ∧
    chain.get "dialer-proxy" = some (.str (py.name transit)) ∧
    Dict.Agree ["name", "dialer-proxy"] chain exitProxy

instance (py : Texts) (proxies : List Proxy) (chain : Proxy) :
    Decidable (CopiesExit py proxies chain) := by
  unfold CopiesExit
  infer_instance

structure ProxiesOk (py : Texts) (proxies : List Proxy) : Prop where
  names : (proxies.map py.name).Nodup
  plain : ∀ proxy ∈ proxies, py.isExit proxy = false → py.isChainProxy proxy = false →
    contains chainSeparator (py.name proxy) = false
  exits : ∀ proxy ∈ proxies, py.isExit proxy = true → proxy.get "dialer-proxy" = none
  chains : ∀ proxy ∈ proxies, py.isChainProxy proxy = true → CopiesExit py proxies proxy

structure Overlay (py : Texts) (config : Config) : Prop where
  proxies : ProxiesOk py config.proxies
  groups : GroupsOk py (config.proxies.map py.name) (py.chainNames config.proxies) config.groups

variable {py : Texts} {config : Config} {proxies : List Proxy}

/-! ## Proxies by name -/

theorem isExit_congr {p q : Proxy} (h : py.name p = py.name q) : py.isExit p = py.isExit q := by
  unfold Texts.isExit
  rw [h]

theorem isChainProxy_congr {p q : Proxy} (h : py.name p = py.name q) :
    py.isChainProxy p = py.isChainProxy q := by
  unfold Texts.isChainProxy
  rw [h]

theorem not_chain_of_isExit {proxy : Proxy} (h : py.isExit proxy = true) :
    py.isChainProxy proxy = false := not_chain_of_exit h

theorem eq_of_name (hnd : (proxies.map py.name).Nodup) {p q : Proxy} (hp : p ∈ proxies)
    (hq : q ∈ proxies) (h : py.name p = py.name q) : p = q :=
  List.inj_on_of_nodup_map hnd hp hq h

theorem length_filter_name_le (hnd : (proxies.map py.name).Nodup) (name : String) :
    (proxies.filter fun proxy => py.name proxy = name).length ≤ 1 := by
  have hcount : (proxies.filter fun proxy => py.name proxy = name).length =
      (proxies.map py.name).count name := by
    rw [← List.countP_eq_length_filter, List.count, List.countP_map]
    rfl
  rw [hcount]
  exact List.nodup_iff_count_le_one.mp hnd name

theorem findProxy_eq_some {name : String} {proxy : Proxy}
    (h : py.findProxy proxies name = some proxy) : proxy ∈ proxies ∧ py.name proxy = name := by
  refine ⟨List.mem_of_find?_eq_some h, ?_⟩
  have hname := List.find?_some h
  exact of_decide_eq_true hname

theorem findProxy_eq_none {name : String} (h : py.findProxy proxies name = none) :
    name ∉ proxies.map py.name := by
  intro hmem
  obtain ⟨proxy, hproxy, hname⟩ := List.mem_map.mp hmem
  exact List.find?_eq_none.mp h proxy hproxy (decide_eq_true hname)

/-- Selecting by name and selecting by a property agree when no two names are the same. -/
theorem filter_name_notMem (hnd : (proxies.map py.name).Nodup) (p : Proxy → Bool) :
    (proxies.filter fun proxy => py.name proxy ∉ (proxies.filter p).map py.name) =
      proxies.filter fun proxy => !p proxy := by
  refine List.filter_congr fun proxy hproxy => ?_
  rw [Bool.eq_iff_iff, decide_eq_true_eq, Bool.not_eq_true', ← Bool.not_eq_true]
  refine not_congr ⟨fun hmem => ?_, fun hp => ?_⟩
  · obtain ⟨other, hother, hname⟩ := List.mem_map.mp hmem
    obtain ⟨hother, hp⟩ := List.mem_filter.mp hother
    exact eq_of_name hnd hother hproxy hname ▸ hp
  · exact List.mem_map.mpr ⟨proxy, List.mem_filter.mpr ⟨hproxy, hp⟩, rfl⟩

theorem mem_chainNames {n : String} :
    n ∈ py.chainNames proxies ↔ ∃ proxy ∈ proxies, py.isChainProxy proxy = true ∧
      py.name proxy = n := by
  unfold Texts.chainNames
  simp only [List.mem_map, List.mem_filter, and_assoc]

theorem startsWith_of_mem_chainNames {n : String} (h : n ∈ py.chainNames proxies) :
    startsWith chainPrefix n = true := by
  obtain ⟨proxy, -, hchain, rfl⟩ := mem_chainNames.mp h
  exact hchain

theorem chainNames_ok {n : String} (h : n ∈ py.chainNames proxies) :
    n ∈ proxies.map py.name ∧ n ≠ chainGroupName := by
  obtain ⟨proxy, hproxy, -, rfl⟩ := mem_chainNames.mp h
  refine ⟨List.mem_map_of_mem hproxy, fun hname => ?_⟩
  exact absurd (hname ▸ startsWith_of_mem_chainNames h) (by decide)

/-! ## Copies -/

/-- A copy stays one while its exit keeps its data and its transit is there. -/
theorem CopiesExit.mono {proxies' : List Proxy} {chain : Proxy} (h : CopiesExit py proxies chain)
    (hexit : ∀ exitProxy ∈ proxies, py.isExit exitProxy = true →
      py.chainExit chain = py.name exitProxy →
      Dict.Agree ["name", "dialer-proxy"] chain exitProxy →
      ∃ exitProxy' ∈ proxies', py.name exitProxy' = py.name exitProxy ∧
        Dict.Agree ["name", "dialer-proxy"] chain exitProxy')
    (htransit : ∀ transit ∈ proxies, py.isExit transit = false →
      py.isChainProxy transit = false → ∃ transit' ∈ proxies', py.name transit' = py.name transit) :
    CopiesExit py proxies' chain := by
  obtain ⟨exitProxy, hmem, transit, htmem, hisExit, hnexit, hnchain, hname, hdialer, hagree⟩ := h
  obtain ⟨exitProxy', hmem', hname', hagree'⟩ :=
    hexit exitProxy hmem hisExit (py.chainExit_of_name hname hdialer) hagree
  obtain ⟨transit', htmem', htname'⟩ := htransit transit htmem hnexit hnchain
  refine ⟨exitProxy', hmem', transit', htmem', ?_, ?_, ?_, ?_, ?_, hagree'⟩
  · rw [isExit_congr hname', hisExit]
  · rw [isExit_congr htname', hnexit]
  · rw [isChainProxy_congr htname', hnchain]
  · rw [hname, htname', hname']
  · rw [hdialer, htname']

/-! ## Removing chain proxies -/

theorem filter_not_target_eq_self {target : Option String}
    (h : (proxies.filter fun proxy => py.isTarget target proxy) = []) :
    (proxies.filter fun proxy => !py.isTarget target proxy) = proxies := by
  refine List.filter_eq_self.mpr fun proxy hproxy => ?_
  rw [Bool.not_eq_true']
  exact Bool.eq_false_iff.mpr (List.filter_eq_nil_iff.mp h proxy hproxy)

theorem removeChainOf_proxies (hnd : (config.proxies.map py.name).Nodup)
    (target : Option String) : (py.removeChainOf config target).1.proxies =
      config.proxies.filter fun proxy => !py.isTarget target proxy := by
  unfold Texts.removeChainOf
  by_cases hnil : (config.proxies.filter fun proxy => py.isTarget target proxy) = []
  · simp only [hnil, List.map_nil, if_true]
    exact (filter_not_target_eq_self hnil).symm
  · have hne : ¬ (config.proxies.filter fun proxy => py.isTarget target proxy).map py.name = [] :=
      fun hmap => hnil (List.map_eq_nil_iff.mp hmap)
    simp only [if_neg hne, filter_name_notMem hnd]

theorem chainNames_ne_nil {target : Option String}
    (h : (proxies.filter fun proxy => py.isTarget target proxy) ≠ []) :
    py.chainNames proxies ≠ [] := by
  obtain ⟨proxy, hproxy⟩ := List.exists_mem_of_ne_nil _ h
  obtain ⟨hmem, htarget⟩ := List.mem_filter.mp hproxy
  refine List.ne_nil_of_mem (mem_chainNames.mpr ⟨proxy, hmem, ?_, rfl⟩)
  exact (Bool.and_eq_true _ _ ▸ htarget).1

theorem removeChainOf_groups (h : Overlay py config) (target : Option String) :
    (py.removeChainOf config target).1.groups =
      if (config.proxies.filter fun proxy => py.isTarget target proxy) = [] then config.groups
      else GroupsOk.rewrite py config.groups
        ((config.proxies.filter fun proxy => py.isTarget target proxy).map py.name)
        (py.chainNames (config.proxies.filter fun proxy => !py.isTarget target proxy)) := by
  unfold Texts.removeChainOf
  by_cases hnil : (config.proxies.filter fun proxy => py.isTarget target proxy) = []
  · simp only [hnil, List.map_nil, if_true]
  · have hne : ¬ (config.proxies.filter fun proxy => py.isTarget target proxy).map py.name = [] :=
      fun hmap => hnil (List.map_eq_nil_iff.mp hmap)
    have hfound : ∀ removed, (py.findGroup (removeGroupRefs config.groups removed)
        chainGroupName).isSome = true := by
      intro removed
      obtain ⟨group, hgroup, hname⟩ := h.groups.exists_chainGroup (chainNames_ne_nil hnil)
      exact List.find?_isSome.mpr ⟨_, List.mem_map_of_mem hgroup, decide_eq_true hname⟩
    simp only [if_neg hne, if_neg hnil, hfound, if_true, filter_name_notMem h.proxies.names,
      h.groups.updateFirst_removeGroupRefs]
    rfl

theorem ProxiesOk.filterTargets (h : ProxiesOk py proxies) (target : Option String) :
    ProxiesOk py (proxies.filter fun proxy => !py.isTarget target proxy) := by
  have hplain : ∀ {proxy}, proxy ∈ proxies → py.isChainProxy proxy = false →
      proxy ∈ proxies.filter fun proxy => !py.isTarget target proxy := by
    intro proxy hmem hchain
    refine List.mem_filter.mpr ⟨hmem, ?_⟩
    rw [Texts.isTarget, hchain]
    rfl
  constructor
  · exact h.names.sublist (List.filter_sublist.map py.name)
  · exact fun proxy hproxy => h.plain proxy (List.mem_filter.mp hproxy).1
  · exact fun proxy hproxy => h.exits proxy (List.mem_filter.mp hproxy).1
  · intro proxy hproxy hchain
    refine (h.chains proxy (List.mem_filter.mp hproxy).1 hchain).mono ?_ ?_
    · intro exitProxy hmem hexit _ hagree
      exact ⟨exitProxy, hplain hmem (not_chain_of_isExit hexit), rfl, hagree⟩
    · exact fun transit hmem _ hnchain => ⟨transit, hplain hmem hnchain, rfl⟩

theorem overlay_removeChainOf (h : Overlay py config) (target : Option String) :
    Overlay py (py.removeChainOf config target).1 := by
  constructor
  · rw [removeChainOf_proxies h.proxies.names]
    exact h.proxies.filterTargets target
  · rw [removeChainOf_proxies h.proxies.names, removeChainOf_groups h]
    split
    · next hnil =>
      rw [filter_not_target_eq_self hnil]
      exact h.groups
    · next hnil =>
      refine h.groups.rewritten (chainNames_ne_nil hnil) ?_ fun n hn => chainNames_ok hn
      intro n hn hkept
      obtain ⟨proxy, hproxy, rfl⟩ := List.mem_map.mp hn
      refine List.mem_map_of_mem (List.mem_filter.mpr ⟨hproxy, ?_⟩)
      rw [Bool.not_eq_true', ← Bool.not_eq_true]
      exact fun htarget => hkept (List.mem_map_of_mem (List.mem_filter.mpr ⟨hproxy, htarget⟩))

theorem removeChain_eq_ok {exitNode : Option String} {result : Config × Nat}
    (h : py.removeChain config exitNode = .ok result) :
    ∃ target, result = py.removeChainOf config target := by
  unfold Texts.removeChain at h
  split at h
  · cases h
    exact ⟨none, rfl⟩
  · cases h
    exact ⟨none, rfl⟩
  · cases hname : normalizeExitName (some _) with
    | error message =>
      rw [hname] at h
      cases h
    | ok exitName =>
      rw [hname] at h
      cases h
      exact ⟨some exitName, rfl⟩

theorem removeChain_of_normalize {exitNode exitName : String}
    (h : normalizeExitName (some exitNode) = .ok exitName) :
    py.removeChain config (some exitNode) = .ok (py.removeChainOf config (some exitName)) := by
  unfold Texts.removeChain
  split
  · next heq => cases heq
  · next heq =>
    cases heq
    cases h
  · next heq =>
    cases heq
    rw [h]
    rfl

theorem overlay_removeChain (h : Overlay py config) {exitNode : Option String}
    {result : Config × Nat} (hok : py.removeChain config exitNode = .ok result) :
    Overlay py result.1 := by
  obtain ⟨target, rfl⟩ := removeChain_eq_ok hok
  exact overlay_removeChainOf h target

/-! ## Removing an exit node -/

/-- Once the chain proxies of an exit are removed, the others are copies of other exits. -/
theorem chainExit_ne_of_removeChainOf (hnd : (config.proxies.map py.name).Nodup)
    {exitName : String} {chain : Proxy}
    (hmem : chain ∈ (py.removeChainOf config (some exitName)).1.proxies)
    (hchain : py.isChainProxy chain = true) : py.chainExit chain ≠ exitName := by
  rw [removeChainOf_proxies hnd] at hmem
  intro hexit
  have hkept := (List.mem_filter.mp hmem).2
  rw [Texts.isTarget, hchain] at hkept
  simp [hexit] at hkept

theorem removeExitNode_eq_ok {name : String} {result : Config}
    (h : py.removeExitNode config name = .ok result) :
    ∃ exitName, normalizeExitName (some name) = .ok exitName ∧
      result.proxies = ((py.removeChainOf config (some exitName)).1.proxies.filter fun proxy =>
          py.name proxy ≠ exitName).map (dropDialer exitName) ∧
      result.groups = removeGroupRefs (py.removeChainOf config (some exitName)).1.groups
        [exitName] := by
  unfold Texts.removeExitNode at h
  cases hname : normalizeExitName (some name) with
  | error message =>
    rw [hname] at h
    cases h
  | ok exitName =>
    rw [hname] at h
    simp only [bind, Except.bind, removeChain_of_normalize (normalize_normalized hname)] at h
    cases h
    exact ⟨exitName, rfl, rfl, rfl⟩

theorem name_dropDialer (exitName : String) (proxy : Proxy) :
    py.name (dropDialer exitName proxy) = py.name proxy := by
  unfold dropDialer
  split
  · exact py.name_remove_dialer proxy
  · rfl

theorem map_name_dropDialer (exitName : String) (proxies : List Proxy) :
    (proxies.map (dropDialer exitName)).map py.name = proxies.map py.name := by
  rw [List.map_map]
  exact List.map_congr_left fun proxy _ => name_dropDialer exitName proxy

theorem dropDialer_eq_self {exitName : String} {proxy : Proxy}
    (h : proxy.get "dialer-proxy" ≠ some (.str exitName)) : dropDialer exitName proxy = proxy :=
  if_neg h

theorem chainNames_map {f : Proxy → Proxy} (hf : ∀ proxy, py.name (f proxy) = py.name proxy)
    (proxies : List Proxy) : py.chainNames (proxies.map f) = py.chainNames proxies := by
  have hchain : ((fun proxy => py.isChainProxy proxy) ∘ f) = fun proxy => py.isChainProxy proxy :=
    funext fun proxy => isChainProxy_congr (hf proxy)
  unfold Texts.chainNames
  rw [List.filter_map, List.map_map, hchain]
  exact List.map_congr_left fun proxy _ => hf proxy

theorem chainNames_filter {p : Proxy → Bool}
    (hp : ∀ proxy ∈ proxies, py.isChainProxy proxy = true → p proxy = true) :
    py.chainNames (proxies.filter p) = py.chainNames proxies := by
  unfold Texts.chainNames
  rw [List.filter_filter]
  congr 1
  refine List.filter_congr fun proxy hproxy => ?_
  cases hchain : py.isChainProxy proxy with
  | true => rw [hp proxy hproxy hchain, Bool.and_self]
  | false => rw [Bool.false_and]

/-- What `remove_exit_node` leaves of the proxies. -/
theorem ProxiesOk.dropExit (h : ProxiesOk py proxies) {exitName : String}
    (hisExit : startsWith exitPrefix exitName = true)
    (hothers : ∀ proxy ∈ proxies, py.isChainProxy proxy = true → py.chainExit proxy ≠ exitName) :
    ProxiesOk py ((proxies.filter fun proxy => py.name proxy ≠ exitName).map
      (dropDialer exitName)) := by
  have hexitSelf : ∀ proxy ∈ proxies, py.isExit proxy = true →
      dropDialer exitName proxy = proxy := by
    intro proxy hproxy hexit
    refine dropDialer_eq_self ?_
    rw [h.exits proxy hproxy hexit]
    exact nofun
  have hkept : ∀ {proxy}, proxy ∈ proxies → py.name proxy ≠ exitName →
      dropDialer exitName proxy ∈ (proxies.filter fun proxy =>
        py.name proxy ≠ exitName).map (dropDialer exitName) := fun hproxy hname =>
    List.mem_map_of_mem (List.mem_filter.mpr ⟨hproxy, decide_eq_true hname⟩)
  constructor
  · rw [map_name_dropDialer]
    exact h.names.sublist (List.filter_sublist.map py.name)
  · intro proxy hproxy hexit hchain
    obtain ⟨old, hold, rfl⟩ := List.mem_map.mp hproxy
    rw [isExit_congr (name_dropDialer exitName old)] at hexit
    rw [isChainProxy_congr (name_dropDialer exitName old)] at hchain
    rw [name_dropDialer]
    exact h.plain old (List.mem_filter.mp hold).1 hexit hchain
  · intro proxy hproxy hexit
    obtain ⟨old, hold, rfl⟩ := List.mem_map.mp hproxy
    rw [isExit_congr (name_dropDialer exitName old)] at hexit
    rw [hexitSelf old (List.mem_filter.mp hold).1 hexit]
    exact h.exits old (List.mem_filter.mp hold).1 hexit
  · intro proxy hproxy hchain
    obtain ⟨old, hold, rfl⟩ := List.mem_map.mp hproxy
    rw [isChainProxy_congr (name_dropDialer exitName old)] at hchain
    obtain ⟨hold, -⟩ := List.mem_filter.mp hold
    have hcopy := h.chains old hold hchain
    have hself : dropDialer exitName old = old := by
      obtain ⟨-, -, transit, -, -, hnexit, -, -, hdialer, -⟩ := hcopy
      refine dropDialer_eq_self fun heq => ?_
      rw [hdialer, Option.some.injEq, Json.str.injEq] at heq
      rw [Texts.isExit, heq, hisExit] at hnexit
      cases hnexit
    rw [hself]
    refine hcopy.mono ?_ ?_
    · intro exitProxy hmem hexit hname hagree
      refine ⟨exitProxy, ?_, rfl, hagree⟩
      have hkeep := hkept hmem (hname ▸ hothers old hold hchain)
      rwa [hexitSelf exitProxy hmem hexit] at hkeep
    · intro transit hmem hnexit _
      refine ⟨dropDialer exitName transit, hkept hmem fun hname => ?_, name_dropDialer _ _⟩
      rw [Texts.isExit, hname, hisExit] at hnexit
      cases hnexit

theorem chainNames_dropExit {exitName : String}
    (hisExit : startsWith exitPrefix exitName = true) (proxies : List Proxy) :
    py.chainNames ((proxies.filter fun proxy => py.name proxy ≠ exitName).map
      (dropDialer exitName)) = py.chainNames proxies := by
  rw [chainNames_map (name_dropDialer exitName), chainNames_filter]
  intro proxy _ hchain
  refine decide_eq_true fun hname => ?_
  rw [Texts.isChainProxy, hname, not_chain_of_exit hisExit] at hchain
  cases hchain

/-- An exit node without chain proxies can go. -/
theorem overlay_dropExit (h : Overlay py config) {exitName : String}
    (hisExit : startsWith exitPrefix exitName = true)
    (hothers : ∀ proxy ∈ config.proxies, py.isChainProxy proxy = true →
      py.chainExit proxy ≠ exitName) :
    Overlay py ⟨(config.proxies.filter fun proxy => py.name proxy ≠ exitName).map
      (dropDialer exitName), removeGroupRefs config.groups [exitName]⟩ := by
  refine ⟨h.proxies.dropExit hisExit hothers, ?_⟩
  show GroupsOk py (List.map py.name _) (py.chainNames _) _
  rw [map_name_dropDialer, chainNames_dropExit hisExit]
  refine h.groups.removeRefs ?_ ?_
  · intro n hn hkeep
    obtain ⟨proxy, hproxy, rfl⟩ := List.mem_map.mp hn
    refine List.mem_map_of_mem (List.mem_filter.mpr ⟨hproxy, decide_eq_true fun hname => ?_⟩)
    exact hkeep (List.mem_singleton.mpr hname)
  · intro n hn hgone
    have hchain := startsWith_of_mem_chainNames hn
    rw [List.mem_singleton.mp hgone, not_chain_of_exit hisExit] at hchain
    cases hchain

theorem overlay_removeExit (h : Overlay py config) {name : String} {result : Config}
    (hok : py.removeExitNode config name = .ok result) : Overlay py result := by
  obtain ⟨exitName, hname, hproxies, hgroups⟩ := removeExitNode_eq_ok hok
  have hdrop := overlay_dropExit (overlay_removeChainOf h (some exitName))
    (startsWith_of_normalize hname)
    fun proxy hproxy hchain => chainExit_ne_of_removeChainOf h.proxies.names hproxy hchain
  rw [← hproxies, ← hgroups] at hdrop
  exact hdrop

/-! ## Adding an exit node -/

/-- The condition under which `add_exit_node` leaves the overlay consistent: the node goes
under the name it is added by (`extra` may hold another one), and while the exit node has
chain proxies, it is added again with the data that it has. -/
def KeepsCopies (py : Texts) (config : Config) (name : String) (args : NodeArgs) : Prop :=
  ∀ exitName ∈ (normalizeExitName (some name)).toOption,
    py.name (py.buildExitNode exitName args) = exitName ∧
      ∀ chain ∈ config.proxies, py.isChainProxy chain = true → py.chainExit chain = exitName →
        ∀ current ∈ config.proxies, py.name current = exitName →
          Dict.Agree ["name", "dialer-proxy"] (py.buildExitNode exitName args) current

instance (config : Config) (name : String) (args : NodeArgs) :
    Decidable (KeepsCopies py config name args) := by
  unfold KeepsCopies
  infer_instance

theorem get_dialer_buildExitNode (py : Texts) (exitName : String) (args : NodeArgs) :
    (py.buildExitNode exitName args).get "dialer-proxy" = none := by
  unfold Texts.buildExitNode
  exact Dict.get_remove_self _ _

/-- What adding or replacing an exit node does to the list of proxies. -/
structure PutsExit (py : Texts) (old : List Proxy) (node : Proxy) (new : List Proxy) : Prop where
  names : (new.map py.name).Nodup
  mem : ∀ proxy ∈ new, proxy = node ∨ proxy ∈ old ∧ py.name proxy ≠ py.name node
  stored : node ∈ new
  kept : ∀ proxy ∈ old, py.name proxy ≠ py.name node → proxy ∈ new
  others : ∀ p : Proxy → Bool, (∀ proxy, py.isExit proxy = true → p proxy = false) →
    new.filter p = old.filter p
  exits : (new.filter fun proxy => py.isExit proxy) =
    if py.name node ∈ old.map py.name then
      (old.filter fun proxy => py.isExit proxy).map fun proxy =>
        if py.name proxy = py.name node then node else proxy
    else (old.filter fun proxy => py.isExit proxy) ++ [node]

theorem PutsExit.names_subset {old new : List Proxy} {node : Proxy}
    (h : PutsExit py old node new) : ∀ n ∈ old.map py.name, n ∈ new.map py.name := by
  intro n hn
  obtain ⟨proxy, hproxy, rfl⟩ := List.mem_map.mp hn
  by_cases hname : py.name proxy = py.name node
  · rw [hname]
    exact List.mem_map_of_mem h.stored
  · exact List.mem_map_of_mem (h.kept proxy hproxy hname)

theorem PutsExit.chainNames {old new : List Proxy} {node : Proxy}
    (h : PutsExit py old node new) : py.chainNames new = py.chainNames old := by
  unfold Texts.chainNames
  rw [h.others _ fun _ => not_chain_of_isExit]

theorem putsExit_append (hnd : (proxies.map py.name).Nodup) {node : Proxy}
    (hexit : py.isExit node = true) (hnew : py.name node ∉ proxies.map py.name) :
    PutsExit py proxies node (proxies ++ [node]) where
  names := by
    rw [List.map_append, List.map_singleton]
    exact List.nodup_append.mpr ⟨hnd, List.nodup_singleton _, by
      rintro a ha b hb rfl
      exact hnew (List.mem_singleton.mp hb ▸ ha)⟩
  mem proxy hproxy := by
    rcases List.mem_append.mp hproxy with hmem | hmem
    · exact Or.inr ⟨hmem, fun hname => hnew (hname ▸ List.mem_map_of_mem hmem)⟩
    · exact Or.inl (List.mem_singleton.mp hmem)
  stored := List.mem_append_right _ (List.mem_singleton_self node)
  kept _ hproxy _ := List.mem_append_left _ hproxy
  others p hp := by
    rw [List.filter_append, List.filter_cons_of_neg (by rw [hp node hexit]; exact nofun),
      List.filter_nil, List.append_nil]
  exits := by
    rw [if_neg hnew, List.filter_append, List.filter_cons_of_pos hexit, List.filter_nil]

theorem putsExit_replace (hnd : (proxies.map py.name).Nodup) {node : Proxy}
    (hexit : py.isExit node = true) (hold : py.name node ∈ proxies.map py.name) :
    PutsExit py proxies node (updateFirst (fun proxy => py.name proxy = py.name node)
      (fun _ => node) proxies) := by
  have hput : updateFirst (fun proxy => decide (py.name proxy = py.name node)) (fun _ => node)
      proxies = proxies.map fun proxy => if py.name proxy = py.name node then node else proxy := by
    rw [updateFirst_eq_map (length_filter_name_le hnd _)]
    simp only [decide_eq_true_eq]
  rw [hput]
  have hname : ∀ proxy, py.name (if py.name proxy = py.name node then node else proxy) =
      py.name proxy := by
    intro proxy
    split
    · next h => exact h.symm
    · rfl
  constructor
  · rw [List.map_map]
    have hcomp : (py.name ∘ fun proxy => if py.name proxy = py.name node then node else proxy) =
        py.name := funext hname
    rwa [hcomp]
  · intro proxy hproxy
    obtain ⟨old, hmem, rfl⟩ := List.mem_map.mp hproxy
    by_cases h : py.name old = py.name node
    · exact Or.inl (if_pos h)
    · rw [if_neg h]
      exact Or.inr ⟨hmem, h⟩
  · obtain ⟨proxy, hproxy, h⟩ := List.mem_map.mp hold
    exact List.mem_map.mpr ⟨proxy, hproxy, if_pos h⟩
  · intro proxy hproxy h
    exact List.mem_map.mpr ⟨proxy, hproxy, if_neg h⟩
  · intro p hp
    -- a proxy under the name of the node is an exit node, and none of those is selected
    have hsame : ∀ {proxy}, py.name proxy = py.name node → p proxy = false := fun h =>
      hp _ ((isExit_congr h).trans hexit)
    have hcomp : (p ∘ fun proxy => if py.name proxy = py.name node then node else proxy) = p := by
      funext proxy
      rw [Function.comp_apply]
      split
      · next h => rw [hsame h, hp node hexit]
      · rfl
    rw [List.filter_map, hcomp]
    refine (List.map_congr_left fun proxy hproxy => if_neg fun h => ?_).trans (List.map_id _)
    exact absurd (List.mem_filter.mp hproxy).2 (by rw [hsame h]; exact nofun)
  · have hcomp : ((fun proxy => py.isExit proxy) ∘ fun proxy =>
        if py.name proxy = py.name node then node else proxy) = fun proxy => py.isExit proxy :=
      funext fun proxy => isExit_congr (hname proxy)
    rw [if_pos hold, List.filter_map, hcomp]

theorem addExitNode_eq_ok (hnd : (config.proxies.map py.name).Nodup) {name : String}
    {args : NodeArgs} {result : Config} (h : py.addExitNode config name args = .ok result) :
    ∃ exitName, normalizeExitName (some name) = .ok exitName ∧
      (py.name (py.buildExitNode exitName args) = exitName →
        PutsExit py config.proxies (py.buildExitNode exitName args) result.proxies) ∧
      result.groups = py.appendNameToGroups config.groups exitName [chainGroupName] := by
  unfold Texts.addExitNode at h
  cases hname : normalizeExitName (some name) with
  | error message =>
    rw [hname] at h
    cases h
  | ok exitName =>
    rw [hname] at h
    cases h
    refine ⟨exitName, rfl, fun hnode => ?_, rfl⟩
    have hexit : py.isExit (py.buildExitNode exitName args) = true := by
      unfold Texts.isExit
      rw [hnode]
      exact startsWith_of_normalize hname
    simp only
    split
    · next hnone =>
      refine putsExit_append hnd hexit ?_
      rw [hnode]
      exact findProxy_eq_none hnone
    · next current hsome =>
      obtain ⟨hmem, hcurrent⟩ := findProxy_eq_some hsome
      have hold : py.name (py.buildExitNode exitName args) ∈ config.proxies.map py.name := by
        rw [hnode, ← hcurrent]
        exact List.mem_map_of_mem hmem
      have hreplace := putsExit_replace hnd hexit hold
      rwa [hnode] at hreplace

/-- The node that was added is the only one that can go under the name. -/
theorem eq_node_of_addExitNode (hnd : (config.proxies.map py.name).Nodup) {name exitName : String}
    {args : NodeArgs} {result : Config} (h : py.addExitNode config name args = .ok result)
    (hname : normalizeExitName (some name) = .ok exitName) {proxy : Proxy}
    (hmem : proxy ∈ result.proxies) (hproxy : py.name proxy = exitName) :
    proxy = py.buildExitNode exitName args := by
  unfold Texts.addExitNode at h
  rw [hname] at h
  cases h
  simp only at hmem
  split at hmem
  · next hnone =>
    rcases List.mem_append.mp hmem with hold | hnew
    · exact absurd (hproxy ▸ List.mem_map_of_mem hold) (findProxy_eq_none hnone)
    · exact List.mem_singleton.mp hnew
  · rw [updateFirst_eq_map (length_filter_name_le hnd _)] at hmem
    obtain ⟨old, -, rfl⟩ := List.mem_map.mp hmem
    split at hproxy
    · next h => exact if_pos h
    · next h => exact absurd (decide_eq_true hproxy) h

theorem ProxiesOk.putsExit (h : ProxiesOk py proxies) {node : Proxy} {new : List Proxy}
    (hexit : py.isExit node = true) (hdialer : node.get "dialer-proxy" = none)
    (hputs : PutsExit py proxies node new)
    (hcopies : ∀ chain ∈ proxies, py.isChainProxy chain = true →
      py.chainExit chain = py.name node → ∀ current ∈ proxies,
        py.name current = py.name node → Dict.Agree ["name", "dialer-proxy"] node current) :
    ProxiesOk py new := by
  constructor
  · exact hputs.names
  · intro proxy hproxy hnexit hnchain
    rcases hputs.mem proxy hproxy with rfl | ⟨hmem, -⟩
    · rw [hexit] at hnexit
      cases hnexit
    · exact h.plain proxy hmem hnexit hnchain
  · intro proxy hproxy hisExit
    rcases hputs.mem proxy hproxy with rfl | ⟨hmem, -⟩
    · exact hdialer
    · exact h.exits proxy hmem hisExit
  · intro chain hchainMem hchain
    rcases hputs.mem chain hchainMem with rfl | ⟨hmem, -⟩
    · rw [not_chain_of_isExit hexit] at hchain
      cases hchain
    · refine (h.chains chain hmem hchain).mono ?_ ?_
      · intro exitProxy hexitMem _ hchainExit hagree
        by_cases hsame : py.name exitProxy = py.name node
        · have hnew := hcopies chain hmem hchain (hchainExit.trans hsame) exitProxy hexitMem hsame
          exact ⟨node, hputs.stored, hsame.symm, hagree.trans hnew.symm⟩
        · exact ⟨exitProxy, hputs.kept exitProxy hexitMem hsame, rfl, hagree⟩
      · intro transit htransit hnexit _
        refine ⟨transit, hputs.kept transit htransit fun hsame => ?_, rfl⟩
        rw [isExit_congr hsame, hexit] at hnexit
        cases hnexit

theorem overlay_addExit (h : Overlay py config) {name : String} {args : NodeArgs}
    {result : Config} (hok : py.addExitNode config name args = .ok result)
    (hkeeps : KeepsCopies py config name args) : Overlay py result := by
  obtain ⟨exitName, hname, hputs, hgroups⟩ := addExitNode_eq_ok h.proxies.names hok
  obtain ⟨hnode, hcopies⟩ := hkeeps exitName (by rw [hname]; rfl)
  replace hputs := hputs hnode
  have hisExit := startsWith_of_normalize hname
  have hdialer := get_dialer_buildExitNode py exitName args
  generalize py.buildExitNode exitName args = node at *
  subst hnode
  refine ⟨h.proxies.putsExit hisExit hdialer hputs hcopies, ?_⟩
  rw [hgroups, hputs.chainNames]
  exact h.groups.appendExit hisExit (List.mem_map_of_mem hputs.stored) hputs.names_subset

/-! ## Setting a chain -/

theorem updateFirst_eq_self {α : Type} {p : α → Bool} {f : α → α} {l : List α}
    (h : ∀ x ∈ l, p x = true → f x = x) : updateFirst p f l = l := by
  induction l with
  | nil => rfl
  | cons x rest ih =>
    rw [updateFirst]
    split
    · next hx => rw [h x List.mem_cons_self hx]
    · rw [ih fun y hy => h y (List.mem_cons_of_mem x hy)]

theorem mem_fromKeys {names : List String} {n : String} : n ∈ fromKeys names ↔ n ∈ names := by
  unfold fromKeys
  rw [List.mem_reverse, List.mem_dedup, List.mem_reverse]

theorem nodup_fromKeys (names : List String) : (fromKeys names).Nodup := by
  unfold fromKeys
  exact List.nodup_reverse.mpr (List.nodup_dedup _)

theorem isTransitCandidate_plain {proxy : Proxy} {exitName : String}
    (h : py.isTransitCandidate (some proxy) exitName = true) :
    py.isExit proxy = false ∧ py.isChainProxy proxy = false := by
  unfold Texts.isTransitCandidate at h
  simp only [Bool.and_eq_true, Bool.not_eq_true'] at h
  exact ⟨h.1.1.2, h.1.2⟩

/-- The transits are the names of ordinary proxies, each once. -/
theorem selectTransits_eq_ok (hnd : (proxies.map py.name).Nodup) {exitName : String}
    {transitNodes : Option (List String)} {transitPattern : Option String}
    {transits : List String}
    (h : py.selectTransits proxies exitName transitNodes transitPattern = .ok transits) :
    transits.Nodup ∧ ∀ transit ∈ transits, ∃ proxy ∈ proxies, py.name proxy = transit ∧
      py.isExit proxy = false ∧ py.isChainProxy proxy = false := by
  unfold Texts.selectTransits at h
  simp only at h
  split at h
  · split at h
    · cases h
    · next hinvalid =>
      cases h
      refine ⟨nodup_fromKeys _, fun transit htransit => ?_⟩
      have hcandidate := List.filter_eq_nil_iff.mp (not_not.mp hinvalid) transit
        (mem_fromKeys.mp htransit)
      rw [Bool.not_eq_true', Bool.not_eq_false] at hcandidate
      cases hfind : py.findProxy proxies transit with
      | none =>
        rw [hfind] at hcandidate
        cases hcandidate
      | some proxy =>
        rw [hfind] at hcandidate
        obtain ⟨hmem, hname⟩ := findProxy_eq_some hfind
        exact ⟨proxy, hmem, hname, isTransitCandidate_plain hcandidate⟩
  · cases h
    refine ⟨hnd.sublist (List.filter_sublist.map py.name), fun transit htransit => ?_⟩
    obtain ⟨proxy, hproxy, rfl⟩ := List.mem_map.mp htransit
    obtain ⟨hmem, hcandidate⟩ := List.mem_filter.mp hproxy
    rw [Bool.and_eq_true] at hcandidate
    exact ⟨proxy, hmem, rfl, isTransitCandidate_plain hcandidate.1⟩

/-- `set_chain` of a normalized name. An exit node dials directly, so that popping its
`dialer-proxy` does nothing. -/
theorem setChain_eq (h : ProxiesOk py config.proxies) {exitNode exitName : String}
    (hname : normalizeExitName (some exitNode) = .ok exitName)
    {transitNodes : Option (List String)} {transitPattern : Option String}
    (hexclusive : ¬ (transitNodes.getD [] ≠ [] ∧ transitPattern.getD "" ≠ "")) :
    py.setChain config exitNode transitNodes transitPattern =
      let r := (py.removeChainOf config (some exitName)).1
      match py.findProxy r.proxies exitName with
      | none => .error ("Exit node not found: " ++ exitName)
      | some exitProxy =>
        match py.selectTransits r.proxies exitName transitNodes transitPattern with
        | .error message => .error message
        | .ok transits =>
          if transits = [] then .error "No transit nodes matched the request"
          else
            let proxies := r.proxies ++ transits.map fun transit =>
              virtualProxy exitProxy transit exitName
            .ok (⟨proxies, py.appendGlobalGroup (py.upsertChainGroup r.groups
              (py.chainNames proxies)) chainGroupName⟩, transits.length) := by
  have hr : ProxiesOk py (py.removeChainOf config (some exitName)).1.proxies := by
    rw [removeChainOf_proxies h.names]
    exact h.filterTargets (some exitName)
  unfold Texts.setChain
  rw [if_neg hexclusive, hname]
  simp only [bind, Except.bind, pure, Except.pure,
    removeChain_of_normalize (normalize_normalized hname)]
  cases hfind : py.findProxy (py.removeChainOf config (some exitName)).1.proxies exitName with
  | none => rfl
  | some found =>
    obtain ⟨hmem, hfound⟩ := findProxy_eq_some hfind
    have hexit : py.isExit found = true := by
      unfold Texts.isExit
      rw [hfound]
      exact startsWith_of_normalize hname
    have hpop : updateFirst (fun proxy => decide (py.name proxy = exitName))
        (fun proxy => proxy.remove "dialer-proxy")
        (py.removeChainOf config (some exitName)).1.proxies =
        (py.removeChainOf config (some exitName)).1.proxies := by
      refine updateFirst_eq_self fun proxy hproxy hproxyName => ?_
      rw [eq_of_name hr.names hproxy hmem ((of_decide_eq_true hproxyName).trans hfound.symm)]
      exact Dict.remove_eq_self (hr.exits found hmem hexit)
    simp only [hpop, Dict.remove_eq_self (hr.exits found hmem hexit)]
    cases py.selectTransits (py.removeChainOf config (some exitName)).1.proxies exitName
      transitNodes transitPattern with
    | error message => rfl
    | ok transits =>
      by_cases hnil : transits = []
      · simp only [if_pos hnil]
        rfl
      · simp only [if_neg hnil]

theorem setChain_eq_ok (h : ProxiesOk py config.proxies) {exitNode : String}
    {transitNodes : Option (List String)} {transitPattern : Option String}
    {result : Config × Nat}
    (hok : py.setChain config exitNode transitNodes transitPattern = .ok result) :
    ∃ exitName exitProxy transits, normalizeExitName (some exitNode) = .ok exitName ∧
      exitProxy ∈ (py.removeChainOf config (some exitName)).1.proxies ∧
      py.name exitProxy = exitName ∧ transits ≠ [] ∧
      py.selectTransits (py.removeChainOf config (some exitName)).1.proxies exitName transitNodes
        transitPattern = .ok transits ∧
      result.1.proxies = (py.removeChainOf config (some exitName)).1.proxies ++
        transits.map (fun transit => virtualProxy exitProxy transit exitName) ∧
      result.1.groups = py.appendGlobalGroup (py.upsertChainGroup
        (py.removeChainOf config (some exitName)).1.groups (py.chainNames result.1.proxies))
          chainGroupName := by
  by_cases hexclusive : transitNodes.getD [] ≠ [] ∧ transitPattern.getD "" ≠ ""
  · unfold Texts.setChain at hok
    rw [if_pos hexclusive] at hok
    cases hok
  · cases hname : normalizeExitName (some exitNode) with
    | error message =>
      unfold Texts.setChain at hok
      rw [if_neg hexclusive, hname] at hok
      cases hok
    | ok exitName =>
      rw [setChain_eq h hname hexclusive] at hok
      simp only at hok
      split at hok
      · cases hok
      · next exitProxy hfind =>
        obtain ⟨hmem, hfound⟩ := findProxy_eq_some hfind
        split at hok
        · cases hok
        · next transits hselect =>
          split at hok
          · cases hok
          · next hne =>
            cases hok
            exact ⟨exitName, exitProxy, transits, rfl, hmem, hfound, hne, hselect, rfl, rfl⟩

/-- `set_chain` succeeds when the exit is there and a transit is found. -/
theorem setChain_of_select (h : ProxiesOk py config.proxies) {exitNode : String}
    {exitProxy : Proxy} {transits : List String}
    {transitNodes : Option (List String)} {transitPattern : Option String}
    (hname : normalizeExitName (some exitNode) = .ok (py.name exitProxy))
    (hexclusive : ¬ (transitNodes.getD [] ≠ [] ∧ transitPattern.getD "" ≠ ""))
    (hmem : exitProxy ∈ (py.removeChainOf config (some (py.name exitProxy))).1.proxies)
    (hselect : py.selectTransits (py.removeChainOf config (some (py.name exitProxy))).1.proxies
      (py.name exitProxy) transitNodes transitPattern = .ok transits) (hne : transits ≠ []) :
    ∃ result, py.setChain config exitNode transitNodes transitPattern = .ok result ∧
      result.1.proxies = (py.removeChainOf config (some (py.name exitProxy))).1.proxies ++
        transits.map (fun transit => virtualProxy exitProxy transit (py.name exitProxy)) := by
  have hr : ProxiesOk py (py.removeChainOf config (some (py.name exitProxy))).1.proxies := by
    rw [removeChainOf_proxies h.names]
    exact h.filterTargets _
  rw [setChain_eq h hname hexclusive]
  cases hfind : py.findProxy (py.removeChainOf config (some (py.name exitProxy))).1.proxies
    (py.name exitProxy) with
  | none => exact absurd (List.mem_map_of_mem hmem) (findProxy_eq_none hfind)
  | some found =>
    obtain ⟨hfoundMem, hfound⟩ := findProxy_eq_some hfind
    obtain rfl := eq_of_name hr.names hfoundMem hmem hfound
    simp only [hfind, hselect, if_neg hne]
    refine ⟨_, rfl, ?_⟩
    rfl

theorem chainNames_append_virtual (exitProxy : Proxy) (transits : List String)
    (exitName : String) :
    py.chainNames (proxies ++ transits.map fun transit =>
        virtualProxy exitProxy transit exitName) =
      py.chainNames proxies ++ transits.map fun transit => buildChainName transit exitName := by
  have hall : ∀ chain ∈ transits.map fun transit => virtualProxy exitProxy transit exitName,
      py.isChainProxy chain = true := by
    intro chain hchain
    obtain ⟨transit, -, rfl⟩ := List.mem_map.mp hchain
    exact py.isChainProxy_virtualProxy exitProxy transit exitName
  unfold Texts.chainNames
  rw [List.filter_append, List.map_append, List.filter_eq_self.mpr hall, List.map_map]
  congr 1
  exact List.map_congr_left fun transit _ => py.name_virtualProxy exitProxy transit exitName

theorem map_name_append_virtual (proxies : List Proxy) (exitProxy : Proxy)
    (transits : List String) (exitName : String) :
    (proxies ++ transits.map fun transit => virtualProxy exitProxy transit exitName).map py.name =
      proxies.map py.name ++ transits.map fun transit => buildChainName transit exitName := by
  rw [List.map_append, List.map_map]
  congr 1
  exact List.map_congr_left fun transit _ => py.name_virtualProxy exitProxy transit _

/-- What `set_chain` adds once the chain proxies of the exit are removed. -/
theorem ProxiesOk.addChains (h : ProxiesOk py proxies) {exitProxy : Proxy}
    {transits : List String} (hmem : exitProxy ∈ proxies) (hexit : py.isExit exitProxy = true)
    (hnodup : transits.Nodup)
    (hplain : ∀ transit ∈ transits, ∃ proxy ∈ proxies, py.name proxy = transit ∧
      py.isExit proxy = false ∧ py.isChainProxy proxy = false)
    (hothers : ∀ proxy ∈ proxies, py.isChainProxy proxy = true →
      py.chainExit proxy ≠ py.name exitProxy) :
    ProxiesOk py (proxies ++ transits.map fun transit =>
      virtualProxy exitProxy transit (py.name exitProxy)) := by
  have hsep : ∀ transit ∈ transits, contains chainSeparator transit = false := by
    intro transit htransit
    obtain ⟨proxy, hproxy, rfl, hnexit, hnchain⟩ := hplain transit htransit
    exact h.plain proxy hproxy hnexit hnchain
  constructor
  · rw [map_name_append_virtual]
    refine List.nodup_append.mpr ⟨h.names, ?_, ?_⟩
    · refine List.Nodup.map_on (fun t ht u hu heq => ?_) hnodup
      exact (buildChainName_inj (hsep t ht) (hsep u hu) hexit hexit heq).1
    · -- a name that is there already would be a chain proxy of this exit
      rintro _ hold _ hnew rfl
      obtain ⟨transit, htransit, hname⟩ := List.mem_map.mp hnew
      obtain ⟨proxy, hproxy, hproxyName⟩ := List.mem_map.mp hold
      have hchain : py.isChainProxy proxy = true := by
        unfold Texts.isChainProxy
        rw [hproxyName, ← hname]
        exact startsWith_buildChainName transit _
      obtain ⟨other, hother, t, ht, hotherExit, hnexit, hnchain, hcopyName, hdialer, -⟩ :=
        h.chains proxy hproxy hchain
      have heq := hname.trans (hproxyName.symm.trans hcopyName)
      refine hothers proxy hproxy hchain ?_
      rw [py.chainExit_of_name hcopyName hdialer]
      exact (buildChainName_inj (hsep transit htransit) (h.plain t ht hnexit hnchain) hexit
        hotherExit heq).2.symm
  · intro proxy hproxy hnexit hnchain
    rcases List.mem_append.mp hproxy with hold | hnew
    · exact h.plain proxy hold hnexit hnchain
    · obtain ⟨transit, -, rfl⟩ := List.mem_map.mp hnew
      rw [py.isChainProxy_virtualProxy] at hnchain
      cases hnchain
  · intro proxy hproxy hisExit
    rcases List.mem_append.mp hproxy with hold | hnew
    · exact h.exits proxy hold hisExit
    · obtain ⟨transit, -, rfl⟩ := List.mem_map.mp hnew
      have hchain := py.isChainProxy_virtualProxy exitProxy transit (py.name exitProxy)
      rw [not_chain_of_isExit hisExit] at hchain
      cases hchain
  · intro chain hchainMem hchain
    rcases List.mem_append.mp hchainMem with hold | hnew
    · refine (h.chains chain hold hchain).mono ?_ ?_
      · exact fun other hother _ _ hagree => ⟨other, List.mem_append_left _ hother, rfl, hagree⟩
      · exact fun transit htransit _ _ => ⟨transit, List.mem_append_left _ htransit, rfl⟩
    · obtain ⟨transit, htransit, rfl⟩ := List.mem_map.mp hnew
      obtain ⟨proxy, hproxy, hname, hnexit, hnchain⟩ := hplain transit htransit
      refine ⟨exitProxy, List.mem_append_left _ hmem, proxy, List.mem_append_left _ hproxy, hexit,
        hnexit, hnchain, ?_, ?_, Texts.agree_virtualProxy exitProxy transit _⟩
      · rw [py.name_virtualProxy, hname]
      · rw [Texts.get_dialer_virtualProxy, hname]

theorem overlay_addChains (h : Overlay py config) {exitProxy : Proxy} {transits : List String}
    (hmem : exitProxy ∈ config.proxies) (hexit : py.isExit exitProxy = true)
    (hne : transits ≠ []) (hnodup : transits.Nodup)
    (hplain : ∀ transit ∈ transits, ∃ proxy ∈ config.proxies, py.name proxy = transit ∧
      py.isExit proxy = false ∧ py.isChainProxy proxy = false)
    (hothers : ∀ proxy ∈ config.proxies, py.isChainProxy proxy = true →
      py.chainExit proxy ≠ py.name exitProxy) :
    Overlay py
      ⟨config.proxies ++ transits.map (fun transit =>
          virtualProxy exitProxy transit (py.name exitProxy)),
        py.appendGlobalGroup (py.upsertChainGroup config.groups
          (py.chainNames (config.proxies ++ transits.map fun transit =>
            virtualProxy exitProxy transit (py.name exitProxy)))) chainGroupName⟩ := by
  refine ⟨h.proxies.addChains hmem hexit hnodup hplain hothers, ?_⟩
  refine h.groups.offered ?_ (fun n hn => chainNames_ok hn) ?_
  · rw [chainNames_append_virtual]
    exact List.append_ne_nil_of_right_ne_nil _ fun hnil => hne (List.map_eq_nil_iff.mp hnil)
  · intro n hn
    show n ∈ List.map py.name _
    rw [map_name_append_virtual]
    exact List.mem_append_left _ hn

theorem overlay_setChain (h : Overlay py config) {exitNode : String}
    {transitNodes : Option (List String)} {transitPattern : Option String}
    {result : Config × Nat}
    (hok : py.setChain config exitNode transitNodes transitPattern = .ok result) :
    Overlay py result.1 := by
  obtain ⟨exitName, exitProxy, transits, hname, hmem, rfl, hne, hselect, hproxies, hgroups⟩ :=
    setChain_eq_ok h.proxies hok
  obtain ⟨hnodup, hplain⟩ :=
    selectTransits_eq_ok (overlay_removeChainOf h (some (py.name exitProxy))).proxies.names hselect
  have hadd := overlay_addChains (overlay_removeChainOf h (some (py.name exitProxy))) hmem
    (startsWith_of_normalize hname) hne hnodup hplain
    fun proxy hproxy hchain => chainExit_ne_of_removeChainOf h.proxies.names hproxy hchain
  rw [← hproxies, ← hgroups] at hadd
  exact hadd

/-- The same configuration, whatever the group `GLOBAL` offers. -/
def SameButGlobal (py : Texts) (config config' : Config) : Prop :=
  config.proxies = config'.proxies ∧
    (config.groups.filter fun group => py.groupName group ≠ "GLOBAL") =
      config'.groups.filter fun group => py.groupName group ≠ "GLOBAL"

/-- Chaining an exit and unchaining it again is unchaining it. -/
theorem set_remove_chain (h : Overlay py config) {exitNode : String}
    {transitNodes : Option (List String)} {transitPattern : Option String}
    {result : Config × Nat}
    (hok : py.setChain config exitNode transitNodes transitPattern = .ok result) :
    ∃ undone removed, py.removeChain result.1 (some exitNode) = .ok undone ∧
      py.removeChain config (some exitNode) = .ok removed ∧
      SameButGlobal py undone.1 removed.1 := by
  obtain ⟨exitName, exitProxy, transits, hname, -, -, hne, -, hproxies, hgroups⟩ :=
    setChain_eq_ok h.proxies hok
  have hold : ∀ proxy ∈ (py.removeChainOf config (some exitName)).1.proxies,
      py.isTarget (some exitName) proxy = false := by
    intro proxy hproxy
    rw [removeChainOf_proxies h.proxies.names] at hproxy
    exact (Bool.not_eq_true' _).mp (List.mem_filter.mp hproxy).2
  have hnew : ∀ proxy ∈ transits.map fun transit => virtualProxy exitProxy transit exitName,
      py.isTarget (some exitName) proxy = true := by
    intro proxy hproxy
    obtain ⟨transit, -, rfl⟩ := List.mem_map.mp hproxy
    have hexit := py.chainExit_of_name (py.name_virtualProxy exitProxy transit exitName)
      (Texts.get_dialer_virtualProxy exitProxy transit exitName)
    rw [Texts.isTarget, py.isChainProxy_virtualProxy, Option.all_some, hexit, decide_eq_true rfl,
      Bool.and_self]
  have hr := overlay_removeChainOf h (some exitName)
  refine ⟨_, _, removeChain_of_normalize hname, removeChain_of_normalize hname, ?_⟩
  have hundone := removeChainOf_proxies (overlay_setChain h hok).proxies.names (some exitName)
  have hundoneGroups := removeChainOf_groups (overlay_setChain h hok) (some exitName)
  generalize (py.removeChainOf config (some exitName)).1 = r at *
  have hkept : (result.1.proxies.filter fun proxy => !py.isTarget (some exitName) proxy) =
      r.proxies := by
    rw [hproxies, List.filter_append, List.filter_eq_self.mpr, List.filter_eq_nil_iff.mpr,
      List.append_nil]
    · exact fun proxy hproxy => by rw [hnew proxy hproxy]; exact Bool.false_ne_true
    · exact fun proxy hproxy => by rw [hold proxy hproxy]; rfl
  have hgone : (result.1.proxies.filter fun proxy => py.isTarget (some exitName) proxy) =
      transits.map fun transit => virtualProxy exitProxy transit exitName := by
    rw [hproxies, List.filter_append, List.filter_eq_self.mpr hnew, List.filter_eq_nil_iff.mpr,
      List.nil_append]
    exact fun proxy hproxy => by rw [hold proxy hproxy]; exact Bool.false_ne_true
  refine ⟨hundone.trans hkept, ?_⟩
  rw [hundoneGroups, hgone, if_neg fun hnil => hne (List.map_eq_nil_iff.mp hnil), hkept, hgroups]
  refine hr.groups.filter_global_rewrite fun n hn => ?_
  obtain ⟨chain, hchain, rfl⟩ := List.mem_map.mp hn
  obtain ⟨transit, htransit, rfl⟩ := List.mem_map.mp hchain
  refine ⟨py.isChainProxy_virtualProxy exitProxy transit exitName, fun hmemName => ?_⟩
  have hnd := (overlay_setChain h hok).proxies.names
  rw [hproxies, List.map_append] at hnd
  exact (List.nodup_append.mp hnd).2.2 _ hmemName _ (List.mem_map_of_mem hchain) rfl

end NeuralHub.Proxies
