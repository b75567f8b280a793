/-
NeuralHub.Proxies.CustomNodesRuns — does the saved form reproduce the live
overlay after every run of the tool?

`always_reproduces_iff`: a run stays reproducible exactly when each action
meets `KeepsSaved`: no `add_exit` with other data for an exit that is
chained, no `set` beside the chain proxies of another exit (there is one
setting to save), and no `remove` for one exit while another is chained
(it clears the setting, whichever exit that is for).

Of `str` it is used that a value which is not a string does not read as
the name of an exit node (`PlainStr`).
-/
import NeuralHub.Proxies.CustomNodesTheorems

namespace NeuralHub.Proxies

open NeuralHub.Lib

variable {py : Texts} {base : Config} {files result : Files} {proxies : List Proxy}

/-- `str` of a number, a list and so on never starts with the prefix of the exit nodes. -/
def PlainStr (py : Texts) : Prop :=
  ∀ value : Json, (∀ s, value ≠ .str s) → startsWith exitPrefix (py.str value) = false

theorem get_name_of_isExit (hpy : PlainStr py) {proxy : Proxy} (h : py.isExit proxy = true) :
    proxy.get "name" = some (.str (py.name proxy)) := by
  unfold Texts.isExit Texts.name Texts.field at h
  cases hget : proxy.get "name" with
  | none =>
    rw [hget] at h
    exact absurd h Bool.false_ne_true
  | some value =>
    by_cases hstr : ∃ s, value = .str s
    · obtain ⟨s, rfl⟩ := hstr
      rw [Texts.name, py.field_of_get_str hget]
    · have hplain := hpy value fun s hs => hstr ⟨s, hs⟩
      have htext : py.text value = py.str value := by
        cases value with
        | str s => exact absurd ⟨s, rfl⟩ hstr
        | _ => rfl
      rw [hget] at h
      simp only [htext] at h
      split at h
      · rw [hplain] at h
        cases h
      · exact absurd h Bool.false_ne_true

theorem hasName_of_isExit (hpy : PlainStr py) {proxy : Proxy} (h : py.isExit proxy = true)
    (exitName : String) : hasName exitName proxy = decide (py.name proxy = exitName) := by
  unfold hasName
  rw [get_name_of_isExit hpy h]
  simp only [Option.some.injEq, Json.str.injEq]

/-! ## The saved exit nodes -/

theorem updateFirst_congr {α : Type} {p q : α → Bool} {f : α → α} {l : List α}
    (h : ∀ x ∈ l, p x = q x) : updateFirst p f l = updateFirst q f l := by
  induction l with
  | nil => rfl
  | cons x rest ih =>
    rw [updateFirst, updateFirst, h x List.mem_cons_self,
      ih fun y hy => h y (List.mem_cons_of_mem x hy)]

/-- An exit node is saved as it is put into the configuration. -/
theorem saveExitNode_eq (hpy : PlainStr py) {saved : CustomNodesState} {node : Proxy}
    {new : List Proxy} (hnd : (proxies.map py.name).Nodup)
    (hsaved : saved.exitNodes = py.exits proxies)
    (hname : normalizeExitName (some (py.name node)) = .ok (py.name node))
    (hputs : PutsExit py proxies node new) :
    py.saveExitNode saved node = .ok ⟨py.exits new, saved.chainConfig⟩ := by
  have hexit : py.isExit node = true := startsWith_of_normalize hname
  have hset : node.set "name" (.str (py.name node)) = node :=
    Dict.set_eq_self (get_name_of_isExit hpy hexit)
  have hhas : ∀ proxy ∈ py.exits proxies,
      hasName (py.name node) proxy = decide (py.name proxy = py.name node) :=
    fun proxy hproxy => hasName_of_isExit hpy (List.mem_filter.mp hproxy).2 _
  have hany : (py.exits proxies).any (hasName (py.name node)) = true ↔
      py.name node ∈ proxies.map py.name := by
    rw [List.any_eq_true]
    constructor
    · rintro ⟨proxy, hproxy, h⟩
      rw [hhas proxy hproxy, decide_eq_true_eq] at h
      exact h ▸ List.mem_map_of_mem (List.mem_filter.mp hproxy).1
    · intro hmem
      obtain ⟨proxy, hproxy, h⟩ := List.mem_map.mp hmem
      have hproxyExit : proxy ∈ py.exits proxies :=
        List.mem_filter.mpr ⟨hproxy, (isExit_congr h).trans hexit⟩
      exact ⟨proxy, hproxyExit, (hhas proxy hproxyExit).trans (decide_eq_true h)⟩
  have hupdate : updateFirst (hasName (py.name node)) (fun _ => node) (py.exits proxies) =
      (py.exits proxies).map fun proxy =>
        if py.name proxy = py.name node then node else proxy := by
    rw [updateFirst_congr hhas, updateFirst_eq_map]
    · simp only [decide_eq_true_eq]
    · exact length_filter_name_le (hnd.sublist (List.filter_sublist.map py.name)) _
  have hexits : py.exits new = if py.name node ∈ proxies.map py.name then
      (py.exits proxies).map fun proxy => if py.name proxy = py.name node then node else proxy
      else py.exits proxies ++ [node] := hputs.exits
  unfold Texts.saveExitNode
  rw [hname, hexits, hsaved]
  simp only [bind, Except.bind, pure, Except.pure, hset, hany, hupdate]

theorem exits_dropExit (hok : ProxiesOk py proxies) (exitName : String) :
    py.exits ((proxies.filter fun proxy => py.name proxy ≠ exitName).map (dropDialer exitName)) =
      (py.exits proxies).filter fun proxy => py.name proxy ≠ exitName := by
  have hcomp : ((fun proxy => py.isExit proxy) ∘ dropDialer exitName) =
      fun proxy => py.isExit proxy :=
    funext fun proxy => isExit_congr (name_dropDialer exitName proxy)
  unfold Texts.exits
  rw [List.filter_map, hcomp, List.filter_comm]
  refine (List.map_congr_left fun proxy hproxy => ?_).trans (List.map_id _)
  obtain ⟨hmem, hexit⟩ := List.mem_filter.mp (List.mem_filter.mp hproxy).1
  refine dropDialer_eq_self ?_
  rw [hok.exits proxy hmem hexit]
  exact nofun

theorem removeExitNode_exits (hpy : PlainStr py) {saved : CustomNodesState} {exitName : String}
    (hsaved : saved.exitNodes = py.exits proxies) :
    (saved.exitNodes.filter fun item => !hasName exitName item) =
      (py.exits proxies).filter fun proxy => py.name proxy ≠ exitName := by
  rw [hsaved]
  refine List.filter_congr fun proxy hproxy => ?_
  rw [hasName_of_isExit hpy (List.mem_filter.mp hproxy).2]
  exact (decide_not).symm

/-! ## The live chain proxies and the saved setting -/

theorem chainExit_virtualProxy (exitProxy : Proxy) (transit exitName : String) :
    py.chainExit (virtualProxy exitProxy transit exitName) = exitName :=
  py.chainExit_of_name (py.name_virtualProxy exitProxy transit exitName)
    (Texts.get_dialer_virtualProxy exitProxy transit exitName)

/-- All live chain proxies are copies of the exit in the saved setting. -/
theorem ChainsSaved.chainExit {saved : CustomNodesState} {chains : List Proxy}
    (h : ChainsSaved py base saved chains) {chain : Proxy} (hmem : chain ∈ chains) :
    py.chainExit chain = saved.chainConfig.exitNode := by
  rcases h with ⟨-, rfl⟩ | ⟨exitProxy, -, transits, -, -, -, -, -, hsame⟩
  · cases hmem
  · obtain ⟨copy, hcopy, hagree⟩ := hsame.2 chain hmem
    obtain ⟨transit, -, rfl⟩ := List.mem_map.mp hcopy
    rw [← chainExit_of_agree hagree, chainExit_virtualProxy]

theorem mem_chains {proxy : Proxy} :
    proxy ∈ py.chains proxies ↔ proxy ∈ proxies ∧ py.isChainProxy proxy = true := List.mem_filter

theorem mem_exits {proxy : Proxy} :
    proxy ∈ py.exits proxies ↔ proxy ∈ proxies ∧ py.isExit proxy = true := List.mem_filter

/-- Removing chain proxies is not seen by a selection that has none. -/
theorem filter_filterTargets {p : Proxy → Bool}
    (hp : ∀ proxy, py.isChainProxy proxy = true → p proxy = false) (target : Option String)
    (proxies : List Proxy) :
    (proxies.filter fun proxy => !py.isTarget target proxy).filter p = proxies.filter p := by
  rw [List.filter_filter]
  refine List.filter_congr fun proxy _ => ?_
  cases hchain : py.isChainProxy proxy with
  | true => rw [hp proxy hchain, Bool.false_and]
  | false => rw [Texts.isTarget, hchain, Bool.false_and, Bool.not_false, Bool.and_true]

theorem exits_filterTargets (target : Option String) (proxies : List Proxy) :
    py.exits (proxies.filter fun proxy => !py.isTarget target proxy) = py.exits proxies := by
  refine filter_filterTargets (fun proxy hchain => ?_) target proxies
  rw [← Bool.not_eq_true]
  exact fun hexit => absurd hchain (by rw [not_chain_of_isExit hexit]; exact Bool.false_ne_true)

theorem plainKeys_filterTargets (target : Option String) (proxies : List Proxy) :
    py.plainKeys (proxies.filter fun proxy => !py.isTarget target proxy) =
      py.plainKeys proxies := by
  unfold Texts.plainKeys
  rw [filter_filterTargets (fun _ => not_plain_of_isChain) target proxies]

/-- The chain proxies of the other exits are left. -/
theorem mem_chains_filterTargets {exitName : String} {proxy : Proxy} :
    proxy ∈ py.chains (proxies.filter fun proxy => !py.isTarget (some exitName) proxy) ↔
      proxy ∈ py.chains proxies ∧ py.chainExit proxy ≠ exitName := by
  rw [mem_chains, mem_chains, List.mem_filter, Texts.isTarget, Option.all_some]
  cases py.isChainProxy proxy with
  | true => simp
  | false => simp

theorem chains_filterTargets_eq_nil {exitName : String}
    (h : ∀ chain ∈ py.chains proxies, py.chainExit chain = exitName) :
    py.chains (proxies.filter fun proxy => !py.isTarget (some exitName) proxy) = [] := by
  refine List.eq_nil_iff_forall_not_mem.mpr fun chain hmem => ?_
  obtain ⟨hchain, hne⟩ := mem_chains_filterTargets.mp hmem
  exact hne (h chain hchain)

theorem chains_filterTargets_eq_self {exitName : String}
    (h : ∀ chain ∈ py.chains proxies, py.chainExit chain ≠ exitName) :
    py.chains (proxies.filter fun proxy => !py.isTarget (some exitName) proxy) =
      py.chains proxies := by
  unfold Texts.chains
  rw [List.filter_comm]
  refine List.filter_eq_self.mpr fun chain hmem => ?_
  have hne := h chain hmem
  rw [Texts.isTarget, Option.all_some, decide_eq_false hne, Bool.and_false]
  rfl

/-! ## What an action that succeeds has done -/

theorem normalize_stripped (name : String) :
    normalizeExitName (some (stripped name)) = normalizeExitName (some name) := by
  have h : uniqueText (some (stripped name)) = uniqueText (some name) := by
    unfold uniqueText stripped
    rw [Option.getD_some, Option.getD_some, String.toList_ofList, Text.strip_strip]
  unfold normalizeExitName
  rw [h]

theorem validateText_eq_ok {value text : String} (h : validateText value = .ok text) :
    text = stripped value ∧ stripped value ≠ "" := by
  unfold validateText at h
  split at h
  · cases h
  · next hne =>
    cases h
    exact ⟨rfl, hne⟩

/-- For a text without white space at its ends the two ways to prefix it agree. -/
theorem withExitPrefix_stripped {name exitName : String}
    (h : normalizeExitName (some name) = .ok exitName) :
    withExitPrefix (stripped name) = exitName := by
  unfold normalizeExitName at h
  have hunique : uniqueText (some name) = stripped name := rfl
  rw [hunique] at h
  unfold withExitPrefix
  split at h
  · cases h
  · split at h
    · next hexit =>
      cases h
      exact if_pos hexit
    · next hexit =>
      cases h
      exact if_neg hexit

theorem parse_eq_ok {name : String} {result : Config} {args : NodeArgs}
    (h : py.addExitNode files.live (stripped name) args = .ok result) :
    ∃ exitName, normalizeExitName (some name) = .ok exitName := by
  unfold Texts.addExitNode at h
  rw [normalize_stripped] at h
  cases hname : normalizeExitName (some name) with
  | ok exitName => exact ⟨exitName, rfl⟩
  | error message =>
    rw [hname] at h
    cases h

/-- The node goes under the name it was added by: the tool looks it up by that name. -/
theorem execute_addExit (hnd : (files.live.proxies.map py.name).Nodup) {name : String}
    {args : NodeArgs} (h : py.execute files (.addExit name args) = .ok result) :
    ∃ exitName args', normalizeExitName (some name) = .ok exitName ∧ args.parse = .ok args' ∧
      py.name (py.buildExitNode exitName args') = exitName ∧
      PutsExit py files.live.proxies (py.buildExitNode exitName args') result.live.proxies ∧
      py.saveExitNode files.saved (py.buildExitNode exitName args') = .ok result.saved := by
  simp only [Texts.execute, bind, Except.bind, pure, Except.pure] at h
  split at h
  · cases h
  · next text htext =>
    obtain ⟨rfl, -⟩ := validateText_eq_ok htext
    split at h
    · cases h
    · next args' hargs =>
      split at h
      · cases h
      · next updated hupdated =>
        split at h
        · cases h
        · next node hnode =>
          split at h
          · cases h
          · split at h
            · cases h
            · next saved hsaved =>
              cases h
              obtain ⟨exitName, hname⟩ := parse_eq_ok hupdated
              have hstripped := (normalize_stripped name).trans hname
              obtain ⟨_, hname', hputs, -⟩ := addExitNode_eq_ok hnd hupdated
              cases hstripped.symm.trans hname'
              unfold Texts.findExitNode at hnode
              rw [withExitPrefix_stripped hname] at hnode
              split at hnode
              · next found hfound =>
                cases hnode
                obtain ⟨hmem, hfoundName⟩ := findProxy_eq_some hfound
                obtain rfl := eq_node_of_addExitNode hnd hupdated hstripped hmem hfoundName
                exact ⟨exitName, args', hname, hargs, hfoundName, hputs hfoundName, hsaved⟩
              · cases hnode

theorem execute_removeExit {name : String}
    (h : py.execute files (.removeExit name) = .ok result) :
    ∃ exitName, normalizeExitName (some name) = .ok exitName ∧
      result.live.proxies = ((py.removeChainOf files.live (some exitName)).1.proxies.filter
        fun proxy => py.name proxy ≠ exitName).map (dropDialer exitName) ∧
      result.saved = ⟨files.saved.exitNodes.filter fun item => !hasName exitName item,
        if files.saved.chainConfig.exitNode = exitName then {} else files.saved.chainConfig⟩ := by
  simp only [Texts.execute, bind, Except.bind, pure, Except.pure] at h
  split at h
  · cases h
  · next text htext =>
    obtain ⟨rfl, -⟩ := validateText_eq_ok htext
    split at h
    · cases h
    · next updated hupdated =>
      split at h
      · cases h
      · split at h
        · cases h
        · next saved hsaved =>
          cases h
          obtain ⟨exitName, hname, hproxies, -⟩ := removeExitNode_eq_ok hupdated
          unfold CustomNodesState.removeExitNode at hsaved
          rw [hname] at hsaved
          cases hsaved
          rw [normalize_stripped] at hname
          exact ⟨exitName, hname, hproxies, rfl⟩

theorem stripped_stripped (s : String) : stripped (stripped s) = stripped s := by
  unfold stripped
  rw [String.toList_ofList, Text.strip_strip]

/-- The names as `set` passes them on. -/
def cleaned (names : List String) : List String := (names.map stripped).filter (· ≠ "")

theorem cleaned_cleaned (names : List String) : cleaned (cleaned names) = cleaned names := by
  have hmap : (cleaned names).map stripped = cleaned names := by
    refine (List.map_congr_left fun name hname => ?_).trans (List.map_id _)
    obtain ⟨source, -, rfl⟩ := List.mem_map.mp (List.mem_filter.mp hname).1
    exact stripped_stripped source
  rw [cleaned, hmap]
  exact List.filter_eq_self.mpr fun name hname => (List.mem_filter.mp hname).2

theorem execute_set {exitNode : String} {transitNodes : List String} {transitPattern : String}
    (h : py.execute files (.set exitNode transitNodes transitPattern) = .ok result) :
    ∃ exitName set, normalizeExitName (some exitNode) = .ok exitName ∧
      ¬ (cleaned transitNodes ≠ [] ∧ stripped transitPattern ≠ "") ∧
      py.setChain files.live (stripped exitNode) (orNone [] (cleaned transitNodes))
        (orNone "" (stripped transitPattern)) = .ok set ∧
      result.live = set.1 ∧
      result.saved = ⟨files.saved.exitNodes,
        ⟨exitName, stripped transitPattern, cleaned transitNodes⟩⟩ := by
  simp only [Texts.execute, bind, Except.bind, pure, Except.pure] at h
  split at h
  · cases h
  · next text htext =>
    obtain ⟨rfl, -⟩ := validateText_eq_ok htext
    split at h
    · cases h
    · next hexclusive =>
      split at h
      · cases h
      · next set hset =>
        split at h
        · cases h
        · split at h
          · cases h
          · next saved hsaved =>
            cases h
            unfold CustomNodesState.setChainConfig at hsaved
            rw [normalize_stripped] at hsaved
            cases hname : normalizeExitName (some exitNode) with
            | error message =>
              rw [hname] at hsaved
              cases hsaved
            | ok exitName =>
              rw [hname] at hsaved
              cases hsaved
              refine ⟨exitName, set, rfl, hexclusive, hset, rfl, ?_⟩
              have hcleaned := cleaned_cleaned transitNodes
              unfold cleaned at hcleaned
              rw [stripped_stripped, hcleaned]
              rfl

theorem execute_remove {exitNode : String}
    (h : py.execute files (.remove exitNode) = .ok result) :
    ∃ removed, py.removeChain files.live (orNone "" (stripped exitNode)) = .ok removed ∧
      result.live = removed.1 ∧ result.saved = files.saved.clearChainConfig := by
  simp only [Texts.execute, bind, Except.bind, pure, Except.pure] at h
  split at h
  · cases h
  · next removed hremoved =>
    split at h
    · cases h
    · cases h
      exact ⟨removed, hremoved, rfl, rfl⟩

/-! ## The condition on one action -/

/-- Every live chain proxy is a copy of this exit. -/
def OnlyChained (py : Texts) (proxies : List Proxy) (exitNode : String) : Prop :=
  ∀ exitName ∈ (normalizeExitName (some exitNode)).toOption,
    ∀ chain ∈ py.chains proxies, py.chainExit chain = exitName

instance (exitNode : String) : Decidable (OnlyChained py proxies exitNode) := by
  unfold OnlyChained
  infer_instance

/-- The condition under which an action keeps the saved form in step with the live one:
a chained exit is added again with the data that it has; a chain is set beside no chain of
another exit; and what is removed is every chain, or that of the only chained exit. -/
def KeepsSaved (py : Texts) (files : Files) : ToolAction → Prop
  | .addExit name args =>
      ∀ args' ∈ args.parse.toOption, KeepsCopies py files.live name args'
  | .removeExit _ => True
  | .set exitNode _ _ => OnlyChained py files.live.proxies exitNode
  | .remove exitNode =>
      stripped exitNode = "" ∨ OnlyChained py files.live.proxies exitNode

instance (files : Files) : ∀ action, Decidable (KeepsSaved py files action)
  | .addExit name args =>
      inferInstanceAs (Decidable (∀ args' ∈ args.parse.toOption,
        KeepsCopies py files.live name args'))
  | .removeExit _ => inferInstanceAs (Decidable True)
  | .set exitNode _ _ => inferInstanceAs (Decidable (OnlyChained py files.live.proxies exitNode))
  | .remove exitNode =>
      inferInstanceAs (Decidable (stripped exitNode = "" ∨
        OnlyChained py files.live.proxies exitNode))

/-! ## Each action keeps the files in step -/

theorem plainKeys_putsExit {node : Proxy} {new : List Proxy} (h : PutsExit py proxies node new) :
    py.plainKeys new = py.plainKeys proxies := by
  unfold Texts.plainKeys
  rw [h.others _ fun _ => not_plain_of_isExit]

theorem chains_putsExit {node : Proxy} {new : List Proxy} (h : PutsExit py proxies node new) :
    py.chains new = py.chains proxies := h.others _ fun _ => not_chain_of_isExit

/-- Equal data apart from the two fields that a copy has of its own makes equal copies. -/
theorem agree_virtualProxy_of_agree {p q : Proxy} (h : Dict.Agree ["name", "dialer-proxy"] p q)
    (transit exitName : String) :
    Dict.Agree [] (virtualProxy p transit exitName) (virtualProxy q transit exitName) := by
  intro k _
  unfold virtualProxy
  simp only [Dict.get_set]
  by_cases hdialer : k = "dialer-proxy"
  · rw [if_pos hdialer, if_pos hdialer]
  · rw [if_neg hdialer, if_neg hdialer]
    by_cases hname : k = "name"
    · rw [if_pos hname, if_pos hname]
    · rw [if_neg hname, if_neg hname]
      exact h k (by simp [hdialer, hname])

/-- An exit with the same data makes the same chain proxies. -/
theorem sameRecords_virtual {p q : Proxy} (h : Dict.Agree ["name", "dialer-proxy"] p q)
    {transits : List String} {exitName : String} {chains : List Proxy}
    (hsame : SameRecords (transits.map fun transit => virtualProxy p transit exitName) chains) :
    SameRecords (transits.map fun transit => virtualProxy q transit exitName) chains := by
  constructor
  · intro copy hcopy
    obtain ⟨transit, htransit, rfl⟩ := List.mem_map.mp hcopy
    obtain ⟨chain, hchain, hagree⟩ := hsame.1 _ (List.mem_map_of_mem htransit)
    exact ⟨chain, hchain, (agree_virtualProxy_of_agree h transit exitName).symm.trans hagree⟩
  · intro chain hchain
    obtain ⟨copy, hcopy, hagree⟩ := hsame.2 chain hchain
    obtain ⟨transit, htransit, rfl⟩ := List.mem_map.mp hcopy
    exact ⟨_, List.mem_map_of_mem htransit,
      (agree_virtualProxy_of_agree h transit exitName).symm.trans hagree⟩

/-- The setting still makes the chain proxies while the exit in it keeps its data. -/
theorem ChainsSaved.mono {saved saved' : CustomNodesState} {chains : List Proxy}
    (h : ChainsSaved py base saved chains) (hconfig : saved'.chainConfig = saved.chainConfig)
    (hexit : ∀ exitProxy ∈ saved.exitNodes, py.name exitProxy = saved.chainConfig.exitNode →
      chains ≠ [] → ∃ exitProxy' ∈ saved'.exitNodes,
        py.name exitProxy' = saved.chainConfig.exitNode ∧
        Dict.Agree ["name", "dialer-proxy"] exitProxy exitProxy') :
    ChainsSaved py base saved' chains := by
  unfold ChainsSaved
  rw [hconfig]
  rcases h with ⟨hnone, rfl⟩ | ⟨exitProxy, hmem, transits, hname, hnormal, hexclusive, hselect,
    hne, hsame⟩
  · exact Or.inl ⟨hnone, rfl⟩
  · have hchains : chains ≠ [] := by
      obtain ⟨transit, htransit⟩ := List.exists_mem_of_ne_nil _ hne
      obtain ⟨chain, hchain, -⟩ := hsame.1 _ (List.mem_map_of_mem htransit)
      exact List.ne_nil_of_mem hchain
    obtain ⟨exitProxy', hmem', hname', hagree⟩ := hexit exitProxy hmem hname hchains
    exact Or.inr ⟨exitProxy', hmem', transits, hname', hnormal, hexclusive, hselect, hne,
      sameRecords_virtual hagree hsame⟩

theorem synced_addExit (hpy : PlainStr py) (h : Synced py base files) {name : String}
    {args : NodeArgs} (hok : py.execute files (.addExit name args) = .ok result)
    (hkeeps : KeepsSaved py files (.addExit name args)) : Synced py base result := by
  obtain ⟨exitName, args', hname, hargs, hnode, hputs, hsaved⟩ :=
    execute_addExit h.proxies.names hok
  obtain ⟨-, hcopies⟩ := hkeeps args' (by rw [hargs]; rfl) exitName (by rw [hname]; rfl)
  have hisExit := startsWith_of_normalize hname
  have hdialer := get_dialer_buildExitNode py exitName args'
  generalize py.buildExitNode exitName args' = node at *
  subst hnode
  rw [saveExitNode_eq hpy h.proxies.names h.exits.symm (normalize_normalized hname) hputs] at hsaved
  have hresult := (Except.ok.inj hsaved).symm
  refine ⟨h.proxies.putsExit hisExit hdialer hputs hcopies,
    (plainKeys_putsExit hputs).trans h.plain, by rw [hresult], ?_⟩
  rw [chains_putsExit hputs, hresult]
  refine h.chains.mono rfl fun exitProxy hmem hexitName hne => ?_
  rw [← h.exits] at hmem
  obtain ⟨hexitMem, hexit⟩ := mem_exits.mp hmem
  by_cases hsame : py.name exitProxy = py.name node
  · obtain ⟨chain, hchain⟩ := List.exists_mem_of_ne_nil _ hne
    have hchainExit := (h.chains.chainExit hchain).trans (hexitName.symm.trans hsame)
    have hagree := hcopies chain (mem_chains.mp hchain).1 (mem_chains.mp hchain).2 hchainExit
      exitProxy hexitMem hsame
    exact ⟨node, mem_exits.mpr ⟨hputs.stored, hisExit⟩, hsame.symm.trans hexitName, hagree.symm⟩
  · exact ⟨exitProxy, mem_exits.mpr ⟨hputs.kept exitProxy hexitMem hsame, hexit⟩, hexitName,
      Dict.Agree.refl _ _⟩

theorem plainKeys_dropExit {exitName : String}
    (hisExit : startsWith exitPrefix exitName = true) (proxies : List Proxy) :
    py.plainKeys ((proxies.filter fun proxy => py.name proxy ≠ exitName).map
      (dropDialer exitName)) = py.plainKeys proxies := by
  have hkey : ∀ proxy, py.key (dropDialer exitName proxy) = py.key proxy := by
    intro proxy
    unfold Texts.key
    rw [name_dropDialer]
    unfold dropDialer
    split
    · rw [py.field_congr (Dict.get_remove_of_ne proxy (by decide))]
    · rfl
  have hplain : ((fun proxy => py.isPlain proxy) ∘ dropDialer exitName) =
      fun proxy => py.isPlain proxy := by
    funext proxy
    rw [Function.comp_apply, Texts.isPlain, isExit_congr (name_dropDialer exitName proxy),
      isChainProxy_congr (name_dropDialer exitName proxy)]
    rfl
  unfold Texts.plainKeys
  rw [List.filter_map, hplain, List.map_map, List.filter_comm, List.filter_eq_self.mpr]
  · exact List.map_congr_left fun proxy _ => hkey proxy
  · intro proxy hproxy
    refine decide_eq_true fun hname => ?_
    have hexit : py.isExit proxy = true := by rw [Texts.isExit, hname, hisExit]
    have hnot := not_plain_of_isExit hexit
    rw [(List.mem_filter.mp hproxy).2] at hnot
    cases hnot

/-- A chain proxy dials through an ordinary proxy. -/
theorem chains_dropExit (hok : ProxiesOk py proxies) {exitName : String}
    (hisExit : startsWith exitPrefix exitName = true) :
    py.chains ((proxies.filter fun proxy => py.name proxy ≠ exitName).map
      (dropDialer exitName)) = py.chains proxies := by
  have hcomp : ((fun proxy => py.isChainProxy proxy) ∘ dropDialer exitName) =
      fun proxy => py.isChainProxy proxy :=
    funext fun proxy => isChainProxy_congr (name_dropDialer exitName proxy)
  unfold Texts.chains
  rw [List.filter_map, hcomp, List.filter_comm, List.filter_eq_self.mpr]
  · refine (List.map_congr_left fun proxy hproxy => ?_).trans (List.map_id _)
    obtain ⟨hmem, hchain⟩ := List.mem_filter.mp hproxy
    obtain ⟨-, -, transit, -, -, hnexit, -, -, hdialer, -⟩ := hok.chains proxy hmem hchain
    refine dropDialer_eq_self fun heq => ?_
    rw [hdialer, Option.some.injEq, Json.str.injEq] at heq
    rw [Texts.isExit, heq, hisExit] at hnexit
    cases hnexit
  · intro proxy hproxy
    refine decide_eq_true fun hname => ?_
    have hchain := (List.mem_filter.mp hproxy).2
    rw [Texts.isChainProxy, hname, not_chain_of_exit hisExit] at hchain
    cases hchain

theorem synced_removeExit (hpy : PlainStr py) (h : Synced py base files) {name : String}
    (hok : py.execute files (.removeExit name) = .ok result) : Synced py base result := by
  obtain ⟨exitName, hname, hproxies, hsaved⟩ := execute_removeExit hok
  have hisExit := startsWith_of_normalize hname
  have hr := h.proxies.filterTargets (some exitName)
  have hothers : ∀ proxy ∈ files.live.proxies.filter fun proxy =>
      !py.isTarget (some exitName) proxy, py.isChainProxy proxy = true →
        py.chainExit proxy ≠ exitName := fun proxy hproxy hchain =>
    (mem_chains_filterTargets.mp (mem_chains.mpr ⟨hproxy, hchain⟩)).2
  rw [removeChainOf_proxies h.proxies.names] at hproxies
  constructor
  · rw [hproxies]
    exact hr.dropExit hisExit hothers
  · rw [hproxies, plainKeys_dropExit hisExit, plainKeys_filterTargets, h.plain]
  · rw [hproxies, exits_dropExit hr, exits_filterTargets, hsaved]
    exact (removeExitNode_exits hpy h.exits.symm).symm
  · rw [hproxies, chains_dropExit hr hisExit, hsaved]
    by_cases hexitName : files.saved.chainConfig.exitNode = exitName
    · rw [if_pos hexitName, chains_filterTargets_eq_nil fun chain hchain =>
        (h.chains.chainExit hchain).trans hexitName]
      exact Or.inl ⟨rfl, rfl⟩
    · rw [if_neg hexitName, chains_filterTargets_eq_self fun chain hchain heq =>
        hexitName ((h.chains.chainExit hchain).symm.trans heq)]
      refine h.chains.mono rfl fun exitProxy hmem hexit _ => ?_
      refine ⟨exitProxy, ?_, hexit, Dict.Agree.refl _ _⟩
      rw [removeExitNode_exits hpy h.exits.symm, h.exits]
      exact List.mem_filter.mpr ⟨hmem, decide_eq_true fun heq => hexitName (hexit.symm.trans heq)⟩

/-- What a `set` that succeeds has done to the two files. -/
theorem execute_set_eq (hbase : Start py base) (h : Synced py base files) {exitNode : String}
    {transitNodes : List String} {transitPattern : String}
    (hok : py.execute files (.set exitNode transitNodes transitPattern) = .ok result) :
    ∃ exitProxy ∈ files.saved.exitNodes, ∃ transits,
      normalizeExitName (some exitNode) = .ok (py.name exitProxy) ∧
      ¬ (cleaned transitNodes ≠ [] ∧ stripped transitPattern ≠ "") ∧
      py.selectTransits base.proxies (py.name exitProxy) (orNone [] (cleaned transitNodes))
        (orNone "" (stripped transitPattern)) = .ok transits ∧
      transits ≠ [] ∧
      ProxiesOk py result.live.proxies ∧
      result.live.proxies = (files.live.proxies.filter fun proxy =>
        !py.isTarget (some (py.name exitProxy)) proxy) ++
          transits.map (fun transit => virtualProxy exitProxy transit (py.name exitProxy)) ∧
      result.saved = ⟨files.saved.exitNodes,
        ⟨py.name exitProxy, stripped transitPattern, cleaned transitNodes⟩⟩ := by
  obtain ⟨exitName, set, hname, hexclusive, hset, hlive, hsaved⟩ := execute_set hok
  obtain ⟨_, exitProxy, transits, hname', hmem, hexitName, hne, hselect, hproxies, -⟩ :=
    setChain_eq_ok h.proxies hset
  cases ((normalize_stripped exitNode).trans hname).symm.trans hname'
  subst hexitName
  have hisExit := startsWith_of_normalize hname
  have hr := h.proxies.filterTargets (some (py.name exitProxy))
  rw [removeChainOf_proxies h.proxies.names] at hmem hselect hproxies
  have hbaseSelect := (selectTransits_congr hr.names hbase.names
    ((plainKeys_filterTargets _ _).trans h.plain) _ _ _).symm.trans hselect
  obtain ⟨hnodup, hplain⟩ := selectTransits_eq_ok hr.names hselect
  have hexitMem : exitProxy ∈ files.saved.exitNodes := by
    rw [← h.exits]
    exact mem_exits.mpr ⟨(List.mem_filter.mp hmem).1, hisExit⟩
  have hadd := hr.addChains hmem hisExit hnodup hplain fun proxy hproxy hchain =>
    (mem_chains_filterTargets.mp (mem_chains.mpr ⟨hproxy, hchain⟩)).2
  rw [← hproxies, ← hlive] at hadd
  exact ⟨exitProxy, hexitMem, transits, hname, hexclusive, hbaseSelect, hne, hadd,
    hlive ▸ hproxies, hsaved⟩

theorem isChainProxy_of_mem_virtual {exitProxy : Proxy} {transits : List String}
    {exitName : String} {proxy : Proxy}
    (h : proxy ∈ transits.map fun transit => virtualProxy exitProxy transit exitName) :
    py.isChainProxy proxy = true := by
  obtain ⟨transit, -, rfl⟩ := List.mem_map.mp h
  exact py.isChainProxy_virtualProxy exitProxy transit exitName

/-- New chain proxies are not seen by a selection that has none. -/
theorem filter_append_virtual {p : Proxy → Bool}
    (hp : ∀ proxy, py.isChainProxy proxy = true → p proxy = false) (proxies : List Proxy)
    (exitProxy : Proxy) (transits : List String) (exitName : String) :
    (proxies ++ transits.map fun transit => virtualProxy exitProxy transit exitName).filter p =
      proxies.filter p := by
  have hnone : (transits.map fun transit => virtualProxy exitProxy transit exitName).filter p =
      [] := by
    refine List.filter_eq_nil_iff.mpr fun proxy hproxy => ?_
    rw [hp proxy (isChainProxy_of_mem_virtual hproxy)]
    exact Bool.false_ne_true
  rw [List.filter_append, hnone, List.append_nil]

theorem chains_append_virtual (proxies : List Proxy) (exitProxy : Proxy) (transits : List String)
    (exitName : String) :
    py.chains (proxies ++ transits.map fun transit => virtualProxy exitProxy transit exitName) =
      py.chains proxies ++ transits.map fun transit => virtualProxy exitProxy transit exitName := by
  unfold Texts.chains
  rw [List.filter_append]
  congr 1
  exact List.filter_eq_self.mpr fun proxy hproxy => isChainProxy_of_mem_virtual hproxy

theorem not_exit_of_isChain {proxy : Proxy} (h : py.isChainProxy proxy = true) :
    py.isExit proxy = false := by
  rw [← Bool.not_eq_true]
  intro hexit
  rw [not_chain_of_isExit hexit] at h
  cases h

theorem synced_set (hbase : Start py base) (h : Synced py base files) {exitNode : String}
    {transitNodes : List String} {transitPattern : String}
    (hok : py.execute files (.set exitNode transitNodes transitPattern) = .ok result)
    (hkeeps : KeepsSaved py files (.set exitNode transitNodes transitPattern)) :
    Synced py base result := by
  obtain ⟨exitProxy, hmem, transits, hname, hexclusive, hselect, hne, hresult, hproxies, hsaved⟩ :=
    execute_set_eq hbase h hok
  have honly := hkeeps (py.name exitProxy) (by rw [hname]; rfl)
  refine ⟨hresult, ?_, ?_, ?_⟩
  · rw [hproxies, Texts.plainKeys, filter_append_virtual fun _ => not_plain_of_isChain,
      filter_filterTargets fun _ => not_plain_of_isChain]
    exact h.plain
  · rw [hproxies, hsaved, Texts.exits, filter_append_virtual fun _ => not_exit_of_isChain,
      filter_filterTargets fun _ => not_exit_of_isChain]
    exact h.exits
  · rw [hproxies, hsaved, chains_append_virtual, chains_filterTargets_eq_nil honly,
      List.nil_append]
    exact Or.inr ⟨exitProxy, hmem, transits, rfl, normalize_normalized hname, hexclusive, hselect,
      hne, SameRecords.refl _⟩

/-- What a `remove` that succeeds leaves of the chain proxies. -/
theorem execute_remove_eq (h : Synced py base files) {exitNode : String}
    (hok : py.execute files (.remove exitNode) = .ok result) :
    ∃ target, result.live.proxies =
        (files.live.proxies.filter fun proxy => !py.isTarget target proxy) ∧
      result.saved = files.saved.clearChainConfig ∧
      (stripped exitNode = "" ∧ target = none ∨
        ∃ exitName, normalizeExitName (some exitNode) = .ok exitName ∧ target = some exitName) := by
  obtain ⟨removed, hremoved, hlive, hsaved⟩ := execute_remove hok
  by_cases hempty : stripped exitNode = ""
  · rw [hempty] at hremoved
    cases hremoved
    exact ⟨none, by rw [hlive, removeChainOf_proxies h.proxies.names], hsaved,
      Or.inl ⟨hempty, rfl⟩⟩
  · have hsome : orNone "" (stripped exitNode) = some (stripped exitNode) := if_neg hempty
    rw [hsome] at hremoved
    cases hname : normalizeExitName (some exitNode) with
    | error message =>
      unfold normalizeExitName at hname
      split at hname
      · next hunique => exact absurd hunique hempty
      · split at hname
        · cases hname
        · cases hname
    | ok exitName =>
      rw [removeChain_of_normalize ((normalize_stripped exitNode).trans hname)] at hremoved
      cases hremoved
      exact ⟨some exitName, by rw [hlive, removeChainOf_proxies h.proxies.names], hsaved,
        Or.inr ⟨exitName, rfl, rfl⟩⟩

theorem chains_filterTargets_none (proxies : List Proxy) :
    py.chains (proxies.filter fun proxy => !py.isTarget none proxy) = [] := by
  refine List.filter_eq_nil_iff.mpr fun proxy hproxy hchain => ?_
  have hkept := (List.mem_filter.mp hproxy).2
  rw [Texts.isTarget, hchain] at hkept
  cases hkept

theorem synced_remove (h : Synced py base files) {exitNode : String}
    (hok : py.execute files (.remove exitNode) = .ok result)
    (hkeeps : KeepsSaved py files (.remove exitNode)) : Synced py base result := by
  obtain ⟨target, hproxies, hsaved, htarget⟩ := execute_remove_eq h hok
  have hchains : py.chains result.live.proxies = [] := by
    rw [hproxies]
    rcases htarget with ⟨-, rfl⟩ | ⟨exitName, hname, rfl⟩
    · exact chains_filterTargets_none _
    · rcases hkeeps with hempty | honly
      · unfold normalizeExitName at hname
        rw [show uniqueText (some exitNode) = stripped exitNode from rfl, if_pos hempty] at hname
        cases hname
      · exact chains_filterTargets_eq_nil (honly exitName (by rw [hname]; rfl))
  constructor
  · rw [hproxies]
    exact h.proxies.filterTargets target
  · rw [hproxies, plainKeys_filterTargets, h.plain]
  · rw [hproxies, exits_filterTargets, hsaved]
    exact h.exits
  · rw [hchains, hsaved]
    exact Or.inl ⟨rfl, rfl⟩

theorem synced_execute (hpy : PlainStr py) (hbase : Start py base) (h : Synced py base files)
    {action : ToolAction} (hok : py.execute files action = .ok result)
    (hkeeps : KeepsSaved py files action) : Synced py base result := by
  cases action with
  | addExit name args => exact synced_addExit hpy h hok hkeeps
  | removeExit name => exact synced_removeExit hpy h hok
  | set exitNode transitNodes transitPattern => exact synced_set hbase h hok hkeeps
  | remove exitNode => exact synced_remove h hok hkeeps

/-! ## An action that does not meet the condition -/

/-- All chain proxies that the saved setting makes are copies of one saved exit node. -/
theorem Reproduces.chained (hbase : Start py base) (hnodes : SavedOk py files.saved.exitNodes)
    (h : Reproduces py base files) {chain : Proxy} (hchain : chain ∈ py.chains files.live.proxies) :
    ∃ exitProxy ∈ files.saved.exitNodes,
      normalizeExitName (some files.saved.chainConfig.exitNode) = .ok (py.name exitProxy) ∧
      py.chainExit chain = py.name exitProxy ∧
      Dict.Agree ["name", "dialer-proxy"] chain exitProxy := by
  obtain ⟨merged, hmerged, -, hsame⟩ := h
  obtain ⟨copy, hcopy, hagree⟩ := hsame.2 chain hchain
  by_cases hnone : files.saved.chainConfig.exitNode = ""
  · obtain ⟨merged', hmerged', -, hchains⟩ := merge_unchained hbase hnodes hnone
    cases hmerged.symm.trans hmerged'
    rw [hchains] at hcopy
    cases hcopy
  · obtain ⟨exitProxy, hmem, transits, hname, -, hchains⟩ := merge_chained hbase hnodes hnone hmerged
    rw [hchains] at hcopy
    obtain ⟨transit, -, rfl⟩ := List.mem_map.mp hcopy
    refine ⟨exitProxy, hmem, hname, ?_, ?_⟩
    · rw [← chainExit_of_agree hagree, chainExit_virtualProxy]
    · exact Dict.Agree.trans (fun k _ => (hagree k List.not_mem_nil).symm)
        (Texts.agree_virtualProxy exitProxy transit _)

/-- The exit nodes that are saved after an `add_exit`. -/
theorem savedOk_putsExit (h : ProxiesOk py proxies) {node : Proxy} {new : List Proxy}
    (hdialer : node.get "dialer-proxy" = none) (hputs : PutsExit py proxies node new) :
    SavedOk py (py.exits new) where
  names := hputs.names.sublist (List.filter_sublist.map py.name)
  exits _ hproxy := (mem_exits.mp hproxy).2
  direct proxy hproxy := by
    obtain ⟨hmem, hexit⟩ := mem_exits.mp hproxy
    rcases hputs.mem proxy hmem with rfl | ⟨hold, -⟩
    · exact hdialer
    · exact h.exits proxy hold hexit

theorem keepsCopies_of_reproduces (hpy : PlainStr py) (hbase : Start py base)
    (h : Synced py base files) {name : String} {args : NodeArgs}
    (hok : py.execute files (.addExit name args) = .ok result)
    (hresult : Reproduces py base result) : KeepsSaved py files (.addExit name args) := by
  obtain ⟨exitName, args', hname, hargs, hnode, hputs, hsaved⟩ :=
    execute_addExit h.proxies.names hok
  intro args'' hargs'' exitName' hexitName'
  rw [hargs] at hargs''
  rw [hname] at hexitName'
  cases hargs''
  cases hexitName'
  refine ⟨hnode, fun chain hmem hchain hchainExit current hcurrent hcurrentName => ?_⟩
  have hdialer := get_dialer_buildExitNode py exitName args'
  generalize py.buildExitNode exitName args' = node at *
  subst hnode
  rw [saveExitNode_eq hpy h.proxies.names h.exits.symm (normalize_normalized hname) hputs] at hsaved
  have hresultSaved := (Except.ok.inj hsaved).symm
  have hnodes : SavedOk py result.saved.exitNodes := by
    rw [hresultSaved]
    exact savedOk_putsExit h.proxies hdialer hputs
  have hchainNew : chain ∈ py.chains result.live.proxies := by
    rw [chains_putsExit hputs]
    exact mem_chains.mpr ⟨hmem, hchain⟩
  obtain ⟨exitProxy, hexitMem, -, hexitName, hagree⟩ := hresult.chained hbase hnodes hchainNew
  -- the saved exit node of the chain is the one that was added
  obtain rfl : exitProxy = node := by
    rw [hresultSaved] at hexitMem
    rcases hputs.mem exitProxy (mem_exits.mp hexitMem).1 with heq | ⟨-, hne⟩
    · exact heq
    · exact absurd (hexitName.symm.trans hchainExit) hne
  obtain ⟨oldExit, holdMem, transit, -, -, -, -, hchainName, hchainDialer, hcopy⟩ :=
    h.proxies.chains chain hmem hchain
  have holdName : py.name oldExit = py.name current := by
    rw [← py.chainExit_of_name hchainName hchainDialer, hchainExit, hcurrentName]
  obtain rfl := eq_of_name h.proxies.names holdMem hcurrent holdName
  exact hagree.symm.trans hcopy

theorem keepsSaved_of_reproduces (hpy : PlainStr py) (hbase : Start py base)
    (h : Synced py base files) {action : ToolAction} (hok : py.execute files action = .ok result)
    (hresult : Reproduces py base result) : KeepsSaved py files action := by
  cases action with
  | addExit name args => exact keepsCopies_of_reproduces hpy hbase h hok hresult
  | removeExit name => trivial
  | set exitNode transitNodes transitPattern =>
    obtain ⟨setProxy, -, transits, hname, -, -, -, -, hproxies, hsaved⟩ :=
      execute_set_eq hbase h hok
    intro exitName hexitName chain hchain
    rw [hname] at hexitName
    cases hexitName
    by_contra hne
    have hchainNew : chain ∈ py.chains result.live.proxies := by
      rw [hproxies, chains_append_virtual]
      exact List.mem_append_left _ (mem_chains_filterTargets.mpr ⟨hchain, hne⟩)
    have hnodes : SavedOk py result.saved.exitNodes := by
      rw [hsaved]
      exact h.savedOk
    obtain ⟨exitProxy, -, hnormal, hchainExit, -⟩ := hresult.chained hbase hnodes hchainNew
    rw [hsaved, normalize_normalized hname] at hnormal
    exact hne (hchainExit.trans (Except.ok.inj hnormal).symm)
  | remove exitNode =>
    obtain ⟨target, hproxies, hsaved, htarget⟩ := execute_remove_eq h hok
    rcases htarget with ⟨hempty, -⟩ | ⟨exitName, hname, rfl⟩
    · exact Or.inl hempty
    · refine Or.inr fun exitName' hexitName' chain hchain => ?_
      rw [hname] at hexitName'
      cases hexitName'
      by_contra hne
      have hchainNew : chain ∈ py.chains result.live.proxies := by
        rw [hproxies]
        exact mem_chains_filterTargets.mpr ⟨hchain, hne⟩
      have hnodes : SavedOk py result.saved.exitNodes := by
        rw [hsaved]
        exact h.savedOk
      obtain ⟨exitProxy, -, hnormal, -⟩ := hresult.chained hbase hnodes hchainNew
      rw [hsaved] at hnormal
      have hempty : normalizeExitName (some "") = .ok (py.name exitProxy) := hnormal
      cases hempty

/-! ## Runs -/

theorem synced_start (hbase : Start py base) : Synced py base ⟨base, {}⟩ where
  proxies := hbase.proxiesOk
  plain := rfl
  exits := List.filter_eq_nil_iff.mpr fun proxy hproxy hexit => by
    rw [(hbase.ordinary proxy hproxy).1] at hexit
    cases hexit
  chains := Or.inl ⟨rfl, List.filter_eq_nil_iff.mpr fun proxy hproxy hchain => by
    rw [(hbase.ordinary proxy hproxy).2.1] at hchain
    cases hchain⟩

theorem chainTool_step {action : ToolAction} :
    py.chainTool.step files action = some result ↔ py.execute files action = .ok result := by
  show (py.execute files action).toOption = some result ↔ _
  cases py.execute files action with
  | ok reached => simp [Except.toOption]
  | error message => simp [Except.toOption]

/-- **When the saved form reproduces the overlay**: in every state of a run from an
ordinary configuration exactly when each action meets the condition. -/
theorem always_reproduces_iff (hpy : PlainStr py) (hbase : Start py base)
    {actions : List ToolAction} (hrun : py.chainTool.run ⟨base, {}⟩ actions = some result) :
    py.chainTool.Always (Reproduces py base) ⟨base, {}⟩ actions ↔
      py.chainTool.Meets (KeepsSaved py) ⟨base, {}⟩ actions := by
  refine py.chainTool.always_iff_meets (fun _ h => h.reproduces hbase)
    ?_ ?_ (synced_start hbase) hrun
  · exact fun _ _ _ h hkeeps hstep => synced_execute hpy hbase h (chainTool_step.mp hstep) hkeeps
  · exact fun _ _ _ h hbad hstep hresult =>
      hbad (keepsSaved_of_reproduces hpy hbase h (chainTool_step.mp hstep) hresult)

theorem plainStr_plainTexts : PlainStr plainTexts := by
  intro value hvalue
  rw [← Bool.not_eq_true]
  intro hexit
  have hhead := head?_of_exit hexit
  rw [show (plainTexts.str value).toList = value.text from String.toList_ofList] at hhead
  have hnumber : ∀ {text : List Char}, (∀ c ∈ text, numberChar c = true) →
      text.head? ≠ some 'E' := fun h hE =>
    absurd (h 'E' (List.mem_of_head? hE)) (by decide)
  cases value with
  | str s => exact hvalue s rfl
  | null => cases hhead
  | bool b => cases b <;> cases hhead
  | int n => exact hnumber (fun c hc => numberChar_of_floatChar (floatChar_decimal n c hc)) hhead
  | float x => exact hnumber (numberChar_json x) hhead
  | arr items => cases hhead
  | obj members => cases hhead

/-- Two exits, one of them chained; the chain of the other one is removed. -/
def unchainOther : List ToolAction :=
  [.addExit "A" (nodeAt "a.example.com"), .addExit "B" (nodeAt "b.example.com"), .set "A" [] "",
    .remove "B"]

theorem always_reproduces_iff_unchainOther :
    plainTexts.chainTool.Always (Reproduces plainTexts oneProxy) ⟨oneProxy, {}⟩ unchainOther ↔
      plainTexts.chainTool.Meets (KeepsSaved plainTexts) ⟨oneProxy, {}⟩ unchainOther :=
  always_reproduces_iff plainStr_plainTexts (by decide +kernel)
    (Option.some_get (by decide +kernel)).symm

/-- The chain proxies of `A` are live, and no setting is saved for them. -/
theorem not_reproduces_after_run :
    ¬ ∀ (py : Texts) (base : Config) (actions : List ToolAction) (files : Files),
      PlainStr py → Start py base → py.chainTool.run ⟨base, {}⟩ actions = some files →
        Reproduces py base files := by
  intro hclaim
  have hrun : ∀ files ∈ plainTexts.chainTool.run ⟨oneProxy, {}⟩ unchainOther,
      Reproduces plainTexts oneProxy files := fun files hfiles =>
    hclaim plainTexts oneProxy unchainOther files plainStr_plainTexts (by decide +kernel) hfiles
  revert hrun
  decide +kernel

end NeuralHub.Proxies
