/-
NeuralHub.Proxies.OverlayGroups — what the operations do to the groups.

`GroupsOk names chains groups` is what the groups owe to the proxies: no
entry with a prefix dangles, the group `Chain` is exactly the one made for
`chains` (and absent when there are none), and it is offered in `GLOBAL`
only. Each of the four ways to rewrite the groups keeps it, for the names
and chains that the proxies have afterwards.

`filter_global_rewrite` is about two of them in a row: when the group is
given more chain names and these are taken away again, the groups other
than `GLOBAL` are what they were.
-/
import NeuralHub.Proxies.ChainNames

namespace NeuralHub.Proxies

open NeuralHub.Lib

/-! ## Changing the first element -/

section

variable {α : Type} {p q : α → Bool} {f : α → α}

theorem updateFirst_cons (x : α) (rest : List α) :
    updateFirst p f (x :: rest) = if p x then f x :: rest else x :: updateFirst p f rest := rfl

theorem updateFirst_eq_map {l : List α} (h : (l.filter p).length ≤ 1) :
    updateFirst p f l = l.map fun x => if p x then f x else x := by
  induction l with
  | nil => rfl
  | cons x rest ih =>
    rw [updateFirst_cons, List.map_cons]
    by_cases hx : p x = true
    · rw [List.filter_cons_of_pos hx, List.length_cons] at h
      have hnone : rest.filter p = [] := List.length_eq_zero_iff.mp (by omega)
      have hmap : (rest.map fun y => if p y then f y else y) = rest.map id :=
        List.map_congr_left fun y hy => if_neg (List.filter_eq_nil_iff.mp hnone y hy)
      rw [if_pos hx, if_pos hx, hmap, List.map_id]
    · rw [List.filter_cons_of_neg hx] at h
      rw [if_neg hx, if_neg hx, ih h]

theorem filter_updateFirst (h : ∀ x, p x = true → q x = false ∧ q (f x) = false) (l : List α) :
    (updateFirst p f l).filter q = l.filter q := by
  induction l with
  | nil => rfl
  | cons x rest ih =>
    rw [updateFirst_cons]
    by_cases hx : p x = true
    · rw [if_pos hx, List.filter_cons_of_neg (by simp [(h x hx).2]),
        List.filter_cons_of_neg (by simp [(h x hx).1])]
    · rw [if_neg hx, List.filter_cons, List.filter_cons, ih]

theorem mem_updateFirst {l : List α} {y : α} (h : y ∈ updateFirst p f l) :
    y ∈ l ∨ ∃ x ∈ l, p x = true ∧ y = f x := by
  induction l with
  | nil => cases h
  | cons x rest ih =>
    rw [updateFirst_cons] at h
    split at h
    · next hx =>
      rcases List.mem_cons.mp h with rfl | hrest
      · exact Or.inr ⟨x, List.mem_cons_self, hx, rfl⟩
      · exact Or.inl (List.mem_cons_of_mem x hrest)
    · rcases List.mem_cons.mp h with rfl | hrest
      · exact Or.inl List.mem_cons_self
      · rcases ih hrest with hmem | ⟨z, hz, hpz, rfl⟩
        · exact Or.inl (List.mem_cons_of_mem x hmem)
        · exact Or.inr ⟨z, List.mem_cons_of_mem x hz, hpz, rfl⟩

end

/-! ## Options -/

namespace Options

theorem mem_append {options : Options} {name n : String}
    (h : n ∈ (options.append name).toList) : n ∈ options.toList ∨ n = name := by
  cases options with
  | names l =>
    by_cases hname : name ∈ l
    · rw [append, if_pos hname] at h
      exact Or.inl h
    · rw [append, if_neg hname] at h
      simpa [toList] using h
  | absent => exact Or.inl h
  | other value => exact Or.inl h

theorem toList_setDefault (options : Options) : options.setDefault.toList = options.toList := by
  cases options <;> rfl

theorem mem_removeAll {options : Options} {names : List String} {n : String} :
    n ∈ (options.removeAll names).toList ↔ n ∈ options.toList ∧ n ∉ names := by
  cases options <;> simp [removeAll, toList]

theorem removeAll_eq_self {options : Options} {names : List String}
    (h : ∀ n ∈ options.toList, n ∉ names) : options.removeAll names = options := by
  cases options with
  | names l =>
    rw [removeAll, List.filter_eq_self.mpr]
    exact fun n hn => decide_eq_true (h n hn)
  | absent => rfl
  | other value => rfl

end Options

theorem set_type_selectGroup (options names : List String) :
    (⟨(selectGroup chainGroupName options).fields.set "type" (.str "select"), .names names⟩ : Group)
      = selectGroup chainGroupName names := rfl

namespace Texts

variable (py : Texts)

theorem groupName_selectGroup (name : String) (options : List String) :
    py.groupName (selectGroup name options) = name := by
  refine py.field_of_get_str ?_
  rw [selectGroup, Dict.get_set_of_ne _ _ (by decide), Dict.get_set_self]

/-- A rewriting of the groups that keeps their names commutes with a selection by name. -/
theorem filter_map_of_groupName {f : Group → Group}
    (hf : ∀ group, py.groupName (f group) = py.groupName group) (p : String → Bool)
    (groups : List Group) : ((groups.map f).filter fun group => p (py.groupName group)) =
      (groups.filter fun group => p (py.groupName group)).map f := by
  rw [List.filter_map]
  congr 2
  funext group
  simp only [Function.comp_apply, hf]

theorem filter_removeGroupRefs (names : List String) (p : String → Bool) (groups : List Group) :
    ((removeGroupRefs groups names).filter fun group => p (py.groupName group)) =
      removeGroupRefs (groups.filter fun group => p (py.groupName group)) names :=
  py.filter_map_of_groupName
    (f := fun group => { group with options := group.options.removeAll names }) (fun _ => rfl) p
    groups

/-- Every group called `Chain` replaced by the one for the names. -/
def replaceChain (groups : List Group) (names : List String) : List Group :=
  groups.map fun group =>
    if py.groupName group = chainGroupName then selectGroup chainGroupName names else group

theorem groupName_replaceChain (names : List String) (group : Group) :
    py.groupName (if py.groupName group = chainGroupName then selectGroup chainGroupName names
      else group) = py.groupName group := by
  split
  · next h => rw [groupName_selectGroup, h]
  · rfl

theorem filter_replaceChain (names : List String) (p : String → Bool) (groups : List Group) :
    ((py.replaceChain groups names).filter fun group => p (py.groupName group)) =
      py.replaceChain (groups.filter fun group => p (py.groupName group)) names :=
  py.filter_map_of_groupName (py.groupName_replaceChain names) p groups

/-- What `append_global_group` does is done to groups called `GLOBAL`. -/
theorem filter_appendGlobalGroup (name : String) {p : String → Bool} (hp : p "GLOBAL" = false)
    (groups : List Group) :
    ((py.appendGlobalGroup groups name).filter fun group => p (py.groupName group)) =
      groups.filter fun group => p (py.groupName group) := by
  unfold appendGlobalGroup
  split
  · rw [List.filter_append, List.filter_cons_of_neg, List.filter_nil, List.append_nil]
    rw [groupName_selectGroup, hp]
    exact Bool.false_ne_true
  · refine filter_updateFirst (fun group hgroup => ?_) groups
    have hname : py.groupName group = "GLOBAL" := of_decide_eq_true hgroup
    have hname' : py.groupName { group with options := group.options.setDefault.append name } =
        "GLOBAL" := hname
    simp only [hname, hname', hp, and_self]

theorem mem_appendGlobalGroup {groups : List Group} {name : String} {group : Group}
    (h : group ∈ py.appendGlobalGroup groups name) :
    group ∈ groups ∨ py.groupName group = "GLOBAL" ∧
      ∀ n ∈ group.options.toList, n = name ∨ ∃ other ∈ groups, n ∈ other.options.toList := by
  unfold appendGlobalGroup at h
  split at h
  · rcases List.mem_append.mp h with hmem | hmem
    · exact Or.inl hmem
    · obtain rfl := List.mem_singleton.mp hmem
      refine Or.inr ⟨py.groupName_selectGroup _ _, fun n hn => Or.inl ?_⟩
      exact List.mem_singleton.mp hn
  · rcases mem_updateFirst h with hmem | ⟨other, hother, hname, rfl⟩
    · exact Or.inl hmem
    · refine Or.inr ⟨of_decide_eq_true hname, fun n hn => ?_⟩
      rcases Options.mem_append hn with hn | rfl
      · exact Or.inr ⟨other, hother, other.options.toList_setDefault ▸ hn⟩
      · exact Or.inl rfl

end Texts

/-! ## The invariant -/

structure GroupsOk (py : Texts) (names chains : List String) (groups : List Group) : Prop where
  entries : ∀ group ∈ groups, ∀ n ∈ group.options.toList,
    startsWith exitPrefix n = true ∨ startsWith chainPrefix n = true → n ∈ names
  chainGroups : (groups.filter fun group => py.groupName group = chainGroupName) =
    if chains = [] then [] else [selectGroup chainGroupName chains]
  refs : ∀ group ∈ groups, py.groupName group ≠ "GLOBAL" → chainGroupName ∉ group.options.toList

namespace GroupsOk

variable {py : Texts} {names names' chains chains' : List String} {groups : List Group}

theorem eq_selectGroup (h : GroupsOk py names chains groups) {group : Group}
    (hgroup : group ∈ groups) (hname : py.groupName group = chainGroupName) :
    chains ≠ [] ∧ group = selectGroup chainGroupName chains := by
  have hmem : group ∈ groups.filter fun group => py.groupName group = chainGroupName :=
    List.mem_filter.mpr ⟨hgroup, decide_eq_true hname⟩
  rw [h.chainGroups] at hmem
  split at hmem
  · cases hmem
  · next hne => exact ⟨hne, List.mem_singleton.mp hmem⟩

theorem findGroup_eq_none (h : GroupsOk py names [] groups) :
    py.findGroup groups chainGroupName = none := by
  refine List.find?_eq_none.mpr fun group hgroup hname => ?_
  exact (h.eq_selectGroup hgroup (of_decide_eq_true hname)).1 rfl

theorem exists_chainGroup (h : GroupsOk py names chains groups) (hne : chains ≠ []) :
    ∃ group ∈ groups, py.groupName group = chainGroupName := by
  have hmem : selectGroup chainGroupName chains ∈
      groups.filter fun group => py.groupName group = chainGroupName := by
    rw [h.chainGroups, if_neg hne]
    exact List.mem_singleton_self _
  exact ⟨_, (List.mem_filter.mp hmem).1, py.groupName_selectGroup _ _⟩

theorem findGroup_isSome (h : GroupsOk py names chains groups) (hne : chains ≠ []) :
    (py.findGroup groups chainGroupName).isSome = true := by
  obtain ⟨group, hgroup, hname⟩ := h.exists_chainGroup hne
  exact List.find?_isSome.mpr ⟨group, hgroup, decide_eq_true hname⟩

theorem length_chainGroups_le (h : GroupsOk py names chains groups) :
    (groups.filter fun group => py.groupName group = chainGroupName).length ≤ 1 := by
  rw [h.chainGroups]
  split
  · exact Nat.zero_le 1
  · exact Nat.le_refl 1

/-! ## The rewritings, as rewritings of every group -/

theorem upsert_of_ne (h : GroupsOk py names chains groups) (hne : chains ≠ [])
    (options : List String) :
    py.upsertChainGroup groups options = py.replaceChain groups options := by
  unfold Texts.upsertChainGroup
  obtain ⟨group, hfind⟩ := Option.isSome_iff_exists.mp (h.findGroup_isSome hne)
  rw [hfind]
  simp only
  rw [updateFirst_eq_map h.length_chainGroups_le]
  refine List.map_congr_left fun group hgroup => ?_
  simp only [decide_eq_true_eq]
  split
  · next hname =>
    rw [(h.eq_selectGroup hgroup hname).2]
    exact set_type_selectGroup chains options
  · rfl

theorem upsert_of_nil (h : GroupsOk py names [] groups) (options : List String) :
    py.upsertChainGroup groups options = groups ++ [selectGroup chainGroupName options] := by
  unfold Texts.upsertChainGroup
  rw [h.findGroup_eq_none]

/-- The groups after the chain proxies called `removed` are gone and `remaining` are left. -/
def rewrite (py : Texts) (groups : List Group) (removed remaining : List String) : List Group :=
  if remaining ≠ [] then py.replaceChain (removeGroupRefs groups removed) remaining
  else removeGroupRefs ((removeGroupRefs groups removed).filter fun group =>
    py.groupName group ≠ chainGroupName) [chainGroupName]

theorem updateFirst_removeGroupRefs (h : GroupsOk py names chains groups)
    (removed remaining : List String) :
    updateFirst (fun group => py.groupName group = chainGroupName)
        (fun group => { group with options := .names remaining }) (removeGroupRefs groups removed) =
      py.replaceChain (removeGroupRefs groups removed) remaining := by
  have hlen : ((removeGroupRefs groups removed).filter fun group =>
      py.groupName group = chainGroupName).length ≤ 1 := by
    rw [py.filter_removeGroupRefs removed fun n => n = chainGroupName, removeGroupRefs,
      List.length_map]
    exact h.length_chainGroups_le
  rw [updateFirst_eq_map hlen]
  refine List.map_congr_left fun group hgroup => ?_
  simp only [decide_eq_true_eq]
  split
  · next hname =>
    obtain ⟨old, hold, rfl⟩ := List.mem_map.mp hgroup
    rw [(h.eq_selectGroup hold hname).2]
    rfl
  · rfl

/-! ## Each rewriting keeps the invariant -/

theorem removeRefs (h : GroupsOk py names chains groups) {gone : List String}
    (hnames : ∀ n ∈ names, n ∉ gone → n ∈ names') (hchains : ∀ n ∈ chains, n ∉ gone) :
    GroupsOk py names' chains (removeGroupRefs groups gone) where
  entries group hgroup n hn hprefix := by
    obtain ⟨old, hold, rfl⟩ := List.mem_map.mp hgroup
    obtain ⟨hn, hgone⟩ := Options.mem_removeAll.mp hn
    exact hnames n (h.entries old hold n hn hprefix) hgone
  chainGroups := by
    rw [py.filter_removeGroupRefs gone fun n => n = chainGroupName, h.chainGroups]
    split
    · rfl
    · have hkeep : (Options.names chains).removeAll gone = .names chains :=
        Options.removeAll_eq_self hchains
      rw [removeGroupRefs, List.map_singleton, selectGroup, hkeep]
  refs group hgroup hname hmem := by
    obtain ⟨old, hold, rfl⟩ := List.mem_map.mp hgroup
    exact h.refs old hold hname (Options.mem_removeAll.mp hmem).1

theorem appendExit (h : GroupsOk py names chains groups) {exitName : String}
    (hexit : startsWith exitPrefix exitName = true) (hmem : exitName ∈ names')
    (hnames : ∀ n ∈ names, n ∈ names') :
    GroupsOk py names' chains (py.appendNameToGroups groups exitName [chainGroupName]) where
  entries group hgroup n hn hprefix := by
    obtain ⟨old, hold, rfl⟩ := List.mem_map.mp hgroup
    split at hn
    · exact hnames n (h.entries old hold n hn hprefix)
    · rcases Options.mem_append hn with hn | rfl
      · exact hnames n (h.entries old hold n hn hprefix)
      · exact hmem
  chainGroups := by
    have hname : ∀ group, py.groupName (if py.groupName group ∈ [chainGroupName] then group
        else { group with options := group.options.append exitName }) = py.groupName group := by
      intro group
      split
      · rfl
      · rfl
    rw [Texts.appendNameToGroups,
      py.filter_map_of_groupName hname fun n => n = chainGroupName, ← h.chainGroups]
    -- the chain group itself is skipped
    refine (List.map_congr_left fun group hgroup => if_pos ?_).trans (List.map_id _)
    exact List.mem_singleton.mpr (of_decide_eq_true (List.mem_filter.mp hgroup).2)
  refs group hgroup hname hn := by
    obtain ⟨old, hold, rfl⟩ := List.mem_map.mp hgroup
    split at hn
    · next hskip =>
      rw [if_pos hskip] at hname
      exact h.refs old hold hname hn
    · next hskip =>
      rw [if_neg hskip] at hname
      rcases Options.mem_append hn with hn | heq
      · exact h.refs old hold hname hn
      · exact ne_chainGroupName_of_exit hexit heq.symm

theorem replace (h : GroupsOk py names chains groups) (hne : chains ≠ []) {options : List String}
    (hoptions : options ≠ []) (hchains : ∀ n ∈ options, n ∈ names' ∧ n ≠ chainGroupName)
    (hnames : ∀ n ∈ names, n ∈ names') :
    GroupsOk py names' options (py.replaceChain groups options) where
  entries group hgroup n hn hprefix := by
    obtain ⟨old, hold, rfl⟩ := List.mem_map.mp hgroup
    split at hn
    · exact (hchains n hn).1
    · exact hnames n (h.entries old hold n hn hprefix)
  chainGroups := by
    rw [py.filter_replaceChain options fun n => n = chainGroupName, h.chainGroups, if_neg hne,
      if_neg hoptions, Texts.replaceChain, List.map_singleton,
      if_pos (py.groupName_selectGroup _ _)]
  refs group hgroup hname hn := by
    obtain ⟨old, hold, rfl⟩ := List.mem_map.mp hgroup
    rw [py.groupName_replaceChain] at hname
    split at hn
    · exact (hchains _ hn).2 rfl
    · exact h.refs old hold hname hn

theorem addChain (h : GroupsOk py names [] groups) {options : List String}
    (hoptions : options ≠ []) (hchains : ∀ n ∈ options, n ∈ names' ∧ n ≠ chainGroupName)
    (hnames : ∀ n ∈ names, n ∈ names') :
    GroupsOk py names' options (groups ++ [selectGroup chainGroupName options]) where
  entries group hgroup n hn hprefix := by
    rcases List.mem_append.mp hgroup with hmem | hmem
    · exact hnames n (h.entries group hmem n hn hprefix)
    · obtain rfl := List.mem_singleton.mp hmem
      exact (hchains n hn).1
  chainGroups := by
    rw [List.filter_append, h.chainGroups, if_pos rfl, if_neg hoptions, List.nil_append]
    refine List.filter_eq_self.mpr fun group hgroup => decide_eq_true ?_
    obtain rfl := List.mem_singleton.mp hgroup
    exact py.groupName_selectGroup chainGroupName options
  refs group hgroup hname hn := by
    rcases List.mem_append.mp hgroup with hmem | hmem
    · exact h.refs group hmem hname hn
    · obtain rfl := List.mem_singleton.mp hmem
      exact (hchains _ hn).2 rfl

theorem appendGlobal (h : GroupsOk py names chains groups) :
    GroupsOk py names chains (py.appendGlobalGroup groups chainGroupName) where
  entries group hgroup n hn hprefix := by
    rcases py.mem_appendGlobalGroup hgroup with hmem | ⟨-, hentries⟩
    · exact h.entries group hmem n hn hprefix
    · rcases hentries n hn with rfl | ⟨other, hother, hn⟩
      · exact absurd hprefix (by decide)
      · exact h.entries other hother n hn hprefix
  chainGroups := by
    rw [← h.chainGroups]
    exact py.filter_appendGlobalGroup chainGroupName (p := fun n => n = chainGroupName)
      (by decide) groups
  refs group hgroup hname := by
    rcases py.mem_appendGlobalGroup hgroup with hmem | ⟨hglobal, -⟩
    · exact h.refs group hmem hname
    · exact absurd hglobal hname

/-- The groups that `set_chain` makes. -/
theorem offered (h : GroupsOk py names chains groups) {options : List String}
    (hoptions : options ≠ []) (hchains : ∀ n ∈ options, n ∈ names' ∧ n ≠ chainGroupName)
    (hnames : ∀ n ∈ names, n ∈ names') :
    GroupsOk py names' options
      (py.appendGlobalGroup (py.upsertChainGroup groups options) chainGroupName) := by
  refine appendGlobal ?_
  by_cases hne : chains = []
  · subst hne
    rw [h.upsert_of_nil]
    exact h.addChain hoptions hchains hnames
  · rw [h.upsert_of_ne hne]
    exact h.replace hne hoptions hchains hnames

/-- The groups that `remove_chain` makes when it removes a chain proxy. -/
theorem rewritten (h : GroupsOk py names chains groups) (hne : chains ≠ [])
    {removed remaining : List String} (hnames : ∀ n ∈ names, n ∉ removed → n ∈ names')
    (hremaining : ∀ n ∈ remaining, n ∈ names' ∧ n ≠ chainGroupName) :
    GroupsOk py names' remaining (rewrite py groups removed remaining) where
  entries group hgroup n hn hprefix := by
    unfold rewrite at hgroup
    split at hgroup
    · obtain ⟨old, hold, rfl⟩ := List.mem_map.mp hgroup
      split at hn
      · exact (hremaining n hn).1
      · obtain ⟨older, holder, rfl⟩ := List.mem_map.mp hold
        obtain ⟨hn, hkept⟩ := Options.mem_removeAll.mp hn
        exact hnames n (h.entries older holder n hn hprefix) hkept
    · obtain ⟨old, hold, rfl⟩ := List.mem_map.mp hgroup
      obtain ⟨older, holder, rfl⟩ := List.mem_map.mp (List.mem_filter.mp hold).1
      obtain ⟨hn, hkept⟩ := Options.mem_removeAll.mp (Options.mem_removeAll.mp hn).1
      exact hnames n (h.entries older holder n hn hprefix) hkept
  chainGroups := by
    unfold rewrite
    by_cases hnil : remaining = []
    · rw [if_neg (not_not.mpr hnil), if_pos hnil]
      refine List.filter_eq_nil_iff.mpr fun group hgroup hname => ?_
      obtain ⟨old, hold, rfl⟩ := List.mem_map.mp hgroup
      exact of_decide_eq_true (List.mem_filter.mp hold).2 (of_decide_eq_true hname)
    · rw [if_pos hnil, if_neg hnil, py.filter_replaceChain remaining fun n => n = chainGroupName,
        py.filter_removeGroupRefs removed fun n => n = chainGroupName, h.chainGroups, if_neg hne,
        removeGroupRefs, List.map_singleton, Texts.replaceChain, List.map_singleton]
      exact congrArg (fun group => [group])
        (if_pos (py.groupName_selectGroup chainGroupName chains))
  refs group hgroup hname hn := by
    unfold rewrite at hgroup
    split at hgroup
    · obtain ⟨old, hold, rfl⟩ := List.mem_map.mp hgroup
      rw [py.groupName_replaceChain] at hname
      split at hn
      · exact (hremaining _ hn).2 rfl
      · obtain ⟨older, holder, rfl⟩ := List.mem_map.mp hold
        exact h.refs older holder hname (Options.mem_removeAll.mp hn).1
    · obtain ⟨old, hold, rfl⟩ := List.mem_map.mp hgroup
      exact (Options.mem_removeAll.mp hn).2 (List.mem_singleton_self _)

/-! ## More chain proxies and back -/

/-- Offering more chain names and taking them away again changes `GLOBAL` at most. -/
theorem filter_global_rewrite (h : GroupsOk py names chains groups) {options gone : List String}
    (hgone : ∀ n ∈ gone, startsWith chainPrefix n = true ∧ n ∉ names) :
    ((rewrite py (py.appendGlobalGroup (py.upsertChainGroup groups options) chainGroupName) gone
        chains).filter fun group => decide (py.groupName group ≠ "GLOBAL")) =
      groups.filter fun group => decide (py.groupName group ≠ "GLOBAL") := by
  have hkeep : ∀ group ∈ groups, group.options.removeAll gone = group.options := by
    intro group hgroup
    refine Options.removeAll_eq_self fun n hn hmem => ?_
    exact (hgone n hmem).2 (h.entries group hgroup n hn (Or.inr (hgone n hmem).1))
  unfold rewrite
  by_cases hne : chains = []
  · subst hne
    have hothers : ((groups ++ [selectGroup chainGroupName options]).filter fun group =>
        decide (py.groupName group ≠ chainGroupName)) = groups := by
      have hold : ∀ group ∈ groups, decide (py.groupName group ≠ chainGroupName) = true :=
        fun group hgroup => decide_eq_true fun hname => (h.eq_selectGroup hgroup hname).1 rfl
      have hnew : ¬ decide (py.groupName (selectGroup chainGroupName options) ≠
          chainGroupName) = true := by
        simp [py.groupName_selectGroup]
      rw [List.filter_append, List.filter_eq_self.mpr hold, List.filter_cons, if_neg hnew,
        List.filter_nil, List.append_nil]
    rw [if_neg (not_not.mpr rfl), py.filter_removeGroupRefs _ fun n => n ≠ "GLOBAL",
      List.filter_comm, py.filter_removeGroupRefs _ fun n => n ≠ "GLOBAL",
      py.filter_appendGlobalGroup chainGroupName (p := fun n => n ≠ "GLOBAL") (by decide),
      h.upsert_of_nil, py.filter_removeGroupRefs _ fun n => n ≠ chainGroupName, List.filter_comm,
      hothers]
    -- what is left are the groups that were there, and none of them mentions a name taken away
    unfold removeGroupRefs
    rw [List.map_map]
    refine (List.map_congr_left fun group hgroup => ?_).trans (List.map_id _)
    obtain ⟨hmem, hother⟩ := List.mem_filter.mp hgroup
    have hrefs : group.options.removeAll [chainGroupName] = group.options := by
      refine Options.removeAll_eq_self fun n hn hchain => ?_
      rw [List.mem_singleton.mp hchain] at hn
      exact h.refs group hmem (of_decide_eq_true hother) hn
    simp only [Function.comp_apply, hkeep group hmem, hrefs, id]
  · rw [if_pos hne, py.filter_replaceChain _ fun n => n ≠ "GLOBAL",
      py.filter_removeGroupRefs _ fun n => n ≠ "GLOBAL",
      py.filter_appendGlobalGroup chainGroupName (p := fun n => n ≠ "GLOBAL") (by decide),
      h.upsert_of_ne hne, py.filter_replaceChain _ fun n => n ≠ "GLOBAL"]
    unfold Texts.replaceChain removeGroupRefs
    rw [List.map_map, List.map_map]
    refine (List.map_congr_left fun group hgroup => ?_).trans (List.map_id _)
    have hmem := (List.mem_filter.mp hgroup).1
    simp only [Function.comp_apply]
    by_cases hname : py.groupName group = chainGroupName
    · rw [if_pos hname]
      exact (if_pos (py.groupName_selectGroup chainGroupName options)).trans
        (h.eq_selectGroup hmem hname).2.symm
    · rw [if_neg hname, hkeep group hmem, if_neg hname, id]

end GroupsOk

end NeuralHub.Proxies
