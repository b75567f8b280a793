/-
NeuralHub.Proxies.OverlayRuns — the chain overlay over every run of
`ChainProxyManager` calls.

`Consistent` is what a user of the configuration expects: distinct names,
chain proxies that are current copies of their exits, no dangling entries,
the group `Chain` exactly for the chain proxies, and a `set_chain` that
`remove_chain` takes back.

`always_consistent`: a run from an ordinary configuration stays consistent
while every `add_exit_node` meets `KeepsCopies`, provided that the groups
mention neither names with the two prefixes nor a proxy called `Chain`.
Names of exit nodes may well contain the separator.

`not_always_consistent`: without the condition on `add_exit_node` it does
not. Adding an exit node again replaces its data and leaves the chain
proxies made from the old data as they are.
-/
import NeuralHub.Proxies.Overlay

namespace NeuralHub.Proxies

open NeuralHub.Lib

/-! ## What is expected of a configuration -/

structure Consistent (py : Texts) (config : Config) : Prop where
  names : (config.proxies.map py.name).Nodup
  copies : ∀ proxy ∈ config.proxies, py.isChainProxy proxy = true →
    CopiesExit py config.proxies proxy
  entries : ∀ group ∈ config.groups, ∀ n ∈ group.options.toList,
    startsWith exitPrefix n = true ∨ startsWith chainPrefix n = true →
      n ∈ config.proxies.map py.name
  chainGroup : (∃ group ∈ config.groups, py.groupName group = chainGroupName) ↔
    ∃ proxy ∈ config.proxies, py.isChainProxy proxy = true
  listed : ∀ group ∈ config.groups, py.groupName group = chainGroupName →
    group.options = .names (py.chainNames config.proxies)
  undone : ∀ exitNode transitNodes transitPattern,
    SameButGlobal py
      (py.after (py.after config (.setChain exitNode transitNodes transitPattern))
        (.removeChain (some exitNode)))
      (py.after config (.removeChain (some exitNode)))

/-- A configuration without exit nodes and chains. -/
structure Start (py : Texts) (config : Config) : Prop where
  names : (config.proxies.map py.name).Nodup
  ordinary : ∀ proxy ∈ config.proxies, py.isExit proxy = false ∧ py.isChainProxy proxy = false ∧
    contains chainSeparator (py.name proxy) = false
  groups : ∀ group ∈ config.groups, py.groupName group ≠ chainGroupName

def builtinPolicies : List String :=
  ["DIRECT", "REJECT", "REJECT-DROP", "PASS", "COMPATIBLE", "GLOBAL"]

/-- The groups mention proxies, groups and built-in policies. -/
def Mentions (py : Texts) (config : Config) : Prop :=
  ∀ group ∈ config.groups, ∀ n ∈ group.options.toList,
    n ∈ config.proxies.map py.name ∨ n ∈ config.groups.map py.groupName ∨ n ∈ builtinPolicies

/-- No group mentions a name that the overlay gives a meaning to. -/
def MentionsFree (py : Texts) (config : Config) : Prop :=
  ∀ group ∈ config.groups, ∀ n ∈ group.options.toList,
    startsWith exitPrefix n = false ∧ startsWith chainPrefix n = false ∧
      (py.groupName group ≠ "GLOBAL" → n ≠ chainGroupName)

variable {py : Texts} {config : Config}

theorem sameButGlobal_refl : SameButGlobal py config config := ⟨rfl, rfl⟩

theorem after_setChain (config : Config) (exitNode : String)
    (transitNodes : Option (List String)) (transitPattern : Option String) :
    py.after config (.setChain exitNode transitNodes transitPattern) =
      match py.setChain config exitNode transitNodes transitPattern with
      | .ok result => result.1
      | .error _ => config := by
  unfold Texts.after
  simp only [Texts.perform]
  cases py.setChain config exitNode transitNodes transitPattern with
  | ok result => rfl
  | error message => rfl

theorem after_removeChain (config : Config) (exitNode : Option String) :
    py.after config (.removeChain exitNode) =
      match py.removeChain config exitNode with
      | .ok result => result.1
      | .error _ => config := by
  unfold Texts.after
  simp only [Texts.perform]
  cases py.removeChain config exitNode with
  | ok result => rfl
  | error message => rfl

theorem consistent_of_overlay (h : Overlay py config) : Consistent py config where
  names := h.proxies.names
  copies := h.proxies.chains
  entries := h.groups.entries
  chainGroup := by
    constructor
    · rintro ⟨group, hgroup, hname⟩
      obtain ⟨n, hn⟩ := List.exists_mem_of_ne_nil _ (h.groups.eq_selectGroup hgroup hname).1
      obtain ⟨proxy, hproxy, hchain, -⟩ := mem_chainNames.mp hn
      exact ⟨proxy, hproxy, hchain⟩
    · rintro ⟨proxy, hproxy, hchain⟩
      exact h.groups.exists_chainGroup
        (List.ne_nil_of_mem (mem_chainNames.mpr ⟨proxy, hproxy, hchain, rfl⟩))
  listed group hgroup hname := by
    rw [(h.groups.eq_selectGroup hgroup hname).2]
    rfl
  undone exitNode transitNodes transitPattern := by
    cases hset : py.setChain config exitNode transitNodes transitPattern with
    | error message =>
      rw [after_setChain, hset]
      exact sameButGlobal_refl
    | ok result =>
      obtain ⟨undone, removed, hundone, hremoved, hsame⟩ := set_remove_chain h hset
      rw [after_setChain, hset, after_removeChain, after_removeChain, hundone, hremoved]
      exact hsame

theorem Start.proxiesOk (h : Start py config) : ProxiesOk py config.proxies where
  names := h.names
  plain proxy hproxy _ _ := (h.ordinary proxy hproxy).2.2
  exits proxy hproxy hexit := by
    rw [(h.ordinary proxy hproxy).1] at hexit
    cases hexit
  chains proxy hproxy hchain := by
    rw [(h.ordinary proxy hproxy).2.1] at hchain
    cases hchain

theorem overlay_of_start (h : Start py config) (hfree : MentionsFree py config) :
    Overlay py config where
  proxies := h.proxiesOk
  groups := by
    have hnone : py.chainNames config.proxies = [] := by
      refine List.eq_nil_iff_forall_not_mem.mpr fun n hn => ?_
      obtain ⟨proxy, hproxy, hchain, -⟩ := mem_chainNames.mp hn
      rw [(h.ordinary proxy hproxy).2.1] at hchain
      cases hchain
    rw [hnone]
    constructor
    · intro group hgroup n hn hprefix
      obtain ⟨hexit, hchain, -⟩ := hfree group hgroup n hn
      rw [hexit, hchain] at hprefix
      simp at hprefix
    · rw [if_pos rfl]
      exact List.filter_eq_nil_iff.mpr fun group hgroup hname =>
        h.groups group hgroup (of_decide_eq_true hname)
    · exact fun group hgroup hname hn => (hfree group hgroup _ hn).2.2 hname rfl

/-! ## Runs -/

/-- The condition on one call. -/
def KeepsOverlay (py : Texts) (config : Config) : Operation → Prop
  | .addExitNode name args => KeepsCopies py config name args
  | _ => True

instance (config : Config) : ∀ operation, Decidable (KeepsOverlay py config operation)
  | .addExitNode name args => inferInstanceAs (Decidable (KeepsCopies py config name args))
  | .removeExitNode _ => inferInstanceAs (Decidable True)
  | .setChain _ _ _ => inferInstanceAs (Decidable True)
  | .removeChain _ => inferInstanceAs (Decidable True)

theorem overlay_after (h : Overlay py config) {operation : Operation}
    (hkeeps : KeepsOverlay py config operation) : Overlay py (py.after config operation) := by
  cases operation with
  | addExitNode name args =>
    unfold Texts.after
    split
    · next result hok => exact overlay_addExit h hok hkeeps
    · exact h
  | removeExitNode name =>
    unfold Texts.after
    split
    · next result hok => exact overlay_removeExit h hok
    · exact h
  | setChain exitNode transitNodes transitPattern =>
    rw [after_setChain]
    split
    · next result hok => exact overlay_setChain h hok
    · exact h
  | removeChain exitNode =>
    rw [after_removeChain]
    split
    · next result hok => exact overlay_removeChain h hok
    · exact h

/-- **The overlay stays consistent**: in every state of every run from an ordinary
configuration in which each `add_exit_node` keeps the copies. -/
theorem always_consistent (hstart : Start py config) (hfree : MentionsFree py config)
    {operations : List Operation}
    (hmeets : py.overlay.Meets (KeepsOverlay py) config operations) :
    py.overlay.Always (Consistent py) config operations := by
  rintro pre reached ⟨post, rfl⟩ hrun
  refine consistent_of_overlay (py.overlay.run_invariant_of_meets ?_
    (overlay_of_start hstart hfree) ((py.overlay.meets_append).mp hmeets).1 hrun)
  intro s operation t hs hkeeps hstep
  cases hstep
  exact overlay_after hs hkeeps

/-! ## A run that keeps the overlay, and one that does not -/

def plainTexts : Texts :=
  ⟨fun value => String.ofList value.text, fun s => String.ofList (Text.lower s.toList)⟩

def hongKong : Proxy :=
  ((Dict.nil.set "name" (.str "HK")).set "type" (.str "ss")).set "server" (.str "hk.example.com")

def oneProxy : Config := ⟨[hongKong], [selectGroup "GLOBAL" ["HK"], selectGroup "Auto" ["HK"]]⟩

def nodeAt (server : String) : NodeArgs :=
  { nodeType := "trojan", server := server, port := 443, password := "secret" }

instance : Decidable (Start py config) :=
  decidable_of_iff ((config.proxies.map py.name).Nodup ∧
      (∀ proxy ∈ config.proxies, py.isExit proxy = false ∧ py.isChainProxy proxy = false ∧
        contains chainSeparator (py.name proxy) = false) ∧
      ∀ group ∈ config.groups, py.groupName group ≠ chainGroupName)
    ⟨fun ⟨names, ordinary, groups⟩ => ⟨names, ordinary, groups⟩,
      fun ⟨names, ordinary, groups⟩ => ⟨names, ordinary, groups⟩⟩

instance : Decidable (Mentions py config) := by
  unfold Mentions
  infer_instance

instance : Decidable (MentionsFree py config) := by
  unfold MentionsFree
  infer_instance

theorem always_consistent_oneProxy :
    plainTexts.overlay.Always (Consistent plainTexts) oneProxy
      [.addExitNode "A" (nodeAt "a.example.com"), .setChain "A" none none,
        .addExitNode "A" (nodeAt "a.example.com"), .setChain "A" (some ["HK"]) none,
        .removeExitNode "A"] :=
  always_consistent (by decide +kernel) (by decide +kernel) (by decide +kernel)

/-- The exit node `A` is added again with another server after it was chained. -/
theorem not_always_consistent :
    ¬ ∀ (py : Texts) (config : Config) (operations : List Operation), Start py config →
      Mentions py config →
      (∀ name args, .addExitNode name args ∈ operations → contains chainSeparator name = false) →
      py.overlay.Always (Consistent py) config operations := by
  intro hclaim
  have hrun := hclaim plainTexts oneProxy
    [.addExitNode "A" (nodeAt "old.example.com"), .setChain "A" none none,
      .addExitNode "A" (nodeAt "new.example.com")]
    (by decide +kernel) (by decide +kernel) (by
      intro name args hmem
      simp only [List.mem_cons, Operation.addExitNode.injEq, List.not_mem_nil, or_false,
        reduceCtorEq, false_or] at hmem
      rcases hmem with ⟨rfl, -⟩ | ⟨rfl, -⟩
      · decide +kernel
      · decide +kernel)
  have hcopies := (hrun _ _ (List.prefix_refl _) rfl).copies
  revert hcopies
  decide +kernel

end NeuralHub.Proxies
