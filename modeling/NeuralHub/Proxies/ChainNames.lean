/-
NeuralHub.Proxies.ChainNames — what the name of a proxy says about it.

* Exit names and chain names are told apart by their first character.
* `normalizeExitName` gives an exit name and leaves it alone the second
  time (`normalize_normalized`).
* A chain name determines its transit and its exit as long as no transit
  contains the separator (`buildChainName_inj`). Nothing is needed of the
  exit's name: an exit name starts with `E`, and the separator has no `E`.
* `chainExit` reads the exit back from a chain proxy that dials through
  the transit in its name (`chainExit_of_name`).
-/
import NeuralHub.Proxies.ChainManager

namespace NeuralHub.Proxies

open NeuralHub.Lib

/-! ## Prefixes -/

theorem startsWith_iff {head s : String} : startsWith head s = true ↔ head.toList <+: s.toList :=
  List.isPrefixOf_iff_prefix

theorem startsWith_append (head s : String) : startsWith head (head ++ s) = true := by
  rw [startsWith_iff, String.toList_append]
  exact List.prefix_append _ _

theorem exitPrefix_toList : exitPrefix.toList = ['E', 'X', 'I', 'T', '-'] := by decide

theorem chainPrefix_toList : chainPrefix.toList = ['C', 'H', 'A', 'I', 'N', '-'] := by decide

theorem head?_of_exit {s : String} (h : startsWith exitPrefix s = true) :
    s.toList.head? = some 'E' := by
  obtain ⟨rest, hrest⟩ := startsWith_iff.mp h
  rw [← hrest, exitPrefix_toList]
  rfl

theorem head?_of_chain {s : String} (h : startsWith chainPrefix s = true) :
    s.toList.head? = some 'C' := by
  obtain ⟨rest, hrest⟩ := startsWith_iff.mp h
  rw [← hrest, chainPrefix_toList]
  rfl

theorem not_chain_of_exit {s : String} (h : startsWith exitPrefix s = true) :
    startsWith chainPrefix s = false := by
  by_contra hchain
  have hC := head?_of_chain (Bool.not_eq_false _ ▸ hchain)
  rw [head?_of_exit h] at hC
  cases hC

theorem ne_empty_of_exit {s : String} (h : startsWith exitPrefix s = true) : s ≠ "" := by
  rintro rfl
  exact absurd (head?_of_exit h) (by decide)

/-- The group of the chain proxies is not the name of an exit node. -/
theorem ne_chainGroupName_of_exit {s : String} (h : startsWith exitPrefix s = true) :
    s ≠ chainGroupName := by
  rintro rfl
  exact absurd (head?_of_exit h) (by decide)

/-! ## Normalized names -/

theorem stripped_of_strip {s : String} (h : Text.strip s.toList = s.toList) : stripped s = s := by
  unfold stripped
  rw [h, String.ofList_toList]

theorem strip_uniqueText (name : Option String) :
    Text.strip (uniqueText name).toList = (uniqueText name).toList := by
  unfold uniqueText stripped
  rw [String.toList_ofList, Text.strip_strip]

/-- White space at the ends of a prefixed text is white space at the end of the text. -/
theorem strip_exit_append {s : List Char} (h : Text.strip s = s) (hne : s ≠ []) :
    Text.strip (exitPrefix.toList ++ s) = exitPrefix.toList ++ s := by
  have hl : Text.lstrip (exitPrefix.toList ++ s) = exitPrefix.toList ++ s := by
    rw [exitPrefix_toList, List.cons_append]
    exact List.dropWhile_cons_of_neg (by decide)
  have hlast : Text.isSpace (s.getLast hne) = false := by
    by_contra hspace
    have hsplit := s.dropLast_append_getLast hne
    have hlen := Text.length_strip_le s.dropLast
    have hstrip := Text.strip_append_space s.dropLast (Bool.not_eq_false _ ▸ hspace)
    rw [hsplit, h] at hstrip
    rw [← hstrip, List.length_dropLast] at hlen
    have hpos := List.length_pos_iff.mpr hne
    omega
  unfold Text.strip Text.rstrip
  rw [hl, List.reverse_append]
  have hrev : s.reverse = s.getLast hne :: s.reverse.tail := by
    rw [← List.head_reverse (by simpa using hne)]
    exact (List.cons_head_tail _).symm
  rw [hrev, List.cons_append, List.dropWhile_cons_of_neg (by simp [hlast]), ← List.cons_append,
    ← hrev, List.reverse_append, List.reverse_reverse, List.reverse_reverse]

theorem normalize_cases {name : Option String} {exitName : String}
    (h : normalizeExitName name = .ok exitName) :
    uniqueText name ≠ "" ∧
      ((startsWith exitPrefix (uniqueText name) = true ∧ exitName = uniqueText name) ∨
        exitName = exitPrefix ++ uniqueText name) := by
  unfold normalizeExitName at h
  split at h
  · cases h
  · next hne =>
    refine ⟨hne, ?_⟩
    split at h
    · next hexit =>
      cases h
      exact Or.inl ⟨hexit, rfl⟩
    · cases h
      exact Or.inr rfl

theorem startsWith_of_normalize {name : Option String} {exitName : String}
    (h : normalizeExitName name = .ok exitName) : startsWith exitPrefix exitName = true := by
  obtain ⟨-, ⟨hexit, rfl⟩ | rfl⟩ := normalize_cases h
  · exact hexit
  · exact startsWith_append exitPrefix _

theorem strip_of_normalize {name : Option String} {exitName : String}
    (h : normalizeExitName name = .ok exitName) : Text.strip exitName.toList = exitName.toList := by
  obtain ⟨hne, ⟨-, rfl⟩ | rfl⟩ := normalize_cases h
  · exact strip_uniqueText name
  · rw [String.toList_append]
    refine strip_exit_append (strip_uniqueText name) fun hnil => hne ?_
    rw [← String.ofList_toList (s := uniqueText name), hnil]

/-- A normalized name is normalized already. -/
theorem normalize_normalized {name : Option String} {exitName : String}
    (h : normalizeExitName name = .ok exitName) :
    normalizeExitName (some exitName) = .ok exitName := by
  have hself : uniqueText (some exitName) = exitName := stripped_of_strip (strip_of_normalize h)
  have hexit := startsWith_of_normalize h
  unfold normalizeExitName
  rw [hself, if_neg (ne_empty_of_exit hexit), if_pos hexit]

/-! ## Chain names -/

theorem startsWith_buildChainName (transit exitName : String) :
    startsWith chainPrefix (buildChainName transit exitName) = true := by
  unfold buildChainName
  rw [String.append_assoc, String.append_assoc]
  exact startsWith_append chainPrefix _

theorem head_notMem_separator {exitName : String} (h : startsWith exitPrefix exitName = true) :
    ∀ c ∈ exitName.toList.head?, c ∉ chainSeparator.toList := by
  intro c hc
  rw [head?_of_exit h] at hc
  cases hc
  decide

/-- A chain name determines the transit and the exit it is made of. -/
theorem buildChainName_inj {t u e f : String} (ht : contains chainSeparator t = false)
    (hu : contains chainSeparator u = false) (he : startsWith exitPrefix e = true)
    (hf : startsWith exitPrefix f = true) (h : buildChainName t e = buildChainName u f) :
    t = u ∧ e = f := by
  have hlist : t.toList ++ chainSeparator.toList ++ e.toList =
      u.toList ++ chainSeparator.toList ++ f.toList := by
    have := congrArg String.toList h
    simpa only [buildChainName, String.toList_append, List.append_assoc,
      List.append_cancel_left_eq] using this
  have hne : ∀ {s : String}, startsWith exitPrefix s = true → s.toList ≠ [] := by
    intro s hs hnil
    have := head?_of_exit hs
    rw [hnil] at this
    cases this
  obtain ⟨htu, hef⟩ := append_separator_inj (of_decide_eq_false ht) (of_decide_eq_false hu)
    (head_notMem_separator he) (hne he) (head_notMem_separator hf) (hne hf) hlist
  exact ⟨String.toList_injective htu, String.toList_injective hef⟩

namespace Texts

variable (py : Texts)

/-! ## Fields of a dictionary -/

theorem field_of_get_str {d : Dict Json} {key s : String} (h : d.get key = some (.str s)) :
    py.field d key = s := by
  unfold field
  rw [h]
  by_cases hs : s = ""
  · subst hs
    rfl
  · have : Plan.truthy (.str s) = true := decide_eq_true hs
    simp only [this, if_true]
    rfl

theorem field_congr {d e : Dict Json} {key : String} (h : d.get key = e.get key) :
    py.field d key = py.field e key := by
  unfold field
  rw [h]

theorem name_remove_dialer (proxy : Proxy) :
    py.name (proxy.remove "dialer-proxy") = py.name proxy :=
  py.field_congr (Dict.get_remove_of_ne proxy (by decide))

theorem name_virtualProxy (exitProxy : Proxy) (transit exitName : String) :
    py.name (virtualProxy exitProxy transit exitName) = buildChainName transit exitName := by
  refine py.field_of_get_str ?_
  rw [virtualProxy, Dict.get_set_of_ne _ _ (by decide), Dict.get_set_self]

theorem isChainProxy_virtualProxy (exitProxy : Proxy) (transit exitName : String) :
    py.isChainProxy (virtualProxy exitProxy transit exitName) = true := by
  unfold isChainProxy
  rw [name_virtualProxy]
  exact startsWith_buildChainName transit exitName

theorem get_dialer_virtualProxy (exitProxy : Proxy) (transit exitName : String) :
    (virtualProxy exitProxy transit exitName).get "dialer-proxy" = some (.str transit) :=
  Dict.get_set_self _ _ _

theorem agree_virtualProxy (exitProxy : Proxy) (transit exitName : String) :
    Dict.Agree ["name", "dialer-proxy"] (virtualProxy exitProxy transit exitName) exitProxy :=
  (Dict.agree_set _ _ (by decide)).trans (Dict.agree_set _ _ (by decide))

/-- The exit is read back from a chain proxy that dials through the transit in its name. -/
theorem chainExit_of_name {proxy : Proxy} {transit exitName : String}
    (hname : py.name proxy = buildChainName transit exitName)
    (hdialer : proxy.get "dialer-proxy" = some (.str transit)) : py.chainExit proxy = exitName := by
  unfold chainExit
  rw [py.field_of_get_str hdialer, hname]
  rw [if_pos (by
    unfold buildChainName
    exact startsWith_append _ _)]
  unfold buildChainName
  rw [String.toList_append (s := chainPrefix ++ transit ++ chainSeparator), List.drop_left,
    String.ofList_toList]

end Texts

end NeuralHub.Proxies
