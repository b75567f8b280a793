/-
NeuralHub.Gate.Replay — how often a signed call is accepted.

`Bound` relates a gate to its ledger: what was accepted since the last
reset has its sequence number in the set of verified ones, everything
accepted bears a valid signature of the gate, and so does everything that
was issued. A signature that nobody guesses was issued, and its payload
is the payload of the call it was issued for, so an accepted call carries
what was signed (`sameSigned_of_valid`).

The set protects until `reset` empties it, while the key stays: a call
that was accepted before the reset is accepted again behind it unless its
number has been verified meanwhile (`no_replay_iff`).
-/
import NeuralHub.Gate.SecurityGate

namespace NeuralHub.Gate

open NeuralHub.Lib

variable {mac : Mac} {g g' : SecurityGate} {l l' : Ledger} {a : Action} {c d : SignedToolCall}

/-! ## What is issued -/

theorem valid_signNext {now : PyFloat} {call : ToolCall}
    (h : g.signNext mac now call = (g', some c)) : c.Valid mac := by
  obtain ⟨-, hsigned⟩ := Prod.mk.inj h
  obtain ⟨signature, hsign, rfl⟩ := Option.map_eq_some_iff.mp hsigned
  exact hsign

theorem valid_authorizeFrom {tools : List AgentLoop.ToolDefinition} {clock : Nat → PyFloat}
    {calls : List ToolCall} {acc auth : AuthorizeResult}
    (hacc : ∀ c ∈ acc.signedCalls, c.Valid mac)
    (h : g.authorizeFrom mac tools clock acc calls = (g', some auth)) :
    ∀ c ∈ auth.signedCalls, c.Valid mac := by
  induction calls generalizing g acc with
  | nil =>
    obtain ⟨-, hauth⟩ := Prod.mk.inj h
    exact Option.some.inj hauth ▸ hacc
  | cons call calls ih =>
    simp only [SecurityGate.authorizeFrom] at h
    split at h
    · refine ih ?_ h
      exact hacc
    · split at h
      · refine ih ?_ h
        exact hacc
      · split at h
        · cases (Prod.mk.inj h).2
        · rename_i g₁ signed hnext
          refine ih ?_ h
          intro c hc
          rcases List.mem_append.mp hc with hc | hc
          · exact hacc c hc
          · exact List.mem_singleton.mp hc ▸ valid_signNext hnext

theorem valid_forceSignFrom {clock : Nat → PyFloat} {calls : List ToolCall}
    {acc signed : List SignedToolCall} (hacc : ∀ c ∈ acc, c.Valid mac)
    (h : g.forceSignFrom mac clock acc calls = (g', some signed)) :
    ∀ c ∈ signed, c.Valid mac := by
  induction calls generalizing g acc with
  | nil =>
    obtain ⟨-, hsigned⟩ := Prod.mk.inj h
    exact Option.some.inj hsigned ▸ hacc
  | cons call calls ih =>
    simp only [SecurityGate.forceSignFrom] at h
    split at h
    · cases (Prod.mk.inj h).2
    · rename_i g₁ next hnext
      refine ih ?_ h
      intro c hc
      rcases List.mem_append.mp hc with hc | hc
      · exact hacc c hc
      · exact List.mem_singleton.mp hc ▸ valid_signNext hnext

theorem verifiedSequences_authorizeFrom (mac : Mac) (tools : List AgentLoop.ToolDefinition)
    (clock : Nat → PyFloat) (calls : List ToolCall) (g : SecurityGate) (acc : AuthorizeResult) :
    (g.authorizeFrom mac tools clock acc calls).1.verifiedSequences = g.verifiedSequences := by
  induction calls generalizing g acc with
  | nil => rfl
  | cons call calls ih =>
    have hnext : (g.signNext mac (clock (g.sequence + 1)) call).1.verifiedSequences =
        g.verifiedSequences := rfl
    simp only [SecurityGate.authorizeFrom]
    split
    · exact ih g _
    · split
      · exact ih g _
      · split
        · rename_i g₁ heq
          rw [heq] at hnext
          exact hnext
        · rename_i g₁ signed heq
          rw [heq] at hnext
          exact (ih g₁ _).trans hnext

theorem verifiedSequences_forceSignFrom (mac : Mac) (clock : Nat → PyFloat)
    (calls : List ToolCall) (g : SecurityGate) (signed : List SignedToolCall) :
    (g.forceSignFrom mac clock signed calls).1.verifiedSequences = g.verifiedSequences := by
  induction calls generalizing g signed with
  | nil => rfl
  | cons call calls ih =>
    have hnext : (g.signNext mac (clock (g.sequence + 1)) call).1.verifiedSequences =
        g.verifiedSequences := rfl
    simp only [SecurityGate.forceSignFrom]
    split
    · rename_i g₁ heq
      rw [heq] at hnext
      exact hnext
    · rename_i g₁ c heq
      rw [heq] at hnext
      exact (ih g₁ _).trans hnext

/-! ## What one operation does -/

/-- The operations as gate and ledger see them: calls are issued, a call is
accepted, a call is refused, or the gate is reset. -/
theorem step_cases (h : (ledgered mac).step (g, l) a = some (g', l')) :
    (∃ signed, (∀ c ∈ signed, c.Valid mac) ∧ (∀ c, a ≠ .verify c) ∧
      g'.verifiedSequences = g.verifiedSequences ∧ l' = l.issue signed) ∨
    (∃ c, a = .verify c ∧ c.Valid mac ∧ c.sequence ∉ g.verifiedSequences ∧
      g'.verifiedSequences = c.sequence :: g.verifiedSequences ∧ l' = l.accept c) ∨
    (∃ c, a = .verify c ∧ (c.Valid mac → c.sequence ∈ g.verifiedSequences) ∧ g' = g ∧ l' = l) ∨
    (a = .reset ∧ g'.verifiedSequences = [] ∧ l' = l.reset) := by
  obtain ⟨hstep, rfl⟩ := (machine mac).step_withHistory.mp h
  obtain rfl := Option.some.inj hstep
  cases a with
  | authorize tools clock calls =>
    refine Or.inl ⟨_, ?_, by simp,
      verifiedSequences_authorizeFrom mac tools clock calls g {}, rfl⟩
    rcases hauth : g.authorize mac tools clock calls with ⟨g', _ | auth⟩
    · simp
    · exact valid_authorizeFrom (by simp) hauth
  | forceSign clock calls =>
    refine Or.inl ⟨_, ?_, by simp, verifiedSequences_forceSignFrom mac clock calls g [], rfl⟩
    rcases hforce : g.forceSign mac clock calls with ⟨g', _ | signed⟩
    · simp
    · exact valid_forceSignFrom (by simp) hforce
  | verify c =>
    by_cases hok : c.Valid mac ∧ c.sequence ∉ g.verifiedSequences
    · refine Or.inr (Or.inl ⟨c, rfl, hok.1, hok.2, ?_, ?_⟩)
      · simp only [SecurityGate.apply, SecurityGate.verify, if_pos hok]
      · simp only [Ledger.record, SecurityGate.verify, if_pos hok, if_true]
    · refine Or.inr (Or.inr (Or.inl ⟨c, rfl, ?_, ?_, ?_⟩))
      · intro hvalid
        by_contra hnot
        exact hok ⟨hvalid, hnot⟩
      · simp only [SecurityGate.apply, SecurityGate.verify, if_neg hok]
      · simp [Ledger.record, SecurityGate.verify, if_neg hok]
  | reset => exact Or.inr (Or.inr (Or.inr ⟨rfl, rfl, rfl⟩))

/-! ## Accepted calls -/

/-- The same name, arguments, sequence number and time stamp. Dictionaries
are the same when they have the same members, in whatever order. -/
def SameSigned (c d : SignedToolCall) : Prop :=
  c.toolCall.name = d.toolCall.name ∧
    c.toolCall.arguments.map Members.sorted = d.toolCall.arguments.map Members.sorted ∧
    c.sequence = d.sequence ∧ c.timestamp = d.timestamp

/-- What gate and ledger have to do with each other. -/
structure Bound (mac : Mac) (g : SecurityGate) (l : Ledger) : Prop where
  verified : ∀ c ∈ l.acceptedSince, c.sequence ∈ g.verifiedSequences
  accepted : ∀ c ∈ l.accepted, c.Valid mac
  issued : ∀ c ∈ l.issued, c.Valid mac

theorem bound_new (mac : Mac) (g : SecurityGate) : Bound mac g {} :=
  ⟨by simp, by simp [Ledger.accepted], by simp⟩

@[simp] theorem accepted_accept (l : Ledger) (c : SignedToolCall) :
    (l.accept c).accepted = c :: l.accepted := rfl

theorem Bound.step (hbound : Bound mac g l) (h : (ledgered mac).step (g, l) a = some (g', l')) :
    Bound mac g' l' := by
  rcases step_cases h with ⟨signed, hsigned, -, hsame, rfl⟩ |
    ⟨c, -, hvalid, -, hadd, rfl⟩ | ⟨c, -, -, rfl, rfl⟩ | ⟨-, hnone, rfl⟩
  · refine ⟨?_, hbound.accepted, ?_⟩
    · rw [hsame]
      exact hbound.verified
    · intro c hc
      rcases List.mem_append.mp hc with hc | hc
      · exact hbound.issued c hc
      · exact hsigned c hc
  · refine ⟨?_, ?_, hbound.issued⟩
    · intro d hd
      rw [hadd]
      rcases List.mem_cons.mp hd with rfl | hd
      · exact List.mem_cons_self
      · exact List.mem_cons_of_mem _ (hbound.verified d hd)
    · intro d hd
      rw [accepted_accept] at hd
      rcases List.mem_cons.mp hd with rfl | hd
      · exact hvalid
      · exact hbound.accepted d hd
  · exact hbound
  · exact ⟨by simp [Ledger.reset], hbound.accepted, hbound.issued⟩

/-- A valid signature that is presented was issued: nobody guesses one. -/
def Unguessed (mac : Mac) (s : SecurityGate × Ledger) : Action → Prop
  | .verify c => c.Valid mac → ∃ d ∈ s.2.issued, d.signature = c.signature
  | _ => True

/-- A call that was accepted before the last reset is presented again only
when its sequence number has been verified since. -/
def StaleRefused (s : SecurityGate × Ledger) : Action → Prop
  | .verify c => c ∈ s.2.acceptedBefore → c.sequence ∈ s.1.verifiedSequences
  | _ => True

instance (mac : Mac) (s : SecurityGate × Ledger) : DecidablePred (Unguessed mac s)
  | .verify c => inferInstanceAs
      (Decidable (c.Valid mac → ∃ d ∈ s.2.issued, d.signature = c.signature))
  | .authorize _ _ _ => isTrue trivial
  | .forceSign _ _ => isTrue trivial
  | .reset => isTrue trivial

instance (s : SecurityGate × Ledger) : DecidablePred (StaleRefused s)
  | .verify c => inferInstanceAs
      (Decidable (c ∈ s.2.acceptedBefore → c.sequence ∈ s.1.verifiedSequences))
  | .authorize _ _ _ => isTrue trivial
  | .forceSign _ _ => isTrue trivial
  | .reset => isTrue trivial

/-- Every call is accepted at most once, and what is accepted was signed. -/
def NoReplay (l : Ledger) : Prop :=
  l.accepted.Nodup ∧ ∀ c ∈ l.accepted, ∃ d ∈ l.issued, SameSigned c d

/-- Distinct payloads have distinct signatures, so a valid call with an
issued signature carries what was signed. -/
theorem sameSigned_of_valid (hmac : Function.Injective mac) (hc : c.Valid mac) (hd : d.Valid mac)
    (h : d.signature = c.signature) : SameSigned c d := by
  obtain ⟨p, hp, hcsig⟩ := Option.map_eq_some_iff.mp hc
  obtain ⟨q, hq, hdsig⟩ := Option.map_eq_some_iff.mp hd
  have hsame : p = q := hmac (hcsig.trans (h.symm.trans hdsig.symm))
  subst hsame
  exact payload_injective hp hq

/-- Issued calls stay issued. -/
theorem issued_subset (h : (ledgered mac).step (g, l) a = some (g', l')) :
    l.issued ⊆ l'.issued := by
  rcases step_cases h with ⟨signed, -, -, -, rfl⟩ | ⟨c, -, -, -, -, rfl⟩ |
    ⟨c, -, -, -, rfl⟩ | ⟨-, -, rfl⟩
  · exact List.subset_append_left _ _
  · exact List.Subset.refl _
  · exact List.Subset.refl _
  · exact List.Subset.refl _

theorem NoReplay.step (hmac : Function.Injective mac) (hbound : Bound mac g l) (hno : NoReplay l)
    (hguess : Unguessed mac (g, l) a) (hstale : StaleRefused (g, l) a)
    (h : (ledgered mac).step (g, l) a = some (g', l')) : NoReplay l' := by
  have hold : ∀ c ∈ l.accepted, ∃ d ∈ l'.issued, SameSigned c d := by
    intro c hc
    obtain ⟨d, hd, hsame⟩ := hno.2 c hc
    exact ⟨d, issued_subset h hd, hsame⟩
  rcases step_cases h with ⟨signed, -, -, -, rfl⟩ | ⟨c, rfl, hvalid, hnew, -, rfl⟩ |
    ⟨c, -, -, -, rfl⟩ | ⟨-, -, rfl⟩
  · exact ⟨hno.1, hold⟩
  · refine ⟨?_, ?_⟩
    · rw [accepted_accept, List.nodup_cons]
      refine ⟨fun hmem => hnew ?_, hno.1⟩
      -- accepted since the reset: its number is verified; before it: the condition
      rcases List.mem_append.mp hmem with hsince | hbefore
      · exact hbound.verified c hsince
      · exact hstale hbefore
    · intro d hd
      rw [accepted_accept] at hd
      rcases List.mem_cons.mp hd with rfl | hd
      · obtain ⟨e, he, hsignature⟩ := hguess hvalid
        exact ⟨e, he, sameSigned_of_valid hmac hvalid (hbound.issued e he) hsignature⟩
      · exact hold d hd
  · exact hno
  · exact ⟨hno.1, hold⟩

theorem accepted_suffix (h : (ledgered mac).step (g, l) a = some (g', l')) :
    l.accepted <:+ l'.accepted := by
  rcases step_cases h with ⟨signed, -, -, -, rfl⟩ | ⟨c, -, -, -, -, rfl⟩ |
    ⟨c, -, -, -, rfl⟩ | ⟨-, -, rfl⟩
  · exact List.suffix_refl _
  · exact List.suffix_cons c l.accepted
  · exact List.suffix_refl _
  · exact List.suffix_refl _

/-- A call that was accepted once is accepted again where the condition fails. -/
theorem staleRefused_of_nodup (hbound : Bound mac g l) (hnodup : l'.accepted.Nodup)
    (h : (ledgered mac).step (g, l) a = some (g', l')) : StaleRefused (g, l) a := by
  cases a with
  | authorize tools clock calls => trivial
  | forceSign clock calls => trivial
  | reset => trivial
  | verify c =>
    intro hbefore
    have hmem : c ∈ l.accepted := List.mem_append_right l.acceptedSince hbefore
    rcases step_cases h with ⟨signed, -, hno, -, -⟩ | ⟨d, hd, -, -, -, rfl⟩ |
      ⟨d, hd, hrefused, -, -⟩ | ⟨hreset, -, -⟩
    · exact absurd rfl (hno c)
    · obtain rfl := Action.verify.inj hd
      exact absurd hmem (List.nodup_cons.mp hnodup).1
    · obtain rfl := Action.verify.inj hd
      exact hrefused (hbound.accepted c hmem)
    · cases hreset

/-! ## Runs -/

variable {acts : List Action}

theorem no_replay_of_meets (hmac : Function.Injective mac) (hbound : Bound mac g l)
    (hno : NoReplay l) (hguess : (ledgered mac).Meets (Unguessed mac) (g, l) acts)
    (hstale : (ledgered mac).Meets StaleRefused (g, l) acts)
    (hrun : (ledgered mac).run (g, l) acts = some (g', l')) : NoReplay l' := by
  have hmeets := (ledgered mac).meets_and.mpr ⟨hguess, hstale⟩
  have hinv := (ledgered mac).run_invariant_of_meets
    (I := fun s : SecurityGate × Ledger => Bound mac s.1 s.2 ∧ NoReplay s.2)
    (fun s a t hs hc ht => ⟨hs.1.step ht, hs.2.step hmac hs.1 hc.1 hc.2 ht⟩)
    ⟨hbound, hno⟩ hmeets hrun
  exact hinv.2

theorem meets_of_nodup (hbound : Bound mac g l) (hnodup : l'.accepted.Nodup)
    (hrun : (ledgered mac).run (g, l) acts = some (g', l')) :
    (ledgered mac).Meets StaleRefused (g, l) acts ∧ l.accepted <:+ l'.accepted := by
  induction acts generalizing g l with
  | nil =>
    cases hrun
    exact ⟨trivial, List.suffix_refl _⟩
  | cons a acts ih =>
    obtain ⟨⟨g₁, l₁⟩, hstep, hrest⟩ := (ledgered mac).run_cons_eq_some.mp hrun
    obtain ⟨hmeets, hsuffix⟩ := ih (hbound.step hstep) hrest
    have hnodup₁ : l₁.accepted.Nodup := hnodup.sublist hsuffix.sublist
    refine ⟨⟨staleRefused_of_nodup hbound hnodup₁ hstep, ?_⟩,
      (accepted_suffix hstep).trans hsuffix⟩
    intro t ht
    rw [hstep] at ht
    cases ht
    exact hmeets

/-- **No signed call is accepted twice** in a run of operations on a new
gate, and what is accepted was signed by it, exactly when no call that was
accepted before a reset is presented behind it while its sequence number
has not been verified again. -/
theorem no_replay_iff {policy : AgentLoop.SecurityPolicy} (hmac : Function.Injective mac)
    (hguess : (ledgered mac).Meets (Unguessed mac) ({ policy }, {}) acts)
    (hrun : (ledgered mac).run ({ policy }, {}) acts = some (g', l')) :
    NoReplay l' ↔ (ledgered mac).Meets StaleRefused ({ policy }, {}) acts := by
  have hbound : Bound mac { policy } {} := bound_new mac { policy }
  have hempty : NoReplay {} := ⟨List.nodup_nil, by simp [Ledger.accepted]⟩
  exact ⟨fun hno => (meets_of_nodup hbound hno.1 hrun).1,
    fun hstale => no_replay_of_meets hmac hbound hempty hguess hstale hrun⟩

/-! ## The same call before and after a reset -/

/-- A tag that is its payload. -/
def plainMac : Mac := String.ofList

theorem plainMac_injective : Function.Injective plainMac := fun _ _ h => String.ofList_inj.mp h

def readTool : List AgentLoop.ToolDefinition := [{ name := "Read" }]

def readCall : ToolCall := { id := "1", name := "Read", arguments := some .nil }

def noon : PyFloat := .finite ⟨['4', '3', '2', '0', '0', '.', '5'], by decide, by decide⟩

/-- `readCall` as a gate signs it first at noon. -/
def readSigned : SignedToolCall :=
  { toolCall := readCall
    sequence := 1
    timestamp := noon
    signature := "Read|\x7b\x7d|1|43200.5" }

def signedOnce : List Action :=
  [.authorize readTool (fun _ => noon) [readCall], .verify readSigned, .verify readSigned]

/-- The first of two presentations is accepted. -/
theorem no_replay_twice : ∃ g l, (ledgered plainMac).run ({ policy := {} }, {}) signedOnce =
    some (g, l) ∧ l.accepted = [readSigned] ∧ NoReplay l := by
  have hend : ((ledgered plainMac).run ({ policy := {} }, {}) signedOnce).map (·.2.accepted) =
      some [readSigned] := by decide
  obtain ⟨⟨g, l⟩, hrun, haccepted⟩ := Option.map_eq_some_iff.mp hend
  exact ⟨g, l, hrun, haccepted,
    (no_replay_iff plainMac_injective (by decide) hrun).mpr (by decide)⟩

/-- `reset` forgets the verified numbers and keeps the key, so a signed call
passes a second time. -/
theorem replay_after_reset :
    ¬ ∀ (mac : Mac) (policy : AgentLoop.SecurityPolicy) (acts : List Action) (g : SecurityGate)
      (l : Ledger), Function.Injective mac →
      (ledgered mac).Meets (Unguessed mac) ({ policy }, {}) acts →
      (ledgered mac).run ({ policy }, {}) acts = some (g, l) → NoReplay l := by
  intro hclaim
  have hend : ((ledgered plainMac).run ({ policy := {} }, {})
      (signedOnce ++ [.reset, .verify readSigned])).map (·.2.accepted) =
        some [readSigned, readSigned] := by decide
  obtain ⟨⟨g, l⟩, hrun, haccepted⟩ := Option.map_eq_some_iff.mp hend
  have hnodup := (hclaim plainMac {} _ g l plainMac_injective (by decide) hrun).1
  rw [haccepted] at hnodup
  exact absurd hnodup (by decide)

end NeuralHub.Gate
