/-
NeuralHub.Adapters.ResilientTheorems — the chain uses the first provider
that can answer.

Both loops are walks, so what one turn does carries over to the runs: the
candidates are tried in their order, none whose circuit is open, and one
after another as long as they fail with an error that is configured. With
what a request over HTTP raises, a refusal with status 429 leads to the next
candidate exactly if its code is configured, and the code is `RATE_LIMIT`
unless the body of the answer gives another (`first_provider_that_answers`).
-/
import NeuralHub.Adapters.Resilient

namespace NeuralHub.Adapters.Resilient

open NeuralHub.Lib

variable {Fields A β : Type}

/-! ## What is to hold -/

/-- Whether the circuit of a candidate was open when it was looked at. -/
def Visit.opened (v : Visit Fields A) : Bool :=
  v.before.breaker.isOpen v.before.now v.candidate.providerId

/-- The candidates are looked at in their order, each at most once; one is tried if its
circuit is closed and it is not too late; and the next one is reached exactly if one was
skipped or its attempt failed in a way that lets the chain go on. -/
structure TriedInOrder (attempt : LLMCandidate Fields → A) (isLate : Rat → Prop)
    (fails : A → Prop) (candidates : List (LLMCandidate Fields))
    (visits : List (Visit Fields A)) : Prop where
  in_order : visits.map Visit.candidate <+: candidates
  starts : visits ≠ []
  attempted : ∀ v ∈ visits, ∀ a, v.event = .attempted a →
    a = attempt v.candidate ∧ v.opened = false ∧ ¬isLate v.before.now
  skipped : ∀ v ∈ visits, v.event = .skipped → v.opened = true
  late : ∀ v ∈ visits, v.event = .late → isLate v.before.now
  next : ∀ i v, visits[i]? = some v → i + 1 < candidates.length →
    (i + 1 < visits.length ↔ v.event = .skipped ∨ ∃ a, v.event = .attempted a ∧ fails a)

/-- An attempt of `complete` after which the next candidate is tried. -/
def LeadsOn (adapter : ResilientLLMAdapter Fields) (a : Attempt β) : Prop :=
  a.outcome = .error .timeout ∨
    ∃ e, a.outcome = .error (.llmError e) ∧ e.code ∈ adapter.config.fallbackErrorCodes

/-- Some visit is an attempt that succeeds with this value. -/
def Succeeds (outcome : A → Except Failure β) (v : Visit Fields A) (value : β) : Prop :=
  ∃ a, v.event = .attempted a ∧ outcome a = .ok value

/-- What `complete` does. -/
structure CompletesInOrder (adapter : ResilientLLMAdapter Fields) (request : LLMRequest Fields)
    (started : Rat) (run : Run Fields (Attempt LLMResponse) LLMResponse) : Prop where
  tried : TriedInOrder
    (fun candidate => candidate.adapter.complete (adapter.requestForCandidate request candidate))
    (fun now => adapter.remaining started now ≤ 0) (LeadsOn adapter) adapter.candidates run.visits
  result : ∀ response, run.result = .ok response ↔ ∃ v ∈ run.visits, ∃ r,
    Succeeds Attempt.outcome v r ∧ adapter.annotateResponse r v.candidate = response
  first : ∀ i v r, run.visits[i]? = some v → Succeeds Attempt.outcome v r →
    i + 1 = run.visits.length

def StreamAttempt.ending (a : StreamAttempt) : Except Failure Unit := a.outcome

/-- The chunks that came of a visit. -/
def Visit.chunks (v : Visit Fields StreamAttempt) : List StreamChunk :=
  match v.event with
  | .attempted attempt => attempt.chunks
  | _ => []

/-- What `stream` does: what is given out comes from the candidate tried last. -/
structure StreamsInOrder (adapter : ResilientLLMAdapter Fields) (request : LLMRequest Fields)
    (run : Run Fields StreamAttempt Unit) : Prop where
  tried : TriedInOrder
    (fun candidate => candidate.adapter.stream (adapter.requestForCandidate request candidate))
    (fun _ => False)
    (fun a => a.chunks = [] ∧ ∃ e, a.outcome = .error (.llmError e) ∧
      e.code ∈ adapter.config.fallbackErrorCodes)
    adapter.candidates run.visits
  output : ∃ earlier last, run.visits = earlier ++ [last] ∧ run.output = last.chunks ∧
    ∀ v ∈ earlier, v.chunks = []
  result : run.result = .ok () ↔
    ∃ v ∈ run.visits, Succeeds StreamAttempt.ending v ()
  first : ∀ i v, run.visits[i]? = some v → Succeeds StreamAttempt.ending v () →
    i + 1 = run.visits.length

/-- The code with which an adapter fails when it is refused with status 429. -/
structure RefusalCodes (py : Python) : Prop where
  complete : ∀ (http : HttpAdapter) parse answers e, http.complete py parse answers = .error e →
    e.statusCode = some 429 → ∃ n response, answers n = .response response ∧
      response.statusCode = 429 ∧ e.code = http.rateLimitCode py response
  stream : ∀ (http : HttpAdapter) read answers e, (http.stream py read answers).2 = .error e →
    e.statusCode = some 429 → ∃ n response, answers n = .response response ∧
      response.statusCode = 429 ∧ e.code = http.rateLimitCode py response
  anthropic : ∀ provider response,
    HttpAdapter.rateLimitCode py ⟨.anthropic, provider⟩ response = "RATE_LIMIT"
  plain : ∀ (http : HttpAdapter) response, providerCode response = none →
    http.rateLimitCode py response = "RATE_LIMIT"

/-! ## One turn -/

theorem not_succeeds {outcome : A → Except Failure β} {a : A} {failure : Failure}
    {candidate : LLMCandidate Fields} {s : Progress} (h : outcome a = .error failure) (value : β) :
    ¬Succeeds outcome ⟨candidate, s, .attempted a⟩ value := by
  rintro ⟨_, hevent, hok⟩
  cases hevent
  rw [h] at hok
  cases hok

namespace ResilientLLMAdapter

variable {adapter : ResilientLLMAdapter Fields} {request : LLMRequest Fields} {started : Rat}
  {s : Progress} {candidate : LLMCandidate Fields}

theorem lookComplete_attempted {a : Attempt LLMResponse}
    (h : (adapter.lookComplete request started s candidate).event = .attempted a) :
    a = candidate.adapter.complete (adapter.requestForCandidate request candidate) ∧
      s.breaker.isOpen s.now candidate.providerId = false ∧
        ¬adapter.remaining started s.now ≤ 0 := by
  simp only [lookComplete] at h
  split at h
  · cases h
  · rename_i hclosed
    split at h
    · cases h
    · rename_i htime
      cases h
      exact ⟨rfl, Bool.eq_false_iff.mpr hclosed, htime⟩

theorem lookComplete_skipped (h : (adapter.lookComplete request started s candidate).event =
    .skipped) : s.breaker.isOpen s.now candidate.providerId = true := by
  simp only [lookComplete] at h
  split at h
  · assumption
  · split at h <;> cases h

theorem lookComplete_late (h : (adapter.lookComplete request started s candidate).event =
    .late) : adapter.remaining started s.now ≤ 0 := by
  simp only [lookComplete] at h
  split at h
  · cases h
  · split at h
    · assumption
    · cases h

theorem goesOn_settleComplete (v : Visit Fields (Attempt LLMResponse)) :
    (adapter.settleComplete started v).goesOn = true ↔
      v.event = .skipped ∨ ∃ a, v.event = .attempted a ∧ LeadsOn adapter a := by
  obtain ⟨candidate, s, event⟩ := v
  cases event with
  | skipped => simp [settleComplete, Turn.goesOn]
  | late => simp [settleComplete, Turn.goesOn]
  | attempted a =>
    simp only [settleComplete, LeadsOn, canFallback, decide_eq_true_eq]
    cases houtcome : a.outcome with
    | ok response => simp [Turn.goesOn, houtcome]
    | error failure =>
      cases failure with
      | timeout => simp [Turn.goesOn, houtcome]
      | llmError e =>
        by_cases hcode : e.code ∈ adapter.config.fallbackErrorCodes <;>
          simp [Turn.goesOn, houtcome, hcode]
      | raised text => simp [Turn.goesOn, houtcome]

/-- A turn that stops the loop gives a response if its attempt succeeded. -/
theorem result_settleComplete {v : Visit Fields (Attempt LLMResponse)}
    {ending : Ending LLMResponse} (h : adapter.settleComplete started v = .stop ending)
    (response : LLMResponse) : ending.result = .ok response ↔
      ∃ r, Succeeds Attempt.outcome v r ∧ adapter.annotateResponse r v.candidate = response := by
  obtain ⟨candidate, s, event⟩ := v
  cases event with
  | skipped => cases h
  | late =>
    cases h
    simp [Succeeds]
  | attempted a =>
    simp only [settleComplete] at h
    cases houtcome : a.outcome with
    | ok r =>
      rw [houtcome] at h
      cases h
      simp [Succeeds, houtcome]
    | error failure =>
      rw [houtcome] at h
      refine iff_of_false ?_ fun ⟨r, hr, _⟩ => not_succeeds houtcome r hr
      cases failure with
      | timeout => cases h
      | llmError e =>
        dsimp only at h
        split at h
        · cases h
        · cases h
          exact nofun
      | raised text =>
        cases h
        exact nofun

theorem lookStream_attempted {a : StreamAttempt}
    (h : (adapter.lookStream request s candidate).event = .attempted a) :
    a = candidate.adapter.stream (adapter.requestForCandidate request candidate) ∧
      s.breaker.isOpen s.now candidate.providerId = false := by
  simp only [lookStream] at h
  split at h
  · cases h
  · rename_i hclosed
    cases h
    exact ⟨rfl, Bool.eq_false_iff.mpr hclosed⟩

theorem lookStream_skipped (h : (adapter.lookStream request s candidate).event = .skipped) :
    s.breaker.isOpen s.now candidate.providerId = true := by
  simp only [lookStream] at h
  split at h
  · assumption
  · cases h

theorem lookStream_not_late : (adapter.lookStream request s candidate).event ≠ .late := by
  simp only [lookStream]
  split <;> exact nofun

theorem goesOn_settleStream (v : Visit Fields StreamAttempt) :
    (adapter.settleStream v).goesOn = true ↔
      v.event = .skipped ∨ ∃ a, v.event = .attempted a ∧ a.chunks = [] ∧
        ∃ e, a.outcome = .error (.llmError e) ∧ e.code ∈ adapter.config.fallbackErrorCodes := by
  obtain ⟨candidate, s, event⟩ := v
  cases event with
  | skipped => simp [settleStream, Turn.goesOn]
  | late => simp [settleStream, Turn.goesOn]
  | attempted a =>
    simp only [settleStream, canFallback, decide_eq_true_eq]
    cases houtcome : a.outcome with
    | ok _ => simp [Turn.goesOn, houtcome]
    | error failure =>
      cases failure with
      | timeout => simp [Turn.goesOn, houtcome]
      | llmError e =>
        by_cases hcode : e.code ∈ adapter.config.fallbackErrorCodes <;>
          cases hchunks : a.chunks <;> simp [Turn.goesOn, houtcome, hcode, hchunks]
      | raised text => simp [Turn.goesOn, houtcome]

theorem result_settleStream {v : Visit Fields StreamAttempt} {ending : Ending Unit}
    (h : adapter.settleStream v = .stop ending) :
    ending.output = v.before.output ++ v.chunks ∧
      (ending.result = .ok () ↔ Succeeds StreamAttempt.ending v ()) := by
  obtain ⟨candidate, s, event⟩ := v
  cases event with
  | skipped => cases h
  | late =>
    cases h
    simp [Succeeds, Visit.chunks]
  | attempted a =>
    simp only [settleStream] at h
    cases houtcome : a.outcome with
    | ok _ =>
      rw [houtcome] at h
      cases h
      simp [Succeeds, Visit.chunks, StreamAttempt.ending, houtcome]
    | error failure =>
      rw [houtcome] at h
      have hending : a.ending = .error failure := houtcome
      have hnone : ¬Succeeds StreamAttempt.ending ⟨candidate, s, .attempted a⟩ () :=
        not_succeeds hending ()
      cases failure with
      | timeout =>
        cases h
        exact ⟨rfl, iff_of_false nofun hnone⟩
      | llmError e =>
        dsimp only at h
        split at h
        · split at h
          · cases h
            exact ⟨rfl, iff_of_false nofun hnone⟩
          · cases h
        · cases h
          exact ⟨rfl, iff_of_false nofun hnone⟩
      | raised text =>
        cases h
        exact ⟨rfl, iff_of_false nofun hnone⟩

/-- A turn after which the loop goes on gives nothing out. -/
theorem output_settleStream {v : Visit Fields StreamAttempt} {t : Progress}
    (h : adapter.settleStream v = .goOn t) : v.chunks = [] ∧ t.output = v.before.output := by
  obtain ⟨candidate, s, event⟩ := v
  have hgoes : (adapter.settleStream ⟨candidate, s, event⟩).goesOn = true := by
    rw [h, Turn.goesOn]
  rcases (goesOn_settleStream _).mp hgoes with hskip | ⟨a, hattempt, hchunks, e, houtcome, hcode⟩
  · obtain rfl : event = .skipped := hskip
    cases h
    exact ⟨rfl, rfl⟩
  · obtain rfl : event = .attempted a := hattempt
    refine ⟨hchunks, ?_⟩
    simp only [settleStream, houtcome, canFallback, hcode, hchunks, decide_true, if_true,
      List.isEmpty_nil, Bool.not_true, Bool.false_eq_true, if_false, List.append_nil] at h
    cases h
    rfl

end ResilientLLMAdapter

/-! ## Whole runs -/

theorem TriedInOrder.of_walk {ρ : Type} {attempt : LLMCandidate Fields → A}
    {isLate : Rat → Prop} {fails : A → Prop}
    {look : Progress → LLMCandidate Fields → Visit Fields A}
    {settle : Visit Fields A → Turn Progress ρ}
    {s : Progress} {candidates : List (LLMCandidate Fields)} (hne : candidates ≠ [])
    (hlook : ∀ s c, (look s c).candidate = c)
    (hattempted : ∀ s c a, (look s c).event = .attempted a →
      a = attempt c ∧ (look s c).opened = false ∧ ¬isLate (look s c).before.now)
    (hskipped : ∀ s c, (look s c).event = .skipped → (look s c).opened = true)
    (hlate : ∀ s c, (look s c).event = .late → isLate (look s c).before.now)
    (hgoes : ∀ v, (settle v).goesOn = true ↔
      v.event = .skipped ∨ ∃ a, v.event = .attempted a ∧ fails a) :
    TriedInOrder attempt isLate fails candidates (walk look settle s candidates).1 where
  in_order := map_walk_prefix hlook
  starts := walk_ne_nil hne
  attempted := forall_mem_walk fun s c _ a h => by
    rw [hlook]
    exact hattempted s c a h
  skipped := forall_mem_walk fun s c _ => hskipped s c
  late := forall_mem_walk fun s c _ => hlate s c
  next := fun i v hv hi => (walk_next hv hi).trans (hgoes v)

namespace ResilientLLMAdapter

variable (adapter : ResilientLLMAdapter Fields) (request : LLMRequest Fields)
  (breaker : CircuitBreaker) (started : Rat)

theorem settleComplete_of_succeeds {v : Visit Fields (Attempt LLMResponse)} {r : LLMResponse}
    (h : Succeeds Attempt.outcome v r) : (adapter.settleComplete started v).goesOn = false := by
  rw [Bool.eq_false_iff, ne_eq, goesOn_settleComplete]
  obtain ⟨a, hevent, hok⟩ := h
  rintro (hskip | ⟨b, hattempt, hleads⟩)
  · rw [hevent] at hskip
    cases hskip
  · rw [hevent] at hattempt
    cases hattempt
    rcases hleads with htime | ⟨e, he, -⟩
    · rw [hok] at htime
      cases htime
    · rw [hok] at he
      cases he

theorem complete_in_order :
    CompletesInOrder adapter request started (adapter.complete request breaker started) where
  tried := TriedInOrder.of_walk (List.cons_ne_nil _ _) (fun _ _ => rfl)
    (fun _ _ _ => lookComplete_attempted) (fun _ _ => lookComplete_skipped)
    (fun _ _ => lookComplete_late) goesOn_settleComplete
  result := fun response =>
    walk_end_iff (Q := fun turn => (afterLoop turn).result = .ok response)
      (fun _ ⟨_, hr, _⟩ => adapter.settleComplete_of_succeeds started hr)
      (fun _ _ hstop => result_settleComplete hstop response) (fun _ => nofun)
  first := fun _ _ _ hv hr => walk_last hv (adapter.settleComplete_of_succeeds started hr)

theorem settleStream_of_succeeds {v : Visit Fields StreamAttempt}
    (h : Succeeds StreamAttempt.ending v ()) : (adapter.settleStream v).goesOn = false := by
  rw [Bool.eq_false_iff, ne_eq, goesOn_settleStream]
  obtain ⟨a, hevent, hok⟩ := h
  rintro (hskip | ⟨b, hattempt, -, e, he, -⟩)
  · rw [hevent] at hskip
    cases hskip
  · rw [hevent] at hattempt
    cases hattempt
    rw [StreamAttempt.ending, he] at hok
    cases hok

/-- While the loop of `stream` goes on, nothing has been given out. -/
theorem output_eq_nil_of_goOn {s t : Progress} (hs : s.output = [])
    {candidate : LLMCandidate Fields}
    (h : adapter.settleStream (adapter.lookStream request s candidate) = .goOn t) :
    t.output = [] :=
  (output_settleStream h).2.trans hs

theorem stream_in_order :
    StreamsInOrder adapter request (adapter.stream request breaker started) where
  tried := TriedInOrder.of_walk (List.cons_ne_nil _ _) (fun _ _ => rfl)
    (fun _ _ _ h => ⟨(lookStream_attempted h).1, (lookStream_attempted h).2, not_false⟩)
    (fun _ _ => lookStream_skipped) (fun _ _ h => absurd h lookStream_not_late)
    goesOn_settleStream
  output := by
    have hquiet : ∀ v : Visit Fields StreamAttempt, (adapter.settleStream v).goesOn = true →
        v.chunks = [] := by
      intro v hgoes
      cases hturn : adapter.settleStream v with
      | goOn t => exact (output_settleStream hturn).1
      | stop ending =>
        rw [hturn] at hgoes
        cases hgoes
    have hbefore : ∀ v ∈ (adapter.stream request breaker started).visits, v.before.output = [] :=
      walk_seen_invariant (I := fun s : Progress => s.output = []) rfl
        (fun s hs c _ t h => adapter.output_eq_nil_of_goOn request hs h) fun s hs c _ => hs
    cases hend : (walk (adapter.lookStream request) adapter.settleStream
        { breaker, now := started } adapter.candidates).2 with
    | goOn t =>
      have hnone : t.output = [] :=
        walk_invariant (I := fun s : Progress => s.output = []) rfl
          (fun s hs c _ t h => adapter.output_eq_nil_of_goOn request hs h) hend
      have hne : (adapter.stream request breaker started).visits ≠ [] :=
        walk_ne_nil (List.cons_ne_nil _ _)
      refine ⟨_, _, (List.dropLast_append_getLast hne).symm, ?_, ?_⟩
      · rw [hquiet _ (walk_goOn hend _ (List.getLast_mem hne)), stream, hend]
        exact hnone
      · exact fun v hv => hquiet v (walk_goOn hend v (List.dropLast_subset _ hv))
    | stop ending =>
      obtain ⟨seen, last, hlog, hlast, hgoes⟩ := walk_stop hend
      have hmem : last ∈ (adapter.stream request breaker started).visits := by
        rw [stream, hlog]
        exact List.mem_append_right _ (List.mem_singleton_self _)
      refine ⟨seen, last, hlog, ?_, fun v hv => hquiet v (hgoes v hv)⟩
      rw [stream, hend, afterLoop, (result_settleStream hlast).1, hbefore last hmem,
        List.nil_append]
  result :=
    walk_end_iff (Q := fun turn => (afterLoop turn).result = .ok ())
      (fun _ hr => adapter.settleStream_of_succeeds hr)
      (fun _ _ hstop => (result_settleStream hstop).2) (fun _ => nofun)
  first := fun _ _ hv hr => walk_last hv (adapter.settleStream_of_succeeds hr)

theorem settleComplete_of_refused {attempt : Attempt LLMResponse} {error : LLMError} {s : Progress}
    {candidate : LLMCandidate Fields} (houtcome : attempt.outcome = .error (.llmError error))
    (h : ¬adapter.canFallback error = true) :
    adapter.settleComplete started ⟨candidate, s, .attempted attempt⟩ =
      .stop ⟨.error error, attempt.meanwhile s.breaker, []⟩ := by
  unfold settleComplete
  simp only [houtcome]
  exact if_neg h

theorem length_visits_of_stop {breaker : CircuitBreaker} {ending : Ending LLMResponse}
    (h : adapter.settleComplete started (adapter.lookComplete request started
      { breaker, now := started } adapter.primary) = .stop ending) :
    (adapter.complete request breaker started).visits.length = 1 :=
  congrArg (fun log => log.1.length) (walk_cons_stop h)

theorem visits_zero (breaker : CircuitBreaker) :
    (adapter.complete request breaker started).visits[0]? =
      some (adapter.lookComplete request started { breaker, now := started } adapter.primary) :=
  walk_cons_head

end ResilientLLMAdapter

/-! ## Refusals -/

theorem refusalCodes (py : Python) : RefusalCodes py where
  complete := by
    intro http parse answers e h hstatus
    obtain ⟨n, response, hanswer, h429, rfl⟩ := HttpAdapter.completeFrom_rateLimited h hstatus
    exact ⟨n, response, hanswer, h429, HttpAdapter.code_rateLimitError response⟩
  stream := by
    intro http read answers e h hstatus
    have hpos : http.streamRetries ≠ 0 := by
      unfold HttpAdapter.streamRetries maxRetries
      split <;> simp
    obtain ⟨n, response, hanswer, h429, rfl⟩ :=
      HttpAdapter.streamFrom_rateLimited (Nat.add_comm 1 _) hpos h hstatus
    exact ⟨n, response, hanswer, h429, HttpAdapter.code_rateLimitError response⟩
  anthropic := fun _ _ => rfl
  plain := by
    intro http response hnone
    rw [HttpAdapter.rateLimitCode, hnone]
    split <;> rfl

/-- **The chain uses the first provider that can answer.** For any candidates, attempts,
breaker and clock, `complete` and `stream` try the candidates in their order, none twice and
none whose circuit is open; the result is that of the first attempt that succeeds, and what a
stream gives out is of one candidate. A refusal leads on if its code is configured. -/
theorem first_provider_that_answers (py : Python) (adapter : ResilientLLMAdapter Fields)
    (request : LLMRequest Fields) (breaker : CircuitBreaker) (started : Rat) :
    CompletesInOrder adapter request started (adapter.complete request breaker started) ∧
      StreamsInOrder adapter request (adapter.stream request breaker started) ∧
      RefusalCodes py :=
  ⟨adapter.complete_in_order request breaker started,
    adapter.stream_in_order request breaker started, refusalCodes py⟩

/-! ## An account that is rate limited -/

/-- The answer of a provider whose account makes too many requests. -/
def tooManyRequests : HttpResponse where
  statusCode := 429
  text := ""
  json := some (.obj (.cons "error" (.obj (.cons "code" (.str "1302")
    (.cons "message" (.str "too many requests") .nil))) .nil))

def plainPython : Python := ⟨fun _ => none, fun _ => ""⟩

/-- It has given this answer to each attempt. -/
def refusedCandidate : LLMCandidate Unit where
  providerId := "zhipu"
  model := "glm-5.1"
  adapter :=
    { complete := fun _ =>
        { outcome :=
            (HttpAdapter.complete plainPython ⟨.openaiCompat, "openai_compat"⟩
              (fun _ => .ok ⟨"", [], {}, .nil⟩) fun _ => .response tooManyRequests).mapError
              .llmError
          endedAt := 1 }
      stream := fun _ => { outcome := .ok (), endedAt := 1, chunks := [] } }

/-- A router with the default settings; the second provider would answer. -/
def zhipuThenKimi : ResilientLLMAdapter Unit where
  primary := refusedCandidate
  fallbacks :=
    [{ providerId := "kimi"
       model := "kimi-k2.6"
       adapter :=
        { complete := fun _ => { outcome := .ok ⟨"ok", [], {}, .nil⟩, endedAt := 2 }
          stream := fun _ => { outcome := .ok (), endedAt := 2, chunks := [] } } }]
  config := ({} : RoutingSettings).config

theorem fallbackErrorCodes_default : ({} : RoutingSettings).config.fallbackErrorCodes =
    ["NETWORK_ERROR", "RATE_LIMIT", "RATE_LIMIT_1113", "RATE_LIMIT_1305", "RATE_LIMIT_1312",
      "SERVER_ERROR"] := by
  unfold RoutingSettings.config csvList
  rw [String.toList_ofList]
  decide +kernel

/-- A refusal with status 429 need not lead to the next candidate, though `RATE_LIMIT` is
configured: the code 1302 of the body is appended to it. -/
theorem refusal_not_always_next : ¬∀ (adapter : ResilientLLMAdapter Unit)
    (request : LLMRequest Unit) (breaker : CircuitBreaker) (started : Rat),
    "RATE_LIMIT" ∈ adapter.config.fallbackErrorCodes →
    ∀ i v a e, (adapter.complete request breaker started).visits[i]? = some v →
      v.event = .attempted a → a.outcome = .error (.llmError e) → e.statusCode = some 429 →
      i + 1 < adapter.candidates.length →
      i + 1 < (adapter.complete request breaker started).visits.length := by
  intro h
  let request : LLMRequest Unit := ⟨"", ()⟩
  let visit := zhipuThenKimi.lookComplete request 0 { breaker := zhipuThenKimi.breaker, now := 0 }
    zhipuThenKimi.primary
  let error := HttpAdapter.rateLimitError plainPython ⟨.openaiCompat, "openai_compat"⟩
    tooManyRequests
  have htime : ¬zhipuThenKimi.remaining 0 0 ≤ 0 := by decide +kernel
  have hevent : visit.event = .attempted (refusedCandidate.adapter.complete request) := by
    simp only [visit, ResilientLLMAdapter.lookComplete, htime, if_false]
    rfl
  have hcodes : zhipuThenKimi.config.fallbackErrorCodes = _ := fallbackErrorCodes_default
  have hrefused : ¬zhipuThenKimi.canFallback error = true := by
    rw [ResilientLLMAdapter.canFallback, hcodes]
    decide +kernel
  have houtcome : (refusedCandidate.adapter.complete request).outcome =
      .error (.llmError error) := rfl
  have hstop : ∃ ending, zhipuThenKimi.settleComplete 0 visit = .stop ending := by
    show ∃ ending, zhipuThenKimi.settleComplete 0 ⟨_, _, visit.event⟩ = _
    rw [hevent]
    exact ⟨_, zhipuThenKimi.settleComplete_of_refused 0 houtcome hrefused⟩
  have hlength : (zhipuThenKimi.complete request zhipuThenKimi.breaker 0).visits.length = 1 := by
    obtain ⟨ending, hending⟩ := hstop
    exact zhipuThenKimi.length_visits_of_stop request 0 hending
  have hconfigured : "RATE_LIMIT" ∈ zhipuThenKimi.config.fallbackErrorCodes := by
    rw [hcodes]
    decide
  have hnext := h zhipuThenKimi request zhipuThenKimi.breaker 0 hconfigured 0 visit
    (refusedCandidate.adapter.complete request) error
    (zhipuThenKimi.visits_zero request 0 _) hevent rfl rfl (by decide)
  rw [hlength] at hnext
  exact absurd hnext (by decide)

end NeuralHub.Adapters.Resilient
