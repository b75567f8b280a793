/-
NeuralHub.Adapters.Resilient — a chain of providers with fallbacks:
`resilient_adapter.py` and `provider_routing.py`.

`complete` and `stream` go through the candidates and try each one whose
circuit is not open. An attempt is given as what comes of it, when it ends
and what other calls have done to the circuit breaker in the meantime, as
the breaker is shared; the clock only moves while an attempt is awaited. A
candidate is looked at first, and what is seen is then settled, so that the
loops are walks and their logs say which candidates were tried. Left out
are the log lines; which candidates a route has is in `ProviderManager`.
-/
import NeuralHub.Adapters.Requests
import NeuralHub.Lib.Table
import NeuralHub.Lib.Walk

namespace NeuralHub.Adapters.Resilient

open NeuralHub.Lib NeuralHub.Lib.Text

/-! ## The circuit breaker -/

structure CircuitEntry where
  providerId : String
  failures : Nat := 0
  openedUntil : Rat := 0

structure CircuitBreaker where
  threshold : Nat
  openSeconds : Rat
  entries : Table CircuitEntry.providerId := .empty

def CircuitBreaker.isOpen (breaker : CircuitBreaker) (now : Rat) (providerId : String) : Bool :=
  match breaker.entries.find providerId with
  | some entry => now < entry.openedUntil
  | none => false

def CircuitBreaker.recordSuccess (breaker : CircuitBreaker) (providerId : String) :
    CircuitBreaker :=
  { breaker with entries := breaker.entries.erase providerId }

def CircuitBreaker.recordFailure (breaker : CircuitBreaker) (now : Rat) (providerId : String) :
    CircuitBreaker :=
  let entry := (breaker.entries.find providerId).getD { providerId }
  let failures := entry.failures + 1
  let openedUntil :=
    if breaker.threshold ≤ failures then now + breaker.openSeconds else entry.openedUntil
  { breaker with entries := breaker.entries.put { providerId, failures, openedUntil } }

/-! ## Candidates -/

/-- A request; the fields but the model are passed on as they are. -/
structure LLMRequest (Fields : Type) where
  model : String
  fields : Fields

/-- What comes of an attempt, and what the clock and the breaker have become. -/
structure Attempt (β : Type) where
  outcome : Except Failure β
  endedAt : Rat
  meanwhile : CircuitBreaker → CircuitBreaker := id

/-- A stream that was read to its end. -/
structure StreamAttempt extends Attempt Unit where
  chunks : List StreamChunk

structure LLMAdapter (Fields : Type) where
  complete : LLMRequest Fields → Attempt LLMResponse
  stream : LLMRequest Fields → StreamAttempt

structure LLMCandidate (Fields : Type) where
  providerId : String
  model : String
  adapter : LLMAdapter Fields

structure ResilientAdapterConfig where
  fallbackErrorCodes : List String
  deadlineSeconds : Rat := 180
  circuitThreshold : Nat := 3
  circuitSeconds : Rat := 300

structure ResilientLLMAdapter (Fields : Type) where
  primary : LLMCandidate Fields
  fallbacks : List (LLMCandidate Fields)
  config : ResilientAdapterConfig

namespace ResilientLLMAdapter

variable {Fields : Type} (adapter : ResilientLLMAdapter Fields)

def candidates : List (LLMCandidate Fields) := adapter.primary :: adapter.fallbacks

/-- The breaker of a new adapter. -/
def breaker : CircuitBreaker where
  threshold := adapter.config.circuitThreshold
  openSeconds := adapter.config.circuitSeconds

def remaining (started now : Rat) : Rat := adapter.config.deadlineSeconds - (now - started)

def requestForCandidate (request : LLMRequest Fields) (candidate : LLMCandidate Fields) :
    LLMRequest Fields :=
  if candidate.providerId = adapter.primary.providerId then
    { request with model := if request.model ≠ "" then request.model else candidate.model }
  else { request with model := candidate.model }

def canFallback (error : LLMError) : Bool := error.code ∈ adapter.config.fallbackErrorCodes

/-- `{**members, key: value}`. -/
def withMember (members : Members) (key : String) (value : Json) : Members :=
  match members with
  | .nil => .cons key value .nil
  | .cons k v rest =>
    if k = key then .cons k value rest else .cons k v (withMember rest key value)

def annotateResponse (response : LLMResponse) (candidate : LLMCandidate Fields) : LLMResponse :=
  let metadata := withMember response.providerMetadata "selected_provider"
    (.str candidate.providerId)
  let metadata := withMember metadata "selected_model" (.str candidate.model)
  if candidate.providerId ≠ adapter.primary.providerId then
    { response with
      providerMetadata :=
        withMember metadata "fallback_from_provider" (.str adapter.primary.providerId) }
  else { response with providerMetadata := metadata }

/-- `_failed_error`. -/
def failedError (errors : List LLMError) : LLMError :=
  if errors.isEmpty then ⟨"ALL_PROVIDERS_FAILED", "No LLM provider available", "router", none⟩
  else
    let details := errors.map fun error => error.provider ++ ":" ++ error.code
    ⟨"ALL_PROVIDERS_FAILED", String.intercalate "; " details, "router", none⟩

end ResilientLLMAdapter

/-! ## The loops -/

/-- Where a loop stands before a candidate; the chunks are those given out so far. -/
structure Progress where
  breaker : CircuitBreaker
  now : Rat
  errors : List LLMError := []
  output : List StreamChunk := []

/-- What is done with a candidate. -/
inductive Event (A : Type) where
  /-- the circuit is open -/
  | skipped
  /-- the deadline has passed; `stream` has none -/
  | late
  | attempted (attempt : A)

structure Visit (Fields A : Type) where
  candidate : LLMCandidate Fields
  before : Progress
  event : Event A

/-- How a loop was left; `output` is empty for `complete`. -/
structure Ending (β : Type) where
  result : Except LLMError β
  breaker : CircuitBreaker
  output : List StreamChunk := []

structure Run (Fields A β : Type) extends Ending β where
  visits : List (Visit Fields A)

namespace ResilientLLMAdapter

variable {Fields : Type} (adapter : ResilientLLMAdapter Fields) (request : LLMRequest Fields)

/-- Where no candidate has ended the loop, its end raises. -/
def afterLoop {β : Type} : Turn Progress (Ending β) → Ending β
  | .goOn s => ⟨.error (failedError s.errors), s.breaker, s.output⟩
  | .stop ending => ending

/-- A candidate that fails, with an error by which the next one is tried. -/
def failed (s : Progress) (breaker : CircuitBreaker) (now : Rat) (providerId : String)
    (error : LLMError) : Progress :=
  { s with breaker := breaker.recordFailure now providerId, now, errors := s.errors ++ [error] }

/-- The body of the loop of `complete`, up to the end of the attempt. -/
def lookComplete (started : Rat) (s : Progress) (candidate : LLMCandidate Fields) :
    Visit Fields (Attempt LLMResponse) where
  candidate
  before := s
  event :=
    if s.breaker.isOpen s.now candidate.providerId then .skipped
    else if adapter.remaining started s.now ≤ 0 then .late
    else .attempted (candidate.adapter.complete (adapter.requestForCandidate request candidate))

/-- The rest of it. -/
def settleComplete (started : Rat) :
    Visit Fields (Attempt LLMResponse) → Turn Progress (Ending LLMResponse)
  | ⟨_, s, .skipped⟩ => .goOn s
  | ⟨_, s, .late⟩ => .stop ⟨.error (failedError s.errors), s.breaker, []⟩
  | ⟨candidate, s, .attempted attempt⟩ =>
    let breaker := attempt.meanwhile s.breaker
    match attempt.outcome with
    | .ok response =>
      .stop ⟨.ok (adapter.annotateResponse response candidate),
        breaker.recordSuccess candidate.providerId, []⟩
    | .error .timeout =>
      let seconds := (adapter.remaining started s.now).floor
      let error := ⟨"NETWORK_ERROR", s!"LLM call exceeded fallback deadline ({seconds}s)",
        candidate.providerId, none⟩
      .goOn (failed s breaker attempt.endedAt candidate.providerId error)
    | .error (.llmError error) =>
      if adapter.canFallback error then
        .goOn (failed s breaker attempt.endedAt candidate.providerId error)
      else .stop ⟨.error error, breaker, []⟩
    | .error (.raised text) =>
      .stop ⟨.error ⟨"RESILIENT_COMPLETE_ERROR", text, "router", none⟩, breaker, []⟩

def complete (breaker : CircuitBreaker) (started : Rat) :
    Run Fields (Attempt LLMResponse) LLMResponse :=
  let log := walk (adapter.lookComplete request started) (adapter.settleComplete started)
    { breaker, now := started } adapter.candidates
  ⟨afterLoop log.2, log.1⟩

/-- The body of the loop of `stream`, up to the end of the attempt. -/
def lookStream (s : Progress) (candidate : LLMCandidate Fields) :
    Visit Fields StreamAttempt where
  candidate
  before := s
  event :=
    if s.breaker.isOpen s.now candidate.providerId then .skipped
    else .attempted (candidate.adapter.stream (adapter.requestForCandidate request candidate))

/-- The rest of it. -/
def settleStream : Visit Fields StreamAttempt → Turn Progress (Ending Unit)
  | ⟨_, s, .skipped⟩ => .goOn s
  | ⟨_, s, .late⟩ => .stop ⟨.error (failedError s.errors), s.breaker, s.output⟩
  | ⟨candidate, s, .attempted attempt⟩ =>
    let breaker := attempt.meanwhile s.breaker
    let output := s.output ++ attempt.chunks
    let emitted := !attempt.chunks.isEmpty
    match attempt.outcome with
    | .ok () => .stop ⟨.ok (), breaker.recordSuccess candidate.providerId, output⟩
    | .error (.llmError error) =>
      if adapter.canFallback error then
        let s := failed { s with output } breaker attempt.endedAt candidate.providerId error
        if emitted then .stop ⟨.error error, s.breaker, output⟩ else .goOn s
      else .stop ⟨.error error, breaker, output⟩
    | .error .timeout =>
      .stop ⟨.error ⟨"RESILIENT_STREAM_ERROR", "", "router", none⟩, breaker, output⟩
    | .error (.raised text) =>
      .stop ⟨.error ⟨"RESILIENT_STREAM_ERROR", text, "router", none⟩, breaker, output⟩

def stream (breaker : CircuitBreaker) (started : Rat) : Run Fields StreamAttempt Unit :=
  let log := walk (adapter.lookStream request) adapter.settleStream
    { breaker, now := started } adapter.candidates
  ⟨afterLoop log.2, log.1⟩

end ResilientLLMAdapter

/-! ## The settings -/

/-- `_csv_list`. -/
def csvList (value : String) : List String :=
  ((value.toList.splitOn ',').map strip).filterMap fun item =>
    if item ≠ [] then some (String.ofList item) else none

/-- The settings of the router, with their defaults. -/
structure RoutingSettings where
  llmFallbackErrorCodes : String :=
    "NETWORK_ERROR,RATE_LIMIT,RATE_LIMIT_1113,RATE_LIMIT_1305,RATE_LIMIT_1312,SERVER_ERROR"
  llmFallbackDeadlineSeconds : Rat := 180
  llmFallbackCircuitThreshold : Nat := 3
  llmFallbackCircuitSeconds : Rat := 300

/-- The configuration that `get_resilient_adapter` gives to a router. -/
def RoutingSettings.config (settings : RoutingSettings) : ResilientAdapterConfig where
  fallbackErrorCodes := csvList settings.llmFallbackErrorCodes
  deadlineSeconds := settings.llmFallbackDeadlineSeconds
  circuitThreshold := settings.llmFallbackCircuitThreshold
  circuitSeconds := settings.llmFallbackCircuitSeconds

end NeuralHub.Adapters.Resilient
