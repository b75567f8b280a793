/-
NeuralHub.Adapters.Requests — how a call of a provider over HTTP fails:
`errors.py`, `http_error_support.py`, the retries and `_raise_for_status` of
`openai_adapter.py`, `openai_streaming.py`, `ollama_adapter.py` and
`anthropic_adapter.py`.

What the provider answers to each attempt is given, and so is the reading
of a good answer. A status of 429 is an error `RATE_LIMIT`, but an adapter
of the OpenAI family appends the code that the body gives, if it gives one.
-/
import Mathlib.Data.List.Infix
import NeuralHub.Adapters.Streaming

namespace NeuralHub.Adapters

open NeuralHub.Lib NeuralHub.Lib.Text
open NeuralHub.Plan (truthy)

/-! ## Errors -/

structure LLMError where
  code : String
  message : String
  provider : String
  statusCode : Option Nat := none
  deriving DecidableEq, Repr

/-- What a call can raise. -/
inductive Failure where
  | llmError (error : LLMError)
  /-- a `TimeoutError` -/
  | timeout
  /-- another exception, with its text -/
  | raised (text : String)
  deriving DecidableEq, Repr

structure HttpResponse where
  statusCode : Nat
  text : String
  /-- `response.json()`; `none` where it raises -/
  json : Option Json
  deriving DecidableEq, Repr

/-- `type(value).__name__`. -/
def typeName : Json → String
  | .null => "NoneType"
  | .bool _ => "bool"
  | .int _ => "int"
  | .float _ => "float"
  | .str _ => "str"
  | .arr _ => "list"
  | .obj _ => "dict"

/-- `error_message`; what it returns need not be a text. -/
def errorMessage (response : HttpResponse) : Json :=
  match response.json with
  | some (.obj data) =>
    match member data "error" (.obj .nil) with
    | .obj error => member error "message" (.str response.text)
    | _ => .str response.text
  | _ => .str response.text

/-- `CONTEXT_OVERFLOW_MARKERS`. -/
def contextOverflowMarkers : List String :=
  ["prompt is too long", "context_length_exceeded", "maximum context length",
    "input length and max_tokens exceed"]

def isContextOverflow (message : String) : Bool :=
  contextOverflowMarkers.any fun marker => decide (marker.toList <:+: lower message.toList)

/-! ## The adapters -/

/-- `OpenAICompatAdapter`, `OllamaAdapter` and `AnthropicAdapter`. -/
inductive AdapterKind where
  | openaiCompat
  | ollama
  | anthropic
  deriving DecidableEq, Repr

structure HttpAdapter where
  kind : AdapterKind
  provider : String
  deriving DecidableEq, Repr

/-- `_max_retries` of each of them. -/
def maxRetries : Nat := 3

/-- The code and the message that the body of a refusal gives. -/
def refusal (data : Members) : Json × Json :=
  match member data "error" .null with
  | .obj detail => (member detail "code" .null, member detail "message" .null)
  | _ =>
    let message := member data "message" .null
    (member data "code" .null, if truthy message then message else member data "msg" .null)

/-- The code that an answer with status 429 gives, if it does. -/
def providerCode (response : HttpResponse) : Option Json :=
  match response.json with
  | some (.obj data) => if truthy (refusal data).1 then some (refusal data).1 else none
  | _ => none

/-- `_rate_limit_error` of `OpenAICompatAdapter`, which `OllamaAdapter` inherits. -/
def openaiRateLimitError (py : Python) (provider : String) (response : HttpResponse) :
    LLMError where
  code :=
    match providerCode response with
    | some code => "RATE_LIMIT_" ++ py.str code
    | none => "RATE_LIMIT"
  message :=
    match response.json with
    | some (.obj data) =>
      if truthy (refusal data).2 then py.str (refusal data).2 else "Provider rate limited"
    | _ => "Provider rate limited"
  provider
  statusCode := some 429

namespace HttpAdapter

variable (py : Python) (adapter : HttpAdapter)

def rateLimitError (response : HttpResponse) : LLMError :=
  match adapter.kind with
  | .anthropic => ⟨"RATE_LIMIT", "Anthropic rate limited", adapter.provider, some 429⟩
  | _ => openaiRateLimitError py adapter.provider response

def authMessage : String :=
  match adapter.kind with
  | .anthropic => "Invalid Anthropic API key"
  | _ => "Invalid API key"

def serverMessage : String :=
  match adapter.kind with
  | .anthropic => "Anthropic server error"
  | _ => "Provider server error"

/-- `_raise_for_status`. -/
def raiseForStatus (response : HttpResponse) : Except Failure Unit :=
  let status := response.statusCode
  if status = 429 then .error (.llmError (adapter.rateLimitError py response))
  else if status = 401 then
    .error (.llmError ⟨"AUTH_ERROR", adapter.authMessage, adapter.provider, some 401⟩)
  else if 500 ≤ status ∧ status < 600 then
    .error (.llmError ⟨"SERVER_ERROR", adapter.serverMessage, adapter.provider, some status⟩)
  else if 400 ≤ status then
    match errorMessage response with
    | .str message =>
      let code := if isContextOverflow message then "CONTEXT_OVERFLOW" else "API_ERROR"
      .error (.llmError ⟨code, message, adapter.provider, some status⟩)
    | value => .error (.raised ("'" ++ typeName value ++ "' object has no attribute 'lower'"))
  else .ok ()

end HttpAdapter

/-! ## Attempts -/

/-- What comes of one attempt. -/
inductive HttpAnswer where
  | response (response : HttpResponse)
  /-- an `httpx.RequestError` -/
  | requestError (retryable : Bool) (text : String)
  /-- another exception -/
  | raised (text : String)
  deriving DecidableEq, Repr

/-- What the reading of a good answer can raise; an `LLMError` of it has no status. -/
inductive ReadError where
  | llmError (code message provider : String)
  | requestError (text : String)
  | raised (text : String)
  deriving DecidableEq, Repr

/-- `_RETRYABLE_STATUS_CODES`. -/
def retryableStatusCodes : List Nat := [429, 500, 502, 503, 504]

namespace HttpAdapter

variable (py : Python) (adapter : HttpAdapter)

/-- An exception that is no `LLMError` becomes one, with this code. -/
def wrapped (code : String) : Failure → LLMError
  | .llmError error => error
  | .timeout => ⟨code, "", adapter.provider, none⟩
  | .raised text => ⟨code, text, adapter.provider, none⟩

def readError (code : String) : ReadError → LLMError
  | .llmError code message provider => ⟨code, message, provider, none⟩
  | .requestError text => ⟨"NETWORK_ERROR", text, adapter.provider, none⟩
  | .raised text => ⟨code, text, adapter.provider, none⟩

/-- The attempts of `complete` from one on, of which so many are left. -/
def completeFrom (parse : HttpResponse → Except ReadError LLMResponse)
    (answers : Nat → HttpAnswer) : (left : Nat) → (attempt : Nat) → Except LLMError LLMResponse
  | 0, _ =>
    .error ⟨"COMPLETE_ERROR", "Completion failed without response", adapter.provider, none⟩
  | left + 1, attempt =>
    match answers attempt with
    | .response response =>
      if response.statusCode ∈ retryableStatusCodes ∧ attempt < maxRetries then
        completeFrom parse answers left (attempt + 1)
      else
        match adapter.raiseForStatus py response with
        | .error failure => .error (adapter.wrapped "COMPLETE_ERROR" failure)
        | .ok () =>
          match parse response with
          | .ok result => .ok result
          | .error failure => .error (adapter.readError "COMPLETE_ERROR" failure)
    | .requestError retryable text =>
      if retryable ∧ attempt < maxRetries then
        completeFrom parse answers left (attempt + 1)
      else .error ⟨"NETWORK_ERROR", text, adapter.provider, none⟩
    | .raised text => .error (adapter.wrapped "COMPLETE_ERROR" (.raised text))

def complete (parse : HttpResponse → Except ReadError LLMResponse) (answers : Nat → HttpAnswer) :
    Except LLMError LLMResponse :=
  adapter.completeFrom py parse answers maxRetries 1

/-- How often a stream is requested: `OllamaAdapter` does not repeat a request. -/
def streamRetries : Nat :=
  match adapter.kind with
  | .ollama => 1
  | _ => maxRetries

/-- The attempts of `stream`; of an answer with a good status the chunks are read. -/
def streamFrom (read : HttpResponse → List StreamChunk × Except ReadError Unit)
    (answers : Nat → HttpAnswer) :
    (left : Nat) → (attempt : Nat) → List StreamChunk × Except LLMError Unit
  | 0, _ =>
    let message := (adapter.rateLimitError py ⟨429, "", none⟩).message
    ([], .error ⟨"RATE_LIMIT", message, adapter.provider, some 429⟩)
  | left + 1, attempt =>
    match answers attempt with
    | .response response =>
      if response.statusCode = 429 ∧ attempt < adapter.streamRetries then
        streamFrom read answers left (attempt + 1)
      else
        match adapter.raiseForStatus py response with
        | .error failure => ([], .error (adapter.wrapped "STREAM_ERROR" failure))
        | .ok () =>
          ((read response).1,
            (read response).2.mapError (adapter.readError "STREAM_ERROR"))
    | .requestError _ text => ([], .error ⟨"NETWORK_ERROR", text, adapter.provider, none⟩)
    | .raised text => ([], .error (adapter.wrapped "STREAM_ERROR" (.raised text)))

def stream (read : HttpResponse → List StreamChunk × Except ReadError Unit)
    (answers : Nat → HttpAnswer) : List StreamChunk × Except LLMError Unit :=
  adapter.streamFrom py read answers adapter.streamRetries 1

/-! ## The code of a refusal -/

variable {py adapter}

/-- The code of `_rate_limit_error`: the plain one, unless a body of the OpenAI family
gives its own. -/
def rateLimitCode (py : Python) (adapter : HttpAdapter) (response : HttpResponse) : String :=
  if adapter.kind = .anthropic then "RATE_LIMIT"
  else
    match providerCode response with
    | some code => "RATE_LIMIT_" ++ py.str code
    | none => "RATE_LIMIT"

theorem code_rateLimitError (response : HttpResponse) :
    (adapter.rateLimitError py response).code = rateLimitCode py adapter response := by
  obtain ⟨kind, provider⟩ := adapter
  cases kind <;> rfl

/-- Only a status of 429 is raised as one. -/
theorem raiseForStatus_rateLimited {response : HttpResponse} {failure : Failure} {code : String}
    (h : adapter.raiseForStatus py response = .error failure)
    (hstatus : (adapter.wrapped code failure).statusCode = some 429) :
    response.statusCode = 429 ∧
      adapter.wrapped code failure = adapter.rateLimitError py response := by
  simp only [raiseForStatus] at h
  split at h
  · rename_i h429
    cases h
    exact ⟨h429, rfl⟩
  · rename_i h429
    exfalso
    split at h
    · cases h
      cases hstatus
    · split at h
      · cases h
        exact h429 (Option.some.inj hstatus)
      · split at h
        · split at h
          · cases h
            exact h429 (Option.some.inj hstatus)
          · cases h
            cases hstatus
        · cases h

theorem statusCode_readError (code : String) (failure : ReadError) :
    (adapter.readError code failure).statusCode = none := by
  cases failure <;> rfl

/-- An error of `complete` with status 429 is that of an answer with this status. -/
theorem completeFrom_rateLimited {parse : HttpResponse → Except ReadError LLMResponse}
    {answers : Nat → HttpAnswer} {left attempt : Nat} {e : LLMError}
    (h : adapter.completeFrom py parse answers left attempt = .error e)
    (hstatus : e.statusCode = some 429) :
    ∃ n response, answers n = .response response ∧ response.statusCode = 429 ∧
      e = adapter.rateLimitError py response := by
  induction left generalizing attempt with
  | zero =>
    cases h
    cases hstatus
  | succ left ih =>
    rw [completeFrom] at h
    split at h
    · rename_i response hanswer
      split at h
      · exact ih h
      · split at h
        · rename_i failure hfailure
          cases h
          exact ⟨attempt, response, hanswer, raiseForStatus_rateLimited hfailure hstatus⟩
        · split at h
          · cases h
          · cases h
            rw [statusCode_readError] at hstatus
            cases hstatus
    · split at h
      · exact ih h
      · cases h
        cases hstatus
    · cases h
      cases hstatus

/-- The same of the attempts of `stream`, at least one of which is left. -/
theorem streamFrom_rateLimited {read : HttpResponse → List StreamChunk × Except ReadError Unit}
    {answers : Nat → HttpAnswer} {left attempt : Nat} {e : LLMError}
    (hleft : attempt + left = adapter.streamRetries + 1) (hpos : left ≠ 0)
    (h : (adapter.streamFrom py read answers left attempt).2 = .error e)
    (hstatus : e.statusCode = some 429) :
    ∃ n response, answers n = .response response ∧ response.statusCode = 429 ∧
      e = adapter.rateLimitError py response := by
  induction left generalizing attempt with
  | zero => exact absurd rfl hpos
  | succ left ih =>
    rw [streamFrom] at h
    split at h
    · rename_i response hanswer
      split at h
      · exact ih (by omega) (by omega) h
      · split at h
        · rename_i failure hfailure
          cases h
          exact ⟨attempt, response, hanswer, raiseForStatus_rateLimited hfailure hstatus⟩
        · cases hread : (read response).2 with
          | ok _ =>
            rw [hread] at h
            cases h
          | error failure =>
            rw [hread] at h
            cases h
            rw [statusCode_readError] at hstatus
            cases hstatus
    · cases h
      cases hstatus
    · cases h
      cases hstatus

end HttpAdapter

end NeuralHub.Adapters
