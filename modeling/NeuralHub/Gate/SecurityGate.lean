/-
NeuralHub.Gate.SecurityGate — the security gate with its payloads and
time stamps, as a machine of its four operations.

`AgentLoop.ToolPhase` has the gate as one stage of a turn: the signature
is a parameter there, and the time stamp is left out. Here the payload is
written out, name, arguments as JSON, sequence number and time stamp
joined by `|`, and only `mac`, the HMAC-SHA256 under the session key, is a
parameter. Without the time stamps it is the gate of `ToolPhase`
(`authorizeFrom_plain`).

`payload_injective` says that a payload determines the four values it is
made of, although a name and a JSON string may hold a `|`. The ledger
keeps what was signed for a caller and what `verify` accepted.
-/
import NeuralHub.AgentLoop.ToolPhase
import NeuralHub.Lib.Json

namespace NeuralHub.Gate

open NeuralHub.Lib
open NeuralHub.AgentLoop (SecurityPolicy ToolDefinition ToolResult)

/-! ## Signed calls -/

/-- `arguments` is `none` when `json.dumps` refuses them, or when the text
of the call cannot be encoded. -/
structure ToolCall where
  id : String
  name : String
  arguments : Option Members
  deriving DecidableEq, Repr

structure SignedToolCall where
  toolCall : ToolCall
  sequence : Int
  timestamp : PyFloat
  signature : String
  deriving DecidableEq, Repr

/-- HMAC-SHA256 under the session key of the gate, as hexadecimal digits. -/
abbrev Mac := List Char → String

/-- `_payload`. -/
def payload (call : ToolCall) (sequence : Int) (timestamp : PyFloat) : Option (List Char) :=
  call.arguments.map fun arguments =>
    call.name.toList ++ '|' :: ((Json.obj arguments).dumps ++
      '|' :: (decimal sequence ++ '|' :: timestamp.repr))

/-- `_sign`. -/
def sign (mac : Mac) (call : ToolCall) (sequence : Int) (timestamp : PyFloat) : Option String :=
  (payload call sequence timestamp).map mac

/-- The signature is the one of the gate. -/
def SignedToolCall.Valid (mac : Mac) (c : SignedToolCall) : Prop :=
  sign mac c.toolCall c.sequence c.timestamp = some c.signature

instance (mac : Mac) : DecidablePred (SignedToolCall.Valid mac) :=
  fun c => inferInstanceAs
    (Decidable (sign mac c.toolCall c.sequence c.timestamp = some c.signature))

/-! ## The gate -/

structure SecurityGate where
  policy : SecurityPolicy
  sequence : Nat := 0
  verifiedSequences : List Int := []
  deriving DecidableEq, Repr

structure AuthorizeResult where
  signedCalls : List SignedToolCall := []
  rejectedResults : List ToolResult := []
  pendingApproval : List ToolCall := []
  deriving DecidableEq, Repr

/-- The call as `ToolPhase` has it, with its arguments as their text. -/
def ToolCall.plain (call : ToolCall) : AgentLoop.ToolCall :=
  { id := call.id
    name := call.name
    arguments := String.ofList (call.arguments.elim [] fun arguments =>
      (Json.obj arguments).dumps) }

namespace SecurityGate

/-- The next sequence number, and the call signed with it at the time `now`. -/
def signNext (mac : Mac) (now : PyFloat) (g : SecurityGate) (call : ToolCall) :
    SecurityGate × Option SignedToolCall :=
  let sequence := g.sequence + 1
  ({ g with sequence },
    (sign mac call sequence now).map fun signature =>
      { toolCall := call, sequence, timestamp := now, signature })

/-- `_reject_reason`. -/
def rejectReason (g : SecurityGate) (tools : List ToolDefinition) (call : ToolCall)
    (signedCount : Nat) : String :=
  AgentLoop.SecurityGate.rejectReason { policy := g.policy } tools call.plain signedCount

/-- The loop of `authorize`. `clock` has the time at which a sequence number
is given out; `none` is `SECURITY_AUTHORIZE_FAILED`. -/
def authorizeFrom (mac : Mac) (tools : List ToolDefinition) (clock : Nat → PyFloat) :
    SecurityGate → AuthorizeResult → List ToolCall → SecurityGate × Option AuthorizeResult
  | g, acc, [] => (g, some acc)
  | g, acc, call :: calls =>
      let reason := g.rejectReason tools call acc.signedCalls.length
      if "requires_approval:".toList.isPrefixOf reason.toList then
        authorizeFrom mac tools clock g
          { acc with pendingApproval := acc.pendingApproval ++ [call] } calls
      else if reason ≠ "" then
        authorizeFrom mac tools clock g
          { acc with
            rejectedResults := acc.rejectedResults ++
              [AgentLoop.SecurityGate.rejectedResult call.plain reason] } calls
      else
        match g.signNext mac (clock (g.sequence + 1)) call with
        | (g, none) => (g, none)
        | (g, some signed) =>
            authorizeFrom mac tools clock g
              { acc with signedCalls := acc.signedCalls ++ [signed] } calls

def authorize (mac : Mac) (tools : List ToolDefinition) (clock : Nat → PyFloat)
    (g : SecurityGate) (calls : List ToolCall) : SecurityGate × Option AuthorizeResult :=
  authorizeFrom mac tools clock g {} calls

/-- The loop of `force_sign`; `none` is `SECURITY_FORCE_SIGN_FAILED`. -/
def forceSignFrom (mac : Mac) (clock : Nat → PyFloat) :
    SecurityGate → List SignedToolCall → List ToolCall →
      SecurityGate × Option (List SignedToolCall)
  | g, signed, [] => (g, some signed)
  | g, signed, call :: calls =>
      match g.signNext mac (clock (g.sequence + 1)) call with
      | (g, none) => (g, none)
      | (g, some c) => forceSignFrom mac clock g (signed ++ [c]) calls

def forceSign (mac : Mac) (clock : Nat → PyFloat) (g : SecurityGate) (calls : List ToolCall) :
    SecurityGate × Option (List SignedToolCall) :=
  forceSignFrom mac clock g [] calls

def verify (mac : Mac) (g : SecurityGate) (c : SignedToolCall) : SecurityGate × Bool :=
  if c.Valid mac ∧ c.sequence ∉ g.verifiedSequences then
    ({ g with verifiedSequences := c.sequence :: g.verifiedSequences }, true)
  else (g, false)

/-- The session key stays. -/
def reset (g : SecurityGate) : SecurityGate := { g with sequence := 0, verifiedSequences := [] }

end SecurityGate

/-! ## The operations of one gate -/

inductive Action where
  | authorize (tools : List ToolDefinition) (clock : Nat → PyFloat) (calls : List ToolCall)
  | forceSign (clock : Nat → PyFloat) (calls : List ToolCall)
  | verify (c : SignedToolCall)
  | reset

/-- The gate behind an operation. -/
def SecurityGate.apply (mac : Mac) (g : SecurityGate) : Action → SecurityGate
  | .authorize tools clock calls => (g.authorize mac tools clock calls).1
  | .forceSign clock calls => (g.forceSign mac clock calls).1
  | .verify c => (g.verify mac c).1
  | .reset => g.reset

def machine (mac : Mac) : Machine SecurityGate Action := ⟨fun g a => some (g.apply mac a)⟩

/-- What the callers of a gate have got: the calls signed for them and the
calls accepted by `verify`, since the last reset and before it. -/
structure Ledger where
  issued : List SignedToolCall := []
  acceptedSince : List SignedToolCall := []
  acceptedBefore : List SignedToolCall := []
  deriving DecidableEq, Repr

namespace Ledger

def accepted (l : Ledger) : List SignedToolCall := l.acceptedSince ++ l.acceptedBefore

def issue (l : Ledger) (signed : List SignedToolCall) : Ledger :=
  { l with issued := l.issued ++ signed }

def accept (l : Ledger) (c : SignedToolCall) : Ledger :=
  { l with acceptedSince := c :: l.acceptedSince }

def reset (l : Ledger) : Ledger :=
  { l with acceptedSince := [], acceptedBefore := l.accepted }

/-- A failed `authorize` or `force_sign` gives its caller nothing. -/
def record (mac : Mac) (g : SecurityGate) (l : Ledger) : Action → Ledger
  | .authorize tools clock calls =>
      l.issue ((g.authorize mac tools clock calls).2.elim [] AuthorizeResult.signedCalls)
  | .forceSign clock calls => l.issue ((g.forceSign mac clock calls).2.getD [])
  | .verify c => if (g.verify mac c).2 then l.accept c else l
  | .reset => l.reset

end Ledger

def ledgered (mac : Mac) : Machine (SecurityGate × Ledger) Action :=
  (machine mac).withHistory fun g a _ l => l.record mac g a

/-! ## The payload -/

theorem outsideChar_separator : outsideChar '|' = false := by decide

theorem separator_notMem_repr (x : PyFloat) : '|' ∉ x.repr := by
  cases x with
  | nan => decide
  | inf => decide
  | negInf => decide
  | finite x =>
    intro hmem
    exact absurd (List.all_eq_true.mp x.chars '|' hmem) (by decide)

theorem separator_notMem_decimal (n : Int) : '|' ∉ decimal n := by
  intro hmem
  exact absurd (intChar_decimal n '|' hmem) (by decide)

/-- Two calls of one payload agree in everything that is signed. -/
theorem payload_injective {c d : ToolCall} {m n : Int} {t u : PyFloat} {p : List Char}
    (hc : payload c m t = some p) (hd : payload d n u = some p) :
    c.name = d.name ∧ c.arguments.map Members.sorted = d.arguments.map Members.sorted ∧
      m = n ∧ t = u := by
  obtain ⟨xs, hxs, hp⟩ := Option.map_eq_some_iff.mp hc
  obtain ⟨ys, hys, hq⟩ := Option.map_eq_some_iff.mp hd
  -- from the right: the time stamp and the sequence number hold no separator
  have heq : (c.name.toList ++ '|' :: (Json.obj xs).dumps ++ '|' :: decimal m) ++ '|' :: t.repr =
      (d.name.toList ++ '|' :: (Json.obj ys).dumps ++ '|' :: decimal n) ++ '|' :: u.repr := by
    simp only [List.append_assoc, List.cons_append]
    rw [hp, hq]
  obtain ⟨hfront, htime⟩ := append_separator_injective (separator_notMem_repr t)
    (separator_notMem_repr u) heq
  obtain ⟨hcall, hsequence⟩ := append_separator_injective (separator_notMem_decimal m)
    (separator_notMem_decimal n) hfront
  -- the rest is a name and a text of JSON
  obtain ⟨hname, harguments⟩ := Json.append_text_injective outsideChar_separator (by decide)
    (by decide) hcall
  refine ⟨String.toList_inj.mp hname, ?_, decimal_injective hsequence,
    PyFloat.repr_injective htime⟩
  rw [hxs, hys, Option.map_some, Option.map_some]
  exact congrArg some (Json.obj.inj harguments)

/-! ## Without the time stamps -/

/-- The signature as a parameter of `ToolPhase`, for given times. -/
def plainSign (mac : Mac) (clock : Nat → PyFloat) : AgentLoop.Sign := fun call sequence =>
  some (mac (call.name.toList ++ '|' :: (call.arguments.toList ++
    '|' :: (decimal sequence ++ '|' :: (clock sequence).repr))))

def SignedToolCall.plain (c : SignedToolCall) : AgentLoop.SignedToolCall :=
  { toolCall := c.toolCall.plain, sequence := c.sequence.toNat, signature := c.signature }

def SecurityGate.plain (g : SecurityGate) : AgentLoop.SecurityGate :=
  { policy := g.policy
    sequence := g.sequence
    verifiedSequences := g.verifiedSequences.map Int.toNat }

def AuthorizeResult.plain (a : AuthorizeResult) : AgentLoop.AuthorizeResult :=
  { signedCalls := a.signedCalls.map SignedToolCall.plain
    rejectedResults := a.rejectedResults
    pendingApproval := a.pendingApproval.map ToolCall.plain }

theorem sign_plain (mac : Mac) (clock : Nat → PyFloat) {call : ToolCall}
    (h : call.arguments.isSome = true) (sequence : Nat) :
    sign mac call sequence (clock sequence) = plainSign mac clock call.plain sequence := by
  obtain ⟨arguments, harguments⟩ := Option.isSome_iff_exists.mp h
  simp [sign, payload, plainSign, ToolCall.plain, harguments]

theorem signNext_plain (mac : Mac) (clock : Nat → PyFloat) {call : ToolCall}
    (h : call.arguments.isSome = true) (g : SecurityGate) :
    ∃ signed, g.signNext mac (clock (g.sequence + 1)) call =
        ({ g with sequence := g.sequence + 1 }, some signed) ∧
      AgentLoop.SecurityGate.signNext (plainSign mac clock) g.plain call.plain =
        some (SecurityGate.plain { g with sequence := g.sequence + 1 }, signed.plain) := by
  have hsign := sign_plain mac clock h (g.sequence + 1)
  obtain ⟨signature, hsignature⟩ : ∃ signature,
      plainSign mac clock call.plain (g.sequence + 1) = some signature := ⟨_, rfl⟩
  rw [hsignature] at hsign
  refine ⟨{ toolCall := call, sequence := (g.sequence + 1 : Nat)
            timestamp := clock (g.sequence + 1), signature }, ?_, ?_⟩
  · simp only [SecurityGate.signNext, hsign, Option.map_some]
  · simp only [AgentLoop.SecurityGate.signNext, SecurityGate.plain, hsignature, Option.map_some]
    rfl

/-- Without the time stamps this is the `authorize` of `ToolPhase`. -/
theorem authorizeFrom_plain (mac : Mac) (tools : List ToolDefinition) (clock : Nat → PyFloat)
    {calls : List ToolCall} (hcalls : ∀ c ∈ calls, c.arguments.isSome = true)
    (g : SecurityGate) (acc : AuthorizeResult) :
    ∃ g' a, g.authorizeFrom mac tools clock acc calls = (g', some a) ∧
      AgentLoop.SecurityGate.authorizeFrom (plainSign mac clock) tools g.plain acc.plain
        (calls.map ToolCall.plain) = some (g'.plain, a.plain) := by
  induction calls generalizing g acc with
  | nil => exact ⟨g, acc, rfl, rfl⟩
  | cons call calls ih =>
    have hrest : ∀ c ∈ calls, c.arguments.isSome = true :=
      fun c hc => hcalls c (List.mem_cons_of_mem call hc)
    have hreason : AgentLoop.SecurityGate.rejectReason g.plain tools call.plain
        acc.plain.signedCalls.length = g.rejectReason tools call acc.signedCalls.length := by
      simp only [AuthorizeResult.plain, List.length_map]
      rfl
    simp only [SecurityGate.authorizeFrom, List.map_cons, AgentLoop.SecurityGate.authorizeFrom,
      hreason]
    split
    · obtain ⟨g', a, hnew, hold⟩ := ih hrest g
        { acc with pendingApproval := acc.pendingApproval ++ [call] }
      refine ⟨g', a, hnew, ?_⟩
      rw [← hold]
      simp [AuthorizeResult.plain]
    · split
      · obtain ⟨g', a, hnew, hold⟩ := ih hrest g
          { acc with
            rejectedResults := acc.rejectedResults ++
              [AgentLoop.SecurityGate.rejectedResult call.plain
                (g.rejectReason tools call acc.signedCalls.length)] }
        exact ⟨g', a, hnew, hold⟩
      · obtain ⟨signed, hnext, hplain⟩ :=
          signNext_plain mac clock (hcalls call List.mem_cons_self) g
        rw [hnext, hplain, Option.bind_some]
        obtain ⟨g', a, hnew, hold⟩ := ih hrest { g with sequence := g.sequence + 1 }
          { acc with signedCalls := acc.signedCalls ++ [signed] }
        refine ⟨g', a, hnew, ?_⟩
        rw [← hold]
        simp [AuthorizeResult.plain]

end NeuralHub.Gate
