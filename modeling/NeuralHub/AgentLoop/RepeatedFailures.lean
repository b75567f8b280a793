/-
NeuralHub.AgentLoop.RepeatedFailures — which calls the failure tracker
skips (`failure_recovery.py`).

A run is a sequence of rounds. In each one the tracker splits the calls of
a response, the allowed ones give one result each, and `annotate` records
the results. The log of the run keeps what came of every call that was
allowed.

The tracker knows a call by its signature, and `count_of_run` says what it
counts: the failures of calls with one signature since the last success
of such a call. These are the failures of one call unless another call has
its signature. The arguments go into the signature with their white space
normalised and cut after 237 characters, so such calls are easily found
(`not_skipsRepeated_echo`). A failed result that begins with the header of
the tracker's own results is not counted either.

A call's arguments stand as the text that `json.dumps` prints for them with
sorted keys. It is the same text exactly for equal dictionaries
(`argumentsText_eq_iff`).
-/
import NeuralHub.AgentLoop.ToolPhase
import NeuralHub.Lib.Json
import NeuralHub.Lib.Machine

namespace NeuralHub.AgentLoop

open NeuralHub.Lib

/-! ## Signatures -/

/-- `_shorten`. -/
def shorten (value : List Char) (limit : Nat) : List Char :=
  let normalized := [' '].intercalate (Text.split value)
  if normalized.length ≤ limit then normalized
  else normalized.take (limit - 3) ++ ['.', '.', '.']

def argumentsText (arguments : Members) : String := String.ofList (Json.obj arguments).dumps

theorem argumentsText_eq_iff {a b : Members} :
    argumentsText a = argumentsText b ↔ (Json.obj a).sorted = (Json.obj b).sorted := by
  rw [argumentsText, argumentsText, String.ofList_inj]
  exact ⟨Json.text_injective, congrArg Json.text⟩

/-- `_normalized_args`. -/
def normalizedArgs (arguments : String) : List Char := shorten arguments.toList 240

/-- `_signature`; `hexdigest` is that of SHA-256. -/
def signature (hexdigest : String → List Char) (call : ToolCall) : String :=
  let payload := call.name ++ ":" ++ String.ofList (normalizedArgs call.arguments)
  call.name ++ ":" ++ String.ofList ((hexdigest payload).take 12)

/-- The descriptions of the tracker with its own signatures. -/
def describeBy (hexdigest : String → List Char) (texts : Describe) : Describe :=
  { texts with signature := signature hexdigest }

/-! ## Rounds -/

/-- The calls of a response and what came of those that were allowed. -/
structure Round where
  calls : List ToolCall
  results : List ToolResult
  deriving DecidableEq, Repr

/-- `{call.id: call for call in response.tool_calls}`. -/
def Round.callMap (round : Round) (id : String) : Option ToolCall :=
  round.calls.reverse.find? (·.id == id)

/-- The calls that the results belong to, and whether they failed. -/
def Round.outcomes (round : Round) : List (ToolCall × Bool) :=
  round.results.filterMap fun r => (round.callMap r.toolCallId).map fun call => (call, r.isError)

structure Session where
  tracker : ToolFailureRecoveryTracker
  log : List (ToolCall × Bool) := []
  deriving DecidableEq, Repr

def Session.start (threshold : Int) : Session := { tracker := { threshold } }

variable {env : Describe}

/-- The ids are distinct and every allowed call has its result. -/
def Round.Answered (env : Describe) (s : Session) (round : Round) : Prop :=
  (callIds round.calls).Nodup ∧
    (resultIds round.results).Perm (callIds (s.tracker.splitRepeated env round.calls).1)

instance (s : Session) (round : Round) : Decidable (round.Answered env s) :=
  inferInstanceAs (Decidable (_ ∧ _))

def Session.after (env : Describe) (s : Session) (round : Round) : Session where
  tracker := (s.tracker.annotate env round.callMap
    ((s.tracker.splitRepeated env round.calls).2 ++ round.results)).1
  log := s.log ++ round.outcomes

def rounds (env : Describe) : Machine Session Round :=
  ⟨fun s round => if round.Answered env s then some (s.after env round) else none⟩

theorem rounds_step (env : Describe) (s : Session) (round : Round) (h : round.Answered env s) :
    (rounds env).step s round = some (s.after env round) := if_pos h

/-! ## What is meant -/

/-- The same tool with equal arguments. -/
def ToolCall.same (a b : ToolCall) : Bool := a.name == b.name && a.arguments == b.arguments

/-- One more failure, or none any more. -/
def tally (kind : ToolCall → Bool) (n : Nat) (entry : ToolCall × Bool) : Nat :=
  if kind entry.1 then if entry.2 then n + 1 else 0 else n

/-- How often calls of a kind have failed since one of them last succeeded. -/
def failuresSince (kind : ToolCall → Bool) (log : List (ToolCall × Bool)) : Nat :=
  log.foldl (tally kind) 0

/-- Exactly the calls that failed too often are skipped, and no call that
differs from all that failed. -/
def SkipsRepeated (env : Describe) (s : Session) (round : Round) : Prop :=
  let split := s.tracker.splitRepeated env round.calls
  let repeated := fun call : ToolCall =>
    decide (s.tracker.threshold ≤ failuresSince call.same s.log)
  split.1 = round.calls.filter (fun call => !repeated call) ∧
    resultIds split.2 = callIds (round.calls.filter repeated) ∧
    ∀ call ∈ round.calls, (∀ entry ∈ s.log, entry.2 = true → call.same entry.1 = false) →
      call ∈ split.1

instance (s : Session) (round : Round) : Decidable (SkipsRepeated env s round) :=
  inferInstanceAs (Decidable (_ ∧ _ ∧ _))

/-- No other call of the log has the signature of a call of the round, and no
failed result looks like one of a skipped call. -/
def Distinguishable (env : Describe) (s : Session) (round : Round) : Prop :=
  (∀ call ∈ round.calls, ∀ entry ∈ s.log,
      env.signature entry.1 = env.signature call → call.same entry.1 = true) ∧
    ∀ r ∈ round.results, r.isError = true →
      repeatedFailureHeader.toList.isPrefixOf r.output.toList = false

instance (s : Session) (round : Round) : Decidable (Distinguishable env s round) :=
  inferInstanceAs (Decidable (_ ∧ _))

/-! ## What the tracker counts -/

namespace ToolFailureRecoveryTracker

def countOf (t : ToolFailureRecoveryTracker) (signature : String) : Nat :=
  ((t.find signature).map (·.count)).getD 0

theorem find_filter_ne (t : ToolFailureRecoveryTracker) (signature g : String) :
    (t.states.filter (·.signature != signature)).find? (·.signature == g) =
      if g = signature then none else t.find g := by
  rw [List.find?_filter]
  split
  · rename_i heq
    subst heq
    simp [List.find?_eq_none]
  · rename_i hne
    unfold find
    congr 1
    funext state
    by_cases hstate : state.signature = g
    · simp [hstate, hne]
    · simp [hstate]

theorem countOf_recordSuccess (t : ToolFailureRecoveryTracker) (call : ToolCall) (g : String) :
    (t.recordSuccess env call).countOf g =
      tally (fun c => env.signature c == g) (t.countOf g) (call, false) := by
  unfold countOf find recordSuccess tally
  dsimp only
  rw [find_filter_ne]
  by_cases hg : g = env.signature call
  · simp [hg]
  · have hne : env.signature call ≠ g := fun h => hg h.symm
    simp [hg, hne, find]

/-- The state that is recorded has the signature of the call, and one failure more. -/
theorem recordFailure_state (env : Describe) (t : ToolFailureRecoveryTracker) (call : ToolCall)
    (r : ToolResult) :
    (t.recordFailure env call r).2.signature = env.signature call ∧
      (t.recordFailure env call r).2.count = t.countOf (env.signature call) + 1 := by
  cases hfind : t.find (env.signature call) with
  | none => simp [recordFailure, countOf, hfind]
  | some state =>
    have hstate : state.signature = env.signature call := by
      simpa using List.find?_some hfind
    simp [recordFailure, countOf, hfind, hstate]

theorem countOf_recordFailure (env : Describe) (t : ToolFailureRecoveryTracker) (call : ToolCall)
    (r : ToolResult) (g : String) : (t.recordFailure env call r).1.countOf g =
      tally (fun c => env.signature c == g) (t.countOf g) (call, true) := by
  obtain ⟨hsignature, hcount⟩ := recordFailure_state env t call r
  have hstates : (t.recordFailure env call r).1.find g =
      (t.states.filter (·.signature != env.signature call) ++
        [(t.recordFailure env call r).2]).find? (·.signature == g) := rfl
  rw [countOf, hstates, List.find?_append, find_filter_ne, tally]
  by_cases hg : g = env.signature call
  · subst hg
    simp [hsignature, hcount]
  · have hne : env.signature call ≠ g := fun h => hg h.symm
    simp [hg, hne, hsignature, countOf]

/-- A failed result counts unless it looks like one of a skipped call. -/
theorem countOf_annotateOne (env : Describe) (callMap : String → Option ToolCall)
    (t : ToolFailureRecoveryTracker) (r : ToolResult) (g : String)
    (h : r.isError = true → repeatedFailureHeader.toList.isPrefixOf r.output.toList = false) :
    (t.annotateOne env callMap r).1.countOf g =
      ((callMap r.toolCallId).map fun call => (call, r.isError)).toList.foldl
        (tally fun c => env.signature c == g) (t.countOf g) := by
  unfold annotateOne
  cases hcall : callMap r.toolCallId with
  | none => rfl
  | some call =>
    cases herror : r.isError with
    | false => exact countOf_recordSuccess t call g
    | true =>
      have hcount := countOf_recordFailure env t call r g
      dsimp only
      rw [if_neg (by simp), h herror, if_neg Bool.false_ne_true]
      split <;> exact hcount

theorem threshold_annotateOne (callMap : String → Option ToolCall)
    (t : ToolFailureRecoveryTracker) (r : ToolResult) :
    (t.annotateOne env callMap r).1.threshold = t.threshold := by
  unfold annotateOne
  split
  · rfl
  · split
    · rfl
    · split
      · rfl
      · dsimp only
        split <;> rfl

theorem threshold_annotateFrom (callMap : String → Option ToolCall)
    (t : ToolFailureRecoveryTracker) (results : List ToolResult) :
    (t.annotateFrom env callMap results).1.threshold = t.threshold := by
  induction results generalizing t with
  | nil => rfl
  | cons r rest ih =>
    rw [annotateFrom]
    exact (ih _).trans (threshold_annotateOne callMap t r)

theorem countOf_annotateFrom (callMap : String → Option ToolCall)
    (t : ToolFailureRecoveryTracker) (results : List ToolResult) (g : String)
    (h : ∀ r ∈ results, r.isError = true →
      repeatedFailureHeader.toList.isPrefixOf r.output.toList = false) :
    (t.annotateFrom env callMap results).1.countOf g =
      (results.filterMap fun r => (callMap r.toolCallId).map fun call => (call, r.isError)).foldl
        (tally fun c => env.signature c == g) (t.countOf g) := by
  induction results generalizing t with
  | nil => rfl
  | cons r rest ih =>
    have hone := countOf_annotateOne env callMap t r g (h r List.mem_cons_self)
    rw [annotateFrom]
    dsimp only
    rw [ih _ fun x hx => h x (List.mem_cons_of_mem r hx), hone, List.filterMap_cons]
    cases callMap r.toolCallId <;> rfl

/-- The results of skipped calls are passed through. -/
theorem annotateFrom_skipped (callMap : String → Option ToolCall)
    (t : ToolFailureRecoveryTracker) {skipped : List ToolResult} (rest : List ToolResult)
    (h : ∀ r ∈ skipped, r.isError = true ∧
      repeatedFailureHeader.toList.isPrefixOf r.output.toList = true) :
    (t.annotateFrom env callMap (skipped ++ rest)).1 = (t.annotateFrom env callMap rest).1 := by
  induction skipped with
  | nil => rfl
  | cons r skipped ih =>
    obtain ⟨herror, hheader⟩ := h r List.mem_cons_self
    have hone : (t.annotateOne env callMap r).1 = t := by
      unfold annotateOne
      split
      · rfl
      · rw [herror, hheader]
        rfl
    rw [List.cons_append, annotateFrom]
    dsimp only
    rw [hone, ih fun x hx => h x (List.mem_cons_of_mem r hx)]

/-! ## What is skipped -/

theorem isPrefixOf_buildRepeatedFailureOutput (state : ToolFailureState) :
    repeatedFailureHeader.toList.isPrefixOf (buildRepeatedFailureOutput state).toList = true := by
  rw [buildRepeatedFailureOutput, joinLines, String.intercalate_cons_of_ne_nil (by simp),
    List.isPrefixOf_iff_prefix, String.append_assoc, String.toList_append]
  exact List.prefix_append _ _

theorem splitRepeated_skipped (env : Describe) (t : ToolFailureRecoveryTracker)
    (calls : List ToolCall) :
    ∀ r ∈ (t.splitRepeated env calls).2, r.isError = true ∧
      repeatedFailureHeader.toList.isPrefixOf r.output.toList = true := by
  induction calls with
  | nil => simp [splitRepeated]
  | cons call calls ih =>
    rw [splitRepeated]
    split
    · exact ih
    · split
      · exact ih
      · intro r hr
        rcases List.mem_cons.mp hr with rfl | hr
        · exact ⟨rfl, isPrefixOf_buildRepeatedFailureOutput _⟩
        · exact ih r hr

/-- With a positive threshold, the calls whose signature has reached it are skipped. -/
theorem splitRepeated_eq_filter (env : Describe) {t : ToolFailureRecoveryTracker}
    (hpos : 0 < t.threshold) (calls : List ToolCall) :
    (t.splitRepeated env calls).1 =
        calls.filter (fun call => !decide (t.threshold ≤ t.countOf (env.signature call))) ∧
      resultIds (t.splitRepeated env calls).2 =
        callIds (calls.filter fun call =>
          decide (t.threshold ≤ t.countOf (env.signature call))) := by
  induction calls with
  | nil => exact ⟨rfl, rfl⟩
  | cons call calls ih =>
    obtain ⟨hallowed, hskipped⟩ := ih
    have hfind : t.countOf (env.signature call) =
        ((t.find (env.signature call)).map (·.count)).getD 0 := rfl
    rw [splitRepeated]
    cases hstate : t.find (env.signature call) with
    | none =>
      have hnot : ¬t.threshold ≤ (t.countOf (env.signature call) : Int) := by
        rw [hfind, hstate]
        simpa using hpos
      simp [hnot, hallowed, hskipped]
    | some state =>
      have hcount : t.countOf (env.signature call) = state.count := by rw [hfind, hstate]; rfl
      dsimp only
      split
      · rename_i hbelow
        have hnot : ¬t.threshold ≤ (t.countOf (env.signature call) : Int) := by omega
        simp [hnot, hallowed, hskipped]
      · rename_i hreached
        have hle : t.threshold ≤ (t.countOf (env.signature call) : Int) := by omega
        refine ⟨by simp [hle, hallowed], ?_⟩
        rw [List.filter_cons_of_pos (by simpa using hle)]
        exact congrArg (call.id :: ·) hskipped

end ToolFailureRecoveryTracker

/-! ## Runs -/

/-- The tracker has counted the log, signature by signature. -/
structure Counted (env : Describe) (threshold : Int) (s : Session) : Prop where
  threshold_eq : s.tracker.threshold = threshold
  count : ∀ g, s.tracker.countOf g = failuresSince (fun call => env.signature call == g) s.log

variable {threshold : Int} {s t : Session} {round : Round}

theorem counted_start (env : Describe) (threshold : Int) :
    Counted env threshold (Session.start threshold) := ⟨rfl, fun _ => rfl⟩

theorem Counted.step (hpos : 0 < threshold) (hs : Counted env threshold s)
    (hround : Distinguishable env s round) (hstep : (rounds env).step s round = some t) :
    Counted env threshold t := by
  obtain ⟨-, heq⟩ := Option.ite_none_right_eq_some.mp hstep
  cases heq
  have hskipped := ToolFailureRecoveryTracker.splitRepeated_skipped env s.tracker
    round.calls
  have htracker : (s.after env round).tracker =
      (s.tracker.annotateFrom env round.callMap round.results).1 := by
    rw [Session.after, ToolFailureRecoveryTracker.annotate,
      if_neg (by rw [hs.threshold_eq]; omega)]
    exact ToolFailureRecoveryTracker.annotateFrom_skipped _ _ _ hskipped
  constructor
  · rw [htracker, ToolFailureRecoveryTracker.threshold_annotateFrom, hs.threshold_eq]
  · intro g
    rw [htracker, ToolFailureRecoveryTracker.countOf_annotateFrom _ _ _ g hround.2, hs.count]
    exact List.foldl_append.symm

/-- Two kinds that agree on the log have failed equally often. -/
theorem failuresSince_congr {kind other : ToolCall → Bool} {log : List (ToolCall × Bool)}
    (h : ∀ entry ∈ log, kind entry.1 = other entry.1) :
    failuresSince kind log = failuresSince other log := by
  unfold failuresSince
  refine List.foldl_ext _ _ 0 fun n entry hentry => ?_
  rw [tally, tally, h entry hentry]

theorem failuresSince_eq_zero {kind : ToolCall → Bool} {log : List (ToolCall × Bool)}
    (h : ∀ entry ∈ log, entry.2 = true → kind entry.1 = false) : failuresSince kind log = 0 := by
  unfold failuresSince
  induction log with
  | nil => rfl
  | cons entry log ih =>
    have hentry : tally kind 0 entry = 0 := by
      unfold tally
      cases herror : entry.2 with
      | false => simp
      | true => simp [h entry List.mem_cons_self herror]
    rw [List.foldl_cons, hentry]
    exact ih fun e he => h e (List.mem_cons_of_mem entry he)

theorem same_iff {a b : ToolCall} :
    a.same b = true ↔ a.name = b.name ∧ a.arguments = b.arguments := by
  rw [ToolCall.same, Bool.and_eq_true, beq_iff_eq, beq_iff_eq]

variable {hexdigest : String → List Char} {texts : Describe}

/-- One call has one signature. -/
theorem signature_of_same {a b : ToolCall} (h : a.same b = true) :
    signature hexdigest a = signature hexdigest b := by
  obtain ⟨hname, harguments⟩ := same_iff.mp h
  rw [signature, signature, hname, harguments]

/-- A signature that no other call has counts the failures of its call. -/
theorem Counted.countOf_eq (hs : Counted (describeBy hexdigest texts) threshold s)
    (hround : Distinguishable (describeBy hexdigest texts) s round) {call : ToolCall}
    (hcall : call ∈ round.calls) :
    s.tracker.countOf (signature hexdigest call) = failuresSince call.same s.log := by
  refine (hs.count _).trans (failuresSince_congr fun entry hentry => ?_)
  show (signature hexdigest entry.1 == signature hexdigest call) = call.same entry.1
  cases hsame : call.same entry.1 with
  | true => rw [signature_of_same hsame, beq_self_eq_true]
  | false =>
    have hne : signature hexdigest entry.1 ≠ signature hexdigest call := by
      intro heq
      have htrue := hround.1 call hcall entry hentry heq
      rw [hsame] at htrue
      cases htrue
    exact beq_eq_false_iff_ne.mpr hne

theorem Counted.skipsRepeated (hpos : 0 < threshold)
    (hs : Counted (describeBy hexdigest texts) threshold s)
    (hround : Distinguishable (describeBy hexdigest texts) s round) :
    SkipsRepeated (describeBy hexdigest texts) s round := by
  have hthreshold : 0 < s.tracker.threshold := by rw [hs.threshold_eq]; exact hpos
  obtain ⟨hallowed, hskipped⟩ := ToolFailureRecoveryTracker.splitRepeated_eq_filter
    (describeBy hexdigest texts) hthreshold round.calls
  have hcount : ∀ call ∈ round.calls,
      s.tracker.countOf ((describeBy hexdigest texts).signature call) =
        failuresSince call.same s.log := fun call hcall => hs.countOf_eq hround hcall
  refine ⟨?_, ?_, ?_⟩
  · rw [hallowed]
    exact List.filter_congr fun call hcall => by rw [hcount call hcall]
  · rw [hskipped]
    exact congrArg callIds (List.filter_congr fun call hcall => by rw [hcount call hcall])
  · intro call hcall hdiffers
    rw [hallowed, List.mem_filter, hcount call hcall, failuresSince_eq_zero hdiffers]
    refine ⟨hcall, ?_⟩
    simpa using hthreshold

/-- **Only repeated failures are skipped**, in every run in which the calls
can be told apart by their signatures. -/
theorem skipped_iff_failed_repeatedly (hexdigest : String → List Char) (texts : Describe)
    {threshold : Int} (hpos : 0 < threshold) (run : List Round)
    (h : (rounds (describeBy hexdigest texts)).Meets
      (Distinguishable (describeBy hexdigest texts)) (Session.start threshold) run) :
    (rounds (describeBy hexdigest texts)).Meets (SkipsRepeated (describeBy hexdigest texts))
      (Session.start threshold) run :=
  (rounds (describeBy hexdigest texts)).meets_of_invariant
    (fun _ _ _ hs hround hstep => hs.step hpos hround hstep)
    (fun _ _ hs hround => hs.skipsRepeated hpos hround) (counted_start _ _) h

/-- A call whose payload is the text below, with the SHA-256 of that text. -/
def readMissing (id : String) : ToolCall :=
  ⟨id, "Read", argumentsText (.cons "path" (.str "missing.py") .nil)⟩

def readMissingDigest (payload : String) : List Char :=
  if payload = "Read:\x7b\"path\": \"missing.py\"\x7d" then
    "f9878a7b37a3efcad63399b37795809afb6adda8ab203a960d94db46d8d0f2cc".toList
  else []

def readMissingTexts : Describe :=
  ⟨fun _ => "", fun _ => "Read(missing.py)", fun _ => "FileNotFoundError", fun output => output⟩

/-- Two failures, and a third call that is skipped. -/
theorem skipped_iff_failed_readMissing :
    (rounds (describeBy readMissingDigest readMissingTexts)).Meets
      (SkipsRepeated (describeBy readMissingDigest readMissingTexts)) (Session.start 2)
      [⟨[readMissing "tc_1"], [⟨"tc_1", "FileNotFoundError: missing path", true, []⟩]⟩,
        ⟨[readMissing "tc_2"], [⟨"tc_2", "FileNotFoundError: missing path", true, []⟩]⟩,
        ⟨[readMissing "tc_3"], []⟩] :=
  skipped_iff_failed_repeatedly _ _ (by decide) _ (by decide +kernel)

def echo (id text : String) : ToolCall :=
  ⟨id, "Bash", argumentsText (.cons "command" (.str text) .nil)⟩

/-- Normalised white space makes two commands one. -/
theorem signature_echo (hexdigest : String → List Char) (id id' : String) :
    signature hexdigest (echo id "echo 'a  b'") = signature hexdigest (echo id' "echo 'a b'") := by
  have hargs : normalizedArgs (echo id "echo 'a  b'").arguments =
      normalizedArgs (echo id' "echo 'a b'").arguments := by
    show normalizedArgs (argumentsText (.cons "command" (.str "echo 'a  b'") .nil)) =
      normalizedArgs (argumentsText (.cons "command" (.str "echo 'a b'") .nil))
    decide +kernel
  rw [signature, signature, hargs]
  rfl

/-- After one failure of a command, another one is skipped, whatever the digests are. -/
theorem not_skipsRepeated_echo (hexdigest : String → List Char) (texts : Describe) :
    ¬(rounds (describeBy hexdigest texts)).Meets (SkipsRepeated (describeBy hexdigest texts))
      (Session.start 1)
      [⟨[echo "tc_1" "echo 'a  b'"], [⟨"tc_1", "exit code 1", true, []⟩]⟩,
        ⟨[echo "tc_2" "echo 'a b'"], []⟩] := by
  intro h
  have hstep := rounds_step (describeBy hexdigest texts) (Session.start 1)
    ⟨[echo "tc_1" "echo 'a  b'"], [⟨"tc_1", "exit code 1", true, []⟩]⟩
    ⟨List.nodup_singleton _, .refl _⟩
  have hcounted := (counted_start (describeBy hexdigest texts) 1).step (by decide)
    ⟨fun _ _ _ hentry => absurd hentry List.not_mem_nil, by decide +kernel⟩ hstep
  -- the log holds one failure, of another command
  have hlog : ((Session.start 1).after (describeBy hexdigest texts)
      ⟨[echo "tc_1" "echo 'a  b'"], [⟨"tc_1", "exit code 1", true, []⟩]⟩).log =
        [(echo "tc_1" "echo 'a  b'", true)] := by
    show Round.outcomes _ = _
    decide +kernel
  have hallowed := (h.2 _ hstep).1.2.2 (echo "tc_2" "echo 'a b'") List.mem_cons_self (by
    rw [hlog]
    decide +kernel)
  rw [(ToolFailureRecoveryTracker.splitRepeated_eq_filter _ (by rw [hcounted.threshold_eq]; decide)
    _).1, List.mem_filter, hcounted.count, hcounted.threshold_eq, hlog] at hallowed
  have hsignature : (describeBy hexdigest texts).signature (echo "tc_1" "echo 'a  b'") =
      (describeBy hexdigest texts).signature (echo "tc_2" "echo 'a b'") :=
    signature_echo hexdigest "tc_1" "tc_2"
  simp [failuresSince, tally, hsignature] at hallowed

/-- The SHA-256 of the payload that the two commands share. -/
def echoDigest (payload : String) : List Char :=
  if payload = "Bash:\x7b\"command\": \"echo 'a b'\"\x7d" then
    "9fc680d3508c93557c673a430083719ea0f331a665014bb3645fd4cbf1b656e5".toList
  else []

/-- With the digest that SHA-256 gives. -/
theorem unequal_call_skipped :
    ¬(rounds (describeBy echoDigest readMissingTexts)).Meets
      (SkipsRepeated (describeBy echoDigest readMissingTexts)) (Session.start 1)
      [⟨[echo "tc_1" "echo 'a  b'"], [⟨"tc_1", "exit code 1", true, []⟩]⟩,
        ⟨[echo "tc_2" "echo 'a b'"], []⟩] :=
  not_skipsRepeated_echo echoDigest readMissingTexts

end NeuralHub.AgentLoop
