/-
NeuralHub.Compression.Level2Theorems — what the loop of the archiving
leaves, and when the conversation does not get larger by it.

`compactLoop_spec`: with one pass more than there are candidates the loop
ends. The candidates `done` have been archived in their order
(`Archiving`), or a write raised. From this come `touches_only_old` (what
is not archived is as it was, and each stub's file has the output, if no
later stub drew the same name) and `not_larger_iff`: the stubs count no
more tokens than the outputs they stand for, or the loop does not get
through all of them. What a stub counts is read off the output and its path
(`stubSize`, `estimateTokens_stubAt`): the Chinese characters among the
first 800 that are shown and a quarter of all others, with the labels.

Two stubs draw the same name if their ids have the same `safeName` and the
clock shows the same microsecond. A stub can be larger than its output
because 800 characters of a brief may be 800 tokens, and from 501 tokens
on an output is archived. With at most 266 Chinese characters among them it
is not (`stubSizes_le_of_few`).
-/
import NeuralHub.Compression.ArtifactPages
import NeuralHub.Compression.Level2Passes

namespace NeuralHub.Compression

open NeuralHub.Lib
open NeuralHub.AgentLoop (Message ToolCall ToolResult)

variable {env : ArtifactEnv} {threshold : Threshold} {pass : Nat}
  {messages out : List Message} {files files' : ArtifactFiles} {done : List ToolResult}

/-! ## The size of a stub -/

def stubAt (env : ArtifactEnv) (pass : Nat) (result : ToolResult) : ToolResult :=
  stub env.floats result (artifactPath env pass result)

/-- What `_brief_json` clips. -/
def shownJson : Json → List Char
  | .arr items => (Json.arr (firstItems 3 items)).text
  | .obj members => (Json.obj (firstMembers 3 members)).text
  | .str s => s.toList
  | .int n => decimal n
  | .float x => x.repr
  | .bool true => "True".toList
  | .bool false => "False".toList
  | .null => "None".toList

/-- What a brief shows of an output, before it is clipped: of JSON the first three entries or the
value, otherwise the first line, if there is one. -/
def shownText (fl : FloatReading) (output : List Char) : List Char :=
  match parseJson fl output with
  | .value parsed => shownJson parsed
  | _ => if firstLine output ≠ [] then firstLine output else output

/-- The characters of the mark that says how many are left out. -/
def markLength (length : Nat) : Nat := if length ≤ 800 then 0 else 21 + (length - 800).repr.length

/-- The tokens of a stub: ten Chinese characters in the labels, those among the first 800 that are
shown and in the path, and a quarter of all others. -/
def stubSize (env : ArtifactEnv) (pass : Nat) (result : ToolResult) : Nat :=
  let shown := shownText env.floats result.output.toList
  let path := (artifactPath env pass result).toList
  10 + (shown.take 800).countP isCjk + path.countP isCjk +
    ((if result.isError then 12 else 6) + (shown.take 800).countP (fun c => !isCjk c) +
      markLength shown.length + path.countP (fun c => !isCjk c)) / 4

theorem briefJson_eq (v : Json) : briefJson v = clip (shownJson v) 800 := by
  cases v with
  | bool b => cases b <;> rfl
  | null => rfl
  | _ => rfl

theorem extractBrief_eq (fl : FloatReading) (result : ToolResult) :
    extractBrief fl result =
      (if result.isError then "[工具结果摘要:error]\n" else "[工具结果摘要]\n").toList ++
        clip (shownText fl result.output.toList) 800 := by
  unfold extractBrief shownText
  dsimp only
  cases parseJson fl result.output.toList with
  | value parsed => exact congrArg _ (briefJson_eq parsed)
  | invalid => rfl
  | halves => rfl

/-- The mark has digits and Latin letters. -/
theorem countP_mark {p : Char → Bool} (n : Nat) (hdigit : ∀ c : Char, c.isDigit = true → p c = true)
    (hopen : "...[truncated ".toList.all p = true) (hclose : " chars]".toList.all p = true) :
    ("...[truncated " ++ toString n ++ " chars]").toList.countP p = 21 + n.repr.length := by
  have hall : ∀ c ∈ ("...[truncated " ++ toString n ++ " chars]").toList, p c = true := by
    intro c hc
    rw [String.toList_append, String.toList_append, List.mem_append, List.mem_append] at hc
    rcases hc with (hc | hc) | hc
    · exact List.all_eq_true.mp hopen c hc
    · exact hdigit c (Nat.isDigit_of_mem_toDigits (by decide) (by decide)
        (show c ∈ Nat.toDigits 10 n by rwa [← Nat.toList_repr]))
    · exact List.all_eq_true.mp hclose c hc
  rw [List.countP_eq_length.mpr hall, String.length_toList, String.length_append,
    String.length_append]
  show 14 + n.repr.length + 7 = _
  omega

theorem not_isCjk_of_isDigit {c : Char} (h : c.isDigit = true) : isCjk c = false := by
  have hcode : c.toNat ≤ 57 := by
    simp only [Char.isDigit, Bool.and_eq_true, decide_eq_true_eq] at h
    exact h.2
  simp only [isCjk, Bool.or_eq_false_iff, Bool.and_eq_false_iff, decide_eq_false_iff_not]
  omega

theorem countP_not_add (text : List Char) :
    text.countP isCjk + text.countP (fun c => !isCjk c) = text.length := by
  rw [List.length_eq_countP_add_countP isCjk]
  simp

/-- Clipping keeps the Chinese characters among the first 800, and puts a mark behind them. -/
theorem countP_clip (text : List Char) :
    (clip text 800).countP isCjk = (text.take 800).countP isCjk ∧
      (clip text 800).countP (fun c => !isCjk c) =
        (text.take 800).countP (fun c => !isCjk c) + markLength text.length := by
  unfold clip markLength
  split
  · rename_i hshort
    rw [List.take_of_length_le hshort]
    exact ⟨rfl, rfl⟩
  · have hmark := countP_mark (p := fun c => !isCjk c) (text.length - 800)
      (fun c hc => by rw [not_isCjk_of_isDigit hc]; rfl) (by decide) (by decide)
    have hsum := countP_not_add ("...[truncated " ++ toString (text.length - 800) ++ " chars]").toList
    have hall := countP_mark (p := fun _ => true) (text.length - 800) (fun _ _ => rfl) rfl rfl
    rw [List.countP_true] at hall
    rw [List.countP_append, List.countP_append, hmark]
    omega

/-- **What a stub counts.** -/
theorem estimateTokens_stubAt (env : ArtifactEnv) (pass : Nat) (result : ToolResult) :
    estimateTokens (stubAt env pass result).output = stubSize env pass result := by
  obtain ⟨hcjk, hother⟩ := countP_clip (shownText env.floats result.output.toList)
  have hlabel : "\n完整结果: ".toList.countP isCjk = 4 ∧
      "\n完整结果: ".toList.countP (fun c => !isCjk c) = 3 := by decide
  have hhead : (if result.isError then "[工具结果摘要:error]\n" else "[工具结果摘要]\n").toList.countP
      isCjk = 6 ∧ (if result.isError then "[工具结果摘要:error]\n"
        else "[工具结果摘要]\n").toList.countP (fun c => !isCjk c) =
          if result.isError then 9 else 3 := by
    cases result.isError <;> decide
  unfold estimateTokens stubSize
  rw [stubAt, stub]
  simp only [String.toList_append, String.toList_ofList, extractBrief_eq, List.countP_append,
    hcjk, hother, hlabel, hhead]
  cases result.isError <;> simp only [Bool.false_eq_true, if_true, if_false] <;> omega

/-! ## The run of the loop -/

/-- From this pass on the results have been archived one after the other. -/
inductive Archiving (env : ArtifactEnv) : Nat → ArtifactFiles → List Message →
    List ToolResult → ArtifactFiles → List Message → Prop where
  | nil (pass : Nat) (files : ArtifactFiles) (messages : List Message) :
      Archiving env pass files messages [] files messages
  | cons {pass : Nat} {files files' : ArtifactFiles} {messages after out : List Message}
      {result : ToolResult} {text : List Char} {done : List ToolResult}
      (fresh : result.artifacts = [])
      (step : Pass env messages result (stubAt env pass result) after)
      (wrote : written env pass result = some text)
      (rest : Archiving env (pass + 1) (files.set (artifactPath env pass result) text) after
        done files' out) :
      Archiving env pass files messages (result :: done) files' out

/-- The tokens after a pass that archives the result. -/
def tokensAfter (env : ArtifactEnv) (pass tokens : Nat) (result : ToolResult) : Nat :=
  tokens + stubSize env pass result - estimateTokens result.output

/-- The loop gets through all of the results: before each of them the threshold is
exceeded, and each write succeeds. -/
def archivesAll (env : ArtifactEnv) (threshold : Threshold) : Nat → Nat → List ToolResult → Bool
  | _, _, [] => true
  | pass, tokens, result :: rest =>
    threshold.exceeds tokens && (written env pass result).isSome &&
      archivesAll env threshold (pass + 1) (tokensAfter env pass tokens result) rest

/-- How the loop ends, of the candidates that it finds. -/
inductive Ends (env : ArtifactEnv) (threshold : Threshold) (pass : Nat) (files : ArtifactFiles)
    (messages : List Message) (found : List ToolResult) : LoopEnd → Prop where
  | raised (files' : ArtifactFiles)
      (stopped : archivesAll env threshold pass (estimateMessagesTokens messages) found = false) :
      Ends env threshold pass files messages found (.raised files')
  | below {done rest : List ToolResult} {files' : ArtifactFiles} {out : List Message}
      (split : found = done ++ rest)
      (run : Archiving env pass files messages done files' out)
      (stopped : archivesAll env threshold pass (estimateMessagesTokens messages) found = false)
      (low : threshold.exceeds (estimateMessagesTokens out) = false) :
      Ends env threshold pass files messages found (.compacted out files')
  | through {files' : ArtifactFiles} {out : List Message}
      (run : Archiving env pass files messages found files' out)
      (all : archivesAll env threshold pass (estimateMessagesTokens messages) found = true) :
      Ends env threshold pass files messages found (.compacted out files')

theorem estimate_pass {result : ToolResult} {after : List Message}
    (h : Pass env messages result (stubAt env pass result) after) :
    estimateMessagesTokens after =
      tokensAfter env pass (estimateMessagesTokens messages) result := by
  have htokens := h.tokens
  rw [estimateTokens_stubAt] at htokens
  unfold tokensAfter
  omega

/-- A pass before the others. -/
theorem ends_cons {result : ToolResult} {after : List Message} {text : List Char}
    {found : List ToolResult} {e : LoopEnd} (hfresh : result.artifacts = [])
    (hpass : Pass env messages result (stubAt env pass result) after)
    (hwrote : written env pass result = some text)
    (hexceeds : threshold.exceeds (estimateMessagesTokens messages) = true)
    (h : Ends env threshold (pass + 1) (files.set (artifactPath env pass result) text) after
      found e) :
    Ends env threshold pass files messages (result :: found) e := by
  have hall : archivesAll env threshold pass (estimateMessagesTokens messages) (result :: found) =
      archivesAll env threshold (pass + 1) (estimateMessagesTokens after) found := by
    rw [archivesAll, hexceeds, hwrote, estimate_pass hpass]
    rfl
  cases h with
  | raised files' stopped => exact .raised files' (hall.trans stopped)
  | below split run stopped low =>
    exact .below (congrArg (result :: ·) split) (.cons hfresh hpass hwrote run)
      (hall.trans stopped) low
  | through run all => exact .through (.cons hfresh hpass hwrote run) (hall.trans all)

/-- **The loop ends**, after one pass for each candidate at most. -/
theorem compactLoop_spec (env : ArtifactEnv) (threshold : Threshold) (fuel pass : Nat)
    (files : ArtifactFiles) (messages : List Message)
    (hfuel : (candidates env messages).length < fuel) :
    ∃ e, compactLoop env threshold fuel pass files messages = some e ∧
      Ends env threshold pass files messages (candidates env messages) e := by
  induction fuel generalizing pass files messages with
  | zero => exact absurd hfuel (Nat.not_lt_zero _)
  | succ fuel ih =>
    rw [compactLoop]
    cases hexceeds : threshold.exceeds (estimateMessagesTokens messages) with
    | false =>
      rw [if_neg Bool.false_ne_true]
      refine ⟨_, rfl, ?_⟩
      cases hfound : candidates env messages with
      | nil => exact .through (.nil pass files messages) rfl
      | cons result rest =>
        refine .below (List.nil_append _).symm (.nil pass files messages) ?_ hexceeds
        rw [archivesAll, hexceeds]
        rfl
    | true =>
      rw [if_pos rfl]
      rcases compactOldest_spec env pass files messages with
        ⟨hnone, heq⟩ | ⟨result, after, hpass, harchivable, heq⟩
      · rw [heq, hnone]
        exact ⟨_, rfl, .through (.nil pass files messages) rfl⟩
      · have hfresh := (artifacts_of_archivable harchivable).1
        rw [heq, hpass.candidates]
        cases hwrote : written env pass result with
        | none =>
          refine ⟨_, rfl, .raised files ?_⟩
          rw [archivesAll, hwrote, Option.isSome_none, Bool.and_false, Bool.false_and]
        | some text =>
          rw [hpass.candidates, List.length_cons] at hfuel
          obtain ⟨e, he, hends⟩ := ih (pass + 1) (files.set (artifactPath env pass result) text)
            after (Nat.lt_of_succ_lt_succ hfuel)
          exact ⟨e, he, ends_cons hfresh hpass hwrote hexceeds hends⟩

/-! ## What is kept -/

/-- The result is as it was, or it is one of those that were archived. -/
def StubIn (env : ArtifactEnv) (pass : Nat) (done : List ToolResult) (old new : ToolResult) :
    Prop :=
  new = old ∨ ∃ i, done[i]? = some old ∧ new = stubAt env (pass + i) old

theorem fresh_of_archiving (h : Archiving env pass files messages done files' out) :
    ∀ result ∈ done, result.artifacts = [] := by
  induction h with
  | nil => exact fun _ hmem => absurd hmem List.not_mem_nil
  | cons fresh _ _ _ ih => exact List.forall_mem_cons.mpr ⟨fresh, ih⟩

/-- A stub is not archived again. -/
theorem stubIn_cons {result x y z : ToolResult} (hfresh : ∀ r ∈ done, r.artifacts = [])
    (hxy : Replaces result (stubAt env pass result) x y) (hyz : StubIn env (pass + 1) done y z) :
    StubIn env pass (result :: done) x z := by
  rcases hxy with rfl | ⟨rfl, rfl⟩
  · rcases hyz with rfl | ⟨i, hi, rfl⟩
    · exact Or.inl rfl
    · exact Or.inr ⟨i + 1, hi, by rw [Nat.add_right_comm, Nat.add_assoc]⟩
  · rcases hyz with rfl | ⟨i, hi, -⟩
    · exact Or.inr ⟨0, rfl, rfl⟩
    · have hnil := hfresh _ (List.mem_of_getElem? hi)
      exact absurd hnil (List.append_ne_nil_of_right_ne_nil _ (List.cons_ne_nil _ _))

theorem forall₂_comp {α : Type} {R S T : α → α → Prop} {as bs cs : List α}
    (h : ∀ a b c, R a b → S b c → T a c) (hab : List.Forall₂ R as bs)
    (hbc : List.Forall₂ S bs cs) : List.Forall₂ T as cs := by
  induction hab generalizing cs with
  | nil =>
    cases hbc
    exact .nil
  | cons hr _ ih =>
    cases hbc with
    | cons hs htail => exact .cons (h _ _ _ hr hs) (ih htail)

theorem messageKept_comp {R S T : ToolResult → ToolResult → Prop}
    (h : ∀ a b c, R a b → S b c → T a c) {x y z : Message} (hxy : MessageKept R x y)
    (hyz : MessageKept S y z) : MessageKept T x z := by
  refine ⟨?_, forall₂_comp h hxy.results hyz.results⟩
  rw [hyz.same, hxy.same]

/-- What the run keeps of the messages. -/
theorem kept_of_archiving (h : Archiving env pass files messages done files' out) :
    List.Forall₂ (MessageKept (StubIn env pass done)) messages out ∧
      out.drop (messages.length - recentKeepCount) =
        messages.drop (messages.length - recentKeepCount) := by
  induction h with
  | nil pass files messages =>
    exact ⟨List.forall₂_same.mpr fun _ _ => ⟨rfl, List.forall₂_same.mpr fun _ _ => Or.inl rfl⟩, rfl⟩
  | @cons pass _ _ _ _ _ result _ done fresh step _ rest ih =>
    have hresult : ∀ x y z, Replaces result (stubAt env pass result) x y →
        StubIn env (pass + 1) done y z → StubIn env pass (result :: done) x z :=
      fun _ _ _ => stubIn_cons (fresh_of_archiving rest)
    have hmessage : ∀ x y z, MessageKept (Replaces result (stubAt env pass result)) x y →
        MessageKept (StubIn env (pass + 1) done) y z →
        MessageKept (StubIn env pass (result :: done)) x z :=
      fun _ _ _ => messageKept_comp hresult
    refine ⟨forall₂_comp hmessage step.kept ih.1, ?_⟩
    rw [← step.recent, step.kept.length_eq]
    exact ih.2

/-- A file that no stub is written to is as it was. -/
theorem files_of_archiving (h : Archiving env pass files messages done files' out) {path : String}
    (hpath : ∀ i result, done[i]? = some result → artifactPath env (pass + i) result ≠ path) :
    files'.get path = files.get path := by
  induction h with
  | nil => rfl
  | cons _ _ _ _ ih =>
    have hfirst := hpath 0 _ rfl
    rw [Nat.add_zero] at hfirst
    rw [ih fun i result hi => ?_, Dict.get_set_of_ne _ _ hfirst.symm]
    have hnext := hpath (i + 1) result hi
    rwa [Nat.add_comm i 1, ← Nat.add_assoc] at hnext

/-- The file of a stub, if no later stub is written to it. -/
theorem file_of_archiving (h : Archiving env pass files messages done files' out) {i : Nat}
    {old : ToolResult} (hi : done[i]? = some old)
    (hlater : ∀ j result, i < j → done[j]? = some result →
      artifactPath env (pass + j) result ≠ artifactPath env (pass + i) old) :
    ∃ text, files'.get (artifactPath env (pass + i) old) = some text ∧
      written env (pass + i) old = some text := by
  induction h generalizing i with
  | nil => cases hi
  | @cons pass files files' messages after out result text done _ _ wrote rest ih =>
    cases i with
    | zero =>
      cases hi
      refine ⟨text, ?_, wrote⟩
      rw [files_of_archiving rest fun j result hj => ?_, Nat.add_zero, Dict.get_set_self]
      have hnext := hlater (j + 1) result (Nat.succ_pos j) hj
      rwa [Nat.add_comm j 1, ← Nat.add_assoc] at hnext
    | succ i =>
      have hpass : pass + (i + 1) = pass + 1 + i := by omega
      rw [hpass] at hlater ⊢
      refine ih hi fun j result hij hj => ?_
      have hnext := hlater (j + 1) result (Nat.succ_lt_succ hij) hj
      rwa [Nat.add_comm j 1, ← Nat.add_assoc] at hnext

/-- The file has the output: its JSON value, or the output as the member `raw`. -/
def Holds (fl : FloatReading) (text output : List Char) : Prop :=
  fl.load text = artifactValue fl output

instance (fl : FloatReading) (text output : List Char) : Decidable (Holds fl text output) :=
  inferInstanceAs (Decidable (_ = _))

/-- What is written is a value with its doubles. -/
theorem artifactValue_spec {fl : FloatReading} {output : List Char} {w : Json}
    (h : artifactValue fl output = .value w) :
    ∃ v : Json, v.valid = true ∧ w = v.floats fl := by
  unfold artifactValue at h
  split at h
  · exact ⟨rawObject output, valid_rawObject output, (Loaded.value.inj h).symm⟩
  · unfold parseJson at h
    split at h
    · cases h
    · obtain ⟨v, hload, rfl⟩ := FloatReading.load_eq_value h
      exact ⟨v, valid_of_load hload, rfl⟩

theorem holds_of_written {result : ToolResult} {text : List Char}
    (h : written env pass result = some text) :
    Holds env.floats text result.output.toList := by
  unfold written writeArtifact at h
  split at h
  · cases h
  · cases hvalue : artifactValue env.floats result.output.toList with
    | value w =>
      obtain ⟨v, hvalid, rfl⟩ := artifactValue_spec hvalue
      rw [hvalue] at h
      cases h
      rw [Holds, hvalue]
      exact FloatReading.load_laid hvalid
    | _ =>
      rw [hvalue] at h
      cases h

/-! ## Only old outputs -/

/-- The result has gained this artifact and another text. -/
structure Gained (old new : ToolResult) (path : String) : Prop where
  toolCallId : new.toolCallId = old.toolCallId
  isError : new.isError = old.isError
  artifacts : new.artifacts = old.artifacts ++ [path]

instance (old new : ToolResult) (path : String) : Decidable (Gained old new path) :=
  decidable_of_iff (new.toolCallId = old.toolCallId ∧ new.isError = old.isError ∧
    new.artifacts = old.artifacts ++ [path]) ⟨fun h => ⟨h.1, h.2.1, h.2.2⟩,
      fun h => ⟨h.toolCallId, h.isError, h.artifacts⟩⟩

instance (R : ToolResult → ToolResult → Prop) [DecidableRel R] (old new : Message) :
    Decidable (MessageKept R old new) :=
  decidable_of_iff (new = { old with toolResults := new.toolResults } ∧
    List.Forall₂ R old.toolResults new.toolResults) ⟨fun h => ⟨h.1, h.2⟩,
      fun h => ⟨h.same, h.results⟩⟩

/-- The call ends. It leaves the last messages as they are and of the others all but some
results, of which each satisfies `R` with the files that are left; if a write raises it
leaves all as it is. -/
def TouchesOnlyOld (R : ArtifactFiles → ToolResult → ToolResult → Prop) (env : ArtifactEnv)
    (threshold : Threshold) (tools : Option (List String)) (files : ArtifactFiles)
    (messages : List Message) : Prop :=
  let fuel := (candidates env messages).length + 1
  ∃ out files', checkAndCompact env threshold tools fuel files messages = some (out, files') ∧
    List.Forall₂ (MessageKept fun old new => new = old ∨ R files' old new) messages out ∧
    out.drop (messages.length - recentKeepCount) =
      messages.drop (messages.length - recentKeepCount) ∧
    ∀ lost, compactLoop env threshold fuel 0 files messages = some (.raised lost) → out = messages

/-- The file that the `i`-th pass has written to is not written to again. -/
def LastWrite (env : ArtifactEnv) (done : List ToolResult) (i : Nat) (old : ToolResult) : Prop :=
  ∀ j later, i < j → done[j]? = some later → artifactPath env j later ≠ artifactPath env i old

theorem messageKept_mono {R S : ToolResult → ToolResult → Prop} (h : ∀ a b, R a b → S a b)
    {old new : Message} (hkept : MessageKept R old new) : MessageKept S old new :=
  ⟨hkept.same, hkept.results.imp h⟩

theorem messageKept_self {R : ToolResult → ToolResult → Prop} (messages : List Message) :
    List.Forall₂ (MessageKept fun old new => new = old ∨ R old new) messages messages :=
  List.forall₂_same.mpr fun _ _ => ⟨rfl, List.forall₂_same.mpr fun _ _ => Or.inl rfl⟩

/-- A result that was archived, with its file if no later stub was written to it. -/
def SunkIn (env : ArtifactEnv) (done : List ToolResult) (files : ArtifactFiles)
    (old new : ToolResult) : Prop :=
  ∃ i, done[i]? = some old ∧ Gained old new (artifactPath env i old) ∧
    (LastWrite env done i old →
      ∃ text ∈ files.get (artifactPath env i old), Holds env.floats text old.output.toList)

theorem sunk_of_stubIn (h : Archiving env 0 files messages done files' out)
    {old new : ToolResult} (hstub : StubIn env 0 done old new) :
    new = old ∨ SunkIn env done files' old new := by
  rcases hstub with rfl | ⟨i, hi, rfl⟩
  · exact Or.inl rfl
  · rw [Nat.zero_add]
    refine Or.inr ⟨i, hi, ⟨rfl, rfl, rfl⟩, fun hlast => ?_⟩
    obtain ⟨text, hget, hwrote⟩ := file_of_archiving h hi
      (by simpa only [Nat.zero_add, LastWrite] using hlast)
    rw [Nat.zero_add] at hget hwrote
    exact ⟨text, hget, holds_of_written hwrote⟩

/-- **Only old outputs are touched**: of the candidates, which all stand before the last
messages, the first few are archived. -/
theorem touches_only_old (env : ArtifactEnv) (threshold : Threshold)
    (tools : Option (List String)) (files : ArtifactFiles) (messages : List Message) :
    ∃ done, done <+: candidates env messages ∧
      TouchesOnlyOld (SunkIn env done) env threshold tools files messages := by
  unfold TouchesOnlyOld checkAndCompact
  cases hasReadHistory tools with
  | false =>
    exact ⟨[], List.nil_prefix, messages, files, rfl, messageKept_self _, rfl, fun _ _ => rfl⟩
  | true =>
    obtain ⟨e, he, hends⟩ := compactLoop_spec env threshold _ 0 files messages
      (Nat.lt_succ_self _)
    have hdone : ∀ {done out files'}, Archiving env 0 files messages done files' out →
        List.Forall₂ (MessageKept fun old new => new = old ∨ SunkIn env done files' old new)
          messages out :=
      fun run => (kept_of_archiving run).1.imp fun _ _ =>
        messageKept_mono fun _ _ => sunk_of_stubIn run
    simp only [if_true, he, Option.map_some]
    cases hends with
    | raised lost =>
      exact ⟨[], List.nil_prefix, messages, lost, rfl, messageKept_self _, rfl, fun _ _ => rfl⟩
    | @below done rest files' out split run =>
      exact ⟨done, ⟨rest, split.symm⟩, out, files', rfl, hdone run, (kept_of_archiving run).2,
        fun _ h => nomatch h⟩
    | @through files' out run =>
      exact ⟨_, List.prefix_rfl, out, files', rfl, hdone run, (kept_of_archiving run).2,
        fun _ h => nomatch h⟩

/-! ## Names that collide -/

/-- The clock stands still. -/
def frozen : ArtifactEnv where
  directory := "/data/artifacts/s"
  clock _ := "20250101"
  writeFails _ := false
  str _ := ""
  floats := twoLiterals

/-- The tools alone use too much. -/
def always : Threshold := ⟨fun _ => true, fun _ h => h⟩

def reader : Option (List String) := some ["read_history"]

def largeResult (c : Char) : ToolResult := ⟨"a", String.ofList (List.replicate 501 c), false, []⟩

def resultMessage (results : List ToolResult) : Message :=
  ⟨0, .tool, "", .userRequest, false, [], results⟩

def recentMessages : List Message := List.replicate 6 ⟨1, .user, "", .userRequest, false, [], []⟩

theorem toList_largeResult (c : Char) : (largeResult c).output.toList = List.replicate 501 c :=
  String.toList_ofList

theorem estimateTokens_largeResult {c : Char} (h : isCjk c = true) :
    estimateTokens (largeResult c).output = 501 := by
  rw [estimateTokens, toList_largeResult, List.countP_replicate, List.countP_replicate, h]
  rfl

theorem estimateTokens_le_tokenCount (text : String) : estimateTokens text ≤ tokenCount text := by
  unfold tokenCount
  split
  · exact Nat.le_max_right _ _
  · next hempty =>
    rw [Decidable.not_not.mp hempty]
    decide

theorem hasHistoryPath_replicate {c : Char} (h : c ≠ 'd') (n : Nat) :
    hasHistoryPath (List.replicate n c) = false := by
  induction n with
  | zero => rfl
  | succ n ih =>
    rw [List.replicate_succ, hasHistoryPath, ih, Bool.or_false]
    simp [historyRoots, List.isPrefixOf, h.symm]

theorem archivable_largeResult {c : Char} {head : List Message} (hcjk : isCjk c = true)
    (hcalls : head.flatMap (·.toolCalls) = []) : archivable env head (largeResult c) = true := by
  have hne : c ≠ 'd' := by
    rintro rfl
    exact absurd hcjk (by decide)
  have hcount := estimateTokens_le_tokenCount (largeResult c).output
  rw [estimateTokens_largeResult hcjk] at hcount
  have hpath : hasHistoryPath (largeResult c).output.toList = false := by
    rw [toList_largeResult, hasHistoryPath_replicate hne]
  unfold archivable callById shouldArchiveResult
  rw [hcalls, if_neg (by omega), hpath]
  rfl

theorem isCjk_of {c : Char} (h : c = '一' ∨ c = '二') : isCjk c = true := by
  rcases h with rfl | rfl
  · decide
  · decide

theorem parseJson_largeResult {c : Char} (h : c = '一' ∨ c = '二') :
    parseJson twoLiterals (List.replicate 501 c) = .invalid := by
  rcases h with rfl | rfl
  · decide +kernel
  · decide +kernel

theorem artifactValue_largeResult {c : Char} (h : c = '一' ∨ c = '二') :
    artifactValue twoLiterals (largeResult c).output.toList =
      .value (rawObject (List.replicate 501 c)) := by
  rw [toList_largeResult, artifactValue, parseJson_largeResult h]

theorem written_largeResult {c : Char} (h : c = '一' ∨ c = '二') (pass : Nat) :
    written frozen pass (largeResult c) =
      some (rawObject (List.replicate 501 c)).dumpsIndented := by
  rw [written, writeArtifact, show frozen.floats = twoLiterals from rfl,
    artifactValue_largeResult h]
  rfl

theorem candidates_resultMessage (results : List ToolResult)
    (h : ∀ result ∈ results, ∀ head : List Message, head.flatMap (·.toolCalls) = [] →
      archivable env head result = true) :
    candidates env (resultMessage results :: recentMessages) = results := by
  show (results.filter (archivable env [resultMessage results])) ++ [] = results
  rw [List.append_nil, List.filter_eq_self]
  exact fun result hmem => h result hmem _ rfl

theorem compactOldest_resultMessage {results : List ToolResult} (h : results ≠ []) :
    compactOldestLargeToolResult env pass files (resultMessage results :: recentMessages) =
      (archiveResults env pass [resultMessage results] files results).map fun out =>
        (resultMessage out.1 :: recentMessages, out.2) := by
  have hnot : ¬((resultMessage results).role ≠ .tool ∨ (resultMessage results).toolResults = []) :=
    not_or.mpr ⟨fun hrole => hrole rfl, h⟩
  have hhead : archiveOldest env pass [resultMessage results] files [resultMessage results] =
      (archiveResults env pass [resultMessage results] files results).map fun out =>
        ([resultMessage out.1], out.2) := by
    have hresults : (resultMessage results).toolResults = results := rfl
    rw [archiveOldest, if_neg hnot, hresults]
    rcases archiveResults env pass [resultMessage results] files results with
      _ | ⟨out, _ | _, files⟩
    · rfl
    · rfl
    · rfl
  show (archiveOldest env pass [resultMessage results] files [resultMessage results]).map
    (fun out => (out.1 ++ recentMessages, out.2)) = _
  rw [hhead, Option.map_map]
  rfl

theorem archiveResults_largeResult {c : Char} (h : c = '一' ∨ c = '二')
    (results rest : List ToolResult) :
    archiveResults frozen pass [resultMessage results] files (largeResult c :: rest) =
      some (stubAt frozen pass (largeResult c) :: rest, true,
        files.set (artifactPath frozen pass (largeResult c))
          (rawObject (List.replicate 501 c)).dumpsIndented) := by
  have hcjk := isCjk_of h
  have harchivable : archivable frozen [resultMessage results] (largeResult c) = true :=
    archivable_largeResult hcjk rfl
  rw [archiveResults_cons, if_pos harchivable,
    sinkToolResult_eq (artifacts_of_archivable harchivable).2, written_largeResult h]
  rfl

theorem archiveResults_stub (k : Nat) (result : ToolResult) {head : List Message}
    (rest : List ToolResult) :
    archiveResults env pass head files (stubAt env k result :: rest) =
      (archiveResults env pass head files rest).map fun out =>
        (stubAt env k result :: out.1, out.2) := by
  have hnot : ¬archivable env head (stubAt env k result) = true :=
    Bool.eq_false_iff.mp (not_archivable_stub env.floats result (artifactPath env k result))
  rw [archiveResults_cons, if_neg hnot]

theorem compactLoop_step {fuel : Nat} {after : List Message}
    (hexceeds : threshold.exceeds (estimateMessagesTokens messages) = true)
    (hpass : compactOldestLargeToolResult env pass files messages = some (after, true, files')) :
    compactLoop env threshold (fuel + 1) pass files messages =
      compactLoop env threshold fuel (pass + 1) files' after := by
  rw [compactLoop, if_pos hexceeds, hpass]

def twoResults : List Message :=
  resultMessage [largeResult '一', largeResult '二'] :: recentMessages

theorem candidates_twoResults :
    candidates env twoResults = [largeResult '一', largeResult '二'] := by
  refine candidates_resultMessage _ fun result hmem head hcalls => ?_
  simp only [List.mem_cons, List.not_mem_nil, or_false] at hmem
  rcases hmem with rfl | rfl
  · exact archivable_largeResult (isCjk_of (Or.inl rfl)) hcalls
  · exact archivable_largeResult (isCjk_of (Or.inr rfl)) hcalls

theorem path_largeResult (c : Char) (pass : Nat) :
    artifactPath frozen pass (largeResult c) = "/data/artifacts/s/a_20250101.json" := by
  show artifactPath frozen 0 ⟨"a", "", false, []⟩ = _
  decide +kernel

theorem checkAndCompact_twoResults :
    ∃ files', checkAndCompact frozen always reader
        ((candidates frozen twoResults).length + 1) Dict.nil twoResults =
      some (resultMessage [stubAt frozen 0 (largeResult '一'), stubAt frozen 1 (largeResult '二')] ::
        recentMessages, files') ∧
      files'.get "/data/artifacts/s/a_20250101.json" =
        some (rawObject (List.replicate 501 '二')).dumpsIndented := by
  have hreader : hasReadHistory reader = true := by decide
  have hsecond : ∀ files, compactOldestLargeToolResult frozen 1 files
      (resultMessage [stubAt frozen 0 (largeResult '一'), largeResult '二'] :: recentMessages) =
      some (resultMessage [stubAt frozen 0 (largeResult '一'), stubAt frozen 1 (largeResult '二')] ::
        recentMessages, true, files.set "/data/artifacts/s/a_20250101.json"
          (rawObject (List.replicate 501 '二')).dumpsIndented) := by
    intro files
    rw [compactOldest_resultMessage (List.cons_ne_nil _ _), archiveResults_stub,
      archiveResults_largeResult (Or.inr rfl), Option.map_some, Option.map_some, path_largeResult]
  have hlast : ∀ files, compactOldestLargeToolResult frozen 2 files
      (resultMessage [stubAt frozen 0 (largeResult '一'), stubAt frozen 1 (largeResult '二')] ::
        recentMessages) =
      some (resultMessage [stubAt frozen 0 (largeResult '一'), stubAt frozen 1 (largeResult '二')] ::
        recentMessages, false, files) := by
    intro files
    rw [compactOldest_resultMessage (List.cons_ne_nil _ _), archiveResults_stub,
      archiveResults_stub, archiveResults, Option.map_some, Option.map_some, Option.map_some]
  have hfirst : compactOldestLargeToolResult frozen 0 Dict.nil twoResults =
      some (resultMessage [stubAt frozen 0 (largeResult '一'), largeResult '二'] ::
        recentMessages, true, Dict.nil.set "/data/artifacts/s/a_20250101.json"
          (rawObject (List.replicate 501 '一')).dumpsIndented) := by
    rw [twoResults, compactOldest_resultMessage (List.cons_ne_nil _ _),
      archiveResults_largeResult (Or.inl rfl), Option.map_some, path_largeResult]
  have hexceeds : ∀ messages, always.exceeds (estimateMessagesTokens messages) = true :=
    fun _ => rfl
  refine ⟨(Dict.nil.set "/data/artifacts/s/a_20250101.json"
    (rawObject (List.replicate 501 '一')).dumpsIndented).set "/data/artifacts/s/a_20250101.json"
      (rawObject (List.replicate 501 '二')).dumpsIndented, ?_, Dict.get_set_self _ _ _⟩
  rw [candidates_twoResults, checkAndCompact, if_pos hreader, List.length_cons, List.length_cons,
    List.length_nil, compactLoop_step (hexceeds _) hfirst,
    compactLoop_step (hexceeds _) (hsecond _), compactLoop, if_pos (hexceeds _), hlast,
    Option.map_some]

/-- The second of two results of one id is written to the file of the first. -/
theorem not_always_held : ¬ ∀ env threshold tools files messages,
    TouchesOnlyOld (fun files' old new => ∃ path ∈ new.artifacts, Gained old new path ∧
      ∃ text ∈ files'.get path, Holds env.floats text old.output.toList)
      env threshold tools files messages := by
  intro h
  obtain ⟨out, files', hrun, hkept, -⟩ := h frozen always reader Dict.nil twoResults
  obtain ⟨files'', hrun', hfile⟩ := checkAndCompact_twoResults
  rw [hrun'] at hrun
  cases hrun
  rw [twoResults] at hkept
  have hresults := (List.forall₂_cons.mp hkept).1.results
  rcases (List.forall₂_cons.mp hresults).1 with hsame | ⟨path, hmem, -, text, htext, hholds⟩
  · have hartifacts := congrArg ToolResult.artifacts hsame
    cases hartifacts
  · have hartifacts : (stubAt frozen 0 (largeResult '一')).artifacts =
        [artifactPath frozen 0 (largeResult '一')] := rfl
    rw [hartifacts, path_largeResult, List.mem_singleton] at hmem
    rw [hmem, hfile] at htext
    cases htext
    rw [Holds, show frozen.floats = twoLiterals from rfl, artifactValue_largeResult (Or.inl rfl),
      load_rawObject] at hholds
    have hsource := congrArg sourceOf (Loaded.value.inj hholds)
    rw [sourceOf_rawObject, sourceOf_rawObject] at hsource
    exact absurd (List.cons.inj hsource).1 (by decide)

/-! ## The size of the conversation -/

/-- The tokens of the stubs of the results, the first of which is archived in this pass. -/
def stubSizes (env : ArtifactEnv) : Nat → List ToolResult → Nat
  | _, [] => 0
  | pass, result :: rest => stubSize env pass result + stubSizes env (pass + 1) rest

def outputTokens (results : List ToolResult) : Nat :=
  (results.map fun result => estimateTokens result.output).sum

theorem tokens_of_archiving (h : Archiving env pass files messages done files' out) :
    estimateMessagesTokens out + outputTokens done =
      estimateMessagesTokens messages + stubSizes env pass done := by
  induction h with
  | nil => rfl
  | cons _ step _ _ ih =>
    have htokens := step.tokens
    rw [estimateTokens_stubAt] at htokens
    rw [outputTokens] at ih ⊢
    rw [List.map_cons, List.sum_cons, stubSizes]
    omega

/-- A loop that stops because the usage is low enough has made it smaller. -/
theorem smaller_of_low {fuel : Nat}
    (hrun : compactLoop env threshold (fuel + 1) pass files messages =
      some (.compacted out files'))
    (hlow : threshold.exceeds (estimateMessagesTokens out) = false) :
    estimateMessagesTokens out ≤ estimateMessagesTokens messages := by
  cases hexceeds : threshold.exceeds (estimateMessagesTokens messages) with
  | false =>
    rw [compactLoop, hexceeds, if_neg Bool.false_ne_true] at hrun
    cases hrun
    exact Nat.le_refl _
  | true =>
    refine Nat.le_of_not_le fun hle => ?_
    rw [threshold.mono hle hexceeds] at hlow
    cases hlow

/-- **When the conversation does not get larger**: the archiving stops early, or the stubs
of all candidates together are no larger than their outputs. -/
theorem not_larger_iff (env : ArtifactEnv) (threshold : Threshold)
    (tools : Option (List String)) (files : ArtifactFiles) (messages : List Message) :
    ∃ out files', checkAndCompact env threshold tools ((candidates env messages).length + 1)
        files messages = some (out, files') ∧
      (estimateMessagesTokens out ≤ estimateMessagesTokens messages ↔
        (hasReadHistory tools = true →
          archivesAll env threshold 0 (estimateMessagesTokens messages)
            (candidates env messages) = true →
          stubSizes env 0 (candidates env messages) ≤
            outputTokens (candidates env messages))) := by
  unfold checkAndCompact
  cases hasReadHistory tools with
  | false => exact ⟨messages, files, rfl, iff_of_true (Nat.le_refl _) fun h => nomatch h⟩
  | true =>
    obtain ⟨e, he, hends⟩ := compactLoop_spec env threshold _ 0 files messages
      (Nat.lt_succ_self _)
    simp only [if_true, he, Option.map_some, forall_const]
    cases hends with
    | raised lost stopped =>
      refine ⟨messages, lost, rfl, iff_of_true (Nat.le_refl _) fun hall => ?_⟩
      rw [stopped] at hall
      cases hall
    | @below done rest files' out split run stopped low =>
      refine ⟨out, files', rfl, iff_of_true (smaller_of_low he low) fun hall => ?_⟩
      rw [stopped] at hall
      cases hall
    | @through files' out run all =>
      refine ⟨out, files', rfl, ?_⟩
      have htokens := tokens_of_archiving run
      rw [all]
      simp only [forall_const]
      omega

/-! ## Briefs with few Chinese characters -/

/-- With a third of Chinese characters at most, a brief is no larger than what makes an output
large. -/
theorem stubSize_le {result : ToolResult}
    (hfew : ((shownText env.floats result.output.toList).take 800).countP isCjk ≤ 266)
    (hshown : (shownText env.floats result.output.toList).length < 10 ^ 12)
    (hplain : (artifactPath env pass result).toList.countP isCjk = 0)
    (hpath : (artifactPath env pass result).toList.length ≤ 317) :
    stubSize env pass result ≤ 500 := by
  have hmark : markLength (shownText env.floats result.output.toList).length ≤ 33 := by
    unfold markLength
    split
    · exact Nat.zero_le _
    · have hdigits := (Nat.length_repr_le_iff (n := (shownText env.floats
        result.output.toList).length - 800) (k := 12) (by decide)).mpr (by omega)
      omega
  have htake := countP_not_add ((shownText env.floats result.output.toList).take 800)
  have hall := countP_not_add (artifactPath env pass result).toList
  have hlength : ((shownText env.floats result.output.toList).take 800).length ≤ 800 := by
    rw [List.length_take]
    exact Nat.min_le_left _ _
  unfold stubSize
  dsimp only
  split
  · omega
  · omega

theorem lt_estimateTokens_of_mem {result : ToolResult} (h : result ∈ candidates env messages) :
    500 < estimateTokens result.output := by
  obtain ⟨message, -, hmem⟩ := List.mem_flatMap.mp h
  unfold messageCandidates at hmem
  split at hmem
  · have hlarge := (artifacts_of_archivable (List.mem_filter.mp hmem).2).2
    unfold tokenCount at hlarge
    split at hlarge
    · omega
    · omega
  · cases hmem

theorem stubSizes_le_outputTokens {results : List ToolResult}
    (h : ∀ result ∈ results, ∀ pass, stubSize env pass result ≤ estimateTokens result.output)
    (pass : Nat) : stubSizes env pass results ≤ outputTokens results := by
  induction results generalizing pass with
  | nil => exact Nat.le_refl _
  | cons result rest ih =>
    have hfirst := h result List.mem_cons_self pass
    have hrest := ih (fun other hother => h other (List.mem_cons_of_mem result hother)) (pass + 1)
    unfold outputTokens at hrest ⊢
    rw [stubSizes, List.map_cons, List.sum_cons]
    omega

/-- Where all outputs show few Chinese characters and the paths are plain, the stubs are no larger
than the outputs. -/
theorem stubSizes_le_of_few
    (hfew : ∀ result ∈ candidates env messages,
      ((shownText env.floats result.output.toList).take 800).countP isCjk ≤ 266 ∧
        (shownText env.floats result.output.toList).length < 10 ^ 12)
    (hpath : ∀ result pass, (artifactPath env pass result).toList.countP isCjk = 0 ∧
      (artifactPath env pass result).toList.length ≤ 317) :
    stubSizes env 0 (candidates env messages) ≤ outputTokens (candidates env messages) := by
  refine stubSizes_le_outputTokens (fun result hmem pass => ?_) 0
  have hsize := stubSize_le (hfew result hmem).1 (hfew result hmem).2 (hpath result pass).1
    (hpath result pass).2
  exact Nat.le_of_lt (Nat.lt_of_le_of_lt hsize (lt_estimateTokens_of_mem hmem))

/-- Each of the Chinese characters that are shown is a token. -/
theorem countP_lt_stubSize (env : ArtifactEnv) (pass : Nat) (result : ToolResult) :
    ((shownText env.floats result.output.toList).take 800).countP isCjk <
      stubSize env pass result := by
  unfold stubSize
  dsimp only
  omega

theorem shownText_largeResult :
    shownText twoLiterals (List.replicate 501 '一') = List.replicate 501 '一' := by
  have hline : (if firstLine (List.replicate 501 '一') ≠ [] then
      firstLine (List.replicate 501 '一') else List.replicate 501 '一') =
        List.replicate 501 '一' := by decide +kernel
  rw [shownText, parseJson_largeResult (Or.inl rfl)]
  exact hline

/-- A brief of 501 characters that are a token each. -/
theorem lt_stubSize : 501 < stubSize frozen 0 (largeResult '一') := by
  have hlt := countP_lt_stubSize frozen 0 (largeResult '一')
  have hlength : (List.replicate 501 '一').length ≤ 800 := by
    rw [List.length_replicate]
    decide
  rw [toList_largeResult, show frozen.floats = twoLiterals from rfl, shownText_largeResult,
    List.take_of_length_le hlength, List.countP_replicate,
    if_pos (isCjk_of (Or.inl rfl))] at hlt
  exact hlt

def oneResult : List Message := resultMessage [largeResult '一'] :: recentMessages

/-- An output of 501 Chinese characters. -/
theorem not_always_smaller : ¬ ∀ env threshold tools files messages,
    env.directory.length ≤ 200 →
    ∃ out files', checkAndCompact env threshold tools ((candidates env messages).length + 1)
        files messages = some (out, files') ∧
      estimateMessagesTokens out ≤ estimateMessagesTokens messages := by
  intro h
  have hlength : frozen.directory.length ≤ 200 := by decide
  obtain ⟨out, files', hrun, hle⟩ := h frozen always reader Dict.nil oneResult hlength
  obtain ⟨out', files'', hrun', hiff⟩ := not_larger_iff frozen always reader Dict.nil oneResult
  rw [hrun] at hrun'
  cases hrun'
  have hfound : candidates frozen oneResult = [largeResult '一'] := by
    refine candidates_resultMessage _ fun result hmem head hcalls => ?_
    rw [List.mem_singleton.mp hmem]
    exact archivable_largeResult (isCjk_of (Or.inl rfl)) hcalls
  rw [hfound] at hiff
  have hall : archivesAll frozen always 0 (estimateMessagesTokens oneResult) [largeResult '一'] =
      true := by
    rw [archivesAll, written_largeResult (Or.inl rfl), archivesAll, Option.isSome_some,
      Bool.and_true, Bool.and_true]
    rfl
  have houtput : outputTokens [largeResult '一'] = 501 := by
    rw [outputTokens, List.map_singleton, List.sum_singleton,
      estimateTokens_largeResult (isCjk_of (Or.inl rfl))]
  have hstub := hiff.mp hle (by decide) hall
  rw [houtput, stubSizes, stubSizes, Nat.add_zero] at hstub
  exact Nat.lt_irrefl _ (Nat.lt_of_lt_of_le lt_stubSize hstub)

end NeuralHub.Compression
