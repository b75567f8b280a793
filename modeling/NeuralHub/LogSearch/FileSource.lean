/-
NeuralHub.LogSearch.FileSource — searching the log files from their ends:
`file_source.py` and `models.py`.

A file is its bytes. What is done with one line (decoding, `json.loads`,
the time in it) is a `LogFormat`, for any type of records; of the record a
search reads texts, `str(record.get(key, ""))`. What `_parse_line` and
`_parse_timestamp` do not catch (a line nested too deeply for `json.loads`,
a time out of the range of `astimezone`) is an error of the `LogFormat`: it
ends the search that reads the line. The files are given in the order of
`_candidate_files`, the one written to last first.

`_iter_lines_reverse` keeps the first line of what it has read until it
reads what stands in front of it, and forgets the break behind it. The
lines it yields are those of the file backwards, but for empty ones, which
are no records (`lines_reverse`). So a search gives the newest records that
match (`search_newest`), if every file is in the order of time and every
line can be read.
-/
import NeuralHub.Lib.JsonReader
import NeuralHub.Lib.Segments
import NeuralHub.Lib.Text

namespace NeuralHub.LogSearch

open NeuralHub.Lib

abbrev Bytes := List UInt8

def byteBreaks : Breaks UInt8 where
  cr := 13
  lf := 10
  other := fun _ => false
  cr_ne_lf := by decide

/-- `bytes.splitlines`. -/
def splitlines (s : Bytes) : List Bytes := (linesOf byteBreaks s).map Line.content

/-! ## `_iter_lines_reverse` -/

def readSize : Nat := 8192

/-- The loop, and what is yielded behind it; `none` stands for an `IndexError`. -/
def linesReverseFrom (content : Bytes) (position : Nat) (buffer : Bytes) : Option (List Bytes) :=
  if 0 < position then
    let chunkSize := min readSize position
    let start := position - chunkSize
    let parts := splitlines ((content.drop start).take chunkSize ++ buffer)
    if 0 < start then
      match parts with
      | [] => none
      | first :: parts => (linesReverseFrom content start first).map fun rest =>
          parts.reverse ++ rest
    else (linesReverseFrom content start []).map fun rest => parts.reverse ++ rest
  else some (if buffer.isEmpty then [] else [buffer])
termination_by position
decreasing_by all_goals unfold readSize; omega

def iterLinesReverse (content : Bytes) : Option (List Bytes) :=
  linesReverseFrom content content.length []

/-! ## Records -/

structure LogFormat (R : Type) where
  /-- `_parse_line` of the decoded line, or the text of the exception -/
  parseLine : Bytes → Except String (Option R)
  /-- an empty text is no JSON -/
  parseLine_nil : parseLine [] = .ok none
  /-- `_parse_timestamp`, in microseconds -/
  timestamp : R → Except String (Option Int)
  /-- `str(record.get(key, ""))` -/
  field : R → String → String

structure LogSearchQuery where
  traceId : String := ""
  sessionId : String := ""
  level : String := ""
  event : String := ""
  component : String := ""
  workerId : String := ""
  errorCode : String := ""
  limit : Nat := 100
  minutes : Nat := 60
  limit_bounds : 1 ≤ limit ∧ limit ≤ 500 := by decide
  minutes_bounds : 1 ≤ minutes ∧ minutes ≤ 7 * 24 * 60 := by decide

def LogSearchQuery.hasFilter (query : LogSearchQuery) : Bool :=
  [query.traceId, query.sessionId, query.level, query.event, query.component, query.workerId,
    query.errorCode].any fun value => !(Text.strip value.toList).isEmpty

variable {R : Type} (format : LogFormat R) (lower : String → String)

/-- `record_matches_query`. -/
def recordMatchesQuery (record : R) (query : LogSearchQuery) : Bool :=
  let equal := fun key value => value.isEmpty || format.field record key == value
  equal "trace_id" query.traceId && equal "session_id" query.sessionId &&
    (query.level.isEmpty || lower (format.field record "level") == lower query.level) &&
    equal "event" query.event && equal "component" query.component &&
    equal "worker_id" query.workerId && equal "error_code" query.errorCode

/-- What is yielded for the lines of one file, up to the first record that is too old, and the
exception that comes instead of the rest. -/
def recentRecords (cutoff : Int) : List Bytes → List R × Option String
  | [] => ([], none)
  | line :: lines =>
    match format.parseLine line with
    | .error text => ([], some text)
    | .ok none => recentRecords cutoff lines
    | .ok (some record) =>
      match format.timestamp record with
      | .error text => ([], some text)
      | .ok none => recentRecords cutoff lines
      | .ok (some time) =>
        if time < cutoff then ([], none)
        else
          let rest := recentRecords cutoff lines
          (record :: rest.1, rest.2)

/-- `_iter_recent_records`. -/
def iterRecentRecords (cutoff : Int) : List Bytes → List R × Option String
  | [] => ([], none)
  | file :: files =>
    match iterLinesReverse file with
    | none => ([], some "list index out of range")
    | some lines =>
      match recentRecords format cutoff lines with
      | (records, some text) => (records, some text)
      | (records, none) =>
        let rest := iterRecentRecords cutoff files
        (records ++ rest.1, rest.2)

inductive SearchError
  | filterRequired
  /-- a `LogSearchSourceError` with the text of an exception -/
  | source (text : String)
  deriving DecidableEq

/-- The loop of the search, with the results so far; a search that has enough reads no further. -/
def collect (query : LogSearchQuery) (failure : Option String) (results : List R) :
    List R → Except SearchError (List R)
  | [] =>
    match failure with
    | some text => .error (.source text)
    | none => .ok results
  | record :: records =>
    if recordMatchesQuery format lower record query then
      let results := results ++ [record]
      if query.limit ≤ results.length then .ok results
      else collect query failure results records
    else collect query failure results records

/-- The records of `search_file_logs`; `now` is in microseconds. -/
def searchFileLogs (query : LogSearchQuery) (now : Int) (files : List Bytes) :
    Except SearchError (List R) :=
  if query.hasFilter then
    let found := iterRecentRecords format (now - 60000000 * query.minutes) files
    collect format lower query found.2 [] found.1
  else .error .filterRequired

/-! ## Reading backwards -/

variable {format lower} {content buffer : Bytes} {position : Nat}

theorem splitlines_eq_nil : splitlines content = [] ↔ content = [] := by
  unfold splitlines
  rw [List.map_eq_nil_iff]
  constructor
  · intro h
    rw [← render_linesOf byteBreaks content, h]
    rfl
  · rintro rfl
    rfl

theorem segments_splitlines (s : Bytes) :
    segments byteBreaks.brk s = nonEmptyParts (splitlines s) := segments_eq_lines byteBreaks s

/-- What is left of the file and in the buffer has the segments that are still to come. -/
theorem linesReverseFrom_spec (hposition : position ≤ content.length)
    (hbuffer : position = 0 → buffer = []) :
    ∃ lines, linesReverseFrom content position buffer = some lines ∧
      nonEmptyParts lines =
        (segments byteBreaks.brk (content.take position ++ buffer)).reverse := by
  induction position using Nat.strongRecOn generalizing buffer with
  | ind position ih =>
    rw [linesReverseFrom]
    by_cases hpos : 0 < position
    · rw [if_pos hpos]
      have hstart : position - min readSize position < position := by
        unfold readSize
        omega
      have hchunk : content.take position =
          content.take (position - min readSize position) ++
            (content.drop (position - min readSize position)).take (min readSize position) := by
        rw [← List.take_append_drop (position - min readSize position) (content.take position),
          List.take_take, List.drop_take, Nat.min_eq_left (Nat.sub_le _ _),
          Nat.sub_sub_self (Nat.min_le_right _ _)]
      dsimp only
      generalize hstartEq : position - min readSize position = start at *
      generalize hread : (content.drop start).take (min readSize position) = chunk at *
      have hlength : start ≤ content.length := by omega
      rw [hchunk, List.append_assoc]
      by_cases hmore : 0 < start
      · rw [if_pos hmore]
        cases hparts : splitlines (chunk ++ buffer) with
        | nil =>
          have hchunkNil := (List.append_eq_nil_iff.mp (splitlines_eq_nil.mp hparts)).1
          have hlen := congrArg List.length hread
          rw [hchunkNil, List.length_take, List.length_drop, List.length_nil] at hlen
          omega
        | cons first parts =>
          have hfresh : start = 0 → first = [] := fun h => absurd h (by omega)
          obtain ⟨lines, hlines, hsegments⟩ := ih start hstart hlength hfresh
          refine ⟨parts.reverse ++ lines, by simp [hlines], ?_⟩
          have hfirst : linesOf byteBreaks (chunk ++ buffer) ≠ [] := by
            intro hnil
            simp [splitlines, hnil] at hparts
          obtain ⟨line, rest, hline⟩ := List.exists_cons_of_ne_nil hfirst
          unfold splitlines at hparts
          rw [hline, List.map_cons] at hparts
          obtain ⟨rfl, rfl⟩ := List.cons.inj hparts
          rw [segments_first_line hline, nonEmptyParts_append, nonEmptyParts_reverse, hsegments,
            List.reverse_append]
      · obtain rfl : start = 0 := by omega
        rw [if_neg hmore]
        have hfresh : (0 : Nat) = 0 → ([] : Bytes) = [] := fun _ => rfl
        obtain ⟨lines, hlines, hsegments⟩ := ih 0 hstart hlength hfresh
        refine ⟨(splitlines (chunk ++ buffer)).reverse ++ lines, by simp [hlines], ?_⟩
        rw [List.take_zero, List.append_nil, segments_nil] at hsegments
        rw [nonEmptyParts_append, hsegments, List.reverse_nil, List.append_nil,
          nonEmptyParts_reverse, List.take_zero, List.nil_append, segments_splitlines]
    · obtain rfl : position = 0 := by omega
      obtain rfl := hbuffer rfl
      exact ⟨[], by simp, by simp⟩

/-- **Reading backwards.** For every file the lines that are yielded are the lines of the file,
the last one first, but for empty lines; wherever the pieces that are read begin. -/
theorem lines_reverse (content : Bytes) :
    ∃ lines, iterLinesReverse content = some lines ∧
      nonEmptyParts lines = (nonEmptyParts (splitlines content)).reverse := by
  have hfresh : content.length = 0 → ([] : Bytes) = [] := fun _ => rfl
  obtain ⟨lines, hlines, hsegments⟩ := linesReverseFrom_spec (Nat.le_refl _) hfresh
  rw [List.take_length, List.append_nil, segments_splitlines] at hsegments
  exact ⟨lines, hlines, hsegments⟩

/-! ## The search -/

/-- The record of a line, with its time. -/
def LogFormat.read (format : LogFormat R) (line : Bytes) : Except String (Option (R × Int)) :=
  match format.parseLine line with
  | .error text => .error text
  | .ok none => .ok none
  | .ok (some record) =>
    match format.timestamp record with
    | .error text => .error text
    | .ok time => .ok (time.map fun time => (record, time))

/-- The records with a time among lines. -/
def timed (format : LogFormat R) (lines : List Bytes) : List (R × Int) :=
  lines.filterMap fun line => (format.read line).toOption.join

def recordsOf (format : LogFormat R) (file : Bytes) : List (R × Int) :=
  timed format (splitlines file)

theorem timed_nonEmptyParts (lines : List Bytes) :
    timed format (nonEmptyParts lines) = timed format lines := by
  induction lines with
  | nil => rfl
  | cons line lines ih =>
    unfold timed at ih ⊢
    by_cases hline : line = []
    · subst hline
      rw [nonEmptyParts_cons_nil, ih, List.filterMap_cons_none]
      simp [LogFormat.read, format.parseLine_nil, Except.toOption]
    · rw [nonEmptyParts_cons_of_ne hline, List.filterMap_cons, List.filterMap_cons, ih]

/-- The records that are yielded for one file. -/
theorem recentRecords_eq (cutoff : Int) {lines : List Bytes}
    (hread : ∀ line ∈ lines, (format.read line).isOk = true) :
    recentRecords format cutoff lines =
      (((timed format lines).takeWhile fun x => cutoff ≤ x.2).map Prod.fst, none) := by
  induction lines with
  | nil => rfl
  | cons line lines ih =>
    have hline := hread line List.mem_cons_self
    have hrest := ih fun other hmem => hread other (List.mem_cons_of_mem _ hmem)
    unfold timed at hrest
    unfold recentRecords timed
    rw [List.filterMap_cons]
    cases hparse : format.parseLine line with
    | error text => simp [LogFormat.read, hparse, Except.isOk, Except.toBool] at hline
    | ok parsed =>
      cases parsed with
      | none =>
        have hnone : format.read line = .ok none := by simp [LogFormat.read, hparse]
        rw [hnone]
        exact hrest
      | some record =>
        cases htime : format.timestamp record with
        | error text => simp [LogFormat.read, hparse, htime, Except.isOk, Except.toBool] at hline
        | ok time =>
          have hthere : format.read line = .ok (time.map fun time => (record, time)) := by
            simp [LogFormat.read, hparse, htime]
          rw [hthere]
          cases time with
          | none =>
            simp only [htime]
            exact hrest
          | some time =>
            by_cases hold : time < cutoff
            · simp [hold, htime, Except.toOption]
            · have hrecent : cutoff ≤ time := by omega
              simp [hold, hrecent, htime, hrest, Except.toOption]

theorem read_nil : (format.read []).isOk = true := by
  unfold LogFormat.read
  rw [format.parseLine_nil]
  rfl

/-- Reading backwards gives no other lines, but for empty ones. -/
theorem read_of_lines {file : Bytes} {lines : List Bytes}
    (hsame : nonEmptyParts lines = (nonEmptyParts (splitlines file)).reverse)
    (hread : ∀ line ∈ splitlines file, (format.read line).isOk = true) :
    ∀ line ∈ lines, (format.read line).isOk = true := by
  intro line hmem
  by_cases hline : line = []
  · subst hline
    exact read_nil
  · have hthere : line ∈ nonEmptyParts lines := mem_nonEmptyParts.mpr ⟨hmem, hline⟩
    rw [hsame, List.mem_reverse] at hthere
    exact hread line (mem_nonEmptyParts.mp hthere).1

theorem iterRecentRecords_eq (cutoff : Int) {files : List Bytes}
    (hread : ∀ file ∈ files, ∀ line ∈ splitlines file, (format.read line).isOk = true) :
    iterRecentRecords format cutoff files = (files.flatMap fun file =>
      ((recordsOf format file).reverse.takeWhile fun x => cutoff ≤ x.2).map Prod.fst, none) := by
  induction files with
  | nil => rfl
  | cons file files ih =>
    obtain ⟨lines, hlines, hsame⟩ := lines_reverse file
    have htimed : timed format lines = (recordsOf format file).reverse := by
      rw [← timed_nonEmptyParts lines, hsame, ← nonEmptyParts_reverse, timed_nonEmptyParts]
      exact List.filterMap_reverse
    have hfile := read_of_lines hsame (hread file List.mem_cons_self)
    have hrest := ih fun other hmem => hread other (List.mem_cons_of_mem _ hmem)
    unfold iterRecentRecords
    rw [hlines]
    dsimp only
    rw [recentRecords_eq cutoff hfile, htimed]
    dsimp only
    rw [hrest, List.flatMap_cons]

theorem collect_eq (query : LogSearchQuery) (records results : List R)
    (h : results.length < query.limit) :
    collect format lower query none results records = .ok
      (results ++ (records.filter fun record => recordMatchesQuery format lower record query).take
        (query.limit - results.length)) := by
  induction records generalizing results with
  | nil => simp [collect]
  | cons record records ih =>
    unfold collect
    rw [List.filter_cons]
    by_cases hmatch : recordMatchesQuery format lower record query = true
    · rw [if_pos hmatch, if_pos hmatch]
      have hlength : (results ++ [record]).length = results.length + 1 := by simp
      dsimp only
      by_cases hfull : query.limit ≤ (results ++ [record]).length
      · rw [if_pos hfull, show query.limit - results.length = 0 + 1 by omega,
          List.take_succ_cons, List.take_zero]
      · rw [if_neg hfull, ih _ (by omega), hlength,
          show query.limit - results.length = query.limit - (results.length + 1) + 1 by omega,
          List.take_succ_cons, List.append_assoc, List.singleton_append]
    · rw [if_neg hmatch, if_neg hmatch]
      exact ih results h

/-- From a list in falling order the recent part is taken in front. -/
theorem takeWhile_recent {cutoff : Int} {l : List (R × Int)}
    (h : l.Pairwise fun x y => y.2 ≤ x.2) :
    l.takeWhile (fun x => decide (cutoff ≤ x.2)) = l.filter fun x => decide (cutoff ≤ x.2) := by
  induction l with
  | nil => rfl
  | cons x l ih =>
    obtain ⟨hx, hl⟩ := List.pairwise_cons.mp h
    by_cases hrecent : cutoff ≤ x.2
    · rw [List.takeWhile_cons_of_pos (by simpa using hrecent),
        List.filter_cons_of_pos (by simpa using hrecent), ih hl]
    · have hnone : l.filter (fun y => decide (cutoff ≤ y.2)) = [] := by
        refine List.filter_eq_nil_iff.mpr fun y hy => ?_
        have hle := hx y hy
        simp only [decide_eq_true_eq]
        omega
      rw [List.takeWhile_cons_of_neg (by simpa using hrecent),
        List.filter_cons_of_neg (by simpa using hrecent), hnone]

/-- **What a search finds.** With a filter, and files that can be read and are each in the order
of time: the matching records of the last minutes, newest first within a file, as many as asked
for. -/
theorem search_newest {query : LogSearchQuery} (hfilter : query.hasFilter = true) {now : Int}
    {files : List Bytes}
    (hread : ∀ file ∈ files, ∀ line ∈ splitlines file, (format.read line).isOk = true)
    (hsorted : ∀ file ∈ files, (recordsOf format file).Pairwise fun x y => x.2 ≤ y.2) :
    searchFileLogs format lower query now files = .ok
      (((files.flatMap fun file => (((recordsOf format file).filter fun x =>
        now - 60000000 * query.minutes ≤ x.2).map Prod.fst).reverse).filter fun record =>
          recordMatchesQuery format lower record query).take query.limit) := by
  unfold searchFileLogs
  rw [if_pos hfilter, iterRecentRecords_eq _ hread]
  dsimp only
  rw [collect_eq query _ [] query.limit_bounds.1, List.nil_append, List.length_nil, Nat.sub_zero]
  congr 3
  refine List.flatMap_congr fun file hfile => ?_
  rw [takeWhile_recent (List.pairwise_reverse.mpr (hsorted file hfile)), List.filter_reverse,
    List.map_reverse]

/-- Lines of ASCII characters, and times of one day. -/
def asciiFormat : LogFormat Members where
  parseLine line :=
    match loads (line.map fun byte => Char.ofNat byte.toNat) with
    | some (.obj members) => .ok (some members)
    | _ => .ok none
  parseLine_nil := rfl
  timestamp members :=
    match members.get? "timestamp" with
    | some (.str "2026-01-01T00:00:00Z") => .ok (some 1767225600000000)
    | some (.str "2026-01-01T00:00:05Z") => .ok (some 1767225605000000)
    | some (.str "9999-12-31T23:59:59-01:00") => .error "date value out of range"
    | _ => .ok none
  field members key :=
    match members.get? key with
    | some (.str value) => value
    | _ => ""

/-- Two records and a line that is none. -/
def aLogFile : Bytes :=
  ("\x7b\"timestamp\": \"2026-01-01T00:00:00Z\", \"event\": \"a\"\x7d\r\n\r\nno record\n" ++
    "\x7b\"timestamp\": \"2026-01-01T00:00:05Z\", \"event\": \"a\"\x7d\n").toList.map fun c =>
      UInt8.ofNat c.toNat

theorem search_aLogFile :
    searchFileLogs asciiFormat id { event := "a" } 1767225660000001 [aLogFile] = .ok
      ((([aLogFile].flatMap fun file => (((recordsOf asciiFormat file).filter fun x =>
        1767225660000001 - 60000000 * ((60 : Nat) : Int) ≤ x.2).map Prod.fst).reverse).filter
          fun record => recordMatchesQuery asciiFormat id record { event := "a" }).take 100) :=
  search_newest (by decide +kernel) (by decide +kernel) (by decide +kernel)

end NeuralHub.LogSearch
