/-
NeuralHub.Compression.Artifacts — the artifact of a tool output
(`write_artifact` of `level1_artifact.py`) and the pages in which
`read_history` gives it back (`read_history_support.py`).

The file holds the JSON value of the output, or an object with the output
as its member `raw` where the output is no JSON. The reader gives the
member `raw` of an object if that is a string, and prints any other value.

An output is a sequence of `Char`s; a Python string with half a surrogate
pair in it is none, but a JSON text may escape one, and then `write_text`
raises `UnicodeEncodeError` (`Loaded.halves`). The limits of the
interpreter on the digits of an integer and on the nesting of a value are
left out, and so are requests that select a part of the file. `fl` says
which doubles the floats of a text are.
-/
import NeuralHub.Lib.Floats

namespace NeuralHub.Compression

open Lib

variable (fl : FloatReading)

/-! ## Writing -/

/-- `_parse_json`; `invalid` is the `None`, which the text `null` gives too. -/
def parseJson (text : List Char) : Loaded :=
  match fl.load text with
  | .value .null => .invalid
  | parsed => parsed

/-- `{"raw": output}`. -/
def rawObject (output : List Char) : Json :=
  .obj (.cons "raw" (.str (String.ofList output)) .nil)

/-- The value that `_artifact_payload` prints. -/
def artifactValue (output : List Char) : Loaded :=
  match parseJson fl output with
  | .invalid => .value (rawObject output)
  | parsed => parsed

/-- The text of the file that `write_artifact` leaves; `none` if `write_text` raises. -/
def writeArtifact (output : List Char) : Option (List Char) :=
  match artifactValue fl output with
  | .value v => some v.dumpsIndented
  | _ => none

/-! ## Reading -/

/-- `read_text`: every line end is read as a line feed. -/
def readText : List Char → List Char
  | '\r' :: '\n' :: rest => '\n' :: readText rest
  | '\r' :: rest => '\n' :: readText rest
  | c :: rest => c :: readText rest
  | [] => []

/-- The member `raw` of an object, if it is a string. -/
def rawMember : Json → Option String
  | .obj members =>
    match members.get? "raw" with
    | some (.str raw) => some raw
    | _ => none
  | _ => none

/-- `_source_text` without a selector, of the value that was read from the file. -/
def sourceOf (data : Json) : List Char :=
  match rawMember data with
  | some raw => raw.toList
  | none => data.dumpsIndented

/-- `_source_text` of a file with the suffix `.json`; `none` is a `JSONDecodeError`. -/
def sourceText (file : List Char) : Option (List Char) :=
  match fl.load (readText file) with
  | .value data => some (sourceOf data)
  | _ => none

def defaultPageChars : Nat := 12000

def maxPageChars : Nat := 20000

/-- `_limit`; the model of the request admits no negative number. -/
def pageLimit (value : Nat) : Nat := if value = 0 then defaultPageChars else min value maxPageChars

/-- A page with the numbers of its first line. -/
structure Page where
  offset : Nat
  returnedChars : Nat
  totalChars : Nat
  hasMore : Bool
  text : List Char
  deriving DecidableEq, Repr

/-- `_read_page` of a text. -/
def readPage (text : List Char) (offset limit : Nat) : Page :=
  let start := min offset text.length
  let stop := min (start + pageLimit limit) text.length
  let page := (text.take stop).drop start
  ⟨start, page.length, text.length, decide (stop < text.length), page⟩

/-- `read_history_content` in the modes `full` and `range`. -/
def readHistory (file : List Char) (offset limit : Nat) : Option Page :=
  (sourceText fl file).map fun text => readPage text offset limit

/-- Reading page by page from an offset on, the `n`-th page with the limit
`limits n`; `none` stands for a failed read or more pages than `fuel`. -/
def readPages (fl : FloatReading) (file : List Char) (limits : Nat → Nat) :
    Nat → Nat → Nat → Option (List Page)
  | 0, _, _ => none
  | fuel + 1, n, offset =>
    match readHistory fl file offset (limits n) with
    | none => none
    | some page =>
      if page.hasMore then
        (readPages fl file limits fuel (n + 1) (offset + page.returnedChars)).map fun pages =>
          page :: pages
      else some [page]

/-! ## What can be read back -/

/-- The same text, or for JSON a text of the same value. -/
def SameContent (output text : List Char) : Prop :=
  if fl.load output = .invalid then text = output else fl.load text = fl.load output

/-- The output has an artifact, and reading it page by page ends, whatever
the limits are, with the content of the output. -/
def ReadBack (output : List Char) : Prop :=
  ∃ file, writeArtifact fl output = some file ∧
    ∀ limits : Nat → Nat, ∃ fuel pages, readPages fl file limits fuel 0 0 = some pages ∧
      SameContent fl output (pages.flatMap Page.text)

/-- JSON, if the output is any, whose strings can be written and which does
not look like the object that is written for other outputs. -/
def keepsContent (output : List Char) : Bool :=
  match load output with
  | .invalid => true
  | .halves => false
  | .value v => (rawMember v).isNone

end NeuralHub.Compression
