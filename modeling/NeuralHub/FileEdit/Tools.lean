/-
NeuralHub.FileEdit.Tools — the tools `str_replace` and `file_edit`
(`file_edit.py`).

A string of Python is a list of code points; `half` is one of a surrogate
pair, which the arguments of a tool can hold and UTF-8 cannot. A file is
known by the characters of its UTF-8 text, which determine its bytes.

Files are read in text mode, where every line end becomes a line feed, and
written in text mode, where a line feed stays one (`os.linesep` of the
systems the server runs on). Opening a file for writing truncates it, so a
string that cannot be encoded leaves it empty. The unified diff of a
result is left out.
-/
import NeuralHub.Lib.Occurrences
import NeuralHub.Lib.TextLines

namespace NeuralHub.FileEdit

open Lib

/-! ## Strings and files -/

inductive CodePoint where
  | char (c : Char)
  /-- half a surrogate pair, U+D800 and so on -/
  | half (code : Fin 2048)
  deriving DecidableEq, Repr

abbrev Str := List CodePoint

/-- The line boundaries of `str.splitlines` besides `\n` and `\r`. -/
def otherBreak : CodePoint → Bool
  | .char c => ['\x0b', '\x0c', '\x1c', '\x1d', '\x1e', '\x85', '\u2028', '\u2029'].contains c
  | .half _ => false

def breaks : Breaks CodePoint where
  cr := .char '\r'
  lf := .char '\n'
  other := otherBreak
  cr_ne_lf := by decide

/-- `str.splitlines`. -/
def splitlines (s : Str) : List Str := (linesOf breaks s).map Line.content

def decode (file : List Char) : Str := file.map .char

/-- The characters of a string; `none` is a `UnicodeEncodeError`. -/
def encode : Str → Option (List Char)
  | [] => some []
  | .char c :: s => (encode s).map fun cs => c :: cs
  | .half _ :: _ => none

inductive FileState where
  | missing
  | notUtf8
  | text (file : List Char)
  deriving DecidableEq, Repr

/-! ## Replies -/

inductive Reply where
  | invalidPath
  | emptyOldStr
  | notFound
  | invalidUtf8
  | noMatch (lines : Nat)
  | manyMatches (lines : List Nat)
  | replaced (line : Nat)
  | notIntegers
  | invalidRange (start stop : Int) (lines : Nat)
  | edited (start stop : Int)
  /-- `str` of the exception that was raised -/
  | raised
  deriving DecidableEq, Repr

def Reply.isError : Reply → Bool
  | .replaced _ => false
  | .edited _ _ => false
  | _ => true

/-- The output of the result. -/
def Reply.output (path : String) : Reply → Option String
  | .invalidPath => some "Invalid path"
  | .emptyOldStr => some "old_str must not be empty"
  | .notFound => some ("File not found: " ++ path)
  | .invalidUtf8 => some ("File is not valid UTF-8: " ++ path)
  | .noMatch lines =>
    some ("No match for old_str in " ++ path ++ ". File has " ++ toString lines ++ " lines. " ++
      "Read the surrounding context and provide an exact old_str.")
  | .manyMatches lines =>
    some ("old_str matched " ++ toString lines.length ++ " times in " ++ path ++
      ". Match start lines: " ++ ", ".intercalate (lines.map toString) ++
      ". Provide a longer, more specific old_str.")
  | .replaced line => some ("Replaced text in " ++ path ++ " at line " ++ toString line)
  | .notIntegers => some "start_line and end_line must be integers"
  | .invalidRange start stop lines =>
    some ("Invalid line range " ++ toString start ++ "-" ++ toString stop ++ " for " ++ path ++
      ". File has " ++ toString lines ++ " lines.")
  | .edited start stop =>
    some ("Edited " ++ path ++ " lines " ++ toString start ++ "-" ++ toString stop)
  | .raised => none

/-- A reply and the file after the call. -/
structure Outcome where
  reply : Reply
  file : FileState
  deriving DecidableEq, Repr

/-! ## Helpers -/

/-- `_is_safe_path`; the test that `_full_path` adds passes for these. -/
def isSafePath (path : String) : Bool :=
  let parts := (path.toList.map fun c => if c = '\\' then '/' else c).splitOn '/'
  !path.toList.isEmpty && path.toList.head? != some '/' && !parts.contains ['.', '.']

/-- `_write_text`, and the reply if it does not raise. -/
def writeText (content : Str) (reply : Reply) : Outcome :=
  match encode content with
  | some file => ⟨reply, .text file⟩
  | none => ⟨.raised, .text []⟩

/-- `_line_count`. -/
def lineCount (content : Str) : Nat := (splitlines content).length

/-- `_line_number_for_offset`. -/
def lineNumberForOffset (content : Str) (offset : Nat) : Nat :=
  (content.take offset).count (.char '\n') + 1

/-! ## The tools -/

/-- `create_str_replace_tool`. -/
def strReplace (path : String) (file : FileState) (oldStr newStr : Str) : Outcome :=
  if !isSafePath path then ⟨.invalidPath, file⟩
  else if oldStr = [] then ⟨.emptyOldStr, file⟩
  else
    match file with
    | .missing => ⟨.notFound, file⟩
    | .notUtf8 => ⟨.invalidUtf8, file⟩
    | .text bytes =>
      let content := universalNewlines breaks (decode bytes)
      match matchOffsets oldStr content with
      | [] => ⟨.noMatch (lineCount content), file⟩
      | [offset] =>
        writeText (replaceFirst oldStr newStr content)
          (.replaced (lineNumberForOffset content offset))
      | offsets => ⟨.manyMatches (offsets.map (lineNumberForOffset content)), file⟩

/-- `newline.join(updated_lines)`, and a line end behind it if the file has one. -/
def joinLines (newline : Str) (finalNewline : Bool) (lines : List Str) : Str :=
  newline.intercalate lines ++ if finalNewline && !lines.isEmpty then newline else []

/-- `create_file_edit_tool`; the range is `none` if it is not made of integers. -/
def fileEdit (path : String) (file : FileState) (range : Option (Int × Int)) (newContent : Str) :
    Outcome :=
  if !isSafePath path then ⟨.invalidPath, file⟩
  else
    match range, file with
    | none, _ => ⟨.notIntegers, file⟩
    | some _, .missing => ⟨.notFound, file⟩
    | some _, .notUtf8 => ⟨.invalidUtf8, file⟩
    | some (start, stop), .text bytes =>
      let content := universalNewlines breaks (decode bytes)
      let lines := splitlines content
      if start < 1 ∨ stop < start ∨ (lines.length : Int) < stop then
        ⟨.invalidRange start stop lines.length, file⟩
      else
        let newline : Str :=
          if positions [.char '\r', .char '\n'] content ≠ [] then [.char '\r', .char '\n']
          else [.char '\n']
        let finalNewline := content.getLast? == some (.char '\n') ||
          content.getLast? == some (.char '\r')
        let updated := lines.take (start.toNat - 1) ++ splitlines newContent ++
          lines.drop stop.toNat
        writeText (joinLines newline finalNewline updated) (.edited start stop)

end NeuralHub.FileEdit
