/-
NeuralHub.Knowledge.Chunker — how a document is cut into chunks: `chunker.py`.

Paragraphs are the parts between blank lines. Short ones are put together as
long as they fit into a chunk, with one blank line between them; a long one
is cut behind the last mark of a sentence in each window, if that leaves
enough of the window, and the next window reaches back a little.
-/
import NeuralHub.Lib.Text
import NeuralHub.Lib.Windows

namespace NeuralHub.Knowledge

open Lib Lib.Text

def minChunkChars : Nat := 300

def maxChunkChars : Nat := 800

def overlapChars : Nat := 80

/-! ## Normalising -/

/-- `text.replace("\r\n", "\n")`. -/
def crlfToLf : List Char → List Char
  | '\r' :: '\n' :: rest => '\n' :: crlfToLf rest
  | c :: rest => c :: crlfToLf rest
  | [] => []

/-- `_normalize`. -/
def normalize (text : List Char) : List Char :=
  strip (['\n'].intercalate (((crlfToLf text).splitOn '\n').map strip))

def consHead (c : Char) : List (List Char) → List (List Char)
  | [] => [[c]]
  | part :: parts => (c :: part) :: parts

/-- `re.split(r"\n{2,}", s)`; after two line feeds the others of the run are skipped. -/
def splitBlank : (skip : Bool) → List Char → List (List Char)
  | _, [] => [[]]
  | skip, c :: rest =>
    if c = '\n' then
      if skip then splitBlank true rest
      else if rest.head? = some '\n' then [] :: splitBlank true rest
      else consHead c (splitBlank false rest)
    else consHead c (splitBlank false rest)

def paragraphs (normalized : List Char) : List (List Char) :=
  ((splitBlank false normalized).map strip).filter (· ≠ [])

/-! ## Long paragraphs -/

/-- `str.rfind` of one character. -/
def rfind (window : List Char) (mark : Char) : Int :=
  match window.reverse.findIdx? (· == mark) with
  | some index => (window.length : Int) - 1 - index
  | none => -1

/-- `_last_boundary`. -/
def lastBoundary (text : List Char) (start stop : Nat) : Nat :=
  let window := slice text (start, stop)
  let candidates := ['。', '！', '？', '.', '!', '?'].map (rfind window)
  let index := candidates.max?.getD (-1)
  if index < 0 then stop else start + index.toNat + 1

/-- Where the window that begins at `start` ends. -/
def windowEnd (text : List Char) (start : Nat) : Nat :=
  let stop := min (start + maxChunkChars) text.length
  if stop < text.length then
    let boundary := lastBoundary text start stop
    if minChunkChars ≤ boundary - start then boundary else stop
  else stop

/-- `_flush`. -/
def flush (text : List Char) : List (List Char) := if strip text = [] then [] else [strip text]

/-- The loop of `_split_long`, from `start` on. -/
def splitLongFrom (text : List Char) (start : Nat) : List (List Char) :=
  if start < text.length then
    let stop := windowEnd text start
    let chunk := flush (slice text (start, stop))
    if text.length ≤ stop then chunk
    else chunk ++ splitLongFrom text (max (stop - overlapChars) (start + 1))
  else []
termination_by text.length - start

/-- `_split_long`. -/
def splitLong (text : List Char) : List (List Char) := splitLongFrom text 0

/-! ## Chunks -/

/-- The loop of `split_text`; the buffer is what has been put together so far. -/
def chunksFrom (buffer : List Char) : List (List Char) → List (List Char)
  | [] => flush buffer
  | paragraph :: rest =>
    if maxChunkChars < paragraph.length then
      flush buffer ++ (splitLong paragraph ++ chunksFrom [] rest)
    else
      let candidate :=
        if buffer = [] then paragraph else strip (buffer ++ (['\n', '\n'] ++ paragraph))
      if candidate.length ≤ maxChunkChars then chunksFrom candidate rest
      else flush buffer ++ chunksFrom paragraph rest

/-- `split_text`. -/
def splitText (text : List Char) : List (List Char) :=
  let normalized := normalize text
  if normalized = [] then [] else chunksFrom [] (paragraphs normalized)

end NeuralHub.Knowledge
