/-
NeuralHub.Knowledge.Ingest — documents of knowledge bases: `ingest.py`,
`store_docs.py`, `move_document` of `operations.py` and the tables under
them (`db_models.py`).

Every call of the store is one transaction; one that raises has no effect.
An ingest is a row of its own with the call it makes next, under the fresh
id of its document, so any number of them run at once. Between two calls
the process may die; what an ingest has left behind stays in the tables.
The chunks are embedded in one action, which reads and writes no table.

`str.lower` of Python is a parameter.
-/
import NeuralHub.Lib.Machine
import NeuralHub.Lib.Table
import NeuralHub.Lib.Text
import Mathlib.Data.List.Infix

namespace NeuralHub.Knowledge

open NeuralHub.Lib

/-! ## The tables -/

inductive DocumentStatus
  | processing
  | ready
  | partially
  | failed
  | empty
  deriving DecidableEq, Repr

structure KnowledgeBase where
  id : String
  name : String
  deriving DecidableEq, Repr

structure KnowledgeDocument where
  id : String
  kbId : String
  filename : String
  fileType : String
  fileSize : Nat := 0
  chunkCount : Nat := 0
  status : DocumentStatus := .processing
  error : String := ""
  createdAt : Nat
  deriving DecidableEq, Repr

abbrev Embedding := List Rat

structure KnowledgeChunk where
  kbId : String
  docId : String
  content : String
  embedding : Embedding
  source : String := ""
  chunkIndex : Nat := 0
  deriving DecidableEq, Repr

/-- The tables; `kb_chunks` is in the order of insertion. -/
structure KnowledgeStore where
  bases : Table KnowledgeBase.id
  documents : Table KnowledgeDocument.id
  chunks : List KnowledgeChunk

namespace KnowledgeStore

/-- The chunk rows of a document. -/
def chunksOf (store : KnowledgeStore) (docId : String) : List KnowledgeChunk :=
  store.chunks.filter fun chunk => chunk.docId = docId

/-- The documents with this name in a base. -/
def named (store : KnowledgeStore) (kbId filename : String) : List KnowledgeDocument :=
  store.documents.entries.filter fun document =>
    document.kbId = kbId ∧ document.filename = filename

/-- What `get_document_by` may answer: a newest document with this name, if there is one. -/
def MayFind (store : KnowledgeStore) (kbId filename : String) : Option String → Prop
  | none => store.named kbId filename = []
  | some id => ∃ document ∈ store.named kbId filename, document.id = id ∧
      ∀ other ∈ store.named kbId filename, other.createdAt ≤ document.createdAt

instance (store : KnowledgeStore) (kbId filename : String) (answer : Option String) :
    Decidable (store.MayFind kbId filename answer) :=
  match answer with
  | none => inferInstanceAs (Decidable (store.named kbId filename = []))
  | some id => inferInstanceAs (Decidable (∃ document ∈ store.named kbId filename,
      document.id = id ∧ ∀ other ∈ store.named kbId filename,
        other.createdAt ≤ document.createdAt))

/-- `create_document`; the base has to be there, and the id must be new. -/
def createDocument (store : KnowledgeStore) (document : KnowledgeDocument) :
    Option KnowledgeStore :=
  if store.bases.find document.kbId = none then none
  else (store.documents.insertNew document).map fun documents => { store with documents }

/-- `update_document`; a document that is gone is not written. -/
def updateDocument (store : KnowledgeStore) (document : KnowledgeDocument) : KnowledgeStore :=
  match store.documents.find document.id with
  | none => store
  | some record =>
    { store with documents := store.documents.put { record with
        status := document.status
        chunkCount := document.chunkCount
        error := document.error } }

/-- `delete_document`; the chunks go with their document. -/
def deleteDocument (store : KnowledgeStore) (docId : String) : KnowledgeStore :=
  { store with
    documents := store.documents.erase docId
    chunks := store.chunks.filter fun chunk => chunk.docId ≠ docId }

/-- `add_chunks`; the documents of the chunks have to be there. -/
def addChunks (store : KnowledgeStore) (chunks : List KnowledgeChunk) : Option KnowledgeStore :=
  if ∀ chunk ∈ chunks, store.documents.find chunk.docId ≠ none then
    some { store with chunks := store.chunks ++ chunks }
  else none

end KnowledgeStore

/-! ## `move_document` -/

structure KnowledgeError where
  code : String
  message : String
  deriving DecidableEq, Repr

/-- `_normalize_name`. -/
def normalizeName (name : String) : Except KnowledgeError String :=
  let normalized := ([' '].intercalate (Text.split (Text.strip name.toList))).take 50
  if normalized = [] then .error ⟨"KNOWLEDGE_KB_NAME_EMPTY", "知识库名称不能为空"⟩
  else .ok (String.ofList normalized)

/-- `_match_key`. -/
def matchKey (lower : String → String) (value : String) : List Char :=
  (Text.split (Text.strip (lower value).toList)).flatten

/-- `_get_or_create_base`; `newId` is the id of a base that is created. -/
def getOrCreateBase (bases : Table KnowledgeBase.id) (name newId : String) :
    KnowledgeBase × Table KnowledgeBase.id :=
  match bases.entries.find? (·.name = name) with
  | some record => (record, bases)
  | none => (⟨newId, name⟩, bases.put ⟨newId, name⟩)

/-- The documents that the query names. -/
def matchingDocuments (lower : String → String) (store : KnowledgeStore) (sourceKbId : String)
    (documentQuery : String) : List KnowledgeDocument :=
  (store.documents.entries.filter (·.kbId = sourceKbId)).filter fun document =>
    matchKey lower documentQuery <:+: matchKey lower document.filename

/-- The document and its chunks get the new base. -/
def moveTo (store : KnowledgeStore) (document : KnowledgeDocument) (target : KnowledgeBase) :
    KnowledgeStore :=
  { store with
    documents := store.documents.put { document with kbId := target.id }
    chunks := store.chunks.map fun chunk =>
      if chunk.docId = document.id then { chunk with kbId := target.id } else chunk }

/-- `move_document`: one transaction, rolled back by an error. -/
def moveDocument (lower : String → String) (store : KnowledgeStore)
    (sourceKbId documentQuery targetKbName newId : String) :
    Except KnowledgeError ((KnowledgeDocument × KnowledgeBase) × KnowledgeStore) := do
  let targetName ← normalizeName targetKbName
  let (target, bases) := getOrCreateBase store.bases targetName newId
  match matchingDocuments lower store sourceKbId documentQuery with
  | [] => .error ⟨"KNOWLEDGE_DOCUMENT_NOT_FOUND", "未找到要移动的文档"⟩
  | [document] => .ok (({ document with kbId := target.id }, target),
      moveTo { store with bases } document target)
  | ambiguous =>
    .error ⟨"KNOWLEDGE_DOCUMENT_AMBIGUOUS",
      "找到多个文档：" ++ "、".intercalate ((ambiguous.take 3).map (·.filename))⟩

/-! ## `ingest` -/

/-- The file behind a path; `size` is none where there is none. -/
structure SourceFile where
  name : String
  suffix : String
  size : Option Nat
  isFile : Bool
  deriving DecidableEq, Repr

structure IngestRequest where
  filePath : SourceFile
  kbId : String
  originalName : String := ""
  deriving DecidableEq, Repr

structure IngestResult where
  kbId : String
  documentId : String
  status : DocumentStatus
  chunkCount : Nat
  totalChunks : Nat
  error : String
  deriving DecidableEq, Repr

def allowedExtensions : List String := [".pdf", ".docx", ".md", ".txt"]

def maxFileBytes : Nat := 20 * 1024 * 1024

/-- `suffix.lstrip(".")`. -/
def withoutDots (suffix : String) : String := String.ofList (suffix.toList.dropWhile (· = '.'))

/-- `validate_file`; the text of the second error ends in the whole path. -/
def validateFile (lower : String → String) (path : SourceFile) : Except KnowledgeError String :=
  if lower path.suffix ∉ allowedExtensions then
    .error ⟨"KNOWLEDGE_FILE_TYPE_UNSUPPORTED", "暂不支持该文件格式"⟩
  else if path.size = none ∨ path.isFile = false then
    .error ⟨"KNOWLEDGE_FILE_NOT_FOUND", "File not found: " ++ path.name⟩
  else if path.size.any (maxFileBytes < ·) then
    .error ⟨"KNOWLEDGE_FILE_TOO_LARGE", "单文件不能超过 20MB"⟩
  else .ok (withoutDots (lower path.suffix))

/-- `_document_for`. -/
def documentFor (lower : String → String) (request : IngestRequest) (id : String)
    (createdAt : Nat) : KnowledgeDocument where
  id
  kbId := request.kbId
  filename := if request.originalName = "" then request.filePath.name else request.originalName
  fileType :=
    match validateFile lower request.filePath with
    | .ok fileType => fileType
    | .error _ => withoutDots (lower request.filePath.suffix)
  fileSize := request.filePath.size.getD 0
  createdAt

def batchSize : Nat := 64

/-- The chunks of one batch. `IndexError` where there are more vectors than texts. -/
def buildBatch (document : KnowledgeDocument) (texts : List String) :
    Nat → List Embedding → Except String (List KnowledgeChunk)
  | _, [] => .ok []
  | index, vector :: vectors =>
    match texts[index]? with
    | none => .error "list index out of range"
    | some content => (buildBatch document texts (index + 1) vectors).map fun built =>
        { kbId := document.kbId, docId := document.id, content, embedding := vector,
          source := document.filename, chunkIndex := index } :: built

/-- The loop over the batches: the chunks and the texts of the failures. -/
def embedBatches (document : KnowledgeDocument) (texts : List String) :
    Nat → List (Except String (List Embedding)) →
      Except String (List KnowledgeChunk × List String)
  | _, [] => .ok ([], [])
  | start, .error failure :: replies => do
    let (built, failures) ← embedBatches document texts (start + batchSize) replies
    return (built, failure :: failures)
  | start, .ok vectors :: replies => do
    let batch ← buildBatch document texts start vectors
    let (built, failures) ← embedBatches document texts (start + batchSize) replies
    return (batch ++ built, failures)

/-- `_embed_chunks` with the replies of the embedder to the batches. -/
def embedChunks (document : KnowledgeDocument) (texts : List String)
    (replies : List (Except String (List Embedding))) :
    Except String (List KnowledgeChunk × String) :=
  (embedBatches document texts 0 replies).map fun (built, failures) =>
    (built, "; ".intercalate failures)

/-- What `_finish` is called with. -/
structure Finish where
  status : DocumentStatus
  chunkCount : Nat
  totalChunks : Nat
  error : String
  deriving DecidableEq, Repr

/-- The call that an ingest makes next. The `finish` of the `try` block is
`guarded`: where it raises, the `except` branch finishes once more. -/
inductive Phase
  | lookUp
  | delete (existing : String)
  | create (existing : Option String)
  | parse
  | embed (texts : List String)
  | addChunks (built : List KnowledgeChunk) (totalChunks : Nat) (error : String)
  | finish (final : Finish) (guarded : Bool)
  deriving DecidableEq, Repr

/-- How a call ends. -/
inductive Reply
  | raised (error : String)
  | answered
  | found (existing : Option String)
  | parsed (texts : List String)
  | embedded (replies : List (Except String (List Embedding)))

/-- Where an ingest is behind a call. -/
inductive Progress
  | goesOn (phase : Phase)
  | returns (result : IngestResult)
  | raises (error : String)
  deriving DecidableEq, Repr

/-- The `except` branch behind the second `try`. -/
def exceptBranch (totalChunks : Nat) (error : String) : Progress :=
  .goesOn (.finish ⟨.failed, 0, totalChunks, error⟩ false)

/-- The last `_finish` of the second `try`. -/
def finishBuilt (chunkCount totalChunks : Nat) (error : String) : Progress :=
  .goesOn (.finish ⟨if error = "" then .ready else .partially, chunkCount, totalChunks, error⟩ true)

/-- `document.model_copy(update=...)` of `_finish`. -/
def finished (document : KnowledgeDocument) (final : Finish) : KnowledgeDocument :=
  { document with status := final.status, chunkCount := final.chunkCount, error := final.error }

/-- One call of `ingest`; none where no such reply is possible. -/
def advance (store : KnowledgeStore) (document : KnowledgeDocument) :
    Phase → Reply → Option (Progress × KnowledgeStore)
  | .lookUp, .raised error => some (.raises error, store)
  | .lookUp, .found existing =>
    if store.MayFind document.kbId document.filename existing then
      match existing with
      | some id => some (.goesOn (.delete id), store)
      | none => some (.goesOn (.create none), store)
    else none
  | .delete _, .raised error => some (.raises error, store)
  | .delete id, .answered => some (.goesOn (.create (some id)), store.deleteDocument id)
  | .create _, .raised error => some (.raises error, store)
  | .create _, .answered => (store.createDocument document).map fun store => (.goesOn .parse, store)
  | .parse, .raised error => some (.goesOn (.finish ⟨.failed, 0, 0, error⟩ false), store)
  | .parse, .parsed texts =>
    if texts = [] then some (.goesOn (.finish ⟨.empty, 0, 0, ""⟩ false), store)
    else some (.goesOn (.embed texts), store)
  | .embed texts, .embedded replies =>
    if replies.length = (texts.length + batchSize - 1) / batchSize then
      match embedChunks document texts replies with
      | .error error => some (exceptBranch texts.length error, store)
      | .ok (built, error) =>
        if built = [] then some (finishBuilt 0 texts.length error, store)
        else some (.goesOn (.addChunks built texts.length error), store)
    else none
  | .addChunks _ totalChunks _, .raised error => some (exceptBranch totalChunks error, store)
  | .addChunks built totalChunks error, .answered =>
    (store.addChunks built).map fun store => (finishBuilt built.length totalChunks error, store)
  | .finish final guarded, .raised error =>
    if guarded then some (exceptBranch final.totalChunks error, store)
    else some (.raises error, store)
  | .finish final _, .answered =>
    some (.returns ⟨document.kbId, document.id, final.status, final.chunkCount,
      final.totalChunks, final.error⟩, store.updateDocument (finished document final))
  | _, _ => none

/-! ## Interleaved ingests and moves -/

/-- An ingest that has started and not ended. -/
structure Ingest where
  document : KnowledgeDocument
  phase : Phase
  deriving DecidableEq, Repr

def Ingest.id (ingest : Ingest) : String := ingest.document.id

/-- `issued` are the ids that have been generated for documents. -/
structure KnowledgeState where
  store : KnowledgeStore
  ingests : Table Ingest.id
  issued : List String

inductive Action
  | start (request : IngestRequest) (id : String) (createdAt : Nat)
  | call (id : String) (reply : Reply)
  | die (id : String)
  | move (raises : Bool) (sourceKbId documentQuery targetKbName newId : String)

/-- Where an ingest is, or none behind its end. -/
def proceed (ingests : Table Ingest.id) (ingest : Ingest) : Progress → Table Ingest.id
  | .goesOn phase => ingests.put { ingest with phase }
  | .returns _ => ingests.erase ingest.id
  | .raises _ => ingests.erase ingest.id

def machine (lower : String → String) : Machine KnowledgeState Action where
  step s
    | .start request id createdAt =>
      if id ∈ s.issued then none
      else some { s with
        ingests := s.ingests.put ⟨documentFor lower request id createdAt, .lookUp⟩
        issued := id :: s.issued }
    | .call id reply => do
      let ingest ← s.ingests.find id
      let (progress, store) ← advance s.store ingest.document ingest.phase reply
      return { s with store, ingests := proceed s.ingests ingest progress }
    | .die id =>
      if s.ingests.find id = none then none else some { s with ingests := s.ingests.erase id }
    | .move raises sourceKbId documentQuery targetKbName newId =>
      if s.store.bases.find newId ≠ none then none
      else if raises then some s
      else
        match moveDocument lower s.store sourceKbId documentQuery targetKbName newId with
        | .error _ => some s
        | .ok (_, store) => some { s with store }

end NeuralHub.Knowledge
