/-
NeuralHub.Knowledge.IngestTheorems — one document per name, and how many
chunks it says it has.

An ingest replaces: it deletes the document its look-up has found before
it creates its own. What it does not see is a document of that name that
comes in behind the look-up, and a move does not look at all. The chunks
are stored before their number is; where the number cannot be written, the
`except` branch writes 0 behind chunks that stay. `Careful` excludes these
three and nothing else (`always_good_iff_careful`).
-/
import NeuralHub.Knowledge.Ingest

namespace NeuralHub.Knowledge

open NeuralHub.Lib

variable {lower : String → String} {store store' : KnowledgeStore} {s t : KnowledgeState}
  {document : KnowledgeDocument}

/-! ## What is to hold -/

/-- Each base holds at most one document with a given name. -/
def DistinctNames (store : KnowledgeStore) : Prop :=
  ∀ k l d e, store.documents.find k = some d → store.documents.find l = some e →
    d.kbId = e.kbId → d.filename = e.filename → k = l

/-- A document that is not in processing has as many chunks as it says. -/
def CountsTrue (store : KnowledgeStore) : Prop :=
  ∀ k d, store.documents.find k = some d → d.status ≠ .processing →
    d.chunkCount = (store.chunksOf k).length

structure Good (store : KnowledgeStore) : Prop where
  names : DistinctNames store
  counts : CountsTrue store

/-- No ingest is running; what earlier ones have left behind is as it is to be. -/
structure Start (s : KnowledgeState) : Prop where
  idle : s.ingests.entries = []
  good : Good s.store
  linked : ∀ chunk ∈ s.store.chunks, s.store.documents.find chunk.docId ≠ none
  issued : ∀ id, s.store.documents.find id ≠ none → id ∈ s.issued

/-! ## The condition -/

/-- Where an ingest creates its document, no other one of that name has come into the base
since its look-up, and `failed` is written where no chunks are. -/
def CallOk (store : KnowledgeStore) (ingest : Ingest) : Prop :=
  match ingest.phase with
  | .create existing => ∀ other ∈ store.named ingest.document.kbId ingest.document.filename,
      existing = some other.id
  | .finish final _ => final.status = .failed → store.chunksOf ingest.id = []
  | _ => True

/-- Where a document is moved, the base has no other one of that name. -/
def MoveOk (lower : String → String) (store : KnowledgeStore)
    (sourceKbId documentQuery targetKbName newId : String) : Prop :=
  match normalizeName targetKbName, matchingDocuments lower store sourceKbId documentQuery with
  | .ok name, [document] =>
    ∀ other ∈ store.named (getOrCreateBase store.bases name newId).1.id document.filename,
      other.id = document.id
  | _, _ => True

def Careful (lower : String → String) (s : KnowledgeState) : Action → Prop
  | .call id .answered => ∀ ingest ∈ s.ingests.find id, CallOk s.store ingest
  | .move false sourceKbId documentQuery targetKbName newId =>
    MoveOk lower s.store sourceKbId documentQuery targetKbName newId
  | _ => True

instance (store : KnowledgeStore) (ingest : Ingest) : Decidable (CallOk store ingest) := by
  unfold CallOk
  split <;> infer_instance

instance (lower : String → String) (store : KnowledgeStore)
    (sourceKbId documentQuery targetKbName newId : String) :
    Decidable (MoveOk lower store sourceKbId documentQuery targetKbName newId) := by
  unfold MoveOk
  split <;> infer_instance

instance (lower : String → String) (s : KnowledgeState) (a : Action) :
    Decidable (Careful lower s a) := by
  unfold Careful
  split <;> infer_instance

/-! ## The tables -/

theorem mem_named {kbId filename : String} : document ∈ store.named kbId filename ↔
    store.documents.find document.id = some document ∧ document.kbId = kbId ∧
      document.filename = filename := by
  simp [KnowledgeStore.named, Table.find_eq_some_iff]

/-- The status of a document and the number of its chunks. -/
def KnowledgeStore.summary (store : KnowledgeStore) (id : String) : Option (DocumentStatus × Nat) :=
  (store.documents.find id).map fun document => (document.status, (store.chunksOf id).length)

theorem summary_eq_none_iff {id : String} :
    store.summary id = none ↔ store.documents.find id = none := Option.map_eq_none_iff

/-- Every chunk is of a document. -/
def Linked (store : KnowledgeStore) : Prop :=
  ∀ chunk ∈ store.chunks, store.documents.find chunk.docId ≠ none

theorem Linked.chunksOf (h : Linked store) {id : String} (hid : store.documents.find id = none) :
    store.chunksOf id = [] := by
  rw [KnowledgeStore.chunksOf, List.filter_eq_nil_iff]
  intro chunk hchunk heq
  refine h chunk hchunk ?_
  rwa [decide_eq_true_iff.mp heq]

/-! ### `create_document` -/

theorem find_createDocument (h : store.createDocument document = some store') (k : String) :
    store'.documents.find k =
      if k = document.id then some document else store.documents.find k := by
  unfold KnowledgeStore.createDocument at h
  split at h
  · cases h
  · obtain ⟨documents, hdocuments, rfl⟩ := Option.map_eq_some_iff.mp h
    exact Table.find_insertNew hdocuments k

theorem chunks_createDocument (h : store.createDocument document = some store') :
    store'.chunks = store.chunks := by
  unfold KnowledgeStore.createDocument at h
  split at h
  · cases h
  · obtain ⟨documents, -, rfl⟩ := Option.map_eq_some_iff.mp h
    rfl

theorem chunksOf_createDocument (h : store.createDocument document = some store') (k : String) :
    store'.chunksOf k = store.chunksOf k := by
  rw [KnowledgeStore.chunksOf, KnowledgeStore.chunksOf, chunks_createDocument h]

/-! ### `delete_document` -/

theorem find_deleteDocument (id k : String) :
    (store.deleteDocument id).documents.find k =
      if k = id then none else store.documents.find k := Table.find_erase _ _ _

theorem chunksOf_deleteDocument (id k : String) :
    (store.deleteDocument id).chunksOf k = if k = id then [] else store.chunksOf k := by
  simp only [KnowledgeStore.chunksOf, KnowledgeStore.deleteDocument, List.filter_filter]
  split
  · rename_i hk
    subst hk
    simp
  · rename_i hk
    refine List.filter_congr fun chunk _ => ?_
    by_cases hchunk : chunk.docId = k
    · simp [hchunk, hk]
    · simp [hchunk]

/-! ### `update_document` -/

/-- What is written into the row of a document. -/
def KnowledgeDocument.updated (record document : KnowledgeDocument) : KnowledgeDocument :=
  { record with
    status := document.status, chunkCount := document.chunkCount, error := document.error }

theorem find_updateDocument (k : String) :
    (store.updateDocument document).documents.find k =
      if k = document.id then (store.documents.find k).map (·.updated document)
      else store.documents.find k := by
  unfold KnowledgeStore.updateDocument
  cases hfind : store.documents.find document.id with
  | none =>
    show store.documents.find k = _
    split
    · rename_i hk
      rw [hk, hfind]
      rfl
    · rfl
  | some record =>
    have hid : record.id = document.id := Table.key_of_find hfind
    show (store.documents.put (record.updated document)).find k = _
    rw [Table.find_put, show (record.updated document).id = document.id from hid]
    split
    · rename_i hk
      rw [hk, hfind]
      rfl
    · rfl

theorem chunks_updateDocument : (store.updateDocument document).chunks = store.chunks := by
  unfold KnowledgeStore.updateDocument
  split <;> rfl

theorem chunksOf_updateDocument (k : String) :
    (store.updateDocument document).chunksOf k = store.chunksOf k := by
  rw [KnowledgeStore.chunksOf, KnowledgeStore.chunksOf, chunks_updateDocument]

/-! ### `add_chunks` -/

theorem addChunks_eq_some_iff {built : List KnowledgeChunk} :
    store.addChunks built = some store' ↔
      (∀ chunk ∈ built, store.documents.find chunk.docId ≠ none) ∧
        store' = { store with chunks := store.chunks ++ built } := by
  unfold KnowledgeStore.addChunks
  split
  · rename_i h
    rw [Option.some_inj]
    exact ⟨fun heq => ⟨h, heq.symm⟩, fun heq => heq.2.symm⟩
  · rename_i h
    exact ⟨fun heq => absurd heq.symm (Option.some_ne_none _), fun heq => absurd heq.1 h⟩

theorem chunksOf_append (built : List KnowledgeChunk) (k : String) :
    KnowledgeStore.chunksOf { store with chunks := store.chunks ++ built } k =
      store.chunksOf k ++ built.filter fun chunk => chunk.docId = k := by
  rw [KnowledgeStore.chunksOf, KnowledgeStore.chunksOf, List.filter_append]

/-! ### `move_document` -/

theorem find_moveTo {target : KnowledgeBase} (k : String) :
    (moveTo store document target).documents.find k =
      if k = document.id then some { document with kbId := target.id }
      else store.documents.find k := Table.find_put _ _ _

theorem chunksOf_moveTo {target : KnowledgeBase} (k : String) :
    ((moveTo store document target).chunksOf k).length = (store.chunksOf k).length := by
  have hdoc : ∀ chunk : KnowledgeChunk,
      (if chunk.docId = document.id then { chunk with kbId := target.id } else chunk).docId =
        chunk.docId := by
    intro chunk
    split <;> rfl
  simp only [KnowledgeStore.chunksOf, moveTo, List.filter_map, List.length_map]
  congr 1
  refine List.filter_congr fun chunk _ => ?_
  rw [Function.comp_apply, hdoc]

/-! ## Summaries -/

theorem summary_createDocument (h : store.createDocument document = some store') {k : String}
    (hk : k ≠ document.id) : store'.summary k = store.summary k := by
  rw [KnowledgeStore.summary, KnowledgeStore.summary, find_createDocument h, if_neg hk,
    chunksOf_createDocument h]

theorem summary_deleteDocument (id k : String) :
    (store.deleteDocument id).summary k = if k = id then none else store.summary k := by
  rw [KnowledgeStore.summary, KnowledgeStore.summary, find_deleteDocument,
    chunksOf_deleteDocument]
  split <;> rfl

theorem summary_updateDocument {k : String} (hk : k ≠ document.id) :
    (store.updateDocument document).summary k = store.summary k := by
  rw [KnowledgeStore.summary, KnowledgeStore.summary, find_updateDocument, if_neg hk,
    chunksOf_updateDocument]

theorem summary_moveTo {target : KnowledgeBase}
    (hfind : store.documents.find document.id = some document) (k : String) :
    (moveTo store document target).summary k = store.summary k := by
  rw [KnowledgeStore.summary, KnowledgeStore.summary, find_moveTo, chunksOf_moveTo]
  split
  · rename_i hk
    rw [hk, hfind]
    rfl
  · rfl

theorem filter_docId_of_ne {built : List KnowledgeChunk} {id k : String}
    (hbuilt : ∀ chunk ∈ built, chunk.docId = id) (hk : k ≠ id) :
    built.filter (fun chunk => chunk.docId = k) = [] := by
  rw [List.filter_eq_nil_iff]
  intro chunk hchunk heq
  exact hk ((decide_eq_true_iff.mp heq).symm.trans (hbuilt chunk hchunk))

theorem filter_docId_self {built : List KnowledgeChunk} {id : String}
    (hbuilt : ∀ chunk ∈ built, chunk.docId = id) :
    built.filter (fun chunk => chunk.docId = id) = built := by
  rw [List.filter_eq_self]
  exact fun chunk hchunk => decide_eq_true (hbuilt chunk hchunk)

/-! ## What each call keeps -/

theorem linked_createDocument (hl : Linked store)
    (h : store.createDocument document = some store') : Linked store' := by
  intro chunk hchunk
  rw [chunks_createDocument h] at hchunk
  rw [find_createDocument h]
  split
  · exact Option.some_ne_none _
  · exact hl chunk hchunk

theorem linked_deleteDocument (hl : Linked store) (id : String) :
    Linked (store.deleteDocument id) := by
  intro chunk hchunk
  obtain ⟨hmem, hne⟩ := List.mem_filter.mp hchunk
  rw [find_deleteDocument, if_neg (decide_eq_true_iff.mp hne)]
  exact hl chunk hmem

theorem linked_updateDocument (hl : Linked store) : Linked (store.updateDocument document) := by
  intro chunk hchunk
  rw [chunks_updateDocument] at hchunk
  rw [find_updateDocument]
  have hfind := hl chunk hchunk
  split
  · simpa using hfind
  · exact hfind

theorem linked_addChunks {built : List KnowledgeChunk} (hl : Linked store)
    (hbuilt : ∀ chunk ∈ built, store.documents.find chunk.docId ≠ none) :
    Linked { store with chunks := store.chunks ++ built } := by
  intro chunk hchunk
  rcases List.mem_append.mp hchunk with hmem | hmem
  · exact hl chunk hmem
  · exact hbuilt chunk hmem

theorem linked_moveTo {target : KnowledgeBase} (hl : Linked store) :
    Linked (moveTo store document target) := by
  intro chunk hchunk
  obtain ⟨old, hold, rfl⟩ := List.mem_map.mp hchunk
  have hdoc : (if old.docId = document.id then { old with kbId := target.id } else old).docId =
      old.docId := by
    split <;> rfl
  rw [hdoc, find_moveTo]
  split
  · exact Option.some_ne_none _
  · exact hl old hold

theorem distinctNames_createDocument (hn : DistinctNames store)
    (h : store.createDocument document = some store')
    (hnew : store.named document.kbId document.filename = []) : DistinctNames store' := by
  have hnone : ∀ k d, store.documents.find k = some d → d.kbId = document.kbId →
      d.filename = document.filename → False := by
    intro k d hd hkb hfilename
    have hmem : d ∈ store.named document.kbId document.filename :=
      mem_named.mpr ⟨(Table.key_of_find hd) ▸ hd, hkb, hfilename⟩
    rw [hnew] at hmem
    cases hmem
  intro k l d e hd he hkb hfilename
  rw [find_createDocument h] at hd he
  split at hd <;> split at he
  · rename_i hk hl
    exact hk.trans hl.symm
  · cases hd
    exact (hnone l e he hkb.symm hfilename.symm).elim
  · cases he
    exact (hnone k d hd hkb hfilename).elim
  · exact hn k l d e hd he hkb hfilename

theorem distinctNames_deleteDocument (hn : DistinctNames store) (id : String) :
    DistinctNames (store.deleteDocument id) := by
  intro k l d e hd he
  rw [find_deleteDocument] at hd he
  split at hd
  · cases hd
  · split at he
    · cases he
    · exact hn k l d e hd he

theorem distinctNames_updateDocument (hn : DistinctNames store) :
    DistinctNames (store.updateDocument document) := by
  have hold : ∀ k d, (store.updateDocument document).documents.find k = some d →
      ∃ old, store.documents.find k = some old ∧ old.kbId = d.kbId ∧
        old.filename = d.filename := by
    intro k d hd
    rw [find_updateDocument] at hd
    split at hd
    · obtain ⟨old, hold, rfl⟩ := Option.map_eq_some_iff.mp hd
      exact ⟨old, hold, rfl, rfl⟩
    · exact ⟨d, hd, rfl, rfl⟩
  intro k l d e hd he hkb hfilename
  obtain ⟨d', hd', hdkb, hdname⟩ := hold k d hd
  obtain ⟨e', he', hekb, hename⟩ := hold l e he
  exact hn k l d' e' hd' he' (hdkb.trans (hkb.trans hekb.symm))
    (hdname.trans (hfilename.trans hename.symm))

theorem distinctNames_moveTo {target : KnowledgeBase} (hn : DistinctNames store)
    (halone : ∀ other ∈ store.named target.id document.filename, other.id = document.id) :
    DistinctNames (moveTo store document target) := by
  have hother : ∀ k d, store.documents.find k = some d → d.kbId = target.id →
      d.filename = document.filename → k = document.id := by
    intro k d hd hkb hfilename
    rw [← Table.key_of_find hd]
    exact halone d (mem_named.mpr ⟨(Table.key_of_find hd) ▸ hd, hkb, hfilename⟩)
  intro k l d e hd he hkb hfilename
  rw [find_moveTo] at hd he
  split at hd <;> split at he
  · rename_i hk hl
    exact hk.trans hl.symm
  · rename_i hk hl
    cases hd
    exact hk.trans (hother l e he hkb.symm hfilename.symm).symm
  · rename_i hk hl
    cases he
    exact (hother k d hd hkb hfilename).trans hl.symm
  · exact hn k l d e hd he hkb hfilename

theorem countsTrue_createDocument (hc : CountsTrue store)
    (h : store.createDocument document = some store') (hnew : document.status = .processing) :
    CountsTrue store' := by
  intro k d hd hstatus
  rw [find_createDocument h] at hd
  rw [chunksOf_createDocument h]
  split at hd
  · cases hd
    exact absurd hnew hstatus
  · exact hc k d hd hstatus

theorem countsTrue_deleteDocument (hc : CountsTrue store) (id : String) :
    CountsTrue (store.deleteDocument id) := by
  intro k d hd hstatus
  rw [find_deleteDocument] at hd
  split at hd
  · cases hd
  · rename_i hk
    rw [chunksOf_deleteDocument, if_neg hk]
    exact hc k d hd hstatus

theorem countsTrue_updateDocument (hc : CountsTrue store)
    (hcount : store.documents.find document.id ≠ none →
      document.chunkCount = (store.chunksOf document.id).length) :
    CountsTrue (store.updateDocument document) := by
  intro k d hd hstatus
  rw [find_updateDocument] at hd
  rw [chunksOf_updateDocument]
  split at hd
  · rename_i hk
    obtain ⟨old, hold, rfl⟩ := Option.map_eq_some_iff.mp hd
    rw [hk] at hold ⊢
    exact hcount (by simp [hold])
  · exact hc k d hd hstatus

theorem countsTrue_addChunks {built : List KnowledgeChunk} (hc : CountsTrue store) {id : String}
    (hbuilt : ∀ chunk ∈ built, chunk.docId = id)
    (hid : ∀ d, store.documents.find id = some d → d.status = .processing) :
    CountsTrue { store with chunks := store.chunks ++ built } := by
  intro k d hd hstatus
  have hk : k ≠ id := by
    rintro rfl
    exact hstatus (hid d hd)
  rw [chunksOf_append, filter_docId_of_ne hbuilt hk, List.append_nil]
  exact hc k d hd hstatus

theorem countsTrue_moveTo {target : KnowledgeBase} (hc : CountsTrue store)
    (hfind : store.documents.find document.id = some document) :
    CountsTrue (moveTo store document target) := by
  intro k d hd hstatus
  rw [find_moveTo] at hd
  rw [chunksOf_moveTo]
  split at hd
  · rename_i hk
    cases hd
    rw [hk]
    exact hc _ document hfind hstatus
  · exact hc k d hd hstatus

/-! ## Where an ingest is -/

theorem docId_of_buildBatch {texts : List String} {vectors : List Embedding} {index : Nat}
    {built : List KnowledgeChunk} (h : buildBatch document texts index vectors = .ok built) :
    ∀ chunk ∈ built, chunk.docId = document.id := by
  induction vectors generalizing index built with
  | nil =>
    cases h
    simp
  | cons vector vectors ih =>
    rw [buildBatch] at h
    split at h
    · cases h
    · cases hrest : buildBatch document texts (index + 1) vectors with
      | error e => simp [hrest, Except.map] at h
      | ok rest =>
        rw [hrest] at h
        cases h
        exact List.forall_mem_cons.mpr ⟨rfl, ih hrest⟩

theorem docId_of_embedBatches {texts : List String}
    {replies : List (Except String (List Embedding))} {start : Nat}
    {built : List KnowledgeChunk} {failures : List String}
    (h : embedBatches document texts start replies = .ok (built, failures)) :
    ∀ chunk ∈ built, chunk.docId = document.id := by
  induction replies generalizing start built failures with
  | nil =>
    cases h
    simp
  | cons reply replies ih =>
    cases hrest : embedBatches document texts (start + batchSize) replies with
    | error e =>
      cases reply with
      | error failure => simp [embedBatches, hrest, bind, Except.bind] at h
      | ok vectors =>
        cases hbatch : buildBatch document texts start vectors with
        | error e => simp [embedBatches, hbatch, bind, Except.bind] at h
        | ok batch => simp [embedBatches, hbatch, hrest, bind, Except.bind] at h
    | ok result =>
      obtain ⟨rest, restFailures⟩ := result
      cases reply with
      | error failure =>
        simp [embedBatches, hrest, bind, Except.bind, pure, Except.pure] at h
        rw [← h.1]
        exact ih hrest
      | ok vectors =>
        cases hbatch : buildBatch document texts start vectors with
        | error e => simp [embedBatches, hbatch, bind, Except.bind] at h
        | ok batch =>
          simp [embedBatches, hbatch, hrest, bind, Except.bind, pure, Except.pure] at h
          rw [← h.1, List.forall_mem_append]
          exact ⟨docId_of_buildBatch hbatch, ih hrest⟩

theorem docId_of_embedChunks {texts : List String}
    {replies : List (Except String (List Embedding))} {built : List KnowledgeChunk}
    {error : String} (h : embedChunks document texts replies = .ok (built, error)) :
    ∀ chunk ∈ built, chunk.docId = document.id := by
  rw [embedChunks] at h
  cases hloop : embedBatches document texts 0 replies with
  | error e => simp [hloop, Except.map] at h
  | ok result =>
    rw [hloop] at h
    cases h
    exact docId_of_embedBatches hloop

/-- A document that an ingest works on is in processing, without chunks. -/
def Open (store : KnowledgeStore) (id : String) : Prop :=
  ∀ summary, store.summary id = some summary → summary = (.processing, 0)

/-- What the tables hold of the document of an ingest that is in this phase. -/
def PhaseOk (store : KnowledgeStore) (document : KnowledgeDocument) : Phase → Prop
  | .lookUp => store.summary document.id = none
  | .delete _ => store.summary document.id = none
  | .create existing => store.summary document.id = none ∧ ∀ k ∈ existing, store.summary k = none
  | .parse => Open store document.id
  | .embed _ => Open store document.id
  | .addChunks built _ _ => Open store document.id ∧ ∀ chunk ∈ built, chunk.docId = document.id
  | .finish final true => final.status ≠ .failed ∧
      ∀ summary, store.summary document.id = some summary → final.chunkCount = summary.2
  | .finish final false => final.chunkCount = 0 ∧ (final.status = .failed ∨ Open store document.id)

/-- A phase does not suffer from what others take away. -/
theorem PhaseOk.mono {phase : Phase} (h : PhaseOk store document phase)
    (hid : store'.summary document.id = store.summary document.id ∨
      store'.summary document.id = none)
    (hexisting : ∀ k, phase = .create (some k) → store.summary k = none →
      store'.summary k = none) : PhaseOk store' document phase := by
  have hnone : store.summary document.id = none → store'.summary document.id = none := by
    intro hn
    rcases hid with heq | heq
    · rw [heq, hn]
    · exact heq
  have hsome : ∀ summary, store'.summary document.id = some summary →
      store.summary document.id = some summary := by
    intro summary hs
    rcases hid with heq | heq
    · rw [← heq, hs]
    · rw [heq] at hs
      cases hs
  have hopen : Open store document.id → Open store' document.id :=
    fun ho summary hs => ho summary (hsome summary hs)
  cases phase with
  | lookUp => exact hnone h
  | delete existing => exact hnone h
  | create existing =>
    refine ⟨hnone h.1, fun k hk => ?_⟩
    rw [Option.mem_def] at hk
    subst hk
    exact hexisting k rfl (h.2 k rfl)
  | parse => exact hopen h
  | embed texts => exact hopen h
  | addChunks built totalChunks error => exact ⟨hopen h.1, h.2⟩
  | finish final guarded =>
    cases guarded with
    | true => exact ⟨h.1, fun summary hs => h.2 summary (hsome summary hs)⟩
    | false => exact ⟨h.1, h.2.imp_right hopen⟩

/-! ## One call -/

/-- What one call of the ingest of `document` does. -/
structure CallResult (store store' : KnowledgeStore) (document : KnowledgeDocument)
    (phase : Phase) (progress : Progress) : Prop where
  good : Good store'
  linked : Linked store'
  others : ∀ k, k ≠ document.id → store'.summary k = store.summary k ∨ store'.summary k = none
  own : store.summary document.id = none → (∀ existing, phase ≠ .create existing) →
    store'.summary document.id = none
  next : ∀ phase', progress = .goesOn phase' → PhaseOk store' document phase'
  found : ∀ k, progress = .goesOn (.delete k) → store.summary k ≠ none
  passed : ∀ k, progress = .goesOn (.create (some k)) → phase = .delete k

/-- A call that writes nothing. -/
theorem CallResult.same {phase : Phase} {progress : Progress} (hg : Good store) (hl : Linked store)
    (hnext : ∀ phase', progress = .goesOn phase' → PhaseOk store document phase')
    (hfound : ∀ k, progress = .goesOn (.delete k) → store.summary k ≠ none)
    (hpassed : ∀ k, progress = .goesOn (.create (some k)) → phase = .delete k) :
    CallResult store store document phase progress :=
  ⟨hg, hl, fun _ _ => Or.inl rfl, fun hnone _ => hnone, hnext, hfound, hpassed⟩

variable {phase : Phase} {reply : Reply} {progress : Progress}

theorem lookUp_result (hg : Good store) (hl : Linked store) (hp : PhaseOk store document .lookUp)
    (h : advance store document .lookUp reply = some (progress, store')) :
    CallResult store store' document .lookUp progress := by
  cases reply with
  | raised error =>
    cases h
    exact .same hg hl nofun nofun nofun
  | found existing =>
    cases existing with
    | none =>
      obtain ⟨-, heq⟩ := Option.ite_none_right_eq_some.mp h
      cases heq
      refine .same hg hl ?_ nofun nofun
      rintro phase' ⟨⟩
      exact ⟨hp, nofun⟩
    | some id =>
      obtain ⟨hmay, heq⟩ := Option.ite_none_right_eq_some.mp h
      cases heq
      refine .same hg hl ?_ ?_ nofun
      · rintro phase' ⟨⟩
        exact hp
      · rintro k ⟨⟩
        obtain ⟨d, hd, rfl, -⟩ := hmay
        rw [Ne, summary_eq_none_iff, (mem_named.mp hd).1]
        exact Option.some_ne_none d
  | answered => cases h
  | parsed texts => cases h
  | embedded replies => cases h

theorem delete_result {id : String} (hg : Good store) (hl : Linked store)
    (hp : PhaseOk store document (.delete id))
    (h : advance store document (.delete id) reply = some (progress, store')) :
    CallResult store store' document (.delete id) progress := by
  cases reply with
  | raised error =>
    cases h
    exact .same hg hl nofun nofun nofun
  | answered =>
    cases h
    have hsummary : ∀ k, (store.deleteDocument id).summary k = store.summary k ∨
        (store.deleteDocument id).summary k = none := by
      intro k
      rw [summary_deleteDocument]
      split
      · exact Or.inr rfl
      · exact Or.inl rfl
    have hgone : store.summary document.id = none →
        (store.deleteDocument id).summary document.id = none := by
      intro hnone
      rcases hsummary document.id with heq | heq
      · rw [heq, hnone]
      · exact heq
    refine ⟨⟨distinctNames_deleteDocument hg.names id, countsTrue_deleteDocument hg.counts id⟩,
      linked_deleteDocument hl id, fun k _ => hsummary k, fun hnone _ => hgone hnone, ?_, nofun,
      ?_⟩
    · rintro phase' ⟨⟩
      refine ⟨hgone hp, ?_⟩
      rintro k ⟨⟩
      rw [summary_deleteDocument, if_pos rfl]
    · rintro k ⟨⟩
      rfl
  | found existing => cases h
  | parsed texts => cases h
  | embedded replies => cases h

theorem create_result {existing : Option String} (hg : Good store) (hl : Linked store)
    (hnew : document.status = .processing) (hp : PhaseOk store document (.create existing))
    (hok : reply = .answered → CallOk store ⟨document, .create existing⟩)
    (h : advance store document (.create existing) reply = some (progress, store')) :
    CallResult store store' document (.create existing) progress := by
  cases reply with
  | raised error =>
    cases h
    exact .same hg hl nofun nofun nofun
  | answered =>
    obtain ⟨store'', hcreate, hpair⟩ := Option.map_eq_some_iff.mp h
    cases hpair
    have hnone : store.named document.kbId document.filename = [] := by
      -- whatever has that name is what the look-up found, and that has been deleted
      refine List.eq_nil_iff_forall_not_mem.mpr fun other hother => ?_
      have hfind := (mem_named.mp hother).1
      have hgone := hp.2 other.id (hok rfl other hother)
      rw [summary_eq_none_iff, hfind] at hgone
      cases hgone
    refine ⟨⟨distinctNames_createDocument hg.names hcreate hnone,
      countsTrue_createDocument hg.counts hcreate hnew⟩, linked_createDocument hl hcreate,
      fun k hk => Or.inl (summary_createDocument hcreate hk),
      fun _ hne => absurd rfl (hne existing), ?_, nofun, nofun⟩
    rintro phase' ⟨⟩ summary hsummary
    have hrows : store.chunksOf document.id = [] :=
      hl.chunksOf (summary_eq_none_iff.mp hp.1)
    rw [KnowledgeStore.summary, find_createDocument hcreate, if_pos rfl,
      chunksOf_createDocument hcreate, hrows, Option.map_some, hnew] at hsummary
    exact (Option.some.inj hsummary).symm
  | found existing => cases h
  | parsed texts => cases h
  | embedded replies => cases h

theorem parse_result (hg : Good store) (hl : Linked store) (hp : PhaseOk store document .parse)
    (h : advance store document .parse reply = some (progress, store')) :
    CallResult store store' document .parse progress := by
  cases reply with
  | raised error =>
    cases h
    refine .same hg hl ?_ nofun nofun
    rintro phase' ⟨⟩
    exact ⟨rfl, Or.inl rfl⟩
  | parsed texts =>
    rw [advance] at h
    split at h
    · cases h
      refine .same hg hl ?_ nofun nofun
      rintro phase' ⟨⟩
      exact ⟨rfl, Or.inr hp⟩
    · cases h
      refine .same hg hl ?_ nofun nofun
      rintro phase' ⟨⟩
      exact hp
  | answered => cases h
  | found existing => cases h
  | embedded replies => cases h

theorem finishBuilt_ok {count totalChunks : Nat} {error : String}
    (hcount : ∀ summary, store.summary document.id = some summary → count = summary.2) :
    ∀ phase', finishBuilt count totalChunks error = .goesOn phase' →
      PhaseOk store document phase' := by
  rintro phase' ⟨⟩
  refine ⟨?_, hcount⟩
  show (if error = "" then DocumentStatus.ready else .partially) ≠ .failed
  split <;> decide

theorem exceptBranch_ok {totalChunks : Nat} {error : String} :
    ∀ phase', exceptBranch totalChunks error = .goesOn phase' →
      PhaseOk store document phase' := by
  rintro phase' ⟨⟩
  exact ⟨rfl, Or.inl rfl⟩

theorem embed_result {texts : List String} (hg : Good store) (hl : Linked store)
    (hp : PhaseOk store document (.embed texts))
    (h : advance store document (.embed texts) reply = some (progress, store')) :
    CallResult store store' document (.embed texts) progress := by
  cases reply with
  | embedded replies =>
    rw [advance] at h
    split at h
    · split at h
      · cases h
        exact .same hg hl exceptBranch_ok nofun nofun
      · rename_i built error hbuilt
        split at h
        · cases h
          refine .same hg hl (finishBuilt_ok fun summary hs => ?_) nofun nofun
          rw [hp summary hs]
        · cases h
          refine .same hg hl ?_ nofun nofun
          rintro phase' ⟨⟩
          exact ⟨hp, docId_of_embedChunks hbuilt⟩
    · cases h
  | raised error => cases h
  | answered => cases h
  | found existing => cases h
  | parsed texts => cases h

theorem addChunks_result {built : List KnowledgeChunk} {totalChunks : Nat} {error : String}
    (hg : Good store) (hl : Linked store)
    (hp : PhaseOk store document (.addChunks built totalChunks error))
    (h : advance store document (.addChunks built totalChunks error) reply =
      some (progress, store')) :
    CallResult store store' document (.addChunks built totalChunks error) progress := by
  obtain ⟨hopen, hbuilt⟩ := hp
  cases reply with
  | raised error =>
    cases h
    exact .same hg hl exceptBranch_ok nofun nofun
  | answered =>
    obtain ⟨store'', hadd, hpair⟩ := Option.map_eq_some_iff.mp h
    cases hpair
    obtain ⟨hthere, rfl⟩ := addChunks_eq_some_iff.mp hadd
    have hprocessing : ∀ d, store.documents.find document.id = some d →
        d.status = .processing ∧ store.chunksOf document.id = [] := by
      intro d hd
      have hsummary := hopen (d.status, (store.chunksOf document.id).length)
        (by rw [KnowledgeStore.summary, hd, Option.map_some])
      rw [Prod.mk.injEq, List.length_eq_zero_iff] at hsummary
      exact hsummary
    refine ⟨⟨hg.names, countsTrue_addChunks hg.counts hbuilt fun d hd => (hprocessing d hd).1⟩,
      linked_addChunks hl hthere, fun k hk => Or.inl ?_, fun hnone _ => ?_,
      finishBuilt_ok fun summary hs => ?_, nofun, nofun⟩
    · rw [KnowledgeStore.summary, KnowledgeStore.summary, chunksOf_append,
        filter_docId_of_ne hbuilt hk, List.append_nil]
    · rw [summary_eq_none_iff] at hnone ⊢
      exact hnone
    · obtain ⟨d, hd, rfl⟩ := Option.map_eq_some_iff.mp hs
      show built.length = _
      rw [chunksOf_append, (hprocessing d hd).2, List.nil_append, filter_docId_self hbuilt]
  | found existing => cases h
  | parsed texts => cases h
  | embedded replies => cases h

theorem finish_result {final : Finish} {guarded : Bool} (hg : Good store) (hl : Linked store)
    (hp : PhaseOk store document (.finish final guarded))
    (hok : reply = .answered → CallOk store ⟨document, .finish final guarded⟩)
    (h : advance store document (.finish final guarded) reply = some (progress, store')) :
    CallResult store store' document (.finish final guarded) progress := by
  cases reply with
  | raised error =>
    rw [advance] at h
    split at h
    · cases h
      exact .same hg hl exceptBranch_ok nofun nofun
    · cases h
      exact .same hg hl nofun nofun nofun
  | answered =>
    cases h
    have hcount : store.documents.find document.id ≠ none →
        final.chunkCount = (store.chunksOf document.id).length := by
      intro hthere
      obtain ⟨d, hd⟩ := Option.ne_none_iff_exists'.mp hthere
      have hsummary : store.summary document.id =
          some (d.status, (store.chunksOf document.id).length) := by
        rw [KnowledgeStore.summary, hd, Option.map_some]
      cases guarded with
      | true => exact hp.2 _ hsummary
      | false =>
        rcases hp.2 with hfailed | hopen
        · have hrows : store.chunksOf document.id = [] := hok rfl hfailed
          rw [hp.1, hrows]
          rfl
        · rw [hp.1, (Prod.mk.inj (hopen _ hsummary)).2]
    refine ⟨⟨distinctNames_updateDocument hg.names, countsTrue_updateDocument hg.counts hcount⟩,
      linked_updateDocument hl, fun k hk => Or.inl (summary_updateDocument hk),
      fun hnone _ => ?_, nofun, nofun, nofun⟩
    rw [summary_eq_none_iff] at hnone ⊢
    have hid : (finished document final).id = document.id := rfl
    rw [find_updateDocument, hid, if_pos rfl, hnone]
    rfl
  | found existing => cases h
  | parsed texts => cases h
  | embedded replies => cases h

theorem advance_result (hg : Good store) (hl : Linked store) (hp : PhaseOk store document phase)
    (hnew : document.status = .processing)
    (hok : reply = .answered → CallOk store ⟨document, phase⟩)
    (h : advance store document phase reply = some (progress, store')) :
    CallResult store store' document phase progress := by
  cases phase with
  | lookUp => exact lookUp_result hg hl hp h
  | delete id => exact delete_result hg hl hp h
  | create existing => exact create_result hg hl hnew hp hok h
  | parse => exact parse_result hg hl hp h
  | embed texts => exact embed_result hg hl hp h
  | addChunks built totalChunks error => exact addChunks_result hg hl hp h
  | finish final guarded => exact finish_result hg hl hp hok h

/-- The document is not created yet. -/
def Phase.Early : Phase → Prop
  | .lookUp => True
  | .delete _ => True
  | .create _ => True
  | _ => False

/-- The document that the look-up has found. -/
def Phase.existing : Phase → Option String
  | .delete id => some id
  | .create existing => existing
  | _ => none

theorem PhaseOk.early (h : PhaseOk store document phase) (he : phase.Early) :
    store.summary document.id = none := by
  cases phase with
  | lookUp => exact h
  | delete id => exact h
  | create existing => exact h.1
  | parse => exact he.elim
  | embed texts => exact he.elim
  | addChunks built totalChunks error => exact he.elim
  | finish final guarded => exact he.elim

theorem early_of_advance {phase' : Phase}
    (h : advance store document phase reply = some (.goesOn phase', store'))
    (he : phase'.Early) : phase.Early := by
  cases phase with
  | lookUp => trivial
  | delete id => trivial
  | create existing => trivial
  | parse =>
    cases reply with
    | raised error =>
      cases h
      exact he
    | parsed texts =>
      rw [advance] at h
      split at h <;> cases h <;> exact he
    | answered => cases h
    | found existing => cases h
    | embedded replies => cases h
  | embed texts =>
    cases reply with
    | embedded replies =>
      rw [advance] at h
      split at h
      · split at h
        · cases h
          exact he
        · split at h <;> cases h <;> exact he
      · cases h
    | raised error => cases h
    | answered => cases h
    | found existing => cases h
    | parsed texts => cases h
  | addChunks built totalChunks error =>
    cases reply with
    | raised error =>
      cases h
      exact he
    | answered =>
      obtain ⟨store'', -, hpair⟩ := Option.map_eq_some_iff.mp h
      cases hpair
      exact he
    | found existing => cases h
    | parsed texts => cases h
    | embedded replies => cases h
  | finish final guarded =>
    cases reply with
    | raised error =>
      rw [advance] at h
      split at h <;> cases h
      exact he
    | answered => cases h
    | found existing => cases h
    | parsed texts => cases h
    | embedded replies => cases h

/-! ## The invariant -/

/-- What holds of an ingest that has started. -/
structure IngestOk (s : KnowledgeState) (ingest : Ingest) : Prop where
  issued : ingest.id ∈ s.issued
  new : ingest.document.status = .processing
  phase : PhaseOk s.store ingest.document ingest.phase
  existing : ∀ k, ingest.phase.existing = some k → k ∈ s.issued ∧
    ∀ id other, s.ingests.find id = some other → other.phase.Early → k ≠ id

structure Inv (s : KnowledgeState) : Prop where
  good : Good s.store
  linked : Linked s.store
  issued : ∀ id, s.store.documents.find id ≠ none → id ∈ s.issued
  ingests : ∀ id ingest, s.ingests.find id = some ingest → IngestOk s ingest

theorem inv_of_start (h : Start s) : Inv s := by
  refine ⟨h.good, h.linked, h.issued, fun id ingest hfind => ?_⟩
  have hmem := Table.mem_of_find hfind
  rw [h.idle] at hmem
  cases hmem

theorem find_proceed {ingests : Table Ingest.id} {ingest other : Ingest} {k : String}
    (h : (proceed ingests ingest progress).find k = some other) :
    (k ≠ ingest.id ∧ ingests.find k = some other) ∨
      ∃ phase, progress = .goesOn phase ∧ k = ingest.id ∧ other = { ingest with phase } := by
  cases progress with
  | goesOn phase =>
    rw [proceed, Table.find_put] at h
    split at h
    · rename_i hk
      cases h
      exact Or.inr ⟨phase, rfl, hk, rfl⟩
    · rename_i hk
      exact Or.inl ⟨hk, h⟩
  | returns result =>
    rw [proceed, Table.find_erase] at h
    split at h
    · cases h
    · rename_i hk
      exact Or.inl ⟨hk, h⟩
  | raises error =>
    rw [proceed, Table.find_erase] at h
    split at h
    · cases h
    · rename_i hk
      exact Or.inl ⟨hk, h⟩

theorem inv_start (hs : Inv s) {document : KnowledgeDocument} (hid : document.id ∉ s.issued)
    (hnew : document.status = .processing) :
    Inv { s with
      ingests := s.ingests.put ⟨document, .lookUp⟩, issued := document.id :: s.issued } := by
  have hgone : s.store.summary document.id = none := by
    rw [summary_eq_none_iff]
    by_contra hne
    exact hid (hs.issued document.id hne)
  refine ⟨hs.good, hs.linked, fun id hne => List.mem_cons_of_mem _ (hs.issued id hne), ?_⟩
  intro id ingest hfind
  rw [Table.find_put] at hfind
  split at hfind
  · cases hfind
    refine ⟨List.mem_cons_self, hnew, hgone, fun k hk => ?_⟩
    cases hk
  · obtain ⟨hissued, hnewer, hphase, hexisting⟩ := hs.ingests id ingest hfind
    refine ⟨List.mem_cons_of_mem _ hissued, hnewer, hphase, fun k hk => ?_⟩
    obtain ⟨hmem, hne⟩ := hexisting k hk
    refine ⟨List.mem_cons_of_mem _ hmem, fun id' other hother hearly => ?_⟩
    change (s.ingests.put ⟨document, .lookUp⟩).find id' = some other at hother
    rw [Table.find_put] at hother
    split at hother
    · rename_i hid'
      rintro rfl
      rw [show k = document.id from hid'] at hmem
      exact hid hmem
    · exact hne id' other hother hearly

theorem inv_call (hs : Inv s) {id : String} {ingest : Ingest}
    (hfind : s.ingests.find id = some ingest)
    (hok : reply = .answered → CallOk s.store ingest)
    (hadv : advance s.store ingest.document ingest.phase reply = some (progress, store')) :
    Inv { s with store := store', ingests := proceed s.ingests ingest progress } := by
  have hid : ingest.id = id := Table.key_of_find hfind
  have hown := hs.ingests id ingest hfind
  have hres := advance_result hs.good hs.linked hown.phase hown.new hok hadv
  -- what was early is early no longer, or still
  have hearly : ∀ k other, (proceed s.ingests ingest progress).find k = some other →
      other.phase.Early → ∃ old, s.ingests.find k = some old ∧ old.phase.Early := by
    intro k other hother he
    rcases find_proceed hother with ⟨-, hold⟩ | ⟨phase', rfl, rfl, rfl⟩
    · exact ⟨other, hold, he⟩
    · exact ⟨ingest, hid ▸ hfind, early_of_advance hadv he⟩
  refine ⟨hres.good, hres.linked, fun k hk => ?_, fun k other hother => ?_⟩
  · by_cases heq : k = ingest.document.id
    · rw [heq]
      exact hown.issued
    · refine hs.issued k fun hnone => hk ?_
      rw [← summary_eq_none_iff] at hnone ⊢
      rcases hres.others k heq with h | h
      · rw [h, hnone]
      · exact h
  rcases find_proceed hother with ⟨hne, hold⟩ | ⟨phase', rfl, rfl, rfl⟩
  · have hother' := hs.ingests k other hold
    have hk : other.id = k := Table.key_of_find hold
    refine ⟨hother'.issued, hother'.new, hother'.phase.mono ?_ ?_, fun x hx => ?_⟩
    · refine hres.others _ ?_
      rw [show other.document.id = k from hk]
      exact hne
    · intro x hx hnone
      by_cases heq : x = ingest.document.id
      · rw [heq] at hnone ⊢
        refine hres.own hnone fun existing hcreate => ?_
        refine (hother'.existing x ?_).2 id ingest hfind ?_ (heq.trans hid)
        · rw [hx]
          rfl
        · rw [hcreate]
          trivial
      · rcases hres.others x heq with h | h
        · rw [h, hnone]
        · exact h
    · refine ⟨(hother'.existing x hx).1, fun y early hy he => ?_⟩
      obtain ⟨old, hy', he'⟩ := hearly y early hy he
      exact (hother'.existing x hx).2 y old hy' he'
  · refine ⟨hown.issued, hown.new, hres.next phase' rfl, fun x hx => ?_⟩
    suffices hx' : x ∈ s.issued ∧ ∀ y old, s.ingests.find y = some old → old.phase.Early →
        x ≠ y by
      refine ⟨hx'.1, fun y early hy he => ?_⟩
      obtain ⟨old, hy', he'⟩ := hearly y early hy he
      exact hx'.2 y old hy' he'
    change phase'.existing = some x at hx
    cases phase' with
    | delete k =>
      cases hx
      have hthere := hres.found x rfl
      refine ⟨hs.issued x fun hnone => hthere (summary_eq_none_iff.mpr hnone), ?_⟩
      rintro y old hy he rfl
      have hgone := (hs.ingests x old hy).phase.early he
      have hx : old.id = x := Table.key_of_find hy
      rw [show old.document.id = x from hx] at hgone
      exact hthere hgone
    | create existing =>
      obtain rfl : existing = some x := hx
      refine hown.existing x ?_
      rw [hres.passed x rfl]
      rfl
    | lookUp => cases hx
    | parse => cases hx
    | embed texts => cases hx
    | addChunks built totalChunks error => cases hx
    | finish final guarded => cases hx

theorem inv_die (hs : Inv s) (id : String) : Inv { s with ingests := s.ingests.erase id } := by
  have hold : ∀ k other, (s.ingests.erase id).find k = some other →
      s.ingests.find k = some other := by
    intro k other hother
    rw [Table.find_erase] at hother
    split at hother
    · cases hother
    · exact hother
  refine ⟨hs.good, hs.linked, hs.issued, fun k other hother => ?_⟩
  obtain ⟨hissued, hnew, hphase, hexisting⟩ := hs.ingests k other (hold k other hother)
  refine ⟨hissued, hnew, hphase, fun x hx => ⟨(hexisting x hx).1, fun y early hy he => ?_⟩⟩
  exact (hexisting x hx).2 y early (hold y early hy) he

theorem mem_matchingDocuments {sourceKbId documentQuery : String}
    (h : document ∈ matchingDocuments lower store sourceKbId documentQuery) :
    store.documents.find document.id = some document :=
  Table.find_of_mem (List.mem_filter.mp (List.mem_filter.mp h).1).1

/-- A move that does not raise is of the one document that the query names. -/
theorem moveDocument_eq_ok {sourceKbId documentQuery targetKbName newId : String}
    {moved : KnowledgeDocument × KnowledgeBase} (h : moveDocument lower store sourceKbId
      documentQuery targetKbName newId = .ok (moved, store')) :
    ∃ name document bases target, normalizeName targetKbName = .ok name ∧
      getOrCreateBase store.bases name newId = (target, bases) ∧
      matchingDocuments lower store sourceKbId documentQuery = [document] ∧
      store' = moveTo { store with bases } document target := by
  unfold moveDocument at h
  cases hname : normalizeName targetKbName with
  | error e => simp [hname, bind, Except.bind] at h
  | ok name =>
    simp only [hname, bind, Except.bind] at h
    split at h
    · cases h
    · rename_i document hdocument
      cases h
      exact ⟨name, document, _, _, rfl, rfl, hdocument, rfl⟩
    · cases h

theorem inv_move (hs : Inv s) {sourceKbId documentQuery targetKbName newId : String}
    {moved : KnowledgeDocument × KnowledgeBase}
    (hok : MoveOk lower s.store sourceKbId documentQuery targetKbName newId)
    (h : moveDocument lower s.store sourceKbId documentQuery targetKbName newId =
      .ok (moved, store')) : Inv { s with store := store' } := by
  obtain ⟨name, document, bases, target, hname, hbase, hmatch, rfl⟩ := moveDocument_eq_ok h
  have hfind : s.store.documents.find document.id = some document :=
    mem_matchingDocuments (by rw [hmatch]; exact List.mem_singleton_self document)
  have halone : ∀ other ∈ s.store.named target.id document.filename, other.id = document.id := by
    simpa only [MoveOk, hname, hmatch, hbase] using hok
  have hsummary : ∀ k, (moveTo { s.store with bases } document target).summary k =
      s.store.summary k := summary_moveTo hfind
  refine ⟨⟨distinctNames_moveTo hs.good.names halone, countsTrue_moveTo hs.good.counts hfind⟩,
    linked_moveTo hs.linked, fun k hk => ?_, fun k other hother => ?_⟩
  · refine hs.issued k fun hnone => hk ?_
    rw [← summary_eq_none_iff] at hnone ⊢
    rw [hsummary, hnone]
  · obtain ⟨hissued, hnew, hphase, hexisting⟩ := hs.ingests k other hother
    refine ⟨hissued, hnew, hphase.mono (Or.inl (hsummary _)) fun x _ hnone => ?_, hexisting⟩
    rw [hsummary, hnone]

theorem inv_step {a : Action} (hs : Inv s) (hc : Careful lower s a)
    (h : (machine lower).step s a = some t) : Inv t := by
  cases a with
  | start request id createdAt =>
    obtain ⟨hid, heq⟩ := Option.ite_none_left_eq_some.mp h
    cases heq
    have hnew : (documentFor lower request id createdAt).status = .processing := rfl
    exact inv_start hs hid hnew
  | call id reply =>
    obtain ⟨ingest, hfind, h⟩ := Option.bind_eq_some_iff.mp h
    obtain ⟨⟨progress, store'⟩, hadv, h⟩ := Option.bind_eq_some_iff.mp h
    cases h
    refine inv_call hs hfind ?_ hadv
    rintro rfl
    exact hc ingest hfind
  | die id =>
    obtain ⟨-, heq⟩ := Option.ite_none_left_eq_some.mp h
    cases heq
    exact inv_die hs id
  | move raises sourceKbId documentQuery targetKbName newId =>
    obtain ⟨-, hstep⟩ := Option.ite_none_left_eq_some.mp h
    cases raises with
    | true =>
      cases hstep
      exact hs
    | false =>
      rw [if_neg Bool.false_ne_true] at hstep
      split at hstep
      · cases hstep
        exact hs
      · rename_i hmove
        cases hstep
        exact inv_move hs hc hmove

/-! ## What is not careful does harm -/

theorem bad_of_two {k l : String} {d e : KnowledgeDocument}
    (hd : store.documents.find k = some d) (he : store.documents.find l = some e)
    (hkb : d.kbId = e.kbId) (hfilename : d.filename = e.filename) (hne : k ≠ l) : ¬Good store :=
  fun hg => hne (hg.names k l d e hd he hkb hfilename)

theorem bad_call {ingest : Ingest} (hs : Inv s) (hown : IngestOk s ingest)
    (hok : ¬CallOk s.store ingest)
    (hadv : advance s.store ingest.document ingest.phase .answered = some (progress, store')) :
    ¬Good store' := by
  obtain ⟨document, phase⟩ := ingest
  cases phase with
  | create existing =>
    -- the newcomer stays beside the document that is created
    obtain ⟨store'', hcreate, hpair⟩ := Option.map_eq_some_iff.mp hadv
    cases hpair
    have hgone := summary_eq_none_iff.mp hown.phase.1
    simp only [CallOk, not_forall] at hok
    obtain ⟨other, hother, -⟩ := hok
    obtain ⟨hfind, hkb, hfilename⟩ := mem_named.mp hother
    have hne : document.id ≠ other.id := by
      intro heq
      rw [show document.id = other.id from heq, hfind] at hgone
      cases hgone
    refine bad_of_two (k := document.id) (l := other.id) (d := document) (e := other) ?_ ?_
      hkb.symm hfilename.symm hne
    · rw [find_createDocument hcreate, if_pos rfl]
    · rw [find_createDocument hcreate, if_neg hne.symm, hfind]
  | finish final guarded =>
    -- the document says 0, and has chunks
    cases hadv
    simp only [CallOk, not_forall] at hok
    obtain ⟨hfailed, hrows⟩ := hok
    have hcount : final.chunkCount = 0 := by
      cases guarded with
      | true => exact absurd hfailed hown.phase.1
      | false => exact hown.phase.1
    obtain ⟨d, hd⟩ : ∃ d, s.store.documents.find document.id = some d := by
      refine Option.ne_none_iff_exists'.mp fun hnone => hrows ?_
      exact hs.linked.chunksOf hnone
    intro hg
    have hid : (finished document final).id = document.id := rfl
    have htrue := hg.counts document.id (d.updated (finished document final)) (by
      rw [find_updateDocument, hid, if_pos rfl, hd]
      rfl) (by
      show final.status ≠ .processing
      rw [hfailed]
      decide)
    rw [chunksOf_updateDocument] at htrue
    refine hrows (List.length_eq_zero_iff.mp ?_)
    exact htrue.symm.trans hcount
  | lookUp => exact absurd trivial hok
  | delete id => exact absurd trivial hok
  | parse => exact absurd trivial hok
  | embed texts => exact absurd trivial hok
  | addChunks built totalChunks error => exact absurd trivial hok

theorem bad_move {sourceKbId documentQuery targetKbName newId : String}
    (hok : ¬MoveOk lower s.store sourceKbId documentQuery targetKbName newId) :
    ∃ moved store', moveDocument lower s.store sourceKbId documentQuery targetKbName newId =
      .ok (moved, store') ∧ ¬Good store' := by
  unfold MoveOk at hok
  split at hok
  · rename_i name document hname hmatch
    simp only [not_forall] at hok
    obtain ⟨other, hother, hne⟩ := hok
    obtain ⟨hfind, hkb, hfilename⟩ := mem_named.mp hother
    let target := (getOrCreateBase s.store.bases name newId).1
    let bases := (getOrCreateBase s.store.bases name newId).2
    refine ⟨({ document with kbId := target.id }, target),
      moveTo { s.store with bases } document target, ?_, ?_⟩
    · simp only [moveDocument, hname, hmatch, bind, Except.bind]
      rfl
    refine bad_of_two (k := document.id) (l := other.id)
      (d := { document with kbId := target.id }) (e := other) ?_ ?_ hkb.symm hfilename.symm
      fun heq => hne heq.symm
    · rw [find_moveTo, if_pos rfl]
    · rw [find_moveTo, if_neg hne]
      exact hfind
  · exact absurd trivial hok

theorem bad_step {a : Action} (hs : Inv s) (hc : ¬Careful lower s a)
    (h : (machine lower).step s a = some t) : ¬Good t.store := by
  cases a with
  | start request id createdAt => exact absurd trivial hc
  | die id => exact absurd trivial hc
  | call id reply =>
    cases reply with
    | answered =>
      obtain ⟨ingest, hfind, h⟩ := Option.bind_eq_some_iff.mp h
      obtain ⟨⟨progress, store'⟩, hadv, h⟩ := Option.bind_eq_some_iff.mp h
      cases h
      refine bad_call hs (hs.ingests id ingest hfind) (fun hok => hc fun other hother => ?_) hadv
      rw [hfind] at hother
      cases hother
      exact hok
    | raised error => exact absurd trivial hc
    | found existing => exact absurd trivial hc
    | parsed texts => exact absurd trivial hc
    | embedded replies => exact absurd trivial hc
  | move raises sourceKbId documentQuery targetKbName newId =>
    cases raises with
    | true => exact absurd trivial hc
    | false =>
      obtain ⟨-, hstep⟩ := Option.ite_none_left_eq_some.mp h
      obtain ⟨moved, store', hmove, hbad⟩ := bad_move hc
      rw [if_neg Bool.false_ne_true, hmove] at hstep
      cases hstep
      exact hbad

/-! ## Whole runs -/

/-- A run is good in every state, whether an ingest is running or not, exactly when each of
its steps is careful. -/
theorem always_good_iff_careful {as : List Action} (hs : Start s)
    (hrun : (machine lower).run s as = some t) :
    (machine lower).Always (fun u => Good u.store) s as ↔
      (machine lower).Meets (Careful lower) s as :=
  (machine lower).always_iff_meets (fun _ hu => hu.good) (fun _ _ _ => inv_step)
    (fun _ _ _ => bad_step) (inv_of_start hs) hrun

/-- Careful runs leave one document per name in each base, and a document that is not in
processing has the chunks that it says. -/
theorem good_of_careful {as : List Action} (hs : Start s)
    (hm : (machine lower).Meets (Careful lower) s as)
    (hrun : (machine lower).run s as = some t) : Good t.store :=
  ((machine lower).run_invariant_of_meets (fun _ _ _ => inv_step) (inv_of_start hs) hm hrun).good

/-! ## Runs -/

/-- One base, no documents. -/
def emptyBase : KnowledgeState :=
  ⟨⟨Table.empty.put ⟨"kb", "默认库"⟩, .empty, []⟩, .empty, []⟩

theorem start_emptyBase : Start emptyBase :=
  ⟨rfl, ⟨nofun, nofun⟩, nofun, fun _ h => absurd rfl h⟩

def pyLower (s : String) : String := String.ofList (Text.lower s.toList)

/-- An ingest up to the chunks, which are stored. -/
def upToChunks (id : String) (existing : List Action) : List Action :=
  .start ⟨⟨"a.md", ".md", some 2, true⟩, "kb", ""⟩ id 0 :: existing ++
    [.call id .answered, .call id (.parsed ["x"]), .call id (.embedded [.ok [[1]]]),
      .call id .answered]

/-- The number of the chunks cannot be written. -/
def unwrittenNumber : List Action :=
  upToChunks "d" [.call "d" (.found none)] ++ [.call "d" (.raised "connection is closed"),
    .call "d" .answered]

/-- An ingest dies behind its chunks and is run again. -/
def diedAndRetried : List Action :=
  upToChunks "d" [.call "d" (.found none)] ++ .die "d" ::
    (upToChunks "e" [.call "e" (.found (some "d")), .call "e" .answered] ++
      [.call "e" .answered, .move false "kb" "A" " 档案 " "kb2"])

theorem diedAndRetried_good : ∃ t, (machine pyLower).run emptyBase diedAndRetried = some t ∧
    t.ingests.entries = [] ∧ t.store.documents.entries.map (·.kbId) = ["kb2"] ∧
    Good t.store := by
  have hsome : ((machine pyLower).run emptyBase diedAndRetried).isSome := by decide +kernel
  obtain ⟨t, ht⟩ := Option.isSome_iff_exists.mp hsome
  have hview : ((machine pyLower).run emptyBase diedAndRetried).map (fun t =>
      (t.ingests.entries, t.store.documents.entries.map (·.kbId))) = some ([], ["kb2"]) := by
    decide +kernel
  rw [ht, Option.map_some, Option.some_inj, Prod.mk.injEq] at hview
  exact ⟨t, ht, hview.1, hview.2, good_of_careful start_emptyBase (by decide +kernel) ht⟩

/-- `failed` with `chunk_count` 0 behind a chunk that has been stored. -/
theorem not_always_good_documents : ¬∀ (s t : KnowledgeState) (as : List Action), Start s →
    (machine pyLower).run s as = some t → t.ingests.entries = [] → Good t.store := by
  intro h
  have hsome : ((machine pyLower).run emptyBase unwrittenNumber).isSome := by decide +kernel
  obtain ⟨t, ht⟩ := Option.isSome_iff_exists.mp hsome
  have hview : ((machine pyLower).run emptyBase unwrittenNumber).map (fun t =>
      (t.ingests.entries, (t.store.documents.find "d").map fun d => (d.status, d.chunkCount),
        (t.store.chunksOf "d").length)) = some ([], some (.failed, 0), 1) := by
    decide +kernel
  rw [ht, Option.map_some, Option.some_inj, Prod.mk.injEq, Prod.mk.injEq] at hview
  obtain ⟨hidle, hdocument, hrows⟩ := hview
  obtain ⟨d, hd, hfields⟩ := Option.map_eq_some_iff.mp hdocument
  obtain ⟨hstatus, hcount⟩ := Prod.mk.inj hfields
  have htrue := (h emptyBase t unwrittenNumber start_emptyBase ht hidle).counts "d" d hd
    (by rw [hstatus]; decide)
  rw [hcount, hrows] at htrue
  cases htrue

end NeuralHub.Knowledge
