import AgentDemo.Services.Rag
import AgentDemo.Services.Sections

/-! `RagService.index_text` and `RagService.reindex_document`. -/
namespace AgentDemo

open Windows

/-- The request, as far as the index depends on it. -/
structure KnowledgeDocumentCreate where
  title : String
  sourceType : String
  sourceUri : Option String
  userId : Option UUID
  conversationId : Option UUID
  content : String

inductive IndexError where
  | chunking (error : ChunkError)
  | noText
  | noIndexedText
  | embeddingUnavailable
  | integrity
  deriving DecidableEq

/-- `{**metadata, key: value}`. -/
def JsonObject.put (o : JsonObject) (key : String) (value : Json) : JsonObject :=
  if o.any (·.1 = key) then o.map fun p => if p.1 = key then (key, value) else p
  else o ++ [(key, value)]

/-- Several `INSERT`s; `none` is a primary key violation. -/
def insertRows {R K : Type*} [Keyed R K] [DecidableEq K] (t : Table R) (rows : List R) :
    Option (Table R) := rows.foldlM Table.insert? t

/-- Several `UPDATE`s. -/
def writeRows {R K : Type*} [Keyed R K] [DecidableEq K] (t : Table R) (rows : List R) :
    Table R := rows.foldl Table.write t

namespace RagService

variable (services : RetrievalServices)

def newChunk (documentId : UUID) (ids : ℕ → UUID) (embeddings : List (List Float)) (index : ℕ)
    (span : Span) (context : String) : KnowledgeChunk :=
  { id := ids index
    documentId
    chunkIndex := index
    content := String.ofList span.content
    embedding := embeddings[index]?
    metadata := [("start_char", .num span.start), ("end_char", .num span.stop),
      ("retrieval_context", .str context)] }

def newChunks (documentId : UUID) (ids : ℕ → UUID) (embeddings : List (List Float))
    (spans : List Span) (contexts : List String) : List KnowledgeChunk :=
  (spans.zip contexts).mapIdx fun index p => newChunk documentId ids embeddings index p.1 p.2

/-- `f"{context}\n\n{chunk}"`. -/
def embeddingInput (context content : String) : String := context ++ "\n\n" ++ content

def newDocument (userId : Option UUID) (payload : KnowledgeDocumentCreate) (documentId : UUID)
    (now : Instant) : KnowledgeDocument :=
  { id := documentId
    conversationId := payload.conversationId
    userId := if userId.isSome then userId else payload.userId
    title := payload.title
    sourceType := payload.sourceType
    sourceUri := payload.sourceUri
    status := "indexed"
    createdAt := now }

/-- `index_text`, without the metadata of the document. -/
def indexText (db : KnowledgeBase) (userId : Option UUID) (payload : KnowledgeDocumentCreate)
    (documentId : UUID) (ids : ℕ → UUID) (now : Instant) :
    Except IndexError (KnowledgeBase × KnowledgeDocument) :=
  match splitSpans payload.content 900 120 with
  | .error e => .error (.chunking e)
  | .ok spans =>
    if spans = [] then .error .noText
    else
      let contexts := chunkContexts payload.title payload.content spans
      let embeddings := embedOrEmpty services
        ((spans.zip contexts).map fun p => embeddingInput p.2 (String.ofList p.1.content))
      let document := newDocument userId payload documentId now
      match db.documents.insert? document,
          insertRows db.chunks (newChunks documentId ids embeddings spans contexts) with
      | some documents, some chunks => .ok (⟨documents, chunks⟩, document)
      | _, _ => .error .integrity

/-- `combined` and `spans` of `reindex_document`, from an offset on. -/
def rebuiltSpans : ℕ → List (List Char) → List Span
  | _, [] => []
  | offset, content :: contents =>
    ⟨content, offset, offset + content.length⟩ ::
      rebuiltSpans (offset + content.length + 2) contents

/-- `"\n\n".join(combined)`. -/
def rebuiltText (contents : List (List Char)) : String :=
  String.ofList (['\n', '\n'].intercalate contents)

/-- The contexts that `reindex_document` computes from the contents of the chunks. -/
def rebuiltContexts (title : String) (contents : List (List Char)) : List String :=
  chunkContexts title (rebuiltText contents) (rebuiltSpans 0 contents)

/-- `SELECT … WHERE document_id = … ORDER BY chunk_index`. -/
def chunksOf (db : KnowledgeBase) (documentId : UUID) : List KnowledgeChunk :=
  (db.chunks.rows.filter fun c => c.documentId = documentId).insertionSort fun c c' =>
    c.chunkIndex ≤ c'.chunkIndex

def refreshedChunk (embeddings : List (List Float)) (index : ℕ) (chunk : KnowledgeChunk)
    (context : String) : KnowledgeChunk :=
  { chunk with
    metadata := JsonObject.put chunk.metadata "retrieval_context" (.str context)
    embedding := embeddings[index]? }

def refreshedChunks (embeddings : List (List Float)) (chunks : List KnowledgeChunk)
    (contexts : List String) : List KnowledgeChunk :=
  (chunks.zip contexts).mapIdx fun index p => refreshedChunk embeddings index p.1 p.2

/-- `reindex_document`, without the metadata of the document. -/
def reindexDocument (db : KnowledgeBase) (userId : Option UUID) (documentId : UUID) :
    Except IndexError (KnowledgeBase × Option KnowledgeDocument) :=
  match db.documents.get? documentId with
  | none => .ok (db, none)
  | some document =>
    if document.userId ≠ userId then .ok (db, none)
    else
      let chunks := chunksOf db documentId
      if chunks = [] then .error .noIndexedText
      else
        let contexts := rebuiltContexts document.title (chunks.map fun c => c.content.toList)
        let embeddings := embedOrEmpty services
          ((chunks.zip contexts).map fun p => embeddingInput p.2 p.1.content)
        if embeddings = [] ∧ chunks.any (·.embedding.isSome) then .error .embeddingUnavailable
        else
          let chunks := writeRows db.chunks (refreshedChunks embeddings chunks contexts)
          .ok ({ db with chunks }, some document)

end RagService

end AgentDemo
