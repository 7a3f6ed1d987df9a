import AgentDemo.Library.Table
import AgentDemo.Values

/-! The `knowledge_documents` and `knowledge_chunks` tables. -/
namespace AgentDemo

structure KnowledgeDocument where
  id : UUID
  conversationId : Option UUID
  userId : Option UUID
  title : String
  sourceType : String
  sourceUri : Option String
  status : String
  createdAt : Instant
  deriving DecidableEq

instance : Keyed KnowledgeDocument UUID := ⟨KnowledgeDocument.id⟩

@[simp] theorem key_knowledgeDocument (d : KnowledgeDocument) : Keyed.key d = d.id := rfl

structure KnowledgeChunk where
  id : UUID
  documentId : UUID
  chunkIndex : ℤ
  content : String
  embedding : Option (List Float)
  metadata : JsonObject

instance : Keyed KnowledgeChunk UUID := ⟨KnowledgeChunk.id⟩

@[simp] theorem key_knowledgeChunk (c : KnowledgeChunk) : Keyed.key c = c.id := rfl

structure KnowledgeBase where
  documents : Table KnowledgeDocument
  chunks : Table KnowledgeChunk

/-- `knowledge_chunks JOIN knowledge_documents`. -/
def KnowledgeBase.joined (db : KnowledgeBase) : List (KnowledgeChunk × KnowledgeDocument) :=
  db.chunks.rows.filterMap fun chunk =>
    (db.documents.get? chunk.documentId).map fun document => (chunk, document)

theorem KnowledgeBase.mem_joined {db : KnowledgeBase} {chunk : KnowledgeChunk}
    {document : KnowledgeDocument} : (chunk, document) ∈ db.joined ↔
      chunk ∈ db.chunks.rows ∧ document ∈ db.documents.rows ∧
        document.id = chunk.documentId := by
  constructor
  · intro h
    obtain ⟨c, hc, hmap⟩ := List.mem_filterMap.mp h
    obtain ⟨d, hd, heq⟩ := Option.map_eq_some_iff.mp hmap
    cases heq
    exact ⟨hc, Table.get?_eq_some.mp hd⟩
  · rintro ⟨hc, hd⟩
    exact List.mem_filterMap.mpr ⟨chunk, hc, by rw [Table.get?_eq_some.mpr hd]; rfl⟩

/-- The id of a chunk determines its joined row. -/
theorem KnowledgeBase.joined_inj {db : KnowledgeBase} {r r' : KnowledgeChunk × KnowledgeDocument}
    (h : r ∈ db.joined) (h' : r' ∈ db.joined) (hid : r.1.id = r'.1.id) : r = r' := by
  obtain ⟨hc, hd, hjoin⟩ := mem_joined.mp h
  obtain ⟨hc', hd', hjoin'⟩ := mem_joined.mp h'
  have hchunk : r.1 = r'.1 := Table.eq_of_key hc hc' hid
  refine Prod.ext hchunk (Table.eq_of_key hd hd' ?_)
  rw [key_knowledgeDocument, key_knowledgeDocument, hjoin, hjoin', hchunk]

theorem KnowledgeBase.nodup_joined (db : KnowledgeBase) : db.joined.Nodup := by
  refine List.Nodup.filterMap ?_ db.chunks.nodup.of_map
  intro c c' r hr hr'
  rw [Option.mem_def, Option.map_eq_some_iff] at hr hr'
  obtain ⟨_, _, rfl⟩ := hr
  obtain ⟨_, _, heq⟩ := hr'
  exact (congrArg Prod.fst heq).symm

end AgentDemo
