import AgentDemo.Services.Rag

/-! What a search answers depends on the documents and chunks of its scope only. -/
namespace AgentDemo

/-- Two databases that have the same visible documents, with the same chunks. -/
structure AgreeOn (visible : KnowledgeDocument → Bool) (db db' : KnowledgeBase) : Prop where
  documents : ∀ d, visible d = true → (d ∈ db.documents.rows ↔ d ∈ db'.documents.rows)
  chunks : ∀ d c, visible d = true → d ∈ db.documents.rows → c.documentId = d.id →
    (c ∈ db.chunks.rows ↔ c ∈ db'.chunks.rows)

theorem AgreeOn.mem_joined {visible : KnowledgeDocument → Bool} {db db' : KnowledgeBase}
    (h : AgreeOn visible db db') {r : KnowledgeChunk × KnowledgeDocument}
    (hr : visible r.2 = true) : r ∈ db.joined ↔ r ∈ db'.joined := by
  obtain ⟨c, d⟩ := r
  rw [KnowledgeBase.mem_joined, KnowledgeBase.mem_joined]
  constructor
  · rintro ⟨hc, hd, hid⟩
    exact ⟨(h.chunks d c hr hd hid.symm).mp hc, (h.documents d hr).mp hd, hid⟩
  · rintro ⟨hc, hd, hid⟩
    have hd' := (h.documents d hr).mpr hd
    exact ⟨(h.chunks d c hr hd' hid.symm).mpr hc, hd', hid⟩

/-- A statement that keeps visible rows and orders them up to the id of the chunk. -/
theorem AgreeOn.select {K : Type} [LinearOrder K] {visible : KnowledgeDocument → Bool}
    {db db' : KnowledgeBase} (h : AgreeOn visible db db')
    {keep : KnowledgeChunk × KnowledgeDocument → Bool}
    {key : KnowledgeChunk × KnowledgeDocument → K} (limit : ℕ)
    (hkeep : ∀ r, keep r = true → visible r.2 = true)
    (hkey : ∀ r r', key r = key r' → r.1.id = r'.1.id) :
    Query.select keep key limit db.joined = Query.select keep key limit db'.joined := by
  refine Query.select_congr limit db.nodup_joined db'.nodup_joined
    (fun r hr => h.mem_joined (hkeep r hr)) fun r hr r' hr' heq => ?_
  exact KnowledgeBase.joined_inj hr hr' (hkey r r' heq)

/-- A key that ends with the id of the chunk decides between the rows. -/
theorem chunkId_of_key {A B : Type} {f : KnowledgeChunk × KnowledgeDocument → A}
    {g : KnowledgeChunk × KnowledgeDocument → B} (r r' : KnowledgeChunk × KnowledgeDocument)
    (h : toLex (f r, toLex (g r, r.1.id.toNat)) = toLex (f r', toLex (g r', r'.1.id.toNat))) :
    r.1.id = r'.1.id :=
  BitVec.eq_of_toNat_eq
    (Prod.mk.inj (toLex_inj.mp (Prod.mk.inj (toLex_inj.mp h)).2)).2

namespace RagService

/-- The documents of a conversation are visible in it. -/
theorem scope_includeGlobal {userId conversationId : Option UUID} {d : KnowledgeDocument}
    (h : scope userId conversationId false d = true) :
    scope userId conversationId true d = true := by
  cases conversationId with
  | none => exact h
  | some c =>
    simp only [scope, Bool.and_eq_true, if_true, Bool.or_eq_true] at h ⊢
    exact ⟨h.1, .inl h.2⟩

section Paths

variable {services : RetrievalServices} {userId conversationId : Option UUID}
  {db db' : KnowledgeBase}

theorem searchByVector_congr (h : AgreeOn (scope userId conversationId true) db db')
    (query : String) (limit : ℕ) :
    searchByVector services db userId conversationId query limit =
      searchByVector services db' userId conversationId query limit := by
  have hrows : ∀ embedding, vectorRows services db userId conversationId embedding limit =
      vectorRows services db' userId conversationId embedding limit := by
    intro embedding
    refine h.select limit (fun r hr => ?_) chunkId_of_key
    exact (Bool.and_eq_true_iff.mp hr).2
  unfold searchByVector
  simp only [hrows]

theorem searchByKeywords_congr (h : AgreeOn (scope userId conversationId true) db db')
    (query : String) (limit : ℕ) :
    searchByKeywords services db userId conversationId query limit =
      searchByKeywords services db' userId conversationId query limit := by
  have hrows : ∀ keywords, keywordRows services db userId conversationId keywords limit =
      keywordRows services db' userId conversationId keywords limit := by
    intro keywords
    refine h.select limit (fun r hr => ?_) chunkId_of_key
    exact (Bool.and_eq_true_iff.mp hr).2
  unfold searchByKeywords
  simp only [hrows]

theorem conversationDocumentContext_congr {conversationId : UUID}
    (h : AgreeOn (scope userId (some conversationId) true) db db') (limit : ℕ) :
    conversationDocumentContext db userId conversationId limit =
      conversationDocumentContext db' userId conversationId limit := by
  unfold conversationDocumentContext
  rw [h.select limit (fun r hr => scope_includeGlobal hr) chunkId_of_key]

end Paths

/-- Documents outside the scope have no influence on a search. -/
theorem search_isolated (services : RetrievalServices) (settings : RetrievalSettings)
    (userId conversationId : Option UUID) (query : String) (limit : ℤ) {db db' : KnowledgeBase}
    (h : AgreeOn (scope userId conversationId true) db db') :
    search services settings db userId query conversationId limit =
      search services settings db' userId query conversationId limit := by
  cases conversationId with
  | none =>
    simp only [search, searchByVector_congr h, searchByKeywords_congr h]
  | some conversationId =>
    simp only [search, searchByVector_congr h, searchByKeywords_congr h,
      conversationDocumentContext_congr h]

/-- A search without embeddings and reranking, on texts of ASCII characters. -/
def offlineServices : RetrievalServices where
  lower := String.toLower
  casefold := String.toLower
  str := fun _ => ""
  sqlLower := String.toLower
  jsonText := fun _ => ""
  cosineDistance := fun _ _ => 0
  embedTexts := fun _ => none
  rerank := fun _ _ => none

def offlineSettings : RetrievalSettings := ⟨.inProcess, "", "jina-reranker-v3.5", 24⟩

def sampleDocument (id : UUID) (userId : Option UUID) (status : String) : KnowledgeDocument :=
  ⟨id, some 5, userId, "Notes", "text", none, status, 0⟩

/-- One indexed document of user `1` in the conversation `5`. -/
def sampleBase : KnowledgeBase where
  documents := ⟨[sampleDocument 10 (some 1) "indexed"], by decide⟩
  chunks := ⟨[⟨20, 10, 0, "Aurora local", none, []⟩], by decide⟩

/-- The same document behind one of another user and one that is not indexed. -/
def foreignBase : KnowledgeBase where
  documents := ⟨[sampleDocument 12 (some 2) "indexed", sampleDocument 13 (some 1) "pending",
    sampleDocument 10 (some 1) "indexed"], by decide⟩
  chunks := ⟨[⟨22, 12, 0, "Aurora foreign", none, []⟩, ⟨23, 13, 0, "Aurora pending", none, []⟩,
    ⟨20, 10, 0, "Aurora local", none, []⟩], by decide⟩

theorem search_isolated_sample :
    search offlineServices offlineSettings sampleBase (some 1) "Aurora" (some 5) 4 =
      search offlineServices offlineSettings foreignBase (some 1) "Aurora" (some 5) 4 := by
  refine search_isolated offlineServices offlineSettings (some 1) (some 5) "Aurora" 4 ⟨?_, ?_⟩
  · intro d hd
    have hforeign : d ≠ sampleDocument 12 (some 2) "indexed" ∧
        d ≠ sampleDocument 13 (some 1) "pending" := by
      constructor <;> rintro rfl <;> exact absurd hd (by decide)
    simp only [sampleBase, foreignBase, List.mem_cons, List.not_mem_nil, or_false, hforeign.1,
      hforeign.2, false_or]
  · intro d c _ hmem hid
    have hd : c.documentId = 10 := by
      rw [hid, List.mem_singleton.mp hmem]
      rfl
    have hforeign : c ≠ ⟨22, 12, 0, "Aurora foreign", none, []⟩ ∧
        c ≠ ⟨23, 13, 0, "Aurora pending", none, []⟩ := by
      constructor <;> rintro rfl <;> exact absurd hd (by decide)
    simp only [sampleBase, foreignBase, List.mem_cons, List.not_mem_nil, or_false, hforeign.1,
      hforeign.2, false_or]

end RagService

end AgentDemo
