import AgentDemo.Services.SectionAgreement
import AgentDemo.System.RetrievalIsolation

/-! A document that is indexed again: the sections of its chunks before and after. -/
namespace AgentDemo

open Windows RagService

theorem keepsOpen_self {headings : List Heading}
    (h : headings.Pairwise fun a b => a.start < b.start)
    (place : ℕ) : KeepsOpen headings place place := by
  have hnone : headingsBetween headings (place + 1) place = [] := by
    refine List.filter_eq_nil_iff.mpr fun a _ => ?_
    simp
    omega
  unfold KeepsOpen
  rw [hnone]
  split
  · rw [List.append_nil, enclosingHeadings_eq_between h]
    exact Outline.pairwise_enclosing _
  · simp

theorem pairwise_rebuiltSpans (offset : ℕ) (contents : List (List Char)) :
    (∀ s ∈ rebuiltSpans offset contents, offset ≤ s.start) ∧
      (rebuiltSpans offset contents).Pairwise fun s s' => s.start ≤ s'.start := by
  induction contents generalizing offset with
  | nil => simp [rebuiltSpans]
  | cons content contents ih =>
    obtain ⟨hle, hpairwise⟩ := ih (offset + content.length + 2)
    rw [rebuiltSpans]
    constructor
    · intro s hs
      rcases List.mem_cons.mp hs with rfl | hs
      · exact le_rfl
      · have := hle s hs
        omega
    · refine List.pairwise_cons.mpr ⟨fun s hs => ?_, hpairwise⟩
      have := hle s hs
      change offset ≤ s.start
      omega

/-- The joined chunks end as the text does. -/
theorem getLast?_intercalate {clean : List Char} {size overlap start : ℕ} {chunks : List Span}
    (h : Cover clean size overlap start chunks) :
    (['\n', '\n'].intercalate (chunks.map Window.content)).getLast? = clean.getLast? := by
  induction h with
  | @last start hstart hsize =>
    rw [List.map_singleton, List.intercalate_singleton, Window.of_content, slice_length,
      List.getLast?_drop, if_neg (by omega)]
  | next hoverlap hsize hstop rest ih =>
    have hne : clean ≠ [] := List.ne_nil_of_length_pos (by omega)
    rw [List.map_cons, List.intercalate_cons_of_ne_nil (by simpa using rest.ne_nil),
      List.getLast?_append, ih, List.getLast?_eq_some_getLast hne]
    rfl

theorem head?_intercalate {clean : List Char} {size overlap : ℕ} {chunks : List Span}
    (h : Cover clean size overlap 0 chunks) :
    (['\n', '\n'].intercalate (chunks.map Window.content)).head? = clean.head? := by
  have hslice : ∀ stop, 0 < stop → (slice clean 0 stop).head? = clean.head? := by
    intro stop hpos
    unfold slice
    rw [List.drop_zero, Nat.sub_zero, List.head?_take, if_neg (by omega)]
  have hfirst : ∀ (content : List Char) (contents : List (List Char)), content ≠ [] →
      (['\n', '\n'].intercalate (content :: contents)).head? = content.head? := by
    intro content contents hne
    cases contents with
    | nil => rw [List.intercalate_singleton]
    | cons next contents =>
      rw [List.intercalate_cons_cons, List.append_assoc, List.head?_append_of_ne_nil _ hne]
  cases h with
  | last hstart hsize =>
    rw [List.map_singleton, List.intercalate_singleton]
    exact hslice _ hstart
  | @next _ stop chunks hoverlap hsize hstop rest =>
    have hne : slice clean 0 stop ≠ [] := by
      apply List.ne_nil_of_length_pos
      rw [length_slice hstop.le]
      omega
    have hpos : 0 < stop := by omega
    exact (hfirst _ _ hne).trans (hslice _ hpos)

theorem not_mem_intercalate {clean : List Char} {size overlap start : ℕ} {chunks : List Span}
    (h : Cover clean size overlap start chunks) (hclean : '\r' ∉ clean) :
    '\r' ∉ ['\n', '\n'].intercalate (chunks.map Window.content) := by
  have hcontents : ∀ content ∈ chunks.map Window.content, '\r' ∉ content := by
    intro content hcontent hmem
    obtain ⟨w, hw, rfl⟩ := List.mem_map.mp hcontent
    rw [(h.of_mem hw).1] at hmem
    exact hclean (List.mem_of_mem_drop (List.mem_of_mem_take hmem))
  generalize chunks.map Window.content = contents at hcontents
  induction contents with
  | nil => simp
  | cons content contents ih =>
    obtain ⟨hcontent, hrest⟩ := List.forall_mem_cons.mp hcontents
    cases contents with
    | nil => rwa [List.intercalate_singleton]
    | cons next rest =>
      rw [List.intercalate_cons_cons, List.mem_append, List.mem_append]
      rintro ((hmem | hmem) | hmem)
      · exact hcontent hmem
      · exact absurd hmem (by decide)
      · exact ih hrest hmem

/-- Joining the chunks of a text gives a text that is clean. -/
theorem cleanText_rebuiltText {text : String} {size overlap : ℕ} {chunks : List Span}
    (h : Cover (cleanText text) size overlap 0 chunks) :
    cleanText (rebuiltText (chunks.map Window.content)) =
      ['\n', '\n'].intercalate (chunks.map Window.content) := by
  apply cleanText_of_clean (not_mem_intercalate h (not_mem_cleanText text))
  constructor
  · rw [head?_intercalate h]
    exact (trimmed_cleanText text).1
  · rw [getLast?_intercalate h]
    exact (trimmed_cleanText text).2

theorem rebuiltContexts_eq_map {text : String} {size overlap : ℕ} {chunks : List Span}
    (h : Cover (cleanText text) size overlap 0 chunks) (title : String) :
    rebuiltContexts title (chunks.map Window.content) =
      (rebuiltSpans 0 (chunks.map Window.content)).map fun s => contextOf
        (lineage (takeText 260 title) (pieceHeadings 0 (chunks.map Window.content)) s) := by
  unfold rebuiltContexts
  rw [chunkContexts_eq_map _ _ _ (pairwise_rebuiltSpans _ _).2, cleanText_rebuiltText h,
    findHeadings_intercalate]

/-- Where the sections survive, the chunks keep their contexts. -/
theorem rebuiltContexts_eq {text : String} {size overlap : ℕ} {chunks : List Span}
    (h : Cover (cleanText text) size overlap 0 chunks)
    (hsurvive : SectionsSurvive (cleanText text) chunks)
    (title : String) :
    rebuiltContexts title (chunks.map Window.content) = chunkContexts title text chunks := by
  have hsorted : chunks.Pairwise fun s s' => s.start ≤ s'.start :=
    h.pairwise_start.imp fun hlt => hlt.le
  have hpieces : (([] : List Heading) ++ pieceHeadings 0 (chunks.map Window.content)).Pairwise
      fun a b => a.start < b.start := by
    rw [List.nil_append, ← findHeadings_intercalate]
    exact pairwise_findHeadings _
  have hlabels := labels_rebuilt h (takeText 260 title) (Or.inl rfl) (fun _ _ => Nat.zero_le _)
    (keepsOpen_self (pairwise_findHeadings _) 0) hsurvive (by simp) hpieces
    (by simp [headingsBetween])
  rw [rebuiltContexts_eq_map h, chunkContexts_eq_map _ _ _ hsorted]
  have hcontexts :=
    congrArg (List.map fun labels => takeText 700 (" > ".intercalate labels)) hlabels
  rw [List.map_map, List.map_map] at hcontexts
  exact hcontexts

/-! The rows. -/

theorem rows_insertRows {R K : Type*} [Keyed R K] [DecidableEq K] {t t' : Table R} {rows : List R}
    (h : insertRows t rows = some t') : t'.rows = t.rows ++ rows := by
  induction rows generalizing t with
  | nil =>
    cases h
    rw [List.append_nil]
  | cons r rows ih =>
    obtain ⟨next, hinsert, hrest⟩ := Option.bind_eq_some_iff.mp h
    rw [ih hrest, Table.rows_insert? hinsert, List.append_assoc]
    rfl

theorem insertRows_of_nodup {R K : Type*} [Keyed R K] [DecidableEq K] {rows : List R} {t : Table R}
    (hnodup : (rows.map Keyed.key).Nodup) (hfresh : ∀ r ∈ rows, t.get? (Keyed.key r) = none) :
    ∃ t', insertRows t rows = some t' := by
  induction rows generalizing t with
  | nil => exact ⟨t, rfl⟩
  | cons r rows ih =>
    rw [List.map_cons, List.nodup_cons] at hnodup
    obtain ⟨next, hnext⟩ := Table.insert?_of_fresh (hfresh r List.mem_cons_self)
    have hrest : ∀ x ∈ rows, next.get? (Keyed.key x) = none := by
      intro x hx
      have hne : Keyed.key r ≠ Keyed.key x := fun h => hnodup.1 (h ▸ List.mem_map_of_mem hx)
      rw [Table.get?_insert? hnext, if_neg hne]
      exact hfresh x (List.mem_cons_of_mem _ hx)
    obtain ⟨t', ht'⟩ := ih hnodup.2 hrest
    exact ⟨t', Option.bind_eq_some_iff.mpr ⟨next, hnext, ht'⟩⟩

/-- What is written under a key holds of its row, if it did before or if anything is written. -/
theorem get?_writeRows {R K : Type*} [Keyed R K] [DecidableEq K] {P : R → Prop} {k : K}
    {rows : List R}
    {t : Table R} {r : R} (hrow : t.get? k = some r) (hwritten : ∀ x ∈ rows, Keyed.key x = k → P x)
    (h : P r ∨ ∃ x ∈ rows, Keyed.key x = k) : ∃ x, (writeRows t rows).get? k = some x ∧ P x := by
  induction rows generalizing t r with
  | nil =>
    refine ⟨r, hrow, h.resolve_right ?_⟩
    simp
  | cons x rows ih =>
    obtain ⟨hx, hrest⟩ := List.forall_mem_cons.mp hwritten
    by_cases hkey : Keyed.key x = k
    · refine ih (r := x) ?_ hrest (Or.inl (hx hkey))
      rw [Table.get?_write, if_pos hkey, hrow]
      rfl
    · refine ih (r := r) ?_ hrest (h.imp_right ?_)
      · rw [Table.get?_write, if_neg hkey, hrow]
      · rintro ⟨y, hy, hyk⟩
        rcases List.mem_cons.mp hy with rfl | hy
        · exact absurd hyk hkey
        · exact ⟨y, hy, hyk⟩

/-- `metadata["retrieval_context"]`. -/
def storedContext (chunk : KnowledgeChunk) : Option Json :=
  JsonObject.get? chunk.metadata "retrieval_context"

/-- Every chunk of the document has the context that it had. -/
def ContextsKept (before after : KnowledgeBase) (documentId : UUID) : Prop :=
  ∀ chunk ∈ before.chunks.rows, chunk.documentId = documentId →
    ∃ chunk', after.chunks.get? chunk.id = some chunk' ∧ storedContext chunk' = storedContext chunk

theorem get?_put (o : JsonObject) (key : String) (value : Json) :
    JsonObject.get? (o.put key value) key = some value := by
  unfold JsonObject.get? JsonObject.put
  split_ifs with hmem
  · induction o with
    | nil => simp at hmem
    | cons p rest ih =>
      by_cases hp : p.1 = key
      · simp [hp]
      · rw [List.any_cons, decide_eq_false hp, Bool.false_or] at hmem
        simpa [hp] using ih hmem
  · have hnone : o.find? (fun p => p.1 = key) = none := by
      refine List.find?_eq_none.mpr fun p hp hkey => hmem ?_
      exact List.any_eq_true.mpr ⟨p, hp, hkey⟩
    simp [List.find?_append, hnone]

section Rows

variable {documentId : UUID} {ids : ℕ → UUID} {embeddings : List (List Float)}
  {spans : List Span} {contexts contexts' : List String}

theorem getElem?_newChunks (hlength : contexts.length = spans.length) (i : ℕ)
    (h : i < spans.length) :
    (newChunks documentId ids embeddings spans contexts)[i]? =
      some (newChunk documentId ids embeddings i spans[i] contexts[i]) := by
  have hzip : (spans.zip contexts)[i]? = some (spans[i], contexts[i]) :=
    List.getElem?_zip_eq_some.mpr
      ⟨List.getElem?_eq_getElem h, List.getElem?_eq_getElem (by omega)⟩
  rw [newChunks, List.getElem?_mapIdx, hzip]
  rfl

theorem length_newChunks (hlength : contexts.length = spans.length) :
    (newChunks documentId ids embeddings spans contexts).length = spans.length := by
  simp [newChunks, hlength]

theorem map_key_newChunks (hlength : contexts.length = spans.length) :
    (newChunks documentId ids embeddings spans contexts).map Keyed.key =
      (List.range spans.length).map ids := by
  apply List.ext_getElem?
  intro i
  rw [List.getElem?_map, List.getElem?_map]
  by_cases h : i < spans.length
  · rw [getElem?_newChunks hlength i h, List.getElem?_range h]
    rfl
  · rw [List.getElem?_eq_none (by rw [length_newChunks hlength]; omega),
      List.getElem?_eq_none (by rw [List.length_range]; omega)]
    rfl

theorem getElem?_refreshedChunks {chunks : List KnowledgeChunk} {i : ℕ} {chunk : KnowledgeChunk}
    {context : String} (hchunk : chunks[i]? = some chunk) (hcontext : contexts[i]? = some context) :
    (refreshedChunks embeddings chunks contexts)[i]? =
      some (refreshedChunk embeddings i chunk context) := by
  have hzip : (chunks.zip contexts)[i]? = some (chunk, context) :=
    List.getElem?_zip_eq_some.mpr ⟨hchunk, hcontext⟩
  rw [refreshedChunks, List.getElem?_mapIdx, hzip]
  rfl

theorem of_mem_refreshedChunks {chunks : List KnowledgeChunk} {r : KnowledgeChunk}
    (h : r ∈ refreshedChunks embeddings chunks contexts) : ∃ i chunk context,
      chunks[i]? = some chunk ∧ contexts[i]? = some context ∧
        r = refreshedChunk embeddings i chunk context := by
  obtain ⟨i, hi⟩ := List.mem_iff_getElem?.mp h
  rw [refreshedChunks, List.getElem?_mapIdx, Option.map_eq_some_iff] at hi
  obtain ⟨p, hp, rfl⟩ := hi
  obtain ⟨hchunk, hcontext⟩ := List.getElem?_zip_eq_some.mp hp
  exact ⟨i, p.1, p.2, hchunk, hcontext, rfl⟩

theorem map_content_newChunks (hlength : contexts.length = spans.length) :
    ((newChunks documentId ids embeddings spans contexts).map fun c => c.content.toList) =
      spans.map Window.content := by
  apply List.ext_getElem?
  intro i
  rw [List.getElem?_map, List.getElem?_map]
  by_cases h : i < spans.length
  · rw [getElem?_newChunks hlength i h, List.getElem?_eq_getElem h]
    simp [newChunk]
  · rw [List.getElem?_eq_none (by rw [length_newChunks hlength]; omega),
      List.getElem?_eq_none (by omega)]
    rfl

theorem pairwise_newChunks :
    (newChunks documentId ids embeddings spans contexts).Pairwise fun c c' =>
      c.chunkIndex ≤ c'.chunkIndex := by
  rw [List.pairwise_iff_getElem]
  intro i j hi hj hlt
  simp only [newChunks, List.getElem_mapIdx, newChunk]
  exact_mod_cast hlt.le

/-- The chunks of the new document are the ones that have been added. -/
theorem chunksOf_insertRows {db : KnowledgeBase} {chunks : Table KnowledgeChunk}
    {documents : Table KnowledgeDocument}
    (hfresh : ∀ c ∈ db.chunks.rows, c.documentId ≠ documentId)
    (h : insertRows db.chunks (newChunks documentId ids embeddings spans contexts) = some chunks) :
    chunksOf ⟨documents, chunks⟩ documentId =
      newChunks documentId ids embeddings spans contexts := by
  have hold : (db.chunks.rows.filter fun c => c.documentId = documentId) = [] :=
    List.filter_eq_nil_iff.mpr fun c hc => by simpa using hfresh c hc
  have hnew : ((newChunks documentId ids embeddings spans contexts).filter fun c =>
      c.documentId = documentId) = newChunks documentId ids embeddings spans contexts := by
    refine List.filter_eq_self.mpr fun c hc => ?_
    obtain ⟨i, p, rfl⟩ := List.exists_of_mem_mapIdx hc
    simp [newChunk]
  unfold chunksOf
  rw [rows_insertRows h, List.filter_append, hold, hnew, List.nil_append]
  exact pairwise_newChunks.insertionSort_eq

/-- The context of a chunk of the new document behind the second indexing. -/
theorem storedContext_writeRows (embeddings' : List (List Float)) {t chunks : Table KnowledgeChunk}
    (h : insertRows t (newChunks documentId ids embeddings spans contexts) = some chunks)
    (hlength : contexts.length = spans.length) (hlength' : contexts'.length = spans.length) {i : ℕ}
    (hi : i < spans.length) :
    ∃ chunk, (writeRows chunks (refreshedChunks embeddings'
        (newChunks documentId ids embeddings spans contexts) contexts')).get? (ids i) = some chunk ∧
      storedContext chunk = some (.str contexts'[i]) := by
  have hrow : (newChunks documentId ids embeddings spans contexts)[i]? =
      some (newChunk documentId ids embeddings i spans[i] contexts[i]) :=
    getElem?_newChunks hlength i hi
  have hcontext : contexts'[i]? = some contexts'[i] := List.getElem?_eq_getElem (by omega)
  have hnodup := chunks.nodup
  rw [rows_insertRows h, List.map_append] at hnodup
  have hids := (List.nodup_append.mp hnodup).2.1
  have hmem : newChunk documentId ids embeddings i spans[i] contexts[i] ∈ chunks.rows := by
    rw [rows_insertRows h]
    exact List.mem_append_right _ (List.mem_of_getElem? hrow)
  refine get?_writeRows (Table.get?_eq_some.mpr ⟨hmem, rfl⟩) ?_ (Or.inr ?_)
  · intro r hr hkey
    obtain ⟨j, chunk, context, hchunk, hcontext', rfl⟩ := of_mem_refreshedChunks hr
    have hkeys : ((newChunks documentId ids embeddings spans contexts).map Keyed.key)[j]? =
        ((newChunks documentId ids embeddings spans contexts).map Keyed.key)[i]? := by
      rw [List.getElem?_map, List.getElem?_map, hchunk, hrow]
      exact congrArg some hkey
    have hlt : j < ((newChunks documentId ids embeddings spans contexts).map Keyed.key).length := by
      rw [List.length_map]
      exact (List.getElem?_eq_some_iff.mp hchunk).1
    have hji := (List.getElem?_inj hlt hids).mp hkeys
    subst hji
    rw [hcontext', Option.some.injEq] at hcontext
    subst hcontext
    exact get?_put _ _ _
  · exact ⟨_, List.mem_of_getElem? (getElem?_refreshedChunks hrow hcontext), rfl⟩

/-- The chunks keep their contexts just if the second indexing computes the same ones. -/
theorem contextsKept_iff (embeddings' : List (List Float)) {db : KnowledgeBase}
    {documents : Table KnowledgeDocument}
    {chunks : Table KnowledgeChunk} (hfresh : ∀ c ∈ db.chunks.rows, c.documentId ≠ documentId)
    (h : insertRows db.chunks (newChunks documentId ids embeddings spans contexts) = some chunks)
    (hlength : contexts.length = spans.length) (hlength' : contexts'.length = spans.length) :
    ContextsKept ⟨documents, chunks⟩ ⟨documents, writeRows chunks (refreshedChunks embeddings'
        (newChunks documentId ids embeddings spans contexts) contexts')⟩ documentId ↔
      contexts' = contexts := by
  constructor
  · intro hkept
    apply List.ext_getElem (by omega)
    intro i hi' hi
    have his : i < spans.length := by omega
    have hmem : newChunk documentId ids embeddings i spans[i] contexts[i] ∈ chunks.rows := by
      rw [rows_insertRows h]
      exact List.mem_append_right _ (List.mem_of_getElem? (getElem?_newChunks hlength i his))
    obtain ⟨chunk, hget, hsame⟩ := hkept _ hmem rfl
    obtain ⟨chunk', hget', hstored⟩ := storedContext_writeRows embeddings' h hlength hlength' his
    change Table.get? _ (ids i) = some chunk at hget
    rw [hget', Option.some.injEq] at hget
    subst hget
    rw [hstored] at hsame
    have hjson : some (Json.str contexts'[i]) = some (Json.str contexts[i]) := hsame
    exact Json.str.inj (Option.some.inj hjson)
  · intro hsame chunk hchunk hdocument
    rw [rows_insertRows h] at hchunk
    have hnew := (List.mem_append.mp hchunk).resolve_left fun hold => hfresh chunk hold hdocument
    obtain ⟨i, hi, rfl⟩ := List.exists_of_mem_mapIdx hnew
    have his : i < spans.length := by
      rw [List.length_zip] at hi
      omega
    obtain ⟨chunk', hget, hstored⟩ := storedContext_writeRows embeddings' h hlength hlength' his
    refine ⟨chunk', hget, hstored.trans ?_⟩
    subst hsame
    rw [List.getElem_zip]
    rfl

end Rows

theorem length_contextLoop (title : String) (headings : List Heading) (stack : List (ℕ × String))
    (spans : List Span) : (contextLoop title headings stack spans).length = spans.length := by
  induction spans generalizing headings stack with
  | nil => rfl
  | cons span spans ih => rw [contextLoop, List.length_cons, List.length_cons, ih]

theorem length_rebuiltSpans (offset : ℕ) (contents : List (List Char)) :
    (rebuiltSpans offset contents).length = contents.length := by
  induction contents generalizing offset with
  | nil => rfl
  | cons content contents ih => rw [rebuiltSpans, List.length_cons, List.length_cons, ih]

theorem length_rebuiltContexts (title : String) (contents : List (List Char)) :
    (rebuiltContexts title contents).length = contents.length := by
  rw [rebuiltContexts, chunkContexts, length_contextLoop, length_rebuiltSpans]

/-- A document with fresh ids is created. -/
theorem indexText_eq_ok (services : RetrievalServices) {db : KnowledgeBase} (userId : Option UUID)
    {payload : KnowledgeDocumentCreate} {documentId : UUID} {ids : ℕ → UUID} (now : Instant)
    {spans : List Span} (hsplit : splitSpans payload.content 900 120 = .ok spans)
    (hspans : spans ≠ []) (hdocument : db.documents.get? documentId = none)
    (hids : ((List.range spans.length).map ids).Nodup)
    (hfresh : ∀ i, db.chunks.get? (ids i) = none) :
    ∃ db', indexText services db userId payload documentId ids now =
      .ok (db', newDocument userId payload documentId now) := by
  obtain ⟨documents, hdocuments⟩ : ∃ documents,
      db.documents.insert? (newDocument userId payload documentId now) = some documents :=
    Table.insert?_of_fresh hdocument
  have hlength : (chunkContexts payload.title payload.content spans).length = spans.length :=
    length_contextLoop _ _ _ _
  obtain ⟨chunks, hchunks⟩ : ∃ chunks, insertRows db.chunks (newChunks documentId ids
      (embedOrEmpty services
        ((spans.zip (chunkContexts payload.title payload.content spans)).map fun p =>
        embeddingInput p.2 (String.ofList p.1.content))) spans
          (chunkContexts payload.title payload.content spans)) = some chunks := by
    apply insertRows_of_nodup
    · rwa [map_key_newChunks hlength]
    · intro r hr
      obtain ⟨i, hi, rfl⟩ := List.exists_of_mem_mapIdx hr
      exact hfresh i
  refine ⟨⟨documents, chunks⟩, ?_⟩
  unfold indexText
  simp only [hsplit, if_neg hspans, hdocuments, hchunks]

/-- What a document that has been created consists of. -/
theorem of_indexText {services : RetrievalServices} {db db' : KnowledgeBase} {userId : Option UUID}
    {payload : KnowledgeDocumentCreate} {documentId : UUID} {ids : ℕ → UUID} {now : Instant}
    {document : KnowledgeDocument}
    (h : indexText services db userId payload documentId ids now = .ok (db', document)) :
    document.title = payload.title ∧ db'.documents.get? documentId = some document ∧
      ∃ spans embeddings, splitSpans payload.content 900 120 = .ok spans ∧ spans ≠ [] ∧
        insertRows db.chunks (newChunks documentId ids embeddings spans
          (chunkContexts payload.title payload.content spans)) = some db'.chunks := by
  unfold indexText at h
  cases hsplit : splitSpans payload.content 900 120 with
  | error e => simp [hsplit] at h
  | ok spans =>
    simp only [hsplit] at h
    split_ifs at h with hnil
    split at h
    · next documents chunks hdocuments hchunks =>
      cases h
      refine ⟨rfl, ?_, spans, _, rfl, hnil, hchunks⟩
      exact (Table.get?_insert? hdocuments documentId).trans (if_pos rfl)
    · cases h

/-- The second indexing of a document that has been created. -/
theorem reindexDocument_of_indexText {services services' : RetrievalServices}
    {db db' : KnowledgeBase}
    {userId : Option UUID} {payload : KnowledgeDocumentCreate} {documentId : UUID} {ids : ℕ → UUID}
    {now : Instant} {document : KnowledgeDocument}
    (hfresh : ∀ c ∈ db.chunks.rows, c.documentId ≠ documentId)
    (h : indexText services db userId payload documentId ids now = .ok (db', document))
    (havailable : ∀ texts, texts ≠ [] → embedOrEmpty services' texts ≠ []) :
    ∃ db'' spans,
      reindexDocument services' db' document.userId documentId = .ok (db'', some document) ∧
      splitSpans payload.content 900 120 = .ok spans ∧
      (ContextsKept db' db'' documentId ↔ rebuiltContexts payload.title (spans.map Window.content) =
        chunkContexts payload.title payload.content spans) := by
  obtain ⟨htitle, hget, spans, embeddings, hsplit, hnil, hinsert⟩ := of_indexText h
  have hlength : (chunkContexts payload.title payload.content spans).length = spans.length :=
    length_contextLoop _ _ _ _
  have hlength' :
    (rebuiltContexts payload.title (spans.map Window.content)).length = spans.length := by
    rw [length_rebuiltContexts, List.length_map]
  have hchunks : chunksOf db' documentId = newChunks documentId ids embeddings spans
      (chunkContexts payload.title payload.content spans) := chunksOf_insertRows hfresh hinsert
  have hcontents : (newChunks documentId ids embeddings spans
      (chunkContexts payload.title payload.content spans)).map (fun c => c.content.toList) =
        spans.map Window.content := map_content_newChunks hlength
  have hpos : 0 < spans.length := List.length_pos_iff.mpr hnil
  have hne : newChunks documentId ids embeddings spans
      (chunkContexts payload.title payload.content spans) ≠ [] := by
    apply List.ne_nil_of_length_pos
    rwa [length_newChunks hlength]
  obtain ⟨vectors, hvectors⟩ : ∃ vectors,
    embedOrEmpty services' (((newChunks documentId ids embeddings
      spans (chunkContexts payload.title payload.content spans)).zip
        (rebuiltContexts payload.title (spans.map Window.content))).map fun p =>
          embeddingInput p.2 p.1.content) = vectors := ⟨_, rfl⟩
  have hsome : vectors ≠ [] := by
    rw [← hvectors]
    apply havailable
    apply List.ne_nil_of_length_pos
    rw [List.length_map, List.length_zip, length_newChunks hlength, hlength']
    omega
  refine ⟨_, spans, ?_, hsplit, contextsKept_iff vectors hfresh hinsert hlength hlength'⟩
  unfold reindexDocument
  simp only [hget, hchunks, htitle, hcontents, hvectors]
  rw [if_neg (by simp), if_neg hne, if_neg fun hnone => hsome hnone.1]

/-- Where the sections of a document survive the reading of its chunks one by one, the second
indexing leaves every chunk its context. -/
theorem reindexDocument_keeps_contexts {services services' : RetrievalServices}
    {db db' : KnowledgeBase} {userId : Option UUID} {payload : KnowledgeDocumentCreate}
    {documentId : UUID} {ids : ℕ → UUID} {now : Instant} {document : KnowledgeDocument}
    (hfresh : ∀ c ∈ db.chunks.rows, c.documentId ≠ documentId)
    (h : indexText services db userId payload documentId ids now = .ok (db', document))
    (havailable : ∀ texts, texts ≠ [] → embedOrEmpty services' texts ≠ [])
    (hsurvive : ∀ chunks, splitSpans payload.content 900 120 = .ok chunks →
      SectionsSurvive (cleanText payload.content) chunks) :
    ∃ db'', reindexDocument services' db' document.userId documentId = .ok (db'', some document) ∧
      ContextsKept db' db'' documentId := by
  obtain ⟨db'', spans, hreindex, hsplit, hkept⟩ := reindexDocument_of_indexText hfresh h havailable
  refine ⟨db'', hreindex, hkept.mpr ?_⟩
  by_cases htext : cleanText payload.content = []
  · have hnil : spans = [] := by
      simpa [splitSpans, htext, eq_comm] using hsplit
    subst hnil
    rfl
  · obtain ⟨spans', hsplit', hcover⟩ := splitSpans_covers payload.content
      (by decide : (0 : ℤ) < 900) (by decide : (0 : ℤ) ≤ 120) (by decide) htext
    rw [hsplit', Except.ok.injEq] at hsplit
    subst hsplit
    exact rebuiltContexts_eq hcover (hsurvive spans' hsplit') payload.title

/-! A chunk that begins within a line, at what looks like a heading. -/

def slicedText : List Char := List.replicate 780 'a' ++ '#' :: '\t' :: List.replicate 200 'b'

theorem not_mem_slicedText {c : Char} (ha : c ≠ 'a') (hhash : c ≠ '#') (htab : c ≠ '\t')
    (hb : c ≠ 'b') :
    c ∉ slicedText := by
  intro h
  rcases List.mem_append.mp h with h | h
  · exact ha (List.eq_of_mem_replicate h)
  · rcases List.mem_cons.mp h with h | h
    · exact hhash h
    · rcases List.mem_cons.mp h with h | h
      · exact htab h
      · exact hb (List.eq_of_mem_replicate h)

theorem length_slicedText : slicedText.length = 982 := by
  simp only [slicedText, List.length_append, List.length_cons, List.length_replicate]

theorem cleanText_slicedText : cleanText (String.ofList slicedText) = slicedText := by
  apply cleanText_of_clean
  · exact not_mem_slicedText (by decide) (by decide) (by decide) (by decide)
  · constructor
    · intro c hc
      have hhead : slicedText.head? = some 'a' := rfl
      rw [hhead, Option.some.injEq] at hc
      subst hc
      decide
    · intro c hc
      have hlast : slicedText.getLast? = some 'b' := by
        rw [slicedText, List.getLast?_append, List.getLast?_cons, List.getLast?_cons,
          List.getLast?_replicate]
        rfl
      rw [hlast, Option.some.injEq] at hc
      subst hc
      decide

/-- A clean text of two chunks. -/
theorem splitSpans_of_two {text : List Char} {stop : ℕ}
    (hclean : cleanText (String.ofList text) = text) (hpos : 120 < stop) (hlt : stop < text.length)
    (hfirst : chunkEnd text 900 120 0 = stop)
    (hsecond : chunkEnd text 900 120 (stop - 120) = text.length) :
    splitSpans (String.ofList text) 900 120 =
      .ok [Window.of text 0 stop, Window.of text (stop - 120) text.length] := by
  have hne : text ≠ [] := List.ne_nil_of_length_pos (by omega)
  obtain ⟨rounds, hrounds⟩ : ∃ rounds, text.length = rounds + 1 + 1 := ⟨text.length - 2, by omega⟩
  have hsize : (900 : ℤ).toNat = 900 ∧ (120 : ℤ).toNat = 120 := ⟨rfl, rfl⟩
  rw [splitSpans, if_neg (by decide)]
  simp only [hclean, if_neg hne, hsize.1, hsize.2]
  rw [hrounds, splitLoop, if_pos (by omega)]
  simp only [hfirst, if_neg (Nat.ne_of_lt hlt)]
  rw [splitLoop, if_pos (by omega)]
  simp only [hsecond, if_true, hrounds]
  rfl

theorem splitSpans_slicedText : splitSpans (String.ofList slicedText) 900 120 =
    .ok [Window.of slicedText 0 900, Window.of slicedText 780 982] := by
  have hnone : ∀ separator ∈ chunkSeparators, ∃ c ∈ separator, c ∉ slicedText := by
    have hnewline : '\n' ∉ slicedText :=
      not_mem_slicedText (by decide) (by decide) (by decide) (by decide)
    have hspace : ' ' ∉ slicedText :=
      not_mem_slicedText (by decide) (by decide) (by decide) (by decide)
    have hstop : '。' ∉ slicedText :=
      not_mem_slicedText (by decide) (by decide) (by decide) (by decide)
    simp [chunkSeparators, hnewline, hspace, hstop]
  have hfirst : chunkEnd slicedText 900 120 0 = 900 := by
    rw [chunkEnd_of_forall_not_mem hnone, length_slicedText]
    rfl
  have hsecond : chunkEnd slicedText 900 120 780 = 982 := by
    rw [chunkEnd_of_forall_not_mem hnone, length_slicedText]
    rfl
  exact (splitSpans_of_two cleanText_slicedText (by decide)
    (by rw [length_slicedText]; decide) hfirst
    (hsecond.trans length_slicedText.symm)).trans (by rw [length_slicedText])

theorem findHeadings_of_not_mem {text : List Char} (h : '\n' ∉ text) : findHeadings text =
    ((matchHeading text).map fun m => Heading.mk 0 m.1 m.2).toList := by
  have hlines : text.splitOn '\n' = [text] := by
    rw [List.splitOn_eq_splitOnP]
    refine List.splitOnP_eq_singleton fun c hc => ?_
    rw [beq_eq_false_iff_ne]
    rintro rfl
    exact h hc
  rw [findHeadings, hlines, lineHeadings, lineHeadings, List.append_nil]

theorem matchHeading_of_ne {c : Char} (hc : c ≠ '#') (rest : List Char) :
    matchHeading (c :: rest) = none := by
  simp [matchHeading, hc]

/-- A heading at the start of a span is all of its lineage. -/
theorem lineage_singleton (title label : String) (content : List Char) (level start stop : ℕ) :
    lineage title [⟨start, level, label⟩] ⟨content, start, stop⟩ = [title, label] := by
  simp [lineage, enclosingHeadings, insideHeadings]

/-- A second label makes another context. -/
theorem contextOf_pair_ne {label : String} (h : label ≠ "T") :
    contextOf ["T", label] ≠ contextOf ["T"] := by
  have hkeys : dictFromKeys ["T", label] = ["T", label] := by simp [dictFromKeys, h]
  have hjoin : " > ".intercalate ["T", label] = "T" ++ " > " ++ label := rfl
  rw [contextOf_singleton, contextOf, hkeys, hjoin]
  intro heq
  have hlength := congrArg String.length heq
  simp only [takeText, String.length_ofList, List.length_take, String.toList_append,
    List.length_append] at hlength
  have hchars : "T".toList.length = 1 ∧ " > ".toList.length = 3 := by decide
  omega

theorem matchHeading_heading (c : Char) (hc : isBlank c = false) (rest : List Char) :
    matchHeading ('#' :: '\t' :: c :: rest) =
      some (1, takeText 120 (strip (String.ofList (c :: rest)))) := by
  have htab : isBlank '\t' = true ∧ isBlank '#' = false := by decide
  simp [matchHeading, hc, htab]

/-- The heading that the second chunk shows. -/
theorem findHeadings_slicedText : ∃ label, label ≠ "T" ∧
    findHeadings (slice slicedText 780 982) = [⟨0, 1, label⟩] := by
  have hslice : slice slicedText 780 982 = '#' :: '\t' :: List.replicate 200 'b' := by
    have hdrop : slicedText.drop 780 = '#' :: '\t' :: List.replicate 200 'b' :=
      List.drop_left' (List.length_replicate ..)
    rw [slice, hdrop]
    apply List.take_of_length_le
    simp only [List.length_cons, List.length_replicate]
    decide
  have hnewline : '\n' ∉ slice slicedText 780 982 := fun h =>
    absurd (List.mem_of_mem_drop (List.mem_of_mem_take h))
      (not_mem_slicedText (by decide) (by decide) (by decide) (by decide))
  have htrim : Trimmed (List.replicate 200 'b') := by
    constructor <;> intro c hc
    · rw [List.head?_replicate, if_neg (by decide), Option.some.injEq] at hc
      exact hc ▸ rfl
    · rw [List.getLast?_replicate, if_neg (by decide), Option.some.injEq] at hc
      exact hc ▸ rfl
  refine ⟨takeText 120 (strip (String.ofList (List.replicate 200 'b'))), ?_, ?_⟩
  · intro hlabel
    have hlength := congrArg String.length hlabel
    rw [strip, String.toList_ofList, stripList_of_trimmed htrim, takeText, String.toList_ofList,
      String.length_ofList, List.length_take, List.length_replicate] at hlength
    exact absurd hlength (by decide)
  · rw [findHeadings_of_not_mem hnewline, hslice, List.replicate_succ, matchHeading_heading _ rfl]
    rfl

/-- The first indexing gives both chunks the title, the second one more to the second chunk. -/
theorem rebuiltContexts_slicedText :
    rebuiltContexts "T" [slice slicedText 0 900, slice slicedText 780 982] ≠
      chunkContexts "T" (String.ofList slicedText)
        [Window.of slicedText 0 900, Window.of slicedText 780 982] := by
  obtain ⟨label, hlabel, hheadings⟩ := findHeadings_slicedText
  have hne : cleanText (String.ofList slicedText) ≠ [] := by
    rw [cleanText_slicedText]
    apply List.ne_nil_of_length_pos
    rw [length_slicedText]
    decide
  obtain ⟨spans, hsplit, hcover⟩ := splitSpans_covers (String.ofList slicedText)
    (by decide : (0 : ℤ) < 900) (by decide : (0 : ℤ) ≤ 120) (by decide) hne
  rw [splitSpans_slicedText, Except.ok.injEq] at hsplit
  subst hsplit
  have hnewline : '\n' ∉ slicedText :=
    not_mem_slicedText (by decide) (by decide) (by decide) (by decide)
  have htext : findHeadings slicedText = [] := by
    rw [findHeadings_of_not_mem hnewline]
    exact congrArg (fun m => (Option.map _ m).toList) (matchHeading_of_ne (by decide) _)
  have hfirst : findHeadings (slice slicedText 0 900) = [] := by
    have hslice : '\n' ∉ slice slicedText 0 900 := fun h =>
      hnewline (List.mem_of_mem_drop (List.mem_of_mem_take h))
    rw [findHeadings_of_not_mem hslice]
    exact congrArg (fun m => (Option.map _ m).toList) (matchHeading_of_ne (by decide) _)
  intro h
  have hmap := rebuiltContexts_eq_map hcover "T"
  simp only [List.map_cons, List.map_nil, Window.of_content] at hmap
  rw [hmap, chunkContexts_eq_map _ _ _ (by simp), cleanText_slicedText, htext] at h
  have hsecond := congrArg (fun contexts => contexts[1]?) h
  simp only [rebuiltSpans, pieceHeadings, hfirst, hheadings, List.map_cons, List.map_nil,
    List.nil_append, Heading.shift, Nat.add_zero, List.getElem?_cons_succ, List.getElem?_cons_zero,
    Option.some.injEq] at hsecond
  have htitle : takeText 260 "T" = "T" := rfl
  have hright : lineage "T" [] (Window.of slicedText 780 982) = ["T"] := rfl
  rw [List.append_nil, htitle, lineage_singleton, hright] at hsecond
  exact contextOf_pair_ne hlabel hsecond

/-- A provider that always answers. -/
def steadyServices : RetrievalServices :=
  { offlineServices with
    embedTexts := fun texts => some (texts.map fun _ => List.replicate 1536 1) }

theorem embedOrEmpty_steadyServices (texts : List String) (h : texts ≠ []) :
    embedOrEmpty steadyServices texts ≠ [] := by
  have hvectors : embedOrEmpty steadyServices texts = texts.map fun _ => List.replicate 1536 1 := by
    simp only [embedOrEmpty, steadyServices]
    rw [if_neg]
    rw [List.length_map, List.any_map]
    simp only [ne_eq, not_true_eq_false, false_or, Function.comp_def, List.length_replicate,
      decide_false, List.any_eq_true, Bool.false_eq_true, and_false, exists_false,
      not_false_eq_true]
  rw [hvectors]
  exact List.map_eq_nil_iff.not.mpr h

def emptyBase : KnowledgeBase := ⟨Table.empty, Table.empty⟩

def sampleIds (index : ℕ) : UUID := BitVec.ofNat 128 (20 + index)

def samplePayload (content : String) : KnowledgeDocumentCreate :=
  ⟨"T", "text", none, none, some 5, content⟩

/-- The second chunk begins within the only line, at `"#\tb…"`, and reads as a heading. -/
theorem reindexDocument_changes_context : ∃ db' document db'',
    indexText steadyServices emptyBase (some 1)
      (samplePayload (String.ofList slicedText)) 10 sampleIds 0 =
      .ok (db', document) ∧
    reindexDocument steadyServices db' document.userId 10 = .ok (db'', some document) ∧
    ¬ ContextsKept db' db'' 10 := by
  obtain ⟨db', hindex⟩ : ∃ db', indexText steadyServices emptyBase (some 1)
      (samplePayload (String.ofList slicedText)) 10 sampleIds 0 =
        .ok (db', newDocument (some 1) (samplePayload (String.ofList slicedText)) 10 0) :=
    indexText_eq_ok _ _ _ splitSpans_slicedText (by simp) rfl (by decide) (fun _ => rfl)
  obtain ⟨db'', spans, hreindex, hsplit, hkept⟩ := reindexDocument_of_indexText
    (fun c hc => absurd hc List.not_mem_nil) hindex embedOrEmpty_steadyServices
  refine ⟨db', _, db'', hindex, hreindex, fun h => ?_⟩
  have hspans := splitSpans_slicedText.symm.trans hsplit
  rw [Except.ok.injEq] at hspans
  subst hspans
  have hsame := hkept.mp h
  simp only [List.map_cons, List.map_nil, Window.of_content] at hsame
  exact rebuiltContexts_slicedText hsame

/-- The second chunk begins within the first section, and the second section within the overlap. -/
def sectionText : List Char :=
  '#' :: ' ' :: 'A' :: '\n' :: (List.replicate 888 'a' ++
    '\n' :: '#' :: '#' :: ' ' :: 'B' :: '\n' :: '\n' :: List.replicate 200 'b')

theorem length_sectionText : sectionText.length = 1099 := by
  simp only [sectionText, List.length_append, List.length_cons, List.length_replicate]

theorem cleanText_sectionText : cleanText (String.ofList sectionText) = sectionText := by
  apply cleanText_of_clean
  · simp only [sectionText, List.mem_cons, List.mem_append, List.mem_replicate]
    decide
  · constructor
    · intro c hc
      obtain rfl : '#' = c := Option.some.inj hc
      decide
    · intro c hc
      have hlast : sectionText.getLast? = some 'b' := by decide +kernel
      rw [hlast, Option.some.injEq] at hc
      subst hc
      decide

theorem splitSpans_sectionText : splitSpans (String.ofList sectionText) 900 120 =
    .ok [Window.of sectionText 0 899, Window.of sectionText 779 1099] := by
  have hfirst : chunkEnd sectionText 900 120 0 = 899 := by decide +kernel
  have hsecond : chunkEnd sectionText 900 120 779 = 1099 := by decide +kernel
  exact (splitSpans_of_two cleanText_sectionText (by decide) (by rw [length_sectionText]; decide)
    hfirst (hsecond.trans length_sectionText.symm)).trans (by rw [length_sectionText])

theorem findHeadings_sectionText : findHeadings sectionText = [⟨0, 1, "A"⟩, ⟨893, 2, "B"⟩] := by
  decide +kernel

theorem sectionsSurvive_sectionText (chunks : List Span)
    (h : splitSpans (String.ofList sectionText) 900 120 = .ok chunks) :
    SectionsSurvive (cleanText (String.ofList sectionText)) chunks := by
  rw [splitSpans_sectionText, Except.ok.injEq] at h
  subst h
  rw [cleanText_sectionText]
  have hfirst : findHeadings (slice sectionText 0 899) = [⟨0, 1, "A"⟩, ⟨893, 2, "B"⟩] := by
    decide +kernel
  have hsecond : findHeadings (slice sectionText 779 1099) = [⟨114, 2, "B"⟩] := by decide +kernel
  constructor
  · simp only [List.forall_mem_cons, List.not_mem_nil, false_imp_iff, implies_true, and_true]
    constructor
    · rw [ShowsHeadings, Window.of_content, hfirst, findHeadings_sectionText]
      rfl
    · rw [ShowsHeadings, Window.of_content, hsecond, findHeadings_sectionText]
      rfl
  · refine .cons_cons ?_ (.singleton _)
    rw [findHeadings_sectionText]
    simp [KeepsOpen, headingsBetween, enclosingHeadings]

theorem reindexDocument_keeps_contexts_sample : ∃ db' document db'',
    indexText steadyServices emptyBase (some 1) (samplePayload (String.ofList sectionText)) 10
      sampleIds 0 = .ok (db', document) ∧
    reindexDocument steadyServices db' document.userId 10 = .ok (db'', some document) ∧
    ContextsKept db' db'' 10 := by
  obtain ⟨db', hindex⟩ : ∃ db', indexText steadyServices emptyBase (some 1)
      (samplePayload (String.ofList sectionText)) 10 sampleIds 0 = .ok
        (db', newDocument (some 1) (samplePayload (String.ofList sectionText)) 10 0) :=
    indexText_eq_ok _ _ _ splitSpans_sectionText (by simp) rfl (by decide) (fun _ => rfl)
  obtain ⟨db'', hreindex, hkept⟩ := reindexDocument_keeps_contexts
    (fun c hc => absurd hc List.not_mem_nil) hindex embedOrEmpty_steadyServices
    sectionsSurvive_sectionText
  exact ⟨db', _, db'', hindex, hreindex, hkept⟩

end AgentDemo
