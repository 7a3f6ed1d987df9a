import AgentDemo.Library.Dictionary
import AgentDemo.Services.Embeddings

/-! The vectors that `embed_texts` returns are those that the provider has labelled with the
places of the texts. -/
namespace AgentDemo

def LabelledRow (row : ProviderJson) (index : ℕ) (vector : ProviderVector) : Prop :=
  ∃ fields, row = .dict fields ∧ fields.lookup "index" = some (.int index) ∧
    fields.lookup "embedding" = some (.list vector)

/-- A vector of the configured dimension, with finite values that are not all zero. -/
structure ValidVector (s : EmbeddingSettings) (vector : ProviderVector) : Prop where
  length : vector.length = s.embeddingDimensions
  finite : ∀ value ∈ vector, value.finiteNumber = true
  nonzero : ∃ value ∈ vector, value.nonzero = true

structure LabelledVector (s : EmbeddingSettings) (rows : List ProviderJson) (index : ℕ)
    (vector : ProviderVector) : Prop where
  labelled : ∃ row ∈ rows, LabelledRow row index vector
  unique : ∀ row ∈ rows, ∀ v, LabelledRow row index v → v = vector
  valid : ValidVector s vector

/-- The rows of a successful answer to the request of a batch. -/
def AnsweredWith (loads : String → LoadedJson) (p : EmbeddingProvider) (batch : List String)
    (rows : List ProviderJson) : Prop :=
  ∃ request status text data, p.respond request batch = .answered status text ∧
    200 ≤ status ∧ status < 300 ∧ loads text = .value (.dict data) ∧
      data.lookup "data" = some (.list rows)

theorem LabelledRow.index_unique {row : ProviderJson} {i j : ℕ} {v w : ProviderVector}
    (h : LabelledRow row i v) (h' : LabelledRow row j w) : i = j ∧ v = w := by
  obtain ⟨fields, rfl, hindex, hvector⟩ := h
  obtain ⟨fields', heq, hindex', hvector'⟩ := h'
  obtain rfl : fields = fields' := ProviderJson.dict.inj heq
  rw [hindex, Option.some.injEq, ProviderJson.int.injEq] at hindex'
  rw [hvector, Option.some.injEq, ProviderJson.list.injEq] at hvector'
  exact ⟨Int.ofNat.inj hindex', hvector'⟩

/-! The rows of one answer. -/

/-- What a row adds. -/
theorem validateRow_eq_ok {s : EmbeddingSettings} {count : ℕ}
    {indexed indexed' : List (ℕ × ProviderVector)} {row : ProviderJson}
    (h : validateRow s count indexed row = .ok indexed') :
    ∃ index vector, indexed' = indexed ++ [(index, vector)] ∧ index < count ∧
      index ∉ indexed.map Prod.fst ∧ LabelledRow row index vector ∧ ValidVector s vector := by
  unfold validateRow at h
  split at h
  · rename_i fields
    split at h
    · rename_i index hindex
      split_ifs at h with hplace
      split at h
      · rename_i vector hvector
        split_ifs at h with hlength hfinite hnonzero
        obtain ⟨hnonneg, hlt, hnew⟩ := hplace
        have hcast : ((index.toNat : ℕ) : ℤ) = index := Int.toNat_of_nonneg hnonneg
        refine ⟨index.toNat, vector, (Except.ok.inj h).symm, by omega, hnew, ?_, ?_⟩
        · exact ⟨fields, rfl, by rw [hcast]; exact hindex, hvector⟩
        · exact ⟨not_not.mp hlength, List.all_eq_true.mp hfinite,
            List.any_eq_true.mp hnonzero⟩
      · exact absurd h (by simp)
    · exact absurd h (by simp)
  · exact absurd h (by simp)

theorem validateRow_ne_missing {s : EmbeddingSettings} {count : ℕ}
    {indexed : List (ℕ × ProviderVector)} {row : ProviderJson} {index : ℕ} :
    validateRow s count indexed row ≠ .error (.missing index) := by
  unfold validateRow
  split
  · split
    · split_ifs
      · split
        · split_ifs <;> simp
        · simp
      · simp
    · simp
  · simp

structure IndexedRows (s : EmbeddingSettings) (count : ℕ) (rows : List ProviderJson)
    (indexed : List (ℕ × ProviderVector)) : Prop where
  nodup : (indexed.map Prod.fst).Nodup
  lt : ∀ p ∈ indexed, p.1 < count
  valid : ∀ p ∈ indexed, ValidVector s p.2
  rows : List.Forall₂ (fun row p => LabelledRow row p.1 p.2) rows indexed

theorem IndexedRows.append {s : EmbeddingSettings} {count : ℕ} {rows : List ProviderJson}
    {indexed indexed' : List (ℕ × ProviderVector)} {row : ProviderJson}
    (h : IndexedRows s count rows indexed) (hrow : validateRow s count indexed row = .ok indexed') :
    IndexedRows s count (rows ++ [row]) indexed' := by
  obtain ⟨index, vector, rfl, hlt, hnew, hlabel, hvalid⟩ := validateRow_eq_ok hrow
  refine ⟨?nodup, ?lt, ?valid, ?rows⟩
  case nodup =>
    rw [List.map_append, List.map_singleton, ← List.concat_eq_append]
    exact List.Nodup.concat hnew h.nodup
  case lt =>
    intro p hp
    rcases List.mem_append.mp hp with hp | hp
    · exact h.lt p hp
    · exact List.mem_singleton.mp hp ▸ hlt
  case valid =>
    intro p hp
    rcases List.mem_append.mp hp with hp | hp
    · exact h.valid p hp
    · exact List.mem_singleton.mp hp ▸ hvalid
  case rows => exact List.rel_append h.rows (List.Forall₂.cons hlabel List.Forall₂.nil)

theorem foldlM_validateRow {s : EmbeddingSettings} {count : ℕ} {front rows : List ProviderJson}
    {indexed indexed' : List (ℕ × ProviderVector)} (h : IndexedRows s count front indexed)
    (hrows : rows.foldlM (validateRow s count) indexed = .ok indexed') :
    IndexedRows s count (front ++ rows) indexed' := by
  induction rows generalizing front indexed with
  | nil =>
    obtain rfl : indexed = indexed' := Except.ok.inj hrows
    rwa [List.append_nil]
  | cons row rows ih =>
    rw [List.foldlM_cons] at hrows
    cases hrow : validateRow s count indexed row with
    | error e =>
      rw [hrow] at hrows
      exact absurd hrows (by simp [bind, Except.bind])
    | ok next =>
      rw [hrow] at hrows
      rw [← List.singleton_append, ← List.append_assoc]
      exact ih (h.append hrow) hrows

theorem foldlM_ne_missing {s : EmbeddingSettings} {count : ℕ} {rows : List ProviderJson}
    {indexed : List (ℕ × ProviderVector)} {index : ℕ} :
    rows.foldlM (validateRow s count) indexed ≠ .error (.missing index) := by
  induction rows generalizing indexed with
  | nil => exact fun h => nomatch h
  | cons row rows ih =>
    rw [List.foldlM_cons]
    cases hrow : validateRow s count indexed row with
    | error e =>
      intro h
      have he : e = .missing index := Except.error.inj h
      exact validateRow_ne_missing (he ▸ hrow)
    | ok next => exact ih

/-- As many rows as there are places fill every place. -/
theorem IndexedRows.exists_lookup {s : EmbeddingSettings} {count : ℕ} {rows : List ProviderJson}
    {indexed : List (ℕ × ProviderVector)} (h : IndexedRows s count rows indexed)
    (hcount : rows.length = count) {index : ℕ} (hindex : index < count) :
    ∃ vector, indexed.lookup index = some vector := by
  have hperm : (indexed.map Prod.fst).Perm (List.range count) := by
    apply perm_range_of_nodup h.nodup
    · intro i hi
      obtain ⟨p, hp, rfl⟩ := List.mem_map.mp hi
      exact h.lt p hp
    · rw [List.length_map, ← h.rows.length_eq, hcount]
  have hmem : index ∈ indexed.map Prod.fst := hperm.mem_iff.mpr (List.mem_range.mpr hindex)
  exact Option.ne_none_iff_exists'.mp (Dictionary.lookup_eq_none.not.mpr (not_not.mpr hmem))

theorem IndexedRows.labelledVector {s : EmbeddingSettings} {count : ℕ} {rows : List ProviderJson}
    {indexed : List (ℕ × ProviderVector)} (h : IndexedRows s count rows indexed) {index : ℕ}
    {vector : ProviderVector} (hlookup : indexed.lookup index = some vector) :
    LabelledVector s rows index vector := by
  have hmem : (index, vector) ∈ indexed := (Dictionary.mem_iff_lookup h.nodup).mpr hlookup
  refine ⟨?labelled, ?unique, h.valid _ hmem⟩
  case labelled =>
    obtain ⟨row, hrow, hlabel⟩ := Batches.exists_left_of_mem h.rows hmem
    exact ⟨row, hrow, hlabel⟩
  case unique =>
    intro row hrow v hlabel
    obtain ⟨p, hp, hlabel'⟩ := Batches.exists_right_of_mem h.rows hrow
    obtain ⟨hsame, rfl⟩ := hlabel.index_unique hlabel'
    have hp' : (index, p.2) ∈ indexed := by
      rw [hsame]
      exact hp
    have hlookup' := (Dictionary.mem_iff_lookup h.nodup).mp hp'
    exact Option.some.inj (hlookup'.symm.trans hlookup)

/-- The vectors of an answer. -/
theorem lookUpAll_spec (indexed : List (ℕ × ProviderVector)) (indices : List ℕ)
    (h : ∀ index ∈ indices, ∃ vector, indexed.lookup index = some vector) :
    ∃ vectors, lookUpAll indexed indices = .ok vectors ∧
      List.Forall₂ (fun index vector => indexed.lookup index = some vector) indices vectors := by
  induction indices with
  | nil => exact ⟨[], rfl, List.Forall₂.nil⟩
  | cons index rest ih =>
    obtain ⟨vector, hvector⟩ := h index List.mem_cons_self
    obtain ⟨vectors, hvectors, hrest⟩ := ih fun i hi => h i (List.mem_cons_of_mem _ hi)
    refine ⟨vector :: vectors, ?_, List.Forall₂.cons hvector hrest⟩
    rw [lookUpAll, hvector, hvectors]
    rfl

/-- A checked answer either raises or gives the labelled vectors in order; no place is missing. -/
theorem validateEmbeddings_spec (s : EmbeddingSettings) (data : List (String × ProviderJson))
    (count : ℕ) :
    (∀ index, validateEmbeddings s data count ≠ .error (.missing index)) ∧
      ∀ vectors, validateEmbeddings s data count = .ok vectors → ∃ rows,
        data.lookup "data" = some (.list rows) ∧ rows.length = count ∧
          List.Forall₂ (LabelledVector s rows) (List.range count) vectors := by
  unfold validateEmbeddings
  split
  · rename_i rows hrows
    split_ifs with hcount
    · cases hindexed : rows.foldlM (validateRow s count) [] with
      | error e =>
        refine ⟨?_, fun vectors h => (nomatch h)⟩
        intro index h
        have he : e = .missing index := Except.error.inj h
        exact foldlM_ne_missing (he ▸ hindexed)
      | ok indexed =>
        have hempty : IndexedRows s count [] [] :=
          ⟨List.nodup_nil, by simp, by simp, List.Forall₂.nil⟩
        have hspec : IndexedRows s count rows indexed := foldlM_validateRow hempty hindexed
        obtain ⟨found, hfound, hplaces⟩ := lookUpAll_spec indexed
          (List.range count) fun index hindex =>
            hspec.exists_lookup hcount (List.mem_range.mp hindex)
        have hresult : (Except.ok indexed >>= fun indexed => lookUpAll indexed (List.range count)) =
            .ok found := hfound
        rw [hresult]
        refine ⟨fun index h => (nomatch h), fun vectors h => ⟨rows, hrows, hcount, ?_⟩⟩
        obtain rfl : found = vectors := Except.ok.inj h
        exact hplaces.imp fun _ _ hlookup => hspec.labelledVector hlookup
    · exact ⟨fun index h => by simp at h, fun vectors h => (nomatch h)⟩
  · exact ⟨fun index h => by simp at h, fun vectors h => (nomatch h)⟩

/-! The requests. -/

theorem read_eq_ok {loads : String → LoadedJson} {attempt : PostAttempt}
    {data : List (String × ProviderJson)} (h : attempt.read loads = .ok data) :
    ∃ status text, attempt = .answered status text ∧ 200 ≤ status ∧ status < 300 ∧
      loads text = .value (.dict data) := by
  cases attempt with
  | refused failure => exact absurd h (by simp [PostAttempt.read])
  | answered status text =>
    unfold PostAttempt.read parseReply at h
    simp only at h
    split_ifs at h with hstatus
    split at h
    · exact absurd h (by simp)
    · exact absurd h (by simp)
    · rename_i parsed hloads
      split at h
      · obtain rfl : parsed = data := Except.ok.inj h
        exact ⟨status, text, rfl, hstatus.1, hstatus.2, hloads⟩
      · exact absurd h (by simp)
    · exact absurd h (by simp)

/-- A retried request ends with an answer to one of its attempts or with its exception. -/
theorem postJson_spec (loads : String → LoadedJson) (s : EmbeddingSettings) (p : EmbeddingProvider)
    (batch : List String) {left attempt : ℕ} (request : ℕ)
    (hleft : left + attempt = s.gateway.llmMaxRetries + 1) (hpositive : 0 < left) :
    (∃ data request', (postJson loads s p batch left attempt request).1 = .ok data ∧
        (p.respond request' batch).read loads = .ok data) ∨
      ∃ e, (postJson loads s p batch left attempt request).1 = .error (.gateway e) := by
  induction left generalizing attempt request with
  | zero => exact absurd hpositive (Nat.lt_irrefl 0)
  | succ left ih =>
    unfold postJson
    cases hread : (p.respond request batch).read loads with
    | ok data => exact Or.inl ⟨data, request, rfl, hread⟩
    | error e =>
      simp only
      split_ifs with hraise hdeadline
      · exact Or.inr ⟨e, rfl⟩
      · exact Or.inr ⟨.deadline, rfl⟩
      · have hretry : shouldRetry s.gateway e attempt ≠ false := fun hno => hraise (Or.inr hno)
        have hattempt : attempt < s.gateway.llmMaxRetries := by
          by_contra hge
          exact hretry (if_pos (Nat.le_of_not_lt hge))
        exact ih (request + 1) (by omega) (by omega)

def BatchVectors (loads : String → LoadedJson) (s : EmbeddingSettings) (p : EmbeddingProvider)
    (batch : List String) (vectors : List ProviderVector) : Prop :=
  ∃ rows, AnsweredWith loads p batch rows ∧
    List.Forall₂ (LabelledVector s rows) (List.range batch.length) vectors

theorem embedBatches_spec (loads : String → LoadedJson) (s : EmbeddingSettings)
    (p : EmbeddingProvider) (batches : List (List String)) (request : ℕ) :
    (∀ index, embedBatches loads s p batches request ≠ .error (.missing index)) ∧
      ∀ vectors, embedBatches loads s p batches request = .ok vectors → ∃ results,
        vectors = results.flatten ∧ List.Forall₂ (BatchVectors loads s p) batches results := by
  induction batches generalizing request with
  | nil =>
    refine ⟨fun index h => (nomatch h), fun vectors h => ⟨[], ?_, List.Forall₂.nil⟩⟩
    exact (Except.ok.inj h).symm
  | cons batch batches ih =>
    unfold embedBatches
    have hpost := postJson_spec loads s p batch request
      (Nat.add_zero (s.gateway.llmMaxRetries + 1)) (Nat.succ_pos _)
    cases hjson : postJson loads s p batch (s.gateway.llmMaxRetries + 1) 0 request with
    | mk result next =>
      rw [hjson] at hpost
      rcases hpost with ⟨data, request', hdata, hread⟩ | ⟨e, herror⟩
      · obtain rfl : result = .ok data := hdata
        obtain ⟨hnever, hvectors⟩ := validateEmbeddings_spec s data batch.length
        obtain ⟨hnever', hrest⟩ := ih next
        simp only
        cases hbatch : validateEmbeddings s data batch.length with
        | error e =>
          refine ⟨fun index h => hnever index ?_, fun vectors h => (nomatch h)⟩
          exact hbatch.trans h
        | ok first =>
          cases hmore : embedBatches loads s p batches next with
          | error e =>
            refine ⟨fun index h => hnever' index ?_, fun vectors h => (nomatch h)⟩
            exact hmore.trans h
          | ok more =>
            refine ⟨fun index h => (nomatch h), fun vectors h => ?_⟩
            obtain rfl : first ++ more = vectors := Except.ok.inj h
            obtain ⟨rows, hrows, -, hlabels⟩ := hvectors first hbatch
            obtain ⟨results, rfl, hresults⟩ := hrest more hmore
            obtain ⟨status, text, hrespond, hlow, hhigh, hloads⟩ := read_eq_ok hread
            refine ⟨first :: results, rfl, List.Forall₂.cons ⟨rows, ?_, hlabels⟩ hresults⟩
            exact ⟨request', status, text, data, hrespond, hlow, hhigh, hloads, hrows⟩
      · obtain rfl : result = .error (.gateway e) := herror
        exact ⟨fun index h => by simp at h, fun vectors h => (nomatch h)⟩

/-- `embed_texts` raises or returns one vector for each text, the one that an answer to its batch
has labelled with its place; its last lookup never fails. -/
theorem embedTexts_spec (loads : String → LoadedJson) (s : EmbeddingSettings)
    (p : EmbeddingProvider) (texts : List String) :
    (∀ index, embedTexts loads s p texts ≠ .error (.missing index)) ∧
      ∀ vectors, embedTexts loads s p texts = .ok vectors →
        vectors.length = texts.length ∧ ∃ rows : ℕ → List ProviderJson,
          ∀ i < texts.length, ∃ vector, vectors[i]? = some vector ∧
            let batch := i / s.embeddingBatchSize
            AnsweredWith loads p ((texts.drop (batch * s.embeddingBatchSize)).take
              s.embeddingBatchSize) (rows batch) ∧
              LabelledVector s (rows batch) (i % s.embeddingBatchSize) vector := by
  have hsize := s.embeddingBatchSize_pos
  unfold embedTexts
  split_ifs with htexts hkey
  · refine ⟨fun index h => (nomatch h), fun vectors h => ?_⟩
    obtain rfl : [] = vectors := Except.ok.inj h
    rw [htexts]
    exact ⟨rfl, fun _ => [], fun i hi => absurd hi (Nat.not_lt_zero i)⟩
  · exact ⟨fun index h => by simp at h, fun vectors h => (nomatch h)⟩
  · obtain ⟨hnever, hvectors⟩ := embedBatches_spec loads s p
      (Batches.split s.embeddingBatchSize texts) 0
    refine ⟨hnever, fun vectors h => ?_⟩
    obtain ⟨results, rfl, hresults⟩ := hvectors vectors h
    have hlengths : List.Forall₂ (fun batch result => result.length = batch.length)
        (Batches.split s.embeddingBatchSize texts) results :=
      hresults.imp fun batch result hbatch => by
        obtain ⟨rows, -, hlabels⟩ := hbatch
        rw [← hlabels.length_eq, List.length_range]
    obtain ⟨hlength, hplaces⟩ := Batches.getElem?_flatten hsize hlengths
    refine ⟨hlength, ?_⟩
    have hrows : ∀ b : ℕ, ∃ rows, ∀ batch result,
        (Batches.split s.embeddingBatchSize texts)[b]? = some batch → results[b]? = some result →
          AnsweredWith loads p batch rows ∧
            List.Forall₂ (LabelledVector s rows) (List.range batch.length) result := by
      intro b
      cases hbatch : (Batches.split s.embeddingBatchSize texts)[b]? with
      | none => exact ⟨[], fun _ _ h => (nomatch h)⟩
      | some batch =>
        cases hresult : results[b]? with
        | none => exact ⟨[], fun _ _ _ h => (nomatch h)⟩
        | some result =>
          obtain ⟨rows, hanswered, hlabels⟩ := Batches.rel_of_getElem? hresults hbatch hresult
          refine ⟨rows, fun _ _ h h' => ?_⟩
          rw [← Option.some.inj h, ← Option.some.inj h']
          exact ⟨hanswered, hlabels⟩
    choose rows hrows using hrows
    refine ⟨rows, fun i hi => ?_⟩
    obtain ⟨result, hresult, hget⟩ := hplaces i hi
    obtain ⟨hanswered, hlabels⟩ := hrows _ _ _ (Batches.getElem?_split hsize hi) hresult
    have hplace := Batches.mod_lt_length hsize hi
    have hlt : i % s.embeddingBatchSize < result.length := by
      rw [← hlabels.length_eq, List.length_range]
      exact hplace
    have hvector := List.getElem?_eq_getElem hlt
    refine ⟨_, hget.trans hvector, hanswered, ?_⟩
    exact Batches.rel_of_getElem? hlabels (List.getElem?_range hplace) hvector

end AgentDemo
