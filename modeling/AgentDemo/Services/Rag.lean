import AgentDemo.Agent.Text
import AgentDemo.Library.Dictionary
import AgentDemo.Library.Query
import AgentDemo.Models.Knowledge
import AgentDemo.Services.RetrievalReranker
import Mathlib.Algebra.Order.Ring.Rat
import Mathlib.Data.Prod.Lex

/-! `RagService.search`: two searches of the visible chunks, their fusion, reranking and choice. -/
namespace AgentDemo

def minVectorScore : Float := 0.45
def maxKeywordTerms : ℕ := 32
def maxResults : ℕ := 20
def maxCandidates : ℕ := 120
def rrfK : ℕ := 60

def latinKeywordStopTerms : List String :=
  ["about", "could", "from", "have", "please", "tell", "that", "this", "what", "when", "where",
    "which", "with", "would"]

def cjkKeywordStopTerms : List String := ["一下", "什么", "告诉", "如何", "帮我", "怎么", "是否", "请问"]

def conversationContextTerms : List String :=
  ["attachment", "context", "document", "file", "knowledge", "notes", "provided", "uploaded",
    "上传", "上下文", "文档", "文件", "材料", "知识", "笔记", "资料", "附件"]

/-- What the search calls: the text functions of Python and of the database, `<=>` of pgvector, and
the two services. `none` is an exception or a timeout. -/
structure RetrievalServices where
  lower : String → String
  casefold : String → String
  str : Json → String
  sqlLower : String → String
  jsonText : Json → String
  cosineDistance : List Float → List Float → Float
  embedTexts : List String → Option (List (List Float))
  rerank : String → List String → Option (List RerankRow)

inductive EvidenceValue where
  | json (value : Json)
  | rank (n : ℕ)
  | score (x : Float)
  | text (s : String)

abbrev Evidence := List (String × EvidenceValue)

/-- `{**evidence, key: value}`. -/
def Evidence.put (evidence : Evidence) (key : String) (value : EvidenceValue) : Evidence :=
  Dictionary.put evidence key value

inductive RetrievalMethod where
  | vector
  | keyword
  | hybridRrf
  | conversationContext
  deriving DecidableEq

structure Citation where
  documentId : String
  title : String
  chunkIndex : ℤ
  content : String
  sourceType : String
  sourceUri : Option String
  score : Float
  retrievalMethod : RetrievalMethod
  evidence : Evidence

/-- `f"{evidence.get('retrieval_context', title)}"`. -/
def Citation.context (services : RetrievalServices) (c : Citation) : String :=
  match c.evidence.lookup "retrieval_context" with
  | some (.json (.str s)) => s
  | some (.json value) => services.str value
  | _ => c.title

/-- The letters, digits and folded letters that `[a-z0-9]` matches without regard to case. -/
def isLatinStart (c : Char) : Bool :=
  c.isAlphanum || c.toNat ∈ [0x130, 0x131, 0x17f, 0x212a]

def isLatinRest (c : Char) : Bool := isLatinStart c || c ∈ ['_', '.', '-']

def isCjk (c : Char) : Bool :=
  (0x3400 ≤ c.toNat && c.toNat ≤ 0x4dbf) || (0x4e00 ≤ c.toNat && c.toNat ≤ 0x9fff)

/-- `QUERY_TOKEN_RE.findall`; the first argument is at least the length of the text. -/
def queryTokens : ℕ → List Char → List (List Char)
  | 0, _ => []
  | _, [] => []
  | fuel + 1, c :: rest =>
    if isLatinStart c then
      (c :: rest.takeWhile isLatinRest) :: queryTokens fuel (rest.dropWhile isLatinRest)
    else if isCjk c then
      (c :: rest.takeWhile isCjk) :: queryTokens fuel (rest.dropWhile isCjk)
    else queryTokens fuel rest

def cjkTerms (token : List Char) : List String :=
  [3, 2].flatMap fun size =>
    if token.length < size then []
    else ((List.range (token.length - size + 1)).map fun start =>
      String.ofList ((token.drop start).take size)).filter fun term =>
        !cjkKeywordStopTerms.any fun stop => hasText stop term

/-- `token.strip("._-")`. -/
def stripToken (token : List Char) : List Char :=
  let outer : Char → Bool := fun c => c ∈ ['.', '_', '-']
  ((token.dropWhile outer).reverse.dropWhile outer).reverse

def latinTerms (token : List Char) : List String :=
  let normalized := String.ofList (stripToken token)
  if 3 ≤ normalized.length ∧ normalized ∉ latinKeywordStopTerms then [normalized] else []

namespace RagService

variable (services : RetrievalServices)

/-- `add`. -/
def addTerm (terms : List String) (term : String) : List String :=
  let normalized := services.casefold term
  if normalized ≠ "" ∧ normalized ∉ terms ∧ terms.length < maxKeywordTerms then
    terms ++ [normalized]
  else terms

def keywordTerms (query : String) : List String :=
  let text := (services.casefold query).toList
  let found := (queryTokens text.length text).flatMap fun token =>
    if token.all isCjk then cjkTerms token else latinTerms token
  found.foldl (addTerm services) []

def requestsConversationContext (query : String) : Bool :=
  conversationContextTerms.any fun term => hasText term (services.casefold query)

def embedOrEmpty (texts : List String) : List (List Float) :=
  match services.embedTexts texts with
  | none => []
  | some vectors =>
    if vectors.length ≠ texts.length ∨ vectors.any fun vector => vector.length ≠ 1536 then []
    else vectors

/-- The condition that `_scope_statement` adds. -/
def scope (userId conversationId : Option UUID) (includeGlobal : Bool) (d : KnowledgeDocument) :
    Bool :=
  d.userId = userId && d.status = "indexed" &&
    match conversationId with
    | none => d.conversationId = none
    | some c =>
      if includeGlobal then d.conversationId = some c || d.conversationId = none
      else d.conversationId = some c

/-- `_retrieval_order` and `_document_scope_priority`; without a conversation every row has the
same place in this order. -/
def scopePriority (conversationId : Option UUID) (d : KnowledgeDocument) : ℕ :=
  if conversationId ≠ none ∧ d.conversationId = conversationId then 0 else 1

def citation (chunk : KnowledgeChunk) (document : KnowledgeDocument) (score : Float)
    (method : RetrievalMethod) : Citation :=
  { documentId := document.id.str
    title := document.title
    chunkIndex := chunk.chunkIndex
    content := chunk.content
    sourceType := document.sourceType
    sourceUri := document.sourceUri
    score
    retrievalMethod := method
    evidence := (chunk.metadata.filter fun p =>
      p.1 ∈ ["start_char", "end_char", "retrieval_context"]).map fun p => (p.1, .json p.2) }

/-- The order of `float8`: not-a-number comes last, and both zeros are equal. -/
def float8Key (x : Float) : ℤ :=
  if x.isNaN then 2 ^ 64
  else if x.toBits.toNat < 2 ^ 63 then x.toBits.toNat
  else 2 ^ 63 - x.toBits.toNat

def vectorScore (distance : Float) : Float :=
  if distance.isFinite then (if 1 - distance > 0 then 1 - distance else 0) else 0

/-- The statement of `_search_by_vector`. -/
def vectorRows (db : KnowledgeBase) (userId conversationId : Option UUID) (query : List Float)
    (limit : ℕ) : List (KnowledgeChunk × KnowledgeDocument) :=
  let distance (r : KnowledgeChunk × KnowledgeDocument) : Float :=
    services.cosineDistance (r.1.embedding.getD []) query
  Query.select
    (fun r => r.1.embedding.isSome && float8Key (distance r) ≤ float8Key (1 - minVectorScore) &&
      scope userId conversationId true r.2)
    (fun r =>
      toLex (float8Key (distance r), toLex (scopePriority conversationId r.2, r.1.id.toNat)))
    limit db.joined

def searchByVector (db : KnowledgeBase) (userId conversationId : Option UUID) (query : String)
    (limit : ℕ) : List Citation :=
  match embedOrEmpty services [query] with
  | [] => []
  | embedding :: _ =>
    (vectorRows services db userId conversationId embedding limit).filterMap fun r =>
      let score := vectorScore (services.cosineDistance (r.1.embedding.getD []) embedding)
      if score < minVectorScore then none else some (citation r.1 r.2 score .vector)

/-- `coalesce(metadata ->> 'retrieval_context', title)`. -/
def sqlContext (r : KnowledgeChunk × KnowledgeDocument) : String :=
  match JsonObject.get? r.1.metadata "retrieval_context" with
  | some (.str s) => s
  | none | some .null => r.2.title
  | some value => services.jsonText value

/-- `retrieval_context` or the title; `none` when the value has no `lower`. -/
def contextText (r : KnowledgeChunk × KnowledgeDocument) : Option String :=
  match JsonObject.get? r.1.metadata "retrieval_context" with
  | none => some r.2.title
  | some (.str s) => some s
  | some _ => none

def countMatches (keywords : List String) (text : String) : ℕ :=
  (keywords.filter fun keyword => hasText keyword text).length

/-- The statement of `_search_by_keywords`. -/
def keywordRows (db : KnowledgeBase) (userId conversationId : Option UUID) (keywords : List String)
    (limit : ℕ) : List (KnowledgeChunk × KnowledgeDocument) :=
  let content (r : KnowledgeChunk × KnowledgeDocument) : ℕ :=
    countMatches keywords (services.sqlLower r.1.content)
  let context (r : KnowledgeChunk × KnowledgeDocument) : ℕ :=
    countMatches keywords (services.sqlLower (sqlContext services r))
  Query.select
    (fun r => (content r ≠ 0 || context r ≠ 0) && scope userId conversationId true r.2)
    (fun r => toLex (-((content r : ℚ) + (1 / 4) * (context r : ℚ)),
      toLex (scopePriority conversationId r.2, r.1.id.toNat)))
    limit db.joined

structure ScoredRow where
  scopedPriority : ℕ
  score : Float
  chunk : KnowledgeChunk
  document : KnowledgeDocument

/-- The order of `key=lambda item: (-item[1], item[0], str(item[2].id))`. -/
def ScoredRow.before (a b : ScoredRow) : Bool :=
  if (-a.score) == (-b.score) then
    if a.scopedPriority = b.scopedPriority then a.chunk.id.str < b.chunk.id.str
    else a.scopedPriority < b.scopedPriority
  else -a.score < -b.score

/-- `_search_by_keywords`; `none` is an exception. -/
def searchByKeywords (db : KnowledgeBase) (userId conversationId : Option UUID) (query : String)
    (limit : ℕ) : Option (List Citation) :=
  match keywordTerms services query with
  | [] => some []
  | keywords => do
    let scored ← (keywordRows services db userId conversationId keywords limit).filterMapM fun r =>
      do
        let context ← contextText r
        let score := (countMatches keywords (services.lower r.1.content)).toFloat +
          0.25 * (countMatches keywords (services.lower context)).toFloat
        pure (if score == 0 then none
          else some (ScoredRow.mk (scopePriority conversationId r.2) score r.1 r.2))
    some (((scored.mergeSort fun a b => !b.before a).take limit).map fun row =>
      citation row.chunk row.document row.score .keyword)

def conversationDocumentContext (db : KnowledgeBase) (userId : Option UUID) (conversationId : UUID)
    (limit : ℕ) : List Citation :=
  (Query.select (fun r => scope userId (some conversationId) false r.2)
    (fun r : KnowledgeChunk × KnowledgeDocument =>
      toLex (-r.2.createdAt, toLex (r.1.chunkIndex, r.1.id.toNat)))
    limit db.joined).map fun r => citation r.1 r.2 0 .conversationContext

/-- `math.isclose(a, b, rel_tol=1e-6, abs_tol=1e-8)`. -/
def isClose (a b : Float) : Bool :=
  if a == b then true
  else if a.isInf || b.isInf then false
  else
    let diff := (b - a).abs
    diff ≤ (1e-6 * b).abs || diff ≤ (1e-6 * a).abs || diff ≤ 1e-8

abbrev CitationKey := String × ℤ

instance : LawfulBEq CitationKey := inferInstance

def citationKey (c : Citation) : CitationKey := (c.documentId, c.chunkIndex)

/-- What the loops of `_fuse` carry; `seen`, `previousScore` and `rank` start anew in a channel. -/
structure FusionState where
  merged : List (CitationKey × Citation)
  scores : List (CitationKey × Float)
  seen : List CitationKey
  previousScore : Option Float
  rank : ℕ

def fuseStep (channel : String) (s : FusionState) (entry : ℕ × Citation) : FusionState :=
  let (position, c) := entry
  let rank := if s.previousScore.any (isClose c.score) then s.rank else position
  let s := { s with previousScore := some c.score, rank }
  let key := citationKey c
  if key ∈ s.seen then s
  else
    let existing := (s.merged.lookup key).getD c
    let evidence := (existing.evidence.put (channel ++ "_rank") (.rank rank)).put
      (channel ++ "_score") (.score c.score)
    let score := (s.scores.lookup key).getD 0 + 1 / (rrfK + rank).toFloat
    { s with
      seen := s.seen ++ [key]
      scores := Dictionary.put s.scores key score
      merged := Dictionary.put s.merged key
        { existing with score, retrievalMethod := .hybridRrf, evidence } }

def fuseChannel (channel : String) (s : FusionState) (citations : List Citation) : FusionState :=
  (citations.zipIdx.map fun p => (p.2 + 1, p.1)).foldl (fuseStep channel)
    { s with seen := [], previousScore := none, rank := 0 }

/-- `evidence.get("keyword_rank", MAX_CANDIDATES + 1)`. -/
def keywordRank (c : Citation) : ℕ :=
  match c.evidence.lookup "keyword_rank" with
  | some (.rank n) => n
  | _ => maxCandidates + 1

def fusedBefore (a b : CitationKey × Citation) : Bool :=
  if (-a.2.score) == (-b.2.score) then
    if keywordRank a.2 = keywordRank b.2 then
      if a.1.1 = b.1.1 then a.1.2 < b.1.2 else a.1.1 < b.1.1
    else keywordRank a.2 < keywordRank b.2
  else -a.2.score < -b.2.score

/-- `_fuse`; the score of a merged citation is its entry of `scores`. -/
def fuse (vector keyword : List Citation) (limit : ℕ) : List Citation :=
  if vector = [] then keyword.take limit
  else if keyword = [] then vector.take limit
  else
    let start : FusionState := ⟨[], [], [], none, 0⟩
    let s := fuseChannel "keyword" (fuseChannel "vector" start vector) keyword
    ((s.merged.mergeSort fun a b => !fusedBefore b a).take limit).map Prod.snd

def rerank (settings : RetrievalSettings) (query : String) (candidates : List Citation)
    (limit : ℕ) : List Citation :=
  let pool := candidates.take settings.ragRerankCandidates
  let texts := pool.map fun c => c.context services ++ "\n\n" ++ c.content
  let ranked := RetrievalReranker.rank settings services.rerank query texts
  let pool : List Citation := match ranked with
    | none => pool
    | some ranked => ranked.filterMap fun (index, score) => pool[index]?.map fun c : Citation =>
      let evidence := c.evidence.put "rerank_score" (.score score)
      { c with evidence := evidence.put "reranker" (.text settings.ragRerankModel) }
  let status := if ranked.isSome then "applied"
    else if settings.ragRerankMode = .api ∧ 2 ≤ pool.length then "fallback" else "local"
  let selected := diverseIndices services.casefold (pool.map Citation.content) limit
    (some (pool.map fun c => c.context services))
  selected.filterMap fun index => pool[index]?.map fun c : Citation =>
    let evidence := c.evidence.put "selection_method" (.text "mmr")
    { c with evidence := evidence.put "rerank_status" (.text status) }

/-- `search`; `none` is an exception. -/
def search (settings : RetrievalSettings) (db : KnowledgeBase) (userId : Option UUID)
    (query : String) (conversationId : Option UUID) (limit : ℤ) : Option (List Citation) :=
  if strip query = "" ∨ limit ≤ 0 then some []
  else do
    let limit := min limit.toNat maxResults
    let candidates := min maxCandidates (max 24 (limit * 6))
    let keywordResults ← searchByKeywords services db userId conversationId query candidates
    let vectorResults := searchByVector services db userId conversationId query candidates
    if vectorResults ≠ [] ∨ keywordResults ≠ [] then
      some (rerank services settings query (fuse vectorResults keywordResults candidates) limit)
    else match conversationId with
      | none => some []
      | some conversationId =>
        if requestsConversationContext services query then
          some (conversationDocumentContext db userId conversationId limit)
        else some []

end RagService

end AgentDemo
