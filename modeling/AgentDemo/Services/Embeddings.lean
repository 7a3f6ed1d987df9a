import AgentDemo.Library.Batches
import AgentDemo.Services.ModelGateway
import AgentDemo.Services.ProviderReplies

/-! `ModelGateway.embed_texts`: batches of texts, retried requests and checked vectors. -/
namespace AgentDemo

/-- What one `client.post` meets: an exception, or a status and the text of the body. -/
inductive PostAttempt where
  | refused (failure : HttpxFailure)
  | answered (status : ℕ) (text : String)

/-- The provider over the requests of one call, which it sees with their inputs. `deadlineInBackoff`
says after which request the total deadline passes while the gateway sleeps. -/
structure EmbeddingProvider where
  respond : ℕ → List String → PostAttempt
  deadlineInBackoff : ℕ → Bool

/-- The settings; the batch size is `Field(ge=1)`. -/
structure EmbeddingSettings where
  gateway : GatewaySettings
  openaiApiKey : String
  embeddingDimensions : ℕ
  embeddingBatchSize : ℕ
  embeddingBatchSize_pos : 0 < embeddingBatchSize

/-- `json.loads`: a value, or one of its two kinds of exception. -/
inductive LoadedJson where
  | value (v : ProviderJson)
  | invalid
  | tooDeep

/-- How `embed_texts` can fail; `exhausted` is the `AssertionError` behind the retry loop, and
`missing` the `KeyError` of the last lookup. -/
inductive EmbeddingError where
  | gateway (e : StreamError)
  | exhausted
  | missing (index : ℕ)

abbrev ProviderVector := List ProviderJson

/-- `_parse_object` on a body. -/
def parseReply (loads : String → LoadedJson) (text : String) :
    Except StreamError (List (String × ProviderJson)) :=
  match loads text with
  | .invalid => .error (.response "Model provider returned invalid JSON")
  | .tooDeep => .error .recursion
  | .value (.dict parsed) =>
    match (parsed.lookup "error").getD .null with
    | .null => .ok parsed
    | _ => .error (.response "Model provider returned an error response")
  | .value _ => .error (.response "Model provider returned an invalid response object")

/-- One pass through the body of the retry loop, up to its `except`. -/
def PostAttempt.read (loads : String → LoadedJson) :
    PostAttempt → Except StreamError (List (String × ProviderJson))
  | .refused failure => .error (.httpx failure)
  | .answered status text =>
    if 200 ≤ status ∧ status < 300 then parseReply loads text else .error (.status status)

/-- `_post_json` from `attempt` on, with `left` rounds of its range to go; the result comes with the
number of the next request. -/
def postJson (loads : String → LoadedJson) (s : EmbeddingSettings) (p : EmbeddingProvider)
    (batch : List String) :
    (left attempt request : ℕ) → Except EmbeddingError (List (String × ProviderJson)) × ℕ
  | 0, _, request => (.error .exhausted, request)
  | left + 1, attempt, request =>
    match (p.respond request batch).read loads with
    | .ok data => (.ok data, request + 1)
    | .error e =>
      if e.caught = false ∨ shouldRetry s.gateway e attempt = false then
        (.error (.gateway e), request + 1)
      else if p.deadlineInBackoff request then (.error (.gateway .deadline), request + 1)
      else postJson loads s p batch left (attempt + 1) (request + 1)

/-- `type(value) in (int, float) and math.isfinite(value)`. -/
def ProviderJson.finiteNumber (value : ProviderJson) : Bool :=
  value.number.any Float.isFinite

def ProviderJson.nonzero : ProviderJson → Bool
  | .int n => n ≠ 0
  | .float x => !(x == 0)
  | _ => false

def validateRow (s : EmbeddingSettings) (count : ℕ) (indexed : List (ℕ × ProviderVector)) :
    ProviderJson → Except EmbeddingError (List (ℕ × ProviderVector))
  | .dict fields =>
    match fields.lookup "index" with
    | some (.int index) =>
      if 0 ≤ index ∧ index < count ∧ index.toNat ∉ indexed.map Prod.fst then
        match fields.lookup "embedding" with
        | some (.list vector) =>
          if vector.length ≠ s.embeddingDimensions then
            .error (.gateway (.response
              "Embedding dimensions do not match the configured storage"))
          else if ¬ vector.all ProviderJson.finiteNumber then
            .error (.gateway (.response
              "Embedding response contains non-finite or non-numeric values"))
          else if ¬ vector.any ProviderJson.nonzero then
            .error (.gateway (.response "Embedding response contains a zero vector"))
          else .ok (indexed ++ [(index.toNat, vector)])
        | _ => .error (.gateway (.response
            "Embedding dimensions do not match the configured storage"))
      else .error (.gateway (.response
        "Embedding response contains invalid or duplicate indices"))
    | _ => .error (.gateway (.response "Embedding response contains invalid or duplicate indices"))
  | _ => .error (.gateway (.response "Embedding response contains an invalid vector row"))

/-- `[indexed[index] for index in range(count)]`. -/
def lookUpAll (indexed : List (ℕ × ProviderVector)) :
    List ℕ → Except EmbeddingError (List ProviderVector)
  | [] => .ok []
  | index :: rest =>
    match indexed.lookup index with
    | none => .error (.missing index)
    | some vector => (lookUpAll indexed rest).map (vector :: ·)

def validateEmbeddings (s : EmbeddingSettings) (data : List (String × ProviderJson)) (count : ℕ) :
    Except EmbeddingError (List ProviderVector) :=
  match data.lookup "data" with
  | some (.list rows) =>
    if rows.length = count then do
      let indexed ← rows.foldlM (validateRow s count) []
      lookUpAll indexed (List.range count)
    else .error (.gateway (.response "Embedding response has an unexpected number of vectors"))
  | _ => .error (.gateway (.response "Embedding response has an unexpected number of vectors"))

def embedBatches (loads : String → LoadedJson) (s : EmbeddingSettings) (p : EmbeddingProvider) :
    List (List String) → ℕ → Except EmbeddingError (List ProviderVector)
  | [], _ => .ok []
  | batch :: batches, request =>
    match postJson loads s p batch (s.gateway.llmMaxRetries + 1) 0 request with
    | (.error e, _) => .error e
    | (.ok data, next) => do
      let vectors ← validateEmbeddings s data batch.length
      let rest ← embedBatches loads s p batches next
      return vectors ++ rest

def embedTexts (loads : String → LoadedJson) (s : EmbeddingSettings) (p : EmbeddingProvider)
    (texts : List String) : Except EmbeddingError (List ProviderVector) :=
  if texts = [] then .ok []
  else if s.openaiApiKey = "" then .error (.gateway .missingApiKey)
  else embedBatches loads s p (Batches.split s.embeddingBatchSize texts) 0

end AgentDemo
