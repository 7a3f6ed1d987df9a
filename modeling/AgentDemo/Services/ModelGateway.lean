import AgentDemo.Environment

/-! `ModelGateway.stream_reply`: the server-sent event parser, the chunk interpreter and the
retry loop around them. -/
namespace AgentDemo

def maxSseEventChars : ℕ := 1000000

def retryableStatusCodes : List ℕ := [408, 429, 500, 502, 503, 504]

/-- What `httpx` or the total deadline raises. `otherTransport` is a `TransportError` outside the
three retried classes, `outside` any exception that is no `TransportError`. -/
inductive HttpxFailure where
  | timeout
  | network
  | remoteProtocol
  | otherTransport
  | outside
  deriving DecidableEq, Repr

/-- How `stream_reply` can fail. -/
inductive StreamError where
  | missingApiKey
  | status (code : ℕ)
  | httpx (failure : HttpxFailure)
  | response (message : String)
  | recursion
  | deadline
  deriving DecidableEq, Repr

/-- What one request meets: no response at all, or a status and the lines that arrive until the
stream closes or breaks. -/
inductive Attempt where
  | refused (failure : HttpxFailure)
  | answered (status : ℕ) (lines : List String) (broken : Option HttpxFailure)

/-- The provider over the attempts of one call. `deadlineInBackoff` says after which attempt the
total deadline passes while the gateway sleeps. -/
structure Provider where
  attempt : ℕ → Attempt
  deadlineInBackoff : ℕ → Bool

structure GatewaySettings where
  llmProvider : String
  llmApiKey : String
  deepseekApiKey : String
  llmApiKeyRequired : Bool
  llmMaxRetries : ℕ

/-- `json.loads`: a value, or one of its two kinds of exception. -/
inductive Loaded where
  | value (v : Json)
  | invalid
  | tooDeep

/-- What the caller of `stream_reply` and the provider see. -/
inductive GatewayEvent where
  | request (attempt : ℕ)
  | token (attempt : ℕ) (text : String)
  deriving DecidableEq, Repr

structure StreamReply where
  events : List GatewayEvent
  result : Except StreamError Unit

/-- The value of a `data` line. -/
def dataValue (line : String) : Option String :=
  if line.toList.take 5 = "data:".toList ∨ line = "data" then
    match (line.toList.dropWhile (· ≠ ':')).drop 1 with
    | ' ' :: rest => some (String.ofList rest)
    | rest => some (String.ofList rest)
  else none

/-- The locals of `_sse_data`. -/
structure SseState where
  parts : List String := []
  size : ℕ := 0

/-- One line of `_sse_data`: the next state and the event that is dispatched, if any. -/
def sseLine (s : SseState) (line : String) : Except StreamError (SseState × Option String) :=
  if line = "" then
    if s.parts = [] then .ok (s, none)
    else .ok ({}, some ("\n".intercalate s.parts))
  else
    match dataValue line with
    | none => .ok (s, none)
    | some value =>
      if s.size + (value.length + 1) > maxSseEventChars then
        .error (.response "Model stream event exceeds the size limit")
      else .ok ({ parts := s.parts ++ [value], size := s.size + (value.length + 1) }, none)

def parseObject (loads : String → Loaded) (data : String) : Except StreamError JsonObject :=
  match loads data with
  | .invalid => .error (.response "Model provider returned invalid JSON")
  | .tooDeep => .error .recursion
  | .value (.obj parsed) =>
    match JsonObject.get? parsed "error" with
    | none | some .null => .ok parsed
    | some _ => .error (.response "Model provider returned an error response")
  | .value _ => .error (.response "Model provider returned an invalid response object")

/-- The check of `finish_reason`: whether the chunk is the last one. -/
def chunkFinished (choice : JsonObject) : Except StreamError Bool :=
  match choice.get? "finish_reason" with
  | none | some .null => .ok false
  | some (.str "stop") => .ok true
  | some (.str "length") =>
    .error (.response "Model output reached its token limit before completion")
  | some _ =>
    .error (.response "Model provider did not complete the requested text response")

def streamDelta (chunk : JsonObject) : Except StreamError (String × Bool) :=
  match chunk.get? "choices" with
  | some (.arr []) => .ok ("", false)
  | some (.arr (.obj choice :: _)) =>
    match JsonObject.getOr choice "delta" (.obj []) with
    | .obj delta =>
      match JsonObject.get? delta "content" with
      | none | some .null => (chunkFinished choice).map fun last => ("", last)
      | some (.str content) => (chunkFinished choice).map fun last => (content, last)
      | some _ => .error (.response "Model provider returned non-text response content")
    | _ => .error (.response "Model provider returned an invalid stream delta")
  | _ => .error (.response "Model provider returned invalid stream choices")

/-- What the body of the event loop does with one event: a token and whether to return. -/
def handleEvent (loads : String → Loaded) (data : String) : Except StreamError (String × Bool) :=
  if data = "[DONE]" then .ok ("", true)
  else
    match parseObject loads data with
    | .error e => .error e
    | .ok chunk => streamDelta chunk

/-- The tokens one attempt yields and how it ends. -/
structure Reading where
  tokens : List String
  result : Except StreamError Unit

def Reading.yield (token : String) (r : Reading) : Reading :=
  if token = "" then r else { r with tokens := token :: r.tokens }

def readLines (loads : String → Loaded) (broken : Option HttpxFailure) :
    SseState → List String → Reading
  | _, [] =>
    match broken with
    | some failure => ⟨[], .error (.httpx failure)⟩
    | none => ⟨[], .error (.response "Model stream ended before a completion marker")⟩
  | s, line :: lines =>
    match sseLine s line with
    | .error e => ⟨[], .error e⟩
    | .ok (s', none) => readLines loads broken s' lines
    | .ok (s', some data) =>
      match handleEvent loads data with
      | .error e => ⟨[], .error e⟩
      | .ok (token, true) => Reading.yield token ⟨[], .ok ()⟩
      | .ok (token, false) => (readLines loads broken s' lines).yield token

/-- One pass through the body of the retry loop, up to its `except`. -/
def Attempt.read (loads : String → Loaded) : Attempt → Reading
  | .refused failure => ⟨[], .error (.httpx failure)⟩
  | .answered status lines broken =>
    if 200 ≤ status ∧ status < 300 then readLines loads broken {} lines
    else ⟨[], .error (.status status)⟩

/-- `except (httpx.TransportError, httpx.HTTPStatusError)`. -/
def StreamError.caught : StreamError → Bool
  | .status _ => true
  | .httpx failure => failure ≠ .outside
  | _ => false

def shouldRetry (s : GatewaySettings) (e : StreamError) (attempt : ℕ) : Bool :=
  if attempt ≥ s.llmMaxRetries then false
  else
    match e with
    | .status code => retryableStatusCodes.contains code
    | .httpx failure => failure = .timeout || failure = .network || failure = .remoteProtocol
    | _ => false

/-- The retry loop from `attempt` on, with `left` rounds of its range to go. A loop that runs out
returns normally. -/
def attemptLoop (loads : String → Loaded) (s : GatewaySettings) (p : Provider) :
    (left attempt : ℕ) → (emitted : Bool) → StreamReply
  | 0, _, _ => ⟨[], .ok ()⟩
  | left + 1, attempt, emitted =>
    let reading := (p.attempt attempt).read loads
    let events := .request attempt :: reading.tokens.map (.token attempt)
    match reading.result with
    | .ok () => ⟨events, .ok ()⟩
    | .error e =>
      let emitted := emitted || !reading.tokens.isEmpty
      if e.caught = false ∨ emitted ∨ shouldRetry s e attempt = false then ⟨events, .error e⟩
      else if p.deadlineInBackoff attempt then ⟨events, .error .deadline⟩
      else
        let rest := attemptLoop loads s p left (attempt + 1) emitted
        ⟨events ++ rest.events, rest.result⟩

def streamReply (loads : String → Loaded) (s : GatewaySettings) (p : Provider) : StreamReply :=
  let apiKey := if s.llmApiKey = "" ∧ s.llmProvider = "deepseek" then s.deepseekApiKey
    else s.llmApiKey
  if apiKey = "" ∧ s.llmApiKeyRequired then ⟨[], .error .missingApiKey⟩
  else attemptLoop loads s p (s.llmMaxRetries + 1) 0 false

end AgentDemo
