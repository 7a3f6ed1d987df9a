import AgentDemo.Library.PairSplit
import AgentDemo.Services.Chunking

/-! The event stream as the client reads it: `readEventStream`, `parseSseChunk` and
`toStreamEvent` of `api.ts`. Texts are lists of code points. -/
namespace AgentDemo.Frontend

open PairSplit

/-- What `trim` and `trimStart` remove. -/
def isWhiteSpace (c : Char) : Bool :=
  let n := c.toNat
  (9 ≤ n && n ≤ 13) || n = 0x20 || n = 0xa0 || n = 0x1680 || (0x2000 ≤ n && n ≤ 0x200a) ||
    n = 0x2028 || n = 0x2029 || n = 0x202f || n = 0x205f || n = 0x3000 || n = 0xfeff

def trimStart (text : List Char) : List Char := text.dropWhile isWhiteSpace

def trim (text : List Char) : List Char := ((trimStart text).reverse.dropWhile isWhiteSpace).reverse

/-- `Boolean(value)`; a missing property is `undefined`. -/
def truthy : Option Json → Bool
  | none | some .null => false
  | some (.bool b) => b
  | some (.num q) => q ≠ 0
  | some (.str s) => s ≠ ""
  | some (.arr _) | some (.obj _) => true

/-- `stringOrNull` and `stringOrUndefined`; `none` is `null` or `undefined`. -/
def stringOr : Option Json → Option String
  | some (.str s) => some s
  | _ => none

def recordOrEmpty : Option Json → JsonObject
  | some (.obj fields) => fields
  | _ => []

def arrayOr : Option Json → Option (List Json)
  | some (.arr items) => some items
  | _ => none

structure PlanData where
  noTool : Bool
  toolName : Option String
  provider : Option String
  providerToolId : Option String
  serverName : Option String
  arguments : JsonObject
  reason : String
  requiresConfirmation : Bool

structure DoneData where
  conversationId : String
  citations : List Json
  toolCalls : Option (List Json)
  mcpResources : Option (List Json)
  mcpPrompts : Option (List Json)
  traceId : Option String
  modelRoute : Option JsonObject

inductive StreamEvent where
  | status (label : String) (model : Option String)
  | token (text : String)
  | plan (data : PlanData)
  | toolCall (data : JsonObject)
  | toolResult (data : JsonObject)
  | error (message : String) (traceId : Option String)
  | done (data : DoneData)

def StreamEvent.isTerminal : StreamEvent → Bool
  | .done _ | .error _ _ => true
  | _ => false

def isToolCallData (data : JsonObject) : Bool :=
  (stringOr (data.get? "tool_name")).isSome &&
    match data.get? "arguments" with
    | some (.obj _) => true
    | _ => false

def isToolResultData (data : JsonObject) : Bool :=
  (stringOr (data.get? "tool_name")).isSome && (stringOr (data.get? "status")).isSome &&
    match data.get? "duration_ms" with
    | some (.num _) => true
    | _ => false

/-- `toStreamEvent` on a record. -/
def recordToStreamEvent (eventName : String) (data : JsonObject) : List StreamEvent :=
  match eventName with
  | "status" =>
    match stringOr (data.get? "label") with
    | some label => [.status label (stringOr (data.get? "model"))]
    | none => []
  | "token" =>
    match stringOr (data.get? "text") with
    | some text => [.token text]
    | none => []
  | "plan" =>
    [.plan
      { noTool := truthy (data.get? "no_tool")
        toolName := stringOr (data.get? "tool_name")
        provider := stringOr (data.get? "provider")
        providerToolId := stringOr (data.get? "provider_tool_id")
        serverName := stringOr (data.get? "server_name")
        arguments := recordOrEmpty (data.get? "arguments")
        reason := (stringOr (data.get? "reason")).getD ""
        requiresConfirmation := truthy (data.get? "requires_confirmation") }]
  | "tool_call" => if isToolCallData data then [.toolCall data] else []
  | "tool_result" => if isToolResultData data then [.toolResult data] else []
  | "error" =>
    [.error ((stringOr (data.get? "message")).getD "Agent runtime error")
      (stringOr (data.get? "trace_id"))]
  | "done" =>
    match stringOr (data.get? "conversation_id") with
    | some conversationId =>
      [.done
        { conversationId
          citations := (arrayOr (data.get? "citations")).getD []
          toolCalls := arrayOr (data.get? "tool_calls")
          mcpResources := arrayOr (data.get? "mcp_resources")
          mcpPrompts := arrayOr (data.get? "mcp_prompts")
          traceId := stringOr (data.get? "trace_id")
          modelRoute := match data.get? "model_route" with
            | some (.obj fields) => some fields
            | _ => none }]
    | none => []
  | _ => []

/-- `toStreamEvent`; every branch asks for a record. -/
def toStreamEvent (eventName : String) : Json → List StreamEvent
  | .obj data => recordToStreamEvent eventName data
  | _ => []

structure SseLines where
  eventName : List Char
  dataLines : List (List Char)

def eventField : List Char := "event:".toList

def dataField : List Char := "data:".toList

def SseLines.next (s : SseLines) (line : List Char) : SseLines where
  eventName :=
    if eventField.isPrefixOf line then trim (line.drop eventField.length) else s.eventName
  dataLines :=
    if dataField.isPrefixOf line then s.dataLines ++ [trimStart (line.drop dataField.length)]
    else s.dataLines

/-- `parseSseChunk`; `parse` is `JSON.parse`, and `none` its exception. -/
def parseSseChunk (parse : List Char → Option Json) (chunk : List Char) : List StreamEvent :=
  let s := (chunk.splitOn '\n').foldl SseLines.next ⟨"message".toList, []⟩
  if s.dataLines = [] then []
  else
    match parse (['\n'].intercalate s.dataLines) with
    | some data => toStreamEvent (String.ofList s.eventName) data
    | none => []

/-- A `TextDecoder`: `decode` with `stream` set, and `finish` for the last call without it. -/
structure TextDecoder (σ : Type) where
  initial : σ
  decode : σ → List UInt8 → List Char × σ
  finish : σ → List Char

variable {σ : Type}

/-- The texts of the calls of a decoder, the last one apart. -/
def TextDecoder.texts (decoder : TextDecoder σ) :
    σ → List (List UInt8) → List (List Char) × List Char
  | state, [] => ([], decoder.finish state)
  | state, value :: rest =>
    let (text, state) := decoder.decode state value
    let (texts, last) := decoder.texts state rest
    (text :: texts, last)

def TextDecoder.text (decoder : TextDecoder σ) (reads : List (List UInt8)) : List Char :=
  let (texts, last) := decoder.texts decoder.initial reads
  texts.flatten ++ last

/-- The decoder decodes the concatenation of what it is given. -/
def TextDecoder.Streaming (decoder : TextDecoder σ) : Prop :=
  ∀ reads, decoder.text reads = decoder.text [reads.flatten]

/-- The variables of `readEventStream`, with the events handed to `onEvent`. -/
structure Reader where
  buffer : List Char
  terminalEvent : Bool
  delivered : List StreamEvent

def Reader.round (parse : List Char → Option Json) (s : Reader) (text : List Char) (done : Bool) :
    Reader :=
  let normalized := joinCrLf (s.buffer ++ text)
  let chunks := splitPair '\n' normalized
  let events := (if done then chunks else chunks.dropLast).flatMap (parseSseChunk parse)
  { buffer := if done then [] else chunks.getLastD []
    terminalEvent := s.terminalEvent || events.any StreamEvent.isTerminal
    delivered := s.delivered ++ events }

def Reader.loop (decoder : TextDecoder σ) (parse : List Char → Option Json) :
    σ → Reader → List (List UInt8) → Reader
  | state, s, [] => s.round parse (decoder.finish state) true
  | state, s, value :: rest =>
    let (text, state) := decoder.decode state value
    Reader.loop decoder parse state (s.round parse text false) rest

/-- How `readEventStream` ends. -/
inductive StreamEnd where
  | resolved
  | rejected (message : String)
  deriving DecidableEq

/-- `readEventStream` on a body that arrives in `reads`. -/
def readEventStream (decoder : TextDecoder σ) (parse : List Char → Option Json)
    (reads : List (List UInt8)) : List StreamEvent × StreamEnd :=
  let s := Reader.loop decoder parse decoder.initial ⟨[], false, []⟩ reads
  (s.delivered, if s.terminalEvent then .resolved
    else .rejected "Connection ended before completion. Check this conversation before retrying.")

end AgentDemo.Frontend
