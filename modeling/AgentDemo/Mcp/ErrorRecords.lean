import AgentDemo.Library.Redaction
import AgentDemo.Library.Scanning
import AgentDemo.Values

/-! `_record_error`: what the state of an MCP server shows of an exception and of the secrets that
its configuration refers to. -/
namespace AgentDemo

open Redaction Scanning

/-- What `_record_error` reads of a configured server. -/
structure McpServerConfig where
  name : List Char
  headers : List (List Char × List Char)
  env : List (List Char × List Char)

/-- The variables of the process. -/
abbrev Environ := List Char → Option (List Char)

/-- Which of its branches an exception takes. -/
inductive ErrorKind where
  | httpStatus (statusCode : ℤ)
  | timeout
  | mcp (code : ℤ)
  | validation
  | transport
  | other

structure LeafError where
  kind : ErrorKind
  typeName : List Char
  message : List Char

/-- An exception, or a group, of which only the first member is looked at. -/
inductive RaisedError where
  | leaf (error : LeafError)
  | group (first : RaisedError)

def RaisedError.unwrap : RaisedError → LeafError
  | .leaf error => error
  | .group first => first.unwrap

/-- The diagnostic fields of a server's state. -/
structure ServerState where
  status : String
  error : Option (List Char)
  lastCheckedAt : Option String
  deriving DecidableEq

/-! `\$\x7b([A-Za-z_][A-Za-z0-9_]*)\x7d` -/

def startsVariable (c : Char) : Bool := c.isAlpha || c = '_'

def continuesVariable (c : Char) : Bool := c.isAlphanum || c = '_'

def variableAt : List Char → Option (List Char)
  | '$' :: '\x7b' :: c :: rest =>
    if startsVariable c && (rest.dropWhile continuesVariable).head? = some '\x7d' then
      some (c :: rest.takeWhile continuesVariable)
    else none
  | _ => none

/-- A character of a configured value, or a reference in it. -/
inductive ValuePiece where
  | char (c : Char)
  | reference (name : List Char)

/-- The pieces of a value; `skip` characters belong to the last reference. -/
def piecesFrom : ℕ → List Char → List ValuePiece
  | _, [] => []
  | skip + 1, _ :: rest => piecesFrom skip rest
  | 0, c :: rest =>
    match variableAt (c :: rest) with
    | some name => .reference name :: piecesFrom (name.length + 2) rest
    | none => .char c :: piecesFrom 0 rest

def ValuePiece.name? : ValuePiece → Option (List Char)
  | .char _ => none
  | .reference name => some name

/-- `re.findall`. -/
def variableNames (value : List Char) : List (List Char) :=
  (piecesFrom 0 value).filterMap ValuePiece.name?

def expandPieces (environ : Environ) : List ValuePiece → Option (List Char)
  | [] => some []
  | .char c :: rest => (expandPieces environ rest).map (c :: ·)
  | .reference name :: rest =>
    match environ name with
    | none | some [] => none
    | some value => (expandPieces environ rest).map (value ++ ·)

/-- `_expand`, unless it raises for a variable that is missing or empty. -/
def expand (environ : Environ) (value : List Char) : Option (List Char) :=
  expandPieces environ (piecesFrom 0 value)

/-! The diagnostic. -/

def safePrefixes : List (List Char) :=
  ["MCP ".toList, "No MCP ".toList, "Missing MCP ".toList, "HTTP ".toList,
    "Unsupported legacy MCP".toList, "Invalid or oversized MCP".toList, "Invalid MCP".toList]

def LeafError.shown (error : LeafError) : Bool :=
  match error.kind with
  | .other => safePrefixes.any (·.isPrefixOf error.message)
  | _ => false

/-- The diagnostic of an exception whose message is not shown. -/
def LeafError.fixedDetail (error : LeafError) : List Char :=
  match error.kind with
  | .httpStatus statusCode =>
    "HTTP ".toList ++ (toString statusCode).toList ++
      "; check server access and configured credentials".toList
  | .timeout => "operation timed out".toList
  | .mcp code => "JSON-RPC error ".toList ++ (toString code).toList
  | .validation => "server response failed protocol validation".toList
  | .transport => "transport unavailable (".toList ++ error.typeName ++ ")".toList
  | .other => "protocol operation failed (".toList ++ error.typeName ++ ")".toList

def LeafError.detail (error : LeafError) : List Char :=
  if error.shown then error.message.take 240 else error.fixedDetail

def redacted : List Char := "[redacted]".toList

/-- `detail.replace(text, "[redacted]")` for a text that is there and not empty. -/
def redactText (detail : List Char) : Option (List Char) → List Char
  | none | some [] => detail
  | some text => replace text redacted detail

/-- The body of the loop over the values of the headers and of the environment. -/
def redactValue (environ : Environ) (detail value : List Char) : List Char :=
  let detail := (variableNames value).foldl (fun detail name => redactText detail (environ name))
    detail
  redactText detail (expand environ value)

def McpServerConfig.values (server : McpServerConfig) : List (List Char) :=
  server.headers.map Prod.snd ++ server.env.map Prod.snd

/-- `https?://\S+` -/
def endpoint : Scanner Char :=
  ((((Scanner.word (fun a b => a = b) "http".toList).next (Scanner.optional (· = 's'))).next
    (Scanner.word (fun a b => a = b) "://".toList)).next (Scanner.one fun c => !isSpace c)).next
    (Scanner.many fun c => !isSpace c)

/-- The text with every endpoint masked; `skip` characters belong to the last one. -/
def maskEndpoints : ℕ → List Char → List Char
  | _, [] => []
  | skip + 1, _ :: rest => maskEndpoints skip rest
  | 0, c :: rest =>
    match endpoint (c :: rest) with
    | some after => "[endpoint]".toList ++ maskEndpoints (rest.length - after.length) rest
    | none => c :: maskEndpoints 0 rest

def diagnostic (environ : Environ) (server : McpServerConfig) (error : RaisedError) : List Char :=
  maskEndpoints 0 (server.values.foldl (redactValue environ) error.unwrap.detail)

def recordError (environ : Environ) (now : String) (server : McpServerConfig) (error : RaisedError)
    (state : ServerState) : ServerState :=
  { state with
    status := "error"
    error := some ("MCP server ".toList ++ server.name ++ ": ".toList ++
      diagnostic environ server error)
    lastCheckedAt := some now }

end AgentDemo
