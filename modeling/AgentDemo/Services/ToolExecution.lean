import AgentDemo.Core.McpSecurity
import AgentDemo.Services.ArgumentValidation
import AgentDemo.Services.OutputTruncation
import AgentDemo.Services.ToolExecutor
import AgentDemo.Services.ToolRun

/-! `ToolExecutor.run` with what it does to its surroundings: gates, replay barrier, dispatch,
limits on the output and audit rows. -/
namespace AgentDemo
open JsonSchema PythonNet

/-- A registered tool with what its execution reads besides. -/
structure ExecutableTool where
  tool : RegisteredTool
  parameters : ParameterSchema
  policyMaxChars : Option ℤ
  hasClient : Bool
  hasHandler : Bool

inductive McpAccessPolicy where
  | localOnly
  | authenticated
  | disabled
  | adminOnly
  deriving DecidableEq, Repr

structure McpIdentity where
  userId : Option UUID
  serviceId : Option String
  isAdmin : Bool

def McpIdentity.isBound (identity : McpIdentity) : Bool :=
  identity.userId.isSome || identity.serviceId.any fun s => s ≠ ""

/-- How Python reads values of tools: `json.dumps` with the text of the value as the way out, `str`
and truth, and `_summarize` of arguments. An exception is `none`. -/
structure PyReader where
  dumps : PyValue → Option String
  text : PyValue → Option String
  truthy : PyValue → Bool
  inputSummary : Arguments → Option String
  urlText : Option Value → String
  urlError : String → String

structure ExecutorConfig where
  maxToolOutputChars : ℤ
  mcpAccessPolicy : McpAccessPolicy
  mcpRequireConfirmationByDefault : Bool
  reader : TextReader
  unicode : UnicodeTables
  arguments : ArgumentReader
  validator : SchemaValidator
  values : PyReader

/-- The parameters of `run`. -/
structure ExecutorCall where
  arguments : Arguments
  confirmed : Bool
  session : Bool
  userId : Option UUID
  conversationId : Option UUID
  taskId : Option UUID
  identity : Option McpIdentity

/-- How the awaited part of a call ends. An exception is known by its text, which is `none` where
`str` raises; `exited` is an exception that is no `Exception`. -/
inductive CallOutcome where
  | returned (value : PyValue)
  | raisedHttp (detail : Option String)
  | raised (text : Option String)
  | timedOut
  | cancelled
  | exited

inductive Interruption where
  | timedOut
  | cancelled

/-- What a run meets, in the order in which it looks: the task rows for the started event, for the
lease check and for the finished event with the clock, interruptions, and what the tool does. -/
structure CallSurroundings where
  traceId : String
  durationMs : ℕ
  currentTaskLease : Option TaskLease
  startedTasks : Table Task
  startedAt : Instant
  tasks : Table Task
  leaseAt : Instant
  blockedAt : Instant
  leaseCancelled : Bool
  interruption : Option Interruption
  outcome : CallOutcome
  auditTasks : Table Task
  auditAt : Instant

/-- A row of `tool_calls`. -/
structure ToolCall where
  userId : Option UUID
  conversationId : Option UUID
  taskId : Option UUID
  toolName : String
  provider : ToolProvider
  status : ToolStatus
  input : Arguments
  inputSummary : Option String
  outputSummary : Option String
  error : Option String
  durationMs : ℕ
  traceId : String

structure ExecutorResponse where
  toolName : String
  provider : ToolProvider
  providerToolId : Option String
  serverName : Option String
  status : ToolStatus
  output : PyValue
  outputSummary : Option String
  error : Option String
  durationMs : ℕ
  traceId : String

/-- What a run does to its surroundings; the rows are committed. -/
inductive ExecutorEffect where
  | taskEvent (task : Task)
  | barrier (task : Task)
  | invoke (arguments : Arguments)
  | audit (row : ToolCall) (task : Option Task)

inductive ExecutorResult where
  | returned (response : ExecutorResponse)
  | cancelled
  | raised

abbrev ExecutorTrace := List ExecutorEffect × ExecutorResult

section run

variable (config : ExecutorConfig) (tool : ExecutableTool) (call : ExecutorCall)
  (s : CallSurroundings)

/-- `authorize_mcp_access` of a local call. -/
def authorizeMcpAccess (policy : McpAccessPolicy) (identity : McpIdentity) :
    Except HttpException Unit :=
  match policy with
  | .disabled => .error ⟨403, "MCP access is disabled"⟩
  | .localOnly => .ok ()
  | .authenticated =>
    if identity.isBound then .ok () else .error ⟨401, "MCP identity is required"⟩
  | .adminOnly =>
    if identity.isAdmin then .ok () else .error ⟨403, "MCP admin access is required"⟩

def enforceMcpToolPolicy : Except HttpException Unit := do
  authorizeMcpAccess config.mcpAccessPolicy (call.identity.getD ⟨none, none, false⟩)
  let permission := normalizeMcpPermission config.reader tool.tool.manifest.permission
  let confirmation :=
    tool.tool.manifest.requiresConfirmation || requiresMcpConfirmation permission ||
    (config.mcpRequireConfirmationByDefault && decide (permission ≠ "read"))
  if confirmation && !call.confirmed then
    .error ⟨409, "MCP tool requires confirmation before execution"⟩

/-- The tool is `fetch` of the server `fetch`. -/
def ExecutableTool.isFetch : Bool :=
  tool.tool.provider = .mcpServer && tool.tool.serverName = some "fetch" &&
    tool.tool.providerToolId = some "fetch"

/-- The URL that the guard is given. -/
def fetchArgument : String :=
  config.values.urlText ((call.arguments.find? (·.1 = "url")).map (·.2))

/-- What `_dispatch_tool` checks before it calls the client or the handler. -/
def dispatchChecks : Except CallOutcome Unit :=
  match tool.tool.provider with
  | .mcpServer =>
    if !tool.hasClient || tool.tool.serverName.isNone || tool.tool.providerToolId.isNone then
      .error (.raised (some "MCP tool is missing client metadata"))
    else
      match if tool.isFetch then validateMcpFetchUrl config.unicode (fetchArgument config call)
        else .ok () with
      | .error (.http e) => .error (.raisedHttp (some e.detail))
      | .error .valueError =>
        .error (.raised (some (config.values.urlError (fetchArgument config call))))
      | .ok () =>
        match enforceMcpToolPolicy config tool call with
        | .error e => .error (.raisedHttp (some e.detail))
        | .ok () => .ok ()
  | .localPlugin =>
    if tool.hasHandler then .ok ()
    else .error (.raised (some "Local tool is missing a handler"))

/-- The awaited `_dispatch_tool`. -/
def dispatchTool : List ExecutorEffect × CallOutcome :=
  match s.interruption with
  | some .timedOut => ([], .timedOut)
  | some .cancelled => ([], .cancelled)
  | none =>
    match dispatchChecks config tool call with
    | .error outcome => ([], outcome)
    | .ok () => ([.invoke call.arguments], s.outcome)

/-- The `try` block: validation, lease check and dispatch. -/
def attemptTool : List ExecutorEffect × CallOutcome :=
  match validateArguments config.arguments config.validator tool.parameters call.arguments with
  | .error e => ([], .raisedHttp (some e.detail))
  | .ok () =>
    if !call.session || call.taskId.isNone then dispatchTool config tool call s
    else if s.leaseCancelled then ([], .cancelled)
    else
      match barrier s.tasks s.currentTaskLease call.taskId tool.tool s.leaseAt s.blockedAt with
      | .error _ => ([], .cancelled)
      | .ok none => dispatchTool config tool call s
      | .ok (some task) =>
        (.barrier task :: (dispatchTool config tool call s).1, (dispatchTool config tool call s).2)

/-- `_summarize`; the outer `none` is an exception. -/
def summarizeOutput : PyValue → Option (Option String)
  | .null => some none
  | .str text => some (some (sliceText (min config.maxToolOutputChars 500) text))
  | .dict fields =>
    match getField fields "content" with
    | some (.str text) => some (some (sliceText (min config.maxToolOutputChars 500) text))
    | _ => (config.values.dumps (.dict fields)).map fun text =>
        some (sliceText (min config.maxToolOutputChars 500) text)
  | output => (config.values.dumps output).map fun text =>
      some (sliceText (min config.maxToolOutputChars 500) text)

/-- The texts among the items of `raw["content"]`. -/
def contentParts (values : PyReader) : List PyValue → Option (List String)
  | [] => some []
  | .dict item :: rest =>
    match (getField item "text").filter values.truthy with
    | some text => (values.text text).bind fun text => (contentParts values rest).map (text :: ·)
    | none => contentParts values rest
  | _ :: rest => contentParts values rest

/-- `_mcp_error_text`; `none` is an exception. -/
def mcpErrorText (values : PyReader) (output : PyValue) : Option String :=
  let unknown := "MCP tool returned an error result"
  match output with
  | .dict fields =>
    let content := match getField fields "content" with
      | some (.str content) => content
      | _ => ""
    if content ≠ "" then some content
    else
      match getField fields "raw" with
      | some (.dict raw) =>
        match getField raw "content" with
        | some (.list items) => (contentParts values items).map fun parts =>
            if parts = [] then unknown else "\n".intercalate parts
        | _ => some unknown
      | _ => some unknown
  | _ => some unknown

/-- `_record_audit`; `none` is an exception. -/
def recordAudit (response : ExecutorResponse) : Option (List ExecutorEffect) :=
  if !call.session then some []
  else
    (config.values.inputSummary call.arguments).map fun inputSummary =>
      let row : ToolCall := {
        userId := call.userId, conversationId := call.conversationId, taskId := call.taskId
        toolName := tool.tool.manifest.name, provider := tool.tool.provider
        status := response.status, input := call.arguments, inputSummary := some inputSummary
        outputSummary := response.outputSummary, error := response.error
        durationMs := response.durationMs, traceId := response.traceId }
      let succeeded := decide (response.status = .success)
      [.audit row (recordMcpTaskEvent s.auditTasks s.currentTaskLease call.taskId
        (if succeeded then "mcp_tool_call_finished" else "mcp_tool_call_failed") tool.tool
        [("trace_id", .str response.traceId), ("status", .str response.status.text),
          ("error", .ofText response.error), ("duration_ms", .num response.durationMs)]
        (if succeeded then some 100 else none) s.auditAt)]

/-- `_response` for a status, an output and an error; `none` is an exception. -/
def executorResponse (status : ToolStatus) (output : PyValue) (error : Option String) :
    Option ExecutorResponse :=
  (summarizeOutput config output).map fun outputSummary => {
    toolName := tool.tool.manifest.name, provider := tool.tool.provider
    providerToolId := some (orText tool.tool.providerToolId tool.tool.manifest.name)
    serverName := tool.tool.serverName, status, output, outputSummary, error
    durationMs := s.durationMs, traceId := s.traceId }

def respond (status : ToolStatus) (output : PyValue) (error : Option String) : ExecutorTrace :=
  match executorResponse config tool s status output error with
  | none => ([], .raised)
  | some response =>
    match recordAudit config tool call s response with
    | none => ([], .raised)
    | some effects => (effects, .returned response)

/-- What `run` makes of the end of the `try` block. -/
def conclude : CallOutcome → ExecutorTrace
  | .returned value =>
    match limitOutput (outputLimit config.maxToolOutputChars tool.policyMaxChars) value with
    | none => ([], .raised)
    | some limited =>
      if isMcpErrorOutput value then
        match mcpErrorText config.values limited with
        | none => ([], .raised)
        | some text => respond config tool call s .failed limited (some text)
      else respond config tool call s .success limited none
  | .raisedHttp none | .raised none => ([], .raised)
  | .raisedHttp (some text) | .raised (some text) =>
    respond config tool call s .failed .null (some text)
  | .timedOut => respond config tool call s .timeout .null (some "Tool execution timed out")
  | .cancelled =>
    ((respond config tool call s .interrupted .null
      (some "Tool execution interrupted; outcome may be unknown")).1, .cancelled)
  | .exited => ([], .raised)

def startedEvent : List ExecutorEffect :=
  if call.session then
    (recordMcpTaskEvent s.startedTasks s.currentTaskLease call.taskId "mcp_tool_call_started"
      tool.tool [("trace_id", .str s.traceId)] (some 25) s.startedAt).toList.map .taskEvent
  else []

/-- `ToolExecutor.run`. -/
def executorRun : ExecutorTrace :=
  match refusal tool.tool call.confirmed with
  | some refused => respond config tool call s refused.status .null refused.error
  | none =>
    let attempt := attemptTool config tool call s
    let rest := conclude config tool call s attempt.2
    (startedEvent tool call s ++ attempt.1 ++ rest.1, rest.2)

end run

end AgentDemo
