import AgentDemo.Values

/-! Tool manifests, registered tools and the records of their calls. -/
namespace AgentDemo

inductive ToolProvider where
  | localPlugin
  | mcpServer
  deriving DecidableEq, Repr

def ToolProvider.text : ToolProvider → String
  | .localPlugin => "local_plugin"
  | .mcpServer => "mcp_server"

/-- The part of `PluginManifest` that planning and execution read. -/
structure PluginManifest where
  name : String
  description : String
  permission : String
  requiresConfirmation : Bool
  parameters : JsonObject
  enabled : Bool

structure RegisteredTool where
  manifest : PluginManifest
  provider : ToolProvider
  providerToolId : Option String
  serverName : Option String

inductive ToolStatus where
  | success
  | failed
  | timeout
  | interrupted
  deriving DecidableEq, Repr

def ToolStatus.text : ToolStatus → String
  | .success => "success"
  | .failed => "failed"
  | .timeout => "timeout"
  | .interrupted => "interrupted"

structure ToolRunResponse where
  toolName : String
  provider : ToolProvider
  providerToolId : Option String
  serverName : Option String
  status : ToolStatus
  output : Json
  outputSummary : Option String
  error : Option String
  durationMs : ℕ
  traceId : String

structure SearchTarget where
  url : String
  title : String
  snippet : String
  deriving DecidableEq, Repr

inductive ApprovalStatus where
  | pending
  | approved
  | cancelled
  | expired
  | completed
  | interrupted
  deriving DecidableEq, Repr

/-- An entry of `tool_calls`. The last four fields are there once an approval blocks the call. -/
structure ToolCallRecord where
  toolName : String
  provider : ToolProvider
  providerToolId : Option String
  serverName : Option String
  arguments : JsonObject
  reason : String
  requiresConfirmation : Bool
  searchEnrichment : Bool
  searchTarget : Option SearchTarget
  result : ToolRunResponse
  approvalId : Option UUID
  approvalStatus : Option ApprovalStatus
  approvalExpiresAt : Option Instant
  approvalError : Option String

structure AgentToolPlan where
  noTool : Bool
  toolName : Option String
  provider : ToolProvider
  providerToolId : Option String
  serverName : Option String
  arguments : JsonObject
  reason : String
  requiresConfirmation : Bool

/-- `AgentToolPlan(no_tool=True, reason=...)`. -/
def AgentToolPlan.none (reason : String) : AgentToolPlan :=
  { noTool := true, toolName := Option.none, provider := .localPlugin,
    providerToolId := Option.none, serverName := Option.none, arguments := [],
    reason := reason, requiresConfirmation := false }

structure ModelRoute where
  modelName : String
  provider : String
  reason : String
  deriving DecidableEq, Repr

end AgentDemo
