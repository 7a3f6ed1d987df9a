import AgentDemo.Library.Program
import AgentDemo.Mcp.Registry

/-! The points at which a run of the agent graph waits for its surroundings. -/
namespace AgentDemo

/-- The nodes of `build_agent_graph`. -/
inductive GraphNode where
  | ensureConversation
  | loadContext
  | saveUserMessage
  | preflightConfirmableTool
  | retrieveContext
  | plan
  | executeTool
  | awaitConfirmation
  | generateAnswer
  | saveAssistantMessage
  | updateMemorySummary
  deriving DecidableEq, Repr

/-- The trace id and the duration in the response of a tool call. -/
structure CallStamp where
  traceId : String
  durationMs : ℕ

/-- What becomes of a call behind the confirmation gate of `ToolExecutor.run`: the validation of
its arguments, the lease check, the tool itself and the limits on its output. -/
structure ToolOutcome where
  status : ToolStatus
  output : Json
  error : Option String

structure RetrievedContext where
  citations : List Json
  mcpResources : List Json
  mcpPrompts : List Json

/-- A run reads the registry without waiting; at every other request it awaits something. -/
inductive Request where
  | registryGet (name : String)
  | listTools
  | superstep (node : GraphNode) (state : AgentGraphState)
  | ensureConversation (state : AgentGraphState)
  | loadContext (state : AgentGraphState)
  | saveUserMessage (state : AgentGraphState)
  | retrieveContext (state : AgentGraphState)
  | webSearchQuery (message : String)
  | call (tool : RegisteredTool) (arguments : JsonObject) (confirmed : Bool)
  | dispatch (tool : RegisteredTool) (arguments : JsonObject) (confirmed : Bool)
  | createApproval (state : AgentGraphState)
  | generate (state : AgentGraphState)
  | saveAssistantMessage (state : AgentGraphState)
  | updateMemorySummary (state : AgentGraphState)
  | done (state : AgentGraphState)
  | error (detail : String)

/-- A saved approval is answered with its id and the instant of `create`. -/
@[reducible] def Request.Answer : Request → Type
  | .registryGet _ => Option RegisteredTool
  | .listTools => List RegisteredTool
  | .ensureConversation _ => UUID
  | .retrieveContext _ => RetrievedContext
  | .webSearchQuery _ => String
  | .call _ _ _ => CallStamp
  | .dispatch _ _ _ => ToolOutcome
  | .createApproval _ => UUID × Instant
  | .generate _ => String
  | _ => Unit

abbrev AgentProgram := Program Request Request.Answer

def registryGet (name : String) : AgentProgram (Option RegisteredTool) :=
  Program.request (Request.registryGet name)

def listTools : AgentProgram (List RegisteredTool) :=
  Program.request Request.listTools

def superstep (node : GraphNode) (state : AgentGraphState) : AgentProgram Unit :=
  Program.request (Request.superstep node state)

/-- The requests that the registry answers at once. -/
def UnifiedToolRegistry.look (registry : UnifiedToolRegistry) :
    (q : Request) → Option q.Answer
  | .registryGet name => some (registry.get name)
  | .listTools => some registry.listTools
  | _ => none

end AgentDemo
