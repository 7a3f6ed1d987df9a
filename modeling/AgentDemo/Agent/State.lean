import AgentDemo.Models.Conversation

/-! The state that one run of the agent graph carries from node to node. -/
namespace AgentDemo

/-- `AgentGraphState`, and the `AgentExecutionState` that a node copies out of it and back. -/
structure AgentGraphState where
  userId : Option UUID
  taskId : Option UUID
  conversationId : Option UUID
  message : String
  taskType : String
  citations : List Json
  mcpResources : List Json
  mcpPrompts : List Json
  plan : AgentToolPlan
  toolCalls : List ToolCallRecord
  observations : List String
  searchFetchTargets : List SearchTarget
  confirmedSearchTarget : Option SearchTarget
  finalAnswer : String
  approvalId : Option UUID
  traceId : String
  route : Option ModelRoute
  toolRounds : ℕ
  maxToolRounds : ℕ
  saveUserMessage : Bool
  confirmedToolName : Option String
  confirmedArguments : JsonObject
  confirmedReason : String

/-- The confirmed tool name where it counts as true. -/
def AgentGraphState.confirmedTool (state : AgentGraphState) : Option String :=
  state.confirmedToolName.filter fun name => name ≠ ""

end AgentDemo
