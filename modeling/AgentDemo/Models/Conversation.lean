import AgentDemo.Library.Table
import AgentDemo.Models.Tool

/-! The `conversations` and `messages` tables, with the approvals that messages carry. -/
namespace AgentDemo

structure Conversation where
  id : UUID
  userId : Option UUID
  title : String

instance : Keyed Conversation UUID := ⟨Conversation.id⟩

@[simp] theorem key_conversation (c : Conversation) : Keyed.key c = c.id := rfl

inductive MessageRole where
  | user
  | assistant
  deriving DecidableEq, Repr

/-- `metadata["approval"]`. The expiry is stored as ISO text, which `fromisoformat` reads back. -/
structure Approval where
  status : ApprovalStatus
  expiresAt : Instant
  toolName : String
  arguments : JsonObject
  message : String
  reason : String
  taskType : String
  updatedAt : Option Instant
  error : Option String

/-- `metadata["continuation"]`: what a resumed run starts from. -/
structure Continuation where
  citations : List Json
  mcpResources : List Json
  mcpPrompts : List Json
  observations : List String
  toolCalls : List ToolCallRecord
  searchFetchTargets : List SearchTarget

structure MessageMetadata where
  agentTaskId : Option UUID
  toolCalls : List ToolCallRecord
  traceId : Option String
  citations : List Json
  modelRoute : Option ModelRoute
  resolvesApprovalId : Option UUID
  approval : Option Approval
  continuation : Option Continuation

/-- The metadata of a message that records nothing: `{}`. -/
def MessageMetadata.empty : MessageMetadata :=
  { agentTaskId := none, toolCalls := [], traceId := none, citations := [], modelRoute := none,
    resolvesApprovalId := none, approval := none, continuation := none }

structure Message where
  id : UUID
  conversationId : UUID
  role : MessageRole
  content : String
  modelName : Option String
  createdAt : Instant
  metadata : MessageMetadata

instance : Keyed Message UUID := ⟨Message.id⟩

@[simp] theorem key_message (m : Message) : Keyed.key m = m.id := rfl

end AgentDemo
