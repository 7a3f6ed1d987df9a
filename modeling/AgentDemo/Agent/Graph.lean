import AgentDemo.Agent.Execution
import AgentDemo.Services.ToolApprovals

/-! The nodes and the two graphs of the agent, from the request of a client to the last event. -/
namespace AgentDemo

/-- How a run of the graph ends. -/
inductive GraphEnd where
  | answered (state : AgentGraphState)
  | paused (state : AgentGraphState)
  | reported (state : AgentGraphState)
  | failed (detail : String)

/-- `_route_after_execute_tool`: the last call waits for a confirmation. -/
def awaitsConfirmation (toolCalls : List ToolCallRecord) : Bool :=
  toolCalls.getLast?.any fun call => call.requiresConfirmation && call.result.status = .failed &&
    call.result.error = some confirmationError

section

variable (reader : TextReader) (settings : AgentSettings)

def confirmedPlan (tool : Option RegisteredTool) (name : String) (state : AgentGraphState) :
    AgentToolPlan :=
  { planForName tool name state.confirmedArguments state.confirmedReason with
    requiresConfirmation := false }

/-- The node `plan`. -/
def planNode (state : AgentGraphState) : AgentProgram AgentGraphState := do
  superstep .plan state
  match state.confirmedTool with
  | some name => do
    let tool ← registryGet name
    pure { state with plan := confirmedPlan tool name state }
  | none =>
    if state.maxToolRounds ≤ state.toolRounds then
      pure { state with plan := .none ("Stopped after the maximum of " ++
        toString state.maxToolRounds ++ " tool round(s).") }
    else do
      let plan ← planNextStep reader settings state
      pure { state with plan }

/-- The node `execute_tool`. -/
def executeToolNode (state : AgentGraphState) : AgentProgram AgentGraphState := do
  superstep .executeTool state
  let state ← maybeExecuteTool reader settings state
  pure { state with toolRounds := state.toolRounds + 1 }

/-- What `create` adds to the blocked call in the state of the run. -/
def withApproval (state : AgentGraphState) (approvalId : UUID) (now : Instant) : AgentGraphState :=
  match createApproval state (state.conversationId.getD 0) (state.route.getD ⟨"", "", ""⟩)
      settings.approvalTtlSeconds approvalId now now with
  | some (_, toolCalls) => { state with toolCalls }
  | none => state

/-- The node `await_confirmation`. A background task only reports the block. -/
def awaitConfirmation (state : AgentGraphState) : AgentProgram GraphEnd := do
  superstep .awaitConfirmation state
  if state.taskId.isSome then do
    let _ : Unit ← Program.request (Request.done state)
    pure (.reported state)
  else do
    let (approvalId, now) : UUID × Instant ← Program.request (Request.createApproval state)
    let state := withApproval settings state approvalId now
    let _ : Unit ← Program.request (Request.done state)
    pure (.paused state)

/-- The node `generate_answer`. -/
def generateAnswer (state : AgentGraphState) : AgentProgram AgentGraphState := do
  superstep .generateAnswer state
  let available := (← listTools).filter fun tool => tool.manifest.enabled
  let availability :=
    if state.confirmedTool.isNone ∧ state.toolCalls = [] then
      reader.toolAvailabilityAnswer state.message available
    else none
  if state.finalAnswer ≠ "" then pure state
  else match availability, reader.toolFailureAnswer state with
    | some answer, _ => pure { state with finalAnswer := answer }
    | none, some answer => pure { state with finalAnswer := answer }
    | none, none => do
      let answer : String ← Program.request (Request.generate state)
      pure { state with finalAnswer := reader.sanitizeModelAnswer answer state }

/-- The nodes from `generate_answer` to the end. -/
def answerNodes (state : AgentGraphState) : AgentProgram GraphEnd := do
  let state ← generateAnswer reader state
  superstep .saveAssistantMessage state
  let _ : Unit ← Program.request (Request.saveAssistantMessage state)
  superstep .updateMemorySummary state
  let _ : Unit ← Program.request (Request.updateMemorySummary state)
  let _ : Unit ← Program.request (Request.done state)
  pure (.answered state)

/-- The node `load_context`; the route is what `model_gateway.route` gives. -/
def loadContext (route : String → String → ModelRoute) (state : AgentGraphState) :
    AgentProgram AgentGraphState := do
  superstep .loadContext state
  let _ : Unit ← Program.request (Request.loadContext state)
  pure { state with route := some (route state.taskType state.message) }

/-- The nodes of the chat graph from `plan` on, with the number of tool rounds that are left. -/
def planLoop : ℕ → AgentGraphState → AgentProgram GraphEnd
  | rounds, state => do
    let state ← planNode reader settings state
    if state.plan.noTool then answerNodes reader state
    else match rounds with
      -- `planNode` plans no tool in the last round
      | 0 => pure (.failed "Recursion limit reached without hitting a stop condition")
      | rounds + 1 => do
        let state ← executeToolNode reader settings state
        if awaitsConfirmation state.toolCalls then awaitConfirmation settings state
        else planLoop rounds state

/-- The nodes of the chat graph after `execute_tool`. -/
def afterExecuteTool (state : AgentGraphState) : AgentProgram GraphEnd :=
  if awaitsConfirmation state.toolCalls then awaitConfirmation settings state
  else planLoop reader settings (state.maxToolRounds - state.toolRounds) state

/-- `build_agent_graph` in the mode `chat`. -/
def chatGraph (route : String → String → ModelRoute) (state : AgentGraphState) :
    AgentProgram GraphEnd := do
  superstep .ensureConversation state
  let conversationId : UUID ← Program.request (Request.ensureConversation state)
  let state := { state with conversationId := some conversationId }
  let state ← loadContext route state
  superstep .saveUserMessage state
  let _ : Unit ← Program.request (Request.saveUserMessage state)
  superstep .preflightConfirmableTool state
  match ← planEarlyConfirmableTool reader settings state with
  | some plan => do
    let state ← executeToolNode reader settings { state with plan }
    afterExecuteTool reader settings state
  | none => do
    superstep .retrieveContext state
    let context : RetrievedContext ← Program.request (Request.retrieveContext state)
    let state := { state with
      citations := context.citations
      mcpResources := context.mcpResources
      mcpPrompts := context.mcpPrompts }
    planLoop reader settings (state.maxToolRounds - state.toolRounds) state

/-- `build_agent_graph` in the mode `confirmed_tool`. -/
def confirmedGraph (route : String → String → ModelRoute) (state : AgentGraphState) :
    AgentProgram GraphEnd := do
  let state ← loadContext route state
  let state ← planNode reader settings state
  let state ← executeToolNode reader settings state
  if awaitsConfirmation state.toolCalls then awaitConfirmation settings state
  else answerNodes reader state

/-- `_run_graph`: a message beyond the budget is refused at once. -/
def runGraph (graph : AgentGraphState → AgentProgram GraphEnd) (state : AgentGraphState) :
    AgentProgram GraphEnd :=
  if settings.contextMaxChars < state.message.length then do
    let detail := "Current message exceeds the runtime context budget"
    let _ : Unit ← Program.request (Request.error detail)
    pure (.failed detail)
  else graph state

/-- The initial state of `stream`. A background task runs the same graph with its `taskId`. -/
def chatState (userId taskId conversationId : Option UUID) (message taskType traceId : String) :
    AgentGraphState where
  userId := userId
  taskId := taskId
  conversationId := conversationId
  message := message
  taskType := taskType
  citations := []
  mcpResources := []
  mcpPrompts := []
  plan := .none ""
  toolCalls := []
  observations := []
  searchFetchTargets := []
  confirmedSearchTarget := none
  finalAnswer := ""
  approvalId := none
  traceId := traceId
  route := none
  toolRounds := 0
  maxToolRounds := settings.maxToolRounds
  saveUserMessage := true
  confirmedToolName := none
  confirmedArguments := []
  confirmedReason := ""

/-- The initial state of `stream_confirmed_tool` for the message that the claim returned. -/
def confirmedState (userId : Option UUID) (approval : Message) (stored : Approval)
    (traceId : String) : AgentGraphState where
  userId := userId
  taskId := none
  conversationId := some approval.conversationId
  message := stored.message
  taskType := stored.taskType
  citations := (approval.metadata.continuation.map Continuation.citations).getD []
  mcpResources := (approval.metadata.continuation.map Continuation.mcpResources).getD []
  mcpPrompts := (approval.metadata.continuation.map Continuation.mcpPrompts).getD []
  plan := .none ""
  toolCalls := (approval.metadata.continuation.map Continuation.toolCalls).getD []
  observations := (approval.metadata.continuation.map Continuation.observations).getD []
  searchFetchTargets := (approval.metadata.continuation.map Continuation.searchFetchTargets).getD []
  confirmedSearchTarget := approval.metadata.toolCalls.getLast?.bind ToolCallRecord.searchTarget
  finalAnswer := ""
  approvalId := some approval.id
  traceId := traceId
  route := none
  toolRounds := 0
  maxToolRounds := settings.maxToolRounds
  saveUserMessage := false
  confirmedToolName := some stored.toolName
  confirmedArguments := stored.arguments
  confirmedReason := "Confirmed: " ++ stored.reason

/-- `stream`. -/
def stream (route : String → String → ModelRoute) (userId taskId conversationId : Option UUID)
    (message taskType traceId : String) : AgentProgram GraphEnd :=
  runGraph settings (chatGraph reader settings route)
    (chatState settings userId taskId conversationId message taskType traceId)

/-- `stream_confirmed_tool` after its claim. -/
def streamConfirmedTool (route : String → String → ModelRoute) (userId : Option UUID)
    (approval : Message) (stored : Approval) (traceId : String) : AgentProgram GraphEnd :=
  runGraph settings (confirmedGraph reader settings route)
    (confirmedState settings userId approval stored traceId)

end

end AgentDemo
