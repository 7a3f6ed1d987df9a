import AgentDemo.Agent.Requests

/-! `ToolExecutor.run` as a program, with its confirmation gate. -/
namespace AgentDemo

def confirmationError : String := "Tool requires confirmation before execution"

/-- `_response`. -/
def toolResponse (reader : TextReader) (tool : RegisteredTool) (stamp : CallStamp)
    (outcome : ToolOutcome) : ToolRunResponse where
  toolName := tool.manifest.name
  provider := tool.provider
  providerToolId := some (orText tool.providerToolId tool.manifest.name)
  serverName := tool.serverName
  status := outcome.status
  output := outcome.output
  outputSummary := reader.summarize outcome.output
  error := outcome.error
  durationMs := stamp.durationMs
  traceId := stamp.traceId

/-- The gate: `none` lets the call pass. -/
def refusal (tool : RegisteredTool) (confirmed : Bool) : Option ToolOutcome :=
  if !tool.manifest.enabled then some ⟨.failed, .null, some "Tool is disabled"⟩
  else if tool.manifest.requiresConfirmation && !confirmed then
    some ⟨.failed, .null, some confirmationError⟩
  else none

/-- `ToolExecutor.run`. -/
def runTool (reader : TextReader) (tool : RegisteredTool) (arguments : JsonObject)
    (confirmed : Bool) : AgentProgram ToolRunResponse := do
  let stamp : CallStamp ← Program.request (Request.call tool arguments confirmed)
  match refusal tool confirmed with
  | some outcome => pure (toolResponse reader tool stamp outcome)
  | none =>
    let outcome : ToolOutcome ← Program.request (Request.dispatch tool arguments confirmed)
    pure (toolResponse reader tool stamp outcome)

theorem refusal_eq_none {tool : RegisteredTool} {confirmed : Bool}
    (h : refusal tool confirmed = none) :
    tool.manifest.enabled = true ∧
      (tool.manifest.requiresConfirmation = true → confirmed = true) := by
  unfold refusal at h
  split_ifs at h with he hc
  refine ⟨by simpa using he, fun hr => ?_⟩
  simpa [hr] using hc

end AgentDemo
