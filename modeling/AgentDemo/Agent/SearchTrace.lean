import AgentDemo.Agent.Edges
import AgentDemo.Agent.Events

/-! What a web search and the pages that are fetched after it record, up to trace ids and
durations. -/
namespace AgentDemo

/-- A response without its trace id and its duration. -/
def ToolRunResponse.unstamped (result : ToolRunResponse) : ToolRunResponse :=
  { result with durationMs := 0, traceId := "" }

/-- The tool of a call, its arguments, its response and the page that it is for. -/
structure CallView where
  toolName : String
  arguments : JsonObject
  result : ToolRunResponse
  searchTarget : Option SearchTarget

def ToolCallRecord.view (call : ToolCallRecord) : CallView :=
  ⟨call.toolName, call.arguments, call.result.unstamped, call.searchTarget⟩

structure SearchTrace where
  calls : List CallView
  observations : List String

def AgentGraphState.searchTrace (state : AgentGraphState) : SearchTrace :=
  ⟨state.toolCalls.map ToolCallRecord.view, state.observations⟩

/-- The tools as every run finds them, and what becomes of a dispatched call. No tool reports the
error of the confirmation gate as its own. -/
structure SearchTools where
  search : RegisteredTool
  fetch : Option RegisteredTool
  outcome : String → JsonObject → ToolOutcome
  search_name : search.manifest.name = webSearchToolName
  search_enabled : search.manifest.enabled = true
  search_unconfirmed : search.manifest.requiresConfirmation = false
  fetch_name : ∀ tool ∈ fetch, tool.manifest.name = mcpFetchToolName
  outcome_error : ∀ name arguments, (outcome name arguments).error ≠ some confirmationError

def RegisteredTool.unconfirmed (tool : RegisteredTool) : RegisteredTool :=
  { tool with manifest := { tool.manifest with requiresConfirmation := false } }

namespace SearchTools

def unconfirmed (tools : SearchTools) : SearchTools where
  search := tools.search
  fetch := tools.fetch.map RegisteredTool.unconfirmed
  outcome := tools.outcome
  search_name := tools.search_name
  search_enabled := tools.search_enabled
  search_unconfirmed := tools.search_unconfirmed
  fetch_name := by
    intro tool htool
    obtain ⟨original, horiginal, rfl⟩ := Option.map_eq_some_iff.mp htool
    exact tools.fetch_name original horiginal
  outcome_error := tools.outcome_error

/-- The answers that a run gets from these tools; all others are arbitrary. -/
def Answers (tools : SearchTools) : (q : Request) × q.Answer → Prop
  | ⟨.registryGet name, tool⟩ =>
    (name = webSearchToolName → tool = some tools.search) ∧
      (name = mcpFetchToolName → tool = tools.fetch)
  | ⟨.dispatch tool arguments _, outcome⟩ => outcome = tools.outcome tool.manifest.name arguments
  | _ => True

variable (tools : SearchTools) (reader : TextReader) (settings : AgentSettings)

def confirmedOutcome (tool : RegisteredTool) (arguments : JsonObject) : ToolOutcome :=
  (refusal tool true).getD (tools.outcome tool.manifest.name arguments)

def response (tool : RegisteredTool) (arguments : JsonObject) : ToolRunResponse :=
  toolResponse reader tool ⟨"", 0⟩ (tools.confirmedOutcome tool arguments)

/-- The pages that a search offers. -/
def pages (arguments : JsonObject) : List SearchTarget :=
  searchResultFetchTargets reader (tools.response reader tools.search arguments)

def searchView (arguments : JsonObject) : CallView :=
  ⟨webSearchToolName, arguments, tools.response reader tools.search arguments, none⟩

def pageView (tool : RegisteredTool) (target : SearchTarget) : CallView :=
  ⟨tool.manifest.name, fetchArguments settings target.url,
    tools.response reader tool (fetchArguments settings target.url), some target⟩

def pageObservation (tool : RegisteredTool) (target : SearchTarget) : String :=
  formatSearchFetchObservation reader
    (tools.response reader tool (fetchArguments settings target.url)) target

/-- The trace of a search and of the first pages after it. -/
def trace (tool : RegisteredTool) (arguments : JsonObject) (fetched : List SearchTarget) :
    SearchTrace where
  calls := tools.searchView reader arguments :: fetched.map (tools.pageView reader settings tool)
  observations := formatToolObservation reader (tools.response reader tools.search arguments) ::
    fetched.map (tools.pageObservation reader settings tool)

end SearchTools

def fetchFailure (calls : List CallView) : List String :=
  let attempts := calls.filter fun call => call.searchTarget.isSome
  let failures := (attempts.filter fun call => call.result.status ≠ .success).map fun call =>
    (call.arguments.getStr? "url").getD "" ++ ": " ++
      orText call.result.error call.result.status.text
  if attempts.any fun call => call.result.status = .success then []
  else ["All search result page fetches failed. Fall back to the web search titles, " ++
    "snippets, and URLs, and explain that page-body fetching failed: " ++
    if failures.isEmpty then "no fetch attempts completed" else String.intercalate "; " failures]

def SearchTrace.closed (trace : SearchTrace) : SearchTrace :=
  { trace with observations := trace.observations ++ fetchFailure trace.calls }

namespace SearchTools

variable (tools : SearchTools) (reader : TextReader) (settings : AgentSettings)

/-- What a search records in the end, with all its pages. -/
def wholeTrace (arguments : JsonObject) : SearchTrace :=
  let result := tools.response reader tools.search arguments
  let searched (remarks : List String) : SearchTrace :=
    ⟨[tools.searchView reader arguments], formatToolObservation reader result :: remarks⟩
  if result.status ≠ .success then searched []
  else match tools.fetch with
    | none => searched ["Search result page content was not fetched because the Fetch MCP tool " ++
        "`mcp.fetch.fetch` is not available. Fall back to the web search " ++
        "titles, snippets, and source URLs."]
    | some tool =>
      if (tools.pages reader arguments).isEmpty then
        searched ["Search result page content was not fetched because the web search results " ++
          "did not include any unique http/https URLs. Fall back to the search snippets."]
      else (tools.trace reader settings tool arguments (tools.pages reader arguments)).closed

variable {tools reader settings}

theorem refusal_unconfirmed (tool : RegisteredTool) (confirmed : Bool) :
    refusal tool.unconfirmed confirmed = refusal tool true := by
  simp [refusal, RegisteredTool.unconfirmed]

theorem response_unconfirmed (tool : RegisteredTool) (arguments : JsonObject) :
    tools.unconfirmed.response reader tool.unconfirmed arguments =
      tools.response reader tool arguments := by
  simp only [response, confirmedOutcome, refusal_unconfirmed]
  rfl

/-- The whole trace does not depend on the confirmation of Fetch. -/
theorem wholeTrace_unconfirmed (arguments : JsonObject) :
    tools.unconfirmed.wholeTrace reader settings arguments =
      tools.wholeTrace reader settings arguments := by
  have hview (tool : RegisteredTool) : tools.unconfirmed.pageView reader settings tool.unconfirmed =
      tools.pageView reader settings tool := by
    funext target
    unfold pageView
    rw [response_unconfirmed]
    rfl
  have hobservation (tool : RegisteredTool) :
      tools.unconfirmed.pageObservation reader settings tool.unconfirmed =
        tools.pageObservation reader settings tool := by
    funext target
    unfold pageObservation
    rw [response_unconfirmed]
  cases hfetch : tools.fetch with
  | none =>
    have hnone : tools.unconfirmed.fetch = none := by simp [unconfirmed, hfetch]
    simp only [wholeTrace, hfetch, hnone]
    rfl
  | some tool =>
    have hsome : tools.unconfirmed.fetch = some tool.unconfirmed := by simp [unconfirmed, hfetch]
    simp only [wholeTrace, hfetch, hsome, trace, hview, hobservation]
    rfl

theorem confirmedOutcome_error (tool : RegisteredTool) (arguments : JsonObject) :
    (tools.confirmedOutcome tool arguments).error ≠ some confirmationError := by
  have hdisabled : "Tool is disabled" ≠ confirmationError := by decide
  unfold confirmedOutcome refusal
  cases tool.manifest.enabled with
  | false => exact fun h => hdisabled (Option.some.inj h)
  | true => simpa using tools.outcome_error _ _

/-- A state that has recorded a search and the first pages after it. -/
structure Gathered (tools : SearchTools) (reader : TextReader) (settings : AgentSettings)
    (tool : RegisteredTool) (arguments : JsonObject) (fetched : List SearchTarget)
    (state : AgentGraphState) : Prop where
  trace : state.searchTrace = tools.trace reader settings tool arguments fetched
  enrichment : ∀ call ∈ state.toolCalls, call.searchEnrichment = call.searchTarget.isSome

variable {tool : RegisteredTool} {arguments : JsonObject} {fetched : List SearchTarget}
  {state : AgentGraphState}

theorem Gathered.error (h : tools.Gathered reader settings tool arguments fetched state) :
    ∀ call ∈ state.toolCalls, call.result.error ≠ some confirmationError := by
  intro call hcall
  have hview : call.view ∈ (tools.trace reader settings tool arguments fetched).calls := by
    rw [← h.trace]
    exact List.mem_map_of_mem hcall
  have herror : call.view.result.error ≠ some confirmationError := by
    rcases List.mem_cons.mp hview with hsearch | hpage
    · rw [hsearch]
      exact confirmedOutcome_error _ _
    · obtain ⟨target, -, htarget⟩ := List.mem_map.mp hpage
      rw [← htarget]
      exact confirmedOutcome_error _ _
  exact herror

/-- Nothing that has been recorded waits for a confirmation. -/
theorem awaits_of_error {toolCalls : List ToolCallRecord}
    (h : ∀ call ∈ toolCalls, call.result.error ≠ some confirmationError) :
    awaitsConfirmation toolCalls = false := by
  unfold awaitsConfirmation
  cases hlast : toolCalls.getLast? with
  | none => rfl
  | some call =>
    have herror := h call (List.mem_of_getLast? hlast)
    simp [herror]

/-- One more page. -/
theorem Gathered.add (h : tools.Gathered reader settings tool arguments fetched state)
    {state' : AgentGraphState} {call : ToolCallRecord} {target : SearchTarget}
    {observation : String} (hcalls : state'.toolCalls = state.toolCalls ++ [call])
    (hobservations : state'.observations = state.observations ++ [observation])
    (hview : call.view = tools.pageView reader settings tool target)
    (henrichment : call.searchEnrichment = true)
    (hobservation : observation = tools.pageObservation reader settings tool target) :
    tools.Gathered reader settings tool arguments (fetched ++ [target]) state' where
  trace := by
    have hcallsBefore := congrArg SearchTrace.calls h.trace
    have hobservationsBefore := congrArg SearchTrace.observations h.trace
    simp only [AgentGraphState.searchTrace] at hcallsBefore hobservationsBefore ⊢
    rw [hcalls, hobservations, List.map_append, hcallsBefore, hobservationsBefore, hobservation]
    simp [hview, SearchTools.trace]
  enrichment := by
    intro c hc
    rw [hcalls] at hc
    rcases List.mem_append.mp hc with hc | hc
    · exact h.enrichment c hc
    · rw [List.mem_singleton.mp hc, henrichment]
      have htarget : call.searchTarget = some target := congrArg CallView.searchTarget hview
      rw [htarget]
      rfl

end SearchTools

/-- The end of the loop over the pages adds what it adds to their trace. -/
theorem searchTrace_fetchesDone {reader : TextReader} {state : AgentGraphState}
    (h : ∀ call ∈ state.toolCalls, call.searchEnrichment = call.searchTarget.isSome) :
    (fetchesDone reader state).searchTrace = state.searchTrace.closed := by
  have hattempts : (state.toolCalls.map ToolCallRecord.view).filter
      (fun call => call.searchTarget.isSome) =
        (state.toolCalls.filter fun call => call.searchEnrichment).map ToolCallRecord.view := by
    rw [List.filter_map]
    congr 1
    exact List.filter_congr fun call hcall => (h call hcall).symm
  have hfailure : fetchFailure (state.toolCalls.map ToolCallRecord.view) =
      let attempts := state.toolCalls.filter fun call => call.searchEnrichment
      let failures := (attempts.filter fun call => call.result.status ≠ .success).map fun call =>
        (call.arguments.getStr? "url").getD "" ++ ": " ++
          orText call.result.error call.result.status.text
      if attempts.any fun call => call.result.status = .success then []
      else ["All search result page fetches failed. Fall back to the web search titles, " ++
        "snippets, and URLs, and explain that page-body fetching failed: " ++
        if failures.isEmpty then "no fetch attempts completed"
        else String.intercalate "; " failures] := by
    unfold fetchFailure
    simp only [hattempts, List.filter_map, List.any_map, List.map_map]
    rfl
  unfold SearchTrace.closed
  simp only [AgentGraphState.searchTrace]
  rw [hfailure]
  unfold fetchesDone
  dsimp only
  split_ifs
  · simp
  · cases reader.searchResultsFallbackAnswer _ <;> rfl
  · cases reader.searchResultsFallbackAnswer _ <;> rfl

end AgentDemo
