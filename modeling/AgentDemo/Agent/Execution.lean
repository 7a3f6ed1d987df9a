import AgentDemo.Agent.Planning
import AgentDemo.Services.ToolRun

/-! The execution of a plan: `_maybe_execute_tool`, and the pages that it fetches after a web
search. -/
namespace AgentDemo

/-- What `rstrip` takes off the end of a URL. -/
def urlTail : List Char :=
  ['.', ',', ';', ':', '!', '?', ')', '。', '，', '；', '：', '！', '？', '）', '】', '」', '\'', '"']

def rstripUrl (url : String) : String :=
  String.ofList (url.toList.reverse.dropWhile (· ∈ urlTail)).reverse

section

variable (reader : TextReader) (settings : AgentSettings)

/-- `str(value)`. -/
def textOf : Json → String
  | .str s => s
  | value => reader.text value

/-- `str(fields.get(key) or "")`. -/
def fieldText (fields : JsonObject) (key : String) : String :=
  match fields.get? key with
  | some value => if value.truthy then textOf reader value else ""
  | none => ""

def toolOutputText (result : ToolRunResponse) : String :=
  match result.output with
  | .null => result.outputSummary.getD ""
  | .str s => s
  | .obj fields => (JsonObject.getStr? fields "content").getD (reader.dumps result.output)
  | output => reader.dumps output

def fetchedUrl : Json → String
  | .obj fields =>
    let url := fieldText reader fields "url"
    if url ≠ "" then url
    else match JsonObject.get? fields "raw" with
      | some (.obj raw) => fieldText reader raw "url"
      | _ => ""
  | _ => ""

def formatToolObservation (result : ToolRunResponse) : String :=
  if result.status = .success then
    let output := toolOutputText reader result
    if result.toolName = webSearchToolName then
      "Web search results. Use these results for current external facts and cite " ++
        "result URLs when answering:\n" ++ output
    else if result.toolName = mcpFetchToolName then
      "Fetched web page content. Summarize the content from this page and preserve " ++
        "the source URL in the answer: " ++ fetchedUrl reader result.output ++ "\n" ++ output
    else if "mcp.github.".toList.isPrefixOf result.toolName.toList then
      "GitHub repository content. Analyze this repository or code file from " ++
        "the GitHub MCP result and mention the source GitHub URL if available:\n" ++ output
    else if "mcp.huggingface.".toList.isPrefixOf result.toolName.toList then
      "Hugging Face Hub MCP results. Use these results for Hugging Face models, " ++
        "datasets, Spaces, papers, documentation, or repository details; preserve " ++
        "Hub links or resource IDs in the answer:\n" ++ output
    else result.toolName ++ " succeeded: " ++ output
  else result.toolName ++ " failed with status " ++ result.status.text ++ ": " ++
    result.error.getD "None"

def formatSearchFetchObservation (result : ToolRunResponse) (target : SearchTarget) : String :=
  let page := "Title: " ++ orText (some target.title) "(untitled)" ++ "\nURL: " ++ target.url ++
    "\nSearch snippet: " ++ target.snippet
  if result.status = .success then
    "Search result page content. This body text was fetched from one of the " ++
      "web_search result URLs. Summarize and analyze this body content, compare it " ++
      "with the other fetched pages when available, and preserve the source URL.\n" ++ page ++
      "\nFetched content:\n" ++ toolOutputText reader result
  else
    "Search result page fetch failed. Skip this source if other fetched pages are " ++
      "available; if every page fetch failed, fall back to search result snippets and " ++
      "explain the body-fetch failure.\n" ++ page ++
      "\nError: " ++ orText result.error result.status.text

def searchResultItems (output : Json) : List Json :=
  let payload := match output with
    | .str s => reader.loads s
    | _ => some output
  match payload with
  | some (.obj fields) =>
    match JsonObject.get? fields "results" with
    | some (.arr results) => results
    | _ => []
  | _ => []

/-- The loop of `_search_result_fetch_targets` with the lower-case URLs it has seen and the
number of pages that are still wanted after this one. -/
def collectTargets : List Json → List String → ℕ → List SearchTarget
  | [], _, _ => []
  | .obj fields :: rest, seen, wanted =>
    let url := rstripUrl (strip (fieldText reader fields "url"))
    if reader.isHttpUrl url = false ∨ reader.lower url ∈ seen then collectTargets rest seen wanted
    else ⟨url, fieldText reader fields "title", fieldText reader fields "snippet"⟩ ::
      match wanted with
      | 0 => []
      | wanted + 1 => collectTargets rest (reader.lower url :: seen) wanted
  | _ :: rest, seen, wanted => collectTargets rest seen wanted

/-- `_search_result_fetch_targets`: at most `SEARCH_FETCH_MAX_PAGES` pages. -/
def searchResultFetchTargets (result : ToolRunResponse) : List SearchTarget :=
  collectTargets reader (searchResultItems reader result.output) [] 2

/-- The entry of `tool_calls` for a call of the plan. -/
def planCall (plan : AgentToolPlan) (toolName : String) (result : ToolRunResponse) :
    ToolCallRecord where
  toolName := toolName
  provider := plan.provider
  providerToolId := plan.providerToolId
  serverName := plan.serverName
  arguments := plan.arguments
  reason := plan.reason
  requiresConfirmation := plan.requiresConfirmation
  searchEnrichment := false
  searchTarget := none
  result := result
  approvalId := none
  approvalStatus := none
  approvalExpiresAt := none
  approvalError := none

/-- The entry of `tool_calls` for a page of the search results. -/
def fetchCall (tool : RegisteredTool) (target : SearchTarget) (result : ToolRunResponse) :
    ToolCallRecord :=
  { planCall (planFor tool (fetchArguments settings target.url)
        "Fetch this search result page to supplement the saved search snippets.")
      tool.manifest.name result with
    searchEnrichment := true
    searchTarget := some target }

/-- The end of `_fetch_search_targets`: what is added when no page could be fetched. -/
def fetchesDone (state : AgentGraphState) : AgentGraphState :=
  let attempts := state.toolCalls.filter fun call => call.searchEnrichment
  let failures := (attempts.filter fun call => call.result.status ≠ .success).map fun call =>
    (call.arguments.getStr? "url").getD "" ++ ": " ++
      orText call.result.error call.result.status.text
  if attempts.any fun call => call.result.status = .success then state
  else
    let detail := if failures.isEmpty then "no fetch attempts completed"
      else String.intercalate "; " failures
    let state := { state with observations := state.observations ++
      ["All search result page fetches failed. Fall back to the web search titles, " ++
        "snippets, and URLs, and explain that page-body fetching failed: " ++ detail] }
    match reader.searchResultsFallbackAnswer state with
    | some fallback => { state with finalAnswer := fallback }
    | none => state

def recordFetch (tool : RegisteredTool) (target : SearchTarget) (rest : List SearchTarget)
    (result : ToolRunResponse) (state : AgentGraphState) : AgentGraphState :=
  { state with
    searchFetchTargets := rest
    toolCalls := state.toolCalls ++ [fetchCall settings tool target result]
    observations := state.observations ++ [formatSearchFetchObservation reader result target] }

/-- The loop of `_fetch_search_targets` over the pages that are left. -/
def fetchTargets (tool : RegisteredTool) :
    List SearchTarget → AgentGraphState → AgentProgram AgentGraphState
  | [], state => pure (fetchesDone reader state)
  | target :: rest, state => do
    let result ← runTool reader tool (fetchArguments settings target.url) false
    let state := recordFetch reader settings tool target rest result state
    if result.error = some confirmationError then pure state else fetchTargets tool rest state

def fetchSearchTargets (state : AgentGraphState) : AgentProgram AgentGraphState := do
  match ← registryGet mcpFetchToolName with
  | none => pure { state with
      searchFetchTargets := []
      observations := state.observations ++
        ["Fetch MCP is unavailable. Use the saved search snippets and URLs."] }
  | some tool => fetchTargets reader settings tool state.searchFetchTargets state

def enrichWebSearchWithFetch (state : AgentGraphState) (result : ToolRunResponse) :
    AgentProgram AgentGraphState := do
  match ← registryGet mcpFetchToolName with
  | none => pure { state with observations := state.observations ++
      ["Search result page content was not fetched because the Fetch MCP tool " ++
        "`mcp.fetch.fetch` is not available. Fall back to the web search " ++
        "titles, snippets, and source URLs."] }
  | some _ =>
    let targets := searchResultFetchTargets reader result
    if targets.isEmpty then
      pure { state with observations := state.observations ++
        ["Search result page content was not fetched because the web search results " ++
          "did not include any unique http/https URLs. Fall back to the search snippets."] }
    else fetchSearchTargets reader settings { state with searchFetchTargets := targets }

/-- `_execute_tool_plan` for a plan with a tool name. The trace id of a missing tool is left
empty; the code draws one. -/
def executeToolPlan (plan : AgentToolPlan) (toolName : String) : AgentProgram ToolRunResponse := do
  match ← registryGet toolName with
  | none => pure {
      toolName, provider := .localPlugin, providerToolId := none, serverName := none
      status := .failed, output := .null, outputSummary := none
      error := some ("Tool is not available: " ++ toolName), durationMs := 0, traceId := "" }
  | some tool => runTool reader tool plan.arguments (!plan.requiresConfirmation)

def recordCall (plan : AgentToolPlan) (toolName : String) (result : ToolRunResponse)
    (state : AgentGraphState) : AgentGraphState :=
  let call := planCall plan toolName result
  match state.confirmedSearchTarget with
  | some target => { state with
      toolCalls := state.toolCalls ++
        [{ call with searchEnrichment := true, searchTarget := some target }]
      observations := state.observations ++ [formatSearchFetchObservation reader result target]
      confirmedSearchTarget := none }
  | none => { state with
      toolCalls := state.toolCalls ++ [call]
      observations := state.observations ++ [formatToolObservation reader result] }

def maybeExecuteTool (state : AgentGraphState) : AgentProgram AgentGraphState :=
  match state.plan.noTool, state.plan.toolName with
  | false, some toolName => do
    let result ← executeToolPlan reader state.plan toolName
    let enrichment := state.confirmedSearchTarget.isSome
    let state := recordCall reader state.plan toolName result state
    if result.status = .success ∧ toolName = webSearchToolName then
      enrichWebSearchWithFetch reader settings state result
    else if enrichment then fetchSearchTargets reader settings state
    else pure state
  | _, _ => pure state

end

end AgentDemo
