import AgentDemo.Agent.Requests

/-! The planners of the runtime: `_plan_next_step`, `_plan_early_confirmable_tool` and the
functions behind them. -/
namespace AgentDemo

section

variable (reader : TextReader) (settings : AgentSettings)

/-- `FETCH_DEFAULT_MAX_LENGTH` cut to what a tool may put out. -/
def fetchMaxLength : ℤ := max 1 (min 8000 settings.maxToolOutputChars)

def fetchArguments (url : String) : JsonObject :=
  [("url", .str url), ("max_length", .num (fetchMaxLength settings))]

def planFor (tool : RegisteredTool) (arguments : JsonObject) (reason : String) : AgentToolPlan where
  noTool := false
  toolName := some tool.manifest.name
  provider := tool.provider
  providerToolId := tool.providerToolId
  serverName := tool.serverName
  arguments := arguments
  reason := reason
  requiresConfirmation := tool.manifest.requiresConfirmation

/-- The plan for a local tool, which is made even when the tool is not there. -/
def planForName (tool : Option RegisteredTool) (name : String) (arguments : JsonObject)
    (reason : String) : AgentToolPlan where
  noTool := false
  toolName := some name
  provider := (tool.map RegisteredTool.provider).getD .localPlugin
  providerToolId := (tool.map RegisteredTool.providerToolId).getD (some name)
  serverName := tool.bind RegisteredTool.serverName
  arguments := arguments
  reason := reason
  requiresConfirmation := tool.any fun tool => tool.manifest.requiresConfirmation

def findMcpTool (tools : List RegisteredTool) (serverName : String)
    (providerToolIds : List String) : Option RegisteredTool :=
  providerToolIds.findSome? fun id => tools.find? fun tool =>
    tool.provider = .mcpServer && tool.serverName = some serverName &&
      tool.providerToolId = some id && tool.manifest.enabled

def findMcpServerTools (tools : List RegisteredTool) (serverName : String) : List RegisteredTool :=
  tools.filter fun tool => tool.provider = .mcpServer && tool.serverName = some serverName &&
    tool.manifest.enabled

/-- The properties and the required names of a parameter schema. -/
def schemaAccepts (schema : JsonObject) (name : String) : Bool :=
  let properties := match schema.get? "properties" with
    | some (.obj fields) => fields
    | _ => []
  let required := match schema.get? "required" with
    | some (.arr names) => names
    | _ => []
  properties.isEmpty || (JsonObject.get? properties name).isSome ||
    required.any fun | .str s => s = name | _ => false

def githubFileArguments (tool : RegisteredTool) (reference : GithubReference) : JsonObject :=
  let accepts := schemaAccepts tool.manifest.parameters
  let put (when : Bool) (key value : String) : JsonObject :=
    if when then [(key, .str value)] else []
  put (accepts "owner") "owner" reference.owner ++
  put (accepts "repo") "repo" reference.repo ++
  put (accepts "repository") "repository" (reference.owner ++ "/" ++ reference.repo) ++
  put (reference.path ≠ "" || accepts "path") "path" reference.path ++
  put (reference.ref ≠ "" && accepts "ref") "ref" reference.ref ++
  put (reference.ref ≠ "" && !accepts "ref" && accepts "sha") "sha" reference.ref ++
  put (reference.ref ≠ "" && !accepts "ref" && !accepts "sha" && accepts "branch") "branch"
    reference.ref ++
  put (accepts "url") "url" reference.url

/-- `_plan_github_tool`; the outer `none` is `None`. -/
def planGithubTool (state : AgentGraphState) : AgentProgram (Option AgentToolPlan) :=
  match reader.githubReference state.message with
  | none => pure none
  | some reference => do
    let tools ← listTools
    match findMcpTool tools mcpGithubServerName mcpGithubFileToolIds with
    | none =>
      pure (some (.none ("The user shared a GitHub link, but the GitHub MCP file-content " ++
        "tool is not available.")))
    | some tool => pure (some (planFor tool (githubFileArguments tool reference)
        ("The user shared a GitHub link, so read repository content through GitHub MCP before " ++
          "answering.")))

def planFetchTool (state : AgentGraphState) : AgentProgram (Option AgentToolPlan) :=
  match reader.fetchUrl state.message with
  | none => pure none
  | some url => do
    match ← registryGet mcpFetchToolName with
    | none =>
      if reader.requestsFetchUrl state.message then
        pure
          (some (.none ("The user asked to read a specific web page, but the fetch MCP tool is " ++
          "not available.")))
      else pure none
    | some tool => pure (some (planFor tool (fetchArguments settings url)
        "The user asked to fetch and summarize a specific web page URL."))

def requestsHuggingfaceTool (message : String) : Bool :=
  ["hugging face", "huggingface", "hf.co/", "huggingface.co/", "抱抱脸"].any
    fun term => hasText term (reader.lower message)

/-- The categories of `_select_huggingface_tool`: terms of the message, terms of the tool. -/
def huggingfaceCategories : List (List String × List String) := [
  (["repo", "repository", "details", "readme", "仓库", "详情"],
    ["hub_repo_details", "repo_details", "repository details"]),
  (["dataset", "datasets", "数据集"], ["dataset_search", "hub_repo_search", "repo_search"]),
  (["space", "spaces"], ["space_search", "spaces semantic search"]),
  (["paper", "papers", "论文"], ["paper_search", "papers semantic search"]),
  (["doc", "docs", "documentation", "peft", "lora", "文档"],
    ["hf_doc_search", "doc_search", "documentation"]),
  (["job", "jobs", "run", "manage", "运行", "管理"], ["job", "jobs"]),
  (["model", "models", "模型", "qwen", "quant", "量化"],
    ["model_search", "hub_repo_search", "repo_search"])]

def findToolByTerms (tools : List RegisteredTool) (terms : List String) : Option RegisteredTool :=
  tools.find? fun tool => terms.any fun term => hasText term
    (reader.lower tool.manifest.name ++ " " ++ reader.lower (tool.providerToolId.getD "") ++ " " ++
      reader.lower tool.manifest.description)

def selectHuggingfaceTool (message : String) (tools : List RegisteredTool) :
    Option RegisteredTool :=
  let categories := if reader.mentionsHuggingfaceUrl message then
      (["repo"], ["hub_repo_details", "repo_details", "repository details"]) ::
        huggingfaceCategories
    else huggingfaceCategories
  categories.findSome? fun (messageTerms, toolTerms) =>
    if messageTerms.any fun term => hasText term (reader.lower message) then
      findToolByTerms reader tools toolTerms
    else none

/-- `plan_tool_call` of the model gateway: the first candidate that the prompt names. -/
def planToolCall (prompt : String) (candidates : List RegisteredTool) : Option RegisteredTool :=
  candidates.find? fun tool =>
    [reader.lower tool.manifest.name,
      reader.lower (orText tool.providerToolId tool.manifest.name)].any
      fun name => name ≠ "" && hasText name (reader.lower prompt)

/-- The reason that `plan_tool_call` gives. -/
def referencedReason : String := "The user explicitly referenced an available tool."

def planHuggingfaceTool (state : AgentGraphState) : AgentProgram (Option AgentToolPlan) :=
  if requestsHuggingfaceTool reader state.message then do
    let tools := findMcpServerTools (← listTools) mcpHuggingfaceServerName
    if tools.isEmpty then
      pure (some (.none ("The user asked for Hugging Face Hub resources, but the " ++
        "Hugging Face MCP server is not available.")))
    else match selectHuggingfaceTool reader state.message tools with
      | some tool => pure (some (planFor tool (reader.huggingfaceArguments tool state.message)
          "The user asked to search or read Hugging Face Hub resources through MCP."))
      | none =>
        match planToolCall reader state.message tools with
        | none => pure none
        | some planned => do
          match ← registryGet planned.manifest.name with
          | none => pure none
          | some tool => pure (some (planFor tool [] referencedReason))
  else pure none

def planMcpTool (state : AgentGraphState) : AgentProgram (Option AgentToolPlan) := do
  let candidates := (← listTools).filter fun tool => tool.provider = .mcpServer
  match planToolCall reader state.message candidates with
  | none => pure none
  | some planned => do
    match ← registryGet planned.manifest.name with
    | none => pure none
    | some tool => pure (some (planFor tool [] referencedReason))

def planEarlyConfirmableTool (state : AgentGraphState) : AgentProgram (Option AgentToolPlan) := do
  let plan ←
    if (reader.githubReference state.message).isSome then planGithubTool reader state
    else if requestsHuggingfaceTool reader state.message then pure none
    else planFetchTool reader settings state
  pure (plan.filter fun plan => !plan.noTool && plan.requiresConfirmation)

/-- The checks of `_plan_next_step` that stop after a tool has been called. -/
def alreadyCalled (toolCalls : List ToolCallRecord) : Option String :=
  if toolCalls.any fun call => call.toolName = "read_file" then
    some "The requested file has already been read."
  else if toolCalls.any fun call => "mcp.github.".toList.isPrefixOf call.toolName.toList then
    some "The requested GitHub repository content has already been read."
  else if toolCalls.any fun call => call.toolName = mcpFetchToolName then
    some "The requested web page has already been fetched."
  else if toolCalls.any fun call => "mcp.huggingface.".toList.isPrefixOf call.toolName.toList then
    some "The requested Hugging Face MCP lookup has already been completed."
  else if toolCalls.any fun call => call.toolName = webSearchToolName then
    some "The web has already been searched."
  else none

/-- The last branches of `_plan_next_step`: web search, tool inventory, MCP tools. -/
def planLastResort (state : AgentGraphState) : AgentProgram AgentToolPlan :=
  if reader.requestsWebSearch state.message then do
    let tool ← registryGet webSearchToolName
    let query : String ← Program.request (Request.webSearchQuery state.message)
    pure (planForName tool webSearchToolName (reader.webSearchArguments query state.message)
      "The user asked for current or external web information.")
  else do
    let available := (← listTools).filter fun tool => tool.manifest.enabled
    if (reader.toolAvailabilityAnswer state.message available).isSome then
      pure (.none "The user asked about available tools.")
    else match ← planMcpTool reader state with
      | some plan => pure plan
      | none => pure (.none "No tool is needed for this message.")

/-- `_plan_next_step` from its planners for Fetch and Hugging Face on. -/
def planWebTool (state : AgentGraphState) : AgentProgram AgentToolPlan := do
  match ← planFetchTool reader settings state with
  | some plan => pure plan
  | none =>
    match ← planHuggingfaceTool reader state with
    | some plan => pure plan
    | none => planLastResort reader state

def planNextStep (state : AgentGraphState) : AgentProgram AgentToolPlan :=
  match alreadyCalled state.toolCalls with
  | some reason => pure (.none reason)
  | none => do
    match ← planGithubTool reader state with
    | some plan => pure plan
    | none =>
      match reader.readFilePath state.message with
      | some path =>
        if reader.requestsFileRead state.message then do
          let tool ← registryGet "read_file"
          pure (planForName tool "read_file" [("path", .str path)]
            "The user asked to read a local file before answering.")
        else planWebTool reader settings state
      | none => planWebTool reader settings state

end

end AgentDemo
