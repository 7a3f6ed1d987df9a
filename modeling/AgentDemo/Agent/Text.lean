import AgentDemo.Agent.State
import Mathlib.Data.List.Infix

/-! What the agent reads out of texts and JSON. Regular expressions, URL parsing, term lists and
JSON text are parameters of the model, so that results hold for every way of reading. -/
namespace AgentDemo

/-- `_extract_github_reference`, with the path that `_plan_github_tool` adds to it. -/
structure GithubReference where
  url : String
  owner : String
  repo : String
  path : String
  ref : String
  deriving DecidableEq

structure TextReader where
  lower : String → String
  dumps : Json → String
  loads : String → Option Json
  text : Json → String
  summarize : Json → Option String
  isHttpUrl : String → Bool
  safeToolDescription : String → String → Option String → String
  githubReference : String → Option GithubReference
  readFilePath : String → Option String
  requestsFileRead : String → Bool
  fetchUrl : String → Option String
  requestsFetchUrl : String → Bool
  mentionsHuggingfaceUrl : String → Bool
  huggingfaceArguments : RegisteredTool → String → JsonObject
  requestsWebSearch : String → Bool
  webSearchArguments : String → String → JsonObject
  toolAvailabilityAnswer : String → List RegisteredTool → Option String
  toolFailureAnswer : AgentGraphState → Option String
  searchResultsFallbackAnswer : AgentGraphState → Option String
  sanitizeModelAnswer : String → AgentGraphState → String

/-- The settings that the runtime reads. -/
structure AgentSettings where
  maxToolOutputChars : ℤ
  contextMaxChars : ℕ
  approvalTtlSeconds : ℤ
  maxToolRounds : ℕ

/-- `needle in text`. -/
def hasText (needle text : String) : Bool := decide (needle.toList <:+: text.toList)

def mcpFetchToolName : String := "mcp.fetch.fetch"
def mcpGithubServerName : String := "github"
def mcpGithubFileToolIds : List String := ["get_file_contents"]
def mcpHuggingfaceServerName : String := "huggingface"
def webSearchToolName : String := "web_search"

end AgentDemo
