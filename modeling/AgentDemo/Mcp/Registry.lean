import AgentDemo.Agent.Text
import AgentDemo.Library.Table
import Mathlib.Data.List.Sort
import Mathlib.Data.String.Basic

/-! `UnifiedToolRegistry`: the local plugins and one snapshot of the tools of the MCP servers. -/
namespace AgentDemo

instance : Keyed RegisteredTool String := ⟨fun tool => tool.manifest.name⟩

@[simp] theorem key_registeredTool (tool : RegisteredTool) :
    Keyed.key tool = tool.manifest.name := rfl

/-- What an MCP server says of one of its tools. Permission and confirmation may stand in the
annotations or beside them. -/
structure McpCatalogTool where
  name : String
  description : Option String
  annotatedPermission : Option String
  permission : Option String
  annotatedConfirmation : Bool
  requiresConfirmation : Bool
  inputSchema : JsonObject
  enabled : Bool

/-- What `list_tools` of one server gives; `none` is an exception. -/
structure McpListing where
  serverName : String
  transport : String
  tools : Option (List McpCatalogTool)

def riskyMcpPermissions : List String := ["write", "execute", "network", "destructive"]

/-- `normalize_mcp_permission`; a missing permission is the empty text. -/
def normalizeMcpPermission (reader : TextReader) (permission : String) : String :=
  let normalized := reader.lower (strip permission)
  if permission = "" ∨ normalized = "safe" then "read"
  else if normalized = "read" ∨ normalized ∈ riskyMcpPermissions then normalized
  else "execute"

/-- `requires_mcp_confirmation` of a normalized permission. The setting
`mcp_require_confirmation_by_default` adds nothing: what is not risky is `read`. -/
def requiresMcpConfirmation (permission : String) : Bool := permission ∈ riskyMcpPermissions

def validToolName (name : String) : Bool :=
  name ≠ "" && name.toList.all fun c => c.isAlphanum || c = '_' || c = '.' || c = '-'

/-- The servers and transports whose tools are always taken for network tools. -/
def isNetworkTool (serverName name transport : String) : Bool :=
  (serverName = "fetch" && name = "fetch") ||
    (serverName = mcpGithubServerName || serverName = mcpHuggingfaceServerName) ||
    (transport = "http" || transport = "sse" || transport = "streamable-http")

def mcpToolName (serverName name : String) : String := "mcp." ++ serverName ++ "." ++ name

def registeredPermission (reader : TextReader) (serverName transport : String)
    (tool : McpCatalogTool) : String :=
  if isNetworkTool serverName tool.name transport then "network"
  else normalizeMcpPermission reader
    (orText tool.annotatedPermission (orText tool.permission ""))

/-- `mcp_tool_to_registered_tool`; `none` is the validation error of the manifest. -/
def mcpToolToRegisteredTool (reader : TextReader) (serverName transport : String)
    (tool : McpCatalogTool) : Option RegisteredTool :=
  let permission := registeredPermission reader serverName transport tool
  if validToolName (mcpToolName serverName tool.name) then some {
    manifest := {
      name := mcpToolName serverName tool.name
      description := reader.safeToolDescription serverName tool.name tool.description
      permission
      requiresConfirmation := tool.annotatedConfirmation || tool.requiresConfirmation ||
        requiresMcpConfirmation permission
      parameters := if tool.inputSchema.isEmpty then [("type", .str "object")] else tool.inputSchema
      enabled := tool.enabled }
    provider := .mcpServer
    providerToolId := some tool.name
    serverName := some serverName }
  else none

structure McpTool (tool : RegisteredTool) (serverName id : String) : Prop where
  name : tool.manifest.name = mcpToolName serverName id
  provider : tool.provider = .mcpServer
  server : tool.serverName = some serverName
  toolId : tool.providerToolId = some id
  network : isNetworkTool serverName id "stdio" → tool.manifest.requiresConfirmation = true

/-- Look-ups are by manifest name, and each part holds tools of its own provider only. -/
structure UnifiedToolRegistry where
  pluginTools : Table RegisteredTool
  mcpTools : Table RegisteredTool
  plugin : ∀ tool ∈ pluginTools.rows, tool.provider = .localPlugin
  mcp : ∀ tool ∈ mcpTools.rows, ∃ serverName id, McpTool tool serverName id

namespace UnifiedToolRegistry

def get (registry : UnifiedToolRegistry) (name : String) : Option RegisteredTool :=
  (registry.pluginTools.get? name).or (registry.mcpTools.get? name)

def listTools (registry : UnifiedToolRegistry) : List RegisteredTool :=
  (registry.pluginTools.rows ++ registry.mcpTools.rows).insertionSort
    fun a b => a.manifest.name ≤ b.manifest.name

end UnifiedToolRegistry

/-- `dict[name] = tool`. -/
def putTool (tools : Table RegisteredTool) (tool : RegisteredTool) : Table RegisteredTool :=
  match tools.insert? tool with
  | some tools => tools
  | none => tools.write tool

/-- The loop over the tools of one server, from the tools it has already; `none` where the catalog
is invalid. -/
def serverTools (reader : TextReader) (serverName transport : String)
    (tools : Table RegisteredTool) : List McpCatalogTool → Option (Table RegisteredTool)
  | [] => some tools
  | tool :: rest =>
    match mcpToolToRegisteredTool reader serverName transport tool with
    | none => none
    | some registered =>
      match tools.insert? registered with
      | none => none
      | some tools => serverTools reader serverName transport tools rest

/-- `registered_tools.update(server_tools)`, unless the server failed. -/
def putServer (reader : TextReader) (registered : Table RegisteredTool) (listing : McpListing) :
    Table RegisteredTool :=
  match listing.tools.bind (serverTools reader listing.serverName listing.transport .empty) with
  | some tools => tools.rows.foldl putTool registered
  | none => registered

/-- The dictionary that `refresh_mcp_tools` builds. -/
def gatherTools (reader : TextReader) (listings : List McpListing) : Table RegisteredTool :=
  listings.foldl (putServer reader) .empty

theorem split_unique {α : Type*} {a : α} {l l' m m' : List α} (hm : a ∉ m)
    (hone : a ∉ l ∨ a ∉ m') (h : l ++ a :: l' = m ++ a :: m') : l = m ∧ l' = m' := by
  rcases List.append_eq_append_iff.mp h with ⟨c, hc, hrest⟩ | ⟨c, hc, hrest⟩
  · cases c with
    | nil => exact ⟨by simpa using hc.symm, by simpa using hrest⟩
    | cons x c =>
      obtain ⟨rfl, -⟩ := List.cons.inj hrest
      exact absurd (by simp [hc]) hm
  · cases c with
    | nil => exact ⟨by simpa using hc, by simpa using hrest.symm⟩
    | cons x c =>
      obtain ⟨rfl, htail⟩ := List.cons.inj hrest
      rcases hone with hl | hm'
      · exact absurd (by simp [hc]) hl
      · exact absurd (by simp [htail]) hm'

/-- A name made of a server without a dot has no other parts, if the other server or the own
identifier has no dot either. -/
theorem eq_of_mcpToolName_eq {serverName id serverName' id' : String}
    (hserver : '.' ∉ serverName'.toList) (hone : '.' ∉ serverName.toList ∨ '.' ∉ id'.toList)
    (h : mcpToolName serverName id = mcpToolName serverName' id') :
    serverName = serverName' ∧ id = id' := by
  have h := congrArg String.toList h
  simp only [mcpToolName, String.toList_append, List.append_assoc] at h
  obtain ⟨hs, hi⟩ := split_unique hserver hone (List.append_cancel_left h)
  exact ⟨String.toList_injective hs, String.toList_injective hi⟩

theorem mcpTool_of_catalog {reader : TextReader} {serverName transport : String}
    {tool : McpCatalogTool} {registered : RegisteredTool}
    (h : mcpToolToRegisteredTool reader serverName transport tool = some registered) :
    McpTool registered serverName tool.name := by
  unfold mcpToolToRegisteredTool at h
  by_cases hvalid : validToolName (mcpToolName serverName tool.name) = true
  · rw [if_pos hvalid] at h
    obtain rfl := Option.some.inj h
    refine ⟨rfl, rfl, rfl, rfl, fun hstdio => ?_⟩
    have hnet : isNetworkTool serverName tool.name transport = true := by
      simp only [isNetworkTool, Bool.or_eq_true] at hstdio ⊢
      exact Or.inl (hstdio.resolve_right (by decide))
    have hperm : registeredPermission reader serverName transport tool = "network" := by
      rw [registeredPermission, if_pos hnet]
    simp [hperm, requiresMcpConfirmation, riskyMcpPermissions]
  · rw [if_neg hvalid] at h
    cases h

theorem mem_putTool {tools : Table RegisteredTool} {tool x : RegisteredTool}
    (h : x ∈ (putTool tools tool).rows) : x = tool ∨ x ∈ tools.rows := by
  unfold putTool at h
  cases hi : tools.insert? tool with
  | some tools' =>
    rw [hi] at h
    have h : x ∈ tools'.rows := h
    rw [Table.rows_insert? hi] at h
    rcases List.mem_append.mp h with h | h
    · exact Or.inr h
    · exact Or.inl (List.mem_singleton.mp h)
  | none =>
    rw [hi] at h
    exact Table.mem_write h

theorem mcpTool_of_serverTools {reader : TextReader} {serverName transport : String}
    {catalog : List McpCatalogTool} {tools tools' : Table RegisteredTool}
    (h : serverTools reader serverName transport tools catalog = some tools') :
    ∀ tool ∈ tools'.rows, tool ∈ tools.rows ∨ ∃ id, McpTool tool serverName id := by
  induction catalog generalizing tools with
  | nil =>
    obtain rfl := Option.some.inj h
    exact fun tool hmem => Or.inl hmem
  | cons entry rest ih =>
    rw [serverTools] at h
    split at h
    · cases h
    · next registered hentry =>
      split at h
      · cases h
      · next tools₁ hinsert =>
        intro tool hmem
        rcases ih h tool hmem with hmem | hmem
        · rw [Table.rows_insert? hinsert] at hmem
          rcases List.mem_append.mp hmem with hmem | hmem
          · exact Or.inl hmem
          · rw [List.mem_singleton.mp hmem]
            exact Or.inr ⟨_, mcpTool_of_catalog hentry⟩
        · exact Or.inr hmem

theorem mem_foldl_putTool {new : List RegisteredTool} {tools : Table RegisteredTool}
    {tool : RegisteredTool} (h : tool ∈ (new.foldl putTool tools).rows) :
    tool ∈ new ∨ tool ∈ tools.rows := by
  induction new generalizing tools with
  | nil => exact Or.inr h
  | cons a rest ih =>
    rcases ih h with h | h
    · exact Or.inl (List.mem_cons_of_mem a h)
    · rcases mem_putTool h with rfl | h
      · exact Or.inl List.mem_cons_self
      · exact Or.inr h

theorem mcpTool_of_putServer {reader : TextReader} {tools : Table RegisteredTool}
    (htools : ∀ tool ∈ tools.rows, ∃ serverName id, McpTool tool serverName id)
    (listing : McpListing) :
    ∀ tool ∈ (putServer reader tools listing).rows, ∃ serverName id,
      McpTool tool serverName id := by
  intro tool hmem
  unfold putServer at hmem
  split at hmem
  · next new hs =>
    obtain ⟨catalog, -, hcatalog⟩ := Option.bind_eq_some_iff.mp hs
    rcases mem_foldl_putTool hmem with hmem | hmem
    · rcases mcpTool_of_serverTools hcatalog tool hmem with hmem | hid
      · exact absurd hmem List.not_mem_nil
      · exact ⟨listing.serverName, hid⟩
    · exact htools tool hmem
  · exact htools tool hmem

theorem mcpTool_of_gatherTools (reader : TextReader) (listings : List McpListing) :
    ∀ tool ∈ (gatherTools reader listings).rows, ∃ serverName id, McpTool tool serverName id := by
  refine List.foldlRecOn (motive := fun tools : Table RegisteredTool => ∀ tool ∈ tools.rows,
      ∃ serverName id, McpTool tool serverName id) listings (putServer reader) ?_
    fun tools htools listing _ => mcpTool_of_putServer htools listing
  exact fun tool hmem => absurd hmem List.not_mem_nil

namespace UnifiedToolRegistry

/-- `refresh_mcp_tools`: one assignment replaces the whole snapshot. -/
def refreshMcpTools (registry : UnifiedToolRegistry) (reader : TextReader)
    (listings : List McpListing) : UnifiedToolRegistry :=
  { registry with
    mcpTools := gatherTools reader listings
    mcp := mcpTool_of_gatherTools reader listings }

variable {registry registry' : UnifiedToolRegistry} {tool : RegisteredTool} {name : String}

theorem name_of_get (h : registry.get name = some tool) : tool.manifest.name = name := by
  rcases Option.or_eq_some_iff.mp h with h | ⟨-, h⟩
  · exact (Table.get?_eq_some.mp h).2
  · exact (Table.get?_eq_some.mp h).2

theorem mem_listTools :
    tool ∈ registry.listTools ↔ tool ∈ registry.pluginTools.rows ∨
      tool ∈ registry.mcpTools.rows := by
  rw [listTools, List.mem_insertionSort, List.mem_append]

/-- A name outside the `mcp.` names keeps its meaning as long as the plugins stay. -/
theorem get_eq_of_not_mcp (hname : name.toList.take 4 ≠ "mcp.".toList)
    (h : registry'.pluginTools = registry.pluginTools) :
    registry'.get name = registry.get name := by
  have hnone (r : UnifiedToolRegistry) : r.mcpTools.get? name = none := by
    refine Table.get?_eq_none.mpr fun tool hmem heq => hname ?_
    obtain ⟨serverName, id, hmcp⟩ := r.mcp tool hmem
    have heq : mcpToolName serverName id = name := hmcp.name ▸ heq
    rw [← heq, mcpToolName]
    simp
  rw [get, get, h, hnone, hnone]

end UnifiedToolRegistry

end AgentDemo
