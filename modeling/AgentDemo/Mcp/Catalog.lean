import AgentDemo.Mcp.Registry

/-! `refresh_mcp_tools` on catalogs as they arrive: JSON objects that nobody has validated. -/
namespace AgentDemo

inductive PyFloat where
  | finite (q : ℚ)
  | infinite (negative : Bool)
  | nan

/-- A JSON value as `json.loads` delivers it. -/
inductive PyJson where
  | none
  | bool (b : Bool)
  | int (n : ℤ)
  | float (x : PyFloat)
  | str (s : String)
  | list (items : List PyJson)
  | dict (fields : List (String × PyJson))

abbrev PyDict := List (String × PyJson)

def PyDict.find? (d : PyDict) (key : String) : Option PyJson := (List.find? (·.1 = key) d).map (·.2)

/-- `d.get(key)`. -/
def PyDict.get (d : PyDict) (key : String) : PyJson := (d.find? key).getD .none

/-- `{**d, key: value}`. -/
def PyDict.put (d : PyDict) (key : String) (value : PyJson) : PyDict :=
  d.filter (·.1 ≠ key) ++ [(key, value)]

def PyJson.truthy : PyJson → Bool
  | .none => false
  | .bool b => b
  | .int n => n ≠ 0
  | .float (.finite q) => q ≠ 0
  | .float _ => true
  | .str s => s ≠ ""
  | .list items => !items.isEmpty
  | .dict fields => !fields.isEmpty

/-- `x or y`. -/
def PyJson.or (x y : PyJson) : PyJson := if x.truthy then x else y

mutual

/-- The value among the rational JSON values; infinities and NaN have no place there. -/
def PyJson.toJson : PyJson → Json
  | .none => .null
  | .bool b => .bool b
  | .int n => .num n
  | .float (.finite q) => .num q
  | .float _ => .null
  | .str s => .str s
  | .list items => .arr (PyJson.toJsonItems items)
  | .dict fields => .obj (PyJson.toJsonFields fields)

def PyJson.toJsonItems : List PyJson → List Json
  | [] => []
  | x :: xs => x.toJson :: PyJson.toJsonItems xs

def PyJson.toJsonFields : List (String × PyJson) → JsonObject
  | [] => []
  | (key, x) :: xs => (key, x.toJson) :: PyJson.toJsonFields xs

end

/-- `str(value)` and `int(text)`. -/
structure CatalogReader extends TextReader where
  str : PyJson → String
  str_text : ∀ s, str (.str s) = s
  int : String → Option ℤ

inductive CatalogError where
  | valueError
  | typeError
  | keyError
  | attributeError
  | overflowError
  deriving DecidableEq, Repr

/-- `except (ValueError, TypeError, KeyError)`. -/
def CatalogError.caught : CatalogError → Bool
  | .valueError | .typeError | .keyError => true
  | .attributeError | .overflowError => false

/-- `tool.get("annotations") or {}`, as far as its `get` is called next. -/
def annotationsOf (entry : PyDict) : Except CatalogError PyDict :=
  match (entry.get "annotations").or (.dict []) with
  | .dict annotations => .ok annotations
  | _ => .error .attributeError

/-- The value that `normalize_mcp_permission` gets. -/
def permissionValue (annotations entry : PyDict) : PyJson :=
  (annotations.get "permission").or (entry.get "permission")

/-- The `strip` of `normalize_mcp_permission`. -/
def checkPermission (permission : PyJson) : Except CatalogError Unit :=
  if !permission.truthy then .ok ()
  else
    match permission with
    | .str _ => .ok ()
    | _ => .error .attributeError

def PyJson.text? : PyJson → Option String
  | .str s => some s
  | _ => Option.none

/-- `int(value)`. -/
def intOf (r : CatalogReader) : PyJson → Except CatalogError ℤ
  | .none => .error .typeError
  | .bool b => .ok (if b then 1 else 0)
  | .int n => .ok n
  | .float (.finite q) => .ok (q.num.tdiv q.den)
  | .float (.infinite _) => .error .overflowError
  | .float .nan => .error .valueError
  | .str s =>
    match r.int s with
    | some n => .ok n
    | none => .error .valueError
  | .list _ => .error .typeError
  | .dict _ => .error .typeError

/-- `int(tool.get("timeout_seconds") or 30)`. -/
def timeoutOf (r : CatalogReader) (entry : PyDict) : Except CatalogError ℤ :=
  intOf r ((entry.get "timeout_seconds").or (.int 30))

def inputSchemaOf (entry : PyDict) : PyJson :=
  ((entry.get "inputSchema").or (entry.get "input_schema")).or (.dict [("type", .str "object")])

def outputStrategyOf (entry : PyDict) : PyJson := (entry.get "output_strategy").or (.dict [])

def isDict : PyJson → Bool
  | .dict _ => true
  | _ => false

/-- The types of the manifest fields that come from the entry as they are. -/
def manifestTypesOk (entry : PyDict) (timeout : ℤ) : Bool :=
  isDict (inputSchemaOf entry) && isDict (outputStrategyOf entry) &&
    (match entry.get "outputSchema" with
      | .none | .dict _ => true
      | _ => false) &&
    0 < timeout && timeout ≤ 300

/-- What `mcp_tool_to_registered_tool` reads from an entry once its fields have their types. -/
def catalogTool (r : CatalogReader) (annotations entry : PyDict) (name : PyJson) :
    McpCatalogTool where
  name := r.str name
  description :=
    if (entry.get "description").truthy then some (r.str (entry.get "description")) else none
  annotatedPermission := (annotations.get "permission").text?
  permission := (entry.get "permission").text?
  annotatedConfirmation := (annotations.get "requires_confirmation").truthy
  requiresConfirmation := (entry.get "requires_confirmation").truthy
  inputSchema :=
    match inputSchemaOf entry with
    | .dict schema => PyJson.toJsonFields schema
    | _ => []
  enabled := ((entry.find? "enabled").getD (.bool true)).truthy

/-- `mcp_tool_to_registered_tool` with its exceptions, in the order of its expressions. -/
def entryToRegisteredTool (r : CatalogReader) (serverName transport : String) (entry : PyDict) :
    Except CatalogError RegisteredTool :=
  match annotationsOf entry with
  | .error e => .error e
  | .ok annotations =>
    match checkPermission (permissionValue annotations entry) with
    | .error e => .error e
    | .ok () =>
      match entry.find? "name" with
      | none => .error .keyError
      | some name =>
        match timeoutOf r entry with
        | .error e => .error e
        | .ok timeout =>
          if manifestTypesOk entry timeout then
            match mcpToolToRegisteredTool r.toTextReader serverName transport
                (catalogTool r annotations entry name) with
            | some registered => .ok registered
            | none => .error .valueError
          else .error .valueError

def validServerName (name : String) : Bool :=
  name ≠ "" && name.toList.all fun c => c.isAlphanum || c = '_' || c = '-'

/-- An enabled server and what its configured catalog or its transport gives. -/
structure McpServer where
  name : String
  transport : String
  values : Except String (List PyDict)
  valid : validServerName name = true

/-- The servers of a configuration. -/
structure McpServers where
  servers : List McpServer
  unique : (servers.map McpServer.name).Nodup

/-- The end of `_catalog`: disabled entries go, the routing identity is the configured one. -/
def McpServer.enabledEntries (server : McpServer) (values : List PyDict) : List PyDict :=
  (values.filter fun item => ((item.find? "enabled").getD (.bool true)).truthy).map fun item =>
    (item.put "server_name" (.str server.name)).put "transport" (.str server.transport)

def McpServer.listTools (server : McpServer) : Except String (List PyDict) :=
  match server.values with
  | .error e => .error e
  | .ok values => .ok (server.enabledEntries values)

/-- The loop over the tools of one server, from the tools it has already. -/
def collectTools (r : CatalogReader) (server : McpServer) (tools : Table RegisteredTool) :
    List PyDict → Except CatalogError (Table RegisteredTool)
  | [] => .ok tools
  | entry :: rest =>
    match entryToRegisteredTool r server.name server.transport entry with
    | .error e => .error e
    | .ok registered =>
      match tools.insert? registered with
      | none => .error .valueError
      | some tools => collectTools r server tools rest

structure McpSnapshot where
  tools : Table RegisteredTool
  errors : List (String × String)

/-- The loop of `refresh_mcp_tools` over the servers. -/
def collectServers (r : CatalogReader) (s : McpSnapshot) :
    List McpServer → Except CatalogError McpSnapshot
  | [] => .ok s
  | server :: rest =>
    match server.listTools with
    | .error e => collectServers r { s with errors := s.errors ++ [(server.name, e)] } rest
    | .ok entries =>
      match collectTools r server .empty entries with
      | .ok tools => collectServers r { s with tools := tools.rows.foldl putTool s.tools } rest
      | .error e =>
        if e.caught then
          collectServers r { s with errors := s.errors ++
            [(server.name, "MCP server " ++ server.name ++ ": invalid tool catalog")] } rest
        else .error e

/-- `refresh_mcp_tools` before its last line: the new snapshot, or the exception it raises. -/
def McpServers.snapshot (r : CatalogReader) (servers : McpServers) :
    Except CatalogError McpSnapshot :=
  collectServers r ⟨.empty, []⟩ servers.servers

theorem mcpTool_of_entry {r : CatalogReader} {serverName transport : String} {entry : PyDict}
    {tool : RegisteredTool}
    (h : entryToRegisteredTool r serverName transport entry = .ok tool) :
    ∃ id, McpTool tool serverName id := by
  unfold entryToRegisteredTool at h
  repeat' split at h
  all_goals try cases h
  next hcatalog => exact ⟨_, mcpTool_of_catalog hcatalog⟩

theorem mcpTool_of_collectTools {r : CatalogReader} {server : McpServer}
    {entries : List PyDict} {tools tools' : Table RegisteredTool}
    (h : collectTools r server tools entries = .ok tools') :
    ∀ tool ∈ tools'.rows, tool ∈ tools.rows ∨ ∃ id, McpTool tool server.name id := by
  induction entries generalizing tools with
  | nil =>
    obtain rfl := Except.ok.inj h
    exact fun tool hmem => .inl hmem
  | cons entry rest ih =>
    rw [collectTools] at h
    split at h
    · cases h
    · next registered hentry =>
      split at h
      · cases h
      · next tools₁ hinsert =>
        intro tool hmem
        rcases ih h tool hmem with hmem | hmem
        · rw [Table.rows_insert? hinsert] at hmem
          rcases List.mem_append.mp hmem with hmem | hmem
          · exact .inl hmem
          · rw [List.mem_singleton.mp hmem]
            exact .inr (mcpTool_of_entry hentry)
        · exact .inr hmem

theorem mcpTool_of_collectServers {r : CatalogReader} {servers : List McpServer}
    {s s' : McpSnapshot} (h : collectServers r s servers = .ok s')
    (hs : ∀ tool ∈ s.tools.rows, ∃ serverName id, McpTool tool serverName id) :
    ∀ tool ∈ s'.tools.rows, ∃ serverName id, McpTool tool serverName id := by
  induction servers generalizing s with
  | nil =>
    obtain rfl := Except.ok.inj h
    exact hs
  | cons server rest ih =>
    rw [collectServers] at h
    split at h
    · exact ih h hs
    · split at h
      · next tools htools =>
        refine ih h fun tool hmem => ?_
        rcases mem_foldl_putTool hmem with hmem | hmem
        · rcases mcpTool_of_collectTools htools tool hmem with hmem | ⟨id, hid⟩
          · exact absurd hmem List.not_mem_nil
          · exact ⟨_, id, hid⟩
        · exact hs tool hmem
      · split at h
        · exact ih h hs
        · cases h

theorem mcpTool_of_snapshot {r : CatalogReader} {servers : McpServers} {s : McpSnapshot}
    (h : servers.snapshot r = .ok s) :
    ∀ tool ∈ s.tools.rows, ∃ serverName id, McpTool tool serverName id :=
  mcpTool_of_collectServers h fun _ hmem => absurd hmem List.not_mem_nil

/-- `refresh_mcp_tools`: the registry and the errors afterwards, or the exception it raises, which
leaves the old snapshot in place. -/
def UnifiedToolRegistry.refresh (registry : UnifiedToolRegistry) (r : CatalogReader)
    (servers : McpServers) :
    Except CatalogError (UnifiedToolRegistry × List (String × String)) :=
  match h : servers.snapshot r with
  | .error e => .error e
  | .ok s =>
    .ok ({ registry with mcpTools := s.tools, mcp := mcpTool_of_snapshot h }, s.errors)

/-! The listings that the runs of agents refresh from are catalogs that have been read so far. -/

theorem mcpToolToRegisteredTool_of_entry {r : CatalogReader} {serverName transport : String}
    {entry : PyDict} {tool : RegisteredTool}
    (h : entryToRegisteredTool r serverName transport entry = .ok tool) : ∃ annotations name,
      mcpToolToRegisteredTool r.toTextReader serverName transport
        (catalogTool r annotations entry name) = some tool := by
  unfold entryToRegisteredTool at h
  repeat' split at h
  all_goals try cases h
  next hcatalog => exact ⟨_, _, hcatalog⟩

theorem serverTools_of_collectTools {r : CatalogReader} {server : McpServer}
    {entries : List PyDict} {tools tools' : Table RegisteredTool}
    (h : collectTools r server tools entries = .ok tools') : ∃ catalog,
      serverTools r.toTextReader server.name server.transport tools catalog = some tools' := by
  induction entries generalizing tools with
  | nil =>
    obtain rfl := Except.ok.inj h
    exact ⟨[], rfl⟩
  | cons entry rest ih =>
    rw [collectTools] at h
    split at h
    · cases h
    · next registered hentry =>
      split at h
      · cases h
      · next tools₁ hinsert =>
        obtain ⟨annotations, name, hcatalog⟩ := mcpToolToRegisteredTool_of_entry hentry
        obtain ⟨catalog, hrest⟩ := ih h
        exact ⟨catalogTool r annotations entry name :: catalog,
          by simp only [serverTools, hcatalog, hinsert, hrest]⟩

theorem gathered_of_collectServers {r : CatalogReader} {servers : List McpServer}
    {s s' : McpSnapshot} (h : collectServers r s servers = .ok s') : ∃ listings,
      s'.tools = List.foldl (putServer r.toTextReader) s.tools listings := by
  induction servers generalizing s with
  | nil =>
    obtain rfl := Except.ok.inj h
    exact ⟨[], rfl⟩
  | cons server rest ih =>
    rw [collectServers] at h
    split at h
    · obtain ⟨listings, hrest⟩ := ih h
      exact ⟨listings, hrest⟩
    · split at h
      · next tools htools =>
        obtain ⟨catalog, hcatalog⟩ := serverTools_of_collectTools htools
        obtain ⟨listings, hrest⟩ := ih h
        refine ⟨⟨server.name, server.transport, some catalog⟩ :: listings, hrest.trans ?_⟩
        simp only [List.foldl_cons, putServer, Option.bind_some, hcatalog]
      · split at h
        · obtain ⟨listings, hrest⟩ := ih h
          exact ⟨listings, hrest⟩
        · cases h

/-- A refresh from catalogs as they arrive is one from listings of them. -/
theorem UnifiedToolRegistry.refresh_eq_refreshMcpTools {registry registry' : UnifiedToolRegistry}
    {r : CatalogReader} {servers : McpServers} {errors : List (String × String)}
    (h : registry.refresh r servers = .ok (registry', errors)) :
    ∃ listings, registry' = registry.refreshMcpTools r.toTextReader listings := by
  unfold UnifiedToolRegistry.refresh at h
  split at h
  · cases h
  · next s hs =>
    obtain ⟨rfl, -⟩ := Prod.mk.inj (Except.ok.inj h)
    obtain ⟨listings, htools⟩ := gathered_of_collectServers hs
    refine ⟨listings, ?_⟩
    simp only [UnifiedToolRegistry.refreshMcpTools, gatherTools, ← htools]

end AgentDemo
