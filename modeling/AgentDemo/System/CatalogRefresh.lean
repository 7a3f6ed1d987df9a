import AgentDemo.Mcp.Catalog
import AgentDemo.Library.PythonNet
import AgentDemo.System.AgentRuns

/-! A refresh of the MCP tools isolates a failed server, unless a catalog makes it raise. -/
namespace AgentDemo

def entryId (r : CatalogReader) (entry : PyDict) : String := r.str (entry.get "name")

/-- The annotations of an entry as an object. -/
def annotationFields (entry : PyDict) : PyDict :=
  match entry.get "annotations" with
  | .dict annotations => annotations
  | _ => []

/-- Every field that is read has a type it can be read at, and the name fits the registry. -/
structure WellFormedEntry (r : CatalogReader) (server : McpServer) (entry : PyDict) : Prop where
  annotations : (entry.get "annotations").truthy = true →
    ∃ d, entry.get "annotations" = .dict d
  permission : (permissionValue (annotationFields entry) entry).truthy = true →
    ∃ s, permissionValue (annotationFields entry) entry = .str s
  named : (entry.find? "name").isSome
  name : validToolName (mcpToolName server.name (entryId r entry)) = true
  timeout : ∃ n, timeoutOf r entry = .ok n ∧ manifestTypesOk entry n = true

/-- All enabled tools are well formed and no two have one identifier. -/
def WellFormedCatalog (r : CatalogReader) (server : McpServer) (entries : List PyDict) : Prop :=
  (∀ entry ∈ entries, WellFormedEntry r server entry) ∧ (entries.map (entryId r)).Nodup

/-- The entry has annotations or a permission of a type whose methods are missing, or an infinite
timeout. -/
def Breaks (entry : PyDict) : Prop :=
  ((entry.get "annotations").truthy = true ∧ ∀ d, entry.get "annotations" ≠ .dict d) ∨
    ((permissionValue (annotationFields entry) entry).truthy = true ∧
      ∀ s, permissionValue (annotationFields entry) entry ≠ .str s) ∨
    ((entry.find? "name").isSome ∧ ∃ negative,
      entry.get "timeout_seconds" = .float (.infinite negative))

/-- The first enabled entry that cannot be registered breaks the refresh. -/
def McpServer.BreaksRefresh (r : CatalogReader) (server : McpServer) : Prop :=
  ∃ before entry after, server.listTools = .ok (before ++ entry :: after) ∧
    WellFormedCatalog r server before ∧ Breaks entry

variable {r : CatalogReader} {server : McpServer}

theorem annotationsOf_cases (entry : PyDict) :
    (annotationsOf entry = .ok (annotationFields entry) ∧
        ((entry.get "annotations").truthy = true → ∃ d, entry.get "annotations" = .dict d)) ∨
      (annotationsOf entry = .error .attributeError ∧
        (entry.get "annotations").truthy = true ∧ ∀ d, entry.get "annotations" ≠ .dict d) := by
  unfold annotationsOf annotationFields PyJson.or
  cases ht : (entry.get "annotations").truthy with
  | false =>
    refine .inl ⟨?_, by simp⟩
    cases ha : entry.get "annotations" with
    | dict d =>
      have hd : d = [] := by simpa [ha, PyJson.truthy] using ht
      simp [hd]
    | _ => rfl
  | true =>
    cases ha : entry.get "annotations" with
    | dict d => exact .inl ⟨rfl, fun _ => ⟨d, rfl⟩⟩
    | _ => exact .inr ⟨rfl, rfl, by simp⟩

theorem checkPermission_cases (permission : PyJson) :
    (checkPermission permission = .ok () ∧
        (permission.truthy = true → ∃ s, permission = .str s)) ∨
      (checkPermission permission = .error .attributeError ∧ permission.truthy = true ∧
        ∀ s, permission ≠ .str s) := by
  unfold checkPermission
  cases ht : permission.truthy with
  | false => exact .inl ⟨rfl, by simp⟩
  | true =>
    cases permission with
    | str s => exact .inl ⟨rfl, fun _ => ⟨s, rfl⟩⟩
    | _ => exact .inr ⟨rfl, rfl, by simp⟩

theorem timeoutOf_uncaught {entry : PyDict} {e : CatalogError} (h : timeoutOf r entry = .error e) :
    e.caught = false ↔ ∃ negative, entry.get "timeout_seconds" = .float (.infinite negative) := by
  unfold timeoutOf PyJson.or at h
  cases ht : (entry.get "timeout_seconds").truthy with
  | false =>
    rw [ht] at h
    cases h
  | true =>
    rw [ht] at h
    simp only [if_true] at h
    generalize entry.get "timeout_seconds" = v at h ht
    cases v with
    | none => cases h; simp [CatalogError.caught]
    | bool b => cases h
    | int n => cases h
    | float x =>
      cases x with
      | finite q => cases h
      | infinite negative => cases h; simp [CatalogError.caught]
      | nan => cases h; simp [CatalogError.caught]
    | str s =>
      simp only [intOf] at h
      split at h
      · cases h
      · cases h; simp [CatalogError.caught]
    | list items => cases h; simp [CatalogError.caught]
    | dict fields => cases h; simp [CatalogError.caught]

theorem timeoutOf_infinite {entry : PyDict} {negative : Bool}
    (h : entry.get "timeout_seconds" = .float (.infinite negative)) :
    timeoutOf r entry = .error .overflowError := by
  simp [timeoutOf, PyJson.or, h, PyJson.truthy, intOf]

/-- A well-formed entry is registered under its own name. -/
theorem entryToRegisteredTool_of_wellFormed {entry : PyDict} (h : WellFormedEntry r server entry) :
    ∃ tool, entryToRegisteredTool r server.name server.transport entry = .ok tool ∧
      McpTool tool server.name (entryId r entry) := by
  obtain ⟨name, hname⟩ := Option.isSome_iff_exists.mp h.named
  obtain ⟨n, hn, htypes⟩ := h.timeout
  have hid : entryId r entry = r.str name := by simp [entryId, PyDict.get, hname]
  have hann : annotationsOf entry = .ok (annotationFields entry) := by
    rcases annotationsOf_cases entry with ⟨ha, -⟩ | ⟨-, ht, hd⟩
    · exact ha
    · obtain ⟨d, hd'⟩ := h.annotations ht
      exact absurd hd' (hd d)
  have hperm : checkPermission (permissionValue (annotationFields entry) entry) = .ok () := by
    rcases checkPermission_cases (permissionValue (annotationFields entry) entry) with
      ⟨hp, -⟩ | ⟨-, ht, hs⟩
    · exact hp
    · obtain ⟨s, hs'⟩ := h.permission ht
      exact absurd hs' (hs s)
  have hvalid := h.name
  rw [hid] at hvalid
  have htool : mcpToolToRegisteredTool r.toTextReader server.name server.transport
      (catalogTool r (annotationFields entry) entry name) ≠ none := by
    simp [mcpToolToRegisteredTool, catalogTool, hvalid]
  obtain ⟨tool, htool⟩ := Option.ne_none_iff_exists'.mp htool
  refine ⟨tool, ?_, ?_⟩
  · simp [entryToRegisteredTool, hann, hperm, hname, hn, htypes, htool]
  · rw [hid]
    exact mcpTool_of_catalog htool

/-- What the conversion of an entry can do. -/
theorem entryToRegisteredTool_cases (r : CatalogReader) (server : McpServer) (entry : PyDict) :
    (∃ tool, entryToRegisteredTool r server.name server.transport entry = .ok tool ∧
        WellFormedEntry r server entry ∧ ¬ Breaks entry) ∨
      (∃ e, entryToRegisteredTool r server.name server.transport entry = .error e ∧
        ¬ WellFormedEntry r server entry ∧ (e.caught = false ↔ Breaks entry)) := by
  rcases annotationsOf_cases entry with ⟨hann, hann'⟩ | ⟨hann, ht, hd⟩
  swap
  · refine .inr ⟨.attributeError, by simp [entryToRegisteredTool, hann], ?_, ?_⟩
    · intro h
      obtain ⟨d, hd'⟩ := h.annotations ht
      exact hd d hd'
    · exact ⟨fun _ => .inl ⟨ht, hd⟩, fun _ => rfl⟩
  rcases checkPermission_cases (permissionValue (annotationFields entry) entry) with
    ⟨hperm, hperm'⟩ | ⟨hperm, ht, hs⟩
  swap
  · refine .inr ⟨.attributeError, by simp [entryToRegisteredTool, hann, hperm], ?_, ?_⟩
    · intro h
      obtain ⟨s, hs'⟩ := h.permission ht
      exact hs s hs'
    · exact ⟨fun _ => .inr (.inl ⟨ht, hs⟩), fun _ => rfl⟩
  have hbreaks : Breaks entry ↔ (entry.find? "name").isSome ∧ ∃ negative,
      entry.get "timeout_seconds" = .float (.infinite negative) := by
    constructor
    · rintro (⟨ht, hd⟩ | ⟨ht, hs⟩ | h)
      · obtain ⟨d, hd'⟩ := hann' ht
        exact absurd hd' (hd d)
      · obtain ⟨s, hs'⟩ := hperm' ht
        exact absurd hs' (hs s)
      · exact h
    · exact fun h => .inr (.inr h)
  cases hname : entry.find? "name" with
  | none =>
    refine .inr ⟨.keyError, by simp [entryToRegisteredTool, hann, hperm, hname], ?_, ?_⟩
    · intro h
      have := h.named
      rw [hname] at this
      cases this
    · simp [CatalogError.caught, hbreaks, hname]
  | some name =>
    cases htime : timeoutOf r entry with
    | error e =>
      refine .inr ⟨e, by simp [entryToRegisteredTool, hann, hperm, hname, htime], ?_, ?_⟩
      · intro h
        obtain ⟨n, hn, -⟩ := h.timeout
        rw [htime] at hn
        cases hn
      · rw [timeoutOf_uncaught htime, hbreaks, hname]
        simp
    | ok n =>
      have hfinite : ¬ Breaks entry := by
        rw [hbreaks]
        rintro ⟨-, negative, hinf⟩
        rw [timeoutOf_infinite hinf] at htime
        cases htime
      cases htypes : manifestTypesOk entry n with
      | false =>
        refine .inr ⟨.valueError, ?_, ?_, ?_⟩
        · simp [entryToRegisteredTool, hann, hperm, hname, htime, htypes]
        · intro h
          obtain ⟨m, hm, htypes'⟩ := h.timeout
          rw [htime] at hm
          obtain rfl := Except.ok.inj hm
          rw [htypes] at htypes'
          cases htypes'
        · simp [CatalogError.caught, hfinite]
      | true =>
        have hid : entryId r entry = r.str name := by simp [entryId, PyDict.get, hname]
        by_cases hvalid : validToolName (mcpToolName server.name (r.str name)) = true
        · have hwf : WellFormedEntry r server entry :=
            ⟨hann', hperm', by simp [hname], by rw [hid]; exact hvalid, ⟨n, htime, htypes⟩⟩
          obtain ⟨tool, htool, -⟩ := entryToRegisteredTool_of_wellFormed hwf
          exact .inl ⟨tool, htool, hwf, hfinite⟩
        · refine .inr ⟨.valueError, ?_, ?_, by simp [CatalogError.caught, hfinite]⟩
          · simp [entryToRegisteredTool, hann, hperm, hname, htime, htypes,
              mcpToolToRegisteredTool, catalogTool, hvalid]
          · intro h
            exact hvalid (hid ▸ h.name)

theorem mcpToolName_injective (serverName : String) :
    Function.Injective (mcpToolName serverName) := by
  intro a b h
  have h := congrArg String.toList h
  simp only [mcpToolName, String.toList_append] at h
  exact String.toList_injective (List.append_cancel_left h)

/-- The entries are well formed and none of their names is taken. -/
def Fits (r : CatalogReader) (server : McpServer) (tools : Table RegisteredTool)
    (entries : List PyDict) : Prop :=
  WellFormedCatalog r server entries ∧
    ∀ entry ∈ entries, tools.get? (mcpToolName server.name (entryId r entry)) = none

theorem fits_cons {tools tools' : Table RegisteredTool} {tool : RegisteredTool} {entry : PyDict}
    {rest : List PyDict} (hwf : WellFormedEntry r server entry)
    (hname : tool.manifest.name = mcpToolName server.name (entryId r entry))
    (hinsert : tools.insert? tool = some tools') :
    Fits r server tools (entry :: rest) ↔ Fits r server tools' rest := by
  have hfree : tools.get? (mcpToolName server.name (entryId r entry)) = none := by
    rw [← hname]
    exact Table.insert?_fresh hinsert
  have hget (other : PyDict) :
      tools'.get? (mcpToolName server.name (entryId r other)) = none ↔
        entryId r entry ≠ entryId r other ∧
          tools.get? (mcpToolName server.name (entryId r other)) = none := by
    rw [Table.get?_insert? hinsert, key_registeredTool, hname]
    by_cases heq : entryId r entry = entryId r other
    · simp [heq]
    · have hne : mcpToolName server.name (entryId r entry) ≠
          mcpToolName server.name (entryId r other) := fun h => heq (mcpToolName_injective _ h)
      simp [hne, heq]
  constructor
  · rintro ⟨⟨hall, hnodup⟩, hfresh⟩
    rw [List.map_cons, List.nodup_cons] at hnodup
    refine ⟨⟨fun e he => hall e (List.mem_cons_of_mem _ he), hnodup.2⟩, fun e he => ?_⟩
    refine (hget e).mpr ⟨fun heq => hnodup.1 ?_, hfresh e (List.mem_cons_of_mem _ he)⟩
    rw [heq]
    exact List.mem_map_of_mem he
  · rintro ⟨⟨hall, hnodup⟩, hfresh⟩
    refine ⟨⟨?_, ?_⟩, ?_⟩
    · exact List.forall_mem_cons.mpr ⟨hwf, hall⟩
    · rw [List.map_cons, List.nodup_cons]
      refine ⟨fun hmem => ?_, hnodup⟩
      obtain ⟨e, he, heq⟩ := List.mem_map.mp hmem
      exact ((hget e).mp (hfresh e he)).1 heq.symm
    · exact List.forall_mem_cons.mpr ⟨hfree, fun e he => ((hget e).mp (hfresh e he)).2⟩

/-- The loop over one catalog registers all of it, or fails; it breaks the refresh exactly at the
first entry that cannot be registered. -/
theorem collectTools_cases (r : CatalogReader) (server : McpServer) (entries : List PyDict)
    (tools : Table RegisteredTool) :
    (∃ tools', collectTools r server tools entries = .ok tools' ∧ Fits r server tools entries ∧
        (∀ entry ∈ entries, ∃ tool,
          entryToRegisteredTool r server.name server.transport entry = .ok tool ∧
            tools'.get? (mcpToolName server.name (entryId r entry)) = some tool) ∧
        ∀ key tool, tools.get? key = some tool → tools'.get? key = some tool) ∨
      (∃ e, collectTools r server tools entries = .error e ∧ ¬ Fits r server tools entries ∧
        (e.caught = false ↔ ∃ before entry after, entries = before ++ entry :: after ∧
          Fits r server tools before ∧ Breaks entry)) := by
  induction entries generalizing tools with
  | nil => exact .inl ⟨tools, rfl, ⟨⟨by simp, by simp⟩, by simp⟩, by simp, fun _ _ h => h⟩
  | cons entry rest ih =>
    rcases entryToRegisteredTool_cases r server entry with
      ⟨tool, htool, hwf, hsound⟩ | ⟨e, herror, hbad, hcaught⟩
    swap
    · refine .inr
        ⟨e, by simp [collectTools, herror], fun h => hbad (h.1.1 _ List.mem_cons_self), ?_⟩
      rw [hcaught]
      constructor
      · intro hbreaks
        exact ⟨[], entry, rest, rfl, ⟨⟨by simp, by simp⟩, by simp⟩, hbreaks⟩
      · rintro ⟨before, entry', after, heq, hfits, hbreaks⟩
        cases before with
        | nil =>
          obtain ⟨rfl, -⟩ := List.cons.inj heq
          exact hbreaks
        | cons first before =>
          obtain ⟨rfl, -⟩ := List.cons.inj heq
          exact absurd (hfits.1.1 _ List.mem_cons_self) hbad
    · have hname : tool.manifest.name = mcpToolName server.name (entryId r entry) := by
        obtain ⟨tool', htool', hmcp⟩ := entryToRegisteredTool_of_wellFormed hwf
        rw [htool] at htool'
        obtain rfl := Except.ok.inj htool'
        exact hmcp.name
      cases hinsert : tools.insert? tool with
      | none =>
        have htaken (entries : List PyDict) : ¬ Fits r server tools (entry :: entries) := by
          intro hfits
          have hfree : tools.get? (Keyed.key tool) = none := by
            rw [key_registeredTool, hname]
            exact hfits.2 _ List.mem_cons_self
          obtain ⟨tools', h⟩ := Table.insert?_of_fresh hfree
          rw [hinsert] at h
          cases h
        refine .inr ⟨.valueError, by simp [collectTools, htool, hinsert], htaken rest, ?_⟩
        simp only [CatalogError.caught, Bool.true_eq_false, false_iff]
        rintro ⟨before, entry', after, heq, hfits, hbreaks⟩
        cases before with
        | nil =>
          obtain ⟨rfl, -⟩ := List.cons.inj heq
          exact hsound hbreaks
        | cons first before =>
          obtain ⟨rfl, -⟩ := List.cons.inj heq
          exact htaken before hfits
      | some tools₁ =>
        have hstep : collectTools r server tools (entry :: rest) =
            collectTools r server tools₁ rest := by
          simp [collectTools, htool, hinsert]
        rw [hstep]
        rcases ih tools₁ with ⟨tools', hok, hfits, hown, hkeep⟩ | ⟨e, herror, hbad, hcaught⟩
        · have hkeep' (key : String) (t : RegisteredTool) (h : tools.get? key = some t) :
              tools₁.get? key = some t := by
            rw [Table.get?_insert? hinsert]
            split_ifs with hk
            · rw [← hk, Table.insert?_fresh hinsert] at h
              cases h
            · exact h
          refine .inl ⟨tools', hok, (fits_cons hwf hname hinsert).mpr hfits, ?_,
            fun key t h => hkeep key t (hkeep' key t h)⟩
          refine List.forall_mem_cons.mpr ⟨⟨tool, htool, hkeep _ _ ?_⟩, hown⟩
          rw [Table.get?_insert? hinsert, key_registeredTool, hname, if_pos rfl]
        · refine .inr ⟨e, herror, fun h => hbad ((fits_cons hwf hname hinsert).mp h), ?_⟩
          rw [hcaught]
          constructor
          · rintro ⟨before, entry', after, rfl, hfits, hbreaks⟩
            exact ⟨entry :: before, entry', after, rfl, (fits_cons hwf hname hinsert).mpr hfits,
              hbreaks⟩
          · rintro ⟨before, entry', after, heq, hfits, hbreaks⟩
            cases before with
            | nil =>
              obtain ⟨rfl, -⟩ := List.cons.inj heq
              exact absurd hbreaks hsound
            | cons first before =>
              obtain ⟨rfl, rfl⟩ := List.cons.inj heq
              exact ⟨before, entry', after, rfl, (fits_cons hwf hname hinsert).mp hfits, hbreaks⟩

/-- One server of a snapshot: a well-formed catalog is there with all its tools under their own
names, any other contributes no tool and has an error. -/
structure ServerIsolated (r : CatalogReader) (server : McpServer) (s : McpSnapshot) : Prop where
  healthy : ∀ entries, server.listTools = .ok entries → WellFormedCatalog r server entries →
    server.name ∉ s.errors.map (·.1) ∧ ∀ entry ∈ entries, ∃ tool,
      entryToRegisteredTool r server.name server.transport entry = .ok tool ∧
        s.tools.get? (mcpToolName server.name (entryId r entry)) = some tool
  failed : (∀ entries, server.listTools = .ok entries → ¬ WellFormedCatalog r server entries) →
    server.name ∈ s.errors.map (·.1) ∧ ∀ tool ∈ s.tools.rows, tool.serverName ≠ some server.name

/-- What the steps of the servers with the given names may do to a snapshot. -/
structure Grows (names : List String) (s s' : McpSnapshot) : Prop where
  keep : ∀ key tool, s.tools.get? key = some tool → s'.tools.get? key = some tool
  rows : ∀ tool ∈ s'.tools.rows, tool ∈ s.tools.rows ∨
    ∃ serverName ∈ names, ∃ id, McpTool tool serverName id
  errors : ∀ name ∈ s.errors.map (·.1), name ∈ s'.errors.map (·.1)
  newErrors : ∀ name ∈ s'.errors.map (·.1), name ∈ s.errors.map (·.1) ∨ name ∈ names

theorem Grows.refl (names : List String) (s : McpSnapshot) : Grows names s s :=
  ⟨fun _ _ h => h, fun _ h => .inl h, fun _ h => h, fun _ h => .inl h⟩

theorem Grows.trans {names names' : List String} {s s' s'' : McpSnapshot} (h : Grows names s s')
    (h' : Grows names' s' s'') : Grows (names ++ names') s s'' where
  keep key tool hget := h'.keep key tool (h.keep key tool hget)
  rows tool hmem := by
    rcases h'.rows tool hmem with hmem | ⟨serverName, hname, hid⟩
    · rcases h.rows tool hmem with hmem | ⟨serverName, hname, hid⟩
      · exact .inl hmem
      · exact .inr ⟨serverName, List.mem_append_left _ hname, hid⟩
    · exact .inr ⟨serverName, List.mem_append_right _ hname, hid⟩
  errors name hmem := h'.errors name (h.errors name hmem)
  newErrors name hmem := by
    rcases h'.newErrors name hmem with hmem | hname
    · exact (h.newErrors name hmem).imp_right (List.mem_append_left _)
    · exact .inr (List.mem_append_right _ hname)

/-- Steps of other servers do not disturb a server. -/
theorem ServerIsolated.of_grows {names : List String} {s s' : McpSnapshot}
    (h : ServerIsolated r server s)
    (hgrows : Grows names s s') (hname : server.name ∉ names) : ServerIsolated r server s' where
  healthy entries hlist hwf := by
    obtain ⟨herror, hown⟩ := h.healthy entries hlist hwf
    refine ⟨fun hmem => ?_, fun entry he => ?_⟩
    · exact (hgrows.newErrors _ hmem).elim herror hname
    · obtain ⟨tool, htool, hget⟩ := hown entry he
      exact ⟨tool, htool, hgrows.keep _ _ hget⟩
  failed hbad := by
    obtain ⟨herror, hnone⟩ := h.failed hbad
    refine ⟨hgrows.errors _ herror, fun tool hmem => ?_⟩
    rcases hgrows.rows tool hmem with hmem | ⟨serverName, hmem', id, hid⟩
    · exact hnone tool hmem
    · rw [hid.server]
      exact fun heq => hname (Option.some.inj heq ▸ hmem')

theorem get?_putTool (tools : Table RegisteredTool) (tool : RegisteredTool) (key : String) :
    (putTool tools tool).get? key =
      if tool.manifest.name = key then some tool else tools.get? key := by
  unfold putTool
  cases hinsert : tools.insert? tool with
  | some tools' => exact Table.get?_insert? hinsert key
  | none =>
    simp only [Table.get?_write, key_registeredTool]
    split_ifs with hk
    · cases hget : tools.get? key with
      | some x => rfl
      | none =>
        obtain ⟨tools', h⟩ :=
          Table.insert?_of_fresh (t := tools) (r := tool) (by rw [← hget, ← hk]; rfl)
        rw [hinsert] at h
        cases h
    · rfl

theorem get?_foldl_putTool_of_not_mem {new : List RegisteredTool} {tools : Table RegisteredTool}
    {key : String} (h : key ∉ new.map fun tool => tool.manifest.name) :
    (new.foldl putTool tools).get? key = tools.get? key := by
  induction new generalizing tools with
  | nil => rfl
  | cons tool new ih =>
    rw [List.map_cons, List.mem_cons, not_or] at h
    rw [List.foldl_cons, ih h.2, get?_putTool, if_neg (Ne.symm h.1)]

theorem get?_foldl_putTool {new : List RegisteredTool} {tools : Table RegisteredTool}
    {tool : RegisteredTool} (hnodup : (new.map fun tool => tool.manifest.name).Nodup)
    (h : tool ∈ new) : (new.foldl putTool tools).get? tool.manifest.name = some tool := by
  induction new generalizing tools with
  | nil => cases h
  | cons first new ih =>
    rw [List.map_cons, List.nodup_cons] at hnodup
    rw [List.foldl_cons]
    rcases List.mem_cons.mp h with rfl | h
    · rw [get?_foldl_putTool_of_not_mem hnodup.1, get?_putTool, if_pos rfl]
    · exact ih hnodup.2 h

theorem dot_not_mem_serverName (server : McpServer) : '.' ∉ server.name.toList := by
  intro h
  have hvalid := server.valid
  simp only [validServerName, Bool.and_eq_true, List.all_eq_true] at hvalid
  have := hvalid.2 '.' h
  revert this
  decide

theorem fits_empty {entries : List PyDict} :
    Fits r server .empty entries ↔ WellFormedCatalog r server entries := by
  simp [Fits]

/-- The tools of a snapshot belong to servers with plain names outside the given ones. -/
def Clear (names : List String) (s : McpSnapshot) : Prop :=
  (∀ tool ∈ s.tools.rows, ∃ serverName id, McpTool tool serverName id ∧
    '.' ∉ serverName.toList ∧ serverName ∉ names) ∧ ∀ name ∈ s.errors.map (·.1), name ∉ names

/-- The step of one server that does not break the refresh. -/
theorem collectServers_step (hsound : ¬ server.BreaksRefresh r) (rest : List McpServer)
    {s : McpSnapshot} (hclear : Clear [server.name] s) :
    ∃ s', collectServers r s (server :: rest) = collectServers r s' rest ∧
      ServerIsolated r server s' ∧ Grows [server.name] s s' := by
  obtain ⟨hrows, herrors⟩ := hclear
  have hforeign : ∀ tool ∈ s.tools.rows, tool.serverName ≠ some server.name := by
    intro tool hmem heq
    obtain ⟨serverName, id, hid, -, hne⟩ := hrows tool hmem
    rw [hid.server] at heq
    exact hne (List.mem_singleton.mpr (Option.some.inj heq))
  have hfailed (message : String)
      (hbad : ∀ entries, server.listTools = .ok entries → ¬ WellFormedCatalog r server entries) :
      ServerIsolated r server { s with errors := s.errors ++ [(server.name, message)] } ∧
        Grows [server.name] s { s with errors := s.errors ++ [(server.name, message)] } := by
    refine ⟨⟨fun entries hlist hwf => absurd hwf (hbad entries hlist),
      fun _ => ⟨by simp, hforeign⟩⟩,
      fun _ _ h => h, fun _ h => .inl h, fun name h => ?_, fun name h => ?_⟩
    · rw [List.map_append]
      exact List.mem_append_left _ h
    · rw [List.map_append] at h
      exact List.mem_append.mp h
  rw [collectServers]
  cases hlist : server.listTools with
  | error e => exact ⟨_, rfl, hfailed e (by rw [hlist]; simp)⟩
  | ok entries =>
    rcases collectTools_cases r server entries .empty with
      ⟨tools, hok, hfits, hown, -⟩ | ⟨e, herror, hbad, hcaught⟩
    · have hmcp : ∀ tool ∈ tools.rows, ∃ id, McpTool tool server.name id := by
        intro tool hmem
        exact (mcpTool_of_collectTools hok tool hmem).resolve_left List.not_mem_nil
      simp only [hok]
      refine ⟨_, rfl, ⟨fun entries' hlist' hwf => ?_, fun hbad => ?_⟩, ?_, ?_, fun _ h => h,
        fun _ h => .inl h⟩
      · rw [hlist] at hlist'
        obtain rfl := Except.ok.inj hlist'
        refine ⟨fun hmem => herrors _ hmem List.mem_cons_self, fun entry he => ?_⟩
        obtain ⟨tool, htool, hget⟩ := hown entry he
        obtain ⟨hmem, hkey⟩ := Table.get?_eq_some.mp hget
        refine ⟨tool, htool, ?_⟩
        rw [← hkey]
        exact get?_foldl_putTool tools.nodup hmem
      · exact absurd (fits_empty.mp hfits) (hbad entries hlist)
      · intro key tool hget
        obtain ⟨hmem, hkey⟩ := Table.get?_eq_some.mp hget
        obtain ⟨serverName, id, hid, hdot, hne⟩ := hrows tool hmem
        rw [← hget]
        refine get?_foldl_putTool_of_not_mem fun hmem' => ?_
        obtain ⟨other, hother, hname⟩ := List.mem_map.mp hmem'
        obtain ⟨id', hid'⟩ := hmcp other hother
        have hnames : mcpToolName server.name id' = mcpToolName serverName id := by
          rw [← hid'.name, hname, ← hkey, key_registeredTool, hid.name]
        have heq := (eq_of_mcpToolName_eq hdot (Or.inl (dot_not_mem_serverName server)) hnames).1
        exact hne (List.mem_singleton.mpr heq.symm)
      · intro tool hmem
        rcases mem_foldl_putTool hmem with hmem | hmem
        · exact .inr ⟨server.name, List.mem_cons_self, hmcp tool hmem⟩
        · exact .inl hmem
    · have hc : e.caught = true := by
        by_contra hc
        obtain ⟨before, entry, after, heq, hfits, hbreaks⟩ := hcaught.mp (by simpa using hc)
        exact hsound ⟨before, entry, after, heq ▸ hlist, fits_empty.mp hfits, hbreaks⟩
      simp only [herror, hc, if_true]
      refine ⟨_, rfl, hfailed _ fun entries' hlist' hwf => ?_⟩
      rw [hlist] at hlist'
      obtain rfl := Except.ok.inj hlist'
      exact hbad (fits_empty.mpr hwf)

/-- The loop over servers of which none breaks the refresh. -/
theorem collectServers_isolated (servers : List McpServer)
    (hnodup : (servers.map McpServer.name).Nodup)
    (hsound : ∀ server ∈ servers, ¬ server.BreaksRefresh r) {s : McpSnapshot}
    (hclear : Clear (servers.map McpServer.name) s) :
    ∃ s', collectServers r s servers = .ok s' ∧ (∀ server ∈ servers, ServerIsolated r server s') ∧
      Grows (servers.map McpServer.name) s s' := by
  induction servers generalizing s with
  | nil => exact ⟨s, rfl, by simp, Grows.refl _ s⟩
  | cons server rest ih =>
    rw [List.map_cons, List.nodup_cons] at hnodup
    have hone : Clear [server.name] s := by
      refine ⟨fun tool hmem => ?_, fun name hmem hname => ?_⟩
      · obtain ⟨serverName, id, hid, hdot, hne⟩ := hclear.1 tool hmem
        refine ⟨serverName, id, hid, hdot, fun h => hne ?_⟩
        rw [List.mem_singleton.mp h]
        exact List.mem_cons_self
      · refine hclear.2 name hmem ?_
        rw [List.mem_singleton.mp hname]
        exact List.mem_cons_self
    obtain ⟨s₁, hstep, hisolated, hgrows⟩ :=
      collectServers_step (hsound server List.mem_cons_self) rest hone
    have hclear₁ : Clear (rest.map McpServer.name) s₁ := by
      refine ⟨fun tool hmem => ?_, fun name hmem hname => ?_⟩
      · rcases hgrows.rows tool hmem with hmem | ⟨serverName, hmem', id, hid⟩
        · obtain ⟨serverName, id, hid, hdot, hne⟩ := hclear.1 tool hmem
          exact ⟨serverName, id, hid, hdot, fun h => hne (List.mem_cons_of_mem _ h)⟩
        · obtain rfl := List.mem_singleton.mp hmem'
          exact ⟨_, id, hid, dot_not_mem_serverName server, hnodup.1⟩
      · rcases hgrows.newErrors name hmem with hmem | hmem
        · exact hclear.2 name hmem (List.mem_cons_of_mem _ hname)
        · obtain rfl := List.mem_singleton.mp hmem
          exact hnodup.1 hname
    obtain ⟨s', hok, hall, hgrows'⟩ :=
      ih hnodup.2 (fun x hx => hsound x (List.mem_cons_of_mem _ hx)) hclear₁
    refine ⟨s', hstep.trans hok, List.forall_mem_cons.mpr ⟨?_, hall⟩, hgrows.trans hgrows'⟩
    exact hisolated.of_grows hgrows' hnodup.1

/-- A refresh that completes met no breaking catalog. -/
theorem not_breaksRefresh_of_collectServers {servers : List McpServer} {s s' : McpSnapshot}
    (h : collectServers r s servers = .ok s') : ∀ server ∈ servers, ¬ server.BreaksRefresh r := by
  induction servers generalizing s with
  | nil => simp
  | cons server rest ih =>
    have hhead : ¬ server.BreaksRefresh r := by
      rintro ⟨before, entry, after, hlist, hwf, hbreaks⟩
      rw [collectServers] at h
      simp only [hlist] at h
      rcases collectTools_cases r server (before ++ entry :: after) .empty with
        ⟨tools, -, hfits, -⟩ | ⟨e, herror, -, hcaught⟩
      · have hentry : WellFormedEntry r server entry := hfits.1.1 entry (by simp)
        rcases entryToRegisteredTool_cases r server entry with ⟨-, -, -, hsound⟩ | ⟨-, -, hbad, -⟩
        · exact hsound hbreaks
        · exact hbad hentry
      · have hc := hcaught.mpr ⟨before, entry, after, rfl, fits_empty.mpr hwf, hbreaks⟩
        simp [herror, hc] at h
    refine List.forall_mem_cons.mpr ⟨hhead, ?_⟩
    rw [collectServers] at h
    split at h
    · exact ih h
    · split at h
      · exact ih h
      · split at h
        · exact ih h
        · cases h

/-- The refresh completes, serves every well-formed catalog under its own names as far as no
plugin has the name, and reports every other server without a tool of it. -/
def RefreshIsolates (registry : UnifiedToolRegistry) (r : CatalogReader) (servers : McpServers) :
    Prop :=
  ∃ registry' errors, registry.refresh r servers = .ok (registry', errors) ∧
    ∀ server ∈ servers.servers,
      (∀ entries, server.listTools = .ok entries → WellFormedCatalog r server entries →
        server.name ∉ errors.map (·.1) ∧ ∀ entry ∈ entries, ∃ tool,
          entryToRegisteredTool r server.name server.transport entry = .ok tool ∧
            tool ∈ registry'.mcpTools.rows ∧
            (registry.pluginTools.get? (mcpToolName server.name (entryId r entry)) = none →
              registry'.get (mcpToolName server.name (entryId r entry)) = some tool)) ∧
      ((∀ entries, server.listTools = .ok entries → ¬ WellFormedCatalog r server entries) →
        server.name ∈ errors.map (·.1) ∧
          ∀ tool ∈ registry'.mcpTools.rows, tool.serverName ≠ some server.name)

theorem refresh_of_snapshot (registry : UnifiedToolRegistry) {servers : McpServers}
    {s : McpSnapshot} (h : servers.snapshot r = .ok s) :
    ∃ registry', registry.refresh r servers = .ok (registry', s.errors) ∧
      registry'.pluginTools = registry.pluginTools ∧ registry'.mcpTools = s.tools := by
  unfold UnifiedToolRegistry.refresh
  split
  · next e he =>
    rw [h] at he
    cases he
  · next s' hs =>
    rw [h] at hs
    obtain rfl := Except.ok.inj hs
    exact ⟨_, rfl, rfl, rfl⟩

theorem not_breaksRefresh_of_refreshIsolates {registry : UnifiedToolRegistry}
    {servers : McpServers} (h : RefreshIsolates registry r servers) :
    ∀ server ∈ servers.servers, ¬ server.BreaksRefresh r := by
  obtain ⟨registry', errors, hrefresh, -⟩ := h
  unfold UnifiedToolRegistry.refresh at hrefresh
  split at hrefresh
  · cases hrefresh
  · next s hs => exact not_breaksRefresh_of_collectServers hs

/-- A refresh isolates the failures of servers exactly where no catalog breaks it. -/
theorem refreshIsolates_iff (registry : UnifiedToolRegistry) (r : CatalogReader)
    (servers : McpServers) :
    RefreshIsolates registry r servers ↔
      ∀ server ∈ servers.servers, ¬ server.BreaksRefresh r := by
  constructor
  · exact not_breaksRefresh_of_refreshIsolates
  · intro hsound
    have hclear : Clear (servers.servers.map McpServer.name) ⟨.empty, []⟩ :=
      ⟨fun _ hmem => absurd hmem List.not_mem_nil, by simp⟩
    obtain ⟨s, hok, hall, -⟩ := collectServers_isolated servers.servers servers.unique hsound hclear
    obtain ⟨registry', hrefresh, hplugins, hmcp⟩ := refresh_of_snapshot registry hok
    refine ⟨registry', s.errors, hrefresh, fun server hserver => ⟨fun entries hlist hwf => ?_, ?_⟩⟩
    · obtain ⟨herror, hown⟩ := (hall server hserver).healthy entries hlist hwf
      refine ⟨herror, fun entry he => ?_⟩
      obtain ⟨tool, htool, hget⟩ := hown entry he
      refine ⟨tool, htool, ?_, fun hfree => ?_⟩
      · rw [hmcp]
        exact (Table.get?_eq_some.mp hget).1
      · rw [UnifiedToolRegistry.get, hplugins, hfree, hmcp, hget]
        rfl
    · rw [hmcp]
      exact (hall server hserver).failed

def sampleCatalogReader : CatalogReader :=
  { sampleReader with
    str := fun value => value.text?.getD ""
    str_text := fun _ => rfl
    int := fun _ => none }

/-- A server with one proper tool and a server whose tool has a text for its annotations. -/
def sampleServers : McpServers where
  servers := [
    { name := "healthy", transport := "stdio", valid := by decide,
      values := .ok [[("name", .str "lookup")]] },
    { name := "sloppy", transport := "stdio", valid := by decide,
      values := .ok [[("name", .str "lookup"), ("annotations", .str "read-only")]] }]
  unique := by decide

/-- One catalog with a text for the annotations keeps the tools of every server out. -/
theorem not_refreshIsolates_sample :
    ¬ RefreshIsolates UnifiedToolRegistry.empty sampleCatalogReader sampleServers := by
  intro h
  refine not_breaksRefresh_of_refreshIsolates h _
    (List.mem_cons_of_mem _ List.mem_cons_self) ?_
  exact ⟨[], _, [], rfl, ⟨by simp, by simp⟩, .inl ⟨rfl, fun d => nofun⟩⟩

end AgentDemo
