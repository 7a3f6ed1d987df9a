import AgentDemo.Agent.PlanGate

/-! Every planner makes plans that agree with the registry at that instant, and so do the two
graphs as a whole. -/
namespace AgentDemo

section

variable {approved : Option (String × JsonObject)} {registry registry' : UnifiedToolRegistry}
variable {tool : RegisteredTool}

theorem Current.of_requires {plan : AgentToolPlan} (h : plan.requiresConfirmation = true) :
    Current approved registry plan :=
  fun _ hflag => absurd (hflag.symm.trans h) (by decide)

/-- A plan with the flag that the registry gives its name. -/
theorem Current.of_flag {plan : AgentToolPlan} {name : String} (hname : plan.toolName = some name)
    (h : plan.requiresConfirmation =
      (registry.get name).any fun tool => tool.manifest.requiresConfirmation) :
    Current approved registry plan := by
  intro _ hflag name' tool hname' hget
  obtain rfl := Option.some.inj (hname.symm.trans hname')
  rw [hget, hflag] at h
  rintro ⟨-, hun⟩
  refine not_unapproved ?_ h.symm hun
  rw [UnifiedToolRegistry.name_of_get hget, hget]

theorem Current.planFor (hget : registry.get tool.manifest.name = some tool)
    (arguments : JsonObject) (reason : String) :
    Current approved registry (planFor tool arguments reason) :=
  .of_flag rfl (by rw [hget]; rfl)

theorem Current.planForName (name : String) (arguments : JsonObject) (reason : String) :
    Current approved registry (planForName (registry.get name) name arguments reason) :=
  .of_flag rfl rfl

/-- The tools of the GitHub and the Hugging Face server always require a confirmation. -/
theorem requires_of_network (hmem : tool ∈ registry.listTools)
    (hprovider : tool.provider = .mcpServer)
    (hserver : tool.serverName = some mcpGithubServerName ∨
      tool.serverName = some mcpHuggingfaceServerName) :
    tool.manifest.requiresConfirmation = true := by
  rcases UnifiedToolRegistry.mem_listTools.mp hmem with hmem | hmem
  · exact absurd ((registry.plugin tool hmem).symm.trans hprovider) (by decide)
  · obtain ⟨serverName, id, h⟩ := registry.mcp tool hmem
    refine h.network ?_
    rw [h.server, Option.some_inj, Option.some_inj] at hserver
    simp [isNetworkTool, hserver]

theorem findMcpTool_eq_some {tools : List RegisteredTool} {serverName : String} {ids : List String}
    (h : findMcpTool tools serverName ids = some tool) :
    tool ∈ tools ∧ tool.provider = .mcpServer ∧ tool.serverName = some serverName := by
  obtain ⟨id, -, hfind⟩ := List.exists_of_findSome?_eq_some h
  have hprop := List.find?_some hfind
  simp only [Bool.and_eq_true, decide_eq_true_eq] at hprop
  exact ⟨List.mem_of_find?_eq_some hfind, hprop.1.1.1, hprop.1.1.2⟩

theorem mem_of_selectHuggingfaceTool {reader : TextReader} {message : String}
    {tools : List RegisteredTool} (h : selectHuggingfaceTool reader message tools = some tool) :
    tool ∈ tools := by
  obtain ⟨⟨messageTerms, toolTerms⟩, -, hselect⟩ := List.exists_of_findSome?_eq_some h
  simp only at hselect
  split_ifs at hselect
  exact List.mem_of_find?_eq_some hselect

variable (reader : TextReader) (settings : AgentSettings)

/-- What a planner gives is current where it gives it. -/
abbrev Planned (approved : Option (String × JsonObject)) (registry : UnifiedToolRegistry)
    (plan : Option AgentToolPlan) : Prop :=
  ∀ p, plan = some p → Current approved registry p

theorem planned_some {plan : AgentToolPlan} (h : Current approved registry plan) :
    Planned approved registry (some plan) :=
  fun _ hp => Option.some.inj hp ▸ h

theorem gate_planGithubTool (state : AgentGraphState) :
    (gateContract approved).Safe (Planned approved) (planGithubTool reader state) registry := by
  unfold planGithubTool
  cases reader.githubReference state.message with
  | none => exact nofun
  | some reference =>
    refine (Program.Contract.safe_ask_of_look rfl).mpr ?_
    simp only [Program.bind_eq, Program.done_bind]
    split
    · exact planned_some (.none _)
    · next tool hfind =>
      obtain ⟨hmem, hprovider, hserver⟩ := findMcpTool_eq_some hfind
      exact planned_some (.of_requires (requires_of_network hmem hprovider (Or.inl hserver)))

/-- A plan for a tool that has just been looked up. -/
theorem gate_planLookedUp {name : String} {other : AgentProgram (Option AgentToolPlan)}
    {arguments : JsonObject} {reason : String}
    (hother : (gateContract approved).Safe (Planned approved) other registry) :
    (gateContract approved).Safe (Planned approved) (do
      match ← registryGet name with
      | none => other
      | some tool => pure (some (planFor tool arguments reason))) registry := by
  refine (Program.Contract.safe_ask_of_look rfl).mpr ?_
  simp only [Program.bind_eq, Program.done_bind]
  cases hget : registry.get name with
  | none => exact hother
  | some tool =>
    refine planned_some (.planFor ?_ _ _)
    rw [UnifiedToolRegistry.name_of_get hget, hget]

theorem gate_planFetchTool (state : AgentGraphState) :
    (gateContract approved).Safe (Planned approved) (planFetchTool reader settings state)
      registry := by
  unfold planFetchTool
  cases reader.fetchUrl state.message with
  | none => exact nofun
  | some url =>
    refine gate_planLookedUp ?_
    split_ifs
    · exact planned_some (.none _)
    · exact nofun

theorem gate_planHuggingfaceTool (state : AgentGraphState) :
    (gateContract approved).Safe (Planned approved) (planHuggingfaceTool reader state)
      registry := by
  unfold planHuggingfaceTool
  split_ifs
  · refine (Program.Contract.safe_ask_of_look rfl).mpr ?_
    simp only [Program.bind_eq, Program.done_bind]
    split_ifs
    · exact planned_some (.none _)
    · split
      · next tool hselect =>
        obtain ⟨hmem, hprop⟩ := List.mem_filter.mp (mem_of_selectHuggingfaceTool hselect)
        simp only [Bool.and_eq_true, decide_eq_true_eq] at hprop
        exact planned_some (.of_requires (requires_of_network hmem hprop.1.1 (Or.inr hprop.1.2)))
      · split
        · exact nofun
        · exact gate_planLookedUp nofun
  · exact nofun

theorem gate_planMcpTool (state : AgentGraphState) :
    (gateContract approved).Safe (Planned approved) (planMcpTool reader state) registry := by
  refine (Program.Contract.safe_ask_of_look rfl).mpr ?_
  simp only [Program.bind_eq, Program.done_bind]
  split
  · exact nofun
  · exact gate_planLookedUp nofun

/-- The query of a web search takes a while, but no refresh changes a plugin. -/
theorem gate_planLastResort (state : AgentGraphState) :
    (gateContract approved).Safe (Current approved) (planLastResort reader state) registry := by
  unfold planLastResort
  split_ifs
  · refine (Program.Contract.safe_ask_of_look rfl).mpr ?_
    refine (Program.Contract.safe_ask_of_wait rfl).mpr fun t ht => ⟨trivial, fun query => ?_⟩
    have hsame : t.get webSearchToolName = registry.get webSearchToolName :=
      UnifiedToolRegistry.get_eq_of_not_mcp (by decide) ht.1
    show Current approved t _
    rw [← hsame]
    exact .planForName _ _ _
  · refine (Program.Contract.safe_ask_of_look rfl).mpr ?_
    simp only [Program.bind_eq, Program.done_bind]
    split_ifs
    · exact .none _
    · refine (gate_planMcpTool reader state).seq fun t plan h => ?_
      cases plan with
      | none => exact .none _
      | some plan => exact h plan rfl

theorem gate_planWebTool (state : AgentGraphState) :
    (gateContract approved).Safe (Current approved) (planWebTool reader settings state)
      registry := by
  refine (gate_planFetchTool reader settings state).seq fun t plan h => ?_
  cases plan with
  | some plan => exact h plan rfl
  | none =>
    refine (gate_planHuggingfaceTool reader state).seq fun u plan h => ?_
    cases plan with
    | some plan => exact h plan rfl
    | none => exact gate_planLastResort reader state

theorem gate_planNextStep (state : AgentGraphState) :
    (gateContract approved).Safe (Current approved) (planNextStep reader settings state)
      registry := by
  unfold planNextStep
  split
  · exact .none _
  · refine (gate_planGithubTool reader state).seq fun t plan h => ?_
    cases plan with
    | some plan => exact h plan rfl
    | none =>
      simp only
      split
      · split_ifs
        · exact (Program.Contract.safe_ask_of_look rfl).mpr (.planForName _ _ _)
        · exact gate_planWebTool reader settings state
      · exact gate_planWebTool reader settings state

theorem gate_planEarlyConfirmableTool (state : AgentGraphState) :
    (gateContract approved).Safe (Planned approved) (planEarlyConfirmableTool reader settings state)
      registry := by
  have hfilter (t : UnifiedToolRegistry) (plan : Option AgentToolPlan)
    (h : Planned approved t plan) :
      Planned approved t (plan.filter fun plan => !plan.noTool && plan.requiresConfirmation) :=
    fun p hp => h p (Option.filter_eq_some_iff.mp hp).1
  unfold planEarlyConfirmableTool
  simp only
  split_ifs
  · exact (gate_planGithubTool reader state).seq hfilter
  · exact nofun
  · exact (gate_planFetchTool reader settings state).seq hfilter

theorem gate_planNode {state : AgentGraphState} (hname : state.confirmedToolName = none) :
    (gateContract approved).Safe (fun t state' => Current approved t state'.plan ∧
      state'.confirmedToolName = none) (planNode reader settings state) registry := by
  refine (Program.Contract.safe_ask_of_wait rfl).mpr fun t ht => ⟨trivial, fun _ => ?_⟩
  have htool : state.confirmedTool = none := by
    rw [AgentGraphState.confirmedTool, hname]
    rfl
  simp only [Program.bind_eq, Program.done_bind, htool]
  split_ifs
  · exact ⟨.none _, hname⟩
  · exact (gate_planNextStep reader settings state).seq fun u plan h => ⟨h, hname⟩

theorem sameTask_maybeExecuteTool (state : AgentGraphState) :
    (maybeExecuteTool reader settings state).Asks (fun _ => True) (SameTask state) := by
  cases hplan : state.plan.noTool with
  | true =>
    rw [maybeExecuteTool, hplan]
    exact ⟨rfl, rfl, rfl⟩
  | false =>
    cases hname : state.plan.toolName with
    | none =>
      rw [maybeExecuteTool, hplan, hname]
      exact ⟨rfl, rfl, rfl⟩
    | some name =>
      rw [maybeExecuteTool_eq reader settings hplan hname]
      refine (Program.Asks.trivial _).seq fun result _ => ?_
      have hrecord := sameTask_recordCall reader state.plan name result state
      exact (asks_afterCall reader settings name result _ _).mono (fun _ _ => trivial)
        fun _ h => hrecord.trans h

/-- The node `execute_tool` confirms nothing. -/
theorem gate_chatExecuteToolNode {state : AgentGraphState}
    (hname : state.confirmedToolName = none) (h : Current approved registry state.plan) :
    (gateContract approved).Safe (fun _ state' => state'.confirmedToolName = none)
      (executeToolNode reader settings state) registry := by
  have hasks : (executeToolNode reader settings state).Asks (fun _ => True)
      fun state' => state'.confirmedToolName = none :=
    (Program.Asks.trivial (superstep .executeTool state)).seq fun _ _ =>
      (sameTask_maybeExecuteTool reader settings state).seq fun state' h =>
        h.confirmed.trans hname
  exact ((gate_executeToolNode reader settings h).and_asks hasks).mono fun _ _ h => h.2

theorem gate_planLoop (rounds : ℕ) {state : AgentGraphState}
    (hname : state.confirmedToolName = none) :
    (gateContract approved).Safe (fun _ _ => True) (planLoop reader settings rounds state)
      registry := by
  induction rounds generalizing registry state with
  | zero =>
    refine (gate_planNode reader settings hname).seq fun t state' h => ?_
    split_ifs
    · exact gate_of_carries (asks_answerNodes reader state') t
    · trivial
  | succ rounds ih =>
    refine (gate_planNode reader settings hname).seq fun t state' h => ?_
    split_ifs
    · exact gate_of_carries (asks_answerNodes reader state') t
    · refine (gate_chatExecuteToolNode reader settings h.2 h.1).seq fun u state'' hname => ?_
      split_ifs
      · exact gate_of_carries (asks_awaitConfirmation settings state'') u
      · exact ih hname

/-- A chat run or a background run. -/
theorem gate_stream (route : String → String → ModelRoute)
    (userId taskId conversationId : Option UUID)
    (message taskType traceId : String) :
    (gateContract approved).Safe (fun _ _ => True) (stream reader settings route userId taskId
      conversationId message taskType traceId) registry := by
  unfold stream runGraph
  split_ifs
  · exact (Program.Contract.safe_ask_of_wait rfl).mpr fun t ht => ⟨trivial, fun _ => trivial⟩
  refine (Program.Contract.safe_ask_of_wait rfl).mpr fun t _ => ⟨trivial, fun _ => ?_⟩
  refine (Program.Contract.safe_ask_of_wait rfl).mpr fun t _ => ⟨trivial, fun id => ?_⟩
  simp only [Program.bind_eq, Program.done_bind]
  refine (gate_of_carries (asks_loadContext route _) t).seq fun t state hstate => ?_
  have hname : state.confirmedToolName = none := by
    rw [hstate]
    rfl
  refine (Program.Contract.safe_ask_of_wait rfl).mpr fun t _ => ⟨trivial, fun _ => ?_⟩
  refine (Program.Contract.safe_ask_of_wait rfl).mpr fun t _ => ⟨trivial, fun _ => ?_⟩
  refine (Program.Contract.safe_ask_of_wait rfl).mpr fun t _ => ⟨trivial, fun _ => ?_⟩
  refine (gate_planEarlyConfirmableTool reader settings state).seq fun t plan h => ?_
  cases plan with
  | some plan =>
    have hexecute : (gateContract approved).Safe (fun _ state' => state'.confirmedToolName = none)
        (executeToolNode reader settings { state with plan }) t :=
      gate_chatExecuteToolNode reader settings hname (h plan rfl)
    refine hexecute.seq fun t state hname => ?_
    unfold afterExecuteTool
    split_ifs
    · exact gate_of_carries (asks_awaitConfirmation settings state) t
    · exact gate_planLoop reader settings _ hname
  | none =>
    refine (Program.Contract.safe_ask_of_wait rfl).mpr fun t _ => ⟨trivial, fun _ => ?_⟩
    refine (Program.Contract.safe_ask_of_wait rfl).mpr fun t _ => ⟨trivial, fun context => ?_⟩
    exact gate_planLoop reader settings _ hname

/-- A confirmed run has the approval for its only plan. -/
theorem gate_streamConfirmedTool (route : String → String → ModelRoute) (userId : Option UUID)
    (m : Message) (stored : Approval) (hne : stored.toolName ≠ "") (traceId : String) :
    (gateContract (some (stored.toolName, stored.arguments))).Safe (fun _ _ => True)
      (streamConfirmedTool reader settings route userId m stored traceId) registry := by
  unfold streamConfirmedTool runGraph
  split_ifs
  · exact (Program.Contract.safe_ask_of_wait rfl).mpr fun t ht => ⟨trivial, fun _ => trivial⟩
  refine (gate_of_carries (asks_loadContext route _) registry).seq fun t state hstate => ?_
  obtain rfl := hstate
  refine (gate_of_carries (asks_planNode reader settings hne rfl) t).seq fun t state hstate => ?_
  obtain ⟨tool, rfl⟩ := hstate
  refine (gate_executeToolNode reader settings ?_).seq fun t state _ => ?_
  · intro _ _ name tool' hname hget
    obtain rfl := Option.some.inj hname
    rintro ⟨-, -, hne⟩
    refine hne ?_
    rw [UnifiedToolRegistry.name_of_get hget]
    rfl
  · split_ifs
    · exact gate_of_carries (asks_awaitConfirmation settings state) t
    · exact gate_of_carries (asks_answerNodes reader state) t

end

end AgentDemo
