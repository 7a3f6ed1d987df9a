import AgentDemo.Agent.Footprint

/-! One run of the graph against a registry that may be refreshed: its plans keep to the
confirmation gate as long as no refresh overtakes them. -/
namespace AgentDemo

/-- The registered tool requires a confirmation that the run does not have. -/
def Unapproved (approved : Option (String × JsonObject)) (registry : UnifiedToolRegistry)
    (name : String) (arguments : JsonObject) : Prop :=
  (∃ tool, registry.get name = some tool ∧ tool.manifest.requiresConfirmation = true) ∧
    approved ≠ some (name, arguments)

/-- A call that passes the gate of the executor although the registered tool is unapproved. -/
def Slips (approved : Option (String × JsonObject)) (registry : UnifiedToolRegistry)
    (tool : RegisteredTool) (arguments : JsonObject) (confirmed : Bool) : Prop :=
  refusal tool confirmed = none ∧ Unapproved approved registry tool.manifest.name arguments

/-- The plan asks for the confirmation that the registered tool requires, or it is what the run
has been approved for. -/
def Current (approved : Option (String × JsonObject)) (registry : UnifiedToolRegistry)
    (plan : AgentToolPlan) : Prop :=
  plan.noTool = false → plan.requiresConfirmation = false → ∀ name tool,
    plan.toolName = some name → registry.get name = some tool →
      ¬ Slips approved registry tool plan.arguments true

/-- What a registry endangers: a plan that has yet to be executed, or a call that is behind the
gate already. -/
def Endangers (approved : Option (String × JsonObject)) (registry : UnifiedToolRegistry) :
    Request → Prop
  | .superstep .executeTool state => ¬ Current approved registry state.plan
  | .call tool arguments confirmed | .dispatch tool arguments confirmed =>
      Slips approved registry tool arguments confirmed
  | _ => False

/-- A dispatch keeps to the gate of the registry at its instant. The plugins stay, and a refresh
of the other tools endangers nothing that the run waits for. -/
def gateContract (approved : Option (String × JsonObject)) :
    Program.Contract Request Request.Answer UnifiedToolRegistry where
  look registry := registry.look
  rely q s t := t.pluginTools = s.pluginTools ∧ (t = s ∨ ¬ Endangers approved t q)
  guar registry
    | .dispatch tool arguments _ => ¬ Unapproved approved registry tool.manifest.name arguments
    | _ => True
  next registry _ := registry
  rely_refl _ _ := ⟨rfl, Or.inl rfl⟩
  rely_trans _ _ _ _ h h' := ⟨h'.1.trans h.1, by
    rcases h'.2 with rfl | hu
    · exact h.2
    · exact Or.inr hu⟩
  look_rely q _ _ _ h := by cases q <;> first | rfl | cases h

/-- A tool whose calls no refresh can let slip: it requires a confirmation, or it is a plugin. -/
def Steady (registry : UnifiedToolRegistry) (tool : RegisteredTool) : Prop :=
  tool.manifest.requiresConfirmation = true ∨
    ∀ registry' : UnifiedToolRegistry, registry'.pluginTools = registry.pluginTools →
      registry'.get tool.manifest.name = some tool

section

variable {approved : Option (String × JsonObject)} {registry registry' : UnifiedToolRegistry}
variable {tool : RegisteredTool} {arguments : JsonObject} {confirmed : Bool}

theorem Current.of_noTool {plan : AgentToolPlan} (h : plan.noTool = true) :
    Current approved registry plan :=
  fun hno => absurd (h.symm.trans hno) (by decide)

theorem Current.none (reason : String) : Current approved registry (.none reason) := .of_noTool rfl

/-- The tool that the registry has under a name does not slip through with its own flag. -/
theorem not_unapproved (hget : registry.get tool.manifest.name = some tool)
    (hflag : tool.manifest.requiresConfirmation = false) :
    ¬ Unapproved approved registry tool.manifest.name arguments := by
  rintro ⟨⟨tool', hget', hrequires⟩, -⟩
  obtain rfl := Option.some.inj (hget.symm.trans hget')
  exact absurd (hflag.symm.trans hrequires) (by decide)

theorem requires_of_refusal (h : refusal tool false = none) :
    tool.manifest.requiresConfirmation = false := by
  by_contra hne
  exact absurd ((refusal_eq_none h).2 (Bool.eq_true_of_not_eq_false hne)) (by decide)

theorem Steady.of_plugins (h : Steady registry tool)
    (hplugins : registry'.pluginTools = registry.pluginTools) : Steady registry' tool :=
  h.imp_right fun h u hu => h u (hu.trans hplugins)

theorem Steady.not_slips (h : Steady registry tool) :
    ¬ Slips approved registry tool arguments false := by
  rintro ⟨hpass, hun⟩
  have hflag := requires_of_refusal hpass
  rcases h with h | h
  · exact absurd (hflag.symm.trans h) (by decide)
  · exact not_unapproved (h registry rfl) hflag hun

/-- The Fetch tool is a plugin, or it always requires a confirmation. -/
theorem steady_fetch (hget : registry.get mcpFetchToolName = some tool) :
    Steady registry tool := by
  have hname : tool.manifest.name = mcpFetchToolName := UnifiedToolRegistry.name_of_get hget
  rcases Option.or_eq_some_iff.mp hget with hplugin | ⟨-, hmcp⟩
  · refine Or.inr fun u hu => ?_
    rw [UnifiedToolRegistry.get, hu, hname, hplugin]
    rfl
  · obtain ⟨hmem, -⟩ := Table.get?_eq_some.mp hmcp
    obtain ⟨serverName, id, h⟩ := registry.mcp tool hmem
    refine Or.inl (h.network ?_)
    have heq : mcpToolName serverName id = mcpToolName "fetch" "fetch" := h.name ▸ hname
    obtain ⟨rfl, rfl⟩ := eq_of_mcpToolName_eq (by decide) (Or.inr (by decide)) heq
    rfl

/-- What the run waits for is as safe after a change that it relies on. -/
theorem not_endangers_of_rely {q : Request} (h : ¬ Endangers approved registry q)
    (hrely : (gateContract approved).rely q registry registry') :
    ¬ Endangers approved registry' q := by
  rcases hrely.2 with rfl | h'
  · exact h
  · exact h'

theorem gate_of_carries {α : Type} {message taskType : String} {p : AgentProgram α}
    {post : α → Prop} (h : p.Asks (Carries message taskType) post)
    (registry : UnifiedToolRegistry) :
    (gateContract approved).Safe (fun _ => post) p registry := by
  refine (Program.Contract.safe_of_asks (I := fun _ => True) ?_ ?_ ?_ h trivial).mono
    fun _ _ h => h.2
  · intro q s hq _
    cases q with
    | dispatch tool arguments confirmed => exact hq.elim
    | _ => trivial
  · exact fun _ _ _ _ => trivial
  · exact fun _ _ _ _ _ _ => trivial

variable (reader : TextReader) (settings : AgentSettings)

theorem gate_runTool (h : ¬ Slips approved registry tool arguments confirmed) :
    (gateContract approved).Safe (fun t _ => t.pluginTools = registry.pluginTools)
      (runTool reader tool arguments confirmed) registry := by
  refine (Program.Contract.safe_ask_of_wait rfl).mpr fun t ht => ⟨trivial, fun stamp => ?_⟩
  have hcall : ¬ Slips approved t tool arguments confirmed :=
    not_endangers_of_rely (q := .call tool arguments confirmed) h ht
  simp only [Program.bind_eq, Program.done_bind]
  split
  · exact ht.1
  · next hpass =>
    refine (Program.Contract.safe_ask_of_wait rfl).mpr fun u hu => ?_
    have hdispatch : ¬ Slips approved u tool arguments confirmed :=
      not_endangers_of_rely (q := .dispatch tool arguments confirmed) hcall hu
    exact ⟨fun hun => hdispatch ⟨hpass, hun⟩, fun _ => hu.1.trans ht.1⟩

theorem gate_fetchTargets (h : Steady registry tool) (targets : List SearchTarget)
    (state : AgentGraphState) :
    (gateContract approved).Safe (fun _ _ => True)
      (fetchTargets reader settings tool targets state) registry := by
  induction targets generalizing registry state with
  | nil => trivial
  | cons target rest ih =>
    refine (gate_runTool reader h.not_slips).seq fun t result ht => ?_
    simp only
    split_ifs
    · trivial
    · exact ih (h.of_plugins ht) _

theorem gate_fetchSearchTargets (state : AgentGraphState) :
    (gateContract approved).Safe (fun _ _ => True) (fetchSearchTargets reader settings state)
      registry := by
  refine (Program.Contract.safe_ask_of_look rfl).mpr ?_
  cases hget : registry.get mcpFetchToolName with
  | none => trivial
  | some tool => exact gate_fetchTargets reader settings (steady_fetch hget) _ state

theorem gate_afterCall (toolName : String) (result : ToolRunResponse) (enrichment : Bool)
    (state : AgentGraphState) :
    (gateContract approved).Safe (fun _ _ => True)
      (afterCall reader settings toolName result enrichment state) registry := by
  unfold afterCall
  split_ifs
  · refine (Program.Contract.safe_ask_of_look rfl).mpr ?_
    cases hget : registry.get mcpFetchToolName with
    | none => trivial
    | some tool =>
      simp only [Program.bind_eq, Program.done_bind]
      split_ifs
      · trivial
      · exact gate_fetchSearchTargets reader settings _
  · exact gate_fetchSearchTargets reader settings state
  · trivial

/-- The tool is looked up again, but its flag is the one in the plan. -/
theorem gate_executeToolPlan {plan : AgentToolPlan} {name : String}
    (h : Current approved registry plan) (hplan : plan.noTool = false)
    (hname : plan.toolName = some name) :
    (gateContract approved).Safe (fun _ _ => True) (executeToolPlan reader plan name) registry := by
  refine (Program.Contract.safe_ask_of_look rfl).mpr ?_
  cases hget : registry.get name with
  | none => trivial
  | some tool =>
    have hself : registry.get tool.manifest.name = some tool := by
      rw [UnifiedToolRegistry.name_of_get hget, hget]
    have hslips : ¬ Slips approved registry tool plan.arguments (!plan.requiresConfirmation) := by
      cases hflag : plan.requiresConfirmation with
      | false => exact h hplan hflag name tool hname hget
      | true =>
        rintro ⟨hpass, hun⟩
        exact not_unapproved hself (requires_of_refusal hpass) hun
    exact (gate_runTool reader hslips).mono fun _ _ _ => trivial

theorem gate_executeToolNode {state : AgentGraphState}
    (h : Current approved registry state.plan) :
    (gateContract approved).Safe (fun _ _ => True) (executeToolNode reader settings state)
      registry := by
  refine (Program.Contract.safe_ask_of_wait rfl).mpr fun t ht => ⟨trivial, fun _ => ?_⟩
  have hcurrent : Current approved t state.plan :=
    not_not.mp (not_endangers_of_rely (q := .superstep .executeTool state) (not_not.mpr h) ht)
  have hmaybe : (gateContract approved).Safe (fun _ _ => True)
      (maybeExecuteTool reader settings state) t := by
    cases hplan : state.plan.noTool with
    | true =>
      rw [maybeExecuteTool, hplan]
      trivial
    | false =>
      cases hname : state.plan.toolName with
      | none =>
        rw [maybeExecuteTool, hplan, hname]
        trivial
      | some name =>
        rw [maybeExecuteTool_eq reader settings hplan hname]
        exact (gate_executeToolPlan reader hcurrent hplan hname).seq fun u result _ =>
          gate_afterCall reader settings name result _ _
  exact hmaybe.seq fun _ _ _ => trivial

end

end AgentDemo
