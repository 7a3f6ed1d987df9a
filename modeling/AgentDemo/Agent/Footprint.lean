import AgentDemo.Agent.Graph

/-! The requests that the parts of the graph can make, and what they keep of the state. -/
namespace AgentDemo

/-- Requests that call no tool, at nodes whose state carries the message and the task type. -/
def Carries (message taskType : String) : Request → Prop
  | .superstep _ state => state.message = message ∧ state.taskType = taskType
  | .call _ _ _ | .dispatch _ _ _ => False
  | _ => True

def Unconfirmed : Request → Prop
  | .call _ _ confirmed | .dispatch _ _ confirmed => confirmed = false
  | _ => False

/-- The task of a run stays: its message, its type and what has been confirmed. -/
structure SameTask (state state' : AgentGraphState) : Prop where
  message : state'.message = state.message
  taskType : state'.taskType = state.taskType
  confirmed : state'.confirmedToolName = state.confirmedToolName

theorem SameTask.trans {a b c : AgentGraphState} (h : SameTask a b) (h' : SameTask b c) :
    SameTask a c :=
  ⟨h'.message.trans h.message, h'.taskType.trans h.taskType, h'.confirmed.trans h.confirmed⟩

section

variable (reader : TextReader) (settings : AgentSettings) {message taskType : String}

theorem asks_superstep {node : GraphNode} {state : AgentGraphState}
    (h : state.message = message ∧ state.taskType = taskType) :
    (superstep node state).Asks (Carries message taskType) fun _ => True :=
  .request h fun _ => trivial

theorem asks_loadContext (route : String → String → ModelRoute) (state : AgentGraphState) :
    (loadContext route state).Asks (Carries state.message state.taskType) fun state' =>
      state' = { state with route := some (route state.taskType state.message) } :=
  ⟨⟨rfl, rfl⟩, fun _ => ⟨trivial, fun _ => rfl⟩⟩

theorem asks_generateAnswer (state : AgentGraphState) :
    (generateAnswer reader state).Asks (Carries state.message state.taskType)
      (SameTask state) := by
  refine ⟨⟨rfl, rfl⟩, fun _ => ⟨trivial, fun tools => ?_⟩⟩
  simp only [Program.bind_eq, Program.done_bind]
  generalize (if state.confirmedTool.isNone ∧ state.toolCalls = [] then
    reader.toolAvailabilityAnswer state.message _ else none) = availability
  split
  · exact ⟨rfl, rfl, rfl⟩
  · split
    · exact ⟨rfl, rfl, rfl⟩
    · exact ⟨rfl, rfl, rfl⟩
    · exact ⟨trivial, fun _ => ⟨rfl, rfl, rfl⟩⟩

theorem asks_answerNodes (state : AgentGraphState) :
    (answerNodes reader state).Asks (Carries state.message state.taskType) fun _ => True := by
  refine (asks_generateAnswer reader state).seq fun state' h => ?_
  have h := And.intro h.message h.taskType
  exact ⟨h, fun _ => ⟨trivial, fun _ => ⟨h, fun _ => ⟨trivial, fun _ => ⟨trivial, fun _ =>
    trivial⟩⟩⟩⟩⟩

/-- The plan of a confirmed run is the stored one. -/
theorem asks_planNode {state : AgentGraphState} {name : String} (hne : name ≠ "")
    (hname : state.confirmedToolName = some name) :
    (planNode reader settings state).Asks (Carries state.message state.taskType)
      fun state' => ∃ tool, state' = { state with plan := confirmedPlan tool name state } := by
  refine ⟨⟨rfl, rfl⟩, fun _ => ?_⟩
  have htool : state.confirmedTool = some name := by
    simp [AgentGraphState.confirmedTool, hname, hne]
  simp only [Program.bind_eq, Program.done_bind, htool]
  exact ⟨trivial, fun tool => ⟨tool, rfl⟩⟩

theorem asks_awaitConfirmation (state : AgentGraphState) :
    (awaitConfirmation settings state).Asks (Carries state.message state.taskType)
      fun _ => True := by
  refine ⟨⟨rfl, rfl⟩, fun _ => ?_⟩
  simp only [Program.bind_eq, Program.done_bind]
  split_ifs
  · exact ⟨trivial, fun _ => trivial⟩
  · exact ⟨trivial, fun _ => ⟨trivial, fun _ => trivial⟩⟩

theorem sameTask_fetchesDone (state : AgentGraphState) :
    SameTask state (fetchesDone reader state) := by
  unfold fetchesDone
  simp only
  split
  · exact ⟨rfl, rfl, rfl⟩
  · split
    · exact ⟨rfl, rfl, rfl⟩
    · exact ⟨rfl, rfl, rfl⟩

theorem asks_runTool (tool : RegisteredTool) (arguments : JsonObject) :
    (runTool reader tool arguments false).Asks Unconfirmed fun _ => True := by
  refine ⟨rfl, fun stamp => ?_⟩
  simp only [Program.bind_eq, Program.done_bind]
  split
  · trivial
  · exact ⟨rfl, fun _ => trivial⟩

theorem asks_fetchTargets (tool : RegisteredTool) (targets : List SearchTarget)
    (state : AgentGraphState) :
    (fetchTargets reader settings tool targets state).Asks Unconfirmed (SameTask state) := by
  induction targets generalizing state with
  | nil => exact sameTask_fetchesDone reader state
  | cons target rest ih =>
    refine (asks_runTool reader tool _).seq fun result _ => ?_
    have hrecord : SameTask state (recordFetch reader settings tool target rest result state) :=
      ⟨rfl, rfl, rfl⟩
    simp only
    split_ifs
    · exact hrecord
    · exact (ih _).mono (fun _ h => h) fun _ h => hrecord.trans h

theorem asks_fetchSearchTargets (state : AgentGraphState) :
    (fetchSearchTargets reader settings state).Asks
      (fun q => Carries state.message state.taskType q ∨ Unconfirmed q) (SameTask state) := by
  refine ⟨Or.inl trivial, fun tool => ?_⟩
  cases tool with
  | none => exact ⟨rfl, rfl, rfl⟩
  | some tool =>
    exact (asks_fetchTargets reader settings tool _ state).mono (fun _ h => Or.inr h) fun _ h => h

theorem asks_enrichWebSearchWithFetch (state : AgentGraphState) (result : ToolRunResponse) :
    (enrichWebSearchWithFetch reader settings state result).Asks
      (fun q => Carries state.message state.taskType q ∨ Unconfirmed q) (SameTask state) := by
  refine ⟨Or.inl trivial, fun tool => ?_⟩
  cases tool with
  | none => exact ⟨rfl, rfl, rfl⟩
  | some tool =>
    simp only [Program.bind_eq, Program.done_bind]
    split_ifs
    · exact ⟨rfl, rfl, rfl⟩
    · exact (asks_fetchSearchTargets reader settings
        { state with searchFetchTargets := searchResultFetchTargets reader result }).mono
        (fun _ h => h) fun _ h => ⟨h.message, h.taskType, h.confirmed⟩

theorem sameTask_recordCall (plan : AgentToolPlan) (toolName : String) (result : ToolRunResponse)
    (state : AgentGraphState) : SameTask state (recordCall reader plan toolName result state) := by
  unfold recordCall
  simp only
  split
  · exact ⟨rfl, rfl, rfl⟩
  · exact ⟨rfl, rfl, rfl⟩

/-- What `_maybe_execute_tool` does once the call of the plan has its result. -/
def afterCall (toolName : String) (result : ToolRunResponse) (enrichment : Bool)
    (state : AgentGraphState) : AgentProgram AgentGraphState :=
  if result.status = .success ∧ toolName = webSearchToolName then
    enrichWebSearchWithFetch reader settings state result
  else if enrichment then fetchSearchTargets reader settings state
  else pure state

theorem maybeExecuteTool_eq {state : AgentGraphState} {toolName : String}
    (hplan : state.plan.noTool = false) (hname : state.plan.toolName = some toolName) :
    maybeExecuteTool reader settings state =
      (executeToolPlan reader state.plan toolName >>= fun result =>
        afterCall reader settings toolName result state.confirmedSearchTarget.isSome
          (recordCall reader state.plan toolName result state)) := by
  unfold maybeExecuteTool
  rw [hplan, hname]
  rfl

theorem asks_afterCall (toolName : String) (result : ToolRunResponse) (enrichment : Bool)
    (state : AgentGraphState) :
    (afterCall reader settings toolName result enrichment state).Asks
      (fun q => Carries state.message state.taskType q ∨ Unconfirmed q) (SameTask state) := by
  unfold afterCall
  split_ifs
  · exact asks_enrichWebSearchWithFetch reader settings state result
  · exact asks_fetchSearchTargets reader settings state
  · exact ⟨rfl, rfl, rfl⟩

/-! ### The planners and the executor -/

/-- The requests of the planners. -/
def Looks : Request → Prop
  | .registryGet _ | .listTools | .webSearchQuery _ => True
  | _ => False

/-- The requests of the planners and of the executor. -/
def Inner : Request → Prop
  | .registryGet _ | .listTools | .webSearchQuery _ | .call _ _ _ | .dispatch _ _ _ => True
  | _ => False

theorem Looks.inner {q : Request} (h : Looks q) : Inner q := by
  cases q <;> first | exact h | trivial

/-- The state without what the nodes after `retrieve_context` write, their round apart. -/
def AgentGraphState.frame (state : AgentGraphState) : AgentGraphState :=
  { state with
    plan := .none ""
    toolCalls := []
    observations := []
    searchFetchTargets := []
    confirmedSearchTarget := none
    finalAnswer := "" }

theorem looks_planGithubTool (state : AgentGraphState) :
    (planGithubTool reader state).Asks Looks fun _ => True := by
  unfold planGithubTool
  split
  · trivial
  · refine ⟨trivial, fun tools => ?_⟩
    simp only [Program.bind_eq, Program.done_bind]
    split <;> trivial

theorem looks_planFetchTool (state : AgentGraphState) :
    (planFetchTool reader settings state).Asks Looks fun _ => True := by
  unfold planFetchTool
  split
  · trivial
  · refine ⟨trivial, fun tool => ?_⟩
    simp only [Program.bind_eq, Program.done_bind]
    split
    · split_ifs <;> trivial
    · trivial

theorem looks_planHuggingfaceTool (state : AgentGraphState) :
    (planHuggingfaceTool reader state).Asks Looks fun _ => True := by
  unfold planHuggingfaceTool
  split_ifs
  · refine ⟨trivial, fun tools => ?_⟩
    simp only [Program.bind_eq, Program.done_bind]
    split_ifs
    · trivial
    · split
      · trivial
      · split
        · trivial
        · refine ⟨trivial, fun tool => ?_⟩
          cases tool <;> trivial
  · trivial

theorem looks_planMcpTool (state : AgentGraphState) :
    (planMcpTool reader state).Asks Looks fun _ => True := by
  refine ⟨trivial, fun tools => ?_⟩
  simp only [Program.bind_eq, Program.done_bind]
  split
  · trivial
  · refine ⟨trivial, fun tool => ?_⟩
    cases tool <;> trivial

theorem looks_planLastResort (state : AgentGraphState) :
    (planLastResort reader state).Asks Looks fun _ => True := by
  unfold planLastResort
  split_ifs
  · exact ⟨trivial, fun tool => ⟨trivial, fun query => trivial⟩⟩
  · refine ⟨trivial, fun tools => ?_⟩
    simp only [Program.bind_eq, Program.done_bind]
    split_ifs
    · trivial
    · refine (looks_planMcpTool reader state).seq fun plan _ => ?_
      cases plan <;> trivial

theorem looks_planWebTool (state : AgentGraphState) :
    (planWebTool reader settings state).Asks Looks fun _ => True := by
  refine (looks_planFetchTool reader settings state).seq fun plan _ => ?_
  cases plan with
  | some plan => trivial
  | none =>
    refine (looks_planHuggingfaceTool reader state).seq fun plan _ => ?_
    cases plan with
    | some plan => trivial
    | none => exact looks_planLastResort reader state

theorem looks_planNextStep (state : AgentGraphState) :
    (planNextStep reader settings state).Asks Looks fun _ => True := by
  unfold planNextStep
  split
  · trivial
  · refine (looks_planGithubTool reader state).seq fun plan _ => ?_
    cases plan with
    | some plan => trivial
    | none =>
      simp only
      split
      · split_ifs
        · exact ⟨trivial, fun tool => trivial⟩
        · exact looks_planWebTool reader settings state
      · exact looks_planWebTool reader settings state

/-- The early plan calls a tool that needs a confirmation. -/
theorem looks_planEarlyConfirmableTool (state : AgentGraphState) :
    (planEarlyConfirmableTool reader settings state).Asks Looks fun plan =>
      ∀ p ∈ plan, p.noTool = false ∧ p.requiresConfirmation = true := by
  have hlast (plan : Option AgentToolPlan) :
      (pure (plan.filter fun plan => !plan.noTool && plan.requiresConfirmation) :
        AgentProgram (Option AgentToolPlan)).Asks Looks fun plan =>
          ∀ p ∈ plan, p.noTool = false ∧ p.requiresConfirmation = true := by
    intro p hp
    have := (Option.filter_eq_some_iff.mp hp).2
    simpa using this
  unfold planEarlyConfirmableTool
  split_ifs
  · exact (looks_planGithubTool reader state).seq fun plan _ => hlast plan
  · exact hlast none
  · exact (looks_planFetchTool reader settings state).seq fun plan _ => hlast plan

theorem inner_planNextStep (state : AgentGraphState) :
    (planNextStep reader settings state).Asks Inner fun _ => True :=
  (looks_planNextStep reader settings state).mono (fun _ => Looks.inner) fun _ h => h

theorem inner_planEarlyConfirmableTool (state : AgentGraphState) :
    (planEarlyConfirmableTool reader settings state).Asks Inner fun plan =>
      ∀ p ∈ plan, p.noTool = false ∧ p.requiresConfirmation = true :=
  (looks_planEarlyConfirmableTool reader settings state).mono (fun _ => Looks.inner) fun _ h => h

theorem inner_runTool (tool : RegisteredTool) (arguments : JsonObject) (confirmed : Bool) :
    (runTool reader tool arguments confirmed).Asks Inner fun _ => True := by
  refine ⟨trivial, fun stamp => ?_⟩
  simp only [Program.bind_eq, Program.done_bind]
  split
  · trivial
  · exact ⟨trivial, fun _ => trivial⟩

theorem frame_fetchesDone (state : AgentGraphState) :
    (fetchesDone reader state).frame = state.frame := by
  unfold fetchesDone
  simp only
  split
  · rfl
  · split <;> rfl

theorem inner_fetchTargets (tool : RegisteredTool) (targets : List SearchTarget)
    (state : AgentGraphState) :
    (fetchTargets reader settings tool targets state).Asks Inner fun state' =>
      state'.frame = state.frame := by
  induction targets generalizing state with
  | nil => exact frame_fetchesDone reader state
  | cons target rest ih =>
    refine (inner_runTool reader tool _ _).seq fun result _ => ?_
    simp only
    split_ifs
    · exact rfl
    · exact ih (recordFetch reader settings tool target rest result state)

theorem inner_fetchSearchTargets (state : AgentGraphState) :
    (fetchSearchTargets reader settings state).Asks Inner fun state' =>
      state'.frame = state.frame := by
  refine ⟨trivial, fun tool => ?_⟩
  cases tool with
  | none => exact rfl
  | some tool => exact inner_fetchTargets reader settings tool _ state

theorem inner_afterCall (toolName : String) (result : ToolRunResponse) (enrichment : Bool)
    (state : AgentGraphState) :
    (afterCall reader settings toolName result enrichment state).Asks Inner fun state' =>
      state'.frame = state.frame := by
  unfold afterCall
  split_ifs
  · refine ⟨trivial, fun tool => ?_⟩
    cases tool with
    | none => exact rfl
    | some tool =>
      simp only [Program.bind_eq, Program.done_bind]
      split_ifs
      · exact rfl
      · exact inner_fetchSearchTargets reader settings
          { state with searchFetchTargets := searchResultFetchTargets reader result }
  · exact inner_fetchSearchTargets reader settings state
  · exact rfl

theorem frame_recordCall (plan : AgentToolPlan) (toolName : String) (result : ToolRunResponse)
    (state : AgentGraphState) :
    (recordCall reader plan toolName result state).frame = state.frame := by
  unfold recordCall
  simp only
  split <;> rfl

/-- The executor writes nothing but the calls, their observations and what becomes of them. -/
theorem inner_maybeExecuteTool (state : AgentGraphState) :
    (maybeExecuteTool reader settings state).Asks Inner fun state' =>
      state'.frame = state.frame := by
  have hafter (toolName : String) (result : ToolRunResponse) :
      (afterCall reader settings toolName result state.confirmedSearchTarget.isSome
        (recordCall reader state.plan toolName result state)).Asks Inner fun state' =>
          state'.frame = state.frame :=
    (inner_afterCall reader settings toolName result _ _).mono (fun _ h => h) fun _ h =>
      h.trans (frame_recordCall reader _ _ _ _)
  cases hno : state.plan.noTool with
  | true =>
    unfold maybeExecuteTool
    rw [hno]
    exact rfl
  | false =>
    cases hname : state.plan.toolName with
    | none =>
      unfold maybeExecuteTool
      rw [hno, hname]
      exact rfl
    | some toolName =>
      rw [maybeExecuteTool_eq reader settings hno hname]
      refine ⟨trivial, fun tool => ?_⟩
      cases tool with
      | none => exact hafter toolName _
      | some tool =>
        exact (inner_runTool reader tool _ _).seq fun result _ => hafter toolName result

end

end AgentDemo
