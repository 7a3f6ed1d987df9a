import AgentDemo.Agent.SearchTrace
import AgentDemo.System.GraphRuns

/-! The runs around a web search: what they dispatch, what they record, and where they stop for
the confirmation of a page. -/
namespace AgentDemo

def dispatchedCall : (q : Request) × q.Answer → Option (String × JsonObject)
  | ⟨.dispatch tool arguments _, _⟩ => some (tool.manifest.name, arguments)
  | _ => none

/-- The tools and the arguments of the dispatched calls, in order. -/
def dispatchedCalls (log : AgentLog) : List (String × JsonObject) := log.filterMap dispatchedCall

def enteredPlan : (q : Request) × q.Answer → Option AgentToolPlan
  | ⟨.superstep .executeTool state, _⟩ => some state.plan
  | _ => none

/-- The plan with which a run enters `execute_tool` for the first time. -/
def firstPlan (log : AgentLog) : Option AgentToolPlan := log.findSome? enteredPlan

def Persisted.approval? : Persisted → Option Message
  | .approval m => some m
  | _ => none

def savedApproval (settings : AgentSettings) (e : (q : Request) × q.Answer) : Option Message :=
  (persisted settings e).bind Persisted.approval?

def savedApprovals (settings : AgentSettings) (log : AgentLog) : List Message :=
  log.filterMap (savedApproval settings)

/-- Requests that dispatch nothing, store no approval and enter no `execute_tool`. -/
def Idle : Request → Prop
  | .dispatch _ _ _ | .superstep .executeTool _ | .createApproval _ => False
  | _ => True

theorem Idle.of_looks {q : Request} (h : Looks q) : Idle q := by
  cases q <;> first | exact h | trivial

structure Effects (settings : AgentSettings) (log : AgentLog) (calls : List (String × JsonObject))
    (approvals : List Message) : Prop where
  calls : dispatchedCalls log = calls
  approvals : savedApprovals settings log = approvals

section

variable {reader : TextReader} {settings : AgentSettings} {tools : SearchTools}

theorem Effects.append {log log' : AgentLog} {calls calls' : List (String × JsonObject)}
    {approvals approvals' : List Message} (h : Effects settings log calls approvals)
    (h' : Effects settings log' calls' approvals') :
    Effects settings (log ++ log') (calls ++ calls') (approvals ++ approvals') := by
  constructor
  · rw [← h.calls, ← h'.calls]
    exact List.filterMap_append
  · rw [← h.approvals, ← h'.approvals]
    exact List.filterMap_append

theorem Idle.entry {e : (q : Request) × q.Answer} (h : Idle e.1) (settings : AgentSettings) :
    dispatchedCall e = none ∧ enteredPlan e = none ∧ savedApproval settings e = none := by
  obtain ⟨q, a⟩ := e
  cases q with
  | superstep node state =>
    cases node with
    | executeTool => exact absurd h nofun
    | _ => exact ⟨rfl, rfl, rfl⟩
  | dispatch tool arguments confirmed => exact absurd h nofun
  | createApproval state => exact absurd h nofun
  | _ => exact ⟨rfl, rfl, rfl⟩

theorem Effects.cons {e : (q : Request) × q.Answer} {log : AgentLog}
    {calls : List (String × JsonObject)} {approvals : List Message} (hidle : Idle e.1)
    (h : Effects settings log calls approvals) : Effects settings (e :: log) calls approvals := by
  obtain ⟨hcall, -, happroval⟩ := hidle.entry settings
  constructor
  · unfold dispatchedCalls
    rw [List.filterMap_cons_none hcall]
    exact h.calls
  · unfold savedApprovals
    rw [List.filterMap_cons_none happroval]
    exact h.approvals

theorem effects_of_idle (settings : AgentSettings) {log : AgentLog} (h : ∀ e ∈ log, Idle e.1) :
    Effects settings log [] [] ∧ firstPlan log = none := by
  refine ⟨⟨?_, ?_⟩, ?_⟩
  · exact List.filterMap_eq_nil_iff.mpr fun e he => ((h e he).entry settings).1
  · exact List.filterMap_eq_nil_iff.mpr fun e he => ((h e he).entry settings).2.2
  · exact List.findSome?_eq_none_iff.mpr fun e he => ((h e he).entry settings).2.1

/-- The executor stores no approval. -/
theorem savedApprovals_of_inner (settings : AgentSettings) {log : AgentLog}
    (h : ∀ e ∈ log, Inner e.1) : savedApprovals settings log = [] := by
  apply List.filterMap_eq_nil_iff.mpr
  intro e he
  have hinner := h e he
  obtain ⟨q, a⟩ := e
  cases q <;> first | rfl | exact absurd hinner nofun

theorem idle_of_asks (settings : AgentSettings) {α : Type} {p : AgentProgram α} {post : α → Prop}
    {log : AgentLog} {r : α} (h : p.Asks Idle post) (hr : p.RunsWith tools.Answers log r) :
    Effects settings log [] [] ∧ firstPlan log = none ∧ post r := by
  have hrun := h.of_runs hr.1
  have heffects := effects_of_idle settings hrun.1
  exact ⟨heffects.1, heffects.2, hrun.2⟩

/-! ### The calls of the executor -/

/-- What the executor does with a call. -/
theorem runsWith_runTool {tool : RegisteredTool} {arguments : JsonObject} {confirmed : Bool}
    {log : AgentLog} {result : ToolRunResponse}
    (h : (runTool reader tool arguments confirmed).RunsWith tools.Answers log result) :
    result.unstamped = toolResponse reader tool ⟨"", 0⟩
        ((refusal tool confirmed).getD (tools.outcome tool.manifest.name arguments)) ∧
      dispatchedCalls log = if (refusal tool confirmed).isNone then
        [(tool.manifest.name, arguments)] else [] := by
  obtain ⟨stamp, rest, rfl, -, hrest⟩ := Program.runsWith_ask.mp h
  simp only [Program.bind_eq, Program.done_bind] at hrest
  cases hr : refusal tool confirmed with
  | some outcome =>
    simp only [hr] at hrest
    obtain ⟨rfl, rfl⟩ := Program.runsWith_done.mp hrest
    exact ⟨rfl, rfl⟩
  | none =>
    simp only [hr] at hrest
    obtain ⟨outcome, _, rfl, houtcome, hdone⟩ := Program.runsWith_ask.mp hrest
    obtain ⟨rfl, rfl⟩ := Program.runsWith_done.mp hdone
    have houtcome : outcome = tools.outcome tool.manifest.name arguments := houtcome
    rw [houtcome]
    exact ⟨rfl, rfl⟩

def RegisteredTool.Waits (tool : RegisteredTool) : Prop :=
  tool.manifest.enabled = true ∧ tool.manifest.requiresConfirmation = true

theorem refusal_of_waits {tool : RegisteredTool} (h : tool.Waits) :
    refusal tool true = none ∧
      refusal tool false = some ⟨.failed, .null, some confirmationError⟩ := by
  simp [refusal, h.1, h.2]

theorem refusal_of_not_waits {tool : RegisteredTool} (h : ¬ tool.Waits) :
    refusal tool false = refusal tool true := by
  unfold refusal
  cases he : tool.manifest.enabled with
  | false => rfl
  | true =>
    have hc : tool.manifest.requiresConfirmation = false :=
      Bool.eq_false_iff.mpr fun hc => h ⟨he, hc⟩
    simp [hc]

/-- The call that fetches a page. -/
def pageCall (settings : AgentSettings) (target : SearchTarget) : String × JsonObject :=
  (mcpFetchToolName, fetchArguments settings target.url)

/-- The last call waits for the confirmation of a page, behind the pages that are recorded. -/
structure SearchTools.Pausing (tools : SearchTools) (reader : TextReader)
    (settings : AgentSettings) (tool : RegisteredTool) (arguments : JsonObject)
    (fetched : List SearchTarget) (target : SearchTarget) (rest : List SearchTarget)
    (state : AgentGraphState) : Prop where
  last : ∃ call, state.toolCalls.getLast? = some call ∧
    call.toolName = tool.manifest.name ∧
    call.arguments = fetchArguments settings target.url ∧ call.searchTarget = some target ∧
    call.requiresConfirmation = true ∧ call.result.status = .failed ∧
    call.result.error = some confirmationError
  before : tools.Gathered reader settings tool arguments fetched
    { state with
      toolCalls := state.toolCalls.dropLast
      observations := state.observations.dropLast }
  rest : state.searchFetchTargets = rest

variable {tool : RegisteredTool} {arguments : JsonObject} {fetched targets : List SearchTarget}
  {state state' : AgentGraphState} {log : AgentLog}

/-- The loop over the pages where Fetch does not wait. -/
theorem fetchTargets_open (hopen : ¬ tool.Waits)
    (hgathered : tools.Gathered reader settings tool arguments fetched state)
    (h : (fetchTargets reader settings tool targets state).RunsWith tools.Answers log state') :
    state'.searchTrace =
        (tools.trace reader settings tool arguments (fetched ++ targets)).closed ∧
      (∀ call ∈ state'.toolCalls, call.result.error ≠ some confirmationError) ∧
      dispatchedCalls log = if (refusal tool true).isNone then
        targets.map fun target => (tool.manifest.name, fetchArguments settings target.url)
      else [] := by
  induction targets generalizing fetched state log with
  | nil =>
    obtain ⟨rfl, rfl⟩ := Program.runsWith_done.mp h
    refine ⟨?_, ?_, ?_⟩
    · rw [searchTrace_fetchesDone hgathered.enrichment, hgathered.trace, List.append_nil]
    · rw [toolCalls_fetchesDone]
      exact hgathered.error
    · simp [dispatchedCalls]
  | cons target rest ih =>
    obtain ⟨log₁, result, log₂, rfl, h₁, h₂⟩ := Program.runsWith_bind.mp h
    obtain ⟨hresult, hcall⟩ := runsWith_runTool h₁
    rw [refusal_of_not_waits hopen] at hresult hcall
    have hresult : result.unstamped =
        tools.response reader tool (fetchArguments settings target.url) := hresult
    have herror : result.error ≠ some confirmationError := by
      have herror := tools.confirmedOutcome_error tool (fetchArguments settings target.url)
      have heq := congrArg ToolRunResponse.error hresult
      exact fun h => herror (heq.symm.trans h)
    simp only [herror, ↓reduceIte] at h₂
    have hadd : tools.Gathered reader settings tool arguments (fetched ++ [target])
        (recordFetch reader settings tool target rest result state) := by
      refine hgathered.add rfl rfl ?_ rfl ?_
      · unfold ToolCallRecord.view SearchTools.pageView
        rw [← hresult]
        rfl
      · unfold SearchTools.pageObservation
        rw [← hresult]
        rfl
    obtain ⟨htrace, herrors, hcalls⟩ := ih hadd h₂
    refine ⟨?_, herrors, ?_⟩
    · rw [htrace, List.append_assoc, List.singleton_append]
    · have happend :
        dispatchedCalls (log₁ ++ log₂) = dispatchedCalls log₁ ++ dispatchedCalls log₂ :=
        List.filterMap_append
      rw [happend, hcall, hcalls]
      split_ifs <;> rfl

/-- The loop over the pages where Fetch waits stops at the first one. -/
theorem fetchTargets_waits (hwaits : tool.Waits)
    (hgathered : tools.Gathered reader settings tool arguments fetched state)
    (h : (fetchTargets reader settings tool targets state).RunsWith tools.Answers log state') :
    dispatchedCalls log = [] ∧
      (targets = [] ∧
          state'.searchTrace = (tools.trace reader settings tool arguments fetched).closed ∧
          (∀ call ∈ state'.toolCalls, call.result.error ≠ some confirmationError) ∨
        ∃ target rest, targets = target :: rest ∧
          tools.Pausing reader settings tool arguments fetched target rest state') := by
  cases targets with
  | nil =>
    obtain ⟨rfl, rfl⟩ := Program.runsWith_done.mp h
    refine ⟨rfl, Or.inl ⟨rfl, ?_, ?_⟩⟩
    · rw [searchTrace_fetchesDone hgathered.enrichment, hgathered.trace]
    · rw [toolCalls_fetchesDone]
      exact hgathered.error
  | cons target rest =>
    obtain ⟨log₁, result, log₂, rfl, h₁, h₂⟩ := Program.runsWith_bind.mp h
    obtain ⟨hresult, hcall⟩ := runsWith_runTool h₁
    rw [(refusal_of_waits hwaits).2] at hresult hcall
    have herror : result.error = some confirmationError :=
      congrArg ToolRunResponse.error hresult
    have hstatus : result.status = .failed := congrArg ToolRunResponse.status hresult
    simp only [herror, ↓reduceIte] at h₂
    obtain ⟨rfl, rfl⟩ := Program.runsWith_done.mp h₂
    refine ⟨?_, Or.inr ⟨target, rest, rfl, ?_⟩⟩
    · rw [List.append_nil, hcall]
      rfl
    · have hlast : (recordFetch reader settings tool target rest result state).toolCalls.getLast? =
          some (fetchCall settings tool target result) := by simp [recordFetch]
      refine ⟨⟨_, hlast, rfl, rfl, rfl, hwaits.2, hstatus, herror⟩, ?_, rfl⟩
      have hcalls : (recordFetch reader settings tool target rest result state).toolCalls.dropLast =
          state.toolCalls := by simp [recordFetch]
      have hobservations :
          (recordFetch reader settings tool target rest result state).observations.dropLast =
            state.observations := by simp [recordFetch]
      rw [hcalls, hobservations]
      exact ⟨hgathered.trace, hgathered.enrichment⟩

/-- A page is next, and Fetch waits for its confirmation. -/
structure SearchTools.Position (tools : SearchTools) (reader : TextReader)
    (settings : AgentSettings) (arguments : JsonObject) (tool : RegisteredTool)
    (fetched : List SearchTarget) (target : SearchTarget) (rest : List SearchTarget) : Prop where
  fetch : tools.fetch = some tool
  waits : tool.Waits
  pages : tools.pages reader arguments = fetched ++ target :: rest
  whole : tools.wholeTrace reader settings arguments =
    (tools.trace reader settings tool arguments (tools.pages reader arguments)).closed

/-- What `execute_tool` leaves after the pages that have been dispatched. -/
inductive SearchTools.Progress (tools : SearchTools) (reader : TextReader)
    (settings : AgentSettings) (arguments : JsonObject) (state : AgentGraphState) :
    List SearchTarget → Prop where
  | whole {fetched : List SearchTarget}
      (trace : state.searchTrace = tools.wholeTrace reader settings arguments)
      (error : ∀ call ∈ state.toolCalls, call.result.error ≠ some confirmationError)
      (sub : fetched <+: tools.pages reader arguments) :
      Progress tools reader settings arguments state fetched
  | paused {tool : RegisteredTool} {fetched : List SearchTarget} {target : SearchTarget}
      {rest : List SearchTarget}
      (position : tools.Position reader settings arguments tool fetched target rest)
      (pausing : tools.Pausing reader settings tool arguments fetched target rest state) :
      Progress tools reader settings arguments state fetched

/-- The round counter is no part of the progress. -/
theorem SearchTools.Progress.round {rounds : ℕ}
    (h : tools.Progress reader settings arguments state fetched) :
    tools.Progress reader settings arguments { state with toolRounds := rounds } fetched := by
  cases h with
  | whole trace error sub => exact .whole trace error sub
  | paused position pausing =>
    exact .paused position ⟨pausing.last, ⟨pausing.before.trace, pausing.before.enrichment⟩,
      pausing.rest⟩

/-- The node `execute_tool` stores nothing. -/
theorem runsWith_executeToolNode
    (h : (executeToolNode reader settings state).RunsWith tools.Answers log state') :
    ∃ called rest, log = ⟨.superstep .executeTool state, ()⟩ :: rest ∧
      (maybeExecuteTool reader settings state).RunsWith tools.Answers rest called ∧
      state' = { called with toolRounds := called.toolRounds + 1 } ∧
      called.frame = state.frame ∧ Effects settings log (dispatchedCalls rest) [] := by
  obtain ⟨_, rest, rfl, -, h⟩ := Program.runsWith_ask.mp h
  simp only [Program.bind_eq, Program.done_bind] at h
  obtain ⟨log₁, called, log₂, rfl, h₁, h₂⟩ := Program.runsWith_bind.mp h
  obtain ⟨rfl, rfl⟩ := Program.runsWith_done.mp h₂
  obtain ⟨hinner, hframe⟩ := (inner_maybeExecuteTool reader settings state).of_runs h₁.1
  rw [List.append_nil]
  refine ⟨called, log₁, rfl, h₁, rfl, hframe, rfl, ?_⟩
  have hnone := savedApprovals_of_inner settings hinner
  exact hnone

/-- The loop over all pages of a search. -/
theorem progress_fetchTargets (hfetch : tools.fetch = some tool)
    (hwhole : tools.wholeTrace reader settings arguments =
      (tools.trace reader settings tool arguments (tools.pages reader arguments)).closed)
    (hpages : tools.pages reader arguments = fetched ++ targets)
    (hnow : fetched = [] ∨ tool.Waits)
    (hgathered : tools.Gathered reader settings tool arguments fetched state)
    (h : (fetchTargets reader settings tool targets state).RunsWith tools.Answers log state') :
    ∃ new, tools.Progress reader settings arguments state' (fetched ++ new) ∧
      dispatchedCalls log = new.map (pageCall settings) ∧ (tool.Waits → new = []) := by
  by_cases hwaits : tool.Waits
  · obtain ⟨hcalls, hend⟩ := fetchTargets_waits hwaits hgathered h
    refine ⟨[], ?_, hcalls, fun _ => rfl⟩
    rw [List.append_nil]
    rcases hend with ⟨rfl, htrace, herror⟩ | ⟨target, rest, rfl, hpausing⟩
    · rw [List.append_nil] at hpages
      rw [← hpages] at htrace ⊢
      exact .whole (htrace.trans hwhole.symm) herror (List.prefix_refl _)
    · exact .paused ⟨hfetch, hwaits, hpages, hwhole⟩ hpausing
  · have hnil : fetched = [] := hnow.resolve_right hwaits
    subst hnil
    rw [List.nil_append] at hpages
    obtain ⟨htrace, herror, hcalls⟩ := fetchTargets_open hwaits hgathered h
    rw [List.nil_append, ← hpages, ← hwhole] at htrace
    have hname : tool.manifest.name = mcpFetchToolName := tools.fetch_name tool (by simp [hfetch])
    split_ifs at hcalls
    · refine ⟨targets, .whole htrace herror ?_, ?_, fun h => absurd h hwaits⟩
      · rw [List.nil_append, hpages]
      · rw [hcalls, hname]
        rfl
    · exact ⟨[], .whole htrace herror List.nil_prefix, hcalls, fun h => absurd h hwaits⟩

theorem view_planCall {plan : AgentToolPlan} {toolName : String} {result : ToolRunResponse} :
    (planCall plan toolName result).view = ⟨toolName, plan.arguments, result.unstamped, none⟩ := rfl

/-- What the search itself records. -/
theorem gathered_search {plan : AgentToolPlan} {result : ToolRunResponse}
    (hresult : result.unstamped = tools.response reader tools.search plan.arguments)
    (hcalls : state.toolCalls = []) (hobservations : state.observations = [])
    (htarget : state.confirmedSearchTarget = none) :
    tools.Gathered reader settings tool plan.arguments []
      (recordCall reader plan webSearchToolName result state) := by
  have hrecorded : (recordCall reader plan webSearchToolName result state).toolCalls =
        [planCall plan webSearchToolName result] ∧
      (recordCall reader plan webSearchToolName result state).observations =
        [formatToolObservation reader result] := by
    simp [recordCall, htarget, hcalls, hobservations]
  have hobservation : formatToolObservation reader result =
      formatToolObservation reader (tools.response reader tools.search plan.arguments) := by
    rw [← hresult]
    rfl
  constructor
  · unfold AgentGraphState.searchTrace SearchTools.trace SearchTools.searchView
    rw [hrecorded.1, hrecorded.2, List.map_singleton, view_planCall, hresult, hobservation]
    rfl
  · rw [hrecorded.1]
    intro call hmem
    rw [List.mem_singleton.mp hmem]
    rfl

/-- A remark that ends a search without pages. -/
theorem searchTrace_remark (hgathered : tools.Gathered reader settings tool arguments [] state)
    (remark : String) :
    ({ state with observations := state.observations ++ [remark] } : AgentGraphState).searchTrace =
      ⟨[tools.searchView reader arguments],
        [formatToolObservation reader (tools.response reader tools.search arguments), remark]⟩ := by
  have hcalls := congrArg SearchTrace.calls hgathered.trace
  have hobservations := congrArg SearchTrace.observations hgathered.trace
  simp only [AgentGraphState.searchTrace] at hcalls hobservations ⊢
  rw [hcalls, hobservations]
  rfl

/-- The enrichment of a search up to its end or to the first page that waits. -/
theorem progress_enrichWebSearchWithFetch {result : ToolRunResponse}
    (hresult : result.unstamped = tools.response reader tools.search arguments)
    (hok : (tools.response reader tools.search arguments).status = .success)
    (hgathered : ∀ tool, tools.Gathered reader settings tool arguments [] state)
    (h :
      (enrichWebSearchWithFetch reader settings state result).RunsWith tools.Answers log state') :
    ∃ fetched, tools.Progress reader settings arguments state' fetched ∧
      dispatchedCalls log = fetched.map (pageCall settings) := by
  have hpages : searchResultFetchTargets reader result = tools.pages reader arguments := by
    unfold SearchTools.pages
    rw [← hresult]
    rfl
  have herror := (hgathered tools.search).error
  obtain ⟨fetch, rest, rfl, hfetch, h⟩ := Program.runsWith_ask.mp h
  obtain rfl : fetch = tools.fetch := hfetch.2 rfl
  cases htool : tools.fetch with
  | none =>
    rw [htool] at h
    obtain ⟨rfl, rfl⟩ := Program.runsWith_done.mp h
    have htrace := searchTrace_remark (hgathered tools.search)
    refine ⟨[], .whole ((htrace _).trans ?_) herror List.nil_prefix, rfl⟩
    simp [SearchTools.wholeTrace, hok, htool]
  | some tool =>
    rw [htool] at h
    simp only [Program.bind_eq, Program.done_bind, hpages] at h
    split_ifs at h with hempty
    · obtain ⟨rfl, rfl⟩ := Program.runsWith_done.mp h
      have htrace := searchTrace_remark (hgathered tools.search)
      refine ⟨[], .whole ((htrace _).trans ?_) herror List.nil_prefix, rfl⟩
      simp [SearchTools.wholeTrace, hok, htool, hempty]
    · obtain ⟨again, rest', rfl, hagain, h⟩ := Program.runsWith_ask.mp h
      obtain rfl : again = some tool := (hagain.2 rfl).trans htool
      have hwhole : tools.wholeTrace reader settings arguments =
          (tools.trace reader settings tool arguments (tools.pages reader arguments)).closed := by
        simp [SearchTools.wholeTrace, hok, htool, hempty]
      have hstart : tools.Gathered reader settings tool arguments []
          { state with searchFetchTargets := tools.pages reader arguments } :=
        ⟨(hgathered tool).trace, (hgathered tool).enrichment⟩
      obtain ⟨new, hprogress, hnew, -⟩ :=
        progress_fetchTargets htool hwhole rfl (Or.inl rfl) hstart h
      exact ⟨new, hprogress, hnew⟩

/-- The call of a search plan and its enrichment. -/
theorem progress_search (hcalls : state.toolCalls = []) (hobservations : state.observations = [])
    (htarget : state.confirmedSearchTarget = none) (hplan : state.plan.noTool = false)
    (hname : state.plan.toolName = some webSearchToolName)
    (h : (maybeExecuteTool reader settings state).RunsWith tools.Answers log state') :
    ∃ fetched, tools.Progress reader settings state.plan.arguments state' fetched ∧
      dispatchedCalls log =
        (webSearchToolName, state.plan.arguments) :: fetched.map (pageCall settings) := by
  rw [maybeExecuteTool_eq reader settings hplan hname] at h
  obtain ⟨log₁, result, log₂, rfl, h₁, h₂⟩ := Program.runsWith_bind.mp h
  obtain ⟨found, rest, rfl, hfound, h₁⟩ := Program.runsWith_ask.mp h₁
  obtain rfl : found = some tools.search := hfound.1 rfl
  have hpasses (confirmed : Bool) : refusal tools.search confirmed = none := by
    simp [refusal, tools.search_enabled, tools.search_unconfirmed]
  obtain ⟨hresult, hcall⟩ := runsWith_runTool h₁
  rw [hpasses] at hresult hcall
  have hresult : result.unstamped =
      tools.response reader tools.search state.plan.arguments := by
    rw [hresult]
    simp [SearchTools.response, SearchTools.confirmedOutcome, hpasses]
  have hstatus : result.status =
      (tools.response reader tools.search state.plan.arguments).status := by
    have heq := congrArg ToolRunResponse.status hresult
    exact heq
  have hgathered (tool : RegisteredTool) :
      tools.Gathered reader settings tool state.plan.arguments []
        (recordCall reader state.plan webSearchToolName result state) :=
    gathered_search hresult hcalls hobservations htarget
  have hfirst :
    dispatchedCalls (⟨.registryGet webSearchToolName, some tools.search⟩ :: rest ++ log₂) =
      (webSearchToolName, state.plan.arguments) :: dispatchedCalls log₂ := by
    have happend : dispatchedCalls
        (⟨.registryGet webSearchToolName, some tools.search⟩ :: rest ++ log₂) =
          dispatchedCalls rest ++ dispatchedCalls log₂ := List.filterMap_append
    rw [happend, hcall, tools.search_name]
    rfl
  rw [hfirst]
  unfold afterCall at h₂
  split_ifs at h₂ with hsuccess htargeted
  · obtain ⟨fetched, hprogress, hfetched⟩ := progress_enrichWebSearchWithFetch hresult
      (hstatus.symm.trans hsuccess.1) hgathered h₂
    exact ⟨fetched, hprogress, congrArg _ hfetched⟩
  · simp [htarget] at htargeted
  · obtain ⟨rfl, rfl⟩ := Program.runsWith_done.mp h₂
    have hbad : (tools.response reader tools.search state.plan.arguments).status ≠ .success :=
      fun hok => hsuccess ⟨hstatus.trans hok, rfl⟩
    have hsearched := hgathered tools.search
    refine ⟨[], .whole (hsearched.trace.trans ?_) hsearched.error List.nil_prefix, rfl⟩
    simp [SearchTools.wholeTrace, SearchTools.trace, hbad]

/-- The call of a confirmed page, and the pages after it. -/
theorem progress_page {target : SearchTarget} {rest : List SearchTarget}
    (hposition : tools.Position reader settings arguments tool fetched target rest)
    (hgathered : tools.Gathered reader settings tool arguments fetched state)
    (htarget : state.confirmedSearchTarget = some target) (hrest : state.searchFetchTargets = rest)
    (hplan : state.plan.noTool = false) (hname : state.plan.toolName = some mcpFetchToolName)
    (harguments : state.plan.arguments = fetchArguments settings target.url)
    (hconfirmed : state.plan.requiresConfirmation = false)
    (h : (maybeExecuteTool reader settings state).RunsWith tools.Answers log state') :
    tools.Progress reader settings arguments state' (fetched ++ [target]) ∧
      dispatchedCalls log = [pageCall settings target] := by
  have htool : tool.manifest.name = mcpFetchToolName :=
    tools.fetch_name tool (by simp [hposition.fetch])
  rw [maybeExecuteTool_eq reader settings hplan hname] at h
  obtain ⟨log₁, result, log₂, rfl, h₁, h₂⟩ := Program.runsWith_bind.mp h
  obtain ⟨found, rest₁, rfl, hfound, h₁⟩ := Program.runsWith_ask.mp h₁
  obtain rfl : found = some tool := (hfound.2 rfl).trans hposition.fetch
  obtain ⟨hresult, hcall⟩ := runsWith_runTool h₁
  have hpasses : refusal tool (!state.plan.requiresConfirmation) = none := by
    rw [hconfirmed]
    exact (refusal_of_waits hposition.waits).1
  rw [hpasses, harguments] at hresult hcall
  have hresult : result.unstamped =
      tools.response reader tool (fetchArguments settings target.url) := by
    rw [hresult]
    simp [SearchTools.response, SearchTools.confirmedOutcome,
      (refusal_of_waits hposition.waits).1]
  have hadd : tools.Gathered reader settings tool arguments (fetched ++ [target])
      (recordCall reader state.plan mcpFetchToolName result state) := by
    have hcalls : (recordCall reader state.plan mcpFetchToolName result state).toolCalls =
        state.toolCalls ++ [{ planCall state.plan mcpFetchToolName result with
          searchEnrichment := true
          searchTarget := some target }] := by simp [recordCall, htarget]
    have hobservations :
        (recordCall reader state.plan mcpFetchToolName result state).observations =
          state.observations ++ [formatSearchFetchObservation reader result target] := by
      simp [recordCall, htarget]
    refine hgathered.add hcalls hobservations ?_ rfl ?_
    · unfold ToolCallRecord.view SearchTools.pageView
      rw [← hresult, htool, ← harguments]
      rfl
    · unfold SearchTools.pageObservation
      rw [← hresult]
      rfl
  have hfirst : dispatchedCalls (⟨.registryGet mcpFetchToolName, some tool⟩ :: rest₁ ++ log₂) =
      pageCall settings target :: dispatchedCalls log₂ := by
    have happend : dispatchedCalls (⟨.registryGet mcpFetchToolName, some tool⟩ :: rest₁ ++ log₂) =
        dispatchedCalls rest₁ ++ dispatchedCalls log₂ := List.filterMap_append
    rw [happend, hcall, htool]
    rfl
  have hsearch : ¬ (result.status = .success ∧ mcpFetchToolName = webSearchToolName) := by
    rintro ⟨-, hne⟩
    exact absurd hne (by decide)
  unfold afterCall at h₂
  rw [if_neg hsearch, htarget] at h₂
  obtain ⟨again, rest₂, rfl, hagain, h₂⟩ := Program.runsWith_ask.mp h₂
  obtain rfl : again = some tool := (hagain.2 rfl).trans hposition.fetch
  have htargets : (recordCall reader state.plan mcpFetchToolName result state).searchFetchTargets =
      rest := by
    simp [recordCall, htarget, hrest]
  have hpages : tools.pages reader arguments = (fetched ++ [target]) ++ rest := by
    rw [hposition.pages, List.append_assoc, List.singleton_append]
  change (fetchTargets reader settings tool (recordCall reader state.plan mcpFetchToolName result
    state).searchFetchTargets _).RunsWith tools.Answers rest₂ state' at h₂
  rw [htargets] at h₂
  obtain ⟨new, hprogress, hnew, hnone⟩ := progress_fetchTargets hposition.fetch hposition.whole
    hpages (Or.inr hposition.waits) hadd h₂
  obtain rfl := hnone hposition.waits
  rw [List.append_nil] at hprogress
  refine ⟨hprogress, ?_⟩
  rw [hfirst]
  exact congrArg _ hnew

end

end AgentDemo
