import AgentDemo.Agent.Graph
import AgentDemo.Library.Locks
import AgentDemo.System.Approvals

/-! The agent as a system: chat runs, background runs and confirmed runs of the graph, each at
the request it waits for, with the stored approvals and a registry that may be refreshed. -/
namespace AgentDemo

structure AgentConfig where
  reader : TextReader
  settings : AgentSettings
  route : String → String → ModelRoute

/-- The claim of a confirmed run: its place among the claims, and the approval it has read. -/
structure Claimed where
  index : ℕ
  approvalId : UUID
  stored : Approval

/-- A run of the graph; `claimed` is there when `stream_confirmed_tool` has started it. -/
structure GraphRun where
  claimed : Option Claimed
  program : AgentProgram GraphEnd

def GraphRun.approvalId (r : GraphRun) : Option UUID := r.claimed.map Claimed.approvalId

/-- A request that has been answered, and the registry at that instant. -/
structure TraceEntry where
  run : ℕ
  approvalId : Option UUID
  request : Request
  registry : UnifiedToolRegistry

/-- `trace` is the history of all runs, which no step reads. -/
structure AgentWorld where
  approvals : ApprovalWorld
  registry : UnifiedToolRegistry
  runs : List GraphRun
  trace : List TraceEntry

inductive Reply where
  | unit
  | identifier (id : UUID)
  | text (s : String)
  | context (context : RetrievedContext)
  | stamp (stamp : CallStamp)
  | outcome (outcome : ToolOutcome)

def Request.read (now : Instant) : (q : Request) → Reply → Option q.Answer
  | .registryGet _, _ | .listTools, _ => none
  | .ensureConversation _, .identifier id => some id
  | .retrieveContext _, .context context => some context
  | .webSearchQuery _, .text s => some s
  | .call _ _ _, .stamp stamp => some stamp
  | .dispatch _ _ _, .outcome outcome => some outcome
  | .createApproval _, .identifier id => some (id, now)
  | .generate _, .text s => some s
  | .superstep _ _, .unit => some ()
  | .loadContext _, .unit => some ()
  | .saveUserMessage _, .unit => some ()
  | .saveAssistantMessage _, .unit => some ()
  | .updateMemorySummary _, .unit => some ()
  | .done _, .unit => some ()
  | .error _, .unit => some ()
  | _, _ => none

inductive AgentEvent where
  | approval (event : ApprovalEvent)
  | chat (userId taskId conversationId : Option UUID) (message taskType traceId : String)
  | confirm (userId : Option UUID) (payload : ToolConfirmationRequest) (traceId : String)
  | refresh (listings : List McpListing)
  | answer (run : ℕ) (reply : Reply)
  | abort (run : ℕ)

structure AgentAction where
  event : AgentEvent
  now : Instant

/-- The events of the approvals that no run of the graph takes part in. -/
def ApprovalEvent.isOutside : ApprovalEvent → Bool
  | .claim _ _ | .create _ _ _ _ _ | .run _ .done | .run _ .fail => false
  | _ => true

/-- What happens to the approval of a run when its program ends with an exception. -/
def GraphRun.failure (r : GraphRun) : ApprovalEvent :=
  match r.claimed with
  | some c => .run c.index .fail
  | none => .idle

/-- What the answer to a request does to the stored approvals. -/
def GraphRun.effect (r : GraphRun) (settings : AgentSettings) (q : Request) (reply : Reply) :
    ApprovalEvent :=
  match q, reply with
  | .createApproval state, .identifier id =>
    .create state (state.conversationId.getD 0) (state.route.getD ⟨"", "", ""⟩)
      settings.approvalTtlSeconds id
  | .done _, _ =>
    match r.claimed with
    | some c => .run c.index .done
    | none => .idle
  | .error _, _ => r.failure
  | _, _ => .idle

namespace AgentWorld

/-- Start a run of the graph, up to its first wait. -/
def start (w : AgentWorld) (claimed : Option Claimed) (program : AgentProgram GraphEnd) :
    AgentWorld :=
  { w with runs := w.runs ++ [⟨claimed, program.settle w.registry.look⟩] }

def apply (config : AgentConfig) (w : AgentWorld) (now : Instant) : AgentEvent → Option AgentWorld
  | .approval event =>
    if event.isOutside then
      (w.approvals.step ⟨event, now⟩).map fun approvals => { w with approvals }
    else none
  | .chat userId taskId conversationId message taskType traceId =>
    (w.approvals.step ⟨.idle, now⟩).map fun approvals =>
      { w with approvals }.start none (stream config.reader config.settings config.route userId
        taskId conversationId message taskType traceId)
  | .confirm userId payload traceId =>
    match w.approvals.step ⟨.claim userId payload, now⟩,
        (claim w.approvals.conversations w.approvals.messages userId payload now).1 with
    | none, _ => none
    | some approvals, .error _ => some { w with approvals }
    | some approvals, .ok m =>
      match m.metadata.approval with
      | none => none
      | some stored => some ({ w with approvals }.start
          (some ⟨w.approvals.runs.length, m.id, stored⟩)
          (streamConfirmedTool config.reader config.settings config.route userId m stored traceId))
  | .refresh listings =>
    (w.approvals.step ⟨.idle, now⟩).map fun approvals =>
      { w with approvals, registry := w.registry.refreshMcpTools config.reader listings }
  | .answer i reply =>
    match w.runs[i]? with
    | none => none
    | some r =>
      match r.program with
      | .done _ => none
      | .ask q k =>
        match q.read now reply, w.approvals.step ⟨r.effect config.settings q reply, now⟩ with
        | some a, some approvals => some { w with
            approvals
            runs := w.runs.set i { r with program := (k a).settle w.registry.look }
            trace := w.trace ++ [⟨i, r.approvalId, q, w.registry⟩] }
        | _, _ => none
  | .abort i =>
    match w.runs[i]? with
    | none => none
    | some r => (w.approvals.step ⟨r.failure, now⟩).map fun approvals =>
        { w with approvals, runs := w.runs.set i { r with program := .done (.failed "aborted") } }

def step (config : AgentConfig) (w : AgentWorld) (a : AgentAction) : Option AgentWorld :=
  w.apply config a.now a.event

/-- No runs, no approvals, and the registry after the start of the backend. -/
def initial (registry : UnifiedToolRegistry) (clock : Instant) : AgentWorld :=
  { approvals := .initial clock, registry, runs := [], trace := [] }

/-- Some run of the system leads to `w`. -/
def Reachable (config : AgentConfig) (w : AgentWorld) : Prop :=
  ∃ registry clock, Transition.Reaches (Transition.ofStep (step config)) (initial registry clock) w

inductive Change (config : AgentConfig) (w : AgentWorld) (now : Instant) : AgentWorld → Prop where
  | approvals {event : ApprovalEvent} {approvals : ApprovalWorld} (outside : event.isOutside = true)
      (step : w.approvals.step ⟨event, now⟩ = some approvals) :
      Change config w now { w with approvals }
  | refused {userId : Option UUID} {payload : ToolConfirmationRequest} {approvals : ApprovalWorld}
      {e : HttpException} (step : w.approvals.step ⟨.claim userId payload, now⟩ = some approvals)
      (refused : (claim w.approvals.conversations w.approvals.messages userId payload now).1 =
        .error e) : Change config w now { w with approvals }
  | chat {userId taskId conversationId : Option UUID} {message taskType traceId : String}
      {approvals : ApprovalWorld} (step : w.approvals.step ⟨.idle, now⟩ = some approvals) :
      Change config w now ({ w with approvals }.start none (stream config.reader config.settings
        config.route userId taskId conversationId message taskType traceId))
  | confirm {userId : Option UUID} {payload : ToolConfirmationRequest} {traceId : String}
      {approvals : ApprovalWorld} {m : Message} {stored : Approval}
      (step : w.approvals.step ⟨.claim userId payload, now⟩ = some approvals)
      (claimed :
        (claim w.approvals.conversations w.approvals.messages userId payload now).1 = .ok m)
      (hstored : m.metadata.approval = some stored) :
      Change config w now ({ w with approvals }.start (some ⟨w.approvals.runs.length, m.id, stored⟩)
        (streamConfirmedTool config.reader config.settings config.route userId m stored traceId))
  | refresh {listings : List McpListing} {approvals : ApprovalWorld}
      (step : w.approvals.step ⟨.idle, now⟩ = some approvals) :
      Change config w now { w with
        approvals, registry := w.registry.refreshMcpTools config.reader listings }
  | answer {i : ℕ} {r : GraphRun} {reply : Reply} {q : Request}
      {k : q.Answer → AgentProgram GraphEnd} {a : q.Answer} {approvals : ApprovalWorld}
      (hi : w.runs[i]? = some r) (pending : r.program = .ask q k)
      (step : w.approvals.step ⟨r.effect config.settings q reply, now⟩ = some approvals) :
      Change config w now { w with
        approvals
        runs := w.runs.set i { r with program := (k a).settle w.registry.look }
        trace := w.trace ++ [⟨i, r.approvalId, q, w.registry⟩] }
  | abort {i : ℕ} {r : GraphRun} {approvals : ApprovalWorld} (hi : w.runs[i]? = some r)
      (step : w.approvals.step ⟨r.failure, now⟩ = some approvals) :
      Change config w now { w with
        approvals, runs := w.runs.set i { r with program := .done (.failed "aborted") } }

variable {config : AgentConfig} {w w' : AgentWorld}

theorem step_change {a : AgentAction} (h : step config w a = some w') :
    Change config w a.now w' := by
  obtain ⟨event, now⟩ := a
  cases event with
  | approval event =>
    simp only [step, apply] at h
    split_ifs at h with hout
    obtain ⟨approvals, hs, rfl⟩ := Option.map_eq_some_iff.mp h
    exact .approvals hout hs
  | chat userId taskId conversationId message taskType traceId =>
    obtain ⟨approvals, hs, rfl⟩ := Option.map_eq_some_iff.mp h
    exact .chat hs
  | confirm userId payload traceId =>
    simp only [step, apply] at h
    split at h
    · cases h
    · next approvals e hs hc =>
      cases h
      exact .refused hs hc
    · next approvals m hs hc =>
      split at h
      · cases h
      · next stored hstored =>
        cases h
        exact .confirm hs hc hstored
  | refresh listings =>
    obtain ⟨approvals, hs, rfl⟩ := Option.map_eq_some_iff.mp h
    exact .refresh hs
  | answer i reply =>
    simp only [step, apply] at h
    split at h
    · cases h
    · next r hi =>
      split at h
      · cases h
      · next q k hp =>
        split at h
        · next a approvals ha hs =>
          cases h
          exact .answer hi hp hs
        · cases h
  | abort i =>
    simp only [step, apply] at h
    split at h
    · cases h
    · next r hi =>
      obtain ⟨approvals, hs, rfl⟩ := Option.map_eq_some_iff.mp h
      exact .abort hi hs

/-- Each step of the agent is a step of its stored approvals. -/
theorem Change.approvals_step {now : Instant} (h : Change config w now w') :
    ∃ event, w.approvals.step ⟨event, now⟩ = some w'.approvals := by
  cases h with
  | approvals hout hs => exact ⟨_, hs⟩
  | refused hs hc => exact ⟨_, hs⟩
  | chat hs => exact ⟨_, hs⟩
  | confirm hs hc hst => exact ⟨_, hs⟩
  | refresh hs => exact ⟨_, hs⟩
  | answer hi hp hs => exact ⟨_, hs⟩
  | abort hi hs => exact ⟨_, hs⟩

/-- The runs of the agent project onto runs of the stored approvals. -/
theorem Reachable.approvals (h : Reachable config w) : w.approvals.Reachable := by
  obtain ⟨registry, clock, hrun⟩ := h
  refine ⟨clock, hrun.project AgentWorld.approvals fun u a v hv => Or.inr ?_⟩
  obtain ⟨event, hs⟩ := (step_change hv).approvals_step
  exact ⟨_, hs⟩

/-- A later state of the same run of the system. -/
abbrev Later (config : AgentConfig) : AgentWorld → AgentWorld → Prop :=
  Transition.Reaches (Transition.ofStep (step config))

theorem Reachable.later (h : Reachable config w) (hl : Later config w w') :
    Reachable config w' := by
  obtain ⟨registry, clock, hrun⟩ := h
  exact ⟨registry, clock, hrun.trans hl⟩

end AgentWorld

/-- Whether a request waits does not depend on what the registry holds. -/
theorem UnifiedToolRegistry.look_eq_none {registry registry' : UnifiedToolRegistry} {q : Request}
    (h : registry.look q = none) : registry'.look q = none := by
  cases q <;> first | rfl | cases h

namespace AgentWorld

variable {config : AgentConfig} {w w' : AgentWorld}

/-- Every run stands at a request that it waits for, or at its end. -/
def Waiting (w : AgentWorld) : Prop :=
  ∀ r ∈ w.runs, r.program.Waits w.registry.look

theorem waits_of_registry {p : AgentProgram GraphEnd} {registry registry' : UnifiedToolRegistry}
    (h : p.Waits registry.look) : p.Waits registry'.look := by
  cases p with
  | done _ => trivial
  | ask q k => exact UnifiedToolRegistry.look_eq_none h

theorem Change.waiting {now : Instant} (h : Change config w now w') (hw : w.Waiting) :
    w'.Waiting := by
  have hstart (approvals : ApprovalWorld) (claimed : Option Claimed)
      (program : AgentProgram GraphEnd) :
      Waiting (({ w with approvals } : AgentWorld).start claimed program) := by
    intro r hr
    rcases List.mem_append.mp hr with hr | hr
    · exact hw r hr
    · rw [List.mem_singleton.mp hr]
      exact Program.waits_settle _ _
  cases h with
  | approvals hout hs => exact hw
  | refused hs hc => exact hw
  | chat hs => exact hstart _ _ _
  | confirm hs hc hst => exact hstart _ _ _
  | refresh hs => exact fun r hr => waits_of_registry (hw r hr)
  | answer hi hp hs =>
    intro r hr
    rcases mem_set_cases hr with rfl | ⟨j, -, hj⟩
    · exact Program.waits_settle _ _
    · exact hw r (List.mem_of_getElem? hj)
  | abort hi hs =>
    intro r hr
    rcases mem_set_cases hr with rfl | ⟨j, -, hj⟩
    · trivial
    · exact hw r (List.mem_of_getElem? hj)

theorem Reachable.waiting (h : Reachable config w) : w.Waiting := by
  obtain ⟨registry, clock, hrun⟩ := h
  exact hrun.invariant (I := Waiting) (fun r hr => absurd hr List.not_mem_nil)
    fun u a v hu hv => (step_change hv).waiting hu

/-- The state after a list of actions, if all of them are enabled. -/
def after (config : AgentConfig) (w : AgentWorld) (as : List AgentAction) : AgentWorld :=
  (Transition.exec (step config) w as).getD w

theorem later_after {as : List AgentAction} (h : (Transition.exec (step config) w as).isSome) :
    Later config w (w.after config as) := by
  obtain ⟨w', hw'⟩ := Option.isSome_iff_exists.mp h
  rw [after, hw', Option.getD_some]
  exact .of_exec as hw'

end AgentWorld

/-! A small run: a chat asks for a tool by its name, and the client confirms the blocked call. -/

def sampleReader : TextReader where
  lower := id
  dumps _ := ""
  loads _ := none
  text _ := ""
  summarize _ := none
  isHttpUrl _ := true
  safeToolDescription _ _ _ := ""
  githubReference _ := none
  readFilePath _ := none
  requestsFileRead _ := false
  fetchUrl _ := none
  requestsFetchUrl _ := false
  mentionsHuggingfaceUrl _ := false
  huggingfaceArguments _ _ := []
  requestsWebSearch _ := false
  webSearchArguments _ _ := []
  toolAvailabilityAnswer _ _ := none
  toolFailureAnswer _ := none
  searchResultsFallbackAnswer _ := none
  sanitizeModelAnswer answer _ := answer

def sampleConfig : AgentConfig := ⟨sampleReader, ⟨20000, 12000, 900, 3⟩, fun _ _ => sampleRoute⟩

def sampleListing (name permission : String) : McpListing :=
  ⟨"notes", "stdio", some [⟨name, none, none, some permission, false, false, [], true⟩]⟩

def UnifiedToolRegistry.empty : UnifiedToolRegistry := ⟨.empty, .empty, nofun, nofun⟩

def sampleRegistry (name permission : String) : UnifiedToolRegistry :=
  UnifiedToolRegistry.empty.refreshMcpTools sampleReader [sampleListing name permission]

/-- A chat run up to the node `execute_tool`. -/
def sampleChat (message : String) : List AgentAction :=
  [⟨.approval (.openConversation ⟨30, some 1, "Notes"⟩), 0⟩,
    ⟨.chat (some 1) none (some 30) message "conversation" "trace-0", 0⟩,
    ⟨.answer 0 .unit, 0⟩, ⟨.answer 0 (.identifier 30), 0⟩] ++
  List.replicate 6 ⟨.answer 0 .unit, 0⟩ ++
  [⟨.answer 0 (.context ⟨[], [], []⟩), 0⟩, ⟨.answer 0 .unit, 0⟩]

/-- The executor refuses the call, which is stored for a confirmation. -/
def samplePause : List AgentAction :=
  [⟨.answer 0 .unit, 0⟩, ⟨.answer 0 (.stamp ⟨"trace-1", 0⟩), 0⟩, ⟨.answer 0 .unit, 0⟩,
    ⟨.answer 0 (.identifier 50), 0⟩, ⟨.answer 0 .unit, 0⟩]

def sampleConfirm : List AgentAction :=
  [⟨.confirm (some 1) (sampleConfirmation []) "trace-2", seconds 1⟩] ++
  List.replicate 4 ⟨.answer 1 .unit, seconds 1⟩ ++
  [⟨.answer 1 (.stamp ⟨"trace-3", 20⟩), seconds 1⟩,
    ⟨.answer 1 (.outcome ⟨.success, .str "deleted", none⟩), seconds 2⟩]

def samplePaused : AgentWorld :=
  (AgentWorld.initial (sampleRegistry "delete" "write") 0).after sampleConfig
    (sampleChat "Use mcp.notes.delete on note 7" ++ samplePause)

def sampleConfirmed : AgentWorld := samplePaused.after sampleConfig sampleConfirm

theorem reachable_samplePaused : samplePaused.Reachable sampleConfig :=
  ⟨sampleRegistry "delete" "write", 0, AgentWorld.later_after (by decide +kernel)⟩

theorem later_sampleConfirmed : AgentWorld.Later sampleConfig samplePaused sampleConfirmed :=
  AgentWorld.later_after (by decide +kernel)

end AgentDemo
