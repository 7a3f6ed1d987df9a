import AgentDemo.Agent.Edges
import AgentDemo.Agent.Events
import AgentDemo.System.AgentRuns

/-! Every run of the agent graph ends, with one `done` event, and stores one answer or one pending
approval. -/
namespace AgentDemo

/-- How a client or a worker starts a run. -/
inductive GraphStart where
  | chat (userId taskId conversationId : Option UUID) (message taskType traceId : String)
  | confirmed (userId : Option UUID) (approval : Message) (stored : Approval) (traceId : String)

namespace GraphStart

def mode : GraphStart → GraphMode
  | .chat .. => .chat
  | .confirmed .. => .confirmedTool

/-- The initial state that `stream` or `stream_confirmed_tool` passes to the graph. -/
def state (settings : AgentSettings) : GraphStart → AgentGraphState
  | .chat userId taskId conversationId message taskType traceId =>
    chatState settings userId taskId conversationId message taskType traceId
  | .confirmed userId approval stored traceId =>
    confirmedState settings userId approval stored traceId

/-- The graph along its edges from `START`. -/
def program (reader : TextReader) (settings : AgentSettings) (route : String → String → ModelRoute)
    (start : GraphStart) : AgentProgram (Option AgentGraphState) :=
  followEdges reader settings route start.mode (start.mode.supersteps settings.maxToolRounds)
    start.mode.start (start.state settings)

end GraphStart

inductive Persisted where
  | answer (conversationId : Option UUID) (content : String)
  | approval (message : Message)

def persisted (settings : AgentSettings) : (q : Request) × q.Answer → Option Persisted
  | ⟨.saveAssistantMessage state, _⟩ => some (.answer state.conversationId state.finalAnswer)
  | ⟨.createApproval state, (approvalId, now)⟩ =>
    (createApproval state (state.conversationId.getD 0) (state.route.getD ⟨"", "", ""⟩)
      settings.approvalTtlSeconds approvalId now now).map fun r => .approval r.1
  | _ => none

def Request.isDone : Request → Bool
  | .done _ => true
  | _ => false

def Request.isExecution : Request → Bool
  | .superstep .executeTool _ => true
  | _ => false

/-- How often a run enters the node `execute_tool`. -/
def executions (log : AgentLog) : ℕ := log.countP fun e => e.1.isExecution

/-- A message that keeps a call for its confirmation. -/
structure Pends (message : Message) (call : ToolCallRecord) : Prop where
  named : call.approvalId = some message.id
  approval : ∃ approval, message.metadata.approval = some approval ∧ approval.status = .pending ∧
    approval.toolName = call.toolName ∧ approval.arguments = call.arguments

/-- What a run has stored when it ends in a state. -/
inductive Outcome (final : AgentGraphState) : List Persisted → Prop where
  | answered : Outcome final [.answer final.conversationId final.finalAnswer]
  | paused {message : Message} {call : ToolCallRecord} (interactive : final.taskId = none)
      (last : final.toolCalls.getLast? = some call) (pends : Pends message call) :
      Outcome final [.approval message]
  | reported (background : final.taskId.isSome) (blocked : awaitsConfirmation final.toolCalls) :
      Outcome final []

/-- The run before its last event, which is `done` with the final state. -/
structure Ending (settings : AgentSettings) (count : ℕ) (before : AgentLog)
    (final : AgentGraphState) : Prop where
  one_done : ∀ e ∈ before, e.1.isDone = false
  executions : executions before = count
  outcome : Outcome final (before.filterMap (persisted settings))

/-- A part of a run that ends nothing and stores nothing. -/
def Calm (settings : AgentSettings) (log : AgentLog) : Prop :=
  ∀ e ∈ log, e.1.isDone = false ∧ persisted settings e = none

variable {reader : TextReader} {settings : AgentSettings} {route : String → String → ModelRoute}

theorem Ending.prepend {log before : AgentLog} {final : AgentGraphState} {count : ℕ}
    (h : Ending settings count before final) (hcalm : Calm settings log) :
    Ending settings (AgentDemo.executions log + count) (log ++ before) final where
  one_done e he := by
    rcases List.mem_append.mp he with he | he
    · exact (hcalm e he).1
    · exact h.one_done e he
  executions := by
    have := h.executions
    unfold AgentDemo.executions at this ⊢
    rw [List.countP_append, this]
  outcome := by
    have hnone : log.filterMap (persisted settings) = [] :=
      List.filterMap_eq_nil_iff.mpr fun e he => (hcalm e he).2
    rw [List.filterMap_append, hnone]
    exact h.outcome

/-- Requests that neither enter `execute_tool` nor end or store anything. -/
def Quiet : Request → Prop
  | .done _ | .superstep .executeTool _ | .saveAssistantMessage _ | .createApproval _ => False
  | _ => True

theorem Quiet.of_inner {q : Request} (h : Inner q) : Quiet q := by
  cases q <;> first | exact h | trivial

theorem Quiet.spec (settings : AgentSettings) {q : Request} (h : Quiet q) :
    q.isDone = false ∧ q.isExecution = false ∧ ∀ a, persisted settings ⟨q, a⟩ = none := by
  cases q with
  | superstep node state =>
    cases node with
    | executeTool => exact absurd h nofun
    | _ => exact ⟨rfl, rfl, fun _ => rfl⟩
  | done state => exact absurd h nofun
  | saveAssistantMessage state => exact absurd h nofun
  | createApproval state => exact absurd h nofun
  | _ => exact ⟨rfl, rfl, fun _ => rfl⟩

theorem calm_of_quiet (settings : AgentSettings) {log : AgentLog} (h : ∀ e ∈ log, Quiet e.1) :
    Calm settings log ∧ executions log = 0 := by
  constructor
  · intro e he
    have hspec := (h e he).spec settings
    exact ⟨hspec.1, hspec.2.2 e.2⟩
  · unfold executions
    rw [List.countP_eq_zero]
    intro e he
    rw [((h e he).spec settings).2.1]
    exact Bool.false_ne_true

theorem calm_of_asks (settings : AgentSettings) {α : Type} {p : AgentProgram α} {post : α → Prop}
    {log : AgentLog} {r : α} (h : p.Asks Quiet post) (hr : p.Runs log r) :
    Calm settings log ∧ executions log = 0 ∧ post r := by
  have hrun := h.of_runs hr
  have hcalm := calm_of_quiet settings hrun.1
  exact ⟨hcalm.1, hcalm.2, hrun.2⟩

/-- A call of the node `execute_tool`. -/
theorem calm_executeToolNode {state state' : AgentGraphState} {log : AgentLog}
    (h : (executeToolNode reader settings state).Runs log state') :
    Calm settings log ∧ executions log = 1 ∧
      state'.frame =
        ({ state with toolRounds := state.toolRounds + 1 } : AgentGraphState).frame := by
  have hpost := ((inner_executeToolNode reader settings state).of_runs h).2
  obtain ⟨_, rest, rfl, hrest⟩ := Program.runs_ask.mp h
  have hasks : (maybeExecuteTool reader settings state >>= fun state =>
      (pure { state with toolRounds := state.toolRounds + 1 } : AgentProgram AgentGraphState)).Asks
      Quiet fun _ => True :=
    ((inner_maybeExecuteTool reader settings state).mono (fun _ => Quiet.of_inner)
      fun _ h => h).seq fun _ _ => trivial
  obtain ⟨hcalm, hnone, -⟩ := calm_of_asks settings hasks hrest
  refine ⟨fun e he => ?_, ?_, hpost⟩
  · rcases List.mem_cons.mp he with rfl | he
    · exact ⟨rfl, rfl⟩
    · exact hcalm e he
  · unfold executions at hnone ⊢
    rw [List.countP_cons, hnone]
    rfl

theorem quiet_generateAnswer (reader : TextReader) (state : AgentGraphState) :
    (generateAnswer reader state).Asks Quiet fun state' => state'.frame = state.frame := by
  refine ⟨trivial, fun _ => ⟨trivial, fun tools => ?_⟩⟩
  simp only [Program.bind_eq, Program.done_bind]
  generalize (if state.confirmedTool.isNone ∧ state.toolCalls = [] then
    reader.toolAvailabilityAnswer state.message _ else none) = availability
  split
  · exact rfl
  · split
    · exact rfl
    · exact rfl
    · exact ⟨trivial, fun _ => rfl⟩

/-- The nodes from `generate_answer` on store the answer and end the run. -/
theorem ending_answerNodes (settings : AgentSettings) {state : AgentGraphState} {log : AgentLog}
    {r : GraphEnd} (h : (answerNodes reader state).Runs log r) :
    ∃ before final, log = before ++ [⟨.done final, ()⟩] ∧ r.state = some final ∧
      Ending settings 0 before final ∧ final.frame = state.frame := by
  obtain ⟨log₁, final, log₂, rfl, h₁, h₂⟩ := Program.runs_bind.mp h
  obtain ⟨_, _, rfl, h₃⟩ := Program.runs_ask.mp h₂
  obtain ⟨_, _, rfl, h₄⟩ := Program.runs_ask.mp h₃
  obtain ⟨_, _, rfl, h₅⟩ := Program.runs_ask.mp h₄
  obtain ⟨_, _, rfl, h₆⟩ := Program.runs_ask.mp h₅
  obtain ⟨_, _, rfl, h₇⟩ := Program.runs_ask.mp h₆
  obtain ⟨rfl, rfl⟩ := Program.runs_done.mp h₇
  obtain ⟨hcalm, hnone, hframe⟩ := calm_of_asks settings
    (quiet_generateAnswer reader state) h₁
  have hlast : Ending settings 0 [⟨.superstep .saveAssistantMessage final, ()⟩,
      ⟨.saveAssistantMessage final, ()⟩, ⟨.superstep .updateMemorySummary final, ()⟩,
      ⟨.updateMemorySummary final, ()⟩] final := by
    refine ⟨fun e he => ?_, rfl, .answered⟩
    simp only [List.mem_cons, List.not_mem_nil, or_false] at he
    rcases he with rfl | rfl | rfl | rfl <;> rfl
  have hall := hlast.prepend hcalm
  rw [hnone] at hall
  exact ⟨_, final, by simp, rfl, hall, hframe⟩

theorem awaits_eq_true {toolCalls : List ToolCallRecord} (h : awaitsConfirmation toolCalls = true) :
    ∃ call, toolCalls.getLast? = some call ∧ call.requiresConfirmation = true ∧
      call.result.error = some confirmationError := by
  unfold awaitsConfirmation at h
  cases hlast : toolCalls.getLast? with
  | none => simp [hlast] at h
  | some call =>
    rw [hlast] at h
    have hcall : (call.requiresConfirmation = true ∧ call.result.status = .failed) ∧
        call.result.error = some confirmationError := by simpa using h
    exact ⟨call, rfl, hcall.1.1, hcall.2⟩

/-- A pause keeps the blocked call, which is the last one. -/
theorem createApproval_eq_some {state : AgentGraphState} {call : ToolCallRecord}
    (hlast : state.toolCalls.getLast? = some call) (conversationId : UUID) (route : ModelRoute)
    (ttl : ℤ) (approvalId : UUID) (now : Instant) :
    ∃ message toolCalls blocked,
      createApproval state conversationId route ttl approvalId now now = some (message, toolCalls) ∧
        toolCalls.getLast? = some blocked ∧ Pends message blocked := by
  unfold createApproval
  rw [hlast]
  refine ⟨_, _, { call with
      approvalId := some approvalId
      approvalStatus := some .pending
      approvalExpiresAt := some (now + seconds ttl) }, rfl, by simp, rfl, _, rfl, rfl, rfl, rfl⟩

/-- The node `await_confirmation` stores the blocked call, or leaves it to the task. -/
theorem ending_awaitConfirmation {state : AgentGraphState} {log : AgentLog} {r : GraphEnd}
    (hawait : awaitsConfirmation state.toolCalls = true)
    (h : (awaitConfirmation settings state).Runs log r) :
    ∃ before final, log = before ++ [⟨.done final, ()⟩] ∧ r.state = some final ∧
      Ending settings 0 before final ∧ final.frame = state.frame := by
  obtain ⟨_, rest, rfl, hrest⟩ := Program.runs_ask.mp h
  change (if state.taskId.isSome then _ else _ : AgentProgram GraphEnd).Runs rest r at hrest
  split_ifs at hrest with htask
  · obtain ⟨_, _, rfl, hdone⟩ := Program.runs_ask.mp hrest
    obtain ⟨rfl, rfl⟩ := Program.runs_done.mp hdone
    refine ⟨[⟨.superstep .awaitConfirmation state, ()⟩], state, rfl, rfl, ?_, rfl⟩
    exact ⟨fun e he => by rw [List.mem_singleton.mp he]; rfl, rfl, .reported htask hawait⟩
  · obtain ⟨⟨approvalId, now⟩, _, rfl, hstored⟩ := Program.runs_ask.mp hrest
    obtain ⟨_, _, rfl, hdone⟩ := Program.runs_ask.mp hstored
    obtain ⟨rfl, rfl⟩ := Program.runs_done.mp hdone
    obtain ⟨call, hlast, -⟩ := awaits_eq_true hawait
    obtain ⟨message, toolCalls, blocked, hcreate, hblocked, hpends⟩ :=
      createApproval_eq_some hlast (state.conversationId.getD 0) (state.route.getD ⟨"", "", ""⟩)
        settings.approvalTtlSeconds approvalId now
    have hfinal : withApproval settings state approvalId now = { state with toolCalls } := by
      unfold withApproval
      rw [hcreate]
    have hending : Ending settings 0 [⟨.superstep .awaitConfirmation state, ()⟩,
        ⟨.createApproval state, (approvalId, now)⟩] { state with toolCalls } := by
      refine ⟨fun e he => ?_, rfl, ?_⟩
      · simp only [List.mem_cons, List.not_mem_nil, or_false] at he
        rcases he with rfl | rfl <;> rfl
      · have hstored : persisted settings ⟨.createApproval state, (approvalId, now)⟩ =
            some (.approval message) :=
          congrArg (Option.map fun r : Message × List ToolCallRecord => Persisted.approval r.1)
            hcreate
        rw [List.filterMap_cons_none rfl, List.filterMap_cons_some hstored]
        exact .paused (Option.not_isSome_iff_eq_none.mp htask) hblocked hpends
    exact ⟨_, _, by rw [hfinal]; rfl, by rw [hfinal]; rfl, hending, rfl⟩

/-- What a part of a graph leads to: one end, after a number of calls between two bounds. -/
def Closes (settings : AgentSettings) (low high : ℕ) (state : AgentGraphState) (log : AgentLog)
    (r : GraphEnd) : Prop :=
  ∃ before final count, log = before ++ [⟨.done final, ()⟩] ∧ r.state = some final ∧
    low ≤ count ∧ count ≤ high ∧ Ending settings count before final ∧
    final.taskId = state.taskId ∧ final.conversationId = state.conversationId

theorem Closes.mono {low high high' : ℕ} {state : AgentGraphState} {log : AgentLog} {r : GraphEnd}
    (h : Closes settings low high state log r) (hle : high ≤ high') :
    Closes settings 0 high' state log r := by
  obtain ⟨before, final, count, hlog, hr, -, hcount, hending, htask⟩ := h
  exact ⟨before, final, count, hlog, hr, Nat.zero_le _, hcount.trans hle, hending, htask⟩

theorem Closes.prepend {low high count : ℕ} {state state' : AgentGraphState}
    {log log' : AgentLog} {r : GraphEnd} (h : Closes settings low high state' log' r)
    (hcalm : Calm settings log) (hcount : executions log = count)
    (htask : state'.taskId = state.taskId ∧ state'.conversationId = state.conversationId) :
    Closes settings (low + count) (high + count) state (log ++ log') r := by
  obtain ⟨before, final, count', rfl, hr, hlow, hhigh, hending, htask'⟩ := h
  have hall := hending.prepend hcalm
  rw [hcount] at hall
  exact ⟨log ++ before, final, count + count', (List.append_assoc ..).symm, hr, by omega, by omega,
    hall, htask'.1.trans htask.1, htask'.2.trans htask.2⟩

theorem Closes.ask {low high : ℕ} {state : AgentGraphState} {log : AgentLog} {r : GraphEnd}
    (h : Closes settings low high state log r) {q : Request} (hq : Quiet q) (a : q.Answer) :
    Closes settings low high state (⟨q, a⟩ :: log) r := by
  have hquiet : ∀ e ∈ ([⟨q, a⟩] : AgentLog), Quiet e.1 := by
    intro e he
    rw [List.mem_singleton.mp he]
    exact hq
  have hcalm := calm_of_quiet settings hquiet
  exact h.prepend hcalm.1 hcalm.2 ⟨rfl, rfl⟩

theorem closes_answerNodes {state : AgentGraphState} {log : AgentLog} {r : GraphEnd}
    (h : (answerNodes reader state).Runs log r) : Closes settings 0 0 state log r := by
  obtain ⟨before, final, hlog, hr, hending, hframe⟩ := ending_answerNodes settings h
  exact ⟨before, final, 0, hlog, hr, le_rfl, le_rfl, hending, task_of_frame hframe⟩

theorem closes_awaitConfirmation {state : AgentGraphState} {log : AgentLog} {r : GraphEnd}
    (hawait : awaitsConfirmation state.toolCalls = true)
    (h : (awaitConfirmation settings state).Runs log r) : Closes settings 0 0 state log r := by
  obtain ⟨before, final, hlog, hr, hending, hframe⟩ := ending_awaitConfirmation hawait h
  exact ⟨before, final, 0, hlog, hr, le_rfl, le_rfl, hending, task_of_frame hframe⟩

theorem calm_planNode {state state' : AgentGraphState} {log : AgentLog}
    (h : (planNode reader settings state).Runs log state') :
    Calm settings log ∧ executions log = 0 ∧ state'.frame = state.frame ∧
      (state.confirmedTool = none → state.maxToolRounds ≤ state.toolRounds →
        state'.plan.noTool = true) := by
  have hrun := (inner_planNode reader settings state).of_runs h
  have hquiet : ∀ entry ∈ log, Quiet entry.1 := by
    intro entry hentry
    rcases hrun.1 entry hentry with heq | hinner
    · rw [heq]
      trivial
    · exact Quiet.of_inner hinner
  have hcalm := calm_of_quiet settings hquiet
  exact ⟨hcalm.1, hcalm.2, hrun.2.1, hrun.2.2.2⟩

/-- Every round of the loop calls one tool; the rounds are what is left of `max_tool_rounds`. -/
theorem closes_planLoop {rounds : ℕ} {state : AgentGraphState} {log : AgentLog} {r : GraphEnd}
    (hchat : state.confirmedTool = none) (hrounds : state.maxToolRounds ≤ state.toolRounds + rounds)
    (h : (planLoop reader settings rounds state).Runs log r) :
    Closes settings 0 rounds state log r := by
  induction rounds generalizing state log with
  | zero =>
    unfold planLoop at h
    obtain ⟨log₁, planned, log₂, rfl, h₁, h₂⟩ := Program.runs_bind.mp h
    obtain ⟨hcalm, hnone, hframe, hno⟩ := calm_planNode h₁
    simp only [hno hchat hrounds, if_true] at h₂
    exact (closes_answerNodes h₂).prepend hcalm hnone (task_of_frame hframe)
  | succ rounds ih =>
    unfold planLoop at h
    obtain ⟨log₁, planned, log₂, rfl, h₁, h₂⟩ := Program.runs_bind.mp h
    obtain ⟨hcalm, hnone, hframe, -⟩ := calm_planNode h₁
    have htask := (task_of_frame hframe)
    have hplanned := rounds_of_frame hframe
    simp only at h₂
    split_ifs at h₂ with hno
    · have hrest : Closes settings 0 0 planned log₂ r := closes_answerNodes h₂
      exact (hrest.mono (Nat.zero_le (rounds + 1))).prepend hcalm hnone htask
    · obtain ⟨log₃, called, log₄, rfl, h₃, h₄⟩ := Program.runs_bind.mp h₂
      obtain ⟨hcalm', hone, hframe'⟩ := calm_executeToolNode h₃
      have hcalled := rounds_of_frame hframe'
      have hrest : Closes settings 0 rounds called log₄ r := by
        split_ifs at h₄ with hawait
        · exact (closes_awaitConfirmation hawait h₄).mono (Nat.zero_le _)
        · refine ih (hcalled.2.2.trans (hplanned.2.2.trans hchat)) ?_ h₄
          rw [hcalled.1, hcalled.2.1]
          simp only [hplanned.1, hplanned.2.1]
          omega
      have hcall := (hrest.prepend hcalm' hone (task_of_frame hframe')).mono le_rfl
      exact hcall.prepend hcalm hnone htask

theorem closes_afterExecuteTool {state : AgentGraphState} {log : AgentLog} {r : GraphEnd}
    (hchat : state.confirmedTool = none)
    (h : (afterExecuteTool reader settings state).Runs log r) :
    Closes settings 0 (state.maxToolRounds - state.toolRounds) state log r := by
  unfold afterExecuteTool at h
  split_ifs at h with hawait
  · exact (closes_awaitConfirmation hawait h).mono (Nat.zero_le _)
  · exact closes_planLoop hchat (by omega) h

/-- The chat graph from its shortcut on. -/
theorem closes_preflight (state : AgentGraphState) {log : AgentLog} {r : GraphEnd}
    (hchat : state.confirmedTool = none) (hrounds : state.toolRounds = 0)
    (h : (planEarlyConfirmableTool reader settings state >>= fun
      | some plan => do
        let state ← executeToolNode reader settings { state with plan }
        afterExecuteTool reader settings state
      | none => do
        superstep .retrieveContext state
        let context : RetrievedContext ← Program.request (Request.retrieveContext state)
        let state := { state with
          citations := context.citations
          mcpResources := context.mcpResources
          mcpPrompts := context.mcpPrompts }
        planLoop reader settings (state.maxToolRounds - state.toolRounds) state).Runs log r) :
    Closes settings 0 (max 1 state.maxToolRounds) state log r := by
  obtain ⟨log₁, plan, log₂, rfl, h₁, h₂⟩ := Program.runs_bind.mp h
  obtain ⟨hcalm, hnone, -⟩ := calm_of_asks settings
    ((inner_planEarlyConfirmableTool reader settings state).mono (fun _ => Quiet.of_inner)
      fun _ h => h) h₁
  have hrest : Closes settings 0 (max 1 state.maxToolRounds) state log₂ r := by
    cases plan with
    | none =>
      obtain ⟨_, _, rfl, h₃⟩ := Program.runs_ask.mp h₂
      obtain ⟨context, log₃, rfl, h₄⟩ := Program.runs_ask.mp h₃
      have hleft : state.maxToolRounds ≤
          state.toolRounds + (state.maxToolRounds - state.toolRounds) := by omega
      have hloop : Closes settings 0 (state.maxToolRounds - state.toolRounds) { state with
          citations := context.citations
          mcpResources := context.mcpResources
          mcpPrompts := context.mcpPrompts } log₃ r := closes_planLoop hchat hleft h₄
      have hle : state.maxToolRounds - state.toolRounds ≤ max 1 state.maxToolRounds := by omega
      have hopened : Closes settings 0 (max 1 state.maxToolRounds) state log₃ r := hloop.mono hle
      exact .ask (.ask hopened (by trivial) _) (by trivial) _
    | some plan =>
      obtain ⟨log₃, called, log₄, rfl, h₃, h₄⟩ := Program.runs_bind.mp h₂
      obtain ⟨hcalm', hone, hframe⟩ := calm_executeToolNode h₃
      have hcalled := rounds_of_frame hframe
      have hrest := (closes_afterExecuteTool (hcalled.2.2.trans hchat) h₄).prepend hcalm' hone
        (task_of_frame hframe)
      refine hrest.mono ?_
      rw [hcalled.1, hcalled.2.1]
      simp only [hrounds]
      omega
  exact hrest.prepend hcalm hnone ⟨rfl, rfl⟩

/-- The chat graph calls tools in at most `max_tool_rounds` rounds, and in one for its shortcut. -/
theorem closes_chatGraph {state : AgentGraphState} {log : AgentLog} {r : GraphEnd}
    (hchat : state.confirmedTool = none) (hrounds : state.toolRounds = 0)
    (h : (chatGraph reader settings route state).Runs log r) :
    ∃ c, ⟨.ensureConversation state, c⟩ ∈ log ∧
      Closes settings 0 (max 1 state.maxToolRounds)
        { state with conversationId := some c } log r := by
  obtain ⟨_, _, rfl, h₁⟩ := Program.runs_ask.mp h
  obtain ⟨c, _, rfl, h₂⟩ := Program.runs_ask.mp h₁
  obtain ⟨_, _, rfl, h₃⟩ := Program.runs_ask.mp h₂
  obtain ⟨_, _, rfl, h₄⟩ := Program.runs_ask.mp h₃
  obtain ⟨_, _, rfl, h₅⟩ := Program.runs_ask.mp h₄
  obtain ⟨_, _, rfl, h₆⟩ := Program.runs_ask.mp h₅
  obtain ⟨_, log₇, rfl, h₇⟩ := Program.runs_ask.mp h₆
  have hrest : Closes settings 0 (max 1 state.maxToolRounds)
      { state with conversationId := some c } log₇ r :=
    closes_preflight { state with
      conversationId := some c
      route := some (route state.taskType state.message) } hchat hrounds h₇
  refine ⟨c, by simp, ?_⟩
  iterate 7 refine .ask ?_ (by trivial) _
  exact hrest

/-- The graph of a confirmed run calls the confirmed tool once. -/
theorem closes_confirmedGraph {state : AgentGraphState} {log : AgentLog} {r : GraphEnd}
    (h : (confirmedGraph reader settings route state).Runs log r) :
    Closes settings 1 1 state log r := by
  obtain ⟨log₁, loaded, log₂, rfl, h₁, h₂⟩ := Program.runs_bind.mp h
  obtain ⟨log₃, planned, log₄, rfl, h₃, h₄⟩ := Program.runs_bind.mp h₂
  obtain ⟨log₅, called, log₆, rfl, h₅, h₆⟩ := Program.runs_bind.mp h₄
  have hload : (loadContext route state).Asks Quiet fun s =>
      s.taskId = state.taskId ∧ s.conversationId = state.conversationId :=
    ⟨trivial, fun _ => ⟨trivial, fun _ => ⟨rfl, rfl⟩⟩⟩
  obtain ⟨hcalm₁, hnone₁, htask₁⟩ := calm_of_asks settings hload h₁
  obtain ⟨hcalm, hnone, hframe, -⟩ := calm_planNode h₃
  obtain ⟨hcalm', hone, hframe'⟩ := calm_executeToolNode h₅
  have hend : Closes settings 0 0 called log₆ r := by
    split_ifs at h₆ with hawait
    · exact closes_awaitConfirmation hawait h₆
    · exact closes_answerNodes h₆
  have htask := task_of_frame hframe'
  have hcall : Closes settings (0 + 1) (0 + 1) planned (log₅ ++ log₆) r :=
    hend.prepend hcalm' hone htask
  have hplan := hcall.prepend hcalm hnone (task_of_frame hframe)
  exact hplan.prepend hcalm₁ hnone₁ htask₁

/-- How often a run may enter `execute_tool`. -/
def GraphStart.Rounds (settings : AgentSettings) : GraphStart → ℕ → Prop
  | .chat .., n => n ≤ max 1 settings.maxToolRounds
  | .confirmed .., n => n = 1

/-- One assistant answer, or one pending approval for the last recorded call. -/
inductive StoredOnce (final : AgentGraphState) : List Persisted → Prop where
  | answer : StoredOnce final [.answer final.conversationId final.finalAnswer]
  | approval {message : Message} {call : ToolCallRecord}
      (last : final.toolCalls.getLast? = some call) (pends : Pends message call) :
      StoredOnce final [.approval message]

/-- A whole run: its only `done` event is the last, its calls are bounded, and without a task it
stores one thing. -/
def EndsOnce (settings : AgentSettings) (start : GraphStart) (log : AgentLog) : Prop :=
  ∃ before final, log = before ++ [⟨.done final, ()⟩] ∧ (∀ e ∈ before, e.1.isDone = false) ∧
    start.Rounds settings (executions log) ∧
    ((start.state settings).taskId = none → StoredOnce final (log.filterMap (persisted settings)))

theorem Outcome.storedOnce {final : AgentGraphState} {stored : List Persisted}
    (h : Outcome final stored) (htask : final.taskId = none) : StoredOnce final stored := by
  cases h with
  | answered => exact .answer
  | paused interactive last pends => exact .approval last pends
  | reported background blocked =>
    rw [htask] at background
    exact absurd background Bool.false_ne_true

theorem Closes.endsOnce {low high : ℕ} {start : GraphStart} {log : AgentLog} {r : GraphEnd}
    {state : AgentGraphState} (h : Closes settings low high state log r)
    (hstate : state.taskId = (start.state settings).taskId)
    (hrounds : ∀ n, low ≤ n → n ≤ high → start.Rounds settings n) :
    r.state.isSome ∧ EndsOnce settings start log := by
  obtain ⟨before, final, count, rfl, hr, hlow, hhigh, hending, htask, -⟩ := h
  have hcount : executions (before ++ [⟨.done final, ()⟩]) = count := by
    have hbefore := hending.executions
    unfold executions at hbefore ⊢
    rw [List.countP_append, hbefore]
    simp [Request.isExecution]
  have hdone : persisted settings ⟨.done final, ()⟩ = none := rfl
  have hstored : List.filterMap (persisted settings) (before ++ [⟨.done final, ()⟩]) =
      before.filterMap (persisted settings) := by
    rw [List.filterMap_append, List.filterMap_cons_none hdone, List.filterMap_nil, List.append_nil]
  refine ⟨by rw [hr]; rfl, before, final, rfl, hending.one_done, ?_, fun hinteractive => ?_⟩
  · rw [hcount]
    exact hrounds count hlow hhigh
  · rw [hstored]
    exact hending.outcome.storedOnce ((htask.trans hstate).trans hinteractive)

theorem runs_end {p : AgentProgram GraphEnd} {log : AgentLog} {r : Option AgentGraphState}
    (h : (p >>= fun e => pure e.state).Runs log r) : ∃ e, r = e.state ∧ p.Runs log e := by
  obtain ⟨log₁, e, log₂, rfl, h₁, h₂⟩ := Program.runs_bind.mp h
  obtain ⟨rfl, rfl⟩ := Program.runs_done.mp h₂
  rw [List.append_nil]
  exact ⟨e, rfl, h₁⟩

/-- Every run of the graph along its declared edges reaches `END`: with one `done` event, which
is the last, after a bounded number of calls, and with one answer or one pending approval. -/
theorem graph_ends_once (reader : TextReader) (settings : AgentSettings)
    (route : String → String → ModelRoute) (start : GraphStart) {log : AgentLog}
    {r : Option AgentGraphState} (h : (start.program reader settings route).Runs log r) :
    r.isSome ∧ EndsOnce settings start log := by
  cases start with
  | chat userId taskId conversationId message taskType traceId =>
    have hgraph : (chatGraph reader settings route (chatState settings userId taskId conversationId
        message taskType traceId) >>= fun e => pure e.state).Runs log r := by
      rw [← followEdges_chat reader settings route _ rfl rfl rfl rfl]
      exact h
    obtain ⟨e, rfl, hrun⟩ := runs_end hgraph
    obtain ⟨c, -, hcloses⟩ := closes_chatGraph rfl rfl hrun
    exact hcloses.endsOnce rfl fun n _ hle => hle
  | confirmed userId approval stored traceId =>
    have hgraph : (confirmedGraph reader settings route (confirmedState settings userId approval
        stored traceId) >>= fun e => pure e.state).Runs log r := by
      rw [← followEdges_confirmedTool]
      exact h
    obtain ⟨e, rfl, hrun⟩ := runs_end hgraph
    exact (closes_confirmedGraph hrun).endsOnce rfl fun n hle hge => le_antisymm hge hle

def sampleAnswer : (q : Request) → q.Answer
  | .registryGet _ => none
  | .listTools => []
  | .ensureConversation _ => 30
  | .retrieveContext _ => ⟨[], [], []⟩
  | .webSearchQuery _ => ""
  | .call _ _ _ => ⟨"trace-1", 0⟩
  | .dispatch _ _ _ => ⟨.success, .null, none⟩
  | .createApproval _ => (50, 0)
  | .generate _ => "Good morning."
  | .superstep _ _ | .loadContext _ | .saveUserMessage _ | .saveAssistantMessage _
  | .updateMemorySummary _ | .done _ | .error _ => ()

def sampleStart : GraphStart := .chat (some 1) none (some 30) "Hello" "conversation" "trace-0"

def sampleFileReader : TextReader :=
  { sampleReader with readFilePath := fun _ => some "notes.txt", requestsFileRead := fun _ => true }

def sampleFileTool : RegisteredTool :=
  ⟨⟨"read_file", "Read a file", "read", false, [], true⟩, .localPlugin, none, none⟩

def sampleFileAnswer : (q : Request) → q.Answer
  | .registryGet _ => some sampleFileTool
  | .listTools => [sampleFileTool]
  | .dispatch _ _ _ => ⟨.success, .str "First line", none⟩
  | q => sampleAnswer q

def sampleChatRun : List Request × Option AgentGraphState :=
  (sampleStart.program sampleFileReader sampleConfig.settings sampleConfig.route).run
    sampleFileAnswer

def sampleChatLog : AgentLog := sampleChatRun.1.map fun q => ⟨q, sampleFileAnswer q⟩

theorem graph_ends_once_sample :
    executions sampleChatLog = 1 ∧ sampleChatRun.2.isSome ∧
      EndsOnce sampleConfig.settings sampleStart sampleChatLog :=
  ⟨rfl, graph_ends_once sampleFileReader sampleConfig.settings sampleConfig.route sampleStart
    (Program.runs_run sampleFileAnswer _)⟩

end AgentDemo
