import AgentDemo.Agent.Footprint
import AgentDemo.Library.Runs

/-! The two graphs by their declared edges, as `build_agent_graph` builds them, and that they are
the programs `chatGraph` and `confirmedGraph`. -/
namespace AgentDemo

inductive GraphMode where
  | chat
  | confirmedTool
  deriving DecidableEq, Repr

/-- The edge from `START`. -/
def GraphMode.start : GraphMode → GraphNode
  | .chat => .ensureConversation
  | .confirmedTool => .loadContext

/-- The edge that a node takes; `none` is `END`. -/
def nextNode (mode : GraphMode) (state : AgentGraphState) : GraphNode → Option GraphNode
  | .ensureConversation => some .loadContext
  | .loadContext =>
    match mode with
    | .chat => some .saveUserMessage
    | .confirmedTool => some .plan
  | .saveUserMessage => some .preflightConfirmableTool
  | .preflightConfirmableTool =>
    if !state.plan.noTool && state.plan.requiresConfirmation then some .executeTool
    else some .retrieveContext
  | .retrieveContext => some .plan
  | .plan =>
    match mode with
    | .chat => if state.plan.noTool then some .generateAnswer else some .executeTool
    | .confirmedTool => some .executeTool
  | .executeTool =>
    if awaitsConfirmation state.toolCalls then some .awaitConfirmation
    else match mode with
      | .chat => some .plan
      | .confirmedTool => some .generateAnswer
  | .generateAnswer => some .saveAssistantMessage
  | .saveAssistantMessage => some .updateMemorySummary
  | .updateMemorySummary | .awaitConfirmation => none

/-- The state at the end, unless the run has failed. -/
def GraphEnd.state : GraphEnd → Option AgentGraphState
  | .answered state | .paused state | .reported state => some state
  | .failed _ => none

section

variable (reader : TextReader) (settings : AgentSettings) (route : String → String → ModelRoute)

def nodeProgram (state : AgentGraphState) : GraphNode → AgentProgram AgentGraphState
  | .ensureConversation => do
    superstep .ensureConversation state
    let conversationId : UUID ← Program.request (Request.ensureConversation state)
    pure { state with conversationId := some conversationId }
  | .loadContext => loadContext route state
  | .saveUserMessage => do
    superstep .saveUserMessage state
    if state.saveUserMessage then
      let _ : Unit ← Program.request (Request.saveUserMessage state)
    pure state
  | .preflightConfirmableTool => do
    superstep .preflightConfirmableTool state
    match ← planEarlyConfirmableTool reader settings state with
    | some plan => pure { state with plan, route := some (route state.taskType state.message) }
    | none => pure state
  | .retrieveContext => do
    superstep .retrieveContext state
    let context : RetrievedContext ← Program.request (Request.retrieveContext state)
    pure { state with
      citations := context.citations
      mcpResources := context.mcpResources
      mcpPrompts := context.mcpPrompts
      route := some (route state.taskType state.message) }
  | .plan => planNode reader settings state
  | .executeTool => executeToolNode reader settings state
  | .awaitConfirmation => do
    let e ← awaitConfirmation settings state
    pure (e.state.getD state)
  | .generateAnswer => generateAnswer reader state
  | .saveAssistantMessage => do
    superstep .saveAssistantMessage state
    let _ : Unit ← Program.request (Request.saveAssistantMessage state)
    pure state
  | .updateMemorySummary => do
    superstep .updateMemorySummary state
    let _ : Unit ← Program.request (Request.updateMemorySummary state)
    let _ : Unit ← Program.request (Request.done state)
    pure state

/-- The graph from a node on, in at most so many supersteps; `none` when they run out. -/
def followEdges (mode : GraphMode) : ℕ → GraphNode → AgentGraphState →
    AgentProgram (Option AgentGraphState)
  | 0, _, _ => pure none
  | fuel + 1, node, state => do
    let state ← nodeProgram reader settings route state node
    match nextNode mode state node with
    | none => pure (some state)
    | some next => followEdges mode fuel next state

/-- Enough supersteps for a run from `START`. -/
def GraphMode.supersteps (maxToolRounds : ℕ) : GraphMode → ℕ
  | .chat => 2 * maxToolRounds + 9
  | .confirmedTool => 6

/-! ### The programs follow the edges -/

theorem rounds_of_frame {state state' : AgentGraphState} (h : state'.frame = state.frame) :
    state'.maxToolRounds = state.maxToolRounds ∧ state'.toolRounds = state.toolRounds ∧
      state'.confirmedTool = state.confirmedTool := by
  have hmax := congrArg AgentGraphState.maxToolRounds h
  have hrounds := congrArg AgentGraphState.toolRounds h
  have hconfirmed := congrArg AgentGraphState.confirmedTool h
  exact ⟨hmax, hrounds, hconfirmed⟩

theorem task_of_frame {state state' : AgentGraphState} (h : state'.frame = state.frame) :
    state'.taskId = state.taskId ∧ state'.conversationId = state.conversationId := by
  have htask := congrArg AgentGraphState.taskId h
  have hconversation := congrArg AgentGraphState.conversationId h
  exact ⟨htask, hconversation⟩

/-- A plan is written, and none for a tool when the rounds are over. -/
theorem inner_planNode (state : AgentGraphState) :
    (planNode reader settings state).Asks (fun q => q = .superstep .plan state ∨ Inner q)
      fun state' => state'.frame = state.frame ∧ state'.toolCalls = state.toolCalls ∧
        (state.confirmedTool = none → state.maxToolRounds ≤ state.toolRounds →
          state'.plan.noTool = true) := by
  refine ⟨Or.inl rfl, fun _ => ?_⟩
  simp only [Program.bind_eq, Program.done_bind]
  split
  next name hname =>
    exact ⟨Or.inr trivial, fun tool => ⟨rfl, rfl, fun h => absurd (hname.symm.trans h) nofun⟩⟩
  next =>
    split_ifs with hrounds
    · exact ⟨rfl, rfl, fun _ _ => rfl⟩
    · refine ((inner_planNextStep reader settings state).mono (fun _ h => Or.inr h)
        fun _ h => h).seq fun plan _ => ?_
      exact ⟨rfl, rfl, fun _ h => absurd h hrounds⟩

theorem inner_executeToolNode (state : AgentGraphState) :
    (executeToolNode reader settings state).Asks
      (fun q => q = .superstep .executeTool state ∨ Inner q)
      fun state' =>
        state'.frame =
          ({ state with toolRounds := state.toolRounds + 1 } : AgentGraphState).frame := by
  refine ⟨Or.inl rfl, fun _ => ?_⟩
  refine ((inner_maybeExecuteTool reader settings state).mono (fun _ h => Or.inr h)
    fun _ h => h).seq fun state' h => ?_
  change { state'.frame with toolRounds := state'.frame.toolRounds + 1 } =
    { state.frame with toolRounds := state.frame.toolRounds + 1 }
  rw [h]

theorem state_awaitConfirmation (state : AgentGraphState) :
    (awaitConfirmation settings state).Asks (fun _ => True) fun e => e.state.isSome := by
  refine ⟨trivial, fun _ => ?_⟩
  simp only [Program.bind_eq, Program.done_bind]
  split_ifs
  · exact ⟨trivial, fun _ => rfl⟩
  · exact ⟨trivial, fun _ => ⟨trivial, fun _ => rfl⟩⟩

variable {mode : GraphMode} (state : AgentGraphState) (fuel : ℕ)

theorem followEdges_generateAnswer :
    followEdges reader settings route mode (fuel + 3) .generateAnswer state =
      (answerNodes reader state >>= fun e => pure e.state) := by
  unfold answerNodes
  rw [Program.bind_assoc]
  rfl

theorem followEdges_awaitConfirmation :
    followEdges reader settings route mode (fuel + 1) .awaitConfirmation state =
      (awaitConfirmation settings state >>= fun e => pure e.state) := by
  have hnode : followEdges reader settings route mode (fuel + 1) .awaitConfirmation state =
      (awaitConfirmation settings state >>= fun e => pure (some (e.state.getD state))) := by
    simp only [followEdges, nodeProgram]
    rw [Program.bind_assoc]
    rfl
  rw [hnode]
  refine Program.bind_congr_of_asks (state_awaitConfirmation settings state) fun e he => ?_
  obtain ⟨s, hs⟩ := Option.isSome_iff_exists.mp he
  rw [hs]
  rfl


/-- The loop of `plan` and `execute_tool`, by the rounds that are left. -/
theorem followEdges_plan (rounds : ℕ) (hchat : state.confirmedTool = none)
    (hrounds : state.maxToolRounds ≤ state.toolRounds + rounds) :
    followEdges reader settings route .chat (2 * rounds + (fuel + 4)) .plan state =
      (planLoop reader settings rounds state >>= fun e => pure e.state) := by
  induction rounds generalizing state with
  | zero =>
    rw [Nat.mul_zero, Nat.zero_add]
    unfold planLoop
    rw [Program.bind_assoc]
    refine Program.bind_congr_of_asks (inner_planNode reader settings state) fun s hs => ?_
    have hno : s.plan.noTool = true := hs.2.2 hchat hrounds
    simp only [nextNode, hno, if_true]
    exact followEdges_generateAnswer reader settings route _ fuel
  | succ rounds ih =>
    have hfuel : 2 * (rounds + 1) + (fuel + 4) = 2 * rounds + (fuel + 4) + 1 + 1 := by omega
    rw [hfuel]
    unfold planLoop
    rw [Program.bind_assoc]
    refine Program.bind_congr_of_asks (inner_planNode reader settings state) fun s hs => ?_
    simp only [nextNode]
    split_ifs with hno
    · exact followEdges_generateAnswer reader settings route _ (2 * rounds + fuel + 2)
    · rw [Program.bind_assoc]
      refine Program.bind_congr_of_asks (inner_executeToolNode reader settings s) fun s' hs' => ?_
      simp only [nextNode]
      split_ifs with hawait
      · exact followEdges_awaitConfirmation reader settings route _ (2 * rounds + fuel + 3)
      · have hlater := rounds_of_frame hs'
        have hplanned := rounds_of_frame hs.1
        have hleft : s'.maxToolRounds ≤ s'.toolRounds + rounds := by
          rw [hlater.1, hlater.2.1]
          simp only [hplanned.1, hplanned.2.1]
          omega
        exact ih _ (hlater.2.2.trans (hplanned.2.2.trans hchat)) hleft

/-- A tool call of the chat graph and what follows it. -/
theorem followEdges_executeTool (rounds : ℕ) (hchat : state.confirmedTool = none)
    (hrounds : state.maxToolRounds ≤ state.toolRounds + 1 + rounds) :
    followEdges reader settings route .chat (2 * rounds + (fuel + 4) + 1) .executeTool state =
      (executeToolNode reader settings state >>= fun s =>
        (if awaitsConfirmation s.toolCalls then awaitConfirmation settings s
        else planLoop reader settings rounds s) >>= fun e => pure e.state) := by
  refine Program.bind_congr_of_asks (inner_executeToolNode reader settings state) fun s hs => ?_
  simp only [nextNode]
  split_ifs with hawait
  · exact followEdges_awaitConfirmation reader settings route _ (2 * rounds + fuel + 3)
  · have hlater := rounds_of_frame hs
    have hleft : s.maxToolRounds ≤ s.toolRounds + rounds := by
      rw [hlater.1, hlater.2.1]
      exact hrounds
    exact followEdges_plan reader settings route _ fuel rounds (hlater.2.2.trans hchat) hleft

/-- The chat graph from its shortcut on. -/
theorem followEdges_preflight (hchat : state.confirmedTool = none)
    (hplan : state.plan.noTool = true) (hrounds : state.toolRounds = 0)
    (hroute : state.route = some (route state.taskType state.message)) :
    followEdges reader settings route .chat (2 * state.maxToolRounds + 4 + 1 + 1)
        .preflightConfirmableTool state =
      (do
        superstep .preflightConfirmableTool state
        match ← planEarlyConfirmableTool reader settings state with
        | some plan => do
          let state ← executeToolNode reader settings { state with plan }
          afterExecuteTool reader settings state
        | none => do
          superstep .retrieveContext state
          let context : RetrievedContext ← Program.request (Request.retrieveContext state)
          let state := { state with
            citations := context.citations
            mcpResources := context.mcpResources
            mcpPrompts := context.mcpPrompts }
          planLoop reader settings (state.maxToolRounds - state.toolRounds) state) >>=
        fun e => pure e.state := by
  rw [Program.bind_assoc]
  refine congrArg (Program.ask _) (funext fun _ => ?_)
  simp only [Program.bind_eq, Program.done_bind, Program.bind_assoc]
  refine Program.bind_congr_of_asks (inner_planEarlyConfirmableTool reader settings state)
    fun plan hearly => ?_
  simp only [← hroute]
  cases plan with
  | none =>
    simp only [Program.pure_eq, Program.done_bind, nextNode, hplan, Bool.not_true, Bool.false_and,
      Bool.false_eq_true, if_false]
    rw [Program.bind_assoc]
    refine congrArg (Program.ask _) (funext fun _ => congrArg (Program.ask _) (funext fun c => ?_))
    have hloop := followEdges_plan reader settings route
      { state with
        citations := c.citations, mcpResources := c.mcpResources, mcpPrompts := c.mcpPrompts }
      0 (state.maxToolRounds - state.toolRounds) hchat
      (show state.maxToolRounds ≤
        state.toolRounds + (state.maxToolRounds - state.toolRounds) by omega)
    simp only [hroute, hrounds, Nat.sub_zero, Nat.zero_add] at hloop ⊢
    exact hloop
  | some plan =>
    obtain ⟨htool, hconfirm⟩ := hearly plan rfl
    simp only [Program.pure_eq, Program.done_bind, nextNode, htool, hconfirm, Bool.not_false,
      Bool.true_and, if_true]
    have hfuel : 2 * state.maxToolRounds + 5 = 2 * (state.maxToolRounds - 1) +
        (2 * state.maxToolRounds - 2 * (state.maxToolRounds - 1) + 4) + 1 := by omega
    have hcall := followEdges_executeTool reader settings route { state with plan }
      (2 * state.maxToolRounds - 2 * (state.maxToolRounds - 1)) (state.maxToolRounds - 1) hchat
      (show state.maxToolRounds ≤ state.toolRounds + 1 + (state.maxToolRounds - 1) by omega)
    rw [hfuel, hcall, Program.bind_assoc]
    refine Program.bind_congr_of_asks (inner_executeToolNode reader settings { state with plan })
      fun s hs => ?_
    have hlater := rounds_of_frame hs
    have hleft : s.maxToolRounds - s.toolRounds = state.maxToolRounds - 1 := by
      rw [hlater.1, hlater.2.1]
      simp only [hrounds, Nat.zero_add]
    unfold afterExecuteTool
    rw [hleft]
    rfl

theorem followEdges_saveUserMessage (hsave : state.saveUserMessage = true) :
    followEdges reader settings route .chat (fuel + 1) .saveUserMessage state =
      (do
        superstep .saveUserMessage state
        let _ : Unit ← Program.request (Request.saveUserMessage state)
        followEdges reader settings route .chat fuel .preflightConfirmableTool state) := by
  simp only [followEdges, nodeProgram, hsave, if_true]
  rfl

/-- The chat graph is what its edges give. -/
theorem followEdges_chat (hchat : state.confirmedTool = none) (hplan : state.plan.noTool = true)
    (hsave : state.saveUserMessage = true) (hrounds : state.toolRounds = 0) :
    followEdges reader settings route .chat (GraphMode.chat.supersteps state.maxToolRounds)
        .ensureConversation state =
      (chatGraph reader settings route state >>= fun e => pure e.state) := by
  refine congrArg (Program.ask _) (funext fun _ => congrArg (Program.ask _) (funext fun c => ?_))
  refine congrArg (Program.ask _) (funext fun _ => congrArg (Program.ask _) (funext fun _ => ?_))
  refine (followEdges_saveUserMessage reader settings route { state with
    conversationId := some c, route := some (route state.taskType state.message) }
    (2 * state.maxToolRounds + 4 + 1 + 1) hsave).trans ?_
  refine congrArg (Program.ask _) (funext fun _ => congrArg (Program.ask _) (funext fun _ => ?_))
  exact followEdges_preflight reader settings route { state with
    conversationId := some c, route := some (route state.taskType state.message) }
    hchat hplan hrounds rfl

theorem followEdges_confirmedPlan :
    followEdges reader settings route .confirmedTool 5 .plan state =
      (do
        let state ← planNode reader settings state
        let state ← executeToolNode reader settings state
        if awaitsConfirmation state.toolCalls then awaitConfirmation settings state
        else answerNodes reader state) >>= fun e => pure e.state := by
  rw [Program.bind_assoc]
  refine Program.bind_congr_of_asks (Program.Asks.trivial _) fun s _ => ?_
  rw [Program.bind_assoc]
  refine Program.bind_congr_of_asks (Program.Asks.trivial _) fun s' _ => ?_
  simp only [nextNode]
  split_ifs with hawait
  · exact followEdges_awaitConfirmation reader settings route _ 2
  · exact followEdges_generateAnswer reader settings route _ 0

/-- The graph of a confirmed run is what its edges give. -/
theorem followEdges_confirmedTool :
    followEdges reader settings route .confirmedTool
        (GraphMode.confirmedTool.supersteps state.maxToolRounds) .loadContext state =
      (confirmedGraph reader settings route state >>= fun e => pure e.state) := by
  refine congrArg (Program.ask _) (funext fun _ => congrArg (Program.ask _) (funext fun _ => ?_))
  exact followEdges_confirmedPlan reader settings route _

end

end AgentDemo
