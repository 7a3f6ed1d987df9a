import AgentDemo.Agent.Edges
import AgentDemo.Agent.Events

/-! What a whole run of the chat graph has streamed: its tokens put together are its answer, and
a call that is left to a confirmation has been reported. -/
namespace AgentDemo

variable {reader : TextReader} {settings : AgentSettings} {route : String → String → ModelRoute}

def tokens (reader : TextReader) (log : AgentLog) : List String :=
  (streamEvents reader none log).filterMap StreamEvent.token?

theorem join_singleton (text : String) : String.join [text] = text := by
  simp [String.join]

theorem join_modelTokens (answer : String) (state : AgentGraphState) :
    String.join (tokens reader [⟨.generate state, answer⟩]) =
      reader.sanitizeModelAnswer answer state := by
  change String.join (List.filterMap StreamEvent.token?
    ((modelTokens reader state answer).map StreamEvent.token ++ [])) = _
  rw [List.append_nil]
  unfold modelTokens
  by_cases hempty : reader.sanitizeModelAnswer answer state = ""
  · rw [if_pos hempty, hempty]
    rfl
  · rw [if_neg hempty]
    exact join_singleton _

/-- The four ways of `generate_answer` to an answer stream what they store. -/
theorem tokens_generateAnswer {state final : AgentGraphState} {log : AgentLog}
    (h : (generateAnswer reader state).Runs log final) :
    String.join (tokens reader log) = final.finalAnswer := by
  obtain ⟨_, _, rfl, h₁⟩ := Program.runs_ask.mp h
  obtain ⟨tools, rest, rfl, h₂⟩ := Program.runs_ask.mp h₁
  have htokens : tokens reader (⟨.superstep .generateAnswer state, ()⟩ :: ⟨.listTools, tools⟩ ::
      rest) = (runtimeAnswer reader state tools).toList ++ tokens reader rest := by
    change List.filterMap StreamEvent.token? (((runtimeAnswer reader state tools).toList.map
      StreamEvent.token) ++ streamEvents reader none rest) = _
    rw [List.filterMap_append]
    cases runtimeAnswer reader state tools <;> rfl
  refine (congrArg String.join htokens).trans ?_
  unfold runtimeAnswer
  change (if state.finalAnswer ≠ "" then pure state else _ :
    AgentProgram AgentGraphState).Runs rest final at h₂
  by_cases hanswer : state.finalAnswer = ""
  · rw [if_neg (not_not.mpr hanswer)] at h₂ ⊢
    cases havailable : availabilityAnswer reader state tools with
    | some answer =>
      unfold availabilityAnswer at havailable
      simp only [havailable] at h₂
      obtain ⟨rfl, rfl⟩ := Program.runs_done.mp h₂
      exact join_singleton answer
    | none =>
      unfold availabilityAnswer at havailable
      cases hfailure : reader.toolFailureAnswer state with
      | some answer =>
        simp only [havailable, hfailure] at h₂
        obtain ⟨rfl, rfl⟩ := Program.runs_done.mp h₂
        exact join_singleton answer
      | none =>
        simp only [havailable, hfailure] at h₂
        obtain ⟨answer, _, rfl, h₃⟩ := Program.runs_ask.mp h₂
        obtain ⟨rfl, rfl⟩ := Program.runs_done.mp h₃
        exact join_modelTokens answer state
  · rw [if_pos hanswer] at h₂ ⊢
    obtain ⟨rfl, rfl⟩ := Program.runs_done.mp h₂
    exact join_singleton _

/-- What a part of a run that ends it says about its answer, or about the calls it leaves to a
confirmation. It starts at a node. -/
structure Speaks (reader : TextReader) (calls : List ToolCallRecord) (log : AgentLog)
    (e : GraphEnd) : Prop where
  opens : ∃ node state rest, log = ⟨.superstep node state, ()⟩ :: rest
  answered : ∀ final, e = .answered final →
    String.join (tokens reader log) = final.finalAnswer ∧ ⟨.saveAssistantMessage final, ()⟩ ∈ log
  paused : ∀ final, e = .paused final → final.taskId = none
  blocked : ∀ final, e = .reported final → awaitsConfirmation final.toolCalls = true
  reported : ∀ final, e = .reported final → ∀ call ∈ final.toolCalls, call ∈ calls ∨
    .toolResult call.result.error ∈ streamEvents reader none log

/-- A part without tokens before it, whose new calls are reported. -/
theorem Speaks.prepend {calls calls' : List ToolCallRecord} {log log' : AgentLog} {e : GraphEnd}
    (h : Speaks reader calls' log' e) (hsilent : ∀ entry ∈ log, Silent entry.1)
    (hopens : ∃ node state rest, log = ⟨.superstep node state, ()⟩ :: rest)
    (hreports : Reports reader calls calls' log) : Speaks reader calls (log ++ log') e := by
  obtain ⟨node, state, rest, hlog'⟩ := h.opens
  have hsplit : streamEvents reader none (log ++ log') =
      streamEvents reader none log ++ streamEvents reader none log' := by
    rw [streamEvents_append, hlog']
    rfl
  constructor
  · obtain ⟨node, state, rest, rfl⟩ := hopens
    exact ⟨node, state, rest ++ log', rfl⟩
  · intro final he
    have hnone : (streamEvents reader none log).filterMap StreamEvent.token? = [] :=
      tokens_silent hsilent (by simp)
    have hanswer := h.answered final he
    unfold tokens
    rw [hsplit, List.filterMap_append, hnone, List.nil_append]
    exact ⟨hanswer.1, List.mem_append_right log hanswer.2⟩
  · exact h.paused
  · exact h.blocked
  · intro final he call hcall
    rw [hsplit, List.mem_append]
    rcases h.reported final he call hcall with hold | hevent
    · exact (hreports none call hold).imp_right Or.inl
    · exact Or.inr (Or.inr hevent)

/-- A node with one request before it. -/
theorem Speaks.node {calls : List ToolCallRecord} {log : AgentLog} {e : GraphEnd}
    (h : Speaks reader calls log e) {node : GraphNode} {state : AgentGraphState} {q : Request}
    (hnode : Silent (.superstep node state)) (hq : Silent q) (a : q.Answer) :
    Speaks reader calls (⟨.superstep node state, ()⟩ :: ⟨q, a⟩ :: log) e := by
  have hsilent : ∀ entry ∈ ([⟨.superstep node state, ()⟩, ⟨q, a⟩] : AgentLog),
      Silent entry.1 := by
    intro entry hentry
    simp only [List.mem_cons, List.not_mem_nil, or_false] at hentry
    rcases hentry with rfl | rfl
    · exact hnode
    · exact hq
  exact h.prepend hsilent ⟨node, state, [⟨q, a⟩], rfl⟩ (.nil _ _)

theorem speaks_answerNodes {calls : List ToolCallRecord} {state : AgentGraphState}
    {log : AgentLog} {e : GraphEnd} (h : (answerNodes reader state).Runs log e) :
    Speaks reader calls log e := by
  obtain ⟨log₁, final, log₂, rfl, h₁, h₂⟩ := Program.runs_bind.mp h
  obtain ⟨_, _, rfl, h₃⟩ := Program.runs_ask.mp h₂
  obtain ⟨_, _, rfl, h₄⟩ := Program.runs_ask.mp h₃
  obtain ⟨_, _, rfl, h₅⟩ := Program.runs_ask.mp h₄
  obtain ⟨_, _, rfl, h₆⟩ := Program.runs_ask.mp h₅
  obtain ⟨_, _, rfl, h₇⟩ := Program.runs_ask.mp h₆
  obtain ⟨rfl, rfl⟩ := Program.runs_done.mp h₇
  constructor
  · obtain ⟨_, rest, rfl, -⟩ := Program.runs_ask.mp h₁
    exact ⟨.generateAnswer, state, _, rfl⟩
  · intro final' he
    cases he
    have hanswer := tokens_generateAnswer h₁
    have hsaved : (⟨.saveAssistantMessage final, ()⟩ : (q : Request) × q.Answer) ∈
        (log₁ ++ ⟨.superstep .saveAssistantMessage final, ()⟩ ::
          ⟨.saveAssistantMessage final, ()⟩ :: ⟨.superstep .updateMemorySummary final, ()⟩ ::
          ⟨.updateMemorySummary final, ()⟩ :: ⟨.done final, ()⟩ :: []) := by simp
    refine ⟨?_, hsaved⟩
    unfold tokens at hanswer ⊢
    rw [streamEvents_append, List.filterMap_append]
    refine (congrArg String.join ?_).trans hanswer
    exact List.append_nil _
  · intro final' he
    cases he
  · intro final' he
    cases he
  · intro final' he
    cases he

theorem taskId_withApproval (settings : AgentSettings) (state : AgentGraphState) (approvalId : UUID)
    (now : Instant) :
    (withApproval settings state approvalId now).taskId = state.taskId := by
  unfold withApproval
  split <;> rfl

theorem speaks_awaitConfirmation {state : AgentGraphState} {log : AgentLog} {e : GraphEnd}
    (hawait : awaitsConfirmation state.toolCalls = true)
    (h : (awaitConfirmation settings state).Runs log e) :
    Speaks reader state.toolCalls log e := by
  obtain ⟨_, rest, rfl, hrest⟩ := Program.runs_ask.mp h
  change (if state.taskId.isSome then _ else _ : AgentProgram GraphEnd).Runs rest e at hrest
  have hend : e = .reported state ∨ ∃ final, e = .paused final ∧ final.taskId = none := by
    split_ifs at hrest with htask
    · obtain ⟨_, _, rfl, hdone⟩ := Program.runs_ask.mp hrest
      exact Or.inl (Program.runs_done.mp hdone).2
    · obtain ⟨⟨approvalId, now⟩, _, rfl, hstored⟩ := Program.runs_ask.mp hrest
      obtain ⟨_, _, rfl, hdone⟩ := Program.runs_ask.mp hstored
      have htask' := (taskId_withApproval settings state approvalId now).trans
        (Option.not_isSome_iff_eq_none.mp htask)
      exact Or.inr ⟨_, (Program.runs_done.mp hdone).2, htask'⟩
  have hopens : ∃ node s log, (⟨.superstep .awaitConfirmation state, ()⟩ :: rest : AgentLog) =
      ⟨.superstep node s, ()⟩ :: log := ⟨_, _, _, rfl⟩
  rcases hend with rfl | ⟨final, rfl, hnone⟩
  · refine ⟨hopens, fun final he => (by cases he), fun final he => (by cases he), ?_, ?_⟩
    · intro final he
      cases he
      exact hawait
    · intro final he call hcall
      cases he
      exact Or.inl hcall
  · refine ⟨hopens, fun final he => (by cases he), ?_, fun final he => (by cases he),
      fun final he => (by cases he)⟩
    intro final' he
    cases he
    exact hnone

theorem silent_planNode {state state' : AgentGraphState} {log : AgentLog}
    (h : (planNode reader settings state).Runs log state') :
    (∀ entry ∈ log, Silent entry.1) ∧
      (∃ node state rest, log = ⟨.superstep node state, ()⟩ :: rest) ∧
      state'.toolCalls = state.toolCalls := by
  have hrun := (inner_planNode reader settings state).of_runs h
  obtain ⟨_, rest, rfl, -⟩ := Program.runs_ask.mp h
  refine ⟨fun entry hentry => ?_, ⟨.plan, state, rest, rfl⟩, hrun.2.2.1⟩
  rcases hrun.1 entry hentry with heq | hinner
  · rw [heq]
    trivial
  · exact Silent.of_inner hinner

theorem silent_executeToolNode {state state' : AgentGraphState} {log : AgentLog}
    (h : (executeToolNode reader settings state).Runs log state') :
    (∀ entry ∈ log, Silent entry.1) ∧
      ∃ node state rest, log = ⟨.superstep node state, ()⟩ :: rest := by
  have hrun := (inner_executeToolNode reader settings state).of_runs h
  obtain ⟨_, rest, rfl, -⟩ := Program.runs_ask.mp h
  refine ⟨fun entry hentry => ?_, ⟨.executeTool, state, rest, rfl⟩⟩
  rcases hrun.1 entry hentry with heq | hinner
  · rw [heq]
    trivial
  · exact Silent.of_inner hinner

/-- The loop of `plan` and `execute_tool`. -/
theorem speaks_planLoop {rounds : ℕ} {state : AgentGraphState} {log : AgentLog} {e : GraphEnd}
    (h : (planLoop reader settings rounds state).Runs log e) :
    Speaks reader state.toolCalls log e := by
  induction rounds generalizing state log with
  | zero =>
    unfold planLoop at h
    obtain ⟨log₁, planned, log₂, rfl, h₁, h₂⟩ := Program.runs_bind.mp h
    obtain ⟨hsilent, hopens, hcalls⟩ := silent_planNode h₁
    simp only at h₂
    split_ifs at h₂ with hno
    · exact (speaks_answerNodes h₂).prepend hsilent hopens (.nil _ _)
    · obtain ⟨rfl, rfl⟩ := Program.runs_done.mp h₂
      rw [List.append_nil]
      exact ⟨hopens, fun final he => (by cases he), fun final he => (by cases he),
        fun final he => (by cases he), fun final he => (by cases he)⟩
  | succ rounds ih =>
    unfold planLoop at h
    obtain ⟨log₁, planned, log₂, rfl, h₁, h₂⟩ := Program.runs_bind.mp h
    obtain ⟨hsilent, hopens, hcalls⟩ := silent_planNode h₁
    simp only at h₂
    split_ifs at h₂ with hno
    · exact (speaks_answerNodes h₂).prepend hsilent hopens (.nil _ _)
    · obtain ⟨log₃, called, log₄, rfl, h₃, h₄⟩ := Program.runs_bind.mp h₂
      obtain ⟨hsilent', hopens'⟩ := silent_executeToolNode h₃
      have hrest : Speaks reader called.toolCalls log₄ e := by
        split_ifs at h₄ with hawait
        · exact speaks_awaitConfirmation hawait h₄
        · exact ih h₄
      have hcall := hrest.prepend hsilent' hopens' (reports_executeToolNode h₃)
      rw [hcalls] at hcall
      exact hcall.prepend hsilent hopens (.nil _ _)

/-- A run of the chat graph. -/
theorem speaks_chatGraph {state : AgentGraphState} {log : AgentLog} {e : GraphEnd}
    (h : (chatGraph reader settings route state).Runs log e) :
    Speaks reader state.toolCalls log e := by
  obtain ⟨_, _, rfl, h₁⟩ := Program.runs_ask.mp h
  obtain ⟨c, _, rfl, h₂⟩ := Program.runs_ask.mp h₁
  obtain ⟨_, _, rfl, h₃⟩ := Program.runs_ask.mp h₂
  obtain ⟨_, _, rfl, h₄⟩ := Program.runs_ask.mp h₃
  obtain ⟨_, _, rfl, h₅⟩ := Program.runs_ask.mp h₄
  obtain ⟨_, _, rfl, h₆⟩ := Program.runs_ask.mp h₅
  obtain ⟨_, log₇, rfl, h₇⟩ := Program.runs_ask.mp h₆
  simp only [Program.bind_eq, Program.done_bind] at h₇
  obtain ⟨log₈, plan, log₉, rfl, h₈, h₉⟩ := Program.runs_bind.mp h₇
  have hearly := ((inner_planEarlyConfirmableTool reader settings _).of_runs h₈).1
  have hrest : Speaks reader state.toolCalls log₉ e := by
    cases plan with
    | none =>
      obtain ⟨_, _, rfl, h₁₀⟩ := Program.runs_ask.mp h₉
      obtain ⟨context, log₁₁, rfl, h₁₁⟩ := Program.runs_ask.mp h₁₀
      have hloop := speaks_planLoop h₁₁
      have hnode : Speaks reader state.toolCalls log₁₁ e := hloop
      exact hnode.node (by trivial) (by trivial) context
    | some plan =>
      obtain ⟨log₁₀, called, log₁₁, rfl, h₁₀, h₁₁⟩ := Program.runs_bind.mp h₉
      obtain ⟨hsilent, hopens⟩ := silent_executeToolNode h₁₀
      have hafter : Speaks reader called.toolCalls log₁₁ e := by
        unfold afterExecuteTool at h₁₁
        split_ifs at h₁₁ with hawait
        · exact speaks_awaitConfirmation hawait h₁₁
        · exact speaks_planLoop h₁₁
      have hreports := reports_executeToolNode h₁₀
      exact hafter.prepend hsilent hopens hreports
  refine Speaks.node ?_ (by trivial) (by trivial) c
  refine Speaks.node ?_ (by trivial) (by trivial) _
  refine Speaks.node ?_ (by trivial) (by trivial) _
  rw [← List.cons_append]
  refine hrest.prepend (fun entry hentry => ?_) ⟨_, _, _, rfl⟩ (.nil _ _)
  rcases List.mem_cons.mp hentry with rfl | hentry
  · trivial
  · exact Silent.of_inner (hearly entry hentry)

end AgentDemo
