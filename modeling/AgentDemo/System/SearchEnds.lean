import AgentDemo.System.SearchRuns

/-! How the runs around a web search end: with the whole trace in their answer, or with a stored
approval from which a confirmed run takes up the next page. -/
namespace AgentDemo

/-- The message of an approval that keeps the state of a search at a page. -/
structure SearchTools.Stored (tools : SearchTools) (reader : TextReader)
    (settings : AgentSettings) (text : String) (arguments : JsonObject) (tool : RegisteredTool)
    (fetched : List SearchTarget) (target : SearchTarget) (rest : List SearchTarget)
    (m : Message) : Prop where
  approval : ∃ approval, m.metadata.approval = some approval ∧
    approval.toolName = tool.manifest.name ∧
    approval.arguments = fetchArguments settings target.url ∧ approval.message = text
  continuation : ∃ continuation, m.metadata.continuation = some continuation ∧
    continuation.searchFetchTargets = rest ∧
    (⟨continuation.toolCalls.map ToolCallRecord.view, continuation.observations⟩ : SearchTrace) =
      tools.trace reader settings tool arguments fetched ∧
    ∀ call ∈ continuation.toolCalls, call.searchEnrichment = call.searchTarget.isSome
  target : m.metadata.toolCalls.getLast?.bind ToolCallRecord.searchTarget = some target

/-- The end of a run behind the pages that have been dispatched, with the approvals that it
stores. -/
inductive SearchTools.Ends (tools : SearchTools) (reader : TextReader) (settings : AgentSettings)
    (text : String) (arguments : JsonObject) :
    List SearchTarget → List Message → GraphEnd → Prop where
  | answered {fetched : List SearchTarget} {final : AgentGraphState}
      (trace : final.searchTrace = tools.wholeTrace reader settings arguments)
      (sub : fetched <+: tools.pages reader arguments) :
      Ends tools reader settings text arguments fetched [] (.answered final)
  | paused {tool : RegisteredTool} {fetched : List SearchTarget} {target : SearchTarget}
      {rest : List SearchTarget} {final : AgentGraphState} {m : Message}
      (position : tools.Position reader settings arguments tool fetched target rest)
      (stored : tools.Stored reader settings text arguments tool fetched target rest m)
      (pending : m.metadata.approval.map Approval.status = some .pending) :
      Ends tools reader settings text arguments fetched [m] (.paused final)

section

variable {reader : TextReader} {settings : AgentSettings} {tools : SearchTools} {text : String}
  {tool : RegisteredTool} {arguments : JsonObject} {fetched rest : List SearchTarget}
  {target : SearchTarget} {state : AgentGraphState} {log : AgentLog} {r : GraphEnd}

/-- `createApproval` keeps what a confirmed run needs. -/
theorem stored_createApproval
    (h : tools.Pausing reader settings tool arguments fetched target rest state)
    (conversationId : UUID) (route : ModelRoute) (ttl : ℤ) (approvalId : UUID) (now : Instant) :
    ∃ m toolCalls,
      createApproval state conversationId route ttl approvalId now now = some (m, toolCalls) ∧
        tools.Stored reader settings state.message arguments tool fetched target rest m ∧
        m.metadata.approval.map Approval.status = some .pending := by
  obtain ⟨call, hlast, hname, harguments, htarget, -⟩ := h.last
  unfold createApproval
  rw [hlast]
  refine ⟨_, _, rfl, ⟨⟨_, rfl, hname, harguments, rfl⟩, ⟨_, rfl, h.rest, ?_, ?_⟩, ?_⟩, rfl⟩
  · exact h.before.trace
  · exact h.before.enrichment
  · simp [htarget]

theorem awaits_of_pausing
    (h : tools.Pausing reader settings tool arguments fetched target rest state) :
    awaitsConfirmation state.toolCalls = true := by
  obtain ⟨call, hlast, -, -, -, hconfirmation, hstatus, herror⟩ := h.last
  simp [awaitsConfirmation, hlast, hconfirmation, hstatus, herror]

/-- A pause ends the run with one stored approval. -/
theorem ends_awaitConfirmation
    (hposition : tools.Position reader settings arguments tool fetched target rest)
    (hpausing : tools.Pausing reader settings tool arguments fetched target rest state)
    (htask : state.taskId = none)
    (h : (awaitConfirmation settings state).RunsWith tools.Answers log r) :
    ∃ approvals, tools.Ends reader settings state.message arguments fetched approvals r ∧
      Effects settings log [] approvals := by
  obtain ⟨_, rest, rfl, -, h⟩ := Program.runsWith_ask.mp h
  simp only [Program.bind_eq, Program.done_bind, htask, Option.isSome_none, Bool.false_eq_true,
    ↓reduceIte] at h
  obtain ⟨⟨approvalId, now⟩, rest, rfl, -, h⟩ := Program.runsWith_ask.mp h
  obtain ⟨_, rest, rfl, -, h⟩ := Program.runsWith_ask.mp h
  obtain ⟨rfl, rfl⟩ := Program.runsWith_done.mp h
  obtain ⟨m, toolCalls, hcreate, hstored, hpending⟩ := stored_createApproval hpausing
    (state.conversationId.getD 0) (state.route.getD ⟨"", "", ""⟩) settings.approvalTtlSeconds
    approvalId now
  refine ⟨[m], .paused hposition hstored hpending, rfl, ?_⟩
  have hpersisted : persisted settings ⟨.createApproval state, (approvalId, now)⟩ =
      some (.approval m) :=
    congrArg (Option.map fun r : Message × List ToolCallRecord => Persisted.approval r.1) hcreate
  have hsaved : savedApproval settings ⟨.createApproval state, (approvalId, now)⟩ = some m := by
    unfold savedApproval
    rw [hpersisted]
    rfl
  unfold savedApprovals
  rw [List.filterMap_cons_none rfl, List.filterMap_cons_some hsaved]
  rfl

/-- The nodes from `generate_answer` on change no call and no observation. -/
theorem idle_answerNodes (reader : TextReader) (state : AgentGraphState) :
    (answerNodes reader state).Asks Idle fun r =>
      ∃ final, r = .answered final ∧ final.searchTrace = state.searchTrace := by
  have hanswer : (generateAnswer reader state).Asks Idle fun state' =>
      state'.searchTrace = state.searchTrace := by
    refine ⟨trivial, fun _ => ⟨trivial, fun available => ?_⟩⟩
    simp only [Program.bind_eq, Program.done_bind]
    generalize (if state.confirmedTool.isNone ∧ state.toolCalls = [] then
      reader.toolAvailabilityAnswer state.message _ else none) = availability
    split
    · exact rfl
    · split
      · exact rfl
      · exact rfl
      · exact ⟨trivial, fun _ => rfl⟩
  refine hanswer.seq fun final hfinal => ?_
  exact ⟨trivial, fun _ => ⟨trivial, fun _ => ⟨trivial, fun _ => ⟨trivial, fun _ =>
    ⟨trivial, fun _ => ⟨final, rfl, hfinal⟩⟩⟩⟩⟩⟩

def AnswersOnly (next : AgentGraphState → AgentProgram GraphEnd) (state : AgentGraphState) : Prop :=
  (next state).Asks Idle fun r =>
    ∃ final, r = .answered final ∧ final.searchTrace = state.searchTrace

/-- Behind `execute_tool` a run answers with the whole trace or stores an approval. -/
theorem ends_of_progress (next : AgentGraphState → AgentProgram GraphEnd)
    (hnext : state.searchTrace = tools.wholeTrace reader settings arguments →
      AnswersOnly next state)
    (hprogress : tools.Progress reader settings arguments state fetched)
    (htask : state.taskId = none)
    (h : (if awaitsConfirmation state.toolCalls then awaitConfirmation settings state
      else next state).RunsWith tools.Answers log r) :
    ∃ approvals, tools.Ends reader settings state.message arguments fetched approvals r ∧
      Effects settings log [] approvals := by
  cases hprogress with
  | whole htrace herror hsub =>
    have hawaits := SearchTools.awaits_of_error herror
    simp only [hawaits, Bool.false_eq_true, ↓reduceIte] at h
    obtain ⟨heffects, -, final, rfl, hfinal⟩ := idle_of_asks settings (hnext htrace) h
    exact ⟨[], .answered (hfinal.trans htrace) hsub, heffects⟩
  | paused hposition hpausing =>
    simp only [awaits_of_pausing hpausing, ↓reduceIte] at h
    exact ends_awaitConfirmation hposition hpausing htask h

/-! ### The confirmed run -/

/-- What a confirmed run starts from. -/
theorem confirmedState_of_stored {m : Message} {stored : Approval}
    (h : tools.Stored reader settings text arguments tool fetched target rest m)
    (hstored : m.metadata.approval = some stored) (userId : Option UUID) (traceId : String) :
    let state := confirmedState settings userId m stored traceId
    tools.Gathered reader settings tool arguments fetched state ∧
      state.confirmedSearchTarget = some target ∧ state.searchFetchTargets = rest ∧
      state.confirmedToolName = some tool.manifest.name ∧
      state.confirmedArguments = fetchArguments settings target.url ∧ state.message = text := by
  obtain ⟨approval, happroval, hname, harguments, htext⟩ := h.approval
  obtain ⟨continuation, hcontinuation, hrest, htrace, henrichment⟩ := h.continuation
  obtain rfl : approval = stored := Option.some.inj (happroval.symm.trans hstored)
  refine ⟨⟨?_, ?_⟩, h.target, ?_, congrArg some hname, harguments, htext⟩
  · rw [← htrace]
    simp [AgentGraphState.searchTrace, confirmedState, hcontinuation]
  · simpa [confirmedState, hcontinuation] using henrichment
  · simpa [confirmedState, hcontinuation] using hrest

theorem idle_confirmedPlan {name : String} (hne : name ≠ "")
    (hname : state.confirmedToolName = some name) :
    (planNode reader settings state).Asks Idle fun state' =>
      ∃ found, state' = { state with plan := confirmedPlan found name state } := by
  have htool : state.confirmedTool = some name := by
    simp [AgentGraphState.confirmedTool, hname, hne]
  refine ⟨trivial, fun _ => ?_⟩
  simp only [Program.bind_eq, Program.done_bind, htool]
  exact ⟨trivial, fun found => ⟨found, rfl⟩⟩

/-- A confirmed run dispatches its page and goes on to the next one. -/
theorem ends_streamConfirmedTool {route : String → String → ModelRoute} {userId : Option UUID}
    {m : Message} {stored : Approval} {traceId : String}
    (hposition : tools.Position reader settings arguments tool fetched target rest)
    (h : tools.Stored reader settings text arguments tool fetched target rest m)
    (hstored : m.metadata.approval = some stored)
    (hfits : text.length ≤ settings.contextMaxChars)
    (hrun : (streamConfirmedTool reader settings route userId m stored traceId).RunsWith
      tools.Answers log r) :
    ∃ approvals, tools.Ends reader settings text arguments (fetched ++ [target]) approvals r ∧
      Effects settings log [pageCall settings target] approvals := by
  have hname : tool.manifest.name = mcpFetchToolName :=
    tools.fetch_name tool (by simp [hposition.fetch])
  have hne : tool.manifest.name ≠ "" := by
    rw [hname]
    decide
  obtain ⟨hgathered, htarget, hrest, hconfirmed, harguments, htext⟩ :=
    confirmedState_of_stored h hstored userId traceId
  have htask : (confirmedState settings userId m stored traceId).taskId = none := rfl
  unfold streamConfirmedTool at hrun
  generalize confirmedState settings userId m stored traceId = state at *
  have hwithin : ¬ settings.contextMaxChars < state.message.length := by
    rw [htext]
    omega
  unfold runGraph at hrun
  rw [if_neg hwithin] at hrun
  obtain ⟨log₁, loaded, log₂, rfl, hload, hrun⟩ := Program.runsWith_bind.mp hrun
  have hloads : (loadContext route state).Asks Idle fun state' =>
      state' = { state with route := some (route state.taskType state.message) } :=
    ⟨trivial, fun _ => ⟨trivial, fun _ => rfl⟩⟩
  obtain ⟨heffects₁, -, rfl⟩ := idle_of_asks settings hloads hload
  obtain ⟨log₃, planned, log₄, rfl, hplan, hrun⟩ := Program.runsWith_bind.mp hrun
  have hloaded : ({ state with route := some (route state.taskType state.message) } :
      AgentGraphState).confirmedToolName = some tool.manifest.name := hconfirmed
  obtain ⟨heffects₂, -, found, rfl⟩ :=
    idle_of_asks settings (idle_confirmedPlan hne hloaded) hplan
  obtain ⟨log₅, executed, log₆, rfl, hexecute, hrun⟩ := Program.runsWith_bind.mp hrun
  obtain ⟨called, log₇, rfl, hcall, rfl, hframe, heffects₃⟩ := runsWith_executeToolNode hexecute
  have hpage : tools.Progress reader settings arguments called (fetched ++ [target]) ∧
      dispatchedCalls log₇ = [pageCall settings target] := by
    refine progress_page hposition ?_ ?_ ?_ ?_ ?_ ?_ ?_ hcall
    · exact ⟨hgathered.trace, hgathered.enrichment⟩
    · exact htarget
    · exact hrest
    · rfl
    · exact congrArg some hname
    · exact harguments
    · rfl
  obtain ⟨hprogress, hcalls⟩ := hpage
  have htask' : called.taskId = none := (task_of_frame hframe).1.trans htask
  have htext' : called.message = text :=
    (congrArg AgentGraphState.message hframe).trans htext
  have hround : tools.Progress reader settings arguments
      { called with toolRounds := called.toolRounds + 1 } (fetched ++ [target]) := hprogress.round
  obtain ⟨approvals, hends, heffects₄⟩ := ends_of_progress (answerNodes reader)
    (fun _ => idle_answerNodes reader _) hround htask' hrun
  refine ⟨approvals, htext' ▸ hends, ?_⟩
  rw [hcalls] at heffects₃
  exact heffects₁.append (heffects₂.append (heffects₃.append heffects₄))

/-! ### The run of the search -/

structure Opening (text : String) (state : AgentGraphState) : Prop where
  calls : state.toolCalls = []
  observations : state.observations = []
  target : state.confirmedSearchTarget = none
  task : state.taskId = none
  chat : state.confirmedToolName = none
  message : state.message = text

theorem firstPlan_append {log' : AgentLog} (h : firstPlan log = none) :
    firstPlan (log ++ log') = firstPlan log' := by
  unfold firstPlan at h ⊢
  rw [List.findSome?_append, h]
  rfl

theorem idle_planNode (hchat : state.confirmedToolName = none) :
    (planNode reader settings state).Asks Idle fun state' =>
      ∃ plan, state' = { state with plan } ∧
        ((alreadyCalled state.toolCalls).isSome → plan.noTool = true) := by
  have htool : state.confirmedTool = none := by simp [AgentGraphState.confirmedTool, hchat]
  refine ⟨trivial, fun _ => ?_⟩
  simp only [Program.bind_eq, Program.done_bind, htool]
  split_ifs
  · exact ⟨_, rfl, fun _ => rfl⟩
  · cases hcalled : alreadyCalled state.toolCalls with
    | none =>
      refine ((looks_planNextStep reader settings state).mono (fun _ => Idle.of_looks)
        fun _ h => h).seq fun plan _ => ?_
      exact ⟨plan, rfl, fun heq => by cases heq⟩
    | some reason =>
      unfold planNextStep
      rw [hcalled]
      exact ⟨_, rfl, fun _ => rfl⟩

theorem searchView_mem_wholeTrace :
    tools.searchView reader arguments ∈ (tools.wholeTrace reader settings arguments).calls := by
  unfold SearchTools.wholeTrace
  dsimp only
  split
  · exact List.mem_cons_self
  · cases tools.fetch with
    | none => exact List.mem_cons_self
    | some tool =>
      dsimp only
      split_ifs
      · exact List.mem_cons_self
      · exact List.mem_cons_self

/-- After a search no tool is planned. -/
theorem alreadyCalled_of_search
    (h : state.searchTrace = tools.wholeTrace reader settings arguments) :
    (alreadyCalled state.toolCalls).isSome := by
  have hmem : tools.searchView reader arguments ∈ state.toolCalls.map ToolCallRecord.view := by
    have hsearch : tools.searchView reader arguments ∈
        (tools.wholeTrace reader settings arguments).calls := searchView_mem_wholeTrace
    rw [← h] at hsearch
    exact hsearch
  obtain ⟨call, hcall, hview⟩ := List.mem_map.mp hmem
  have hname : call.toolName = webSearchToolName := congrArg CallView.toolName hview
  have hany : (state.toolCalls.any fun call => call.toolName = webSearchToolName) = true :=
    List.any_eq_true.mpr ⟨call, hcall, by simp [hname]⟩
  unfold alreadyCalled
  simp only [hany, ↓reduceIte]
  split_ifs <;> rfl

/-- The loop of the chat graph behind a search answers. -/
theorem answersOnly_planLoop (rounds : ℕ) (hchat : state.confirmedToolName = none)
    (h : state.searchTrace = tools.wholeTrace reader settings arguments) :
    AnswersOnly (planLoop reader settings rounds) state := by
  unfold AnswersOnly planLoop
  refine (idle_planNode hchat).seq fun planned hplanned => ?_
  obtain ⟨plan, rfl, hnone⟩ := hplanned
  have hno : plan.noTool = true := hnone (alreadyCalled_of_search h)
  simp only [hno, ↓reduceIte]
  exact idle_answerNodes reader { state with plan }

/-- The first call of a chat run is that of its search. -/
theorem ends_executeTool (next : AgentGraphState → AgentProgram GraphEnd)
    (hnext : ∀ state', state'.confirmedToolName = none →
      state'.searchTrace = tools.wholeTrace reader settings state.plan.arguments →
        AnswersOnly next state')
    (hopening : Opening text state) (hplan : state.plan.noTool = false)
    (hname : state.plan.toolName = some webSearchToolName)
    (h : (executeToolNode reader settings state >>= fun state =>
      if awaitsConfirmation state.toolCalls then awaitConfirmation settings state
      else next state).RunsWith tools.Answers log r) :
    ∃ fetched approvals,
      tools.Ends reader settings text state.plan.arguments fetched approvals r ∧
      Effects settings log
        ((webSearchToolName, state.plan.arguments) :: fetched.map (pageCall settings))
        approvals := by
  obtain ⟨log₁, executed, log₂, rfl, hexecute, hrun⟩ := Program.runsWith_bind.mp h
  obtain ⟨called, log₃, rfl, hcall, rfl, hframe, heffects₁⟩ := runsWith_executeToolNode hexecute
  obtain ⟨fetched, hprogress, hcalls⟩ := progress_search hopening.calls hopening.observations
    hopening.target hplan hname hcall
  have htask : called.taskId = none := (task_of_frame hframe).1.trans hopening.task
  have htext : called.message = text :=
    (congrArg AgentGraphState.message hframe).trans hopening.message
  have hchat : called.confirmedToolName = none :=
    (congrArg AgentGraphState.confirmedToolName hframe).trans hopening.chat
  have hround : tools.Progress reader settings state.plan.arguments
      { called with toolRounds := called.toolRounds + 1 } fetched := hprogress.round
  obtain ⟨approvals, hends, heffects₂⟩ := ends_of_progress next
    (hnext { called with toolRounds := called.toolRounds + 1 } hchat) hround htask hrun
  refine ⟨fetched, approvals, htext ▸ hends, ?_⟩
  have heffects := heffects₁.append heffects₂
  rw [hcalls, List.append_nil] at heffects
  exact heffects

/-- The loop of the chat graph from a state that has called nothing. -/
theorem ends_planLoop (rounds : ℕ) (hopening : Opening text state) {plan : AgentToolPlan}
    (hfirst : firstPlan log = some plan) (hname : plan.toolName = some webSearchToolName)
    (h : (planLoop reader settings rounds state).RunsWith tools.Answers log r) :
    ∃ fetched approvals,
      tools.Ends reader settings text plan.arguments fetched approvals r ∧
      Effects settings log
        ((webSearchToolName, plan.arguments) :: fetched.map (pageCall settings)) approvals := by
  unfold planLoop at h
  obtain ⟨log₁, planned, log₂, rfl, hplan, hrun⟩ := Program.runsWith_bind.mp h
  obtain ⟨heffects₁, hnone, chosen, rfl, -⟩ :=
    idle_of_asks settings (idle_planNode hopening.chat) hplan
  rw [firstPlan_append hnone] at hfirst
  split_ifs at hrun with hno
  · have hidle := idle_of_asks settings (idle_answerNodes reader { state with plan := chosen }) hrun
    rw [hidle.2.1] at hfirst
    cases hfirst
  · cases rounds with
    | zero =>
      obtain ⟨rfl, rfl⟩ := Program.runsWith_done.mp hrun
      cases hfirst
    | succ rounds =>
      have hentered : firstPlan log₂ = some chosen := by
        obtain ⟨_, rest, rfl, -⟩ := Program.runsWith_ask.mp hrun
        rfl
      obtain rfl : chosen = plan := Option.some.inj (hentered.symm.trans hfirst)
      have hchosen : Opening text { state with plan := chosen } :=
        ⟨hopening.calls, hopening.observations, hopening.target, hopening.task, hopening.chat,
          hopening.message⟩
      obtain ⟨fetched, approvals, hends, heffects₂⟩ := ends_executeTool
        (planLoop reader settings rounds)
        (fun _ hchat htrace => answersOnly_planLoop rounds hchat htrace) hchosen
        (Bool.eq_false_iff.mpr hno) hname hrun
      exact ⟨fetched, approvals, hends, heffects₁.append heffects₂⟩

/-- A chat run that starts with a search ends behind it or at its first page. -/
theorem ends_stream {route : String → String → ModelRoute} {userId conversationId : Option UUID}
    {taskType traceId : String} {plan : AgentToolPlan} (hfirst : firstPlan log = some plan)
    (hname : plan.toolName = some webSearchToolName)
    (h : (stream reader settings route userId none conversationId text taskType traceId).RunsWith
      tools.Answers log r) :
    text.length ≤ settings.contextMaxChars ∧
      ∃ fetched approvals,
        tools.Ends reader settings text plan.arguments fetched approvals r ∧
        Effects settings log
          ((webSearchToolName, plan.arguments) :: fetched.map (pageCall settings)) approvals := by
  unfold stream runGraph at h
  split_ifs at h with hlong
  · obtain ⟨_, _, rfl, -, h⟩ := Program.runsWith_ask.mp h
    obtain ⟨rfl, rfl⟩ := Program.runsWith_done.mp h
    cases hfirst
  · refine ⟨Nat.le_of_not_lt hlong, ?_⟩
    obtain ⟨_, log₁, rfl, -, h⟩ := Program.runsWith_ask.mp h
    obtain ⟨id, log₂, rfl, -, h⟩ := Program.runsWith_ask.mp h
    obtain ⟨_, log₃, rfl, -, h⟩ := Program.runsWith_ask.mp h
    obtain ⟨_, log₄, rfl, -, h⟩ := Program.runsWith_ask.mp h
    obtain ⟨_, log₅, rfl, -, h⟩ := Program.runsWith_ask.mp h
    obtain ⟨_, log₆, rfl, -, h⟩ := Program.runsWith_ask.mp h
    obtain ⟨_, log₇, rfl, -, h⟩ := Program.runsWith_ask.mp h
    simp only [Program.bind_eq, Program.done_bind] at h
    obtain ⟨log₈, early, log₉, rfl, hearly, h⟩ := Program.runsWith_bind.mp h
    obtain ⟨heffects₁, hnone, hplan⟩ := idle_of_asks settings
      ((looks_planEarlyConfirmableTool reader settings _).mono (fun _ => Idle.of_looks)
        fun _ h => h) hearly
    have hrest : firstPlan log₉ = some plan := (firstPlan_append hnone).symm.trans hfirst
    cases early with
    | some chosen =>
      obtain ⟨hno, -⟩ := hplan chosen rfl
      have hentered : firstPlan log₉ = some chosen := by
        obtain ⟨_, rest, rfl, -⟩ := Program.runsWith_ask.mp h
        rfl
      obtain rfl : chosen = plan := Option.some.inj (hentered.symm.trans hrest)
      obtain ⟨fetched, approvals, hends, heffects₂⟩ := ends_executeTool
        (fun state => planLoop reader settings (state.maxToolRounds - state.toolRounds) state)
        (fun state' hchat htrace =>
          answersOnly_planLoop (state'.maxToolRounds - state'.toolRounds) hchat htrace)
        ⟨rfl, rfl, rfl, rfl, rfl, rfl⟩ hno hname h
      exact ⟨fetched, approvals, hends, .cons trivial <| .cons trivial <| .cons trivial <|
        .cons trivial <| .cons trivial <| .cons trivial <| .cons trivial <|
          heffects₁.append heffects₂⟩
    | none =>
      simp only at h
      obtain ⟨_, log₁₀, rfl, -, h⟩ := Program.runsWith_ask.mp h
      obtain ⟨context, log₁₁, rfl, -, h⟩ := Program.runsWith_ask.mp h
      simp only [Program.bind_eq, Program.done_bind] at h
      have hlater : firstPlan log₁₁ = some plan := hrest
      obtain ⟨fetched, approvals, hends, heffects₂⟩ :=
        ends_planLoop _ ⟨rfl, rfl, rfl, rfl, rfl, rfl⟩ hlater hname h
      exact ⟨fetched, approvals, hends, .cons trivial <| .cons trivial <| .cons trivial <|
        .cons trivial <| .cons trivial <| .cons trivial <| .cons trivial <|
          heffects₁.append (.cons trivial (.cons trivial heffects₂))⟩

end

end AgentDemo
