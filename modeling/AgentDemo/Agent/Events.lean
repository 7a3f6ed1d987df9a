import AgentDemo.Agent.Footprint
import AgentDemo.Library.Runs

/-! The events that a run of the graph streams, and how the worker of a task reads them. -/
namespace AgentDemo

abbrev AgentLog := Program.Log Request Request.Answer

/-- The streamed events that `AgentTaskRunner.run` acts on. -/
inductive StreamEvent where
  | token (text : String)
  | toolResult (error : Option String)
  | done (state : AgentGraphState)
  | error (message : String)

def StreamEvent.token? : StreamEvent → Option String
  | .token text => some text
  | _ => none

/-- `tool_availability_answer` of `generate_answer`. -/
def availabilityAnswer (reader : TextReader) (state : AgentGraphState)
    (tools : List RegisteredTool) : Option String :=
  if state.confirmedTool.isNone ∧ state.toolCalls = [] then
    reader.toolAvailabilityAnswer state.message (tools.filter fun tool => tool.manifest.enabled)
  else none

/-- The answer that `generate_answer` streams without the model. -/
def runtimeAnswer (reader : TextReader) (state : AgentGraphState) (tools : List RegisteredTool) :
    Option String :=
  if state.finalAnswer ≠ "" then some state.finalAnswer
  else availabilityAnswer reader state tools <|> reader.toolFailureAnswer state

/-- The tokens of `_generate_answer`. -/
def modelTokens (reader : TextReader) (state : AgentGraphState) (answer : String) : List String :=
  let finalAnswer := reader.sanitizeModelAnswer answer state
  if finalAnswer = "" then [] else [finalAnswer]

def Request.entered : Request → Option (GraphNode × AgentGraphState)
  | .superstep node state => some (node, state)
  | _ => none

/-- What is streamed once a request has its answer; `last` is the node entered last. -/
def eventsOf (reader : TextReader) (last : Option (GraphNode × AgentGraphState)) :
    (q : Request) × q.Answer → List StreamEvent
  | ⟨.listTools, tools⟩ =>
    match last with
    | some (.generateAnswer, state) => (runtimeAnswer reader state tools).toList.map .token
    | _ => []
  | ⟨.generate state, answer⟩ => (modelTokens reader state answer).map .token
  | ⟨.registryGet name, none⟩ =>
    match last with
    | some (.executeTool, _) => [.toolResult (some ("Tool is not available: " ++ name))]
    | _ => []
  | ⟨.call tool _ confirmed, _⟩ =>
    (refusal tool confirmed).toList.map fun outcome => .toolResult outcome.error
  | ⟨.dispatch _ _ _, outcome⟩ => [.toolResult outcome.error]
  | ⟨.done state, _⟩ => [.done state]
  | ⟨.error detail, _⟩ => [.error detail]
  | _ => []

def streamEvents (reader : TextReader) :
    Option (GraphNode × AgentGraphState) → AgentLog → List StreamEvent
  | _, [] => []
  | last, entry :: log => eventsOf reader last entry ++ streamEvents reader entry.1.entered log

def confirmationRequiredError : String := "Tool requires confirmation before execution"

/-- `answer_parts`, `done_payload` and `failure`. -/
structure StreamReading where
  answerParts : List String
  donePayload : Option AgentGraphState
  failure : Option String

/-- One round of the event loop of `AgentTaskRunner.run`. -/
def StreamReading.next (reading : StreamReading) : StreamEvent → StreamReading
  | .token text => { reading with answerParts := reading.answerParts ++ [text] }
  | .done state => { reading with donePayload := some state }
  | .error message => { reading with
      failure := some (orText (some message) "Background agent task failed") }
  | .toolResult error =>
    if error = some confirmationRequiredError then { reading with
      failure := some ("This background task needs tool confirmation. " ++
        "Run the request in interactive chat to review and confirm the tool call.") }
    else reading

/-- The event loop of `AgentTaskRunner.run`. -/
def readStream (events : List StreamEvent) : StreamReading :=
  events.foldl StreamReading.next ⟨[], none, none⟩

def StreamEvent.Fails : StreamEvent → Prop
  | .error _ => True
  | .toolResult result => result = some confirmationRequiredError
  | _ => False

theorem StreamReading.next_failure (reading : StreamReading) (event : StreamEvent)
    (h : (reading.next event).failure = none) : reading.failure = none ∧ ¬ event.Fails := by
  cases event with
  | token text => exact ⟨h, fun hf => hf⟩
  | done state => exact ⟨h, fun hf => hf⟩
  | error message => exact absurd h nofun
  | toolResult result =>
    simp only [StreamReading.next] at h
    split_ifs at h with hblocked
    exact ⟨h, hblocked⟩

/-- The tokens are gathered in order, and no failure is forgotten. -/
theorem foldl_next (events : List StreamEvent) (reading : StreamReading)
    (h : (events.foldl StreamReading.next reading).failure = none) :
    (events.foldl StreamReading.next reading).answerParts =
        reading.answerParts ++ events.filterMap StreamEvent.token? ∧
      reading.failure = none ∧ ∀ event ∈ events, ¬ event.Fails := by
  induction events generalizing reading with
  | nil => exact ⟨(List.append_nil _).symm, h, fun _ he => absurd he List.not_mem_nil⟩
  | cons event rest ih =>
    obtain ⟨hparts, hnone, hrest⟩ := ih (reading.next event) h
    obtain ⟨hbefore, hevent⟩ := reading.next_failure event hnone
    have hnext : (reading.next event).answerParts =
        reading.answerParts ++ event.token?.toList := by
      cases event with
      | token text => rfl
      | done state => exact (List.append_nil _).symm
      | error message => exact (List.append_nil _).symm
      | toolResult result =>
        simp only [StreamReading.next]
        split_ifs <;> exact (List.append_nil _).symm
    refine ⟨?_, hbefore, ?_⟩
    · rw [List.foldl_cons, hparts, hnext, List.append_assoc]
      cases event <;> rfl
    · intro e he
      rcases List.mem_cons.mp he with rfl | he
      · exact hevent
      · exact hrest e he

theorem readStream_spec {events : List StreamEvent} (h : (readStream events).failure = none) :
    (readStream events).answerParts = events.filterMap StreamEvent.token? ∧
      ∀ event ∈ events, ¬ event.Fails := by
  have hfold := foldl_next events ⟨[], none, none⟩ h
  exact ⟨hfold.1, hfold.2.2⟩

/-! ### The events of the parts of the graph -/

section

variable {reader : TextReader} {settings : AgentSettings}

theorem streamEvents_append (last : Option (GraphNode × AgentGraphState)) (log log' : AgentLog) :
    streamEvents reader last (log ++ log') = streamEvents reader last log ++
      streamEvents reader (log.foldl (fun _ entry => entry.1.entered) last) log' := by
  induction log generalizing last with
  | nil => rfl
  | cons entry log ih =>
    simp only [List.cons_append, streamEvents, List.foldl_cons]
    rw [ih, List.append_assoc]

def Silent : Request → Prop
  | .generate _ | .superstep .generateAnswer _ => False
  | _ => True

theorem Silent.of_inner {q : Request} (h : Inner q) : Silent q := by
  cases q <;> first | exact h | trivial

theorem Silent.entered {q : Request} (h : Silent q) (s : AgentGraphState) :
    q.entered ≠ some (.generateAnswer, s) := by
  intro hs
  cases q with
  | superstep node state =>
    simp only [Request.entered, Option.some.injEq, Prod.mk.injEq] at hs
    rw [hs.1] at h
    exact h
  | _ => simp [Request.entered] at hs

theorem Silent.events {entry : (q : Request) × q.Answer} (h : Silent entry.1)
    {last : Option (GraphNode × AgentGraphState)} (hlast : ∀ s, last ≠ some (.generateAnswer, s)) :
    (eventsOf reader last entry).filterMap StreamEvent.token? = [] := by
  obtain ⟨q, a⟩ := entry
  cases q with
  | generate state => exact absurd h (fun hf => hf)
  | listTools =>
    cases last with
    | none => rfl
    | some entered =>
      obtain ⟨node, state⟩ := entered
      cases node with
      | generateAnswer => exact absurd rfl (hlast state)
      | _ => rfl
  | registryGet name =>
    cases a with
    | some tool => rfl
    | none =>
      simp only [eventsOf]
      split <;> rfl
  | call tool arguments confirmed =>
    simp only [eventsOf]
    cases refusal tool confirmed <;> rfl
  | _ => rfl

theorem tokens_silent {log : AgentLog} (h : ∀ entry ∈ log, Silent entry.1)
    {last : Option (GraphNode × AgentGraphState)} (hlast : ∀ s, last ≠ some (.generateAnswer, s)) :
    (streamEvents reader last log).filterMap StreamEvent.token? = [] := by
  induction log generalizing last with
  | nil => rfl
  | cons entry log ih =>
    have hentry := h entry List.mem_cons_self
    have hnone : (eventsOf reader last entry).filterMap StreamEvent.token? = [] :=
      hentry.events hlast
    have hrest := ih (fun e he => h e (List.mem_cons_of_mem _ he)) hentry.entered
    simp only [streamEvents, List.filterMap_append, hnone, hrest, List.append_nil]

/-- Every new call of a part of a run has its `tool_result` event. -/
def Reports (reader : TextReader) (calls calls' : List ToolCallRecord) (log : AgentLog) : Prop :=
  ∀ last, ∀ call ∈ calls', call ∈ calls ∨
    .toolResult call.result.error ∈ streamEvents reader last log

theorem Reports.nil (calls : List ToolCallRecord) (log : AgentLog) :
    Reports reader calls calls log := fun _ _ hcall => Or.inl hcall

theorem Reports.append {calls calls' calls'' : List ToolCallRecord} {log log' : AgentLog}
    (h : Reports reader calls calls' log) (h' : Reports reader calls' calls'' log') :
    Reports reader calls calls'' (log ++ log') := by
  intro last call hcall
  rw [streamEvents_append, List.mem_append]
  rcases h' _ call hcall with hcall | hevent
  · exact (h last call hcall).imp_right Or.inl
  · exact Or.inr (Or.inr hevent)

/-- A call of the executor reports its error. -/
theorem reports_runTool {tool : RegisteredTool} {arguments : JsonObject} {confirmed : Bool}
    {log : AgentLog} {result : ToolRunResponse}
    (h : (runTool reader tool arguments confirmed).Runs log result)
    (last : Option (GraphNode × AgentGraphState)) :
    .toolResult result.error ∈ streamEvents reader last log := by
  obtain ⟨stamp, rest, rfl, hrest⟩ := Program.runs_ask.mp h
  simp only [Program.bind_eq, Program.done_bind] at hrest
  cases hr : refusal tool confirmed with
  | some outcome =>
    simp only [hr] at hrest
    obtain ⟨rfl, rfl⟩ := Program.runs_done.mp hrest
    simp [streamEvents, eventsOf, hr, toolResponse]
  | none =>
    simp only [hr] at hrest
    obtain ⟨outcome, _, rfl, hdone⟩ := Program.runs_ask.mp hrest
    obtain ⟨rfl, rfl⟩ := Program.runs_done.mp hdone
    simp [streamEvents, eventsOf, toolResponse]

theorem toolCalls_fetchesDone (state : AgentGraphState) :
    (fetchesDone reader state).toolCalls = state.toolCalls := by
  unfold fetchesDone
  simp only
  split
  · rfl
  · split <;> rfl

theorem reports_fetchTargets {tool : RegisteredTool} {targets : List SearchTarget}
    {state state' : AgentGraphState} {log : AgentLog}
    (h : (fetchTargets reader settings tool targets state).Runs log state') :
    Reports reader state.toolCalls state'.toolCalls log := by
  induction targets generalizing state log with
  | nil =>
    obtain ⟨rfl, rfl⟩ := Program.runs_done.mp h
    rw [toolCalls_fetchesDone]
    exact .nil _ _
  | cons target rest ih =>
    obtain ⟨log₁, result, log₂, rfl, h₁, h₂⟩ := Program.runs_bind.mp h
    have hcall : Reports reader state.toolCalls
        (recordFetch reader settings tool target rest result state).toolCalls log₁ := by
      intro last call hcall
      rcases List.mem_append.mp hcall with hcall | hcall
      · exact Or.inl hcall
      · rw [List.mem_singleton.mp hcall]
        exact Or.inr (reports_runTool h₁ last)
    simp only at h₂
    split_ifs at h₂
    · obtain ⟨rfl, rfl⟩ := Program.runs_done.mp h₂
      exact hcall.append (.nil _ _)
    · exact hcall.append (ih h₂)

theorem reports_fetchSearchTargets {state state' : AgentGraphState} {log : AgentLog}
    (h : (fetchSearchTargets reader settings state).Runs log state') :
    Reports reader state.toolCalls state'.toolCalls log := by
  obtain ⟨tool, rest, rfl, hrest⟩ := Program.runs_ask.mp h
  have hfirst : Reports reader state.toolCalls state.toolCalls
      [⟨.registryGet mcpFetchToolName, tool⟩] := .nil _ _
  cases tool with
  | none =>
    obtain ⟨rfl, rfl⟩ := Program.runs_done.mp hrest
    exact .nil _ _
  | some tool => exact hfirst.append (reports_fetchTargets hrest)

theorem reports_afterCall {toolName : String} {result : ToolRunResponse} {enrichment : Bool}
    {state state' : AgentGraphState} {log : AgentLog}
    (h : (afterCall reader settings toolName result enrichment state).Runs log state') :
    Reports reader state.toolCalls state'.toolCalls log := by
  unfold afterCall at h
  split_ifs at h
  · obtain ⟨tool, rest, rfl, hrest⟩ := Program.runs_ask.mp h
    have hfirst : Reports reader state.toolCalls state.toolCalls
        [⟨.registryGet mcpFetchToolName, tool⟩] := .nil _ _
    cases tool with
    | none =>
      obtain ⟨rfl, rfl⟩ := Program.runs_done.mp hrest
      exact .nil _ _
    | some tool =>
      simp only [Program.bind_eq, Program.done_bind] at hrest
      split_ifs at hrest
      · obtain ⟨rfl, rfl⟩ := Program.runs_done.mp hrest
        exact .nil _ _
      · have hfetch := reports_fetchSearchTargets hrest
        exact hfirst.append hfetch
  · exact reports_fetchSearchTargets h
  · obtain ⟨rfl, rfl⟩ := Program.runs_done.mp h
    exact .nil _ _

theorem reports_recordCall {plan : AgentToolPlan} {toolName : String} {result : ToolRunResponse}
    {state : AgentGraphState} {log : AgentLog}
    {last : Option (GraphNode × AgentGraphState)}
    (h : .toolResult result.error ∈ streamEvents reader last log) :
    ∀ call ∈ (recordCall reader plan toolName result state).toolCalls, call ∈ state.toolCalls ∨
      .toolResult call.result.error ∈ streamEvents reader last log := by
  intro call hcall
  unfold recordCall at hcall
  simp only at hcall
  split at hcall
  · rcases List.mem_append.mp hcall with hcall | hcall
    · exact Or.inl hcall
    · rw [List.mem_singleton.mp hcall]
      exact Or.inr h
  · rcases List.mem_append.mp hcall with hcall | hcall
    · exact Or.inl hcall
    · rw [List.mem_singleton.mp hcall]
      exact Or.inr h

/-- The node `execute_tool` reports every call that it records. -/
theorem reports_executeToolNode {state state' : AgentGraphState} {log : AgentLog}
    (h : (executeToolNode reader settings state).Runs log state') :
    Reports reader state.toolCalls state'.toolCalls log := by
  obtain ⟨_, rest, rfl, hrest⟩ := Program.runs_ask.mp h
  simp only [Program.bind_eq, Program.done_bind] at hrest
  obtain ⟨log₁, called, log₂, rfl, hcall, hlast⟩ := Program.runs_bind.mp hrest
  obtain ⟨rfl, rfl⟩ := Program.runs_done.mp hlast
  rw [List.append_nil]
  intro last
  change ∀ call ∈ called.toolCalls, call ∈ state.toolCalls ∨
    .toolResult call.result.error ∈ streamEvents reader (some (.executeTool, state)) log₁
  have hidle (hidle : maybeExecuteTool reader settings state = .done state) :
      ∀ call ∈ called.toolCalls, call ∈ state.toolCalls ∨
        .toolResult call.result.error ∈ streamEvents reader (some (.executeTool, state)) log₁ := by
    rw [hidle] at hcall
    obtain ⟨rfl, rfl⟩ := Program.runs_done.mp hcall
    exact fun call hmem => Or.inl hmem
  cases hno : state.plan.noTool with
  | true =>
    apply hidle
    unfold maybeExecuteTool
    rw [hno]
    rfl
  | false =>
    cases hname : state.plan.toolName with
    | none =>
      apply hidle
      unfold maybeExecuteTool
      rw [hno, hname]
      rfl
    | some toolName =>
      rw [maybeExecuteTool_eq reader settings hno hname] at hcall
      obtain ⟨log₃, result, log₄, rfl, hexecute, hafter⟩ := Program.runs_bind.mp hcall
      have hresult : .toolResult result.error ∈
          streamEvents reader (some (.executeTool, state)) log₃ := by
        obtain ⟨tool, log₅, rfl, htool⟩ := Program.runs_ask.mp hexecute
        cases tool with
        | none =>
          obtain ⟨rfl, rfl⟩ := Program.runs_done.mp htool
          exact List.mem_cons_self
        | some tool =>
          have hrun := reports_runTool htool none
          exact List.mem_append_right _ hrun
      intro call hmem
      rw [streamEvents_append, List.mem_append]
      rcases reports_afterCall hafter _ call hmem with hmem | hevent
      · exact (reports_recordCall hresult call hmem).imp_right Or.inl
      · exact Or.inr (Or.inr hevent)

end

end AgentDemo
