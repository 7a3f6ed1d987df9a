import AgentDemo.Agent.Answers
import AgentDemo.System.BackgroundRuns
import AgentDemo.System.Fencing
import AgentDemo.System.GraphRuns

/-! A succeeded background task has its answer saved: the messages that one session stores and
the result that another one commits agree. -/
namespace AgentDemo

/-! ### One attempt -/

instance (q : Request) : Nonempty q.Answer := ⟨sampleAnswer q⟩

variable {reader : TextReader} {settings : AgentSettings} {route : String → String → ModelRoute}

/-- Requests that look no conversation up. -/
def Housed : Request → Prop
  | .ensureConversation _ => False
  | _ => True

theorem Housed.of_inner {q : Request} (h : Inner q) : Housed q := by
  cases q <;> first | exact h | trivial

theorem housed_generateAnswer (state : AgentGraphState) :
    (generateAnswer reader state).Asks Housed fun _ => True := by
  refine ⟨trivial, fun _ => ⟨trivial, fun tools => ?_⟩⟩
  simp only [Program.bind_eq, Program.done_bind]
  split
  · trivial
  · split
    · trivial
    · trivial
    · exact ⟨trivial, fun _ => trivial⟩

theorem housed_answerNodes (state : AgentGraphState) :
    (answerNodes reader state).Asks Housed fun _ => True := by
  refine (housed_generateAnswer state).seq fun final _ => ?_
  exact ⟨trivial, fun _ => ⟨trivial, fun _ => ⟨trivial, fun _ => ⟨trivial, fun _ =>
    ⟨trivial, fun _ => trivial⟩⟩⟩⟩⟩

theorem housed_awaitConfirmation (state : AgentGraphState) :
    (awaitConfirmation settings state).Asks Housed fun _ => True := by
  refine ⟨trivial, fun _ => ?_⟩
  simp only [Program.bind_eq, Program.done_bind]
  split_ifs
  · exact ⟨trivial, fun _ => trivial⟩
  · exact ⟨trivial, fun _ => ⟨trivial, fun _ => trivial⟩⟩

theorem Housed.of_node {q : Request} {node : GraphNode} {state : AgentGraphState}
    (h : q = .superstep node state ∨ Inner q) : Housed q := by
  rcases h with rfl | hinner
  · trivial
  · exact .of_inner hinner

theorem housed_planLoop (rounds : ℕ) (state : AgentGraphState) :
    (planLoop reader settings rounds state).Asks Housed fun _ => True := by
  induction rounds generalizing state with
  | zero =>
    unfold planLoop
    refine ((inner_planNode reader settings state).mono (fun _ => Housed.of_node)
      fun _ h => h).seq fun planned _ => ?_
    split_ifs
    · exact housed_answerNodes planned
    · trivial
  | succ rounds ih =>
    unfold planLoop
    refine ((inner_planNode reader settings state).mono (fun _ => Housed.of_node)
      fun _ h => h).seq fun planned _ => ?_
    split_ifs
    · exact housed_answerNodes planned
    · refine ((inner_executeToolNode reader settings planned).mono (fun _ => Housed.of_node)
        fun _ h => h).seq fun called _ => ?_
      split_ifs
      · exact housed_awaitConfirmation called
      · exact ih called

/-- A run of the chat graph looks a conversation up once, for its first state. -/
theorem asks_chatGraph (state : AgentGraphState) :
    (chatGraph reader settings route state).Asks
      (fun q => q = .ensureConversation state ∨ Housed q) fun _ => True := by
  refine ⟨Or.inr trivial, fun _ => ⟨Or.inl rfl, fun c => ?_⟩⟩
  refine Program.Asks.mono ?_ (fun _ h => Or.inr h) fun _ h => h
  refine ⟨trivial, fun _ => ⟨trivial, fun _ => ⟨trivial, fun _ => ⟨trivial, fun _ =>
    ⟨trivial, fun _ => ?_⟩⟩⟩⟩⟩
  simp only [Program.bind_eq, Program.done_bind]
  refine ((inner_planEarlyConfirmableTool reader settings _).mono (fun _ => Housed.of_inner)
    fun _ h => h).seq fun plan _ => ?_
  cases plan with
  | none => exact ⟨trivial, fun _ => ⟨trivial, fun _ => housed_planLoop _ _⟩⟩
  | some plan =>
    refine ((inner_executeToolNode reader settings _).mono (fun _ => Housed.of_node)
      fun _ h => h).seq fun called _ => ?_
    unfold afterExecuteTool
    split_ifs
    · exact housed_awaitConfirmation called
    · exact housed_planLoop _ called

theorem Outcome.length_le {final : AgentGraphState} {stored : List Persisted}
    (h : Outcome final stored) : stored.length ≤ 1 := by
  cases h with
  | answered => exact le_rfl
  | paused interactive last pends => exact le_rfl
  | reported background blocked => exact Nat.zero_le 1

section

variable {userId taskId conversationId : Option UUID} {message taskType traceId : String}

theorem runs_stream {log : AgentLog} {e : GraphEnd}
    (h : (stream reader settings route userId taskId conversationId message taskType
      traceId).Runs log e) :
    (∃ detail, log = [⟨.error detail, ()⟩] ∧ e = .failed detail) ∨
      (chatGraph reader settings route (chatState settings userId taskId conversationId message
        taskType traceId)).Runs log e := by
  unfold stream runGraph at h
  split_ifs at h
  · obtain ⟨_, rest, rfl, hdone⟩ := Program.runs_ask.mp h
    obtain ⟨rfl, rfl⟩ := Program.runs_done.mp hdone
    exact Or.inl ⟨_, rfl, rfl⟩
  · exact Or.inr h

/-- A run stores at most one thing. -/
theorem length_persisted {log : AgentLog} {e : GraphEnd}
    (h : (stream reader settings route userId taskId conversationId message taskType
      traceId).Runs log e) : (log.filterMap (persisted settings)).length ≤ 1 := by
  rcases runs_stream h with ⟨detail, rfl, -⟩ | hgraph
  · exact Nat.zero_le 1
  · obtain ⟨c, -, before, final, count, rfl, -, -, -, hending, -⟩ :=
      closes_chatGraph rfl rfl hgraph
    have hdone : persisted settings ⟨.done final, ()⟩ = none := rfl
    rw [List.filterMap_append, List.filterMap_cons_none hdone, List.filterMap_nil,
      List.append_nil]
    exact hending.outcome.length_le

/-- A run that is about to save its answer has not saved one before. -/
theorem not_saved_before {log : AgentLog} {state : AgentGraphState}
    {k : (Request.saveAssistantMessage state).Answer → AgentProgram GraphEnd}
    (h : (stream reader settings route userId taskId conversationId message taskType
      traceId).Leads log (.ask (.saveAssistantMessage state) k)) (saved : AgentGraphState) :
    ⟨.saveAssistantMessage saved, ()⟩ ∉ log := by
  intro hmem
  obtain ⟨rest, e, hrest⟩ := Program.exists_runs (k ())
  have hruns : (stream reader settings route userId taskId conversationId message taskType
      traceId).Runs ((log ++ [⟨.saveAssistantMessage state, ()⟩]) ++ rest) e :=
    (h.answer ()).trans hrest
  have hone := length_persisted hruns
  have hstored : .answer saved.conversationId saved.finalAnswer ∈
      log.filterMap (persisted settings) := List.mem_filterMap.mpr ⟨_, hmem, rfl⟩
  have hbefore := List.length_pos_of_mem hstored
  have hnow : (List.filterMap (persisted settings)
      ([⟨.saveAssistantMessage state, ()⟩] : AgentLog)).length = 1 := rfl
  rw [List.filterMap_append, List.filterMap_append, List.length_append, List.length_append,
    hnow] at hone
  omega

/-- The conversation that a run looks up is the one it has been given. -/
theorem asked_of_stream {log : AgentLog} {state : AgentGraphState}
    {k : (Request.ensureConversation state).Answer → AgentProgram GraphEnd}
    (h : (stream reader settings route userId taskId conversationId message taskType
      traceId).Leads log (.ask (.ensureConversation state) k)) :
    state.conversationId = conversationId ∧ state.userId = userId := by
  have hasks : (stream reader settings route userId taskId conversationId message taskType
      traceId).Asks (fun q => q = .ensureConversation (chatState settings userId taskId
        conversationId message taskType traceId) ∨ Housed q) fun _ => True := by
    unfold stream runGraph
    split_ifs
    · exact ⟨Or.inr trivial, fun _ => trivial⟩
    · exact asks_chatGraph _
  rcases (hasks.of_leads h).1 with heq | hhoused
  · cases heq
    exact ⟨rfl, rfl⟩
  · exact absurd hhoused (fun hf => hf)

theorem error_mem_streamEvents {log : AgentLog} {detail : String}
    (h : ⟨.error detail, ()⟩ ∈ log) (last : Option (GraphNode × AgentGraphState)) :
    .error detail ∈ streamEvents reader last log := by
  induction log generalizing last with
  | nil => exact absurd h List.not_mem_nil
  | cons entry log ih =>
    unfold streamEvents
    rw [List.mem_append]
    rcases List.mem_cons.mp h with rfl | h
    · exact Or.inl (List.mem_singleton.mpr rfl)
    · exact Or.inr (ih h _)

/-- A background run whose stream reads as a success has saved what it has streamed, in the
conversation that it has been given. -/
theorem saved_of_reading {log : AgentLog} {e : GraphEnd} (htask : taskId.isSome)
    (h : (stream reader settings route userId taskId conversationId message taskType
      traceId).Runs log e)
    (hread : (readStream (streamEvents reader none log)).failure = none) :
    ∃ final asked c, e = .answered final ∧ ⟨.saveAssistantMessage final, ()⟩ ∈ log ∧
      final.finalAnswer = String.join (readStream (streamEvents reader none log)).answerParts ∧
      ⟨.ensureConversation asked, c⟩ ∈ log ∧ final.conversationId = some c := by
  obtain ⟨hparts, hevents⟩ := readStream_spec hread
  rcases runs_stream h with ⟨detail, rfl, -⟩ | hgraph
  · have hevent : .error detail ∈ streamEvents reader none [⟨.error detail, ()⟩] :=
      error_mem_streamEvents (List.mem_singleton.mpr rfl) none
    exact absurd trivial (hevents _ hevent)
  · have hspeaks := speaks_chatGraph hgraph
    have hcloses : ∃ c, ⟨.ensureConversation (chatState settings userId taskId conversationId
        message taskType traceId), c⟩ ∈ log ∧ Closes settings 0 (max 1 settings.maxToolRounds)
          { chatState settings userId taskId conversationId message taskType traceId with
            conversationId := some c } log e := closes_chatGraph rfl rfl hgraph
    obtain ⟨c, hensured, before, final, count, -, hstate, -, -, -, htaskId, hconversation⟩ :=
      hcloses
    cases e with
    | failed detail => cases hstate
    | answered state =>
      obtain rfl := Option.some.inj hstate
      obtain ⟨htokens, hsaved⟩ := hspeaks.answered _ rfl
      refine ⟨_, _, c, rfl, hsaved, ?_, hensured, hconversation⟩
      rw [hparts]
      exact htokens.symm
    | paused state =>
      obtain rfl := Option.some.inj hstate
      have hnone := hspeaks.paused _ rfl
      rw [htaskId] at hnone
      rw [show taskId = none from hnone] at htask
      cases htask
    | reported state =>
      obtain ⟨call, hlast, -, herror⟩ := awaits_eq_true (hspeaks.blocked _ rfl)
      rcases hspeaks.reported _ rfl call (List.mem_of_getLast? hlast) with hold | hevent
      · exact absurd hold List.not_mem_nil
      · exact absurd herror (hevents _ hevent)

end

/-! ### The task system -/

/-- What no step of the task system takes back. -/
structure WorldGrows (w w' : World) : Prop where
  leases : ∀ lease ∈ w.leases, lease ∈ w'.leases
  owners : KeepsOwners w.conversations w'.conversations
  messages : ∀ m ∈ w.messages.rows, m ∈ w'.messages.rows
  entries : ∀ id, ∀ e ∈ w.entries id, e ∈ w'.entries id

namespace World

variable {env : Environment} {w w' : World} {now now' : Instant} {event : Event}

theorem messages_underLease {lease : TaskLease} {live : Bool} {k : Task → World}
    (h : ∀ task, (k task).messages = w.messages) :
    (w.underLease lease now live k).messages = w.messages := by
  unfold underLease
  split
  next => exact h _
  next => rfl

/-- Only the transaction that saves a message writes the messages. -/
theorem messages_apply (env : Environment) (now now' : Instant)
    (hevent : ∀ runner lease message, event ≠ .worker runner lease (.saveMessage message)) :
    (w.apply env now now' event).messages = w.messages := by
  cases event with
  | idle => rfl
  | recoverStaleRunningTasks time locked => rfl
  | worker runner lease action =>
    simp only [apply]
    cases action with
    | heartbeat =>
      refine messages_underLease fun task => ?_
      cases runner.heartbeat task now' <;> rfl
    | recordEvent eventType data => exact messages_underLease fun task => rfl
    | succeed donePayload answerParts conversationId => exact messages_underLease fun task => rfl
    | finishOrRetry error retryable wait => exact messages_underLease fun task => rfl
    | saveMessage message => exact absurd rfl (hevent runner lease message)
    | _ =>
      simp only [work]
      split <;> rfl
  | claim runner taskId conversationId token =>
    simp only [apply, claim]
    (repeat' split) <;> rfl
  | _ =>
    simp only [apply]
    (repeat' split) <;> rfl

theorem messages_step (h : step env w ⟨event, now, now'⟩ = some w')
    (hevent : ∀ runner lease message, event ≠ .worker runner lease (.saveMessage message)) :
    w'.messages = w.messages := by
  obtain ⟨-, -, -, rfl⟩ := step_eq_some h
  exact messages_apply env now now' hevent

theorem entries_step {a : Action} (h : step env w a = some w') (id : UUID) :
    ∀ e ∈ w.entries id, e ∈ w'.entries id := by
  intro e he
  rcases advances_step h id with heq | hs
  · have hentries : w'.entries id = w.entries id := congrArg TaskView.entries heq
    rwa [hentries]
  · cases hrow : w.tasks.get? id with
    | none =>
      have hview : w.view id = ⟨none, w.entries id⟩ := by rw [← hrow]; rfl
      rw [hview] at hs
      cases hview' : w'.view id with
      | mk row es =>
        rw [hview'] at hs
        cases hs with
        | insert hi =>
          have hentries : w'.entries id = w.entries id := congrArg TaskView.entries hview'
          rwa [hentries]
    | some task =>
      have hview : w.view id = ⟨some task, w.entries id⟩ := by rw [← hrow]; rfl
      rw [hview] at hs
      obtain ⟨task', new, hview', -⟩ := hs.frame
      have hentries : w'.entries id = new ++ w.entries id := congrArg TaskView.entries hview'
      rw [hentries]
      exact List.mem_append_right new he

theorem grows_step (h : step env w ⟨event, now, now'⟩ = some w') (htitle : w.Retitles event)
    (hmessages : ∀ m ∈ w.messages.rows, m ∈ w'.messages.rows) : WorldGrows w w' := by
  constructor
  · intro lease hlease
    rcases leases_step h with heq | ⟨fresh, heq, -⟩
    · rwa [heq]
    · rw [heq]
      exact List.mem_cons_of_mem fresh hlease
  · have howners := keepsOwners_apply env now now' htitle
    obtain ⟨-, -, -, rfl⟩ := step_eq_some h
    exact howners
  · exact hmessages
  · exact entries_step h

theorem owners_step (h : step env w ⟨event, now, now'⟩ = some w') (htitle : w.Retitles event)
    (howners : Owners w) : Owners w' := by
  have hafter := owners_apply howners env now now' htitle
  obtain ⟨-, -, -, rfl⟩ := step_eq_some h
  exact ⟨hafter.tasks, hafter.schedules⟩

/-- A message of an attempt is saved under its live lease, unless the task has one already. -/
theorem save_eq_some {attempt : TaskAttempt} {message : Message}
    (h : w.save env attempt now now' message = some w') :
    step env w ⟨.worker attempt.runner attempt.lease (.saveMessage message), now, now'⟩ = some w' ∧
      ∃ task, w.tasks.get? attempt.lease.taskId = some task ∧
        Holds task attempt.lease now true ∧
        ((∃ saved ∈ w.messages.rows, saved.role = message.role ∧
            saved.metadata.agentTaskId = some task.id ∧ w'.messages = w.messages) ∨
          (w.messages.insert? (message.ofTask task.id) = some w'.messages ∧
            (message.role = .assistant →
              .answered attempt.lease.token ∈ w'.entries attempt.lease.taskId))) := by
  unfold save at h
  cases hs : saveMessage w.tasks w.messages (some attempt.lease) message now now' with
  | error e => simp [hs] at h
  | ok r =>
    obtain ⟨task, hget, hold, hsaves⟩ := saveMessage_eq_ok hs
    have hstep := h
    simp only [hs] at hstep
    cases hsaves with
    | nothing found =>
      split_ifs at hstep with hfresh
      refine ⟨hstep, task, hget, hold, ?_⟩
      obtain ⟨-, -, -, rfl⟩ := step_eq_some hstep
      obtain ⟨hmem, hrole, htask⟩ := savedMessage_eq_some found
      refine Or.inl ⟨_, hmem, hrole, htask, ?_⟩
      simp only [apply, work, hs]
      rfl
    | other missing role =>
      split_ifs at hstep with hfresh
      refine ⟨hstep, task, hget, hold, ?_⟩
      obtain ⟨-, -, -, rfl⟩ := step_eq_some hstep
      have hnone : w.messages.get? (message.ofTask task.id).id = none := by simpa using hfresh
      obtain ⟨messages, hi⟩ := Table.insert?_of_fresh hnone
      refine Or.inr ⟨?_, fun hassistant => absurd hassistant role⟩
      simp only [apply, work, hs, hi]
      rfl
    | answer missing role =>
      split_ifs at hstep with hfresh
      refine ⟨hstep, task, hget, hold, ?_⟩
      obtain ⟨-, -, -, rfl⟩ := step_eq_some hstep
      have hnone : w.messages.get? (message.ofTask task.id).id = none := by simpa using hfresh
      obtain ⟨messages, hi⟩ := Table.insert?_of_fresh hnone
      right
      have hwork : w.work attempt.runner attempt.lease now now' (.saveMessage message) =
          ({ w with messages }.accept attempt.lease now
            (blockReplay task "Assistant answer saved" now')).log attempt.lease.taskId
              [.answered attempt.lease.token] := by
        simp only [work, hs, hi]
      refine ⟨?_, fun _ => ?_⟩
      · simp only [apply, hwork]
        exact hi
      · have hentries : .answered attempt.lease.token ∈ ((({ w with messages } : World).accept
            attempt.lease now (blockReplay task "Assistant answer saved" now')).log
              attempt.lease.taskId [.answered attempt.lease.token]).entries
              attempt.lease.taskId := by
          simp
        rw [← hwork] at hentries
        exact hentries

end World

/-! ### All runs of the system -/

/-- The answer of a task, as a worker has saved it. -/
def Message.Answers (m : Message) (taskId : UUID) : Prop :=
  m.role = .assistant ∧ m.metadata.agentTaskId = some taskId

/-- What an attempt and the database know of each other. -/
structure TaskAttempt.Sound (config : AgentConfig) (w : World) (attempt : TaskAttempt) : Prop where
  leased : attempt.lease ∈ w.leases
  owned : (w.conversations.get? attempt.conversationId).map Conversation.userId =
    some attempt.userId
  follows : (attempt.stream config).Leads attempt.log attempt.program ∨
    (∃ detail, ⟨.error detail, ()⟩ ∈ attempt.log) ∧ ∃ e, attempt.program = .done e
  ended : attempt.drained = true → ∃ e, attempt.program = .done e
  ensured : ∀ asked c, ⟨.ensureConversation asked, c⟩ ∈ attempt.log → c = attempt.conversationId
  saved : ∀ state, ⟨.saveAssistantMessage state, ()⟩ ∈ attempt.log →
    ∃ m ∈ w.messages.rows, m.Answers attempt.lease.taskId ∧ m.content = state.finalAnswer ∧
      state.conversationId = some m.conversationId

/-- The stream of an attempt that has led its worker to the success commit. -/
structure TaskAttempt.Succeeds (config : AgentConfig) (task : Task) (attempt : TaskAttempt) :
    Prop where
  drained : attempt.drained = true
  taskId : attempt.lease.taskId = task.id
  unfailed : (attempt.reading config).failure = none
  result : ∃ other, task.result = some
    (("answer", .str (String.join (attempt.reading config).answerParts)) ::
      ("conversation_id", .str attempt.conversationId.str) :: other)

structure TaskAttempt.Continues (attempt attempt' : TaskAttempt) : Prop where
  lease : attempt'.lease = attempt.lease
  log : ∀ entry ∈ attempt.log, entry ∈ attempt'.log
  drained : attempt.drained = true → attempt' = attempt

theorem TaskAttempt.Continues.refl (attempt : TaskAttempt) : attempt.Continues attempt :=
  ⟨rfl, fun _ h => h, fun _ => rfl⟩

theorem TaskAttempt.stream_start (config : AgentConfig) (attempt : TaskAttempt) :
    (attempt.start config).stream config = attempt.stream config := rfl

theorem TaskAttempt.program_start (config : AgentConfig) (attempt : TaskAttempt) :
    (attempt.start config).program = attempt.stream config := rfl

namespace TaskAttempt.Sound

variable {config : AgentConfig} {w w' : World} {attempt : TaskAttempt}

theorem mono (h : attempt.Sound config w) (hgrows : WorldGrows w w') :
    attempt.Sound config w' where
  leased := hgrows.leases _ h.leased
  owned := hgrows.owners _ _ h.owned
  follows := h.follows
  ended := h.ended
  ensured := h.ensured
  saved state hmem := by
    obtain ⟨m, hrow, hm⟩ := h.saved state hmem
    exact ⟨m, hgrows.messages m hrow, hm⟩

/-- An attempt at its start. -/
theorem start (attempt : TaskAttempt) (hleased : attempt.lease ∈ w.leases)
    (howned : (w.conversations.get? attempt.conversationId).map Conversation.userId =
      some attempt.userId) : (attempt.start config).Sound config w where
  leased := hleased
  owned := howned
  follows := by
    rw [TaskAttempt.stream_start, TaskAttempt.program_start]
    exact Or.inl (.refl _)
  ended hdrained := absurd hdrained Bool.false_ne_true
  ensured _ _ hlog := absurd hlog List.not_mem_nil
  saved _ hlog := absurd hlog List.not_mem_nil

/-- An attempt that waits has followed its stream. -/
theorem leads (h : attempt.Sound config w) {q : Request} {k : q.Answer → AgentProgram GraphEnd}
    (hprogram : attempt.program = .ask q k) :
    (attempt.stream config).Leads attempt.log (.ask q k) := by
  rcases h.follows with hleads | ⟨-, e, hdone⟩
  · rwa [hprogram] at hleads
  · rw [hprogram] at hdone
    cases hdone

theorem not_drained (h : attempt.Sound config w) {q : Request}
    {k : q.Answer → AgentProgram GraphEnd} (hprogram : attempt.program = .ask q k) :
    attempt.drained ≠ true := by
  intro hdrained
  obtain ⟨e, hdone⟩ := h.ended hdrained
  rw [hprogram] at hdone
  cases hdone

/-- An attempt with one more answer. -/
theorem answer (h : attempt.Sound config w) (hgrows : WorldGrows w w') {q : Request}
    {k : q.Answer → AgentProgram GraphEnd} (hprogram : attempt.program = .ask q k) (a : q.Answer)
    (hensured : ∀ asked c, (⟨q, a⟩ : (q : Request) × q.Answer) = ⟨.ensureConversation asked, c⟩ →
      c = attempt.conversationId)
    (hsaved : ∀ state, (⟨q, a⟩ : (q : Request) × q.Answer) = ⟨.saveAssistantMessage state, ()⟩ →
      ∃ m ∈ w'.messages.rows, m.Answers attempt.lease.taskId ∧ m.content = state.finalAnswer ∧
        state.conversationId = some m.conversationId) :
    (attempt.answer q a (k a)).Sound config w' where
  leased := hgrows.leases _ h.leased
  owned := hgrows.owners _ _ h.owned
  follows := Or.inl ((h.leads hprogram).answer a)
  ended hdrained := absurd hdrained (h.not_drained hprogram)
  ensured asked c hmem := by
    rcases List.mem_append.mp hmem with hold | hnew
    · exact h.ensured asked c hold
    · exact hensured asked c (List.mem_singleton.mp hnew).symm
  saved state hmem := by
    rcases List.mem_append.mp hmem with hold | hnew
    · exact (h.mono hgrows).saved state hold
    · exact hsaved state (List.mem_singleton.mp hnew).symm

theorem raise (h : attempt.Sound config w) (hgrows : WorldGrows w w') (detail : String) :
    (attempt.raise detail).Sound config w' where
  leased := hgrows.leases _ h.leased
  owned := hgrows.owners _ _ h.owned
  follows := Or.inr ⟨⟨detail, List.mem_append_right _ (List.mem_singleton.mpr rfl)⟩, _, rfl⟩
  ended _ := ⟨_, rfl⟩
  ensured asked c hmem := by
    rcases List.mem_append.mp hmem with hold | hnew
    · exact h.ensured asked c hold
    · exact absurd (List.mem_singleton.mp hnew) (by simp)
  saved state hmem := by
    rcases List.mem_append.mp hmem with hold | hnew
    · exact (h.mono hgrows).saved state hold
    · exact absurd (List.mem_singleton.mp hnew) (by simp)

theorem drain (h : attempt.Sound config w) (hgrows : WorldGrows w w') {e : GraphEnd}
    (hprogram : attempt.program = .done e) :
    ({ attempt with drained := true } : TaskAttempt).Sound config w' where
  leased := hgrows.leases _ h.leased
  owned := hgrows.owners _ _ h.owned
  follows := h.follows
  ended _ := ⟨e, hprogram⟩
  ensured := h.ensured
  saved := (h.mono hgrows).saved

end TaskAttempt.Sound

theorem TaskAttempt.continues_answer {attempt : TaskAttempt} (h : attempt.drained ≠ true)
    (q : Request) (a : q.Answer) (program : AgentProgram GraphEnd) :
    attempt.Continues (attempt.answer q a program) where
  lease := rfl
  log _ hmem := List.mem_append_left _ hmem
  drained hdrained := absurd hdrained h

/-- One attempt moves on. -/
theorem continues_set {attempts : List TaskAttempt} {i : ℕ} {attempt attempt' : TaskAttempt}
    (hi : attempts[i]? = some attempt) (h : attempt.Continues attempt') :
    ∀ other ∈ attempts, ∃ other' ∈ attempts.set i attempt', other.Continues other' := by
  intro other hother
  obtain ⟨j, hj⟩ := List.mem_iff_getElem?.mp hother
  by_cases hij : i = j
  · subst hij
    obtain rfl := Option.some.inj (hi.symm.trans hj)
    have hlen : i < attempts.length := (List.getElem?_eq_some_iff.mp hi).1
    exact ⟨attempt', List.mem_set hlen attempt', h⟩
  · refine ⟨other, List.mem_iff_getElem?.mpr ⟨j, ?_⟩, .refl other⟩
    rw [List.getElem?_set_ne hij]
    exact hj

namespace BackgroundWorld

/-- The invariant of the task system with its attempts. -/
structure Consistent (config : BackgroundConfig) (w : BackgroundWorld) : Prop where
  reachable : World.Reachable config.env w.world
  owners : Owners w.world
  distinct : (w.attempts.map fun attempt => attempt.lease.token).Nodup
  sound : ∀ attempt ∈ w.attempts, attempt.Sound config.agent w.world
  source : ∀ m ∈ w.world.messages.rows, ∀ taskId, m.Answers taskId → ∃ attempt ∈ w.attempts,
    attempt.lease.taskId = taskId ∧ .answered attempt.lease.token ∈ w.world.entries taskId ∧
      ∃ state, ⟨.saveAssistantMessage state, ()⟩ ∈ attempt.log
  unique : ∀ m ∈ w.world.messages.rows, ∀ m' ∈ w.world.messages.rows, ∀ taskId,
    m.Answers taskId → m'.Answers taskId → m = m'
  succeeded : ∀ task ∈ w.world.tasks.rows, task.kind = .agent → task.status = .succeeded →
    ∃ attempt ∈ w.attempts, attempt.Succeeds config.agent task

/-- The message that a step adds answers a task that has no answer yet. -/
def Fresh (w w' : BackgroundWorld) (new : Message) : Prop :=
  ∀ taskId, new.Answers taskId → (∀ m ∈ w.world.messages.rows, ¬ m.Answers taskId) ∧
    ∃ attempt ∈ w'.attempts, attempt.lease.taskId = taskId ∧
      .answered attempt.lease.token ∈ w'.world.entries taskId ∧
      ∃ state, ⟨.saveAssistantMessage state, ()⟩ ∈ attempt.log

variable {config : BackgroundConfig} {w w' : BackgroundWorld} {now now' : Instant} {event : Event}

/-- A succeeded row was there before, or the success commit has just written it. -/
theorem succeeded_cases {u u' : World} {task' : Task}
    (h : World.step config.env u ⟨event, now, now'⟩ = some u') (hmem : task' ∈ u'.tasks.rows)
    (hk : task'.kind = .agent) (hs : task'.status = .succeeded) :
    task' ∈ u.tasks.rows ∨ ∃ task runner lease donePayload answerParts conversationId,
      task.id = lease.taskId ∧
      event = .worker runner lease (.succeed donePayload answerParts conversationId) ∧
      task' = succeed task donePayload answerParts conversationId now' := by
  obtain ⟨-, -, -, rfl⟩ := World.step_eq_some h
  cases World.origin_apply config.env u now now' event hk hmem with
  | kept hold => exact Or.inl hold
  | created hqueued howned => simp [hqueued] at hs
  | scheduled hrow hqueued huser hconversation => simp [hqueued] at hs
  | rewritten hrow hkind huser hconversation hstatus => exact absurd hs hstatus
  | claimed hrow hkind hevent hstarted hopened =>
    simp [hstarted, AgentTaskRunner.startAttempt] at hs
  | succeeded hrow hkind hid hevent hdone => exact Or.inr ⟨_, _, _, _, _, _, hid, hevent, hdone⟩

/-- One step of the task system, with what the attempts have become. -/
theorem Consistent.next (h : Consistent config w)
    (hstep : World.step config.env w.world ⟨event, now, now'⟩ = some w'.world)
    (htitle : w.world.Retitles event)
    (new : Option Message) (hfresh : ∀ m ∈ new, w.Fresh w' m)
    (hnew : ∀ m ∈ w'.world.messages.rows, m ∈ w.world.messages.rows ∨ new = some m)
    (hcontinues : ∀ attempt ∈ w.attempts, ∃ attempt' ∈ w'.attempts, attempt.Continues attempt')
    (hdistinct : (w'.attempts.map fun attempt => attempt.lease.token).Nodup)
    (hsound : ∀ attempt ∈ w'.attempts, attempt.Sound config.agent w'.world)
    (hcommit : ∀ task runner lease donePayload answerParts conversationId, task.id = lease.taskId →
      event = .worker runner lease (.succeed donePayload answerParts conversationId) →
      ∃ attempt ∈ w'.attempts, attempt.Succeeds config.agent
        (succeed task donePayload answerParts conversationId now')) :
    Consistent config w' where
  reachable := h.reachable.later ((Transition.Reaches.refl _).tail hstep)
  owners := World.owners_step hstep htitle h.owners
  distinct := hdistinct
  sound := hsound
  source m hm taskId ha := by
    rcases hnew m hm with hold | hm
    · obtain ⟨attempt, hmem, htask, hanswered, state, hsaved⟩ := h.source m hold taskId ha
      obtain ⟨attempt', hmem', hlater⟩ := hcontinues attempt hmem
      have hentries := World.entries_step hstep taskId _ hanswered
      rw [← hlater.lease] at htask hentries
      exact ⟨attempt', hmem', htask, hentries, state, hlater.log _ hsaved⟩
    · exact (hfresh m hm taskId ha).2
  unique m hm m' hm' taskId ha ha' := by
    rcases hnew m hm with hold | hnew₁ <;> rcases hnew m' hm' with hold' | hnew₂
    · exact h.unique m hold m' hold' taskId ha ha'
    · exact absurd ha ((hfresh m' hnew₂ taskId ha').1 m hold)
    · exact absurd ha' ((hfresh m hnew₁ taskId ha).1 m' hold')
    · exact Option.some.inj (hnew₁.symm.trans hnew₂)
  succeeded task' hmem hk hs := by
    rcases succeeded_cases hstep hmem hk hs with hold | ⟨task, runner, lease, donePayload,
      answerParts, conversationId, hid, hevent, rfl⟩
    · obtain ⟨attempt, hattempt, hsucceeds⟩ := h.succeeded task' hold hk hs
      obtain ⟨attempt', hmem', hlater⟩ := hcontinues attempt hattempt
      obtain rfl := hlater.drained hsucceeds.drained
      exact ⟨attempt', hmem', hsucceeds⟩
    · exact hcommit task runner lease donePayload answerParts conversationId hid hevent

theorem nodup_set {attempts : List TaskAttempt} {i : ℕ} {attempt attempt' : TaskAttempt}
    (hi : attempts[i]? = some attempt) (h : attempt'.lease = attempt.lease)
    (hdistinct : (attempts.map fun a => a.lease.token).Nodup) :
    ((attempts.set i attempt').map fun a => a.lease.token).Nodup := by
  rwa [map_set_of_getElem? hi (congrArg TaskLease.token h)]

/-- A step that neither saves a message nor commits a success. -/
theorem Consistent.quiet (h : Consistent config w)
    (hstep : World.step config.env w.world ⟨event, now, now'⟩ = some w'.world)
    (htitle : w.world.Retitles event)
    (hsaves : ∀ runner lease message, event ≠ .worker runner lease (.saveMessage message))
    (hcontinues : ∀ attempt ∈ w.attempts, ∃ attempt' ∈ w'.attempts, attempt.Continues attempt')
    (hdistinct : (w'.attempts.map fun attempt => attempt.lease.token).Nodup)
    (hsound : WorldGrows w.world w'.world →
      ∀ attempt ∈ w'.attempts, attempt.Sound config.agent w'.world)
    (hcommit : ∀ task runner lease donePayload answerParts conversationId, task.id = lease.taskId →
      event = .worker runner lease (.succeed donePayload answerParts conversationId) →
      ∃ attempt ∈ w'.attempts, attempt.Succeeds config.agent
        (succeed task donePayload answerParts conversationId now')) :
    Consistent config w' := by
  have hmessages := World.messages_step hstep hsaves
  have hkept : ∀ m ∈ w.world.messages.rows, m ∈ w'.world.messages.rows := by
    rw [hmessages]
    exact fun m hm => hm
  refine h.next hstep htitle none (by simp) (fun m hm => Or.inl ?_) hcontinues hdistinct
    (hsound (World.grows_step hstep htitle hkept)) hcommit
  rwa [hmessages] at hm

/-- An attempt moves on while nothing else happens. -/
theorem Consistent.move (h : Consistent config w) {world : World} {i : ℕ}
    {attempt attempt' : TaskAttempt} (hi : w.attempts[i]? = some attempt)
    (hstep : World.step config.env w.world ⟨.idle, now, now'⟩ = some world)
    (hlater : attempt.Continues attempt')
    (hsound : WorldGrows w.world world → attempt'.Sound config.agent world) :
    Consistent config ⟨world, w.attempts.set i attempt'⟩ := by
  refine h.quiet hstep trivial (fun _ _ _ he => (by cases he)) (continues_set hi hlater)
    (nodup_set hi hlater.lease h.distinct) (fun hgrows other hother => ?_)
    (fun _ _ _ _ _ _ _ he => (by cases he))
  rcases mem_set_cases hother with rfl | ⟨j, -, hj⟩
  · exact hsound hgrows
  · exact (h.sound other (List.mem_of_getElem? hj)).mono hgrows

theorem Consistent.system (h : Consistent config w) {world : World}
    (hevent : event.isOutside ∧ w.world.Retitles event)
    (hstep : World.step config.env w.world ⟨event, now, now'⟩ = some world) :
    Consistent config { w with world } := by
  refine h.quiet hstep hevent.2 ?_ (fun attempt hattempt => ⟨attempt, hattempt, .refl attempt⟩)
    h.distinct (fun hgrows attempt hattempt => (h.sound attempt hattempt).mono hgrows) ?_
  · rintro runner lease message rfl
    exact absurd hevent.1 (by simp [Event.isOutside])
  · rintro task runner lease donePayload answerParts conversationId - rfl
    exact absurd hevent.1 (by simp [Event.isOutside])

theorem sound_opened {config : BackgroundConfig} {world : World}
    (hreachable : World.Reachable config.env world) (howners : Owners world)
    {runner : AgentTaskRunner} {lease : TaskLease} {traceId : String} {attempt : TaskAttempt}
    (h : TaskAttempt.opened config.agent world runner lease traceId = some attempt) :
    attempt.lease = lease ∧ attempt.Sound config.agent world := by
  unfold TaskAttempt.opened at h
  simp only [Option.bind_eq_bind, Option.bind_eq_some_iff] at h
  obtain ⟨task, hget, conversationId, hconversation, hattempt⟩ := h
  split_ifs at hattempt with hlease
  obtain ⟨row, hrow, hid, hk⟩ := hreachable.agent_of_lease hlease
  have hmem := World.mem_rows_iff.mp hrow
  rw [hid, hget] at hmem
  obtain rfl := Option.some.inj hmem
  have howned := howners.tasks task hrow hk conversationId hconversation
  rw [← Option.some.inj hattempt]
  exact ⟨rfl, .start _ hlease howned⟩

theorem Consistent.claim (h : Consistent config w) {world : World} {runner : AgentTaskRunner}
    {taskId conversationId token : UUID} {traceId : String}
    (hstep : World.step config.env w.world
      ⟨.claim runner taskId conversationId token, now, now'⟩ = some world) :
    Consistent config ⟨world, w.attempts ++
      (TaskAttempt.opened config.agent world runner ⟨taskId, token⟩ traceId).toList⟩ := by
  obtain ⟨-, -, hfresh, -⟩ := World.step_eq_some hstep
  have hreachable := h.reachable.later ((Transition.Reaches.refl _).tail hstep)
  have howners := World.owners_step hstep trivial h.owners
  have hopened (attempt : TaskAttempt) (hattempt : attempt ∈
      (TaskAttempt.opened config.agent world runner ⟨taskId, token⟩ traceId).toList) :
      attempt.lease = ⟨taskId, token⟩ ∧ attempt.Sound config.agent world :=
    sound_opened hreachable howners (Option.mem_toList.mp hattempt)
  refine h.quiet hstep trivial (fun _ _ _ he => (by cases he)) ?_ ?_
    (fun hgrows attempt hattempt => ?_) (fun _ _ _ _ _ _ _ he => (by cases he))
  · exact fun attempt hattempt => ⟨attempt, List.mem_append_left _ hattempt, .refl attempt⟩
  · rw [List.map_append, List.nodup_append]
    refine ⟨h.distinct, ?_, ?_⟩
    · cases TaskAttempt.opened config.agent world runner ⟨taskId, token⟩ traceId <;> simp
    · intro t ht t' ht' heq
      obtain ⟨attempt, hattempt, rfl⟩ := List.mem_map.mp ht
      obtain ⟨new, hnew, rfl⟩ := List.mem_map.mp ht'
      have hleased := (h.sound attempt hattempt).leased
      refine hfresh attempt.lease hleased (heq.trans ?_)
      rw [(hopened new hnew).1]
  · rcases List.mem_append.mp hattempt with hold | hnew
    · exact (h.sound attempt hold).mono hgrows
    · exact (hopened attempt hnew).2

theorem Consistent.raise (h : Consistent config w) {world : World} {i : ℕ} {attempt : TaskAttempt}
    (hi : w.attempts[i]? = some attempt) (hdrained : attempt.drained ≠ true) (detail : String)
    (hstep : World.step config.env w.world ⟨.idle, now, now'⟩ = some world) :
    Consistent config ⟨world, w.attempts.set i (attempt.raise detail)⟩ :=
  h.move hi hstep (TaskAttempt.continues_answer hdrained _ _ _)
    fun hgrows => (h.sound attempt (List.mem_of_getElem? hi)).raise hgrows detail

/-- A worker that has read its whole stream goes to the success commit, or not. -/
theorem Consistent.drain (h : Consistent config w) {world : World} {i : ℕ} {attempt : TaskAttempt}
    (hi : w.attempts[i]? = some attempt) (hdrained : attempt.drained ≠ true) {e : GraphEnd}
    (hprogram : attempt.program = .done e)
    (hstep : w.drained config attempt now now' = some world) :
    Consistent config ⟨world, w.attempts.set i { attempt with drained := true }⟩ := by
  have hsound := h.sound attempt (List.mem_of_getElem? hi)
  have hlater : attempt.Continues { attempt with drained := true } :=
    ⟨rfl, fun _ hentry => hentry, fun hd => absurd hd hdrained⟩
  unfold drained at hstep
  split at hstep
  next state hfailure hpayload =>
    refine h.quiet hstep trivial (fun _ _ _ he => (by cases he)) (continues_set hi hlater)
      (nodup_set hi rfl h.distinct) (fun hgrows other hother => ?_) ?_
    · rcases mem_set_cases hother with rfl | ⟨j, -, hj⟩
      · exact hsound.drain hgrows hprogram
      · exact (h.sound other (List.mem_of_getElem? hj)).mono hgrows
    · intro task runner lease donePayload answerParts conversationId hid hevent
      cases hevent
      have hlen : i < w.attempts.length := (List.getElem?_eq_some_iff.mp hi).1
      exact ⟨_, List.mem_set hlen _, rfl, hid.symm, hfailure, _, rfl⟩
  next =>
    exact h.move hi hstep hlater fun hgrows => hsound.drain hgrows hprogram

/-- A task has no answer while its attempt is about to save one. -/
theorem Consistent.unanswered (h : Consistent config w) {i : ℕ} {attempt : TaskAttempt}
    (hi : w.attempts[i]? = some attempt) {state : AgentGraphState}
    {k : (Request.saveAssistantMessage state).Answer → AgentProgram GraphEnd}
    (hprogram : attempt.program = .ask (.saveAssistantMessage state) k) {task : Task}
    (hget : w.world.tasks.get? attempt.lease.taskId = some task)
    (hold : Holds task attempt.lease now true) :
    ∀ m ∈ w.world.messages.rows, ¬ m.Answers attempt.lease.taskId := by
  intro m hm ha
  obtain ⟨other, hother, htask, hanswered, saved, hsaved⟩ := h.source m hm _ ha
  have hattempt := List.mem_of_getElem? hi
  have hsound := h.sound attempt hattempt
  obtain ⟨row, hrow, hid, hk⟩ := h.reachable.agent_of_lease hsound.leased
  have hrow := World.mem_rows_iff.mp hrow
  rw [hid, hget] at hrow
  obtain rfl := Option.some.inj hrow
  have hbarrier := h.reachable.barrier attempt.lease.taskId task hget hk
  have hlast := (hbarrier.effects _ hanswered other.lease.token .answered).2
  have hrunning := hbarrier.token hold.running
  have htoken : other.lease.token = attempt.lease.token := by
    rw [hlast, hold.token] at hrunning
    exact (Option.some.inj hrunning).symm
  obtain rfl := List.inj_on_of_nodup_map h.distinct hother hattempt htoken
  exact not_saved_before (hsound.leads hprogram) saved hsaved

theorem Consistent.saveUser (h : Consistent config w) {world : World} {i : ℕ}
    {attempt : TaskAttempt} (hi : w.attempts[i]? = some attempt) {state : AgentGraphState}
    {k : (Request.saveUserMessage state).Answer → AgentProgram GraphEnd}
    (hprogram : attempt.program = .ask (.saveUserMessage state) k) {message : Message}
    (hrole : message.role = .user)
    (hsave : w.world.save config.env attempt now now' message = some world) :
    Consistent config
      ⟨world, w.attempts.set i (attempt.answer (.saveUserMessage state) () (k ()))⟩ := by
  have hsound := h.sound attempt (List.mem_of_getElem? hi)
  have hlater := TaskAttempt.continues_answer (hsound.not_drained hprogram)
    (.saveUserMessage state) () (k ())
  obtain ⟨hstep, task, hget, hold, hcases⟩ := World.save_eq_some hsave
  have hmessages : (∀ m ∈ w.world.messages.rows, m ∈ world.messages.rows) ∧
      ∀ m ∈ world.messages.rows,
        m ∈ w.world.messages.rows ∨ some (message.ofTask task.id) = some m := by
    rcases hcases with ⟨-, -, -, -, heq⟩ | ⟨hi, -⟩
    · rw [heq]
      exact ⟨fun m hm => hm, fun m hm => Or.inl hm⟩
    · rw [Table.rows_insert? hi]
      exact ⟨fun m hm => List.mem_append_left _ hm, fun m hm => (List.mem_append.mp hm).imp_right
        fun hlast => congrArg some (List.mem_singleton.mp hlast).symm⟩
  have hgrows := World.grows_step hstep trivial hmessages.1
  refine h.next hstep trivial (some (message.ofTask task.id)) ?_ hmessages.2
    (continues_set hi hlater) (nodup_set hi rfl h.distinct) (fun other hother => ?_)
    (fun _ _ _ _ _ _ _ he => (by cases he))
  · intro m hm taskId ha
    obtain rfl := Option.some.inj hm
    have hassistant : message.role = .assistant := ha.1
    rw [hrole] at hassistant
    cases hassistant
  · rcases mem_set_cases hother with rfl | ⟨j, -, hj⟩
    · exact hsound.answer hgrows hprogram () (fun _ _ he => (by cases he))
        fun _ he => (by cases he)
    · exact (h.sound other (List.mem_of_getElem? hj)).mono hgrows

theorem Consistent.saveAnswer (h : Consistent config w) {world : World} {i : ℕ}
    {attempt : TaskAttempt} (hi : w.attempts[i]? = some attempt) {state : AgentGraphState}
    {k : (Request.saveAssistantMessage state).Answer → AgentProgram GraphEnd}
    (hprogram : attempt.program = .ask (.saveAssistantMessage state) k) {message : Message}
    (hrole : message.role = .assistant) (hcontent : message.content = state.finalAnswer)
    (hconversation : state.conversationId = some message.conversationId)
    (hsave : w.world.save config.env attempt now now' message = some world) :
    Consistent config
      ⟨world, w.attempts.set i (attempt.answer (.saveAssistantMessage state) () (k ()))⟩ := by
  have hsound := h.sound attempt (List.mem_of_getElem? hi)
  have hlater := TaskAttempt.continues_answer (hsound.not_drained hprogram)
    (.saveAssistantMessage state) () (k ())
  obtain ⟨hstep, task, hget, hold, hcases⟩ := World.save_eq_some hsave
  have hnone := h.unanswered hi hprogram hget hold
  rw [← hold.id] at hnone
  obtain ⟨hinsert, hanswered⟩ : w.world.messages.insert? (message.ofTask task.id) =
      some world.messages ∧ (message.role = .assistant →
        .answered attempt.lease.token ∈ world.entries attempt.lease.taskId) := by
    rcases hcases with ⟨saved, hsaved, hrole', htask, -⟩ | hinserted
    · exact absurd ⟨hrole'.trans hrole, htask⟩ (hnone saved hsaved)
    · exact hinserted
  have hrows := Table.rows_insert? hinsert
  have hkept : ∀ m ∈ w.world.messages.rows, m ∈ world.messages.rows := by
    rw [hrows]
    exact fun m hm => List.mem_append_left _ hm
  have hgrows := World.grows_step hstep trivial hkept
  have hlen : i < w.attempts.length := (List.getElem?_eq_some_iff.mp hi).1
  refine h.next hstep trivial (some (message.ofTask task.id)) ?_ (fun m hm => ?_)
    (continues_set hi hlater) (nodup_set hi rfl h.distinct) (fun other hother => ?_)
    (fun _ _ _ _ _ _ _ he => (by cases he))
  · intro m hm taskId ha
    obtain rfl := Option.some.inj hm
    obtain rfl : task.id = taskId := Option.some.inj ha.2
    refine ⟨hnone, _, List.mem_set hlen _, hold.id.symm, ?_, state, ?_⟩
    · rw [hold.id]
      exact hanswered hrole
    · exact List.mem_append_right _ (List.mem_singleton.mpr rfl)
  · have hm : m ∈ world.messages.rows := hm
    rw [hrows] at hm
    exact (List.mem_append.mp hm).imp_right
      fun hlast => congrArg some (List.mem_singleton.mp hlast).symm
  · rcases mem_set_cases hother with rfl | ⟨j, -, hj⟩
    · refine hsound.answer hgrows hprogram () (fun _ _ he => (by cases he)) fun saved he => ?_
      cases he
      refine ⟨message.ofTask task.id, ?_, ⟨hrole, ?_⟩, hcontent, hconversation⟩
      · rw [hrows]
        exact List.mem_append_right _ (List.mem_singleton.mpr rfl)
      · exact congrArg some hold.id
    · exact (h.sound other (List.mem_of_getElem? hj)).mono hgrows

theorem Consistent.ensure (h : Consistent config w) {world : World} {i : ℕ}
    {attempt : TaskAttempt} (hi : w.attempts[i]? = some attempt) {state : AgentGraphState}
    {k : (Request.ensureConversation state).Answer → AgentProgram GraphEnd}
    (hprogram : attempt.program = .ask (.ensureConversation state) k) {c id : UUID}
    (hstep : w.world.answered config.env attempt id now now' ⟨.ensureConversation state, c⟩ =
      some world) :
    Consistent config
      ⟨world, w.attempts.set i (attempt.answer (.ensureConversation state) c (k c))⟩ := by
  have hsound := h.sound attempt (List.mem_of_getElem? hi)
  have hlater := TaskAttempt.continues_answer (hsound.not_drained hprogram)
    (.ensureConversation state) c (k c)
  obtain ⟨hconversation, huser⟩ := asked_of_stream (hsound.leads hprogram)
  -- the conversation of an attempt belongs to its user, so that it is found
  obtain ⟨conversation, hrow, howner⟩ := Option.map_eq_some_iff.mp hsound.owned
  have hfound : ensuredConversation w.world.conversations state = some conversation := by
    unfold ensuredConversation
    rw [hconversation, Option.bind_some, hrow, Option.filter_some, huser, howner]
    simp
  simp only [World.answered, hfound] at hstep
  split_ifs at hstep with hc
  refine h.move hi hstep hlater fun hgrows => hsound.answer hgrows hprogram c ?_
    fun _ he => (by cases he)
  intro asked c' he
  cases he
  exact hc.trans (Table.get?_eq_some.mp hrow).2

theorem Consistent.answer (h : Consistent config w) {world : World} {i : ℕ}
    {attempt : TaskAttempt} (hi : w.attempts[i]? = some attempt) {q : Request}
    {k : q.Answer → AgentProgram GraphEnd} (hprogram : attempt.program = .ask q k) (a : q.Answer)
    {id : UUID} (hstep : w.world.answered config.env attempt id now now' ⟨q, a⟩ = some world) :
    Consistent config ⟨world, w.attempts.set i (attempt.answer q a (k a))⟩ := by
  have hsound := h.sound attempt (List.mem_of_getElem? hi)
  have hlater := TaskAttempt.continues_answer (hsound.not_drained hprogram) q a (k a)
  cases q with
  | ensureConversation state => exact h.ensure hi hprogram hstep
  | saveUserMessage state =>
    obtain ⟨message, hmessage, hsave⟩ := Option.bind_eq_some_iff.mp hstep
    obtain ⟨c, -, rfl⟩ := Option.map_eq_some_iff.mp hmessage
    exact h.saveUser hi hprogram rfl hsave
  | saveAssistantMessage state =>
    obtain ⟨message, hmessage, hsave⟩ := Option.bind_eq_some_iff.mp hstep
    obtain ⟨c, hc, rfl⟩ := Option.map_eq_some_iff.mp hmessage
    exact h.saveAnswer hi hprogram rfl rfl hc hsave
  | _ =>
    exact h.move hi hstep hlater fun hgrows => hsound.answer hgrows hprogram a
      (fun _ _ he => (by cases he)) fun _ he => (by cases he)

theorem Consistent.step (h : Consistent config w) {a : BackgroundAction}
    (hstep : step config w a = some w') : Consistent config w' := by
  obtain ⟨event, now, now'⟩ := a
  cases event with
  | system event =>
    simp only [BackgroundWorld.step, apply] at hstep
    split_ifs at hstep with hevent
    obtain ⟨world, hworld, rfl⟩ := Option.map_eq_some_iff.mp hstep
    exact h.system hevent hworld
  | claim runner taskId conversationId token traceId =>
    obtain ⟨world, hworld, rfl⟩ := Option.map_eq_some_iff.mp hstep
    exact h.claim hworld
  | answer i answers id =>
    simp only [BackgroundWorld.step, apply] at hstep
    split at hstep
    next => cases hstep
    next attempt hi =>
      split at hstep
      next => cases hstep
      next q k hprogram =>
        obtain ⟨world, hworld, rfl⟩ := Option.map_eq_some_iff.mp hstep
        exact h.answer hi hprogram (answers q) hworld
  | raise i detail =>
    simp only [BackgroundWorld.step, apply] at hstep
    split at hstep
    next => cases hstep
    next attempt hi =>
      split_ifs at hstep with hdrained
      obtain ⟨world, hworld, rfl⟩ := Option.map_eq_some_iff.mp hstep
      exact h.raise hi hdrained detail hworld
  | drain i =>
    simp only [BackgroundWorld.step, apply] at hstep
    split at hstep
    next => cases hstep
    next attempt hi =>
      split at hstep
      next e hprogram hdrained =>
        obtain ⟨world, hworld, rfl⟩ := Option.map_eq_some_iff.mp hstep
        exact h.drain hi (by simp [hdrained]) hprogram hworld
      next => cases hstep

theorem Reachable.consistent (h : Reachable config w) : Consistent config w := by
  obtain ⟨conversations, clock, hrun⟩ := h
  refine hrun.invariant ?_ fun u a v hu hv => hu.step hv
  have hnone {α : Type} {P : α → Prop} : ∀ a ∈ ([] : List α), P a :=
    fun a ha => absurd ha List.not_mem_nil
  exact ⟨⟨conversations, clock, .refl _⟩, ⟨hnone, hnone⟩, List.nodup_nil, hnone, hnone, hnone,
    hnone⟩

/-- A stream without a failure event has been followed to its end, and its answer is saved. -/
theorem Consistent.answered (h : Consistent config w) {attempt : TaskAttempt}
    (hattempt : attempt ∈ w.attempts) {e : GraphEnd} (hprogram : attempt.program = .done e)
    (hread : (attempt.reading config.agent).failure = none) :
    ∃ final, e = .answered final ∧ ∃ m ∈ w.world.messages.rows,
      m.Answers attempt.lease.taskId ∧
      m.content = String.join (attempt.reading config.agent).answerParts ∧
      m.conversationId = attempt.conversationId := by
  have hsound := h.sound attempt hattempt
  rcases hsound.follows with hleads | ⟨⟨detail, herror⟩, -⟩
  · rw [hprogram] at hleads
    obtain ⟨final, asked, c, he, hsaved, hfinal, hensured, hconversation⟩ :=
      saved_of_reading rfl hleads hread
    obtain ⟨m, hm, hanswers, hcontent, hstored⟩ := hsound.saved final hsaved
    refine ⟨final, he, m, hm, hanswers, hcontent.trans hfinal, ?_⟩
    rw [← hsound.ensured asked c hensured]
    exact Option.some.inj (hstored.symm.trans hconversation)
  · have hevent : .error detail ∈ streamEvents config.agent.reader none attempt.log :=
      error_mem_streamEvents herror none
    exact absurd trivial ((readStream_spec hread).2 _ hevent)

/-- The one saved answer of a task is what an attempt has streamed, and what its result names. -/
def AnswerSaved (config : BackgroundConfig) (w : BackgroundWorld) (task : Task) : Prop :=
  ∃ attempt ∈ w.attempts, ∃ final m other,
    attempt.lease.taskId = task.id ∧ attempt.program = .done (.answered final) ∧
    m ∈ w.world.messages.rows ∧ m.Answers task.id ∧
    (∀ m' ∈ w.world.messages.rows, m'.Answers task.id → m' = m) ∧
    m.content = String.join
      ((streamEvents config.agent.reader none attempt.log).filterMap StreamEvent.token?) ∧
    task.result = some (("answer", .str m.content) ::
      ("conversation_id", .str m.conversationId.str) :: other)

/-- Whenever an agent task is succeeded its answer is saved, once and where its result says; a
stream that stopped at a tool confirmation reads as a failure. -/
theorem succeeded_answer_saved (h : Reachable config w) :
    (∀ task ∈ w.world.tasks.rows, task.kind = .agent → task.status = .succeeded →
      AnswerSaved config w task) ∧
    ∀ attempt ∈ w.attempts, ∀ final, attempt.program = .done (.reported final) →
      (attempt.reading config.agent).failure ≠ none := by
  have hcons := h.consistent
  constructor
  · intro task hmem hk hs
    obtain ⟨attempt, hattempt, hsucceeds⟩ := hcons.succeeded task hmem hk hs
    obtain ⟨e, hprogram⟩ := (hcons.sound attempt hattempt).ended hsucceeds.drained
    obtain ⟨final, rfl, m, hm, hanswers, hcontent, hconversation⟩ :=
      hcons.answered hattempt hprogram hsucceeds.unfailed
    obtain ⟨other, hresult⟩ := hsucceeds.result
    rw [hsucceeds.taskId] at hanswers
    refine ⟨attempt, hattempt, final, m, other, hsucceeds.taskId, hprogram, hm, hanswers,
      ?_, ?_, ?_⟩
    · exact fun m' hm' ha => hcons.unique m' hm' m hm task.id ha hanswers
    · rw [hcontent]
      exact congrArg String.join (readStream_spec hsucceeds.unfailed).1
    · rw [hcontent, hconversation]
      exact hresult
  · intro attempt hattempt final hprogram hread
    obtain ⟨answered, he, -⟩ := hcons.answered hattempt hprogram hread
    cases he

/-- The state after a list of actions, if all of them are enabled. -/
def after (config : BackgroundConfig) (w : BackgroundWorld) (as : List BackgroundAction) :
    BackgroundWorld :=
  (Transition.exec (step config) w as).getD w

end BackgroundWorld

def sampleBackground : BackgroundConfig := ⟨sampleEnvironment, sampleConfig, fun _ => []⟩

/-- A task is created and claimed; its attempt runs without tools to its end and commits. -/
def sampleBackgroundRun : List BackgroundAction :=
  (requests "report-2024" sampleKey_length).map (fun a => ⟨.system a.event, a.now, a.now'⟩) ++
  [⟨.claim sampleRunner 20 30 40 "trace-0", seconds 2, seconds 2⟩] ++
  (List.range 20).map (fun i => ⟨.answer 0 sampleAnswer (BitVec.ofNat 128 (100 + i)), seconds 3,
    seconds 3⟩) ++
  [⟨.drain 0, seconds 4, seconds 4⟩]

def sampleBackgroundWorld : BackgroundWorld :=
  (BackgroundWorld.initial .empty 0).after sampleBackground sampleBackgroundRun

theorem reachable_sampleBackgroundWorld :
    BackgroundWorld.Reachable sampleBackground sampleBackgroundWorld := by
  have hrun : (Transition.exec (BackgroundWorld.step sampleBackground) (.initial .empty 0)
      sampleBackgroundRun).isSome := by decide +kernel
  obtain ⟨w, hw⟩ := Option.isSome_iff_exists.mp hrun
  refine ⟨.empty, 0, ?_⟩
  rw [sampleBackgroundWorld, BackgroundWorld.after, hw, Option.getD_some]
  exact .of_exec _ hw

theorem succeeded_answer_saved_sample :
    (∃ task ∈ sampleBackgroundWorld.world.tasks.rows,
      BackgroundWorld.AnswerSaved sampleBackground sampleBackgroundWorld task) ∧
    sampleBackgroundWorld.world.messages.rows.map Message.content =
      ["Summarize the report", "Good morning."] := by
  have hany : sampleBackgroundWorld.world.tasks.rows.any
      fun task => task.kind = .agent ∧ task.status = .succeeded := by decide +kernel
  obtain ⟨task, hmem, htask⟩ := List.any_eq_true.mp hany
  have hdone : task.kind = .agent ∧ task.status = .succeeded := by simpa using htask
  refine ⟨⟨task, hmem, ?_⟩, by decide +kernel⟩
  exact (BackgroundWorld.succeeded_answer_saved reachable_sampleBackgroundWorld).1 task hmem
    hdone.1 hdone.2

end AgentDemo
