import AgentDemo.Agent.Messages
import AgentDemo.Api.TaskSchedules
import AgentDemo.Library.Transition
import AgentDemo.Services.TaskScheduler
import AgentDemo.Services.ToolExecutor

/-! The whole task system: the database, the clock, and one atomic transaction at a time of
any number of API clients, schedulers and workers. -/
namespace AgentDemo

/-- What the history of a run records about one task. -/
inductive TaskEntry where
  | claimed (token : UUID) (timeout : Instant) (at' : Instant)
  | accepted (token : UUID) (at' : Instant)
  | dispatched (token : UUID) (toolName : String)
  | answered (token : UUID)
  deriving DecidableEq

/-- The tables and the clock. `journal` and `occurrences` are histories that no step reads
but the choice of a fresh token; the newest entry comes first. -/
structure World where
  tasks : Table Task
  schedules : Table TaskSchedule
  conversations : Table Conversation
  messages : Table Message
  clock : Instant
  journal : List (UUID × TaskEntry)
  occurrences : List QueuedRun

inductive WorkerAction where
  | heartbeat
  | recordEvent (eventType : String) (data : JsonObject)
  | dispatchTool (tool : RegisteredTool)
  | recordMcpTaskEvent (eventType : String) (tool : RegisteredTool) (payload : JsonObject)
      (progress : Option ℤ)
  | saveMessage (message : Message)
  | autoTitle (conversation : Conversation) (title : String)
  | succeed (donePayload : JsonObject) (answerParts : List String) (conversationId : UUID)
  | finishOrRetry (error : String) (retryable : Bool) (wait : Instant)

inductive Event where
  | idle
  | createTask (userId id : UUID) (payload : TaskCreate)
  | createAgentTask (userId id : UUID) (payload : AgentTaskCreate) (before : Table Task)
  | updateTask (userId taskId : UUID) (payload : TaskUpdate)
  | cancelTask (userId taskId : UUID)
  | createTaskSchedule (userId id : UUID) (payload : TaskScheduleCreate)
  | updateTaskSchedule (userId scheduleId : UUID) (payload : TaskScheduleUpdate)
  | runTaskScheduleNow (userId scheduleId id manualKey : UUID)
  | recoverStaleRunningTasks (time : Instant) (locked : UUID → Bool)
  | dispatchDueSchedules (time : Instant) (ids : UUID → UUID) (locked : UUID → Bool)
  | claim (runner : AgentTaskRunner) (taskId conversationId token : UUID)
  | worker (runner : AgentTaskRunner) (lease : TaskLease) (action : WorkerAction)

/-- A transaction with its first and its last clock reading under the locks it holds. -/
structure Action where
  event : Event
  now : Instant
  now' : Instant

namespace World

def entries (w : World) (taskId : UUID) : List TaskEntry :=
  w.journal.filterMap fun e => if e.1 = taskId then some e.2 else none

/-- The leases that claims have handed out, one for each worker there has ever been. -/
def leases (w : World) : List TaskLease :=
  w.journal.filterMap fun
    | (taskId, .claimed token _ _) => some ⟨taskId, token⟩
    | _ => none

def log (w : World) (taskId : UUID) (es : List TaskEntry) : World :=
  { w with journal := es.map (fun e => (taskId, e)) ++ w.journal }

def write (w : World) (task : Task) : World := { w with tasks := w.tasks.write task }

/-- Work on the row of a lease, or nothing once `TaskLeaseLost` is raised. -/
def underLease (w : World) (lease : TaskLease) (now : Instant) (live : Bool)
    (k : Task → World) : World :=
  match lockTaskLease w.tasks (some lease) now live with
  | .ok (some task) => k task
  | _ => w

def accept (w : World) (lease : TaskLease) (now : Instant) (task : Task) : World :=
  (w.write task).log lease.taskId [.accepted lease.token now]

/-- The transactions of a worker; every failed check leaves the database alone. -/
def work (w : World) (runner : AgentTaskRunner) (lease : TaskLease) (now now' : Instant) :
    WorkerAction → World
  | .heartbeat => w.underLease lease now true fun task =>
      match runner.heartbeat task now' with
      | some task' => w.accept lease now task'
      | none => w
  | .recordEvent eventType data => w.underLease lease now true fun task =>
      w.accept lease now (recordEvent task eventType data now')
  | .succeed donePayload answerParts conversationId => w.underLease lease now true fun task =>
      w.accept lease now (AgentDemo.succeed task donePayload answerParts conversationId now')
  | .finishOrRetry error retryable wait => w.underLease lease now false fun task =>
      w.write (AgentDemo.finishOrRetry task error retryable wait now now')
  | .dispatchTool tool =>
      match barrier w.tasks (some lease) (some lease.taskId) tool now now' with
      | .ok (some task) => (w.accept lease now task).log lease.taskId
          [.dispatched lease.token tool.manifest.name]
      | _ => w
  | .recordMcpTaskEvent eventType tool payload progress =>
      match AgentDemo.recordMcpTaskEvent w.tasks (some lease) (some lease.taskId) eventType tool
          payload progress now with
      | some task => w.write task
      | none => w
  | .saveMessage message =>
      match AgentDemo.saveMessage w.tasks w.messages (some lease) message now now' with
      | .error _ => w
      | .ok (_, none) => w.log lease.taskId [.accepted lease.token now]
      | .ok (row, some stored) =>
        match w.messages.insert? stored with
        | none => w
        | some messages =>
          match row with
          | none => { w with messages }.log lease.taskId [.accepted lease.token now]
          | some task => ({ w with messages }.accept lease now task).log lease.taskId
              [.answered lease.token]
  | .autoTitle conversation title =>
      match autoTitleConversation w.tasks (some lease) conversation title now with
      | .error _ => w
      | .ok conversation => { w with conversations := w.conversations.write conversation }.log
          lease.taskId [.accepted lease.token now]

/-- The first transaction of `AgentTaskRunner.run`. -/
def claim (w : World) (runner : AgentTaskRunner) (taskId conversationId token : UUID)
    (now now' : Instant) : World :=
  match w.tasks.get? taskId with
  | none => w
  | some task =>
    match runner.claim task conversationId token now now' with
    | .skipped | .deferred _ => w
    | .failed task => w.write task
    | .started task lease timeout none =>
      (w.write task).log taskId [.claimed lease.token timeout now]
    | .started task lease timeout (some conversation) =>
      match w.conversations.insert? conversation with
      | none => w
      | some conversations =>
        ({ w with conversations }.write task).log taskId [.claimed lease.token timeout now]

/-- The database after the transaction of an event; a refused or failed one changes nothing. -/
def apply (env : Environment) (w : World) (now now' : Instant) : Event → World
  | .idle => w
  | .createTask userId id payload =>
    match createTask w.tasks w.conversations payload userId id now with
    | .ok tasks => { w with tasks }
    | .error _ => w
  | .createAgentTask userId id payload before =>
    match createAgentTask env before w.tasks w.conversations payload userId id now now' with
    | .ok (tasks, _) => { w with tasks }
    | .error _ => w
  | .updateTask userId taskId payload =>
    match getOwnedTask w.tasks taskId userId with
    | none => w
    | some task =>
      match updateTask task payload now with
      | .ok task => w.write task
      | .error _ => w
  | .cancelTask userId taskId =>
    match getOwnedTask w.tasks taskId userId with
    | none => w
    | some task =>
      match cancelTask task now with
      | .ok task => w.write task
      | .error _ => w
  | .createTaskSchedule userId id payload =>
    match createTaskSchedule env w.schedules w.conversations payload userId id now with
    | .ok schedules => { w with schedules }
    | .error _ => w
  | .updateTaskSchedule userId scheduleId payload =>
    match getOwnedSchedule w.schedules scheduleId userId with
    | none => w
    | some schedule =>
      match updateTaskSchedule env schedule payload now now' with
      | .ok schedule => { w with schedules := w.schedules.write schedule }
      | .error _ => w
  | .runTaskScheduleNow userId scheduleId id manualKey =>
    match getOwnedSchedule w.schedules scheduleId userId with
    | none => w
    | some schedule =>
      match runTaskScheduleNow w.tasks w.schedules schedule id manualKey now now' with
      | .ok (_, some (tasks, schedules)) => { w with tasks, schedules }
      | _ => w
  | .recoverStaleRunningTasks time locked =>
    { w with tasks := AgentDemo.recoverStaleRunningTasks w.tasks time locked }
  | .dispatchDueSchedules time ids locked =>
    match AgentDemo.dispatchDueSchedules env w.tasks w.schedules ids locked time now with
    | .ok batch => { w with
        tasks := batch.tasks
        schedules := batch.schedules
        occurrences := batch.runs ++ w.occurrences }
    | .error _ => w
  | .claim runner taskId conversationId token => w.claim runner taskId conversationId token now now'
  | .worker runner lease action => w.work runner lease now now' action

/-- What the surroundings grant: a tick has read its clock before it takes its locks, `uuid4`
gives a claim a token it has not given before, a worker presents the lease of its claim, and
the jitter stays in its range. -/
def Allowed (w : World) : Event → Prop
  | .recoverStaleRunningTasks time _ => time ≤ w.clock
  | .dispatchDueSchedules time _ _ => time ≤ w.clock
  | .claim _ _ _ token => ∀ lease ∈ w.leases, lease.token ≠ token
  | .worker runner lease (.finishOrRetry _ _ wait) =>
    lease ∈ w.leases ∧ ∀ task ∈ w.tasks.get? lease.taskId, runner.Jitter task wait
  | .worker _ lease _ => lease ∈ w.leases
  | _ => True

instance (w : World) (event : Event) : Decidable (w.Allowed event) := by
  unfold Allowed
  split <;> infer_instance

/-- One step of the system. -/
def step (env : Environment) (w : World) (a : Action) : Option World :=
  if w.clock ≤ a.now ∧ a.now ≤ a.now' ∧ w.Allowed a.event then
    some { w.apply env a.now a.now' a.event with clock := a.now' }
  else none

/-- Empty tables, with any user conversations. -/
def initial (conversations : Table Conversation) (clock : Instant) : World :=
  { tasks := .empty, schedules := .empty, conversations, messages := .empty, clock, journal := []
    occurrences := [] }

/-- Some run of the system from empty tables leads to `w`. -/
def Reachable (env : Environment) (w : World) : Prop :=
  ∃ conversations clock, Transition.Reaches (Transition.ofStep (step env))
    (initial conversations clock) w

/-- A later state of the same run. -/
abbrev Later (env : Environment) : World → World → Prop :=
  Transition.Reaches (Transition.ofStep (step env))

/-- The state after a list of actions from empty tables, if all of them are enabled. -/
def ofRun (env : Environment) (as : List Action) : World :=
  (Transition.exec (step env) (initial .empty 0) as).getD (initial .empty 0)

theorem reachable_ofRun {env : Environment} (as : List Action)
    (h : (Transition.exec (step env) (initial .empty 0) as).isSome) :
    Reachable env (ofRun env as) := by
  obtain ⟨w, hw⟩ := Option.isSome_iff_exists.mp h
  refine ⟨.empty, 0, ?_⟩
  rw [ofRun, hw, Option.getD_some]
  exact .of_exec as hw

end World

/-! A small run: two schedules, one agent task, its first attempt. -/

def utcZone : Zone := ⟨fun t => t, fun t => t⟩

/-- The digest is that of `sampleRequest`, with any key. -/
def sampleEnvironment : Environment where
  zoneInfo name := if name = "UTC" then some utcZone else none
  digest _ := "2ebc2952ca9f9c5fd343837f47880fe9af82955df37140d216c315038489b8b3"
  agentTaskDefaultMaxAttempts := 3

def sampleRequest (key : String) (h : 8 ≤ key.length ∧ key.length ≤ 200) : AgentTaskCreate where
  prompt := "Summarize the report"
  name := none
  conversationId := none
  idempotencyKey := some key
  maxAttempts := none
  timeoutSeconds := 180
  deadlineSeconds := 900
  prompt_ne := by decide
  key_length _ hk := Option.some.inj hk ▸ h
  attempts_range _ hn := nomatch hn
  timeout_range := by decide
  deadline_range := by decide

theorem once_supported (name : String) : ScheduleKind.once ≠ .unsupported name := by
  intro h
  cases h

theorem once_runAt : ScheduleKind.once = .once → (some (RunAt.aware (seconds 100))).isSome = true :=
  fun _ => rfl

theorem once_minutes : ScheduleKind.once = .interval → (none : Option ℕ).isSome = true := by
  intro h
  cases h

theorem once_time : ScheduleKind.once = .daily → (none : Option String).isSome = true := by
  intro h
  cases h

def sampleSchedule : TaskScheduleCreate where
  prompt := "Summarize the report"
  name := none
  conversationId := none
  scheduleKind := .once
  timezone := "UTC"
  runAt := some (.aware (seconds 100))
  intervalMinutes := none
  dailyTime := none
  maxAttempts := none
  misfireGraceSeconds := 300
  kind_supported := once_supported
  once_runAt := once_runAt
  interval_minutes := once_minutes
  daily_time := once_time

def sampleRunner : AgentTaskRunner := .init 10 60 10

def sampleTool : RegisteredTool :=
  ⟨⟨"web_search", "Search the web", "network", false, [("type", .str "object")], true⟩,
    .localPlugin, none, none⟩

/-- Two users create a one-time schedule each, and the first one an agent task with the key. -/
def requests (key : String) (h : 8 ≤ key.length ∧ key.length ≤ 200) : List Action :=
  [⟨.createTaskSchedule 1 10 sampleSchedule, 0, 0⟩, ⟨.createTaskSchedule 2 11 sampleSchedule, 0, 0⟩,
    ⟨.createAgentTask 1 20 (sampleRequest key h) .empty, seconds 1, seconds 1⟩]

/-- A worker claims the task and dispatches a tool. -/
def attempt : List Action :=
  [⟨.claim sampleRunner 20 30 40, seconds 2, seconds 2⟩,
    ⟨.worker sampleRunner ⟨20, 40⟩ (.dispatchTool sampleTool), seconds 3, seconds 4⟩]

theorem sampleKey_length : 8 ≤ "report-2024".length ∧ "report-2024".length ≤ 200 := by decide

def sampleWorld : World :=
  .ofRun sampleEnvironment (requests "report-2024" sampleKey_length ++ attempt)

theorem reachable_sampleWorld : World.Reachable sampleEnvironment sampleWorld :=
  World.reachable_ofRun _ (by decide)

def sampleTask : Task :=
  sampleWorld.tasks.rows.head (List.ne_nil_of_length_pos (by decide))

theorem sampleTask_mem : sampleTask ∈ sampleWorld.tasks.rows := List.head_mem _

/-- The owner cancels the task. -/
def cancelledWorld : World :=
  .ofRun sampleEnvironment (requests "report-2024" sampleKey_length ++ attempt ++
    [⟨.cancelTask 1 20, seconds 5, seconds 5⟩])

theorem reachable_cancelledWorld : World.Reachable sampleEnvironment cancelledWorld :=
  World.reachable_ofRun _ (by decide)

end AgentDemo
