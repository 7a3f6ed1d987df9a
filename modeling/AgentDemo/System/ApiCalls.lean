import AgentDemo.System.Traffic

/-! The requests of signed-in users to the task, schedule and conversation routes, with the replies
that they get. -/
namespace AgentDemo

/-- A request, with the identifiers that `uuid4` gives to its new rows. `before` holds the rows that
the first look-up of an idempotency key has seen. -/
inductive ApiRequest where
  | createTask (id : UUID) (payload : TaskCreate)
  | createAgentTask (id : UUID) (payload : AgentTaskCreate) (before : Table Task)
  | updateTask (taskId : UUID) (payload : TaskUpdate)
  | cancelTask (taskId : UUID)
  | createTaskSchedule (id : UUID) (payload : TaskScheduleCreate)
  | updateTaskSchedule (scheduleId : UUID) (payload : TaskScheduleUpdate)
  | runTaskScheduleNow (scheduleId id manualKey : UUID)
  | createConversation (id : UUID) (title : String)
  | updateConversation (conversationId : UUID) (payload : ConversationUpdate)
  | deleteConversation (conversationId : UUID)
  | listTasks (conversationId : Option UUID)
  | getTask (taskId : UUID)
  | getTaskEvents (taskId : UUID)
  | listTaskSchedules (conversationId : Option UUID)
  | listConversations
  | listMessages (conversationId : UUID)

structure ApiCall where
  userId : UUID
  request : ApiRequest
  now : Instant
  now' : Instant

/-- The response of a route: the rows that it returns, or an exception. -/
inductive ApiReply where
  | task (task : Task)
  | tasks (tasks : List Task)
  | events (events : List JsonObject)
  | schedule (schedule : TaskSchedule)
  | schedules (schedules : List TaskSchedule)
  | conversation (conversation : Conversation)
  | conversations (conversations : List Conversation)
  | messages (messages : List Message)
  | noContent
  | error (exception : HttpException)

namespace Api

def taskNotFound : ApiReply := .error ⟨404, "Task not found"⟩

def scheduleNotFound : ApiReply := .error ⟨404, "Task schedule not found"⟩

def conversationNotFound : ApiReply := .error ⟨404, "Conversation not found"⟩

/-- The transaction of a request that writes. -/
def event (userId : UUID) : ApiRequest → Option TrafficEvent
  | .createTask id payload => some (.system (.createTask userId id payload))
  | .createAgentTask id payload before =>
    some (.system (.createAgentTask userId id payload before))
  | .updateTask taskId payload => some (.system (.updateTask userId taskId payload))
  | .cancelTask taskId => some (.system (.cancelTask userId taskId))
  | .createTaskSchedule id payload => some (.system (.createTaskSchedule userId id payload))
  | .updateTaskSchedule scheduleId payload =>
    some (.system (.updateTaskSchedule userId scheduleId payload))
  | .runTaskScheduleNow scheduleId id manualKey =>
    some (.system (.runTaskScheduleNow userId scheduleId id manualKey))
  | .createConversation id title => some (.createConversation userId id title)
  | .updateConversation conversationId payload =>
    some (.updateConversation userId conversationId payload)
  | .deleteConversation conversationId => some (.deleteConversation userId conversationId)
  | _ => none

def perform (env : Environment) (w : World) (call : ApiCall) : World :=
  match event call.userId call.request with
  | some event => Traffic.apply env w call.now call.now' event
  | none => w

/-- The rows that a list route selects, given the conversation that it is restricted to. -/
def selected {R : Type} (w : World) (userId : UUID) (conversationId : Option UUID) (rows : List R)
    (link : R → Option UUID) (answer : List R → ApiReply) : ApiReply :=
  match conversationId with
  | none => answer rows
  | some c =>
    match getOwnedConversation w.conversations c userId with
    | none => conversationNotFound
    | some _ => answer (rows.filter fun r => link r = some c)

def ofOption {R : Type} (row : Option R) (answer : R → ApiReply) : ApiReply :=
  match row with
  | some r => answer r
  | none => .error databaseUnavailable

/-- The reply to a request in the state that it finds. The orders by `updated_at` and by the
creation of a schedule are left out. -/
def reply (env : Environment) (w : World) (call : ApiCall) : ApiReply :=
  match call.request with
  | .createTask id payload =>
    match createTask w.tasks w.conversations payload call.userId id call.now with
    | .ok tasks => ofOption (tasks.get? id) .task
    | .error e => .error e
  | .createAgentTask id payload before =>
    match createAgentTask env before w.tasks w.conversations payload call.userId id call.now
        call.now' with
    | .ok (_, task) => .task task
    | .error e => .error e
  | .updateTask taskId payload =>
    match getOwnedTask w.tasks taskId call.userId with
    | none => taskNotFound
    | some task =>
      match updateTask task payload call.now with
      | .ok task => .task task
      | .error e => .error e
  | .cancelTask taskId =>
    match getOwnedTask w.tasks taskId call.userId with
    | none => taskNotFound
    | some task =>
      match cancelTask task call.now with
      | .ok task => .task task
      | .error e => .error e
  | .createTaskSchedule id payload =>
    match createTaskSchedule env w.schedules w.conversations payload call.userId id call.now with
    | .ok schedules => ofOption (schedules.get? id) .schedule
    | .error e => .error e
  | .updateTaskSchedule scheduleId payload =>
    match getOwnedSchedule w.schedules scheduleId call.userId with
    | none => scheduleNotFound
    | some schedule =>
      match updateTaskSchedule env schedule payload call.now call.now' with
      | .ok schedule => .schedule schedule
      | .error e => .error e
  | .runTaskScheduleNow scheduleId id manualKey =>
    match getOwnedSchedule w.schedules scheduleId call.userId with
    | none => scheduleNotFound
    | some schedule =>
      match runTaskScheduleNow w.tasks w.schedules schedule id manualKey call.now call.now' with
      | .ok (task, _) => .task task
      | .error _ => .error databaseUnavailable
  | .createConversation id title =>
    match createConversation w.conversations call.userId id title with
    | some conversations => ofOption (conversations.get? id) .conversation
    | none => .error databaseUnavailable
  | .updateConversation conversationId payload =>
    match updateConversation w.conversations payload call.userId conversationId with
    | .ok conversations => ofOption (conversations.get? conversationId) .conversation
    | .error e => .error e
  | .deleteConversation conversationId =>
    match deleteConversation (Traffic.records w) call.userId conversationId with
    | .ok _ => .noContent
    | .error e => .error e
  | .listTasks conversationId =>
    selected w call.userId conversationId
      ((w.tasks.rows.filter fun t => t.userId = some call.userId).insertionSort
        fun a b => b.createdAt ≤ a.createdAt) Task.conversationId .tasks
  | .getTask taskId =>
    match getOwnedTask w.tasks taskId call.userId with
    | none => taskNotFound
    | some task => .task task
  | .getTaskEvents taskId =>
    match getOwnedTask w.tasks taskId call.userId with
    | none => taskNotFound
    | some task => .events task.metadata.events
  | .listTaskSchedules conversationId =>
    selected w call.userId conversationId
      (w.schedules.rows.filter fun s => s.userId = call.userId) TaskSchedule.conversationId
      .schedules
  | .listConversations =>
    .conversations (w.conversations.rows.filter fun c => c.userId = some call.userId)
  | .listMessages conversationId =>
    match getOwnedConversation w.conversations conversationId call.userId with
    | none => conversationNotFound
    | some _ =>
      .messages ((w.messages.rows.filter fun m => m.conversationId = conversationId).insertionSort
        fun a b => a.createdAt ≤ b.createdAt)

/-- `uuid4` gives identifiers that are not in use. -/
def NewIds (w : World) (call : ApiCall) : Prop :=
  match call.request with
  | .createTask id _ | .createAgentTask id _ _ | .runTaskScheduleNow _ id _ =>
    w.tasks.get? id = none
  | .createTaskSchedule id _ => w.schedules.get? id = none
  | .createConversation id _ => w.conversations.get? id = none
  | _ => True

end Api

end AgentDemo
