import AgentDemo.Environment
import AgentDemo.Models.Conversation
import AgentDemo.Models.Task

/-! The task routes: creation, idempotent agent tasks, updates and cancellation. -/
namespace AgentDemo

structure TaskCreate where
  name : String
  conversationId : Option UUID
  traceId : Option String
  metadata : TaskMetadata

/-- A validated request body. The validators have stripped the prompt and the key. -/
structure AgentTaskCreate where
  prompt : String
  name : Option String
  conversationId : Option UUID
  idempotencyKey : Option String
  maxAttempts : Option ℕ
  timeoutSeconds : ℕ
  deadlineSeconds : ℕ
  prompt_ne : prompt ≠ ""
  key_length : ∀ key, idempotencyKey = some key → 8 ≤ key.length ∧ key.length ≤ 200
  attempts_range : ∀ n, maxAttempts = some n → 1 ≤ n ∧ n ≤ 10
  timeout_range : 5 ≤ timeoutSeconds ∧ timeoutSeconds ≤ 3600
  deadline_range : 5 ≤ deadlineSeconds ∧ deadlineSeconds ≤ 86400

structure TaskUpdate where
  status : Option TaskStatus
  progress : Option ℤ
  error : Option String
  result : Option JsonObject
  traceId : Option String
  metadata : Option TaskMetadata
  progress_range : ∀ p, progress = some p → 0 ≤ p ∧ p ≤ 100

def getOwnedConversation (conversations : Table Conversation) (conversationId userId : UUID) :
    Option Conversation :=
  (conversations.get? conversationId).filter fun c => c.userId = some userId

def getOwnedTask (tasks : Table Task) (taskId userId : UUID) : Option Task :=
  (tasks.get? taskId).filter fun t => t.userId = some userId

def getTaskByIdempotencyKey (tasks : Table Task) (userId : UUID) (key : String) : Option Task :=
  tasks.rows.find? fun t => t.userId = some userId ∧ t.idempotencyKey = some key

/-- Rows that `UniqueConstraint("user_id", "idempotency_key")` does not allow together. -/
def SameKey (a b : Task) : Prop :=
  a.userId.isSome ∧ a.userId = b.userId ∧ a.idempotencyKey.isSome ∧
    a.idempotencyKey = b.idempotencyKey

instance (a b : Task) : Decidable (SameKey a b) := inferInstanceAs (Decidable (_ ∧ _))

/-- `INSERT INTO tasks`; `none` is an `IntegrityError`. -/
def insertTask (tasks : Table Task) (task : Task) : Option (Table Task) :=
  if ∃ t ∈ tasks.rows, SameKey t task then none else tasks.insert? task

/-- The columns of a new row that no caller of the constructor sets. -/
def newTask (id : UUID) (createdAt : Instant) : Task :=
  { id, userId := none, conversationId := none, scheduleId := none, name := "", kind := .manual,
    prompt := none, status := .queued, progress := 0, error := none, result := none,
    traceId := none, idempotencyKey := none, attemptCount := 0, maxAttempts := 3,
    nextAttemptAt := none, heartbeatAt := none, leaseExpiresAt := none, runToken := none,
    timeoutSeconds := 180, deadlineAt := none, replayBlockedAt := none,
    replayBlockedReason := none, metadata := ⟨[], []⟩, createdAt, startedAt := none,
    finishedAt := none }

def createTask (tasks : Table Task) (conversations : Table Conversation) (payload : TaskCreate)
    (userId id : UUID) (now : Instant) : Except HttpException (Table Task) :=
  if payload.conversationId.all fun c => (getOwnedConversation conversations c userId).isSome then
    match insertTask tasks
      { newTask id now with
        name := payload.name, kind := .manual, userId := some userId
        conversationId := payload.conversationId, maxAttempts := 1, traceId := payload.traceId
        metadata := payload.metadata } with
    | some tasks' => .ok tasks'
    | none => .error databaseUnavailable
  else .error ⟨404, "Conversation not found"⟩

def agentTaskName (prompt : String) : String :=
  let lines := (prompt.toList.splitOnP isLineBreak).map stripList
  takeText 80 (String.ofList ((lines.find? fun line => !line.isEmpty).getD "Agent task".toList))

def taskName (payload : AgentTaskCreate) : String :=
  strip (orText payload.name (agentTaskName payload.prompt))

def maxAttemptsOr (env : Environment) (n : Option ℕ) : ℕ := n.getD env.agentTaskDefaultMaxAttempts

/-- The input of a request without its key, with the defaults filled in. -/
def normalisedInput (env : Environment) (payload : AgentTaskCreate) : JsonObject :=
  [("prompt", .str payload.prompt), ("name", .str (taskName payload)),
    ("conversation_id", match payload.conversationId with
      | some id => .str id.str
      | none => .null),
    ("max_attempts", .num (maxAttemptsOr env payload.maxAttempts)),
    ("timeout_seconds", .num payload.timeoutSeconds),
    ("deadline_seconds", .num payload.deadlineSeconds)]

def requestFingerprint (env : Environment) (payload : AgentTaskCreate) : String :=
  env.digest (normalisedInput env payload)

/-- `_validate_repeated_request`: whether a stored task answers the request again. -/
def validateRepeatedRequest (task : Task) (payload : AgentTaskCreate) (fingerprint : String) :
    Except HttpException Unit :=
  let saved := orText (task.metadata.other.getStr? "request_fingerprint") ""
  if (saved ≠ "" ∧ saved = fingerprint) ∨ (saved = "" ∧ task.kind = .agent ∧
      task.prompt = some payload.prompt ∧ task.conversationId = payload.conversationId) then
    .ok ()
  else .error ⟨409, "Idempotency key was already used for a different task request"⟩

/-- The row that `create_agent_task` inserts. -/
def agentTask (env : Environment) (payload : AgentTaskCreate) (userId id : UUID)
    (now now' : Instant) : Task :=
  { newTask id now' with
    name := taskName payload, kind := .agent, prompt := some (strip payload.prompt)
    userId := some userId, conversationId := payload.conversationId
    idempotencyKey := payload.idempotencyKey
    maxAttempts := maxAttemptsOr env payload.maxAttempts, nextAttemptAt := some now
    timeoutSeconds := payload.timeoutSeconds
    deadlineAt := some (now' + seconds payload.deadlineSeconds)
    metadata := ⟨[], [("request_fingerprint", .str (requestFingerprint env payload))]⟩ }

/-- The user of a request as an instance of its session: a rollback expires it, and an expired
attribute cannot be read between two awaited calls. -/
structure CurrentUser where
  id : UUID
  expired : Bool

def CurrentUser.rollback (user : CurrentUser) : CurrentUser := { user with expired := true }

def CurrentUser.readId (user : CurrentUser) : Except HttpException UUID :=
  if user.expired then .error databaseUnavailable else .ok user.id

/-- The answer of `create_agent_task` to a request whose key it has found. -/
def repeated (env : Environment) (payload : AgentTaskCreate) (existing : Task) :
    Except HttpException Task :=
  match validateRepeatedRequest existing payload (requestFingerprint env payload) with
  | .ok () => .ok existing
  | .error e => .error e

/-- `create_agent_task` up to its insert: the check of the conversation and the first look-up of
the key. `none` goes on to the insert. -/
def firstLookUp (env : Environment) (tasks : Table Task) (conversations : Table Conversation)
    (payload : AgentTaskCreate) (userId : UUID) : Option (Except HttpException Task) :=
  if payload.conversationId.all fun c => (getOwnedConversation conversations c userId).isSome then
    (payload.idempotencyKey.bind (getTaskByIdempotencyKey tasks userId)).map (repeated env payload)
  else some (.error ⟨404, "Conversation not found"⟩)

/-- The handler of the `IntegrityError`, after its rollback. -/
def secondLookUp (env : Environment) (tasks : Table Task) (payload : AgentTaskCreate)
    (currentUser : CurrentUser) : Except HttpException Task :=
  match payload.idempotencyKey with
  | none => .error databaseUnavailable
  | some key =>
    match currentUser.readId with
    | .error e => .error e
    | .ok userId =>
      match getTaskByIdempotencyKey tasks userId key with
      | some existing => repeated env payload existing
      | none => .error databaseUnavailable

/-- `create_agent_task`. The first look-up of the key sees the table `before`; another request
may commit a row with the key in between. -/
def createAgentTask (env : Environment) (before tasks : Table Task)
    (conversations : Table Conversation) (payload : AgentTaskCreate) (userId id : UUID)
    (now now' : Instant) : Except HttpException (Table Task × Task) :=
  match firstLookUp env before conversations payload userId with
  | some reply => reply.map fun task => (tasks, task)
  | none =>
    let task := agentTask env payload userId id now now'
    match insertTask tasks task with
    | some tasks' => .ok (tasks', task)
    | none => (secondLookUp env tasks payload (CurrentUser.mk userId false).rollback).map
        fun task => (tasks, task)

def validateTaskTransition (task : Task) (next : TaskStatus) : Except HttpException Unit :=
  if isValidTaskStatusTransition task.status next then .ok ()
  else .error
    ⟨409, "Invalid task status transition from " ++ task.status.text ++ " to " ++ next.text⟩

def applyTaskStatusTimestamps (task : Task) (next : TaskStatus) (now : Instant) : Task :=
  { task with
    startedAt := if next = .running then task.startedAt <|> some now else task.startedAt
    finishedAt := if next.Terminal then task.finishedAt <|> some now else task.finishedAt }

/-- `update_task` on the row it has locked. -/
def updateTask (task : Task) (payload : TaskUpdate) (now : Instant) : Except HttpException Task :=
  if task.kind = .agent then
    .error ⟨409, "Agent task state is managed by the worker; use cancel to stop it"⟩
  else do
    let moved ← match payload.status with
      | none => .ok task
      | some next => do
        validateTaskTransition task next
        .ok { applyTaskStatusTimestamps task next now with status := next }
    .ok { moved with
      progress := payload.progress.getD moved.progress
      error := payload.error <|> moved.error
      result := payload.result <|> moved.result
      traceId := payload.traceId <|> moved.traceId
      metadata := payload.metadata.getD moved.metadata }

/-- What a cancellation notes when a tool has been dispatched or an answer saved. -/
def cancelledAfterWork : String :=
  "Cancelled after work started. Review tool history for operations already dispatched."

/-- `cancel_task` on the row it has locked. -/
def cancelTask (task : Task) (now : Instant) : Except HttpException Task := do
  validateTaskTransition task .cancelled
  .ok { applyTaskStatusTimestamps task .cancelled now with
    status := .cancelled
    runToken := none
    leaseExpiresAt := none
    nextAttemptAt := none
    error := if task.replayBlockedAt.isSome then some cancelledAfterWork else task.error }

theorem insertTask_eq_some {tasks tasks' : Table Task} {task : Task}
    (h : insertTask tasks task = some tasks') :
    (∀ t ∈ tasks.rows, ¬ SameKey t task) ∧ tasks.insert? task = some tasks' := by
  unfold insertTask at h
  split_ifs at h with hc
  push Not at hc
  exact ⟨hc, h⟩

/-- An insertion fails exactly on a key in use, given a fresh identifier. -/
theorem insertTask_isSome_iff {tasks : Table Task} {task : Task}
    (hfresh : tasks.get? task.id = none) :
    (∃ inserted, insertTask tasks task = some inserted) ↔ ∀ t ∈ tasks.rows, ¬ SameKey t task := by
  constructor
  · rintro ⟨inserted, h⟩
    exact (insertTask_eq_some h).1
  · intro h
    obtain ⟨inserted, hi⟩ := Table.insert?_of_fresh hfresh
    refine ⟨inserted, ?_⟩
    unfold insertTask
    rw [if_neg (by push Not; exact h), hi]

/-- The only rows that cancellation moves are those of tasks still to run or running. -/
theorem cancelTask_eq_ok {task task' : Task} {now : Instant} (h : cancelTask task now = .ok task') :
    (task.status = .queued ∨ task.status = .running ∨ task.status = .cancelled) ∧
      task' = { applyTaskStatusTimestamps task .cancelled now with
        status := .cancelled
        runToken := none
        leaseExpiresAt := none
        nextAttemptAt := none
        error := if task.replayBlockedAt.isSome then some cancelledAfterWork else task.error } := by
  unfold cancelTask validateTaskTransition at h
  by_cases hv : isValidTaskStatusTransition task.status .cancelled
  · rw [if_pos hv] at h
    refine ⟨?_, (Except.ok.inj h).symm⟩
    cases hs : task.status <;> simp [hs, isValidTaskStatusTransition, taskStatusTransitions] at hv ⊢
  · rw [if_neg hv] at h
    cases h

theorem kind_of_updateTask {task task' : Task} {payload : TaskUpdate} {now : Instant}
    (h : updateTask task payload now = .ok task') : task.kind ≠ .agent := by
  intro hk
  simp [updateTask, hk] at h

/-- The outcome of a request for an agent task: nothing is written, or one fresh row is. -/
theorem createAgentTask_eq_ok {env : Environment} {before tasks tasks' : Table Task}
    {conversations : Table Conversation} {payload : AgentTaskCreate} {userId id : UUID}
    {now now' : Instant} {task : Task}
    (h : createAgentTask env before tasks conversations payload userId id now now' =
      .ok (tasks', task)) :
    tasks' = tasks ∨ (task = agentTask env payload userId id now now' ∧
      insertTask tasks task = some tasks') := by
  have unchanged {reply : Except HttpException Task}
      (h : reply.map (fun task => (tasks, task)) = .ok (tasks', task)) : tasks' = tasks := by
    cases reply with
    | error e => cases h
    | ok t => exact (congrArg Prod.fst (Except.ok.inj h)).symm
  unfold createAgentTask at h
  cases hf : firstLookUp env before conversations payload userId with
  | some reply =>
    simp only [hf] at h
    exact Or.inl (unchanged h)
  | none =>
    simp only [hf] at h
    cases hi : insertTask tasks (agentTask env payload userId id now now') with
    | some inserted =>
      simp only [hi] at h
      obtain ⟨rfl, rfl⟩ := Prod.mk.inj (Except.ok.inj h)
      exact Or.inr ⟨rfl, hi⟩
    | none =>
      simp only [hi] at h
      exact Or.inl (unchanged h)

/-- A request that has lost the race for its key cannot read the id of its user any more. -/
theorem secondLookUp_rollback (env : Environment) (tasks : Table Task) (payload : AgentTaskCreate)
    (currentUser : CurrentUser) :
    secondLookUp env tasks payload currentUser.rollback = .error databaseUnavailable := by
  unfold secondLookUp
  split
  · rfl
  · rfl

end AgentDemo
