import AgentDemo.Services.TaskLease
import AgentDemo.Models.Conversation

/-! The transactions of `AgentTaskRunner`, each as a function of the row it holds locked. -/
namespace AgentDemo

def maxTaskEvents : ℕ := 100

def statusProgress : String → Option ℤ
  | "ensure_conversation" => some 5
  | "load_history" => some 10
  | "save_user_message" => some 15
  | "retrieving_context" => some 25
  | "planning" => some 35
  | "generating" => some 70
  | "save_assistant_message" => some 90
  | _ => none

def eventProgress : String → Option ℤ
  | "plan" => some 40
  | "tool_call" => some 50
  | "tool_result" => some 65
  | "done" => some 100
  | _ => none

/-- The settings of a worker, with the lower bounds that its constructor applies. -/
structure AgentTaskRunner where
  retryBaseSeconds : ℕ
  leaseSeconds : ℕ
  heartbeatSeconds : ℕ
  retryBase_ge : 1 ≤ retryBaseSeconds
  lease_ge : 5 ≤ leaseSeconds
  heartbeat_ge : 1 ≤ heartbeatSeconds

/-- `AgentTaskRunner.__init__` on the values that the arguments or the settings give. -/
def AgentTaskRunner.init (retryBase lease heartbeat : ℕ) : AgentTaskRunner :=
  { retryBaseSeconds := max retryBase 1, leaseSeconds := max lease 5,
    heartbeatSeconds := max heartbeat 1, retryBase_ge := le_max_right _ _,
    lease_ge := le_max_right _ _, heartbeat_ge := le_max_right _ _ }

/-- How the first transaction of `AgentTaskRunner.run` ends. -/
inductive ClaimResult where
  | skipped
  | failed (task : Task)
  | deferred (retryAt : Instant)
  | started (task : Task) (lease : TaskLease) (timeout : Instant)
      (conversation : Option Conversation)

def finishFailed (task : Task) (error : String) (now : Instant) : Task :=
  { task with
    status := .failed
    error := some (if error = "" then "Background agent task failed" else error)
    finishedAt := some now
    nextAttemptAt := none
    leaseExpiresAt := none
    runToken := none }

/-- The reasons to fail a queued task instead of starting an attempt. -/
def claimError (task : Task) (now : Instant) : Option String :=
  if strip (task.prompt.getD "") = "" then some "Agent task input did not include a prompt"
  else if passed task.deadlineAt now then some "Task deadline expired before execution"
  else if task.attemptCount ≥ task.maxAttempts then some "Task attempt budget exhausted"
  else if task.replayBlockedAt.isSome then some replayBlockedError
  else none

/-- The deadline of an attempt: the stored one, else fifteen minutes from now. -/
def attemptDeadline (task : Task) (now : Instant) : Instant :=
  task.deadlineAt.getD (now + seconds 900)

def AgentTaskRunner.startAttempt (runner : AgentTaskRunner) (task : Task)
    (conversationId token : UUID) (now : Instant) : Task :=
  { task with
    conversationId := task.conversationId <|> some conversationId
    status := .running
    runToken := some token
    progress := 1
    error := none
    attemptCount := task.attemptCount + 1
    startedAt := task.startedAt <|> some now
    finishedAt := none
    nextAttemptAt := none
    deadlineAt := some (attemptDeadline task now)
    heartbeatAt := some now
    leaseExpiresAt := some (min (now + seconds runner.leaseSeconds) (attemptDeadline task now)) }

/-- `AgentTaskRunner.run` up to its first commit. `now'` is the later clock reading of
`_finish_failed`; the two identifiers are the values `uuid4` returns. -/
def AgentTaskRunner.claim (runner : AgentTaskRunner) (task : Task) (conversationId token : UUID)
    (now now' : Instant) : ClaimResult :=
  if task.kind ≠ .agent ∨ task.status ≠ .queued then .skipped
  else match claimError task now with
    | some error => .failed (finishFailed task error now')
    | none =>
      match task.nextAttemptAt with
      | some at' =>
        if at' > now then .deferred at'
        else started
      | none => started
where
  started : ClaimResult :=
    .started (runner.startAttempt task conversationId token now) ⟨task.id, token⟩
      (min (seconds task.timeoutSeconds) (attemptDeadline task now - now))
      (if task.conversationId.isNone then some ⟨conversationId, task.userId, "New conversation"⟩
       else none)

theorem AgentTaskRunner.claim_eq_started {runner : AgentTaskRunner} {task task' : Task}
    {conversationId token : UUID} {now now' timeout : Instant} {lease : TaskLease}
    {conversation : Option Conversation}
    (h : runner.claim task conversationId token now now' =
      .started task' lease timeout conversation) :
    task.kind = .agent ∧ task.status = .queued ∧ claimError task now = none ∧
      task' = runner.startAttempt task conversationId token now ∧ lease = ⟨task.id, token⟩ ∧
      timeout = min (seconds task.timeoutSeconds) (attemptDeadline task now - now) := by
  have started (h : claim.started runner task conversationId token now =
      .started task' lease timeout conversation) :
      task' = runner.startAttempt task conversationId token now ∧ lease = ⟨task.id, token⟩ ∧
        timeout = min (seconds task.timeoutSeconds) (attemptDeadline task now - now) := by
    unfold claim.started at h
    obtain ⟨rfl, rfl, rfl, -⟩ := ClaimResult.started.inj h
    exact ⟨rfl, rfl, rfl⟩
  unfold claim at h
  by_cases hq : task.kind ≠ .agent ∨ task.status ≠ .queued
  · simp [hq] at h
  rw [if_neg hq] at h
  push Not at hq
  cases he : claimError task now with
  | some e => simp [he] at h
  | none =>
    simp only [he] at h
    cases hn : task.nextAttemptAt with
    | none =>
      simp only [hn] at h
      exact ⟨hq.1, hq.2, rfl, started h⟩
    | some at' =>
      simp only [hn] at h
      by_cases hlater : at' > now
      · simp [hlater] at h
      · rw [if_neg hlater] at h
        exact ⟨hq.1, hq.2, rfl, started h⟩

theorem AgentTaskRunner.claim_eq_failed {runner : AgentTaskRunner} {task task' : Task}
    {conversationId token : UUID} {now now' : Instant}
    (h : runner.claim task conversationId token now now' = .failed task') :
    task.kind = .agent ∧ task.status = .queued ∧ ∃ error, task' = finishFailed task error now' := by
  unfold claim claim.started at h
  by_cases hq : task.kind ≠ .agent ∨ task.status ≠ .queued
  · simp [hq] at h
  rw [if_neg hq] at h
  push Not at hq
  cases he : claimError task now with
  | some e =>
    simp only [he, ClaimResult.failed.injEq] at h
    exact ⟨hq.1, hq.2, e, h.symm⟩
  | none =>
    simp only [he] at h
    cases hn : task.nextAttemptAt with
    | none => simp [hn] at h
    | some at' =>
      simp only [hn] at h
      by_cases hlater : at' > now <;> simp [hlater] at h

def compactEventData (data : JsonObject) : JsonObject :=
  ["label", "model", "tool_name", "provider", "provider_tool_id", "server_name", "status",
    "reason", "error", "message", "trace_id"].filterMap fun key =>
      match data.get? key with
      | none | some .null => none
      | some value => some (key, value)

/-- `_progress`. -/
def progressOf (eventType : String) (data : JsonObject) : ℤ :=
  if eventType = "status" then (statusProgress (orText (data.getStr? "label") "")).getD 1
  else (eventProgress eventType).getD 1

/-- `[*events, event][-100:]`. -/
def appendEvent (metadata : TaskMetadata) (event : JsonObject) : TaskMetadata :=
  let events := metadata.events ++ [event]
  { metadata with events := events.drop (events.length - maxTaskEvents) }

/-- `_record_event`. Trace identifiers in event data are always texts. -/
def recordEvent (task : Task) (eventType : String) (data : JsonObject) (now : Instant) : Task :=
  { task with
    metadata := appendEvent task.metadata
      ([("type", .str eventType), ("at", .str (IsoFormat.isoformat now)),
        ("attempt", .num task.attemptCount)] ++ compactEventData data)
    progress := max task.progress (min (progressOf eventType data) 95)
    traceId := match data.getStr? "trace_id" with
      | some trace => if trace = "" then task.traceId else some trace
      | none => task.traceId }

/-- The success commit of `AgentTaskRunner.run`. -/
def succeed (task : Task) (donePayload : JsonObject) (answerParts : List String)
    (conversationId : UUID) (now : Instant) : Task :=
  let trace := orText (donePayload.getStr? "trace_id") (orText task.traceId "")
  { task with
    status := .succeeded
    progress := 100
    traceId := if trace = "" then none else some trace
    result := some
      [("answer", .str (String.join answerParts)), ("conversation_id", .str conversationId.str),
        ("citations", donePayload.getOr "citations" (.arr [])),
        ("tool_calls", donePayload.getOr "tool_calls" (.arr [])),
        ("model_route", (donePayload.get? "model_route").getD .null)]
    finishedAt := some now
    leaseExpiresAt := none
    runToken := none }

def AgentTaskRunner.retryDelay (runner : AgentTaskRunner) (task : Task) : ℕ :=
  min (runner.retryBaseSeconds * 2 ^ (task.attemptCount - 1)) 3600

/-- `uniform(delay / 2, delay)` returns a value between its bounds. -/
def AgentTaskRunner.Jitter (runner : AgentTaskRunner) (task : Task) (wait : Instant) : Prop :=
  seconds (runner.retryDelay task) ≤ 2 * wait ∧ wait ≤ seconds (runner.retryDelay task)

instance (runner : AgentTaskRunner) (task : Task) (wait : Instant) :
    Decidable (runner.Jitter task wait) := inferInstanceAs (Decidable (_ ∧ _))

def retryScheduled (task : Task) (error : String) (now retryAt : Instant) : Task :=
  { task with
    status := .queued
    error := some ("Attempt " ++ toString task.attemptCount ++ "/" ++ toString task.maxAttempts ++
      " failed; retry scheduled: " ++ error)
    finishedAt := none
    nextAttemptAt := some retryAt
    leaseExpiresAt := none
    runToken := none
    metadata := appendEvent task.metadata
      [("type", .str "retry_scheduled"), ("at", .str (IsoFormat.isoformat now)),
        ("attempt", .num task.attemptCount), ("retry_at", .str (IsoFormat.isoformat retryAt)),
        ("error", .str (takeText 2000 error))] }

/-- `_finish_or_retry` after its lease check; `wait` is the jittered delay and `now'` the
later clock reading of `_finish_failed`. -/
def finishOrRetry (task : Task) (error : String) (retryable : Bool) (wait now now' : Instant) :
    Task :=
  let retryAt := now + wait
  if task.replayBlockedAt.isSome then
    finishFailed task (error ++ " " ++ replayBlockedError) now'
  else if passed task.deadlineAt retryAt then
    finishFailed task ("Task deadline exhausted: " ++ error) now'
  else if retryable ∧ task.attemptCount < task.maxAttempts then
    retryScheduled task error now retryAt
  else finishFailed task error now'

/-- One beat of `_heartbeat_loop`. `none`: `min` raises on a missing deadline. -/
def AgentTaskRunner.heartbeat (runner : AgentTaskRunner) (task : Task) (now : Instant) :
    Option Task :=
  task.deadlineAt.map fun deadline =>
    { task with
      heartbeatAt := some now
      leaseExpiresAt := some (min (now + seconds runner.leaseSeconds) deadline) }

end AgentDemo
