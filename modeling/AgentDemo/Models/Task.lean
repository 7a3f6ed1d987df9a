import AgentDemo.Library.Table
import AgentDemo.Values

/-! The `tasks` table. -/
namespace AgentDemo

inductive TaskKind where
  | manual
  | agent
  deriving DecidableEq, Repr

inductive TaskStatus where
  | queued
  | running
  | succeeded
  | failed
  | cancelled
  | stale
  deriving DecidableEq, Repr

def TaskStatus.text : TaskStatus → String
  | .queued => "queued"
  | .running => "running"
  | .succeeded => "succeeded"
  | .failed => "failed"
  | .cancelled => "cancelled"
  | .stale => "stale"

/-- `TERMINAL_TASK_STATUSES`. -/
def TaskStatus.Terminal : TaskStatus → Prop
  | .queued | .running => False
  | _ => True

instance : DecidablePred TaskStatus.Terminal
  | .queued | .running => inferInstanceAs (Decidable False)
  | .succeeded | .failed | .cancelled | .stale => inferInstanceAs (Decidable True)

def taskStatusTransitions : TaskStatus → List TaskStatus
  | .queued => [.queued, .running, .failed, .cancelled]
  | .running => [.running, .succeeded, .failed, .cancelled, .stale]
  | .succeeded => [.succeeded]
  | .failed => [.failed]
  | .cancelled => [.cancelled]
  | .stale => [.stale]

def isValidTaskStatusTransition (current next : TaskStatus) : Bool :=
  next ∈ taskStatusTransitions current

/-- The JSON object in `metadata`: the event log and every other key. -/
structure TaskMetadata where
  events : List JsonObject
  other : JsonObject

/-- A row of `tasks`. `prompt` is the `prompt` key of the `input` object. -/
structure Task where
  id : UUID
  userId : Option UUID
  conversationId : Option UUID
  scheduleId : Option UUID
  name : String
  kind : TaskKind
  prompt : Option String
  status : TaskStatus
  progress : ℤ
  error : Option String
  result : Option JsonObject
  traceId : Option String
  idempotencyKey : Option String
  attemptCount : ℕ
  maxAttempts : ℕ
  nextAttemptAt : Option Instant
  heartbeatAt : Option Instant
  leaseExpiresAt : Option Instant
  runToken : Option UUID
  timeoutSeconds : ℕ
  deadlineAt : Option Instant
  replayBlockedAt : Option Instant
  replayBlockedReason : Option String
  metadata : TaskMetadata
  createdAt : Instant
  startedAt : Option Instant
  finishedAt : Option Instant

instance : Keyed Task UUID := ⟨Task.id⟩

@[simp] theorem key_task (t : Task) : Keyed.key t = t.id := rfl

end AgentDemo
