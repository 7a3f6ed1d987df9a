import AgentDemo.Library.Table
import AgentDemo.Values

/-! The `task_schedules` table. -/
namespace AgentDemo

/-- The text column `schedule_kind`; `unsupported` is any text but the three known kinds. -/
inductive ScheduleKind where
  | once
  | interval
  | daily
  | unsupported (name : String)
  deriving DecidableEq, Repr

def ScheduleKind.text : ScheduleKind → String
  | .once => "once"
  | .interval => "interval"
  | .daily => "daily"
  | .unsupported name => name

inductive DispatchStatus where
  | queued
  | missed
  | overlapSkipped
  | invalid
  deriving DecidableEq, Repr

/-- A row of `task_schedules`. -/
structure TaskSchedule where
  id : UUID
  userId : UUID
  conversationId : Option UUID
  name : String
  prompt : String
  scheduleKind : ScheduleKind
  timezone : String
  runAt : Option Instant
  intervalSeconds : Option ℤ
  dailyTime : Option String
  maxAttempts : ℕ
  nextRunAt : Option Instant
  lastRunAt : Option Instant
  lastTaskId : Option UUID
  enabled : Bool
  misfireGraceSeconds : ℤ
  lastDispatchStatus : Option DispatchStatus
  lastDispatchAt : Option Instant
  lastDispatchError : Option String

instance : Keyed TaskSchedule UUID := ⟨TaskSchedule.id⟩

@[simp] theorem key_taskSchedule (s : TaskSchedule) : Keyed.key s = s.id := rfl

end AgentDemo
