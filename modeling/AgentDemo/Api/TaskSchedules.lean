import AgentDemo.Services.TaskSchedules

/-! The schedule routes: creation, pause and resume, and a run on demand. -/
namespace AgentDemo

/-- A validated request body. The literal type of its kind leaves three values. -/
structure TaskScheduleCreate where
  prompt : String
  name : Option String
  conversationId : Option UUID
  scheduleKind : ScheduleKind
  timezone : String
  runAt : Option RunAt
  intervalMinutes : Option ℕ
  dailyTime : Option String
  maxAttempts : Option ℕ
  misfireGraceSeconds : ℕ
  kind_supported : ∀ name, scheduleKind ≠ .unsupported name
  once_runAt : scheduleKind = .once → runAt.isSome
  interval_minutes : scheduleKind = .interval → intervalMinutes.isSome
  daily_time : scheduleKind = .daily → dailyTime.isSome

structure TaskScheduleUpdate where
  enabled : Bool

def getOwnedSchedule (schedules : Table TaskSchedule) (scheduleId userId : UUID) :
    Option TaskSchedule :=
  (schedules.get? scheduleId).filter fun s => s.userId = userId

def createTaskSchedule (env : Environment) (schedules : Table TaskSchedule)
    (conversations : Table Conversation) (payload : TaskScheduleCreate) (userId id : UUID)
    (now : Instant) : Except HttpException (Table TaskSchedule) :=
  if payload.conversationId.all fun c => (getOwnedConversation conversations c userId).isSome then
    let prompt := strip payload.prompt
    let interval := (payload.intervalMinutes.filter fun n => n ≠ 0).map fun n => (n : ℤ) * 60
    match initialNextRun env payload.scheduleKind payload.timezone now payload.runAt interval
        payload.dailyTime with
    | .error detail => .error ⟨422, detail⟩
    | .ok next =>
      match schedules.insert?
        { id, userId, conversationId := payload.conversationId
          name := strip (orText payload.name (agentTaskName prompt)), prompt
          scheduleKind := payload.scheduleKind, timezone := strip payload.timezone
          runAt := payload.runAt.map RunAt.stored, intervalSeconds := interval
          dailyTime := payload.dailyTime, maxAttempts := maxAttemptsOr env payload.maxAttempts
          nextRunAt := some next, lastRunAt := none, lastTaskId := none, enabled := true
          misfireGraceSeconds := payload.misfireGraceSeconds, lastDispatchStatus := none
          lastDispatchAt := none, lastDispatchError := none } with
      | some schedules' => .ok schedules'
      | none => .error databaseUnavailable
  else .error ⟨404, "Conversation not found"⟩

/-- `update_task_schedule` on the row it has locked; the clock is read twice. -/
def updateTaskSchedule (env : Environment) (schedule : TaskSchedule) (payload : TaskScheduleUpdate)
    (now now' : Instant) : Except HttpException TaskSchedule :=
  if payload.enabled ∧ lapsed schedule.nextRunAt now then
    match initialNextRun env schedule.scheduleKind schedule.timezone now'
        (schedule.runAt.map RunAt.aware) schedule.intervalSeconds schedule.dailyTime with
    | .error detail => .error ⟨409, detail⟩
    | .ok next => .ok { schedule with
        lastDispatchError := none
        nextRunAt := some next
        enabled := payload.enabled }
  else .ok { schedule with lastDispatchError := none, enabled := payload.enabled }

def markRan (schedule : TaskSchedule) (taskId : UUID) (now : Instant) : TaskSchedule :=
  { schedule with
    lastTaskId := some taskId
    lastRunAt := some now
    lastDispatchAt := some now
    lastDispatchStatus := some .queued
    lastDispatchError := none }

/-- `run_task_schedule_now` on the row it has locked: the task that answers the request, with
the two tables when a new one is queued. -/
def runTaskScheduleNow (tasks : Table Task) (schedules : Table TaskSchedule)
    (schedule : TaskSchedule) (id manualKey : UUID) (now now' : Instant) :
    Except IntegrityError (Task × Option (Table Task × Table TaskSchedule)) :=
  match activeScheduleTask tasks schedule.id with
  | some existing => .ok (existing, none)
  | none =>
    let task := buildScheduledTask schedule id now (some manualKey) now
    match insertTask tasks task with
    | none => .error ⟨⟩
    | some tasks' => .ok (task, some (tasks', schedules.write (markRan schedule id now')))

theorem id_markRan (schedule : TaskSchedule) (taskId : UUID) (now : Instant) :
    (markRan schedule taskId now).id = schedule.id := rfl

theorem id_updateTaskSchedule {env : Environment} {schedule schedule' : TaskSchedule}
    {payload : TaskScheduleUpdate} {now now' : Instant}
    (hu : updateTaskSchedule env schedule payload now now' = .ok schedule') :
    schedule'.id = schedule.id := by
  unfold updateTaskSchedule at hu
  split at hu
  · split at hu
    · cases hu
    · exact Except.ok.inj hu ▸ rfl
  · exact Except.ok.inj hu ▸ rfl

theorem runTaskScheduleNow_eq_ok {tasks tasks' : Table Task}
    {schedules schedules' : Table TaskSchedule} {schedule : TaskSchedule} {id manualKey : UUID}
    {now now' : Instant} {task : Task}
    (h : runTaskScheduleNow tasks schedules schedule id manualKey now now' =
      .ok (task, some (tasks', schedules'))) :
    activeScheduleTask tasks schedule.id = none ∧
      insertTask tasks (buildScheduledTask schedule id now (some manualKey) now) = some tasks' ∧
      schedules' = schedules.write (markRan schedule id now') := by
  unfold runTaskScheduleNow at h
  cases ha : activeScheduleTask tasks schedule.id with
  | some existing => simp [ha] at h
  | none =>
    simp only [ha] at h
    cases hi : insertTask tasks (buildScheduledTask schedule id now (some manualKey) now) with
    | none => simp [hi] at h
    | some inserted =>
      simp only [hi, Except.ok.injEq, Prod.mk.injEq, Option.some.injEq] at h
      obtain ⟨-, rfl, rfl⟩ := h
      exact ⟨rfl, rfl, rfl⟩

/-- A created schedule is a new row whose first run is the one computed. -/
theorem createTaskSchedule_eq_ok {env : Environment} {schedules schedules' : Table TaskSchedule}
    {conversations : Table Conversation} {payload : TaskScheduleCreate} {userId id : UUID}
    {now : Instant}
    (h : createTaskSchedule env schedules conversations payload userId id now = .ok schedules') :
    ∃ schedule next interval, schedules.insert? schedule = some schedules' ∧
      initialNextRun env payload.scheduleKind payload.timezone now payload.runAt interval
        payload.dailyTime = .ok next ∧
      schedule.nextRunAt = some next ∧ schedule.scheduleKind = payload.scheduleKind ∧
      schedule.runAt = payload.runAt.map RunAt.stored ∧
      schedule.timezone = strip payload.timezone ∧ schedule.dailyTime = payload.dailyTime := by
  unfold createTaskSchedule at h
  split_ifs at h
  simp only at h
  split at h
  next => cases h
  next next hn =>
    split at h
    next hi =>
      cases Except.ok.inj h
      exact ⟨_, next, _, hi, hn, rfl, rfl, rfl, rfl, rfl⟩
    next => cases h

end AgentDemo
