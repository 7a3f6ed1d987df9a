import AgentDemo.System.World

/-! One task in the system: its row and its history, and everything that a step of the
system can do to them. -/
namespace AgentDemo

structure TaskView where
  row : Option Task
  entries : List TaskEntry

def World.view (w : World) (taskId : UUID) : TaskView := ⟨w.tasks.get? taskId, w.entries taskId⟩

/-- What all creation paths agree on. -/
structure Inserted (task : Task) : Prop where
  queued : task.status = .queued
  progress : task.progress = 0
  attempts : task.attemptCount = 0
  finished : task.finishedAt = none
  lease : task.leaseExpiresAt = none
  token : task.runToken = none
  unblocked : task.replayBlockedAt = none
  timeout : 0 < task.timeoutSeconds
  unscheduled : task.kind ≠ .agent → task.scheduleId = none

/-- The effects that are committed together with the replay barrier. -/
inductive Effect (token : UUID) : TaskEntry → Prop where
  | dispatched (toolName : String) : Effect token (.dispatched token toolName)
  | answered : Effect token (.answered token)

/-- The transactions of the system, as seen by the one task they concern. -/
inductive TaskStep : TaskView → TaskView → Prop where
  | insert {task : Task} {es : List TaskEntry} (h : Inserted task) :
      TaskStep ⟨none, es⟩ ⟨some task, es⟩
  | claim {task task' : Task} {es : List TaskEntry} {runner : AgentTaskRunner}
      {conversationId token : UUID} {now now' timeout : Instant} {lease : TaskLease}
      {conversation : Option Conversation}
      (h : runner.claim task conversationId token now now' =
        .started task' lease timeout conversation)
      (fresh : ∀ timeout at', .claimed token timeout at' ∉ es) :
      TaskStep ⟨some task, es⟩ ⟨some task', .claimed token timeout now :: es⟩
  | claimFailed {task task' : Task} {es : List TaskEntry} {runner : AgentTaskRunner}
      {conversationId token : UUID} {now now' : Instant}
      (h : runner.claim task conversationId token now now' = .failed task') :
      TaskStep ⟨some task, es⟩ ⟨some task', es⟩
  | heartbeat {task task' : Task} {es : List TaskEntry} {runner : AgentTaskRunner}
      {lease : TaskLease} {now now' : Instant} (hold : Holds task lease now true)
      (h : runner.heartbeat task now' = some task') :
      TaskStep ⟨some task, es⟩ ⟨some task', .accepted lease.token now :: es⟩
  | recordEvent {task : Task} {es : List TaskEntry} {lease : TaskLease} {now : Instant}
      (hold : Holds task lease now true) (eventType : String) (data : JsonObject) (now' : Instant) :
      TaskStep ⟨some task, es⟩
        ⟨some (recordEvent task eventType data now'), .accepted lease.token now :: es⟩
  | succeed {task : Task} {es : List TaskEntry} {lease : TaskLease} {now : Instant}
      (hold : Holds task lease now true) (donePayload : JsonObject) (answerParts : List String)
      (conversationId : UUID) (now' : Instant) :
      TaskStep ⟨some task, es⟩
        ⟨some (succeed task donePayload answerParts conversationId now'),
          .accepted lease.token now :: es⟩
  | checked {task : Task} {es : List TaskEntry} {lease : TaskLease} {now : Instant}
      (hold : Holds task lease now true) :
      TaskStep ⟨some task, es⟩ ⟨some task, .accepted lease.token now :: es⟩
  | effect {task : Task} {es : List TaskEntry} {lease : TaskLease} {now : Instant} {e : TaskEntry}
      (hold : Holds task lease now true) (reason : String) (now' : Instant)
      (h : Effect lease.token e) :
      TaskStep ⟨some task, es⟩
        ⟨some (blockReplay task reason now'), e :: .accepted lease.token now :: es⟩
  | finishOrRetry {task : Task} {es : List TaskEntry} {lease : TaskLease} {now : Instant}
      (hold : Holds task lease now false) (error : String) (retryable : Bool)
      (wait now' : Instant) :
      TaskStep ⟨some task, es⟩ ⟨some (finishOrRetry task error retryable wait now now'), es⟩
  | mcpEvent {task : Task} {es : List TaskEntry} {lease : TaskLease} {now : Instant}
      (hold : mayRecord task (some lease) now) (eventType : String) (tool : RegisteredTool)
      (payload : JsonObject) (progress : Option ℤ) :
      TaskStep ⟨some task, es⟩ ⟨some (withMcpEvent task eventType tool payload progress), es⟩
  | recover {task : Task} {es : List TaskEntry} {now : Instant} (h : Abandoned task now) :
      TaskStep ⟨some task, es⟩ ⟨some (recoverTask task now), es⟩
  | cancel {task task' : Task} {es : List TaskEntry} {now : Instant}
      (h : cancelTask task now = .ok task') : TaskStep ⟨some task, es⟩ ⟨some task', es⟩
  | update {task task' : Task} {es : List TaskEntry} {payload : TaskUpdate} {now : Instant}
      (h : updateTask task payload now = .ok task') : TaskStep ⟨some task, es⟩ ⟨some task', es⟩

/-- A task stands still, is inserted or takes one step. -/
def Advances (v v' : TaskView) : Prop := v' = v ∨ TaskStep v v'

/-- A task stands still or an existing one takes one step. -/
def Moves (v v' : TaskView) : Prop := v' = v ∨ (v.row ≠ none ∧ TaskStep v v')

theorem Moves.advances {v v' : TaskView} (h : Moves v v') : Advances v v' := h.imp_right And.right

/-- A task stands still, or it is the given one, exists and takes one step. -/
def MovesAt (taskId id : UUID) (v v' : TaskView) : Prop :=
  v' = v ∨ (taskId = id ∧ v.row ≠ none ∧ TaskStep v v')

theorem MovesAt.moves {taskId id : UUID} {v v' : TaskView} (h : MovesAt taskId id v v') :
    Moves v v' := h.imp_right And.right

theorem MovesAt.eq_of_ne {taskId id : UUID} {v v' : TaskView} (h : MovesAt taskId id v v')
    (hne : taskId ≠ id) : v' = v := h.resolve_right fun hs => hne hs.1

/-! ### Identity -/

@[simp] theorem id_recordEvent (task : Task) (eventType : String) (data : JsonObject)
    (now : Instant) : (recordEvent task eventType data now).id = task.id := rfl

@[simp] theorem id_succeed (task : Task) (payload : JsonObject) (parts : List String)
    (conversationId : UUID) (now : Instant) :
    (succeed task payload parts conversationId now).id = task.id := rfl

@[simp] theorem id_blockReplay (task : Task) (reason : String) (now : Instant) :
    (blockReplay task reason now).id = task.id := rfl

@[simp] theorem id_withMcpEvent (task : Task) (eventType : String) (tool : RegisteredTool)
    (payload : JsonObject) (progress : Option ℤ) :
    (withMcpEvent task eventType tool payload progress).id = task.id := rfl

@[simp] theorem id_finishOrRetry (task : Task) (error : String) (retryable : Bool)
    (wait now now' : Instant) :
    (finishOrRetry task error retryable wait now now').id = task.id := by
  simp only [finishOrRetry]
  split_ifs <;> rfl

theorem id_heartbeat {runner : AgentTaskRunner} {task task' : Task} {now : Instant}
    (h : runner.heartbeat task now = some task') : task'.id = task.id := by
  obtain ⟨deadline, -, rfl⟩ := Option.map_eq_some_iff.mp h
  rfl

theorem id_cancelTask {task task' : Task} {now : Instant} (h : cancelTask task now = .ok task') :
    task'.id = task.id := by
  obtain ⟨-, rfl⟩ := cancelTask_eq_ok h
  rfl

/-- Columns that no step of a task writes. -/
structure Frame (task task' : Task) : Prop where
  kind : task'.kind = task.kind
  scheduleId : task'.scheduleId = task.scheduleId
  maxAttempts : task'.maxAttempts = task.maxAttempts
  timeoutSeconds : task'.timeoutSeconds = task.timeoutSeconds

theorem Frame.refl (task : Task) : Frame task task := ⟨rfl, rfl, rfl, rfl⟩

theorem updateTask_eq_ok {task task' : Task} {payload : TaskUpdate} {now : Instant}
    (h : updateTask task payload now = .ok task') :
    task.kind ≠ .agent ∧ task'.id = task.id ∧ Frame task task' := by
  refine ⟨kind_of_updateTask h, ?_⟩
  unfold updateTask at h
  rw [if_neg (kind_of_updateTask h)] at h
  cases hs : payload.status with
  | none =>
    simp only [hs, bind, Except.bind, Except.ok.injEq] at h
    subst h
    exact ⟨rfl, rfl, rfl, rfl, rfl⟩
  | some next =>
    simp only [hs, bind, Except.bind] at h
    cases hv : validateTaskTransition task next with
    | error e => simp [hv] at h
    | ok u =>
      simp only [hv, Except.ok.injEq] at h
      subst h
      exact ⟨rfl, rfl, rfl, rfl, rfl⟩

theorem TaskStep.frame {task : Task} {es : List TaskEntry} {v : TaskView}
    (h : TaskStep ⟨some task, es⟩ v) :
    ∃ task' new, v = ⟨some task', new ++ es⟩ ∧ Frame task task' := by
  cases h with
  | claim h fresh =>
    obtain ⟨-, -, -, rfl, -, -⟩ := AgentTaskRunner.claim_eq_started h
    exact ⟨_, [_], rfl, rfl, rfl, rfl, rfl⟩
  | claimFailed h =>
    obtain ⟨-, -, error, rfl⟩ := AgentTaskRunner.claim_eq_failed h
    exact ⟨_, [], rfl, rfl, rfl, rfl, rfl⟩
  | heartbeat hold h =>
    obtain ⟨deadline, -, rfl⟩ := Option.map_eq_some_iff.mp h
    exact ⟨_, [_], rfl, rfl, rfl, rfl, rfl⟩
  | recordEvent hold eventType data now' => exact ⟨_, [_], rfl, rfl, rfl, rfl, rfl⟩
  | succeed hold donePayload answerParts conversationId now' =>
    exact ⟨_, [_], rfl, rfl, rfl, rfl, rfl⟩
  | checked hold => exact ⟨_, [_], rfl, .refl task⟩
  | effect hold reason now' h => exact ⟨_, [_, _], rfl, rfl, rfl, rfl, rfl⟩
  | finishOrRetry hold error retryable wait now' =>
    refine ⟨_, [], rfl, ?_⟩
    simp only [AgentDemo.finishOrRetry]
    split_ifs <;> exact ⟨rfl, rfl, rfl, rfl⟩
  | mcpEvent hold eventType tool payload progress => exact ⟨_, [], rfl, rfl, rfl, rfl, rfl⟩
  | recover h =>
    refine ⟨_, [], rfl, ?_⟩
    unfold recoverTask
    split_ifs <;> exact ⟨rfl, rfl, rfl, rfl⟩
  | cancel h =>
    obtain ⟨-, rfl⟩ := cancelTask_eq_ok h
    exact ⟨_, [], rfl, rfl, rfl, rfl, rfl⟩
  | update h => exact ⟨_, [], rfl, (updateTask_eq_ok h).2.2⟩

/-! ### Creation -/

theorem inserted_agentTask (env : Environment) (payload : AgentTaskCreate) (userId id : UUID)
    (now now' : Instant) : Inserted (agentTask env payload userId id now now') :=
  ⟨rfl, rfl, rfl, rfl, rfl, rfl, rfl, lt_of_lt_of_le (by decide) payload.timeout_range.1,
    fun _ => rfl⟩

theorem inserted_buildScheduledTask (schedule : TaskSchedule) (id : UUID) (occurrence : Instant)
    (manualKey : Option UUID) (createdAt : Instant) :
    Inserted (buildScheduledTask schedule id occurrence manualKey createdAt) :=
  ⟨rfl, rfl, rfl, rfl, rfl, rfl, rfl, by simp [buildScheduledTask], fun h => absurd rfl h⟩

theorem inserted_createTask {tasks tasks' : Table Task} {conversations : Table Conversation}
    {payload : TaskCreate} {userId id : UUID} {now : Instant}
    (h : createTask tasks conversations payload userId id now = .ok tasks') :
    tasks.Extends (fun task => Inserted task ∧ task.scheduleId = none) tasks' := by
  unfold createTask at h
  split_ifs at h
  split at h
  next hi =>
    cases Except.ok.inj h
    exact .of_insert? (insertTask_eq_some hi).2
      ⟨⟨rfl, rfl, rfl, rfl, rfl, rfl, rfl, by simp [newTask], fun _ => rfl⟩, rfl⟩
  next => cases h

theorem inserted_createAgentTask {env : Environment} {before tasks tasks' : Table Task}
    {conversations : Table Conversation} {payload : AgentTaskCreate} {userId id : UUID}
    {now now' : Instant} {task : Task}
    (h : createAgentTask env before tasks conversations payload userId id now now' =
      .ok (tasks', task)) :
    tasks.Extends (fun task => Inserted task ∧ task.scheduleId = none) tasks' := by
  rcases createAgentTask_eq_ok h with rfl | ⟨rfl, hi⟩
  · exact .refl _
  · exact .of_insert? (insertTask_eq_some hi).2 ⟨inserted_agentTask .., rfl⟩

theorem inserted_dispatchSchedule {env : Environment} {tasks tasks' : Table Task}
    {schedule schedule' : TaskSchedule} {id : UUID} {now createdAt : Instant}
    {run : Option QueuedRun}
    (h : dispatchSchedule env tasks schedule id now createdAt = .ok (tasks', schedule', run)) :
    tasks.Extends Inserted tasks' := by
  rcases dispatchSchedule_eq_ok h with ⟨e, -, rfl, -, -⟩ | ⟨o, n, st, -, -, rfl, -, -⟩ |
    ⟨o, n, -, -, -, hi, -, -⟩
  · exact .refl _
  · exact .refl _
  · exact .of_insert? (insertTask_eq_some hi).2 (inserted_buildScheduledTask ..)

theorem inserted_dispatchLoop {env : Environment} {ids : UUID → UUID} {now createdAt : Instant}
    {due : List TaskSchedule} {batch batch' : Batch}
    (h : dispatchLoop env ids now createdAt due batch = .ok batch') :
    batch.tasks.Extends Inserted batch'.tasks := by
  induction due generalizing batch with
  | nil =>
    cases Except.ok.inj h
    exact .refl _
  | cons schedule rest ih =>
    unfold dispatchLoop at h
    split at h
    next => cases h
    next hs => exact (inserted_dispatchSchedule hs).trans (ih h)

theorem inserted_runTaskScheduleNow {tasks tasks' : Table Task}
    {schedules schedules' : Table TaskSchedule} {schedule : TaskSchedule} {id manualKey : UUID}
    {now now' : Instant} {task : Task}
    (h : runTaskScheduleNow tasks schedules schedule id manualKey now now' =
      .ok (task, some (tasks', schedules'))) :
    tasks.Extends Inserted tasks' :=
  .of_insert? (insertTask_eq_some (runTaskScheduleNow_eq_ok h).2.1).2
    (inserted_buildScheduledTask ..)

/-! ### A step of the system seen by one task -/

namespace World

@[simp] theorem entries_log (w : World) (taskId id : UUID) (es : List TaskEntry) :
    (w.log taskId es).entries id = if taskId = id then es ++ w.entries id else w.entries id := by
  by_cases h : taskId = id <;>
    simp [log, entries, List.filterMap_append, List.filterMap_map, h]

theorem view_write (w : World) (task : Task) (id : UUID) :
    (w.write task).view id =
      ⟨if task.id = id then (w.tasks.get? id).map fun _ => task else w.tasks.get? id,
        w.entries id⟩ := by
  simp only [view, write, Table.get?_write, key_task]
  rfl

theorem moves_write {w : World} {task task' : Task} {taskId : UUID} (es : List TaskEntry)
    (hget : w.tasks.get? taskId = some task)
    (hs : TaskStep ⟨some task, w.entries taskId⟩ ⟨some task', es ++ w.entries taskId⟩)
    (hid : task'.id = taskId) (id : UUID) :
    MovesAt taskId id (w.view id) (((w.write task').log taskId es).view id) := by
  have hrow : ((w.write task').log taskId es).view id =
      ⟨((w.write task').view id).row,
        if taskId = id then es ++ w.entries id else w.entries id⟩ := by
    simp only [view, entries_log]
    rfl
  rw [hrow, view_write]
  by_cases h : taskId = id
  · subst h
    rw [if_pos hid, if_pos rfl, hget]
    exact Or.inr ⟨rfl, by simp [view, hget], by simpa [view, hget] using hs⟩
  · rw [if_neg (by rwa [hid]), if_neg h]
    exact Or.inl rfl

theorem moves_log {w : World} {task : Task} {taskId : UUID} (es : List TaskEntry)
    (hget : w.tasks.get? taskId = some task)
    (hs : TaskStep ⟨some task, w.entries taskId⟩ ⟨some task, es ++ w.entries taskId⟩) (id : UUID) :
    MovesAt taskId id (w.view id) ((w.log taskId es).view id) := by
  simp only [view, entries_log]
  by_cases h : taskId = id
  · subst h
    rw [if_pos rfl]
    rw [show (w.log taskId es).tasks = w.tasks from rfl, hget]
    exact Or.inr ⟨rfl, (fun heq => by cases heq), hs⟩
  · rw [if_neg h]
    exact Or.inl rfl

theorem advances_extends {w : World} {tasks : Table Task} (h : w.tasks.Extends Inserted tasks)
    (id : UUID) : Advances (w.view id) ⟨tasks.get? id, w.entries id⟩ := by
  rcases h id with heq | ⟨hnone, task, hi, hsome⟩
  · exact Or.inl (by rw [heq]; rfl)
  · refine Or.inr ?_
    rw [hsome]
    simpa [view, hnone] using TaskStep.insert hi

theorem moves_underLease {w : World} {lease : TaskLease} {now : Instant} {live : Bool}
    {k : Task → World} {id : UUID}
    (h : ∀ task, w.tasks.get? lease.taskId = some task → Holds task lease now live →
      MovesAt lease.taskId id (w.view id) ((k task).view id)) :
    MovesAt lease.taskId id (w.view id) ((w.underLease lease now live k).view id) := by
  unfold underLease
  cases hl : lockTaskLease w.tasks (some lease) now live with
  | error e => exact Or.inl rfl
  | ok r =>
    obtain ⟨task, rfl, hget, hold⟩ := lockTaskLease_eq_ok hl
    exact h task hget hold

theorem moves_work (w : World) (runner : AgentTaskRunner) (lease : TaskLease)
    (now now' : Instant) (action : WorkerAction) (id : UUID) :
    MovesAt lease.taskId id (w.view id) ((w.work runner lease now now' action).view id) := by
  cases action with
  | heartbeat =>
    refine moves_underLease fun task hget hold => ?_
    cases hb : runner.heartbeat task now' with
    | none => exact Or.inl rfl
    | some task' =>
      exact moves_write [.accepted lease.token now] hget (.heartbeat hold hb)
        ((id_heartbeat hb).trans hold.id) id
  | recordEvent eventType data =>
    refine moves_underLease fun task hget hold => ?_
    exact moves_write [.accepted lease.token now] hget (.recordEvent hold eventType data now')
      hold.id id
  | succeed donePayload answerParts conversationId =>
    refine moves_underLease fun task hget hold => ?_
    exact moves_write [.accepted lease.token now] hget
      (.succeed hold donePayload answerParts conversationId now') hold.id id
  | finishOrRetry error retryable wait =>
    refine moves_underLease fun task hget hold => ?_
    exact moves_write [] hget (.finishOrRetry hold error retryable wait now')
      ((id_finishOrRetry ..).trans hold.id) id
  | dispatchTool tool =>
    simp only [work]
    split
    next task' hb =>
      obtain ⟨task, hget, hold, rfl⟩ := barrier_eq_some hb
      exact moves_write [.dispatched lease.token tool.manifest.name, .accepted lease.token now]
        hget (.effect hold _ now' (.dispatched tool.manifest.name)) hold.id id
    next => exact Or.inl rfl
  | recordMcpTaskEvent eventType tool payload progress =>
    simp only [work]
    split
    next task' hm =>
      obtain ⟨task, hget, hold, rfl⟩ := recordMcpTaskEvent_eq_some hm
      exact moves_write [] hget (.mcpEvent hold eventType tool payload progress)
        (Table.get?_eq_some.mp hget).2 id
    next => exact Or.inl rfl
  | saveMessage message =>
    simp only [work]
    cases hs : AgentDemo.saveMessage w.tasks w.messages (some lease) message now now' with
    | error e => exact Or.inl rfl
    | ok r =>
      obtain ⟨task, hget, hold, hr⟩ := saveMessage_eq_ok hs
      cases hr with
      | nothing found => exact moves_log [.accepted lease.token now] hget (.checked hold) id
      | other missing role =>
        cases hm : w.messages.insert? (message.ofTask task.id) with
        | none => exact Or.inl (by simp only [hm])
        | some messages =>
          simp only [hm]
          exact moves_log [.accepted lease.token now] hget (.checked hold) id
      | answer missing role =>
        cases hm : w.messages.insert? (message.ofTask task.id) with
        | none => exact Or.inl (by simp only [hm])
        | some messages =>
          simp only [hm]
          exact moves_write [.answered lease.token, .accepted lease.token now] hget
            (.effect hold _ now' .answered) hold.id id
  | autoTitle conversation title =>
    simp only [work]
    cases ha : autoTitleConversation w.tasks (some lease) conversation title now with
    | error e => exact Or.inl rfl
    | ok c =>
      obtain ⟨task, hget, hold⟩ := holds_of_autoTitleConversation ha
      exact moves_log [.accepted lease.token now] hget (.checked hold) id

theorem claimed_mem_leases {w : World} {taskId token : UUID} {timeout at' : Instant}
    (h : .claimed token timeout at' ∈ w.entries taskId) : ⟨taskId, token⟩ ∈ w.leases := by
  obtain ⟨⟨id, e⟩, hmem, he⟩ := List.mem_filterMap.mp h
  split_ifs at he with hid
  obtain rfl := Option.some.inj he
  exact List.mem_filterMap.mpr ⟨_, hmem, by simp at hid; simp [hid]⟩

theorem moves_claim (w : World) (runner : AgentTaskRunner) (taskId conversationId token : UUID)
    (now now' : Instant) (hfresh : ∀ lease ∈ w.leases, lease.token ≠ token) (id : UUID) :
    MovesAt taskId id (w.view id)
      ((w.claim runner taskId conversationId token now now').view id) := by
  have fresh (timeout at' : Instant) : .claimed token timeout at' ∉ w.entries taskId :=
    fun h => hfresh _ (claimed_mem_leases h) rfl
  unfold claim
  cases hget : w.tasks.get? taskId with
  | none => exact Or.inl rfl
  | some task =>
    have hid := (Table.get?_eq_some.mp hget).2
    simp only
    cases hc : runner.claim task conversationId token now now' with
    | skipped => exact Or.inl rfl
    | deferred at' => exact Or.inl rfl
    | failed task' =>
      obtain ⟨-, -, error, rfl⟩ := AgentTaskRunner.claim_eq_failed hc
      exact moves_write [] hget (.claimFailed hc) hid id
    | started task' lease timeout conversation =>
      have hstep := TaskStep.claim hc fresh
      obtain ⟨-, -, -, rfl, rfl, -⟩ := AgentTaskRunner.claim_eq_started hc
      cases conversation with
      | none => exact moves_write [.claimed token timeout now] hget hstep hid id
      | some conversation =>
        cases hi : w.conversations.insert? conversation with
        | none => exact Or.inl (by simp only [hi])
        | some conversations =>
          simp only [hi]
          exact moves_write [.claimed token timeout now] hget hstep hid id

/-- Events that create no task. -/
def Event.Creates : Event → Prop
  | .createTask .. | .createAgentTask .. | .runTaskScheduleNow .. | .dispatchDueSchedules .. => True
  | _ => False

theorem moves_apply (env : Environment) (w : World) (now now' : Instant) {event : Event}
    (hallowed : w.Allowed event) (hevent : ¬ Event.Creates event) (id : UUID) :
    Moves (w.view id) ((w.apply env now now' event).view id) := by
  cases event with
  | idle => exact Or.inl rfl
  | createTask userId id' payload => exact absurd trivial hevent
  | createAgentTask userId id' payload before => exact absurd trivial hevent
  | runTaskScheduleNow userId scheduleId id' manualKey => exact absurd trivial hevent
  | dispatchDueSchedules time ids locked => exact absurd trivial hevent
  | updateTask userId taskId payload =>
    simp only [apply]
    cases hget : getOwnedTask w.tasks taskId userId with
    | none => exact Or.inl rfl
    | some task =>
      have hget := (Option.filter_eq_some_iff.mp hget).1
      simp only
      cases h : updateTask task payload now with
      | error e => exact Or.inl rfl
      | ok task' =>
        exact (moves_write [] hget (.update h)
          ((updateTask_eq_ok h).2.1.trans (Table.get?_eq_some.mp hget).2) id).moves
  | cancelTask userId taskId =>
    simp only [apply]
    cases hget : getOwnedTask w.tasks taskId userId with
    | none => exact Or.inl rfl
    | some task =>
      have hget := (Option.filter_eq_some_iff.mp hget).1
      simp only
      cases h : cancelTask task now with
      | error e => exact Or.inl rfl
      | ok task' =>
        exact (moves_write [] hget (.cancel h)
          ((id_cancelTask h).trans (Table.get?_eq_some.mp hget).2) id).moves
  | createTaskSchedule userId id' payload =>
    simp only [apply]
    split <;> exact Or.inl rfl
  | updateTaskSchedule userId scheduleId payload =>
    simp only [apply]
    split
    · exact Or.inl rfl
    · split <;> exact Or.inl rfl
  | recoverStaleRunningTasks time locked =>
    rcases get?_recoverStaleRunningTasks w.tasks time locked id with heq | ⟨task, hget, hab, hrec⟩
    · exact Or.inl (by simp only [view, apply, heq]; rfl)
    · refine Or.inr ⟨by simp [view, hget], ?_⟩
      simp only [view, apply, hget, hrec]
      exact .recover hab
  | claim runner taskId conversationId token =>
    exact (moves_claim w runner taskId conversationId token now now' hallowed id).moves
  | worker runner lease action => exact (moves_work w runner lease now now' action id).moves

theorem advances_apply (env : Environment) (w : World) (now now' : Instant) (event : Event)
    (hallowed : w.Allowed event) (id : UUID) :
    Advances (w.view id) ((w.apply env now now' event).view id) := by
  cases event with
  | createTask userId id' payload =>
    simp only [apply]
    cases h : createTask w.tasks w.conversations payload userId id' now with
    | error e => exact Or.inl rfl
    | ok tasks => exact advances_extends ((inserted_createTask h).imp fun _ => And.left) id
  | createAgentTask userId id' payload before =>
    simp only [apply]
    cases h : createAgentTask env before w.tasks w.conversations payload userId id' now now' with
    | error e => exact Or.inl rfl
    | ok r => exact advances_extends ((inserted_createAgentTask h).imp fun _ => And.left) id
  | runTaskScheduleNow userId scheduleId id' manualKey =>
    simp only [apply]
    split
    · exact Or.inl rfl
    · split
      next h => exact advances_extends (inserted_runTaskScheduleNow h) id
      next => exact Or.inl rfl
  | dispatchDueSchedules time ids locked =>
    simp only [apply]
    cases h : AgentDemo.dispatchDueSchedules env w.tasks w.schedules ids locked time now with
    | error e => exact Or.inl rfl
    | ok batch => exact advances_extends (inserted_dispatchLoop h) id
  | _ => exact (moves_apply env w now now' hallowed nofun id).advances

theorem step_eq_some {env : Environment} {w w' : World} {a : Action}
    (h : step env w a = some w') :
    w.clock ≤ a.now ∧ a.now ≤ a.now' ∧ w.Allowed a.event ∧
      w' = { w.apply env a.now a.now' a.event with clock := a.now' } := by
  unfold step at h
  split_ifs at h with hg
  exact ⟨hg.1, hg.2.1, hg.2.2, (Option.some.inj h).symm⟩

/-- Every step of the system moves every task by at most one of its own steps. -/
theorem advances_step {env : Environment} {w w' : World} {a : Action}
    (h : step env w a = some w') (id : UUID) : Advances (w.view id) (w'.view id) := by
  obtain ⟨-, -, hallowed, rfl⟩ := step_eq_some h
  exact advances_apply env w a.now a.now' a.event hallowed id

/-- An invariant of single tasks holds of every task in every reachable state. -/
theorem Reachable.view_invariant {env : Environment} {I : TaskView → Prop} {w : World}
    (hw : Reachable env w) (h0 : I ⟨none, []⟩) (hstep : ∀ v v', I v → TaskStep v v' → I v')
    (id : UUID) : I (w.view id) := by
  obtain ⟨conversations, clock, hrun⟩ := hw
  have h (u : World) (a : Action) (v : World) (hu : I (u.view id)) (hv : step env u a = some v) :
      I (v.view id) := by
    rcases advances_step hv id with heq | hs
    · rwa [heq]
    · exact hstep _ _ hu hs
  exact hrun.invariant h0 h

theorem Reachable.later {env : Environment} {w w' : World} (hw : Reachable env w)
    (h : Later env w w') : Reachable env w' := by
  obtain ⟨conversations, clock, hrun⟩ := hw
  exact ⟨conversations, clock, hrun.trans h⟩

/-- A property of the row and the history of an agent task, when there is one. -/
def OnAgentTask (P : Task → List TaskEntry → Prop) (v : TaskView) : Prop :=
  ∀ task, v.row = some task → task.kind = .agent → P task v.entries

/-- The induction rule for agent tasks: creation establishes the property with an empty
history, and every step of an agent task keeps it. -/
theorem Reachable.onAgentTask {env : Environment} {P : Task → List TaskEntry → Prop} {w : World}
    (hw : Reachable env w) (hinsert : ∀ task, Inserted task → P task [])
    (hstep : ∀ task es task' es', P task es → task.kind = .agent →
      TaskStep ⟨some task, es⟩ ⟨some task', es'⟩ → P task' es') (id : UUID) :
    OnAgentTask P (w.view id) := by
  have hboth := hw.view_invariant (I := fun v => (v.row = none → v.entries = []) ∧ OnAgentTask P v)
    ⟨fun _ => rfl, fun _ h => nomatch h⟩ ?_ id
  · exact hboth.2
  rintro ⟨row, es⟩ v' ⟨hnone, hP⟩ hs
  cases row with
  | none =>
    cases hs with
    | insert hi =>
      refine ⟨fun h => (by cases h), fun task' hrow hk => ?_⟩
      cases hrow
      rw [show es = [] from hnone rfl]
      exact hinsert _ hi
  | some task =>
    obtain ⟨task', new, rfl, hframe⟩ := hs.frame
    refine ⟨fun h => (by cases h), fun task'' hrow hk => ?_⟩
    cases hrow
    have hk : task.kind = .agent := hframe.kind.symm.trans hk
    exact hstep task es task' _ (hP task rfl hk) hk hs

theorem mem_rows_iff {w : World} {task : Task} :
    task ∈ w.tasks.rows ↔ w.tasks.get? task.id = some task := by
  refine ⟨fun h => Table.get?_eq_some.mpr ⟨h, rfl⟩, fun h => (Table.get?_eq_some.mp h).1⟩

/-- What the steps of an agent task preserve, given an invariant `J` of agent tasks, lasts until
any later state; an agent task never disappears. -/
theorem Reachable.persists {env : Environment} {P J : Task → List TaskEntry → Prop} {w w' : World}
    (hw : Reachable env w) (h : Later env w w') {task : Task} (hmem : task ∈ w.tasks.rows)
    (hk : task.kind = .agent) (hJ : ∀ u, Reachable env u → OnAgentTask J (u.view task.id))
    (h0 : P task (w.entries task.id))
    (hstep : ∀ task es task' es', J task es → P task es → task.kind = .agent →
      TaskStep ⟨some task, es⟩ ⟨some task', es'⟩ → P task' es') :
    ∃ task', w'.tasks.get? task.id = some task' ∧ task'.kind = .agent ∧
      P task' (w'.entries task.id) := by
  have hs (u : World) (a : Action) (v : World) (hj : OnAgentTask J (u.view task.id))
      (hu : ∃ t, (u.view task.id).row = some t ∧ t.kind = .agent ∧ P t (u.view task.id).entries)
      (hv : step env u a = some v) :
      ∃ t, (v.view task.id).row = some t ∧ t.kind = .agent ∧ P t (v.view task.id).entries := by
    rcases advances_step hv task.id with heq | hts
    · rwa [heq]
    · obtain ⟨t, hrow, hkt, hP⟩ := hu
      have hview : u.view task.id = ⟨some t, u.entries task.id⟩ := by rw [← hrow]; rfl
      rw [hview] at hts hP
      obtain ⟨t', new, hv', hframe⟩ := hts.frame
      rw [hv'] at hts ⊢
      exact ⟨t', rfl, hframe.kind.trans hkt, hstep t _ t' _ (hj t hrow hkt) hP hkt hts⟩
  exact Transition.Reaches.invariant_of (I := fun u => ∃ t, (u.view task.id).row = some t ∧
      t.kind = .agent ∧ P t (u.view task.id).entries)
    (J := fun u => OnAgentTask J (u.view task.id)) h (fun u hu => hJ u (hw.later hu))
    ⟨task, mem_rows_iff.mp hmem, hk, h0⟩ hs

end World

end AgentDemo
