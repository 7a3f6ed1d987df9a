import AgentDemo.Api.Conversations
import AgentDemo.Api.TaskSchedules
import AgentDemo.Library.TableFilter

/-! The routes on the rows of their own user. -/
namespace AgentDemo

def ownTask (userId : UUID) (task : Task) : Bool := task.userId = some userId

def ownSchedule (userId : UUID) (schedule : TaskSchedule) : Bool := schedule.userId = userId

def ownConversation (userId : UUID) (conversation : Conversation) : Bool :=
  conversation.userId = some userId

variable {env : Environment} {tasks : Table Task} {schedules : Table TaskSchedule}
  {conversations : Table Conversation} {u : UUID}

@[simp] theorem ownTask_iff {task : Task} : ownTask u task = true ↔ task.userId = some u := by
  simp [ownTask]

@[simp] theorem ownSchedule_iff {schedule : TaskSchedule} :
    ownSchedule u schedule = true ↔ schedule.userId = u := by
  simp [ownSchedule]

@[simp] theorem ownConversation_iff {conversation : Conversation} :
    ownConversation u conversation = true ↔ conversation.userId = some u := by
  simp [ownConversation]

/-! ### Look-ups -/

theorem getOwnedTask_own (id : UUID) :
    getOwnedTask (tasks.filter (ownTask u)) id u = getOwnedTask tasks id u := by
  unfold getOwnedTask
  rw [Table.get?_filter, Option.filter_filter]
  congr 1
  funext task
  simp [ownTask]

theorem getOwnedSchedule_own (id : UUID) :
    getOwnedSchedule (schedules.filter (ownSchedule u)) id u = getOwnedSchedule schedules id u := by
  unfold getOwnedSchedule
  rw [Table.get?_filter, Option.filter_filter]
  congr 1
  funext schedule
  simp [ownSchedule]

theorem getOwnedConversation_own (id : UUID) :
    getOwnedConversation (conversations.filter (ownConversation u)) id u =
      getOwnedConversation conversations id u := by
  unfold getOwnedConversation
  rw [Table.get?_filter, Option.filter_filter]
  congr 1
  funext conversation
  simp [ownConversation]

theorem getTaskByIdempotencyKey_own (key : String) :
    getTaskByIdempotencyKey (tasks.filter (ownTask u)) u key =
      getTaskByIdempotencyKey tasks u key := by
  unfold getTaskByIdempotencyKey
  rw [Table.rows_filter, List.find?_filter]
  congr 1
  funext task
  by_cases h : task.userId = some u <;> simp [ownTask, h]

theorem activeScheduleTask_own {scheduleId : UUID}
    (h : ∀ task ∈ tasks.rows, task.scheduleId = some scheduleId → task.userId = some u) :
    activeScheduleTask (tasks.filter (ownTask u)) scheduleId =
      activeScheduleTask tasks scheduleId := by
  unfold activeScheduleTask
  rw [Table.rows_filter, List.filter_filter]
  congr 2
  refine List.filter_congr fun task hmem => ?_
  by_cases hs : task.scheduleId = some scheduleId
  · simp [ownTask, h task hmem hs]
  · simp [hs]

/-! ### Writes -/

/-- The unique constraint compares a task with tasks of its own user only. -/
theorem insertTask_own {task : Task} (hfresh : tasks.get? task.id = none)
    (hown : task.userId = some u) :
    insertTask (tasks.filter (ownTask u)) task =
      (insertTask tasks task).map fun tasks' => tasks'.filter (ownTask u) := by
  have hsame : (∃ t ∈ (tasks.filter (ownTask u)).rows, SameKey t task) ↔
      ∃ t ∈ tasks.rows, SameKey t task := by
    constructor
    · rintro ⟨t, hmem, hkey⟩
      exact ⟨t, (Table.mem_filter.mp hmem).1, hkey⟩
    · rintro ⟨t, hmem, hkey⟩
      exact ⟨t, Table.mem_filter.mpr ⟨hmem, ownTask_iff.mpr (hkey.2.1.trans hown)⟩, hkey⟩
  unfold insertTask
  by_cases hclash : ∃ t ∈ tasks.rows, SameKey t task
  · rw [if_pos hclash, if_pos (hsame.mpr hclash)]
    rfl
  · rw [if_neg hclash, if_neg fun h => hclash (hsame.mp h)]
    exact Table.insert?_filter hfresh (ownTask_iff.mpr hown)

theorem createTask_own {payload : TaskCreate} {id : UUID} {now : Instant}
    (hfresh : tasks.get? id = none) :
    createTask (tasks.filter (ownTask u)) (conversations.filter (ownConversation u)) payload u id
        now =
      (createTask tasks conversations payload u id now).map fun tasks' =>
        tasks'.filter (ownTask u) := by
  unfold createTask
  simp only [getOwnedConversation_own]
  split_ifs
  · rw [insertTask_own hfresh rfl]
    split
    next h =>
      obtain ⟨tasks', hi, rfl⟩ := Option.map_eq_some_iff.mp h
      rw [hi]
      rfl
    next h =>
      rw [Option.map_eq_none_iff.mp h]
      rfl
  · rfl

theorem createTask_inserts {tasks' : Table Task} {payload : TaskCreate} {id : UUID} {now : Instant}
    (h : createTask tasks conversations payload u id now = .ok tasks') :
    ∃ task, insertTask tasks task = some tasks' ∧ task.id = id ∧ task.userId = some u := by
  unfold createTask at h
  split_ifs at h
  split at h
  next hi =>
    cases Except.ok.inj h
    exact ⟨_, hi, rfl, rfl⟩
  next => cases h

theorem firstLookUp_own {payload : AgentTaskCreate} :
    firstLookUp env (tasks.filter (ownTask u))
      (conversations.filter (ownConversation u)) payload u =
      firstLookUp env tasks conversations payload u := by
  unfold firstLookUp
  simp only [getOwnedConversation_own]
  congr 2
  cases payload.idempotencyKey with
  | none => rfl
  | some key => exact getTaskByIdempotencyKey_own key

theorem createAgentTask_own {before : Table Task} {payload : AgentTaskCreate} {id : UUID}
    {now now' : Instant} (hfresh : tasks.get? id = none) :
    createAgentTask env (before.filter (ownTask u)) (tasks.filter (ownTask u))
        (conversations.filter (ownConversation u)) payload u id now now' =
      (createAgentTask env before tasks conversations payload u id now now').map fun r =>
        (r.1.filter (ownTask u), r.2) := by
  unfold createAgentTask
  rw [firstLookUp_own]
  split
  next reply _ => cases reply <;> rfl
  next =>
    simp only [secondLookUp_rollback]
    rw [insertTask_own hfresh rfl]
    split
    next h =>
      obtain ⟨tasks', hi, rfl⟩ := Option.map_eq_some_iff.mp h
      rw [hi]
      rfl
    next h =>
      rw [Option.map_eq_none_iff.mp h]
      rfl

theorem createTaskSchedule_own {payload : TaskScheduleCreate} {id : UUID} {now : Instant}
    (hfresh : schedules.get? id = none) :
    createTaskSchedule env (schedules.filter (ownSchedule u))
        (conversations.filter (ownConversation u)) payload u id now =
      (createTaskSchedule env schedules conversations payload u id now).map fun schedules' =>
        schedules'.filter (ownSchedule u) := by
  have hinsert (schedule : TaskSchedule) (hid : schedule.id = id) (howner : schedule.userId = u) :
      (schedules.filter (ownSchedule u)).insert? schedule =
        (schedules.insert? schedule).map fun schedules' => schedules'.filter (ownSchedule u) :=
    Table.insert?_filter (by rw [key_taskSchedule, hid, hfresh]) (ownSchedule_iff.mpr howner)
  unfold createTaskSchedule
  simp only [getOwnedConversation_own]
  split_ifs
  · split
    next => rfl
    next =>
      rw [hinsert _ rfl rfl]
      split
      next h =>
        obtain ⟨schedules', hi, rfl⟩ := Option.map_eq_some_iff.mp h
        rw [hi]
        rfl
      next h =>
        rw [Option.map_eq_none_iff.mp h]
        rfl
  · rfl

theorem createTaskSchedule_inserts {schedules' : Table TaskSchedule} {payload : TaskScheduleCreate}
    {id : UUID} {now : Instant}
    (h : createTaskSchedule env schedules conversations payload u id now = .ok schedules') :
    ∃ schedule, schedules.insert? schedule = some schedules' ∧ schedule.id = id ∧
      schedule.userId = u := by
  unfold createTaskSchedule at h
  split_ifs at h
  simp only at h
  split at h
  next => cases h
  next =>
    split at h
    next hi =>
      cases Except.ok.inj h
      exact ⟨_, hi, rfl, rfl⟩
    next => cases h

theorem userId_updateTaskSchedule {schedule schedule' : TaskSchedule} {payload : TaskScheduleUpdate}
    {now now' : Instant} (h : updateTaskSchedule env schedule payload now now' = .ok schedule') :
    schedule'.userId = schedule.userId := by
  unfold updateTaskSchedule at h
  split at h
  · split at h
    · cases h
    · obtain rfl := Except.ok.inj h
      rfl
  · obtain rfl := Except.ok.inj h
    rfl

theorem runTaskScheduleNow_own {schedule : TaskSchedule} {id manualKey : UUID} {now now' : Instant}
    (hrow : schedules.get? schedule.id = some schedule) (howner : schedule.userId = u)
    (hlinked : ∀ task ∈ tasks.rows, task.scheduleId = some schedule.id → task.userId = some u)
    (hfresh : tasks.get? id = none) :
    runTaskScheduleNow (tasks.filter (ownTask u)) (schedules.filter (ownSchedule u)) schedule id
        manualKey now now' =
      (runTaskScheduleNow tasks schedules schedule id manualKey now now').map fun r =>
        (r.1, r.2.map fun p => (p.1.filter (ownTask u), p.2.filter (ownSchedule u))) := by
  have hwrite : (schedules.write (markRan schedule id now')).filter (ownSchedule u) =
      (schedules.filter (ownSchedule u)).write (markRan schedule id now') :=
    Table.filter_write hrow rfl
  unfold runTaskScheduleNow
  rw [activeScheduleTask_own hlinked]
  split
  next => rfl
  next =>
    simp only
    rw [insertTask_own hfresh (congrArg some howner), ← hwrite]
    cases insertTask tasks (buildScheduledTask schedule id now (some manualKey) now) <;> rfl

theorem createConversation_own {id : UUID} {title : String}
    (hfresh : conversations.get? id = none) :
    createConversation (conversations.filter (ownConversation u)) u id title =
      (createConversation conversations u id title).map fun conversations' =>
        conversations'.filter (ownConversation u) :=
  Table.insert?_filter hfresh (ownConversation_iff.mpr rfl)

theorem updateConversation_own {payload : ConversationUpdate} {id : UUID} :
    updateConversation (conversations.filter (ownConversation u)) payload u id =
      (updateConversation conversations payload u id).map fun conversations' =>
        conversations'.filter (ownConversation u) := by
  unfold updateConversation
  rw [getOwnedConversation_own]
  split
  next => rfl
  next conversation hget =>
    have hrow := (Option.filter_eq_some_iff.mp hget).1
    have hid : conversation.id = id := (Table.get?_eq_some.mp hrow).2
    have hrow : conversations.get? conversation.id = some conversation := hid.symm ▸ hrow
    exact congrArg Except.ok (Eq.symm (Table.filter_write hrow rfl))

end AgentDemo
