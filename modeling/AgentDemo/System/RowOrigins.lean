import AgentDemo.System.Schedules

/-! Where the row of an agent task comes from in one step, and whose conversation it names. -/
namespace AgentDemo

def OwnedBy (conversations : Table Conversation) (userId conversationId : Option UUID) : Prop :=
  ∀ c, conversationId = some c → (conversations.get? c).map Conversation.userId = some userId

theorem ownedBy_of_all {conversations : Table Conversation} {conversationId : Option UUID}
    {userId : UUID}
    (h : conversationId.all fun c => (getOwnedConversation conversations c userId).isSome) :
    OwnedBy conversations (some userId) conversationId := by
  rintro c rfl
  obtain ⟨conversation, hget⟩ := Option.isSome_iff_exists.mp (by simpa using h)
  obtain ⟨hrow, howner⟩ := Option.filter_eq_some_iff.mp hget
  rw [hrow, Option.map_some]
  exact congrArg some (by simpa using howner)

/-- A claim opens a conversation for a task that has none. -/
theorem conversation_of_started {runner : AgentTaskRunner} {task task' : Task}
    {conversationId token : UUID} {now now' timeout : Instant} {lease : TaskLease}
    {conversation : Option Conversation}
    (h : runner.claim task conversationId token now now' =
      .started task' lease timeout conversation) :
    (conversation = none → task.conversationId ≠ none) ∧ ∀ opened, conversation = some opened →
      opened = ⟨conversationId, task.userId, "New conversation"⟩ := by
  have started (h : AgentTaskRunner.claim.started runner task conversationId token now =
      .started task' lease timeout conversation) :
      conversation = if task.conversationId.isNone then
        some ⟨conversationId, task.userId, "New conversation"⟩ else none :=
    (ClaimResult.started.inj h).2.2.2.symm
  have hconversation : conversation = if task.conversationId.isNone then
      some ⟨conversationId, task.userId, "New conversation"⟩ else none := by
    unfold AgentTaskRunner.claim at h
    split_ifs at h
    split at h
    · cases h
    · split at h
      · split_ifs at h
        exact started h
      · exact started h
  rw [hconversation]
  cases htask : task.conversationId with
  | none => exact ⟨nofun, fun opened ho => (Option.some.inj ho).symm⟩
  | some c => exact ⟨fun _ => nofun, nofun⟩

inductive RowOrigin (w w' : World) (now now' : Instant) (event : Event) (task' : Task) : Prop where
  | kept (mem : task' ∈ w.tasks.rows)
  | created (queued : task'.status = .queued)
      (owned : OwnedBy w.conversations task'.userId task'.conversationId)
  | scheduled {schedule : TaskSchedule} (mem : schedule ∈ w.schedules.rows)
      (queued : task'.status = .queued) (user : task'.userId = some schedule.userId)
      (conversation : task'.conversationId = schedule.conversationId)
  | rewritten {task : Task} (mem : task ∈ w.tasks.rows) (kind : task.kind = .agent)
      (user : task'.userId = task.userId)
      (conversation : task'.conversationId = task.conversationId)
      (unsettled : task'.status ≠ .succeeded)
  | claimed {task : Task} {runner : AgentTaskRunner} {conversationId token : UUID}
      (mem : task ∈ w.tasks.rows) (kind : task.kind = .agent)
      (started : event = .claim runner task.id conversationId token)
      (row : task' = runner.startAttempt task conversationId token now)
      (opened : task.conversationId = none →
        w'.conversations.get? conversationId =
          some ⟨conversationId, task.userId, "New conversation"⟩)
  | succeeded {task : Task} {runner : AgentTaskRunner} {lease : TaskLease}
      {donePayload : JsonObject} {answerParts : List String} {conversationId : UUID}
      (mem : task ∈ w.tasks.rows) (kind : task.kind = .agent) (id : task.id = lease.taskId)
      (committed : event = .worker runner lease (.succeed donePayload answerParts conversationId))
      (row : task' = succeed task donePayload answerParts conversationId now')

theorem createTask_eq_ok {tasks tasks' : Table Task} {conversations : Table Conversation}
    {payload : TaskCreate} {userId id : UUID} {now : Instant}
    (h : createTask tasks conversations payload userId id now = .ok tasks') :
    ∃ task, insertTask tasks task = some tasks' ∧ task.kind = .manual := by
  unfold createTask at h
  split_ifs at h
  split at h
  next hi =>
    cases Except.ok.inj h
    exact ⟨_, hi, rfl⟩
  next => cases h

theorem all_of_createAgentTask {env : Environment} {before tasks : Table Task}
    {conversations : Table Conversation} {payload : AgentTaskCreate} {userId id : UUID}
    {now now' : Instant} {r : Table Task × Task}
    (h : createAgentTask env before tasks conversations payload userId id now now' = .ok r) :
    payload.conversationId.all fun c => (getOwnedConversation conversations c userId).isSome := by
  by_contra hnone
  unfold createAgentTask firstLookUp at h
  rw [if_neg hnone] at h
  cases h

/-- The tasks of a tick are those of schedules that are due. -/
theorem mem_of_dispatchLoop {env : Environment} {ids : UUID → UUID} {now createdAt : Instant}
    {due : List TaskSchedule} {batch batch' : Batch} {task : Task}
    (h : dispatchLoop env ids now createdAt due batch = .ok batch')
    (hmem : task ∈ batch'.tasks.rows) :
    task ∈ batch.tasks.rows ∨ ∃ schedule ∈ due, task.status = .queued ∧
      task.userId = some schedule.userId ∧ task.conversationId = schedule.conversationId := by
  induction due generalizing batch with
  | nil =>
    cases Except.ok.inj h
    exact Or.inl hmem
  | cons schedule rest ih =>
    unfold dispatchLoop at h
    split at h
    next => cases h
    next tasks schedule' run hs =>
      rcases ih h with hnew | ⟨later, hlater, hrow⟩
      · rcases dispatchSchedule_eq_ok hs with ⟨-, -, rfl, -⟩ | ⟨-, -, -, -, -, rfl, -⟩ |
          ⟨o, n, -, -, -, hi, -⟩
        · exact Or.inl hnew
        · exact Or.inl hnew
        · rcases (mem_of_insertTask hi).mp hnew with hold | rfl
          · exact Or.inl hold
          · exact Or.inr ⟨schedule, List.mem_cons_self, rfl, rfl, rfl⟩
      · exact Or.inr ⟨later, List.mem_cons_of_mem _ hlater, hrow⟩

namespace World

variable {env : Environment} {w w' : World} {now now' : Instant} {event : Event} {task' : Task}

theorem origin_of_write {task : Task} (hmem : task' ∈ (w.tasks.write task).rows)
    (hk : task'.kind = .agent) (h : task.kind = .agent → RowOrigin w w' now now' event task) :
    RowOrigin w w' now now' event task' := by
  rcases Table.mem_write hmem with rfl | hold
  · exact h hk
  · exact .kept hold

theorem status_finishOrRetry (task : Task) (error : String) (retryable : Bool)
    (wait now now' : Instant) :
    (finishOrRetry task error retryable wait now now').userId = task.userId ∧
      (finishOrRetry task error retryable wait now now').conversationId = task.conversationId ∧
      (finishOrRetry task error retryable wait now now').status ≠ .succeeded := by
  simp only [finishOrRetry]
  split_ifs <;> exact ⟨rfl, rfl, fun heq => by cases heq⟩

theorem status_recoverTask (task : Task) (now : Instant) :
    (recoverTask task now).kind = task.kind ∧ (recoverTask task now).userId = task.userId ∧
      (recoverTask task now).conversationId = task.conversationId ∧
      (recoverTask task now).status ≠ .succeeded := by
  unfold recoverTask
  split_ifs <;> exact ⟨rfl, rfl, rfl, fun heq => by cases heq⟩

theorem kind_finishOrRetry (task : Task) (error : String) (retryable : Bool)
    (wait now now' : Instant) :
    (finishOrRetry task error retryable wait now now').kind = task.kind := by
  simp only [finishOrRetry]
  split_ifs <;> rfl

/-- A row that a worker rewrites under its lease. -/
theorem origin_of_underLease {lease : TaskLease} {live : Bool} {k : Task → World}
    (hmem : task' ∈ (w.underLease lease now live k).tasks.rows)
    (h : ∀ task ∈ w.tasks.rows, Holds task lease now live → task' ∈ (k task).tasks.rows →
      RowOrigin w w' now now' event task') : RowOrigin w w' now now' event task' := by
  unfold underLease at hmem
  cases hl : lockTaskLease w.tasks (some lease) now live with
  | error e =>
    rw [hl] at hmem
    exact .kept hmem
  | ok r =>
    obtain ⟨task, rfl, hget, hold⟩ := lockTaskLease_eq_ok hl
    rw [hl] at hmem
    exact h task (Table.get?_eq_some.mp hget).1 hold hmem

theorem origin_work {runner : AgentTaskRunner} {lease : TaskLease} {action : WorkerAction}
    (hk : task'.kind = .agent) (hmem : task' ∈ (w.work runner lease now now' action).tasks.rows) :
    RowOrigin w w' now now' (.worker runner lease action) task' := by
  cases action with
  | heartbeat =>
    refine origin_of_underLease hmem fun task hrow hold hwrite => ?_
    cases hb : runner.heartbeat task now' with
    | none =>
      rw [hb] at hwrite
      exact .kept hwrite
    | some beaten =>
      rw [hb] at hwrite
      refine origin_of_write hwrite hk fun hkind => ?_
      obtain ⟨deadline, -, rfl⟩ := Option.map_eq_some_iff.mp hb
      exact .rewritten hrow hkind rfl rfl (by simp [hold.running])
  | recordEvent eventType data =>
    refine origin_of_underLease hmem fun task hrow hold hwrite => ?_
    refine origin_of_write hwrite hk fun hkind => ?_
    exact .rewritten hrow hkind rfl rfl (by simp [recordEvent, hold.running])
  | succeed donePayload answerParts conversationId =>
    refine origin_of_underLease hmem fun task hrow hold hwrite => ?_
    refine origin_of_write hwrite hk fun hkind => ?_
    exact .succeeded hrow hkind hold.id rfl rfl
  | finishOrRetry error retryable wait =>
    refine origin_of_underLease hmem fun task hrow hold hwrite => ?_
    refine origin_of_write hwrite hk fun hkind => ?_
    obtain ⟨huser, hconversation, hstatus⟩ :=
      status_finishOrRetry task error retryable wait now now'
    exact .rewritten hrow ((kind_finishOrRetry ..).symm.trans hkind) huser hconversation hstatus
  | dispatchTool tool =>
    simp only [work] at hmem
    split at hmem
    next blocked hb =>
      obtain ⟨task, hget, hold, rfl⟩ := barrier_eq_some hb
      refine origin_of_write hmem hk fun hkind => ?_
      exact .rewritten (Table.get?_eq_some.mp hget).1 hkind rfl rfl
        (by simp [blockReplay, hold.running])
    next => exact .kept hmem
  | recordMcpTaskEvent eventType tool payload progress =>
    simp only [work] at hmem
    split at hmem
    next recorded hm =>
      obtain ⟨task, hget, hmay, rfl⟩ := recordMcpTaskEvent_eq_some hm
      refine origin_of_write hmem hk fun hkind => ?_
      obtain ⟨⟨-, -, -, -, hrunning⟩, -⟩ := hmay hkind
      exact .rewritten (Table.get?_eq_some.mp hget).1 hkind rfl rfl
        (by simp [withMcpEvent, hrunning])
    next => exact .kept hmem
  | saveMessage message =>
    simp only [work] at hmem
    cases hs : saveMessage w.tasks w.messages (some lease) message now now' with
    | error e =>
      rw [hs] at hmem
      exact .kept hmem
    | ok r =>
      obtain ⟨task, hget, hold, hr⟩ := saveMessage_eq_ok hs
      rw [hs] at hmem
      cases hr with
      | nothing found => exact .kept hmem
      | other missing role =>
        cases hi : w.messages.insert? (message.ofTask task.id) with
        | none =>
          simp only [hi] at hmem
          exact .kept hmem
        | some messages =>
          simp only [hi] at hmem
          exact .kept hmem
      | answer missing role =>
        cases hi : w.messages.insert? (message.ofTask task.id) with
        | none =>
          simp only [hi] at hmem
          exact .kept hmem
        | some messages =>
          simp only [hi] at hmem
          refine origin_of_write hmem hk fun hkind => ?_
          exact .rewritten (Table.get?_eq_some.mp hget).1 hkind rfl rfl
            (by simp [blockReplay, hold.running])
  | autoTitle conversation title =>
    simp only [work] at hmem
    split at hmem <;> exact .kept hmem

theorem origin_claim {runner : AgentTaskRunner} {taskId conversationId token : UUID}
    (hk : task'.kind = .agent)
    (hmem : task' ∈ (w.claim runner taskId conversationId token now now').tasks.rows)
    (hw : w'.conversations = (w.claim runner taskId conversationId token now now').conversations) :
    RowOrigin w w' now now' (.claim runner taskId conversationId token) task' := by
  unfold claim at hmem hw
  cases hget : w.tasks.get? taskId with
  | none =>
    rw [hget] at hmem
    exact .kept hmem
  | some task =>
    obtain ⟨hrow, hid⟩ := Table.get?_eq_some.mp hget
    simp only [hget] at hmem hw
    cases hc : runner.claim task conversationId token now now' with
    | skipped =>
      rw [hc] at hmem
      exact .kept hmem
    | deferred at' =>
      rw [hc] at hmem
      exact .kept hmem
    | failed finished =>
      rw [hc] at hmem
      obtain ⟨-, -, error, rfl⟩ := AgentTaskRunner.claim_eq_failed hc
      refine origin_of_write hmem hk fun hkind => ?_
      exact .rewritten hrow hkind rfl rfl (by simp [finishFailed])
    | started attempted lease timeout conversation =>
      have hopen := conversation_of_started hc
      obtain ⟨-, -, -, rfl, rfl, -⟩ := AgentTaskRunner.claim_eq_started hc
      obtain rfl : task.id = taskId := hid
      simp only [hc] at hmem hw
      cases conversation with
      | none =>
        refine origin_of_write hmem hk fun hkind => ?_
        exact .claimed hrow hkind rfl rfl fun hnone => absurd (hopen.1 rfl) (by simp [hnone])
      | some conversation =>
        cases hi : w.conversations.insert? conversation with
        | none =>
          simp only [hi] at hmem
          exact .kept hmem
        | some conversations =>
          simp only [hi] at hmem hw
          have hinserted : w'.conversations.get? conversationId =
              some ⟨conversationId, task.userId, "New conversation"⟩ := by
            obtain rfl := hopen.2 conversation rfl
            have hrows : w'.conversations = conversations := hw
            rw [hrows, Table.get?_insert? hi]
            exact if_pos rfl
          refine origin_of_write hmem hk fun hkind => ?_
          exact .claimed hrow hkind rfl rfl fun _ => hinserted

theorem origin_apply (env : Environment) (w : World) (now now' : Instant) (event : Event)
    (hk : task'.kind = .agent) (hmem : task' ∈ (w.apply env now now' event).tasks.rows) :
    RowOrigin w (w.apply env now now' event) now now' event task' := by
  cases event with
  | idle => exact .kept hmem
  | createTask userId id payload =>
    simp only [apply] at hmem
    cases hc : createTask w.tasks w.conversations payload userId id now with
    | error e =>
      rw [hc] at hmem
      exact .kept hmem
    | ok tasks =>
      rw [hc] at hmem
      obtain ⟨task, hi, hkind⟩ := createTask_eq_ok hc
      rcases (mem_of_insertTask hi).mp hmem with hold | rfl
      · exact .kept hold
      · exact absurd hk (by simp [hkind])
  | createAgentTask userId id payload before =>
    simp only [apply] at hmem
    cases hc : createAgentTask env before w.tasks w.conversations payload userId id now now' with
    | error e =>
      rw [hc] at hmem
      exact .kept hmem
    | ok r =>
      rw [hc] at hmem
      rcases createAgentTask_eq_ok hc with heq | ⟨hrow, hi⟩
      · simp only [heq] at hmem
        exact .kept hmem
      · rcases (mem_of_insertTask hi).mp hmem with hold | rfl
        · exact .kept hold
        · rw [hrow]
          exact .created rfl (ownedBy_of_all (all_of_createAgentTask hc))
  | updateTask userId taskId payload =>
    simp only [apply] at hmem
    cases hget : getOwnedTask w.tasks taskId userId with
    | none =>
      rw [hget] at hmem
      exact .kept hmem
    | some task =>
      simp only [hget] at hmem
      cases hu : updateTask task payload now with
      | error e =>
        rw [hu] at hmem
        exact .kept hmem
      | ok updated =>
        rw [hu] at hmem
        obtain ⟨hne, -, hframe⟩ := updateTask_eq_ok hu
        exact origin_of_write hmem hk fun hkind => absurd (hframe.kind.symm.trans hkind) hne
  | cancelTask userId taskId =>
    simp only [apply] at hmem
    cases hget : getOwnedTask w.tasks taskId userId with
    | none =>
      rw [hget] at hmem
      exact .kept hmem
    | some task =>
      have hrow := (Table.get?_eq_some.mp (Option.filter_eq_some_iff.mp hget).1).1
      simp only [hget] at hmem
      cases hc : cancelTask task now with
      | error e =>
        rw [hc] at hmem
        exact .kept hmem
      | ok cancelled =>
        rw [hc] at hmem
        obtain ⟨-, rfl⟩ := cancelTask_eq_ok hc
        exact origin_of_write hmem hk fun hkind => .rewritten hrow hkind rfl rfl (by simp)
  | createTaskSchedule userId id payload =>
    simp only [apply] at hmem
    split at hmem <;> exact .kept hmem
  | updateTaskSchedule userId scheduleId payload =>
    simp only [apply] at hmem
    split at hmem
    · exact .kept hmem
    · split at hmem <;> exact .kept hmem
  | runTaskScheduleNow userId scheduleId id manualKey =>
    simp only [apply] at hmem
    cases hget : getOwnedSchedule w.schedules scheduleId userId with
    | none =>
      rw [hget] at hmem
      exact .kept hmem
    | some schedule =>
      have hrow := (Table.get?_eq_some.mp (Option.filter_eq_some_iff.mp hget).1).1
      simp only [hget] at hmem
      split at hmem
      next task tasks schedules hrun =>
        obtain ⟨-, hi, -⟩ := runTaskScheduleNow_eq_ok hrun
        rcases (mem_of_insertTask hi).mp hmem with hold | rfl
        · exact .kept hold
        · exact .scheduled hrow rfl rfl rfl
      next => exact .kept hmem
  | recoverStaleRunningTasks time locked =>
    simp only [apply] at hmem
    rcases get?_recoverStaleRunningTasks w.tasks time locked task'.id with heq |
      ⟨task, hget, -, hrec⟩
    · have hget := Table.get?_eq_some.mpr ⟨hmem, (rfl : Keyed.key task' = task'.id)⟩
      exact .kept (Table.get?_eq_some.mp (heq.symm.trans hget)).1
    · have hget' := Table.get?_eq_some.mpr ⟨hmem, (rfl : Keyed.key task' = task'.id)⟩
      obtain rfl := Option.some.inj (hget'.symm.trans hrec)
      obtain ⟨hkind, huser, hconversation, hstatus⟩ := status_recoverTask task time
      exact .rewritten (Table.get?_eq_some.mp hget).1
        (hkind.symm.trans hk) huser hconversation hstatus
  | dispatchDueSchedules time ids locked =>
    simp only [apply] at hmem
    cases hd : AgentDemo.dispatchDueSchedules env w.tasks w.schedules ids locked time now with
    | error e =>
      rw [hd] at hmem
      exact .kept hmem
    | ok batch =>
      rw [hd] at hmem
      rcases mem_of_dispatchLoop hd hmem with hold | ⟨schedule, hdue, hqueued, huser, hconversation⟩
      · exact .kept hold
      · exact .scheduled (mem_dueSchedules hdue).1 hqueued huser hconversation
  | claim runner taskId conversationId token => exact origin_claim hk hmem rfl
  | worker runner lease action => exact origin_work hk hmem

end World

end AgentDemo
