import AgentDemo.System.RowOrigins
import AgentDemo.System.TaskLifeCycle

/-! The times of a task: creation, first start, end and lease, against the clock of the system. -/
namespace AgentDemo

/-! ### Columns that say whether a task runs -/

/-- An agent task that runs has been started and is not finished. -/
def Started (task : Task) : Prop :=
  task.status = .running → task.startedAt.isSome ∧ task.finishedAt = none

theorem Started.step {task task' : Task} {es es' : List TaskEntry} (h : Started task)
    (hk : task.kind = .agent) (hs : TaskStep ⟨some task, es⟩ ⟨some task', es'⟩) :
    Started task' := by
  cases hs with
  | claim hc fresh =>
    obtain ⟨-, -, -, rfl, -, -⟩ := AgentTaskRunner.claim_eq_started hc
    intro _
    cases hstarted : task.startedAt <;> simp [AgentTaskRunner.startAttempt, hstarted]
  | claimFailed hc =>
    obtain ⟨-, -, error, rfl⟩ := AgentTaskRunner.claim_eq_failed hc
    intro hrunning
    cases hrunning
  | heartbeat hold hb =>
    obtain ⟨deadline, -, rfl⟩ := Option.map_eq_some_iff.mp hb
    exact h
  | recordEvent hold eventType data now' => exact h
  | succeed hold donePayload answerParts conversationId now' =>
    intro hrunning
    cases hrunning
  | checked hold => exact h
  | effect hold reason now' he => exact h
  | finishOrRetry hold error retryable wait now' =>
    intro hrunning
    simp only [AgentDemo.finishOrRetry] at hrunning
    split_ifs at hrunning <;> cases hrunning
  | mcpEvent hold eventType tool payload progress => exact h
  | recover hab =>
    intro hrunning
    unfold AgentDemo.recoverTask at hrunning
    split_ifs at hrunning <;> cases hrunning
  | cancel hc =>
    obtain ⟨-, rfl⟩ := cancelTask_eq_ok hc
    intro hrunning
    cases hrunning
  | update hu => exact absurd hk (kind_of_updateTask hu)

/-- What the columns of a task of either kind say about its status. -/
structure Shown (task : Task) : Prop where
  finished_iff : task.finishedAt.isSome ↔ task.status.Terminal
  started : task.status = .running → task.startedAt.isSome

theorem Started.unlink {task : Task} (h : Started task) (c : UUID) :
    Started (unlinkTask c task) := by
  unfold unlinkTask
  split_ifs <;> exact h

theorem Traffic.Reachable.started {env : Environment} {w : World} (hw : Traffic.Reachable env w)
    (id : UUID) : World.OnAgentTask (fun task _ => Started task) (w.view id) := by
  refine hw.view_invariant (fun _ h => (by cases h)) ?step ?unlink id
  case step =>
    rintro ⟨row, es⟩ v' h hs task' hrow hk
    cases row with
    | none =>
      cases hs with
      | insert hi =>
        obtain rfl := Option.some.inj hrow
        intro hrunning
        simp [hi.queued] at hrunning
    | some task =>
      obtain ⟨task'', new, rfl, hframe⟩ := hs.frame
      obtain rfl := Option.some.inj hrow
      have hkind := hframe.kind.symm.trans hk
      exact (h task rfl hkind).step hkind hs
  case unlink =>
    intro task es c h task' hrow hk
    obtain rfl := Option.some.inj hrow
    have hkind : task.kind = .agent := by
      unfold unlinkTask at hk
      split_ifs at hk <;> exact hk
    exact (h task rfl hkind).unlink c

theorem Traffic.Reachable.shown {env : Environment} {w : World} (hw : Traffic.Reachable env w)
    {task : Task} (hmem : task ∈ w.tasks.rows) : Shown task := by
  have hget := World.mem_rows_iff.mp hmem
  by_cases hk : task.kind = .agent
  · obtain ⟨hrow, -⟩ := (hw.sound task.id).agent task hget hk
    have hstarted := hw.started task.id task hget hk
    constructor
    case finished_iff =>
      constructor
      · intro hsome
        cases hs : task.status with
        | queued => simp [hrow.unfinished hs] at hsome
        | running => simp [(hstarted hs).2] at hsome
        | _ => trivial
      · exact hrow.finished
    case started => exact fun hs => (hstarted hs).1
  · obtain ⟨hrow, -⟩ := (hw.sound task.id).manual task hget hk
    exact ⟨hrow.finished_iff, fun hs => hrow.started (Or.inl hs)⟩

/-! ### What a transaction does to the times -/

/-- The times of a row that a transaction between two clock readings has written. -/
structure Restamped (lo hi : Instant) (task task' : Task) : Prop where
  createdAt : task'.createdAt = task.createdAt
  startedAt : task'.startedAt = task.startedAt ∨ (task'.status = .running ∧
    ∃ t, task'.startedAt = some t ∧ lo ≤ t ∧ t ≤ hi ∧ ∀ e, task'.leaseExpiresAt = some e → t ≤ e)
  finishedAt : ∀ f, task'.finishedAt = some f → task.finishedAt = some f ∨ (lo ≤ f ∧ f ≤ hi)
  leaseExpiresAt : ∀ e, task'.leaseExpiresAt = some e → task.leaseExpiresAt = some e ∨ lo ≤ e

/-- The times of a new row. -/
structure Fresh (lo hi : Instant) (task : Task) : Prop where
  unstarted : task.startedAt = none
  unfinished : task.finishedAt = none
  after : lo ≤ task.createdAt
  before : task.createdAt ≤ hi

/-- The row of a task after a transaction between two clock readings. -/
inductive Stamped (w : World) (lo hi : Instant) (task' : Task) : Prop where
  | kept (mem : task' ∈ w.tasks.rows)
  | created (fresh : Fresh lo hi task')
  | written {task : Task} (mem : task ∈ w.tasks.rows) (times : Restamped lo hi task task')
  | recovered {task : Task} {time : Instant} (mem : task ∈ w.tasks.rows) (passed : time ≤ lo)
      (abandoned : Abandoned task time) (row : task' = recoverTask task time)

namespace Restamped

variable {lo hi : Instant} {task task' : Task}

/-- The times stay. -/
theorem same (hc : task'.createdAt = task.createdAt) (hs : task'.startedAt = task.startedAt)
    (hf : task'.finishedAt = task.finishedAt) (hl : task'.leaseExpiresAt = task.leaseExpiresAt) :
    Restamped lo hi task task' :=
  ⟨hc, Or.inl hs, fun _ h => Or.inl (hf ▸ h), fun _ h => Or.inl (hl ▸ h)⟩

/-- The task ends, or goes back to the queue. -/
theorem stop {time : Instant} (hlo : lo ≤ time) (hhi : time ≤ hi)
    (hc : task'.createdAt = task.createdAt) (hs : task'.startedAt = task.startedAt)
    (hf : task'.finishedAt = none ∨ task'.finishedAt = some time ∨
      task'.finishedAt = task.finishedAt)
    (hl : task'.leaseExpiresAt = none) : Restamped lo hi task task' where
  createdAt := hc
  startedAt := Or.inl hs
  finishedAt f h := by
    rcases hf with hf | hf | hf
    · simp [hf] at h
    · obtain rfl := Option.some.inj (hf.symm.trans h)
      exact Or.inr ⟨hlo, hhi⟩
    · exact Or.inl (hf ▸ h)
  leaseExpiresAt e h := by simp [hl] at h

/-- The first start of a task is its claim, before its lease runs out. -/
theorem startAttempt {runner : AgentTaskRunner} {conversationId token : UUID} {now : Instant}
    (hclaim : claimError task now = none) (hlo : lo ≤ now) (hhi : now ≤ hi) :
    Restamped lo hi task (runner.startAttempt task conversationId token now) := by
  have hahead : now ≤ attemptDeadline task now := by
    unfold attemptDeadline
    cases hd : task.deadlineAt with
    | none =>
      have : (0 : ℤ) ≤ seconds 900 := by decide
      simp only [Option.getD_none]
      linarith
    | some deadline =>
      have hnot : ¬ passed task.deadlineAt now := by
        intro hpassed
        unfold claimError at hclaim
        split_ifs at hclaim
      by_contra hlt
      exact hnot ⟨deadline, hd, le_of_lt (not_le.mp hlt)⟩
  have hlease : now ≤ min (now + seconds runner.leaseSeconds) (attemptDeadline task now) := by
    have : (0 : ℤ) ≤ seconds runner.leaseSeconds := by unfold seconds; positivity
    exact le_min (by linarith) hahead
  constructor
  case createdAt => rfl
  case startedAt =>
    cases hs : task.startedAt with
    | some s => exact Or.inl (by simp [AgentTaskRunner.startAttempt, hs])
    | none =>
      refine Or.inr ⟨rfl, now, by simp [AgentTaskRunner.startAttempt, hs], hlo, hhi, ?_⟩
      intro e he
      obtain rfl := Option.some.inj he
      exact hlease
  case finishedAt =>
    intro f hf
    cases hf
  case leaseExpiresAt =>
    intro e he
    obtain rfl := Option.some.inj he
    exact Or.inr (hlo.trans hlease)

theorem heartbeat {runner : AgentTaskRunner} {lease : TaskLease} {now now' : Instant}
    (hold : Holds task lease now true) (hlo : lo ≤ now) (hle : now ≤ now')
    (hb : runner.heartbeat task now' = some task') : Restamped lo hi task task' := by
  obtain ⟨deadline, hd, rfl⟩ := Option.map_eq_some_iff.mp hb
  refine ⟨rfl, Or.inl rfl, fun f hf => Or.inl hf, fun e he => Or.inr ?_⟩
  obtain rfl := Option.some.inj he
  have hahead := hold.deadline_ahead rfl deadline hd
  have : (0 : ℤ) ≤ seconds runner.leaseSeconds := by unfold seconds; positivity
  exact le_min (by linarith) (by linarith)

theorem finishOrRetry {error : String} {retryable : Bool} {wait now now' : Instant}
    (hlo : lo ≤ now') (hhi : now' ≤ hi) :
    Restamped lo hi task (finishOrRetry task error retryable wait now now') := by
  simp only [AgentDemo.finishOrRetry]
  split_ifs
  · exact .stop hlo hhi rfl rfl (Or.inr (Or.inl rfl)) rfl
  · exact .stop hlo hhi rfl rfl (Or.inr (Or.inl rfl)) rfl
  · exact .stop hlo hhi rfl rfl (Or.inl rfl) rfl
  · exact .stop hlo hhi rfl rfl (Or.inr (Or.inl rfl)) rfl

theorem updateTask {payload : TaskUpdate} {now : Instant} (hrow : ManualRow task) (hlo : lo ≤ now)
    (hhi : now ≤ hi) (h : updateTask task payload now = .ok task') :
    Restamped lo hi task task' := by
  have hmoved := updateTask_moved hrow h
  constructor
  case createdAt => exact hmoved.createdAt
  case startedAt =>
    rw [hmoved.startedAt]
    by_cases hrunning : task'.status = .running
    · cases hs : task.startedAt with
      | some s => exact Or.inl (by simp [applyTaskStatusTimestamps, hrunning, hs])
      | none =>
        refine Or.inr
          ⟨hrunning, now, by simp [applyTaskStatusTimestamps, hrunning, hs], hlo, hhi, ?_⟩
        intro e he
        simp [hmoved.lease] at he
    · exact Or.inl (by simp [applyTaskStatusTimestamps, hrunning])
  case finishedAt =>
    intro f hf
    rw [hmoved.finishedAt] at hf
    by_cases hended : task'.status.Terminal
    · cases hfinished : task.finishedAt with
      | some finished =>
        exact Or.inl (by simpa [applyTaskStatusTimestamps, hended, hfinished] using hf)
      | none =>
        obtain rfl : now = f := by simpa [applyTaskStatusTimestamps, hended, hfinished] using hf
        exact Or.inr ⟨hlo, hhi⟩
    · exact Or.inl (by simpa [applyTaskStatusTimestamps, hended] using hf)
  case leaseExpiresAt =>
    intro e he
    simp [hmoved.lease] at he

theorem cancelTask {now : Instant} (hlo : lo ≤ now) (hhi : now ≤ hi)
    (h : cancelTask task now = .ok task') : Restamped lo hi task task' := by
  obtain ⟨-, rfl⟩ := cancelTask_eq_ok h
  refine .stop hlo hhi rfl rfl (Or.inr ?_) rfl
  cases hf : task.finishedAt <;> simp [applyTaskStatusTimestamps, hf, TaskStatus.Terminal]

end Restamped

namespace World

variable {env : Environment} {w : World} {lo hi now now' : Instant} {task' : Task}

theorem stamped_of_write {task written : Task} (hrow : task ∈ w.tasks.rows)
    (hmem : task' ∈ (w.tasks.write written).rows) (h : Restamped lo hi task written) :
    Stamped w lo hi task' := by
  rcases Table.mem_write hmem with rfl | hold
  · exact .written hrow h
  · exact .kept hold

theorem stamped_of_underLease {lease : TaskLease} {live : Bool} {k : Task → World}
    (hmem : task' ∈ (w.underLease lease now live k).tasks.rows)
    (h : ∀ task ∈ w.tasks.rows, Holds task lease now live → task' ∈ (k task).tasks.rows →
      Stamped w lo hi task') : Stamped w lo hi task' := by
  unfold underLease at hmem
  cases hl : lockTaskLease w.tasks (some lease) now live with
  | error e =>
    rw [hl] at hmem
    exact .kept hmem
  | ok r =>
    obtain ⟨task, rfl, hget, hold⟩ := lockTaskLease_eq_ok hl
    rw [hl] at hmem
    exact h task (Table.get?_eq_some.mp hget).1 hold hmem

theorem stamped_work {runner : AgentTaskRunner} {lease : TaskLease} {action : WorkerAction}
    (hlo : lo ≤ now) (hle : now ≤ now')
    (hmem : task' ∈ (w.work runner lease now now' action).tasks.rows) :
    Stamped w lo now' task' := by
  cases action with
  | heartbeat =>
    refine stamped_of_underLease hmem fun task hrow hold hwrite => ?_
    cases hb : runner.heartbeat task now' with
    | none =>
      rw [hb] at hwrite
      exact .kept hwrite
    | some beaten =>
      rw [hb] at hwrite
      exact stamped_of_write hrow hwrite (.heartbeat hold hlo hle hb)
  | recordEvent eventType data =>
    refine stamped_of_underLease hmem fun task hrow hold hwrite => ?_
    exact stamped_of_write hrow hwrite (.same rfl rfl rfl rfl)
  | succeed donePayload answerParts conversationId =>
    refine stamped_of_underLease hmem fun task hrow hold hwrite => ?_
    exact stamped_of_write hrow hwrite
      (.stop (hlo.trans hle) le_rfl rfl rfl (Or.inr (Or.inl rfl)) rfl)
  | finishOrRetry error retryable wait =>
    refine stamped_of_underLease hmem fun task hrow hold hwrite => ?_
    exact stamped_of_write hrow hwrite (.finishOrRetry (hlo.trans hle) le_rfl)
  | dispatchTool tool =>
    simp only [work] at hmem
    split at hmem
    next blocked hb =>
      obtain ⟨task, hget, hold, rfl⟩ := barrier_eq_some hb
      exact stamped_of_write (Table.get?_eq_some.mp hget).1 hmem (.same rfl rfl rfl rfl)
    next => exact .kept hmem
  | recordMcpTaskEvent eventType tool payload progress =>
    simp only [work] at hmem
    split at hmem
    next recorded hm =>
      obtain ⟨task, hget, hmay, rfl⟩ := recordMcpTaskEvent_eq_some hm
      exact stamped_of_write (Table.get?_eq_some.mp hget).1 hmem (.same rfl rfl rfl rfl)
    next => exact .kept hmem
  | saveMessage message =>
    simp only [work] at hmem
    cases hs : saveMessage w.tasks w.messages (some lease) message now now' with
    | error e =>
      rw [hs] at hmem
      exact .kept hmem
    | ok r =>
      obtain ⟨task, hget, hold, hr⟩ := saveMessage_eq_ok hs
      rw [hs] at hmem
      cases hr with
      | nothing found => exact .kept hmem
      | other missing role =>
        cases hi : w.messages.insert? (message.ofTask task.id) with
        | none =>
          simp only [hi] at hmem
          exact .kept hmem
        | some messages =>
          simp only [hi] at hmem
          exact .kept hmem
      | answer missing role =>
        cases hi : w.messages.insert? (message.ofTask task.id) with
        | none =>
          simp only [hi] at hmem
          exact .kept hmem
        | some messages =>
          simp only [hi] at hmem
          exact stamped_of_write (Table.get?_eq_some.mp hget).1 hmem (.same rfl rfl rfl rfl)
  | autoTitle conversation title =>
    simp only [work] at hmem
    split at hmem <;> exact .kept hmem

theorem stamped_claim {runner : AgentTaskRunner} {taskId conversationId token : UUID}
    (hlo : lo ≤ now) (hle : now ≤ now')
    (hmem : task' ∈ (w.claim runner taskId conversationId token now now').tasks.rows) :
    Stamped w lo now' task' := by
  unfold claim at hmem
  cases hget : w.tasks.get? taskId with
  | none =>
    rw [hget] at hmem
    exact .kept hmem
  | some task =>
    have hrow := (Table.get?_eq_some.mp hget).1
    simp only [hget] at hmem
    cases hc : runner.claim task conversationId token now now' with
    | skipped =>
      rw [hc] at hmem
      exact .kept hmem
    | deferred at' =>
      rw [hc] at hmem
      exact .kept hmem
    | failed finished =>
      rw [hc] at hmem
      obtain ⟨-, -, error, rfl⟩ := AgentTaskRunner.claim_eq_failed hc
      exact stamped_of_write hrow hmem
        (.stop (hlo.trans hle) le_rfl rfl rfl (Or.inr (Or.inl rfl)) rfl)
    | started attempted lease timeout conversation =>
      obtain ⟨-, -, hclaim, rfl, rfl, -⟩ := AgentTaskRunner.claim_eq_started hc
      have htimes : Restamped lo now' task (runner.startAttempt task conversationId token now) :=
        .startAttempt hclaim hlo hle
      simp only [hc] at hmem
      cases conversation with
      | none => exact stamped_of_write hrow hmem htimes
      | some conversation =>
        cases hi : w.conversations.insert? conversation with
        | none =>
          simp only [hi] at hmem
          exact .kept hmem
        | some conversations =>
          simp only [hi] at hmem
          exact stamped_of_write hrow hmem htimes

theorem stamped_of_extends {tasks : Table Task} (h : w.tasks.Extends (Fresh lo hi) tasks)
    (hmem : task' ∈ tasks.rows) : Stamped w lo hi task' := by
  have hget := Table.get?_eq_some.mpr ⟨hmem, (rfl : Keyed.key task' = task'.id)⟩
  rcases h task'.id with heq | ⟨-, task, hfresh, hsome⟩
  · exact .kept (mem_rows_iff.mpr (heq.symm.trans hget))
  · obtain rfl := Option.some.inj (hget.symm.trans hsome)
    exact .created hfresh

theorem fresh_createTask {tasks' : Table Task} {payload : TaskCreate} {userId id : UUID}
    (hlo : lo ≤ now) (hle : now ≤ hi)
    (h : createTask w.tasks w.conversations payload userId id now = .ok tasks') :
    w.tasks.Extends (Fresh lo hi) tasks' := by
  unfold createTask at h
  split_ifs at h
  split at h
  next hi =>
    cases Except.ok.inj h
    exact .of_insert? (insertTask_eq_some hi).2 ⟨rfl, rfl, hlo, hle⟩
  next => cases h

theorem fresh_dispatchLoop {ids : UUID → UUID} {createdAt : Instant} {due : List TaskSchedule}
    {batch batch' : Batch} (hlo : lo ≤ createdAt) (hle : createdAt ≤ hi)
    (h : dispatchLoop env ids now createdAt due batch = .ok batch') :
    batch.tasks.Extends (Fresh lo hi) batch'.tasks := by
  induction due generalizing batch with
  | nil =>
    cases Except.ok.inj h
    exact .refl _
  | cons schedule rest ih =>
    unfold dispatchLoop at h
    split at h
    next => cases h
    next tasks schedule' run hs =>
      refine .trans ?_ (ih h)
      rcases dispatchSchedule_eq_ok hs with ⟨e, -, rfl, -, -⟩ | ⟨o, n, st, -, -, rfl, -, -⟩ |
        ⟨o, n, -, -, -, hi, -, -⟩
      · exact .refl _
      · exact .refl _
      · exact .of_insert? (insertTask_eq_some hi).2 ⟨rfl, rfl, hlo, hle⟩

/-- Every row of the tasks table after a transaction. -/
theorem stamped_apply (hw : Traffic.Reachable env w) {event : Event} (hallowed : w.Allowed event)
    (hlo : w.clock ≤ now) (hle : now ≤ now')
    (hmem : task' ∈ (w.apply env now now' event).tasks.rows) : Stamped w w.clock now' task' := by
  cases event with
  | idle => exact .kept hmem
  | createTask userId id payload =>
    simp only [apply] at hmem
    cases hc : createTask w.tasks w.conversations payload userId id now with
    | error e =>
      rw [hc] at hmem
      exact .kept hmem
    | ok tasks =>
      rw [hc] at hmem
      exact stamped_of_extends (fresh_createTask hlo hle hc) hmem
  | createAgentTask userId id payload before =>
    simp only [apply] at hmem
    cases hc : createAgentTask env before w.tasks w.conversations payload userId id now now' with
    | error e =>
      rw [hc] at hmem
      exact .kept hmem
    | ok r =>
      rw [hc] at hmem
      rcases createAgentTask_eq_ok hc with heq | ⟨hrow, hi⟩
      · simp only [heq] at hmem
        exact .kept hmem
      · refine stamped_of_extends (.of_insert? (insertTask_eq_some hi).2 ?_) hmem
        rw [hrow]
        exact ⟨rfl, rfl, hlo.trans hle, le_rfl⟩
  | updateTask userId taskId payload =>
    simp only [apply] at hmem
    cases hget : getOwnedTask w.tasks taskId userId with
    | none =>
      rw [hget] at hmem
      exact .kept hmem
    | some task =>
      have hget' := (Option.filter_eq_some_iff.mp hget).1
      have hrow := (Table.get?_eq_some.mp hget').1
      simp only [hget] at hmem
      cases hu : updateTask task payload now with
      | error e =>
        rw [hu] at hmem
        exact .kept hmem
      | ok updated =>
        rw [hu] at hmem
        obtain ⟨hmanual, -⟩ :=
          (hw.sound task.id).manual task (mem_rows_iff.mp hrow) (kind_of_updateTask hu)
        exact stamped_of_write hrow hmem (.updateTask hmanual hlo hle hu)
  | cancelTask userId taskId =>
    simp only [apply] at hmem
    cases hget : getOwnedTask w.tasks taskId userId with
    | none =>
      rw [hget] at hmem
      exact .kept hmem
    | some task =>
      have hrow := (Table.get?_eq_some.mp (Option.filter_eq_some_iff.mp hget).1).1
      simp only [hget] at hmem
      cases hc : cancelTask task now with
      | error e =>
        rw [hc] at hmem
        exact .kept hmem
      | ok cancelled =>
        rw [hc] at hmem
        exact stamped_of_write hrow hmem (.cancelTask hlo hle hc)
  | createTaskSchedule userId id payload =>
    simp only [apply] at hmem
    split at hmem <;> exact .kept hmem
  | updateTaskSchedule userId scheduleId payload =>
    simp only [apply] at hmem
    split at hmem
    · exact .kept hmem
    · split at hmem <;> exact .kept hmem
  | runTaskScheduleNow userId scheduleId id manualKey =>
    simp only [apply] at hmem
    cases hget : getOwnedSchedule w.schedules scheduleId userId with
    | none =>
      rw [hget] at hmem
      exact .kept hmem
    | some schedule =>
      simp only [hget] at hmem
      split at hmem
      next task tasks schedules hrun =>
        obtain ⟨-, hi, -⟩ := runTaskScheduleNow_eq_ok hrun
        exact stamped_of_extends (.of_insert? (insertTask_eq_some hi).2 ⟨rfl, rfl, hlo, hle⟩) hmem
      next => exact .kept hmem
  | recoverStaleRunningTasks time locked =>
    simp only [apply] at hmem
    have hget' := Table.get?_eq_some.mpr ⟨hmem, (rfl : Keyed.key task' = task'.id)⟩
    rcases get?_recoverStaleRunningTasks w.tasks time locked task'.id with heq |
      ⟨task, hget, habandoned, hrec⟩
    · exact .kept (Table.get?_eq_some.mp (heq.symm.trans hget')).1
    · exact .recovered (Table.get?_eq_some.mp hget).1 hallowed habandoned
        (Option.some.inj (hget'.symm.trans hrec))
  | dispatchDueSchedules time ids locked =>
    simp only [apply] at hmem
    cases hd : AgentDemo.dispatchDueSchedules env w.tasks w.schedules ids locked time now with
    | error e =>
      rw [hd] at hmem
      exact .kept hmem
    | ok batch =>
      rw [hd] at hmem
      exact stamped_of_extends (fresh_dispatchLoop hlo hle hd) hmem
  | claim runner taskId conversationId token => exact stamped_claim hlo hle hmem
  | worker runner lease action => exact stamped_work hlo hle hmem

end World

/-! ### The order of the times -/

/-- The times of a row in their order, none of them ahead of the clock. -/
structure Timely (clock : Instant) (task : Task) : Prop where
  created : task.createdAt ≤ clock
  started : ∀ s, task.startedAt = some s → task.createdAt ≤ s ∧ s ≤ clock
  finished : ∀ f, task.finishedAt = some f → task.createdAt ≤ f ∧ f ≤ clock ∧
    ∀ s, task.startedAt = some s → s ≤ f
  leased : ∀ e s, task.leaseExpiresAt = some e → task.startedAt = some s → s ≤ e

namespace Timely

variable {lo hi : Instant} {task task' : Task}

theorem of_fresh (h : Fresh lo hi task) : Timely hi task where
  created := h.before
  started s hs := by simp [h.unstarted] at hs
  finished f hf := by simp [h.unfinished] at hf
  leased e s _ hs := by simp [h.unstarted] at hs

theorem later (h : Timely lo task) (hle : lo ≤ hi) : Timely hi task where
  created := h.created.trans hle
  started s hs := ⟨(h.started s hs).1, (h.started s hs).2.trans hle⟩
  finished f hf := ⟨(h.finished f hf).1, (h.finished f hf).2.1.trans hle, (h.finished f hf).2.2⟩
  leased := h.leased

/-- A task that has just started is not finished, so its end comes after its start. -/
theorem restamped (h : Timely lo task) (hle : lo ≤ hi) (hshown : Shown task')
    (hnew : Restamped lo hi task task') : Timely hi task' where
  created := hnew.createdAt ▸ h.created.trans hle
  started s hs := by
    rw [hnew.createdAt]
    rcases hnew.startedAt with heq | ⟨-, t, ht, hlo, hhi, -⟩
    · obtain ⟨hc, hclock⟩ := h.started s (heq ▸ hs)
      exact ⟨hc, hclock.trans hle⟩
    · obtain rfl := Option.some.inj (ht.symm.trans hs)
      exact ⟨h.created.trans hlo, hhi⟩
  finished f hf := by
    rw [hnew.createdAt]
    have hstart (s : Instant) (hs : task'.startedAt = some s) : task.startedAt = some s := by
      rcases hnew.startedAt with heq | ⟨hrunning, -⟩
      · exact heq ▸ hs
      · have hended := hshown.finished_iff.mp (by simp [hf])
        simp [hrunning, TaskStatus.Terminal] at hended
    rcases hnew.finishedAt f hf with hold | ⟨hlo, hhi⟩
    · obtain ⟨hc, hclock, hafter⟩ := h.finished f hold
      exact ⟨hc, hclock.trans hle, fun s hs => hafter s (hstart s hs)⟩
    · exact ⟨h.created.trans hlo, hhi, fun s hs => (h.started s (hstart s hs)).2.trans hlo⟩
  leased e s he hs := by
    rcases hnew.startedAt with heq | ⟨-, t, ht, -, -, hlease⟩
    · have hstart := heq ▸ hs
      rcases hnew.leaseExpiresAt e he with hold | hlo
      · exact h.leased e s hold hstart
      · exact (h.started s hstart).2.trans hlo
    · obtain rfl := Option.some.inj (ht.symm.trans hs)
      exact hlease e he

/-- A lease runs out after the start of its task, so a stale task ends after its start. -/
theorem recoverTask {time : Instant} (h : Timely lo task) (hrow : AgentRow task)
    (hshown : Shown task) (hab : Abandoned task time) (htime : time ≤ lo) (hle : lo ≤ hi) :
    Timely hi (recoverTask task time) := by
  obtain ⟨expires, -, hexpires, -⟩ := hrow.leased hab.1
  obtain ⟨s, hs⟩ := Option.isSome_iff_exists.mp (hshown.started hab.1)
  have hafter : s ≤ time := (h.leased expires s hexpires hs).trans (hab.2.2 expires hexpires)
  unfold AgentDemo.recoverTask
  split_ifs
  · exact ⟨h.created.trans hle, (h.later hle).started, fun f hf => (by cases hf),
      fun e s he => (by cases he)⟩
  · refine ⟨h.created.trans hle, (h.later hle).started, fun f hf => ?_, fun e s he => by cases he⟩
    obtain rfl := Option.some.inj hf
    refine ⟨(h.started s hs).1.trans hafter, htime.trans hle, fun s' hs' => ?_⟩
    obtain rfl := Option.some.inj (hs.symm.trans hs')
    exact hafter

end Timely

namespace Traffic

variable {env : Environment} {w : World} {now now' : Instant} {task' : Task}

theorem stamped_apply (hw : Reachable env w) {event : TrafficEvent} (hallowed : Allowed w event)
    (hlo : w.clock ≤ now) (hle : now ≤ now')
    (hmem : task' ∈ (apply env w now now' event).tasks.rows) : Stamped w w.clock now' task' := by
  cases event with
  | system event =>
    simp only [apply] at hmem
    split_ifs at hmem
    · exact World.stamped_apply hw hallowed.1 hlo hle hmem
    · exact .kept hmem
  | createConversation userId id title =>
    simp only [apply] at hmem
    split at hmem <;> exact .kept hmem
  | updateConversation userId conversationId payload =>
    simp only [apply] at hmem
    split at hmem <;> exact .kept hmem
  | deleteConversation userId conversationId =>
    simp only [apply] at hmem
    cases hd : AgentDemo.deleteConversation (records w) userId conversationId with
    | error e =>
      rw [hd] at hmem
      exact .kept hmem
    | ok after =>
      obtain ⟨-, htasks, -⟩ := deleteConversation_eq_ok hd
      simp only [hd, withRecords, htasks] at hmem
      obtain ⟨task, hrow, rfl⟩ := Table.mem_update.mp hmem
      refine .written hrow ?_
      unfold unlinkTask
      split_ifs <;> exact .same rfl rfl rfl rfl

theorem Reachable.timely (hw : Reachable env w) : ∀ task ∈ w.tasks.rows, Timely w.clock task := by
  obtain ⟨conversations, clock, hrun⟩ := hw
  refine hrun.invariant_of (I := fun u => ∀ task ∈ u.tasks.rows, Timely u.clock task)
    (J := Reachable env) (fun u hu => ⟨conversations, clock, hu⟩) ?_ ?_
  · intro task hmem
    cases hmem
  · intro u a v hu htimely hv task' hmem
    have hlater := hu.later (later_step hv)
    obtain ⟨hlo, hle, hallowed, rfl⟩ := step_eq_some hv
    have hpast := hlo.trans hle
    rcases stamped_apply hu hallowed hlo hle hmem with hold | hfresh | ⟨hold, htimes⟩ |
      ⟨hold, htime, hab, rfl⟩
    · exact (htimely task' hold).later hpast
    · exact .of_fresh hfresh
    · exact (htimely _ hold).restamped hpast (hlater.shown hmem) htimes
    · obtain ⟨hrow, -⟩ := (hu.sound _).agent _ (World.mem_rows_iff.mp hold) hab.2.1
      exact (htimely _ hold).recoverTask hrow (hu.shown hold) hab htime hpast

/-- In every reachable state a task is finished exactly when its status says so, one that runs has
started, and creation, start and end are in their order and not ahead of the clock. -/
theorem task_times (hw : Reachable env w) {task : Task} (hmem : task ∈ w.tasks.rows) :
    (task.finishedAt.isSome ↔ task.status.Terminal) ∧
      (task.status = .running → task.startedAt.isSome) ∧ Timely w.clock task :=
  ⟨(hw.shown hmem).finished_iff, (hw.shown hmem).started, hw.timely task hmem⟩

theorem task_times_sample : Timely cancelledTraffic.clock cancelledTask :=
  (task_times reachable_cancelledTraffic cancelledTask_mem).2.2

end Traffic

end AgentDemo
