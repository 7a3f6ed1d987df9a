import AgentDemo.System.Schedules

/-! Scheduled tasks are queued with a deadline that counts from their occurrence. -/
namespace AgentDemo

/-- The occurrence that a dispatch runs is less than fifteen minutes old. -/
def OnTime (env : Environment) (schedule : TaskSchedule) (now : Instant) : Prop :=
  ∃ occurrence, latestDueOccurrence env schedule now = .ok occurrence ∧
    now - occurrence < seconds 900

section

variable {env : Environment} {ids : UUID → UUID} {now createdAt : Instant}

theorem insertTask_get? {tasks tasks' : Table Task} {task : Task}
    (h : insertTask tasks task = some tasks') (id : UUID) :
    tasks'.get? id = if task.id = id then some task else tasks.get? id :=
  Table.get?_insert? (insertTask_eq_some h).2 id

/-- The loop body adds at most the task of its schedule, and says so in the schedule. -/
theorem dispatchSchedule_task {tasks tasks' : Table Task} {schedule schedule' : TaskSchedule}
    {id : UUID} {run : Option QueuedRun}
    (h : dispatchSchedule env tasks schedule id now createdAt = .ok (tasks', schedule', run)) :
    (∀ k task, tasks.get? k = some task → tasks'.get? k = some task) ∧
      (schedule'.lastDispatchStatus = some .queued → ∃ occurrence,
        latestDueOccurrence env schedule now = .ok occurrence ∧
        tasks'.get? id = some (buildScheduledTask schedule id occurrence none createdAt)) := by
  unfold dispatchSchedule at h
  cases hp : planDispatch env schedule now with
  | error error =>
    simp only [hp, Except.ok.injEq, Prod.mk.injEq] at h
    obtain ⟨rfl, rfl, -⟩ := h
    exact ⟨fun _ _ hk => hk, nofun⟩
  | ok plan =>
    obtain ⟨occurrence, next⟩ := plan
    simp only [hp] at h
    split_ifs at h
    · simp only [Except.ok.injEq, Prod.mk.injEq] at h
      obtain ⟨rfl, rfl, -⟩ := h
      exact ⟨fun _ _ hk => hk, nofun⟩
    · simp only [Except.ok.injEq, Prod.mk.injEq] at h
      obtain ⟨rfl, rfl, -⟩ := h
      exact ⟨fun _ _ hk => hk, nofun⟩
    · cases hi : insertTask tasks (buildScheduledTask schedule id occurrence none createdAt) with
      | none => simp [hi] at h
      | some inserted =>
        simp only [hi, Except.ok.injEq, Prod.mk.injEq] at h
        obtain ⟨rfl, rfl, -⟩ := h
        refine ⟨fun k task hk => ?_, fun _ => ⟨occurrence, (planDispatch_eq_ok hp).1, ?_⟩⟩
        · have hfresh : tasks.get? id = none := Table.insert?_fresh (insertTask_eq_some hi).2
          rw [insertTask_get? hi, if_neg, hk]
          rintro rfl
          cases hk.symm.trans hfresh
        · exact (insertTask_get? hi id).trans (if_pos rfl)

/-- What the loop leaves for each of its schedules. -/
theorem dispatchLoop_task {due : List TaskSchedule} {batch batch' : Batch}
    (hnodup : (due.map TaskSchedule.id).Nodup)
    (h : dispatchLoop env ids now createdAt due batch = .ok batch') :
    (∀ k task, batch.tasks.get? k = some task → batch'.tasks.get? k = some task) ∧
      ∀ s ∈ due, ∀ schedule', batch'.schedules.get? s.id = some schedule' →
        schedule'.lastDispatchStatus = some .queued → ∃ occurrence,
          latestDueOccurrence env s now = .ok occurrence ∧
          batch'.tasks.get? (ids s.id) =
            some (buildScheduledTask s (ids s.id) occurrence none createdAt) := by
  induction due generalizing batch with
  | nil =>
    obtain rfl := Except.ok.inj h
    exact ⟨fun _ _ hk => hk, fun s hs => absurd hs List.not_mem_nil⟩
  | cons s rest ih =>
    rw [List.map_cons, List.nodup_cons] at hnodup
    unfold dispatchLoop at h
    split at h
    next => cases h
    next tasks schedule run hs =>
      obtain ⟨hkeep, hqueued⟩ := dispatchSchedule_task hs
      obtain ⟨hkeep', hrest⟩ := ih hnodup.2 h
      refine ⟨fun k task hk => hkeep' k task (hkeep k task hk), fun x hx schedule' hget hq => ?_⟩
      rcases List.mem_cons.mp hx with rfl | hx
      · have hrow : batch'.schedules.get? x.id =
            (batch.schedules.write schedule).get? x.id := by
          rcases dispatchLoop_view hnodup.2 h x.id with ⟨-, heq, -⟩ | ⟨y, hy, hyx, -⟩
          · exact heq
          · exact absurd (hyx ▸ List.mem_map_of_mem hy) hnodup.1
        rw [hrow, Table.get?_write, key_taskSchedule, (id_of_dispatchSchedule hs).1,
          if_pos rfl] at hget
        obtain ⟨-, -, rfl⟩ := Option.map_eq_some_iff.mp hget
        obtain ⟨occurrence, hocc, htask⟩ := hqueued hq
        exact ⟨occurrence, hocc, hkeep' _ _ htask⟩
      · exact hrest x hx schedule' hget hq

/-- The deadline of a task that a tick has queued lies ahead exactly when its occurrence is less
than fifteen minutes old, whatever grace the schedule has. -/
theorem queued_deadline_iff {tasks : Table Task} {schedules : Table TaskSchedule}
    {locked : UUID → Bool} {batch : Batch}
    (h : dispatchDueSchedules env tasks schedules ids locked now createdAt = .ok batch)
    {s schedule' : TaskSchedule} (hs : s ∈ dueSchedules schedules now locked)
    (hget : batch.schedules.get? s.id = some schedule')
    (hq : schedule'.lastDispatchStatus = some .queued) :
    ∃ task deadline, batch.tasks.get? (ids s.id) = some task ∧ task.deadlineAt = some deadline ∧
      (now < deadline ↔ OnTime env s now) := by
  obtain ⟨-, hall⟩ := dispatchLoop_task (nodup_dueSchedules schedules now locked) h
  obtain ⟨occurrence, hocc, htask⟩ := hall s hs schedule' hget hq
  refine ⟨_, occurrence + seconds 900, htask, rfl, fun hlt => ⟨occurrence, hocc, by linarith⟩, ?_⟩
  rintro ⟨occurrence', hocc', hlt⟩
  obtain rfl := Except.ok.inj (hocc.symm.trans hocc')
  linarith

end

def lateSchedule : TaskScheduleCreate := { sampleSchedule with misfireGraceSeconds := 3600 }

/-- Its run is due at 100 seconds, and the tick comes 1000 seconds later. -/
def lateWorld : World :=
  .ofRun sampleEnvironment [⟨.createTaskSchedule 1 10 lateSchedule, 0, 0⟩,
    ⟨.idle, seconds 1100, seconds 1100⟩]

def lateTick : Except IntegrityError Batch :=
  dispatchDueSchedules sampleEnvironment lateWorld.tasks lateWorld.schedules (· + 100)
    (fun _ => false) (seconds 1100) (seconds 1100)

theorem queued_deadline_iff_sample :
    ∃ s ∈ dueSchedules lateWorld.schedules (seconds 1100) fun _ => false,
      ∃ batch task deadline, lateTick = .ok batch ∧ batch.tasks.get? (s.id + 100) = some task ∧
        task.deadlineAt = some deadline ∧
        (seconds 1100 < deadline ↔ OnTime sampleEnvironment s (seconds 1100)) := by
  obtain ⟨s, hs⟩ := List.exists_mem_of_length_pos (l := dueSchedules lateWorld.schedules
    (seconds 1100) fun _ => false) (by decide)
  have hall : lateTick.toOption.any (fun batch =>
      (dueSchedules lateWorld.schedules (seconds 1100) fun _ => false).all fun s =>
        (batch.schedules.get? s.id).any fun schedule' =>
          decide (schedule'.lastDispatchStatus = some .queued)) = true := by decide
  cases hd : lateTick with
  | error e =>
    rw [hd] at hall
    cases hall
  | ok batch =>
    rw [hd] at hall
    obtain ⟨schedule', hget, hq⟩ := (Option.any_eq_true _ _).mp (List.all_eq_true.mp hall s hs)
    obtain ⟨task, deadline, htask, hdeadline, hiff⟩ :=
      queued_deadline_iff hd hs hget (of_decide_eq_true hq)
    exact ⟨s, hs, batch, task, deadline, rfl, htask, hdeadline, hiff⟩

/-- The task is queued, and a worker that claims it at once fails it. -/
theorem queued_expired :
    World.Reachable sampleEnvironment lateWorld ∧ ∃ batch, lateTick = .ok batch ∧
      (batch.schedules.get? 10).bind TaskSchedule.lastDispatchStatus = some .queued ∧
      ∃ task, batch.tasks.get? 110 = some task ∧ passed task.deadlineAt (seconds 1100) ∧
        claimError task (seconds 1100) = some "Task deadline expired before execution" := by
  refine ⟨World.reachable_ofRun _ (by decide), ?_⟩
  have hall : lateTick.toOption.any (fun batch =>
      (batch.schedules.get? 10).bind TaskSchedule.lastDispatchStatus = some .queued &&
        (batch.tasks.get? 110).any fun task => decide (passed task.deadlineAt (seconds 1100)) &&
          decide (claimError task (seconds 1100) =
            some "Task deadline expired before execution")) = true := by decide
  cases hd : lateTick with
  | error e =>
    rw [hd] at hall
    cases hall
  | ok batch =>
    rw [hd] at hall
    obtain ⟨hq, htask⟩ := Bool.and_eq_true_iff.mp hall
    obtain ⟨task, hget, hrest⟩ := (Option.any_eq_true _ _).mp htask
    obtain ⟨hpassed, herror⟩ := Bool.and_eq_true_iff.mp hrest
    exact ⟨batch, rfl, of_decide_eq_true hq, task, hget, of_decide_eq_true hpassed,
      of_decide_eq_true herror⟩

end AgentDemo
