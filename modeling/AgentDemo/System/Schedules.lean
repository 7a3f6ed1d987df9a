import AgentDemo.Services.Dispatch
import AgentDemo.System.Replay

/-! Schedules in every run: one active task each, and occurrences that only move forward. -/
namespace AgentDemo

/-- A schedule with the occurrences that ticks have queued for it, the newest first. -/
structure ScheduleRow (schedule : TaskSchedule) (occurrences : List Instant) (clock : Instant) :
    Prop where
  decreasing : occurrences.Pairwise (· > ·)
  past : ∀ o ∈ occurrences, o ≤ clock
  ahead : ∀ next, schedule.nextRunAt = some next → ∀ o ∈ occurrences, o < next
  once_next : schedule.scheduleKind = .once → ∀ next, schedule.nextRunAt = some next →
    schedule.runAt = some next
  once_past : schedule.scheduleKind = .once → ∀ o ∈ occurrences, schedule.runAt = some o

def ScheduleOk (row : Option TaskSchedule) (occurrences : List Instant) (clock : Instant) : Prop :=
  (row = none → occurrences = []) ∧ ∀ schedule, row = some schedule →
    ScheduleRow schedule occurrences clock

/-- A first or a resumed run lies in the future; for a one-time schedule it is `run_at`. -/
theorem initialNextRun_eq_ok {env : Environment} {kind : ScheduleKind} {timezoneName : String}
    {now next : Instant} {runAt : Option RunAt} {intervalSeconds : Option ℤ}
    {dailyTime : Option String}
    (h : initialNextRun env kind timezoneName now runAt intervalSeconds dailyTime = .ok next) :
    now < next ∧ (kind = .once → runAt = some (.aware next)) := by
  unfold initialNextRun at h
  cases hz : validateTimezone env timezoneName with
  | error e => simp [hz, bind, Except.bind] at h
  | ok zone =>
    simp only [hz, bind, Except.bind] at h
    cases kind with
    | unsupported name => cases h
    | daily => exact ⟨lt_of_nextDailyRun h, fun honce => by cases honce⟩
    | once =>
      cases runAt with
      | none => cases h
      | some value =>
        cases value with
        | naive stored => simp [asUtc] at h
        | aware at' =>
          simp only [asUtc] at h
          split_ifs at h with hpast
          obtain rfl := Except.ok.inj h
          exact ⟨not_le.mp hpast, fun _ => rfl⟩
    | interval =>
      refine ⟨?_, fun honce => by cases honce⟩
      cases hf : intervalSeconds.filter fun n => 60 ≤ n with
      | none => simp [hf] at h
      | some n =>
        have hn : (60 : ℤ) ≤ n := by simpa using (Option.filter_eq_some_iff.mp hf).2
        have hpos : 0 < seconds n := seconds_pos (by linarith)
        simp only [hf] at h
        cases runAt with
        | none =>
          obtain rfl := Except.ok.inj h
          linarith
        | some value =>
          cases value with
          | naive stored => simp [asUtc] at h
          | aware at' =>
            simp only [asUtc] at h
            split_ifs at h with hahead
            · obtain rfl := Except.ok.inj h
              exact hahead
            · obtain rfl := Except.ok.inj h
              linarith

namespace ScheduleRow

variable {schedule schedule' : TaskSchedule} {occurrences : List Instant} {clock clock' : Instant}

/-- Later, and with the columns that dispatching reads unchanged. -/
theorem keep (h : ScheduleRow schedule occurrences clock) (hclock : clock ≤ clock')
    (hn : schedule'.nextRunAt = schedule.nextRunAt)
    (hk : schedule'.scheduleKind = schedule.scheduleKind)
    (hr : schedule'.runAt = schedule.runAt) : ScheduleRow schedule' occurrences clock' where
  decreasing := h.decreasing
  past o ho := (h.past o ho).trans hclock
  ahead := hn ▸ h.ahead
  once_next := by rw [hk, hn, hr]; exact h.once_next
  once_past := by rw [hk, hr]; exact h.once_past

/-- Pause and resume. -/
theorem update {env : Environment} {payload : TaskScheduleUpdate} {now now' : Instant}
    (h : ScheduleRow schedule occurrences clock) (hnow : clock ≤ now')
    (hu : updateTaskSchedule env schedule payload now now' = .ok schedule') :
    ScheduleRow schedule' occurrences now' := by
  unfold updateTaskSchedule at hu
  by_cases hresume : payload.enabled ∧ lapsed schedule.nextRunAt now
  · rw [if_pos hresume] at hu
    cases hi : initialNextRun env schedule.scheduleKind schedule.timezone now'
        (schedule.runAt.map RunAt.aware) schedule.intervalSeconds schedule.dailyTime with
    | error e => simp [hi] at hu
    | ok next =>
      simp only [hi, Except.ok.injEq] at hu
      subst hu
      obtain ⟨hgt, honce⟩ := initialNextRun_eq_ok hi
      refine ⟨h.decreasing, fun o ho => (h.past o ho).trans hnow, ?_, ?_, h.once_past⟩
      · intro n hn o ho
        obtain rfl := Option.some.inj hn
        exact lt_of_le_of_lt ((h.past o ho).trans hnow) hgt
      · intro hk n hn
        obtain rfl := Option.some.inj hn
        obtain ⟨at', hrun, heq⟩ := Option.map_eq_some_iff.mp (honce hk)
        cases heq
        exact hrun
  · rw [if_neg hresume, Except.ok.injEq] at hu
    subst hu
    exact h.keep hnow rfl rfl rfl

/-- A tick that has read its clock at `time`, perhaps long before it holds the row. -/
theorem dispatch {env : Environment} {tasks tasks' : Table Task} {id : UUID}
    {time createdAt : Instant} {run : Option QueuedRun}
    (h : ScheduleRow schedule occurrences clock) (htime : time ≤ clock)
    (hdue : passed schedule.nextRunAt time)
    (hs : dispatchSchedule env tasks schedule id time createdAt = .ok (tasks', schedule', run)) :
    ScheduleRow schedule' ((run.map QueuedRun.occurrence).toList ++ occurrences) clock := by
  obtain ⟨at', hat, hpast⟩ := hdue
  have moved {occurrence : Instant} {next : Option Instant}
      (hp : planDispatch env schedule time = .ok (occurrence, next)) (status : DispatchStatus) :
      ScheduleRow (dispatchMoved schedule time next status) occurrences clock := by
    obtain ⟨hlow, hhigh, hnext, honce⟩ := planDispatch_bounds hp hat hpast
    refine ⟨h.decreasing, h.past, ?_, ?_, h.once_past⟩
    · intro n hn o ho
      exact ((h.ahead at' hat o ho).trans_le hpast).trans (hnext n hn)
    · intro hk n hn
      exact absurd ((honce hk).2.symm.trans hn) (fun heq => by cases heq)
  rcases dispatchSchedule_eq_ok hs with ⟨e, -, -, rfl, rfl⟩ | ⟨o, n, st, hp, -, -, rfl, rfl⟩ |
    ⟨o, n, hp, -, -, -, rfl, rfl⟩
  · exact h.keep le_rfl rfl rfl rfl
  · exact moved hp st
  · obtain ⟨hlow, hhigh, hnext, honce⟩ := planDispatch_bounds hp hat hpast
    have hm := moved hp .queued
    have hnew (o' : Instant) (ho' : o' ∈ occurrences) : o' < o :=
      (h.ahead at' hat o' ho').trans_le hlow
    refine ⟨List.pairwise_cons.mpr ⟨hnew, h.decreasing⟩, ?_, ?_, hm.once_next, ?_⟩
    · intro o' ho'
      rcases List.mem_cons.mp ho' with rfl | ho'
      · exact hhigh.trans htime
      · exact h.past o' ho'
    · intro m hm' o' ho'
      rcases List.mem_cons.mp ho' with rfl | ho'
      · exact lt_of_le_of_lt hhigh (hnext m hm')
      · exact hm.ahead m hm' o' ho'
    · intro hk o' ho'
      rcases List.mem_cons.mp ho' with rfl | ho'
      · exact (honce hk).1 ▸ h.once_next hk at' hat
      · exact h.once_past hk o' ho'

/-- A one-time schedule is queued once at most. -/
theorem length_le_one (h : ScheduleRow schedule occurrences clock)
    (hk : schedule.scheduleKind = .once) : occurrences.length ≤ 1 := by
  match occurrences, h with
  | [], _ => exact Nat.zero_le 1
  | [o], _ => exact le_rfl
  | o :: o' :: rest, h =>
    have hlt : o > o' := (List.pairwise_cons.mp h.decreasing).1 o' List.mem_cons_self
    have heq : some o = some o' := (h.once_past hk o List.mem_cons_self).symm.trans
      (h.once_past hk o' (List.mem_cons_of_mem _ List.mem_cons_self))
    exact absurd (Option.some.inj heq) hlt.ne'

end ScheduleRow

/-! ### At most one active task -/

/-- No two tasks of one schedule are queued or running. -/
def OneActive (tasks : Table Task) : Prop :=
  ∀ t ∈ tasks.rows, ∀ t' ∈ tasks.rows, t.scheduleId ≠ none → t.scheduleId = t'.scheduleId →
    t.status.Active → t'.status.Active → t = t'

/-- Nothing becomes active: every active task of a schedule was there and active before. -/
theorem OneActive.of_views {tasks tasks' : Table Task} (h : OneActive tasks)
    (hback : ∀ t' ∈ tasks'.rows, t'.scheduleId ≠ none → t'.status.Active →
      ∃ t ∈ tasks.rows, t.id = t'.id ∧ t.scheduleId = t'.scheduleId ∧ t.status.Active) :
    OneActive tasks' := by
  intro t ht t' ht' hne heq hact hact'
  obtain ⟨s, hs, hid, hsid, hsact⟩ := hback t ht hne hact
  obtain ⟨s', hs', hid', hsid', hsact'⟩ := hback t' ht' (heq ▸ hne) hact'
  have hss : s = s' := h s hs s' hs' (hsid ▸ hne) (hsid.trans (heq.trans hsid'.symm)) hsact hsact'
  exact Table.eq_of_key ht ht' (hid.symm.trans ((congrArg Task.id hss).trans hid'))

theorem mem_of_insertTask {tasks tasks' : Table Task} {task t : Task}
    (h : insertTask tasks task = some tasks') : t ∈ tasks'.rows ↔ t ∈ tasks.rows ∨ t = task := by
  rw [Table.rows_insert? (insertTask_eq_some h).2, List.mem_append, List.mem_singleton]

/-- A task is queued for a schedule that has none active. -/
theorem OneActive.insert {tasks tasks' : Table Task} {task : Task} (h : OneActive tasks)
    (hi : insertTask tasks task = some tasks')
    (hnone : ∀ id, task.scheduleId = some id → activeScheduleTask tasks id = none) :
    OneActive tasks' := by
  have hother (t : Task) (ht : t ∈ tasks.rows) (hne : t.scheduleId ≠ none)
      (heq : t.scheduleId = task.scheduleId) : ¬ t.status.Active := by
    obtain ⟨id, hid⟩ := Option.ne_none_iff_exists'.mp hne
    exact activeScheduleTask_eq_none.mp (hnone id (heq ▸ hid)) t ht hid
  intro t ht t' ht' hne heq hact hact'
  rcases (mem_of_insertTask hi).mp ht with ht | rfl <;>
    rcases (mem_of_insertTask hi).mp ht' with ht' | rfl
  · exact h t ht t' ht' hne heq hact hact'
  · exact absurd hact (hother t ht hne heq)
  · exact absurd hact' (hother t' ht' (heq ▸ hne) heq.symm)
  · rfl

theorem OneActive.dispatchSchedule {env : Environment} {tasks tasks' : Table Task}
    {schedule schedule' : TaskSchedule} {id : UUID} {now createdAt : Instant}
    {run : Option QueuedRun} (h : OneActive tasks)
    (hs : dispatchSchedule env tasks schedule id now createdAt = .ok (tasks', schedule', run)) :
    OneActive tasks' := by
  rcases dispatchSchedule_eq_ok hs with ⟨e, -, rfl, -, -⟩ | ⟨o, n, st, -, -, rfl, -, -⟩ |
    ⟨o, n, -, -, hnone, hi, -, -⟩
  · exact h
  · exact h
  · exact h.insert hi fun id hid => Option.some.inj hid ▸ hnone

theorem OneActive.dispatchLoop {env : Environment} {ids : UUID → UUID} {now createdAt : Instant}
    {due : List TaskSchedule} {batch batch' : Batch} (h : OneActive batch.tasks)
    (hl : dispatchLoop env ids now createdAt due batch = .ok batch') : OneActive batch'.tasks := by
  induction due generalizing batch with
  | nil => exact Except.ok.inj hl ▸ h
  | cons schedule rest ih =>
    unfold AgentDemo.dispatchLoop at hl
    split at hl
    next => cases hl
    next hs => exact ih (h.dispatchSchedule hs) hl

theorem OneActive.extends {tasks tasks' : Table Task} (h : OneActive tasks)
    (hext : tasks.Extends (fun task => Inserted task ∧ task.scheduleId = none) tasks') :
    OneActive tasks' := by
  refine h.of_views fun t' ht' hne hact => ?_
  have hget' := Table.get?_eq_some.mpr ⟨ht', rfl⟩
  rcases hext t'.id with heq | ⟨-, r, ⟨-, hnone⟩, hr⟩
  · exact ⟨t', (Table.get?_eq_some.mp (heq ▸ hget')).1, rfl, rfl, hact⟩
  · exact absurd (Option.some.inj (hget'.symm.trans hr) ▸ hnone) hne

namespace World

variable {env : Environment} {w w' : World}

/-- Only agent tasks belong to schedules. -/
theorem Reachable.agent_of_schedule (hw : Reachable env w) {task : Task}
    (hmem : task ∈ w.tasks.rows) (hne : task.scheduleId ≠ none) : task.kind = .agent := by
  have hview := hw.view_invariant
    (I := fun v => ∀ t, v.row = some t → t.kind ≠ .agent → t.scheduleId = none)
    (fun _ h => nomatch h) ?_ task.id
  · by_contra hk
    exact hne (hview task (mem_rows_iff.mp hmem) hk)
  rintro ⟨row, es⟩ v' hI hs t hrow hk
  cases row with
  | none =>
    cases hs with
    | insert hi => exact Option.some.inj hrow ▸ hi.unscheduled (by rwa [Option.some.inj hrow])
  | some task =>
    obtain ⟨task', new, rfl, hframe⟩ := hs.frame
    obtain rfl := Option.some.inj hrow
    rw [hframe.scheduleId]
    exact hI task rfl (hframe.kind ▸ hk)

theorem oneActive_moves (hw : Reachable env w) (h : OneActive w.tasks)
    (hmoves : ∀ id, Moves (w.view id) (w'.view id)) : OneActive w'.tasks := by
  refine h.of_views fun t' ht' hne hact => ?_
  have hget' := mem_rows_iff.mp ht'
  rcases hmoves t'.id with heq | ⟨hrow, hs⟩
  · have hget : w.tasks.get? t'.id = some t' := (congrArg TaskView.row heq).symm.trans hget'
    exact ⟨t', mem_rows_iff.mpr hget, rfl, rfl, hact⟩
  · obtain ⟨t, ht⟩ := Option.ne_none_iff_exists'.mp hrow
    have hview : w.view t'.id = ⟨some t, w.entries t'.id⟩ := by rw [← ht]; rfl
    have hview' : w'.view t'.id = ⟨some t', w'.entries t'.id⟩ := by rw [view, hget']
    obtain ⟨hmem, hid⟩ := Table.get?_eq_some.mp ht
    rw [hview, hview'] at hs
    obtain ⟨t'', new, heq, hframe⟩ := hs.frame
    obtain rfl := Option.some.inj (congrArg TaskView.row heq)
    have hk := hw.agent_of_schedule hmem (hframe.scheduleId ▸ hne)
    refine ⟨t, hmem, hid, hframe.scheduleId.symm, ?_⟩
    rcases hs.status_cases hk with hst | ⟨hq, -⟩ | ⟨hr, -⟩
    · exact hst ▸ hact
    · exact Or.inl hq
    · exact Or.inr hr

theorem oneActive_step (hw : Reachable env w) (h : OneActive w.tasks) {a : Action}
    (hs : step env w a = some w') : OneActive w'.tasks := by
  obtain ⟨-, -, hallowed, rfl⟩ := step_eq_some hs
  show OneActive (w.apply env a.now a.now' a.event).tasks
  cases hevent : a.event with
  | createTask userId id payload =>
    simp only [apply]
    split
    next hc => exact h.extends (inserted_createTask hc)
    next => exact h
  | createAgentTask userId id payload before =>
    simp only [apply]
    split
    next hc => exact h.extends (inserted_createAgentTask hc)
    next => exact h
  | runTaskScheduleNow userId scheduleId id manualKey =>
    simp only [apply]
    split
    next => exact h
    next schedule _ =>
      split
      next hr =>
        obtain ⟨hnone, hi, -⟩ := runTaskScheduleNow_eq_ok hr
        exact h.insert hi fun id hid => Option.some.inj hid ▸ hnone
      next => exact h
  | dispatchDueSchedules time ids locked =>
    simp only [apply]
    split
    next hd => exact h.dispatchLoop hd
    next => exact h
  | _ =>
    rw [hevent] at hallowed
    exact oneActive_moves hw h (moves_apply env w a.now a.now' hallowed id)

theorem Reachable.oneActive (hw : Reachable env w) : OneActive w.tasks := by
  obtain ⟨conversations, clock, hrun⟩ := hw
  exact hrun.invariant_of (J := Reachable env) (I := fun u => OneActive u.tasks)
    (fun u hu => ⟨conversations, clock, hu⟩) (fun t ht => nomatch ht)
    fun u a v hu h hs => oneActive_step hu h hs

/-! ### Occurrences -/

def ScheduleInvariant (w : World) : Prop :=
  ∀ id, ScheduleOk (w.schedules.get? id) (runsOf id w.occurrences) w.clock

theorem scheduleOk_keep {row : Option TaskSchedule} {occurrences : List Instant}
    {clock clock' : Instant} (h : ScheduleOk row occurrences clock) (hclock : clock ≤ clock') :
    ScheduleOk row occurrences clock' :=
  ⟨h.1, fun s hs => (h.2 s hs).keep hclock rfl rfl rfl⟩

/-- One row is replaced by a consistent one. -/
theorem scheduleOk_write {w : World} {schedule schedule' : TaskSchedule} {clock : Instant}
    (h : w.ScheduleInvariant) (hclock : w.clock ≤ clock)
    (hget : w.schedules.get? schedule.id = some schedule) (hid : schedule'.id = schedule.id)
    (hrow : ScheduleRow schedule' (runsOf schedule.id w.occurrences) clock) (id : UUID) :
    ScheduleOk ((w.schedules.write schedule').get? id) (runsOf id w.occurrences) clock := by
  rw [Table.get?_write, key_taskSchedule, hid]
  by_cases heq : schedule.id = id
  · subst heq
    rw [if_pos rfl, hget]
    exact ⟨nofun, fun s hs => Option.some.inj hs ▸ hrow⟩
  · rw [if_neg heq]
    exact scheduleOk_keep (h id) hclock

/-- Workers do not touch the schedules. -/
theorem schedules_work (w : World) (runner : AgentTaskRunner) (lease : TaskLease)
    (now now' : Instant) (action : WorkerAction) :
    (w.work runner lease now now' action).schedules = w.schedules ∧
      (w.work runner lease now now' action).occurrences = w.occurrences := by
  cases action <;> simp only [work, underLease] <;> (repeat' split) <;> exact ⟨rfl, rfl⟩

theorem schedules_claim (w : World) (runner : AgentTaskRunner)
    (taskId conversationId token : UUID) (now now' : Instant) :
    (w.claim runner taskId conversationId token now now').schedules = w.schedules ∧
      (w.claim runner taskId conversationId token now now').occurrences = w.occurrences := by
  unfold claim
  (repeat' split) <;> exact ⟨rfl, rfl⟩

theorem scheduleInvariant_create {w : World} {schedules : Table TaskSchedule}
    {payload : TaskScheduleCreate} {userId id : UUID} {now clock : Instant}
    (h : w.ScheduleInvariant) (hclock : w.clock ≤ clock)
    (hc : createTaskSchedule env w.schedules w.conversations payload userId id now =
      .ok schedules) (id' : UUID) :
    ScheduleOk (schedules.get? id') (runsOf id' w.occurrences) clock := by
  obtain ⟨schedule, next, interval, hi, hn, hnext, hkind, hrunAt, -⟩ :=
    createTaskSchedule_eq_ok hc
  rw [Table.get?_insert? hi, key_taskSchedule]
  by_cases heq : schedule.id = id'
  · subst heq
    have hnil := (h schedule.id).1 (Table.insert?_fresh hi)
    rw [if_pos rfl, hnil]
    refine ⟨fun _ => rfl, fun s hs => ?_⟩
    obtain rfl := Option.some.inj hs
    refine ⟨List.Pairwise.nil, nofun, fun _ _ => nofun, fun hk n hn' => ?_, fun _ => nofun⟩
    have honce := (initialNextRun_eq_ok hn).2 (hkind ▸ hk)
    rw [hrunAt, honce]
    exact hnext.symm.trans hn'
  · rw [if_neg heq]
    exact scheduleOk_keep (h id') hclock

theorem scheduleInvariant_dispatch {w : World} {ids : UUID → UUID} {locked : UUID → Bool}
    {time createdAt clock : Instant} {batch : Batch} (h : w.ScheduleInvariant)
    (hclock : w.clock ≤ clock) (htime : time ≤ w.clock)
    (hd : AgentDemo.dispatchDueSchedules env w.tasks w.schedules ids locked time createdAt =
      .ok batch) (id : UUID) :
    ScheduleOk (batch.schedules.get? id) (runsOf id (batch.runs ++ w.occurrences)) clock := by
  rw [runsOf_append]
  rcases dispatchLoop_view (nodup_dueSchedules w.schedules time locked) hd id with
    ⟨-, hget, hruns⟩ | ⟨schedule, hdue, rfl, tasks, tasks', schedule', run, hs, hget, hruns⟩
  · rw [hget, hruns]
    exact scheduleOk_keep (h id) hclock
  · obtain ⟨hmem, -, hpassed, -⟩ := mem_dueSchedules hdue
    have hrow : w.schedules.get? schedule.id = some schedule :=
      Table.get?_eq_some.mpr ⟨hmem, rfl⟩
    have hget' : batch.schedules.get? schedule.id = some schedule' :=
      hget.trans (congrArg (Option.map fun _ => schedule') hrow)
    have hruns' : runsOf schedule.id batch.runs = (run.map QueuedRun.occurrence).toList := hruns
    rw [hget', hruns']
    refine ⟨nofun, fun s hs' => ?_⟩
    obtain rfl := Option.some.inj hs'
    exact (((h schedule.id).2 schedule hrow).dispatch htime hpassed hs).keep hclock rfl rfl rfl

theorem scheduleInvariant_step (h : w.ScheduleInvariant) {a : Action}
    (hs : step env w a = some w') : w'.ScheduleInvariant := by
  obtain ⟨hnow, hnow', hallowed, rfl⟩ := step_eq_some hs
  have hclock : w.clock ≤ a.now' := hnow.trans hnow'
  intro id
  show ScheduleOk ((w.apply env a.now a.now' a.event).schedules.get? id)
    (runsOf id (w.apply env a.now a.now' a.event).occurrences) a.now'
  have same := scheduleOk_keep (h id) hclock
  cases hevent : a.event with
  | idle => exact same
  | createTaskSchedule userId id' payload =>
    simp only [apply]
    split
    next hc => exact scheduleInvariant_create h hclock hc id
    next => exact same
  | updateTaskSchedule userId scheduleId payload =>
    simp only [apply]
    split
    next => exact same
    next schedule hget =>
      split
      next schedule' hu =>
        obtain ⟨hmem, hid⟩ := Table.get?_eq_some.mp (Option.filter_eq_some_iff.mp hget).1
        have hrow := Table.get?_eq_some.mpr ⟨hmem, rfl⟩
        exact scheduleOk_write h hclock hrow (id_updateTaskSchedule hu)
          (((h schedule.id).2 schedule hrow).update hclock hu) id
      next => exact same
  | runTaskScheduleNow userId scheduleId id' manualKey =>
    simp only [apply]
    split
    next => exact same
    next schedule hget =>
      split
      next hr =>
        obtain ⟨-, -, rfl⟩ := runTaskScheduleNow_eq_ok hr
        obtain ⟨hmem, hid⟩ := Table.get?_eq_some.mp (Option.filter_eq_some_iff.mp hget).1
        have hrow := Table.get?_eq_some.mpr ⟨hmem, rfl⟩
        exact scheduleOk_write h hclock hrow (id_markRan schedule id' a.now')
          (((h schedule.id).2 schedule hrow).keep hclock rfl rfl rfl) id
      next => exact same
  | dispatchDueSchedules time ids locked =>
    rw [hevent] at hallowed
    simp only [apply]
    split
    next hd => exact scheduleInvariant_dispatch h hclock hallowed hd id
    next => exact same
  | claim runner taskId conversationId token =>
    obtain ⟨heq, heq'⟩ := schedules_claim w runner taskId conversationId token a.now a.now'
    simpa only [apply, heq, heq'] using same
  | worker runner lease action =>
    obtain ⟨heq, heq'⟩ := schedules_work w runner lease a.now a.now' action
    simpa only [apply, heq, heq'] using same
  | _ =>
    simp only [apply]
    (repeat' split) <;> exact same

theorem Reachable.scheduleInvariant (hw : Reachable env w) : w.ScheduleInvariant := by
  obtain ⟨conversations, clock, hrun⟩ := hw
  refine hrun.invariant (I := ScheduleInvariant) (fun id => ⟨fun _ => rfl, fun s hs => ?_⟩)
    fun u a v h hs => scheduleInvariant_step h hs
  simp [initial] at hs

/-! ### What one transaction does to one schedule -/

inductive ScheduleChange (env : Environment) (a : Action) (s : TaskSchedule) : TaskSchedule → Prop
  | same : ScheduleChange env a s s
  | update {s' : TaskSchedule} (userId : UUID) (payload : TaskScheduleUpdate)
      (hevent : a.event = .updateTaskSchedule userId s.id payload)
      (hu : AgentDemo.updateTaskSchedule env s payload a.now a.now' = .ok s') :
      ScheduleChange env a s s'
  | ran (taskId : UUID) : ScheduleChange env a s (markRan s taskId a.now')
  | dispatch {s' : TaskSchedule} {tasks tasks' : Table Task} {id : UUID} {run : Option QueuedRun}
      (time : Instant) (henabled : s.enabled) (hdue : passed s.nextRunAt time)
      (hs : dispatchSchedule env tasks s id time a.now = .ok (tasks', s', run)) :
      ScheduleChange env a s s'

theorem get?_write_cases {schedules : Table TaskSchedule} {s : TaskSchedule} {id : UUID}
    (s' : TaskSchedule) (hget : schedules.get? s'.id = some s) {t : TaskSchedule}
    (ht : schedules.get? id = some t) :
    (t = s ∧ (schedules.write s').get? id = some s') ∨
      (schedules.write s').get? id = some t := by
  rw [Table.get?_write, key_taskSchedule]
  by_cases heq : s'.id = id
  · subst heq
    obtain rfl := Option.some.inj (hget.symm.trans ht)
    exact Or.inl ⟨rfl, by rw [if_pos rfl, hget]; rfl⟩
  · exact Or.inr (by rw [if_neg heq, ht])

/-- No transaction deletes a row. -/
theorem scheduleChange_apply (env : Environment) (w : World) (a : Action) {id : UUID}
    {s : TaskSchedule} (hget : w.schedules.get? id = some s) :
    ∃ s', (w.apply env a.now a.now' a.event).schedules.get? id = some s' ∧
      ScheduleChange env a s s' := by
  have hid : s.id = id := (Table.get?_eq_some.mp hget).2
  cases hevent : a.event with
  | idle => exact ⟨s, hget, .same⟩
  | createTaskSchedule userId id' payload =>
    simp only [apply]
    split
    next hc =>
      obtain ⟨new, -, -, hi, -⟩ := createTaskSchedule_eq_ok hc
      refine ⟨s, ?_, .same⟩
      rw [Table.get?_insert? hi, if_neg, hget]
      rintro rfl
      exact absurd (hget.symm.trans (Table.insert?_fresh hi)) (by simp)
    next => exact ⟨s, hget, .same⟩
  | updateTaskSchedule userId scheduleId payload =>
    simp only [apply]
    split
    next => exact ⟨s, hget, .same⟩
    next s₀ howned =>
      split
      next s' hu =>
        have hget₀ := (Option.filter_eq_some_iff.mp howned).1
        obtain rfl : s₀.id = scheduleId := (Table.get?_eq_some.mp hget₀).2
        have hid₀ := id_updateTaskSchedule hu
        rcases get?_write_cases s' (hid₀.symm ▸ hget₀) hget with ⟨rfl, hnew⟩ | hnew
        · exact ⟨s', hnew, .update userId payload hevent hu⟩
        · exact ⟨s, hnew, .same⟩
      next => exact ⟨s, hget, .same⟩
  | runTaskScheduleNow userId scheduleId id' manualKey =>
    simp only [apply]
    split
    next => exact ⟨s, hget, .same⟩
    next s₀ howned =>
      split
      next hr =>
        obtain ⟨-, -, rfl⟩ := runTaskScheduleNow_eq_ok hr
        have hget₀ := (Option.filter_eq_some_iff.mp howned).1
        obtain rfl : s₀.id = scheduleId := (Table.get?_eq_some.mp hget₀).2
        rcases get?_write_cases (markRan s₀ id' a.now') hget₀ hget with ⟨rfl, hnew⟩ | hnew
        · exact ⟨_, hnew, .ran id'⟩
        · exact ⟨s, hnew, .same⟩
      next => exact ⟨s, hget, .same⟩
  | dispatchDueSchedules time ids locked =>
    simp only [apply]
    split
    next batch hd =>
      rcases dispatchLoop_view (nodup_dueSchedules w.schedules time locked) hd id with
        ⟨-, heq, -⟩ | ⟨s₀, hdue, rfl, tasks, tasks', s', run, hs, heq, -⟩
      · exact ⟨s, heq.trans hget, .same⟩
      · obtain ⟨hmem, henabled, hpassed, -⟩ := mem_dueSchedules hdue
        obtain rfl := Table.eq_of_key hmem (Table.get?_eq_some.mp hget).1 hid.symm
        exact ⟨s', heq.trans (congrArg (Option.map fun _ => s') hget),
          .dispatch time henabled hpassed hs⟩
    next => exact ⟨s, hget, .same⟩
  | claim runner taskId conversationId token =>
    refine ⟨s, ?_, .same⟩
    simpa only [apply, (schedules_claim w runner taskId conversationId token a.now a.now').1]
      using hget
  | worker runner lease action =>
    refine ⟨s, ?_, .same⟩
    simpa only [apply, (schedules_work w runner lease a.now a.now' action).1] using hget
  | _ =>
    simp only [apply]
    (repeat' split) <;> exact ⟨s, hget, .same⟩

/-- A row that was not there before is a created one. -/
theorem created_of_apply {a : Action} {id : UUID} {s : TaskSchedule}
    (hnone : w.schedules.get? id = none)
    (hget : (w.apply env a.now a.now' a.event).schedules.get? id = some s) :
    ∃ schedules userId id' payload, createTaskSchedule env w.schedules w.conversations payload
      userId id' a.now = .ok schedules ∧ w.schedules.insert? s = some schedules := by
  have absent {schedules : Table TaskSchedule} (heq : schedules.get? id = none)
      (hget : schedules.get? id = some s) : False := by
    rw [heq] at hget
    cases hget
  have written (s' : TaskSchedule) (hget : (w.schedules.write s').get? id = some s) : False := by
    refine absent ?_ hget
    rw [Table.get?_write, hnone]
    simp
  cases hevent : a.event with
  | createTaskSchedule userId id' payload =>
    rw [hevent] at hget
    simp only [apply] at hget
    split at hget
    next schedules hc =>
      obtain ⟨new, -, -, hi, -⟩ := createTaskSchedule_eq_ok hc
      rw [Table.get?_insert? hi] at hget
      split_ifs at hget with heq
      · obtain rfl := Option.some.inj hget
        exact ⟨schedules, userId, id', payload, hc, hi⟩
      · exact (absent hnone hget).elim
    next => exact (absent hnone hget).elim
  | updateTaskSchedule userId scheduleId payload =>
    rw [hevent] at hget
    simp only [apply] at hget
    repeat' split at hget
    · exact (absent hnone hget).elim
    · exact (written _ hget).elim
    · exact (absent hnone hget).elim
  | runTaskScheduleNow userId scheduleId id' manualKey =>
    rw [hevent] at hget
    simp only [apply] at hget
    split at hget
    next => exact (absent hnone hget).elim
    next =>
      split at hget
      next hr =>
        obtain ⟨-, -, rfl⟩ := runTaskScheduleNow_eq_ok hr
        exact (written _ hget).elim
      next => exact (absent hnone hget).elim
  | dispatchDueSchedules time ids locked =>
    rw [hevent] at hget
    simp only [apply] at hget
    split at hget
    next batch hd =>
      rcases dispatchLoop_view (nodup_dueSchedules w.schedules time locked) hd id with
        ⟨-, heq, -⟩ | ⟨_, _, _, _, _, _, _, _, heq, -⟩
      · exact (absent (heq.trans hnone) hget).elim
      · exact (absent (heq.trans (congrArg (Option.map _) hnone)) hget).elim
    next => exact (absent hnone hget).elim
  | claim runner taskId conversationId token =>
    rw [hevent] at hget
    simp only [apply, (schedules_claim w runner taskId conversationId token a.now a.now').1] at hget
    exact (absent hnone hget).elim
  | worker runner lease action =>
    rw [hevent] at hget
    simp only [apply, (schedules_work w runner lease a.now a.now' action).1] at hget
    exact (absent hnone hget).elim
  | _ =>
    rw [hevent] at hget
    simp only [apply] at hget
    (repeat' split at hget) <;> exact (absent hnone hget).elim

/-- A condition on the rows that creation and every change establish. -/
structure KeptBySchedules (env : Environment) (P : TaskSchedule → Prop) : Prop where
  create : ∀ {schedules schedules' : Table TaskSchedule} {conversations : Table Conversation}
    {payload : TaskScheduleCreate} {userId id : UUID} {now : Instant} {s : TaskSchedule},
    createTaskSchedule env schedules conversations payload userId id now = .ok schedules' →
    schedules.insert? s = some schedules' → P s
  change : ∀ {a : Action} {s s' : TaskSchedule}, P s → ScheduleChange env a s s' → P s'

theorem KeptBySchedules.apply {P : TaskSchedule → Prop} (hP : KeptBySchedules env P) (a : Action)
    (h : ∀ s ∈ w.schedules.rows, P s) :
    ∀ s ∈ (w.apply env a.now a.now' a.event).schedules.rows, P s := by
  intro s hs
  have hget := Table.get?_eq_some.mpr ⟨hs, rfl⟩
  cases hbefore : w.schedules.get? (Keyed.key s) with
  | none =>
    obtain ⟨schedules, userId, id, payload, hc, hi⟩ := created_of_apply hbefore hget
    exact hP.create hc hi
  | some s₀ =>
    obtain ⟨s', hget', hchange⟩ := scheduleChange_apply env w a hbefore
    obtain rfl := Option.some.inj (hget.symm.trans hget')
    exact hP.change (h s₀ (Table.get?_eq_some.mp hbefore).1) hchange

theorem Reachable.forall_schedules {P : TaskSchedule → Prop} (hw : Reachable env w)
    (hP : KeptBySchedules env P) : ∀ s ∈ w.schedules.rows, P s := by
  obtain ⟨conversations, clock, hrun⟩ := hw
  refine hrun.invariant (I := fun u => ∀ s ∈ u.schedules.rows, P s) ?_ ?_
  · intro s hs
    simp [initial, Table.empty] at hs
  · intro u a v h hs
    obtain ⟨-, -, -, rfl⟩ := step_eq_some hs
    exact hP.apply a h

/-- A schedule has one active task at most, the occurrences that ticks queue for it increase
strictly, so that no key repeats, and a one-time schedule is queued by ticks once at most. -/
theorem schedule_runs_once (hw : Reachable env w) (scheduleId : UUID) :
    (∀ t ∈ w.tasks.rows, ∀ t' ∈ w.tasks.rows, t.scheduleId = some scheduleId →
      t'.scheduleId = some scheduleId → t.status.Active → t'.status.Active → t = t') ∧
    (runsOf scheduleId w.occurrences).Pairwise (· > ·) ∧
    ((runsOf scheduleId w.occurrences).map
      fun o => scheduleKey scheduleId (IsoFormat.isoformat o)).Nodup ∧
    ∀ schedule, w.schedules.get? scheduleId = some schedule → schedule.scheduleKind = .once →
      (runsOf scheduleId w.occurrences).length ≤ 1 := by
  have hdecreasing : (runsOf scheduleId w.occurrences).Pairwise (· > ·) := by
    obtain ⟨hnone, hsome⟩ := hw.scheduleInvariant scheduleId
    cases hget : w.schedules.get? scheduleId with
    | none =>
      rw [hnone hget]
      exact List.Pairwise.nil
    | some schedule => exact (hsome schedule hget).decreasing
  refine ⟨?_, hdecreasing, ?_, ?_⟩
  · intro t ht t' ht' hs hs' hact hact'
    exact hw.oneActive t ht t' ht' (by simp [hs]) (hs.trans hs'.symm) hact hact'
  · refine List.Nodup.map (fun o o' heq => ?_) (hdecreasing.imp fun h => h.ne')
    exact IsoFormat.isoformat_injective (scheduleKey_injective heq).2
  · intro schedule hget hk
    exact ((hw.scheduleInvariant scheduleId).2 schedule hget).length_le_one hk

def tickWorld : World :=
  ofRun sampleEnvironment (requests "report-2024" sampleKey_length ++
    [⟨.idle, seconds 100, seconds 100⟩,
      ⟨.dispatchDueSchedules (seconds 100) (· + 100) fun _ => false, seconds 101, seconds 101⟩])

theorem schedule_runs_once_sample :
    runsOf 10 tickWorld.occurrences = [seconds 100] ∧
      ((runsOf 10 tickWorld.occurrences).map
        fun o => scheduleKey 10 (IsoFormat.isoformat o)).Nodup :=
  ⟨by decide, (schedule_runs_once (reachable_ofRun _ (by decide)) 10).2.2.1⟩

end World

end AgentDemo
