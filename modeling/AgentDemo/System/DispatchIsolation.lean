import AgentDemo.Services.Dispatch
import AgentDemo.System.World

/-! When one tick treats every schedule as if it were the only one. -/
namespace AgentDemo

/-- A tick queues a task of the schedule for this occurrence. -/
def Queues (env : Environment) (tasks : Table Task) (schedule : TaskSchedule)
    (now occurrence : Instant) : Prop :=
  (∃ next, planDispatch env schedule now = .ok (occurrence, next)) ∧
    now - occurrence ≤ seconds schedule.misfireGraceSeconds ∧
    activeScheduleTask tasks schedule.id = none

/-- The key of the task that a tick would queue already belongs to a task of the same owner. -/
def KeyTaken (env : Environment) (tasks : Table Task) (schedule : TaskSchedule)
    (now : Instant) : Prop :=
  ∃ occurrence, Queues env tasks schedule now occurrence ∧ ∃ t ∈ tasks.rows,
    t.userId = some schedule.userId ∧
    t.idempotencyKey = some (scheduleKey schedule.id (IsoFormat.isoformat occurrence))

/-- The same database with one schedule enabled. -/
def onlyDue (schedules : Table TaskSchedule) (id : UUID) : Table TaskSchedule :=
  schedules.update (fun s => if s.id = id then s else { s with enabled := false }) (by
    intro s
    by_cases h : s.id = id <;> simp [h])

def rowsOf (scheduleId : UUID) (tasks : Table Task) : List Task :=
  tasks.rows.filter fun t => t.scheduleId = some scheduleId

/-- Every selected schedule ends with the row and the tasks that a tick over it alone gives it. -/
def Isolated (env : Environment) (tasks : Table Task) (schedules : Table TaskSchedule)
    (ids : UUID → UUID) (locked : UUID → Bool) (now createdAt : Instant) (batch : Batch) : Prop :=
  ∀ s ∈ dueSchedules schedules now locked, ∃ solo,
    dispatchDueSchedules env tasks (onlyDue schedules s.id) ids locked now createdAt = .ok solo ∧
    batch.schedules.get? s.id = solo.schedules.get? s.id ∧
    rowsOf s.id batch.tasks = rowsOf s.id solo.tasks

/-- Tasks queued for the schedules `done` have been added to `tasks`. -/
def GrownBy (ids : UUID → UUID) (createdAt : Instant) (done : List TaskSchedule)
    (tasks tasks' : Table Task) : Prop :=
  ∃ added, tasks'.rows = tasks.rows ++ added ∧ ∀ t ∈ added, ∃ s ∈ done, ∃ occurrence,
    t = buildScheduledTask s (ids s.id) occurrence none createdAt

section

variable {env : Environment} {ids : UUID → UUID} {now createdAt : Instant}
  {done due : List TaskSchedule} {tasks tasks' : Table Task} {schedule : TaskSchedule}

theorem activeScheduleTask_congr (h : rowsOf schedule.id tasks' = rowsOf schedule.id tasks) :
    activeScheduleTask tasks' schedule.id = activeScheduleTask tasks schedule.id := by
  have hfilter (t : Table Task) : (t.rows.filter fun x =>
      x.scheduleId = some schedule.id ∧ x.status.Active) =
      (rowsOf schedule.id t).filter fun x => x.status.Active := by
    rw [rowsOf, List.filter_filter]
    simp [Bool.and_comm]
  rw [activeScheduleTask, activeScheduleTask, hfilter, hfilter, h]

theorem GrownBy.rowsOf_eq (h : GrownBy ids createdAt done tasks tasks')
    (hnot : schedule.id ∉ done.map TaskSchedule.id) :
    rowsOf schedule.id tasks' = rowsOf schedule.id tasks := by
  obtain ⟨added, hrows, hadded⟩ := h
  have hnone : added.filter (fun t => t.scheduleId = some schedule.id) = [] := by
    refine List.filter_eq_nil_iff.mpr fun t ht => ?_
    obtain ⟨s, hs, o, rfl⟩ := hadded t ht
    have hne : s.id ≠ schedule.id := fun heq => hnot (heq ▸ List.mem_map_of_mem hs)
    simpa [buildScheduledTask] using hne
  rw [rowsOf, rowsOf, hrows, List.filter_append, hnone, List.append_nil]

theorem sameKey_buildScheduledTask (t : Task) (id : UUID) (occurrence : Instant) :
    SameKey t (buildScheduledTask schedule id occurrence none createdAt) ↔
      t.userId = some schedule.userId ∧
      t.idempotencyKey = some (scheduleKey schedule.id (IsoFormat.isoformat occurrence)) := by
  constructor
  · rintro ⟨-, hu, -, hk⟩
    exact ⟨hu, hk⟩
  · rintro ⟨hu, hk⟩
    exact ⟨by simp [hu], hu, by simp [hk], hk⟩

/-- A due schedule is dispatched unless its key is taken. -/
theorem dispatchSchedule_ok_iff {id : UUID} (createdAt : Instant)
    (hfresh : tasks.get? id = none) :
    (∃ r, dispatchSchedule env tasks schedule id now createdAt = .ok r) ↔
      ¬ KeyTaken env tasks schedule now := by
  constructor
  · rintro ⟨⟨t, s, run⟩, h⟩ ⟨occurrence, ⟨⟨next, hp⟩, hgrace, hnone⟩, t', ht', hkey⟩
    rcases dispatchSchedule_eq_ok h with ⟨e, hp', -⟩ | ⟨o, n, st, hp', hback, -⟩ |
      ⟨o, n, hp', -, -, hi, -⟩ <;> rw [hp] at hp' <;> cases hp'
    · exact hback.elim (not_lt.mpr hgrace) (absurd hnone)
    · exact (insertTask_eq_some hi).1 t' ht'
        ((sameKey_buildScheduledTask t' id occurrence).mpr hkey)
  · intro h
    unfold dispatchSchedule
    cases hp : planDispatch env schedule now with
    | error e => exact ⟨_, rfl⟩
    | ok plan =>
      obtain ⟨occurrence, next⟩ := plan
      simp only
      split_ifs with hmissed hactive
      · exact ⟨_, rfl⟩
      · exact ⟨_, rfl⟩
      · have hqueues : Queues env tasks schedule now occurrence :=
          ⟨⟨next, hp⟩, not_lt.mp hmissed, by simpa using hactive⟩
        have hnew : ∀ t ∈ tasks.rows,
            ¬ SameKey t (buildScheduledTask schedule id occurrence none createdAt) :=
          fun t ht hsame => h ⟨occurrence, hqueues, t, ht, (sameKey_buildScheduledTask t id
            occurrence).mp hsame⟩
        obtain ⟨inserted, hi⟩ := (insertTask_isSome_iff hfresh).mpr hnew
        rw [hi]
        exact ⟨_, rfl⟩

theorem GrownBy.mono {done' : List TaskSchedule} (h : GrownBy ids createdAt done tasks tasks')
    (hsub : done ⊆ done') : GrownBy ids createdAt done' tasks tasks' := by
  obtain ⟨added, hrows, hadded⟩ := h
  refine ⟨added, hrows, fun t ht => ?_⟩
  obtain ⟨s, hs, o, rfl⟩ := hadded t ht
  exact ⟨s, hsub hs, o, rfl⟩

theorem GrownBy.fresh {id : UUID} (h : GrownBy ids createdAt done tasks tasks')
    (hfresh : tasks.get? id = none) (hids : ∀ s ∈ done, ids s.id ≠ id) :
    tasks'.get? id = none := by
  obtain ⟨added, hrows, hadded⟩ := h
  refine Table.get?_eq_none.mpr fun t ht => ?_
  rw [hrows] at ht
  rcases List.mem_append.mp ht with ht | ht
  · exact Table.get?_eq_none.mp hfresh t ht
  · obtain ⟨s, hs, o, rfl⟩ := hadded t ht
    exact hids s hs

/-- Tasks queued for other schedules never take the key of a schedule. -/
theorem GrownBy.not_sameKey {id : UUID} {occurrence : Instant} {t : Task}
    (h : GrownBy ids createdAt done tasks tasks') (hnot : schedule.id ∉ done.map TaskSchedule.id)
    (ht : t ∈ tasks'.rows)
    (hsame : SameKey t (buildScheduledTask schedule id occurrence none createdAt)) :
    t ∈ tasks.rows := by
  obtain ⟨added, hrows, hadded⟩ := h
  rw [hrows] at ht
  rcases List.mem_append.mp ht with ht | ht
  · exact ht
  · obtain ⟨s, hs, o, rfl⟩ := hadded t ht
    have hkey := ((sameKey_buildScheduledTask _ id occurrence).mp hsame).2
    have hid := (scheduleKey_injective (Option.some.inj hkey)).1
    exact absurd (List.mem_map_of_mem hs) (hid ▸ hnot)

/-- Tasks queued for other schedules do not change what the loop body does. -/
theorem dispatchSchedule_grown (hgrown : GrownBy ids createdAt done tasks tasks')
    (hnot : schedule.id ∉ done.map TaskSchedule.id)
    (hfresh : tasks.get? (ids schedule.id) = none)
    (hids : ∀ s ∈ done, ids s.id ≠ ids schedule.id)
    (hkey : ¬ KeyTaken env tasks schedule now) :
    ∃ solo both schedule' run,
      dispatchSchedule env tasks schedule (ids schedule.id) now createdAt =
        .ok (solo, schedule', run) ∧
      dispatchSchedule env tasks' schedule (ids schedule.id) now createdAt =
        .ok (both, schedule', run) ∧
      GrownBy ids createdAt (done ++ [schedule]) tasks both ∧
      rowsOf schedule.id both = rowsOf schedule.id solo := by
  have hrows := hgrown.rowsOf_eq hnot
  have hkept := hgrown.mono (List.subset_append_left done [schedule])
  unfold dispatchSchedule
  rw [activeScheduleTask_congr hrows]
  cases hp : planDispatch env schedule now with
  | error e => exact ⟨_, _, _, _, rfl, rfl, hkept, hrows⟩
  | ok plan =>
    obtain ⟨occurrence, next⟩ := plan
    simp only
    split_ifs with hmissed hactive
    · exact ⟨_, _, _, _, rfl, rfl, hkept, hrows⟩
    · exact ⟨_, _, _, _, rfl, rfl, hkept, hrows⟩
    · set task := buildScheduledTask schedule (ids schedule.id) occurrence none createdAt with htask
      have hqueues : Queues env tasks schedule now occurrence :=
        ⟨⟨next, hp⟩, not_lt.mp hmissed, by simpa using hactive⟩
      have hnew : ∀ t ∈ tasks.rows, ¬ SameKey t task := fun t ht hsame =>
        hkey ⟨occurrence, hqueues, t, ht, (sameKey_buildScheduledTask t _ occurrence).mp hsame⟩
      obtain ⟨solo, hsolo⟩ := (insertTask_isSome_iff hfresh).mpr hnew
      obtain ⟨both, hboth⟩ := (insertTask_isSome_iff (hgrown.fresh hfresh hids)).mpr
        fun t ht hsame => hnew t (hgrown.not_sameKey hnot ht hsame) hsame
      rw [hsolo, hboth]
      have hr := Table.rows_insert? (insertTask_eq_some hboth).2
      have hr' := Table.rows_insert? (insertTask_eq_some hsolo).2
      refine ⟨solo, both, _, _, rfl, rfl, ?_, ?_⟩
      · obtain ⟨added, hadd, hadded⟩ := hkept
        refine ⟨added ++ [task], by rw [hr, hadd, List.append_assoc], fun t ht => ?_⟩
        rcases List.mem_append.mp ht with ht | ht
        · exact hadded t ht
        · exact ⟨schedule, by simp, occurrence, List.mem_singleton.mp ht⟩
      · simp only [rowsOf] at hrows ⊢
        rw [hr, hr', List.filter_append, List.filter_append, hrows]

/-- Later rounds of the loop leave the tasks of other schedules alone. -/
theorem rowsOf_dispatchLoop {batch batch' : Batch} {id : UUID}
    (h : dispatchLoop env ids now createdAt due batch = .ok batch')
    (hnot : id ∉ due.map TaskSchedule.id) : rowsOf id batch'.tasks = rowsOf id batch.tasks := by
  induction due generalizing batch with
  | nil => rw [Except.ok.inj h]
  | cons s rest ih =>
    rw [List.map_cons, List.mem_cons, not_or] at hnot
    unfold dispatchLoop at h
    split at h
    next => cases h
    next t s' run hs =>
      rw [ih h hnot.2]
      rcases dispatchSchedule_eq_ok hs with ⟨e, -, rfl, -⟩ | ⟨o, n, st, -, -, rfl, -⟩ |
        ⟨o, n, -, -, -, hi, -⟩
      · rfl
      · rfl
      · have hne : ¬ (buildScheduledTask s (ids s.id) o none createdAt).scheduleId = some id :=
          fun heq => hnot.1 (Option.some.inj heq).symm
        simp [rowsOf, Table.rows_insert? (insertTask_eq_some hi).2, hne]

/-- The loop over the schedules `due`, entered after those in `done`. -/
theorem dispatchLoop_isolated (batch : Batch)
    (hgrown : GrownBy ids createdAt done tasks batch.tasks)
    (hnodup : ((done ++ due).map TaskSchedule.id).Nodup)
    (hfresh : ∀ s ∈ done ++ due, tasks.get? (ids s.id) = none)
    (hids : ∀ s ∈ done ++ due, ∀ s' ∈ done ++ due, ids s.id = ids s'.id → s.id = s'.id)
    (hkeys : ∀ s ∈ due, ¬ KeyTaken env tasks s now) :
    ∃ batch', dispatchLoop env ids now createdAt due batch = .ok batch' ∧
      ∀ s ∈ due, ∃ solo schedule' run,
        dispatchSchedule env tasks s (ids s.id) now createdAt = .ok (solo, schedule', run) ∧
        batch'.schedules.get? s.id = (batch.schedules.get? s.id).map (fun _ => schedule') ∧
        rowsOf s.id batch'.tasks = rowsOf s.id solo := by
  induction due generalizing batch done with
  | nil => exact ⟨batch, rfl, fun s hs => absurd hs List.not_mem_nil⟩
  | cons s rest ih =>
    have hsplit : done ++ s :: rest = (done ++ [s]) ++ rest := by simp
    have hnot : s.id ∉ done.map TaskSchedule.id := by
      intro hmem
      rw [List.map_append, List.map_cons, List.nodup_append] at hnodup
      exact hnodup.2.2 _ hmem _ List.mem_cons_self rfl
    have hrest : s.id ∉ rest.map TaskSchedule.id := by
      rw [List.map_append, List.map_cons, List.nodup_append] at hnodup
      exact (List.nodup_cons.mp hnodup.2.1).1
    have hmem : s ∈ done ++ s :: rest := by simp
    obtain ⟨solo, both, schedule', run, hsolo, hboth, hgrown', hrows⟩ :=
      dispatchSchedule_grown hgrown hnot (hfresh s hmem)
        (fun s' hs' heq => hnot (hids s' (List.mem_append_left _ hs') s hmem heq ▸
          List.mem_map_of_mem hs')) (hkeys s List.mem_cons_self)
    rw [hsplit] at hnodup hfresh hids
    obtain ⟨batch', hloop, hother⟩ := ih ⟨both, batch.schedules.write schedule',
      batch.runs ++ run.toList⟩ hgrown' hnodup hfresh hids
      fun s' hs' => hkeys s' (List.mem_cons_of_mem _ hs')
    have hid : schedule'.id = s.id := (id_of_dispatchSchedule hsolo).1
    have hget (id : UUID) : (batch.schedules.write schedule').get? id =
        if s.id = id then (batch.schedules.get? id).map fun _ => schedule'
        else batch.schedules.get? id := by
      rw [Table.get?_write, key_taskSchedule, hid]
    refine ⟨batch', ?_, fun s' hs' => ?_⟩
    · unfold dispatchLoop
      rw [hboth]
      exact hloop
    · rcases List.mem_cons.mp hs' with rfl | hs'
      · refine ⟨solo, schedule', run, hsolo, ?_, (rowsOf_dispatchLoop hloop hrest).trans hrows⟩
        rw [List.map_append, List.nodup_append] at hnodup
        rcases dispatchLoop_view hnodup.2.1 hloop s'.id with ⟨-, hget', -⟩ | ⟨x, hx, hxid, -⟩
        · rw [hget', hget, if_pos rfl]
        · exact absurd (hxid ▸ List.mem_map_of_mem hx) hrest
      · obtain ⟨solo', schedule'', run', hsolo', hget', hrows'⟩ := hother s' hs'
        refine ⟨solo', schedule'', run', hsolo', ?_, hrows'⟩
        have hne : s.id ≠ s'.id := fun heq => hrest (heq ▸ List.mem_map_of_mem hs')
        rw [hget', hget, if_neg hne]

end

/-- In the database with one selected schedule enabled, that schedule is selected alone. -/
theorem dueSchedules_onlyDue {schedules : Table TaskSchedule} {now : Instant}
    {locked : UUID → Bool} {s : TaskSchedule} (hs : s ∈ dueSchedules schedules now locked) :
    dueSchedules (onlyDue schedules s.id) now locked = [s] := by
  obtain ⟨hmem, henabled, hpassed, hlocked⟩ := mem_dueSchedules hs
  have hnodup : ((onlyDue schedules s.id).rows.filter fun x =>
      x.enabled ∧ passed x.nextRunAt now ∧ locked x.id = false).Nodup :=
    ((onlyDue schedules s.id).nodup.of_map _).filter _
  have hsingle : ((onlyDue schedules s.id).rows.filter fun x =>
      x.enabled ∧ passed x.nextRunAt now ∧ locked x.id = false) = [s] := by
    refine List.perm_singleton.mp ((List.perm_ext_iff_of_nodup hnodup (List.nodup_singleton s)).mpr
      fun x => ?_)
    rw [List.mem_filter, List.mem_singleton, onlyDue, Table.mem_update]
    constructor
    · rintro ⟨⟨r, hr, rfl⟩, hx⟩
      by_cases hid : r.id = s.id
      · rw [if_pos hid]
        exact Table.eq_of_key hr hmem hid
      · simp [hid] at hx
    · rintro rfl
      exact ⟨⟨x, hmem, if_pos rfl⟩, by simp [henabled, hpassed, hlocked]⟩
  rw [dueSchedules, hsingle]
  rfl

theorem get?_onlyDue (schedules : Table TaskSchedule) {s : TaskSchedule}
    (hs : s ∈ schedules.rows) : (onlyDue schedules s.id).get? s.id = some s := by
  have hget : schedules.get? s.id = some s := Table.get?_eq_some.mpr ⟨hs, rfl⟩
  rw [onlyDue, Table.get?_update, hget]
  simp

/-- The identifiers that `uuid4` gives to the tasks of a tick are new and distinct. -/
structure FreshIds (tasks : Table Task) (due : List TaskSchedule) (ids : UUID → UUID) : Prop where
  fresh : ∀ s ∈ due, tasks.get? (ids s.id) = none
  distinct : ∀ s ∈ due, ∀ s' ∈ due, ids s.id = ids s'.id → s.id = s'.id

/-- A dispatch completes, with every outcome the solo outcome, exactly when no schedule would
queue a task under a key that its owner has already used. -/
theorem dispatch_isolated_iff {env : Environment} {tasks : Table Task}
    {schedules : Table TaskSchedule} {ids : UUID → UUID} {locked : UUID → Bool}
    {now : Instant} (createdAt : Instant)
    (hids : FreshIds tasks (dueSchedules schedules now locked) ids) :
    (∃ batch, dispatchDueSchedules env tasks schedules ids locked now createdAt = .ok batch ∧
      Isolated env tasks schedules ids locked now createdAt batch) ↔
    ∀ s ∈ dueSchedules schedules now locked, ¬ KeyTaken env tasks s now := by
  have hsolo {s : TaskSchedule} (hs : s ∈ dueSchedules schedules now locked) :
      dispatchDueSchedules env tasks (onlyDue schedules s.id) ids locked now createdAt =
        dispatchLoop env ids now createdAt [s] ⟨tasks, onlyDue schedules s.id, []⟩ := by
    rw [dispatchDueSchedules, dueSchedules_onlyDue hs]
  constructor
  · rintro ⟨batch, -, hiso⟩ s hs
    obtain ⟨solo, hdispatch, -, -⟩ := hiso s hs
    rw [hsolo hs] at hdispatch
    unfold dispatchLoop at hdispatch
    refine (dispatchSchedule_ok_iff createdAt (hids.fresh s hs)).mp ?_
    cases h : dispatchSchedule env tasks s (ids s.id) now createdAt with
    | error e => simp [h] at hdispatch
    | ok r => exact ⟨r, rfl⟩
  · intro hkeys
    have hgrown : GrownBy ids createdAt [] tasks tasks :=
      ⟨[], by simp, fun t ht => absurd ht List.not_mem_nil⟩
    obtain ⟨batch, hloop, hall⟩ := dispatchLoop_isolated ⟨tasks, schedules, []⟩ hgrown
      (nodup_dueSchedules schedules now locked) hids.fresh hids.distinct hkeys
    refine ⟨batch, hloop, fun s hs => ?_⟩
    obtain ⟨solo, schedule', run, hd, hget, hrows⟩ := hall s hs
    have hmem := (mem_dueSchedules hs).1
    refine ⟨⟨solo, (onlyDue schedules s.id).write schedule', run.toList⟩, ?_, ?_, hrows⟩
    · rw [hsolo hs]
      simp [dispatchLoop, hd]
    · rw [hget, Table.get?_write, get?_onlyDue schedules hmem,
        show schedules.get? s.id = some s from Table.get?_eq_some.mpr ⟨hmem, rfl⟩]
      simp [(id_of_dispatchSchedule hd).1]

theorem FreshIds.recovered {tasks : Table Task} {due : List TaskSchedule} {ids : UUID → UUID}
    (h : FreshIds tasks due ids) (now : Instant) (locked : UUID → Bool) :
    FreshIds (recoverStaleRunningTasks tasks now locked) due ids where
  fresh s hs := by simp [recoverStaleRunningTasks, h.fresh s hs]
  distinct := h.distinct

/-- The same for a whole maintenance pass: it reaches the polling of ready tasks, with every
schedule dispatched as on its own, exactly when no key is taken. -/
theorem tick_isolated_iff {env : Environment} {tasks : Table Task}
    {schedules : Table TaskSchedule} {ids : UUID → UUID} {locked : UUID → Bool}
    (lockedTasks : UUID → Bool) (maxConcurrency : ℕ) {now : Instant} (createdAt : Instant)
    (hids : FreshIds tasks (dueSchedules schedules now locked) ids) :
    ((∃ batch, dispatchDueSchedules env tasks schedules ids locked now createdAt = .ok batch ∧
        Isolated env tasks schedules ids locked now createdAt batch) ↔
      ∀ s ∈ dueSchedules schedules now locked, ¬ KeyTaken env tasks s now) ∧
    ((∃ batch ready, recoverAndResume env tasks schedules ids lockedTasks locked maxConcurrency now
        createdAt = .ok (batch, ready) ∧
        Isolated env (recoverStaleRunningTasks tasks now lockedTasks) schedules ids locked now
          createdAt batch) ↔
      ∀ s ∈ dueSchedules schedules now locked,
        ¬ KeyTaken env (recoverStaleRunningTasks tasks now lockedTasks) s now) := by
  refine ⟨dispatch_isolated_iff createdAt hids, ?_⟩
  rw [← dispatch_isolated_iff createdAt (hids.recovered now lockedTasks)]
  unfold recoverAndResume
  constructor
  · rintro ⟨batch, ready, h, hiso⟩
    cases hd : dispatchDueSchedules env (recoverStaleRunningTasks tasks now lockedTasks) schedules
        ids locked now createdAt with
    | error e => simp [hd] at h
    | ok batch' =>
      simp only [hd, Except.ok.injEq, Prod.mk.injEq] at h
      exact ⟨batch', rfl, h.1 ▸ hiso⟩
  · rintro ⟨batch, hd, hiso⟩
    exact ⟨batch, readyTaskIds batch.tasks now maxConcurrency, by simp only [hd], hiso⟩

/-- The first user has chosen the key that the schedule of that user will need. -/
def collisionWorld : World :=
  .ofRun sampleEnvironment
    (requests (scheduleKey 10 (IsoFormat.isoformat (seconds 100))) (by decide) ++
      [⟨.idle, seconds 100, seconds 100⟩])

theorem tick_isolated_sample :
    (∃ batch, dispatchDueSchedules sampleEnvironment collisionWorld.tasks collisionWorld.schedules
        (· + 100) (fun _ => false) (seconds 100) (seconds 100) = .ok batch ∧
        Isolated sampleEnvironment collisionWorld.tasks collisionWorld.schedules (· + 100)
          (fun _ => false) (seconds 100) (seconds 100) batch) ↔
      ∀ s ∈ dueSchedules collisionWorld.schedules (seconds 100) fun _ => false,
        ¬ KeyTaken sampleEnvironment collisionWorld.tasks s (seconds 100) :=
  (tick_isolated_iff (fun _ => false) 2 (seconds 100) ⟨by decide, by decide⟩).1

/-- The tick raises, no ready task is polled, and the schedule of the second user, which would be
queued on its own, is not dispatched. -/
theorem tick_stopped_by_chosen_key :
    World.Reachable sampleEnvironment collisionWorld ∧
    (∀ batch, dispatchDueSchedules sampleEnvironment collisionWorld.tasks collisionWorld.schedules
      (· + 100) (fun _ => false) (seconds 100) (seconds 100) ≠ .ok batch) ∧
    (∀ r, recoverAndResume sampleEnvironment collisionWorld.tasks collisionWorld.schedules
      (· + 100) (fun _ => false) (fun _ => false) 2 (seconds 100) (seconds 100) ≠ .ok r) ∧
    ∃ solo, dispatchDueSchedules sampleEnvironment collisionWorld.tasks
        (onlyDue collisionWorld.schedules 11) (· + 100) (fun _ => false) (seconds 100)
        (seconds 100) = .ok solo ∧
      (solo.schedules.get? 11).bind TaskSchedule.lastDispatchStatus = some .queued := by
  have error {α : Type} {x : Except IntegrityError α} (h : x.toOption.isNone) (r : α) :
      x ≠ .ok r := by
    rintro rfl
    cases h
  refine ⟨World.reachable_ofRun _ (by decide), error (by decide), error (by decide), ?_⟩
  have hsolo : (dispatchDueSchedules sampleEnvironment collisionWorld.tasks
      (onlyDue collisionWorld.schedules 11) (· + 100) (fun _ => false) (seconds 100)
      (seconds 100)).toOption.any
        (fun solo => (solo.schedules.get? 11).bind TaskSchedule.lastDispatchStatus =
          some .queued) := by decide
  cases hd : dispatchDueSchedules sampleEnvironment collisionWorld.tasks
      (onlyDue collisionWorld.schedules 11) (· + 100) (fun _ => false) (seconds 100)
      (seconds 100) with
  | error e =>
    rw [hd] at hsolo
    cases hsolo
  | ok solo =>
    rw [hd] at hsolo
    exact ⟨solo, rfl, of_decide_eq_true hsolo⟩

end AgentDemo
