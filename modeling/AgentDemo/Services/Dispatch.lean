import AgentDemo.Services.TaskSchedules

/-! What a tick does to each schedule: the due occurrence lies between the stored next run and
the clock, and the loop treats every selected schedule once. -/
namespace AgentDemo

theorem seconds_pos {n : ℤ} (h : 0 < n) : 0 < seconds n := Int.mul_pos h (by decide)

/-- The daily loop returns an occurrence that is not in the future. -/
theorem latestDailyRun_bounds {env : Environment} {timezoneName : String}
    {dailyTime : Option String} {now occurrence candidate result : Instant}
    (h : latestDailyRun env timezoneName dailyTime now occurrence candidate = .ok result)
    (hocc : occurrence ≤ now) : occurrence ≤ result ∧ result ≤ now := by
  fun_induction latestDailyRun env timezoneName dailyTime now occurrence candidate with
  | case1 occurrence candidate hdue next hnext ih =>
    obtain ⟨hlow, hhigh⟩ := ih h (max_le hocc hdue)
    exact ⟨(le_max_left _ _).trans hlow, hhigh⟩
  | case2 => cases h
  | case3 =>
    obtain rfl := Except.ok.inj h
    exact ⟨le_rfl, hocc⟩

theorem latestDueOccurrence_bounds {env : Environment} {schedule : TaskSchedule}
    {now next occurrence : Instant} (h : latestDueOccurrence env schedule now = .ok occurrence)
    (hnext : schedule.nextRunAt = some next) (hdue : next ≤ now) :
    next ≤ occurrence ∧ occurrence ≤ now := by
  unfold latestDueOccurrence at h
  rw [hnext, Option.getD_some] at h
  cases hk : schedule.scheduleKind with
  | once =>
    simp only [hk, Except.ok.injEq] at h
    exact ⟨h.le, h ▸ hdue⟩
  | unsupported name =>
    simp only [hk, Except.ok.injEq] at h
    exact ⟨h.le, h ▸ hdue⟩
  | interval =>
    simp only [hk] at h
    split_ifs at h with hinterval
    obtain rfl := Except.ok.inj h
    have hpos : 0 < seconds (schedule.intervalSeconds.getD 0) := seconds_pos (by linarith)
    have hnonneg : 0 ≤ (now - next) / seconds (schedule.intervalSeconds.getD 0) :=
      Int.ediv_nonneg (by linarith) hpos.le
    have hfloor := Int.ediv_mul_le (now - next) hpos.ne'
    constructor
    · linarith [Int.mul_nonneg hnonneg hpos.le]
    · linarith
  | daily =>
    simp only [hk, bind, Except.bind] at h
    cases hn : nextDailyRun env (now - 3 * dayLength) schedule.timezone schedule.dailyTime with
    | error e => simp [hn] at h
    | ok candidate =>
      simp only [hn] at h
      exact latestDailyRun_bounds h hdue

theorem nextRunAfterOccurrence_gt {env : Environment} {schedule : TaskSchedule}
    {now next : Instant} (h : nextRunAfterOccurrence env schedule now = .ok (some next)) :
    now < next := by
  unfold nextRunAfterOccurrence at h
  cases hk : schedule.scheduleKind with
  | once => simp [hk] at h
  | unsupported name => simp [hk] at h
  | interval =>
    simp only [hk] at h
    split_ifs at h with hinterval hpast
    · obtain rfl := Option.some.inj (Except.ok.inj h)
      have hpos : 0 < seconds (schedule.intervalSeconds.getD 0) := seconds_pos (by linarith)
      have hfloor := Int.lt_ediv_add_one_mul_self
        (now - (schedule.nextRunAt.getD now + seconds (schedule.intervalSeconds.getD 0))) hpos
      linarith
    · obtain rfl := Option.some.inj (Except.ok.inj h)
      exact not_le.mp hpast
  | daily =>
    simp only [hk] at h
    cases hn : nextDailyRun env now schedule.timezone schedule.dailyTime with
    | error e => simp [hn, Except.map] at h
    | ok candidate =>
      simp only [hn, Except.map, Except.ok.injEq, Option.some.injEq] at h
      exact h ▸ lt_of_nextDailyRun hn

theorem planDispatch_eq_ok {env : Environment} {schedule : TaskSchedule} {now occurrence : Instant}
    {next : Option Instant} (h : planDispatch env schedule now = .ok (occurrence, next)) :
    latestDueOccurrence env schedule now = .ok occurrence ∧
      nextRunAfterOccurrence env schedule now = .ok next := by
  unfold planDispatch at h
  cases ho : latestDueOccurrence env schedule now with
  | error e => simp [ho, bind, Except.bind] at h
  | ok o =>
    cases hn : nextRunAfterOccurrence env schedule now with
    | error e => simp [ho, hn, bind, Except.bind] at h
    | ok n =>
      simp only [ho, hn, bind, Except.bind, Except.ok.injEq, Prod.mk.injEq] at h
      obtain ⟨rfl, rfl⟩ := h
      exact ⟨rfl, rfl⟩

/-- The occurrence a tick finds due, and the next run it stores. -/
theorem planDispatch_bounds {env : Environment} {schedule : TaskSchedule}
    {now at' occurrence : Instant} {next : Option Instant}
    (h : planDispatch env schedule now = .ok (occurrence, next))
    (hnext : schedule.nextRunAt = some at') (hdue : at' ≤ now) :
    at' ≤ occurrence ∧ occurrence ≤ now ∧ (∀ n, next = some n → now < n) ∧
      (schedule.scheduleKind = .once → occurrence = at' ∧ next = none) := by
  obtain ⟨ho, hn⟩ := planDispatch_eq_ok h
  obtain ⟨hlow, hhigh⟩ := latestDueOccurrence_bounds ho hnext hdue
  refine ⟨hlow, hhigh, fun m hm => nextRunAfterOccurrence_gt (hm ▸ hn), fun hk => ?_⟩
  simp only [latestDueOccurrence, nextRunAfterOccurrence, hk, hnext, Option.getD_some,
    Except.ok.injEq] at ho hn
  exact ⟨ho.symm, hn.symm⟩

/-! ### The loop -/

theorem id_of_dispatchSchedule {env : Environment} {tasks tasks' : Table Task}
    {schedule schedule' : TaskSchedule} {id : UUID} {now createdAt : Instant}
    {run : Option QueuedRun}
    (h : dispatchSchedule env tasks schedule id now createdAt = .ok (tasks', schedule', run)) :
    schedule'.id = schedule.id ∧ ∀ r, run = some r → r.scheduleId = schedule.id := by
  rcases dispatchSchedule_eq_ok h with ⟨e, -, -, rfl, rfl⟩ | ⟨o, n, st, -, -, -, rfl, rfl⟩ |
    ⟨o, n, -, -, -, -, rfl, rfl⟩
  · exact ⟨rfl, nofun⟩
  · exact ⟨rfl, nofun⟩
  · exact ⟨rfl, fun r hr => Option.some.inj hr ▸ rfl⟩

/-- The queued occurrences of one schedule, in the order of the list. -/
def runsOf (scheduleId : UUID) (runs : List QueuedRun) : List Instant :=
  runs.filterMap fun r => if r.scheduleId = scheduleId then some r.occurrence else none

theorem runsOf_append (scheduleId : UUID) (runs runs' : List QueuedRun) :
    runsOf scheduleId (runs ++ runs') = runsOf scheduleId runs ++ runsOf scheduleId runs' :=
  List.filterMap_append

/-- What a loop over `due` does to the schedule `id`: nothing, or the loop body once. -/
def LoopView (env : Environment) (ids : UUID → UUID) (now createdAt : Instant)
    (due : List TaskSchedule) (batch batch' : Batch) (id : UUID) : Prop :=
  (id ∉ due.map TaskSchedule.id ∧ batch'.schedules.get? id = batch.schedules.get? id ∧
    runsOf id batch'.runs = runsOf id batch.runs) ∨
  ∃ schedule ∈ due, schedule.id = id ∧ ∃ tasks tasks' schedule' run,
    dispatchSchedule env tasks schedule (ids id) now createdAt = .ok (tasks', schedule', run) ∧
    batch'.schedules.get? id = (batch.schedules.get? id).map (fun _ => schedule') ∧
    runsOf id batch'.runs =
      runsOf id batch.runs ++ (run.map QueuedRun.occurrence).toList

theorem dispatchLoop_view {env : Environment} {ids : UUID → UUID} {now createdAt : Instant}
    {due : List TaskSchedule} {batch batch' : Batch} (hnodup : (due.map TaskSchedule.id).Nodup)
    (h : dispatchLoop env ids now createdAt due batch = .ok batch') (id : UUID) :
    LoopView env ids now createdAt due batch batch' id := by
  induction due generalizing batch with
  | nil =>
    cases Except.ok.inj h
    exact Or.inl ⟨List.not_mem_nil, rfl, rfl⟩
  | cons schedule rest ih =>
    rw [List.map_cons, List.nodup_cons] at hnodup
    unfold dispatchLoop at h
    cases hs : dispatchSchedule env batch.tasks schedule (ids schedule.id) now createdAt with
    | error e => simp [hs] at h
    | ok r =>
      obtain ⟨tasks, schedule', run⟩ := r
      simp only [hs] at h
      obtain ⟨hid, hrun⟩ := id_of_dispatchSchedule hs
      have hget : (batch.schedules.write schedule').get? id =
          if schedule.id = id then (batch.schedules.get? id).map fun _ => schedule'
          else batch.schedules.get? id := by
        rw [Table.get?_write, key_taskSchedule, hid]
      have hruns : runsOf id run.toList =
          if schedule.id = id then (run.map QueuedRun.occurrence).toList else [] := by
        cases run with
        | none => simp [runsOf]
        | some r => by_cases hne : schedule.id = id <;> simp [runsOf, hrun r rfl, hne]
      rcases ih hnodup.2 h with ⟨hnot, hget', hruns'⟩ | ⟨s, hmem, rfl, t, t', s', r, hs', hget',
        hruns'⟩
      · rw [hget] at hget'
        rw [runsOf_append, hruns] at hruns'
        by_cases heq : schedule.id = id
        · subst heq
          rw [if_pos rfl] at hget' hruns'
          exact Or.inr ⟨schedule, List.mem_cons_self, rfl, _, _, _, _, hs, hget', hruns'⟩
        · rw [if_neg heq] at hget' hruns'
          refine Or.inl ⟨?_, hget', by rw [hruns', List.append_nil]⟩
          rw [List.map_cons, List.mem_cons]
          rintro (h | h)
          · exact heq h.symm
          · exact hnot h
      · have hne : schedule.id ≠ s.id := fun heq =>
          hnodup.1 (heq ▸ List.mem_map_of_mem hmem)
        rw [hget, if_neg hne] at hget'
        rw [runsOf_append, hruns, if_neg hne, List.append_nil] at hruns'
        exact Or.inr ⟨s, List.mem_cons_of_mem _ hmem, rfl, t, t', s', r, hs', hget', hruns'⟩

/-- Selected schedules are distinct rows that are enabled and due. -/
theorem mem_dueSchedules {schedules : Table TaskSchedule} {now : Instant} {locked : UUID → Bool}
    {schedule : TaskSchedule} (h : schedule ∈ dueSchedules schedules now locked) :
    schedule ∈ schedules.rows ∧ schedule.enabled ∧ passed schedule.nextRunAt now ∧
      locked schedule.id = false := by
  have hmem := (List.mem_insertionSort _).mp (List.mem_of_mem_take h)
  simpa using List.mem_filter.mp hmem

theorem nodup_dueSchedules (schedules : Table TaskSchedule) (now : Instant)
    (locked : UUID → Bool) : ((dueSchedules schedules now locked).map TaskSchedule.id).Nodup := by
  unfold dueSchedules
  set due := schedules.rows.filter fun s =>
    s.enabled ∧ passed s.nextRunAt now ∧ locked s.id = false
  have hfilter : (due.map TaskSchedule.id).Nodup :=
    schedules.nodup.sublist (List.filter_sublist.map _)
  have hsort := ((List.perm_insertionSort (fun a b : TaskSchedule => ∀ x ∈ a.nextRunAt,
    ∀ y ∈ b.nextRunAt, x ≤ y) due).map TaskSchedule.id).nodup_iff.mpr hfilter
  exact hsort.sublist ((List.take_sublist _ _).map _)

end AgentDemo
