import AgentDemo.Api.Tasks
import AgentDemo.Models.TaskSchedule
import AgentDemo.Services.TaskLease
import Mathlib.Data.List.Sort
import Mathlib.Tactic.Linarith

/-! Occurrence arithmetic of schedules and their dispatch. A raised `ValueError` is
represented by its text. -/
namespace AgentDemo

/-- The code points of the decimal digit zeros, each followed by its nine other digits. -/
def decimalZeros : List ℕ :=
  [0x30, 0x660, 0x6f0, 0x7c0, 0x966, 0x9e6, 0xa66, 0xae6, 0xb66, 0xbe6, 0xc66, 0xce6, 0xd66, 0xde6,
    0xe50, 0xed0, 0xf20, 0x1040, 0x1090, 0x17e0, 0x1810, 0x1946, 0x19d0, 0x1a80, 0x1a90, 0x1b50,
    0x1bb0, 0x1c40, 0x1c50, 0xa620, 0xa8d0, 0xa900, 0xa9d0, 0xa9f0, 0xaa50, 0xabf0, 0xff10, 0x104a0,
    0x10d30, 0x11066, 0x110f0, 0x11136, 0x111d0, 0x112f0, 0x11450, 0x114d0, 0x11650, 0x116c0,
    0x11730, 0x118e0, 0x11950, 0x11c50, 0x11d50, 0x11da0, 0x16a60, 0x16ac0, 0x16b50, 0x1d7ce,
    0x1d7d8, 0x1d7e2, 0x1d7ec, 0x1d7f6, 0x1e140, 0x1e2f0, 0x1e950, 0x1fbf0]

def digitValue (c : Char) : Option ℕ :=
  (decimalZeros.find? fun z => z ≤ c.toNat ∧ c.toNat < z + 10).map fun z => c.toNat - z

/-- Digits of `int(text)` after the first; a single underscore may stand between two. -/
def parseDigits (value : ℕ) : List Char → Option ℕ
  | [] => some value
  | '_' :: c :: rest => (digitValue c).bind fun d => parseDigits (10 * value + d) rest
  | c :: rest => (digitValue c).bind fun d => parseDigits (10 * value + d) rest

def parseNat : List Char → Option ℕ
  | [] => none
  | c :: rest => (digitValue c).bind fun d => parseDigits d rest

/-- `int(text)`; `none` is its `ValueError`. -/
def parseInt (text : List Char) : Option ℤ :=
  match stripList text with
  | '-' :: digits => (parseNat digits).map fun n => -(n : ℤ)
  | '+' :: digits => (parseNat digits).map fun n => (n : ℤ)
  | digits => (parseNat digits).map fun n => (n : ℤ)

/-- A `run_at` argument. `naive` carries the instant that the database driver stores for it. -/
inductive RunAt where
  | aware (at' : Instant)
  | naive (stored : Instant)

def RunAt.stored : RunAt → Instant
  | .aware at' => at'
  | .naive stored => stored

def asUtc : RunAt → Except String Instant
  | .aware at' => .ok at'
  | .naive _ => .error "Scheduled datetimes must include a timezone offset"

/-- `validate_timezone`, with the zone that the accepted name loads. -/
def validateTimezone (env : Environment) (timezoneName : String) : Except String Zone :=
  match env.zoneInfo (strip timezoneName) with
  | some zone => .ok zone
  | none => .error ("Unknown IANA timezone: " ++ strip timezoneName)

/-- `time(hour=..., minute=...)` of a text `HH:MM`, in microseconds since midnight. -/
def parseDailyTime (dailyTime : String) : Option ℤ :=
  let text := dailyTime.toList
  match text.dropWhile (· ≠ ':') with
  | [] => none
  | _ :: minuteText => do
    let hour ← parseInt (text.takeWhile (· ≠ ':'))
    let minute ← parseInt minuteText
    if 0 ≤ hour ∧ hour < 24 ∧ 0 ≤ minute ∧ minute < 60 then
      some (seconds ((hour * 60 + minute) * 60))
    else none

def dayLength : ℤ := seconds 86400

/-- The instants tried by the loop of `_next_daily_run`, those of skipped wall times left out. -/
def dailyCandidates (zone : Zone) (now : Instant) (localTime : ℤ) : List Instant :=
  (List.range 370).filterMap fun offset =>
    let naive := (zone.toLocal now / dayLength + offset) * dayLength + localTime
    let candidate := zone.toUtc naive
    if zone.toLocal candidate ≠ naive then none else some candidate

def nextDailyRun (env : Environment) (now : Instant) (timezoneName : String)
    (dailyTime : Option String) : Except String Instant :=
  match dailyTime with
  | none => .error "daily_time is required for a daily schedule"
  | some text =>
    match parseDailyTime text with
    | none => .error "daily_time must use HH:MM in 24-hour time"
    | some localTime => do
      let zone ← validateTimezone env timezoneName
      match (dailyCandidates zone now localTime).find? fun candidate => now < candidate with
      | some candidate => .ok candidate
      | none => .error "No valid daily occurrence in the next year"

theorem lt_of_nextDailyRun {env : Environment} {now next : Instant} {timezoneName : String}
    {dailyTime : Option String} (h : nextDailyRun env now timezoneName dailyTime = .ok next) :
    now < next := by
  unfold nextDailyRun at h
  cases dailyTime with
  | none => cases h
  | some text =>
    simp only at h
    cases hp : parseDailyTime text with
    | none => simp [hp] at h
    | some localTime =>
      simp only [hp] at h
      cases hz : validateTimezone env timezoneName with
      | error e => simp [hz, bind, Except.bind] at h
      | ok zone =>
        simp only [hz, bind, Except.bind] at h
        cases hf : (dailyCandidates zone now localTime).find? fun c => decide (now < c) with
        | none => simp [hf] at h
        | some c =>
          simp only [hf, Except.ok.injEq] at h
          subst h
          simpa using List.find?_some hf

def initialNextRun (env : Environment) (kind : ScheduleKind) (timezoneName : String)
    (now : Instant) (runAt : Option RunAt) (intervalSeconds : Option ℤ)
    (dailyTime : Option String) : Except String Instant := do
  let _ ← validateTimezone env timezoneName
  match kind with
  | .once =>
    match runAt with
    | none => .error "run_at is required for a one-time schedule"
    | some value => do
      let utc ← asUtc value
      if utc ≤ now then .error "run_at must be in the future" else .ok utc
  | .interval =>
    match intervalSeconds.filter fun n => 60 ≤ n with
    | none => .error "interval_minutes must be at least 1"
    | some n =>
      match runAt with
      | none => .ok (now + seconds n)
      | some value => do
        let utc ← asUtc value
        if now < utc then .ok utc else .ok (now + seconds n)
  | .daily => nextDailyRun env now timezoneName dailyTime
  | .unsupported name => .error ("Unsupported schedule kind: " ++ name)

def nextRunAfterOccurrence (env : Environment) (schedule : TaskSchedule) (now : Instant) :
    Except String (Option Instant) :=
  match schedule.scheduleKind with
  | .once => .ok none
  | .interval =>
    let interval := schedule.intervalSeconds.getD 0
    if interval < 60 then .error "Stored interval_seconds must be at least 60"
    else
      let candidate := schedule.nextRunAt.getD now + seconds interval
      if candidate ≤ now then
        .ok (some (candidate + ((now - candidate) / seconds interval + 1) * seconds interval))
      else .ok (some candidate)
  | .daily => (nextDailyRun env now schedule.timezone schedule.dailyTime).map some
  | .unsupported name => .error ("Unsupported schedule kind: " ++ name)

/-- The loop of `latest_due_occurrence` over daily runs, entered with `candidate`. -/
def latestDailyRun (env : Environment) (timezoneName : String) (dailyTime : Option String)
    (now occurrence candidate : Instant) : Except String Instant :=
  if _hdue : candidate ≤ now then
    match _hnext : nextDailyRun env candidate timezoneName dailyTime with
    | .ok next => latestDailyRun env timezoneName dailyTime now (max occurrence candidate) next
    | .error e => .error e
  else .ok occurrence
termination_by (now + 1 - candidate).toNat
decreasing_by
  have hlt := lt_of_nextDailyRun _hnext
  exact (Int.toNat_lt_toNat (by linarith)).mpr (by linarith)

def latestDueOccurrence (env : Environment) (schedule : TaskSchedule) (now : Instant) :
    Except String Instant :=
  let occurrence := schedule.nextRunAt.getD now
  match schedule.scheduleKind with
  | .interval =>
    let interval := schedule.intervalSeconds.getD 0
    if interval < 60 then .error "Stored interval_seconds must be at least 60"
    else .ok (occurrence + (now - occurrence) / seconds interval * seconds interval)
  | .daily => do
    let candidate ← nextDailyRun env (now - 3 * dayLength) schedule.timezone schedule.dailyTime
    latestDailyRun env schedule.timezone schedule.dailyTime now occurrence candidate
  | .once | .unsupported _ => .ok occurrence

def scheduleKey (scheduleId : UUID) (occurrenceKey : String) : String :=
  "schedule:" ++ scheduleId.str ++ ":" ++ occurrenceKey

/-- The key determines the schedule and the occurrence. -/
theorem scheduleKey_injective {id id' : UUID} {key key' : String}
    (h : scheduleKey id key = scheduleKey id' key') : id = id' ∧ key = key' := by
  have h := congrArg String.toList h
  simp only [scheduleKey, String.toList_append, List.append_assoc, List.append_cancel_left_eq] at h
  obtain ⟨hid, hrest⟩ := List.append_inj h (by rw [UUID.length_str, UUID.length_str])
  exact ⟨UUID.str_injective (String.toList_injective hid),
    String.toList_injective (List.append_cancel_left hrest)⟩

/-- `build_scheduled_task`. `manualKey` is the `uuid4` value that replaces the occurrence in
the key of a manual run. -/
def buildScheduledTask (schedule : TaskSchedule) (id : UUID) (occurrence : Instant)
    (manualKey : Option UUID) (createdAt : Instant) : Task :=
  { newTask id createdAt with
    name := schedule.name, kind := .agent, prompt := some schedule.prompt
    userId := some schedule.userId, conversationId := schedule.conversationId
    scheduleId := some schedule.id
    idempotencyKey := some (scheduleKey schedule.id (match manualKey with
      | some key => key.hex
      | none => IsoFormat.isoformat occurrence))
    maxAttempts := schedule.maxAttempts, nextAttemptAt := some occurrence
    timeoutSeconds := 180, deadlineAt := some (occurrence + seconds 900)
    metadata := ⟨[], [("schedule", .obj
      [("schedule_id", .str schedule.id.str), ("schedule_kind", .str schedule.scheduleKind.text),
        ("scheduled_for", .str (IsoFormat.isoformat occurrence)),
        ("manual", .bool manualKey.isSome)])]⟩ }

def TaskStatus.Active (s : TaskStatus) : Prop := s = .queued ∨ s = .running

instance : DecidablePred TaskStatus.Active := fun _ => inferInstanceAs (Decidable (_ ∨ _))

def activeScheduleTask (tasks : Table Task) (scheduleId : UUID) : Option Task :=
  ((tasks.rows.filter fun t => t.scheduleId = some scheduleId ∧ t.status.Active).insertionSort
    fun a b => a.createdAt ≤ b.createdAt).head?

theorem activeScheduleTask_eq_none {tasks : Table Task} {scheduleId : UUID} :
    activeScheduleTask tasks scheduleId = none ↔
      ∀ t ∈ tasks.rows, t.scheduleId = some scheduleId → ¬ t.status.Active := by
  unfold activeScheduleTask
  rw [List.head?_eq_none_iff, ← List.length_eq_zero_iff, List.length_insertionSort,
    List.length_eq_zero_iff, List.filter_eq_nil_iff]
  simp

/-- The constraint violation of a flush. -/
structure IntegrityError where

/-- A task queued by a tick. -/
structure QueuedRun where
  scheduleId : UUID
  taskId : UUID
  occurrence : Instant

def planDispatch (env : Environment) (schedule : TaskSchedule) (now : Instant) :
    Except String (Instant × Option Instant) := do
  let occurrence ← latestDueOccurrence env schedule now
  let next ← nextRunAfterOccurrence env schedule now
  .ok (occurrence, next)

/-- The columns that every branch of the dispatch loop sets first. -/
def dispatchStamped (schedule : TaskSchedule) (now : Instant) : TaskSchedule :=
  { schedule with lastDispatchAt := some now, lastDispatchError := none }

def dispatchInvalid (schedule : TaskSchedule) (now : Instant) (error : String) : TaskSchedule :=
  { dispatchStamped schedule now with
    enabled := false
    lastDispatchStatus := some .invalid
    lastDispatchError := some error }

def dispatchMoved (schedule : TaskSchedule) (now : Instant) (next : Option Instant)
    (status : DispatchStatus) : TaskSchedule :=
  { dispatchStamped schedule now with
    nextRunAt := next
    enabled := if next = none then false else schedule.enabled
    lastDispatchStatus := some status }

/-- The loop body of `dispatch_due_schedules`; `id` is the identifier its task would get. -/
def dispatchSchedule (env : Environment) (tasks : Table Task) (schedule : TaskSchedule) (id : UUID)
    (now createdAt : Instant) :
    Except IntegrityError (Table Task × TaskSchedule × Option QueuedRun) :=
  match planDispatch env schedule now with
  | .error error => .ok (tasks, dispatchInvalid schedule now error, none)
  | .ok (occurrence, next) =>
    if seconds schedule.misfireGraceSeconds < now - occurrence then
      .ok (tasks, dispatchMoved schedule now next .missed, none)
    else if (activeScheduleTask tasks schedule.id).isSome then
      .ok (tasks, dispatchMoved schedule now next .overlapSkipped, none)
    else
      match insertTask tasks (buildScheduledTask schedule id occurrence none createdAt) with
      | none => .error ⟨⟩
      | some tasks' => .ok (tasks', { dispatchMoved schedule now next .queued with
          lastRunAt := some occurrence, lastTaskId := some id }, some ⟨schedule.id, id, occurrence⟩)

/-- The outcomes of the loop body: an invalid schedule, a missed or skipped run, a task. -/
theorem dispatchSchedule_eq_ok {env : Environment} {tasks tasks' : Table Task}
    {schedule schedule' : TaskSchedule} {id : UUID} {now createdAt : Instant}
    {run : Option QueuedRun}
    (h : dispatchSchedule env tasks schedule id now createdAt = .ok (tasks', schedule', run)) :
    (∃ error, planDispatch env schedule now = .error error ∧ tasks' = tasks ∧
      schedule' = dispatchInvalid schedule now error ∧ run = none) ∨
    (∃ occurrence next status, planDispatch env schedule now = .ok (occurrence, next) ∧
      (seconds schedule.misfireGraceSeconds < now - occurrence ∨
        activeScheduleTask tasks schedule.id ≠ none) ∧ tasks' = tasks ∧
      schedule' = dispatchMoved schedule now next status ∧ run = none) ∨
    (∃ occurrence next, planDispatch env schedule now = .ok (occurrence, next) ∧
      now - occurrence ≤ seconds schedule.misfireGraceSeconds ∧
      activeScheduleTask tasks schedule.id = none ∧
      insertTask tasks (buildScheduledTask schedule id occurrence none createdAt) = some tasks' ∧
      schedule' = { dispatchMoved schedule now next .queued with
        lastRunAt := some occurrence, lastTaskId := some id } ∧
      run = some ⟨schedule.id, id, occurrence⟩) := by
  unfold dispatchSchedule at h
  cases hp : planDispatch env schedule now with
  | error error =>
    simp only [hp, Except.ok.injEq, Prod.mk.injEq] at h
    obtain ⟨rfl, rfl, rfl⟩ := h
    exact Or.inl ⟨error, rfl, rfl, rfl, rfl⟩
  | ok plan =>
    obtain ⟨occurrence, next⟩ := plan
    simp only [hp] at h
    right
    split_ifs at h with hmissed hactive
    · simp only [Except.ok.injEq, Prod.mk.injEq] at h
      obtain ⟨rfl, rfl, rfl⟩ := h
      exact Or.inl ⟨occurrence, next, .missed, rfl, Or.inl hmissed, rfl, rfl, rfl⟩
    · simp only [Except.ok.injEq, Prod.mk.injEq] at h
      obtain ⟨rfl, rfl, rfl⟩ := h
      exact Or.inl ⟨occurrence, next, .overlapSkipped, rfl,
        Or.inr (Option.isSome_iff_ne_none.mp hactive), rfl, rfl, rfl⟩
    · cases hi : insertTask tasks (buildScheduledTask schedule id occurrence none createdAt) with
      | none => simp [hi] at h
      | some inserted =>
        simp only [hi, Except.ok.injEq, Prod.mk.injEq] at h
        obtain ⟨rfl, rfl, rfl⟩ := h
        exact Or.inr
          ⟨occurrence, next, rfl, not_lt.mp hmissed, by simpa using hactive, hi, rfl, rfl⟩

/-- The two tables as a tick leaves them, and the tasks it has queued. -/
structure Batch where
  tasks : Table Task
  schedules : Table TaskSchedule
  runs : List QueuedRun

def dispatchLoop (env : Environment) (ids : UUID → UUID) (now createdAt : Instant) :
    List TaskSchedule → Batch → Except IntegrityError Batch
  | [], batch => .ok batch
  | schedule :: rest, batch =>
    match dispatchSchedule env batch.tasks schedule (ids schedule.id) now createdAt with
    | .error e => .error e
    | .ok (tasks, schedule', run) =>
      dispatchLoop env ids now createdAt rest
        ⟨tasks, batch.schedules.write schedule', batch.runs ++ run.toList⟩

def maxDueSchedulesPerTick : ℕ := 100

/-- The schedules that a tick selects; rows locked by another transaction are skipped. -/
def dueSchedules (schedules : Table TaskSchedule) (now : Instant) (locked : UUID → Bool) :
    List TaskSchedule :=
  ((schedules.rows.filter fun s =>
      s.enabled ∧ passed s.nextRunAt now ∧ locked s.id = false).insertionSort
    fun a b => ∀ x ∈ a.nextRunAt, ∀ y ∈ b.nextRunAt, x ≤ y).take maxDueSchedulesPerTick

/-- `dispatch_due_schedules`, one transaction. `ids` gives the identifier of the task that a
schedule may queue. -/
def dispatchDueSchedules (env : Environment) (tasks : Table Task) (schedules : Table TaskSchedule)
    (ids : UUID → UUID) (locked : UUID → Bool) (now createdAt : Instant) :
    Except IntegrityError Batch :=
  dispatchLoop env ids now createdAt (dueSchedules schedules now locked) ⟨tasks, schedules, []⟩

end AgentDemo
