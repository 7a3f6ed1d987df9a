import AgentDemo.Services.TaskSchedules

/-! Recovery of abandoned attempts and the maintenance pass of a scheduler. -/
namespace AgentDemo

def staleTaskError : String := "Task lease expired after the final permitted attempt"

def recoveredTaskError : String :=
  "Task lease expired before external work; execution was re-queued"

def requeued (task : Task) (now : Instant) : Task :=
  { task with
    status := .queued
    error := some recoveredTaskError
    finishedAt := none
    nextAttemptAt := some now
    leaseExpiresAt := none
    runToken := none }

def markedStale (task : Task) (now : Instant) : Task :=
  { task with
    status := .stale
    finishedAt := some now
    error := some (if task.replayBlockedAt.isSome then replayBlockedError
      else if passed task.deadlineAt now then "Task deadline expired during recovery"
      else staleTaskError)
    nextAttemptAt := none
    leaseExpiresAt := none
    runToken := none }

/-- The body of the recovery loop for one row. Zero counts are read as one. -/
def recoverTask (task : Task) (now : Instant) : Task :=
  if max task.attemptCount 1 < max task.maxAttempts 1 ∧ task.replayBlockedAt = none ∧
      ¬ passed task.deadlineAt now then requeued task now
  else markedStale task now

/-- `nullsfirst` order of an optional instant, then a second order. -/
def nullsFirst (at' : Task → Option Instant) (tie : Task → Task → Bool) (a b : Task) : Bool :=
  match at' a, at' b with
  | none, none => tie a b
  | none, some _ => true
  | some _, none => false
  | some x, some y => x < y || (x = y && tie a b)

def byId (a b : Task) : Bool := a.id ≤ b.id

def byCreation (a b : Task) : Bool :=
  a.createdAt < b.createdAt || (a.createdAt = b.createdAt && byId a b)

/-- An attempt whose lease has run out. -/
def Abandoned (task : Task) (now : Instant) : Prop :=
  task.status = .running ∧ task.kind = .agent ∧ lapsed task.leaseExpiresAt now

instance (task : Task) (now : Instant) : Decidable (Abandoned task now) :=
  inferInstanceAs (Decidable (_ ∧ _))

/-- The rows that recovery locks; rows locked by another transaction are skipped. -/
def staleRunningTasks (tasks : Table Task) (now : Instant) (locked : UUID → Bool) : List Task :=
  ((tasks.rows.filter fun t => Abandoned t now ∧ locked t.id = false).insertionSort
    fun a b => nullsFirst Task.leaseExpiresAt byId a b).take 100

def recoverStaleRunningTasks (tasks : Table Task) (now : Instant) (locked : UUID → Bool) :
    Table Task :=
  tasks.update
    (fun t =>
      if t.id ∈ (staleRunningTasks tasks now locked).map Task.id then recoverTask t now else t)
    (by
      intro t
      unfold recoverTask
      split_ifs <;> rfl)

theorem abandoned_of_mem_staleRunningTasks {tasks : Table Task} {now : Instant}
    {locked : UUID → Bool} {task : Task} (ht : task ∈ tasks.rows)
    (h : task.id ∈ (staleRunningTasks tasks now locked).map Task.id) : Abandoned task now := by
  obtain ⟨t, hmem, hid⟩ := List.mem_map.mp h
  have hmem := (List.mem_insertionSort _).mp (List.mem_of_mem_take hmem)
  obtain ⟨hrow, hcond⟩ := List.mem_filter.mp hmem
  have : t = task := Table.eq_of_key hrow ht (by simpa using hid)
  exact this ▸ (by simpa using hcond : Abandoned t now ∧ _).1

/-- Recovery leaves a row alone or applies the loop body to an abandoned attempt. -/
theorem get?_recoverStaleRunningTasks (tasks : Table Task) (now : Instant) (locked : UUID → Bool)
    (id : UUID) :
    (recoverStaleRunningTasks tasks now locked).get? id = tasks.get? id ∨
      ∃ task, tasks.get? id = some task ∧ Abandoned task now ∧
        (recoverStaleRunningTasks tasks now locked).get? id = some (recoverTask task now) := by
  unfold recoverStaleRunningTasks
  rw [Table.get?_update]
  cases ht : tasks.get? id with
  | none => exact Or.inl rfl
  | some task =>
    by_cases hstale : task.id ∈ (staleRunningTasks tasks now locked).map Task.id
    · right
      have hmem := (Table.get?_eq_some.mp ht).1
      exact ⟨task, rfl, abandoned_of_mem_staleRunningTasks hmem hstale,
        by simp only [Option.map_some, if_pos hstale]⟩
    · left
      simp only [Option.map_some, if_neg hstale]

/-- The query of `_recover_and_resume` for tasks to enqueue. -/
def readyTaskIds (tasks : Table Task) (now : Instant) (maxConcurrency : ℕ) : List UUID :=
  (((tasks.rows.filter fun t =>
      t.status = .queued ∧ t.kind = .agent ∧ lapsed t.nextAttemptAt now).insertionSort
    fun a b => nullsFirst Task.nextAttemptAt byCreation a b).take (maxConcurrency * 2)).map Task.id

/-- `_recover_and_resume`: recovery commits on its own, an error in the dispatch skips the
polling. The result holds the identifiers to enqueue. -/
def recoverAndResume (env : Environment) (tasks : Table Task) (schedules : Table TaskSchedule)
    (ids : UUID → UUID) (lockedTasks lockedSchedules : UUID → Bool) (maxConcurrency : ℕ)
    (now createdAt : Instant) : Except IntegrityError (Batch × List UUID) :=
  let recovered := recoverStaleRunningTasks tasks now lockedTasks
  match dispatchDueSchedules env recovered schedules ids lockedSchedules now createdAt with
  | .ok batch => .ok (batch, readyTaskIds batch.tasks now maxConcurrency)
  | .error e => .error e

end AgentDemo
