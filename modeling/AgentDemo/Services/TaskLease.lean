import AgentDemo.Models.Task

/-! Execution fencing: the lease of an attempt, its check under the row lock, and the
replay barrier. -/
namespace AgentDemo

structure TaskLease where
  taskId : UUID
  token : UUID
  deriving DecidableEq

def replayBlockedError : String :=
  "Execution stopped after a tool dispatch or saved answer. Automatic retry is disabled; " ++
    "review the conversation and tool history before starting a new task."

/-- `Background task no longer owns a live execution lease`. -/
structure TaskLeaseLost where

/-- `at is None or at <= now`. -/
def lapsed (at' : Option Instant) (now : Instant) : Prop := ∀ e, at' = some e → e ≤ now

/-- `at is not None and at <= now`. -/
def passed (at' : Option Instant) (now : Instant) : Prop := ∃ e, at' = some e ∧ e ≤ now

instance (at' : Option Instant) (now : Instant) : Decidable (lapsed at' now) :=
  match at' with
  | none => isTrue fun _ h => nomatch h
  | some e => decidable_of_iff (e ≤ now) (by simp [lapsed])

instance (at' : Option Instant) (now : Instant) : Decidable (passed at' now) :=
  match at' with
  | none => isFalse fun ⟨_, h, _⟩ => nomatch h
  | some e => decidable_of_iff (e ≤ now) (by simp [passed])

/-- The row lock and re-read before a worker writes. Without a lease in the context there
is nothing to check. -/
def lockTaskLease (tasks : Table Task) (currentTaskLease : Option TaskLease) (now : Instant)
    (live : Bool) : Except TaskLeaseLost (Option Task) :=
  match currentTaskLease with
  | none => .ok none
  | some lease =>
    match tasks.get? lease.taskId with
    | none => .error ⟨⟩
    | some task =>
      if task.status ≠ .running ∨ task.runToken ≠ some lease.token ∨
          (live ∧ lapsed task.leaseExpiresAt now) ∨ (live ∧ passed task.deadlineAt now) then
        .error ⟨⟩
      else .ok (some task)

def blockReplay (task : Task) (reason : String) (now : Instant) : Task :=
  { task with
    replayBlockedAt := task.replayBlockedAt <|> some now
    replayBlockedReason := some (orText task.replayBlockedReason reason) }

/-- What a worker that passes the check knows about its row. -/
structure Holds (task : Task) (lease : TaskLease) (now : Instant) (live : Bool) : Prop where
  id : task.id = lease.taskId
  running : task.status = .running
  token : task.runToken = some lease.token
  lease_live : live = true → ∃ e, task.leaseExpiresAt = some e ∧ now < e
  deadline_ahead : live = true → ∀ d, task.deadlineAt = some d → now < d

theorem lockTaskLease_eq_ok {tasks : Table Task} {lease : TaskLease} {now : Instant} {live : Bool}
    {r : Option Task} (h : lockTaskLease tasks (some lease) now live = .ok r) :
    ∃ task, r = some task ∧ tasks.get? lease.taskId = some task ∧ Holds task lease now live := by
  simp only [lockTaskLease] at h
  cases ht : tasks.get? lease.taskId with
  | none => simp [ht] at h
  | some task =>
    simp only [ht] at h
    split_ifs at h with hc
    push Not at hc
    obtain ⟨hs, htok, hl, hd⟩ := hc
    refine ⟨task, (Except.ok.inj h).symm, rfl, (Table.get?_eq_some.mp ht).2, hs, htok, ?_, ?_⟩
    · intro hlive
      simpa [lapsed] using hl hlive
    · intro hlive d hdl
      by_contra hle
      exact hd hlive ⟨d, hdl, not_lt.mp hle⟩

end AgentDemo
