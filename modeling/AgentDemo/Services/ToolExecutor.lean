import AgentDemo.Services.AgentTaskRunner

/-! What `ToolExecutor` writes to the task it works for: the replay barrier before a dispatch
and the events of MCP tools. -/
namespace AgentDemo

/-- The lease check of `ToolExecutor.run` between argument validation and the dispatch. The
result is the row to commit first, if there is one. -/
def barrier (tasks : Table Task) (currentTaskLease : Option TaskLease) (taskId : Option UUID)
    (tool : RegisteredTool) (now now' : Instant) : Except TaskLeaseLost (Option Task) :=
  match taskId with
  | none => .ok none
  | some taskId =>
    match lockTaskLease tasks currentTaskLease now true with
    | .error e => .error e
    | .ok (some task) =>
      if task.id ≠ taskId then .error ⟨⟩
      else .ok
        (some (blockReplay task (takeText 200 ("Tool dispatched: " ++ tool.manifest.name)) now'))
    | .ok none =>
      if (tasks.get? taskId).all fun linked => linked.kind ≠ .agent then .ok none
      else .error ⟨⟩

/-- The ownership test of `_record_mcp_task_event`, a copy of the one in `lockTaskLease`
that does not look at the deadline. -/
def mayRecord (task : Task) (currentTaskLease : Option TaskLease) (now : Instant) : Prop :=
  task.kind = .agent →
    (∃ lease, currentTaskLease = some lease ∧ lease.taskId = task.id ∧
      task.runToken = some lease.token ∧ task.status = .running) ∧ ¬ lapsed task.leaseExpiresAt now

instance (task : Task) (currentTaskLease : Option TaskLease) (now : Instant) :
    Decidable (mayRecord task currentTaskLease now) :=
  match currentTaskLease with
  | none => decidable_of_iff (task.kind ≠ .agent) (by simp [mayRecord])
  | some lease => decidable_of_iff (task.kind = .agent → (lease.taskId = task.id ∧
      task.runToken = some lease.token ∧ task.status = .running) ∧ ¬ lapsed task.leaseExpiresAt now)
      (by simp [mayRecord])

/-- `_record_mcp_task_event` on the row it has locked. -/
def withMcpEvent (task : Task) (eventType : String) (tool : RegisteredTool) (payload : JsonObject)
    (progress : Option ℤ) : Task :=
  { task with
    metadata := appendEvent task.metadata
      ([("type", .str eventType), ("tool_name", .str tool.manifest.name),
        ("provider", .str tool.provider.text), ("server_name", .ofText tool.serverName),
        ("provider_tool_id", .ofText tool.providerToolId)] ++ payload)
    progress := match progress with
      | none => task.progress
      | some p => max task.progress (if task.kind = .agent then min p 95 else p) }

/-- `_record_mcp_task_event`; `none` where it returns without a write. -/
def recordMcpTaskEvent (tasks : Table Task) (currentTaskLease : Option TaskLease)
    (taskId : Option UUID) (eventType : String) (tool : RegisteredTool) (payload : JsonObject)
    (progress : Option ℤ) (now : Instant) : Option Task :=
  if tool.provider ≠ .mcpServer then none
  else match taskId.bind tasks.get? with
    | none => none
    | some task =>
      if mayRecord task currentTaskLease now then
        some (withMcpEvent task eventType tool payload progress)
      else none

theorem barrier_eq_some {tasks : Table Task} {lease : TaskLease} {taskId : Option UUID}
    {tool : RegisteredTool} {now now' : Instant} {task' : Task}
    (h : barrier tasks (some lease) taskId tool now now' = .ok (some task')) :
    ∃ task, tasks.get? lease.taskId = some task ∧ Holds task lease now true ∧
      task' = blockReplay task (takeText 200 ("Tool dispatched: " ++ tool.manifest.name)) now' := by
  unfold barrier at h
  cases taskId with
  | none => simp at h
  | some taskId =>
    simp only at h
    cases hl : lockTaskLease tasks (some lease) now true with
    | error e => simp [hl] at h
    | ok r =>
      obtain ⟨task, rfl, hget, hholds⟩ := lockTaskLease_eq_ok hl
      simp only [hl] at h
      split_ifs at h
      exact ⟨task, hget, hholds, (Option.some.inj (Except.ok.inj h)).symm⟩

theorem recordMcpTaskEvent_eq_some {tasks : Table Task} {lease : TaskLease}
    {eventType : String} {tool : RegisteredTool} {payload : JsonObject} {progress : Option ℤ}
    {now : Instant} {task' : Task}
    (h : recordMcpTaskEvent tasks (some lease) (some lease.taskId) eventType tool payload progress
      now = some task') :
    ∃ task, tasks.get? lease.taskId = some task ∧ mayRecord task (some lease) now ∧
      task' = withMcpEvent task eventType tool payload progress := by
  unfold recordMcpTaskEvent at h
  split_ifs at h
  cases ht : tasks.get? lease.taskId with
  | none => simp [ht] at h
  | some task =>
    simp only [Option.bind_some, ht] at h
    split_ifs at h with hm
    exact ⟨task, rfl, hm, (Option.some.inj h).symm⟩

end AgentDemo
