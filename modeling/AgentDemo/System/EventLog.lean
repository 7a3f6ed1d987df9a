import AgentDemo.Library.Locks
import AgentDemo.System.TaskHistory

/-! The event log in the metadata of one agent task: three writers in sessions of their own, each
with its lock, its copy of the row and its commit. -/
namespace AgentDemo

/-! ### The writers -/

/-- The event of `_record_event`. -/
def recordedEvent (task : Task) (eventType : String) (data : JsonObject) (now : Instant) :
    JsonObject :=
  [("type", .str eventType), ("at", .str (IsoFormat.isoformat now)),
    ("attempt", .num task.attemptCount)] ++ compactEventData data

/-- The event of `_record_mcp_task_event`. -/
def mcpEvent (eventType : String) (tool : RegisteredTool) (payload : JsonObject) : JsonObject :=
  [("type", .str eventType), ("tool_name", .str tool.manifest.name),
    ("provider", .str tool.provider.text), ("server_name", .ofText tool.serverName),
    ("provider_tool_id", .ofText tool.providerToolId)] ++ payload

/-- The event of `_finish_or_retry`, where it schedules a retry. -/
def retryEvent (task : Task) (error : String) (retryable : Bool) (wait now : Instant) :
    Option JsonObject :=
  if task.replayBlockedAt.isNone ∧ ¬ passed task.deadlineAt (now + wait) ∧ retryable ∧
      task.attemptCount < task.maxAttempts then
    some [("type", .str "retry_scheduled"), ("at", .str (IsoFormat.isoformat now)),
      ("attempt", .num task.attemptCount), ("retry_at", .str (IsoFormat.isoformat (now + wait))),
      ("error", .str (takeText 2000 error))]
  else none

/-- A call of one of the writers, under the lease of its attempt. The MCP event that
`_record_audit` adds differs in the place of its commit alone. -/
inductive LogCall where
  | recordEvent (eventType : String) (data : JsonObject)
  | recordMcpTaskEvent (eventType : String) (tool : RegisteredTool) (payload : JsonObject)
      (progress : Option ℤ)
  | finishOrRetry (error : String) (retryable : Bool) (wait : Instant)

/-- How the locking read ends: the call is over, it keeps the lock with nothing to write, or it
goes on with its copy of the row. -/
inductive LockedCall where
  | ended
  | idle
  | granted (row : Task)

/-- What follows `lock_task_lease`. -/
def LockedCall.ofLease : Except TaskLeaseLost (Option Task) → LockedCall
  | .ok (some task) => .granted task
  | .ok none | .error _ => .ended

def LogCall.lock (tasks : Table Task) (lease : TaskLease) (now : Instant) : LogCall → LockedCall
  | .recordEvent _ _ => .ofLease (lockTaskLease tasks (some lease) now true)
  | .recordMcpTaskEvent _ tool _ _ =>
    if tool.provider ≠ .mcpServer then .ended
    else
      match tasks.get? lease.taskId with
      | none => .idle
      | some task => if mayRecord task (some lease) now then .granted task else .idle
  | .finishOrRetry _ _ _ => .ofLease (lockTaskLease tasks (some lease) now false)

/-- What a writer makes of its copy of the row, and the event that it appends. -/
def LogCall.write (task : Task) (now now' : Instant) : LogCall → Task × Option JsonObject
  | .recordEvent eventType data =>
    (AgentDemo.recordEvent task eventType data now', some (recordedEvent task eventType data now'))
  | .recordMcpTaskEvent eventType tool payload progress =>
    (withMcpEvent task eventType tool payload progress, some (mcpEvent eventType tool payload))
  | .finishOrRetry error retryable wait =>
    (AgentDemo.finishOrRetry task error retryable wait now now',
      retryEvent task error retryable wait now)

/-! ### The sessions -/

/-- A session of a writer. After `written` its commit is what is left, and with it the event. -/
inductive LogSession where
  | waiting (lease : TaskLease) (call : LogCall)
  | locked (call : LogCall) (row : Task)
  | written (row : Option Task) (event : Option JsonObject)
  | ended

def LogSession.holdsRow : LogSession → Bool
  | .locked _ _ | .written _ _ => true
  | .waiting _ _ | .ended => false

/-- `committed` is the history: the events of all commits, in their order. -/
structure LogWorld where
  tasks : Table Task
  sessions : List LogSession
  committed : List JsonObject

inductive LogEvent where
  | call (lease : TaskLease) (call : LogCall)
  | lock (i : ℕ) (now : Instant)
  | write (i : ℕ) (now now' : Instant)
  | commit (i : ℕ)
  | rollback (i : ℕ)
  | other (task : Task)

namespace LogWorld

def Unlocked (w : LogWorld) : Prop := ∀ s ∈ w.sessions, s.holdsRow = false

def move (w : LogWorld) (i : ℕ) (s : LogSession) : LogWorld :=
  { w with sessions := w.sessions.set i s }

/-- What one statement can do. `other` is the commit of another transaction on the row, which
leaves the metadata alone. -/
inductive Step (taskId : UUID) (w : LogWorld) : LogEvent → LogWorld → Prop where
  | call {lease : TaskLease} {call : LogCall} (hlease : lease.taskId = taskId) :
      Step taskId w (.call lease call) { w with sessions := w.sessions ++ [.waiting lease call] }
  | ended {i : ℕ} {now : Instant} {lease : TaskLease} {call : LogCall}
      (hi : w.sessions[i]? = some (.waiting lease call))
      (hlock : call.lock w.tasks lease now = .ended) : Step taskId w (.lock i now) (w.move i .ended)
  | idle {i : ℕ} {now : Instant} {lease : TaskLease} {call : LogCall}
      (hi : w.sessions[i]? = some (.waiting lease call)) (hfree : w.Unlocked)
      (hlock : call.lock w.tasks lease now = .idle) :
      Step taskId w (.lock i now) (w.move i (.written none none))
  | granted {i : ℕ} {now : Instant} {lease : TaskLease} {call : LogCall} {row : Task}
      (hi : w.sessions[i]? = some (.waiting lease call)) (hfree : w.Unlocked)
      (hlock : call.lock w.tasks lease now = .granted row) :
      Step taskId w (.lock i now) (w.move i (.locked call row))
  | write {i : ℕ} {now now' : Instant} {call : LogCall} {row : Task}
      (hi : w.sessions[i]? = some (.locked call row)) :
      Step taskId w (.write i now now') (w.move i
        (.written (some (call.write row now now').1) (call.write row now now').2))
  | commit {i : ℕ} {row : Option Task} {event : Option JsonObject}
      (hi : w.sessions[i]? = some (.written row event)) :
      Step taskId w (.commit i)
        { w.move i .ended with
          tasks := row.elim w.tasks w.tasks.write
          committed := w.committed ++ event.toList }
  | rollback {i : ℕ} {s : LogSession} (hi : w.sessions[i]? = some s) :
      Step taskId w (.rollback i) (w.move i .ended)
  | other {row task : Task} (hrow : w.tasks.get? taskId = some row) (hfree : w.Unlocked)
      (hid : task.id = taskId) (hmetadata : task.metadata = row.metadata) :
      Step taskId w (.other task) { w with tasks := w.tasks.write task }

end LogWorld

/-! ### The log -/

/-- The log that a number of events leaves. -/
def lastEvents (events : List JsonObject) : List JsonObject :=
  events.drop (events.length - maxTaskEvents)

theorem drop_concat {α : Type*} (l : List α) (a : α) (n : ℕ) :
    (l.drop (l.length - n) ++ [a]).drop ((l.drop (l.length - n) ++ [a]).length - n) =
      (l ++ [a]).drop ((l ++ [a]).length - n) := by
  rw [← List.drop_append_of_le_length (Nat.sub_le _ _), List.drop_drop]
  congr 1
  simp only [List.length_drop, List.length_append, List.length_singleton]
  omega

theorem appendEvent_lastEvents (events : List JsonObject) (other event : JsonObject) :
    appendEvent ⟨lastEvents events, other⟩ event = ⟨lastEvents (events ++ [event]), other⟩ := by
  unfold appendEvent lastEvents
  dsimp only
  rw [drop_concat]

/-- What a writer has made of the row: the metadata with the event that it appends. -/
structure Appends (row row' : Task) (event : Option JsonObject) : Prop where
  id : row'.id = row.id
  metadata : row'.metadata = event.elim row.metadata (appendEvent row.metadata)

theorem appends_write (call : LogCall) (row : Task) (now now' : Instant) :
    Appends row (call.write row now now').1 (call.write row now now').2 := by
  cases call with
  | recordEvent eventType data => exact ⟨rfl, rfl⟩
  | recordMcpTaskEvent eventType tool payload progress => exact ⟨rfl, rfl⟩
  | finishOrRetry error retryable wait =>
    refine ⟨id_finishOrRetry .., ?_⟩
    cases hb : row.replayBlockedAt with
    | some at' => simp [LogCall.write, retryEvent, finishOrRetry, hb, finishFailed]
    | none =>
      by_cases hd : passed row.deadlineAt (now + wait)
      · simp [LogCall.write, retryEvent, finishOrRetry, hb, hd, finishFailed]
      · by_cases hr : retryable = true ∧ row.attemptCount < row.maxAttempts
        · simp [LogCall.write, retryEvent, finishOrRetry, hb, hd, hr, retryScheduled]
        · simp [LogCall.write, retryEvent, finishOrRetry, hb, hd, hr, finishFailed]

/-- A step of an agent task in the system is the commit of a writer or leaves the metadata alone. -/
theorem TaskStep.logged {task task' : Task} {es es' : List TaskEntry} (hk : task.kind = .agent)
    (hs : TaskStep ⟨some task, es⟩ ⟨some task', es'⟩) :
    task'.metadata = task.metadata ∨
      ∃ (call : LogCall) (now now' : Instant), task' = (call.write task now now').1 := by
  cases hs with
  | claim hc fresh =>
    obtain ⟨-, -, -, rfl, -, -⟩ := AgentTaskRunner.claim_eq_started hc
    exact Or.inl rfl
  | claimFailed hc =>
    obtain ⟨-, -, error, rfl⟩ := AgentTaskRunner.claim_eq_failed hc
    exact Or.inl rfl
  | heartbeat hold hb =>
    obtain ⟨deadline, -, rfl⟩ := Option.map_eq_some_iff.mp hb
    exact Or.inl rfl
  | recordEvent hold eventType data now' =>
    exact Or.inr ⟨.recordEvent eventType data, now', now', rfl⟩
  | finishOrRetry hold error retryable wait now' =>
    exact Or.inr ⟨.finishOrRetry error retryable wait, _, now', rfl⟩
  | mcpEvent hold eventType tool payload progress =>
    exact Or.inr ⟨.recordMcpTaskEvent eventType tool payload progress, 0, 0, rfl⟩
  | recover hab =>
    left
    unfold recoverTask
    split_ifs <;> rfl
  | cancel hc =>
    obtain ⟨-, rfl⟩ := cancelTask_eq_ok hc
    exact Or.inl rfl
  | update hu => exact absurd hk (kind_of_updateTask hu)
  | _ => exact Or.inl rfl

theorem get?_of_granted {call : LogCall} {tasks : Table Task} {lease : TaskLease} {now : Instant}
    {row : Task} (h : call.lock tasks lease now = .granted row) :
    tasks.get? lease.taskId = some row := by
  have of_lease : ∀ live, LockedCall.ofLease (lockTaskLease tasks (some lease) now live) =
      .granted row → tasks.get? lease.taskId = some row := by
    intro live hlive
    cases hl : lockTaskLease tasks (some lease) now live with
    | error e => simp [hl, LockedCall.ofLease] at hlive
    | ok r =>
      obtain ⟨task, rfl, hget, -⟩ := lockTaskLease_eq_ok hl
      rw [hl] at hlive
      rw [hget, LockedCall.granted.inj hlive]
  cases call with
  | recordEvent eventType data => exact of_lease true h
  | finishOrRetry error retryable wait => exact of_lease false h
  | recordMcpTaskEvent eventType tool payload progress =>
    simp only [LogCall.lock] at h
    split_ifs at h
    cases hget : tasks.get? lease.taskId with
    | none => simp [hget] at h
    | some task =>
      simp only [hget] at h
      split_ifs at h
      rw [LockedCall.granted.inj h]

def LogSessionOk (taskId : UUID) (tasks : Table Task) : LogSession → Prop
  | .waiting lease _ => lease.taskId = taskId
  | .locked _ row => tasks.get? taskId = some row
  | .written (some row') event => ∃ row, tasks.get? taskId = some row ∧ Appends row row' event
  | .written none event => event = none
  | .ended => True

theorem LogSessionOk.of_not_holds {taskId : UUID} {tasks tasks' : Table Task} {s : LogSession}
    (h : LogSessionOk taskId tasks s) (hfree : ¬ s.holdsRow = true) :
    LogSessionOk taskId tasks' s := by
  cases s with
  | waiting lease call => exact h
  | locked call row => exact absurd rfl hfree
  | written row event => exact absurd rfl hfree
  | ended => trivial

/-- The log of the row is that of all commits, and a session that holds the lock has the row. -/
structure LogOk (taskId : UUID) (other : JsonObject) (w : LogWorld) : Prop where
  lock : Exclusive (fun s => s.holdsRow = true) w.sessions
  row : ∃ row, w.tasks.get? taskId = some row ∧ row.metadata = ⟨lastEvents w.committed, other⟩
  sessions : ∀ s ∈ w.sessions, LogSessionOk taskId w.tasks s

namespace LogOk

variable {taskId : UUID} {other : JsonObject} {w w' : LogWorld} {i : ℕ} {s t : LogSession}

/-- A session goes on, with the lock only if it had it. -/
theorem move (h : LogOk taskId other w) (hi : w.sessions[i]? = some s)
    (hholds : t.holdsRow = true → s.holdsRow = true) (ht : LogSessionOk taskId w.tasks t) :
    LogOk taskId other (w.move i t) where
  lock := h.lock.set hi hholds
  row := h.row
  sessions u hu := by
    rcases mem_set_cases hu with rfl | ⟨j, -, hj⟩
    · exact ht
    · exact h.sessions u (List.mem_of_getElem? hj)

/-- A session takes the lock. -/
theorem moveLocked (h : LogOk taskId other w) (hfree : w.Unlocked)
    (ht : LogSessionOk taskId w.tasks t) : LogOk taskId other (w.move i t) where
  lock := Exclusive.set_free fun u hu hholds => by simp [hfree u hu] at hholds
  row := h.row
  sessions u hu := by
    rcases mem_set_cases hu with rfl | ⟨j, -, hj⟩
    · exact ht
    · exact h.sessions u (List.mem_of_getElem? hj)

/-- The commit of a session: the others do not hold the lock. -/
theorem commit {row : Option Task} {event : Option JsonObject} (h : LogOk taskId other w)
    (hi : w.sessions[i]? = some (.written row event)) :
    LogOk taskId other { w.move i .ended with
      tasks := row.elim w.tasks w.tasks.write
      committed := w.committed ++ event.toList } where
  lock := h.lock.set hi (by simp [LogSession.holdsRow])
  row := by
    have hwritten := h.sessions _ (List.mem_of_getElem? hi)
    obtain ⟨current, hcurrent, hmetadata⟩ := h.row
    cases row with
    | none =>
      obtain rfl : event = none := hwritten
      exact ⟨current, hcurrent, by simpa using hmetadata⟩
    | some row' =>
      obtain ⟨read, hread, happends⟩ := hwritten
      obtain rfl : current = read := Option.some.inj (hcurrent.symm.trans hread)
      have hid : row'.id = taskId := happends.id.trans (Table.get?_eq_some.mp hcurrent).2
      refine ⟨row', ?_, ?_⟩
      · show (w.tasks.write row').get? taskId = some row'
        rw [Table.get?_write, hcurrent]
        exact if_pos hid
      · rw [happends.metadata, hmetadata]
        cases event with
        | none => simp
        | some event => exact appendEvent_lastEvents _ _ _
  sessions u hu := by
    rcases mem_set_cases hu with rfl | ⟨j, hne, hj⟩
    · trivial
    · exact (h.sessions u (List.mem_of_getElem? hj)).of_not_holds (h.lock.others hi rfl hj hne)

theorem step {e : LogEvent} (h : LogOk taskId other w) (hstep : LogWorld.Step taskId w e w') :
    LogOk taskId other w' := by
  cases hstep with
  | call hlease =>
    refine ⟨h.lock.append (by simp [LogSession.holdsRow]), h.row, fun u hu => ?_⟩
    rcases List.mem_append.mp hu with hu | hu
    · exact h.sessions u hu
    · obtain rfl := List.mem_singleton.mp hu
      exact hlease
  | ended hi hlock => exact h.move hi (by simp [LogSession.holdsRow]) trivial
  | idle hi hfree hlock => exact h.moveLocked hfree rfl
  | granted hi hfree hlock =>
    have hlease : _ = taskId := h.sessions _ (List.mem_of_getElem? hi)
    exact h.moveLocked hfree (hlease ▸ get?_of_granted hlock)
  | write hi =>
    have hread := h.sessions _ (List.mem_of_getElem? hi)
    exact h.move hi (fun _ => rfl) ⟨_, hread, appends_write _ _ _ _⟩
  | commit hi => exact h.commit hi
  | rollback hi => exact h.move hi (by simp [LogSession.holdsRow]) trivial
  | other hrow hfree hid hmetadata =>
    obtain ⟨row, hget, hlog⟩ := h.row
    obtain rfl := Option.some.inj (hrow.symm.trans hget)
    refine ⟨h.lock, ⟨_, ?_, hmetadata.trans hlog⟩, fun u hu => ?_⟩
    · show (w.tasks.write _).get? taskId = _
      rw [Table.get?_write, hrow]
      exact if_pos hid
    · exact (h.sessions u hu).of_not_holds (by simp [hfree u hu])

/-- Nobody has opened a session yet. -/
theorem initial {tasks : Table Task} {row : Task} (hrow : tasks.get? taskId = some row)
    (hlen : row.metadata.events.length ≤ maxTaskEvents) :
    LogOk taskId row.metadata.other ⟨tasks, [], row.metadata.events⟩ where
  lock := .nil _
  row := by
    have hlog : lastEvents row.metadata.events = row.metadata.events := by
      unfold lastEvents
      rw [Nat.sub_eq_zero_of_le hlen, List.drop_zero]
    exact ⟨row, hrow, by rw [hlog]⟩
  sessions s hs := absurd hs List.not_mem_nil

end LogOk

namespace LogWorld

variable {taskId : UUID} {w w' : LogWorld}

/-- What has been committed stays in the history. -/
theorem committed_grows {e : LogEvent} (h : Step taskId w e w') :
    w.committed <+: w'.committed := by
  cases h with
  | commit hi => exact List.prefix_append _ _
  | _ => exact List.prefix_rfl

/-- In every interleaving the row has the last events of all commits and its other keys, each
event that waits for its commit is appended to the row as it stands, and the history grows. -/
theorem event_log {tasks : Table Task} {row : Task} (hrow : tasks.get? taskId = some row)
    (hlen : row.metadata.events.length ≤ maxTaskEvents)
    (hrun : Transition.Reaches (Step taskId) ⟨tasks, [], row.metadata.events⟩ w) :
    (∃ current, w.tasks.get? taskId = some current ∧
      current.metadata = ⟨lastEvents w.committed, row.metadata.other⟩) ∧
    (∀ row' event, .written (some row') event ∈ w.sessions →
      ∃ current, w.tasks.get? taskId = some current ∧ Appends current row' event) ∧
    ∀ w', Transition.Reaches (Step taskId) w w' → w.committed <+: w'.committed := by
  have hok : LogOk taskId row.metadata.other w :=
    hrun.invariant (LogOk.initial hrow hlen) fun _ _ _ h hstep => h.step hstep
  refine ⟨hok.row, fun row' event hmem => hok.sessions _ hmem, fun w' hrun' => ?_⟩
  exact hrun'.invariant (I := fun v => w.committed <+: v.committed) List.prefix_rfl
    fun _ _ _ h hstep => h.trans (committed_grows hstep)

/-! Three writers wait for one row at the same time. -/

def sampleRow : Task :=
  { id := 20, userId := some 1, conversationId := some 30, scheduleId := none, name := "Report"
    kind := .agent, prompt := some "Summarize the report", status := .running, progress := 1
    error := none, result := none, traceId := none, idempotencyKey := none, attemptCount := 1
    maxAttempts := 3, nextAttemptAt := none, heartbeatAt := some (seconds 2)
    leaseExpiresAt := some (seconds 62), runToken := some 40, timeoutSeconds := 600
    deadlineAt := some (seconds 602), replayBlockedAt := none, replayBlockedReason := none
    metadata := ⟨[], [("request_fingerprint", .str "f0")]⟩, createdAt := seconds 1
    startedAt := some (seconds 2), finishedAt := none }

def sampleRows : Table Task := ⟨[sampleRow], by simp⟩

def sampleMcpTool : RegisteredTool :=
  ⟨⟨"mcp_files_search", "", "read", false, [], true⟩, .mcpServer, some "search", some "files"⟩

def sampleCalls : List LogCall :=
  [.recordEvent "status" [("label", .str "Planning")],
    .recordMcpTaskEvent "mcp_task_progress" sampleMcpTool [("progress", .num 1)] (some 40),
    .finishOrRetry "Temporary failure" true (seconds 5)]

def turn (w : LogWorld) (i : ℕ) (call : LogCall) (row : Task) (now : Instant) : LogWorld :=
  ⟨w.tasks.write (call.write row now now).1, w.sessions.set i .ended,
    w.committed ++ (call.write row now now).2.toList⟩

theorem reaches_turn {v : LogWorld} (h : Transition.Reaches (Step taskId) v w) {i : ℕ}
    {lease : TaskLease} {call : LogCall} {row : Task} {now : Instant}
    (hi : w.sessions[i]? = some (.waiting lease call)) (hfree : w.Unlocked)
    (hlock : call.lock w.tasks lease now = .granted row) :
    Transition.Reaches (Step taskId) v (w.turn i call row now) := by
  have hlt : i < w.sessions.length := (List.getElem?_eq_some_iff.mp hi).1
  have hlocked := h.tail (Step.granted hi hfree hlock)
  have hwritten := hlocked.tail (@Step.write taskId _ i now now call row
    (by simp [move, List.getElem?_set_self hlt]))
  have hcommitted := hwritten.tail (@Step.commit taskId _ i
    (some (call.write row now now).1) (call.write row now now).2
    (by simp [move, hlt]))
  simpa [move, turn, List.set_set] using hcommitted

/-- The MCP event is committed first, then the status, and last the retry. -/
theorem reaches_sampleLog : ∃ w, Transition.Reaches (Step 20) ⟨sampleRows, [], []⟩ w ∧
    w.committed.length = 3 := by
  have hstart : Transition.Reaches (Step 20) ⟨sampleRows, [], []⟩ ⟨sampleRows, [], []⟩ := .refl _
  have hcalled :=
    ((hstart.tail (@Step.call 20 _ ⟨20, 40⟩ (sampleCalls.get ⟨0, by decide⟩) rfl)).tail
    (@Step.call 20 _ ⟨20, 40⟩ (sampleCalls.get ⟨1, by decide⟩) rfl)).tail
      (@Step.call 20 _ ⟨20, 40⟩ (sampleCalls.get ⟨2, by decide⟩) rfl)
  have hmcp := @reaches_turn 20 _ _ hcalled 1 _ _ _ (seconds 3) rfl
    (by simp [Unlocked, LogSession.holdsRow]) rfl
  have hstatus := @reaches_turn 20 _ _ hmcp 0 _ _ _ (seconds 4) rfl
    (by simp [Unlocked, turn, LogSession.holdsRow]) rfl
  have hretry := @reaches_turn 20 _ _ hstatus 2 _ _ _ (seconds 5) rfl
    (by simp [Unlocked, turn, LogSession.holdsRow]) rfl
  exact ⟨_, hretry, rfl⟩

theorem event_log_sample : ∃ (w : LogWorld) (current : Task), w.committed.length = 3 ∧
    w.tasks.get? 20 = some current ∧
      current.metadata = ⟨lastEvents w.committed, sampleRow.metadata.other⟩ := by
  obtain ⟨w, hrun, hthree⟩ := reaches_sampleLog
  obtain ⟨current, hcurrent, hmetadata⟩ := (@event_log 20 _ sampleRows sampleRow rfl (by decide)
    hrun).1
  exact ⟨w, current, hthree, hcurrent, hmetadata⟩

end LogWorld

end AgentDemo
