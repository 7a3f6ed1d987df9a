import AgentDemo.System.RowInvariant
import AgentDemo.System.Traffic

/-! The life of a task: the states that its row goes through, and its end. -/
namespace AgentDemo

/-! ### Agent tasks -/

def CancelNoted (task : Task) : Prop :=
  task.status = .cancelled → task.replayBlockedAt.isSome → task.error = some cancelledAfterWork

/-- An agent task is cancelled by its owner only, and nothing else moves it once it has ended. -/
theorem TaskStep.cancels_or_unended {task task' : Task} {es es' : List TaskEntry}
    (hs : TaskStep ⟨some task, es⟩ ⟨some task', es'⟩) (hk : task.kind = .agent) :
    (es' = es ∧ ∃ now, cancelTask task now = .ok task') ∨
      (¬ task.status.Terminal ∧ task'.status ≠ .cancelled) := by
  have running (h : task.status = .running) : ¬ task.status.Terminal := by
    simp [h, TaskStatus.Terminal]
  have queued (h : task.status = .queued) : ¬ task.status.Terminal := by
    simp [h, TaskStatus.Terminal]
  cases hs with
  | claim hc fresh =>
    obtain ⟨-, hq, -, rfl, -, -⟩ := AgentTaskRunner.claim_eq_started hc
    exact Or.inr ⟨queued hq, by simp [AgentTaskRunner.startAttempt]⟩
  | claimFailed hc =>
    obtain ⟨-, hq, error, rfl⟩ := AgentTaskRunner.claim_eq_failed hc
    exact Or.inr ⟨queued hq, by simp [AgentDemo.finishFailed]⟩
  | heartbeat hold hb =>
    obtain ⟨deadline, -, rfl⟩ := Option.map_eq_some_iff.mp hb
    exact Or.inr ⟨running hold.running, by simp [hold.running]⟩
  | recordEvent hold eventType data now' =>
    exact Or.inr ⟨running hold.running, by simp [AgentDemo.recordEvent, hold.running]⟩
  | succeed hold donePayload answerParts conversationId now' =>
    exact Or.inr ⟨running hold.running, by simp [AgentDemo.succeed]⟩
  | checked hold => exact Or.inr ⟨running hold.running, by simp [hold.running]⟩
  | effect hold reason now' he =>
    exact Or.inr ⟨running hold.running, by simp [blockReplay, hold.running]⟩
  | finishOrRetry hold error retryable wait now' =>
    refine Or.inr ⟨running hold.running, ?_⟩
    simp only [AgentDemo.finishOrRetry]
    split_ifs <;> simp [finishFailed, retryScheduled]
  | mcpEvent hold eventType tool payload progress =>
    obtain ⟨⟨lease, -, -, -, hr⟩, -⟩ := hold hk
    exact Or.inr ⟨running hr, by simp [withMcpEvent, hr]⟩
  | recover hab =>
    refine Or.inr ⟨running hab.1, ?_⟩
    unfold AgentDemo.recoverTask
    split_ifs <;> simp [AgentDemo.requeued, markedStale]
  | cancel hc => exact Or.inl ⟨rfl, _, hc⟩
  | update hu => exact absurd hk (kind_of_updateTask hu)

theorem TaskStep.cancelNoted {task task' : Task} {es es' : List TaskEntry}
    (hs : TaskStep ⟨some task, es⟩ ⟨some task', es'⟩) (hk : task.kind = .agent) :
    CancelNoted task' := by
  intro hcancelled hblocked
  rcases hs.cancels_or_unended hk with ⟨-, now, hc⟩ | ⟨-, hne⟩
  · obtain ⟨-, rfl⟩ := cancelTask_eq_ok hc
    exact if_pos hblocked
  · exact absurd hcancelled hne

/-- A second cancellation writes the row that is there. -/
theorem cancelTask_cancelled {task task' : Task} {now : Instant} (hrow : AgentRow task)
    (hnote : CancelNoted task) (hs : task.status = .cancelled)
    (h : cancelTask task now = .ok task') : task' = task := by
  obtain ⟨-, rfl⟩ := cancelTask_eq_ok h
  have htoken : task.runToken = none := by
    simpa [hs] using mt hrow.running_iff.mpr (by simp [hs])
  have hlease := hrow.unleased (by simp [hs])
  have hnext := hrow.no_next (by simp [hs])
  obtain ⟨finished, hfinished⟩ := Option.isSome_iff_exists.mp
    (hrow.finished (by simp [hs, TaskStatus.Terminal]))
  have herror : (if task.replayBlockedAt.isSome then some cancelledAfterWork else task.error) =
      task.error := by
    split_ifs with hblocked
    · exact (hnote hs hblocked).symm
    · rfl
  cases task
  simp only [applyTaskStatusTimestamps] at *
  simp [hs, htoken, hlease, hnext, hfinished, herror]

/-! ### Manual tasks -/

/-- What holds of a task that its owner moves by hand. -/
structure ManualRow (task : Task) : Prop where
  attempts : task.attemptCount = 0
  token : task.runToken = none
  lease : task.leaseExpiresAt = none
  unblocked : task.replayBlockedAt = none
  started : task.status = .running ∨ task.status = .succeeded ∨ task.status = .stale →
    task.startedAt.isSome
  finished_iff : task.finishedAt.isSome ↔ task.status.Terminal

/-- What a later row of a manual task has kept. -/
structure Follows (task task' : Task) : Prop where
  status : Relation.ReflTransGen (fun s t => isValidTaskStatusTransition s t = true)
    task.status task'.status
  startedAt : task.startedAt.isSome → task'.startedAt = task.startedAt
  finishedAt : task.finishedAt.isSome → task'.finishedAt = task.finishedAt

theorem Follows.refl (task : Task) : Follows task task := ⟨.refl, fun _ => rfl, fun _ => rfl⟩

theorem Follows.trans {a b c : Task} (h : Follows a b) (h' : Follows b c) : Follows a c where
  status := h.status.trans h'.status
  startedAt hs := by
    have heq := h.startedAt hs
    exact (h'.startedAt (heq ▸ hs)).trans heq
  finishedAt hs := by
    have heq := h.finishedAt hs
    exact (h'.finishedAt (heq ▸ hs)).trans heq

/-- A status that ends a task has no way out. -/
theorem eq_of_terminal {s t : TaskStatus} (hs : s.Terminal)
    (h : Relation.ReflTransGen (fun s t => isValidTaskStatusTransition s t = true) s t) :
    t = s := by
  induction h with
  | refl => rfl
  | @tail b c hb hc ih =>
    subst ih
    cases b with
    | queued => exact hs.elim
    | running => exact hs.elim
    | _ => simpa [isValidTaskStatusTransition, taskStatusTransitions] using hc

/-- The ends that only work can lead to. -/
theorem started_of_valid {s t : TaskStatus} (h : isValidTaskStatusTransition s t = true)
    (ht : t = .succeeded ∨ t = .stale) : s = .running ∨ s = .succeeded ∨ s = .stale := by
  rcases ht with rfl | rfl
  all_goals cases s <;> simp [isValidTaskStatusTransition, taskStatusTransitions] at h ⊢

/-- A row that has taken a valid transition, with the timestamps of it. -/
structure Moved (task task' : Task) (now : Instant) : Prop where
  valid : isValidTaskStatusTransition task.status task'.status = true
  startedAt : task'.startedAt = (applyTaskStatusTimestamps task task'.status now).startedAt
  finishedAt : task'.finishedAt = (applyTaskStatusTimestamps task task'.status now).finishedAt
  createdAt : task'.createdAt = task.createdAt
  attempts : task'.attemptCount = task.attemptCount
  token : task'.runToken = none
  lease : task'.leaseExpiresAt = none
  unblocked : task'.replayBlockedAt = task.replayBlockedAt
  userId : task'.userId = task.userId
  conversationId : task'.conversationId = task.conversationId

theorem Moved.follows {task task' : Task} {now : Instant} (h : Moved task task' now) :
    Follows task task' where
  status := .single h.valid
  startedAt hs := by
    obtain ⟨started, hstarted⟩ := Option.isSome_iff_exists.mp hs
    rw [h.startedAt]
    simp [applyTaskStatusTimestamps, hstarted]
  finishedAt hf := by
    obtain ⟨finished, hfinished⟩ := Option.isSome_iff_exists.mp hf
    rw [h.finishedAt]
    simp [applyTaskStatusTimestamps, hfinished]

theorem Moved.manualRow {task task' : Task} {now : Instant} (h : Moved task task' now)
    (hrow : ManualRow task) : ManualRow task' where
  attempts := h.attempts.trans hrow.attempts
  token := h.token
  lease := h.lease
  unblocked := h.unblocked.trans hrow.unblocked
  started hs := by
    rw [h.startedAt]
    rcases hs with hrunning | hended
    · rw [hrunning]
      cases hstarted : task.startedAt <;> simp [applyTaskStatusTimestamps, hstarted]
    · obtain ⟨started, hstarted⟩ := Option.isSome_iff_exists.mp
        (hrow.started (started_of_valid h.valid hended))
      simp [applyTaskStatusTimestamps, hstarted]
  finished_iff := by
    rw [h.finishedAt]
    by_cases hended : task'.status.Terminal
    · cases hfinished : task.finishedAt <;> simp [applyTaskStatusTimestamps, hended, hfinished]
    · have hbefore : ¬ task.status.Terminal := fun hterminal =>
        hended (eq_of_terminal hterminal (.single h.valid) ▸ hterminal)
      simp [applyTaskStatusTimestamps, hended, hrow.finished_iff, hbefore]

theorem ManualRow.of_inserted {task : Task} (h : Inserted task) : ManualRow task where
  attempts := h.attempts
  token := h.token
  lease := h.lease
  unblocked := h.unblocked
  started hs := by simp [h.queued] at hs
  finished_iff := by simp [h.finished, h.queued, TaskStatus.Terminal]

theorem Moved.stay {task task' : Task} (hrow : ManualRow task) (now : Instant)
    (hs : task'.status = task.status) (hstarted : task'.startedAt = task.startedAt)
    (hfinished : task'.finishedAt = task.finishedAt) (hc : task'.createdAt = task.createdAt)
    (ha : task'.attemptCount = task.attemptCount) (ht : task'.runToken = task.runToken)
    (hl : task'.leaseExpiresAt = task.leaseExpiresAt)
    (hr : task'.replayBlockedAt = task.replayBlockedAt) (hu : task'.userId = task.userId)
    (hconv : task'.conversationId = task.conversationId) : Moved task task' now where
  valid := by
    rw [hs]
    cases task.status <;> decide
  startedAt := by
    rw [hstarted, hs]
    by_cases hrunning : task.status = .running
    · obtain ⟨started, hsome⟩ := Option.isSome_iff_exists.mp (hrow.started (Or.inl hrunning))
      simp [applyTaskStatusTimestamps, hsome]
    · simp [applyTaskStatusTimestamps, hrunning]
  finishedAt := by
    rw [hfinished, hs]
    by_cases hended : task.status.Terminal
    · obtain ⟨finished, hsome⟩ := Option.isSome_iff_exists.mp (hrow.finished_iff.mpr hended)
      simp [applyTaskStatusTimestamps, hsome]
    · simp [applyTaskStatusTimestamps, hended]
  createdAt := hc
  attempts := ha
  token := ht.trans hrow.token
  lease := hl.trans hrow.lease
  unblocked := hr
  userId := hu
  conversationId := hconv

/-- An update that its checks let pass. -/
theorem updateTask_moved {task task' : Task} {payload : TaskUpdate} {now : Instant}
    (hrow : ManualRow task) (h : updateTask task payload now = .ok task') :
    Moved task task' now := by
  have hk := kind_of_updateTask h
  unfold updateTask at h
  rw [if_neg hk] at h
  cases hs : payload.status with
  | none =>
    simp only [hs, bind, Except.bind, Except.ok.injEq] at h
    subst h
    exact .stay hrow now rfl rfl rfl rfl rfl rfl rfl rfl rfl rfl
  | some next =>
    simp only [hs, bind, Except.bind, validateTaskTransition] at h
    by_cases hvalid : isValidTaskStatusTransition task.status next = true
    · simp only [hvalid, if_true, Except.ok.injEq] at h
      subst h
      exact ⟨hvalid, rfl, rfl, rfl, rfl, hrow.token, hrow.lease, rfl, rfl, rfl⟩
    · simp [hvalid] at h

theorem cancelTask_moved {task task' : Task} {now : Instant}
    (h : cancelTask task now = .ok task') : Moved task task' now := by
  obtain ⟨hold, rfl⟩ := cancelTask_eq_ok h
  refine ⟨?_, rfl, rfl, rfl, rfl, rfl, rfl, rfl, rfl, rfl⟩
  rcases hold with hs | hs | hs
  all_goals simp [hs, isValidTaskStatusTransition, taskStatusTransitions]

/-- Only its owner moves a manual task: no worker ever holds a lease of it. -/
theorem ManualRow.step {task task' : Task} {es es' : List TaskEntry} (h : ManualRow task)
    (hk : task.kind ≠ .agent) (hs : TaskStep ⟨some task, es⟩ ⟨some task', es'⟩) :
    es' = es ∧ ∃ now, Moved task task' now := by
  have unheld {lease : TaskLease} {now : Instant} {live : Bool} (hold : Holds task lease now live) :
      False := by
    have htoken := hold.token
    rw [h.token] at htoken
    cases htoken
  cases hs with
  | claim hc fresh => exact absurd (AgentTaskRunner.claim_eq_started hc).1 hk
  | claimFailed hc => exact absurd (AgentTaskRunner.claim_eq_failed hc).1 hk
  | heartbeat hold hb => exact (unheld hold).elim
  | recordEvent hold eventType data now' => exact (unheld hold).elim
  | succeed hold donePayload answerParts conversationId now' => exact (unheld hold).elim
  | checked hold => exact (unheld hold).elim
  | effect hold reason now' he => exact (unheld hold).elim
  | finishOrRetry hold error retryable wait now' => exact (unheld hold).elim
  | mcpEvent hold eventType tool payload progress =>
    exact ⟨rfl, 0, .stay h 0 rfl rfl rfl rfl rfl rfl rfl rfl rfl rfl⟩
  | recover hab => exact absurd hab.2.1 hk
  | cancel hc => exact ⟨rfl, _, cancelTask_moved hc⟩
  | update hu => exact ⟨rfl, _, updateTask_moved h hu⟩

/-! ### Runs -/

/-- An agent task keeps its invariants, and a manual task is as its owner has left it. -/
structure TaskView.Sound (v : TaskView) : Prop where
  absent : v.row = none → v.entries = []
  agent : ∀ task, v.row = some task → task.kind = .agent → AgentRow task ∧ CancelNoted task
  manual : ∀ task, v.row = some task → task.kind ≠ .agent → ManualRow task ∧ v.entries = []

namespace TaskView.Sound

theorem empty : (⟨none, []⟩ : TaskView).Sound :=
  ⟨fun _ => rfl, fun _ h => (by cases h), fun _ h => (by cases h)⟩

theorem step {v v' : TaskView} (h : v.Sound) (hs : TaskStep v v') : v'.Sound := by
  obtain ⟨row, es⟩ := v
  cases row with
  | none =>
    cases hs with
    | insert hi =>
      constructor
      case absent =>
        intro hrow
        cases hrow
      case agent =>
        intro task hrow hk
        obtain rfl := Option.some.inj hrow
        exact ⟨.of_inserted hi, fun hcancelled => by simp [hi.queued] at hcancelled⟩
      case manual =>
        intro task hrow hk
        obtain rfl := Option.some.inj hrow
        exact ⟨.of_inserted hi, h.absent rfl⟩
  | some task =>
    obtain ⟨task', new, rfl, hframe⟩ := hs.frame
    constructor
    case absent =>
      intro hrow
      cases hrow
    case agent =>
      intro task'' hrow hk
      obtain rfl := Option.some.inj hrow
      have hkind := hframe.kind.symm.trans hk
      exact ⟨(h.agent task rfl hkind).1.step hkind hs, hs.cancelNoted hkind⟩
    case manual =>
      intro task'' hrow hk
      obtain rfl := Option.some.inj hrow
      have hkind : task.kind ≠ .agent := hframe.kind ▸ hk
      obtain ⟨hrow, hes⟩ := h.manual task rfl hkind
      obtain ⟨hsame, now, hmoved⟩ := hrow.step hkind hs
      exact ⟨hmoved.manualRow hrow, hsame.trans hes⟩

/-- No invariant mentions the conversation. -/
theorem unlink {task : Task} {es : List TaskEntry} (c : UUID)
    (h : (⟨some task, es⟩ : TaskView).Sound) :
    (⟨some (unlinkTask c task), es⟩ : TaskView).Sound := by
  unfold unlinkTask
  split_ifs
  · constructor
    case absent => exact fun hrow => (by cases hrow)
    case agent =>
      intro task' hrow hk
      obtain rfl := Option.some.inj hrow
      obtain ⟨hagent, hnoted⟩ := h.agent task rfl hk
      exact ⟨⟨hagent.running_iff, hagent.leased, hagent.attempted, hagent.unleased,
        hagent.finished, hagent.no_next, hagent.unfinished, hagent.progress_range,
        hagent.progress_full⟩, hnoted⟩
    case manual =>
      intro task' hrow hk
      obtain rfl := Option.some.inj hrow
      obtain ⟨hmanual, hes⟩ := h.manual task rfl hk
      exact ⟨⟨hmanual.attempts, hmanual.token, hmanual.lease, hmanual.unblocked, hmanual.started,
        hmanual.finished_iff⟩, hes⟩
  · exact h

end TaskView.Sound

namespace Traffic

variable {env : Environment} {w w' : World}

theorem Reachable.sound (hw : Reachable env w) (id : UUID) : (w.view id).Sound :=
  hw.view_invariant .empty (fun _ _ h hs => h.step hs) (fun _ _ c h => h.unlink c) id

/-- An agent task that has ended never changes again: nothing is claimed, written, dispatched or
answered under its name, and its row can only lose its conversation. -/
theorem ended_agent_task_frozen (hw : Reachable env w) (hl : Later env w w') {task : Task}
    (hmem : task ∈ w.tasks.rows) (hk : task.kind = .agent) (hended : task.status.Terminal) :
    ∃ c, w'.tasks.get? task.id = some { task with conversationId := c } ∧
      (c = task.conversationId ∨ c = none) ∧ w'.entries task.id = w.entries task.id := by
  have hkept : ∃ task', w'.tasks.get? task.id = some task' ∧ ∃ c,
      task' = { task with conversationId := c } ∧ (c = task.conversationId ∨ c = none) ∧
        w'.entries task.id = w.entries task.id := by
    refine hw.persists (P := fun t es => ∃ c, t = { task with conversationId := c } ∧
      (c = task.conversationId ∨ c = none) ∧ es = w.entries task.id) (J := TaskView.Sound) hl hmem
      (fun u hu => hu.sound task.id) ⟨task.conversationId, rfl, Or.inl rfl, rfl⟩ ?step ?unlink
    case step =>
      rintro t es t' es' hsound ⟨c, rfl, hc, rfl⟩ hs
      obtain ⟨hrow, hnoted⟩ := hsound.agent _ rfl hk
      rcases hs.cancels_or_unended hk with ⟨rfl, now, hcancel⟩ | ⟨hunended, -⟩
      · have hcancelled : task.status = .cancelled := by
          rcases (cancelTask_eq_ok hcancel).1 with hq | hq | hq
          · simp [show task.status = .queued from hq, TaskStatus.Terminal] at hended
          · simp [show task.status = .running from hq, TaskStatus.Terminal] at hended
          · exact hq
        exact ⟨c, cancelTask_cancelled hrow hnoted hcancelled hcancel, hc, rfl⟩
      · exact absurd hended hunended
    case unlink =>
      rintro t es c' ⟨c, rfl, hc, rfl⟩
      unfold unlinkTask
      split_ifs
      · exact ⟨none, rfl, Or.inr rfl, rfl⟩
      · exact ⟨c, rfl, hc, rfl⟩
  obtain ⟨task', hget, c, rfl, hc, hes⟩ := hkept
  exact ⟨c, hget, hc, hes⟩

/-! A cancelled task whose conversation is deleted before it is cancelled and claimed once more. -/

def untilCancelled : List Action :=
  requests "report-2024" sampleKey_length ++ attempt ++
    [⟨.cancelTask 1 20, seconds 5, seconds 5⟩]

def cancelledTraffic : World := ofRun sampleEnvironment (untilCancelled.map .ofAction)

theorem reachable_cancelledTraffic : Reachable sampleEnvironment cancelledTraffic :=
  reachable_ofRun _ (by decide)

def cancelledTask : Task :=
  cancelledTraffic.tasks.rows.head (List.ne_nil_of_length_pos (by decide))

theorem cancelledTask_mem : cancelledTask ∈ cancelledTraffic.tasks.rows := List.head_mem _

def afterCancellation : List TrafficAction :=
  [⟨.deleteConversation 1 30, seconds 6, seconds 6⟩,
    .ofAction ⟨.cancelTask 1 20, seconds 7, seconds 7⟩,
    .ofAction ⟨.claim sampleRunner 20 31 41, seconds 8, seconds 8⟩]

theorem ended_agent_task_frozen_sample :
    ∃ c, (after sampleEnvironment cancelledTraffic afterCancellation).tasks.get? 20 =
      some { cancelledTask with conversationId := c } := by
  obtain ⟨c, hget, -⟩ := ended_agent_task_frozen reachable_cancelledTraffic
    (later_after afterCancellation (by decide)) cancelledTask_mem (by decide) (by decide)
  exact ⟨c, hget⟩

end Traffic

end AgentDemo
