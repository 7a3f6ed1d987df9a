import AgentDemo.System.TaskHistory

/-! The columns of an agent task fit together in every reachable state. -/
namespace AgentDemo

structure AgentRow (task : Task) : Prop where
  running_iff : task.status = .running ↔ task.runToken.isSome
  leased : task.status = .running → ∃ expires deadline, task.leaseExpiresAt = some expires ∧
    task.deadlineAt = some deadline ∧ expires ≤ deadline
  attempted : task.status = .running → 1 ≤ task.attemptCount
  unleased : task.status ≠ .running → task.leaseExpiresAt = none
  finished : task.status.Terminal → task.finishedAt.isSome
  no_next : task.status ≠ .queued → task.nextAttemptAt = none
  unfinished : task.status = .queued → task.finishedAt = none
  progress_range : 0 ≤ task.progress ∧ task.progress ≤ 100
  progress_full : task.progress = 100 → task.status = .succeeded

namespace AgentRow

variable {task task' : Task}

theorem of_inserted (h : Inserted task) : AgentRow task where
  running_iff := by simp [h.queued, h.token]
  leased hs := by simp [h.queued] at hs
  attempted hs := by simp [h.queued] at hs
  unleased _ := h.lease
  finished hs := by simp [h.queued, TaskStatus.Terminal] at hs
  no_next hs := absurd h.queued hs
  unfinished _ := h.finished
  progress_range := by simp [h.progress]
  progress_full hp := by simp [h.progress] at hp

/-- An unfinished task has not reported full progress. -/
theorem progress_lt (h : AgentRow task) (hs : task.status ≠ .succeeded) : task.progress < 100 :=
  lt_of_le_of_ne h.progress_range.2 fun hp => hs (h.progress_full hp)

/-- Ending a task that has not succeeded: failure, cancellation and the end as stale. -/
theorem stop (h : AgentRow task) (hold : task.status ≠ .succeeded) (hs : task'.status.Terminal)
    (hp : task'.progress = task.progress) (hf : task'.finishedAt.isSome)
    (hn : task'.nextAttemptAt = none) (hl : task'.leaseExpiresAt = none)
    (ht : task'.runToken = none) : AgentRow task' where
  running_iff := by
    constructor
    · intro hr
      simp [hr, TaskStatus.Terminal] at hs
    · intro hr
      simp [ht] at hr
  leased hr := by simp [hr, TaskStatus.Terminal] at hs
  attempted hr := by simp [hr, TaskStatus.Terminal] at hs
  unleased _ := hl
  finished _ := hf
  no_next _ := hn
  unfinished hq := by simp [hq, TaskStatus.Terminal] at hs
  progress_range := hp ▸ h.progress_range
  progress_full hfull := absurd (hp ▸ hfull) (h.progress_lt hold).ne

/-- Back to the queue. -/
theorem requeue (h : AgentRow task) (hold : task.status ≠ .succeeded) (hs : task'.status = .queued)
    (hp : task'.progress = task.progress) (hf : task'.finishedAt = none)
    (hl : task'.leaseExpiresAt = none) (ht : task'.runToken = none) : AgentRow task' where
  running_iff := by simp [hs, ht]
  leased hr := by simp [hs] at hr
  attempted hr := by simp [hs] at hr
  unleased _ := hl
  finished hr := by simp [hs, TaskStatus.Terminal] at hr
  no_next hn := absurd hs hn
  unfinished _ := hf
  progress_range := hp ▸ h.progress_range
  progress_full hfull := absurd (hp ▸ hfull) (h.progress_lt hold).ne

/-- A write of a running attempt that keeps its token: only the lease and the progress matter. -/
theorem keepRunning (h : AgentRow task) (hr : task.status = .running)
    (hs : task'.status = task.status) (ht : task'.runToken = task.runToken)
    (ha : task'.attemptCount = task.attemptCount) (hn : task'.nextAttemptAt = task.nextAttemptAt)
    (hl : ∃ expires deadline, task'.leaseExpiresAt = some expires ∧
      task'.deadlineAt = some deadline ∧ expires ≤ deadline)
    (hp : 0 ≤ task'.progress ∧ task'.progress < 100) : AgentRow task' where
  running_iff := by rw [hs, ht]; exact h.running_iff
  leased _ := hl
  attempted _ := ha ▸ h.attempted hr
  unleased hne := absurd (hs.trans hr) hne
  finished hterm := by simp [hs, hr, TaskStatus.Terminal] at hterm
  no_next _ := hn.trans (h.no_next (by simp [hr]))
  unfinished hq := by simp [hs, hr] at hq
  progress_range := ⟨hp.1, hp.2.le⟩
  progress_full hfull := absurd hfull hp.2.ne

theorem keepLease (h : AgentRow task) (hr : task.status = .running)
    (hs : task'.status = task.status) (ht : task'.runToken = task.runToken)
    (ha : task'.attemptCount = task.attemptCount) (hn : task'.nextAttemptAt = task.nextAttemptAt)
    (hl : task'.leaseExpiresAt = task.leaseExpiresAt) (hd : task'.deadlineAt = task.deadlineAt)
    (hp : 0 ≤ task'.progress ∧ task'.progress < 100) : AgentRow task' :=
  h.keepRunning hr hs ht ha hn (by rw [hl, hd]; exact h.leased hr) hp

theorem startAttempt (runner : AgentTaskRunner) (task : Task) (conversationId token : UUID)
    (now : Instant) : AgentRow (runner.startAttempt task conversationId token now) where
  running_iff := by simp [AgentTaskRunner.startAttempt]
  leased _ := ⟨_, _, rfl, rfl, min_le_right _ _⟩
  attempted _ := Nat.le_add_left 1 _
  unleased hne := absurd rfl hne
  finished hterm := hterm.elim
  no_next _ := rfl
  unfinished hq := by simp [AgentTaskRunner.startAttempt] at hq
  progress_range := by simp [AgentTaskRunner.startAttempt]
  progress_full hfull := by simp [AgentTaskRunner.startAttempt] at hfull

theorem finishFailed (h : AgentRow task) (hold : task.status ≠ .succeeded) (error : String)
    (now : Instant) : AgentRow (finishFailed task error now) :=
  h.stop hold trivial rfl rfl rfl rfl rfl

theorem finishOrRetry (h : AgentRow task) (hold : task.status ≠ .succeeded) (error : String)
    (retryable : Bool) (wait now now' : Instant) :
    AgentRow (finishOrRetry task error retryable wait now now') := by
  simp only [AgentDemo.finishOrRetry]
  split_ifs
  · exact h.finishFailed hold _ _
  · exact h.finishFailed hold _ _
  · exact h.requeue hold rfl rfl rfl rfl rfl
  · exact h.finishFailed hold _ _

theorem recoverTask (h : AgentRow task) (hold : task.status ≠ .succeeded) (now : Instant) :
    AgentRow (recoverTask task now) := by
  unfold AgentDemo.recoverTask
  split_ifs
  · exact h.requeue hold rfl rfl rfl rfl rfl
  · exact h.stop hold trivial rfl rfl rfl rfl rfl

theorem heartbeat {runner : AgentTaskRunner} {now : Instant} (h : AgentRow task)
    (hr : task.status = .running) (hb : runner.heartbeat task now = some task') :
    AgentRow task' := by
  obtain ⟨deadline, hd, rfl⟩ := Option.map_eq_some_iff.mp hb
  exact h.keepRunning hr rfl rfl rfl rfl ⟨_, deadline, rfl, hd, min_le_right _ _⟩
    ⟨h.progress_range.1, h.progress_lt (by simp [hr])⟩

theorem succeed (h : AgentRow task) (hr : task.status = .running) (donePayload : JsonObject)
    (answerParts : List String) (conversationId : UUID) (now : Instant) :
    AgentRow (succeed task donePayload answerParts conversationId now) where
  running_iff := by simp [AgentDemo.succeed]
  leased hs := by simp [AgentDemo.succeed] at hs
  attempted hs := by simp [AgentDemo.succeed] at hs
  unleased _ := rfl
  finished _ := rfl
  no_next _ := h.no_next (by simp [hr])
  unfinished hq := by simp [AgentDemo.succeed] at hq
  progress_range := ⟨by simp [AgentDemo.succeed], le_rfl⟩
  progress_full _ := rfl

theorem cancelTask {now : Instant} (h : AgentRow task) (hc : cancelTask task now = .ok task') :
    AgentRow task' := by
  obtain ⟨hold, rfl⟩ := cancelTask_eq_ok hc
  have hne : task.status ≠ .succeeded := by
    rcases hold with hs | hs | hs <;> simp [hs]
  refine h.stop hne trivial rfl ?_ rfl rfl rfl
  simp only [applyTaskStatusTimestamps]
  cases task.finishedAt <;> rfl

end AgentRow

/-- One step of an agent task keeps its columns consistent. -/
theorem AgentRow.step {task task' : Task} {es es' : List TaskEntry} (h : AgentRow task)
    (hk : task.kind = .agent) (hs : TaskStep ⟨some task, es⟩ ⟨some task', es'⟩) :
    AgentRow task' := by
  cases hs with
  | claim hc fresh =>
    obtain ⟨-, -, -, rfl, -, -⟩ := AgentTaskRunner.claim_eq_started hc
    exact .startAttempt ..
  | claimFailed hc =>
    obtain ⟨-, hq, error, rfl⟩ := AgentTaskRunner.claim_eq_failed hc
    exact h.finishFailed (by simp [hq]) error _
  | heartbeat hold hb => exact h.heartbeat hold.running hb
  | recordEvent hold eventType data now' =>
    have hlt := h.progress_lt (by simp [hold.running])
    refine h.keepLease hold.running rfl rfl rfl rfl rfl rfl ⟨?_, ?_⟩
    · exact le_max_of_le_left h.progress_range.1
    · exact max_lt hlt (lt_of_le_of_lt (min_le_right _ _) (by decide))
  | succeed hold donePayload answerParts conversationId now' => exact h.succeed hold.running ..
  | checked hold => exact h
  | effect hold reason now' he =>
    exact h.keepLease hold.running rfl rfl rfl rfl rfl rfl
      ⟨h.progress_range.1, h.progress_lt (by simp [hold.running])⟩
  | finishOrRetry hold error retryable wait now' =>
    exact h.finishOrRetry (by simp [hold.running]) ..
  | mcpEvent hold eventType tool payload progress =>
    obtain ⟨⟨lease, -, -, -, hr⟩, -⟩ := hold hk
    have hlt := h.progress_lt (by simp [hr])
    refine h.keepLease hr rfl rfl rfl rfl rfl rfl ?_
    cases progress with
    | none => exact ⟨h.progress_range.1, hlt⟩
    | some p =>
      simp only [withMcpEvent, hk, if_true]
      exact ⟨le_max_of_le_left h.progress_range.1,
        max_lt hlt (lt_of_le_of_lt (min_le_right _ _) (by decide))⟩
  | recover hab => exact h.recoverTask (by simp [hab.1]) _
  | cancel hc => exact h.cancelTask hc
  | update hu => exact absurd hk (kind_of_updateTask hu)

/-- Within an attempt progress does not decrease; another attempt has a higher count. -/
def Advanced (count : ℕ) (progress : ℤ) (task : Task) : Prop :=
  count < task.attemptCount ∨ (count = task.attemptCount ∧ progress ≤ task.progress)

theorem Advanced.step {count : ℕ} {progress : ℤ} {task task' : Task} {es es' : List TaskEntry}
    (h : Advanced count progress task) (hrow : AgentRow task) (hk : task.kind = .agent)
    (hs : TaskStep ⟨some task, es⟩ ⟨some task', es'⟩) : Advanced count progress task' := by
  have keep (ha : task'.attemptCount = task.attemptCount) (hp : task.progress ≤ task'.progress) :
      Advanced count progress task' := by
    rcases h with hlt | ⟨heq, hle⟩
    · exact Or.inl (ha ▸ hlt)
    · exact Or.inr ⟨heq.trans ha.symm, hle.trans hp⟩
  cases hs with
  | claim hc fresh =>
    obtain ⟨-, -, -, rfl, -, -⟩ := AgentTaskRunner.claim_eq_started hc
    refine Or.inl (lt_of_le_of_lt ?_ (Nat.lt_succ_self task.attemptCount))
    rcases h with hlt | ⟨heq, -⟩
    · exact hlt.le
    · exact heq.le
  | claimFailed hc =>
    obtain ⟨-, -, error, rfl⟩ := AgentTaskRunner.claim_eq_failed hc
    exact keep rfl le_rfl
  | heartbeat hold hb =>
    obtain ⟨deadline, -, rfl⟩ := Option.map_eq_some_iff.mp hb
    exact keep rfl le_rfl
  | recordEvent hold eventType data now' => exact keep rfl (le_max_left _ _)
  | succeed hold donePayload answerParts conversationId now' =>
    exact keep rfl hrow.progress_range.2
  | checked hold => exact h
  | effect hold reason now' he => exact keep rfl le_rfl
  | finishOrRetry hold error retryable wait now' =>
    simp only [AgentDemo.finishOrRetry] at keep ⊢
    split_ifs at keep ⊢ <;> exact keep rfl le_rfl
  | mcpEvent hold eventType tool payload progress =>
    refine keep rfl ?_
    cases progress with
    | none => exact le_rfl
    | some p => exact le_max_left _ _
  | recover hab =>
    unfold AgentDemo.recoverTask at keep ⊢
    split_ifs at keep ⊢ <;> exact keep rfl le_rfl
  | cancel hc =>
    obtain ⟨-, rfl⟩ := cancelTask_eq_ok hc
    exact keep rfl le_rfl
  | update hu => exact absurd hk (kind_of_updateTask hu)

/-! ### All reachable states -/

namespace World

variable {env : Environment} {w w' : World}

theorem Reachable.agentRow (hw : Reachable env w) (id : UUID) :
    OnAgentTask (fun task _ => AgentRow task) (w.view id) :=
  hw.onAgentTask (fun _ => .of_inserted) (fun _ _ _ _ h hk hs => h.step hk hs) id

/-- The row of every agent task is consistent in every reachable state. -/
theorem agent_row_consistent (hw : Reachable env w) {task : Task} (hmem : task ∈ w.tasks.rows)
    (hk : task.kind = .agent) :
    (task.status = .running ↔ task.runToken.isSome) ∧
    (task.status = .running → (∃ expires deadline, task.leaseExpiresAt = some expires ∧
      task.deadlineAt = some deadline ∧ expires ≤ deadline) ∧ 1 ≤ task.attemptCount) ∧
    (task.status ≠ .running → task.runToken = none ∧ task.leaseExpiresAt = none) ∧
    (task.status.Terminal → task.finishedAt.isSome ∧ task.nextAttemptAt = none) ∧
    (task.status = .queued → task.finishedAt = none) ∧
    (0 ≤ task.progress ∧ task.progress ≤ 100) ∧
    (task.progress = 100 → task.status = .succeeded) ∧
    ∀ w' task', Later env w w' → task' ∈ w'.tasks.rows → task'.id = task.id →
      task'.attemptCount = task.attemptCount → task.progress ≤ task'.progress := by
  have hrow := hw.agentRow task.id task (mem_rows_iff.mp hmem) hk
  refine ⟨hrow.running_iff, fun hr => ⟨hrow.leased hr, hrow.attempted hr⟩, fun hr => ⟨?_,
    hrow.unleased hr⟩, fun ht => ⟨hrow.finished ht, hrow.no_next ?_⟩, hrow.unfinished,
    hrow.progress_range, hrow.progress_full, ?_⟩
  · simpa using mt hrow.running_iff.mpr hr
  · intro hq
    simp [hq, TaskStatus.Terminal] at ht
  · intro w' task' hl hmem' hid hcount
    obtain ⟨t, ht, -, hadv⟩ := hw.persists
      (P := fun t _ => Advanced task.attemptCount task.progress t) hl hmem hk
      (fun u hu => hu.agentRow task.id) (Or.inr ⟨rfl, le_rfl⟩)
      (fun t es t' es' hr hadv hk hs => hadv.step hr hk hs)
    rw [← hid, mem_rows_iff.mp hmem'] at ht
    cases ht
    rcases hadv with hlt | ⟨-, hle⟩
    · exact absurd hcount hlt.ne'
    · exact hle

theorem agent_row_consistent_sample :
    sampleTask.status = .running ↔ sampleTask.runToken.isSome :=
  (agent_row_consistent reachable_sampleWorld sampleTask_mem (by decide)).1

end World

end AgentDemo
