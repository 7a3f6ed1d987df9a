import AgentDemo.System.RowInvariant

/-! Attempts are counted and bounded, and all work of a task happens before its deadline. -/
namespace AgentDemo

/-- The tokens of the claims in a history, the newest first. -/
def claims (es : List TaskEntry) : List UUID :=
  es.filterMap fun
    | .claimed token _ _ => some token
    | _ => none

@[simp] theorem claims_claimed (token : UUID) (timeout at' : Instant) (es : List TaskEntry) :
    claims (.claimed token timeout at' :: es) = token :: claims es := rfl

@[simp] theorem claims_accepted (token : UUID) (at' : Instant) (es : List TaskEntry) :
    claims (.accepted token at' :: es) = claims es := rfl

theorem Effect.claims_cons {token : UUID} {e : TaskEntry} (h : Effect token e)
    (es : List TaskEntry) : claims (e :: es) = claims es := by
  cases h <;> rfl

def Before (at' : Instant) (deadlineAt : Option Instant) : Prop :=
  ∃ deadline, deadlineAt = some deadline ∧ at' < deadline

structure Budget (task : Task) (es : List TaskEntry) : Prop where
  count : task.attemptCount = (claims es).length
  bound : task.attemptCount ≤ task.maxAttempts
  deadline_set : 1 ≤ task.attemptCount → task.deadlineAt.isSome
  timeout_pos : 0 < task.timeoutSeconds
  claimed : ∀ token timeout at', .claimed token timeout at' ∈ es →
    0 < timeout ∧ Before at' task.deadlineAt
  accepted : ∀ token at', .accepted token at' ∈ es → Before at' task.deadlineAt

theorem claimError_eq_none {task : Task} {now : Instant} (h : claimError task now = none) :
    ¬ passed task.deadlineAt now ∧ task.attemptCount < task.maxAttempts ∧
      task.replayBlockedAt = none := by
  unfold claimError at h
  split_ifs at h with hp hd ha hr
  exact ⟨hd, not_le.mp ha, by simpa using hr⟩

theorem lt_attemptDeadline {task : Task} {now : Instant} (h : ¬ passed task.deadlineAt now) :
    now < attemptDeadline task now := by
  unfold attemptDeadline
  cases hd : task.deadlineAt with
  | none =>
    rw [Option.getD_none, seconds]
    linarith
  | some d =>
    rw [Option.getD_some]
    exact not_le.mp fun hle => h ⟨d, hd, hle⟩

namespace Budget

variable {task task' : Task} {es : List TaskEntry}

theorem of_inserted (h : Inserted task) : Budget task [] where
  count := h.attempts
  bound := h.attempts ▸ Nat.zero_le _
  deadline_set ha := by simp [h.attempts] at ha
  timeout_pos := h.timeout
  claimed _ _ _ hmem := nomatch hmem
  accepted _ _ hmem := nomatch hmem

/-- Steps other than claims leave the counted columns alone. -/
theorem keep (h : Budget task es) (hframe : Frame task task')
    (ha : task'.attemptCount = task.attemptCount) (hd : task'.deadlineAt = task.deadlineAt) :
    Budget task' es where
  count := ha.trans h.count
  bound := by rw [ha, hframe.maxAttempts]; exact h.bound
  deadline_set hcount := by rw [hd]; exact h.deadline_set (ha ▸ hcount)
  timeout_pos := hframe.timeoutSeconds ▸ h.timeout_pos
  claimed := hd ▸ h.claimed
  accepted := hd ▸ h.accepted

theorem accept (h : Budget task es) {token : UUID} {at' : Instant}
    (hat : Before at' task.deadlineAt) : Budget task (.accepted token at' :: es) where
  count := h.count
  bound := h.bound
  deadline_set := h.deadline_set
  timeout_pos := h.timeout_pos
  claimed token' timeout at'' hmem := by
    rcases List.mem_cons.mp hmem with heq | hmem
    · cases heq
    · exact h.claimed token' timeout at'' hmem
  accepted token' at'' hmem := by
    rcases List.mem_cons.mp hmem with heq | hmem
    · cases heq
      exact hat
    · exact h.accepted token' at'' hmem

theorem effect (h : Budget task es) {token : UUID} {e : TaskEntry} (he : Effect token e) :
    Budget task (e :: es) where
  count := h.count.trans (by rw [he.claims_cons])
  bound := h.bound
  deadline_set := h.deadline_set
  timeout_pos := h.timeout_pos
  claimed token' timeout at' hmem := by
    rcases List.mem_cons.mp hmem with heq | hmem
    · subst heq
      cases he
    · exact h.claimed token' timeout at' hmem
  accepted token' at' hmem := by
    rcases List.mem_cons.mp hmem with heq | hmem
    · subst heq
      cases he
    · exact h.accepted token' at' hmem

theorem claim (h : Budget task es) (runner : AgentTaskRunner) (conversationId token : UUID)
    {now : Instant} (hc : claimError task now = none) :
    Budget (runner.startAttempt task conversationId token now)
      (.claimed token (min (seconds task.timeoutSeconds) (attemptDeadline task now - now)) now ::
        es) where
  count := congrArg (· + 1) h.count
  bound := (claimError_eq_none hc).2.1
  deadline_set _ := rfl
  timeout_pos := h.timeout_pos
  claimed token' timeout at' hmem := by
    have hahead := lt_attemptDeadline (claimError_eq_none hc).1
    rcases List.mem_cons.mp hmem with heq | hmem
    · cases heq
      refine ⟨lt_min ?_ (by linarith), _, rfl, hahead⟩
      have hpos : (0 : ℤ) < task.timeoutSeconds := by exact_mod_cast h.timeout_pos
      exact Int.mul_pos hpos (by decide)
    · obtain ⟨hpos, d, hd, hlt⟩ := h.claimed token' timeout at' hmem
      exact ⟨hpos, d, by simp [AgentTaskRunner.startAttempt, attemptDeadline, hd], hlt⟩
  accepted token' at' hmem := by
    rcases List.mem_cons.mp hmem with heq | hmem
    · cases heq
    · obtain ⟨d, hd, hlt⟩ := h.accepted token' at' hmem
      exact ⟨d, by simp [AgentTaskRunner.startAttempt, attemptDeadline, hd], hlt⟩

end Budget

/-- The reading of a live lease check lies before the deadline of the running attempt. -/
theorem AgentRow.before {task : Task} {lease : TaskLease} {now : Instant} (h : AgentRow task)
    (hold : Holds task lease now true) : Before now task.deadlineAt := by
  obtain ⟨-, deadline, -, hd, -⟩ := h.leased hold.running
  exact ⟨deadline, hd, hold.deadline_ahead rfl deadline hd⟩

theorem deadlineAt_finishOrRetry (task : Task) (error : String) (retryable : Bool)
    (wait now now' : Instant) :
    (finishOrRetry task error retryable wait now now').deadlineAt = task.deadlineAt ∧
      (finishOrRetry task error retryable wait now now').attemptCount = task.attemptCount := by
  simp only [finishOrRetry]
  split_ifs <;> exact ⟨rfl, rfl⟩

theorem deadlineAt_recoverTask (task : Task) (now : Instant) :
    (recoverTask task now).deadlineAt = task.deadlineAt ∧
      (recoverTask task now).attemptCount = task.attemptCount := by
  unfold recoverTask
  split_ifs <;> exact ⟨rfl, rfl⟩

theorem Budget.step {task task' : Task} {es es' : List TaskEntry} (h : Budget task es)
    (hrow : AgentRow task) (hk : task.kind = .agent)
    (hs : TaskStep ⟨some task, es⟩ ⟨some task', es'⟩) : Budget task' es' := by
  have hframe : Frame task task' := by
    obtain ⟨t, new, heq, hframe⟩ := hs.frame
    cases heq
    exact hframe
  cases hs with
  | claim hc fresh =>
    obtain ⟨-, -, he, rfl, -, rfl⟩ := AgentTaskRunner.claim_eq_started hc
    exact h.claim _ _ _ he
  | claimFailed hc =>
    obtain ⟨-, -, error, rfl⟩ := AgentTaskRunner.claim_eq_failed hc
    exact h.keep hframe rfl rfl
  | heartbeat hold hb =>
    obtain ⟨deadline, -, rfl⟩ := Option.map_eq_some_iff.mp hb
    exact (h.accept (hrow.before hold)).keep hframe rfl rfl
  | recordEvent hold eventType data now' =>
    exact (h.accept (hrow.before hold)).keep hframe rfl rfl
  | succeed hold donePayload answerParts conversationId now' =>
    exact (h.accept (hrow.before hold)).keep hframe rfl rfl
  | checked hold => exact h.accept (hrow.before hold)
  | effect hold reason now' he =>
    exact ((h.accept (hrow.before hold)).effect he).keep hframe rfl rfl
  | finishOrRetry hold error retryable wait now' =>
    exact h.keep hframe (deadlineAt_finishOrRetry ..).2 (deadlineAt_finishOrRetry ..).1
  | mcpEvent hold eventType tool payload progress => exact h.keep hframe rfl rfl
  | recover hab => exact h.keep hframe (deadlineAt_recoverTask ..).2 (deadlineAt_recoverTask ..).1
  | cancel hc =>
    obtain ⟨-, rfl⟩ := cancelTask_eq_ok hc
    exact h.keep hframe rfl rfl
  | update hu => exact absurd hk (kind_of_updateTask hu)

/-- A deadline, once there, stays. -/
theorem TaskStep.deadlineAt {task task' : Task} {es es' : List TaskEntry} {deadline : Instant}
    (hd : task.deadlineAt = some deadline) (hk : task.kind = .agent)
    (hs : TaskStep ⟨some task, es⟩ ⟨some task', es'⟩) : task'.deadlineAt = some deadline := by
  cases hs with
  | claim hc fresh =>
    obtain ⟨-, -, -, rfl, -, -⟩ := AgentTaskRunner.claim_eq_started hc
    simp [AgentTaskRunner.startAttempt, attemptDeadline, hd]
  | claimFailed hc =>
    obtain ⟨-, -, error, rfl⟩ := AgentTaskRunner.claim_eq_failed hc
    exact hd
  | heartbeat hold hb =>
    obtain ⟨deadline, -, rfl⟩ := Option.map_eq_some_iff.mp hb
    exact hd
  | finishOrRetry hold error retryable wait now' => rw [(deadlineAt_finishOrRetry ..).1, hd]
  | recover hab => rw [(deadlineAt_recoverTask ..).1, hd]
  | cancel hc =>
    obtain ⟨-, rfl⟩ := cancelTask_eq_ok hc
    exact hd
  | update hu => exact absurd hk (kind_of_updateTask hu)
  | _ => exact hd

/-- A task is queued again only to run before its deadline. -/
theorem TaskStep.requeued {task task' : Task} {es es' : List TaskEntry} (hrow : AgentRow task)
    (hk : task.kind = .agent) (hs : TaskStep ⟨some task, es⟩ ⟨some task', es'⟩)
    (hold : task.status ≠ .queued) (hq : task'.status = .queued) :
    ∃ next, task'.nextAttemptAt = some next ∧ Before next task'.deadlineAt := by
  cases hs with
  | claim hc fresh => exact absurd (AgentTaskRunner.claim_eq_started hc).2.1 hold
  | claimFailed hc => exact absurd (AgentTaskRunner.claim_eq_failed hc).2.1 hold
  | heartbeat holds hb =>
    obtain ⟨deadline, -, rfl⟩ := Option.map_eq_some_iff.mp hb
    exact absurd hq hold
  | succeed holds donePayload answerParts conversationId now' => cases hq
  | finishOrRetry holds error retryable wait now' =>
    obtain ⟨-, d, -, hd, -⟩ := hrow.leased holds.running
    simp only [AgentDemo.finishOrRetry] at hq ⊢
    split_ifs at hq ⊢ with hblocked hlate hretry
    · cases hq
    · cases hq
    · exact ⟨_, rfl, d, hd, not_le.mp fun hle => hlate ⟨d, hd, hle⟩⟩
    · cases hq
  | recover hab =>
    obtain ⟨-, d, -, hd, -⟩ := hrow.leased hab.1
    unfold recoverTask at hq ⊢
    split_ifs at hq ⊢ with hretry
    · exact ⟨_, rfl, d, hd, not_le.mp fun hle => hretry.2.2 ⟨d, hd, hle⟩⟩
    · cases hq
  | cancel hc =>
    obtain ⟨-, rfl⟩ := cancelTask_eq_ok hc
    cases hq
  | update hu => exact absurd hk (kind_of_updateTask hu)
  | _ => exact absurd hq hold

namespace World

variable {env : Environment} {w w' : World}

theorem Reachable.budget (hw : Reachable env w) (id : UUID) : OnAgentTask Budget (w.view id) := by
  have h := hw.onAgentTask (P := fun task es => AgentRow task ∧ Budget task es)
    (fun _ hi => ⟨.of_inserted hi, .of_inserted hi⟩)
    (fun _ _ _ _ h hk hs => ⟨h.1.step hk hs, h.2.step h.1 hk hs⟩) id
  exact fun task hrow hk => (h task hrow hk).2

/-- Attempt and deadline budget of an agent task in every run. -/
theorem attempt_budget (hw : Reachable env w) {task : Task} (hmem : task ∈ w.tasks.rows)
    (hk : task.kind = .agent) :
    (claims (w.entries task.id)).length = task.attemptCount ∧
    task.attemptCount ≤ task.maxAttempts ∧
    (∀ token timeout at', .claimed token timeout at' ∈ w.entries task.id →
      0 < timeout ∧ ∃ deadline, task.deadlineAt = some deadline ∧ at' < deadline) ∧
    (∀ token at', .accepted token at' ∈ w.entries task.id →
      ∃ deadline, task.deadlineAt = some deadline ∧ at' < deadline) ∧
    (∀ deadline w' task', task.deadlineAt = some deadline → Later env w w' →
      task' ∈ w'.tasks.rows → task'.id = task.id → task'.deadlineAt = some deadline) ∧
    ∀ a w' task', step env w a = some w' → task' ∈ w'.tasks.rows → task'.id = task.id →
      task.status ≠ .queued → task'.status = .queued →
      ∃ next deadline, task'.nextAttemptAt = some next ∧ task'.deadlineAt = some deadline ∧
        next < deadline := by
  have hrow := hw.agentRow task.id task (mem_rows_iff.mp hmem) hk
  have hbudget := hw.budget task.id task (mem_rows_iff.mp hmem) hk
  refine ⟨hbudget.count.symm, hbudget.bound, hbudget.claimed, hbudget.accepted, ?_, ?_⟩
  · intro deadline w' task' hd hl hmem' hid
    obtain ⟨t, ht, -, hdt⟩ := hw.persists (P := fun t _ => t.deadlineAt = some deadline)
      (J := fun _ _ => True) hl hmem hk (fun _ _ _ _ _ => trivial) hd
      (fun _ _ _ _ _ hd hk hs => hs.deadlineAt hd hk)
    rw [← hid, mem_rows_iff.mp hmem'] at ht
    exact Option.some.inj ht ▸ hdt
  · intro a w' task' hstep hmem' hid hold hq
    have hview : w.view task.id = ⟨some task, w.entries task.id⟩ := by
      rw [view, mem_rows_iff.mp hmem]
    have hview' : w'.view task.id = ⟨some task', w'.entries task.id⟩ := by
      rw [view, ← hid, mem_rows_iff.mp hmem']
    have hadv := advances_step hstep task.id
    rw [hview, hview'] at hadv
    rcases hadv with heq | hs
    · have heq : task' = task := Option.some.inj (congrArg TaskView.row heq)
      exact absurd (heq ▸ hq) hold
    · obtain ⟨next, hn, d, hd, hlt⟩ := hs.requeued hrow hk hold hq
      exact ⟨next, d, hn, hd, hlt⟩

theorem attempt_budget_sample :
    (claims (sampleWorld.entries sampleTask.id)).length = sampleTask.attemptCount :=
  (attempt_budget reachable_sampleWorld sampleTask_mem (by decide)).1

end World

end AgentDemo
