import AgentDemo.System.Replay

/-! A worker writes only while its token is the one in the row. -/
namespace AgentDemo

/-- The lease check of a worker passes, live or not, at some clock reading. -/
def Passes (tasks : Table Task) (lease : TaskLease) (now : Instant) (live : Bool) : Prop :=
  ∃ r, lockTaskLease tasks (some lease) now live = .ok r

/-- The token of a worker is no longer in the row of its task. -/
def Lost (tasks : Table Task) (lease : TaskLease) : Prop :=
  ∀ task, tasks.get? lease.taskId = some task → task.runToken ≠ some lease.token

theorem not_passes_of_lost {tasks : Table Task} {lease : TaskLease} (h : Lost tasks lease)
    (now : Instant) (live : Bool) (r : Option Task) :
    lockTaskLease tasks (some lease) now live ≠ .ok r := by
  intro hr
  obtain ⟨task, -, hget, hold⟩ := lockTaskLease_eq_ok hr
  exact h task hget hold.token

/-- Two leases of one task that pass the check are the same lease. -/
theorem eq_of_passes {tasks : Table Task} {lease lease' : TaskLease} {now now' : Instant}
    {live live' : Bool} (htask : lease.taskId = lease'.taskId) (h : Passes tasks lease now live)
    (h' : Passes tasks lease' now' live') : lease = lease' := by
  obtain ⟨r, hr⟩ := h
  obtain ⟨r', hr'⟩ := h'
  obtain ⟨task, -, hget, hold⟩ := lockTaskLease_eq_ok hr
  obtain ⟨task', -, hget', hold'⟩ := lockTaskLease_eq_ok hr'
  rw [← htask, hget] at hget'
  cases hget'
  have htoken : lease.token = lease'.token :=
    Option.some.inj (hold.token.symm.trans hold'.token)
  cases lease
  cases lease'
  exact congrArg₂ TaskLease.mk htask htoken

theorem TaskStep.claimed_kept {task task' : Task} {es es' : List TaskEntry} {token : UUID}
    (hk : task.kind = .agent) (hs : TaskStep ⟨some task, es⟩ ⟨some task', es'⟩)
    (hmem : token ∈ claims es) (hne : task.runToken ≠ some token) :
    token ∈ claims es' ∧ task'.runToken ≠ some token := by
  cases hs with
  | claim hc fresh =>
    obtain ⟨-, -, -, rfl, -, -⟩ := AgentTaskRunner.claim_eq_started hc
    refine ⟨List.mem_cons_of_mem _ hmem, fun heq => ?_⟩
    obtain ⟨e, he, htok⟩ := List.mem_filterMap.mp hmem
    cases e with
    | claimed token' timeout at' =>
      obtain rfl : token' = token := Option.some.inj htok
      exact fresh timeout at' (Option.some.inj heq ▸ he)
    | _ => cases htok
  | claimFailed hc =>
    obtain ⟨-, -, error, rfl⟩ := AgentTaskRunner.claim_eq_failed hc
    exact ⟨hmem, fun heq => by cases heq⟩
  | heartbeat hold hb =>
    obtain ⟨deadline, -, rfl⟩ := Option.map_eq_some_iff.mp hb
    exact ⟨hmem, hne⟩
  | succeed hold donePayload answerParts conversationId now' =>
    exact ⟨hmem, fun heq => by cases heq⟩
  | effect hold reason now' he => exact ⟨by rwa [he.claims_cons], hne⟩
  | finishOrRetry hold error retryable wait now' =>
    refine ⟨hmem, ?_⟩
    simp only [AgentDemo.finishOrRetry]
    split_ifs <;> exact fun heq => by cases heq
  | recover hab =>
    refine ⟨hmem, ?_⟩
    unfold recoverTask
    split_ifs <;> exact fun heq => by cases heq
  | cancel hc =>
    obtain ⟨-, rfl⟩ := cancelTask_eq_ok hc
    exact ⟨hmem, fun heq => by cases heq⟩
  | update hu => exact absurd hk (kind_of_updateTask hu)
  | _ => exact ⟨hmem, hne⟩

/-- The token list of a history only grows by a claim of an agent task. -/
theorem TaskStep.claims_cases {task task' : Task} {es es' : List TaskEntry}
    (hs : TaskStep ⟨some task, es⟩ ⟨some task', es'⟩) :
    claims es' = claims es ∨ task.kind = .agent := by
  cases hs with
  | claim hc fresh => exact Or.inr (AgentTaskRunner.claim_eq_started hc).1
  | effect hold reason now' he => exact Or.inl (by rw [he.claims_cons, claims_accepted])
  | _ => exact Or.inl rfl

namespace World

variable {env : Environment} {w w' : World}

/-- Every check of a worker that has lost its lease fails, so nothing is written. -/
theorem work_of_lost {lease : TaskLease} (h : Lost w.tasks lease)
    (hk : ∀ task, w.tasks.get? lease.taskId = some task → task.kind = .agent)
    (runner : AgentTaskRunner) (now now' : Instant) (action : WorkerAction) :
    w.work runner lease now now' action = w := by
  have hunder (now : Instant) (live : Bool) (k : Task → World) :
      w.underLease lease now live k = w := by
    unfold underLease
    cases hl : lockTaskLease w.tasks (some lease) now live with
    | error e => rfl
    | ok r => exact absurd hl (not_passes_of_lost h now live r)
  cases action with
  | heartbeat => exact hunder ..
  | recordEvent eventType data => exact hunder ..
  | succeed donePayload answerParts conversationId => exact hunder ..
  | finishOrRetry error retryable wait => exact hunder ..
  | dispatchTool tool =>
    simp only [work]
    split
    next task hb =>
      obtain ⟨task, hget, hold, -⟩ := barrier_eq_some hb
      exact absurd hold.token (h task hget)
    next => rfl
  | recordMcpTaskEvent eventType tool payload progress =>
    simp only [work]
    split
    next task hm =>
      obtain ⟨task, hget, hold, -⟩ := recordMcpTaskEvent_eq_some hm
      obtain ⟨⟨lease', heq, -, htoken, -⟩, -⟩ := hold (hk task hget)
      cases heq
      exact absurd htoken (h task hget)
    next => rfl
  | saveMessage message =>
    simp only [work]
    cases hs : AgentDemo.saveMessage w.tasks w.messages (some lease) message now now' with
    | error e => rfl
    | ok r =>
      obtain ⟨task, hget, hold, -⟩ := saveMessage_eq_ok hs
      exact absurd hold.token (h task hget)
  | autoTitle conversation title =>
    simp only [work]
    cases ha : autoTitleConversation w.tasks (some lease) conversation title now with
    | error e => rfl
    | ok c =>
      obtain ⟨task, hget, hold⟩ := holds_of_autoTitleConversation ha
      exact absurd hold.token (h task hget)

theorem mem_claims_of_mem_leases {lease : TaskLease} (h : lease ∈ w.leases) :
    lease.token ∈ claims (w.entries lease.taskId) := by
  obtain ⟨⟨taskId, e⟩, hmem, he⟩ := List.mem_filterMap.mp h
  cases e with
  | claimed token timeout at' =>
    obtain rfl := Option.some.inj he
    refine List.mem_filterMap.mpr ⟨.claimed token timeout at', ?_, rfl⟩
    exact List.mem_filterMap.mpr ⟨_, hmem, by simp⟩
  | _ => cases he

/-- A lease belongs to an agent task that exists. -/
theorem Reachable.agent_of_lease (hw : Reachable env w) {lease : TaskLease}
    (h : lease ∈ w.leases) :
    ∃ task ∈ w.tasks.rows, task.id = lease.taskId ∧ task.kind = .agent := by
  have hview := hw.view_invariant
    (I := fun v => claims v.entries ≠ [] → ∃ task, v.row = some task ∧ task.kind = .agent)
    (fun h => absurd rfl h) ?_ lease.taskId
  · obtain ⟨task, hget, hk⟩ := hview (List.ne_nil_of_mem (mem_claims_of_mem_leases h))
    obtain ⟨hmem, hid⟩ := Table.get?_eq_some.mp hget
    exact ⟨task, hmem, hid, hk⟩
  rintro ⟨row, es⟩ v' hI hs hne
  cases row with
  | none =>
    cases hs with
    | insert hi =>
      obtain ⟨task, hrow, -⟩ := hI hne
      cases hrow
  | some task =>
    obtain ⟨task', new, rfl, hframe⟩ := hs.frame
    have hk : task.kind = .agent := by
      rcases hs.claims_cases with heq | hk
      · rw [heq] at hne
        obtain ⟨t, hrow, hk⟩ := hI hne
        exact Option.some.inj hrow ▸ hk
      · exact hk
    exact ⟨task', rfl, hframe.kind.trans hk⟩

theorem leases_log (w : World) (taskId : UUID) (es : List TaskEntry) :
    (w.log taskId es).leases = (claims es).map (fun token => ⟨taskId, token⟩) ++ w.leases := by
  simp only [leases, log, List.filterMap_append, List.filterMap_map]
  congr 1
  induction es with
  | nil => rfl
  | cons e es ih => cases e <;> simp_all [claims]

theorem leases_accept (w : World) (lease : TaskLease) (now : Instant) (task : Task) :
    (w.accept lease now task).leases = w.leases := leases_log ..

theorem leases_underLease {lease : TaskLease} {now : Instant} {live : Bool} {k : Task → World}
    (h : ∀ task, (k task).leases = w.leases) :
    (w.underLease lease now live k).leases = w.leases := by
  unfold underLease
  split
  next => exact h _
  next => rfl

theorem leases_work (w : World) (runner : AgentTaskRunner) (lease : TaskLease)
    (now now' : Instant) (action : WorkerAction) :
    (w.work runner lease now now' action).leases = w.leases := by
  cases action with
  | heartbeat =>
    refine leases_underLease fun task => ?_
    cases runner.heartbeat task now' with
    | none => rfl
    | some task' => exact leases_accept ..
  | recordEvent eventType data => exact leases_underLease fun task => leases_accept ..
  | succeed donePayload answerParts conversationId =>
    exact leases_underLease fun task => leases_accept ..
  | finishOrRetry error retryable wait => exact leases_underLease fun task => rfl
  | dispatchTool tool =>
    simp only [work]
    split
    next => rw [leases_log, leases_accept]; rfl
    next => rfl
  | recordMcpTaskEvent eventType tool payload progress =>
    simp only [work]
    split <;> rfl
  | saveMessage message =>
    simp only [work]
    split
    next => rfl
    next => exact leases_log ..
    next =>
      split
      next => rfl
      next =>
        split
        next => exact leases_log ..
        next => rw [leases_log, leases_accept]; rfl
  | autoTitle conversation title =>
    simp only [work]
    split
    next => rfl
    next => exact leases_log ..

/-- A step hands out no lease, or one with a token not given before. -/
theorem leases_step {a : Action} (h : step env w a = some w') :
    w'.leases = w.leases ∨ ∃ lease, w'.leases = lease :: w.leases ∧
      ∀ l ∈ w.leases, l.token ≠ lease.token := by
  obtain ⟨-, -, hallowed, rfl⟩ := step_eq_some h
  show (w.apply env a.now a.now' a.event).leases = w.leases ∨ ∃ lease,
    (w.apply env a.now a.now' a.event).leases = lease :: w.leases ∧ _
  cases hevent : a.event with
  | claim runner taskId conversationId token =>
    rw [hevent] at hallowed
    simp only [apply, claim]
    split
    next => exact Or.inl rfl
    next task hget =>
      split
      next => exact Or.inl rfl
      next => exact Or.inl rfl
      next => exact Or.inl rfl
      next task' lease timeout hc =>
        obtain ⟨-, -, -, -, rfl, -⟩ := AgentTaskRunner.claim_eq_started hc
        exact Or.inr ⟨_, leases_log _ _ _, hallowed⟩
      next task' lease timeout conversation hc =>
        obtain ⟨-, -, -, -, rfl, -⟩ := AgentTaskRunner.claim_eq_started hc
        split
        next => exact Or.inl rfl
        next => exact Or.inr ⟨_, leases_log _ _ _, hallowed⟩
  | worker runner lease action => exact Or.inl (leases_work ..)
  | idle => exact Or.inl rfl
  | _ =>
    left
    simp only [apply]
    (repeat' split) <;> rfl

theorem Reachable.nodup_tokens (hw : Reachable env w) :
    (w.leases.map TaskLease.token).Nodup := by
  obtain ⟨conversations, clock, hrun⟩ := hw
  refine hrun.invariant (I := fun w => (w.leases.map TaskLease.token).Nodup) List.nodup_nil
    fun u a v hu hv => ?_
  rcases leases_step hv with heq | ⟨lease, heq, hfresh⟩
  · rwa [heq]
  · rw [heq, List.map_cons, List.nodup_cons]
    refine ⟨fun hmem => ?_, hu⟩
    obtain ⟨l, hl, htok⟩ := List.mem_map.mp hmem
    exact hfresh l hl htok

/-- A lost lease stays lost. -/
theorem Reachable.lost_later (hw : Reachable env w) (hl : Later env w w') {lease : TaskLease}
    (hlease : lease ∈ w.leases) (hlost : Lost w.tasks lease) :
    Lost w'.tasks lease ∧
      ∀ task, w'.tasks.get? lease.taskId = some task → task.kind = .agent := by
  obtain ⟨task, hmem, hid, hk⟩ := hw.agent_of_lease hlease
  have hget := mem_rows_iff.mp hmem
  have hclaim := mem_claims_of_mem_leases hlease
  rw [← hid] at hclaim
  obtain ⟨task', hget', hk', -, hne⟩ := hw.persists
    (P := fun t es => lease.token ∈ claims es ∧ t.runToken ≠ some lease.token)
    (J := fun _ _ => True) hl hmem hk (fun _ _ _ _ _ => trivial)
    ⟨hclaim, hlost task (hid ▸ hget)⟩ (fun _ _ _ _ _ h hkt hs => hs.claimed_kept hkt h.1 h.2)
  rw [hid] at hget'
  constructor <;> intro t ht <;> obtain rfl := Option.some.inj (hget'.symm.trans ht)
  · exact hne
  · exact hk'

/-- No two workers hold the same token, at most one lease of a task passes the check, and a
worker whose token has been cleared or replaced changes nothing any more. -/
theorem worker_fencing (hw : Reachable env w) :
    (w.leases.map TaskLease.token).Nodup ∧
    (∀ lease lease' now now' live live', lease.taskId = lease'.taskId →
      Passes w.tasks lease now live → Passes w.tasks lease' now' live' → lease = lease') ∧
    ∀ lease ∈ w.leases, Lost w.tasks lease → ∀ w' w'' runner action now now', Later env w w' →
      step env w' ⟨.worker runner lease action, now, now'⟩ = some w'' →
      w'' = { w' with clock := now' } := by
  refine ⟨hw.nodup_tokens, fun _ _ _ _ _ _ ht h h' => eq_of_passes ht h h', ?_⟩
  intro lease hlease hlost w' w'' runner action now now' hl hstep
  obtain ⟨hlost', hk⟩ := hw.lost_later hl hlease hlost
  obtain ⟨-, -, -, rfl⟩ := step_eq_some hstep
  simp only [apply, work_of_lost hlost' hk]

theorem lost_cancelledWorld : Lost cancelledWorld.tasks ⟨20, 40⟩ := by
  have h : (cancelledWorld.tasks.get? 20).all fun task => task.runToken ≠ some 40 := by decide
  intro task hget
  rw [hget] at h
  simpa using h

/-- The worker of the cancelled task beats in vain. -/
theorem worker_fencing_sample :
    step sampleEnvironment cancelledWorld
        ⟨.worker sampleRunner ⟨20, 40⟩ .heartbeat, seconds 6, seconds 6⟩ =
      some { cancelledWorld with clock := seconds 6 } := by
  obtain ⟨w, hw⟩ := Option.isSome_iff_exists.mp (by decide : (step sampleEnvironment
    cancelledWorld ⟨.worker sampleRunner ⟨20, 40⟩ .heartbeat, seconds 6, seconds 6⟩).isSome)
  rw [hw, (worker_fencing reachable_cancelledWorld).2.2 ⟨20, 40⟩ (by decide) lost_cancelledWorld _
    _ _ _ _ _ (.refl _) hw]

end World

end AgentDemo
