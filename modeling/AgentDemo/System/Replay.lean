import AgentDemo.System.Budget

/-! After a tool dispatch or a saved answer a task is never attempted again. -/
namespace AgentDemo

structure Barrier (task : Task) (es : List TaskEntry) : Prop where
  not_queued : task.replayBlockedAt.isSome → task.status ≠ .queued
  token : task.status = .running → task.runToken = (claims es).head?
  effects : ∀ e ∈ es, ∀ token, Effect token e →
    task.replayBlockedAt.isSome ∧ (claims es).head? = some token

/-- How the status of an agent task moves. -/
theorem TaskStep.status_cases {task task' : Task} {es es' : List TaskEntry}
    (hk : task.kind = .agent) (hs : TaskStep ⟨some task, es⟩ ⟨some task', es'⟩) :
    task'.status = task.status ∨
    (task.status = .queued ∧ (task'.status = .running ∨ task'.status.Terminal)) ∨
    (task.status = .running ∧ (task'.status = .queued ∨ task'.status.Terminal)) := by
  cases hs with
  | claim hc fresh =>
    obtain ⟨-, hq, -, rfl, -, -⟩ := AgentTaskRunner.claim_eq_started hc
    exact Or.inr (Or.inl ⟨hq, Or.inl rfl⟩)
  | claimFailed hc =>
    obtain ⟨-, hq, error, rfl⟩ := AgentTaskRunner.claim_eq_failed hc
    exact Or.inr (Or.inl ⟨hq, Or.inr trivial⟩)
  | heartbeat hold hb =>
    obtain ⟨deadline, -, rfl⟩ := Option.map_eq_some_iff.mp hb
    exact Or.inl rfl
  | succeed hold donePayload answerParts conversationId now' =>
    exact Or.inr (Or.inr ⟨hold.running, Or.inr trivial⟩)
  | finishOrRetry hold error retryable wait now' =>
    refine Or.inr (Or.inr ⟨hold.running, ?_⟩)
    simp only [AgentDemo.finishOrRetry]
    split_ifs
    · exact Or.inr trivial
    · exact Or.inr trivial
    · exact Or.inl rfl
    · exact Or.inr trivial
  | recover hab =>
    refine Or.inr (Or.inr ⟨hab.1, ?_⟩)
    unfold recoverTask
    split_ifs
    · exact Or.inl rfl
    · exact Or.inr trivial
  | cancel hc =>
    obtain ⟨hold, rfl⟩ := cancelTask_eq_ok hc
    rcases hold with hq | hr | hcancelled
    · exact Or.inr (Or.inl ⟨hq, Or.inr trivial⟩)
    · exact Or.inr (Or.inr ⟨hr, Or.inr trivial⟩)
    · exact Or.inl hcancelled.symm
  | update hu => exact absurd hk (kind_of_updateTask hu)
  | _ => exact Or.inl rfl

theorem finishOrRetry_of_blocked {task : Task} (hb : task.replayBlockedAt.isSome) (error : String)
    (retryable : Bool) (wait now now' : Instant) :
    finishOrRetry task error retryable wait now now' =
      finishFailed task (error ++ " " ++ replayBlockedError) now' := by
  simp only [finishOrRetry, if_pos hb]

/-- No step clears the replay barrier, and none queues or claims a task behind it. -/
theorem TaskStep.blocked {task task' : Task} {es es' : List TaskEntry} (hk : task.kind = .agent)
    (hs : TaskStep ⟨some task, es⟩ ⟨some task', es'⟩) (hb : task.replayBlockedAt.isSome)
    (hq : task.status ≠ .queued) :
    task'.replayBlockedAt.isSome ∧ task'.status ≠ .queued ∧ claims es' = claims es := by
  cases hs with
  | claim hc fresh => exact absurd (AgentTaskRunner.claim_eq_started hc).2.1 hq
  | claimFailed hc => exact absurd (AgentTaskRunner.claim_eq_failed hc).2.1 hq
  | heartbeat hold hbeat =>
    obtain ⟨deadline, -, rfl⟩ := Option.map_eq_some_iff.mp hbeat
    exact ⟨hb, hq, rfl⟩
  | succeed hold donePayload answerParts conversationId now' =>
    exact ⟨hb, (fun heq => by cases heq), rfl⟩
  | effect hold reason now' he =>
    refine ⟨?_, hq, he.claims_cons _⟩
    obtain ⟨at', hat⟩ := Option.isSome_iff_exists.mp hb
    simp [blockReplay, hat]
  | finishOrRetry hold error retryable wait now' =>
    rw [finishOrRetry_of_blocked hb]
    exact ⟨hb, (fun heq => by cases heq), rfl⟩
  | recover hab =>
    unfold recoverTask
    split_ifs with hretry
    · simp [hretry.2.1] at hb
    · exact ⟨hb, (fun heq => by cases heq), rfl⟩
  | cancel hc =>
    obtain ⟨-, rfl⟩ := cancelTask_eq_ok hc
    exact ⟨hb, (fun heq => by cases heq), rfl⟩
  | update hu => exact absurd hk (kind_of_updateTask hu)
  | _ => exact ⟨hb, hq, rfl⟩

namespace Barrier

variable {task task' : Task} {es : List TaskEntry}

theorem of_inserted (h : Inserted task) : Barrier task [] where
  not_queued hb := by simp [h.unblocked] at hb
  token hr := by simp [h.queued] at hr
  effects _ he := nomatch he

theorem accept (h : Barrier task es) (token : UUID) (at' : Instant) :
    Barrier task (.accepted token at' :: es) where
  not_queued := h.not_queued
  token := h.token
  effects e he token he' := by
    rcases List.mem_cons.mp he with rfl | he
    · cases he'
    · exact h.effects e he token he'

/-- A write that leaves the barrier and a running token alone. -/
theorem keep (h : Barrier task es) (hb : task'.replayBlockedAt = task.replayBlockedAt)
    (hq : task'.replayBlockedAt.isSome → task'.status ≠ .queued)
    (ht : task'.status = .running → task.status = .running ∧ task'.runToken = task.runToken) :
    Barrier task' es where
  not_queued := hq
  token hr := (ht hr).2.trans (h.token (ht hr).1)
  effects e he token he' := by rw [hb]; exact h.effects e he token he'

end Barrier

theorem replayBlockedAt_finishOrRetry (task : Task) (error : String) (retryable : Bool)
    (wait now now' : Instant) :
    (finishOrRetry task error retryable wait now now').replayBlockedAt = task.replayBlockedAt ∧
      (finishOrRetry task error retryable wait now now').status ≠ .running := by
  simp only [finishOrRetry]
  split_ifs <;> exact ⟨rfl, fun heq => by cases heq⟩

theorem replayBlockedAt_recoverTask (task : Task) (now : Instant) :
    (recoverTask task now).replayBlockedAt = task.replayBlockedAt ∧
      (recoverTask task now).status ≠ .running := by
  unfold recoverTask
  split_ifs <;> exact ⟨rfl, fun heq => by cases heq⟩

theorem Barrier.step {task task' : Task} {es es' : List TaskEntry} (h : Barrier task es)
    (hk : task.kind = .agent) (hs : TaskStep ⟨some task, es⟩ ⟨some task', es'⟩) :
    Barrier task' es' := by
  have hblocked (hb : task.replayBlockedAt.isSome) : task'.status ≠ .queued :=
    (hs.blocked hk hb (h.not_queued hb)).2.1
  cases hs with
  | claim hc fresh =>
    obtain ⟨-, -, he, rfl, -, -⟩ := AgentTaskRunner.claim_eq_started hc
    have hnone := (claimError_eq_none he).2.2
    refine ⟨fun _ => (fun heq => by cases heq), fun _ => rfl, fun e hmem token heff => ?_⟩
    rcases List.mem_cons.mp hmem with rfl | hmem
    · cases heff
    · have := (h.effects e hmem token heff).1
      simp [hnone] at this
  | claimFailed hc =>
    obtain ⟨-, -, error, rfl⟩ := AgentTaskRunner.claim_eq_failed hc
    exact h.keep rfl hblocked (fun heq => by cases heq)
  | heartbeat hold hb =>
    obtain ⟨deadline, -, rfl⟩ := Option.map_eq_some_iff.mp hb
    exact (h.accept _ _).keep rfl hblocked fun hr => ⟨hr, rfl⟩
  | recordEvent hold eventType data now' =>
    exact (h.accept _ _).keep rfl hblocked fun hr => ⟨hr, rfl⟩
  | succeed hold donePayload answerParts conversationId now' =>
    exact (h.accept _ _).keep rfl hblocked (fun heq => by cases heq)
  | checked hold => exact h.accept _ _
  | effect hold reason now' he =>
    have hhead := (h.token hold.running).symm.trans hold.token
    have hset : (blockReplay task reason now').replayBlockedAt.isSome := by
      simp only [blockReplay]
      cases task.replayBlockedAt <;> rfl
    refine ⟨fun _ => by simp [blockReplay, hold.running], fun hr => ?_, fun e hmem token heff =>
      ⟨hset, ?_⟩⟩
    · rw [he.claims_cons]
      exact h.token hr
    · rw [he.claims_cons, claims_accepted]
      rcases List.mem_cons.mp hmem with rfl | hmem
      · cases he <;> cases heff <;> exact hhead
      · rcases List.mem_cons.mp hmem with rfl | hmem
        · cases heff
        · exact (h.effects e hmem token heff).2
  | finishOrRetry hold error retryable wait now' =>
    obtain ⟨hb, hne⟩ := replayBlockedAt_finishOrRetry task error retryable wait _ now'
    exact h.keep hb (hb ▸ hblocked) fun hr => absurd hr hne
  | mcpEvent hold eventType tool payload progress =>
    exact h.keep rfl hblocked fun hr => ⟨hr, rfl⟩
  | recover hab =>
    obtain ⟨hb, hne⟩ := replayBlockedAt_recoverTask task _
    exact h.keep hb (hb ▸ hblocked) fun hr => absurd hr hne
  | cancel hc =>
    obtain ⟨-, rfl⟩ := cancelTask_eq_ok hc
    exact h.keep rfl hblocked (fun heq => by cases heq)
  | update hu => exact absurd hk (kind_of_updateTask hu)

namespace World

variable {env : Environment} {w w' : World}

theorem Reachable.barrier (hw : Reachable env w) (id : UUID) : OnAgentTask Barrier (w.view id) :=
  hw.onAgentTask (fun _ => .of_inserted) (fun _ _ _ _ h hk hs => h.step hk hs) id

/-- Once a tool dispatch or a saved answer of an agent task is committed, its claims are over, it
never returns to the queue, and all its effects come from the one attempt. -/
theorem no_replay_after_effect (hw : Reachable env w) (hl : Later env w w') {task : Task}
    (hmem : task ∈ w.tasks.rows) (hk : task.kind = .agent) {e : TaskEntry} {token : UUID}
    (he : e ∈ w.entries task.id) (heff : Effect token e) :
    ∃ task', w'.tasks.get? task.id = some task' ∧ task'.replayBlockedAt.isSome ∧
      task'.status ≠ .queued ∧
      (task'.status = task.status ∨ (task.status = .running ∧ task'.status.Terminal)) ∧
      claims (w'.entries task.id) = claims (w.entries task.id) ∧
      (claims (w.entries task.id)).head? = some token ∧
      ∀ e' ∈ w'.entries task.id, ∀ token', Effect token' e' → token' = token := by
  have hbar := hw.barrier task.id task (mem_rows_iff.mp hmem) hk
  obtain ⟨hblocked, hhead⟩ := hbar.effects e he token heff
  obtain ⟨task', hget, hk', ⟨hb', hq', hclaims, hstatus⟩⟩ := hw.persists
    (P := fun t es => t.replayBlockedAt.isSome ∧ t.status ≠ .queued ∧
      claims es = claims (w.entries task.id) ∧
      (t.status = task.status ∨ (task.status = .running ∧ t.status.Terminal)))
    (J := fun _ _ => True) hl hmem hk (fun _ _ _ _ _ => trivial)
    ⟨hblocked, hbar.not_queued hblocked, rfl, Or.inl rfl⟩
    (fun t es t' es' _ ⟨hb, hq, hcl, hst⟩ hkt hs => by
      obtain ⟨hb', hq', hcl'⟩ := hs.blocked hkt hb hq
      refine ⟨hb', hq', hcl'.trans hcl, ?_⟩
      rcases hs.status_cases hkt with heq | ⟨hqueued, -⟩ | ⟨hrun, hqueued | hterm⟩
      · rwa [heq]
      · exact absurd hqueued hq
      · exact absurd hqueued hq'
      · rcases hst with heq | ⟨hr, -⟩
        · exact Or.inr ⟨heq ▸ hrun, hterm⟩
        · exact Or.inr ⟨hr, hterm⟩)
  refine ⟨task', hget, hb', hq', hstatus, hclaims, hhead, fun e' he' token' heff' => ?_⟩
  have hlast := (((hw.later hl).barrier task.id task' hget hk').effects e' he' token' heff').2
  exact Option.some.inj (hlast.symm.trans ((congrArg List.head? hclaims).trans hhead))

theorem no_replay_after_effect_sample :
    (claims (sampleWorld.entries sampleTask.id)).head? = some 40 := by
  have hmem : .dispatched 40 "web_search" ∈ sampleWorld.entries sampleTask.id := by decide
  obtain ⟨task', -, -, -, -, -, hhead, -⟩ := no_replay_after_effect reachable_sampleWorld
    (.refl _) sampleTask_mem (by decide) hmem (.dispatched "web_search")
  exact hhead

end World

end AgentDemo
