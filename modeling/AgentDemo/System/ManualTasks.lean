import AgentDemo.System.ConversationLinks
import AgentDemo.System.Fencing

/-! A manual task is moved by the requests of its owner and by nothing else. -/
namespace AgentDemo

namespace World

variable {env : Environment} {w : World} {now now' : Instant} {event : Event} {task : Task}

theorem get?_write_of_ne {task' : Task} {id : UUID} (h : task'.id ≠ id) :
    (w.write task').tasks.get? id = w.tasks.get? id := by
  simp only [write, Table.get?_write, key_task, if_neg h]

theorem get?_claim_of_manual {runner : AgentTaskRunner} {taskId conversationId token : UUID}
    (hget : w.tasks.get? task.id = some task) (hk : task.kind ≠ .agent)
    (hfresh : ∀ lease ∈ w.leases, lease.token ≠ token) :
    (w.claim runner taskId conversationId token now now').tasks.get? task.id = some task := by
  by_cases hid : taskId = task.id
  · unfold claim
    simp only [hid, hget]
    cases hc : runner.claim task conversationId token now now' with
    | skipped => exact hget
    | deferred at' => exact hget
    | failed task' => exact absurd (AgentTaskRunner.claim_eq_failed hc).1 hk
    | started task' lease timeout conversation =>
      exact absurd (AgentTaskRunner.claim_eq_started hc).1 hk
  · have hsame :=
      (moves_claim w runner taskId conversationId token now now' hfresh task.id).eq_of_ne
      hid
    exact (congrArg TaskView.row hsame).trans hget

/-- No transaction but an update or a cancellation by its owner changes a manual task. -/
theorem get?_apply_of_manual (hallowed : w.Allowed event)
    (hget : w.tasks.get? task.id = some task) (hk : task.kind ≠ .agent)
    (hentries : w.entries task.id = [])
    (hupdate : ∀ u payload, event = .updateTask u task.id payload → task.userId ≠ some u)
    (hcancel : ∀ u, event = .cancelTask u task.id → task.userId ≠ some u) :
    (w.apply env now now' event).tasks.get? task.id = some task := by
  have kept {P : Task → Prop} {tasks : Table Task} (h : w.tasks.Extends P tasks) :
      tasks.get? task.id = some task := by
    rcases h task.id with heq | ⟨hnone, -⟩
    · exact heq.trans hget
    · rw [hget] at hnone
      cases hnone
  have other {taskId u : UUID} {t : Task} (h : getOwnedTask w.tasks taskId u = some t)
      (hne : taskId = task.id → task.userId ≠ some u) : t.id = taskId ∧ taskId ≠ task.id := by
    obtain ⟨hrow, howner⟩ := Option.filter_eq_some_iff.mp h
    refine ⟨(Table.get?_eq_some.mp hrow).2, fun hid => hne hid ?_⟩
    rw [hid] at hrow
    obtain rfl : task = t := Option.some.inj (hget.symm.trans hrow)
    simpa using howner
  cases event with
  | idle => exact hget
  | createTask userId id payload =>
    simp only [apply]
    split
    next h => exact kept (inserted_createTask h)
    next => exact hget
  | createAgentTask userId id payload before =>
    simp only [apply]
    split
    next h => exact kept (inserted_createAgentTask h)
    next => exact hget
  | updateTask userId taskId payload =>
    simp only [apply]
    split
    next => exact hget
    next t ht =>
      obtain ⟨hid, hne⟩ := other ht fun heq => hupdate userId payload (heq ▸ rfl)
      split
      next t' hu =>
        have hid' : t'.id = taskId := (updateTask_eq_ok hu).2.1.trans hid
        rw [get?_write_of_ne (hid' ▸ hne), hget]
      next => exact hget
  | cancelTask userId taskId =>
    simp only [apply]
    split
    next => exact hget
    next t ht =>
      obtain ⟨hid, hne⟩ := other ht fun heq => hcancel userId (heq ▸ rfl)
      split
      next t' hc =>
        have hid' : t'.id = taskId := (id_cancelTask hc).trans hid
        rw [get?_write_of_ne (hid' ▸ hne), hget]
      next => exact hget
  | createTaskSchedule userId id payload =>
    simp only [apply]
    split <;> exact hget
  | updateTaskSchedule userId scheduleId payload =>
    simp only [apply]
    split
    · exact hget
    · split <;> exact hget
  | runTaskScheduleNow userId scheduleId id manualKey =>
    simp only [apply]
    split
    · exact hget
    · split
      next h => exact kept (inserted_runTaskScheduleNow h)
      next => exact hget
  | recoverStaleRunningTasks time locked =>
    rcases get?_recoverStaleRunningTasks w.tasks time locked task.id with heq | ⟨t, ht, hab, -⟩
    · exact heq.trans hget
    · obtain rfl : task = t := Option.some.inj (hget.symm.trans ht)
      exact absurd hab.2.1 hk
  | dispatchDueSchedules time ids locked =>
    simp only [apply]
    split
    next h => exact kept (inserted_dispatchLoop h)
    next => exact hget
  | claim runner taskId conversationId token => exact get?_claim_of_manual hget hk hallowed
  | worker runner lease action =>
    have hlease : lease ∈ w.leases := by
      cases action with
      | finishOrRetry error retryable wait => exact hallowed.1
      | _ => exact hallowed
    have hne : lease.taskId ≠ task.id := by
      intro heq
      have hclaim := mem_claims_of_mem_leases hlease
      rw [heq, hentries] at hclaim
      cases hclaim
    have hsame := (moves_work w runner lease now now' action task.id).eq_of_ne hne
    exact (congrArg TaskView.row hsame).trans hget

end World

namespace Traffic

variable {env : Environment} {w w' : World}

/-- The requests of a user that can change the row of a task. -/
inductive OwnersRequest (userId : UUID) (task : Task) : TrafficEvent → Prop where
  | update (payload : TaskUpdate) :
      OwnersRequest userId task (.system (.updateTask userId task.id payload))
  | cancel : OwnersRequest userId task (.system (.cancelTask userId task.id))
  | delete {conversationId : UUID} (h : task.conversationId = some conversationId) :
      OwnersRequest userId task (.deleteConversation userId conversationId)

/-- A step that changes the row of a manual task is a request of its owner. -/
theorem moved_by_owner (hw : Reachable env w) {task : Task} (hmem : task ∈ w.tasks.rows)
    (hk : task.kind ≠ .agent) {a : TrafficAction} (hs : step env w a = some w')
    (hne : w'.tasks.get? task.id ≠ some task) :
    ∃ u, task.userId = some u ∧ OwnersRequest u task a.event := by
  have hget := World.mem_rows_iff.mp hmem
  have hentries := ((hw.sound task.id).manual task hget hk).2
  obtain ⟨-, -, hallowed, rfl⟩ := step_eq_some hs
  by_contra hnone
  refine hne ?_
  change (apply env w a.now a.now' a.event).tasks.get? task.id = some task
  cases hevent : a.event with
  | system event =>
    rw [hevent] at hallowed hnone
    simp only [apply]
    split_ifs
    · refine World.get?_apply_of_manual hallowed.1 hget hk hentries ?_ ?_
      · rintro u payload rfl hu
        exact hnone ⟨u, hu, .update payload⟩
      · rintro u rfl hu
        exact hnone ⟨u, hu, .cancel⟩
    · exact hget
  | createConversation userId id title =>
    simp only [apply]
    split <;> exact hget
  | updateConversation userId conversationId payload =>
    simp only [apply]
    split <;> exact hget
  | deleteConversation userId conversationId =>
    rw [hevent] at hnone
    simp only [apply]
    split
    next records' hd =>
      have hother : task.userId ≠ some userId ∨ task.conversationId ≠ some conversationId := by
        by_contra hboth
        push Not at hboth
        exact hnone ⟨userId, hboth.1, .delete hboth.2⟩
      exact World.mem_rows_iff.mp ((untouched_delete hw.tied hd).tasks task hmem hother)
    next => exact hget

/-- In every run the status of a manual task follows the table of transitions, its timestamps are
set once, no worker ever touches it, and a step that changes its row is a request of its owner. -/
theorem manual_task_follows (hw : Reachable env w) (hl : Later env w w') {task : Task}
    (hmem : task ∈ w.tasks.rows) (hk : task.kind = .manual) :
    ManualRow task ∧ w.entries task.id = [] ∧
      (∀ a w₁, step env w a = some w₁ → w₁.tasks.get? task.id ≠ some task →
        ∃ u, task.userId = some u ∧ OwnersRequest u task a.event) ∧
      ∃ task', w'.tasks.get? task.id = some task' ∧ task'.kind = .manual ∧
        task'.userId = task.userId ∧ Follows task task' ∧
        (task.status.Terminal → task'.status = task.status) := by
  have hget := World.mem_rows_iff.mp hmem
  have hkind : task.kind ≠ .agent := by simp [hk]
  obtain ⟨hrow, hes⟩ := (hw.sound task.id).manual task hget hkind
  have hkept : ∃ task', w'.tasks.get? task.id = some task' ∧ task'.kind = .manual ∧
      task'.userId = task.userId ∧ Follows task task' := by
    refine hw.persists (P := fun t _ => t.kind = .manual ∧ t.userId = task.userId ∧ Follows task t)
      (J := TaskView.Sound) hl hmem (fun u hu => hu.sound task.id) ⟨hk, rfl, .refl task⟩ ?step
      ?unlink
    case step =>
      rintro t es t' es' hsound ⟨htk, huser, hfollows⟩ hs
      have htk' : t.kind ≠ .agent := by simp [htk]
      obtain ⟨-, now, hmoved⟩ := (hsound.manual t rfl htk').1.step htk' hs
      obtain ⟨t'', new, hv, hframe⟩ := hs.frame
      obtain rfl : t' = t'' := Option.some.inj (congrArg TaskView.row hv)
      exact ⟨hframe.kind.trans htk, hmoved.userId.trans huser, hfollows.trans hmoved.follows⟩
    case unlink =>
      rintro t es c ⟨htk, huser, hfollows⟩
      unfold unlinkTask
      split_ifs
      · exact ⟨htk, huser, hfollows.status, hfollows.startedAt, hfollows.finishedAt⟩
      · exact ⟨htk, huser, hfollows⟩
  obtain ⟨task', hget', hkind', huser, hfollows⟩ := hkept
  exact ⟨hrow, hes, fun a w₁ hs hne => moved_by_owner hw hmem hkind hs hne, task', hget', hkind',
    huser, hfollows, fun hterminal => eq_of_terminal hterminal hfollows.status⟩

/-! A manual task that its owner ends twice in different ways. -/

theorem no_progress (p : ℤ) (h : (none : Option ℤ) = some p) : 0 ≤ p ∧ p ≤ 100 := by
  cases h

def moveTo (status : TaskStatus) : TaskUpdate :=
  ⟨some status, none, none, none, none, none, no_progress⟩

def succeededByHand : World :=
  ofRun sampleEnvironment
    [.ofAction ⟨.createTask 1 21 ⟨"Call the supplier", none, none, ⟨[], []⟩⟩, 0, 0⟩,
      .ofAction ⟨.updateTask 1 21 (moveTo .running), seconds 1, seconds 1⟩,
      .ofAction ⟨.updateTask 1 21 (moveTo .succeeded), seconds 2, seconds 2⟩]

def manualTask : Task :=
  succeededByHand.tasks.rows.head (List.ne_nil_of_length_pos (by decide))

/-- The last request is one of another user. -/
def failedByHand : List TrafficAction :=
  [.ofAction ⟨.updateTask 1 21 (moveTo .failed), seconds 3, seconds 3⟩,
    .ofAction ⟨.cancelTask 2 21, seconds 4, seconds 4⟩]

theorem manual_task_follows_sample : ∃ task',
    (after sampleEnvironment succeededByHand failedByHand).tasks.get? 21 = some task' ∧
      task'.status = .succeeded := by
  have hmem : manualTask ∈ succeededByHand.tasks.rows := List.head_mem _
  obtain ⟨-, -, -, task', hget, -, -, -, hended⟩ := manual_task_follows
    (@reachable_ofRun sampleEnvironment _ (by decide))
    (later_after failedByHand (by decide)) hmem (by decide)
  exact ⟨task', hget, hended (by decide)⟩

end Traffic

end AgentDemo
