import AgentDemo.Api.OwnRows
import AgentDemo.System.Schedules
import AgentDemo.System.Traffic

/-! A task that a schedule has queued belongs to the user of the schedule. -/
namespace AgentDemo

theorem TaskStep.userId {task task' : Task} {es es' : List TaskEntry}
    (h : TaskStep ⟨some task, es⟩ ⟨some task', es'⟩) : task'.userId = task.userId := by
  cases h with
  | claim hc fresh =>
    obtain ⟨-, -, -, rfl, -, -⟩ := AgentTaskRunner.claim_eq_started hc
    rfl
  | claimFailed hc =>
    obtain ⟨-, -, error, rfl⟩ := AgentTaskRunner.claim_eq_failed hc
    rfl
  | heartbeat hold hb =>
    obtain ⟨deadline, -, rfl⟩ := Option.map_eq_some_iff.mp hb
    rfl
  | recordEvent hold eventType data now' => rfl
  | succeed hold donePayload answerParts conversationId now' => rfl
  | checked hold => rfl
  | effect hold reason now' he => rfl
  | finishOrRetry hold error retryable wait now' =>
    simp only [AgentDemo.finishOrRetry]
    split_ifs <;> rfl
  | mcpEvent hold eventType tool payload progress => rfl
  | recover hab =>
    unfold recoverTask
    split_ifs <;> rfl
  | cancel hc =>
    obtain ⟨-, rfl⟩ := cancelTask_eq_ok hc
    rfl
  | @update task task' es payload now hu =>
    have hk := kind_of_updateTask hu
    unfold AgentDemo.updateTask at hu
    rw [if_neg hk] at hu
    cases hs : payload.status with
    | none =>
      simp only [hs, bind, Except.bind, Except.ok.injEq] at hu
      subst hu
      rfl
    | some next =>
      simp only [hs, bind, Except.bind] at hu
      cases hv : validateTaskTransition task next with
      | error e => simp [hv] at hu
      | ok u =>
        simp only [hv, Except.ok.injEq] at hu
        subst hu
        rfl

/-- Where the owner and the schedule of a row come from. -/
inductive Lineage (w : World) (task' : Task) : Prop where
  | kept {task : Task} (mem : task ∈ w.tasks.rows) (user : task'.userId = task.userId)
      (schedule : task'.scheduleId = task.scheduleId)
  | unscheduled (schedule : task'.scheduleId = none)
  | scheduled {s : TaskSchedule} (mem : s ∈ w.schedules.rows) (user : task'.userId = some s.userId)
      (schedule : task'.scheduleId = some s.id)

namespace World

variable {env : Environment} {w : World} {now now' : Instant} {event : Event} {task' : Task}

theorem lineage_of_extends {tasks : Table Task} {P : Task → Prop} (h : w.tasks.Extends P tasks)
    (hnew : ∀ task, P task → Lineage w task) (hmem : task' ∈ tasks.rows) : Lineage w task' := by
  have hget := Table.get?_eq_some.mpr ⟨hmem, (rfl : Keyed.key task' = task'.id)⟩
  rcases h task'.id with heq | ⟨-, task, hP, hsome⟩
  · exact .kept (Table.get?_eq_some.mp (heq.symm.trans hget)).1 rfl rfl
  · obtain rfl := Option.some.inj (hget.symm.trans hsome)
    exact hnew task' hP

theorem lineage_dispatchLoop {ids : UUID → UUID} {createdAt : Instant} {due : List TaskSchedule}
    {batch batch' : Batch} (h : dispatchLoop env ids now createdAt due batch = .ok batch') :
    batch.tasks.Extends (fun task => ∃ s ∈ due, task.userId = some s.userId ∧
      task.scheduleId = some s.id) batch'.tasks := by
  induction due generalizing batch with
  | nil =>
    cases Except.ok.inj h
    exact .refl _
  | cons schedule rest ih =>
    unfold dispatchLoop at h
    split at h
    next => cases h
    next tasks schedule' run hs =>
      have hrest := ih h
      refine .trans ?_ (hrest.imp ?_)
      · rcases dispatchSchedule_eq_ok hs with ⟨e, -, rfl, -, -⟩ | ⟨o, n, st, -, -, rfl, -, -⟩ |
          ⟨o, n, -, -, -, hi, -, -⟩
        · exact .refl _
        · exact .refl _
        · exact .of_insert? (insertTask_eq_some hi).2 ⟨schedule, List.mem_cons_self, rfl, rfl⟩
      · rintro task ⟨s, hmem, howner⟩
        exact ⟨s, List.mem_cons_of_mem schedule hmem, howner⟩

theorem lineage_apply (hallowed : w.Allowed event)
    (hmem : task' ∈ (w.apply env now now' event).tasks.rows) : Lineage w task' := by
  by_cases hcreates : Event.Creates event
  · cases event with
    | createTask userId id payload =>
      simp only [apply] at hmem
      cases hc : createTask w.tasks w.conversations payload userId id now with
      | error e =>
        rw [hc] at hmem
        exact .kept hmem rfl rfl
      | ok tasks =>
        rw [hc] at hmem
        exact lineage_of_extends (inserted_createTask hc) (fun _ h => .unscheduled h.2) hmem
    | createAgentTask userId id payload before =>
      simp only [apply] at hmem
      cases hc : createAgentTask env before w.tasks w.conversations payload userId id now now' with
      | error e =>
        rw [hc] at hmem
        exact .kept hmem rfl rfl
      | ok r =>
        rw [hc] at hmem
        exact lineage_of_extends (inserted_createAgentTask hc) (fun _ h => .unscheduled h.2) hmem
    | runTaskScheduleNow userId scheduleId id manualKey =>
      simp only [apply] at hmem
      cases hget : getOwnedSchedule w.schedules scheduleId userId with
      | none =>
        rw [hget] at hmem
        exact .kept hmem rfl rfl
      | some schedule =>
        have hrow := (Table.get?_eq_some.mp (Option.filter_eq_some_iff.mp hget).1).1
        simp only [hget] at hmem
        split at hmem
        next task tasks schedules hrun =>
          obtain ⟨-, hi, -⟩ := runTaskScheduleNow_eq_ok hrun
          refine lineage_of_extends (P := fun task => Lineage w task)
            (.of_insert? (insertTask_eq_some hi).2 ?_) (fun _ h => h) hmem
          exact .scheduled hrow rfl rfl
        next => exact .kept hmem rfl rfl
    | dispatchDueSchedules time ids locked =>
      simp only [apply] at hmem
      cases hd : AgentDemo.dispatchDueSchedules env w.tasks w.schedules ids locked time now with
      | error e =>
        rw [hd] at hmem
        exact .kept hmem rfl rfl
      | ok batch =>
        rw [hd] at hmem
        refine lineage_of_extends (lineage_dispatchLoop hd) ?_ hmem
        rintro task ⟨s, hdue, huser, hschedule⟩
        exact .scheduled (mem_dueSchedules hdue).1 huser hschedule
    | _ => exact hcreates.elim
  · have hrow : ((w.apply env now now' event).view task'.id).row = some task' :=
      mem_rows_iff.mp hmem
    rcases moves_apply env w now now' hallowed hcreates task'.id with heq | ⟨hsome, hs⟩
    · rw [heq] at hrow
      exact .kept (mem_rows_iff.mpr hrow) rfl rfl
    · cases hbefore : (w.view task'.id).row with
      | none => exact absurd hbefore hsome
      | some task =>
        have hview : w.view task'.id = ⟨some task, w.entries task'.id⟩ := by
          rw [← hbefore]
          rfl
        rw [hview] at hs
        obtain ⟨t, new, hafter, hframe⟩ := hs.frame
        rw [hafter] at hrow hs
        obtain rfl := Option.some.inj hrow
        exact .kept (Table.get?_eq_some.mp hbefore).1 hs.userId hframe.scheduleId

end World

/-- The schedule of a task exists and has the user of the task. -/
def ScheduleLinked (w : World) : Prop :=
  ∀ task ∈ w.tasks.rows, ∀ id, task.scheduleId = some id →
    ∃ s, w.schedules.get? id = some s ∧ task.userId = some s.userId

theorem ScheduleLinked.user {w : World} (h : ScheduleLinked w) {schedule : TaskSchedule}
    (hrow : w.schedules.get? schedule.id = some schedule) {task : Task} (hmem : task ∈ w.tasks.rows)
    (hlink : task.scheduleId = some schedule.id) : task.userId = some schedule.userId := by
  obtain ⟨s, hget, howner⟩ := h task hmem schedule.id hlink
  obtain rfl := Option.some.inj (hrow.symm.trans hget)
  exact howner

/-- No schedule has been lost or given to another user. -/
def KeepsSchedules (schedules schedules' : Table TaskSchedule) : Prop :=
  ∀ id s, schedules.get? id = some s → ∃ s', schedules'.get? id = some s' ∧ s'.userId = s.userId

theorem ScheduleLinked.of_lineage {w : World} (h : ScheduleLinked w) {tasks : Table Task}
    {schedules : Table TaskSchedule} (hkeep : KeepsSchedules w.schedules schedules)
    (hlineage : ∀ task' ∈ tasks.rows, Lineage w task') :
    ∀ task' ∈ tasks.rows, ∀ id, task'.scheduleId = some id →
      ∃ s, schedules.get? id = some s ∧ task'.userId = some s.userId := by
  intro task' hmem id hid
  cases hlineage task' hmem with
  | kept hold huser hschedule =>
    obtain ⟨s, hget, howner⟩ := h _ hold id (hschedule.symm.trans hid)
    obtain ⟨s', hget', hsame⟩ := hkeep id s hget
    exact ⟨s', hget', by rw [huser, howner, hsame]⟩
  | unscheduled hnone =>
    rw [hnone] at hid
    cases hid
  | @scheduled s hrow huser hschedule =>
    obtain rfl := Option.some.inj (hschedule.symm.trans hid)
    obtain ⟨s', hget', hsame⟩ :=
      hkeep s.id s (Table.get?_eq_some.mpr ⟨hrow, key_taskSchedule s⟩)
    exact ⟨s', hget', by rw [huser, hsame]⟩

theorem keepsSchedules_apply (env : Environment) (w : World) (now now' : Instant) (event : Event) :
    KeepsSchedules w.schedules (w.apply env now now' event).schedules := by
  intro id s hget
  obtain ⟨s', hget', hchange⟩ := World.scheduleChange_apply env w ⟨event, now, now'⟩ hget
  refine ⟨s', hget', ?_⟩
  cases hchange with
  | same => rfl
  | update userId payload hevent hu => exact userId_updateTaskSchedule hu
  | ran taskId => rfl
  | dispatch time henabled hdue hs =>
    rcases dispatchSchedule_eq_ok hs with ⟨-, -, -, rfl, -⟩ | ⟨-, -, -, -, -, -, rfl, -⟩ |
      ⟨-, -, -, -, -, -, rfl, -⟩ <;> rfl

namespace Traffic

variable {env : Environment} {w : World} {now now' : Instant}

theorem scheduleLinked_apply (h : ScheduleLinked w) {event : TrafficEvent}
    (hallowed : Allowed w event) : ScheduleLinked (apply env w now now' event) := by
  cases event with
  | system event =>
    simp only [apply]
    split_ifs with hlinked
    · exact h.of_lineage (keepsSchedules_apply env w now now' event)
        fun task' hmem => World.lineage_apply hallowed.1 hmem
    · exact h
  | createConversation userId id title =>
    simp only [apply]
    split <;> exact h
  | updateConversation userId conversationId payload =>
    simp only [apply]
    split <;> exact h
  | deleteConversation userId conversationId =>
    simp only [apply]
    cases hd : AgentDemo.deleteConversation (records w) userId conversationId with
    | error e => exact h
    | ok after =>
      obtain ⟨-, htasks, hschedules, -, -⟩ := deleteConversation_eq_ok hd
      simp only
      refine @ScheduleLinked.of_lineage w h after.tasks after.schedules ?_ ?_
      · intro id s hget
        refine ⟨unlinkSchedule conversationId s, ?_, ?_⟩
        · rw [hschedules, Table.get?_update]
          exact congrArg (Option.map _) hget
        · unfold unlinkSchedule
          split_ifs <;> rfl
      · intro task' hmem
        simp only [htasks] at hmem
        obtain ⟨task, hrow, rfl⟩ := Table.mem_update.mp hmem
        refine .kept hrow ?_ ?_
        all_goals
          unfold unlinkTask
          split_ifs <;> rfl

/-- In every reachable state the task of a schedule belongs to the user of the schedule. -/
theorem Reachable.scheduleLinked (hw : Reachable env w) : ScheduleLinked w := by
  obtain ⟨conversations, clock, hrun⟩ := hw
  refine hrun.invariant (I := ScheduleLinked) (fun task hmem => (by cases hmem)) ?_
  intro u a v hu hv
  obtain ⟨-, -, hallowed, rfl⟩ := step_eq_some hv
  exact @scheduleLinked_apply env u a.now a.now' hu a.event hallowed

end Traffic

end AgentDemo
