import AgentDemo.System.RowOrigins

/-! An agent task or a schedule names a conversation of its own user. -/
namespace AgentDemo

structure Owners (w : World) : Prop where
  tasks : ∀ task ∈ w.tasks.rows, task.kind = .agent →
    OwnedBy w.conversations task.userId task.conversationId
  schedules : ∀ schedule ∈ w.schedules.rows,
    OwnedBy w.conversations (some schedule.userId) schedule.conversationId

/-- No conversation has been lost or given to another user. -/
def KeepsOwners (conversations conversations' : Table Conversation) : Prop :=
  ∀ c owner, (conversations.get? c).map Conversation.userId = some owner →
    (conversations'.get? c).map Conversation.userId = some owner

theorem OwnedBy.mono {conversations conversations' : Table Conversation}
    {userId conversationId : Option UUID} (h : OwnedBy conversations userId conversationId)
    (hkeep : KeepsOwners conversations conversations') :
    OwnedBy conversations' userId conversationId :=
  fun c hc => hkeep c userId (h c hc)

theorem keepsOwners_insert {conversations conversations' : Table Conversation}
    {conversation : Conversation} (h : conversations.insert? conversation = some conversations') :
    KeepsOwners conversations conversations' := by
  intro c owner hc
  have hne : conversation.id ≠ c := by
    rintro rfl
    have hfresh : conversations.get? conversation.id = none := Table.insert?_fresh h
    rw [hfresh] at hc
    cases hc
  rw [Table.get?_insert? h, key_conversation, if_neg hne]
  exact hc

theorem keepsOwners_write {conversations : Table Conversation} {conversation : Conversation}
    (h : (conversations.get? conversation.id).map Conversation.userId = some conversation.userId) :
    KeepsOwners conversations (conversations.write conversation) := by
  intro c owner hc
  rw [Table.get?_write, key_conversation]
  split_ifs with heq
  · subst heq
    rw [hc] at h
    rw [Option.map_map]
    cases hget : conversations.get? conversation.id with
    | none =>
      rw [hget] at hc
      cases hc
    | some stored => exact h.symm
  · exact hc

theorem createTaskSchedule_owned {env : Environment} {schedules schedules' : Table TaskSchedule}
    {conversations : Table Conversation} {payload : TaskScheduleCreate} {userId id : UUID}
    {now : Instant}
    (h : createTaskSchedule env schedules conversations payload userId id now = .ok schedules') :
    ∃ schedule, schedules.insert? schedule = some schedules' ∧
      OwnedBy conversations (some schedule.userId) schedule.conversationId := by
  unfold createTaskSchedule at h
  split_ifs at h with hall
  simp only at h
  split at h
  next => cases h
  next =>
    split at h
    next hi =>
      cases Except.ok.inj h
      exact ⟨_, hi, ownedBy_of_all hall⟩
    next => cases h

theorem dispatchSchedule_owner {env : Environment} {tasks tasks' : Table Task}
    {schedule schedule' : TaskSchedule} {id : UUID} {now createdAt : Instant}
    {run : Option QueuedRun}
    (h : dispatchSchedule env tasks schedule id now createdAt = .ok (tasks', schedule', run)) :
    schedule'.userId = schedule.userId ∧ schedule'.conversationId = schedule.conversationId := by
  rcases dispatchSchedule_eq_ok h with ⟨-, -, -, rfl, -⟩ | ⟨-, -, -, -, -, -, rfl, -⟩ |
    ⟨-, -, -, -, -, -, rfl, -⟩ <;> exact ⟨rfl, rfl⟩

theorem schedule_of_dispatchLoop {env : Environment} {ids : UUID → UUID} {now createdAt : Instant}
    {due : List TaskSchedule} {batch batch' : Batch} {schedule' : TaskSchedule}
    (h : dispatchLoop env ids now createdAt due batch = .ok batch')
    (hmem : schedule' ∈ batch'.schedules.rows) :
    schedule' ∈ batch.schedules.rows ∨ ∃ schedule ∈ due,
      schedule'.userId = schedule.userId ∧ schedule'.conversationId = schedule.conversationId := by
  induction due generalizing batch with
  | nil =>
    cases Except.ok.inj h
    exact Or.inl hmem
  | cons schedule rest ih =>
    unfold dispatchLoop at h
    split at h
    next => cases h
    next tasks moved run hs =>
      rcases ih h with hnew | ⟨later, hlater, howner⟩
      · rcases Table.mem_write hnew with rfl | hold
        · exact Or.inr ⟨schedule, List.mem_cons_self, dispatchSchedule_owner hs⟩
        · exact Or.inl hold
      · exact Or.inr ⟨later, List.mem_cons_of_mem _ hlater, howner⟩

theorem owner_of_updateTaskSchedule {env : Environment} {schedule schedule' : TaskSchedule}
    {payload : TaskScheduleUpdate} {now now' : Instant}
    (h : updateTaskSchedule env schedule payload now now' = .ok schedule') :
    schedule'.userId = schedule.userId ∧ schedule'.conversationId = schedule.conversationId := by
  unfold updateTaskSchedule at h
  split at h
  · split at h
    · cases h
    · cases Except.ok.inj h
      exact ⟨rfl, rfl⟩
  · cases Except.ok.inj h
    exact ⟨rfl, rfl⟩

namespace World

/-- A worker writes the title into the conversation that it has read. -/
def Retitles (w : World) : Event → Prop
  | .worker _ _ (.autoTitle conversation _) =>
    (w.conversations.get? conversation.id).map Conversation.userId = some conversation.userId
  | _ => True

instance (w : World) (event : Event) : Decidable (w.Retitles event) := by
  unfold Retitles
  split <;> infer_instance

variable {env : Environment} {w w' : World} {now now' : Instant} {event : Event}

theorem conversations_underLease {lease : TaskLease} {live : Bool} {k : Task → World}
    (h : ∀ task, (k task).conversations = w.conversations) :
    (w.underLease lease now live k).conversations = w.conversations := by
  unfold underLease
  split
  next => exact h _
  next => rfl

theorem keepsOwners_work {runner : AgentTaskRunner} {lease : TaskLease} {action : WorkerAction}
    (htitle : w.Retitles (.worker runner lease action)) :
    KeepsOwners w.conversations (w.work runner lease now now' action).conversations := by
  have same {t : Table Conversation} (h : t = w.conversations) : KeepsOwners w.conversations t := by
    rw [h]
    exact fun _ _ hc => hc
  cases action with
  | heartbeat =>
    refine same (conversations_underLease fun task => ?_)
    cases runner.heartbeat task now' <;> rfl
  | recordEvent eventType data => exact same (conversations_underLease fun task => rfl)
  | succeed donePayload answerParts conversationId =>
    exact same (conversations_underLease fun task => rfl)
  | finishOrRetry error retryable wait => exact same (conversations_underLease fun task => rfl)
  | dispatchTool tool =>
    simp only [work]
    split <;> exact same rfl
  | recordMcpTaskEvent eventType tool payload progress =>
    simp only [work]
    split <;> exact same rfl
  | saveMessage message =>
    simp only [work]
    split
    · exact same rfl
    · exact same rfl
    · split
      · exact same rfl
      · split <;> exact same rfl
  | autoTitle conversation title =>
    simp only [work]
    cases ha : autoTitleConversation w.tasks (some lease) conversation title now with
    | error e => exact same rfl
    | ok retitled =>
      have hrow : retitled = { conversation with title } := by
        unfold autoTitleConversation at ha
        split at ha
        · cases ha
        · exact (Except.ok.inj ha).symm
      subst hrow
      exact keepsOwners_write htitle

theorem keepsOwners_claim {runner : AgentTaskRunner} {taskId conversationId token : UUID} :
    KeepsOwners w.conversations
      (w.claim runner taskId conversationId token now now').conversations := by
  have same : KeepsOwners w.conversations w.conversations := fun _ _ hc => hc
  unfold claim
  split
  · exact same
  · split
    · exact same
    · exact same
    · exact same
    · exact same
    · split
      · exact same
      · next hi => exact keepsOwners_insert hi

theorem keepsOwners_apply (env : Environment) (now now' : Instant) (htitle : w.Retitles event) :
    KeepsOwners w.conversations (w.apply env now now' event).conversations := by
  have same {t : Table Conversation} (h : t = w.conversations) : KeepsOwners w.conversations t := by
    rw [h]
    exact fun _ _ hc => hc
  cases event with
  | claim runner taskId conversationId token => exact keepsOwners_claim
  | worker runner lease action => exact keepsOwners_work htitle
  | idle => exact same rfl
  | recoverStaleRunningTasks time locked => exact same rfl
  | _ =>
    apply same
    simp only [apply]
    (repeat' split) <;> rfl

theorem schedules_owned (h : Owners w) (env : Environment) (now now' : Instant)
    {schedule' : TaskSchedule} (hmem : schedule' ∈ (w.apply env now now' event).schedules.rows) :
    OwnedBy w.conversations (some schedule'.userId) schedule'.conversationId := by
  have of_owner {schedule : TaskSchedule} (hrow : schedule ∈ w.schedules.rows)
      (howner : schedule'.userId = schedule.userId ∧
        schedule'.conversationId = schedule.conversationId) :
      OwnedBy w.conversations (some schedule'.userId) schedule'.conversationId := by
    rw [howner.1, howner.2]
    exact h.schedules schedule hrow
  cases event with
  | createTaskSchedule userId id payload =>
    simp only [apply] at hmem
    cases hc : createTaskSchedule env w.schedules w.conversations payload userId id now with
    | error e =>
      rw [hc] at hmem
      exact h.schedules schedule' hmem
    | ok schedules =>
      rw [hc] at hmem
      obtain ⟨schedule, hi, howned⟩ := createTaskSchedule_owned hc
      simp only [Table.rows_insert? hi, List.mem_append, List.mem_singleton] at hmem
      rcases hmem with hold | rfl
      · exact h.schedules schedule' hold
      · exact howned
  | updateTaskSchedule userId scheduleId payload =>
    simp only [apply] at hmem
    cases hget : getOwnedSchedule w.schedules scheduleId userId with
    | none =>
      rw [hget] at hmem
      exact h.schedules schedule' hmem
    | some schedule =>
      have hrow := (Table.get?_eq_some.mp (Option.filter_eq_some_iff.mp hget).1).1
      simp only [hget] at hmem
      cases hu : updateTaskSchedule env schedule payload now now' with
      | error e =>
        rw [hu] at hmem
        exact h.schedules schedule' hmem
      | ok updated =>
        rw [hu] at hmem
        rcases Table.mem_write hmem with rfl | hold
        · exact of_owner hrow (owner_of_updateTaskSchedule hu)
        · exact h.schedules schedule' hold
  | runTaskScheduleNow userId scheduleId id manualKey =>
    simp only [apply] at hmem
    cases hget : getOwnedSchedule w.schedules scheduleId userId with
    | none =>
      rw [hget] at hmem
      exact h.schedules schedule' hmem
    | some schedule =>
      have hrow := (Table.get?_eq_some.mp (Option.filter_eq_some_iff.mp hget).1).1
      simp only [hget] at hmem
      split at hmem
      next task tasks schedules hrun =>
        obtain ⟨-, -, rfl⟩ := runTaskScheduleNow_eq_ok hrun
        rcases Table.mem_write hmem with rfl | hold
        · exact of_owner hrow ⟨rfl, rfl⟩
        · exact h.schedules schedule' hold
      next => exact h.schedules schedule' hmem
  | dispatchDueSchedules time ids locked =>
    simp only [apply] at hmem
    cases hd : AgentDemo.dispatchDueSchedules env w.tasks w.schedules ids locked time now with
    | error e =>
      rw [hd] at hmem
      exact h.schedules schedule' hmem
    | ok batch =>
      rw [hd] at hmem
      rcases schedule_of_dispatchLoop hd hmem with hold | ⟨schedule, hdue, howner⟩
      · exact h.schedules schedule' hold
      · exact of_owner (mem_dueSchedules hdue).1 howner
  | claim runner taskId conversationId token =>
    have hrows := (schedules_claim w runner taskId conversationId token now now').1
    exact h.schedules schedule' (hrows ▸ hmem)
  | worker runner lease action =>
    have hrows := (schedules_work w runner lease now now' action).1
    exact h.schedules schedule' (hrows ▸ hmem)
  | _ =>
    refine h.schedules schedule' ?_
    simp only [apply] at hmem
    (repeat' split at hmem) <;> exact hmem

/-- One event keeps the owners in order. -/
theorem owners_apply (h : Owners w) (env : Environment) (now now' : Instant)
    (htitle : w.Retitles event) : Owners (w.apply env now now' event) := by
  have hkeep := keepsOwners_apply env now now' htitle
  constructor
  · intro task' hmem hk
    cases origin_apply env w now now' event hk hmem with
    | kept hold => exact (h.tasks task' hold hk).mono hkeep
    | created hqueued howned => exact howned.mono hkeep
    | scheduled hrow hqueued huser hconversation =>
      rw [huser, hconversation]
      exact (h.schedules _ hrow).mono hkeep
    | @rewritten task hrow hkind huser hconversation hstatus =>
      rw [huser, hconversation]
      exact (h.tasks task hrow hkind).mono hkeep
    | @claimed task runner conversationId token hrow hkind hevent hstarted hopened =>
      have howned := (h.tasks task hrow hkind).mono hkeep
      subst hstarted
      intro c hc
      cases hconversation : task.conversationId with
      | none =>
        have hc' : some conversationId = some c := by
          simpa [AgentTaskRunner.startAttempt, hconversation] using hc
        rw [← Option.some.inj hc', hopened hconversation]
        rfl
      | some stored =>
        have hc' : some stored = some c := by
          simpa [AgentTaskRunner.startAttempt, hconversation] using hc
        exact howned c (hconversation.trans hc')
    | @succeeded task runner lease donePayload answerParts conversationId hrow hkind hid
      hevent hdone =>
      subst hdone
      exact (h.tasks task hrow hkind).mono hkeep
  · intro schedule' hmem
    exact (schedules_owned h env now now' hmem).mono hkeep

end World

end AgentDemo
