import AgentDemo.Api.OwnRows
import AgentDemo.Library.Isolation
import AgentDemo.System.ApiCalls
import AgentDemo.System.ConversationLinks
import AgentDemo.System.ScheduleLinks

/-! What the requests of a user write and read: nothing that belongs to another user. -/
namespace AgentDemo

/-- A request without the rows of other users that its first look-up has seen. -/
def ApiCall.own (u : UUID) (call : ApiCall) : ApiCall :=
  match call.request with
  | .createAgentTask id payload before =>
    { call with request := .createAgentTask id payload (before.filter (ownTask u)) }
  | _ => call

theorem ApiCall.userId_own (u : UUID) (call : ApiCall) : (call.own u).userId = call.userId := by
  unfold ApiCall.own
  split <;> rfl

namespace Api

/-- The rows of a user. -/
def own (u : UUID) (w : World) : World where
  tasks := w.tasks.filter (ownTask u)
  schedules := w.schedules.filter (ownSchedule u)
  conversations := w.conversations.filter (ownConversation u)
  messages := w.messages.filter fun m =>
    (getOwnedConversation w.conversations m.conversationId u).isSome
  clock := 0
  journal := []
  occurrences := []

structure Served (w : World) : Prop where
  tied : Tied w
  sound : ∀ id, (w.view id).Sound
  scheduleLinked : ScheduleLinked w

variable {env : Environment} {w : World} {u v : UUID} {now now' : Instant}

theorem Served.of_reachable (hw : Traffic.Reachable env w) : Served w :=
  ⟨hw.tied, hw.sound, hw.scheduleLinked⟩

theorem Served.apply (h : Served w) {event : TrafficEvent} (hallowed : Traffic.Allowed w event) :
    Served (Traffic.apply env w now now' event) := by
  refine ⟨Traffic.tied_apply h.tied h.sound hallowed, fun id => ?_,
    Traffic.scheduleLinked_apply h.scheduleLinked hallowed⟩
  have hsound := h.sound id
  generalize hbefore : w.view id = before at hsound
  have hdrift := Traffic.drifts_apply env w now now' hallowed id
  rw [hbefore] at hdrift
  generalize (Traffic.apply env w now now' event).view id = after at hdrift ⊢
  cases hdrift with
  | stays => exact hsound
  | steps hs => exact hsound.step hs
  | unlinks task es c => exact hsound.unlink c

theorem allowed_event {request : ApiRequest} {traffic : TrafficEvent}
    (h : event u request = some traffic) : Traffic.Allowed w traffic := by
  cases request with
  | createConversation | updateConversation | deleteConversation =>
    obtain rfl := Option.some.inj h
    exact trivial
  | listTasks | getTask | getTaskEvents | listTaskSchedules | listConversations | listMessages =>
    cases h
  | _ =>
    obtain rfl := Option.some.inj h
    exact ⟨trivial, trivial⟩

theorem Served.perform (h : Served w) (call : ApiCall) : Served (perform env w call) := by
  unfold Api.perform
  split
  next hevent => exact h.apply (allowed_event hevent)
  next => exact h

/-! ### Requests to the task and schedule routes -/

theorem userId_updateTask {task task' : Task} {payload : TaskUpdate}
    (h : updateTask task payload now = .ok task') : task'.userId = task.userId := by
  have hs : TaskStep ⟨some task, []⟩ ⟨some task', []⟩ := .update h
  exact hs.userId

def Routed (u : UUID) : Event → Prop
  | .createTask userId .. | .createAgentTask userId .. | .updateTask userId ..
  | .cancelTask userId .. | .createTaskSchedule userId .. | .updateTaskSchedule userId ..
  | .runTaskScheduleNow userId .. => userId = u
  | _ => False

theorem conversations_routed {event : Event} (h : Routed u event) :
    (w.apply env now now' event).conversations = w.conversations ∧
      (w.apply env now now' event).messages = w.messages := by
  cases event with
  | idle | recoverStaleRunningTasks | dispatchDueSchedules | claim | worker => exact h.elim
  | _ =>
    simp only [World.apply]
    (repeat' split) <;> exact ⟨rfl, rfl⟩

theorem apply_routed {event : Event} (hlinked : Traffic.Linked w) (h : Routed u event) :
    Traffic.apply env w now now' (.system event) = w.apply env now now' event := by
  obtain ⟨hconversations, hmessages⟩ := @conversations_routed env w u now now' event h
  refine if_pos ?_
  unfold Traffic.Linked
  rw [hconversations, hmessages]
  exact hlinked

theorem linked_own : Traffic.Linked (own u w) := by
  intro m hmem
  obtain ⟨-, howned⟩ := Table.mem_filter.mp hmem
  obtain ⟨conversation, hget⟩ := Option.isSome_iff_exists.mp howned
  obtain ⟨hrow, howner⟩ := Option.filter_eq_some_iff.mp hget
  refine Option.isSome_iff_exists.mpr ⟨conversation, ?_⟩
  unfold own
  rw [Table.get?_filter, hrow, Option.filter_some]
  exact if_pos howner

theorem own_congr {w' : World} (htasks : w'.tasks.filter (ownTask u) = w.tasks.filter (ownTask u))
    (hschedules : w'.schedules.filter (ownSchedule u) = w.schedules.filter (ownSchedule u))
    (hconversations : w'.conversations = w.conversations) (hmessages : w'.messages = w.messages) :
    own u w' = own u w := by
  unfold own
  rw [htasks, hschedules, hconversations, hmessages]

theorem owned_task {tasks : Table Task} {id : UUID} {task : Task}
    (h : getOwnedTask tasks id u = some task) :
    tasks.get? task.id = some task ∧ task.userId = some u := by
  obtain ⟨hrow, howner⟩ := Option.filter_eq_some_iff.mp h
  have hid : task.id = id := (Table.get?_eq_some.mp hrow).2
  exact ⟨hid.symm ▸ hrow, by simpa using howner⟩

theorem owned_schedule {schedules : Table TaskSchedule} {id : UUID} {schedule : TaskSchedule}
    (h : getOwnedSchedule schedules id u = some schedule) :
    schedules.get? schedule.id = some schedule ∧ schedule.userId = u := by
  obtain ⟨hrow, howner⟩ := Option.filter_eq_some_iff.mp h
  have hid : schedule.id = id := (Table.get?_eq_some.mp hrow).2
  exact ⟨hid.symm ▸ hrow, by simpa using howner⟩

theorem owned_conversation {conversations : Table Conversation} {id : UUID}
    {conversation : Conversation}
    (h : getOwnedConversation conversations id u = some conversation) :
    conversations.get? conversation.id = some conversation ∧ conversation.id = id ∧
      conversation.userId = some u := by
  obtain ⟨hrow, howner⟩ := Option.filter_eq_some_iff.mp h
  have hid : conversation.id = id := (Table.get?_eq_some.mp hrow).2
  exact ⟨hid.symm ▸ hrow, hid, by simpa using howner⟩

/-- A request of another user to the task and schedule routes. -/
theorem hidden_routed {event : Event} (h : Routed v event) (hne : v ≠ u) :
    (w.apply env now now' event).tasks.filter (ownTask u) = w.tasks.filter (ownTask u) ∧
      (w.apply env now now' event).schedules.filter (ownSchedule u) =
        w.schedules.filter (ownSchedule u) := by
  have hneTask {task : Task} (howner : task.userId = some v) : ownTask u task = false := by
    simp [ownTask, howner, hne]
  have hneSchedule {schedule : TaskSchedule} (howner : schedule.userId = v) :
      ownSchedule u schedule = false := by
    simp [ownSchedule, howner, hne]
  cases event with
  | idle | recoverStaleRunningTasks | dispatchDueSchedules | claim | worker => exact h.elim
  | createTask userId id payload =>
    obtain rfl : userId = v := h
    simp only [World.apply]
    split
    next tasks hc =>
      obtain ⟨task, hi, -, howner⟩ := createTask_inserts hc
      exact ⟨Table.filter_insert?_of_not (insertTask_eq_some hi).2 (hneTask howner), rfl⟩
    next => exact ⟨rfl, rfl⟩
  | createAgentTask userId id payload before =>
    obtain rfl : userId = v := h
    simp only [World.apply]
    split
    next tasks task hc =>
      rcases createAgentTask_eq_ok hc with rfl | ⟨rfl, hi⟩
      · exact ⟨rfl, rfl⟩
      · exact ⟨Table.filter_insert?_of_not (insertTask_eq_some hi).2 (hneTask rfl), rfl⟩
    next => exact ⟨rfl, rfl⟩
  | updateTask userId taskId payload =>
    obtain rfl : userId = v := h
    simp only [World.apply]
    split
    next => exact ⟨rfl, rfl⟩
    next task hget =>
      obtain ⟨hrow, howner⟩ := owned_task hget
      split
      next task' hu =>
        have huser := (userId_updateTask hu)
        have hid := (updateTask_eq_ok hu).2.1
        have hrow : w.tasks.get? (Keyed.key task') = some task := by rw [key_task, hid, hrow]
        exact ⟨Table.filter_write_of_not hrow (hneTask howner) (hneTask (huser.trans howner)), rfl⟩
      next => exact ⟨rfl, rfl⟩
  | cancelTask userId taskId =>
    obtain rfl : userId = v := h
    simp only [World.apply]
    split
    next => exact ⟨rfl, rfl⟩
    next task hget =>
      obtain ⟨hrow, howner⟩ := owned_task hget
      split
      next task' hc =>
        obtain ⟨-, rfl⟩ := cancelTask_eq_ok hc
        exact ⟨Table.filter_write_of_not hrow (hneTask howner) (hneTask howner), rfl⟩
      next => exact ⟨rfl, rfl⟩
  | createTaskSchedule userId id payload =>
    obtain rfl : userId = v := h
    simp only [World.apply]
    split
    next schedules hc =>
      obtain ⟨schedule, hi, -, howner⟩ := createTaskSchedule_inserts hc
      exact ⟨rfl, Table.filter_insert?_of_not hi (hneSchedule howner)⟩
    next => exact ⟨rfl, rfl⟩
  | updateTaskSchedule userId scheduleId payload =>
    obtain rfl : userId = v := h
    simp only [World.apply]
    split
    next => exact ⟨rfl, rfl⟩
    next schedule hget =>
      obtain ⟨hrow, howner⟩ := owned_schedule hget
      split
      next schedule' hu =>
        have hid := id_updateTaskSchedule hu
        have hrow : w.schedules.get? (Keyed.key schedule') = some schedule := by
          rw [key_taskSchedule, hid, hrow]
        exact ⟨rfl, Table.filter_write_of_not hrow (hneSchedule howner)
          (hneSchedule ((userId_updateTaskSchedule hu).trans howner))⟩
      next => exact ⟨rfl, rfl⟩
  | runTaskScheduleNow userId scheduleId id manualKey =>
    obtain rfl : userId = v := h
    simp only [World.apply]
    split
    next => exact ⟨rfl, rfl⟩
    next schedule hget =>
      obtain ⟨hrow, howner⟩ := owned_schedule hget
      split
      next task tasks schedules hrun =>
        obtain ⟨-, hi, rfl⟩ := runTaskScheduleNow_eq_ok hrun
        constructor
        · exact Table.filter_insert?_of_not (insertTask_eq_some hi).2
            (hneTask (congrArg some howner))
        · exact Table.filter_write_of_not hrow (hneSchedule howner) (hneSchedule howner)
      next => exact ⟨rfl, rfl⟩

/-- The identifiers of new rows are not in use. -/
def FreshIds (w : World) : Event → Prop
  | .createTask _ id _ | .createAgentTask _ id _ _ | .runTaskScheduleNow _ _ id _ =>
    w.tasks.get? id = none
  | .createTaskSchedule _ id _ => w.schedules.get? id = none
  | _ => True

/-- A request without the rows of other users that its first look-up has seen. -/
def ownEvent (u : UUID) : Event → Event
  | .createAgentTask userId id payload before =>
    .createAgentTask userId id payload (before.filter (ownTask u))
  | event => event

theorem own_write_task {task task' : Task} (hrow : w.tasks.get? task'.id = some task)
    (huser : task'.userId = task.userId) : own u (w.write task') = (own u w).write task' := by
  have hfilter : (w.tasks.write task').filter (ownTask u) =
      (w.tasks.filter (ownTask u)).write task' :=
    Table.filter_write hrow (by unfold ownTask; rw [huser])
  unfold own World.write
  simp only [hfilter]

theorem own_write_schedule {schedule schedule' : TaskSchedule}
    (hrow : w.schedules.get? schedule'.id = some schedule)
    (huser : schedule'.userId = schedule.userId) :
    own u { w with schedules := w.schedules.write schedule' } =
      { own u w with schedules := (own u w).schedules.write schedule' } := by
  have hfilter : (w.schedules.write schedule').filter (ownSchedule u) =
      (w.schedules.filter (ownSchedule u)).write schedule' :=
    Table.filter_write hrow (by unfold ownSchedule; rw [huser])
  unfold own
  simp only [hfilter]

/-- A request to the task and schedule routes needs the rows of its user only. -/
theorem own_routed {event : Event} (hw : ScheduleLinked w) (h : Routed u event)
    (hfresh : FreshIds w event) :
    own u (w.apply env now now' event) = (own u w).apply env now now' (ownEvent u event) := by
  cases event with
  | idle | recoverStaleRunningTasks | dispatchDueSchedules | claim | worker => exact h.elim
  | createTask userId id payload =>
    obtain rfl : userId = u := h
    have hown : createTask (own userId w).tasks (own userId w).conversations payload userId id now =
        (createTask w.tasks w.conversations payload userId id now).map
          fun tasks' => tasks'.filter (ownTask userId) := createTask_own hfresh
    simp only [World.apply, ownEvent, hown]
    cases createTask w.tasks w.conversations payload userId id now <;> rfl
  | createAgentTask userId id payload before =>
    obtain rfl : userId = u := h
    have hown : createAgentTask env (before.filter (ownTask userId)) (own userId w).tasks
        (own userId w).conversations payload userId id now now' =
        (createAgentTask env before w.tasks w.conversations payload userId id now now').map
          fun r => (r.1.filter (ownTask userId), r.2) := createAgentTask_own hfresh
    simp only [World.apply, ownEvent, hown]
    cases createAgentTask env before w.tasks w.conversations payload userId id now now' <;> rfl
  | updateTask userId taskId payload =>
    obtain rfl : userId = u := h
    have hown : getOwnedTask (own userId w).tasks taskId userId =
        getOwnedTask w.tasks taskId userId := getOwnedTask_own taskId
    simp only [World.apply, ownEvent, hown]
    cases hget : getOwnedTask w.tasks taskId userId with
    | none => rfl
    | some task =>
      obtain ⟨hrow, -⟩ := owned_task hget
      cases hu : updateTask task payload now with
      | error e => simp only [hu]
      | ok task' =>
        have hid := (updateTask_eq_ok hu).2.1
        simp only [hu]
        exact own_write_task (by rw [hid, hrow]) (userId_updateTask hu)
  | cancelTask userId taskId =>
    obtain rfl : userId = u := h
    have hown : getOwnedTask (own userId w).tasks taskId userId =
        getOwnedTask w.tasks taskId userId := getOwnedTask_own taskId
    simp only [World.apply, ownEvent, hown]
    cases hget : getOwnedTask w.tasks taskId userId with
    | none => rfl
    | some task =>
      obtain ⟨hrow, -⟩ := owned_task hget
      cases hc : cancelTask task now with
      | error e => simp only [hc]
      | ok task' =>
        simp only [hc]
        obtain ⟨-, rfl⟩ := cancelTask_eq_ok hc
        exact own_write_task hrow rfl
  | createTaskSchedule userId id payload =>
    obtain rfl : userId = u := h
    have hown : createTaskSchedule env (own userId w).schedules (own userId w).conversations payload
        userId id now =
        (createTaskSchedule env w.schedules w.conversations payload userId id now).map
          fun schedules' => schedules'.filter (ownSchedule userId) := createTaskSchedule_own hfresh
    simp only [World.apply, ownEvent, hown]
    cases createTaskSchedule env w.schedules w.conversations payload userId id now <;> rfl
  | updateTaskSchedule userId scheduleId payload =>
    obtain rfl : userId = u := h
    have hown : getOwnedSchedule (own userId w).schedules scheduleId userId =
        getOwnedSchedule w.schedules scheduleId userId := getOwnedSchedule_own scheduleId
    simp only [World.apply, ownEvent, hown]
    cases hget : getOwnedSchedule w.schedules scheduleId userId with
    | none => rfl
    | some schedule =>
      obtain ⟨hrow, -⟩ := owned_schedule hget
      cases hu : updateTaskSchedule env schedule payload now now' with
      | error e => simp only [hu]
      | ok schedule' =>
        simp only [hu]
        exact own_write_schedule (by rw [id_updateTaskSchedule hu, hrow])
          (userId_updateTaskSchedule hu)
  | runTaskScheduleNow userId scheduleId id manualKey =>
    obtain rfl : userId = u := h
    have hown : getOwnedSchedule (own userId w).schedules scheduleId userId =
        getOwnedSchedule w.schedules scheduleId userId := getOwnedSchedule_own scheduleId
    simp only [World.apply, ownEvent, hown]
    cases hget : getOwnedSchedule w.schedules scheduleId userId with
    | none => rfl
    | some schedule =>
      obtain ⟨hrow, howner⟩ := owned_schedule hget
      have hrun : runTaskScheduleNow (own userId w).tasks (own userId w).schedules schedule id
          manualKey now now' =
          (runTaskScheduleNow w.tasks w.schedules schedule id manualKey now now').map fun r =>
            (r.1,
              r.2.map fun p => (p.1.filter (ownTask userId), p.2.filter (ownSchedule userId))) :=
        runTaskScheduleNow_own hrow howner
          (fun task hmem hlink => howner ▸ hw.user hrow hmem hlink) hfresh
      simp only [hrun]
      rcases runTaskScheduleNow w.tasks w.schedules schedule id manualKey now now' with
        e | ⟨task, none | ⟨tasks, schedules⟩⟩ <;> rfl

/-! ### Requests to the conversation routes -/

/-- The messages of a user are those of its conversations. -/
theorem own_messages {conversations conversations' : Table Conversation} {messages : Table Message}
    (h : ∀ m ∈ messages.rows, (getOwnedConversation conversations' m.conversationId u).isSome =
      (getOwnedConversation conversations m.conversationId u).isSome) :
    (messages.filter fun m => (getOwnedConversation conversations' m.conversationId u).isSome) =
      messages.filter fun m => (getOwnedConversation conversations m.conversationId u).isSome := by
  apply Table.eq_of_rows
  exact List.filter_congr h

theorem getOwnedConversation_insert {conversations conversations' : Table Conversation}
    {conversation : Conversation} (hi : conversations.insert? conversation = some conversations')
    {c : UUID} (hc : (conversations.get? c).isSome) :
    getOwnedConversation conversations' c u = getOwnedConversation conversations c u := by
  have hne : ¬ Keyed.key conversation = c := by
    rintro rfl
    rw [Table.insert?_fresh hi] at hc
    cases hc
  unfold getOwnedConversation
  rw [Table.get?_insert? hi, if_neg hne]

theorem getOwnedConversation_write {conversations : Table Conversation}
    {conversation conversation' : Conversation}
    (hrow : conversations.get? conversation'.id = some conversation)
    (huser : conversation'.userId = conversation.userId) (c : UUID) :
    (getOwnedConversation (conversations.write conversation') c u).isSome =
      (getOwnedConversation conversations c u).isSome := by
  unfold getOwnedConversation
  rw [Table.get?_write, key_conversation]
  split_ifs with hid
  · subst hid
    rw [hrow, Option.map_some, Option.filter_some, Option.filter_some, huser]
    split_ifs <;> rfl
  · rfl

theorem getOwnedConversation_delete (conversations : Table Conversation) (c c' : UUID) :
    getOwnedConversation (conversations.delete c) c' u =
      if c' = c then none else getOwnedConversation conversations c' u := by
  unfold getOwnedConversation
  rw [Table.get?_delete]
  split_ifs <;> rfl

theorem own_createConversation (hlinked : Traffic.Linked w) {conversation : Conversation}
    {conversations : Table Conversation}
    (hi : w.conversations.insert? conversation = some conversations) :
    own u { w with conversations } =
      { own u w with conversations := conversations.filter (ownConversation u) } := by
  have hmessages := own_messages (u := u) fun m hm =>
    congrArg Option.isSome (getOwnedConversation_insert (u := u) hi (hlinked m hm))
  unfold own
  simp only [hmessages]

theorem own_updateConversation {conversation conversation' : Conversation}
    (hrow : w.conversations.get? conversation'.id = some conversation)
    (huser : conversation'.userId = conversation.userId) :
    own u { w with conversations := w.conversations.write conversation' } =
      { own u w with
        conversations := (w.conversations.write conversation').filter (ownConversation u) } := by
  have hmessages := @own_messages u _ _ w.messages fun m _ =>
    getOwnedConversation_write hrow huser m.conversationId
  unfold own
  simp only [hmessages]

theorem filter_unlinkTask {tasks : Table Task} {c : UUID} :
    (tasks.update (unlinkTask c) fun task => by simp).filter (ownTask u) =
      (tasks.filter (ownTask u)).update (unlinkTask c) fun task => by simp := by
  refine Table.filter_update fun task _ => ?_
  unfold unlinkTask
  split_ifs <;> rfl

theorem filter_unlinkSchedule {schedules : Table TaskSchedule} {c : UUID} :
    (schedules.update (unlinkSchedule c) fun s => by simp).filter (ownSchedule u) =
      (schedules.filter (ownSchedule u)).update (unlinkSchedule c) fun s => by simp := by
  refine Table.filter_update fun schedule _ => ?_
  unfold unlinkSchedule
  split_ifs <;> rfl

theorem filter_deletedMessages {conversations : Table Conversation} {messages : Table Message}
    {c : UUID} :
    ((messages.filter fun m => m.conversationId ≠ c).filter fun m =>
        (getOwnedConversation (conversations.delete c) m.conversationId u).isSome) =
      (messages.filter fun m =>
        (getOwnedConversation conversations m.conversationId u).isSome).filter
        fun m => m.conversationId ≠ c := by
  apply Table.eq_of_rows
  simp only [Table.rows_filter, List.filter_filter, getOwnedConversation_delete]
  refine List.filter_congr fun m _ => ?_
  by_cases hm : m.conversationId = c
  · simp [hm]
  · simp [hm]

theorem own_deleteConversation {records' : ConversationRecords} {c : UUID}
    (hd : deleteConversation (Traffic.records w) u c = .ok records') :
    own u (Traffic.withRecords w records') =
      match deleteConversation (Traffic.records (own u w)) u c with
      | .ok records => Traffic.withRecords (own u w) records
      | .error _ => own u w := by
  obtain ⟨howned, htasks, hschedules, hmessages, hconversations⟩ := deleteConversation_eq_ok hd
  obtain ⟨conversation, hget⟩ := Option.isSome_iff_exists.mp howned
  have hown : getOwnedConversation (Traffic.records (own u w)).conversations c u =
      some conversation := (getOwnedConversation_own c).trans hget
  simp only [deleteConversation, hown, cleanupConversationRecords]
  simp only [Traffic.withRecords, own, htasks, hschedules, hmessages, hconversations,
    Traffic.records, filter_unlinkTask, filter_unlinkSchedule, filter_deletedMessages,
    Table.filter_delete]

/-- A conversation that another user deletes. -/
theorem hidden_deleteConversation (h : Tied w) (hne : v ≠ u) {records' : ConversationRecords}
    {c : UUID} (hd : deleteConversation (Traffic.records w) v c = .ok records') :
    own u (Traffic.withRecords w records') = own u w := by
  obtain ⟨howned, htasks, hschedules, hmessages, hconversations⟩ := deleteConversation_eq_ok hd
  obtain ⟨conversation, hget⟩ := Option.isSome_iff_exists.mp howned
  obtain ⟨hrow, hid, howner⟩ := owned_conversation hget
  have hrow : w.conversations.get? c = some conversation := hid ▸ hrow
  have hother {owner : Option UUID} (hlink : OwnedBy w.conversations owner (some c)) :
      owner = some v := by
    have hsame := hlink c rfl
    rw [hrow, Option.map_some, howner] at hsame
    exact (Option.some.inj hsame).symm
  have htasks' : (w.tasks.filter (ownTask u)).update (unlinkTask c) (fun task => by simp) =
      w.tasks.filter (ownTask u) := by
    refine Table.update_of_fixed fun task hmem => if_neg fun hlink => ?_
    obtain ⟨hmem, howner'⟩ := Table.mem_filter.mp hmem
    have huser := hother (hlink ▸ h.tasks task hmem)
    rw [ownTask_iff.mp howner'] at huser
    exact hne (Option.some.inj huser).symm
  have hschedules' : (w.schedules.filter (ownSchedule u)).update (unlinkSchedule c)
      (fun s => by simp) = w.schedules.filter (ownSchedule u) := by
    refine Table.update_of_fixed fun schedule hmem => if_neg fun hlink => ?_
    obtain ⟨hmem, howner'⟩ := Table.mem_filter.mp hmem
    have huser := hother (hlink ▸ h.schedules schedule hmem)
    rw [ownSchedule_iff.mp howner'] at huser
    exact hne (Option.some.inj huser).symm
  have hnone : getOwnedConversation w.conversations c u = none := by
    unfold getOwnedConversation
    rw [hrow, Option.filter_some, howner, if_neg]
    simpa using hne
  have hmessages' : (w.messages.filter fun m =>
      (getOwnedConversation w.conversations m.conversationId u).isSome).filter
        (fun m => m.conversationId ≠ c) = w.messages.filter fun m =>
      (getOwnedConversation w.conversations m.conversationId u).isSome := by
    refine Table.filter_of_all fun m hmem => ?_
    obtain ⟨-, howned'⟩ := Table.mem_filter.mp hmem
    have hne : m.conversationId ≠ c := by
      rintro rfl
      rw [hnone] at howned'
      cases howned'
    simpa using hne
  have hconversations' : (w.conversations.filter (ownConversation u)).delete c =
      w.conversations.filter (ownConversation u) := by
    refine Table.delete_of_get?_none ?_
    rw [Table.get?_filter, hrow, Option.filter_some, if_neg]
    simpa [howner] using hne
  simp only [Traffic.withRecords, own, htasks, hschedules, hmessages, hconversations,
    Traffic.records, filter_unlinkTask, filter_unlinkSchedule, filter_deletedMessages,
    Table.filter_delete, htasks', hschedules', hmessages', hconversations']

/-! ### All requests -/

theorem hidden_perform (hw : Served w) {call : ApiCall} (hfresh : NewIds w call)
    (hne : call.userId ≠ u) : own u (perform env w call) = own u w := by
  obtain ⟨v, request, now, now'⟩ := call
  have routed {event : Event} (h : Routed v event) :
      own u (Traffic.apply env w now now' (.system event)) = own u w := by
    rw [apply_routed hw.tied.messages h]
    obtain ⟨htasks, hschedules⟩ := @hidden_routed env w u v now now' event h hne
    obtain ⟨hconversations, hmessages⟩ := @conversations_routed env w v now now' event h
    exact own_congr htasks hschedules hconversations hmessages
  cases request with
  | createTask | createAgentTask | updateTask | cancelTask | createTaskSchedule
  | updateTaskSchedule | runTaskScheduleNow => exact routed rfl
  | listTasks | getTask | getTaskEvents | listTaskSchedules | listConversations
  | listMessages => rfl
  | createConversation id title =>
    simp only [perform, event, Traffic.apply]
    split
    next conversations hi =>
      have hother : ownConversation u ⟨id, some v, title⟩ = false := by
        simpa [ownConversation] using hne
      rw [own_createConversation hw.tied.messages hi, Table.filter_insert?_of_not hi hother]
      rfl
    next => rfl
  | updateConversation c payload =>
    simp only [perform, event, Traffic.apply, updateConversation]
    cases hget : getOwnedConversation w.conversations c v with
    | none => rfl
    | some conversation =>
      obtain ⟨hrow, -, howner⟩ := owned_conversation hget
      have hother : ownConversation u conversation = false := by
        simpa [ownConversation, howner] using hne
      have hfilter :
        (w.conversations.write { conversation with title := strip payload.title }).filter
          (ownConversation u) = w.conversations.filter (ownConversation u) :=
        Table.filter_write_of_not hrow hother hother
      have hown := @own_updateConversation w u conversation
        { conversation with title := strip payload.title } hrow rfl
      simp only [hown, hfilter]
      rfl
  | deleteConversation c =>
    simp only [perform, event, Traffic.apply]
    split
    next records' hd => exact hidden_deleteConversation hw.tied hne hd
    next => rfl

theorem own_perform (hw : Served w) {call : ApiCall} (hfresh : NewIds w call)
    (huser : call.userId = u) :
    own u (perform env w call) = perform env (own u w) (call.own u) := by
  obtain ⟨v, request, now, now'⟩ := call
  obtain rfl : v = u := huser
  have routed {event : Event} (h : Routed v event) (h' : Routed v (ownEvent v event))
      (hfresh : FreshIds w event) :
      own v (Traffic.apply env w now now' (.system event)) =
        Traffic.apply env (own v w) now now' (.system (ownEvent v event)) := by
    rw [apply_routed hw.tied.messages h, apply_routed linked_own h']
    exact own_routed hw.scheduleLinked h hfresh
  cases request with
  | createTask | createAgentTask | updateTask | cancelTask | createTaskSchedule
  | updateTaskSchedule | runTaskScheduleNow => exact routed rfl rfl hfresh
  | listTasks | getTask | getTaskEvents | listTaskSchedules | listConversations
  | listMessages => rfl
  | createConversation id title =>
    have hown : createConversation (own v w).conversations v id title =
        (createConversation w.conversations v id title).map fun conversations' =>
          conversations'.filter (ownConversation v) := createConversation_own hfresh
    simp only [perform, ApiCall.own, event, Traffic.apply, hown]
    cases hc : createConversation w.conversations v id title with
    | none => rfl
    | some conversations => exact own_createConversation hw.tied.messages hc
  | updateConversation c payload =>
    have hown : updateConversation (own v w).conversations payload v c =
        (updateConversation w.conversations payload v c).map fun conversations' =>
          conversations'.filter (ownConversation v) := updateConversation_own
    simp only [perform, ApiCall.own, event, Traffic.apply, hown]
    simp only [updateConversation]
    cases hget : getOwnedConversation w.conversations c v with
    | none => rfl
    | some conversation =>
      obtain ⟨hrow, -, -⟩ := owned_conversation hget
      exact own_updateConversation hrow rfl
  | deleteConversation c =>
    simp only [perform, ApiCall.own, event, Traffic.apply]
    cases hd : deleteConversation (Traffic.records w) v c with
    | ok records' => exact own_deleteConversation hd
    | error e =>
      have hget : getOwnedConversation w.conversations c v = none := by
        unfold deleteConversation at hd
        split at hd
        next h => exact h
        next => cases hd
      have hown : getOwnedConversation (Traffic.records (own v w)).conversations c v = none :=
        (getOwnedConversation_own c).trans hget
      simp only [deleteConversation, hown]

theorem selected_own {R : Type} (c : Option UUID) {rows rows' : List R} (h : rows' = rows)
    (link : R → Option UUID) (answer : List R → ApiReply) :
    selected w u c rows link answer = selected (own u w) u c rows' link answer := by
  subst h
  unfold selected
  cases c with
  | none => rfl
  | some c =>
    have hown : getOwnedConversation (own u w).conversations c u =
        getOwnedConversation w.conversations c u := getOwnedConversation_own c
    simp only [hown]

/-- The reply to a request shows rows of its user only. -/
theorem reply_own (hw : Served w) {call : ApiCall} (hfresh : NewIds w call)
    (huser : call.userId = u) : reply env w call = reply env (own u w) (call.own u) := by
  obtain ⟨v, request, now, now'⟩ := call
  obtain rfl : v = u := huser
  have hownTask (id : UUID) : getOwnedTask (own v w).tasks id v = getOwnedTask w.tasks id v :=
    getOwnedTask_own id
  have hownSchedule (id : UUID) :
      getOwnedSchedule (own v w).schedules id v = getOwnedSchedule w.schedules id v :=
    getOwnedSchedule_own id
  have hownConversation (id : UUID) :
      getOwnedConversation (own v w).conversations id v =
        getOwnedConversation w.conversations id v :=
    getOwnedConversation_own id
  cases request with
  | createTask id payload =>
    have hown : createTask (own v w).tasks (own v w).conversations payload v id now =
        (createTask w.tasks w.conversations payload v id now).map
          fun tasks' => tasks'.filter (ownTask v) := createTask_own hfresh
    simp only [reply, ApiCall.own, hown]
    cases hc : createTask w.tasks w.conversations payload v id now with
    | error e => rfl
    | ok tasks =>
      obtain ⟨task, hi, rfl, howner⟩ := createTask_inserts hc
      have hget : tasks.get? task.id = some task :=
        (Table.get?_insert? (insertTask_eq_some hi).2 task.id).trans (if_pos rfl)
      simp only [Except.map]
      rw [Table.get?_filter, hget, Option.filter_some, if_pos (ownTask_iff.mpr howner)]
  | createAgentTask id payload before =>
    have hown : createAgentTask env (before.filter (ownTask v)) (own v w).tasks
        (own v w).conversations payload v id now now' =
        (createAgentTask env before w.tasks w.conversations payload v id now now').map
          fun r => (r.1.filter (ownTask v), r.2) := createAgentTask_own hfresh
    simp only [reply, ApiCall.own, hown]
    cases createAgentTask env before w.tasks w.conversations payload v id now now' <;> rfl
  | updateTask taskId payload => simp only [reply, ApiCall.own, hownTask]
  | cancelTask taskId => simp only [reply, ApiCall.own, hownTask]
  | createTaskSchedule id payload =>
    have hown :
      createTaskSchedule env (own v w).schedules (own v w).conversations payload v id now =
        (createTaskSchedule env w.schedules w.conversations payload v id now).map
          fun schedules' => schedules'.filter (ownSchedule v) := createTaskSchedule_own hfresh
    simp only [reply, ApiCall.own, hown]
    cases hc : createTaskSchedule env w.schedules w.conversations payload v id now with
    | error e => rfl
    | ok schedules =>
      obtain ⟨schedule, hi, rfl, howner⟩ := createTaskSchedule_inserts hc
      have hget : schedules.get? schedule.id = some schedule :=
        (Table.get?_insert? hi schedule.id).trans (if_pos rfl)
      simp only [Except.map]
      rw [Table.get?_filter, hget, Option.filter_some, if_pos (ownSchedule_iff.mpr howner)]
  | updateTaskSchedule scheduleId payload => simp only [reply, ApiCall.own, hownSchedule]
  | runTaskScheduleNow scheduleId id manualKey =>
    simp only [reply, ApiCall.own, hownSchedule]
    cases hget : getOwnedSchedule w.schedules scheduleId v with
    | none => rfl
    | some schedule =>
      obtain ⟨hrow, howner⟩ := owned_schedule hget
      have hrun : runTaskScheduleNow (own v w).tasks (own v w).schedules schedule id
          manualKey now now' =
          (runTaskScheduleNow w.tasks w.schedules schedule id manualKey now now').map fun r =>
            (r.1, r.2.map fun p => (p.1.filter (ownTask v), p.2.filter (ownSchedule v))) :=
        runTaskScheduleNow_own hrow howner
          (fun task hmem hlink => howner ▸ hw.scheduleLinked.user hrow hmem hlink) hfresh
      simp only [hrun]
      cases runTaskScheduleNow w.tasks w.schedules schedule id manualKey now now' <;> rfl
  | createConversation id title =>
    have hown : createConversation (own v w).conversations v id title =
        (createConversation w.conversations v id title).map fun conversations' =>
          conversations'.filter (ownConversation v) := createConversation_own hfresh
    simp only [reply, ApiCall.own, hown]
    cases hc : createConversation w.conversations v id title with
    | none => rfl
    | some conversations =>
      have hget : conversations.get? id = some ⟨id, some v, title⟩ :=
        (Table.get?_insert? hc id).trans (if_pos rfl)
      simp only [Option.map_some]
      rw [Table.get?_filter, hget, Option.filter_some, if_pos (ownConversation_iff.mpr rfl)]
  | updateConversation c payload =>
    have hown : updateConversation (own v w).conversations payload v c =
        (updateConversation w.conversations payload v c).map fun conversations' =>
          conversations'.filter (ownConversation v) := updateConversation_own
    simp only [reply, ApiCall.own, hown]
    simp only [updateConversation]
    cases hget : getOwnedConversation w.conversations c v with
    | none => rfl
    | some conversation =>
      obtain ⟨hrow, hid, howner⟩ := owned_conversation hget
      subst hid
      have hkeep : ownConversation v { conversation with title := strip payload.title } = true :=
        ownConversation_iff.mpr howner
      simp only [Except.map]
      rw [Table.get?_filter, Table.get?_write, key_conversation, if_pos rfl, hrow, Option.map_some,
        Option.filter_some, if_pos hkeep]
  | deleteConversation c =>
    have hown : getOwnedConversation (Traffic.records (own v w)).conversations c v =
        getOwnedConversation (Traffic.records w).conversations c v := hownConversation c
    simp only [reply, ApiCall.own, deleteConversation, hown]
    cases getOwnedConversation (Traffic.records w).conversations c v <;> rfl
  | listTasks c =>
    refine selected_own c ?_ _ _
    simp only [ApiCall.own, own, Table.rows_filter, List.filter_filter]
    congr 1
    refine List.filter_congr fun task _ => ?_
    exact Bool.and_self (ownTask v task)
  | getTask taskId => simp only [reply, ApiCall.own, hownTask]
  | getTaskEvents taskId => simp only [reply, ApiCall.own, hownTask]
  | listTaskSchedules c =>
    refine selected_own c ?_ _ _
    simp only [ApiCall.own, own, Table.rows_filter, List.filter_filter]
    refine List.filter_congr fun schedule _ => ?_
    exact Bool.and_self (ownSchedule v schedule)
  | listConversations =>
    simp only [reply, ApiCall.own, own, Table.rows_filter, List.filter_filter]
    congr 1
    refine List.filter_congr fun conversation _ => ?_
    exact (Bool.and_self (ownConversation v conversation)).symm
  | listMessages c =>
    simp only [reply, ApiCall.own, hownConversation]
    cases hget : getOwnedConversation w.conversations c v with
    | none => rfl
    | some conversation =>
      simp only [own, Table.rows_filter, List.filter_filter]
      congr 2
      refine List.filter_congr fun m _ => ?_
      by_cases hm : m.conversationId = c
      · simp [hm, hget]
      · simp [hm]

theorem separates (env : Environment) (u : UUID) :
    Isolation.Separates (perform env) (reply env) Served NewIds (own u)
      (fun call => call.userId = u) (ApiCall.own u) where
  keeps _ call hw _ := hw.perform call
  hidden _ _ hw hfresh hne := hidden_perform hw hfresh (by simpa using hne)
  commutes _ _ hw hfresh huser := own_perform hw hfresh (by simpa using huser)
  answered _ _ hw hfresh huser := reply_own hw hfresh (by simpa using huser)
  mine_own call := by rw [ApiCall.userId_own]

/-- Whatever the requests of all users are and in whichever order they come: the rows of a user and
the replies to it are those of its own requests on its own rows, as if nobody else were there. -/
theorem tenant_isolation (hw : Traffic.Reachable env w) {calls : List ApiCall}
    (hnew : Isolation.Granted (perform env) NewIds w calls) (u : UUID) :
    own u (Isolation.run (perform env) w calls) =
        Isolation.run (perform env) (own u w)
          ((calls.filter fun call => call.userId = u).map (ApiCall.own u)) ∧
      Isolation.answers (perform env) (reply env) (fun call => call.userId = u) w calls =
        Isolation.answers (perform env) (reply env) (fun call => call.userId = u) (own u w)
          ((calls.filter fun call => call.userId = u).map (ApiCall.own u)) :=
  (separates env u).purge (.of_reachable hw) hnew

/-- Requests of two users in turns. -/
def sampleCalls : List ApiCall :=
  [⟨2, .createConversation 50 "Plans", seconds 7, seconds 7⟩,
    ⟨1, .cancelTask 20, seconds 7, seconds 7⟩,
    ⟨2, .runTaskScheduleNow 11 51 52, seconds 8, seconds 8⟩,
    ⟨1, .deleteConversation 30, seconds 9, seconds 9⟩,
    ⟨2, .listConversations, seconds 9, seconds 9⟩, ⟨1, .listTasks none, seconds 9, seconds 9⟩]

theorem tenant_isolation_sample :
    Isolation.answers (perform sampleEnvironment) (reply sampleEnvironment)
        (fun call => call.userId = 2) Traffic.cancelledTraffic sampleCalls =
      Isolation.answers (perform sampleEnvironment) (reply sampleEnvironment)
        (fun call => call.userId = 2) (own 2 Traffic.cancelledTraffic)
        [⟨2, .createConversation 50 "Plans", seconds 7, seconds 7⟩,
          ⟨2, .runTaskScheduleNow 11 51 52, seconds 8, seconds 8⟩,
          ⟨2, .listConversations, seconds 9, seconds 9⟩] := by
  have hnew : Isolation.Granted (perform sampleEnvironment) NewIds Traffic.cancelledTraffic
      sampleCalls := ⟨rfl, trivial, rfl, trivial, trivial, trivial, trivial⟩
  exact (tenant_isolation Traffic.reachable_cancelledTraffic hnew 2).2

end Api

end AgentDemo
