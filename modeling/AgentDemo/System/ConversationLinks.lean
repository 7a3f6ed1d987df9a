import AgentDemo.Library.TableFilter
import AgentDemo.System.ConversationOwners
import AgentDemo.System.TaskLifeCycle

/-! Tasks, schedules and messages name conversations that exist and belong to their user, also while
conversations are deleted. -/
namespace AgentDemo

structure Tied (w : World) : Prop where
  tasks : ∀ task ∈ w.tasks.rows, OwnedBy w.conversations task.userId task.conversationId
  schedules : ∀ schedule ∈ w.schedules.rows,
    OwnedBy w.conversations (some schedule.userId) schedule.conversationId
  messages : Traffic.Linked w

theorem Tied.owners {w : World} (h : Tied w) : Owners w :=
  ⟨fun task hmem _ => h.tasks task hmem, h.schedules⟩

theorem KeepsOwners.isSome {conversations conversations' : Table Conversation}
    (h : KeepsOwners conversations conversations') {c : UUID}
    (hc : (conversations.get? c).isSome) : (conversations'.get? c).isSome := by
  obtain ⟨conversation, hget⟩ := Option.isSome_iff_exists.mp hc
  have hkept := h c conversation.userId (by rw [hget, Option.map_some])
  cases hafter : conversations'.get? c with
  | none => simp [hafter] at hkept
  | some after => rfl

theorem createTask_owned {tasks tasks' : Table Task} {conversations : Table Conversation}
    {payload : TaskCreate} {userId id : UUID} {now : Instant}
    (h : createTask tasks conversations payload userId id now = .ok tasks') :
    ∃ task, insertTask tasks task = some tasks' ∧
      OwnedBy conversations task.userId task.conversationId := by
  unfold createTask at h
  split_ifs at h with hall
  split at h
  next hi =>
    cases Except.ok.inj h
    exact ⟨_, hi, ownedBy_of_all hall⟩
  next => cases h

namespace World

variable {env : Environment} {w : World} {now now' : Instant} {event : Event} {task' : Task}

/-- A manual task names the conversation that it was created with, which was one of its user. -/
theorem manual_owned (h : Tied w) (hsound : (w.view task'.id).Sound) (hallowed : w.Allowed event)
    (hk : task'.kind ≠ .agent) (hmem : task' ∈ (w.apply env now now' event).tasks.rows) :
    OwnedBy w.conversations task'.userId task'.conversationId := by
  by_cases hcreates : Event.Creates event
  · cases event with
    | createTask userId id payload =>
      simp only [apply] at hmem
      cases hc : createTask w.tasks w.conversations payload userId id now with
      | error e =>
        rw [hc] at hmem
        exact h.tasks task' hmem
      | ok tasks =>
        rw [hc] at hmem
        obtain ⟨task, hi, howned⟩ := createTask_owned hc
        rcases (mem_of_insertTask hi).mp hmem with hold | rfl
        · exact h.tasks task' hold
        · exact howned
    | createAgentTask userId id payload before =>
      simp only [apply] at hmem
      cases hc : createAgentTask env before w.tasks w.conversations payload userId id now now' with
      | error e =>
        rw [hc] at hmem
        exact h.tasks task' hmem
      | ok r =>
        rw [hc] at hmem
        rcases createAgentTask_eq_ok hc with heq | ⟨hrow, hi⟩
        · simp only [heq] at hmem
          exact h.tasks task' hmem
        · rcases (mem_of_insertTask hi).mp hmem with hold | rfl
          · exact h.tasks task' hold
          · rw [hrow] at hk
            exact absurd rfl hk
    | runTaskScheduleNow userId scheduleId id manualKey =>
      simp only [apply] at hmem
      cases hget : getOwnedSchedule w.schedules scheduleId userId with
      | none =>
        rw [hget] at hmem
        exact h.tasks task' hmem
      | some schedule =>
        simp only [hget] at hmem
        split at hmem
        next task tasks schedules hrun =>
          obtain ⟨-, hi, -⟩ := runTaskScheduleNow_eq_ok hrun
          rcases (mem_of_insertTask hi).mp hmem with hold | rfl
          · exact h.tasks task' hold
          · exact absurd rfl hk
        next => exact h.tasks task' hmem
    | dispatchDueSchedules time ids locked =>
      simp only [apply] at hmem
      cases hd : AgentDemo.dispatchDueSchedules env w.tasks w.schedules ids locked time now with
      | error e =>
        rw [hd] at hmem
        exact h.tasks task' hmem
      | ok batch =>
        rw [hd] at hmem
        rcases mem_of_dispatchLoop hd hmem with hold | ⟨schedule, hdue, -, huser, hconversation⟩
        · exact h.tasks task' hold
        · rw [huser, hconversation]
          exact h.schedules schedule (mem_dueSchedules hdue).1
    | _ => exact hcreates.elim
  · have hrow : ((w.apply env now now' event).view task'.id).row = some task' :=
      mem_rows_iff.mp hmem
    rcases moves_apply env w now now' hallowed hcreates task'.id with heq | ⟨hsome, hs⟩
    · rw [heq] at hrow
      exact h.tasks task' (mem_rows_iff.mpr hrow)
    · cases hbefore : (w.view task'.id).row with
      | none => exact absurd hbefore hsome
      | some task =>
        have hview : w.view task'.id = ⟨some task, w.entries task'.id⟩ := by
          rw [← hbefore]
          rfl
        rw [hview] at hs hsound
        obtain ⟨t, new, hafter, hframe⟩ := hs.frame
        rw [hafter] at hrow hs
        obtain rfl := Option.some.inj hrow
        have hkind : task.kind ≠ .agent := hframe.kind ▸ hk
        obtain ⟨-, time, hmoved⟩ := (hsound.manual task rfl hkind).1.step hkind hs
        rw [hmoved.userId, hmoved.conversationId]
        exact h.tasks task (Table.get?_eq_some.mp hbefore).1

end World

namespace Traffic

variable {env : Environment} {w w' : World} {now now' : Instant}

/-- The writes of a worker that gives a title to a deleted conversation leave every row alone. -/
theorem autoTitle_missing {runner : AgentTaskRunner} {lease : TaskLease}
    {conversation : Conversation} {title : String}
    (hmissing : w.conversations.get? conversation.id = none) :
    ∃ es, w.apply env now now' (.worker runner lease (.autoTitle conversation title)) =
      w.log lease.taskId es := by
  simp only [World.apply, World.work]
  cases ha : autoTitleConversation w.tasks (some lease) conversation title now with
  | error e => exact ⟨[], rfl⟩
  | ok retitled =>
    have hid : retitled.id = conversation.id := by
      unfold autoTitleConversation at ha
      split at ha
      · cases ha
      · obtain rfl := Except.ok.inj ha
        rfl
    refine ⟨[.accepted lease.token now], ?_⟩
    simp only
    rw [Table.write_of_get?_none (by rw [key_conversation, hid]; exact hmissing)]

theorem tied_system (h : Tied w) (hsound : ∀ id, (w.view id).Sound) {event : Event}
    (hallowed : Allowed w (.system event)) (hlinked : Linked (w.apply env now now' event)) :
    Tied (w.apply env now now' event) := by
  have retitled (htitle : w.Retitles event) : Tied (w.apply env now now' event) := by
    have hkeep := World.keepsOwners_apply env now now' htitle
    have howners := World.owners_apply h.owners env now now' htitle
    refine ⟨fun task' hmem => ?_, howners.schedules, hlinked⟩
    by_cases hk : task'.kind = .agent
    · exact howners.tasks task' hmem hk
    · exact (World.manual_owned h (hsound task'.id) hallowed.1 hk hmem).mono hkeep
  cases event with
  | worker runner lease action =>
    cases action with
    | autoTitle conversation title =>
      cases hget : w.conversations.get? conversation.id with
      | some stored =>
        refine retitled ?_
        rw [World.Retitles, hget, Option.map_some, hallowed.2 stored hget]
      | none =>
        obtain ⟨es, hlog⟩ := @autoTitle_missing env w now now' runner lease conversation title hget
        rw [hlog]
        exact ⟨h.tasks, h.schedules, h.messages⟩
    | _ => exact retitled trivial
  | _ => exact retitled trivial

/-- A link that is not cut still leads to a conversation after another one has been deleted. -/
theorem ownedBy_delete {conversations : Table Conversation} {userId link : Option UUID} {c : UUID}
    (h : OwnedBy conversations userId link) (hne : link ≠ some c) :
    OwnedBy (conversations.delete c) userId link := by
  rintro d rfl
  rw [Table.get?_delete, if_neg (fun heq => hne (congrArg some heq))]
  exact h d rfl

theorem tied_delete (h : Tied w) {records' : ConversationRecords} {userId c : UUID}
    (hd : deleteConversation (records w) userId c = .ok records') :
    Tied (withRecords w records') := by
  obtain ⟨-, htasks, hschedules, hmessages, hconversations⟩ := deleteConversation_eq_ok hd
  constructor
  case tasks =>
    intro task' hmem
    simp only [withRecords, htasks, hconversations] at hmem ⊢
    obtain ⟨task, hrow, rfl⟩ := Table.mem_update.mp hmem
    unfold unlinkTask
    split_ifs with hlink
    · intro d hd
      cases hd
    · exact ownedBy_delete (h.tasks task hrow) hlink
  case schedules =>
    intro schedule' hmem
    simp only [withRecords, hschedules, hconversations] at hmem ⊢
    obtain ⟨schedule, hrow, rfl⟩ := Table.mem_update.mp hmem
    unfold unlinkSchedule
    split_ifs with hlink
    · intro d hd
      cases hd
    · exact ownedBy_delete (h.schedules schedule hrow) hlink
  case messages =>
    intro m hmem
    simp only [withRecords, hmessages, hconversations] at hmem ⊢
    obtain ⟨hrow, hne⟩ := Table.mem_filter.mp hmem
    rw [Table.get?_delete, if_neg (by simpa using hne)]
    exact h.messages m hrow

theorem tied_conversations (h : Tied w) {conversations : Table Conversation}
    (hkeep : KeepsOwners w.conversations conversations) : Tied { w with conversations } where
  tasks task hmem := (h.tasks task hmem).mono hkeep
  schedules schedule hmem := (h.schedules schedule hmem).mono hkeep
  messages m hmem := hkeep.isSome (h.messages m hmem)

theorem keepsOwners_updateConversation {conversations conversations' : Table Conversation}
    {payload : ConversationUpdate} {userId conversationId : UUID}
    (h : updateConversation conversations payload userId conversationId = .ok conversations') :
    KeepsOwners conversations conversations' := by
  unfold updateConversation at h
  cases hget : getOwnedConversation conversations conversationId userId with
  | none => simp [hget] at h
  | some conversation =>
    simp only [hget, Except.ok.injEq] at h
    subst h
    have hrow := (Option.filter_eq_some_iff.mp hget).1
    obtain rfl : conversation.id = conversationId := (Table.get?_eq_some.mp hrow).2
    exact keepsOwners_write (by rw [hrow, Option.map_some])

/-- One transaction keeps the links. -/
theorem tied_apply (h : Tied w) (hsound : ∀ id, (w.view id).Sound) {event : TrafficEvent}
    (hallowed : Allowed w event) : Tied (apply env w now now' event) := by
  cases event with
  | system event =>
    simp only [apply]
    split_ifs with hlinked
    · exact tied_system h hsound hallowed hlinked
    · exact h
  | createConversation userId id title =>
    simp only [apply]
    cases hc : AgentDemo.createConversation w.conversations userId id title with
    | none => exact h
    | some conversations => exact tied_conversations h (keepsOwners_insert hc)
  | updateConversation userId conversationId payload =>
    simp only [apply]
    cases hu : AgentDemo.updateConversation w.conversations payload userId conversationId with
    | error e => exact h
    | ok conversations => exact tied_conversations h (keepsOwners_updateConversation hu)
  | deleteConversation userId conversationId =>
    simp only [apply]
    cases hd : AgentDemo.deleteConversation (records w) userId conversationId with
    | error e => exact h
    | ok after => exact tied_delete h hd

/-- In every reachable state a task or a schedule names a conversation of its own user or none, and
every message belongs to a conversation. -/
theorem Reachable.tied (hw : Reachable env w) : Tied w := by
  obtain ⟨conversations, clock, hrun⟩ := hw
  refine hrun.invariant_of (I := Tied) (J := Reachable env)
    (fun u hu => ⟨conversations, clock, hu⟩) ?_ ?_
  · exact ⟨fun task hmem => (by cases hmem), fun s hmem => (by cases hmem),
      fun m hmem => (by cases hmem)⟩
  · intro u a v hu htied hv
    obtain ⟨-, -, hallowed, rfl⟩ := step_eq_some hv
    have hafter := @tied_apply env u a.now a.now' htied hu.sound a.event hallowed
    exact ⟨hafter.tasks, hafter.schedules, hafter.messages⟩

/-! ### Deletion is final -/

/-- The transactions that open a conversation with this identifier. -/
def Opens (c : UUID) : TrafficEvent → Prop
  | .createConversation _ id _ => id = c
  | .system (.claim _ _ id _) => id = c
  | _ => False

theorem missing_claim {runner : AgentTaskRunner} {taskId conversationId token c : UUID}
    (h : w.conversations.get? c = none) (hne : conversationId ≠ c) :
    (w.claim runner taskId conversationId token now now').conversations.get? c = none := by
  unfold World.claim
  cases hget : w.tasks.get? taskId with
  | none => exact h
  | some task =>
    simp only
    cases hc : runner.claim task conversationId token now now' with
    | skipped => exact h
    | failed task' => exact h
    | deferred at' => exact h
    | started task' lease timeout conversation =>
      cases conversation with
      | none => exact h
      | some conversation =>
        cases hi : w.conversations.insert? conversation with
        | none =>
          simp only [hi]
          exact h
        | some conversations =>
          have hopened := (conversation_of_started hc).2 conversation rfl
          have hrows : (conversations.get? c) = none := by
            rw [Table.get?_insert? hi, key_conversation, hopened, if_neg hne]
            exact h
          simp only [hi]
          exact hrows

theorem missing_work {runner : AgentTaskRunner} {lease : TaskLease} {action : WorkerAction}
    {c : UUID} (h : w.conversations.get? c = none) :
    (w.work runner lease now now' action).conversations.get? c = none := by
  have same {t : Table Conversation} (ht : t = w.conversations) : t.get? c = none := ht ▸ h
  cases action with
  | heartbeat =>
    refine same (World.conversations_underLease fun task => ?_)
    cases runner.heartbeat task now' <;> rfl
  | recordEvent eventType data => exact same (World.conversations_underLease fun task => rfl)
  | succeed donePayload answerParts conversationId =>
    exact same (World.conversations_underLease fun task => rfl)
  | finishOrRetry error retryable wait =>
    exact same (World.conversations_underLease fun task => rfl)
  | dispatchTool tool =>
    simp only [World.work]
    split <;> exact h
  | recordMcpTaskEvent eventType tool payload progress =>
    simp only [World.work]
    split <;> exact h
  | saveMessage message =>
    simp only [World.work]
    split
    · exact h
    · exact h
    · split
      · exact h
      · split <;> exact h
  | autoTitle conversation title =>
    simp only [World.work]
    split
    · exact h
    next retitled _ =>
      have hrow : (w.conversations.write retitled).get? c = none := by
        rw [Table.get?_write, h]
        simp
      exact hrow

theorem missing_apply {event : TrafficEvent} {c : UUID} (h : w.conversations.get? c = none)
    (hne : ¬ Opens c event) : (apply env w now now' event).conversations.get? c = none := by
  cases event with
  | system event =>
    simp only [apply]
    split_ifs with hlinked
    · cases event with
      | claim runner taskId conversationId token => exact missing_claim h hne
      | worker runner lease action => exact missing_work h
      | idle => exact h
      | recoverStaleRunningTasks time locked => exact h
      | _ =>
        simp only [World.apply]
        (repeat' split) <;> exact h
    · exact h
  | createConversation userId id title =>
    simp only [apply]
    cases hc : AgentDemo.createConversation w.conversations userId id title with
    | none => exact h
    | some conversations =>
      simp only
      rw [Table.get?_insert? hc, key_conversation, if_neg (show ¬ id = c from hne)]
      exact h
  | updateConversation userId conversationId payload =>
    simp only [apply]
    cases hu : AgentDemo.updateConversation w.conversations payload userId conversationId with
    | error e => exact h
    | ok conversations =>
      unfold AgentDemo.updateConversation at hu
      split at hu
      · cases hu
      · obtain rfl := Except.ok.inj hu
        simp only
        rw [Table.get?_write, h]
        simp
  | deleteConversation userId conversationId =>
    simp only [apply]
    cases hd : AgentDemo.deleteConversation (records w) userId conversationId with
    | error e => exact h
    | ok after =>
      obtain ⟨-, -, -, -, hconversations⟩ := deleteConversation_eq_ok hd
      simp only [withRecords, hconversations]
      rw [Table.get?_delete]
      split_ifs
      · rfl
      · exact h

/-- No row names the conversation. -/
structure Forgotten (c : UUID) (w : World) : Prop where
  conversations : w.conversations.get? c = none
  tasks : ∀ task ∈ w.tasks.rows, task.conversationId ≠ some c
  schedules : ∀ schedule ∈ w.schedules.rows, schedule.conversationId ≠ some c
  messages : ∀ m ∈ w.messages.rows, m.conversationId ≠ c

theorem Forgotten.of_tied {c : UUID} (h : Tied w) (hc : w.conversations.get? c = none) :
    Forgotten c w where
  conversations := hc
  tasks task hmem hlink := by
    have howned := h.tasks task hmem c hlink
    simp [hc] at howned
  schedules schedule hmem hlink := by
    have howned := h.schedules schedule hmem c hlink
    simp [hc] at howned
  messages m hmem hlink := by
    have hsome := h.messages m hmem
    simp [hlink, hc] at hsome

/-- The rows that do not belong to the user or to the conversation are all kept. -/
structure Untouched (u c : UUID) (w w' : World) : Prop where
  tasks : ∀ task ∈ w.tasks.rows, task.userId ≠ some u ∨ task.conversationId ≠ some c →
    task ∈ w'.tasks.rows
  schedules : ∀ schedule ∈ w.schedules.rows,
    schedule.userId ≠ u ∨ schedule.conversationId ≠ some c → schedule ∈ w'.schedules.rows
  messages : ∀ m ∈ w.messages.rows, m.conversationId ≠ c → m ∈ w'.messages.rows
  conversations : ∀ d ∈ w.conversations.rows, d.id ≠ c → d ∈ w'.conversations.rows

theorem untouched_delete (h : Tied w) {records' : ConversationRecords} {u c : UUID}
    (hd : deleteConversation (records w) u c = .ok records') :
    Untouched u c w (withRecords w records') := by
  obtain ⟨howned, htasks, hschedules, hmessages, hconversations⟩ := deleteConversation_eq_ok hd
  obtain ⟨conversation, hget⟩ := Option.isSome_iff_exists.mp howned
  obtain ⟨hrow, howner⟩ := Option.filter_eq_some_iff.mp hget
  have howner : conversation.userId = some u := by simpa using howner
  have hrow : w.conversations.get? c = some conversation := hrow
  constructor
  case tasks =>
    intro task hmem hother
    have hlink : task.conversationId ≠ some c := by
      rintro hlink
      have hsame := h.tasks task hmem c hlink
      rw [hrow, Option.map_some, howner] at hsame
      exact hother.elim (fun hne => hne (Option.some.inj hsame).symm) (fun hne => hne hlink)
    simp only [withRecords, htasks]
    exact Table.mem_update.mpr ⟨task, hmem, if_neg hlink⟩
  case schedules =>
    intro schedule hmem hother
    have hlink : schedule.conversationId ≠ some c := by
      rintro hlink
      have hsame := h.schedules schedule hmem c hlink
      rw [hrow, Option.map_some, howner] at hsame
      exact hother.elim (fun hne => hne (Option.some.inj (Option.some.inj hsame)).symm)
        (fun hne => hne hlink)
    simp only [withRecords, hschedules]
    exact Table.mem_update.mpr ⟨schedule, hmem, if_neg hlink⟩
  case messages =>
    intro m hmem hne
    simp only [withRecords, hmessages]
    exact Table.mem_filter.mpr ⟨hmem, by simpa using hne⟩
  case conversations =>
    intro d hmem hne
    simp only [withRecords, hconversations]
    exact Table.mem_delete.mpr ⟨hmem, hne⟩

/-- A conversation that its owner has deleted is gone for good: no row of the system ever names it
again, and the deletion has kept every other row as it was. -/
theorem deleted_conversation (hw : Reachable env w) {u c : UUID}
    (howned : (getOwnedConversation w.conversations c u).isSome) {w₁ w₂ : World}
    (hdelete : step env w ⟨.deleteConversation u c, now, now'⟩ = some w₁)
    (hl : Transition.Reaches (Transition.Restrict (Transition.ofStep (step env))
      fun _ a => ¬ Opens c a.event) w₁ w₂) :
    Untouched u c w w₁ ∧ Forgotten c w₂ := by
  have htied := hw.tied
  have hw₁ := hw.later (later_step hdelete)
  obtain ⟨-, -, -, rfl⟩ := step_eq_some hdelete
  obtain ⟨conversation, hget⟩ := Option.isSome_iff_exists.mp howned
  have hd : ∃ records', deleteConversation (records w) u c = .ok records' := by
    unfold deleteConversation
    have hget : getOwnedConversation (records w).conversations c u = some conversation := hget
    rw [hget]
    exact ⟨_, rfl⟩
  obtain ⟨records', hd⟩ := hd
  have hkept := untouched_delete htied hd
  obtain ⟨-, -, -, -, hconversations⟩ := deleteConversation_eq_ok hd
  simp only [apply, hd] at hl hw₁ ⊢
  have hgone : w₂.conversations.get? c = none := by
    refine hl.invariant (I := fun v => v.conversations.get? c = none) ?_ ?_
    · simp only [withRecords, hconversations]
      rw [Table.get?_delete, if_pos rfl]
    · rintro s a t hs ⟨hst, hne⟩
      obtain ⟨-, -, -, rfl⟩ := step_eq_some hst
      exact @missing_apply env s a.now a.now' a.event c hs hne
  refine ⟨⟨hkept.tasks, hkept.schedules, hkept.messages, hkept.conversations⟩, ?_⟩
  exact .of_tied (hw₁.later hl.of_restrict).tied hgone

/-- The conversation that the first attempt has opened is deleted; then its task is cancelled once
more, and a claim opens another one. -/
theorem deleted_conversation_sample : ∃ w₁ w₂ w₃,
    step sampleEnvironment cancelledTraffic ⟨.deleteConversation 1 30, seconds 6, seconds 6⟩ =
      some w₁ ∧
    step sampleEnvironment w₁ (.ofAction ⟨.cancelTask 1 20, seconds 7, seconds 7⟩) = some w₂ ∧
    step sampleEnvironment w₂ (.ofAction ⟨.claim sampleRunner 20 31 41, seconds 8, seconds 8⟩) =
      some w₃ ∧
    Untouched 1 30 cancelledTraffic w₁ ∧ Forgotten 30 w₃ := by
  have hrun : ((step sampleEnvironment cancelledTraffic
      ⟨.deleteConversation 1 30, seconds 6, seconds 6⟩).bind fun w₁ =>
        (step sampleEnvironment w₁ (.ofAction ⟨.cancelTask 1 20, seconds 7, seconds 7⟩)).bind
          fun w₂ => step sampleEnvironment w₂
            (.ofAction ⟨.claim sampleRunner 20 31 41, seconds 8, seconds 8⟩)).isSome := by
    decide
  obtain ⟨w₃, hrun⟩ := Option.isSome_iff_exists.mp hrun
  obtain ⟨w₁, hdelete, hrun⟩ := Option.bind_eq_some_iff.mp hrun
  obtain ⟨w₂, hcancel, hclaim⟩ := Option.bind_eq_some_iff.mp hrun
  obtain ⟨huntouched, hforgotten⟩ := deleted_conversation reachable_cancelledTraffic (by decide)
    hdelete (((Transition.Reaches.refl w₁).tail ⟨hcancel, id⟩).tail
      ⟨hclaim, fun hopens : (31 : UUID) = 30 => absurd hopens (by decide)⟩)
  exact ⟨w₁, w₂, w₃, hdelete, hcancel, hclaim, huntouched, hforgotten⟩

/-- In every reachable state a task or a schedule that names a conversation names one of its own
user, and every message belongs to a conversation that is there. -/
theorem conversation_links (hw : Reachable env w) :
    (∀ task ∈ w.tasks.rows, ∀ c, task.conversationId = some c →
      ∃ conversation ∈ w.conversations.rows, conversation.id = c ∧
        conversation.userId = task.userId) ∧
    (∀ schedule ∈ w.schedules.rows, ∀ c, schedule.conversationId = some c →
      ∃ conversation ∈ w.conversations.rows, conversation.id = c ∧
        conversation.userId = some schedule.userId) ∧
    ∀ m ∈ w.messages.rows, ∃ conversation ∈ w.conversations.rows,
      conversation.id = m.conversationId := by
  have row {c : UUID} {owner : Option UUID}
      (h : (w.conversations.get? c).map Conversation.userId = some owner) :
      ∃ conversation ∈ w.conversations.rows, conversation.id = c ∧ conversation.userId = owner := by
    obtain ⟨conversation, hget, howner⟩ := Option.map_eq_some_iff.mp h
    obtain ⟨hmem, hid⟩ := Table.get?_eq_some.mp hget
    exact ⟨conversation, hmem, hid, howner⟩
  refine ⟨fun task hmem c hc => row (hw.tied.tasks task hmem c hc),
    fun schedule hmem c hc => row (hw.tied.schedules schedule hmem c hc), fun m hmem => ?_⟩
  obtain ⟨conversation, hget⟩ := Option.isSome_iff_exists.mp (hw.tied.messages m hmem)
  obtain ⟨hrow, hid⟩ := Table.get?_eq_some.mp hget
  exact ⟨conversation, hrow, hid⟩

theorem conversation_links_sample : ∃ conversation ∈ cancelledTraffic.conversations.rows,
    conversation.id = 30 ∧ conversation.userId = cancelledTask.userId :=
  (conversation_links reachable_cancelledTraffic).1 cancelledTask cancelledTask_mem 30 (by decide)

end Traffic

end AgentDemo
