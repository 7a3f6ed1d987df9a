import AgentDemo.Api.Conversations
import AgentDemo.System.TaskHistory

/-! The task system together with the conversation routes: conversations come and go while their
tasks are queued, run and end. -/
namespace AgentDemo

inductive TrafficEvent where
  | system (event : Event)
  | createConversation (userId id : UUID) (title : String)
  | updateConversation (userId conversationId : UUID) (payload : ConversationUpdate)
  | deleteConversation (userId conversationId : UUID)

/-- A transaction with its first and its last clock reading under the locks it holds. -/
structure TrafficAction where
  event : TrafficEvent
  now : Instant
  now' : Instant

def TrafficAction.ofAction (a : Action) : TrafficAction := ⟨.system a.event, a.now, a.now'⟩

namespace Traffic

/-- The foreign key of `messages`. -/
def Linked (w : World) : Prop :=
  ∀ m ∈ w.messages.rows, (w.conversations.get? m.conversationId).isSome

instance (w : World) : Decidable (Linked w) := inferInstanceAs (Decidable (∀ m ∈ _, _))

def records (w : World) : ConversationRecords :=
  ⟨w.tasks, w.schedules, w.messages, w.conversations⟩

def withRecords (w : World) (records : ConversationRecords) : World :=
  { w with
    tasks := records.tasks
    schedules := records.schedules
    messages := records.messages
    conversations := records.conversations }

/-- The database after a transaction. A message without a conversation is refused, and its
transaction leaves nothing behind. -/
def apply (env : Environment) (w : World) (now now' : Instant) : TrafficEvent → World
  | .system event =>
    let w' := w.apply env now now' event
    if Linked w' then w' else w
  | .createConversation userId id title =>
    match AgentDemo.createConversation w.conversations userId id title with
    | some conversations => { w with conversations }
    | none => w
  | .updateConversation userId conversationId payload =>
    match AgentDemo.updateConversation w.conversations payload userId conversationId with
    | .ok conversations => { w with conversations }
    | .error _ => w
  | .deleteConversation userId conversationId =>
    match AgentDemo.deleteConversation (records w) userId conversationId with
    | .ok records => withRecords w records
    | .error _ => w

/-- A worker gives a title to a conversation that it has read, unless it has been deleted since. -/
def Titles (w : World) : Event → Prop
  | .worker _ _ (.autoTitle conversation _) =>
    ∀ stored ∈ w.conversations.get? conversation.id, stored.userId = conversation.userId
  | _ => True

instance (w : World) : (event : Event) → Decidable (Titles w event)
  | .worker _ _ (.autoTitle conversation _) =>
    inferInstanceAs (Decidable (∀ stored ∈ w.conversations.get? conversation.id,
      stored.userId = conversation.userId))
  | .idle | .createTask .. | .createAgentTask .. | .updateTask .. | .cancelTask ..
  | .createTaskSchedule .. | .updateTaskSchedule .. | .runTaskScheduleNow ..
  | .recoverStaleRunningTasks .. | .dispatchDueSchedules .. | .claim ..
  | .worker _ _ .heartbeat | .worker _ _ (.recordEvent ..) | .worker _ _ (.dispatchTool _)
  | .worker _ _ (.recordMcpTaskEvent ..) | .worker _ _ (.saveMessage _)
  | .worker _ _ (.succeed ..) | .worker _ _ (.finishOrRetry ..) => instDecidableTrue

def Allowed (w : World) : TrafficEvent → Prop
  | .system event => w.Allowed event ∧ Titles w event
  | _ => True

instance (w : World) (event : TrafficEvent) : Decidable (Allowed w event) := by
  unfold Allowed
  split <;> infer_instance

def step (env : Environment) (w : World) (a : TrafficAction) : Option World :=
  if w.clock ≤ a.now ∧ a.now ≤ a.now' ∧ Allowed w a.event then
    some { apply env w a.now a.now' a.event with clock := a.now' }
  else none

def Reachable (env : Environment) (w : World) : Prop :=
  ∃ conversations clock, Transition.Reaches (Transition.ofStep (step env))
    (World.initial conversations clock) w

abbrev Later (env : Environment) : World → World → Prop :=
  Transition.Reaches (Transition.ofStep (step env))

variable {env : Environment} {w w' : World}

theorem step_eq_some {a : TrafficAction} (h : step env w a = some w') :
    w.clock ≤ a.now ∧ a.now ≤ a.now' ∧ Allowed w a.event ∧
      w' = { apply env w a.now a.now' a.event with clock := a.now' } := by
  unfold step at h
  split_ifs at h with hg
  exact ⟨hg.1, hg.2.1, hg.2.2, (Option.some.inj h).symm⟩

theorem Reachable.later (hw : Reachable env w) (h : Later env w w') : Reachable env w' := by
  obtain ⟨conversations, clock, hrun⟩ := hw
  exact ⟨conversations, clock, hrun.trans h⟩

theorem later_step {a : TrafficAction} (h : step env w a = some w') : Later env w w' :=
  .tail (.refl w) h

/-! ### One task -/

/-- A task stands still, takes a step of its own or loses its conversation. -/
inductive Drifts : TaskView → TaskView → Prop where
  | stays (v : TaskView) : Drifts v v
  | steps {v v' : TaskView} (h : TaskStep v v') : Drifts v v'
  | unlinks (task : Task) (es : List TaskEntry) (conversationId : UUID) :
      Drifts ⟨some task, es⟩ ⟨some (unlinkTask conversationId task), es⟩

theorem drifts_apply (env : Environment) (w : World) (now now' : Instant) {event : TrafficEvent}
    (hallowed : Allowed w event) (id : UUID) :
    Drifts (w.view id) ((apply env w now now' event).view id) := by
  have same {u : World} (h : u.view id = w.view id) : Drifts (w.view id) (u.view id) :=
    h ▸ .stays _
  cases event with
  | system event =>
    simp only [apply]
    split_ifs with hlinked
    · rcases World.advances_apply env w now now' event hallowed.1 id with heq | hs
      · exact same heq
      · exact .steps hs
    · exact same rfl
  | createConversation userId id' title =>
    simp only [apply]
    split <;> exact same rfl
  | updateConversation userId conversationId payload =>
    simp only [apply]
    split <;> exact same rfl
  | deleteConversation userId conversationId =>
    simp only [apply]
    cases hd : AgentDemo.deleteConversation (records w) userId conversationId with
    | error e => exact same rfl
    | ok after =>
      obtain ⟨-, htasks, -⟩ := deleteConversation_eq_ok hd
      have hget : after.tasks.get? id = (w.tasks.get? id).map (unlinkTask conversationId) := by
        rw [htasks, Table.get?_update]
        rfl
      have hview : (withRecords w after).view id =
          ⟨(w.tasks.get? id).map (unlinkTask conversationId), w.entries id⟩ := by
        rw [← hget]
        rfl
      simp only
      rw [hview]
      have hw : w.view id = ⟨w.tasks.get? id, w.entries id⟩ := rfl
      rw [hw]
      cases hrow : w.tasks.get? id with
      | none => exact .stays _
      | some task => exact .unlinks task (w.entries id) conversationId

theorem drifts_step {a : TrafficAction} (h : step env w a = some w') (id : UUID) :
    Drifts (w.view id) (w'.view id) := by
  obtain ⟨-, -, hallowed, rfl⟩ := step_eq_some h
  exact drifts_apply env w a.now a.now' hallowed id

/-- An invariant of single tasks holds of every task in every reachable state. -/
theorem Reachable.view_invariant {I : TaskView → Prop} (hw : Reachable env w) (h0 : I ⟨none, []⟩)
    (hstep : ∀ v v', I v → TaskStep v v' → I v')
    (hunlink : ∀ task es c, I ⟨some task, es⟩ → I ⟨some (unlinkTask c task), es⟩) (id : UUID) :
    I (w.view id) := by
  obtain ⟨conversations, clock, hrun⟩ := hw
  have h (u : World) (a : TrafficAction) (v : World) (hu : I (u.view id))
      (hv : step env u a = some v) : I (v.view id) := by
    generalize hbefore : u.view id = before at hu
    have hdrift := drifts_step hv id
    rw [hbefore] at hdrift
    generalize v.view id = after at hdrift ⊢
    cases hdrift with
    | stays => exact hu
    | steps hs => exact hstep _ _ hu hs
    | unlinks task es c => exact hunlink task es c hu
  exact hrun.invariant h0 h

/-- What the steps of a task and the loss of its conversation preserve lasts until any later state,
given an invariant `J` of single tasks; a task never disappears. -/
theorem Reachable.persists {P : Task → List TaskEntry → Prop} {J : TaskView → Prop}
    (hw : Reachable env w) (h : Later env w w') {task : Task} (hmem : task ∈ w.tasks.rows)
    (hJ : ∀ u, Reachable env u → J (u.view task.id)) (h0 : P task (w.entries task.id))
    (hstep : ∀ t es t' es', J ⟨some t, es⟩ → P t es → TaskStep ⟨some t, es⟩ ⟨some t', es'⟩ →
      P t' es')
    (hunlink : ∀ t es c, P t es → P (unlinkTask c t) es) :
    ∃ task', w'.tasks.get? task.id = some task' ∧ P task' (w'.entries task.id) := by
  have hs (u : World) (a : TrafficAction) (v : World) (hj : J (u.view task.id))
      (hu : ∃ t, (u.view task.id).row = some t ∧ P t (u.view task.id).entries)
      (hv : step env u a = some v) :
      ∃ t, (v.view task.id).row = some t ∧ P t (v.view task.id).entries := by
    generalize hbefore : u.view task.id = before at hj hu
    have hdrift := drifts_step hv task.id
    rw [hbefore] at hdrift
    generalize v.view task.id = after at hdrift ⊢
    obtain ⟨t, hrow, hP⟩ := hu
    cases hdrift with
    | stays => exact ⟨t, hrow, hP⟩
    | steps hs =>
      obtain ⟨row, es⟩ := before
      obtain rfl : row = some t := hrow
      obtain ⟨t', new, rfl, -⟩ := hs.frame
      exact ⟨t', rfl, hstep t es t' _ hj hP hs⟩
    | unlinks t₀ es c =>
      obtain rfl := Option.some.inj hrow
      exact ⟨_, rfl, hunlink t₀ es c hP⟩
  exact h.invariant_of (I := fun u => ∃ t, (u.view task.id).row = some t ∧
      P t (u.view task.id).entries) (J := fun u => J (u.view task.id))
    (fun u hu => hJ u (hw.later hu)) ⟨task, World.mem_rows_iff.mp hmem, h0⟩ hs

/-! Runs as lists of actions. -/

def ofRun (env : Environment) (as : List TrafficAction) : World :=
  (Transition.exec (step env) (World.initial .empty 0) as).getD (World.initial .empty 0)

theorem reachable_ofRun (as : List TrafficAction)
    (h : (Transition.exec (step env) (World.initial .empty 0) as).isSome) :
    Reachable env (ofRun env as) := by
  obtain ⟨w, hw⟩ := Option.isSome_iff_exists.mp h
  refine ⟨.empty, 0, ?_⟩
  rw [ofRun, hw, Option.getD_some]
  exact .of_exec as hw

/-- The state after some more actions, if all of them are enabled. -/
def after (env : Environment) (w : World) (as : List TrafficAction) : World :=
  (Transition.exec (step env) w as).getD w

theorem later_after (as : List TrafficAction) (h : (Transition.exec (step env) w as).isSome) :
    Later env w (after env w as) := by
  obtain ⟨w', hw⟩ := Option.isSome_iff_exists.mp h
  rw [after, hw, Option.getD_some]
  exact .of_exec as hw

end Traffic

end AgentDemo
