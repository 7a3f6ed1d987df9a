import AgentDemo.System.SavedAnswer

/-! The messages of a task's turn: however often its attempts save the prompt and the answer, each
is written once. -/
namespace AgentDemo

/-- An attempt saves its answer in the one conversation of its run. -/
def SavesIn (conversationOf : UUID → UUID) : Event → Prop
  | .worker _ lease (.saveMessage message) =>
    message.role = .assistant → message.conversationId = conversationOf lease.token
  | _ => True

namespace World

variable {env : Environment} {w w' : World} {now now' : Instant}

/-- What a call of `_save_message` commits. -/
theorem saved_of_work (runner : AgentTaskRunner) (lease : TaskLease) (message : Message) :
    (w.work runner lease now now' (.saveMessage message)).messages = w.messages ∨
    ∃ task, w.tasks.get? lease.taskId = some task ∧
      savedMessage w.messages message.conversationId message.role lease.taskId = none ∧
      w.messages.insert? (message.ofTask lease.taskId) =
        some (w.work runner lease now now' (.saveMessage message)).messages ∧
      (message.role = .assistant →
        .answered lease.token ∈
          (w.work runner lease now now' (.saveMessage message)).entries lease.taskId ∧
        (w.work runner lease now now' (.saveMessage message)).tasks.get? lease.taskId =
          some (blockReplay task "Assistant answer saved" now')) := by
  cases hs : saveMessage w.tasks w.messages (some lease) message now now' with
  | error e =>
    left
    simp only [work, hs]
  | ok r =>
    obtain ⟨task, hget, hold, hsaves⟩ := saveMessage_eq_ok hs
    rw [← hold.id]
    cases hsaves with
    | nothing found =>
      left
      simp only [work, hs]
      rfl
    | other missing role =>
      cases hi : w.messages.insert? (message.ofTask task.id) with
      | none =>
        left
        simp only [work, hs, hi]
      | some messages =>
        refine Or.inr ⟨task, hold.id ▸ hget, missing, ?_, fun hassistant => absurd hassistant role⟩
        simp only [work, hs, hi]
        rfl
    | answer missing role =>
      cases hi : w.messages.insert? (message.ofTask task.id) with
      | none =>
        left
        simp only [work, hs, hi]
      | some messages =>
        refine Or.inr ⟨task, hold.id ▸ hget, missing, ?_, fun _ => ?_⟩
        · simp only [work, hs, hi]
          rfl
        · simp only [work, hs, hi]
          rw [hold.id]
          constructor
          · simp
          · show (w.tasks.write _).get? lease.taskId = _
            rw [Table.get?_write, hget]
            exact if_pos hold.id

/-- A message of a task is alone in its conversation and role, and an answer is one of an attempt
that has its conversation. -/
structure TurnsWritten (conversationOf : UUID → UUID) (w : World) : Prop where
  once : ∀ m ∈ w.messages.rows, ∀ m' ∈ w.messages.rows, ∀ taskId,
    m.metadata.agentTaskId = some taskId → m'.metadata.agentTaskId = some taskId →
      m.role = m'.role → m.conversationId = m'.conversationId → m = m'
  answers : ∀ m ∈ w.messages.rows, ∀ taskId, m.Answers taskId →
    ∃ lease ∈ w.leases, lease.taskId = taskId ∧ .answered lease.token ∈ w.entries taskId ∧
      m.conversationId = conversationOf lease.token

theorem mem_leases_step {a : Action} (h : step env w a = some w') {lease : TaskLease}
    (hlease : lease ∈ w.leases) : lease ∈ w'.leases := by
  rcases leases_step h with heq | ⟨fresh, heq, -⟩
  · rwa [heq]
  · rw [heq]
    exact List.mem_cons_of_mem fresh hlease

theorem TurnsWritten.mono {conversationOf : UUID → UUID} {a : Action}
    (h : TurnsWritten conversationOf w) (hstep : step env w a = some w')
    (hmessages : w'.messages = w.messages) : TurnsWritten conversationOf w' where
  once := by
    rw [hmessages]
    exact h.once
  answers m hm taskId hanswers := by
    rw [hmessages] at hm
    obtain ⟨lease, hlease, htask, hentry, hconversation⟩ := h.answers m hm taskId hanswers
    exact ⟨lease, mem_leases_step hstep hlease, htask, entries_step hstep taskId _ hentry,
      hconversation⟩

/-- The message of a task that a call has not found. -/
theorem not_saved {messages : Table Message} {conversationId taskId : UUID} {role : MessageRole}
    (h : savedMessage messages conversationId role taskId = none) {m : Message}
    (hm : m ∈ messages.rows) (htask : m.metadata.agentTaskId = some taskId)
    (hrole : m.role = role) :
    m.conversationId ≠ conversationId := by
  have hnot := List.find?_eq_none.mp h m hm
  simpa [htask, hrole] using hnot

theorem TurnsWritten.save {conversationOf : UUID → UUID} {runner : AgentTaskRunner}
    {lease : TaskLease} {message : Message} (h : TurnsWritten conversationOf w)
    (hcall : SavesIn conversationOf (.worker runner lease (.saveMessage message)))
    (hstep : step env w ⟨.worker runner lease (.saveMessage message), now, now'⟩ = some w') :
    TurnsWritten conversationOf w' := by
  obtain ⟨-, -, hallowed, hw'⟩ := step_eq_some hstep
  have hmessages :
    w'.messages = (w.work runner lease now now' (.saveMessage message)).messages := by
    rw [hw']
    rfl
  have hentries : w'.entries lease.taskId =
      (w.work runner lease now now' (.saveMessage message)).entries lease.taskId := by
    rw [hw']
    rfl
  rcases @saved_of_work w now now' runner lease message with hsame |
    ⟨task, hget, hnone, hinsert, hanswer⟩
  · exact h.mono hstep (hmessages.trans hsame)
  · have hrows := Table.rows_insert? hinsert
    rw [← hmessages] at hrows
    have hnew : ∀ m ∈ w.messages.rows, ∀ taskId, m.metadata.agentTaskId = some taskId →
        some lease.taskId = some taskId → m.role = message.role →
          m.conversationId ≠ message.conversationId := by
      intro m hm taskId htask htask' hrole
      exact not_saved hnone hm (htask.trans htask'.symm) hrole
    constructor
    · intro m hm m' hm' taskId htask htask' hrole hconversation
      rw [hrows] at hm hm'
      rcases List.mem_append.mp hm with hm | hm
      · rcases List.mem_append.mp hm' with hm' | hm'
        · exact h.once m hm m' hm' taskId htask htask' hrole hconversation
        · obtain rfl := List.mem_singleton.mp hm'
          exact absurd hconversation (hnew m hm taskId htask htask' hrole)
      · obtain rfl := List.mem_singleton.mp hm
        rcases List.mem_append.mp hm' with hm' | hm'
        · exact absurd hconversation.symm (hnew m' hm' taskId htask' htask hrole.symm)
        · exact (List.mem_singleton.mp hm').symm
    · intro m hm taskId hanswers
      rw [hrows] at hm
      rcases List.mem_append.mp hm with hm | hm
      · obtain ⟨lease', hlease', htask', hentry, hconversation⟩ := h.answers m hm taskId hanswers
        exact ⟨lease', mem_leases_step hstep hlease', htask', entries_step hstep taskId _ hentry,
          hconversation⟩
      · obtain rfl := List.mem_singleton.mp hm
        obtain ⟨hrole, htask⟩ := hanswers
        obtain rfl : lease.taskId = taskId := Option.some.inj htask
        refine ⟨lease, mem_leases_step hstep hallowed, rfl, ?_, hcall hrole⟩
        rw [hentries]
        exact (hanswer hrole).1

theorem TurnsWritten.step {conversationOf : UUID → UUID} {a : Action}
    (h : TurnsWritten conversationOf w) (hcall : SavesIn conversationOf a.event)
    (hstep : step env w a = some w') : TurnsWritten conversationOf w' := by
  obtain ⟨event, now, now'⟩ := a
  by_cases hsave : ∃ runner lease message, event = .worker runner lease (.saveMessage message)
  · obtain ⟨runner, lease, message, rfl⟩ := hsave
    exact h.save hcall hstep
  · refine h.mono hstep (messages_step hstep fun runner lease message heq => hsave ?_)
    exact ⟨runner, lease, message, heq⟩

/-- The answers of a task come from one attempt. -/
theorem TurnsWritten.conversation_of_answers {conversationOf : UUID → UUID}
    (h : TurnsWritten conversationOf w) (hw : Reachable env w) {m m' : Message} {taskId : UUID}
    (hm : m ∈ w.messages.rows) (hm' : m' ∈ w.messages.rows) (hanswers : m.Answers taskId)
    (hanswers' : m'.Answers taskId) : m.conversationId = m'.conversationId := by
  obtain ⟨lease, hlease, rfl, hentry, hconversation⟩ := h.answers m hm taskId hanswers
  obtain ⟨lease', -, -, hentry', hconversation'⟩ := h.answers m' hm' lease.taskId hanswers'
  obtain ⟨task, hmem, hid, hk⟩ := hw.agent_of_lease hlease
  have hbarrier := hw.barrier lease.taskId task (by rw [← hid]; exact mem_rows_iff.mp hmem) hk
  have hhead := (hbarrier.effects _ hentry _ .answered).2
  have hhead' := (hbarrier.effects _ hentry' _ .answered).2
  rw [hconversation, hconversation', Option.some.inj (hhead.symm.trans hhead')]

/-- Only the transaction that blocks the replay writes an answer. -/
theorem blocked_of_answer {a : Action} (hstep : step env w a = some w') {m : Message}
    (hm : m ∈ w'.messages.rows) (hnew : m ∉ w.messages.rows) (hrole : m.role = .assistant) :
    ∃ taskId task, m.metadata.agentTaskId = some taskId ∧ w.tasks.get? taskId = some task ∧
      w'.tasks.get? taskId = some (blockReplay task "Assistant answer saved" a.now') ∧
      (blockReplay task "Assistant answer saved" a.now').replayBlockedAt.isSome = true := by
  obtain ⟨event, now, now'⟩ := a
  by_cases hsave : ∃ runner lease message, event = .worker runner lease (.saveMessage message)
  · obtain ⟨runner, lease, message, rfl⟩ := hsave
    obtain ⟨-, -, -, rfl⟩ := step_eq_some hstep
    rcases @saved_of_work w now now' runner lease message with hsame |
      ⟨task, hget, -, hinsert, hanswer⟩
    · exact absurd (hsame ▸ hm) hnew
    · have hrows := Table.rows_insert? hinsert
      have hmem : m ∈ (w.work runner lease now now' (.saveMessage message)).messages.rows := hm
      rw [hrows] at hmem
      rcases List.mem_append.mp hmem with hold | hfresh
      · exact absurd hold hnew
      · obtain rfl := List.mem_singleton.mp hfresh
        refine ⟨lease.taskId, task, rfl, hget, (hanswer hrole).2, ?_⟩
        simp only [blockReplay]
        cases task.replayBlockedAt <;> rfl
  · have hsame := messages_step hstep fun runner lease message heq =>
      hsave ⟨runner, lease, message, heq⟩
    exact absurd (hsame ▸ hm) hnew

/-- In every run in which each attempt saves its answer in one conversation, each task has at most
one user message in a conversation and at most one answer, and a step that writes an answer blocks
the replay of its task. -/
theorem turn_written_once {conversations : Table Conversation} {clock : Instant}
    {actions : List Action} (conversationOf : UUID → UUID)
    (hcalls : ∀ a ∈ actions, SavesIn conversationOf a.event)
    (hrun : Transition.exec (step env) (initial conversations clock) actions = some w) :
    (∀ m ∈ w.messages.rows, ∀ m' ∈ w.messages.rows, ∀ taskId, m.role = .user → m'.role = .user →
      m.metadata.agentTaskId = some taskId → m'.metadata.agentTaskId = some taskId →
        m.conversationId = m'.conversationId → m = m') ∧
    (∀ m ∈ w.messages.rows, ∀ m' ∈ w.messages.rows, ∀ taskId,
      m.Answers taskId → m'.Answers taskId → m = m') ∧
    ∀ a w', step env w a = some w' → ∀ m ∈ w'.messages.rows, m ∉ w.messages.rows →
      m.role = .assistant → ∃ taskId task, m.metadata.agentTaskId = some taskId ∧
        w.tasks.get? taskId = some task ∧
        w'.tasks.get? taskId = some (blockReplay task "Assistant answer saved" a.now') ∧
        (blockReplay task "Assistant answer saved" a.now').replayBlockedAt.isSome = true := by
  have hreachable : Reachable env w := ⟨conversations, clock, .of_exec actions hrun⟩
  have hwritten : TurnsWritten conversationOf w := by
    refine Transition.exec_invariant (fun _ _ _ => TurnsWritten.step) ?_ hcalls hrun
    exact ⟨fun m hm => absurd hm List.not_mem_nil, fun m hm => absurd hm List.not_mem_nil⟩
  refine ⟨?_, ?_, ?_⟩
  · intro m hm m' hm' taskId hrole hrole' htask htask' hconversation
    exact hwritten.once m hm m' hm' taskId htask htask' (hrole.trans hrole'.symm) hconversation
  · intro m hm m' hm' taskId hanswers hanswers'
    exact hwritten.once m hm m' hm' taskId hanswers.2 hanswers'.2
      (hanswers.1.trans hanswers'.1.symm)
      (hwritten.conversation_of_answers hreachable hm hm' hanswers hanswers')
  · exact fun a w' hstep m hm hnew hrole => blocked_of_answer hstep hm hnew hrole

/-! The sample attempt saves its prompt twice, and then its answer. -/

def sampleMessage (id : UUID) (role : MessageRole) : Message :=
  { id, conversationId := 30, role, content := "Summarize the report", modelName := none
    createdAt := seconds 4, metadata := .empty }

def sampleTurn : List Action :=
  requests "report-2024" sampleKey_length ++ attempt ++
    [⟨.worker sampleRunner ⟨20, 40⟩ (.saveMessage (sampleMessage 50 .user)), seconds 5, seconds 5⟩,
      ⟨.worker sampleRunner ⟨20, 40⟩ (.saveMessage (sampleMessage 51 .user)), seconds 6, seconds 6⟩,
      ⟨.worker sampleRunner ⟨20, 40⟩ (.saveMessage (sampleMessage 52 .assistant)), seconds 7,
        seconds 7⟩]

theorem savesIn_sampleTurn : ∀ a ∈ sampleTurn, SavesIn (fun _ => 30) a.event := by
  intro a ha
  simp only [sampleTurn, requests, attempt, List.cons_append, List.nil_append, List.mem_cons,
    List.not_mem_nil, or_false] at ha
  rcases ha with rfl | rfl | rfl | rfl | rfl | rfl | rfl | rfl
  all_goals first | trivial | exact fun _ => rfl

theorem messages_sampleTurn :
    (Transition.exec (step sampleEnvironment) (initial .empty 0) sampleTurn).map
      (fun w => w.messages.rows.map fun m => (m.id, m.role)) =
        some [(50, .user), (52, .assistant)] := by
  decide +kernel

theorem turn_written_once_sample : ∃ w,
    Transition.exec (step sampleEnvironment) (initial .empty 0) sampleTurn = some w ∧
      w.messages.rows.map (fun m => (m.id, m.role)) = [(50, .user), (52, .assistant)] ∧
      ∀ m ∈ w.messages.rows, ∀ m' ∈ w.messages.rows, ∀ taskId,
        m.Answers taskId → m'.Answers taskId → m = m' := by
  obtain ⟨w, hw, hrows⟩ := Option.map_eq_some_iff.mp messages_sampleTurn
  exact ⟨w, hw, hrows, (turn_written_once (fun _ => 30) savesIn_sampleTurn hw).2.1⟩

end World

end AgentDemo
