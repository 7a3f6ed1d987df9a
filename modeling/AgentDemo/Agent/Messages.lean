import AgentDemo.Services.TaskLease
import AgentDemo.Models.Conversation

/-! The persistence steps of the agent runtime that check the task lease. -/
namespace AgentDemo

/-- The message that an earlier call of `_save_message` has stored for the task. -/
def savedMessage (messages : Table Message) (conversationId : UUID) (role : MessageRole)
    (taskId : UUID) : Option Message :=
  messages.rows.find? fun m =>
    m.conversationId = conversationId ∧ m.role = role ∧ m.metadata.agentTaskId = some taskId

/-- `_save_message`: the row and the message that its commit writes. -/
def saveMessage (tasks : Table Task) (messages : Table Message)
    (currentTaskLease : Option TaskLease) (message : Message) (now now' : Instant) :
    Except TaskLeaseLost (Option Task × Option Message) :=
  match lockTaskLease tasks currentTaskLease now true with
  | .error e => .error e
  | .ok none => .ok (none, some message)
  | .ok (some task) =>
    if (savedMessage messages message.conversationId message.role task.id).isSome then
      .ok (none, none)
    else .ok (if message.role = .assistant then
        some (blockReplay task "Assistant answer saved" now') else none,
      some { message with metadata := { message.metadata with agentTaskId := some task.id } })

/-- `_auto_title_conversation` after its test of the title. -/
def autoTitleConversation (tasks : Table Task) (currentTaskLease : Option TaskLease)
    (conversation : Conversation) (title : String) (now : Instant) :
    Except TaskLeaseLost Conversation :=
  match lockTaskLease tasks currentTaskLease now true with
  | .error e => .error e
  | .ok _ => .ok { conversation with title }

def Message.ofTask (message : Message) (taskId : UUID) : Message :=
  { message with metadata := { message.metadata with agentTaskId := some taskId } }

/-- What a worker saves under the row of its task: nothing twice, and an answer behind the replay
barrier. -/
inductive Saves (messages : Table Message) (message : Message) (task : Task) (now' : Instant) :
    Option Task × Option Message → Prop where
  | nothing {saved : Message}
      (found : savedMessage messages message.conversationId message.role task.id = some saved) :
      Saves messages message task now' (none, none)
  | answer (missing : savedMessage messages message.conversationId message.role task.id = none)
      (role : message.role = .assistant) : Saves messages message task now'
        (some (blockReplay task "Assistant answer saved" now'), some (message.ofTask task.id))
  | other (missing : savedMessage messages message.conversationId message.role task.id = none)
      (role : message.role ≠ .assistant) :
      Saves messages message task now' (none, some (message.ofTask task.id))

theorem savedMessage_eq_some {messages : Table Message} {conversationId taskId : UUID}
    {role : MessageRole} {saved : Message}
    (h : savedMessage messages conversationId role taskId = some saved) :
    saved ∈ messages.rows ∧ saved.role = role ∧ saved.metadata.agentTaskId = some taskId := by
  have hprop : saved.conversationId = conversationId ∧ saved.role = role ∧
      saved.metadata.agentTaskId = some taskId := by simpa using List.find?_some h
  exact ⟨List.mem_of_find?_eq_some h, hprop.2⟩

theorem saveMessage_eq_ok {tasks : Table Task} {messages : Table Message} {lease : TaskLease}
    {message : Message} {now now' : Instant} {r : Option Task × Option Message}
    (h : saveMessage tasks messages (some lease) message now now' = .ok r) :
    ∃ task, tasks.get? lease.taskId = some task ∧ Holds task lease now true ∧
      Saves messages message task now' r := by
  unfold saveMessage at h
  cases hl : lockTaskLease tasks (some lease) now true with
  | error e => simp [hl] at h
  | ok row =>
    obtain ⟨task, rfl, hget, hold⟩ := lockTaskLease_eq_ok hl
    refine ⟨task, hget, hold, ?_⟩
    simp only [hl] at h
    split_ifs at h with hsaved hrole
    · obtain ⟨saved, hfound⟩ := Option.isSome_iff_exists.mp hsaved
      exact Except.ok.inj h ▸ .nothing hfound
    · exact Except.ok.inj h ▸ .answer (by simpa using hsaved) hrole
    · exact Except.ok.inj h ▸ .other (by simpa using hsaved) hrole

theorem holds_of_autoTitleConversation {tasks : Table Task} {lease : TaskLease}
    {conversation c : Conversation} {title : String} {now : Instant}
    (h : autoTitleConversation tasks (some lease) conversation title now = .ok c) :
    ∃ task, tasks.get? lease.taskId = some task ∧ Holds task lease now true := by
  unfold autoTitleConversation at h
  cases hl : lockTaskLease tasks (some lease) now true with
  | error e => simp [hl] at h
  | ok row =>
    obtain ⟨task, -, hget, hold⟩ := lockTaskLease_eq_ok hl
    exact ⟨task, hget, hold⟩

end AgentDemo
