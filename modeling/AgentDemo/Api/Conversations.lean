import AgentDemo.Api.Tasks
import AgentDemo.Models.TaskSchedule

/-! The conversation routes that write: creation, renaming and deletion. -/
namespace AgentDemo

structure ConversationUpdate where
  title : String
  title_length : 1 ≤ title.length ∧ title.length ≤ 200

/-- `create_conversation`; `none` is an identifier that is in use. -/
def createConversation (conversations : Table Conversation) (userId id : UUID) (title : String) :
    Option (Table Conversation) :=
  conversations.insert? ⟨id, some userId, title⟩

def updateConversation (conversations : Table Conversation) (payload : ConversationUpdate)
    (userId conversationId : UUID) : Except HttpException (Table Conversation) :=
  match getOwnedConversation conversations conversationId userId with
  | none => .error ⟨404, "Conversation not found"⟩
  | some conversation =>
    .ok (conversations.write { conversation with title := strip payload.title })

def unlinkTask (conversationId : UUID) (task : Task) : Task :=
  if task.conversationId = some conversationId then { task with conversationId := none } else task

def unlinkSchedule (conversationId : UUID) (schedule : TaskSchedule) : TaskSchedule :=
  if schedule.conversationId = some conversationId then { schedule with conversationId := none }
  else schedule

@[simp] theorem id_unlinkTask (conversationId : UUID) (task : Task) :
    (unlinkTask conversationId task).id = task.id := by
  unfold unlinkTask
  split_ifs <;> rfl

@[simp] theorem id_unlinkSchedule (conversationId : UUID) (schedule : TaskSchedule) :
    (unlinkSchedule conversationId schedule).id = schedule.id := by
  unfold unlinkSchedule
  split_ifs <;> rfl

structure ConversationRecords where
  tasks : Table Task
  schedules : Table TaskSchedule
  messages : Table Message
  conversations : Table Conversation

def cleanupConversationRecords (records : ConversationRecords) (conversationId : UUID) :
    ConversationRecords :=
  { records with
    tasks := records.tasks.update (unlinkTask conversationId) fun task => by simp
    messages := records.messages.filter fun m => m.conversationId ≠ conversationId }

/-- `delete_conversation`. The foreign key of the schedules is set to null by the deletion of the
row. -/
def deleteConversation (records : ConversationRecords) (userId conversationId : UUID) :
    Except HttpException ConversationRecords :=
  match getOwnedConversation records.conversations conversationId userId with
  | none => .error ⟨404, "Conversation not found"⟩
  | some _ =>
    let cleaned := cleanupConversationRecords records conversationId
    .ok { cleaned with
      schedules := cleaned.schedules.update (unlinkSchedule conversationId) fun s => by simp
      conversations := cleaned.conversations.delete conversationId }

theorem deleteConversation_eq_ok {records records' : ConversationRecords}
    {userId conversationId : UUID}
    (h : deleteConversation records userId conversationId = .ok records') :
    (getOwnedConversation records.conversations conversationId userId).isSome ∧
      records'.tasks = records.tasks.update (unlinkTask conversationId) (fun task => by simp) ∧
      records'.schedules =
        records.schedules.update (unlinkSchedule conversationId) (fun s => by simp) ∧
      records'.messages = records.messages.filter (fun m => m.conversationId ≠ conversationId) ∧
      records'.conversations = records.conversations.delete conversationId := by
  unfold deleteConversation at h
  cases hget : getOwnedConversation records.conversations conversationId userId with
  | none => simp [hget] at h
  | some conversation =>
    simp only [hget, Except.ok.injEq] at h
    subst h
    exact ⟨rfl, rfl, rfl, rfl, rfl⟩

end AgentDemo
