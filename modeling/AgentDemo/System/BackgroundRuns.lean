import AgentDemo.Agent.Events
import AgentDemo.System.AgentRuns
import AgentDemo.System.ConversationOwners

/-! The task system with the runs of its workers: an attempt streams the chat graph, whose
messages are saved in one session, and commits what it has read of the stream in another. -/
namespace AgentDemo

/-- What does not change while the workers run; `donePayload` is the data of the `done` event. -/
structure BackgroundConfig where
  env : Environment
  agent : AgentConfig
  donePayload : AgentGraphState → JsonObject

/-- An attempt after its claim: what it has read from its row, the answered part of its run and
the rest of it. Once it is `drained` its worker has read the whole stream. -/
structure TaskAttempt where
  runner : AgentTaskRunner
  lease : TaskLease
  userId : Option UUID
  conversationId : UUID
  prompt : String
  traceId : String
  log : AgentLog
  program : AgentProgram GraphEnd
  drained : Bool

namespace TaskAttempt

/-- The stream that `AgentTaskRunner.run` opens. -/
def stream (config : AgentConfig) (attempt : TaskAttempt) : AgentProgram GraphEnd :=
  AgentDemo.stream config.reader config.settings config.route attempt.userId
    (some attempt.lease.taskId) (some attempt.conversationId) attempt.prompt "background"
    attempt.traceId

/-- What the event loop of `AgentTaskRunner.run` has gathered. -/
def reading (config : AgentConfig) (attempt : TaskAttempt) : StreamReading :=
  readStream (streamEvents config.reader none attempt.log)

/-- The attempt at the start of its stream. -/
def start (config : AgentConfig) (attempt : TaskAttempt) : TaskAttempt :=
  { attempt with log := [], program := attempt.stream config, drained := false }

/-- The attempt of a lease that a claim has just handed out. -/
def opened (config : AgentConfig) (world : World) (runner : AgentTaskRunner) (lease : TaskLease)
    (traceId : String) : Option TaskAttempt := do
  let task ← world.tasks.get? lease.taskId
  let conversationId ← task.conversationId
  if lease ∈ world.leases then
    some (start config
      { runner, lease, userId := task.userId, conversationId, prompt := strip (task.prompt.getD "")
        traceId, log := [], program := .done (.failed ""), drained := false })
  else none

/-- The attempt after one more answer. -/
def answer (attempt : TaskAttempt) (q : Request) (a : q.Answer) (program : AgentProgram GraphEnd) :
    TaskAttempt :=
  { attempt with log := attempt.log ++ [⟨q, a⟩], program }

/-- An exception in the run ends the stream with an `error` event. -/
def raise (attempt : TaskAttempt) (detail : String) : TaskAttempt :=
  attempt.answer (.error detail) () (.done (.failed detail))

end TaskAttempt

/-- The message of the user, for `_save_message`. -/
def userMessage (state : AgentGraphState) (id : UUID) (createdAt : Instant) : Option Message :=
  state.conversationId.map fun conversationId =>
    { id, conversationId, role := .user, content := state.message, modelName := none, createdAt
      metadata := .empty }

/-- `_save_assistant_message`. -/
def assistantMessage (state : AgentGraphState) (id : UUID) (createdAt : Instant) : Option Message :=
  state.conversationId.map fun conversationId =>
    { id, conversationId, role := .assistant, content := state.finalAnswer
      modelName := state.route.map ModelRoute.modelName, createdAt
      metadata :=
        { agentTaskId := none, toolCalls := state.toolCalls, traceId := some state.traceId
          citations := state.citations, modelRoute := state.route
          resolvesApprovalId := state.approvalId, approval := none, continuation := none } }

/-- The look-up of `_ensure_conversation`. -/
def ensuredConversation (conversations : Table Conversation) (state : AgentGraphState) :
    Option Conversation :=
  (state.conversationId.bind conversations.get?).filter fun conversation =>
    state.userId.isNone ∨ conversation.userId = state.userId

namespace World

/-- `_save_message` of an attempt up to its commit; `none` when it raises. -/
def save (env : Environment) (w : World) (attempt : TaskAttempt) (now now' : Instant)
    (message : Message) : Option World :=
  match saveMessage w.tasks w.messages (some attempt.lease) message now now' with
  | .error _ => none
  | .ok (_, stored) =>
    if stored.all fun m => (w.messages.get? m.id).isNone then
      w.step env ⟨.worker attempt.runner attempt.lease (.saveMessage message), now, now'⟩
    else none

/-- What an answered request of an attempt does to the database; `id` is what `uuid4` gives. -/
def answered (env : Environment) (w : World) (attempt : TaskAttempt) (id : UUID)
    (now now' : Instant) :
    (q : Request) × q.Answer → Option World
  | ⟨.ensureConversation state, c⟩ =>
    match ensuredConversation w.conversations state with
    | some conversation => if c = conversation.id then w.step env ⟨.idle, now, now'⟩ else none
    | none => (w.conversations.insert? ⟨c, state.userId, "New conversation"⟩).bind
        fun conversations => { w with conversations }.step env ⟨.idle, now, now'⟩
  | ⟨.saveUserMessage state, _⟩ => (userMessage state id now).bind (w.save env attempt now now')
  | ⟨.saveAssistantMessage state, _⟩ =>
    (assistantMessage state id now).bind (w.save env attempt now now')
  | _ => w.step env ⟨.idle, now, now'⟩

end World

/-- The events of the task system that are no step of the stream of an attempt. -/
def Event.isOutside : Event → Bool
  | .claim _ _ _ _ | .worker _ _ (.saveMessage _) | .worker _ _ (.succeed _ _ _) => false
  | _ => true

inductive BackgroundEvent where
  | system (event : Event)
  | claim (runner : AgentTaskRunner) (taskId conversationId token : UUID) (traceId : String)
  | answer (attempt : ℕ) (answers : (q : Request) → q.Answer) (id : UUID)
  | raise (attempt : ℕ) (detail : String)
  | drain (attempt : ℕ)

structure BackgroundAction where
  event : BackgroundEvent
  now : Instant
  now' : Instant

structure BackgroundWorld where
  world : World
  attempts : List TaskAttempt

namespace BackgroundWorld

/-- The end of the event loop of `AgentTaskRunner.run`: a stream with a `done` event and without a
failure goes to the success commit. -/
def drained (config : BackgroundConfig) (w : BackgroundWorld) (attempt : TaskAttempt)
    (now now' : Instant) : Option World :=
  match (attempt.reading config.agent).failure, (attempt.reading config.agent).donePayload with
  | none, some state => w.world.step config.env ⟨.worker attempt.runner attempt.lease
      (.succeed (config.donePayload state) (attempt.reading config.agent).answerParts
        attempt.conversationId), now, now'⟩
  | _, _ => w.world.step config.env ⟨.idle, now, now'⟩

/-- One event; what a worker does besides its stream, such as the end of a failed attempt, is an
event of the task system at any time. -/
def apply (config : BackgroundConfig) (w : BackgroundWorld) (now now' : Instant) :
    BackgroundEvent → Option BackgroundWorld
  | .system event =>
    if event.isOutside ∧ w.world.Retitles event then
      (w.world.step config.env ⟨event, now, now'⟩).map fun world => { w with world }
    else none
  | .claim runner taskId conversationId token traceId =>
    (w.world.step config.env ⟨.claim runner taskId conversationId token, now, now'⟩).map
      fun world =>
        { world, attempts :=
            w.attempts ++
              (TaskAttempt.opened config.agent world runner ⟨taskId, token⟩ traceId).toList }
  | .answer i answers id =>
    match w.attempts[i]? with
    | none => none
    | some attempt =>
      match attempt.program with
      | .done _ => none
      | .ask q k => (w.world.answered config.env attempt id now now' ⟨q, answers q⟩).map
          fun world =>
            { world, attempts := w.attempts.set i (attempt.answer q (answers q) (k (answers q))) }
  | .raise i detail =>
    match w.attempts[i]? with
    | none => none
    | some attempt =>
      if attempt.drained then none
      else (w.world.step config.env ⟨.idle, now, now'⟩).map fun world =>
        { world, attempts := w.attempts.set i (attempt.raise detail) }
  | .drain i =>
    match w.attempts[i]? with
    | none => none
    | some attempt =>
      match attempt.program, attempt.drained with
      | .done _, false => (w.drained config attempt now now').map fun world =>
          { world, attempts := w.attempts.set i { attempt with drained := true } }
      | _, _ => none

def step (config : BackgroundConfig) (w : BackgroundWorld) (a : BackgroundAction) :
    Option BackgroundWorld :=
  w.apply config a.now a.now' a.event

/-- No tasks and no attempts, with any user conversations. -/
def initial (conversations : Table Conversation) (clock : Instant) : BackgroundWorld :=
  ⟨.initial conversations clock, []⟩

/-- Some run of the system leads to `w`. -/
def Reachable (config : BackgroundConfig) (w : BackgroundWorld) : Prop :=
  ∃ conversations clock,
    Transition.Reaches (Transition.ofStep (step config)) (initial conversations clock) w

end BackgroundWorld

end AgentDemo
