import AgentDemo.Library.Transition
import AgentDemo.Services.ToolApprovals

/-! The life cycle of the stored approvals: locked calls of any number of clients, and the runs
that have claimed an approval and write its outcome without a lock. -/
namespace AgentDemo

/-- The allowed moves of an approval. -/
inductive ApprovalStatus.Moves : ApprovalStatus → ApprovalStatus → Prop where
  | approve : Moves .pending .approved
  | cancel : Moves .pending .cancelled
  | expire : Moves .pending .expired
  | complete : Moves .approved .completed
  | interrupt : Moves .approved .interrupted

/-- How far `stream_confirmed_tool` is with the approval that it has claimed. `writing` is
`finish` between its reload and its commit, `checked` is `interrupt` after its test. -/
inductive RunPhase where
  | running
  | writing (status : ApprovalStatus) (error : Option String) (reloaded : Message)
  | interrupting
  | checked
  | ended

/-- A run with the successful claim that it started from. -/
structure ConfirmedRun where
  approvalId : UUID
  userId : Option UUID
  conversationId : UUID
  claimedAt : Instant
  phase : RunPhase

inductive RunAction where
  | done
  | commit (heard : Bool)
  | fail
  | check
  | reload
  deriving DecidableEq

/-- One transaction of a run. `done` reloads for `finish("completed")`, `reload` for
`finish("interrupted")`; a commit that is not heard of raises although it took place. -/
def ConfirmedRun.step (messages : Table Message) (r : ConfirmedRun) (now : Instant) :
    RunAction → Option (Table Message × ConfirmedRun)
  | .done =>
    match r.phase, messages.get? r.approvalId with
    | .running, some m => some (messages, { r with phase := .writing .completed none m })
    | _, _ => none
  | .commit heard =>
    match r.phase with
    | .writing status error m =>
      match m.metadata.approval with
      | none => none
      | some approval => some (messages.write (finished m approval status error now),
        { r with phase := if status = .completed ∧ ¬ heard then .interrupting else .ended })
    | _ => none
  | .fail =>
    match r.phase with
    | .running | .writing .completed _ _ => some (messages, { r with phase := .interrupting })
    | .ended => none
    | _ => some (messages, { r with phase := .ended })
  | .check =>
    match r.phase, (messages.get? r.approvalId).bind fun m => m.metadata.approval with
    | .interrupting, some approval => some (messages,
        { r with phase := if approval.status = .approved then .checked else .ended })
    | _, _ => none
  | .reload =>
    match r.phase, messages.get? r.approvalId with
    | .checked, some m =>
      some (messages, { r with phase := .writing .interrupted (some interruptedError) m })
    | _, _ => none

/-- The tables and the clock, with every run that a successful claim has ever started. -/
structure ApprovalWorld where
  conversations : Table Conversation
  messages : Table Message
  clock : Instant
  runs : List ConfirmedRun

inductive ApprovalEvent where
  | idle
  | openConversation (conversation : Conversation)
  | saveMessage (message : Message)
  | create (state : AgentGraphState) (conversationId : UUID) (route : ModelRoute)
      (ttlSeconds : ℤ) (approvalId : UUID)
  | claim (userId : Option UUID) (payload : ToolConfirmationRequest)
  | cancel (userId conversationId approvalId : UUID)
  | run (i : ℕ) (action : RunAction)

structure ApprovalAction where
  event : ApprovalEvent
  now : Instant

namespace ApprovalWorld

def commit (w : ApprovalWorld) : Option Message → ApprovalWorld
  | none => w
  | some m => { w with messages := w.messages.write m }

/-- An event at an instant. `uuid4` gives an approval an id that nothing refers to yet. -/
def apply (w : ApprovalWorld) (now : Instant) : ApprovalEvent → Option ApprovalWorld
  | .idle => some w
  | .openConversation conversation =>
    (w.conversations.insert? conversation).map fun conversations => { w with conversations }
  | .saveMessage message =>
    if message.metadata.approval.isSome then none
    else (w.messages.insert? message).map fun messages => { w with messages }
  | .create state conversationId route ttlSeconds approvalId =>
    if (w.conversations.get? conversationId).isNone ∨
        ∃ call ∈ state.toolCalls, call.approvalId = some approvalId then none
    else match createApproval state conversationId route ttlSeconds approvalId now now with
      | none => none
      | some (m, _) => (w.messages.insert? m).map fun messages => { w with messages }
  | .claim userId payload =>
    match AgentDemo.claim w.conversations w.messages userId payload now with
    | (.error _, row) => some (w.commit row)
    | (.ok m, row) => some { w.commit row with
        runs := w.runs ++ [⟨m.id, userId, payload.conversationId, now, .running⟩] }
  | .cancel userId conversationId approvalId =>
    some (w.commit
      (AgentDemo.cancel w.conversations w.messages userId conversationId approvalId now).2)
  | .run i action =>
    match w.runs[i]? with
    | none => none
    | some r => (r.step w.messages now action).map fun (messages, r') =>
        { w with messages, runs := w.runs.set i r' }

def step (w : ApprovalWorld) (a : ApprovalAction) : Option ApprovalWorld :=
  if w.clock ≤ a.now then (w.apply a.now a.event).map fun w' => { w' with clock := a.now } else none

/-- Empty tables. -/
def initial (clock : Instant) : ApprovalWorld :=
  { conversations := .empty, messages := .empty, clock, runs := [] }

/-- Some run of the system from empty tables leads to `w`. -/
def Reachable (w : ApprovalWorld) : Prop :=
  ∃ clock, Transition.Reaches (Transition.ofStep step) (initial clock) w

/-- A later state of the same run. -/
abbrev Later : ApprovalWorld → ApprovalWorld → Prop :=
  Transition.Reaches (Transition.ofStep step)

/-- The approval stored under an identifier. -/
def approval? (w : ApprovalWorld) (id : UUID) : Option Approval :=
  (w.messages.get? id).bind fun m => m.metadata.approval

/-- The state after a list of actions from empty tables, if all of them are enabled. -/
def ofRun (as : List ApprovalAction) : ApprovalWorld :=
  (Transition.exec step (initial 0) as).getD (initial 0)

theorem reachable_ofRun (as : List ApprovalAction)
    (h : (Transition.exec step (initial 0) as).isSome) : Reachable (ofRun as) := by
  obtain ⟨w, hw⟩ := Option.isSome_iff_exists.mp h
  refine ⟨0, ?_⟩
  rw [ofRun, hw, Option.getD_some]
  exact .of_exec as hw

end ApprovalWorld

/-! A small run: one blocked call, a confirmation of something else, and the right one. -/

def sampleRoute : ModelRoute := ⟨"chat-model", "default", "conversation"⟩

def sampleBlockedCall : ToolCallRecord where
  toolName := "mcp.notes.delete"
  provider := .mcpServer
  providerToolId := some "delete"
  serverName := some "notes"
  arguments := [("id", .num 7)]
  reason := "The user explicitly referenced an available tool."
  requiresConfirmation := true
  searchEnrichment := false
  searchTarget := none
  result := ⟨"mcp.notes.delete", .mcpServer, some "delete", some "notes", .failed, .null, none,
    some "Tool requires confirmation before execution", 0, "trace-1"⟩
  approvalId := none
  approvalStatus := none
  approvalExpiresAt := none
  approvalError := none

def sampleBlockedState : AgentGraphState where
  userId := some 1
  taskId := none
  conversationId := some 30
  message := "Use mcp.notes.delete on note 7"
  taskType := "conversation"
  citations := []
  mcpResources := []
  mcpPrompts := []
  plan := .none ""
  toolCalls := [sampleBlockedCall]
  observations := ["mcp.notes.delete failed"]
  searchFetchTargets := []
  confirmedSearchTarget := none
  finalAnswer := ""
  approvalId := none
  traceId := "trace-0"
  route := some sampleRoute
  toolRounds := 1
  maxToolRounds := 3
  saveUserMessage := true
  confirmedToolName := none
  confirmedArguments := []
  confirmedReason := ""

/-- The confirmation of the sample approval, with the arguments that the client sends. -/
def sampleConfirmation (arguments : JsonObject) : ToolConfirmationRequest where
  conversationId := 30
  approvalId := some 50
  message := "Use mcp.notes.delete on note 7"
  toolName := "mcp.notes.delete"
  arguments := arguments
  reason := "Confirmed by the user."
  taskType := "conversation"
  message_ne := by decide
  toolName_ne := by decide

def sampleApprovals : ApprovalWorld :=
  .ofRun [⟨.openConversation ⟨30, some 1, "Notes"⟩, 0⟩,
    ⟨.create sampleBlockedState 30 sampleRoute 900 50, seconds 1⟩,
    ⟨.claim (some 1) (sampleConfirmation [("id", .num 8)]), seconds 2⟩,
    ⟨.claim (some 1) (sampleConfirmation [("id", .num 7)]), seconds 3⟩,
    ⟨.run 0 .done, seconds 4⟩, ⟨.run 0 (.commit true), seconds 5⟩]

theorem reachable_sampleApprovals : sampleApprovals.Reachable :=
  ApprovalWorld.reachable_ofRun _ (by decide)

example : (sampleApprovals.approval? 50).map Approval.status = some .completed := by decide

end AgentDemo
