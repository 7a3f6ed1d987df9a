import AgentDemo.Agent.State
import AgentDemo.Environment

/-! `ToolApprovalStore`: owner-bound approvals kept in the metadata of a message. Each operation
gives its reply and the message row that it commits. -/
namespace AgentDemo

/-- A confirmation as the client sends it; its two texts have `min_length=1`. -/
structure ToolConfirmationRequest where
  conversationId : UUID
  approvalId : Option UUID
  message : String
  toolName : String
  arguments : JsonObject
  reason : String
  taskType : String
  message_ne : message ≠ ""
  toolName_ne : toolName ≠ ""

/-- An `HTTPException` with status 409. -/
def conflict (detail : String) : HttpException := ⟨409, detail⟩

/-- `create`: the blocked call is the last one; `none` is the `IndexError` of an empty list. The
result is the message to insert and the calls as the state holds them afterwards. -/
def createApproval (state : AgentGraphState) (conversationId : UUID) (route : ModelRoute)
    (ttlSeconds : ℤ) (approvalId : UUID) (now createdAt : Instant) :
    Option (Message × List ToolCallRecord) :=
  match state.toolCalls.getLast? with
  | none => none
  | some blocked =>
    let expiresAt := now + seconds ttlSeconds
    let call := { blocked with
      approvalId := some approvalId
      approvalStatus := some .pending
      approvalExpiresAt := some expiresAt }
    let toolCalls := state.toolCalls.dropLast ++ [call]
    some ({
      id := approvalId, conversationId, role := .assistant, content := ""
      modelName := some route.modelName, createdAt
      metadata := {
        agentTaskId := none, toolCalls, traceId := some state.traceId
        citations := state.citations, modelRoute := some route, resolvesApprovalId := none
        continuation := some {
          citations := state.citations, mcpResources := state.mcpResources
          mcpPrompts := state.mcpPrompts, observations := state.observations.dropLast
          toolCalls := state.toolCalls.dropLast, searchFetchTargets := state.searchFetchTargets }
        approval := some {
          status := .pending, expiresAt, toolName := call.toolName, arguments := call.arguments
          message := state.message, reason := call.reason, taskType := state.taskType
          updatedAt := none, error := none } } }, toolCalls)

/-- `(created_at, id)` of `m` is not below that of `m'`. -/
def newer (m m' : Message) : Bool :=
  m'.createdAt < m.createdAt || (m'.createdAt = m.createdAt && m'.id.toNat ≤ m.id.toNat)

/-- `ORDER BY created_at DESC, id DESC LIMIT 1`. -/
def newest : List Message → Option Message
  | [] => none
  | m :: rest =>
    match newest rest with
    | none => some m
    | some m' => some (if newer m m' then m else m')

def legacyMatch (approval : Approval) (payload : ToolConfirmationRequest) : Bool :=
  approval.status = .pending && approval.toolName = payload.toolName &&
    approval.message = payload.message && approval.arguments.eqJsonb payload.arguments

/-- The messages that `_locked` can select: owner, conversation, role and approval fit. -/
def Selectable (conversations : Table Conversation) (conversationId : UUID) (userId : Option UUID)
    (m : Message) : Prop :=
  m.conversationId = conversationId ∧
    (conversations.get? m.conversationId).map Conversation.userId = some userId ∧
    m.role = .assistant ∧ m.metadata.approval.isSome

instance (conversations : Table Conversation) (conversationId : UUID) (userId : Option UUID)
    (m : Message) : Decidable (Selectable conversations conversationId userId m) :=
  inferInstanceAs (Decidable (_ ∧ _))

/-- The `SELECT` of `_locked`. -/
def selectApproval (conversations : Table Conversation) (messages : Table Message)
    (conversationId : UUID) (userId : Option UUID) (approvalId : Option UUID)
    (payload : Option ToolConfirmationRequest) : Except HttpException (Option Message) :=
  let selected := messages.rows.filter fun m => Selectable conversations conversationId userId m
  match approvalId, payload with
  | some approvalId, _ => .ok (selected.find? fun m => m.id = approvalId)
  | none, some payload => .ok (newest (selected.filter fun m =>
      m.metadata.approval.any fun approval => legacyMatch approval payload))
  | none, none => .error (conflict "A persisted tool approval is required")

/-- `_locked`: the row under its lock, and the approval in it. -/
def locked (conversations : Table Conversation) (messages : Table Message) (conversationId : UUID)
    (userId : Option UUID) (approvalId : Option UUID) (payload : Option ToolConfirmationRequest) :
    Except HttpException (Message × Approval) :=
  match selectApproval conversations messages conversationId userId approvalId payload with
  | .error e => .error e
  | .ok none => .error (conflict "Tool approval was not found or already resolved")
  | .ok (some m) =>
    match m.metadata.approval with
    | none => .error (conflict "Tool approval was not found or already resolved")
    | some approval => .ok (m, approval)

/-- The row that `finish` writes over the message it has reloaded. -/
def finished (m : Message) (approval : Approval) (status : ApprovalStatus) (error : Option String)
    (now : Instant) : Message :=
  { m with metadata := { m.metadata with
      approval := some { approval with status, updatedAt := some now, error }
      toolCalls := m.metadata.toolCalls.map fun call =>
        if call.approvalId = some m.id then
          { call with approvalStatus := some status, approvalError := error }
        else call } }

/-- `_require_pending`: the reply, and the row written when the approval has run out. -/
def requirePending (m : Message) (approval : Approval) (now : Instant) :
    Except HttpException Unit × Option Message :=
  if approval.status ≠ .pending then
    (.error (conflict "Tool approval has already been resolved"), none)
  else if approval.expiresAt ≤ now then
    (.error (conflict "Tool approval expired; send a new request"),
      some (finished m approval .expired none now))
  else (.ok (), none)

/-- The four comparisons of `claim`. -/
def Confirms (payload : ToolConfirmationRequest) (approval : Approval) : Prop :=
  approval.toolName = payload.toolName ∧ approval.arguments.eqPython payload.arguments = true ∧
    approval.message = payload.message ∧ approval.taskType = payload.taskType

instance (payload : ToolConfirmationRequest) (approval : Approval) :
    Decidable (Confirms payload approval) :=
  inferInstanceAs (Decidable (_ ∧ _))

def claim (conversations : Table Conversation) (messages : Table Message) (userId : Option UUID)
    (payload : ToolConfirmationRequest) (now : Instant) :
    Except HttpException Message × Option Message :=
  match locked conversations messages payload.conversationId userId payload.approvalId
      (some payload) with
  | .error e => (.error e, none)
  | .ok (m, approval) =>
    if ¬ Confirms payload approval then
      (.error (conflict "Confirmation does not match the stored tool plan"), none)
    else match requirePending m approval now with
      | (.error e, row) => (.error e, row)
      | (.ok (), _) =>
        let m' := finished m approval .approved none now
        (.ok m', some m')

def cancel (conversations : Table Conversation) (messages : Table Message) (userId : UUID)
    (conversationId approvalId : UUID) (now : Instant) :
    Except HttpException Unit × Option Message :=
  match locked conversations messages conversationId (some userId) (some approvalId) none with
  | .error e => (.error e, none)
  | .ok (m, approval) =>
    if approval.status = .cancelled then (.ok (), none)
    else match requirePending m approval now with
      | (.error e, row) => (.error e, row)
      | (.ok (), _) => (.ok (), some (finished m approval .cancelled none now))

/-- The error text of `interrupt`. -/
def interruptedError : String :=
  "Approved execution was interrupted. Check tool history before requesting it again; " ++
    "the tool may already have completed."

@[simp] theorem id_finished (m : Message) (approval : Approval) (status : ApprovalStatus)
    (error : Option String) (now : Instant) :
    (finished m approval status error now).id = m.id := rfl

theorem mem_of_newest {l : List Message} {m : Message} (h : newest l = some m) : m ∈ l := by
  induction l generalizing m with
  | nil => cases h
  | cons a rest ih =>
    rw [newest] at h
    cases hn : newest rest with
    | none =>
      rw [hn] at h
      exact Option.some.inj h ▸ List.mem_cons_self
    | some b =>
      rw [hn] at h
      have h : (if newer a b then a else b) = m := Option.some.inj h
      split_ifs at h
      · exact h ▸ List.mem_cons_self
      · exact List.mem_cons_of_mem a (ih (h ▸ hn))

theorem selectApproval_eq_ok {conversations : Table Conversation} {messages : Table Message}
    {conversationId : UUID} {userId : Option UUID} {approvalId : Option UUID}
    {payload : Option ToolConfirmationRequest} {m : Message}
    (h : selectApproval conversations messages conversationId userId approvalId payload =
      .ok (some m)) :
    m ∈ messages.rows ∧ Selectable conversations conversationId userId m := by
  have hselected {x : Message} (hx : x ∈ messages.rows.filter fun m =>
      Selectable conversations conversationId userId m) :
      x ∈ messages.rows ∧ Selectable conversations conversationId userId x := by
    simpa using List.mem_filter.mp hx
  cases approvalId with
  | some id => exact hselected (List.mem_of_find?_eq_some (Except.ok.inj h))
  | none =>
    cases payload with
    | none => cases h
    | some p => exact hselected (List.mem_filter.mp (mem_of_newest (Except.ok.inj h))).1

theorem locked_eq_ok {conversations : Table Conversation} {messages : Table Message}
    {conversationId : UUID} {userId : Option UUID} {approvalId : Option UUID}
    {payload : Option ToolConfirmationRequest} {m : Message} {approval : Approval}
    (h : locked conversations messages conversationId userId approvalId payload =
      .ok (m, approval)) :
    messages.get? m.id = some m ∧ Selectable conversations conversationId userId m ∧
      m.metadata.approval = some approval := by
  unfold locked at h
  split at h
  · cases h
  · cases h
  · next x hx =>
    cases ha : x.metadata.approval with
    | none => simp [ha] at h
    | some a =>
      rw [ha] at h
      cases h
      obtain ⟨hmem, hsel⟩ := selectApproval_eq_ok hx
      exact ⟨Table.get?_eq_some.mpr ⟨hmem, rfl⟩, hsel, ha⟩

theorem id_of_locked {conversations : Table Conversation} {messages : Table Message}
    {conversationId : UUID} {userId : Option UUID} {approvalId : UUID}
    {payload : Option ToolConfirmationRequest} {m : Message} {approval : Approval}
    (h : locked conversations messages conversationId userId (some approvalId) payload =
      .ok (m, approval)) : m.id = approvalId := by
  unfold locked at h
  split at h
  · cases h
  · cases h
  · next x hx =>
    have hfound := List.find?_some (Except.ok.inj hx)
    cases ha : x.metadata.approval with
    | none => simp [ha] at h
    | some a =>
      rw [ha] at h
      cases h
      simpa using hfound

theorem requirePending_cases (m : Message) (approval : Approval) (now : Instant) :
    (∃ e, requirePending m approval now = (.error e, none)) ∨
    approval.status = .pending ∧
      ((∃ e, requirePending m approval now =
          (.error e, some (finished m approval .expired none now))) ∨
        now < approval.expiresAt ∧ requirePending m approval now = (.ok (), none)) := by
  unfold requirePending
  by_cases hs : approval.status = .pending
  · right
    by_cases he : approval.expiresAt ≤ now
    · exact ⟨hs, Or.inl ⟨conflict "Tool approval expired; send a new request", by simp [hs, he]⟩⟩
    · exact ⟨hs, Or.inr ⟨not_le.mp he, by simp [hs, he]⟩⟩
  · exact Or.inl ⟨conflict "Tool approval has already been resolved", by simp [hs]⟩

/-- A write of a locked call: the row it found and what it made of the pending approval. -/
structure Resolves (conversations : Table Conversation) (messages : Table Message)
    (conversationId : UUID) (userId : Option UUID) (m : Message) (approval : Approval) :
    Prop where
  get : messages.get? m.id = some m
  selectable : Selectable conversations conversationId userId m
  approval_eq : m.metadata.approval = some approval
  pending : approval.status = .pending

/-- What a confirmation can do: nothing, let a matching approval expire, or claim it. -/
theorem claim_cases (conversations : Table Conversation) (messages : Table Message)
    (userId : Option UUID) (payload : ToolConfirmationRequest) (now : Instant) :
    (∃ e, claim conversations messages userId payload now = (.error e, none)) ∨
    ∃ m approval, Resolves conversations messages payload.conversationId userId m approval ∧
      Confirms payload approval ∧
      ((∃ e, claim conversations messages userId payload now =
          (.error e, some (finished m approval .expired none now))) ∨
        now < approval.expiresAt ∧ claim conversations messages userId payload now =
          (.ok (finished m approval .approved none now),
            some (finished m approval .approved none now))) := by
  unfold claim
  cases hl : locked conversations messages payload.conversationId userId payload.approvalId
      (some payload) with
  | error e => exact Or.inl ⟨e, rfl⟩
  | ok found =>
    obtain ⟨m, approval⟩ := found
    obtain ⟨hget, hsel, ha⟩ := locked_eq_ok hl
    by_cases hc : Confirms payload approval
    · rcases requirePending_cases m approval now with ⟨e, he⟩ | ⟨hs, ⟨e, he⟩ | ⟨hlt, he⟩⟩
      · exact Or.inl ⟨e, by simp [hc, he]⟩
      · exact Or.inr ⟨m, approval, ⟨hget, hsel, ha, hs⟩, hc, Or.inl ⟨e, by simp [hc, he]⟩⟩
      · exact Or.inr ⟨m, approval, ⟨hget, hsel, ha, hs⟩, hc, Or.inr ⟨hlt, by simp [hc, he]⟩⟩
    · exact Or.inl ⟨conflict "Confirmation does not match the stored tool plan", by simp [hc]⟩

/-- What a cancellation can do to the row that it locks. -/
theorem cancel_cases (conversations : Table Conversation) (messages : Table Message)
    (userId conversationId approvalId : UUID) (now : Instant) :
    (cancel conversations messages userId conversationId approvalId now).2 = none ∨
    ∃ m approval, Resolves conversations messages conversationId (some userId) m approval ∧
      ∃ status, (status = .expired ∨ status = .cancelled) ∧
        (cancel conversations messages userId conversationId approvalId now).2 =
          some (finished m approval status none now) := by
  unfold cancel
  cases hl : locked conversations messages conversationId (some userId) (some approvalId) none with
  | error e => exact Or.inl rfl
  | ok found =>
    obtain ⟨m, approval⟩ := found
    obtain ⟨hget, hsel, ha⟩ := locked_eq_ok hl
    by_cases hc : approval.status = .cancelled
    · exact Or.inl (by simp [hc])
    · rcases requirePending_cases m approval now with ⟨e, he⟩ | ⟨hs, ⟨e, he⟩ | ⟨hlt, he⟩⟩
      · exact Or.inl (by simp [hc, he])
      · exact Or.inr ⟨m, approval, ⟨hget, hsel, ha, hs⟩, _, Or.inl rfl, by simp [hs, he]⟩
      · exact Or.inr ⟨m, approval, ⟨hget, hsel, ha, hs⟩, _, Or.inr rfl, by simp [hs, he]⟩

end AgentDemo
