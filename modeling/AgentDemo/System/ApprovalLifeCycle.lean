import AgentDemo.System.Approvals

/-! Every approval is claimed at most once and only moves forward. -/
namespace AgentDemo

/-- The blocked call is the last one, and every call that names the approval of its message
shows the status of that approval. -/
structure Mirrors (m : Message) (approval : Approval) : Prop where
  blocked : ∃ call, m.metadata.toolCalls.getLast? = some call ∧ call.approvalId = some m.id
  status : ∀ call ∈ m.metadata.toolCalls, call.approvalId = some m.id →
    call.approvalStatus = some approval.status

/-- Everything but the outcome of an approval stays as it was stored. -/
structure Approval.SamePlan (a a' : Approval) : Prop where
  expiresAt : a'.expiresAt = a.expiresAt
  toolName : a'.toolName = a.toolName
  arguments : a'.arguments = a.arguments
  message : a'.message = a.message
  reason : a'.reason = a.reason
  taskType : a'.taskType = a.taskType

theorem Approval.SamePlan.refl (a : Approval) : a.SamePlan a := ⟨rfl, rfl, rfl, rfl, rfl, rfl⟩

theorem Approval.SamePlan.trans {a b c : Approval} (h : a.SamePlan b) (h' : b.SamePlan c) :
    a.SamePlan c :=
  ⟨h'.expiresAt.trans h.expiresAt, h'.toolName.trans h.toolName, h'.arguments.trans h.arguments,
    h'.message.trans h.message, h'.reason.trans h.reason, h'.taskType.trans h.taskType⟩

/-- What a run knows about the approval that it has claimed. -/
def RunPhase.Fits (m : Message) (approval : Approval) : RunPhase → Prop
  | .running | .checked => approval.status = .approved
  | .writing status _ reloaded => reloaded = m ∧ approval.status = .approved ∧
      (status = .completed ∨ status = .interrupted)
  | .interrupting => approval.status = .approved ∨ approval.status = .completed
  | .ended => approval.status = .approved ∨ approval.status = .completed ∨
      approval.status = .interrupted

theorem RunPhase.Fits.ne_pending {m : Message} {approval : Approval} {phase : RunPhase}
    (h : phase.Fits m approval) : approval.status ≠ .pending := by
  intro hp
  cases phase with
  | running => cases hp.symm.trans h
  | checked => cases hp.symm.trans h
  | writing status error reloaded => cases hp.symm.trans h.2.1
  | interrupting =>
    rcases h with h | h
    · cases hp.symm.trans h
    · cases hp.symm.trans h
  | ended =>
    rcases h with h | h | h
    · cases hp.symm.trans h
    · cases hp.symm.trans h
    · cases hp.symm.trans h

theorem samePlan_finished (approval : Approval) (status : ApprovalStatus) (error : Option String)
    (now : Instant) :
    approval.SamePlan { approval with status, updatedAt := some now, error } :=
  ⟨rfl, rfl, rfl, rfl, rfl, rfl⟩

theorem mirrors_finished {m : Message} {approval : Approval} (h : Mirrors m approval)
    (status : ApprovalStatus) (error : Option String) (now : Instant) :
    Mirrors (finished m approval status error now)
      { approval with status, updatedAt := some now, error } := by
  obtain ⟨call, hlast, hid⟩ := h.blocked
  constructor
  · refine ⟨{ call with approvalStatus := some status, approvalError := error }, ?_, hid⟩
    have hmap : (finished m approval status error now).metadata.toolCalls.getLast? =
        (m.metadata.toolCalls.getLast?).map fun call => if call.approvalId = some m.id then
          { call with approvalStatus := some status, approvalError := error } else call := by
      simp [finished]
    rw [hmap, hlast, Option.map_some, if_pos hid]
  · intro call' hmem hid'
    obtain ⟨c, hc, rfl⟩ := List.mem_map.mp hmem
    by_cases hcid : c.approvalId = some m.id
    · rw [if_pos hcid]
    · rw [if_neg hcid] at hid'
      exact absurd hid' hcid

theorem mirrors_createApproval {state : AgentGraphState} {conversationId : UUID}
    {route : ModelRoute} {ttlSeconds : ℤ} {approvalId : UUID} {now createdAt : Instant}
    {m : Message} {calls : List ToolCallRecord}
    (h : createApproval state conversationId route ttlSeconds approvalId now createdAt =
      some (m, calls)) (hnew : ∀ call ∈ state.toolCalls, call.approvalId ≠ some approvalId) :
    m.id = approvalId ∧ ∃ approval, m.metadata.approval = some approval ∧
      approval.status = .pending ∧ Mirrors m approval := by
  unfold createApproval at h
  cases hlast : state.toolCalls.getLast? with
  | none => simp [hlast] at h
  | some blocked =>
    rw [hlast] at h
    obtain ⟨rfl, -⟩ := Prod.mk.inj (Option.some.inj h)
    refine ⟨rfl, _, rfl, rfl, ⟨_, List.getLast?_concat .., rfl⟩, fun call hmem hid => ?_⟩
    rcases List.mem_append.mp hmem with hmem | hmem
    · exact absurd hid (hnew call (state.toolCalls.dropLast_sublist.subset hmem))
    · rw [List.mem_singleton.mp hmem]

/-- One transaction of a run whose phase fits the stored approval. -/
theorem ConfirmedRun.step_cases {messages messages' : Table Message} {r r' : ConfirmedRun}
    {now : Instant} {action : RunAction} {m : Message} {approval : Approval}
    (hget : messages.get? r.approvalId = some m) (ha : m.metadata.approval = some approval)
    (hfits : r.phase.Fits m approval)
    (h : r.step messages now action = some (messages', r')) :
    (∃ phase, r' = { r with phase }) ∧
    (messages' = messages ∧ r'.phase.Fits m approval ∨
      ∃ status error, approval.status.Moves status ∧
        messages' = messages.write (finished m approval status error now) ∧
        r'.phase.Fits (finished m approval status error now)
          { approval with status, updatedAt := some now, error }) := by
  obtain ⟨id, userId, conversationId, claimedAt, phase⟩ := r
  cases action with
  | done =>
    cases phase with
    | running =>
      simp only [step, hget] at h
      cases h
      exact ⟨⟨_, rfl⟩, Or.inl ⟨rfl, rfl, hfits, Or.inl rfl⟩⟩
    | _ => cases h
  | commit heard =>
    cases phase with
    | writing status error reloaded =>
      obtain ⟨rfl, happroved, hstatus⟩ := hfits
      simp only [step, ha] at h
      cases h
      refine ⟨⟨_, rfl⟩, Or.inr ⟨status, error, ?_, rfl, ?_⟩⟩
      · rw [happroved]
        rcases hstatus with rfl | rfl
        · exact .complete
        · exact .interrupt
      · show RunPhase.Fits _ _ (if _ then _ else _)
        split_ifs with hlost
        · exact Or.inr hlost.1
        · exact Or.inr hstatus
    | _ => cases h
  | fail =>
    cases phase with
    | running =>
      cases h
      exact ⟨⟨_, rfl⟩, Or.inl ⟨rfl, Or.inl hfits⟩⟩
    | writing status error reloaded =>
      cases status <;> cases h <;> refine ⟨⟨_, rfl⟩, Or.inl ⟨rfl, Or.inl hfits.2.1⟩⟩
    | interrupting =>
      cases h
      exact ⟨⟨_, rfl⟩, Or.inl ⟨rfl, hfits.imp_right Or.inl⟩⟩
    | checked =>
      cases h
      exact ⟨⟨_, rfl⟩, Or.inl ⟨rfl, Or.inl hfits⟩⟩
    | ended => cases h
  | check =>
    cases phase with
    | interrupting =>
      simp only [step, hget, Option.bind_some, ha] at h
      cases h
      refine ⟨⟨_, rfl⟩, Or.inl ⟨rfl, ?_⟩⟩
      show RunPhase.Fits _ _ (if _ then _ else _)
      split_ifs with happroved
      · exact happroved
      · exact hfits.imp_right Or.inl
    | _ => cases h
  | reload =>
    cases phase with
    | checked =>
      simp only [step, hget] at h
      cases h
      exact ⟨⟨_, rfl⟩, Or.inl ⟨rfl, rfl, hfits, Or.inr rfl⟩⟩
    | _ => cases h

inductive Rewrites (now : Instant) (messages : Table Message) : Table Message → Prop where
  | same : Rewrites now messages messages
  | insert {m : Message} {messages' : Table Message} (insert : messages.insert? m = some messages')
      (new : ∀ a, m.metadata.approval = some a → a.status = .pending ∧ Mirrors m a) :
      Rewrites now messages messages'
  | resolve {m : Message} {a : Approval} {status : ApprovalStatus} {error : Option String}
      (get : messages.get? m.id = some m) (ha : m.metadata.approval = some a)
      (moves : a.status.Moves status) :
      Rewrites now messages (messages.write (finished m a status error now))

theorem get?_write_finished {messages : Table Message} {m : Message} {a : Approval}
    {status : ApprovalStatus} {error : Option String} {now : Instant}
    (h : messages.get? m.id = some m) (id : UUID) :
    (messages.write (finished m a status error now)).get? id =
      if m.id = id then some (finished m a status error now) else messages.get? id := by
  rw [Table.get?_write]
  by_cases hid : m.id = id
  · subst hid
    simp [h]
  · simp [hid]

namespace Rewrites

variable {now : Instant} {messages messages' : Table Message}

/-- Every stored approval stays, and moves at most one step. -/
theorem moves (h : Rewrites now messages messages') {id : UUID} {m : Message} {a : Approval}
    (hget : messages.get? id = some m) (ha : m.metadata.approval = some a) :
    ∃ m' a', messages'.get? id = some m' ∧ m'.metadata.approval = some a' ∧
      m'.conversationId = m.conversationId ∧ a.SamePlan a' ∧
      (a'.status = a.status ∨ a.status.Moves a'.status) := by
  cases h with
  | same => exact ⟨m, a, hget, ha, rfl, .refl a, Or.inl rfl⟩
  | @insert new _ hi hnew =>
    have hne : Keyed.key new ≠ id := by
      rintro rfl
      rw [Table.insert?_fresh hi] at hget
      cases hget
    refine ⟨m, a, ?_, ha, rfl, .refl a, Or.inl rfl⟩
    rw [Table.get?_insert? hi, if_neg hne, hget]
  | @resolve m₀ a₀ status error hget₀ ha₀ hmoves =>
    by_cases hid : m₀.id = id
    · subst hid
      obtain rfl := Option.some.inj (hget₀.symm.trans hget)
      obtain rfl := Option.some.inj (ha₀.symm.trans ha)
      exact ⟨finished m₀ a₀ status error now, _, by rw [get?_write_finished hget₀, if_pos rfl], rfl,
        rfl, samePlan_finished a₀ status error now, Or.inr hmoves⟩
    · exact ⟨m, a, by rw [get?_write_finished hget₀, if_neg hid, hget], ha, rfl, .refl a,
        Or.inl rfl⟩

/-- An approval that was not there before is pending. -/
theorem pending_of_new (h : Rewrites now messages messages') {id : UUID} {m' : Message}
    {a' : Approval} (hget : messages'.get? id = some m') (ha : m'.metadata.approval = some a')
    (hnew : (messages.get? id).bind (fun m => m.metadata.approval) = none) :
    a'.status = .pending := by
  cases h with
  | same =>
    rw [hget, Option.bind_some, ha] at hnew
    cases hnew
  | @insert new _ hi hpending =>
    rw [Table.get?_insert? hi] at hget
    split_ifs at hget
    · obtain rfl := Option.some.inj hget
      exact (hpending a' ha).1
    · rw [hget, Option.bind_some, ha] at hnew
      cases hnew
  | @resolve m₀ a₀ status error hget₀ ha₀ hmoves =>
    rw [get?_write_finished hget₀] at hget
    split_ifs at hget with hid
    · subst hid
      rw [hget₀, Option.bind_some, ha₀] at hnew
      cases hnew
    · rw [hget, Option.bind_some, ha] at hnew
      cases hnew

theorem mirrors (h : Rewrites now messages messages')
    (hm : ∀ id m a, messages.get? id = some m → m.metadata.approval = some a → Mirrors m a)
    {id : UUID} {m' : Message} {a' : Approval} (hget : messages'.get? id = some m')
    (ha : m'.metadata.approval = some a') : Mirrors m' a' := by
  cases h with
  | same => exact hm id m' a' hget ha
  | @insert new _ hi hpending =>
    rw [Table.get?_insert? hi] at hget
    split_ifs at hget
    · obtain rfl := Option.some.inj hget
      exact (hpending a' ha).2
    · exact hm id m' a' hget ha
  | @resolve m₀ a₀ status error hget₀ ha₀ hmoves =>
    rw [get?_write_finished hget₀] at hget
    split_ifs at hget
    · obtain rfl := Option.some.inj hget
      obtain rfl := Option.some.inj ha
      exact mirrors_finished (hm _ m₀ a₀ hget₀ ha₀) status error now
    · exact hm id m' a' hget ha

end Rewrites

namespace ApprovalWorld

variable {w w' : ApprovalWorld}

inductive Change (w : ApprovalWorld) (now : Instant) : ApprovalWorld → Prop where
  | idle : Change w now w
  | converse {conversation : Conversation} {conversations : Table Conversation}
      (insert : w.conversations.insert? conversation = some conversations) :
      Change w now { w with conversations }
  | insert {m : Message} {messages : Table Message} (insert : w.messages.insert? m = some messages)
      (new : ∀ a, m.metadata.approval = some a → a.status = .pending ∧ Mirrors m a) :
      Change w now { w with messages }
  | dismiss {conversationId : UUID} {userId : Option UUID} {m : Message} {a : Approval}
      {status : ApprovalStatus}
      (resolves : Resolves w.conversations w.messages conversationId userId m a)
      (moves : ApprovalStatus.Moves .pending status) :
      Change w now { w with messages := w.messages.write (finished m a status none now) }
  | claim {conversationId : UUID} {userId : Option UUID} {m : Message} {a : Approval}
      (resolves : Resolves w.conversations w.messages conversationId userId m a)
      (inTime : now < a.expiresAt) :
      Change w now { w with
        messages := w.messages.write (finished m a .approved none now)
        runs := w.runs ++ [⟨m.id, userId, conversationId, now, .running⟩] }
  | run {i : ℕ} {action : RunAction} {r r' : ConfirmedRun} {messages : Table Message}
      (hi : w.runs[i]? = some r) (step : r.step w.messages now action = some (messages, r')) :
      Change w now { w with messages, runs := w.runs.set i r' }

theorem apply_change {now : Instant} {event : ApprovalEvent} (h : w.apply now event = some w') :
    w.Change now w' := by
  cases event with
  | idle =>
    cases h
    exact .idle
  | openConversation conversation =>
    obtain ⟨conversations, hi, rfl⟩ := Option.map_eq_some_iff.mp h
    exact .converse hi
  | saveMessage message =>
    simp only [apply] at h
    split_ifs at h with hsome
    obtain ⟨messages, hi, rfl⟩ := Option.map_eq_some_iff.mp h
    refine .insert hi fun a ha => absurd ?_ hsome
    rw [ha]
    rfl
  | create state conversationId route ttlSeconds approvalId =>
    simp only [apply] at h
    split_ifs at h with hguard
    split at h
    · cases h
    · next m calls hc =>
      obtain ⟨messages, hi, rfl⟩ := Option.map_eq_some_iff.mp h
      have hnew : ∀ call ∈ state.toolCalls, call.approvalId ≠ some approvalId :=
        fun call hmem heq => hguard (Or.inr ⟨call, hmem, heq⟩)
      obtain ⟨-, approval, happroval, hpending, hmirrors⟩ := mirrors_createApproval hc hnew
      refine .insert hi fun a ha => ?_
      obtain rfl := Option.some.inj (happroval.symm.trans ha)
      exact ⟨hpending, hmirrors⟩
  | claim userId payload =>
    rcases claim_cases w.conversations w.messages userId payload now with
      ⟨e, he⟩ | ⟨m, a, hr, -, ⟨e, he⟩ | ⟨hlt, he⟩⟩
    · simp only [apply, he] at h
      cases h
      exact .idle
    · simp only [apply, he] at h
      cases h
      exact .dismiss hr .expire
    · simp only [apply, he] at h
      cases h
      exact .claim hr hlt
  | cancel userId conversationId approvalId =>
    simp only [apply] at h
    rcases cancel_cases w.conversations w.messages userId conversationId approvalId now with
      hnone | ⟨m, a, hr, status, hs, hrow⟩
    · rw [hnone] at h
      cases h
      exact .idle
    · rw [hrow] at h
      cases h
      rcases hs with rfl | rfl
      · exact .dismiss hr .expire
      · exact .dismiss hr .cancel
  | run i action =>
    simp only [apply] at h
    split at h
    · cases h
    · next r hi =>
      obtain ⟨⟨messages, r'⟩, hs, rfl⟩ := Option.map_eq_some_iff.mp h
      exact .run hi hs

/-- The claim that a run started from was made in time and by the owner of the conversation. -/
structure ClaimOf (w : ApprovalWorld) (r : ConfirmedRun) (m : Message) (a : Approval) : Prop where
  get : w.messages.get? r.approvalId = some m
  approval_eq : m.metadata.approval = some a
  conversation : m.conversationId = r.conversationId
  owner : (w.conversations.get? m.conversationId).map Conversation.userId = some r.userId
  inTime : r.claimedAt < a.expiresAt
  fits : r.phase.Fits m a

structure Inv (w : ApprovalWorld) : Prop where
  mirrors : ∀ id m a, w.messages.get? id = some m → m.metadata.approval = some a → Mirrors m a
  single : (w.runs.map ConfirmedRun.approvalId).Nodup
  claimed : ∀ r ∈ w.runs, ∃ m a, w.ClaimOf r m a

theorem inv_initial (clock : Instant) : (initial clock).Inv :=
  ⟨fun id m a h => by simp [initial] at h, List.nodup_nil, fun r h => absurd h List.not_mem_nil⟩

/-- A change of the world rewrites the messages in one of the three ways. -/
theorem Change.rewrites {now : Instant} (h : w.Change now w') (hinv : w.Inv) :
    Rewrites now w.messages w'.messages := by
  cases h with
  | idle => exact .same
  | converse hi => exact .same
  | insert hi hnew => exact .insert hi hnew
  | dismiss hr hm => exact .resolve hr.get hr.approval_eq (hr.pending ▸ hm)
  | claim hr hlt => exact .resolve hr.get hr.approval_eq (hr.pending ▸ .approve)
  | run hi hs =>
    obtain ⟨m, a, hc⟩ := hinv.claimed _ (List.mem_of_getElem? hi)
    rcases (ConfirmedRun.step_cases hc.get hc.approval_eq hc.fits hs).2 with
      ⟨rfl, -⟩ | ⟨status, error, hm, rfl, -⟩
    · exact .same
    · have hid : m.id = _ := (Table.get?_eq_some.mp hc.get).2
      exact .resolve (hid ▸ hc.get) hc.approval_eq hm

/-- A claim stays what it is as long as its row does not change. -/
theorem ClaimOf.frame {r : ConfirmedRun} {m : Message} {a : Approval} (h : w.ClaimOf r m a)
    (hget : w'.messages.get? r.approvalId = w.messages.get? r.approvalId)
    (hconv : ∀ id c, w.conversations.get? id = some c → w'.conversations.get? id = some c) :
    w'.ClaimOf r m a := by
  refine ⟨hget.trans h.get, h.approval_eq, h.conversation, ?_, h.inTime, h.fits⟩
  obtain ⟨c, hc, hu⟩ := Option.map_eq_some_iff.mp h.owner
  rw [hconv _ c hc]
  exact congrArg some hu

/-- No run holds a pending approval. -/
theorem ClaimOf.ne_id {r : ConfirmedRun} {m m₀ : Message} {a a₀ : Approval}
    (h : w.ClaimOf r m a) (hget : w.messages.get? m₀.id = some m₀)
    (ha : m₀.metadata.approval = some a₀) (hp : a₀.status = .pending) : m₀.id ≠ r.approvalId := by
  intro hid
  rw [hid, h.get] at hget
  obtain rfl := Option.some.inj hget
  obtain rfl := Option.some.inj (h.approval_eq.symm.trans ha)
  exact h.fits.ne_pending hp

/-- The rows of the runs are not touched when a pending approval is resolved. -/
theorem Inv.claimed_write (hinv : w.Inv) {m₀ : Message} {a₀ : Approval} (status : ApprovalStatus)
    (now : Instant) (hget : w.messages.get? m₀.id = some m₀)
    (ha : m₀.metadata.approval = some a₀) (hp : a₀.status = .pending)
    (hmessages : w'.messages = w.messages.write (finished m₀ a₀ status none now))
    (hconv : w'.conversations = w.conversations) {r : ConfirmedRun} (hr : r ∈ w.runs) :
    ∃ m a, w'.ClaimOf r m a := by
  obtain ⟨m, a, hc⟩ := hinv.claimed r hr
  refine ⟨m, a, hc.frame ?_ fun _ _ h => hconv ▸ h⟩
  rw [hmessages, get?_write_finished hget, if_neg (hc.ne_id hget ha hp)]

theorem Change.inv {now : Instant} (h : w.Change now w') (hinv : w.Inv) : w'.Inv := by
  have hmirrors : ∀ id m a, w'.messages.get? id = some m → m.metadata.approval = some a →
      Mirrors m a := fun id m a => (h.rewrites hinv).mirrors hinv.mirrors
  cases h with
  | idle => exact hinv
  | converse hi =>
    refine ⟨hmirrors, hinv.single, fun r hr => ?_⟩
    obtain ⟨m, a, hc⟩ := hinv.claimed r hr
    refine ⟨m, a, hc.frame rfl fun id c hget => ?_⟩
    show Table.get? _ id = _
    rw [Table.get?_insert? hi, if_neg, hget]
    rintro rfl
    rw [Table.insert?_fresh hi] at hget
    cases hget
  | insert hi hnew =>
    refine ⟨hmirrors, hinv.single, fun r hr => ?_⟩
    obtain ⟨m, a, hc⟩ := hinv.claimed r hr
    refine ⟨m, a, hc.frame ?_ fun _ _ h => h⟩
    show Table.get? _ _ = _
    rw [Table.get?_insert? hi, if_neg]
    intro heq
    have hget := hc.get
    rw [← heq, Table.insert?_fresh hi] at hget
    cases hget
  | @dismiss _ _ _ _ status hr hm =>
    refine ⟨hmirrors, hinv.single, fun r hmem => ?_⟩
    refine hinv.claimed_write status now hr.get hr.approval_eq hr.pending ?_ ?_ hmem
    · rfl
    · rfl
  | @claim conversationId userId m₀ a₀ hr hlt =>
    refine ⟨hmirrors, ?_, fun r hmem => ?_⟩
    · show ((w.runs ++ [_]).map ConfirmedRun.approvalId).Nodup
      rw [List.map_append, List.nodup_append]
      refine ⟨hinv.single, by simp, ?_⟩
      rintro id hid _ hid' rfl
      obtain ⟨r, hmem, rfl⟩ := List.mem_map.mp hid
      obtain ⟨m, a, hc⟩ := hinv.claimed r hmem
      have hne := hc.ne_id hr.get hr.approval_eq hr.pending
      have heq : r.approvalId = m₀.id := by simpa using hid'
      exact hne heq.symm
    · rcases List.mem_append.mp hmem with hmem | hmem
      · refine hinv.claimed_write .approved now hr.get hr.approval_eq hr.pending ?_ ?_ hmem
        · rfl
        · rfl
      · obtain rfl := List.mem_singleton.mp hmem
        obtain ⟨hconv, howner, -, -⟩ := hr.selectable
        refine ⟨finished m₀ a₀ .approved none now, _, ?_, rfl, hconv, howner, hlt, rfl⟩
        show (w.messages.write _).get? _ = _
        rw [get?_write_finished hr.get, if_pos rfl]
  | @run i action r r' messages hi hs =>
    obtain ⟨m, a, hc⟩ := hinv.claimed r (List.mem_of_getElem? hi)
    obtain ⟨⟨phase, rfl⟩, hrow⟩ := ConfirmedRun.step_cases hc.get hc.approval_eq hc.fits hs
    have hmap : (w.runs.set i { r with phase }).map ConfirmedRun.approvalId =
        w.runs.map ConfirmedRun.approvalId := map_set_of_getElem? hi rfl
    have hsingle : ((w.runs.set i { r with phase }).map ConfirmedRun.approvalId).Nodup :=
      hmap ▸ hinv.single
    refine ⟨hmirrors, hsingle, fun x hx => ?_⟩
    have hmem : { r with phase } ∈ w.runs.set i { r with phase } :=
      List.mem_set (List.getElem?_eq_some_iff.mp hi).1 _
    by_cases hid : x.approvalId = r.approvalId
    · obtain rfl : x = { r with phase } := List.inj_on_of_nodup_map hsingle hx hmem hid
      rcases hrow with ⟨rfl, hfits⟩ | ⟨status, error, -, rfl, hfits⟩
      · exact ⟨m, a, hc.get, hc.approval_eq, hc.conversation, hc.owner, hc.inTime, hfits⟩
      · have hmid : m.id = r.approvalId := (Table.get?_eq_some.mp hc.get).2
        refine ⟨finished m a status error now, _, ?_, rfl, hc.conversation, hc.owner, hc.inTime,
          hfits⟩
        show (w.messages.write _).get? _ = _
        rw [get?_write_finished (hmid ▸ hc.get), if_pos hmid]
    · obtain ⟨m', a', hc'⟩ : ∃ m' a', w.ClaimOf x m' a' := by
        rcases List.mem_or_eq_of_mem_set hx with hx | rfl
        · exact hinv.claimed x hx
        · exact absurd rfl hid
      refine ⟨m', a', hc'.frame ?_ fun _ _ h => h⟩
      rcases hrow with ⟨rfl, -⟩ | ⟨status, error, -, rfl, -⟩
      · rfl
      · have hmid : m.id = r.approvalId := (Table.get?_eq_some.mp hc.get).2
        show (w.messages.write _).get? _ = _
        rw [get?_write_finished (hmid ▸ hc.get), if_neg (hmid ▸ Ne.symm hid)]

theorem step_change {a : ApprovalAction} (h : w.step a = some w') :
    ∃ v, w.Change a.now v ∧ w' = { v with clock := a.now } := by
  unfold step at h
  split_ifs at h
  obtain ⟨v, hv, rfl⟩ := Option.map_eq_some_iff.mp h
  exact ⟨v, apply_change hv, rfl⟩

theorem Inv.step {a : ApprovalAction} (hinv : w.Inv) (h : w.step a = some w') : w'.Inv := by
  obtain ⟨v, hv, rfl⟩ := step_change h
  have hinv' := hv.inv hinv
  exact ⟨hinv'.mirrors, hinv'.single, fun r hr => by
    obtain ⟨m, a, hc⟩ := hinv'.claimed r hr
    exact ⟨m, a, hc.frame rfl fun _ _ h => h⟩⟩

theorem Reachable.inv (h : w.Reachable) : w.Inv := by
  obtain ⟨clock, hrun⟩ := h
  exact hrun.invariant (inv_initial clock) fun _ _ _ hu hv => hu.step hv

theorem approval?_eq_some {id : UUID} {a : Approval} :
    w.approval? id = some a ↔ ∃ m, w.messages.get? id = some m ∧ m.metadata.approval = some a :=
  Option.bind_eq_some_iff

/-- One step moves each stored approval at most once, keeps its plan, and adds pending ones. -/
structure Advances (w w' : ApprovalWorld) : Prop where
  moves : ∀ id a, w.approval? id = some a → ∃ a', w'.approval? id = some a' ∧ a.SamePlan a' ∧
    (a'.status = a.status ∨ a.status.Moves a'.status)
  starts : ∀ id a', w.approval? id = none → w'.approval? id = some a' → a'.status = .pending

theorem Inv.advances {a : ApprovalAction} (hinv : w.Inv) (h : w.step a = some w') :
    w.Advances w' := by
  obtain ⟨v, hv, rfl⟩ := step_change h
  have hrows := hv.rewrites hinv
  constructor
  · intro id a ha
    obtain ⟨m, hget, ha⟩ := approval?_eq_some.mp ha
    obtain ⟨m', a', hget', ha', -, hplan, hmoves⟩ := hrows.moves hget ha
    exact ⟨a', approval?_eq_some.mpr ⟨m', hget', ha'⟩, hplan, hmoves⟩
  · intro id a' hnone ha'
    obtain ⟨m', hget', ha'⟩ := approval?_eq_some.mp ha'
    exact hrows.pending_of_new hget' ha' hnone

/-- Along a whole run an approval follows the allowed moves and keeps its plan. -/
theorem Inv.later (hinv : w.Inv) (h : w.Later w') {id : UUID} {a : Approval}
    (ha : w.approval? id = some a) :
    ∃ a', w'.approval? id = some a' ∧ a.SamePlan a' ∧
      Relation.ReflTransGen ApprovalStatus.Moves a.status a'.status := by
  refine (h.invariant (I := fun v => v.Inv ∧ ∃ a', v.approval? id = some a' ∧ a.SamePlan a' ∧
    Relation.ReflTransGen ApprovalStatus.Moves a.status a'.status)
    ⟨hinv, a, ha, .refl a, .refl⟩ fun u action v hu hv => ?_).2
  obtain ⟨hu, b, hb, hplan, hpath⟩ := hu
  obtain ⟨c, hc, hplan', hmove⟩ := (hu.advances hv).moves id b hb
  refine ⟨hu.step hv, c, hc, hplan.trans hplan', ?_⟩
  rcases hmove with heq | hmove
  · rwa [heq]
  · exact hpath.tail hmove

/-- A confirmation that does not repeat the stored plan leaves the message as it is. -/
theorem claim_of_mismatch {userId : Option UUID} {payload : ToolConfirmationRequest}
    {now : Instant} {id : UUID} {m : Message} {a : Approval} (hget : w.messages.get? id = some m)
    (ha : m.metadata.approval = some a) (hmis : ¬ Confirms payload a)
    (h : w.step ⟨.claim userId payload, now⟩ = some w') : w'.messages.get? id = some m := by
  unfold step at h
  split_ifs at h
  obtain ⟨v, hv, rfl⟩ := Option.map_eq_some_iff.mp h
  show v.messages.get? id = some m
  have hother {m₀ : Message} {a₀ : Approval} {status : ApprovalStatus}
      (hr : Resolves w.conversations w.messages payload.conversationId userId m₀ a₀)
      (hc : Confirms payload a₀) :
      (w.messages.write (finished m₀ a₀ status none now)).get? id = some m := by
    rw [get?_write_finished hr.get, if_neg, hget]
    rintro rfl
    obtain rfl := Option.some.inj (hr.get.symm.trans hget)
    obtain rfl := Option.some.inj (hr.approval_eq.symm.trans ha)
    exact hmis hc
  rcases claim_cases w.conversations w.messages userId payload now with
    ⟨e, he⟩ | ⟨m₀, a₀, hr, hc, ⟨e, he⟩ | ⟨hlt, he⟩⟩
  · simp only [apply, he] at hv
    cases hv
    exact hget
  · simp only [apply, he] at hv
    cases hv
    exact hother hr hc
  · simp only [apply, he] at hv
    cases hv
    exact hother hr hc

def started (w : ApprovalWorld) (now : Instant) : ApprovalEvent → List UUID
  | .claim userId payload =>
    match (AgentDemo.claim w.conversations w.messages userId payload now).1 with
    | .ok m => [m.id]
    | .error _ => []
  | _ => []

theorem runs_commit (row : Option Message) : (w.commit row).runs = w.runs := by
  cases row with
  | none => rfl
  | some m => rfl

theorem approvalIds_of_step {event : ApprovalEvent} {now : Instant}
    (hinv : w.Inv) (h : w.step ⟨event, now⟩ = some w') :
    w'.runs.map ConfirmedRun.approvalId =
      w.runs.map ConfirmedRun.approvalId ++ w.started now event := by
  unfold step at h
  split_ifs at h
  obtain ⟨v, hv, rfl⟩ := Option.map_eq_some_iff.mp h
  show v.runs.map ConfirmedRun.approvalId = _
  cases event with
  | idle =>
    cases hv
    simp [started]
  | openConversation conversation =>
    obtain ⟨conversations, -, rfl⟩ := Option.map_eq_some_iff.mp hv
    simp [started]
  | saveMessage message =>
    simp only [apply] at hv
    split_ifs at hv
    obtain ⟨messages, -, rfl⟩ := Option.map_eq_some_iff.mp hv
    simp [started]
  | create state conversationId route ttlSeconds approvalId =>
    simp only [apply] at hv
    split_ifs at hv
    split at hv
    · cases hv
    · obtain ⟨messages, -, rfl⟩ := Option.map_eq_some_iff.mp hv
      simp [started]
  | claim userId payload =>
    simp only [apply] at hv
    split at hv
    · next e row hc =>
      cases hv
      simp [started, hc, runs_commit]
    · next m row hc =>
      cases hv
      simp [started, hc]
  | cancel userId conversationId approvalId =>
    cases hv
    simp [started, runs_commit]
  | run i action =>
    simp only [apply] at hv
    split at hv
    · cases hv
    · next r hi =>
      obtain ⟨⟨messages, r'⟩, hs, rfl⟩ := Option.map_eq_some_iff.mp hv
      obtain ⟨m, a, hc⟩ := hinv.claimed r (List.mem_of_getElem? hi)
      obtain ⟨⟨phase, rfl⟩, -⟩ := ConfirmedRun.step_cases hc.get hc.approval_eq hc.fits hs
      simp only [started, List.append_nil]
      exact map_set_of_getElem? hi rfl

/-- In every reachable state each message mirrors its approval, no approval has been claimed
twice, and every claim was made in time by the owner in the right conversation. From there an
approval moves only forward, and a claim that does not match leaves it alone. -/
theorem approval_life_cycle (h : w.Reachable) :
    (∀ id m a, w.messages.get? id = some m → m.metadata.approval = some a → Mirrors m a) ∧
    (w.runs.map ConfirmedRun.approvalId).Nodup ∧
    (∀ r ∈ w.runs, ∃ m a, w.messages.get? r.approvalId = some m ∧ m.metadata.approval = some a ∧
      m.conversationId = r.conversationId ∧
      (w.conversations.get? m.conversationId).map Conversation.userId = some r.userId ∧
      r.claimedAt < a.expiresAt) ∧
    (∀ action w', w.step action = some w' → w.Advances w' ∧
      ∀ userId payload now, action = ⟨.claim userId payload, now⟩ →
        ∀ id m a, w.messages.get? id = some m → m.metadata.approval = some a →
          ¬ Confirms payload a → w'.messages.get? id = some m) ∧
    ∀ w', w.Later w' → ∀ id a, w.approval? id = some a → ∃ a', w'.approval? id = some a' ∧
      a.SamePlan a' ∧ Relation.ReflTransGen ApprovalStatus.Moves a.status a'.status := by
  have hinv := h.inv
  refine ⟨hinv.mirrors, hinv.single, fun r hr => ?_, fun action w' hstep => ?_,
    fun w' hl id a ha => hinv.later hl ha⟩
  · obtain ⟨m, a, hc⟩ := hinv.claimed r hr
    exact ⟨m, a, hc.get, hc.approval_eq, hc.conversation, hc.owner, hc.inTime⟩
  · refine ⟨hinv.advances hstep, ?_⟩
    rintro userId payload now rfl id m a hget ha hmis
    exact claim_of_mismatch hget ha hmis hstep

/-- The sample approval has been claimed once, and a late cancellation cannot move it. -/
theorem approval_life_cycle_sample :
    (sampleApprovals.runs.map ConfirmedRun.approvalId).Nodup ∧
    ∀ w', sampleApprovals.step ⟨.cancel 1 30 50, seconds 6⟩ = some w' →
      sampleApprovals.Advances w' :=
  ⟨(approval_life_cycle reachable_sampleApprovals).2.1, fun w' h =>
    ((approval_life_cycle reachable_sampleApprovals).2.2.2.1 ⟨.cancel 1 30 50, seconds 6⟩ w' h).1⟩

end ApprovalWorld

end AgentDemo
