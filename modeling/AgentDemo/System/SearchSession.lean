import AgentDemo.System.Approvals
import AgentDemo.System.SearchEnds

/-! A search over all its runs: the chat run that starts it, the decisions on its approvals, and
the confirmed runs that take it up again. -/
namespace AgentDemo

/-- The messages, the requests of all runs so far, the approvals that they have stored, and how
the latest run has ended. -/
structure SearchSession where
  messages : Table Message
  log : AgentLog
  approvals : List UUID
  last : GraphEnd

def saveAll (messages : Table Message) : List Message → Option (Table Message)
  | [] => some messages
  | m :: rest => (messages.insert? m).bind fun messages' => saveAll messages' rest

def commitRow (messages : Table Message) : Option Message → Table Message
  | none => messages
  | some m => messages.write m

namespace SearchSession

/-- A chat run that starts with a search plan. -/
structure Begins (reader : TextReader) (settings : AgentSettings) (tools : SearchTools)
    (text : String) (plan : AgentToolPlan) (s : SearchSession) : Prop where
  run : ∃ route userId conversationId taskType traceId,
    (stream reader settings route userId none conversationId text taskType traceId).RunsWith
      tools.Answers s.log s.last
  first : firstPlan s.log = some plan
  search : plan.toolName = some webSearchToolName
  saved : ∃ messages, saveAll messages (savedApprovals settings s.log) = some s.messages
  approvals : s.approvals = (savedApprovals settings s.log).map Message.id

inductive Decision where
  | confirm (payload : ToolConfirmationRequest)
  | cancel (conversationId approvalId : UUID)
  | none

/-- What happens to a search between and in its runs. Other clients and runs change rows of their
own at any time. -/
inductive Step (reader : TextReader) (settings : AgentSettings) (tools : SearchTools) :
    SearchSession → Decision → SearchSession → Prop where
  | elsewhere {s : SearchSession} {messages : Table Message}
      (same : ∀ id ∈ s.approvals, messages.get? id = s.messages.get? id) :
      Step reader settings tools s .none { s with messages }
  | refused {s : SearchSession} {conversations : Table Conversation} {userId : Option UUID}
      {payload : ToolConfirmationRequest} {now : Instant} {e : HttpException}
      {row : Option Message}
      (claimed : claim conversations s.messages userId payload now = (.error e, row)) :
      Step reader settings tools s (.confirm payload)
        { s with messages := commitRow s.messages row }
  | confirmed {s : SearchSession} {conversations : Table Conversation} {userId : Option UUID}
      {payload : ToolConfirmationRequest} {now : Instant} {m : Message} {row : Option Message}
      {stored : Approval} {route : String → String → ModelRoute} {traceId : String}
      {log : AgentLog} {r : GraphEnd} {messages : Table Message}
      (claimed : claim conversations s.messages userId payload now = (.ok m, row))
      (mine : m.id ∈ s.approvals) (approval : m.metadata.approval = some stored)
      (run : (streamConfirmedTool reader settings route userId m stored traceId).RunsWith
        tools.Answers log r)
      (saved : saveAll (commitRow s.messages row) (savedApprovals settings log) = some messages) :
      Step reader settings tools s (.confirm payload)
        ⟨messages, s.log ++ log, s.approvals ++ (savedApprovals settings log).map Message.id, r⟩
  | cancelled {s : SearchSession} {conversations : Table Conversation}
      {userId conversationId approvalId : UUID} {now : Instant} :
      Step reader settings tools s (.cancel conversationId approvalId)
        { s with
          messages := commitRow s.messages
            (AgentDemo.cancel conversations s.messages userId conversationId approvalId now).2 }
  | finished {s : SearchSession} {m : Message} {approval : Approval} {status : ApprovalStatus}
      {error : Option String} {now : Instant} (get : s.messages.get? m.id = some m)
      (stored : m.metadata.approval = some approval) (approved : approval.status = .approved)
      (ended : status = .completed ∨ status = .interrupted) :
      Step reader settings tools s .none
        { s with messages := s.messages.write (AgentDemo.finished m approval status error now) }

/-- A later state of the search. -/
abbrev Later (reader : TextReader) (settings : AgentSettings) (tools : SearchTools) :
    SearchSession → SearchSession → Prop :=
  Transition.Reaches (Step reader settings tools)

def status (s : SearchSession) (id : UUID) : Option ApprovalStatus :=
  (s.messages.get? id).bind fun m => m.metadata.approval.map Approval.status

end SearchSession

def ApprovalStatus.Confirmed : ApprovalStatus → Prop
  | .approved | .completed | .interrupted => True
  | _ => False

/-- A row that stays, or whose approval moves without becoming approved. -/
inductive RowMoves (row : Option Message) : Option Message → Prop where
  | same : RowMoves row row
  | moved {m m' : Message} {approval approval' : Approval} (get : row = some m)
      (stored : m.metadata.approval = some approval)
      (stored' : m'.metadata.approval = some approval')
      (moves : approval.status.Moves approval'.status) (unapproved : approval'.status ≠ .approved) :
      RowMoves row (some m')

theorem rowMoves_write {messages : Table Message} {m : Message} {approval : Approval}
    {status : ApprovalStatus} {error : Option String} {now : Instant}
    (hget : messages.get? m.id = some m) (hstored : m.metadata.approval = some approval)
    (hmoves : approval.status.Moves status) (hunapproved : status ≠ .approved) (id : UUID) :
    RowMoves (messages.get? id)
      ((messages.write (finished m approval status error now)).get? id) := by
  rw [Table.get?_write]
  split_ifs with hid
  · have hid : m.id = id := hid
    rw [← hid, hget]
    exact .moved rfl hstored rfl hmoves hunapproved
  · exact .same

theorem rowMoves_claim {conversations : Table Conversation} {messages : Table Message}
    {userId : Option UUID} {payload : ToolConfirmationRequest} {now : Instant} {e : HttpException}
    {row : Option Message}
    (h : claim conversations messages userId payload now = (.error e, row)) (id : UUID) :
    RowMoves (messages.get? id) ((commitRow messages row).get? id) := by
  rcases claim_cases conversations messages userId payload now with
    ⟨e', he⟩ | ⟨m, approval, hresolves, -, ⟨e', he⟩ | ⟨-, hok⟩⟩
  · obtain rfl : row = none := congrArg Prod.snd (h.symm.trans he)
    exact .same
  · obtain rfl : row = some (finished m approval .expired none now) :=
      congrArg Prod.snd (h.symm.trans he)
    have hmoves : approval.status.Moves .expired := by
      rw [hresolves.pending]
      exact .expire
    exact rowMoves_write hresolves.get hresolves.approval_eq hmoves (by decide) id
  · have hreply := congrArg Prod.fst (h.symm.trans hok)
    cases hreply

theorem rowMoves_cancel {conversations : Table Conversation} {messages : Table Message}
    {userId conversationId approvalId : UUID} {now : Instant} (id : UUID) :
    RowMoves (messages.get? id) ((commitRow messages
      (cancel conversations messages userId conversationId approvalId now).2).get? id) := by
  rcases cancel_cases conversations messages userId conversationId approvalId now with
    hnone | ⟨m, approval, hresolves, status, hstatus, hrow⟩
  · rw [hnone]
    exact .same
  · rw [hrow]
    rcases hstatus with rfl | rfl
    · have hmoves : approval.status.Moves .expired := by
        rw [hresolves.pending]
        exact .expire
      exact rowMoves_write hresolves.get hresolves.approval_eq hmoves (by decide) id
    · have hmoves : approval.status.Moves .cancelled := by
        rw [hresolves.pending]
        exact .cancel
      exact rowMoves_write hresolves.get hresolves.approval_eq hmoves (by decide) id

theorem get?_saveAll {messages messages' : Table Message} {ms : List Message}
    (h : saveAll messages ms = some messages') {id : UUID} (hid : (messages.get? id).isSome) :
    messages'.get? id = messages.get? id ∧ id ∉ ms.map Message.id := by
  induction ms generalizing messages with
  | nil =>
    obtain rfl : messages = messages' := Option.some.inj h
    exact ⟨rfl, List.not_mem_nil⟩
  | cons m rest ih =>
    obtain ⟨between, hinsert, hrest⟩ := Option.bind_eq_some_iff.mp h
    have hne : m.id ≠ id := by
      rintro rfl
      have hfresh : messages.get? m.id = none := Table.insert?_fresh hinsert
      rw [hfresh] at hid
      cases hid
    have hbetween : between.get? id = messages.get? id := by
      rw [Table.get?_insert? hinsert]
      exact if_neg hne
    obtain ⟨hsame, hnotin⟩ := ih hrest (hbetween ▸ hid)
    refine ⟨hsame.trans hbetween, ?_⟩
    rw [List.map_cons, List.mem_cons, not_or]
    exact ⟨hne.symm, hnotin⟩

namespace SearchSession

section

variable {reader : TextReader} {settings : AgentSettings} {tools : SearchTools} {text : String}
  {plan : AgentToolPlan} {s s' : SearchSession} {fetched : List SearchTarget}

structure Quiet (s s' : SearchSession) : Prop where
  log : s'.log = s.log
  approvals : s'.approvals = s.approvals
  last : s'.last = s.last
  rows : ∀ id ∈ s.approvals, RowMoves (s.messages.get? id) (s'.messages.get? id)

/-- A confirmed run: the approval that it claims, its requests and what it has stored. -/
structure Resumes (reader : TextReader) (settings : AgentSettings) (tools : SearchTools)
    (s s' : SearchSession) (m : Message) (approval : Approval) (now : Instant) (log : AgentLog) :
    Prop where
  mine : m.id ∈ s.approvals
  get : s.messages.get? m.id = some m
  stored : m.metadata.approval = some approval
  pending : approval.status = .pending
  run : ∃ route userId traceId stored,
    (finished m approval .approved none now).metadata.approval = some stored ∧
      (streamConfirmedTool reader settings route userId (finished m approval .approved none now)
        stored traceId).RunsWith tools.Answers log s'.last
  saved : saveAll (s.messages.write (finished m approval .approved none now))
    (savedApprovals settings log) = some s'.messages
  logged : s'.log = s.log ++ log
  approvals : s'.approvals = s.approvals ++ (savedApprovals settings log).map Message.id

/-- Everything that a step can do. -/
theorem Step.cases {d : Decision} (h : Step reader settings tools s d s') :
    Quiet s s' ∨ ∃ m approval now log, Resumes reader settings tools s s' m approval now log := by
  cases h with
  | elsewhere same =>
    refine Or.inl ⟨rfl, rfl, rfl, fun id hid => ?_⟩
    have hsame := same id hid
    exact hsame ▸ RowMoves.same
  | refused claimed => exact Or.inl ⟨rfl, rfl, rfl, fun id _ => rowMoves_claim claimed id⟩
  | cancelled => exact Or.inl ⟨rfl, rfl, rfl, fun id _ => rowMoves_cancel id⟩
  | finished get stored approved ended =>
    refine Or.inl ⟨rfl, rfl, rfl, fun id _ => ?_⟩
    rcases ended with rfl | rfl
    · exact rowMoves_write get stored (approved ▸ .complete) (by decide) id
    · exact rowMoves_write get stored (approved ▸ .interrupt) (by decide) id
  | @confirmed conversations userId payload now m row stored route traceId log r messages
      claimed mine approval run saved =>
    right
    rcases claim_cases conversations s.messages userId payload now with
      ⟨e, he⟩ | ⟨m', approval', hresolves, -, ⟨e, he⟩ | ⟨-, hok⟩⟩
    · cases congrArg Prod.fst (claimed.symm.trans he)
    · cases congrArg Prod.fst (claimed.symm.trans he)
    · have hm : m = AgentDemo.finished m' approval' .approved none now :=
        Except.ok.inj (congrArg Prod.fst (claimed.symm.trans hok))
      obtain rfl : row = some (AgentDemo.finished m' approval' .approved none now) :=
        congrArg Prod.snd (claimed.symm.trans hok)
      subst hm
      exact ⟨m', approval', now, log, mine, hresolves.get, hresolves.approval_eq,
        hresolves.pending, ⟨route, userId, traceId, stored, approval, run⟩, saved, rfl, rfl⟩

theorem status_of_rowMoves {id : UUID}
    (h : RowMoves (s.messages.get? id) (s'.messages.get? id)) :
    s'.status id = s.status id ∨ ∃ a b, s.status id = some a ∧ s'.status id = some b ∧
      a.Moves b ∧ b ≠ .approved := by
  unfold status
  generalize s.messages.get? id = row at h ⊢
  generalize s'.messages.get? id = row' at h ⊢
  cases h with
  | same => exact Or.inl rfl
  | moved get stored stored' moves unapproved =>
    subst get
    exact Or.inr ⟨_, _, by simp [stored], by simp [stored'], moves, unapproved⟩

def Resolved (s : SearchSession) : Prop :=
  ∀ id ∈ s.approvals, ∃ status, s.status id = some status ∧ status ≠ .pending

def AllConfirmed (s : SearchSession) (ids : List UUID) : Prop :=
  ∀ id ∈ ids, ∃ status, s.status id = some status ∧ status.Confirmed

theorem AllConfirmed.quiet {ids : List UUID} (h : s.AllConfirmed ids) (hq : Quiet s s')
    (hsub : ∀ id ∈ ids, id ∈ s.approvals) : s'.AllConfirmed ids := by
  intro id hid
  obtain ⟨status, hstatus, hconfirmed⟩ := h id hid
  rcases status_of_rowMoves (hq.rows id (hsub id hid)) with heq | ⟨a, b, ha, hb, hmoves, -⟩
  · exact ⟨status, heq.trans hstatus, hconfirmed⟩
  · obtain rfl : a = status := Option.some.inj (ha.symm.trans hstatus)
    refine ⟨b, hb, ?_⟩
    cases hmoves <;> first | exact hconfirmed.elim | trivial

theorem Resolved.quiet (h : s.Resolved) (hq : Quiet s s') : s'.Resolved := by
  intro id hid
  rw [hq.approvals] at hid
  obtain ⟨status, hstatus, hne⟩ := h id hid
  rcases status_of_rowMoves (hq.rows id hid) with heq | ⟨a, b, ha, hb, hmoves, -⟩
  · exact ⟨status, heq.trans hstatus, hne⟩
  · refine ⟨b, hb, ?_⟩
    rintro rfl
    cases hmoves

/-- Without a pending approval nothing runs any more. -/
theorem Resolved.step {d : Decision} (h : s.Resolved) (hs : Step reader settings tools s d s') :
    s'.Resolved ∧ s'.log = s.log := by
  rcases hs.cases with hq | ⟨m, approval, now, log, hresumes⟩
  · exact ⟨h.quiet hq, hq.log⟩
  · obtain ⟨status, hstatus, hne⟩ := h m.id hresumes.mine
    have hpending : s.status m.id = some .pending := by
      simp [SearchSession.status, hresumes.get, hresumes.stored, hresumes.pending]
    exact absurd (Option.some.inj (hstatus.symm.trans hpending)) hne

theorem Resolved.later (h : s.Resolved) (hl : Later reader settings tools s s') :
    s'.log = s.log := by
  have hall := hl.invariant (I := fun u => u.Resolved ∧ u.log = s.log) ⟨h, rfl⟩
    fun u d v hu hv => ⟨(hu.1.step hv).1, ((hu.1.step hv).2).trans hu.2⟩
  exact hall.2

theorem AllConfirmed.resolved (h : s.AllConfirmed s.approvals) : s.Resolved := by
  intro id hid
  obtain ⟨status, hstatus, hconfirmed⟩ := h id hid
  refine ⟨status, hstatus, ?_⟩
  rintro rfl
  exact hconfirmed.elim

/-- Where a search stands behind the pages that it has dispatched. -/
inductive Phase (reader : TextReader) (settings : AgentSettings) (tools : SearchTools)
    (text : String) (plan : AgentToolPlan) (s : SearchSession) (fetched : List SearchTarget) :
    Prop where
  | answered {final : AgentGraphState} (last : s.last = .answered final)
      (trace : final.searchTrace = tools.wholeTrace reader settings plan.arguments)
      (confirmed : s.AllConfirmed s.approvals)
  | waiting {older : List UUID} {m : Message} {tool : RegisteredTool} {target : SearchTarget}
      {rest : List SearchTarget} (approvals : s.approvals = older ++ [m.id])
      (confirmed : s.AllConfirmed older) (get : s.messages.get? m.id = some m)
      (pending : m.metadata.approval.map Approval.status = some .pending)
      (position : tools.Position reader settings plan.arguments tool fetched target rest)
      (stored : tools.Stored reader settings text plan.arguments tool fetched target rest m)
  | stopped (resolved : s.Resolved) (declined : ¬ s.AllConfirmed s.approvals)

/-- The invariant of a search. -/
structure Faithful (reader : TextReader) (settings : AgentSettings) (tools : SearchTools)
    (text : String) (plan : AgentToolPlan) (s : SearchSession) : Prop where
  fits : text.length ≤ settings.contextMaxChars
  progress : ∃ fetched, fetched <+: tools.pages reader plan.arguments ∧
    dispatchedCalls s.log =
      (webSearchToolName, plan.arguments) :: fetched.map (pageCall settings) ∧
    Phase reader settings tools text plan s fetched

theorem AllConfirmed.of_quiet {ids : List UUID} (h : s'.AllConfirmed ids) (hq : Quiet s s')
    (hsub : ∀ id ∈ ids, id ∈ s.approvals) : s.AllConfirmed ids := by
  intro id hid
  obtain ⟨status, hstatus, hconfirmed⟩ := h id hid
  rcases status_of_rowMoves (hq.rows id (hsub id hid)) with heq | ⟨a, b, ha, hb, hmoves, hne⟩
  · exact ⟨status, heq.symm.trans hstatus, hconfirmed⟩
  · obtain rfl : b = status := Option.some.inj (hb.symm.trans hstatus)
    refine ⟨a, ha, ?_⟩
    cases hmoves <;> first | exact absurd rfl hne | exact hconfirmed.elim | trivial

theorem Faithful.quiet (h : Faithful reader settings tools text plan s) (hq : Quiet s s') :
    Faithful reader settings tools text plan s' := by
  obtain ⟨fetched, hsub, hcalls, hphase⟩ := h.progress
  refine ⟨h.fits, fetched, hsub, by rw [hq.log, hcalls], ?_⟩
  cases hphase with
  | answered last trace confirmed =>
    refine .answered (hq.last.trans last) trace ?_
    rw [hq.approvals]
    exact confirmed.quiet hq fun _ hid => hid
  | @waiting older m tool target rest approvals confirmed get pending position stored =>
    have hmem : m.id ∈ s.approvals := by
      rw [approvals]
      exact List.mem_append_right _ List.mem_cons_self
    have holder : s'.AllConfirmed older := by
      refine confirmed.quiet hq fun id hid => ?_
      rw [approvals]
      exact List.mem_append_left _ hid
    have hrow := hq.rows m.id hmem
    rw [get] at hrow
    generalize hnow : s'.messages.get? m.id = row' at hrow
    cases hrow with
    | same => exact .waiting (hq.approvals.trans approvals) holder hnow pending position stored
    | @moved m₀ m' approval approval' get₀ stored₀ stored' moves unapproved =>
      obtain rfl : m = m₀ := Option.some.inj get₀
      have hpending : approval.status = .pending := by simpa [stored₀] using pending
      rw [hpending] at moves
      have hstatus : s'.status m.id = some approval'.status := by
        simp [SearchSession.status, hnow, stored']
      refine .stopped ?_ ?_
      · intro id hid
        rw [hq.approvals, approvals] at hid
        rcases List.mem_append.mp hid with hid | hid
        · obtain ⟨status, hs, hconfirmed⟩ := holder id hid
          refine ⟨status, hs, ?_⟩
          rintro rfl
          exact hconfirmed.elim
        · rw [List.mem_singleton.mp hid]
          refine ⟨_, hstatus, fun hp => ?_⟩
          rw [hp] at moves
          cases moves
      · intro hall
        obtain ⟨status, hs, hconfirmed⟩ := hall m.id (hq.approvals ▸ hmem)
        obtain rfl : approval'.status = status := Option.some.inj (hstatus.symm.trans hs)
        generalize approval'.status = status at moves unapproved hconfirmed
        cases moves with
        | approve => exact unapproved rfl
        | cancel => exact hconfirmed
        | expire => exact hconfirmed
  | stopped resolved declined =>
    refine .stopped (resolved.quiet hq) fun hall => declined ?_
    rw [hq.approvals] at hall
    exact hall.of_quiet hq fun _ hid => hid

/-- The approval that a confirmed run claims is the one that the search waits for. -/
theorem Phase.resumes {m : Message} {approval : Approval} {now : Instant} {log : AgentLog}
    (h : Phase reader settings tools text plan s fetched)
    (hr : Resumes reader settings tools s s' m approval now log) :
    ∃ older tool target rest, s.approvals = older ++ [m.id] ∧ s.AllConfirmed older ∧
      tools.Position reader settings plan.arguments tool fetched target rest ∧
      tools.Stored reader settings text plan.arguments tool fetched target rest m := by
  have hpending : s.status m.id = some .pending := by
    simp [SearchSession.status, hr.get, hr.stored, hr.pending]
  have hunconfirmed {ids : List UUID} (hall : s.AllConfirmed ids) : m.id ∉ ids := by
    intro hmem
    obtain ⟨status, hstatus, hconfirmed⟩ := hall m.id hmem
    obtain rfl : status = .pending := Option.some.inj (hstatus.symm.trans hpending)
    exact hconfirmed
  cases h with
  | answered last trace confirmed => exact absurd hr.mine (hunconfirmed confirmed)
  | @waiting older m' tool target rest approvals confirmed get pending position stored =>
    have hmem := hr.mine
    rw [approvals] at hmem
    have hid : m.id = m'.id := by
      rcases List.mem_append.mp hmem with hmem | hmem
      · exact absurd hmem (hunconfirmed confirmed)
      · exact List.mem_singleton.mp hmem
    have hget := hr.get
    rw [hid, get] at hget
    obtain rfl : m' = m := Option.some.inj hget
    exact ⟨older, tool, target, rest, approvals, confirmed, position, stored⟩
  | stopped resolved declined =>
    obtain ⟨status, hstatus, hne⟩ := resolved m.id hr.mine
    exact absurd (Option.some.inj (hstatus.symm.trans hpending)) hne

end

end SearchSession

/-- Confirming an approval keeps what a confirmed run needs. -/
theorem SearchTools.Stored.finished {tools : SearchTools} {reader : TextReader}
    {settings : AgentSettings} {text : String} {arguments : JsonObject} {tool : RegisteredTool}
    {fetched rest : List SearchTarget} {target : SearchTarget} {m : Message}
    {approval : Approval} {status : ApprovalStatus} {error : Option String} {now : Instant}
    (h : tools.Stored reader settings text arguments tool fetched target rest m)
    (happroval : m.metadata.approval = some approval) :
    tools.Stored reader settings text arguments tool fetched target rest
      (finished m approval status error now) := by
  obtain ⟨approval', happroval', hname, harguments, htext⟩ := h.approval
  obtain rfl : approval' = approval := Option.some.inj (happroval'.symm.trans happroval)
  refine ⟨⟨_, rfl, hname, harguments, htext⟩, h.continuation, ?_⟩
  have htarget := h.target
  simp only [AgentDemo.finished, List.getLast?_map]
  cases hlast : m.metadata.toolCalls.getLast? with
  | none => simp [hlast] at htarget
  | some call =>
    have hcall : call.searchTarget = some target := by simpa [hlast] using htarget
    simp only [Option.map_some, Option.bind_some]
    split_ifs
    · exact hcall
    · exact hcall

theorem get?_saveAll_singleton {messages messages' : Table Message} {m : Message}
    (h : saveAll messages [m] = some messages') : messages'.get? m.id = some m := by
  obtain ⟨between, hinsert, hrest⟩ := Option.bind_eq_some_iff.mp h
  obtain rfl : between = messages' := Option.some.inj hrest
  rw [Table.get?_insert? hinsert]
  exact if_pos rfl

namespace SearchSession

section

variable {reader : TextReader} {settings : AgentSettings} {tools : SearchTools} {text : String}
  {plan : AgentToolPlan} {s s' : SearchSession}

/-- A confirmed run keeps the invariant. -/
theorem Faithful.resumes {m : Message} {approval : Approval} {now : Instant} {log : AgentLog}
    (h : Faithful reader settings tools text plan s)
    (hr : Resumes reader settings tools s s' m approval now log) :
    Faithful reader settings tools text plan s' := by
  obtain ⟨fetched, -, hcalls, hphase⟩ := h.progress
  obtain ⟨older, tool, target, rest, happrovals, holder, hposition, hstored⟩ := hphase.resumes hr
  obtain ⟨route, userId, traceId, stored, happroval, hrun⟩ := hr.run
  obtain ⟨approvals, hends, heffects⟩ := ends_streamConfirmedTool hposition
    (hstored.finished hr.stored) happroval h.fits hrun
  have hsaved := hr.saved
  have hnew := hr.approvals
  rw [heffects.approvals] at hsaved hnew
  have hpages : fetched ++ [target] <+: tools.pages reader plan.arguments := by
    refine ⟨rest, ?_⟩
    rw [hposition.pages, List.append_assoc, List.singleton_append]
  have hlog : dispatchedCalls s'.log =
      (webSearchToolName, plan.arguments) :: (fetched ++ [target]).map (pageCall settings) := by
    have happend : dispatchedCalls (s.log ++ log) = dispatchedCalls s.log ++ dispatchedCalls log :=
      List.filterMap_append
    rw [hr.logged, happend, hcalls, heffects.calls, List.map_append]
    rfl
  -- the rows of the older approvals stay, the claimed one is approved
  have hconfirmed : s'.AllConfirmed s.approvals := by
    have hrow {id : UUID} {row : Message}
        (hid : (s.messages.write (finished m approval .approved none now)).get? id = some row) :
        s'.messages.get? id = some row := by
      rw [(get?_saveAll hsaved (hid ▸ rfl)).1, hid]
    intro id hid
    rw [happrovals] at hid
    by_cases hm : m.id = id
    · subst hm
      refine ⟨.approved, ?_, trivial⟩
      have hwritten : (s.messages.write (finished m approval .approved none now)).get? m.id =
          some (finished m approval .approved none now) := by
        rw [Table.get?_write, hr.get]
        exact if_pos rfl
      simp [SearchSession.status, hrow hwritten, finished]
    · have hid : id ∈ older := (List.mem_append.mp hid).resolve_right fun hlast =>
        hm (List.mem_singleton.mp hlast).symm
      obtain ⟨status, hstatus, hconfirmed⟩ := holder id hid
      refine ⟨status, ?_, hconfirmed⟩
      unfold SearchSession.status at hstatus ⊢
      cases hget : s.messages.get? id with
      | none => simp [hget] at hstatus
      | some row =>
        have hwritten : (s.messages.write (finished m approval .approved none now)).get? id =
            some row := by
          rw [Table.get?_write, hget]
          exact if_neg hm
        rw [hget] at hstatus
        rw [hrow hwritten]
        exact hstatus
  refine ⟨h.fits, fetched ++ [target], hpages, hlog, ?_⟩
  generalize hlast : s'.last = last at hends
  cases hends with
  | answered trace sub =>
    refine .answered hlast trace ?_
    rw [hnew, List.map_nil, List.append_nil]
    exact hconfirmed
  | paused position stored pending =>
    rw [List.map_singleton] at hnew
    exact .waiting hnew hconfirmed (get?_saveAll_singleton hsaved) pending position stored

/-- The invariant holds where a search begins. -/
theorem Begins.faithful (h : Begins reader settings tools text plan s) :
    Faithful reader settings tools text plan s := by
  obtain ⟨route, userId, conversationId, taskType, traceId, hrun⟩ := h.run
  obtain ⟨messages, hsaved⟩ := h.saved
  obtain ⟨hfits, fetched, approvals, hends, heffects⟩ := ends_stream h.first h.search hrun
  have hnew := h.approvals
  rw [heffects.approvals] at hsaved hnew
  generalize hlast : s.last = last at hends
  cases hends with
  | answered trace sub =>
    refine ⟨hfits, fetched, sub, heffects.calls, .answered hlast trace ?_⟩
    rw [hnew]
    exact fun _ hid => absurd hid List.not_mem_nil
  | paused position stored pending =>
    refine ⟨hfits, fetched, ⟨_, position.pages.symm⟩, heffects.calls, ?_⟩
    have hnone : s.AllConfirmed [] := fun _ hid => absurd hid List.not_mem_nil
    exact .waiting hnew hnone (get?_saveAll_singleton hsaved) pending position stored

/-- The invariant holds at every later point of a search. -/
theorem Begins.later {start : SearchSession}
    (h : Begins reader settings tools text plan start)
    (hl : Later reader settings tools start s) : Faithful reader settings tools text plan s := by
  refine hl.invariant h.faithful fun u d v hu hv => ?_
  rcases hv.cases with hq | ⟨m, approval, now, log, hr⟩
  · exact hu.quiet hq
  · exact hu.resumes hr

end

end SearchSession

end AgentDemo
