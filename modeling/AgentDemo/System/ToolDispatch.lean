import AgentDemo.Services.ToolExecution
import AgentDemo.System.AgentRuns
import AgentDemo.System.FetchUrlGuard

/-! A call of a tool invokes it once at most, behind every gate. -/
namespace AgentDemo

def ExecutorEffect.isInvoke : ExecutorEffect → Bool
  | .invoke _ => true
  | _ => false

def ExecutorEffect.isAudit : ExecutorEffect → Bool
  | .audit _ _ => true
  | _ => false

section run

variable {config : ExecutorConfig} {tool : ExecutableTool} {call : ExecutorCall}
  {s : CallSurroundings}

/-- The gates that a call passes before the tool is invoked. -/
structure Dispatches (config : ExecutorConfig) (tool : ExecutableTool) (call : ExecutorCall)
    (s : CallSurroundings) : Prop where
  admitted : refusal tool.tool call.confirmed = none
  valid :
    validateArguments config.arguments config.validator tool.parameters call.arguments = .ok ()
  leased : call.session = true → call.taskId.isSome → s.leaseCancelled = false ∧
    ∃ task,
      barrier s.tasks s.currentTaskLease call.taskId tool.tool s.leaseAt s.blockedAt = .ok task
  uninterrupted : s.interruption = none
  checked : dispatchChecks config tool call = .ok ()

def barrierEffects (tool : ExecutableTool) (call : ExecutorCall) (s : CallSurroundings) :
    List ExecutorEffect :=
  if !call.session || call.taskId.isNone then []
  else
    match barrier s.tasks s.currentTaskLease call.taskId tool.tool s.leaseAt s.blockedAt with
    | .ok (some task) => [.barrier task]
    | _ => []

/-- Ways in which the awaited part ends without the tool. -/
def CallOutcome.WithoutTool : CallOutcome → Prop
  | .raisedHttp (some _) | .raised (some _) | .timedOut | .cancelled => True
  | _ => False

theorem dispatchChecks_error {outcome : CallOutcome}
    (h : dispatchChecks config tool call = .error outcome) : outcome.WithoutTool := by
  unfold dispatchChecks at h
  cases hprovider : tool.tool.provider with
  | localPlugin =>
    simp only [hprovider] at h
    split_ifs at h
    cases h
    trivial
  | mcpServer =>
    simp only [hprovider] at h
    split_ifs at h
    · cases h
      trivial
    all_goals
      split at h
      · cases h
        trivial
      · cases h
        trivial
      · split at h
        · cases h
          trivial
        · cases h

theorem dispatchTool_cases (config : ExecutorConfig) (tool : ExecutableTool) (call : ExecutorCall)
    (s : CallSurroundings) :
    ((dispatchTool config tool call s).1 = [] ∧ (dispatchTool config tool call s).2.WithoutTool ∧
      ¬ (s.interruption = none ∧ dispatchChecks config tool call = .ok ())) ∨
    (s.interruption = none ∧ dispatchChecks config tool call = .ok () ∧
      dispatchTool config tool call s = ([.invoke call.arguments], s.outcome)) := by
  unfold dispatchTool
  cases hinterrupt : s.interruption with
  | some interruption =>
    left
    cases interruption <;> exact ⟨rfl, trivial, by simp⟩
  | none =>
    cases hchecks : dispatchChecks config tool call with
    | error outcome => exact Or.inl ⟨rfl, dispatchChecks_error hchecks, by simp⟩
    | ok => exact Or.inr ⟨rfl, rfl, rfl⟩

/-- The `try` block invokes the tool behind the lease check, or ends without it. -/
theorem attemptTool_cases (config : ExecutorConfig) (s : CallSurroundings)
    (hadmitted : refusal tool.tool call.confirmed = none) :
    ((∀ e ∈ (attemptTool config tool call s).1, e.isInvoke = false ∧ e.isAudit = false) ∧
      (attemptTool config tool call s).2.WithoutTool ∧ ¬ Dispatches config tool call s) ∨
    (Dispatches config tool call s ∧ attemptTool config tool call s =
      (barrierEffects tool call s ++ [.invoke call.arguments], s.outcome)) := by
  unfold attemptTool barrierEffects
  cases hvalid : validateArguments config.arguments config.validator tool.parameters
      call.arguments with
  | error e =>
    left
    refine ⟨by simp, trivial, fun h => ?_⟩
    have hok := h.valid
    rw [hvalid] at hok
    cases hok
  | ok =>
    by_cases hfree : (!call.session || call.taskId.isNone) = true
    · simp only [hfree, if_true]
      rcases dispatchTool_cases config tool call s with
        ⟨hnil, hout, hnot⟩ | ⟨hinterrupt, hchecks, hrun⟩
      · left
        exact ⟨by simp [hnil], hout, fun h => hnot ⟨h.uninterrupted, h.checked⟩⟩
      · right
        refine ⟨⟨hadmitted, hvalid, ?_, hinterrupt, hchecks⟩, by simp [hrun]⟩
        intro hsession htask
        simp [hsession, Option.isNone_iff_eq_none] at hfree
        simp [hfree] at htask
    · simp only [hfree, Bool.false_eq_true, if_false]
      have hneeded : call.session = true ∧ call.taskId.isSome = true := by
        cases hsession : call.session <;> cases htask : call.taskId <;> simp_all
      by_cases hcancelled : s.leaseCancelled = true
      · left
        simp only [hcancelled, if_true]
        refine ⟨by simp, trivial, fun h => ?_⟩
        have hleased := (h.leased hneeded.1 hneeded.2).1
        rw [hcancelled] at hleased
        cases hleased
      · simp only [hcancelled, Bool.false_eq_true, if_false]
        have hcancelled : s.leaseCancelled = false := Bool.eq_false_of_not_eq_true hcancelled
        cases hbarrier : barrier s.tasks s.currentTaskLease call.taskId tool.tool s.leaseAt
            s.blockedAt with
        | error e =>
          left
          refine ⟨by simp, trivial, fun h => ?_⟩
          obtain ⟨task, htask⟩ := (h.leased hneeded.1 hneeded.2).2
          rw [hbarrier] at htask
          cases htask
        | ok task =>
          have hleased : call.session = true → call.taskId.isSome → s.leaseCancelled = false ∧
              ∃ task, barrier s.tasks s.currentTaskLease call.taskId tool.tool s.leaseAt
                s.blockedAt = .ok task := fun _ _ => ⟨hcancelled, task, hbarrier⟩
          rcases dispatchTool_cases config tool call s with
            ⟨hnil, hout, hnot⟩ | ⟨hinterrupt, hchecks, hrun⟩
          · left
            cases task <;>
              exact ⟨by simp [hnil, ExecutorEffect.isInvoke, ExecutorEffect.isAudit], hout,
                fun h => hnot ⟨h.uninterrupted, h.checked⟩⟩
          · right
            refine ⟨⟨hadmitted, hvalid, hleased, hinterrupt, hchecks⟩, ?_⟩
            cases task <;> simp [hrun]

/-- A recorded response invokes nothing. -/
theorem respond_effects {status : ToolStatus} {output : PyValue} {error : Option String}
    {e : ExecutorEffect} (h : e ∈ (respond config tool call s status output error).1) :
    e.isInvoke = false := by
  unfold respond at h
  split at h
  · cases h
  · split at h
    · cases h
    · rename_i haudit
      unfold recordAudit at haudit
      split_ifs at haudit
      · cases haudit
        cases h
      · obtain ⟨inputSummary, -, rfl⟩ := Option.map_eq_some_iff.mp haudit
        rw [List.mem_singleton.mp h]
        rfl

theorem conclude_effects {outcome : CallOutcome} {e : ExecutorEffect}
    (h : e ∈ (conclude config tool call s outcome).1) : e.isInvoke = false := by
  unfold conclude at h
  split at h
  · split at h
    · cases h
    · split_ifs at h
      · split at h
        · cases h
        · exact respond_effects h
      · exact respond_effects h
  all_goals first
    | exact respond_effects h
    | cases h

theorem startedEvent_effects {e : ExecutorEffect} (h : e ∈ startedEvent tool call s) :
    e.isInvoke = false ∧ e.isAudit = false := by
  unfold startedEvent at h
  split_ifs at h
  · obtain ⟨task, -, rfl⟩ := List.mem_map.mp h
    exact ⟨rfl, rfl⟩
  · cases h

theorem barrierEffects_effects {e : ExecutorEffect} (h : e ∈ barrierEffects tool call s) :
    e.isInvoke = false ∧ e.isAudit = false := by
  unfold barrierEffects at h
  split_ifs at h
  · cases h
  · split at h
    · rw [List.mem_singleton.mp h]
      exact ⟨rfl, rfl⟩
    · cases h

/-- A run is refused, or ends without the tool, or passes every gate and invokes the tool once,
after the lease check and before its audit. -/
theorem executorRun_cases (config : ExecutorConfig) (tool : ExecutableTool) (call : ExecutorCall)
    (s : CallSurroundings) :
    (¬ Dispatches config tool call s ∧ ∃ status error,
      executorRun config tool call s = respond config tool call s status .null error) ∨
    (¬ Dispatches config tool call s ∧ ∃ before outcome,
      (∀ e ∈ before, e.isInvoke = false ∧ e.isAudit = false) ∧ outcome.WithoutTool ∧
      executorRun config tool call s =
        (before ++ (conclude config tool call s outcome).1,
          (conclude config tool call s outcome).2)) ∨
    (Dispatches config tool call s ∧ executorRun config tool call s =
      (startedEvent tool call s ++ (barrierEffects tool call s ++ [.invoke call.arguments]) ++
        (conclude config tool call s s.outcome).1, (conclude config tool call s s.outcome).2)) := by
  unfold executorRun
  cases hrefused : refusal tool.tool call.confirmed with
  | some refused =>
    left
    refine ⟨fun h => ?_, refused.status, refused.error, rfl⟩
    have hadmitted := h.admitted
    rw [hrefused] at hadmitted
    cases hadmitted
  | none =>
    right
    rcases attemptTool_cases config s hrefused with ⟨hnone, hout, hnot⟩ | ⟨hdispatches, hrun⟩
    · left
      refine ⟨hnot, startedEvent tool call s ++ (attemptTool config tool call s).1,
        (attemptTool config tool call s).2, fun e he => ?_, hout, rfl⟩
      rcases List.mem_append.mp he with he | he
      · exact startedEvent_effects he
      · exact hnone e he
    · right
      exact ⟨hdispatches, by rw [hrun]⟩

/-- A run that does not pass the gates invokes nothing. -/
theorem executorRun_invokes_nothing (hnot : ¬ Dispatches config tool call s) {e : ExecutorEffect}
    (he : e ∈ (executorRun config tool call s).1) : e.isInvoke = false := by
  rcases executorRun_cases config tool call s with
    ⟨-, status, error, hrun⟩ | ⟨-, before, outcome, hbefore, -, hrun⟩ | ⟨hdispatches, -⟩
  · rw [hrun] at he
    exact respond_effects he
  · rw [hrun] at he
    rcases List.mem_append.mp he with he | he
    · exact (hbefore e he).1
    · exact conclude_effects he
  · exact absurd hdispatches hnot

theorem executorRun_of_dispatches (h : Dispatches config tool call s) :
    executorRun config tool call s =
      (startedEvent tool call s ++ (barrierEffects tool call s ++ [.invoke call.arguments]) ++
        (conclude config tool call s s.outcome).1, (conclude config tool call s s.outcome).2) := by
  rcases executorRun_cases config tool call s with ⟨hnot, -⟩ | ⟨hnot, -⟩ | ⟨-, hrun⟩
  · exact absurd h hnot
  · exact absurd h hnot
  · exact hrun

/-- The fetch tool is invoked for a URL that its guard has passed. -/
theorem dispatchChecks_fetch (h : dispatchChecks config tool call = .ok ())
    (hfetch : tool.isFetch = true) :
    validateMcpFetchUrl config.unicode (fetchArgument config call) = .ok () := by
  have hprovider : tool.tool.provider = .mcpServer := by
    simp only [ExecutableTool.isFetch, Bool.and_eq_true, decide_eq_true_eq] at hfetch
    exact hfetch.1.1
  unfold dispatchChecks at h
  simp only [hprovider, hfetch, if_true] at h
  split_ifs at h
  split at h
  · cases h
  · cases h
  · assumption

/-- The lease check of an agent task passes with the row of that task and no other. -/
theorem barrier_of_agent {tasks : Table Task} {lease : Option TaskLease} {taskId : UUID}
    {tool : RegisteredTool} {now now' : Instant} {result : Option Task}
    (h : barrier tasks lease (some taskId) tool now now' = .ok result) {row : Task}
    (hrow : tasks.get? taskId = some row) (hagent : row.kind = .agent) :
    ∃ l task, lease = some l ∧ l.taskId = taskId ∧ tasks.get? taskId = some task ∧
      Holds task l now true ∧ ∃ reason, result = some (blockReplay task reason now') := by
  cases lease with
  | none => simp [barrier, lockTaskLease, hrow, hagent] at h
  | some l =>
    unfold barrier at h
    simp only at h
    cases hlock : lockTaskLease tasks (some l) now true with
    | error e => simp [hlock] at h
    | ok locked =>
      obtain ⟨task, rfl, hget, hholds⟩ := lockTaskLease_eq_ok hlock
      simp only [hlock] at h
      split_ifs at h with hid
      have hid := not_not.mp hid
      refine ⟨l, task, rfl, ?_, ?_, hholds, _, (Except.ok.inj h).symm⟩
      · rw [← hholds.id, hid]
      · rw [← hid, hholds.id]
        exact hget

end run

/-- One call invokes the tool once at most, and only behind every gate. For an agent task the row of
that task, held under its lease, has been committed with the replay barrier before. -/
theorem executorRun_dispatches_behind_gates (config : ExecutorConfig) (tool : ExecutableTool)
    (call : ExecutorCall) (s : CallSurroundings) :
    ((executorRun config tool call s).1.filter ExecutorEffect.isInvoke).length ≤ 1 ∧
    ((∃ e ∈ (executorRun config tool call s).1, e.isInvoke = true) →
      tool.tool.manifest.enabled = true ∧
      (tool.tool.manifest.requiresConfirmation = true → call.confirmed = true) ∧
      validateArguments config.arguments config.validator tool.parameters call.arguments = .ok () ∧
      (tool.isFetch = true →
        validateMcpFetchUrl config.unicode (fetchArgument config call) = .ok ()) ∧
      ∀ taskId row, call.session = true → call.taskId = some taskId →
        s.tasks.get? taskId = some row → row.kind = .agent →
        ∃ before after lease task reason, (executorRun config tool call s).1 =
            before ++ .barrier (blockReplay task reason s.blockedAt) :: after ∧
          (∀ e ∈ before, e.isInvoke = false) ∧ s.currentTaskLease = some lease ∧
          lease.taskId = taskId ∧ s.tasks.get? taskId = some task ∧
            Holds task lease s.leaseAt true) := by
  by_cases hdispatches : Dispatches config tool call s
  swap
  · have hnone := fun e (he : e ∈ (executorRun config tool call s).1) =>
      executorRun_invokes_nothing hdispatches he
    constructor
    · rw [List.filter_eq_nil_iff.mpr fun e he => by simp [hnone e he]]
      exact Nat.zero_le _
    · rintro ⟨e, he, hinvoke⟩
      rw [hnone e he] at hinvoke
      cases hinvoke
  · have hrun := executorRun_of_dispatches hdispatches
    have hstarted : (startedEvent tool call s).filter ExecutorEffect.isInvoke = [] :=
      List.filter_eq_nil_iff.mpr fun e he => by simp [(startedEvent_effects he).1]
    have hbarrier : (barrierEffects tool call s).filter ExecutorEffect.isInvoke = [] :=
      List.filter_eq_nil_iff.mpr fun e he => by simp [(barrierEffects_effects he).1]
    have hconclude :
      (conclude config tool call s s.outcome).1.filter ExecutorEffect.isInvoke = [] :=
      List.filter_eq_nil_iff.mpr fun e he => by simp [conclude_effects he]
    obtain ⟨henabled, hconfirmed⟩ := refusal_eq_none hdispatches.admitted
    constructor
    · have hself : (ExecutorEffect.invoke call.arguments).isInvoke = true := rfl
      simp only [hrun, List.filter_append, hstarted, hbarrier, hconclude, List.filter_cons, hself,
        if_true, List.filter_nil]
      simp
    · rintro -
      refine ⟨henabled, hconfirmed, hdispatches.valid, dispatchChecks_fetch hdispatches.checked, ?_⟩
      intro taskId row hsession htask hrow hagent
      obtain ⟨-, result, hlease⟩ := hdispatches.leased hsession (by simp [htask])
      rw [htask] at hlease
      obtain ⟨lease, task, hcurrent, hid, hget, hholds, reason, rfl⟩ :=
        barrier_of_agent hlease hrow hagent
      have heffects :
        barrierEffects tool call s = [.barrier (blockReplay task reason s.blockedAt)] := by
        simp [barrierEffects, hsession, htask, hlease]
      refine ⟨startedEvent tool call s,
        .invoke call.arguments :: (conclude config tool call s s.outcome).1, lease, task, reason,
        ?_, fun e he => (startedEvent_effects he).1, hcurrent, hid, hget, hholds⟩
      simp [hrun, heffects]

/-! The audit of a call. -/

/-- One row is committed for the call. It has the trace id of the call, the status and the error of
the returned response, and it is interrupted where the call raises a cancellation. -/
def AuditedOnce (s : CallSurroundings) (trace : ExecutorTrace) : Prop :=
  ∃ row task, trace.1.filter ExecutorEffect.isAudit = [.audit row task] ∧ row.traceId = s.traceId ∧
    match trace.2 with
    | .returned response => row.status = response.status ∧ row.error = response.error ∧
        response.traceId = s.traceId
    | .cancelled => row.status = .interrupted
    | .raised => True

/-- What the tool does can be reported: an answer can be limited, summarized and, where it is an MCP
error, read, and an exception is an `Exception` with a text. -/
def Reportable (config : ExecutorConfig) (tool : ExecutableTool) : CallOutcome → Prop
  | .returned value => ∃ limited,
      limitOutput (outputLimit config.maxToolOutputChars tool.policyMaxChars) value = some limited ∧
      (isMcpErrorOutput value = true → (mcpErrorText config.values limited).isSome) ∧
      (summarizeOutput config limited).isSome
  | .raisedHttp text | .raised text => text.isSome
  | .timedOut | .cancelled => True
  | .exited => False

section audit

variable {config : ExecutorConfig} {tool : ExecutableTool} {call : ExecutorCall}
  {s : CallSurroundings}

theorem CallOutcome.WithoutTool.reportable {outcome : CallOutcome} (h : outcome.WithoutTool) :
    Reportable config tool outcome := by
  cases outcome with
  | raisedHttp text => cases text <;> [cases h; rfl]
  | raised text => cases text <;> [cases h; rfl]
  | timedOut => trivial
  | cancelled => trivial
  | returned value => cases h
  | exited => cases h

/-- Effects without an audit in front change nothing. -/
theorem auditedOnce_append {before : List ExecutorEffect} {trace : ExecutorTrace}
    (hbefore : ∀ e ∈ before, e.isAudit = false) :
    AuditedOnce s (before ++ trace.1, trace.2) ↔ AuditedOnce s trace := by
  have hnil : before.filter ExecutorEffect.isAudit = [] :=
    List.filter_eq_nil_iff.mpr fun e he => by simp [hbefore e he]
  simp only [AuditedOnce, List.filter_append, hnil, List.nil_append]

theorem not_auditedOnce_nil {result : ExecutorResult} : ¬ AuditedOnce s ([], result) := by
  rintro ⟨row, task, hrow, -⟩
  cases hrow

/-- A response that can be built is recorded and returned, with arguments that have a summary. -/
theorem respond_audits (tool : ExecutableTool) (s : CallSurroundings)
    (hsession : call.session = true)
    (hinput : (config.values.inputSummary call.arguments).isSome) {status : ToolStatus}
    {output : PyValue} {error : Option String} (h : (summarizeOutput config output).isSome) :
    ∃ row task response,
      respond config tool call s status output error = ([.audit row task], .returned response) ∧
      row.status = status ∧ row.error = error ∧ row.traceId = s.traceId ∧
      response.status = status ∧ response.error = error ∧ response.traceId = s.traceId := by
  obtain ⟨summary, hsummary⟩ := Option.isSome_iff_exists.mp h
  obtain ⟨inputSummary, hinput⟩ := Option.isSome_iff_exists.mp hinput
  unfold respond executorResponse recordAudit
  simp only [hsummary, hinput, Option.map_some, hsession, Bool.not_true,
    Bool.false_eq_true, if_false]
  exact ⟨_, _, _, rfl, rfl, rfl, rfl, rfl, rfl, rfl⟩

/-- Where the arguments have no summary no response is recorded. -/
theorem respond_without_summary (hsession : call.session = true)
    (hinput : config.values.inputSummary call.arguments = none) {status : ToolStatus}
    {output : PyValue} {error : Option String} :
    respond config tool call s status output error = ([], .raised) := by
  unfold respond recordAudit
  simp only [hsession, hinput, Bool.not_true, Bool.false_eq_true, if_false, Option.map_none]
  split <;> rfl

theorem auditedOnce_respond (hsession : call.session = true)
    (hinput : (config.values.inputSummary call.arguments).isSome) {status : ToolStatus}
    {output : PyValue} {error : Option String} :
    AuditedOnce s (respond config tool call s status output error) ↔
      (summarizeOutput config output).isSome := by
  constructor
  · intro h
    cases hsummary : summarizeOutput config output with
    | some summary => rfl
    | none =>
      simp only [respond, executorResponse, hsummary, Option.map_none] at h
      exact absurd h not_auditedOnce_nil
  · intro h
    obtain ⟨row, task, response, hrun, hstatus, herror, htrace, hstatus', herror', htrace'⟩ :=
      respond_audits tool s hsession hinput h
    rw [hrun]
    exact ⟨row, task, rfl, htrace, by rw [hstatus, hstatus'], by rw [herror, herror'], htrace'⟩

/-- The end of a call is audited once, if it can be reported. -/
theorem auditedOnce_conclude (hsession : call.session = true)
    (hinput : (config.values.inputSummary call.arguments).isSome) (outcome : CallOutcome) :
    AuditedOnce s (conclude config tool call s outcome) ↔ Reportable config tool outcome := by
  have hnull : (summarizeOutput config .null).isSome := rfl
  cases outcome with
  | returned value =>
    unfold conclude Reportable
    cases hlimit :
      limitOutput (outputLimit config.maxToolOutputChars tool.policyMaxChars) value with
    | none => simp [hlimit, not_auditedOnce_nil]
    | some limited =>
      by_cases herror : isMcpErrorOutput value = true
      · cases htext : mcpErrorText config.values limited with
        | none => simp [hlimit, herror, htext, not_auditedOnce_nil]
        | some text => simp [hlimit, herror, htext, auditedOnce_respond hsession hinput]
      · simp [hlimit, herror, auditedOnce_respond hsession hinput]
  | raisedHttp text =>
    cases text with
    | none => exact iff_of_false not_auditedOnce_nil (by simp [Reportable])
    | some text => exact iff_of_true ((auditedOnce_respond hsession hinput).mpr hnull) rfl
  | raised text =>
    cases text with
    | none => exact iff_of_false not_auditedOnce_nil (by simp [Reportable])
    | some text => exact iff_of_true ((auditedOnce_respond hsession hinput).mpr hnull) rfl
  | timedOut => exact iff_of_true ((auditedOnce_respond hsession hinput).mpr hnull) trivial
  | cancelled =>
    refine iff_of_true ?_ trivial
    obtain ⟨row, task, response, hrun, hstatus, -, htrace, -⟩ :=
      respond_audits tool s hsession hinput hnull
    exact ⟨row, task, by rw [conclude, hrun]; rfl, htrace, hstatus⟩
  | exited => exact iff_of_false not_auditedOnce_nil id

/-- No end of a call is audited where the arguments have no summary. -/
theorem not_auditedOnce_conclude (hsession : call.session = true)
    (hinput : config.values.inputSummary call.arguments = none) (outcome : CallOutcome) :
    ¬ AuditedOnce s (conclude config tool call s outcome) := by
  have hnil : (conclude config tool call s outcome).1 = [] := by
    unfold conclude
    simp only [respond_without_summary hsession hinput]
    split
    · split
      · rfl
      · split_ifs
        · split <;> rfl
        · rfl
    all_goals rfl
  rintro ⟨row, task, hrow, -⟩
  rw [hnil] at hrow
  cases hrow

end audit

/-- A call with a session is audited once if and only if its arguments have a summary, and a gate
stops it or what the tool does can be reported. -/
theorem executorRun_audits_once_iff (config : ExecutorConfig) (tool : ExecutableTool)
    (call : ExecutorCall) (s : CallSurroundings) (hsession : call.session = true) :
    AuditedOnce s (executorRun config tool call s) ↔
      (config.values.inputSummary call.arguments).isSome ∧
        (Dispatches config tool call s → Reportable config tool s.outcome) := by
  have hbefore : ∀ e ∈ startedEvent tool call s ++
      (barrierEffects tool call s ++ [.invoke call.arguments]), e.isAudit = false := by
    intro e he
    rcases List.mem_append.mp he with he | he
    · exact (startedEvent_effects he).2
    · rcases List.mem_append.mp he with he | he
      · exact (barrierEffects_effects he).2
      · rw [List.mem_singleton.mp he]
        rfl
  cases hinput : config.values.inputSummary call.arguments with
  | none =>
    refine iff_of_false (fun h => ?_) (by simp)
    rcases executorRun_cases config tool call s with
      ⟨-, status, error, hrun⟩ | ⟨-, before, outcome, hnone, -, hrun⟩ | ⟨-, hrun⟩
    · rw [hrun, respond_without_summary hsession hinput] at h
      exact not_auditedOnce_nil h
    · rw [hrun, auditedOnce_append fun e he => (hnone e he).2] at h
      exact not_auditedOnce_conclude hsession hinput outcome h
    · rw [hrun, auditedOnce_append hbefore] at h
      exact not_auditedOnce_conclude hsession hinput s.outcome h
  | some summary =>
    have hsome : (config.values.inputSummary call.arguments).isSome := by rw [hinput]; rfl
    simp only [Option.isSome_some, true_and]
    rcases executorRun_cases config tool call s with
      ⟨hnot, status, error, hrun⟩ | ⟨hnot, before, outcome, hnone, hout, hrun⟩ | ⟨hdispatches, hrun⟩
    · have hnull : (summarizeOutput config .null).isSome := rfl
      have haudit : AuditedOnce s (executorRun config tool call s) := by
        rw [hrun]
        exact (auditedOnce_respond hsession hsome).mpr hnull
      exact iff_of_true haudit fun h => absurd h hnot
    · have haudit : AuditedOnce s (executorRun config tool call s) := by
        rw [hrun]
        apply (auditedOnce_append fun e he => (hnone e he).2).mpr
        exact (auditedOnce_conclude hsession hsome outcome).mpr hout.reportable
      exact iff_of_true haudit fun h => absurd h hnot
    · rw [hrun, auditedOnce_append hbefore, auditedOnce_conclude hsession hsome]
      constructor
      · intro hreportable _
        exact hreportable
      · intro hreportable
        exact hreportable hdispatches

def sampleExecutorConfig : ExecutorConfig where
  maxToolOutputChars := 12000
  mcpAccessPolicy := .localOnly
  mcpRequireConfirmationByDefault := false
  reader := sampleReader
  unicode := asciiTables
  arguments := sampleArgumentReader
  validator := fun _ _ => none
  values := {
    dumps := fun _ => some "{}", text := fun _ => some "", truthy := fun _ => true
    inputSummary := fun _ => some "{}", urlText := fun _ => "", urlError := id }

/-- A local tool without parameters. -/
def powerTool : ExecutableTool where
  tool := ⟨⟨"power", "A power of ten", "read", false, [], true⟩, .localPlugin, none, none⟩
  parameters := ⟨none, [], [], [], none, none⟩
  policyMaxChars := none
  hasClient := false
  hasHandler := true

def powerCall : ExecutorCall := ⟨[], false, true, none, none, none, none⟩

/-- A call outside of a task that ends as given. -/
def powerSurroundings (outcome : CallOutcome) : CallSurroundings where
  traceId := "5f0c"
  durationMs := 3
  currentTaskLease := none
  startedTasks := .empty
  startedAt := 0
  tasks := .empty
  leaseAt := 0
  blockedAt := 0
  leaseCancelled := false
  interruption := none
  outcome
  auditTasks := .empty
  auditAt := 0

theorem executorRun_audits_once_iff_sample :
    AuditedOnce (powerSurroundings .timedOut)
      (executorRun sampleExecutorConfig powerTool powerCall (powerSurroundings .timedOut)) :=
  (executorRun_audits_once_iff sampleExecutorConfig powerTool powerCall _ rfl).mpr
    ⟨rfl, fun _ => trivial⟩

/-- The tool answers with a number of more than 4300 digits, of which `str` makes an exception: the
tool has been invoked, and no row says so. -/
theorem executorRun_unaudited :
    executorRun sampleExecutorConfig powerTool powerCall
      (powerSurroundings (.returned (.other none))) =
      ([.invoke []], .raised) ∧ powerCall.session = true ∧
    ¬ AuditedOnce (powerSurroundings (.returned (.other none)))
      (executorRun sampleExecutorConfig powerTool powerCall
        (powerSurroundings (.returned (.other none)))) := by
  have hrun : executorRun sampleExecutorConfig powerTool powerCall
      (powerSurroundings (.returned (.other none))) = ([.invoke []], .raised) := rfl
  refine ⟨hrun, rfl, ?_⟩
  rw [hrun]
  rintro ⟨row, task, hrow, -⟩
  cases hrow

end AgentDemo
