import AgentDemo.Agent.Footprint
import AgentDemo.System.AgentRuns
import AgentDemo.System.ApprovalLifeCycle

/-! A confirmation executes what was approved, once. -/
namespace AgentDemo

/-- A request that keeps to the stored plan: its confirmed calls have the tool and the arguments
of the approval, and its states the message and the task type. -/
def Faithful (a : Approval) : Request → Prop
  | .call tool arguments confirmed => confirmed = true →
      tool.manifest.name = a.toolName ∧ arguments = a.arguments
  | .superstep _ state => state.message = a.message ∧ state.taskType = a.taskType
  | _ => True

def Request.isConfirmedCall : Request → Bool
  | .call _ _ confirmed => confirmed
  | _ => false

/-- Each request is faithful, and a confirmed call is the first one. The state is the registry,
which may change at any time, and the number of confirmed calls so far. -/
def approvalContract (a : Approval) : Program.Contract Request Request.Answer
    (UnifiedToolRegistry × ℕ) where
  look s q := s.1.look q
  rely _ s t := t.2 = s.2
  guar s q := Faithful a q ∧ (q.isConfirmedCall = true → s.2 = 0)
  next s q := (s.1, s.2 + if q.isConfirmedCall then 1 else 0)
  rely_refl _ _ := rfl
  rely_trans _ _ _ _ h h' := h'.trans h
  look_rely q _ _ _ h := by cases q <;> first | rfl | cases h

theorem Faithful.of_samePlan {a a' : Approval} (h : a.SamePlan a') {q : Request}
    (hq : Faithful a q) : Faithful a' q := by
  cases q with
  | call tool arguments confirmed =>
    intro hc
    rw [h.toolName, h.arguments]
    exact hq hc
  | superstep node state =>
    show _ = _ ∧ _ = _
    rw [h.message, h.taskType]
    exact hq
  | _ => trivial

theorem Approval.SamePlan.symm {a a' : Approval} (h : a.SamePlan a') : a'.SamePlan a :=
  ⟨h.expiresAt.symm, h.toolName.symm, h.arguments.symm, h.message.symm, h.reason.symm,
    h.taskType.symm⟩

section

variable {a : Approval}

/-- A part of the graph without confirmed calls leaves their number alone. -/
theorem safe_of_footprint {α : Type} {p : AgentProgram α} {post : α → Prop}
    (h : p.Asks (fun q => Carries a.message a.taskType q ∨ Unconfirmed q) post)
    (s : UnifiedToolRegistry × ℕ) :
    (approvalContract a).Safe (fun t x => t.2 = s.2 ∧ post x) p s := by
  have hq (q : Request) (hq : Carries a.message a.taskType q ∨ Unconfirmed q) :
      Faithful a q ∧ q.isConfirmedCall = false := by
    cases q with
    | call tool arguments confirmed =>
      rcases hq with hq | rfl
      · exact hq.elim
      · exact ⟨nofun, rfl⟩
    | superstep node state => exact ⟨hq.elim (fun h => h) False.elim, rfl⟩
    | _ => exact ⟨trivial, rfl⟩
  refine Program.Contract.safe_of_asks
    (I := fun t : UnifiedToolRegistry × ℕ => t.2 = s.2) ?_ ?_ ?_ h rfl
  · intro q t hP _
    exact ⟨(hq q hP).1, fun hc => absurd hc (by rw [(hq q hP).2]; decide)⟩
  · intro q t hP ht
    show t.2 + (if q.isConfirmedCall then 1 else 0) = s.2
    rw [(hq q hP).2, ht]
    rfl
  · exact fun q t u _ htu ht => htu.trans ht

variable (reader : TextReader) (settings : AgentSettings)

/-- The confirmed call: the registry decides which tool has the name, not which name. -/
theorem safe_executeToolPlan {plan : AgentToolPlan} {registry : UnifiedToolRegistry}
    (harguments : plan.arguments = a.arguments) :
    (approvalContract a).Safe (fun _ _ => True) (executeToolPlan reader plan a.toolName)
      (registry, 0) := by
  refine (Program.Contract.safe_ask_of_look rfl).mpr ?_
  cases hget : registry.get a.toolName with
  | none => trivial
  | some tool =>
    have hname : tool.manifest.name = a.toolName := UnifiedToolRegistry.name_of_get hget
    refine (Program.Contract.safe_ask_of_wait rfl).mpr fun t ht => ?_
    refine ⟨⟨fun _ => ⟨hname, harguments⟩, fun _ => ht⟩, fun stamp => ?_⟩
    simp only [Program.bind_eq, Program.done_bind]
    split
    · trivial
    · exact (Program.Contract.safe_ask_of_wait rfl).mpr fun u hu =>
        ⟨⟨trivial, nofun⟩, fun _ => trivial⟩

theorem safe_executeToolNode {state : AgentGraphState} {registry : UnifiedToolRegistry}
    (htask : state.message = a.message ∧ state.taskType = a.taskType)
    (hplan : state.plan.noTool = false) (hname : state.plan.toolName = some a.toolName)
    (harguments : state.plan.arguments = a.arguments) :
    (approvalContract a).Safe
      (fun _ state' => state'.message = a.message ∧ state'.taskType = a.taskType)
      (executeToolNode reader settings state) (registry, 0) := by
  have hstep : (superstep .executeTool state).Asks
      (fun q => Carries a.message a.taskType q ∨ Unconfirmed q) fun _ => True :=
    (asks_superstep htask).mono (fun _ => Or.inl) fun _ h => h
  refine (safe_of_footprint hstep _).seq fun t _ ht => ?_
  obtain ⟨registry', n⟩ := t
  obtain rfl : n = 0 := ht.1
  have hmaybe : (approvalContract a).Safe
      (fun _ state' => state'.message = a.message ∧ state'.taskType = a.taskType)
      (maybeExecuteTool reader settings state) (registry', 0) := by
    rw [maybeExecuteTool_eq reader settings hplan hname]
    refine (safe_executeToolPlan reader harguments).seq fun t result _ => ?_
    have hrecord := sameTask_recordCall reader state.plan a.toolName result state
    have htask' : _ ∧ _ := ⟨hrecord.message.trans htask.1,
      hrecord.taskType.trans htask.2⟩
    have hafter := asks_afterCall reader settings a.toolName result
      state.confirmedSearchTarget.isSome (recordCall reader state.plan a.toolName result state)
    rw [htask'.1, htask'.2] at hafter
    refine (safe_of_footprint hafter t).mono fun u state' h => ?_
    exact ⟨h.2.message.trans htask'.1, h.2.taskType.trans htask'.2⟩
  exact hmaybe.seq fun _ _ h => h

/-- A confirmed run keeps to its approval, whatever the registry does meanwhile. -/
theorem safe_streamConfirmedTool (route : String → String → ModelRoute) (userId : Option UUID)
    (m : Message) (hne : a.toolName ≠ "") (traceId : String) (registry : UnifiedToolRegistry) :
    (approvalContract a).Safe (fun _ _ => True)
      (streamConfirmedTool reader settings route userId m a traceId) (registry, 0) := by
  unfold streamConfirmedTool runGraph
  split_ifs
  · exact (Program.Contract.safe_ask_of_wait rfl).mpr fun t ht =>
      ⟨⟨trivial, nofun⟩, fun _ => trivial⟩
  set state := confirmedState settings userId m a traceId with hstate
  have hload : (loadContext route state).Asks
      (fun q => Carries a.message a.taskType q ∨ Unconfirmed q) _ :=
    (asks_loadContext route state).mono (fun _ => Or.inl) fun _ h => h
  refine (safe_of_footprint hload _).seq fun t st h => ?_
  obtain ⟨registry', n⟩ := t
  obtain ⟨rfl, rfl⟩ : n = 0 ∧ st = _ := h
  have hplan : (planNode reader settings { state with
      route := some (route state.taskType state.message) }).Asks
      (fun q => Carries a.message a.taskType q ∨ Unconfirmed q) _ :=
    (asks_planNode reader settings hne rfl).mono (fun _ => Or.inl) fun _ h => h
  refine (safe_of_footprint hplan _).seq fun t st h => ?_
  obtain ⟨registry'', n⟩ := t
  obtain ⟨hn, tool, rfl⟩ := h
  obtain rfl : n = 0 := hn
  refine (safe_executeToolNode reader settings ?_ ?_ ?_ ?_).seq fun t st h => ?_
  · exact ⟨rfl, rfl⟩
  · rfl
  · rfl
  · rfl
  · have hrest : (if awaitsConfirmation st.toolCalls then awaitConfirmation settings st
        else answerNodes reader st).Asks
        (fun q => Carries a.message a.taskType q ∨ Unconfirmed q) fun _ => True := by
      rw [← h.1, ← h.2]
      split_ifs
      · exact (asks_awaitConfirmation settings st).mono (fun _ => Or.inl) fun _ h => h
      · exact (asks_answerNodes reader st).mono (fun _ => Or.inl) fun _ h => h
    exact (safe_of_footprint hrest t).mono fun _ _ _ => trivial

end

namespace AgentWorld

variable {config : AgentConfig} {w w' : AgentWorld}

/-- The confirmed calls of the executor in all runs of an approval. -/
def confirmedCalls (w : AgentWorld) (id : UUID) : ℕ :=
  w.trace.countP fun e => e.approvalId = some id && e.request.isConfirmedCall

/-- The runs of the graph and the claims belong together. -/
def Matched (w : AgentWorld) : Prop :=
  w.runs.filterMap GraphRun.approvalId = w.approvals.runs.map ConfirmedRun.approvalId

/-- What has been asked for an approval keeps to it, and so does what its run will ask. -/
structure Exact (w : AgentWorld) : Prop where
  traced : ∀ e ∈ w.trace, ∀ id, e.approvalId = some id →
    id ∈ w.approvals.runs.map ConfirmedRun.approvalId ∧
    ∃ a, w.approvals.approval? id = some a ∧ Faithful a e.request
  once : ∀ id, w.confirmedCalls id ≤ 1
  safe : ∀ r ∈ w.runs, ∀ c, r.claimed = some c →
    (∃ a, w.approvals.approval? c.approvalId = some a ∧ c.stored.SamePlan a) ∧
    (approvalContract c.stored).Safe (fun _ _ => True) r.program
      (w.registry, w.confirmedCalls c.approvalId)

theorem started_of_isOutside {v : ApprovalWorld} {now : Instant} {event : ApprovalEvent}
    (h : event.isOutside = true) : v.started now event = [] := by
  cases event with
  | claim userId payload => cases h
  | _ => rfl

theorem started_failure {v : ApprovalWorld} {now : Instant} (r : GraphRun) :
    v.started now r.failure = [] := by
  unfold GraphRun.failure
  split <;> rfl

theorem started_effect {v : ApprovalWorld} {now : Instant} (r : GraphRun) (settings : AgentSettings)
    (q : Request) (reply : Reply) : v.started now (r.effect settings q reply) = [] := by
  unfold GraphRun.effect
  split
  · rfl
  · split <;> rfl
  · exact started_failure r
  · rfl

/-- No two runs of the graph have claimed the same approval. -/
theorem Matched.index_eq (hm : w.Matched) (hA : w.approvals.Inv) {i j : ℕ} {r r' : GraphRun}
    {id : UUID} (hi : w.runs[i]? = some r) (hj : w.runs[j]? = some r')
    (hr : r.approvalId = some id) (hr' : r'.approvalId = some id) : i = j := by
  have hpair : w.runs.Pairwise fun x y =>
      ∀ b, x.approvalId = some b → ∀ b', y.approvalId = some b' → b ≠ b' := by
    rw [← List.pairwise_filterMap, hm]
    exact hA.single
  rw [List.pairwise_iff_getElem] at hpair
  obtain ⟨hi', rfl⟩ := List.getElem?_eq_some_iff.mp hi
  obtain ⟨hj', rfl⟩ := List.getElem?_eq_some_iff.mp hj
  rcases lt_trichotomy i j with hlt | heq | hlt
  · exact absurd rfl (hpair i j hi' hj' hlt id hr id hr')
  · exact heq
  · exact absurd rfl (hpair j i hj' hi' hlt id hr' id hr)

theorem Matched.step {now : Instant} (hm : w.Matched) (hA : w.approvals.Inv)
    (h : Change config w now w') : w'.Matched := by
  have hids {event : ApprovalEvent} {approvals : ApprovalWorld}
      (hs : w.approvals.step ⟨event, now⟩ = some approvals) :
      approvals.runs.map ConfirmedRun.approvalId =
        w.runs.filterMap GraphRun.approvalId ++ w.approvals.started now event := by
    rw [ApprovalWorld.approvalIds_of_step hA hs, hm]
  have hset {i : ℕ} {r : GraphRun} (hi : w.runs[i]? = some r) (p : AgentProgram GraphEnd) :
      (w.runs.set i { r with program := p }).filterMap GraphRun.approvalId =
        w.runs.filterMap GraphRun.approvalId := by
    have hmap : (w.runs.set i { r with program := p }).map GraphRun.approvalId =
        w.runs.map GraphRun.approvalId := map_set_of_getElem? hi rfl
    have hid (l : List GraphRun) :
        l.filterMap GraphRun.approvalId = (l.map GraphRun.approvalId).filterMap id := by
      rw [List.filterMap_map]
      rfl
    rw [hid, hmap, ← hid]
  unfold Matched
  cases h with
  | approvals hout hs => rw [hids hs, started_of_isOutside hout, List.append_nil]
  | refused hs hc => simp [hids hs, ApprovalWorld.started, hc]
  | chat hs => simp [hids hs, start, ApprovalWorld.started, GraphRun.approvalId]
  | confirm hs hc hst => simp [hids hs, start, ApprovalWorld.started, hc, GraphRun.approvalId]
  | refresh hs => simp [hids hs, ApprovalWorld.started]
  | answer hi hp hs => rw [hids hs, started_effect, List.append_nil, hset hi]
  | abort hi hs => rw [hids hs, started_failure, List.append_nil, hset hi]

theorem Exact.with_approvals {event : ApprovalEvent} {now : Instant} {approvals : ApprovalWorld}
    (h : w.Exact) (hA : w.approvals.Inv) (hs : w.approvals.step ⟨event, now⟩ = some approvals) :
    Exact { w with approvals } := by
  have hmoves := (hA.advances hs).moves
  constructor
  · intro e he id hid
    obtain ⟨hmem, a, ha, hf⟩ := h.traced e he id hid
    obtain ⟨a', ha', hplan, -⟩ := hmoves id a ha
    refine ⟨?_, a', ha', hf.of_samePlan hplan⟩
    show id ∈ approvals.runs.map _
    rw [ApprovalWorld.approvalIds_of_step hA hs]
    exact List.mem_append_left _ hmem
  · exact h.once
  · intro r hr c hc
    obtain ⟨⟨a, ha, hplan⟩, hsafe⟩ := h.safe r hr c hc
    obtain ⟨a', ha', hplan', -⟩ := hmoves _ a ha
    exact ⟨⟨a', ha', hplan.trans hplan'⟩, hsafe⟩

/-- A new run starts without a confirmed call. -/
theorem Exact.start {claimed : Option Claimed} {program : AgentProgram GraphEnd} (h : w.Exact)
    (hnew : ∀ c, claimed = some c → w.approvals.approval? c.approvalId = some c.stored ∧
      w.confirmedCalls c.approvalId = 0 ∧
      (approvalContract c.stored).Safe (fun _ _ => True) program (w.registry, 0)) :
    Exact (w.start claimed program) := by
  refine ⟨h.traced, h.once, fun r hr c hc => ?_⟩
  rcases List.mem_append.mp hr with hr | hr
  · exact h.safe r hr c hc
  · obtain rfl := List.mem_singleton.mp hr
    obtain ⟨ha, hcalls, hsafe⟩ := hnew c hc
    refine ⟨⟨c.stored, ha, .refl _⟩, ?_⟩
    show Program.Contract.Safe _ _ _ (w.registry, w.confirmedCalls c.approvalId)
    rw [hcalls]
    exact hsafe.settle

theorem Exact.with_registry (h : w.Exact) (hw : w.Waiting) (registry : UnifiedToolRegistry) :
    Exact { w with registry } := by
  refine ⟨h.traced, h.once, fun r hr c hc => ?_⟩
  obtain ⟨hstored, hsafe⟩ := h.safe r hr c hc
  refine ⟨hstored, ?_⟩
  have hwait := hw r hr
  obtain ⟨claimed, program⟩ := r
  cases program with
  | done e => trivial
  | ask q k => exact hsafe.of_rely hwait rfl

theorem confirmedCalls_append (trace : List TraceEntry) (e : TraceEntry) (id : UUID) :
    ({ w with trace := trace ++ [e] } : AgentWorld).confirmedCalls id =
      ({ w with trace } : AgentWorld).confirmedCalls id +
        if e.approvalId = some id && e.request.isConfirmedCall then 1 else 0 := by
  simp [confirmedCalls, List.countP_append, List.countP_singleton]

/-- One answer: the request keeps to the approval of its run, and the other runs do not see it. -/
theorem Exact.answer {i : ℕ} {r : GraphRun} {q : Request} {k : q.Answer → AgentProgram GraphEnd}
    (h : w.Exact) (hm : w.Matched) (hA : w.approvals.Inv) (hw : w.Waiting)
    (hi : w.runs[i]? = some r) (hp : r.program = .ask q k) (a : q.Answer) :
    Exact { w with
      runs := w.runs.set i { r with program := (k a).settle w.registry.look }
      trace := w.trace ++ [⟨i, r.approvalId, q, w.registry⟩] } := by
  have hr : r ∈ w.runs := List.mem_of_getElem? hi
  have hwait : w.registry.look q = none := by
    have := hw r hr
    rwa [hp] at this
  have hcount (id : UUID) :=
    confirmedCalls_append (w := w) w.trace ⟨i, r.approvalId, q, w.registry⟩ id
  have hown {c : Claimed} (hc : r.claimed = some c) :
      (Faithful c.stored q ∧ (q.isConfirmedCall = true → w.confirmedCalls c.approvalId = 0)) ∧
      (approvalContract c.stored).Safe (fun _ _ => True) (k a)
        (w.registry, w.confirmedCalls c.approvalId + if q.isConfirmedCall then 1 else 0) := by
    have hsafe := (h.safe r hr c hc).2
    rw [hp] at hsafe
    exact hsafe.answer hwait a
  have hid {c : Claimed} (hc : r.claimed = some c) : r.approvalId = some c.approvalId := by
    rw [GraphRun.approvalId, hc]
    rfl
  constructor
  · intro e he id hid'
    rcases List.mem_append.mp he with he | he
    · exact h.traced e he id hid'
    · obtain rfl := List.mem_singleton.mp he
      obtain ⟨c, hc, rfl⟩ := Option.map_eq_some_iff.mp hid'
      obtain ⟨b, hb, hplan⟩ := (h.safe r hr c hc).1
      refine ⟨?_, b, hb, (hown hc).1.1.of_samePlan hplan⟩
      have hmem : c.approvalId ∈ w.runs.filterMap GraphRun.approvalId :=
        List.mem_filterMap.mpr ⟨r, hr, hid hc⟩
      rwa [hm] at hmem
  · intro id
    show ({ w with trace := _ } : AgentWorld).confirmedCalls id ≤ 1
    rw [hcount]
    split_ifs with hnew
    · obtain ⟨hid', hcall⟩ := Bool.and_eq_true_iff.mp hnew
      obtain ⟨c, hc, rfl⟩ := Option.map_eq_some_iff.mp (of_decide_eq_true hid')
      have hzero := (hown hc).1.2 hcall
      show w.confirmedCalls c.approvalId + 1 ≤ 1
      omega
    · exact h.once id
  · intro r' hr' c hc
    rcases mem_set_cases hr' with rfl | ⟨j, hne, hj⟩
    · refine ⟨(h.safe r hr c hc).1, ?_⟩
      have hsafe := (hown hc).2.settle
      show Program.Contract.Safe _ _ _
        (w.registry, ({ w with trace := _ } : AgentWorld).confirmedCalls _)
      rw [hcount]
      have heq : (decide (r.approvalId = some c.approvalId) && q.isConfirmedCall) =
          q.isConfirmedCall := by
        rw [hid hc]
        simp
      rw [heq]
      exact hsafe
    · obtain ⟨hstored, hsafe⟩ := h.safe r' (List.mem_of_getElem? hj) c hc
      refine ⟨hstored, ?_⟩
      show Program.Contract.Safe _ _ _
        (w.registry, ({ w with trace := _ } : AgentWorld).confirmedCalls _)
      have hother : r.approvalId ≠ some c.approvalId := by
        intro heq
        refine hne (hm.index_eq hA hj hi ?_ heq)
        rw [GraphRun.approvalId, hc]
        rfl
      rw [hcount]
      simpa [hother] using hsafe

theorem Exact.abort {i : ℕ} {r : GraphRun} (h : w.Exact) (hi : w.runs[i]? = some r)
    (e : GraphEnd) : Exact { w with runs := w.runs.set i { r with program := .done e } } := by
  refine ⟨h.traced, h.once, fun r' hr' c hc => ?_⟩
  rcases mem_set_cases hr' with rfl | ⟨j, -, hj⟩
  · exact ⟨(h.safe r (List.mem_of_getElem? hi) c hc).1, trivial⟩
  · exact h.safe r' (List.mem_of_getElem? hj) c hc

/-- What a successful claim hands to the run that it starts. -/
theorem stored_of_claim {v v' : ApprovalWorld} {userId : Option UUID}
    {payload : ToolConfirmationRequest} {now : Instant} {m : Message} {stored : Approval}
    (hs : v.step ⟨.claim userId payload, now⟩ = some v')
    (hc : (claim v.conversations v.messages userId payload now).1 = .ok m)
    (hst : m.metadata.approval = some stored) :
    v'.approval? m.id = some stored ∧ stored.toolName ≠ "" := by
  unfold ApprovalWorld.step at hs
  split_ifs at hs
  obtain ⟨u, hu, rfl⟩ := Option.map_eq_some_iff.mp hs
  rcases claim_cases v.conversations v.messages userId payload now with
    ⟨e, he⟩ | ⟨m₀, a₀, hr, hconf, ⟨e, he⟩ | ⟨hlt, he⟩⟩
  · rw [he] at hc
    cases hc
  · rw [he] at hc
    cases hc
  · rw [he] at hc
    cases hc
    obtain rfl := Option.some.inj hst
    simp only [ApprovalWorld.apply, he] at hu
    cases hu
    constructor
    · refine ApprovalWorld.approval?_eq_some.mpr
        ⟨finished m₀ a₀ .approved none now, ?_, rfl⟩
      show (v.messages.write _).get? _ = _
      rw [get?_write_finished hr.get, id_finished, if_pos rfl]
    · have hname : a₀.toolName = payload.toolName := hconf.1
      show a₀.toolName ≠ ""
      rw [hname]
      exact payload.toolName_ne

theorem Exact.step {now : Instant} (h : w.Exact) (hm : w.Matched) (hA : w.approvals.Inv)
    (hw : w.Waiting) (hc : Change config w now w') : w'.Exact := by
  cases hc with
  | approvals hout hs => exact h.with_approvals hA hs
  | refused hs hrefused => exact h.with_approvals hA hs
  | chat hs => exact (h.with_approvals hA hs).start nofun
  | @confirm userId payload traceId approvals m stored hs hclaim hst =>
    obtain ⟨hstored, hne⟩ := stored_of_claim hs hclaim hst
    refine (h.with_approvals hA hs).start fun c hc => ?_
    obtain rfl := Option.some.inj hc
    refine ⟨hstored, ?_,
      safe_streamConfirmedTool config.reader config.settings config.route userId m
      hne traceId w.registry⟩
    refine List.countP_eq_zero.mpr fun e he hcall => ?_
    have hid : e.approvalId = some m.id := of_decide_eq_true (Bool.and_eq_true_iff.mp hcall).1
    have hmem := (h.traced e he m.id hid).1
    have hnodup := (hA.step hs).single
    rw [ApprovalWorld.approvalIds_of_step hA hs] at hnodup
    have hdisj := (List.nodup_append.mp hnodup).2.2 m.id hmem m.id
    exact hdisj (by simp [ApprovalWorld.started, hclaim]) rfl
  | refresh hs =>
    exact (h.with_approvals hA hs).with_registry hw _
  | answer hi hp hs =>
    exact (h.answer hm hA hw hi hp _).with_approvals hA hs
  | abort hi hs => exact (h.abort hi _).with_approvals hA hs

theorem Reachable.matched (h : Reachable config w) : w.Matched := by
  obtain ⟨registry, clock, hrun⟩ := h
  refine hrun.invariant_of (I := Matched) (J := fun u => u.approvals.Inv) ?_ rfl
    fun u a v hA hu hv => hu.step hA (step_change hv)
  exact fun u hu => (Reachable.approvals ⟨registry, clock, hu⟩).inv

theorem Reachable.exact (h : Reachable config w) : w.Exact := by
  obtain ⟨registry, clock, hrun⟩ := h
  refine hrun.invariant_of (I := Exact) (J := Reachable config) ?_ ?_
    fun u a v hR hu hv => hu.step hR.matched hR.approvals.inv hR.waiting (step_change hv)
  · exact fun u hu => ⟨registry, clock, hu⟩
  · exact ⟨fun e he => absurd he List.not_mem_nil, fun id => Nat.zero_le 1,
      fun r hr => absurd hr List.not_mem_nil⟩

/-- Over all runs ever started for a saved approval, the executor is called with a confirmation
at most once, with the tool name and the arguments stored, and every state of these runs has the
message and the task type stored. -/
theorem confirmed_execution (hw : Reachable config w) (hl : Later config w w') {id : UUID}
    {a : Approval} (ha : w.approvals.approval? id = some a) :
    w'.confirmedCalls id ≤ 1 ∧ ∀ e ∈ w'.trace, e.approvalId = some id → Faithful a e.request := by
  have hw' := hw.later hl
  refine ⟨hw'.exact.once id, fun e he hid => ?_⟩
  obtain ⟨-, b, hb, hf⟩ := hw'.exact.traced e he id hid
  have happrovals : w.approvals.Later w'.approvals := by
    refine hl.project AgentWorld.approvals fun u x v hv => Or.inr ?_
    obtain ⟨event, hs⟩ := (step_change hv).approvals_step
    exact ⟨_, hs⟩
  obtain ⟨a', ha', hplan, -⟩ := hw.approvals.inv.later happrovals ha
  obtain rfl := Option.some.inj (hb.symm.trans ha')
  exact hf.of_samePlan hplan.symm

/-- The blocked call of the sample run, and the run that its confirmation starts. -/
theorem confirmed_execution_sample :
    ∃ a, samplePaused.approvals.approval? 50 = some a ∧ sampleConfirmed.confirmedCalls 50 ≤ 1 ∧
      ∀ e ∈ sampleConfirmed.trace, e.approvalId = some 50 → Faithful a e.request := by
  obtain ⟨a, ha⟩ : ∃ a, samplePaused.approvals.approval? 50 = some a :=
    Option.isSome_iff_exists.mp (by decide +kernel)
  exact ⟨a, ha, confirmed_execution reachable_samplePaused later_sampleConfirmed ha⟩

example : sampleConfirmed.confirmedCalls 50 = 1 := by decide +kernel

end AgentWorld

end AgentDemo
