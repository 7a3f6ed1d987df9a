import AgentDemo.Agent.CurrentPlans
import AgentDemo.System.ConfirmedExecution

/-! The confirmation gate over all runs: what a dispatched tool requires at that instant, and the
refreshes of the registry that overtake a plan. -/
namespace AgentDemo

/-- The tool and the arguments that the run has been approved for. -/
def GraphRun.approved (r : GraphRun) : Option (String × JsonObject) :=
  r.claimed.map fun c => (c.stored.toolName, c.stored.arguments)

def GraphRun.EndangeredBy (r : GraphRun) (registry : UnifiedToolRegistry) : Prop :=
  match r.program with
  | .ask q _ => Endangers r.approved registry q
  | .done _ => False

namespace AgentWorld

/-- The tool that the registry had under the name of a dispatched tool required a confirmation
only where the run had claimed the approval of that tool and these arguments. -/
def GateHolds (w : AgentWorld) : Prop :=
  ∀ e ∈ w.trace, ∀ tool arguments confirmed, e.request = .dispatch tool arguments confirmed →
    ∀ registered, e.registry.get tool.manifest.name = some registered →
      registered.manifest.requiresConfirmation = true →
        ∃ id a, e.approvalId = some id ∧ w.approvals.approval? id = some a ∧
          tool.manifest.name = a.toolName ∧ arguments = a.arguments

/-- A refresh overtakes no plan without confirmation and no call behind the gate. -/
def Harmless (config : AgentConfig) (w : AgentWorld) (a : AgentAction) : Prop :=
  match a.event with
  | .refresh listings => ∀ r ∈ w.runs,
      ¬ r.EndangeredBy (w.registry.refreshMcpTools config.reader listings)
  | _ => True

/-- Every run keeps to the gate from where it stands. -/
def Guarded (w : AgentWorld) : Prop :=
  ∀ r ∈ w.runs, (gateContract r.approved).Safe (fun _ _ => True) r.program w.registry

variable {config : AgentConfig} {w w' : AgentWorld}

/-- Only a refresh changes the registry, and it leaves the plugins alone. -/
theorem registry_of_step {a : AgentAction} (h : step config w a = some w')
    (hok : Harmless config w a) : w'.registry.pluginTools = w.registry.pluginTools ∧
      (w'.registry = w.registry ∨ ∀ r ∈ w.runs, ¬ r.EndangeredBy w'.registry) := by
  obtain ⟨event, now⟩ := a
  cases event with
  | refresh listings =>
    obtain ⟨approvals, -, rfl⟩ := Option.map_eq_some_iff.mp h
    exact ⟨rfl, Or.inr hok⟩
  | approval event =>
    simp only [step, apply] at h
    split_ifs at h
    obtain ⟨approvals, -, rfl⟩ := Option.map_eq_some_iff.mp h
    exact ⟨rfl, Or.inl rfl⟩
  | chat userId taskId conversationId message taskType traceId =>
    obtain ⟨approvals, -, rfl⟩ := Option.map_eq_some_iff.mp h
    exact ⟨rfl, Or.inl rfl⟩
  | confirm userId payload traceId =>
    simp only [step, apply] at h
    split at h
    · cases h
    · cases h
      exact ⟨rfl, Or.inl rfl⟩
    · split at h
      · cases h
      · cases h
        exact ⟨rfl, Or.inl rfl⟩
  | answer i reply =>
    simp only [step, apply] at h
    split at h
    · cases h
    · split at h
      · cases h
      · split at h
        · cases h
          exact ⟨rfl, Or.inl rfl⟩
        · cases h
  | abort i =>
    simp only [step, apply] at h
    split at h
    · cases h
    · obtain ⟨approvals, -, rfl⟩ := Option.map_eq_some_iff.mp h
      exact ⟨rfl, Or.inl rfl⟩

/-- A waiting run stays guarded when a harmless step changes the registry. -/
theorem Guarded.of_registry {registry : UnifiedToolRegistry} {r : GraphRun}
    (hsafe : (gateContract r.approved).Safe (fun _ _ => True) r.program w.registry)
    (hwait : r.program.Waits w.registry.look)
    (hplugins : registry.pluginTools = w.registry.pluginTools)
    (h : registry = w.registry ∨ ¬ r.EndangeredBy registry) :
    (gateContract r.approved).Safe (fun _ _ => True) r.program registry := by
  obtain ⟨claimed, program⟩ := r
  cases program with
  | done e => trivial
  | ask q k => exact hsafe.of_rely hwait ⟨hplugins, h⟩

theorem Guarded.start (h : w.Guarded) {claimed : Option Claimed} {program : AgentProgram GraphEnd}
    (hnew : (gateContract (GraphRun.approved ⟨claimed, program⟩)).Safe (fun _ _ => True) program
      w.registry) : (w.start claimed program).Guarded := by
  intro r hr
  rcases List.mem_append.mp hr with hr | hr
  · exact h r hr
  · rw [List.mem_singleton.mp hr]
    exact hnew.settle

theorem Guarded.step {a : AgentAction} (h : w.Guarded) (hw : w.Waiting)
    (hstep : step config w a = some w') (hok : Harmless config w a) : w'.Guarded := by
  obtain ⟨hplugins, hregistry⟩ := registry_of_step hstep hok
  cases step_change hstep with
  | approvals hout hs => exact h
  | refused hs hc => exact h
  | chat hs =>
    exact Guarded.start (w := { w with approvals := _ }) h (gate_stream _ _ _ _ _ _ _ _ _)
  | confirm hs hclaim hst =>
    obtain ⟨-, hne⟩ := stored_of_claim hs hclaim hst
    exact Guarded.start (w := { w with approvals := _ }) h
      (gate_streamConfirmedTool _ _ _ _ _ _ hne _)
  | refresh hs =>
    exact fun r hr => Guarded.of_registry (h r hr) (hw r hr) hplugins
      (hregistry.imp_right fun hall => hall r hr)
  | @answer i r reply q k x approvals hi hp hs =>
    intro r' hr'
    rcases mem_set_cases hr' with rfl | ⟨j, -, hj⟩
    · have hr : r ∈ w.runs := List.mem_of_getElem? hi
      have hsafe := h r hr
      have hwait := hw r hr
      rw [hp] at hsafe hwait
      exact (hsafe.answer hwait x).2.settle
    · exact h r' (List.mem_of_getElem? hj)
  | abort hi hs =>
    intro r' hr'
    rcases mem_set_cases hr' with rfl | ⟨j, -, hj⟩
    · trivial
    · exact h r' (List.mem_of_getElem? hj)

/-- What a step adds to the history. -/
theorem trace_of_change {now : Instant} (h : Change config w now w') :
    w'.trace = w.trace ∨ ∃ i r q k, w.runs[i]? = some r ∧ r.program = .ask q k ∧
      w'.trace = w.trace ++ [⟨i, r.approvalId, q, w.registry⟩] := by
  cases h with
  | @answer i r reply q k a approvals hi hp hs => exact Or.inr ⟨i, r, q, k, hi, hp, rfl⟩
  | approvals | refused | chat | confirm | refresh | abort => exact Or.inl rfl

theorem GateHolds.step {a : AgentAction} (h : w.GateHolds) (hg : w.Guarded) (hw : w.Waiting)
    (hx : w.Exact) (hA : w.approvals.Inv) (hstep : step config w a = some w') : w'.GateHolds := by
  have hc := step_change hstep
  obtain ⟨event, hs⟩ := hc.approvals_step
  have hmoves := (hA.advances hs).moves
  have hold {e : TraceEntry} {name : String} {arguments : JsonObject}
      (hex : ∃ id a, e.approvalId = some id ∧ w.approvals.approval? id = some a ∧
        name = a.toolName ∧ arguments = a.arguments) :
      ∃ id a, e.approvalId = some id ∧ w'.approvals.approval? id = some a ∧
        name = a.toolName ∧ arguments = a.arguments := by
    obtain ⟨id, b, hid, hb, hname, hargs⟩ := hex
    obtain ⟨b', hb', hplan, -⟩ := hmoves id b hb
    exact ⟨id, b', hid, hb', by rw [hname, hplan.toolName], by rw [hargs, hplan.arguments]⟩
  intro e he tool arguments confirmed hreq registered hget hrequires
  rcases trace_of_change hc with htrace | ⟨i, r, q, k, hi, hp, htrace⟩
  · rw [htrace] at he
    exact hold (h e he tool arguments confirmed hreq registered hget hrequires)
  · rw [htrace] at he
    rcases List.mem_append.mp he with he | he
    · exact hold (h e he tool arguments confirmed hreq registered hget hrequires)
    · obtain rfl := List.mem_singleton.mp he
      have hr : r ∈ w.runs := List.mem_of_getElem? hi
      have hsafe := hg r hr
      have hwait := hw r hr
      rw [hp] at hsafe hwait
      obtain rfl : q = _ := hreq
      have hguar : ¬ Unapproved r.approved w.registry tool.manifest.name arguments :=
        (hsafe.answer hwait ⟨.failed, .null, none⟩).1
      have happroved : r.approved = some (tool.manifest.name, arguments) := by
        by_contra hne
        exact hguar ⟨⟨registered, hget, hrequires⟩, hne⟩
      obtain ⟨c, hclaimed, hc⟩ := Option.map_eq_some_iff.mp happroved
      obtain ⟨hname, hargs⟩ := Prod.mk.inj hc
      obtain ⟨⟨b, hb, hplan⟩, -⟩ := hx.safe r hr c hclaimed
      refine hold ⟨c.approvalId, b, ?_, hb, ?_, ?_⟩
      · show r.claimed.map Claimed.approvalId = _
        rw [hclaimed]
        rfl
      · rw [← hname, hplan.toolName]
      · rw [← hargs, hplan.arguments]

/-- In every run of the system whose refreshes overtake no plan and no call, the gate holds. -/
theorem gate_holds_of_harmless {registry : UnifiedToolRegistry} {clock : Instant}
    (h :
      Transition.Reaches (Transition.Restrict (Transition.ofStep (step config)) (Harmless config))
      (initial registry clock) w) : w.GateHolds := by
  have hreach {u : AgentWorld} (hu : Transition.Reaches (Transition.Restrict
      (Transition.ofStep (step config)) (Harmless config)) (initial registry clock) u) :
      Reachable config u := ⟨registry, clock, hu.of_restrict⟩
  have hboth : w.Guarded ∧ w.GateHolds := by
    refine h.invariant_of (I := fun u => u.Guarded ∧ u.GateHolds) (J := Reachable config)
      (fun u hu => hreach hu) ⟨?_, ?_⟩ fun u a v hR hu hv => ⟨?_, ?_⟩
    · exact fun r hr => absurd hr List.not_mem_nil
    · exact fun e he => absurd he List.not_mem_nil
    · exact hu.1.step hR.waiting hv.1 hv.2
    · exact hu.2.step hu.1 hR.waiting hR.exact hR.approvals.inv hv.1
  exact hboth.2

end AgentWorld

def AgentEvent.isRefresh : AgentEvent → Bool
  | .refresh _ => true
  | _ => false

namespace AgentWorld

variable {config : AgentConfig} {w w' : AgentWorld}

theorem harmless_of_isRefresh {a : AgentAction} (h : a.event.isRefresh = false) :
    Harmless config w a := by
  obtain ⟨event, now⟩ := a
  cases event with
  | refresh listings => cases h
  | _ => trivial

/-- A run without refreshes is harmless. -/
theorem harmless_after {as : List AgentAction}
    (h : (Transition.exec (step config) w as).isSome)
    (hno : ∀ a ∈ as, a.event.isRefresh = false) :
    Transition.Reaches (Transition.Restrict (Transition.ofStep (step config)) (Harmless config)) w
      (w.after config as) := by
  obtain ⟨w', hw'⟩ := Option.isSome_iff_exists.mp h
  rw [after, hw', Option.getD_some]
  clear h
  induction as generalizing w with
  | nil =>
    obtain rfl := Option.some.inj hw'
    rfl
  | cons a as ih =>
    obtain ⟨m, hm, hrest⟩ := Option.bind_eq_some_iff.mp hw'
    have hok : Harmless config w a := harmless_of_isRefresh (hno a List.mem_cons_self)
    have hfirst := (Transition.Reaches.refl w).tail (R := Transition.Restrict
      (Transition.ofStep (step config)) (Harmless config)) ⟨hm, hok⟩
    exact hfirst.trans (ih (fun b hb => hno b (List.mem_cons_of_mem a hb)) hrest)

/-- The sample run with a refresh at its start. -/
theorem harmless_sampleConfirmed :
    Transition.Reaches (Transition.Restrict (Transition.ofStep (step sampleConfig))
      (Harmless sampleConfig)) (initial .empty 0) sampleConfirmed := by
  have hrefresh := (Transition.Reaches.refl (initial .empty 0)).tail (R := Transition.Restrict
    (Transition.ofStep (step sampleConfig)) (Harmless sampleConfig))
    (a := ⟨.refresh [sampleListing "delete" "write"], 0⟩)
    (u := initial (sampleRegistry "delete" "write") 0)
    ⟨rfl, fun r hr => absurd hr List.not_mem_nil⟩
  have hpaused : Transition.Reaches (Transition.Restrict (Transition.ofStep (step sampleConfig))
      (Harmless sampleConfig)) _ samplePaused :=
    harmless_after (by decide +kernel) (by decide)
  have hconfirmed : Transition.Reaches (Transition.Restrict
      (Transition.ofStep (step sampleConfig)) (Harmless sampleConfig)) _ sampleConfirmed :=
    harmless_after (by decide +kernel) (by decide)
  exact (hrefresh.trans hpaused).trans hconfirmed

theorem gate_holds_of_harmless_sample : sampleConfirmed.GateHolds :=
  gate_holds_of_harmless harmless_sampleConfirmed

/-- A chat plans a call that needs no confirmation; a refresh with a new catalog comes before
`execute_tool`, and the call is dispatched as if it had been confirmed. -/
def sampleOvertaken : AgentWorld :=
  (initial (sampleRegistry "search" "read") 0).after sampleConfig
    (sampleChat "Use mcp.notes.search" ++
      [⟨.refresh [sampleListing "search" "write"], seconds 1⟩, ⟨.answer 0 .unit, seconds 1⟩,
        ⟨.answer 0 (.stamp ⟨"trace-1", 20⟩), seconds 1⟩,
        ⟨.answer 0 (.outcome ⟨.success, .str "found", none⟩), seconds 2⟩])

/-- A dispatch, under no approval, of a tool that requires one. -/
def TraceEntry.isUngated (e : TraceEntry) : Bool :=
  match e.request with
  | .dispatch tool _ _ => e.approvalId.isNone && (e.registry.get tool.manifest.name).any
      fun registered => registered.manifest.requiresConfirmation
  | _ => false

theorem GateHolds.not_isUngated (h : w.GateHolds) : w.trace.any TraceEntry.isUngated = false := by
  rw [List.any_eq_false]
  intro e he
  unfold TraceEntry.isUngated
  split
  · next tool arguments confirmed hreq =>
    intro hcond
    obtain ⟨hnone, hdispatch⟩ := Bool.and_eq_true_iff.mp hcond
    obtain ⟨registered, hget, hrequires⟩ := (Option.any_eq_true _ _).mp hdispatch
    obtain ⟨id, a, hid, -⟩ := h e he tool arguments confirmed hreq registered hget hrequires
    rw [hid] at hnone
    cases hnone
  · simp

/-- The last request of the overtaken run is a dispatch that nobody has approved. -/
theorem not_gateHolds_sampleOvertaken :
    Reachable sampleConfig sampleOvertaken ∧ ¬ sampleOvertaken.GateHolds := by
  refine ⟨⟨_, _, later_after (by decide +kernel)⟩, fun h => ?_⟩
  have hlast : sampleOvertaken.trace.any TraceEntry.isUngated = true := by decide +kernel
  exact Bool.noConfusion (h.not_isUngated.symm.trans hlast)

end AgentWorld

end AgentDemo
