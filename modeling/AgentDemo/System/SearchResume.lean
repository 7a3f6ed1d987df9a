import AgentDemo.System.SearchSession

/-! A search that is confirmed page by page comes to the same as one without confirmations. -/
namespace AgentDemo

namespace SearchSession

section

variable {reader : TextReader} {settings : AgentSettings} {tools : SearchTools} {text : String}
  {plan : AgentToolPlan} {s s' : SearchSession}

/-- A cancelled approval leaves nothing to confirm. -/
theorem Faithful.resolved (h : Faithful reader settings tools text plan s) {id : UUID}
    (hid : id ∈ s.approvals) (hstatus : s.status id = some .cancelled) : s.Resolved := by
  have hunconfirmed {ids : List UUID} (hall : s.AllConfirmed ids) : id ∉ ids := by
    intro hmem
    obtain ⟨status, hs, hconfirmed⟩ := hall id hmem
    obtain rfl : status = .cancelled := Option.some.inj (hs.symm.trans hstatus)
    exact hconfirmed
  obtain ⟨fetched, -, -, hphase⟩ := h.progress
  cases hphase with
  | answered last trace confirmed => exact absurd hid (hunconfirmed confirmed)
  | @waiting older m tool target rest approvals confirmed get pending position stored =>
    rw [approvals] at hid
    rcases List.mem_append.mp hid with hid | hid
    · exact absurd hid (hunconfirmed confirmed)
    · rw [List.mem_singleton.mp hid] at hstatus
      have hpending : s.status m.id = some .pending := by
        unfold SearchSession.status
        rw [get]
        exact pending
      cases hstatus.symm.trans hpending
  | stopped resolved declined => exact resolved

/-- What a successful cancellation leaves in its row. -/
theorem status_of_cancel {conversations : Table Conversation} {userId conversationId id : UUID}
    {now : Instant} {row : Option Message}
    (h : cancel conversations s.messages userId conversationId id now = (.ok (), row)) :
    ({ s with messages := commitRow s.messages row } : SearchSession).status id =
      some .cancelled := by
  unfold cancel at h
  cases hl : locked conversations s.messages conversationId (some userId) (some id) none with
  | error e => simp [hl] at h
  | ok found =>
    obtain ⟨m, approval⟩ := found
    obtain ⟨hget, -, happroval⟩ := locked_eq_ok hl
    obtain rfl : m.id = id := id_of_locked hl
    simp only [hl] at h
    split_ifs at h with hcancelled
    · obtain rfl : none = row := congrArg Prod.snd h
      simp [SearchSession.status, commitRow, hget, happroval, hcancelled]
    · rcases requirePending_cases m approval now with ⟨e, he⟩ | ⟨-, ⟨e, he⟩ | ⟨-, he⟩⟩
      · simp [he] at h
      · simp [he] at h
      · rw [he] at h
        obtain rfl : some (finished m approval .cancelled none now) = row := congrArg Prod.snd h
        simp [SearchSession.status, commitRow, Table.get?_write, hget, finished]

end

end SearchSession

theorem collectTargets_obj (reader : TextReader) (fields : List (String × Json))
    (rest : List Json) (seen : List String) (wanted : ℕ) :
    collectTargets reader (.obj fields :: rest) seen wanted =
      let url := rstripUrl (strip (fieldText reader fields "url"))
      if reader.isHttpUrl url = false ∨ reader.lower url ∈ seen then
        collectTargets reader rest seen wanted
      else ⟨url, fieldText reader fields "title", fieldText reader fields "snippet"⟩ ::
        match wanted with
        | 0 => []
        | wanted + 1 => collectTargets reader rest (reader.lower url :: seen) wanted := rfl

/-- The pages of a search have different URLs, also without regard to case. -/
theorem nodup_collectTargets (reader : TextReader) (items : List Json) (seen : List String)
    (wanted : ℕ) :
    ((collectTargets reader items seen wanted).map fun target => reader.lower target.url).Nodup ∧
      ∀ target ∈ collectTargets reader items seen wanted, reader.lower target.url ∉ seen := by
  induction items generalizing seen wanted with
  | nil => exact ⟨List.nodup_nil, fun _ h => absurd h List.not_mem_nil⟩
  | cons item rest ih =>
    cases item with
    | obj fields =>
      rw [collectTargets_obj]
      generalize rstripUrl (strip (fieldText reader fields "url")) = url
      dsimp only
      split_ifs with hskip
      · exact ih seen wanted
      · rw [not_or] at hskip
        obtain ⟨hnodup, hnew⟩ : ((match wanted with
            | 0 => []
            | wanted + 1 => collectTargets reader rest (reader.lower url :: seen) wanted).map
              fun target : SearchTarget => reader.lower target.url).Nodup ∧
            ∀ target ∈ (match wanted with
              | 0 => []
              | wanted + 1 => collectTargets reader rest (reader.lower url :: seen) wanted :
                List SearchTarget), reader.lower target.url ∉ reader.lower url :: seen := by
          cases wanted with
          | zero => exact ⟨List.nodup_nil, fun _ h => absurd h List.not_mem_nil⟩
          | succ wanted => exact ih (reader.lower url :: seen) wanted
        refine ⟨?_, ?_⟩
        · rw [List.map_cons, List.nodup_cons]
          refine ⟨fun hmem => ?_, hnodup⟩
          obtain ⟨target, htarget, heq⟩ := List.mem_map.mp hmem
          exact hnew target htarget (heq ▸ List.mem_cons_self)
        · intro target htarget
          rcases List.mem_cons.mp htarget with rfl | htarget
          · exact hskip.2
          · exact fun hseen => hnew target htarget (List.mem_cons_of_mem _ hseen)
    | null => exact ih seen wanted
    | bool b => exact ih seen wanted
    | num q => exact ih seen wanted
    | str s => exact ih seen wanted
    | arr items => exact ih seen wanted

theorem nodup_pageCalls (tools : SearchTools) (reader : TextReader) (settings : AgentSettings)
    (arguments : JsonObject) {fetched : List SearchTarget}
    (h : fetched <+: tools.pages reader arguments) :
    ((webSearchToolName, arguments) :: fetched.map (pageCall settings)).Nodup := by
  have hpages := (nodup_collectTargets reader (searchResultItems reader
    (tools.response reader tools.search arguments).output) [] 2).1
  have hfetched : (fetched.map fun target => reader.lower target.url).Nodup :=
    hpages.sublist (h.sublist.map _)
  rw [List.nodup_cons]
  constructor
  · intro hmem
    obtain ⟨target, -, heq⟩ := List.mem_map.mp hmem
    have hname : mcpFetchToolName = webSearchToolName := congrArg Prod.fst heq
    exact absurd hname (by decide)
  · refine List.Nodup.map_on ?_ hfetched.of_map
    intro a ha b hb hab
    have hurl : a.url = b.url := by
      have harguments : fetchArguments settings a.url = fetchArguments settings b.url :=
        congrArg Prod.snd hab
      simpa [fetchArguments] using harguments
    exact List.inj_on_of_nodup_map hfetched ha hb (congrArg reader.lower hurl)

/-- A single run in which Fetch needs no confirmation answers with the whole trace. -/
theorem trace_of_single_run {reader : TextReader} {settings : AgentSettings} {tools : SearchTools}
    {text : String} {route : String → String → ModelRoute} {userId conversationId : Option UUID}
    {taskType traceId : String} {log : AgentLog} {r : GraphEnd} {plan : AgentToolPlan}
    (h : (stream reader settings route userId none conversationId text taskType traceId).RunsWith
      tools.unconfirmed.Answers log r)
    (hfirst : firstPlan log = some plan) (hname : plan.toolName = some webSearchToolName) :
    ∃ final, r = .answered final ∧
      final.searchTrace = tools.wholeTrace reader settings plan.arguments := by
  obtain ⟨-, fetched, approvals, hends, -⟩ := ends_stream hfirst hname h
  cases hends with
  | answered trace sub =>
    exact ⟨_, rfl, trace.trans (SearchTools.wholeTrace_unconfirmed plan.arguments)⟩
  | paused position stored pending =>
    obtain ⟨original, -, hfetch⟩ := Option.map_eq_some_iff.mp position.fetch
    have hwaits := position.waits.2
    rw [← hfetch] at hwaits
    cases hwaits

/-- At every point of a search, the search and a front part of its pages have been dispatched, each
once; nothing is dispatched after a cancellation; and with all approvals confirmed the latest
run has answered with the calls and observations of a run without confirmations. -/
theorem search_resumes_faithfully {reader : TextReader} {settings : AgentSettings}
    {tools : SearchTools} {text : String} {plan : AgentToolPlan} {start s : SearchSession}
    (hbegins : start.Begins reader settings tools text plan)
    (hlater : SearchSession.Later reader settings tools start s) :
    (∃ fetched, fetched <+: tools.pages reader plan.arguments ∧ dispatchedCalls s.log =
      (webSearchToolName, plan.arguments) :: fetched.map (pageCall settings)) ∧
    (dispatchedCalls s.log).Nodup ∧
    (∀ conversations userId conversationId approvalId now row s',
      cancel conversations s.messages userId conversationId approvalId now = (.ok (), row) →
      approvalId ∈ s.approvals →
      SearchSession.Later reader settings tools
        { s with messages := commitRow s.messages row } s' →
      dispatchedCalls s'.log = dispatchedCalls s.log) ∧
    (s.AllConfirmed s.approvals → ∃ final, s.last = .answered final ∧
      ∀ route userId conversationId taskType traceId log r single,
        (stream reader settings route userId none conversationId text taskType traceId).RunsWith
          tools.unconfirmed.Answers log r →
        firstPlan log = some single → single.toolName = some webSearchToolName →
        single.arguments = plan.arguments →
        ∃ final', r = .answered final' ∧ final'.searchTrace = final.searchTrace) := by
  have hfaithful := hbegins.later hlater
  obtain ⟨fetched, hsub, hcalls, hphase⟩ := hfaithful.progress
  refine ⟨⟨fetched, hsub, hcalls⟩, ?_, ?_, ?_⟩
  · rw [hcalls]
    exact nodup_pageCalls tools reader settings plan.arguments hsub
  · intro conversations userId conversationId approvalId now row s' hcancel hmine hl
    have hstatus := SearchSession.status_of_cancel hcancel
    have hstep : SearchSession.Step reader settings tools s (.cancel conversationId approvalId)
        { s with messages := commitRow s.messages row } := by
      have hrow : row =
          (cancel conversations s.messages userId conversationId approvalId now).2 := by
        rw [hcancel]
      rw [hrow]
      exact .cancelled
    have hresolved := (hbegins.later (hlater.tail hstep)).resolved hmine hstatus
    rw [hresolved.later hl]
  · intro hall
    have htrace : ∃ final, s.last = .answered final ∧
        final.searchTrace = tools.wholeTrace reader settings plan.arguments := by
      cases hphase with
      | answered last trace confirmed => exact ⟨_, last, trace⟩
      | @waiting older m tool target rest approvals confirmed get pending position stored =>
        have hmem : m.id ∈ s.approvals := by
          rw [approvals]
          exact List.mem_append_right _ List.mem_cons_self
        obtain ⟨status, hstatus, hconfirmed⟩ := hall m.id hmem
        have hpending : s.status m.id = some .pending := by
          unfold SearchSession.status
          rw [get]
          exact pending
        obtain rfl : status = .pending := Option.some.inj (hstatus.symm.trans hpending)
        exact hconfirmed.elim
      | stopped resolved declined => exact absurd hall declined
    obtain ⟨final, hlast, hfinal⟩ := htrace
    refine ⟨final, hlast, ?_⟩
    intro route userId conversationId taskType traceId log r single hrun hfirst hname harguments
    obtain ⟨final', rfl, hfinal'⟩ := trace_of_single_run hrun hfirst hname
    refine ⟨final', rfl, ?_⟩
    rw [hfinal', hfinal, harguments]

/-! A search with two pages, both confirmed. -/

def sampleSearchReader : TextReader := { sampleReader with requestsWebSearch := fun _ => true }

def sampleSearchTool : RegisteredTool :=
  ⟨⟨"web_search", "", "read", false, [], true⟩, .localPlugin, some "web_search", none⟩

def sampleFetchTool : RegisteredTool :=
  ⟨⟨"mcp.fetch.fetch", "", "network", true, [], true⟩, .mcpServer, some "fetch", some "fetch"⟩

def sampleSearchTools : SearchTools where
  search := sampleSearchTool
  fetch := some sampleFetchTool
  outcome name _ :=
    if name = "web_search" then
      ⟨.success, .obj [("results", .arr [.obj [("url", .str "https://a.example/")],
        .obj [("url", .str "https://b.example/")]])], none⟩
    else ⟨.failed, .null, some "timed out"⟩
  search_name := rfl
  search_enabled := rfl
  search_unconfirmed := rfl
  fetch_name := by
    rintro tool ⟨⟩
    rfl
  outcome_error := by
    intro name arguments
    split_ifs
    · nofun
    · decide

def sampleSearchAnswer (approvalId : UUID) : (q : Request) → q.Answer
  | .registryGet name =>
    if name = "web_search" then some sampleSearchTool
    else if name = "mcp.fetch.fetch" then some sampleFetchTool else none
  | .dispatch tool arguments _ => sampleSearchTools.outcome tool.manifest.name arguments
  | .createApproval _ => (approvalId, 0)
  | q => sampleAnswer q

theorem answers_sampleSearchAnswer (approvalId : UUID) (q : Request) :
    sampleSearchTools.Answers ⟨q, sampleSearchAnswer approvalId q⟩ := by
  cases q with
  | registryGet name =>
    constructor
    · rintro rfl
      rfl
    · rintro rfl
      rfl
  | dispatch tool arguments confirmed => rfl
  | _ => trivial

def sampleSearchRun : List Request × GraphEnd :=
  (stream sampleSearchReader sampleConfig.settings sampleConfig.route (some 1) none (some 30) "news"
    "conversation" "trace-0").run (sampleSearchAnswer 50)

def sampleSearchLog (approvalId : UUID) (requests : List Request) : AgentLog :=
  requests.map fun q => ⟨q, sampleSearchAnswer approvalId q⟩

/-- A search after a run, with what the run has stored. -/
def SearchSession.after (messages : Table Message) (log : AgentLog) (approvals : List UUID)
    (run : List Request × GraphEnd) (approvalId : UUID) : Option SearchSession :=
  let new := sampleSearchLog approvalId run.1
  let saved := savedApprovals sampleConfig.settings new
  (saveAll messages saved).map fun messages =>
    ⟨messages, log ++ new, approvals ++ saved.map Message.id, run.2⟩

def sampleConfirmPage (approvalId : UUID) (url : String) : ToolConfirmationRequest where
  conversationId := 30
  approvalId := some approvalId
  message := "news"
  toolName := "mcp.fetch.fetch"
  arguments := fetchArguments sampleConfig.settings url
  reason := ""
  taskType := "conversation"
  message_ne := by decide
  toolName_ne := by decide

def sampleSearchOwner : Table Conversation := ⟨[⟨30, some 1, "News"⟩], by decide⟩

/-- The confirmation of a page and its run; the next approval gets an id. -/
def SearchSession.confirmPage (s : SearchSession) (payload : ToolConfirmationRequest)
    (approvalId : UUID) : Option SearchSession :=
  match claim sampleSearchOwner s.messages (some 1) payload 1 with
  | (.error _, _) => none
  | (.ok m, row) =>
    match m.metadata.approval with
    | none => none
    | some stored =>
      if m.id ∈ s.approvals then
        SearchSession.after (commitRow s.messages row) s.log s.approvals
          ((streamConfirmedTool sampleSearchReader sampleConfig.settings sampleConfig.route (some 1)
            m stored "trace-1").run (sampleSearchAnswer approvalId)) approvalId
      else none

theorem step_confirmPage {s s' : SearchSession} {payload : ToolConfirmationRequest}
    {approvalId : UUID} (h : s.confirmPage payload approvalId = some s') :
    SearchSession.Step sampleSearchReader sampleConfig.settings sampleSearchTools s
      (.confirm payload) s' := by
  unfold SearchSession.confirmPage at h
  cases hclaim : claim sampleSearchOwner s.messages (some 1) payload 1 with
  | mk reply row =>
    rw [hclaim] at h
    cases reply with
    | error e => cases h
    | ok m =>
      cases happroval : m.metadata.approval with
      | none => simp [happroval] at h
      | some stored =>
        simp only [happroval] at h
        split_ifs at h with hmine
        obtain ⟨messages, hsaved, rfl⟩ := Option.map_eq_some_iff.mp h
        exact .confirmed hclaim hmine happroval
          (Program.runsWith_run _ (answers_sampleSearchAnswer approvalId) _) hsaved

def sampleSearchBegin : Option SearchSession :=
  SearchSession.after .empty [] [] sampleSearchRun 50

def sampleSearchEnd : Option SearchSession :=
  sampleSearchBegin.bind fun s =>
    (s.confirmPage (sampleConfirmPage 50 "https://a.example/") 51).bind fun s =>
      s.confirmPage (sampleConfirmPage 51 "https://b.example/") 52

example : (sampleSearchEnd.map fun s => (dispatchedCalls s.log).map Prod.fst) =
    some ["web_search", "mcp.fetch.fetch", "mcp.fetch.fetch"] := by decide +kernel

theorem begins_sampleSearch {s : SearchSession} (h : sampleSearchBegin = some s) :
    ∃ plan, s.Begins sampleSearchReader sampleConfig.settings sampleSearchTools "news" plan := by
  unfold sampleSearchBegin SearchSession.after at h
  obtain ⟨messages, hsaved, rfl⟩ := Option.map_eq_some_iff.mp h
  have hplan : ((firstPlan (sampleSearchLog 50 sampleSearchRun.1)).bind
      AgentToolPlan.toolName) = some webSearchToolName := by decide +kernel
  obtain ⟨plan, hfirst, hname⟩ := Option.bind_eq_some_iff.mp hplan
  have hrun : (stream sampleSearchReader sampleConfig.settings sampleConfig.route (some 1) none
      (some 30) "news" "conversation" "trace-0").RunsWith sampleSearchTools.Answers
        (sampleSearchLog 50 sampleSearchRun.1) sampleSearchRun.2 :=
    Program.runsWith_run _ (answers_sampleSearchAnswer 50) _
  exact ⟨plan, ⟨_, _, _, _, _, hrun⟩, hfirst, hname, ⟨_, hsaved⟩, rfl⟩

theorem search_resumes_faithfully_sample :
    ∃ s, sampleSearchEnd = some s ∧ ∃ final, s.last = .answered final := by
  have hend : sampleSearchEnd.isSome := by decide +kernel
  obtain ⟨s, hs⟩ := Option.isSome_iff_exists.mp hend
  have hstatus : (sampleSearchEnd.map fun s => s.approvals.map s.status) =
      some [some .approved, some .approved] := by decide +kernel
  obtain ⟨s₀, h₀, hrest⟩ := Option.bind_eq_some_iff.mp hs
  obtain ⟨s₁, h₁, h₂⟩ := Option.bind_eq_some_iff.mp hrest
  obtain ⟨plan, hbegins⟩ := begins_sampleSearch h₀
  have hlater : SearchSession.Later sampleSearchReader sampleConfig.settings sampleSearchTools
      s₀ s :=
    ((Transition.Reaches.refl s₀).tail (step_confirmPage h₁)).tail (step_confirmPage h₂)
  have hconfirmed : s.AllConfirmed s.approvals := by
    rw [hs] at hstatus
    have hall : s.approvals.map s.status = [some .approved, some .approved] :=
      Option.some.inj hstatus
    intro id hid
    have hmem : s.status id ∈ s.approvals.map s.status := List.mem_map_of_mem hid
    rw [hall] at hmem
    refine ⟨.approved, ?_, trivial⟩
    simpa using hmem
  obtain ⟨final, hlast, -⟩ := (search_resumes_faithfully hbegins hlater).2.2.2 hconfirmed
  exact ⟨s, hs, final, hlast⟩

end AgentDemo
