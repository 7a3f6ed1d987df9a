import AgentDemo.Services.ModelGateway

/-! A streamed reply comes from one attempt, and ends normally only at a completion marker. -/
namespace AgentDemo

/-- The blocks of lines that a blank line ends, when `opened` is already read. -/
def blocksFrom (opened : List String) : List String → List (List String)
  | [] => []
  | line :: lines =>
    if line = "" then opened :: blocksFrom [] lines else blocksFrom (opened ++ [line]) lines

def blockValues (block : List String) : List String := block.filterMap dataValue

def valuesSize (values : List String) : ℕ := (values.map fun value => value.length + 1).sum

def blockFits (block : List String) : Bool := valuesSize (blockValues block) ≤ maxSseEventChars

/-- The event of a block; a block without data has none. -/
def blockEvent (block : List String) : Option String :=
  if blockValues block = [] then none else some ("\n".intercalate (blockValues block))

/-- The events dispatched before a block exceeds the size limit. -/
def dispatchedFrom (opened lines : List String) : List String :=
  ((blocksFrom opened lines).takeWhile blockFits).filterMap blockEvent

/-- A chunk with `finish_reason` `stop`. -/
def Stops (chunk : JsonObject) : Prop :=
  ∃ choice rest, chunk.get? "choices" = some (.arr (.obj choice :: rest)) ∧
    JsonObject.get? choice "finish_reason" = some (.str "stop")

variable (loads : String → Loaded)

/-- The event raises no error. -/
def SoundEvent (data : String) : Prop :=
  data = "[DONE]" ∨ ∃ chunk delta, parseObject loads data = .ok chunk ∧
    streamDelta chunk = .ok delta

def CompletingEvent (data : String) : Prop :=
  data = "[DONE]" ∨ ∃ chunk delta, parseObject loads data = .ok chunk ∧
    streamDelta chunk = .ok delta ∧ Stops chunk

/-- The attempt delivers a completion marker before any error in it. -/
def Attempt.Completes : Attempt → Prop
  | .refused _ => False
  | .answered status lines _ => 200 ≤ status ∧ status < 300 ∧
    ∃ before data after, dispatchedFrom [] lines = before ++ data :: after ∧
      (∀ d ∈ before, SoundEvent loads d) ∧ CompletingEvent loads data

def eventText (data : String) : Option String :=
  match handleEvent loads data with
  | .ok (token, _) => if token = "" then none else some token
  | .error _ => none

/-- The answer texts in the response of an attempt. -/
def Attempt.texts : Attempt → List String
  | .refused _ => []
  | .answered _ lines _ => (dispatchedFrom [] lines).filterMap (eventText loads)

def GatewayEvent.isRequest : GatewayEvent → Bool
  | .request _ => true
  | .token _ _ => false

/-- The loop over the dispatched events, apart from the lines they come from. -/
def consume (ending : StreamError) : List String → Reading
  | [] => ⟨[], .error ending⟩
  | data :: rest =>
    match handleEvent loads data with
    | .error e => ⟨[], .error e⟩
    | .ok (token, true) => Reading.yield token ⟨[], .ok ()⟩
    | .ok (token, false) => (consume ending rest).yield token

theorem valuesSize_append (xs ys : List String) :
    valuesSize (xs ++ ys) = valuesSize xs + valuesSize ys := by
  simp [valuesSize]

theorem blockValues_append (xs ys : List String) :
    blockValues (xs ++ ys) = blockValues xs ++ blockValues ys := by
  simp [blockValues]

theorem takeWhile_blocksFrom_of_not_fits (opened lines : List String)
    (h : blockFits opened = false) : (blocksFrom opened lines).takeWhile blockFits = [] := by
  induction lines generalizing opened with
  | nil => rfl
  | cons line lines ih =>
    simp only [blocksFrom]
    split_ifs with hl
    · simp [h]
    · refine ih _ ?_
      simp only [blockFits, decide_eq_false_iff_not, not_le] at h ⊢
      rw [blockValues_append, valuesSize_append]
      omega

/-- The line parser and the event loop together consume the dispatched events. -/
theorem readLines_eq_consume (broken : Option HttpxFailure) (opened lines : List String)
    (hf : blockFits opened = true) :
    ∃ ending, readLines loads broken ⟨blockValues opened, valuesSize (blockValues opened)⟩ lines =
      consume loads ending (dispatchedFrom opened lines) := by
  induction lines generalizing opened with
  | nil =>
    cases broken with
    | none => exact ⟨_, rfl⟩
    | some failure => exact ⟨_, rfl⟩
  | cons line lines ih =>
    by_cases hl : line = ""
    · obtain ⟨ending, he⟩ := ih [] rfl
      refine ⟨ending, ?_⟩
      have hd : dispatchedFrom opened (line :: lines) =
          (blockEvent opened).toList ++ dispatchedFrom [] lines := by
        simp only [dispatchedFrom, blocksFrom, hl, if_true, List.takeWhile_cons, hf]
        cases hb : blockEvent opened <;> simp [hb]
      rw [hd]
      by_cases hv : blockValues opened = []
      · have hs : valuesSize (blockValues opened) = 0 := by rw [hv]; rfl
        simp only [readLines, sseLine, hl, hv, if_true, blockEvent, Option.toList, List.nil_append]
        rw [← he]
        rfl
      · simp only [readLines, sseLine, hl, hv, if_true, if_false, blockEvent, Option.toList,
          List.singleton_append, consume]
        rw [← he]
        rfl
    · have hd :
        dispatchedFrom opened (line :: lines) = dispatchedFrom (opened ++ [line]) lines := by
        simp only [dispatchedFrom, blocksFrom, hl, if_false]
      rw [hd]
      cases hv : dataValue line with
      | none =>
        have hb : blockValues (opened ++ [line]) = blockValues opened := by
          simp [blockValues, hv]
        obtain ⟨ending, he⟩ := ih (opened ++ [line]) (by simpa only [blockFits, hb] using hf)
        refine ⟨ending, ?_⟩
        simp only [readLines, sseLine, hl, hv, if_false]
        rw [← he, hb]
      | some value =>
        have hb : blockValues (opened ++ [line]) = blockValues opened ++ [value] := by
          simp [blockValues, hv]
        have hs : valuesSize (blockValues (opened ++ [line])) =
            valuesSize (blockValues opened) + (value.length + 1) := by
          rw [hb, valuesSize_append]
          simp [valuesSize]
        by_cases hm : valuesSize (blockValues opened) + (value.length + 1) > maxSseEventChars
        · have hn : blockFits (opened ++ [line]) = false := by
            simp only [blockFits, hs, decide_eq_false_iff_not, not_le]
            exact hm
          refine ⟨.response "Model stream event exceeds the size limit", ?_⟩
          simp only [readLines, sseLine, hl, hv, hm, if_false, if_true]
          rw [dispatchedFrom, takeWhile_blocksFrom_of_not_fits _ _ hn]
          rfl
        · have hy : blockFits (opened ++ [line]) = true := by
            simp only [blockFits, hs, decide_eq_true_eq]
            omega
          obtain ⟨ending, he⟩ := ih (opened ++ [line]) hy
          refine ⟨ending, ?_⟩
          simp only [readLines, sseLine, hl, hv, hm, if_false]
          rw [← he, hs, hb]

theorem streamDelta_finished {chunk : JsonObject} {text : String} {last : Bool}
    (h : streamDelta chunk = .ok (text, last)) : last = true ↔ Stops chunk := by
  unfold streamDelta at h
  split at h
  · rename_i hc
    obtain ⟨rfl, rfl⟩ := Prod.mk.inj (Except.ok.inj h)
    constructor
    · intro h
      cases h
    · rintro ⟨choice, rest, hs, -⟩
      rw [hc] at hs
      cases hs
  · rename_i choice rest hc
    have hf : chunkFinished choice = .ok last := by
      split at h
      · split at h <;> cases hx : chunkFinished choice <;> simp_all [Except.map]
      · cases h
    have hs : Stops chunk ↔ JsonObject.get? choice "finish_reason" = some (.str "stop") := by
      constructor
      · rintro ⟨choice', rest', hs, hr⟩
        rw [hc] at hs
        cases hs
        exact hr
      · intro hr
        exact ⟨choice, rest, hc, hr⟩
    rw [hs]
    unfold chunkFinished at hf
    split at hf <;> simp_all
  · cases h

theorem soundEvent_iff (data : String) :
    SoundEvent loads data ↔ ∃ token last, handleEvent loads data = .ok (token, last) := by
  unfold SoundEvent handleEvent
  by_cases hd : data = "[DONE]"
  · simp [hd]
  · cases hp : parseObject loads data with
    | error e => simp [hd]
    | ok chunk => simp [hd]

theorem completingEvent_iff (data : String) :
    CompletingEvent loads data ↔ ∃ token, handleEvent loads data = .ok (token, true) := by
  unfold CompletingEvent handleEvent
  by_cases hd : data = "[DONE]"
  · simp [hd]
  · cases hp : parseObject loads data with
    | error e => simp [hd]
    | ok chunk =>
      simp only [hd, false_or, if_false, Except.ok.injEq, exists_and_left, exists_eq_left']
      constructor
      · rintro ⟨⟨text, last⟩, hs, ht⟩
        obtain rfl := (streamDelta_finished hs).mpr ht
        exact ⟨text, hs⟩
      · rintro ⟨text, hs⟩
        exact ⟨_, hs, (streamDelta_finished hs).mp rfl⟩

theorem yield_result (token : String) (r : Reading) : (r.yield token).result = r.result := by
  unfold Reading.yield
  split_ifs <;> rfl

/-- The loop over the events returns exactly at the first completion marker. -/
theorem consume_result (ending : StreamError) (events : List String) :
    (consume loads ending events).result = .ok () ↔
      ∃ before data after, events = before ++ data :: after ∧
        (∀ d ∈ before, SoundEvent loads d) ∧ CompletingEvent loads data := by
  induction events with
  | nil => simp [consume]
  | cons data rest ih =>
    have hcons : (∃ before d after, data :: rest = before ++ d :: after ∧
        (∀ x ∈ before, SoundEvent loads x) ∧ CompletingEvent loads d) ↔
        CompletingEvent loads data ∨ (SoundEvent loads data ∧
          ∃ before d after, rest = before ++ d :: after ∧
            (∀ x ∈ before, SoundEvent loads x) ∧ CompletingEvent loads d) := by
      constructor
      · rintro ⟨before, d, after, he, hb, hd⟩
        cases before with
        | nil =>
          obtain ⟨rfl, rfl⟩ := List.cons.inj he
          exact .inl hd
        | cons b before =>
          obtain ⟨rfl, rfl⟩ := List.cons.inj he
          exact .inr ⟨hb _ List.mem_cons_self, before, d, after, rfl,
            fun x hx => hb x (List.mem_cons_of_mem _ hx), hd⟩
      · rintro (hd | ⟨hs, before, d, after, rfl, hb, hd⟩)
        · exact ⟨[], data, rest, rfl, by simp, hd⟩
        · refine ⟨data :: before, d, after, rfl, ?_, hd⟩
          simpa using ⟨hs, hb⟩
    rw [hcons, ← ih, soundEvent_iff, completingEvent_iff]
    cases hh : handleEvent loads data with
    | error e => simp [consume, hh]
    | ok out =>
      obtain ⟨token, last⟩ := out
      cases last with
      | true => simp [consume, hh, yield_result]
      | false => simp [consume, hh, yield_result]

/-- The loop over the events yields their texts in order, and nothing else. -/
theorem consume_tokens (ending : StreamError) (events : List String) :
    (consume loads ending events).tokens <+: events.filterMap (eventText loads) := by
  induction events with
  | nil => exact List.nil_prefix
  | cons data rest ih =>
    cases hh : handleEvent loads data with
    | error e => simp [consume, hh]
    | ok out =>
      obtain ⟨token, last⟩ := out
      by_cases ht : token = ""
      · have hn : eventText loads data = none := by simp [eventText, hh, ht]
        cases last with
        | true => simp [consume, hh, Reading.yield, ht]
        | false => simpa [consume, hh, Reading.yield, ht, hn] using ih
      · have hs : eventText loads data = some token := by simp [eventText, hh, ht]
        cases last with
        | true => simp [consume, hh, Reading.yield, ht, hs]
        | false => simpa [consume, hh, Reading.yield, ht, hs] using ih

theorem read_result (a : Attempt) : (a.read loads).result = .ok () ↔ a.Completes loads := by
  cases a with
  | refused failure => simp [Attempt.read, Attempt.Completes]
  | answered status lines broken =>
    by_cases hs : 200 ≤ status ∧ status < 300
    · obtain ⟨ending, he⟩ := readLines_eq_consume loads broken [] lines rfl
      have hr : (Attempt.answered status lines broken).read loads =
          consume loads ending (dispatchedFrom [] lines) := by
        rw [← he]
        simp only [Attempt.read, hs, and_self, if_true]
        rfl
      rw [hr, consume_result]
      simp [Attempt.Completes, hs]
    · simp only [Attempt.read, hs, if_false, reduceCtorEq, false_iff]
      rintro ⟨h1, h2, -⟩
      exact hs ⟨h1, h2⟩

theorem read_tokens (a : Attempt) : (a.read loads).tokens <+: a.texts loads := by
  cases a with
  | refused failure => exact List.nil_prefix
  | answered status lines broken =>
    by_cases hs : 200 ≤ status ∧ status < 300
    · obtain ⟨ending, he⟩ := readLines_eq_consume loads broken [] lines rfl
      have hr : (Attempt.answered status lines broken).read loads =
          consume loads ending (dispatchedFrom [] lines) := by
        rw [← he]
        simp only [Attempt.read, hs, and_self, if_true]
        rfl
      rw [hr]
      exact consume_tokens loads ending _
    · simp [Attempt.read, hs]

/-- The loop sends requests until one attempt decides it; only that one yields tokens. -/
theorem attemptLoop_shape (s : GatewaySettings) (p : Provider) (left attempt : ℕ)
    (hl : attempt + left = s.llmMaxRetries) :
    ∃ n ≤ left, (attemptLoop loads s p (left + 1) attempt false).events =
        (List.range' attempt (n + 1)).map .request ++
          ((p.attempt (attempt + n)).read loads).tokens.map (.token (attempt + n)) ∧
      (∀ j < n, ((p.attempt (attempt + j)).read loads).result ≠ .ok ()) ∧
      ((attemptLoop loads s p (left + 1) attempt false).result = .ok () ↔
        ((p.attempt (attempt + n)).read loads).result = .ok ()) := by
  induction left generalizing attempt with
  | zero =>
    refine ⟨0, le_refl _, ?_⟩
    have hretry (e : StreamError) : shouldRetry s e attempt = false := by
      simp only [shouldRetry]
      rw [if_pos (by omega)]
    unfold attemptLoop
    cases hr : ((p.attempt attempt).read loads).result with
    | ok u => simp [hr]
    | error e => simp [hretry, hr]
  | succ left ih =>
    unfold attemptLoop
    cases hr : ((p.attempt attempt).read loads).result with
    | ok u => exact ⟨0, Nat.zero_le _, by simp [hr]⟩
    | error e =>
      by_cases hempty : ((p.attempt attempt).read loads).tokens = []
      swap
      · exact ⟨0, Nat.zero_le _, by simp [hr, hempty]⟩
      by_cases hretry : e.caught = false ∨ shouldRetry s e attempt = false
      · exact ⟨0, Nat.zero_le _, by simp [hr, hempty, hretry]⟩
      by_cases hdead : p.deadlineInBackoff attempt = true
      · exact ⟨0, Nat.zero_le _, by simp [hr, hempty, hretry, hdead]⟩
      · simp only [hr, hempty, hretry, hdead, List.map_nil, List.isEmpty_nil, Bool.not_true,
          Bool.or_false, Bool.false_eq_true, false_or, if_false]
        obtain ⟨n, hn, he, hj, hres⟩ := ih (attempt + 1) (by omega)
        have hidx : attempt + 1 + n = attempt + (n + 1) := by omega
        rw [hidx] at he hres
        refine ⟨n + 1, by omega, ?_, ?_, ?_⟩
        · rw [he, List.range'_succ (n := n + 1)]
          rfl
        · intro j hjn
          cases j with
          | zero => simp [hr]
          | succ j =>
            have h := hj j (by omega)
            rwa [show attempt + 1 + j = attempt + (j + 1) by omega] at h
        · exact hres

theorem filter_requests (requests : List ℕ) (k : ℕ) (tokens : List String) :
    (requests.map GatewayEvent.request ++ tokens.map (GatewayEvent.token k)).filter
      GatewayEvent.isRequest = requests.map GatewayEvent.request := by
  simp [List.filter_append, List.filter_map, Function.comp_def, GatewayEvent.isRequest]

theorem filter_tokens (requests : List ℕ) (k : ℕ) (tokens : List String) :
    (requests.map GatewayEvent.request ++ tokens.map (GatewayEvent.token k)).filter
      (fun e => !e.isRequest) = tokens.map (GatewayEvent.token k) := by
  simp [List.filter_append, List.filter_map, Function.comp_def, GatewayEvent.isRequest]

theorem streamReply_cases (s : GatewaySettings) (p : Provider) :
    streamReply loads s p = ⟨[], .error .missingApiKey⟩ ∨
      streamReply loads s p = attemptLoop loads s p (s.llmMaxRetries + 1) 0 false := by
  unfold streamReply
  simp only
  split_ifs
  all_goals first | exact .inl rfl | exact .inr rfl

/-- Nothing is duplicated over the attempts, and only a completion marker ends a reply. -/
theorem streamReply_faithful (s : GatewaySettings) (p : Provider) :
    (∃ k texts, (streamReply loads s p).events.filter (fun e => !e.isRequest) =
        texts.map (.token k) ∧ texts <+: (p.attempt k).texts loads) ∧
      ((streamReply loads s p).events.filter GatewayEvent.isRequest).length ≤
        s.llmMaxRetries + 1 ∧
      (streamReply loads s p).events.Pairwise
        (fun earlier later => earlier.isRequest = false → later.isRequest = false) ∧
      ((streamReply loads s p).result = .ok () ↔
        ∃ k, .request k ∈ (streamReply loads s p).events ∧ (p.attempt k).Completes loads) := by
  rcases streamReply_cases loads s p with hr | hr
  · rw [hr]
    exact ⟨⟨0, [], rfl, List.nil_prefix⟩, Nat.zero_le _, List.Pairwise.nil, by simp⟩
  · obtain ⟨n, hn, he, hj, hres⟩ :=
      attemptLoop_shape loads s p s.llmMaxRetries 0 (by omega)
    simp only [Nat.zero_add] at he hj hres
    rw [hr, he, filter_requests, filter_tokens, hres]
    refine ⟨⟨n, _, rfl, read_tokens loads _⟩, by simpa using hn, ?_, ?_⟩
    · rw [List.pairwise_append]
      refine ⟨?_, ?_, ?_⟩
      · rw [List.pairwise_map]
        exact List.pairwise_of_forall (by simp [GatewayEvent.isRequest])
      · rw [List.pairwise_map]
        exact List.pairwise_of_forall (by simp [GatewayEvent.isRequest])
      · intro a ha b hb
        obtain ⟨i, -, rfl⟩ := List.mem_map.mp ha
        simp [GatewayEvent.isRequest]
    · constructor
      · intro h
        exact ⟨n, by simp [List.mem_range'], (read_result loads _).mp h⟩
      · rintro ⟨k, hk, hc⟩
        have hkn : k ≤ n := by
          simp [List.mem_range'] at hk
          omega
        by_cases hlt : k < n
        · exact absurd ((read_result loads _).mpr hc) (hj k hlt)
        · obtain rfl : k = n := by omega
          exact (read_result loads _).mpr hc

end AgentDemo
