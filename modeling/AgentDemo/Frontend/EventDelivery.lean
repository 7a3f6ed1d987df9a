import AgentDemo.Frontend.EventChunks

/-! What the client delivers: the same events for every cut, and every event that the backend
frames. -/
namespace AgentDemo.Frontend

open PairSplit

variable {σ : Type} (decoder : TextDecoder σ) (parse : List Char → Option Json)

theorem Reader.loop_eq (state : σ) (s : Reader) (reads : List (List UInt8)) :
    let events := (readChunks s.buffer (decoder.texts state reads).1
      (decoder.texts state reads).2).flatMap (parseSseChunk parse)
    (Reader.loop decoder parse state s reads).delivered = s.delivered ++ events ∧
      (Reader.loop decoder parse state s reads).terminalEvent =
        (s.terminalEvent || events.any StreamEvent.isTerminal) := by
  induction reads generalizing state s with
  | nil => exact ⟨rfl, rfl⟩
  | cons value rest ih =>
    obtain ⟨hdelivered, hterminal⟩ := ih (decoder.decode state value).2
      (s.round parse (decoder.decode state value).1 false)
    simp only [Reader.loop, hdelivered, hterminal]
    simp only [Reader.round, TextDecoder.texts, readChunks, Bool.false_eq_true, if_false,
      List.flatMap_append, List.any_append, List.append_assoc, Bool.or_assoc, and_self]

def streamChunks (reads : List (List UInt8)) : List (List Char) :=
  readChunks [] (decoder.texts decoder.initial reads).1 (decoder.texts decoder.initial reads).2

def incompleteMessage : String :=
  "Connection ended before completion. Check this conversation before retrying."

theorem readEventStream_eq (reads : List (List UInt8)) :
    readEventStream decoder parse reads =
      let events := (streamChunks decoder reads).flatMap (parseSseChunk parse)
      (events, if events.any StreamEvent.isTerminal then .resolved
        else .rejected incompleteMessage) := by
  obtain ⟨hdelivered, hterminal⟩ :=
    Reader.loop_eq decoder parse decoder.initial ⟨[], false, []⟩ reads
  simp only [readEventStream, hdelivered, hterminal]
  rfl

theorem streamChunks_eq {reads : List (List UInt8)} (hclean : ¬ crCrLf <:+: decoder.text reads) :
    streamChunks decoder reads = splitPair '\n' (joinCrLf (decoder.text reads)) :=
  readChunks_eq carried_nil _ _ hclean

/-! ### The events of the backend -/

/-- An event as `runtime_event` and `done_event` receive it, with the keys of its payload that the
client reads. -/
inductive RuntimeEvent where
  | status (label traceId : String)
  | generating (model : String)
  | token (text : String)
  | plan (noTool : Bool) (toolName : Option String) (provider : String)
      (providerToolId serverName : Option String) (arguments : JsonObject) (reason : String)
      (requiresConfirmation : Bool)
  | toolCall (toolName provider : String) (providerToolId serverName : Option String)
      (arguments : JsonObject) (reason : String) (requiresConfirmation : Bool) (traceId : String)
      (searchEnrichment : Bool)
  | toolResult (toolName provider : String) (providerToolId serverName : Option String)
      (status : String) (output : Json) (outputSummary error : Option String) (durationMs : ℤ)
      (traceId : String)
  | error (message traceId : String)
  | done (conversationId : String) (citations mcpResources mcpPrompts toolCalls : List Json)
      (traceId modelName provider reason : String)

def RuntimeEvent.name : RuntimeEvent → String
  | .status .. | .generating .. => "status"
  | .token .. => "token"
  | .plan .. => "plan"
  | .toolCall .. => "tool_call"
  | .toolResult .. => "tool_result"
  | .error .. => "error"
  | .done .. => "done"

def RuntimeEvent.data : RuntimeEvent → JsonObject
  | .status label traceId => [("label", .str label), ("trace_id", .str traceId)]
  | .generating model => [("label", .str "generating"), ("model", .str model)]
  | .token text => [("text", .str text)]
  | .plan noTool toolName provider providerToolId serverName arguments reason confirmation =>
    [("no_tool", .bool noTool), ("tool_name", .ofText toolName), ("provider", .str provider),
      ("provider_tool_id", .ofText providerToolId), ("server_name", .ofText serverName),
      ("arguments", .obj arguments), ("reason", .str reason),
      ("requires_confirmation", .bool confirmation)]
  | .toolCall toolName provider providerToolId serverName arguments reason confirmation traceId
      searchEnrichment =>
    [("tool_name", .str toolName), ("provider", .str provider),
      ("provider_tool_id", .ofText providerToolId), ("server_name", .ofText serverName),
      ("arguments", .obj arguments), ("reason", .str reason),
      ("requires_confirmation", .bool confirmation), ("trace_id", .str traceId)] ++
      if searchEnrichment then [("search_enrichment", .bool true)] else []
  | .toolResult toolName provider providerToolId serverName outcome output summary failure duration
      traceId =>
    [("tool_name", .str toolName), ("provider", .str provider),
      ("provider_tool_id", .ofText providerToolId), ("server_name", .ofText serverName),
      ("status", .str outcome), ("output", output), ("output_summary", .ofText summary),
      ("error", .ofText failure), ("duration_ms", .num duration), ("trace_id", .str traceId)]
  | .error message traceId => [("message", .str message), ("trace_id", .str traceId)]
  | .done conversationId citations mcpResources mcpPrompts toolCalls traceId modelName provider
      reason =>
    [("conversation_id", .str conversationId), ("citations", .arr citations),
      ("mcp_resources", .arr mcpResources), ("mcp_prompts", .arr mcpPrompts),
      ("tool_calls", .arr toolCalls), ("trace_id", .str traceId),
      ("model_route", .obj [("model_name", .str modelName), ("provider", .str provider),
        ("reason", .str reason)])]

/-- The event that `onEvent` receives. -/
def RuntimeEvent.delivered (event : RuntimeEvent) : StreamEvent :=
  match event with
  | .status label _ => .status label none
  | .generating model => .status "generating" (some model)
  | .token text => .token text
  | .plan noTool toolName provider providerToolId serverName arguments reason confirmation =>
    .plan ⟨noTool, toolName, some provider, providerToolId, serverName, arguments, reason,
      confirmation⟩
  | .toolCall .. => .toolCall event.data
  | .toolResult .. => .toolResult event.data
  | .error message traceId => .error message (some traceId)
  | .done conversationId citations mcpResources mcpPrompts toolCalls traceId modelName provider
      reason =>
    .done ⟨conversationId, citations, some toolCalls, some mcpResources, some mcpPrompts,
      some traceId, some [("model_name", .str modelName), ("provider", .str provider),
        ("reason", .str reason)]⟩

@[simp] theorem stringOr_str (text : String) : stringOr (some (.str text)) = some text := rfl

@[simp] theorem stringOr_none : stringOr none = none := rfl

@[simp] theorem stringOr_ofText (text : Option String) : stringOr (some (.ofText text)) = text := by
  cases text <;> rfl

/-- The client knows every kind of event. -/
theorem toStreamEvent_runtimeEvent (event : RuntimeEvent) :
    toStreamEvent event.name (.obj event.data) = [event.delivered] := by
  cases event <;>
    simp [toStreamEvent, recordToStreamEvent, RuntimeEvent.name, RuntimeEvent.data,
      RuntimeEvent.delivered, JsonObject.get?, truthy, recordOrEmpty, arrayOr, isToolCallData,
      isToolResultData]

inductive LineEnd where
  | lf
  | crLf

def LineEnd.text : LineEnd → List Char
  | .lf => ['\n']
  | .crLf => ['\r', '\n']

/-- An event with the text of its payload, a JSON object in one line, and the ends of the lines of
its frame. -/
structure Frame where
  event : RuntimeEvent
  payload : List Char
  eventEnd : LineEnd
  dataEnd : LineEnd
  frameEnd : LineEnd
  single_line : ∀ c ∈ payload, c ≠ '\r' ∧ c ≠ '\n'
  payload_object : payload.head? = some '\x7b'

def Frame.eventLine (frame : Frame) : List Char := eventField ++ ' ' :: frame.event.name.toList

def Frame.dataLine (frame : Frame) : List Char := dataField ++ ' ' :: frame.payload

def Frame.text (frame : Frame) : List Char :=
  frame.eventLine ++ frame.eventEnd.text ++ frame.dataLine ++ frame.dataEnd.text ++
    frame.frameEnd.text

def Frame.chunk (frame : Frame) : List Char := frame.eventLine ++ '\n' :: frame.dataLine

def SingleLine (text : List Char) : Prop := ∀ c ∈ text, c ≠ '\r' ∧ c ≠ '\n'

def eventNames : List String :=
  ["status", "token", "plan", "tool_call", "tool_result", "error", "done"]

theorem name_mem_eventNames (event : RuntimeEvent) : event.name ∈ eventNames := by
  cases event <;> simp [RuntimeEvent.name, eventNames]

def isSingleLine (text : List Char) : Bool := text.all fun c => c ≠ '\r' && c ≠ '\n'

theorem singleLine_of_isSingleLine {text : List Char} (h : isSingleLine text = true) :
    SingleLine text := by
  intro c hc
  simpa using List.all_eq_true.mp h c hc

theorem singleLine_eventLine (frame : Frame) : SingleLine frame.eventLine := by
  have hnames : (eventNames.all fun name => isSingleLine (eventField ++ ' ' :: name.toList)) =
      true := by
    decide
  exact singleLine_of_isSingleLine (List.all_eq_true.mp hnames _ (name_mem_eventNames frame.event))

theorem singleLine_dataLine (frame : Frame) : SingleLine frame.dataLine := by
  intro c hc
  rcases List.mem_append.mp hc with hc | hc
  · exact singleLine_of_isSingleLine (show isSingleLine dataField = true by decide) c hc
  · rcases List.mem_cons.mp hc with rfl | hc
    · decide
    · exact frame.single_line c hc

/-- A line, its end and what follows. -/
theorem joinCrLf_line {line : List Char} (h : SingleLine line) (e : LineEnd) (rest : List Char) :
    joinCrLf (line ++ e.text ++ rest) = line ++ '\n' :: joinCrLf rest := by
  induction line with
  | nil =>
    cases e with
    | lf => exact joinCrLf_cons (by simp)
    | crLf => rfl
  | cons c line ih =>
    have hc := h c List.mem_cons_self
    rw [List.cons_append, List.cons_append, joinCrLf_cons fun hcr => absurd hcr hc.1,
      ih fun d hd => h d (List.mem_cons_of_mem c hd)]
    rfl

theorem joinCrLf_frame (frame : Frame) (rest : List Char) :
    joinCrLf (frame.text ++ rest) = frame.chunk ++ '\n' :: '\n' :: joinCrLf rest := by
  have hlast := joinCrLf_line (show SingleLine [] by simp [SingleLine]) frame.frameEnd rest
  have hdata :=
    joinCrLf_line (singleLine_dataLine frame) frame.dataEnd (frame.frameEnd.text ++ rest)
  have hevent := joinCrLf_line (singleLine_eventLine frame) frame.eventEnd
    (frame.dataLine ++ frame.dataEnd.text ++ (frame.frameEnd.text ++ rest))
  rw [List.nil_append, List.nil_append] at hlast
  rw [hdata, hlast] at hevent
  simpa only [Frame.text, Frame.chunk, List.append_assoc, List.cons_append] using hevent

theorem isChain_of_singleLine {line : List Char} (h : SingleLine line) :
    line.IsChain (Apart '\n') := by
  refine List.Pairwise.isChain (List.pairwise_of_forall_mem_list fun c hc d _ hpair => ?_)
  exact (h c hc).2 hpair.1

theorem isChain_chunk (frame : Frame) : (frame.chunk ++ ['\n']).IsChain (Apart '\n') := by
  have hlast {line : List Char} (h : SingleLine line) :
      (line ++ ['\n']).IsChain (Apart '\n') := by
    refine List.isChain_append.mpr ⟨isChain_of_singleLine h, List.isChain_singleton _, ?_⟩
    rintro c hc d - ⟨rfl, -⟩
    exact (h _ (List.mem_of_getLast? hc)).2 rfl
  have hchunk :
    frame.chunk ++ ['\n'] = (frame.eventLine ++ ['\n']) ++ (frame.dataLine ++ ['\n']) := by
    simp [Frame.chunk]
  rw [hchunk]
  refine List.isChain_append.mpr ⟨hlast (singleLine_eventLine frame),
    hlast (singleLine_dataLine frame), ?_⟩
  rintro c - d hd ⟨-, rfl⟩
  simp [Frame.dataLine, dataField] at hd

theorem splitOn_chunk (frame : Frame) :
    frame.chunk.splitOn '\n' = [frame.eventLine, frame.dataLine] := by
  have hchunk : frame.chunk = ['\n'].intercalate [frame.eventLine, frame.dataLine] := by
    simp [Frame.chunk, List.intercalate]
  rw [hchunk]
  refine List.splitOn_intercalate '\n' (fun line hline hmem => ?_) (List.cons_ne_nil _ _)
  rw [List.mem_cons, List.mem_singleton] at hline
  rcases hline with rfl | rfl
  · exact (singleLine_eventLine frame _ hmem).2 rfl
  · exact (singleLine_dataLine frame _ hmem).2 rfl

theorem trim_name (event : RuntimeEvent) : trim (' ' :: event.name.toList) = event.name.toList := by
  have hnames : ∀ name ∈ eventNames, trim (' ' :: name.toList) = name.toList := by decide
  exact hnames _ (name_mem_eventNames event)

theorem trimStart_payload (frame : Frame) : trimStart (' ' :: frame.payload) = frame.payload := by
  obtain ⟨c, rest, hpayload⟩ := List.exists_cons_of_ne_nil (l := frame.payload)
    (by rintro hnil; simpa [hnil] using frame.payload_object)
  have hbrace := frame.payload_object
  rw [hpayload] at hbrace ⊢
  obtain rfl := Option.some.inj hbrace
  rfl

theorem parseSseChunk_frame {parse : List Char → Option Json} (frame : Frame)
    (hparse : parse frame.payload = some (.obj frame.event.data)) :
    parseSseChunk parse frame.chunk = [frame.event.delivered] := by
  have hevent : SseLines.next ⟨"message".toList, []⟩ frame.eventLine =
      ⟨frame.event.name.toList, []⟩ := by
    rw [← trim_name]
    rfl
  have hdata : SseLines.next ⟨frame.event.name.toList, []⟩ frame.dataLine =
      ⟨frame.event.name.toList, [frame.payload]⟩ := by
    rw [← trimStart_payload frame]
    rfl
  unfold parseSseChunk
  simp only [splitOn_chunk, List.foldl_cons, List.foldl_nil, hevent, hdata, List.cons_ne_nil,
    if_false, List.intercalate_singleton, hparse, String.ofList_toList, toStreamEvent_runtimeEvent]

theorem splitPair_frames (frames : List Frame) :
    splitPair '\n' (joinCrLf (frames.map Frame.text).flatten) = frames.map Frame.chunk ++ [[]] := by
  induction frames with
  | nil => rfl
  | cons frame frames ih =>
    rw [List.map_cons, List.flatten_cons, joinCrLf_frame,
      splitPair_append_pair (isChain_chunk frame), ih]
    rfl

/-- No two CR stand together, and none at the end. -/
def CrApart (text : List Char) : Prop :=
  text.IsChain (Apart '\r') ∧ ∀ c, text.getLast? = some c → c ≠ '\r'

theorem CrApart.append {front back : List Char} (h : CrApart front) (h' : CrApart back) :
    CrApart (front ++ back) := by
  refine ⟨List.isChain_append.mpr ⟨h.1, h'.1, fun c hc d _ hpair => h.2 c hc hpair.1⟩, ?_⟩
  intro c hc
  cases back with
  | nil => exact h.2 c (by simpa using hc)
  | cons d back =>
    rw [List.getLast?_append_cons] at hc
    exact h'.2 c hc

theorem crApart_of_singleLine {line : List Char} (h : SingleLine line) : CrApart line := by
  refine ⟨List.Pairwise.isChain (List.pairwise_of_forall_mem_list fun c hc d _ hpair => ?_), ?_⟩
  · exact (h c hc).1 hpair.1
  · exact fun c hc => (h c (List.mem_of_getLast? hc)).1

theorem crApart_lineEnd (e : LineEnd) : CrApart e.text := by
  cases e <;> simp [CrApart, LineEnd.text, Apart, List.isChain_cons_cons]

theorem crApart_frames (frames : List Frame) : CrApart (frames.map Frame.text).flatten := by
  induction frames with
  | nil => simp [CrApart]
  | cons frame frames ih =>
    rw [List.map_cons, List.flatten_cons]
    have hevent := (crApart_of_singleLine (singleLine_eventLine frame)).append
      (crApart_lineEnd frame.eventEnd)
    have hdata := hevent.append (crApart_of_singleLine (singleLine_dataLine frame))
    exact ((hdata.append (crApart_lineEnd frame.dataEnd)).append
      (crApart_lineEnd frame.frameEnd)).append ih

theorem not_crCrLf_frames (frames : List Frame) :
    ¬ crCrLf <:+: (frames.map Frame.text).flatten := by
  rintro ⟨front, back, hparts⟩
  have hframes := (crApart_frames frames).1
  rw [← hparts] at hframes
  have hchain := hframes.left_of_append.right_of_append
  simp [crCrLf, List.isChain_cons_cons, Apart] at hchain

theorem rejected_iff (reads : List (List UInt8)) :
    (readEventStream decoder parse reads).2 = .rejected incompleteMessage ↔
      ∀ event ∈ (readEventStream decoder parse reads).1, event.isTerminal = false := by
  rw [readEventStream_eq]
  simp only
  split_ifs with hany
  · obtain ⟨event, hmem, hterminal⟩ := List.any_eq_true.mp hany
    refine iff_of_false nofun fun hnone => ?_
    rw [hnone event hmem] at hterminal
    cases hterminal
  · refine iff_of_true rfl fun event hmem => ?_
    by_contra hterminal
    exact hany (List.any_eq_true.mpr ⟨event, hmem, by simpa using hterminal⟩)

/-- The reader parses the chunks of the text normalized once, however it is cut, if and only if
CR CR LF does not occur in the text. Then a stream gives the same events and the same end in all
cuts. It is rejected when no terminal event was delivered, and the events that the backend frames
are all delivered, once and in order. -/
theorem readEventStream_chunking (hdecoder : decoder.Streaming) :
    (∀ text, (∀ texts last, texts.flatten ++ last = text →
      readChunks [] texts last = splitPair '\n' (joinCrLf text)) ↔ ¬ crCrLf <:+: text) ∧
    (∀ reads, ¬ crCrLf <:+: decoder.text reads →
      readEventStream decoder parse reads = readEventStream decoder parse [reads.flatten]) ∧
    (∀ reads, (readEventStream decoder parse reads).2 = .rejected incompleteMessage ↔
      ∀ event ∈ (readEventStream decoder parse reads).1, event.isTerminal = false) ∧
    ∀ (frames : List Frame) (reads : List (List UInt8)),
      decoder.text reads = (frames.map Frame.text).flatten →
      (∀ frame ∈ frames, parse frame.payload = some (.obj frame.event.data)) →
      (readEventStream decoder parse reads).1 = frames.map (·.event.delivered) := by
  refine ⟨readChunks_eq_iff, fun reads hclean => ?_, rejected_iff decoder parse,
    fun frames reads htext hparse => ?_⟩
  · have hone := hdecoder reads
    rw [readEventStream_eq, readEventStream_eq, streamChunks_eq decoder hclean,
      streamChunks_eq decoder (hone ▸ hclean), hone]
  · have hlast : parseSseChunk parse [] = [] := rfl
    have hchunks : (frames.map Frame.chunk).flatMap (parseSseChunk parse) =
        frames.map (·.event.delivered) := by
      rw [List.flatMap_map, List.map_eq_flatMap]
      exact List.flatMap_congr fun frame hmem => parseSseChunk_frame frame (hparse frame hmem)
    rw [readEventStream_eq, streamChunks_eq decoder (htext ▸ not_crCrLf_frames frames), htext,
      splitPair_frames, List.flatMap_append, hchunks, List.flatMap_singleton, hlast,
      List.append_nil]

/-! ### A stream with CR CR LF -/

/-- Decodes ASCII. -/
def asciiDecoder : TextDecoder Unit where
  initial := ()
  decode _ value := (value.map fun b => Char.ofNat b.toNat, ())
  finish _ := []

theorem texts_asciiDecoder (reads : List (List UInt8)) :
    asciiDecoder.texts () reads = (reads.map (·.map fun b => Char.ofNat b.toNat), []) := by
  induction reads with
  | nil => rfl
  | cons value rest ih =>
    have hdecode : asciiDecoder.decode () value = (value.map fun b => Char.ofNat b.toNat, ()) := rfl
    simp only [TextDecoder.texts, hdecode, ih, List.map_cons]

theorem streaming_asciiDecoder : asciiDecoder.Streaming := by
  intro reads
  have hinitial : asciiDecoder.initial = () := rfl
  simp [TextDecoder.text, hinitial, texts_asciiDecoder, List.map_flatten]

def bytes (text : String) : List UInt8 := text.toList.map fun c => UInt8.ofNat c.toNat

def tokenPayload : String := "\x7b\"text\":\"a\"\x7d"

def donePayload : String := "\x7b\"conversation_id\":\"c\"\x7d"

/-- `JSON.parse` on the two payloads; two values in a row are no JSON text. -/
def sampleParse (text : List Char) : Option Json :=
  if text = tokenPayload.toList then some (.obj [("text", .str "a")])
  else if text = donePayload.toList then some (.obj [("conversation_id", .str "c")])
  else none

def sampleFront : List UInt8 := bytes ("event: token\ndata: " ++ tokenPayload ++ "\n\r\r\n")

def sampleBack : List UInt8 := bytes ("event: done\ndata: " ++ donePayload ++ "\n\n")

/-- The first event alone, with its blank line cut in the middle. -/
theorem readEventStream_chunking_sample :
    readEventStream asciiDecoder sampleParse
      [sampleFront.dropLast.dropLast.dropLast, bytes "\r\n"] =
      readEventStream asciiDecoder sampleParse
        [[sampleFront.dropLast.dropLast.dropLast, bytes "\r\n"].flatten] :=
  (readEventStream_chunking asciiDecoder sampleParse streaming_asciiDecoder).2.1 _ (by decide)

/-- In two reads both events arrive; in one read none does, and the stream is rejected. -/
theorem readEventStream_crCrLf :
    ((readEventStream asciiDecoder sampleParse [sampleFront, sampleBack]).1.length = 2 ∧
      (readEventStream asciiDecoder sampleParse [sampleFront, sampleBack]).2 = .resolved) ∧
    (readEventStream asciiDecoder sampleParse [sampleFront ++ sampleBack]).1.length = 0 ∧
    (readEventStream asciiDecoder sampleParse [sampleFront ++ sampleBack]).2 =
      .rejected incompleteMessage := by
  decide

end AgentDemo.Frontend
