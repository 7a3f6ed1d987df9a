import AgentDemo.Agent.RawToolProtocol

/-! The fallback quotes the path of a file or the name of a tool, and a text: when that has
protocol. -/
namespace AgentDemo
open Scanning

def shownContent (reader : PolicyReader) (message content : String) : String :=
  if asksFirstLine reader message then
    (((splitLines content.toList).map stripList).find? (· ≠ [])).elim content String.ofList
  else limitFallbackText content

/-- What the fallback quotes of a call: the path of a file and its text, or the name of the tool and
the text of its output. -/
def quotedPieces (reader : PolicyReader) (message : String) (call : ToolCallRecord) :
    Option (Option (String × String)) :=
  let toolName := orText (some call.toolName) "tool"
  let ofOutput (output : Json) := (selfOutputText reader output).map fun text =>
    if text = "" then none else some (toolName, limitFallbackText text)
  if call.result.status ≠ .success then some none
  else if toolName ≠ "read_file" then ofOutput call.result.output
  else
    match call.result.output with
    | .obj fields =>
      let content := strip (reader.str (JsonObject.getOr fields "content" (.str "")))
      let path := reader.str
        (JsonObject.getOr fields "path" (call.arguments.getOr "path" (.str "file")))
      some (if content = "" then none else some (path, shownContent reader message content))
    | output => ofOutput output

/-- The pieces have no protocol, and the text does not close a tag that the name leaves open. -/
structure QuotedFree (reader : PolicyReader) (name text : String) : Prop where
  nameFree : ProtocolFree reader name
  textFree : ProtocolFree reader text
  unclosed : '>' ∈ text.toList → searchRawToolProtocol reader (name ++ "`>") = false

/-! Tags in an answer that quotes. -/

section tags

open ProtocolTag Scanner

def ProtocolTag.stem (tag : ProtocolTag) : Scanner Char :=
  (letter '<').next ((many isSpace).next tag.name)

theorem ProtocolTag.opening_eq (tag : ProtocolTag) (isWord : Char → Bool) :
    tag.opening isWord = tag.stem.next (tag.openingEnd isWord) := by
  simp only [ProtocolTag.opening, ProtocolTag.stem, Scanner.next_assoc]

theorem stops_letters {word : String} (h : '`' ∉ word.toList) : Stops '`' (letters word) := by
  apply Stops.word
  intro c hc
  apply decide_eq_false
  have hfold : foldCase '`' = '`' := by decide
  rw [hfold]
  rintro rfl
  exact h hc

theorem stops_stem (tag : ProtocolTag) : Stops '`' tag.stem := by
  have hbars : Stops '`' (many isBar) := .many (by decide)
  refine Stops.next (.one (by decide)) (Stops.next (.many (by decide)) ?_)
  cases tag with
  | dsml =>
    exact hbars.next ((stops_letters (by simp)).next
      (hbars.next (stops_letters (by simp))))
  | toolCalls => exact (stops_letters (by simp)).next (.optional (by decide))
  | invoke => exact stops_letters (by simp)

theorem isSome_invokeEnd (isWord : Char → Bool) (text : List Char) :
    (ProtocolTag.openingEnd isWord .invoke text).isSome = true ↔
      text.head?.any isWord = false ∧ '>' ∈ text := by
  have hend : ((many (· ≠ '>')).next (letter '>') text).isSome = true ↔ '>' ∈ text := by
    induction text with
    | nil => simp [Scanner.next, Scanner.many, ProtocolTag.letter, Scanner.one]
    | cons c text ih =>
      by_cases hc : c = '>'
      · simp [Scanner.next, Scanner.many, ProtocolTag.letter, Scanner.one, hc]
      · have hne : ¬ '>' = c := fun h => hc h.symm
        simpa [Scanner.next, Scanner.many, hc, hne] using ih
  change (if text.head?.any isWord = true then none
    else (many (· ≠ '>')).next (letter '>') text).isSome = true ↔ _
  split_ifs with hword
  · simp [hword]
  · rw [hend]
    simp [hword]

/-- A tag that opens in front of a backquote is closed there, or by what stands behind it. -/
theorem isSome_openingEnd_quote (isWord : Char → Bool) (tag : ProtocolTag)
    (front back : List Char) :
    (tag.openingEnd isWord (front ++ '`' :: back)).isSome = true ↔
      (tag.openingEnd isWord front).isSome = true ∨
        '>' ∈ back ∧ (tag.openingEnd isWord (front ++ ['`', '>'])).isSome = true := by
  have hspaces : Stops '`' ((many isSpace).next (letter '>')) :=
    Stops.next (.many (by decide)) (.one (by decide))
  cases tag with
  | dsml => simp [ProtocolTag.openingEnd, hspaces front back, hspaces front ['>']]
  | toolCalls => simp [ProtocolTag.openingEnd, hspaces front back, hspaces front ['>']]
  | invoke =>
    simp only [isSome_invokeEnd]
    cases front with
    | nil => simp [and_comm]
    | cons c front =>
      simp
      tauto

theorem isSome_rawToolProtocol_quote (isWord : Char → Bool) (front back : List Char) :
    (rawToolProtocol isWord (front ++ '`' :: back)).isSome = true ↔
      (rawToolProtocol isWord front).isSome = true ∨
        '>' ∈ back ∧ (rawToolProtocol isWord (front ++ ['`', '>'])).isSome = true := by
  have htag (tag : ProtocolTag) : (tag.opening isWord (front ++ '`' :: back)).isSome = true ↔
      (tag.opening isWord front).isSome = true ∨
        '>' ∈ back ∧ (tag.opening isWord (front ++ ['`', '>'])).isSome = true := by
    simp only [tag.opening_eq, Scanner.next, stops_stem tag front back, stops_stem tag front ['>']]
    cases tag.stem front with
    | none => simp
    | some rest => exact isSome_openingEnd_quote isWord tag rest back
  simp only [isSome_rawToolProtocol, htag, exists_or]
  simp

/-- A match in a text with a backquote in it. -/
theorem finds_quote (isWord : Char → Bool) (front back : List Char) :
    (rawToolProtocol isWord).finds (front ++ '`' :: back) = true ↔
      (rawToolProtocol isWord).finds front = true ∨ (rawToolProtocol isWord).finds back = true ∨
        '>' ∈ back ∧ (rawToolProtocol isWord).finds (front ++ ['`', '>']) = true := by
  have hnil (back : List Char) : (rawToolProtocol isWord ('`' :: back)).isSome = false := by
    by_contra h
    cases eq_lt_of_isSome (Bool.eq_true_of_not_eq_false h)
  induction front with
  | nil =>
    simp [Scanner.finds_cons _ '`', hnil, finds_plain isWord (by decide : '<' ∉ ['>']),
      finds_plain isWord (by decide : '<' ∉ [])]
  | cons c front ih =>
    have hhead := isSome_rawToolProtocol_quote isWord (c :: front) back
    simp only [List.cons_append] at hhead ⊢
    simp only [Scanner.finds_cons _ c, Bool.or_eq_true, ih, hhead]
    tauto

end tags

/-! The answers of the fallback. -/

def Quotes (answer name text : String) : Prop :=
  ∃ (opening label : List Char) (separator : Char) (gap : List Char),
    answer.toList = opening ++ '`' ::
      (name.toList ++ '`' :: (label ++ separator :: (gap ++ text.toList))) ∧
    (∀ c ∈ opening ++ (label ++ separator :: gap), c ≠ '<' ∧ c ≠ '>' ∧ c ≠ '=') ∧
    separator ∈ markerSeparators ∧ (gap = [] ∨ gap = [' '])

theorem protocolFree_iff_of_quotes (reader : PolicyReader) {answer name text : String}
    (h : Quotes answer name text) : ProtocolFree reader answer ↔ QuotedFree reader name text := by
  obtain ⟨opening, label, separator, gap, hanswer, hplain, hseparator, hgap⟩ := h
  have hopening : ∀ c ∈ opening, c ≠ '<' ∧ c ≠ '>' ∧ c ≠ '=' := fun c hc =>
    hplain c (List.mem_append_left _ hc)
  have hlabel : ∀ c ∈ label ++ separator :: gap, c ≠ '<' ∧ c ≠ '>' ∧ c ≠ '=' := fun c hc =>
    hplain c (List.mem_append_right _ hc)
  have hquote : '`' ∈ markerSeparators := by decide
  have hmarkers : containsRawToolProtocol reader answer.toList = false ↔
      containsRawToolProtocol reader name.toList = false ∧
        containsRawToolProtocol reader text.toList = false := by
    have hgap : containsRawToolProtocol reader (gap ++ text.toList) = false ↔
        containsRawToolProtocol reader text.toList = false := by
      rcases hgap with rfl | rfl
      · rfl
      · exact ⟨not_containsRawToolProtocol_part reader (List.suffix_cons _ _).isInfix,
          not_containsRawToolProtocol_blank reader⟩
    have hfirst := not_containsRawToolProtocol_of_plain reader (fun h => (hopening _ h).1 rfl)
      (fun h => (hopening _ h).2.2 rfl)
    have hsecond : containsRawToolProtocol reader label = false :=
      not_containsRawToolProtocol_of_plain reader (fun h => (hlabel _ (by simp [h])).1 rfl)
        (fun h => (hlabel _ (by simp [h])).2.2 rfl)
    rw [hanswer, not_containsRawToolProtocol_separator reader hquote,
      not_containsRawToolProtocol_separator reader hquote,
      not_containsRawToolProtocol_separator reader hseparator, hgap]
    simp [hfirst, hsecond]
  have hsearch : searchRawToolProtocol reader answer = true ↔
      searchRawToolProtocol reader name = true ∨ searchRawToolProtocol reader text = true ∨
        '>' ∈ text.toList ∧ searchRawToolProtocol reader (name ++ "`>") = true := by
    have hbracket : '<' ∉ opening ++ ['`', '>'] := by
      simpa using fun h => (hopening _ h).1 rfl
    have hclosing : '>' ∈ label ++ separator :: (gap ++ text.toList) ↔ '>' ∈ text.toList := by
      have hnone : '>' ∉ label ++ separator :: gap := fun h => (hlabel _ h).2.1 rfl
      rw [← List.cons_append, ← List.append_assoc, List.mem_append]
      simp only [hnone, false_or]
    have htext := finds_append_plain reader.cases.isWord (fun h => (hlabel _ h).1 rfl) text.toList
    rw [List.append_assoc, List.cons_append] at htext
    have hfirst := finds_plain reader.cases.isWord (fun h => (hopening _ h).1 rfl)
    unfold searchRawToolProtocol
    rw [hanswer, finds_quote, finds_quote, hclosing, htext, hfirst, finds_plain _ hbracket]
    simp
  unfold ProtocolFree
  rw [hmarkers, ← Bool.not_eq_true (searchRawToolProtocol reader answer), hsearch]
  constructor
  · rintro ⟨⟨hname, htext⟩, hnone⟩
    simp only [not_or, not_and, Bool.not_eq_true] at hnone
    exact ⟨⟨hname, hnone.1⟩, ⟨htext, hnone.2.1⟩, hnone.2.2⟩
  · rintro ⟨⟨hname, hname'⟩, ⟨htext, htext'⟩, hunclosed⟩
    refine ⟨⟨hname, htext⟩, ?_⟩
    simp only [not_or, not_and, Bool.not_eq_true]
    exact ⟨hname', htext', hunclosed⟩

theorem quotes_readFileAnswer (reader : PolicyReader) (message path content : String) :
    Quotes (readFileAnswer reader message path content) path
      (shownContent reader message content) := by
  unfold readFileAnswer shownContent
  split_ifs
  · exact ⟨"文件 ".toList, " 的第一行是".toList, '：', [], by simp, by simp,
      by decide, Or.inl rfl⟩
  · exact ⟨"The first line of ".toList, " is".toList, ':', [' '], by simp, by simp,
      by decide, Or.inr rfl⟩
  · exact ⟨"已成功读取文件 ".toList, "。可用内容如下：\n".toList, '\n', [], by simp, by simp,
      by decide, Or.inl rfl⟩
  · exact ⟨"The file ".toList, " was read successfully. Available content:\n".toList, '\n', [],
      by simp, by simp, by decide, Or.inl rfl⟩

/-- The fallback has an answer where it has pieces to quote. -/
inductive Answers : Option (Option (String × String)) → Option (Option String) → Prop where
  | raises : Answers none none
  | skips : Answers (some none) (some none)
  | quotes {answer name text : String} (h : Quotes answer name text) :
      Answers (some (some (name, text))) (some (some answer))

theorem answers_outputAnswer (reader : PolicyReader) (message toolName : String) (output : Json) :
    Answers ((selfOutputText reader output).map fun text =>
        if text = "" then none else some (toolName, limitFallbackText text))
      (outputAnswer reader message toolName output) := by
  unfold outputAnswer
  cases selfOutputText reader output with
  | none => exact .raises
  | some text =>
    dsimp only [Option.map_some]
    split_ifs
    · exact .skips
    · exact .quotes ⟨"工具 ".toList, " 已成功执行。可用结果如下：\n".toList, '\n', [], by simp,
        by simp, by decide, Or.inl rfl⟩
    · exact .quotes ⟨"Tool ".toList, " completed successfully. Available result:\n".toList, '\n',
        [], by simp, by simp, by decide, Or.inl rfl⟩

theorem answers_toolCallAnswer (reader : PolicyReader) (message : String) (call : ToolCallRecord) :
    Answers (quotedPieces reader message call) (toolCallAnswer reader message call) := by
  unfold quotedPieces toolCallAnswer
  dsimp only
  split_ifs
  · exact .skips
  · exact answers_outputAnswer reader message _ _
  · cases call.result.output with
    | obj fields =>
      dsimp only
      split_ifs
      · exact .skips
      · exact .quotes (quotes_readFileAnswer reader message _ _)
    | _ => exact answers_outputAnswer reader message _ _

/-- The pieces that the fallback quotes for the recorded calls; the outer `none` is an exception. -/
def fallbackPieces (reader : PolicyReader) (state : AgentGraphState) :
    Option (Option (String × String)) :=
  firstAnswer (quotedPieces reader state.message) state.toolCalls.reverse

theorem answers_fallback (reader : PolicyReader) (state : AgentGraphState) :
    Answers (fallbackPieces reader state) (successfulToolFallbackAnswer reader state) := by
  unfold fallbackPieces successfulToolFallbackAnswer
  induction state.toolCalls.reverse with
  | nil => exact .skips
  | cons call calls ih =>
    unfold firstAnswer
    have hcall := answers_toolCallAnswer reader state.message call
    revert hcall
    generalize quotedPieces reader state.message call = pieces
    generalize toolCallAnswer reader state.message call = answer
    intro hcall
    cases hcall with
    | raises => exact .raises
    | skips => exact ih
    | quotes h => exact .quotes h

end AgentDemo
