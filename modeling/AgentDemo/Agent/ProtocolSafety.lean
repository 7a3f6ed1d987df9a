import AgentDemo.Agent.QuotedProtocol
import AgentDemo.System.Approvals

/-! Which answers come out of the sanitizer without raw tool protocol. -/
namespace AgentDemo
open Scanning

/-- The text that is returned is free of tool protocol, and sanitizing it again changes nothing. -/
def SafelySanitized (reader : PolicyReader) (answer : String) (state : AgentGraphState) : Prop :=
  ∀ text, sanitizeModelAnswer reader answer state = some text →
    ProtocolFree reader text ∧ sanitizeModelAnswer reader text state = some text

/-- An answer with a mark on what is taken out of it: its matches of the pattern, and the lines, of
what these leave, that have a marker. -/
def takenOut (reader : PolicyReader) (answer : List Char) : List (Char × Bool) :=
  overlay (maskMatches (rawToolProtocol reader.cases.isWord) 0 answer)
    (maskLines isLineBreak (fun a b => a = '\r' && b = '\n') (containsRawToolProtocol reader)
      (removeMatches (rawToolProtocol reader.cases.isWord) 0 answer))

/-- More than white space stands outside the parts that are taken out. -/
def LeavesText (reader : PolicyReader) (answer : String) : Prop :=
  ∃ c ∈ kept (takenOut reader answer.toList), isSpace c = false

/-- The text can go on to a text at whose head a tag opens. -/
def BeginsTag (reader : PolicyReader) (text : List Char) : Prop :=
  ∃ more, (rawToolProtocol reader.cases.isWord (text ++ more)).isSome = true

/-- A part is taken out from behind the beginning of a tag, and the next character that stays goes
on with the tag. -/
def JoinsTag (reader : PolicyReader) (answer : String) : Prop :=
  ∃ front tag c back next behind, tag ≠ [] ∧
    takenOut reader answer.toList = front ++ (tag.map fun a => (a, false)) ++ (c, true) :: back ∧
    kept back = next :: behind ∧ BeginsTag reader (tag ++ [next])

/-! What stays of an answer. -/

section kept

variable (reader : PolicyReader)

theorem isSpace_of_isLineBreak (c : Char) (h : isLineBreak c = true) : isSpace c = true := by
  simp only [isLineBreak, isSpace, Bool.or_eq_true, Bool.and_eq_true, decide_eq_true_eq] at h ⊢
  omega

theorem isSpace_of_crlf (a b : Char) (h : (a = '\r' && b = '\n') = true) :
    isSpace a = true ∧ isSpace b = true := by
  simp only [Bool.and_eq_true, decide_eq_true_eq] at h
  obtain ⟨rfl, rfl⟩ := h
  exact ⟨by decide, by decide⟩

theorem map_fst_maskLines_takenOut (answer : List Char) :
    (maskLines isLineBreak (fun a b => a = '\r' && b = '\n') (containsRawToolProtocol reader)
      (removeMatches (rawToolProtocol reader.cases.isWord) 0 answer)).map Prod.fst =
    kept (maskMatches (rawToolProtocol reader.cases.isWord) 0 answer) := by
  rw [map_fst_maskLines, kept_maskMatches]

/-- The parts of an answer are the answer. -/
theorem map_fst_takenOut (answer : List Char) : (takenOut reader answer).map Prod.fst = answer := by
  unfold takenOut
  rw [map_fst_overlay (map_fst_maskLines_takenOut reader answer), map_fst_maskMatches]

theorem kept_takenOut (answer : List Char) : kept (takenOut reader answer) =
    ((splitEnds isLineBreak (fun a b => a = '\r' && b = '\n')
      (removeMatches (rawToolProtocol reader.cases.isWord) 0 answer)).filter
        fun line => !containsRawToolProtocol reader line.1).flatMap
      fun line => line.1 ++ line.2 := by
  unfold takenOut
  rw [kept_overlay (map_fst_maskLines_takenOut reader answer), kept_maskLines]

theorem cleanedLines_flatMap (answer : List Char) :
    ((cleanedLines reader answer).flatMap fun line => line ++ ['\n']) =
      ((splitEnds isLineBreak (fun a b => a = '\r' && b = '\n')
        (removeMatches (rawToolProtocol reader.cases.isWord) 0 answer)).filter
          fun line => !containsRawToolProtocol reader line.1).flatMap
        fun line => line.1 ++ ['\n'] := by
  unfold cleanedLines splitLines
  rw [List.filter_map, List.flatMap_map]
  rfl

theorem not_leavesText_iff (answer : String) : ¬ LeavesText reader answer ↔
    ∀ c ∈ (cleanedLines reader answer.toList).flatMap fun line => line ++ ['\n'],
      isSpace c = true := by
  have hlines :=
    space_lines isSpace_of_isLineBreak isSpace_of_crlf (by decide : isSpace '\n' = true)
    (fun line => !containsRawToolProtocol reader line)
    (removeMatches (rawToolProtocol reader.cases.isWord) 0 answer.toList)
  rw [cleanedLines_flatMap, ← hlines, ← kept_takenOut, LeavesText]
  simp

/-- What is found between newlines is found between the line ends of the answer. -/
theorem finds_takenOut {answer : List Char}
    (h : (rawToolProtocol reader.cases.isWord).finds
      ((cleanedLines reader answer).flatMap fun line => line ++ ['\n']) = true) :
    (rawToolProtocol reader.cases.isWord).finds (kept (takenOut reader answer)) = true := by
  have hreflow := reflow_lines isSpace_of_isLineBreak isSpace_of_crlf
    (by decide : isSpace '\n' = true) (fun line => !containsRawToolProtocol reader line)
    (removeMatches (rawToolProtocol reader.cases.isWord) 0 answer)
  rw [← kept_takenOut, ← cleanedLines_flatMap] at hreflow
  obtain ⟨text, hsuffix, hsome⟩ := Scanner.finds_eq_true.mp h
  cases text with
  | nil => cases hsome
  | cons c text =>
    have hspace : isSpace c = false := by
      rw [eq_lt_of_isSome hsome]
      decide
    obtain ⟨behind, hbehind, hrest⟩ := hreflow.suffix hspace hsuffix
    exact Scanner.finds_eq_true.mpr
      ⟨c :: behind, hbehind, isSome_of_reflow reader.cases (.keep c hrest) hsome⟩

/-- No tag opens at a character that stays, read in the answer. -/
theorem rawToolProtocol_takenOut {answer : List Char} {c : Char} {rest : List (Char × Bool)}
    (h : (c, false) :: rest <:+ takenOut reader answer) :
    rawToolProtocol reader.cases.isWord (c :: rest.map Prod.fst) = none := by
  obtain ⟨behind, hbehind, hfst⟩ :=
    suffix_of_suffix_overlay (map_fst_maskLines_takenOut reader answer) h
  rw [← hfst]
  exact scan_of_suffix_maskMatches hbehind

/-- A tag that opens in what stays of an answer goes across a part that is taken out. -/
theorem joinsTag_of_finds {answer : String}
    (h :
      (rawToolProtocol reader.cases.isWord).finds (kept (takenOut reader answer.toList)) = true) :
    JoinsTag reader answer := by
  obtain ⟨text, hsuffix, hsome⟩ := Scanner.finds_eq_true.mp h
  cases text with
  | nil => cases hsome
  | cons c text =>
    obtain ⟨rest, hrest, rfl⟩ := suffix_of_suffix_kept hsuffix
    have hnone := rawToolProtocol_takenOut reader hrest
    have hlonger {short : List Char} (hshort : c :: short <+: c :: rest.map Prod.fst)
        (hsome : (rawToolProtocol reader.cases.isWord (c :: short)).isSome = true) : False := by
      have hall := isSome_of_reflow reader.cases (.of_isPrefix hshort) hsome
      rw [hnone] at hall
      cases hall
    obtain ⟨run, rfl | ⟨d, back, rfl⟩⟩ := eq_map_false_append rest
    · refine (hlonger ?_ hsome).elim
      simp [Function.comp_def]
    · cases hback : kept back with
      | nil =>
        refine (hlonger ?_ hsome).elim
        simp [hback, Function.comp_def]
      | cons next behind =>
        obtain ⟨front, hfront⟩ := hrest
        refine ⟨front, c :: run, d, back, next, behind, by simp, ?_, hback, behind, ?_⟩
        · simp [← hfront]
        · simpa [hback] using hsome

/-! Stripping. -/

theorem stripList_append_space {c : Char} (h : isSpace c = true) (text : List Char) :
    stripList (text ++ [c]) = stripList text := by
  unfold stripList
  rw [List.dropWhile_append]
  split_ifs with hempty
  · have hnil := List.isEmpty_iff.mp hempty
    simp [h, hnil]
  · simp [h]

theorem stripList_intercalate (lines : List (List Char)) :
    stripList (['\n'].intercalate lines) =
      stripList (lines.flatMap fun line => line ++ ['\n']) := by
  have hends (line : List Char) (lines : List (List Char)) :
      (line :: lines).flatMap (fun line => line ++ ['\n']) =
        ['\n'].intercalate (line :: lines) ++ ['\n'] := by
    induction lines generalizing line with
    | nil => simp
    | cons next lines ih =>
      rw [List.flatMap_cons, ih next]
      simp [List.intercalate]
  cases lines with
  | nil => rfl
  | cons line lines =>
    rw [hends, stripList_append_space (by decide)]

/-- A text is white space, its stripped text and white space. -/
theorem eq_append_stripList (text : List Char) :
    ∃ front back, text = front ++ stripList text ++ back ∧
    (∀ c ∈ front, isSpace c = true) ∧ ∀ c ∈ back, isSpace c = true := by
  refine ⟨text.takeWhile isSpace,
    ((text.dropWhile isSpace).reverse.takeWhile isSpace).reverse, ?_, ?_, ?_⟩
  · have hback :=
      List.takeWhile_append_dropWhile (p := isSpace) (l := (text.dropWhile isSpace).reverse)
    have hback := congrArg List.reverse hback
    rw [List.reverse_append, List.reverse_reverse] at hback
    rw [List.append_assoc, stripList, hback, List.takeWhile_append_dropWhile]
  · intro c hc
    exact List.mem_takeWhile_imp hc
  · intro c hc
    exact List.mem_takeWhile_imp (List.mem_reverse.mp hc)

/-- White space around a text makes no difference to the search. -/
theorem finds_of_finds {front middle back : List Char} (hfront : ∀ c ∈ front, isSpace c = true)
    (hback : ∀ c ∈ back, isSpace c = true)
    (h : (rawToolProtocol reader.cases.isWord).finds (front ++ (middle ++ back)) = true)
    (front' back' : List Char) :
    (rawToolProtocol reader.cases.isWord).finds (front' ++ (middle ++ back')) = true := by
  obtain ⟨text, ⟨before, htext⟩, hsome⟩ := Scanner.finds_eq_true.mp h
  obtain ⟨tail, rfl⟩ : ∃ tail, text = '<' :: tail := by
    cases text with
    | nil => cases hsome
    | cons c tail => exact ⟨tail, by rw [eq_lt_of_isSome hsome]⟩
  have hbracket : isSpace '<' = false := by decide
  have hmiddle : ∃ skipped rest, middle = skipped ++ rest ∧ '<' :: tail = rest ++ back := by
    rcases List.append_eq_append_iff.mp htext with ⟨rest, rfl, hrest⟩ | ⟨rest, rfl, hrest⟩
    · cases rest with
      | nil => exact ⟨[], middle, rfl, hrest⟩
      | cons c rest =>
        obtain ⟨rfl, -⟩ := List.cons.inj hrest
        have hspace := hfront '<' (by simp)
        rw [hbracket] at hspace
        cases hspace
    · rcases List.append_eq_append_iff.mp hrest with ⟨skipped, rfl, hback'⟩ | ⟨skipped, rfl, hrest'⟩
      · have hspace := hback '<' (by rw [hback']; simp)
        rw [hbracket] at hspace
        cases hspace
      · exact ⟨rest, skipped, rfl, hrest'⟩
  obtain ⟨skipped, rest, rfl, htail⟩ := hmiddle
  rw [htail] at hsome
  have hrest := isSome_of_reflow reader.cases (.append_space rest hback) hsome
  have hback' := isSome_of_reflow reader.cases (.of_isPrefix (List.prefix_append rest back')) hrest
  refine Scanner.finds_eq_true.mpr ⟨rest ++ back', ⟨front' ++ skipped, by simp⟩, hback'⟩

theorem stripList_eq_nil_iff {text : List Char} :
    stripList text = [] ↔ ∀ c ∈ text, isSpace c = true := by
  constructor
  · intro hnil c hc
    obtain ⟨front, back, htext, hfront, hback⟩ := eq_append_stripList text
    rw [htext, hnil, List.append_nil] at hc
    rcases List.mem_append.mp hc with hc | hc
    · exact hfront c hc
    · exact hback c hc
  · intro hspace
    have hnil : text.dropWhile isSpace = [] := List.dropWhile_eq_nil_iff.mpr hspace
    simp [stripList, hnil]

/-- Stripping a text, with or without a newline behind it, makes no difference to the search. -/
theorem finds_stripList {last : List Char} (hlast : ∀ c ∈ last, isSpace c = true)
    (text : List Char) :
    (rawToolProtocol reader.cases.isWord).finds (stripList text ++ last) = true ↔
      (rawToolProtocol reader.cases.isWord).finds text = true := by
  obtain ⟨front, back, htext, hfront, hback⟩ := eq_append_stripList text
  constructor
  · intro h
    rw [htext, List.append_assoc]
    exact finds_of_finds reader (by simp : ∀ c ∈ [], isSpace c = true) hlast h front back
  · intro h
    rw [htext, List.append_assoc] at h
    exact finds_of_finds reader hfront hback h [] last

/-- Lines without markers have none together. -/
theorem not_containsRawToolProtocol_lines {lines : List (List Char)}
    (h : ∀ line ∈ lines, containsRawToolProtocol reader line = false) :
    containsRawToolProtocol reader (lines.flatMap fun line => line ++ ['\n']) = false := by
  induction lines with
  | nil => exact not_containsRawToolProtocol_nil reader
  | cons line lines ih =>
    rw [List.flatMap_cons, List.append_assoc, List.singleton_append,
      not_containsRawToolProtocol_separator reader (by decide)]
    exact ⟨h line (by simp), ih fun line hline => h line (by simp [hline])⟩

/-- No marker stands in what is left of an answer. -/
theorem not_containsRawToolProtocol_cleaned (answer : List Char) {last : List Char}
    (hlast : last = [] ∨ last = ['\n']) :
    containsRawToolProtocol reader
      (stripList (['\n'].intercalate (cleanedLines reader answer)) ++ last) = false := by
  have hlines :
    ∀ line ∈ cleanedLines reader answer, containsRawToolProtocol reader line = false := by
    intro line hline
    simpa using (List.mem_filter.mp hline).2
  have hcleaned : containsRawToolProtocol reader
      (stripList (['\n'].intercalate (cleanedLines reader answer))) = false := by
    rw [stripList_intercalate]
    obtain ⟨front, back, htext, -⟩ :=
      eq_append_stripList ((cleanedLines reader answer).flatMap fun line => line ++ ['\n'])
    refine not_containsRawToolProtocol_part reader ⟨front, back, htext.symm⟩ ?_
    exact not_containsRawToolProtocol_lines reader hlines
  rcases hlast with rfl | rfl
  · simpa using hcleaned
  · rw [not_containsRawToolProtocol_separator reader (by decide)]
    exact ⟨hcleaned, not_containsRawToolProtocol_nil reader⟩

theorem protocolFree_blockedAnswer (message : String) :
    ProtocolFree reader (blockedAnswer reader message) := by
  unfold blockedAnswer
  dsimp only
  split_ifs <;> exact protocolFree_of_plain reader (by decide +kernel) (by decide +kernel)

/-- A text without markers comes back as it is. -/
theorem sanitizeModelAnswer_unmarked {answer : String} (state : AgentGraphState)
    (h : containsRawToolProtocol reader answer.toList = false) :
    sanitizeModelAnswer reader answer state = some answer := by
  simp [sanitizeModelAnswer, h]

theorem safelySanitized_iff_of_eq {answer text : String} {state : AgentGraphState}
    (h : sanitizeModelAnswer reader answer state = some text) :
    SafelySanitized reader answer state ↔ ProtocolFree reader text := by
  constructor
  · intro hsafe
    exact (hsafe text h).1
  · rintro hfree text' htext'
    rw [h] at htext'
    cases htext'
    exact ⟨hfree, sanitizeModelAnswer_unmarked reader state hfree.1⟩

end kept

section marked

variable {reader : PolicyReader} {answer : String} {state : AgentGraphState}

/-- Nothing but white space stays: the answer is the fallback. -/
theorem safelySanitized_blank (hmarked : containsRawToolProtocol reader answer.toList = true)
    (hblank : ¬ LeavesText reader answer) :
    SafelySanitized reader answer state ↔
      ∀ name text, fallbackPieces reader state = some (some (name, text)) →
        QuotedFree reader name text := by
  have hnil : stripList (['\n'].intercalate (cleanedLines reader answer.toList)) = [] := by
    rw [stripList_intercalate, stripList_eq_nil_iff, ← not_leavesText_iff]
    exact hblank
  have hrun : sanitizeModelAnswer reader answer state =
      fallbackAnswerAfterProtocolStrip reader state := by
    simp [sanitizeModelAnswer, hmarked, hnil]
  unfold fallbackAnswerAfterProtocolStrip at hrun
  have hanswers := answers_fallback reader state
  revert hanswers hrun
  generalize fallbackPieces reader state = pieces
  generalize successfulToolFallbackAnswer reader state = fallback
  intro hrun hanswers
  cases hanswers with
  | raises =>
    apply iff_of_true
    · intro text htext
      rw [hrun] at htext
      cases htext
    · intro name text h
      cases h
  | skips =>
    apply iff_of_true
    · exact (safelySanitized_iff_of_eq reader hrun).mpr (protocolFree_blockedAnswer reader _)
    · intro name text h
      cases h
  | quotes h =>
    rw [safelySanitized_iff_of_eq reader hrun]
    simp [protocolFree_iff_of_quotes reader h]

/-- Some text stays, and no part is taken out from within a tag. -/
theorem safelySanitized_of_not_joinsTag
    (hmarked : containsRawToolProtocol reader answer.toList = true)
    (htext : LeavesText reader answer) (hjoins : ¬ JoinsTag reader answer) :
    SafelySanitized reader answer state := by
  have hne : stripList (['\n'].intercalate (cleanedLines reader answer.toList)) ≠ [] := by
    rw [stripList_intercalate, Ne, stripList_eq_nil_iff, ← not_leavesText_iff, not_not]
    exact htext
  obtain ⟨last, hlast, hrun⟩ : ∃ last : List Char, (last = [] ∨ last = ['\n']) ∧
      sanitizeModelAnswer reader answer state = some (String.ofList
        (stripList (['\n'].intercalate (cleanedLines reader answer.toList)) ++ last)) := by
    refine ⟨if answer.toList.getLast? = some '\n' then ['\n'] else [], ?_, ?_⟩
    · split_ifs
      · exact Or.inr rfl
      · exact Or.inl rfl
    · simp [sanitizeModelAnswer, hmarked, hne]
  have hspace : ∀ c ∈ last, isSpace c = true := by
    rcases hlast with rfl | rfl
    · exact fun c hc => absurd hc List.not_mem_nil
    · intro c hc
      rw [List.mem_singleton.mp hc]
      decide
  rw [safelySanitized_iff_of_eq reader hrun]
  constructor
  · rw [String.toList_ofList]
    exact not_containsRawToolProtocol_cleaned reader answer.toList hlast
  · by_contra hfinds
    apply hjoins
    apply joinsTag_of_finds
    have hfinds := Bool.eq_true_of_not_eq_false hfinds
    rw [searchRawToolProtocol, String.toList_ofList, stripList_intercalate,
      finds_stripList reader hspace] at hfinds
    exact finds_takenOut reader hfinds

end marked

/-- No tool protocol gets through: without a marker, where the pattern finds nothing; where text
stays, if no part is taken out from within a tag; and where no text stays, if the pieces that are
quoted have none. -/
theorem safelySanitized_cases (reader : PolicyReader) (answer : String) (state : AgentGraphState) :
    (containsRawToolProtocol reader answer.toList = false →
      (SafelySanitized reader answer state ↔ searchRawToolProtocol reader answer = false)) ∧
    (containsRawToolProtocol reader answer.toList = true → LeavesText reader answer →
      ¬ JoinsTag reader answer → SafelySanitized reader answer state) ∧
    (containsRawToolProtocol reader answer.toList = true → ¬ LeavesText reader answer →
      (SafelySanitized reader answer state ↔
        ∀ name text, fallbackPieces reader state = some (some (name, text)) →
          QuotedFree reader name text)) := by
  refine ⟨?_, safelySanitized_of_not_joinsTag, safelySanitized_blank⟩
  intro hunmarked
  rw [safelySanitized_iff_of_eq reader (sanitizeModelAnswer_unmarked reader state hunmarked)]
  exact ⟨fun hfree => hfree.2, fun hnone => ⟨hunmarked, hnone⟩⟩

/-- A tag with a blank behind its bracket has no marker and is returned as it is, and a match that
is taken out from within a bracket and a name leaves a tag. -/
theorem not_safelySanitized :
    ¬ SafelySanitized asciiReader "< tool_calls>list_dir" sampleBlockedState ∧
    ¬ SafelySanitized asciiReader "< <invoke>x</invoke>invoke>y" sampleBlockedState := by
  constructor
  · intro hsafe
    have hfree := (hsafe "< tool_calls>list_dir" (by decide +kernel)).1
    exact absurd hfree.2 (by decide +kernel)
  · intro hsafe
    have hfree := (hsafe "< invoke>y" (by decide +kernel)).1
    exact absurd hfree.2 (by decide +kernel)

end AgentDemo
