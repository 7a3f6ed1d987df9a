import AgentDemo.Mcp.Catalog
import AgentDemo.Services.RetrievalReranker
import Mathlib.Data.List.Chain
import Mathlib.Data.List.DropRight

/-! `safe_mcp_tool_description`: a remote description is cut in front of the first sentence that
instructs the model. -/
namespace AgentDemo

def mcpDescriptionInstructionMarkers : List String :=
  ["grants you", "ignore previous", "ignore prior", "now you can", "originally you",
    "system prompt", "tell the user", "were advised", "you are", "you must", "you should"]

def mcpDescriptionMaxChars : ℕ := 300

def endsSentence (c : Char) : Bool := c = '.' || c = '!' || c = '?'

/-- The full case folding of Unicode, character by character. -/
structure CaseFolding where
  fold : Char → List Char
  fold_ends : ∀ c, endsSentence c = true → fold c = [c]
  fold_space : fold ' ' = [' ']

def CaseFolding.casefold (folding : CaseFolding) (text : List Char) : List Char :=
  text.flatMap folding.fold

/-- Where `re.split` stands: in a separator, or in a sentence, maybe right behind its end. -/
inductive SentencePlace where
  | separator
  | sentence (ended : Bool)

/-- `re.split(r"(?<=[.!?])\s+", text)` from this place on. -/
def splitSentences : SentencePlace → List Char → List (List Char)
  | _, [] => [[]]
  | .separator, c :: rest =>
    if isSpace c then splitSentences .separator rest
    else (splitSentences (.sentence (endsSentence c)) rest).modifyHead (c :: ·)
  | .sentence ended, c :: rest =>
    if ended && isSpace c then [] :: splitSentences .separator rest
    else (splitSentences (.sentence (endsSentence c)) rest).modifyHead (c :: ·)

def hasInstruction (folding : CaseFolding) (sentence : List Char) : Bool :=
  mcpDescriptionInstructionMarkers.any fun marker =>
    decide (marker.toList <:+: folding.casefold sentence)

def descriptionFallback (serverName toolName : String) : String :=
  "MCP tool " ++ toolName ++ " from " ++ serverName ++ "."

/-- `" ".join(text.split())` -/
def normalizeSpaces (text : String) : List Char := [' '].intercalate (splitWords text.toList)

def safeSentences (folding : CaseFolding) (normalized : List Char) : List (List Char) :=
  (splitSentences (.sentence false) normalized).takeWhile fun s => !hasInstruction folding s

def safeMcpToolDescription (folding : CaseFolding) (r : CatalogReader)
    (serverName toolName : String) (value : PyJson) : String :=
  let normalized := normalizeSpaces (r.str (value.or (.str "")))
  if normalized.isEmpty then descriptionFallback serverName toolName
  else
    let description := stripList ([' '].intercalate (safeSentences folding normalized))
    if description.isEmpty then descriptionFallback serverName toolName
    else String.ofList ((description.take mcpDescriptionMaxChars).rdropWhile isSpace)

/-! Joining what has been split. -/

structure SingleSpaced (text : List Char) : Prop where
  blank : ∀ c ∈ text, isSpace c = true → c = ' '
  single : text.IsChain fun a b => isSpace a = true → isSpace b = false

theorem SingleSpaced.tail {c : Char} {rest : List Char} (h : SingleSpaced (c :: rest)) :
    SingleSpaced rest where
  blank d hd := h.blank d (List.mem_cons_of_mem c hd)
  single := h.single.tail

theorem splitSentences_ne_nil (place : SentencePlace) (text : List Char) :
    splitSentences place text ≠ [] := by
  induction text generalizing place with
  | nil => cases place <;> exact List.cons_ne_nil _ _
  | cons c rest ih =>
    cases place with
    | separator =>
      rw [splitSentences]
      split_ifs
      · exact ih _
      · simpa using ih _
    | sentence ended =>
      rw [splitSentences]
      split_ifs
      · exact List.cons_ne_nil _ _
      · simpa using ih _

theorem intercalate_modifyHead {sep : List Char} {c : Char} {sentences : List (List Char)}
    (h : sentences ≠ []) :
    sep.intercalate (sentences.modifyHead (c :: ·)) = c :: sep.intercalate sentences := by
  obtain ⟨s, rest, rfl⟩ := List.exists_cons_of_ne_nil h
  cases rest with
  | nil => simp
  | cons s' rest => simp

theorem join_splitSentences {place : SentencePlace} {text : List Char} (h : SingleSpaced text)
    (hplace : place = .separator → ∀ c, text.head? = some c → isSpace c = false) :
    [' '].intercalate (splitSentences place text) = text := by
  induction text generalizing place with
  | nil => cases place <;> rfl
  | cons c rest ih =>
    have hinside : ∀ ended, [' '].intercalate (splitSentences (.sentence ended) rest) = rest :=
      fun ended => ih h.tail (fun heq => by cases heq)
    cases place with
    | separator =>
      rw [splitSentences, if_neg (by simp [hplace rfl c rfl]),
        intercalate_modifyHead (splitSentences_ne_nil _ _), hinside]
    | sentence ended =>
      rw [splitSentences]
      split_ifs with hbreak
      · obtain ⟨-, hspace⟩ := Bool.and_eq_true_iff.mp hbreak
        obtain rfl := h.blank c List.mem_cons_self hspace
        have hrest : [' '].intercalate (splitSentences .separator rest) = rest :=
          ih h.tail fun _ d hd => (List.isChain_cons.mp h.single).1 d hd hspace
        rw [List.intercalate_cons_of_ne_nil (splitSentences_ne_nil _ _), hrest]
        rfl
      · rw [intercalate_modifyHead (splitSentences_ne_nil _ _), hinside]

def EndsSentence (sentence : List Char) : Prop :=
  ∃ front c, sentence = front ++ [c] ∧ endsSentence c = true

theorem splitSentences_ends (place : SentencePlace) (text : List Char) :
    ∃ first rest, splitSentences place text = first :: rest ∧
      (rest ≠ [] → EndsSentence first ∨ first = [] ∧ place = .sentence true) ∧
      (rest.IsChain fun s _ => EndsSentence s) := by
  induction text generalizing place with
  | nil => cases place <;> exact ⟨[], [], rfl, by simp, List.isChain_nil⟩
  | cons c text ih =>
    have hinside : ∃ first rest,
        (splitSentences (.sentence (endsSentence c)) text).modifyHead (c :: ·) = first :: rest ∧
          (rest ≠ [] → EndsSentence first) ∧ (rest.IsChain fun s _ => EndsSentence s) := by
      obtain ⟨first, rest, heq, hfirst, hrest⟩ := ih (.sentence (endsSentence c))
      refine ⟨c :: first, rest, by rw [heq, List.modifyHead_cons], fun hne => ?_, hrest⟩
      rcases hfirst hne with ⟨front, d, rfl, hd⟩ | ⟨rfl, hplace⟩
      · exact ⟨c :: front, d, rfl, hd⟩
      · exact ⟨[], c, rfl, by injection hplace⟩
    have hbehind : (splitSentences .separator text).IsChain fun s _ => EndsSentence s := by
      obtain ⟨first, rest, heq, hfirst, hrest⟩ := ih .separator
      rw [heq, List.isChain_cons]
      refine ⟨fun s hs => ?_, hrest⟩
      rcases hfirst (by rintro rfl; simp at hs) with hends | ⟨-, hplace⟩
      · exact hends
      · cases hplace
    cases place with
    | separator =>
      rw [splitSentences]
      split_ifs
      · obtain ⟨first, rest, heq, hfirst, hrest⟩ := ih .separator
        refine ⟨first, rest, heq, fun hne => Or.inl ?_, hrest⟩
        rcases hfirst hne with hends | ⟨-, hplace⟩
        · exact hends
        · cases hplace
      · obtain ⟨first, rest, heq, hfirst, hrest⟩ := hinside
        exact ⟨first, rest, heq, fun hne => Or.inl (hfirst hne), hrest⟩
    | sentence ended =>
      rw [splitSentences]
      split_ifs with hbreak
      · obtain ⟨rfl, -⟩ := Bool.and_eq_true_iff.mp hbreak
        exact ⟨[], _, rfl, fun _ => Or.inr ⟨rfl, rfl⟩, hbehind⟩
      · obtain ⟨first, rest, heq, hfirst, hrest⟩ := hinside
        exact ⟨first, rest, heq, fun hne => Or.inl (hfirst hne), hrest⟩

/-- All sentences but the last end where they are split. -/
theorem isChain_splitSentences (text : List Char) :
    (splitSentences (.sentence false) text).IsChain fun s _ => EndsSentence s := by
  obtain ⟨first, rest, heq, hfirst, hrest⟩ := splitSentences_ends (.sentence false) text
  rw [heq, List.isChain_cons]
  refine ⟨fun s hs => ?_, hrest⟩
  rcases hfirst (by rintro rfl; simp at hs) with hends | ⟨-, hplace⟩
  · exact hends
  · cases hplace

theorem prefix_intercalate {sep : List Char} {front sentences : List (List Char)}
    (h : front <+: sentences) : sep.intercalate front <+: sep.intercalate sentences := by
  obtain ⟨back, rfl⟩ := h
  induction front with
  | nil => exact List.nil_prefix
  | cons s front ih =>
    cases front with
    | nil =>
      cases back with
      | nil => exact List.prefix_rfl
      | cons s' back =>
        rw [List.intercalate_singleton, List.singleton_append, List.intercalate_cons_cons,
          List.append_assoc]
        exact List.prefix_append _ _
    | cons s' front =>
      rw [List.cons_append, List.cons_append, List.intercalate_cons_cons,
        List.intercalate_cons_cons]
      exact (List.prefix_append_right_inj _).mpr ih

theorem not_mem_of_mem_splitOnP {p : Char → Bool} {text word : List Char}
    (h : word ∈ text.splitOnP p) : ∀ c ∈ word, p c = false := by
  induction text generalizing word with
  | nil =>
    obtain rfl : word = [] := by simpa using h
    simp
  | cons c rest ih =>
    rw [List.splitOnP_cons_eq_if_modifyHead] at h
    split_ifs at h with hc
    · rcases List.mem_cons.mp h with rfl | h
      · simp
      · exact ih h
    · obtain ⟨first, words, hfirst⟩ := List.exists_cons_of_ne_nil (List.splitOnP_ne_nil p rest)
      rw [hfirst, List.modifyHead_cons] at h
      rcases List.mem_cons.mp h with rfl | h
      · intro d hd
        rcases List.mem_cons.mp hd with rfl | hd
        · simpa using hc
        · exact ih (hfirst ▸ List.mem_cons_self) d hd
      · exact ih (hfirst ▸ List.mem_cons_of_mem _ h)

theorem mem_splitWords {text word : List Char} (h : word ∈ splitWords text) :
    word ≠ [] ∧ ∀ c ∈ word, isSpace c = false := by
  obtain ⟨hword, hne⟩ := List.mem_filter.mp h
  exact ⟨by simpa using hne, not_mem_of_mem_splitOnP hword⟩

/-- Words joined by blanks. -/
theorem singleSpaced_intercalate {words : List (List Char)}
    (h : ∀ word ∈ words, word ≠ [] ∧ ∀ c ∈ word, isSpace c = false) :
    SingleSpaced ([' '].intercalate words) ∧
      ∀ c, ([' '].intercalate words).head? = some c → isSpace c = false := by
  induction words with
  | nil => exact ⟨⟨by simp, List.isChain_nil⟩, by simp⟩
  | cons word words ih =>
    obtain ⟨hne, hword⟩ := h word List.mem_cons_self
    obtain ⟨hrest, hhead⟩ := ih fun word' hmem => h word' (List.mem_cons_of_mem _ hmem)
    have hchain : word.IsChain fun a b => isSpace a = true → isSpace b = false :=
      List.Pairwise.isChain (List.Pairwise.imp_of_mem (fun _ hb _ _ => hword _ hb)
        (List.pairwise_of_forall fun _ _ => trivial))
    obtain ⟨c, tail, rfl⟩ := List.exists_cons_of_ne_nil hne
    cases words with
    | nil =>
      rw [List.intercalate_singleton]
      refine ⟨⟨fun d hd hspace => ?_, hchain⟩, fun d hd => hword d (List.mem_of_mem_head? hd)⟩
      rw [hword d hd] at hspace
      cases hspace
    | cons word' words =>
      rw [List.intercalate_cons_cons, List.append_assoc]
      refine ⟨⟨fun d hd hspace => ?_, ?_⟩, fun d hd => hword d (List.mem_of_mem_head? hd)⟩
      · rcases List.mem_append.mp hd with hd | hd
        · rw [hword d hd] at hspace
          cases hspace
        · rcases List.mem_cons.mp hd with rfl | hd
          · rfl
          · exact hrest.blank d hd hspace
      · have hbehind := List.isChain_cons.mpr ⟨fun d hd (_ : isSpace ' ' = true) => hhead d hd,
          hrest.single⟩
        refine List.isChain_append.mpr ⟨hchain, hbehind, fun a ha _ _ hspace => ?_⟩
        rw [hword a (List.mem_of_mem_getLast? ha)] at hspace
        cases hspace

/-! Markers in what is joined. -/

theorem infix_of_wall {c : Char} {word front back : List Char} (hc : c ∉ word)
    (h : word <:+: front ++ c :: back) : word <:+: front ∨ word <:+: back := by
  rcases List.infix_append_iff.mp h with hfront | hback | ⟨left, right, rfl, hleft, hright⟩
  · exact Or.inl hfront
  · rcases List.infix_cons_iff.mp hback with hstarts | hback
    · cases word with
      | nil => exact Or.inl List.nil_infix
      | cons d word =>
        obtain ⟨rfl, -⟩ := List.cons_prefix_cons.mp hstarts
        exact absurd List.mem_cons_self hc
    · exact Or.inr hback
  · cases right with
    | nil =>
      rw [List.append_nil]
      exact Or.inl hleft.isInfix
    | cons d right =>
      obtain ⟨rfl, -⟩ := List.cons_prefix_cons.mp hright
      exact absurd (by simp) hc

variable {folding : CaseFolding}

@[simp] theorem casefold_append (text text' : List Char) :
    folding.casefold (text ++ text') = folding.casefold text ++ folding.casefold text' :=
  List.flatMap_append

theorem casefold_cons (c : Char) (text : List Char) :
    folding.casefold (c :: text) = folding.fold c ++ folding.casefold text := rfl

theorem isPrefix_casefold {text text' : List Char} (h : text <+: text') :
    folding.casefold text <+: folding.casefold text' := by
  obtain ⟨back, rfl⟩ := h
  rw [casefold_append]
  exact List.prefix_append _ _

/-- A marker that lies in no sentence does not come up where they are joined. -/
theorem not_infix_join {marker : List Char} (hends : ∀ c ∈ marker, endsSentence c = false)
    (hhead : marker.head? ≠ some ' ') {sentences : List (List Char)}
    (hchain : sentences.IsChain fun s _ => EndsSentence s) (hne : marker ≠ [])
    (h : ∀ s ∈ sentences, ¬ marker <:+: folding.casefold s) :
    ¬ marker <:+: folding.casefold ([' '].intercalate sentences) := by
  induction sentences with
  | nil => simpa [CaseFolding.casefold] using hne
  | cons s rest ih =>
    cases rest with
    | nil =>
      rw [List.intercalate_singleton]
      exact h s List.mem_cons_self
    | cons s' rest =>
      have hrest := ih hchain.tail fun s'' hs => h s'' (List.mem_cons_of_mem s hs)
      obtain ⟨front, c, rfl, hc⟩ := (List.isChain_cons_cons.mp hchain).1
      intro hinside
      rw [List.intercalate_cons_cons, List.append_assoc, List.append_assoc, casefold_append,
        List.singleton_append, List.singleton_append, casefold_cons, folding.fold_ends c hc,
        casefold_cons, folding.fold_space, List.singleton_append, List.singleton_append] at hinside
      have hnot : c ∉ marker := by
        intro hmem
        rw [hends c hmem] at hc
        cases hc
      rcases infix_of_wall hnot hinside with hfront | hbehind
      · refine h _ List.mem_cons_self (hfront.trans ?_)
        exact (isPrefix_casefold (List.prefix_append _ _)).isInfix
      · rcases List.infix_cons_iff.mp hbehind with hblank | hlast
        · obtain ⟨d, marker, rfl⟩ := List.exists_cons_of_ne_nil hne
          obtain ⟨rfl, -⟩ := List.cons_prefix_cons.mp hblank
          exact absurd rfl hhead
        · exact hrest hlast

theorem instructionMarker_spec : ∀ marker ∈ mcpDescriptionInstructionMarkers,
    (∀ c ∈ marker.toList, endsSentence c = false) ∧ marker.toList.head? ≠ some ' ' ∧
      marker.toList ≠ [] := by
  have hall : (mcpDescriptionInstructionMarkers.all fun marker =>
      (marker.toList.all fun c => !endsSentence c) && marker.toList.head? ≠ some ' ' &&
        marker.toList ≠ []) = true := by
    decide
  intro marker hmarker
  have h := List.all_eq_true.mp hall marker hmarker
  simpa [and_assoc] using h

theorem safeSentences_spec (normalized : List Char) :
    ∀ marker ∈ mcpDescriptionInstructionMarkers,
      ¬ marker.toList <:+:
        folding.casefold ([' '].intercalate (safeSentences folding normalized)) := by
  intro marker hmarker
  obtain ⟨hends, hhead, hne⟩ := instructionMarker_spec marker hmarker
  have hkept : safeSentences folding normalized <+:
      splitSentences (.sentence false) normalized := List.takeWhile_prefix _
  obtain ⟨dropped, hsentences⟩ := hkept
  have hchain := isChain_splitSentences normalized
  rw [← hsentences] at hchain
  refine not_infix_join hends hhead hchain.left_of_append hne fun s hs => ?_
  have hsafe := List.mem_takeWhile_imp hs
  simp only [hasInstruction, Bool.not_eq_true', List.any_eq_false, decide_eq_true_eq] at hsafe
  exact hsafe marker hmarker

theorem isPrefix_stripList {text : List Char} (h : ∀ c, text.head? = some c → isSpace c = false) :
    stripList text <+: text := by
  unfold stripList
  rw [dropWhile_isSpace h]
  exact List.rdropWhile_prefix isSpace text

/-- The text that `safe_mcp_tool_description` starts from. -/
def normalizedDescription (r : CatalogReader) (value : PyJson) : List Char :=
  normalizeSpaces (r.str (value.or (.str "")))

/-- What is returned is a front of the sentences that are kept. -/
theorem isPrefix_description (folding : CaseFolding) (text : String) :
    ((stripList ([' '].intercalate (safeSentences folding (normalizeSpaces text)))).take
        mcpDescriptionMaxChars).rdropWhile isSpace <+:
      [' '].intercalate (safeSentences folding (normalizeSpaces text)) ∧
    [' '].intercalate (safeSentences folding (normalizeSpaces text)) <+: normalizeSpaces text := by
  obtain ⟨hspaced, hhead⟩ := singleSpaced_intercalate fun _ => @mem_splitWords text.toList _
  have hjoined : [' '].intercalate (safeSentences folding (normalizeSpaces text)) <+:
      normalizeSpaces text := by
    have hstarts : [' '].intercalate (safeSentences folding (normalizeSpaces text)) <+:
        [' '].intercalate (splitSentences (.sentence false) (normalizeSpaces text)) :=
      prefix_intercalate (List.takeWhile_prefix _)
    have hsame : [' '].intercalate (splitSentences (.sentence false) (normalizeSpaces text)) =
        normalizeSpaces text := join_splitSentences hspaced fun heq => by cases heq
    rwa [hsame] at hstarts
  refine ⟨?_, hjoined⟩
  refine ((List.rdropWhile_prefix _ _).trans (List.take_prefix _ _)).trans
    (isPrefix_stripList fun c hc => hhead c ?_)
  obtain ⟨back, hback⟩ := hjoined
  show (normalizeSpaces text).head? = some c
  rw [← hback, List.head?_append, hc]
  rfl

/-- The description is the fallback, or the front of the normalised description, without any
marker. -/
theorem safeMcpToolDescription_spec (folding : CaseFolding) (r : CatalogReader)
    (serverName toolName : String) (value : PyJson) :
    safeMcpToolDescription folding r serverName toolName value =
        descriptionFallback serverName toolName ∨
      (safeMcpToolDescription folding r serverName toolName value).length ≤ 300 ∧
        (safeMcpToolDescription folding r serverName toolName value).toList <+:
          normalizedDescription r value ∧
        ∀ marker ∈ mcpDescriptionInstructionMarkers, ¬ marker.toList <:+:
          folding.casefold (safeMcpToolDescription folding r serverName toolName value).toList := by
  unfold safeMcpToolDescription
  dsimp only
  split_ifs
  · exact Or.inl rfl
  · exact Or.inl rfl
  · right
    obtain ⟨hresult, hjoined⟩ := isPrefix_description folding (r.str (value.or (.str "")))
    rw [String.toList_ofList, String.length_ofList]
    refine ⟨?_, hresult.trans hjoined, fun marker hmarker hinside => ?_⟩
    · exact (List.rdropWhile_prefix _ _).length_le.trans (List.length_take_le _ _)
    · exact safeSentences_spec _ marker hmarker (hinside.trans (isPrefix_casefold hresult).isInfix)

end AgentDemo
