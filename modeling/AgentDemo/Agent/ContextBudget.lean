import AgentDemo.Values
import Mathlib.Algebra.Order.BigOperators.Group.List
import Mathlib.Data.List.Infix

/-! The character budget of a model call: how much of the history and of the context is sent. -/
namespace AgentDemo

/-- `TRUNCATED`. -/
def truncatedMarker : String := "\n[Context truncated to fit the runtime budget.]"

/-- A message of the history, a dictionary of texts. -/
abbrev HistoryItem := List (String × String)

namespace HistoryItem

def content? (item : HistoryItem) : Option String :=
  (item.find? (·.1 = "content")).map (·.2)

/-- `len(item.get("content", ""))`. -/
def chars (item : HistoryItem) : ℕ := (item.content?.getD "").length

end HistoryItem

def historyChars (history : List HistoryItem) : ℕ := (history.map HistoryItem.chars).sum

def textChars (texts : List String) : ℕ := (texts.map String.length).sum

inductive ContextBudgetError where
  | valueError (message : String)
  | keyError (key : String)
  deriving DecidableEq

/-- The third component of what `fit_context` returns. -/
structure ContextStats where
  maxChars : ℕ
  inputChars : ℤ
  droppedHistoryMessages : ℤ
  omittedContextChars : ℤ
  deriving DecidableEq

/-- The loop over the history, newest first: it stops at the first message that does not fit. -/
def keepHistory : List HistoryItem → ℕ → List HistoryItem
  | [], _ => []
  | item :: older, historyBudget =>
    if historyBudget < item.chars then []
    else item :: keepHistory older (historyBudget - item.chars)

/-- What the loop over the context has appended, newest first, and `kept_source_chars`. -/
structure KeptContext where
  texts : List String
  sourceChars : ℕ
  deriving DecidableEq

/-- The loop over the context, newest first, with what is left of the budget. -/
def keepContext : List String → ℕ → KeptContext
  | [], _ => ⟨[], 0⟩
  | text :: older, remaining =>
    if text.length ≤ remaining then
      let rest := if remaining - text.length = 0 then ⟨[], 0⟩
        else keepContext older (remaining - text.length)
      ⟨text :: rest.texts, text.length + rest.sourceChars⟩
    else if truncatedMarker.length < remaining then
      ⟨[takeText (remaining - truncatedMarker.length) text ++ truncatedMarker],
        remaining - truncatedMarker.length⟩
    else if remaining = 0 then ⟨[], 0⟩
    else keepContext older remaining

/-- `sum(len(item["content"]) for item in kept_history)`. -/
def contentChars : List HistoryItem → Except ContextBudgetError ℕ
  | [] => .ok 0
  | item :: rest =>
    match item.content? with
    | none => .error (.keyError "content")
    | some content => (contentChars rest).map (content.length + ·)

def historyBudget (context : List String) (remaining : ℕ) : ℕ :=
  if context = [] then remaining else remaining / 2

def fitContext (prompt : String) (history : List HistoryItem) (context : List String)
    (maxChars : ℕ) : Except ContextBudgetError (List HistoryItem × List String × ContextStats) := do
  if maxChars < prompt.length then
    throw (.valueError "Current message exceeds the runtime context budget")
  let remaining := maxChars - prompt.length
  let keptHistory := (keepHistory history.reverse (historyBudget context remaining)).reverse
  let keptChars ← contentChars keptHistory
  let kept := keepContext context.reverse (remaining - keptChars)
  let keptContext := kept.texts.reverse
  return (keptHistory, keptContext, {
    maxChars
    inputChars := prompt.length + keptChars + textChars keptContext
    droppedHistoryMessages := history.length - keptHistory.length
    omittedContextChars := textChars context - kept.sourceChars })

theorem isPrefix_keepHistory (items : List HistoryItem) (budget : ℕ) :
    keepHistory items budget <+: items := by
  induction items generalizing budget with
  | nil => simp [keepHistory]
  | cons item older ih =>
    unfold keepHistory
    split_ifs
    · exact List.nil_prefix
    · exact List.cons_prefix_cons.mpr ⟨rfl, ih _⟩

theorem historyChars_keepHistory (items : List HistoryItem) (budget : ℕ) :
    historyChars (keepHistory items budget) ≤ budget := by
  induction items generalizing budget with
  | nil => simp [keepHistory, historyChars]
  | cons item older ih =>
    unfold keepHistory
    split_ifs with h
    · simp [historyChars]
    · have hrest := ih (budget - item.chars)
      simp only [historyChars, List.map_cons, List.sum_cons] at hrest ⊢
      omega

theorem keepHistory_eq_self_iff (items : List HistoryItem) (budget : ℕ) :
    keepHistory items budget = items ↔ historyChars items ≤ budget := by
  induction items generalizing budget with
  | nil => simp [keepHistory, historyChars]
  | cons item older ih =>
    have hchars : historyChars (item :: older) = item.chars + historyChars older := rfl
    unfold keepHistory
    split_ifs with h
    · simp only [false_iff]
      omega
    · simp only [List.cons.injEq, true_and, ih, hchars]
      omega

theorem contentChars_eq {items : List HistoryItem} (h : ∀ item ∈ items, item.content?.isSome) :
    contentChars items = .ok (historyChars items) := by
  induction items with
  | nil => rfl
  | cons item rest ih =>
    obtain ⟨content, hcontent⟩ := Option.isSome_iff_exists.mp (h item List.mem_cons_self)
    have hrest := ih fun other hother => h other (List.mem_cons_of_mem _ hother)
    have hchars : item.chars = content.length := by simp [HistoryItem.chars, hcontent]
    simp [contentChars, hcontent, hrest, historyChars, hchars, Except.map]

@[simp] theorem historyChars_reverse (items : List HistoryItem) :
    historyChars items.reverse = historyChars items := by
  simp [historyChars, List.sum_reverse]

@[simp] theorem textChars_reverse (texts : List String) :
    textChars texts.reverse = textChars texts := by
  simp [textChars, List.sum_reverse]

@[simp] theorem textChars_cons (text : String) (texts : List String) :
    textChars (text :: texts) = text.length + textChars texts := rfl

@[simp] theorem textChars_nil : textChars [] = 0 := rfl

/-- One entry of the kept context: a source entry, whole or cut to a proper prefix. -/
inductive ContextPiece where
  | whole (source : String)
  | cut (source : String) (n : ℕ) (proper : 0 < n ∧ n < source.length)

namespace ContextPiece

def source : ContextPiece → String
  | .whole source | .cut source _ _ => source

def text : ContextPiece → String
  | .whole source => source
  | .cut source n _ => takeText n source ++ truncatedMarker

/-- The source characters that are kept. -/
def chars : ContextPiece → ℕ
  | .whole source => source.length
  | .cut _ n _ => n

def isCut : ContextPiece → Bool
  | .whole _ => false
  | .cut .. => true

end ContextPiece

/-- `kept` is what the pieces say of `context`, and at most one of them is cut. -/
structure Shortens (pieces : List ContextPiece) (context kept : List String) : Prop where
  sublist : (pieces.map ContextPiece.source).Sublist context
  texts : kept = pieces.map ContextPiece.text
  once : (pieces.filter ContextPiece.isCut).length ≤ 1

theorem Shortens.reverse {pieces : List ContextPiece} {context kept : List String}
    (h : Shortens pieces context kept) : Shortens pieces.reverse context.reverse kept.reverse where
  sublist := by simpa using h.sublist.reverse
  texts := by simp [h.texts]
  once := by simpa [List.filter_reverse] using h.once

theorem Shortens.nil (context : List String) : Shortens [] context [] where
  sublist := List.nil_sublist _
  texts := rfl
  once := by simp

theorem Shortens.skip {pieces : List ContextPiece} {context kept : List String}
    (h : Shortens pieces context kept) (text : String) :
    Shortens pieces (text :: context) kept where
  sublist := h.sublist.cons text
  texts := h.texts
  once := h.once

theorem Shortens.whole {pieces : List ContextPiece} {context kept : List String}
    (h : Shortens pieces context kept) (text : String) :
    Shortens (.whole text :: pieces) (text :: context) (text :: kept) where
  sublist := h.sublist.cons_cons text
  texts := by simp [h.texts, ContextPiece.text]
  once := by simpa [ContextPiece.isCut] using h.once

theorem length_takeText {n : ℕ} {s : String} (h : n ≤ s.length) : (takeText n s).length = n := by
  have hlist : n ≤ s.toList.length := by rwa [String.length_toList]
  simp [takeText, hlist]

/-- The scan of the context keeps pieces of it, counts their characters and stays in the budget. -/
theorem keepContext_shortens (texts : List String) (remaining : ℕ) :
    ∃ pieces, Shortens pieces texts (keepContext texts remaining).texts ∧
      (keepContext texts remaining).sourceChars = (pieces.map ContextPiece.chars).sum ∧
      textChars (keepContext texts remaining).texts ≤ remaining := by
  induction texts generalizing remaining with
  | nil => exact ⟨[], .nil _, rfl, by simp [keepContext]⟩
  | cons text older ih =>
    unfold keepContext
    split_ifs with hfits hfull hcut hnone
    · refine ⟨[.whole text], (Shortens.nil older).whole text, rfl, ?_⟩
      simpa using hfits
    · obtain ⟨pieces, hpieces, hchars, hbound⟩ := ih (remaining - text.length)
      refine ⟨.whole text :: pieces, hpieces.whole text, ?_, ?_⟩
      · simp [hchars, ContextPiece.chars]
      · simp only [textChars_cons]
        omega
    · have hproper : 0 < remaining - truncatedMarker.length ∧
          remaining - truncatedMarker.length < text.length := by omega
      have hlength := length_takeText hproper.2.le
      refine ⟨[.cut text _ hproper], ⟨?_, rfl, List.length_filter_le _ _⟩, rfl, ?_⟩
      · exact (List.nil_sublist older).cons_cons text
      · simp only [textChars_cons, String.length_append, hlength, textChars_nil]
        omega
    · exact ⟨[], .nil _, rfl, by simp⟩
    · obtain ⟨pieces, hpieces, hchars, hbound⟩ := ih remaining
      exact ⟨pieces, hpieces.skip text, hchars, hbound⟩

theorem length_le_textChars {texts : List String} {text : String} (h : text ∈ texts) :
    text.length ≤ textChars texts := List.le_sum_of_mem (List.mem_map_of_mem h)

/-- When everything fits, the scan loses only an oldest entry that is empty, and only where the
entries before it have used up the budget. -/
theorem keepContext_eq_self_iff {texts : List String} {remaining : ℕ}
    (hfits : textChars texts ≤ remaining) :
    (keepContext texts remaining).texts = texts ↔
      ¬ (textChars texts = remaining ∧ 1 < texts.length ∧ texts.getLast? = some "") := by
  induction texts generalizing remaining with
  | nil => simp [keepContext]
  | cons text older ih =>
    rw [textChars_cons] at hfits ⊢
    have htext : text.length ≤ remaining := by omega
    unfold keepContext
    rw [if_pos htext]
    cases older with
    | nil => split_ifs <;> simp [keepContext]
    | cons next rest =>
      have hlast : (text :: next :: rest).getLast? = (next :: rest).getLast? := by simp
      rw [hlast]
      split_ifs with hfull
      · obtain ⟨last, hlast⟩ : ∃ last, (next :: rest).getLast? = some last := by
          simp [List.getLast?_eq_some_getLast]
        have hempty := length_le_textChars (List.mem_of_getLast? hlast)
        have hlength : last.length = 0 := by omega
        have hlast' : last = "" := String.length_eq_zero_iff.mp hlength
        have htotal : text.length + textChars (next :: rest) = remaining := by omega
        rw [htotal, hlast, hlast']
        simp
      · have hiff := @ih (remaining - text.length) (by omega)
        simp only [List.cons.injEq, true_and, hiff, List.length_cons]
        apply not_congr
        constructor
        · intro ⟨htotal, _, hempty⟩
          exact ⟨by omega, by omega, hempty⟩
        · intro ⟨htotal, _, hempty⟩
          refine ⟨by omega, ?_, hempty⟩
          cases rest with
          | nil =>
            have hnext : next = "" := by simpa using hempty
            simp only [hnext, textChars_cons, textChars_nil, String.length_empty] at htotal
            omega
          | cons third rest => simp

/-- What `fit_context` returns once the prompt fits and the messages have a content. -/
theorem fitContext_eq {prompt : String} {history keptHistory : List HistoryItem}
    {context : List String} {maxChars : ℕ} {kept : KeptContext} (hprompt : prompt.length ≤ maxChars)
    (hcontent : ∀ item ∈ history, item.content?.isSome)
    (hhistory : keptHistory =
      (keepHistory history.reverse (historyBudget context (maxChars - prompt.length))).reverse)
    (hkept : kept = keepContext context.reverse
      (maxChars - prompt.length - historyChars keptHistory)) :
    fitContext prompt history context maxChars = .ok (keptHistory, kept.texts.reverse, {
      maxChars
      inputChars := prompt.length + historyChars keptHistory + textChars kept.texts
      droppedHistoryMessages := history.length - keptHistory.length
      omittedContextChars := textChars context - kept.sourceChars }) := by
  have hitems : ∀ item ∈ keptHistory, item.content?.isSome := by
    intro item hitem
    rw [hhistory, List.mem_reverse] at hitem
    have hmem := (isPrefix_keepHistory _ _).subset hitem
    exact hcontent item (List.mem_reverse.mp hmem)
  have hchars := contentChars_eq hitems
  subst hkept
  unfold fitContext
  rw [if_neg (by omega)]
  simp only [← hhistory, hchars, textChars_reverse, bind, Except.bind, pure, Except.pure]

/-- The characters of the kept pieces are characters of the context. -/
theorem Shortens.chars_le {pieces : List ContextPiece} {context kept : List String}
    (h : Shortens pieces context kept) :
    (pieces.map ContextPiece.chars).sum ≤ textChars context := by
  have hpieces : (pieces.map ContextPiece.chars).sum ≤
      (pieces.map fun piece => piece.source.length).sum := by
    apply List.sum_le_sum
    intro piece _
    cases piece with
    | whole source => exact le_rfl
    | cut source n proper => exact proper.2.le
  have hsources : ((pieces.map ContextPiece.source).map String.length).sum ≤ textChars context :=
    (h.sublist.map String.length).sum_le_sum fun _ _ => Nat.zero_le _
  rw [List.map_map] at hsources
  exact hpieces.trans hsources

theorem historyBudget_le (context : List String) (remaining : ℕ) :
    historyBudget context remaining ≤ remaining := by
  unfold historyBudget
  split_ifs <;> omega

/-- What is kept is the end of the history and pieces of the context, it stays within the budget,
and the statistics count it exactly. -/
theorem fitContext_within_budget (prompt : String) (history : List HistoryItem)
    (context : List String) (maxChars : ℕ) (hprompt : prompt.length ≤ maxChars)
    (hcontent : ∀ item ∈ history, item.content?.isSome) :
    ∃ keptHistory keptContext stats pieces,
      fitContext prompt history context maxChars = .ok (keptHistory, keptContext, stats) ∧
      keptHistory <:+ history ∧
      Shortens pieces context keptContext ∧
      prompt.length + historyChars keptHistory + textChars keptContext ≤ maxChars ∧
      stats.maxChars = maxChars ∧
      stats.inputChars =
        ↑(prompt.length + historyChars keptHistory + textChars keptContext) ∧
      stats.droppedHistoryMessages = ↑(history.length - keptHistory.length) ∧
      stats.omittedContextChars = textChars context - (pieces.map ContextPiece.chars).sum ∧
      0 ≤ stats.omittedContextChars := by
  obtain ⟨keptHistory, hkept⟩ : ∃ keptHistory, keptHistory =
      (keepHistory history.reverse (historyBudget context (maxChars - prompt.length))).reverse :=
    ⟨_, rfl⟩
  have hfit := fitContext_eq hprompt hcontent hkept rfl
  have hsuffix : keptHistory <:+ history := by
    have hstarts := isPrefix_keepHistory history.reverse
      (historyBudget context (maxChars - prompt.length))
    rw [hkept]
    simpa using List.reverse_suffix.mpr hstarts
  have hhistory : historyChars keptHistory ≤ maxChars - prompt.length := by
    rw [hkept, historyChars_reverse]
    exact (historyChars_keepHistory _ _).trans (historyBudget_le _ _)
  obtain ⟨pieces, hpieces, hchars, hbound⟩ := keepContext_shortens context.reverse
    (maxChars - prompt.length - historyChars keptHistory)
  have hshortens := hpieces.reverse
  rw [List.reverse_reverse] at hshortens
  have hsum :
    (pieces.reverse.map ContextPiece.chars).sum = (pieces.map ContextPiece.chars).sum := by
    simp [List.sum_reverse]
  have homitted := hshortens.chars_le
  refine ⟨_, _, _, pieces.reverse, hfit, hsuffix, hshortens, ?_, rfl, ?_, ?_, ?_, ?_⟩
  · rw [textChars_reverse]
    omega
  · simp
  · have hlength := hsuffix.length_le
    simp only
    omega
  · rw [hchars, hsum]
  · rw [hsum, ← hchars] at homitted
    simp only
    omega

theorem fitContext_within_budget_sample :
    ∃ keptHistory keptContext stats pieces,
      fitContext "now" [[("role", "user"), ("content", "before")]] ["old", "new"] 20 =
        .ok (keptHistory, keptContext, stats) ∧
      keptHistory <:+ [[("role", "user"), ("content", "before")]] ∧
      Shortens pieces ["old", "new"] keptContext ∧
      "now".length + historyChars keptHistory + textChars keptContext ≤ 20 ∧
      stats.maxChars = 20 ∧
      stats.inputChars = ↑("now".length + historyChars keptHistory + textChars keptContext) ∧
      stats.droppedHistoryMessages = ↑(1 - keptHistory.length) ∧
      stats.omittedContextChars =
        textChars ["old", "new"] - (pieces.map ContextPiece.chars).sum ∧
      0 ≤ stats.omittedContextChars :=
  fitContext_within_budget "now" [[("role", "user"), ("content", "before")]] ["old", "new"] 20
    (by decide) (by decide)

/-- When everything fits, all of it is kept exactly where the history fits the share it is given and
no empty oldest entry of the context meets a used up budget. -/
theorem fitContext_keeps_all_iff (prompt : String) (history : List HistoryItem)
    (context : List String) (maxChars : ℕ) (hcontent : ∀ item ∈ history, item.content?.isSome)
    (hfits : prompt.length + historyChars history + textChars context ≤ maxChars) :
    (∃ stats, fitContext prompt history context maxChars = .ok (history, context, stats)) ↔
      (context = [] ∨ historyChars history ≤ (maxChars - prompt.length) / 2) ∧
      ¬ (prompt.length + historyChars history + textChars context = maxChars ∧
        1 < context.length ∧ context.head? = some "") := by
  have hshare : historyChars history ≤ historyBudget context (maxChars - prompt.length) ↔
      context = [] ∨ historyChars history ≤ (maxChars - prompt.length) / 2 := by
    unfold historyBudget
    split_ifs with hnone
    · simp only [hnone, true_or, iff_true]
      omega
    · simp [hnone]
  have hhistory : (keepHistory history.reverse
        (historyBudget context (maxChars - prompt.length))).reverse = history ↔
      historyChars history ≤ historyBudget context (maxChars - prompt.length) := by
    rw [List.reverse_eq_iff, keepHistory_eq_self_iff, historyChars_reverse]
  have hcontext : (keepContext context.reverse
        (maxChars - prompt.length - historyChars history)).texts.reverse = context ↔
      ¬ (prompt.length + historyChars history + textChars context = maxChars ∧
        1 < context.length ∧ context.head? = some "") := by
    rw [List.reverse_eq_iff, keepContext_eq_self_iff (by rw [textChars_reverse]; omega),
      textChars_reverse, List.length_reverse, List.getLast?_reverse]
    apply not_congr
    apply and_congr_left
    intro _
    omega
  rw [← hshare, ← hhistory, fitContext_eq (by omega) hcontent rfl rfl]
  constructor
  · rintro ⟨stats, hstats⟩
    have hpair := Except.ok.inj hstats
    have hkept := congrArg Prod.fst hpair
    have htexts := congrArg (fun result => result.2.1) hpair
    dsimp only at hkept htexts
    rw [hkept] at htexts
    exact ⟨hkept, hcontext.mp htexts⟩
  · rintro ⟨hkept, hrest⟩
    rw [hkept, hcontext.mpr hrest]
    exact ⟨_, rfl⟩

theorem fitContext_keeps_all_iff_sample :
    (∃ stats, fitContext "now" [[("content", "before")]] ["old"] 20 =
        .ok ([[("content", "before")]], ["old"], stats)) ↔
      (["old"] = [] ∨ historyChars [[("content", "before")]] ≤ (20 - "now".length) / 2) ∧
      ¬ ("now".length + historyChars [[("content", "before")]] + textChars ["old"] = 20 ∧
        1 < ["old"].length ∧ ["old"].head? = some "") :=
  fitContext_keeps_all_iff "now" [[("content", "before")]] ["old"] 20 (by decide) (by decide)

/-- A message of six characters is dropped beside a context of one, with one character to spare. -/
theorem fitContext_drops_fitting_history :
    ¬ ∀ (prompt : String) (history : List HistoryItem) (context : List String) (maxChars : ℕ),
      (∀ item ∈ history, item.content?.isSome) →
      prompt.length + historyChars history + textChars context ≤ maxChars →
      ∃ stats, fitContext prompt history context maxChars = .ok (history, context, stats) := by
  intro hclaim
  obtain ⟨stats, hstats⟩ := hclaim "ab" [[("content", "before")]] ["x"] 10 (by decide) (by decide)
  have hrun : fitContext "ab" [[("content", "before")]] ["x"] 10 =
      .ok ([], ["x"], ⟨10, 3, 1, 0⟩) := by decide
  rw [hrun] at hstats
  have hnil := congrArg Prod.fst (Except.ok.inj hstats)
  simp at hnil

end AgentDemo
