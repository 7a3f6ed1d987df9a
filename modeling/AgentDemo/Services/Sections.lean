import AgentDemo.Library.Outline
import AgentDemo.Services.Chunking
import Mathlib.Data.List.TakeWhile

/-! `RagService._chunk_contexts`: the title and the section headings of every chunk. -/
namespace AgentDemo

open Windows

/-- `[ \t]`. -/
def isBlank (c : Char) : Bool := c = ' ' || c = '\t'

/-- The match of `^(#{1,6})[ \t]+([^\n]+)$` with a line: its level and its label. The last of
several blanks stands for a text that is missing. -/
def matchHeading (line : List Char) : Option (ℕ × String) :=
  let level := (line.takeWhile (· = '#')).length
  let rest := line.dropWhile (· = '#')
  let blanks := (rest.takeWhile isBlank).length
  let text := rest.dropWhile isBlank
  if 1 ≤ level ∧ level ≤ 6 ∧ 1 ≤ blanks ∧ (text ≠ [] ∨ 2 ≤ blanks) then
    some (level, takeText 120 (strip (String.ofList text)))
  else none

structure Heading where
  start : ℕ
  level : ℕ
  label : String
  deriving DecidableEq

/-- The headings of some lines, the first one of which begins at `offset`. -/
def lineHeadings : ℕ → List (List Char) → List Heading
  | _, [] => []
  | offset, line :: lines =>
    ((matchHeading line).map fun m => Heading.mk offset m.1 m.2).toList ++
      lineHeadings (offset + line.length + 1) lines

/-- `re.finditer`, over a text whose lines end in newlines. -/
def findHeadings (clean : List Char) : List Heading := lineHeadings 0 (clean.splitOn '\n')

/-- `dict.fromkeys(labels)`. -/
def dictFromKeys (labels : List String) : List String :=
  labels.foldl (fun kept label => if label ∈ kept then kept else kept ++ [label]) []

/-- `" > ".join(dict.fromkeys(labels))[:700]`. -/
def contextOf (labels : List String) : String :=
  takeText 700 (" > ".intercalate (dictFromKeys labels))

namespace RagService

/-- The `for` loop; the headings are the ones from the cursor on. -/
def contextLoop (title : String) : List Heading → List (ℕ × String) → List Span → List String
  | _, _, [] => []
  | headings, stack, span :: spans =>
    let passed := headings.takeWhile fun h => h.start ≤ span.start
    let rest := headings.dropWhile fun h => h.start ≤ span.start
    let stack := passed.foldl (fun stack h => Outline.push Prod.fst stack (h.level, h.label)) stack
    let ahead := rest.takeWhile fun h => h.start < span.stop
    contextOf (takeText 260 title :: stack.map Prod.snd ++ ahead.map Heading.label) ::
      contextLoop title rest stack spans

def chunkContexts (title text : String) (spans : List Span) : List String :=
  contextLoop title (findHeadings (cleanText text)) [] spans

end RagService

/-- The headings at or before a place that, up to it, no other one of the same or a higher level
follows. -/
def enclosingHeadings (headings : List Heading) (place : ℕ) : List Heading :=
  headings.filter fun h => h.start ≤ place && headings.all fun h' =>
    !(h.start < h'.start && h'.start ≤ place && h'.level ≤ h.level)

def insideHeadings (headings : List Heading) (span : Span) : List Heading :=
  headings.filter fun h => span.start < h.start && h.start < span.stop

/-- The section lineage of a span, with any title. -/
def lineage (title : String) (headings : List Heading) (span : Span) : List String :=
  title :: (enclosingHeadings headings span.start ++ insideHeadings headings span).map Heading.label

theorem le_start_of_mem_lineHeadings {offset : ℕ} {lines : List (List Char)} {h : Heading}
    (hh : h ∈ lineHeadings offset lines) : offset ≤ h.start := by
  induction lines generalizing offset with
  | nil => simp [lineHeadings] at hh
  | cons line lines ih =>
    rw [lineHeadings, List.mem_append] at hh
    rcases hh with hh | hh
    · obtain ⟨m, -, rfl⟩ := Option.map_eq_some_iff.mp (Option.mem_toList.mp hh)
      exact le_rfl
    · have := ih hh
      omega

theorem pairwise_lineHeadings (offset : ℕ) (lines : List (List Char)) :
    (lineHeadings offset lines).Pairwise fun h h' => h.start < h'.start := by
  induction lines generalizing offset with
  | nil => exact List.Pairwise.nil
  | cons line lines ih =>
    rw [lineHeadings]
    refine List.pairwise_append.mpr ⟨?_, ih _, fun h hh h' hh' => ?_⟩
    · cases matchHeading line <;> simp
    · obtain ⟨m, -, rfl⟩ := Option.map_eq_some_iff.mp (Option.mem_toList.mp hh)
      have := le_start_of_mem_lineHeadings hh'
      change offset < h'.start
      omega

theorem pairwise_findHeadings (clean : List Char) :
    (findHeadings clean).Pairwise fun h h' => h.start < h'.start := pairwise_lineHeadings _ _

/-- The enclosing headings are the open ones behind the headings that have been passed. -/
theorem enclosingHeadings_eq {headings : List Heading}
    (h : headings.Pairwise fun a b => a.start < b.start) (place : ℕ) :
    enclosingHeadings headings place =
      Outline.enclosing Heading.level (headings.filter fun a => a.start ≤ place) := by
  rw [Outline.enclosing_eq_filter (h.filter _), List.filter_filter, enclosingHeadings]
  refine List.filter_congr fun a _ => ?_
  rw [Bool.and_comm]
  congr 1
  rw [Bool.eq_iff_iff, List.all_eq_true, List.all_eq_true]
  simp only [List.mem_filter, decide_eq_true_eq, Bool.not_eq_true', Bool.and_eq_false_iff,
    decide_eq_false_iff_not]
  grind

/-- Behind the headings up to a place there are only later ones. -/
theorem lt_start_of_mem_dropWhile {headings : List Heading}
    (h : headings.Pairwise fun a b => a.start < b.start) {place : ℕ} {a : Heading}
    (ha : a ∈ headings.dropWhile fun b => b.start ≤ place) : place < a.start := by
  induction headings with
  | nil => simp at ha
  | cons b rest ih =>
    obtain ⟨hfirst, hrest⟩ := List.pairwise_cons.mp h
    by_cases hb : b.start ≤ place
    · rw [List.dropWhile_cons_of_pos (by simpa using hb)] at ha
      exact ih hrest ha
    · rw [List.dropWhile_cons_of_neg (by simpa using hb)] at ha
      rcases List.mem_cons.mp ha with rfl | ha
      · omega
      · have := hfirst a ha
        omega

theorem takeWhile_start_lt {headings : List Heading}
    (h : headings.Pairwise fun a b => a.start < b.start) (stop : ℕ) :
    (headings.takeWhile fun a => a.start < stop) = headings.filter fun a => a.start < stop := by
  induction headings with
  | nil => rfl
  | cons a rest ih =>
    obtain ⟨hfirst, hrest⟩ := List.pairwise_cons.mp h
    by_cases ha : a.start < stop
    · rw [List.takeWhile_cons_of_pos (by simpa using ha),
        List.filter_cons_of_pos (by simpa using ha),
        ih hrest]
    · rw [List.takeWhile_cons_of_neg (by simpa using ha),
        List.filter_cons_of_neg (by simpa using ha)]
      refine (List.filter_eq_nil_iff.mpr fun b hb => ?_).symm
      have := hfirst b hb
      simp only [decide_eq_true_eq]
      omega

namespace RagService

/-- The lineage of a span, from the headings that the loop has passed and the ones ahead. -/
theorem lineage_append {passed rest : List Heading} {span : Span} (title : String)
    (hsorted : (passed ++ rest).Pairwise fun a b => a.start < b.start)
    (hpassed : ∀ a ∈ passed, a.start ≤ span.start) (hrest : ∀ a ∈ rest, span.start < a.start) :
    lineage title (passed ++ rest) span =
      title :: (Outline.enclosing Heading.level passed).map Heading.label ++
        (rest.takeWhile fun a => a.start < span.stop).map Heading.label := by
  have hbefore : ((passed ++ rest).filter fun a => a.start ≤ span.start) = passed := by
    rw [List.filter_append, List.filter_eq_self.mpr fun a ha => by simpa using hpassed a ha,
      List.filter_eq_nil_iff.mpr fun a ha => by simpa using hrest a ha, List.append_nil]
  have hinside :
    insideHeadings (passed ++ rest) span = rest.filter fun a => a.start < span.stop := by
    rw [insideHeadings, List.filter_append, List.filter_eq_nil_iff.mpr fun a ha => by
      have := hpassed a ha
      simp
      omega, List.nil_append]
    refine List.filter_congr fun a ha => ?_
    simp [hrest a ha]
  have hlater := (List.pairwise_append.mp hsorted).2.1
  rw [lineage, enclosingHeadings_eq hsorted, hbefore, hinside, takeWhile_start_lt hlater,
    List.map_append, List.cons_append]

/-- Behind the headings that have been passed, the loop gives every span its lineage. -/
theorem contextLoop_eq (title : String) {passed rest : List Heading} {spans : List Span}
    (hsorted : (passed ++ rest).Pairwise fun a b => a.start < b.start)
    (hpassed : ∀ span ∈ spans, ∀ a ∈ passed, a.start ≤ span.start)
    (hspans : spans.Pairwise fun s s' => s.start ≤ s'.start) :
    contextLoop title rest
        ((passed.map fun a => (a.level, a.label)).foldl (Outline.push Prod.fst) []) spans =
      spans.map fun span => contextOf (lineage (takeText 260 title) (passed ++ rest) span) := by
  induction spans generalizing passed rest with
  | nil => rfl
  | cons span spans ih =>
    obtain ⟨hfirst, hlater⟩ := List.pairwise_cons.mp hspans
    have hsplit : passed ++ rest =
        (passed ++ rest.takeWhile fun a => a.start ≤ span.start) ++
          rest.dropWhile fun a => a.start ≤ span.start := by
      rw [List.append_assoc, List.takeWhile_append_dropWhile]
    have hpassed' : ∀ a ∈ passed ++ rest.takeWhile (fun a => a.start ≤ span.start),
        a.start ≤ span.start := by
      intro a ha
      rcases List.mem_append.mp ha with ha | ha
      · exact hpassed span List.mem_cons_self a ha
      · simpa using List.mem_takeWhile_imp ha
    have hrest' : ∀ a ∈ rest.dropWhile (fun a => a.start ≤ span.start), span.start < a.start :=
      fun a => lt_start_of_mem_dropWhile (List.pairwise_append.mp hsorted).2.1
    have hstack : (rest.takeWhile fun a => a.start ≤ span.start).foldl
          (fun stack a => Outline.push Prod.fst stack (a.level, a.label))
          ((passed.map fun a => (a.level, a.label)).foldl (Outline.push Prod.fst) []) =
        ((passed ++ rest.takeWhile fun a => a.start ≤ span.start).map fun a =>
          (a.level, a.label)).foldl (Outline.push Prod.fst) [] := by
      rw [List.map_append, List.foldl_append]
      exact List.foldl_map.symm
    rw [contextLoop]
    simp only [hstack]
    rw [hsplit] at hsorted
    rw [ih hsorted (fun s hs a ha => (hpassed' a ha).trans (hfirst s hs)) hlater, ← hsplit,
      List.map_cons, hsplit, lineage_append _ hsorted hpassed' hrest', Outline.foldl_push,
      Outline.enclosing_map, List.map_map]
    rfl

/-- Every span gets the headings that enclose its start and the ones inside it, behind the title,
which is cut to 260 characters. -/
theorem chunkContexts_eq_map (title text : String) (spans : List Span)
    (hspans : spans.Pairwise fun s s' => s.start ≤ s'.start) :
    chunkContexts title text spans = spans.map fun span =>
      contextOf (lineage (takeText 260 title) (findHeadings (cleanText text)) span) := by
  have hsorted :
    (([] : List Heading) ++ findHeadings (cleanText text)).Pairwise fun a b => a.start < b.start :=
    pairwise_findHeadings _
  exact contextLoop_eq title hsorted (by simp) hspans

theorem contextOf_singleton (label : String) : contextOf [label] = takeText 700 label := by
  simp [contextOf, dictFromKeys]

/-- A title of 261 characters is cut. -/
theorem chunkContexts_long_title :
    chunkContexts (String.ofList (List.replicate 261 'a')) "x" [Window.of ['x'] 0 1] ≠
      [Window.of ['x'] 0 1].map fun span => contextOf
        (lineage (String.ofList (List.replicate 261 'a')) (findHeadings (cleanText "x")) span) := by
  have hheadings : findHeadings (cleanText "x") = [] := by decide
  rw [chunkContexts_eq_map _ _ _ (List.pairwise_singleton _ _), hheadings]
  change [contextOf [_]] ≠ [contextOf [_]]
  rw [contextOf_singleton, contextOf_singleton]
  intro h
  have hlength := congrArg String.length (List.singleton_injective h)
  simp only [takeText, String.toList_ofList, String.length_ofList, List.length_take,
    List.length_replicate] at hlength
  omega

theorem chunkContexts_eq_map_sample :
    chunkContexts "Guide" "# A\n\ntext\n## B\nmore" [⟨[], 0, 10⟩, ⟨[], 6, 20⟩] =
      [⟨[], 0, 10⟩, ⟨[], 6, 20⟩].map fun span => contextOf (lineage (takeText 260 "Guide")
        (findHeadings (cleanText "# A\n\ntext\n## B\nmore")) span) :=
  chunkContexts_eq_map _ _ _ (by decide)

example :
    findHeadings "# A\n\ntext\n##\tB \n### \nmore".toList = [⟨0, 1, "A"⟩, ⟨10, 2, "B"⟩] := by
  decide

end RagService

end AgentDemo
