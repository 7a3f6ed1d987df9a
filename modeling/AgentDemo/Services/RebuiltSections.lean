import AgentDemo.Services.KnowledgeIndex

/-! What a text that is joined from its chunks shows of the sections. -/
namespace AgentDemo

open Windows

theorem joinCrLf_of_not_mem {text : List Char} (h : '\r' ∉ text) : joinCrLf text = text := by
  induction text with
  | nil => rfl
  | cons c rest ih =>
    have hc : c ≠ '\r' := fun hc => h (hc ▸ List.mem_cons_self)
    rw [joinCrLf]
    · rw [ih fun hrest => h (List.mem_cons_of_mem _ hrest)]
    · rintro rest' rfl
      exact absurd rfl hc

theorem not_mem_cleanText (text : String) : '\r' ∉ cleanText text := by
  intro h
  have hsub :
    cleanText text ⊆ (joinCrLf text.toList).map fun c => if c = '\r' then '\n' else c := by
    unfold cleanText stripList
    intro c hc
    rw [List.mem_reverse] at hc
    exact (List.dropWhile_suffix _).subset
      (List.mem_reverse.mp ((List.dropWhile_suffix _).subset hc))
  obtain ⟨c, -, hc⟩ := List.mem_map.mp (hsub h)
  split_ifs at hc with hcr
  · exact absurd hc (by decide)
  · exact hcr hc

theorem trimmed_cleanText (text : String) : Trimmed (cleanText text) := trimmed_stripList _

/-- A text that is clean stays as it is. -/
theorem cleanText_of_clean {text : List Char} (hcr : '\r' ∉ text) (htrim : Trimmed text) :
    cleanText (String.ofList text) = text := by
  have hmap : (text.map fun c => if c = '\r' then '\n' else c) = text.map id :=
    List.map_congr_left fun c hc => if_neg fun heq : c = '\r' => hcr (by rwa [← heq])
  rw [cleanText, String.toList_ofList, joinCrLf_of_not_mem hcr, hmap, List.map_id,
    stripList_of_trimmed htrim]

/-! Headings of joined texts. -/

def Heading.shift (n : ℕ) (h : Heading) : Heading := { h with start := n + h.start }

@[simp] theorem Heading.shift_start (n : ℕ) (h : Heading) : (h.shift n).start = n + h.start := rfl

@[simp] theorem Heading.shift_level (n : ℕ) (h : Heading) : (h.shift n).level = h.level := rfl

@[simp] theorem Heading.shift_label (n : ℕ) (h : Heading) : (h.shift n).label = h.label := rfl

theorem lineHeadings_add (n offset : ℕ) (lines : List (List Char)) :
    lineHeadings (n + offset) lines = (lineHeadings offset lines).map (Heading.shift n) := by
  induction lines generalizing offset with
  | nil => rfl
  | cons line lines ih =>
    rw [lineHeadings, lineHeadings, List.map_append, ← ih, Nat.add_assoc, Nat.add_assoc,
      ← Nat.add_assoc offset]
    congr 1
    cases matchHeading line <;> rfl

theorem lineHeadings_append (offset : ℕ) (lines more : List (List Char)) :
    lineHeadings offset (lines ++ more) = lineHeadings offset lines ++
      lineHeadings (offset + (lines.map fun line => line.length + 1).sum) more := by
  induction lines generalizing offset with
  | nil => rfl
  | cons line lines ih =>
    rw [List.cons_append, lineHeadings, lineHeadings, ih, List.append_assoc, List.map_cons,
      List.sum_cons]
    congr 3
    omega

theorem sum_splitOn (text : List Char) :
    ((text.splitOn '\n').map fun line => line.length + 1).sum = text.length + 1 := by
  induction text with
  | nil => rfl
  | cons c rest ih =>
    obtain ⟨line, lines, hlines⟩ := List.exists_cons_of_ne_nil
      (List.splitOnP_ne_nil (· == '\n') rest)
    rw [List.splitOn_eq_splitOnP] at ih ⊢
    rw [List.splitOnP_cons_eq_if_modifyHead]
    rw [hlines] at ih ⊢
    split_ifs
    · rw [List.map_cons, List.sum_cons, ih, List.length_cons, List.length_nil]
      omega
    · rw [List.modifyHead_cons, List.map_cons, List.sum_cons, List.length_cons, List.length_cons]
      rw [List.map_cons, List.sum_cons] at ih
      omega

theorem splitOn_append_newline (text rest : List Char) :
    (text ++ '\n' :: rest).splitOn '\n' = text.splitOn '\n' ++ rest.splitOn '\n' := by
  rw [List.splitOn_eq_splitOnP, List.splitOn_eq_splitOnP, List.splitOn_eq_splitOnP]
  exact List.splitOnP_append_cons _ _ (by decide)

/-- The headings of two paragraphs. -/
theorem findHeadings_paragraphs (text rest : List Char) :
    findHeadings (text ++ ['\n', '\n'] ++ rest) =
      findHeadings text ++ (findHeadings rest).map (Heading.shift (text.length + 2)) := by
  have hblank : ('\n' :: rest).splitOn '\n' = [] :: rest.splitOn '\n' :=
    splitOn_append_newline [] rest
  have hsplit : (text ++ ['\n', '\n'] ++ rest).splitOn '\n' =
      text.splitOn '\n' ++ ([] :: rest.splitOn '\n') := by
    rw [← hblank, ← splitOn_append_newline]
    simp
  unfold findHeadings
  rw [hsplit, lineHeadings_append, sum_splitOn, lineHeadings, ← lineHeadings_add, Nat.zero_add]
  rfl

/-- The headings of the chunks, each read on its own, at their places in the joined text. -/
def pieceHeadings : ℕ → List (List Char) → List Heading
  | _, [] => []
  | offset, content :: contents =>
    (findHeadings content).map (Heading.shift offset) ++
      pieceHeadings (offset + content.length + 2) contents

theorem pieceHeadings_add (n offset : ℕ) (contents : List (List Char)) :
    pieceHeadings (n + offset) contents =
      (pieceHeadings offset contents).map (Heading.shift n) := by
  induction contents generalizing offset with
  | nil => rfl
  | cons content contents ih =>
    rw [pieceHeadings, pieceHeadings, List.map_append, ← ih, List.map_map]
    congr 2
    · funext h
      simp [Heading.shift, Nat.add_assoc]
    · omega

theorem findHeadings_intercalate (contents : List (List Char)) :
    findHeadings (['\n', '\n'].intercalate contents) = pieceHeadings 0 contents := by
  induction contents with
  | nil => rfl
  | cons content contents ih =>
    cases contents with
    | nil =>
      rw [List.intercalate_singleton, pieceHeadings, pieceHeadings, List.append_nil]
      exact lineHeadings_add 0 0 _
    | cons next rest =>
      have hfirst : (findHeadings content).map (Heading.shift 0) = findHeadings content :=
        (lineHeadings_add 0 0 _).symm
      have hoffset : pieceHeadings 0 (content :: next :: rest) =
          (findHeadings content).map (Heading.shift 0) ++
            pieceHeadings (0 + content.length + 2) (next :: rest) := rfl
      rw [List.intercalate_cons_cons, findHeadings_paragraphs, ih, ← pieceHeadings_add, hoffset,
        hfirst, Nat.zero_add, Nat.add_zero]

end AgentDemo
