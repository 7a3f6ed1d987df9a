import AgentDemo.Library.Windows
import AgentDemo.Values

/-! `RagService._split_spans`: a text is cut into overlapping chunks at its separators. -/
namespace AgentDemo

open Windows

/-- `text.replace("\r\n", "\n")`. -/
def joinCrLf : List Char → List Char
  | '\r' :: '\n' :: rest => '\n' :: joinCrLf rest
  | c :: rest => c :: joinCrLf rest
  | [] => []

/-- `text.replace("\r\n", "\n").replace("\r", "\n").strip()`. -/
def cleanText (text : String) : List Char :=
  stripList ((joinCrLf text.toList).map fun c => if c = '\r' then '\n' else c)

/-- `text.rfind(sub, floor, stop)`; `none` is `-1`. -/
def rfind (sub text : List Char) (floor stop : ℕ) : Option ℕ :=
  (List.range (stop + 1 - sub.length)).reverse.find? fun i =>
    floor ≤ i && sub.isPrefixOf (text.drop i)

def chunkSeparators : List (List Char) := [['\n', '\n'], ['\n'], ['。'], ['.', ' '], [' ']]

abbrev Span := Window Char

inductive ChunkError where
  | valueError
  | running
  deriving DecidableEq

namespace RagService

/-- The end of the chunk that begins at `start`. -/
def chunkEnd (clean : List Char) (chunkSize overlap start : ℕ) : ℕ :=
  let stop := min (start + chunkSize) clean.length
  if stop < clean.length then
    let floor := start + max (chunkSize / 2) (overlap + 1)
    (chunkSeparators.findSome? fun separator =>
      (rfind separator clean floor stop).map (· + separator.length)).getD stop
  else stop

/-- The `while` loop for some rounds; `running` when it has not ended by then. -/
def splitLoop (clean : List Char) (chunkSize overlap : ℕ) : ℕ → ℕ → Except ChunkError (List Span)
  | 0, _ => .error .running
  | rounds + 1, start =>
    if start < clean.length then
      let stop := chunkEnd clean chunkSize overlap start
      let chunk := Window.of clean start stop
      if stop = clean.length then .ok [chunk]
      else (splitLoop clean chunkSize overlap rounds (stop - overlap)).map (chunk :: ·)
    else .ok []

def splitSpans (text : String) (chunkSize overlap : ℤ) : Except ChunkError (List Span) :=
  if chunkSize ≤ 0 ∨ ¬ (0 ≤ overlap ∧ overlap < chunkSize) then .error .valueError
  else
    let clean := cleanText text
    if clean = [] then .ok []
    else splitLoop clean chunkSize.toNat overlap.toNat clean.length 0

theorem rfind_eq_some {sub text : List Char} {floor stop i : ℕ}
    (h : rfind sub text floor stop = some i) : floor ≤ i ∧ i + sub.length ≤ stop := by
  have htest := List.find?_some h
  have hmem := List.mem_of_find?_eq_some h
  rw [List.mem_reverse, List.mem_range] at hmem
  rw [Bool.and_eq_true, decide_eq_true_eq] at htest
  exact ⟨htest.1, by omega⟩

theorem rfind_eq_none {sub text : List Char} {floor stop : ℕ} {c : Char} (hsub : c ∈ sub)
    (htext : c ∉ text) : rfind sub text floor stop = none := by
  apply List.find?_eq_none.mpr
  intro i _ htest
  rw [Bool.and_eq_true, List.isPrefixOf_iff_prefix] at htest
  exact htext (List.mem_of_mem_drop (htest.2.subset hsub))

/-- Without separators, a chunk has its greatest size. -/
theorem chunkEnd_of_forall_not_mem {clean : List Char} {chunkSize overlap start : ℕ}
    (h : ∀ separator ∈ chunkSeparators, ∃ c ∈ separator, c ∉ clean) :
    chunkEnd clean chunkSize overlap start = min (start + chunkSize) clean.length := by
  simp only [chunkEnd]
  split_ifs
  · rw [List.findSome?_eq_none_iff.mpr]
    · rfl
    · intro separator hseparator
      obtain ⟨c, hc, hclean⟩ := h separator hseparator
      rw [rfind_eq_none hc hclean]
      rfl
  · rfl

/-- A chunk ends at its greatest size, with the text, or behind a separator. -/
theorem chunkEnd_cases (clean : List Char) (chunkSize overlap start : ℕ) :
    chunkEnd clean chunkSize overlap start = min (start + chunkSize) clean.length ∨
      ∃ (separator : List Char) (i : ℕ), start + overlap < i ∧
        i + separator.length ≤ min (start + chunkSize) clean.length ∧
        chunkEnd clean chunkSize overlap start = i + separator.length := by
  simp only [chunkEnd]
  split_ifs
  · cases hfind : chunkSeparators.findSome? fun separator =>
      (rfind separator clean (start + max (chunkSize / 2) (overlap + 1))
        (min (start + chunkSize) clean.length)).map (· + separator.length) with
    | none => exact Or.inl rfl
    | some stop =>
      obtain ⟨separator, -, hmap⟩ := List.exists_of_findSome?_eq_some hfind
      obtain ⟨i, hi, rfl⟩ := Option.map_eq_some_iff.mp hmap
      obtain ⟨hfloor, hle⟩ := rfind_eq_some hi
      exact Or.inr ⟨separator, i, by omega, hle, rfl⟩
  · exact Or.inl rfl

theorem chunkEnd_le (clean : List Char) (chunkSize overlap start : ℕ) :
    chunkEnd clean chunkSize overlap start ≤ min (start + chunkSize) clean.length := by
  rcases chunkEnd_cases clean chunkSize overlap start with hend | ⟨separator, i, -, hle, hend⟩
  · exact hend.le
  · exact hend.trans_le hle

/-- A chunk that does not end the text reaches behind its overlap. -/
theorem lt_chunkEnd {clean : List Char} {chunkSize overlap start : ℕ}
    (hoverlap : overlap < chunkSize)
    (hend : chunkEnd clean chunkSize overlap start ≠ clean.length) :
    start + overlap < chunkEnd clean chunkSize overlap start := by
  rcases chunkEnd_cases clean chunkSize overlap start with hstop | ⟨separator, i, hlt, -, hstop⟩
  · omega
  · omega

/-- The loop ends within as many rounds as there are characters left, and its chunks cover them. -/
theorem splitLoop_covers {clean : List Char} {chunkSize overlap : ℕ}
    (hoverlap : overlap < chunkSize)
    (rounds start : ℕ) (hstart : start < clean.length) (hrounds : clean.length ≤ start + rounds) :
    ∃ spans, splitLoop clean chunkSize overlap rounds start = .ok spans ∧
      Cover clean chunkSize overlap start spans := by
  induction rounds generalizing start with
  | zero => omega
  | succ rounds ih =>
    have hle := chunkEnd_le clean chunkSize overlap start
    rw [splitLoop, if_pos hstart]
    by_cases hend : chunkEnd clean chunkSize overlap start = clean.length
    · simp only [hend, if_true]
      exact ⟨_, rfl, .last hstart (by omega)⟩
    · have hlt := lt_chunkEnd hoverlap hend
      obtain ⟨spans, hloop, hcover⟩ :=
        ih (chunkEnd clean chunkSize overlap start - overlap) (by omega) (by omega)
      simp only [if_neg hend, hloop]
      exact ⟨_, rfl, .next hlt (by omega) (by omega) hcover⟩

theorem splitSpans_covers (text : String) {chunkSize overlap : ℤ} (hsize : 0 < chunkSize)
    (hoverlap : 0 ≤ overlap) (hlt : overlap < chunkSize) (htext : cleanText text ≠ []) :
    ∃ spans, splitSpans text chunkSize overlap = .ok spans ∧
      Cover (cleanText text) chunkSize.toNat overlap.toNat 0 spans := by
  have hguard : ¬ (chunkSize ≤ 0 ∨ ¬ (0 ≤ overlap ∧ overlap < chunkSize)) := by omega
  simp only [splitSpans, if_neg hguard, if_neg htext]
  have hlength := List.length_pos_iff.mpr htext
  exact splitLoop_covers (by omega) _ 0 hlength (by omega)

/-- The chunks cover the text: each one is a slice of it, of at most `chunk_size` characters, they
overlap by exactly `overlap` characters, and without the overlaps they are the text. -/
theorem splitSpans_of_valid (text : String) (chunkSize overlap : ℤ) (hsize : 0 < chunkSize)
    (hoverlap : 0 ≤ overlap) (hlt : overlap < chunkSize) :
    ∃ spans, splitSpans text chunkSize overlap = .ok spans ∧
      (∀ s ∈ spans, s.content = slice (cleanText text) s.start s.stop ∧
        1 ≤ s.content.length ∧ (s.content.length : ℤ) ≤ chunkSize ∧
        s.start < s.stop ∧ s.stop ≤ (cleanText text).length) ∧
      (∀ s, spans.head? = some s → s.start = 0) ∧
      (∀ s, spans.getLast? = some s → s.stop = (cleanText text).length) ∧
      (spans.IsChain fun s s' =>
        s.start < s'.start ∧ s.stop < s'.stop ∧ (s'.start : ℤ) = s.stop - overlap) ∧
      cleanText text = match spans with
        | [] => []
        | first :: rest => first.content ++ rest.flatMap fun s => s.content.drop overlap.toNat := by
  by_cases htext : cleanText text = []
  · have hguard : ¬ (chunkSize ≤ 0 ∨ ¬ (0 ≤ overlap ∧ overlap < chunkSize)) := by omega
    refine ⟨[], by simp only [splitSpans, if_neg hguard, if_pos htext], ?_⟩
    simp [htext]
  · obtain ⟨spans, hsplit, hcover⟩ := splitSpans_covers text hsize hoverlap hlt htext
    refine ⟨spans, hsplit, fun s hs => ?_, fun s hs => ?_,
      fun s hs => hcover.getLast?_stop hs, ?_, ?_⟩
    · obtain ⟨hcontent, -, hpos, hstop, -⟩ := hcover.of_mem hs
      have hlength := hcover.length_content hs
      exact ⟨hcontent, hlength.1, by omega, hpos, hstop⟩
    · obtain ⟨stop, hhead, -⟩ := hcover.head?_eq
      rw [hhead, Option.some.injEq] at hs
      subst hs
      rfl
    · refine hcover.isChain.imp fun s s' h => ⟨h.1, h.2.1, ?_⟩
      have := h.2.2
      omega
    · obtain ⟨first, rest, rfl, hreassemble⟩ := hcover.reassemble
      exact hreassemble

theorem splitSpans_of_valid_sample :
    ∃ spans, splitSpans "one two\r\nthree " 6 2 = .ok spans ∧
      ∀ s ∈ spans, 1 ≤ s.content.length ∧ (s.content.length : ℤ) ≤ 6 := by
  obtain ⟨spans, hsplit, hmem, -⟩ :=
    splitSpans_of_valid "one two\r\nthree " 6 2 (by decide) (by decide) (by decide)
  exact ⟨spans, hsplit, fun s hs => ⟨(hmem s hs).2.1, (hmem s hs).2.2.1⟩⟩

example : (splitSpans "one two\r\nthree " 6 2).toOption.map (List.map Window.content) =
    some ["one ".toList, "e two\n".toList, "o\nthre".toList, "ree".toList] := by decide

end RagService

end AgentDemo
