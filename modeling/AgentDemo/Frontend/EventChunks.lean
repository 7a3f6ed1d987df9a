import AgentDemo.Frontend.EventStream

/-! The chunks that the reader parses: the same for every way of cutting the stream, as long as no
CR stands before a CR LF. -/
namespace AgentDemo.Frontend

open PairSplit

/-! ### Line ends -/

/-- What is normalized twice, and differently, when it is carried over. -/
def crCrLf : List Char := ['\r', '\r', '\n']

theorem joinCrLf_cons {c : Char} {rest : List Char} (h : c = '\r' → rest.head? ≠ some '\n') :
    joinCrLf (c :: rest) = c :: joinCrLf rest := by
  rw [joinCrLf]
  rintro tail rfl rfl
  exact h rfl rfl

theorem head?_joinCrLf (text : List Char) :
    (joinCrLf text).head? = some '\n' ↔ text.head? = some '\n' ∨ ['\r', '\n'] <+: text := by
  fun_cases joinCrLf text with
  | case1 rest => simp
  | case2 c rest h =>
    simp only [List.head?_cons, Option.some.injEq, iff_self_or]
    rintro ⟨tail, htail⟩
    cases htail
    exact absurd rfl (h tail rfl)
  | case3 => simp

theorem joinCrLf_eq_nil {text : List Char} : joinCrLf text = [] ↔ text = [] := by
  fun_cases joinCrLf text <;> simp

theorem length_joinCrLf_le (text : List Char) : (joinCrLf text).length ≤ text.length := by
  fun_induction joinCrLf text with
  | case1 rest ih =>
    simp only [List.length_cons]
    omega
  | case2 c rest _ ih =>
    simp only [List.length_cons]
    omega
  | case3 => exact le_rfl

/-- Line ends are found on both sides of a cut that does not stand before LF. -/
theorem joinCrLf_append (front : List Char) {back : List Char} (h : back.head? ≠ some '\n') :
    joinCrLf (front ++ back) = joinCrLf front ++ joinCrLf back := by
  fun_induction joinCrLf front with
  | case1 rest ih => exact congrArg ('\n' :: ·) ih
  | case2 c rest hne ih =>
    rw [List.cons_append, joinCrLf_cons, ih, List.cons_append]
    rintro rfl hhead
    cases rest with
    | nil => exact h hhead
    | cons d rest =>
      obtain rfl := Option.some.inj hhead
      exact hne rest rfl rfl
  | case3 => rfl

theorem joinCrLf_append_crLf (front back : List Char) :
    joinCrLf (front ++ '\r' :: '\n' :: back) = joinCrLf front ++ '\n' :: joinCrLf back :=
  joinCrLf_append front (by simp)

theorem not_infix_of_cons {c : Char} {sub rest : List Char} (h : ¬ sub <:+: c :: rest) :
    ¬ sub <:+: rest := fun hsub => h (hsub.trans (List.suffix_cons c rest).isInfix)

/-- A normalized front may be normalized again with what follows. -/
theorem joinCrLf_joinCrLf_append {front back : List Char} (h : ¬ crCrLf <:+: front) :
    joinCrLf (joinCrLf front ++ back) = joinCrLf (front ++ back) := by
  fun_induction joinCrLf front with
  | case1 rest ih =>
    have hrest := not_infix_of_cons (not_infix_of_cons h)
    rw [List.cons_append, joinCrLf_cons (by simp), ih hrest]
    rfl
  | case2 c rest hne ih =>
    have hrest := not_infix_of_cons h
    cases rest with
    | nil => rfl
    | cons d tail =>
      have hd : c = '\r' → d ≠ '\n' := by
        rintro rfl rfl
        exact hne tail rfl rfl
      have hhead : c = '\r' → (joinCrLf (d :: tail) ++ back).head? ≠ some '\n' := by
        rintro rfl hnl
        have hne' : joinCrLf (d :: tail) ≠ [] := fun hnil => by simpa using joinCrLf_eq_nil.mp hnil
        rw [List.head?_append_of_ne_nil _ hne'] at hnl
        rcases (head?_joinCrLf _).mp hnl with hhead | hstarts
        · exact hd rfl (Option.some.inj hhead)
        · exact h (List.cons_prefix_cons.mpr ⟨rfl, hstarts⟩).isInfix
      calc joinCrLf (c :: (joinCrLf (d :: tail) ++ back))
          = c :: joinCrLf (joinCrLf (d :: tail) ++ back) := joinCrLf_cons hhead
        _ = c :: joinCrLf (d :: tail ++ back) := congrArg (c :: ·) (ih hrest)
        _ = joinCrLf (c :: (d :: tail ++ back)) :=
            (joinCrLf_cons fun hc => by simpa using hd hc).symm
  | case3 => rfl

/-- Nothing is left to normalize. -/
theorem not_infix_joinCrLf {text : List Char} (h : ¬ crCrLf <:+: text) :
    ¬ ['\r', '\n'] <:+: joinCrLf text := by
  fun_induction joinCrLf text with
  | case1 rest ih =>
    rw [List.infix_cons_iff]
    rintro (hstarts | hinside)
    · simp at hstarts
    · exact ih (not_infix_of_cons (not_infix_of_cons h)) hinside
  | case2 c rest hne ih =>
    rw [List.infix_cons_iff]
    rintro (hstarts | hinside)
    · obtain ⟨rfl, tail, htail⟩ := List.cons_prefix_cons.mp hstarts
      have hhead : (joinCrLf rest).head? = some '\n' := by
        rw [← htail]
        rfl
      rcases (head?_joinCrLf rest).mp hhead with hhead | hstarts
      · obtain ⟨d, rest, rfl⟩ := List.exists_cons_of_ne_nil (l := rest) (by rintro rfl; cases hhead)
        obtain rfl := Option.some.inj hhead
        exact hne rest rfl rfl
      · exact h (List.cons_prefix_cons.mpr ⟨rfl, hstarts⟩).isInfix
    · exact ih (not_infix_of_cons h) hinside
  | case3 => simp

/-- A clean front that does not end in CR is left alone. -/
theorem joinCrLf_append_of_clean {front : List Char} (hclean : ¬ ['\r', '\n'] <:+: front)
    (hlast : front.getLast? ≠ some '\r') (back : List Char) :
    joinCrLf (front ++ back) = front ++ joinCrLf back := by
  induction front with
  | nil => rfl
  | cons c rest ih =>
    cases rest with
    | nil =>
      rw [List.singleton_append, joinCrLf_cons, List.singleton_append]
      rintro rfl
      exact absurd rfl hlast
    | cons d rest =>
      have hlast' : (d :: rest).getLast? ≠ some '\r' := by
        rwa [List.getLast?_cons_cons] at hlast
      rw [List.cons_append, joinCrLf_cons, ih (not_infix_of_cons hclean) hlast']
      · rfl
      · rintro rfl hhead
        obtain rfl := Option.some.inj hhead
        exact hclean (List.prefix_append ['\r', '\n'] rest).isInfix

/-! ### Chunks -/

/-- The chunks that the rounds of the loop parse, the buffer and the texts given. -/
def readChunks (buffer : List Char) : List (List Char) → List Char → List (List Char)
  | [], last => splitPair '\n' (joinCrLf (buffer ++ last))
  | text :: texts, last =>
    let chunks := splitPair '\n' (joinCrLf (buffer ++ text))
    chunks.dropLast ++ readChunks (chunks.getLastD []) texts last

/-- After the text `front`: what is complete is split off, and the buffer holds the rest. -/
structure Carried (front : List Char) (complete : List (List Char))
    (buffer : List Char) : Prop where
  joined : ∃ parsed, joinCrLf front = parsed ++ buffer ∧
    (parsed = [] ∨ ∃ before, parsed = before ++ ['\n', '\n']) ∧
    ∀ l, splitPair '\n' (parsed ++ l) = complete ++ splitPair '\n' l

theorem carried_nil : Carried [] [] [] := ⟨[], rfl, Or.inl rfl, fun _ => rfl⟩

section Carried

variable {front buffer : List Char} {complete : List (List Char)}
  (h : Carried front complete buffer) (hclean : ¬ crCrLf <:+: front)

include h hclean

theorem Carried.joinCrLf_append : ∃ parsed, joinCrLf front = parsed ++ buffer ∧
    (parsed = [] ∨ ∃ before, parsed = before ++ ['\n', '\n']) ∧
    (∀ l, splitPair '\n' (parsed ++ l) = complete ++ splitPair '\n' l) ∧
    ∀ text, joinCrLf (front ++ text) = parsed ++ joinCrLf (buffer ++ text) := by
  obtain ⟨parsed, hparsed, hends, hsplit⟩ := h.joined
  refine ⟨parsed, hparsed, hends, hsplit, fun text => ?_⟩
  have hleft : ¬ ['\r', '\n'] <:+: parsed := by
    intro hinside
    apply not_infix_joinCrLf hclean
    rw [hparsed]
    exact hinside.trans (List.prefix_append parsed buffer).isInfix
  have hlast : parsed.getLast? ≠ some '\r' := by
    rcases hends with rfl | ⟨before, rfl⟩ <;> simp
  rw [← joinCrLf_joinCrLf_append hclean, hparsed, List.append_assoc,
    joinCrLf_append_of_clean hleft hlast]

theorem Carried.split (text : List Char) :
    splitPair '\n' (joinCrLf (front ++ text)) =
      complete ++ splitPair '\n' (joinCrLf (buffer ++ text)) := by
  obtain ⟨parsed, -, -, hsplit, hjoin⟩ := h.joinCrLf_append hclean
  rw [hjoin, hsplit]

/-- One more text: its last chunk stays open. -/
theorem Carried.next (text : List Char) :
    Carried (front ++ text)
      (complete ++ (splitPair '\n' (joinCrLf (buffer ++ text))).dropLast)
      ((splitPair '\n' (joinCrLf (buffer ++ text))).getLastD []) := by
  obtain ⟨parsed, -, hends, hsplit, hjoin⟩ := h.joinCrLf_append hclean
  obtain ⟨complete', parsed', open', hpieces, hparts, hends', hsplit'⟩ :=
    exists_opened '\n' (joinCrLf (buffer ++ text))
  rw [hpieces, List.dropLast_concat, List.getLastD_concat]
  refine ⟨parsed ++ parsed', ?_, ?_, fun l => ?_⟩
  · rw [hjoin, hparts, List.append_assoc]
  · rcases hends' with rfl | ⟨before, rfl⟩
    · rwa [List.append_nil]
    · exact Or.inr ⟨parsed ++ before, (List.append_assoc _ _ _).symm⟩
  · rw [List.append_assoc, hsplit, hsplit', List.append_assoc]

end Carried

/-- Cutting a text does not change its chunks. -/
theorem readChunks_eq {front buffer : List Char} {complete : List (List Char)}
    (h : Carried front complete buffer) (texts : List (List Char)) (last : List Char)
    (hclean : ¬ crCrLf <:+: front ++ (texts.flatten ++ last)) :
    complete ++ readChunks buffer texts last =
      splitPair '\n' (joinCrLf (front ++ (texts.flatten ++ last))) := by
  have hfront : ¬ crCrLf <:+: front := fun hinside =>
    hclean (hinside.trans (List.prefix_append _ _).isInfix)
  induction texts generalizing front complete buffer with
  | nil => exact (h.split hfront last).symm
  | cons text texts ih =>
    have hassoc : front ++ ((text :: texts).flatten ++ last) =
        front ++ text ++ (texts.flatten ++ last) := by simp
    rw [hassoc] at hclean ⊢
    rw [← ih (h.next hfront text) hclean fun hinside =>
      hclean (hinside.trans (List.prefix_append _ _).isInfix)]
    simp only [readChunks, List.append_assoc]

/-- The line end of a normalized text lies in its open chunk. -/
theorem crLf_in_open {parsed buffer front : List Char}
    (h : parsed ++ buffer = front ++ ['\r', '\n'])
    (hends : parsed = [] ∨ ∃ before, parsed = before ++ ['\n', '\n']) :
    ∃ rest, buffer = rest ++ ['\r', '\n'] ∧ front = parsed ++ rest := by
  rcases List.append_eq_append_iff.mp h with ⟨rest, hfront, hbuffer⟩ | ⟨rest, hparsed, hrest⟩
  · exact ⟨rest, hbuffer, hfront⟩
  · match rest, hrest with
    | [], hrest => exact ⟨[], hrest.symm, by rw [hparsed, List.append_nil, List.append_nil]⟩
    | [c], hrest =>
      obtain rfl : '\r' = c := (List.cons.inj hrest).1
      rcases hends with rfl | ⟨before, rfl⟩
      · simp at hparsed
      · have hlast := congrArg List.getLast? hparsed
        simp at hlast
    | [c, d], hrest =>
      obtain ⟨rfl, htail⟩ := List.cons.inj hrest
      obtain rfl : '\n' = d := (List.cons.inj htail).1
      rcases hends with rfl | ⟨before, rfl⟩
      · simp at hparsed
      · have hpair := List.append_inj_right' hparsed rfl
        simp at hpair
    | c :: d :: e :: rest, hrest => simp at hrest

theorem joinCrLf_append_crCrLf (before after : List Char) :
    joinCrLf (before ++ crCrLf ++ after) = joinCrLf before ++ ['\r', '\n'] ++ joinCrLf after := by
  rw [show before ++ crCrLf ++ after = before ++ ['\r'] ++ '\r' :: '\n' :: after by simp [crCrLf],
    joinCrLf_append_crLf, joinCrLf_append before (by simp)]
  simp [joinCrLf]

/-- A cut behind CR CR LF changes the chunks. -/
theorem readChunks_ne (before after : List Char) :
    readChunks [] [before ++ crCrLf] after ≠
      splitPair '\n' (joinCrLf (before ++ crCrLf ++ after)) := by
  have hfirst : joinCrLf (before ++ crCrLf) = joinCrLf before ++ ['\r', '\n'] := by
    simpa [joinCrLf] using joinCrLf_append_crCrLf before []
  obtain ⟨complete, parsed, buffer, hpieces, hparts, hends, hsplit⟩ :=
    exists_opened '\n' (joinCrLf (before ++ crCrLf))
  obtain ⟨rest, rfl, hrest⟩ := crLf_in_open (hparts.symm.trans hfirst) hends
  have hchunks : readChunks [] [before ++ crCrLf] after =
      splitPair '\n' (parsed ++ (joinCrLf rest ++ '\n' :: joinCrLf after)) := by
    simp only [readChunks, List.nil_append, hpieces, List.dropLast_concat, List.getLastD_concat]
    rw [hsplit, List.append_assoc]
    exact congrArg (fun l => complete ++ splitPair '\n' l) (joinCrLf_append_crLf rest after)
  rw [hchunks, joinCrLf_append_crCrLf, hrest]
  intro heq
  have hlength := congrArg List.length (splitPair_injective heq)
  have hle := length_joinCrLf_le rest
  simp only [List.length_append, List.length_cons] at hlength
  omega

/-- Every way of cutting a text gives the same chunks if and only if it has no CR CR LF. -/
theorem readChunks_eq_iff (text : List Char) :
    (∀ texts last, texts.flatten ++ last = text →
      readChunks [] texts last = splitPair '\n' (joinCrLf text)) ↔ ¬ crCrLf <:+: text := by
  constructor
  · rintro h ⟨before, after, rfl⟩
    refine readChunks_ne before after (h [before ++ crCrLf] after ?_)
    simp
  · rintro hclean texts last rfl
    exact readChunks_eq carried_nil texts last hclean

end AgentDemo.Frontend
