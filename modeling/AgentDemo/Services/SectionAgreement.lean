import AgentDemo.Services.RebuiltSections

/-! When the chunks of a text, joined again, show the sections of the text. -/
namespace AgentDemo

open Windows

def headingsBetween (headings : List Heading) (first stop : ℕ) : List Heading :=
  headings.filter fun h => first ≤ h.start && h.start < stop

/-- Read on its own, a chunk shows exactly the headings that begin in it. -/
def ShowsHeadings (clean : List Char) (chunk : Span) : Prop :=
  (findHeadings chunk.content).map (Heading.shift chunk.start) =
    headingsBetween (findHeadings clean) chunk.start chunk.stop

/-- No heading in an overlap, which ends at `stop`, closes one that is open at its beginning. -/
def KeepsOpen (headings : List Heading) (start stop : ℕ) : Prop :=
  match headingsBetween headings start (start + 1) with
  | [] => (enclosingHeadings headings start ++ headingsBetween headings (start + 1) stop).Pairwise
      fun h h' => h.level < h'.level
  | first :: _ => ∀ h ∈ headingsBetween headings (start + 1) stop, first.level ≤ h.level

/-- The sections of a text survive the reading of its chunks one by one. -/
structure SectionsSurvive (clean : List Char) (chunks : List Span) : Prop where
  shows : ∀ chunk ∈ chunks, ShowsHeadings clean chunk
  keeps : chunks.IsChain fun chunk next => KeepsOpen (findHeadings clean) next.start chunk.stop

theorem mem_headingsBetween {headings : List Heading} {h : Heading} {first stop : ℕ} :
    h ∈ headingsBetween headings first stop ↔ h ∈ headings ∧ first ≤ h.start ∧ h.start < stop := by
  simp [headingsBetween]

theorem start_of_mem_shift {headings : List Heading} {h : Heading} {n first stop : ℕ}
    (hh : h ∈ (headingsBetween headings first stop).map (Heading.shift n)) :
    n + first ≤ h.start ∧ h.start < n + stop := by
  obtain ⟨g, hg, rfl⟩ := List.mem_map.mp hh
  obtain ⟨-, hfirst, hstop⟩ := mem_headingsBetween.mp hg
  rw [Heading.shift_start]
  omega

theorem headingsBetween_append {headings : List Heading}
    (h : headings.Pairwise fun a b => a.start < b.start) {a b c : ℕ} (hab : a ≤ b) (hbc : b ≤ c) :
    headingsBetween headings a c =
      headingsBetween headings a b ++ headingsBetween headings b c := by
  induction headings with
  | nil => rfl
  | cons x rest ih =>
    obtain ⟨hfirst, hrest⟩ := List.pairwise_cons.mp h
    unfold headingsBetween at ih ⊢
    rw [List.filter_cons, List.filter_cons, List.filter_cons, ih hrest]
    by_cases hx : x.start < b
    · have hxb : ¬ b ≤ x.start := by omega
      have hxc : x.start < c := by omega
      simp [hx, hxb, hxc]
      split_ifs <;> simp
    · have hnone : (rest.filter fun h => decide (a ≤ h.start) && decide (h.start < b)) = [] := by
        refine List.filter_eq_nil_iff.mpr fun y hy => ?_
        have := hfirst y hy
        simp
        omega
      have hax : a ≤ x.start := by omega
      have hbx : b ≤ x.start := by omega
      simp [hx, hnone, hax, hbx]

theorem headingsBetween_shift (headings : List Heading) (n a b : ℕ) :
    headingsBetween (headings.map (Heading.shift n)) (n + a) (n + b) =
      (headingsBetween headings a b).map (Heading.shift n) := by
  unfold headingsBetween
  rw [List.filter_map]
  congr 1
  refine List.filter_congr fun h _ => ?_
  simp

theorem headingsBetween_between {headings : List Heading} {a b c d : ℕ} (hac : a ≤ c)
    (hdb : d ≤ b) :
    headingsBetween (headingsBetween headings a b) c d = headingsBetween headings c d := by
  unfold headingsBetween
  rw [List.filter_filter]
  refine List.filter_congr fun h _ => ?_
  rw [Bool.eq_iff_iff]
  simp only [Bool.and_eq_true, decide_eq_true_eq]
  omega

theorem enclosingHeadings_eq_between {headings : List Heading}
    (h : headings.Pairwise fun a b => a.start < b.start) (place : ℕ) :
    enclosingHeadings headings place =
      Outline.enclosing Heading.level (headingsBetween headings 0 (place + 1)) := by
  rw [enclosingHeadings_eq h]
  congr 1
  exact List.filter_congr fun a _ => decide_eq_decide.mpr Nat.lt_succ_iff.symm

theorem insideHeadings_eq_between (headings : List Heading) (span : Span) :
    insideHeadings headings span = headingsBetween headings (span.start + 1) span.stop := rfl

theorem subset_foldl_keep (kept labels : List String) :
    kept ⊆ labels.foldl (fun kept label => if label ∈ kept then kept else kept ++ [label]) kept ∧
      labels ⊆
        labels.foldl (fun kept label => if label ∈ kept then kept else kept ++ [label]) kept := by
  induction labels generalizing kept with
  | nil => exact ⟨List.Subset.refl _, List.nil_subset _⟩
  | cons label labels ih =>
    rw [List.foldl_cons]
    obtain ⟨hkept, hlabels⟩ := ih (if label ∈ kept then kept else kept ++ [label])
    have hlabel : kept ⊆ (if label ∈ kept then kept else kept ++ [label]) ∧
        label ∈ (if label ∈ kept then kept else kept ++ [label]) := by
      split_ifs with hmem
      · exact ⟨List.Subset.refl _, hmem⟩
      · exact ⟨List.subset_append_left _ _, by simp⟩
    exact ⟨List.Subset.trans hlabel.1 hkept, List.cons_subset.mpr ⟨hkept hlabel.2, hlabels⟩⟩

theorem foldl_keep_of_subset {kept labels : List String} (h : labels ⊆ kept) :
    labels.foldl (fun kept label => if label ∈ kept then kept else kept ++ [label]) kept =
      kept := by
  induction labels with
  | nil => rfl
  | cons label labels ih =>
    obtain ⟨hlabel, hlabels⟩ := List.cons_subset.mp h
    rw [List.foldl_cons, if_pos hlabel, ih hlabels]

/-- Labels that come again change nothing. -/
theorem dictFromKeys_again (labels again rest : List String) :
    dictFromKeys (labels ++ again ++ again ++ rest) = dictFromKeys (labels ++ again ++ rest) := by
  have hsubset : again ⊆ dictFromKeys (labels ++ again) :=
    List.Subset.trans (List.subset_append_right labels again) (subset_foldl_keep [] _).2
  unfold dictFromKeys at hsubset ⊢
  rw [List.foldl_append, List.foldl_append, foldl_keep_of_subset hsubset]
  exact List.foldl_append.symm

theorem headingsBetween_succ {headings : List Heading}
    (h : headings.Pairwise fun a b => a.start < b.start) {place : ℕ} {first : Heading}
    {others : List Heading}
    (hfirst : headingsBetween headings place (place + 1) = first :: others) :
    others = [] := by
  have hstart : ∀ a ∈ headingsBetween headings place (place + 1), a.start = place := by
    intro a ha
    have := (mem_headingsBetween.mp ha).2
    omega
  have hsorted :
    (headingsBetween headings place (place + 1)).Pairwise fun a b => a.start < b.start :=
    h.filter _
  rw [hfirst] at hstart hsorted
  apply List.eq_nil_iff_forall_not_mem.mpr
  intro a ha
  have hlt := (List.pairwise_cons.mp hsorted).1 a ha
  have hfirst' := hstart first List.mem_cons_self
  have ha' := hstart a (List.mem_cons_of_mem _ ha)
  omega

/-- Where the overlap closes no section, a chunk that is read behind it has the same labels. -/
theorem dictFromKeys_of_keepsOpen {headings : List Heading}
    (h : headings.Pairwise fun a b => a.start < b.start) (title : String) {start place stop : ℕ}
    (hplace : place = start ∨ start < place) (hstop : start < stop) (hle : place ≤ stop)
    (hkeeps : KeepsOpen headings start place) :
    dictFromKeys (title :: ((Outline.enclosing Heading.level (headingsBetween headings 0 place ++
        headingsBetween headings start (start + 1)) ++
          headingsBetween headings (start + 1) stop).map Heading.label)) =
      dictFromKeys
        (title :: ((Outline.enclosing Heading.level (headingsBetween headings 0 (start + 1)) ++
          headingsBetween headings (start + 1) stop).map Heading.label)) := by
  rcases hplace with rfl | hplace
  · rw [← headingsBetween_append h (Nat.zero_le place) (Nat.le_succ place)]
  · have hfront : headingsBetween headings 0 place = headingsBetween headings 0 (start + 1) ++
        headingsBetween headings (start + 1) place :=
      headingsBetween_append h (Nat.zero_le _) hplace
    have hinside :
      headingsBetween headings (start + 1) stop = headingsBetween headings (start + 1) place ++
        headingsBetween headings place stop := headingsBetween_append h hplace hle
    unfold KeepsOpen at hkeeps
    cases hfirst : headingsBetween headings start (start + 1) with
    | nil =>
      rw [hfirst] at hkeeps
      rw [enclosingHeadings_eq_between h] at hkeeps
      rw [List.append_nil, hfront, Outline.enclosing_append_deeper hkeeps, hinside]
      simp only [List.map_append]
      have := dictFromKeys_again
        (title :: (Outline.enclosing Heading.level (headingsBetween headings 0 (start + 1))).map
          Heading.label)
        ((headingsBetween headings (start + 1) place).map Heading.label)
        ((headingsBetween headings place stop).map Heading.label)
      simpa using this
    | cons first others =>
      have hothers := headingsBetween_succ h hfirst
      subst hothers
      rw [hfirst] at hkeeps
      have hbefore :
        headingsBetween headings 0 (start + 1) = headingsBetween headings 0 start ++ [first] := by
        rw [headingsBetween_append h (Nat.zero_le start) (Nat.le_succ start), hfirst]
      rw [hfront, hbefore, Outline.enclosing_reread _ _ hkeeps]

/-! The lineage of a chunk in the text and in the joined chunks. -/

def openSections (headings : List Heading) : List (ℕ × String) :=
  (Outline.enclosing Heading.level headings).map fun h => (h.level, h.label)

theorem openSections_eq (headings : List Heading) : openSections headings =
    Outline.enclosing Prod.fst (headings.map fun h => (h.level, h.label)) := by
  rw [Outline.enclosing_map]
  rfl

/-- Behind the same open sections, headings of the same levels and labels leave the same ones. -/
theorem openSections_append_congr {headings headings' later later' : List Heading}
    (h : openSections headings = openSections headings')
    (hlater : (later.map fun h => (h.level, h.label)) = later'.map fun h => (h.level, h.label)) :
    openSections (headings ++ later) = openSections (headings' ++ later') := by
  rw [openSections_eq, openSections_eq] at h ⊢
  rw [List.map_append, List.map_append, Outline.enclosing_append, Outline.enclosing_append,
    h, hlater]

theorem lt_length_of_mem_lineHeadings {offset : ℕ} {lines : List (List Char)} {h : Heading}
    (hh : h ∈ lineHeadings offset lines) :
    h.start + 1 < offset + (lines.map fun line => line.length + 1).sum := by
  induction lines generalizing offset with
  | nil => simp [lineHeadings] at hh
  | cons line lines ih =>
    rw [List.map_cons, List.sum_cons]
    rw [lineHeadings, List.mem_append] at hh
    rcases hh with hh | hh
    · obtain ⟨m, hm, rfl⟩ := Option.map_eq_some_iff.mp (Option.mem_toList.mp hh)
      have hpos : line ≠ [] := by
        rintro rfl
        simp [matchHeading] at hm
      have := List.length_pos_iff.mpr hpos
      change offset + 1 < _
      omega
    · have := ih hh
      omega

theorem lt_length_of_mem_findHeadings {text : List Char} {h : Heading}
    (hh : h ∈ findHeadings text) :
    h.start < text.length := by
  have hlt := lt_length_of_mem_lineHeadings hh
  rw [sum_splitOn] at hlt
  omega

theorem headingsBetween_length (text : List Char) :
    headingsBetween (findHeadings text) 0 text.length = findHeadings text :=
  List.filter_eq_self.mpr fun h hh => by simpa using lt_length_of_mem_findHeadings hh

/-- The headings of a chunk that begin in a part of it are the ones of the text at that place. -/
theorem shift_headingsBetween {clean : List Char} {start stop a b : ℕ}
    (hshows : ShowsHeadings clean (Window.of clean start stop)) (hb : start + b ≤ stop) :
    (headingsBetween (findHeadings (slice clean start stop)) a b).map (Heading.shift start) =
      headingsBetween (findHeadings clean) (start + a) (start + b) := by
  unfold ShowsHeadings at hshows
  rw [← headingsBetween_shift]
  simp only [Window.of_content, Window.of_start, Window.of_stop] at hshows
  rw [hshows, headingsBetween_between (Nat.le_add_right _ _) hb]

/-- What the loop has ahead of it inside a chunk that begins at `offset`. -/
theorem takeWhile_shift {piece after : List Heading} {offset size : ℕ}
    (hsorted : ((headingsBetween piece 1 size).map (Heading.shift offset) ++ after).Pairwise
      fun a b => a.start < b.start) (hafter : ∀ h ∈ after, offset + size ≤ h.start) :
    (((headingsBetween piece 1 size).map (Heading.shift offset) ++ after).takeWhile fun h =>
      h.start < offset + size) = (headingsBetween piece 1 size).map (Heading.shift offset) := by
  rw [takeWhile_start_lt hsorted, List.filter_append, List.filter_eq_self.mpr,
    List.filter_eq_nil_iff.mpr, List.append_nil]
  · intro h hh
    have := hafter h hh
    simp only [decide_eq_true_eq]
    omega
  · intro h hh
    simpa using (start_of_mem_shift hh).2

/-- The labels of a chunk that is joined to others. -/
theorem lineage_piece {before piece after : List Heading} (title : String) {offset size : ℕ}
    (content : List Char)
    (hsplit : piece = headingsBetween piece 0 1 ++ headingsBetween piece 1 size)
    (hbefore : ∀ h ∈ before, h.start < offset) (hafter : ∀ h ∈ after, offset + size ≤ h.start)
    (hsize : 0 < size)
    (hsorted : (before ++ (piece.map (Heading.shift offset) ++ after)).Pairwise
      fun a b => a.start < b.start) :
    lineage title (before ++ (piece.map (Heading.shift offset) ++ after))
        ⟨content, offset, offset + size⟩ =
      title ::
        ((openSections (before ++ (headingsBetween piece 0 1).map (Heading.shift offset))).map
          Prod.snd ++ (headingsBetween piece 1 size).map Heading.label) := by
  have htext : before ++ (piece.map (Heading.shift offset) ++ after) =
      (before ++ (headingsBetween piece 0 1).map (Heading.shift offset)) ++
        ((headingsBetween piece 1 size).map (Heading.shift offset) ++ after) := by
    conv_lhs => rw [hsplit, List.map_append]
    simp only [List.append_assoc]
  rw [htext] at hsorted ⊢
  rw [RagService.lineage_append title hsorted,
    takeWhile_shift (List.pairwise_append.mp hsorted).2.1 hafter,
    openSections, List.map_map, List.map_map]
  · rfl
  · intro h hh
    rcases List.mem_append.mp hh with hh | hh
    · exact (hbefore h hh).le
    · have := (start_of_mem_shift hh).2
      change h.start ≤ offset
      omega
  · intro h hh
    rcases List.mem_append.mp hh with hh | hh
    · have := (start_of_mem_shift hh).1
      change offset < h.start
      omega
    · have := hafter h hh
      change offset < h.start
      omega

/-- The labels of a chunk in its text. -/
theorem lineage_window {clean : List Char} (title : String) (start stop : ℕ) :
    lineage title (findHeadings clean) (Window.of clean start stop) =
      title :: ((openSections (headingsBetween (findHeadings clean) 0 (start + 1))).map Prod.snd ++
        (headingsBetween (findHeadings clean) (start + 1) stop).map Heading.label) := by
  rw [lineage, enclosingHeadings_eq_between (pairwise_findHeadings clean),
    insideHeadings_eq_between,
    List.map_append, openSections, List.map_map]
  rfl

/-- Where a chunk is joined behind others that leave the same sections open as the text, its labels
are the ones that it has in the text. -/
theorem lineage_rebuilt {clean : List Char} {before after : List Heading} (title : String)
    {offset place start stop : ℕ} (hstop : start < stop) (hlength : stop ≤ clean.length)
    (hplace : place = start ∨ start < place) (hle : place ≤ stop)
    (hshows : ShowsHeadings clean (Window.of clean start stop))
    (hkeeps : KeepsOpen (findHeadings clean) start place)
    (hbefore : ∀ h ∈ before, h.start < offset)
    (hafter : ∀ h ∈ after, offset + (slice clean start stop).length ≤ h.start)
    (hsorted : (before ++ ((findHeadings (slice clean start stop)).map (Heading.shift offset) ++
      after)).Pairwise fun a b => a.start < b.start)
    (hopen : openSections before = openSections (headingsBetween (findHeadings clean) 0 place)) :
    dictFromKeys (lineage title (before ++ ((findHeadings (slice clean start stop)).map
        (Heading.shift offset) ++ after))
          ⟨slice clean start stop, offset, offset + (slice clean start stop).length⟩) =
      dictFromKeys (lineage title (findHeadings clean) (Window.of clean start stop)) := by
  have hlen : (slice clean start stop).length = stop - start := length_slice hlength
  have hsplit : findHeadings (slice clean start stop) =
      headingsBetween (findHeadings (slice clean start stop)) 0 1 ++
        headingsBetween (findHeadings (slice clean start stop)) 1
          (slice clean start stop).length := by
    rw [← headingsBetween_append (pairwise_findHeadings _) (Nat.zero_le 1) (by omega),
      headingsBetween_length]
  have hfirst := shift_headingsBetween (a := 0) (b := 1) hshows (by omega)
  have hinside := shift_headingsBetween (a := 1) (b := (slice clean start stop).length) hshows
    (by omega)
  rw [Nat.add_zero] at hfirst
  rw [hlen, Nat.add_sub_cancel' hstop.le] at hinside
  have hstack : openSections (before ++
        (headingsBetween (findHeadings (slice clean start stop)) 0 1).map (Heading.shift offset)) =
      openSections (headingsBetween (findHeadings clean) 0 place ++
        headingsBetween (findHeadings clean) start (start + 1)) := by
    refine openSections_append_congr hopen ?_
    rw [← hfirst, List.map_map, List.map_map]
    rfl
  have hlabels : (headingsBetween (findHeadings (slice clean start stop)) 1
        (slice clean start stop).length).map Heading.label =
      (headingsBetween (findHeadings clean) (start + 1) stop).map Heading.label := by
    rw [← hinside, List.map_map, hlen]
    rfl
  have hkeys :=
    dictFromKeys_of_keepsOpen (pairwise_findHeadings clean) title hplace hstop hle hkeeps
  rw [List.map_append, List.map_append] at hkeys
  rw [lineage_piece title _ hsplit hbefore hafter (by omega) hsorted, hstack, hlabels,
    lineage_window,
    openSections, openSections, List.map_map, List.map_map]
  exact hkeys

theorem le_start_of_mem_pieceHeadings {offset : ℕ} {contents : List (List Char)} {h : Heading}
    (hh : h ∈ pieceHeadings offset contents) : offset ≤ h.start := by
  induction contents generalizing offset with
  | nil => simp [pieceHeadings] at hh
  | cons content contents ih =>
    rw [pieceHeadings, List.mem_append] at hh
    rcases hh with hh | hh
    · obtain ⟨g, -, rfl⟩ := List.mem_map.mp hh
      exact Nat.le_add_right _ _
    · have := ih hh
      omega

/-- The headings of an overlap are read twice, and leave the same sections open. -/
theorem openSections_overlap {headings : List Heading}
    (h : headings.Pairwise fun a b => a.start < b.start) {start place stop : ℕ}
    (hstart : start ≤ place) (hstop : place ≤ stop) :
    openSections (headingsBetween headings 0 place ++ headingsBetween headings start stop) =
      openSections (headingsBetween headings 0 stop) := by
  have hfront := headingsBetween_append h (Nat.zero_le start) hstart
  have hchunk := headingsBetween_append h hstart hstop
  have hall := headingsBetween_append h (Nat.zero_le place) hstop
  unfold openSections
  congr 1
  rw [hall, hfront, hchunk, ← List.append_assoc, Outline.enclosing_append,
    Outline.enclosing_append_twice, ← Outline.enclosing_append]

/-- The chunks that follow have, joined behind others, the labels that they have in the text. -/
theorem labels_rebuilt {clean : List Char} {size overlap start : ℕ} {chunks : List Span}
    (hcover : Cover clean size overlap start chunks) (title : String) {before : List Heading}
    {offset place : ℕ} (hplace : place = start ∨ start < place)
    (hle : ∀ c, chunks.head? = some c → place ≤ c.stop)
    (hkeeps : KeepsOpen (findHeadings clean) start place) (hsurvive : SectionsSurvive clean chunks)
    (hbefore : ∀ h ∈ before, h.start < offset)
    (hsorted : (before ++ pieceHeadings offset (chunks.map Window.content)).Pairwise
      fun a b => a.start < b.start)
    (hopen : openSections before = openSections (headingsBetween (findHeadings clean) 0 place)) :
    (RagService.rebuiltSpans offset (chunks.map Window.content)).map (fun s => dictFromKeys
        (lineage title (before ++ pieceHeadings offset (chunks.map Window.content)) s)) =
      chunks.map fun c => dictFromKeys (lineage title (findHeadings clean) c) := by
  induction hcover generalizing before offset place with
  | @last start hstart hsize =>
    have hshows := hsurvive.shows _ List.mem_cons_self
    have hafter :
      ∀ h ∈ ([] : List Heading), offset + (slice clean start clean.length).length ≤ h.start :=
      fun h hh => absurd hh List.not_mem_nil
    have hhead :=
      lineage_rebuilt title hstart le_rfl hplace (hle _ rfl) hshows hkeeps hbefore hafter
      hsorted hopen
    simp only [List.map_cons, List.map_nil, RagService.rebuiltSpans, pieceHeadings,
      Window.of_content]
    rw [hhead]
  | @next start stop chunks hoverlap hsize hstop rest ih =>
    have hshows := hsurvive.shows _ List.mem_cons_self
    have hle' := hle _ rfl
    simp only [List.map_cons, RagService.rebuiltSpans, pieceHeadings,
      Window.of_content] at hsorted ⊢
    rw [Window.of_stop] at hle'
    have hafter : ∀ h ∈ pieceHeadings (offset + (slice clean start stop).length + 2)
        (chunks.map Window.content), offset + (slice clean start stop).length ≤ h.start := by
      intro h hh
      have := le_start_of_mem_pieceHeadings hh
      omega
    have hhead := lineage_rebuilt title (by omega : start < stop) hstop.le hplace hle' hshows hkeeps
      hbefore hafter hsorted hopen
    rw [hhead]
    congr 1
    rw [← List.append_assoc] at hsorted ⊢
    obtain ⟨hchain, hkeepsRest⟩ := List.isChain_cons.mp hsurvive.keeps
    obtain ⟨stop', hfirst, -, hstop'⟩ := rest.head?_eq
    have hnext := hchain _ hfirst
    rw [Window.of_start, Window.of_stop] at hnext
    refine ih (by omega) ?_ hnext
      ⟨fun c hc => hsurvive.shows c (List.mem_cons_of_mem _ hc), hkeepsRest⟩
      ?_ hsorted ?_
    · intro c hc
      rw [hfirst, Option.some.injEq] at hc
      subst hc
      rw [Window.of_stop]
      omega
    · intro h hh
      rcases List.mem_append.mp hh with hh | hh
      · have := hbefore h hh
        omega
      · obtain ⟨g, hg, rfl⟩ := List.mem_map.mp hh
        have := lt_length_of_mem_findHeadings hg
        rw [Heading.shift_start]
        omega
    · rw [← openSections_overlap (pairwise_findHeadings clean) (by omega : start ≤ place) hle']
      refine openSections_append_congr hopen ?_
      unfold ShowsHeadings at hshows
      simp only [Window.of_content, Window.of_start, Window.of_stop] at hshows
      rw [← hshows, List.map_map, List.map_map]
      rfl

end AgentDemo
