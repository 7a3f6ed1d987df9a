import Mathlib.Data.List.DropRight
import Mathlib.Data.List.Infix
import Mathlib.Data.Prod.Basic

/-! Scanners over texts, the removal of their leftmost matches and of lines, and what a scanner
finds in a text that differs in its white space. -/
namespace Scanning

variable {α γ : Type*}

/-- What is left of a text behind a match at its head. -/
abbrev Scanner (α : Type*) := List α → Option (List α)

namespace Scanner

def one (test : α → Bool) : Scanner α
  | a :: rest => if test a then some rest else none
  | [] => none

def many (test : α → Bool) : Scanner α := fun text => some (text.dropWhile test)

def optional (test : α → Bool) : Scanner α
  | a :: rest => some (if test a then rest else a :: rest)
  | [] => some []

def next (first second : Scanner α) : Scanner α := fun text => (first text).bind second

def word (same : γ → α → Bool) : List γ → Scanner α
  | [] => some
  | letter :: letters => (one (same letter)).next (word same letters)

/-- No match in front of an item that passes the test. -/
def before (test : α → Bool) (scan : Scanner α) : Scanner α := fun text =>
  if text.head?.any test then none else scan text

def finds (scan : Scanner α) (text : List α) : Bool := text.tails.any fun rest => (scan rest).isSome

theorem finds_eq_true {scan : Scanner α} {text : List α} :
    scan.finds text = true ↔ ∃ rest, rest <:+ text ∧ (scan rest).isSome = true := by
  simp [finds]

theorem finds_cons (scan : Scanner α) (a : α) (text : List α) :
    scan.finds (a :: text) = ((scan (a :: text)).isSome || scan.finds text) := by
  simp [finds]

theorem next_assoc (first second third : Scanner α) :
    (first.next second).next third = first.next (second.next third) := by
  funext text
  exact Option.bind_assoc _ _ _

end Scanner

/-! The removal of matches. -/

/-- The text without the leftmost matches; `skip` items belong to the last one. -/
def removeMatches (scan : Scanner α) : ℕ → List α → List α
  | _, [] => []
  | skip + 1, _ :: rest => removeMatches scan skip rest
  | 0, a :: rest =>
    match scan (a :: rest) with
    | some after => removeMatches scan (rest.length - after.length) rest
    | none => a :: removeMatches scan 0 rest

/-! What is taken out of a text: the text with a mark on the items that are. -/

def kept (mask : List (α × Bool)) : List α := (mask.filter fun x => !x.2).map Prod.fst

@[simp] theorem kept_nil : kept ([] : List (α × Bool)) = [] := rfl

@[simp] theorem kept_cons_true (a : α) (mask : List (α × Bool)) :
    kept ((a, true) :: mask) = kept mask :=
  rfl

@[simp] theorem kept_cons_false (a : α) (mask : List (α × Bool)) :
    kept ((a, false) :: mask) = a :: kept mask := rfl

@[simp] theorem kept_append (first second : List (α × Bool)) :
    kept (first ++ second) = kept first ++ kept second := by simp [kept]

@[simp] theorem kept_map_false (text : List α) : kept (text.map fun a => (a, false)) = text := by
  induction text with
  | nil => rfl
  | cons a text ih => simp [ih]

theorem kept_map_true (text : List α) : kept (text.map fun a => (a, true)) = [] := by
  induction text with
  | nil => rfl
  | cons a text ih => simp [ih]

theorem suffix_of_suffix_kept {mask : List (α × Bool)} {a : α} {rest : List α}
    (h : a :: rest <:+ kept mask) :
    ∃ behind, (a, false) :: behind <:+ mask ∧ kept behind = rest := by
  induction mask with
  | nil => simp at h
  | cons x mask ih =>
    obtain ⟨b, out⟩ := x
    have hmask (h : a :: rest <:+ kept mask) :
        ∃ behind, (a, false) :: behind <:+ (b, out) :: mask ∧ kept behind = rest := by
      obtain ⟨behind, hsuffix, hkept⟩ := ih h
      exact ⟨behind, hsuffix.trans (List.suffix_cons _ _), hkept⟩
    cases out with
    | true => exact hmask h
    | false =>
      rcases List.suffix_cons_iff.mp h with heq | hrest
      · obtain ⟨rfl, rfl⟩ := List.cons.inj heq
        exact ⟨mask, List.suffix_rfl, rfl⟩
      · exact hmask hrest

/-- The items in front of the first one that is taken out. -/
theorem eq_map_false_append (mask : List (α × Bool)) :
    ∃ run : List α, mask = run.map (fun a => (a, false)) ∨
    ∃ a behind, mask = run.map (fun a => (a, false)) ++ (a, true) :: behind := by
  induction mask with
  | nil => exact ⟨[], Or.inl rfl⟩
  | cons x mask ih =>
    obtain ⟨b, out⟩ := x
    cases out with
    | true => exact ⟨[], Or.inr ⟨b, mask, rfl⟩⟩
    | false =>
      obtain ⟨run, rfl | ⟨a, behind, rfl⟩⟩ := ih
      · exact ⟨b :: run, Or.inl rfl⟩
      · exact ⟨b :: run, Or.inr ⟨a, behind, rfl⟩⟩

/-- The text with its leftmost matches taken out; `skip` items belong to the last one. -/
def maskMatches (scan : Scanner α) : ℕ → List α → List (α × Bool)
  | _, [] => []
  | skip + 1, a :: rest => (a, true) :: maskMatches scan skip rest
  | 0, a :: rest =>
    match scan (a :: rest) with
    | some after => (a, true) :: maskMatches scan (rest.length - after.length) rest
    | none => (a, false) :: maskMatches scan 0 rest

theorem map_fst_maskMatches (scan : Scanner α) (skip : ℕ) (text : List α) :
    (maskMatches scan skip text).map Prod.fst = text := by
  induction text generalizing skip with
  | nil => cases skip <;> rfl
  | cons a rest ih =>
    cases skip with
    | succ skip => simp [maskMatches, ih]
    | zero =>
      unfold maskMatches
      cases scan (a :: rest) <;> simp [ih]

theorem kept_maskMatches (scan : Scanner α) (skip : ℕ) (text : List α) :
    kept (maskMatches scan skip text) = removeMatches scan skip text := by
  induction text generalizing skip with
  | nil => cases skip <;> rfl
  | cons a rest ih =>
    cases skip with
    | succ skip => exact ih skip
    | zero =>
      unfold maskMatches removeMatches
      cases scan (a :: rest) <;> simp [ih]

/-- No match begins at an item that stays. -/
theorem scan_of_suffix_maskMatches {scan : Scanner α} {skip : ℕ} {text : List α} {a : α}
    {rest : List (α × Bool)} (h : (a, false) :: rest <:+ maskMatches scan skip text) :
    scan (a :: rest.map Prod.fst) = none := by
  induction text generalizing skip with
  | nil => cases skip <;> simp [maskMatches] at h
  | cons b behind ih =>
    cases skip with
    | succ skip =>
      rcases List.suffix_cons_iff.mp h with heq | hrest
      · simp at heq
      · exact ih hrest
    | zero =>
      unfold maskMatches at h
      cases hscan : scan (b :: behind) with
      | some after =>
        rw [hscan] at h
        rcases List.suffix_cons_iff.mp h with heq | hrest
        · simp at heq
        · exact ih hrest
      | none =>
        rw [hscan] at h
        rcases List.suffix_cons_iff.mp h with heq | hrest
        · obtain ⟨hhead, rfl⟩ := List.cons.inj heq
          rw [map_fst_maskMatches, (Prod.mk.inj hhead).1, hscan]
        · exact ih hrest

def overlay : List (α × Bool) → List (α × Bool) → List (α × Bool)
  | [], _ => []
  | (a, true) :: mask, inner => (a, true) :: overlay mask inner
  | (_, false) :: mask, x :: inner => x :: overlay mask inner
  | (a, false) :: mask, [] => (a, false) :: overlay mask []

theorem map_fst_overlay {mask inner : List (α × Bool)} (h : inner.map Prod.fst = kept mask) :
    (overlay mask inner).map Prod.fst = mask.map Prod.fst := by
  induction mask, inner using overlay.induct with
  | case1 inner => rfl
  | case2 a mask inner ih => simp [overlay, ih h]
  | case3 a mask x inner ih =>
    obtain ⟨rfl, hrest⟩ := List.cons.inj h
    simp [overlay, ih hrest]
  | case4 a mask ih => simp at h

theorem kept_overlay {mask inner : List (α × Bool)} (h : inner.map Prod.fst = kept mask) :
    kept (overlay mask inner) = kept inner := by
  induction mask, inner using overlay.induct with
  | case1 inner =>
    rw [List.map_eq_nil_iff.mp h]
    rfl
  | case2 a mask inner ih => exact ih h
  | case3 a mask x inner ih =>
    obtain ⟨b, out⟩ := x
    have hrest := ih (List.cons.inj h).2
    cases out <;> simp [overlay, hrest]
  | case4 a mask ih => simp at h

/-- What follows an item that stays is what follows it in the text. -/
theorem suffix_of_suffix_overlay {mask inner : List (α × Bool)} (h : inner.map Prod.fst = kept mask)
    {a : α} {rest : List (α × Bool)} (hsuffix : (a, false) :: rest <:+ overlay mask inner) :
    ∃ behind, (a, false) :: behind <:+ mask ∧ behind.map Prod.fst = rest.map Prod.fst := by
  induction mask, inner using overlay.induct with
  | case1 inner => simp [overlay] at hsuffix
  | case2 b mask inner ih =>
    rcases List.suffix_cons_iff.mp hsuffix with heq | hrest
    · simp at heq
    · obtain ⟨behind, hbehind, hfst⟩ := ih h hrest
      exact ⟨behind, hbehind.trans (List.suffix_cons _ _), hfst⟩
  | case3 b mask x inner ih =>
    obtain ⟨hfirst, hinner⟩ := List.cons.inj h
    rcases List.suffix_cons_iff.mp hsuffix with heq | hrest
    · obtain ⟨rfl, rfl⟩ := List.cons.inj heq
      cases hfirst
      exact ⟨mask, List.suffix_rfl, (map_fst_overlay hinner).symm⟩
    · obtain ⟨behind, hbehind, hfst⟩ := ih hinner hrest
      exact ⟨behind, hbehind.trans (List.suffix_cons _ _), hfst⟩
  | case4 b mask ih => simp at h

/-- A word without a separator that stands in two parts stands in one of them. -/
theorem infix_of_infix_separator {separator : α} {word first second : List α}
    (hword : separator ∉ word) (h : word <:+: first ++ separator :: second) :
    word <:+: first ∨ word <:+: second := by
  obtain ⟨front, back, htext⟩ := h
  rcases List.append_eq_append_iff.mp htext with ⟨rest, rfl, hback⟩ | ⟨rest, hfront, hback⟩
  · exact Or.inl ⟨front, rest, rfl⟩
  · cases rest with
    | nil => exact Or.inl ⟨front, [], by simpa using hfront⟩
    | cons c rest =>
      obtain ⟨rfl, rfl⟩ := List.cons.inj hback
      rcases List.append_eq_append_iff.mp hfront with ⟨rest', -, rfl⟩ | ⟨rest', rfl, hrest'⟩
      · exact absurd (by simp) hword
      · cases rest' with
        | nil =>
          rw [← show separator :: rest = word from hrest'] at hword
          exact absurd (by simp) hword
        | cons d rest' =>
          obtain ⟨-, rfl⟩ := List.cons.inj hrest'
          exact Or.inr ⟨rest', back, rfl⟩

/-! Lines. -/

section lines

variable (ends : α → Bool) (pair : α → α → Bool)

def consLine (a : α) : List (List α × List α) → List (List α × List α)
  | [] => [([a], [])]
  | (line, separator) :: lines => (a :: line, separator) :: lines

/-- The lines of a text with their separators, which are one item, or two that form a pair. -/
def splitEnds : List α → List (List α × List α)
  | [] => []
  | [a] => if ends a then [([], [a])] else [([a], [])]
  | a :: b :: rest =>
    if pair a b then ([], [a, b]) :: splitEnds rest
    else if ends a then ([], [a]) :: splitEnds (b :: rest)
    else consLine a (splitEnds (b :: rest))

/-- A separator at the end of a line: it is missing only at the end of the text. -/
inductive Separates : List α → List α → Prop
  | last : Separates [] []
  | one {a : α} (h : ends a = true) (rest : List α) : Separates [a] rest
  | two {a b : α} (h : pair a b = true) (rest : List α) : Separates [a, b] rest

variable {ends pair}

variable (ends pair) in
/-- The first line of a text. -/
theorem splitEnds_eq_cons {text : List α} (h : text ≠ []) : ∃ line separator rest,
    text = line ++ (separator ++ rest) ∧ Separates ends pair separator rest ∧
    splitEnds ends pair text = (line, separator) :: splitEnds ends pair rest ∧
    line ++ separator ≠ [] := by
  induction text using splitEnds.induct ends pair with
  | case1 => exact absurd rfl h
  | case2 a hends => exact ⟨[], [a], [], rfl, .one hends [], by simp [splitEnds, hends], by simp⟩
  | case3 a hends => exact ⟨[a], [], [], rfl, .last, by simp [splitEnds, hends], by simp⟩
  | case4 a b rest hpair =>
    exact ⟨[], [a, b], rest, rfl, .two hpair rest, by simp [splitEnds, hpair], by simp⟩
  | case5 a b rest hpair hends =>
    exact ⟨[], [a], b :: rest, rfl, .one hends _, by simp [splitEnds, hpair, hends], by simp⟩
  | case6 a b rest hpair hends ih =>
    obtain ⟨line, separator, after, htext, hseparates, hsplit, -⟩ := ih (by simp)
    refine ⟨a :: line, separator, after, by rw [htext]; rfl, hseparates, ?_, by simp⟩
    rw [splitEnds, if_neg hpair, if_neg hends, hsplit]
    rfl

variable (ends pair) in
/-- A text line by line. -/
theorem lines_induction {motive : List α → Prop} (nil : motive [])
    (line : ∀ line separator rest, Separates ends pair separator rest →
      splitEnds ends pair (line ++ (separator ++ rest)) =
        (line, separator) :: splitEnds ends pair rest →
      motive rest → motive (line ++ (separator ++ rest))) (text : List α) : motive text := by
  induction hlength : text.length using Nat.strong_induction_on generalizing text with
  | _ n ih =>
    subst hlength
    by_cases hnil : text = []
    · rw [hnil]
      exact nil
    · obtain ⟨first, separator, rest, rfl, hseparates, hsplit, hnonempty⟩ :=
        splitEnds_eq_cons ends pair hnil
      have hshorter : rest.length < (first ++ (separator ++ rest)).length := by
        have hpos := List.length_pos_iff.mpr hnonempty
        simp only [List.length_append] at hpos ⊢
        omega
      exact line first separator rest hseparates hsplit (ih rest.length hshorter rest rfl)

/-- The text with the lines that are dropped taken out, their separators included. -/
def maskLines (ends : α → Bool) (pair : α → α → Bool) (drop : List α → Bool) (text : List α) :
    List (α × Bool) :=
  (splitEnds ends pair text).flatMap fun line => (line.1 ++ line.2).map fun a => (a, drop line.1)

theorem flatMap_splitEnds (text : List α) :
    ((splitEnds ends pair text).flatMap fun line => line.1 ++ line.2) = text := by
  induction text using lines_induction ends pair with
  | nil => rfl
  | line line separator rest _ hsplit ih =>
    rw [hsplit, List.flatMap_cons, ih, List.append_assoc]

theorem map_fst_maskLines (drop : List α → Bool) (text : List α) :
    (maskLines ends pair drop text).map Prod.fst = text := by
  have htext : ((splitEnds ends pair text).flatMap fun line => line.1 ++ line.2) = text :=
    flatMap_splitEnds text
  conv_rhs => rw [← htext]
  simp [maskLines, List.map_flatMap, Function.comp_def]

theorem kept_maskLines (drop : List α → Bool) (text : List α) :
    kept (maskLines ends pair drop text) =
    ((splitEnds ends pair text).filter fun line => !drop line.1).flatMap
      fun line => line.1 ++ line.2 := by
  unfold maskLines
  induction splitEnds ends pair text with
  | nil => rfl
  | cons line lines ih =>
    rw [List.flatMap_cons, kept_append, ih]
    cases hdrop : drop line.1 with
    | true => simp only [kept_map_true, List.nil_append, List.filter_cons, hdrop]; rfl
    | false => simp only [kept_map_false, List.filter_cons, hdrop]; rfl

end lines

/-! Items that a scanner does not read. -/

section stops

variable {stop : α}

/-- What a scanner finds in front of an item does not depend on it. -/
def Stops (stop : α) (scan : Scanner α) : Prop :=
  ∀ front back, scan (front ++ stop :: back) = (scan front).map (· ++ stop :: back)

namespace Stops

theorem one {test : α → Bool} (htest : test stop = false) : Stops stop (Scanner.one test) := by
  intro front back
  cases front with
  | nil => simp [Scanner.one, htest]
  | cons a front =>
    simp only [Scanner.one, List.cons_append]
    split_ifs <;> rfl

theorem many {test : α → Bool} (htest : test stop = false) : Stops stop (Scanner.many test) := by
  intro front back
  induction front with
  | nil => simp [Scanner.many, htest]
  | cons a front ih =>
    simp only [Scanner.many, List.cons_append, List.dropWhile_cons] at ih ⊢
    split_ifs
    · exact ih
    · rfl

theorem optional {test : α → Bool} (htest : test stop = false) :
    Stops stop (Scanner.optional test) := by
  intro front back
  cases front with
  | nil => simp [Scanner.optional, htest]
  | cons a front =>
    simp only [Scanner.optional, List.cons_append]
    split_ifs <;> rfl

theorem next {first second : Scanner α} (hfirst : Stops stop first) (hsecond : Stops stop second) :
    Stops stop (first.next second) := by
  intro front back
  simp only [Scanner.next, hfirst front back, Option.bind_map, Option.map_bind]
  congr 1
  funext rest
  exact hsecond rest back

theorem word {same : γ → α → Bool} {letters : List γ}
    (h : ∀ letter ∈ letters, same letter stop = false) :
    Stops stop (Scanner.word same letters) := by
  induction letters with
  | nil => exact fun _ _ => rfl
  | cons letter letters ih =>
    have hone : Stops stop (Scanner.one (same letter)) := one (h letter (by simp))
    exact hone.next (ih fun letter' h' => h letter' (by simp [h']))

end Stops

end stops

/-! White space. -/

section space

variable {space : α → Bool}

/-- The second text is the first one with other white space in some places, cut off, or followed by
white space. -/
inductive Reflow (space : α → Bool) : List α → List α → Prop
  | cut (text : List α) : Reflow space text []
  | keep (a : α) {text other : List α} (h : Reflow space text other) :
      Reflow space (a :: text) (a :: other)
  | swap {a b : α} (ha : space a = true) (hb : space b = true) {text other : List α}
      (h : Reflow space text other) : Reflow space (a :: text) (b :: other)
  | extra {a b : α} (ha : space a = true) (hb : space b = true) {text other : List α}
      (h : Reflow space text (b :: other)) : Reflow space (a :: text) (b :: other)
  | trail {other : List α} (h : ∀ a ∈ other, space a = true) : Reflow space [] other

namespace Reflow

theorem refl (text : List α) : Reflow space text text := by
  induction text with
  | nil => exact .cut []
  | cons a text ih => exact .keep a ih

theorem of_isPrefix {text other : List α} (h : other <+: text) : Reflow space text other := by
  induction other generalizing text with
  | nil => exact .cut text
  | cons a other ih =>
    obtain ⟨rest, rfl⟩ := h
    exact .keep a (ih (List.prefix_append other rest))

theorem append_space (text : List α) {other : List α} (h : ∀ a ∈ other, space a = true) :
    Reflow space text (text ++ other) := by
  induction text with
  | nil => exact .trail h
  | cons a text ih => exact .keep a ih

theorem cons_of_not_space {a : α} {text other : List α} (h : Reflow space text (a :: other))
    (ha : space a = false) : ∃ rest, text = a :: rest ∧ Reflow space rest other := by
  cases h with
  | keep _ h => exact ⟨_, rfl, h⟩
  | swap _ hb => rw [hb] at ha; cases ha
  | extra _ hb => rw [hb] at ha; cases ha
  | trail h =>
    have hspace := h a (by simp)
    rw [hspace] at ha
    cases ha

/-- Items that are dropped in front are all white space items or none of them. -/
theorem dropWhile {test : α → Bool}
    (htest : ∀ a b, space a = true → space b = true → test a = test b)
    {text other : List α} (h : Reflow space text other) :
    Reflow space (text.dropWhile test) (other.dropWhile test) := by
  induction h with
  | cut text => exact .cut _
  | @keep a text other h ih =>
    cases hpass : test a with
    | true => simpa [hpass] using ih
    | false => simpa [hpass] using Reflow.keep a h
  | @swap a b ha hb text other h ih =>
    have hsame := htest a b ha hb
    cases hpass : test a with
    | true => simpa [hpass, hsame.symm.trans hpass] using ih
    | false => simpa [hpass, hsame.symm.trans hpass] using Reflow.swap ha hb h
  | @extra a b ha hb text other h ih =>
    have hsame := htest a b ha hb
    cases hpass : test a with
    | true => simpa [hpass, hsame.symm.trans hpass] using ih
    | false => simpa [hpass, hsame.symm.trans hpass] using Reflow.extra ha hb h
  | @trail other h =>
    refine .trail fun a ha => h a ?_
    exact (List.dropWhile_suffix test).subset ha

end Reflow

/-- What a scanner finds in a text it also finds where the white space is another. -/
def Robust (space : α → Bool) (scan : Scanner α) : Prop :=
  ∀ text other after, Reflow space text other → scan other = some after →
    ∃ rest, scan text = some rest ∧ Reflow space rest after

namespace Robust

theorem one {test : α → Bool} (htest : ∀ a, space a = true → test a = false) :
    Robust space (Scanner.one test) := by
  intro text other after h hscan
  cases other with
  | nil => cases hscan
  | cons a other =>
    simp only [Scanner.one] at hscan
    split_ifs at hscan with hpass
    cases hscan
    have ha : space a = false := by
      cases hspace : space a with
      | false => rfl
      | true =>
        rw [htest a hspace] at hpass
        cases hpass
    obtain ⟨rest, rfl, hrest⟩ := h.cons_of_not_space ha
    exact ⟨rest, by simp [Scanner.one, hpass], hrest⟩

theorem many {test : α → Bool} (htest : ∀ a b, space a = true → space b = true → test a = test b) :
    Robust space (Scanner.many test) := by
  intro text other after h hscan
  cases hscan
  exact ⟨_, rfl, h.dropWhile htest⟩

theorem optional {test : α → Bool} (htest : ∀ a, space a = true → test a = false) :
    Robust space (Scanner.optional test) := by
  intro text other after h hscan
  cases h with
  | cut text =>
    cases hscan
    cases text with
    | nil => exact ⟨[], rfl, .cut []⟩
    | cons a text => exact ⟨_, rfl, .cut _⟩
  | keep a h =>
    cases hscan
    refine ⟨_, rfl, ?_⟩
    split_ifs
    · exact h
    · exact .keep a h
  | swap ha hb h =>
    cases hscan
    refine ⟨_, rfl, ?_⟩
    simpa [htest _ ha, htest _ hb] using Reflow.swap ha hb h
  | extra ha hb h =>
    cases hscan
    refine ⟨_, rfl, ?_⟩
    simpa [htest _ ha, htest _ hb] using Reflow.extra ha hb h
  | trail h =>
    refine ⟨[], rfl, .trail fun a ha => ?_⟩
    cases other with
    | nil =>
      cases hscan
      cases ha
    | cons b other =>
      cases hscan
      rw [htest b (h b (by simp))] at ha
      exact h a (by simpa using ha)

theorem next {first second : Scanner α} (hfirst : Robust space first)
    (hsecond : Robust space second) : Robust space (first.next second) := by
  intro text other after h hscan
  obtain ⟨middle, hmiddle, hscan⟩ := Option.bind_eq_some_iff.mp hscan
  obtain ⟨rest, hrest, hreflow⟩ := hfirst text other middle h hmiddle
  obtain ⟨rest', hrest', hreflow'⟩ := hsecond rest middle after hreflow hscan
  exact ⟨rest', Option.bind_eq_some_iff.mpr ⟨rest, hrest, hrest'⟩, hreflow'⟩

theorem word {same : γ → α → Bool} {letters : List γ}
    (hsame : ∀ letter ∈ letters, ∀ a, space a = true → same letter a = false) :
    Robust space (Scanner.word same letters) := by
  induction letters with
  | nil =>
    intro text other after h hscan
    cases hscan
    exact ⟨text, rfl, h⟩
  | cons letter letters ih =>
    have hone : Robust space (Scanner.one (same letter)) := one (hsame letter (by simp))
    exact hone.next (ih fun letter' h => hsame letter' (by simp [h]))

theorem before {test : α → Bool} {scan : Scanner α} (htest : ∀ a, space a = true → test a = false)
    (hscan : Robust space scan) (hnil : scan [] = none) : Robust space (scan.before test) := by
  intro text other after h hafter
  unfold Scanner.before at hafter
  split_ifs at hafter with hhead
  obtain ⟨rest, hrest, hreflow⟩ := hscan text other after h hafter
  refine ⟨rest, ?_, hreflow⟩
  unfold Scanner.before
  rw [if_neg ?_]
  · exact hrest
  cases h with
  | cut text =>
    rw [hnil] at hafter
    cases hafter
  | keep a h => exact hhead
  | swap ha hb h => simp [htest _ ha]
  | extra ha hb h => simp [htest _ ha]
  | trail h => simp

end Robust

/-! Lines with their separators and with newlines. -/

theorem Reflow.append (line : List α) {text other : List α} (h : Reflow space text other) :
    Reflow space (line ++ text) (line ++ other) := by
  induction line with
  | nil => exact h
  | cons a line ih => exact .keep a ih

/-- An item that is no white space stands in both texts, in front of texts that differ so. -/
theorem Reflow.suffix {text other : List α} (h : Reflow space text other) {a : α} {rest : List α}
    (ha : space a = false) (hsuffix : a :: rest <:+ other) :
    ∃ behind, a :: behind <:+ text ∧ Reflow space behind rest := by
  induction h with
  | cut text => simp at hsuffix
  | @keep b text other h ih =>
    rcases List.suffix_cons_iff.mp hsuffix with heq | hrest
    · obtain ⟨rfl, rfl⟩ := List.cons.inj heq
      exact ⟨text, List.suffix_rfl, h⟩
    · obtain ⟨behind, hbehind, hreflow⟩ := ih hrest
      exact ⟨behind, hbehind.trans (List.suffix_cons _ _), hreflow⟩
  | @swap b c hb hc text other h ih =>
    rcases List.suffix_cons_iff.mp hsuffix with heq | hrest
    · rw [(List.cons.inj heq).1, hc] at ha
      cases ha
    · obtain ⟨behind, hbehind, hreflow⟩ := ih hrest
      exact ⟨behind, hbehind.trans (List.suffix_cons _ _), hreflow⟩
  | @extra b c hb hc text other h ih =>
    obtain ⟨behind, hbehind, hreflow⟩ := ih hsuffix
    exact ⟨behind, hbehind.trans (List.suffix_cons _ _), hreflow⟩
  | @trail other h =>
    rw [h a (hsuffix.subset (by simp))] at ha
    cases ha

variable {ends : α → Bool} {pair : α → α → Bool}

theorem space_of_mem_separator (hends : ∀ a, ends a = true → space a = true)
    (hpair : ∀ a b, pair a b = true → space a = true ∧ space b = true) {separator rest : List α}
    (h : Separates ends pair separator rest) : ∀ a ∈ separator, space a = true := by
  cases h with
  | last => simp
  | one h => simpa using hends _ h
  | two h => simpa using hpair _ _ h

/-- The lines that stay differ from the text only in their ends. -/
theorem reflow_lines (hends : ∀ a, ends a = true → space a = true)
    (hpair : ∀ a b, pair a b = true → space a = true ∧ space b = true) {newline : α}
    (hnewline : space newline = true) (keep : List α → Bool) (text : List α) :
    Reflow space
      (((splitEnds ends pair text).filter fun line => keep line.1).flatMap
        fun line => line.1 ++ line.2)
      (((splitEnds ends pair text).filter fun line => keep line.1).flatMap
        fun line => line.1 ++ [newline]) := by
  induction text using lines_induction ends pair with
  | nil => exact .cut []
  | line line separator rest hseparates hsplit ih =>
    rw [hsplit, List.filter_cons]
    split_ifs
    · rw [List.flatMap_cons, List.flatMap_cons, List.append_assoc, List.append_assoc]
      refine .append line ?_
      cases hseparates with
      | last => exact .trail (by simpa [splitEnds] using hnewline)
      | one h => exact .swap (hends _ h) hnewline ih
      | two h =>
        obtain ⟨ha, hb⟩ := hpair _ _ h
        exact .extra ha hnewline (.swap hb hnewline ih)
    · exact ih

/-- Lines are white space with their separators where they are so with newlines. -/
theorem space_lines (hends : ∀ a, ends a = true → space a = true)
    (hpair : ∀ a b, pair a b = true → space a = true ∧ space b = true) {newline : α}
    (hnewline : space newline = true) (keep : List α → Bool) (text : List α) :
    (∀ a ∈ ((splitEnds ends pair text).filter fun line => keep line.1).flatMap
        (fun line => line.1 ++ line.2), space a = true) ↔
      ∀ a ∈ ((splitEnds ends pair text).filter fun line => keep line.1).flatMap
        (fun line => line.1 ++ [newline]), space a = true := by
  have hseparators : ∀ line ∈ splitEnds ends pair text, ∀ a ∈ line.2, space a = true := by
    induction text using lines_induction ends pair with
    | nil => simp [splitEnds]
    | line line separator rest hseparates hsplit ih =>
      rw [hsplit]
      intro first hfirst
      rcases List.mem_cons.mp hfirst with rfl | hfirst
      · exact space_of_mem_separator hends hpair hseparates
      · exact ih first hfirst
  simp only [List.mem_flatMap, List.mem_filter, List.mem_append, List.mem_singleton]
  constructor
  · rintro h a ⟨line, hline, ha | rfl⟩
    · exact h a ⟨line, hline, Or.inl ha⟩
    · exact hnewline
  · rintro h a ⟨line, hline, ha | ha⟩
    · exact h a ⟨line, hline, Or.inl ha⟩
    · exact hseparators line hline.1 a ha

end space

end Scanning
