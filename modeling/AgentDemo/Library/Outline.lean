import Mathlib.Data.List.Basic
import Mathlib.Data.List.Induction
import Mathlib.Data.Nat.Notation
import Mathlib.Order.Basic

/-! Headings with levels, and which of them are open behind the last one. -/
namespace Outline

variable {β : Type*}

def push (level : β → ℕ) (stack : List β) (heading : β) : List β :=
  (stack.filter fun h => level h < level heading) ++ [heading]

/-- The headings that none of the same or a higher level follows. -/
def enclosing (level : β → ℕ) : List β → List β
  | [] => []
  | h :: rest =>
    if rest.all fun h' => level h < level h' then h :: enclosing level rest
    else enclosing level rest

variable {level : β → ℕ}

theorem enclosing_sublist (headings : List β) : (enclosing level headings).Sublist headings := by
  induction headings with
  | nil => exact List.Sublist.refl _
  | cons h rest ih =>
    rw [enclosing]
    split_ifs
    · exact ih.cons_cons h
    · exact ih.cons h

theorem enclosing_append (headings later : List β) : enclosing level (headings ++ later) =
    ((enclosing level headings).filter fun h => later.all fun h' => level h < level h') ++
      enclosing level later := by
  induction headings with
  | nil => rfl
  | cons h rest ih =>
    rw [List.cons_append, enclosing, enclosing, List.all_append, ih]
    by_cases hrest : rest.all fun h' => level h < level h'
    · by_cases hlater : later.all fun h' => level h < level h'
      · simp [hrest, hlater]
      · simp [hrest, hlater]
    · simp [hrest]

/-- The stack of the open headings. -/
theorem foldl_push (headings : List β) :
    headings.foldl (push level) [] = enclosing level headings := by
  induction headings using List.reverseRecOn with
  | nil => rfl
  | append_singleton headings h ih =>
    rw [List.foldl_append, ih, enclosing_append]
    simp [push, enclosing]

theorem enclosing_map {γ : Type*} (f : γ → β) (headings : List γ) :
    enclosing level (headings.map f) = (enclosing (level ∘ f) headings).map f := by
  induction headings with
  | nil => rfl
  | cons h rest ih =>
    rw [List.map_cons, enclosing, enclosing, List.all_map, ih, apply_ite (List.map f)]
    rfl

/-- In a list that is ordered by its positions, the later headings are the ones further behind. -/
theorem enclosing_eq_filter {position : β → ℕ} {headings : List β}
    (h : headings.Pairwise fun a b => position a < position b) : enclosing level headings =
      headings.filter fun a => headings.all fun b =>
        !(position a < position b && level b ≤ level a) := by
  induction headings with
  | nil => rfl
  | cons a rest ih =>
    obtain ⟨hfirst, hrest⟩ := List.pairwise_cons.mp h
    have hhead : (a :: rest).all (fun b => !(position a < position b && level b ≤ level a)) =
        rest.all fun b => level a < level b := by
      rw [Bool.eq_iff_iff, List.all_eq_true, List.all_eq_true, List.forall_mem_cons]
      simp only [Nat.lt_irrefl, decide_false, Bool.false_and, Bool.not_false, true_and]
      refine forall₂_congr fun b hb => ?_
      simp [hfirst b hb]
    have htail :
      ∀ b ∈ rest, ((a :: rest).all fun c => !(position b < position c && level c ≤ level b)) =
        rest.all fun c => !(position b < position c && level c ≤ level b) := by
      intro b hb
      have hlt : ¬ position b < position a := Nat.not_lt.mpr (Nat.le_of_lt (hfirst b hb))
      rw [List.all_cons, decide_eq_false hlt]
      rfl
    rw [enclosing, List.filter_cons, hhead, ih hrest, List.filter_congr htail]

/-- The open headings go deeper and deeper. -/
theorem pairwise_enclosing (headings : List β) :
    (enclosing level headings).Pairwise fun a b => level a < level b := by
  induction headings with
  | nil => exact List.Pairwise.nil
  | cons h rest ih =>
    rw [enclosing]
    split_ifs with hall
    · refine List.pairwise_cons.mpr ⟨fun b hb => ?_, ih⟩
      exact of_decide_eq_true (List.all_eq_true.mp hall b ((enclosing_sublist rest).subset hb))
    · exact ih

/-- Headings that are read twice count once. -/
theorem enclosing_append_twice (headings again : List β) :
    enclosing level (headings ++ again ++ again) = enclosing level (headings ++ again) := by
  have hself :
    (enclosing level again).filter (fun h => again.all fun h' => level h < level h') = [] := by
    refine List.filter_eq_nil_iff.mpr fun h hh hall => ?_
    have hlt := List.all_eq_true.mp hall h ((enclosing_sublist again).subset hh)
    exact Nat.lt_irrefl _ (of_decide_eq_true hlt)
  rw [List.append_assoc, enclosing_append, enclosing_append again again, hself, List.nil_append,
    enclosing_append headings again]
  congr 1
  refine List.filter_congr fun h _ => ?_
  rw [List.all_append, Bool.and_self]

/-- Headings that go deeper and deeper are all open. -/
theorem enclosing_of_pairwise {headings : List β}
    (h : headings.Pairwise fun a b => level a < level b) : enclosing level headings = headings := by
  induction headings with
  | nil => rfl
  | cons a rest ih =>
    obtain ⟨hfirst, hrest⟩ := List.pairwise_cons.mp h
    have hall : (rest.all fun b => level a < level b) = true :=
      List.all_eq_true.mpr fun b hb => decide_eq_true (hfirst b hb)
    rw [enclosing, if_pos hall, ih hrest]

theorem enclosing_append_deeper {headings deeper : List β}
    (h : (enclosing level headings ++ deeper).Pairwise fun a b => level a < level b) :
    enclosing level (headings ++ deeper) = enclosing level headings ++ deeper := by
  obtain ⟨-, hdeeper, hlt⟩ := List.pairwise_append.mp h
  rw [enclosing_append, enclosing_of_pairwise hdeeper]
  congr 1
  refine List.filter_eq_self.mpr fun a ha => List.all_eq_true.mpr fun b hb => ?_
  exact decide_eq_true (hlt a ha b hb)

/-- A heading that is read again closes what stands below it. -/
theorem enclosing_reread (headings : List β) (h : β) {below : List β}
    (hbelow : ∀ b ∈ below, level h ≤ level b) :
    enclosing level (headings ++ [h] ++ below ++ [h]) = enclosing level (headings ++ [h]) := by
  have hopen :
    (enclosing level below).filter (fun b => [h].all fun h' => level b < level h') = [] := by
    refine List.filter_eq_nil_iff.mpr fun b hb hall => ?_
    have hle := hbelow b ((enclosing_sublist below).subset hb)
    simp only [List.all_cons, List.all_nil, Bool.and_true, decide_eq_true_eq] at hall
    omega
  rw [enclosing_append, enclosing_append (headings ++ [h]), List.filter_append, hopen,
    List.append_nil, enclosing_append headings [h], List.filter_append, List.filter_append]
  simp only [enclosing, List.all_nil, List.all_cons, Bool.and_true, if_true, List.filter_filter]
  congr 1
  have hclosed :
    ([h].filter fun a => level a < level h && below.all fun b => level a < level b) = [] := by
    simp
  rw [hclosed, List.append_nil]
  refine List.filter_congr fun a _ => ?_
  by_cases ha : level a < level h
  · have hall : (below.all fun b => level a < level b) = true :=
      List.all_eq_true.mpr fun b hb => decide_eq_true (by have := hbelow b hb; omega)
    rw [hall, Bool.true_and, Bool.and_self]
  · rw [decide_eq_false ha, Bool.false_and]

end Outline
