import AgentDemo.Library.Greedy
import AgentDemo.Services.RetrievalReranker
import Mathlib

/-! `diverse_indices` over any kind of numbers. -/
namespace AgentDemo

/-- What `diverse_indices` does with numbers: `ratio` is the division of two counts, `near` is
`>= 0.95`, and `value` is the rank of an index from its place and its redundancy. -/
structure DiversityArithmetic (R : Type) where
  zero : R
  ratio : ℕ → ℕ → R
  near : R → Bool
  value : R → R → R
  same : R → R → Bool
  less : R → R → Bool

def floatRatios : DiversityArithmetic Float where
  zero := 0
  ratio := fun a b => a.toFloat / b.toFloat
  near := fun x => x ≥ 0.95
  value := fun place redundancy => 0.7 * (1 - place) - 0.3 * redundancy
  same := fun a b => a == b
  less := fun a b => a < b

/-- Exact ratios. -/
def exactRatios : DiversityArithmetic ℚ where
  zero := 0
  ratio := fun a b => a / b
  near := fun x => x ≥ 19 / 20
  value := fun place redundancy => 7 / 10 * (1 - place) - 3 / 10 * redundancy
  same := fun a b => a = b
  less := fun a b => a < b

namespace Diversity

variable {R : Type}

def jaccard (n : DiversityArithmetic R) (a b : List (List Char)) : R :=
  n.ratio (a.filter (· ∈ b)).length (max (a.length + (b.filter (· ∉ a)).length) 1)

/-- `max(values, default=0.0)`. -/
def maxOf (n : DiversityArithmetic R) : List R → R
  | [] => n.zero
  | x :: xs => xs.foldl (fun m y => if n.less m y then y else m) x

def similarity (n : DiversityArithmetic R) (d : DiversityInput) (index other : ℕ) : R :=
  jaccard n (d.fingerprints.getD index []) (d.fingerprints.getD other [])

/-- The rank of a text that is left, if it is not omitted as a duplicate. -/
def score (n : DiversityArithmetic R) (d : DiversityInput) (selected : List ℕ) (index : ℕ) :
    Option (R × ℕ) :=
  let redundancy := maxOf n (selected.map (similarity n d index))
  let duplicateContext := match d.contexts with
    | none => true
    | some contexts => selected.any fun other =>
      contexts.getD index "" = contexts.getD other "" && n.near (similarity n d index other)
  if n.near redundancy && duplicateContext then none
  else some (n.value (n.ratio index (max d.fingerprints.length 1)) redundancy, index)

def better (n : DiversityArithmetic R) (a b : R × ℕ) : R × ℕ :=
  if n.same a.1 b.1 then (if b.2 < a.2 then b else a) else if n.less a.1 b.1 then b else a

def pick (n : DiversityArithmetic R) (d : DiversityInput)
    (selected remaining : List ℕ) : Option ℕ :=
  match remaining.filterMap (score n d selected) with
  | [] => none
  | first :: ranked => some (ranked.foldl (better n) first).2

/-- The rounds of `diverse_indices`. -/
def indices (n : DiversityArithmetic R) (d : DiversityInput) (limit fuel : ℕ) : List ℕ :=
  Greedy.select (pick n d) limit fuel [] (List.range d.fingerprints.length)

/-! The rounds of `diverse_indices` over floating-point numbers. -/

theorem score_floatRatios (d : DiversityInput) : score floatRatios d = d.score := by
  have hmax : maxOf floatRatios = maxFloat := by
    funext values
    cases values with
    | nil => rfl
    | cons x xs =>
      have hstep : (fun m y => if floatRatios.less m y then y else m) =
          fun m y : Float => if y > m then y else m := by
        funext m y
        simp only [floatRatios, decide_eq_true_eq, gt_iff_lt]
      simp only [maxOf, maxFloat, hstep]
  have hsimilarity : similarity floatRatios d = d.similarity := rfl
  funext selected index
  simp only [score, hmax, hsimilarity]
  rfl

theorem better_floatRatios : better floatRatios = DiversityInput.better := by
  funext a b
  simp only [better, DiversityInput.better, floatRatios, decide_eq_true_eq, gt_iff_lt]

theorem loop_eq_select (d : DiversityInput) (limit fuel : ℕ) (selected remaining : List ℕ) :
    d.loop limit fuel selected remaining =
      Greedy.select (pick floatRatios d) limit fuel selected remaining := by
  induction fuel generalizing selected remaining with
  | zero => rfl
  | succ fuel ih =>
    unfold DiversityInput.loop Greedy.select
    simp only [pick, score_floatRatios, better_floatRatios]
    by_cases hlimit : limit ≤ selected.length
    · rw [if_pos (Or.inr hlimit), if_pos hlimit]
    · cases remaining with
      | nil => simp [hlimit]
      | cons a rest =>
        rw [if_neg (by simp [hlimit]), if_neg hlimit]
        cases (a :: rest).filterMap (d.score selected) with
        | nil => rfl
        | cons first ranked => exact ih _ _

theorem diverseIndices_eq_indices (casefold : String → String) (texts : List String) (limit : ℕ)
    (contexts : Option (List String)) :
    diverseIndices casefold texts limit contexts =
      indices floatRatios ⟨texts.map (fingerprint casefold), contexts⟩ limit texts.length := by
  rw [diverseIndices, loop_eq_select, indices, List.length_map]

/-! What a round selects is left and is no duplicate. -/

theorem snd_foldl_better (n : DiversityArithmetic R) (ranked : List (R × ℕ)) (first : R × ℕ) :
    ranked.foldl (better n) first ∈ first :: ranked := by
  induction ranked generalizing first with
  | nil => exact List.mem_singleton_self _
  | cons a rest ih =>
    rw [List.foldl_cons]
    have hchoice : better n first a = first ∨ better n first a = a := by
      unfold better
      split_ifs <;> simp
    rcases hchoice with heq | heq
    · rw [heq]
      rcases List.mem_cons.mp (ih first) with hfirst | hrest
      · rw [hfirst]
        exact List.mem_cons_self
      · exact List.mem_cons_of_mem _ (List.mem_cons_of_mem _ hrest)
    · rw [heq]
      exact List.mem_cons_of_mem _ (ih a)

/-- The index that a round selects has a rank. -/
theorem exists_score_of_pick {n : DiversityArithmetic R} {d : DiversityInput}
    {selected remaining : List ℕ} {index : ℕ} (h : pick n d selected remaining = some index) :
    index ∈ remaining ∧ (score n d selected index).isSome := by
  unfold pick at h
  cases hranked : remaining.filterMap (score n d selected) with
  | nil => simp [hranked] at h
  | cons first ranked =>
    simp only [hranked, Option.some.injEq] at h
    have hmem := snd_foldl_better n ranked first
    rw [← hranked, List.mem_filterMap] at hmem
    obtain ⟨i, hi, hscore⟩ := hmem
    have hsame : (ranked.foldl (better n) first).2 = i := by
      unfold score at hscore
      simp only at hscore
      split_ifs at hscore
      rw [← Option.some.inj hscore]
    rw [← h, hsame, hscore]
    exact ⟨hi, rfl⟩

theorem takes_pick (n : DiversityArithmetic R) (d : DiversityInput) : Greedy.Takes (pick n d) :=
  fun _ _ _ h => (exists_score_of_pick h).1

theorem score_eq_none_of_pick {n : DiversityArithmetic R} {d : DiversityInput}
    {selected remaining : List ℕ} (h : pick n d selected remaining = none) {index : ℕ}
    (hindex : index ∈ remaining) : score n d selected index = none := by
  unfold pick at h
  cases hranked : remaining.filterMap (score n d selected) with
  | nil => exact List.filterMap_eq_nil_iff.mp hranked index hindex
  | cons first ranked => simp [hranked] at h

/-- Distinct indices of the texts, at most `limit` of them. -/
theorem indices_valid (n : DiversityArithmetic R) (d : DiversityInput) (limit fuel : ℕ) :
    (indices n d limit fuel).Nodup ∧ (∀ i ∈ indices n d limit fuel, i < d.fingerprints.length) ∧
      (indices n d limit fuel).length ≤ limit := by
  refine ⟨?_, ?_, ?_⟩
  · exact Greedy.nodup_select (takes_pick n d) limit fuel List.nodup_range
  · intro i hi
    exact List.mem_range.mp (Greedy.mem_of_mem_select (takes_pick n d) hi)
  · exact Greedy.length_select_le limit fuel _

end Diversity

end AgentDemo
