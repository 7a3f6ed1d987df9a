import Mathlib.Data.List.Nodup
import Mathlib.Data.List.Infix

/-! Greedy selections: one candidate after another, until the limit or until none is left. -/
namespace Greedy

variable {α : Type*} [DecidableEq α]

/-- `pick` chooses among the candidates that are left, with regard to the ones selected. -/
def select (pick : List α → List α → Option α) (limit : ℕ) : ℕ → List α → List α → List α
  | 0, selected, _ => selected
  | fuel + 1, selected, remaining =>
    if limit ≤ selected.length then selected
    else match pick selected remaining with
      | none => selected
      | some a => select pick limit fuel (selected ++ [a]) (remaining.erase a)

def Takes (pick : List α → List α → Option α) : Prop :=
  ∀ ⦃selected remaining a⦄, pick selected remaining = some a → a ∈ remaining

/-- A choice that takes a candidate without a conflict as long as there is one. -/
structure Avoids (pick : List α → List α → Option α) (conflict : α → α → Prop) : Prop where
  free : ∀ {selected remaining a}, pick selected remaining = some a →
    ∀ b ∈ selected, ¬ conflict a b
  full : ∀ {selected remaining}, pick selected remaining = none →
    ∀ a ∈ remaining, ∃ b ∈ selected, conflict a b

section Rounds

variable (pick : List α → List α → Option α) (limit : ℕ)

/-- A property of selected and remaining candidates that every round keeps. -/
theorem select_induct (motive : List α → List α → Prop)
    (hround : ∀ {selected remaining a}, selected.length < limit →
      pick selected remaining = some a → motive selected remaining →
        motive (selected ++ [a]) (remaining.erase a))
    (fuel : ℕ) (selected remaining : List α) (h : motive selected remaining) :
    ∃ rest, motive (select pick limit fuel selected remaining) rest := by
  induction fuel generalizing selected remaining with
  | zero => exact ⟨remaining, h⟩
  | succ fuel ih =>
    unfold select
    split_ifs with hlimit
    · exact ⟨remaining, h⟩
    · cases hpick : pick selected remaining with
      | none => exact ⟨remaining, h⟩
      | some a => exact ih _ _ (hround (Nat.lt_of_not_le hlimit) hpick h)

end Rounds

variable {pick : List α → List α → Option α}

/-- The selected and the remaining candidates are the ones there were. -/
theorem perm_select (htakes : Takes pick) (limit fuel : ℕ) (all : List α) :
    ∃ rest, (select pick limit fuel [] all ++ rest).Perm all := by
  refine select_induct pick limit (fun selected remaining => (selected ++ remaining).Perm all) ?_
    fuel [] all (List.Perm.refl all)
  intro selected remaining a _ hpick h
  rw [List.append_assoc]
  exact ((List.perm_cons_erase (htakes hpick)).symm.append_left selected).trans h

theorem nodup_select (htakes : Takes pick) (limit fuel : ℕ) {all : List α} (h : all.Nodup) :
    (select pick limit fuel [] all).Nodup := by
  obtain ⟨rest, hperm⟩ := perm_select htakes limit fuel all
  exact (hperm.nodup_iff.mpr h).of_append_left

theorem mem_of_mem_select (htakes : Takes pick) {limit fuel : ℕ} {all : List α} {a : α}
    (h : a ∈ select pick limit fuel [] all) : a ∈ all := by
  obtain ⟨rest, hperm⟩ := perm_select htakes limit fuel all
  exact hperm.mem_iff.mp (List.mem_append_left rest h)

theorem length_select_le (limit fuel : ℕ) (all : List α) :
    (select pick limit fuel [] all).length ≤ limit := by
  obtain ⟨-, hlength⟩ := select_induct pick limit (fun selected _ => selected.length ≤ limit)
    (fun {selected _ a} hlimit _ _ => by
      rw [List.length_append, List.length_singleton]
      omega) fuel [] all (Nat.zero_le limit)
  exact hlength

/-- No selected candidate conflicts with one that was selected before it. -/
theorem pairwise_select {conflict : α → α → Prop} (havoids : Avoids pick conflict)
    (limit fuel : ℕ) (all : List α) :
    (select pick limit fuel [] all).Pairwise fun b a => ¬ conflict a b := by
  obtain ⟨-, hpairs⟩ := select_induct pick limit
    (fun selected _ => selected.Pairwise fun b a => ¬ conflict a b)
    (fun {selected _ a} _ hpick h => List.pairwise_append.mpr
      ⟨h, List.pairwise_singleton _ _, fun b hb x hx =>
        List.mem_singleton.mp hx ▸ havoids.free hpick b hb⟩) fuel [] all
    List.Pairwise.nil
  exact hpairs

/-- The selection goes on from what is selected already. -/
theorem isPrefix_select (limit fuel : ℕ) (selected remaining : List α) :
    selected <+: select pick limit fuel selected remaining := by
  obtain ⟨-, hstarts⟩ := select_induct pick limit (fun selected' _ => selected <+: selected')
    (fun {_ _ a} _ _ h => h.trans (List.prefix_append _ [a])) fuel selected remaining
    (List.prefix_refl selected)
  exact hstarts

omit [DecidableEq α] in
theorem pick_nil (htakes : Takes pick) (selected : List α) : pick selected [] = none := by
  cases hpick : pick selected [] with
  | none => rfl
  | some a => exact absurd (htakes hpick) List.not_mem_nil

theorem select_nil (htakes : Takes pick) (limit fuel : ℕ) (selected : List α) :
    select pick limit fuel selected [] = selected := by
  cases fuel with
  | zero => rfl
  | succ fuel =>
    rw [select, pick_nil htakes selected]
    split_ifs <;> rfl

/-- As many rounds as there are candidates are enough. -/
theorem select_of_length_le (htakes : Takes pick) {limit fuel fuel' : ℕ}
    {selected remaining : List α}
    (h : remaining.length ≤ fuel) (h' : remaining.length ≤ fuel') :
    select pick limit fuel selected remaining = select pick limit fuel' selected remaining := by
  induction fuel generalizing fuel' selected remaining with
  | zero =>
    obtain rfl : remaining = [] := List.eq_nil_of_length_eq_zero (Nat.le_zero.mp h)
    rw [select_nil htakes, select_nil htakes]
  | succ fuel ih =>
    cases fuel' with
    | zero =>
      obtain rfl : remaining = [] := List.eq_nil_of_length_eq_zero (Nat.le_zero.mp h')
      rw [select_nil htakes, select_nil htakes]
    | succ fuel' =>
      unfold select
      split_ifs
      · rfl
      · cases hpick : pick selected remaining with
        | none => rfl
        | some a =>
          have hlength := List.length_erase_of_mem (htakes hpick)
          exact ih (by omega) (by omega)

/-- A candidate that is left out below the limit conflicts with a selected one. -/
theorem exists_conflict {conflict : α → α → Prop} (htakes : Takes pick)
    (havoids : Avoids pick conflict) {limit fuel : ℕ} {selected remaining : List α}
    (hfuel : remaining.length ≤ fuel)
    (hlimit : (select pick limit fuel selected remaining).length < limit) {a : α}
    (ha : a ∈ remaining) (hnot : a ∉ select pick limit fuel selected remaining) :
    ∃ b ∈ select pick limit fuel selected remaining, conflict a b := by
  induction fuel generalizing selected remaining with
  | zero =>
    obtain rfl : remaining = [] := List.eq_nil_of_length_eq_zero (Nat.le_zero.mp hfuel)
    exact absurd ha List.not_mem_nil
  | succ fuel ih =>
    unfold select at hlimit hnot ⊢
    split_ifs at hlimit hnot ⊢ with hfull
    · omega
    · cases hpick : pick selected remaining with
      | none =>
        rw [hpick] at hlimit hnot
        exact havoids.full hpick a ha
      | some chosen =>
        rw [hpick] at hlimit hnot
        have hlength := List.length_erase_of_mem (htakes hpick)
        have hselected : chosen ∈ select pick limit fuel (selected ++ [chosen])
            (remaining.erase chosen) :=
          (isPrefix_select limit fuel _ _).subset
            (List.mem_append_right _ (List.mem_singleton_self _))
        have hne : a ≠ chosen := fun heq => hnot (heq ▸ hselected)
        exact ih (by omega) hlimit ((List.mem_erase_of_ne hne).mpr ha) hnot

end Greedy
