import Mathlib.Algebra.Order.Ring.Int
import Mathlib.Data.Int.Order.Basic
import Mathlib.Order.Bounds.Basic
import Mathlib.Tactic.Linarith
import Mathlib.Tactic.Ring

/-! The points of time of a set around a clock: the latest one that has come, and the next one. -/
namespace Occurrences

/-- The greatest point that is not after the clock. -/
def IsLatest (points : Set ℤ) (now t : ℤ) : Prop := IsGreatest {s | s ∈ points ∧ s ≤ now} t

/-- The least point after the clock. -/
def IsNext (points : Set ℤ) (now t : ℤ) : Prop := IsLeast {s | s ∈ points ∧ now < s} t

variable {points : Set ℤ} {now t next : ℤ}

/-- No point lies between the latest one and the next one. -/
theorem IsNext.of_isLatest (h : IsNext points now next) (ht : IsLatest points now t) :
    IsNext points t next := by
  refine ⟨⟨h.1.1, lt_of_le_of_lt ht.1.2 h.1.2⟩, ?_⟩
  rintro s ⟨hs, hts⟩
  apply h.2
  refine ⟨hs, ?_⟩
  by_contra hle
  exact absurd (ht.2 ⟨hs, not_lt.mp hle⟩) (not_le.mpr hts)

/-- A search through points in increasing order stops at the least one after the clock. -/
theorem isLeast_find? {l : List ℤ} (hl : l.Pairwise (· < ·)) (h : ∃ t ∈ l, now < t) :
    ∃ next, l.find? (fun t => now < t) = some next ∧ IsNext {t | t ∈ l} now next := by
  induction l with
  | nil => simp at h
  | cons t rest ih =>
    obtain ⟨hhead, hrest⟩ := List.pairwise_cons.mp hl
    by_cases hlt : now < t
    · refine ⟨t, List.find?_cons_of_pos (by simpa using hlt), ⟨List.mem_cons_self, hlt⟩, ?_⟩
      rintro s ⟨hs, -⟩
      rcases List.mem_cons.mp hs with rfl | hs
      · exact le_rfl
      · exact (hhead s hs).le
    · obtain ⟨s, hs, hlate⟩ := h
      have hs' : s ∈ rest := by
        rcases List.mem_cons.mp hs with rfl | hs
        · exact absurd hlate hlt
        · exact hs
      obtain ⟨next, hfind, hnext⟩ := ih hrest ⟨s, hs', hlate⟩
      rw [List.find?_cons_of_neg (by simpa using hlt)]
      refine ⟨next, hfind, ⟨List.mem_cons_of_mem t hnext.1.1, hnext.1.2⟩, ?_⟩
      rintro r ⟨hr, hr'⟩
      rcases List.mem_cons.mp hr with rfl | hr
      · exact absurd hr' hlt
      · exact hnext.2 ⟨hr, hr'⟩

/-- The points of a start and a step. -/
def grid (start step : ℤ) : Set ℤ := {t | ∃ k : ℕ, t = start + k * step}

theorem isLatest_grid {start step now : ℤ} (hstep : 0 < step) (h : start ≤ now) :
    IsLatest (grid start step) now (start + (now - start) / step * step) := by
  have hnonneg : 0 ≤ (now - start) / step := Int.ediv_nonneg (by linarith) hstep.le
  have hfloor := Int.ediv_mul_le (now - start) hstep.ne'
  refine ⟨⟨⟨((now - start) / step).toNat, ?_⟩, by linarith⟩, ?_⟩
  · rw [Int.toNat_of_nonneg hnonneg]
  · rintro t ⟨⟨k, rfl⟩, hle⟩
    have hk : (k : ℤ) ≤ (now - start) / step :=
      (Int.le_ediv_iff_mul_le hstep).mpr (by linarith)
    have hmul := Int.mul_le_mul_of_nonneg_right hk hstep.le
    linarith

theorem isNext_grid {start step now : ℤ} (hstep : 0 < step) (h : start ≤ now) :
    IsNext (grid start step) now (start + ((now - start) / step + 1) * step) := by
  have hnonneg : 0 ≤ (now - start) / step := Int.ediv_nonneg (by linarith) hstep.le
  have hfloor := Int.lt_ediv_add_one_mul_self (now - start) hstep
  refine ⟨⟨⟨((now - start) / step).toNat + 1, ?_⟩, by linarith⟩, ?_⟩
  · rw [Nat.cast_add, Int.toNat_of_nonneg hnonneg, Nat.cast_one]
  · rintro t ⟨⟨k, rfl⟩, hlt⟩
    have hk : (now - start) / step < (k : ℤ) := (Int.ediv_lt_iff_lt_mul hstep).mpr (by linarith)
    have hmul := Int.mul_le_mul_of_nonneg_right (Int.add_one_le_of_lt hk) hstep.le
    linarith

/-- One step later, the next point is found from there. -/
theorem next_from_step {start step now : ℤ} (hstep : 0 < step) :
    start + step + ((now - (start + step)) / step + 1) * step =
      start + ((now - start) / step + 1) * step := by
  have hdiv : (now - (start + step)) / step = (now - start) / step - 1 := by
    rw [show now - (start + step) = (now - start) + -1 * step by ring,
      Int.add_mul_ediv_right _ _ hstep.ne']
    ring
  rw [hdiv]
  ring

end Occurrences
