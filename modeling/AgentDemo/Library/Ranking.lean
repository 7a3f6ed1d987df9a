import Mathlib.Data.List.Nodup
import Mathlib.Data.List.Sort
import Mathlib.Order.Defs.LinearOrder

/-! The first entries of a list in the order of their keys. -/
namespace Ranking

variable {α K : Type*} [LinearOrder K]

/-- The list in the order of the keys; entries with one key stay as they are. -/
def sortBy (key : α → K) (l : List α) : List α :=
  l.mergeSort fun a b => key a ≤ key b

theorem perm_sortBy (key : α → K) (l : List α) : (sortBy key l).Perm l :=
  List.mergeSort_perm _ _

theorem pairwise_sortBy (key : α → K) (l : List α) :
    (sortBy key l).Pairwise fun a b => key a ≤ key b := by
  have hsorted : (sortBy key l).Pairwise fun a b => decide (key a ≤ key b) = true := by
    unfold sortBy
    apply List.pairwise_mergeSort
    · intro a b c hab hbc
      exact decide_eq_true (le_trans (of_decide_eq_true hab) (of_decide_eq_true hbc))
    · intro a b
      simp only [Bool.or_eq_true, decide_eq_true_eq]
      exact le_total _ _
  simpa only [decide_eq_true_eq] using hsorted

theorem nodup_map_sortBy {β : Type*} {key : α → K} {f : α → β} {l : List α} (h : (l.map f).Nodup) :
    ((sortBy key l).map f).Nodup :=
  ((perm_sortBy key l).map f).nodup_iff.mpr h

theorem pairwise_lt_sortBy {key : α → K} {l : List α} (h : (l.map key).Nodup) :
    (sortBy key l).Pairwise fun a b => key a < key b := by
  have hne : (sortBy key l).Pairwise fun a b => key a ≠ key b :=
    List.pairwise_map.mp (nodup_map_sortBy h)
  exact ((pairwise_sortBy key l).and hne).imp fun hab => lt_of_le_of_ne hab.1 hab.2

/-- An entry that is left out comes after every entry that is taken. -/
theorem le_of_mem_take {key : α → K} {l : List α} {n : ℕ} {a b : α}
    (ha : a ∈ (sortBy key l).take n) (hb : b ∈ l) (hnot : b ∉ (sortBy key l).take n) :
    key a ≤ key b := by
  have hsorted := pairwise_sortBy key l
  rw [← List.take_append_drop n (sortBy key l), List.pairwise_append] at hsorted
  have hmem : b ∈ sortBy key l := (perm_sortBy key l).mem_iff.mpr hb
  rw [← List.take_append_drop n (sortBy key l), List.mem_append] at hmem
  exact hsorted.2.2 a ha b (hmem.resolve_left hnot)

/-- Without repeated keys, the order depends on the entries only. -/
theorem sortBy_eq_of_perm {key : α → K} {l l' : List α} (h : l.Perm l')
    (hnodup : (l.map key).Nodup) :
    sortBy key l = sortBy key l' := by
  have hperm : (sortBy key l).Perm (sortBy key l') :=
    (perm_sortBy key l).trans (h.trans (perm_sortBy key l').symm)
  refine hperm.eq_of_pairwise ?_ (pairwise_sortBy key l) (pairwise_sortBy key l')
  intro a b ha hb hab hba
  have ha' : a ∈ l := (perm_sortBy key l).mem_iff.mp ha
  have hb' : b ∈ l := h.mem_iff.mpr ((perm_sortBy key l').mem_iff.mp hb)
  exact List.inj_on_of_nodup_map hnodup ha' hb' (le_antisymm hab hba)

end Ranking
