import Mathlib.Data.List.Sort
import Mathlib.Order.Basic

/-! Queries with a condition, a total order and a limit, over rows in any physical order. -/
namespace Query

variable {R K : Type*} [LinearOrder K]

/-- `SELECT … WHERE keep ORDER BY key LIMIT limit`. -/
def select (keep : R → Bool) (key : R → K) (limit : ℕ) (rows : List R) : List R :=
  ((rows.filter keep).insertionSort fun r r' => key r ≤ key r').take limit

/-- Two sorted lists of the same rows are equal when the order decides between the rows. -/
theorem insertionSort_congr {key : R → K} {rows rows' : List R} (h : rows.Perm rows')
    (hkey : ∀ r ∈ rows, ∀ r' ∈ rows, key r = key r' → r = r') :
    (rows.insertionSort fun r r' => key r ≤ key r') =
      rows'.insertionSort fun r r' => key r ≤ key r' := by
  have : Std.Total fun r r' : R => key r ≤ key r' := ⟨fun r r' => le_total _ _⟩
  have : IsTrans R fun r r' => key r ≤ key r' := ⟨fun _ _ _ hab hbc => hab.trans hbc⟩
  have hperm := (List.perm_insertionSort (fun r r' => key r ≤ key r') rows).trans
    (h.trans (List.perm_insertionSort (fun r r' => key r ≤ key r') rows').symm)
  refine hperm.eq_of_pairwise (fun r r' hr hr' hle hge => ?_)
    (List.pairwise_insertionSort _ _) (List.pairwise_insertionSort _ _)
  refine hkey r ?_ r' ?_ (le_antisymm hle hge)
  · exact (List.perm_insertionSort _ _).subset hr
  · exact h.symm.subset ((List.perm_insertionSort _ _).subset hr')

/-- Rows that a query does not keep have no influence on it. -/
theorem select_congr {keep : R → Bool} {key : R → K} {rows rows' : List R} (limit : ℕ)
    (hnodup : rows.Nodup) (hnodup' : rows'.Nodup)
    (hagree : ∀ r, keep r = true → (r ∈ rows ↔ r ∈ rows'))
    (hkey : ∀ r ∈ rows, ∀ r' ∈ rows, key r = key r' → r = r') :
    select keep key limit rows = select keep key limit rows' := by
  have hperm : (rows.filter keep).Perm (rows'.filter keep) := by
    refine (List.perm_ext_iff_of_nodup (hnodup.filter _) (hnodup'.filter _)).mpr fun r => ?_
    rw [List.mem_filter, List.mem_filter]
    exact and_congr_left (hagree r)
  rw [select, select, insertionSort_congr hperm]
  intro r hr r' hr'
  exact hkey r (List.mem_of_mem_filter hr) r' (List.mem_of_mem_filter hr')

end Query
