import AgentDemo.Library.Table

/-! The rows of a table that meet a condition, and the statements that act on them alone. -/
namespace Table

variable {R K : Type*} [Keyed R K]

theorem eq_of_rows {t t' : Table R} (h : t.rows = t'.rows) : t = t' := by
  cases t
  cases t'
  cases h
  rfl

@[simp] theorem rows_filter (t : Table R) (keep : R → Bool) :
    (t.filter keep).rows = t.rows.filter keep := rfl

@[simp] theorem rows_update (t : Table R) (f : R → R) (hf : ∀ r, Keyed.key (f r) = Keyed.key r) :
    (t.update f hf).rows = t.rows.map f := rfl

/-- An update of rows that stay where they are. -/
theorem filter_update {t : Table R} {keep : R → Bool} {f : R → R}
    {hf : ∀ r, Keyed.key (f r) = Keyed.key r} (h : ∀ r ∈ t.rows, keep (f r) = keep r) :
    (t.update f hf).filter keep = (t.filter keep).update f hf := by
  apply eq_of_rows
  simp only [rows_filter, rows_update, List.filter_map]
  congr 1
  exact List.filter_congr h

theorem update_of_fixed {t : Table R} {f : R → R} {hf : ∀ r, Keyed.key (f r) = Keyed.key r}
    (h : ∀ r ∈ t.rows, f r = r) : t.update f hf = t := by
  apply eq_of_rows
  exact (List.map_congr_left h).trans (List.map_id' _)

theorem filter_of_all {t : Table R} {keep : R → Bool} (h : ∀ r ∈ t.rows, keep r = true) :
    t.filter keep = t := by
  apply eq_of_rows
  exact List.filter_eq_self.mpr h

variable [DecidableEq K]

theorem get?_filter (t : Table R) (keep : R → Bool) (k : K) :
    (t.filter keep).get? k = (t.get? k).filter keep := by
  cases hget : t.get? k with
  | none =>
    refine get?_eq_none.mpr fun r hr => ?_
    exact get?_eq_none.mp hget r (mem_filter.mp hr).1
  | some r =>
    obtain ⟨hr, hk⟩ := get?_eq_some.mp hget
    cases hkeep : keep r with
    | true =>
      rw [Option.filter_some, if_pos hkeep]
      exact get?_eq_some.mpr ⟨mem_filter.mpr ⟨hr, hkeep⟩, hk⟩
    | false =>
      rw [Option.filter_some, if_neg (by simp [hkeep])]
      refine get?_eq_none.mpr fun x hx hxk => ?_
      obtain ⟨hx, hkept⟩ := mem_filter.mp hx
      obtain rfl := eq_of_key hx hr (hxk.trans hk.symm)
      simp [hkeep] at hkept

theorem get?_delete (t : Table R) (k k' : K) :
    (t.delete k).get? k' = if k' = k then none else t.get? k' := by
  have hget : (t.delete k).get? k' = (t.get? k').filter fun r => Keyed.key r ≠ k :=
    get?_filter t _ k'
  rw [hget]
  cases hrow : t.get? k' with
  | none => simp
  | some r =>
    obtain ⟨-, rfl⟩ := get?_eq_some.mp hrow
    simp [Option.filter_some]

/-- A write of a row that is counted like the one it replaces. -/
theorem filter_write {t : Table R} {keep : R → Bool} {r x : R}
    (hget : t.get? (Keyed.key r) = some x) (h : keep r = keep x) :
    (t.write r).filter keep = (t.filter keep).write r := by
  refine filter_update fun y hy => ?_
  split_ifs with hk
  · obtain rfl := Option.some.inj (hget.symm.trans (get?_eq_some.mpr ⟨hy, hk⟩))
    exact h
  · rfl

theorem write_of_get?_none {t : Table R} {r : R} (h : t.get? (Keyed.key r) = none) :
    t.write r = t := by
  refine update_of_fixed fun x hx => ?_
  exact if_neg (get?_eq_none.mp h x hx)

theorem delete_of_get?_none {t : Table R} {k : K} (h : t.get? k = none) : t.delete k = t := by
  refine filter_of_all fun x hx => ?_
  simpa using get?_eq_none.mp h x hx

/-- A write of a row that is not counted, and neither was the one it replaces. -/
theorem filter_write_of_not {t : Table R} {keep : R → Bool} {r x : R}
    (hget : t.get? (Keyed.key r) = some x) (hx : keep x = false) (hr : keep r = false) :
    (t.write r).filter keep = t.filter keep := by
  rw [filter_write hget (hr.trans hx.symm)]
  refine write_of_get?_none ?_
  rw [get?_filter, hget, Option.filter_some, if_neg]
  simp [hx]

theorem filter_insert?_of_not {t t' : Table R} {keep : R → Bool} {r : R}
    (h : t.insert? r = some t') (hr : keep r = false) : t'.filter keep = t.filter keep := by
  apply eq_of_rows
  simp [rows_insert? h, hr]

/-- An insertion of a fresh row that meets the condition. -/
theorem insert?_filter {t : Table R} {keep : R → Bool} {r : R}
    (hfresh : t.get? (Keyed.key r) = none) (hr : keep r = true) :
    (t.filter keep).insert? r = (t.insert? r).map fun t' => t'.filter keep := by
  have hfresh' : (t.filter keep).get? (Keyed.key r) = none := by
    rw [get?_filter, hfresh]
    rfl
  obtain ⟨inserted, h⟩ := insert?_of_fresh hfresh
  obtain ⟨after, hafter⟩ := insert?_of_fresh hfresh'
  rw [hafter, h, Option.map_some]
  refine congrArg some (eq_of_rows ?_)
  simp [rows_insert? hafter, rows_insert? h, hr]

theorem filter_delete (t : Table R) (keep : R → Bool) (k : K) :
    (t.delete k).filter keep = (t.filter keep).delete k := by
  apply eq_of_rows
  simp only [rows_filter, delete, List.filter_filter]
  exact List.filter_congr fun x _ => Bool.and_comm _ _

end Table
