import Mathlib.Data.List.Nodup
import Mathlib.Data.List.Perm.Subperm

/-! Tables of rows with a primary key. No two rows of a table share their key, so a
look-up by key and membership say the same thing. -/

/-- Replacing an entry by one with the same image leaves the images alone. -/
theorem map_set_of_getElem? {α β : Type*} {f : α → β} {l : List α} {i : ℕ} {x y : α}
    (hi : l[i]? = some x) (h : f y = f x) : (l.set i y).map f = l.map f := by
  rw [List.map_set]
  refine List.ext_getElem? fun j => ?_
  rw [List.getElem?_set]
  split_ifs with hij hlt
  · subst hij
    rw [List.getElem?_map, hi, h]
    rfl
  · subst hij
    have hlen : i < l.length := (List.getElem?_eq_some_iff.mp hi).1
    rw [List.length_map] at hlt
    exact absurd hlen hlt
  · rfl

/-- The primary key of a kind of row. -/
class Keyed (R : Type*) (K : outParam Type*) where
  key : R → K

structure Table (R : Type*) {K : Type*} [Keyed R K] where
  rows : List R
  nodup : (rows.map Keyed.key).Nodup

namespace Table

variable {R K : Type*} [Keyed R K]

def empty : Table R := ⟨[], by simp⟩

def update (t : Table R) (f : R → R) (hf : ∀ r, Keyed.key (f r) = Keyed.key r) : Table R :=
  ⟨t.rows.map f, by simpa [Function.comp_def, hf] using t.nodup⟩

/-- `DELETE … WHERE`: the rows that meet the condition stay. -/
def filter (t : Table R) (keep : R → Bool) : Table R :=
  ⟨t.rows.filter keep, t.nodup.sublist (List.filter_sublist.map _)⟩

theorem mem_filter {t : Table R} {keep : R → Bool} {x : R} :
    x ∈ (t.filter keep).rows ↔ x ∈ t.rows ∧ keep x = true := List.mem_filter

/-- Rows that are named by some keys are not more than the keys. -/
theorem length_filter_le {t : Table R} {keep : R → Bool} {keys : List K}
    (h : ∀ r ∈ t.rows, keep r = true → Keyed.key r ∈ keys) :
    (t.rows.filter keep).length ≤ keys.length := by
  have hnodup : ((t.rows.filter keep).map Keyed.key).Nodup :=
    t.nodup.sublist (List.filter_sublist.map _)
  have hsubset : (t.rows.filter keep).map Keyed.key ⊆ keys := by
    intro k hk
    obtain ⟨r, hr, rfl⟩ := List.mem_map.mp hk
    obtain ⟨hmem, hkeep⟩ := List.mem_filter.mp hr
    exact h r hmem hkeep
  have hle := (hnodup.subperm hsubset).length_le
  rwa [List.length_map] at hle

theorem mem_update {t : Table R} {f : R → R} {hf : ∀ r, Keyed.key (f r) = Keyed.key r} {x : R} :
    x ∈ (t.update f hf).rows ↔ ∃ r ∈ t.rows, f r = x := by
  simp [update]

theorem eq_of_key {t : Table R} {r r' : R} (h : r ∈ t.rows) (h' : r' ∈ t.rows)
    (hk : Keyed.key r = Keyed.key r') : r = r' :=
  List.inj_on_of_nodup_map t.nodup h h' hk

variable [DecidableEq K]

/-- `SELECT` by primary key. -/
def get? (t : Table R) (k : K) : Option R := t.rows.find? fun r => Keyed.key r = k

/-- `UPDATE` of the row with the key of `r`; nothing happens when there is none. -/
def write (t : Table R) (r : R) : Table R :=
  t.update (fun x => if Keyed.key x = Keyed.key r then r else x) (by
    intro x
    by_cases h : Keyed.key x = Keyed.key r <;> simp [h])

/-- `DELETE` by primary key. -/
def delete (t : Table R) (k : K) : Table R :=
  ⟨t.rows.filter fun r => Keyed.key r ≠ k, t.nodup.sublist (List.filter_sublist.map _)⟩

/-- `INSERT`; `none` is the primary key violation. -/
def insert? (t : Table R) (r : R) : Option (Table R) :=
  if h : Keyed.key r ∈ t.rows.map Keyed.key then none
  else some ⟨t.rows ++ [r], by
    rw [List.map_append, List.nodup_append]
    refine ⟨t.nodup, by simp, ?_⟩
    rintro a ha b hb rfl
    have hb : a = Keyed.key r := by simpa using hb
    exact h (hb ▸ ha)⟩

theorem get?_eq_some {t : Table R} {k : K} {r : R} :
    t.get? k = some r ↔ r ∈ t.rows ∧ Keyed.key r = k := by
  constructor
  · intro h
    exact ⟨List.mem_of_find?_eq_some h, by simpa using List.find?_some h⟩
  · rintro ⟨hr, hk⟩
    cases hf : t.get? k with
    | none =>
      have := List.find?_eq_none.mp hf r hr
      simp [hk] at this
    | some x =>
      have hx : x ∈ t.rows := List.mem_of_find?_eq_some hf
      have hxk : Keyed.key x = k := by simpa using List.find?_some hf
      rw [eq_of_key hx hr (hxk.trans hk.symm)]

theorem get?_eq_none {t : Table R} {k : K} :
    t.get? k = none ↔ ∀ r ∈ t.rows, Keyed.key r ≠ k := by
  simp [get?]

@[simp] theorem get?_empty (k : K) : (empty : Table R).get? k = none := rfl

@[simp] theorem get?_update (t : Table R) (f : R → R) (hf : ∀ r, Keyed.key (f r) = Keyed.key r)
    (k : K) : (t.update f hf).get? k = (t.get? k).map f := by
  simp only [get?, update, List.find?_map, Function.comp_def, hf]

theorem get?_write (t : Table R) (r : R) (k : K) :
    (t.write r).get? k = if Keyed.key r = k then (t.get? k).map fun _ => r else t.get? k := by
  rw [write, get?_update]
  cases hx : t.get? k with
  | none => simp
  | some x =>
    have hk := (get?_eq_some.mp hx).2
    subst hk
    by_cases h : Keyed.key r = Keyed.key x
    · simp [h]
    · simp [h, Ne.symm h]

theorem mem_write {t : Table R} {r x : R} (h : x ∈ (t.write r).rows) :
    x = r ∨ x ∈ t.rows := by
  obtain ⟨y, hy, rfl⟩ := mem_update.mp h
  split_ifs
  · exact Or.inl rfl
  · exact Or.inr hy

theorem of_mem_write {t : Table R} {r x : R} (h : x ∈ (t.write r).rows) :
    x = r ∨ (x ∈ t.rows ∧ Keyed.key x ≠ Keyed.key r) := by
  obtain ⟨y, hy, rfl⟩ := mem_update.mp h
  split_ifs with hkey
  · exact Or.inl rfl
  · exact Or.inr ⟨hy, hkey⟩

theorem mem_write_of_ne {t : Table R} {r x : R} (h : x ∈ t.rows) (hne : Keyed.key x ≠ Keyed.key r) :
    x ∈ (t.write r).rows :=
  mem_update.mpr ⟨x, h, if_neg hne⟩

theorem mem_delete {t : Table R} {k : K} {x : R} :
    x ∈ (t.delete k).rows ↔ x ∈ t.rows ∧ Keyed.key x ≠ k := by
  simp [delete]

theorem get?_insert? {t t' : Table R} {r : R} (h : t.insert? r = some t') (k : K) :
    t'.get? k = if Keyed.key r = k then some r else t.get? k := by
  unfold insert? at h
  split_ifs at h with hmem
  cases Option.some.inj h
  have hnone : t.get? (Keyed.key r) = none := by
    refine get?_eq_none.mpr fun x hx hk => hmem ?_
    exact List.mem_map.mpr ⟨x, hx, hk⟩
  by_cases hk : Keyed.key r = k
  · subst hk
    simp only [get?] at hnone
    simp [get?, List.find?_append, hnone]
  · simp [get?, List.find?_append, hk]

theorem rows_insert? {t t' : Table R} {r : R} (h : t.insert? r = some t') :
    t'.rows = t.rows ++ [r] := by
  unfold insert? at h
  split_ifs at h
  cases Option.some.inj h
  rfl

theorem insert?_inj {t t' : Table R} {r r' : R} (h : t.insert? r = some t')
    (h' : t.insert? r' = some t') : r = r' := by
  have heq := (rows_insert? h).symm.trans (rows_insert? h')
  simpa using heq

theorem insert?_fresh {t t' : Table R} {r : R} (h : t.insert? r = some t') :
    t.get? (Keyed.key r) = none := by
  unfold insert? at h
  split_ifs at h with hmem
  exact get?_eq_none.mpr fun x hx hk => hmem (List.mem_map.mpr ⟨x, hx, hk⟩)

theorem insert?_of_fresh {t : Table R} {r : R} (h : t.get? (Keyed.key r) = none) :
    ∃ t', t.insert? r = some t' := by
  have hne : Keyed.key r ∉ t.rows.map Keyed.key := by
    intro hmem
    obtain ⟨x, hx, hk⟩ := List.mem_map.mp hmem
    exact get?_eq_none.mp h x hx hk
  unfold insert?
  exact ⟨_, dif_neg hne⟩

/-- Rows have only been added, each with the property `P`. -/
def Extends (P : R → Prop) (t t' : Table R) : Prop :=
  ∀ k, t'.get? k = t.get? k ∨ (t.get? k = none ∧ ∃ r, P r ∧ t'.get? k = some r)

namespace Extends

variable {P : R → Prop} {t t' t'' : Table R}

theorem refl (t : Table R) : Extends P t t := fun _ => Or.inl rfl

theorem imp {Q : R → Prop} (h : Extends P t t') (hPQ : ∀ r, P r → Q r) : Extends Q t t' :=
  fun k => (h k).imp_right fun ⟨hnone, r, hr, hsome⟩ => ⟨hnone, r, hPQ r hr, hsome⟩

theorem trans (h : Extends P t t') (h' : Extends P t' t'') : Extends P t t'' := by
  intro k
  rcases h k with heq | ⟨hnone, r, hr, hsome⟩
  · rw [← heq]
    exact h' k
  · refine Or.inr ⟨hnone, r, hr, ?_⟩
    rcases h' k with heq' | ⟨hnone', -⟩
    · rw [heq', hsome]
    · simp [hsome] at hnone'

theorem of_insert? {r : R} (h : t.insert? r = some t') (hr : P r) : Extends P t t' := by
  intro k
  rw [get?_insert? h]
  by_cases hk : Keyed.key r = k
  · subst hk
    exact Or.inr ⟨insert?_fresh h, r, hr, by simp⟩
  · exact Or.inl (if_neg hk)

end Extends

end Table
