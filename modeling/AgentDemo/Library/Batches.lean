import Mathlib.Data.List.Forall2

/-! A list cut into batches, and results of the batches put together again. -/
namespace Batches

variable {α β : Type*}

/-- `items[start : start + size] for start in range(0, len(items), size)`. -/
def split (size : ℕ) (items : List α) : List (List α) :=
  (List.range ((items.length + size - 1) / size)).map fun k => (items.drop (k * size)).take size

theorem split_nil {size : ℕ} (hsize : 0 < size) : split size ([] : List α) = [] := by
  have hcount : (([] : List α).length + size - 1) / size = 0 := by
    rw [List.length_nil, Nat.zero_add]
    exact Nat.div_eq_of_lt (by omega)
  rw [split, hcount]
  rfl

theorem split_of_ne_nil {size : ℕ} (hsize : 0 < size) {items : List α} (h : items ≠ []) :
    split size items = items.take size :: split size (items.drop size) := by
  have hpositive : 0 < items.length := List.length_pos_iff.mpr h
  have hcount : (items.length + size - 1) / size =
      ((items.drop size).length + size - 1) / size + 1 := by
    rw [List.length_drop]
    by_cases hle : size ≤ items.length
    · rw [← Nat.add_div_right _ hsize]
      congr 1
      omega
    · rw [show items.length - size = 0 by omega, Nat.zero_add,
        Nat.div_eq_of_lt (show size - 1 < size by omega)]
      exact Nat.div_eq_of_lt_le (by omega) (by omega)
  rw [split, hcount, List.range_succ_eq_map, List.map_cons, List.map_map, Nat.zero_mul,
    List.drop_zero]
  congr 1
  apply List.map_congr_left
  intro k _
  rw [Function.comp_apply, List.drop_drop, Nat.succ_mul, Nat.add_comm]

/-- The place of an item is its place in its batch. -/
theorem getElem?_split {size : ℕ} (hsize : 0 < size) {items : List α} {i : ℕ}
    (h : i < items.length) :
    (split size items)[i / size]? = some ((items.drop (i / size * size)).take size) := by
  have hcount : i / size < (items.length + size - 1) / size := by
    rw [Nat.div_lt_iff_lt_mul hsize]
    have hmod := Nat.div_add_mod (items.length + size - 1) size
    have hlt := Nat.mod_lt (items.length + size - 1) hsize
    rw [Nat.mul_comm] at hmod
    omega
  rw [split, List.getElem?_map, List.getElem?_range hcount]
  rfl

theorem mod_lt_length {size : ℕ} (hsize : 0 < size) {items : List α} {i : ℕ}
    (h : i < items.length) : i % size < ((items.drop (i / size * size)).take size).length := by
  have hmod := Nat.mod_lt i hsize
  have hdiv := Nat.div_add_mod i size
  rw [Nat.mul_comm] at hdiv
  rw [List.length_take, List.length_drop]
  omega

/-- Results of the lengths of their batches, put together, have the places of the items. -/
theorem getElem?_flatten {size : ℕ} (hsize : 0 < size) {items : List α} {results : List (List β)}
    (h : List.Forall₂ (fun batch result => result.length = batch.length) (split size items)
      results) :
    results.flatten.length = items.length ∧ ∀ i < items.length, ∃ result,
      results[i / size]? = some result ∧ results.flatten[i]? = result[i % size]? := by
  induction results generalizing items with
  | nil =>
    have hitems : items = [] := by
      by_contra hne
      rw [split_of_ne_nil hsize hne] at h
      exact absurd h (by simp)
    rw [hitems]
    exact ⟨rfl, fun i hi => absurd hi (Nat.not_lt_zero i)⟩
  | cons result results ih =>
    have hne : items ≠ [] := by
      rintro rfl
      rw [split_nil hsize] at h
      exact absurd h (by simp)
    rw [split_of_ne_nil hsize hne, List.forall₂_cons, List.length_take] at h
    obtain ⟨hlength, hrest⟩ := ih h.2
    rw [List.length_drop] at hlength hrest
    constructor
    · rw [List.flatten_cons, List.length_append, hlength, h.1]
      omega
    · intro i hi
      rw [List.flatten_cons]
      by_cases hfirst : i < size
      · refine ⟨result, ?_, ?_⟩
        · rw [Nat.div_eq_of_lt hfirst]
          rfl
        · rw [Nat.mod_eq_of_lt hfirst, List.getElem?_append_left (by omega)]
      · obtain ⟨r, hr, hget⟩ := hrest (i - size) (by omega)
        have hdiv : i / size = (i - size) / size + 1 := by
          rw [← Nat.add_div_right _ hsize]
          congr 1
          omega
        have hmod : i % size = (i - size) % size := Nat.mod_eq_sub_mod (Nat.le_of_not_lt hfirst)
        refine ⟨r, ?_, ?_⟩
        · rw [hdiv, List.getElem?_cons_succ]
          exact hr
        · rw [hmod, ← hget, List.getElem?_append_right (by omega), h.1]
          congr 1
          omega

theorem rel_of_getElem? {R : α → β → Prop} {as : List α} {bs : List β}
    (h : List.Forall₂ R as bs) {i : ℕ} {a : α} {b : β} (ha : as[i]? = some a)
    (hb : bs[i]? = some b) : R a b := by
  induction h generalizing i with
  | nil => simp at ha
  | cons hab _ ih =>
    cases i with
    | zero =>
      rw [List.getElem?_cons_zero, Option.some.injEq] at ha hb
      exact ha ▸ hb ▸ hab
    | succ i => exact ih ha hb

theorem exists_right_of_mem {R : α → β → Prop} {as : List α} {bs : List β}
    (h : List.Forall₂ R as bs) {a : α} (ha : a ∈ as) : ∃ b ∈ bs, R a b := by
  induction h with
  | nil => exact absurd ha List.not_mem_nil
  | cons hab _ ih =>
    rcases List.mem_cons.mp ha with rfl | hrest
    · exact ⟨_, List.mem_cons_self, hab⟩
    · obtain ⟨b, hb, hrel⟩ := ih hrest
      exact ⟨b, List.mem_cons_of_mem _ hb, hrel⟩

theorem exists_left_of_mem {R : α → β → Prop} {as : List α} {bs : List β}
    (h : List.Forall₂ R as bs) {b : β} (hb : b ∈ bs) : ∃ a ∈ as, R a b :=
  exists_right_of_mem h.flip hb

end Batches
