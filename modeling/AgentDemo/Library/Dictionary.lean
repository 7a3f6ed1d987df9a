import Mathlib.Data.List.Nodup
import Mathlib.Data.List.Perm.Basic

/-! Dictionaries as lists of keys with values, in the order in which the keys have come. -/
namespace Dictionary

variable {K V : Type*} [DecidableEq K]

/-- `d[key] = value`. -/
def put (d : List (K × V)) (key : K) (value : V) : List (K × V) :=
  if d.any (·.1 = key) then d.map fun p => if p.1 = key then (key, value) else p
  else d ++ [(key, value)]

theorem any_eq_true_iff {d : List (K × V)} {key : K} :
    (d.any (·.1 = key)) = true ↔ key ∈ d.map Prod.fst := by
  rw [List.any_eq_true, List.mem_map]
  constructor
  · rintro ⟨p, hp, heq⟩
    exact ⟨p, hp, of_decide_eq_true heq⟩
  · rintro ⟨p, hp, heq⟩
    exact ⟨p, hp, decide_eq_true heq⟩

theorem keys_put (d : List (K × V)) (key : K) (value : V) : (put d key value).map Prod.fst =
    if key ∈ d.map Prod.fst then d.map Prod.fst else d.map Prod.fst ++ [key] := by
  unfold put
  by_cases h : key ∈ d.map Prod.fst
  · rw [if_pos (any_eq_true_iff.mpr h), if_pos h, List.map_map]
    refine List.map_congr_left fun p _ => ?_
    by_cases hp : p.1 = key <;> simp [hp]
  · rw [if_neg (any_eq_true_iff.not.mpr h), if_neg h, List.map_append]
    rfl

theorem mem_keys_put {d : List (K × V)} {key k : K} {value : V} :
    k ∈ (put d key value).map Prod.fst ↔ k = key ∨ k ∈ d.map Prod.fst := by
  rw [keys_put]
  split_ifs with h
  · constructor
    · exact Or.inr
    · rintro (rfl | hk)
      · exact h
      · exact hk
  · rw [List.mem_append, List.mem_singleton, or_comm]

theorem nodup_put {d : List (K × V)} (h : (d.map Prod.fst).Nodup) (key : K) (value : V) :
    ((put d key value).map Prod.fst).Nodup := by
  rw [keys_put]
  split_ifs with hmem
  · exact h
  · exact List.nodup_append.mpr ⟨h, List.nodup_singleton _, fun a ha b hb hab => by
      rw [List.mem_singleton] at hb
      exact hmem (hb ▸ hab ▸ ha)⟩

/-- `d.pop(key, None)`. -/
def pop (d : List (K × V)) (key : K) : List (K × V) := d.filter (·.1 ≠ key)

theorem keys_pop_sublist (d : List (K × V)) (key : K) :
    List.Sublist ((pop d key).map Prod.fst) (d.map Prod.fst) :=
  (List.filter_sublist).map Prod.fst

theorem length_pop_le (d : List (K × V)) (key : K) : (pop d key).length ≤ d.length :=
  List.length_filter_le _ _

variable [BEq K] [LawfulBEq K]

omit [DecidableEq K] in
theorem lookup_eq_none {d : List (K × V)} {k : K} : d.lookup k = none ↔ k ∉ d.map Prod.fst := by
  rw [List.lookup_eq_none_iff, List.mem_map]
  constructor
  · rintro h ⟨p, hp, rfl⟩
    exact absurd (h p hp) (by simp)
  · intro h p hp
    rw [bne_iff_ne]
    rintro rfl
    exact h ⟨p, hp, rfl⟩

theorem lookup_replace (d : List (K × V)) (key k : K) (value : V) :
    (d.map fun p => if p.1 = key then (key, value) else p).lookup k =
      if k = key then (d.lookup k).map fun _ => value else d.lookup k := by
  induction d with
  | nil => simp
  | cons p rest ih =>
    rw [List.map_cons, List.lookup_cons, List.lookup_cons, ih]
    by_cases hp : p.1 = key
    · by_cases hk : k = key
      · simp [hp, hk]
      · have hne : (k == key) = false := beq_eq_false_iff_ne.mpr hk
        simp [hp, hk, hne]
    · by_cases hk : k = key
      · have hne : (key == p.1) = false := beq_eq_false_iff_ne.mpr (Ne.symm hp)
        simp [hp, hk, hne]
      · simp [hp, hk]

theorem lookup_put (d : List (K × V)) (key k : K) (value : V) :
    (put d key value).lookup k = if k = key then some value else d.lookup k := by
  unfold put
  by_cases h : key ∈ d.map Prod.fst
  · rw [if_pos (any_eq_true_iff.mpr h), lookup_replace]
    by_cases hk : k = key
    · subst hk
      obtain ⟨v, hv⟩ := Option.ne_none_iff_exists'.mp (lookup_eq_none.not.mpr (not_not.mpr h))
      rw [if_pos rfl, if_pos rfl, hv]
      rfl
    · rw [if_neg hk, if_neg hk]
  · rw [if_neg (any_eq_true_iff.not.mpr h), List.lookup_append]
    by_cases hk : k = key
    · subst hk
      rw [lookup_eq_none.mpr h, if_pos rfl, List.lookup_cons]
      simp
    · have hne : (k == key) = false := beq_eq_false_iff_ne.mpr hk
      rw [if_neg hk, List.lookup_cons, hne]
      simp

/-- An entry of a dictionary is what its key is looked up to. -/
theorem mem_iff_lookup {d : List (K × V)} (h : (d.map Prod.fst).Nodup) {k : K} {v : V} :
    (k, v) ∈ d ↔ d.lookup k = some v := by
  induction d with
  | nil => simp
  | cons p rest ih =>
    rw [List.map_cons, List.nodup_cons] at h
    rw [List.mem_cons, List.lookup_cons]
    by_cases hk : k = p.1
    · subst hk
      have hrest : (p.1, v) ∉ rest := fun hmem =>
        h.1 (List.mem_map.mpr ⟨_, hmem, rfl⟩)
      simp only [hrest, or_false, beq_self_eq_true, Option.some.injEq]
      constructor
      · intro heq
        rw [← heq]
      · rintro rfl
        rfl
    · have hne : (k == p.1) = false := beq_eq_false_iff_ne.mpr hk
      have hhead : (k, v) ≠ p := fun heq => hk (congrArg Prod.fst heq)
      simp only [hhead, false_or, hne]
      exact ih h.2

theorem length_put (d : List (K × V)) (key : K) (value : V) :
    (put d key value).length = if key ∈ d.map Prod.fst then d.length else d.length + 1 := by
  rw [← List.length_map (f := Prod.fst), keys_put]
  split_ifs <;> simp

theorem lookup_pop (d : List (K × V)) (key k : K) :
    (pop d key).lookup k = if k = key then none else d.lookup k := by
  induction d with
  | nil => simp [pop]
  | cons p rest ih =>
    unfold pop at ih ⊢
    rw [List.filter_cons, List.lookup_cons]
    by_cases hp : p.1 = key
    · rw [if_neg (by simpa using hp), ih]
      by_cases hk : k = key
      · rw [if_pos hk, if_pos hk]
      · have hne : (k == p.1) = false := beq_eq_false_iff_ne.mpr (hp ▸ hk)
        rw [if_neg hk, if_neg hk, hne]
    · rw [if_pos (by simpa using hp), List.lookup_cons, ih]
      by_cases hk : k = key
      · have hne : (k == p.1) = false := beq_eq_false_iff_ne.mpr fun h => hp (h.symm.trans hk)
        rw [if_pos hk, if_pos hk, hne]
      · rw [if_neg hk, if_neg hk]

/-- Dictionaries with the same values are the same but for the order of their keys. -/
theorem perm_of_lookup {d d' : List (K × V)} (h : (d.map Prod.fst).Nodup)
    (h' : (d'.map Prod.fst).Nodup) (hlookup : ∀ k, d.lookup k = d'.lookup k) : d.Perm d' := by
  refine (List.perm_ext_iff_of_nodup h.of_map h'.of_map).mpr fun p => ?_
  rw [mem_iff_lookup h, mem_iff_lookup h', hlookup]

end Dictionary
