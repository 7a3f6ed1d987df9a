import Mathlib.Data.List.Basic

/-! Sessions side by side in a list, and locks that no two of them hold. -/

/-- An entry of a list after one place has been written. -/
theorem mem_set_cases {α : Type*} {l : List α} {i : ℕ} {x y : α} (h : x ∈ l.set i y) :
    x = y ∨ ∃ j, j ≠ i ∧ l[j]? = some x := by
  obtain ⟨j, hj⟩ := List.mem_iff_getElem?.mp h
  rw [List.getElem?_set] at hj
  split_ifs at hj with hij hlt
  · exact Or.inl (Option.some.inj hj).symm
  · exact Or.inr ⟨j, Ne.symm hij, hj⟩

/-- No two sessions hold the lock. -/
def Exclusive {S : Type*} (holds : S → Prop) (sessions : List S) : Prop :=
  ∀ (i j : ℕ) (s t : S), sessions[i]? = some s → sessions[j]? = some t → holds s → holds t → i = j

namespace Exclusive

variable {S : Type*} {holds : S → Prop} {sessions : List S} {i : ℕ} {s t : S}

theorem nil (holds : S → Prop) : Exclusive holds [] := by
  intro i j s t hs
  simp at hs

/-- While a session holds the lock, no other session does. -/
theorem others (h : Exclusive holds sessions) (hi : sessions[i]? = some s) (hs : holds s) {j : ℕ}
    (hj : sessions[j]? = some t) (hne : j ≠ i) : ¬ holds t :=
  fun ht => hne (h j i t s hj hi ht hs)

/-- A session that moves on takes the lock only if it had it. -/
theorem set (h : Exclusive holds sessions) (hi : sessions[i]? = some s) (hst : holds t → holds s) :
    Exclusive holds (sessions.set i t) := by
  have back : ∀ (j : ℕ) (u : S), (sessions.set i t)[j]? = some u → holds u →
      ∃ u', sessions[j]? = some u' ∧ holds u' := by
    intro j u hj hu
    rw [List.getElem?_set] at hj
    split_ifs at hj with hij hlt
    · cases hj
      exact ⟨s, hij ▸ hi, hst hu⟩
    · exact ⟨u, hj, hu⟩
  intro j k u v hj hk hu hv
  obtain ⟨u', hj', hu'⟩ := back j u hj hu
  obtain ⟨v', hk', hv'⟩ := back k v hk hv
  exact h j k u' v' hj' hk' hu' hv'

/-- A session may take a lock that is free. -/
theorem set_free (h : ∀ u ∈ sessions, ¬ holds u) : Exclusive holds (sessions.set i t) := by
  have only : ∀ (j : ℕ) (u : S), (sessions.set i t)[j]? = some u → holds u → j = i := by
    intro j u hj hu
    rw [List.getElem?_set] at hj
    split_ifs at hj with hij hlt
    · exact hij.symm
    · exact absurd hu (h u (List.mem_of_getElem? hj))
  intro j k u v hj hk hu hv
  rw [only j u hj hu, only k v hk hv]

theorem append (h : Exclusive holds sessions) (hs : ¬ holds s) :
    Exclusive holds (sessions ++ [s]) := by
  have old : ∀ (j : ℕ) (u : S), (sessions ++ [s])[j]? = some u → holds u →
    sessions[j]? = some u := by
    intro j u hj hu
    rcases List.mem_append.mp (List.mem_of_getElem? hj) with hmem | hmem
    · rw [List.getElem?_append] at hj
      split_ifs at hj with hlt
      · exact hj
      · have : u = s := List.mem_singleton.mp (List.mem_of_getElem? hj)
        exact absurd (this ▸ hu) hs
    · exact absurd (List.mem_singleton.mp hmem ▸ hu) hs
  intro j k u v hj hk hu hv
  exact h j k u v (old j u hj hu) (old k v hk hv) hu hv

/-- A new session may take a lock that is free. -/
theorem append_free (h : ∀ u ∈ sessions, ¬ holds u) : Exclusive holds (sessions ++ [s]) := by
  have only : ∀ (j : ℕ) (u : S), (sessions ++ [s])[j]? = some u → holds u →
    j = sessions.length := by
    intro j u hj hu
    have hlt := (List.getElem?_eq_some_iff.mp hj).1
    rw [List.length_append, List.length_singleton] at hlt
    rw [List.getElem?_append] at hj
    split_ifs at hj with hlen
    · exact absurd hu (h u (List.mem_of_getElem? hj))
    · omega
  intro j k u v hj hk hu hv
  rw [only j u hj hu, only k v hk hv]

end Exclusive
