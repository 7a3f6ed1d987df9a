import AgentDemo.Library.FloatOrder
import AgentDemo.Library.Ranking
import AgentDemo.Services.ProviderReplies

/-! Whatever the provider answers, `RetrievalReranker.rank` permutes the places of the texts. -/
namespace AgentDemo

/-- The order of `rank`: descending scores, then ascending indices. -/
def RankedAfter (a b : ℕ × Float) : Prop :=
  b.2 < a.2 ∨ (a.2 == b.2) = true ∧ a.1 < b.1

structure RankedRows (count : ℕ) (ranked : List (ℕ × Float)) : Prop where
  nodup : (ranked.map Prod.fst).Nodup
  lt : ∀ p ∈ ranked, p.1 < count
  finite : ∀ p ∈ ranked, p.2.isFinite = true

theorem RankedRows.append {count : ℕ} {ranked : List (ℕ × Float)} (h : RankedRows count ranked)
    {index : ℕ} {score : Float} (hlt : index < count) (hnew : index ∉ ranked.map Prod.fst)
    (hfinite : score.isFinite = true) : RankedRows count (ranked ++ [(index, score)]) where
  nodup := by
    rw [List.map_append, List.nodup_append]
    refine ⟨h.nodup, List.nodup_singleton _, ?_⟩
    intro a ha b hb hab
    rw [List.map_singleton, List.mem_singleton] at hb
    rw [hab, hb] at ha
    exact hnew ha
  lt := by
    intro p hp
    rcases List.mem_append.mp hp with hp | hp
    · exact h.lt p hp
    · rw [List.mem_singleton.mp hp]
      exact hlt
  finite := by
    intro p hp
    rcases List.mem_append.mp hp with hp | hp
    · exact h.finite p hp
    · rw [List.mem_singleton.mp hp]
      exact hfinite

theorem rankedRows_spec {count : ℕ} {rows : List RerankRow} {ranked out : List (ℕ × Float)}
    (h : RankedRows count ranked) (hout : rankedRows count rows ranked = some out) :
    RankedRows count out ∧ out.length = ranked.length + rows.length := by
  induction rows generalizing ranked with
  | nil =>
    obtain rfl : ranked = out := Option.some.inj hout
    exact ⟨h, rfl⟩
  | cons row rows ih =>
    unfold rankedRows at hout
    split at hout
    · rename_i index score hindex hscore
      split_ifs at hout with hvalid
      obtain ⟨hnonneg, hlt, hnew, hfinite⟩ := hvalid
      have hlt' : index.toNat < count := by omega
      obtain ⟨hspec, hlength⟩ := ih (h.append hlt' hnew hfinite) hout
      refine ⟨hspec, ?_⟩
      rw [hlength, List.length_append, List.length_singleton, List.length_cons]
      omega
    · exact absurd hout (by simp)

/-! The sort. -/

/-- What `rank` sorts by. -/
def rankKey (p : ℕ × Float) : (ℤ ×ₗ ℤ ×ₗ ℤ)ᵒᵈ ×ₗ ℕ :=
  toLex (OrderDual.toDual (FloatOrder.key p.2), p.1)

theorem rankedBefore_eq_decide {a b : ℕ × Float} (ha : a.2.isFinite = true)
    (hb : b.2.isFinite = true) : rankedBefore a b = decide (rankKey a < rankKey b) := by
  have hsame := FloatOrder.neg_beq_neg_iff_key ha hb
  have hless := FloatOrder.neg_lt_neg_iff_key ha hb
  have horder : rankKey a < rankKey b ↔ FloatOrder.key b.2 < FloatOrder.key a.2 ∨
      FloatOrder.key a.2 = FloatOrder.key b.2 ∧ a.1 < b.1 := by
    rw [rankKey, rankKey, Prod.Lex.toLex_lt_toLex, OrderDual.toDual_lt_toDual,
      OrderDual.toDual_inj]
  unfold rankedBefore
  by_cases hkey : FloatOrder.key a.2 = FloatOrder.key b.2
  · rw [if_pos (hsame.mpr hkey), decide_eq_decide, horder]
    simp [hkey]
  · rw [if_neg (hsame.not.mpr hkey), decide_eq_decide, horder, hless]
    simp [hkey]

theorem mergeSort_rankedBefore {ranked : List (ℕ × Float)}
    (h : ∀ p ∈ ranked, p.2.isFinite = true) :
    (ranked.mergeSort fun a b => !rankedBefore b a) = Ranking.sortBy rankKey ranked := by
  have hle : ∀ a ∈ ranked, ∀ b ∈ ranked,
      (!rankedBefore b a) = decide (rankKey (id a) ≤ rankKey (id b)) := by
    intro a ha b hb
    rw [rankedBefore_eq_decide (h b hb) (h a ha), ← decide_not]
    exact decide_eq_decide.mpr not_lt
  have hmap := List.map_mergeSort (r := fun a b => !rankedBefore b a)
    (s := fun a b => decide (rankKey a ≤ rankKey b)) (f := id) hle
  rw [List.map_id, List.map_id] at hmap
  exact hmap

theorem nodup_map_rankKey {ranked : List (ℕ × Float)} (h : (ranked.map Prod.fst).Nodup) :
    (ranked.map rankKey).Nodup := by
  have hkeys : ranked.map Prod.fst = (ranked.map rankKey).map fun k => (ofLex k).2 := by
    rw [List.map_map]
    rfl
  rw [hkeys] at h
  exact h.of_map

theorem rankedAfter_of_rankKey {a b : ℕ × Float} (ha : a.2.isFinite = true)
    (hb : b.2.isFinite = true) (h : rankKey a < rankKey b) : RankedAfter a b := by
  rcases (Prod.Lex.toLex_lt_toLex).mp h with hless | ⟨hsame, hindex⟩
  · exact Or.inl ((FloatOrder.lt_iff_key hb ha).mpr (OrderDual.toDual_lt_toDual.mp hless))
  · exact Or.inr ⟨(FloatOrder.beq_iff_key ha hb).mpr (OrderDual.toDual_inj.mp hsame), hindex⟩

/-- `rank` returns every place once, with finite scores in order. -/
theorem rank_eq_some {settings : RetrievalSettings}
    {request : String → List String → Option (List RerankRow)} {query : String}
    {documents : List String} {ranked : List (ℕ × Float)}
    (h : RetrievalReranker.rank settings request query documents = some ranked) :
    (ranked.map Prod.fst).Perm (List.range documents.length) ∧
      (∀ p ∈ ranked, p.2.isFinite = true) ∧ ranked.Pairwise RankedAfter := by
  unfold RetrievalReranker.rank at h
  split_ifs at h
  simp only [Option.bind_eq_bind, Option.bind_eq_some_iff] at h
  obtain ⟨rows, -, h⟩ := h
  split_ifs at h with hcount
  rw [Option.bind_eq_some_iff] at h
  obtain ⟨entries, hentries, hsorted⟩ := h
  have hempty : RankedRows documents.length [] := ⟨List.nodup_nil, by simp, by simp⟩
  obtain ⟨hspec, hlength⟩ := rankedRows_spec hempty hentries
  have hranked : ranked = Ranking.sortBy rankKey entries := by
    rw [← mergeSort_rankedBefore hspec.finite]
    exact (Option.some.inj hsorted).symm
  have hperm : ranked.Perm entries := hranked ▸ Ranking.perm_sortBy rankKey entries
  have hfinite : ∀ p ∈ ranked, p.2.isFinite = true := fun p hp =>
    hspec.finite p (hperm.mem_iff.mp hp)
  refine ⟨?_, hfinite, ?_⟩
  · refine (hperm.map Prod.fst).trans (perm_range_of_nodup hspec.nodup ?_ ?_)
    · intro i hi
      obtain ⟨p, hp, rfl⟩ := List.mem_map.mp hi
      exact hspec.lt p hp
    · rw [List.length_map, hlength, List.length_nil, Nat.zero_add, hcount]
  · have hpairs := Ranking.pairwise_lt_sortBy (nodup_map_rankKey hspec.nodup)
    rw [← hranked] at hpairs
    exact hpairs.imp_of_mem fun ha hb hab =>
      rankedAfter_of_rankKey (hfinite _ ha) (hfinite _ hb) hab

end AgentDemo
