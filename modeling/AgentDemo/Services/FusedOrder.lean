import AgentDemo.Library.Ranking
import AgentDemo.Services.FusedRanks
import Mathlib.Data.List.Dedup
import Mathlib.Data.Prod.Lex

/-! The fused citations are the best keys of both channels. -/
namespace AgentDemo

open Dictionary RagService

namespace RankFusion

variable {S : Type}

def distinctKeys (vector keyword : List (ScoredCitation S)) : List CitationKey :=
  ((vector ++ keyword).map ScoredCitation.key).dedup

def channelShare (close : ℚ → ℚ → Bool) (citations : List (ScoredCitation ℚ)) (key : CitationKey) :
    ℚ :=
  match rankIn close citations key with
  | some rank => 1 / (60 + rank)
  | none => 0

def fusionScore (close : ℚ → ℚ → Bool) (vector keyword : List (ScoredCitation ℚ))
    (key : CitationKey) : ℚ :=
  channelShare close vector key + channelShare close keyword key

/-- The keyword rank of a key outside the keyword channel is what its evidence says already. -/
def fusionKeywordRank (close : S → S → Bool) (vector keyword : List (ScoredCitation S))
    (key : CitationKey) : ℕ :=
  match rankIn close keyword key with
  | some rank => rank
  | none => ((vector.find? fun c => c.key = key).map keywordRank).getD (maxCandidates + 1)

/-- Score, keyword rank and key; the best comes first. -/
abbrev FusionOrder := ℚ ×ₗ ℕ ×ₗ String ×ₗ ℤ

def fusionOrder (close : ℚ → ℚ → Bool) (vector keyword : List (ScoredCitation ℚ))
    (key : CitationKey) : FusionOrder :=
  toLex (-fusionScore close vector keyword key,
    toLex (fusionKeywordRank close vector keyword key, toLex key))

theorem mem_distinctKeys {vector keyword : List (ScoredCitation S)} {key : CitationKey} :
    key ∈ distinctKeys vector keyword ↔
      key ∈ vector.map ScoredCitation.key ∨ key ∈ keyword.map ScoredCitation.key := by
  rw [distinctKeys, List.mem_dedup, List.map_append, List.mem_append]

/-! The merged citations. -/

theorem rankIn_eq_none {close : S → S → Bool} {citations : List (ScoredCitation S)}
    {key : CitationKey} :
    rankIn close citations key = none ↔ key ∉ citations.map ScoredCitation.key := by
  rw [rankIn, Option.map_eq_none_iff, List.findIdx?_eq_none_iff, List.mem_map]
  constructor
  · rintro h ⟨c, hc, hkey⟩
    exact absurd hkey (of_decide_eq_false (h c hc))
  · intro h c hc
    exact decide_eq_false fun hkey => h ⟨c, hc, hkey⟩

/-- The entry of a key of a channel. -/
theorem find?_ranked_eq_some {n : ScoreArithmetic S} {citations : List (ScoredCitation S)}
    {key : CitationKey} {e : ℕ × ScoredCitation S}
    (h : ((ranked n citations).find? fun e => e.2.key = key) = some e) :
    rankIn n.close citations key = some e.1 ∧ e.2.key = key ∧
      (citations.find? fun c => c.key = key) = some e.2 := by
  have hrank := find?_ranked n citations key
  rw [h] at hrank
  have hkey : e.2.key = key := by
    have hfound := List.find?_some h
    exact of_decide_eq_true hfound
  have hcitation : (citations.find? fun c => c.key = key) = some e.2 := by
    conv_lhs => rw [← map_snd_rankedFrom n none 1 citations, List.find?_map]
    exact congrArg (Option.map Prod.snd) h
  exact ⟨hrank.symm, hkey, hcitation⟩

theorem find?_ranked_eq_none {n : ScoreArithmetic S} {citations : List (ScoredCitation S)}
    {key : CitationKey} (h : ((ranked n citations).find? fun e => e.2.key = key) = none) :
    rankIn n.close citations key = none := by
  rw [← find?_ranked, h]
  rfl

theorem keywordRank_combine_keyword (n : ScoreArithmetic S) (rank : ℕ) (c : ScoredCitation S)
    (existing : Option (ScoredCitation S)) :
    keywordRank (combine n "keyword" rank c existing) = rank := by
  have hlookup : (combine n "keyword" rank c existing).evidence.lookup "keyword_rank" =
      some (.rank rank) := by
    simp only [combine]
    rw [lookup_put, if_neg (by decide), lookup_put, if_pos (by decide)]
  rw [keywordRank, hlookup]

theorem keywordRank_combine_vector (n : ScoreArithmetic S) (rank : ℕ) (c : ScoredCitation S) :
    keywordRank (combine n "vector" rank c none) = keywordRank c := by
  have hlookup : (combine n "vector" rank c none).evidence.lookup "keyword_rank" =
      c.evidence.lookup "keyword_rank" := by
    simp only [combine]
    rw [lookup_put, if_neg (by decide), lookup_put, if_neg (by decide)]
    rfl
  rw [keywordRank, hlookup]
  rfl

theorem vectorEntry_spec {close : ℚ → ℚ → Bool} {vector : List (ScoredCitation ℚ)}
    {key : CitationKey} {c : ScoredCitation ℚ}
    (h : vectorEntry (exactScores close) vector key = some c) :
    c.key = key ∧ c.score = channelShare close vector key ∧
      ((vector.find? fun c => c.key = key).map keywordRank) = some (keywordRank c) := by
  rw [vectorEntry, Option.map_eq_some_iff] at h
  obtain ⟨e, hfind, rfl⟩ := h
  obtain ⟨hrank, hkey, hcitation⟩ := find?_ranked_eq_some hfind
  have hshare : channelShare close vector key = 1 / (60 + e.1) := by
    unfold channelShare
    rw [show rankIn close vector key = some e.1 from hrank]
  refine ⟨hkey, ?_, ?_⟩
  · rw [hshare]
    exact zero_add _
  · rw [hcitation, keywordRank_combine_vector]
    rfl

theorem vectorEntry_eq_none {close : ℚ → ℚ → Bool} {vector : List (ScoredCitation ℚ)}
    {key : CitationKey} (h : vectorEntry (exactScores close) vector key = none) :
    rankIn close vector key = none := by
  rw [vectorEntry, Option.map_eq_none_iff] at h
  exact find?_ranked_eq_none h

/-- The merged citation of a key has its score and its keyword rank. -/
theorem fusedEntry_spec {close : ℚ → ℚ → Bool} {vector keyword : List (ScoredCitation ℚ)}
    {key : CitationKey} {c : ScoredCitation ℚ}
    (h : fusedEntry (exactScores close) vector keyword key = some c) :
    c.key = key ∧ c.score = fusionScore close vector keyword key ∧
      keywordRank c = fusionKeywordRank close vector keyword key := by
  unfold fusedEntry at h
  cases hfind : (ranked (exactScores close) keyword).find? fun e => e.2.key = key with
  | none =>
    rw [hfind] at h
    have hrank : rankIn close keyword key = none := find?_ranked_eq_none hfind
    obtain ⟨hkey, hscore, hkeyword⟩ := vectorEntry_spec h
    have hshare : channelShare close keyword key = 0 := by
      unfold channelShare
      rw [hrank]
    refine ⟨hkey, ?_, ?_⟩
    · rw [hscore, fusionScore, hshare, add_zero]
    · unfold fusionKeywordRank
      rw [hrank, hkeyword]
      rfl
  | some e =>
    rw [hfind] at h
    obtain ⟨hrank, hkey, -⟩ := find?_ranked_eq_some hfind
    replace hrank : rankIn close keyword key = some e.1 := hrank
    have hshare : channelShare close keyword key = 1 / (60 + e.1) := by
      unfold channelShare
      rw [hrank]
    have hplace : fusionKeywordRank close vector keyword key = e.1 := by
      unfold fusionKeywordRank
      rw [hrank]
    obtain rfl : combine (exactScores close) "keyword" e.1 e.2
      (vectorEntry (exactScores close) vector key) = c := Option.some.inj h
    refine ⟨?_, ?_, ?_⟩
    · cases hvector : vectorEntry (exactScores close) vector key with
      | none => exact hkey
      | some v => exact (vectorEntry_spec hvector).1
    · rw [fusionScore, hshare]
      cases hvector : vectorEntry (exactScores close) vector key with
      | none =>
        unfold channelShare
        rw [vectorEntry_eq_none hvector]
        rfl
      | some v =>
        rw [← (vectorEntry_spec hvector).2.1]
        rfl
    · rw [hplace, keywordRank_combine_keyword]

/-- Every key of the channels has a merged citation, and no other key has. -/
theorem fusedEntry_eq_none {close : ℚ → ℚ → Bool} {vector keyword : List (ScoredCitation ℚ)}
    {key : CitationKey} :
    fusedEntry (exactScores close) vector keyword key = none ↔
      key ∉ distinctKeys vector keyword := by
  have hvector : vectorEntry (exactScores close) vector key = none ↔
      rankIn close vector key = none := by
    rw [vectorEntry, Option.map_eq_none_iff, ← show _ = rankIn close vector key from
      find?_ranked (exactScores close) vector key, Option.map_eq_none_iff]
  rw [mem_distinctKeys, not_or, ← @rankIn_eq_none _ close, ← @rankIn_eq_none _ close,
    ← hvector, fusedEntry]
  cases hfind : (ranked (exactScores close) keyword).find? fun e => e.2.key = key with
  | none =>
    have hrank : rankIn close keyword key = none := find?_ranked_eq_none hfind
    simp only [hrank, and_true]
  | some e =>
    have hrank : rankIn close keyword key = some e.1 := (find?_ranked_eq_some hfind).1
    simp [hrank]

/-! The order of the merged citations. -/

/-- What `_fuse` sorts by. -/
def orderOf (p : CitationKey × ScoredCitation ℚ) : FusionOrder :=
  toLex (-p.2.score, toLex (keywordRank p.2, toLex p.1))

theorem before_eq_decide (close : ℚ → ℚ → Bool) (a b : CitationKey × ScoredCitation ℚ) :
    before (exactScores close) a b = decide (orderOf a < orderOf b) := by
  have hsame :
    (exactScores close).same a.2.score b.2.score = decide (-a.2.score = -b.2.score) := rfl
  have hless :
    (exactScores close).less a.2.score b.2.score = decide (-a.2.score < -b.2.score) := rfl
  unfold before orderOf
  rw [hsame, hless]
  simp only [decide_eq_true_eq, Prod.Lex.toLex_lt_toLex]
  split_ifs with hscore hrank hdocument
  · simp [hscore, hrank, hdocument]
  · simp [hscore, hrank, hdocument]
  · simp [hscore, hrank]
  · simp [hscore]

theorem nodup_map_orderOf {merged : List (CitationKey × ScoredCitation ℚ)}
    (h : (merged.map Prod.fst).Nodup) : (merged.map orderOf).Nodup := by
  have hkeys : merged.map Prod.fst =
      (merged.map orderOf).map fun o => ofLex (ofLex (ofLex o).2).2 := by
    rw [List.map_map]
    rfl
  rw [hkeys] at h
  exact h.of_map

theorem fuse_eq_sortBy {close : ℚ → ℚ → Bool} {vector keyword : List (ScoredCitation ℚ)}
    (hvector : vector ≠ []) (hkeyword : keyword ≠ []) (limit : ℕ) :
    fuse (exactScores close) vector keyword limit =
      ((Ranking.sortBy orderOf (merge (exactScores close) vector keyword)).take limit).map
        Prod.snd := by
  have hle : (fun a b => !before (exactScores close) b a) =
      fun a b => decide (orderOf a ≤ orderOf b) := by
    funext a b
    rw [before_eq_decide, ← decide_not]
    exact decide_eq_decide.mpr not_lt
  rw [fuse, if_neg hvector, if_neg hkeyword, hle]
  rfl

section Channels

variable {close : ℚ → ℚ → Bool} {vector keyword : List (ScoredCitation ℚ)}
  (hnodupVector : (vector.map ScoredCitation.key).Nodup)
  (hnodupKeyword : (keyword.map ScoredCitation.key).Nodup)

include hnodupVector hnodupKeyword

theorem mem_merge {p : CitationKey × ScoredCitation ℚ} :
    p ∈ merge (exactScores close) vector keyword ↔
      fusedEntry (exactScores close) vector keyword p.1 = some p.2 := by
  obtain ⟨hnodup, hlookup⟩ := merge_spec (exactScores close) hnodupVector hnodupKeyword
  rw [← hlookup]
  exact mem_iff_lookup hnodup

/-- The keys of the merged citations. -/
theorem perm_map_fst_merge :
    ((merge (exactScores close) vector keyword).map Prod.fst).Perm
      (distinctKeys vector keyword) := by
  obtain ⟨hnodup, hlookup⟩ := merge_spec (exactScores close) hnodupVector hnodupKeyword
  refine (List.perm_ext_iff_of_nodup hnodup (List.nodup_dedup _)).mpr fun key => ?_
  have hnone : key ∉ (merge (exactScores close) vector keyword).map Prod.fst ↔
      key ∉ distinctKeys vector keyword := by
    rw [← lookup_eq_none, hlookup, fusedEntry_eq_none]
  exact not_iff_not.mp hnone

theorem orderOf_of_mem_merge {p : CitationKey × ScoredCitation ℚ}
    (h : p ∈ merge (exactScores close) vector keyword) :
    p.2.key = p.1 ∧ p.2.score = fusionScore close vector keyword p.1 ∧
      orderOf p = fusionOrder close vector keyword p.1 := by
  obtain ⟨hkey, hscore, hrank⟩ := fusedEntry_spec ((mem_merge hnodupVector hnodupKeyword).mp h)
  refine ⟨hkey, hscore, ?_⟩
  rw [orderOf, hscore, hrank]
  rfl

/-- A taken entry comes before every key that is not taken. -/
theorem fusionOrder_lt {limit : ℕ} {p : CitationKey × ScoredCitation ℚ} {key : CitationKey}
    (hp : p ∈ (Ranking.sortBy orderOf (merge (exactScores close) vector keyword)).take limit)
    (hkey : key ∈ distinctKeys vector keyword)
    (hnot : key ∉ ((Ranking.sortBy orderOf (merge (exactScores close) vector keyword)).take
      limit).map Prod.fst) :
    fusionOrder close vector keyword p.1 < fusionOrder close vector keyword key := by
  have hmerge := @perm_map_fst_merge close _ _ hnodupVector hnodupKeyword
  obtain ⟨q, hq, rfl⟩ := List.mem_map.mp (hmerge.mem_iff.mpr hkey)
  have hp' : p ∈ merge (exactScores close) vector keyword :=
    (Ranking.perm_sortBy _ _).mem_iff.mp (List.mem_of_mem_take hp)
  have hnotTaken : q ∉ (Ranking.sortBy orderOf (merge (exactScores close) vector keyword)).take
      limit := fun hmem => hnot (List.mem_map_of_mem hmem)
  have hle := Ranking.le_of_mem_take hp hq hnotTaken
  rw [(orderOf_of_mem_merge hnodupVector hnodupKeyword hp').2.2,
    (orderOf_of_mem_merge hnodupVector hnodupKeyword hq).2.2] at hle
  refine lt_of_le_of_ne hle fun heq => hnot ?_
  have hkeys : p.1 = q.1 := congrArg (fun o : FusionOrder => ofLex (ofLex (ofLex o).2).2) heq
  exact List.mem_map.mpr ⟨p, hp, hkeys⟩

end Channels

/-! The order of close citations. -/

theorem SwapsTies.nodup {citations citations' : List (ScoredCitation ℚ)}
    (h : SwapsTies citations citations') (hnodup : (citations.map ScoredCitation.key).Nodup) :
    (citations'.map ScoredCitation.key).Nodup :=
  (h.perm.map _).nodup_iff.mp hnodup

theorem SwapsTies.ne_nil {citations citations' : List (ScoredCitation ℚ)}
    (h : SwapsTies citations citations') (hne : citations ≠ []) : citations' ≠ [] := by
  rintro rfl
  exact hne h.perm.eq_nil

theorem SwapsTies.find?_ranked {close : ℚ → ℚ → Bool} (hclose : ∀ x, close x x = true)
    {citations citations' : List (ScoredCitation ℚ)} (h : SwapsTies citations citations')
    (hsorted : citations.Pairwise fun a b => b.score ≤ a.score)
    (hnodup : (citations.map ScoredCitation.key).Nodup) (key : CitationKey) :
    ((ranked (exactScores close) citations).find? fun e => e.2.key = key) =
      (ranked (exactScores close) citations').find? fun e => e.2.key = key :=
  find?_perm (perm_ranked hclose h hsorted) (nodup_ranked _ hnodup) key

section Ties

variable {close : ℚ → ℚ → Bool} (hclose : ∀ x, close x x = true)
  {vector keyword vector' keyword' : List (ScoredCitation ℚ)}
  (hsortedVector : vector.Pairwise fun a b => b.score ≤ a.score)
  (hsortedKeyword : keyword.Pairwise fun a b => b.score ≤ a.score)
  (hnodupVector : (vector.map ScoredCitation.key).Nodup)
  (hnodupKeyword : (keyword.map ScoredCitation.key).Nodup)
  (hvector : SwapsTies vector vector') (hkeyword : SwapsTies keyword keyword')

include hclose hsortedVector hsortedKeyword hnodupVector hnodupKeyword hvector hkeyword

theorem fusedEntry_of_swapsTies (key : CitationKey) :
    fusedEntry (exactScores close) vector keyword key =
      fusedEntry (exactScores close) vector' keyword' key := by
  unfold fusedEntry vectorEntry
  rw [hvector.find?_ranked hclose hsortedVector hnodupVector,
    hkeyword.find?_ranked hclose hsortedKeyword hnodupKeyword]

theorem perm_merge_of_swapsTies :
    (merge (exactScores close) vector keyword).Perm
      (merge (exactScores close) vector' keyword') := by
  obtain ⟨hnodup, hlookup⟩ := merge_spec (exactScores close) hnodupVector hnodupKeyword
  obtain ⟨hnodup', hlookup'⟩ := merge_spec (exactScores close) (hvector.nodup hnodupVector)
    (hkeyword.nodup hnodupKeyword)
  apply perm_of_lookup hnodup hnodup'
  intro key
  rw [hlookup, hlookup', fusedEntry_of_swapsTies hclose hsortedVector hsortedKeyword hnodupVector
    hnodupKeyword hvector hkeyword]

theorem fuse_of_swapsTies (hneVector : vector ≠ []) (hneKeyword : keyword ≠ []) (limit : ℕ) :
    fuse (exactScores close) vector keyword limit =
      fuse (exactScores close) vector' keyword' limit := by
  have hnodup := (merge_spec (exactScores close) hnodupVector hnodupKeyword).1
  have hperm := perm_merge_of_swapsTies hclose hsortedVector hsortedKeyword hnodupVector
    hnodupKeyword hvector hkeyword
  rw [fuse_eq_sortBy hneVector hneKeyword,
    fuse_eq_sortBy (hvector.ne_nil hneVector) (hkeyword.ne_nil hneKeyword),
    Ranking.sortBy_eq_of_perm hperm (nodup_map_orderOf hnodup)]

end Ties

/-- `_fuse` returns the best keys of both channels, whatever the order of equal scores. -/
theorem fuse_spec {close : ℚ → ℚ → Bool} (hclose : ∀ x, close x x = true)
    {vector keyword : List (ScoredCitation ℚ)} (hneVector : vector ≠ []) (hneKeyword : keyword ≠ [])
    (hsortedVector : vector.Pairwise fun a b => b.score ≤ a.score)
    (hsortedKeyword : keyword.Pairwise fun a b => b.score ≤ a.score)
    (hnodupVector : (vector.map ScoredCitation.key).Nodup)
    (hnodupKeyword : (keyword.map ScoredCitation.key).Nodup) (limit : ℕ) :
    let output := fuse (exactScores close) vector keyword limit
    output.length = min limit (distinctKeys vector keyword).length ∧
      (output.map ScoredCitation.key).Nodup ∧
      (∀ c ∈ output, c.key ∈ distinctKeys vector keyword ∧
        c.score = fusionScore close vector keyword c.key) ∧
      (output.Pairwise fun a b =>
        fusionOrder close vector keyword a.key < fusionOrder close vector keyword b.key) ∧
      (∀ c ∈ output, ∀ key ∈ distinctKeys vector keyword, key ∉ output.map ScoredCitation.key →
        fusionOrder close vector keyword c.key < fusionOrder close vector keyword key) ∧
      ∀ vector' keyword', SwapsTies vector vector' → SwapsTies keyword keyword' →
        fuse (exactScores close) vector' keyword' limit = output := by
  intro output
  set best := (Ranking.sortBy orderOf (merge (exactScores close) vector keyword)).take limit
    with hbest
  have houtput : output = best.map Prod.snd := fuse_eq_sortBy hneVector hneKeyword limit
  have hmem : ∀ p ∈ best, p ∈ merge (exactScores close) vector keyword := fun p hp =>
    (Ranking.perm_sortBy _ _).mem_iff.mp (List.mem_of_mem_take hp)
  have hspec : ∀ p ∈ best, p.2.key = p.1 ∧ p.2.score = fusionScore close vector keyword p.1 ∧
      orderOf p = fusionOrder close vector keyword p.1 := fun p hp =>
    orderOf_of_mem_merge hnodupVector hnodupKeyword (hmem p hp)
  have hkeys : output.map ScoredCitation.key = best.map Prod.fst := by
    rw [houtput, List.map_map]
    exact List.map_congr_left fun p hp => (hspec p hp).1
  have hperm := @perm_map_fst_merge close _ _ hnodupVector hnodupKeyword
  have hnodup : ((merge (exactScores close) vector keyword).map Prod.fst).Nodup :=
    hperm.nodup_iff.mpr (List.nodup_dedup _)
  have hlength : (merge (exactScores close) vector keyword).length =
      (distinctKeys vector keyword).length := by
    rw [← hperm.length_eq, List.length_map]
  refine ⟨?length, ?nodup, ?score, ?sorted, ?best, ?ties⟩
  case length =>
    rw [houtput, List.length_map, hbest, List.length_take, (Ranking.perm_sortBy _ _).length_eq,
      hlength]
  case nodup =>
    rw [hkeys]
    exact (Ranking.nodup_map_sortBy hnodup).sublist ((List.take_sublist _ _).map _)
  case score =>
    intro c hc
    rw [houtput, List.mem_map] at hc
    obtain ⟨p, hp, rfl⟩ := hc
    obtain ⟨hkey, hscore, -⟩ := hspec p hp
    rw [hkey]
    exact ⟨hperm.mem_iff.mp (List.mem_map_of_mem (hmem p hp)), hscore⟩
  case sorted =>
    rw [houtput, List.pairwise_map]
    have hsorted : best.Pairwise fun a b => orderOf a < orderOf b :=
      (Ranking.pairwise_lt_sortBy (nodup_map_orderOf hnodup)).sublist (List.take_sublist _ _)
    refine hsorted.imp_of_mem fun {a b} ha hb hab => ?_
    rw [(hspec a ha).1, (hspec b hb).1, ← (hspec a ha).2.2, ← (hspec b hb).2.2]
    exact hab
  case best =>
    intro c hc key hkey hnot
    rw [houtput, List.mem_map] at hc
    obtain ⟨p, hp, rfl⟩ := hc
    rw [hkeys] at hnot
    rw [(hspec p hp).1]
    exact fusionOrder_lt hnodupVector hnodupKeyword hp hkey hnot
  case ties =>
    intro vector' keyword' hvector hkeyword
    exact (fuse_of_swapsTies hclose hsortedVector hsortedKeyword hnodupVector hnodupKeyword hvector
      hkeyword hneVector hneKeyword limit).symm

def sampleResult (documentId : String) (score : ℚ) (method : RetrievalMethod) : ScoredCitation ℚ :=
  ⟨documentId, "Runbook", 0, "Failover", "text", none, score, method, []⟩

theorem fuse_spec_sample :
    (fuse (exactScores fun a b => a = b)
      [sampleResult "a" 1 .vector, sampleResult "b" 1 .vector]
      [sampleResult "b" 5 .keyword, sampleResult "c" 1 .keyword] 2).length = 2 := by
  have h := @fuse_spec (fun a b => decide (a = b)) (fun _ => decide_eq_true rfl)
    [sampleResult "a" 1 .vector, sampleResult "b" 1 .vector]
    [sampleResult "b" 5 .keyword, sampleResult "c" 1 .keyword]
    (List.cons_ne_nil _ _) (List.cons_ne_nil _ _)
    (by simp [sampleResult]) (by norm_num [sampleResult]) (by decide) (by decide) 2
  have hkeys : (distinctKeys [sampleResult "a" 1 .vector, sampleResult "b" 1 .vector]
      [sampleResult "b" 5 .keyword, sampleResult "c" 1 .keyword]).length = 3 := by decide
  exact h.1.trans (by rw [hkeys]; rfl)

end RankFusion

end AgentDemo
