import AgentDemo.Services.RankFusion
import Mathlib.Data.String.Basic

/-! What `_fuse` computes: ranks of groups of close scores, their shares, and the best keys. -/
namespace AgentDemo

open Dictionary RagService

namespace RankFusion

variable {S : Type}

/-- The rank at a position: a score that is close to the one before it shares its rank. -/
def groupRank (close : S → S → Bool) (scores : List S) : ℕ → ℕ
  | 0 => 1
  | i + 1 =>
    match scores[i]?, scores[i + 1]? with
    | some previous, some score => if close score previous then groupRank close scores i else i + 2
    | _, _ => i + 2

def rankIn (close : S → S → Bool) (citations : List (ScoredCitation S)) (key : CitationKey) :
    Option ℕ :=
  (citations.findIdx? fun c => c.key = key).map
    (groupRank close (citations.map ScoredCitation.score))

/-- The rank of the citation at a position, behind one with a score and a rank. -/
def nextRank (n : ScoreArithmetic S) (previous : Option (S × ℕ)) (position : ℕ) (score : S) : ℕ :=
  match previous with
  | some (before, rank) => if n.close score before then rank else position
  | none => position

/-- The citations of a channel with their ranks, as the loop computes them. -/
def rankedFrom (n : ScoreArithmetic S) : Option (S × ℕ) → ℕ → List (ScoredCitation S) →
    List (ℕ × ScoredCitation S)
  | _, _, [] => []
  | previous, position, c :: rest =>
    (nextRank n previous position c.score, c) ::
      rankedFrom n (some (c.score, nextRank n previous position c.score)) (position + 1) rest

/-- The merged citation of a key, from what a channel says and what there is already. -/
def combine (n : ScoreArithmetic S) (channel : String) (rank : ℕ) (c : ScoredCitation S)
    (existing : Option (ScoredCitation S)) : ScoredCitation S :=
  { existing.getD c with
    score := n.add ((existing.map ScoredCitation.score).getD n.zero) (n.share rank)
    retrievalMethod := .hybridRrf
    evidence := put (put (existing.getD c).evidence (channel ++ "_rank") (.rank rank))
      (channel ++ "_score") (.score c.score) }

def mergeEntry (n : ScoreArithmetic S) (channel : String)
    (merged : List (CitationKey × ScoredCitation S))
    (e : ℕ × ScoredCitation S) : List (CitationKey × ScoredCitation S) :=
  put merged e.2.key (combine n channel e.1 e.2 (merged.lookup e.2.key))

/-- The dictionary `scores` holds the scores of the merged citations. -/
def State.Agrees (s : State S) : Prop :=
  ∀ key, s.scores.lookup key = (s.merged.lookup key).map ScoredCitation.score

/-- A citation whose key has not been seen in the channel. -/
theorem step_of_not_mem (n : ScoreArithmetic S) (channel : String) {s : State S} (position : ℕ)
    {c : ScoredCitation S} (hagrees : s.Agrees) (hseen : c.key ∉ s.seen) :
    let rank := nextRank n (s.previousScore.map fun score => (score, s.rank)) position c.score
    let s' := step n channel s (position, c)
    s'.merged = mergeEntry n channel s.merged (rank, c) ∧ s'.Agrees ∧ s'.seen = s.seen ++ [c.key] ∧
      s'.previousScore = some c.score ∧ s'.rank = rank := by
  have hrank : nextRank n (s.previousScore.map fun score => (score, s.rank)) position c.score =
      if s.previousScore.any (n.close c.score) then s.rank else position := by
    cases s.previousScore <;> rfl
  rw [hrank]
  simp only [step, hseen, if_false, and_true]
  constructor
  · simp only [mergeEntry, combine, hagrees c.key]
  · intro key
    simp only [lookup_put]
    by_cases hkey : key = c.key
    · rw [if_pos hkey, if_pos hkey]
      rfl
    · rw [if_neg hkey, if_neg hkey]
      exact hagrees key

/-- A channel without repeated keys merges its ranked citations one after another. -/
theorem foldl_step (n : ScoreArithmetic S) (channel : String) {citations : List (ScoredCitation S)}
    {s : State S} (k : ℕ) (hagrees : s.Agrees) (hnodup : (citations.map ScoredCitation.key).Nodup)
    (hseen : ∀ c ∈ citations, c.key ∉ s.seen) :
    (((citations.zipIdx k).map fun p => (p.2 + 1, p.1)).foldl (step n channel) s).merged =
        (rankedFrom n (s.previousScore.map fun score => (score, s.rank)) (k + 1)
          citations).foldl (mergeEntry n channel) s.merged ∧
      (((citations.zipIdx k).map fun p => (p.2 + 1, p.1)).foldl (step n channel) s).Agrees := by
  induction citations generalizing s k with
  | nil => exact ⟨rfl, hagrees⟩
  | cons c rest ih =>
    rw [List.map_cons, List.nodup_cons] at hnodup
    obtain ⟨hmerged, hagrees', hseen', hprevious, hrank⟩ :=
      step_of_not_mem n channel (k + 1) hagrees (hseen c List.mem_cons_self)
    have hrest : ∀ d ∈ rest, d.key ∉ (step n channel s (k + 1, c)).seen := by
      intro d hd
      rw [hseen', List.mem_append, List.mem_singleton, not_or]
      refine ⟨hseen d (List.mem_cons_of_mem _ hd), fun heq => hnodup.1 ?_⟩
      exact List.mem_map.mpr ⟨d, hd, heq⟩
    have hrun := ih (k + 1) hagrees' hnodup.2 hrest
    rw [hprevious, hrank, hmerged] at hrun
    exact hrun

/-- What a channel leaves under a key. -/
theorem lookup_foldl_mergeEntry (n : ScoreArithmetic S) (channel : String)
    {entries : List (ℕ × ScoredCitation S)} (hnodup : (entries.map fun e => e.2.key).Nodup)
    (merged : List (CitationKey × ScoredCitation S)) (key : CitationKey) :
    (entries.foldl (mergeEntry n channel) merged).lookup key =
      match entries.find? fun e => e.2.key = key with
      | some e => some (combine n channel e.1 e.2 (merged.lookup key))
      | none => merged.lookup key := by
  induction entries generalizing merged with
  | nil => rfl
  | cons e rest ih =>
    rw [List.map_cons, List.nodup_cons] at hnodup
    rw [List.foldl_cons, ih hnodup.2, mergeEntry, lookup_put]
    by_cases hkey : e.2.key = key
    · subst hkey
      have hrest : (rest.find? fun x => x.2.key = e.2.key) = none := by
        refine List.find?_eq_none.mpr fun x hx heq => hnodup.1 ?_
        exact List.mem_map.mpr ⟨x, hx, of_decide_eq_true heq⟩
      rw [hrest, List.find?_cons_of_pos (by simp), if_pos rfl]
    · rw [List.find?_cons_of_neg (by simpa using hkey), if_neg (Ne.symm hkey)]

theorem nodup_foldl_mergeEntry (n : ScoreArithmetic S) (channel : String)
    (entries : List (ℕ × ScoredCitation S)) {merged : List (CitationKey × ScoredCitation S)}
    (h : (merged.map Prod.fst).Nodup) :
    ((entries.foldl (mergeEntry n channel) merged).map Prod.fst).Nodup := by
  induction entries generalizing merged with
  | nil => exact h
  | cons e rest ih => exact ih (nodup_put h _ _)

theorem map_snd_rankedFrom (n : ScoreArithmetic S) (previous : Option (S × ℕ)) (position : ℕ)
    (citations : List (ScoredCitation S)) :
    (rankedFrom n previous position citations).map Prod.snd = citations := by
  induction citations generalizing previous position with
  | nil => rfl
  | cons c rest ih => rw [rankedFrom, List.map_cons, ih]

def ranked (n : ScoreArithmetic S) (citations : List (ScoredCitation S)) :
    List (ℕ × ScoredCitation S) :=
  rankedFrom n none 1 citations

theorem nodup_ranked (n : ScoreArithmetic S) {citations : List (ScoredCitation S)}
    (h : (citations.map ScoredCitation.key).Nodup) :
    ((ranked n citations).map fun e => e.2.key).Nodup := by
  have hkeys : ((ranked n citations).map fun e => e.2.key) = citations.map ScoredCitation.key := by
    conv_rhs => rw [← map_snd_rankedFrom n none 1 citations, List.map_map]
    rfl
  rwa [hkeys]

def vectorEntry (n : ScoreArithmetic S) (vector : List (ScoredCitation S)) (key : CitationKey) :
    Option (ScoredCitation S) :=
  ((ranked n vector).find? fun e => e.2.key = key).map fun e => combine n "vector" e.1 e.2 none

def fusedEntry (n : ScoreArithmetic S) (vector keyword : List (ScoredCitation S))
    (key : CitationKey) : Option (ScoredCitation S) :=
  match (ranked n keyword).find? fun e => e.2.key = key with
  | some e => some (combine n "keyword" e.1 e.2 (vectorEntry n vector key))
  | none => vectorEntry n vector key

/-- The dictionary of the merged citations. -/
theorem merge_spec (n : ScoreArithmetic S) {vector keyword : List (ScoredCitation S)}
    (hvector : (vector.map ScoredCitation.key).Nodup)
    (hkeyword : (keyword.map ScoredCitation.key).Nodup) :
    ((merge n vector keyword).map Prod.fst).Nodup ∧
      ∀ key, (merge n vector keyword).lookup key = fusedEntry n vector keyword key := by
  have hempty : State.Agrees (⟨[], [], [], none, 0⟩ : State S) := fun _ => rfl
  obtain ⟨hfirst, hagrees⟩ := foldl_step n "vector" 0 hempty hvector (by simp)
  have hagrees' : State.Agrees { runChannel n "vector" ⟨[], [], [], none, 0⟩ vector with
    seen := [], previousScore := none, rank := 0 } := hagrees
  obtain ⟨hsecond, -⟩ := foldl_step n "keyword" 0 hagrees' hkeyword (by simp)
  have hmerge : merge n vector keyword = (ranked n keyword).foldl (mergeEntry n "keyword")
      ((ranked n vector).foldl (mergeEntry n "vector") []) := by
    refine hsecond.trans ?_
    congr 1
  rw [hmerge]
  constructor
  · exact nodup_foldl_mergeEntry n _ _ (nodup_foldl_mergeEntry n _ _ List.nodup_nil)
  · intro key
    have hfirstEntry : ((ranked n vector).foldl (mergeEntry n "vector") []).lookup key =
        vectorEntry n vector key := by
      rw [lookup_foldl_mergeEntry n _ (nodup_ranked n hvector), vectorEntry]
      cases (ranked n vector).find? fun e => e.2.key = key <;> rfl
    rw [lookup_foldl_mergeEntry n _ (nodup_ranked n hkeyword), hfirstEntry]
    rfl

/-! The ranks. -/

theorem groupRank_succ {close : S → S → Bool} {scores : List S} {i : ℕ} {previous score : S}
    (hprevious : scores[i]? = some previous) (hscore : scores[i + 1]? = some score) :
    groupRank close scores (i + 1) =
      if close score previous then groupRank close scores i else i + 2 := by
  rw [groupRank, hprevious, hscore]

theorem rankedFrom_eq_mapIdx (n : ScoreArithmetic S) {all : List (ScoredCitation S)}
    (front rest : List (ScoredCitation S)) (h : front ++ rest = all) :
    rankedFrom n (front.getLast?.map fun c =>
        (c.score, groupRank n.close (all.map ScoredCitation.score) (front.length - 1)))
          (front.length + 1) rest =
      rest.mapIdx fun i c =>
        (groupRank n.close (all.map ScoredCitation.score) (front.length + i), c) := by
  induction rest generalizing front with
  | nil => rfl
  | cons c rest ih =>
    have hrank : nextRank n (front.getLast?.map fun c =>
        (c.score, groupRank n.close (all.map ScoredCitation.score) (front.length - 1)))
          (front.length + 1) c.score =
        groupRank n.close (all.map ScoredCitation.score) front.length := by
      rcases List.eq_nil_or_concat front with rfl | ⟨init, last, rfl⟩
      · rfl
      · rw [List.concat_eq_append] at h ⊢
        have hprevious : (all.map ScoredCitation.score)[init.length]? = some last.score := by
          rw [← h]
          simp
        have hscore : (all.map ScoredCitation.score)[init.length + 1]? = some c.score := by
          rw [← h]
          simp
        simp only [List.getLast?_concat, Option.map_some, nextRank, List.length_append,
          List.length_singleton, Nat.add_sub_cancel, groupRank_succ hprevious hscore]
    have hnext := ih (front ++ [c]) (by rw [List.append_assoc, ← h]; rfl)
    rw [rankedFrom, List.mapIdx_cons, hrank]
    congr 1
    simp only [List.getLast?_concat, Option.map_some, List.length_append, List.length_singleton,
      Nat.add_sub_cancel] at hnext
    rw [hnext]
    congr 1
    funext i d
    rw [Nat.add_assoc, Nat.add_comm 1 i]

theorem ranked_eq_mapIdx (n : ScoreArithmetic S) (citations : List (ScoredCitation S)) :
    ranked n citations = citations.mapIdx fun i c =>
      (groupRank n.close (citations.map ScoredCitation.score) i, c) := by
  have h := rankedFrom_eq_mapIdx n [] citations rfl
  simp only [List.length_nil, Nat.zero_add] at h
  exact h

theorem find?_mapIdx {α β : Type*} {f : ℕ → α → β} {p : β → Bool} {q : α → Bool}
    (h : ∀ i a, p (f i a) = q a) (l : List α) :
    (l.mapIdx f).find? p = (l.findIdx? q).bind fun i => l[i]?.map (f i) := by
  induction l generalizing f with
  | nil => rfl
  | cons a l ih =>
    rw [List.mapIdx_cons, List.findIdx?_cons]
    by_cases ha : q a
    · rw [List.find?_cons_of_pos (by rw [h]; exact ha), if_pos ha]
      rfl
    · rw [List.find?_cons_of_neg (by rw [h]; exact ha), if_neg ha, ih fun i a => h (i + 1) a,
        Option.bind_map]
      rfl

/-- What the channel says of a key: its rank and its citation. -/
theorem find?_ranked (n : ScoreArithmetic S) (citations : List (ScoredCitation S))
    (key : CitationKey) :
    (((ranked n citations).find? fun e => e.2.key = key).map Prod.fst) =
      rankIn n.close citations key := by
  rw [ranked_eq_mapIdx,
    @find?_mapIdx _ _ _ _ (fun c => decide (c.key = key)) fun i c => rfl, rankIn]
  cases hindex : citations.findIdx? fun c => decide (c.key = key) with
  | none => rfl
  | some i =>
    have hlt : i < citations.length := (List.findIdx?_eq_some_iff_getElem.mp hindex).1
    rw [Option.bind_some, List.getElem?_eq_getElem hlt]
    rfl

/-- In a list that is sorted by descending scores, equal scores have one rank. -/
theorem groupRank_idxOf {close : ℚ → ℚ → Bool} (hclose : ∀ x, close x x = true) {scores : List ℚ}
    (hsorted : scores.Pairwise fun a b => b ≤ a) {i : ℕ} {score : ℚ} (h : scores[i]? = some score) :
    groupRank close scores i = groupRank close scores (scores.idxOf score) := by
  induction i with
  | zero =>
    have hzero : scores.idxOf score = 0 := by
      cases scores with
      | nil => simp at h
      | cons a rest =>
        rw [List.getElem?_cons_zero, Option.some.injEq] at h
        rw [h, List.idxOf_cons_self]
    rw [hzero]
  | succ i ih =>
    have hmem : score ∈ scores := List.mem_of_getElem? h
    have hlt : scores.idxOf score < scores.length := List.idxOf_lt_length_of_mem hmem
    have hfirst : scores[scores.idxOf score]? = some score := by
      rw [List.getElem?_eq_getElem hlt, List.getElem_idxOf]
    have hle : scores.idxOf score ≤ i + 1 := by
      by_contra hgt
      obtain ⟨hi, hget⟩ := List.getElem?_eq_some_iff.mp h
      have hother := List.not_of_lt_findIdx (p := (· == score)) (Nat.lt_of_not_ge hgt)
      rw [hget, beq_self_eq_true] at hother
      exact absurd hother (by decide)
    rcases Nat.lt_or_ge (scores.idxOf score) (i + 1) with hless | hge
    · have hprevious : scores[i]? = some score := by
        have hi : i + 1 < scores.length := (List.getElem?_eq_some_iff.mp h).1
        have hpairs := List.pairwise_iff_getElem.mp hsorted
        have hlast : scores[i + 1] = score := (List.getElem?_eq_some_iff.mp h).2
        have hnext := hpairs i (i + 1) (by omega) hi (by omega)
        rw [List.getElem?_eq_getElem (by omega), Option.some.injEq]
        rcases Nat.eq_or_lt_of_le (Nat.le_of_lt_succ hless) with heq | hlt'
        · rw [heq, List.getElem?_eq_getElem (by omega), Option.some.injEq] at hfirst
          exact hfirst
        · have hbefore := hpairs (scores.idxOf score) i hlt (by omega) hlt'
          rw [List.getElem_idxOf] at hbefore
          exact le_antisymm hbefore (hlast ▸ hnext)
      rw [groupRank_succ hprevious h, if_pos (hclose score), ih hprevious]
    · rw [Nat.le_antisymm hle hge]

/-- The ranked citations of a sorted channel depend on the scores only. -/
theorem ranked_eq_map {close : ℚ → ℚ → Bool} (hclose : ∀ x, close x x = true)
    {citations : List (ScoredCitation ℚ)}
    (hsorted : citations.Pairwise fun a b => b.score ≤ a.score) :
    ranked (exactScores close) citations = citations.map fun c =>
      (groupRank close (citations.map ScoredCitation.score)
        ((citations.map ScoredCitation.score).idxOf c.score), c) := by
  have hscores : (citations.map ScoredCitation.score).Pairwise fun a b => b ≤ a :=
    List.pairwise_map.mpr hsorted
  rw [ranked_eq_mapIdx]
  apply List.ext_getElem?
  intro i
  rw [List.getElem?_mapIdx, List.getElem?_map]
  cases hi : citations[i]? with
  | none => rfl
  | some c =>
    have hscore : (citations.map ScoredCitation.score)[i]? = some c.score := by
      rw [List.getElem?_map, hi]
      rfl
    exact congrArg (fun r => some (r, c)) (groupRank_idxOf hclose hscores hscore)

/-- The same citations with the same scores at every place. -/
structure SwapsTies (citations citations' : List (ScoredCitation ℚ)) : Prop where
  perm : citations.Perm citations'
  scores : citations.map ScoredCitation.score = citations'.map ScoredCitation.score

theorem perm_ranked {close : ℚ → ℚ → Bool} (hclose : ∀ x, close x x = true)
    {citations citations' : List (ScoredCitation ℚ)} (h : SwapsTies citations citations')
    (hsorted : citations.Pairwise fun a b => b.score ≤ a.score) :
    (ranked (exactScores close) citations).Perm (ranked (exactScores close) citations') := by
  have hsorted' : citations'.Pairwise fun a b => b.score ≤ a.score := by
    have hmap : (citations.map ScoredCitation.score).Pairwise fun a b => b ≤ a :=
      List.pairwise_map.mpr hsorted
    rw [h.scores] at hmap
    exact List.pairwise_map.mp hmap
  rw [ranked_eq_map hclose hsorted, ranked_eq_map hclose hsorted', h.scores]
  exact h.perm.map _

theorem find?_perm {α K : Type*} [DecidableEq K] {key : α → K} {l l' : List α} (h : l.Perm l')
    (hnodup : (l.map key).Nodup) (k : K) :
    (l.find? fun a => key a = k) = l'.find? fun a => key a = k := by
  have hunique : ∀ {l : List α}, (l.map key).Nodup → ∀ a,
      (l.find? fun a => key a = k) = some a ↔ a ∈ l ∧ key a = k := by
    intro l hl a
    constructor
    · intro hfind
      exact ⟨List.mem_of_find?_eq_some hfind, by simpa using List.find?_some hfind⟩
    · rintro ⟨ha, hkey⟩
      have hsome : (l.find? fun a => key a = k).isSome :=
        List.find?_isSome.mpr ⟨a, ha, decide_eq_true hkey⟩
      obtain ⟨b, hb⟩ := Option.isSome_iff_exists.mp hsome
      have hbkey : key b = k := by simpa using List.find?_some hb
      rw [hb, List.inj_on_of_nodup_map hl (List.mem_of_find?_eq_some hb) ha (hbkey.trans hkey.symm)]
  apply Option.ext
  intro a
  rw [hunique hnodup, hunique ((h.map key).nodup_iff.mp hnodup), h.mem_iff]

end RankFusion

end AgentDemo
