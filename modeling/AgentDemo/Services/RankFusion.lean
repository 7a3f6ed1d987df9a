import AgentDemo.Library.Dictionary
import AgentDemo.Services.Rag

/-! `RagService._fuse` over any kind of numbers. -/
namespace AgentDemo

open Dictionary RagService

/-- What `_fuse` does with scores; `share` is `1 / (RRF_K + rank)`, `same` and `less` compare the
negated scores, and `close` is `math.isclose`. -/
structure ScoreArithmetic (S : Type) where
  zero : S
  add : S → S → S
  share : ℕ → S
  same : S → S → Bool
  less : S → S → Bool
  close : S → S → Bool

def floatScores : ScoreArithmetic Float where
  zero := 0
  add := (· + ·)
  share := fun rank => 1 / (rrfK + rank).toFloat
  same := fun a b => (-a) == (-b)
  less := fun a b => -a < -b
  close := isClose

/-- Exact numbers, with any notion of closeness. -/
def exactScores (close : ℚ → ℚ → Bool) : ScoreArithmetic ℚ where
  zero := 0
  add := (· + ·)
  share := fun rank => 1 / (rrfK + rank)
  same := fun a b => -a = -b
  less := fun a b => -a < -b
  close := close

inductive EvidenceItem (S : Type) where
  | json (value : Json)
  | rank (n : ℕ)
  | score (x : S)
  | text (s : String)

/-- A citation with a score of any kind. -/
structure ScoredCitation (S : Type) where
  documentId : String
  title : String
  chunkIndex : ℤ
  content : String
  sourceType : String
  sourceUri : Option String
  score : S
  retrievalMethod : RetrievalMethod
  evidence : List (String × EvidenceItem S)

def ScoredCitation.key {S : Type} (c : ScoredCitation S) : CitationKey :=
  (c.documentId, c.chunkIndex)

namespace RankFusion

variable {S : Type}

structure State (S : Type) where
  merged : List (CitationKey × ScoredCitation S)
  scores : List (CitationKey × S)
  seen : List CitationKey
  previousScore : Option S
  rank : ℕ

/-- One citation of a channel, at its position. -/
def step (n : ScoreArithmetic S) (channel : String) (s : State S) (entry : ℕ × ScoredCitation S) :
    State S :=
  let (position, c) := entry
  let rank := if s.previousScore.any (n.close c.score) then s.rank else position
  let s := { s with previousScore := some c.score, rank }
  if c.key ∈ s.seen then s
  else
    let existing := (s.merged.lookup c.key).getD c
    let evidence := put (put existing.evidence (channel ++ "_rank") (.rank rank))
      (channel ++ "_score") (.score c.score)
    let score := n.add ((s.scores.lookup c.key).getD n.zero) (n.share rank)
    { s with
      seen := s.seen ++ [c.key]
      scores := put s.scores c.key score
      merged :=
        put s.merged c.key { existing with score, retrievalMethod := .hybridRrf, evidence } }

def runChannel (n : ScoreArithmetic S) (channel : String) (s : State S)
    (citations : List (ScoredCitation S)) : State S :=
  (citations.zipIdx.map fun p => (p.2 + 1, p.1)).foldl (step n channel)
    { s with seen := [], previousScore := none, rank := 0 }

/-- `evidence.get("keyword_rank", MAX_CANDIDATES + 1)`. -/
def keywordRank (c : ScoredCitation S) : ℕ :=
  match c.evidence.lookup "keyword_rank" with
  | some (.rank r) => r
  | _ => maxCandidates + 1

/-- The order of the fused citations. -/
def before (n : ScoreArithmetic S) (a b : CitationKey × ScoredCitation S) : Bool :=
  if n.same a.2.score b.2.score then
    if keywordRank a.2 = keywordRank b.2 then
      if a.1.1 = b.1.1 then a.1.2 < b.1.2 else a.1.1 < b.1.1
    else keywordRank a.2 < keywordRank b.2
  else n.less a.2.score b.2.score

/-- The dictionary `merged` behind both channels. -/
def merge (n : ScoreArithmetic S) (vector keyword : List (ScoredCitation S)) :
    List (CitationKey × ScoredCitation S) :=
  (runChannel n "keyword" (runChannel n "vector" ⟨[], [], [], none, 0⟩ vector) keyword).merged

def fuse (n : ScoreArithmetic S) (vector keyword : List (ScoredCitation S)) (limit : ℕ) :
    List (ScoredCitation S) :=
  if vector = [] then keyword.take limit
  else if keyword = [] then vector.take limit
  else (((merge n vector keyword).mergeSort fun a b => !before n b a).take limit).map Prod.snd

end RankFusion

/-! The fusion of `RagService` is the one over floating-point numbers. -/

def EvidenceValue.item : EvidenceValue → EvidenceItem Float
  | .json value => .json value
  | .rank n => .rank n
  | .score x => .score x
  | .text s => .text s

def Evidence.items (evidence : Evidence) : List (String × EvidenceItem Float) :=
  evidence.map fun p => (p.1, p.2.item)

def Citation.scored (c : Citation) : ScoredCitation Float :=
  ⟨c.documentId, c.title, c.chunkIndex, c.content, c.sourceType, c.sourceUri, c.score,
    c.retrievalMethod, c.evidence.items⟩

namespace RagService

def FusionState.scored (s : FusionState) : RankFusion.State Float :=
  ⟨s.merged.map fun p => (p.1, p.2.scored), s.scores, s.seen, s.previousScore, s.rank⟩

theorem map_put {K V W : Type*} [DecidableEq K] (f : V → W) (d : List (K × V)) (key : K)
    (value : V) :
    (put d key value).map (fun p => (p.1, f p.2)) =
      put (d.map fun p => (p.1, f p.2)) key (f value) := by
  have hany : (d.map fun p => (p.1, f p.2)).any (·.1 = key) = d.any (·.1 = key) := by
    rw [List.any_map]
    rfl
  unfold put
  rw [hany]
  split_ifs
  · rw [List.map_map, List.map_map]
    refine List.map_congr_left fun p _ => ?_
    by_cases hp : p.1 = key <;> simp [hp]
  · rw [List.map_append]
    rfl

theorem lookup_map {K V W : Type*} [BEq K] (f : V → W) (d : List (K × V)) (key : K) :
    (d.map fun p => (p.1, f p.2)).lookup key = (d.lookup key).map f := by
  induction d with
  | nil => rfl
  | cons p rest ih =>
    rw [List.map_cons, List.lookup_cons, List.lookup_cons, ih]
    cases key == p.1 <;> rfl

theorem items_put (evidence : Evidence) (key : String) (value : EvidenceValue) :
    (evidence.put key value).items = put evidence.items key value.item :=
  map_put EvidenceValue.item evidence key value

theorem lookup_scored (merged : List (CitationKey × Citation)) (key : CitationKey) :
    (merged.map fun p => (p.1, p.2.scored)).lookup key = (merged.lookup key).map Citation.scored :=
  lookup_map _ _ _

theorem scored_fuseStep (channel : String) (s : FusionState) (entry : ℕ × Citation) :
    (fuseStep channel s entry).scored =
      RankFusion.step floatScores channel s.scored (entry.1, entry.2.scored) := by
  obtain ⟨position, c⟩ := entry
  have hkey : c.scored.key = citationKey c := rfl
  simp only [fuseStep, RankFusion.step, hkey]
  by_cases hseen : citationKey c ∈ s.seen
  · simp only [FusionState.scored, hseen, if_true]
    rfl
  · have hexisting : ((s.scored.merged.lookup (citationKey c)).getD c.scored) =
        ((s.merged.lookup (citationKey c)).getD c).scored := by
      rw [FusionState.scored, lookup_scored]
      cases s.merged.lookup (citationKey c) <;> rfl
    simp only [FusionState.scored, hseen, if_false] at hexisting ⊢
    rw [hexisting, RankFusion.State.mk.injEq]
    refine ⟨?_, rfl, rfl, rfl, rfl⟩
    rw [map_put]
    simp only [Citation.scored, items_put]
    rfl

theorem scored_fuseChannel (channel : String) (s : FusionState) (citations : List Citation) :
    (fuseChannel channel s citations).scored =
      RankFusion.runChannel floatScores channel s.scored (citations.map Citation.scored) := by
  unfold fuseChannel RankFusion.runChannel
  have hentries : ((citations.map Citation.scored).zipIdx.map fun p => (p.2 + 1, p.1)) =
      (citations.zipIdx.map fun p => (p.2 + 1, p.1)).map fun e => (e.1, e.2.scored) := by
    rw [List.zipIdx_map, List.map_map, List.map_map]
    rfl
  have hstart : ∀ (entries : List (ℕ × Citation)) (s : FusionState),
      (entries.foldl (fuseStep channel) s).scored =
        (entries.map fun e => (e.1, e.2.scored)).foldl
          (RankFusion.step floatScores channel) s.scored := by
    intro entries
    induction entries with
    | nil => intro s; rfl
    | cons entry entries ih =>
      intro s
      rw [List.foldl_cons, ih, scored_fuseStep]
      rfl
  rw [hentries, hstart]
  rfl

theorem keywordRank_scored (c : Citation) : RankFusion.keywordRank c.scored = keywordRank c := by
  have hlookup : c.scored.evidence.lookup "keyword_rank" =
      (c.evidence.lookup "keyword_rank").map EvidenceValue.item := lookup_map _ _ _
  rw [RankFusion.keywordRank, hlookup, keywordRank]
  cases hitem : c.evidence.lookup "keyword_rank" with
  | none => rfl
  | some value => cases value <;> rfl

/-- `_fuse` is the fusion over floating-point numbers. -/
theorem scored_fuse (vector keyword : List Citation) (limit : ℕ) :
    (fuse vector keyword limit).map Citation.scored =
      RankFusion.fuse floatScores (vector.map Citation.scored)
        (keyword.map Citation.scored) limit := by
  unfold fuse RankFusion.fuse
  by_cases hvector : vector = []
  · simp [hvector]
  · by_cases hkeyword : keyword = []
    · simp [hvector, hkeyword]
    · have hmerge : RankFusion.merge floatScores (vector.map Citation.scored)
          (keyword.map Citation.scored) =
            (fuseChannel "keyword" (fuseChannel "vector" ⟨[], [], [], none, 0⟩ vector)
              keyword).merged.map fun p => (p.1, p.2.scored) := by
        have hboth :=
          scored_fuseChannel "keyword" (fuseChannel "vector" ⟨[], [], [], none, 0⟩ vector) keyword
        rw [scored_fuseChannel "vector"] at hboth
        exact (congrArg RankFusion.State.merged hboth).symm
      simp only [hvector, hkeyword, if_false, List.map_eq_nil_iff]
      rw [hmerge, ← List.map_mergeSort, ← List.map_take, List.map_map, List.map_map]
      · rfl
      · intro a _ b _
        simp only [RankFusion.before, fusedBefore, keywordRank_scored]
        rfl

end RagService

end AgentDemo
