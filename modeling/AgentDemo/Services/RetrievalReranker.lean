import AgentDemo.Values
import Mathlib.Data.List.Basic

/-! `retrieval_reranker.py`: the answer of the reranking service and the choice of diverse texts. -/
namespace AgentDemo

inductive RerankMode where
  | inProcess
  | api
  deriving DecidableEq

/-- The retrieval settings; `inProcess` is the mode `local`. -/
structure RetrievalSettings where
  ragRerankMode : RerankMode
  ragRerankUrl : String
  ragRerankModel : String
  ragRerankCandidates : ℕ

/-- An entry of `results`; a field of another type is `none`. -/
structure RerankRow where
  index : Option ℤ
  relevanceScore : Option Float

/-- The loop over the entries; `none` is the `ValueError`. -/
def rankedRows (count : ℕ) : List RerankRow → List (ℕ × Float) → Option (List (ℕ × Float))
  | [], ranked => some ranked
  | row :: rows, ranked =>
    match row.index, row.relevanceScore with
    | some index, some score =>
      if 0 ≤ index ∧ index < count ∧ index.toNat ∉ ranked.map Prod.fst ∧ score.isFinite then
        rankedRows count rows (ranked ++ [(index.toNat, score)])
      else none
    | _, _ => none

/-- The order of `key=lambda item: (-item[1], item[0])`. -/
def rankedBefore (a b : ℕ × Float) : Bool :=
  if (-a.2) == (-b.2) then a.1 < b.1 else -a.2 < -b.2

/-- `RetrievalReranker.rank`; `request` posts the texts and is `none` when it raises or when
`results` is no list. -/
def RetrievalReranker.rank (settings : RetrievalSettings)
    (request : String → List String → Option (List RerankRow)) (query : String)
    (documents : List String) : Option (List (ℕ × Float)) :=
  if settings.ragRerankMode ≠ .api ∨ settings.ragRerankUrl = "" ∨
      ¬ (2 ≤ documents.length ∧ documents.length ≤ settings.ragRerankCandidates) then none
  else do
    let rows ← request (takeText 2000 query) (documents.map (takeText 2000))
    if rows.length = documents.length then
      let ranked ← rankedRows documents.length rows []
      some (ranked.mergeSort fun a b => !rankedBefore b a)
    else none

/-- `text.split()`. -/
def splitWords (text : List Char) : List (List Char) :=
  (text.splitOnP isSpace).filter fun word => !word.isEmpty

/-- The set of shingles of a text. -/
def fingerprint (casefold : String → String) (text : String) : List (List Char) :=
  let clean := ([' '].intercalate (splitWords (casefold text).toList)).take 3000
  ((List.range (max 1 (clean.length - 2))).map fun i => (clean.drop i).take 3).dedup

def jaccard (a b : List (List Char)) : Float :=
  (a.filter (· ∈ b)).length.toFloat / (max (a.length + (b.filter (· ∉ a)).length) 1).toFloat

/-- `max(values, default=0.0)`. -/
def maxFloat : List Float → Float
  | [] => 0
  | x :: xs => xs.foldl (fun m y => if y > m then y else m) x

/-- What `diverse_indices` knows of its texts. -/
structure DiversityInput where
  fingerprints : List (List (List Char))
  contexts : Option (List String)

namespace DiversityInput

def similarity (d : DiversityInput) (index other : ℕ) : Float :=
  jaccard (d.fingerprints.getD index []) (d.fingerprints.getD other [])

/-- The rank of a text that is left, if it is not omitted as a duplicate. -/
def score (d : DiversityInput) (selected : List ℕ) (index : ℕ) : Option (Float × ℕ) :=
  let redundancy := maxFloat (selected.map (d.similarity index))
  let duplicateContext := match d.contexts with
    | none => true
    | some contexts => selected.any fun other =>
      contexts.getD index "" = contexts.getD other "" && d.similarity index other ≥ 0.95
  if redundancy ≥ 0.95 && duplicateContext then none
  else
    let relevance := 1 - index.toFloat / (max d.fingerprints.length 1).toFloat
    some (0.7 * relevance - 0.3 * redundancy, index)

def better (a b : Float × ℕ) : Float × ℕ :=
  if a.1 == b.1 then (if b.2 < a.2 then b else a) else if b.1 > a.1 then b else a

def loop (d : DiversityInput) (limit : ℕ) : ℕ → List ℕ → List ℕ → List ℕ
  | 0, selected, _ => selected
  | fuel + 1, selected, remaining =>
    if remaining = [] ∨ limit ≤ selected.length then selected
    else match remaining.filterMap (d.score selected) with
      | [] => selected
      | first :: ranked =>
        let chosen := (ranked.foldl better first).2
        loop d limit fuel (selected ++ [chosen]) (remaining.erase chosen)

end DiversityInput

/-- `diverse_indices`; every round takes an index out of the ones that are left. -/
def diverseIndices (casefold : String → String) (texts : List String) (limit : ℕ)
    (contexts : Option (List String)) : List ℕ :=
  DiversityInput.loop ⟨texts.map (fingerprint casefold), contexts⟩ limit texts.length []
    (List.range texts.length)

end AgentDemo
