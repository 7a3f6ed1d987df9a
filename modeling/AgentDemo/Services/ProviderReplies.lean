import AgentDemo.Services.RetrievalReranker
import Mathlib.Data.List.Perm.Subperm

/-! JSON of a provider as `json.loads` delivers it, and what `RetrievalReranker._request` makes
of an answer. -/
namespace AgentDemo

/-- A JSON value of a provider. -/
inductive ProviderJson where
  | null
  | bool (b : Bool)
  | int (n : ℤ)
  | float (x : Float)
  | str (s : String)
  | list (items : List ProviderJson)
  | dict (fields : List (String × ProviderJson))

namespace ProviderJson

/-- `value.get(key)`; a value that is no dictionary has no `get`. -/
def get (value : ProviderJson) (key : String) : Option ProviderJson :=
  match value with
  | .dict fields => some ((fields.lookup key).getD .null)
  | _ => none

/-- An `int` that is no `bool`. -/
def integer : ProviderJson → Option ℤ
  | .int n => some n
  | _ => none

/-- `float(value)` of an `int` or a `float`; beyond the range of floats it is infinite, where Python
raises. -/
def number : ProviderJson → Option Float
  | .int n => some (Float.ofInt n)
  | .float x => some x
  | _ => none

end ProviderJson

/-- What becomes of one request: an exception of the client, or a status and the blocks of the body
until the stream closes or breaks. -/
inductive RerankReply where
  | failed
  | answered (status : ℕ) (blocks : List (List UInt8)) (broken : Bool)

def maxResponseBytes : ℕ := 262144

/-- The loop over `response.aiter_bytes()`; `none` is the `ValueError`. -/
def readBlocks : List UInt8 → List (List UInt8) → Option (List UInt8)
  | raw, [] => some raw
  | raw, block :: blocks =>
    if (raw ++ block).length > maxResponseBytes then none else readBlocks (raw ++ block) blocks

def ProviderJson.rerankRow (row : ProviderJson) : RerankRow :=
  ⟨(row.get "index").bind integer, (row.get "relevance_score").bind number⟩

/-- `_request` up to the entries of `results`; `loads` is `json.loads`, and `none` any exception. -/
def rerankRequest (loads : List UInt8 → Option ProviderJson)
    (service : String → List String → RerankReply) (query : String) (documents : List String) :
    Option (List RerankRow) :=
  match service query documents with
  | .failed => none
  | .answered status blocks broken =>
    if 200 ≤ status ∧ status < 300 then do
      let raw ← readBlocks [] blocks
      let data ← if broken then none else loads raw
      match ← data.get "results" with
      | .list rows => some (rows.map ProviderJson.rerankRow)
      | _ => none
    else none

/-- Indices below `n` without repetition, as many as there are. -/
theorem perm_range_of_nodup {indices : List ℕ} {n : ℕ} (hnodup : indices.Nodup)
    (hlt : ∀ i ∈ indices, i < n) (hlength : indices.length = n) : indices.Perm (List.range n) := by
  have hsubset : indices ⊆ List.range n := fun i hi => List.mem_range.mpr (hlt i hi)
  apply (hnodup.subperm hsubset).perm_of_length_le
  rw [List.length_range, hlength]

end AgentDemo
