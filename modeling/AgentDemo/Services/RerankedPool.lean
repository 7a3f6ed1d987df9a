import AgentDemo.Services.Diversity
import AgentDemo.Services.Rag
import AgentDemo.Services.RerankOrder
import Mathlib.Data.List.GetD

/-! `_rerank` chooses among the candidates and changes nothing but their evidence. -/
namespace AgentDemo

namespace RagService

variable (services : RetrievalServices)

def Restates (candidate c : Citation) : Prop :=
  ∃ evidence, c = { candidate with evidence }

/-- The citations are those at the places, with evidence of their own. -/
def PicksFrom (candidates : List Citation) : List ℕ → List Citation → Prop :=
  List.Forall₂ fun place c =>
    ∃ candidate, candidates[place]? = some candidate ∧ Restates candidate c

def rerankTexts (pool : List Citation) : List String :=
  pool.map fun c => c.context services ++ "\n\n" ++ c.content

def diverseChoice (pool : List Citation) (limit : ℕ) : List ℕ :=
  diverseIndices services.casefold (pool.map Citation.content) limit
    (some (pool.map fun c => c.context services))

theorem picksFrom_filterMap {α : Type} {pool : List Citation} {entries : List α} (place : α → ℕ)
    (mark : α → Citation → Citation) (hplaces : ∀ entry ∈ entries, place entry < pool.length)
    (hmark : ∀ entry c, Restates c (mark entry c)) :
    PicksFrom pool (entries.map place)
      (entries.filterMap fun entry => pool[place entry]?.map (mark entry)) := by
  induction entries with
  | nil => exact List.Forall₂.nil
  | cons entry entries ih =>
    have hlt : place entry < pool.length := hplaces entry List.mem_cons_self
    have hget : pool[place entry]? = some pool[place entry] := List.getElem?_eq_getElem hlt
    rw [List.filterMap_cons, hget]
    refine List.Forall₂.cons ⟨pool[place entry], hget, hmark entry _⟩ (ih fun e he => ?_)
    exact hplaces e (List.mem_cons_of_mem _ he)

theorem picksFrom_self (pool : List Citation) : PicksFrom pool (List.range pool.length) pool := by
  refine List.forall₂_iff_get.mpr
    ⟨List.length_range, fun i hi hlt => ⟨pool[i], ?_, pool[i].evidence, rfl⟩⟩
  rw [List.get_eq_getElem, List.getElem_range]
  exact List.getElem?_eq_getElem hlt

theorem PicksFrom.of_take {candidates pool : List Citation} {places : List ℕ} {n : ℕ}
    (h : PicksFrom (candidates.take n) places pool) : PicksFrom candidates places pool := by
  refine List.Forall₂.imp ?_ h
  rintro place c ⟨candidate, hcandidate, hsame⟩
  obtain ⟨hlt, hget⟩ := List.getElem?_eq_some_iff.mp hcandidate
  refine ⟨candidate, ?_, hsame⟩
  rw [← hget, List.getElem_take]
  exact List.getElem?_eq_getElem _

theorem PicksFrom.length_eq {candidates result : List Citation} {places : List ℕ}
    (h : PicksFrom candidates places result) : result.length = places.length :=
  (List.Forall₂.length_eq h).symm

/-- Choosing twice is choosing once, and the places stay distinct. -/
theorem PicksFrom.trans {candidates pool result : List Citation} {places chosen : List ℕ}
    (hpool : PicksFrom candidates places pool) (hresult : PicksFrom pool chosen result) :
    PicksFrom candidates (chosen.map fun place => places.getD place 0) result := by
  have hstep : ∀ place c, (∃ entry, pool[place]? = some entry ∧ Restates entry c) →
      ∃ candidate, candidates[places.getD place 0]? = some candidate ∧ Restates candidate c := by
    rintro place c ⟨entry, hentry, evidence, rfl⟩
    obtain ⟨hlt, hget⟩ := List.getElem?_eq_some_iff.mp hentry
    have hplace : place < places.length := hpool.length_eq ▸ hlt
    obtain ⟨candidate, hcandidate, evidence', hsame⟩ :=
      (List.forall₂_iff_get.mp hpool).2 place hplace hlt
    refine ⟨candidate, ?_, evidence, ?_⟩
    · rw [List.getD_eq_getElem _ _ hplace]
      exact hcandidate
    · rw [List.get_eq_getElem, hget] at hsame
      rw [hsame]
  exact List.forall₂_map_left_iff.mpr (List.Forall₂.imp hstep hresult)

theorem nodup_map_getD {places chosen : List ℕ} (hplaces : places.Nodup) (hchosen : chosen.Nodup)
    (hlt : ∀ place ∈ chosen, place < places.length) :
    (chosen.map fun place => places.getD place 0).Nodup := by
  refine hchosen.map_on fun a ha b hb hab => ?_
  rw [List.getD_eq_getElem _ _ (hlt a ha), List.getD_eq_getElem _ _ (hlt b hb)] at hab
  exact (hplaces.getElem_inj_iff).mp hab

theorem diverseChoice_valid (pool : List Citation) (limit : ℕ) :
    (diverseChoice services pool limit).Nodup ∧
      (∀ place ∈ diverseChoice services pool limit, place < pool.length) ∧
      (diverseChoice services pool limit).length ≤ limit := by
  have h := Diversity.indices_valid floatRatios
    ⟨(pool.map Citation.content).map (fingerprint services.casefold),
      some (pool.map fun c => c.context services)⟩ limit (pool.map Citation.content).length
  rw [← Diversity.diverseIndices_eq_indices] at h
  simp only [List.length_map] at h
  exact h

def rankedPool (settings : RetrievalSettings) (pool : List Citation)
    (ranked : List (ℕ × Float)) : List Citation :=
  ranked.filterMap fun entry => pool[entry.1]?.map fun c : Citation =>
    let evidence := c.evidence.put "rerank_score" (.score entry.2)
    { c with evidence := evidence.put "reranker" (.text settings.ragRerankModel) }

/-- The pool that `_rerank` chooses from. -/
def orderedPool (settings : RetrievalSettings) (query : String) (candidates : List Citation) :
    List Citation :=
  let pool := candidates.take settings.ragRerankCandidates
  match RetrievalReranker.rank settings services.rerank query (rerankTexts services pool) with
  | none => pool
  | some ranked => rankedPool settings pool ranked

theorem picksFrom_rankedPool {settings : RetrievalSettings} {pool : List Citation}
    {ranked : List (ℕ × Float)} (h : (ranked.map Prod.fst).Perm (List.range pool.length)) :
    PicksFrom pool (ranked.map Prod.fst) (rankedPool settings pool ranked) := by
  apply picksFrom_filterMap Prod.fst
  · intro entry hentry
    exact List.mem_range.mp (h.mem_iff.mp (List.mem_map_of_mem hentry))
  · intro entry c
    exact ⟨_, rfl⟩

/-- The pool holds the first candidates in some order. -/
theorem exists_picksFrom_orderedPool (settings : RetrievalSettings) (query : String)
    (candidates : List Citation) :
    ∃ places : List ℕ, places.Nodup ∧ (∀ place ∈ places, place < candidates.length) ∧
      PicksFrom candidates places (orderedPool services settings query candidates) := by
  have hlength : ∀ place ∈ List.range (candidates.take settings.ragRerankCandidates).length,
      place < candidates.length := by
    intro place hplace
    rw [List.mem_range, List.length_take] at hplace
    omega
  unfold orderedPool
  simp only
  cases hranked : RetrievalReranker.rank settings services.rerank query
      (rerankTexts services (candidates.take settings.ragRerankCandidates)) with
  | none => exact ⟨_, List.nodup_range, hlength, (picksFrom_self _).of_take⟩
  | some ranked =>
    have hperm := (rank_eq_some hranked).1
    rw [rerankTexts, List.length_map] at hperm
    refine ⟨ranked.map Prod.fst, hperm.nodup_iff.mpr List.nodup_range, ?_,
      (picksFrom_rankedPool hperm).of_take⟩
    intro place hplace
    exact hlength place (hperm.mem_iff.mp hplace)

/-- `_rerank` chooses from this pool. -/
theorem picksFrom_rerank (settings : RetrievalSettings) (query : String)
    (candidates : List Citation) (limit : ℕ) :
    PicksFrom (orderedPool services settings query candidates)
      (diverseChoice services (orderedPool services settings query candidates) limit)
      (rerank services settings query candidates limit) := by
  have hvalid := (diverseChoice_valid services (orderedPool services settings query candidates)
    limit).2.1
  rw [← List.map_id (diverseChoice services _ limit)]
  apply picksFrom_filterMap id _ hvalid
  intro place c
  exact ⟨_, rfl⟩

/-- `rank` returns nothing or every place once in order, and `_rerank` chooses among its candidates,
whatever the provider answers. -/
theorem rerank_spec (settings : RetrievalSettings) (loads : List UInt8 → Option ProviderJson)
    (service : String → List String → RerankReply) (query : String) (candidates : List Citation)
    (limit : ℕ) :
    let services := { services with rerank := rerankRequest loads service }
    let pool := candidates.take settings.ragRerankCandidates
    let result := rerank services settings query candidates limit
    (∀ documents ranked,
      RetrievalReranker.rank settings (rerankRequest loads service) query documents = some ranked →
        (ranked.map Prod.fst).Perm (List.range documents.length) ∧
          (∀ p ∈ ranked, p.2.isFinite = true) ∧ ranked.Pairwise RankedAfter) ∧
      result.length ≤ limit ∧
      (∃ places : List ℕ, places.Nodup ∧ (∀ place ∈ places, place < candidates.length) ∧
        PicksFrom candidates places result) ∧
      (RetrievalReranker.rank settings (rerankRequest loads service) query
          (rerankTexts services pool) = none →
        PicksFrom pool (diverseChoice services pool limit) result) := by
  intro services pool result
  have hresult := picksFrom_rerank services settings query candidates limit
  obtain ⟨hnodup, hlt, hlimit⟩ :=
    diverseChoice_valid services (orderedPool services settings query candidates) limit
  refine ⟨fun documents ranked h => rank_eq_some h, ?length, ?places, ?fallback⟩
  case length =>
    rw [hresult.length_eq]
    exact hlimit
  case places =>
    obtain ⟨places, hplaces, hvalid, hpool⟩ :=
      exists_picksFrom_orderedPool services settings query candidates
    have hinside : ∀ place ∈ diverseChoice services
        (orderedPool services settings query candidates) limit, place < places.length :=
      fun place hplace => hpool.length_eq ▸ hlt place hplace
    refine ⟨_, nodup_map_getD hplaces hnodup hinside, ?_, hpool.trans hresult⟩
    intro place hplace
    obtain ⟨chosen, hchosen, rfl⟩ := List.mem_map.mp hplace
    rw [List.getD_eq_getElem _ _ (hinside chosen hchosen)]
    exact hvalid _ (List.getElem_mem _)
  case fallback =>
    intro hnone
    have hordered : orderedPool services settings query candidates = pool := by
      unfold orderedPool
      simp only
      rw [show RetrievalReranker.rank settings services.rerank query _ = none from hnone]
    rw [hordered] at hresult
    exact hresult

end RagService

end AgentDemo
