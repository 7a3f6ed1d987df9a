import AgentDemo.Services.Diversity
import Mathlib.Tactic.Linarith
import Mathlib.Tactic.Positivity

/-! With exact ratios, `diverse_indices` omits exactly the near duplicates. -/
namespace AgentDemo

def shingles (casefold : String → String) (text : String) : Finset (List Char) :=
  (fingerprint casefold text).toFinset

def shingleSimilarity (casefold : String → String) (a b : String) : ℚ :=
  ((shingles casefold a ∩ shingles casefold b).card : ℚ) /
    ((max (shingles casefold a ∪ shingles casefold b).card 1 : ℕ) : ℚ)

/-- Two places with almost the same text and, if there are contexts, with the same context. -/
def NearDuplicate (casefold : String → String) (texts : List String)
    (contexts : Option (List String)) (i j : ℕ) : Prop :=
  19 / 20 ≤ shingleSimilarity casefold (texts.getD i "") (texts.getD j "") ∧
    ∀ cs ∈ contexts, cs.getD i "" = cs.getD j ""

/-- `diverse_indices` with exact ratios. -/
def exactDiverseIndices (casefold : String → String) (texts : List String) (limit : ℕ)
    (contexts : Option (List String)) : List ℕ :=
  Diversity.indices exactRatios ⟨texts.map (fingerprint casefold), contexts⟩ limit texts.length

/-- Distinct places of the texts without near duplicates, which only leave out near duplicates
below the limit. -/
structure DiverseSelection (casefold : String → String) (texts : List String)
    (contexts : Option (List String)) (limit : ℕ) (selected : List ℕ) : Prop where
  nodup : selected.Nodup
  valid : ∀ i ∈ selected, i < texts.length
  length_le : selected.length ≤ limit
  starts : texts ≠ [] → 0 < limit → selected.head? = some 0
  distinct : ∀ i ∈ selected, ∀ j ∈ selected, i ≠ j → ¬ NearDuplicate casefold texts contexts i j
  complete : selected.length < limit → ∀ i < texts.length, i ∉ selected →
    ∃ j ∈ selected, NearDuplicate casefold texts contexts i j

namespace Diversity

theorem jaccard_exactRatios {a b : List (List Char)} (ha : a.Nodup) (hb : b.Nodup) :
    jaccard exactRatios a b = ((a.toFinset ∩ b.toFinset).card : ℚ) /
      ((max (a.toFinset ∪ b.toFinset).card 1 : ℕ) : ℚ) := by
  have hinter : (a.filter (· ∈ b)).length = (a.toFinset ∩ b.toFinset).card := by
    rw [← List.toFinset_card_of_nodup (ha.filter _)]
    congr 1
    ext x
    simp
  have hunion : a.length + (b.filter (· ∉ a)).length = (a.toFinset ∪ b.toFinset).card := by
    rw [← List.toFinset_card_of_nodup (hb.filter _), ← List.toFinset_card_of_nodup ha,
      Finset.union_comm, ← Finset.card_sdiff_add_card, Nat.add_comm]
    congr 2
    ext x
    simp
  rw [jaccard, hinter, hunion]
  rfl

theorem nodup_fingerprint (casefold : String → String) (text : String) :
    (fingerprint casefold text).Nodup :=
  List.nodup_dedup _

theorem getD_map_fingerprint (casefold : String → String) {texts : List String} {i : ℕ}
    (h : i < texts.length) :
    (texts.map (fingerprint casefold)).getD i [] = fingerprint casefold (texts.getD i "") := by
  simp [List.getD_eq_getElem?_getD, List.getElem?_eq_getElem h]

theorem similarity_exactRatios (casefold : String → String) {texts : List String}
    (contexts : Option (List String)) {i j : ℕ} (hi : i < texts.length) (hj : j < texts.length) :
    similarity exactRatios ⟨texts.map (fingerprint casefold), contexts⟩ i j =
      shingleSimilarity casefold (texts.getD i "") (texts.getD j "") := by
  rw [similarity, getD_map_fingerprint casefold hi, getD_map_fingerprint casefold hj,
    jaccard_exactRatios (nodup_fingerprint _ _) (nodup_fingerprint _ _)]
  rfl

/-- The greatest of several numbers is large when one of them is. -/
theorem near_maxOf (values : List ℚ) :
    exactRatios.near (maxOf exactRatios values) = values.any exactRatios.near := by
  have hfold : ∀ (rest : List ℚ) (m : ℚ), exactRatios.near
      (rest.foldl (fun m y => if exactRatios.less m y then y else m) m) =
        (exactRatios.near m || rest.any exactRatios.near) := by
    intro rest
    induction rest with
    | nil => simp
    | cons y rest ih =>
      intro m
      have hstep : exactRatios.near (if exactRatios.less m y then y else m) =
          (exactRatios.near m || exactRatios.near y) := by
        simp only [exactRatios, decide_eq_true_eq, ge_iff_le]
        split_ifs with hless
        · by_cases hm : 19 / 20 ≤ m
          · have hy : 19 / 20 ≤ y := le_trans hm hless.le
            simp [hm, hy]
          · simp [hm]
        · by_cases hy : 19 / 20 ≤ y
          · have hm : 19 / 20 ≤ m := le_trans hy (not_lt.mp hless)
            simp [hm, hy]
          · simp [hy]
      rw [List.foldl_cons, ih, hstep, List.any_cons, Bool.or_assoc]
  cases values with
  | nil => simp [maxOf, exactRatios]
  | cons x xs => exact hfold xs x

def Duplicate (d : DiversityInput) (index other : ℕ) : Prop :=
  exactRatios.near (similarity exactRatios d index other) = true ∧
    ∀ cs ∈ d.contexts, cs.getD index "" = cs.getD other ""

theorem score_eq_none {d : DiversityInput} {selected : List ℕ} {index : ℕ} :
    score exactRatios d selected index = none ↔ ∃ other ∈ selected, Duplicate d index other := by
  have hany : exactRatios.near (maxOf exactRatios (selected.map (similarity exactRatios d index))) =
      selected.any fun other => exactRatios.near (similarity exactRatios d index other) := by
    rw [near_maxOf, List.any_map]
    rfl
  simp only [score, hany, Duplicate]
  cases d.contexts with
  | none => simp
  | some cs =>
    simp only [Option.mem_some_iff, ite_eq_left_iff, reduceCtorEq, imp_false, not_not,
      Bool.and_eq_true, List.any_eq_true, decide_eq_true_eq]
    constructor
    · rintro ⟨-, other, hother, hcontext, hnear⟩
      refine ⟨other, hother, hnear, ?_⟩
      rintro _ rfl
      exact hcontext
    · rintro ⟨other, hother, hnear, hcontext⟩
      exact ⟨⟨other, hother, hnear⟩, other, hother, hcontext cs rfl, hnear⟩

theorem avoids_pick (d : DiversityInput) : Greedy.Avoids (pick exactRatios d) (Duplicate d) where
  free := by
    intro selected remaining a hpick b hb hduplicate
    have hsome := (exists_score_of_pick hpick).2
    rw [score_eq_none.mpr ⟨b, hb, hduplicate⟩] at hsome
    exact absurd hsome (by simp)
  full := by
    intro selected remaining hpick a ha
    exact score_eq_none.mp (score_eq_none_of_pick hpick ha)

/-! The first round. -/

theorem foldl_better_of_less {first : ℚ × ℕ} {ranked : List (ℚ × ℕ)}
    (h : ∀ p ∈ ranked, p.1 < first.1) : ranked.foldl (better exactRatios) first = first := by
  induction ranked with
  | nil => rfl
  | cons p rest ih =>
    have hp : p.1 < first.1 := h p List.mem_cons_self
    have hbetter : better exactRatios first p = first := by
      simp [better, exactRatios, hp.ne', not_lt.mpr hp.le]
    rw [List.foldl_cons, hbetter]
    exact ih fun q hq => h q (List.mem_cons_of_mem _ hq)

theorem score_nil (d : DiversityInput) (index : ℕ) :
    score exactRatios d [] index =
      some (7 / 10 * (1 - index / ((max d.fingerprints.length 1 : ℕ) : ℚ)) - 3 / 10 * 0,
        index) := by
  have hzero : exactRatios.near (0 : ℚ) = false := by
    simp [exactRatios]
  have hmax : maxOf exactRatios [] = (0 : ℚ) := rfl
  simp only [score, List.map_nil, hmax, hzero, Bool.false_and, Bool.false_eq_true, if_false]
  rfl

theorem pick_nil_range {d : DiversityInput} (h : d.fingerprints ≠ []) :
    pick exactRatios d [] (List.range d.fingerprints.length) = some 0 := by
  obtain ⟨k, hk⟩ := Nat.exists_eq_succ_of_ne_zero (List.length_pos_iff.mpr h).ne'
  have hpositive : (0 : ℚ) < ((max d.fingerprints.length 1 : ℕ) : ℚ) := by
    exact_mod_cast Nat.lt_of_lt_of_le Nat.zero_lt_one (Nat.le_max_right _ _)
  have hranked : ∀ p ∈ (List.range k).map Nat.succ |>.filterMap (score exactRatios d []),
      p.1 <
        7 / 10 * (1 - ((0 : ℕ) : ℚ) / ((max d.fingerprints.length 1 : ℕ) : ℚ)) - 3 / 10 * 0 := by
    intro p hp
    rw [List.mem_filterMap] at hp
    obtain ⟨i, hi, hscore⟩ := hp
    obtain ⟨i', -, rfl⟩ := List.mem_map.mp hi
    rw [score_nil] at hscore
    rw [← Option.some.inj hscore]
    have hplace : (0 : ℚ) < ((i'.succ : ℕ) : ℚ) / ((max d.fingerprints.length 1 : ℕ) : ℚ) :=
      div_pos (by exact_mod_cast i'.succ_pos) hpositive
    rw [Nat.cast_zero, zero_div]
    linarith
  rw [hk, List.range_succ_eq_map, pick, List.filterMap_cons, score_nil]
  simp only
  rw [foldl_better_of_less hranked]

theorem head?_indices {d : DiversityInput} {limit fuel : ℕ} (h : d.fingerprints ≠ [])
    (hlimit : 0 < limit) (hfuel : 0 < fuel) :
    (indices exactRatios d limit fuel).head? = some 0 := by
  obtain ⟨fuel, rfl⟩ := Nat.exists_eq_succ_of_ne_zero hfuel.ne'
  have hempty : ¬ limit ≤ ([] : List ℕ).length := Nat.not_le_of_lt hlimit
  have hfirst : [0] <+: indices exactRatios d limit fuel.succ := by
    rw [indices, Greedy.select, if_neg hempty, pick_nil_range h]
    exact Greedy.isPrefix_select limit fuel _ _
  obtain ⟨rest, hrest⟩ := hfirst
  rw [← hrest]
  rfl

end Diversity

section Selection

variable (casefold : String → String) (texts : List String) (contexts : Option (List String))

theorem duplicate_iff {i j : ℕ} (hi : i < texts.length) (hj : j < texts.length) :
    Diversity.Duplicate ⟨texts.map (fingerprint casefold), contexts⟩ i j ↔
      NearDuplicate casefold texts contexts i j := by
  rw [Diversity.Duplicate, Diversity.similarity_exactRatios casefold contexts hi hj, NearDuplicate]
  simp [exactRatios]

theorem nearDuplicate_symm {i j : ℕ} (h : NearDuplicate casefold texts contexts i j) :
    NearDuplicate casefold texts contexts j i := by
  constructor
  · have hsymm : shingleSimilarity casefold (texts.getD j "") (texts.getD i "") =
        shingleSimilarity casefold (texts.getD i "") (texts.getD j "") := by
      rw [shingleSimilarity, Finset.inter_comm, Finset.union_comm]
      rfl
    rw [hsymm]
    exact h.1
  · intro cs hcs
    exact (h.2 cs hcs).symm

/-- `diverse_indices` ends after as many rounds as there are texts, with a diverse selection. -/
theorem exactDiverseIndices_spec (limit : ℕ) :
    DiverseSelection casefold texts contexts limit
        (exactDiverseIndices casefold texts limit contexts) ∧
      ∀ fuel, texts.length ≤ fuel → Diversity.indices exactRatios
        ⟨texts.map (fingerprint casefold), contexts⟩ limit fuel =
          exactDiverseIndices casefold texts limit contexts := by
  set d : DiversityInput := ⟨texts.map (fingerprint casefold), contexts⟩ with hd
  have hcount : d.fingerprints.length = texts.length := List.length_map _
  set selected := exactDiverseIndices casefold texts limit contexts with hselected
  have htakes := Diversity.takes_pick exactRatios d
  have havoids := Diversity.avoids_pick d
  obtain ⟨hnodup, hvalid, hlimit⟩ := Diversity.indices_valid exactRatios d limit texts.length
  rw [hcount] at hvalid
  have hrange : (List.range d.fingerprints.length).length ≤ texts.length := by
    rw [List.length_range, hcount]
  refine ⟨⟨hnodup, hvalid, hlimit, ?starts, ?distinct, ?complete⟩, ?ends⟩
  case ends =>
    intro fuel hfuel
    exact Greedy.select_of_length_le htakes (hrange.trans hfuel) hrange
  case starts =>
    intro htexts hpositive
    have hfingerprints : d.fingerprints ≠ [] := by
      simpa [hd] using htexts
    exact Diversity.head?_indices hfingerprints hpositive (List.length_pos_iff.mpr htexts)
  case distinct =>
    intro i hi j hj hne hduplicate
    have hpairs : selected.Pairwise fun j i => ¬ NearDuplicate casefold texts contexts i j := by
      refine (Greedy.pairwise_select havoids limit texts.length _).imp_of_mem ?_
      intro b a hb ha hfree hnear
      exact hfree ((duplicate_iff casefold texts contexts (hvalid a ha) (hvalid b hb)).mpr hnear)
    have hsymm : Std.Symm fun j i => ¬ NearDuplicate casefold texts contexts i j :=
      ⟨fun a b hab hba => hab (nearDuplicate_symm casefold texts contexts hba)⟩
    exact hpairs.forall hi hj hne (nearDuplicate_symm casefold texts contexts hduplicate)
  case complete =>
    intro hless i hi hnot
    have hmem : i ∈ List.range d.fingerprints.length := List.mem_range.mpr (hcount ▸ hi)
    obtain ⟨j, hj, hduplicate⟩ := Greedy.exists_conflict htakes havoids hrange hless hmem hnot
    exact ⟨j, hj, (duplicate_iff casefold texts contexts hi (hvalid j hj)).mp hduplicate⟩

end Selection

end AgentDemo
