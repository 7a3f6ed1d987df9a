import Mathlib.Data.List.Chain
import Mathlib.Data.List.Infix

/-! Lists split at every pair of one separator, from the left, and how a split continues when more
elements arrive. -/
namespace PairSplit

variable {α : Type*} {a : α}

def joinPair (a : α) (pieces : List (List α)) : List α := [a, a].intercalate pieces

theorem joinPair_cons {piece : List α} {pieces : List (List α)} (h : pieces ≠ []) :
    joinPair a (piece :: pieces) = piece ++ [a, a] ++ joinPair a pieces := by
  obtain ⟨next, rest, rfl⟩ := List.exists_cons_of_ne_nil h
  simp [joinPair, List.intercalate]

variable [DecidableEq α]

/-- The pieces between the pairs; there is always a last one. -/
def splitPair (a : α) : List α → List (List α)
  | [] => [[]]
  | [x] => [[x]]
  | x :: y :: rest =>
    if x = a ∧ y = a then [] :: splitPair a rest
    else (splitPair a (y :: rest)).modifyHead (x :: ·)

theorem splitPair_ne_nil (l : List α) : splitPair a l ≠ [] := by
  fun_induction splitPair a l with
  | case1 => simp
  | case2 => simp
  | case3 => simp
  | case4 x y rest _ ih =>
    intro h
    exact ih (List.modifyHead_eq_nil_iff.mp h)

theorem joinPair_splitPair (l : List α) : joinPair a (splitPair a l) = l := by
  fun_induction splitPair a l with
  | case1 => rfl
  | case2 => simp [joinPair, List.intercalate]
  | case3 x y rest h ih =>
    rw [joinPair_cons (splitPair_ne_nil rest), ih, h.1, h.2]
    rfl
  | case4 x y rest _ ih =>
    obtain ⟨piece, pieces, hsplit⟩ :=
      List.exists_cons_of_ne_nil (splitPair_ne_nil (a := a) (y :: rest))
    rw [hsplit] at ih ⊢
    cases pieces with
    | nil => simpa [joinPair, List.intercalate] using ih
    | cons next pieces =>
      rw [List.modifyHead_cons, joinPair_cons (List.cons_ne_nil _ _)]
      rw [joinPair_cons (List.cons_ne_nil _ _)] at ih
      rw [← ih]
      rfl

theorem splitPair_injective : Function.Injective (splitPair a) := by
  intro l l' h
  rw [← joinPair_splitPair (a := a) l, h, joinPair_splitPair]

/-- The pieces that are complete, the part of the list they take up, and the open piece: what
follows the complete part is split on its own. -/
structure Opened (a : α) (l : List α) (complete : List (List α)) (front open' : List α) : Prop where
  pieces : splitPair a l = complete ++ [open']
  parts : l = front ++ open'
  ends : front = [] ∨ ∃ before, front = before ++ [a, a]
  continues : ∀ l', splitPair a (front ++ l') = complete ++ splitPair a l'

theorem exists_opened (a : α) (l : List α) :
    ∃ complete front open', Opened a l complete front open' := by
  fun_induction splitPair a l with
  | case1 => exact ⟨[], [], [], rfl, rfl, Or.inl rfl, fun _ => rfl⟩
  | case2 x => exact ⟨[], [], [x], rfl, rfl, Or.inl rfl, fun _ => rfl⟩
  | case3 x y rest h ih =>
    obtain ⟨complete, front, open', hpieces, hparts, hends, hcontinues⟩ := ih
    refine ⟨[] :: complete, x :: y :: front, open', ?_, ?_, Or.inr ?_, fun l' => ?_⟩
    · rw [splitPair, if_pos h, hpieces]
      rfl
    · rw [hparts]
      rfl
    · rcases hends with rfl | ⟨before, rfl⟩
      · exact ⟨[], by rw [h.1, h.2]; rfl⟩
      · exact ⟨x :: y :: before, rfl⟩
    · rw [List.cons_append, List.cons_append, splitPair, if_pos h, hcontinues]
      rfl
  | case4 x y rest h ih =>
    obtain ⟨complete, front, open', hpieces, hparts, hends, hcontinues⟩ := ih
    cases front with
    | nil =>
      have hnil : complete = [] := by simpa using hcontinues open'
      subst hnil
      refine ⟨[], [], x :: open', ?_, ?_, Or.inl rfl, fun _ => rfl⟩
      · rw [splitPair, if_neg h, hpieces]
        rfl
      · rw [hparts]
        rfl
    | cons z front =>
      obtain rfl : z = y := (List.cons.inj hparts).1.symm
      cases complete with
      | nil =>
        have hself := splitPair_injective (hcontinues [])
        simp at hself
      | cons piece complete =>
        refine ⟨(x :: piece) :: complete, x :: z :: front, open', ?_, ?_, Or.inr ?_, fun l' => ?_⟩
        · rw [splitPair, if_neg h, hpieces]
          rfl
        · rw [hparts]
          rfl
        · obtain hends | ⟨before, hbefore⟩ := hends
          · cases hends
          · exact ⟨x :: before, by rw [hbefore]; rfl⟩
        · have hrest := hcontinues l'
          rw [List.cons_append] at hrest
          rw [List.cons_append, List.cons_append, splitPair, if_neg h, hrest]
          rfl

def Apart (a x y : α) : Prop := ¬ (x = a ∧ y = a)

/-- A piece without a pair is split off at the pair behind it. -/
theorem splitPair_append_pair {piece : List α} (h : (piece ++ [a]).IsChain (Apart a))
    (rest : List α) : splitPair a (piece ++ a :: a :: rest) = piece :: splitPair a rest := by
  induction piece with
  | nil => rw [List.nil_append, splitPair, if_pos ⟨rfl, rfl⟩]
  | cons x piece ih =>
    cases piece with
    | nil =>
      rw [List.singleton_append, List.isChain_pair] at h
      rw [List.singleton_append, splitPair, if_neg h, splitPair, if_pos ⟨rfl, rfl⟩]
      rfl
    | cons y piece =>
      rw [List.cons_append, List.cons_append, List.isChain_cons_cons] at h
      have hrest := ih h.2
      rw [List.cons_append] at hrest
      rw [List.cons_append, List.cons_append, splitPair, if_neg h.1, hrest]
      rfl

end PairSplit
