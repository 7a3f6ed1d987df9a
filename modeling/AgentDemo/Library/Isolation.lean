import Mathlib.Data.List.Basic

/-! Systems that serve several parties, and what one of them can see of the others. -/
namespace Isolation

variable {S A O : Type*}

/-- The state after a list of actions. -/
def run (step : S → A → S) : S → List A → S
  | s, [] => s
  | s, a :: as => run step (step s a) as

/-- The answers to the actions of one party, in their order. -/
def answers (step : S → A → S) (answer : S → A → O) (mine : A → Bool) : S → List A → List O
  | _, [] => []
  | s, a :: as =>
    if mine a then answer s a :: answers step answer mine (step s a) as
    else answers step answer mine (step s a) as

/-- Every action meets a condition in the state that it is taken in. -/
def Granted (step : S → A → S) (ok : S → A → Prop) : S → List A → Prop
  | _, [] => True
  | s, a :: as => ok s a ∧ Granted step ok (step s a) as

/-- The part of a state that belongs to one party is left alone by the actions of the others, and
its own actions need nothing else; `own` takes from an action what belongs to others. -/
structure Separates (step : S → A → S) (answer : S → A → O) (inv : S → Prop) (ok : S → A → Prop)
    (part : S → S) (mine : A → Bool) (own : A → A) : Prop where
  keeps : ∀ s a, inv s → ok s a → inv (step s a)
  hidden : ∀ s a, inv s → ok s a → mine a = false → part (step s a) = part s
  commutes : ∀ s a, inv s → ok s a → mine a = true → part (step s a) = step (part s) (own a)
  answered : ∀ s a, inv s → ok s a → mine a = true → answer s a = answer (part s) (own a)
  mine_own : ∀ a, mine (own a) = mine a

namespace Separates

variable {step : S → A → S} {answer : S → A → O} {inv : S → Prop} {ok : S → A → Prop}
  {part : S → S} {mine : A → Bool} {own : A → A}

/-- The part of a party and the answers to it are those of the run that it makes on its own. -/
theorem purge (h : Separates step answer inv ok part mine own) {s : S} (hs : inv s) {as : List A}
    (hok : Granted step ok s as) :
    part (run step s as) = run step (part s) ((as.filter mine).map own) ∧
      answers step answer mine s as =
        answers step answer mine (part s) ((as.filter mine).map own) := by
  induction as generalizing s with
  | nil => exact ⟨rfl, rfl⟩
  | cons a as ih =>
    obtain ⟨hpart, hanswers⟩ := ih (h.keeps s a hs hok.1) hok.2
    cases hmine : mine a with
    | true =>
      rw [h.commutes s a hs hok.1 hmine] at hpart hanswers
      rw [List.filter_cons_of_pos hmine]
      constructor
      · exact hpart
      · simp only [answers, List.map_cons, h.mine_own, hmine, if_true]
        rw [hanswers, h.answered s a hs hok.1 hmine]
    | false =>
      rw [h.hidden s a hs hok.1 hmine] at hpart hanswers
      rw [List.filter_cons_of_neg (by simp [hmine])]
      constructor
      · exact hpart
      · simp only [answers, hmine, Bool.false_eq_true, if_false]
        exact hanswers

end Separates

end Isolation
