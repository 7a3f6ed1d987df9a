import Mathlib.Logic.Relation
import Mathlib.Order.Basic

/-! Labelled transition relations: runs, invariants along a run, quantities that the
steps use up, restricted runs and projections onto a smaller system. -/
namespace Transition

variable {S A T B : Type*}

/-- Some run of `R` leads from the first state to the second. -/
def Reaches (R : S → A → S → Prop) : S → S → Prop :=
  Relation.ReflTransGen fun s t => ∃ a, R s a t

/-- The steps of `R` whose state and action meet a condition. -/
def Restrict (R : S → A → S → Prop) (ok : S → A → Prop) (s : S) (a : A) (t : S) : Prop :=
  R s a t ∧ ok s a

/-- The relation of a guarded step function; `none` means that the action is not enabled. -/
def ofStep (step : S → A → Option S) (s : S) (a : A) (t : S) : Prop := step s a = some t

/-- Replay a list of actions. -/
def exec (step : S → A → Option S) : S → List A → Option S
  | s, [] => some s
  | s, a :: as => (step s a).bind fun t => exec step t as

/-- Every step of the run of these actions meets the condition. -/
def Meets (step : S → A → Option S) (ok : S → A → Prop) : S → List A → Prop
  | _, [] => True
  | s, a :: as => ok s a ∧ ∀ t, step s a = some t → Meets step ok t as

/-- A property that each step keeps exactly under a condition holds at the end of the runs whose
steps all meet it. -/
theorem exec_iff_meets {step : S → A → Option S} {I P : S → Prop} {ok : S → A → Prop}
    (hstep : ∀ s a t, I s → step s a = some t → I t ∧ (P t ↔ P s ∧ ok s a)) {s t : S}
    {as : List A} (hs : I s) (h : exec step s as = some t) :
    I t ∧ (P t ↔ P s ∧ Meets step ok s as) := by
  induction as generalizing s with
  | nil =>
    obtain rfl : s = t := Option.some.inj h
    exact ⟨hs, by simp [Meets]⟩
  | cons a as ih =>
    obtain ⟨u, hu, hrest⟩ := Option.bind_eq_some_iff.mp h
    obtain ⟨hIu, hPu⟩ := hstep s a u hs hu
    obtain ⟨hIt, hPt⟩ := ih hIu hrest
    refine ⟨hIt, hPt.trans ?_⟩
    rw [hPu, and_assoc, Meets]
    constructor
    · rintro ⟨hP, hok, hmeets⟩
      refine ⟨hP, hok, fun v hv => ?_⟩
      obtain rfl : u = v := Option.some.inj (hu.symm.trans hv)
      exact hmeets
    · rintro ⟨hP, hok, hmeets⟩
      exact ⟨hP, hok, hmeets u hu⟩

/-- An invariant of the steps with certain actions holds along the runs of these actions. -/
theorem exec_invariant {step : S → A → Option S} {I : S → Prop} {ok : A → Prop}
    (hstep : ∀ s a t, I s → ok a → step s a = some t → I t) {s t : S} {as : List A} (hs : I s)
    (hok : ∀ a ∈ as, ok a) (h : exec step s as = some t) : I t := by
  induction as generalizing s with
  | nil =>
    obtain rfl : s = t := Option.some.inj h
    exact hs
  | cons a as ih =>
    obtain ⟨u, hu, hrest⟩ := Option.bind_eq_some_iff.mp h
    exact ih (hstep s a u hs (hok a List.mem_cons_self) hu)
      (fun b hb => hok b (List.mem_cons_of_mem a hb)) hrest

/-- A run is no longer than a quantity that each of its steps decreases. -/
theorem exec_length_le {step : S → A → Option S} {I : S → Prop} {ok : A → Prop} {f : S → ℕ}
    (hstep : ∀ s a t, I s → ok a → step s a = some t → I t ∧ f t < f s) {s t : S} {as : List A}
    (hs : I s) (hok : ∀ a ∈ as, ok a) (h : exec step s as = some t) :
    I t ∧ as.length + f t ≤ f s := by
  induction as generalizing s with
  | nil =>
    obtain rfl : s = t := Option.some.inj h
    exact ⟨hs, by simp⟩
  | cons a as ih =>
    obtain ⟨u, hu, hrest⟩ := Option.bind_eq_some_iff.mp h
    obtain ⟨hIu, hlt⟩ := hstep s a u hs (hok a List.mem_cons_self) hu
    obtain ⟨hIt, hle⟩ := ih hIu (fun b hb => hok b (List.mem_cons_of_mem a hb)) hrest
    refine ⟨hIt, ?_⟩
    rw [List.length_cons]
    omega

namespace Reaches

variable {R : S → A → S → Prop} {s t u : S}

@[refl] theorem refl (s : S) : Reaches R s s := Relation.ReflTransGen.refl

theorem tail (h : Reaches R s t) {a : A} (ha : R t a u) : Reaches R s u :=
  Relation.ReflTransGen.tail h ⟨a, ha⟩

theorem trans (h : Reaches R s t) (h' : Reaches R t u) : Reaches R s u :=
  Relation.ReflTransGen.trans h h'

/-- The induction rule of inductive invariants. -/
theorem invariant {I : S → Prop} (h : Reaches R s t) (hs : I s)
    (hstep : ∀ u a v, I u → R u a v → I v) : I t := by
  induction h with
  | refl => exact hs
  | tail _ hlast ih =>
    obtain ⟨a, ha⟩ := hlast
    exact hstep _ a _ ih ha

/-- An invariant may be proved with the help of another one that is already known. -/
theorem invariant_of {I J : S → Prop} (h : Reaches R s t)
    (hJ : ∀ u, Reaches R s u → J u) (hs : I s)
    (hstep : ∀ u a v, J u → I u → R u a v → I v) : I t := by
  induction h with
  | refl => exact hs
  | @tail b c hb hlast ih =>
    obtain ⟨a, ha⟩ := hlast
    exact hstep b a c (hJ b hb) ih ha

theorem of_restrict {ok : S → A → Prop} (h : Reaches (Restrict R ok) s t) : Reaches R s t :=
  h.invariant (refl s) fun _ _ _ hu hv => hu.tail hv.1

/-- If every step is either invisible through `f` or a step of `Q`, runs project to runs. -/
theorem project {Q : T → B → T → Prop} (f : S → T) (h : Reaches R s t)
    (hsim : ∀ u a v, R u a v → f v = f u ∨ ∃ b, Q (f u) b (f v)) :
    Reaches Q (f s) (f t) := by
  refine h.invariant (I := fun v => Reaches Q (f s) (f v)) (refl _) fun u a v hu hv => ?_
  rcases hsim u a v hv with heq | ⟨b, hb⟩
  · rwa [heq]
  · exact hu.tail hb

theorem of_exec {step : S → A → Option S} (as : List A) (h : exec step s as = some t) :
    Reaches (ofStep step) s t := by
  induction as generalizing s with
  | nil =>
    have : s = t := Option.some.inj h
    exact this ▸ refl s
  | cons a as ih =>
    obtain ⟨m, hm, hrest⟩ := Option.bind_eq_some_iff.mp h
    exact (refl s).tail hm |>.trans (ih hrest)

end Reaches

end Transition
