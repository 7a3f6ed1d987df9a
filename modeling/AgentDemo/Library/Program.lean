import Mathlib.Order.Basic

/-! Programs that ask requests of their surroundings: sequencing, runs against a fixed set of
answers, and a rely-guarantee logic for runs whose surroundings change while a request waits. -/

/-- A program over requests `Q`, where a request `q` is answered by an `A q`. -/
inductive Program (Q : Type) (A : Q → Type) (α : Type) where
  | done (a : α)
  | ask (q : Q) (k : A q → Program Q A α)

namespace Program

variable {Q : Type} {A : Q → Type} {α β S : Type}

def bind : Program Q A α → (α → Program Q A β) → Program Q A β
  | .done a, f => f a
  | .ask q k, f => .ask q fun a => (k a).bind f

instance : Monad (Program Q A) where
  pure := .done
  bind := .bind

/-- Ask and return the answer. -/
def request (q : Q) : Program Q A (A q) := .ask q .done

@[simp] theorem pure_eq (a : α) : (pure a : Program Q A α) = .done a := rfl

@[simp] theorem bind_eq (p : Program Q A α) (f : α → Program Q A β) : p.bind f = (p >>= f) := rfl

@[simp] theorem done_bind (a : α) (f : α → Program Q A β) : (Program.done a >>= f) = f a := rfl

@[simp] theorem ask_bind (q : Q) (k : A q → Program Q A α) (f : α → Program Q A β) :
    (Program.ask q k >>= f) = .ask q fun a => k a >>= f := rfl

@[simp] theorem request_bind (q : Q) (f : A q → Program Q A β) :
    (request q >>= f) = .ask q f := rfl

/-- Answer whatever the surroundings can answer at once, up to the first request that waits. -/
def settle (look : (q : Q) → Option (A q)) : Program Q A α → Program Q A α
  | .done a => .done a
  | .ask q k =>
    match look q with
    | some a => (k a).settle look
    | none => .ask q k

/-- The requests of a whole run against fixed answers, and its result. -/
def run (answer : (q : Q) → A q) : Program Q A α → List Q × α
  | .done a => ([], a)
  | .ask q k => (q :: ((k (answer q)).run answer).1, ((k (answer q)).run answer).2)

section run

variable (answer : (q : Q) → A q)

@[simp] theorem run_done (a : α) : (Program.done a : Program Q A α).run answer = ([], a) := rfl

@[simp] theorem run_ask (q : Q) (k : A q → Program Q A α) :
    (Program.ask q k).run answer =
      (q :: ((k (answer q)).run answer).1, ((k (answer q)).run answer).2) := rfl

@[simp] theorem run_request (q : Q) :
    (request q : Program Q A (A q)).run answer = ([q], answer q) := rfl

theorem run_bind (p : Program Q A α) (f : α → Program Q A β) :
    (p >>= f).run answer = ((p.run answer).1 ++ ((f (p.run answer).2).run answer).1,
      ((f (p.run answer).2).run answer).2) := by
  induction p with
  | done a => rfl
  | ask q k ih => simp only [ask_bind, run_ask, ih, List.cons_append]

@[simp] theorem trace_bind (p : Program Q A α) (f : α → Program Q A β) :
    ((p >>= f).run answer).1 = (p.run answer).1 ++ ((f (p.run answer).2).run answer).1 := by
  rw [run_bind]

@[simp] theorem result_bind (p : Program Q A α) (f : α → Program Q A β) :
    ((p >>= f).run answer).2 = ((f (p.run answer).2).run answer).2 := by
  rw [run_bind]

end run

/-- Every request on every path meets `P`, and every result meets `post`. -/
def Asks (P : Q → Prop) (post : α → Prop) : Program Q A α → Prop
  | .done a => post a
  | .ask q k => P q ∧ ∀ a, (k a).Asks P post

namespace Asks

variable {P P' : Q → Prop} {post post' : α → Prop}

theorem request {q : Q} {post : A q → Prop} (h : P q) (hpost : ∀ a, post a) :
    (Program.request q : Program Q A (A q)).Asks P post := ⟨h, hpost⟩

theorem trivial (p : Program Q A α) : p.Asks (fun _ => True) fun _ => True := by
  induction p with
  | done a => exact True.intro
  | ask q k ih => exact ⟨True.intro, ih⟩

theorem mono {p : Program Q A α} (h : p.Asks P post) (hP : ∀ q, P q → P' q)
    (hpost : ∀ a, post a → post' a) : p.Asks P' post' := by
  induction p with
  | done a => exact hpost a h
  | ask q k ih => exact ⟨hP q h.1, fun a => ih a (h.2 a)⟩

theorem seq {p : Program Q A α} {f : α → Program Q A β} {mid : α → Prop} {post : β → Prop}
    (h : p.Asks P mid) (hf : ∀ a, mid a → (f a).Asks P post) : (p >>= f).Asks P post := by
  induction p with
  | done a => exact hf a h
  | ask q k ih => exact ⟨h.1, fun a => ih a (h.2 a)⟩

end Asks

/-- What a program may assume and must ensure. `look` answers at once from the shared state;
while any other request waits the state changes by `rely`; when it is answered `guar` must hold,
and the state becomes `next`. -/
structure Contract (Q : Type) (A : Q → Type) (S : Type) where
  look : S → (q : Q) → Option (A q)
  rely : Q → S → S → Prop
  guar : S → Q → Prop
  next : S → Q → S
  rely_refl : ∀ q s, rely q s s
  rely_trans : ∀ q s t u, rely q s t → rely q t u → rely q s u
  look_rely : ∀ q s t, rely q s t → look s q = none → look t q = none

namespace Contract

variable {c : Contract Q A S} {post post' : S → α → Prop} {s t : S}

/-- Every request that is answered meets the guarantee, and the result meets `post`. -/
def Safe (c : Contract Q A S) (post : S → α → Prop) : Program Q A α → S → Prop
  | .done a, s => post s a
  | .ask q k, s =>
    match c.look s q with
    | some a => c.Safe post (k a) s
    | none => ∀ t, c.rely q s t → c.guar t q ∧ ∀ a, c.Safe post (k a) (c.next t q)

@[simp] theorem safe_done {a : α} : c.Safe post (.done a) s ↔ post s a := Iff.rfl

theorem safe_ask_of_look {q : Q} {k : A q → Program Q A α} {a : A q} (h : c.look s q = some a) :
    c.Safe post (.ask q k) s ↔ c.Safe post (k a) s := by
  rw [Safe, h]

theorem safe_ask_of_wait {q : Q} {k : A q → Program Q A α} (h : c.look s q = none) :
    c.Safe post (.ask q k) s ↔
      ∀ t, c.rely q s t → c.guar t q ∧ ∀ a, c.Safe post (k a) (c.next t q) := by
  rw [Safe, h]

/-- The sequencing rule. -/
theorem Safe.bind {p : Program Q A α} {f : α → Program Q A β} {post : S → β → Prop}
    (h : c.Safe (fun t a => c.Safe post (f a) t) p s) : c.Safe post (p >>= f) s := by
  induction p generalizing s with
  | done a => exact h
  | ask q k ih =>
    rw [ask_bind]
    cases hl : c.look s q with
    | some a =>
      rw [safe_ask_of_look hl] at h ⊢
      exact ih a h
    | none =>
      rw [safe_ask_of_wait hl] at h ⊢
      exact fun t ht => ⟨(h t ht).1, fun a => ih a ((h t ht).2 a)⟩

/-- The rule of consequence. -/
theorem Safe.mono {p : Program Q A α} (h : c.Safe post p s)
    (himp : ∀ t a, post t a → post' t a) : c.Safe post' p s := by
  induction p generalizing s with
  | done a => exact himp s a h
  | ask q k ih =>
    cases hl : c.look s q with
    | some a =>
      rw [safe_ask_of_look hl] at h ⊢
      exact ih a h
    | none =>
      rw [safe_ask_of_wait hl] at h ⊢
      exact fun t ht => ⟨(h t ht).1, fun a => ih a ((h t ht).2 a)⟩

/-- Sequencing with an intermediate condition. -/
theorem Safe.seq {p : Program Q A α} {f : α → Program Q A β} {mid : S → α → Prop}
    {post : S → β → Prop} (h : c.Safe mid p s) (hf : ∀ t a, mid t a → c.Safe post (f a) t) :
    c.Safe post (p >>= f) s :=
  .bind (h.mono hf)

theorem Safe.settle {p : Program Q A α} (h : c.Safe post p s) :
    c.Safe post (p.settle (c.look s)) s := by
  induction p with
  | done a => exact h
  | ask q k ih =>
    rw [Program.settle]
    cases hl : c.look s q with
    | some a => exact ih a ((safe_ask_of_look hl).mp h)
    | none => exact h

/-- A waiting program stays safe when the state changes as it may rely on. -/
theorem Safe.of_rely {q : Q} {k : A q → Program Q A α} (h : c.Safe post (.ask q k) s)
    (hwait : c.look s q = none) (hrely : c.rely q s t) : c.Safe post (.ask q k) t := by
  rw [safe_ask_of_wait hwait] at h
  rw [safe_ask_of_wait (c.look_rely q s t hrely hwait)]
  exact fun u hu => h u (c.rely_trans q s t u hrely hu)

/-- What every path gives holds of the result in every run. -/
theorem Safe.and_asks {P : Q → Prop} {post' : α → Prop} {p : Program Q A α}
    (h : c.Safe post p s) (h' : p.Asks P post') :
    c.Safe (fun t a => post t a ∧ post' a) p s := by
  induction p generalizing s with
  | done a => exact ⟨h, h'⟩
  | ask q k ih =>
    cases hl : c.look s q with
    | some a =>
      rw [safe_ask_of_look hl] at h ⊢
      exact ih a h (h'.2 a)
    | none =>
      rw [safe_ask_of_wait hl] at h ⊢
      exact fun t ht => ⟨(h t ht).1, fun a => ih a ((h t ht).2 a) (h'.2 a)⟩

/-- A program whose requests always meet the guarantee keeps what the surroundings keep. -/
theorem safe_of_asks {P : Q → Prop} {I : S → Prop} {post : α → Prop} {p : Program Q A α}
    (hguar : ∀ q s, P q → I s → c.guar s q) (hnext : ∀ q s, P q → I s → I (c.next s q))
    (hrely : ∀ q s t, P q → c.rely q s t → I s → I t) (h : p.Asks P post) (hs : I s) :
    c.Safe (fun t a => I t ∧ post a) p s := by
  induction p generalizing s with
  | done a => exact ⟨hs, h⟩
  | ask q k ih =>
    cases hl : c.look s q with
    | some a => exact (safe_ask_of_look hl).mpr (ih a (h.2 a) hs)
    | none =>
      refine (safe_ask_of_wait hl).mpr fun t ht => ?_
      have hI := hrely q s t h.1 ht hs
      exact ⟨hguar q t h.1 hI, fun a => ih a (h.2 a) (hnext q t h.1 hI)⟩

/-- What an answer leads to. -/
theorem Safe.answer {q : Q} {k : A q → Program Q A α} (h : c.Safe post (.ask q k) s)
    (hwait : c.look s q = none) (a : A q) :
    c.guar s q ∧ c.Safe post (k a) (c.next s q) := by
  have hs := (safe_ask_of_wait hwait).mp h s (c.rely_refl q s)
  exact ⟨hs.1, hs.2 a⟩

end Contract

/-- The program waits for its surroundings, if it has not ended. -/
def Waits (look : (q : Q) → Option (A q)) : Program Q A α → Prop
  | .done _ => True
  | .ask q _ => look q = none

theorem waits_settle (look : (q : Q) → Option (A q)) (p : Program Q A α) :
    (p.settle look).Waits look := by
  induction p with
  | done a => trivial
  | ask q k ih =>
    rw [settle]
    cases hl : look q with
    | some a => exact ih a
    | none => exact hl

end Program
