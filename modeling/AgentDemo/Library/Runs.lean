import AgentDemo.Library.Program

/-! The runs of a program: the requests that it asks in order, each with the answer it gets. -/
namespace Program

variable {Q : Type} {A : Q → Type} {α β γ : Type}

abbrev Log (Q : Type) (A : Q → Type) := List ((q : Q) × A q)

/-- Answered by the log, the first program goes on as the second. -/
inductive Leads : Program Q A α → Log Q A → Program Q A α → Prop where
  | refl (p : Program Q A α) : Leads p [] p
  | ask {q : Q} {k : A q → Program Q A α} {log : Log Q A} {p : Program Q A α} (a : A q)
      (h : Leads (k a) log p) : Leads (.ask q k) (⟨q, a⟩ :: log) p

/-- A run from the start to the result. -/
def Runs (p : Program Q A α) (log : Log Q A) (r : α) : Prop := p.Leads log (.done r)

theorem Leads.trans {p p' p'' : Program Q A α} {log log' : Log Q A} (h : p.Leads log p')
    (h' : p'.Leads log' p'') : p.Leads (log ++ log') p'' := by
  induction h with
  | refl p => exact h'
  | ask a _ ih => exact .ask a (ih h')

/-- One more answer. -/
theorem Leads.answer {p : Program Q A α} {q : Q} {k : A q → Program Q A α} {log : Log Q A}
    (h : p.Leads log (.ask q k)) (a : A q) : p.Leads (log ++ [⟨q, a⟩]) (k a) :=
  h.trans (.ask a (.refl _))

/-- With an answer to every request a program runs to its end. -/
theorem exists_runs [∀ q, Nonempty (A q)] (p : Program Q A α) : ∃ log r, p.Runs log r := by
  induction p with
  | done a => exact ⟨[], a, .refl _⟩
  | ask q k ih =>
    have a : A q := Classical.choice inferInstance
    obtain ⟨log, r, h⟩ := ih a
    exact ⟨_, r, .ask a h⟩

/-- The run against fixed answers. -/
theorem runs_run (answer : (q : Q) → A q) (p : Program Q A α) :
    p.Runs ((p.run answer).1.map fun q => ⟨q, answer q⟩) (p.run answer).2 := by
  induction p with
  | done a => exact .refl _
  | ask q k ih => exact .ask (answer q) (ih (answer q))

theorem runs_done {a r : α} {log : Log Q A} :
    (Program.done a : Program Q A α).Runs log r ↔ log = [] ∧ r = a := by
  constructor
  · intro h
    cases h
    exact ⟨rfl, rfl⟩
  · rintro ⟨rfl, rfl⟩
    exact .refl _

theorem runs_ask {q : Q} {k : A q → Program Q A α} {log : Log Q A} {r : α} :
    (Program.ask q k).Runs log r ↔ ∃ a log', log = ⟨q, a⟩ :: log' ∧ (k a).Runs log' r := by
  constructor
  · intro h
    cases h with
    | ask a h => exact ⟨a, _, rfl, h⟩
  · rintro ⟨a, log', rfl, h⟩
    exact .ask a h

/-- A run of a sequence is a run of its first part and one of what follows. -/
theorem runs_bind {p : Program Q A α} {f : α → Program Q A β} {log : Log Q A} {r : β} :
    (p >>= f).Runs log r ↔
      ∃ log₁ a log₂, log = log₁ ++ log₂ ∧ p.Runs log₁ a ∧ (f a).Runs log₂ r := by
  induction p generalizing log with
  | done a =>
    constructor
    · intro h
      exact ⟨[], a, log, rfl, .refl _, h⟩
    · rintro ⟨log₁, a', log₂, rfl, h₁, h₂⟩
      obtain ⟨rfl, rfl⟩ := runs_done.mp h₁
      exact h₂
  | ask q k ih =>
    rw [ask_bind, runs_ask]
    constructor
    · rintro ⟨a, log', rfl, h⟩
      obtain ⟨log₁, b, log₂, rfl, h₁, h₂⟩ := (ih a).mp h
      exact ⟨⟨q, a⟩ :: log₁, b, log₂, rfl, .ask a h₁, h₂⟩
    · rintro ⟨log₁, b, log₂, rfl, h₁, h₂⟩
      obtain ⟨a, log', rfl, h⟩ := runs_ask.mp h₁
      exact ⟨a, log' ++ log₂, rfl, (ih a).mpr ⟨log', b, log₂, rfl, h, h₂⟩⟩

def RunsWith (ok : (q : Q) × A q → Prop) (p : Program Q A α) (log : Log Q A) (r : α) : Prop :=
  p.Runs log r ∧ ∀ e ∈ log, ok e

section RunsWith

variable {ok : (q : Q) × A q → Prop}

theorem runsWith_done {a r : α} {log : Log Q A} :
    (Program.done a : Program Q A α).RunsWith ok log r ↔ log = [] ∧ r = a := by
  constructor
  · intro h
    exact runs_done.mp h.1
  · rintro ⟨rfl, rfl⟩
    exact ⟨.refl _, fun _ he => absurd he List.not_mem_nil⟩

theorem runsWith_ask {q : Q} {k : A q → Program Q A α} {log : Log Q A} {r : α} :
    (Program.ask q k).RunsWith ok log r ↔
      ∃ a log', log = ⟨q, a⟩ :: log' ∧ ok ⟨q, a⟩ ∧ (k a).RunsWith ok log' r := by
  constructor
  · rintro ⟨h, hok⟩
    obtain ⟨a, log', rfl, hrest⟩ := runs_ask.mp h
    exact ⟨a, log', rfl, hok _ List.mem_cons_self, hrest,
      fun e he => hok e (List.mem_cons_of_mem _ he)⟩
  · rintro ⟨a, log', rfl, ha, hrest, hok⟩
    refine ⟨.ask a hrest, fun e he => ?_⟩
    rcases List.mem_cons.mp he with rfl | he
    · exact ha
    · exact hok e he

theorem runsWith_bind {p : Program Q A α} {f : α → Program Q A β} {log : Log Q A} {r : β} :
    (p >>= f).RunsWith ok log r ↔
      ∃ log₁ a log₂, log = log₁ ++ log₂ ∧ p.RunsWith ok log₁ a ∧ (f a).RunsWith ok log₂ r := by
  constructor
  · rintro ⟨h, hok⟩
    obtain ⟨log₁, a, log₂, rfl, h₁, h₂⟩ := runs_bind.mp h
    exact ⟨log₁, a, log₂, rfl, ⟨h₁, fun e he => hok e (List.mem_append_left _ he)⟩,
      h₂, fun e he => hok e (List.mem_append_right _ he)⟩
  · rintro ⟨log₁, a, log₂, rfl, ⟨h₁, hok₁⟩, h₂, hok₂⟩
    refine ⟨runs_bind.mpr ⟨log₁, a, log₂, rfl, h₁, h₂⟩, fun e he => ?_⟩
    rcases List.mem_append.mp he with he | he
    · exact hok₁ e he
    · exact hok₂ e he

/-- The run against fixed answers, where they all meet the condition. -/
theorem runsWith_run (answer : (q : Q) → A q) (h : ∀ q, ok ⟨q, answer q⟩) (p : Program Q A α) :
    p.RunsWith ok ((p.run answer).1.map fun q => ⟨q, answer q⟩) (p.run answer).2 := by
  refine ⟨runs_run answer p, fun e he => ?_⟩
  obtain ⟨q, -, rfl⟩ := List.mem_map.mp he
  exact h q

end RunsWith

/-- What every path meets holds of every run. -/
theorem Asks.of_runs {P : Q → Prop} {post : α → Prop} {p : Program Q A α} {log : Log Q A} {r : α}
    (h : p.Asks P post) (hr : p.Runs log r) : (∀ e ∈ log, P e.1) ∧ post r := by
  induction p generalizing log with
  | done a =>
    obtain ⟨rfl, rfl⟩ := runs_done.mp hr
    exact ⟨fun _ he => absurd he List.not_mem_nil, h⟩
  | ask q k ih =>
    obtain ⟨a, log', rfl, hrun⟩ := runs_ask.mp hr
    have hrest := ih a (h.2 a) hrun
    refine ⟨fun e he => ?_, hrest.2⟩
    rcases List.mem_cons.mp he with rfl | he
    · exact h.1
    · exact hrest.1 e he

/-- What every path meets is left to meet after some answers. -/
theorem Asks.of_leads {P : Q → Prop} {post : α → Prop} {p p' : Program Q A α} {log : Log Q A}
    (h : p.Asks P post) (hl : p.Leads log p') : p'.Asks P post := by
  induction hl with
  | refl p => exact h
  | ask a _ ih => exact ih (h.2 a)

theorem bind_assoc (p : Program Q A α) (f : α → Program Q A β) (g : β → Program Q A γ) :
    (p >>= f) >>= g = p >>= fun a => f a >>= g := by
  induction p with
  | done a => rfl
  | ask q k ih =>
    simp only [ask_bind]
    congr 1
    funext a
    exact ih a

/-- Two continuations that agree on every result of a program. -/
theorem bind_congr_of_asks {P : Q → Prop} {post : α → Prop} {p : Program Q A α}
    {f g : α → Program Q A β} (h : p.Asks P post) (hfg : ∀ a, post a → f a = g a) :
    p >>= f = p >>= g := by
  induction p with
  | done a => exact hfg a h
  | ask q k ih =>
    simp only [ask_bind]
    congr 1
    funext a
    exact ih a (h.2 a)

end Program
