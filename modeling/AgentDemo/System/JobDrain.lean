import AgentDemo.System.JobTable

/-! The event loop comes to rest by itself: its own steps come to an end, and not before every job
has ended and the table is empty. -/
namespace AgentDemo

/-- What the event loop does between two calls of the scheduler. -/
def JobEvent.OfLoop : JobEvent → Prop
  | .enqueue .. | .cancel _ => False
  | .acquire _ | .finish .. | .callback _ => True

/-- A job waits for its slot, runs and has its callback. -/
def Job.stepsLeft (job : Job) : ℕ :=
  match job.state with
  | .waiting => 3
  | .running => 2
  | .done _ => 0

namespace LocalJobs

/-- A bound on the steps of the loop from here on. -/
def stepsLeft (w : LocalJobs) : ℕ := (w.jobs.map Job.stepsLeft).sum + w.callbacks.length

structure AtRest (w : LocalJobs) : Prop where
  jobs : ∀ job ∈ w.jobs, job.isDone = true
  callbacks : w.callbacks = []
  table : w.table = []

variable {w : LocalJobs} {j : ℕ} {job : Job}

theorem sum_stepsLeft_set {jobs : List Job} (hj : jobs[j]? = some job) (job' : Job) :
    ((jobs.set j job').map Job.stepsLeft).sum + job.stepsLeft =
      (jobs.map Job.stepsLeft).sum + job'.stepsLeft := by
  induction jobs generalizing j with
  | nil => simp at hj
  | cons first rest ih =>
    cases j with
    | zero =>
      obtain rfl : first = job := by simpa using hj
      simp only [List.set_cons_zero, List.map_cons, List.sum_cons]
      omega
    | succ j =>
      have hrest := ih (by simpa using hj)
      simp only [List.set_cons_succ, List.map_cons, List.sum_cons]
      omega

theorem stepsLeft_setJob (hj : w.jobs[j]? = some job) (job' : Job) :
    (w.setJob j job').stepsLeft + job.stepsLeft = w.stepsLeft + job'.stepsLeft := by
  have hsum := sum_stepsLeft_set hj job'
  unfold stepsLeft setJob
  dsimp only
  omega

end LocalJobs

namespace TaskScheduler

open LocalJobs

variable {scheduler : TaskScheduler} {w w' : LocalJobs} {j : ℕ}

theorem stepsLeft_acquire (h : scheduler.acquire w j = some w') : w'.stepsLeft < w.stepsLeft := by
  unfold acquire at h
  split at h
  · cases h
  next job hj =>
  split_ifs at h with hfree
  obtain rfl := Option.some.inj h
  have hset := stepsLeft_setJob hj { job with state := .running }
  simp only [Job.stepsLeft, hfree.1] at hset
  omega

theorem stepsLeft_finish {outcome : JobOutcome} (h : finish w j outcome = some w') :
    w'.stepsLeft < w.stepsLeft := by
  unfold finish at h
  split at h
  · cases h
  next job hj =>
  split_ifs at h with hends
  obtain rfl := Option.some.inj h
  have hset := stepsLeft_setJob hj { job with state := .done outcome }
  have hopen : 2 ≤ job.stepsLeft := by
    cases hstate : job.state with
    | waiting | running => simp [Job.stepsLeft, hstate]
    | done outcome => simp [Job.mayEnd, hstate] at hends
  have hdone : ({ job with state := .done outcome } : Job).stepsLeft = 0 := rfl
  have hcalls : ({ w.setJob j { job with state := .done outcome } with
      callbacks := w.callbacks ++ [j] } : LocalJobs).stepsLeft =
        (w.setJob j { job with state := .done outcome }).stepsLeft + 1 := by
    simp only [LocalJobs.stepsLeft, setJob, List.length_append, List.length_singleton]
    omega
  omega

theorem stepsLeft_callback {logged : Option String} (h : callback w j = some (w', logged)) :
    w'.stepsLeft < w.stepsLeft := by
  unfold callback at h
  split at h
  · cases h
  next job hj =>
  split at h
  · split_ifs at h with hmem
    obtain ⟨rfl, -⟩ := Prod.mk.inj (Option.some.inj h)
    have hlength := List.length_erase_of_mem hmem
    have hpos := List.length_pos_of_mem hmem
    simp only [LocalJobs.stepsLeft]
    omega
  · cases h
  · cases h

/-- Every step of the loop uses one up. -/
theorem stepsLeft_step {e : JobEvent} (he : e.OfLoop) (h : scheduler.step w e = some w') :
    w'.stepsLeft < w.stepsLeft := by
  cases e with
  | enqueue taskId inLoop => exact he.elim
  | cancel taskId => exact he.elim
  | acquire j => exact stepsLeft_acquire h
  | finish j outcome => exact stepsLeft_finish h
  | callback j =>
    obtain ⟨⟨after, logged⟩, hcallback, rfl⟩ := Option.map_eq_some_iff.mp h
    exact stepsLeft_callback hcallback

/-- While a job or a callback is left, the loop has a step: the runner of a job that runs ends, or
no slot is taken and the first that waits gets one. -/
theorem atRest_of_stuck (hok : JobsOk scheduler w)
    (hstuck : ∀ e, e.OfLoop → scheduler.step w e = none) : w.AtRest := by
  have hcalls : w.callbacks = [] := by
    refine List.eq_nil_iff_forall_not_mem.mpr fun j hj => ?_
    obtain ⟨job, hjob, hdone⟩ := hok.ended j hj
    have hnone := hstuck (.callback j) trivial
    cases hstate : job.state with
    | waiting | running => simp [Job.isDone, hstate] at hdone
    | done outcome => simp [step, callback, hjob, hstate, hj] at hnone
  have hidle : ∀ job ∈ w.jobs, job.state ≠ .running := by
    intro job hmem hrunning
    obtain ⟨j, hj⟩ := List.mem_iff_getElem?.mp hmem
    have hnone := hstuck (.finish j .returned) trivial
    simp [step, finish, hj, Job.mayEnd, hrunning] at hnone
  have hslots : w.slots = 0 := by
    refine List.countP_eq_zero.mpr fun job hmem => ?_
    simpa [Job.isRunning] using hidle job hmem
  have hdone : ∀ job ∈ w.jobs, job.isDone = true := by
    intro job hmem
    obtain ⟨j, hj⟩ := List.mem_iff_getElem?.mp hmem
    cases hstate : job.state with
    | waiting =>
      have hnone := hstuck (.acquire j) trivial
      have hpositive := scheduler.positive
      simp only [step, acquire, hj, hstate, hslots, true_and, ite_eq_right_iff, reduceCtorEq,
        imp_false] at hnone
      omega
    | running => exact absurd hstate (hidle job hmem)
    | done outcome => simp [Job.isDone, hstate]
  refine ⟨hdone, hcalls, ?_⟩
  cases htable : w.table with
  | nil => rfl
  | cons entry rest =>
    obtain ⟨taskId, k⟩ := entry
    have hlookup : w.table.lookup taskId = some k := by simp [htable]
    obtain ⟨job, hj, -, hopen⟩ := hok.entry_unfinished hcalls hlookup
    rw [hdone job (List.mem_of_getElem? hj)] at hopen
    cases hopen

theorem stuck_of_atRest (hrest : w.AtRest) {e : JobEvent} (he : e.OfLoop) :
    scheduler.step w e = none := by
  have hended : ∀ (j : ℕ) (job : Job), w.jobs[j]? = some job →
      ∃ outcome, job.state = .done outcome := by
    intro j job hj
    have hdone := hrest.jobs job (List.mem_of_getElem? hj)
    unfold Job.isDone at hdone
    cases hstate : job.state with
    | done outcome => exact ⟨outcome, rfl⟩
    | waiting | running => simp [hstate] at hdone
  cases e with
  | enqueue taskId inLoop => exact he.elim
  | cancel taskId => exact he.elim
  | acquire j =>
    cases hj : w.jobs[j]? with
    | none => simp [step, acquire, hj]
    | some job =>
      obtain ⟨outcome, hstate⟩ := hended j job hj
      simp [step, acquire, hj, hstate]
  | finish j outcome =>
    cases hj : w.jobs[j]? with
    | none => simp [step, finish, hj]
    | some job =>
      obtain ⟨ended, hstate⟩ := hended j job hj
      simp [step, finish, hj, Job.mayEnd, hstate]
  | callback j =>
    cases hj : w.jobs[j]? with
    | none => simp [step, callback, hj]
    | some job =>
      obtain ⟨outcome, hstate⟩ := hended j job hj
      simp [step, callback, hj, hstate, hrest.callbacks]

/-- Without further calls the loop takes no more steps than are left, and stops only when every job
has ended, every callback has run and the table is empty. Any task is then enqueued. -/
theorem loop_drains (hrun : Transition.Reaches (Transition.ofStep scheduler.step) .empty w)
    {es : List JobEvent} (hes : ∀ e ∈ es, e.OfLoop)
    (h : Transition.exec scheduler.step w es = some w') :
    es.length + w'.stepsLeft ≤ w.stepsLeft ∧ w'.slots ≤ scheduler.maxConcurrency ∧
    ((∀ e, e.OfLoop → scheduler.step w' e = none) ↔ w'.AtRest) ∧
    (w'.AtRest → ∀ taskId, (scheduler.enqueue w' taskId true).2 = true) := by
  have hok : JobsOk scheduler w :=
    hrun.invariant (JobsOk.empty scheduler) fun _ _ _ hu hstep => hu.step hstep
  have hstep (u : LocalJobs) (e : JobEvent) (v : LocalJobs) (hu : JobsOk scheduler u)
      (he : e.OfLoop) (huv : scheduler.step u e = some v) :
      JobsOk scheduler v ∧ v.stepsLeft < u.stepsLeft :=
    ⟨hu.step huv, stepsLeft_step he huv⟩
  obtain ⟨hok', hsteps⟩ := Transition.exec_length_le hstep hok hes h
  refine ⟨hsteps, hok'.slots,
    ⟨atRest_of_stuck hok', fun hrest e he => stuck_of_atRest hrest he⟩, ?_⟩
  intro hrest taskId
  have hpositive := scheduler.positive
  have hroom : ¬ 0 ≥ scheduler.maxConcurrency * 2 := by omega
  simp [enqueue, jobOf, hrest.table, hroom]

def sampleDrained : LocalJobs :=
  ⟨[⟨20, .done .returned, false⟩, ⟨20, .done .cancelled, false⟩], [], []⟩

theorem loop_drains_sample :
    ((TaskScheduler.init none 2).enqueue sampleDrained 20 true).2 = true :=
  (@loop_drains _ _ sampleDrained reaches_sampleJobs
    [.callback 0, .acquire 1, .finish 1 .cancelled, .callback 1] (by simp [JobEvent.OfLoop])
    rfl).2.2.2 ⟨by simp [sampleDrained, Job.isDone], rfl, rfl⟩ 20

end TaskScheduler

end AgentDemo
