import AgentDemo.Library.Transition
import AgentDemo.Services.LocalJobs

/-! The local job table: entries, unfinished jobs and pending callbacks in any order of events. -/
namespace AgentDemo

/-- What holds between two steps of the event loop. -/
structure JobsOk (scheduler : TaskScheduler) (w : LocalJobs) : Prop where
  keys : (w.table.map Prod.fst).Nodup
  bound : w.table.length ≤ 2 * scheduler.maxConcurrency
  slots : w.slots ≤ scheduler.maxConcurrency
  entry : ∀ taskId j, w.table.lookup taskId = some j →
    ∃ job, w.jobs[j]? = some job ∧ job.taskId = taskId
  unfinished : ∀ (j : ℕ) (job : Job), w.jobs[j]? = some job → job.isDone = false →
    w.table.lookup job.taskId = some j
  pending : ∀ taskId (j : ℕ) (job : Job), w.table.lookup taskId = some j → w.jobs[j]? = some job →
    job.isDone = true → j ∈ w.callbacks
  ended : ∀ j ∈ w.callbacks, ∃ job, w.jobs[j]? = some job ∧ job.isDone = true

namespace LocalJobs

variable {w : LocalJobs} {j : ℕ} {job : Job}

theorem getElem?_setJob (hj : w.jobs[j]? = some job) (job' : Job) (k : ℕ) :
    (w.setJob j job').jobs[k]? = if j = k then some job' else w.jobs[k]? := by
  have hlt := (List.getElem?_eq_some_iff.mp hj).1
  unfold setJob
  rw [List.getElem?_set, if_pos hlt]

theorem slots_setJob (hj : w.jobs[j]? = some job) (job' : Job) :
    (w.setJob j job').slots + (if job.isRunning then 1 else 0) =
      w.slots + if job'.isRunning then 1 else 0 := by
  obtain ⟨hlt, hget⟩ := List.getElem?_eq_some_iff.mp hj
  have hcount : (if job.isRunning then 1 else 0) ≤ w.jobs.countP Job.isRunning := by
    split_ifs with hrunning
    · exact List.countP_pos_iff.mpr ⟨job, List.mem_of_getElem? hj, hrunning⟩
    · exact Nat.zero_le _
  unfold slots setJob
  dsimp only
  rw [List.countP_set hlt, hget]
  omega

/-- An unfinished job of a task is what the table has for it. -/
theorem jobOf_eq (hlookup : w.table.lookup job.taskId = some j) (hj : w.jobs[j]? = some job) :
    w.jobOf job.taskId = some job := by
  unfold jobOf
  rw [hlookup]
  exact hj

end LocalJobs

theorem TaskScheduler.lookup_withoutJob (table : List (UUID × ℕ)) (taskId k : UUID) (j : ℕ) :
    (withoutJob table taskId j).lookup k =
      if k = taskId ∧ table.lookup taskId = some j then none else table.lookup k := by
  unfold withoutJob
  by_cases hown : table.lookup taskId = some j
  · rw [if_pos hown, Dictionary.lookup_pop]
    simp only [hown, and_true]
  · rw [if_neg hown, if_neg fun h => hown h.2]

/-- A late callback leaves the entries of other jobs alone. -/
theorem TaskScheduler.lookup_withoutJob_of_ne {table : List (UUID × ℕ)} {taskId k : UUID}
    {i j : ℕ} (h : table.lookup k = some j) (hne : j ≠ i) :
    (withoutJob table taskId i).lookup k = some j := by
  rw [lookup_withoutJob, if_neg, h]
  rintro ⟨rfl, hi⟩
  exact hne (Option.some.inj (h.symm.trans hi))

namespace JobsOk

open TaskScheduler

variable {scheduler : TaskScheduler} {w w' : LocalJobs} {j : ℕ} {job : Job}

theorem empty (scheduler : TaskScheduler) : JobsOk scheduler .empty where
  keys := List.nodup_nil
  bound := Nat.zero_le _
  slots := Nat.zero_le _
  entry taskId j h := by simp [LocalJobs.empty] at h
  unfinished j job h := by simp [LocalJobs.empty] at h
  pending taskId j job h := by simp [LocalJobs.empty] at h
  ended j h := absurd h List.not_mem_nil

/-- An unfinished job moves on, and with its end its callback is due. -/
theorem update (h : JobsOk scheduler w) (hj : w.jobs[j]? = some job) (hopen : job.isDone = false)
    (job' : Job) (hid : job'.taskId = job.taskId)
    (hslots : (w.setJob j job').slots ≤ scheduler.maxConcurrency) :
    JobsOk scheduler { w.setJob j job' with
      callbacks := if job'.isDone then w.callbacks ++ [j] else w.callbacks } where
  keys := h.keys
  bound := h.bound
  slots := hslots
  entry taskId k hk := by
    obtain ⟨old, hold, htask⟩ := h.entry taskId k hk
    show ∃ new, (w.setJob j job').jobs[k]? = some new ∧ new.taskId = taskId
    rw [LocalJobs.getElem?_setJob hj]
    by_cases hjk : j = k
    · subst hjk
      obtain rfl : job = old := Option.some.inj (hj.symm.trans hold)
      exact ⟨job', if_pos rfl, hid.trans htask⟩
    · exact ⟨old, (if_neg hjk).trans hold, htask⟩
  unfinished k new hk hnew := by
    have hk : (w.setJob j job').jobs[k]? = some new := hk
    rw [LocalJobs.getElem?_setJob hj] at hk
    split_ifs at hk with hjk
    · obtain rfl : job' = new := Option.some.inj hk
      subst hjk
      show w.table.lookup job'.taskId = some j
      rw [hid]
      exact h.unfinished j job hj hopen
    · exact h.unfinished k new hk hnew
  pending taskId k new hlookup hk hnew := by
    have hk : (w.setJob j job').jobs[k]? = some new := hk
    rw [LocalJobs.getElem?_setJob hj] at hk
    split_ifs at hk with hjk
    · obtain rfl : job' = new := Option.some.inj hk
      simp [hnew, hjk]
    · have hmem := h.pending taskId k new hlookup hk hnew
      dsimp only
      split_ifs
      · exact List.mem_append_left _ hmem
      · exact hmem
  ended k hk := by
    show ∃ new, (w.setJob j job').jobs[k]? = some new ∧ new.isDone = true
    rw [LocalJobs.getElem?_setJob hj]
    have hcases : k ∈ w.callbacks ∨ (k = j ∧ job'.isDone = true) := by
      dsimp only at hk
      split_ifs at hk with hdone
      · rcases List.mem_append.mp hk with hk | hk
        · exact Or.inl hk
        · exact Or.inr ⟨List.mem_singleton.mp hk, hdone⟩
      · exact Or.inl hk
    rcases hcases with hold | ⟨rfl, hdone⟩
    · obtain ⟨old, hget, hdone⟩ := h.ended k hold
      have hjk : j ≠ k := by
        rintro rfl
        obtain rfl : job = old := Option.some.inj (hj.symm.trans hget)
        simp [hopen] at hdone
      exact ⟨old, (if_neg hjk).trans hget, hdone⟩
    · exact ⟨job', if_pos rfl, hdone⟩

theorem enqueue (h : JobsOk scheduler w) (taskId : UUID) (inLoop : Bool) :
    JobsOk scheduler (scheduler.enqueue w taskId inLoop).1 := by
  unfold TaskScheduler.enqueue
  split
  · exact h
  split
  · exact h
  split
  · exact h
  next hfree hroom hloop =>
  have old_or_new : ∀ (k : ℕ) (job : Job), (w.jobs ++ [⟨taskId, .waiting, false⟩])[k]? = some job →
      w.jobs[k]? = some job ∨ (k = w.jobs.length ∧ job = ⟨taskId, .waiting, false⟩) := by
    intro k job hk
    rw [List.getElem?_append] at hk
    split_ifs at hk with hlt
    · exact Or.inl hk
    · obtain ⟨hone, hnew⟩ := List.getElem?_eq_some_iff.mp hk
      rw [List.length_singleton] at hone
      simp only [List.getElem_singleton] at hnew
      exact Or.inr ⟨by omega, hnew.symm⟩
  have keeps : ∀ (k : ℕ) (job : Job), w.jobs[k]? = some job →
      (w.jobs ++ [⟨taskId, .waiting, false⟩])[k]? = some job := fun k job hk =>
    List.getElem?_append_left (List.getElem?_eq_some_iff.mp hk).1 ▸ hk
  constructor
  case keys => exact Dictionary.nodup_put h.keys _ _
  case bound =>
    dsimp only
    rw [Dictionary.length_put]
    have := h.bound
    split_ifs <;> omega
  case slots =>
    have := h.slots
    simpa [LocalJobs.slots, List.countP_append, Job.isRunning] using this
  case entry =>
    intro id k hk
    dsimp only at hk ⊢
    rw [Dictionary.lookup_put] at hk
    split_ifs at hk with hid
    · obtain rfl : w.jobs.length = k := Option.some.inj hk
      exact ⟨⟨taskId, .waiting, false⟩, List.getElem?_concat_length, hid.symm⟩
    · obtain ⟨job, hget, htask⟩ := h.entry id k hk
      exact ⟨job, keeps k job hget, htask⟩
  case unfinished =>
    intro k job hk hopen
    dsimp only
    rw [Dictionary.lookup_put]
    rcases old_or_new k job hk with hold | ⟨rfl, rfl⟩
    · have hlookup := h.unfinished k job hold hopen
      have hne : job.taskId ≠ taskId := by
        rintro rfl
        simp [LocalJobs.jobOf_eq hlookup hold, hopen] at hfree
      rw [if_neg hne, hlookup]
    · exact if_pos rfl
  case pending =>
    intro id k job hlookup hk hdone
    dsimp only at hlookup
    rw [Dictionary.lookup_put] at hlookup
    rcases old_or_new k job hk with hold | ⟨rfl, rfl⟩
    · split_ifs at hlookup with hid
      · have hlt := (List.getElem?_eq_some_iff.mp hold).1
        have := Option.some.inj hlookup
        omega
      · exact h.pending id k job hlookup hold hdone
    · simp [Job.isDone] at hdone
  case ended =>
    intro k hk
    obtain ⟨job, hget, hdone⟩ := h.ended k hk
    exact ⟨job, keeps k job hget, hdone⟩

theorem cancel (h : JobsOk scheduler w) (taskId : UUID) :
    JobsOk scheduler (TaskScheduler.cancel w taskId).1 := by
  unfold TaskScheduler.cancel
  split
  · exact h
  next k hlookup =>
  split
  · exact h
  next job hk =>
  split
  · exact h
  next hopen =>
  have hopen : job.isDone = false := by simpa using hopen
  have hslots := LocalJobs.slots_setJob hk { job with cancelRequested := true }
  have hsame : ({ job with cancelRequested := true } : Job).isRunning = job.isRunning := rfl
  rw [hsame] at hslots
  have hbound := h.slots
  have hupdated := h.update hk hopen { job with cancelRequested := true } rfl (by omega)
  have hdone : ({ job with cancelRequested := true } : Job).isDone = false := hopen
  simp only [hdone, Bool.false_eq_true, if_false] at hupdated
  exact hupdated

theorem acquire (h : JobsOk scheduler w) (hstep : scheduler.acquire w j = some w') :
    JobsOk scheduler w' := by
  unfold TaskScheduler.acquire at hstep
  split at hstep
  · cases hstep
  next job hj =>
  split_ifs at hstep with hwaiting
  obtain rfl := Option.some.inj hstep
  have hopen : job.isDone = false := by simp [Job.isDone, hwaiting.1]
  have hslots := LocalJobs.slots_setJob hj { job with state := .running }
  have hidle : job.isRunning = false := by simp [Job.isRunning, hwaiting.1]
  have hruns : ({ job with state := .running } : Job).isRunning = true := rfl
  simp only [hidle, hruns] at hslots
  have hfree := hwaiting.2
  exact h.update hj hopen { job with state := .running } rfl (by simp at hslots; omega)

theorem finish {outcome : JobOutcome} (h : JobsOk scheduler w)
    (hstep : TaskScheduler.finish w j outcome = some w') : JobsOk scheduler w' := by
  unfold TaskScheduler.finish at hstep
  split at hstep
  · cases hstep
  next job hj =>
  split_ifs at hstep with hends
  obtain rfl := Option.some.inj hstep
  have hopen : job.isDone = false := by
    unfold Job.mayEnd at hends
    unfold Job.isDone
    cases hstate : job.state <;> simp [hstate] at hends ⊢
  have hslots := LocalJobs.slots_setJob hj { job with state := .done outcome }
  have hstops : ({ job with state := .done outcome } : Job).isRunning = false := rfl
  rw [hstops] at hslots
  have hbound := h.slots
  exact h.update hj hopen { job with state := .done outcome } rfl
    (by simp at hslots; omega)

theorem callback {logged : Option String} (h : JobsOk scheduler w)
    (hstep : TaskScheduler.callback w j = some (w', logged)) : JobsOk scheduler w' := by
  unfold TaskScheduler.callback at hstep
  split at hstep
  · cases hstep
  next job hj =>
  cases hstate : job.state with
  | waiting => simp [hstate] at hstep
  | running => simp [hstate] at hstep
  | done outcome =>
    simp only [hstate] at hstep
    split_ifs at hstep with hpending
    obtain ⟨rfl, -⟩ := Prod.mk.inj (Option.some.inj hstep)
    have hdone : job.isDone = true := by simp [Job.isDone, hstate]
    constructor
    case keys =>
      unfold withoutJob
      split_ifs
      · exact (Dictionary.keys_pop_sublist _ _).nodup h.keys
      · exact h.keys
    case bound =>
      refine le_trans ?_ h.bound
      unfold withoutJob
      split_ifs
      · exact Dictionary.length_pop_le _ _
      · exact le_rfl
    case slots => exact h.slots
    case entry =>
      intro id k hk
      rw [lookup_withoutJob] at hk
      split_ifs at hk
      exact h.entry id k hk
    case unfinished =>
      intro k open' hk hopen
      refine lookup_withoutJob_of_ne (h.unfinished k open' hk hopen) ?_
      rintro rfl
      obtain rfl := Option.some.inj (hj.symm.trans hk)
      simp [hdone] at hopen
    case pending =>
      intro id k ended hlookup hk hended
      rw [lookup_withoutJob] at hlookup
      split_ifs at hlookup with hown
      have hne : k ≠ j := by
        rintro rfl
        obtain ⟨owner, hget, hid⟩ := h.entry id k hlookup
        obtain rfl : job = owner := Option.some.inj (hj.symm.trans hget)
        exact hown ⟨hid.symm, hid ▸ hlookup⟩
      exact (List.mem_erase_of_ne hne).mpr (h.pending id k ended hlookup hk hended)
    case ended => exact fun k hk => h.ended k (List.mem_of_mem_erase hk)

theorem step {e : JobEvent} (h : JobsOk scheduler w) (hstep : scheduler.step w e = some w') :
    JobsOk scheduler w' := by
  cases e with
  | enqueue taskId inLoop => exact Option.some.inj hstep ▸ h.enqueue taskId inLoop
  | cancel taskId => exact Option.some.inj hstep ▸ h.cancel taskId
  | acquire j => exact h.acquire hstep
  | finish j outcome => exact h.finish hstep
  | callback j =>
    obtain ⟨⟨after, logged⟩, hcallback, rfl⟩ := Option.map_eq_some_iff.mp hstep
    exact h.callback hcallback

/-- Once all callbacks have run the table has unfinished jobs only. -/
theorem entry_unfinished (h : JobsOk scheduler w) (hidle : w.callbacks = []) {taskId : UUID}
    (hlookup : w.table.lookup taskId = some j) :
    ∃ job, w.jobs[j]? = some job ∧ job.taskId = taskId ∧ job.isDone = false := by
  obtain ⟨job, hj, htask⟩ := h.entry taskId j hlookup
  refine ⟨job, hj, htask, ?_⟩
  cases hdone : job.isDone with
  | false => rfl
  | true =>
    have hmem := h.pending taskId j job hlookup hj hdone
    rw [hidle] at hmem
    exact absurd hmem List.not_mem_nil

end JobsOk

namespace TaskScheduler

variable {scheduler : TaskScheduler} {w w' : LocalJobs}

/-- A callback keeps the entries of all other jobs. -/
theorem keeps_entry {i : ℕ} (hstep : scheduler.step w (.callback i) = some w') {taskId : UUID}
    {j : ℕ} (hentry : w.table.lookup taskId = some j) (hne : j ≠ i) :
    w'.table.lookup taskId = some j := by
  obtain ⟨⟨after, logged⟩, hcallback, rfl⟩ := Option.map_eq_some_iff.mp hstep
  unfold callback at hcallback
  split at hcallback
  · cases hcallback
  next job hj =>
  split at hcallback
  · split_ifs at hcallback
    obtain ⟨rfl, -⟩ := Prod.mk.inj (Option.some.inj hcallback)
    exact lookup_withoutJob_of_ne hentry hne
  · cases hcallback
  · cases hcallback

/-- In every run of the event loop the table stays within twice the limit, a task has at most one
unfinished job, which is the entry of the table, and a callback removes no entry of another job. -/
theorem local_job_table
    (hrun : Transition.Reaches (Transition.ofStep scheduler.step) .empty w) :
    w.table.length ≤ 2 * scheduler.maxConcurrency ∧
    (∀ (i j : ℕ) (a b : Job), w.jobs[i]? = some a → w.jobs[j]? = some b → a.isDone = false →
      b.isDone = false → a.taskId = b.taskId → i = j) ∧
    (∀ (j : ℕ) (job : Job), w.jobs[j]? = some job → job.isDone = false →
      w.table.lookup job.taskId = some j) ∧
    ∀ i w', scheduler.step w (.callback i) = some w' → ∀ taskId j,
      w.table.lookup taskId = some j → j ≠ i → w'.table.lookup taskId = some j := by
  have hok : JobsOk scheduler w :=
    hrun.invariant (JobsOk.empty scheduler) fun _ _ _ h hstep => h.step hstep
  refine ⟨hok.bound, ?_, hok.unfinished, fun i w' hstep taskId j => keeps_entry hstep⟩
  intro i j a b ha hb hopen hopen' hsame
  have hi := hok.unfinished i a ha hopen
  have hj := hok.unfinished j b hb hopen'
  rw [hsame] at hi
  exact Option.some.inj (hi.symm.trans hj)

/-! A task is enqueued again between the end of its job and the callback of this job. -/

def sampleJobs : LocalJobs :=
  ⟨[⟨20, .done .returned, false⟩, ⟨20, .waiting, false⟩], [(20, 1)], [0]⟩

theorem reaches_sampleJobs :
    Transition.Reaches (Transition.ofStep (TaskScheduler.init none 2).step) .empty sampleJobs :=
  .of_exec [.enqueue 20 true, .acquire 0, .finish 0 .returned, .enqueue 20 true] rfl

theorem local_job_table_sample :
    ∃ w', (TaskScheduler.init none 2).step sampleJobs (.callback 0) = some w' ∧
      w'.table.lookup 20 = some 1 :=
  ⟨_, rfl, (local_job_table reaches_sampleJobs).2.2.2 0 _ rfl 20 1 rfl (by decide)⟩

end TaskScheduler

end AgentDemo
