import AgentDemo.Library.Dictionary
import AgentDemo.Values

/-! The jobs of a scheduler: its local table, and the tasks and callbacks of the event loop. -/
namespace AgentDemo

/-- The limit is at least one. -/
structure TaskScheduler where
  maxConcurrency : ℕ
  positive : 1 ≤ maxConcurrency

/-- `TaskScheduler.__init__`: a limit of zero counts as none. -/
def TaskScheduler.init (maxConcurrency : Option ℤ) (agentTaskMaxConcurrency : ℤ) :
    TaskScheduler where
  maxConcurrency :=
    (max ((maxConcurrency.filter (· ≠ 0)).getD agentTaskMaxConcurrency) 1).toNat
  positive := by omega

/-- How a job has ended. -/
inductive JobOutcome where
  | returned
  | cancelled
  | raised (error : String)
deriving DecidableEq

/-- A job waits for a slot of the semaphore before its runner starts. -/
inductive JobState where
  | waiting
  | running
  | done (outcome : JobOutcome)
deriving DecidableEq

/-- A task of the event loop that runs `_run_job`. -/
structure Job where
  taskId : UUID
  state : JobState
  cancelRequested : Bool

def Job.isDone (job : Job) : Bool :=
  match job.state with
  | .done _ => true
  | .waiting | .running => false

def Job.isRunning (job : Job) : Bool := job.state = .running

/-- The end of a job. Only a cancellation ends it before its runner starts. -/
def Job.mayEnd (job : Job) (outcome : JobOutcome) : Bool :=
  match job.state with
  | .waiting => job.cancelRequested && outcome = .cancelled
  | .running => true
  | .done _ => false

/-- A job is known by its place in `jobs`, in the order of creation. `table` is `_jobs`, `callbacks`
the ended jobs whose callback has not run yet. -/
structure LocalJobs where
  jobs : List Job
  table : List (UUID × ℕ)
  callbacks : List ℕ

namespace LocalJobs

def empty : LocalJobs := ⟨[], [], []⟩

def jobOf (w : LocalJobs) (taskId : UUID) : Option Job :=
  (w.table.lookup taskId).bind fun j => w.jobs[j]?

def setJob (w : LocalJobs) (j : ℕ) (job : Job) : LocalJobs := { w with jobs := w.jobs.set j job }

/-- The slots of the semaphore that are taken. -/
def slots (w : LocalJobs) : ℕ := w.jobs.countP Job.isRunning

end LocalJobs

namespace TaskScheduler

variable (scheduler : TaskScheduler)

/-- `TaskScheduler.enqueue`. Outside an event loop there is nothing to run the job. -/
def enqueue (w : LocalJobs) (taskId : UUID) (inLoop : Bool) : LocalJobs × Bool :=
  if (w.jobOf taskId).any (!·.isDone) then (w, false)
  else if w.table.length ≥ scheduler.maxConcurrency * 2 then (w, false)
  else if inLoop = false then (w, false)
  else
    ({ w with
        jobs := w.jobs ++ [⟨taskId, .waiting, false⟩]
        table := Dictionary.put w.table taskId w.jobs.length }, true)

def cancel (w : LocalJobs) (taskId : UUID) : LocalJobs × Bool :=
  match w.table.lookup taskId with
  | none => (w, false)
  | some j =>
    match w.jobs[j]? with
    | none => (w, false)
    | some job =>
      if job.isDone then (w, false) else (w.setJob j { job with cancelRequested := true }, true)

/-- `_run_job` has its slot. -/
def acquire (w : LocalJobs) (j : ℕ) : Option LocalJobs :=
  match w.jobs[j]? with
  | none => none
  | some job =>
    if job.state = .waiting ∧ w.slots < scheduler.maxConcurrency then
      some (w.setJob j { job with state := .running })
    else none

/-- `_run_job` ends, which schedules the callback of the job. -/
def finish (w : LocalJobs) (j : ℕ) (outcome : JobOutcome) : Option LocalJobs :=
  match w.jobs[j]? with
  | none => none
  | some job =>
    if job.mayEnd outcome then
      some { w.setJob j { job with state := .done outcome } with callbacks := w.callbacks ++ [j] }
    else none

/-- The table that `_job_finished` leaves: the entry of the task goes if it is the job's own. -/
def withoutJob (table : List (UUID × ℕ)) (taskId : UUID) (j : ℕ) : List (UUID × ℕ) :=
  if table.lookup taskId = some j then Dictionary.pop table taskId else table

/-- `_job_finished`, with the error that it logs. -/
def jobFinished (w : LocalJobs) (taskId : UUID) (j : ℕ) (outcome : JobOutcome) :
    LocalJobs × Option String :=
  ({ w with table := withoutJob w.table taskId j, callbacks := w.callbacks.erase j },
    match outcome with
    | .raised error => some error
    | .returned | .cancelled => none)

/-- The loop runs the callback of an ended job. -/
def callback (w : LocalJobs) (j : ℕ) : Option (LocalJobs × Option String) :=
  match w.jobs[j]? with
  | none => none
  | some job =>
    match job.state with
    | .done outcome => if j ∈ w.callbacks then some (jobFinished w job.taskId j outcome) else none
    | .waiting | .running => none

end TaskScheduler

/-- What the event loop can do next. -/
inductive JobEvent where
  | enqueue (taskId : UUID) (inLoop : Bool)
  | cancel (taskId : UUID)
  | acquire (j : ℕ)
  | finish (j : ℕ) (outcome : JobOutcome)
  | callback (j : ℕ)

def TaskScheduler.step (scheduler : TaskScheduler) (w : LocalJobs) : JobEvent → Option LocalJobs
  | .enqueue taskId inLoop => some (scheduler.enqueue w taskId inLoop).1
  | .cancel taskId => some (cancel w taskId).1
  | .acquire j => scheduler.acquire w j
  | .finish j outcome => finish w j outcome
  | .callback j => (callback w j).map Prod.fst

end AgentDemo
