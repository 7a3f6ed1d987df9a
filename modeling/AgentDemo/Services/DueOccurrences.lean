import AgentDemo.Library.Occurrences
import AgentDemo.Services.Dispatch

/-! Interval schedules: what is due and what is next are neighbours on one grid. -/
namespace AgentDemo

open Occurrences

section Interval

variable (env : Environment) {schedule : TaskSchedule} {now next interval : ℤ}
  (hkind : schedule.scheduleKind = .interval)
  (hinterval : schedule.intervalSeconds = some interval) (hmin : 60 ≤ interval)
  (hnext : schedule.nextRunAt = some next) (hdue : next ≤ now)

include hkind hinterval hmin hnext

theorem latestDueOccurrence_interval :
    latestDueOccurrence env schedule now =
      .ok (next + (now - next) / seconds interval * seconds interval) := by
  have hvalid : ¬ interval < 60 := not_lt.mpr hmin
  unfold latestDueOccurrence
  simp only [hkind, hinterval, hnext, Option.getD_some, if_neg hvalid]

include hdue

theorem nextRunAfterOccurrence_interval :
    nextRunAfterOccurrence env schedule now =
      .ok (some (next + ((now - next) / seconds interval + 1) * seconds interval)) := by
  have hvalid : ¬ interval < 60 := not_lt.mpr hmin
  have hstep : 0 < seconds interval := seconds_pos (by linarith)
  unfold nextRunAfterOccurrence
  simp only [hkind, hinterval, hnext, Option.getD_some, if_neg hvalid]
  split_ifs with hpast
  · rw [next_from_step hstep]
  · have hfirst : (now - next) / seconds interval = 0 :=
      Int.ediv_eq_zero_of_lt (by linarith) (by linarith)
    rw [hfirst, zero_add, one_mul]

/-- The due occurrence is the latest point of the grid, and the next run the point after it. -/
theorem interval_occurrences :
    ∃ occurrence following, latestDueOccurrence env schedule now = .ok occurrence ∧
      nextRunAfterOccurrence env schedule now = .ok (some following) ∧
      IsLatest (grid next (seconds interval)) now occurrence ∧
      IsNext (grid next (seconds interval)) now following ∧
      following = occurrence + seconds interval := by
  have hstep : 0 < seconds interval := seconds_pos (by linarith)
  refine ⟨_, _, latestDueOccurrence_interval env hkind hinterval hmin hnext,
    nextRunAfterOccurrence_interval env hkind hinterval hmin hnext hdue,
    isLatest_grid hstep hdue, isNext_grid hstep hdue, ?_⟩
  ring

end Interval

/-- A schedule of every five minutes that is due at second 100. -/
def sampleInterval : TaskSchedule where
  id := 1
  userId := 2
  conversationId := none
  name := "Report"
  prompt := "Summarize the report"
  scheduleKind := .interval
  timezone := "UTC"
  runAt := none
  intervalSeconds := some 300
  dailyTime := none
  maxAttempts := 3
  nextRunAt := some (seconds 100)
  lastRunAt := none
  lastTaskId := none
  enabled := true
  misfireGraceSeconds := 300
  lastDispatchStatus := none
  lastDispatchAt := none
  lastDispatchError := none

def noZones : Environment := ⟨fun _ => none, fun _ => "", 3⟩

theorem interval_occurrences_sample :
    ∃ occurrence following,
      latestDueOccurrence noZones sampleInterval (seconds 1000) = .ok occurrence ∧
      nextRunAfterOccurrence noZones sampleInterval (seconds 1000) = .ok (some following) ∧
      IsLatest (grid (seconds 100) (seconds 300)) (seconds 1000) occurrence ∧
      IsNext (grid (seconds 100) (seconds 300)) (seconds 1000) following ∧
      following = occurrence + seconds 300 :=
  interval_occurrences noZones rfl rfl (by decide) rfl (by decide)

end AgentDemo
