import AgentDemo.Services.DailyOccurrences
import AgentDemo.Services.DueOccurrences
import AgentDemo.System.Schedules

/-! Daily schedules in every run: the stored next run is always a daily instant of the zone. -/
namespace AgentDemo

open Occurrences

/-- The next run of a daily schedule comes from `_next_daily_run`. -/
def DailyRow (env : Environment) (schedule : TaskSchedule) : Prop :=
  schedule.scheduleKind = .daily → ∀ next, schedule.nextRunAt = some next →
    ∃ now, nextDailyRun env now schedule.timezone schedule.dailyTime = .ok next

theorem validateTimezone_strip (env : Environment) (timezoneName : String) :
    validateTimezone env (strip timezoneName) = validateTimezone env timezoneName := by
  unfold validateTimezone
  rw [strip_strip]

theorem nextDailyRun_strip (env : Environment) (now : Instant) (timezoneName : String)
    (dailyTime : Option String) :
    nextDailyRun env now (strip timezoneName) dailyTime =
      nextDailyRun env now timezoneName dailyTime := by
  unfold nextDailyRun
  rw [validateTimezone_strip]

theorem nextDailyRun_of_initialNextRun {env : Environment} {timezoneName : String}
    {now next : Instant} {runAt : Option RunAt} {intervalSeconds : Option ℤ}
    {dailyTime : Option String}
    (h : initialNextRun env .daily timezoneName now runAt intervalSeconds dailyTime = .ok next) :
    nextDailyRun env now timezoneName dailyTime = .ok next := by
  unfold initialNextRun at h
  cases hz : validateTimezone env timezoneName with
  | error e => simp [hz, bind, Except.bind] at h
  | ok zone => simpa only [hz, bind, Except.bind] using h

namespace DailyRow

variable {env : Environment} {schedule schedule' : TaskSchedule}

theorem update {payload : TaskScheduleUpdate} {now now' : Instant} (h : DailyRow env schedule)
    (hu : updateTaskSchedule env schedule payload now now' = .ok schedule') :
    DailyRow env schedule' := by
  unfold updateTaskSchedule at hu
  split at hu
  next =>
    cases hi : initialNextRun env schedule.scheduleKind schedule.timezone now'
        (schedule.runAt.map RunAt.aware) schedule.intervalSeconds schedule.dailyTime with
    | error e => simp [hi] at hu
    | ok next =>
      simp only [hi, Except.ok.injEq] at hu
      subst hu
      intro hk n hn
      obtain rfl := Option.some.inj hn
      rw [show schedule.scheduleKind = .daily from hk] at hi
      exact ⟨now', nextDailyRun_of_initialNextRun hi⟩
  next =>
    obtain rfl := Except.ok.inj hu
    exact h

theorem dispatch {tasks tasks' : Table Task} {id : UUID} {now createdAt : Instant}
    {run : Option QueuedRun} (h : DailyRow env schedule)
    (hs : dispatchSchedule env tasks schedule id now createdAt = .ok (tasks', schedule', run)) :
    DailyRow env schedule' := by
  have moved {occurrence : Instant} {next : Option Instant}
      (hp : planDispatch env schedule now = .ok (occurrence, next)) (status : DispatchStatus) :
      DailyRow env (dispatchMoved schedule now next status) := by
    intro hk n hn
    have hafter := (planDispatch_eq_ok hp).2
    unfold nextRunAfterOccurrence at hafter
    rw [show schedule.scheduleKind = .daily from hk] at hafter
    refine ⟨now, ?_⟩
    cases hd : nextDailyRun env now schedule.timezone schedule.dailyTime with
    | error e => simp [hd, Except.map] at hafter
    | ok m =>
      simp only [hd, Except.map, Except.ok.injEq] at hafter
      have hm : some m = some n := hafter.trans hn
      exact hd.trans (congrArg Except.ok (Option.some.inj hm))
  rcases dispatchSchedule_eq_ok hs with ⟨e, -, -, rfl, rfl⟩ | ⟨o, n, st, hp, -, -, rfl, rfl⟩ |
    ⟨o, n, hp, -, -, -, rfl, rfl⟩
  · exact h
  · exact moved hp st
  · exact moved hp .queued

end DailyRow

namespace World

variable {env : Environment} {w : World}

theorem keptBySchedules_dailyRow (env : Environment) : KeptBySchedules env (DailyRow env) where
  create := by
    intro _ _ _ payload _ _ now s hc hi
    obtain ⟨new, next, interval, hi', hn, hnext, hkind, -, hzone, htime⟩ :=
      createTaskSchedule_eq_ok hc
    obtain rfl := Table.insert?_inj hi hi'
    refine fun hk n hn' => ⟨now, ?_⟩
    rw [hnext] at hn'
    rw [← hkind, hk] at hn
    rw [hzone, htime, nextDailyRun_strip, ← Option.some.inj hn']
    exact nextDailyRun_of_initialNextRun hn
  change := by
    intro a s s' h hchange
    cases hchange with
    | same => exact h
    | update _ _ _ hu => exact h.update hu
    | ran => exact h
    | dispatch _ _ _ hs => exact h.dispatch hs

/-- `_next_daily_run` finds the least daily instant after every clock. When a daily schedule is
due, the due occurrence is the greatest daily instant that is not after the clock, and its next
run the very next one. -/
theorem daily_occurrences {zone : Zone} {timezoneName text : String} {localTime : ℤ}
    (htext : parseDailyTime text = some localTime)
    (hvalid : validateTimezone env timezoneName = .ok zone) (hzone : DailyZone zone localTime)
    (now : Instant) :
    (∃ next, nextDailyRun env now timezoneName (some text) = .ok next ∧
      IsNext (dailyInstants zone localTime) now next) ∧
    ∀ w schedule due, Reachable env w → schedule ∈ w.schedules.rows →
      schedule.scheduleKind = .daily → schedule.timezone = timezoneName →
      schedule.dailyTime = some text → schedule.nextRunAt = some due → due ≤ now →
      ∃ occurrence following, latestDueOccurrence env schedule now = .ok occurrence ∧
        nextRunAfterOccurrence env schedule now = .ok (some following) ∧
        IsLatest (dailyInstants zone localTime) now occurrence ∧
        IsNext (dailyInstants zone localTime) now following ∧
        IsNext (dailyInstants zone localTime) occurrence following := by
  refine ⟨isNext_nextDailyRun htext hvalid hzone now, ?_⟩
  intro w schedule due hw hmem hkind hname htime hnext hdue
  obtain ⟨before, hrun⟩ :=
    hw.forall_schedules (keptBySchedules_dailyRow env) schedule hmem hkind due hnext
  rw [hname, htime] at hrun
  obtain ⟨next, hrun', hisNext⟩ := isNext_nextDailyRun htext hvalid hzone before
  obtain rfl := Except.ok.inj (hrun.symm.trans hrun')
  exact due_daily htext hvalid hzone hkind hname htime hnext hdue hisNext.1.1

end World

/-! ### A schedule at noon, and three clocks that are not like a zone -/

def hours (n : ℤ) : Instant := seconds (n * 3600)

/-- Twelve o'clock. -/
def noon : ℤ := hours 12

theorem hours_eq (n : ℤ) : hours n = n * 3600000000 := by
  unfold hours seconds
  ring

/-- Half past two in the morning. -/
def halfPastTwo : ℤ := seconds 9000

/-- One hour east of UTC, and two hours for three days: half past two is left out on the first
morning and comes twice on the last. -/
def summerZone : Zone where
  toLocal t := if hours 1 ≤ t ∧ t < hours 73 then t + hours 2 else t + hours 1
  toUtc wall := if hours 3 ≤ wall ∧ wall < hours 75 then wall - hours 2 else wall - hours 1

theorem dailyZone_summerZone : DailyZone summerZone halfPastTwo where
  earliest t := by
    simp only [summerZone, hours_eq]
    unfold Instant
    split_ifs <;> constructor <;> omega
  increasing day day' _ _ hlt := by
    simp only [summerZone, dailyWall, halfPastTwo, seconds, dayLength_eq, hours_eq]
    unfold Instant
    split_ifs <;> omega
  adjacent day := by
    by_cases hday : day = 0
    · refine Or.inr ⟨dailyWall halfPastTwo (day + 1) - hours 2, ?_⟩
      simp only [summerZone, dailyWall, halfPastTwo, seconds, dayLength_eq, hours_eq]
      unfold Instant
      split_ifs <;> omega
    · refine Or.inl ⟨summerZone.toUtc (dailyWall halfPastTwo day), ?_⟩
      simp only [summerZone, dailyWall, halfPastTwo, seconds, dayLength_eq, hours_eq]
      unfold Instant
      split_ifs <;> omega
  past now day _ hlt := by
    have hday := Int.ediv_mul_le (summerZone.toLocal now) (show dayLength ≠ 0 by decide)
    simp only [summerZone, dailyWall, halfPastTwo, seconds, dayLength_eq, hours_eq] at hlt hday ⊢
    unfold Instant at *
    split_ifs at * <;> omega
  offset t := by
    rw [abs_lt]
    simp only [summerZone, dayLength_eq, hours_eq]
    unfold Instant
    split_ifs <;> constructor <;> omega
  spacing day day' _ _ _ hle := by
    simp only [summerZone, dailyWall, halfPastTwo, seconds, dayLength_eq, hours_eq]
    unfold Instant
    split_ifs <;> omega

theorem daily_supported (name : String) : ScheduleKind.daily ≠ .unsupported name := by
  intro h
  cases h

theorem daily_runAt : ScheduleKind.daily = .once → (none : Option RunAt).isSome = true := by
  intro h
  cases h

theorem daily_minutes : ScheduleKind.daily = .interval → (none : Option ℕ).isSome = true := by
  intro h
  cases h

theorem daily_text : ScheduleKind.daily = .daily → (some "02:30").isSome = true := fun _ => rfl

def sampleDaily : TaskScheduleCreate :=
  { sampleSchedule with
    scheduleKind := .daily
    timezone := "Europe/Berlin"
    runAt := none
    dailyTime := some "02:30"
    kind_supported := daily_supported
    once_runAt := daily_runAt
    interval_minutes := daily_minutes
    daily_time := daily_text }

def zoneEnvironment (zone : Zone) : Environment := ⟨fun _ => some zone, fun _ => "", 3⟩

def dailyWorld : World :=
  .ofRun (zoneEnvironment summerZone) [⟨.createTaskSchedule 1 10 sampleDaily, 0, 0⟩]

def dailyRow : TaskSchedule :=
  dailyWorld.schedules.rows.head (List.ne_nil_of_length_pos (by decide))

/-- The clock in front of the first morning, and between the two on the last. -/
theorem daily_occurrences_sample :
    (∃ next, nextDailyRun (zoneEnvironment summerZone) 0 "Europe/Berlin" (some "02:30") = .ok next ∧
      IsNext (dailyInstants summerZone halfPastTwo) 0 next) ∧
    ∃ occurrence following,
      latestDueOccurrence (zoneEnvironment summerZone) dailyRow (hours 73) = .ok occurrence ∧
      nextRunAfterOccurrence (zoneEnvironment summerZone) dailyRow (hours 73) =
        .ok (some following) ∧
      IsLatest (dailyInstants summerZone halfPastTwo) (hours 73) occurrence ∧
      IsNext (dailyInstants summerZone halfPastTwo) (hours 73) following ∧
      IsNext (dailyInstants summerZone halfPastTwo) occurrence following := by
  have htext : parseDailyTime "02:30" = some halfPastTwo := by decide
  have hvalid : validateTimezone (zoneEnvironment summerZone) "Europe/Berlin" = .ok summerZone :=
    rfl
  constructor
  · exact (World.daily_occurrences htext hvalid dailyZone_summerZone 0).1
  · refine (World.daily_occurrences htext hvalid dailyZone_summerZone (hours 73)).2 dailyWorld
      dailyRow (seconds 88200) (World.reachable_ofRun _ (by decide))
        (List.head_mem _) ?_ ?_ ?_ ?_ ?_
        <;> decide

/-- The clock shows the evening of the next day for ten hours, and then this morning. -/
def skippingZone : Zone where
  toLocal t := if 0 ≤ t ∧ t < hours 10 then t + hours 20 else t
  toUtc wall := if hours 20 ≤ wall ∧ wall < hours 30 then wall - hours 20 else wall

/-- The clock is four hundred days behind for two hours. -/
def strayingZone : Zone where
  toLocal t := if hours 10 ≤ t ∧ t < hours 12 then t - 400 * dayLength else t
  toUtc wall := wall

/-- The clock falls back by forty hours and leaves out the next noon. -/
def driftingZone : Zone where
  toLocal t := if t < hours 10 then t + hours 20
    else if hours 55 ≤ t ∧ t < hours 57 then t - hours 18 else t - hours 20
  toUtc wall := if wall < hours 30 then wall - hours 20
    else if hours 37 ≤ wall ∧ wall < hours 39 then wall + hours 18 else wall + hours 20

theorem wallTimes_skippingZone : WallTimes skippingZone noon where
  earliest t := by
    simp only [skippingZone, hours_eq]
    unfold Instant
    split_ifs <;> constructor <;> omega
  increasing day day' _ _ hlt := by
    simp only [skippingZone, dailyWall, noon, dayLength_eq, hours_eq]
    unfold Instant
    split_ifs <;> omega
  adjacent day := by
    refine Or.inl ⟨dailyWall noon day, ?_⟩
    simp only [skippingZone, dailyWall, noon, dayLength_eq, hours_eq]
    unfold Instant
    split_ifs <;> omega

theorem wallTimes_strayingZone : WallTimes strayingZone noon where
  earliest t := by
    simp only [strayingZone, dayLength_eq, hours_eq]
    unfold Instant
    split_ifs <;> constructor <;> omega
  increasing day day' _ _ hlt := by
    simp only [strayingZone, dailyWall, noon, dayLength_eq, hours_eq]
    unfold Instant
    omega
  adjacent day := by
    refine Or.inl ⟨dailyWall noon day, ?_⟩
    simp only [strayingZone, dailyWall, noon, dayLength_eq, hours_eq]
    unfold Instant
    split_ifs <;> omega

theorem wallTimes_driftingZone : WallTimes driftingZone noon where
  earliest t := by
    simp only [driftingZone, hours_eq]
    unfold Instant
    split_ifs <;> constructor <;> omega
  increasing day day' _ _ hlt := by
    simp only [driftingZone, dailyWall, noon, dayLength_eq, hours_eq]
    unfold Instant
    split_ifs <;> omega
  adjacent day := by
    by_cases hday : day ≤ 0
    · refine Or.inl ⟨dailyWall noon day - hours 20, ?_⟩
      simp only [driftingZone, dailyWall, noon, dayLength_eq, hours_eq]
      unfold Instant
      split_ifs <;> omega
    · refine Or.inr ⟨dailyWall noon (day + 1) + hours 20, ?_⟩
      simp only [driftingZone, dailyWall, noon, dayLength_eq, hours_eq]
      unfold Instant
      split_ifs <;> omega

def sampleNoon (next : Instant) : TaskSchedule :=
  { sampleInterval with
    scheduleKind := .daily
    intervalSeconds := none
    dailyTime := some "12:00"
    nextRunAt := some next }

theorem nextDailyRun_strayingZone :
    nextDailyRun (zoneEnvironment strayingZone) (hours 11) "UTC" (some "12:00") =
      .error "No valid daily occurrence in the next year" := by
  have hpast : ((dailyCandidates strayingZone (hours 11) noon).find? fun t => hours 11 < t) =
      none := by
    rw [List.find?_eq_none, dailyCandidates_eq]
    intro t ht
    obtain ⟨offset, hoffset, heq⟩ := List.mem_filterMap.mp ht
    rw [List.mem_range] at hoffset
    dsimp only at heq
    split_ifs at heq
    obtain rfl := Option.some.inj heq
    have hday : strayingZone.toLocal (hours 11) / dayLength = -400 := by decide
    rw [decide_eq_true_eq, not_lt, hday]
    simp only [strayingZone, dailyWall, noon, dayLength_eq, hours_eq]
    show (_ : ℤ) ≤ _
    omega
  have htext : parseDailyTime "12:00" = some noon := by decide
  simp only [nextDailyRun, htext, validateTimezone, zoneEnvironment, bind, Except.bind, hpast]

theorem latestDueOccurrence_driftingZone :
    latestDueOccurrence (zoneEnvironment driftingZone) (sampleNoon (hours (-32))) (hours 79) =
      .ok (hours (-32)) := by
  have hnext : nextDailyRun (zoneEnvironment driftingZone) (hours 79 - 3 * dayLength) "UTC"
      (some "12:00") = .ok (hours 80) := rfl
  simp only [latestDueOccurrence, sampleNoon, sampleInterval, hnext, Option.getD_some, bind,
    Except.bind]
  unfold latestDailyRun
  rw [dif_neg (by decide)]

/-- Three clocks with these properties where the code departs from the daily instants: it skips
an instant, finds none, and takes an earlier one for the latest. -/
theorem wallTimes_insufficient :
    (WallTimes skippingZone noon ∧
      nextDailyRun (zoneEnvironment skippingZone) (hours 5) "UTC" (some "12:00") = .ok (hours 36) ∧
      ¬ IsNext (dailyInstants skippingZone noon) (hours 5) (hours 36)) ∧
    (WallTimes strayingZone noon ∧
      nextDailyRun (zoneEnvironment strayingZone) (hours 11) "UTC" (some "12:00") =
        .error "No valid daily occurrence in the next year" ∧
      IsNext (dailyInstants strayingZone noon) (hours 11) (hours 12)) ∧
    (WallTimes driftingZone noon ∧ hours (-32) ∈ dailyInstants driftingZone noon ∧
      latestDueOccurrence (zoneEnvironment driftingZone) (sampleNoon (hours (-32))) (hours 79) =
        .ok (hours (-32)) ∧
      ¬ IsLatest (dailyInstants driftingZone noon) (hours 79) (hours (-32))) := by
  refine ⟨⟨wallTimes_skippingZone, rfl, ?_⟩,
    ⟨wallTimes_strayingZone, nextDailyRun_strayingZone, ?_, ?_⟩,
    wallTimes_driftingZone, ?_, latestDueOccurrence_driftingZone, ?_⟩
  · intro h
    have hnoon : hours 12 ∈ dailyInstants skippingZone noon := ⟨0, ⟨hours 12, by decide⟩, by decide⟩
    exact absurd (h.2 ⟨hnoon, by decide⟩) (by decide)
  · exact ⟨⟨0, ⟨hours 12, by decide⟩, by decide⟩, by decide⟩
  · rintro t ⟨⟨day, -, rfl⟩, hlt⟩
    simp only [strayingZone, dailyWall, noon, dayLength_eq, hours_eq] at hlt ⊢
    unfold Instant at *
    omega
  · exact ⟨-1, ⟨hours (-32), by decide⟩, by decide⟩
  · intro h
    have hnoon : hours (-8) ∈ dailyInstants driftingZone noon :=
      ⟨0, ⟨hours (-8), by decide⟩, by decide⟩
    exact absurd (h.2 ⟨hnoon, by decide⟩) (by decide)

end AgentDemo
