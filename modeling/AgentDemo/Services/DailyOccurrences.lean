import AgentDemo.Library.Occurrences
import AgentDemo.Services.TaskSchedules

/-! Daily schedules: each local day whose wall time occurs has one instant, and what is due and
what is next are neighbours among these instants. -/
namespace AgentDemo

open Occurrences

def Zone.Occurs (zone : Zone) (wall : ℤ) : Prop := ∃ t, zone.toLocal t = wall

/-- The wall time of a daily schedule on a local day, days counted as local midnights are. -/
def dailyWall (localTime day : ℤ) : ℤ := day * dayLength + localTime

/-- The first instants of the daily wall times that occur. -/
def dailyInstants (zone : Zone) (localTime : ℤ) : Set Instant :=
  {t | ∃ day, zone.Occurs (dailyWall localTime day) ∧ t = zone.toUtc (dailyWall localTime day)}

/-- A wall time that occurs is converted to its earliest instant, these instants increase with
the day, and no two consecutive days miss the wall time. -/
structure WallTimes (zone : Zone) (localTime : ℤ) : Prop where
  earliest : ∀ t, zone.toLocal (zone.toUtc (zone.toLocal t)) = zone.toLocal t ∧
    zone.toUtc (zone.toLocal t) ≤ t
  increasing : ∀ day day', zone.Occurs (dailyWall localTime day) →
    zone.Occurs (dailyWall localTime day') → day < day' →
    zone.toUtc (dailyWall localTime day) < zone.toUtc (dailyWall localTime day')
  adjacent : ∀ day, zone.Occurs (dailyWall localTime day) ∨
    zone.Occurs (dailyWall localTime (day + 1))

/-- The wall time of a past local date has already occurred, local time is less than a day from
UTC, and neighbouring runs are at most three days apart. -/
structure DailyZone (zone : Zone) (localTime : ℤ) : Prop extends WallTimes zone localTime where
  past : ∀ now day, zone.Occurs (dailyWall localTime day) → day < zone.toLocal now / dayLength →
    zone.toUtc (dailyWall localTime day) ≤ now
  offset : ∀ t, |zone.toLocal t - t| < dayLength
  spacing : ∀ day day', zone.Occurs (dailyWall localTime day) →
    zone.Occurs (dailyWall localTime day') → day < day' → day' ≤ day + 2 →
    zone.toUtc (dailyWall localTime day') - zone.toUtc (dailyWall localTime day) ≤ 3 * dayLength

theorem dayLength_eq : dayLength = 86400000000 := rfl

/-- `HH:MM` is a time of the day. -/
theorem parseDailyTime_range {text : String} {localTime : ℤ}
    (h : parseDailyTime text = some localTime) : 0 ≤ localTime ∧ localTime < dayLength := by
  unfold parseDailyTime at h
  simp only at h
  split at h
  · cases h
  · obtain ⟨hour, -, h⟩ := Option.bind_eq_some_iff.mp h
    obtain ⟨minute, -, h⟩ := Option.bind_eq_some_iff.mp h
    split_ifs at h with hrange
    obtain rfl := Option.some.inj h
    rw [dayLength_eq]
    unfold seconds
    constructor <;> omega

section Zone

variable {zone : Zone} {localTime : ℤ}

/-- The round trip through UTC finds out whether a wall time occurs. -/
theorem WallTimes.occurs_iff (h : WallTimes zone localTime) {wall : ℤ} :
    zone.Occurs wall ↔ zone.toLocal (zone.toUtc wall) = wall := by
  constructor
  · rintro ⟨t, rfl⟩
    exact (h.earliest t).1
  · intro heq
    exact ⟨_, heq⟩

theorem dailyCandidates_eq (zone : Zone) (now : Instant) (localTime : ℤ) :
    dailyCandidates zone now localTime = (List.range 370).filterMap fun offset : ℕ =>
      let wall := dailyWall localTime (zone.toLocal now / dayLength + offset)
      if zone.toLocal (zone.toUtc wall) = wall then some (zone.toUtc wall) else none := by
  unfold dailyCandidates dailyWall
  simp only [List.bind_eq_flatMap, List.pure_def, ← List.map_eq_flatMap, List.filterMap_map,
    Function.comp_def, ne_eq, ite_not]

theorem WallTimes.mem_dailyCandidates (h : WallTimes zone localTime) {now t : Instant} :
    t ∈ dailyCandidates zone now localTime ↔ ∃ offset : ℕ, offset < 370 ∧
      zone.Occurs (dailyWall localTime (zone.toLocal now / dayLength + offset)) ∧
      t = zone.toUtc (dailyWall localTime (zone.toLocal now / dayLength + offset)) := by
  simp only [dailyCandidates_eq, List.mem_filterMap, List.mem_range, h.occurs_iff]
  constructor
  · rintro ⟨offset, hlt, heq⟩
    split_ifs at heq with hround
    exact ⟨offset, hlt, hround, (Option.some.inj heq).symm⟩
  · rintro ⟨offset, hlt, hround, rfl⟩
    exact ⟨offset, hlt, if_pos hround⟩

theorem WallTimes.pairwise_dailyCandidates (h : WallTimes zone localTime) (now : Instant) :
    (dailyCandidates zone now localTime).Pairwise (· < ·) := by
  rw [dailyCandidates_eq]
  refine List.Pairwise.filterMap _ ?_ List.pairwise_lt_range
  intro offset offset' hlt t ht t' ht'
  simp only [Option.ite_none_right_eq_some, Option.some.injEq] at ht ht'
  obtain ⟨hround, rfl⟩ := ht
  obtain ⟨hround', rfl⟩ := ht'
  refine h.increasing _ _ (h.occurs_iff.mpr hround) (h.occurs_iff.mpr hround') ?_
  omega

/-- Some wall time of the next days is still to come. -/
theorem DailyZone.exists_ahead (h : DailyZone zone localTime) (hrange : 0 ≤ localTime)
    (now : Instant) :
    ∃ offset : ℕ, offset ≤ 4 ∧
      zone.Occurs (dailyWall localTime (zone.toLocal now / dayLength + offset)) ∧
      now < zone.toUtc (dailyWall localTime (zone.toLocal now / dayLength + offset)) := by
  have ahead (offset : ℕ) (hoffset : 3 ≤ offset)
      (hocc : zone.Occurs (dailyWall localTime (zone.toLocal now / dayLength + offset))) :
      now < zone.toUtc (dailyWall localTime (zone.toLocal now / dayLength + offset)) := by
    have hnow := abs_lt.mp (h.offset now)
    have hthen := abs_lt.mp (h.offset
      (zone.toUtc (dailyWall localTime (zone.toLocal now / dayLength + offset))))
    rw [h.occurs_iff.mp hocc] at hthen
    have hday := Int.lt_ediv_add_one_mul_self (zone.toLocal now) (show 0 < dayLength by decide)
    have hoffset' : (3 : ℤ) * dayLength ≤ offset * dayLength :=
      Int.mul_le_mul_of_nonneg_right (by omega) (by decide)
    have hwall : dailyWall localTime (zone.toLocal now / dayLength + offset) =
        zone.toLocal now / dayLength * dayLength + offset * dayLength + localTime := by
      unfold dailyWall
      ring
    linarith
  rcases h.adjacent (zone.toLocal now / dayLength + (3 : ℕ)) with hocc | hocc
  · exact ⟨3, by omega, hocc, ahead 3 le_rfl hocc⟩
  · rw [add_assoc] at hocc
    exact ⟨4, le_rfl, hocc, ahead 4 (by omega) hocc⟩

end Zone

section Daily

variable {env : Environment} {zone : Zone} {timezoneName text : String} {localTime : ℤ}
  (htext : parseDailyTime text = some localTime)
  (hvalid : validateTimezone env timezoneName = .ok zone) (hzone : DailyZone zone localTime)

include htext hvalid hzone

theorem isNext_nextDailyRun (now : Instant) :
    ∃ next, nextDailyRun env now timezoneName (some text) = .ok next ∧
      IsNext (dailyInstants zone localTime) now next := by
  obtain ⟨offset, hoffset, hocc, hahead⟩ :=
    hzone.exists_ahead (parseDailyTime_range htext).1 now
  obtain ⟨next, hfind, hnext⟩ := isLeast_find? (hzone.pairwise_dailyCandidates now)
    ⟨_, hzone.mem_dailyCandidates.mpr ⟨offset, by omega, hocc, rfl⟩, hahead⟩
  refine ⟨next, ?_, ?_, ?_⟩
  · simp only [nextDailyRun, htext, hvalid, bind, Except.bind, hfind]
  · obtain ⟨k, -, hk, rfl⟩ := hzone.mem_dailyCandidates.mp hnext.1.1
    exact ⟨⟨_, hk, rfl⟩, hnext.1.2⟩
  · rintro t ⟨⟨day, hday, rfl⟩, hlt⟩
    -- An earlier date has passed; a later one than all candidates comes after one of them.
    have hfrom : zone.toLocal now / dayLength ≤ day := by
      by_contra hlt'
      exact absurd (hzone.past now day hday (not_le.mp hlt')) (not_le.mpr hlt)
    obtain ⟨k, hk⟩ := Int.eq_ofNat_of_zero_le (sub_nonneg.mpr hfrom)
    obtain rfl : day = zone.toLocal now / dayLength + k := by omega
    by_cases hsmall : k < 370
    · exact hnext.2 ⟨hzone.mem_dailyCandidates.mpr ⟨k, hsmall, hday, rfl⟩, hlt⟩
    · have hle := hnext.2 ⟨hzone.mem_dailyCandidates.mpr ⟨offset, by omega, hocc, rfl⟩, hahead⟩
      exact hle.trans (hzone.increasing _ _ hocc hday (by omega)).le

/-- Once a candidate has come, the loop ends at the latest instant. -/
theorem isLatest_latestDailyRun {now occurrence candidate : Instant}
    (hoccurrence : occurrence ∈ dailyInstants zone localTime) (hpast : occurrence ≤ now)
    (hcandidate : candidate ∈ dailyInstants zone localTime)
    (hlast : now < candidate → ∀ t ∈ dailyInstants zone localTime, t ≤ now → t ≤ occurrence) :
    ∃ result, latestDailyRun env timezoneName (some text) now occurrence candidate = .ok result ∧
      IsLatest (dailyInstants zone localTime) now result := by
  fun_induction latestDailyRun env timezoneName (some text) now occurrence candidate with
  | case1 occurrence candidate hdue next hnext ih =>
    obtain ⟨next', hnext', hleast⟩ := isNext_nextDailyRun htext hvalid hzone candidate
    obtain rfl := Except.ok.inj (hnext.symm.trans hnext')
    refine ih (max_rec' (· ∈ dailyInstants zone localTime) hoccurrence hcandidate)
      (max_le hpast hdue) hleast.1.1 ?_
    intro hlt t ht hle
    refine le_max_of_le_right ?_
    by_contra hgt
    exact absurd (hleast.2 ⟨ht, not_le.mp hgt⟩) (not_le.mpr (lt_of_le_of_lt hle hlt))
  | case2 occurrence candidate hdue error hnext =>
    obtain ⟨next, hnext', -⟩ := isNext_nextDailyRun htext hvalid hzone candidate
    exact absurd (hnext.symm.trans hnext') nofun
  | case3 occurrence candidate hdue =>
    exact ⟨occurrence, rfl, ⟨hoccurrence, hpast⟩,
      fun t ht => hlast (not_le.mp hdue) t ht.1 ht.2⟩

/-- Some run lies in the three days before every instant. -/
theorem exists_recent (now : Instant) :
    ∃ t ∈ dailyInstants zone localTime, now - 3 * dayLength < t ∧ t ≤ now := by
  obtain ⟨next, -, ⟨⟨day, hday, rfl⟩, hahead⟩, hleast⟩ :=
    isNext_nextDailyRun htext hvalid hzone now
  have recent (day' : ℤ) (hday' : zone.Occurs (dailyWall localTime day')) (hlt : day' < day)
      (hnear : day ≤ day' + 2) :
      ∃ t ∈ dailyInstants zone localTime, now - 3 * dayLength < t ∧ t ≤ now := by
    have hspacing := hzone.spacing day' day hday' hday hlt hnear
    refine ⟨_, ⟨day', hday', rfl⟩, by linarith, ?_⟩
    by_contra hafter
    exact absurd (hzone.increasing day' day hday' hday hlt)
      (not_lt.mpr (hleast ⟨⟨day', hday', rfl⟩, not_le.mp hafter⟩))
  rcases hzone.adjacent (day - 2) with hocc | hocc
  · exact recent _ hocc (by omega) (by omega)
  · exact recent _ hocc (by omega) (by omega)

/-- A due daily schedule: the due occurrence is the latest instant, and the next run the one
after it. -/
theorem due_daily {schedule : TaskSchedule} {now due : Instant}
    (hkind : schedule.scheduleKind = .daily) (hname : schedule.timezone = timezoneName)
    (htime : schedule.dailyTime = some text) (hnext : schedule.nextRunAt = some due)
    (hdue : due ≤ now) (hmem : due ∈ dailyInstants zone localTime) :
    ∃ occurrence following, latestDueOccurrence env schedule now = .ok occurrence ∧
      nextRunAfterOccurrence env schedule now = .ok (some following) ∧
      IsLatest (dailyInstants zone localTime) now occurrence ∧
      IsNext (dailyInstants zone localTime) now following ∧
      IsNext (dailyInstants zone localTime) occurrence following := by
  obtain ⟨candidate, hcandidate, hfirst⟩ :=
    isNext_nextDailyRun htext hvalid hzone (now - 3 * dayLength)
  obtain ⟨t, ht, hlate, hpast⟩ := exists_recent htext hvalid hzone now
  have hstart : candidate ≤ now := (hfirst.2 ⟨ht, hlate⟩).trans hpast
  obtain ⟨occurrence, hloop, hlatest⟩ := isLatest_latestDailyRun htext hvalid hzone hmem hdue
    hfirst.1.1 fun hlt => absurd hstart (not_le.mpr hlt)
  obtain ⟨following, hrun, hfollowing⟩ := isNext_nextDailyRun htext hvalid hzone now
  refine ⟨occurrence, following, ?_, ?_, hlatest, hfollowing, hfollowing.of_isLatest hlatest⟩
  · simp only [latestDueOccurrence, hkind, hname, htime, hnext, Option.getD_some, hcandidate, hloop,
      bind, Except.bind]
  · simp only [nextRunAfterOccurrence, hkind, hname, htime, hrun, Except.map]

end Daily

end AgentDemo
