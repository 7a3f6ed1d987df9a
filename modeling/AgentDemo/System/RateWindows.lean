import AgentDemo.Services.AuthLimits

/-! Runs of the statements on one bucket: what a window counts and what it admits. -/
namespace AgentDemo

/-- What happens to one row: an upsert of a request, or a clean-up that selects its key. -/
inductive BucketEvent where
  | attempt (now : ClockReadings)
  | cleanUp (now : Instant)

/-- The row that an attempt has written, and whether its window starts with this attempt. -/
structure BucketAttempt where
  row : AuthRateLimit
  opened : Bool

/-- The attempts since the window of the newest one was opened; the newest comes first. -/
def sinceOpened : List BucketAttempt → List BucketAttempt
  | [] => []
  | attempt :: older => if attempt.opened then [attempt] else attempt :: sinceOpened older

/-- The row of one key, and the attempts on it, newest first. -/
structure RateBucket where
  row : Option AuthRateLimit
  attempts : List BucketAttempt

namespace RateBucket

def apply (settings : AuthLimitSettings) (bucket : RateBucket) : BucketEvent → RateBucket
  | .attempt now =>
    let row := upsertRateLimit settings bucket.row now
    let opened := decide (bucket.row.map AuthRateLimit.resetAt ≠ some row.resetAt)
    ⟨some row, ⟨row, opened⟩ :: bucket.attempts⟩
  | .cleanUp now => { bucket with row := if longExpired bucket.row now then none else bucket.row }

/-- The bucket after some events, the newest first. -/
def run (settings : AuthLimitSettings) : List BucketEvent → RateBucket
  | [] => ⟨none, []⟩
  | event :: past => (run settings past).apply settings event

/-- The stored count stands for attempts of its own window, so that a rejection needs more of them
than the limit, and no window admits more than the limit. -/
structure CountsOwnAttempts (limit : ℕ) (bucket : RateBucket) : Prop where
  counted : ∀ row, bucket.row = some row → row.count ≤ (sinceOpened bucket.attempts).length
  rejected : ∀ row, bucket.row = some row → limit < row.count →
    limit < (sinceOpened bucket.attempts).length
  admitted : ((sinceOpened bucket.attempts).filter fun attempt =>
    attempt.row.count ≤ limit).length ≤ limit

/-- The window runs out between the two readings that decide over the count and over its end. -/
def Crosses (bucket : RateBucket) (event : BucketEvent) : Prop :=
  ∃ row now, bucket.row = some row ∧ event = .attempt now ∧
    now.count < row.resetAt ∧ row.resetAt ≤ now.expiry

/-- The newest attempt wrote the row, and the counts of a window fall from there. -/
structure WellCounted (bucket : RateBucket) : Prop where
  newest : ∀ row, bucket.row = some row → ∃ opened, bucket.attempts.head? = some ⟨row, opened⟩
  positive : ∀ attempt ∈ bucket.attempts, 1 ≤ attempt.row.count
  falling : (sinceOpened bucket.attempts).Pairwise fun newer older =>
    older.row.count < newer.row.count

end RateBucket

theorem isPrefix_sinceOpened (attempts : List BucketAttempt) :
    sinceOpened attempts <+: attempts := by
  induction attempts with
  | nil => exact List.nil_prefix
  | cons attempt older ih =>
    unfold sinceOpened
    split_ifs
    · exact ⟨older, rfl⟩
    · exact List.cons_prefix_cons.mpr ⟨rfl, ih⟩

theorem sinceOpened_cons (attempt : BucketAttempt) (older : List BucketAttempt) :
    ∃ rest, sinceOpened (attempt :: older) = attempt :: rest := by
  unfold sinceOpened
  split_ifs
  · exact ⟨[], rfl⟩
  · exact ⟨_, rfl⟩

/-- An upsert counts on exactly where it keeps the window, unless the clock passes the end of the
window while it runs. -/
theorem upsertRateLimit_cases (settings : AuthLimitSettings) (row : AuthRateLimit)
    (now : ClockReadings) :
    (now.expiry < row.resetAt ∧
      upsertRateLimit settings (some row) now = ⟨row.count + 1, row.resetAt⟩) ∨
    (row.resetAt ≤ now.count ∧
      upsertRateLimit settings (some row) now = ⟨1, now.renewal + settings.window⟩) ∨
    (now.count < row.resetAt ∧ row.resetAt ≤ now.expiry ∧
      upsertRateLimit settings (some row) now =
        ⟨row.count + 1, now.renewal + settings.window⟩) := by
  have hordered := now.ordered.2.1
  unfold upsertRateLimit
  by_cases hcount : row.resetAt ≤ now.count
  · right; left
    have hexpiry : row.resetAt ≤ now.expiry := hcount.trans hordered
    exact ⟨hcount, by simp [hcount, hexpiry]⟩
  · by_cases hexpiry : row.resetAt ≤ now.expiry
    · right; right
      exact ⟨not_le.mp hcount, hexpiry, by simp [hcount, hexpiry]⟩
    · left
      exact ⟨not_le.mp hexpiry, by simp [hcount, hexpiry]⟩

/-- A renewed window ends later than the one it replaces. -/
theorem renewed_later (settings : AuthLimitSettings) {row : AuthRateLimit} {now : ClockReadings}
    (h : row.resetAt ≤ now.expiry) : row.resetAt < now.renewal + settings.window := by
  have hpos := settings.window_pos
  have hordered : now.expiry ≤ now.renewal := now.ordered.2.2.1
  have hwindow : 0 < settings.window := by
    change (0 : ℤ) < settings.rateWindowSeconds * 1000000
    omega
  exact lt_of_le_of_lt (h.trans hordered) (lt_add_of_pos_right _ hwindow)

namespace RateBucket

/-- An attempt goes on in the window, opens one, or opens one with the count of the last one. -/
theorem apply_attempt_cases (settings : AuthLimitSettings) (bucket : RateBucket)
    (now : ClockReadings) :
    (∃ row, bucket.row = some row ∧ ¬ bucket.Crosses (.attempt now) ∧
      bucket.apply settings (.attempt now) =
        ⟨some ⟨row.count + 1, row.resetAt⟩,
          ⟨⟨row.count + 1, row.resetAt⟩, false⟩ :: bucket.attempts⟩) ∨
    (∃ resetAt, ¬ bucket.Crosses (.attempt now) ∧ bucket.apply settings (.attempt now) =
      ⟨some ⟨1, resetAt⟩, ⟨⟨1, resetAt⟩, true⟩ :: bucket.attempts⟩) ∨
    (∃ row resetAt, bucket.row = some row ∧ bucket.Crosses (.attempt now) ∧
      bucket.apply settings (.attempt now) =
        ⟨some ⟨row.count + 1, resetAt⟩, ⟨⟨row.count + 1, resetAt⟩, true⟩ :: bucket.attempts⟩) := by
  cases hrow : bucket.row with
  | none =>
    right; left
    refine ⟨now.values + settings.window, ?_, ?_⟩
    · rintro ⟨row, _, hsome, _⟩
      rw [hrow] at hsome
      cases hsome
    · simp [apply, hrow, upsertRateLimit]
  | some row =>
    have hcrosses : bucket.Crosses (.attempt now) ↔ now.count < row.resetAt ∧
      row.resetAt ≤ now.expiry := by
      constructor
      · rintro ⟨row', now', hsome, heq, hcount, hexpiry⟩
        rw [hrow] at hsome
        cases hsome
        cases heq
        exact ⟨hcount, hexpiry⟩
      · rintro ⟨hcount, hexpiry⟩
        exact ⟨row, now, hrow, rfl, hcount, hexpiry⟩
    rcases upsertRateLimit_cases settings row now with
      ⟨hexpiry, hrun⟩ | ⟨hcount, hrun⟩ | ⟨hcount, hexpiry, hrun⟩
    · left
      refine ⟨row, rfl, ?_, ?_⟩
      · rw [hcrosses]
        exact fun h => absurd h.2 (not_le.mpr hexpiry)
      · simp [apply, hrow, hrun]
    · right; left
      have hlater := renewed_later settings (hcount.trans now.ordered.2.1)
      refine ⟨now.renewal + settings.window, ?_, ?_⟩
      · rw [hcrosses]
        exact fun h => absurd hcount (not_le.mpr h.1)
      · simp [apply, hrow, hrun, hlater.ne]
    · right; right
      have hlater := renewed_later settings hexpiry
      refine ⟨row, now.renewal + settings.window, rfl, hcrosses.mpr ⟨hcount, hexpiry⟩, ?_⟩
      simp [apply, hrow, hrun, hlater.ne]

/-- A clean-up keeps the attempts, and the row where it does not delete it. -/
theorem apply_cleanUp (settings : AuthLimitSettings) (bucket : RateBucket) (now : Instant) :
    (bucket.apply settings (.cleanUp now)).attempts = bucket.attempts ∧
      ∀ row, (bucket.apply settings (.cleanUp now)).row = some row → bucket.row = some row := by
  unfold apply
  constructor
  · rfl
  · intro row hrow
    dsimp only at hrow
    split_ifs at hrow
    exact hrow

theorem not_crosses_cleanUp (bucket : RateBucket) (now : Instant) :
    ¬ bucket.Crosses (.cleanUp now) := by
  rintro ⟨_, _, _, heq, _⟩
  cases heq

/-- The row has the greatest count of its window. -/
theorem WellCounted.count_le {bucket : RateBucket} (h : bucket.WellCounted) {row : AuthRateLimit}
    (hrow : bucket.row = some row) {attempt : BucketAttempt}
    (hmem : attempt ∈ sinceOpened bucket.attempts) : attempt.row.count ≤ row.count := by
  obtain ⟨opened, hhead⟩ := h.newest row hrow
  obtain ⟨older, hattempts⟩ : ∃ older, bucket.attempts = ⟨row, opened⟩ :: older :=
    ⟨_, List.eq_cons_of_mem_head? hhead⟩
  obtain ⟨rest, hrest⟩ := sinceOpened_cons ⟨row, opened⟩ older
  have hfalling := h.falling
  rw [hattempts, hrest] at hfalling hmem
  rcases List.mem_cons.mp hmem with rfl | hmem
  · exact le_rfl
  · exact ((List.pairwise_cons.mp hfalling).1 _ hmem).le

theorem WellCounted.apply {settings : AuthLimitSettings} {bucket : RateBucket}
    (h : bucket.WellCounted) (event : BucketEvent) : (bucket.apply settings event).WellCounted := by
  cases event with
  | cleanUp now =>
    obtain ⟨hattempts, hrow⟩ := apply_cleanUp settings bucket now
    constructor
    · intro row hsome
      rw [hattempts]
      exact h.newest row (hrow row hsome)
    · rw [hattempts]
      exact h.positive
    · rw [hattempts]
      exact h.falling
  | attempt now =>
    rcases apply_attempt_cases settings bucket now with
      ⟨row, hrow, _, hrun⟩ | ⟨resetAt, _, hrun⟩ | ⟨row, resetAt, _, _, hrun⟩ <;> rw [hrun]
    · constructor
      · intro row' hsome
        cases hsome
        exact ⟨false, rfl⟩
      · intro attempt hmem
        rcases List.mem_cons.mp hmem with rfl | hmem
        · simp
        · exact h.positive attempt hmem
      · simp only [sinceOpened, Bool.false_eq_true, if_false]
        apply List.pairwise_cons.mpr
        refine ⟨?_, h.falling⟩
        intro older hmem
        have hle := h.count_le hrow hmem
        simp only
        omega
    all_goals
      constructor
      · intro row' hsome
        cases hsome
        exact ⟨true, rfl⟩
      · intro attempt hmem
        rcases List.mem_cons.mp hmem with rfl | hmem
        · simp
        · exact h.positive attempt hmem
      · simp [sinceOpened]

theorem run_wellCounted (settings : AuthLimitSettings) (events : List BucketEvent) :
    (run settings events).WellCounted := by
  induction events with
  | nil => exact ⟨fun _ h => (by cases h), fun _ h => (by cases h), List.Pairwise.nil⟩
  | cons event past ih => exact ih.apply event

/-- Counts that fall down a list of attempts, from the limit at most, are no more than the limit. -/
theorem length_le_of_falling {limit : ℕ} {attempts : List BucketAttempt}
    (hfalling : attempts.Pairwise fun newer older => older.row.count < newer.row.count)
    (hpositive : ∀ attempt ∈ attempts, 1 ≤ attempt.row.count)
    (hlimit : ∀ attempt ∈ attempts, attempt.row.count ≤ limit) : attempts.length ≤ limit := by
  induction attempts generalizing limit with
  | nil => exact Nat.zero_le _
  | cons attempt older ih =>
    obtain ⟨hhead, hrest⟩ := List.pairwise_cons.mp hfalling
    have hcount := hlimit attempt List.mem_cons_self
    have hone := hpositive attempt List.mem_cons_self
    have holder : older.length ≤ limit - 1 := by
      apply ih hrest
      · exact fun other hother => hpositive other (List.mem_cons_of_mem _ hother)
      · intro other hother
        have hlt := hhead other hother
        omega
    rw [List.length_cons]
    omega

theorem WellCounted.admitted {bucket : RateBucket} (h : bucket.WellCounted) (limit : ℕ) :
    ((sinceOpened bucket.attempts).filter fun attempt =>
      attempt.row.count ≤ limit).length ≤ limit := by
  apply length_le_of_falling (h.falling.filter _)
  · intro attempt hmem
    exact h.positive attempt ((isPrefix_sinceOpened _).subset (List.mem_filter.mp hmem).1)
  · intro attempt hmem
    simpa using (List.mem_filter.mp hmem).2

/-- The count of a bucket stands for its own attempts. -/
def Counted (bucket : RateBucket) : Prop :=
  ∀ row, bucket.row = some row → row.count ≤ (sinceOpened bucket.attempts).length

theorem countsOwnAttempts_iff {bucket : RateBucket} (h : bucket.WellCounted) (limit : ℕ) :
    bucket.CountsOwnAttempts limit ↔ bucket.Counted := by
  constructor
  · intro hcounts
    exact hcounts.counted
  · intro hcounted
    exact ⟨hcounted, fun row hrow hlimit => hlimit.trans_le (hcounted row hrow), h.admitted limit⟩

/-- A step keeps the count right if and only if the clock does not cross the end of the window. -/
theorem counted_apply_iff {settings : AuthLimitSettings} {bucket : RateBucket}
    (hwell : bucket.WellCounted) (h : bucket.Counted) (event : BucketEvent) :
    (bucket.apply settings event).Counted ↔ ¬ bucket.Crosses event := by
  cases event with
  | cleanUp now =>
    obtain ⟨hattempts, hrow⟩ := apply_cleanUp settings bucket now
    simp only [not_crosses_cleanUp, not_false_eq_true, iff_true]
    intro row hsome
    rw [hattempts]
    exact h row (hrow row hsome)
  | attempt now =>
    rcases apply_attempt_cases settings bucket now with
      ⟨row, hrow, hnot, hrun⟩ | ⟨resetAt, hnot, hrun⟩ | ⟨row, resetAt, hrow, hcross, hrun⟩ <;>
      rw [hrun]
    · have hcount := h row hrow
      simp only [hnot, not_false_eq_true, iff_true]
      intro row' hsome
      cases hsome
      simpa [sinceOpened] using hcount
    · simp only [hnot, not_false_eq_true, iff_true]
      intro row' hsome
      cases hsome
      simp [sinceOpened]
    · simp only [hcross, not_true_eq_false, iff_false]
      intro hcounted
      obtain ⟨opened, hhead⟩ := hwell.newest row hrow
      have hone := hwell.positive _ (List.mem_of_mem_head? hhead)
      have htwo := hcounted _ rfl
      simp only [sinceOpened, if_true, List.length_singleton] at htwo
      simp only at hone
      omega

/-- In a run on one bucket every stored count stands for attempts of its own window, after every
statement, if and only if no upsert is overtaken by the end of the window. -/
theorem counts_own_attempts_iff (settings : AuthLimitSettings) (limit : ℕ)
    (events : List BucketEvent) :
    (∀ past, past <:+ events → (run settings past).CountsOwnAttempts limit) ↔
      ∀ event past, event :: past <:+ events → ¬ (run settings past).Crosses event := by
  have hiff (past : List BucketEvent) := countsOwnAttempts_iff (run_wellCounted settings past) limit
  simp only [hiff]
  constructor
  · intro hcounted event past hsuffix
    have hpast := hcounted past ((List.suffix_cons event past).trans hsuffix)
    exact (counted_apply_iff (run_wellCounted settings past) hpast event).mp (hcounted _ hsuffix)
  · intro hcross past
    induction past with
    | nil =>
      intro _ row hrow
      cases hrow
    | cons event past ih =>
      intro hsuffix
      have hpast := ih ((List.suffix_cons event past).trans hsuffix)
      exact (counted_apply_iff (run_wellCounted settings past) hpast event).mpr
        (hcross event past hsuffix)

/-- With a limit of 1, the only attempt of the second window is rejected: it has read the clock
before the end of the first window for its count, and after it for the new end. -/
theorem crossing_attempt_rejected :
    ¬ ∀ (settings : AuthLimitSettings) (limit : ℕ) (events past : List BucketEvent),
      past <:+ events → (run settings past).CountsOwnAttempts limit := by
  intro hclaim
  let settings : AuthLimitSettings := ⟨30, 10, 1, le_rfl⟩
  let first : ClockReadings := ⟨0, 0, 0, 0, 0, by decide⟩
  let second : ClockReadings := ⟨999998, 999999, 1000000, 1000001, 1000002, by decide⟩
  have hcounts := hclaim settings 1 [.attempt second, .attempt first] _ (List.suffix_refl _)
  have hrejected := hcounts.rejected ⟨2, 2000001⟩ (by decide) (by decide)
  exact absurd hrejected (by decide)

def applyAll (settings : AuthLimitSettings) (events : List BucketEvent) (bucket : RateBucket) :
    RateBucket := events.foldl (apply settings) bucket

theorem run_append (settings : AuthLimitSettings) (events past : List BucketEvent) :
    run settings (events.reverse ++ past) = applyAll settings events (run settings past) := by
  induction events generalizing past with
  | nil => rfl
  | cons event events ih =>
    rw [List.reverse_cons, List.append_assoc]
    exact ih (event :: past)

/-- The loop over the buckets does to each row what attempts on it do. -/
theorem admitBuckets_events (settings : AuthLimitSettings) (digest : String → String) (key : String)
    (buckets : List ((String × ℕ) × ClockReadings)) (rows : AuthRateLimits) :
    ∃ events, ∀ attempts, (admitBuckets settings digest buckets rows).1 key =
      (applyAll settings events ⟨rows key, attempts⟩).row := by
  induction buckets generalizing rows with
  | nil => exact ⟨[], fun _ => rfl⟩
  | cons bucket buckets ih =>
    obtain ⟨⟨identity, limit⟩, now⟩ := bucket
    set row := upsertRateLimit settings (rows (digest identity)) now with hrow
    set rows' := Function.update rows (digest identity) (some row) with hrows
    have hstep : ∃ events, ∀ attempts, ∃ attempts',
        applyAll settings events ⟨rows key, attempts⟩ = ⟨rows' key, attempts'⟩ := by
      by_cases hkey : key = digest identity
      · subst hkey
        refine ⟨[.attempt now], fun attempts => ?_⟩
        rw [hrows, Function.update_self]
        exact ⟨_, rfl⟩
      · refine ⟨[], fun attempts => ⟨attempts, ?_⟩⟩
        rw [hrows, Function.update_of_ne hkey]
        rfl
    obtain ⟨first, hfirst⟩ := hstep
    unfold admitBuckets
    simp only [← hrow, ← hrows]
    split_ifs
    · refine ⟨first, fun attempts => ?_⟩
      obtain ⟨attempts', heq⟩ := hfirst attempts
      rw [heq]
    · obtain ⟨rest, hrest⟩ := ih rows'
      refine ⟨first ++ rest, fun attempts => ?_⟩
      obtain ⟨attempts', heq⟩ := hfirst attempts
      rw [hrest attempts', ← heq]
      simp only [applyAll, List.foldl_append]

/-- A request does to each row of the table what events on its bucket do. -/
theorem admitAuthRequest_events (settings : AuthLimitSettings) (digest casefold : String → String)
    (rows : AuthRateLimits) (ip : Option String) (username : String) (clock : AdmissionClock)
    (key : String) :
    ∃ events, ∀ attempts,
      (admitAuthRequest settings digest casefold rows ip username clock).1 key =
        (applyAll settings events ⟨rows key, attempts⟩).row := by
  obtain ⟨events, hevents⟩ := admitBuckets_events settings digest key
    ((authBuckets settings casefold ip username).zip [clock.ip, clock.account]) rows
  unfold admitAuthRequest cleanRateLimits
  by_cases hselected : key ∈ clock.selected
  · refine ⟨events ++ [.cleanUp clock.cleanUp], fun attempts => ?_⟩
    simp only [hselected, true_and, hevents attempts, applyAll, List.foldl_append, List.foldl_cons,
      List.foldl_nil, apply]
  · refine ⟨events, fun attempts => ?_⟩
    simp only [hselected, false_and, if_false, hevents attempts]

structure AuthRequest where
  ip : Option String
  username : String
  clock : AdmissionClock

def requestRows (settings : AuthLimitSettings) (digest casefold : String → String) :
    List AuthRequest → AuthRateLimits
  | [] => fun _ => none
  | request :: past =>
    (admitAuthRequest settings digest casefold (requestRows settings digest casefold past)
      request.ip request.username request.clock).1

/-- Every row of the table comes from a run on its bucket. -/
theorem requestRows_run (settings : AuthLimitSettings) (digest casefold : String → String)
    (requests : List AuthRequest) (key : String) :
    ∃ events, requestRows settings digest casefold requests key = (run settings events).row := by
  induction requests with
  | nil => exact ⟨[], rfl⟩
  | cons request past ih =>
    obtain ⟨before, hbefore⟩ := ih
    obtain ⟨events, hevents⟩ := admitAuthRequest_events settings digest casefold
      (requestRows settings digest casefold past) request.ip request.username request.clock key
    refine ⟨events.reverse ++ before, ?_⟩
    rw [run_append, requestRows, hevents (run settings before).attempts, hbefore]

theorem admitBuckets_retryAfter (settings : AuthLimitSettings) (digest : String → String)
    (buckets : List ((String × ℕ) × ClockReadings)) (rows : AuthRateLimits) :
    (admitBuckets settings digest buckets rows).2 = 0 ∨
      1 ≤ (admitBuckets settings digest buckets rows).2 ∧
        (admitBuckets settings digest buckets rows).2 ≤ settings.rateWindowSeconds := by
  have hpos := settings.window_pos
  induction buckets generalizing rows with
  | nil => exact Or.inl rfl
  | cons bucket buckets ih =>
    unfold admitBuckets
    dsimp only
    split_ifs with hlimit
    · right
      simp only [bucketRetryAfter, hlimit, if_true]
      omega
    · exact ih _

/-- A rejected request is told to wait a second at least and a window at most. -/
theorem admitAuthRequest_retryAfter (settings : AuthLimitSettings)
    (digest casefold : String → String) (rows : AuthRateLimits) (ip : Option String)
    (username : String) (clock : AdmissionClock) {retryAfter : ℤ}
    (h : (admitAuthRequest settings digest casefold rows ip username clock).2 = some retryAfter) :
    1 ≤ retryAfter ∧ retryAfter ≤ settings.rateWindowSeconds := by
  have hbounds := admitBuckets_retryAfter settings digest
    ((authBuckets settings casefold ip username).zip [clock.ip, clock.account]) rows
  unfold admitAuthRequest at h
  simp only [Option.ite_none_right_eq_some, Option.some.injEq] at h
  obtain ⟨hne, rfl⟩ := h
  omega

end RateBucket

end AgentDemo
