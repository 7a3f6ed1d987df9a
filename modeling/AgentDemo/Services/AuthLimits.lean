import AgentDemo.Values
import Mathlib.Data.List.Basic

/-! Fixed-window admission limits in front of password verification. -/
namespace AgentDemo

/-- The settings that `admit_auth_request` reads; the window lasts a second at least. -/
structure AuthLimitSettings where
  rateIpLimit : ℕ
  rateAccountLimit : ℕ
  rateWindowSeconds : ℤ
  window_pos : 1 ≤ rateWindowSeconds

def AuthLimitSettings.window (settings : AuthLimitSettings) : Instant :=
  seconds settings.rateWindowSeconds

/-- A row of `auth_rate_limits`, without its key. -/
structure AuthRateLimit where
  count : ℕ
  resetAt : Instant
  deriving DecidableEq

/-- The readings of `clock_timestamp()` in one upsert, in the order of their evaluation: in the new
row, in the condition of the count, in the condition and in the value of the end of the window, and
in the returned columns. -/
structure ClockReadings where
  values : Instant
  count : Instant
  expiry : Instant
  renewal : Instant
  returning : Instant
  ordered : values ≤ count ∧ count ≤ expiry ∧ expiry ≤ renewal ∧ renewal ≤ returning

/-- The row that `INSERT … ON CONFLICT DO UPDATE` leaves behind. -/
def upsertRateLimit (settings : AuthLimitSettings) (row : Option AuthRateLimit)
    (now : ClockReadings) : AuthRateLimit :=
  match row with
  | none => { count := 1, resetAt := now.values + settings.window }
  | some row =>
    { count := if row.resetAt ≤ now.count then 1 else row.count + 1
      resetAt := if row.resetAt ≤ now.expiry then now.renewal + settings.window else row.resetAt }

/-- `ceil(extract(epoch from reset_at - now))` of the returned columns. -/
def remainingSeconds (row : AuthRateLimit) (now : ClockReadings) : ℤ :=
  -((now.returning - row.resetAt) / 1000000)

/-- What a rejected request answers as `retry_after`; 0 is an admission. -/
def bucketRetryAfter (settings : AuthLimitSettings) (limit : ℕ) (row : AuthRateLimit)
    (now : ClockReadings) : ℤ :=
  if limit < row.count then max 1 (min settings.rateWindowSeconds (remainingSeconds row now)) else 0

/-- The table, from hashed bucket identities to rows. -/
abbrev AuthRateLimits := String → Option AuthRateLimit

/-- The loop over the buckets with their clock readings, up to the first rejection. -/
def admitBuckets (settings : AuthLimitSettings) (digest : String → String) :
    List ((String × ℕ) × ClockReadings) → AuthRateLimits → AuthRateLimits × ℤ
  | [], rows => (rows, 0)
  | ((identity, limit), now) :: buckets, rows =>
    let key := digest identity
    let row := upsertRateLimit settings (rows key) now
    let rows := Function.update rows key (some row)
    if limit < row.count then (rows, bucketRetryAfter settings limit row now)
    else admitBuckets settings digest buckets rows

/-- `reset_at < now - timedelta(hours=1)`, for a stored row. -/
def longExpired (row : Option AuthRateLimit) (now : Instant) : Bool :=
  match row with
  | none => false
  | some row => row.resetAt < now - seconds 3600

/-- The clean-up of the keys that the statement has selected: the first hundred unlocked ones at
most. -/
def cleanRateLimits (selected : List String) (now : Instant) (rows : AuthRateLimits) :
    AuthRateLimits :=
  fun key => if key ∈ selected ∧ longExpired (rows key) now then none else rows key

/-- What one request meets: its bucket readings and what its clean-up selects and when. -/
structure AdmissionClock where
  ip : ClockReadings
  account : ClockReadings
  selected : List String
  cleanUp : Instant

def authBuckets (settings : AuthLimitSettings) (casefold : String → String) (ip : Option String)
    (username : String) : List (String × ℕ) :=
  let ip := ip.getD "unknown"
  [("ip:" ++ ip, settings.rateIpLimit),
    ("account:" ++ ip ++ ":" ++ casefold username, settings.rateAccountLimit)]

/-- `admit_auth_request`: the table it commits, and the `Retry-After` of a 429 answer. -/
def admitAuthRequest (settings : AuthLimitSettings) (digest casefold : String → String)
    (rows : AuthRateLimits) (ip : Option String) (username : String) (clock : AdmissionClock) :
    AuthRateLimits × Option ℤ :=
  let buckets := (authBuckets settings casefold ip username).zip [clock.ip, clock.account]
  let (rows, retryAfter) := admitBuckets settings digest buckets rows
  (cleanRateLimits clock.selected clock.cleanUp rows,
    if retryAfter ≠ 0 then some (max retryAfter 1) else none)

end AgentDemo
