import AgentDemo.Values

/-! What the backend takes from outside: time zones, the digest of a request, settings. -/
namespace AgentDemo

/-- A `ZoneInfo` as its two conversion maps. Local times are naive, in microseconds; `toUtc`
reads a local time with `fold=0`. -/
structure Zone where
  toLocal : Instant → ℤ
  toUtc : ℤ → Instant

/-- `zoneInfo` is `none` where `ZoneInfo(key)` raises. `digest` is the hexadecimal SHA-256 of
the key-sorted JSON text of an object. -/
structure Environment where
  zoneInfo : String → Option Zone
  digest : JsonObject → String
  agentTaskDefaultMaxAttempts : ℕ

structure HttpException where
  statusCode : ℕ
  detail : String
  deriving DecidableEq, Repr

/-- `database_unavailable`: what `get_session` raises for an exception of the database. -/
def databaseUnavailable : HttpException :=
  ⟨503, "Database is temporarily unavailable. Please retry."⟩

end AgentDemo
