import AgentDemo.Library.Table
import AgentDemo.Values
import Mathlib.Data.List.Sort

/-! Sessions of users: what the statements of sign-in, sign-out and authentication select and
write. -/
namespace AgentDemo

/-- The settings of sessions, within the bounds of the configuration. -/
structure AuthSettings where
  sessionTtlSeconds : ℤ
  sessionIdleSeconds : ℤ
  maxSessions : ℕ
  ttl_ge : 60 ≤ sessionTtlSeconds
  maxSessions_pos : 1 ≤ maxSessions

/-- A row of `user_sessions` of one user. -/
structure UserSession where
  id : UUID
  createdAt : Instant
  tokenHash : String
  expiresAt : Instant
  lastSeenAt : Instant
  revokedAt : Option Instant

instance : Keyed UserSession UUID := ⟨UserSession.id⟩

namespace UserSession

/-- Neither revoked nor expired. -/
def active (now : Instant) (row : UserSession) : Bool :=
  row.revokedAt.isNone && decide (now < row.expiresAt)

/-- `order_by(created_at.desc(), id.desc())`. -/
def newestFirst (row row' : UserSession) : Prop :=
  row'.createdAt < row.createdAt ∨ (row.createdAt = row'.createdAt ∧ row'.id ≤ row.id)

instance (row row' : UserSession) : Decidable (newestFirst row row') :=
  inferInstanceAs (Decidable (_ ∨ _))

/-- `UPDATE … SET revoked_at` of the rows with these keys. -/
def revoke (ids : List UUID) (now : Instant) (row : UserSession) : UserSession :=
  if row.id ∈ ids then { row with revokedAt := some now } else row

/-- `UPDATE … SET last_seen_at` of the rows with these keys. -/
def see (ids : List UUID) (now : Instant) (row : UserSession) : UserSession :=
  if row.id ∈ ids then { row with lastSeenAt := now } else row

@[simp] theorem key_revoke (ids : List UUID) (now : Instant) (row : UserSession) :
    Keyed.key (row.revoke ids now) = Keyed.key row := by
  unfold revoke
  split_ifs <;> rfl

@[simp] theorem key_see (ids : List UUID) (now : Instant) (row : UserSession) :
    Keyed.key (row.see ids now) = Keyed.key row := by
  unfold see
  split_ifs <;> rfl

end UserSession

/-- `active_ids` of `create_user_session`. -/
def activeIds (sessions : Table UserSession) (now : Instant) : List UUID :=
  ((sessions.rows.filter (UserSession.active now)).insertionSort UserSession.newestFirst).map
    UserSession.id

def displacedIds (settings : AuthSettings) (active : List UUID) : List UUID :=
  if settings.maxSessions ≤ active.length then active.drop (settings.maxSessions - 1) else []

/-- The rows that `create_user_session` deletes. -/
def purgedIds (sessions : Table UserSession) (now : Instant) : List UUID :=
  (sessions.rows.filter fun row => row.expiresAt < now - seconds (30 * 86400)).map UserSession.id

/-- The row that `create_user_session` adds. -/
def issuedSession (settings : AuthSettings) (id : UUID) (createdAt : Instant) (tokenHash : String)
    (now : Instant) : UserSession where
  id
  createdAt
  tokenHash
  expiresAt := now + seconds settings.sessionTtlSeconds
  lastSeenAt := now
  revokedAt := none

/-- The rows that the statement of `logout` revokes. -/
def logoutIds (sessions : Table UserSession) (tokenHash : String) : List UUID :=
  (sessions.rows.filter fun row => row.tokenHash = tokenHash ∧ row.revokedAt = none).map
    UserSession.id

/-- The rows that the statement of `logout_all` revokes. -/
def logoutAllIds (sessions : Table UserSession) : List UUID :=
  (sessions.rows.filter fun row => row.revokedAt = none).map UserSession.id

/-- The row that `get_current_user` selects. -/
def currentSession (settings : AuthSettings) (sessions : Table UserSession) (tokenHash : String)
    (now : Instant) : Option UserSession :=
  sessions.rows.find? fun row => row.tokenHash = tokenHash ∧ row.revokedAt = none ∧
    now < row.expiresAt ∧ now - seconds settings.sessionIdleSeconds < row.lastSeenAt

/-- The rows that the activity update of `get_current_user` writes. -/
def seenIds (sessions : Table UserSession) (id : UUID) : List UUID :=
  (sessions.rows.filter fun row => row.id = id ∧ row.revokedAt = none).map UserSession.id

/-- At most `maxSessions - 1` of the active sessions are not displaced. -/
theorem exists_kept (settings : AuthSettings) (active : List UUID) :
    ∃ kept : List UUID, kept.length < settings.maxSessions ∧
      ∀ id ∈ active, id ∈ displacedIds settings active ∨ id ∈ kept := by
  have hpos := settings.maxSessions_pos
  refine ⟨active.take (settings.maxSessions - 1), ?_, ?_⟩
  · rw [List.length_take]
    omega
  · intro id hid
    unfold displacedIds
    split_ifs with hfull
    · rw [← List.take_append_drop (settings.maxSessions - 1) active, List.mem_append] at hid
      exact hid.symm
    · right
      rwa [List.take_of_length_le (by omega)]

theorem mem_activeIds {sessions : Table UserSession} {now : Instant} {row : UserSession}
    (hrow : row ∈ sessions.rows) (hactive : row.active now = true) :
    row.id ∈ activeIds sessions now := by
  unfold activeIds
  apply List.mem_map_of_mem
  rw [List.mem_insertionSort]
  exact List.mem_filter.mpr ⟨hrow, hactive⟩

end AgentDemo
