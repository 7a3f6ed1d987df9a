import AgentDemo.Api.Auth
import AgentDemo.Library.Locks
import AgentDemo.Library.Transition

/-! The sessions of one user under sign-ins, registration, sign-outs and activity, statement by
statement. A write takes effect when it is committed; until then its transaction holds the locks of
the rows. -/
namespace AgentDemo

/-- A transaction with the statements it has behind it and the writes that are not yet committed. -/
inductive AuthTransaction where
  | locked
  | timed (now : Instant)
  | selected (now : Instant) (active : List UUID)
  | revoking (now : Instant) (revoked : List UUID)
  | purging (now : Instant) (revoked purged : List UUID)
  | loggingOut (ids : List UUID) (now : Instant)
  | stale (id : UUID) (now : Instant)
  | seeing (ids : List UUID) (now : Instant)
  | authenticated
  | lockedAll (present : List UUID)
  | revokingAll (present ids : List UUID) (now : Instant)
  | ended

namespace AuthTransaction

def holdsUser : AuthTransaction → Bool
  | .locked | .timed _ | .selected _ _ | .revoking _ _ | .purging _ _ _ => true
  | .lockedAll _ | .revokingAll _ _ _ => true
  | _ => false

/-- The sessions whose rows the transaction has locked. -/
def written : AuthTransaction → List UUID
  | .revoking _ revoked => revoked
  | .purging _ revoked purged => revoked ++ purged
  | .loggingOut ids _ | .seeing ids _ | .revokingAll _ ids _ => ids
  | _ => []

end AuthTransaction

/-- The last two fields are the history: the keys of all sessions there have been, and the sessions
that were there when a committed logout of all sessions got the lock of the user. -/
structure AuthWorld where
  clock : Instant
  registered : Bool
  sessions : Table UserSession
  transactions : List AuthTransaction
  used : List UUID
  loggedOut : List UUID

inductive AuthEvent where
  | tick (now : Instant)
  | register
  | login
  | readClock (i : ℕ)
  | select (i : ℕ)
  | revoke (i : ℕ)
  | purge (i : ℕ)
  | issue (i : ℕ) (id : UUID) (createdAt : Instant) (tokenHash : String)
  | logout (tokenHash : String)
  | commitLogout (i : ℕ)
  | authenticate (tokenHash : String) (now : Instant)
  | see (i : ℕ)
  | commitSeen (i : ℕ)
  | lockAll (i : ℕ)
  | revokeAll (i : ℕ)
  | commitAll (i : ℕ)
  | abort (i : ℕ)

namespace AuthWorld

def Unlocked (w : AuthWorld) : Prop := ∀ t ∈ w.transactions, t.holdsUser = false

/-- No other transaction holds the lock of one of these sessions. -/
def RowsFree (w : AuthWorld) (i : ℕ) (ids : List UUID) : Prop :=
  ∀ j t, j ≠ i → w.transactions[j]? = some t → ∀ id ∈ ids, id ∉ t.written

def move (w : AuthWorld) (i : ℕ) (t : AuthTransaction) : AuthWorld :=
  { w with transactions := w.transactions.set i t }

def start (w : AuthWorld) (t : AuthTransaction) : AuthWorld :=
  { w with transactions := w.transactions ++ [t] }

def revokeRows (w : AuthWorld) (ids : List UUID) (now : Instant) : Table UserSession :=
  w.sessions.update (UserSession.revoke ids now) (UserSession.key_revoke ids now)

def seeRows (w : AuthWorld) (ids : List UUID) (now : Instant) : Table UserSession :=
  w.sessions.update (UserSession.see ids now) (UserSession.key_see ids now)

/-- The sessions that can be used now, but for inactivity. -/
def activeSessions (w : AuthWorld) : List UserSession :=
  w.sessions.rows.filter (UserSession.active w.clock)

/-- What one statement can do. A transaction that waits for a lock takes no step. -/
inductive Step (settings : AuthSettings) (w : AuthWorld) : AuthEvent → AuthWorld → Prop where
  | tick {now : Instant} (h : w.clock ≤ now) : Step settings w (.tick now) { w with clock := now }
  | register (hnew : w.registered = false) (h : w.Unlocked) :
      Step settings w .register (w.start .locked)
  | login (hold : w.registered = true) (h : w.Unlocked) :
      Step settings w .login (w.start .locked)
  | readClock {i : ℕ} (hi : w.transactions[i]? = some .locked) :
      Step settings w (.readClock i) (w.move i (.timed w.clock))
  | select {i : ℕ} {now : Instant} (hi : w.transactions[i]? = some (.timed now)) :
      Step settings w (.select i) (w.move i (.selected now (activeIds w.sessions now)))
  | revoke {i : ℕ} {now : Instant} {active : List UUID}
      (hi : w.transactions[i]? = some (.selected now active))
      (hfree : w.RowsFree i (displacedIds settings active)) :
      Step settings w (.revoke i) (w.move i (.revoking now (displacedIds settings active)))
  | purge {i : ℕ} {now : Instant} {revoked : List UUID}
      (hi : w.transactions[i]? = some (.revoking now revoked))
      (hfree : w.RowsFree i (purgedIds w.sessions now)) :
      Step settings w (.purge i) (w.move i (.purging now revoked (purgedIds w.sessions now)))
  | issue {i : ℕ} {now createdAt : Instant} {revoked purged : List UUID} {id : UUID}
      {tokenHash : String} {sessions : Table UserSession}
      (hi : w.transactions[i]? = some (.purging now revoked purged)) (hfresh : id ∉ w.used)
      (hinsert : ((w.revokeRows revoked now).filter fun row => row.id ∉ purged).insert?
        (issuedSession settings id createdAt tokenHash now) = some sessions) :
      Step settings w (.issue i id createdAt tokenHash)
        { w.move i .ended with registered := true, sessions, used := id :: w.used }
  | logout {tokenHash : String} {now : Instant} (hnow : now ≤ w.clock)
      (hfree : w.RowsFree w.transactions.length (logoutIds w.sessions tokenHash)) :
      Step settings w (.logout tokenHash)
        (w.start (.loggingOut (logoutIds w.sessions tokenHash) now))
  | commitLogout {i : ℕ} {ids : List UUID} {now : Instant}
      (hi : w.transactions[i]? = some (.loggingOut ids now)) :
      Step settings w (.commitLogout i) { w.move i .ended with sessions := w.revokeRows ids now }
  | authenticate {tokenHash : String} {now : Instant} {row : UserSession} (hnow : now ≤ w.clock)
      (hrow : currentSession settings w.sessions tokenHash now = some row) :
      Step settings w (.authenticate tokenHash now)
        (w.start (if row.lastSeenAt < now - seconds 60 then .stale row.id now else .authenticated))
  | see {i : ℕ} {id : UUID} {now : Instant} (hi : w.transactions[i]? = some (.stale id now))
      (hfree : w.RowsFree i (seenIds w.sessions id)) :
      Step settings w (.see i) (w.move i (.seeing (seenIds w.sessions id) now))
  | commitSeen {i : ℕ} {ids : List UUID} {now : Instant}
      (hi : w.transactions[i]? = some (.seeing ids now)) :
      Step settings w (.commitSeen i)
        { w.move i .authenticated with sessions := w.seeRows ids now }
  | lockAll {i : ℕ} (hi : w.transactions[i]? = some .authenticated) (h : w.Unlocked) :
      Step settings w (.lockAll i)
        (w.move i (.lockedAll (w.sessions.rows.map UserSession.id)))
  | revokeAll {i : ℕ} {present : List UUID} {now : Instant} (hnow : now ≤ w.clock)
      (hi : w.transactions[i]? = some (.lockedAll present))
      (hfree : w.RowsFree i (logoutAllIds w.sessions)) :
      Step settings w (.revokeAll i) (w.move i (.revokingAll present (logoutAllIds w.sessions) now))
  | commitAll {i : ℕ} {present ids : List UUID} {now : Instant}
      (hi : w.transactions[i]? = some (.revokingAll present ids now)) :
      Step settings w (.commitAll i)
        { w.move i .ended with
          sessions := w.revokeRows ids now
          loggedOut := w.loggedOut ++ present }
  | abort {i : ℕ} {t : AuthTransaction} (hi : w.transactions[i]? = some t) :
      Step settings w (.abort i) (w.move i .ended)

/-- Nobody has registered yet. -/
def init (clock : Instant) : AuthWorld := ⟨clock, false, .empty, [], [], []⟩

end AuthWorld

theorem AuthWorld.mem_revokeRows {w : AuthWorld} {ids : List UUID} {now : Instant}
    {row' : UserSession} : row' ∈ (w.revokeRows ids now).rows ↔
      ∃ row ∈ w.sessions.rows, row.revoke ids now = row' := Table.mem_update

/-- Every row comes from one that had not been revoked, unless it is revoked. -/
def Weakens (before after : Table UserSession) : Prop :=
  ∀ row' ∈ after.rows, ∃ row ∈ before.rows, row.id = row'.id ∧ row.expiresAt = row'.expiresAt ∧
    (row.revokedAt.isSome → row'.revokedAt.isSome)

namespace Weakens

theorem refl (sessions : Table UserSession) : Weakens sessions sessions :=
  fun row hrow => ⟨row, hrow, rfl, rfl, id⟩

theorem revokeRows (w : AuthWorld) (ids : List UUID) (now : Instant) :
    Weakens w.sessions (w.revokeRows ids now) := by
  intro row' hrow'
  obtain ⟨row, hrow, rfl⟩ := AuthWorld.mem_revokeRows.mp hrow'
  refine ⟨row, hrow, ?_⟩
  unfold UserSession.revoke
  split_ifs <;> simp

theorem seeRows (w : AuthWorld) (ids : List UUID) (now : Instant) :
    Weakens w.sessions (w.seeRows ids now) := by
  intro row' hrow'
  obtain ⟨row, hrow, rfl⟩ := Table.mem_update.mp hrow'
  refine ⟨row, hrow, ?_⟩
  unfold UserSession.see
  split_ifs <;> simp

/-- What is active later was active before. -/
theorem active {before after : Table UserSession} (h : Weakens before after) {now now' : Instant}
    (hnow : now ≤ now') {row' : UserSession} (hrow' : row' ∈ after.rows)
    (hactive : row'.active now' = true) :
    ∃ row ∈ before.rows, row.id = row'.id ∧ row.active now = true := by
  obtain ⟨row, hrow, hid, hexpires, hrevoked⟩ := h row' hrow'
  refine ⟨row, hrow, hid, ?_⟩
  simp only [UserSession.active, Bool.and_eq_true, Option.isNone_iff_eq_none, decide_eq_true_eq]
    at hactive ⊢
  constructor
  · by_contra hsome
    have hsome' := hrevoked (Option.isSome_iff_ne_none.mpr hsome)
    simp [hactive.1] at hsome'
  · rw [hexpires]
    exact lt_of_le_of_lt hnow hactive.2

end Weakens

/-- What a transaction that holds the lock of the user knows of the table. -/
def TransactionOk (settings : AuthSettings) (clock : Instant) (sessions : Table UserSession)
    (used : List UUID) : AuthTransaction → Prop
  | .timed now => now ≤ clock
  | .selected now active => now ≤ clock ∧
      ∀ row ∈ sessions.rows, row.active now = true → row.id ∈ active
  | .revoking now revoked | .purging now revoked _ => now ≤ clock ∧
      ∃ kept : List UUID, kept.length < settings.maxSessions ∧
        ∀ row ∈ sessions.rows, row.active now = true → row.id ∈ revoked ∨ row.id ∈ kept
  | .lockedAll present => present ⊆ used
  | .revokingAll present ids _ => present ⊆ used ∧
      ∀ row ∈ sessions.rows, row.revokedAt.isSome ∨ row.id ∈ ids
  | _ => True

theorem transactionOk_of_not_holds {settings : AuthSettings} {clock : Instant}
    {sessions : Table UserSession} {used : List UUID} {t : AuthTransaction}
    (h : ¬ t.holdsUser = true) : TransactionOk settings clock sessions used t := by
  cases t with
  | locked | loggingOut | stale | seeing | authenticated | ended => trivial
  | timed | selected | revoking | purging | lockedAll | revokingAll =>
    simp [AuthTransaction.holdsUser] at h

theorem TransactionOk.mono {settings : AuthSettings} {clock clock' : Instant}
    {sessions sessions' : Table UserSession} {used : List UUID} {t : AuthTransaction}
    (h : TransactionOk settings clock sessions used t) (hclock : clock ≤ clock')
    (hweakens : Weakens sessions sessions') : TransactionOk settings clock' sessions' used t := by
  cases t with
  | timed now => exact h.trans hclock
  | selected now active =>
    refine ⟨h.1.trans hclock, fun row' hrow' hactive => ?_⟩
    obtain ⟨row, hrow, hid, hactive⟩ := hweakens.active le_rfl hrow' hactive
    exact hid ▸ h.2 row hrow hactive
  | revoking now revoked | purging now revoked _ =>
    obtain ⟨hnow, kept, hkept, hcover⟩ := h
    refine ⟨hnow.trans hclock, kept, hkept, fun row' hrow' hactive => ?_⟩
    obtain ⟨row, hrow, hid, hactive⟩ := hweakens.active le_rfl hrow' hactive
    exact hid ▸ hcover row hrow hactive
  | revokingAll present ids now =>
    refine ⟨h.1, fun row' hrow' => ?_⟩
    obtain ⟨row, hrow, hid, _, hrevoked⟩ := hweakens row' hrow'
    exact (h.2 row hrow).imp hrevoked fun hmem => hid ▸ hmem
  | _ => exact h

namespace AuthWorld

/-- The cap and the history, with what the transactions know. -/
structure Ok (settings : AuthSettings) (w : AuthWorld) : Prop where
  lock : Exclusive (fun t => t.holdsUser = true) w.transactions
  transactions : ∀ t ∈ w.transactions, TransactionOk settings w.clock w.sessions w.used t
  capped : w.activeSessions.length ≤ settings.maxSessions
  present : ∀ row ∈ w.sessions.rows, row.id ∈ w.used
  loggedOutUsed : w.loggedOut ⊆ w.used
  revoked : ∀ row ∈ w.sessions.rows, row.id ∈ w.loggedOut → row.revokedAt.isSome

namespace Ok

variable {settings : AuthSettings} {w w' : AuthWorld} {i : ℕ} {s t : AuthTransaction}

theorem transaction (h : w.Ok settings) (hi : w.transactions[i]? = some t) :
    TransactionOk settings w.clock w.sessions w.used t :=
  h.transactions t (List.mem_of_getElem? hi)

/-- Fewer sessions are active later, as long as none is added. -/
theorem capped_of_weakens (h : w.Ok settings) {clock : Instant} {sessions : Table UserSession}
    (hclock : w.clock ≤ clock) (hweakens : Weakens w.sessions sessions) :
    (sessions.rows.filter (UserSession.active clock)).length ≤ settings.maxSessions := by
  have hle : (sessions.rows.filter (UserSession.active clock)).length ≤
      (w.activeSessions.map UserSession.id).length := by
    apply Table.length_filter_le
    intro row' hrow' hactive
    obtain ⟨row, hrow, hid, hactive⟩ := hweakens.active hclock hrow' hactive
    exact List.mem_map.mpr ⟨row, List.mem_filter.mpr ⟨hrow, hactive⟩, hid⟩
  rw [List.length_map] at hle
  exact hle.trans h.capped

/-- A step that adds no session and gives the lock to nobody else. -/
theorem of_weakens (h : w.Ok settings) {clock : Instant} {sessions : Table UserSession}
    {transactions : List AuthTransaction} (hclock : w.clock ≤ clock)
    (hweakens : Weakens w.sessions sessions)
    (hlock : Exclusive (fun t => t.holdsUser = true) transactions)
    (htransactions : ∀ t ∈ transactions, t ∈ w.transactions ∨
      TransactionOk settings clock sessions w.used t) :
    Ok settings { w with clock, sessions, transactions } where
  lock := hlock
  transactions t ht := by
    rcases htransactions t ht with hmem | hok
    · exact (h.transactions t hmem).mono hclock hweakens
    · exact hok
  capped := h.capped_of_weakens hclock hweakens
  present row' hrow' := by
    obtain ⟨row, hrow, hid, _⟩ := hweakens row' hrow'
    exact hid ▸ h.present row hrow
  loggedOutUsed := h.loggedOutUsed
  revoked row' hrow' hmem := by
    obtain ⟨row, hrow, hid, _, hrevoked⟩ := hweakens row' hrow'
    exact hrevoked (h.revoked row hrow (hid ▸ hmem))

/-- A transaction goes on, with the lock only if it had it. -/
theorem move (h : w.Ok settings) {sessions : Table UserSession}
    (hi : w.transactions[i]? = some s) (hholds : t.holdsUser = true → s.holdsUser = true)
    (hweakens : Weakens w.sessions sessions)
    (hok : TransactionOk settings w.clock sessions w.used t) :
    Ok settings { w.move i t with sessions } := by
  apply h.of_weakens le_rfl hweakens (h.lock.set hi hholds)
  intro u hu
  rcases mem_set_cases hu with rfl | ⟨j, _, hj⟩
  · exact Or.inr hok
  · exact Or.inl (List.mem_of_getElem? hj)

/-- A transaction begins without the lock. -/
theorem start (h : w.Ok settings) (hholds : ¬ t.holdsUser = true) :
    (w.start t).Ok settings := by
  apply h.of_weakens le_rfl (.refl _) (h.lock.append hholds)
  intro u hu
  rcases List.mem_append.mp hu with hmem | hmem
  · exact Or.inl hmem
  · rw [List.mem_singleton.mp hmem]
    exact Or.inr (transactionOk_of_not_holds hholds)

/-- A transaction begins with the lock, which is free. -/
theorem startLocked (h : w.Ok settings) (hfree : w.Unlocked) : (w.start .locked).Ok settings := by
  have hnone : ∀ u ∈ w.transactions, ¬ u.holdsUser = true := by
    intro u hu
    simp [hfree u hu]
  apply h.of_weakens le_rfl (.refl _) (Exclusive.append_free hnone)
  intro u hu
  rcases List.mem_append.mp hu with hmem | hmem
  · exact Or.inl hmem
  · rw [List.mem_singleton.mp hmem]
    exact Or.inr trivial

/-- The row of the user is locked by a request that has been authenticated. -/
theorem lockAll (h : w.Ok settings) (hfree : w.Unlocked) :
    (w.move i (.lockedAll (w.sessions.rows.map UserSession.id))).Ok settings := by
  have hnone : ∀ u ∈ w.transactions, ¬ u.holdsUser = true := by
    intro u hu
    simp [hfree u hu]
  apply h.of_weakens le_rfl (.refl _) (Exclusive.set_free hnone)
  intro u hu
  rcases mem_set_cases hu with rfl | ⟨j, _, hj⟩
  · right
    intro id hid
    obtain ⟨row, hrow, rfl⟩ := List.mem_map.mp hid
    exact h.present row hrow
  · exact Or.inl (List.mem_of_getElem? hj)

/-- The others do not have the lock when its holder commits. -/
theorem others_ok (h : w.Ok settings) (hi : w.transactions[i]? = some s)
    (hholds : s.holdsUser = true) {clock : Instant} {sessions : Table UserSession}
    {used : List UUID} : ∀ t ∈ w.transactions.set i .ended,
      TransactionOk settings clock sessions used t := by
  intro t ht
  rcases mem_set_cases ht with rfl | ⟨j, hne, hj⟩
  · trivial
  · exact transactionOk_of_not_holds (h.lock.others hi hholds hj hne)

/-- The new session takes the place that the displaced ones have left. -/
theorem issue (h : w.Ok settings) {now createdAt : Instant} {revoked purged : List UUID}
    {id : UUID} {tokenHash : String} {sessions : Table UserSession}
    (hi : w.transactions[i]? = some (.purging now revoked purged)) (hfresh : id ∉ w.used)
    (hinsert : ((w.revokeRows revoked now).filter fun row => row.id ∉ purged).insert?
      (issuedSession settings id createdAt tokenHash now) = some sessions) :
    Ok settings { w.move i .ended with registered := true, sessions, used := id :: w.used } := by
  obtain ⟨hnow, kept, hkept, hcover⟩ := h.transaction hi
  have hrows := Table.rows_insert? hinsert
  have hold : ∀ row' ∈ ((w.revokeRows revoked now).filter fun row => row.id ∉ purged).rows,
      ∃ row ∈ w.sessions.rows, row.revoke revoked now = row' := by
    intro row' hrow'
    exact mem_revokeRows.mp (Table.mem_filter.mp hrow').1
  have hid : ∀ row : UserSession, (row.revoke revoked now).id = row.id :=
    UserSession.key_revoke revoked now
  constructor
  · exact h.lock.set hi fun hended => by cases hended
  · exact h.others_ok hi rfl
  · have hlength : (((w.revokeRows revoked now).filter fun row => row.id ∉ purged).rows.filter
        (UserSession.active w.clock)).length ≤ kept.length := by
      apply Table.length_filter_le
      intro row' hrow' hactive
      obtain ⟨row, hrow, rfl⟩ := hold row' hrow'
      by_cases hmem : row.id ∈ revoked
      · simp [UserSession.active, UserSession.revoke, hmem] at hactive
      · have heq : row.revoke revoked now = row := if_neg hmem
        rw [heq] at hactive ⊢
        obtain ⟨row₀, hrow₀, hid₀, hactive₀⟩ := (Weakens.refl w.sessions).active hnow hrow hactive
        rcases hcover row₀ hrow₀ hactive₀ with hdisplaced | hkept
        · exact absurd (hid₀ ▸ hdisplaced) hmem
        · exact (show row.id ∈ kept from hid₀ ▸ hkept)
    have hone : ([issuedSession settings id createdAt tokenHash now].filter
        (UserSession.active w.clock)).length ≤ 1 := List.length_filter_le _ _
    simp only [activeSessions, hrows, List.filter_append, List.length_append] at hlength ⊢
    exact (Nat.add_le_add hlength hone).trans hkept
  · intro row' hrow'
    rw [hrows, List.mem_append, List.mem_singleton] at hrow'
    rcases hrow' with hrow' | rfl
    · obtain ⟨row, hrow, rfl⟩ := hold row' hrow'
      rw [hid]
      exact List.mem_cons_of_mem _ (h.present row hrow)
    · exact List.mem_cons_self
  · exact fun id' hmem => List.mem_cons_of_mem _ (h.loggedOutUsed hmem)
  · intro row' hrow' hmem
    rw [hrows, List.mem_append, List.mem_singleton] at hrow'
    rcases hrow' with hrow' | rfl
    · obtain ⟨row, hrow, rfl⟩ := hold row' hrow'
      rw [hid] at hmem
      have hrevoked := h.revoked row hrow hmem
      unfold UserSession.revoke
      split_ifs
      · rfl
      · exact hrevoked
    · exact absurd (h.loggedOutUsed hmem) hfresh

/-- Every session of the table is revoked once a logout of all sessions commits. -/
theorem commitAll (h : w.Ok settings) {present ids : List UUID} {now : Instant}
    (hi : w.transactions[i]? = some (.revokingAll present ids now)) :
    Ok settings { w.move i .ended with
      sessions := w.revokeRows ids now, loggedOut := w.loggedOut ++ present } := by
  obtain ⟨hpresent, hids⟩ := h.transaction hi
  have hmove : Ok settings { w.move i .ended with sessions := w.revokeRows ids now } :=
    h.move hi (fun hended => by cases hended) (.revokeRows w ids now) trivial
  constructor
  · exact hmove.lock
  · exact hmove.transactions
  · exact hmove.capped
  · exact hmove.present
  · exact List.append_subset.mpr ⟨h.loggedOutUsed, hpresent⟩
  · intro row' hrow' _
    obtain ⟨row, hrow, rfl⟩ := mem_revokeRows.mp hrow'
    unfold UserSession.revoke
    split_ifs with hmem
    · rfl
    · exact (hids row hrow).resolve_right hmem

theorem step {e : AuthEvent} (h : w.Ok settings) (hstep : Step settings w e w') :
    w'.Ok settings := by
  cases hstep with
  | tick hclock => exact h.of_weakens hclock (.refl _) h.lock fun t ht => Or.inl ht
  | register _ hfree | login _ hfree => exact h.startLocked hfree
  | readClock hi => exact h.move hi (fun _ => rfl) (.refl _) le_rfl
  | @select i now hi =>
    have hok : now ≤ w.clock := h.transaction hi
    exact h.move hi (fun _ => rfl) (.refl _) ⟨hok, fun row hrow => mem_activeIds hrow⟩
  | @revoke i now active hi =>
    obtain ⟨hnow, hactive⟩ := h.transaction hi
    obtain ⟨kept, hkept, hcover⟩ := exists_kept settings active
    exact h.move hi (fun _ => rfl) (.refl _)
      ⟨hnow, kept, hkept, fun row hrow hrowActive => hcover row.id (hactive row hrow hrowActive)⟩
  | @purge i now revoked hi =>
    have hok : TransactionOk settings w.clock w.sessions w.used (.revoking now revoked) :=
      h.transaction hi
    exact h.move hi (fun _ => rfl) (.refl _) hok
  | issue hi hfresh hinsert => exact h.issue hi hfresh hinsert
  | logout => exact h.start (by simp [AuthTransaction.holdsUser])
  | @commitLogout i ids now hi =>
    exact h.move hi (fun hended => by cases hended) (.revokeRows w ids now) trivial
  | authenticate =>
    apply h.start
    split_ifs <;> simp [AuthTransaction.holdsUser]
  | see hi => exact h.move hi (fun hseeing => by cases hseeing) (.refl _) trivial
  | @commitSeen i ids now hi =>
    exact h.move hi (fun hdone => by cases hdone) (.seeRows w ids now) trivial
  | lockAll hi hfree => exact h.lockAll hfree
  | @revokeAll i present now _ hi =>
    refine h.move hi (fun _ => rfl) (.refl _) ⟨h.transaction hi, fun row hrow => ?_⟩
    cases hrevoked : row.revokedAt with
    | some at' => exact Or.inl rfl
    | none =>
      right
      exact List.mem_map_of_mem (List.mem_filter.mpr ⟨hrow, by simpa using hrevoked⟩)
  | commitAll hi => exact h.commitAll hi
  | abort hi => exact h.move hi (fun hended => by cases hended) (.refl _) trivial

theorem init (settings : AuthSettings) (clock : Instant) : (AuthWorld.init clock).Ok settings where
  lock := Exclusive.nil _
  transactions t ht := by cases ht
  capped := Nat.zero_le _
  present row hrow := by cases hrow
  loggedOutUsed := List.nil_subset _
  revoked row hrow := by cases hrow

end Ok

theorem reaches_ok {settings : AuthSettings} {clock : Instant} {w : AuthWorld}
    (h : Transition.Reaches (Step settings) (init clock) w) : w.Ok settings :=
  h.invariant (Ok.init settings clock) fun _ _ _ hok hstep => hok.step hstep

/-- No step forgets a logout of all sessions. -/
theorem loggedOut_mono {settings : AuthSettings} {w w' : AuthWorld}
    (h : Transition.Reaches (Step settings) w w') : w.loggedOut ⊆ w'.loggedOut := by
  apply h.invariant (I := fun v => w.loggedOut ⊆ v.loggedOut) (List.Subset.refl _)
  intro u e v hu hstep
  cases hstep with
  | commitAll => exact fun id hmem => List.mem_append_left _ (hu hmem)
  | _ => exact hu

/-- The transaction has locked the user for a logout of the sessions `present`, or has ended. -/
def LogsOut (i : ℕ) (present : List UUID) (w : AuthWorld) : Prop :=
  w.transactions[i]? = some (.lockedAll present) ∨
    (∃ ids now, w.transactions[i]? = some (.revokingAll present ids now)) ∨
    w.transactions[i]? = some .ended

namespace LogsOut

variable {i j : ℕ} {present : List UUID} {w w' : AuthWorld} {s t : AuthTransaction}

theorem lt (h : LogsOut i present w) : i < w.transactions.length := by
  rcases h with h | ⟨_, _, h⟩ | h <;> exact (List.getElem?_eq_some_iff.mp h).1

theorem set_of_ne (h : LogsOut i present w) (hne : j ≠ i)
    (hw : w'.transactions = w.transactions.set j t) : LogsOut i present w' := by
  have hget : w'.transactions[i]? = w.transactions[i]? := by
    rw [hw, List.getElem?_set_ne hne]
  unfold LogsOut
  rwa [hget]

theorem append (h : LogsOut i present w) (hw : w'.transactions = w.transactions ++ [t]) :
    LogsOut i present w' := by
  have hget : w'.transactions[i]? = w.transactions[i]? := by
    rw [hw, List.getElem?_append_left h.lt]
  unfold LogsOut
  rwa [hget]

theorem ended (h : LogsOut i present w) (hw : w'.transactions = w.transactions.set j .ended) :
    LogsOut i present w' := by
  by_cases hij : j = i
  · subst hij
    right; right
    rw [hw, List.getElem?_set_self h.lt]
  · exact h.set_of_ne hij hw

/-- Another transaction goes on. -/
theorem other (h : LogsOut i present w) (hj : w.transactions[j]? = some s)
    (hs : ∀ q ids now, s ≠ .lockedAll q ∧ s ≠ .revokingAll q ids now ∧ s ≠ .ended)
    (hw : w'.transactions = w.transactions.set j t) : LogsOut i present w' := by
  apply h.set_of_ne _ hw
  rintro rfl
  rcases h with h | ⟨ids, now, h⟩ | h <;> rw [hj] at h
  · exact (hs present [] 0).1 (Option.some.inj h)
  · exact (hs present ids now).2.1 (Option.some.inj h)
  · exact (hs present [] 0).2.2 (Option.some.inj h)

theorem step {settings : AuthSettings} {e : AuthEvent} (h : LogsOut i present w)
    (hstep : Step settings w e w') : LogsOut i present w' := by
  cases hstep with
  | tick => exact h
  | register | login | logout | authenticate => exact h.append rfl
  | readClock hi | select hi | revoke hi | purge hi | see hi | commitSeen hi | lockAll hi =>
    exact h.other hi (by simp) rfl
  | issue | commitLogout | commitAll | abort => exact h.ended rfl
  | @revokeAll j present' now _ hj =>
    by_cases hij : j = i
    · subst hij
      have hpresent : present' = present := by
        rcases h with h | ⟨_, _, h⟩ | h <;> rw [hj] at h <;> cases h
        rfl
      right; left
      refine ⟨logoutAllIds w.sessions, now, ?_⟩
      simp only [move]
      rw [List.getElem?_set_self h.lt, hpresent]
    · exact h.set_of_ne hij rfl

end LogsOut

/-- After every step at most `maxSessions` sessions can be used; a session is not revoked by the
transaction that issues it; and what was there when a logout of all sessions got the lock is revoked
in every state from its commit on. -/
theorem session_cap_and_logout_all (settings : AuthSettings) (clock : Instant) {w : AuthWorld}
    (h : Transition.Reaches (Step settings) (init clock) w) :
    w.activeSessions.length ≤ settings.maxSessions ∧
    (∀ i id createdAt tokenHash w', Step settings w (.issue i id createdAt tokenHash) w' →
      ∃ row ∈ w'.sessions.rows, row.id = id ∧ row.revokedAt = none) ∧
    (∀ i w₁ w₂ w₃ w', Step settings w (.lockAll i) w₁ → Transition.Reaches (Step settings) w₁ w₂ →
      Step settings w₂ (.commitAll i) w₃ → Transition.Reaches (Step settings) w₃ w' →
      ∀ row ∈ w.sessions.rows, ∀ row' ∈ w'.sessions.rows, row'.id = row.id →
        row'.revokedAt.isSome) := by
  refine ⟨(reaches_ok h).capped, ?_, ?_⟩
  · intro i id createdAt tokenHash w' hstep
    cases hstep with
    | @issue _ now _ revoked purged _ _ sessions hi hfresh hinsert =>
      have hrows := Table.rows_insert? hinsert
      have hmem : issuedSession settings id createdAt tokenHash now ∈ sessions.rows := by
        simp [hrows]
      exact ⟨_, hmem, rfl, rfl⟩
  · intro i w₁ w₂ w₃ w' hlock hrun hcommit hlater row hrow row' hrow' hid
    have hw₁ := h.tail hlock
    have hw₃ := (hw₁.trans hrun).tail hcommit
    have hfirst : LogsOut i (w.sessions.rows.map UserSession.id) w₁ := by
      cases hlock with
      | lockAll hi => exact Or.inl (List.getElem?_set_self (List.getElem?_eq_some_iff.mp hi).1)
    have hlast := hrun.invariant hfirst fun _ _ _ hu hstep => hu.step hstep
    have hmem : row.id ∈ w₃.loggedOut := by
      cases hcommit with
      | commitAll hi =>
        apply List.mem_append_right
        rcases hlast with h' | ⟨_, _, h'⟩ | h' <;> rw [hi] at h' <;> cases h'
        exact List.mem_map_of_mem hrow
    exact (reaches_ok (hw₃.trans hlater)).revoked row' hrow' (hid ▸ loggedOut_mono hlater hmem)

/-- One session for each user. -/
def sampleSettings : AuthSettings := ⟨604800, 86400, 1, by norm_num, le_rfl⟩

/-- The user has registered at time 0. -/
def sampleWorld : AuthWorld where
  clock := 0
  registered := true
  sessions := ⟨[issuedSession sampleSettings 1 0 "token" 0], by simp⟩
  transactions := [.ended]
  used := [1]
  loggedOut := []

def registering (t : AuthTransaction) : AuthWorld := ⟨0, false, .empty, [t], [], []⟩

theorem rowsFree_registering (t : AuthTransaction) (ids : List UUID) :
    (registering t).RowsFree 0 ids := by
  intro j u hj hu
  cases j with
  | zero => exact absurd rfl hj
  | succ j => simp [registering] at hu

theorem reaches_sampleWorld : Transition.Reaches (Step sampleSettings) (init 0) sampleWorld := by
  have hregister : Step sampleSettings (init 0) .register (registering .locked) :=
    .register rfl fun t ht => by cases ht
  have hclock : Step sampleSettings (registering .locked) (.readClock 0)
      (registering (.timed 0)) := .readClock rfl
  have hselect : Step sampleSettings (registering (.timed 0)) (.select 0)
      (registering (.selected 0 [])) := .select rfl
  have hrevoke : Step sampleSettings (registering (.selected 0 [])) (.revoke 0)
      (registering (.revoking 0 [])) := .revoke rfl (rowsFree_registering _ _)
  have hpurge : Step sampleSettings (registering (.revoking 0 [])) (.purge 0)
      (registering (.purging 0 [] [])) := .purge rfl (rowsFree_registering _ _)
  have hissue : Step sampleSettings (registering (.purging 0 [] [])) (.issue 0 1 0 "token")
      sampleWorld := .issue rfl (by simp [registering]) rfl
  exact ((((((Transition.Reaches.refl _).tail hregister).tail hclock).tail hselect).tail
    hrevoke).tail hpurge).tail hissue

theorem session_cap_and_logout_all_sample :
    sampleWorld.activeSessions.length ≤ sampleSettings.maxSessions ∧
    (∀ i id createdAt tokenHash w', Step sampleSettings sampleWorld
        (.issue i id createdAt tokenHash) w' →
      ∃ row ∈ w'.sessions.rows, row.id = id ∧ row.revokedAt = none) ∧
    (∀ i w₁ w₂ w₃ w', Step sampleSettings sampleWorld (.lockAll i) w₁ →
      Transition.Reaches (Step sampleSettings) w₁ w₂ →
      Step sampleSettings w₂ (.commitAll i) w₃ →
      Transition.Reaches (Step sampleSettings) w₃ w' →
      ∀ row ∈ sampleWorld.sessions.rows, ∀ row' ∈ w'.sessions.rows, row'.id = row.id →
        row'.revokedAt.isSome) :=
  session_cap_and_logout_all sampleSettings 0 reaches_sampleWorld

end AuthWorld

end AgentDemo
