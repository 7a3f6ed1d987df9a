import AgentDemo.System.SessionCap

/-! The life of a session: what the requests that it is accepted for say about its past. -/
namespace AgentDemo

/-- The issue of a session or a request that it was accepted for, by the clock of the request. -/
structure SessionUse where
  id : UUID
  time : Instant

/-- A run of the sessions of a user with what has happened in it, newest first. -/
structure SessionHistory where
  world : AuthWorld
  issued : List SessionUse
  accepted : List SessionUse

namespace SessionHistory

variable {settings : AuthSettings}

def issuedBy (w : AuthWorld) : AuthEvent → List SessionUse
  | .issue i id _ _ =>
    match w.transactions[i]? with
    | some (.purging now _ _) => [⟨id, now⟩]
    | _ => []
  | _ => []

/-- The session that `get_current_user` accepts in an event. -/
def acceptedBy (settings : AuthSettings) (w : AuthWorld) : AuthEvent → List SessionUse
  | .authenticate tokenHash now =>
    ((currentSession settings w.sessions tokenHash now).map fun row => ⟨row.id, now⟩).toList
  | _ => []

structure Step (settings : AuthSettings) (h : SessionHistory) (e : AuthEvent)
    (h' : SessionHistory) : Prop where
  world : AuthWorld.Step settings h.world e h'.world
  issued : h'.issued = issuedBy h.world e ++ h.issued
  accepted : h'.accepted = acceptedBy settings h.world e ++ h.accepted

def init (clock : Instant) : SessionHistory := ⟨.init clock, [], []⟩

/-- Every run of the sessions has a history. -/
theorem exists_later {history : SessionHistory} {w : AuthWorld}
    (h : Transition.Reaches (AuthWorld.Step settings) history.world w) :
    ∃ later, Transition.Reaches (Step settings) history later ∧ later.world = w := by
  induction h with
  | refl => exact ⟨history, .refl _, rfl⟩
  | tail _ hlast ih =>
    obtain ⟨later, hreach, rfl⟩ := ih
    obtain ⟨e, hstep⟩ := hlast
    exact ⟨⟨_, issuedBy later.world e ++ later.issued,
      acceptedBy settings later.world e ++ later.accepted⟩,
      hreach.tail ⟨hstep, rfl, rfl⟩, rfl⟩

theorem reaches_world {history history' : SessionHistory}
    (h : Transition.Reaches (Step settings) history history') :
    Transition.Reaches (AuthWorld.Step settings) history.world history'.world :=
  h.project world fun _ e _ hstep => Or.inr ⟨e, hstep.world⟩

/-! ### What the rows and the transactions say -/

/-- The times of a row are those of its issue and of a use of it. -/
structure RowOk (settings : AuthSettings) (issued accepted : List SessionUse) (row : UserSession) :
    Prop where
  expires : ∃ use ∈ issued, use.id = row.id ∧
    row.expiresAt = use.time + seconds settings.sessionTtlSeconds
  seen : ∃ use ∈ issued ++ accepted, use.id = row.id ∧ row.lastSeenAt = use.time

/-- An activity update writes the time of a request that was accepted. -/
def UpdateOk (accepted : List SessionUse) : AuthTransaction → Prop
  | .stale id now => ⟨id, now⟩ ∈ accepted
  | .seeing ids now => ∀ id ∈ ids, ⟨id, now⟩ ∈ accepted
  | _ => True

structure Ok (settings : AuthSettings) (h : SessionHistory) : Prop where
  rows : ∀ row ∈ h.world.sessions.rows, RowOk settings h.issued h.accepted row
  updates : ∀ t ∈ h.world.transactions, UpdateOk h.accepted t

variable {h h' : SessionHistory} {i : ℕ} {t : AuthTransaction}

theorem RowOk.mono {issued issued' accepted accepted' : List SessionUse} {row : UserSession}
    (h : RowOk settings issued accepted row) (hissued : issued ⊆ issued')
    (haccepted : accepted ⊆ accepted') : RowOk settings issued' accepted' row := by
  obtain ⟨⟨use, huse, hexpires⟩, use', huse', hseen⟩ := h
  refine ⟨⟨use, hissued huse, hexpires⟩, use', ?_, hseen⟩
  exact List.mem_append.mpr ((List.mem_append.mp huse').imp (fun hu => hissued hu)
    fun hu => haccepted hu)

theorem RowOk.revoke {issued accepted : List SessionUse} {row : UserSession}
    (h : RowOk settings issued accepted row) (ids : List UUID) (now : Instant) :
    RowOk settings issued accepted (row.revoke ids now) := by
  unfold UserSession.revoke
  split_ifs
  · exact ⟨h.expires, h.seen⟩
  · exact h

theorem RowOk.see {issued accepted : List SessionUse} {row : UserSession}
    (h : RowOk settings issued accepted row) {ids : List UUID} {now : Instant}
    (hids : ∀ id ∈ ids, ⟨id, now⟩ ∈ accepted) :
    RowOk settings issued accepted (row.see ids now) := by
  unfold UserSession.see
  split_ifs with hmem
  · exact ⟨h.expires, _, List.mem_append_right _ (hids row.id hmem), rfl, rfl⟩
  · exact h

theorem UpdateOk.mono {accepted accepted' : List SessionUse} (h : UpdateOk accepted t)
    (hsub : accepted ⊆ accepted') : UpdateOk accepted' t := by
  cases t with
  | stale id now => exact hsub h
  | seeing ids now => exact fun id hid => hsub (h id hid)
  | _ => trivial

theorem updates_set {history : SessionHistory} (h : Ok settings history)
    (ht : UpdateOk history.accepted t) :
    ∀ u ∈ history.world.transactions.set i t, UpdateOk history.accepted u := by
  intro u hu
  rcases mem_set_cases hu with rfl | ⟨j, -, hj⟩
  · exact ht
  · exact h.updates u (List.mem_of_getElem? hj)

def Quiet : AuthEvent → Prop
  | .issue .. | .authenticate .. => False
  | _ => True

theorem mem_seeRows {w : AuthWorld} {ids : List UUID} {now : Instant} {row' : UserSession} :
    row' ∈ (w.seeRows ids now).rows ↔ ∃ row ∈ w.sessions.rows, row.see ids now = row' :=
  Table.mem_update

theorem rows_revokeRows (hok : Ok settings h) (ids : List UUID) (now : Instant) :
    ∀ row ∈ (h.world.revokeRows ids now).rows, RowOk settings h.issued h.accepted row := by
  intro row' hrow'
  obtain ⟨row, hrow, rfl⟩ := AuthWorld.mem_revokeRows.mp hrow'
  exact (hok.rows row hrow).revoke ids now

/-- A quiet step. -/
theorem Ok.quiet (hok : Ok settings h) {e : AuthEvent} {w : AuthWorld}
    (hstep : AuthWorld.Step settings h.world e w) (hquiet : Quiet e) :
    Ok settings { h with world := w } := by
  cases hstep with
  | issue | authenticate => exact hquiet.elim
  | tick => exact ⟨hok.rows, hok.updates⟩
  | register _ hfree | login _ hfree | logout _ hfree =>
    refine ⟨hok.rows, fun t ht => ?_⟩
    rcases List.mem_append.mp ht with hold | hnew
    · exact hok.updates t hold
    · obtain rfl := List.mem_singleton.mp hnew
      trivial
  | readClock hi | select hi | revoke hi | purge hi | lockAll hi | revokeAll _ hi | abort hi =>
    exact ⟨hok.rows, updates_set hok trivial⟩
  | @commitLogout i ids now hi =>
    exact ⟨rows_revokeRows hok ids now, updates_set hok trivial⟩
  | @see i id now hi =>
    refine ⟨hok.rows, updates_set hok fun id' hid' => ?_⟩
    obtain ⟨row, hrow, rfl⟩ := List.mem_map.mp hid'
    have hid : row.id = id := (of_decide_eq_true (List.mem_filter.mp hrow).2).1
    have huse : UpdateOk h.accepted (.stale id now) := hok.updates _ (List.mem_of_getElem? hi)
    exact hid ▸ huse
  | @commitSeen i ids now hi =>
    have huse : UpdateOk h.accepted (.seeing ids now) := hok.updates _ (List.mem_of_getElem? hi)
    refine ⟨fun row' hrow' => ?_, updates_set hok trivial⟩
    obtain ⟨row, hrow, rfl⟩ := mem_seeRows.mp hrow'
    exact (hok.rows row hrow).see huse
  | @commitAll i present ids now hi =>
    exact ⟨rows_revokeRows hok ids now, updates_set hok trivial⟩

theorem Ok.issue (hok : Ok settings h) {w : AuthWorld} {id : UUID} {createdAt : Instant}
    {tokenHash : String}
    (hstep : AuthWorld.Step settings h.world (.issue i id createdAt tokenHash) w) :
    Ok settings
      ⟨w, issuedBy h.world (.issue i id createdAt tokenHash) ++ h.issued, h.accepted⟩ := by
  cases hstep with
  | @issue _ now _ revoked purged _ _ sessions hi hfresh hinsert =>
    have hnew : issuedBy h.world (.issue i id createdAt tokenHash) = [⟨id, now⟩] := by
      simp only [issuedBy, hi]
    rw [hnew]
    refine ⟨fun row hrow => ?_, updates_set hok trivial⟩
    rw [Table.rows_insert? hinsert] at hrow
    rcases List.mem_append.mp hrow with hold | hlast
    · have hrow := (Table.mem_filter.mp hold).1
      exact (rows_revokeRows hok revoked now row hrow).mono (List.subset_cons_self _ _)
        (List.Subset.refl _)
    · obtain rfl := List.mem_singleton.mp hlast
      have hmem : (⟨id, now⟩ : SessionUse) ∈ [⟨id, now⟩] ++ h.issued := List.mem_cons_self
      exact ⟨⟨_, hmem, rfl, rfl⟩, _, List.mem_append_left _ hmem, rfl, rfl⟩

theorem Ok.authenticate (hok : Ok settings h) {w : AuthWorld} {tokenHash : String} {now : Instant}
    (hstep : AuthWorld.Step settings h.world (.authenticate tokenHash now) w) :
    Ok settings ⟨w, h.issued,
      acceptedBy settings h.world (.authenticate tokenHash now) ++ h.accepted⟩ := by
  cases hstep with
  | @authenticate _ _ row hnow hrow =>
    have hnew : acceptedBy settings h.world (.authenticate tokenHash now) = [⟨row.id, now⟩] := by
      simp only [acceptedBy, hrow, Option.map_some, Option.toList_some]
    rw [hnew]
    have hsub : h.accepted ⊆ [⟨row.id, now⟩] ++ h.accepted := List.subset_cons_self _ _
    refine ⟨fun row' hrow' => (hok.rows row' hrow').mono (List.Subset.refl _) hsub, fun t ht => ?_⟩
    rcases List.mem_append.mp ht with hold | hlast
    · exact (hok.updates t hold).mono hsub
    · obtain rfl := List.mem_singleton.mp hlast
      split_ifs
      · exact List.mem_cons_self
      · trivial

theorem Ok.step (hok : Ok settings h) {e : AuthEvent} (hstep : Step settings h e h') :
    Ok settings h' := by
  obtain ⟨world', issued', accepted'⟩ := h'
  obtain ⟨hworld, hissued, haccepted⟩ := hstep
  simp only at hworld hissued haccepted
  subst hissued haccepted
  cases e with
  | issue => exact hok.issue hworld
  | authenticate => exact hok.authenticate hworld
  | _ => exact hok.quiet hworld trivial

theorem reaches_ok {clock : Instant} (hrun : Transition.Reaches (Step settings) (init clock) h) :
    Ok settings h := by
  refine hrun.invariant (I := Ok settings) ?_ fun _ _ _ hok hstep => hok.step hstep
  exact ⟨fun row hrow => (by cases hrow), fun t ht => (by cases ht)⟩

/-! ### Sessions that have ended -/

/-- A session that was there is revoked, or its row has been deleted. -/
structure Revoked (w : AuthWorld) (id : UUID) : Prop where
  used : id ∈ w.used
  rows : ∀ row ∈ w.sessions.rows, row.id = id → row.revokedAt.isSome

theorem Revoked.of_weakens {w w' : AuthWorld} {id : UUID} (h : Revoked w id)
    (hused : w'.used = w.used) (hweakens : Weakens w.sessions w'.sessions) : Revoked w' id := by
  refine ⟨hused ▸ h.used, fun row' hrow' hid' => ?_⟩
  obtain ⟨row, hrow, hid, -, hrevoked⟩ := hweakens row' hrow'
  exact hrevoked (h.rows row hrow (hid.trans hid'))

/-- No step gives a session back, whatever other transactions are under way. -/
theorem Revoked.step {w w' : AuthWorld} {id : UUID} {e : AuthEvent} (h : Revoked w id)
    (hstep : AuthWorld.Step settings w e w') : Revoked w' id := by
  cases hstep with
  | @issue i now createdAt revoked purged id' tokenHash sessions hi hfresh hinsert =>
    refine ⟨List.mem_cons_of_mem _ h.used, fun row hrow hid => ?_⟩
    simp only at hrow
    rw [Table.rows_insert? hinsert] at hrow
    rcases List.mem_append.mp hrow with hold | hlast
    · have hkept : Revoked { w with sessions := w.revokeRows revoked now } id :=
        h.of_weakens rfl (.revokeRows w revoked now)
      exact hkept.rows row (Table.mem_filter.mp hold).1 hid
    · obtain rfl := List.mem_singleton.mp hlast
      obtain rfl : id' = id := hid
      exact absurd h.used hfresh
  | commitLogout | commitAll => exact h.of_weakens rfl (.revokeRows w _ _)
  | commitSeen => exact h.of_weakens rfl (.seeRows w _ _)
  | _ => exact h.of_weakens rfl (.refl _)

theorem currentSession_eq_some {sessions : Table UserSession} {tokenHash : String} {now : Instant}
    {row : UserSession} (h : currentSession settings sessions tokenHash now = some row) :
    row ∈ sessions.rows ∧ row.tokenHash = tokenHash ∧ row.revokedAt = none ∧ now < row.expiresAt ∧
      now - seconds settings.sessionIdleSeconds < row.lastSeenAt := by
  unfold currentSession at h
  have hmem := List.mem_of_find?_eq_some h
  have htest := List.find?_some h
  exact ⟨hmem, of_decide_eq_true htest⟩

/-- A request is accepted only for a session that was issued and last used not too long before, by
the clocks of the requests themselves; and a session that a committed transaction has revoked is
never accepted again, whatever was under way. -/
theorem session_life {settings : AuthSettings} {clock : Instant} {h : SessionHistory}
    (hrun : Transition.Reaches (Step settings) (init clock) h) :
    (∀ tokenHash now row, currentSession settings h.world.sessions tokenHash now = some row →
      (∃ use ∈ h.issued, use.id = row.id ∧ now < use.time + seconds settings.sessionTtlSeconds) ∧
      ∃ use ∈ h.issued ++ h.accepted, use.id = row.id ∧
        now < use.time + seconds settings.sessionIdleSeconds) ∧
    ∀ row ∈ h.world.sessions.rows, row.revokedAt.isSome →
      ∀ h', Transition.Reaches (Step settings) h h' →
        ∀ tokenHash now row', currentSession settings h'.world.sessions tokenHash now = some row' →
          row'.id ≠ row.id := by
  have hok := reaches_ok hrun
  constructor
  · intro tokenHash now row haccepted
    obtain ⟨hmem, -, -, hexpires, hidle⟩ := currentSession_eq_some haccepted
    obtain ⟨⟨use, huse, hid, htime⟩, use', huse', hid', htime'⟩ := hok.rows row hmem
    refine ⟨⟨use, huse, hid, htime ▸ hexpires⟩, use', huse', hid', ?_⟩
    rw [htime'] at hidle
    linarith
  · intro row hrow hrevoked h' hlater tokenHash now row' haccepted hid
    have hworld : AuthWorld.Ok settings h.world := AuthWorld.reaches_ok (reaches_world hrun)
    have hgone : Revoked h.world row.id := by
      refine ⟨hworld.present row hrow, fun other hother hsame => ?_⟩
      obtain rfl := Table.eq_of_key hother hrow hsame
      exact hrevoked
    have hstill : Revoked h'.world row.id :=
      hlater.invariant (I := fun u => Revoked u.world row.id) hgone
        fun _ _ _ hu hstep => hu.step hstep.world
    obtain ⟨hmem, -, hnone, -⟩ := currentSession_eq_some haccepted
    have hsome := hstill.rows row' hmem hid
    rw [hnone] at hsome
    cases hsome

/-! The session of the registration is accepted after two minutes and logged out before the update
of its activity. -/

open AuthWorld (sampleWorld sampleSettings)

def acceptedWorld : AuthWorld :=
  ({ sampleWorld with clock := seconds 120 } : AuthWorld).start (.stale 1 (seconds 120))

def revokedWorld : AuthWorld :=
  { (acceptedWorld.start .ended) with sessions := acceptedWorld.revokeRows [1] (seconds 120) }

def seenWorld : AuthWorld := revokedWorld.move 1 .authenticated

theorem rowsFree_of_written {w : AuthWorld} (h : ∀ t ∈ w.transactions, t.written = []) (i : ℕ)
    (ids : List UUID) : w.RowsFree i ids := by
  intro j t _ ht id _
  rw [h t (List.mem_of_getElem? ht)]
  exact List.not_mem_nil

theorem reaches_acceptedWorld :
    Transition.Reaches (AuthWorld.Step sampleSettings) (.init 0) acceptedWorld := by
  have hticked := AuthWorld.reaches_sampleWorld.tail
    (@AuthWorld.Step.tick sampleSettings _ (seconds 120) (by decide))
  exact hticked.tail (@AuthWorld.Step.authenticate sampleSettings _ "token" (seconds 120)
    (issuedSession sampleSettings 1 0 "token" 0) le_rfl rfl)

theorem reaches_revokedWorld :
    Transition.Reaches (AuthWorld.Step sampleSettings) acceptedWorld revokedWorld := by
  have hstarted := (Transition.Reaches.refl acceptedWorld).tail
    (@AuthWorld.Step.logout sampleSettings _ "token" (seconds 120) le_rfl
      (rowsFree_of_written (by decide) _ _))
  exact hstarted.tail (@AuthWorld.Step.commitLogout sampleSettings _ 2 [1] (seconds 120) rfl)

theorem reaches_seenWorld :
    Transition.Reaches (AuthWorld.Step sampleSettings) revokedWorld seenWorld := by
  have hseeing := (Transition.Reaches.refl revokedWorld).tail
    (@AuthWorld.Step.see sampleSettings _ 1 1 (seconds 120) rfl
      (rowsFree_of_written (by decide) _ _))
  exact hseeing.tail (@AuthWorld.Step.commitSeen sampleSettings _ 1 [] (seconds 120) rfl)

theorem session_life_sample : ∃ h h' : SessionHistory, h.world = acceptedWorld ∧
    h'.world = seenWorld ∧
    (∃ use ∈ h.issued, use.id = 1 ∧
      seconds 125 < use.time + seconds sampleSettings.sessionTtlSeconds) ∧
    ∀ tokenHash now row, currentSession sampleSettings h'.world.sessions tokenHash now = some row →
      row.id ≠ 1 := by
  obtain ⟨h, hrun, hworld⟩ := @exists_later sampleSettings (init 0) _ reaches_acceptedWorld
  obtain ⟨h₁, hrevoked, hworld₁⟩ := @exists_later sampleSettings h _
    (hworld.symm ▸ reaches_revokedWorld)
  obtain ⟨h', hseen, hworld'⟩ := @exists_later sampleSettings h₁ _
    (hworld₁.symm ▸ reaches_seenWorld)
  have haccepted : currentSession sampleSettings h.world.sessions "token" (seconds 125) =
      some (issuedSession sampleSettings 1 0 "token" 0) := by
    rw [hworld]
    rfl
  refine ⟨h, h', hworld, hworld', ((session_life hrun).1 _ _ _ haccepted).1, ?_⟩
  have hrow : (issuedSession sampleSettings 1 0 "token" 0).revoke [1] (seconds 120) ∈
      h₁.world.sessions.rows := by
    rw [hworld₁]
    exact List.mem_singleton_self _
  exact (session_life (hrun.trans hrevoked)).2 _ hrow rfl h' hseen

end SessionHistory

end AgentDemo
