import AgentDemo.System.MemoryWorld

/-! The sessions of a conversation and its locks: what a session has read under the lock of the
conversation is still the case. -/
namespace AgentDemo

/-- The cursor that messages are selected with, for the cursor that is stored. -/
def FromStored (stored cursor : Option MemoryCursor) : Prop :=
  cursor = stored ∨ (stored = none ∧ ∃ t, cursor = some (.afterTime t))

theorem fromStored_sourceCursor (stored : Option MemoryCursor) (summaries : Table MemorySummary) :
    FromStored stored (sourceCursor stored summaries) := by
  cases stored with
  | some cursor => exact .inl rfl
  | none =>
    cases h : retiredAt summaries with
    | none => exact .inl (by simp [sourceCursor, h])
    | some t => exact .inr ⟨rfl, t, by simp [sourceCursor, h]⟩

/-- The batch lies after the cursor, and the next cursor stands at its end. -/
structure Compaction.Ok (c : Compaction) (cursor : Option MemoryCursor) (messages : List Message) :
    Prop where
  stored : c.stored = cursor
  fromStored : FromStored c.stored c.cursor
  above : ∀ p ∈ c.batch, p.message ∈ messages ∧ Above c.cursor p
  next : ∃ p ∈ c.batch, EndsWith c.next p ∧ ∀ q ∈ c.batch, q = p ∨ Precedes q.message p.message

/-- What a session that holds the lock of the conversation knows of the tables. -/
def SessionOk (cursor : Option MemoryCursor) (messages : List Message)
    (summaries : List MemorySummary) : MemorySession → Prop
  | .locked _ stored => stored = cursor
  | .bounded _ stored boundary => stored = cursor ∧ FromStored stored boundary
  | .loaded c => c.Ok cursor messages
  | .summarising c existing => c.Ok cursor messages ∧
      ∀ row, existing = some row → row ∈ summaries ∧ row.validTo = none
  | .holding _ stored => stored = cursor
  | .forgetting _ stored _ => stored = cursor
  | .removing _ stored _ => stored = cursor
  | _ => True

theorem sessionOk_of_not_holds {cursor : Option MemoryCursor} {messages : List Message}
    {summaries : List MemorySummary} {s : MemorySession} (h : ¬ s.holdsConversation = true) :
    SessionOk cursor messages summaries s := by
  cases s <;> trivial

theorem SessionOk.mono {cursor : Option MemoryCursor} {messages messages' : List Message}
    {summaries summaries' : List MemorySummary} {s : MemorySession}
    (h : SessionOk cursor messages summaries s) (hmessages : messages ⊆ messages')
    (hsummaries : ∀ row ∈ summaries, s.lockedSummary = some row.id → row ∈ summaries') :
    SessionOk cursor messages' summaries' s := by
  have hok : ∀ c : Compaction, c.Ok cursor messages → c.Ok cursor messages' := fun c hc =>
    { hc with above := fun p hp => ⟨hmessages (hc.above p hp).1, (hc.above p hp).2⟩ }
  cases s with
  | loaded c => exact hok c h
  | summarising c existing =>
    refine ⟨hok c h.1, ?_⟩
    rintro row rfl
    have hrow := h.2 row rfl
    exact ⟨hsummaries row hrow.1 rfl, hrow.2⟩
  | _ => exact h

namespace MemoryWorld

theorem step_readMessages {leaks : String → Bool} {w : MemoryWorld} {i : ℕ}
    {settings : MemorySettings} {stored cursor : Option MemoryCursor} {c : Compaction}
    (hi : w.sessions[i]? = some (.bounded settings stored cursor))
    (hc : w.compaction settings stored cursor = c) (hne : c.batch ≠ []) :
    Step leaks w (.readMessages i) (w.move i (.loaded c)) := by
  have hstep : Step leaks w (.readMessages i) _ := .readMessages hi
  rwa [hc, if_neg hne] at hstep

structure Consistent (w : MemoryWorld) : Prop where
  conversation : Exclusive (fun s => s.holdsConversation = true) w.sessions
  summary : ∀ id, Exclusive (fun s => s.lockedSummary = some id) w.sessions
  sessions : ∀ s ∈ w.sessions, SessionOk w.cursor w.messages.rows w.summaries.rows s
  cursorIn : ∀ id t offset count, w.cursor = some (.position id t offset count) →
    ∃ m ∈ w.messages.rows, m.id = id ∧ m.createdAt = t

namespace Consistent

variable {leaks : String → Bool} {w w' : MemoryWorld} {i : ℕ} {s t : MemorySession}

theorem of_empty (hsessions : w.sessions = [])
    (hcursor : ∀ id t offset count, w.cursor ≠ some (.position id t offset count)) :
    w.Consistent := by
  refine ⟨?_, fun id => ?_, ?_, fun id t offset count h => absurd h (hcursor id t offset count)⟩
  · exact hsessions ▸ Exclusive.nil _
  · exact hsessions ▸ Exclusive.nil _
  · simp [hsessions]

theorem session (h : w.Consistent) (hi : w.sessions[i]? = some s) :
    SessionOk w.cursor w.messages.rows w.summaries.rows s :=
  h.sessions s (List.mem_of_getElem? hi)

/-- Names of the rows in a table determine the rows. -/
theorem cursor_createdAt (h : w.Consistent) {id : UUID} {t : Instant} {offset count : ℕ}
    (hcursor : w.cursor = some (.position id t offset count)) {m : Message}
    (hm : m ∈ w.messages.rows) (hid : m.id = id) : m.createdAt = t := by
  obtain ⟨m', hm', hid', ht'⟩ := h.cursorIn id t offset count hcursor
  rw [Table.eq_of_key hm hm' (hid.trans hid'.symm), ht']

/-- A session moves on without a new lock. -/
theorem move (h : w.Consistent) (hi : w.sessions[i]? = some s)
    (hholds : t.holdsConversation = true → s.holdsConversation = true)
    (hlocked : ∀ id, t.lockedSummary = some id →
      s.lockedSummary = some id ∨ w.SummaryFree id)
    (hok : SessionOk w.cursor w.messages.rows w.summaries.rows t) : (w.move i t).Consistent where
  conversation := h.conversation.set hi hholds
  summary id := by
    by_cases ht : t.lockedSummary = some id
    · rcases hlocked id ht with hs | hfree
      · exact (h.summary id).set hi fun _ => hs
      · exact Exclusive.set_free hfree
    · exact (h.summary id).set hi fun ht' => absurd ht' ht
  sessions u hu := by
    rcases mem_set_cases hu with rfl | ⟨j, -, hj⟩
    · exact hok
    · exact h.session hj
  cursorIn := h.cursorIn

/-- A session that has committed or rolled back. -/
theorem stop (h : w.Consistent) (hi : w.sessions[i]? = some s) : (w.move i .ended).Consistent :=
  h.move hi (by simp [MemorySession.holdsConversation]) (by simp [MemorySession.lockedSummary])
    trivial

/-- The holder of the lock of the conversation commits. -/
theorem commit (h : w.Consistent) (hi : w.sessions[i]? = some s)
    (hholds : s.holdsConversation = true) (hsessions : w'.sessions = w.sessions.set i .ended)
    (hcursorIn : ∀ id t offset count, w'.cursor = some (.position id t offset count) →
      ∃ m ∈ w'.messages.rows, m.id = id ∧ m.createdAt = t) : w'.Consistent where
  conversation := hsessions ▸ (h.stop hi).conversation
  summary := hsessions ▸ (h.stop hi).summary
  sessions u hu := by
    rw [hsessions] at hu
    rcases mem_set_cases hu with rfl | ⟨j, hne, hj⟩
    · trivial
    · exact sessionOk_of_not_holds (h.conversation.others hi hholds hj hne)
  cursorIn := hcursorIn

/-- A session begins without a lock. -/
theorem join (h : w.Consistent) (hholds : ¬ s.holdsConversation = true)
    (hlocked : s.lockedSummary = none) :
    ({ w with sessions := w.sessions ++ [s] } : MemoryWorld).Consistent where
  conversation := h.conversation.append hholds
  summary id := (h.summary id).append (by simp [hlocked])
  sessions u hu := by
    rcases List.mem_append.mp hu with hu | hu
    · exact h.sessions u hu
    · rw [List.mem_singleton.mp hu]
      exact sessionOk_of_not_holds hholds
  cursorIn := h.cursorIn

theorem cursorIn_fromStored (h : w.Consistent) {cursor : Option MemoryCursor}
    (hfrom : FromStored w.cursor cursor) : CursorIn w.messages.rows cursor := by
  rintro id t offset count rfl m hm hid
  rcases hfrom with heq | ⟨-, t', ht'⟩
  · exact h.cursor_createdAt heq.symm hm hid
  · cases ht'

/-- What a compaction makes of the messages it reads. -/
theorem compaction_ok (h : w.Consistent) {settings : MemorySettings}
    {stored cursor : Option MemoryCursor} (hstored : stored = w.cursor)
    (hfrom : FromStored stored cursor) (hne : (w.compaction settings stored cursor).batch ≠ []) :
    (w.compaction settings stored cursor).Ok w.cursor w.messages.rows := by
  have hsub := sourceMessages_sublist settings w.messages.rows cursor
  have hcursor := h.cursorIn_fromStored (hstored ▸ hfrom)
  have hspec := batchFrom_spec ((pairwise_eligible w.messages).sublist hsub)
    (show batchFrom cursor (sourceMessages settings w.messages.rows cursor)
      settings.agentMemoryInputMaxChars cursor =
        ((w.compaction settings stored cursor).batch,
          (w.compaction settings stored cursor).next) from rfl)
  constructor
  case stored => exact hstored
  case fromStored => exact hfrom
  case above =>
    intro p hp
    obtain ⟨hmem, hstart⟩ := hspec.1 p hp
    have hm := (mem_eligible.mp (hsub.subset hmem)).1
    have habove := above_of_afterCursor p.content hm hcursor
      (afterCursor_of_mem_sourceMessages hmem)
    rw [← hstart] at habove
    exact ⟨hm, habove⟩
  case next =>
    rcases hspec.2 with ⟨hnil, -⟩ | hnext
    · exact absurd hnil hne
    · exact hnext

theorem step (h : w.Consistent) {e : MemoryEvent} (hstep : Step leaks w e w') :
    w'.Consistent := by
  cases hstep with
  | append hinsert =>
    have hrows := Table.rows_insert? hinsert
    refine ⟨h.conversation, h.summary, fun s hs => ?_, fun id t offset count hcursor => ?_⟩
    · refine (h.sessions s hs).mono ?_ fun row hrow _ => hrow
      rw [hrows]
      exact List.subset_append_left _ _
    · obtain ⟨m, hm, hid⟩ := h.cursorIn id t offset count hcursor
      exact ⟨m, hrows ▸ List.mem_append_left _ hm, hid⟩
  | update hfree =>
    refine ⟨Exclusive.append_free fun s hs => ?_, fun id => (h.summary id).append (by simp
      [MemorySession.lockedSummary]), fun s hs => ?_, h.cursorIn⟩
    · simp [hfree s hs]
    · rcases List.mem_append.mp hs with hs | hs
      · exact h.sessions s hs
      · rw [List.mem_singleton.mp hs]
        exact rfl
  | refused => exact h
  | readBoundary hi =>
    refine h.move hi (fun _ => rfl) (by simp [MemorySession.lockedSummary]) ?_
    exact ⟨h.session hi, fromStored_sourceCursor _ _⟩
  | readMessages hi =>
    split_ifs with hempty
    · exact h.stop hi
    · obtain ⟨hstored, hfrom⟩ := h.session hi
      exact h.move hi (fun _ => rfl) (by simp [MemorySession.lockedSummary])
        (h.compaction_ok hstored hfrom hempty)
  | readSummary hi hfree =>
    refine h.move hi (fun _ => rfl) (fun id hid => .inr ?_) ⟨h.session hi, fun row hrow => ?_⟩
    · obtain ⟨row, hrow, rfl⟩ := Option.map_eq_some_iff.mp hid
      exact hfree row hrow
    · exact mem_of_activeSummary hrow
  | store hi =>
    refine h.commit hi rfl rfl fun id t offset count hcursor => ?_
    obtain ⟨p, hp, ⟨offset', count', hends, -⟩, -⟩ := (h.session hi).1.next
    cases hcursor.symm.trans hends
    exact ⟨p.message, ((h.session hi).1.above p hp).1, rfl, rfl⟩
  | reject hi => exact h.stop hi
  | disable => exact h.join (by simp [MemorySession.holdsConversation]) rfl
  | disabled hi => exact h.stop hi
  | stamp hi =>
    exact h.move hi (by simp [MemorySession.holdsConversation])
      (by simp [MemorySession.lockedSummary]) trivial
  | retire hi hrow hfree =>
    refine h.move hi (by simp [MemorySession.holdsConversation]) (fun id hid => .inr ?_) trivial
    cases hid
    exact hfree
  | @commitDisable i row t now hi hrow =>
    have hstop := h.stop hi
    refine ⟨hstop.conversation, hstop.summary, fun s hs => ?_, h.cursorIn⟩
    rcases mem_set_cases hs with rfl | ⟨j, hne, hj⟩
    · trivial
    · refine (h.session hj).mono (List.Subset.refl _) fun row' hrow' hlocked => ?_
      refine Table.mem_write_of_ne hrow' fun hkey => ?_
      have hid : row'.id = row.id := hkey
      exact (h.summary row.id).others hi rfl hj hne (hid ▸ hlocked)
  | delete => exact h.join (by simp [MemorySession.holdsConversation]) rfl
  | lockConversation hi hfree =>
    refine ⟨Exclusive.set_free fun s hs => by simp [hfree s hs], fun id => ?_, fun s hs => ?_,
      h.cursorIn⟩
    · exact (h.summary id).set hi (by simp [MemorySession.lockedSummary])
    · rcases mem_set_cases hs with rfl | ⟨j, -, hj⟩
      · exact rfl
      · exact h.session hj
  | forget hi =>
    have hstored : _ = w.cursor := h.session hi
    exact h.move hi (fun _ => rfl) (by simp [MemorySession.lockedSummary]) hstored
  | remove hi hfree =>
    have hstored : _ = w.cursor := h.session hi
    refine h.move hi (fun _ => rfl) (fun id hid => .inr ?_) hstored
    cases hid
    exact hfree
  | @commitDelete i id stored t hi =>
    refine h.commit hi rfl rfl fun id t offset count hcursor => ?_
    cases hstored : stored with
    | none => simp [hstored] at hcursor
    | some _ => exact h.cursorIn id t offset count (by simpa [hstored] using hcursor)
  | abort hi => exact h.stop hi

/-- The sessions of every run that starts without a session. -/
theorem of_reaches {w₀ : MemoryWorld} (h : Transition.Reaches (Step leaks) w₀ w)
    (h₀ : w₀.Consistent) : w.Consistent :=
  h.invariant h₀ fun _ _ _ hu hstep => hu.step hstep

end Consistent

end MemoryWorld

end AgentDemo
