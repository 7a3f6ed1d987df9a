import AgentDemo.System.MemorySessions

/-! What a disabled or deleted summary was made of does not come back: the text behind the
summaries, the boundaries that keep it apart, and the interleavings that lose a boundary. -/
namespace AgentDemo

namespace MemoryWorld

/-- No stored summary is made of text that went into a summary forgotten before, or of messages
from before the forgetting when the conversation had no cursor. -/
def ForgottenStays (w : MemoryWorld) : Prop :=
  ∀ s ∈ w.stored, ∀ f ∈ s.forgotten, (∀ p ∈ s.sources, ∀ q ∈ f.sources, Apart p q) ∧
    ∀ t, f.withoutCursor = some t → ∀ p ∈ s.sources, t < p.message.createdAt

/-- The boundary of a conversation without a cursor is not lost: a compaction commits only while
the boundary it has read is the present one, and no summary is forgotten with a time before a
boundary that is there. -/
def Undisturbed (leaks : String → Bool) (w : MemoryWorld) : MemoryEvent → Prop
  | .reply i (some summary) _ _ => acceptableSummary leaks summary = true →
      ∀ c existing, w.sessions[i]? = some (.summarising c existing) → c.stored = none →
        c.cursor = (retiredAt w.summaries).map .afterTime
  | .commitDisable i _ => w.cursor = none → ∀ id t, w.sessions[i]? = some (.retiring id t) →
      ∀ row, w.summaries.get? id = some row → ∀ t', row.validTo = some t' → t' ≤ t
  | .commitDelete i => ∀ id t, w.sessions[i]? = some (.removing id none t) →
      ∀ t', retiredAt w.summaries = some t' → t' ≤ t
  | _ => True

end MemoryWorld

theorem Apart.symm {p q : Piece} (h : Apart p q) : Apart q p :=
  h.imp Ne.symm Or.symm

/-- The cursor, or the boundary in its place, keeps what was there at `t` out of a summary. -/
def Guards (summaries : Table MemorySummary) (cursor : Option MemoryCursor) (t : Instant) : Prop :=
  match cursor with
  | none => ∃ row ∈ summaries.rows, ∃ t', row.validTo = some t' ∧ t ≤ t'
  | some (.afterTime t') => t ≤ t'
  | some (.position _ t' _ _) => t < t'

theorem le_retiredAt {summaries : Table MemorySummary} {row : MemorySummary} {t : Instant}
    (hrow : row ∈ summaries.rows) (ht : row.validTo = some t) :
    ∃ t', retiredAt summaries = some t' ∧ t ≤ t' := by
  have hmem : t ∈ summaries.rows.filterMap MemorySummary.validTo :=
    List.mem_filterMap.mpr ⟨row, hrow, ht⟩
  cases hmax : retiredAt summaries with
  | none =>
    have hnil := List.max?_eq_none_iff.mp hmax
    rw [hnil] at hmem
    cases hmem
  | some t' => exact ⟨t', rfl, (List.max?_eq_some_iff.mp hmax).2 t hmem⟩

/-- What is to be read after a cursor was created at its time or later. -/
theorem createdAt_of_above {id : UUID} {t : Instant} {offset count : ℕ} {p : Piece}
    (h : Above (some (.position id t offset count)) p) : t ≤ p.message.createdAt := by
  rcases h with hlt | ⟨heq, -⟩
  · exact createdAt_le_of_position_le hlt.le
  · exact createdAt_le_of_position_le heq.ge

/-- The cursor that a batch ends with is past the whole batch. -/
theorem below_of_endsWith {next : Option MemoryCursor} {p q : Piece} (hends : EndsWith next p)
    (hq : q = p ∨ Precedes q.message p.message) : Below next q := by
  obtain ⟨offset, count, rfl, hoffset⟩ := hends
  rcases hq with rfl | hlt
  · refine .inr ⟨rfl, hoffset.imp_right fun heq => ?_⟩
    exact heq.ge
  · exact .inl hlt

/-- What lies before the old cursor lies before the new one. -/
theorem Below.advance {cursor next : Option MemoryCursor} {p q : Piece} (hq : Below cursor q)
    (hp : Above cursor p) (hends : EndsWith next p) : Below next q := by
  obtain ⟨offset, count, rfl, hoffset⟩ := hends
  match cursor, hq, hp with
  | some (.position id t offset' _), hq, hp =>
    rcases hp with hlt | ⟨heq, hne, hle⟩
    · rcases hq with hq | ⟨hq, -⟩
      · exact .inl (hq.trans hlt)
      · exact .inl (hq ▸ hlt)
    · rcases hq with hq | ⟨hq, hstop⟩
      · exact .inl (hq.trans_eq heq.symm)
      · refine .inr ⟨hq.trans heq.symm, hoffset.imp_right fun hend => ?_⟩
        have hbefore := hstop.resolve_left hne
        have hstart : p.start ≤ p.stop := Nat.le_add_right _ _
        omega

namespace MemoryWorld

structure Guarded (w : MemoryWorld) : Prop where
  sources : ∀ id, ∀ p ∈ w.sources id, p.message ∈ w.messages.rows ∧ Below w.cursor p
  forgotten : ∀ f ∈ w.forgotten, ∀ p ∈ f.sources,
    p.message ∈ w.messages.rows ∧ Below w.cursor p
  activeApart : ∀ row ∈ w.summaries.rows, row.validTo = none → ∀ f ∈ w.forgotten,
    ∀ p ∈ w.sources row.id, ∀ q ∈ f.sources, Apart p q
  sourcesApart : ∀ id id', id ≠ id' → ∀ p ∈ w.sources id, ∀ q ∈ w.sources id', Apart p q
  later : ∀ f ∈ w.forgotten, ∀ t, f.withoutCursor = some t → ∀ id, ∀ p ∈ w.sources id,
    t < p.message.createdAt
  guards : ∀ f ∈ w.forgotten, ∀ t, f.withoutCursor = some t → Guards w.summaries w.cursor t
  stays : w.ForgottenStays

theorem Initial.guarded {w : MemoryWorld} (h : w.Initial) : w.Guarded where
  sources id := by simp [h.sources]
  forgotten := by simp [h.forgotten]
  activeApart := by simp [h.forgotten]
  sourcesApart := by simp [h.sources]
  later := by simp [h.forgotten]
  guards := by simp [h.forgotten]
  stays := by simp [ForgottenStays, h.stored]

/-- Without a cursor nothing has gone into a summary. -/
theorem Guarded.sources_eq_nil {w : MemoryWorld} (h : w.Guarded) (hcursor : w.cursor = none)
    (id : UUID) : w.sources id = [] := by
  refine List.eq_nil_iff_forall_not_mem.mpr fun p hp => ?_
  have hbelow := (h.sources id p hp).2
  rw [hcursor] at hbelow
  exact hbelow

section Batch

variable {w : MemoryWorld} {c : Compaction}

/-- A batch has no text in common with what lies before the cursor. -/
theorem apart_batch (hok : c.Ok w.cursor w.messages.rows) {p q : Piece} (hp : p ∈ c.batch)
    (hmem : q.message ∈ w.messages.rows) (hq : Below w.cursor q) : Apart q p := by
  obtain ⟨hm, habove⟩ := hok.above p hp
  have hcursor : c.cursor = w.cursor := by
    rcases hok.fromStored with heq | ⟨hnone, -⟩
    · exact heq.trans hok.stored
    · rw [← hok.stored, hnone] at hq
      exact hq.elim
  refine apart_of_below_above hq (hcursor ▸ habove) fun hid => ?_
  rw [Table.eq_of_key hmem hm hid]

/-- What lay before the cursor still does after the commit, and the batch does as well. -/
theorem below_next (hok : c.Ok w.cursor w.messages.rows) {q : Piece}
    (hq : Below w.cursor q ∨ q ∈ c.batch) : Below c.next q := by
  obtain ⟨p, hp, hends, hbatch⟩ := hok.next
  rcases hq with hq | hq
  · have habove := (hok.above p hp).2
    rcases hok.fromStored with heq | ⟨hnone, -⟩
    · rw [heq, hok.stored] at habove
      exact hq.advance habove hends
    · rw [← hok.stored, hnone] at hq
      exact hq.elim
  · exact below_of_endsWith hends (hbatch q hq)

/-- A boundary that is guarded is before every message of a batch. -/
theorem guards_batch (hok : c.Ok w.cursor w.messages.rows)
    (hboundary : c.stored = none → c.cursor = (retiredAt w.summaries).map .afterTime)
    {t : Instant} (ht : Guards w.summaries w.cursor t) {p : Piece} (hp : p ∈ c.batch) :
    t < p.message.createdAt := by
  have habove := (hok.above p hp).2
  cases hstored : c.stored with
  | none =>
    rw [← hok.stored, hstored] at ht
    obtain ⟨row, hrow, t', ht', hle⟩ := ht
    obtain ⟨boundary, hretired, hle'⟩ := le_retiredAt hrow ht'
    rw [hboundary hstored, hretired] at habove
    have hlt : boundary < p.message.createdAt := habove
    exact lt_of_le_of_lt (hle.trans hle') hlt
  | some cursor =>
    have hcursor : c.cursor = some cursor := by
      rcases hok.fromStored with heq | ⟨hnone, -⟩
      · exact heq.trans hstored
      · exact absurd (hstored.symm.trans hnone) (Option.some_ne_none _)
    rw [← hok.stored, hstored] at ht
    rw [hcursor] at habove
    cases cursor with
    | afterTime t' => exact lt_of_le_of_lt ht habove
    | position id t' offset count => exact lt_of_lt_of_le ht (createdAt_of_above habove)

/-- The text behind the summary that a compaction stores. -/
theorem mem_sourcesWith {existing : Option MemorySummary} {id : UUID} {summary : String}
    {now : Instant} {p : Piece}
    (hactive : ∀ row, existing = some row → row ∈ w.summaries.rows ∧ row.validTo = none)
    (hp : p ∈ w.sourcesWith existing c.batch) :
    p ∈ c.batch ∨ p ∈ w.sources (storedRow existing id summary now).id ∧
      ∃ row ∈ w.summaries.rows, row.validTo = none ∧
        row.id = (storedRow existing id summary now).id := by
  rcases List.mem_append.mp hp with hp | hp
  · cases existing with
    | none => cases hp
    | some row =>
      obtain ⟨hrow, hvalid⟩ := hactive row rfl
      exact .inr ⟨hp, row, hrow, hvalid, rfl⟩
  · exact .inl hp

end Batch

theorem Guarded.store {w : MemoryWorld} (h : w.Guarded) {i : ℕ} {c : Compaction}
    {existing : Option MemorySummary} {id : UUID} {summary : String} {now : Instant}
    {summaries : Table MemorySummary} (hok : c.Ok w.cursor w.messages.rows)
    (hactive : ∀ row, existing = some row → row ∈ w.summaries.rows ∧ row.validTo = none)
    (hboundary : c.stored = none → c.cursor = (retiredAt w.summaries).map .afterTime)
    (hrow : storeRow w.summaries existing (storedRow existing id summary now) = some summaries) :
    (w.commitSummary i c existing (storedRow existing id summary now) summaries).Guarded := by
  set row := storedRow existing id summary now with hdef
  have hmem : ∀ p ∈ w.sourcesWith existing c.batch, p ∈ c.batch ∨ p ∈ w.sources row.id ∧
      ∃ old ∈ w.summaries.rows, old.validTo = none ∧ old.id = row.id :=
    fun p hp => mem_sourcesWith hactive hp
  have hapart : ∀ f ∈ w.forgotten, ∀ p ∈ w.sourcesWith existing c.batch, ∀ q ∈ f.sources,
      Apart p q := by
    intro f hf p hp q hq
    rcases hmem p hp with hp | ⟨hp, old, hold, hvalid, hid⟩
    · obtain ⟨hm, hbelow⟩ := h.forgotten f hf q hq
      exact (apart_batch hok hp hm hbelow).symm
    · exact h.activeApart old hold hvalid f hf p (hid ▸ hp) q hq
  have hlater : ∀ f ∈ w.forgotten, ∀ t, f.withoutCursor = some t →
      ∀ p ∈ w.sourcesWith existing c.batch, t < p.message.createdAt := by
    intro f hf t ht p hp
    rcases hmem p hp with hp | ⟨hp, -⟩
    · exact guards_batch hok hboundary (h.guards f hf t ht) hp
    · exact h.later f hf t ht row.id p hp
  have hother : ∀ id', id' ≠ row.id → ∀ p ∈ w.sourcesWith existing c.batch,
      ∀ q ∈ w.sources id', Apart p q := by
    intro id' hne p hp q hq
    rcases hmem p hp with hp | ⟨hp, -⟩
    · obtain ⟨hm, hbelow⟩ := h.sources id' q hq
      exact (apart_batch hok hp hm hbelow).symm
    · exact h.sourcesApart row.id id' hne.symm p hp q hq
  have hsame : ∀ id', id' ≠ row.id → (w.commitSummary i c existing row summaries).sources id' =
      w.sources id' := fun id' hne => Function.update_of_ne hne _ _
  have hnew : (w.commitSummary i c existing row summaries).sources row.id =
      w.sourcesWith existing c.batch := Function.update_self _ _ _
  constructor
  case sources =>
    intro id' p hp
    by_cases hid : id' = row.id
    · rw [hid, hnew] at hp
      rcases hmem p hp with hp | ⟨hp, -⟩
      · exact ⟨(hok.above p hp).1, below_next hok (.inr hp)⟩
      · obtain ⟨hm, hbelow⟩ := h.sources row.id p hp
        exact ⟨hm, below_next hok (.inl hbelow)⟩
    · rw [hsame id' hid] at hp
      obtain ⟨hm, hbelow⟩ := h.sources id' p hp
      exact ⟨hm, below_next hok (.inl hbelow)⟩
  case forgotten =>
    intro f hf p hp
    obtain ⟨hm, hbelow⟩ := h.forgotten f hf p hp
    exact ⟨hm, below_next hok (.inl hbelow)⟩
  case activeApart =>
    intro x hx hvalid f hf p hp q hq
    by_cases hid : x.id = row.id
    · rw [hid, hnew] at hp
      exact hapart f hf p hp q hq
    · rw [hsame x.id hid] at hp
      rcases mem_storeRow hrow hx with rfl | ⟨hx, -⟩
      · exact absurd rfl hid
      · exact h.activeApart x hx hvalid f hf p hp q hq
  case sourcesApart =>
    intro id₁ id₂ hne p hp q hq
    by_cases h₁ : id₁ = row.id
    · subst h₁
      rw [hnew] at hp
      rw [hsame id₂ hne.symm] at hq
      exact hother id₂ hne.symm p hp q hq
    · rw [hsame id₁ h₁] at hp
      by_cases h₂ : id₂ = row.id
      · rw [h₂, hnew] at hq
        exact (hother id₁ h₁ q hq p hp).symm
      · rw [hsame id₂ h₂] at hq
        exact h.sourcesApart id₁ id₂ hne p hp q hq
  case later =>
    intro f hf t ht id' p hp
    by_cases hid : id' = row.id
    · rw [hid, hnew] at hp
      exact hlater f hf t ht p hp
    · rw [hsame id' hid] at hp
      exact h.later f hf t ht id' p hp
  case guards =>
    intro f hf t ht
    obtain ⟨p, hp, ⟨offset, count, hends, -⟩, -⟩ := hok.next
    show Guards summaries c.next t
    rw [hends]
    exact guards_batch hok hboundary (h.guards f hf t ht) hp
  case stays =>
    intro s hs f hf
    rcases List.mem_append.mp hs with hs | hs
    · exact h.stays s hs f hf
    · rw [List.mem_singleton.mp hs] at hf ⊢
      exact ⟨hapart f hf, fun t ht => hlater f hf t ht⟩

theorem Guarded.commitDisable {w : MemoryWorld} (h : w.Guarded) {row : MemorySummary}
    {t : Instant} (now : Instant) (hrow : row ∈ w.summaries.rows)
    (horder : w.cursor = none → ∀ t', row.validTo = some t' → t' ≤ t) :
    ({ w with
        summaries := w.summaries.write { row with validTo := some t, updatedAt := now }
        forgotten := w.forgotten ++
          [⟨w.sources row.id, if w.cursor.isNone then some t else none⟩] } :
      MemoryWorld).Guarded := by
  have hcases : ∀ f ∈ w.forgotten ++
      [⟨w.sources row.id, if w.cursor.isNone then some t else none⟩], f ∈ w.forgotten ∨
        (f.sources = w.sources row.id ∧ ∀ t', f.withoutCursor = some t' →
          w.cursor = none ∧ t' = t) := by
    intro f hf
    refine (List.mem_append.mp hf).imp_right fun hf => ?_
    rw [List.mem_singleton.mp hf]
    refine ⟨rfl, fun t' ht' => ?_⟩
    cases hcursor : w.cursor with
    | none => exact ⟨rfl, by simpa [hcursor] using ht'.symm⟩
    | some _ => simp [hcursor] at ht'
  constructor
  case sources => exact h.sources
  case forgotten =>
    intro f hf p hp
    rcases hcases f hf with hf | ⟨hsources, -⟩
    · exact h.forgotten f hf p hp
    · exact h.sources row.id p (hsources ▸ hp)
  case activeApart =>
    intro x hx hvalid f hf p hp q hq
    rcases Table.of_mem_write hx with rfl | ⟨hx, hne⟩
    · cases hvalid
    · rcases hcases f hf with hf | ⟨hsources, -⟩
      · exact h.activeApart x hx hvalid f hf p hp q hq
      · exact h.sourcesApart x.id row.id hne p hp q (hsources ▸ hq)
  case sourcesApart => exact h.sourcesApart
  case later =>
    intro f hf t' ht' id p hp
    rcases hcases f hf with hf | ⟨-, hnone⟩
    · exact h.later f hf t' ht' id p hp
    · have hp : p ∈ w.sources id := hp
      rw [h.sources_eq_nil (hnone t' ht').1 id] at hp
      cases hp
  case guards =>
    intro f hf t' ht'
    have hwritten : { row with validTo := some t, updatedAt := now } ∈
        (w.summaries.write { row with validTo := some t, updatedAt := now }).rows :=
      Table.mem_update.mpr ⟨row, hrow, if_pos rfl⟩
    show Guards (w.summaries.write { row with validTo := some t, updatedAt := now }) w.cursor t'
    rcases hcases f hf with hf | ⟨-, hnone⟩
    · have hguard := h.guards f hf t' ht'
      cases hcursor : w.cursor with
      | none =>
        rw [hcursor] at hguard
        obtain ⟨old, hold, t'', ht'', hle⟩ := hguard
        by_cases hid : old.id = row.id
        · cases Table.eq_of_key hold hrow hid
          exact ⟨_, hwritten, t, rfl, hle.trans (horder hcursor t'' ht'')⟩
        · exact ⟨old, Table.mem_write_of_ne hold hid, t'', ht'', hle⟩
      | some cursor =>
        rw [hcursor] at hguard
        cases cursor <;> exact hguard
    · obtain ⟨hcursor, rfl⟩ := hnone t' ht'
      rw [hcursor]
      exact ⟨_, hwritten, t', rfl, le_rfl⟩
  case stays => exact h.stays

theorem Guarded.commitDelete {w : MemoryWorld} (h : w.Guarded) (id : UUID) {t : Instant}
    (horder : w.cursor = none → ∀ t', retiredAt w.summaries = some t' → t' ≤ t) :
    ({ w with
        cursor := if w.cursor.isNone then some (.afterTime t) else w.cursor
        summaries := w.summaries.delete id
        forgotten := w.forgotten ++
          [⟨w.sources id, if w.cursor.isNone then some t else none⟩] } : MemoryWorld).Guarded := by
  have hcases : ∀ f ∈ w.forgotten ++ [⟨w.sources id, if w.cursor.isNone then some t else none⟩],
      f ∈ w.forgotten ∨ f = ⟨w.sources id, if w.cursor.isNone then some t else none⟩ :=
    fun f hf => (List.mem_append.mp hf).imp_right List.mem_singleton.mp
  have hbelow : ∀ p, Below w.cursor p →
      Below (if w.cursor.isNone then some (.afterTime t) else w.cursor) p := by
    intro p hp
    cases hcursor : w.cursor with
    | none =>
      rw [hcursor] at hp
      exact hp.elim
    | some _ => simpa [hcursor] using hp
  constructor
  case sources => exact fun id' p hp => (h.sources id' p hp).imp_right (hbelow p)
  case forgotten =>
    intro f hf p hp
    rcases hcases f hf with hf | rfl
    · exact (h.forgotten f hf p hp).imp_right (hbelow p)
    · exact (h.sources id p hp).imp_right (hbelow p)
  case activeApart =>
    intro x hx hvalid f hf p hp q hq
    obtain ⟨hx, hne⟩ := Table.mem_delete.mp hx
    rcases hcases f hf with hf | rfl
    · exact h.activeApart x hx hvalid f hf p hp q hq
    · exact h.sourcesApart x.id id hne p hp q hq
  case sourcesApart => exact h.sourcesApart
  case later =>
    intro f hf t' ht' id' p hp
    rcases hcases f hf with hf | rfl
    · exact h.later f hf t' ht' id' p hp
    · cases hcursor : w.cursor with
      | none =>
        have hp : p ∈ w.sources id' := hp
        rw [h.sources_eq_nil hcursor id'] at hp
        cases hp
      | some _ => simp [hcursor] at ht'
  case guards =>
    intro f hf t' ht'
    show Guards _ (if w.cursor.isNone then some (.afterTime t) else w.cursor) t'
    cases hcursor : w.cursor with
    | none =>
      show t' ≤ t
      rcases hcases f hf with hf | rfl
      · have hguard := h.guards f hf t' ht'
        rw [hcursor] at hguard
        obtain ⟨row, hrow, t'', ht'', hle⟩ := hguard
        obtain ⟨boundary, hretired, hle'⟩ := le_retiredAt hrow ht''
        exact (hle.trans hle').trans (horder hcursor boundary hretired)
      · have heq : t = t' := by simpa [hcursor] using ht'
        exact heq.ge
    | some cursor =>
      rcases hcases f hf with hf | rfl
      · have hguard := h.guards f hf t' ht'
        rw [hcursor] at hguard
        cases cursor <;> exact hguard
      · simp [hcursor] at ht'
  case stays => exact h.stays

theorem Guarded.step {leaks : String → Bool} {w w' : MemoryWorld} (h : w.Guarded)
    (hc : w.Consistent) {e : MemoryEvent} (hstep : Step leaks w e w')
    (hok : Undisturbed leaks w e) : w'.Guarded := by
  cases hstep with
  | append hinsert =>
    have hsub : w.messages.rows ⊆ _ := Table.rows_insert? hinsert ▸ List.subset_append_left _ _
    exact { h with
      sources := fun id p hp => (h.sources id p hp).imp_left (hsub ·)
      forgotten := fun f hf p hp => (h.forgotten f hf p hp).imp_left (hsub ·) }
  | store hi hreply hrow =>
    obtain ⟨hcompaction, hactive⟩ := hc.session hi
    exact h.store hcompaction hactive (hok hreply _ _ hi) hrow
  | @commitDisable i row t now hi hrow =>
    have hmem := (Table.get?_eq_some.mp hrow).1
    exact { h.commitDisable now hmem fun hnone t' ht' =>
      hok hnone _ _ hi row hrow t' ht' with }
  | @commitDelete i id stored t hi =>
    have hstored : stored = w.cursor := hc.session hi
    subst hstored
    exact { h.commitDelete id fun hnone t' ht' =>
      hok id t (hnone ▸ hi) t' ht' with }
  | _ => exact { h with }

/-- In every run whose steps leave the boundary of a conversation without a cursor in force,
forgotten memory stays forgotten. -/
theorem forgottenStays_of_undisturbed (leaks : String → Bool) {w₀ w : MemoryWorld}
    (h₀ : w₀.Initial)
    (h : Transition.Reaches (Transition.Restrict (Step leaks) (Undisturbed leaks)) w₀ w) :
    w.ForgottenStays := by
  have hconsistent : ∀ u, Transition.Reaches (Transition.Restrict (Step leaks)
      (Undisturbed leaks)) w₀ u → u.Consistent := fun u hu =>
    Consistent.of_reaches hu.of_restrict
      (Consistent.of_empty h₀.sessions fun _ _ _ _ => by simp [h₀.cursor])
  have hguarded : w.Guarded := h.invariant_of hconsistent h₀.guarded
    fun _ _ _ hc hg hstep => hg.step hc hstep.1 hstep.2
  exact hguarded.stays

/-- A message at `1` and a summary from before cursors. -/
def legacySample : MemoryWorld where
  userId := some 1
  messages := ⟨[⟨10, 2, .user, "old", none, 1, .empty⟩], by decide⟩
  cursor := none
  summaries := ⟨[⟨7, "facts", none, 0⟩], by decide⟩
  sessions := []
  consumed := []
  sources := fun _ => []
  forgotten := []
  stored := []

theorem initial_legacySample : legacySample.Initial :=
  ⟨rfl, rfl, rfl, fun _ => rfl, rfl, rfl⟩

/-- The summary of the sample, disabled at `5`. -/
def retiredSample : MemoryWorld :=
  { legacySample with
    summaries := ⟨[⟨7, "facts", some 5, 5⟩], by decide⟩
    forgotten := [⟨[], some 5⟩] }

def sampleSettings : MemorySettings := ⟨0, 1000⟩

def sampleCompaction : Compaction := legacySample.compaction sampleSettings none none

theorem batch_sampleCompaction : sampleCompaction.batch ≠ [] :=
  List.isEmpty_eq_false_iff.mp rfl

/-- The compaction has read the messages when the summary is disabled, and stores them. -/
theorem not_forgottenStays_legacySample : ∃ w, Transition.Reaches (Step fun _ => false)
    legacySample w ∧ ¬ w.ForgottenStays := by
  have hupdate : Step (fun _ => false) legacySample (.update (some 1) sampleSettings)
      { legacySample with sessions := [.locked sampleSettings none] } :=
    .update (by simp [Unlocked, legacySample])
  have hboundary : Step (fun _ => false)
      { legacySample with sessions := [.locked sampleSettings none] } (.readBoundary 0)
      { legacySample with sessions := [.bounded sampleSettings none none] } := .readBoundary rfl
  have hmessages : Step (fun _ => false)
      { legacySample with sessions := [.bounded sampleSettings none none] } (.readMessages 0)
      { legacySample with sessions := [.loaded sampleCompaction] } :=
    step_readMessages (w := { legacySample with sessions := [.bounded sampleSettings none none] })
      rfl rfl batch_sampleCompaction
  have hdisable : Step (fun _ => false)
      { legacySample with sessions := [.loaded sampleCompaction] } (.disable 1 7)
      { legacySample with sessions := [.loaded sampleCompaction, .disabling 7 none] } :=
    @Step.disable _ _ 1 ⟨7, "facts", none, 0⟩ rfl rfl
  have hstamp : Step (fun _ => false)
      { legacySample with sessions := [.loaded sampleCompaction, .disabling 7 none] }
      (.stamp 1 5)
      { legacySample with sessions := [.loaded sampleCompaction, .stamped 7 5] } :=
    .stamp rfl
  have hretire : Step (fun _ => false)
      { legacySample with sessions := [.loaded sampleCompaction, .stamped 7 5] } (.retire 1)
      { legacySample with sessions := [.loaded sampleCompaction, .retiring 7 5] } :=
    .retire rfl rfl (by simp [SummaryFree, MemorySession.lockedSummary])
  have hcommit : Step (fun _ => false)
      { legacySample with sessions := [.loaded sampleCompaction, .retiring 7 5] }
      (.commitDisable 1 5)
      { retiredSample with sessions := [.loaded sampleCompaction, .ended] } :=
    @Step.commitDisable _ _ _ ⟨7, "facts", none, 0⟩ 5 5 rfl rfl
  have hsummary : Step (fun _ => false)
      { retiredSample with sessions := [.loaded sampleCompaction, .ended] } (.readSummary 0)
      { retiredSample with sessions := [.summarising sampleCompaction none, .ended] } :=
    .readSummary rfl fun s hs => by cases hs
  have hreply : Step (fun _ => false)
      { retiredSample with sessions := [.summarising sampleCompaction none, .ended] }
      (.reply 0 (some "old") 8 6) _ := .store rfl (by decide) rfl
  have hrun := (((((((((Transition.Reaches.refl legacySample).tail hupdate).tail hboundary).tail
    hmessages).tail hdisable).tail hstamp).tail hretire).tail hcommit).tail hsummary).tail hreply
  refine ⟨_, hrun, fun hstays => ?_⟩
  have hlate := (hstays ⟨sampleCompaction.batch, [⟨[], some 5⟩]⟩
    (List.mem_singleton_self _) ⟨[], some 5⟩ (List.mem_singleton_self _)).2 5 rfl
  have hold : ∃ p ∈ sampleCompaction.batch, p.message.createdAt = 1 :=
    ⟨_, List.mem_cons_self, rfl⟩
  obtain ⟨p, hp, ht⟩ := hold
  have hlt := hlate p hp
  rw [ht] at hlt
  exact absurd hlt (by decide)

/-- The same sample, with a message at `9` that comes after the summary is disabled. -/
def laterSample : MemoryWorld :=
  { retiredSample with
    messages := ⟨[⟨10, 2, .user, "old", none, 1, .empty⟩, ⟨11, 2, .user, "new", none, 9, .empty⟩],
      by decide⟩ }

def laterCompaction : Compaction :=
  laterSample.compaction sampleSettings none (some (.afterTime 5))

theorem batch_laterCompaction : laterCompaction.batch ≠ [] :=
  List.isEmpty_eq_false_iff.mp rfl

/-- A compaction that begins after the summary was disabled stores the later message. -/
theorem forgottenStays_laterSample : ∃ w : MemoryWorld, w.stored ≠ [] ∧ w.ForgottenStays := by
  have hdisable : Step (fun _ => false) legacySample (.disable 1 7)
      { legacySample with sessions := [.disabling 7 none] } :=
    @Step.disable _ _ 1 ⟨7, "facts", none, 0⟩ rfl rfl
  have hstamp : Step (fun _ => false) { legacySample with sessions := [.disabling 7 none] }
      (.stamp 0 5) { legacySample with sessions := [.stamped 7 5] } := .stamp rfl
  have hretire : Step (fun _ => false) { legacySample with sessions := [.stamped 7 5] } (.retire 0)
      { legacySample with sessions := [.retiring 7 5] } :=
    .retire rfl rfl (by simp [SummaryFree, MemorySession.lockedSummary])
  have hcommit : Step (fun _ => false) { legacySample with sessions := [.retiring 7 5] }
      (.commitDisable 0 5) { retiredSample with sessions := [.ended] } :=
    @Step.commitDisable _ _ _ ⟨7, "facts", none, 0⟩ 5 5 rfl rfl
  have happend : Step (fun _ => false) { retiredSample with sessions := [.ended] }
      (.append ⟨11, 2, .user, "new", none, 9, .empty⟩)
      { laterSample with sessions := [.ended] } := .append rfl
  have hupdate : Step (fun _ => false) { laterSample with sessions := [.ended] }
      (.update (some 1) sampleSettings)
      { laterSample with sessions := [.ended, .locked sampleSettings none] } :=
    .update (by simp [Unlocked, MemorySession.holdsConversation])
  have hboundary : Step (fun _ => false)
      { laterSample with sessions := [.ended, .locked sampleSettings none] } (.readBoundary 1)
      { laterSample with
        sessions := [.ended, .bounded sampleSettings none (some (.afterTime 5))] } :=
    .readBoundary rfl
  have hmessages : Step (fun _ => false)
      { laterSample with
        sessions := [.ended, .bounded sampleSettings none (some (.afterTime 5))] }
      (.readMessages 1)
      { laterSample with sessions := [.ended, .loaded laterCompaction] } :=
    step_readMessages (w := { laterSample with
      sessions := [.ended, .bounded sampleSettings none (some (.afterTime 5))] })
      rfl rfl batch_laterCompaction
  have hsummary : Step (fun _ => false)
      { laterSample with sessions := [.ended, .loaded laterCompaction] } (.readSummary 1)
      { laterSample with sessions := [.ended, .summarising laterCompaction none] } :=
    .readSummary rfl fun s hs => by cases hs
  have hreply : Step (fun _ => false)
      { laterSample with sessions := [.ended, .summarising laterCompaction none] }
      (.reply 1 (some "new") 8 10) _ := .store rfl (by decide) rfl
  refine ⟨_, ?_, forgottenStays_of_undisturbed (fun _ => false) initial_legacySample
    (((((((((((Transition.Reaches.refl legacySample).tail ⟨hdisable, trivial⟩).tail
      ⟨hstamp, trivial⟩).tail ⟨hretire, trivial⟩).tail ⟨hcommit, ?_⟩).tail
      ⟨happend, trivial⟩).tail ⟨hupdate, trivial⟩).tail ⟨hboundary, trivial⟩).tail
      ⟨hmessages, trivial⟩).tail ⟨hsummary, trivial⟩).tail ⟨hreply, ?_⟩)⟩
  · exact List.append_ne_nil_of_right_ne_nil _ (List.cons_ne_nil _ _)
  · intro _ c existing hi _
    cases hi
    rfl
  · intro _ id t hi row hrow t' ht'
    cases hi
    cases hrow
    cases ht'

end MemoryWorld

end AgentDemo
