import AgentDemo.System.MemorySessions

/-! Compactions consume the history of a conversation once: the cursor as a place in the history,
the batch as the text up to the next place. -/
namespace AgentDemo

/-- The history that compactions read, for conversations that start with a boundary. -/
def history (boundary : Option Instant) (messages : List Message) : List Message :=
  (eligible messages).filter fun m => boundary.all fun t => t < m.createdAt

/-- How many characters of `m` come before the cursor. -/
def MemoryCursor.read (cursor : Option MemoryCursor) (m : Message) : ℕ :=
  match cursor with
  | some (.position id t offset _) =>
    if m.position < tuplePosition t id then m.content.toList.length
    else if m.position = tuplePosition t id then
      if offset = 0 then m.content.toList.length else offset
    else 0
  | _ => 0

def textBefore (cursor : Option MemoryCursor) (messages : List Message) : List Char :=
  messages.flatMap fun m => m.content.toList.take (MemoryCursor.read cursor m)

def fullyConsumed (cursor : Option MemoryCursor) (messages : List Message) : List Message :=
  messages.filter fun m => MemoryCursor.read cursor m = m.content.toList.length

def MemoryCursor.isPosition : Option MemoryCursor → Bool
  | some (.position _ _ _ _) => true
  | _ => false

/-- The cursor stands before `rest`, of whose first message `read` characters are consumed. -/
inductive CursorAt : Option MemoryCursor → List Message → List Message → ℕ → Prop where
  | start {cursor : Option MemoryCursor} {rest : List Message}
      (h : MemoryCursor.isPosition cursor = false) : CursorAt cursor [] rest 0
  | complete {done rest : List Message} {m : Message} :
      CursorAt (some (.position m.id m.createdAt 0 (done.length + 1))) (done ++ [m]) rest 0
  | inside {done rest : List Message} {m : Message} {offset : ℕ} (hpos : offset ≠ 0)
      (hlt : offset < m.content.toList.length) :
      CursorAt (some (.position m.id m.createdAt offset done.length)) done (m :: rest) offset

def Message.text (m : Message) : List Char := m.content.toList

def textUpTo (done rest : List Message) (offset : ℕ) : List Char :=
  done.flatMap Message.text ++ (rest.head?.elim [] Message.text).take offset

namespace CursorAt

variable {cursor : Option MemoryCursor} {done rest : List Message} {offset : ℕ}

theorem messageCount? (h : CursorAt cursor done rest offset) :
    MemoryCursor.messageCount? cursor = done.length := by
  cases h with
  | start h =>
    match cursor, h with
    | none, _ => rfl
    | some (.afterTime _), _ => rfl
  | complete => simp [MemoryCursor.messageCount?]
  | inside => rfl

theorem append (h : CursorAt cursor done rest offset) (more : List Message) :
    CursorAt cursor done (rest ++ more) offset := by
  cases h with
  | start h => exact .start h
  | complete => exact .complete
  | inside hpos hlt => exact .inside hpos hlt

theorem textUpTo_append (h : CursorAt cursor done rest offset) (more : List Message) :
    textUpTo done (rest ++ more) offset = textUpTo done rest offset := by
  cases h <;> simp [textUpTo]

/-- The cursor of the selection stands where the stored one stands. -/
theorem fromStored {cursor' : Option MemoryCursor} (h : CursorAt cursor done rest offset)
    (hfrom : FromStored cursor cursor') : CursorAt cursor' done rest offset := by
  rcases hfrom with rfl | ⟨rfl, t, rfl⟩
  · exact h
  · cases h
    exact .start rfl

/-- A position belongs to a message of the history. -/
theorem message (h : CursorAt cursor done rest offset)
    (hposition : MemoryCursor.isPosition cursor = true) :
    ∃ m ∈ done ++ rest, ∃ offset' count,
      cursor = some (.position m.id m.createdAt offset' count) := by
  cases h with
  | start hstart => rw [hstart] at hposition; cases hposition
  | @complete d _ m => exact ⟨m, by simp, _, _, rfl⟩
  | @inside _ r m => exact ⟨m, by simp, _, _, rfl⟩

end CursorAt

/-- A piece that starts where the cursor stands moves it on by its text. -/
theorem cursorAt_cursorAfter {next : Option MemoryCursor} {done rest : List Message} {m : Message}
    {p : Piece} (h : CursorAt next done (m :: rest) p.start) (hmessage : p.message = m)
    (hne : p.content ≠ []) (hcontent : p.content <+: m.text.drop p.start) :
    CursorAt (some (cursorAfter next p)) (if p.Complete then done ++ [m] else done)
        (if p.Complete then rest else m :: rest) (if p.Complete then 0 else p.stop) ∧
      textUpTo done (m :: rest) p.start ++ p.content =
        textUpTo (if p.Complete then done ++ [m] else done)
          (if p.Complete then rest else m :: rest) (if p.Complete then 0 else p.stop) := by
  subst hmessage
  obtain ⟨tail, htail⟩ := hcontent
  have hlen : p.content.length + tail.length = p.message.text.length - p.start := by
    rw [← List.length_append, htail, List.length_drop]
  have hpos : 0 < p.content.length := List.length_pos_iff.mpr hne
  have hstop : p.stop = p.start + p.content.length := rfl
  have htext : p.message.text.take p.start ++ p.content = p.message.text.take p.stop := by
    rw [hstop, List.take_add, ← htail, List.take_left]
  by_cases hc : p.Complete
  · have hfull : p.stop = p.message.text.length := hc
    simp only [hc, if_true, cursorAfter, h.messageCount?]
    refine ⟨.complete, ?_⟩
    rw [hfull, List.take_length] at htext
    simp [textUpTo, htext]
  · have hpart : p.stop ≠ p.message.text.length := hc
    simp only [hc, if_false, cursorAfter, h.messageCount?, Nat.add_zero]
    refine ⟨.inside (by omega) ?_, ?_⟩
    · show p.stop < p.message.text.length
      omega
    · simp [textUpTo, htext]

/-- A piece that does not go to the end of its message uses up what remains. -/
theorem remaining_pieceOf {cursor : Option MemoryCursor} {remaining : ℕ} {m : Message}
    (hle : MemoryCursor.offset? cursor m ≤ m.text.length)
    (hc : ¬ (pieceOf cursor remaining m).Complete) :
    remaining - (pieceOf cursor remaining m).content.length = 0 := by
  have hne : MemoryCursor.offset? cursor m + (pieceOf cursor remaining m).content.length ≠
      m.text.length := hc
  have hlen : (pieceOf cursor remaining m).content.length =
      min remaining (m.text.length - MemoryCursor.offset? cursor m) := by
    simp [pieceOf, Message.text]
  omega

theorem offset_le {cursor : Option MemoryCursor} {done rest : List Message} {m : Message}
    {offset : ℕ} (h : CursorAt cursor done (m :: rest) offset) : offset ≤ m.text.length := by
  cases h with
  | start => exact Nat.zero_le _
  | complete => exact Nat.zero_le _
  | inside _ hlt => exact hlt.le

/-- The batch is the text between the place of the cursor and the place of the next one. -/
theorem batchFrom_text {cursor next next' : Option MemoryCursor}
    {messages done rest : List Message} {offset remaining : ℕ} {batch : List Piece}
    (hat : CursorAt next done rest offset) (hpre : messages <+: rest)
    (hhead : ∀ m ∈ rest.head?, MemoryCursor.offset? cursor m = offset)
    (htail : ∀ m ∈ rest.tail, MemoryCursor.offset? cursor m = 0)
    (hbatch : batchFrom cursor messages remaining next = (batch, next')) :
    ∃ done' rest' offset', done' ++ rest' = done ++ rest ∧ CursorAt next' done' rest' offset' ∧
      textUpTo done rest offset ++ batch.flatMap Piece.content =
        textUpTo done' rest' offset' := by
  induction messages generalizing next done rest offset remaining batch with
  | nil =>
    cases hbatch
    exact ⟨done, rest, offset, rfl, hat, by simp⟩
  | cons m messages ih =>
    obtain ⟨more, rfl⟩ := hpre
    have hoffset : MemoryCursor.offset? cursor m = offset := hhead m rfl
    simp only [batchFrom] at hbatch
    split at hbatch
    · cases hbatch
      exact ⟨done, _, offset, rfl, hat, by simp⟩
    rename_i hne
    have hat' :
      CursorAt next done (m :: (messages ++ more)) (pieceOf cursor remaining m).start := by
      rw [pieceOf, hoffset]
      exact hat
    obtain ⟨hafter, htext⟩ := cursorAt_cursorAfter hat' rfl hne
      (List.take_prefix remaining _)
    have hsplit : (if (pieceOf cursor remaining m).Complete then done ++ [m] else done) ++
        (if (pieceOf cursor remaining m).Complete then messages ++ more
          else m :: (messages ++ more)) = done ++ (m :: messages ++ more) := by
      split_ifs <;> simp
    have hstart : (pieceOf cursor remaining m).start = offset := hoffset
    rw [hstart] at htext
    split at hbatch
    · cases hbatch
      refine ⟨_, _, _, hsplit, hafter, ?_⟩
      simpa using htext
    · rename_i hmore
      have hc : (pieceOf cursor remaining m).Complete := by
        by_contra hc
        exact hmore (remaining_pieceOf (hoffset ▸ offset_le hat) hc)
      simp only [hc, if_true] at hafter htext hsplit
      cases hrest : batchFrom cursor messages
          (remaining - (pieceOf cursor remaining m).content.length)
          (some (cursorAfter next (pieceOf cursor remaining m))) with
      | mk batch' next'' =>
        rw [hrest] at hbatch
        cases hbatch
        obtain ⟨done', rest', offset', heq, hplace, hbefore⟩ := ih hafter
          (List.prefix_append _ _) (fun m' hm' => htail m' (List.mem_of_mem_head? hm'))
          (fun m' hm' => htail m' (List.mem_of_mem_tail hm')) hrest
        refine ⟨done', rest', offset', heq.trans hsplit, hplace, ?_⟩
        rw [← hbefore, ← htext]
        simp

section Place

variable {cursor : Option MemoryCursor} {done rest : List Message} {offset : ℕ}

theorem read_of_not_isPosition (h : MemoryCursor.isPosition cursor = false) (m : Message) :
    MemoryCursor.read cursor m = 0 := by
  match cursor, h with
  | none, _ => rfl
  | some (.afterTime _), _ => rfl

theorem offset?_of_not_isPosition (h : MemoryCursor.isPosition cursor = false) (m : Message) :
    MemoryCursor.offset? cursor m = 0 := by
  match cursor, h with
  | none, _ => rfl
  | some (.afterTime _), _ => rfl

theorem read_before {m m₀ : Message} (h : Precedes m m₀) (offset count : ℕ) :
    MemoryCursor.read (some (.position m₀.id m₀.createdAt offset count)) m = m.text.length :=
  if_pos h

theorem read_at (m : Message) (offset count : ℕ) :
    MemoryCursor.read (some (.position m.id m.createdAt offset count)) m =
      if offset = 0 then m.text.length else offset :=
  (if_neg (lt_irrefl m.position)).trans (if_pos rfl)

theorem read_behind {m m₀ : Message} (h : Precedes m₀ m) (offset count : ℕ) :
    MemoryCursor.read (some (.position m₀.id m₀.createdAt offset count)) m = 0 :=
  (if_neg (lt_asymm h)).trans (if_neg (ne_of_gt h))

/-- What is read of the messages in front of a place, at it and behind it. -/
theorem read_of_cursorAt (h : CursorAt cursor done rest offset)
    (hsorted : (done ++ rest).Pairwise Precedes) :
    (∀ m ∈ done, MemoryCursor.read cursor m = m.text.length) ∧
      (∀ m ∈ rest.head?, MemoryCursor.read cursor m = offset) ∧
      ∀ m ∈ rest.tail, MemoryCursor.read cursor m = 0 := by
  obtain ⟨hdone, hrest, hacross⟩ := List.pairwise_append.mp hsorted
  cases h with
  | start hstart =>
    refine ⟨by simp, fun m _ => ?_, fun m _ => ?_⟩
    · exact read_of_not_isPosition hstart m
    · exact read_of_not_isPosition hstart m
  | @complete d _ m₀ =>
    obtain ⟨-, -, hlast⟩ := List.pairwise_append.mp hdone
    have hm₀ : m₀ ∈ d ++ [m₀] := List.mem_append_right _ (List.mem_singleton_self _)
    refine ⟨fun m hm => ?_, fun m hm => ?_, fun m hm => ?_⟩
    · rcases List.mem_append.mp hm with hm | hm
      · exact read_before (hlast m hm m₀ (List.mem_singleton_self _)) _ _
      · rw [List.mem_singleton.mp hm, read_at, if_pos rfl]
    · exact read_behind (hacross m₀ hm₀ m (List.mem_of_mem_head? hm)) _ _
    · exact read_behind (hacross m₀ hm₀ m (List.mem_of_mem_tail hm)) _ _
  | @inside _ r m₀ _ hpos hlt =>
    refine ⟨fun m hm => ?_, fun m hm => ?_, fun m hm => ?_⟩
    · exact read_before (hacross m hm m₀ List.mem_cons_self) _ _
    · cases hm
      rw [read_at, if_neg hpos]
    · exact read_behind (List.rel_of_pairwise_cons hrest hm) _ _

/-- The selection finds what is behind the place. -/
theorem afterCursor_of_cursorAt (h : CursorAt cursor done rest offset)
    (hsorted : (done ++ rest).Pairwise Precedes)
    (hposition : MemoryCursor.isPosition cursor = true) :
    (∀ m ∈ done, afterCursor cursor m = false) ∧ ∀ m ∈ rest, afterCursor cursor m = true := by
  obtain ⟨hdone, hrest, hacross⟩ := List.pairwise_append.mp hsorted
  cases h with
  | start hstart => rw [hstart] at hposition; cases hposition
  | @complete d _ m₀ =>
    obtain ⟨-, -, hlast⟩ := List.pairwise_append.mp hdone
    refine ⟨fun m hm => ?_, fun m hm => ?_⟩
    · refine decide_eq_false (not_lt_of_ge ?_)
      rcases List.mem_append.mp hm with hm | hm
      · exact (hlast m hm m₀ (List.mem_singleton_self _)).le
      · rw [List.mem_singleton.mp hm]
        exact le_rfl
    · exact decide_eq_true (hacross m₀ (by simp) m hm)
  | @inside _ r m₀ _ hpos hlt =>
    simp only [afterCursor, hpos, ne_eq, not_false_eq_true, if_true]
    refine ⟨fun m hm => ?_, fun m hm => ?_⟩
    · exact decide_eq_false (not_le_of_gt (hacross m hm m₀ List.mem_cons_self))
    · refine decide_eq_true ?_
      rcases List.mem_cons.mp hm with rfl | hm
      · exact le_rfl
      · exact (List.rel_of_pairwise_cons hrest hm).le

/-- Where the batch starts in the messages it is made of. -/
theorem offset?_of_cursorAt (h : CursorAt cursor done rest offset)
    (hsorted : (done ++ rest).Pairwise Precedes)
    (hids : ∀ m ∈ rest, ∀ m' ∈ rest, m.id = m'.id → m = m') :
    (∀ m ∈ rest.head?, MemoryCursor.offset? cursor m = offset) ∧
      ∀ m ∈ rest.tail, MemoryCursor.offset? cursor m = 0 := by
  cases h with
  | start hstart =>
    exact ⟨fun m _ => offset?_of_not_isPosition hstart m,
      fun m _ => offset?_of_not_isPosition hstart m⟩
  | complete => exact ⟨fun m _ => ite_self 0, fun m _ => ite_self 0⟩
  | @inside _ r m₀ _ hpos hlt =>
    refine ⟨fun m hm => ?_, fun m hm => if_neg fun hid => ?_⟩
    · cases hm
      exact if_pos rfl
    · have hrest := (List.pairwise_append.mp hsorted).2.1
      have hbehind : Precedes m₀ m := List.rel_of_pairwise_cons hrest hm
      rw [hids m (List.mem_cons_of_mem _ hm) m₀ List.mem_cons_self hid] at hbehind
      exact lt_irrefl _ hbehind

theorem textBefore_of_cursorAt (h : CursorAt cursor done rest offset)
    (hsorted : (done ++ rest).Pairwise Precedes) :
    textBefore cursor (done ++ rest) = textUpTo done rest offset := by
  obtain ⟨hdone, hhead, htail⟩ := read_of_cursorAt h hsorted
  rw [textBefore, List.flatMap_append, textUpTo]
  congr 1
  · refine List.flatMap_congr fun m hm => ?_
    rw [hdone m hm]
    exact List.take_length
  · cases rest with
    | nil => simp
    | cons m rest =>
      rw [List.flatMap_cons, hhead m rfl]
      have hnil : rest.flatMap (fun m => m.content.toList.take (MemoryCursor.read cursor m)) = [] :=
        List.flatMap_eq_nil_iff.mpr fun m hm => by rw [htail m hm, List.take_zero]
      rw [hnil, List.append_nil]
      rfl

theorem length_fullyConsumed (h : CursorAt cursor done rest offset)
    (hsorted : (done ++ rest).Pairwise Precedes) (hne : ∀ m ∈ rest, m.text ≠ []) :
    (fullyConsumed cursor (done ++ rest)).length = done.length := by
  obtain ⟨hdone, hhead, htail⟩ := read_of_cursorAt h hsorted
  have hpos : ∀ m ∈ rest, 0 < m.text.length := fun m hm => List.length_pos_iff.mpr (hne m hm)
  have hrest : ∀ m ∈ rest, MemoryCursor.read cursor m ≠ m.text.length := by
    intro m hm
    cases rest with
    | nil => cases hm
    | cons m₀ rest =>
      rcases List.mem_cons.mp hm with rfl | hm'
      · rw [hhead m rfl]
        cases h with
        | inside _ hlt => exact hlt.ne
        | start => exact (hpos m hm).ne
        | complete => exact (hpos m hm).ne
      · rw [htail m hm']
        exact (hpos m hm).ne
  rw [fullyConsumed, List.filter_append, List.filter_eq_self.mpr, List.filter_eq_nil_iff.mpr,
    List.append_nil]
  · exact fun m hm h => hrest m hm (of_decide_eq_true h)
  · exact fun m hm => decide_eq_true (hdone m hm)

end Place

theorem history_sublist (boundary : Option Instant) (messages : List Message) :
    (history boundary messages).Sublist (eligible messages) := List.filter_sublist

theorem text_ne_nil {boundary : Option Instant} {messages : List Message} {m : Message}
    (h : m ∈ history boundary messages) : m.text ≠ [] := by
  intro hnil
  have hne := (mem_eligible.mp ((history_sublist boundary messages).subset h)).2
  exact hne (String.toList_eq_nil_iff.mp hnil)

/-- A message after all others goes to the end of the history, if it goes into it. -/
theorem history_insert (boundary : Option Instant) {messages messages' : Table Message}
    {m : Message} (h : messages.insert? m = some messages')
    (hlast : ∀ m' ∈ messages.rows, Precedes m' m) :
    ∃ more, history boundary messages'.rows = history boundary messages.rows ++ more :=
  ⟨_, by rw [history, eligible_insert h hlast, List.filter_append]; rfl⟩

/-- The messages that a compaction selects are the first ones behind the place. -/
theorem sourceMessages_prefix {boundary : Option Instant} {messages : Table Message}
    {cursor : Option MemoryCursor} {done rest : List Message} {offset : ℕ}
    (hsplit : history boundary messages.rows = done ++ rest)
    (hat : CursorAt cursor done rest offset)
    (hstart : MemoryCursor.isPosition cursor = false → cursor = boundary.map .afterTime)
    (settings : MemorySettings) :
    sourceMessages settings messages.rows cursor <+: rest := by
  have hfilter : (eligible messages.rows).filter (afterCursor cursor) = rest := by
    cases hposition : MemoryCursor.isPosition cursor with
    | false =>
      have hnil : done = [] := by
        cases hat with
        | start => rfl
        | complete => cases hposition
        | inside => cases hposition
      have hcursor := hstart hposition
      rw [hnil, List.nil_append] at hsplit
      rw [hcursor, ← hsplit]
      refine List.filter_congr fun m _ => ?_
      cases boundary <;> rfl
    | true =>
      have hsorted : (done ++ rest).Pairwise Precedes :=
        hsplit ▸ (pairwise_eligible messages).sublist (history_sublist boundary _)
      obtain ⟨hdone, hrest⟩ := afterCursor_of_cursorAt hat hsorted hposition
      have hwithin : (history boundary messages.rows).filter (afterCursor cursor) = rest := by
        rw [hsplit, List.filter_append, List.filter_eq_nil_iff.mpr, List.nil_append,
          List.filter_eq_self.mpr hrest]
        exact fun m hm h => Bool.false_ne_true ((hdone m hm).symm.trans h)
      rw [← hwithin, history, List.filter_filter]
      refine List.filter_congr fun m _ => ?_
      cases hafter : afterCursor cursor m with
      | false => rfl
      | true =>
        obtain ⟨m₀, hm₀, o, n, rfl⟩ := hat.message hposition
        have hle := createdAt_le_of_position_le (position_le_of_afterCursor hafter)
        have hbound := (List.mem_filter.mp (hsplit ▸ hm₀)).2
        cases boundary with
        | none => rfl
        | some t =>
          have hlt : t < m₀.createdAt := of_decide_eq_true hbound
          exact (decide_eq_true (lt_of_lt_of_le hlt hle)).symm
  rw [← hfilter]
  exact (List.take_prefix _ _).trans ((List.take_prefix _ _).filter _)

/-- What is consumed does not belong to the newest messages. -/
theorem not_mem_recent {settings : MemorySettings} {messages : Table Message}
    {cursor : Option MemoryCursor} {m : Message}
    (h : m ∈ sourceMessages settings messages.rows cursor) :
    m ∉ recent settings messages.rows := by
  intro hrecent
  have hold := (List.mem_filter.mp (List.mem_of_mem_take h)).1
  have hsorted := pairwise_eligible messages
  rw [← List.take_append_drop ((eligible messages.rows).length -
    settings.agentMemoryMessageLimit.toNat) (eligible messages.rows)] at hsorted
  exact lt_irrefl _ ((List.pairwise_append.mp hsorted).2.2 m hold m hrecent)

theorem isPosition_sourceCursor (stored : Option MemoryCursor) (summaries : Table MemorySummary) :
    MemoryCursor.isPosition (sourceCursor stored summaries) = MemoryCursor.isPosition stored := by
  cases stored with
  | some cursor => rfl
  | none => cases h : retiredAt summaries <;> simp [sourceCursor, h, MemoryCursor.isPosition]

/-- The batch of a compaction is the text up to the place of its next cursor. -/
def Prepared (boundary : Option Instant) (messages : List Message) (consumed : List Piece)
    (c : Compaction) : Prop :=
  (∃ done rest offset, history boundary messages = done ++ rest ∧
    CursorAt c.next done rest offset ∧
      (consumed ++ c.batch).flatMap Piece.content = textUpTo done rest offset) ∧
    ∀ p ∈ c.batch, p.message ∉ recent c.settings c.present

def SessionReads (boundary : Option Instant) (messages : List Message) (consumed : List Piece) :
    MemorySession → Prop
  | .bounded _ _ cursor =>
    MemoryCursor.isPosition cursor = false → cursor = boundary.map .afterTime
  | .loaded c => Prepared boundary messages consumed c
  | .summarising c _ => Prepared boundary messages consumed c
  | _ => True

theorem sessionReads_of_not_holds {boundary : Option Instant} {messages : List Message}
    {consumed : List Piece} {s : MemorySession} (h : ¬ s.holdsConversation = true) :
    SessionReads boundary messages consumed s := by
  cases s <;> trivial

theorem Prepared.append {boundary : Option Instant} {messages messages' more : List Message}
    {consumed : List Piece} {c : Compaction} (h : Prepared boundary messages consumed c)
    (hmore : history boundary messages' = history boundary messages ++ more) :
    Prepared boundary messages' consumed c := by
  obtain ⟨⟨done, rest, offset, hsplit, hat, htext⟩, hrecent⟩ := h
  refine ⟨⟨done, rest ++ more, offset, ?_, hat.append more, ?_⟩, hrecent⟩
  · rw [hmore, hsplit, List.append_assoc]
  · rw [htext, hat.textUpTo_append]

namespace MemoryWorld

/-- Messages come in order, and no summary is disabled or deleted. -/
def Conversing (w : MemoryWorld) : MemoryEvent → Prop
  | .append m => ∀ m' ∈ w.messages.rows, Precedes m' m
  | .update _ _ => True
  | .readBoundary _ => True
  | .readMessages _ => True
  | .readSummary _ => True
  | .reply _ _ _ _ => True
  | .abort _ => True
  | _ => False

/-- A conversation before its first compaction. -/
structure Fresh (w : MemoryWorld) : Prop where
  cursor : MemoryCursor.isPosition w.cursor = false
  sessions : w.sessions = []
  consumed : w.consumed = []

/-- The boundary that a conversation starts with, if a summary has been disabled or deleted. -/
def boundary (w : MemoryWorld) : Option Instant :=
  match sourceCursor w.cursor w.summaries with
  | some (.afterTime t) => some t
  | _ => none

structure Consuming (boundary : Option Instant) (w : MemoryWorld) : Prop where
  start : MemoryCursor.isPosition w.cursor = false →
    sourceCursor w.cursor w.summaries = boundary.map .afterTime
  consumed : ∃ done rest offset, history boundary w.messages.rows = done ++ rest ∧
    CursorAt w.cursor done rest offset ∧
      w.consumed.flatMap Piece.content = textUpTo done rest offset
  sessions : ∀ s ∈ w.sessions, SessionReads boundary w.messages.rows w.consumed s

theorem Fresh.consuming {w : MemoryWorld} (h : w.Fresh) : w.Consuming w.boundary where
  start := by
    intro _
    have hposition := (isPosition_sourceCursor w.cursor w.summaries).trans h.cursor
    match hcursor : sourceCursor w.cursor w.summaries, hposition with
    | none, _ => simp [boundary, hcursor]
    | some (.afterTime t), _ => simp [boundary, hcursor]
  consumed := ⟨[], _, 0, rfl, .start h.cursor, by simp [h.consumed, textUpTo]⟩
  sessions := by simp [h.sessions]

namespace Consuming

variable {boundary : Option Instant} {w : MemoryWorld}

theorem move (h : w.Consuming boundary) (i : ℕ) {s : MemorySession}
    (hs : SessionReads boundary w.messages.rows w.consumed s) :
    (w.move i s).Consuming boundary := by
  refine ⟨h.start, h.consumed, fun u hu => ?_⟩
  rcases mem_set_cases hu with rfl | ⟨j, -, hj⟩
  · exact hs
  · exact h.sessions u (List.mem_of_getElem? hj)

/-- What a compaction selects continues the text that has been consumed. -/
theorem prepared (h : w.Consuming boundary) {settings : MemorySettings}
    {stored cursor : Option MemoryCursor} (hstored : stored = w.cursor)
    (hfrom : FromStored stored cursor)
    (hstart : MemoryCursor.isPosition cursor = false → cursor = boundary.map .afterTime) :
    Prepared boundary w.messages.rows w.consumed (w.compaction settings stored cursor) := by
  obtain ⟨done, rest, offset, hsplit, hat, htext⟩ := h.consumed
  have hat' : CursorAt cursor done rest offset := hat.fromStored (hstored ▸ hfrom)
  have hpre := sourceMessages_prefix hsplit hat' hstart settings
  have hsub : (done ++ rest).Sublist (eligible w.messages.rows) :=
    hsplit ▸ history_sublist boundary _
  have hrows : ∀ m ∈ rest, m ∈ w.messages.rows := fun m hm =>
    (mem_eligible.mp (hsub.subset (List.mem_append_right _ hm))).1
  obtain ⟨hhead, htail⟩ := offset?_of_cursorAt hat'
    ((pairwise_eligible w.messages).sublist hsub)
    fun m hm m' hm' hid => Table.eq_of_key (hrows m hm) (hrows m' hm') hid
  have hbatch : batchFrom cursor (sourceMessages settings w.messages.rows cursor)
      settings.agentMemoryInputMaxChars cursor =
        ((w.compaction settings stored cursor).batch,
          (w.compaction settings stored cursor).next) := rfl
  constructor
  · obtain ⟨done', rest', offset', heq, hnext, htext'⟩ :=
      batchFrom_text hat' hpre hhead htail hbatch
    refine ⟨done', rest', offset', hsplit.trans heq.symm, hnext, ?_⟩
    rw [List.flatMap_append, htext, htext']
  · intro p hp
    have hsorted := (pairwise_eligible w.messages).sublist
      (sourceMessages_sublist settings w.messages.rows cursor)
    exact not_mem_recent ((batchFrom_spec hsorted hbatch).1 p hp).1

theorem step {leaks : String → Bool} {w' : MemoryWorld} {e : MemoryEvent}
    (h : w.Consuming boundary) (hc : w.Consistent) (hstep : Step leaks w e w')
    (hok : Conversing w e) : w'.Consuming boundary := by
  cases hstep with
  | append hinsert =>
    obtain ⟨more, hmore⟩ := history_insert boundary hinsert hok
    obtain ⟨done, rest, offset, hsplit, hat, htext⟩ := h.consumed
    refine ⟨h.start, ⟨done, rest ++ more, offset, ?_, hat.append more, ?_⟩, fun s hs => ?_⟩
    · rw [hmore, hsplit, List.append_assoc]
    · rw [hat.textUpTo_append]
      exact htext
    · have hreads := h.sessions s hs
      cases s with
      | loaded c => exact Prepared.append hreads hmore
      | summarising c _ => exact Prepared.append hreads hmore
      | _ => exact hreads
  | update hfree =>
    refine ⟨h.start, h.consumed, fun s hs => ?_⟩
    rcases List.mem_append.mp hs with hs | hs
    · exact h.sessions s hs
    · rw [List.mem_singleton.mp hs]
      trivial
  | refused => exact h
  | @readBoundary i settings stored hi =>
    have hstored : stored = w.cursor := hc.session hi
    refine h.move i fun hposition => ?_
    rw [hstored] at hposition ⊢
    exact h.start ((isPosition_sourceCursor _ _).symm.trans hposition)
  | @readMessages i settings stored cursor hi =>
    split_ifs with hempty
    · exact h.move i trivial
    · obtain ⟨hstored, hfrom⟩ := hc.session hi
      exact h.move i (h.prepared hstored hfrom (h.sessions _ (List.mem_of_getElem? hi)))
  | @readSummary i c hi hfree =>
    have hprepared : Prepared boundary w.messages.rows w.consumed c :=
      h.sessions _ (List.mem_of_getElem? hi)
    exact h.move i hprepared
  | @store i c existing summary id now summaries hi hreply hrow =>
    obtain ⟨⟨done, rest, offset, hsplit, hat, htext⟩, -⟩ :=
      h.sessions _ (List.mem_of_getElem? hi)
    refine ⟨fun hposition => ?_, ⟨done, rest, offset, hsplit, hat, htext⟩, fun s hs => ?_⟩
    · obtain ⟨p, -, ⟨offset', count, hends, -⟩, -⟩ := (hc.session hi).1.next
      have hposition : MemoryCursor.isPosition c.next = false := hposition
      rw [hends] at hposition
      cases hposition
    · rcases mem_set_cases hs with rfl | ⟨j, hne, hj⟩
      · trivial
      · exact sessionReads_of_not_holds (hc.conversation.others hi rfl hj hne)
  | @reject i => exact h.move i trivial
  | @abort i => exact h.move i trivial
  | _ => exact hok.elim

end Consuming

/-- The text of the successful compactions is the text up to the cursor, and the cursor counts the
messages that are in it as a whole. -/
structure ConsumedOnce (boundary : Option Instant) (w : MemoryWorld) : Prop where
  text : w.consumed.flatMap Piece.content =
    textBefore w.cursor (history boundary w.messages.rows)
  messageCount : MemoryCursor.messageCount? w.cursor =
    (fullyConsumed w.cursor (history boundary w.messages.rows)).length

theorem Consuming.consumedOnce {boundary : Option Instant} {w : MemoryWorld}
    (h : w.Consuming boundary) : w.ConsumedOnce boundary := by
  obtain ⟨done, rest, offset, hsplit, hat, htext⟩ := h.consumed
  have hsorted : (done ++ rest).Pairwise Precedes :=
    hsplit ▸ (pairwise_eligible w.messages).sublist (history_sublist boundary _)
  have hmem : ∀ m ∈ rest, m ∈ history boundary w.messages.rows := fun m hm =>
    hsplit ▸ List.mem_append_right done hm
  have hne : ∀ m ∈ rest, m.text ≠ [] := fun m hm => text_ne_nil (hmem m hm)
  constructor
  · rw [htext, hsplit, textBefore_of_cursorAt hat hsorted]
  · rw [hat.messageCount?, hsplit, length_fullyConsumed hat hsorted hne]

/-- What a step leaves alone, unless it is the successful end of a compaction. -/
inductive Consumes (leaks : String → Bool) (w : MemoryWorld) :
    MemoryEvent → MemoryWorld → Prop where
  | unsuccessful {e : MemoryEvent} {w' : MemoryWorld} (hcursor : w'.cursor = w.cursor)
      (hsummaries : w'.summaries = w.summaries) (hconsumed : w'.consumed = w.consumed) :
      Consumes leaks w e w'
  | successful {i : ℕ} {c : Compaction} {existing : Option MemorySummary} {summary : String}
      {id : UUID} {now : Instant} {w' : MemoryWorld}
      (hi : w.sessions[i]? = some (.summarising c existing))
      (hreply : acceptableSummary leaks summary = true) (hcursor : w'.cursor = c.next)
      (hconsumed : w'.consumed = w.consumed ++ c.batch)
      (hrecent : ∀ p ∈ c.batch, p.message ∉ recent c.settings c.present) :
      Consumes leaks w (.reply i (some summary) id now) w'

theorem Consuming.consumes {leaks : String → Bool} {boundary : Option Instant}
    {w w' : MemoryWorld} {e : MemoryEvent} (h : w.Consuming boundary) (hstep : Step leaks w e w')
    (hok : Conversing w e) : Consumes leaks w e w' := by
  cases hstep with
  | store hi hreply =>
    exact .successful hi hreply rfl rfl (h.sessions _ (List.mem_of_getElem? hi)).2
  | commitDisable => exact hok.elim
  | commitDelete => exact hok.elim
  | _ => exact .unsuccessful rfl rfl rfl

/-- Every run of appended messages and compactions consumes the history of the conversation once;
without a disabled or deleted summary at its start, this is the whole history. -/
theorem consumedOnce_of_reaches (leaks : String → Bool) {w₀ w : MemoryWorld} (h₀ : w₀.Fresh)
    (h : Transition.Reaches (Transition.Restrict (Step leaks) Conversing) w₀ w) :
    w.ConsumedOnce w₀.boundary ∧
      ∀ e w', Step leaks w e w' → Conversing w e → Consumes leaks w e w' := by
  have hposition : ∀ id t offset count, w₀.cursor ≠ some (.position id t offset count) := by
    intro id t offset count hcursor
    have hstart := h₀.cursor
    rw [hcursor] at hstart
    cases hstart
  have hconsistent : ∀ u, Transition.Reaches (Transition.Restrict (Step leaks) Conversing) w₀ u →
      u.Consistent := fun u hu =>
    Consistent.of_reaches hu.of_restrict (Consistent.of_empty h₀.sessions hposition)
  have hconsuming : w.Consuming w₀.boundary := h.invariant_of hconsistent h₀.consuming
    fun _ _ _ hc hu hstep => hu.step hc hstep.1 hstep.2
  exact ⟨hconsuming.consumedOnce, fun e w' hstep hok => hconsuming.consumes hstep hok⟩

def conversationSample : MemoryWorld where
  userId := some 1
  messages := ⟨[⟨10, 2, .user, "first", none, 1, .empty⟩,
    ⟨11, 2, .assistant, "second", none, 2, .empty⟩], by decide⟩
  cursor := none
  summaries := ⟨[], by decide⟩
  sessions := []
  consumed := []
  sources := fun _ => []
  forgotten := []
  stored := []

def conversationSettings : MemorySettings := ⟨1, 1000⟩

def conversationCompaction : Compaction :=
  conversationSample.compaction conversationSettings none none

theorem batch_conversationCompaction : conversationCompaction.batch ≠ [] :=
  List.isEmpty_eq_false_iff.mp rfl

theorem consumedOnce_conversationSample : ∃ w : MemoryWorld, w.consumed ≠ [] ∧
    w.ConsumedOnce none := by
  have hupdate : Step (fun _ => false) conversationSample (.update (some 1) conversationSettings)
      { conversationSample with sessions := [.locked conversationSettings none] } :=
    .update (by simp [Unlocked, conversationSample])
  have hboundary : Step (fun _ => false)
      { conversationSample with sessions := [.locked conversationSettings none] } (.readBoundary 0)
      { conversationSample with sessions := [.bounded conversationSettings none none] } :=
    .readBoundary rfl
  have hmessages : Step (fun _ => false)
      { conversationSample with sessions := [.bounded conversationSettings none none] }
      (.readMessages 0)
      { conversationSample with sessions := [.loaded conversationCompaction] } :=
    step_readMessages (w := { conversationSample with
      sessions := [.bounded conversationSettings none none] }) rfl rfl batch_conversationCompaction
  have hsummary : Step (fun _ => false)
      { conversationSample with sessions := [.loaded conversationCompaction] } (.readSummary 0)
      { conversationSample with sessions := [.summarising conversationCompaction none] } :=
    .readSummary rfl fun s hs => by cases hs
  have hreply : Step (fun _ => false)
      { conversationSample with sessions := [.summarising conversationCompaction none] }
      (.reply 0 (some "first") 8 3) _ := .store rfl (by decide) rfl
  have hfresh : conversationSample.Fresh := ⟨rfl, rfl, rfl⟩
  have hrun := consumedOnce_of_reaches (fun _ => false) hfresh
    ((((((Transition.Reaches.refl conversationSample).tail
      ⟨hupdate, trivial⟩).tail ⟨hboundary, trivial⟩).tail ⟨hmessages, trivial⟩).tail
      ⟨hsummary, trivial⟩).tail ⟨hreply, trivial⟩)
  exact ⟨_, batch_conversationCompaction, hrun.1⟩

end MemoryWorld

end AgentDemo
