import AgentDemo.Models.Conversation
import Mathlib.Data.List.Sort
import Mathlib.Data.Prod.Lex

/-! `MemoryService`: what one compaction reads, the batch it makes of it and the next cursor. -/
namespace AgentDemo

/-- `metadata["memory_cursor"]`, when it is not empty. -/
inductive MemoryCursor where
  | afterTime (t : Instant)
  | position (messageId : UUID) (createdAt : Instant) (offset messageCount : ℕ)
  deriving DecidableEq, Repr

structure MemorySummary where
  id : UUID
  summary : String
  validTo : Option Instant
  updatedAt : Instant
  deriving DecidableEq, Repr

instance : Keyed MemorySummary UUID := ⟨MemorySummary.id⟩

@[simp] theorem key_memorySummary (s : MemorySummary) : Keyed.key s = s.id := rfl

structure MemorySettings where
  agentMemoryMessageLimit : ℤ
  agentMemoryInputMaxChars : ℕ

structure Piece where
  message : Message
  start : ℕ
  content : List Char

namespace Piece

def stop (p : Piece) : ℕ := p.start + p.content.length

def Complete (p : Piece) : Prop := p.stop = p.message.content.toList.length

instance (p : Piece) : Decidable p.Complete := inferInstanceAs (Decidable (_ = _))

end Piece

/-- `(created_at, id)`, compared as a tuple. -/
def tuplePosition (createdAt : Instant) (id : UUID) : ℤ ×ₗ ℕ := toLex (createdAt, id.toNat)

def Message.position (m : Message) : ℤ ×ₗ ℕ := tuplePosition m.createdAt m.id

/-- The order of `order_by(Message.created_at, Message.id)`. -/
def notLater (m m' : Message) : Prop := m.position ≤ m'.position

instance : DecidableRel notLater := fun _ _ => inferInstanceAs (Decidable (_ ≤ _))

/-- The filters of a source message; every role of the model is `user` or `assistant`. -/
def eligible (messages : List Message) : List Message :=
  (messages.filter fun m => m.content ≠ "").insertionSort notLater

def recent (s : MemorySettings) (messages : List Message) : List Message :=
  (eligible messages).drop ((eligible messages).length - s.agentMemoryMessageLimit.toNat)

def afterCursor (cursor : Option MemoryCursor) (m : Message) : Bool :=
  match cursor with
  | none => true
  | some (.afterTime t) => t < m.createdAt
  | some (.position id t offset _) =>
    if offset ≠ 0 then tuplePosition t id ≤ m.position else tuplePosition t id < m.position

/-- `_source_messages`: what is not recent and comes after the cursor, at most fifty. -/
def sourceMessages (s : MemorySettings) (messages : List Message) (cursor : Option MemoryCursor) :
    List Message :=
  (((eligible messages).take
      ((eligible messages).length - s.agentMemoryMessageLimit.toNat)).filter
    (afterCursor cursor)).take 50

def MemoryCursor.offset? (cursor : Option MemoryCursor) (m : Message) : ℕ :=
  match cursor with
  | some (.position id _ offset _) => if m.id = id then offset else 0
  | _ => 0

def MemoryCursor.messageCount? : Option MemoryCursor → ℕ
  | some (.position _ _ _ count) => count
  | _ => 0

/-- What is passed on of `m` when `remaining` characters fit. -/
def pieceOf (cursor : Option MemoryCursor) (remaining : ℕ) (m : Message) : Piece :=
  { message := m
    start := MemoryCursor.offset? cursor m
    content := (m.content.toList.drop (MemoryCursor.offset? cursor m)).take remaining }

/-- `next_cursor` once the piece is in the batch. -/
def cursorAfter (next : Option MemoryCursor) (p : Piece) : MemoryCursor :=
  .position p.message.id p.message.createdAt (if p.Complete then 0 else p.stop)
    (MemoryCursor.messageCount? next + if p.Complete then 1 else 0)

/-- The loop of `_batch`. -/
def batchFrom (cursor : Option MemoryCursor) :
    List Message → ℕ → Option MemoryCursor → List Piece × Option MemoryCursor
  | [], _, next => ([], next)
  | m :: rest, remaining, next =>
    let piece := pieceOf cursor remaining m
    if piece.content = [] then ([], next)
    else if remaining - piece.content.length = 0 then ([piece], some (cursorAfter next piece))
    else
      let (batch, next) := batchFrom cursor rest (remaining - piece.content.length)
        (some (cursorAfter next piece))
      (piece :: batch, next)

/-- `_batch`. -/
def batchOf (s : MemorySettings) (messages : List Message) (cursor : Option MemoryCursor) :
    List Piece × Option MemoryCursor :=
  batchFrom cursor messages s.agentMemoryInputMaxChars cursor

/-- What a summary must be to be stored; `leaks` stands for the patterns of tool protocol. -/
def acceptableSummary (leaks : String → Bool) (summary : String) : Bool :=
  strip summary ≠ "" && summary.length ≤ 8000 && !leaks summary

/-- `valid_to` of the summary that was disabled last. -/
def retiredAt (summaries : Table MemorySummary) : Option Instant :=
  (summaries.rows.filterMap MemorySummary.validTo).max?

def activeSummary (summaries : Table MemorySummary) : Option MemorySummary :=
  ((summaries.rows.filter fun s => s.validTo.isNone).insertionSort fun a b =>
    b.updatedAt < a.updatedAt ∨ (a.updatedAt = b.updatedAt ∧ a.id.toNat ≤ b.id.toNat)).head?

/-- The summary that `_update` stores, for the active one if there is one. -/
def storedRow (existing : Option MemorySummary) (id : UUID) (summary : String) (now : Instant) :
    MemorySummary :=
  match existing with
  | some row => { row with summary := strip summary, updatedAt := now }
  | none => { id, summary := strip summary, validTo := none, updatedAt := now }

def storeRow (summaries : Table MemorySummary) (existing : Option MemorySummary)
    (row : MemorySummary) : Option (Table MemorySummary) :=
  match existing with
  | some _ => some (summaries.write row)
  | none => summaries.insert? row

def sourceCursor (stored : Option MemoryCursor) (summaries : Table MemorySummary) :
    Option MemoryCursor :=
  match stored with
  | some cursor => some cursor
  | none => (retiredAt summaries).map .afterTime

/-- The message `m` comes before `m'` in the history. -/
def Precedes (m m' : Message) : Prop := m.position < m'.position

theorem position_inj {t t' : Instant} {id id' : UUID} :
    tuplePosition t id = tuplePosition t' id' ↔ t = t' ∧ id = id' := by
  constructor
  · intro h
    obtain ⟨ht, hid⟩ := Prod.mk.inj (toLex_inj.mp h)
    exact ⟨ht, BitVec.eq_of_toNat_eq hid⟩
  · rintro ⟨rfl, rfl⟩
    rfl

theorem createdAt_le_of_position_le {t t' : Instant} {id id' : UUID}
    (h : tuplePosition t id ≤ tuplePosition t' id') : t ≤ t' := by
  rcases Prod.Lex.toLex_le_toLex.mp h with hlt | ⟨heq, -⟩
  · exact le_of_lt hlt
  · exact le_of_eq heq

instance : Std.Total notLater where
  total m m' := le_total m.position m'.position

instance : IsTrans Message notLater where
  trans _ _ _ h h' := le_trans h h'

theorem mem_eligible {messages : List Message} {m : Message} :
    m ∈ eligible messages ↔ m ∈ messages ∧ m.content ≠ "" := by
  simp [eligible]

/-- The eligible messages of a table stand in strict order. -/
theorem pairwise_eligible (messages : Table Message) :
    (eligible messages.rows).Pairwise Precedes := by
  have hsorted : (eligible messages.rows).Pairwise notLater := List.pairwise_insertionSort _ _
  have hids : (eligible messages.rows).Pairwise fun m m' => m.id ≠ m'.id := by
    have hnodup : ((messages.rows.filter fun m => m.content ≠ "").map Message.id).Nodup :=
      messages.nodup.sublist (List.filter_sublist.map _)
    have hperm := (List.perm_insertionSort notLater
      (messages.rows.filter fun m => m.content ≠ "")).map Message.id
    have hids := hperm.nodup_iff.mpr hnodup
    rwa [List.Nodup, List.pairwise_map] at hids
  refine (hsorted.and hids).imp fun {m m'} h => lt_of_le_of_ne h.1 fun heq => h.2 ?_
  exact (position_inj.mp heq).2

/-- A message after all others goes to the end. -/
theorem eligible_insert {messages messages' : Table Message} {m : Message}
    (h : messages.insert? m = some messages') (hlast : ∀ m' ∈ messages.rows, Precedes m' m) :
    eligible messages'.rows = eligible messages.rows ++ if m.content = "" then [] else [m] := by
  have hperm : (eligible messages'.rows).Perm
      (eligible messages.rows ++ if m.content = "" then [] else [m]) := by
    rw [Table.rows_insert? h]
    refine (List.perm_insertionSort _ _).trans ?_
    rw [List.filter_append]
    refine List.Perm.append (List.perm_insertionSort _ _).symm ?_
    by_cases hm : m.content = "" <;> simp [hm]
  refine hperm.eq_of_pairwise (fun a b _ _ hab hba => absurd hba (lt_asymm hab))
    (pairwise_eligible messages') ?_
  rw [List.pairwise_append]
  refine ⟨pairwise_eligible messages, by split_ifs <;> simp, fun a ha b hb => ?_⟩
  split_ifs at hb
  · cases hb
  · rw [List.mem_singleton.mp hb]
    exact hlast a (mem_eligible.mp ha).1

theorem mem_storeRow {summaries summaries' : Table MemorySummary} {existing : Option MemorySummary}
    {row x : MemorySummary} (h : storeRow summaries existing row = some summaries')
    (hx : x ∈ summaries'.rows) : x = row ∨ (x ∈ summaries.rows ∧ x.id ≠ row.id) := by
  cases existing with
  | some _ =>
    cases h
    exact Table.of_mem_write hx
  | none =>
    rw [Table.rows_insert? h, List.mem_append, List.mem_singleton] at hx
    refine hx.symm.imp_right fun hx => ⟨hx, ?_⟩
    exact Table.get?_eq_none.mp (Table.insert?_fresh h) x hx

theorem mem_of_activeSummary {summaries : Table MemorySummary} {row : MemorySummary}
    (h : activeSummary summaries = some row) : row ∈ summaries.rows ∧ row.validTo = none := by
  have hmem := List.mem_of_mem_head? (Option.mem_def.mpr h)
  simpa using hmem

theorem sourceMessages_sublist (s : MemorySettings) (messages : List Message)
    (cursor : Option MemoryCursor) :
    (sourceMessages s messages cursor).Sublist (eligible messages) :=
  ((List.take_sublist _ _).trans List.filter_sublist).trans (List.take_sublist _ _)

theorem afterCursor_of_mem_sourceMessages {s : MemorySettings} {messages : List Message}
    {cursor : Option MemoryCursor} {m : Message} (h : m ∈ sourceMessages s messages cursor) :
    afterCursor cursor m = true :=
  (List.mem_filter.mp (List.mem_of_mem_take h)).2

/-- The text has gone into a summary, as far as the cursor tells. -/
def Below (cursor : Option MemoryCursor) (p : Piece) : Prop :=
  match cursor with
  | some (.position id t offset _) =>
    p.message.position < tuplePosition t id ∨ (p.message.position = tuplePosition t id ∧
      (offset = 0 ∨ p.stop ≤ offset))
  | _ => False

/-- The text is still to be read, as far as the cursor tells. -/
def Above (cursor : Option MemoryCursor) (p : Piece) : Prop :=
  match cursor with
  | none => True
  | some (.afterTime t) => t < p.message.createdAt
  | some (.position id t offset _) => tuplePosition t id < p.message.position ∨
      (p.message.position = tuplePosition t id ∧ offset ≠ 0 ∧ offset ≤ p.start)

def Apart (p q : Piece) : Prop :=
  p.message.id ≠ q.message.id ∨ p.stop ≤ q.start ∨ q.stop ≤ p.start

def SameMessages (p q : Piece) : Prop :=
  p.message.id = q.message.id → p.message.createdAt = q.message.createdAt

theorem apart_of_below_above {cursor : Option MemoryCursor} {p q : Piece} (hp : Below cursor p)
    (hq : Above cursor q) (hsame : SameMessages p q) : Apart p q := by
  by_cases hid : p.message.id = q.message.id
  · have hpos : p.message.position = q.message.position := position_inj.mpr ⟨hsame hid, hid⟩
    refine .inr (.inl ?_)
    match cursor, hp, hq with
    | some (.position id t offset _), hp, hq =>
      rcases hq with hq | ⟨hq, hne, hle⟩
      · rcases hp with hp | ⟨hp, -⟩
        · exact absurd (hpos ▸ hp) (lt_asymm hq)
        · exact absurd (hpos ▸ hp) hq.ne'
      · rcases hp with hp | ⟨-, hoff⟩
        · exact absurd (hpos.trans hq) hp.ne
        · exact (hoff.resolve_left hne).trans hle
  · exact .inl hid

/-- The cursor names a message of the conversation. -/
def CursorIn (messages : List Message) (cursor : Option MemoryCursor) : Prop :=
  ∀ id t offset count, cursor = some (.position id t offset count) →
    ∀ m ∈ messages, m.id = id → m.createdAt = t

theorem position_le_of_afterCursor {id : UUID} {t : Instant} {offset count : ℕ} {m : Message}
    (h : afterCursor (some (.position id t offset count)) m = true) :
    tuplePosition t id ≤ m.position := by
  by_cases hoff : offset = 0
  · have hlt : tuplePosition t id < m.position := by simpa [afterCursor, hoff] using h
    exact hlt.le
  · simpa [afterCursor, hoff] using h

theorem above_of_afterCursor {messages : List Message} {cursor : Option MemoryCursor} {m : Message}
    (content : List Char) (hm : m ∈ messages) (hcursor : CursorIn messages cursor)
    (h : afterCursor cursor m = true) :
    Above cursor ⟨m, MemoryCursor.offset? cursor m, content⟩ := by
  match cursor, h, hcursor with
  | none, _, _ => trivial
  | some (.afterTime t), h, _ =>
    show t < m.createdAt
    exact of_decide_eq_true h
  | some (.position id t offset count), h, hcursor =>
    by_cases hid : m.id = id
    · have hpos : m.position = tuplePosition t id :=
        position_inj.mpr ⟨hcursor id t offset count rfl m hm hid, hid⟩
      refine .inr ⟨hpos, ?_, by simp [MemoryCursor.offset?, hid]⟩
      rintro rfl
      have hlt : tuplePosition t id < m.position := by simpa [afterCursor] using h
      exact hlt.ne' hpos
    · have hne : tuplePosition t id ≠ m.position := fun heq => hid (position_inj.mp heq).2.symm
      left
      by_cases hoff : offset = 0
      · simpa [afterCursor, hoff] using h
      · have hle : tuplePosition t id ≤ m.position := by simpa [afterCursor, hoff] using h
        exact lt_of_le_of_ne hle hne

def EndsWith (cursor : Option MemoryCursor) (p : Piece) : Prop :=
  ∃ offset count, cursor = some (.position p.message.id p.message.createdAt offset count) ∧
    (offset = 0 ∨ offset = p.stop)

theorem endsWith_cursorAfter (next : Option MemoryCursor) (p : Piece) :
    EndsWith (some (cursorAfter next p)) p := by
  refine ⟨_, _, rfl, ?_⟩
  by_cases h : p.Complete
  · exact .inl (if_pos h)
  · exact .inr (if_neg h)

/-- What the loop of `_batch` makes: pieces of its messages, and a cursor at the end of the last
piece. -/
theorem batchFrom_spec {cursor : Option MemoryCursor} {messages : List Message}
    (hsorted : messages.Pairwise Precedes) {remaining : ℕ} {next next' : Option MemoryCursor}
    {batch : List Piece} (h : batchFrom cursor messages remaining next = (batch, next')) :
    (∀ p ∈ batch, p.message ∈ messages ∧ p.start = MemoryCursor.offset? cursor p.message) ∧
      (batch = [] ∧ next' = next ∨
        ∃ p ∈ batch, EndsWith next' p ∧ ∀ q ∈ batch, q = p ∨ Precedes q.message p.message) := by
  induction messages generalizing remaining next batch with
  | nil =>
    cases h
    exact ⟨by simp, .inl ⟨rfl, rfl⟩⟩
  | cons m rest ih =>
    obtain ⟨hfirst, hrest⟩ := List.pairwise_cons.mp hsorted
    simp only [batchFrom] at h
    split at h
    · cases h
      exact ⟨by simp, .inl ⟨rfl, rfl⟩⟩
    split at h
    · cases h
      refine ⟨by simp [pieceOf], .inr ⟨_, List.mem_singleton_self _, ?_, by simp⟩⟩
      exact endsWith_cursorAfter _ _
    · cases hbatch : batchFrom cursor rest (remaining - (pieceOf cursor remaining m).content.length)
        (some (cursorAfter next (pieceOf cursor remaining m))) with
      | mk batch' next'' =>
        rw [hbatch] at h
        cases h
        obtain ⟨hpieces, hlast⟩ := ih hrest hbatch
        refine ⟨?_, .inr ?_⟩
        · refine List.forall_mem_cons.mpr ⟨⟨List.mem_cons_self, rfl⟩, fun p hp => ?_⟩
          exact ⟨List.mem_cons_of_mem _ (hpieces p hp).1, (hpieces p hp).2⟩
        · rcases hlast with ⟨rfl, rfl⟩ | ⟨p, hp, hends, hbefore⟩
          · exact ⟨_, List.mem_cons_self, endsWith_cursorAfter _ _, by simp⟩
          · refine ⟨p, List.mem_cons_of_mem _ hp, hends, ?_⟩
            refine List.forall_mem_cons.mpr ⟨.inr ?_, hbefore⟩
            exact hfirst _ (hpieces p hp).1

end AgentDemo
