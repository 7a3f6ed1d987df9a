import AgentDemo.Library.Locks
import AgentDemo.Library.Transition
import AgentDemo.Services.Memory

/-! One conversation with its summaries under compactions and under requests that disable or
delete a summary, statement by statement. A write takes effect when it is committed; until then
its session holds the lock of the row. -/
namespace AgentDemo

/-- What a compaction works with after its selects. -/
structure Compaction where
  settings : MemorySettings
  stored : Option MemoryCursor
  cursor : Option MemoryCursor
  present : List Message
  batch : List Piece
  next : Option MemoryCursor

inductive MemorySession where
  | locked (settings : MemorySettings) (stored : Option MemoryCursor)
  | bounded (settings : MemorySettings) (stored cursor : Option MemoryCursor)
  | loaded (c : Compaction)
  | summarising (c : Compaction) (existing : Option MemorySummary)
  | disabling (summaryId : UUID) (validTo : Option Instant)
  | stamped (summaryId : UUID) (validTo : Instant)
  | retiring (summaryId : UUID) (validTo : Instant)
  | deleting (summaryId : UUID)
  | holding (summaryId : UUID) (stored : Option MemoryCursor)
  | forgetting (summaryId : UUID) (stored : Option MemoryCursor) (boundary : Instant)
  | removing (summaryId : UUID) (stored : Option MemoryCursor) (boundary : Instant)
  | ended

namespace MemorySession

def holdsConversation : MemorySession → Bool
  | .locked _ _ | .bounded _ _ _ | .loaded _ | .summarising _ _ => true
  | .holding _ _ | .forgetting _ _ _ | .removing _ _ _ => true
  | _ => false

def lockedSummary : MemorySession → Option UUID
  | .summarising _ existing => existing.map MemorySummary.id
  | .retiring summaryId _ => some summaryId
  | .removing summaryId _ _ => some summaryId
  | _ => none

end MemorySession

/-- What was known when a summary was disabled or deleted: the text consumed into it, and the
time if the conversation had no cursor. -/
structure Forgotten where
  sources : List Piece
  withoutCursor : Option Instant

/-- What a committed compaction stored: the text behind the summary, and what had been forgotten
before. -/
structure StoredSummary where
  sources : List Piece
  forgotten : List Forgotten

/-- The last four fields are the history: the text of the successful compactions, the text behind
each summary, the forgotten summaries and the stored ones. -/
structure MemoryWorld where
  userId : Option UUID
  messages : Table Message
  cursor : Option MemoryCursor
  summaries : Table MemorySummary
  sessions : List MemorySession
  consumed : List Piece
  sources : UUID → List Piece
  forgotten : List Forgotten
  stored : List StoredSummary

inductive MemoryEvent where
  | append (m : Message)
  | update (userId : Option UUID) (settings : MemorySettings)
  | readBoundary (i : ℕ)
  | readMessages (i : ℕ)
  | readSummary (i : ℕ)
  | reply (i : ℕ) (summary : Option String) (id : UUID) (now : Instant)
  | disable (userId summaryId : UUID)
  | stamp (i : ℕ) (now : Instant)
  | retire (i : ℕ)
  | commitDisable (i : ℕ) (now : Instant)
  | delete (userId summaryId : UUID)
  | lockConversation (i : ℕ)
  | forget (i : ℕ) (now : Instant)
  | remove (i : ℕ)
  | commitDelete (i : ℕ)
  | abort (i : ℕ)

namespace MemoryWorld

def Unlocked (w : MemoryWorld) : Prop := ∀ s ∈ w.sessions, s.holdsConversation = false

/-- Nobody holds the lock of the summary. -/
def SummaryFree (w : MemoryWorld) (id : UUID) : Prop := ∀ s ∈ w.sessions, s.lockedSummary ≠ some id

def move (w : MemoryWorld) (i : ℕ) (s : MemorySession) : MemoryWorld :=
  { w with sessions := w.sessions.set i s }

/-- The messages that a compaction reads, and the batch and the cursor it makes of them. -/
def compaction (w : MemoryWorld) (settings : MemorySettings) (stored cursor : Option MemoryCursor) :
    Compaction :=
  let (batch, next) := batchOf settings (sourceMessages settings w.messages.rows cursor) cursor
  { settings, stored, cursor, present := w.messages.rows, batch, next }

/-- The text behind a summary once a batch has gone into it. -/
def sourcesWith (w : MemoryWorld) (existing : Option MemorySummary) (batch : List Piece) :
    List Piece :=
  (existing.elim [] fun s => w.sources s.id) ++ batch

/-- The commit of a compaction that has stored `row`. -/
def commitSummary (w : MemoryWorld) (i : ℕ) (c : Compaction) (existing : Option MemorySummary)
    (row : MemorySummary) (summaries : Table MemorySummary) : MemoryWorld :=
  { w.move i .ended with
    cursor := c.next
    summaries
    consumed := w.consumed ++ c.batch
    sources := Function.update w.sources row.id (w.sourcesWith existing c.batch)
    stored := w.stored ++ [⟨w.sourcesWith existing c.batch, w.forgotten⟩] }

/-- What one statement can do. -/
inductive Step (leaks : String → Bool) (w : MemoryWorld) : MemoryEvent → MemoryWorld → Prop where
  | append {m : Message} {messages : Table Message} (h : w.messages.insert? m = some messages) :
      Step leaks w (.append m) { w with messages }
  | update {settings : MemorySettings} (h : w.Unlocked) :
      Step leaks w (.update w.userId settings)
        { w with sessions := w.sessions ++ [.locked settings w.cursor] }
  | refused {userId : Option UUID} {settings : MemorySettings}
      (h : ¬ w.Unlocked ∨ userId ≠ w.userId) : Step leaks w (.update userId settings) w
  | readBoundary {i : ℕ} {settings : MemorySettings} {stored : Option MemoryCursor}
      (hi : w.sessions[i]? = some (.locked settings stored)) :
      Step leaks w (.readBoundary i)
        (w.move i (.bounded settings stored (sourceCursor stored w.summaries)))
  | readMessages {i : ℕ} {settings : MemorySettings} {stored cursor : Option MemoryCursor}
      (hi : w.sessions[i]? = some (.bounded settings stored cursor)) :
      Step leaks w (.readMessages i)
        (w.move i (if (w.compaction settings stored cursor).batch = [] then .ended
          else .loaded (w.compaction settings stored cursor)))
  | readSummary {i : ℕ} {c : Compaction} (hi : w.sessions[i]? = some (.loaded c))
      (hfree : ∀ s, activeSummary w.summaries = some s → w.SummaryFree s.id) :
      Step leaks w (.readSummary i) (w.move i (.summarising c (activeSummary w.summaries)))
  | store {i : ℕ} {c : Compaction} {existing : Option MemorySummary} {summary : String}
      {id : UUID} {now : Instant} {summaries : Table MemorySummary}
      (hi : w.sessions[i]? = some (.summarising c existing))
      (hreply : acceptableSummary leaks summary = true)
      (hrow : storeRow w.summaries existing (storedRow existing id summary now) =
        some summaries) :
      Step leaks w (.reply i (some summary) id now)
        (w.commitSummary i c existing (storedRow existing id summary now) summaries)
  | reject {i : ℕ} {c : Compaction} {existing : Option MemorySummary} {reply : Option String}
      {id : UUID} {now : Instant} (hi : w.sessions[i]? = some (.summarising c existing))
      (hreply : reply.all fun summary => acceptableSummary leaks summary = false) :
      Step leaks w (.reply i reply id now) (w.move i .ended)
  | disable {userId : UUID} {row : MemorySummary} (howner : w.userId = some userId)
      (hrow : w.summaries.get? row.id = some row) :
      Step leaks w (.disable userId row.id)
        { w with sessions := w.sessions ++ [.disabling row.id row.validTo] }
  | disabled {i : ℕ} {id : UUID} {t now : Instant}
      (hi : w.sessions[i]? = some (.disabling id (some t))) :
      Step leaks w (.stamp i now) (w.move i .ended)
  | stamp {i : ℕ} {id : UUID} {now : Instant} (hi : w.sessions[i]? = some (.disabling id none)) :
      Step leaks w (.stamp i now) (w.move i (.stamped id now))
  | retire {i : ℕ} {id : UUID} {t : Instant} (hi : w.sessions[i]? = some (.stamped id t))
      (hrow : (w.summaries.get? id).isSome) (hfree : w.SummaryFree id) :
      Step leaks w (.retire i) (w.move i (.retiring id t))
  | commitDisable {i : ℕ} {row : MemorySummary} {t now : Instant}
      (hi : w.sessions[i]? = some (.retiring row.id t))
      (hrow : w.summaries.get? row.id = some row) :
      Step leaks w (.commitDisable i now)
        { w.move i .ended with
          summaries := w.summaries.write { row with validTo := some t, updatedAt := now }
          forgotten := w.forgotten ++
            [⟨w.sources row.id, if w.cursor.isNone then some t else none⟩] }
  | delete {userId summaryId : UUID} (howner : w.userId = some userId)
      (hrow : (w.summaries.get? summaryId).isSome) :
      Step leaks w (.delete userId summaryId)
        { w with sessions := w.sessions ++ [.deleting summaryId] }
  | lockConversation {i : ℕ} {id : UUID} (hi : w.sessions[i]? = some (.deleting id))
      (h : w.Unlocked) : Step leaks w (.lockConversation i) (w.move i (.holding id w.cursor))
  | forget {i : ℕ} {id : UUID} {stored : Option MemoryCursor} {now : Instant}
      (hi : w.sessions[i]? = some (.holding id stored)) :
      Step leaks w (.forget i now) (w.move i (.forgetting id stored now))
  | remove {i : ℕ} {id : UUID} {stored : Option MemoryCursor} {t : Instant}
      (hi : w.sessions[i]? = some (.forgetting id stored t)) (hfree : w.SummaryFree id) :
      Step leaks w (.remove i) (w.move i (.removing id stored t))
  | commitDelete {i : ℕ} {id : UUID} {stored : Option MemoryCursor} {t : Instant}
      (hi : w.sessions[i]? = some (.removing id stored t)) :
      Step leaks w (.commitDelete i)
        { w.move i .ended with
          cursor := if stored.isNone then some (.afterTime t) else w.cursor
          summaries := w.summaries.delete id
          forgotten := w.forgotten ++
            [⟨w.sources id, if stored.isNone then some t else none⟩] }
  | abort {i : ℕ} {s : MemorySession} (hi : w.sessions[i]? = some s) :
      Step leaks w (.abort i) (w.move i .ended)

/-- A conversation with messages and summaries from before compactions were recorded. -/
structure Initial (w : MemoryWorld) : Prop where
  cursor : w.cursor = none
  sessions : w.sessions = []
  consumed : w.consumed = []
  sources : ∀ id, w.sources id = []
  forgotten : w.forgotten = []
  stored : w.stored = []

end MemoryWorld

end AgentDemo
