import AgentDemo.Library.Dictionary
import AgentDemo.Mcp.Discovery

/-! `McpClientManager._catalog`: calls in any order share one cache, a lock for each catalog and the
slots for discovery. -/
namespace AgentDemo

/-- A server of the configuration, with `discovery_cache_seconds` in microseconds. -/
structure CatalogServer where
  name : String
  transport : String
  hasTransport : Bool
  configured : CatalogKind → List PyDict
  limits : DiscoveryLimits
  cacheSeconds : Instant
  valid : validServerName name = true
  cache_nonneg : 0 ≤ cacheSeconds

structure CatalogKey where
  serverName : String
  kind : CatalogKind
  deriving DecidableEq, Repr

def PyJson.dict? : PyJson → Option PyDict
  | .dict fields => some fields
  | _ => Option.none

namespace CatalogServer

variable (server : CatalogServer) (kind : CatalogKind)

def key : CatalogKey := ⟨server.name, kind⟩

/-- The enabled values, with the configured routing identity. -/
def entries (values : List PyDict) : List PyDict :=
  (McpServer.mk server.name server.transport (.ok values) server.valid).enabledEntries values

def localValues : Option (List PyDict) :=
  if !(server.configured kind).isEmpty then some (server.configured kind)
  else if !server.hasTransport then some []
  else none

/-- The values of a connection whose server has these capabilities and replies. -/
def discoveredValues (capabilities : List String) (replies : ℕ → ListReply) :
    Option (List PyDict) :=
  match (pages kind server.limits capabilities replies).result with
  | .ok values => values.mapM PyJson.dict?
  | .error _ => none

end CatalogServer

/-- The configuration: its servers have different names. -/
structure CatalogConfig where
  servers : List CatalogServer
  discoveryConcurrency : ℕ
  unique : (servers.map CatalogServer.name).Nodup

/-- Where a call stands. From `waitingSlot` on it holds the lock of its catalog. -/
inductive CatalogPhase where
  | waiting
  | waitingSlot
  | discovering
  | returned (values : List PyDict)
  | failed
  | cancelled

structure CatalogCall where
  server : CatalogServer
  kind : CatalogKind
  phase : CatalogPhase

namespace CatalogCall

def key (c : CatalogCall) : CatalogKey := c.server.key c.kind

def holdsLock (c : CatalogCall) : Bool :=
  match c.phase with
  | .waitingSlot | .discovering => true
  | _ => false

def isDiscovering (c : CatalogCall) : Bool :=
  match c.phase with
  | .discovering => true
  | _ => false

def isDone (c : CatalogCall) : Bool :=
  match c.phase with
  | .returned _ | .failed | .cancelled => true
  | _ => false

end CatalogCall

structure StoredCatalog where
  server : CatalogServer
  kind : CatalogKind
  at' : Instant
  values : List PyDict

def StoredCatalog.key (c : StoredCatalog) : CatalogKey := c.server.key c.kind

def StoredCatalog.expires (c : StoredCatalog) : Instant := c.at' + c.server.cacheSeconds

inductive CatalogEntry where
  | asked (server : CatalogServer) (kind : CatalogKind) (at' : Instant)
  | stored (c : StoredCatalog)
  | returned (server : CatalogServer) (kind : CatalogKind) (at' : Instant) (values : List PyDict)
  | invalidated

/-- `catalogs` has the time at which an entry expires. `history` is what has happened, with the
newest entry first; no step reads it. -/
structure CatalogWorld where
  catalogs : List (CatalogKey × (Instant × List PyDict))
  calls : List CatalogCall
  clock : Instant
  history : List CatalogEntry

namespace CatalogWorld

def initial (clock : Instant) : CatalogWorld := ⟨[], [], clock, []⟩

def Unlocked (w : CatalogWorld) (key : CatalogKey) : Prop :=
  ∀ c ∈ w.calls, c.key = key → c.holdsLock = false

def fresh (w : CatalogWorld) (key : CatalogKey) (now : Instant) : Option (List PyDict) :=
  match w.catalogs.lookup key with
  | some (expires, values) => if now < expires then some values else none
  | none => none

/-- The call `i` moves on at a time. -/
def move (w : CatalogWorld) (i : ℕ) (c : CatalogCall) (phase : CatalogPhase) (now : Instant) :
    CatalogWorld :=
  { w with calls := w.calls.set i { c with phase }, clock := now }

def log (w : CatalogWorld) (entries : List CatalogEntry) : CatalogWorld :=
  { w with history := entries ++ w.history }

/-- The end of `_catalog`: the values are cached and returned. -/
def store (w : CatalogWorld) (i : ℕ) (c : CatalogCall) (values : List PyDict) (now : Instant) :
    CatalogWorld :=
  let entries := c.server.entries values
  { (w.move i c (.returned entries) now).log
      [.returned c.server c.kind now entries, .stored ⟨c.server, c.kind, now, entries⟩] with
    catalogs := Dictionary.put w.catalogs c.key (now + c.server.cacheSeconds, entries) }

/-- What happens between two points where a call waits; the time is that of `monotonic()`. -/
inductive Step (config : CatalogConfig) (w : CatalogWorld) : Instant → CatalogWorld → Prop
  | call {now : Instant} {server : CatalogServer} {kind : CatalogKind} (hnow : w.clock ≤ now)
      (hserver : server ∈ config.servers) :
      Step config w now { w with calls := w.calls ++ [⟨server, kind, .waiting⟩], clock := now }
  | hit {now : Instant} {i : ℕ} {c : CatalogCall} {values : List PyDict} (hnow : w.clock ≤ now)
      (hi : w.calls[i]? = some c) (hphase : c.phase = .waiting) (hfree : w.Unlocked c.key)
      (hfresh : w.fresh c.key now = some values) :
      Step config w now ((w.move i c (.returned values) now).log
        [.returned c.server c.kind now values])
  | configured {now : Instant} {i : ℕ} {c : CatalogCall} {values : List PyDict}
      (hnow : w.clock ≤ now) (hi : w.calls[i]? = some c) (hphase : c.phase = .waiting)
      (hfree : w.Unlocked c.key) (hfresh : w.fresh c.key now = none)
      (hlocal : c.server.localValues c.kind = some values) :
      Step config w now (w.store i c values now)
  | lock {now : Instant} {i : ℕ} {c : CatalogCall} (hnow : w.clock ≤ now)
      (hi : w.calls[i]? = some c) (hphase : c.phase = .waiting) (hfree : w.Unlocked c.key)
      (hfresh : w.fresh c.key now = none) (hlocal : c.server.localValues c.kind = none) :
      Step config w now (w.move i c .waitingSlot now)
  | slot {now : Instant} {i : ℕ} {c : CatalogCall} (hnow : w.clock ≤ now)
      (hi : w.calls[i]? = some c) (hphase : c.phase = .waitingSlot)
      (hslots : w.calls.countP CatalogCall.isDiscovering < config.discoveryConcurrency) :
      Step config w now ((w.move i c .discovering now).log [.asked c.server c.kind now])
  | discovered {now : Instant} {i : ℕ} {c : CatalogCall} {capabilities : List String}
      {replies : ℕ → ListReply} {values : List PyDict} (hnow : w.clock ≤ now)
      (hi : w.calls[i]? = some c) (hphase : c.phase = .discovering)
      (hvalues : c.server.discoveredValues c.kind capabilities replies = some values) :
      Step config w now (w.store i c values now)
  | failed {now : Instant} {i : ℕ} {c : CatalogCall} (hnow : w.clock ≤ now)
      (hi : w.calls[i]? = some c) (hphase : c.phase = .discovering) :
      Step config w now (w.move i c .failed now)
  | cancel {now : Instant} {i : ℕ} {c : CatalogCall} (hnow : w.clock ≤ now)
      (hi : w.calls[i]? = some c) (hopen : c.isDone = false) :
      Step config w now (w.move i c .cancelled now)
  | invalidate {now : Instant} (hnow : w.clock ≤ now) :
      Step config w now { w.log [.invalidated] with catalogs := [], clock := now }

end CatalogWorld

/-! ### What a run should look like -/

/-- The catalog that has been stored last, unless all catalogs have been dropped since. -/
def lastStored (key : CatalogKey) : List CatalogEntry → Option StoredCatalog
  | [] => none
  | .stored c :: before => if c.key = key then some c else lastStored key before
  | .invalidated :: _ => none
  | .asked .. :: before | .returned .. :: before => lastStored key before

/-- The values are those of the configuration or of a whole catalog that the server has given. -/
def CatalogServer.Provides (server : CatalogServer) (kind : CatalogKind) (values : List PyDict) :
    Prop :=
  (∃ found, server.localValues kind = some found ∧ values = server.entries found) ∨
    (server.localValues kind = none ∧ ∃ capabilities replies found,
      server.discoveredValues kind capabilities replies = some found ∧
        values = server.entries found)

/-- Whatever the server says of itself, an item is routed as configured. -/
def CatalogServer.Routes (server : CatalogServer) (item : PyDict) : Prop :=
  item.get "server_name" = .str server.name ∧ item.get "transport" = .str server.transport

/-- An entry of the history against what has happened before it. -/
def CatalogEntry.Justified (before : List CatalogEntry) : CatalogEntry → Prop
  | .asked server kind now => ∀ c, lastStored (server.key kind) before = some c → c.expires ≤ now
  | .stored c => c.server.Provides c.kind c.values ∧ ∀ item ∈ c.values, c.server.Routes item
  | .returned server kind now values => ∃ c, lastStored (server.key kind) before = some c ∧
      c.server = server ∧ c.kind = kind ∧ c.values = values ∧ c.at' ≤ now ∧
      (now = c.at' ∨ now < c.expires)
  | .invalidated => True

def CatalogOrderly : List CatalogEntry → Prop
  | [] => True
  | e :: before => e.Justified before ∧ CatalogOrderly before

end AgentDemo
