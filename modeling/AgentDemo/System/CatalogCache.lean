import AgentDemo.Library.Locks
import AgentDemo.Library.Transition
import AgentDemo.Mcp.CatalogCache

/-! Calls of `_catalog` in any order: one connection for a catalog at a time, no more of them than
there are slots, and no result that is out of date. -/
namespace AgentDemo

/-! ### The routing identity -/

theorem find?_filter_ne {d : PyDict} {key k : String} (h : k ≠ key) :
    List.find? (·.1 = k) (d.filter (·.1 ≠ key)) = List.find? (·.1 = k) d := by
  induction d with
  | nil => rfl
  | cons p rest ih =>
    by_cases hp : p.1 = k
    · have hkey : p.1 ≠ key := fun heq => h (hp.symm.trans heq)
      rw [List.filter_cons_of_pos (by simpa using hkey), List.find?_cons_of_pos (by simpa using hp),
        List.find?_cons_of_pos (by simpa using hp)]
    · rw [List.find?_cons_of_neg (by simpa using hp), ← ih]
      by_cases hkey : p.1 = key
      · rw [List.filter_cons_of_neg (by simpa using hkey)]
      · rw [List.filter_cons_of_pos (by simpa using hkey),
          List.find?_cons_of_neg (by simpa using hp)]

theorem find?_put (d : PyDict) (key k : String) (value : PyJson) :
    (d.put key value).find? k = if k = key then some value else d.find? k := by
  unfold PyDict.put PyDict.find?
  rw [List.find?_append]
  by_cases hk : k = key
  · subst hk
    have hnone : List.find? (·.1 = k) (d.filter (·.1 ≠ k)) = none := by
      rw [List.find?_eq_none]
      intro p hp
      simpa using (List.mem_filter.mp hp).2
    rw [hnone, if_pos rfl, Option.none_or, List.find?_cons_of_pos (by simp)]
    rfl
  · have hkey : key ≠ k := fun heq => hk heq.symm
    rw [if_neg hk, find?_filter_ne hk, List.find?_cons_of_neg (by simpa using hkey),
      List.find?_nil, Option.or_none]

theorem get_put (d : PyDict) (key k : String) (value : PyJson) :
    (d.put key value).get k = if k = key then value else d.get k := by
  unfold PyDict.get
  rw [find?_put]
  split_ifs <;> rfl

theorem routes_entries (server : CatalogServer) (values : List PyDict) :
    ∀ item ∈ server.entries values, server.Routes item := by
  intro item hitem
  obtain ⟨d, -, rfl⟩ := List.mem_map.mp hitem
  unfold CatalogServer.Routes
  rw [get_put, get_put, get_put, if_neg (by decide), if_pos rfl, if_pos rfl]
  exact ⟨rfl, rfl⟩

/-! ### The history -/

theorem lastStored_key {key : CatalogKey} {history : List CatalogEntry} {c : StoredCatalog}
    (h : lastStored key history = some c) : c.key = key := by
  induction history with
  | nil => cases h
  | cons e before ih =>
    cases e with
    | asked server kind now => exact ih h
    | stored c' =>
      rw [lastStored] at h
      split_ifs at h with hkey
      · exact Option.some.inj h ▸ hkey
      · exact ih h
    | returned server kind now values => exact ih h
    | invalidated => cases h

structure CacheOk (config : CatalogConfig) (w : CatalogWorld) : Prop where
  lock : ∀ key, Exclusive (fun c => c.key = key ∧ c.holdsLock = true) w.calls
  slots : w.calls.countP CatalogCall.isDiscovering ≤ config.discoveryConcurrency
  known : ∀ c ∈ w.calls, c.server ∈ config.servers
  cached : ∀ key, w.catalogs.lookup key =
    (lastStored key w.history).map fun c => (c.expires, c.values)
  past : ∀ key c, lastStored key w.history = some c → c.at' ≤ w.clock ∧ c.server ∈ config.servers
  missed : ∀ c ∈ w.calls, c.holdsLock = true → c.server.localValues c.kind = none ∧
    ∀ s, lastStored c.key w.history = some s → s.expires ≤ w.clock
  orderly : CatalogOrderly w.history

namespace CacheOk

variable {config : CatalogConfig} {w w' : CatalogWorld} {i : ℕ} {c : CatalogCall}
  {now : Instant} {values : List PyDict}

theorem initial (config : CatalogConfig) (clock : Instant) :
    CacheOk config (CatalogWorld.initial clock) where
  lock key := Exclusive.nil _
  slots := Nat.zero_le _
  known c h := absurd h List.not_mem_nil
  cached key := rfl
  past key c h := by cases h
  missed c h := absurd h List.not_mem_nil
  orderly := trivial

/-- A call moves on: with the lock only if it had it or nobody does, and with a slot only if it had
one or one is free. -/
theorem move (h : CacheOk config w) (hi : w.calls[i]? = some c) (hnow : w.clock ≤ now)
    (phase : CatalogPhase)
    (hlock : ({ c with phase } : CatalogCall).holdsLock = true →
      c.holdsLock = true ∨ w.Unlocked c.key)
    (hslot : ({ c with phase } : CatalogCall).isDiscovering = true → c.isDiscovering = true ∨
      w.calls.countP CatalogCall.isDiscovering < config.discoveryConcurrency)
    (hmissed : ({ c with phase } : CatalogCall).holdsLock = true →
      c.server.localValues c.kind = none ∧
        ∀ s, lastStored c.key w.history = some s → s.expires ≤ now) :
    CacheOk config (w.move i c phase now) where
  lock key := by
    by_cases hkey : c.key = key ∧ w.Unlocked c.key
    · refine Exclusive.set_free fun u hu hholds => ?_
      obtain ⟨rfl, hfree⟩ := hkey
      exact Bool.false_ne_true ((hfree u hu hholds.1).symm.trans hholds.2)
    · refine (h.lock key).set hi ?_
      rintro ⟨heq, hholds⟩
      rcases hlock hholds with hown | hfree
      · exact ⟨heq, hown⟩
      · exact absurd ⟨heq, hfree⟩ hkey
  slots := by
    obtain ⟨hlt, hget⟩ := List.getElem?_eq_some_iff.mp hi
    have hcount : (if c.isDiscovering then 1 else 0) ≤
        w.calls.countP CatalogCall.isDiscovering := by
      split_ifs with hc
      · exact List.countP_pos_iff.mpr ⟨c, List.mem_of_getElem? hi, hc⟩
      · exact Nat.zero_le _
    have hslots := h.slots
    unfold CatalogWorld.move
    dsimp only
    rw [List.countP_set hlt, hget]
    by_cases hnew : ({ c with phase } : CatalogCall).isDiscovering = true
    · rcases hslot hnew with hold | hfree
      · rw [if_pos hold, if_pos hnew]
        rw [if_pos hold] at hcount
        omega
      · rw [if_pos hnew]
        split_ifs at hcount ⊢ <;> omega
    · rw [if_neg hnew]
      omega
  known d hd := by
    rcases mem_set_cases hd with rfl | ⟨j, -, hj⟩
    · exact h.known c (List.mem_of_getElem? hi)
    · exact h.known d (List.mem_of_getElem? hj)
  cached := h.cached
  past key s hs := ⟨(h.past key s hs).1.trans hnow, (h.past key s hs).2⟩
  missed d hd hholds := by
    rcases mem_set_cases hd with rfl | ⟨j, -, hj⟩
    · exact hmissed hholds
    · obtain ⟨hlocal, hexpired⟩ := h.missed d (List.mem_of_getElem? hj) hholds
      exact ⟨hlocal, fun s hs => (hexpired s hs).trans hnow⟩
  orderly := h.orderly

/-- A call ends or fails to go on: it gives up what it holds. -/
theorem leave (h : CacheOk config w) (hi : w.calls[i]? = some c) (hnow : w.clock ≤ now)
    {phase : CatalogPhase} (hlock : ({ c with phase } : CatalogCall).holdsLock = false)
    (hslot : ({ c with phase } : CatalogCall).isDiscovering = false) :
    CacheOk config (w.move i c phase now) := by
  refine h.move hi hnow phase ?_ ?_ ?_
  · intro hholds
    exact absurd (hlock.symm.trans hholds) Bool.false_ne_true
  · intro hasks
    exact absurd (hslot.symm.trans hasks) Bool.false_ne_true
  · intro hholds
    exact absurd (hlock.symm.trans hholds) Bool.false_ne_true

/-- An entry that stores and drops nothing. -/
theorem record {e : CatalogEntry} (h : CacheOk config w)
    (hlast : ∀ key, lastStored key (e :: w.history) = lastStored key w.history)
    (hjustified : e.Justified w.history) : CacheOk config (w.log [e]) where
  lock := h.lock
  slots := h.slots
  known := h.known
  cached key := (h.cached key).trans (by rw [← hlast key]; rfl)
  past key s hs := h.past key s ((hlast key).symm.trans hs)
  missed d hd hholds := by
    obtain ⟨hlocal, hexpired⟩ := h.missed d hd hholds
    exact ⟨hlocal, fun s hs => hexpired s ((hlast d.key).symm.trans hs)⟩
  orderly := ⟨hjustified, h.orderly⟩

/-- The stored catalog of a call is one of its own server. -/
theorem server_of_lastStored (h : CacheOk config w) (hi : w.calls[i]? = some c) {s : StoredCatalog}
    (hs : lastStored c.key w.history = some s) : s.server = c.server ∧ s.kind = c.kind := by
  have hkey : s.server.key s.kind = c.server.key c.kind := lastStored_key hs
  obtain ⟨hname, hkind⟩ := CatalogKey.mk.inj hkey
  refine ⟨?_, hkind⟩
  exact List.inj_on_of_nodup_map config.unique (h.past _ s hs).2
    (h.known c (List.mem_of_getElem? hi)) hname

theorem store (h : CacheOk config w) (hi : w.calls[i]? = some c) (hnow : w.clock ≤ now)
    (hown : c.holdsLock = true ∨ w.Unlocked c.key)
    (hprovides : c.server.Provides c.kind (c.server.entries values)) :
    CacheOk config (w.store i c values now) := by
  have hmove : CacheOk config (w.move i c (.returned (c.server.entries values)) now) :=
    h.leave hi hnow rfl rfl
  have hlast : ∀ key, lastStored key (w.store i c values now).history =
      if c.key = key then some ⟨c.server, c.kind, now, c.server.entries values⟩
      else lastStored key w.history := fun key => rfl
  refine ⟨hmove.lock, hmove.slots, hmove.known, ?_, ?_, ?_, ?_⟩
  · intro key
    rw [hlast]
    show (Dictionary.put w.catalogs c.key (now + c.server.cacheSeconds, _)).lookup key = _
    rw [Dictionary.lookup_put, h.cached key]
    by_cases hkey : c.key = key
    · rw [if_pos hkey, if_pos hkey.symm]
      rfl
    · rw [if_neg hkey, if_neg fun heq => hkey heq.symm]
  · intro key s hs
    rw [hlast] at hs
    split_ifs at hs with hkey
    · obtain rfl := Option.some.inj hs
      exact ⟨le_rfl, h.known c (List.mem_of_getElem? hi)⟩
    · exact ⟨(h.past key s hs).1.trans hnow, (h.past key s hs).2⟩
  · intro d hd hholds
    obtain ⟨hlocal, hexpired⟩ := hmove.missed d hd hholds
    refine ⟨hlocal, fun s hs => ?_⟩
    rw [hlast] at hs
    split_ifs at hs with hkey
    · exfalso
      rcases mem_set_cases hd with rfl | ⟨j, hne, hj⟩
      · exact absurd hholds (by simp [CatalogCall.holdsLock])
      · rcases hown with hc | hfree
        · exact (h.lock c.key).others hi ⟨rfl, hc⟩ hj hne ⟨hkey.symm, hholds⟩
        · exact absurd ((hfree d (List.mem_of_getElem? hj) hkey.symm).symm.trans hholds)
            Bool.false_ne_true
    · exact hexpired s hs
  · refine ⟨⟨_, if_pos rfl, rfl, rfl, rfl, le_rfl, Or.inl rfl⟩, ⟨hprovides, ?_⟩, h.orderly⟩
    exact routes_entries c.server values

theorem of_fresh (h : CacheOk config w) (hfresh : w.fresh c.key now = some values) :
    ∃ s, lastStored c.key w.history = some s ∧ s.values = values ∧ now < s.expires := by
  unfold CatalogWorld.fresh at hfresh
  rw [h.cached] at hfresh
  cases hs : lastStored c.key w.history with
  | none => simp [hs] at hfresh
  | some s =>
    rw [hs] at hfresh
    simp only [Option.map_some] at hfresh
    split_ifs at hfresh with hlt
    exact ⟨s, rfl, Option.some.inj hfresh, hlt⟩

theorem of_fresh_none (h : CacheOk config w) (hfresh : w.fresh c.key now = none)
    {s : StoredCatalog} (hs : lastStored c.key w.history = some s) : s.expires ≤ now := by
  unfold CatalogWorld.fresh at hfresh
  rw [h.cached, hs] at hfresh
  simp only [Option.map_some] at hfresh
  split_ifs at hfresh with hlt
  exact not_lt.mp hlt

theorem step (h : CacheOk config w) (hstep : CatalogWorld.Step config w now w') :
    CacheOk config w' := by
  cases hstep with
  | call hnow hserver =>
    refine ⟨fun key => (h.lock key).append (by simp [CatalogCall.holdsLock]), ?_, ?_, h.cached, ?_,
      ?_, h.orderly⟩
    · have hslots := h.slots
      rw [List.countP_append]
      simpa [CatalogCall.isDiscovering] using hslots
    · intro d hd
      rcases List.mem_append.mp hd with hd | hd
      · exact h.known d hd
      · rw [List.mem_singleton.mp hd]
        exact hserver
    · exact fun key s hs => ⟨(h.past key s hs).1.trans hnow, (h.past key s hs).2⟩
    · intro d hd hholds
      rcases List.mem_append.mp hd with hd | hd
      · obtain ⟨hlocal, hexpired⟩ := h.missed d hd hholds
        exact ⟨hlocal, fun s hs => (hexpired s hs).trans hnow⟩
      · rw [List.mem_singleton.mp hd] at hholds
        cases hholds
  | hit hnow hi hphase hfree hfresh =>
    obtain ⟨s, hs, hvalues, hlt⟩ := h.of_fresh hfresh
    obtain ⟨hserver, hkind⟩ := h.server_of_lastStored hi hs
    refine (h.leave hi hnow rfl rfl).record (fun key => rfl) ?_
    exact ⟨s, hs, hserver, hkind, hvalues, (h.past _ s hs).1.trans hnow, Or.inr hlt⟩
  | configured hnow hi hphase hfree hfresh hlocal =>
    exact h.store hi hnow (Or.inr hfree) (Or.inl ⟨_, hlocal, rfl⟩)
  | lock hnow hi hphase hfree hfresh hlocal =>
    refine h.move hi hnow _ (fun _ => Or.inr hfree) ?_ fun _ => ⟨hlocal, ?_⟩
    · intro hasks
      cases hasks
    · exact fun s hs => h.of_fresh_none hfresh hs
  | @slot i c hnow hi hphase hslots =>
    have hholds : c.holdsLock = true := by
      unfold CatalogCall.holdsLock
      rw [hphase]
    obtain ⟨hlocal, hexpired⟩ := h.missed c (List.mem_of_getElem? hi) hholds
    have hexpired' : ∀ s, lastStored c.key w.history = some s → s.expires ≤ now :=
      fun s hs => (hexpired s hs).trans hnow
    exact (h.move hi hnow .discovering (fun _ => Or.inl hholds) (fun _ => Or.inr hslots)
      fun _ => ⟨hlocal, hexpired'⟩).record (fun key => rfl) hexpired'
  | @discovered i c capabilities replies values hnow hi hphase hvalues =>
    have hholds : c.holdsLock = true := by
      unfold CatalogCall.holdsLock
      rw [hphase]
    obtain ⟨hlocal, -⟩ := h.missed c (List.mem_of_getElem? hi) hholds
    exact h.store hi hnow (Or.inl hholds)
      (Or.inr ⟨hlocal, capabilities, replies, values, hvalues, rfl⟩)
  | failed hnow hi hphase => exact h.leave hi hnow rfl rfl
  | cancel hnow hi hopen => exact h.leave hi hnow rfl rfl
  | invalidate hnow =>
    refine ⟨h.lock, h.slots, h.known, fun key => rfl, ?_, ?_, ⟨trivial, h.orderly⟩⟩
    · intro key s hs
      cases hs
    · exact fun d hd hholds => ⟨(h.missed d hd hholds).1, fun s hs => by cases hs⟩

end CacheOk

/-- The results of the calls are those of the history. -/
def CatalogWorld.Logged (w : CatalogWorld) : Prop :=
  ∀ c ∈ w.calls, ∀ values, c.phase = .returned values →
    ∃ now, .returned c.server c.kind now values ∈ w.history

theorem CatalogWorld.Logged.move {w : CatalogWorld} {i : ℕ} {c : CatalogCall} {now : Instant}
    {phase : CatalogPhase} (entries : List CatalogEntry) (h : w.Logged)
    (hphase : ∀ values, phase = .returned values →
      .returned c.server c.kind now values ∈ entries) :
    ((w.move i c phase now).log entries).Logged := by
  intro d hd values hvalues
  rcases mem_set_cases hd with rfl | ⟨j, -, hj⟩
  · exact ⟨now, List.mem_append_left _ (hphase values hvalues)⟩
  · obtain ⟨now', hmem⟩ := h d (List.mem_of_getElem? hj) values hvalues
    exact ⟨now', List.mem_append_right _ hmem⟩

theorem CatalogWorld.Logged.step {config : CatalogConfig} {w w' : CatalogWorld} {now : Instant}
    (h : w.Logged) (hstep : Step config w now w') : w'.Logged := by
  have store : ∀ (i : ℕ) (c : CatalogCall) (values : List PyDict),
      (w.store i c values now).Logged := by
    intro i c values
    refine h.move _ ?_
    rintro values' ⟨rfl⟩
    exact List.mem_cons_self
  cases hstep with
  | call hnow hserver =>
    intro d hd values hvalues
    rcases List.mem_append.mp hd with hd | hd
    · exact h d hd values hvalues
    · rw [List.mem_singleton.mp hd] at hvalues
      cases hvalues
  | hit hnow hi hphase hfree hfresh =>
    refine h.move _ ?_
    rintro values' ⟨rfl⟩
    exact List.mem_cons_self
  | configured hnow hi => exact store _ _ _
  | lock hnow hi => exact h.move [] fun values hvalues => by cases hvalues
  | slot hnow hi => exact h.move _ fun values hvalues => by cases hvalues
  | discovered hnow hi => exact store _ _ _
  | failed hnow hi => exact h.move [] fun values hvalues => by cases hvalues
  | cancel hnow hi => exact h.move [] fun values hvalues => by cases hvalues
  | invalidate hnow =>
    intro d hd values hvalues
    obtain ⟨now', hmem⟩ := h d hd values hvalues
    exact ⟨now', List.mem_cons_of_mem _ hmem⟩

/-- In every run at most one call asks a server for a catalog, no more calls ask than there are
slots, a server is asked only when no good catalog is cached, and whatever is returned is the
catalog that was stored last, still good and routed as configured. -/
theorem CatalogWorld.catalog_cache {config : CatalogConfig} {clock : Instant} {w : CatalogWorld}
    (h : Transition.Reaches (Step config) (initial clock) w) :
    (∀ key, Exclusive (fun c => c.key = key ∧ c.isDiscovering = true) w.calls) ∧
      w.calls.countP CatalogCall.isDiscovering ≤ config.discoveryConcurrency ∧
      w.Logged ∧ CatalogOrderly w.history := by
  have hlogged : w.Logged :=
    h.invariant (fun c hc => absurd hc List.not_mem_nil) fun _ _ _ hu hstep => hu.step hstep
  have hok : CacheOk config w :=
    h.invariant (CacheOk.initial config clock) fun _ _ _ hu hstep => hu.step hstep
  refine ⟨fun key i j c d hi hj hc hd => ?_, hok.slots, hlogged, hok.orderly⟩
  have holds_of_discovering : ∀ c : CatalogCall, c.isDiscovering = true → c.holdsLock = true := by
    intro c hc
    unfold CatalogCall.isDiscovering at hc
    unfold CatalogCall.holdsLock
    split at hc
    next hphase => rw [hphase]
    next => cases hc
  exact hok.lock key i j c d hi hj ⟨hc.1, holds_of_discovering c hc.2⟩
    ⟨hd.1, holds_of_discovering d hd.2⟩

/-! ### A server that gives a name of its own to what it offers -/

def sampleDocsServer : CatalogServer where
  name := "docs"
  transport := "http"
  hasTransport := true
  configured _ := []
  limits := ⟨1, 10, 1024, fun _ => some 60⟩
  cacheSeconds := seconds 60
  valid := by decide
  cache_nonneg := by decide

def sampleDocsConfig : CatalogConfig where
  servers := [sampleDocsServer]
  discoveryConcurrency := 1
  unique := by decide

def sampleFound : List PyDict := [[("name", .str "find"), ("server_name", .str "other")]]

def sampleReplies (_ : ℕ) : ListReply := .page [("tools", .list (sampleFound.map .dict))]

def sampleCatalogCall (phase : CatalogPhase) : CatalogCall := ⟨sampleDocsServer, .tools, phase⟩

namespace CatalogWorld

def sampleWaiting : CatalogWorld := ⟨[], [sampleCatalogCall .waiting], 0, []⟩

def sampleAsked : CatalogWorld :=
  ((sampleWaiting.move 0 (sampleCatalogCall .waiting) .waitingSlot 0).move 0
    (sampleCatalogCall .waitingSlot) .discovering 0).log [.asked sampleDocsServer .tools 0]

/-- It gets the catalog at second 1, and a second call comes at second 2. -/
def sampleStored : CatalogWorld :=
  let w := sampleAsked.store 0 (sampleCatalogCall .discovering) sampleFound (seconds 1)
  { w with calls := w.calls ++ [sampleCatalogCall .waiting], clock := seconds 2 }

/-- The second call finds the cached catalog at second 3. -/
def sampleCatalogs : CatalogWorld :=
  (sampleStored.move 1 (sampleCatalogCall .waiting)
    (.returned (sampleDocsServer.entries sampleFound)) (seconds 3)).log
      [.returned sampleDocsServer .tools (seconds 3) (sampleDocsServer.entries sampleFound)]

theorem unlocked_of_all {w : CatalogWorld} (h : (w.calls.all fun c => !c.holdsLock) = true)
    (key : CatalogKey) : w.Unlocked key := by
  intro c hc _
  simpa using List.all_eq_true.mp h c hc

theorem reaches_sampleCatalogs :
    Transition.Reaches (Step sampleDocsConfig) (initial 0) sampleCatalogs := by
  have hserver : sampleDocsServer ∈ sampleDocsConfig.servers := List.mem_singleton.mpr rfl
  have hcall : Step sampleDocsConfig (initial 0) 0 sampleWaiting := .call le_rfl hserver
  have hlock : Step sampleDocsConfig sampleWaiting 0
      (sampleWaiting.move 0 (sampleCatalogCall .waiting) .waitingSlot 0) :=
    .lock le_rfl rfl rfl (unlocked_of_all rfl _) rfl rfl
  have hslot : Step sampleDocsConfig
      (sampleWaiting.move 0 (sampleCatalogCall .waiting) .waitingSlot 0) 0 sampleAsked :=
    .slot le_rfl rfl rfl (by decide)
  have hdiscovered : Step sampleDocsConfig sampleAsked (seconds 1)
      (sampleAsked.store 0 (sampleCatalogCall .discovering) sampleFound (seconds 1)) :=
    @Step.discovered _ _ _ 0 (sampleCatalogCall .discovering) ["tools"] sampleReplies sampleFound
      (by decide) rfl rfl rfl
  have hnext : Step sampleDocsConfig
      (sampleAsked.store 0 (sampleCatalogCall .discovering) sampleFound (seconds 1)) (seconds 2)
      sampleStored := .call (by decide) hserver
  have hhit : Step sampleDocsConfig sampleStored (seconds 3) sampleCatalogs :=
    .hit (by decide) rfl rfl (unlocked_of_all rfl _) rfl
  exact (((((Transition.Reaches.refl _).tail hcall).tail hlock).tail hslot).tail
    hdiscovered).tail hnext |>.tail hhit

theorem catalog_cache_sample :
    (∀ key, Exclusive (fun c => c.key = key ∧ c.isDiscovering = true) sampleCatalogs.calls) ∧
      sampleCatalogs.calls.countP CatalogCall.isDiscovering ≤ 1 ∧
      sampleCatalogs.Logged ∧ CatalogOrderly sampleCatalogs.history :=
  catalog_cache reaches_sampleCatalogs

end CatalogWorld

end AgentDemo
