import AgentDemo.Mcp.Catalog

/-! `_pages`: a catalog is read page by page from a server that nobody trusts. -/
namespace AgentDemo

inductive CatalogKind where
  | tools
  | resources
  | prompts
  deriving DecidableEq, Repr

def CatalogKind.text : CatalogKind → String
  | .tools => "tools"
  | .resources => "resources"
  | .prompts => "prompts"

def CatalogKind.identityKey : CatalogKind → String
  | .resources => "uri"
  | .tools | .prompts => "name"

/-- The numbers among the values that a set can hold. -/
def PyJson.number? : PyJson → Option ℚ
  | .bool b => some (if b then 1 else 0)
  | .int n => some n
  | .float (.finite q) => some q
  | _ => Option.none

/-- `==` on the values that a set can hold. -/
def PyJson.eqHashed : PyJson → PyJson → Bool
  | .none, .none => true
  | .str s, .str t => s = t
  | .float (.infinite a), .float (.infinite b) => a = b
  | x, y =>
    match x.number?, y.number? with
    | some p, some q => p = q
    | _, _ => false

def PyJson.hashable : PyJson → Bool
  | .list _ | .dict _ => false
  | _ => true

/-- The exceptions of `_pages`, with the text of a `RuntimeError`. -/
inductive DiscoveryError where
  | runtimeError (message : String)
  | typeError
  | unicodeError
  | mcpError (code : ℤ)
  | requestFailed
  deriving DecidableEq, Repr

/-- What comes back from one list request. -/
inductive ListReply where
  | page (page : PyDict)
  | mcpError (code : ℤ)
  | failed

/-- The limits of a server. `pageBytes` is the length of the encoded JSON text of a page, unless
the text cannot be encoded. -/
structure DiscoveryLimits where
  maxPages : ℕ
  maxItems : ℕ
  maxResponseBytes : ℕ
  pageBytes : PyDict → Option ℕ

/-- `item.get(...) if isinstance(item, dict) else None`. -/
def itemIdentity (kind : CatalogKind) : PyJson → PyJson
  | .dict fields => PyDict.get fields kind.identityKey
  | _ => .none

/-- `values` and `seen_names`. -/
structure Collected where
  values : List PyJson
  seenNames : List PyJson

def readItems (kind : CatalogKind) (maxItems : ℕ) (s : Collected) :
    List PyJson → Except DiscoveryError Collected
  | [] => .ok s
  | item :: rest =>
    let identity := itemIdentity kind item
    if !identity.truthy then
      .error (.runtimeError "MCP catalog contains missing or duplicate identifiers")
    else if !identity.hashable then .error .typeError
    else if s.seenNames.any identity.eqHashed then
      .error (.runtimeError "MCP catalog contains missing or duplicate identifiers")
    else if maxItems < s.values.length + 1 then
      .error (.runtimeError "MCP catalog exceeded its item limit")
    else readItems kind maxItems ⟨s.values ++ [item], s.seenNames ++ [identity]⟩ rest

def nextCursor (page : PyDict) : PyJson := page.get "nextCursor"

inductive RoundEnd where
  | returned (values : List PyJson)
  | more (s : Collected) (cursor : String)

def readPage (kind : CatalogKind) (limits : DiscoveryLimits) (s : Collected)
    (seenCursors : List String) : ListReply → Except DiscoveryError RoundEnd
  | .failed => .error .requestFailed
  | .mcpError code =>
    if code = -32601 ∧ kind ≠ .tools then .ok (.returned []) else .error (.mcpError code)
  | .page page =>
    match limits.pageBytes page with
    | none => .error .unicodeError
    | some size =>
      if limits.maxResponseBytes < size then
        .error (.runtimeError "MCP catalog response exceeded its byte limit")
      else
        match page.get kind.text with
        | .list batch =>
          match readItems kind limits.maxItems s batch with
          | .error e => .error e
          | .ok s =>
            if !(nextCursor page).truthy then .ok (.returned s.values)
            else
              match nextCursor page with
              | .str cursor =>
                if cursor ∈ seenCursors then
                  .error (.runtimeError "MCP catalog repeated an invalid pagination cursor")
                else .ok (.more s cursor)
              | _ => .error (.runtimeError "MCP catalog repeated an invalid pagination cursor")
        | _ => .error (.runtimeError "MCP catalog response is missing its item list")

/-- The requests sent, each with its cursor, and the result. -/
structure Discovery where
  requests : List (Option String)
  result : Except DiscoveryError (List PyJson)

/-- The loop of `_pages` with `pages` rounds left. The server answers the request `i` with
`replies i`. -/
def readPages (kind : CatalogKind) (limits : DiscoveryLimits) (replies : ℕ → ListReply) :
    (pages i : ℕ) → Collected → List String → Option String → Discovery
  | 0, _, _, _, _ => ⟨[], .error (.runtimeError "MCP catalog exceeded its page limit")⟩
  | pages + 1, i, s, seenCursors, cursor =>
    match readPage kind limits s seenCursors (replies i) with
    | .error e => ⟨[cursor], .error e⟩
    | .ok (.returned values) => ⟨[cursor], .ok values⟩
    | .ok (.more s next) =>
      let rest := readPages kind limits replies pages (i + 1) s (next :: seenCursors) (some next)
      ⟨cursor :: rest.requests, rest.result⟩

/-- `_pages`; `capabilities` are the keys of the capabilities of the server. -/
def pages (kind : CatalogKind) (limits : DiscoveryLimits) (capabilities : List String)
    (replies : ℕ → ListReply) : Discovery :=
  if kind.text ∈ capabilities then readPages kind limits replies limits.maxPages 0 ⟨[], []⟩ [] none
  else ⟨[], .ok []⟩

/-! ### What is returned -/

def pageItems (kind : CatalogKind) : ListReply → List PyJson
  | .page page =>
    match page.get kind.text with
    | .list batch => batch
    | _ => []
  | _ => []

/-- A page with an item list; `last` tells whether it has no next cursor. -/
def IsPage (kind : CatalogKind) (last : Bool) : ListReply → Prop
  | .page page => (∃ batch, page.get kind.text = .list batch) ∧ (nextCursor page).truthy = !last
  | _ => False

/-- The items of the pages up to `n`. -/
def catalogItems (kind : CatalogKind) (replies : ℕ → ListReply) (n : ℕ) : List PyJson :=
  (List.range n).flatMap fun i => pageItems kind (replies i)

structure Collecting (kind : CatalogKind) (maxItems : ℕ) (s : Collected) : Prop where
  names : s.seenNames = s.values.map (itemIdentity kind)
  distinct :
    s.values.Pairwise fun x y => (itemIdentity kind y).eqHashed (itemIdentity kind x) = false
  bounded : s.values.length ≤ maxItems

theorem readItems_eq_ok {kind : CatalogKind} {maxItems : ℕ} {s s' : Collected}
    {batch : List PyJson} (hs : Collecting kind maxItems s)
    (h : readItems kind maxItems s batch = .ok s') :
    Collecting kind maxItems s' ∧ s'.values = s.values ++ batch := by
  induction batch generalizing s with
  | nil =>
    obtain rfl := Except.ok.inj h
    exact ⟨hs, (List.append_nil _).symm⟩
  | cons item rest ih =>
    rw [readItems] at h
    split_ifs at h with htruthy hhash hseen hlimit
    have hnext : Collecting kind maxItems
        ⟨s.values ++ [item], s.seenNames ++ [itemIdentity kind item]⟩ := by
      refine ⟨by simp [hs.names], ?_, ?_⟩
      · refine List.pairwise_append.mpr ⟨hs.distinct, List.pairwise_singleton _ _, ?_⟩
        intro x hx y hy
        obtain rfl := List.mem_singleton.mp hy
        by_contra hsame
        refine hseen (List.any_eq_true.mpr ⟨itemIdentity kind x, ?_, by simpa using hsame⟩)
        rw [hs.names]
        exact List.mem_map_of_mem hx
      · simpa using hlimit
    obtain ⟨hs', hvalues⟩ := ih hnext h
    exact ⟨hs', by rw [hvalues, List.append_assoc]; rfl⟩

/-- A round that goes on has read a page with a next cursor, one that returns a last page or the
answer that there is no such method. -/
theorem readPage_eq_ok {kind : CatalogKind} {limits : DiscoveryLimits} {s : Collected}
    {seenCursors : List String} {reply : ListReply} {roundEnd : RoundEnd}
    (hs : Collecting kind limits.maxItems s)
    (h : readPage kind limits s seenCursors reply = .ok roundEnd) :
    (roundEnd = .returned [] ∧ kind ≠ .tools ∧ reply = .mcpError (-32601)) ∨
    ∃ s', Collecting kind limits.maxItems s' ∧ s'.values = s.values ++ pageItems kind reply ∧
      ((IsPage kind true reply ∧ roundEnd = .returned s'.values) ∨
        (IsPage kind false reply ∧ ∃ cursor, roundEnd = .more s' cursor)) := by
  cases reply with
  | failed => cases h
  | mcpError code =>
    rw [readPage] at h
    split_ifs at h with hcode
    exact Or.inl ⟨(Except.ok.inj h).symm, hcode.2, by rw [hcode.1]⟩
  | page page =>
    right
    rw [readPage] at h
    split at h
    · cases h
    split at h
    · cases h
    split at h
    next batch hbatch =>
      have hitems : pageItems kind (.page page) = batch := by rw [pageItems, hbatch]
      split at h
      · cases h
      next s' hread =>
        obtain ⟨hs', hvalues⟩ := readItems_eq_ok hs hread
        refine ⟨s', hs', by rw [hvalues, hitems], ?_⟩
        split at h
        next hlast =>
          exact Or.inl ⟨⟨⟨batch, hbatch⟩, by simpa using hlast⟩, (Except.ok.inj h).symm⟩
        next hlast =>
          split at h
          next cursor _ =>
            split_ifs at h with hseen
            exact Or.inr ⟨⟨⟨batch, hbatch⟩, by simpa using hlast⟩, cursor, (Except.ok.inj h).symm⟩
          next => cases h
    next => cases h

theorem not_isPage_both {kind : CatalogKind} {reply : ListReply} (h : IsPage kind true reply) :
    ¬ IsPage kind false reply := by
  intro h'
  cases reply with
  | page page => exact absurd (h.2.symm.trans h'.2) (by decide)
  | mcpError code => exact h
  | failed => exact h

/-- All the pages before `n` have a next cursor. -/
def PagesBefore (kind : CatalogKind) (replies : ℕ → ListReply) (n : ℕ) : Prop :=
  ∀ j < n, IsPage kind false (replies j)

/-- The results that `_pages` may return. -/
inductive Discovered (kind : CatalogKind) (maxItems : ℕ) (replies : ℕ → ListReply) (maxPages : ℕ) :
    List PyJson → Prop
  | noMethod (n : ℕ) (hn : n < maxPages) (hbefore : PagesBefore kind replies n)
      (hkind : kind ≠ .tools) (hreply : replies n = .mcpError (-32601)) :
      Discovered kind maxItems replies maxPages []
  | complete (n : ℕ) (hn : n < maxPages) (hbefore : PagesBefore kind replies n)
      (hlast : IsPage kind true (replies n))
      (hdistinct : (catalogItems kind replies (n + 1)).Pairwise fun x y =>
        (itemIdentity kind y).eqHashed (itemIdentity kind x) = false)
      (hbounded : (catalogItems kind replies (n + 1)).length ≤ maxItems) :
      Discovered kind maxItems replies maxPages (catalogItems kind replies (n + 1))

theorem catalogItems_succ (kind : CatalogKind) (replies : ℕ → ListReply) (n : ℕ) :
    catalogItems kind replies (n + 1) =
      catalogItems kind replies n ++ pageItems kind (replies n) := by
  simp [catalogItems, List.range_succ]

theorem readPages_spec {kind : CatalogKind} {limits : DiscoveryLimits} {replies : ℕ → ListReply}
    {pages i : ℕ} {s : Collected} {seenCursors : List String} {cursor : Option String}
    (hs : Collecting kind limits.maxItems s) (hvalues : s.values = catalogItems kind replies i)
    (hbefore : PagesBefore kind replies i) :
    (readPages kind limits replies pages i s seenCursors cursor).requests.length ≤ pages ∧
      ∀ values, (readPages kind limits replies pages i s seenCursors cursor).result = .ok values →
        Discovered kind limits.maxItems replies (i + pages) values := by
  induction pages generalizing i s seenCursors cursor with
  | zero => exact ⟨le_rfl, nofun⟩
  | succ pages ih =>
    rw [readPages]
    cases hround : readPage kind limits s seenCursors (replies i) with
    | error e => exact ⟨by simp, nofun⟩
    | ok roundEnd =>
      rcases readPage_eq_ok hs hround with ⟨rfl, hkind, hreply⟩ |
        ⟨s', hs', hitems, ⟨hpage, rfl⟩ | ⟨hpage, next, rfl⟩⟩
      · refine ⟨by simp, fun values h => ?_⟩
        obtain rfl := Except.ok.inj h
        exact .noMethod i (by omega) hbefore hkind hreply
      · rw [hvalues, ← catalogItems_succ] at hitems
        refine ⟨by simp, fun values h => ?_⟩
        obtain rfl := Except.ok.inj h
        rw [hitems]
        exact .complete i (by omega) hbefore hpage (hitems ▸ hs'.distinct) (hitems ▸ hs'.bounded)
      · have hbefore' : PagesBefore kind replies (i + 1) := by
          intro j hj
          rcases Nat.lt_succ_iff_lt_or_eq.mp hj with hj | rfl
          · exact hbefore j hj
          · exact hpage
        have hvalues' : s'.values = catalogItems kind replies (i + 1) := by
          rw [hitems, hvalues, catalogItems_succ]
        obtain ⟨hrequests, hresult⟩ := @ih (i + 1) s' (next :: seenCursors) (some next) hs' hvalues'
          hbefore'
        refine ⟨by simpa using hrequests, fun values h => ?_⟩
        rw [show i + (pages + 1) = i + 1 + pages by omega]
        exact hresult values h

/-- At most `discovery_max_pages` requests are sent, and a result is empty, as the server has no
such capability or method, or the whole catalog with distinct identifiers within the item limit;
it is never a part of the catalog. -/
theorem pages_complete (kind : CatalogKind) (limits : DiscoveryLimits) (capabilities : List String)
    (replies : ℕ → ListReply) :
    (pages kind limits capabilities replies).requests.length ≤ limits.maxPages ∧
    ∀ values, (pages kind limits capabilities replies).result = .ok values →
      (values = [] ∧ kind.text ∉ capabilities ∨
        Discovered kind limits.maxItems replies limits.maxPages values) ∧
      ∀ n, PagesBefore kind replies n → IsPage kind true (replies n) →
        values = [] ∨ values = catalogItems kind replies (n + 1) := by
  unfold pages
  split_ifs with hkind
  · have hstart : Collecting kind limits.maxItems ⟨[], []⟩ :=
      ⟨rfl, List.Pairwise.nil, Nat.zero_le _⟩
    obtain ⟨hrequests, hresult⟩ := @readPages_spec kind limits replies limits.maxPages 0 ⟨[], []⟩ []
      none hstart rfl fun j hj => absurd hj (Nat.not_lt_zero j)
    refine ⟨hrequests, fun values h => ?_⟩
    have hdiscovered := hresult values h
    rw [Nat.zero_add] at hdiscovered
    refine ⟨Or.inr hdiscovered, fun n hbefore hlast => ?_⟩
    cases hdiscovered with
    | noMethod => exact Or.inl rfl
    | complete m _ hbefore' hlast' =>
      rcases lt_trichotomy m n with hlt | rfl | hlt
      · exact (not_isPage_both hlast' (hbefore m hlt)).elim
      · exact Or.inr rfl
      · exact (not_isPage_both hlast (hbefore' n hlt)).elim
  · refine ⟨Nat.zero_le _, fun values h => ?_⟩
    obtain rfl := Except.ok.inj h
    exact ⟨Or.inl ⟨rfl, hkind⟩, fun _ _ _ => Or.inl rfl⟩

end AgentDemo
