import AgentDemo.Library.FileTree

/-! `os.path.realpath(strict=False)`: the links of a path are replaced by what they point to, each
of them once. -/
namespace FileTree

variable {N C : Type*} [DecidableEq N]

/-- The links that have been met, with what they resolve to once that is known. -/
abbrev Seen (N : Type*) := List (List N × Option (List N))

/-- A resolved path, and the components that a loop of links has left as they were. -/
structure Joined (N : Type*) where
  path : List N
  left : List (Part N)
  ok : Bool
  seen : Seen N

namespace Tree

/-- The entry under a name, itself not followed; `limit` links may lead to its directory. -/
def lstat (t : Tree N C) (limit : ℕ) (loc : List N) (n : N) : Option (Entry N C) :=
  match t.walk limit [] (names loc) with
  | .ok loc => t.get (loc ++ [n])
  | .error _ => none

/-- The loop of `_joinrealpath`, where `descend` is the call for the target of a link. -/
def joinWith (t : Tree N C) (limit : ℕ)
    (descend : List N → List (Part N) → Seen N → Joined N) :
    List N → List (Part N) → Seen N → Joined N
  | path, [], seen => ⟨path, [], true, seen⟩
  | path, .here :: rest, seen => t.joinWith limit descend path rest seen
  | path, .up :: rest, seen => t.joinWith limit descend path.dropLast rest seen
  | path, .name n :: rest, seen =>
    match t.lstat limit path n with
    | some (.link target) =>
      match seen.lookup (path ++ [n]) with
      | some (some resolved) => t.joinWith limit descend resolved rest seen
      | some none => ⟨path ++ [n], rest, false, seen⟩
      | none =>
        let inner := descend (target.start path) target.parts
          (Dictionary.put seen (path ++ [n]) none)
        if inner.ok then
          t.joinWith limit descend inner.path rest
            (Dictionary.put inner.seen (path ++ [n]) (some inner.path))
        else ⟨inner.path, inner.left ++ rest, false, inner.seen⟩
    | _ => t.joinWith limit descend (path ++ [n]) rest seen

/-- `_joinrealpath` with a bound on the depth of its calls. -/
def joinRealPath (t : Tree N C) (limit : ℕ) :
    ℕ → List N → List (Part N) → Seen N → Joined N
  | 0, path, rest, seen => ⟨path, rest, false, seen⟩
  | depth + 1, path, rest, seen => t.joinWith limit (t.joinRealPath limit depth) path rest seen

def links (t : Tree N C) : List (List N) :=
  t.entries.filterMap fun e =>
    match e.2 with
    | .link _ => some e.1
    | _ => none

/-- Every link is met once, so that this depth is never used up. -/
def resolve (t : Tree N C) (limit : ℕ) (parts : List (Part N)) : Joined N :=
  t.joinRealPath limit (t.links.length + 1) [] parts []

end Tree

/-- `os.path.normpath` of an absolute path. -/
def normPath : List N → List (Part N) → List N
  | path, [] => path
  | path, .here :: rest => normPath path rest
  | path, .up :: rest => normPath path.dropLast rest
  | path, .name n :: rest => normPath (path ++ [n]) rest

/-- `os.path.realpath`. -/
def Tree.realPath (t : Tree N C) (limit : ℕ) (parts : List (Part N)) : List N :=
  normPath (t.resolve limit parts).path (t.resolve limit parts).left

variable {t : Tree N C} {limit : ℕ}

/-- Behind a path without links, the entry under a name is the one at its location. -/
theorem lstat_of_linkFree {loc : List N} (h : LinkFree t loc) (n : N) :
    t.lstat limit loc n = t.get (loc ++ [n]) := by
  unfold Tree.lstat
  cases hwalk : t.walk limit [] (names loc) with
  | ok loc' =>
    obtain ⟨k, -, hfollows⟩ := Tree.walk_eq_ok.mp hwalk
    rw [eq_of_follows_linkFree h hfollows]
  | error e =>
    cases hget : t.get (loc ++ [n]) with
    | none => rfl
    | some entry =>
      have hok := Tree.walk_eq_ok.mpr
        ⟨0, Nat.zero_le limit, follows_of_linkFree h (Tree.get_parent hget)⟩
      rw [hok] at hwalk
      cases hwalk

/-! ### A path that is resolved has no links -/

def Seen.LinkFree (t : Tree N C) (seen : Seen N) : Prop :=
  ∀ loc resolved, seen.lookup loc = some (some resolved) → FileTree.LinkFree t resolved

theorem Seen.LinkFree.put_none {seen : Seen N} (h : seen.LinkFree t) (loc : List N) :
    Seen.LinkFree t (Dictionary.put seen loc none) := by
  intro loc' resolved hlookup
  rw [Dictionary.lookup_put] at hlookup
  split_ifs at hlookup
  · cases hlookup
  · exact h loc' resolved hlookup

theorem Seen.LinkFree.put {seen : Seen N} (h : seen.LinkFree t) (loc : List N) {resolved : List N}
    (hresolved : FileTree.LinkFree t resolved) :
    Seen.LinkFree t (Dictionary.put seen loc (some resolved)) := by
  intro loc' resolved' hlookup
  rw [Dictionary.lookup_put] at hlookup
  split_ifs at hlookup
  · obtain rfl := Option.some.inj (Option.some.inj hlookup)
    exact hresolved
  · exact h loc' resolved' hlookup

def Joined.Sound (t : Tree N C) (j : Joined N) : Prop :=
  j.ok = true → LinkFree t j.path ∧ j.left = [] ∧ j.seen.LinkFree t

theorem joinWith_sound {descend : List N → List (Part N) → Seen N → Joined N}
    (hdescend : ∀ path rest seen, LinkFree t path → Seen.LinkFree t seen →
      (descend path rest seen).Sound t)
    {path : List N} {rest : List (Part N)} {seen : Seen N} (hpath : LinkFree t path)
    (hseen : seen.LinkFree t) : (t.joinWith limit descend path rest seen).Sound t := by
  induction rest generalizing path seen with
  | nil => exact fun _ => ⟨hpath, rfl, hseen⟩
  | cons p rest ih =>
    cases p with
    | here => exact ih hpath hseen
    | up => exact ih hpath.dropLast hseen
    | name n =>
      rw [Tree.joinWith, lstat_of_linkFree hpath]
      split
      next target hget =>
        split
        next resolved hlookup => exact ih (hseen _ _ hlookup) hseen
        next => exact fun hok => absurd hok Bool.false_ne_true
        next =>
          have hinner := hdescend _ target.parts _ (hpath.start target)
            (hseen.put_none (path ++ [n]))
          dsimp only
          split_ifs with hok
          · obtain ⟨hfree, -, hseen'⟩ := hinner hok
            exact ih hfree (hseen'.put _ hfree)
          · exact fun h => absurd h Bool.false_ne_true
      next hnone => exact ih (hpath.concat hnone) hseen

theorem joinRealPath_sound (depth : ℕ) {path : List N} (rest : List (Part N)) {seen : Seen N}
    (hpath : LinkFree t path) (hseen : seen.LinkFree t) :
    (t.joinRealPath limit depth path rest seen).Sound t := by
  induction depth generalizing path rest seen with
  | zero => exact fun hok => absurd hok Bool.false_ne_true
  | succ depth ih => exact joinWith_sound (fun _ rest _ => ih rest) hpath hseen

theorem realPath_of_ok {parts : List (Part N)} (h : (t.resolve limit parts).ok = true) :
    t.realPath limit parts = (t.resolve limit parts).path ∧
      LinkFree t (t.realPath limit parts) := by
  obtain ⟨hfree, hleft, -⟩ := joinRealPath_sound (t.links.length + 1) parts LinkFree.nil
    (fun loc resolved hlookup => by simp at hlookup) h
  have heq : t.realPath limit parts = (t.resolve limit parts).path := by
    unfold Tree.realPath
    rw [show (t.resolve limit parts).left = [] from hleft, normPath]
  exact ⟨heq, heq ▸ hfree⟩

/-! ### What the system opens is resolved to where it is -/

/-- `seen` while the system has at most `budget` links to follow: what is resolved is resolved as
the system does it, and what is not would take more links. -/
structure Seen.Agrees (t : Tree N C) (budget : ℕ) (seen : Seen N) : Prop where
  resolved : ∀ loc n loc', seen.lookup (loc ++ [n]) = some (some loc') →
    ∃ k, Follows t loc [.name n] loc' k
  unresolved : ∀ loc n loc' k, seen.lookup (loc ++ [n]) = some none →
    Follows t loc [.name n] loc' k → budget < k

theorem Seen.Agrees.mono {seen : Seen N} {budget budget' : ℕ} (h : seen.Agrees t budget)
    (hle : budget' ≤ budget) : seen.Agrees t budget' where
  resolved := h.resolved
  unresolved loc n loc' k hlookup hfollows :=
    hle.trans_lt (h.unresolved loc n loc' k hlookup hfollows)

/-- The target of a link costs less than the link. -/
theorem Seen.Agrees.descend {seen : Seen N} {path loc' : List N} {n : N} {budget k : ℕ}
    (h : seen.Agrees t budget) (hle : k ≤ budget) (hlink : Follows t path [.name n] loc' (k + 1)) :
    Seen.Agrees t k (Dictionary.put seen (path ++ [n]) none) where
  resolved loc m resolved hlookup := by
    rw [Dictionary.lookup_put] at hlookup
    split_ifs at hlookup
    · cases hlookup
    · exact h.resolved loc m resolved hlookup
  unresolved loc m resolved j hlookup hfollows := by
    rw [Dictionary.lookup_put] at hlookup
    split_ifs at hlookup with heq
    · obtain ⟨rfl, hlast⟩ := List.append_inj' heq rfl
      obtain rfl : m = n := by simpa using hlast
      obtain ⟨-, rfl⟩ := hlink.deterministic hfollows
      exact Nat.lt_succ_self k
    · exact hle.trans_lt (h.unresolved loc m resolved j hlookup hfollows)

def unseen (t : Tree N C) (seen : Seen N) : ℕ :=
  t.links.countP fun loc => decide (loc ∉ seen.map Prod.fst)

theorem unseen_mono {seen seen' : Seen N} (h : seen.map Prod.fst ⊆ seen'.map Prod.fst) :
    unseen t seen' ≤ unseen t seen := by
  refine List.countP_mono_left fun loc _ hloc => ?_
  simp only [decide_eq_true_eq] at hloc ⊢
  exact fun hmem => hloc (h hmem)

theorem keys_subset_put (seen : Seen N) (loc : List N) (value : Option (List N)) :
    seen.map Prod.fst ⊆ (Dictionary.put seen loc value).map Prod.fst :=
  fun _ hmem => Dictionary.mem_keys_put.mpr (Or.inr hmem)

theorem unseen_put_lt {seen : Seen N} {loc : List N} (hmem : loc ∈ t.links)
    (hlookup : seen.lookup loc = none) (value : Option (List N)) :
    unseen t (Dictionary.put seen loc value) < unseen t seen := by
  obtain ⟨before, after, hlinks⟩ := List.append_of_mem hmem
  have hkeys : loc ∉ seen.map Prod.fst := Dictionary.lookup_eq_none.mp hlookup
  have hput : loc ∈ (Dictionary.put seen loc value).map Prod.fst :=
    Dictionary.mem_keys_put.mpr (Or.inl rfl)
  have hle : ∀ l : List (List N),
      l.countP (fun x => decide (x ∉ (Dictionary.put seen loc value).map Prod.fst)) ≤
        l.countP fun x => decide (x ∉ seen.map Prod.fst) := by
    intro l
    refine List.countP_mono_left fun x _ hx => ?_
    simp only [decide_eq_true_eq] at hx ⊢
    exact fun hmem => hx (keys_subset_put seen loc value hmem)
  unfold unseen
  have hpos : decide (loc ∉ seen.map Prod.fst) = true := decide_eq_true hkeys
  have hneg : ¬ decide (loc ∉ (Dictionary.put seen loc value).map Prod.fst) = true := fun h =>
    of_decide_eq_true h hput
  rw [hlinks, List.countP_append, List.countP_append, List.countP_cons, List.countP_cons,
    if_pos hpos, if_neg hneg]
  have hbefore := hle before
  have hafter := hle after
  omega

theorem mem_links {loc : List N} {n : N} {target : Target N}
    (h : t.get (loc ++ [n]) = some (.link target)) : loc ++ [n] ∈ t.links := by
  unfold Tree.get at h
  rw [if_neg (by simp)] at h
  exact List.mem_filterMap.mpr ⟨_, (Dictionary.mem_iff_lookup t.keys).mpr h, rfl⟩

theorem unresolved_of_put {seen : Seen N} {loc loc' resolved : List N}
    (h : (Dictionary.put seen loc (some resolved)).lookup loc' = some none) :
    loc' ≠ loc ∧ seen.lookup loc' = some none := by
  rw [Dictionary.lookup_put] at h
  split_ifs at h with heq
  · cases h
  · exact ⟨heq, h⟩

/-- The call has arrived at `loc`, and all the links that it has met are resolved. -/
structure Joined.Arrives (t : Tree N C) (seen : Seen N) (loc : List N) (j : Joined N) : Prop where
  path : j.path = loc
  left : j.left = []
  ok : j.ok = true
  keys : seen.map Prod.fst ⊆ j.seen.map Prod.fst
  resolved : ∀ loc n loc', j.seen.lookup (loc ++ [n]) = some (some loc') →
    ∃ k, Follows t loc [.name n] loc' k
  unresolved : ∀ loc, j.seen.lookup loc = some none → seen.lookup loc = some none

theorem Joined.Arrives.extend {seen seen' : Seen N} {loc : List N} {j : Joined N}
    (h : j.Arrives t seen' loc) (hkeys : seen.map Prod.fst ⊆ seen'.map Prod.fst)
    (hunresolved : ∀ loc, seen'.lookup loc = some none → seen.lookup loc = some none) :
    j.Arrives t seen loc where
  path := h.path
  left := h.left
  ok := h.ok
  keys := fun _ hmem => h.keys (hkeys hmem)
  resolved := h.resolved
  unresolved loc hlookup := hunresolved loc (h.unresolved loc hlookup)

/-- After the target of a link the link is resolved. -/
theorem Joined.Arrives.agrees {seen : Seen N} {path mid : List N} {n : N} {inner : Joined N}
    {budget k : ℕ} (h : inner.Arrives t (Dictionary.put seen (path ++ [n]) none) mid)
    (hagrees : seen.Agrees t budget) (hlink : Follows t path [.name n] mid k) :
    Seen.Agrees t budget (Dictionary.put inner.seen (path ++ [n]) (some mid)) where
  resolved loc m resolved hlookup := by
    rw [Dictionary.lookup_put] at hlookup
    split_ifs at hlookup with heq
    · obtain rfl := Option.some.inj (Option.some.inj hlookup)
      obtain ⟨rfl, hlast⟩ := List.append_inj' heq rfl
      obtain rfl : m = n := by simpa using hlast
      exact ⟨k, hlink⟩
    · exact h.resolved loc m resolved hlookup
  unresolved loc m resolved j hlookup hfollows := by
    obtain ⟨hne, hlookup⟩ := unresolved_of_put hlookup
    obtain hbefore := h.unresolved _ hlookup
    rw [Dictionary.lookup_put, if_neg hne] at hbefore
    exact hagrees.unresolved loc m resolved j hbefore hfollows

theorem joinWith_arrives {descend : List N → List (Part N) → Seen N → Joined N} {depth : ℕ}
    (hdescend : ∀ path rest seen loc' k, LinkFree t path → Seen.Agrees t k seen →
      unseen t seen < depth → Follows t path rest loc' k →
      (descend path rest seen).Arrives t seen loc')
    {path loc' : List N} {rest : List (Part N)} {seen : Seen N} {k : ℕ} (hpath : LinkFree t path)
    (hagrees : seen.Agrees t k) (hdepth : unseen t seen ≤ depth)
    (h : Follows t path rest loc' k) :
    (t.joinWith limit descend path rest seen).Arrives t seen loc' := by
  induction rest generalizing path seen k with
  | nil =>
    cases h
    exact ⟨rfl, rfl, rfl, fun _ hmem => hmem, hagrees.resolved, fun _ hlookup => hlookup⟩
  | cons p rest ih =>
    cases h with
    | here hdir hrest => exact ih hpath hagrees hdepth hrest
    | up hdir hrest => exact ih hpath.dropLast hagrees hdepth hrest
    | @enter _ _ n _ _ e hget hlink hrest =>
      have hnone : ∀ target, t.get (path ++ [n]) ≠ some (.link target) := fun target heq =>
        hlink target (Option.some.inj (hget.symm.trans heq))
      rw [Tree.joinWith, lstat_of_linkFree hpath]
      split
      next target heq => exact absurd heq (hnone target)
      next => exact ih (hpath.concat hnone) hagrees hdepth hrest
    | @link _ mid _ n _ i j target hget htarget hrest =>
      have hlink : Follows t path [.name n] mid (i + 1) := .link hget htarget (.done mid)
      have hmid : LinkFree t mid := htarget.linkFree (hpath.start target)
      simp only [Tree.joinWith, lstat_of_linkFree hpath, hget]
      split
      next resolved hlookup =>
        obtain ⟨k, hfollows⟩ := hagrees.resolved path n resolved hlookup
        obtain ⟨rfl, -⟩ := hlink.deterministic hfollows
        exact ih hmid (hagrees.mono (by omega)) hdepth hrest
      next hlookup =>
        have hlt := hagrees.unresolved path n mid (i + 1) hlookup hlink
        omega
      next hlookup =>
        have hlt := unseen_put_lt (mem_links hget) hlookup none
        have hinner := hdescend (target.start path) target.parts _ mid i (hpath.start target)
          (hagrees.descend (by omega) hlink) (by omega) htarget
        rw [if_pos hinner.ok, hinner.path]
        have hkeys : seen.map Prod.fst ⊆ (Dictionary.put
            (descend (target.start path) target.parts (Dictionary.put seen (path ++ [n]) none)).seen
            (path ++ [n]) (some mid)).map Prod.fst := fun _ hmem =>
          keys_subset_put _ _ _ (hinner.keys (keys_subset_put _ _ _ hmem))
        have hnext := ih hmid ((hinner.agrees hagrees hlink).mono (by omega))
          ((unseen_mono hkeys).trans hdepth) hrest
        refine hnext.extend hkeys fun loc hloc => ?_
        obtain ⟨hne, hloc⟩ := unresolved_of_put hloc
        have hbefore := hinner.unresolved loc hloc
        rwa [Dictionary.lookup_put, if_neg hne] at hbefore

theorem joinRealPath_arrives {depth : ℕ} {path loc' : List N} {rest : List (Part N)}
    {seen : Seen N} {k : ℕ} (hpath : LinkFree t path) (hagrees : seen.Agrees t k)
    (hdepth : unseen t seen < depth) (h : Follows t path rest loc' k) :
    (t.joinRealPath limit depth path rest seen).Arrives t seen loc' := by
  induction depth generalizing path rest seen loc' k with
  | zero => exact absurd hdepth (Nat.not_lt_zero _)
  | succ depth ih =>
    exact joinWith_arrives
      (fun _ _ _ _ _ hpath' hagrees' hdepth' h' => ih hpath' hagrees' hdepth' h')
      hpath hagrees (Nat.le_of_lt_succ hdepth) h

/-! ### The depth of the calls does not matter -/

theorem joinWith_keys {descend : List N → List (Part N) → Seen N → Joined N}
    (hdescend : ∀ path rest seen, seen.map Prod.fst ⊆ (descend path rest seen).seen.map Prod.fst)
    (path : List N) (rest : List (Part N)) (seen : Seen N) :
    seen.map Prod.fst ⊆ (t.joinWith limit descend path rest seen).seen.map Prod.fst := by
  induction rest generalizing path seen with
  | nil => exact fun _ hmem => hmem
  | cons p rest ih =>
    cases p with
    | here => exact ih path seen
    | up => exact ih path.dropLast seen
    | name n =>
      rw [Tree.joinWith]
      split
      next target _ =>
        split
        next resolved _ => exact ih resolved seen
        next => exact fun _ hmem => hmem
        next =>
          have hinner : seen.map Prod.fst ⊆ (descend (target.start path) target.parts
              (Dictionary.put seen (path ++ [n]) none)).seen.map Prod.fst := fun _ hmem =>
            hdescend _ _ _ (keys_subset_put _ _ _ hmem)
          dsimp only
          split_ifs
          · exact fun _ hmem => ih _ _ (keys_subset_put _ _ _ (hinner hmem))
          · exact hinner
      next => exact ih (path ++ [n]) seen

theorem joinRealPath_keys (depth : ℕ) (path : List N) (rest : List (Part N)) (seen : Seen N) :
    seen.map Prod.fst ⊆ (t.joinRealPath limit depth path rest seen).seen.map Prod.fst := by
  induction depth generalizing path rest seen with
  | zero => exact fun _ hmem => hmem
  | succ depth ih => exact joinWith_keys ih path rest seen

/-- With fewer links to meet than calls to make, a further call changes nothing. -/
theorem joinRealPath_succ {depth : ℕ} {path : List N} (rest : List (Part N)) {seen : Seen N}
    (hpath : LinkFree t path) (hseen : seen.LinkFree t) (hdepth : unseen t seen < depth) :
    t.joinRealPath limit (depth + 1) path rest seen =
      t.joinRealPath limit depth path rest seen := by
  induction depth generalizing path rest seen with
  | zero => exact absurd hdepth (Nat.not_lt_zero _)
  | succ depth ihDepth =>
    rw [Tree.joinRealPath, Tree.joinRealPath]
    induction rest generalizing path seen with
    | nil => rfl
    | cons p rest ih =>
      cases p with
      | here => exact ih hpath hseen hdepth
      | up => exact ih hpath.dropLast hseen hdepth
      | name n =>
        rw [Tree.joinWith, Tree.joinWith, lstat_of_linkFree hpath]
        split
        next target hget =>
          split
          next resolved hlookup => exact ih (hseen _ _ hlookup) hseen hdepth
          next => rfl
          next hlookup =>
            have hlt := unseen_put_lt (mem_links hget) hlookup none
            have hput := hseen.put_none (path ++ [n])
            dsimp only
            rw [ihDepth target.parts (hpath.start target) hput (by omega)]
            split_ifs with hok
            · obtain ⟨hfree, -, hseen'⟩ :=
                joinRealPath_sound depth target.parts (hpath.start target) hput hok
              refine ih hfree (hseen'.put _ hfree) (lt_of_le_of_lt (unseen_mono ?_) hdepth)
              exact fun _ hmem => keys_subset_put _ _ _
                (joinRealPath_keys _ _ _ _ (keys_subset_put _ _ _ hmem))
            · rfl
        next hnone => exact ih (hpath.concat hnone) hseen hdepth

/-- The depth of `resolve` is never used up. -/
theorem resolve_of_depth (limit : ℕ) (parts : List (Part N)) {depth : ℕ}
    (h : t.links.length < depth) :
    t.joinRealPath limit depth [] parts [] = t.resolve limit parts := by
  induction depth, h using Nat.le_induction with
  | base => rfl
  | succ depth hdepth ih =>
    rw [← ih]
    exact joinRealPath_succ parts LinkFree.nil (fun loc resolved hlookup => by simp at hlookup)
      (lt_of_le_of_lt List.countP_le_length hdepth)

/-- A path that the system opens is resolved, and to the location that it opens. -/
theorem resolve_of_follows (limit : ℕ) {parts : List (Part N)} {loc : List N} {k : ℕ}
    (h : Follows t [] parts loc k) :
    (t.resolve limit parts).ok = true ∧ t.realPath limit parts = loc := by
  have hagrees : Seen.Agrees t k [] := ⟨by simp, by simp⟩
  have hdepth : unseen t [] < t.links.length + 1 := Nat.lt_succ_of_le List.countP_le_length
  have harrives : (t.resolve limit parts).Arrives t [] loc :=
    joinRealPath_arrives LinkFree.nil hagrees hdepth h
  refine ⟨harrives.ok, ?_⟩
  rw [(realPath_of_ok harrives.ok).1]
  exact harrives.path

end FileTree
