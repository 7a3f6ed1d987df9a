import AgentDemo.Library.Dictionary
import Mathlib.Data.List.Infix

/-! Trees of directories, files and symbolic links, and what the system opens under a path. -/
namespace FileTree

/-- A component of a path: `.`, `..` or a name. -/
inductive Part (N : Type*) where
  | here
  | up
  | name (n : N)
  deriving DecidableEq, Repr

structure Target (N : Type*) where
  absolute : Bool
  parts : List (Part N)
  deriving DecidableEq, Repr

inductive Entry (N C : Type*) where
  | dir
  | file (content : C)
  | link (target : Target N)
  deriving DecidableEq, Repr

/-- The entry at every location below the root, each of them in a directory. -/
structure Tree (N C : Type*) [DecidableEq N] where
  entries : List (List N × Entry N C)
  keys : (entries.map Prod.fst).Nodup
  parent : ∀ e ∈ entries, e.1.dropLast = [] ∨ entries.lookup e.1.dropLast = some .dir

variable {N C : Type*} [DecidableEq N]

namespace Tree

def get (t : Tree N C) (loc : List N) : Option (Entry N C) :=
  if loc = [] then some .dir else t.entries.lookup loc

@[simp] theorem get_nil (t : Tree N C) : t.get [] = some .dir := if_pos rfl

theorem get_parent {t : Tree N C} {loc : List N} {n : N} {e : Entry N C}
    (h : t.get (loc ++ [n]) = some e) : t.get loc = some .dir := by
  unfold get at h ⊢
  rw [if_neg (by simp)] at h
  have hparent := t.parent _ ((Dictionary.mem_iff_lookup t.keys).mpr h)
  rw [List.dropLast_concat] at hparent
  rcases hparent with rfl | hdir
  · exact if_pos rfl
  · by_cases hnil : loc = []
    · exact if_pos hnil
    · rw [if_neg hnil, hdir]

/-- Every location on the way to an entry is a directory. -/
theorem get_of_prefix {t : Tree N C} {loc rest : List N} {e : Entry N C}
    (h : t.get (loc ++ rest) = some e) (hrest : rest ≠ []) : t.get loc = some .dir := by
  induction rest using List.reverseRecOn generalizing e with
  | nil => exact absurd rfl hrest
  | append_singleton rest n ih =>
    rw [← List.append_assoc] at h
    have hdir := get_parent h
    by_cases hnil : rest = []
    · rwa [hnil, List.append_nil] at hdir
    · exact ih hdir hnil

def isDir (t : Tree N C) (loc : List N) : Bool :=
  match t.get loc with
  | some .dir => true
  | _ => false

theorem isDir_iff {t : Tree N C} {loc : List N} : t.isDir loc = true ↔ t.get loc = some .dir := by
  unfold isDir
  split <;> simp_all

def children (t : Tree N C) (loc : List N) : List N :=
  t.entries.filterMap fun e => if e.1.dropLast = loc then e.1.getLast? else none

end Tree

/-- Where the resolution of a link at `loc` starts. -/
def Target.start (target : Target N) (loc : List N) : List N :=
  if target.absolute then [] else loc

/-! ### What the system opens -/

/-- The system goes from a directory along a path, following the given number of links. -/
inductive Follows (t : Tree N C) : List N → List (Part N) → List N → ℕ → Prop
  | done (loc : List N) : Follows t loc [] loc 0
  | here {loc loc' : List N} {rest : List (Part N)} {k : ℕ} (hdir : t.get loc = some .dir)
      (hrest : Follows t loc rest loc' k) : Follows t loc (.here :: rest) loc' k
  | up {loc loc' : List N} {rest : List (Part N)} {k : ℕ} (hdir : t.get loc = some .dir)
      (hrest : Follows t loc.dropLast rest loc' k) : Follows t loc (.up :: rest) loc' k
  | enter {loc loc' : List N} {n : N} {rest : List (Part N)} {k : ℕ} {e : Entry N C}
      (hget : t.get (loc ++ [n]) = some e) (hlink : ∀ target, e ≠ .link target)
      (hrest : Follows t (loc ++ [n]) rest loc' k) : Follows t loc (.name n :: rest) loc' k
  | link {loc mid loc' : List N} {n : N} {rest : List (Part N)} {j k : ℕ} {target : Target N}
      (hget : t.get (loc ++ [n]) = some (.link target))
      (htarget : Follows t (target.start loc) target.parts mid j)
      (hrest : Follows t mid rest loc' k) : Follows t loc (.name n :: rest) loc' (j + k + 1)

namespace Follows

variable {t : Tree N C} {loc mid loc' loc'' : List N} {parts rest : List (Part N)} {j k : ℕ}

/-- There is one way at most. -/
theorem deterministic (h : Follows t loc parts loc' j) (h' : Follows t loc parts loc'' k) :
    loc' = loc'' ∧ j = k := by
  induction h generalizing loc'' k with
  | done loc =>
    cases h'
    exact ⟨rfl, rfl⟩
  | here _ _ ih =>
    cases h' with
    | here _ hrest' => exact ih hrest'
  | up _ _ ih =>
    cases h' with
    | up _ hrest' => exact ih hrest'
  | enter hget hlink _ ih =>
    cases h' with
    | enter _ _ hrest' => exact ih hrest'
    | link hget' _ _ => exact absurd (Option.some.inj (hget.symm.trans hget')) (hlink _)
  | link hget _ _ ihTarget ihRest =>
    cases h' with
    | enter hget' hlink' _ => exact absurd (Option.some.inj (hget'.symm.trans hget)) (hlink' _)
    | link hget' htarget' hrest' =>
      obtain rfl := Entry.link.inj (Option.some.inj (hget.symm.trans hget'))
      obtain ⟨rfl, rfl⟩ := ihTarget htarget'
      obtain ⟨rfl, rfl⟩ := ihRest hrest'
      exact ⟨rfl, rfl⟩

theorem append (h : Follows t loc parts mid j) (hrest : Follows t mid rest loc' k) :
    Follows t loc (parts ++ rest) loc' (j + k) := by
  induction h with
  | done loc =>
    rw [Nat.zero_add]
    exact hrest
  | here hdir _ ih => exact .here hdir (ih hrest)
  | up hdir _ ih => exact .up hdir (ih hrest)
  | enter hget hlink _ ih => exact .enter hget hlink (ih hrest)
  | @link _ _ _ _ _ i i' _ hget htarget _ _ ih =>
    have h := Follows.link hget htarget (ih hrest)
    rwa [show i + i' + 1 + k = i + (i' + k) + 1 by omega]

theorem of_append (h : Follows t loc (parts ++ rest) loc' k) :
    ∃ mid i j, Follows t loc parts mid i ∧ Follows t mid rest loc' j ∧ k = i + j := by
  induction parts generalizing loc k with
  | nil => exact ⟨loc, 0, k, .done loc, h, (Nat.zero_add k).symm⟩
  | cons p parts ih =>
    cases h with
    | here hdir hrest =>
      obtain ⟨mid, i, j, h₁, h₂, rfl⟩ := ih hrest
      exact ⟨mid, i, j, .here hdir h₁, h₂, rfl⟩
    | up hdir hrest =>
      obtain ⟨mid, i, j, h₁, h₂, rfl⟩ := ih hrest
      exact ⟨mid, i, j, .up hdir h₁, h₂, rfl⟩
    | enter hget hlink hrest =>
      obtain ⟨mid, i, j, h₁, h₂, rfl⟩ := ih hrest
      exact ⟨mid, i, j, .enter hget hlink h₁, h₂, rfl⟩
    | link hget htarget hrest =>
      obtain ⟨mid, i, j, h₁, h₂, rfl⟩ := ih hrest
      exact ⟨mid, _, j, .link hget htarget h₁, h₂, by omega⟩

end Follows

inductive WalkError where
  | noEntry
  | notDirectory
  | loop
  deriving DecidableEq, Repr

namespace Tree

/-- One path is walked until its first link, and `follow` goes on from there. -/
def walkWith (t : Tree N C) (follow : List N → List (Part N) → Except WalkError (List N)) :
    List N → List (Part N) → Except WalkError (List N)
  | loc, [] => .ok loc
  | loc, .here :: rest =>
    if t.isDir loc then t.walkWith follow loc rest else .error .notDirectory
  | loc, .up :: rest =>
    if t.isDir loc then t.walkWith follow loc.dropLast rest else .error .notDirectory
  | loc, .name n :: rest =>
    if t.isDir loc then
      match t.get (loc ++ [n]) with
      | none => .error .noEntry
      | some (.link target) => follow (target.start loc) (target.parts ++ rest)
      | some _ => t.walkWith follow (loc ++ [n]) rest
    else .error .notDirectory

/-- The location that the system opens, if it takes at most `limit` links. -/
def walk (t : Tree N C) : ℕ → List N → List (Part N) → Except WalkError (List N)
  | 0 => t.walkWith fun _ _ => .error .loop
  | limit + 1 => t.walkWith (t.walk limit)

theorem walkWith_sound {t : Tree N C} {follow : List N → List (Part N) → Except WalkError (List N)}
    {limit : ℕ} (hfollow : ∀ loc parts loc', follow loc parts = .ok loc' →
      ∃ k < limit, Follows t loc parts loc' k) {loc loc' : List N} {parts : List (Part N)}
    (h : t.walkWith follow loc parts = .ok loc') : ∃ k ≤ limit, Follows t loc parts loc' k := by
  induction parts generalizing loc with
  | nil =>
    obtain rfl := Except.ok.inj h
    exact ⟨0, Nat.zero_le _, .done loc⟩
  | cons p rest ih =>
    cases p with
    | here =>
      rw [walkWith] at h
      split_ifs at h with hdir
      obtain ⟨k, hk, hrest⟩ := ih h
      exact ⟨k, hk, .here (isDir_iff.mp hdir) hrest⟩
    | up =>
      rw [walkWith] at h
      split_ifs at h with hdir
      obtain ⟨k, hk, hrest⟩ := ih h
      exact ⟨k, hk, .up (isDir_iff.mp hdir) hrest⟩
    | name n =>
      rw [walkWith] at h
      split_ifs at h with hdir
      cases hget : t.get (loc ++ [n]) with
      | none => simp [hget] at h
      | some e =>
        cases e with
        | link target =>
          simp only [hget] at h
          obtain ⟨k, hk, hfollows⟩ := hfollow _ _ _ h
          obtain ⟨mid, i, j, htarget, hrest, rfl⟩ := hfollows.of_append
          exact ⟨i + j + 1, hk, .link hget htarget hrest⟩
        | dir =>
          simp only [hget] at h
          obtain ⟨k, hk, hrest⟩ := ih h
          exact ⟨k, hk, .enter hget (by simp) hrest⟩
        | file content =>
          simp only [hget] at h
          obtain ⟨k, hk, hrest⟩ := ih h
          exact ⟨k, hk, .enter hget (by simp) hrest⟩

theorem walkWith_complete {t : Tree N C}
    {follow : List N → List (Part N) → Except WalkError (List N)} {limit : ℕ}
    (hfollow : ∀ loc parts loc' k, k < limit → Follows t loc parts loc' k →
      follow loc parts = .ok loc') {loc loc' : List N} {parts : List (Part N)} {k : ℕ}
    (hk : k ≤ limit) (h : Follows t loc parts loc' k) : t.walkWith follow loc parts = .ok loc' := by
  induction parts generalizing loc k with
  | nil =>
    cases h
    rfl
  | cons p rest ih =>
    cases h with
    | here hdir hrest =>
      rw [walkWith, if_pos (isDir_iff.mpr hdir)]
      exact ih hk hrest
    | up hdir hrest =>
      rw [walkWith, if_pos (isDir_iff.mpr hdir)]
      exact ih hk hrest
    | @enter _ _ _ _ _ e hget hlink hrest =>
      rw [walkWith, if_pos (isDir_iff.mpr (get_parent hget)), hget]
      cases e with
      | link target => exact absurd rfl (hlink target)
      | dir => exact ih hk hrest
      | file content => exact ih hk hrest
    | link hget htarget hrest =>
      rw [walkWith, if_pos (isDir_iff.mpr (get_parent hget)), hget]
      exact hfollow _ _ _ _ hk (htarget.append hrest)

/-- The walk with a limit is the way of the system, where that needs no more links. -/
theorem walk_eq_ok {t : Tree N C} {limit : ℕ} {loc loc' : List N} {parts : List (Part N)} :
    t.walk limit loc parts = .ok loc' ↔ ∃ k ≤ limit, Follows t loc parts loc' k := by
  constructor
  · induction limit generalizing loc loc' parts with
    | zero =>
      intro h
      exact walkWith_sound (fun _ _ _ hfollow => by cases hfollow) h
    | succ limit ih =>
      intro h
      refine walkWith_sound (fun loc parts loc' hfollow => ?_) h
      obtain ⟨k, hk, hfollows⟩ := ih hfollow
      exact ⟨k, Nat.lt_succ_of_le hk, hfollows⟩
  · rintro ⟨k, hk, h⟩
    induction limit generalizing loc loc' parts k with
    | zero => exact walkWith_complete (fun _ _ _ _ hlt => absurd hlt (Nat.not_lt_zero _)) hk h
    | succ limit ih =>
      exact walkWith_complete
        (fun _ _ _ _ hlt hfollows => ih _ (Nat.le_of_lt_succ hlt) hfollows) hk h

end Tree

/-! ### Paths without links -/

/-- No location on the way is a link. -/
def LinkFree (t : Tree N C) (loc : List N) : Prop :=
  ∀ before rest, loc = before ++ rest → ∀ target, t.get before ≠ some (.link target)

variable {t : Tree N C} {loc loc' : List N} {n : N}

theorem LinkFree.nil : LinkFree t [] := by
  intro before rest h target
  rw [(List.append_eq_nil_iff.mp h.symm).1, Tree.get_nil]
  simp

theorem LinkFree.of_append {rest : List N} (h : LinkFree t (loc ++ rest)) : LinkFree t loc := by
  intro before after heq
  exact h before (after ++ rest) (by rw [heq, List.append_assoc])

theorem LinkFree.dropLast (h : LinkFree t loc) : LinkFree t loc.dropLast := by
  rcases List.eq_nil_or_concat loc with rfl | ⟨init, n, rfl⟩
  · exact h
  · rw [List.concat_eq_append] at h ⊢
    rw [List.dropLast_concat]
    exact h.of_append

theorem LinkFree.concat (h : LinkFree t loc)
    (hn : ∀ target, t.get (loc ++ [n]) ≠ some (.link target)) : LinkFree t (loc ++ [n]) := by
  intro before rest heq
  rcases List.eq_nil_or_concat rest with rfl | ⟨init, m, rfl⟩
  · rw [List.append_nil] at heq
    exact heq ▸ hn
  · rw [List.concat_eq_append, ← List.append_assoc] at heq
    exact h before init (List.append_inj_left' heq rfl)

theorem LinkFree.start (h : LinkFree t loc) (target : Target N) :
    LinkFree t (target.start loc) := by
  unfold Target.start
  split_ifs
  · exact .nil
  · exact h

/-- The system ends without links on its way where it has started so. -/
theorem Follows.linkFree {parts : List (Part N)} {k : ℕ} (h : Follows t loc parts loc' k)
    (hloc : LinkFree t loc) : LinkFree t loc' := by
  induction h with
  | done loc => exact hloc
  | here _ _ ih => exact ih hloc
  | up _ _ ih => exact ih hloc.dropLast
  | enter hget hlink _ ih =>
    exact ih (hloc.concat fun target heq => hlink target (Option.some.inj (hget.symm.trans heq)))
  | link _ _ _ ihTarget ihRest => exact ihRest (ihTarget (hloc.start _))

def names (loc : List N) : List (Part N) := loc.map .name

/-- A path without links leads to itself. -/
theorem follows_of_linkFree {e : Entry N C} (h : LinkFree t loc) (hget : t.get loc = some e) :
    Follows t [] (names loc) loc 0 := by
  induction loc using List.reverseRecOn generalizing e with
  | nil => exact .done []
  | append_singleton loc n ih =>
    have hloc := h.of_append
    have hstep : Follows t loc [.name n] (loc ++ [n]) 0 :=
      .enter hget
        (fun target heq => h (loc ++ [n]) [] (List.append_nil _).symm target (heq ▸ hget)) (.done _)
    unfold names
    rw [List.map_append]
    exact (ih hloc (Tree.get_parent hget)).append hstep

/-- There is no loop where there is no link. -/
theorem walk_ne_loop (limit : ℕ) (h : LinkFree t loc) :
    t.walk limit [] (names loc) ≠ .error .loop := by
  have hwith :
    ∀ (follow : List N → List (Part N) → Except WalkError (List N)) (rest before : List N),
      LinkFree t (before ++ rest) → t.walkWith follow before (names rest) ≠ .error .loop := by
    intro follow rest
    induction rest with
    | nil =>
      intro before _ heq
      cases heq
    | cons n rest ih =>
      intro before hfree
      have hnext : LinkFree t ((before ++ [n]) ++ rest) := by
        rwa [List.append_assoc]
      show t.walkWith follow before (.name n :: names rest) ≠ _
      rw [Tree.walkWith]
      split_ifs
      · cases hget : t.get (before ++ [n]) with
        | none => simp
        | some e =>
          cases e with
          | link target => exact absurd hget (hnext.of_append _ [] (List.append_nil _).symm target)
          | dir => exact ih _ hnext
          | file content => exact ih _ hnext
      · simp
  cases limit with
  | zero => exact hwith _ loc [] h
  | succ limit => exact hwith _ loc [] h

theorem eq_of_follows_linkFree {k : ℕ} (h : LinkFree t loc)
    (hfollows : Follows t [] (names loc) loc' k) : loc' = loc := by
  induction loc using List.reverseRecOn generalizing loc' k with
  | nil =>
    cases hfollows
    rfl
  | append_singleton loc n ih =>
    have hloc := h.of_append
    unfold names at hfollows
    rw [List.map_append] at hfollows
    obtain ⟨mid, i, j, hbefore, hlast, -⟩ := hfollows.of_append
    obtain rfl := ih hloc hbefore
    cases hlast with
    | enter _ _ hrest =>
      cases hrest
      rfl
    | link hget _ _ => exact absurd hget (h _ [] (List.append_nil _).symm _)

/-! ### Directories -/

namespace Tree

theorem mem_children {t : Tree N C} : n ∈ t.children loc ↔ (t.get (loc ++ [n])).isSome := by
  have hget : t.get (loc ++ [n]) = t.entries.lookup (loc ++ [n]) := if_neg (by simp)
  unfold children
  rw [hget, List.mem_filterMap, Option.isSome_iff_exists]
  constructor
  · rintro ⟨⟨key, e⟩, hmem, hkey⟩
    dsimp only at hkey
    split_ifs at hkey with hloc
    have hkeyEq : key = loc ++ [n] := by
      rw [← hloc]
      exact (List.dropLast_append_getLast? n hkey).symm
    exact ⟨e, (Dictionary.mem_iff_lookup t.keys).mp (hkeyEq ▸ hmem)⟩
  · rintro ⟨e, hlookup⟩
    refine ⟨(loc ++ [n], e), (Dictionary.mem_iff_lookup t.keys).mpr hlookup, ?_⟩
    simp

theorem nodup_children (t : Tree N C) (loc : List N) : (t.children loc).Nodup := by
  have hmap : t.children loc = (t.entries.map Prod.fst).filterMap fun key =>
      if key.dropLast = loc then key.getLast? else none := by
    rw [List.filterMap_map]
    rfl
  rw [hmap]
  refine t.keys.filterMap fun key key' n hn hn' => ?_
  rw [Option.mem_def] at hn hn'
  split_ifs at hn hn' with hloc hloc'
  rw [← List.dropLast_append_getLast? n hn, ← List.dropLast_append_getLast? n hn', hloc, hloc']

/-- A location is no deeper than there are entries. -/
theorem length_le {t : Tree N C} {e : Entry N C} (h : t.get loc = some e) :
    loc.length ≤ t.entries.length := by
  have hsub : ∀ k, k < loc.length → loc.take (k + 1) ∈ t.entries.map Prod.fst := by
    intro k hk
    obtain ⟨e', he'⟩ : ∃ e', t.get (loc.take (k + 1)) = some e' := by
      by_cases hall : loc.drop (k + 1) = []
      · refine ⟨e, ?_⟩
        rwa [List.take_of_length_le (List.drop_eq_nil_iff.mp hall)]
      · exact ⟨.dir, get_of_prefix (by rwa [List.take_append_drop]) hall⟩
    have hne : loc.take (k + 1) ≠ [] := by
      rw [← List.length_pos_iff, List.length_take]
      omega
    unfold get at he'
    rw [if_neg hne] at he'
    exact List.mem_map.mpr ⟨_, (Dictionary.mem_iff_lookup t.keys).mpr he', rfl⟩
  have hnodup : ((List.range loc.length).map fun k => loc.take (k + 1)).Nodup := by
    refine List.Nodup.map_on (fun j hj k hk heq => ?_) List.nodup_range
    have hlength := congrArg List.length heq
    rw [List.length_take, List.length_take] at hlength
    have hj := List.mem_range.mp hj
    have hk := List.mem_range.mp hk
    omega
  have hall : ((List.range loc.length).map fun k => loc.take (k + 1)) ⊆
      t.entries.map Prod.fst := by
    intro key hkey
    obtain ⟨k, hk, rfl⟩ := List.mem_map.mp hkey
    exact hsub k (List.mem_range.mp hk)
  have hle := (List.subperm_of_subset hnodup hall).length_le
  simpa using hle

end Tree

end FileTree
