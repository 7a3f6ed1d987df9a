import AgentDemo.Plugins.Confinement
import Mathlib.Tactic.Linarith

/-! What `list_dir` shows of a directory, and which lines `search_files` finds. -/
namespace AgentDemo

open FileTree (Entry Follows LinkFree Tree Target names)

theorem takeInt_sublist {α : Type*} (n : ℤ) (values : List α) : takeInt n values <+: values := by
  unfold takeInt
  split_ifs <;> exact List.take_prefix _ _

theorem length_takeInt_le {α : Type*} {n : ℤ} (values : List α) (h : 0 ≤ n) :
    ((takeInt n values).length : ℤ) ≤ n := by
  unfold takeInt
  rw [if_pos h, List.length_take]
  omega

theorem length_takeInt_of_neg {α : Type*} {n : ℤ} (values : List α) (h : n < 0) :
    (takeInt n values).length = (values.length + n).toNat := by
  unfold takeInt
  rw [if_neg (by omega), List.length_take]
  omega

theorem takeInt_of_length_le {α : Type*} {n : ℤ} {values : List α} (h : (values.length : ℤ) ≤ n) :
    takeInt n values = values := by
  unfold takeInt
  rw [if_pos (by omega), List.take_of_length_le (by omega)]

namespace Workspace

variable {w : Workspace} {text : String} {loc target : List String} {name : String}

theorem inside_concat (h : w.Inside loc) :
    w.Inside (loc ++ [name]) ↔ protectedParts (loc ++ [name]) = [] := by
  rw [protectedParts_eq_nil]
  exact ⟨fun hinside => hinside.2, fun hnames => ⟨h.1.trans (List.prefix_append _ _), hnames⟩⟩

/-! ### list_dir -/

/-- The items of a directory of the workspace, as `list_dir` shows at most `n` of them; a negative
`n` counts from the end of the directory. -/
structure Lists (w : Workspace) (loc : List String) (n : ℤ) (entries : List DirEntry) : Prop where
  inside : ∀ e ∈ entries, w.Inside (loc ++ [e.name])
  item : ∀ e ∈ entries, (w.tree.get (loc ++ [e.name])).isSome ∧ e = w.dirEntry loc e.name
  distinct : (entries.map DirEntry.name).Nodup
  sorted : entries.Pairwise fun a b => w.lower a.name ≤ w.lower b.name
  bounded : 0 ≤ n → (entries.length : ℤ) ≤ n
  negative : n < 0 → entries.length ≤ ((w.tree.children loc).length + n).toNat
  complete : ((w.tree.children loc).length : ℤ) ≤ n → ∀ name,
    (w.tree.get (loc ++ [name])).isSome → w.Inside (loc ++ [name]) →
      name ∈ entries.map DirEntry.name

theorem iterdir_of_linkFree (h : LinkFree w.tree loc) (hget : w.tree.get loc = some .dir) :
    w.iterdir loc = w.tree.children loc := by
  unfold iterdir
  rw [Tree.walk_eq_ok.mpr ⟨0, Nat.zero_le w.maxLinks, FileTree.follows_of_linkFree h hget⟩]

theorem sortedChildren_perm (w : Workspace) (loc : List String) :
    (w.sortedChildren loc).Perm (w.iterdir loc) := List.perm_insertionSort _ _

theorem pairwise_sortedChildren (w : Workspace) (loc : List String) :
    (w.sortedChildren loc).Pairwise fun a b => w.lower a ≤ w.lower b := by
  have htotal : Std.Total fun a b => w.lower a ≤ w.lower b := ⟨fun _ _ => String.le_total _ _⟩
  have htrans : IsTrans String fun a b => w.lower a ≤ w.lower b := ⟨fun _ _ _ => String.le_trans⟩
  exact List.pairwise_insertionSort _ _

theorem lists_of_linkFree (hinside : w.Inside loc) (hfree : LinkFree w.tree loc)
    (hget : w.tree.get loc = some .dir) (n : ℤ) :
    w.Lists loc n (((takeInt n (w.sortedChildren loc)).filter fun name =>
      protectedParts (loc ++ [name]) = []).map (w.dirEntry loc)) := by
  have hchildren := iterdir_of_linkFree hfree hget
  have hperm := w.sortedChildren_perm loc
  rw [hchildren] at hperm
  have hsub : ((takeInt n (w.sortedChildren loc)).filter fun name =>
      decide (protectedParts (loc ++ [name]) = [])).Sublist (w.sortedChildren loc) :=
    List.filter_sublist.trans (takeInt_sublist n _).sublist
  have hnames : (((takeInt n (w.sortedChildren loc)).filter fun name =>
      decide (protectedParts (loc ++ [name]) = [])).map (w.dirEntry loc)).map DirEntry.name =
      (takeInt n (w.sortedChildren loc)).filter fun name =>
        decide (protectedParts (loc ++ [name]) = []) := by
    rw [List.map_map]
    exact List.map_id _
  refine ⟨?_, ?_, ?_, ?_, ?_, ?_, ?_⟩
  · intro e he
    obtain ⟨name, hmem, rfl⟩ := List.mem_map.mp he
    exact (inside_concat hinside).mpr (of_decide_eq_true (List.mem_filter.mp hmem).2)
  · intro e he
    obtain ⟨name, hmem, rfl⟩ := List.mem_map.mp he
    exact ⟨Tree.mem_children.mp (hperm.mem_iff.mp (hsub.subset hmem)), rfl⟩
  · rw [hnames]
    exact (hperm.nodup_iff.mpr (w.tree.nodup_children loc)).sublist hsub
  · rw [List.pairwise_map]
    exact (w.pairwise_sortedChildren loc).sublist hsub
  · intro hn
    rw [List.length_map]
    have hle := List.length_filter_le (fun name => decide (protectedParts (loc ++ [name]) = []))
      (takeInt n (w.sortedChildren loc))
    have htake := length_takeInt_le (w.sortedChildren loc) hn
    omega
  · intro hn
    rw [List.length_map, ← hperm.length_eq, ← length_takeInt_of_neg _ hn]
    exact List.length_filter_le _ _
  · intro hlength name hsome hin
    rw [hnames, takeInt_of_length_le (by rwa [hperm.length_eq])]
    exact List.mem_filter.mpr ⟨hperm.mem_iff.mpr (Tree.mem_children.mpr hsome),
      decide_eq_true ((inside_concat hinside).mp hin)⟩

theorem listDir_eq_ok {n : ℤ} {listing : Listing} (h : w.listDir text n = .ok listing) :
    ∃ target, w.allowedTarget "list" text = .ok target ∧ w.opened target = some .dir ∧
      listing = ⟨pathText target, ((takeInt n (w.sortedChildren target)).filter fun name =>
        protectedParts (target ++ [name]) = []).map (w.dirEntry target)⟩ := by
  unfold listDir at h
  split at h
  · cases h
  next target htarget =>
    split at h
    · cases h
    next hopened => exact ⟨target, htarget, hopened, (Except.ok.inj h).symm⟩
    · cases h

/-- `list_dir` shows a directory of the workspace itself: items that are there and not protected,
each once, by their names in lower case, at most `n` of them, and all if they are no more. -/
theorem listDir_confined {n : ℤ} {listing : Listing} (h : w.listDir text n = .ok listing) :
    (∃ loc, w.Inside loc ∧ LinkFree w.tree loc ∧ w.tree.get loc = some .dir ∧
      listing.path = pathText loc ∧ w.Lists loc n listing.entries) ∨ w.MeetsLoop text := by
  obtain ⟨target, htarget, hopened, rfl⟩ := listDir_eq_ok h
  obtain ⟨hinside, hfree | hloop⟩ := allowedTarget_cases htarget
  · rw [opened_of_linkFree hfree] at hopened
    exact Or.inl ⟨target, hinside, hfree, hopened, rfl, lists_of_linkFree hinside hfree hopened n⟩
  · exact Or.inr hloop

/-! ### search_files -/

/-- The items that a search from `loc` reaches, through directories that are no links. -/
def Searched (w : Workspace) (loc path : List String) : Prop :=
  (path = loc ∧ ∃ bytes, w.tree.get loc = some (.file bytes)) ∨
    ∃ dir name, path = dir ++ [name] ∧ loc <+: dir ∧ LinkFree w.tree dir ∧
      w.tree.get dir = some .dir ∧ (w.tree.get path).isSome

theorem of_mem_rglob {depth : ℕ} {path : List String} (hfree : LinkFree w.tree loc)
    (hget : w.tree.get loc = some .dir) (h : path ∈ w.rglob depth loc) :
    ∃ dir name, path = dir ++ [name] ∧ loc <+: dir ∧ LinkFree w.tree dir ∧
      w.tree.get dir = some .dir ∧ (w.tree.get path).isSome := by
  induction depth generalizing loc with
  | zero => cases h
  | succ depth ih =>
    rw [rglob, iterdir_of_linkFree hfree hget] at h
    rcases List.mem_append.mp h with hitem | hbelow
    · obtain ⟨name, hname, rfl⟩ := List.mem_map.mp hitem
      exact ⟨loc, name, rfl, List.prefix_rfl, hfree, hget, Tree.mem_children.mp hname⟩
    · obtain ⟨name, hname, hpath⟩ := List.mem_flatMap.mp hbelow
      have hdir := of_decide_eq_true (List.mem_filter.mp hname).2
      rw [FileTree.lstat_of_linkFree hfree] at hdir
      have hnext : LinkFree w.tree (loc ++ [name]) := hfree.concat fun target => by simp [hdir]
      obtain ⟨dir, name', hpath', hprefix, hrest⟩ := ih hnext hdir hpath
      exact ⟨dir, name', hpath', (List.prefix_append loc [name]).trans hprefix, hrest⟩

theorem mem_rglob {depth : ℕ} {rest : List String} (hfree : LinkFree w.tree (loc ++ rest))
    (hget : (w.tree.get ((loc ++ rest) ++ [name])).isSome) (hdepth : rest.length < depth) :
    (loc ++ rest) ++ [name] ∈ w.rglob depth loc := by
  obtain ⟨e, he⟩ := Option.isSome_iff_exists.mp hget
  have hdir : w.tree.get loc = some .dir := by
    rw [List.append_assoc] at he
    exact Tree.get_of_prefix he (by simp)
  induction depth generalizing loc rest with
  | zero => exact absurd hdepth (Nat.not_lt_zero _)
  | succ depth ih =>
    rw [rglob, iterdir_of_linkFree hfree.of_append hdir]
    cases rest with
    | nil =>
      rw [List.append_nil] at hget ⊢
      exact List.mem_append_left _ (List.mem_map.mpr ⟨name, Tree.mem_children.mpr hget, rfl⟩)
    | cons first rest =>
      have hsplit : loc ++ first :: rest = (loc ++ [first]) ++ rest := by simp
      rw [hsplit] at hfree he hget ⊢
      have hfirst : w.tree.get (loc ++ [first]) = some .dir := by
        rw [List.append_assoc (loc ++ [first])] at he
        exact Tree.get_of_prefix he (by simp)
      refine List.mem_append_right _
        (List.mem_flatMap.mpr ⟨first, List.mem_filter.mpr ⟨?_, ?_⟩, ?_⟩)
      · exact Tree.mem_children.mpr (by simp [hfirst])
      · rw [FileTree.lstat_of_linkFree hfree.of_append.of_append, hfirst]
        simp
      · exact ih hfree hget (by simpa using hdepth) he hfirst

theorem mem_searchedFiles {path : List String} (hfree : LinkFree w.tree loc)
    (hsome : (w.tree.get loc).isSome) : path ∈ w.searchedFiles loc ↔ w.Searched loc path := by
  unfold searchedFiles Searched
  rw [opened_of_linkFree hfree]
  obtain ⟨e, he⟩ := Option.isSome_iff_exists.mp hsome
  rw [he]
  cases e with
  | link target => exact absurd he (hfree loc [] (List.append_nil _).symm target)
  | file bytes =>
    rw [List.mem_singleton]
    constructor
    · intro h
      exact Or.inl ⟨h, bytes, rfl⟩
    · rintro (⟨h, -⟩ | ⟨dir, name, rfl, ⟨rest, rfl⟩, -, hdir, hget⟩)
      · exact h
      · exfalso
        by_cases hrest : rest = []
        · rw [hrest, List.append_nil, he] at hdir
          cases hdir
        · rw [Tree.get_of_prefix hdir hrest] at he
          cases he
  | dir =>
    constructor
    · intro h
      exact Or.inr (of_mem_rglob hfree he h)
    · rintro (⟨-, bytes, hfile⟩ | ⟨dir, name, rfl, ⟨rest, rfl⟩, hdirFree, -, hget⟩)
      · cases hfile
      · obtain ⟨e', he'⟩ := Option.isSome_iff_exists.mp hget
        have hlength := Tree.length_le he'
        refine mem_rglob hdirFree hget ?_
        simp only [List.length_append, List.length_singleton] at hlength
        omega

/-- The loop takes the first hits. -/
theorem searchLoop_eq {needle : String} {n : ℤ} (results : List SearchHit)
    (files : List (List String)) : w.searchLoop needle n results files =
      results ++ (files.filterMap (w.hitOf needle)).take (n - results.length).toNat := by
  induction files generalizing results with
  | nil => simp [searchLoop]
  | cons path rest ih =>
    rw [searchLoop]
    split_ifs with hfull
    · rw [show (n - results.length).toNat = 0 by omega]
      simp
    · rw [ih, List.filterMap_cons]
      cases hhit : w.hitOf needle path with
      | none => simp
      | some hit =>
        have hcount : (n - results.length).toNat =
            (n - (results ++ [hit]).length).toNat + 1 := by
          rw [List.length_append, List.length_singleton]
          omega
        rw [hcount, List.take_succ_cons, Option.toList_some, List.append_assoc]
        rfl

def IsFirstLine (w : Workspace) (needle : String) (bytes : List UInt8) (path : List String)
    (hit : SearchHit) : Prop :=
  ∃ i line, (splitLines (w.decodeIgnore bytes))[i]? = some line ∧
    hasText needle (w.lower (String.ofList line)) = true ∧
    (∀ j < i, ∀ before, (splitLines (w.decodeIgnore bytes))[j]? = some before →
      hasText needle (w.lower (String.ofList before)) = false) ∧
    hit = ⟨w.relativeText path, i + 1, line.take 500⟩

theorem of_firstLine {needle : String} {bytes : List UInt8} {path : List String}
    {found : ℕ × List Char} (h : w.firstLine needle (w.decodeIgnore bytes) = some found) :
    w.IsFirstLine needle bytes path ⟨w.relativeText path, found.1, found.2⟩ := by
  unfold firstLine at h
  obtain ⟨i, hi, rfl⟩ := Option.map_eq_some_iff.mp h
  obtain ⟨hlt, htext, hbefore⟩ := List.findIdx?_eq_some_iff_getElem.mp hi
  refine ⟨i, _, List.getElem?_eq_getElem hlt, htext, fun j hj before hget => ?_, ?_⟩
  · obtain ⟨hj', rfl⟩ := List.getElem?_eq_some_iff.mp hget
    simpa using hbefore j hj
  · rw [List.getD_eq_getElem?_getD, List.getElem?_eq_getElem hlt, Option.getD_some]

theorem firstLine_of {needle : String} {bytes : List UInt8} {path : List String} {hit : SearchHit}
    (h : w.IsFirstLine needle bytes path hit) :
    (w.firstLine needle (w.decodeIgnore bytes)).map (fun found =>
      ⟨w.relativeText path, found.1, found.2⟩) = some hit := by
  obtain ⟨i, line, hline, htext, hbefore, rfl⟩ := h
  obtain ⟨hlt, rfl⟩ := List.getElem?_eq_some_iff.mp hline
  have hi : (splitLines (w.decodeIgnore bytes)).findIdx? (fun line =>
      hasText needle (w.lower (String.ofList line))) = some i := by
    refine List.findIdx?_eq_some_iff_getElem.mpr ⟨hlt, htext, fun j hj => ?_⟩
    simpa using hbefore j hj _ (List.getElem?_eq_getElem (hj.trans hlt))
  unfold firstLine
  dsimp only
  rw [hi, Option.map_some, Option.map_some, List.getD_eq_getElem?_getD, hline, Option.getD_some]

structure IsTextFile (w : Workspace) (path : List String) (bytes : List UInt8) : Prop where
  opened : w.opened path = some (.file bytes)
  unprotected : protectedParts path = []
  suffix : w.lower (nameSuffix (path.getLastD "")) ∈ textExtensions

/-- A file gives a hit where it is a text file, and the hit is its first line with the needle. -/
theorem hitOf_eq_some {needle : String} {path : List String} {hit : SearchHit} :
    w.hitOf needle path = some hit ↔
      ∃ bytes, w.IsTextFile path bytes ∧ w.IsFirstLine needle bytes path hit := by
  constructor
  · intro h
    unfold hitOf at h
    split at h
    next bytes hopened =>
      split_ifs at h with hpath
      obtain ⟨found, hfound, rfl⟩ := Option.map_eq_some_iff.mp h
      exact ⟨bytes, ⟨hopened, hpath.2, hpath.1⟩, of_firstLine hfound⟩
    next => cases h
  · rintro ⟨bytes, ⟨hopened, hnames, hsuffix⟩, hline⟩
    unfold hitOf
    simp only [hopened]
    rw [if_pos ⟨hsuffix, hnames⟩]
    exact firstLine_of hline

/-- The hits of a search below `loc`. A file is the one at its path itself, unless that is a link,
which the search follows. -/
structure Finds (w : Workspace) (needle : String) (loc : List String) (n : ℤ)
    (hits : List SearchHit) : Prop where
  bounded : hits.length ≤ n.toNat
  sound : ∀ hit ∈ hits, ∃ path bytes, w.Searched loc path ∧ w.Inside path ∧
    w.IsTextFile path bytes ∧ w.IsFirstLine needle bytes path hit ∧
    ((∃ target, w.tree.get path = some (.link target)) ∨ w.tree.get path = some (.file bytes))
  complete : hits.length < n.toNat → ∀ path bytes hit, w.Searched loc path →
    w.IsTextFile path bytes → w.IsFirstLine needle bytes path hit → hit ∈ hits

theorem Searched.linkFree {path : List String} (hfree : LinkFree w.tree loc)
    (h : w.Searched loc path) : (∃ target, w.tree.get path = some (.link target)) ∨
      LinkFree w.tree path := by
  rcases h with ⟨rfl, -⟩ | ⟨dir, name, rfl, -, hdir, -, hget⟩
  · exact Or.inr hfree
  · by_cases hlink : ∃ target, w.tree.get (dir ++ [name]) = some (.link target)
    · exact Or.inl hlink
    · exact Or.inr (hdir.concat fun target heq => hlink ⟨target, heq⟩)

theorem Searched.isPrefix {path : List String} (h : w.Searched loc path) : loc <+: path := by
  rcases h with ⟨rfl, -⟩ | ⟨dir, name, rfl, hprefix, -⟩
  · exact List.prefix_rfl
  · exact hprefix.trans (List.prefix_append _ _)

theorem finds_of_linkFree {needle : String} {n : ℤ} (hinside : w.Inside loc)
    (hfree : LinkFree w.tree loc) (hsome : (w.tree.get loc).isSome) :
    w.Finds needle loc n (w.searchLoop needle n [] (w.searchedFiles loc)) := by
  rw [searchLoop_eq, List.nil_append, List.length_nil, Nat.cast_zero, sub_zero]
  refine ⟨List.length_take_le _ _, fun hit hhit => ?_,
    fun hlt path bytes hit hpath hfile hline => ?_⟩
  · obtain ⟨path, hmem, hhit⟩ := List.mem_filterMap.mp (List.mem_of_mem_take hhit)
    have hsearched := (mem_searchedFiles hfree hsome).mp hmem
    obtain ⟨bytes, hfile, hline⟩ := hitOf_eq_some.mp hhit
    refine ⟨path, bytes, hsearched, ⟨hinside.1.trans hsearched.isPrefix,
      protectedParts_eq_nil.mp hfile.unprotected⟩, hfile, hline, ?_⟩
    rcases hsearched.linkFree hfree with hlink | hpathFree
    · exact Or.inl hlink
    · exact Or.inr ((opened_of_linkFree hpathFree).symm.trans hfile.opened)
  · have hall : ((w.searchedFiles loc).filterMap (w.hitOf needle)).length ≤ n.toNat := by
      rw [List.length_take] at hlt
      omega
    rw [List.take_of_length_le hall]
    exact List.mem_filterMap.mpr ⟨path, (mem_searchedFiles hfree hsome).mpr hpath,
      hitOf_eq_some.mpr ⟨bytes, hfile, hline⟩⟩

/-- `search_files` gives, for text files found below a place in the workspace, the first line of
each with the query, at most `n` of them, and all if they are fewer. -/
theorem searchFiles_finds {query : String} {n : ℤ} {hits : List SearchHit}
    (h : w.searchFiles query text n = .ok hits) :
    (∃ loc, w.Inside loc ∧ LinkFree w.tree loc ∧ (w.tree.get loc).isSome ∧
      w.Finds (w.lower query) loc n hits) ∨ w.MeetsLoop text := by
  unfold searchFiles at h
  split_ifs at h
  split at h
  · cases h
  next target htarget =>
    split at h
    · cases h
    next e hopened =>
      obtain rfl := Except.ok.inj h
      obtain ⟨hinside, hfree | hloop⟩ := allowedTarget_cases htarget
      · rw [opened_of_linkFree hfree] at hopened
        have hsome : (w.tree.get target).isSome := by simp [hopened]
        exact Or.inl ⟨target, hinside, hfree, hsome, finds_of_linkFree hinside hfree hsome⟩
      · exact Or.inr hloop

theorem listDir_confined_sample :
    (∃ loc, sampleWorkspace.Inside loc ∧ LinkFree sampleTree loc ∧ sampleTree.get loc = some .dir ∧
      "/srv/app" = pathText loc ∧ sampleWorkspace.Lists loc 2
        [⟨"latest", "latest", false⟩, ⟨"loop", "loop", false⟩]) ∨
      sampleWorkspace.MeetsLoop "." := by
  have hlist : sampleWorkspace.listDir "." 2 =
      .ok ⟨"/srv/app", [⟨"latest", "latest", false⟩, ⟨"loop", "loop", false⟩]⟩ := by
    decide +kernel
  exact listDir_confined hlist

/-- The link to a file outside is followed. -/
theorem searchFiles_finds_sample :
    (∃ loc, sampleWorkspace.Inside loc ∧ LinkFree sampleTree loc ∧ (sampleTree.get loc).isSome ∧
      sampleWorkspace.Finds (sampleWorkspace.lower "KEY") loc 20
        [⟨"out.txt", 1, ['k', 'e', 'y']⟩]) ∨ sampleWorkspace.MeetsLoop "." := by
  have hsearch : sampleWorkspace.searchFiles "KEY" = .ok [⟨"out.txt", 1, ['k', 'e', 'y']⟩] := by
    decide +kernel
  exact searchFiles_finds hsearch

end Workspace

end AgentDemo
