import AgentDemo.Plugins.Workspace

/-! The plugins stay in the workspace, whatever links there are, unless a request runs into a loop
of links. -/
namespace AgentDemo

open FileTree (Entry Follows LinkFree Tree Target names)

/-- In the workspace, and behind no name that the plugins do not show. -/
def Workspace.Inside (w : Workspace) (loc : List String) : Prop :=
  w.root <+: loc ∧ ∀ name ∈ forbiddenNames, name ∉ loc

theorem protectedParts_eq_nil {path : List String} :
    protectedParts path = [] ↔ ∀ name ∈ forbiddenNames, name ∉ path := by
  unfold protectedParts
  rw [← List.length_eq_zero_iff, List.length_insertionSort, List.length_eq_zero_iff,
    List.filter_eq_nil_iff]
  simp

namespace Workspace

variable {w : Workspace} {text verb : String} {target loc : List String}

theorem ensureAllowedPath_eq_ok : w.ensureAllowedPath verb target = .ok () ↔ w.Inside target := by
  unfold ensureAllowedPath Inside
  by_cases hroot : w.root <+: target
  · rw [if_pos hroot]
    cases hparts : protectedParts target with
    | nil => exact ⟨fun _ => ⟨hroot, protectedParts_eq_nil.mp hparts⟩, fun _ => rfl⟩
    | cons blocked rest =>
      have hforbidden : ¬ ∀ name ∈ forbiddenNames, name ∉ target := fun h => by
        rw [protectedParts_eq_nil.mpr h] at hparts
        cases hparts
      simp [hforbidden]
  · rw [if_neg hroot]
    simp [hroot]

/-- Under a path without links the system finds what is at its location. -/
theorem opened_of_linkFree (h : LinkFree w.tree target) : w.opened target = w.tree.get target := by
  unfold opened
  cases hwalk : w.tree.walk w.maxLinks [] (names target) with
  | ok loc =>
    obtain ⟨k, -, hfollows⟩ := Tree.walk_eq_ok.mp hwalk
    exact congrArg w.tree.get (FileTree.eq_of_follows_linkFree h hfollows)
  | error e =>
    cases hget : w.tree.get target with
    | none => rfl
    | some entry =>
      have hok := Tree.walk_eq_ok.mpr
        ⟨0, Nat.zero_le w.maxLinks, FileTree.follows_of_linkFree h hget⟩
      rw [hok] at hwalk
      cases hwalk

/-- What the first two steps let through. -/
theorem of_allowedTarget (h : w.allowedTarget verb text = .ok target) :
    ∃ parts, w.requested text = .ok parts ∧ target = w.tree.realPath w.maxLinks parts ∧
      w.Inside target := by
  unfold allowedTarget at h
  split at h
  · cases h
  next target' hresolve =>
    split at h
    · cases h
    next hallowed =>
      obtain rfl := Except.ok.inj h
      unfold resolveWorkspacePath at hresolve
      split at hresolve
      · cases hresolve
      next parts hrequested =>
        dsimp only at hresolve
        split at hresolve
        · cases hresolve
        · obtain rfl := Except.ok.inj hresolve
          exact ⟨parts, hrequested, rfl, ensureAllowedPath_eq_ok.mp hallowed⟩

/-- Without a loop of links a target is let through exactly where it is inside. -/
theorem allowedTarget_of_ok {parts : List (FileTree.Part String)}
    (hrequested : w.requested text = .ok parts)
    (hok : (w.tree.resolve w.maxLinks parts).ok = true) :
    w.allowedTarget verb text = .ok target ↔
      target = w.tree.realPath w.maxLinks parts ∧ w.Inside target := by
  constructor
  · intro h
    obtain ⟨parts', hrequested', htarget, hinside⟩ := of_allowedTarget h
    obtain rfl := Except.ok.inj (hrequested.symm.trans hrequested')
    exact ⟨htarget, hinside⟩
  · rintro ⟨rfl, hinside⟩
    obtain ⟨-, hfree⟩ := FileTree.realPath_of_ok hok
    have hresolve : w.resolveWorkspacePath text = .ok (w.tree.realPath w.maxLinks parts) := by
      unfold resolveWorkspacePath
      rw [hrequested]
      dsimp only
      split
      next hloop => exact absurd hloop (FileTree.walk_ne_loop w.maxLinks hfree)
      next => rfl
    unfold allowedTarget
    rw [hresolve]
    dsimp only
    rw [ensureAllowedPath_eq_ok.mpr hinside]

/-- The request runs into a loop of links; the system does not open it. -/
def MeetsLoop (w : Workspace) (text : String) : Prop :=
  ∃ parts, w.requested text = .ok parts ∧ (w.tree.resolve w.maxLinks parts).ok = false ∧
    ∀ loc k, ¬ Follows w.tree [] parts loc k

theorem meetsLoop_of_not_ok {parts : List (FileTree.Part String)}
    (hrequested : w.requested text = .ok parts)
    (hok : (w.tree.resolve w.maxLinks parts).ok ≠ true) : w.MeetsLoop text :=
  ⟨parts, hrequested, by simpa using hok, fun _ _ h => hok (FileTree.resolve_of_follows _ h).1⟩

/-- Where a plugin arrives: inside, at a location and not a link, or after a loop of links. -/
theorem allowedTarget_cases (h : w.allowedTarget verb text = .ok target) :
    w.Inside target ∧ (LinkFree w.tree target ∨ w.MeetsLoop text) := by
  obtain ⟨parts, hrequested, rfl, hinside⟩ := of_allowedTarget h
  refine ⟨hinside, ?_⟩
  by_cases hok : (w.tree.resolve w.maxLinks parts).ok = true
  · exact Or.inl (FileTree.realPath_of_ok hok).2
  · exact Or.inr (meetsLoop_of_not_ok hrequested hok)

/-! ### read_file -/

theorem readFile_eq_ok {r : FileText} :
    w.readFile text = .ok r ↔ ∃ target bytes content, w.allowedTarget "read" text = .ok target ∧
      w.opened target = some (.file bytes) ∧ JsonText.decode bytes = some content ∧
      r = ⟨pathText target, content.length, content.take 8000⟩ := by
  unfold readFile
  cases htarget : w.allowedTarget "read" text with
  | error e => simp
  | ok target =>
    cases hopened : w.opened target with
    | none => simp [hopened]
    | some entry =>
      cases entry with
      | dir => simp [hopened]
      | link link => simp [hopened]
      | file bytes =>
        cases hdecode : JsonText.decode bytes with
        | none => simp [hopened, hdecode]
        | some content => simp [hopened, hdecode, eq_comm]

/-- What the system opens under a path is what `read_file` returns, where that is an UTF-8 file in
the workspace. -/
theorem readFile_of_follows {parts : List (FileTree.Part String)} {k : ℕ} {r : FileText}
    (hrequested : w.requested text = .ok parts) (hfollows : Follows w.tree [] parts loc k) :
    w.readFile text = .ok r ↔ w.Inside loc ∧ ∃ bytes content, w.tree.get loc = some (.file bytes) ∧
      JsonText.decode bytes = some content ∧
      r = ⟨pathText loc, content.length, content.take 8000⟩ := by
  obtain ⟨hok, rfl⟩ := FileTree.resolve_of_follows w.maxLinks hfollows
  have hfree := (FileTree.realPath_of_ok hok).2
  rw [readFile_eq_ok, ← opened_of_linkFree hfree]
  constructor
  · rintro ⟨target, bytes, content, htarget, hopened, hdecode, hr⟩
    obtain ⟨rfl, hinside⟩ := (allowedTarget_of_ok hrequested hok).mp htarget
    exact ⟨hinside, bytes, content, hopened, hdecode, hr⟩
  · rintro ⟨hinside, bytes, content, hopened, hdecode, hr⟩
    exact ⟨_, bytes, content, (allowedTarget_of_ok hrequested hok).mpr ⟨rfl, hinside⟩, hopened,
      hdecode, hr⟩

/-- A text that `read_file` returns is the start of a file that lies in the workspace itself,
behind no link and no protected name, unless the request has run into a loop of links. -/
theorem readFile_confined {r : FileText} (h : w.readFile text = .ok r) :
    (∃ loc bytes content, w.Inside loc ∧ LinkFree w.tree loc ∧ w.tree.get loc = some (.file bytes) ∧
      JsonText.decode bytes = some content ∧
      r = ⟨pathText loc, content.length, content.take 8000⟩) ∨ w.MeetsLoop text := by
  obtain ⟨target, bytes, content, htarget, hopened, hdecode, hr⟩ := readFile_eq_ok.mp h
  obtain ⟨hinside, hfree | hloop⟩ := allowedTarget_cases htarget
  · rw [opened_of_linkFree hfree] at hopened
    exact Or.inl ⟨target, bytes, content, hinside, hfree, hopened, hdecode, hr⟩
  · exact Or.inr hloop

end Workspace

/-! A workspace with a link to a file, a link to itself and a link to a file outside. -/

def sampleTree : Tree String (List UInt8) where
  entries := [(["srv"], .dir), (["srv", "secret.txt"], .file [107, 101, 121]),
    (["srv", "app"], .dir), (["srv", "app", "notes.txt"], .file [104, 105]),
    (["srv", "app", "latest"], .link ⟨false, [.here, .name "notes.txt"]⟩),
    (["srv", "app", "loop"], .link ⟨false, [.name "loop"]⟩),
    (["srv", "app", "out.txt"], .link ⟨true, [.name "srv", .name "secret.txt"]⟩)]
  keys := by decide
  parent := by decide

def sampleWorkspace : Workspace where
  tree := sampleTree
  root := ["srv", "app"]
  maxLinks := 40
  expanduser path := path
  lower text := String.ofList (text.toList.map Char.toLower)
  decodeIgnore bytes := bytes.map fun b => Char.ofNat b.toNat

theorem readFile_sampleLatest : sampleWorkspace.readFile "latest" =
    .ok ⟨"/srv/app/notes.txt", 2, ['h', 'i']⟩ := by
  decide +kernel

namespace Workspace

theorem readFile_of_follows_sample : sampleWorkspace.Inside ["srv", "app", "notes.txt"] ∧
    ∃ bytes content, sampleTree.get ["srv", "app", "notes.txt"] = some (.file bytes) ∧
      JsonText.decode bytes = some content ∧
      (⟨"/srv/app/notes.txt", 2, ['h', 'i']⟩ : FileText) =
        ⟨pathText ["srv", "app", "notes.txt"], content.length, content.take 8000⟩ := by
  have hwalk : sampleTree.walk 40 [] [.name "srv", .name "app", .name "latest"] =
      .ok ["srv", "app", "notes.txt"] := by decide +kernel
  obtain ⟨k, -, hfollows⟩ := Tree.walk_eq_ok.mp hwalk
  have hrequested : sampleWorkspace.requested "latest" =
      .ok [.name "srv", .name "app", .name "latest"] := by decide +kernel
  exact (readFile_of_follows hrequested hfollows).mp readFile_sampleLatest

theorem readFile_confined_sample :
    (∃ loc bytes content, sampleWorkspace.Inside loc ∧ LinkFree sampleTree loc ∧
      sampleTree.get loc = some (.file bytes) ∧ JsonText.decode bytes = some content ∧
      (⟨"/srv/app/notes.txt", 2, ['h', 'i']⟩ : FileText) =
        ⟨pathText loc, content.length, content.take 8000⟩) ∨ sampleWorkspace.MeetsLoop "latest" :=
  readFile_confined readFile_sampleLatest

end Workspace

example : sampleWorkspace.readFile "out.txt" =
    .error (.valueError "Refusing to read outside workspace: /srv/secret.txt") := by
  decide +kernel

/-- Behind a loop the components are left as they are, and a link leads outside. -/
example : sampleWorkspace.readFile "loop/../out.txt" =
    .ok ⟨"/srv/app/out.txt", 3, ['k', 'e', 'y']⟩ := by
  decide +kernel

end AgentDemo
